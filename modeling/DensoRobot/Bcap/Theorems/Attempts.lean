import DensoRobot.Lib.Cycle
import DensoRobot.Bcap.Form
import DensoRobot.Bcap.Attempts

open HRESULT Function

namespace Bcap

-- Each packet has numbers, a call's `reserv` is the number of its first attempt, and the numbers of
-- consecutive attempts differ.
structure Numbered (log : List (List BcapPacket)) : Prop where
  nonzero  : ∀ p ∈ log.flatten, p.serial ≠ 0 ∧ p.reserv ≠ 0
  first    : ∀ call ∈ log, ∀ p ∈ call, call.head?.map BcapPacket.serial = some p.reserv
  distinct : ∀ window, window <:+: log.flatten → window.length ≤ 65535 →
    (window.map BcapPacket.serial).Nodup

-- The `reserv` of a call is not the number of an attempt of another call among the 65534 attempts
-- before it, nor the `reserv` of another call whose first attempt is among them.
structure Apart (log : List (List BcapPacket)) : Prop where
  serial : ∀ {before call after window}, log = before ++ call :: after →
    window <:+ before.flatten → window.length ≤ 65534 →
    ∀ p ∈ call, ∀ q ∈ window, p.reserv ≠ q.serial
  reserv : ∀ {before other between call after},
    log = before ++ other :: (between ++ call :: after) →
    other.length + between.flatten.length ≤ 65534 →
    ∀ p ∈ call, ∀ q ∈ other, p.reserv ≠ q.reserv

section

variable {host : Host} {fuel : Nat} {port : Port σ} {client client' : Client}
variable {packetSend packetRecv packetRecv' : BcapPacket} {next : Nat} {state state' : σ}

-- An attempt takes the next number.
theorem attempt_client {a : Attempted σ}
    (h : attempt host fuel port packetSend client packetRecv next state = .ok a) :
    a.client = { client with serial := nextSerial client.serial } := by
  obtain ⟨r, -, h⟩ := ok_of_bind h
  dsimp only at h
  split at h
  case isTrue => cases h; rfl
  case isFalse =>
    obtain ⟨w, -, h⟩ := ok_of_bind h
    cases h
    rfl

-- The attempts take their numbers one after the other.
theorem attempted_eq (retry : Nat) : ∃ n,
    attempted host fuel port packetSend retry client packetRecv next state =
      (List.iterate nextSerial client.serial n).map fun serial => { packetSend with serial } := by
  induction retry generalizing client packetRecv next state
  case zero => exact ⟨0, rfl⟩
  case succ retry ih =>
    have hnil : ∃ n, [{ packetSend with serial := client.serial }] =
        (List.iterate nextSerial client.serial n).map fun serial => { packetSend with serial } :=
      ⟨1, rfl⟩
    rw [attempted]
    cases ha : attempt host fuel port packetSend client packetRecv next state
    case error e => exact hnil
    case ok a =>
      by_cases hr : a.again
      case neg =>
        simp only [if_neg hr]
        exact hnil
      case pos =>
        obtain ⟨n, hn⟩ := @ih a.client a.packetRecv a.next a.state
        rw [attempt_client ha] at hn
        simp only [if_pos hr, attempt_client ha, hn]
        exact ⟨n + 1, rfl⟩

-- The client counts the attempts.
theorem attempts_client {hr hr' : HRESULT} (retry : Nat)
    (h : attempts host fuel port packetSend retry client hr packetRecv next state =
      .ok (hr', client', packetRecv', state')) :
    client' = { client with
      serial := nextSerial^[(attempted host fuel port packetSend retry client packetRecv next
        state).length] client.serial } := by
  induction retry generalizing client hr packetRecv next state
  case zero =>
    cases h
    rfl
  case succ retry ih =>
    rw [attempts] at h
    rw [attempted]
    obtain ⟨a, ha, h⟩ := ok_of_bind h
    have hclient := attempt_client ha
    simp only [ha]
    by_cases hr : a.again
    case pos =>
      simp only [if_pos hr] at h ⊢
      rw [ih h, hclient]
      rfl
    case neg =>
      simp only [if_neg hr] at h ⊢
      cases h
      exact hclient

theorem sendReceive_client {hr : HRESULT} {c : Call σ}
    (h : sendReceive host fuel port client c.packetSend c.packetRecv c.next c.state =
      .ok (hr, client', packetRecv', state')) :
    client' = { client with
      serial := nextSerial^[(c.sent host fuel port client).length] client.serial } := by
  rw [sendReceive] at h
  obtain ⟨r, ha, h⟩ := ok_of_bind h
  cases h
  exact attempts_client client.retry ha

-- All attempts on a connection take their numbers one after the other.
theorem sent_serials (client : Client) (ops : List (Request σ)) :
    (sent host fuel port client ops).flatten.map BcapPacket.serial =
      List.iterate nextSerial client.serial (sent host fuel port client ops).flatten.length := by
  induction ops generalizing client
  case nil => rfl
  case cons op ops ih =>
    cases op
    case setRetry retry => exact ih _
    case call c =>
      have hc : ∃ n, c.sent host fuel port client =
          (List.iterate nextSerial client.serial n).map fun serial =>
            { c.packetSend with
              serial, reserv := if port.type = .tcp then 0 else client.serial } :=
        attempted_eq client.retry
      obtain ⟨n, hn⟩ := hc
      have hserial : (c.sent host fuel port client).map BcapPacket.serial =
          List.iterate nextSerial client.serial (c.sent host fuel port client).length := by
        simp only [hn, List.map_map, List.length_map, List.length_iterate]
        exact List.map_id _
      rw [sent, List.flatten_cons, List.map_append, List.length_append, List.iterate_add, hserial]
      refine congrArg _ ?_
      cases hr : sendReceive host fuel port client c.packetSend c.packetRecv c.next c.state
      case error e => rfl
      case ok r =>
        have hclient : r.2.1.serial =
            nextSerial^[(c.sent host fuel port client).length] client.serial :=
          congrArg Client.serial (sendReceive_client hr)
        exact hclient ▸ ih r.2.1

-- The attempts of a call have the number of the first one.
theorem sent_first (ht : port.type ≠ .tcp) (client : Client) (ops : List (Request σ)) :
    ∀ call ∈ sent host fuel port client ops, ∀ p ∈ call,
      call.head?.map BcapPacket.serial = some p.reserv := by
  induction ops generalizing client
  case nil => simp [sent]
  case cons op ops ih =>
    cases op
    case setRetry retry => exact ih _
    case call c =>
      have hc : ∃ n, c.sent host fuel port client =
          (List.iterate nextSerial client.serial n).map fun serial =>
            { c.packetSend with
              serial, reserv := if port.type = .tcp then 0 else client.serial } :=
        attempted_eq client.retry
      obtain ⟨n, hn⟩ := hc
      rw [sent, List.forall_mem_cons]
      constructor
      case left =>
        intro p hp
        rw [hn] at hp ⊢
        obtain ⟨s, hs, rfl⟩ := List.mem_map.mp hp
        cases n
        case zero   => cases hs
        case succ n =>
          simp only [List.iterate, List.map_cons, List.head?_cons, Option.map_some, if_neg ht]
      case right =>
        cases sendReceive host fuel port client c.packetSend c.packetRecv c.next c.state
        case error e => simp
        case ok r    => exact ih r.2.1

end

-- The counter goes through the numbers from 1 to 65535.

theorem nextSerial_eq {serial : Nat} (h : serial < 65535) :
    nextSerial (serial + 1) = (serial + 1) % 65535 + 1 := by
  have hu : u16 (serial + 1 + 1) = (serial + 1 + 1) % 65536 := rfl
  by_cases hz : u16 (serial + 1 + 1) = 0
  case pos =>
    rw [nextSerial, if_pos hz]
    omega
  case neg =>
    rw [nextSerial, if_neg hz]
    omega

theorem iterate_nextSerial (n : Nat) : nextSerial^[n] 1 = n % 65535 + 1 := by
  induction n
  case zero      => rfl
  case succ n ih =>
    rw [iterate_succ_apply', ih, nextSerial_eq (Nat.mod_lt n (by decide))]
    omega

theorem one_mem_periodicPts : 1 ∈ periodicPts nextSerial :=
  mk_mem_periodicPts (by decide : 0 < 65535) (iterate_nextSerial 65535)

theorem minimalPeriod_nextSerial : minimalPeriod nextSerial 1 = 65535 := by
  apply Nat.le_antisymm
  case h₁ => exact IsPeriodicPt.minimalPeriod_le (by decide) (iterate_nextSerial 65535)
  case h₂ =>
    have hpos := minimalPeriod_pos_of_mem_periodicPts one_mem_periodicPts
    have hper : nextSerial^[minimalPeriod nextSerial 1] 1 = 1 :=
      isPeriodicPt_minimalPeriod nextSerial 1
    rw [iterate_nextSerial] at hper
    omega

theorem Numbered.apart {log : List (List BcapPacket)} (h : Numbered log) : Apart log := by
  have hserial {before after : List (List BcapPacket)} {call window : List BcapPacket}
      (hlog : log = before ++ call :: after) (hw : window <:+ before.flatten)
      (hl : window.length ≤ 65534) : ∀ p ∈ call, ∀ q ∈ window, p.reserv ≠ q.serial := by
    intro p hp q hq heq
    cases call
    case nil => cases hp
    case cons first rest =>
      have hmem : (first :: rest) ∈ log := hlog ▸ List.mem_append_right _ List.mem_cons_self
      have hfirst : first.serial = p.reserv := Option.some.inj (h.first _ hmem p hp)
      have hinfix : window ++ [first] <:+: log.flatten := by
        obtain ⟨pre, hpre⟩ := hw
        refine ⟨pre, rest ++ after.flatten, ?_⟩
        rw [hlog, List.flatten_append, List.flatten_cons, ← hpre]
        simp
      have hnodup := h.distinct _ hinfix (by rw [List.length_append]; exact Nat.succ_le_succ hl)
      rw [List.map_append, List.nodup_append] at hnodup
      exact hnodup.2.2 q.serial (List.mem_map_of_mem hq) first.serial (by simp)
        (heq.symm.trans hfirst.symm)
  constructor
  case serial => exact hserial
  case reserv =>
    intro before other between call after hlog hl p hp q hq
    cases other
    case nil => cases hq
    case cons first rest =>
      have hmem : (first :: rest) ∈ log := hlog ▸ List.mem_append_right _ List.mem_cons_self
      have hfirst : first.serial = q.reserv := Option.some.inj (h.first _ hmem q hq)
      have hlog' : log = (before ++ (first :: rest) :: between) ++ call :: after := by
        rw [hlog, List.append_assoc, List.cons_append]
      have hw : (first :: rest) ++ between.flatten <:+
          (before ++ (first :: rest) :: between).flatten := by
        rw [List.flatten_append, List.flatten_cons]
        exact List.suffix_append _ _
      rw [← hfirst]
      exact hserial hlog' hw (by rwa [List.length_append]) p hp first (by simp)

-- No two attempts are mistaken for each other, from the first call on.
theorem sent_numbered (host : Host) (fuel : Nat) (port : Port σ) (ht : port.type ≠ .tcp)
    (arg retry : Nat) (ops : List (Request σ)) :
    Numbered (sent host fuel port ⟨arg, retry, 1⟩ ops) ∧
      Apart (sent host fuel port ⟨arg, retry, 1⟩ ops) := by
  generalize hlog : sent host fuel port ⟨arg, retry, 1⟩ ops = log
  have hserials : log.flatten.map BcapPacket.serial =
      List.iterate nextSerial 1 log.flatten.length := hlog ▸ sent_serials _ ops
  have hfirst : ∀ call ∈ log, ∀ p ∈ call, call.head?.map BcapPacket.serial = some p.reserv :=
    hlog ▸ sent_first ht _ ops
  have hserial : ∀ p ∈ log.flatten, p.serial ≠ 0 := by
    intro p hp
    have hmem := hserials ▸ List.mem_map_of_mem (f := BcapPacket.serial) hp
    obtain ⟨k, _, hk⟩ := List.mem_iterate.mp hmem
    rw [iterate_nextSerial] at hk
    omega
  have h : Numbered log := by
    constructor
    case first => exact hfirst
    case nonzero =>
      intro p hp
      obtain ⟨call, hcall, hpc⟩ := List.mem_flatten.mp hp
      have hf := hfirst call hcall p hpc
      obtain ⟨q, hq, hqs⟩ := Option.map_eq_some_iff.mp hf
      have hq' := hserial q (List.mem_flatten.mpr ⟨call, hcall, List.mem_of_head? hq⟩)
      exact ⟨hserial p hp, hqs ▸ hq'⟩
    case distinct =>
      intro window hw hl
      have hinfix : window.map BcapPacket.serial <:+: List.iterate nextSerial 1
          log.flatten.length :=
        hserials ▸ hw.map BcapPacket.serial
      apply Cycle.nodup_of_infix one_mem_periodicPts hinfix
      rwa [List.length_map, minimalPeriod_nextSerial]
  exact ⟨h, h.apart⟩

-- A server that does not answer.
def silentPort : Port Unit where
  type       := .udp
  dnRecv _ _ _ := (.fail eTimeout none, ())
  dnSend _ _   := (sOk, ())

def bare (serial reserv : Nat) : BcapPacket :=
  ⟨serial, reserv, 0, 0, none⟩

def bareCall : Call Unit :=
  ⟨bare 0 0, bare 0 0, 0, ()⟩

theorem silent_send (serial reserv : Nat) :
    bcapSend silentPort ampleHost (bare serial reserv) () = .ok (sOk, ()) := rfl

theorem silent_await (arg serial next : Nat) (q : BcapPacket) :
    await ampleHost 2 silentPort.toDevice arg serial 2 q next () =
      .ok (eTimeout, { q with argc := 1 }, next, ()) := rfl

theorem silent_attempts (reserv retry next : Nat) (client : Client) (hr : HRESULT)
    (q : BcapPacket) :
    (∃ hr' q', attempts ampleHost 2 silentPort (bare 0 reserv) retry client hr q next () =
      .ok (hr', { client with serial := nextSerial^[retry] client.serial }, q', ())) ∧
    attempted ampleHost 2 silentPort (bare 0 reserv) retry client q next () =
      (List.iterate nextSerial client.serial retry).map fun serial => bare serial reserv := by
  induction retry generalizing client hr q
  case zero => exact ⟨⟨hr, q, rfl⟩, rfl⟩
  case succ retry ih =>
    obtain ⟨⟨hr', q', hrun⟩, hlog⟩ :=
      ih { client with serial := nextSerial client.serial } eTimeout { q with argc := 1 }
    have hf : Failed eTimeout := failed_eTimeout
    have hsend : bcapSend silentPort ampleHost { bare 0 reserv with serial := client.serial } () =
        .ok (sOk, ()) := silent_send client.serial reserv
    have hattempt : attempt ampleHost 2 silentPort (bare 0 reserv) client q next () =
        .ok ⟨true, eTimeout, { client with serial := nextSerial client.serial },
          { q with argc := 1 }, next, ()⟩ := by
      simp only [attempt, hsend, silent_await, Exec.ok_bind, if_neg not_failed_sOk, hf]
      rfl
    constructor
    case left =>
      refine ⟨hr', q', ?_⟩
      simp only [attempts, hattempt, Exec.ok_bind, if_true]
      exact hrun
    case right =>
      simp only [attempted, hattempt, if_true, hlog]
      rfl

theorem silent_call (client : Client) :
    bareCall.sent ampleHost 2 silentPort client =
      (List.iterate nextSerial client.serial client.retry).map (bare · client.serial) :=
  (silent_attempts client.serial client.retry 0 client sOk { bare 0 0 with id := eFail }).2

theorem silent_cons (client : Client) (ops : List (Request Unit)) :
    sent ampleHost 2 silentPort client (.call bareCall :: ops) =
      (List.iterate nextSerial client.serial client.retry).map (bare · client.serial) ::
        sent ampleHost 2 silentPort
          { client with serial := nextSerial^[client.retry] client.serial } ops := by
  obtain ⟨hr, q, h⟩ :=
    (silent_attempts client.serial client.retry 0 client sOk { bare 0 0 with id := eFail }).1
  have hreserv : { bareCall.packetSend with
      reserv := if silentPort.type = .tcp then 0 else client.serial } = bare 0 client.serial := rfl
  have hrun : ∃ hr', sendReceive ampleHost 2 silentPort client bareCall.packetSend
    bareCall.packetRecv
      bareCall.next bareCall.state =
      .ok (hr', { client with serial := nextSerial^[client.retry] client.serial }, q, ()) := by
    refine ⟨if Succeeded hr then q.id else hr, ?_⟩
    simp only [sendReceive, hreserv]
    exact congrArg (· >>= _) h
  obtain ⟨hr', hrun⟩ := hrun
  rw [sent, silent_call]
  simp only [hrun]

-- Calls with one attempt each.
theorem silent_singles (arg serial n : Nat) :
    sent ampleHost 2 silentPort ⟨arg, 1, serial⟩ (List.replicate n (.call bareCall)) =
      (List.iterate nextSerial serial n).map fun serial => [bare serial serial] := by
  induction n generalizing serial
  case zero      => rfl
  case succ n ih =>
    rw [List.replicate_succ, silent_cons]
    exact congrArg _ (ih (nextSerial serial))

-- A call with two attempts, and calls with one attempt each.
theorem silent_straddled (n : Nat) : ∃ singles : List (List BcapPacket),
    singles.flatten.length = n ∧
      sent ampleHost 2 silentPort ⟨0, 2, 1⟩
        (.call bareCall :: .setRetry 1 :: List.replicate (n + 1) (.call bareCall)) =
        ([bare 1 1, bare 2 1] :: singles) ++ [[bare (nextSerial^[n] 3) (nextSerial^[n] 3)]] := by
  refine ⟨(List.iterate nextSerial 3 n).map fun serial => [bare serial serial], ?_, ?_⟩
  case refine_1 => simp [List.length_flatten, Function.comp_def]
  case refine_2 =>
    rw [silent_cons, sent]
    refine congrArg (List.cons _) ((silent_singles 0 3 (n + 1)).trans ?_)
    rw [List.iterate_add, List.map_append]
    rfl

theorem iterate_nextSerial_three : nextSerial^[65533] 3 = 1 := by
  have h3 : nextSerial^[2] 1 = 3 := rfl
  rw [← h3, ← iterate_add_apply]
  exact iterate_nextSerial 65535

theorem twice_numbered : Numbered (sent ampleHost 2 silentPort ⟨0, 2, 1⟩ [.call bareCall]) ∧
    Apart (sent ampleHost 2 silentPort ⟨0, 2, 1⟩ [.call bareCall]) :=
  sent_numbered ampleHost 2 silentPort (by decide) 0 2 [.call bareCall]

-- The `reserv` of a call is also that of a call with two attempts, the second of which is among the
-- 65534 attempts before.
theorem straddled_not_apart :
    ¬∀ (σ : Type) (host : Host) (fuel : Nat) (port : Port σ) (arg retry : Nat)
      (ops : List (Request σ)), port.type ≠ .tcp →
      Numbered (sent host fuel port ⟨arg, retry, 1⟩ ops) ∧
      ∀ before call after window,
        sent host fuel port ⟨arg, retry, 1⟩ ops = before ++ call :: after →
        window <:+ before.flatten → window.length ≤ 65534 →
        ∀ p ∈ call, ∀ q ∈ window, p.reserv ≠ q.serial ∧ p.reserv ≠ q.reserv := by
  intro h
  obtain ⟨singles, hlen, hlog⟩ := silent_straddled 65533
  rw [iterate_nextSerial_three] at hlog
  have hsuffix : [bare 2 1] ++ singles.flatten <:+ ([bare 1 1, bare 2 1] :: singles).flatten :=
    ⟨[bare 1 1], rfl⟩
  have hle : ([bare 2 1] ++ singles.flatten).length ≤ 65534 := by
    rw [List.length_append, hlen]
    exact Nat.le_refl _
  obtain ⟨_, hapart⟩ := h Unit ampleHost 2 silentPort 0 2 _ (by decide)
  have hne := hapart _ _ _ _ hlog hsuffix hle (bare 1 1) (by simp) (bare 2 1) (by simp)
  exact hne.2 rfl

end Bcap
