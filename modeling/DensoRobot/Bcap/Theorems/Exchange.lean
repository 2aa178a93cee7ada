import Mathlib.Data.List.InsertIdx
import DensoRobot.Lib.Run
import DensoRobot.Bcap.Exchange
import DensoRobot.Bcap.Theorems.Attempts

open HRESULT

namespace Bcap.Retry

theorem serialOf_eq (index : Nat) : serialOf index = index % 65535 + 1 :=
  iterate_nextSerial index

theorem serialOf_ne_zero (index : Nat) : serialOf index ≠ 0 :=
  serialOf_eq index ▸ Nat.succ_ne_zero _

theorem serialOf_succ (index : Nat) : serialOf (index + 1) = nextSerial (serialOf index) :=
  Function.iterate_succ_apply' nextSerial index 1

-- Attempts with the same serial number are the same unless the numbers have started over.
theorem index_eq_of_serialOf {i j : Nat} (h : serialOf i = serialOf j) (hle : i ≤ j)
    (hlt : j < i + 65535) : i = j := by
  rw [serialOf_eq, serialOf_eq] at h
  omega

namespace Exchange

-- What a call may return is what `bcap_callfunc` or a refusal has prepared for one of its attempts.
def Own (e : Exchange α) (call : Nat) (result : Result α) : Prop :=
  ∃ x ∈ e.executed ++ e.refused, x.attempt.call = call ∧ x.result = result

-- What a call returns was prepared for this very call, and no call returns twice.
structure Agrees (e : Exchange α) : Prop where
  own  : ∀ r ∈ e.returned, e.Own r.1 r.2
  once : (e.returned.map Prod.fst).Pairwise (· < ·)

-- A response is looked at by the client, and the last response by the server, while less than the
-- given number of attempts have been made since its own one.
def Timely (n : Nat) (e : Exchange α) : Act α → Prop
  | .receive   => ∀ w left r, e.waiting = some (w, left) → e.responses.head? = some r →
    w.index < r.attempt.index + n
  | .serve _ _ => ∀ p l, e.requests.head? = some p → e.lastSend = some l →
    p.first < l.attempt.index + n
  | _          => True

variable {α : Type} {line : Line} {e e' : Exchange α} {a : Act α} {p w : Attempt}
  {ps : List Attempt} {left : Nat}

section

-- The exchange is a session.

theorem toSession_start : (start : Exchange α).toSession = .start := rfl

theorem toSession_attempt (e : Exchange α) (first : Nat) (id : Int) (left : Nat) :
    (e.attempt first id left).toSession = e.toSession.attempt (serialOf first) id left := by
  cases left
  case zero => rfl
  case succ left =>
    have hserial : serialOf (e.attempts.length + 1) = nextSerial (serialOf e.attempts.length) :=
      serialOf_succ _
    simp only [attempt, toSession, Session.attempt, List.length_append,
      List.length_singleton, hserial, List.map_append, Option.map_some]
    rfl

theorem toSession_receive (e : Exchange α) (w : Attempt) (left : Nat) (r : Reply α) :
    (e.receive w r).toSession =
      e.toSession.receive ⟨serialOf w.first, serialOf w.index, w.id, left⟩ r.toResponse := by
  by_cases h : serialOf w.index = serialOf r.attempt.index ∧ r.result.id ≠ sExecuting
  case pos =>
    have hs : serialOf w.index = r.toResponse.serial ∧ r.toResponse.id ≠ sExecuting := h
    rw [receive, if_pos h, Session.receive, if_pos hs]
    rfl
  case neg =>
    have hs : ¬(serialOf w.index = r.toResponse.serial ∧ r.toResponse.id ≠ sExecuting) := h
    rw [receive, if_neg h, Session.receive, if_neg hs]

theorem toSession_send (e : Exchange α) (r : Reply α) :
    (e.send r).toSession = e.toSession.send r.toResponse := by
  simp only [send, toSession, List.map_append]
  rfl

theorem toSession_execute (e : Exchange α) (r : Reply α) (notices : Nat) :
    (e.execute r notices).toSession = e.toSession.execute r.attempt.toRequest notices := by
  simp only [execute, toSession, List.map_append, List.map_replicate]
  rfl

theorem toSession_record (e : Exchange α) (r : Reply α) :
    (e.record line r).toSession = e.toSession.record line r.attempt.toRequest r.toResponse := by
  rw [record, Session.record]
  split
  case isTrue h =>
    have hs : line = .udp ∧ r.attempt.toRequest.id = idServiceStop ∧ r.toResponse.id = sOk := h
    rw [if_pos hs]
    rfl
  case isFalse h =>
    have hs : ¬(line = .udp ∧ r.attempt.toRequest.id = idServiceStop ∧ r.toResponse.id = sOk) := h
    rw [if_neg hs]
    simp only [toSession, List.map_append]
    rfl

theorem answered_eq_some_iff {last : Result α} : e.answered p = some last ↔
    ∃ l, e.lastSend = some l ∧ serialOf l.attempt.index = serialOf p.first ∧ l.result = last := by
  simp [answered, Option.filter_eq_some_iff, and_assoc]

theorem effectiveReserv_toRequest (p : Attempt) :
    effectiveReserv p.toRequest = serialOf p.first :=
  if_neg (serialOf_ne_zero p.first)

-- The number of the last response tells whether there is one.
theorem toSession_lastSend_zero (e : Exchange α) :
    e.toSession.lastSend.serial = 0 ↔ e.lastSend = none := by
  rw [toSession]
  cases e.lastSend
  case none   => exact iff_of_true rfl rfl
  case some l => exact iff_of_false (serialOf_ne_zero l.attempt.index) nofun

theorem answered_eq_none_iff : e.answered p = none ↔
    e.toSession.lastSend.serial ≠ effectiveReserv p.toRequest := by
  rw [effectiveReserv_toRequest, toSession, answered]
  cases e.lastSend
  case none   => exact iff_of_true rfl (serialOf_ne_zero p.first).symm
  case some l => simp [Reply.toResponse]

theorem toSession_receiveExecute (e : Exchange α) (p : Attempt) (result : Result α)
    (notices : Nat) :
    (e.receiveExecute line p result notices).toSession =
      e.toSession.receiveExecute line p.toRequest result.id notices := by
  cases hl : e.answered p
  case none =>
    rw [receiveExecute, hl, Session.receiveExecute, if_neg (answered_eq_none_iff.mp hl)]
    exact (toSession_record ..).trans (by rw [toSession_send, toSession_execute]; rfl)
  case some last =>
    obtain ⟨l, hlast, hserial, rfl⟩ := answered_eq_some_iff.mp hl
    have heq : e.toSession.lastSend.serial = effectiveReserv p.toRequest := by
      rw [effectiveReserv_toRequest, toSession, hlast]
      exact hserial
    rw [receiveExecute, hl, Session.receiveExecute, if_pos heq]
    refine (toSession_send ..).trans ?_
    rw [Session.respond, toSession, hlast]
    rfl

theorem toSession_refuse (e : Exchange α) (p : Attempt) (refusal : Refusal) :
    (e.refuse p refusal).toSession = e.toSession.refuse p.toRequest refusal :=
  toSession_send ..

theorem refuses_iff {refusal : Refusal} :
    e.Refuses line p refusal ↔ e.toSession.Refuses line p.toRequest refusal := by
  cases refusal
  case maxConnect => exact and_congr_right fun _ => e.toSession_lastSend_zero.symm
  case busyProc   => exact answered_eq_none_iff
  case maxObject  => exact and_congr_left fun _ => answered_eq_none_iff
  case option hr  => exact and_congr_left fun _ => answered_eq_none_iff

theorem toSession_loseRequest (e : Exchange α) (i : Nat) :
    ({ e with requests := e.requests.eraseIdx i } : Exchange α).toSession =
      { e.toSession with requests := e.toSession.requests.eraseIdx i } := by
  simp only [toSession, List.eraseIdx_map]

theorem toSession_loseResponse (e : Exchange α) (i : Nat) :
    ({ e with responses := e.responses.eraseIdx i } : Exchange α).toSession =
      { e.toSession with responses := e.toSession.responses.eraseIdx i } := by
  simp only [toSession, List.eraseIdx_map]

-- A step of the exchange is one of the session.
theorem step_toSession (st : Step line e a e') :
    Session.Step line e.toSession a.toAct e'.toSession := by
  cases st
  case call retry id hw =>
    have hs : e.toSession.waiting = none := congrArg (Option.map _) hw
    rw [call, toSession_attempt]
    exact .call hs
  case expire w left hw =>
    have hs : e.toSession.waiting = some ⟨serialOf w.first, serialOf w.index, w.id, left⟩ :=
      congrArg (Option.map _) hw
    rw [toSession_attempt]
    exact .expire hs
  case receive w left r rs hw hr =>
    have hs : e.toSession.waiting = some ⟨serialOf w.first, serialOf w.index, w.id, left⟩ :=
      congrArg (Option.map _) hw
    have hrs : e.toSession.responses = r.toResponse :: rs.map Reply.toResponse :=
      congrArg (List.map _) hr
    rw [toSession_receive { e with responses := rs } w left]
    exact .receive hs hrs
  case loseRequest i  => exact toSession_loseRequest e i ▸ .loseRequest
  case loseResponse i => exact toSession_loseResponse e i ▸ .loseResponse
  case serve p ps result notices hp =>
    rw [toSession_receiveExecute]
    exact .serve (congrArg (List.map _) hp)
  case giveUp p ps result notices hl hp hn =>
    rw [toSession_execute]
    exact .giveUp hl (congrArg (List.map _) hp) (answered_eq_none_iff.mp hn)
  case refuse p ps refusal hp hr =>
    rw [toSession_refuse]
    exact .refuse (congrArg (List.map _) hp) (refuses_iff.mp hr)
  case forget hl => exact .forget hl

-- Any step of the session is one of the exchange.
theorem exists_step {b : Retry.Act} {s : Session} (st : Session.Step line e.toSession b s) :
    ∃ a, ∃ e' : Exchange α, Step line e a e' ∧ a.toAct = b ∧ e'.toSession = s := by
  cases st
  case call retry id hw =>
    have hw' : e.waiting = none := Option.map_eq_none_iff.mp hw
    exact ⟨.call retry id, _, .call hw', rfl, toSession_attempt _ _ id retry⟩
  case expire w hw =>
    obtain ⟨⟨w', left⟩, hw', rfl⟩ := Option.map_eq_some_iff.mp hw
    exact ⟨.expire, _, .expire hw', rfl, toSession_attempt e w'.first w'.id left⟩
  case receive w r rs hw hr =>
    obtain ⟨⟨w', left⟩, hw', rfl⟩ := Option.map_eq_some_iff.mp hw
    obtain ⟨r', rs', hr', rfl, rfl⟩ := List.map_eq_cons_iff.mp hr
    exact ⟨.receive, _, .receive hw' hr', rfl,
      toSession_receive { e with responses := rs' } w' left r'⟩
  case loseRequest i  => exact ⟨.loseRequest i, _, .loseRequest, rfl, toSession_loseRequest e i⟩
  case loseResponse i => exact ⟨.loseResponse i, _, .loseResponse, rfl, toSession_loseResponse e i⟩
  case serve p ps result notices hp =>
    obtain ⟨p', ps', hp', rfl, rfl⟩ := List.map_eq_cons_iff.mp hp
    exact ⟨.serve ⟨result, []⟩ notices, _, .serve hp', rfl,
      toSession_receiveExecute { e with requests := ps' } p' ⟨result, []⟩ notices⟩
  case giveUp p ps notices hl hp hn =>
    obtain ⟨p', ps', hp', rfl, rfl⟩ := List.map_eq_cons_iff.mp hp
    exact ⟨.giveUp ⟨sOk, []⟩ notices, _, .giveUp hl hp' (answered_eq_none_iff.mpr hn), rfl,
      toSession_execute { e with requests := ps' } ⟨p', ⟨sOk, []⟩⟩ notices⟩
  case refuse p ps refusal hp hr =>
    obtain ⟨p', ps', hp', rfl, rfl⟩ := List.map_eq_cons_iff.mp hp
    exact ⟨.refuse refusal, _, .refuse hp' (refuses_iff.mpr hr), rfl,
      toSession_refuse { e with requests := ps' } p' refusal⟩
  case forget hl => exact ⟨.forget, _, .forget hl, rfl, rfl⟩

end

-- The attempts that were executed or are on the way.
def sent (e : Exchange α) : List Attempt :=
  e.executed.map Reply.attempt ++ e.requests

-- The attempts of a call follow each other, and its packets are those of its attempts.
structure Tracked (e : Exchange α) : Prop where
  index    : e.attempts.map Attempt.index = List.range e.attempts.length
  block    : ∀ a ∈ e.attempts, ∀ b ∈ e.attempts, a.first ≤ b.index → b.index ≤ a.index →
    b.call = a.call
  bound    : ∀ a ∈ e.attempts, a.call ≤ e.calls
  latest   : ∀ w left, e.waiting = some (w, left) → e.attempts.getLast? = some w ∧
    w.call = e.calls ∧
    ∀ b ∈ e.attempts, w.first ≤ b.index → b.call = e.calls
  line     : e.sent.Sublist e.attempts

-- The responses carry what was prepared for their calls.
structure Answered (e : Exchange α) : Prop where
  responses : ∀ r ∈ e.responses, r.attempt ∈ e.attempts ∧
    (r.result.id = sExecuting ∨ e.Own r.attempt.call r.result)
  lastSend  : ∀ l, e.lastSend = some l → l ∈ e.executed

-- The calls that have returned.
structure Returned (e : Exchange α) : Prop where
  agrees : e.Agrees
  past   : ∀ r ∈ e.returned, r.1 ≤ e.calls ∧ (e.waiting.isSome → r.1 < e.calls)

structure Faithful (e : Exchange α) : Prop extends Tracked e, Answered e, Returned e

theorem faithful_start : Faithful (start : Exchange α) where
  index     := rfl
  block     := nofun
  bound     := nofun
  latest    := nofun
  line      := List.Sublist.refl []
  responses := nofun
  lastSend  := nofun
  agrees    := ⟨nofun, List.Pairwise.nil⟩
  past      := nofun

theorem Tracked.lt (h : Tracked e) {b : Attempt} (hb : b ∈ e.attempts) :
    b.index < e.attempts.length := by
  have hm : b.index ∈ e.attempts.map Attempt.index := List.mem_map_of_mem hb
  rwa [h.index, List.mem_range] at hm

theorem Tracked.unique (h : Tracked e) {b c : Attempt} (hb : b ∈ e.attempts) (hc : c ∈ e.attempts)
    (hi : b.index = c.index) : b = c := by
  have hn : (e.attempts.map Attempt.index).Nodup := h.index ▸ List.nodup_range
  exact List.inj_on_of_nodup_map hn hb hc hi

theorem Tracked.mem_of_executed (h : Tracked e) {x : Reply α} (hx : x ∈ e.executed) :
    x.attempt ∈ e.attempts :=
  h.line.subset (List.mem_append_left _ (List.mem_map_of_mem hx))

-- The attempt that is waited for is the last one.
theorem Tracked.waiting_index (h : Tracked e) (hw : e.waiting = some (w, left)) :
    w ∈ e.attempts ∧ w.index + 1 = e.attempts.length := by
  obtain ⟨before, hb⟩ := List.getLast?_eq_some_iff.mp (h.latest w left hw).1
  have hi := h.index
  rw [hb, List.map_append, List.length_append, List.length_singleton, List.range_succ] at hi
  have hlast := List.append_inj_right' hi rfl
  refine ⟨hb ▸ List.mem_append_right before (List.mem_singleton_self w), ?_⟩
  rw [hb, List.length_append, List.length_singleton]
  exact congrArg (· + 1) (List.singleton_inj.mp hlast)

-- The next attempt is one of the same call.
theorem Tracked.attempt (h : Tracked e) {first : Nat}
    (hcall : ∀ b ∈ e.attempts, first ≤ b.index → b.call = e.calls) (id : Int) (left : Nat) :
    (e.attempt first id left).Tracked := by
  cases left
  case zero =>
    exact { h with latest := fun w left hw => by cases hw }
  case succ left =>
    constructor
    case index =>
      simp only [Exchange.attempt, List.map_append, h.index, List.length_append,
        List.length_singleton, List.range_succ]
      rfl
    case block =>
      simp only [Exchange.attempt]
      rw [List.forall_mem_append]
      constructor
      case left =>
        intro a ha
        rw [List.forall_mem_append]
        refine ⟨h.block a ha, List.forall_mem_singleton.mpr fun _ hle => ?_⟩
        exact absurd (h.lt ha) (Nat.not_lt.mpr hle)
      case right =>
        refine List.forall_mem_singleton.mpr ?_
        rw [List.forall_mem_append]
        exact ⟨fun b hb hf _ => hcall b hb hf, List.forall_mem_singleton.mpr fun _ _ => rfl⟩
    case bound =>
      simp only [Exchange.attempt]
      rw [List.forall_mem_append]
      exact ⟨h.bound, List.forall_mem_singleton.mpr (Nat.le_refl _)⟩
    case latest =>
      rintro _ _ ⟨⟩
      simp only [Exchange.attempt]
      rw [List.forall_mem_append]
      exact ⟨List.getLast?_concat, trivial, hcall, List.forall_mem_singleton.mpr fun _ => rfl⟩
    case line =>
      simp only [sent, Exchange.attempt]
      rw [← List.append_assoc]
      exact h.line.append (List.Sublist.refl _)

theorem Tracked.call (h : Tracked e) (hw : e.waiting = none) (retry : Nat) (id : Int) :
    (e.call retry id).Tracked := by
  have hcalls : ({ e with calls := e.calls + 1 } : Exchange α).Tracked :=
    { h with
      bound  := fun a ha => Nat.le_succ_of_le (h.bound a ha)
      latest := fun w left hw' => by rw [hw] at hw'; cases hw' }
  exact hcalls.attempt (fun b hb hf => absurd (h.lt hb) (Nat.not_lt.mpr hf)) id retry

-- What the server and the line leave as it is. Requests are handled in their order or lost.
structure Handles (e e' : Exchange α) : Prop where
  attempts : e'.attempts = e.attempts
  calls    : e'.calls = e.calls
  waiting  : e'.waiting = e.waiting
  returned : e'.returned = e.returned
  sent     : e'.sent.Sublist e.sent
  executed : e.executed ⊆ e'.executed
  refused  : e.refused ⊆ e'.refused

theorem sent_drop (hp : e.requests = p :: ps) :
    ({ e with requests := ps } : Exchange α).sent.Sublist e.sent := by
  rw [sent, sent, hp]
  exact (List.sublist_cons_self p ps).append_left _

theorem execute_handles (hp : e.requests = p :: ps) (result : Result α) (notices : Nat) :
    Handles e ({ e with requests := ps }.execute ⟨p, result⟩ notices) := by
  refine ⟨rfl, rfl, rfl, rfl, ?_, List.subset_append_left .., List.Subset.refl _⟩
  simp only [sent, execute, List.map_append, List.append_assoc, hp]
  exact List.Sublist.refl _

theorem receiveExecute_handles (line : Line) (hp : e.requests = p :: ps) (result : Result α)
    (notices : Nat) : Handles e
    ({ e with requests := ps }.receiveExecute line p result notices) := by
  rw [receiveExecute]
  split
  case h_1 =>
    exact ⟨rfl, rfl, rfl, rfl, sent_drop hp, List.Subset.refl _, List.Subset.refl _⟩
  case h_2 =>
    have hx := execute_handles hp result notices
    rw [record]
    split
    case isTrue  => exact { hx with }
    case isFalse => exact { hx with }

theorem refuse_handles (hp : e.requests = p :: ps) (refusal : Refusal) :
    Handles e ({ e with requests := ps }.refuse p refusal) :=
  ⟨rfl, rfl, rfl, rfl, sent_drop hp, List.Subset.refl _, List.subset_append_left ..⟩

theorem Tracked.handles (h : Tracked e) (hh : Handles e e') : Tracked e' where
  index  := by rw [hh.attempts]; exact h.index
  block  := by rw [hh.attempts]; exact h.block
  bound  := by rw [hh.attempts, hh.calls]; exact h.bound
  latest := by rw [hh.attempts, hh.calls, hh.waiting]; exact h.latest
  line   := by rw [hh.attempts]; exact hh.sent.trans h.line

theorem Tracked.step (st : Step line e a e') (h : Tracked e) : Tracked e' := by
  cases st
  case call retry id hw => exact h.call hw retry id
  case expire w left hw => exact h.attempt (h.latest w left hw).2.2 w.id left
  case receive w left r rs hw _ =>
    rw [receive]
    split
    case isTrue  => exact { h with latest := fun _ _ hn => by cases hn }
    case isFalse => exact { h with }
  case loseRequest i  =>
    exact { h with line := ((List.eraseIdx_sublist ..).append_left _).trans h.line }
  case loseResponse i => exact { h with }
  case serve p ps result notices hp =>
    exact h.handles (receiveExecute_handles line hp result notices)
  case giveUp p ps result notices _ hp _ => exact h.handles (execute_handles hp result notices)
  case refuse p ps refusal hp _ => exact h.handles (refuse_handles hp refusal)
  case forget => exact { h with }

-- The request that is received next comes after those that were executed.
theorem Tracked.after_executed (h : Tracked e) (hp : e.requests = p :: ps) {x : Reply α}
    (hx : x ∈ e.executed) : x.attempt.index < p.index := by
  have hs := h.line.map Attempt.index
  rw [h.index, sent, hp] at hs
  have hlt := List.pairwise_lt_range.sublist hs
  rw [List.map_append, List.pairwise_append] at hlt
  exact hlt.2.2 x.attempt.index (List.mem_map_of_mem (List.mem_map_of_mem hx)) p.index
    (List.mem_map_of_mem List.mem_cons_self)

theorem Own.mono {call : Nat} {result : Result α} (h : e.Own call result)
    (hx : e.executed ⊆ e'.executed) (hr : e.refused ⊆ e'.refused) : e'.Own call result := by
  obtain ⟨x, hm, hc⟩ := h
  refine ⟨x, ?_, hc⟩
  rw [List.mem_append] at hm ⊢
  exact hm.imp (@hx x) (@hr x)

theorem own_of_executed {x : Reply α} (hx : x ∈ e.executed) : e.Own x.attempt.call x.result :=
  ⟨x, List.mem_append_left _ hx, rfl, rfl⟩

-- What the server takes for the response to a request was left by the callback of its call.
theorem Faithful.answered (h : Faithful e) (hp : e.requests = p :: ps) {last : Result α}
    (ht : ∀ l, e.lastSend = some l → p.first < l.attempt.index + 65535)
    (hlast : e.answered p = some last) : e.Own p.call last := by
  obtain ⟨l, hl, hserial, rfl⟩ := answered_eq_some_iff.mp hlast
  have hexecuted := h.lastSend l hl
  have hpm : p ∈ e.attempts := h.line.subset (by simp [sent, hp])
  have hlt : l.attempt.index < p.index := h.after_executed hp hexecuted
  have hfirst : p.first ≤ l.attempt.index := by
    by_contra hn
    have heq := index_eq_of_serialOf hserial (by omega) (ht l hl)
    omega
  have hlm := h.mem_of_executed hexecuted
  rw [← h.block p hpm l.attempt hlm hfirst (Nat.le_of_lt hlt)]
  exact own_of_executed hexecuted

theorem Answered.send (h : Answered e) {r : Reply α} (hm : r.attempt ∈ e.attempts)
    (ho : e.Own r.attempt.call r.result) : Answered (e.send r) where
  responses := List.forall_mem_append.mpr
    ⟨h.responses, List.forall_mem_singleton.mpr ⟨hm, .inr ho⟩⟩
  lastSend := h.lastSend

theorem Answered.execute (h : Answered e) {r : Reply α} (hm : r.attempt ∈ e.attempts)
    (notices : Nat) : Answered (e.execute r notices) := by
  constructor
  case responses =>
    refine List.forall_mem_append.mpr ⟨fun r' hr' => ?_, fun r' hr' => ?_⟩
    case refine_1 =>
      have hown := (h.responses r' hr').2
      refine ⟨(h.responses r' hr').1, hown.imp_right fun ho => ?_⟩
      exact ho.mono (List.subset_append_left ..) (List.Subset.refl _)
    case refine_2 =>
      rw [List.eq_of_mem_replicate hr']
      exact ⟨hm, .inl rfl⟩
  case lastSend => exact fun l hl => List.mem_append_left _ (h.lastSend l hl)

theorem Answered.record (h : Answered e) {r : Reply α} (hr : r ∈ e.executed) :
    Answered (e.record line r) := by
  rw [Exchange.record]
  split
  case isTrue  => exact { h with lastSend := nofun }
  case isFalse => exact { h with lastSend := by rintro _ ⟨⟩; exact hr }

theorem Answered.refuse (h : Answered e) (hm : p ∈ e.attempts) (refusal : Refusal) :
    Answered (e.refuse p refusal) := by
  let r : Reply α := ⟨p, ⟨refusal.hr, []⟩⟩
  have hrefused : Answered ({ e with refused := e.refused ++ [r] } : Exchange α) := by
    refine ⟨fun r' hr' => ⟨(h.responses r' hr').1, ?_⟩, h.lastSend⟩
    exact (h.responses r' hr').2.imp_right fun ho =>
      ho.mono (List.Subset.refl _) (List.subset_append_left ..)
  have hr : r ∈ e.executed ++ (e.refused ++ [r]) :=
    List.mem_append_right _ (List.mem_append_right _ (List.mem_singleton_self r))
  exact hrefused.send hm ⟨r, hr, rfl, rfl⟩

theorem Faithful.receiveExecute (h : Faithful e) (hp : e.requests = p :: ps)
    (ht : ∀ l, e.lastSend = some l → p.first < l.attempt.index + 65535) (result : Result α)
    (notices : Nat) : Answered
    ({ e with requests := ps }.receiveExecute line p result notices) := by
  have hm : p ∈ e.attempts := h.line.subset (by simp [sent, hp])
  have hps : Answered ({ e with requests := ps } : Exchange α) := { h.toAnswered with }
  rw [Exchange.receiveExecute]
  split
  case h_1 last hl => exact hps.send hm (h.answered hp ht hl)
  case h_2 =>
    have hx : (⟨p, result⟩ : Reply α) ∈ e.executed ++ [⟨p, result⟩] :=
      List.mem_append_right _ (List.mem_singleton_self _)
    exact ((hps.execute hm notices).send hm (own_of_executed hx)).record hx

theorem Answered.step (st : Step line e a e') (h : Faithful e) (ok : e.Timely 65535 a) :
    Answered e' := by
  have ha := h.toAnswered
  cases st
  case call retry id hw =>
    cases retry
    case zero => exact { ha with }
    case succ =>
      refine ⟨fun r hr => ?_, ha.lastSend⟩
      exact ⟨List.mem_append_left _ (ha.responses r hr).1, (ha.responses r hr).2⟩
  case expire w left hw =>
    cases left
    case zero => exact { ha with }
    case succ =>
      refine ⟨fun r hr => ?_, ha.lastSend⟩
      exact ⟨List.mem_append_left _ (ha.responses r hr).1, (ha.responses r hr).2⟩
  case receive w left r rs hw hr =>
    have hrs : Answered ({ e with responses := rs } : Exchange α) :=
      { ha with responses := fun r' hr' => ha.responses r' (hr ▸ List.mem_cons_of_mem r hr') }
    rw [receive]
    split
    case isTrue  => exact { hrs with }
    case isFalse => exact hrs
  case loseRequest i  => exact { ha with }
  case loseResponse i =>
    exact { ha with responses := fun r hr => ha.responses r (List.mem_of_mem_eraseIdx hr) }
  case serve p ps result notices hp =>
    exact h.receiveExecute hp (fun l hl => ok p l (by rw [hp, List.head?_cons]) hl) result notices
  case giveUp p ps result notices _ hp _ =>
    have hps : Answered ({ e with requests := ps } : Exchange α) := { ha with }
    exact hps.execute (h.line.subset (by simp [sent, hp])) notices
  case refuse p ps refusal hp _ =>
    have hps : Answered ({ e with requests := ps } : Exchange α) := { ha with }
    exact hps.refuse (h.line.subset (by simp [sent, hp])) refusal
  case forget => exact { ha with lastSend := nofun }

-- A response that the client takes for that of its call carries what was prepared for the call.
theorem Faithful.received (h : Faithful e) (hw : e.waiting = some (w, left)) {r : Reply α}
    (hr : r ∈ e.responses) (ht : w.index < r.attempt.index + 65535)
    (hserial : serialOf w.index = serialOf r.attempt.index) (hid : r.result.id ≠ sExecuting) :
    e.Own w.call r.result := by
  obtain ⟨hrm, hresult⟩ := h.responses r hr
  obtain ⟨hwm, hwi⟩ := h.waiting_index hw
  have hlt := h.lt hrm
  have heq : r.attempt = w := h.unique hrm hwm (index_eq_of_serialOf hserial.symm (by omega) ht)
  rw [← heq]
  exact hresult.resolve_left hid

theorem Returned.handles (h : Returned e) (hh : Handles e e') : Returned e' where
  agrees :=
    { own  := by
        rw [hh.returned]
        exact fun r hr => (h.agrees.own r hr).mono hh.executed hh.refused
      once := by rw [hh.returned]; exact h.agrees.once }
  past   := by rw [hh.returned, hh.calls, hh.waiting]; exact h.past

-- No call returns by making an attempt or giving up.
theorem Returned.attempt (h : Returned e) (hpast : ∀ r ∈ e.returned, r.1 < e.calls) (first : Nat)
    (id : Int) (left : Nat) : Returned (e.attempt first id left) := by
  cases left
  case zero =>
    exact ⟨⟨h.agrees.own, h.agrees.once⟩, fun r hr => ⟨Nat.le_of_lt (hpast r hr), nofun⟩⟩
  case succ =>
    exact ⟨⟨h.agrees.own, h.agrees.once⟩, fun r hr =>
      ⟨Nat.le_of_lt (hpast r hr), fun _ => hpast r hr⟩⟩

theorem Returned.step (st : Step line e a e') (h : Faithful e) (ok : e.Timely 65535 a) :
    Returned e' := by
  have hr := h.toReturned
  cases st
  case call retry id hw =>
    have hpast : ∀ r ∈ e.returned, r.1 < e.calls + 1 :=
      fun r hr => Nat.lt_succ_of_le (h.past r hr).1
    have hcalls : Returned ({ e with calls := e.calls + 1 } : Exchange α) :=
      ⟨⟨h.agrees.own, h.agrees.once⟩, fun r hr => ⟨Nat.le_of_lt (hpast r hr), fun _ => hpast r hr⟩⟩
    exact hcalls.attempt hpast _ id retry
  case expire w left hw =>
    exact hr.attempt (fun r hr => (h.past r hr).2 (by rw [hw]; rfl)) w.first w.id left
  case receive w left r rs hw hrs =>
    have hpast : ∀ r ∈ e.returned, r.1 < e.calls := fun r hr => (h.past r hr).2 (by rw [hw]; rfl)
    have hcall : w.call = e.calls := (h.latest w left hw).2.1
    rw [receive]
    split
    case isFalse => exact ⟨⟨h.agrees.own, h.agrees.once⟩, h.past⟩
    case isTrue hresponse =>
      obtain ⟨hserial, hid⟩ := hresponse
      have hhead : e.responses.head? = some r := by rw [hrs, List.head?_cons]
      have hown := h.received hw (hrs ▸ List.mem_cons_self) (ok w left r hw hhead) hserial hid
      constructor
      case agrees =>
        constructor
        case own =>
          rw [List.forall_mem_append]
          exact ⟨h.agrees.own, List.forall_mem_singleton.mpr hown⟩
        case once =>
          rw [List.map_append, List.pairwise_append]
          refine ⟨h.agrees.once, List.pairwise_singleton .., fun c hc d hd => ?_⟩
          obtain ⟨r', hr', rfl⟩ := List.mem_map.mp hc
          rw [List.mem_singleton.mp hd]
          exact hcall ▸ hpast r' hr'
      case past =>
        rw [List.forall_mem_append]
        exact ⟨fun r' hr' => ⟨Nat.le_of_lt (hpast r' hr'), nofun⟩,
          List.forall_mem_singleton.mpr ⟨Nat.le_of_eq hcall, nofun⟩⟩
  case loseRequest i  => exact ⟨⟨h.agrees.own, h.agrees.once⟩, h.past⟩
  case loseResponse i => exact ⟨⟨h.agrees.own, h.agrees.once⟩, h.past⟩
  case serve p ps result notices hp =>
    exact hr.handles (receiveExecute_handles line hp result notices)
  case giveUp p ps result notices _ hp _ => exact hr.handles (execute_handles hp result notices)
  case refuse p ps refusal hp _ => exact hr.handles (refuse_handles hp refusal)
  case forget => exact ⟨⟨h.agrees.own, h.agrees.once⟩, h.past⟩

theorem Faithful.step (st : Step line e a e') (ok : e.Timely 65535 a) (h : Faithful e) :
    Faithful e' where
  toTracked  := h.toTracked.step st
  toAnswered := Answered.step st h ok
  toReturned := Returned.step st h ok

theorem faithful_run {steps : List (Exchange α × Act α)} :
    Run (Step line) start steps e → (∀ p ∈ steps, p.1.Timely 65535 p.2) → Faithful e := by
  intro r ok
  have hkeep : ∀ {e e' : Exchange α} {a : Act α}, Step line e a e' → e.Timely 65535 a → Faithful e →
      Faithful e' := Faithful.step
  exact @Run.preserves _ _ (Step line) Faithful (Timely 65535) _ _ _ (fun st ok h => hkeep st ok h)
    r ok faithful_start

theorem Timely.mono {n m : Nat} (h : e.Timely n a) (hle : n ≤ m) : e.Timely m a := by
  cases a
  case receive =>
    exact fun w left r hw hr => Nat.lt_of_lt_of_le (h w left r hw hr) (Nat.add_le_add_left hle _)
  case serve   =>
    exact fun p l hp hl => Nat.lt_of_lt_of_le (h p l hp hl) (Nat.add_le_add_left hle _)
  all_goals trivial

-- A call is made, its request is lost, and it gives up.
structure Idle (e e' : Exchange α) (n : Nat) : Prop where
  attempts  : e'.attempts.length = e.attempts.length + n
  calls     : e'.calls = e.calls + n
  waiting   : e'.waiting = none
  requests  : e'.requests = []
  responses : e'.responses = e.responses
  executed  : e'.executed = e.executed
  refused   : e'.refused = e.refused

variable (line) in
theorem idle_run (e : Exchange α) (hw : e.waiting = none) (hp : e.requests = []) (m n : Nat) :
    ∃ steps e', Run (Step line) e steps e' ∧ (∀ p ∈ steps, p.1.Timely m p.2) ∧ Idle e e' n := by
  induction n
  case zero => exact ⟨[], e, .nil, nofun, ⟨rfl, rfl, hw, hp, rfl, rfl, rfl⟩⟩
  case succ n ih =>
    obtain ⟨steps, e', r, ok, h⟩ := ih
    let called := e'.call 1 idServiceStart
    have hlose : Step line called (.loseRequest e'.requests.length) _ := .loseRequest
    have hexpire : Step line
        { called with requests := called.requests.eraseIdx e'.requests.length } .expire _ :=
          .expire rfl
    refine ⟨_, _, r.trans (.cons (.call h.waiting) (.cons hlose (.cons hexpire .nil))), ?_, ?_⟩
    case refine_1 =>
      rw [List.forall_mem_append]
      refine ⟨ok, List.forall_mem_cons.mpr ⟨trivial, List.forall_mem_cons.mpr ⟨trivial, ?_⟩⟩⟩
      exact List.forall_mem_singleton.mpr trivial
    case refine_2 =>
      constructor
      case attempts =>
        simp only [called, call, attempt, List.length_append, h.attempts, List.length_singleton]
        rfl
      case calls => exact congrArg (· + 1) h.calls
      case waiting => rfl
      case requests => simp [called, call, attempt, h.requests]
      case responses => exact h.responses
      case executed => exact h.executed
      case refused => exact h.refused

def firstAttempt : Attempt :=
  ⟨1, 0, 0, idServiceStart⟩

-- The first call has been answered, but it has given up.
def unheard : Exchange α where
  attempts  := [firstAttempt]
  calls     := 1
  waiting   := none
  requests  := []
  responses := [⟨firstAttempt, ⟨sOk, []⟩⟩]
  lastSend  := some ⟨firstAttempt, ⟨sOk, []⟩⟩
  recorded  := [firstAttempt]
  executed  := [⟨firstAttempt, ⟨sOk, []⟩⟩]
  refused   := []
  returned  := []

variable (α line) in
theorem unheard_run (n : Nat) :
    ∃ steps, Run (Step line) start steps (unheard : Exchange α) ∧ ∀ p ∈ steps,
      p.1.Timely n p.2 := by
  let called : Exchange α := start.call 1 idServiceStart
  let served : Exchange α := { unheard with waiting := some (firstAttempt, 0) }
  have hserved : ({ called with requests := [] }).receiveExecute line firstAttempt ⟨sOk, []⟩ 0 =
      served := by cases line <;> rfl
  have hserve : Step line called (.serve ⟨sOk, []⟩ 0) served := by
    rw [← hserved]
    exact .serve rfl
  have hexpire : Step line served .expire (served.attempt 0 idServiceStart 0) :=
    .expire (w := firstAttempt) rfl
  refine ⟨_, .cons (.call rfl) (.cons hserve (.cons hexpire .nil)), ?_⟩
  refine List.forall_mem_cons.mpr ⟨trivial, List.forall_mem_cons.mpr ⟨?_, ?_⟩⟩
  case refine_1 => exact fun p l _ hl => by cases hl
  case refine_2 => exact List.forall_mem_singleton.mpr trivial

-- A response is taken for that of another call.
theorem receive_disagrees {r : Reply α} (hserial : serialOf w.index = serialOf r.attempt.index)
    (hid : r.result.id ≠ sExecuting) (hx : ¬e.Own w.call r.result) : ¬Agrees (e.receive w r) := by
  intro h
  rw [receive, if_pos ⟨hserial, hid⟩] at h
  exact hx (h.own _ (List.mem_append_right _ (List.mem_singleton_self _)))

-- The response to the first call is late by as many attempts as there are serial numbers.
theorem late_disagrees (line : Line) : ∃ steps, ∃ e : Exchange α, Run (Step line) start steps e ∧
    (∀ p ∈ steps, p.1.Timely 65536 p.2) ∧ ¬Agrees e := by
  obtain ⟨first, r₁, ok₁⟩ := unheard_run α line 65536
  obtain ⟨steps, e, r₂, ok₂, h⟩ := idle_run line (unheard : Exchange α) rfl rfl 65536 65534
  have hattempts : e.attempts.length = 65535 := by simp [h.attempts, unheard]
  have hcalls : e.calls = 1 + 65534 := h.calls
  let called := e.call 1 idServiceStart
  have hresponses : called.responses = [⟨firstAttempt, ⟨sOk, []⟩⟩] := h.responses
  have hexecuted : called.executed = [⟨firstAttempt, ⟨sOk, []⟩⟩] := h.executed
  have hrefused : called.refused = [] := h.refused
  have hwaiting : called.waiting = some (⟨e.calls + 1, 65535, 65535, idServiceStart⟩, 0) := by
    simp only [called, call, attempt, hattempts]
  have hrun : Run (Step line) e _ _ :=
    .cons (.call h.waiting) (.cons (.receive hwaiting hresponses) .nil)
  refine ⟨_, _, r₁.trans (r₂.trans hrun), ?_, ?_⟩
  case refine_1 =>
    refine List.forall_mem_append.mpr ⟨ok₁, List.forall_mem_append.mpr ⟨ok₂, ?_⟩⟩
    refine List.forall_mem_cons.mpr ⟨trivial, List.forall_mem_singleton.mpr ?_⟩
    intro w left r hw hr
    rw [hwaiting] at hw
    rw [hresponses] at hr
    cases hw
    cases hr
    show 65535 < 0 + 65536
    omega
  case refine_2 =>
    have hserial : serialOf 65535 = serialOf 0 := by rw [serialOf_eq, serialOf_eq]
    have hid : sOk ≠ sExecuting := by decide
    refine receive_disagrees hserial hid ?_
    rintro ⟨x, hx, hc, -⟩
    rw [hexecuted, hrefused, List.append_nil, List.mem_singleton] at hx
    subst hx
    have hfirst : 1 = e.calls + 1 := hc
    omega

-- A call returns nothing but what was prepared for it, and this once, as long as no packet is
-- looked at after the serial numbers have started over.
theorem agrees_iff_timely (line : Line) (n : Nat) :
    (∀ steps, ∀ e : Exchange α, Run (Step line) start steps e →
      (∀ p ∈ steps, p.1.Timely n p.2) → Agrees e) ↔ n ≤ 65535 := by
  constructor
  case mp =>
    intro h
    by_contra hn
    obtain ⟨steps, e, r, ok, hdis⟩ := late_disagrees (α := α) line
    exact hdis (h steps e r fun p hp => (ok p hp).mono (by omega))
  case mpr =>
    intro hn steps e r ok
    have ok' : ∀ p ∈ steps, p.1.Timely 65535 p.2 := fun p hp => (ok p hp).mono hn
    exact (faithful_run r ok').agrees

end Exchange
end Bcap.Retry
