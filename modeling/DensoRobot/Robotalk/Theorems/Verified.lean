import DensoRobot.Bcap.Theorems.RoundTrip
import DensoRobot.Robotalk.Theorems.Turn

open HRESULT Bytes Bcap

namespace Robotalk

-- What comes of one pass through the outer loop: a call fails, the length of a header is too large,
-- or a frame is received, whose checksum is right or wrong. In the last case `hr` is the result of
-- sending NAK.
inductive Turn
  | failed (hr : HRESULT) (buf : List UInt8)
  | oversize
  | verified (buf : List UInt8)
  | spoiled (hr : HRESULT) (buf : List UInt8)

section

variable (host : Host) (port : Port σ) (client : Bool)

def turn (fuel : Nat) (l : Link σ) : Exec (Turn × Link σ) := do
  match ← seek port client fuel [] l with
  | (.error hr, l) => return (.failed hr [], l)
  | (.ok held,  l) =>
    let lenRecv := rtkSizeHeader + rtkSizeCrc + (RtkPacket.mk held).len
    if rtkSizePacket < lenRecv then
      return (.oversize, l)
    else
      let (failure, buf, l) ← fill port lenRecv fuel (held.take lenRecv) l
      match failure with
      | some hr => return (.failed hr buf, l)
      | none    =>
        if crcMatches ⟨buf⟩ then
          return (.verified buf, l)
        let (hr, l) := rtkSendNak host port (RtkPacket.mk buf).fromId (RtkPacket.mk buf).toId l
        return (.spoiled hr buf, l)

-- What the outer loop does after a pass.
def after (retryNak fuel retryCnt : Nat) (packet : RtkPacket) :
    Turn × Link σ → Exec (HRESULT × RtkPacket × Link σ)
  | (.failed hr buf,  l) => return (hr, packet.write 0 buf, l)
  | (.oversize,       l) => rounds host port client retryNak fuel (u32 (retryCnt + 1)) sOk packet l
  | (.verified buf,   l) => return (sOk, (packet.write 0 buf).swapCommand, l)
  | (.spoiled hr buf, l) =>
    if Succeeded hr then
      let hr := if retryCnt = retryNak then eInvalidPacket else hr
      rounds host port client retryNak fuel (u32 (retryCnt + 1)) hr (packet.write 0 buf) l
    else
      return (hr, (packet.write 0 buf).swapCommand, l)

-- Whether the last of `n + 1` passes stops at a header with too large a length.
def endsOversize : (n : Nat) → (fuel : Nat) → Link σ → Bool
  | 0,     fuel, l =>
    match turn host port client fuel l with
    | .ok (.oversize, _) => true
    | _                  => false
  | n + 1, fuel, l =>
    match turn host port client fuel l with
    | .ok (.oversize,     l) => endsOversize n fuel l
    | .ok (.spoiled hr _, l) => decide (Succeeded hr) && endsOversize n fuel l
    | _                      => false

end

-- What one pass through the outer loop can do.
inductive Turning (l : Link Line) : Turn × Link Line → Prop
  | failed {hr buf l'} : Failed hr → Turning l (.failed hr buf, l')
  | oversize {used l'} : Brings l l' used → l'.state.size < l.state.size → Turning l (.oversize, l')
  | verified {buf l'} : Frame buf → buf <:+: l.state.stream → Turning l (.verified buf, l')
  | spoiled {hr buf used l'} : 8 ≤ buf.length →
      buf.length = rtkSizeHeader + rtkSizeCrc + (RtkPacket.mk buf).len →
      crcMatches ⟨buf⟩ = false → Brings l l' used → l'.state.size < l.state.size →
      Turning l (.spoiled hr buf, l')

section

variable (host : Host) (type : ConnType) (addr : Nat) (sending : Nat → HRESULT) (client : Bool)
variable {held buf : List UInt8} {fuel fuel' : Nat} {l l' : Link Line}

theorem rtkSendNak_reads (fromId toId : UInt8) (l : Link Line) :
    (rtkSendNak host (linePort type addr sending) fromId toId l).2.state.reads = l.state.reads := by
  simp only [rtkSendNak]
  cases host.alloc l.next with
  | mk block next =>
    cases block
    case none => rfl
    case some _ =>
      simp only
      split
      case isTrue => rfl
      case isFalse =>
        simp only [rtkSend]
        split
        case isTrue => rfl
        case isFalse => split <;> rfl

theorem len_of_start {t : List UInt8} (h : buf <+: t) (h2 : 2 ≤ buf.length) :
    (RtkPacket.mk buf).len = (RtkPacket.mk t).len := by
  have ⟨rest, ht⟩ := h
  rw [← ht, len_append h2]

theorem head?_of_start {t : List UInt8} (h : buf <+: t) (hne : 0 < buf.length) :
    buf.head? = t.head? := by
  have ⟨rest, ht⟩ := h
  rw [← ht, List.head?_append_of_ne_nil _ (List.ne_nil_of_length_pos hne)]

-- The bytes that a frame is put together from are consecutive.
theorem take_append_start {n : Nat} {used : List UInt8} (hl : (held.take n ++ used).length = n) :
    held.take n ++ used <+: held ++ used := by
  by_cases hn : n ≤ held.length
  case pos =>
    have hu : used = [] := by
      rw [List.length_append, List.length_take_of_le hn] at hl
      exact List.length_eq_zero_iff.mp (Nat.left_eq_add.mp hl.symm)
    rw [hu, List.append_nil, List.append_nil]
    exact List.take_prefix ..
  case neg => exact (List.take_of_length_le (Nat.le_of_not_le hn)).symm ▸ List.prefix_rfl

-- The first bytes of a frame and the rest of it make up `buf`.
structure Complete (held used buf : List UInt8) : Prop where
  isPrefix  : buf <+: held ++ used
  length_ge : 8 ≤ buf.length
  len_eq    : (RtkPacket.mk buf).len = (RtkPacket.mk held).len
  length_eq : buf.length = rtkSizeHeader + rtkSizeCrc + (RtkPacket.mk held).len

theorem complete_take {used : List UInt8} (h8 : 8 ≤ held.length)
    (hl : (held.take (rtkSizeHeader + rtkSizeCrc + (RtkPacket.mk held).len) ++ used).length =
      rtkSizeHeader + rtkSizeCrc + (RtkPacket.mk held).len) :
    Complete held used
      (held.take (rtkSizeHeader + rtkSizeCrc + (RtkPacket.mk held).len) ++ used) where
  isPrefix  := take_append_start hl
  length_ge := by
    rw [hl]
    exact Nat.le_add_right ..
  len_eq    := by
    have h2 : 2 ≤ 8 := by decide
    rw [len_of_start (take_append_start hl), len_of_start (List.prefix_append held used)]
    · exact Nat.le_trans h2 h8
    · rw [hl]
      exact Nat.le_trans h2 (Nat.le_add_right ..)
  length_eq := hl

theorem turn_spec (hfuel : l.state.size < fuel) :
    ∃ r, turn host (linePort type addr sending) client fuel l = .ok r ∧ Turning l r := by
  have ⟨r, hr, hseek⟩ := seek_spec type addr sending client [] hfuel
  simp only [turn, hr, Exec.ok_bind]
  cases hseek
  case fail h => exact ⟨_, rfl, .failed h⟩
  case ok held used l₁ hsuf henq h8 hb hlt =>
    have hlt := hlt (by decide)
    simp only
    split
    case isTrue h => exact ⟨_, rfl, .oversize hb hlt⟩
    case isFalse hle =>
      have ⟨r, hr, hfill⟩ := fill_spec type addr sending (List.length_take_le
        (rtkSizeHeader + rtkSizeCrc + (RtkPacket.mk held).len) held) (Nat.lt_trans hlt hfuel)
      simp only [hr, Exec.ok_bind]
      cases hfill
      case fail h => exact ⟨_, rfl, .failed h⟩
      case ok used' l₂ hl hb' =>
        have hcomplete := complete_take h8 hl
        revert hcomplete
        generalize held.take _ ++ used' = buf
        intro ⟨hpre, h8', hlen, hl⟩
        rw [← hlen] at hl hle
        have hstream := hb.trans hb'
        simp only
        split
        case isTrue hcrc =>
          refine ⟨_, rfl, .verified ⟨?enq, hl, ?len, hcrc⟩ ?inside⟩
          case enq =>
            rw [head?_of_start hpre (Nat.lt_of_lt_of_le (by decide) h8'), ← henq]
            exact List.head?_append_of_ne_nil _ (List.ne_nil_of_length_pos
              (Nat.lt_of_lt_of_le (by decide) h8))
          case len =>
            simp only [rtkSizePacket, rtkSizeHeader, rtkSizeCrc, rtkSizeData] at hle ⊢
            omega
          case inside =>
            rw [hstream.stream]
            have hsuf : held ++ used' <:+ used ++ used' := List.suffix_append_self_iff.mpr hsuf
            exact (hpre.isInfix.trans hsuf.isInfix).trans (List.prefix_append ..).isInfix
        case isFalse hcrc =>
          have hreads := rtkSendNak_reads host type addr sending
            (RtkPacket.mk buf).fromId (RtkPacket.mk buf).toId l₂
          refine ⟨_, rfl, .spoiled h8' hl (eq_false_of_ne_true hcrc) (hstream.of_reads hreads) ?_⟩
          rw [Line.size, hreads]
          exact Nat.lt_of_le_of_lt hb'.size hlt

-- The outer loop, in terms of one pass through it.
theorem rounds_succ {retryNak retryCnt : Nat} {hr : HRESULT} {packet : RtkPacket}
    (hfuel : l.state.size < fuel) (hcnt : retryCnt ≤ retryNak) :
    rounds host (linePort type addr sending) client retryNak (fuel + 1) retryCnt hr packet l =
      (turn host (linePort type addr sending) client fuel l >>=
        after host (linePort type addr sending) client retryNak fuel retryCnt packet) := by
  obtain ⟨r, hr, hseek⟩ := seek_spec type addr sending client [] hfuel
  rw [rounds, if_neg (Nat.not_lt.mpr hcnt)]
  simp only [turn, hr, Exec.ok_bind]
  cases hseek
  case fail h => simp only [Exec.pure_eq, Exec.ok_bind, after, write_nil]
  case ok held used l₁ hsuf henq h8 hb hlt =>
    have hlt := hlt (by decide)
    simp only
    split
    case isTrue h => simp only [Exec.pure_eq, Exec.ok_bind, after]
    case isFalse hle =>
      obtain ⟨r, hr, hfill⟩ := fill_spec type addr sending (List.length_take_le
        (rtkSizeHeader + rtkSizeCrc + (RtkPacket.mk held).len) held) (Nat.lt_trans hlt hfuel)
      simp only [hr, Exec.ok_bind]
      cases hfill
      case fail h => simp only [Exec.pure_eq, Exec.ok_bind, after]
      case ok used' l₂ hl hb' =>
        have hcomplete := complete_take h8 hl
        revert hcomplete
        generalize held.take _ ++ used' = buf
        rintro ⟨hpre, h8', hlen, hl⟩
        rw [← hlen] at hl
        have h6 : 6 ≤ buf.length := Nat.le_trans (by decide) h8'
        simp only [write_eq, crcMatches_append (Nat.le_of_eq hl.symm), fromId_append h6,
          toId_append h6]
        split
        all_goals simp only [Exec.pure_eq, Exec.ok_bind, after, write_eq]

-- What the caller may conclude from the result.
structure Sound (stream : List UInt8) (hr : HRESULT) (packet : RtkPacket) : Prop where
  verified : hr = sOk → ∃ f, f <:+: stream ∧ Frame f ∧ Holds packet f
  failed   : hr ≠ sOk → Failed hr

theorem Sound.of_failed {stream : List UInt8} {hr : HRESULT} {packet : RtkPacket} (h : Failed hr) :
    Sound stream hr packet where
  verified := fun hs => absurd hs h.ne_sOk
  failed   := fun _ => h

theorem Sound.of_frame {stream f : List UInt8} (hf : Frame f) (hs : f <:+: stream)
    (packet : RtkPacket) : Sound stream sOk (packet.write 0 f).swapCommand where
  verified := fun _ => ⟨f, hs, hf, holds_write hf packet⟩
  failed   := fun h => absurd rfl h

theorem Sound.of_brings {used : List UInt8} {hr : HRESULT} {packet : RtkPacket}
    (hb : Brings l l' used) (h : Sound l'.state.stream hr packet) :
    Sound l.state.stream hr packet where
  verified := fun hs => by
    have ⟨f, hi, hf⟩ := h.verified hs
    rw [hb.stream]
    exact ⟨f, hi.trans (List.suffix_append ..).isInfix, hf⟩
  failed := h.failed

-- The fuel of a pass does not matter as long as there is enough of it.
theorem turn_mono {σ : Type} {port : Port σ} {l : Link σ} {r : Turn × Link σ}
    (h : turn host port client fuel l = .ok r) (hle : fuel ≤ fuel') :
    turn host port client fuel' l = .ok r := by
  simp only [turn] at h ⊢
  cases hs : seek port client fuel [] l
  case error => simp [hs] at h
  case ok s =>
    rw [seek_mono client hs hle]
    simp only [hs, Exec.ok_bind] at h ⊢
    obtain ⟨_ | held, l₁⟩ := s
    case error => exact h
    case ok =>
      simp only at h ⊢
      split
      case isTrue hlt => rwa [if_pos hlt] at h
      case isFalse hlt =>
        rw [if_neg hlt] at h
        revert h
        generalize hlen : rtkSizeHeader + rtkSizeCrc + (RtkPacket.mk held).len = lenRecv
        intro h
        cases hf : fill port lenRecv fuel (held.take lenRecv) l₁
        case error => simp [hf] at h
        case ok f =>
          rw [fill_mono hf hle]
          rwa [hf] at h

theorem turn_eq (hfuel : l.state.size < fuel) (hfuel' : l.state.size < fuel') :
    turn host (linePort type addr sending) client fuel l =
      turn host (linePort type addr sending) client fuel' l := by
  have ⟨r, hr, _⟩ := turn_spec host type addr sending client (Nat.lt_succ_self l.state.size)
  rw [turn_mono host client hr hfuel, turn_mono host client hr hfuel']

theorem rounds_over {σ : Type} {port : Port σ} {l : Link σ} {retryNak retryCnt : Nat}
    (h : retryNak < retryCnt) (hfuel : 0 < fuel) (hr : HRESULT) (packet : RtkPacket) :
    rounds host port client retryNak fuel retryCnt hr packet l = .ok (hr, packet, l) := by
  rcases fuel with _ | fuel
  case zero => contradiction
  rw [rounds, if_pos h]
  rfl

section

variable {retryNak retryCnt n : Nat} {packet : RtkPacket} {t : Turn}

theorem u32_succ (hn : retryCnt + n = retryNak) (hmax : retryNak < 4294967295) :
    u32 (retryCnt + 1) = retryCnt + 1 :=
  Nat.mod_eq_of_lt (by omega)

-- The rest of the loop returns a sound result.
def Continues (retryNak fuel retryCnt : Nat) (l : Link Line) (hr : HRESULT) : Prop :=
  ∀ packet, ∃ r, rounds host (linePort type addr sending) client retryNak fuel
    (u32 (retryCnt + 1)) hr
    packet l = .ok r ∧ Sound l.state.stream r.1 r.2.1

theorem after_sound (ht : Turning l (t, l'))
    (hover : t = .oversize → l'.state.size < l.state.size →
      Continues host type addr sending client retryNak fuel retryCnt l' sOk)
    (hspoiled : ∀ {hr buf}, t = .spoiled hr buf → Succeeded hr → l'.state.size < l.state.size →
      Continues host type addr sending client retryNak fuel retryCnt l'
        (if retryCnt = retryNak then eInvalidPacket else hr)) :
    ∃ r, after host (linePort type addr sending) client retryNak fuel retryCnt packet
      (t, l') = .ok r ∧
      Sound l.state.stream r.1 r.2.1 := by
  cases ht
  case failed h => exact ⟨_, rfl, Sound.of_failed h⟩
  case verified hf hs => exact ⟨_, rfl, Sound.of_frame hf hs packet⟩
  case oversize hb hlt =>
    have ⟨r, hr, hs⟩ := hover rfl hlt packet
    exact ⟨r, hr, Sound.of_brings hb hs⟩
  case spoiled hr buf _ _ _ _ hb hlt =>
    by_cases hok : Succeeded hr
    case pos =>
      have ⟨r, hr, hs⟩ := hspoiled rfl hok hlt (packet.write 0 buf)
      refine ⟨r, ?_, Sound.of_brings hb hs⟩
      rw [after, if_pos hok]
      exact hr
    case neg =>
      exact ⟨(hr, (packet.write 0 buf).swapCommand, l'), if_neg hok,
        Sound.of_failed (Int.lt_of_not_ge hok)⟩

-- One pass through the loop, with enough fuel for what follows.
theorem rounds_turn (hcnt : retryCnt ≤ retryNak) (hfuel : l.state.size + 1 < fuel)
    (hfuel' : l.state.size < fuel') :
    ∃ t l' fuel₀, turn host (linePort type addr sending) client fuel' l = .ok (t, l') ∧
      Turning l (t, l') ∧ l.state.size < fuel₀ ∧
      ∀ hr packet, rounds host (linePort type addr sending) client retryNak fuel
        retryCnt hr packet l =
        after host (linePort type addr sending) client retryNak fuel₀ retryCnt packet (t, l') := by
  rcases fuel with _ | fuel₀
  case zero => contradiction
  have hfuel := Nat.lt_of_succ_lt_succ hfuel
  have ⟨⟨t, l'⟩, hturn, hspec⟩ := turn_spec host type addr sending client hfuel'
  refine ⟨t, l', fuel₀, hturn, hspec, hfuel, fun hr packet => ?_⟩
  rw [rounds_succ host type addr sending client hfuel hcnt,
    turn_eq host type addr sending client hfuel hfuel', hturn]
  rfl

-- As long as the last pass does not stop at a length that is too large.
theorem rounds_sound (hmax : retryNak < 4294967295) (hn : retryCnt + n = retryNak)
    (hfuel : l.state.size + 1 < fuel) (hfuel' : l.state.size < fuel')
    (hends : endsOversize host (linePort type addr sending) client n fuel' l = false)
    (hr : HRESULT) (packet : RtkPacket) :
    ∃ r, rounds host (linePort type addr sending) client retryNak fuel retryCnt hr
      packet l = .ok r ∧
      Sound l.state.stream r.1 r.2.1 := by
  induction n generalizing retryCnt fuel l hr packet
  all_goals
    have hu := u32_succ hn hmax
    have ⟨t, l', fuel₀, hturn, hspec, hfuel₀, hrounds⟩ :=
      rounds_turn host type addr sending client (hn ▸ Nat.le_add_right ..) hfuel hfuel'
    rw [hrounds hr packet]
  case zero =>
    rw [endsOversize, hturn] at hends
    apply after_sound host type addr sending client hspec
    case hover =>
      rintro rfl
      contradiction
    case hspoiled =>
      intro hr buf _ _ _ packet
      have hcnt : retryNak < u32 (retryCnt + 1) := by omega
      have hlast : retryCnt = retryNak := hn
      rw [if_pos hlast, rounds_over host client hcnt (Nat.zero_lt_of_lt hfuel₀)]
      exact ⟨_, rfl, Sound.of_failed failed_eInvalidPacket⟩
  case succ n ih =>
    rw [endsOversize, hturn] at hends
    have next (hlt : l'.state.size < l.state.size)
        (hends : endsOversize host (linePort type addr sending) client n fuel' l' = false)
        (hr : HRESULT) : Continues host type addr sending client retryNak fuel₀ retryCnt l' hr := by
      intro packet
      rw [hu]
      exact ih (by omega) (by omega) (Nat.lt_trans hlt hfuel') hends hr packet
    apply after_sound host type addr sending client hspec
    case hover =>
      rintro rfl hlt
      exact next hlt hends sOk
    case hspoiled =>
      rintro hr buf rfl hok hlt
      simp only [decide_eq_true hok, Bool.true_and] at hends
      exact next hlt hends _

-- A count of retries that `retry_cnt` cannot exceed.
theorem rounds_sound_of_max (hmax : 4294967295 ≤ retryNak) (hcnt : retryCnt ≤ 4294967295)
    (hfuel : l.state.size + 1 < fuel) (hr : HRESULT) (packet : RtkPacket) :
    ∃ r, rounds host (linePort type addr sending) client retryNak fuel retryCnt hr packet l =
      .ok r ∧ Sound l.state.stream r.1 r.2.1 := by
  induction hs : l.state.size using Nat.strongRecOn generalizing retryCnt fuel l hr packet
  rename_i n ih
  subst hs
  have hu : u32 (retryCnt + 1) ≤ 4294967295 := Nat.le_of_lt_succ (Nat.mod_lt _ (by decide))
  have ⟨t, l', fuel₀, hturn, hspec, hfuel₀, hrounds⟩ :=
    rounds_turn host type addr sending client (Nat.le_trans hcnt hmax) hfuel (Nat.lt_succ_self _)
  rw [hrounds hr packet]
  have next (hlt : l'.state.size < l.state.size) (hr : HRESULT) :
      Continues host type addr sending client retryNak fuel₀ retryCnt l' hr :=
    fun packet => ih _ hlt hu (by omega) hr packet rfl
  apply after_sound host type addr sending client hspec
  case hover => exact fun _ hlt => next hlt sOk
  case hspoiled => exact fun _ _ hlt => next hlt _

-- A packet that no frame was written to is returned as a success.
theorem rounds_unsound (hmax : retryNak < 4294967295) (hn : retryCnt + n = retryNak)
    (hfuel : l.state.size + 1 < fuel) (hfuel' : l.state.size < fuel')
    (hends : endsOversize host (linePort type addr sending) client n fuel' l = true)
    (hr : HRESULT) (hvoid : Void packet) :
    ∃ packet' l', rounds host
      (linePort type addr sending) client retryNak fuel retryCnt hr packet l =
      .ok (sOk, packet', l') ∧ Void packet' := by
  induction n generalizing retryCnt fuel l hr packet
  all_goals
    have hu := u32_succ hn hmax
    have ⟨t, l', fuel₀, hturn, hspec, hfuel₀, hrounds⟩ :=
      rounds_turn host type addr sending client (hn ▸ Nat.le_add_right ..) hfuel hfuel'
    rw [hrounds hr packet]
    rw [endsOversize, hturn] at hends
    cases hspec
  case zero.oversize =>
    have hcnt : retryNak < u32 (retryCnt + 1) := by omega
    exact ⟨packet, l', rounds_over host client hcnt (Nat.zero_lt_of_lt hfuel₀) .., hvoid⟩
  case succ.oversize n ih _ _ hlt =>
    rw [after, hu]
    exact ih (by omega) (by omega) (Nat.lt_trans hlt hfuel') hends sOk hvoid
  case succ.spoiled n ih hr buf _ h8 hl hcrc _ hlt =>
    have ⟨hok, hends⟩ := Bool.and_eq_true_iff.mp hends
    rw [after, if_pos (of_decide_eq_true hok), hu]
    exact ih (by omega) (by omega) (Nat.lt_trans hlt hfuel') hends _ (void_write h8 hl hcrc)
  all_goals contradiction

end

-- Every call returns, and a success is one that the caller may rely on.
def Verifies (retryNak arg next : Nat) (line : Line) : Prop :=
  ∀ packetRecv, packetRecv.buf.length = rtkSizePacket → ∃ enough, ∀ fuel, enough ≤ fuel →
    ∃ hr packet l, rtkRecv host (linePort type addr sending) client fuel retryNak
      packetRecv arg next
      line = .ok (hr, packet, l) ∧ Sound line.stream hr packet

theorem Void.not_sound {stream : List UInt8} {packet : RtkPacket} (h : Void packet) :
    ¬Sound stream sOk packet := by
  intro hs
  have ⟨f, _, hf, hh⟩ := hs.verified rfl
  exact h f hf hh

theorem verifies_of_tcp (retryNak arg next : Nat) (line : Line) :
    Verifies host .tcp addr sending client retryNak arg next line :=
  fun _ _ => ⟨0, fun _ _ => ⟨_, _, _, rfl, Sound.of_failed failed_eInvalidArg⟩⟩

theorem rtkRecv_eq (ht : type ≠ .tcp) (fuel retryNak : Nat) (packetRecv : RtkPacket)
    (arg next : Nat) (line : Line) :
    rtkRecv host (linePort type addr sending) client fuel retryNak packetRecv arg next line =
      rounds host (linePort type addr sending) client retryNak fuel 0 sOk packetRecv
        ⟨line, arg, false, next⟩ :=
  if_neg ht

theorem not_verifies {retryNak arg next : Nat} {line : Line} (ht : type ≠ .tcp)
    (hmax : retryNak < 4294967295)
    (hends : endsOversize host (linePort type addr sending) client retryNak (line.size + 1)
      ⟨line, arg, false, next⟩ = true) :
    ¬Verifies host type addr sending client retryNak arg next line := by
  intro h
  have ⟨enough, hok⟩ := h ⟨List.replicate rtkSizePacket 0⟩ (List.length_replicate ..)
  have ⟨hr, packet, l, hrecv, hsound⟩ := hok (max enough (line.size + 2)) (Nat.le_max_left ..)
  have ⟨packet', l', hrounds, hvoid⟩ := rounds_unsound host type addr sending client hmax
    (Nat.zero_add retryNak) (l := ⟨line, arg, false, next⟩)
    (Nat.lt_of_succ_le (Nat.le_max_right enough _)) (Nat.lt_succ_self _) hends sOk
    (void_zero rtkSizePacket)
  rw [rtkRecv_eq host type addr sending client ht, hrounds] at hrecv
  cases hrecv
  exact hvoid.not_sound hsound

theorem verifies {retryNak arg next : Nat} {line : Line} (ht : type ≠ .tcp)
    (h : 4294967295 ≤ retryNak ∨
      endsOversize host (linePort type addr sending) client retryNak (line.size + 1)
        ⟨line, arg, false, next⟩ = false) :
    Verifies host type addr sending client retryNak arg next line := by
  intro packetRecv _
  refine ⟨line.size + 2, fun fuel hfuel => ?_⟩
  rw [rtkRecv_eq host type addr sending client ht]
  have hfuel : (Link.mk line arg false next).state.size + 1 < fuel := Nat.lt_of_succ_le hfuel
  by_cases hmax : 4294967295 ≤ retryNak
  case pos =>
    have ⟨r, hr, hs⟩ := rounds_sound_of_max host type addr sending client hmax
      (Nat.zero_le _) hfuel sOk packetRecv
    exact ⟨_, _, _, hr, hs⟩
  case neg =>
    have ⟨r, hr, hs⟩ := rounds_sound host type addr sending client (Nat.lt_of_not_le hmax)
      (Nat.zero_add retryNak) hfuel (Nat.lt_succ_self _) (h.resolve_left hmax) sOk packetRecv
    exact ⟨_, _, _, hr, hs⟩

theorem verifies_iff (retryNak arg next : Nat) (line : Line) :
    Verifies host type addr sending client retryNak arg next line ↔
      type = .tcp ∨ 4294967295 ≤ retryNak ∨
        endsOversize host (linePort type addr sending) client retryNak (line.size + 1)
          ⟨line, arg, false, next⟩ = false := by
  by_cases ht : type = .tcp
  case pos =>
    subst ht
    exact iff_of_true (verifies_of_tcp host addr sending client retryNak arg next line) (.inl rfl)
  case neg =>
    rw [or_iff_right ht]
    refine ⟨fun h => ?_, verifies host type addr sending client ht⟩
    apply Classical.byContradiction
    intro hc
    have ⟨hmax, hends⟩ := not_or.mp hc
    exact not_verifies host type addr sending client ht (Nat.lt_of_not_le hmax)
      (eq_true_of_ne_false hends) h

end

-- A header with a length of 255 bytes, after which nothing comes.
def oversizeHeader : Line where
  reads := [[0x05, 0xFF, 0, 0, 0, 0, 0, 0]]
  sent  := []

theorem oversizeHeader_not_verified :
    ¬Verifies ampleHost .com 0 (fun _ => sOk) true 0 0 0 oversizeHeader :=
  not_verifies ampleHost .com 0 (fun _ => sOk) true (by decide) (by decide) (by decide)

end Robotalk
