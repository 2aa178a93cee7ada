import Mathlib.Data.List.Nodup
import DensoRobot.Lib.Run
import DensoRobot.Bcap.Retry

open HRESULT

namespace Bcap.Retry.Session

-- No call has its callback run twice.
def AtMostOnce (s : Session) : Prop :=
  (s.executed.map Request.call).Nodup

-- If the callback was run for an earlier request of the call, then the node for the client has
-- recorded the response to the first request of the call, or the last response has the number of
-- the call by coincidence, which is due to the serial numbers starting over.
def Remembers (s : Session) (p : Request) : Prop :=
  (∃ q ∈ s.executed, q.call = p.call) →
    (∃ q ∈ s.recorded, q.call = p.call ∧ q.serial = q.reserv) ∨ s.lastSend.serial = p.reserv

-- The calls of the requests that reach the server are remembered.
def Answers (s : Session) : Act → Prop
  | .serve _ _ | .giveUp _ => ∀ p, s.requests.head? = some p → s.Remembers p
  | _                      => True

-- The requests that were executed or are on the way.
def sent (s : Session) : List Request :=
  s.executed ++ s.requests

-- The requests of a call follow each other, and have the same number to tell them by.
structure Ordered (s : Session) : Prop where
  serial  : s.serial ≠ 0
  order   : s.sent.Pairwise fun p q => p.call ≤ q.call ∧ (p.call = q.call → p.reserv = q.reserv)
  bound   : ∀ p ∈ s.sent, p.call ≤ s.calls ∧ p.reserv ≠ 0
  waiting : ∀ w, s.waiting = some w → w.reserv ≠ 0 ∧
    ∀ p ∈ s.sent, p.call = s.calls → p.reserv = w.reserv

-- What the node for the client holds. The first request of a call has the number of the call for
-- its own one.
structure Recorded (s : Session) : Prop where
  executed : s.recorded ⊆ s.executed
  first    : ∀ q ∈ s.recorded, q.serial = q.reserv →
    s.lastSend.serial = q.reserv ∨ ∃ q' ∈ s.recorded, q.call < q'.call

structure Once (s : Session) : Prop extends Ordered s, Recorded s where
  once : s.AtMostOnce

variable {line : Line} {s s' : Session} {a : Act} {p : Request} {ps : List Request}

theorem nextSerial_ne_zero (serial : Nat) : nextSerial serial ≠ 0 := by
  rw [nextSerial]
  split
  case isTrue    => exact Nat.one_ne_zero
  case isFalse h => exact h

theorem Ordered.attempt (h : s.Ordered) {reserv : Nat} (hr : reserv ≠ 0)
    (hs : ∀ p ∈ s.sent, p.call = s.calls → p.reserv = reserv) (id : Int) (left : Nat) :
    (s.attempt reserv id left).Ordered := by
  cases left
  case zero =>
    exact { h with waiting := fun w hw => by cases hw }
  case succ left =>
    have hsent : (s.attempt reserv id (left + 1)).sent =
        s.sent ++ [⟨s.serial, reserv, id, s.calls⟩] := (List.append_assoc ..).symm
    constructor
    case serial => exact nextSerial_ne_zero s.serial
    case order =>
      rw [hsent, List.pairwise_append]
      refine ⟨h.order, List.pairwise_singleton .., fun p hp q hq => ?_⟩
      rw [List.mem_singleton.mp hq]
      exact ⟨(h.bound p hp).1, hs p hp⟩
    case bound =>
      rw [hsent, List.forall_mem_append]
      exact ⟨h.bound, List.forall_mem_singleton.mpr ⟨Nat.le_refl _, hr⟩⟩
    case waiting =>
      rintro w ⟨⟩
      rw [hsent, List.forall_mem_append]
      exact ⟨hr, hs, List.forall_mem_singleton.mpr fun _ => rfl⟩

-- Packets that are lost, or not executed, are as good as never sent.
theorem Ordered.sublist (h : s.Ordered) (hserial : s'.serial = s.serial)
    (hcalls : s'.calls = s.calls)
    (hwaiting : s'.waiting = s.waiting) (hs : s'.sent.Sublist s.sent) : s'.Ordered where
  serial  := by rw [hserial]; exact h.serial
  order   := h.order.sublist hs
  bound   := by rw [hcalls]; exact fun p hp => h.bound p (hs.subset hp)
  waiting := by
    rw [hcalls, hwaiting]
    exact fun w hw => ⟨(h.waiting w hw).1, fun p hp => (h.waiting w hw).2 p (hs.subset hp)⟩

-- What the server does with a request.
structure Handled (s : Session) (p : Request) (ps : List Request) (s' : Session) : Prop where
  serial   : s'.serial = s.serial
  calls    : s'.calls = s.calls
  waiting  : s'.waiting = s.waiting
  requests : s'.requests = ps

-- The callback is not run.
structure Answered (s : Session) (p : Request) (ps : List Request) (s' : Session) : Prop
    extends Handled s p ps s' where
  executed : s'.executed = s.executed
  recorded : s'.recorded = s.recorded
  lastSend : s'.lastSend = s.lastSend

-- The callback is run. Its response is recorded, or the node is destroyed, or stays as it is.
structure Executes (s : Session) (p : Request) (ps : List Request) (s' : Session) : Prop
    extends Handled s p ps s' where
  unknown  : s.lastSend.serial ≠ effectiveReserv p
  executed : s'.executed = s.executed ++ [p]
  recorded : s'.recorded = s.recorded ++ [p] ∧ s'.lastSend.serial = p.serial ∨
    s'.recorded = [] ∨ s'.recorded = s.recorded ∧ s'.lastSend = s.lastSend

theorem receiveExecute_handled (line : Line) (s : Session) (p : Request) (ps : List Request)
    (result : HRESULT) (notices : Nat) :
    let s' := { s with requests := ps }.receiveExecute line p result notices
    s.lastSend.serial = effectiveReserv p ∧ Answered s p ps s' ∨ Executes s p ps s' := by
  simp only [receiveExecute]
  split
  case isTrue h => exact .inl ⟨h, ⟨rfl, rfl, rfl, rfl⟩, rfl, rfl, rfl⟩
  case isFalse h =>
    rw [record]
    split
    case isTrue  => exact .inr ⟨⟨rfl, rfl, rfl, rfl⟩, h, rfl, .inr (.inl rfl)⟩
    case isFalse => exact .inr ⟨⟨rfl, rfl, rfl, rfl⟩, h, rfl, .inl ⟨rfl, rfl⟩⟩

theorem execute_executes (hn : s.lastSend.serial ≠ effectiveReserv p) (notices : Nat) :
    Executes s p ps ({ s with requests := ps }.execute p notices) :=
  ⟨⟨rfl, rfl, rfl, rfl⟩, hn, rfl, .inr (.inr ⟨rfl, rfl⟩)⟩

theorem refuse_answered (refusal : Refusal) :
    Answered s p ps ({ s with requests := ps }.refuse p refusal) :=
  ⟨⟨rfl, rfl, rfl, rfl⟩, rfl, rfl, rfl⟩

theorem Answered.ordered (hs : Answered s p ps s') (h : s.Ordered) (hp : s.requests = p :: ps) :
    s'.Ordered := by
  have hsent : s'.sent.Sublist s.sent := by
    rw [sent, sent, hs.executed, hs.requests, hp]
    exact (List.sublist_cons_self p ps).append_left _
  exact h.sublist hs.serial hs.calls hs.waiting hsent

theorem Executes.ordered (hs : Executes s p ps s') (h : s.Ordered) (hp : s.requests = p :: ps) :
    s'.Ordered := by
  have hsent : s'.sent = s.sent := by
    rw [sent, sent, hs.executed, hs.requests, hp, List.append_assoc, List.singleton_append]
  exact h.sublist hs.serial hs.calls hs.waiting (hsent ▸ List.Sublist.refl _)

theorem Ordered.step (st : Step line s a s') (h : s.Ordered) : s'.Ordered := by
  cases st
  case call retry id hw =>
    have hnew : ∀ p ∈ s.sent, p.call = s.calls + 1 → p.reserv = s.serial := by
      intro p hp he
      have hle := (h.bound p hp).1
      omega
    have hcalls : { s with calls := s.calls + 1 }.Ordered :=
      { h with
        bound   := fun p hp => ⟨Nat.le_succ_of_le (h.bound p hp).1, (h.bound p hp).2⟩
        waiting := fun w hw' => by rw [hw] at hw'; cases hw' }
    exact hcalls.attempt h.serial hnew id retry
  case expire w hw =>
    exact h.attempt (h.waiting w hw).1 (h.waiting w hw).2 w.id w.left
  case receive w r rs hw _ =>
    rw [receive]
    split
    case isTrue  => exact { h with waiting := fun _ hn => by cases hn }
    case isFalse => exact { h with }
  case loseRequest i =>
    exact h.sublist rfl rfl rfl ((List.eraseIdx_sublist ..).append_left _)
  case loseResponse i => exact { h with }
  case serve p ps result notices hp =>
    cases receiveExecute_handled line s p ps result notices
    case inl hs => exact hs.2.ordered h hp
    case inr hs => exact hs.ordered h hp
  case giveUp p ps notices _ hp hn  => exact (execute_executes hn notices).ordered h hp
  case refuse p ps refusal hp _ => exact (refuse_answered refusal).ordered h hp
  case forget                   => exact { h with }

-- The request that is received next comes after those that were executed, and has the number of
-- those of its call.
theorem Ordered.after_executed (h : s.Ordered) (hp : s.requests = p :: ps) {q : Request}
    (hq : q ∈ s.executed) :
    q.call ≤ p.call ∧ (q.call = p.call → q.reserv = effectiveReserv p) := by
  have hne : p.reserv ≠ 0 := (h.bound p (by simp [sent, hp])).2
  have ho := h.order
  rw [sent, hp, List.pairwise_append] at ho
  rw [effectiveReserv, if_neg hne]
  exact ho.2.2 q hq p List.mem_cons_self

-- A response to the first request of a call that is still recorded is found again.
theorem Once.found (h : s.Once) (hp : s.requests = p :: ps) {q : Request} (hq : q ∈ s.recorded)
    (hc : q.call = p.call) (hr : q.serial = q.reserv) : s.lastSend.serial = effectiveReserv p := by
  cases h.first q hq hr
  case inl hl => rw [hl, (h.after_executed hp (h.executed hq)).2 hc]
  case inr hl =>
    obtain ⟨q', hq', hlt⟩ := hl
    have hle := (h.after_executed hp (h.executed hq')).1
    omega

theorem Executes.toRecorded (hs : Executes s p ps s') (h : s.Once) (hp : s.requests = p :: ps) :
    s'.Recorded := by
  obtain ⟨hr, hl⟩ | hr | ⟨hr, hl⟩ := hs.recorded
  case inl =>
    constructor
    case executed =>
      rw [hr, hs.executed]
      exact List.append_subset.mpr
        ⟨List.subset_append_of_subset_left _ h.executed, List.subset_append_right ..⟩
    case first =>
      rw [hr, List.forall_mem_append, List.forall_mem_singleton]
      refine ⟨fun q hq hser => .inr ⟨p, List.mem_append_right _ (List.mem_singleton_self p), ?_⟩,
        fun hser => .inl (hl.trans hser)⟩
      have hle := (h.after_executed hp (h.executed hq)).1
      refine Nat.lt_of_le_of_ne hle fun hc => hs.unknown (h.found hp hq hc hser)
  case inr.inl =>
    exact ⟨hr ▸ List.nil_subset _, fun q hq => by rw [hr] at hq; cases hq⟩
  case inr.inr =>
    refine ⟨?_, by rw [hr, hl]; exact h.first⟩
    rw [hr, hs.executed]
    exact List.subset_append_of_subset_left _ h.executed

theorem Recorded.step (st : Step line s a s') (h : s.Once) : s'.Recorded := by
  have hr := h.toRecorded
  cases st
  case call retry id _    => cases retry <;> exact { hr with }
  case expire w _         => rw [attempt.eq_def]; split <;> exact { hr with }
  case receive w r rs _ _ => rw [receive]; split <;> exact { hr with }
  case loseRequest i      => exact { hr with }
  case loseResponse i     => exact { hr with }
  case serve p ps result notices hp =>
    cases receiveExecute_handled line s p ps result notices
    case inl hs =>
      obtain ⟨-, -, hx, hrec, hl⟩ := hs
      exact ⟨by rw [hrec, hx]; exact hr.executed, by rw [hrec, hl]; exact hr.first⟩
    case inr hs => exact hs.toRecorded h hp
  case giveUp p ps notices _ hp hn  => exact (execute_executes hn notices).toRecorded h hp
  case refuse p ps refusal hp _ => exact { hr with }
  case forget                   => exact ⟨List.nil_subset _, nofun⟩

-- The callback of a call is run twice iff it was run before.
theorem Executes.atMostOnce_iff (hs : Executes s p ps s') (h : s.AtMostOnce) :
    s'.AtMostOnce ↔ ∀ q ∈ s.executed, q.call ≠ p.call := by
  rw [AtMostOnce] at h ⊢
  rw [hs.executed, List.map_append, List.map_singleton, ← List.concat_eq_append, List.nodup_concat,
    and_iff_left h]
  simp only [List.mem_map, not_exists, not_and, ne_eq]

-- Executing a request that the node does not answer is right iff its call is remembered.
theorem Executes.atMostOnce_iff_remembers (hs : Executes s p ps s') (h : s.Once)
    (hp : s.requests = p :: ps) :
    s'.AtMostOnce ↔ ∀ p', s.requests.head? = some p' → s.Remembers p' := by
  rw [hs.atMostOnce_iff h.once, hp]
  have hreserv : effectiveReserv p = p.reserv := if_neg (h.bound p (by simp [sent, hp])).2
  constructor
  case mp =>
    rintro hn p' ⟨⟩ ⟨q, hq, hc⟩
    exact absurd hc (hn q hq)
  case mpr =>
    intro ok q hq hc
    cases ok p rfl ⟨q, hq, hc⟩
    case inl hf =>
      obtain ⟨f, hf, hfc, hfs⟩ := hf
      exact hs.unknown (h.found hp hf hfc hfs)
    case inr hl => exact hs.unknown (hl.trans hreserv.symm)

theorem Once.exact_step (st : Step line s a s') (h : s.Once) : s'.AtMostOnce ↔ s.Answers a := by
  have honce := h.once
  cases st
  case serve p ps result notices hp =>
    cases receiveExecute_handled line s p ps result notices
    case inl hs =>
      obtain ⟨hl, -, hx, -⟩ := hs
      refine ⟨fun _ p' hp' _ => .inr ?_, fun _ => by rw [AtMostOnce, hx]; exact honce⟩
      rw [hp] at hp'
      cases hp'
      rw [hl]
      exact if_neg (h.bound p (by simp [sent, hp])).2
    case inr hs => exact hs.atMostOnce_iff_remembers h hp
  case giveUp p ps notices _ hp hn =>
    exact (execute_executes hn notices).atMostOnce_iff_remembers h hp
  case call retry id _    => cases retry <;> exact iff_of_true honce trivial
  case expire w _         => rw [attempt.eq_def]; split <;> exact iff_of_true honce trivial
  case receive w r rs _ _ => rw [receive]; split <;> exact iff_of_true honce trivial
  case loseRequest i            => exact iff_of_true honce trivial
  case loseResponse i           => exact iff_of_true honce trivial
  case refuse p ps refusal hp _ => exact iff_of_true honce trivial
  case forget                   => exact iff_of_true honce trivial

theorem once_exact (line : Line) : Exact (Step line) Once AtMostOnce Answers where
  good h       := h.once
  keep st ok h := ⟨h.toOrdered.step st, Recorded.step st h, (h.exact_step st).mpr ok⟩
  need st h    := (h.exact_step st).mp

theorem once_start : Once start where
  serial   := Nat.one_ne_zero
  order    := List.Pairwise.nil
  bound    := nofun
  waiting  := nofun
  executed := List.nil_subset _
  first    := nofun
  once     := List.nodup_nil

-- In a run from the start, the server runs the callback at most once for each call iff each request
-- that reaches it after the callback was run for its call finds the node with the response to the
-- first request of the call.
theorem executed_once_iff (r : Run (Step line) start steps s) :
    Always AtMostOnce steps s ↔ ∀ p ∈ steps, p.1.Answers p.2 :=
  (once_exact line).always_iff r once_start

-- Two attempts of a call are received, and the response to the first one is lost.
theorem firstAttempt_executed_once :
    ∃ steps s, Run (Step .udp) start steps s ∧ Always AtMostOnce steps s ∧
      s.executed.map Request.call = [1] ∧ s.responses = [⟨2, sOk⟩] := by
  have r : Run (Step .udp) start _ _ :=
    .cons (a := .call 2 idServiceStart) (.call rfl) <| .cons (a := .serve sOk 0) (.serve rfl) <|
    .cons (a := .loseResponse 0) .loseResponse <| .cons (a := .expire) (.expire rfl) <|
    .cons (a := .serve sOk 0) (.serve rfl) .nil
  refine ⟨_, _, r, executed_once_iff r |>.mpr ?_, rfl, rfl⟩
  simp only [List.forall_mem_cons]
  refine ⟨trivial, ?first, trivial, trivial, ?second, nofun⟩
  case first  => rintro p - ⟨q, hq, -⟩; exact absurd hq List.not_mem_nil
  case second => rintro p ⟨⟩ -; exact .inl ⟨_, List.mem_cons_self, rfl, rfl⟩

-- The request of the first attempt and the response to the second one are lost.
theorem lostAttempt_executed_twice :
    ¬∀ line steps s, Run (Step line) start steps s → Always AtMostOnce steps s := by
  have r : Run (Step .udp) start _ _ :=
    .cons (a := .call 3 idServiceStart) (.call rfl) <|
    .cons (a := .loseRequest 0) .loseRequest <|
    .cons (a := .expire) (.expire rfl) <| .cons (a := .serve sOk 0) (.serve rfl) <|
    .cons (a := .loseResponse 0) .loseResponse <| .cons (a := .expire) (.expire rfl) <|
    .cons (a := .serve sOk 0) (.serve rfl) .nil
  intro h
  have hn : [1, 1].Nodup := (h _ _ _ r).2
  exact absurd hn (by decide)

end Bcap.Retry.Session
