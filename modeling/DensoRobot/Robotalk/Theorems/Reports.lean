import DensoRobot.Lib.Run
import DensoRobot.Robotalk.Pendant

open HRESULT Bytes Bcap

namespace Robotalk

-- What the callback for a change of the state tells of the connection.
def TpEvent.report : TpEvent → Option TpState
  | .tpState state =>
    if state = 1 then some .connect else if state = 0 then some .disconnect else none
  | _ => none

def reports (events : List TpEvent) : List TpState :=
  events.filterMap TpEvent.report

-- What there is to tell of a step: the pendant gets connected, or it no longer is.
def TpParam.due (p p' : TpParam) : List TpState :=
  if p.state = p'.state then []
  else if p'.state = .connect then [.connect]
  else if p.state = .connect then [.disconnect]
  else []

section

variable (func : CallFuncTp)

def Steps (p : TpParam) (c : TpCalls) (p' : TpParam) : Prop :=
  p' = (receiveExecute func c p).2.1

-- The reports of a step.
def told (step : TpParam × TpCalls) : List TpState :=
  reports (receiveExecute func step.2 step.1).2.2

-- The step tells the changes of the connection, and nothing else.
def Tells (step : TpParam × TpCalls) : Prop :=
  told func step = step.1.due (receiveExecute func step.2 step.1).2.1

-- The first report is a connect, and each one differs from the one before it.
def Alternate (states : List TpState) : Prop :=
  (.disconnect :: states).IsChain (· ≠ ·)

end

-- The pendant itself sends what the callback is called with at a change of the connection.
structure Forged (c : TpCalls) : Prop where
  locked   : ¬Failed c.lockMutex
  received : ¬Failed c.tpRecv
  command  : nativeCommand c.command = tpCmdSpecial
  length   : c.data.length = 4
  state    : i32 (ofLe c.data) = 1 ∨ i32 (ofLe c.data) = 0

section

variable {func : CallFuncTp} {c : TpCalls} {p p' : TpParam} {hr : HRESULT} {tmpState : TpState}

@[simp]
theorem reports_nil : reports [] = [] :=
  rfl

@[simp]
theorem reports_append : reports (xs ++ ys) = reports xs ++ reports ys :=
  List.filterMap_append

@[simp]
theorem reports_send : reports (.send command :: events) = reports events :=
  rfl

@[simp]
theorem TpParam.due_self : p.due p = [] :=
  if_pos rfl

theorem reports_callTpState (hf : func.callTpState = true) (state : TpState) :
    reports (callTpState func c state).2 =
      match state with
      | .connect    => [.connect]
      | .disconnect => [.disconnect]
      | _           => [] := by
  have hlen : (toLe 4 state.toNat).length = 4 := length_toLe ..
  simp only [callTpState, tpCallfunc, if_pos, hlen, hf]
  cases state
  all_goals rfl

theorem updateState_reports (hf : func.callTpState = true) :
    reports (updateState func c tmpState hr p).2.2 =
      p.due (updateState func c tmpState hr p).2.1 := by
  cases hs : p.state
  all_goals
    cases tmpState
    all_goals
      simp only [updateState, hs]
      try split
      all_goals simp [reports_callTpState hf, TpParam.due, hs]

theorem reports_special (hf : func.callTpState = true) {data : List UInt8} :
    reports (tpCallfunc func malloc result tpCmdSpecial data).2 = [] ↔
      ¬(data.length = 4 ∧ (i32 (ofLe data) = 1 ∨ i32 (ofLe data) = 0)) := by
  simp only [tpCallfunc, if_pos, hf]
  split
  case isFalse hl => simp [hl]
  case isTrue hl =>
    by_cases h1 : i32 (ofLe data) = 1
    case pos => simp [reports, TpEvent.report, hl, h1]
    case neg =>
      by_cases h0 : i32 (ofLe data) = 0
      case pos => simp [reports, TpEvent.report, hl, h0]
      case neg => simp [reports, TpEvent.report, h1, h0]

-- The other commands tell nothing of the state.
theorem reports_other (h : command ≠ tpCmdSpecial) :
    reports (tpCallfunc func malloc result command data).2 = [] := by
  simp only [tpCallfunc, if_neg h]
  split
  case isTrue => rfl
  case isFalse =>
    split
    case isTrue =>
      repeat' split
      all_goals rfl
    case isFalse =>
      repeat' split
      all_goals rfl

theorem execute_reports : reports (execute func c p).2.2 =
    reports (tpCallfunc func c.malloc c.callFunc (nativeCommand c.command) c.data).2 := by
  simp only [execute]
  split
  case isTrue h =>
    refine (reports_other ?_).symm
    rintro hc
    rw [hc] at h
    exact absurd h (by decide)
  case isFalse =>
    split
    case isTrue => simp
    case isFalse =>
      split
      all_goals simp

-- What a received command tells by itself.
theorem execute_reports_iff (hf : func.callTpState = true) (hl : ¬Failed c.lockMutex)
    (hr : ¬Failed c.tpRecv) : reports (execute func c p).2.2 = [] ↔ ¬Forged c := by
  rw [execute_reports]
  by_cases hc : nativeCommand c.command = tpCmdSpecial
  case pos =>
    rw [hc, reports_special hf]
    exact not_congr ⟨fun h => ⟨hl, hr, hc, h.1, h.2⟩, fun h => ⟨h.length, h.state⟩⟩
  case neg => exact iff_of_true (reports_other hc) fun h => hc h.command

theorem tells_iff (hf : func.callTpState = true) : Tells func (p, c) ↔ ¬Forged c := by
  simp only [Tells, told, receiveExecute]
  split
  case isTrue h => exact iff_of_true (by simp) fun f => f.locked h
  case isFalse hl =>
    split
    case isTrue h => exact iff_of_true (updateState_reports hf) fun f => f.received h
    case isFalse hr =>
      have hiff := execute_reports_iff (p := p) hf hl hr
      rw [← hiff]
      split
      case h_1 he =>
        rw [he, TpParam.due_self]
      case h_2 he =>
        rw [reports_append, updateState_reports hf, he]
        exact List.append_left_eq_self

-- What the last report has told, or is taken to have told before the first one.
def TpParam.last (p : TpParam) : TpState :=
  if p.state = .connect then .connect else .disconnect

theorem due_isChain (p p' : TpParam) {states : List TpState}
    (h : (p'.last :: states).IsChain (· ≠ ·)) :
    (p.last :: (p.due p' ++ states)).IsChain (· ≠ ·) := by
  by_cases hs : p.state = p'.state
  case pos =>
    have hlast : p.last = p'.last := by simp only [TpParam.last, hs]
    rw [TpParam.due, if_pos hs, List.nil_append, hlast]
    exact h
  case neg =>
    by_cases hc' : p'.state = .connect
    case pos =>
      have hc : p.state ≠ .connect := fun hc => hs (hc.trans hc'.symm)
      simp only [TpParam.last, if_pos hc', if_neg hc, TpParam.due, if_neg hs] at h ⊢
      exact List.isChain_cons_cons.mpr ⟨nofun, h⟩
    case neg =>
      by_cases hc : p.state = .connect
      case pos =>
        simp only [TpParam.last, if_pos hc, if_neg hc', TpParam.due, if_neg hs] at h ⊢
        exact List.isChain_cons_cons.mpr ⟨nofun, h⟩
      case neg =>
        simp only [TpParam.last, if_neg hc, if_neg hc', TpParam.due, if_neg hs] at h ⊢
        exact h

theorem told_isChain : Run (Steps func) s steps t → (∀ step ∈ steps, Tells func step) →
    (s.last :: steps.flatMap (told func)).IsChain (· ≠ ·)
  | .nil,       _ => List.IsChain.singleton _
  | .cons ht r, h => by
    obtain ⟨htell, h⟩ := List.forall_mem_cons.mp h
    rw [List.flatMap_cons, htell, ← ht]
    exact due_isChain _ _ (told_isChain r h)

end

-- In a run of a pendant that was not connected, the callback is told each change of the connection
-- in the step that makes it, and nothing else, so that the reports alternate, iff no step takes in
-- a forged report.
theorem alternate_iff_not_forged {func : CallFuncTp} (hf : func.callTpState = true)
    {p q : TpParam} (hp : p.state = .tpLess) (r : Run (Steps func) p steps q) :
    (∀ step ∈ steps, Tells func step) ∧ Alternate (steps.flatMap (told func)) ↔
      ∀ step ∈ steps, ¬Forged step.2 := by
  have hlast : p.last = .disconnect := if_neg (hp ▸ nofun)
  have hiff : (∀ step ∈ steps, Tells func step) ↔ ∀ step ∈ steps, ¬Forged step.2 :=
    forall₂_congr fun _ _ => tells_iff hf
  rw [← hiff, Alternate, ← hlast]
  exact and_iff_left_of_imp (told_isChain r)

-- The pendant answers, then falls silent for too long, and answers again.
def answered (time : Nat) : TpCalls where
  lockMutex := sOk
  tpRecv    := sOk
  command   := rtkCmdAck
  data      := []
  malloc    := true
  callFunc  := sOk
  respond   := sOk
  ping      := sOk
  callState := sOk
  time      := time

def silent (time : Nat) : TpCalls :=
  { answered time with tpRecv := eTimeout }

def allCallbacks : CallFuncTp where
  callTpState     := true
  callTpKeyInfo   := true
  callTpTouchInfo := true

def reconnect : List (TpParam × TpCalls) :=
  [(⟨.tpLess, 0⟩, answered 5), (⟨.connect, 5⟩, silent 10006), (⟨.tpError, 10006⟩, answered 10007)]

theorem reconnect_alternates :
    (∀ step ∈ reconnect, Tells allCallbacks step) ∧
    Alternate (reconnect.flatMap (told allCallbacks)) :=
  have r : Run (Steps allCallbacks) ⟨.tpLess, 0⟩ reconnect ⟨.connect, 10007⟩ :=
    .cons rfl <| .cons rfl <| .cons rfl .nil
  have hc : ∀ step ∈ reconnect, nativeCommand step.2.command ≠ tpCmdSpecial := by decide
  alternate_iff_not_forged rfl rfl r |>.mpr fun step hstep f => hc step hstep f.command

-- A packet with the command for a change of the state, which is not meant to be received.
def forgedReport : TpCalls :=
  { answered 5 with command := tpCmdSpecial, data := [1, 0, 0, 0] }

-- It tells a connect twice, at the first time the pendant gets connected.
theorem forgedReport_not_alternate :
    Run (Steps allCallbacks) ⟨.tpLess, 0⟩ [(⟨.tpLess, 0⟩, forgedReport)] ⟨.connect, 5⟩ ∧
      told allCallbacks (⟨.tpLess, 0⟩, forgedReport) = [.connect, .connect] ∧
      ¬Alternate (told allCallbacks (⟨.tpLess, 0⟩, forgedReport)) :=
  ⟨.cons rfl .nil, rfl, by rw [Alternate]; decide⟩

end Robotalk
