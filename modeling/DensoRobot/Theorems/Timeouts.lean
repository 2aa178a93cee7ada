import DensoRobot.Bcap.Execution
import DensoRobot.Bcap.Theorems.Connection
import DensoRobot.Robotalk.Pendant

open HRESULT Bcap Robotalk

namespace Timeouts

-- The time between two readings of the clock is what has passed.
def Measures (t₀ t₁ : Nat) : Prop :=
  calcTimeDiff (gettimeofdayMsec t₀) (gettimeofdayMsec t₁) = t₁ - t₀

-- The second time comes after the first one, and before the clock shows the first one again.
structure Within (t₀ t₁ : Nat) : Prop where
  le : t₀ ≤ t₁
  lt : t₁ < t₀ + 4294967296

theorem Within.measures_iff (h : Within t₀ t₁) : Measures t₀ t₁ ↔ SameEpoch t₀ t₁ :=
  calcTimeDiff_eq_iff h.le h.lt

section

variable {host : Host} {calls : Calls} {m : Memory Node} {own fuel : Nat} {r : Node} {f : Family}
variable {since now : Nat → Nat}

-- The child `x` was last heard of at the time `since x`, and is looked at at the time `now x`.
structure Clocked (m : Memory Node) (f : Family) (since now : Nat → Nat) : Prop where
  stamp  : ∀ x ∈ f.children,
    (m.cell x).map Node.lastModified = some (gettimeofdayMsec (since x))
  within : ∀ x ∈ f.children, Within (since x) (now x)

def idle (since now : Nat → Nat) (x : Nat) : Bool :=
  decide (udpLifelimit < now x - since x)

-- Of the children, `check_lifelimit` destroys and deletes the idle ones.
def ExpiresIdle (host : Host) (calls : Calls) (fuel own : Nat) (m : Memory Node) (f : Family)
    (since now : Nat → Nat) : Prop :=
  ∃ m' r', checkLifelimit host calls (fun x => gettimeofdayMsec (now x)) fuel own m =
      .ok (r'.numChild, m') ∧
    Tree own m' r' (f.applyAll (destroyAll (f.children.filter (idle since now))))

theorem Clocked.expired_eq (hc : Clocked m f since now) (hx : x ∈ f.children)
    (hm : Measures (since x) (now x)) :
    expired m (fun x => gettimeofdayMsec (now x)) x = idle since now x := by
  have ⟨n, hn, hstamp⟩ := Option.map_eq_some_iff.mp (hc.stamp x hx)
  rw [Measures] at hm
  simp only [expired, hn, hstamp, idle, hm]

theorem expiresIdle (host : Host) (h : Tree own m r f) (hlock : ¬Failed (lockResult calls r))
    (hfuel : f.children.length + f.dead.length < fuel) (hc : Clocked m f since now)
    (hm : ∀ x ∈ f.children, Measures (since x) (now x)) :
    ExpiresIdle host calls fuel own m f since now := by
  have ⟨m', r', hrun, h', _⟩ :=
    checkLifelimit_spec host h hlock (fun x => gettimeofdayMsec (now x)) hfuel
  rw [List.filter_congr fun x hx => hc.expired_eq hx (hm x hx)] at h'
  exact ⟨m', r', hrun, h'⟩

end

section

variable {start execTimeout : Nat}

-- When the loop gives up, the callback has run for too long.
def GivesUpLate (start execTimeout : Nat) (turns : List WaitTurn) : Prop :=
  ∀ before turn after, turns = before ++ turn :: after →
    waitCompletion start execTimeout before = none →
    waitCompletion start execTimeout (before ++ [turn]) = some .timedOut →
    execTimeout < turn.time - start

theorem waitCompletion_append : {xs : List WaitTurn} → waitCompletion start execTimeout xs = none →
    waitCompletion start execTimeout (xs ++ ys) = waitCompletion start execTimeout ys
  | [],      _ => rfl
  | x :: xs, h => by
    simp only [List.cons_append, waitCompletion] at h ⊢
    split at h
    case isTrue => contradiction
    case isFalse hwait =>
      rw [if_neg hwait]
      split at h
      case isTrue => contradiction
      case isFalse hsend =>
        rw [if_neg hsend]
        split at h
        case isTrue => contradiction
        case isFalse hdiff =>
          rw [if_neg hdiff]
          exact waitCompletion_append h

theorem timedOut_diff {turn : WaitTurn}
    (h : waitCompletion start execTimeout [turn] = some .timedOut) :
    execTimeout < calcTimeDiff (gettimeofdayMsec start) (gettimeofdayMsec turn.time) := by
  simp only [waitCompletion] at h
  split at h
  case isTrue => cases h
  case isFalse =>
    split at h
    case isTrue => cases h
    case isFalse =>
      split at h
      case isTrue hdiff => exact hdiff
      case isFalse => cases h

theorem givesUpLate {turns : List WaitTurn} (hm : ∀ turn ∈ turns, Measures start turn.time) :
    GivesUpLate start execTimeout turns := by
  intro before turn after hturns hwait hout
  rw [waitCompletion_append hwait] at hout
  have hturn : turn ∈ turns := hturns ▸ List.mem_append_right _ List.mem_cons_self
  exact hm turn hturn ▸ timedOut_diff hout

end

section

variable {func : CallFuncTp} {c : TpCalls} {p : TpParam} {tmpState : TpState} {hr : HRESULT}

-- When a pendant is declared in error, nothing has been heard of it for too long.
def DeclaresLate (func : CallFuncTp) (c : TpCalls) (p : TpParam) (since : Nat) : Prop :=
  p.state ≠ .tpError → (receiveExecute func c p).2.1.state = .tpError →
    tpErrorTimeout < c.time - since

theorem updateState_tpError (hp : p.state ≠ .tpError)
    (h : (updateState func c tmpState hr p).2.1.state = .tpError) :
    tpErrorTimeout < calcTimeDiff p.checkClock (gettimeofdayMsec c.time) := by
  apply Classical.byContradiction
  intro hdiff
  have hdiff' : ¬tpLessInterval < calcTimeDiff p.checkClock (gettimeofdayMsec c.time) := hdiff
  cases hs : p.state
  case tpError => exact hp hs
  all_goals
    cases tmpState
    all_goals simp [updateState, hs, hdiff, hdiff'] at h

theorem receiveExecute_tpError (hp : p.state ≠ .tpError)
    (h : (receiveExecute func c p).2.1.state = .tpError) :
    tpErrorTimeout < calcTimeDiff p.checkClock (gettimeofdayMsec c.time) := by
  simp only [receiveExecute] at h
  split at h
  case isTrue => contradiction
  case isFalse =>
    split at h
    case isTrue => exact updateState_tpError hp h
    case isFalse =>
      split at h
      case h_1 => contradiction
      case h_2 => exact updateState_tpError hp h

theorem declaresLate (hclock : p.checkClock = gettimeofdayMsec since) (hm : Measures since c.time) :
    DeclaresLate func c p since := by
  intro hp h
  rw [Measures, ← hclock] at hm
  exact hm ▸ receiveExecute_tpError hp h

end

-- The time-outs are right iff the clock does not start anew while they run.
theorem right_iff_sameEpoch {t₀ t₁ : Nat} (h : Within t₀ t₁)
    (host : Host) {calls : Calls} {m : Memory Node} {own fuel : Nat} {r : Node} {f : Family}
    (htree : Tree own m r f) (hlock : ¬Failed (lockResult calls r))
    (hfuel : f.children.length + f.dead.length < fuel) {since now : Nat → Nat}
    (hclocked : Clocked m f since now)
    {start : Nat} {turns : List WaitTurn} (hturns : ∀ turn ∈ turns, Within start turn.time)
    (execTimeout : Nat)
    (func : CallFuncTp) (c : TpCalls) (p : TpParam) {heard : Nat}
    (hclock : p.checkClock = gettimeofdayMsec heard) (hheard : Within heard c.time) :
    (Measures t₀ t₁ ↔ SameEpoch t₀ t₁) ∧
    ((∀ x ∈ f.children, Measures (since x) (now x)) ∧
        ExpiresIdle host calls fuel own m f since now ↔
      ∀ x ∈ f.children, SameEpoch (since x) (now x)) ∧
    ((∀ turn ∈ turns, Measures start turn.time) ∧ GivesUpLate start execTimeout turns ↔
      ∀ turn ∈ turns, SameEpoch start turn.time) ∧
    (Measures heard c.time ∧ DeclaresLate func c p heard ↔ SameEpoch heard c.time) := by
  refine ⟨h.measures_iff, ?children, ?turns, ?pendant⟩
  case children =>
    have hm : (∀ x ∈ f.children, Measures (since x) (now x)) ↔
        ∀ x ∈ f.children, SameEpoch (since x) (now x) :=
      forall₂_congr fun x hx => (hclocked.within x hx).measures_iff
    rw [← hm]
    exact and_iff_left_of_imp fun hm => expiresIdle host htree hlock hfuel hclocked hm
  case turns =>
    have hm : (∀ turn ∈ turns, Measures start turn.time) ↔
        ∀ turn ∈ turns, SameEpoch start turn.time :=
      forall₂_congr fun turn hturn => (hturns turn hturn).measures_iff
    rw [← hm]
    exact and_iff_left_of_imp givesUpLate
  case pendant =>
    rw [← hheard.measures_iff]
    exact and_iff_left_of_imp (declaresLate hclock)

-- A UDP server with one child.
def busyServer : Memory Node where
  cell p :=
    if p = 0 then some { udpRoot with numChild := 1, node1 := some 1 }
    else if p = 1 then some { udpRoot with lastModified := 500, parent := some 0 }
    else none
  next   := 2
  freed  := []

def oneChild : Family where
  children := [1]
  dead     := []
  freed    := []

theorem busyServer_tree : ∃ r, Tree 0 busyServer r oneChild ∧ r.relationMutex = false := by
  refine ⟨{ udpRoot with numChild := 1, node1 := some 1 }, ?_, rfl⟩
  constructor
  case root => rfl
  case orphan => rfl
  case children => exact ⟨some 1, .cons rfl rfl .nil⟩
  case dead => exact .nil
  case count => rfl
  case parent => exact List.forall_mem_singleton.mpr rfl
  case mutex => exact List.forall_mem_singleton.mpr rfl
  case nodup => decide
  case fresh => decide
  case freed => rfl
  case gone => exact fun _ hx => absurd hx List.not_mem_nil

def silentLine : TpCalls where
  lockMutex := sOk
  tpRecv    := eTimeout
  command   := 0
  data      := []
  malloc    := true
  callFunc  := sOk
  respond   := sOk
  ping      := sOk
  callState := sOk
  time      := 10200

theorem busyServer_measured :
    Measures 5 9 ∧
    ExpiresIdle ampleHost noFailure 2 0 busyServer oneChild (fun _ => 500) (fun _ => 11000) ∧
    GivesUpLate 600 80 [⟨eTimeout, sOk, 700⟩] ∧
    DeclaresLate ⟨true, true, true⟩ silentLine ⟨.connect, 100⟩ 100 := by
  obtain ⟨r, htree, hmutex⟩ := busyServer_tree
  have hlock : ¬Failed (lockResult noFailure r) := by
    rw [lockResult, hmutex]
    exact not_failed_sOk
  have hfuel : oneChild.children.length + oneChild.dead.length < 2 := by decide
  have hclocked : Clocked busyServer oneChild (fun _ => 500) (fun _ => 11000) :=
    ⟨List.forall_mem_singleton.mpr rfl, List.forall_mem_singleton.mpr ⟨by decide, by decide⟩⟩
  have hturns : ∀ turn ∈ [⟨eTimeout, sOk, 700⟩], Within 600 (WaitTurn.time turn) :=
    List.forall_mem_singleton.mpr ⟨by decide, by decide⟩
  have hheard : Within 100 silentLine.time := ⟨by decide, by decide⟩
  obtain ⟨h₁, h₂, h₃, h₄⟩ :=
    right_iff_sameEpoch (⟨by decide, by decide⟩ : Within 5 9) ampleHost htree
    hlock hfuel hclocked hturns 80 ⟨true, true, true⟩ silentLine ⟨.connect, 100⟩ rfl hheard
  exact ⟨h₁.mpr rfl, (h₂.mpr fun _ _ => rfl).2,
    (h₃.mpr (List.forall_mem_singleton.mpr rfl)).2, (h₄.mpr rfl).2⟩

-- One millisecond passes while the clock starts anew. It is measured as almost the whole range, and
-- makes a callback time out that may take three minutes.
theorem newEpoch_not_measures : Within 4294967295 4294967296 ∧ ¬Measures 4294967295 4294967296 ∧
    waitCompletion 4294967295 180000 [⟨eTimeout, sOk, 4294967296⟩] = some .timedOut :=
  ⟨by constructor <;> decide, by rw [Measures]; decide, rfl⟩

end Timeouts
