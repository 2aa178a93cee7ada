import DensoRobot.Robot.Theorems.Motion

open HRESULT

namespace Robot
namespace Motion

variable {s s' : Motion} {g g' : Goal} {c : Act} {i j k : Nat}

-- The worker of the `i`-th goal is the one that set `m_curAct`, and has not reported yet.
structure Moves (s : Motion) (i : Nat) (g : Goal) : Prop where
  goal    : s.goals[i]? = some g
  active  : g.worker.Active
  curAct  : s.curAct = g.kind.act
  waiting : g.reports = []
  only    : ∀ j, s.Active j → j = i

-- What `Action_Feedback` publishes at this moment goes to the goal that is moving.
def Attentive (s : Motion) : Prop :=
  ∀ hr target, s.actionFeedback hr = some target → ∃ i g, target = some i ∧ s.Moves i g

-- The steps of the workers, without those of the cancel handlers.
def Works : Action → Prop
  | .halt _ | .release _ | .canceled _ | .cancel => False
  | _ => True

def WorkStep (s : Motion) (a : Action) (s' : Motion) : Prop :=
  s.Step a s' ∧ Works a

-- A worker stores its handle while no goal of its kind is moving, and finds it there when it sets
-- `m_curAct`.
def Fresh (s : Motion) : Action → Prop
  | .store i => ∀ g, s.goals[i]? = some g → s.curAct ≠ g.kind.act
  | .enter i => ∀ g, s.goals[i]? = some g → s.curAct = .none → s.handles g.kind.act = some i
  | _        => True

-- The handle for `m_curAct` is that of the active worker, and only a worker that is done reports.
structure Slotted (s : Motion) : Prop extends Guarded s where
  slot    : ∀ {i : Nat} {g : Goal}, s.goals[i]? = some g → g.worker.Active →
    s.handles s.curAct = some i
  waiting : ∀ {i : Nat} {g : Goal}, s.goals[i]? = some g → g.worker ≠ .done → g.reports = []

theorem Slotted.attentive (inv : Slotted s) : s.Attentive := by
  intro hr target ht
  simp only [actionFeedback] at ht
  split at ht
  case isFalse => contradiction
  case isTrue hm =>
    obtain ⟨i, g, hg, ha⟩ := inv.moving.mp hm.1
    have hd : g.worker ≠ .done := fun hd => by simp [hd, Worker.Active] at ha
    refine ⟨i, g, ?_, hg, ha, inv.kind hg ha, inv.waiting hg hd, ?_⟩
    case refine_1 => rw [← inv.slot hg ha]; exact (Option.some.inj ht).symm
    case refine_2 => exact fun j hj => inv.unique hj ⟨g, hg, ha⟩

-- A step of the `k`-th goal that does not make its worker active.
theorem Slotted.put (inv : Slotted s) (h : s.goals[k]? = some g)
    (hk : Guarded (s.put s.curAct k g')) (hw : g'.worker.Active → g.worker.Active)
    (hr : g'.worker ≠ .done → g'.reports = []) : Slotted (s.put s.curAct k g') where
  toGuarded := hk
  slot {j gj} hj ha := by
    rw [goals_put h] at hj
    split at hj
    case isTrue hkj =>
      cases hj
      exact hkj ▸ inv.slot h (hw ha)
    case isFalse => exact inv.slot hj ha
  waiting {j gj} hj hd := by
    rw [goals_put h] at hj
    split at hj
    case isTrue  => cases hj; exact hr hd
    case isFalse => exact inv.waiting hj hd

theorem Slotted.entered (inv : Slotted s) (h : s.goals[k]? = some g) (hc : s.curAct = .none)
    (hk : Guarded (s.put g.kind.act k g')) (hs : s.handles g.kind.act = some k)
    (hr : g'.reports = []) : Slotted (s.put g.kind.act k g') where
  toGuarded := hk
  slot {j gj} hj ha := by
    rw [goals_put h] at hj
    split at hj
    case isTrue hkj  => exact hkj ▸ hs
    case isFalse hkj =>
      have hm := inv.moving.mpr ⟨j, gj, hj, ha⟩
      rw [hc] at hm
      exact absurd hm Act.not_moving_none
  waiting {j gj} hj hd := by
    rw [goals_put h] at hj
    split at hj
    case isTrue  => cases hj; exact hr
    case isFalse => exact inv.waiting hj hd

theorem Slotted.left (inv : Slotted s) (h : s.goals[k]? = some g)
    (hk : Guarded (s.put .none k g')) (hd : g'.worker = .done) : Slotted (s.put .none k g') where
  toGuarded := hk
  slot hj ha := absurd (hk.moving.mpr ⟨_, _, hj, ha⟩) Act.not_moving_none
  waiting {j gj} hj hd' := by
    rw [goals_put h] at hj
    split at hj
    case isTrue  => cases hj; exact absurd hd hd'
    case isFalse => exact inv.waiting hj hd'

theorem Slotted.accept (inv : Slotted s) (kind : Kind) :
    Slotted { s with goals := s.goals ++ [.accepted kind] } where
  toGuarded := inv.toGuarded.accept kind
  slot hj ha := by
    cases goals_accept kind hj
    case inl hj => exact inv.slot hj ha
    case inr he => subst he; exact absurd ha id
  waiting hj hd := by
    cases goals_accept kind hj
    case inl hj => exact inv.waiting hj hd
    case inr he => subst he; rfl

theorem Slotted.store (inv : Slotted s) (h : s.goals[i]? = some g) (hw : g.worker = .accepted)
    (hf : s.curAct ≠ g.kind.act) (hk : Guarded (s.put s.curAct i { g with worker := .stored })) :
    Slotted { s.put s.curAct i { g with worker := .stored } with
      handles := fun act => if act = g.kind.act then some i else s.handles act } := by
  have hn : g.worker ≠ .done := by simp [hw]
  have hr : g.reports = [] := inv.waiting h hn
  have inv' := inv.put h hk (fun ha => absurd ha id) fun _ => hr
  have hg : Guarded { s.put s.curAct i { g with worker := .stored } with
      handles := fun act => if act = g.kind.act then some i else s.handles act } :=
    { unique := hk.unique, moving := hk.moving, kind := hk.kind }
  refine { toGuarded := hg, slot := fun hj ha => ?_, waiting := inv'.waiting }
  exact (if_neg hf).trans (inv'.slot hj ha)

theorem WorkStep.guarded (h : WorkStep s a s') (inv : Guarded s) : Guarded s' := by
  apply guarded_exact.keep h.1 ?undisturbed inv
  case undisturbed =>
    cases a
    case release => exact h.2.elim
    case cancel  => exact h.2.elim
    all_goals exact trivial

theorem WorkStep.slotted (h : WorkStep s a s') (ok : s.Fresh a) (inv : Slotted s) : Slotted s' := by
  have hk := h.guarded inv.toGuarded
  obtain ⟨h, hw⟩ := h
  cases a
  case accept kind =>
    cases h
    exact inv.accept kind
  case store i =>
    obtain ⟨g, hg, hacc, rfl⟩ := store_eq_some_iff.mp h
    exact inv.store hg hacc (ok g hg) { unique := hk.unique, moving := hk.moving, kind := hk.kind }
  case enter i =>
    obtain ⟨g, c, g', hg, hf, rfl⟩ := on_eq_some_iff.mp h
    obtain ⟨hst, hcase⟩ := Goal.enter_cases hf
    have hr : g.reports = [] := inv.waiting hg (by simp [hst])
    obtain ⟨hc, rfl, rfl⟩ | ⟨-, rfl, rfl⟩ | ⟨-, rfl, rfl⟩ := hcase
    case inl => exact inv.entered hg hc hk (ok g hg hc) hr
    all_goals exact inv.put hg hk (fun ha => absurd ha id) fun hd => absurd rfl hd
  case command i hr =>
    obtain ⟨g, c, g', hg, hf, rfl⟩ := on_eq_some_iff.mp h
    obtain ⟨hrun, rfl, rfl⟩ := Goal.command_cases hf
    have hrep : g.reports = [] := inv.waiting hg (by simp [hrun])
    exact inv.put hg hk (fun _ => by simp [hrun, Worker.Active]) fun _ => hrep
  case leave i =>
    obtain ⟨g, c, g', hg, hf, rfl⟩ := on_eq_some_iff.mp h
    obtain ⟨hr, hret, ⟨-, rfl, rfl⟩ | ⟨hc, -⟩⟩ := Goal.leave_cases hf
    case inl => exact inv.left hg hk rfl
    case inr => exact absurd (inv.kind hg (by simp [hret, Worker.Active])) hc
  all_goals exact hw.elim

-- The goal that the handle of the current kind belongs to, if feedback goes to the moving one.
theorem Attentive.handle (h : s.Attentive) (hm : s.curAct.Moving) :
    ∃ i g, s.handles s.curAct = some i ∧ s.Moves i g :=
  h sOk _ (if_pos ⟨hm, succeeded_sOk⟩)

theorem WorkStep.fresh (h : WorkStep s a s') (good : s'.Attentive) : s.Fresh a := by
  obtain ⟨h, -⟩ := h
  cases a
  case store i =>
    intro g hg hc
    obtain ⟨g₁, hg₁, -, rfl⟩ := store_eq_some_iff.mp h
    cases hg.symm.trans hg₁
    have hm : s.curAct.Moving := hc ▸ g.kind.moving
    obtain ⟨j, gj, hj, mv⟩ := good.handle hm
    -- The handle is that of a goal whose worker is not active yet.
    have hij : i = j := Option.some.inj ((if_pos hc).symm.trans hj)
    subst hij
    have hgj := (goals_put hg s.curAct { g with worker := .stored } i).symm.trans mv.goal
    rw [if_pos rfl] at hgj
    cases hgj
    exact mv.active
  case enter i =>
    intro g hg hc
    obtain ⟨g₁, c, g', hg₁, hf, rfl⟩ := on_eq_some_iff.mp h
    cases hg.symm.trans hg₁
    obtain ⟨-, hcase⟩ := Goal.enter_cases hf
    obtain ⟨-, rfl, rfl⟩ | ⟨hm, -, -⟩ | ⟨hr, -, -⟩ := hcase
    case inl =>
      obtain ⟨j, gj, hj, mv⟩ := good.handle g.kind.moving
      have ha : (s.put g.kind.act i { g with worker := .running }).Active i :=
        active_put hg |>.mpr (by simp [Worker.Active])
      exact mv.only i ha ▸ hj
    case inr.inl => exact absurd (hc ▸ hm) Act.not_moving_none
    case inr.inr => exact absurd (hc.symm.trans hr) (by decide)
  all_goals trivial

theorem attentive_exact : Exact WorkStep Slotted Attentive Fresh where
  good := Slotted.attentive
  keep := WorkStep.slotted
  need h _ good := h.fresh good

theorem slotted_started : Slotted started where
  toGuarded := guarded_started
  slot h    := by simp [started] at h
  waiting h := by simp [started] at h

-- In a run from the start of the service without cancellation, feedback goes to the goal that is
-- moving at every moment iff the handles of the goals that start are not replaced.
theorem attentive_iff (r : Run WorkStep started steps s) :
    Always Attentive steps s ↔ ∀ p ∈ steps, p.1.Fresh p.2 :=
  attentive_exact.always_iff r slotted_started

theorem work (a : Action) (h : s.step a = some s') (hw : Works a) (r : Run WorkStep s' steps t) :
    Run WorkStep s ((s, a) :: steps) t :=
  .cons ⟨h, hw⟩ r

-- Two goals of different kinds, of which the second one is refused.
theorem refusedGoal_attentive :
    ∃ steps s, Run WorkStep started steps s ∧ Always Attentive steps s ∧
      s.goals.map (·.reports) = [[.succeed sOk], [.abort eFail]] := by
  have r : Run WorkStep started _ _ :=
    work (.accept .moveString) rfl trivial <|
    work (.accept .driveExValue) rfl trivial <|
    work (.store 0) rfl trivial <| work (.enter 0) rfl trivial <|
    work (.store 1) rfl trivial <| work (.enter 1) rfl trivial <|
    work (.command 0 sOk) rfl trivial <| work (.leave 0) rfl trivial .nil
  refine ⟨_, _, r, attentive_iff r |>.mpr ?_, rfl⟩
  simp only [List.forall_mem_cons]
  refine ⟨trivial, trivial, ?store, ?enter, ?store', ?enter', trivial, trivial, nofun⟩
  case store  => rintro _ ⟨⟩; decide
  case enter  => rintro _ ⟨⟩; exact fun _ => rfl
  case store' => rintro _ ⟨⟩; decide
  case enter' => rintro _ ⟨⟩; exact fun hc => absurd hc (by decide)

-- The feedback of a command goes to a goal of the same kind that is refused.
theorem refusedGoal_fed :
    ∃ steps s, Run WorkStep started steps s ∧ ¬Always Attentive steps s ∧
      s.actionFeedback sOk = some (some 1) ∧ s.goals.map (·.reports) = [[], [.abort eFail]] := by
  have r : Run WorkStep started _ _ :=
    work (.accept .moveString) rfl trivial <|
    work (.accept .moveString) rfl trivial <|
    work (.store 0) rfl trivial <| work (.enter 0) rfl trivial <|
    work (.store 1) rfl trivial <| work (.enter 1) rfl trivial .nil
  refine ⟨_, _, r, fun h => ?_, rfl, rfl⟩
  obtain ⟨i, g, hi, mv⟩ := h.2 sOk (some 1) rfl
  cases hi
  cases mv.goal
  exact mv.active

end Motion
end Robot
