import DensoRobot.Robot.Motion
import DensoRobot.Lib.Run

open HRESULT

namespace Robot

namespace Goal

variable {c c' : Act} {g g' : Goal} {hr : HRESULT}

-- What the steps of a goal can do.

theorem enter_cases (h : g.enter c = some (c', g')) :
    g.worker = .stored ∧
    ((c = .none ∧ c' = g.kind.act ∧ g' = { g with worker := .running }) ∨
     (c.Moving ∧ c' = c ∧ g' = { g with worker := .done, reports := g.reports ++ [.abort eFail] }) ∨
     (c = .reset ∧ c' = c ∧ g' = { g with worker := .done })) := by
  unfold enter at h
  split at h
  case isFalse => contradiction
  case isTrue hw =>
    refine ⟨hw, ?_⟩
    by_cases hn : c = .none
    case pos => simp_all
    by_cases hr : c = .reset
    case pos => simp_all
    case neg =>
      have hm : c.Moving := Act.moving_iff.mpr ⟨hn, hr⟩
      simp_all

theorem command_cases (h : g.command hr c = some (c', g')) :
    g.worker = .running ∧ c' = c ∧ g' = { g with worker := .returned hr } := by
  unfold command at h
  split at h <;> simp_all

theorem leave_cases (h : g.leave c = some (c', g')) :
    ∃ hr, g.worker = .returned hr ∧
    ((c = g.kind.act ∧ c' = .none ∧
        g' = { g with worker := .done, reports := g.reports ++ [result hr] }) ∨
     (c ≠ g.kind.act ∧ c' = c ∧ g' = { g with worker := .done })) := by
  unfold leave at h
  split at h
  case h_2 => contradiction
  case h_1 hr hw => exact ⟨hr, hw, by split at h <;> simp_all⟩

theorem halt_cases (h : g.halt c = some (c', g')) :
    g.cancel = .idle ∧ g.reports = [] ∧ c' = c ∧ g' = { g with cancel := .halted } := by
  unfold halt at h
  split at h <;> simp_all

theorem release_cases (h : g.release = some (c', g')) :
    g.cancel = .halted ∧ c' = .none ∧ g' = { g with cancel := .released } := by
  unfold release at h
  split at h <;> simp_all

theorem canceled_cases (h : g.canceled c = some (c', g')) :
    g.cancel = .released ∧ c' = c ∧
    g' = { g with cancel := .reported, reports := g.reports ++ [.canceled] } := by
  unfold canceled at h
  split at h <;> simp_all

end Goal

abbrev Motion.Step (s : Motion) (a : Action) (s' : Motion) : Prop :=
  s.step a = some s'

namespace Motion

variable {s s' : Motion} {g g' : Goal} {c : Act} {i j k : Nat}
    {f : Act → Goal → Option (Act × Goal)}

-- The state after the `i`-th goal became `g`.
def put (s : Motion) (curAct : Act) (i : Nat) (g : Goal) : Motion :=
  { s with curAct, goals := s.goals.set i g }

theorem on_eq_some_iff :
    s.on i f = some s' ↔
    ∃ g c g', s.goals[i]? = some g ∧ f s.curAct g = some (c, g') ∧ s' = s.put c i g' where
  mp h := by
    simp only [on, Option.bind_eq_bind, Option.bind_eq_some_iff, Prod.exists, Option.pure_def,
      Option.some.injEq] at h
    have ⟨g, hg, c, g', hf, hs⟩ := h
    exact ⟨g, c, g', hg, hf, hs.symm⟩
  mpr := by
    rintro ⟨g, c, g', hg, hf, rfl⟩
    simp [on, hg, hf, put]

theorem store_eq_some_iff :
    s.store i = some s' ↔
    ∃ g, s.goals[i]? = some g ∧ g.worker = .accepted ∧
      s' = { s.put s.curAct i { g with worker := .stored } with
        handles := fun act => if act = g.kind.act then some i else s.handles act } where
  mp h := by
    simp only [store, Option.bind_eq_bind, Option.bind_eq_some_iff] at h
    have ⟨g, hg, h⟩ := h
    split at h
    case isFalse => contradiction
    case isTrue hw => exact ⟨g, hg, hw, Option.some.inj h |>.symm⟩
  mpr := by
    rintro ⟨g, hg, hw, rfl⟩
    simp [store, hg, hw, put]

-- The other goals stay as they are.
theorem goals_put (h : s.goals[i]? = some g) (c : Act) (g' : Goal) (j : Nat) :
    (s.put c i g').goals[j]? = if i = j then some g' else s.goals[j]? := by
  have := List.getElem?_eq_some_iff.mp h |>.1
  simp only [put, List.getElem?_set]
  split <;> simp_all

theorem goals_accept (kind : Kind) (h : (s.goals ++ [.accepted kind])[j]? = some g) :
    s.goals[j]? = some g ∨ g = .accepted kind := by
  rw [List.getElem?_append] at h
  split at h
  case isTrue  => exact .inl h
  case isFalse => exact .inr <| (List.mem_singleton.mp <| List.mem_of_getElem? h)

-- The `i`-th goal has a worker between setting `m_curAct` and leaving its final critical section.
def Active (s : Motion) (i : Nat) : Prop :=
  ∃ g, s.goals[i]? = some g ∧ g.worker.Active

-- There is at most one active worker, and `m_curAct` is the kind of an action iff there is one.
structure Exclusive (s : Motion) : Prop where
  unique : ∀ {i j}, s.Active i → s.Active j → i = j
  moving : s.curAct.Moving ↔ ∃ i, s.Active i

-- `m_curAct` is the kind of the active worker.
structure Guarded (s : Motion) : Prop extends Exclusive s where
  kind : ∀ {i : Nat} {g : Goal}, s.goals[i]? = some g → g.worker.Active → s.curAct = g.kind.act

-- `m_curAct` is not reset from outside while a worker is active.
def Undisturbed (s : Motion) : Action → Prop
  | .release _ | .cancel => ∀ i, ¬s.Active i
  | _ => True

theorem Guarded.idle (inv : Guarded s) (h : ∀ j, ¬s.Active j) : ¬s.curAct.Moving :=
  fun hm => have ⟨j, hj⟩ := inv.moving.mp hm; h j hj

theorem active_put (h : s.goals[i]? = some g) :
    (s.put c i g').Active j ↔ if i = j then g'.worker.Active else s.Active j := by
  simp only [Active, goals_put h]
  split <;> simp

theorem Active.of_put (h : s.goals[i]? = some g) (hw : g.worker.Active ↔ g'.worker.Active) :
    (s.put c i g').Active j ↔ s.Active j := by
  rw [active_put h]
  split
  case isTrue hij  => subst hij; simp [Active, h, hw]
  case isFalse hij => rfl

-- A step that does not change which workers are active.
theorem Guarded.same (inv : Guarded s) (h : s.goals[k]? = some g)
    (hw : g.worker.Active ↔ g'.worker.Active) (hk : g'.kind = g.kind) :
    Guarded (s.put s.curAct k g') where
  unique h₁ h₂ := inv.unique (Active.of_put h hw |>.mp h₁) (Active.of_put h hw |>.mp h₂)
  moving := inv.moving.trans (exists_congr fun _ => Active.of_put h hw).symm
  kind := by
    intro j gj hj ha
    rw [goals_put h] at hj
    split at hj
    case isTrue  =>
      cases hj
      exact hk ▸ inv.kind h (hw.mpr ha)
    case isFalse => exact inv.kind hj ha

theorem Guarded.entered (inv : Guarded s) (h : s.goals[k]? = some g) (hc : s.curAct = .none)
    (hk : g'.kind = g.kind) (hw : g'.worker.Active) : Guarded (s.put g.kind.act k g') := by
  have hn : ∀ j, ¬s.Active j := by
    intro j hj
    have := inv.moving.mpr ⟨j, hj⟩
    rw [hc] at this
    contradiction
  refine { unique := ?unique, moving := ?moving, kind := ?kind }
  case unique =>
    intro j₁ j₂ h₁ h₂
    rw [active_put h] at h₁ h₂
    split at h₁ <;> split at h₂ <;> simp_all
  case moving =>
    refine ⟨fun _ => ⟨k, ?_⟩, fun _ => g.kind.moving⟩
    simpa [active_put h] using hw
  case kind =>
    intro j gj hj ha
    rw [goals_put h] at hj
    split at hj
    case isTrue  => cases hj; exact hk ▸ rfl
    case isFalse => exact absurd ⟨gj, hj, ha⟩ (hn j)

theorem Guarded.left (inv : Guarded s) (h : s.goals[k]? = some g) (hg : g.worker.Active)
    (hw : ¬g'.worker.Active) : Guarded (s.put .none k g') := by
  have hn : ∀ j, ¬(s.put .none k g').Active j := by
    intro j hj
    rw [active_put h] at hj
    split at hj
    case isTrue      => exact hw hj
    case isFalse hkj => exact hkj (inv.unique ⟨g, h, hg⟩ hj)
  exact {
    unique := fun h₁ => absurd h₁ (hn _)
    moving := ⟨fun hm => absurd hm Act.not_moving_none, fun ⟨j, hj⟩ => absurd hj (hn j)⟩
    kind   := fun hj ha => absurd ⟨_, hj, ha⟩ (hn _)
  }

theorem Guarded.released (inv : Guarded s) (hn : ∀ j, ¬s.Active j) :
    Guarded { s with curAct := .none } where
  unique := inv.unique
  moving := ⟨fun hm => absurd hm Act.not_moving_none, fun ⟨j, hj⟩ => absurd hj (hn j)⟩
  kind   := fun hj ha => absurd ⟨_, hj, ha⟩ (hn _)

theorem Guarded.accept (inv : Guarded s) (kind : Kind) :
    Guarded { s with goals := s.goals ++ [.accepted kind] } := by
  have ha : ∀ {j : Nat} {g : Goal}, (s.goals ++ [.accepted kind])[j]? = some g → g.worker.Active →
      s.goals[j]? = some g := by
    intro j g hj hg
    cases goals_accept kind hj
    case inl h => exact h
    case inr h => subst h; exact absurd hg id
  have hb : ∀ {j : Nat} {g : Goal},
      s.goals[j]? = some g → (s.goals ++ [.accepted kind])[j]? = some g := by
    intro j g hj
    have := List.getElem?_eq_some_iff.mp hj |>.1
    rw [List.getElem?_append_left this, hj]
  have hn : ∀ j, ({ s with goals := s.goals ++ [.accepted kind] } : Motion).Active j ↔ s.Active j :=
    fun j => ⟨fun ⟨g, hj, hg⟩ => ⟨g, ha hj hg, hg⟩, fun ⟨g, hj, hg⟩ => ⟨g, hb hj, hg⟩⟩
  exact {
    unique := fun h₁ h₂ => inv.unique (hn _ |>.mp h₁) (hn _ |>.mp h₂)
    moving := inv.moving.trans (exists_congr hn).symm
    kind   := fun hj hg => inv.kind (ha hj hg) hg
  }

-- The exclusion is kept as long as nobody else resets `m_curAct` during a command, and not beyond.
theorem guarded_exact : Exact Step Guarded Exclusive Undisturbed where
  good := Guarded.toExclusive
  keep := by
    intro s a s' h ok inv
    cases a
    case accept kind =>
      cases h
      exact inv.accept kind
    case store i =>
      have ⟨g, hg, hw, hs⟩ := store_eq_some_iff.mp h
      subst hs
      have hactive : g.worker.Active ↔ Worker.stored.Active := by simp [hw, Worker.Active]
      have : Guarded (s.put s.curAct i { g with worker := .stored }) := inv.same hg hactive rfl
      exact { unique := this.unique, moving := this.moving, kind := this.kind }
    case enter i =>
      have ⟨g, c, g', hg, hf, hs⟩ := on_eq_some_iff.mp h
      obtain ⟨hw, ⟨hc, rfl, rfl⟩ | ⟨-, rfl, rfl⟩ | ⟨-, rfl, rfl⟩⟩ := Goal.enter_cases hf
      case inl => exact hs ▸ inv.entered hg hc rfl trivial
      all_goals exact hs ▸ inv.same hg (by simp [hw, Worker.Active]) rfl
    case command i hr =>
      have ⟨g, c, g', hg, hf, hs⟩ := on_eq_some_iff.mp h
      obtain ⟨hw, rfl, rfl⟩ := Goal.command_cases hf
      exact hs ▸ inv.same hg (by simp [hw, Worker.Active]) rfl
    case leave i =>
      have ⟨g, c, g', hg, hf, hs⟩ := on_eq_some_iff.mp h
      obtain ⟨hr, hw, ⟨-, rfl, rfl⟩ | ⟨hc, -⟩⟩ := Goal.leave_cases hf
      case inl => exact hs ▸ inv.left hg (by simp [hw, Worker.Active]) id
      case inr => exact absurd (inv.kind hg (by simp [hw, Worker.Active])) hc
    case halt i =>
      have ⟨g, c, g', hg, hf, hs⟩ := on_eq_some_iff.mp h
      obtain ⟨-, -, rfl, rfl⟩ := Goal.halt_cases hf
      exact hs ▸ inv.same hg .rfl rfl
    case release i =>
      have ⟨g, c, g', hg, hf, hs⟩ := on_eq_some_iff (f := fun _ => Goal.release) |>.mp h
      obtain ⟨-, rfl, rfl⟩ := Goal.release_cases hf
      exact hs ▸ (inv.released ok).same (s := { s with curAct := .none }) hg .rfl rfl
    case canceled i =>
      have ⟨g, c, g', hg, hf, hs⟩ := on_eq_some_iff.mp h
      obtain ⟨-, rfl, rfl⟩ := Goal.canceled_cases hf
      exact hs ▸ inv.same hg .rfl rfl
    case cancel =>
      cases h
      unfold cancel
      split
      case isTrue  => exact inv.released ok
      case isFalse => exact inv
  need := by
    intro s a s' h inv ex
    cases a
    case release i =>
      intro j hj
      have ⟨g, c, g', hg, hf, hs⟩ := on_eq_some_iff (f := fun _ => Goal.release) |>.mp h
      obtain ⟨-, rfl, rfl⟩ := Goal.release_cases hf
      subst hs
      have hw : g.worker.Active ↔ { g with cancel := .released : Goal }.worker.Active := .rfl
      exact Act.not_moving_none <| ex.moving.mpr ⟨j, Active.of_put hg hw |>.mpr hj⟩
    case cancel =>
      intro j hj
      cases h
      have hm := inv.moving.mpr ⟨j, hj⟩
      simp only [cancel, hm, if_true] at ex
      exact Act.not_moving_none <| ex.moving.mpr ⟨j, hj⟩
    all_goals trivial

theorem guarded_started : Guarded started where
  unique := fun ⟨_, h, _⟩ => by simp [started] at h
  moving := ⟨fun h => absurd h Act.not_moving_none, fun ⟨_, _, h, _⟩ => by simp [started] at h⟩
  kind   := fun h => by simp [started] at h

-- In a run from the start of the service, at most one worker is active at every moment, and
-- `m_curAct` tells whether there is one, iff no cancellation resets `m_curAct` during a command.
theorem exclusive_iff (r : Run Step started steps s) :
    Always Exclusive steps s ↔ ∀ p ∈ steps, p.1.Undisturbed p.2 :=
  guarded_exact.always_iff r guarded_started

-- A goal is executed while another one is refused.
theorem refusedGoal_exclusive :
    ∃ steps s, Run Step started steps s ∧ Always Exclusive steps s ∧
      s.goals.map (·.reports) = [[.succeed sOk], [.abort eFail]] := by
  have r : Run Step started _ _ :=
    .cons (a := .accept .moveString) rfl <| .cons (a := .accept .driveExValue) rfl <|
    .cons (a := .store 0) rfl <| .cons (a := .enter 0) rfl <| .cons (a := .store 1) rfl <|
    .cons (a := .enter 1) rfl <| .cons (a := .command 0 sOk) rfl <| .cons (a := .leave 0) rfl .nil
  refine ⟨_, _, r, exclusive_iff r |>.mpr ?_, rfl⟩
  simp only [List.forall_mem_cons]
  exact ⟨trivial, trivial, trivial, trivial, trivial, trivial, trivial, trivial, nofun⟩

-- The cancel handler of a goal lets another goal start while the command is executed.
theorem canceledGoal_overlaps :
    ∃ steps s, Run Step started steps s ∧ ¬Always Exclusive steps s ∧ s.Active 0 ∧ s.Active 1 := by
  have r : Run Step started _ _ :=
    .cons (a := .accept .moveString) rfl <| .cons (a := .store 0) rfl <|
    .cons (a := .enter 0) rfl <| .cons (a := .halt 0) rfl <| .cons (a := .release 0) rfl <|
    .cons (a := .accept .driveExValue) rfl <| .cons (a := .store 1) rfl <|
    .cons (a := .enter 1) rfl .nil
  refine ⟨_, _, r, fun h => ?_, ⟨_, rfl, trivial⟩, ⟨_, rfl, trivial⟩⟩
  exact absurd (h.2.unique (i := 0) (j := 1) ⟨_, rfl, trivial⟩ ⟨_, rfl, trivial⟩) (by decide)

end Motion

-- Exactly one report for a goal whose worker has returned, and at most one for the others.
structure Goal.Reported (g : Goal) : Prop where
  le_one : g.reports.length ≤ 1
  done   : g.worker = .done → g.reports.length = 1

-- Until its worker has returned, a goal has the report of its cancel handler only.
structure Goal.Tracked (g : Goal) : Prop extends Reported g where
  waiting : g.worker ≠ .done → g.reports.length = if g.cancel = .reported then 1 else 0

namespace Goal.Tracked

variable {g : Goal}

theorem accepted (kind : Kind) : (Goal.accepted kind).Tracked where
  le_one  := Nat.zero_le _
  done    := nofun
  waiting := fun _ => rfl

-- A step of the worker that is not its last.
theorem proceed (t : g.Tracked) (hw : g.worker ≠ .done) (hn : w ≠ .done) :
    { g with worker := w : Goal }.Tracked where
  le_one  := t.le_one
  done    := (absurd · hn)
  waiting := fun _ => t.waiting hw

theorem reported_last (t : g.Tracked) (hw : g.worker ≠ .done) (report : Report) :
    { g with worker := .done, reports := g.reports ++ [report] : Goal }.Reported ↔
    g.cancel ≠ .reported where
  mp h hc := by
    have h₁ := h.le_one
    have h₂ := t.waiting hw
    simp only [List.length_append, List.length_singleton, hc, if_true] at h₁ h₂
    omega
  mpr hc := by
    have h := t.waiting hw
    rw [if_neg hc] at h
    exact { le_one := by simp [h], done := by simp [h] }

theorem silent_last (t : g.Tracked) (hw : g.worker ≠ .done) :
    { g with worker := .done : Goal }.Reported ↔ g.cancel = .reported where
  mp h := by
    have h₁ := h.done rfl
    have h₂ := t.waiting hw
    by_contra hc
    simp_all
  mpr hc := by
    have h := t.waiting hw
    rw [if_pos hc] at h
    exact { le_one := Nat.le_of_eq h, done := fun _ => h }

theorem canceled (t : g.Tracked) (hc : g.cancel = .released) :
    { g with cancel := .reported, reports := g.reports ++ [.canceled] : Goal }.Reported ↔
    g.worker ≠ .done where
  mp h hw := by
    have h₁ := h.le_one
    have h₂ := t.done hw
    simp only [List.length_append, List.length_singleton] at h₁
    omega
  mpr hw := by
    have h := t.waiting hw
    simp only [hc, reduceCtorEq, if_false] at h
    exact { le_one := by simp [h], done := (absurd · hw) }

-- A step of the cancel handler that is not its last.
theorem cancelling (t : g.Tracked) (hc : g.cancel ≠ .reported) (hn : c ≠ .reported) :
    { g with cancel := c : Goal }.Tracked where
  le_one  := t.le_one
  done    := t.done
  waiting := fun hw => by simpa only [hc, hn, if_false] using t.waiting hw

end Goal.Tracked

namespace Motion

variable {s s' : Motion} {g g' : Goal} {c : Act} {i j k : Nat}

def AllReported (s : Motion) : Prop :=
  ∀ g ∈ s.goals, g.Reported

structure Tracked (s : Motion) : Prop where
  goals   : ∀ g ∈ s.goals, g.Tracked
  serving : s.curAct ≠ .reset

theorem Tracked.put (inv : Tracked s) (hc : c ≠ .reset) (hg : g'.Tracked) :
    Tracked (s.put c k g') where
  goals g hm := by
    cases List.mem_or_eq_of_mem_set hm
    case inl h => exact inv.goals g h
    case inr h => exact h ▸ hg
  serving := hc

theorem AllReported.of_put (h : AllReported (s.put c k g')) (hg : s.goals[k]? = some g) :
    g'.Reported :=
  have := List.getElem?_eq_some_iff.mp hg |>.1
  h g' <| List.mem_set this g'

-- A worker finds its own kind in `m_curAct` iff its cancel handler has not reported. A worker that
-- is refused, and a cancel handler, reports on a goal that the other one has not reported on.
def Fair (s : Motion) : Action → Prop
  | .enter i    => ∀ g, s.goals[i]? = some g → s.curAct.Moving → g.cancel ≠ .reported
  | .leave i    => ∀ g, s.goals[i]? = some g → (s.curAct = g.kind.act ↔ g.cancel ≠ .reported)
  | .canceled i => ∀ g, s.goals[i]? = some g → g.worker ≠ .done
  | _           => True

theorem tracked_exact : Exact Step Tracked AllReported Fair where
  good inv g hg := inv.goals g hg |>.toReported
  keep := by
    intro s a s' h ok inv
    have tracked {i : Nat} {g : Goal} (hg : s.goals[i]? = some g) : g.Tracked :=
      inv.goals g <| List.mem_of_getElem? hg
    cases a
    case accept kind =>
      cases h
      refine ⟨fun g hg => ?_, inv.serving⟩
      cases List.mem_append.mp hg
      case inl h => exact inv.goals g h
      case inr h => exact List.mem_singleton.mp h ▸ .accepted kind
    case store i =>
      have ⟨g, hg, hw, hs⟩ := store_eq_some_iff.mp h
      subst hs
      have :=
        inv.put (k := i) inv.serving <| (tracked hg).proceed (w := .stored) (by simp [hw]) nofun
      exact ⟨this.goals, this.serving⟩
    case enter i =>
      have ⟨g, c, g', hg, hf, hs⟩ := on_eq_some_iff.mp h
      obtain ⟨hw, ⟨-, rfl, rfl⟩ | ⟨hm, rfl, rfl⟩ | ⟨hr, -, -⟩⟩ := Goal.enter_cases hf
      case inl =>
        exact hs ▸ inv.put (Act.moving_iff.mp g.kind.moving).2
          ((tracked hg).proceed (by simp [hw]) nofun)
      case inr.inl =>
        have := (tracked hg).reported_last (by simp [hw]) (.abort eFail) |>.mpr (ok g hg hm)
        exact hs ▸ inv.put inv.serving { this with waiting := (absurd rfl ·) }
      case inr.inr => exact absurd hr inv.serving
    case command i hr =>
      have ⟨g, c, g', hg, hf, hs⟩ := on_eq_some_iff.mp h
      obtain ⟨hw, rfl, rfl⟩ := Goal.command_cases hf
      exact hs ▸ inv.put inv.serving ((tracked hg).proceed (by simp [hw]) nofun)
    case leave i =>
      have ⟨g, c, g', hg, hf, hs⟩ := on_eq_some_iff.mp h
      obtain ⟨hr, hw, ⟨hc, rfl, rfl⟩ | ⟨hc, rfl, rfl⟩⟩ := Goal.leave_cases hf
      case inl =>
        have := (tracked hg).reported_last (by simp [hw]) (Goal.result hr) |>.mpr (ok g hg |>.mp hc)
        exact hs ▸ inv.put nofun { this with waiting := (absurd rfl ·) }
      case inr =>
        have := (tracked hg).silent_last (by simp [hw]) |>.mpr (not_not.mp <| ok g hg |>.not.mp hc)
        exact hs ▸ inv.put inv.serving { this with waiting := (absurd rfl ·) }
    case halt i =>
      have ⟨g, c, g', hg, hf, hs⟩ := on_eq_some_iff.mp h
      obtain ⟨hc, -, rfl, rfl⟩ := Goal.halt_cases hf
      exact hs ▸ inv.put inv.serving ((tracked hg).cancelling (by simp [hc]) nofun)
    case release i =>
      have ⟨g, c, g', hg, hf, hs⟩ := on_eq_some_iff (f := fun _ => Goal.release) |>.mp h
      obtain ⟨hc, rfl, rfl⟩ := Goal.release_cases hf
      exact hs ▸ inv.put nofun ((tracked hg).cancelling (by simp [hc]) nofun)
    case canceled i =>
      have ⟨g, c, g', hg, hf, hs⟩ := on_eq_some_iff.mp h
      obtain ⟨hc, rfl, rfl⟩ := Goal.canceled_cases hf
      have := (tracked hg).canceled hc |>.mpr (ok g hg)
      refine hs ▸ inv.put inv.serving { this with waiting := fun hw => ?_ }
      simp [(tracked hg).waiting hw, hc]
    case cancel =>
      cases h
      unfold cancel
      split
      case isTrue  => exact ⟨inv.goals, nofun⟩
      case isFalse => exact inv
  need := by
    intro s a s' h inv good
    have tracked {i : Nat} {g : Goal} (hg : s.goals[i]? = some g) : g.Tracked :=
      inv.goals g <| List.mem_of_getElem? hg
    cases a
    case enter i =>
      intro g hg hm
      have ⟨g₁, c, g', hg₁, hf, hs⟩ := on_eq_some_iff.mp h
      cases hg.symm.trans hg₁
      obtain ⟨hw, ⟨hc, -, -⟩ | ⟨-, rfl, rfl⟩ | ⟨hr, -, -⟩⟩ := Goal.enter_cases hf
      case inl => exact absurd hc (Act.moving_iff.mp hm).1
      case inr.inl =>
        exact (tracked hg).reported_last (by simp [hw]) _ |>.mp <| (hs ▸ good).of_put hg
      case inr.inr => exact absurd hr inv.serving
    case leave i =>
      intro g hg
      have ⟨g₁, c, g', hg₁, hf, hs⟩ := on_eq_some_iff.mp h
      cases hg.symm.trans hg₁
      obtain ⟨hr, hw, ⟨hc, rfl, rfl⟩ | ⟨hc, rfl, rfl⟩⟩ := Goal.leave_cases hf
      case inl =>
        have := (tracked hg).reported_last (by simp [hw]) _ |>.mp <| (hs ▸ good).of_put hg
        exact iff_of_true hc this
      case inr =>
        have := (tracked hg).silent_last (by simp [hw]) |>.mp <| (hs ▸ good).of_put hg
        exact iff_of_false hc (not_not.mpr this)
    case canceled i =>
      intro g hg
      have ⟨g₁, c, g', hg₁, hf, hs⟩ := on_eq_some_iff.mp h
      cases hg.symm.trans hg₁
      obtain ⟨hc, rfl, rfl⟩ := Goal.canceled_cases hf
      exact (tracked hg).canceled hc |>.mp <| (hs ▸ good).of_put hg
    all_goals trivial

-- In a run from the start of the service, at every moment the goals whose workers have returned
-- have exactly one report and no goal has two, iff workers and cancel handlers do not miss each
-- other.
theorem allReported_iff (r : Run Step started steps s) :
    Always AllReported steps s ↔ ∀ p ∈ steps, p.1.Fair p.2 :=
  tracked_exact.always_iff r { goals := nofun, serving := nofun }

-- A goal is canceled during its command.
theorem canceledGoal_reported :
    ∃ steps s, Run Step started steps s ∧ Always AllReported steps s ∧
      s.goals.map (·.reports) = [[.canceled]] := by
  have r : Run Step started _ _ :=
    .cons (a := .accept .moveString) rfl <| .cons (a := .store 0) rfl <|
    .cons (a := .enter 0) rfl <| .cons (a := .halt 0) rfl <| .cons (a := .release 0) rfl <|
    .cons (a := .canceled 0) rfl <| .cons (a := .command 0 eFail) rfl <|
    .cons (a := .leave 0) rfl .nil
  refine ⟨_, _, r, allReported_iff r |>.mpr ?_, rfl⟩
  simp only [List.forall_mem_cons]
  refine ⟨trivial, trivial, ?enter, trivial, trivial, ?canceled, trivial, ?leave, nofun⟩
  case enter    => exact fun _ _ h => absurd h Act.not_moving_none
  case canceled => rintro _ ⟨⟩; nofun
  case leave    => rintro _ ⟨⟩; decide

-- A canceled goal is reported on again after a goal of its kind was started.
theorem canceledGoal_reported_twice :
    ∃ steps s, Run Step started steps s ∧ ¬Always AllReported steps s ∧
      s.goals.map (·.reports) = [[.canceled, .abort eFail], []] := by
  have r : Run Step started _ _ :=
    .cons (a := .accept .moveString) rfl <| .cons (a := .store 0) rfl <|
    .cons (a := .enter 0) rfl <| .cons (a := .halt 0) rfl <| .cons (a := .release 0) rfl <|
    .cons (a := .canceled 0) rfl <| .cons (a := .accept .moveString) rfl <|
    .cons (a := .store 1) rfl <| .cons (a := .enter 1) rfl <|
    .cons (a := .command 0 eFail) rfl <| .cons (a := .leave 0) rfl .nil
  refine ⟨_, _, r, fun h => ?_, rfl⟩
  have := (h.2 _ List.mem_cons_self).le_one
  exact absurd this (by decide)

end Motion
end Robot
