import DensoRobot.Bcap.Theorems.Relation

open HRESULT Links

namespace Bcap

def Family.applyAll (f : Family) (changes : List Change) : Family :=
  changes.foldl Family.apply f

-- The result of locking the mutex of the tree, if there is one.
def lockResult (calls : Calls) (r : Node) : HRESULT :=
  if r.relationMutex then calls.lockMutex else sOk

section

variable {host : Host} {calls : Calls} {m m' : Memory Node} {own p sock fuel : Nat} {r n : Node}
variable {f : Family} {hr : HRESULT}

theorem Tree.child (h : Tree own m r f) (hp : p ∈ f.children ++ f.dead) :
    ∃ n, m.cell p = some n ∧ n.parent = some own ∧ n.relationMutex = r.relationMutex := by
  have ⟨n, hn, hparent⟩ := Option.map_eq_some_iff.mp (h.parent p hp)
  have hmutex := h.mutex p hp
  rw [hn, Option.map_some, Option.some.injEq] at hmutex
  exact ⟨n, hn, hparent, hmutex⟩

theorem Touched.trans {n₁ n₂ n₃ : Node} (h : Touched n₁ n₂) (h' : Touched n₂ n₃) :
    Touched n₁ n₃ where
  node1  := h'.node1.trans h.node1
  node2  := h'.node2.trans h.node2
  parent := h'.parent.trans h.parent
  mutex  := h'.mutex.trans h.mutex
  count  := h'.count.trans h.count

theorem modify_touch (h : Tree own m r f) {next : Nat} (hnext : m.next ≤ next) {g : Node → Node}
    (hg : ∀ n, Touched n (g n)) (hrun : Memory.modify { m with next } p g = .ok m') :
    ∃ r', Tree own m' r' f ∧ Touched r r' := by
  cases hn : m.cell p
  case none => simp [Memory.modify, Memory.load, hn] at hrun
  case some n =>
    have hmod : Memory.modify { m with next } p g = _ := Memory.modify_eq hn
    cases hmod.symm.trans hrun
    exact h.touch hn (hg n) hnext

-- The memory for the argument of the last response, with which `ownMemory` ends.
def ownArgument (host : Host) (p : Nat) (m : Memory Node) : Exec (Memory Node) :=
  match host.alloc m.next with
  | (none,   next) => Memory.modify { m with next } p fun n => { n with lastSendArgs := none }
  | (some _, next) => Memory.modify { m with next } p fun n =>
    { n with lastSendArgs := some (.init false .empty) }

theorem ownMemory_spec (h : Tree own m r f) (hrun : ownMemory host p n m = .ok m') :
    ∃ r', Tree own m' r' f ∧ Touched r r' := by
  have last {m₁ : Memory Node} {r₁ : Node} (h₁ : Tree own m₁ r₁ f)
      (hrun : ownArgument host p m₁ = .ok m') : ∃ r', Tree own m' r' f ∧ Touched r₁ r' := by
    have hnext : m₁.next ≤ m₁.next + 1 := Nat.le_succ _
    cases hm : host.malloc m₁.next
    case false =>
      simp only [ownArgument, Host.alloc_of_not_malloc hm] at hrun
      exact modify_touch h₁ hnext (fun n => by constructor <;> rfl) hrun
    case true =>
      simp only [ownArgument, Host.alloc_of_malloc hm] at hrun
      exact modify_touch h₁ hnext (fun n => by constructor <;> rfl) hrun
  simp only [ownMemory] at hrun
  by_cases hu : n.type = .udp
  case pos =>
    simp only [if_pos hu] at hrun
    cases hm : host.malloc m.next
    case false => simp [Host.alloc_of_not_malloc hm] at hrun
    case true =>
      simp only [Host.alloc_of_malloc hm] at hrun
      cases hmod : Memory.modify { m with next := m.next + 1 } p fun q => { q with arg := n.arg }
      case error => simp [hmod] at hrun
      case ok m₁ =>
        obtain ⟨r₁, h₁, ht₁⟩ :=
          modify_touch h (Nat.le_succ _) (fun n => by constructor <;> rfl) hmod
        simp only [hmod, Exec.ok_bind] at hrun
        obtain ⟨r', h', ht'⟩ := last h₁ hrun
        exact ⟨r', h', ht₁.trans ht'⟩
  case neg =>
    simp only [if_neg hu, Exec.pure_eq, Exec.ok_bind] at hrun
    exact last h hrun

theorem finishChild_spec (h : Tree own m r f) (hp : p ∈ f.children)
    (hrun : finishChild host calls p n m = .ok (hr, m')) (hok : Succeeded hr) :
    ∃ r', Tree own m' r' f ∧ Touched r r' := by
  have ⟨q, hq, _⟩ := h.child (List.mem_append_left _ hp)
  simp only [finishChild] at hrun
  split at hrun
  case isTrue =>
    simp only [Memory.free_eq hq, Exec.ok_bind] at hrun
    split at hrun
    case isTrue hfail =>
      cases hrun
      exact absurd hfail hok.not_failed
    case isFalse =>
      split at hrun
      case isTrue hfail =>
        cases hrun
        exact absurd hfail hok.not_failed
      case isFalse =>
        cases hrun
        exact ⟨r, h, .refl r⟩
  case isFalse =>
    cases hown : ownMemory host p n m
    case error => simp [hown] at hrun
    case ok m₁ =>
      simp only [hown, Exec.ok_bind] at hrun
      cases hrun
      exact ownMemory_spec h hown

-- `change_relation` for the root node, if its mutex can be locked.
theorem changeRelation_root (h : Tree own m r f) (hlock : ¬Failed (lockResult calls r))
    (mode : ChangeRelation) : changeRelation host calls (fuel + 1) own mode sock m =
      match mode with
      | .addChild    => addChild host calls own sock m
      | .deleteChild => do return (lockResult calls r, ← deleteChild fuel own m)
      | .destroySelf =>
        if r.relationMutex then
          return (lockResult calls r, m)
        else do
          let m ← m.each (·.node2) (fun node m => do
            return (← changeRelation host calls fuel node .destroySelf 0 m).2) fuel r.node1
          return (lockResult calls r,
            (← changeRelation host calls fuel own .deleteChild 0 m).2) := by
  rw [changeRelation, Memory.load_eq h.root]
  simp only [Exec.ok_bind, h.orphan]
  rw [lockResult] at hlock
  rw [if_neg hlock]
  cases mode <;> rfl

theorem changeRelation_locked (h : Tree own m r f) (hlock : Failed (lockResult calls r))
    (mode : ChangeRelation) : changeRelation host calls (fuel + 1) own mode sock m =
      .ok (lockResult calls r, m) := by
  rw [changeRelation, Memory.load_eq h.root]
  rw [lockResult] at hlock ⊢
  exact if_pos hlock

theorem changeRelation_child (h : Tree own m r f) (hlock : ¬Failed (lockResult calls r))
    (hp : p ∈ f.children) : changeRelation host calls (fuel + 1) p .destroySelf sock m =
      (do return (lockResult calls r, ← destroySelf p own m)) := by
  have ⟨n, hn, hparent, hmutex⟩ := h.child (List.mem_append_left _ hp)
  rw [changeRelation, Memory.load_eq hn]
  rw [lockResult] at hlock ⊢
  simp only [Exec.ok_bind, hparent, hmutex, if_neg hlock]

theorem add_spec (h : Tree own m r f)
    (hrun : changeRelation host calls (fuel + 1) own .addChild sock m = .ok (hr, m'))
    (hok : Succeeded hr) :
    ∃ r', Tree own m' r' (f.apply (.add m.next)) ∧ r'.numChild = r.numChild + 1 := by
  by_cases hlock : Failed (lockResult calls r)
  case pos =>
    rw [changeRelation_locked h hlock] at hrun
    cases hrun
    exact absurd hlock hok.not_failed
  case neg =>
    rw [changeRelation_root h hlock] at hrun
    cases hm : host.malloc m.next
    case false =>
      simp only [addChild, Memory.load_eq h.root, Exec.ok_bind, Host.alloc_of_not_malloc hm] at hrun
      cases hrun
      exact absurd hok (by decide)
    case true =>
      obtain ⟨m₁, r₁, hadd, h₁, hcount, _, _⟩ := addChild_linked host calls h hm sock
      obtain ⟨r', h', ht⟩ := finishChild_spec h₁ List.mem_cons_self (hadd.symm.trans hrun) hok
      exact ⟨r', h', ht.count.trans hcount⟩

theorem delete_spec (host : Host) (sock : Nat) (h : Tree own m r f)
    (hlock : ¬Failed (lockResult calls r))
    (hfuel : f.dead.length ≤ fuel) :
    ∃ m' r', changeRelation host calls (fuel + 1) own .deleteChild sock m =
      .ok (lockResult calls r, m') ∧ Tree own m' r' (f.apply .delete) ∧
      r'.relationMutex = r.relationMutex := by
  have ⟨m', r', hrun, h'⟩ := deleteChild_spec h hfuel
  refine ⟨m', r', ?_, h'⟩
  rw [changeRelation_root h hlock]
  simp only [hrun, Exec.ok_bind, Exec.pure_eq]

theorem destroy_spec (host : Host) (fuel sock : Nat) (h : Tree own m r f)
    (hlock : ¬Failed (lockResult calls r)) (hp : p ∈ f.children) :
    ∃ m' r', changeRelation host calls (fuel + 1) p .destroySelf sock m =
      .ok (lockResult calls r, m') ∧ Tree own m' r' (f.apply (.destroy p)) ∧ r'.data = r.data ∧
      Relinks (own :: f.children ++ f.dead) m m' := by
  have ⟨m', r', hrun, h', hdata, hrel⟩ := destroySelf_spec h hp
  refine ⟨m', r', ?_, h', hdata, hrel⟩
  rw [changeRelation_child h hlock hp, hrun, Exec.ok_bind, Exec.pure_eq]

-- A loop through the children that destroys those with the property `P`. It began in `m`, has
-- visited the nodes `done`, and `xs` are still to be visited.
structure Destroying (own : Nat) (m : Memory Node) (r : Node) (f : Family) (P : Nat → Bool)
    (done xs : List Nat) (m' : Memory Node) : Prop where
  tree     : ∃ r', Tree own m' r' (f.applyAll ((done.filter P).map .destroy)) ∧ r'.data = r.data
  children : (f.applyAll ((done.filter P).map .destroy)).children =
    done.filter (fun x => !P x) ++ xs
  data     : ∀ x, (m'.cell x).map Node.data = (m.cell x).map Node.data

-- What a visit of the node `x` is expected to do.
def Destroys (own : Nat) (m : Memory Node) (r : Node) (P : Nat → Bool)
    (visit : Nat → Memory Node → Exec (Memory Node)) : Prop :=
  ∀ {x m' r' f'}, Tree own m' r' f' → r'.data = r.data → x ∈ f'.children →
    (∀ x, (m'.cell x).map Node.data = (m.cell x).map Node.data) →
    visit x m' = if P x then destroySelf x own m' else .ok m'

theorem Destroying.step {P : Nat → Bool} {visit : Nat → Memory Node → Exec (Memory Node)}
    {done xs : List Nat} {x : Nat} (hv : Destroys own m r P visit)
    (hd : Destroying own m r f P done (x :: xs) m') :
    ∃ n m'', m'.cell x = some n ∧ n.node2 = xs.head? ∧ visit x m' = .ok m'' ∧
      Destroying own m r f P (done ++ [x]) xs m'' := by
  have ⟨r', h, hdata⟩ := hd.tree
  have ⟨l, hs⟩ := h.children
  have hx : x ∈ (f.applyAll ((done.filter P).map .destroy)).children := by
    rw [hd.children]
    exact List.mem_append_right _ List.mem_cons_self
  have hvisit := hv h hdata hx hd.data
  rw [hd.children] at hs
  have ⟨n, hn, _, hrest⟩ := hs.middle
  have hnext : n.node2 = xs.head? := hrest.first_eq.trans (Option.or_none ..)
  by_cases hP : P x = true
  case pos =>
    have ⟨m'', r'', hrun, h'', hdata'', hrel⟩ := destroySelf_spec h hx
    rw [if_pos hP, hrun] at hvisit
    have hchanges : f.applyAll (((done ++ [x]).filter P).map .destroy) =
        (f.applyAll ((done.filter P).map .destroy)).apply (.destroy x) := by
      simp only [Family.applyAll, List.filter_append, List.filter_cons, hP, List.filter_nil, if_pos,
        List.map_append, List.foldl_append, List.map_cons, List.map_nil, List.foldl_cons,
        List.foldl_nil]
    refine ⟨n, m'', hn, hnext, hvisit, ⟨r'', hchanges ▸ h'', hdata''.trans hdata⟩, ?_,
      fun y => (hrel.data y).trans (hd.data y)⟩
    have hnd := h.nodup
    rw [Family.all, hd.children] at hnd
    have herase : (done.filter (fun x => !P x) ++ x :: xs).erase x =
        done.filter (fun x => !P x) ++ xs := by
      rw [List.erase_append_right _ (by grind), List.erase_cons_head]
    rw [hchanges]
    simp only [Family.apply, hd.children, herase, List.filter_append, List.filter_cons, hP,
      List.filter_nil, Bool.not_true, Bool.false_eq_true, if_false, List.append_nil]
  case neg =>
    have hP := Bool.eq_false_iff.mpr hP
    rw [hP] at hvisit
    have hfilter : (done ++ [x]).filter P = done.filter P := by
      simp only [List.filter_append, List.filter_cons, hP, List.filter_nil, Bool.false_eq_true,
        if_false, List.append_nil]
    refine ⟨n, m', hn, hnext, hvisit, hfilter ▸ hd.tree, ?_, hd.data⟩
    simp only [hfilter, hd.children, List.filter_append, List.filter_cons, hP, List.filter_nil,
      Bool.not_false, if_true, List.append_assoc, List.singleton_append]

theorem each_destroys {P : Nat → Bool} {visit : Nat → Memory Node → Exec (Memory Node)}
    (h : Tree own m r f) (hv : Destroys own m r P visit) (hfuel : f.children.length ≤ fuel) :
    ∃ m' r', m.each (·.node2) visit fuel r.node1 = .ok m' ∧
      Tree own m' r' (f.applyAll ((f.children.filter P).map .destroy)) ∧ r'.data = r.data := by
  have hstart : Destroying own m r f P [] f.children m := ⟨⟨r, h, rfl⟩, rfl, fun _ => rfl⟩
  have ⟨m', hrun, done, hd⟩ :=
    Memory.each_spec (I := fun xs m' => ∃ done, done ++ xs = f.children ∧
        Destroying own m r f P done xs m')
      (fun ⟨done, hdone, hd⟩ =>
        have ⟨n, m'', hx, hnext, hvisit, hd'⟩ := hd.step hv
        ⟨n, m'', hx, hnext, hvisit, _, by rw [← hdone]; simp, hd'⟩) ⟨[], rfl, hstart⟩ hfuel
  obtain ⟨hdone, hd⟩ := hd
  rw [List.append_nil] at hdone
  subst hdone
  have ⟨l, hs⟩ := h.children
  have ⟨r', h', hdata⟩ := hd.tree
  rw [← hs.chain.head_eq] at hrun
  exact ⟨m', r', hrun, h', hdata⟩

theorem numChild_delete {r' : Node} (h : Tree own m r f) (h' : Tree own m' r' (f.apply .delete)) :
    r'.numChild ≤ r.numChild := by
  have hcount := h.count
  have hcount' := h'.count
  simp only [Family.apply, List.length_nil] at hcount'
  omega

-- The children that `check_lifelimit` destroys.
def expired (m : Memory Node) (now : Nat → Nat) (x : Nat) : Bool :=
  match m.cell x with
  | some n => decide (udpLifelimit < calcTimeDiff n.lastModified (now x))
  | none   => false

def destroyAll (ps : List Nat) : List Change :=
  ps.map .destroy ++ [.delete]

theorem applyAll_destroyAll (f : Family) (ps : List Nat) :
    f.applyAll (destroyAll ps) = (f.applyAll (ps.map .destroy)).apply .delete := by
  rw [destroyAll, Family.applyAll, List.foldl_append]
  rfl

-- Destroying a child moves it from one list to the other.
theorem length_destroy {ps : List Nat} (h : Tree own m r (f.applyAll (ps.map .destroy)))
    (h₀ : Tree own m' n f) (hc : r.numChild = n.numChild) :
    (f.applyAll (ps.map .destroy)).dead.length ≤ f.children.length + f.dead.length := by
  have hcount := h.count
  have hcount₀ := h₀.count
  omega

theorem lockResult_congr {r' : Node} (h : r'.data = r.data) :
    lockResult calls r' = lockResult calls r := by
  have hm : r'.relationMutex = r.relationMutex := (congrArg Node.relationMutex h :)
  rw [lockResult, lockResult, hm]

theorem checkLifelimit_spec (host : Host) (h : Tree own m r f)
    (hlock : ¬Failed (lockResult calls r))
    (now : Nat → Nat) (hfuel : f.children.length + f.dead.length < fuel) :
    ∃ m' r', checkLifelimit host calls now fuel own m = .ok (r'.numChild, m') ∧
      Tree own m' r' (f.applyAll (destroyAll (f.children.filter (expired m now)))) ∧
      r'.numChild ≤ r.numChild ∧ r'.relationMutex = r.relationMutex := by
  rcases fuel with _ | fuel
  case zero => contradiction
  have hfuel := Nat.le_of_lt_succ hfuel
  let visit (child : Nat) (m : Memory Node) : Exec (Memory Node) := do
    let diff := calcTimeDiff (← m.load child).lastModified (now child)
    if udpLifelimit < diff then
      return (← changeRelation host calls (fuel + 1) child .destroySelf 0 m).2
    else
      return m
  have hv : Destroys own m r (expired m now) visit := by
    intro x m' r' f' h' hdata hx hsame
    have ⟨n', hn', _⟩ := h'.child (List.mem_append_left _ hx)
    have hx' := hsame x
    rw [hn', Option.map_some] at hx'
    have ⟨n, hn, hnd⟩ := Option.map_eq_some_iff.mp hx'.symm
    have hl : n.lastModified = n'.lastModified := (congrArg Node.lastModified hnd :)
    have hexp : expired m now x = decide (udpLifelimit < calcTimeDiff n'.lastModified (now x)) := by
      rw [expired, hn, ← hl]
    have hlock' : ¬Failed (lockResult calls r') := lockResult_congr hdata ▸ hlock
    have ⟨m'', r'', hrun, _⟩ := destroySelf_spec h' hx
    simp only [visit, Memory.load_eq hn', Exec.ok_bind,
      changeRelation_child h' hlock' hx, hrun, hexp, decide_eq_true_eq]
    rfl
  have ⟨m₁, r₁, hrun₁, h₁, hdata₁⟩ :=
    each_destroys h hv (Nat.le_succ_of_le (Nat.le_of_add_right_le hfuel))
  have hlock₁ : ¬Failed (lockResult calls r₁) := lockResult_congr hdata₁ ▸ hlock
  have hcount : r₁.numChild = r.numChild := (congrArg Node.numChild hdata₁ :)
  have ⟨m₂, r₂, hrun₂, h₂, hmutex₂⟩ := delete_spec host 0 h₁ hlock₁
    (Nat.le_trans (length_destroy h₁ h hcount) hfuel)
  refine ⟨m₂, r₂, ?_, applyAll_destroyAll f _ ▸ h₂, hcount ▸ numChild_delete h₁ h₂,
    hmutex₂.trans (congrArg Node.relationMutex hdata₁ :)⟩
  simp only [checkLifelimit, Memory.load_eq h.root, Exec.ok_bind]
  refine (congrArg (· >>= _) hrun₁).trans ?_
  simp only [Exec.ok_bind, hrun₂, Memory.load_eq h₂.root]
  rfl

-- All children of a server without threads are destroyed when it ends.
theorem close_spec (host : Host) (calls : Calls) (sock : Nat) (h : Tree own m r f)
    (hmutex : r.relationMutex = false)
    (hfuel : f.children.length + f.dead.length + 1 < fuel) :
    ∃ m' r', changeRelation host calls fuel own .destroySelf sock m = .ok (sOk, m') ∧
      Tree own m' r' (f.applyAll (destroyAll f.children)) ∧ r'.numChild ≤ r.numChild := by
  rcases fuel with _ | _ | fuel
  case zero => contradiction
  case succ.zero => contradiction
  have hfuel : f.children.length + f.dead.length ≤ fuel :=
    Nat.le_of_lt_succ (Nat.lt_of_succ_lt_succ hfuel)
  have hnolock {r' : Node} (hdata : r'.data = r.data) : lockResult calls r' = sOk := by
    rw [lockResult_congr hdata, lockResult, hmutex]
    rfl
  have hlock {r' : Node} (hdata : r'.data = r.data) : ¬Failed (lockResult calls r') := by
    rw [hnolock hdata]
    exact not_failed_sOk
  have hv : Destroys own m r (fun _ => true) fun node m => do
      return (← changeRelation host calls (fuel + 1) node .destroySelf 0 m).2 := by
    intro x m' r' f' h' hdata hx _
    have ⟨m'', r'', hrun, _⟩ := destroySelf_spec h' hx
    simp only [changeRelation_child h' (hlock hdata) hx, hrun, Exec.ok_bind, Exec.pure_eq, if_true]
  have ⟨m₁, r₁, hrun₁, h₁, hdata₁⟩ :=
    each_destroys h hv (Nat.le_succ_of_le (Nat.le_of_add_right_le hfuel))
  have hcount : r₁.numChild = r.numChild := (congrArg Node.numChild hdata₁ :)
  have ⟨m₂, r₂, hrun₂, h₂, hmutex₂⟩ := delete_spec host 0 h₁ (hlock hdata₁)
    (Nat.le_trans (length_destroy h₁ h hcount) hfuel)
  have hle := hcount ▸ numChild_delete h₁ h₂
  rw [List.filter_true] at h₂
  refine ⟨m₂, r₂, ?_, applyAll_destroyAll f _ ▸ h₂, hle⟩
  rw [changeRelation_root h (hlock rfl)]
  simp only [hmutex, Bool.false_eq_true, if_false]
  refine (congrArg (· >>= _) hrun₁).trans ?_
  simp only [Exec.ok_bind, hrun₂, hnolock rfl]
  rfl

end
end Bcap
