import DensoRobot.Bcap.Theorems.Clients
import DensoRobot.Bcap.Theorems.RoundTrip

open HRESULT Links

namespace Bcap

-- The children of the node `own`, as they are visited from there.
def Visits (own : Nat) (m : Memory Node) (r : Node) (ps : List Nat) : Prop :=
  m.cell own = some r ∧ Chain Node.node2 m.cell r.node1 ps

-- What a server does with its connection tree, together with the changes that it stands for. Each
-- step comes with the results of its own calls.
inductive Step (host : Host) (own fuel : Nat) : Memory Node → List Change → Memory Node → Prop
  | add {m m' r hr} (calls : Calls) (sock : Nat) :
      m.cell own = some r → r.numChild < bcapClientMax →
      changeRelation host calls fuel own .addChild sock m = .ok (hr, m') → Succeeded hr →
      Step host own fuel m [.add m.next] m'
  | destroy {m m' r ps p hr} (calls : Calls) : Visits own m r ps → p ∈ ps →
      changeRelation host calls fuel p .destroySelf 0 m = .ok (hr, m') → Succeeded hr →
      Step host own fuel m [.destroy p] m'
  | delete {m m' hr} (calls : Calls) :
      changeRelation host calls fuel own .deleteChild 0 m = .ok (hr, m') →
      Succeeded hr → Step host own fuel m [.delete] m'
  | expire {m m' r ps n} (calls : Calls) (now : Nat → Nat) : Visits own m r ps →
      Succeeded (lockResult calls r) →
      checkLifelimit host calls now fuel own m = .ok (n, m') →
      Step host own fuel m (destroyAll (ps.filter (expired m now))) m'
  | close {m m' r ps hr} (calls : Calls) : Visits own m r ps → r.relationMutex = false →
      changeRelation host calls fuel own .destroySelf 0 m = .ok (hr, m') →
      Step host own fuel m (destroyAll ps) m'
  -- Other memory is allocated, and a thread changes something else in a node.
  | touch {m p n n' next} : m.cell p = some n → Touched n n' → m.next ≤ next →
      Step host own fuel m [] { m.set p (some n') with next }

-- A server that has just been opened.
structure Opened (own : Nat) (m : Memory Node) : Prop where
  root  : ∃ r, m.cell own = some r ∧ r.parent = none ∧ r.node1 = none ∧ r.node2 = none ∧
    r.numChild = 0
  fresh : own < m.next
  freed : m.freed = []

theorem Opened.tree {own : Nat} {m : Memory Node} (h : Opened own m) :
    ∃ r, Tree own m r .empty ∧ r.numChild ≤ bcapClientMax := by
  have ⟨r, hr, hparent, hnode1, hnode2, hcount⟩ := h.root
  refine ⟨r, ?_, hcount ▸ by decide⟩
  constructor
  case root => exact hr
  case orphan => exact hparent
  case children => exact ⟨none, hnode1 ▸ .nil⟩
  case dead => exact hnode2 ▸ .nil
  case count => exact hcount
  case parent => exact fun _ hx => absurd hx List.not_mem_nil
  case mutex => exact fun _ hx => absurd hx List.not_mem_nil
  case nodup => exact List.nodup_cons.mpr ⟨List.not_mem_nil, List.nodup_nil⟩
  case fresh => exact fun x hx => List.mem_singleton.mp hx ▸ h.fresh
  case freed => exact h.freed
  case gone => exact fun _ hx => absurd hx List.not_mem_nil

-- The nodes that were added and destroyed, the last one first.
def added (changes : List Change) : List Nat :=
  (changes.filterMap fun | .add p => some p | _ => none).reverse

def destroyed (changes : List Change) : List Nat :=
  (changes.filterMap fun | .destroy p => some p | _ => none).reverse

def isDelete : Change → Bool
  | .delete => true
  | _       => false

-- The changes up to the last deletion, and those after it.
def settled (changes : List Change) : List Change :=
  (changes.reverse.dropWhile fun c => !isDelete c).reverse

def pending (changes : List Change) : List Change :=
  (changes.reverse.takeWhile fun c => !isDelete c).reverse

-- What the lists of a family are, in terms of the changes that have led to it.
structure Ledger (f : Family) (changes : List Change) : Prop where
  children : f.children = (added changes).filter (fun p => p ∉ destroyed changes)
  dead     : f.dead = destroyed (pending changes)
  freed    : f.freed.Perm (destroyed (settled changes))

-- Nodes are added once, and destroyed while they are children.
inductive Valid : Family → List Change → Prop
  | nil {f} : Valid f []
  | add {f p changes} : p ∉ f.all → Valid (f.apply (.add p)) changes → Valid f (.add p :: changes)
  | destroy {f p changes} : p ∈ f.children → Valid (f.apply (.destroy p)) changes →
      Valid f (.destroy p :: changes)
  | delete {f changes} : Valid (f.apply .delete) changes → Valid f (.delete :: changes)

namespace Ledger

variable {f : Family} {changes : List Change} {p : Nat}

@[simp]
theorem added_append (cs ds : List Change) : added (cs ++ ds) = added ds ++ added cs := by
  rw [added, List.filterMap_append, List.reverse_append]
  rfl

@[simp]
theorem destroyed_append (cs ds : List Change) :
    destroyed (cs ++ ds) = destroyed ds ++ destroyed cs := by
  rw [destroyed, List.filterMap_append, List.reverse_append]
  rfl

theorem settled_append_pending (changes : List Change) :
    settled changes ++ pending changes = changes := by
  rw [settled, pending, ← List.reverse_append, List.takeWhile_append_dropWhile,
    List.reverse_reverse]

theorem settled_snoc (changes : List Change) {c : Change} (hc : isDelete c = false) :
    settled (changes ++ [c]) = settled changes := by
  simp [settled, hc]

theorem pending_snoc (changes : List Change) {c : Change} (hc : isDelete c = false) :
    pending (changes ++ [c]) = pending changes ++ [c] := by
  simp [pending, hc]

theorem settled_delete (changes : List Change) :
    settled (changes ++ [.delete]) = changes ++ [.delete] := by
  simp [settled, isDelete]

theorem pending_delete (changes : List Change) : pending (changes ++ [.delete]) = [] := by
  simp [pending, isDelete]

theorem gone (h : Ledger f changes) : (f.dead ++ f.freed).Perm (destroyed changes) := by
  have hs := congrArg destroyed (settled_append_pending changes)
  rw [destroyed_append] at hs
  rw [← hs, h.dead]
  exact h.freed.append_left _

theorem add (h : Ledger f changes) (hp : p ∉ f.all) :
    Ledger (f.apply (.add p)) (changes ++ [.add p]) := by
  have hn : p ∉ destroyed changes := by
    rw [← h.gone.mem_iff]
    grind [Family.all]
  constructor
  case children =>
    have ha : added [.add p] = [p] := rfl
    have hd : destroyed [.add p] = [] := rfl
    rw [added_append, destroyed_append, ha, hd, List.nil_append, List.singleton_append,
      List.filter_cons_of_pos (by simpa using hn), ← h.children]
    rfl
  case dead =>
    rw [pending_snoc _ rfl, destroyed_append, ← h.dead]
    rfl
  case freed =>
    rw [settled_snoc _ rfl]
    exact h.freed

theorem destroy (h : Ledger f changes) (hnd : f.children.Nodup) :
    Ledger (f.apply (.destroy p)) (changes ++ [.destroy p]) := by
  have ha : added [.destroy p] = [] := rfl
  have hd : destroyed [.destroy p] = [p] := rfl
  constructor
  case children =>
    have he : (f.apply (.destroy p)).children = f.children.erase p := rfl
    rw [added_append, destroyed_append, ha, hd, List.nil_append, he,
      hnd.erase_eq_filter, h.children, List.filter_filter]
    apply List.filter_congr
    intro x _
    by_cases hx : x = p
    case pos => simp [hx]
    case neg => simp [hx]
  case dead =>
    rw [pending_snoc _ rfl, destroyed_append, ← h.dead]
    rfl
  case freed =>
    rw [settled_snoc _ rfl]
    exact h.freed

theorem delete (h : Ledger f changes) : Ledger (f.apply .delete) (changes ++ [.delete]) := by
  have ha : added [.delete] = [] := rfl
  have hd : destroyed [.delete] = [] := rfl
  constructor
  case children =>
    rw [added_append, destroyed_append, ha, hd, List.nil_append, List.nil_append, ← h.children]
    rfl
  case dead =>
    rw [pending_delete]
    rfl
  case freed =>
    rw [settled_delete, destroyed_append, hd, List.nil_append]
    exact ((List.reverse_perm _).append_right _).trans h.gone

theorem nodup_children (h : f.all.Nodup) : f.children.Nodup :=
  (List.nodup_append.mp (List.nodup_append.mp h).1).1

-- The nodes of a family stay distinct.
theorem nodup_apply {c : Change} (hv : Valid f [c]) (hnd : f.all.Nodup) :
    (f.apply c).all.Nodup := by
  cases hv
  case add hp _ => grind [Family.apply, Family.all]
  case destroy hp _ => grind [Family.apply, Family.all]
  case delete => grind [Family.apply, Family.all]

theorem applyAll {ds : List Change} (hv : Valid f ds) (h : Ledger f changes) (hnd : f.all.Nodup) :
    Ledger (f.applyAll ds) (changes ++ ds) := by
  induction hv generalizing changes
  case nil => rwa [List.append_nil]
  case add p ds hp _ ih =>
    rw [List.append_cons]
    exact ih (h.add hp) (nodup_apply (.add hp .nil) hnd)
  case destroy p ds hp _ ih =>
    rw [List.append_cons]
    exact ih (h.destroy (nodup_children hnd)) (nodup_apply (.destroy hp .nil) hnd)
  case delete ds _ ih =>
    rw [List.append_cons]
    exact ih h.delete (nodup_apply (.delete .nil) hnd)

end Ledger

section

variable {host : Host} {own fuel : Nat} {m m' : Memory Node} {r : Node} {f : Family}
variable {changes : List Change}

theorem Tree.visits (h : Tree own m r f) {r' : Node} {ps : List Nat} (hv : Visits own m r' ps) :
    r' = r ∧ ps = f.children := by
  have ⟨l, hs⟩ := h.children
  cases h.root.symm.trans hv.1
  exact ⟨rfl, hv.2.unique hs.chain⟩

theorem Tree.length_le (h : Tree own m r f) (hmax : r.numChild ≤ bcapClientMax) :
    f.children.length + f.dead.length ≤ 20 := by
  have hcount := h.count
  rw [bcapClientMax] at hmax
  omega

theorem not_failed_of_root {calls : Calls} {mode : ChangeRelation} {sock : Nat} {hr : HRESULT}
    (h : Tree own m r f)
    (hrun : changeRelation host calls (fuel + 1) own mode sock m = .ok (hr, m'))
    (hok : Succeeded hr) :
    ¬Failed (lockResult calls r) := by
  intro hlock
  rw [changeRelation_locked h hlock] at hrun
  cases hrun
  exact hok.not_failed hlock

theorem not_failed_of_child {calls : Calls} {sock p : Nat} {hr : HRESULT} (h : Tree own m r f)
    (hp : p ∈ f.children)
    (hrun : changeRelation host calls (fuel + 1) p .destroySelf sock m = .ok (hr, m'))
    (hok : Succeeded hr) : ¬Failed (lockResult calls r) := by
  intro hlock
  have ⟨n, hn, _, hmutex⟩ := h.child (List.mem_append_left _ hp)
  rw [changeRelation, Memory.load_eq hn] at hrun
  rw [lockResult, ← hmutex] at hlock
  simp only [Exec.ok_bind, if_pos hlock] at hrun
  cases hrun
  exact hok.not_failed hlock

-- Distinct children can be destroyed one after the other.
theorem valid_destroyAll {ps : List Nat} (hsub : ps ⊆ f.children) (hps : ps.Nodup) :
    Valid f (destroyAll ps) := by
  induction ps generalizing f
  case nil => exact .delete .nil
  case cons p ps ih =>
    have ⟨hp, hps⟩ := List.nodup_cons.mp hps
    refine .destroy (hsub List.mem_cons_self) (ih (fun x hx => ?_) hps)
    have hne : x ≠ p := fun he => hp (he ▸ hx)
    exact (List.mem_erase_of_ne hne).mpr (hsub (List.mem_cons_of_mem p hx))

-- Every step is what its changes say.
theorem step_tree (hfuel : 22 ≤ fuel) (hstep : Step host own fuel m changes m') (h : Tree own m r f)
    (hmax : r.numChild ≤ bcapClientMax) :
    ∃ r', Tree own m' r' (f.applyAll changes) ∧ r'.numChild ≤ bcapClientMax ∧ Valid f changes := by
  have hlen := h.length_le hmax
  have hnd : f.children.Nodup := Ledger.nodup_children (List.nodup_cons.mp h.nodup).2
  rcases fuel with _ | fuel
  case zero => contradiction
  have hdead : f.children.length + f.dead.length ≤ fuel := by omega
  have hfuel₁ : f.children.length + f.dead.length < fuel + 1 := by omega
  have hfuel₂ : f.children.length + f.dead.length + 1 < fuel + 1 := by omega
  match hstep with
  | .add calls sock hr hless hrun hok =>
    cases h.root.symm.trans hr
    have ⟨r', h', hcount⟩ := add_spec h hrun hok
    have hnew : m.next ∉ f.all := fun hm =>
      Nat.lt_irrefl _ (h.fresh _ (List.mem_cons_of_mem own hm))
    refine ⟨r', h', ?_, .add hnew .nil⟩
    rw [hcount]
    exact Int.add_one_le_of_lt hless
  | .destroy calls hv hp hrun hok =>
    obtain ⟨rfl, rfl⟩ := h.visits hv
    have hlock := not_failed_of_child h hp hrun hok
    have ⟨m₁, r', hrun', h', hdata, _⟩ := destroy_spec host fuel 0 h hlock hp
    cases hrun'.symm.trans hrun
    have hcount : r'.numChild = _ := (congrArg Node.numChild hdata :)
    exact ⟨r', h', hcount ▸ hmax, .destroy hp .nil⟩
  | .delete calls hrun hok =>
    have hlock := not_failed_of_root h hrun hok
    have ⟨m₁, r', hrun', h', _⟩ :=
      delete_spec host 0 h hlock (Nat.le_trans (Nat.le_add_left ..) hdead)
    cases hrun'.symm.trans hrun
    exact ⟨r', h', Int.le_trans (numChild_delete h h') hmax, .delete .nil⟩
  | .expire calls now hv hlock hrun =>
    obtain ⟨rfl, rfl⟩ := h.visits hv
    have ⟨m₁, r', hrun', h', hle, _⟩ := checkLifelimit_spec host h hlock.not_failed now hfuel₁
    cases hrun'.symm.trans hrun
    exact ⟨r', h', Int.le_trans hle hmax,
      valid_destroyAll (List.filter_sublist ..).subset (hnd.filter _)⟩
  | .close calls hv hmutex hrun =>
    obtain ⟨rfl, rfl⟩ := h.visits hv
    have ⟨m₁, r', hrun', h', hle⟩ := close_spec host calls 0 h hmutex hfuel₂
    cases hrun'.symm.trans hrun
    exact ⟨r', h', Int.le_trans hle hmax, valid_destroyAll (List.Subset.refl _) hnd⟩
  | .touch hn ht hnext =>
    have ⟨r', h', ht'⟩ := h.touch hn ht hnext
    exact ⟨r', h', ht'.count ▸ hmax, .nil⟩

-- The changes of all steps of a run.
def changesOf (steps : List (Memory Node × List Change)) : List Change :=
  steps.flatMap (·.2)

theorem Ledger.empty : Ledger .empty [] where
  children := rfl
  dead     := rfl
  freed    := .refl _

theorem ledger_of_run {steps : List (Memory Node × List Change)} (hfuel : 22 ≤ fuel)
    (run : Run (Step host own fuel) m steps m') (h : Tree own m r f)
    (hmax : r.numChild ≤ bcapClientMax) (hl : Ledger f changes) :
    ∃ r' f', Tree own m' r' f' ∧ r'.numChild ≤ bcapClientMax ∧
      Ledger f' (changes ++ changesOf steps) := by
  induction run generalizing r f changes
  case nil =>
    refine ⟨r, f, h, hmax, ?_⟩
    rwa [changesOf, List.flatMap_nil, List.append_nil]
  case cons hstep _ ih =>
    have ⟨r', h', hmax', hv⟩ := step_tree hfuel hstep h hmax
    have hl' := hl.applyAll hv (List.nodup_cons.mp h.nodup).2
    have ⟨r'', f'', h'', hmax'', hl''⟩ := ih h' hmax' hl'
    refine ⟨r'', f'', h'', hmax'', ?_⟩
    rwa [changesOf, List.flatMap_cons, ← List.append_assoc]

-- The connection tree after any run: the children and the nodes that are to be deleted are linked
-- as they were added and destroyed, they are counted, and all other nodes have been freed once.
theorem tree_of_run (hfuel : 22 ≤ fuel) (hopen : Opened own m)
    {steps : List (Memory Node × List Change)} (run : Run (Step host own fuel) m steps m') :
    ∃ r f, Tree own m' r f ∧ r.numChild ≤ bcapClientMax ∧ Ledger f (changesOf steps) := by
  have ⟨r, h, hmax⟩ := hopen.tree
  exact ledger_of_run hfuel run h hmax .empty

end

section

variable {host : Host} {calls : Calls} {own sock fuel : Nat} {m m' : Memory Node} {r : Node}
variable {f : Family}

theorem Tree.visited (h : Tree own m r f) : Visits own m r f.children :=
  have ⟨_, hs⟩ := h.children
  ⟨h.root, hs.chain⟩

-- Without a mutex, a child that cannot be added leaves the nodes as they are.
theorem add_failed {hr : HRESULT} (h : Tree own m r f) (hmutex : r.relationMutex = false)
    (hrun : changeRelation host calls (fuel + 1) own .addChild sock m = .ok (hr, m'))
    (hfail : ¬Succeeded hr) : m' = { m with next := m.next + 1 } := by
  have hlock : ¬Failed (lockResult calls r) := by
    rw [lockResult, hmutex]
    exact not_failed_sOk
  rw [changeRelation_root h hlock] at hrun
  cases hm : host.malloc m.next
  case false =>
    simp only [addChild, Memory.load_eq h.root, Exec.ok_bind, Host.alloc_of_not_malloc hm] at hrun
    cases hrun
    rfl
  case true =>
    obtain ⟨m₁, r₁, hadd, _⟩ := addChild_linked host calls h hm sock
    have hrun := hadd.symm.trans hrun
    simp only [finishChild, hmutex, Bool.false_eq_true, if_false] at hrun
    cases hown : ownMemory host m.next r m₁
    case error => simp [hown] at hrun
    case ok =>
      simp only [hown, Exec.ok_bind] at hrun
      cases hrun
      exact absurd succeeded_sOk hfail

theorem add_run {hr : HRESULT} (h : Tree own m r f) (hmutex : r.relationMutex = false)
    (hless : r.numChild < bcapClientMax)
    (hrun : changeRelation host calls (fuel + 1) own .addChild sock m = .ok (hr, m')) :
    ∃ steps, Run (Step host own (fuel + 1)) m steps m' := by
  by_cases hok : Succeeded hr
  case pos => exact ⟨_, .cons (.add calls sock h.root hless hrun hok) .nil⟩
  case neg =>
    have hset : m' = { m.set own (some r) with next := m.next + 1 } := by
      rw [add_failed h hmutex hrun hok, Memory.set, ← h.root, Function.update_eq_self]
    rw [hset]
    exact ⟨_, .cons (.touch h.root (.refl r) (Nat.le_succ _)) .nil⟩

-- What the server does to find the child of a client.
theorem findChild_run {now : Nat → Nat} {res : Option Nat} (hfuel : 22 ≤ fuel) (h : Tree own m r f)
    (hmax : r.numChild ≤ bcapClientMax) (hmutex : r.relationMutex = false)
    (hrun : findChild host calls now fuel own m = .ok (res, m')) :
    ∃ steps, Run (Step host own fuel) m steps m' := by
  have hlen := h.length_le hmax
  have hlock : Succeeded (lockResult calls r) := by
    rw [lockResult, hmutex]
    exact succeeded_sOk
  rcases fuel with _ | fuel
  case zero => contradiction
  have hfuel₁ : f.children.length + f.dead.length < fuel + 1 := by omega
  have adds {m₁ r₁ f₁} (h₁ : Tree own m₁ r₁ f₁) (hmutex₁ : r₁.relationMutex = false)
      (hless : r₁.numChild < bcapClientMax)
      (hrun : (do
        let res₂ ← changeRelation host calls (fuel + 1) own .addChild r.sock m₁
        return ((← res₂.2.load own).node1, res₂.2)) = .ok (res, m')) :
      ∃ steps, Run (Step host own (fuel + 1)) m₁ steps m' := by
    cases hadd : changeRelation host calls (fuel + 1) own .addChild r.sock m₁
    case error => simp [hadd] at hrun
    case ok res₂ =>
      simp only [hadd, Exec.ok_bind] at hrun
      cases hload : res₂.2.load own
      case error => simp [hload] at hrun
      case ok n =>
        simp only [hload, Exec.ok_bind] at hrun
        cases hrun
        exact add_run h₁ hmutex₁ hless hadd
  simp only [findChild, Memory.load_eq h.root, Exec.ok_bind] at hrun
  cases hsearch : searchNode r.arg m (fuel + 1) r.node1
  case error => simp [hsearch] at hrun
  case ok found =>
    simp only [hsearch, Exec.ok_bind] at hrun
    cases found
    case some =>
      cases hrun
      exact ⟨[], .nil⟩
    case none =>
      by_cases hfull : bcapClientMax ≤ r.numChild
      case neg =>
        simp only [if_neg hfull, Exec.pure_eq, Exec.ok_bind] at hrun
        exact adds h hmutex (Int.lt_of_not_ge hfull) hrun
      case pos =>
        obtain ⟨m₁, r₁, hlimit, h₁, _, hmutex₁⟩ :=
          checkLifelimit_spec host h hlock.not_failed now hfuel₁
        have hstep : Step host own (fuel + 1) m _ m₁ := .expire calls now h.visited hlock hlimit
        simp only [if_pos hfull, hlimit, Exec.ok_bind] at hrun
        by_cases hfull₁ : bcapClientMax ≤ r₁.numChild
        case pos =>
          rw [if_pos hfull₁] at hrun
          cases hrun
          exact ⟨_, .cons hstep .nil⟩
        case neg =>
          rw [if_neg hfull₁] at hrun
          obtain ⟨steps, run⟩ := adds h₁ (hmutex₁.trans hmutex) (Int.lt_of_not_ge hfull₁) hrun
          exact ⟨_, .cons hstep run⟩

end

-- A UDP server.
def udpRoot : Node where
  type          := .udp
  sock          := 3
  timeout       := 3000
  arg           := some 7
  lastSendArgs  := none
  execTimeout   := 180000
  wdtInterval   := 4294967295
  lastModified  := 0
  relationMutex := false
  numChild      := 0
  parent        := none
  node1         := none
  node2         := none

def udpServer : Memory Node where
  cell p := if p = 0 then some udpRoot else none
  next   := 1
  freed  := []

def noFailure : Calls where
  lockMutex   := sOk
  setTimeout  := sOk
  createEvent := sOk
  now         := 0

theorem udpServer_opened : Opened 0 udpServer where
  root  := ⟨udpRoot, rfl, rfl, rfl, rfl, rfl⟩
  fresh := by decide
  freed := rfl

-- A client comes, and its child is destroyed and deleted.
theorem udpServer_run : ∃ steps m, Run (Step ampleHost 0 22) udpServer steps m ∧
    changesOf steps = [.add 1, .destroy 1, .delete] := by
  refine ⟨_, _, .cons (.add noFailure 3 rfl (by decide) rfl (by decide))
    (.cons (.destroy noFailure ⟨rfl, .cons rfl .nil⟩ List.mem_cons_self rfl (by decide))
      (.cons (.delete noFailure rfl (by decide)) .nil)), rfl⟩

theorem udpServer_tree : ∃ steps m r f, Run (Step ampleHost 0 22) udpServer steps m ∧
    Tree 0 m r f ∧ r.numChild ≤ bcapClientMax ∧ Ledger f [.add 1, .destroy 1, .delete] := by
  have ⟨steps, m, run, hchanges⟩ := udpServer_run
  have ⟨r, f, h, hmax, hl⟩ := tree_of_run (by decide) udpServer_opened run
  exact ⟨steps, m, r, f, run, h, hmax, hchanges ▸ hl⟩

end Bcap
