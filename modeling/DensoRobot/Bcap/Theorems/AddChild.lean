import DensoRobot.Bcap.Theorems.Connection

open HRESULT Links

namespace Bcap

-- The nodes that are found from the root node `own`, by one of its two links and then by `node2`.
inductive Reaches (m : Memory Node) (own : Nat) : Nat → Prop
  | child {r p}   : m.cell own = some r → r.node1 = some p → Reaches m own p
  | dead {r p}    : m.cell own = some r → r.node2 = some p → Reaches m own p
  | next {p n q}  : Reaches m own p → m.cell p = some n → n.node2 = some q → Reaches m own q

-- The tree below the node `own` is the one whose root was `r`.
structure Unchanged (own : Nat) (r : Node) (f : Family) (m : Memory Node) : Prop where
  lists : ∃ r', m.cell own = some r' ∧ r'.numChild = r.numChild ∧
    (∃ l, Seg Node.node2 Node.node1 m.cell none r'.node1 f.children l none) ∧
    Chain Node.node2 m.cell r'.node2 f.dead
  alive : ∀ p, Reaches m own p → p ∉ m.freed

-- A call of `ADD_CHILD` returns, and if it reports a failure, then nothing has changed.
def AddsSafely (host : Host) (calls : Calls) (fuel own sock : Nat) (m : Memory Node) (r : Node)
    (f : Family) : Prop :=
  ∃ hr m', changeRelation host calls (fuel + 1) own .addChild sock m = .ok (hr, m') ∧
    (Failed hr → Unchanged own r f m')

-- Nothing is linked before the last step that can fail.
def AddsLast (host : Host) (calls : Calls) (m : Memory Node) (r : Node) : Prop :=
  Failed (lockResult calls r) ∨ host.malloc m.next = false ∨
    if r.relationMutex then Succeeded calls.setTimeout ∧ Succeeded calls.createEvent
    else r.type = .udp → host.malloc (m.next + 1) = true

section

variable {host : Host} {calls : Calls} {m m' : Memory Node} {own p sock fuel : Nat} {r n : Node}
variable {f : Family} {hr : HRESULT}

theorem Tree.reaches (h : Tree own m r f) (hp : Reaches m own p) : p ∈ f.children ++ f.dead := by
  have ⟨l, hs⟩ := h.children
  induction hp
  case child r' p hr hp =>
    cases h.root.symm.trans hr
    have hhead := hs.chain.head_eq.symm.trans hp
    exact List.mem_append_left _ (List.mem_of_mem_head? hhead)
  case dead r' p hr hp =>
    cases h.root.symm.trans hr
    have hhead := h.dead.head_eq.symm.trans hp
    exact List.mem_append_right _ (List.mem_of_mem_head? hhead)
  case next p n q _ hn hq hp =>
    cases List.mem_append.mp hp
    case inl hp =>
      have ⟨as, bs, hch⟩ := List.append_of_mem hp
      rw [hch] at hs ⊢
      have ⟨n', hn', hrest⟩ := hs.chain.middle
      cases hn.symm.trans hn'
      have hmem := List.mem_of_mem_head? (hrest.head_eq.symm.trans hq)
      exact List.mem_append_left _ (List.mem_append_right _ (List.mem_cons_of_mem _ hmem))
    case inr hp =>
      have ⟨as, bs, hch⟩ := List.append_of_mem hp
      have hd := h.dead
      rw [hch] at hd ⊢
      have ⟨n', hn', hrest⟩ := hd.middle
      cases hn.symm.trans hn'
      have hmem := List.mem_of_mem_head? (hrest.head_eq.symm.trans hq)
      exact List.mem_append_right _ (List.mem_append_right _ (List.mem_cons_of_mem _ hmem))

theorem Tree.unchanged (h : Tree own m r f) : Unchanged own r f m where
  lists := ⟨r, h.root, rfl, h.children, h.dead⟩
  alive := by
    intro p hp hfreed
    rw [h.freed] at hfreed
    have ⟨_, hnd⟩ := List.nodup_cons.mp h.nodup
    exact (List.nodup_append.mp hnd).2.2 p (h.reaches hp) p hfreed rfl

-- Only the number of the next block of memory has changed.
theorem Tree.next (h : Tree own m r f) {next : Nat} (hnext : m.next ≤ next) :
    Tree own { m with next } r f where
  root     := h.root
  orphan   := h.orphan
  children := h.children
  dead     := h.dead
  count    := h.count
  parent   := h.parent
  mutex    := h.mutex
  nodup    := h.nodup
  fresh    := fun p hp => Nat.lt_of_lt_of_le (h.fresh p hp) hnext
  freed    := h.freed
  gone     := h.gone

theorem modify_ok (hp : ∃ n, m.cell p = some n) (next : Nat) (g : Node → Node) :
    ∃ m', Memory.modify { m with next } p g = .ok m' ∧ ∃ n, m'.cell p = some n :=
  have ⟨n, hn⟩ := hp
  have hn : Memory.cell { m with next } p = some n := hn
  ⟨_, Memory.modify_eq hn, _, Memory.cell_set_self ..⟩

-- Whether a child gets memory of its own.
theorem ownMemory_isOk (host : Host) (hp : ∃ n, m.cell p = some n) :
    (∃ m', ownMemory host p r m = .ok m') ↔ (r.type = .udp → host.malloc m.next = true) := by
  have last (m₁ : Memory Node) (hp₁ : ∃ n, m₁.cell p = some n) :
      ∃ m', ownArgument host p m₁ = .ok m' := by
    cases hm : host.malloc m₁.next
    case false =>
      simp only [ownArgument, Host.alloc_of_not_malloc hm]
      obtain ⟨m', hm', _⟩ := modify_ok hp₁ (m₁.next + 1) fun n => { n with lastSendArgs := none }
      exact ⟨m', hm'⟩
    case true =>
      simp only [ownArgument, Host.alloc_of_malloc hm]
      obtain ⟨m', hm', _⟩ := modify_ok hp₁ (m₁.next + 1) fun n =>
        { n with lastSendArgs := some (.init false .empty) }
      exact ⟨m', hm'⟩
  simp only [ownMemory]
  by_cases hu : r.type = .udp
  case pos =>
    simp only [hu, true_implies]
    cases hm : host.malloc m.next
    case false => simp [Host.alloc_of_not_malloc hm]
    case true =>
      obtain ⟨m₁, hm₁, hp₁⟩ := modify_ok hp (m.next + 1) fun q => { q with arg := r.arg }
      simp only [Host.alloc_of_malloc hm, hm₁, Exec.ok_bind, iff_true]
      exact last m₁ hp₁
  case neg =>
    simp only [Exec.pure_eq, Exec.ok_bind, hu, false_implies, iff_true]
    exact last m hp

-- A node that is freed while it is linked leaves the tree with one child too many.
theorem freed_not_unchanged (h : Tree own m r f) (hp : p ∈ f.children) {r₀ : Node} {f₀ : Family}
    (hcount : r.numChild ≠ r₀.numChild) (hrun : m.free p = .ok m') : ¬Unchanged own r₀ f₀ m' := by
  intro hu
  have ⟨n, hn, _⟩ := h.child (List.mem_append_left _ hp)
  have ⟨r', hr', hcount', _⟩ := hu.lists
  have hne : own ≠ p := by
    rintro rfl
    have ⟨hown, _⟩ := List.nodup_cons.mp h.nodup
    exact hown (List.mem_append_left _ (List.mem_append_left _ hp))
  cases (Memory.free_eq hn).symm.trans hrun
  cases ((Memory.cell_set_of_ne hne _).trans h.root).symm.trans hr'
  exact hcount hcount'

-- What becomes of a child once it is linked.
theorem finishChild_safe (h : Tree own m r f) (hp : p ∈ f.children) {r₀ : Node} {f₀ : Family}
    (hcount : r.numChild ≠ r₀.numChild) :
    (∃ hr m', finishChild host calls p r₀ m = .ok (hr, m') ∧ (Failed hr → Unchanged own r₀ f₀ m')) ↔
      if r₀.relationMutex then Succeeded calls.setTimeout ∧ Succeeded calls.createEvent
      else r₀.type = .udp → host.malloc m.next = true := by
  obtain ⟨n, hn, _⟩ := h.child (List.mem_append_left _ hp)
  have hfree : ¬Unchanged own r₀ f₀ _ := freed_not_unchanged h hp hcount (Memory.free_eq hn)
  simp only [finishChild, Memory.free_eq hn, Exec.ok_bind]
  cases r₀.relationMutex
  case true =>
    simp only [if_true]
    by_cases ht : Failed calls.setTimeout
    case pos => simp [ht, hfree, ht.not_succeeded]
    case neg =>
      have ht := not_failed_iff.mp ht
      by_cases he : Failed calls.createEvent
      case pos => simp [ht, ht.not_failed, he, hfree, he.not_succeeded]
      case neg =>
        have he := not_failed_iff.mp he
        simp [ht, ht.not_failed, he, he.not_failed]
  case false =>
    simp only [Bool.false_eq_true, if_false]
    rw [← ownMemory_isOk host ⟨n, hn⟩]
    constructor
    case mp =>
      rintro ⟨hr, m', hrun, _⟩
      cases hown : ownMemory host p r₀ m
      case error => simp [hown] at hrun
      case ok m₁ => exact ⟨m₁, rfl⟩
    case mpr =>
      rintro ⟨m₁, hrun⟩
      exact ⟨sOk, m₁, by rw [hrun]; rfl, fun hfail => absurd hfail not_failed_sOk⟩

theorem addsSafely_iff (h : Tree own m r f) (host : Host) (calls : Calls) (fuel sock : Nat) :
    AddsSafely host calls fuel own sock m r f ↔ AddsLast host calls m r := by
  by_cases hlock : Failed (lockResult calls r)
  case pos =>
    have hrun : changeRelation host calls (fuel + 1) own .addChild sock m =
        .ok (lockResult calls r, m) := changeRelation_locked h hlock .addChild
    exact iff_of_true ⟨_, _, hrun, fun _ => h.unchanged⟩ (.inl hlock)
  case neg =>
    rw [AddsSafely, changeRelation_root h hlock, AddsLast]
    cases hm : host.malloc m.next
    case false =>
      refine iff_of_true ⟨eOutOfMemory, { m with next := m.next + 1 }, ?_,
        fun _ => (h.next (Nat.le_succ _)).unchanged⟩ (.inr (.inl rfl))
      simp only [addChild, Memory.load_eq h.root, Exec.ok_bind, Host.alloc_of_not_malloc hm]
      rfl
    case true =>
      obtain ⟨m₁, r₁, hadd, h₁, hcount, hnext, _⟩ := addChild_linked host calls h hm sock
      have hne : r₁.numChild ≠ r.numChild := by
        rw [hcount]
        exact Int.ne_of_gt (Int.lt_succ _)
      simp only [hadd, hlock, Bool.true_eq_false, false_or]
      rw [← hnext]
      exact finishChild_safe h₁ List.mem_cons_self hne

end

-- A TCP server, and a connection whose time-out cannot be set.
def tcpRoot : Node :=
  { udpRoot with type := .tcp, arg := none, relationMutex := true }

def tcpServer : Memory Node where
  cell p := if p = 0 then some tcpRoot else none
  next   := 1
  freed  := []

def timeoutRefused : Calls :=
  { noFailure with setTimeout := eFail }

theorem tcpServer_tree : Tree 0 tcpServer tcpRoot .empty := by
  have hopen : Opened 0 tcpServer := ⟨⟨tcpRoot, rfl, rfl, rfl, rfl, rfl⟩, by decide, rfl⟩
  have ⟨r, h, _⟩ := hopen.tree
  cases h.root
  exact h

theorem tcpServer_addsSafely : AddsSafely ampleHost noFailure 0 0 5 tcpServer tcpRoot .empty :=
  (addsSafely_iff tcpServer_tree ampleHost noFailure 0 5).mpr (.inr (.inr (by decide)))

-- The node that was freed is still the youngest child.
theorem tcpServer_keeps_freed : Tree 0 tcpServer tcpRoot .empty ∧
    ∃ m', changeRelation ampleHost timeoutRefused 1 0 .addChild 5 tcpServer = .ok (eFail, m') ∧
      Failed eFail ∧ Reaches m' 0 1 ∧ 1 ∈ m'.freed ∧ ¬Unchanged 0 tcpRoot .empty m' := by
  have hreach {m' : Memory Node} (hrun : changeRelation ampleHost timeoutRefused 1 0 .addChild 5
      tcpServer = .ok (eFail, m')) : Reaches m' 0 1 ∧ 1 ∈ m'.freed := by
    cases hrun
    exact ⟨.child rfl rfl, List.mem_cons_self⟩
  refine ⟨tcpServer_tree, _, rfl, by decide, (hreach rfl).1, (hreach rfl).2, fun hu => ?_⟩
  exact hu.alive 1 (hreach rfl).1 (hreach rfl).2

end Bcap
