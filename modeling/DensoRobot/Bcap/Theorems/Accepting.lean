import DensoRobot.Bcap.Accepting
import DensoRobot.Bcap.Theorems.AddChild

open HRESULT Links

namespace Bcap

section

variable {m m' : Memory Node} {own p x : Nat} {node : Option Nat} {r n : Node} {f : Family}
variable {host : Host} {calls : Calls} {sock : Nat}

-- The tree below the node `own`, if the list of the nodes that are to be deleted began at `node`.
structure Rooted (own : Nat) (m : Memory Node) (node : Option Nat) (r : Node)
    (f : Family) : Prop where
  root : m.cell own = some r
  tree : Tree own (m.set own (some { r with node2 := node })) { r with node2 := node } f

theorem set_self (h : m.cell p = some n) : m.set p (some n) = m := by
  rw [Memory.set, ← h, Function.update_eq_self]

theorem set_comm (hne : p ≠ x) (o o' : Option Node) :
    (m.set p o).set x o' = (m.set x o').set p o := by
  simp only [Memory.set, Function.update_comm hne]

theorem set_set (o o' : Option Node) : (m.set p o).set p o' = m.set p o' := by
  simp only [Memory.set, Function.update_idem]

theorem Tree.rooted (h : Tree own m r f) : Rooted own m r.node2 r f where
  root := h.root
  tree := by rwa [set_self h.root]

theorem Rooted.done (h : Rooted own m r.node2 r f) : Tree own m r f := by
  have ht := h.tree
  rwa [set_self h.root] at ht

-- A child is not the root.
theorem Rooted.child (h : Rooted own m node r f) (hp : p ∈ f.children ++ f.dead) :
    p ≠ own ∧ ∃ n, m.cell p = some n ∧ n.parent = some own ∧ n.relationMutex = r.relationMutex := by
  have hne : p ≠ own := by
    have hnd := h.tree.nodup
    rw [Family.all] at hnd
    rintro rfl
    grind
  obtain ⟨n, hn, hparent, hmutex⟩ := h.tree.child hp
  rw [Memory.cell_set_of_ne hne] at hn
  exact ⟨hne, n, hn, hparent, hmutex⟩

-- A thread changes something else than links in a child.
theorem Rooted.touch {n' : Node} (h : Rooted own m node r f) (hp : p ∈ f.children)
    (hn : m.cell p = some n) (ht : Touched n n') {next : Nat} (hnext : m.next ≤ next) :
    Rooted own { m.set p (some n') with next } node r f := by
  have hne : p ≠ own := (h.child (List.mem_append_left _ hp)).1
  have hn' : (m.set own (some { r with node2 := node })).cell p = some n :=
    (Memory.cell_set_of_ne hne _).trans hn
  obtain ⟨r', h', hr⟩ := h.tree.touch hn' ht hnext
  rw [set_comm hne.symm] at h'
  have hroot : r' = { r with node2 := node } :=
    Option.some.inj (h'.root.symm.trans (Memory.cell_set_self ..))
  subst hroot
  exact ⟨(Memory.cell_set_of_ne hne.symm _).trans h.root, h'⟩

-- The first node that is to be deleted is freed.
theorem Rooted.free (h : Rooted own m (some x) r f) :
    ∃ xs n m', f.dead = x :: xs ∧ m.cell x = some n ∧
      (do
        let m ← m.free x
        m.modify own fun n => { n with numChild := n.numChild - 1 }) = .ok m' ∧
      Rooted own m' n.node2 { r with numChild := r.numChild - 1 }
        { f with dead := xs, freed := x :: f.freed } := by
  have t := h.tree
  have hnd := t.nodup
  have hchain := t.dead
  have hfresh := t.fresh
  have hcount := t.count
  have hparent := t.parent
  have hmutex := t.mutex
  generalize hd : f.dead = dead at hchain
  simp only [Family.all, hd] at hnd hfresh hcount hparent hmutex
  cases hchain
  case cons n xs hxs hx =>
    have hne : x ≠ own := by grind
    have hn : m.cell x = some n := (Memory.cell_set_of_ne hne _).symm.trans hx
    let m₁ : Memory Node := { m.set x none with freed := x :: m.freed }
    let r₁ : Node := { r with numChild := r.numChild - 1 }
    let r₂ : Node := { r₁ with node2 := n.node2 }
    have hr₁ : m₁.cell own = some r := (Memory.cell_set_of_ne hne.symm _).trans h.root
    have hview : (m₁.set own (some r₁)).set own (some r₂) = m₁.set own (some r₂) := set_set ..
    have hframe : ∀ y, y ≠ own → y ≠ x →
        (m₁.set own (some r₂)).cell y = (m.set own (some { r with node2 := some x })).cell y := by
      intro y hyo hyx
      rw [Memory.cell_set_of_ne hyo, Memory.cell_set_of_ne hyo]
      exact Memory.cell_set_of_ne hyx _
    refine ⟨xs, n, m₁.set own (some r₁), rfl, hn, ?_, ⟨Memory.cell_set_self .., ?_⟩⟩
    · rw [Memory.free_eq hn, Exec.ok_bind]
      exact Memory.modify_eq hr₁
    rw [hview]
    constructor
    case root => exact Memory.cell_set_self ..
    case orphan => exact t.orphan
    case children =>
      obtain ⟨l, hs⟩ := t.children
      exact ⟨l, hs.frame fun y hy => hframe y (by grind) (by grind)⟩
    case dead =>
      have hrest : Chain Node.node2 (m₁.set own (some r₂)).cell n.node2 xs :=
        hxs.congr fun y hy => by rw [hframe y (by grind) (by grind)]
      exact hrest
    case count =>
      simp only [List.length_cons] at hcount ⊢
      omega
    case parent =>
      exact fun y hy => by rw [hframe y (by grind) (by grind)]; exact hparent y (by grind)
    case mutex =>
      exact fun y hy => by rw [hframe y (by grind) (by grind)]; exact hmutex y (by grind)
    case nodup => grind [Family.all]
    case fresh => exact fun y hy => hfresh y (by grind [Family.all])
    case freed => exact congrArg (x :: ·) t.freed
    case gone =>
      intro y hy
      have hyo : y ≠ own := by grind
      by_cases hyx : y = x
      case pos =>
        rw [Memory.cell_set_of_ne hyo, hyx]
        exact Memory.cell_set_self ..
      case neg =>
        rw [hframe y hyo hyx]
        exact t.gone y (by grind)

-- No node is left that is to be deleted.
theorem Rooted.unlock (h : Rooted own m none r f) : f.dead = [] ∧
    ∃ m' r', m.modify own (fun n => { n with node2 := none }) = .ok m' ∧ Tree own m' r' f ∧
      r'.data = r.data := by
  have hchain := h.tree.dead
  generalize f.dead = dead at hchain ⊢
  cases hchain
  case nil => exact ⟨rfl, _, _, Memory.modify_eq h.root, h.tree, rfl⟩

theorem modify_mutex {g : Node → Node} (hrun : m.modify p g = .ok m')
    (hg : ∀ n, (g n).relationMutex = n.relationMutex) (x : Nat) :
    (m'.cell x).map Node.relationMutex = (m.cell x).map Node.relationMutex := by
  cases hn : m.cell p
  case none => simp [Memory.modify, Memory.load, hn] at hrun
  case some n =>
    cases (Memory.modify_eq hn).symm.trans hrun
    exact Memory.map_cell_set hn (hg n) x

-- `ADD_CHILD` leaves the mutex of the root as it is.
theorem addChild_mutex {hr : HRESULT} (h : Tree own m r f) (hmutex : r.relationMutex = true)
    (hm : host.malloc m.next = true) (ht : Succeeded calls.setTimeout)
    (he : Succeeded calls.createEvent) (hrun : addChild host calls own sock m = .ok (hr, m')) :
    (m'.cell own).map Node.relationMutex = some true := by
  have hne : own ≠ m.next := (h.fresh own List.mem_cons_self).ne
  simp only [addChild, Memory.load_eq h.root, Exec.ok_bind, Host.alloc_of_malloc hm,
    hmutex, if_true, if_neg ht.not_failed, if_neg he.not_failed] at hrun
  obtain ⟨m₁, h₁, hrun⟩ := ok_of_bind hrun
  obtain ⟨root, -, hrun⟩ := ok_of_bind hrun
  obtain ⟨m₂, h₂, hrun⟩ := ok_of_bind hrun
  obtain ⟨m₃, h₃, hrun⟩ := ok_of_bind hrun
  obtain ⟨m₄, h₄, hrun⟩ := ok_of_bind hrun
  cases hrun
  have h₄ : (m'.cell own).map Node.relationMutex = (m₃.cell own).map Node.relationMutex := by
    cases htmp : root.node1
    case none => rw [htmp] at h₄; cases h₄; rfl
    case some t => rw [htmp] at h₄; exact modify_mutex h₄ (fun _ => rfl) own
  rw [h₄, modify_mutex h₃ fun _ => rfl, modify_mutex h₂ fun _ => rfl,
    modify_mutex h₁ fun _ => rfl, Memory.cell_set_of_ne hne, h.root, Option.map_some, hmutex]

-- A child is added, or nothing has changed but that memory was asked for.
theorem Tree.adds (host : Host) (sock : Nat) (h : Tree own m r f) (hmutex : r.relationMutex = true)
    (ht : Succeeded calls.setTimeout) (he : Succeeded calls.createEvent) :
    ∃ hr m' r', changeRelation host calls 1 own .addChild sock m = .ok (hr, m') ∧
      r'.relationMutex = true ∧
      Tree own m' r' (if Succeeded hr then f.apply (.add m.next) else f) := by
  by_cases hlock : Failed (lockResult calls r)
  case pos =>
    refine ⟨_, m, r, changeRelation_locked h hlock .addChild, hmutex, ?_⟩
    rwa [if_neg hlock.not_succeeded]
  case neg =>
    cases hm : host.malloc m.next
    case false =>
      refine ⟨eOutOfMemory, { m with next := m.next + 1 }, r, ?_, hmutex, ?_⟩
      · rw [changeRelation_root h hlock]
        simp only [addChild, Memory.load_eq h.root, Exec.ok_bind, Host.alloc_of_not_malloc hm]
        rfl
      · rw [if_neg (by decide)]
        exact h.next (Nat.le_succ _)
    case true =>
      obtain ⟨m₁, r₁, hadd, h₁, hcount, _, _⟩ := addChild_linked host calls h hm sock
      have hrun : addChild host calls own sock m = .ok (calls.createEvent, m₁) := by
        simp only [hadd, finishChild, hmutex, if_true, if_neg ht.not_failed, if_neg he.not_failed]
        rfl
      have hmutex₁ := addChild_mutex h hmutex hm ht he hrun
      rw [h₁.root, Option.map_some, Option.some.injEq] at hmutex₁
      refine ⟨calls.createEvent, m₁, r₁, ?_, hmutex₁, ?_⟩
      · rw [changeRelation_root h hlock]
        exact hrun
      · rwa [if_pos he]

end

namespace Accepting

-- Where the list of the nodes that are to be deleted begins.
def Accept.node (r : Node) : Accept → Option Nat
  | .frees _ node => node
  | _             => r.node2

-- Whether the thread has found that there are no children.
def Accept.last : Accept → Bool
  | .deletes last | .frees last _ => last
  | .ended                        => true
  | _                             => false

-- Whether the thread has found that there is room for another child.
def Accept.room : Accept → Bool
  | .accepts | .adds _ => true
  | _                  => false

-- The child whose thread is waited for when the server is closed.
def Accept.child : Accept → Option Nat
  | .tells child | .joins child => some child
  | _                           => none

-- How many steps the thread takes at most until it has ended.
def Accept.rank (children : List Nat) : Accept → Nat
  | .ended         => 0
  | .frees true _  => 1
  | .deletes true  => 2
  | .looks         => 3 * children.length + 3
  | .tells child   => 3 * (children.erase child).length + 5
  | .joins child   => 3 * (children.erase child).length + 4
  | .waits         => 3 * children.length + 4
  | .frees false _ => 3 * children.length + 5
  | .deletes false => 3 * children.length + 6
  | .adds _        => 3 * children.length + 14
  | .accepts       => 3 * children.length + 15

-- How many steps the threads take at most until the server is closed.
def effort (h : Accepting) (f : Family) : Nat :=
  2 * (f.children.length + f.children.countP (h.client · = .runs)) + f.dead.length +
    h.accept.rank f.children

-- What the place of the accepting thread tells about the nodes.
structure Placed (h : Accepting) (f : Family) : Prop where
  room  : h.accept.room → f.children.length + f.dead.length < 20
  child : ∀ c, h.accept.child = some c → c ∈ f.children ++ f.dead ∧ c ∉ h.drained
  told  : ∀ c, h.accept = .joins c → c ∈ h.told
  last  : h.accept.last → f.children = []
  ended : h.accept = .ended → f.dead = []

-- The nodes are those of the clients' threads.
structure Sound (own : Nat) (h : Accepting) (f : Family) : Prop extends Placed h f where
  tree    : ∃ r, Rooted own h.memory (h.accept.node r) r f ∧ r.relationMutex = true
  live    : ∀ p, p ∈ f.children ↔ (h.client p).lives
  stopped : ∀ p, p ∈ f.dead ++ f.freed ↔ h.client p = .ended
  bound   : f.children.length + f.dead.length ≤ 20
  joined  : h.joined = f.freed
  drained : h.drained.Nodup ∧ h.drained ⊆ f.dead

-- A step of a thread that goes on. The others are those of the clients at work and the closing.
def Act.proceeds : Act → Bool
  | .close | .work .. => false
  | _                 => true

-- `change_relation` succeeds but for a lack of memory, and threads begin.
def Act.Succeeds : Act → Prop
  | .add calls begun => Succeeded calls.setTimeout ∧ Succeeded calls.createEvent ∧ begun
  | .destroy _ calls => Succeeded calls.lockMutex
  | _                => True

section

variable {host : Host} {own p : Nat} {h h' : Accepting} {f : Family} {a : Act} {e : Exec Accepting}

attribute [local grind =] Accept.node Accept.last Accept.room Accept.child Accept.locks

theorem node_eq {b : Accept} (hb : b.locks = false) (r : Node) : b.node r = r.node2 := by
  cases b
  case frees => cases hb
  all_goals rfl

-- The tree while the mutex is not locked.
theorem Sound.unlocked (s : Sound own h f) (hl : h.accept.locks = false) :
    ∃ r, Tree own h.memory r f ∧ r.relationMutex = true := by
  obtain ⟨r, hr, hm⟩ := s.tree
  rw [node_eq hl] at hr
  exact ⟨r, hr.done, hm⟩

theorem Sound.freed (s : Sound own h f) : h.memory.freed = f.freed := by
  obtain ⟨r, hr, -⟩ := s.tree
  exact hr.tree.freed

theorem Sound.nodup (s : Sound own h f) : (own :: f.all).Nodup := by
  obtain ⟨r, hr, -⟩ := s.tree
  exact hr.tree.nodup

-- The thread does not wait for a child.
theorem Placed.alone (hchild : h.accept.child = none)
    (hroom : h.accept.room → f.children.length + f.dead.length < 20)
    (hlast : h.accept.last → f.children = []) (hended : h.accept = .ended → f.dead = []) :
    Placed h f where
  room  := hroom
  child := fun c hc => absurd (hchild.symm.trans hc) (Option.some_ne_none c).symm
  told  := fun c hc => by
    rw [hc] at hchild
    exact absurd hchild (Option.some_ne_none c)
  last  := hlast
  ended := hended

-- The thread has not found that there are no children.
theorem Placed.listens (hchild : h.accept.child = none) (hlast : h.accept.last = false)
    (hroom : h.accept.room → f.children.length + f.dead.length < 20) : Placed h f := by
  refine .alone hchild hroom (fun h => absurd (hlast.symm.trans h) Bool.false_ne_true) ?_
  intro he
  rw [he] at hlast
  exact absurd hlast.symm Bool.false_ne_true

theorem Placed.plain (hchild : h.accept.child = none) (hlast : h.accept.last = false)
    (hroom : h.accept.room = false) : Placed h f :=
  .listens hchild hlast fun h => absurd (hroom.symm.trans h) Bool.false_ne_true

-- The thread deletes nodes, or has ended.
theorem Placed.deletes (hchild : h.accept.child = none) (hroom : h.accept.room = false)
    (hlast : h.accept.last → f.children = []) (hended : h.accept = .ended → f.dead = []) :
    Placed h f :=
  .alone hchild (fun h => absurd (hroom.symm.trans h) Bool.false_ne_true) hlast hended

-- The thread has found a child, or waits for it after having told it to end.
theorem Placed.tells {c : Nat} (ha : h.accept = .tells c ∨ h.accept = .joins c ∧ c ∈ h.told)
    (hc : c ∈ f.children ++ f.dead ∧ c ∉ h.drained) : Placed h f where
  room  := by
    obtain ha | ⟨ha, -⟩ := ha <;> rw [ha] <;> exact fun h => absurd h Bool.false_ne_true
  child := by
    intro x hx
    obtain ha | ⟨ha, -⟩ := ha
    all_goals
      rw [ha] at hx
      cases hx
      exact hc
  told  := by
    intro x hx
    obtain ha | ⟨ha, ht⟩ := ha
    all_goals
      rw [ha] at hx
      cases hx
    exact ht
  last  := by
    obtain ha | ⟨ha, -⟩ := ha <;> rw [ha] <;> exact fun h => absurd h Bool.false_ne_true
  ended := by
    intro he
    obtain ha | ⟨ha, -⟩ := ha
    all_goals
      rw [ha] at he
      cases he

-- The accepting thread goes on, or a client is at work.
theorem Sound.moves (s : Sound own h f) (hc : h'.client = h.client) (hj : h'.joined = h.joined)
    (htree : ∃ r, Rooted own h'.memory (h'.accept.node r) r f ∧ r.relationMutex = true)
    (hp : Placed h' f) (hdrained : h'.drained.Nodup ∧ h'.drained ⊆ f.dead) :
    Sound own h' f where
  toPlaced := hp
  tree     := htree
  live     := hc ▸ s.live
  stopped  := hc ▸ s.stopped
  bound    := s.bound
  joined   := hj.trans s.joined
  drained  := hdrained

-- The accepting thread goes on, while the mutex is not locked.
theorem Sound.goes (s : Sound own h f) {b : Accept} (hl : h.accept.locks = false)
    (hb : b.locks = false) (hp : Placed { h with accept := b } f) :
    Sound own { h with accept := b } f := by
  obtain ⟨r, ht, hm⟩ := s.unlocked hl
  exact s.moves rfl rfl ⟨r, (node_eq hb r).symm ▸ ht.rooted, hm⟩ hp s.drained

theorem Sound.poll (s : Sound own h f) (ha : h.accept = .waits) :
    ∃ h', h.poll own = .ok h' ∧ Sound own h' f ∧ (h.term → effort h' f < effort h f) := by
  have hl : h.accept.locks = false := by rw [ha]; rfl
  obtain ⟨r, ht, -⟩ := s.unlocked hl
  have hcount := ht.count
  rw [Accepting.poll]
  by_cases hterm : h.term = true
  case pos =>
    rw [if_pos hterm]
    refine ⟨_, rfl, s.goes hl rfl (.plain rfl rfl rfl), fun _ => ?_⟩
    simp [effort, ha, Accept.rank]
  case neg =>
    rw [if_neg hterm, Memory.load_eq ht.root, Exec.ok_bind]
    refine ⟨_, rfl, ?_, fun h => absurd h hterm⟩
    by_cases hroom : r.numChild < bcapClientMax
    case pos =>
      have hlt : f.children.length + f.dead.length < 20 := by
        rw [bcapClientMax] at hroom
        omega
      rw [if_pos hroom]
      exact s.goes hl rfl (.listens rfl rfl fun _ => hlt)
    case neg =>
      rw [if_neg hroom]
      exact s.goes hl rfl (.plain rfl rfl rfl)

-- How many of the children are at work.
def working (client : Nat → Client) (children : List Nat) : Nat :=
  children.countP (client · = .runs)

theorem working_update (client : Nat → Client) {children : List Nat} (hp : p ∉ children)
    (c : Client) :
    working (Function.update client p c) children = working client children := by
  refine List.countP_congr fun x hx => ?_
  have hne : x ≠ p := fun he => hp (he ▸ hx)
  rw [Function.update_of_ne hne]

-- The thread of a child leaves its loop, or has left it before.
theorem working_middle (client : Nat → Client) {as bs : List Nat} (hnd : (as ++ p :: bs).Nodup)
    {c : Client} (hc : c ≠ .runs) :
    working (Function.update client p c) (as ++ p :: bs) = working client (as ++ bs) := by
  have hp : p ∉ as ++ bs := by grind
  have hsame := working_update client hp c
  simp only [working, List.countP_append, List.countP_cons, Function.update_self, hc, decide_false,
    Bool.false_eq_true, if_false, Nat.add_zero] at hsame ⊢
  exact hsame

-- The thread of a new child begins.
theorem Sound.added {m : Memory Node} {r : Node} (s : Sound own h f) {sock : Nat}
    (ha : h.accept = .adds sock) (ht : Tree own m r (f.apply (.add p)))
    (hm : r.relationMutex = true) :
    Sound own
      { h with memory := m, client := Function.update h.client p .runs, accept := .deletes false }
      (f.apply (.add p)) := by
  have hnd := ht.nodup
  have hroom := s.room (by rw [ha]; rfl)
  have hlive := s.live
  have hover := s.stopped
  simp only [Family.apply, Family.all] at hnd
  constructor
  case tree    => exact ⟨r, ht.rooted, hm⟩
  case live    =>
    intro x
    by_cases hx : x = p
    case pos => simp [hx, Family.apply]
    case neg => simp [hx, Family.apply, hlive x]
  case stopped =>
    intro x
    simp only [Family.apply]
    by_cases hx : x = p
    case pos =>
      have hp : p ∉ f.dead ++ f.freed := by grind
      simpa [hx] using hp
    case neg =>
      rw [Function.update_of_ne hx]
      exact hover x
  case bound   => simp only [Family.apply, List.length_cons]; omega
  case toPlaced => exact .plain rfl rfl rfl
  case joined   => exact s.joined
  case drained  => exact s.drained

theorem Sound.add {calls : Calls} {sock : Nat} (s : Sound own h f) (ha : h.accept = .adds sock)
    (ht : Succeeded calls.setTimeout) (he : Succeeded calls.createEvent) :
    ∃ h' f', h.add host own calls true sock = .ok h' ∧ Sound own h' f' ∧
      effort h' f' < effort h f := by
  obtain ⟨r, htree, hm⟩ := s.unlocked (by rw [ha]; rfl)
  obtain ⟨hr, m', r', hrun, hm', htree'⟩ := htree.adds host sock hm ht he
  simp only [Accepting.add, hrun, Exec.ok_bind, and_true]
  by_cases hok : Succeeded hr
  case pos =>
    rw [if_pos hok] at htree'
    simp only [if_pos hok]
    refine ⟨_, _, rfl, s.added ha htree' hm', ?_⟩
    have hnew : h.memory.next ∉ f.children := by
      have hnd := htree'.nodup
      simp only [Family.apply, Family.all] at hnd
      grind
    have hworking := working_update h.client hnew .runs
    simp only [working] at hworking
    simp [effort, Family.apply, ha, Accept.rank, hworking]
    omega
  case neg =>
    rw [if_neg hok] at htree'
    simp only [if_neg hok]
    refine ⟨_, f, rfl, s.moves rfl rfl ⟨r', htree'.rooted, hm'⟩ (.plain rfl rfl rfl) s.drained, ?_⟩
    simp [effort, ha, Accept.rank]

theorem Sound.delete {last : Bool} (s : Sound own h f) (ha : h.accept = .deletes last) :
    ∃ h', h.delete own last = .ok h' ∧ Sound own h' f ∧ effort h' f < effort h f := by
  obtain ⟨r, ht, hm⟩ := s.unlocked (by rw [ha]; rfl)
  have hlast : last → f.children = [] := fun hl => s.last (by rw [ha]; exact hl)
  rw [Accepting.delete, Memory.load_eq ht.root, Exec.ok_bind]
  refine ⟨_, rfl, s.moves rfl rfl ⟨r, ht.rooted, hm⟩ (.deletes rfl rfl hlast Accept.noConfusion)
    s.drained, ?_⟩
  cases last <;> simp [effort, ha, Accept.rank]

-- The thread of a node that is to be deleted has ended, and the node is freed.
theorem Sound.free {last : Bool} {node : Nat} (s : Sound own h f)
    (ha : h.accept = .frees last (some node)) (hjoined : node ∉ h.drained) :
    ∃ h' f', h.free own last node = .ok h' ∧ Sound own h' f' ∧ effort h' f' < effort h f := by
  obtain ⟨r, hr, hm⟩ := s.tree
  rw [ha] at hr
  obtain ⟨xs, n, m', hd, hn, hrun, hr'⟩ := hr.free
  obtain ⟨m₁, hfree, hrun⟩ := ok_of_bind hrun
  simp only [Accepting.free, if_neg hjoined, Memory.load_eq hn, hfree, hrun, Exec.ok_bind]
  refine ⟨_, { f with dead := xs, freed := node :: f.freed }, rfl, ?_, ?_⟩
  case refine_1 =>
    have hbound := s.bound
    have hover := s.stopped
    have hdrained := s.drained
    constructor
    case tree    => exact ⟨_, hr', hm⟩
    case live    => exact s.live
    case stopped => exact fun x => (hover x).symm.trans (by grind) |>.symm
    case bound   => simp only [hd, List.length_cons] at hbound; simp only; omega
    case toPlaced =>
      exact .deletes rfl rfl (fun hl => s.last (by rw [ha]; exact hl)) Accept.noConfusion
    case joined  => exact congrArg (node :: ·) s.joined
    case drained => exact ⟨hdrained.1, fun x hx => by have := hdrained.2 hx; grind⟩
  case refine_2 =>
    cases last <;> simp [effort, ha, Accept.rank, hd]

theorem Sound.unlock {last : Bool} (s : Sound own h f) (ha : h.accept = .frees last none) :
    ∃ h', h.unlock own last = .ok h' ∧ Sound own h' f ∧ effort h' f < effort h f := by
  obtain ⟨r, hr, hm⟩ := s.tree
  rw [ha] at hr
  obtain ⟨hd, m', r', hrun, ht, hdata⟩ := hr.unlock
  have hm' : r'.relationMutex = true := (congrArg Node.relationMutex hdata :).trans hm
  have hlast : last → f.children = [] := fun hl => s.last (by rw [ha]; exact hl)
  rw [Accepting.unlock, hrun, Exec.ok_bind]
  refine ⟨_, rfl, ?_, by cases last <;> simp [effort, ha, Accept.rank]⟩
  cases last
  case false => exact s.moves rfl rfl ⟨r', ht.rooted, hm'⟩ (.plain rfl rfl rfl) s.drained
  case true  =>
    exact s.moves rfl rfl ⟨r', ht.rooted, hm'⟩ (.deletes rfl rfl (fun _ => hlast rfl) fun _ => hd)
      s.drained

theorem Sound.look (s : Sound own h f) (ha : h.accept = .looks) :
    ∃ h', h.look own = .ok h' ∧ Sound own h' f ∧ effort h' f < effort h f := by
  have hl : h.accept.locks = false := by rw [ha]; rfl
  obtain ⟨r, ht, hm⟩ := s.unlocked hl
  obtain ⟨l, hs⟩ := ht.children
  have hhead := hs.chain.head_eq
  rw [Accepting.look, Memory.load_eq ht.root, Exec.ok_bind]
  cases hc : f.children
  case nil =>
    rw [hc] at hhead
    rw [hhead]
    refine ⟨_, rfl, s.goes hl rfl (.deletes rfl rfl (fun _ => hc) Accept.noConfusion), ?_⟩
    simp [effort, ha, Accept.rank, hc]
  case cons c cs =>
    rw [hc] at hhead
    rw [hhead]
    have hnd := s.nodup
    have hdrained := s.drained.2
    have hchild : c ∈ f.children ++ f.dead ∧ c ∉ h.drained := by
      simp only [Family.all] at hnd
      grind
    refine ⟨{ h with accept := .tells c }, rfl, s.goes hl rfl (.tells (.inl rfl) hchild), ?_⟩
    simp only [effort, ha, Accept.rank, hc, List.length_cons, List.erase_cons_head]
    omega

-- A node that the accepting thread has found is still there.
theorem Sound.loads {c : Nat} (s : Sound own h f) (hc : h.accept.child = some c) :
    ∃ n, h.memory.load c = .ok n := by
  obtain ⟨r, ht, -⟩ := s.tree
  obtain ⟨-, n, hn, -⟩ := ht.child (s.child c hc).1
  exact ⟨n, Memory.load_eq hn⟩

theorem Sound.tell {c : Nat} (s : Sound own h f) (ha : h.accept = .tells c) :
    ∃ h', h.tell c = .ok h' ∧ Sound own h' f ∧ effort h' f < effort h f := by
  have hc : h.accept.child = some c := by rw [ha]; rfl
  obtain ⟨n, hn⟩ := s.loads hc
  obtain ⟨r, ht, hm⟩ := s.unlocked (by rw [ha]; rfl)
  rw [Accepting.tell, hn, Exec.ok_bind]
  refine ⟨_, rfl, s.moves rfl rfl ⟨r, ht.rooted, hm⟩
    (.tells (.inr ⟨rfl, List.mem_cons_self⟩) (s.child c hc)) s.drained, ?_⟩
  simp [effort, ha, Accept.rank]

theorem Sound.join {c : Nat} (s : Sound own h f) (ha : h.accept = .joins c)
    (he : h.client c = .ended) :
    ∃ h', h.join c = .ok h' ∧ Sound own h' f ∧ effort h' f < effort h f := by
  have hc : h.accept.child = some c := by rw [ha]; rfl
  obtain ⟨n, hn⟩ := s.loads hc
  obtain ⟨r, ht, hm⟩ := s.unlocked (by rw [ha]; rfl)
  have hlive : c ∉ f.children := by
    rw [s.live, he]
    exact Bool.false_ne_true
  have hdead : c ∈ f.dead := (List.mem_append.mp (s.child c hc).1).resolve_left hlive
  have hnd : (c :: h.drained).Nodup := List.nodup_cons.mpr ⟨(s.child c hc).2, s.drained.1⟩
  have hsub : c :: h.drained ⊆ f.dead := List.cons_subset.mpr ⟨hdead, s.drained.2⟩
  rw [Accepting.join, hn, Exec.ok_bind]
  refine ⟨_, rfl, s.moves rfl rfl ⟨r, ht.rooted, hm⟩ (.plain rfl rfl rfl) ⟨hnd, hsub⟩, ?_⟩
  simp [effort, ha, Accept.rank, List.erase_of_not_mem hlive]

theorem Sound.work {execTimeout wdtInterval blocks : Nat} {lastSendArgs : Option Variant}
    (s : Sound own h f) (hp : h.client p = .runs) :
    ∃ h', h.work p execTimeout wdtInterval lastSendArgs blocks = .ok h' ∧ Sound own h' f := by
  have hmem : p ∈ f.children := (s.live p).mpr (by rw [hp]; rfl)
  obtain ⟨r, ht, hm⟩ := s.tree
  obtain ⟨-, n, hn, -⟩ := ht.child (List.mem_append_left _ hmem)
  have htouched : Touched n { n with execTimeout, wdtInterval, lastSendArgs } :=
    ⟨rfl, rfl, rfl, rfl, rfl⟩
  have ht' := ht.touch hmem hn htouched (Nat.le_add_right h.memory.next blocks)
  rw [Accepting.work, Memory.modify_eq hn, Exec.ok_bind]
  exact ⟨_, rfl, s.moves rfl rfl ⟨r, ht', hm⟩ ⟨s.room, s.child, s.told, s.last, s.ended⟩ s.drained⟩

-- The thread of a client does not handle requests any more.
theorem Sound.halt (s : Sound own h f) (hp : h.client p = .runs) {c : Client} (hc : c.lives)
    (hne : c ≠ .runs) : Sound own { h with client := Function.update h.client p c } f ∧
      effort { h with client := Function.update h.client p c } f < effort h f := by
  have hmem : p ∈ f.children := (s.live p).mpr (by rw [hp]; rfl)
  have hnd : f.children.Nodup := by
    obtain ⟨r, ht, -⟩ := s.tree
    have hnd := ht.tree.nodup
    simp only [Family.all] at hnd
    grind
  constructor
  case left =>
    have hlive := s.live
    have hover := s.stopped
    constructor
    case tree    => exact s.tree
    case live    =>
      intro x
      by_cases hx : x = p
      case pos => simpa [hx, hmem] using hc
      case neg => simp [hx, hlive x]
    case stopped =>
      intro x
      have hx' := hover x
      by_cases hx : x = p
      case pos =>
        have hended : c ≠ .ended := by
          rintro rfl
          cases hc
        simpa [hx, hp, hended] using hx'
      case neg => simpa [hx] using hx'
    case bound   => exact s.bound
    case toPlaced => exact ⟨s.room, s.child, s.told, s.last, s.ended⟩
    case joined   => exact s.joined
    case drained  => exact s.drained
  case right =>
    obtain ⟨as, bs, hch⟩ := List.append_of_mem hmem
    rw [hch] at hnd
    have hw := working_middle h.client hnd hne
    simp only [working] at hw
    simp only [effort, hch, hw, List.countP_append, List.countP_cons, hp, decide_true, if_true]
    omega

theorem rank_erase (b : Accept) (children : List Nat) (p : Nat) :
    b.rank (children.erase p) ≤ b.rank children := by
  have hlen := List.length_erase_le (a := p) (l := children)
  have hlen' c : ((children.erase p).erase c).length ≤ (children.erase c).length := by
    rw [List.erase_comm]
    exact List.length_erase_le
  cases b
  case tells c => have := hlen' c; simp only [Accept.rank]; omega
  case joins c => have := hlen' c; simp only [Accept.rank]; omega
  case deletes last => cases last <;> simp only [Accept.rank] <;> omega
  case frees last node => cases last <;> simp only [Accept.rank] <;> omega
  all_goals simp only [Accept.rank]; omega

theorem Sound.destroy {calls : Calls} (s : Sound own h f) (hp : h.client p = .leaves)
    (hl : h.accept.locks = false) (hlock : Succeeded calls.lockMutex) :
    ∃ h' f', h.destroy host calls p = .ok h' ∧ Sound own h' f' ∧ effort h' f' < effort h f := by
  have hmem : p ∈ f.children := (s.live p).mpr (by rw [hp]; rfl)
  obtain ⟨r, ht, hm⟩ := s.unlocked hl
  have hlock' : ¬Failed (lockResult calls r) := by
    rw [lockResult, if_pos hm]
    exact hlock.not_failed
  obtain ⟨m', r', hrun, ht', hdata, -⟩ := destroy_spec host 0 0 ht hlock' hmem
  have hm' : r'.relationMutex = true := (congrArg Node.relationMutex hdata :).trans hm
  have hnd := ht.nodup
  simp only [Family.all] at hnd
  simp only [Accepting.destroy, hrun, Exec.ok_bind]
  refine ⟨_, f.apply (.destroy p), rfl, ?_, ?_⟩
  case refine_1 =>
    have hlive := s.live
    have hover := s.stopped
    have hbound := s.bound
    have hsame :
        (f.children.erase p).length + (p :: f.dead).length = f.children.length + f.dead.length := by
      have hpos := List.length_pos_of_mem hmem
      rw [List.length_erase_of_mem hmem, List.length_cons]
      omega
    constructor
    case tree    => exact ⟨r', (node_eq hl r').symm ▸ ht'.rooted, hm'⟩
    case live    =>
      intro x
      simp only [Family.apply]
      by_cases hx : x = p
      case pos =>
        have hnot : p ∉ f.children.erase p := by grind
        simp [hx, hnot]
      case neg => simp [hx, hlive x, List.mem_erase_of_ne hx]
    case stopped =>
      intro x
      have hx' := hover x
      simp only [Family.apply]
      by_cases hx : x = p
      case pos => simp [hx]
      case neg => simpa [hx] using hx'
    case bound   => exact hsame.trans_le hbound
    case toPlaced =>
      have hnone (hch : f.children = []) : False := by
        rw [hch] at hmem
        cases hmem
      refine ⟨fun hr => hsame.trans_lt (s.room hr), ?_, s.told, fun hl => (hnone (s.last hl)).elim,
        fun he => (hnone (s.last (by rw [he]; rfl))).elim⟩
      intro c hc
      obtain ⟨hmem, hd⟩ := s.child c hc
      refine ⟨?_, hd⟩
      simp only [Family.apply]
      grind
    case joined  => exact s.joined
    case drained => exact ⟨s.drained.1, List.Subset.trans s.drained.2 (List.subset_cons_self ..)⟩
  case refine_2 =>
    have hrank := rank_erase h.accept f.children p
    have hlen := List.length_erase_of_mem hmem
    have hpos := List.length_pos_of_mem hmem
    have hw :
        working (Function.update h.client p .ended) (f.children.erase p) ≤
          working h.client f.children := by
      rw [working_update h.client (by grind)]
      exact (List.erase_sublist).countP_le
    simp only [working] at hw
    simp only [effort, Family.apply, List.length_cons]
    omega

-- The next step is to wait for a thread again.
def Rejoins (h : Accepting) : Prop :=
  ∃ last node, h.accept = .frees last (some node) ∧ node ∈ h.drained

-- The thread of a client that is stuck is waited for.
def Hangs (h : Accepting) : Prop :=
  ∃ c, h.accept = .joins c ∧ h.client c = .stuck

-- What a step of a thread leads to, if `change_relation` succeeds.
theorem Sound.does (s : Sound own h f) (d : Does host own h a e) (ok : a.Succeeds)
    (hjoined : ¬(a = .free ∧ h.Rejoins)) :
    ∃ h' f', e = .ok h' ∧ Sound own h' f' ∧ (a.proceeds → h.term → effort h' f' < effort h f) := by
  cases d
  case close =>
    exact ⟨_, f, rfl, s.moves rfl rfl s.tree ⟨s.room, s.child, s.told, s.last, s.ended⟩ s.drained,
      Bool.noConfusion⟩
  case poll ha =>
    obtain ⟨h', hrun, s', hlt⟩ := s.poll ha
    exact ⟨h', f, hrun, s', fun _ => hlt⟩
  case accepted c ha =>
    have hroom := s.room (by rw [ha]; rfl)
    refine ⟨_, f, rfl, s.goes (by rw [ha]; rfl) rfl (.listens rfl rfl fun _ => hroom),
      fun _ _ => ?_⟩
    simp [effort, ha, Accept.rank]
  case refused ha =>
    refine ⟨_, f, rfl, s.goes (by rw [ha]; rfl) rfl (.plain rfl rfl rfl), fun _ _ => ?_⟩
    simp [effort, ha, Accept.rank]
  case add sock calls begun ha =>
    obtain ⟨ht, he, rfl⟩ := ok
    obtain ⟨h', f', hrun, s', hlt⟩ := s.add ha ht he
    exact ⟨h', f', hrun, s', fun _ _ => hlt⟩
  case delete last ha =>
    obtain ⟨h', hrun, s', hlt⟩ := s.delete ha
    exact ⟨h', f, hrun, s', fun _ _ => hlt⟩
  case free last node ha he =>
    obtain ⟨h', f', hrun, s', hlt⟩ := s.free ha fun hd => hjoined ⟨rfl, last, node, ha, hd⟩
    exact ⟨h', f', hrun, s', fun _ _ => hlt⟩
  case unlock last ha =>
    obtain ⟨h', hrun, s', hlt⟩ := s.unlock ha
    exact ⟨h', f, hrun, s', fun _ _ => hlt⟩
  case look ha =>
    obtain ⟨h', hrun, s', hlt⟩ := s.look ha
    exact ⟨h', f, hrun, s', fun _ _ => hlt⟩
  case tell c ha =>
    obtain ⟨h', hrun, s', hlt⟩ := s.tell ha
    exact ⟨h', f, hrun, s', fun _ _ => hlt⟩
  case join c ha he =>
    obtain ⟨h', hrun, s', hlt⟩ := s.join ha he
    exact ⟨h', f, hrun, s', fun _ _ => hlt⟩
  case work hp =>
    obtain ⟨h', hrun, s'⟩ := s.work hp
    exact ⟨h', f, hrun, s', Bool.noConfusion⟩
  case stick hp =>
    obtain ⟨s', hlt⟩ := s.halt hp (c := .stuck) rfl Client.noConfusion
    exact ⟨_, f, rfl, s', fun _ _ => hlt⟩
  case leave hp =>
    obtain ⟨s', hlt⟩ := s.halt hp (c := .leaves) rfl Client.noConfusion
    exact ⟨_, f, rfl, s', fun _ _ => hlt⟩
  case destroy hp hl =>
    obtain ⟨h', f', hrun, s', hlt⟩ := s.destroy hp hl ok
    exact ⟨h', f', hrun, s', fun _ _ => hlt⟩

-- The accepting thread, or the client that it waits for, can go on unless that one is stuck.
theorem Sound.proceeds (host : Host) (s : Sound own h f) (ha : h.accept ≠ .ended)
    (hhangs : ¬h.Hangs) : ∃ a e, Does host own h a e ∧ a.proceeds ∧ a.Succeeds := by
  have good : Succeeded sOk := succeeded_sOk
  cases hc : h.accept
  case waits    => exact ⟨_, _, .poll hc, rfl, trivial⟩
  case accepts  => exact ⟨_, _, .refused hc, rfl, trivial⟩
  case adds     => exact ⟨.add ⟨sOk, sOk, sOk, 0⟩ true, _, .add hc, rfl, good, good, rfl⟩
  case deletes  => exact ⟨_, _, .delete hc, rfl, trivial⟩
  case looks    => exact ⟨_, _, .look hc, rfl, trivial⟩
  case tells c  => exact ⟨_, _, .tell hc, rfl, trivial⟩
  case ended    => exact absurd hc ha
  case frees last node =>
    cases node
    case none      => exact ⟨_, _, .unlock hc, rfl, trivial⟩
    case some node =>
      obtain ⟨r, hr, -⟩ := s.tree
      rw [hc] at hr
      obtain ⟨xs, -, -, hd, -⟩ := hr.free
      have he : h.client node = .ended := (s.stopped node).mp (by rw [hd]; exact List.mem_cons_self)
      exact ⟨_, _, .free hc he, rfl, trivial⟩
  case joins c =>
    have hmem := (s.child c (by rw [hc]; rfl)).1
    have hlive := s.live c
    have hover := s.stopped c
    cases hcl : h.client c
    case absent => simp_all [Client.lives]
    case stuck  => exact absurd ⟨c, hc, hcl⟩ hhangs
    case runs   => exact ⟨_, _, .leave hcl, rfl, trivial⟩
    case leaves =>
      exact ⟨.destroy c ⟨sOk, sOk, sOk, 0⟩, _, .destroy hcl (by rw [hc]; rfl), rfl, good⟩
    case ended  => exact ⟨_, _, .join hc hcl, rfl, trivial⟩

-- The event that tells the server to end stays set.
theorem Does.term (d : Does host own h a e) (he : e = .ok h') (ht : h.term = true) :
    h'.term = true := by
  cases d
  case close => cases he; rfl
  case poll =>
    rw [Accepting.poll, if_pos ht] at he
    cases he
    exact ht
  case accepted => cases he; exact ht
  case refused  => cases he; exact ht
  case leave    => cases he; exact ht
  case stick    => cases he; exact ht
  case free node _ _ =>
    rw [Accepting.free] at he
    by_cases hd : node ∈ h.drained
    case pos => rw [if_pos hd] at he; cases he
    case neg =>
      rw [if_neg hd] at he
      obtain ⟨_, -, he⟩ := ok_of_bind he
      obtain ⟨_, -, he⟩ := ok_of_bind he
      obtain ⟨_, -, he⟩ := ok_of_bind he
      cases he
      exact ht
  all_goals
    obtain ⟨_, -, he⟩ := ok_of_bind he
    cases he
    exact ht

-- A thread that has ended is not waited for again.
theorem Does.not_rejoins {last : Bool} {node : Nat} (d : Does host own h .free e) (he : e = .ok h')
    (ha : h.accept = .frees last (some node)) : node ∉ h.drained := by
  intro hd
  cases d
  case free last' node' ha' _ =>
    cases ha.symm.trans ha'
    rw [Accepting.free, if_pos hd] at he
    cases he
  case unlock ha' => cases ha.symm.trans ha'

theorem Does.allowed (d : Does host own h a (.ok h')) : ¬(a = .free ∧ h.Rejoins) := by
  rintro ⟨rfl, last, node, ha, hd⟩
  exact d.not_rejoins rfl ha hd

-- What holds of a server while its threads run.
structure Safe (host : Host) (own : Nat) (h : Accepting) : Prop where
  -- No thread accesses a node that was freed, and nothing is undefined but to wait for a thread
  -- again.
  access : ∀ {a e}, Does host own h a e → a.Succeeds →
    ((∃ h', e = .ok h') ↔ ¬(a = .free ∧ h.Rejoins))
  alive  : ∀ p, (h.client p).lives → ∃ n, h.memory.cell p = some n ∧ n.parent = some own
  stopped : ∀ p ∈ h.memory.freed, h.client p = .ended
  once   : h.memory.freed.Nodup ∧ h.joined = h.memory.freed
  -- The nodes of the clients that have connected and are not freed.
  count  : ∃ r, ∃ nodes : List Nat, h.memory.cell own = some r ∧ nodes.Nodup ∧
    (∀ p, p ∈ nodes ↔ h.client p ≠ .absent ∧ p ∉ h.memory.freed) ∧
    r.numChild = nodes.length ∧ nodes.length ≤ bcapClientMax
  told   : ∀ c, h.accept = .joins c → c ∈ h.told

-- How a server ends.
structure Closes (host : Host) (own : Nat) (h : Accepting) : Prop where
  -- The threads do not block each other.
  proceeds : h.accept ≠ .ended →
    (∃ a h', Step host own h a h' ∧ a.proceeds ∧ a.Succeeds) ∨ h.Hangs ∨ h.Rejoins
  bounded  : h.term → ∃ n, ∀ {steps h'}, Run (Step host own) h steps h' →
    (∀ p ∈ steps, p.2.proceeds ∧ p.2.Succeeds) → steps.length ≤ n
  closed   : h.accept = .ended → ∀ p, h.client p ≠ .absent →
    h.client p = .ended ∧ p ∈ h.memory.freed ∧ h.memory.cell p = none
  -- No client was connected when the server began to end.
  alone    : h.accept = .ended → h.drained = []

-- The nodes are the children and those that are to be deleted.
theorem Sound.mem_nodes (s : Sound own h f) (p : Nat) :
    p ∈ f.children ++ f.dead ↔ h.client p ≠ .absent ∧ p ∉ f.freed := by
  have hlive := s.live p
  have hover := s.stopped p
  have hnd := s.nodup
  simp only [Family.all] at hnd
  rw [List.mem_append]
  constructor
  case mp =>
    rintro (hp | hp)
    case inl =>
      refine ⟨fun ha => ?_, by grind⟩
      rw [ha] at hlive
      exact absurd (hlive.mp hp) Bool.false_ne_true
    case inr =>
      have hended := hover.mp (List.mem_append_left _ hp)
      exact ⟨by rw [hended]; exact Client.noConfusion, by grind⟩
  case mpr =>
    rintro ⟨hne, hp⟩
    cases hc : h.client p
    case absent => contradiction
    case ended  => exact .inr ((List.mem_append.mp (hover.mpr hc)).resolve_right hp)
    all_goals exact .inl (hlive.mpr (by rw [hc]; rfl))

theorem Sound.safe (s : Sound own h f) : Safe host own h where
  access d ok := by
    constructor
    case mp =>
      rintro ⟨h', he⟩ ⟨rfl, last, node, ha, hd⟩
      exact d.not_rejoins he ha hd
    case mpr =>
      intro hjoined
      obtain ⟨h', _, he, _⟩ := s.does d ok hjoined
      exact ⟨h', he⟩
  alive p hp := by
    obtain ⟨r, hr, -⟩ := s.tree
    obtain ⟨-, n, hn, hparent, -⟩ := hr.child (List.mem_append_left _ ((s.live p).mpr hp))
    exact ⟨n, hn, hparent⟩
  stopped p hp := (s.stopped p).mp (List.mem_append_right _ (s.freed ▸ hp))
  once := by
    have hnd := s.nodup
    simp only [Family.all] at hnd
    rw [s.freed]
    exact ⟨by grind, s.joined⟩
  count := by
    obtain ⟨r, hr, -⟩ := s.tree
    have hcount : r.numChild = f.children.length + f.dead.length := hr.tree.count
    have hnd := s.nodup
    simp only [Family.all] at hnd
    refine ⟨r, f.children ++ f.dead, hr.root, by grind, ?_, ?_, ?_⟩
    case refine_1 => exact fun p => s.freed ▸ s.mem_nodes p
    case refine_2 => rw [hcount, List.length_append, Int.natCast_add]
    case refine_3 =>
      have hbound := s.bound
      rw [List.length_append, bcapClientMax]
      omega
  told := s.told

-- The threads take no more steps than their effort, once the server is told to end.
theorem Sound.bounded {h t : Accepting} {f : Family} {steps : List (Accepting × Act)} :
    Sound own h f → h.term = true → Run (Step host own) h steps t →
      (∀ p ∈ steps, p.2.proceeds ∧ p.2.Succeeds) → steps.length ≤ effort h f
  | _, _,  .nil,       _  => Nat.zero_le _
  | s, ht, .cons st r, ok => by
    obtain ⟨ho, hos⟩ := List.forall_mem_cons.mp ok
    obtain ⟨h₁, f₁, he, s₁, hlt⟩ := s.does st ho.2 st.allowed
    cases he
    have hrest := s₁.bounded (st.term rfl ht) r hos
    have hstep := hlt ho.1 ht
    rw [List.length_cons]
    omega

theorem Sound.closes (s : Sound own h f) : Closes host own h where
  proceeds ha := by
    by_cases hhangs : h.Hangs
    case pos => exact .inr (.inl hhangs)
    case neg =>
      by_cases hrejoins : h.Rejoins
      case pos => exact .inr (.inr hrejoins)
      case neg =>
        obtain ⟨a, e, d, hp, ok⟩ := s.proceeds host ha hhangs
        obtain ⟨h', _, rfl, _⟩ := s.does d ok fun hr => hrejoins hr.2
        exact .inl ⟨a, h', d, hp, ok⟩
  bounded ht := ⟨effort h f, s.bounded ht⟩
  closed ha p hp := by
    have hchildren := s.last (by rw [ha]; rfl)
    have hlive := s.live p
    have hover := s.stopped p
    have hended : h.client p = .ended := by
      cases hc : h.client p
      case ended => rfl
      all_goals simp_all
    have hfreed : p ∈ f.freed := by simpa [s.ended ha, hended] using hover
    obtain ⟨r, hr, -⟩ := s.tree
    have hne : p ≠ own := by
      have hnd := s.nodup
      simp only [Family.all] at hnd
      grind
    have hgone := hr.tree.gone p hfreed
    rw [Memory.cell_set_of_ne hne] at hgone
    exact ⟨hended, s.freed ▸ hfreed, hgone⟩
  alone ha := List.subset_nil.mp (s.ended ha ▸ s.drained.2)

-- Whether the nodes are those of the clients' threads.
def IsSound (own : Nat) (h : Accepting) : Prop :=
  ∃ f, Sound own h f

-- A server that has just been opened, with its mutex.
theorem sound_start {memory : Memory Node} (ho : Opened own memory)
    (hm : (memory.cell own).map Node.relationMutex = some true) :
    Sound own (start memory) .empty := by
  obtain ⟨r, ht, -⟩ := ho.tree
  rw [ht.root, Option.map_some, Option.some.injEq] at hm
  constructor
  case tree    => exact ⟨r, ht.rooted, hm⟩
  case live    => simp [start, Family.empty]
  case stopped => simp [start, Family.empty]
  case bound   => simp [Family.empty]
  case toPlaced => exact .plain rfl rfl rfl
  case joined  => rfl
  case drained => simp [start, Family.empty]

theorem sound_of_run {memory : Memory Node} (ho : Opened own memory)
    (hm : (memory.cell own).map Node.relationMutex = some true)
    (r : Run (Step host own) (start memory) steps h) (ok : ∀ p ∈ steps, p.2.Succeeds) :
    IsSound own h := by
  have keep {h : Accepting} {a : Act} {h' : Accepting} (st : Step host own h a h')
    (ok : a.Succeeds) : IsSound own h → IsSound own h' := by
    rintro ⟨f, s⟩
    obtain ⟨h₁, f₁, he, s₁, -⟩ := s.does st ok st.allowed
    cases he
    exact ⟨f₁, s₁⟩
  exact @Run.preserves _ _ (Step host own) (IsSound own) (fun _ a => a.Succeeds) _ _ _ keep r ok
    ⟨_, sound_start ho hm⟩

-- In every interleaving of the accepting thread and the threads of the clients, no thread accesses
-- a node that was freed, and each node is freed once, after its thread has ended.
theorem threads_safe {memory : Memory Node} (ho : Opened own memory)
    (hm : (memory.cell own).map Node.relationMutex = some true)
    (r : Run (Step host own) (start memory) steps h) (ok : ∀ p ∈ steps, p.2.Succeeds) :
    Safe host own h :=
  have ⟨_, s⟩ := sound_of_run ho hm r ok
  s.safe

-- The threads never block each other for good unless a client is stuck, and once the server is told
-- to end, they end after a limited number of steps and have freed all nodes, or a thread is waited
-- for again because its client was still connected.
theorem threads_close {memory : Memory Node} (ho : Opened own memory)
    (hm : (memory.cell own).map Node.relationMutex = some true)
    (r : Run (Step host own) (start memory) steps h) (ok : ∀ p ∈ steps, p.2.Succeeds) :
    Closes host own h :=
  have ⟨_, s⟩ := sound_of_run ho hm r ok
  s.closes

end

theorem tcpServer_opened : Opened 0 tcpServer :=
  ⟨⟨tcpRoot, rfl, rfl, rfl, rfl, rfl⟩, by decide, rfl⟩

theorem Does.cons {host : Host} {own : Nat} {h h' t : Accepting} {a : Act} {e : Exec Accepting}
    {steps : List (Accepting × Act)} (d : Does host own h a e) (he : e = .ok h')
    (r : Run (Step host own) h' steps t) : Run (Step host own) h ((h, a) :: steps) t := by
  subst he
  exact .cons d r

-- A client connects and leaves before the server is told to end.
theorem connected_run : ∃ steps h, Run (Step ampleHost 0) (start tcpServer) steps h ∧
    (∀ p ∈ steps, p.2.Succeeds) ∧ h.accept = .ended ∧ h.memory.freed = [1] := by
  have r : Run (Step ampleHost 0) (start tcpServer) _ _ :=
    Does.cons (.poll rfl) rfl <| Does.cons (a := .accept (some 5)) (.accepted rfl) rfl <|
    Does.cons (a := .add noFailure true) (.add rfl) rfl <|
    Does.cons (a := .leave 1) (.leave rfl) rfl <|
    Does.cons (a := .destroy 1 noFailure) (.destroy rfl rfl) rfl <|
    Does.cons (.delete rfl) rfl <| Does.cons (.free rfl rfl) rfl <| Does.cons (.unlock rfl) rfl <|
    Does.cons .close rfl <| Does.cons (.poll rfl) rfl <| Does.cons (.look rfl) rfl <|
    Does.cons (.delete rfl) rfl <| Does.cons (.unlock rfl) rfl .nil
  refine ⟨_, _, r, ?_, rfl, rfl⟩
  iterate 2 refine List.forall_mem_cons.mpr ⟨trivial, ?_⟩
  refine List.forall_mem_cons.mpr ⟨⟨succeeded_sOk, succeeded_sOk, rfl⟩, ?_⟩
  refine List.forall_mem_cons.mpr ⟨trivial, ?_⟩
  refine List.forall_mem_cons.mpr ⟨succeeded_sOk, ?_⟩
  iterate 8 refine List.forall_mem_cons.mpr ⟨trivial, ?_⟩
  exact List.forall_mem_nil _

theorem connected_safe : ∃ steps h, Run (Step ampleHost 0) (start tcpServer) steps h ∧
    h.memory.freed = [1] ∧ Safe ampleHost 0 h := by
  obtain ⟨steps, h, r, ok, -, hfreed⟩ := connected_run
  exact ⟨steps, h, r, hfreed, threads_safe tcpServer_opened rfl r ok⟩

theorem connected_closes : ∃ steps h, Run (Step ampleHost 0) (start tcpServer) steps h ∧
    Closes ampleHost 0 h ∧ h.accept = .ended ∧ h.joined = [1] := by
  obtain ⟨steps, h, r, ok, ha, hfreed⟩ := connected_run
  have hc := threads_close tcpServer_opened rfl r ok
  exact ⟨steps, h, r, hc, ha, (threads_safe tcpServer_opened rfl r ok).once.2.trans hfreed⟩

end Accepting
end Bcap
