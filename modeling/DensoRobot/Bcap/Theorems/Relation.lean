import DensoRobot.Lib.Run
import DensoRobot.Bcap.Relation

open HRESULT Links

namespace Bcap

-- What the connection tree of a server is for: its children, those that have been destroyed and not
-- been deleted yet, and those that were deleted. The last one comes first.
structure Family where
  children : List Nat
  dead     : List Nat
  freed    : List Nat

inductive Change
  | add (p : Nat)
  | destroy (p : Nat)
  | delete

namespace Family

def apply (f : Family) : Change → Family
  | .add p     => { f with children := p :: f.children }
  | .destroy p => { f with children := f.children.erase p, dead := p :: f.dead }
  | .delete    => { f with dead := [], freed := f.dead.reverse ++ f.freed }

def empty : Family where
  children := []
  dead     := []
  freed    := []

-- All nodes that have ever been children.
def all (f : Family) : List Nat :=
  f.children ++ f.dead ++ f.freed

end Family

-- The fields of a node other than its links.
def Node.data (n : Node) : Node :=
  { n with node1 := none, node2 := none }

-- The invariant of the tree below the node `own`, whose contents are `r`.
structure Tree (own : Nat) (m : Memory Node) (r : Node) (f : Family) : Prop where
  root     : m.cell own = some r
  orphan   : r.parent = none
  children : ∃ l, Seg Node.node2 Node.node1 m.cell none r.node1 f.children l none
  dead     : Chain Node.node2 m.cell r.node2 f.dead
  count    : r.numChild = f.children.length + f.dead.length
  parent   : ∀ p ∈ f.children ++ f.dead, (m.cell p).map Node.parent = some (some own)
  mutex    : ∀ p ∈ f.children ++ f.dead, (m.cell p).map Node.relationMutex = some r.relationMutex
  nodup    : (own :: f.all).Nodup
  fresh    : ∀ p ∈ own :: f.all, p < m.next
  freed    : m.freed = f.freed
  gone     : ∀ p ∈ f.freed, m.cell p = none

-- Only the links of the nodes `xs` differ between two states of the memory.
structure Relinks (xs : List Nat) (m m' : Memory Node) : Prop where
  data  : ∀ x, (m'.cell x).map Node.data = (m.cell x).map Node.data
  frame : ∀ x, x ∉ xs → m'.cell x = m.cell x
  next  : m'.next = m.next
  freed : m'.freed = m.freed

namespace Relinks

variable {m m' m'' : Memory Node} {xs ys : List Nat} {p : Nat} {n n' : Node}

theorem refl (xs : List Nat) (m : Memory Node) : Relinks xs m m where
  data  := fun _ => rfl
  frame := fun _ _ => rfl
  next  := rfl
  freed := rfl

theorem trans (h : Relinks xs m m') (h' : Relinks xs m' m'') : Relinks xs m m'' where
  data  := fun x => (h'.data x).trans (h.data x)
  frame := fun x hx => (h'.frame x hx).trans (h.frame x hx)
  next  := h'.next.trans h.next
  freed := h'.freed.trans h.freed

theorem mono (h : Relinks xs m m') (hs : xs ⊆ ys) : Relinks ys m m' where
  data  := h.data
  frame := fun x hx => h.frame x fun hm => hx (hs hm)
  next  := h.next
  freed := h.freed

theorem set (hp : m.cell p = some n) (hn : n'.data = n.data) (hx : p ∈ xs) :
    Relinks xs m (m.set p (some n')) where
  data  := Memory.map_cell_set hp hn
  frame := fun x hx' => Memory.cell_set_of_ne (fun he : x = p => hx' (he ▸ hx)) _
  next  := rfl
  freed := rfl

theorem cell (h : Relinks xs m m') (hp : p ∉ xs) (hn : m.cell p = some n) : m'.cell p = some n :=
  (h.frame p hp).trans hn

theorem map_eq (h : Relinks xs m m') (x : Nat) {g : Node → β} (hg : ∀ n, g n.data = g n) :
    (m'.cell x).map g = (m.cell x).map g := by
  have hgd : g = g ∘ Node.data := funext fun n => (hg n).symm
  rw [hgd, ← Option.map_map, ← Option.map_map, h.data]

end Relinks

section

variable {m m' : Memory Node} {own p : Nat} {r n : Node} {f : Family}
variable {xs as bs dead : List Nat} {b q t l : Option Nat}

-- The pointer behind the nodes `as` is replaced.
theorem link_forward (hs : Seg Node.node2 Node.node1 m.cell none r.node1 as t (some p))
    (hr : m.cell own = some r) (hnd : (own :: as).Nodup) (q : Option Nat) :
    ∃ m' r', (match t with
      | none   => m.modify own fun n => { n with node1 := q }
      | some t => m.modify t fun n => { n with node2 := q }) = .ok m' ∧
      m'.cell own = some r' ∧ r'.node2 = r.node2 ∧ r'.data = r.data ∧
      Seg Node.node2 Node.node1 m'.cell none r'.node1 as t q ∧ Relinks (own :: as) m m' := by
  have ⟨hroot, hnd⟩ := List.nodup_cons.mp hnd
  have hlast := hs.last_eq
  rw [Option.or_none] at hlast
  cases t
  case none =>
    refine ⟨_, _, Memory.modify_eq hr, Memory.cell_set_self .., rfl, rfl, ?_,
      .set hr rfl List.mem_cons_self⟩
    rw [List.getLast?_eq_none_iff.mp hlast.symm]
    exact .nil
  case some x =>
    have ⟨as', has⟩ := List.getLast?_eq_some_iff.mp hlast.symm
    subst has
    have hmem : x ∈ as' ++ [x] := List.mem_append_right _ (List.mem_singleton_self _)
    have hx : x ∉ as' := by
      have hd := (List.nodup_append.mp hnd).2.2
      exact fun hm => hd x hm x (List.mem_singleton_self _) rfl
    have hne : own ≠ x := fun he => hroot (he ▸ hmem)
    have ⟨n, hn, _, _⟩ := hs.middle
    exact ⟨_, r, Memory.modify_eq hn, (Memory.cell_set_of_ne hne _).trans hr, rfl, rfl,
      hs.setNext hx hn rfl, .set hn rfl (List.mem_cons_of_mem own hmem)⟩

-- The pointer in front of the nodes `bs` is replaced.
theorem link_back (hs : Seg Node.node2 Node.node1 m.cell b q bs l none) (hnd : bs.Nodup)
    (b' : Option Nat) :
    ∃ m' l', m.modifyIf q (fun n => { n with node1 := b' }) = .ok m' ∧
      Seg Node.node2 Node.node1 m'.cell b' q bs l' none ∧ Relinks bs m m' := by
  have hfirst := hs.first_eq
  rw [Option.or_none] at hfirst
  cases bs
  case nil =>
    rw [hfirst]
    exact ⟨m, b', rfl, .nil, .refl ..⟩
  case cons x bs =>
    have ⟨hx, _⟩ := List.nodup_cons.mp hnd
    match hs with
    | .cons hn hp hs =>
      exact ⟨_, l, Memory.modify_eq hn, (Seg.cons hn hp hs).setPrev hx hn rfl,
        .set hn rfl List.mem_cons_self⟩

-- A node is put in front of the nodes that are to be deleted.
theorem bury (hr : m.cell own = some r) (hp : m.cell p = some n)
    (hc : Chain Node.node2 m.cell r.node2 dead) (hnd : (own :: p :: dead).Nodup) :
    ∃ m₁ m₂ m', m.modify own (fun n => { n with node2 := some p }) = .ok m₁ ∧
      m₁.modify p (fun n => { n with node2 := r.node2 }) = .ok m₂ ∧
      m₂.modifyIf r.node2 (fun n => { n with node1 := some p }) = .ok m' ∧
      m'.cell own = some { r with node2 := some p } ∧
      Chain Node.node2 m'.cell (some p) (p :: dead) ∧ Relinks (own :: p :: dead) m m' := by
  have ⟨hown, hnd'⟩ := List.nodup_cons.mp hnd
  have ⟨hpd, hndd⟩ := List.nodup_cons.mp hnd'
  have hne : p ≠ own := fun he => hown (he ▸ List.mem_cons_self)
  have hod : own ∉ dead := fun hm => hown (List.mem_cons_of_mem p hm)
  let m₁ := m.set own (some { r with node2 := some p })
  let m₂ := m₁.set p (some { n with node2 := r.node2 })
  have hp₁ : m₁.cell p = some n := (Memory.cell_set_of_ne hne _).trans hp
  have hr₂ : m₂.cell own = some { r with node2 := some p } :=
    (Memory.cell_set_of_ne hne.symm _).trans (Memory.cell_set_self ..)
  have hrel₁ : Relinks (own :: p :: dead) m m₁ := .set hr rfl List.mem_cons_self
  have hrel₂ : Relinks (own :: p :: dead) m₁ m₂ :=
    .set hp₁ rfl (List.mem_cons_of_mem _ List.mem_cons_self)
  have hrel := hrel₁.trans hrel₂
  have hc₂ : Chain Node.node2 m₂.cell r.node2 dead := hc.congr fun x hx => by
    have hxo : x ≠ own := fun he => hod (he ▸ hx)
    have hxp : x ≠ p := fun he => hpd (he ▸ hx)
    rw [Memory.cell_set_of_ne hxp, Memory.cell_set_of_ne hxo]
  refine ⟨m₁, m₂, ?_⟩
  cases dead
  case nil =>
    have hnull : r.node2 = none := hc.head_eq
    refine ⟨m₂, Memory.modify_eq hr, Memory.modify_eq hp₁, ?_, hr₂, ?_, hrel⟩
    · rw [hnull]
      rfl
    · exact .cons (Memory.cell_set_self ..) hc₂
  case cons d ds =>
    have hhead : r.node2 = some d := hc.head_eq
    have hdo : own ≠ d := fun he => hod (he ▸ List.mem_cons_self)
    have hdp : p ≠ d := fun he => hpd (he ▸ List.mem_cons_self)
    have hdmem : d ∈ own :: p :: d :: ds :=
      List.mem_cons_of_mem _ (List.mem_cons_of_mem _ List.mem_cons_self)
    have ⟨nd, hnd'⟩ := Option.isSome_iff_exists.mp (hc₂.isSome d List.mem_cons_self)
    let m' := m₂.set d (some { nd with node1 := some p })
    have hrel' : Relinks (own :: p :: d :: ds) m₂ m' := .set hnd' rfl hdmem
    refine ⟨m', Memory.modify_eq hr, Memory.modify_eq hp₁, ?_,
      (Memory.cell_set_of_ne hdo _).trans hr₂, ?_, hrel.trans hrel'⟩
    · rw [hhead]
      exact Memory.modify_eq hnd'
    · exact .cons ((Memory.cell_set_of_ne hdp _).trans (Memory.cell_set_self ..))
        (hc₂.congr fun x _ => Memory.map_cell_set hnd' (by rfl) x)

-- A child becomes a node that is to be deleted.
theorem destroySelf_spec (h : Tree own m r f) (hp : p ∈ f.children) :
    ∃ m' r', destroySelf p own m = .ok m' ∧ Tree own m' r' (f.apply (.destroy p)) ∧
      r'.data = r.data ∧ Relinks (own :: f.children ++ f.dead) m m' := by
  have ⟨as, bs, hch⟩ := List.append_of_mem hp
  have ⟨l, hs⟩ := h.children
  have hnd := h.nodup
  rw [Family.all, hch] at hnd
  rw [hch] at hs
  have ⟨n, hn, hs₁, hs₂⟩ := hs.middle
  have ⟨m₁, r₁, he₁, hr₁, hd₁, hdata₁, hseg₁, hrel₁⟩ :=
    link_forward hs₁ h.root (by grind) n.node2
  have hn₁ : m₁.cell p = some n := hrel₁.cell (by grind) hn
  have hbs₁ : Seg Node.node2 Node.node1 m₁.cell (some p) n.node2 bs l none :=
    hs₂.frame fun x hx => hrel₁.frame x (by grind)
  have ⟨m₂, l', he₂, hseg₂, hrel₂⟩ := link_back hbs₁ (by grind) n.node1
  have hr₂ : m₂.cell own = some r₁ := hrel₂.cell (by grind) hr₁
  have hn₂ : m₂.cell p = some n := hrel₂.cell (by grind) hn₁
  have has₂ : Seg Node.node2 Node.node1 m₂.cell none r₁.node1 as n.node1 n.node2 :=
    hseg₁.frame fun x hx => hrel₂.frame x (by grind)
  have hdead₂ : Chain Node.node2 m₂.cell r₁.node2 f.dead := by
    rw [hd₁]
    exact h.dead.congr fun x hx => by
      rw [hrel₂.frame x (by grind), hrel₁.frame x (by grind)]
  have ⟨m₃, m₄, m₅, he₃, he₄, he₅, hr₅, hdead₅, hrel₅⟩ := bury hr₂ hn₂ hdead₂ (by grind)
  have hrel : Relinks (own :: f.children ++ f.dead) m m₅ :=
    ((hrel₁.mono (by grind)).trans (hrel₂.mono (by grind))).trans (hrel₅.mono (by grind))
  have hdata : ({ r₁ with node2 := some p } : Node).data = r.data := hdata₁
  have herase : (as ++ p :: bs).erase p = as ++ bs := by
    rw [List.erase_append_right _ (by grind), List.erase_cons_head]
  refine ⟨m₅, { r₁ with node2 := some p }, ?run, ?tree, hdata, hrel⟩
  case run =>
    have hload : m₂.load own = .ok r₁ := Memory.load_eq hr₂
    simp only [destroySelf, Memory.load_eq hn, Exec.ok_bind]
    cases hn1 : n.node1
    all_goals
      rw [hn1] at he₁ he₂
      simp only [he₁, Exec.ok_bind, he₂, hload, he₃, he₄, he₅]
  case tree =>
    constructor
    case root => exact hr₅
    case orphan => exact (congrArg Node.parent hdata).trans h.orphan
    case children =>
      refine ⟨l', ?_⟩
      have hseg₅ := (has₂.append hseg₂).frame fun x hx => hrel₅.frame x (by grind)
      simpa only [Family.apply, hch, herase] using hseg₅
    case dead => exact hdead₅
    case count =>
      have hcount : r₁.numChild = f.children.length + f.dead.length :=
        (congrArg Node.numChild hdata).trans h.count
      simp only [Family.apply, hch, herase, List.length_append, List.length_cons] at hcount ⊢
      omega
    case parent =>
      intro x hx
      rw [hrel.map_eq x fun _ => rfl]
      refine h.parent x ?_
      grind [Family.apply]
    case mutex =>
      intro x hx
      rw [hrel.map_eq x fun _ => rfl, h.mutex x (by grind [Family.apply])]
      exact congrArg some (congrArg Node.relationMutex hdata).symm
    case nodup => grind [Family.apply, Family.all]
    case fresh =>
      intro x hx
      rw [hrel.next]
      refine h.fresh x ?_
      grind [Family.apply, Family.all]
    case freed => exact hrel.freed.trans h.freed
    case gone =>
      intro x hx
      rw [hrel.frame x (by grind [Family.apply, Family.all])]
      exact h.gone x hx

-- What `ADD_CHILD` does once the node is linked.
def finishChild (host : Host) (calls : Calls) (node : Nat) (r : Node) (m : Memory Node) :
    Exec (HRESULT × Memory Node) := do
  if r.relationMutex then
    if Failed calls.setTimeout then
      return (calls.setTimeout, ← m.free node)
    else if Failed calls.createEvent then
      return (calls.createEvent, ← m.free node)
    else
      return (calls.createEvent, m)
  else
    return (sOk, ← ownMemory host node r m)

-- A node is linked as the youngest child.
theorem addChild_linked (host : Host) (calls : Calls) (h : Tree own m r f)
    (hmalloc : host.malloc m.next = true) (sock : Nat) :
    ∃ m' r', addChild host calls own sock m = finishChild host calls m.next r m' ∧
      Tree own m' r' (f.apply (.add m.next)) ∧ r'.numChild = r.numChild + 1 ∧
      m'.next = m.next + 1 ∧
      (∀ x, x ≠ own → x ≠ m.next → (m'.cell x).map Node.data = (m.cell x).map Node.data) := by
  have ⟨l, hs⟩ := h.children
  have hnew : m.next ∉ own :: f.all := fun hm => Nat.lt_irrefl _ (h.fresh _ hm)
  have hown : own ≠ m.next := fun he => hnew (he ▸ List.mem_cons_self)
  have hnd := h.nodup
  rw [Family.all] at hnd hnew
  let new := newNode calls own r sock
  let m₁ := Memory.set { m with next := m.next + 1 } m.next (some new)
  have hr₁ : m₁.cell own = some r := (Memory.cell_set_of_ne hown _).trans h.root
  let r₂ : Node := { r with numChild := r.numChild + 1 }
  let m₂ := m₁.set own (some r₂)
  have hr₂ : m₂.cell own = some r₂ := Memory.cell_set_self ..
  let r₃ : Node := { r₂ with node1 := some m.next }
  let m₃ := m₂.set own (some r₃)
  have hn₃ : m₃.cell m.next = some new := by
    rw [Memory.cell_set_of_ne hown.symm, Memory.cell_set_of_ne hown.symm, Memory.cell_set_self]
  let m₄ := m₃.set m.next (some { new with node2 := r.node1 })
  have hframe : ∀ x, x ≠ own → x ≠ m.next → m₄.cell x = m.cell x := by
    intro x hxo hxn
    rw [Memory.cell_set_of_ne hxn, Memory.cell_set_of_ne hxo, Memory.cell_set_of_ne hxo,
      Memory.cell_set_of_ne hxn]
  have hs₄ : Seg Node.node2 Node.node1 m₄.cell none r.node1 f.children l none :=
    hs.frame fun x hx => hframe x (by grind) (by grind)
  have ⟨m₅, l', he₅, hseg₅, hrel₅⟩ := link_back hs₄ (by grind) (some m.next)
  have hr₅ : m₅.cell own = some r₃ := by
    rw [hrel₅.frame own (by grind), Memory.cell_set_of_ne hown]
    exact Memory.cell_set_self ..
  have hn₅ : m₅.cell m.next = some { new with node2 := r.node1 } :=
    hrel₅.cell (by grind) (Memory.cell_set_self ..)
  have hdata : ∀ x, x ≠ own → x ≠ m.next →
      (m₅.cell x).map Node.data = (m.cell x).map Node.data := by
    intro x hxo hxn
    rw [hrel₅.data, hframe x hxo hxn]
  refine ⟨m₅, r₃, ?run, ?tree, rfl, hrel₅.next, hdata⟩
  case run =>
    simp only [addChild, Memory.load_eq h.root, Exec.ok_bind, Host.alloc_of_malloc hmalloc]
    have he₁ : Memory.modify m₁ own (fun n => { n with numChild := n.numChild + 1 }) = .ok m₂ :=
      Memory.modify_eq hr₁
    have he₃ : m₂.modify own (fun n => { n with node1 := some m.next }) = .ok m₃ :=
      Memory.modify_eq hr₂
    have he₄ : m₃.modify m.next (fun n => { n with node2 := r₂.node1 }) = .ok m₄ :=
      Memory.modify_eq hn₃
    have he₅ : m₄.modifyIf r₂.node1 (fun n => { n with node1 := some m.next }) = .ok m₅ := he₅
    simp only [m₁, new] at he₁
    simp only [he₁, Exec.ok_bind, Memory.load_eq hr₂, he₃, he₄, he₅]
    rfl
  case tree =>
    have hmap : ∀ {β : Type} {g : Node → β}, (∀ n, g n.data = g n) → ∀ x, x ≠ own → x ≠ m.next →
        (m₅.cell x).map g = (m.cell x).map g := by
      intro β g hg x hxo hxn
      have hgd : g = g ∘ Node.data := funext fun n => (hg n).symm
      rw [hgd, ← Option.map_map, ← Option.map_map, hdata x hxo hxn]
    constructor
    case root => exact hr₅
    case orphan => exact h.orphan
    case children => exact ⟨l', .cons hn₅ rfl hseg₅⟩
    case dead =>
      exact h.dead.congr fun x (hx : x ∈ f.dead) => by
        rw [hrel₅.frame x (by grind), hframe x (by grind) (by grind)]
    case count =>
      have hcount := h.count
      simp only [r₃, r₂, Family.apply, List.length_cons]
      omega
    case parent =>
      intro x hx
      by_cases hxn : x = m.next
      case pos => rw [hxn, hn₅]; rfl
      case neg =>
        rw [hmap (fun _ => rfl) x (by grind [Family.apply]) hxn]
        exact h.parent x (by grind [Family.apply])
    case mutex =>
      intro x hx
      by_cases hxn : x = m.next
      case pos => rw [hxn, hn₅]; rfl
      case neg =>
        rw [hmap (fun _ => rfl) x (by grind [Family.apply]) hxn]
        exact h.mutex x (by grind [Family.apply])
    case nodup => grind [Family.apply, Family.all]
    case fresh =>
      intro x hx
      have hnext : m₅.next = m.next + 1 := hrel₅.next
      have hfresh := h.fresh x
      grind [Family.apply, Family.all]
    case freed => exact hrel₅.freed.trans h.freed
    case gone =>
      intro x hx
      have hx : x ∈ f.freed := hx
      rw [hrel₅.frame x (by grind), hframe x (by grind) (by grind)]
      exact h.gone x hx

-- What the threads may change in a node.
structure Touched (n n' : Node) : Prop where
  node1  : n'.node1 = n.node1
  node2  : n'.node2 = n.node2
  parent : n'.parent = n.parent
  mutex  : n'.relationMutex = n.relationMutex
  count  : n'.numChild = n.numChild

theorem Touched.refl (n : Node) : Touched n n where
  node1  := rfl
  node2  := rfl
  parent := rfl
  mutex  := rfl
  count  := rfl

theorem Tree.touch {n' : Node} (h : Tree own m r f) (hn : m.cell p = some n) (ht : Touched n n')
    {next : Nat} (hnext : m.next ≤ next) :
    ∃ r', Tree own { m.set p (some n') with next } r' f ∧ Touched r r' := by
  have hroot : ∃ r', (m.set p (some n')).cell own = some r' ∧ Touched r r' := by
    by_cases ho : own = p
    case pos =>
      subst ho
      cases h.root.symm.trans hn
      exact ⟨n', Memory.cell_set_self .., ht⟩
    case neg => exact ⟨r, (Memory.cell_set_of_ne ho _).trans h.root, .refl r⟩
  have ⟨r', hr', hrr⟩ := hroot
  refine ⟨r', ?_, hrr⟩
  constructor
  case root => exact hr'
  case orphan => exact hrr.parent.trans h.orphan
  case children =>
    have ⟨l, hs⟩ := h.children
    rw [hrr.node1]
    exact ⟨l, hs.congr fun x _ =>
      ⟨Memory.map_cell_set hn ht.node2 x, Memory.map_cell_set hn ht.node1 x⟩⟩
  case dead =>
    rw [hrr.node2]
    exact h.dead.congr fun x _ => Memory.map_cell_set hn ht.node2 x
  case count => exact hrr.count.trans h.count
  case parent => exact fun x hx => (Memory.map_cell_set hn ht.parent x).trans (h.parent x hx)
  case mutex =>
    intro x hx
    rw [hrr.mutex]
    exact (Memory.map_cell_set hn ht.mutex x).trans (h.mutex x hx)
  case nodup => exact h.nodup
  case fresh => exact fun x hx => Nat.lt_of_lt_of_le (h.fresh x hx) hnext
  case freed => exact h.freed
  case gone =>
    intro x hx
    have hxp : x ≠ p := by
      rintro rfl
      exact Option.some_ne_none n (hn.symm.trans (h.gone x hx))
    exact (Memory.cell_set_of_ne hxp _).trans (h.gone x hx)

-- The loop of `DELETE_CHILD` that began in `m`, after the nodes `done` and before the nodes `xs`.
structure Freeing (own : Nat) (m : Memory Node) (r : Node) (f : Family) (done xs : List Nat)
    (m' : Memory Node) : Prop where
  dead  : f.dead = done ++ xs
  root  : m'.cell own = some { r with numChild := r.numChild - done.length }
  frame : ∀ x, x ≠ own → x ∉ done → m'.cell x = m.cell x
  gone  : ∀ x ∈ done, m'.cell x = none
  freed : m'.freed = done.reverse ++ f.freed
  next  : m'.next = m.next

theorem Freeing.start (h : Tree own m r f) : Freeing own m r f [] f.dead m where
  dead  := rfl
  root  := by
    rw [h.root, List.length_nil, Int.ofNat_zero, Int.sub_zero]
  frame := fun _ _ _ => rfl
  gone  := fun _ hx => absurd hx List.not_mem_nil
  freed := h.freed
  next  := rfl

theorem Freeing.step {done : List Nat} {x : Nat} (h : Tree own m r f)
    (hf : Freeing own m r f done (x :: xs) m') :
    ∃ n m'', m'.cell x = some n ∧ n.node2 = xs.head? ∧ (do
      let m' ← m'.free x
      m'.modify own fun n => { n with numChild := n.numChild - 1 }) = .ok m'' ∧
      Freeing own m r f (done ++ [x]) xs m'' := by
  have hnd := h.nodup
  have hchain := h.dead
  rw [Family.all, hf.dead] at hnd
  rw [hf.dead] at hchain
  have ⟨n, hn, hrest⟩ := hchain.middle
  have hx : m'.cell x = some n := (hf.frame x (by grind) (by grind)).trans hn
  have hne : own ≠ x := by grind
  let m₁ : Memory Node := { m'.set x none with freed := x :: m'.freed }
  let r₁ : Node := { r with numChild := r.numChild - done.length }
  let r₂ : Node := { r with numChild := r.numChild - done.length - 1 }
  have hr₁ : m₁.cell own = some r₁ := (Memory.cell_set_of_ne hne _).trans hf.root
  refine ⟨n, m₁.set own (some r₂), hx, hrest.head_eq, ?_, ?_⟩
  · rw [Memory.free_eq hx, Exec.ok_bind]
    exact Memory.modify_eq hr₁
  constructor
  case dead =>
    rw [hf.dead, List.append_assoc]
    rfl
  case root =>
    have hcount : r.numChild - done.length - 1 = r.numChild - (done ++ [x]).length := by
      simp only [List.length_append, List.length_singleton]
      omega
    rw [Memory.cell_set_self, ← hcount]
  case frame =>
    intro y hyo hyd
    have hyx : y ≠ x := by grind
    rw [Memory.cell_set_of_ne hyo]
    exact (Memory.cell_set_of_ne hyx _).trans (hf.frame y hyo (by grind))
  case gone =>
    intro y hy
    have hyo : y ≠ own := by grind
    rw [Memory.cell_set_of_ne hyo]
    by_cases hyx : y = x
    case pos => exact hyx ▸ Memory.cell_set_self ..
    case neg => exact (Memory.cell_set_of_ne hyx _).trans (hf.gone y (by grind))
  case freed =>
    rw [List.reverse_append]
    exact congrArg (x :: ·) hf.freed
  case next => exact hf.next

-- The nodes that are to be deleted are freed, one after the other.
theorem deleteChild_spec (h : Tree own m r f) {fuel : Nat} (hfuel : f.dead.length ≤ fuel) :
    ∃ m' r', deleteChild fuel own m = .ok m' ∧ Tree own m' r' (f.apply .delete) ∧
      r'.relationMutex = r.relationMutex := by
  have ⟨m₁, hm₁, done, hf⟩ :=
    Memory.each_spec (I := fun xs m' => ∃ done, Freeing own m r f done xs m')
    (fun ⟨done, hf⟩ =>
      have ⟨n, m'', hx, hnext, hrun, hf'⟩ := hf.step h
      ⟨n, m'', hx, hnext, hrun, _, hf'⟩) ⟨[], Freeing.start h⟩ hfuel
  have hdone : done = f.dead := by rw [hf.dead, List.append_nil]
  subst hdone
  let r' : Node := { r with numChild := r.numChild - f.dead.length, node2 := none }
  have hnd := h.nodup
  rw [Family.all] at hnd
  have hframe : ∀ x, x ≠ own → x ∉ f.dead → (m₁.set own (some r')).cell x = m.cell x :=
    fun x hxo hxd => (Memory.cell_set_of_ne hxo _).trans (hf.frame x hxo hxd)
  refine ⟨m₁.set own (some r'), r', ?run, ?tree, rfl⟩
  case run =>
    simp only [deleteChild, Memory.load_eq h.root, Exec.ok_bind, h.dead.head_eq, hm₁]
    exact Memory.modify_eq hf.root
  case tree =>
    constructor
    case root => exact Memory.cell_set_self ..
    case orphan => exact h.orphan
    case children =>
      have ⟨l, hs⟩ := h.children
      exact ⟨l, hs.frame fun x (hx : x ∈ f.children) => hframe x (by grind) (by grind)⟩
    case dead => exact .nil
    case count =>
      have hcount := h.count
      simp only [r', Family.apply, List.length_nil]
      omega
    case parent =>
      intro x hx
      rw [hframe x (by grind [Family.apply]) (by grind [Family.apply])]
      exact h.parent x (by grind [Family.apply])
    case mutex =>
      intro x hx
      rw [hframe x (by grind [Family.apply]) (by grind [Family.apply])]
      exact h.mutex x (by grind [Family.apply])
    case nodup => grind [Family.apply, Family.all]
    case fresh =>
      intro x hx
      have hnext : (m₁.set own (some r')).next = m.next := hf.next
      rw [hnext]
      exact h.fresh x (by grind [Family.apply, Family.all])
    case freed => exact hf.freed
    case gone =>
      intro x hx
      have hxo : x ≠ own := by grind [Family.apply]
      rw [Memory.cell_set_of_ne hxo]
      by_cases hxd : x ∈ f.dead
      case pos => exact hf.gone x hxd
      case neg =>
        rw [hf.frame x hxo hxd]
        exact h.gone x (by grind [Family.apply])

end
end Bcap
