import DensoRobot.Lib.Run
import DensoRobot.Bcap.ObjectVector

open HRESULT Links

namespace Bcap

namespace ObjectVector

-- A created object and where it is.
structure Object where
  addr : Nat
  id   : Int
  hObj : Nat

abbrev Linked (m : Memory VecObject) :=
  Seg VecObject.prev VecObject.next m.cell

def Holds (m : Memory VecObject) (x : Object) : Prop :=
  ∃ o, m.cell x.addr = some o ∧ o.id = x.id ∧ o.hObj = x.hObj

-- The vector is a doubly linked list of the objects, the newest first.
structure Stacked (s : ObjectVector) (xs : List Object) : Prop where
  count  : s.numObject = xs.length
  linked : ∃ l, Linked s.memory none s.stack (xs.map Object.addr) l none
  nodup  : (xs.map Object.addr).Nodup
  holds  : ∀ x ∈ xs, Holds s.memory x

-- One memory differs from another one at most in the links of some objects.
structure Relinked (touched : List Nat) (m m' : Memory VecObject) : Prop where
  frame : ∀ {p}, p ∉ touched → m'.cell p = m.cell p
  data  : ∀ p, (m'.cell p).map (fun o => (o.id, o.hObj)) = (m.cell p).map fun o => (o.id, o.hObj)

section

variable {m m' m'' : Memory VecObject} {ps qs : List Nat} {x : Object} {p : Nat} {o : VecObject}

theorem Relinked.refl : Relinked ps m m :=
  ⟨fun _ => rfl, fun _ => rfl⟩

theorem Relinked.trans (h : Relinked ps m m') (h' : Relinked qs m' m'') :
    Relinked (ps ++ qs) m m'' where
  frame hp := by
    rw [List.mem_append, not_or] at hp
    rw [h'.frame hp.right, h.frame hp.left]
  data p := by rw [h'.data, h.data]

theorem Relinked.set {o' : VecObject} (h : m.cell p = some o) (hid : o'.id = o.id)
    (hobj : o'.hObj = o.hObj) : Relinked [p] m (m.set p (some o')) where
  frame hp := Memory.cell_set_of_ne (fun he => hp (List.mem_singleton.mpr he)) _
  data  := Memory.map_cell_set h (by rw [hid, hobj])

theorem Relinked.holds (h : Relinked ps m m') : Holds m x → Holds m' x := by
  rintro ⟨o, ho, hid, hobj⟩
  have hd := h.data x.addr
  rw [ho, Option.map_some] at hd
  obtain ⟨o', ho', he⟩ := Option.map_eq_some_iff.mp hd
  exact ⟨o', ho', (congrArg Prod.fst he).trans hid, (congrArg Prod.snd he).trans hobj⟩

-- The objects behind one that is removed or put in front of them.
theorem relink_later (b' : Option Nat) {b q l : Option Nat} (hs : Linked m b q qs l none)
    (hnd : qs.Nodup) : ∃ m' l', m.modifyIf q (fun o => { o with next := b' }) = .ok m' ∧
      Linked m' b' q qs l' none ∧ Relinked qs m m' := by
  cases hs
  case nil => exact ⟨m, b', rfl, .nil, .refl⟩
  case cons x n xs hn hp hs =>
    have hx : x ∉ xs := (List.nodup_cons.mp hnd).left
    refine ⟨_, l, Memory.modify_eq hn, ?_, ?_⟩
    · exact Seg.setPrev (.cons hn hp hs) hx hn rfl
    · have hset : Relinked [x] m (m.set x (some { n with next := b' })) := .set hn rfl rfl
      exact ⟨fun h => hset.frame fun hm =>
        h (List.mem_singleton.mp hm ▸ List.mem_cons_self ..), hset.data⟩

-- The objects in front of one that is removed. If there are any, the top of the stack stays.
theorem relink_earlier (q' : Option Nat) {p q l : Option Nat} (hs : Linked m none p ps l q)
    (hnd : ps.Nodup) :
    ∃ m', m.modifyIf l (fun o => { o with prev := q' }) = .ok m' ∧
      Linked m' none (if l = none then q' else p) ps l q' ∧ Relinked ps m m' := by
  cases List.eq_nil_or_concat ps
  case inl h =>
    subst h
    cases hs
    exact ⟨m, rfl, .nil, .refl⟩
  case inr h =>
    obtain ⟨xs, x, h⟩ := h
    subst h
    rw [List.concat_eq_append] at hs hnd ⊢
    obtain ⟨n, hn, _, hend⟩ := hs.middle
    have hl : l = some x := hend.last_eq
    subst hl
    have hx : x ∉ xs :=
      fun h => (List.nodup_append.mp hnd).right.right x h x (List.mem_singleton_self x) rfl
    refine ⟨_, Memory.modify_eq hn, ?_, ?_⟩
    · exact Seg.setNext hs hx hn rfl
    · have hset : Relinked [x] m (m.set x (some { n with prev := q' })) := .set hn rfl rfl
      exact ⟨fun h => hset.frame fun hm => h (List.mem_append_right _ hm), hset.data⟩

end

section

variable {s s' : ObjectVector} {xs ys : List Object} {x : Object}

theorem Stacked.top_eq (h : Stacked s xs) : s.stack = (xs.map Object.addr).head? := by
  obtain ⟨l, hl⟩ := h.linked
  rw [hl.first_eq, Option.or_none]

-- The vector without its object `x`, and `x` without its neighbours.
theorem unlinkObject_spec (h : Stacked s (ys ++ x :: xs)) :
    ∃ s', unlinkObject x.addr s = .ok s' ∧ Stacked s' (ys ++ xs) ∧
      s'.memory.cell x.addr = some ⟨x.id, x.hObj, none, none⟩ := by
  obtain ⟨l, hl⟩ := h.linked
  have hnd := h.nodup
  rw [List.map_append, List.map_cons] at hl hnd
  generalize hps : ys.map Object.addr = ps at hl hnd
  generalize hqs : xs.map Object.addr = qs at hl hnd
  obtain ⟨n, hn, hs₁, hs₂⟩ := hl.middle
  obtain ⟨o, ho, hid, hobj⟩ := h.holds x (List.mem_append_right _ (List.mem_cons_self ..))
  cases hn.symm.trans ho
  obtain ⟨hnp, hnxq, hdisj⟩ := List.nodup_append.mp hnd
  obtain ⟨hxq, hnq⟩ := List.nodup_cons.mp hnxq
  have hxp : x.addr ∉ ps := fun hm => hdisj _ hm _ (List.mem_cons_self ..) rfl
  -- the object loses its neighbours
  let m₁ := s.memory.set x.addr (some { n with next := none })
  let m₂ := m₁.set x.addr (some { n with next := none, prev := none })
  have hset₁ : Relinked [x.addr] s.memory m₁ := .set hn rfl rfl
  have hset₂ : Relinked [x.addr] m₁ m₂ := .set (Memory.cell_set_self ..) rfl rfl
  have hrel₂ : Relinked ([x.addr] ++ [x.addr]) s.memory m₂ := hset₁.trans hset₂
  have hmem : ∀ {q}, q ≠ x.addr → q ∉ [x.addr] ++ [x.addr] := fun hq hm => by simp [hq] at hm
  -- and the neighbours are linked with each other
  have hs₁' : Linked m₂ none s.stack ps n.next (some x.addr) :=
    hs₁.frame fun q hq => hrel₂.frame (hmem fun he => hxp (he ▸ hq))
  obtain ⟨m₃, hm₃, hs₃, hrel₃⟩ := relink_earlier n.prev hs₁' hnp
  have hs₂' : Linked m₃ (some x.addr) n.prev qs l none := by
    refine hs₂.frame fun q hq => ?_
    rw [hrel₃.frame fun hm => hdisj q hm q (List.mem_cons_of_mem _ hq) rfl]
    exact hrel₂.frame (hmem fun he => hxq (he ▸ hq))
  obtain ⟨m₄, l', hm₄, hs₄, hrel₄⟩ := relink_later n.next hs₂' hnq
  have hs₃' : Linked m₄ none (if n.next = none then n.prev else s.stack) ps n.next n.prev :=
    hs₃.frame fun q hq => hrel₄.frame fun hm => hdisj q hq q (List.mem_cons_of_mem _ hm) rfl
  have hrel : Relinked _ s.memory m₄ := (hrel₂.trans hrel₃).trans hrel₄
  refine ⟨⟨s.numObject - 1, if n.next = none then n.prev else s.stack, m₄⟩, ?run,
    ⟨?count, ⟨l', ?linked⟩, ?nodup, ?holds⟩, ?detached⟩
  case run =>
    simp only [unlinkObject, Memory.load_eq hn, Exec.ok_bind, Memory.modify_eq hn]
    rw [Memory.load_eq (Memory.cell_set_self ..)]
    simp only [Exec.ok_bind]
    rw [Memory.modify_eq (Memory.cell_set_self ..)]
    simp only [Exec.ok_bind]
    rw [hm₃]
    simp only [Exec.ok_bind]
    rw [hm₄]
    rfl
  case count =>
    have hc := h.count
    simp only [List.length_append, List.length_cons] at hc ⊢
    omega
  case linked =>
    rw [List.map_append, hps, hqs]
    exact hs₃'.append hs₄
  case nodup =>
    rw [List.map_append, hps, hqs]
    exact hnd.sublist ((List.sublist_cons_self x.addr qs).append_left ps)
  case holds =>
    intro y hy
    refine hrel.holds (h.holds y ?_)
    cases List.mem_append.mp hy
    case inl hy => exact List.mem_append_left _ hy
    case inr hy => exact List.mem_append_right _ (List.mem_cons_of_mem _ hy)
  case detached =>
    rw [hrel₄.frame hxq, hrel₃.frame hxp, Memory.cell_set_self, hid, hobj]

-- The node of an object, and the pointer to the next older one.
theorem Stacked.node (h : Stacked s (ys ++ x :: xs)) : ∃ o, s.memory.cell x.addr = some o ∧
    o.id = x.id ∧ o.hObj = x.hObj ∧ o.prev = (xs.map Object.addr).head? := by
  obtain ⟨l, hl⟩ := h.linked
  rw [List.map_append, List.map_cons] at hl
  obtain ⟨n, hn, _, hs⟩ := hl.middle
  obtain ⟨o, ho, hid, hobj⟩ := h.holds x (List.mem_append_right _ (List.mem_cons_self ..))
  cases hn.symm.trans ho
  exact ⟨n, hn, hid, hobj, hs.first_eq.trans (Option.or_none ..)⟩

end

-- What `pop_vector` does for a vector of the objects `xs`.
inductive Popped (s : ObjectVector) (xs : List Object) (index : Int) :
    Exec (HRESULT × Option Nat × ObjectVector) → Prop
  | missing : ¬(0 ≤ index ∧ index < xs.length) → Popped s xs index (.ok (eHandle, none, s))
  | removed {x : Object} {s' : ObjectVector} : 0 ≤ index → xs[index.toNat]? = some x →
      Stacked s' (xs.eraseIdx index.toNat) →
      s'.memory.cell x.addr = some ⟨x.id, x.hObj, none, none⟩ →
      Popped s xs index (.ok (sOk, some x.addr, s'))

-- The position of the first object with an ID and a handle.
def position (id : Int) (hObj : Nat) (xs : List Object) : Int :=
  ((xs.findIdx? fun x => x.id = id ∧ x.hObj = hObj).map Int.ofNat).getD (-1)

theorem position_cons (id : Int) (hObj : Nat) (x : Object) (xs : List Object) :
    position id hObj (x :: xs) =
      if x.id = id ∧ x.hObj = hObj then 0
      else if position id hObj xs = -1 then -1
      else position id hObj xs + 1 := by
  split
  case isTrue he =>
    rw [position, List.findIdx?_cons, if_pos (decide_eq_true he)]
    rfl
  case isFalse hne =>
    rw [position, List.findIdx?_cons, if_neg fun h => hne (of_decide_eq_true h), Option.map_map]
    split
    case isTrue hp  =>
      revert hp
      rw [position]
      cases xs.findIdx? fun x => x.id = id ∧ x.hObj = hObj
      case none   => exact fun _ => rfl
      case some k =>
        intro hk
        have hk : (k : Int) = -1 := hk
        omega
    case isFalse hp =>
      revert hp
      rw [position]
      cases xs.findIdx? fun x => x.id = id ∧ x.hObj = hObj
      case none   => exact fun hp => absurd rfl hp
      case some k => exact fun _ => rfl

theorem neg_one_le_position (id : Int) (hObj : Nat) (xs : List Object) :
    -1 ≤ position id hObj xs := by
  rw [position]
  cases xs.findIdx? fun x => x.id = id ∧ x.hObj = hObj
  case none   => exact Int.le_refl _
  case some k => exact Int.le_trans (by decide) (Int.natCast_nonneg k)

section

variable {s s' : ObjectVector} {xs ys : List Object} {x : Object} {index : Int}

-- The objects `ys` were passed.
theorem popFrom_spec (h : Stacked s (ys ++ xs)) (hi : ¬(0 ≤ index ∧ index < ys.length)) :
    Popped s (ys ++ xs) index
      (popFrom index s xs.length ys.length (xs.map Object.addr).head?) := by
  induction xs generalizing ys
  case nil =>
    rw [List.append_nil]
    exact .missing hi
  case cons x xs ih =>
    simp only [List.length_cons, List.map_cons, List.head?_cons, popFrom]
    split
    case isTrue he =>
      obtain ⟨s', hs', hst, hcell⟩ := unlinkObject_spec h
      have hn : index.toNat = ys.length := by rw [← he, Int.toNat_natCast]
      have hget : (ys ++ x :: xs)[index.toNat]? = some x := by simp [hn]
      have herase : (ys ++ x :: xs).eraseIdx index.toNat = ys ++ xs := by
        rw [hn, List.eraseIdx_append_of_length_le (Nat.le_refl _), Nat.sub_self,
          List.eraseIdx_cons_zero]
      rw [hs']
      exact .removed (he ▸ Int.natCast_nonneg _) hget (herase ▸ hst) hcell
    case isFalse hne =>
      obtain ⟨o, ho, _, _, hprev⟩ := h.node
      have hnext : ¬(0 ≤ index ∧ index < (ys ++ [x]).length) := by
        rw [List.length_append, List.length_singleton]
        omega
      have happ : Stacked s ((ys ++ [x]) ++ xs) := by rwa [List.append_assoc]
      have hrest := ih happ hnext
      rw [List.append_assoc, List.length_append, List.length_singleton] at hrest
      rw [Memory.load_eq ho, Exec.ok_bind, hprev]
      exact hrest

theorem popVector_spec (h : Stacked s xs) : Popped s xs index (popVector index s) := by
  have hi : ¬(0 ≤ index ∧ index < ([] : List Object).length) := by
    rw [List.length_nil]
    omega
  have hpop : Popped s ([] ++ xs) index _ := popFrom_spec h hi
  rwa [popVector, h.count, Int.toNat_natCast, h.top_eq]

theorem searchFrom_spec (id : Int) (hObj : Nat) (h : Stacked s (ys ++ xs)) (i : Int) :
    searchFrom id hObj s.memory xs.length i (xs.map Object.addr).head? =
      .ok (if position id hObj xs = -1 then -1 else i + position id hObj xs) := by
  induction xs generalizing ys i
  case nil => rfl
  case cons x xs ih =>
    obtain ⟨o, ho, hid, hobj, hprev⟩ := h.node
    simp only [List.length_cons, List.map_cons, List.head?_cons, searchFrom, Memory.load_eq ho,
      Exec.ok_bind, hid, hobj]
    split
    case isTrue he =>
      have hpos : position id hObj (x :: xs) = 0 := by rw [position_cons, if_pos he]
      rw [hpos, Int.add_zero]
      rfl
    case isFalse hne =>
      have happ : Stacked s ((ys ++ [x]) ++ xs) := by rwa [List.append_assoc]
      have hrest := ih happ (i + 1)
      rw [hprev, hrest, position_cons, if_neg hne]
      split
      case isTrue     => rfl
      case isFalse hp =>
        have hp' : ¬position id hObj xs + 1 = -1 := fun he => by
          have hn := neg_one_le_position id hObj xs
          omega
        rw [if_neg hp', Int.add_assoc, Int.add_comm 1]

theorem searchVector_spec (h : Stacked s xs) (id : Int) (hObj : Nat) :
    searchVector id hObj s = .ok (position id hObj xs) := by
  have happ : Stacked s ([] ++ xs) := h
  have hs := searchFrom_spec id hObj happ 0
  rw [searchVector, h.count, Int.toNat_natCast, h.top_eq, hs]
  split
  case isTrue he => rw [he]
  case isFalse   => rw [Int.zero_add]

theorem pushObject_spec (h : Stacked s xs) (hx : x.addr ∉ xs.map Object.addr)
    (hroom : s.numObject < bcapObjectMax) :
    ∃ s', pushObject x.addr x.id x.hObj s = .ok (sOk, s') ∧ Stacked s' (x :: xs) := by
  obtain ⟨l, hl⟩ := h.linked
  let n : VecObject := ⟨x.id, x.hObj, none, none⟩
  let m₁ := s.memory.set x.addr (some n)
  let m₂ := m₁.set x.addr (some { n with prev := s.stack })
  have hframe : ∀ {q}, q ≠ x.addr → m₂.cell q = s.memory.cell q := fun hq =>
    (Memory.cell_set_of_ne hq _).trans (Memory.cell_set_of_ne hq _)
  have hne : ∀ {q}, q ∈ xs.map Object.addr → q ≠ x.addr := fun hq he => hx (he ▸ hq)
  have hl₂ : Linked m₂ none s.stack (xs.map Object.addr) l none :=
    hl.frame fun q hq => hframe (hne hq)
  obtain ⟨m₃, l', hm₃, hl₃, hrel⟩ := relink_later (some x.addr) hl₂ h.nodup
  have hcell : m₃.cell x.addr = some { n with prev := s.stack } := by
    rw [hrel.frame hx, Memory.cell_set_self]
  refine ⟨⟨s.numObject + 1, some x.addr, m₃⟩, ?run, ?count, ⟨l', ?linked⟩, ?nodup, ?holds⟩
  case run =>
    simp only [pushObject, pushVector, if_neg (Int.not_le.mpr hroom)]
    rw [Memory.modify_eq (Memory.cell_set_self ..)]
    simp only [Exec.ok_bind]
    rw [hm₃]
    rfl
  case count =>
    have hc := h.count
    simp only [List.length_cons] at hc ⊢
    omega
  case linked =>
    rw [List.map_cons]
    exact .cons hcell rfl hl₃
  case nodup =>
    rw [List.map_cons]
    exact List.nodup_cons.mpr ⟨hx, h.nodup⟩
  case holds =>
    intro y hy
    cases List.mem_cons.mp hy
    case inl he => exact ⟨_, he ▸ hcell, he ▸ rfl, he ▸ rfl⟩
    case inr hy =>
      obtain ⟨o, ho, hid, hobj⟩ := h.holds y hy
      have ho₂ := (hframe (hne (List.mem_map_of_mem hy))).trans ho
      exact hrel.holds ⟨o, ho₂, hid, hobj⟩

end

inductive VecCall
  | push (x : Object)
  | pop (index : Int)

-- The calls for a vector, next to the objects that were pushed and not popped.
inductive VecStep : ObjectVector × List Object → VecCall → ObjectVector × List Object → Prop
  | push {s s' : ObjectVector} {xs : List Object} {x : Object} {hr : HRESULT} :
      x.addr ∉ xs.map Object.addr → s.numObject < bcapObjectMax →
      pushObject x.addr x.id x.hObj s = .ok (hr, s') → VecStep (s, xs) (.push x) (s', x :: xs)
  | pop {s s' : ObjectVector} {xs : List Object} {i : Int} {hr : HRESULT} {pObj : Option Nat} :
      popVector i s = .ok (hr, pObj, s') →
      VecStep (s, xs) (.pop i) (s', if 0 ≤ i then xs.eraseIdx i.toNat else xs)

section

variable {p p' : ObjectVector × List Object} {c : VecCall} {steps : List _}

theorem stacked_step (h : VecStep p c p') (hp : Stacked p.1 p.2) : Stacked p'.1 p'.2 := by
  cases h
  case push hx hroom he =>
    obtain ⟨s'', hs, hst⟩ := pushObject_spec hp hx hroom
    cases hs.symm.trans he
    exact hst
  case pop s s' xs index hr pObj he =>
    have hpop : Popped s xs index (.ok (hr, pObj, s')) := he ▸ popVector_spec hp
    cases hpop
    case removed hi _ hst _ =>
      rw [if_pos hi]
      exact hst
    case missing hi =>
      split
      case isFalse     => exact hp
      case isTrue hpos =>
        have hlen : xs.length ≤ index.toNat := by omega
        rw [List.eraseIdx_of_length_le hlen]
        exact hp

theorem stacked_start (m : Memory VecObject) : Stacked ⟨0, none, m⟩ [] :=
  ⟨rfl, ⟨none, .nil⟩, List.nodup_nil, fun _ h => absurd h List.not_mem_nil⟩

def Faithful (p : ObjectVector × List Object) : Prop :=
  Stacked p.1 p.2

theorem faithful_run (r : Run VecStep p steps p') (hp : Faithful p) : Faithful p' := by
  have keep : ∀ {p c p'}, VecStep p c p' → True → Faithful p → Faithful p' :=
    fun h _ => stacked_step h
  exact r.preserves keep (fun _ _ => trivial) hp

variable {m : Memory VecObject} {s : ObjectVector} {xs : List Object}

theorem objects_of_run (r : Run VecStep (⟨0, none, m⟩, []) steps (s, xs)) :
    Stacked s xs ∧
    (∀ x : Object, x.addr ∉ xs.map Object.addr → s.numObject < bcapObjectMax →
      ∃ s', pushObject x.addr x.id x.hObj s = .ok (sOk, s') ∧ Stacked s' (x :: xs)) ∧
    (∀ index, Popped s xs index (popVector index s)) ∧
    ∀ id hObj, searchVector id hObj s = .ok (position id hObj xs) := by
  have hs : Stacked s xs := faithful_run r (stacked_start m)
  exact ⟨hs, fun _ => pushObject_spec hs, fun _ => popVector_spec hs, searchVector_spec hs⟩

end

-- Two objects are pushed, and the older one is popped.
theorem push_push_pop : ∃ s, Stacked s [⟨8, 3, 20⟩] ∧ s.numObject = 1 ∧
    searchVector 3 20 s = .ok 0 := by
  have r : Run VecStep (⟨0, none, ⟨fun _ => none, 0, []⟩⟩, []) _ (_, [⟨8, 3, 20⟩]) :=
    .cons (VecStep.push (x := ⟨4, 3, 10⟩) List.not_mem_nil (by decide) rfl) <|
    .cons (VecStep.push (x := ⟨8, 3, 20⟩) (by decide) (by decide) rfl) <|
    .cons (.pop (i := 1) rfl) .nil
  exact ⟨_, (objects_of_run r).left, rfl, (objects_of_run r).right.right.right 3 20⟩

end ObjectVector
end Bcap
