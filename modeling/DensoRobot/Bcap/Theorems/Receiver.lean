import DensoRobot.Lib.Run
import DensoRobot.Bcap.Receiver
import DensoRobot.Bcap.Theorems.ObjectVector

open HRESULT

namespace Bcap

namespace ObjectVector

def Object.key (x : Object) : Int × Nat :=
  (x.id, x.hObj)

variable {s : ObjectVector} {xs : List Object} {x : Object} {p : Nat}

theorem Stacked.addr_ne (h : Stacked s xs) (hp : s.memory.cell p = none) :
    p ∉ xs.map Object.addr := by
  intro hm
  obtain ⟨x, hx, rfl⟩ := List.mem_map.mp hm
  obtain ⟨o, ho, -⟩ := h.holds x hx
  rw [hp] at ho
  cases ho

-- An object that is no longer in the vector can be freed.
theorem Stacked.freeObject (h : Stacked s xs) {o : VecObject} (hp : s.memory.cell p = some o)
    (hn : p ∉ xs.map Object.addr) :
    ∃ s', freeObject (some p) s = .ok s' ∧ Stacked s' xs := by
  obtain ⟨l, hl⟩ := h.linked
  let m : Memory VecObject := { s.memory.set p none with freed := p :: s.memory.freed }
  have hrun : Bcap.freeObject (some p) s = .ok { s with memory := m } := by
    simp only [Bcap.freeObject, Memory.free_eq hp, Exec.ok_bind]
    rfl
  have hcell : ∀ {q}, q ≠ p → m.cell q = s.memory.cell q := fun hq => Memory.cell_set_of_ne hq none
  have hne : ∀ {q}, q ∈ xs.map Object.addr → q ≠ p := fun hq he => hn (he ▸ hq)
  refine ⟨_, hrun, h.count, ⟨l, hl.frame fun q hq => hcell (hne hq)⟩, h.nodup, fun x hx => ?_⟩
  obtain ⟨o, ho, hobj⟩ := h.holds x hx
  exact ⟨o, (hcell <| hne <| List.mem_map_of_mem hx).trans ho, hobj⟩

theorem popVector_of_get {index : Int} (h : Stacked s xs) (hi : 0 ≤ index)
    (hx : xs[index.toNat]? = some x) :
    ∃ s', popVector index s = .ok (sOk, some x.addr, s') ∧ Stacked s' (xs.eraseIdx index.toNat) ∧
      s'.memory.cell x.addr = some ⟨x.id, x.hObj, none, none⟩ := by
  have hpop : Popped s xs index (popVector index s) := popVector_spec h
  generalize popVector index s = r at hpop
  cases hpop
  case missing hm =>
    obtain ⟨hlt, -⟩ := List.getElem?_eq_some_iff.mp hx
    exact absurd ⟨hi, by omega⟩ hm
  case removed y s' _ hy hst hcell =>
    cases hx.symm.trans hy
    exact ⟨s', rfl, hst, hcell⟩

-- An object that has been popped is none of those that are left.
theorem Stacked.popped_ne (h : Stacked s xs) {i : Nat} (hx : xs[i]? = some x) :
    x.addr ∉ (xs.eraseIdx i).map Object.addr := by
  obtain ⟨hi, rfl⟩ := List.getElem?_eq_some_iff.mp hx
  have hperm := (List.getElem_cons_eraseIdx_perm hi).map Object.addr
  exact (List.nodup_cons.mp <| hperm.nodup_iff.mpr h.nodup).1

theorem get_position {id : Int} {hObj : Nat} (h : 0 ≤ position id hObj xs) :
    ∃ x, xs[(position id hObj xs).toNat]? = some x := by
  rw [position] at h ⊢
  cases hf : xs.findIdx? fun x => x.id = id ∧ x.hObj = hObj
  case none   => rw [hf] at h; exact absurd h (by decide)
  case some i =>
    obtain ⟨hi, -⟩ := List.findIdx?_eq_some_iff_getElem.mp hf
    exact ⟨xs[i], List.getElem?_eq_getElem hi⟩

-- The position of an object is that of its key.
theorem map_key_eraseIdx (id : Int) (hObj : Nat) (xs : List Object) :
    (if 0 ≤ position id hObj xs then xs.eraseIdx (position id hObj xs).toNat else xs).map
      Object.key = (xs.map Object.key).erase (id, hObj) := by
  have hkey : (fun k : Int × Nat => k == (id, hObj)) ∘ Object.key =
      fun x => decide (x.id = id ∧ x.hObj = hObj) := by
    funext x
    exact Bool.eq_iff_iff.mpr (by simp [Object.key])
  rw [List.erase_eq_eraseP', List.eraseP_map, hkey, List.eraseP_eq_eraseIdx, position]
  cases xs.findIdx? fun x => decide (x.id = id ∧ x.hObj = hObj)
  case none   => rfl
  case some i => exact congrArg _ (if_pos (Int.natCast_nonneg i))

end ObjectVector

open ObjectVector

theorem releaseAll_spec (listed : Int → Bool) {s : ObjectVector} {xs : List Object} {fuel : Nat}
    (h : Stacked s xs) (hf : xs.length < fuel) :
    releaseAll listed fuel s = .ok ((xs.map Object.key).filter fun k => listed k.1) := by
  induction xs generalizing s fuel
  case nil =>
    obtain ⟨fuel, rfl⟩ := Nat.exists_eq_succ_of_ne_zero (Nat.ne_of_gt hf)
    have hpop : Popped s [] 0 (popVector 0 s) := popVector_spec h
    generalize hr : popVector 0 s = r at hpop
    cases hpop
    case missing      => simp only [releaseAll, hr, Exec.ok_bind]; rfl
    case removed hx _ _ => cases hx
  case cons x xs ih =>
    obtain ⟨fuel, rfl⟩ := Nat.exists_eq_succ_of_ne_zero (Nat.ne_of_gt (Nat.zero_lt_of_lt hf))
    obtain ⟨s₁, hpop, hst, hcell⟩ := popVector_of_get h (Int.le_refl 0) rfl
    obtain ⟨s₂, hfree, hst₂⟩ := hst.freeObject hcell (h.popped_ne rfl)
    have hrest := ih hst₂ (Nat.lt_of_succ_lt_succ hf)
    simp only [releaseAll, hpop, Exec.ok_bind, if_neg not_failed_sOk, Memory.load_eq hcell, hfree,
      hrest]
    rw [List.map_cons, List.filter_cons]
    rfl

theorem creatingIds_of_relationId {id relation : Int} (h : relationId id = .ok relation)
    (hr : 0 < relation) : id ∈ creatingIds := by
  have hall : ∀ i : Fin mapId.length, 0 < mapId.get i → ((i : Nat) : Int) ∈ creatingIds := by
    decide +kernel
  rw [relationId] at h
  split at h
  case isFalse => cases h
  case isTrue hid =>
    split at h
    case h_2 => cases h
    case h_1 hget =>
      cases h
      obtain ⟨hi, rfl⟩ := List.getElem?_eq_some_iff.mp hget
      have hmem := hall ⟨id.toNat, hi⟩ hr
      rwa [Int.toNat_of_nonneg hid] at hmem

namespace Receiver

variable {listed : Int → Bool} {s s' : Receiver} {a : Act} {p : Request} {response : Response}
  {e : Option (Entry (Int × Nat))}

theorem objectChange_cases (h : objectChange p response = .ok e) :
    e = none ∨
    (∃ relation hObj, relationId p.id = .ok relation ∧ 0 < relation ∧
      e = some (.take (relation, hObj))) ∨
    ∃ hObj, e = some (.give (p.id, hObj)) := by
  rw [objectChange] at h
  split at h
  case isFalse => cases h; exact .inl rfl
  case isTrue =>
    obtain ⟨relation, hr, h⟩ := ok_of_bind h
    split at h
    case isTrue hp => cases h; exact .inr <| .inl ⟨relation, _, hr, hp, rfl⟩
    case isFalse =>
      split at h
      case isFalse => cases h; exact .inl rfl
      case isTrue =>
        split at h
        case isTrue => cases h; exact .inr <| .inr ⟨_, rfl⟩
        case isFalse =>
          split at h
          case h_1 => cases h; exact .inr <| .inr ⟨_, rfl⟩
          case h_2 => cases h

theorem changes_eq (h : objectChange p response = .ok e) : changes p response = e.toList := by
  rw [changes, h]

-- What `changeObjects` does to a vector of the objects `xs`. Without memory for a new object, the
-- vector stays as it is.
structure Changed (xs : List Object) (pObj : Option Nat) (e : Option (Entry (Int × Nat)))
    (xs' : List Object) : Prop where
  from_xs : ∀ x ∈ xs', x ∈ xs ∨ ∃ hObj, e = some (.take (x.id, hObj))
  count   : (∀ key, e = some (.take key) → pObj ≠ none) → ∀ key,
    (xs'.map Object.key).count key =
      e.toList.foldl (Entry.tally key) ((xs.map Object.key).count key)

theorem Changed.refl {xs : List Object} {pObj : Option Nat} : Changed xs pObj none xs where
  from_xs _ hx := .inl hx
  count _ _    := rfl

theorem Changed.push {xs : List Object} {addr hObj : Nat} {id : Int} :
    Changed xs (some addr) (some (.take (id, hObj))) (⟨addr, id, hObj⟩ :: xs) where
  from_xs x hx := by
    cases List.mem_cons.mp hx
    case inl he => subst he; exact .inr ⟨hObj, rfl⟩
    case inr hx => exact .inl hx
  count _ key := by
    have hkey : (⟨addr, id, hObj⟩ :: xs).map Object.key = (id, hObj) :: xs.map Object.key := rfl
    rw [hkey, List.count_cons]
    simp only [Option.toList, List.foldl_cons, List.foldl_nil, Entry.tally]
    split <;> rfl

theorem Changed.pop {xs xs' : List Object} {pObj : Option Nat} {id : Int} {hObj : Nat}
    (hs : xs' ⊆ xs) (hk : xs'.map Object.key = (xs.map Object.key).erase (id, hObj)) :
    Changed xs pObj (some (.give (id, hObj))) xs' where
  from_xs x hx := .inl (hs hx)
  count _ key := by
    rw [hk, List.count_erase]
    simp only [Option.toList, List.foldl_cons, List.foldl_nil, Entry.tally]
    split <;> rfl

theorem changeObjects_spec {xs : List Object} {pObj : Option Nat} (hst : Stacked s.vector xs)
    (he : objectChange s.lastRecv s.lastSend = .ok e)
    (hroom : s.lastRecv.id ∈ creatingIds → s.vector.numObject < bcapObjectMax)
    (hfresh : ∀ p, pObj = some p → s.vector.memory.cell p = none) :
    ∃ vector xs', s.changeObjects pObj = .ok vector ∧ Stacked vector xs' ∧
      Changed xs pObj e xs' := by
  rw [changeObjects, he, Exec.ok_bind]
  obtain rfl | ⟨relation, hObj, hr, hpos, rfl⟩ | ⟨hObj, rfl⟩ := objectChange_cases he
  case inl => exact ⟨s.vector, xs, rfl, hst, .refl⟩
  case inr.inl =>
    cases pObj
    case none =>
      refine ⟨s.vector, xs, rfl, hst, fun x hx => .inl hx, fun hn => absurd rfl (hn _ rfl)⟩
    case some addr =>
      have hlt := hroom (creatingIds_of_relationId hr hpos)
      have hx : Object.addr ⟨addr, relation, hObj⟩ ∉ xs.map Object.addr :=
        hst.addr_ne (hfresh addr rfl)
      obtain ⟨vector, hpush, hst'⟩ := pushObject_spec hst hx hlt
      refine ⟨vector, _, ?_, hst', .push⟩
      simp only [hpush, Exec.ok_bind]
      rfl
  case inr.inr =>
    have hkey := map_key_eraseIdx s.lastRecv.id hObj xs
    simp only [searchVector_spec hst, Exec.ok_bind]
    split
    case isFalse hn =>
      rw [if_neg hn] at hkey
      exact ⟨s.vector, xs, rfl, hst, .pop (List.Subset.refl xs) hkey⟩
    case isTrue hi =>
      rw [if_pos hi] at hkey
      obtain ⟨x, hx⟩ := get_position hi
      obtain ⟨v, hpop, hst', hcell⟩ := popVector_of_get hst hi hx
      obtain ⟨vector, hfree, hst''⟩ := hst'.freeObject hcell (hst.popped_ne hx)
      refine ⟨vector, _, ?_, hst'', .pop (List.eraseIdx_subset ..) hkey⟩
      rw [hpop, Exec.ok_bind]
      exact hfree

-- What has been logged, but not been applied to the vector yet.
def pending (s : Receiver) : List (Entry (Int × Nat)) :=
  if s.phase = .waiting ∧ s.executing = false then changes s.lastRecv s.lastSend else []

-- A change is made while `receive_execute` waits for it, which then goes on to apply it with the
-- memory that it takes. Each created object has a callback that releases it.
def Kept (listed : Int → Bool) (s : Receiver) : Act → Prop
  | .complete result =>
    (s.phase = .waiting → ∃ e,
      objectChange s.lastRecv (bcapCallfunc listed s.lastRecv result s.lastSend) = .ok e) ∧
    (s.phase ≠ .waiting →
      changes s.lastRecv (bcapCallfunc listed s.lastRecv result s.lastSend) = [])
  | .wait t timeout turns pObj _ => s.executing = false → ∀ e ∈ changes s.lastRecv s.lastSend,
    (∃ hr, waitCompletion t timeout turns = some (.completed hr)) ∧
    ∀ id hObj, e = .take (id, hObj) → pObj ≠ none ∧ listed id
  | _ => True

structure Tracked (listed : Int → Bool) (s : Receiver) (xs : List Object)
    (log : List (Entry (Int × Nat))) : Prop where
  stacked : Stacked s.vector xs
  listed  : ∀ x ∈ xs, listed x.id
  logged  : s.log = log ++ s.pending
  count   : ∀ key, (xs.map Object.key).count key = Entry.balance log key
  room    : s.phase = .waiting → s.lastRecv.id ∈ creatingIds → s.vector.numObject < bcapObjectMax
  change  : s.phase = .waiting → s.executing = false →
    ∃ e, objectChange s.lastRecv s.lastSend = .ok e

def Booked (listed : Int → Bool) (s : Receiver) : Prop :=
  ∃ xs log, Tracked listed s xs log

theorem pending_of_not_waiting (h : s.phase ≠ .waiting) : s.pending = [] :=
  if_neg fun hw => h hw.1

theorem pending_of_executing (h : s.executing = true) : s.pending = [] :=
  if_neg fun hw => Bool.noConfusion (h.symm.trans hw.2)

-- A step that leaves the objects alone, and no change open.
theorem Tracked.idle {xs : List Object} {log : List (Entry (Int × Nat))}
    (h : Tracked listed s xs log)
    (hp : s.pending = []) (hv : s'.vector = s.vector) (hl : s'.log = s.log)
    (hph : s'.phase ≠ .waiting) : Tracked listed s' xs log where
  stacked := hv ▸ h.stacked
  listed  := h.listed
  logged  := by rw [hl, h.logged, hp, pending_of_not_waiting hph]
  count   := h.count
  room hw := absurd hw hph
  change hw := absurd hw hph

theorem returned_not_waiting (s : Receiver) (hr : HRESULT) : (s.returned hr).phase ≠ .waiting := by
  rw [returned]
  split <;> exact nofun

theorem Tracked.complete {xs : List Object} {log : List (Entry (Int × Nat))}
    (h : Tracked listed s xs log) (hx : s.executing = true) {result : Response}
    (ok : s.Kept listed (.complete result)) : Tracked listed (s.complete listed result) xs log := by
  have hp := pending_of_executing hx
  by_cases hw : s.phase = .waiting
  case pos =>
    have hpend : (s.complete listed result).pending =
        changes s.lastRecv (bcapCallfunc listed s.lastRecv result s.lastSend) := if_pos ⟨hw, rfl⟩
    have hlog : s.log = log := by rw [h.logged, hp, List.append_nil]
    exact { h with logged := by rw [hpend, ← hlog]; rfl, change := fun _ _ => ok.1 hw }
  case neg =>
    refine h.idle hp rfl ?_ hw
    rw [Receiver.complete, ok.2 hw, List.append_nil]

theorem Tracked.respond {xs : List Object} {log : List (Entry (Int × Nat))}
    (h : Tracked listed s xs log) {t timeout : Nat} {turns : List WaitTurn} {pObj : Option Nat}
    {bcapSend : HRESULT} {vector : ObjectVector} (hw : s.phase = .waiting)
    (hx : s.executing = false) (hfresh : ∀ p, pObj = some p → s.vector.memory.cell p = none)
    (hv : s.changeObjects pObj = .ok vector)
    (ok : s.Kept listed (.wait t timeout turns pObj bcapSend)) :
    Booked listed ({ s with vector := vector }.returned bcapSend) := by
  obtain ⟨e, he⟩ := h.change hw hx
  have hchanges := changes_eq he
  have hpend : s.pending = e.toList := hchanges ▸ if_pos ⟨hw, hx⟩
  obtain ⟨vector', xs', hv', hst, hc⟩ := changeObjects_spec h.stacked he (h.room hw) hfresh
  cases hv.symm.trans hv'
  have htake : ∀ id hObj, e = some (.take (id, hObj)) → pObj ≠ none ∧ listed id := by
    intro id hObj hid
    have hmem : .take (id, hObj) ∈ changes s.lastRecv s.lastSend := by
      rw [hchanges, hid]
      exact List.mem_singleton_self _
    exact (ok hx _ hmem).2 id hObj rfl
  have hph := returned_not_waiting { s with vector := vector } bcapSend
  refine ⟨xs', log ++ e.toList, hst, ?listed, ?logged, ?count, fun h => absurd h hph,
    fun h => absurd h hph⟩
  case listed =>
    intro x hx
    cases hc.from_xs x hx
    case inl hx => exact h.listed x hx
    case inr hx =>
      obtain ⟨hObj, hx⟩ := hx
      exact (htake x.id hObj hx).2
  case logged =>
    rw [pending_of_not_waiting hph, List.append_nil, ← hpend]
    exact h.logged
  case count =>
    intro key
    rw [Entry.balance_append, ← h.count key]
    exact hc.count (fun key hkey => (htake key.1 key.2 hkey).1) key

theorem Step.booked (st : Step listed s a s') (ok : s.Kept listed a) (h : Booked listed s) :
    Booked listed s' := by
  obtain ⟨xs, log, h⟩ := h
  cases st
  case refuse hr hi _ =>
    have hp := pending_of_not_waiting (by rw [hi]; exact nofun)
    exact ⟨xs, log, h.idle hp rfl rfl (returned_not_waiting s hr)⟩
  case accept p hr hi hx _ hroom =>
    have hp := pending_of_not_waiting (by rw [hi]; exact nofun)
    refine ⟨xs, log, ?_⟩
    rw [Receiver.accept]
    split
    case isTrue =>
      have hlog : s.log = log := by rw [h.logged, hp, List.append_nil]
      exact { h with
        logged   := by rw [pending_of_executing rfl, List.append_nil]; exact hlog
        room _   := hroom
        change _ := nofun }
    case isFalse => exact h.idle hp rfl rfl (returned_not_waiting _ hr)
  case complete result hx => exact ⟨xs, log, h.complete hx ok⟩
  case respond t timeout turns pObj bcapSend vector hw hx _ hfresh hv =>
    exact h.respond hw hx hfresh hv ok
  case abandon t timeout turns pObj bcapSend w hw hc hn =>
    refine ⟨xs, log, h.idle ?_ rfl rfl (returned_not_waiting s w.hr)⟩
    rw [pending]
    split
    case isFalse => rfl
    case isTrue hx =>
      refine List.eq_nil_iff_forall_not_mem.mpr fun e he => ?_
      obtain ⟨hr, hcompleted⟩ := (ok hx.2 e he).1
      exact hn hr (Option.some.inj (hc.symm.trans hcompleted))
  case terminate hi =>
    have hp := pending_of_not_waiting (by rw [hi]; exact nofun)
    exact ⟨xs, log, h.idle hp rfl rfl nofun⟩
  case drop hl hx =>
    have hp := pending_of_executing hx
    exact ⟨xs, log, h.idle hp rfl rfl (by rw [hl]; exact nofun)⟩

theorem tracked_start (memory : Memory VecObject) : Tracked listed (start memory) [] [] where
  stacked  := stacked_start memory
  listed   := nofun
  logged   := rfl
  count _  := rfl
  room     := nofun
  change h := nomatch h

-- In a run in which all changes are kept, `receive_execute` can apply each of them, and the exit
-- loop releases the objects that were created and not released.
theorem released_of_kept {memory : Memory VecObject} {steps : List (Receiver × Act)}
    (r : Run (Step listed) (start memory) steps s) (ok : ∀ p ∈ steps, p.1.Kept listed p.2) :
    (s.phase = .waiting → s.executing = false → ∀ pObj,
      (∀ p, pObj = some p → s.vector.memory.cell p = none) →
      ∃ vector, s.changeObjects pObj = .ok vector) ∧
    (s.phase = .leaving → s.executing = false → ∃ calls,
      releaseAll listed (s.vector.numObject.toNat + 1) s.vector = .ok calls ∧
      ∀ key, calls.count key = Entry.balance s.log key) := by
  have booked : Booked listed (start memory) := ⟨[], [], tracked_start memory⟩
  obtain ⟨xs, log, h⟩ := r.preserves (fun st ok h => st.booked ok h) ok booked
  constructor
  case left =>
    intro hw hx pObj hfresh
    obtain ⟨e, he⟩ := h.change hw hx
    obtain ⟨vector, -, hv, -⟩ := changeObjects_spec h.stacked he (h.room hw) hfresh
    exact ⟨vector, hv⟩
  case right =>
    intro hl _
    have hfuel : xs.length < s.vector.numObject.toNat + 1 := by
      rw [h.stacked.count, Int.toNat_natCast]
      exact Nat.lt_succ_self _
    refine ⟨_, releaseAll_spec listed h.stacked hfuel, fun key => ?_⟩
    have hall : ∀ k ∈ xs.map Object.key, listed k.1 := List.forall_mem_map.mpr h.listed
    rw [List.filter_eq_self.mpr hall, h.count, h.logged,
      pending_of_not_waiting (by rw [hl]; exact nofun), List.append_nil]

-- A service and a controller are created, and released when the thread ends.
theorem connected_released :
    ∃ steps s, Run (Step fun _ => true) (start ⟨fun _ => none, 0, []⟩) steps s ∧
      Entry.balance s.log (idControllerDisconnect, 7) = 1 ∧ ∃ calls,
      releaseAll (fun _ => true) (s.vector.numObject.toNat + 1) s.vector = .ok calls ∧
      ∀ key, calls.count key = Entry.balance s.log key := by
  have r : Run (Step fun _ => true) (start ⟨fun _ => none, 0, []⟩) _ _ :=
    .cons (a := .accept ⟨idServiceStart, some 0⟩ sOk)
      (.accept rfl rfl (fun _ => rfl) fun _ => by decide) <|
    .cons (a := .complete ⟨sOk, 0⟩) (.complete rfl) <|
    .cons (a := .wait 0 80 [⟨sOk, sOk, 0⟩] (some 4) sOk)
      (.respond rfl rfl rfl (fun _ _ => rfl) rfl) <|
    .cons (a := .accept ⟨idControllerConnect, some 0⟩ sOk)
      (.accept rfl rfl (fun _ => rfl) fun _ => by decide) <|
    .cons (a := .complete ⟨sOk, 7⟩) (.complete rfl) <|
    .cons (a := .wait 0 80 [⟨sOk, sOk, 0⟩] (some 8) sOk)
      (.respond rfl rfl rfl (by rintro _ ⟨⟩; rfl) rfl) <|
    .cons (a := .terminate) (.terminate rfl) .nil
  refine ⟨_, _, r, rfl, released_of_kept r ?_ |>.2 rfl rfl⟩
  simp only [List.forall_mem_cons]
  refine ⟨trivial, ?service, ?kept, trivial, ?controller, ?kept', trivial, nofun⟩
  case service    => exact ⟨fun _ => ⟨_, rfl⟩, fun hw => absurd rfl hw⟩
  case controller => exact ⟨fun _ => ⟨_, rfl⟩, fun hw => absurd rfl hw⟩
  all_goals
    rintro - e he
    cases List.mem_singleton.mp he
    exact ⟨⟨sOk, rfl⟩, fun _ _ _ => ⟨nofun, rfl⟩⟩

-- The callback of a request takes longer than the client has set, and creates a controller.
theorem lateController_forgotten :
    ¬∀ listed memory steps s, Run (Step listed) (start memory) steps s → s.phase = .leaving →
      s.executing = false → ∃ calls,
      releaseAll listed (s.vector.numObject.toNat + 1) s.vector = .ok calls ∧
      ∀ key, calls.count key = Entry.balance s.log key := by
  have r : Run (Step fun _ => true) (start ⟨fun _ => none, 0, []⟩) _ _ :=
    .cons (a := .accept ⟨idServiceStart, some 0⟩ sOk)
      (.accept rfl rfl (fun _ => rfl) fun _ => by decide) <|
    .cons (a := .complete ⟨sOk, 0⟩) (.complete rfl) <|
    .cons (a := .wait 0 80 [⟨sOk, sOk, 0⟩] (some 4) sOk)
      (.respond rfl rfl rfl (fun _ _ => rfl) rfl) <|
    .cons (a := .accept ⟨idControllerConnect, some 0⟩ sOk)
      (.accept rfl rfl (fun _ => rfl) fun _ => by decide) <|
    .cons (a := .wait 0 80 [⟨eTimeout, sOk, 100⟩] none sOk)
      (.abandon (w := .timedOut) rfl rfl nofun) <|
    .cons (a := .complete ⟨sOk, 7⟩) (.complete rfl) <|
    .cons (a := .terminate) (.terminate rfl) .nil
  intro h
  obtain ⟨calls, hcalls, hcount⟩ := h _ _ _ _ r rfl rfl
  cases hcalls
  exact absurd (hcount (idControllerDisconnect, 7)) (by decide)

end Receiver
end Bcap
