import DensoRobot.Common.Theorems.Elements
import DensoRobot.Common.Theorems.Integers

open HRESULT Bytes Variant

namespace Slots

section

variable (lib : Libc) {host : Host} (address : Nat → Nat) (owned : Nat → Bool) {vt : VarType}

-- Stores values one by one.
def fill (vt : VarType) (stride : Nat) : (pos : Nat) → List Variant → Region → Exec Region
  | _,   [],      dest => pure dest
  | pos, w :: ws, dest => do
    clearSlot owned vt pos dest
    fill vt stride (pos + stride) ws (dest.put pos (slotBytes address vt w))

variable (host vt) in
-- A value that was stored for an element.
structure Held (e w : Variant) : Prop where
  yields   : Yields lib host vt e w
  variant  : vt = .variant → w.bare = e.copied
  single   : vt ≠ .variant → w.Single vt

variable {src : Variant} {cbElements dwSize : Nat}

-- What is loaded for the elements from the one at `i` on.
def Loads (src : Variant) (i : Nat) (es : List (Option Variant)) : Prop :=
  ∀ (j : Nat) (v : Option Variant), es[j]? = some v →
    i + j < src.elements.length ∧ src.loaded (i + j) = v

theorem Loads.head {v : Option Variant} {es : List (Option Variant)} {i : Nat}
    (h : Loads src i (v :: es)) : i < src.elements.length ∧ src.loaded i = v :=
  h 0 v rfl

theorem Loads.tail {v : Option Variant} {es : List (Option Variant)} {i : Nat}
    (h : Loads src i (v :: es)) : Loads src (i + 1) es := by
  intro j v' hj
  rw [Nat.add_assoc, Nat.add_comm 1]
  exact h (j + 1) v' hj

-- The bytes of a value. Those of a `CY` are in the lower half of the member.
def content (w : Variant) : List UInt8 :=
  (w.member address).take 8

-- A slot of the destination holds a value.
def Holds (vt : VarType) (size : Nat) (m : Region) (i : Nat) (w : Variant) : Prop :=
  if vt = .variant then
    m.read (size * i) 2 = toLe 2 w.vt ∧
      m.read (size * i + 8) (content address w).length = content address w
  else
    m.read (size * i) (content address w).length = content address w

-- A byte of a slot that each value has.
def probe (vt : VarType) (size : Nat) : Nat :=
  match vt with
  | .variant => 8
  | .cy      => 7
  | _        => size / 2

theorem fill_stamp {stride pos : Nat} {ws : List Variant} {dest d : Region}
    (h : fill address owned vt stride pos ws dest = .ok d) :
    d = Region.stamp stride pos (ws.map (slotBytes address vt)) dest := by
  induction ws generalizing pos dest
  case nil =>
    cases h
    rfl
  case cons w ws ih =>
    obtain ⟨_, _, h⟩ := ok_of_bind h
    exact ih h

theorem fill_short {stride stride' pos : Nat} {ws : List Variant} {dest : Region}
    (h : ws.length < 2) :
    fill address owned vt stride pos ws dest = fill address owned vt stride' pos ws dest := by
  cases ws
  case nil => rfl
  case cons w ws =>
    cases ws
    case nil  => rfl
    case cons => exact absurd h (by simp)

end

section

variable (lib : Libc) (host : Host) (address : Nat → Nat) (owned : Nat → Bool)

-- The slots of a destination for variants hold ones that can be cleared.
def Ready (vt : VarType) (dwSize : Nat) (dest : Region) : Prop :=
  ∀ i < dwSize, clearSlot owned vt (24 * i) dest = .ok ()

-- The conversions of the first elements are in the first slots, and nothing is written behind all
-- of the slots.
structure Delivered (src : Variant) (vt : VarType) (size dwSize : Nat) (dest : Region)
    (f : Filled) : Prop where
  count : f.vals.length ≤ min src.elements.length dwSize
  slots : ∀ (i : Nat) (w : Variant), f.vals[i]? = some w → ∃ e, src.elements[i]? = some e ∧
    Converts lib host vt e w ∧ Holds address vt size f.dest i w
  rest  : ∀ j, size * dwSize ≤ j → f.dest j = dest j

-- `ChangeVarType` fills consecutive slots of each destination.
def FillsSlots (src : Variant) (vt : VarType) (size dwSize next : Nat) : Prop :=
  ∀ dest, Ready owned vt dwSize dest →
    ∃ f, changeVarType lib host address owned src vt dwSize dest next = .ok f ∧
      Delivered lib host address src vt size dwSize dest f

-- What is loaded for the elements that there are to the code, which counts them in an `int32_t`.
def examined (src : Variant) : List (Option Variant) :=
  (List.range (i32 src.elements.length).toNat).map src.loaded

-- What is loaded for the elements that the code looks at.
def lookedAt (src : Variant) (vt : VarType) (dwSize : Nat) : List (Option Variant) :=
  reached lib host vt dwSize (examined src)

-- The number of values that are stored.
def stored (src : Variant) (vt : VarType) (dwSize : Nat) : Nat :=
  (lookedAt lib host src vt dwSize).countP (converts lib host vt)

-- What is loaded for an element converts as the element does.
def Agrees (src : Variant) (vt : VarType) (dwSize : Nat) : Prop :=
  ∀ (i : Nat) (l e : Variant), (lookedAt lib host src vt dwSize)[i]? = some (some l) →
    convertible lib host vt l = true → src.elements[i]? = some e →
    ∃ w, Yields lib host vt l w ∧ Converts lib host vt e w

-- The values come to lie in their slots. Two of them that have 16 bytes and are stored 8 bytes
-- apart do if the upper half of the second one, which is in its slot, is the same as the lower
-- half.
inductive Spaced (src : Variant) (vt : VarType) (size dwSize : Nat) : Prop
  | even : elemSize src.base = some size → Spaced src vt size dwSize
  | few : stored lib host src vt dwSize < 2 → Spaced src vt size dwSize
  | halves (l : Variant) (val : Nat) : vt = .cy → elemSize src.base = some 8 →
      stored lib host src vt dwSize = 2 → (lookedAt lib host src vt dwSize)[1]? = some (some l) →
      Yields lib host vt l (.scalar .cy val) → val / 2 ^ 64 % 2 ^ 64 = val % 2 ^ 64 →
      Spaced src vt size dwSize

end

section

variable (lib : Libc) {host : Host} (address : Nat → Nat) (owned : Nat → Bool) {vt : VarType}
  {src : Variant} {size dwSize next : Nat}

theorem toNat_i32_le (n : Nat) : (i32 n).toNat ≤ n := by
  have hle : u32 n ≤ n := u32_le
  have h := i32_eq_or n
  omega

theorem length_examined : (examined src).length = (i32 src.elements.length).toNat := by
  rw [examined, List.length_map, List.length_range]

theorem loads_examined : Loads src 0 (examined src) := by
  intro j v hj
  obtain ⟨hlt, rfl⟩ := List.getElem?_eq_some_iff.mp hj
  rw [length_examined] at hlt
  rw [Nat.zero_add]
  refine ⟨Nat.lt_of_lt_of_le hlt (toNat_i32_le _), ?_⟩
  simp only [examined, List.getElem_map, List.getElem_range]

theorem reached_sublist : (room : Nat) → (es : List (Option Variant)) →
    (reached lib host vt room es).Sublist (es.take room)
  | 0,        _       => .slnil
  | _ + 1,    []      => .slnil
  | room + 1, v :: es => by
    rw [reached, List.take_succ_cons]
    apply List.Sublist.cons_cons
    split
    case isTrue  => exact reached_sublist room es
    case isFalse => exact List.nil_sublist _

theorem reached_prefix : (room : Nat) → (es : List (Option Variant)) →
    reached lib host vt room es <+: es
  | 0,        _       => List.nil_prefix
  | _ + 1,    []      => List.nil_prefix
  | room + 1, v :: es => by
    rw [reached]
    split
    case isTrue  => exact List.cons_prefix_cons.mpr ⟨rfl, reached_prefix room es⟩
    case isFalse => exact List.cons_prefix_cons.mpr ⟨rfl, List.nil_prefix⟩

-- Only the last of the elements that are looked at may not convert.
theorem lt_countP_reached {v : Option Variant} : (room : Nat) → (es : List (Option Variant)) →
    (i : Nat) → (reached lib host vt room es)[i]? = some v → converts lib host vt v = true →
    i < (reached lib host vt room es).countP (converts lib host vt)
  | 0,        _,       i, h, _  => by simp [reached] at h
  | _ + 1,    [],      i, h, _  => by simp [reached] at h
  | room + 1, u :: es, i, h, hv => by
    rw [reached] at h ⊢
    cases i
    case zero =>
      cases h
      exact List.countP_pos_iff.mpr ⟨v, List.mem_cons_self, hv⟩
    case succ i =>
      by_cases hu : converts lib host vt u = true
      case neg => simp [hu] at h
      case pos =>
        rw [if_pos hu] at h ⊢
        rw [List.countP_cons_of_pos hu]
        exact Nat.succ_lt_succ (lt_countP_reached room es i h hv)

theorem loaded_of_lookedAt {i : Nat} {v : Option Variant}
    (h : (lookedAt lib host src vt dwSize)[i]? = some v) :
    src.loaded i = v ∧ ∃ e, src.elements[i]? = some e := by
  obtain ⟨rest, hrest⟩ : lookedAt lib host src vt dwSize <+: examined src :=
    reached_prefix lib dwSize (examined src)
  have hlt := (List.getElem?_eq_some_iff.mp h).choose
  have hj : (examined src)[i]? = some v := by
    rw [← hrest, List.getElem?_append_left hlt]
    exact h
  have hload := loads_examined i v hj
  rw [Nat.zero_add] at hload
  exact ⟨hload.right, _, List.getElem?_eq_getElem hload.left⟩

-- A destination that is zero apart from one byte.
def marked (p : Nat) (c : UInt8) : Region :=
  fun j => if j = p then c else 0

theorem marked_ready (hv : vt.slotSize = some size) (i : Nat) (c : UInt8) :
    Ready owned vt dwSize (marked (size * i + probe vt size) c) := by
  intro k _
  by_cases hvt : vt = .variant
  case neg => exact if_neg hvt
  case pos =>
    subst hvt
    cases hv
    have h0 : ¬24 * k = 24 * i + 8 := by omega
    have h1 : ¬24 * k = 24 * i + 7 := by omega
    have hread : ((marked (24 * i + probe .variant 24) c).read (24 * k) 24).take 2 = [0, 0] := by
      simp [Region.read, marked, probe, List.range_succ, h0, h1]
    rw [clearSlot, if_pos rfl, clearImage, hread]
    rfl

variable (host vt src dwSize next) in
-- What the code stores when all elements that it looks at can be delivered: the values `ws`, each
-- `cb` bytes behind the one before it.
structure Fills (ws : List Variant) (cb next' : Nat) : Prop where
  count : ws.length = stored lib host src vt dwSize
  held  : ∀ (j : Nat) (w : Variant), ws[j]? = some w → ∃ l,
    (lookedAt lib host src vt dwSize)[j]? = some (some l) ∧ convertible lib host vt l = true ∧
      Held lib host vt l w
  size  : src.elements ≠ [] → elemSize src.base = some cb
  runs  : ∀ dest, changeVarType lib host address owned src vt dwSize dest next = do
    let dest ← fill address owned vt cb 0 ws dest
    return ⟨ws, dest, next'⟩

namespace Fills

variable {lib address owned} {ws : List Variant} {cb next' : Nat}

theorem loads (h : Fills lib host address owned vt src dwSize next ws cb next') {i : Nat}
    {w : Variant} (hw : ws[i]? = some w) : ∃ l, src.loaded i = some l ∧ Held lib host vt l w := by
  obtain ⟨l, hl, _, held⟩ := h.held i w hw
  exact ⟨l, (loaded_of_lookedAt lib hl).left, held⟩

theorem length_le (h : Fills lib host address owned vt src dwSize next ws cb next') :
    ws.length ≤ min src.elements.length dwSize := by
  have hsub : (lookedAt lib host src vt dwSize).Sublist ((examined src).take dwSize) :=
    reached_sublist lib dwSize (examined src)
  have hcount : ws.length ≤ (lookedAt lib host src vt dwSize).length :=
    h.count ▸ List.countP_le_length
  have htake := Nat.le_trans hcount hsub.length_le
  rw [List.length_take, length_examined] at htake
  have hexam := toNat_i32_le src.elements.length
  exact Nat.le_min.mpr
    ⟨Nat.le_trans (Nat.le_min.mp htake).right hexam, (Nat.le_min.mp htake).left⟩

-- What follows from the property for a destination.
theorem delivered (h : Fills lib host address owned vt src dwSize next ws cb next')
    (hf : FillsSlots lib host address owned src vt size dwSize next) {dest : Region}
    (hready : Ready owned vt dwSize dest) :
    Delivered lib host address src vt size dwSize dest
      ⟨ws, Region.stamp cb 0 (ws.map (slotBytes address vt)) dest, next'⟩ := by
  obtain ⟨f, hrun, hslots⟩ := hf dest hready
  rw [h.runs] at hrun
  obtain ⟨d, hfill, hrun⟩ := ok_of_bind hrun
  cases hrun
  exact fill_stamp address owned hfill ▸ hslots

theorem agrees (h : Fills lib host address owned vt src dwSize next ws cb next')
    (hv : vt.slotSize = some size)
    (hf : FillsSlots lib host address owned src vt size dwSize next) :
    Agrees lib host src vt dwSize := by
  intro i l e hl hc he
  have hi : i < ws.length := h.count ▸ lt_countP_reached lib _ _ i hl hc
  obtain ⟨l', hl', _, held⟩ := h.held i _ (List.getElem?_eq_getElem hi)
  cases Option.some.inj (Option.some.inj (hl.symm.trans hl'))
  have hslots := h.delivered hf (marked_ready owned hv 0 0)
  obtain ⟨e', he', hconv, _⟩ := hslots.slots i _ (List.getElem?_eq_getElem hi)
  cases he.symm.trans he'
  exact ⟨_, held.yields, hconv⟩

end Fills

end

end Slots
