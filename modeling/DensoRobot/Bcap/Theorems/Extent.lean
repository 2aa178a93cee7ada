import DensoRobot.Bcap.Extent
import DensoRobot.Bcap.Theorems.Decode

open HRESULT Bytes

-- The memory that can be released.

-- Exactly the blocks from `lo` up to `hi` may be released, and each of them once at most.
def Owned (lo hi : Nat) (r : Exec (List Nat)) : Prop :=
  lo ≤ hi ∧ ∃ blocks, r = .ok blocks ∧ blocks.Nodup ∧ ∀ b ∈ blocks, lo ≤ b ∧ b < hi

namespace Owned

variable {lo mid hi : Nat} {r s : Exec (List Nat)}

theorem nil (h : lo ≤ hi) : Owned lo hi (.ok []) :=
  ⟨h, [], rfl, List.nodup_nil, by simp⟩

theorem single {n : Nat} (h : n < hi) : Owned n hi (.ok [n]) :=
  ⟨Nat.le_of_lt h, [n], rfl, by simp, by simp [h]⟩

theorem mono (h : Owned mid hi r) (hl : lo ≤ mid) : Owned lo hi r :=
  have ⟨hm, blocks, hr, hn, hb⟩ := h
  ⟨Nat.le_trans hl hm, blocks, hr, hn, fun b h => ⟨Nat.le_trans hl (hb b h).left, (hb b h).right⟩⟩

theorem append (hr : Owned lo mid r) (hs : Owned mid hi s) :
    Owned lo hi (do return (← r) ++ (← s)) := by
  have ⟨hl, as, ha, hna, hba⟩ := hr
  have ⟨hh, bs, hb, hnb, hbb⟩ := hs
  refine ⟨Nat.le_trans hl hh, as ++ bs, by simp [ha, hb], ?nodup, ?bounds⟩
  case nodup =>
    refine List.nodup_append.mpr ⟨hna, hnb, fun a ha b hb => ?_⟩
    have := hba a ha
    have := hbb b hb
    omega
  case bounds =>
    intro b hb
    rcases List.mem_append.mp hb with hb | hb
    case inl =>
      have := hba b hb
      omega
    case inr =>
      have := hbb b hb
      omega

-- The first block is released last.
theorem snoc_iff : Owned lo hi (do return (← r) ++ [lo]) ↔ Owned (lo + 1) hi r where
  mp h := by
    have ⟨_, blocks, he, hn, hb⟩ := h
    cases r
    case error => simp at he
    case ok as =>
      simp only [Exec.ok_bind, Exec.pure_eq, Except.ok.injEq] at he
      subst he
      have ⟨hn, _, hd⟩ := List.nodup_append.mp hn
      have hlo := hb lo (by simp)
      refine ⟨by omega, as, rfl, hn, fun b h => ?_⟩
      have := hb b (List.mem_append_left _ h)
      have := hd b h lo (by simp)
      omega
  mpr h := by
    have ⟨hl, blocks, he, hn, hb⟩ := h
    refine ⟨by omega, blocks ++ [lo], by simp [he], ?_, fun b h => ?_⟩
    case refine_1 =>
      refine List.nodup_append.mpr ⟨hn, by simp, fun a ha b hb' => ?_⟩
      have := hb a ha
      rw [List.mem_singleton.mp hb']
      omega
    case refine_2 =>
      rcases List.mem_append.mp h with h | h
      case inl =>
        have := hb b h
        omega
      case inr =>
        rw [List.mem_singleton.mp h]
        omega

end Owned

-- Releases the members of a list one after the other.
def releaseAll (release : α → Exec (List Nat)) : List α → Exec (List Nat)
  | []      => pure []
  | a :: as => do return (← release a) ++ (← releaseAll release as)

theorem variantsClear_eq (vs : List Variant) : variantsClear vs = releaseAll variantClear vs := by
  induction vs
  case nil          => rfl
  case cons v vs ih => simp [variantsClear, releaseAll, ih]

theorem flatMap_sysFreeString (bs : List (Option Bstr)) :
    .ok (bs.flatMap sysFreeString) = releaseAll (fun b => .ok (sysFreeString b)) bs := by
  induction bs
  case nil          => rfl
  case cons b bs ih => simp [releaseAll, ← ih]

namespace Bcap

-- The decoder's result `r`, which started at `c`, is what the extent of the item tells.
def Agrees (lenSrc : Nat) (release : α → Exec (List Nat)) (strict : Bool) (c : Cursor)
    (r : Exec (Decoded α)) : Extent → Prop
  | .whole c' => ∃ a, r = .ok ⟨sOk, a, c'⟩ ∧ c.offset ≤ c'.offset ∧ c'.offset ≤ lenSrc ∧
      (strict = true → Owned c.next c'.next (release a))
  | .cut      => ∃ d, r = .ok d ∧ Failed d.hr ∧
      (strict = true → Owned c.next d.cur.next (release d.val))
  | .bad      => (strict = false → r = .error .read ∨ r = .error .write) ∧
      (strict = true → ∀ d, r = .ok d → ∃ f, release d.val = .error f)

namespace Agrees

variable {lenSrc : Nat} {release : α → Exec (List Nat)} {release' : β → Exec (List Nat)}
variable {strict : Bool} {c c' : Cursor} {r : Exec (Decoded α)} {e : Extent}

theorem read : Agrees lenSrc release strict c (.error .read) .bad :=
  ⟨fun _ => .inl rfl, fun _ _ h => by simp at h⟩

theorem write : Agrees lenSrc release strict c (.error .write) .bad :=
  ⟨fun _ => .inr rfl, fun _ _ h => by simp at h⟩

theorem mono (h : Agrees lenSrc release strict c' r e) (ho : c.offset ≤ c'.offset)
    (hn : c.next ≤ c'.next) : Agrees lenSrc release strict c r e := by
  cases e
  case whole =>
    have ⟨a, hr, hl, hb, hf⟩ := h
    exact ⟨a, hr, Nat.le_trans ho hl, hb, fun hs => (hf hs).mono hn⟩
  case cut =>
    have ⟨d, hr, hd, hf⟩ := h
    exact ⟨d, hr, hd, fun hs => (hf hs).mono hn⟩
  case bad => exact h

-- The value `g a` owns what `a` owns, and what was allocated before.
theorem map {g : α → β} (h : Agrees lenSrc release strict c' r e) (hl : c.offset ≤ c'.offset)
    (ho : strict = true → ∀ a hi, Owned c'.next hi (release a) → Owned c.next hi (release' (g a)))
    (he : ∀ a f, release a = .error f → ∃ f, release' (g a) = .error f) :
    Agrees lenSrc release' strict c (do let d ← r; return { d with val := g d.val }) e := by
  cases e
  case whole =>
    have ⟨a, hr, hl', hb, hf⟩ := h
    exact ⟨g a, by simp [hr], Nat.le_trans hl hl', hb, fun hs => ho hs _ _ (hf hs)⟩
  case cut =>
    have ⟨d, hr, hd, hf⟩ := h
    exact ⟨{ d with val := g d.val }, by simp [hr], hd, fun hs => ho hs _ _ (hf hs)⟩
  case bad =>
    refine ⟨fun hs => ?_, fun hs d hd => ?_⟩
    · rcases h.left hs with h | h <;> simp [h]
    cases hr : r
    case error => simp [hr] at hd
    case ok d' =>
      have ⟨f, hf⟩ := h.right hs d' hr
      simp only [hr, Exec.ok_bind, Exec.pure_eq, Except.ok.injEq] at hd
      exact hd ▸ he _ f hf

-- An element, which the rest of a list follows.
theorem cons {rest : Cursor → Exec (Decoded (List α))} {e' : Cursor → Extent}
    (h : Agrees lenSrc release strict c r e)
    (hr : ∀ c', c.offset ≤ c'.offset → c'.offset ≤ lenSrc →
      Agrees lenSrc (releaseAll release) strict ⟨c.offset, c'.next⟩ (rest c') (e' c')) :
    Agrees lenSrc (releaseAll release) strict c
      (do
        let d ← r
        if Failed d.hr then
          return { d with val := [d.val] }
        let ds ← rest d.cur
        return { ds with val := d.val :: ds.val })
      (e.andThen e') := by
  cases e
  case whole c' =>
    obtain ⟨a, ha, hl, hb, hf⟩ := h
    have hr := hr c' hl hb
    simp only [Extent.andThen, ha, Exec.ok_bind, not_failed_sOk, if_false]
    refine hr.map (Nat.le_refl _) (fun hs as hi ho => ?_) (fun as f hf => ?_)
    · exact (hf hs).append ho
    · simp only [releaseAll]
      cases release a <;> simp [hf]
  case cut =>
    obtain ⟨d, hd, hfail, hf⟩ := h
    refine ⟨{ d with val := [d.val] }, by simp [hd, hfail], hfail, fun hs => ?_⟩
    have := (hf hs).append (Owned.nil (Nat.le_refl _))
    simpa [releaseAll] using this
  case bad =>
    refine ⟨fun hs => ?_, fun hs d hd => ?_⟩
    · rcases h.left hs with h | h <;> simp [h]
    cases hr : r
    case error => simp [hr] at hd
    case ok d' =>
      obtain ⟨f, hf⟩ := h.right hs d' hr
      refine ⟨f, ?_⟩
      obtain ⟨as, has⟩ : ∃ as, d.val = d'.val :: as := by
        simp only [hr, Exec.ok_bind, Exec.pure_eq] at hd
        by_cases hfail : Failed d'.hr
        case pos =>
          rw [if_pos hfail, Except.ok.injEq] at hd
          exact ⟨[], by rw [← hd]⟩
        case neg =>
          rw [if_neg hfail] at hd
          cases hrest : rest d'.cur
          case error => simp [hrest] at hd
          case ok ds =>
            simp only [hrest, Exec.ok_bind, Except.ok.injEq] at hd
            exact ⟨ds.val, by rw [← hd]⟩
      rw [has, releaseAll, hf, Exec.error_bind]

end Agrees

-- The bounds of the source, on which the decoder relies.
structure Source (src : List UInt8) (lenSrc : Nat) : Prop where
  min   : 8 ≤ lenSrc
  bound : lenSrc ≤ src.length
  lt    : src.length < 4294967296

section

variable {host : Host} {src : List UInt8} {lenSrc : Nat} {strict : Bool}

theorem fetch_agrees (h : Source src lenSrc) {release : α → Exec (List Nat)} {base c : Cursor}
    {size : Nat} {partly : α} {k : List UInt8 → Cursor → Exec (Decoded α)} {k' : Cursor → Extent}
    (hsize : size ≤ 8) (hc : c.offset < 4294967296)
    (hp : strict = true → Owned base.next c.next (release partly))
    (hk : c.offset + size ≤ lenSrc →
      Agrees lenSrc release strict base (k (src.window c.offset size) ⟨c.offset + size, c.next⟩)
        (k' ⟨c.offset + size, c.next⟩)) :
    Agrees lenSrc release strict base (fetch src lenSrc size partly c k)
      (Extent.field lenSrc size c |>.andThen k') := by
  have hb := h.bound
  have hl := h.lt
  have hm := h.min
  simp only [fetch, Extent.field]
  by_cases hw : 4294967296 ≤ c.offset + size
  case pos =>
    have hu : u32 (c.offset + size) = c.offset + size - 4294967296 := by simp only [u32]; omega
    rw [if_pos hw, if_neg (by omega), if_neg (by omega)]
    exact Agrees.read
  case neg =>
    have hu : u32 (c.offset + size) = c.offset + size := u32_of_lt (by omega)
    rw [if_neg hw, hu]
    by_cases hi : c.offset + size ≤ lenSrc
    case pos =>
      rw [if_pos hi, if_neg (by omega), if_pos (by omega)]
      exact hk hi
    case neg =>
      rw [if_neg hi, if_pos (by omega)]
      exact ⟨_, rfl, failed_eInvalidPacket, hp⟩

theorem fields_succ (hl : lenSrc < 4294967296) {size n room : Nat} {c : Cursor} (hs : 0 < size) :
    Extent.fields lenSrc size (n + 1) room c =
      (Extent.field lenSrc size c |>.andThen fun c =>
        match room with
        | 0        => .bad
        | room + 1 => Extent.fields lenSrc size n room c) := by
  by_cases hi : c.offset + size ≤ lenSrc
  case pos =>
    have hd : (lenSrc - c.offset) / size = (lenSrc - (c.offset + size)) / size + 1 := by
      rw [Nat.div_eq_sub_div hs (by omega), Nat.sub_sub]
    have hf : Extent.field lenSrc size c = .whole { c with offset := c.offset + size } := by
      rw [Extent.field, if_neg (by omega), if_pos hi]
    have hm (m : Nat) : c.offset + (m + 1) * size = c.offset + size + m * size := by
      rw [Nat.add_mul, Nat.one_mul]; omega
    simp only [hf, Extent.andThen, Extent.fields, hd, Nat.add_min_add_right, hm]
    cases room <;> simp
  case neg =>
    have hd : (lenSrc - c.offset) / size = 0 := Nat.div_eq_of_lt (by omega)
    simp only [Extent.fields, hd, Nat.min_zero, Nat.not_lt_zero, if_false, Nat.zero_mul,
      Nat.add_zero, (Nat.succ_ne_zero n).symm]
    simp only [Extent.field, if_neg hi]
    by_cases hw : 4294967296 ≤ c.offset + size <;> simp [hw, Extent.andThen]

-- Nothing has to be released for numbers.
def releaseNumbers (_ : List β) : Exec (List Nat) :=
  .ok []

theorem getMany_agrees (h : Source src lenSrc) {size : Nat} (hs : 0 < size) (hs' : size ≤ 8)
    (conv : List UInt8 → β) (n room : Nat) {c : Cursor} (hc : c.offset ≤ lenSrc) :
    Agrees lenSrc releaseNumbers strict c (getMany src lenSrc size conv n room c)
      (Extent.fields lenSrc size n room c) := by
  have hl : lenSrc < 4294967296 := Nat.lt_of_le_of_lt h.bound h.lt
  induction n generalizing room c
  case zero =>
    have hf : Extent.fields lenSrc size 0 room c = .whole c := by simp [Extent.fields]
    rw [hf]
    exact ⟨[], rfl, Nat.le_refl _, hc, fun _ => .nil (Nat.le_refl _)⟩
  case succ n ih =>
    rw [fields_succ hl hs]
    refine fetch_agrees h hs' (by omega) (fun _ => .nil (Nat.le_refl _)) fun hi => ?_
    cases room
    case zero => exact Agrees.write
    case succ room =>
      have ih := ih room (c := ⟨c.offset + size, c.next⟩) hi
      exact ih.map (by simp only; omega) (fun _ _ _ h => h)
        (fun _ _ h => by simp [releaseNumbers] at h)

def releaseBstr (b : Option Bstr) : Exec (List Nat) :=
  .ok (sysFreeString b)

theorem getBstr_agrees (h : Source src lenSrc) (slot : Bool) {c : Cursor} (hc : c.offset ≤ lenSrc) :
    Agrees lenSrc releaseBstr strict c (getBstr host src lenSrc slot c)
      (Extent.text host src lenSrc slot c) := by
  have hl : lenSrc < 4294967296 := Nat.lt_of_le_of_lt h.bound h.lt
  refine fetch_agrees h (by decide) (by omega) (fun _ => .nil (Nat.le_refl _)) fun hi => ?_
  cases slot
  case false => exact Agrees.write
  case true =>
    simp only [Bool.not_true, Bool.false_eq_true, if_false, sysAllocStringLen, Host.alloc]
    cases host.malloc c.next
    case false =>
      exact ⟨_, rfl, failed_eOutOfMemory, fun _ => .nil (by simp)⟩
    case true =>
      have hm : Agrees lenSrc releaseNumbers strict ⟨c.offset + 4, c.next + 1⟩
          (getMany src lenSrc 2 ofLe _ _ _) (Extent.fields lenSrc 2 _ _ _) :=
        getMany_agrees h (by decide) (by decide) ofLe (ofLe (src.window c.offset 4) / 2)
          (bstrCapacity (u16 (ofLe (src.window c.offset 4) / 2))) hi
      simp only [wcslen, wcs, u16, List.takeWhile_nil, List.length_nil, Nat.zero_mod, Nat.min_zero,
        Nat.zero_le, if_true, List.take_nil, Exec.pure_eq, Exec.ok_bind] at hm ⊢
      refine hm.map (g := fun cs => some (Bstr.mk c.next cs)) (Nat.le_add_right ..)
        (fun _ _ _ ho => ?_) (fun _ _ h => ?_)
      · exact Owned.single ho.left
      · simp [releaseNumbers] at h

theorem getBstrs_agrees (h : Source src lenSrc) (n room : Nat) {c : Cursor}
    (hc : c.offset ≤ lenSrc) :
    Agrees lenSrc (releaseAll releaseBstr) strict c (getBstrs host src lenSrc n room c)
      (Extent.texts host src lenSrc n room c) := by
  induction n generalizing room c
  case zero => exact ⟨[], rfl, Nat.le_refl _, hc, fun _ => .nil (Nat.le_refl _)⟩
  case succ n ih =>
    refine (getBstr_agrees h (decide (0 < room)) hc).cons fun c' hl hb => ?_
    exact (ih (room - 1) hb).mono hl (Nat.le_refl _)

theorem bytary2scalar_agrees (h : Source src lenSrc) (vt : VarType) {c : Cursor}
    (hc : c.offset ≤ lenSrc) :
    Agrees lenSrc variantClear strict c (bytary2scalar host src lenSrc vt c)
      (Extent.number host src lenSrc vt c) := by
  have hl : lenSrc < 4294967296 := Nat.lt_of_le_of_lt h.bound h.lt
  have hf (size : Nat) (conv : List UInt8 → List UInt8) (hs : size ≤ 8) :
      Agrees lenSrc variantClear strict c
        (fetch src lenSrc size (.scalar vt 0) c fun bs c =>
          pure ⟨sOk, .scalar vt (ofLe (conv bs)), c⟩)
        (Extent.field lenSrc size c) := by
    have ho {n : Nat} : Owned n n (.ok []) := .nil (Nat.le_refl _)
    have he : Extent.field lenSrc size c = (Extent.field lenSrc size c).andThen .whole := by
      cases Extent.field lenSrc size c <;> rfl
    rw [he]
    exact fetch_agrees h hs (by omega) (fun _ => ho)
      fun hi => ⟨_, rfl, by simp only; omega, hi, fun _ => ho⟩
  have hw : Agrees lenSrc variantClear strict c (.ok ⟨sOk, .scalar vt 0, c⟩) (.whole c) :=
    ⟨_, rfl, Nat.le_refl _, hc, fun _ => .nil (Nat.le_refl _)⟩
  cases vt
  case bstr =>
    refine (getBstr_agrees h true hc).map (Nat.le_refl _) (fun _ _ _ ho => ho) (fun _ _ h => ?_)
    simp [releaseBstr] at h
  case empty | null | variant | other => exact hw
  all_goals exact hf _ _ (by decide)

end

-- The array whose members are in block `next` was allocated together with the blocks below `next'`.
def Created (vt : VarType) (n next : Nat) (psa : ArrayHeader) (next' : Nat) : Prop :=
  psa.addr = next ∧ psa.cElements = n ∧
  (n = 0 ∧ psa.pvData = none ∧ next' = next + 1 ∨
    0 < n ∧ psa.pvData = some (next + 1) ∧ next' = next + 2 ∧
      ∃ sz, elemSize vt = some sz ∧ psa.cap = vectorCapacity n sz)

namespace Created

variable {vt : VarType} {n next next' hi : Nat} {psa : ArrayHeader} {r : Exec (List Nat)}

theorem of_eq {host : Host} {lLbound : Int}
    (h : safeArrayCreateVector host vt lLbound n next = (some psa, next')) :
    Created vt n next psa next' := by
  simp only [safeArrayCreateVector, Host.alloc] at h
  cases hm : host.malloc next <;> simp only [hm, Bool.false_eq_true, if_false, if_true] at h
  case false => simp at h
  case true =>
    by_cases hn : n = 0
    case pos =>
      rw [if_pos hn, Prod.mk.injEq, Option.some.injEq] at h
      obtain ⟨hp, hn'⟩ := h
      subst hp hn'
      exact ⟨rfl, hn.symm, .inl ⟨hn, rfl, rfl⟩⟩
    case neg =>
      rw [if_neg hn] at h
      cases hs : elemSize vt <;> simp only [hs] at h
      case none => simp at h
      case some sz =>
        cases hm : host.malloc (next + 1) <;>
          simp only [hm, Bool.false_eq_true, if_false, if_true] at h
        case false => simp at h
        case true =>
          rw [Prod.mk.injEq, Option.some.injEq] at h
          obtain ⟨hp, hn'⟩ := h
          subst hp hn'
          exact ⟨rfl, rfl, .inr ⟨Nat.pos_of_ne_zero hn, rfl, rfl, sz, hs, rfl⟩⟩

theorem next_le_of_none {host : Host} {lLbound : Int}
    (h : safeArrayCreateVector host vt lLbound n next = (none, next')) : next ≤ next' := by
  simp only [safeArrayCreateVector, Host.alloc] at h
  cases hm : host.malloc next <;> simp only [hm, Bool.false_eq_true, if_false, if_true] at h
  case false => simp at h; omega
  case true =>
    by_cases hn : n = 0
    case pos => simp [hn] at h
    case neg =>
      rw [if_neg hn] at h
      cases hs : elemSize vt <;> simp only [hs] at h
      case none => simp at h; omega
      case some sz => cases hm : host.malloc (next + 1) <;> simp [hm] at h; omega

theorem lt (h : Created vt n next psa next') : next < next' := by
  rcases h.right.right with ⟨_, _, h⟩ | ⟨_, _, h, _⟩ <;> omega

theorem owned_raw (h : Created vt n next psa next') (hl : next' ≤ hi) :
    Owned next hi (.ok (psa.pvData.toList ++ [psa.addr])) := by
  have ⟨ha, _, hp⟩ := h
  rcases hp with ⟨_, hp, _⟩ | ⟨_, hp, _⟩ <;> rw [hp, ha]
  case inl => exact Owned.single (Nat.lt_of_lt_of_le h.lt hl)
  case inr =>
    refine ⟨by omega, _, rfl, by simp, fun b hb => ?_⟩
    simp only [Option.toList_some, List.singleton_append, List.mem_cons, List.not_mem_nil,
      or_false] at hb
    omega

theorem owned_freeArray (h : Created vt n next psa next') (hr : Owned next' hi r)
    (hc : n ≤ psa.cap) :
    Owned next hi (freeArray psa r) := by
  have ⟨hl, blocks, he, hn, hb⟩ := hr
  have hraw := h.owned_raw hl
  have ⟨ha, hcel, hp⟩ := h
  rcases hp with ⟨_, hp, _⟩ | ⟨_, hp, _⟩ <;> rw [hp] at hraw <;> rw [freeArray, hp]
  case inl => exact hraw
  case inr =>
    refine ⟨hraw.left, blocks ++ [next + 1, psa.addr], by simp [hcel, hc, he], ?nodup, ?bounds⟩
    case nodup =>
      refine List.nodup_append.mpr ⟨hn, by simp [ha], fun a ha' b hb' => ?_⟩
      have := hb a ha'
      simp only [List.mem_cons, List.not_mem_nil, or_false] at hb'
      omega
    case bounds =>
      intro b hb'
      have hlt := h.lt
      rcases List.mem_append.mp hb' with hb' | hb'
      case inl =>
        have := hb b hb'
        omega
      case inr =>
        simp only [List.mem_cons, List.not_mem_nil, or_false] at hb'
        omega

theorem freeArray_error (h : Created vt n next psa next') (hn : 0 < n)
    (hr : psa.cap < n ∨ ∃ f, r = .error f) : ∃ f, freeArray psa r = .error f := by
  have ⟨_, hcel, hp⟩ := h
  rcases hp with ⟨hn, _⟩ | ⟨_, hp, _⟩
  case inl => omega
  case inr =>
    rw [freeArray, hp]
    by_cases hc : psa.cElements ≤ psa.cap
    case neg => exact ⟨.read, by simp [hc]⟩
    case pos =>
      rcases hr with hr | ⟨f, hf⟩
      case inl => omega
      case inr => exact ⟨f, by simp [hc, hf]⟩

end Created

section

variable {host : Host} {src : List UInt8} {lenSrc : Nat} {strict : Bool}

-- An array of pointers, the elements of which are read by `r`.
theorem freeArray_agrees {g : List α → Variant} {release : α → Exec (List Nat)} {vt : VarType}
    {n : Nat} {psa : ArrayHeader} {base c : Cursor} {r : Exec (Decoded (List α))} {e : Extent}
    (hg : ∀ as, variantClear (g as) = freeArray psa (releaseAll release as))
    (hc : Created vt n base.next psa c.next) (ho : base.offset = c.offset)
    (hb : c.offset ≤ lenSrc) (hz : n = 0 → r = .ok ⟨sOk, [], c⟩ ∧ e = .whole c)
    (hr : Agrees lenSrc (releaseAll release) strict c r e) :
    Agrees lenSrc variantClear strict base (do let d ← r; return { d with val := g d.val })
      (if strict ∧ psa.cap < n then .bad else e) := by
  rcases Nat.eq_zero_or_pos n with hn | hn
  case inl =>
    have ⟨hr, he⟩ := hz hn
    subst hn
    rw [if_neg (by simp), hr, he]
    refine ⟨g [], rfl, Nat.le_of_eq ho, hb, fun _ => ?_⟩
    rw [hg]
    exact hc.owned_freeArray (.nil (Nat.le_refl _)) (Nat.zero_le _)
  case inr =>
    by_cases hs : strict ∧ psa.cap < n
    case pos =>
      rw [if_pos hs]
      refine ⟨fun h => absurd hs.left (by simp [h]), fun _ d hd => ?_⟩
      cases hr' : r
      case error => simp [hr'] at hd
      case ok d' =>
        simp only [hr', Exec.ok_bind, Exec.pure_eq, Except.ok.injEq] at hd
        rw [← hd, hg]
        exact hc.freeArray_error hn (.inl hs.right)
    case neg =>
      rw [if_neg hs]
      refine hr.map (Nat.le_of_eq ho) (fun hst as hi h => ?_) (fun as f h => ?_)
      · rw [hg]
        exact hc.owned_freeArray h (Nat.not_lt.mp fun h => hs ⟨hst, h⟩)
      · rw [hg]
        exact hc.freeArray_error hn (.inr ⟨f, h⟩)

theorem bytary2array_agrees (h : Source src lenSrc)
    {dec : Bool → VarType → Nat → Cursor → Exec (Decoded Variant)}
    {item : Bool → VarType → Nat → Cursor → Extent} {vt : VarType} {n : Nat} (hn : n < 4294967296)
    {psa : ArrayHeader} {base c : Cursor} (hc : Created vt n base.next psa c.next)
    (ho : base.offset = c.offset) (hb : c.offset ≤ lenSrc)
    (hd : Agrees lenSrc (releaseAll variantClear) strict c
      (bytary2vntary src lenSrc dec false n psa.cap c)
      (Extent.variants src lenSrc item false n psa.cap c)) :
    Agrees lenSrc variantClear strict base
      (bytary2array host src lenSrc (bytary2vntary src lenSrc dec false) vt n psa c)
      (Extent.array host src lenSrc strict (Extent.variants src lenSrc item false) vt n psa c) := by
  have hl : lenSrc < 4294967296 := Nat.lt_of_le_of_lt h.bound h.lt
  have hown (hi : Nat) (hh : c.next ≤ hi) (data : List UInt8) :
      Owned base.next hi (variantClear (.rawArray vt psa data)) := hc.owned_raw hh
  have hraw (size : Nat) (conv : List UInt8 → List UInt8) (hs : 0 < size) (hs' : size ≤ 8) :
      Agrees lenSrc variantClear strict base (do
        let d ← getMany src lenSrc size conv n psa.cap c
        return { d with val := Variant.rawArray vt psa d.val.flatten })
        (Extent.fields lenSrc size n psa.cap c) := by
    refine (getMany_agrees h hs hs' conv n psa.cap hb).map (Nat.le_of_eq ho)
      (fun _ _ _ h => hown _ h.left _) (fun _ _ h => ?_)
    simp [releaseNumbers] at h
  have hwhole : Agrees lenSrc variantClear strict base
      (.ok ⟨sOk, .rawArray vt psa [], c⟩) (.whole c) :=
    ⟨_, rfl, Nat.le_of_eq ho, hb, fun _ => hown _ (Nat.le_refl _) _⟩
  cases vt
  case ui1 =>
    have hcap : n ≤ psa.cap := by
      rcases hc.right.right with ⟨hz, _⟩ | ⟨_, _, _, sz, hsz, hcap⟩
      case inl => omega
      case inr =>
        cases hsz
        rw [hcap, le_vectorCapacity (by decide)]
        omega
    have hbound := h.bound
    have hlt := h.lt
    simp only [bytary2array, Extent.array]
    rw [if_neg (Nat.not_lt.mpr hcap)]
    by_cases hi : c.offset + n ≤ lenSrc
    case pos =>
      have hu : u32 (c.offset + n) = c.offset + n := u32_of_lt (by omega)
      rw [if_pos hi, hu, if_neg (by omega), if_pos (by omega)]
      exact ⟨_, rfl, by simp only; omega, hi, fun _ => hown _ (Nat.le_refl _) _⟩
    case neg =>
      rw [if_neg hi]
      by_cases hw : u32 (c.offset + n) ≤ lenSrc
      case pos =>
        have hle : 4294967296 ≤ c.offset + n := by
          by_contra hlt
          rw [u32_of_lt (by omega)] at hw
          omega
        rw [if_pos hw, if_neg (by omega), if_neg (by omega)]
        exact Agrees.read
      case neg =>
        rw [if_neg hw, if_pos (by omega)]
        exact ⟨_, rfl, failed_eInvalidArg, fun _ => hown _ (Nat.le_refl _) _⟩
  case bstr =>
    refine freeArray_agrees (g := .bstrArray psa) (fun bs => ?_) hc ho hb (fun hz => ?_)
      (getBstrs_agrees h n psa.cap hb)
    · rw [variantClear, Exec.pure_eq, flatMap_sysFreeString]
      rfl
    · subst hz
      exact ⟨rfl, rfl⟩
  case variant =>
    refine freeArray_agrees (g := .variantArray psa) (fun vs => ?_) hc ho hb (fun hz => ?_) hd
    · rw [variantClear, variantsClear_eq]
    · subst hz
      exact ⟨rfl, rfl⟩
  case empty | null | error | other => exact hwhole
  all_goals exact hraw _ _ (by decide) (by decide)

-- Either the bytes in front of a variant are skipped, as for an argument, or the position
-- increases.
theorem bytary2vntary_agrees (h : Source src lenSrc)
    {dec : Bool → VarType → Nat → Cursor → Exec (Decoded Variant)}
    {item : Bool → VarType → Nat → Cursor → Extent} {flag : Bool} (n room : Nat) {low : Nat}
    {c : Cursor} (hlow : flag = false → low ≤ c.offset) (hlow' : flag = true → low = 0)
    (hc : c.offset ≤ lenSrc)
    (hd : ∀ isArray vt n (c : Cursor), low + 6 ≤ c.offset → c.offset ≤ lenSrc → n < 4294967296 →
      Agrees lenSrc variantClear strict c (dec isArray vt n c) (item isArray vt n c)) :
    Agrees lenSrc (releaseAll variantClear) strict ⟨low, c.next⟩
      (bytary2vntary src lenSrc dec flag n room c)
      (Extent.variants src lenSrc item flag n room c) := by
  have hl : lenSrc < 4294967296 := Nat.lt_of_le_of_lt h.bound h.lt
  induction n generalizing room c
  case zero =>
    refine ⟨[], rfl, ?_, hc, fun _ => .nil (Nat.le_refl _)⟩
    cases flag
    case false => exact hlow rfl
    case true  => exact hlow' rfl ▸ Nat.zero_le _
  case succ n ih =>
    cases room
    case zero => exact Agrees.write
    case succ room =>
      have ho : low ≤ (if flag then u32 (c.offset + bcapSizeDataLen) else c.offset) ∧
          (if flag then u32 (c.offset + bcapSizeDataLen) else c.offset) < 4294967296 := by
        cases flag
        case false => exact ⟨hlow rfl, Nat.lt_of_le_of_lt hc hl⟩
        case true  => exact ⟨hlow' rfl ▸ Nat.zero_le _, u32_lt⟩
      have hs : (if flag then { c with offset := u32 (c.offset + bcapSizeDataLen) } else c) =
          (⟨if flag then u32 (c.offset + bcapSizeDataLen) else c.offset, c.next⟩ : Cursor) := by
        cases flag <;> rfl
      simp only [bytary2vntary, Extent.variants, hs]
      generalize (if flag then u32 (c.offset + bcapSizeDataLen) else c.offset) = offset at ho ⊢
      refine fetch_agrees h (by decide) ho.right (fun _ => .nil (Nat.le_refl _)) fun hi => ?_
      refine fetch_agrees h (by decide) (by simp only at hi ⊢; omega) (fun _ => ?_) fun hi' => ?_
      case refine_1 =>
        have hinit (isArray : Bool) (vt : VarType) : variantClear (.init isArray vt) = .ok [] := by
          cases isArray
          case true  => rfl
          case false => cases vt <;> rfl
        simp only [releaseAll, hinit, Exec.ok_bind, Exec.pure_eq, List.append_nil]
        exact .nil (Nat.le_refl _)
      case refine_2 =>
        have hn : ofLe (src.window (offset + 2) 4) < 4294967296 := by
          have := ofLe_lt (src.window (offset + 2) 4)
          rwa [List.length_window (by have := h.bound; simp only at hi'; omega)] at this
        have hd := hd (VarType.ofWord (ofLe (src.window offset 2))).1
          (VarType.ofWord (ofLe (src.window offset 2))).2 (ofLe (src.window (offset + 2) 4))
          ⟨offset + 2 + 4, c.next⟩ (by simp only; omega) hi' hn
        refine Agrees.cons (c := ⟨low, c.next⟩) (hd.mono ?_ (Nat.le_refl _)) fun c' hl' hb' => ?_
        · simp only
          omega
        · exact ih room (fun _ => hl') hb'

theorem bytary2vnt_agrees (h : Source src lenSrc) (isArray : Bool) (vt : VarType)
    {depth n : Nat} {c : Cursor} (hn : n < 4294967296) (hc : c.offset ≤ lenSrc)
    (hd : lenSrc < c.offset + depth) :
    Agrees lenSrc variantClear strict c (bytary2vnt host src lenSrc depth isArray vt n c)
      (Extent.variant host src lenSrc strict depth isArray vt n c) := by
  induction depth generalizing isArray vt n c
  case zero => omega
  case succ depth ih =>
    cases isArray
    case false => exact bytary2scalar_agrees h vt hc
    case true =>
      simp only [bytary2vnt, Extent.variant]
      rcases he : safeArrayCreateVector host vt 1 n c.next with ⟨_ | psa, next⟩
      case none =>
        exact ⟨_, rfl, failed_eOutOfMemory, fun _ => .nil (Created.next_le_of_none he)⟩
      case some =>
        have hcr := Created.of_eq he
        refine bytary2array_agrees h hn (c := ⟨c.offset, next⟩) hcr rfl hc ?_
        refine bytary2vntary_agrees h n psa.cap (fun _ => Nat.le_refl _) (by simp) hc ?_
        exact fun isArray vt n c' hl hb hn => ih isArray vt hn hb (by
        have : c.offset + 6 ≤ c'.offset := hl
        omega)

-- The arguments of a packet, where `c` is the position of one of them.
theorem bytary2args_agrees (hm : 16 ≤ src.length) (hl : src.length < 4294967296) (n room : Nat)
    {c : Cursor} (hc : c.offset ≤ src.length - 1) :
    Agrees (src.length - 1) (releaseAll variantClear) strict ⟨0, c.next⟩
      (bytary2vntary src (src.length - 1) (bytary2vnt host src (src.length - 1) src.length) true n
        room c)
      (Extent.args strict host src n room c) := by
  have h : Source src (src.length - 1) := ⟨by omega, by omega, hl⟩
  refine bytary2vntary_agrees h n room (by simp) (fun _ => rfl) hc ?_
  exact fun isArray vt n c _ hb hn => bytary2vnt_agrees h isArray vt hn hb (by omega)

end

end Bcap
