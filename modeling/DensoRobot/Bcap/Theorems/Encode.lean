import DensoRobot.Bcap.Form

open HRESULT Bytes

namespace Bcap

-- The function `f` writes the bytes `bs`, provided that they fit.
def Writes (lenDst : Nat) (f : Out → Exec (HRESULT × Out)) (bs : List UInt8) : Prop :=
  ∀ o : Out, o.offset + bs.length ≤ lenDst → lenDst ≤ o.dst.length → lenDst < 4294967296 →
    f o = .ok (sOk, ⟨o.dst.splice o.offset bs, o.offset + bs.length⟩)

namespace Writes

variable {lenDst : Nat} {f g : Out → Exec (HRESULT × Out)} {as bs : List UInt8}

theorem nil : Writes lenDst (fun o => .ok (sOk, o)) [] :=
  fun _ _ _ _ => by simp [List.splice]

theorem put (bs : List UInt8) : Writes lenDst (Bcap.put lenDst bs) bs := by
  intro o ho hd hl
  have hu : u32 (o.offset + bs.length) = o.offset + bs.length := u32_of_lt (by omega)
  simp [Bcap.put, store, hu, Nat.not_lt.mpr ho, Nat.le_trans ho hd]

theorem andThen (hf : Writes lenDst f as) (hg : Writes lenDst g bs) :
    Writes lenDst (fun o => Bcap.andThen (f o) g) (as ++ bs) := by
  intro o ho hd hl
  simp only [List.length_append] at ho ⊢
  have hs : (o.dst.splice o.offset as).length = o.dst.length := List.length_splice (by omega)
  simp only [Bcap.andThen, hf o (by omega) hd hl, Exec.ok_bind, not_failed_sOk, if_false]
  rw [hg ⟨_, _⟩ (by simp only; omega) (by simp only; omega) hl]
  have hb : o.offset + as.length + bs.length ≤ o.dst.length := by omega
  simp [List.splice_splice_append hb, Nat.add_assoc]

end Writes

-- The function `f` writes the bytes `bs` if they fit, and else reports that they do not. It does
-- not succeed where the position behind them is not told by 32 bits.
structure Emits (lenDst : Nat) (f : Out → Exec (HRESULT × Out)) (bs : List UInt8) : Prop where
  writes  : Writes lenDst f bs
  refuses : ∀ o : Out, o.offset ≤ lenDst → lenDst ≤ o.dst.length →
    lenDst < o.offset + bs.length → o.offset + bs.length < 4294967296 →
    ∃ o', f o = .ok (eInvalidArg, o') ∧ o'.dst.length = o.dst.length
  fits    : ∀ {o o' : Out} {hr : HRESULT}, o.offset ≤ lenDst → lenDst ≤ o.dst.length →
    o.dst.length < 4294967296 → f o = .ok (hr, o') → Succeeded hr → o.offset + bs.length ≤ lenDst

namespace Emits

variable {lenDst : Nat} {f g : Out → Exec (HRESULT × Out)} {as bs : List UInt8}

theorem nil : Emits lenDst (fun o => .ok (sOk, o)) [] where
  writes  := .nil
  refuses := fun _ ho _ h _ => absurd ho (Nat.not_le.mpr h)
  fits    := fun ho _ _ _ _ => ho

-- A field is refused wherever it begins.
theorem put_refuses {o : Out} (h : lenDst < o.offset + bs.length)
    (hl : o.offset + bs.length < 4294967296) : Bcap.put lenDst bs o = .ok (eInvalidArg, o) := by
  rw [Bcap.put, u32_of_lt hl, if_pos h]
  rfl

-- The buffer ends before the positions start over.
theorem put_fits {o o' : Out} {hr : HRESULT} (hd : o.dst.length < 4294967296)
    (h : Bcap.put lenDst bs o = .ok (hr, o')) (hs : Succeeded hr) :
    o.offset + bs.length ≤ lenDst := by
  unfold Bcap.put at h
  split at h
  case isTrue =>
    cases h
    exact absurd failed_eInvalidArg (not_failed_iff.mpr hs)
  case isFalse hle =>
    unfold store at h
    split at h
    case isTrue hin =>
      rw [u32_of_lt (Nat.lt_of_le_of_lt hin hd)] at hle
      exact Nat.not_lt.mp hle
    case isFalse => cases h

theorem put (bs : List UInt8) : Emits lenDst (Bcap.put lenDst bs) bs where
  writes  := .put bs
  refuses := fun o _ _ h hl => ⟨o, put_refuses h hl, rfl⟩
  fits    := fun _ _ hd h hs => put_fits hd h hs

theorem andThen_refused {r : Exec (HRESULT × Out)} {o : Out} (h : r = .ok (eInvalidArg, o)) :
    Bcap.andThen r g = .ok (eInvalidArg, o) := by
  simp [Bcap.andThen, h]

theorem of_andThen {r : Exec (HRESULT × Out)} {o' : Out} {hr : HRESULT}
    (h : Bcap.andThen r g = .ok (hr, o')) (hs : Succeeded hr) :
    ∃ hr₁ o₁, r = .ok (hr₁, o₁) ∧ Succeeded hr₁ ∧ g o₁ = .ok (hr, o') := by
  rcases r with _ | ⟨hr₁, o₁⟩
  case error => cases h
  case ok =>
    by_cases hf : Failed hr₁
    case pos =>
      simp only [Bcap.andThen, Exec.ok_bind, if_pos hf] at h
      cases h
      exact absurd hf (not_failed_iff.mpr hs)
    case neg =>
      simp only [Bcap.andThen, Exec.ok_bind, if_neg hf] at h
      exact ⟨hr₁, o₁, rfl, not_failed_iff.mp hf, h⟩

theorem andThen (hf : Emits lenDst f as) (hg : Emits lenDst g bs) :
    Emits lenDst (fun o => Bcap.andThen (f o) g) (as ++ bs) where
  writes  := hf.writes.andThen hg.writes
  refuses := by
    intro o ho hd hn hl
    rw [List.length_append] at hn hl
    by_cases has : o.offset + as.length ≤ lenDst
    case pos =>
      have hs : (o.dst.splice o.offset as).length = o.dst.length := List.length_splice (by omega)
      obtain ⟨o', he, ho'⟩ := hg.refuses ⟨o.dst.splice o.offset as, o.offset + as.length⟩ has
        (hs.symm ▸ hd) (by simp only; omega) (by simp only; omega)
      refine ⟨o', ?_, ho'.trans hs⟩
      simp only [hf.writes o has hd (by omega), Bcap.andThen, Exec.ok_bind,
        not_failed_sOk, if_false]
      exact he
    case neg =>
      obtain ⟨o', he, ho'⟩ := hf.refuses o ho hd (by omega) (by omega)
      exact ⟨o', andThen_refused he, ho'⟩
  fits := by
    intro o o' hr ho hd hl h hs
    obtain ⟨hr₁, o₁, hrun, hs₁, h⟩ := of_andThen h hs
    have has := hf.fits ho hd hl hrun hs₁
    cases (hf.writes o has hd (by omega)).symm.trans hrun
    have hlen : (o.dst.splice o.offset as).length = o.dst.length := List.length_splice (by omega)
    have hbs := hg.fits has (hlen.symm ▸ hd) (hlen.symm ▸ hl) h hs
    rwa [List.length_append, ← Nat.add_assoc]

end Emits

@[simp]
theorem andThen_ok (o : Out) (k : Out → Exec (HRESULT × Out)) : andThen (.ok (sOk, o)) k = k o := by
  simp [andThen]

@[simp]
theorem andThen_assoc (r : Exec (HRESULT × Out)) (f g : Out → Exec (HRESULT × Out)) :
    andThen (andThen r f) g = andThen r fun o => andThen (f o) g := by
  rcases r with _ | ⟨hr, o⟩
  case error => rfl
  case ok =>
    by_cases h : Failed hr <;> simp [andThen, h]

section

variable (host : Host) (lenDst : Nat)

theorem putChars_emits (cs : List Nat) :
    Emits lenDst (putChars lenDst cs) (cs.flatMap (toLe 2)) := by
  induction cs
  case nil          => exact .nil
  case cons c cs ih => exact Emits.put _ |>.andThen ih

theorem putBstr_emits (b : Option Bstr) : Emits lenDst (putBstr lenDst b) (bstrBytes b) :=
  Emits.put _ |>.andThen (putChars_emits lenDst _)

theorem putBstrs_emits (bs : List (Option Bstr)) :
    Emits lenDst (putBstrs lenDst bs.length bs) (bs.flatMap bstrBytes) := by
  induction bs
  case nil          => exact .nil
  case cons b bs ih => exact putBstr_emits lenDst b |>.andThen ih

theorem putElems_emits {data : List UInt8} {n size : Nat} (conv : List UInt8 → List UInt8)
    (h : n * size ≤ data.length) :
    Emits lenDst (putElems lenDst size conv n data) (convElems size conv n data) := by
  induction n generalizing data
  case zero => exact .nil
  case succ n ih =>
    rw [Nat.succ_mul] at h
    have hs : size ≤ data.length := Nat.le_of_add_left_le h
    have hd : n * size ≤ (data.drop size).length := by
      rw [List.length_drop]
      omega
    have hw : Emits lenDst _ _ := Emits.put (conv (data.take size)) |>.andThen (ih hd)
    simpa only [putElems, if_pos hs, convElems] using hw

theorem scalar_emits (vt : VarType) (val argc : Nat) :
    Emits lenDst (vnt2bytary host lenDst (.scalar vt val) argc)
      (sentNumber host vt (toLe (wireSize vt) val)) := by
  cases vt <;> first | exact Emits.put _ | exact Emits.nil

theorem rawArray_emits {vt : VarType} (psa : ArrayHeader) {data : List UInt8} {n : Nat}
    (h : n * elementSize vt ≤ data.length) :
    Emits lenDst (vnt2bytary host lenDst (.rawArray vt psa data) n)
      (convElems (elementSize vt) (sentNumber host vt) n data) := by
  have hnone (hz : elementSize vt = 0) (hc : sentNumber host vt [] = []) :
      Emits lenDst (fun o => .ok (sOk, o))
        (convElems (elementSize vt) (sentNumber host vt) n data) := by
    rw [hz, convElems_empty hc]
    exact .nil
  cases vt
  case ui1 =>
    have hn : n ≤ data.length := Nat.mul_one n ▸ h
    have hbytes : convElems (elementSize .ui1) (sentNumber host .ui1) n data = data.take n :=
      (convElems_id h).trans (congrArg data.take (Nat.mul_one n))
    have hrun : vnt2bytary host lenDst (.rawArray .ui1 psa data) n = put lenDst (data.take n) := by
      funext o
      simp only [vnt2bytary, if_pos hn]
    rw [hbytes, hrun]
    exact .put _
  case empty | null | bstr | error | variant | other => exact hnone rfl rfl
  all_goals exact putElems_emits lenDst _ h

theorem vntary2bytary_cons {v : Variant} {vs : List Variant} {argc cnt : Nat}
    (h : elements v = some cnt) :
    vntary2bytary host lenDst (v :: vs) (argc + 1) false =
      fun o => andThen (andThen (andThen (put lenDst (toLe 2 v.vt) o) (put lenDst (toLe 4 cnt)))
        (vnt2bytary host lenDst v cnt)) (vntary2bytary host lenDst vs argc false) := by
  funext o
  simp [vntary2bytary, h, andThen_assoc]

mutual

theorem vnt2bytary_emits : (v : Variant) → v.Filled →
    Emits lenDst (vnt2bytary host lenDst v ((elements v).getD 0)) (v.payload host)
  | .scalar vt val, _         => scalar_emits host lenDst vt val _
  | .bstr b, _                => putBstr_emits lenDst b
  | .rawArray _ psa _, h      =>
    rawArray_emits host lenDst psa <| Nat.le_trans
      (Nat.le_of_eq (congrArg (· * _) (Variant.count_eq h.left))) h.right
  | .bstrArray psa data, h    => by
    have hw := putBstrs_emits lenDst data
    rw [h.right, ← Variant.count_eq h.left] at hw
    exact hw
  | .variantArray psa data, h => by
    have hw := vntary2bytary_emits data h.right.right
    rw [h.right.left, ← Variant.count_eq h.left] at hw
    exact hw

theorem vntary2bytary_emits : (vs : List Variant) → Variant.AllFilled vs →
    Emits lenDst (vntary2bytary host lenDst vs vs.length false) (Variant.bodies host vs)
  | [], _      => .nil
  | v :: vs, h => by
    have hb := vnt2bytary_emits v h.left
    have hbs := vntary2bytary_emits vs h.right
    have ⟨cnt, hcnt⟩ := Variant.elements_eq h.left
    rw [List.length_cons, vntary2bytary_cons host lenDst hcnt, Variant.bodies]
    rw [hcnt, Option.getD_some] at hb ⊢
    exact Emits.put _ |>.andThen (.put _) |>.andThen hb |>.andThen hbs

end

-- Runs `f` behind a place for its length, which is filled in afterwards.
def withLength (f : Out → Exec (HRESULT × Out)) (o : Out) : Exec (HRESULT × Out) :=
  andThen (f { o with offset := u32 (o.offset + bcapSizeDataLen) }) fun o' => do
    let dst ← store o'.dst o.offset (toLe 4 (wordOfInt (o'.offset - o.offset - bcapSizeDataLen)))
    return (sOk, { o' with dst })

theorem Writes.withLength {f : Out → Exec (HRESULT × Out)} {bs : List UInt8}
    (hf : Writes lenDst f bs) : Writes lenDst (withLength f) (toLe 4 bs.length ++ bs) := by
  intro o ho hd hl
  simp only [List.length_append, length_toLe] at ho ⊢
  have ht : (toLe 4 bs.length).length = 4 := length_toLe ..
  have hu : u32 (o.offset + bcapSizeDataLen) = o.offset + 4 :=
    u32_of_lt (by simp only [bcapSizeDataLen]; omega)
  have hn : wordOfInt ((o.offset + 4 + bs.length : Nat) - o.offset - bcapSizeDataLen) =
      bs.length := by
    simp only [wordOfInt, bcapSizeDataLen]; omega
  have hs : (o.dst.splice (o.offset + 4) bs).length = o.dst.length := List.length_splice (by omega)
  have hb := List.splice_splice_before o.dst (toLe 4 bs.length) bs o.offset (by omega)
  rw [ht] at hb
  have hf := hf ⟨o.dst, o.offset + 4⟩ (by simp only; omega) hd hl
  have hle : o.offset + 4 ≤ o.dst.length := by omega
  simp only [Bcap.withLength, hu, hf, andThen_ok, store, ht, hn, hs, hb, if_pos hle]
  simp [Nat.add_assoc]

-- A body that begins behind the end of the buffer is refused, too.
theorem Emits.withLength {f : Out → Exec (HRESULT × Out)} {bs : List UInt8} (hf : Emits lenDst f bs)
    (hover : ∀ o : Out, lenDst < o.offset → o.offset + bs.length < 4294967296 →
      f o = .ok (eInvalidArg, o))
    (hin : ∀ {o o' : Out} {hr : HRESULT}, o.dst.length < 4294967296 → f o = .ok (hr, o') →
      Succeeded hr → o.offset ≤ lenDst) :
    Emits lenDst (withLength f) (toLe 4 bs.length ++ bs) where
  writes  := hf.writes.withLength lenDst
  refuses := by
    intro o ho hd hn hl
    rw [List.length_append, length_toLe, ← Nat.add_assoc] at hn hl
    have hu : u32 (o.offset + bcapSizeDataLen) = o.offset + 4 :=
      u32_of_lt (by simp only [bcapSizeDataLen]; omega)
    have hfail : ∃ o', f ⟨o.dst, o.offset + 4⟩ = .ok (eInvalidArg, o') ∧
        o'.dst.length = o.dst.length := by
      by_cases hin : o.offset + 4 ≤ lenDst
      case pos => exact hf.refuses ⟨o.dst, o.offset + 4⟩ hin hd hn hl
      case neg => exact ⟨_, hover ⟨o.dst, o.offset + 4⟩ (Nat.not_le.mp hin) hl, rfl⟩
    have ⟨o', he, ho'⟩ := hfail
    refine ⟨o', ?_, ho'⟩
    simp only [Bcap.withLength, hu, he]
    rfl
  fits := by
    intro o o' hr ho hd hl h hs
    rw [List.length_append, length_toLe, ← Nat.add_assoc]
    obtain ⟨hr₁, o₁, hrun, hs₁, h⟩ := Emits.of_andThen h hs
    let begun : Out := { o with offset := u32 (o.offset + bcapSizeDataLen) }
    have hstart : begun.offset ≤ lenDst := hin (o := begun) hl hrun hs₁
    have hend : begun.offset + bs.length ≤ lenDst := hf.fits hstart hd hl hrun hs₁
    by_cases hwrap : o.offset + 4 < 4294967296
    case pos => rwa [show begun.offset = o.offset + 4 from u32_of_lt hwrap] at hend
    case neg =>
      -- The body would begin at the start of the buffer, and its length lie behind the end.
      cases (hf.writes begun hend hd (by omega)).symm.trans hrun
      have hlen : (o.dst.splice begun.offset bs).length = o.dst.length :=
        List.length_splice (by omega)
      have hstore : ¬o.offset + 4 ≤ o.dst.length := by omega
      simp [store, begun, hlen, hstore] at h

theorem vntary2bytary_cons_flag {v : Variant} {vs : List Variant} {argc cnt : Nat}
    (h : elements v = some cnt) :
    vntary2bytary host lenDst (v :: vs) (argc + 1) true =
      fun o => andThen (withLength (fun o => andThen (andThen (put lenDst (toLe 2 v.vt) o)
        (put lenDst (toLe 4 cnt))) (vnt2bytary host lenDst v cnt)) o)
        (vntary2bytary host lenDst vs argc true) := by
  funext o
  simp only [vntary2bytary, h, withLength, andThen_assoc, if_true]
  congr! 7
  simp [andThen]

theorem args_emit {vs : List Variant} (h : Variant.AllFilled vs) :
    Emits lenDst (vntary2bytary host lenDst vs vs.length true)
      (vs.flatMap (Variant.argument host)) := by
  induction vs
  case nil => exact .nil
  case cons v vs ih =>
    have hb := vnt2bytary_emits host lenDst v h.left
    have ⟨cnt, hcnt⟩ := Variant.elements_eq h.left
    rw [List.length_cons, vntary2bytary_cons_flag host lenDst hcnt]
    simp only [List.flatMap_cons, Variant.argument, Variant.body]
    rw [hcnt, Option.getD_some] at hb ⊢
    refine (Emits.put _ |>.andThen (.put _) |>.andThen hb).withLength lenDst ?_ ?_
      |>.andThen (ih h.right)
    case refine_1 =>
      intro o ho hl
      rw [List.length_append, List.length_append, length_toLe, length_toLe] at hl
      have hput : put lenDst (toLe 2 v.vt) o = .ok (eInvalidArg, o) :=
        Emits.put_refuses (by rw [length_toLe]; omega) (by rw [length_toLe]; omega)
      exact Emits.andThen_refused (Emits.andThen_refused hput)
    case refine_2 =>
      intro o o' hr hd hrun hs
      obtain ⟨_, _, hrun, hs, _⟩ := Emits.of_andThen hrun hs
      obtain ⟨_, _, hrun, hs, _⟩ := Emits.of_andThen hrun hs
      exact Nat.le_of_add_right_le (Emits.put_fits hd hrun hs)

end

-- The size of a packet is computed on 32 bits, and exact as long as it fits.

theorem i32_toNat {n : Nat} (h : n < 2147483648) : (i32 n).toNat = n := by
  have hu : u32 n = n := u32_of_lt (by omega)
  simp [i32, hu, h]

section

variable (host : Host)

theorem calcSizeBstrs_eq {bs : List (Option Bstr)}
    (hl : (bs.flatMap bstrBytes).length < 4294967296) :
    calcSizeBstrs bs bs.length = (bs.flatMap bstrBytes).length := by
  induction bs
  case nil => rfl
  case cons b bs ih =>
    simp only [List.flatMap_cons, List.length_append, length_bstrBytes] at hl ⊢
    rw [List.length_cons, calcSizeBstrs, ih (by omega), u32_of_lt hl]

theorem length_bstrs_le (bs : List (Option Bstr)) :
    4 * bs.length ≤ (bs.flatMap bstrBytes).length := by
  induction bs
  case nil => exact Nat.le_refl _
  case cons b bs ih =>
    simp only [List.flatMap_cons, List.length_append, length_bstrBytes, List.length_cons]
    omega

theorem length_variants_le (vs : List Variant) :
    6 * vs.length ≤ (Variant.bodies host vs).length := by
  induction vs
  case nil => exact Nat.le_refl _
  case cons v vs ih =>
    simp only [Variant.bodies, List.length_append, length_toLe, List.length_cons]
    omega

theorem length_rawArray {vt : VarType} {psa : ArrayHeader} {data : List UInt8}
    (h : (Variant.rawArray vt psa data).Filled) :
    ((Variant.rawArray vt psa data).payload host).length = psa.cElements * elementSize vt := by
  have hc : ∀ e : List UInt8, e.length = elementSize vt →
      (sentNumber host vt e).length = elementSize vt := by
    intro e he
    cases vt
    case date => exact length_toLe ..
    all_goals exact he
  rw [Variant.payload, Variant.count_eq h.left]
  exact length_convElems hc h.right

theorem calcSizeRaw_eq {vt : VarType} {psa : ArrayHeader} {data : List UInt8}
    (h : psa.cElements < 4294967296) (hl : psa.cElements * elementSize vt < 4294967296) :
    calcSizeVariant (.rawArray vt psa data) = psa.cElements * elementSize vt := by
  cases vt
  all_goals
    simp only [elementSize, wireSize, Nat.mul_one, Nat.mul_zero] at hl ⊢
    simp [calcSizeVariant, Variant.count_eq h, hl]

mutual

theorem calcSizeVariant_eq : (v : Variant) → v.Filled → (v.payload host).length < 4294967296 →
    calcSizeVariant v = (v.payload host).length
  | .scalar vt val, _, _          => by
    rw [Variant.payload, length_sentNumber host vt (length_toLe ..)]
    cases vt <;> rfl
  | .bstr b, _, _                 => (length_bstrBytes b).symm
  | .rawArray _ _ _, h, hl        => by
    rw [length_rawArray host h] at hl ⊢
    exact calcSizeRaw_eq h.left hl
  | .bstrArray psa data, h, hl    => by
    have hn := length_bstrs_le data
    simp only [Variant.payload] at hl ⊢
    rw [calcSizeVariant, Variant.count_eq h.left, ← h.right, i32_toNat (by omega)]
    exact calcSizeBstrs_eq hl
  | .variantArray psa data, h, hl => by
    have hn := length_variants_le host data
    simp only [Variant.payload] at hl ⊢
    rw [calcSizeVariant, Variant.count_eq h.left, ← h.right.left, i32_toNat (by omega)]
    exact calcSizeVariants_eq data h.right.right hl

theorem calcSizeVariants_eq : (vs : List Variant) → Variant.AllFilled vs →
    (Variant.bodies host vs).length < 4294967296 →
    calcSizeVariants vs vs.length = (Variant.bodies host vs).length
  | [], _, _       => rfl
  | v :: vs, h, hl => by
    simp only [Variant.bodies, List.length_append, length_toLe] at hl ⊢
    rw [List.length_cons, calcSizeVariants, calcSizeVariant_eq v h.left (by omega),
      calcSizeVariants_eq vs h.right (by omega), u32_of_lt (by omega)]

end

theorem calcSizeArgs_eq {vs : List Variant} (h : Variant.AllFilled vs)
    (hl : (vs.flatMap (Variant.argument host)).length < 4294967296) :
    calcSizeArgs vs = (vs.flatMap (Variant.argument host)).length := by
  induction vs
  case nil => rfl
  case cons v vs ih =>
    simp only [List.flatMap_cons, List.length_append, Variant.length_argument] at hl ⊢
    rw [calcSizeArgs, calcSizeVariant_eq host v h.left (by omega),
      ih h.right (by omega), u32_of_lt hl]

end

theorem length_of_readSlots {slots : List (Option Variant)} {vs : List Variant}
    (h : readSlots slots = .ok vs) : vs.length = slots.length := by
  induction slots generalizing vs
  case nil => cases h; rfl
  case cons slot slots ih =>
    cases slot
    case none => contradiction
    case some v =>
      simp only [readSlots] at h
      cases hr : readSlots slots
      case error => simp [hr] at h
      case ok ws =>
        simp only [hr, Exec.ok_bind, Exec.pure_eq, Except.ok.injEq] at h
        simp [← h, ih hr]

theorem length_of_argList {p : BcapPacket} {vs : List Variant} (h : p.argList = .ok vs) :
    vs.length = p.argc := by
  simp only [BcapPacket.argList] at h
  rcases hp : p.args with _ | args <;> simp only [hp] at h
  case none =>
    by_cases ha : p.argc = 0 <;> simp [ha] at h
    simp [← h, ha]
  case some =>
    by_cases ha : p.argc ≤ args.slots.length <;> simp [ha] at h
    simp [length_of_readSlots h, ha]

section

variable {host : Host} {p : BcapPacket} {vs : List Variant} {dst : List UInt8} {pad : Nat}

theorem calcSizePacket_filled (h : p.argList = .ok vs) (hf : Variant.AllFilled vs)
    (hl : 16 + (vs.flatMap (Variant.argument host)).length < 4294967296) :
    calcSizePacket p = .ok (16 + (vs.flatMap (Variant.argument host)).length) := by
  simp only [calcSizePacket, h, Exec.ok_bind, Exec.pure_eq]
  rw [calcSizeArgs_eq host hf (by omega), bcapSizeMin, u32_of_lt hl]

-- The buffer when its header has been written.
theorem splice_header {hd : List UInt8} (hh : hd.length = 15) (n : Nat) :
    (List.replicate n (0 : UInt8)).splice 0 hd = hd ++ List.replicate (n - 15) 0 := by
  simp [List.splice, hh]

-- Whatever is left of a buffer that is larger than the packet stays zero.
theorem packet2bytary_filled (h : p.argList = .ok vs) (hf : Variant.AllFilled vs)
    (hd : dst.length = 16 + (vs.flatMap (Variant.argument host)).length + pad)
    (hl : dst.length < 4294967296) :
    packet2bytary host p dst = .ok (sOk, p.bytes host vs pad) := by
  generalize hA : vs.flatMap (Variant.argument host) = A at hd
  generalize hH : [bcapHeader] ++ toLe 4 dst.length ++ toLe 2 p.serial ++ toLe 2 p.reserv ++
    toLe 4 (wordOfInt p.id) ++ toLe 2 p.argc = H
  have hh : H.length = 15 := by simp [← hH]
  have hl' : (H ++ List.replicate (dst.length - 15) (0 : UInt8)).length = dst.length := by
    simp [hh]
    omega
  have hw := (args_emit host (dst.length - 1) hf).writes
    ⟨H ++ List.replicate (dst.length - 15) 0, bcapPosDataLen⟩
    (by simp only [hA, bcapPosDataLen]; omega) (by simp only [hl']; omega) (by omega)
  have hp : dst.length - 15 - A.length = pad + 1 := by omega
  simp only [hA] at hw
  rw [List.splice_append (hh.trans bcapPosDataLen.eq_def.symm), List.drop_replicate, hp,
    List.replicate_succ', length_of_argList h] at hw
  have ht : (H ++ A ++ (List.replicate pad 0 ++ [0])).splice (dst.length - 1) [bcapTerminator] =
      H ++ A ++ List.replicate pad 0 ++ [bcapTerminator] := by
    rw [← List.append_assoc, List.splice_append (by simp [hh]; omega)]
    simp
  have hmin : ¬dst.length < bcapSizeMin := by simp only [bcapSizeMin]; omega
  simp only [packet2bytary, if_neg hmin, hH, splice_header hh, h, Exec.ok_bind,
    Exec.pure_eq, hw, ht]
  simp [BcapPacket.bytes, hA, ← hH, hd, bcapSizeMin]

-- A buffer that is too small is not written beyond.
theorem packet2bytary_small (h : p.argList = .ok vs) (hf : Variant.AllFilled vs)
    (hmin : 16 ≤ dst.length) (hd : dst.length < 16 + (vs.flatMap (Variant.argument host)).length)
    (hl : 16 + (vs.flatMap (Variant.argument host)).length < 4294967296) :
    ∃ buf, packet2bytary host p dst = .ok (eInvalidArg, buf) ∧ buf.length = dst.length := by
  generalize hH : [bcapHeader] ++ toLe 4 dst.length ++ toLe 2 p.serial ++ toLe 2 p.reserv ++
    toLe 4 (wordOfInt p.id) ++ toLe 2 p.argc = H
  have hh : H.length = 15 := by simp [← hH]
  have hl' : (H ++ List.replicate (dst.length - 15) (0 : UInt8)).length = dst.length := by
    simp [hh]
    omega
  have ⟨o, he, ho⟩ := (args_emit host (dst.length - 1) hf).refuses
    ⟨H ++ List.replicate (dst.length - 15) 0, bcapPosDataLen⟩
    (by simp only [bcapPosDataLen]; omega) (by simp only [hl']; omega)
    (by simp only [bcapPosDataLen]; omega) (by simp only [bcapPosDataLen]; omega)
  have ho := ho.trans hl'
  rw [length_of_argList h] at he
  have hn : ¬dst.length < bcapSizeMin := Nat.not_lt.mpr hmin
  simp only [packet2bytary, if_neg hn, hH, splice_header hh, h, Exec.ok_bind, Exec.pure_eq, he]
  refine ⟨_, rfl, (List.length_splice ?_).trans ho⟩
  rw [ho, List.length_singleton]
  omega

-- What was encoded has fitted into the buffer.
theorem packet2bytary_fits (h : p.argList = .ok vs) (hf : Variant.AllFilled vs)
    (hl : dst.length < 4294967296) {buf : List UInt8}
    (hrun : packet2bytary host p dst = .ok (sOk, buf)) :
    16 + (vs.flatMap (Variant.argument host)).length ≤ dst.length := by
  by_cases hmin : dst.length < bcapSizeMin
  case pos =>
    rw [packet2bytary, if_pos hmin] at hrun
    cases hrun
  case neg =>
    simp only [packet2bytary, if_neg hmin] at hrun
    rw [bcapSizeMin] at hmin
    generalize hH : [bcapHeader] ++ toLe 4 dst.length ++ toLe 2 p.serial ++ toLe 2 p.reserv ++
      toLe 4 (wordOfInt p.id) ++ toLe 2 p.argc = H at hrun
    have hh : H.length = 15 := by simp [← hH]
    have hlen : ((List.replicate dst.length (0 : UInt8)).splice 0 H).length = dst.length := by
      rw [List.length_splice (by rw [List.length_replicate]; omega), List.length_replicate]
    simp only [h, Exec.ok_bind] at hrun
    obtain ⟨⟨hr, o⟩, hwrite, hrun⟩ := ok_of_bind hrun
    cases hrun
    rw [← length_of_argList h] at hwrite
    have hstart : 15 ≤ dst.length - 1 := by omega
    have hfits : 15 + (vs.flatMap (Variant.argument host)).length ≤ dst.length - 1 :=
      (args_emit host (dst.length - 1) hf).fits hstart (hlen.symm ▸ Nat.sub_le _ _)
        (hlen.symm ▸ hl) hwrite succeeded_sOk
    omega

end

-- The form of a variant that a receiver can read is the one of its value.

theorem bstrText_eq {b : Option Bstr} (h : IsText (Variant.text b)) :
    bstrText b = Variant.text b := by
  cases b
  case none => rfl
  case some b =>
    have hl : wcslen b.chars ≤ 16382 := h.left
    simp only [bstrText, Variant.text, sysStringLen]
    rw [u16_of_lt (by omega)]
    exact List.take_length

theorem sysStringLen_eq {b : Option Bstr} (h : IsText (Variant.text b)) :
    sysStringLen b = (Variant.text b).length := by
  cases b
  case none => rfl
  case some b =>
    have hl : wcslen b.chars ≤ 16382 := h.left
    exact u16_of_lt (by omega)

theorem count_of_stored {v : Variant} (hs : v.Stored) : elements v = some v.value.count := by
  cases v <;> simp only [Variant.Stored] at hs <;> simp only [elements, Variant.value, Value.count]
  case rawArray => rw [Variant.count_eq hs]
  case bstrArray => rw [Variant.count_eq hs.left, List.length_map, hs.right]
  case variantArray => rw [Variant.count_eq hs.left, Variant.length_values, hs.right.left]

section

variable (host : Host)

-- Elements other than dates stay as they are.
theorem convElems_whole {vt : VarType} {conv : List UInt8 → List UInt8} {n : Nat}
    {data : List UInt8} (hconv : vt ≠ .date → conv = id)
    (h : isElement vt ∨ n = 0 ∧ vt ≠ .bstr ∧ vt ≠ .variant) (hd : data.length = n * wireSize vt) :
    n * elementSize vt ≤ data.length ∧ convElems (elementSize vt) conv n data = data := by
  cases h
  case inr h =>
    have ⟨hn, _⟩ := h
    subst hn
    rw [Nat.zero_mul] at hd ⊢
    exact ⟨Nat.zero_le _, (List.eq_nil_of_length_eq_zero hd).symm⟩
  case inl h =>
    have hsize : elementSize vt = wireSize vt := by
      cases vt <;> first | rfl | contradiction
    have hdate : vt ≠ .date := by
      rintro rfl
      contradiction
    rw [hsize, hconv hdate, convElems_id (Nat.le_of_eq hd.symm), ← hd, List.take_length]
    exact ⟨Nat.le_refl _, rfl⟩

theorem sentNumber_eq {vt : VarType} (h : vt ≠ .date) : sentNumber host vt = id := by
  cases vt <;> first | rfl | contradiction

theorem receivedNumber_eq {vt : VarType} (h : vt ≠ .date) : receivedNumber host vt = id := by
  cases vt <;> first | rfl | contradiction

mutual

theorem filled_of_readable : (v : Variant) → v.Stored → v.value.Readable →
    v.Filled ∧ v.payload host = v.value.payload
  | .scalar vt val, _, hv        => by
    have hdate := hv.right.right.left
    refine ⟨trivial, ?_⟩
    simp only [Variant.payload, Variant.value, Value.payload]
    cases vt <;> first | contradiction | rfl
  | .bstr b, _, hv               => by
    refine ⟨trivial, ?_⟩
    simp only [Variant.payload, Variant.value, Value.payload, bstrBytes, textBytes,
      sysStringLen_eq hv, bstrText_eq hv]
  | .rawArray vt psa data, hs, hv => by
    have ⟨_, helem, _, hlen⟩ := hv
    have ⟨hle, hdata⟩ := convElems_whole (sentNumber_eq host) helem hlen
    refine ⟨⟨hs, hle⟩, ?_⟩
    rw [Variant.payload, Variant.count_eq hs]
    exact hdata
  | .bstrArray psa data, hs, hv  => by
    refine ⟨hs, ?_⟩
    simp only [Variant.payload, Variant.value, Value.payload, List.flatMap_map]
    refine List.flatMap_congr fun b hb => ?_
    have ht := hv _ (List.mem_map_of_mem (f := Variant.text) hb)
    rw [bstrBytes, textBytes, sysStringLen_eq ht, bstrText_eq ht]
  | .variantArray psa data, hs, hv => by
    have ⟨hf, hb⟩ := allFilled_of_readable data hs.right.right hv
    exact ⟨⟨hs.left, hs.right.left, hf⟩, hb⟩

theorem allFilled_of_readable : (vs : List Variant) → Variant.AllStored vs →
    Value.AllReadable (Variant.values vs) →
    Variant.AllFilled vs ∧ Variant.bodies host vs = Value.bodies (Variant.values vs)
  | [], _, _       => ⟨trivial, rfl⟩
  | v :: vs, hs, hv => by
    have ⟨hf, hp⟩ := filled_of_readable v hs.left hv.left
    have ⟨hfs, hbs⟩ := allFilled_of_readable vs hs.right hv.right
    refine ⟨⟨hf, hfs⟩, ?_⟩
    simp only [Variant.bodies, Variant.values, Value.bodies, hp, hbs, Variant.vt_value,
      count_of_stored hs.left, Option.getD_some]

end

-- What is read is the value itself.
mutual

theorem received_of_readable : (x : Value) → x.Readable → x.received host = x
  | .number vt data, h    => by
    rw [Value.received, receivedNumber_eq host h.right.right.left]
    rfl
  | .text chars, h        => congrArg Value.text (wcs_of_isText h)
  | .numbers vt n data, h => by
    have ⟨_, he, _, hd⟩ := h
    rw [Value.received, (convElems_whole (receivedNumber_eq host) he hd).right]
  | .texts elems, h       => by
    rw [Value.received, List.map_congr_left fun chars hc =>
      wcs_of_isText (h chars hc), List.map_id']
  | .variants elems, h    => congrArg Value.variants (allReceived_of_readable elems h)

theorem allReceived_of_readable : (xs : List Value) → Value.AllReadable xs →
    Value.allReceived host xs = xs
  | [], _      => rfl
  | x :: xs, h => by
    rw [Value.allReceived, received_of_readable x h.left, allReceived_of_readable xs h.right]

end

theorem arguments_eq {vs : List Variant} (hs : Variant.AllStored vs)
    (hv : Value.AllReadable (Variant.values vs)) :
    vs.flatMap (Variant.argument host) = (Variant.values vs).flatMap Value.argument := by
  induction vs
  case nil => rfl
  case cons v vs ih =>
    have ⟨_, hp⟩ := filled_of_readable host v hs.left hv.left
    simp only [List.flatMap_cons, Variant.values, ih hs.right hv.right]
    simp only [Variant.argument, Variant.body, Value.argument, Value.body, hp, Variant.vt_value,
      count_of_stored hs.left, Option.getD_some]

end

section

variable {p : BcapPacket} {vs : List Variant}

theorem calcSizePacket_eq (h : p.argList = .ok vs) (hs : Variant.AllStored vs)
    (hv : Value.AllReadable (Variant.values vs))
    (hl : 16 + ((Variant.values vs).flatMap Value.argument).length < 4294967296) :
    calcSizePacket p = .ok (16 + ((Variant.values vs).flatMap Value.argument).length) := by
  -- The size does not depend on the form of dates.
  rw [← arguments_eq ampleHost hs hv] at hl ⊢
  exact calcSizePacket_filled h (allFilled_of_readable ampleHost vs hs hv).left hl

theorem packet2bytary_eq (host : Host) {dst : List UInt8} {pad : Nat} (h : p.argList = .ok vs)
    (hs : Variant.AllStored vs) (hv : Value.AllReadable (Variant.values vs))
    (hd : dst.length = 16 + ((Variant.values vs).flatMap Value.argument).length + pad)
    (hl : dst.length < 4294967296) :
    packet2bytary host p dst =
      .ok (sOk, frame p.serial p.reserv p.id (Variant.values vs) (List.replicate pad 0)) := by
  rw [← arguments_eq host hs hv] at hd
  rw [packet2bytary_filled h (allFilled_of_readable host vs hs hv).left hd hl,
    BcapPacket.bytes, frame,
    arguments_eq host hs hv, List.length_replicate, Variant.length_values, length_of_argList h]

end

end Bcap
