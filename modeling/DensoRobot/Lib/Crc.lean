import Mathlib.Data.List.Basic
import Mathlib.Logic.Function.Iterate

-- Cyclic redundancy checks: the register of a division by a polynomial, which takes in the bits of
-- a message at its highest position.

namespace Crc

section

variable {w : Nat}

def shift (poly c : BitVec w) : BitVec w :=
  if c.msb then (c <<< 1) ^^^ poly else c <<< 1

-- A bit at the highest position.
def top (b : Bool) : BitVec w :=
  if b then BitVec.twoPow w (w - 1) else 0#w

def feed (poly c : BitVec w) (b : Bool) : BitVec w :=
  shift poly (c ^^^ top b)

def run (poly c : BitVec w) (bits : List Bool) : BitVec w :=
  bits.foldl (feed poly) c

-- The bits from the highest position on.
def placed : List Bool → BitVec w
  | []      => 0#w
  | b :: bs => top b ^^^ placed bs >>> 1

variable {poly a b c : BitVec w} {bits : List Bool}

theorem top_xor (x y : Bool) : (top (x ^^ y) : BitVec w) = top x ^^^ top y := by
  cases x <;> cases y <;> simp [top]

theorem getMsbD_top (x : Bool) (i : Nat) :
    (top x : BitVec w).getMsbD i = (decide (i < w ∧ i = 0) && x) := by
  cases x
  case false => simp [top]
  case true  =>
    simp only [top, if_true, BitVec.getMsbD, BitVec.getLsbD_twoPow, Bool.and_true]
    by_cases hi : i < w
    case neg => simp [hi]
    case pos =>
      have he : (w - 1 = w - 1 - i) ↔ i = 0 := by omega
      have hw : w - 1 < w := by omega
      simp [hi, he, hw]

theorem shift_zero : shift poly 0#w = 0#w := by
  simp [shift]

theorem shift_xor : shift poly (a ^^^ b) = shift poly a ^^^ shift poly b := by
  have hc (x y : BitVec w) : x ^^^ y = (x ^^^ poly) ^^^ (y ^^^ poly) := by
    rw [BitVec.xor_comm y, BitVec.xor_assoc, ← BitVec.xor_assoc poly, BitVec.xor_self,
      BitVec.zero_xor]
  simp only [shift, BitVec.msb_xor, BitVec.shiftLeft_xor_distrib]
  cases a.msb <;> cases b.msb
  case false.false => rfl
  case false.true  => exact BitVec.xor_assoc ..
  case true.false  =>
    show a <<< 1 ^^^ b <<< 1 ^^^ poly = a <<< 1 ^^^ poly ^^^ b <<< 1
    rw [BitVec.xor_assoc, BitVec.xor_comm (b <<< 1), BitVec.xor_assoc]
  case true.true   => exact hc ..

-- The lowest bit of the polynomial tells whether it was subtracted.
theorem shift_eq_zero (hp : poly.getLsbD 0 = true) (h : shift poly c = 0#w) : c = 0#w := by
  simp only [shift] at h
  split at h
  case isTrue =>
    have hw : 0 < w := BitVec.lt_of_getLsbD hp
    have h0 : (c <<< 1 ^^^ poly).getLsbD 0 = false := h ▸ BitVec.getLsbD_zero
    rw [BitVec.getLsbD_xor, hp, BitVec.getLsbD_shiftLeft] at h0
    simp at h0
  case isFalse hm =>
    apply BitVec.eq_of_getMsbD_eq
    intro i hi
    cases i
    case zero   =>
      rw [← BitVec.msb_eq_getMsbD_zero, eq_false_of_ne_true hm]
      exact BitVec.getMsbD_zero.symm
    case succ i =>
      have hs := congrArg (BitVec.getMsbD · i) h
      simpa using hs

theorem iterate_shift_ne_zero (hp : poly.getLsbD 0 = true) (h : c ≠ 0#w) (n : Nat) :
    (shift poly)^[n] c ≠ 0#w := by
  induction n generalizing c
  case zero   => exact h
  case succ ih => exact ih fun hs => h (shift_eq_zero hp hs)

theorem feed_xor (x y : Bool) : feed poly (a ^^^ b) (x ^^ y) = feed poly a x ^^^ feed poly b y := by
  rw [feed, feed, feed, top_xor, ← shift_xor]
  congr 1
  ac_rfl

theorem run_xor {xs ys : List Bool} (h : xs.length = ys.length) :
    run poly (a ^^^ b) (xs.zipWith xor ys) = run poly a xs ^^^ run poly b ys := by
  induction xs generalizing a b ys
  case nil =>
    cases List.eq_nil_of_length_eq_zero h.symm
    rfl
  case cons x xs ih =>
    cases ys
    case nil       => contradiction
    case cons y ys =>
      simp only [List.zipWith_cons_cons, run, List.foldl_cons, feed_xor]
      exact ih (Nat.succ.inj h)

theorem run_append (xs ys : List Bool) : run poly c (xs ++ ys) = run poly (run poly c xs) ys :=
  List.foldl_append

theorem feed_false : feed poly c false = shift poly c := by
  simp [feed, top]

theorem run_of_forall_false (h : ∀ b ∈ bits, b = false) :
    run poly c bits = (shift poly)^[bits.length] c := by
  induction bits generalizing c
  case nil => rfl
  case cons b bits ih =>
    rw [h b List.mem_cons_self, run, List.foldl_cons, feed_false]
    exact ih fun b hb => h b (List.mem_cons_of_mem _ hb)

theorem run_zero_of_forall_false (h : ∀ b ∈ bits, b = false) : run poly 0#w bits = 0#w := by
  rw [run_of_forall_false h]
  exact Function.iterate_fixed shift_zero _

theorem getMsbD_placed (bits : List Bool) (i : Nat) :
    (placed bits : BitVec w).getMsbD i = (decide (i < w) && bits.getD i false) := by
  induction bits generalizing i
  case nil => simp [placed]
  case cons b bits ih =>
    rw [placed, BitVec.getMsbD_xor, getMsbD_top, BitVec.getMsbD_ushiftRight, ih]
    cases i
    case zero   => simp
    case succ i =>
      have hi : i + 1 < w → i < w := Nat.lt_of_succ_lt
      by_cases h : i + 1 < w <;> simp [h, hi]

theorem shift_placed (h : bits.length < w) : shift poly (placed bits >>> 1) = placed bits := by
  have hm : (placed bits >>> 1 : BitVec w).msb = false := by
    rw [BitVec.msb_eq_getMsbD_zero, BitVec.getMsbD_ushiftRight]
    simp
  rw [shift, hm, if_neg Bool.false_ne_true]
  apply BitVec.eq_of_getMsbD_eq
  intro i hi
  rw [BitVec.getMsbD_shiftLeft, BitVec.getMsbD_ushiftRight, Nat.add_sub_cancel, getMsbD_placed]
  by_cases hs : i + 1 < w
  case pos => simp [hs]
  case neg =>
    have hlen : bits.length ≤ i := by omega
    simp [hs, List.getElem?_eq_none hlen]

-- Taking in the bits one by one amounts to having them in the register from the beginning.
theorem run_eq_iterate (h : bits.length ≤ w) :
    run poly c bits = (shift poly)^[bits.length] (c ^^^ placed bits) := by
  induction bits generalizing c
  case nil => simp [run, placed]
  case cons b bits ih =>
    rw [run, List.foldl_cons, List.length_cons, Function.iterate_succ_apply, placed,
      ← BitVec.xor_assoc, shift_xor, shift_placed h]
    exact ih (Nat.le_of_succ_le h)

theorem placed_ne_zero (h : bits.length ≤ w) (hb : true ∈ bits) :
    (placed bits : BitVec w) ≠ 0#w := by
  intro hz
  obtain ⟨i, hi, hget⟩ := List.getElem_of_mem hb
  have hm := getMsbD_placed (w := w) bits i
  rw [hz, decide_eq_true (Nat.lt_of_lt_of_le hi h), List.getD,
    List.getElem?_eq_getElem hi, hget] at hm
  exact absurd (BitVec.getMsbD_zero.symm.trans hm) Bool.false_ne_true

-- The register after bits of which some are set, but only among the middle ones.
theorem run_ne_zero {pre post : List Bool} (hp : poly.getLsbD 0 = true)
    (hpre : ∀ b ∈ pre, b = false)
    (hpost : ∀ b ∈ post, b = false) (hl : bits.length ≤ w) (hb : true ∈ bits) :
    run poly 0#w (pre ++ bits ++ post) ≠ 0#w := by
  rw [run_append, run_append, run_zero_of_forall_false hpre, run_of_forall_false hpost,
    run_eq_iterate hl, BitVec.zero_xor]
  exact iterate_shift_ne_zero hp (iterate_shift_ne_zero hp (placed_ne_zero hl hb) _) _

-- Messages that differ, but only within as many bits as the register has, leave different
-- registers.
theorem run_ne_of_burst (hp : poly.getLsbD 0 = true) {xs ys : List Bool}
    (hl : xs.length = ys.length)
    (hne : xs ≠ ys) {p : Nat} (hburst : ∀ i, xs[i]? ≠ ys[i]? → p ≤ i ∧ i < p + w) :
    run poly c xs ≠ run poly c ys := by
  intro heq
  let e := xs.zipWith xor ys
  have hlen : e.length = xs.length := by simp [e, hl]
  have he (i : Nat) (hi : i < e.length) : e[i] = true ↔ xs[i]? ≠ ys[i]? := by
    have hx : i < xs.length := hlen ▸ hi
    have hy : i < ys.length := hl ▸ hx
    rw [List.getElem?_eq_getElem hx, List.getElem?_eq_getElem hy, ne_eq, Option.some.injEq]
    simp [e]
  have hzero : run poly 0#w e = 0#w := by
    have hx : run poly (c ^^^ c) e = run poly c xs ^^^ run poly c ys := run_xor hl
    rwa [heq, BitVec.xor_self, BitVec.xor_self] at hx
  have hfalse {b : Bool} {i : Nat} (hb : e[i]? = some b) (hi : ¬(p ≤ i ∧ i < p + w)) :
      b = false := by
    obtain ⟨hlt, hget⟩ := List.getElem?_eq_some_iff.mp hb
    cases b
    case false => rfl
    case true  => exact absurd (hburst i ((he i hlt).mp hget)) hi
  have hsplit : e = e.take p ++ (e.drop p).take w ++ (e.drop p).drop w := by
    rw [List.append_assoc, List.take_append_drop, List.take_append_drop]
  have hpre : ∀ b ∈ e.take p, b = false := by
    intro b hb
    obtain ⟨i, hi, hget⟩ := List.getElem_of_mem hb
    rw [List.getElem_take] at hget
    rw [List.length_take] at hi
    exact hfalse (List.getElem?_eq_some_iff.mpr ⟨_, hget⟩) (by omega)
  have hpost : ∀ b ∈ (e.drop p).drop w, b = false := by
    intro b hb
    obtain ⟨i, hi, hget⟩ := List.getElem_of_mem hb
    rw [List.getElem_drop, List.getElem_drop] at hget
    exact hfalse (List.getElem?_eq_some_iff.mpr ⟨_, hget⟩) (by omega)
  have hmiddle : true ∈ (e.drop p).take w := by
    have hi : ∃ i : Nat, xs[i]? ≠ ys[i]? := by
      apply Classical.byContradiction
      intro h
      exact hne (List.ext_getElem? fun i => Classical.byContradiction fun hi => h ⟨i, hi⟩)
    obtain ⟨i, hi⟩ := hi
    obtain ⟨hpi, hip⟩ := hburst i hi
    have hlt : i < e.length := by
      apply Classical.byContradiction
      intro h
      rw [List.getElem?_eq_none (by omega), List.getElem?_eq_none (by omega)] at hi
      exact hi rfl
    have hmem : ((e.drop p).take w)[i - p]? = some true := by
      rw [List.getElem?_take_of_lt (by omega), List.getElem?_drop, Nat.add_sub_cancel' hpi,
        List.getElem?_eq_getElem hlt, (he i hlt).mpr hi]
    exact List.mem_of_getElem? hmem
  exact run_ne_zero hp hpre hpost (List.length_take_le ..) hmiddle (hsplit ▸ hzero)

end

end Crc
