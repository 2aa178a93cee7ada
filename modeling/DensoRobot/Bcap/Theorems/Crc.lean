import DensoRobot.Lib.Crc
import DensoRobot.Bcap.Send

namespace Bcap

def crcPoly : BitVec 16 := 0x1021#16

-- The bits of a byte, the most significant one first.
def bitsOf (b : UInt8) : List Bool :=
  (List.range 8).map b.toBitVec.getMsbD

theorem length_bitsOf (b : UInt8) : (bitsOf b).length = 8 := by
  rw [bitsOf, List.length_map, List.length_range]

section

variable {c : UInt16} {b : UInt8} {bs : List UInt8}

theorem and_ne_zero_iff : c &&& 0x8000 ≠ 0 ↔ c.toBitVec.msb = true := by
  have hand : (c &&& 0x8000).toBitVec = c.toBitVec &&& BitVec.twoPow 16 15 := rfl
  rw [ne_eq, ← UInt16.toBitVec_inj, hand, BitVec.and_twoPow, BitVec.msb_eq_getLsbD_last]
  cases c.toBitVec.getLsbD 15 <;> decide

theorem toBitVec_crcShift : (crcShift c).toBitVec = Crc.shift crcPoly c.toBitVec := by
  rw [crcShift, Crc.shift]
  cases hc : c.toBitVec.msb
  case true  => rw [if_pos (and_ne_zero_iff.mpr hc)]; rfl
  case false => rw [if_neg (mt and_ne_zero_iff.mp (hc ▸ Bool.false_ne_true))]; rfl

theorem toBitVec_repeat (n : Nat) :
    (Nat.repeat crcShift n c).toBitVec = (Crc.shift crcPoly)^[n] c.toBitVec := by
  induction n
  case zero      => rfl
  case succ n ih => rw [Nat.repeat, toBitVec_crcShift, ih, Function.iterate_succ_apply']

theorem placed_bitsOf : Crc.placed (bitsOf b) = (b.toUInt16 <<< 8).toBitVec := by
  apply BitVec.eq_of_getMsbD_eq
  intro i hi
  rw [Crc.getMsbD_placed, UInt16.toBitVec_shiftLeft, UInt8.toBitVec_toUInt16]
  have hget : (bitsOf b).getD i false = (decide (i < 8) && b.toBitVec.getMsbD i) := by
    rw [List.getD, bitsOf, List.getElem?_map]
    by_cases h8 : i < 8
    case pos => simp [h8]
    case neg => simp [h8]
  have hset : (b.toBitVec.setWidth 16 <<< 8).getMsbD i =
      (decide (i < 8) && b.toBitVec.getMsbD i) := by
    rw [BitVec.getMsbD_shiftLeft, BitVec.getMsbD_eq_getLsbD, BitVec.getLsbD_setWidth,
      BitVec.getMsbD_eq_getLsbD]
    by_cases h8 : i < 8
    case neg =>
      have h16 : ¬i + 8 < 16 := by omega
      simp [h8, h16]
    case pos =>
      have h16 : i + 8 < 16 := by omega
      have hpos : 16 - 1 - (i + 8) = 8 - 1 - i := by omega
      have hlt : 8 - 1 - i < 16 := by omega
      simp [h8, h16, hpos, hlt]
  rw [hget, decide_eq_true hi, Bool.true_and]
  exact hset.symm

theorem toBitVec_crcByte : (crcByte c b).toBitVec = Crc.run crcPoly c.toBitVec (bitsOf b) := by
  rw [crcByte, toBitVec_repeat, UInt16.toBitVec_xor, ← placed_bitsOf]
  have hl : (bitsOf b).length ≤ 16 := length_bitsOf b ▸ by decide
  rw [Crc.run_eq_iterate hl, length_bitsOf]

theorem toBitVec_foldl : (bs.foldl crcByte c).toBitVec = Crc.run crcPoly c.toBitVec
    (bs.flatMap bitsOf) := by
  induction bs generalizing c
  case nil => rfl
  case cons b bs ih =>
    rw [List.foldl_cons, ih, toBitVec_crcByte, List.flatMap_cons, Crc.run_append]

theorem toBitVec_calcCrc : (calcCrc bs).toBitVec = Crc.run crcPoly 0xFFFF#16 (bs.flatMap bitsOf) :=
  toBitVec_foldl

theorem bitsOf_injective {b b' : UInt8} (h : bitsOf b = bitsOf b') : b = b' := by
  apply UInt8.toBitVec_inj.mp
  apply BitVec.eq_of_getMsbD_eq
  intro i hi
  have hget (b : UInt8) : (bitsOf b)[i]? = some (b.toBitVec.getMsbD i) := by
    rw [bitsOf, List.getElem?_map, List.getElem?_range hi, Option.map_some]
  exact Option.some.inj ((hget b).symm.trans ((congrArg (·[i]?) h).trans (hget b')))

theorem length_flatMap_bitsOf : (bs.flatMap bitsOf).length = 8 * bs.length := by
  induction bs
  case nil => rfl
  case cons b bs ih =>
    rw [List.flatMap_cons, List.length_append, length_bitsOf, ih, List.length_cons, Nat.mul_succ,
      Nat.add_comm]

theorem flatMap_bitsOf_injective {bs' : List UInt8} (hl : bs.length = bs'.length)
    (h : bs.flatMap bitsOf = bs'.flatMap bitsOf) : bs = bs' := by
  induction bs generalizing bs'
  case nil => exact (List.eq_nil_of_length_eq_zero hl.symm).symm
  case cons b bs ih =>
    cases bs'
    case nil         => contradiction
    case cons b' bs' =>
      rw [List.flatMap_cons, List.flatMap_cons] at h
      obtain ⟨hb, hbs⟩ := List.append_inj h ((length_bitsOf b).trans (length_bitsOf b').symm)
      rw [bitsOf_injective hb, ih (Nat.succ.inj hl) hbs]

end

theorem calcCrc_detects_bursts {a b : List UInt8} {n : Nat} (ha : a.length = n) (hb : b.length = n)
    (hne : a ≠ b) {p : Nat} (hburst : ∀ i : Nat, (a.flatMap bitsOf)[i]? ≠ (b.flatMap bitsOf)[i]? →
      p ≤ i ∧ i < p + 16) : calcCrc a ≠ calcCrc b := by
  intro heq
  have hl : a.length = b.length := ha.trans hb.symm
  have hbits : (a.flatMap bitsOf).length = (b.flatMap bitsOf).length := by
    rw [length_flatMap_bitsOf, length_flatMap_bitsOf, hl]
  have hrun : Crc.run crcPoly 0xFFFF#16 (a.flatMap bitsOf) =
      Crc.run crcPoly 0xFFFF#16 (b.flatMap bitsOf) :=
    toBitVec_calcCrc.symm.trans ((congrArg UInt16.toBitVec heq).trans toBitVec_calcCrc)
  exact Crc.run_ne_of_burst (by decide) hbits
    (fun h => hne (flatMap_bitsOf_injective hl h)) hburst hrun

-- A burst of two bits across the border of two bytes.
theorem calcCrc_burst : calcCrc [0x12, 0x34, 0x56] ≠ calcCrc [0x12, 0x35, 0xD6] := by
  refine calcCrc_detects_bursts (n := 3) (p := 15) rfl rfl (by decide) ?_
  intro i hi
  by_cases hlt : i < 24
  case pos => exact (by decide : ∀ i < 24, ([0x12, 0x34, 0x56].flatMap bitsOf)[i]? ≠
    ([0x12, 0x35, 0xD6].flatMap bitsOf)[i]? → 15 ≤ i ∧ i < 15 + 16) i hlt hi
  case neg =>
    rw [List.getElem?_eq_none (Nat.not_lt.mp hlt), List.getElem?_eq_none (Nat.not_lt.mp hlt)] at hi
    exact absurd rfl hi

end Bcap
