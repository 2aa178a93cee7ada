import DensoRobot.Lib.Brackets
import DensoRobot.Rac.RacVariant

open HRESULT Bytes Brackets

namespace Rac

-- A segment of a text, which is not split any further.
def Segment (s : List UInt8) : Prop :=
  Nested 40 41 (· ≠ 44) s

theorem wrap_int32 {z : Int} (hl : -2147483648 ≤ z) (hu : z < 2147483648) :
    IntType.int32.wrap z = z :=
  IntType.wrap_of_inRange (by decide) ⟨hl, hu⟩

-- The brackets of a text that is accepted make up for those that are open, but for the number of
-- values of an `int`.
theorem balance_of_splitFrom {iBracket : Int} {chPos : List UInt8}
    (h : (splitFrom iBracket chPos).isSome) :
    ∃ d : Int, -chPos.length ≤ d ∧ d ≤ chPos.length ∧ (iBracket + d) % 4294967296 = 0 := by
  have hwrap (z : Int) : IntType.int32.wrap z % 4294967296 = z % 4294967296 :=
    IntType.int32.emod_wrap z
  induction chPos generalizing iBracket
  case nil =>
    rw [splitFrom] at h
    split at h
    case isTrue     => cases h
    case isFalse hz => exact ⟨0, Int.le_refl _, Int.le_refl _, by omega⟩
  case cons c chPos ih =>
    rw [splitFrom] at h
    simp only [List.length_cons]
    split at h
    case isTrue =>
      obtain ⟨d, hl, hu, hd⟩ := ih (by simpa using h)
      have hw := hwrap (iBracket + 1)
      exact ⟨d + 1, by omega, by omega, by omega⟩
    case isFalse =>
      split at h
      case isTrue =>
        simp only at h
        split at h
        case isTrue => cases h
        case isFalse =>
          obtain ⟨d, hl, hu, hd⟩ := ih (by simpa using h)
          have hw := hwrap (iBracket - 1)
          exact ⟨d - 1, by omega, by omega, by omega⟩
      case isFalse =>
        split at h
        case isTrue =>
          obtain ⟨d, hl, hu, hd⟩ := ih (by simpa using h)
          exact ⟨d, by omega, by omega, hd⟩
        case isFalse =>
          obtain ⟨d, hl, hu, hd⟩ := ih (by simpa using h)
          exact ⟨d, by omega, by omega, hd⟩

-- Where the counter of the brackets overflows, the text is too short to close them.
theorem splitFrom_overflow {chPos : List UInt8} (h : chPos.length < 2147483648) :
    splitFrom (IntType.int32.wrap 2147483648) chPos = none ∧
      split 40 41 44 2147483648 chPos = none := by
  constructor
  case left =>
    refine Option.not_isSome_iff_eq_none.mp fun hs => ?_
    obtain ⟨d, hl, hu, hd⟩ := balance_of_splitFrom hs
    have hw : IntType.int32.wrap 2147483648 = -2147483648 := by decide
    omega
  case right =>
    refine Option.not_isSome_iff_eq_none.mp fun hs => ?_
    exact absurd (le_length_of_split hs) (Nat.not_le.mpr h)

theorem splitFrom_eq {depth : Nat} {chPos : List UInt8} (hd : depth < 2147483648)
    (h : depth + chPos.length < 4294967296) :
    splitFrom depth chPos = split 40 41 44 depth chPos := by
  induction chPos generalizing depth
  case nil => simp only [splitFrom, split, ne_eq, Int.natCast_eq_zero, ite_not]
  case cons c chPos ih =>
    rw [List.length_cons] at h
    have hopen : splitFrom (IntType.int32.wrap ((depth : Int) + 1)) chPos =
        split 40 41 44 (depth + 1) chPos := by
      by_cases hlast : depth + 1 < 2147483648
      case pos =>
        have hnext : splitFrom ((depth + 1 : Nat) : Int) chPos = split 40 41 44 (depth + 1) chPos :=
          ih hlast (by omega)
        rw [wrap_int32 (by omega) (by omega)]
        exact hnext
      case neg =>
        have heq : depth = 2147483647 := by omega
        subst heq
        have hshort : chPos.length < 2147483648 := by omega
        obtain ⟨hs, hsplit⟩ := splitFrom_overflow hshort
        exact hs.trans hsplit.symm
    have hclose : (if IntType.int32.wrap ((depth : Int) - 1) < 0 then none
          else (splitFrom (IntType.int32.wrap ((depth : Int) - 1)) chPos).map
            (List.modifyHead (c :: ·))) =
        if depth = 0 then none
          else (split 40 41 44 (depth - 1) chPos).map (List.modifyHead (c :: ·)) := by
      rw [wrap_int32 (by omega) (by omega)]
      by_cases hz : depth = 0
      case pos => rw [if_pos (by omega), if_pos hz]
      case neg =>
        have hpred : (depth : Int) - 1 = (depth - 1 : Nat) := by omega
        rw [if_neg (by omega), if_neg hz, hpred, ih (by omega) (by omega)]
    simp only [splitFrom, split, hclose, hopen, ih hd (by omega), Int.natCast_eq_zero]

-- The segments of a text that is accepted.
structure Splits (chSrc : List UInt8) (split : List (List UInt8)) : Prop where
  nonempty : split ≠ []
  joined   : [44].intercalate split = chSrc
  segments : ∀ chPos ∈ split, Segment chPos

theorem splitFrom_iff {chSrc : List UInt8} (h : chSrc.length < 4294967296)
    {split : List (List UInt8)} : splitFrom 0 chSrc = some split ↔ Splits chSrc split := by
  have hsplit := splitFrom_eq (show 0 < 2147483648 by decide) (by rwa [Nat.zero_add])
  rw [Int.natCast_zero] at hsplit
  rw [hsplit, split_iff (by decide) (by decide) (by decide)]
  exact ⟨fun ⟨hne, hj, hs⟩ => ⟨hne, hj, hs⟩, fun ⟨hne, hj, hs⟩ => ⟨hne, hj, hs⟩⟩

theorem splitRacStr_of_malloc {host : Host} {next : Nat} (hm : host.malloc next = true)
    {chSrc : List UInt8} (h : chSrc.length < 4294967295) (split : List (List UInt8)) :
    (splitRacStr host chSrc next).1 = some split ↔
      split.length < 2147483648 ∧ Splits chSrc split := by
  have hcount (hs : Splits chSrc split) : 0 ≤ i32 split.length ↔ split.length < 2147483648 := by
    have hle : split.length ≤ chSrc.length + 1 := hs.joined ▸ length_le_intercalate split
    rw [i32, u32_of_lt (by omega)]
    split <;> omega
  simp only [splitRacStr, Host.alloc, hm, if_true, Option.filter_eq_some_iff, decide_eq_true_eq,
    splitFrom_iff (Nat.lt_succ_of_lt h)]
  exact (and_congr_right hcount).trans and_comm

-- The text of an array is split into the segments that are joined with commas, whose brackets are
-- balanced and which have no comma outside of them. Any other text is refused.
theorem splitRacStr_iff (host : Host) {chSrc : List UInt8} (h : chSrc.length < 4294967295)
    (next : Nat) (split : List (List UInt8)) :
    (splitRacStr host chSrc next).1 = some split ↔
      host.malloc next = true ∧ split.length < 2147483648 ∧ Splits chSrc split := by
  by_cases hm : host.malloc next = true
  case pos => rw [splitRacStr_of_malloc hm h, and_iff_right hm]
  case neg => simp [splitRacStr, Host.alloc, hm]

-- `1,(,)`
theorem bracketedComma_splits :
    (splitRacStr ⟨fun _ => true, id, some⟩ [49, 44, 40, 44, 41] 0).1 = some
    [[49], [40, 44, 41]] := by
  refine (splitRacStr_iff ⟨fun _ => true, id, some⟩ (by decide) 0 _).mpr
    ⟨rfl, by decide, by decide, rfl, ?_⟩
  refine List.forall_mem_cons.mpr ⟨?_, List.forall_mem_singleton.mpr ?_⟩
  case refine_1 => exact .char (by decide) (by decide) (by decide) .nil
  case refine_2 => exact .nest (.char (by decide) (by decide) trivial .nil) .nil

theorem splitRacStr_next (host : Host) (chSrc : List UInt8) (next : Nat) :
    (splitRacStr host chSrc next).2 = next + 1 := by
  rw [splitRacStr, Host.alloc]
  split
  case h_1 h => exact (congrArg Prod.snd h).symm
  case h_2 h => exact (congrArg Prod.snd h).symm

end Rac
