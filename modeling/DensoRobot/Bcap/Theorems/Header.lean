import DensoRobot.Bcap.Theorems.Safety

open HRESULT Bytes

namespace Bcap

section

variable {f g held : List UInt8}

theorem window_start {as bs t : List UInt8} {o n : Nat} (ha : as <+: t) (hb : bs <+: t)
    (hla : o + n ≤ as.length) (hlb : o + n ≤ bs.length) : as.window o n = bs.window o n := by
  have ⟨_, ha⟩ := ha
  have ⟨_, hb⟩ := hb
  have h := congrArg (fun t => (t.drop o).take n) (ha.trans hb.symm)
  beta_reduce at h
  rw [List.drop_append_of_le_length (by omega), List.drop_append_of_le_length (by omega),
    List.take_append_of_le_length (by simp only [List.length_drop]; omega),
    List.take_append_of_le_length (by simp only [List.length_drop]; omega)] at h
  exact h

end
end Bcap
