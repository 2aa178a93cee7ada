import Mathlib.Data.List.Iterate
import Mathlib.Dynamics.PeriodicPts.Defs

-- Values that are taken from a counter one after the other, where the counter comes back to its
-- first value after some steps.

open Function

namespace Cycle

variable {f : α → α} {a : α} {n : Nat} {window : List α}

theorem append_iterate {pre post : List α} (h : pre ++ post = List.iterate f a n) :
    post = List.iterate f (f^[pre.length] a) post.length := by
  have hn : n = pre.length + post.length := by
    rw [← List.length_append, h, List.length_iterate]
  rw [hn, List.iterate_add] at h
  exact (List.append_inj h (List.length_iterate ..).symm).2

theorem infix_iterate (h : window <:+: List.iterate f a n) :
    ∃ k, window = List.iterate f (f^[k] a) window.length := by
  obtain ⟨pre, post, h⟩ := h
  rw [List.append_assoc] at h
  have hpost := append_iterate h
  rw [List.length_append, List.iterate_add] at hpost
  exact ⟨pre.length, (List.append_inj hpost (List.length_iterate ..).symm).1⟩

theorem nodup_iterate (h : n ≤ minimalPeriod f a) : (List.iterate f a n).Nodup := by
  rw [← List.range_map_iterate]
  apply List.Nodup.map_on _ List.nodup_range
  intro i hi j hj heq
  have hi := Nat.lt_of_lt_of_le (List.mem_range.mp hi) h
  have hj := Nat.lt_of_lt_of_le (List.mem_range.mp hj) h
  exact iterate_injOn_Iio_minimalPeriod hi hj heq

-- As many consecutive values as a period has are different.
theorem nodup_of_infix (ha : a ∈ periodicPts f) (h : window <:+: List.iterate f a n)
    (hl : window.length ≤ minimalPeriod f a) : window.Nodup := by
  obtain ⟨k, hk⟩ := infix_iterate h
  rw [hk]
  exact nodup_iterate (minimalPeriod_apply_iterate ha k ▸ hl)

end Cycle
