import Mathlib.Data.List.DropRight

-- Lists without the elements at their ends that a predicate holds for.

namespace List

variable {p : α → Bool} {l : List α}

def trim (p : α → Bool) (l : List α) : List α :=
  (l.dropWhile p).rdropWhile p

theorem trim_sublist (l : List α) : (l.trim p).Sublist l := by
  have hr := rdropWhile_prefix p (l.dropWhile p)
  exact hr.sublist.trans (dropWhile_sublist p)

-- An element that stays keeps everything in front of it.
theorem rdropWhile_append_of_exists (k : List α) (h : ∃ a ∈ l, p a = false) :
    (k ++ l).rdropWhile p = k ++ l.rdropWhile p := by
  induction l using List.reverseRecOn
  case nil =>
    obtain ⟨a, ha, -⟩ := h
    contradiction
  case append_singleton l a ih =>
    rw [← append_assoc, rdropWhile_concat, rdropWhile_concat]
    split
    case isFalse => rw [append_assoc]
    case isTrue ha =>
      apply ih
      obtain ⟨b, hb, hn⟩ := h
      cases mem_append.mp hb
      case inl hb => exact ⟨b, hb, hn⟩
      case inr hb => rw [mem_singleton.mp hb, ha] at hn; contradiction

theorem rdropWhile_append_of_forall (l : List α) {k : List α} (h : ∀ a ∈ k, p a) :
    (l ++ k).rdropWhile p = l.rdropWhile p := by
  induction k using List.reverseRecOn
  case nil => rw [append_nil]
  case append_singleton k a ih =>
    rw [← append_assoc, rdropWhile_concat_pos p _ a (h a <| mem_append_right k mem_cons_self)]
    exact ih fun b hb => h b (mem_append_left _ hb)

-- What is dropped at the front, and what stays of the list.
theorem takeWhile_append_trim (h : ∃ a ∈ l, p a = false) :
    l.rdropWhile p = l.takeWhile p ++ l.trim p := by
  have hd : ∃ a ∈ l.dropWhile p, p a = false := by
    by_contra hn
    have hall : ∀ a ∈ l.dropWhile p, p a := fun a ha => by
      by_contra hp
      exact hn ⟨a, ha, by simpa using hp⟩
    have hnil : l.dropWhile p = [] := by
      rw [← dropWhile_idempotent]
      exact dropWhile_eq_nil_iff.mpr hall
    obtain ⟨a, ha, hp⟩ := h
    rw [dropWhile_eq_nil_iff.mp hnil a ha] at hp
    contradiction
  calc l.rdropWhile p
    _ = (l.takeWhile p ++ l.dropWhile p).rdropWhile p := by rw [takeWhile_append_dropWhile]
    _ = l.takeWhile p ++ l.trim p                      := rdropWhile_append_of_exists _ hd

-- Elements that are dropped may stand on both sides.
theorem trim_padded {k m : List α} (hk : ∀ a ∈ k, p a) (hm : ∀ a ∈ m, p a)
    (h : ∃ a ∈ l, p a = false) : (k ++ l ++ m).trim p = l.trim p := by
  have hd : ¬∀ a ∈ l, p a := by
    intro hall
    obtain ⟨a, ha, hp⟩ := h
    rw [hall a ha] at hp
    contradiction
  rw [trim, append_assoc, dropWhile_append_of_pos hk, dropWhile_append,
    if_neg (by rwa [isEmpty_iff, dropWhile_eq_nil_iff]), rdropWhile_append_of_forall _ hm, trim]

end List
