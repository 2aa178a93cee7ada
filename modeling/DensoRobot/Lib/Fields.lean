import Mathlib.Data.List.Basic

-- Texts that consist of fields with separators between them.

namespace Fields

variable {α : Type} {sep : α} {f f' : List α} {fs fs' : List (List α)}

def text (sep : α) (f : List α) (fs : List (List α)) : List α :=
  f ++ fs.flatMap (sep :: ·)

-- No field has the separator in it.
def Plain (sep : α) (f : List α) (fs : List (List α)) : Prop :=
  ∀ g ∈ f :: fs, sep ∉ g

theorem Plain.head (h : Plain sep f fs) : sep ∉ f :=
  h f List.mem_cons_self

theorem Plain.tail (h : Plain sep f (g :: fs)) : Plain sep g fs :=
  fun g' hg => h g' (List.mem_cons_of_mem f hg)

@[simp]
theorem text_nil : text sep f [] = f := by
  simp [text]

theorem text_cons : text sep f (g :: fs) = f ++ sep :: text sep g fs := by
  simp [text]

variable [DecidableEq α]

theorem takeWhile_of_not_mem (h : sep ∉ f) (rest : List α) :
    (f ++ sep :: rest).takeWhile (· ≠ sep) = f := by
  have hf : ∀ a ∈ f, decide (a ≠ sep) = true := fun a ha => decide_eq_true fun he => h (he ▸ ha)
  rw [List.takeWhile_append_of_pos hf, List.takeWhile_cons_of_neg (by simp), List.append_nil]

theorem dropWhile_of_not_mem (h : sep ∉ f) (rest : List α) :
    (f ++ sep :: rest).dropWhile (· ≠ sep) = sep :: rest := by
  have hf : ∀ a ∈ f, decide (a ≠ sep) = true := fun a ha => decide_eq_true fun he => h (he ▸ ha)
  rw [List.dropWhile_append_of_pos hf, List.dropWhile_cons_of_neg (by simp)]

theorem dropWhile_eq_nil (h : sep ∉ f) : f.dropWhile (· ≠ sep) = [] := by
  have hf : ∀ a ∈ f, decide (a ≠ sep) = true := fun a ha => decide_eq_true fun he => h (he ▸ ha)
  have hd : (f ++ []).dropWhile (· ≠ sep) = [].dropWhile (· ≠ sep) :=
    List.dropWhile_append_of_pos hf
  rwa [List.append_nil] at hd

-- Each text has fields.
theorem exists_text (s : List α) : ∃ f fs, Plain sep f fs ∧ s = text sep f fs := by
  induction s
  case nil => exact ⟨[], [], by simp [Plain], by simp⟩
  case cons a s ih =>
    obtain ⟨f, fs, hp, rfl⟩ := ih
    by_cases ha : a = sep
    case pos =>
      refine ⟨[], f :: fs, ?_, by rw [ha, text_cons, List.nil_append]⟩
      intro g hg
      cases List.mem_cons.mp hg
      case inl he => simp [he]
      case inr hg => exact hp g hg
    case neg =>
      refine ⟨a :: f, fs, ?_, rfl⟩
      intro g hg
      cases List.mem_cons.mp hg
      case inl he =>
        rw [he, List.mem_cons, not_or]
        exact ⟨fun he => ha he.symm, hp.head⟩
      case inr hg => exact hp g (List.mem_cons_of_mem f hg)

-- The fields of a text are unique.
theorem text_inj (h : Plain sep f fs) (h' : Plain sep f' fs')
    (he : text sep f fs = text sep f' fs') :
    f = f' ∧ fs = fs' := by
  induction fs generalizing f f' fs'
  case nil =>
    rw [text_nil] at he
    cases fs'
    case nil => exact ⟨by rw [he, text_nil], rfl⟩
    case cons g fs' =>
      rw [text_cons] at he
      exact absurd (he ▸ List.mem_append_right f' List.mem_cons_self) h.head
  case cons g fs ih =>
    rw [text_cons] at he
    cases fs'
    case nil =>
      rw [text_nil] at he
      exact absurd (he ▸ List.mem_append_right f List.mem_cons_self) h'.head
    case cons g' fs' =>
      rw [text_cons] at he
      have hf := congrArg (List.takeWhile (· ≠ sep)) he
      rw [takeWhile_of_not_mem h.head, takeWhile_of_not_mem h'.head] at hf
      subst hf
      have ht := List.append_cancel_left he
      obtain ⟨rfl, rfl⟩ := ih h.tail h'.tail (List.cons.inj ht).2
      exact ⟨rfl, rfl⟩

end Fields
