import Mathlib.Data.List.Basic

namespace Brackets

-- Texts with balanced brackets, where `loose` tells what may be outside of all brackets.
inductive Nested {α : Type} (first last : α) : (loose : α → Prop) → List α → Prop
  | nil : Nested first last loose []
  | char : c ≠ first → c ≠ last → loose c → Nested first last loose cs →
      Nested first last loose (c :: cs)
  | nest : Nested first last (fun _ => True) cs → Nested first last loose ds →
      Nested first last loose (first :: cs ++ last :: ds)

-- Texts behind a number of open brackets, which they close.
inductive Closes {α : Type} (first last : α) (loose : α → Prop) : Nat → List α → Prop
  | zero : Nested first last loose cs → Closes first last loose 0 cs
  | succ : Nested first last (fun _ => True) cs → Closes first last loose depth ds →
      Closes first last loose (depth + 1) (cs ++ last :: ds)

variable {α β : Type} {first last : α} {loose : α → Prop} {c : α} {cs ds : List α} {depth : Nat}

namespace Nested

theorem append (hc : Nested first last loose cs) (hd : Nested first last loose ds) :
    Nested first last loose (cs ++ ds) := by
  induction hc
  case nil              => exact hd
  case char hf hl h _ ih => exact .char hf hl h (ih hd)
  case nest hin _ _ ih  =>
    rw [List.append_assoc, List.cons_append]
    exact .nest hin (ih hd)

theorem of_forall (h : ∀ c ∈ cs, (c ≠ first ∧ c ≠ last) ∧ loose c) :
    Nested first last loose cs := by
  induction cs
  case nil => exact .nil
  case cons c cs ih =>
    obtain ⟨⟨⟨hf, hl⟩, hc⟩, hcs⟩ := List.forall_mem_cons.mp h
    exact .char hf hl hc (ih hcs)

theorem map {f : α → β} (h : Nested first last loose cs) {loose' : β → Prop}
    (hf : ∀ c ∈ cs, (c ≠ first → f c ≠ f first) ∧ (c ≠ last → f c ≠ f last) ∧
    (loose c → loose' (f c))) :
    Nested (f first) (f last) loose' (cs.map f) := by
  induction h generalizing loose'
  case nil => exact .nil
  case char hfirst hlast hloose _ ih =>
    obtain ⟨⟨hne, hne', himp⟩, hcs⟩ := List.forall_mem_cons.mp hf
    exact .char (hne hfirst) (hne' hlast) (himp hloose) (ih hcs)
  case nest ih₁ ih₂ =>
    obtain ⟨hcs, hds⟩ := List.forall_mem_append.mp hf
    rw [List.map_append, List.map_cons, List.map_cons]
    refine .nest (ih₁ fun c hc => ?_) (ih₂ fun c hc => hds c (List.mem_cons_of_mem _ hc))
    obtain ⟨hne, hne', -⟩ := hcs c (List.mem_cons_of_mem _ hc)
    exact ⟨hne, hne', fun _ => trivial⟩

end Nested

namespace Closes

theorem nil_iff : Closes first last loose depth [] ↔ depth = 0 := by
  constructor
  case mp =>
    intro h
    generalize hcs : [] = cs at h
    cases h
    case zero => rfl
    case succ => simp at hcs
  case mpr =>
    rintro rfl
    exact .zero .nil

-- A bracket that is opened is one more to be closed.
theorem first_iff (hne : first ≠ last) :
    Closes first last loose depth (first :: cs) ↔ Closes first last loose (depth + 1) cs := by
  constructor
  case mp =>
    intro h
    generalize hs : first :: cs = s at h
    cases h
    case zero h =>
      cases h
      case nil         => cases hs
      case char hf _ _ => cases hs; contradiction
      case nest hin hd => cases hs; exact .succ hin (.zero hd)
    case succ hin hd =>
      cases hin
      case nil         => cases hs; contradiction
      case char hf _ _ => cases hs; contradiction
      case nest cs' ds' hin hrest =>
        cases hs
        have hall := Closes.succ hin (.succ hrest hd)
        rwa [← List.cons_append, ← List.append_assoc] at hall
  case mpr =>
    intro h
    cases h
    case succ hin hd =>
      cases hd
      case zero hd => exact .zero (.nest hin hd)
      case succ hrest hd =>
        have hall := Closes.succ (.nest hin hrest) hd
        rwa [List.append_assoc, List.cons_append] at hall

theorem last_iff (hne : first ≠ last) :
    Closes first last loose depth (last :: cs) ↔ ∃ d,
      depth = d + 1 ∧ Closes first last loose d cs := by
  constructor
  case mp =>
    intro h
    generalize hs : last :: cs = s at h
    cases h
    case zero h =>
      cases h
      case nil         => cases hs
      case char _ hl _ => cases hs; contradiction
      case nest        => cases hs; contradiction
    case succ hin hd =>
      cases hin
      case nil         => cases hs; exact ⟨_, rfl, hd⟩
      case char _ hl _ => cases hs; contradiction
      case nest        => cases hs; contradiction
  case mpr =>
    rintro ⟨d, rfl, h⟩
    exact .succ .nil h

theorem char_iff (hf : c ≠ first) (hl : c ≠ last) :
    Closes first last loose depth (c :: cs) ↔
      (depth = 0 → loose c) ∧ Closes first last loose depth cs := by
  constructor
  case mp =>
    intro h
    generalize hs : c :: cs = s at h
    cases h
    case zero h =>
      cases h
      case nil          => cases hs
      case char hc hcs  => cases hs; exact ⟨fun _ => hc, .zero hcs⟩
      case nest         => cases hs; contradiction
    case succ hin hd =>
      cases hin
      case nil          => cases hs; contradiction
      case char _ hin   => cases hs; exact ⟨by simp, .succ hin hd⟩
      case nest         => cases hs; contradiction
  case mpr =>
    rintro ⟨hc, h⟩
    cases h
    case zero h      => exact .zero (.char hf hl (hc rfl) h)
    case succ hin hd => exact .succ (.char hf hl trivial hin) hd

end Closes

theorem closes_zero : Closes first last loose 0 cs ↔ Nested first last loose cs :=
  ⟨fun h => by cases h; assumption, .zero⟩

-- Splits a text at the separators that are outside of all brackets.
def split [DecidableEq α] (first last sep : α) : (depth : Nat) → List α → Option (List (List α))
  | depth, []      => if depth = 0 then some [[]] else none
  | depth, c :: cs =>
    if c = first then
      (split first last sep (depth + 1) cs).map (List.modifyHead (c :: ·))
    else if c = last then
      if depth = 0 then none
      else (split first last sep (depth - 1) cs).map (List.modifyHead (c :: ·))
    else if c = sep ∧ depth = 0 then
      (split first last sep depth cs).map ([] :: ·)
    else
      (split first last sep depth cs).map (List.modifyHead (c :: ·))

section

variable {sep : α}

-- The segments of a text, the first one of which closes brackets.
structure Segments (first last sep : α) (depth : Nat) (s p : List α)
    (ps : List (List α)) : Prop where
  joined : [sep].intercalate (p :: ps) = s
  head   : Closes first last (· ≠ sep) depth p
  tail   : ∀ q ∈ ps, Nested first last (· ≠ sep) q

theorem intercalate_cons_ne (p : List α) {ps : List (List α)} (h : ps ≠ []) :
    [sep].intercalate (p :: ps) = p ++ sep :: [sep].intercalate ps := by
  cases ps
  case nil       => contradiction
  case cons q qs => rw [List.intercalate_cons_cons, List.append_assoc, List.singleton_append]

-- There is a separator behind each part but the last one.
theorem length_le_intercalate (ps : List (List α)) :
    ps.length ≤ ([sep].intercalate ps).length + 1 := by
  induction ps
  case nil => exact Nat.zero_le _
  case cons p ps ih =>
    by_cases h : ps = []
    case pos =>
      rw [h]
      exact Nat.le_add_left ..
    case neg =>
      rw [intercalate_cons_ne p h, List.length_append, List.length_cons, List.length_cons]
      omega

theorem intercalate_cons_head (c : α) (p : List α) (ps : List (List α)) :
    [sep].intercalate ((c :: p) :: ps) = c :: [sep].intercalate (p :: ps) := by
  cases ps
  case nil       => simp
  case cons q qs => rw [List.intercalate_cons_cons, List.intercalate_cons_cons]; rfl

-- A character that does not separate belongs to the first segment.
theorem Segments.exists_cons {s p : List α} {ps : List (List α)}
    (h : Segments first last sep depth (c :: s) p ps) (hsep : c = sep → depth ≠ 0) :
    ∃ p', p = c :: p' ∧ [sep].intercalate (p' :: ps) = s := by
  obtain ⟨hjoined, hhead, -⟩ := h
  cases p
  case nil =>
    have hzero := Closes.nil_iff.mp hhead
    cases ps
    case nil => cases hjoined
    case cons =>
      rw [intercalate_cons_ne [] (List.cons_ne_nil _ _)] at hjoined
      cases hjoined
      exact absurd hzero (hsep rfl)
  case cons d p =>
    rw [intercalate_cons_head] at hjoined
    cases hjoined
    exact ⟨p, rfl, rfl⟩

theorem segments_cons {depth' : Nat} {s p : List α} {ps : List (List α)}
    (hsep : c = sep → depth ≠ 0)
    (hcloses : ∀ p, Closes first last (· ≠ sep) depth (c :: p) ↔
    Closes first last (· ≠ sep) depth' p) :
    Segments first last sep depth (c :: s) p ps ↔
      ∃ p', p = c :: p' ∧ Segments first last sep depth' s p' ps := by
  constructor
  case mp =>
    intro h
    obtain ⟨p', rfl, hjoined⟩ := h.exists_cons hsep
    exact ⟨p', rfl, hjoined, (hcloses p').mp h.head, h.tail⟩
  case mpr =>
    rintro ⟨p', rfl, hjoined, hhead, htail⟩
    exact ⟨(intercalate_cons_head c p' ps).trans (congrArg _ hjoined),
      (hcloses p').mpr hhead, htail⟩

theorem segments_sep {s p : List α} {ps : List (List α)} (hf : sep ≠ first) (hl : sep ≠ last) :
    Segments first last sep 0 (sep :: s) p ps ↔
      p = [] ∧ ∃ q qs, ps = q :: qs ∧ Segments first last sep 0 s q qs := by
  constructor
  case mp =>
    rintro ⟨hjoined, hhead, htail⟩
    cases p
    case nil =>
      refine ⟨rfl, ?_⟩
      cases ps
      case nil => cases hjoined
      case cons q qs =>
        rw [intercalate_cons_ne [] (List.cons_ne_nil _ _)] at hjoined
        cases hjoined
        obtain ⟨hq, hqs⟩ := List.forall_mem_cons.mp htail
        exact ⟨q, qs, rfl, rfl, .zero hq, hqs⟩
    case cons d p =>
      rw [intercalate_cons_head] at hjoined
      cases hjoined
      exact absurd rfl (((Closes.char_iff hf hl).mp hhead).1 rfl)
  case mpr =>
    rintro ⟨rfl, q, qs, rfl, hjoined, hhead, htail⟩
    refine ⟨?_, .zero .nil, List.forall_mem_cons.mpr ⟨closes_zero.mp hhead, htail⟩⟩
    rw [intercalate_cons_ne [] (List.cons_ne_nil _ _), hjoined]
    rfl

theorem map_modifyHead_iff {o : Option (List (List α))} {l : List (List α)}
    {P : List α → List (List α) → Prop}
    (h : ∀ l, o = some l ↔ ∃ p ps, l = p :: ps ∧ P p ps) :
    o.map (List.modifyHead (c :: ·)) = some l ↔ ∃ p ps, l = p :: ps ∧ ∃ p',
      p = c :: p' ∧ P p' ps := by
  rw [Option.map_eq_some_iff]
  constructor
  case mp =>
    rintro ⟨l', hl', rfl⟩
    obtain ⟨p, ps, rfl, hp⟩ := (h l').mp hl'
    exact ⟨c :: p, ps, rfl, p, rfl, hp⟩
  case mpr =>
    rintro ⟨_, ps, rfl, p, rfl, hp⟩
    exact ⟨p :: ps, (h (p :: ps)).mpr ⟨p, ps, rfl, hp⟩, rfl⟩

variable [DecidableEq α]

-- Each open bracket takes a character to be closed.
theorem le_length_of_split {depth : Nat} {s : List α} (h : (split first last sep depth s).isSome) :
    depth ≤ s.length := by
  induction s generalizing depth
  case nil =>
    rw [split] at h
    split at h
    case isTrue hd => exact Nat.le_of_eq hd
    case isFalse   => cases h
  case cons c s ih =>
    rw [split] at h
    split at h
    case isTrue =>
      have hle := ih (by simpa using h)
      exact Nat.le_succ_of_le (Nat.le_of_succ_le hle)
    case isFalse =>
      split at h
      case isTrue =>
        split at h
        case isTrue => cases h
        case isFalse =>
          have hle := ih (by simpa using h)
          exact Nat.le_add_of_sub_le hle
      case isFalse =>
        split at h
        case isTrue  => exact Nat.le_succ_of_le (ih (by simpa using h))
        case isFalse => exact Nat.le_succ_of_le (ih (by simpa using h))

theorem split_iff_segments (hne : first ≠ last) (hf : sep ≠ first) (hl : sep ≠ last) {s : List α}
    {l : List (List α)} : split first last sep depth s = some l ↔
      ∃ p ps, l = p :: ps ∧ Segments first last sep depth s p ps := by
  induction s generalizing depth l
  case nil =>
    constructor
    case mp =>
      intro h
      simp only [split] at h
      split at h
      case isTrue hd =>
        cases h
        exact ⟨[], [], rfl, rfl, Closes.nil_iff.mpr hd, List.forall_mem_nil _⟩
      case isFalse => cases h
    case mpr =>
      rintro ⟨p, ps, rfl, hjoined, hhead, -⟩
      cases ps
      case cons => rw [intercalate_cons_ne p (List.cons_ne_nil _ _)] at hjoined; simp at hjoined
      case nil =>
        rw [List.intercalate_singleton] at hjoined
        subst hjoined
        rw [split, if_pos (Closes.nil_iff.mp hhead)]
  case cons c s ih =>
    rw [split]
    by_cases hcf : c = first
    case pos =>
      subst hcf
      rw [if_pos rfl, map_modifyHead_iff fun l => ih]
      simp only [segments_cons (fun h => absurd h.symm hf) fun p => Closes.first_iff hne]
    case neg =>
      rw [if_neg hcf]
      by_cases hcl : c = last
      case pos =>
        subst hcl
        rw [if_pos rfl]
        cases depth
        case zero =>
          rw [if_pos rfl]
          simp only [reduceCtorEq, false_iff]
          rintro ⟨p, ps, -, h⟩
          obtain ⟨p', rfl, -⟩ := h.exists_cons fun h => absurd h.symm hl
          obtain ⟨d, hd, -⟩ := (Closes.last_iff hne).mp h.head
          exact absurd hd.symm (Nat.succ_ne_zero d)
        case succ depth =>
          rw [if_neg (Nat.succ_ne_zero depth), Nat.add_sub_cancel, map_modifyHead_iff fun l => ih]
          have hcloses (p : List α) : Closes first c (· ≠ sep) (depth + 1) (c :: p) ↔
              Closes first c (· ≠ sep) depth p := by
            simp [Closes.last_iff hne]
          simp only [segments_cons (fun h => absurd h.symm hl) hcloses]
      case neg =>
        rw [if_neg hcl]
        by_cases hsep : c = sep ∧ depth = 0
        case pos =>
          obtain ⟨rfl, rfl⟩ := hsep
          rw [if_pos ⟨rfl, rfl⟩, Option.map_eq_some_iff]
          simp only [segments_sep hf hl, ih]
          constructor
          case mp =>
            rintro ⟨_, ⟨q, qs, rfl, h⟩, rfl⟩
            exact ⟨[], q :: qs, rfl, rfl, q, qs, rfl, h⟩
          case mpr =>
            rintro ⟨_, _, rfl, rfl, q, qs, rfl, h⟩
            exact ⟨q :: qs, ⟨q, qs, rfl, h⟩, rfl⟩
        case neg =>
          rw [if_neg hsep, map_modifyHead_iff fun l => ih]
          have hcloses (p : List α) : Closes first last (· ≠ sep) depth (c :: p) ↔
              Closes first last (· ≠ sep) depth p := by
            rw [Closes.char_iff hcf hcl]
            exact and_iff_right fun hd hc => hsep ⟨hc, hd⟩
          simp only [segments_cons (fun h hd => hsep ⟨h, hd⟩) hcloses]

-- A text is split into the segments that are joined to it.
theorem split_iff (hne : first ≠ last) (hf : sep ≠ first) (hl : sep ≠ last) {s : List α}
    {l : List (List α)} : split first last sep 0 s = some l ↔
      l ≠ [] ∧ [sep].intercalate l = s ∧ ∀ p ∈ l, Nested first last (· ≠ sep) p := by
  rw [split_iff_segments hne hf hl]
  constructor
  case mp =>
    rintro ⟨p, ps, rfl, hjoined, hhead, htail⟩
    exact ⟨List.cons_ne_nil p ps, hjoined, List.forall_mem_cons.mpr ⟨closes_zero.mp hhead, htail⟩⟩
  case mpr =>
    rintro ⟨hnil, hjoined, hall⟩
    cases l
    case nil => contradiction
    case cons p ps =>
      obtain ⟨hp, hps⟩ := List.forall_mem_cons.mp hall
      exact ⟨p, ps, rfl, hjoined, .zero hp, hps⟩

end

end Brackets
