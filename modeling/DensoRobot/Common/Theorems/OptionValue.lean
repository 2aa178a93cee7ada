import DensoRobot.Common.Theorems.Integers
import DensoRobot.Common.Theorems.OptionScan

open HRESULT

namespace OptionValue

-- The characters of a source string.
def source (bstrSrc : Option Bstr) : List Nat :=
  wcs (bstrSrc.elim [] Bstr.chars)

def optionsOf (bstrSrc : Option Bstr) : List Opt × Bool :=
  options (source bstrSrc) (.start (4294967295, 4294967295))

-- What keeps the search within its strings: each option that is compared with the key has a title
-- that is not blank, and the value of the one that is found is empty or not blank. Memory for the
-- titles is needed as well.
def Bounded (host : Host) (towlower : Nat → Nat) (key : Bstr) : List Opt → (next : Nat) → Prop
  | [],      _    => True
  | o :: os, next => o.Compared host next ∧
    if o.Names towlower key then o.value = [] ∨ host.malloc (next + 1) = false ∨ ¬Blank o.value
    else Bounded host towlower key os (next + o.requests + 3)

section

variable {host : Host} {towlower : Nat → Nat} {key : Bstr} {bstrSrc : Option Bstr} {fuel : Nat}

theorem search_ok_iff (ended : Bool) (os : List Opt) (next : Nat) :
    (∃ found, search host towlower key ended os next = .ok found) ↔
      Bounded host towlower key os next := by
  induction os generalizing next
  case nil => exact iff_of_true ⟨_, rfl⟩ trivial
  case cons o os ih =>
    rw [search, Bounded]
    by_cases hc : o.Compared host next
    case neg => simp [hc]
    case pos =>
      rw [if_neg (not_not.mpr hc), and_iff_right hc]
      by_cases hn : o.Names towlower key
      case neg => rw [if_pos hn, if_neg hn, ih]
      case pos =>
        rw [if_neg (not_not.mpr hn), if_pos hn, ← or_assoc]
        by_cases he : o.value = [] ∨ host.malloc (next + 1) = false
        case pos => simp [he]
        case neg =>
          rw [if_neg he, or_iff_right he]
          by_cases hb : Blank o.value
          case pos => simp [hb]
          case neg => simp [hb]

theorem findOption_eq (hl : (source bstrSrc).length < 16383)
    (hf : (source bstrSrc).length + 1 < fuel) :
    findOption host towlower fuel bstrSrc (some key) =
      if host.malloc 0 = true then
        search host towlower key (optionsOf bstrSrc).2 (optionsOf bstrSrc).1 3
      else
        .error .read := by
  have hsrc : sysAllocString host (some <| bstrSrc.elim [] Bstr.chars) 0 =
      .ok (stored host 0 (source bstrSrc), 1) := sysAllocString_short hl 0
  have hnew (n : Nat) : sysAllocString host (some []) n = .ok (stored host n [], n + 1) :=
    sysAllocString_short (by decide) n
  simp only [findOption, hsrc, hnew, Exec.ok_bind]
  by_cases hm : host.malloc 0 = true
  case neg =>
    rw [if_neg hm, stored, if_neg hm]
    rfl
  case pos =>
    have hz : ∀ c ∈ source bstrSrc, c ≠ 0 := fun c hc => by
      simpa using List.all_eq_true.mp List.all_takeWhile c hc
    rw [if_pos hm, stored, if_pos hm, cells, Exec.pure_eq, Exec.ok_bind]
    have hlen : sysStringLen (some ⟨0, source bstrSrc⟩) = (source bstrSrc).length := by
      rw [sysStringLen, wcslen, wcs_of_forall hz]
      exact u16_of_lt (by omega)
    exact Scanner.scan_eq (Scanner.start_at hlen hl hz) (Scanner.start_holds _ _ _ _ _ _) hf

-- All accesses are within the strings iff no title that is compared with the key, and no value that
-- is found, is blank.
theorem findOption_bounded_iff (hl : (source bstrSrc).length < 16383)
    (hf : (source bstrSrc).length + 1 < fuel) :
    (∃ found, findOption host towlower fuel bstrSrc (some key) = .ok found) ↔
      host.malloc 0 = true ∧ Bounded host towlower key (optionsOf bstrSrc).1 3 := by
  rw [findOption_eq hl hf]
  by_cases hm : host.malloc 0 = true
  case neg => simp [hm]
  case pos => rw [if_pos hm, and_iff_right hm, search_ok_iff]

end

-- `k=5`
def assignment : Bstr :=
  ⟨9, [107, 61, 53]⟩

theorem assignment_bounded : ∃ found, findOption ⟨fun _ => true, id, some⟩ id 5 (some assignment)
    (some ⟨8, [107]⟩) = .ok found :=
  (findOption_bounded_iff (by decide) (by decide)).mpr
    ⟨rfl, ⟨by decide, rfl, rfl⟩, .inr (.inr (by decide))⟩

-- There is no title in an empty string.
theorem empty_not_bounded :
    ¬∀ (host : Host) (towlower : Nat → Nat) (bstrSrc : Option Bstr) (key : Bstr),
      host.Ample → (source bstrSrc).length < 16383 → ∃ found,
        findOption host towlower ((source bstrSrc).length + 2) bstrSrc (some key) = .ok found := by
  intro h
  obtain ⟨found, hf⟩ := h ⟨fun _ => true, id, some⟩ id (some ⟨9, []⟩) ⟨8, [107]⟩
    (fun _ => rfl) (by decide)
  cases hf

-- What is found in a list of options if there is always memory.
inductive Finds (names : Opt → Prop) [DecidablePred names] (os : List Opt) : Exec Found → Prop
  | missing : os.find? (names ·) = none → Finds names os (.ok .missing)
  | empty {o : Opt} : os.find? (names ·) = some o → o.value = [] → Finds names os (.ok .empty)
  | blank {o : Opt} : os.find? (names ·) = some o → o.value ≠ [] → Blank o.value →
      Finds names os (.error .read)
  | value {o : Opt} (addr next : Nat) : os.find? (names ·) = some o → ¬Blank o.value →
      Finds names os (.ok (.value (some ⟨addr, o.value.trim blank⟩) next))

section

variable {host : Host} {towlower : Nat → Nat} {key : Bstr}

theorem search_finds (hh : host.Ample) {os : List Opt} (ht : ∀ o ∈ os, ¬Blank o.title)
    (next : Nat) :
    Finds (Opt.Names towlower key) os (search host towlower key true os next) := by
  induction os generalizing next
  case nil => exact .missing rfl
  case cons o os ih =>
    obtain ⟨hb, ht⟩ := List.forall_mem_cons.mp ht
    have hc : o.Compared host next := ⟨hb, hh _, hh _⟩
    rw [search, if_neg (not_not.mpr hc)]
    by_cases hn : o.Names towlower key
    case neg =>
      have hskip : (o :: os).find? (Opt.Names towlower key ·) =
          os.find? (Opt.Names towlower key ·) :=
        List.find?_cons_of_neg (by simpa using hn)
      rw [if_pos hn]
      have hf := ih ht (next + o.requests + 3)
      generalize search host towlower key true os (next + o.requests + 3) = found at hf ⊢
      cases hf
      case missing he         => exact .missing (hskip.trans he)
      case empty he hv        => exact .empty (hskip.trans he) hv
      case blank he hv hblank => exact .blank (hskip.trans he) hv hblank
      case value he hv        => exact .value _ _ (hskip.trans he) hv
    case pos =>
      have hfirst : (o :: os).find? (Opt.Names towlower key ·) = some o :=
        List.find?_cons_of_pos (by simpa using hn)
      rw [if_neg (not_not.mpr hn), hh (next + 1)]
      by_cases hv : o.value = []
      case pos => simpa [hv] using Finds.empty hfirst hv
      case neg =>
        rw [if_neg (by simp [hv])]
        split
        case isTrue hblank  => exact .blank hfirst hv hblank
        case isFalse hblank =>
          rw [stored, if_pos (hh _)]
          exact .value _ _ hfirst hblank

end

namespace Setting

def Names (towlower : Nat → Nat) (key : Bstr) (s : Setting) : Prop :=
  (s.key.trim blank).map towlower = (wcs key.chars).map towlower

instance (towlower : Nat → Nat) (key : Bstr) : DecidablePred (Names towlower key) :=
  fun _ => inferInstanceAs <| Decidable (_ = _)

-- The first setting of a key.
def find (towlower : Nat → Nat) (key : Bstr) (l : List Setting) : Option Setting :=
  l.find? (Names towlower key ·)

variable {towlower : Nat → Nat} {key : Bstr}

theorem forall_blank (n : Nat) : ∀ c ∈ List.replicate n 32, blank c := by
  intro c hc
  rw [List.eq_of_mem_replicate hc]
  rfl

theorem trim_padded {cs : List Nat} (h : ¬Blank cs) (before after : Nat) :
    (Value.padded before cs after).trim blank = cs.trim blank :=
  List.trim_padded (forall_blank before) (forall_blank after) (not_blank_iff.mp h)

theorem not_blank_padded {cs : List Nat} (h : ¬Blank cs) (before after : Nat) :
    ¬Blank (Value.padded before cs after) := by
  intro hb
  refine h fun c hc => hb c ?_
  simp [Value.padded, hc]

theorem option_names {s : Setting} (hs : s.Valid) :
    s.option.Names towlower key ↔ s.Names towlower key := by
  rw [Opt.Names, Names, option, trim_padded hs.not_blank]

theorem find_option {l : List Setting} (hv : ∀ s ∈ l, s.Valid) :
    (l.map option).find? (Opt.Names towlower key ·) = (find towlower key l).map option := by
  induction l
  case nil => rfl
  case cons s l ih =>
    obtain ⟨hs, hl⟩ := List.forall_mem_cons.mp hv
    have hd : decide (s.option.Names towlower key) = decide (s.Names towlower key) :=
      decide_eq_decide.mpr (option_names hs)
    rw [List.map_cons, find, List.find?_cons, List.find?_cons, hd]
    cases decide (s.Names towlower key)
    case false => exact ih hl
    case true  => rfl

theorem chars_nonzero {s : Setting} (hs : s.Valid) : ∀ c ∈ s.chars, c ≠ 0 := by
  have hpad {cs : List Nat} (h : ∀ c ∈ cs, Plain c) (before after : Nat) :
      ∀ c ∈ Value.padded before cs after, c ≠ 0 :=
    fun c hc => (plain_padded h before after c hc).ne_zero
  have hvalue : ∀ c ∈ s.value.chars, c ≠ 0 := by
    have hv := hs.value
    generalize s.value = v at hv
    cases hv
    case plain hp _ => exact hpad hp _ _
    case nested first last cs hb hz _ =>
      obtain ⟨-, -, hfirst, hlast⟩ := brackets_spec hb
      have hne (c : Nat) (hc : brackets c = some (first, last)) : c ≠ 0 := by
        rintro rfl
        cases hc
      simp only [Value.chars, List.cons_append, List.forall_mem_cons, List.forall_mem_append]
      exact ⟨hne _ hfirst, hz, hne _ hlast, List.forall_mem_nil _⟩
  rw [chars]
  simp only [List.forall_mem_append, List.forall_mem_cons]
  exact ⟨hpad hs.plain _ _, by decide, hvalue⟩

theorem render_nonzero {l : List Setting} (hv : ∀ s ∈ l, s.Valid) : ∀ c ∈ render l, c ≠ 0 := by
  induction l using render.induct
  case case1   => exact fun _ hc => absurd hc List.not_mem_nil
  case case2 s => exact chars_nonzero (hv s List.mem_cons_self)
  case case3 s t l ih =>
    obtain ⟨hs, hl⟩ := List.forall_mem_cons.mp hv
    simp only [render, List.forall_mem_append, List.forall_mem_cons]
    exact ⟨chars_nonzero hs, by decide, ih hl⟩

theorem chars_sublist {l : List Setting} (hs : s ∈ l) : s.chars.Sublist (render l) := by
  induction l using render.induct
  case case1   => contradiction
  case case2 t => rw [List.mem_singleton.mp hs, render]
  case case3 t u l ih =>
    rw [render]
    cases List.mem_cons.mp hs
    case inl he => exact he ▸ List.sublist_append_left ..
    case inr hm =>
      exact ((ih hm).trans (List.sublist_cons_self ..)).trans (List.sublist_append_right ..)

theorem inner_sublist (s : Setting) : s.value.inner.Sublist s.chars := by
  have hv : s.value.inner.Sublist s.value.chars := by
    cases s.value
    case plain  => exact List.Sublist.refl _
    case nested => exact (List.sublist_append_left ..).trans (List.sublist_cons_self ..)
  exact (hv.trans (List.sublist_cons_self ..)).trans (List.sublist_append_right ..)

end Setting

namespace Value

theorem inner_trim {v : Value} (hv : v.Valid) : v.inner.trim blank = v.text.trim blank := by
  cases hv
  case plain hb => exact Setting.trim_padded hb _ _
  case nested   => rfl

theorem inner_eq_nil_iff {v : Value} (hv : v.Valid) : v.inner = [] ↔ v.text = [] := by
  cases hv
  case nested => exact Iff.rfl
  case plain before after cs _ hb =>
    have hne : cs ≠ [] := fun he => hb (by simp [he, Blank])
    refine iff_of_false ?_ hne
    simp [inner, padded, hne]

theorem blank_inner_iff {v : Value} (hv : v.Valid) : Blank v.inner ↔ Blank v.text := by
  cases hv
  case nested     => exact Iff.rfl
  case plain _ hb => exact iff_of_false (Setting.not_blank_padded hb _ _) hb

end Value

-- What the destination holds in the end: nothing, if the key or its value is missing, and else the
-- characters of the value, without the blanks around them.
inductive Answers : Option Setting → Variant → Prop
  | missing : Answers none (.scalar .empty 0)
  | cleared {s : Setting} : s.value.text = [] → Answers (some s) (.scalar .empty 0)
  | value {s : Setting} (addr : Nat) : ¬Blank s.value.text →
      Answers (some s) (.bstr (some ⟨addr, s.value.text.trim blank⟩))

section

variable {host : Host} {towlower : Nat → Nat} {key : Bstr} {l : List Setting} {dest : Variant}

-- A string stays a string.
theorem changeString (lib : Libc) (hh : host.Ample) (hd : ∃ blocks, variantClear dest = .ok blocks)
    (addr : Nat) {cs : List Nat} (hw : wcs cs = cs) (hl : wcslen cs < 16383) (next : Nat) :
    (do
      let r ← variantChangeType lib host (some dest) (.bstr (some ⟨addr, cs⟩)) false .bstr next
      return (r.hr, some r.dest)) = (.ok (sOk, some (.bstr (some ⟨next, cs⟩))) : Exec _) := by
  obtain ⟨blocks, hd⟩ := hd
  have hsame : (Variant.bstr (some ⟨addr, cs⟩)).vt = VarType.word false .bstr := rfl
  have hcopy : sysAllocString host (some cs) next = .ok (some ⟨next, cs⟩, next + 1) := by
    rw [sysAllocString_short hl, stored, if_pos (hh next), hw]
  simp only [variantChangeType, hd, Exec.pure_eq, Exec.ok_bind, if_pos hsame, Option.isSome_some,
    if_true, variantCopy, Option.map_some, hcopy]

theorem getOptionValue_render (lib : Libc) (hh : host.Ample) (hne : l ≠ []) (hv : ∀ s ∈ l, s.Valid)
    (hl : (render l).length < 16383) (addr : Nat) {fuel : Nat} (hf : (render l).length + 1 < fuel)
    (hd : ∃ blocks, variantClear dest = .ok blocks)
    (hb : ∀ s, Setting.find towlower key l = some s → s.value.text = [] ∨ ¬Blank s.value.text) :
    ∃ v, getOptionValue host towlower fuel (some ⟨addr, render l⟩) (some key) lib false .bstr
        (some dest) = .ok (sOk, some v) ∧
      Answers (Setting.find towlower key l) v := by
  have hsrc : source (some ⟨addr, render l⟩) = render l := wcs_of_forall (Setting.render_nonzero hv)
  have hopt : optionsOf (some ⟨addr, render l⟩) = (l.map Setting.option, true) := by
    rw [optionsOf, hsrc]
    exact options_render hne hv harmless_initial
  have htitles : ∀ o ∈ l.map Setting.option, ¬Blank o.title := by
    simp only [List.mem_map]
    rintro _ ⟨s, hs, rfl⟩
    exact Setting.not_blank_padded (hv s hs).not_blank _ _
  have hfinds : Finds (Opt.Names towlower key) (l.map Setting.option)
      (findOption host towlower fuel (some ⟨addr, render l⟩) (some key)) := by
    rw [findOption_eq (by rwa [hsrc]) (by rwa [hsrc]), if_pos (hh 0), hopt]
    exact search_finds hh htitles 3
  have hclear : cleared dest = .ok (sOk, some (.scalar .empty 0)) := by
    obtain ⟨blocks, hd⟩ := hd
    rw [cleared, hd]
    rfl
  have hfind : (l.map Setting.option).find? (Opt.Names towlower key ·) = _ := Setting.find_option hv
  have hvalid (s : Setting) (hs : Setting.find towlower key l = some s) : s.value.Valid :=
    (hv s <| List.mem_of_find?_eq_some hs).value
  rw [getOptionValue]
  generalize findOption host towlower fuel (some ⟨addr, render l⟩) (some key) = found at hfinds ⊢
  cases hfinds
  case missing he =>
    rw [Option.map_eq_none_iff.mp (hfind.symm.trans he)]
    exact ⟨_, hclear, .missing⟩
  case empty o he ho =>
    obtain ⟨s, hs, rfl⟩ := Option.map_eq_some_iff.mp (hfind.symm.trans he)
    rw [hs]
    exact ⟨_, hclear, .cleared <| (Value.inner_eq_nil_iff (hvalid s hs)).mp ho⟩
  case blank o he ho hblank =>
    obtain ⟨s, hs, rfl⟩ := Option.map_eq_some_iff.mp (hfind.symm.trans he)
    have hne := (Value.inner_eq_nil_iff (hvalid s hs)).not.mp ho
    exact absurd ((Value.blank_inner_iff (hvalid s hs)).mp hblank) ((hb s hs).resolve_left hne)
  case value o a next he hblank =>
    obtain ⟨s, hs, rfl⟩ := Option.map_eq_some_iff.mp (hfind.symm.trans he)
    have hne := (Value.blank_inner_iff (hvalid s hs)).not.mp hblank
    rw [hs]
    have hsub : (s.value.inner.trim blank).Sublist (render l) :=
      (List.trim_sublist _).trans <|
        (Setting.inner_sublist s).trans <| Setting.chars_sublist <| List.mem_of_find?_eq_some hs
    have hw : wcs (s.value.inner.trim blank) = s.value.inner.trim blank :=
      wcs_of_forall fun c hc => Setting.render_nonzero hv c <| hsub.subset hc
    have hshort : wcslen (s.value.inner.trim blank) < 16383 := by
      rw [wcslen, hw]
      exact Nat.lt_of_le_of_lt hsub.length_le hl
    refine ⟨_, ?_, .value next hne⟩
    rw [← Value.inner_trim (hvalid s hs)]
    exact changeString lib hh hd a hw hshort next

end

-- `j = 5,k=(a,b)`
def twoSettings : List Setting :=
  [⟨0, [106], 1, .plain 1 [53] 0⟩, ⟨0, [107], 0, .nested 40 41 [97, 44, 98]⟩]

theorem twoSettings_valid : ∀ s ∈ twoSettings, s.Valid := by
  have hplain (c : Nat) (hc : c = 53 ∨ c = 106 ∨ c = 107) : Plain c := by
    obtain rfl | rfl | rfl := hc <;> constructor <;> decide
  refine List.forall_mem_cons.mpr ⟨?_, List.forall_mem_singleton.mpr ?_⟩
  case refine_1 =>
    refine ⟨List.forall_mem_singleton.mpr (hplain _ (by decide)), by decide, .plain ?_ (by decide)⟩
    exact List.forall_mem_singleton.mpr (hplain _ (by decide))
  case refine_2 =>
    refine ⟨List.forall_mem_singleton.mpr (hplain _ (by decide)), by decide, ?_⟩
    refine .nested rfl (by decide) ?_
    exact .char (by decide) (by decide) <| .char (by decide) (by decide) <|
      .char (by decide) (by decide) .nil

theorem twoSettings_answer : ∃ v,
    getOptionValue ⟨fun _ => true, id, some⟩ id 20 (some ⟨9, render twoSettings⟩) (some ⟨8, [107]⟩)
        integerLibc false .bstr (some (.scalar .empty 0)) = .ok (sOk, some v) ∧
      Answers (Setting.find id ⟨8, [107]⟩ twoSettings) v := by
  refine getOptionValue_render integerLibc (fun _ => rfl)
    (by decide) twoSettings_valid (by decide) 9
    (by decide) ⟨[], rfl⟩ fun s hs => .inr ?_
  cases hs
  decide

-- There is no value between brackets that follow each other.
theorem brackets_not_answered :
    ¬∀ (host : Host) (lib : Libc) (towlower : Nat → Nat) (l : List Setting) (key : Bstr)
        (dest : Variant), host.Ample → l ≠ [] → (∀ s ∈ l, s.Valid) →
      (render l).length < 16383 → (∃ blocks, variantClear dest = .ok blocks) →
      ∃ v, getOptionValue host towlower ((render l).length + 2) (some ⟨0, render l⟩) (some key) lib
          false .bstr (some dest) = .ok (sOk, some v) ∧
        (∀ s, Setting.find towlower key l = some s →
          ∃ addr, v = .bstr (some ⟨addr, s.value.text.trim blank⟩)) ∧
        (Setting.find towlower key l = none → v = .scalar .empty 0) := by
  intro h
  have hvalid : ∀ s ∈ [(⟨0, [107], 0, .nested 40 41 []⟩ : Setting)], s.Valid := by
    refine List.forall_mem_singleton.mpr ⟨List.forall_mem_singleton.mpr ?_, by decide, ?_⟩
    case refine_1 => constructor <;> decide
    case refine_2 => exact .nested rfl (List.forall_mem_nil _) .nil
  obtain ⟨v, hv, hs, -⟩ :=
    h ⟨fun _ => true, id, some⟩ integerLibc id _ ⟨8, [107]⟩ (.scalar .empty 0)
    (fun _ => rfl) (List.cons_ne_nil _ _) hvalid (by decide) ⟨[], rfl⟩
  obtain ⟨addr, rfl⟩ := hs _ rfl
  cases hv

end OptionValue
