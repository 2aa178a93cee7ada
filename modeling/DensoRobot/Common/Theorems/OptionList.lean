import DensoRobot.Lib.Trim
import DensoRobot.Common.OptionValue

-- What a string of options means: a list of titles and values.
namespace OptionValue

-- The characters in front of the `=`, and those that follow it. There are no titles without a `=`.
structure Opt where
  title : List Nat
  value : List Nat
  deriving DecidableEq

-- What was read of an option so far. There is a value from the `=` on.
structure Reader where
  nest  : Nat × Nat
  level : Nat
  title : List Nat
  value : Option (List Nat)

namespace Reader

def start (nest : Nat × Nat) : Reader :=
  ⟨nest, 0, [], none⟩

inductive Read
  | stuck
  | more (r : Reader)
  | option (r : Reader)

def option (r : Reader) : Opt where
  title := if r.value.isSome then r.title else []
  value := r.value.getD []

def append (r : Reader) (cs : List Nat) : Reader :=
  match r.value with
  | none       => { r with title := r.title ++ cs }
  | some value => { r with value := some (value ++ cs) }

-- Outside of brackets, the next bracket tells which ones count.
def turn (r : Reader) (c : Nat) : Reader :=
  if r.level = 0 then { r with nest := (brackets c).getD r.nest } else r

def readChar (r : Reader) (c : Nat) : Read :=
  if r.level = 0 ∧ c = 61 then
    if r.value.isSome then .stuck else .more { r with value := some [] }
  else if r.level = 0 ∧ c = 44 then
    .option r
  else
    .more (r.append [c])

-- The brackets that nothing else encloses are left out.
def readNested (r : Reader) (c : Nat) : Read :=
  if c = r.nest.1 then
    .more <| if r.level = 0 then { r with level := 1 } else
      { r with level := r.level + 1 }.append [c]
  else if c = r.nest.2 then
    match r.level with
    | 0         => .stuck
    | 1         => .more { r with level := 0 }
    | level + 2 => .more <| { r with level := level + 1 }.append [c]
  else
    r.readChar c

def read (r : Reader) (c : Nat) : Read :=
  (r.turn c).readNested c

end Reader

-- The options in a string, and whether the string is read up to its end.
def options : List Nat → Reader → List Opt × Bool
  | [],      r => if r.level = 0 then ([r.option], true) else ([], false)
  | c :: cs, r =>
    match r.read c with
    | .stuck    => ([], false)
    | .more r   => options cs r
    | .option r => (options cs (.start r.nest)).map (r.option :: ·) id

def blank (c : Nat) : Bool :=
  c = 32

def Blank (cs : List Nat) : Prop :=
  ∀ c ∈ cs, blank c

instance : DecidablePred Blank :=
  fun cs => inferInstanceAs <| Decidable <| ∀ c ∈ cs, blank c

theorem not_blank_iff {cs : List Nat} : ¬Blank cs ↔ ∃ c ∈ cs, blank c = false := by
  simp [Blank]

-- A character that is no number -1, which is no character at all.
structure Plain (c : Nat) : Prop where
  ne_zero  : c ≠ 0
  ne_weof  : c ≠ 4294967295
  bracket  : brackets c = none
  ne_equal : c ≠ 61
  ne_comma : c ≠ 44

-- Text in which the brackets of one kind are balanced.
inductive Balanced (first last : Nat) : List Nat → Prop
  | nil : Balanced first last []
  | char : c ≠ first → c ≠ last → Balanced first last cs → Balanced first last (c :: cs)
  | nest : Balanced first last cs → Balanced first last ds →
      Balanced first last (first :: cs ++ last :: ds)

-- The value of an option as it is written, with numbers of blanks.
inductive Value
  | plain (before : Nat) (text : List Nat) (after : Nat)
  | nested (first last : Nat) (text : List Nat)

namespace Value

def text : Value → List Nat
  | plain _ text _  => text
  | nested _ _ text => text

def padded (before : Nat) (text : List Nat) (after : Nat) : List Nat :=
  List.replicate before 32 ++ text ++ List.replicate after 32

def chars : Value → List Nat
  | plain before text after => padded before text after
  | nested first last text  => first :: text ++ [last]

-- The characters that are left of a value.
def inner : Value → List Nat
  | plain before text after => padded before text after
  | nested _ _ text         => text

inductive Valid : Value → Prop
  | plain {cs : List Nat} : (∀ c ∈ cs, Plain c) → ¬Blank cs → Valid (plain before cs after)
  | nested {cs : List Nat} : brackets first = some (first, last) → (∀ c ∈ cs, c ≠ 0) →
      Balanced first last cs → Valid (nested first last cs)

end Value

structure Setting where
  before : Nat
  key    : List Nat
  after  : Nat
  value  : Value

namespace Setting

def chars (s : Setting) : List Nat :=
  Value.padded s.before s.key s.after ++ 61 :: s.value.chars

structure Valid (s : Setting) : Prop where
  plain     : ∀ c ∈ s.key, Plain c
  not_blank : ¬Blank s.key
  value     : s.value.Valid

def option (s : Setting) : Opt where
  title := Value.padded s.before s.key s.after
  value := s.value.inner

end Setting

def render : List Setting → List Nat
  | []          => []
  | [s]         => s.chars
  | s :: t :: l => s.chars ++ 44 :: render (t :: l)

-- The brackets that count at first, or those of an earlier value, are no other characters.
def Harmless (nest : Nat × Nat) : Prop :=
  ∀ c, brackets c = none → c ≠ 4294967295 → c ≠ nest.1 ∧ c ≠ nest.2

section

variable {r : Reader} {c first last : Nat} {cs : List Nat}

theorem brackets_spec (h : brackets c = some nest) :
    (c = nest.1 ∨ c = nest.2) ∧ nest.1 ≠ nest.2 ∧ brackets nest.1 = some nest ∧
      brackets nest.2 = some nest := by
  simp only [brackets] at h
  split_ifs at h with h₁ h₂ h₃ h₄
  all_goals
    cases h
    refine ⟨‹_›, ?_, ?_, ?_⟩ <;> decide

theorem harmless_of_brackets (h : brackets c = some nest) : Harmless nest := by
  obtain ⟨-, -, hfirst, hlast⟩ := brackets_spec h
  intro d hd _
  refine ⟨fun he => ?_, fun he => ?_⟩
  case refine_1 => rw [he, hfirst] at hd; contradiction
  case refine_2 => rw [he, hlast] at hd; contradiction

theorem harmless_initial : Harmless (4294967295, 4294967295) :=
  fun _ _ hc => ⟨hc, hc⟩

namespace Reader

theorem append_nil (r : Reader) : r.append [] = r := by
  obtain ⟨nest, level, title, _ | value⟩ := r <;> simp [append]

theorem append_append (r : Reader) (cs ds : List Nat) :
    (r.append cs).append ds = r.append (cs ++ ds) := by
  cases hv : r.value <;> simp [append, hv]

@[simp]
theorem append_level (r : Reader) (cs : List Nat) : (r.append cs).level = r.level := by
  cases hv : r.value <;> simp [append, hv]

@[simp]
theorem append_nest (r : Reader) (cs : List Nat) : (r.append cs).nest = r.nest := by
  cases hv : r.value <;> simp [append, hv]

theorem read_other (hn : Harmless r.nest) (hb : brackets c = none) (hw : c ≠ 4294967295) :
    r.read c = r.readChar c := by
  obtain ⟨hfirst, hlast⟩ := hn c hb hw
  have ht : r.turn c = r := by simp [turn, hb]
  rw [read, ht, readNested, if_neg hfirst, if_neg hlast]

-- All characters but brackets and those that separate titles and values are kept.
theorem read_plain (hn : Harmless r.nest) (hc : Plain c) : r.read c = .more (r.append [c]) := by
  rw [read_other hn hc.bracket hc.ne_weof]
  simp [readChar, hc.ne_equal, hc.ne_comma]

-- Within brackets, all characters but the last bracket are kept.
theorem read_within (hr : r.level ≠ 0) (hfirst : c ≠ r.nest.1) (hlast : c ≠ r.nest.2) :
    r.read c = .more (r.append [c]) := by
  have ht : r.turn c = r := by simp [turn, hr]
  simp [read, ht, readNested, hfirst, hlast, readChar, hr]

theorem read_open (hr : r.level ≠ 0) (hn : r.nest = (first, last)) :
    r.read first = .more ({ r with level := r.level + 1 }.append [first]) := by
  have ht : r.turn first = r := by simp [turn, hr]
  simp [read, ht, readNested, hn, hr]

theorem read_close (hr : r.level = n + 2) (hn : r.nest = (first, last)) (hne : first ≠ last) :
    r.read last = .more ({ r with level := n + 1 }.append [last]) := by
  have ht : r.turn last = r := by simp [turn, hr]
  simp [read, ht, readNested, hn, hne.symm, hr]

theorem read_first (hr : r.level = 0) (h : brackets first = some (first, last)) :
    r.read first = .more { r with nest := (first, last), level := 1 } := by
  have ht : r.turn first = { r with nest := (first, last) } := by simp [turn, hr, h]
  simp [read, ht, readNested, hr]

theorem read_last (hr : r.level = 1) (hn : r.nest = (first, last)) (hne : first ≠ last) :
    r.read last = .more { r with level := 0 } := by
  have ht : r.turn last = r := by simp [turn, hr]
  simp [read, ht, readNested, hn, hne.symm, hr]

end Reader

theorem options_more (h : r.read c = .more r') (cs : List Nat) :
    options (c :: cs) r = options cs r' := by
  rw [options, h]

theorem options_plain (hn : Harmless r.nest) (h : ∀ c ∈ cs, Plain c)
    (ds : List Nat) : options (cs ++ ds) r = options ds (r.append cs) := by
  induction cs generalizing r
  case nil => rw [List.nil_append, Reader.append_nil]
  case cons c cs ih =>
    obtain ⟨hc, hcs⟩ := List.forall_mem_cons.mp h
    rw [List.cons_append, options_more (Reader.read_plain hn hc),
      ih (by simpa using hn) hcs, Reader.append_append, List.singleton_append]

-- Reading balanced text comes back to the level that it started from.
theorem options_balanced (hne : first ≠ last) (h : Balanced first last cs) (hr : r.level ≠ 0)
    (hn : r.nest = (first, last)) (ds : List Nat) :
    options (cs ++ ds) r = options ds (r.append cs) := by
  induction h generalizing r ds
  case nil => rw [List.nil_append, Reader.append_nil]
  case char c cs hfirst hlast _ ih =>
    have hread := Reader.read_within hr (by rwa [hn]) (by rwa [hn])
    rw [List.cons_append, options_more hread, ih (by simpa using hr) (by simpa using hn),
      Reader.append_append, List.singleton_append]
  case nest cs ds' _ _ ih₁ ih₂ =>
    obtain ⟨n, hl⟩ := Nat.exists_eq_succ_of_ne_zero hr
    have hlast : ({ r with level := r.level + 1 }.append (first :: cs)).read last =
        .more ((r.append (first :: cs)).append [last]) := by
      rw [Reader.read_close (by simpa using hl) (by simpa using hn) hne]
      obtain ⟨nest, level, title, _ | value⟩ := r <;> cases hl <;> rfl
    rw [List.append_assoc, List.cons_append, options_more (Reader.read_open hr hn),
      List.cons_append,
      ih₁ (by simp) (by simpa using hn), Reader.append_append, List.singleton_append,
      options_more hlast, ih₂ (by simpa using hr) (by simpa using hn), Reader.append_append,
      Reader.append_append]
    simp

theorem plain_padded (h : ∀ c ∈ cs, Plain c) (before after : Nat) :
    ∀ c ∈ Value.padded before cs after, Plain c := by
  have hblank (n : Nat) : ∀ c ∈ List.replicate n 32, Plain c := by
    intro c hc
    rw [List.eq_of_mem_replicate hc]
    constructor <;> decide
  simp only [Value.padded, List.forall_mem_append]
  exact ⟨⟨hblank before, h⟩, hblank after⟩

theorem options_value {v : Value} (hv : v.Valid) (hn : Harmless r.nest) (hr : r.level = 0)
    (ds : List Nat) : ∃ nest, Harmless nest ∧
      options (v.chars ++ ds) r = options ds { r.append v.inner with nest := nest } := by
  cases hv
  case plain before after cs hc _ =>
    have hp := plain_padded hc before after
    exact ⟨r.nest, hn, by rw [Value.chars, options_plain hn hp, ← Reader.append_nest]; rfl⟩
  case nested first last cs hb _ hbal =>
    refine ⟨(first, last), harmless_of_brackets hb, ?_⟩
    have hne : first ≠ last := (brackets_spec hb).2.1
    rw [Value.chars, List.append_assoc, List.cons_append, options_more (Reader.read_first hr hb),
      options_balanced hne hbal (by simp) rfl, List.singleton_append,
      options_more (Reader.read_last (by simp) (by simp) hne)]
    obtain ⟨nest, level, title, _ | value⟩ := r <;> cases hr <;> rfl

theorem options_setting {s : Setting} (hs : s.Valid) (hn : Harmless nest) (ds : List Nat) :
    ∃ nest', Harmless nest' ∧ options (s.chars ++ ds) (.start nest) =
      options ds ⟨nest', 0, s.option.title, some s.option.value⟩ := by
  have hequal : Reader.read ⟨nest, 0, s.option.title, none⟩ 61 =
      .more ⟨nest, 0, s.option.title, some []⟩ := by
    rw [Reader.read_other hn (by decide) (by decide)]
    rfl
  obtain ⟨nest', hn', hv⟩ := options_value hs.value
    (r := ⟨nest, 0, s.option.title, some []⟩) hn rfl ds
  refine ⟨nest', hn', ?_⟩
  rw [Setting.chars, List.append_assoc,
    options_plain (r := .start nest) hn (plain_padded hs.plain s.before s.after), List.cons_append]
  exact (options_more hequal _).trans hv

-- The options are read as they were written.
theorem options_render {l : List Setting} (hl : l ≠ []) (hv : ∀ s ∈ l, s.Valid)
    (hn : Harmless nest) : options (render l) (.start nest) = (l.map Setting.option, true) := by
  induction l using render.induct generalizing nest
  case case1 => contradiction
  case case2 s =>
    obtain ⟨nest', -, hs⟩ := options_setting (hv s List.mem_cons_self) hn []
    rw [List.append_nil] at hs
    rw [render, hs]
    rfl
  case case3 s t l ih =>
    obtain ⟨hs, hl⟩ := List.forall_mem_cons.mp hv
    obtain ⟨nest', hn', hopt⟩ := options_setting hs hn (44 :: render (t :: l))
    have hcomma : Reader.read ⟨nest', 0, s.option.title, some s.option.value⟩ 44 =
        .option ⟨nest', 0, s.option.title, some s.option.value⟩ := by
      rw [Reader.read_other hn' (by decide) (by decide)]
      rfl
    rw [render, hopt, options, hcomma]
    simp only [ih (List.cons_ne_nil t l) hl hn']
    rfl

end

end OptionValue
