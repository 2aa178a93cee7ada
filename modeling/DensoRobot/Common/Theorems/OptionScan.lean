import DensoRobot.Common.Theorems.Copy
import DensoRobot.Common.Theorems.OptionList

open HRESULT

namespace OptionValue

section

variable {host : Host} {cs ds : List Nat} {next : Nat}

theorem load_append (done : List Nat) (c : Nat) (rest : List Nat) :
    load (done ++ c :: rest) done.length = .ok c := by
  simp [load]

theorem skipBlanks_eq (cs : List Nat) :
    skipBlanks (cs ++ [0]) = .ok (cs.takeWhile blank).length := by
  induction cs
  case nil => rfl
  case cons c cs ih =>
    rw [List.cons_append, skipBlanks, List.takeWhile_cons]
    by_cases hc : c = 32
    case pos => simp [hc, blank, ih]
    case neg => simp [hc, blank]

-- The blanks at the end become zeros. If there is nothing else, the loop goes on in front of the
-- string.
theorem cutBlanks_eq (cs ds : List Nat) : cutBlanks (cs ++ ds) cs.length =
    if Blank cs then .error .read
    else .ok (cs.rdropWhile blank ++ List.replicate (cs.rtakeWhile blank).length 0 ++ ds) := by
  induction cs using List.reverseRecOn generalizing ds
  case nil => rfl
  case append_singleton cs c ih =>
    rw [List.length_append, List.length_singleton, cutBlanks, List.append_assoc,
      List.singleton_append, load_append, Exec.ok_bind]
    by_cases hc : c = 32
    case pos =>
      have hset : (cs ++ c :: ds).set cs.length 0 = cs ++ 0 :: ds := by simp
      have hb : blank c = true := by simp [blank, hc]
      have hblank : Blank (cs ++ [c]) ↔ Blank cs := by
        simp only [Blank, List.forall_mem_append, List.forall_mem_singleton, hb, and_true]
      rw [if_pos hc, hset, ih, List.rdropWhile_concat_pos _ _ _ hb,
        List.rtakeWhile_concat_pos _ _ _ hb]
      simp only [hblank, List.length_append, List.length_singleton, List.replicate_succ',
        List.append_assoc, List.singleton_append]
    case neg =>
      have hb : ¬blank c = true := by simp [blank, hc]
      have hblank : ¬Blank (cs ++ [c]) := fun h => hb (h c (by simp))
      rw [if_neg hc, if_neg hblank, List.rdropWhile_concat_neg _ _ _ hb,
        List.rtakeWhile_concat_neg _ _ _ hb]
      simp

-- A string of blanks is read in front of its memory.
theorem trimmed_blank {bstr : Option Bstr} (h : ∀ b ∈ bstr, Blank b.chars) (next : Nat) :
    trimmed host bstr next = .error .read := by
  cases bstr
  case none => rfl
  case some b =>
    have hb := h b rfl
    have ht : b.chars.takeWhile blank = b.chars := List.takeWhile_eq_self_iff.mpr hb
    have hz : wcslen [0] = 0 := rfl
    simp only [trimmed, cells, Exec.pure_eq, Exec.ok_bind, skipBlanks_eq, ht, List.drop_left, hz,
      Nat.add_zero, cutBlanks_eq, if_pos hb, Exec.error_bind]

theorem trimmed_text {b : Bstr} (hz : ∀ c ∈ b.chars, c ≠ 0) (hb : ¬Blank b.chars)
    (hl : b.chars.length < 16383) (next : Nat) :
    trimmed host (some b) next = .ok (stored host next (b.chars.trim blank), next + 1) := by
  have hdrop : (b.chars ++ [0]).drop (b.chars.takeWhile blank).length =
      b.chars.dropWhile blank ++ [0] := by
    have hsplit : b.chars ++ [0] = b.chars.takeWhile blank ++ (b.chars.dropWhile blank ++ [0]) := by
      rw [← List.append_assoc, List.takeWhile_append_dropWhile]
    rw [hsplit, List.drop_left]
  have hlen : wcslen (b.chars.dropWhile blank ++ [0]) = (b.chars.dropWhile blank).length := by
    rw [wcslen, wcs_append_zero fun c hc => hz c <| (List.dropWhile_sublist _).subset hc]
  have hsum : (b.chars.takeWhile blank).length + (b.chars.dropWhile blank).length =
      b.chars.length := by
    rw [← List.length_append, List.takeWhile_append_dropWhile]
  let zeros := List.replicate (b.chars.rtakeWhile blank).length 0
  have hcut : (b.chars.rdropWhile blank ++ zeros ++ [0]).drop (b.chars.takeWhile blank).length =
      b.chars.trim blank ++ 0 :: zeros := by
    rw [List.takeWhile_append_trim (not_blank_iff.mp hb), List.append_assoc, List.append_assoc,
      List.drop_left, ← List.replicate_succ', List.replicate_succ]
  have htrim : wcs (b.chars.trim blank ++ 0 :: zeros) = b.chars.trim blank :=
    wcs_append_zero (fun c hc => hz c <| (List.trim_sublist _).subset hc) _
  have hshort : wcslen (b.chars.trim blank ++ 0 :: zeros) < 16383 := by
    rw [wcslen, htrim]
    exact Nat.lt_of_le_of_lt (List.trim_sublist _).length_le hl
  simp only [trimmed, cells, Exec.pure_eq, Exec.ok_bind, skipBlanks_eq, hdrop, hlen, hsum,
    cutBlanks_eq, if_neg hb]
  rw [hcut, sysAllocString_short hshort, htrim]

end

-- The number of requests for memory that an option with a title takes before it is compared.
def Opt.requests (o : Opt) : Nat :=
  if o.value = [] then 1 else 2

def Opt.Names (towlower : Nat → Nat) (key : Bstr) (o : Opt) : Prop :=
  (o.title.trim blank).map towlower = (wcs key.chars).map towlower

instance (towlower : Nat → Nat) (key : Bstr) : DecidablePred (Opt.Names towlower key) :=
  fun _ => inferInstanceAs <| Decidable (_ = _)

-- Whether an option can be compared with the key.
def Opt.Compared (host : Host) (o : Opt) (next : Nat) : Prop :=
  ¬Blank o.title ∧ host.malloc next = true ∧ host.malloc (next + o.requests) = true

instance (host : Host) (o : Opt) (next : Nat) : Decidable (o.Compared host next) :=
  inferInstanceAs <| Decidable (_ ∧ _)

-- Looks for the key in a list of options.
def search (host : Host) (towlower : Nat → Nat) (key : Bstr) (ended : Bool) :
    List Opt → (next : Nat) → Exec Found
  | [],      _    => pure (if ended then .missing else .failed)
  | o :: os, next =>
    if ¬o.Compared host next then
      throw .read
    else if ¬o.Names towlower key then
      search host towlower key ended os (next + o.requests + 3)
    else if o.value = [] ∨ host.malloc (next + 1) = false then
      pure .empty
    else if Blank o.value then
      throw .read
    else
      pure <| .value (stored host (next + o.requests + 1) (o.value.trim blank))
        (next + o.requests + 2)

def Empty (bstr : Option Bstr) : Prop :=
  ∀ b ∈ bstr, b.chars = []

namespace Scanner

-- Where the scanner is: what it has kept of the string is followed by what it has not read.
structure At (s : Scanner) (done rest junk : List Nat) : Prop where
  target  : s.bstrTarget = done ++ (rest ++ 0 :: junk)
  wchTmp  : s.wchTmp = done.length
  i       : s.i = done.length
  len     : s.uiLenTarget = done.length + rest.length
  short   : done.length + rest.length < 16383
  nonzero : ∀ c ∈ done ++ rest, c ≠ 0

-- What the scanner knows about the option that it is in, the first request for which has the number
-- `first`.
structure Holds (host : Host) (s : Scanner) (r : Reader) (first : Nat)
    (done : List Nat) : Prop where
  level    : s.iLevelCount = r.level
  start    : s.wchStart = r.nest.1
  stop     : s.wchEnd = r.nest.2
  nonzero  : r.nest.1 ≠ 0 ∧ r.nest.2 ≠ 0
  getTitle : s.bGetTitle = r.value.isSome
  inTitle  : r.value = none → s.uiLenOptTitle = r.title.length ∧ r.title <:+ done
  inValue  : s.uiLenOneOpt = r.option.value.length ∧ r.option.value <:+ done
  text     : r.title.length < 16383 ∧ ∀ c ∈ r.title, c ≠ 0
  untitled : r.option.title = [] → Empty s.bstrOptTitle ∧ s.next = first
  titled   : r.option.title ≠ [] →
    s.bstrOptTitle = stored host first r.option.title ∧ s.next = first + 1
  noValue  : Empty s.bstrOneOpt

section

variable {host : Host} {s : Scanner} {r : Reader} {first c : Nat} {done rest junk cs : List Nat}

theorem At.load (h : s.At done (c :: rest) junk) : load s.bstrTarget s.wchTmp = .ok c := by
  rw [h.target, h.wchTmp, List.cons_append, load_append]

theorem At.load_end (h : s.At done [] junk) : OptionValue.load s.bstrTarget s.wchTmp = .ok 0 := by
  rw [h.target, h.wchTmp, List.nil_append, load_append]

theorem At.advance (h : s.At done (c :: rest) junk) : s.advance.At (done ++ [c]) rest junk where
  target  := by simp [Scanner.advance, h.target]
  wchTmp  := by simp [Scanner.advance, h.wchTmp]
  i       := by
    have hs := h.short
    rw [List.length_cons] at hs
    rw [Scanner.advance, List.length_append, List.length_singleton, h.i]
    exact u16_of_lt (by omega)
  len     := by simp [Scanner.advance, h.len]; omega
  short   := by simpa [Nat.add_assoc, Nat.add_comm 1] using h.short
  nonzero := by simpa using h.nonzero

-- What follows the removed character, and the zero behind it, moves down.
theorem moveDown_eq (done : List Nat) (c : Nat) (rest junk : List Nat) :
    moveDown (done ++ (c :: rest ++ 0 :: junk)) done.length (rest.length + 1) =
      .ok (done ++ (rest ++ 0 :: 0 :: junk)) := by
  have hlen : ¬((done.length : Int) < 0 ∨ ((done ++ (c :: rest ++ 0 :: junk)).length : Int) <
      done.length + 1 + (rest.length + 1 : Nat)) := by
    simp only [List.length_append, List.length_cons]
    omega
  have htake : (done ++ (c :: rest ++ 0 :: junk)).take done.length = done := List.take_left
  have hmoved : ((done ++ (c :: rest ++ 0 :: junk)).drop (done.length + 1)).take (rest.length + 1) =
      rest ++ [0] := by
    rw [List.drop_length_add_append, List.cons_append, List.drop_one, List.tail_cons,
      List.take_length_add_append, List.take_one]
    rfl
  have hdrop : (done ++ (c :: rest ++ 0 :: junk)).drop (done.length + (rest.length + 1)) =
      0 :: junk := by
    simp [List.drop_append]
  rw [moveDown, if_neg hlen, Int.toNat_natCast, htake, hmoved, hdrop]
  simp

theorem At.remove (h : s.At done (c :: rest) junk) : ∃ target len i p,
    s.remove = .ok { s with bstrTarget := target, uiLenTarget := len, i := i, wchTmp := p } ∧
      { s with bstrTarget := target, uiLenTarget := len, i := i, wchTmp := p }.advance.At
        done rest (0 :: junk) := by
  have hn : s.uiLenTarget - s.i = rest.length + 1 := by
    rw [h.len, h.i, List.length_cons]
    omega
  have hs := h.short
  have hl := h.len
  rw [List.length_cons] at hs hl
  refine ⟨_, _, _, _, by rw [Scanner.remove, hn, h.target, h.wchTmp, moveDown_eq]; rfl, ?_⟩
  constructor
  case target  => rfl
  case wchTmp  => exact Int.sub_add_cancel ..
  case i       => simp only [Scanner.advance, h.i, u16]; omega
  case len     => simp only [Scanner.advance, hl, u16]; omega
  case short   => omega
  case nonzero =>
    have hz := h.nonzero
    simp only [List.forall_mem_append, List.forall_mem_cons] at hz ⊢
    exact ⟨hz.1, hz.2.2⟩

theorem Holds.level_iff (h : s.Holds host r first done) : s.iLevelCount = 0 ↔ r.level = 0 := by
  rw [h.level]
  exact Int.natCast_eq_zero

theorem Holds.setNest (h : s.Holds host r first done) (c : Nat) :
    (s.setNest c).Holds host (r.turn c) first done := by
  rw [Scanner.setNest, Reader.turn]
  by_cases hl : r.level = 0
  case neg => rwa [if_neg (h.level_iff.not.mpr hl), if_neg hl]
  case pos =>
    rw [if_pos (h.level_iff.mpr hl), if_pos hl]
    cases hb : brackets c
    case none => exact h
    case some nest =>
      obtain ⟨-, -, hfirst, hlast⟩ := brackets_spec hb
      have hz : brackets 0 = none := rfl
      have hn : nest.1 ≠ 0 ∧ nest.2 ≠ 0 :=
        ⟨fun h0 => by rw [h0, hz] at hfirst; contradiction,
          fun h0 => by rw [h0, hz] at hlast; contradiction⟩
      exact { h with start := rfl, stop := rfl, nonzero := hn }

theorem At.setNest (h : s.At done rest junk) (c : Nat) : (s.setNest c).At done rest junk := by
  rw [Scanner.setNest]
  split
  case isFalse => exact h
  case isTrue  =>
    cases brackets c
    case none      => exact h
    case some nest => exact { h with }

theorem Holds.setLevel (h : s.Holds host r first done) {z : Int} {n : Nat} (hz : z = n) :
    { s with iLevelCount := z }.Holds host { r with level := n } first done :=
  { h with level := hz }

theorem Holds.count (h : s.Holds host r first done) (hc : c ≠ 0) (hl : done.length + 1 < 16383) :
    s.count.Holds host (r.append [c]) first (done ++ [c]) := by
  have hlen (x : List Nat) (hx : x <:+ done) : u16 (x.length + 1) = (x ++ [c]).length := by
    have hle := hx.length_le
    rw [List.length_append, List.length_singleton]
    exact u16_of_lt (by omega)
  have hsuffix (x : List Nat) (hx : x <:+ done) : x ++ [c] <:+ done ++ [c] := by
    obtain ⟨pre, rfl⟩ := hx
    exact ⟨pre, (List.append_assoc ..).symm⟩
  obtain ⟨nest, level, title, _ | value⟩ := r
  case none =>
    obtain ⟨hlt, hx⟩ := h.inTitle rfl
    have hle : title.length ≤ done.length := hx.length_le
    have hg : s.bGetTitle = false := h.getTitle
    have hcount : s.count = { s with uiLenOptTitle := u16 (s.uiLenOptTitle + 1) } := by
      simp [Scanner.count, hg]
    have htext : (title ++ [c]).length < 16383 ∧ ∀ d ∈ title ++ [c], d ≠ 0 := by
      refine ⟨?_, List.forall_mem_append.mpr ⟨h.text.2, List.forall_mem_singleton.mpr hc⟩⟩
      rw [List.length_append, List.length_singleton]
      omega
    rw [hcount]
    exact { h with
      inTitle := fun _ => ⟨(congrArg (u16 <| · + 1) hlt).trans (hlen title hx), hsuffix title hx⟩
      inValue := ⟨h.inValue.1, List.nil_suffix⟩
      text    := htext }
  case some =>
    obtain ⟨hlv, hx⟩ := h.inValue
    have hg : s.bGetTitle = true := h.getTitle
    have hcount : s.count = { s with uiLenOneOpt := u16 (s.uiLenOneOpt + 1) } := by
      simp [Scanner.count, hg]
    rw [hcount]
    exact { h with
      inTitle := fun hnone => by cases hnone
      inValue := ⟨(congrArg (u16 <| · + 1) hlv).trans (hlen value hx), hsuffix value hx⟩ }

-- The characters in front of the scanner are copied.
theorem At.copyBehind (h : s.At done rest junk) {x : List Nat} (hx : x <:+ done) :
    s.copyBehind host x.length = .ok (stored host s.next x, s.next + 1) := by
  have hshort := h.short
  have hz := h.nonzero
  have ht := h.target
  have hp := h.wchTmp
  obtain ⟨pre, rfl⟩ := hx
  rw [List.length_append] at hshort
  have hfront : ¬s.wchTmp < x.length := by
    rw [hp, List.length_append]
    omega
  have hdrop : s.bstrTarget.drop (s.wchTmp - x.length).toNat = (x ++ rest) ++ 0 :: junk := by
    have hpre : (s.wchTmp - x.length).toNat = pre.length := by
      rw [hp, List.length_append]
      omega
    rw [hpre, ht, List.append_assoc, List.drop_left, List.append_assoc]
  have hw : wcs ((x ++ rest) ++ 0 :: junk) = x ++ rest :=
    wcs_append_zero (fun c hc => hz c (by simp at hc ⊢; tauto)) junk
  have hlen : wcslen ((x ++ rest) ++ 0 :: junk) = x.length + rest.length := by
    rw [wcslen, hw, List.length_append]
  rw [Scanner.copyBehind, if_neg hfront, hdrop,
    sysAllocStringLen_eq (by omega) (by omega) (by omega), hw, List.take_left]

-- The value of an option is copied, unless there is none.
theorem copyValue (h : s.At done rest junk) (hh : s.Holds host r first done) : ∃ one,
    s.copyCounted host s.uiLenOneOpt s.bstrOneOpt = .ok (one, s.next + r.option.requests - 1) ∧
      (r.option.value = [] → Empty one) ∧
      (r.option.value ≠ [] → one = stored host s.next r.option.value) := by
  obtain ⟨hl, hx⟩ := hh.inValue
  by_cases hv : r.option.value = []
  case pos =>
    have hn : ¬0 < s.uiLenOneOpt := by rw [hl, hv]; exact Nat.lt_irrefl 0
    refine ⟨s.bstrOneOpt, ?_, fun _ => hh.noValue, fun hne => absurd hv hne⟩
    rw [copyCounted, if_neg hn, Opt.requests, if_pos hv]
    rfl
  case neg =>
    have hp : 0 < s.uiLenOneOpt := by rw [hl]; exact List.length_pos_iff.mpr hv
    refine ⟨stored host s.next r.option.value, ?_, fun he => absurd he hv, fun _ => rfl⟩
    rw [copyCounted, if_pos hp, hl, h.copyBehind hx, Opt.requests, if_neg hv]
    rfl

theorem Holds.endTitle (h : s.At done rest junk) (hh : s.Holds host r first done)
    (hv : r.value = none) (done' : List Nat) :
    ∃ title next, s.endTitle host = .ok (.continue { s with
        bstrOptTitle := title, uiLenOptTitle := 0, bGetTitle := true, next := next }) ∧
      { s with bstrOptTitle := title, uiLenOptTitle := 0, bGetTitle := true, next := next }.Holds
        host { r with value := some [] } first done' := by
  obtain ⟨nest, level, title, value⟩ := r
  cases hv
  obtain ⟨hl, hx⟩ := hh.inTitle rfl
  obtain ⟨hempty, hnext⟩ := hh.untitled rfl
  have hg : ¬s.bGetTitle = true := by
    rw [hh.getTitle]
    exact Bool.false_ne_true
  by_cases ht : title = []
  case pos =>
    have hn : ¬0 < s.uiLenOptTitle := by rw [hl, ht]; exact Nat.lt_irrefl 0
    refine ⟨s.bstrOptTitle, s.next, ?_, ?_⟩
    case refine_1 =>
      rw [Scanner.endTitle, if_neg hg, copyCounted, if_neg hn]
      rfl
    case refine_2 =>
      exact { hh with
        getTitle := rfl
        inTitle  := fun hnone => by cases hnone
        inValue  := ⟨hh.inValue.1, List.nil_suffix⟩
        untitled := fun _ => ⟨hempty, hnext⟩
        titled   := fun hne => absurd ht hne }
  case neg =>
    have hp : 0 < s.uiLenOptTitle := by rw [hl]; exact List.length_pos_iff.mpr ht
    refine ⟨stored host s.next title, s.next + 1, ?_, ?_⟩
    case refine_1 =>
      rw [Scanner.endTitle, if_neg hg, copyCounted, if_pos hp, hl, h.copyBehind hx]
      rfl
    case refine_2 =>
      exact { hh with
        getTitle := rfl
        inTitle  := fun hnone => by cases hnone
        inValue  := ⟨hh.inValue.1, List.nil_suffix⟩
        untitled := fun he => absurd he ht
        titled   := fun _ => ⟨hnext ▸ rfl, hnext ▸ rfl⟩ }

theorem Holds.title_short (hh : s.Holds host r first done) : r.option.title.length < 16383 := by
  cases hv : r.value
  case none   => simp [Reader.option, hv]
  case some v => simpa [Reader.option, hv] using hh.text.1

theorem Holds.title_nonzero (hh : s.Holds host r first done) : ∀ c ∈ r.option.title, c ≠ 0 := by
  cases hv : r.value
  case none   => simp [Reader.option, hv]
  case some v => simpa [Reader.option, hv] using hh.text.2

theorem Holds.trimmedTitle (hh : s.Holds host r first done) (hb : ¬Blank r.option.title)
    (hm : host.malloc first = true) (n : Nat) : trimmed host s.bstrOptTitle n =
      .ok (stored host n (r.option.title.trim blank), n + 1) := by
  have hne : r.option.title ≠ [] := fun he => hb (by simp [he, Blank])
  rw [(hh.titled hne).1, stored, if_pos hm]
  exact trimmed_text hh.title_nonzero hb hh.title_short n

theorem Holds.trimmedTitle_refused (hh : s.Holds host r first done)
    (h : Blank r.option.title ∨ host.malloc first = false) (n : Nat) :
    trimmed host s.bstrOptTitle n = .error .read := by
  apply trimmed_blank
  by_cases ht : r.option.title = []
  case pos =>
    intro b hb
    rw [(hh.untitled ht).1 b hb]
    simp [Blank]
  case neg =>
    rw [(hh.titled ht).1, stored]
    cases h
    case inr hm => simp [hm]
    case inl hb =>
      split
      case isFalse => simp
      case isTrue  =>
        rintro _ ⟨⟩
        exact hb

variable {towlower : Nat → Nat} {key : Bstr}

theorem Holds.sameWord (hh : s.Holds host r first done) {n : Nat} (hm : host.malloc n = true) :
    sameWord towlower (stored host n (r.option.title.trim blank)) (some key) =
      .ok (decide (r.option.Names towlower key)) := by
  have hz : ∀ c ∈ r.option.title.trim blank, c ≠ 0 := fun c hc =>
    hh.title_nonzero c <| (List.trim_sublist _).subset hc
  rw [stored, if_pos hm, OptionValue.sameWord, wcs_of_forall hz]
  rfl

theorem next_of_titled (hh : s.Holds host r first done) (hb : ¬Blank r.option.title) :
    s.next = first + 1 :=
  (hh.titled fun he => hb (by simp [he, Blank])).2

theorem endOption_refused (h : s.At done rest junk) (hh : s.Holds host r first done)
    (hc : ¬r.option.Compared host first) :
    s.endOption host towlower (some key) c = .error .read := by
  obtain ⟨one, hone, -, -⟩ := copyValue h hh
  simp only [Scanner.endOption, hone, Exec.ok_bind]
  by_cases ht : Blank r.option.title ∨ host.malloc first = false
  case pos => rw [hh.trimmedTitle_refused ht, Exec.error_bind]
  case neg =>
    rw [not_or, Bool.not_eq_false] at ht
    have hm : host.malloc (first + r.option.requests) = false := by
      simpa [Opt.Compared, ht] using hc
    have hnext : s.next + r.option.requests - 1 = first + r.option.requests := by
      rw [next_of_titled hh ht.1]
      omega
    have hnone : stored host (first + r.option.requests) (r.option.title.trim blank) = none := by
      simp [stored, hm]
    simp only [hh.trimmedTitle ht.1 ht.2, hnext, hnone, Exec.ok_bind]
    rfl

theorem endOption_compared (towlower : Nat → Nat) (key : Bstr) (h : s.At done rest junk)
    (hh : s.Holds host r first done) (hc : r.option.Compared host first) (c : Nat) : ∃ one,
    (r.option.value = [] → Empty one) ∧
      (r.option.value ≠ [] → one = stored host (first + 1) r.option.value) ∧
      s.endOption host towlower (some key) c =
        if r.option.Names towlower key then
          pure <| if sysStringLen one = 0 then .exit .empty else .break { s with
            bstrOneOpt   := one
            uiLenOneOpt  := 0
            bstrOptTitle := stored host (first + r.option.requests) (r.option.title.trim blank)
            next         := first + r.option.requests + 1 }
        else if c = 44 then
          pure <| .continue { s with
            bstrOptTitle  := stored host (first + r.option.requests + 1) []
            uiLenOptTitle := 0
            bstrOneOpt    := stored host (first + r.option.requests + 2) []
            uiLenOneOpt   := 0
            bGetTitle     := false
            next          := first + r.option.requests + 3 }
        else
          pure (.exit .missing) := by
  obtain ⟨hb, hm, hlast⟩ := hc
  obtain ⟨one, hone, hempty, hvalue⟩ := copyValue h hh
  have hnext := next_of_titled hh hb
  have hsum : s.next + r.option.requests - 1 = first + r.option.requests := by omega
  rw [hsum] at hone
  rw [hnext] at hvalue
  refine ⟨one, hempty, hvalue, ?_⟩
  have hnew (n : Nat) : sysAllocString host (some []) n = .ok (stored host n [], n + 1) :=
    sysAllocString_short (by decide) n
  simp only [Scanner.endOption, hone, hh.trimmedTitle hb hm, hh.sameWord hlast, Exec.ok_bind, hnew,
    decide_eq_true_eq]
  by_cases hn : r.option.Names towlower key
  case neg => rw [if_neg hn, if_neg hn]
  case pos =>
    rw [if_pos hn, if_pos hn]
    split <;> rfl

-- What one pass through the loop does, where the rest of the string is `cs` after it.
inductive Follows (host : Host) (towlower : Nat → Nat) (key : Bstr) (first : Nat) (cs : List Nat) :
    Exec Pass → Reader.Read → Prop
  | stuck : Follows host towlower key first cs (.ok (.exit .failed)) .stuck
  | more {s : Scanner} {r : Reader} {done junk : List Nat} : s.advance.At done cs junk →
      s.Holds host r first done → Follows host towlower key first cs (.ok (.continue s)) (.more r)
  | option {s : Scanner} {r : Reader} {done junk : List Nat} : s.At done (44 :: cs) junk →
      s.Holds host r first done → r.level = 0 →
      Follows host towlower key first cs (s.endOption host towlower (some key) 44) (.option r)

theorem At.lt (h : s.At done (c :: rest) junk) : done.length + 1 < 16383 := by
  have hs := h.short
  rw [List.length_cons] at hs
  omega

theorem At.ne_zero (h : s.At done (c :: rest) junk) : c ≠ 0 :=
  h.nonzero c (by simp)

theorem At.count (h : s.At done rest junk) : s.count.At done rest junk := by
  rw [Scanner.count]
  split <;> exact { h with }

theorem count_level (s : Scanner) : s.count.iLevelCount = s.iLevelCount := by
  rw [Scanner.count]
  split <;> rfl

theorem readOption_follows (h : s.At done (c :: cs) junk) (hh : s.Holds host r first done) :
    Follows host towlower key first cs (s.readOption host towlower (some key) c)
      (r.readChar c) := by
  simp only [Scanner.readOption, Reader.readChar, hh.level_iff]
  by_cases hequal : r.level = 0 ∧ c = 61
  case pos =>
    rw [if_pos hequal, if_pos hequal]
    cases hv : r.value
    case none =>
      obtain ⟨title, next, he, hholds⟩ := hh.endTitle h hv (done ++ [c])
      rw [he]
      have hat : { s with
          bstrOptTitle := title, uiLenOptTitle := 0, bGetTitle := true, next := next }.At
            done (c :: cs) junk := { h with }
      exact .more hat.advance hholds
    case some v =>
      have hg : s.bGetTitle = true := by rw [hh.getTitle, hv]; rfl
      rw [Scanner.endTitle, if_pos hg]
      exact .stuck
  case neg =>
    rw [if_neg hequal, if_neg hequal]
    by_cases hcomma : r.level = 0 ∧ c = 44
    case pos =>
      obtain ⟨hl, rfl⟩ := hcomma
      rw [if_pos ⟨hl, .inl rfl⟩, if_pos ⟨hl, rfl⟩]
      exact .option h hh hl
    case neg =>
      have hz : ¬(r.level = 0 ∧ (c = 44 ∨ c = 0)) := by
        have hc := h.ne_zero
        tauto
      rw [if_neg hz, if_neg hcomma]
      exact .more h.count.advance (hh.count h.ne_zero h.lt)

theorem readChar_within {r : Reader} (hl : r.level ≠ 0) : r.readChar c = .more (r.append [c]) := by
  simp [Reader.readChar, hl]

theorem remove_follows (h : s.At done (c :: cs) junk) (hh : s.Holds host r first done) :
    ∃ s', s.remove = .ok s' ∧
      Follows host towlower key first cs (.ok (.continue s')) (.more r) := by
  obtain ⟨target, len, i, p, hr, hat⟩ := h.remove
  exact ⟨_, hr, .more hat { hh with }⟩

-- A pass does with the next character what the reader does.
theorem pass_follows (h : s.At done (c :: cs) junk) (hh : s.Holds host r first done) :
    Follows host towlower key first cs (s.pass host towlower (some key)) (r.read c) := by
  have ht := h.setNest c
  have hn := hh.setNest c
  rw [pass, h.load, Exec.ok_bind, Reader.read]
  generalize s.setNest c = s at ht hn ⊢
  generalize r.turn c = r at hn ⊢
  simp only [Reader.readNested]
  by_cases hfirst : c = r.nest.1
  case pos =>
    have hinner : { s with iLevelCount := s.iLevelCount + 1 }.At done (c :: cs) junk := { ht with }
    rw [if_pos (hfirst.trans hn.start.symm), if_pos hfirst]
    by_cases hl : r.level = 0
    case pos =>
      have hone : s.iLevelCount + 1 = 1 := by rw [hn.level_iff.mpr hl]; rfl
      obtain ⟨s', hr, hf⟩ := remove_follows hinner (hn.setLevel hone)
      rw [if_pos hone, if_pos hl, hr]
      exact hf
    case neg =>
      have hone : ¬s.iLevelCount + 1 = 1 := by
        have hz := hn.level_iff.not.mpr hl
        omega
      have hup : s.iLevelCount + 1 = (r.level + 1 : Nat) := congrArg (· + 1) hn.level
      have hf : Follows host towlower key first cs _ _ :=
        readOption_follows hinner (hn.setLevel hup)
      rw [readChar_within (Nat.succ_ne_zero r.level)] at hf
      rw [if_neg hone, if_neg hl]
      exact hf
  case neg =>
    rw [if_neg (hn.start ▸ hfirst), if_neg hfirst]
    by_cases hlast : c = r.nest.2
    case neg =>
      rw [if_neg (hn.stop ▸ hlast), if_neg hlast]
      exact readOption_follows ht hn
    case pos =>
      have houter : { s with iLevelCount := s.iLevelCount - 1 }.At done (c :: cs) junk :=
        { ht with }
      rw [if_pos (hlast.trans hn.stop.symm), if_pos hlast]
      have hlevel := hn.level
      rcases hl : r.level with _ | _ | n
      case zero =>
        have hneg : s.iLevelCount - 1 < 0 := by omega
        rw [if_pos hneg]
        exact .stuck
      case zero =>
        have hneg : ¬s.iLevelCount - 1 < 0 := by omega
        have hzero : s.iLevelCount - 1 = 0 := by omega
        obtain ⟨s', hr, hf⟩ := remove_follows houter (hn.setLevel hzero)
        rw [if_neg hneg, if_pos hzero, hr]
        exact hf
      case succ =>
        have hneg : ¬s.iLevelCount - 1 < 0 := by omega
        have hzero : ¬s.iLevelCount - 1 = 0 := by omega
        have hdown : s.iLevelCount - 1 = (n + 1 : Nat) := by omega
        have hf : Follows host towlower key first cs _ _ :=
          readOption_follows houter (hn.setLevel hdown)
        rw [readChar_within (Nat.succ_ne_zero n)] at hf
        rw [if_neg hneg, if_neg hzero]
        exact hf

def afterPass (host : Host) (towlower : Nat → Nat) (key : Bstr) (fuel : Nat) : Pass → Exec Found
  | .exit r     => pure r
  | .break s    => s.finish host
  | .continue s => s.advance.scan host towlower (some key) fuel

theorem At.scan_succ (h : s.At done rest junk) (fuel : Nat) :
    s.scan host towlower (some key) (fuel + 1) =
      s.pass host towlower (some key) >>= afterPass host towlower key fuel := by
  have hi : ¬s.uiLenTarget < s.i := by
    rw [h.len, h.i]
    omega
  rw [scan, if_neg hi]
  rfl

theorem finish_eq {b : Bstr} (hl : s.iLevelCount = 0) (hs : s.bstrOneOpt = some b)
    (hz : ∀ c ∈ b.chars, c ≠ 0) (hlen : b.chars.length < 16383) :
    s.finish host = if Blank b.chars then .error .read
      else .ok (.value (stored host s.next (b.chars.trim blank)) (s.next + 1)) := by
  rw [finish, if_neg (not_not.mpr hl), hs]
  split
  case isTrue hb =>
    have hblank : ∀ x ∈ some b, Blank x.chars := by
      rintro _ ⟨⟩
      exact hb
    rw [trimmed_blank hblank, Exec.error_bind]
  case isFalse hb => rw [trimmed_text hz hb hlen, Exec.ok_bind]; rfl

theorem Holds.value_short (h : s.At done rest junk) (hh : s.Holds host r first done) :
    r.option.value.length < 16383 := by
  have hle := hh.inValue.2.length_le
  have hs := h.short
  omega

theorem Holds.value_nonzero (h : s.At done rest junk) (hh : s.Holds host r first done) :
    ∀ c ∈ r.option.value, c ≠ 0 :=
  fun c hc => h.nonzero c <| List.mem_append_left rest <| hh.inValue.2.subset hc

-- The string of a value is empty if there is no value, or no memory for it.
theorem sysStringLen_eq_zero_iff (h : s.At done rest junk) (hh : s.Holds host r first done)
    {one : Option Bstr} (hempty : r.option.value = [] → Empty one)
    (hvalue : r.option.value ≠ [] → one = stored host (first + 1) r.option.value) :
    sysStringLen one = 0 ↔ r.option.value = [] ∨ host.malloc (first + 1) = false := by
  by_cases hv : r.option.value = []
  case pos =>
    refine iff_of_true ?_ (.inl hv)
    cases one
    case none   => rfl
    case some b => rw [sysStringLen, hempty hv b rfl]; rfl
  case neg =>
    have hlen := List.length_pos_iff.mpr hv
    rw [hvalue hv, stored, or_iff_right hv]
    split
    case isFalse hm => exact iff_of_true rfl (Bool.not_eq_true _ ▸ hm)
    case isTrue hm =>
      refine iff_of_false ?_ (by simp [hm])
      have hs := hh.value_short h
      rw [sysStringLen, wcslen, wcs_of_forall (hh.value_nonzero h), u16_of_lt (by omega)]
      omega

-- What follows the end of an option is what the search does with it.
theorem endOption_search (h : s.At done rest junk) (hh : s.Holds host r first done)
    (hl : r.level = 0) (c fuel : Nat) :
    (s.endOption host towlower (some key) c >>= afterPass host towlower key fuel) =
      if ¬r.option.Compared host first then
        .error .read
      else if ¬r.option.Names towlower key then
        if c = 44 then
          { s with
            bstrOptTitle  := stored host (first + r.option.requests + 1) []
            uiLenOptTitle := 0
            bstrOneOpt    := stored host (first + r.option.requests + 2) []
            uiLenOneOpt   := 0
            bGetTitle     := false
            next          :=
              first + r.option.requests + 3 }.advance.scan host towlower (some key) fuel
        else
          .ok .missing
      else if r.option.value = [] ∨ host.malloc (first + 1) = false then
        .ok .empty
      else if Blank r.option.value then
        .error .read
      else
        .ok (.value (stored host (first + r.option.requests + 1) (r.option.value.trim blank))
          (first + r.option.requests + 2)) := by
  by_cases hc : r.option.Compared host first
  case neg => rw [endOption_refused h hh hc, if_pos hc]; rfl
  case pos =>
    obtain ⟨one, hempty, hvalue, he⟩ := endOption_compared towlower key h hh hc c
    rw [he, if_neg (not_not.mpr hc)]
    by_cases hn : r.option.Names towlower key
    case neg =>
      rw [if_neg hn, if_pos hn]
      split <;> rfl
    case pos =>
      rw [if_pos hn, if_neg (not_not.mpr hn), Exec.pure_eq, Exec.ok_bind,
        if_congr (sysStringLen_eq_zero_iff h hh hempty hvalue) rfl rfl]
      split
      case isTrue => rfl
      case isFalse hv =>
        obtain ⟨hne, hm⟩ := not_or.mp hv
        rw [Bool.not_eq_false] at hm
        have hone : one = some ⟨first + 1, r.option.value⟩ := by rw [hvalue hne, stored, if_pos hm]
        apply finish_eq (b := ⟨first + 1, r.option.value⟩)
        case hl   => exact hh.level_iff.mpr hl
        case hs   => exact hone
        case hz   => exact hh.value_nonzero h
        case hlen => exact hh.value_short h

theorem empty_stored (n : Nat) : Empty (stored host n []) := by
  rw [stored]
  split <;> simp [Empty]

theorem Holds.restart (hh : s.Holds host r first done) (hl : r.level = 0) (n m k : Nat)
    (done' : List Nat) : { s with
      bstrOptTitle  := stored host n []
      uiLenOptTitle := 0
      bstrOneOpt    := stored host m []
      uiLenOneOpt   := 0
      bGetTitle     := false
      next          := k }.Holds host (.start r.nest) k done' where
  level    := hh.level_iff.mpr hl
  start    := hh.start
  stop     := hh.stop
  nonzero  := hh.nonzero
  getTitle := rfl
  inTitle  := fun _ => ⟨rfl, List.nil_suffix⟩
  inValue  := ⟨rfl, List.nil_suffix⟩
  text     := ⟨(by decide : 0 < 16383), fun _ hc => absurd hc List.not_mem_nil⟩
  untitled := fun _ => ⟨empty_stored n, rfl⟩
  titled   := fun hne => absurd rfl hne
  noValue  := empty_stored m

-- The zero behind the string ends an option, unless a bracket is open.
theorem pass_end (h : s.At done [] junk) (hh : s.Holds host r first done) :
    s.pass host towlower (some key) =
      if r.level = 0 then s.endOption host towlower (some key) 0 else .ok (.continue s.count) := by
  have hnest : s.setNest 0 = s := by
    rw [Scanner.setNest]
    split <;> rfl
  have hstart : ¬0 = s.wchStart := fun he => hh.nonzero.1 (hh.start.symm.trans he.symm)
  have hstop : ¬0 = s.wchEnd := fun he => hh.nonzero.2 (hh.stop.symm.trans he.symm)
  simp only [pass, h.load_end, Exec.ok_bind, hnest, if_neg hstart, if_neg hstop, readOption,
    hh.level_iff]
  by_cases hl : r.level = 0
  case pos => simp [hl]
  case neg => simp [hl]

-- Behind the zero the loop ends, and a bracket is still open.
theorem At.scan_behind (h : s.At done [] junk) (hl : s.iLevelCount ≠ 0) (fuel : Nat) :
    s.advance.scan host towlower (some key) (fuel + 1) = .ok .failed := by
  have hs := h.short
  have hi : s.advance.uiLenTarget < s.advance.i := by
    simp only [Scanner.advance, h.len, h.i, List.length_nil, u16] at hs ⊢
    omega
  have hopen : s.advance.iLevelCount ≠ 0 := hl
  rw [scan, if_pos hi, finish, if_pos hopen]
  rfl

-- The scanner finds what the search in the list of options does.
theorem scan_eq (h : s.At done rest junk) (hh : s.Holds host r first done) {fuel : Nat}
    (hf : rest.length + 1 < fuel) : s.scan host towlower (some key) fuel =
      search host towlower key (options rest r).2 (options rest r).1 first := by
  induction rest generalizing s r first done junk fuel
  case nil =>
    obtain _ | _ | fuel := fuel
    case zero      => contradiction
    case succ.zero => exact absurd hf (Nat.lt_irrefl 1)
    case succ.succ =>
      rw [h.scan_succ, pass_end h hh, options]
      by_cases hl : r.level = 0
      case pos =>
        rw [if_pos hl, if_pos hl, endOption_search h hh hl]
        rfl
      case neg =>
        rw [if_neg hl, if_neg hl]
        have hopen : s.count.iLevelCount ≠ 0 := by
          rw [count_level]
          exact hh.level_iff.not.mpr hl
        exact h.count.scan_behind hopen fuel
  case cons c cs ih =>
    obtain _ | fuel := fuel
    case zero => contradiction
    case succ =>
      have hf : cs.length + 1 < fuel := Nat.lt_of_succ_lt_succ hf
      have hp : Follows host towlower key first cs _ _ := pass_follows h hh
      rw [h.scan_succ, options]
      generalize s.pass host towlower (some key) = p at hp ⊢
      generalize r.read c = d at hp ⊢
      cases hp
      case stuck             => rfl
      case more hat hholds   => exact ih hat { hholds with } hf
      case option s r done junk hat hholds hl =>
        have hrest := ih (At.advance (s := { s with
            bstrOptTitle  := stored host (first + r.option.requests + 1) []
            uiLenOptTitle := 0
            bstrOneOpt    := stored host (first + r.option.requests + 2) []
            uiLenOneOpt   := 0
            bGetTitle     := false
            next          := first + r.option.requests + 3 }) { hat with })
          { hholds.restart hl _ _ (first + r.option.requests + 3) (done ++ [44]) with } hf
        rw [endOption_search hat hholds hl, if_pos rfl, hrest]
        rfl

end

theorem start_at {src : List Nat} {len : Nat} (hlen : len = src.length) (hl : src.length < 16383)
    (hz : ∀ c ∈ src, c ≠ 0) {title one : Option Bstr} {next : Nat} :
    (start (src ++ [0]) len title one next).At [] src [] where
  target  := rfl
  wchTmp  := rfl
  i       := rfl
  len     := by rw [start, hlen, List.length_nil, Nat.zero_add]
  short   := by rwa [List.length_nil, Nat.zero_add]
  nonzero := hz

theorem start_holds (host : Host) (block : List Nat) (len n m k : Nat) :
    (start block len (stored host n []) (stored host m []) k).Holds host
      (.start (4294967295, 4294967295)) k [] where
  level    := rfl
  start    := rfl
  stop     := rfl
  nonzero  := ⟨by decide, by decide⟩
  getTitle := rfl
  inTitle  := fun _ => ⟨rfl, List.nil_suffix⟩
  inValue  := ⟨rfl, List.nil_suffix⟩
  text     := ⟨(by decide : 0 < 16383), fun _ hc => absurd hc List.not_mem_nil⟩
  untitled := fun _ => ⟨empty_stored n, rfl⟩
  titled   := fun hne => absurd rfl hne
  noValue  := empty_stored m

end Scanner

end OptionValue
