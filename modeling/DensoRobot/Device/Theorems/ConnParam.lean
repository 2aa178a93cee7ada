import DensoRobot.Lib.Fields
import DensoRobot.Device.ConnParam

open HRESULT

namespace Device

-- A decimal numeral that tells a port.
structure PortNumeral (s : List Nat) : Prop where
  ne     : s ≠ []
  digits : ∀ c ∈ s, isDigit c = true
  lt     : Libc.ofDigits 10 s < 65536

def Accepted (inetAddr : List Nat → Nat) (s : List Nat) : Prop :=
  inetAddr s ≠ inaddrNone ∨ s = broadcastText

-- `tcp[:<DestIP>[:<DestPort>[:<SourceIP>[:<SourcePort>]]]]`, and the same with `udp`.
structure Grammar (inetAddr : List Nat → Nat) (opt ty : List Nat) (fields : List (List Nat)) :
    Prop where
  text    : opt = Fields.text 58 ty fields
  plain   : Fields.Plain 58 ty fields
  type    : ty.map toLower = tcpText ∨ ty.map toLower = udpText
  few     : fields.length ≤ 4
  dstAddr : ∀ s, fields[0]? = some s → Accepted inetAddr s
  dstPort : ∀ s, fields[1]? = some s → PortNumeral s
  srcAddr : ∀ s, fields[2]? = some s → Accepted inetAddr s
  srcPort : ∀ s, fields[3]? = some s → PortNumeral s

-- The parameters with the fields that are given.
def given (inetAddr : List Nat → Nat) (fields : List (List Nat)) (param : ConnParamEth) :
    ConnParamEth where
  dstAddr := fields[0]?.elim param.dstAddr inetAddr
  dstPort := fields[1]?.elim param.dstPort fun s => htons (Libc.ofDigits 10 s)
  srcAddr := fields[2]?.elim param.srcAddr inetAddr
  srcPort := fields[3]?.elim param.srcPort fun s => htons (Libc.ofDigits 10 s)

-- A string is accepted iff it has the form above, and its fields are what is set then.
structure ParsedExactly (inetAddr : List Nat → Nat) (opt : List Nat) (param : ConnParamEth)
    (ret : HRESULT × ConnParamEth) : Prop where
  accepted : ret.1 = sOk ↔ ∃ ty fields, Grammar inetAddr opt ty fields
  values   : ret.1 = sOk → ∀ ty fields, Grammar inetAddr opt ty fields →
    ret.2 = given inetAddr fields param

-- What the code checks for a port.
structure PortPasses (s : List Nat) : Prop where
  numeric : isNumeric s = true
  low     : 0 ≤ atoi s
  high    : atoi s < 65536

-- What the code checks for a string with these fields.
structure Passes (inetAddr : List Nat → Nat) (opt : List Nat) (fields : List (List Nat)) :
    Prop where
  type    : parseConnType opt = some .tcp ∨ parseConnType opt = some .udp
  few     : fields.length ≤ 4
  dstAddr : ∀ s, fields[0]? = some s → Accepted inetAddr s
  dstPort : ∀ s, fields[1]? = some s → PortPasses s
  srcAddr : ∀ s, fields[2]? = some s → Accepted inetAddr s
  srcPort : ∀ s, fields[3]? = some s → PortPasses s

-- A port that is read as another number than it is, or that is no number.
def PortMisread (s : List Nat) : Prop :=
  s.head? = some 45 ∨ 4294967296 ≤ Libc.ofDigits 10 s

-- The type has more to it, or there is such a port.
def Misread (ty : List Nat) (fields : List (List Nat)) : Prop :=
  ty.length ≠ 3 ∨ ∃ s, (fields[1]? = some s ∨ fields[3]? = some s) ∧ PortMisread s

section

variable {s ty : List Nat} {fields : List (List Nat)} {inetAddr : List Nat → Nat}

theorem splitParams_text (h : Fields.Plain 58 ty fields) :
    ∀ left, splitParams left (Fields.text 58 ty fields) =
      if fields.length < left then some (ty :: fields) else none := by
  induction fields generalizing ty
  case nil =>
    intro left
    cases left
    case zero => rfl
    case succ left =>
      rw [Fields.text_nil, splitParams, Fields.dropWhile_eq_nil h.head]
      exact (if_pos (Nat.succ_pos left)).symm
  case cons g fields ih =>
    intro left
    cases left
    case zero => rfl
    case succ left =>
      rw [Fields.text_cons, splitParams, Fields.dropWhile_of_not_mem h.head,
        Fields.takeWhile_of_not_mem h.head]
      simp only [ih h.tail left, List.length_cons, Nat.succ_lt_succ_iff]
      split <;> rfl

theorem isSpace_of_isDigit {c : Nat} (h : isDigit c = true) : Libc.isSpace c = false := by
  simp only [isDigit, Bool.and_eq_true, decide_eq_true_eq] at h
  simp only [Libc.isSpace, Bool.or_eq_false_iff, decide_eq_false_iff_not, Bool.and_eq_false_iff]
  omega

theorem takeSign_of_isDigit {c : Nat} (h : isDigit c = true) :
    Libc.takeSign (c :: s) = (false, c :: s) := by
  simp only [isDigit, Bool.and_eq_true, decide_eq_true_eq] at h
  unfold Libc.takeSign
  split
  case h_1 he => cases he; omega
  case h_2 he => cases he; omega
  case h_3    => rfl

-- What `atoi` makes of digits.
theorem atoi_digits (hne : s ≠ []) (hd : ∀ c ∈ s, isDigit c = true) :
    atoi s = IntType.int32.wrap (min (IntType.int64.high - 1) (Libc.ofDigits 10 s)) := by
  cases s
  case nil => contradiction
  case cons c s =>
    have hc := hd c List.mem_cons_self
    have hw : (c :: s).takeWhile isDigit = c :: s := by
      have ht : ((c :: s) ++ []).takeWhile isDigit = (c :: s) ++ [].takeWhile isDigit :=
        List.takeWhile_append_of_pos hd
      rwa [List.append_nil, List.takeWhile_nil, List.append_nil] at ht
    have hl : max IntType.int64.low (min (IntType.int64.high - 1) (Libc.ofDigits 10 (c :: s))) =
        min (IntType.int64.high - 1) (Libc.ofDigits 10 (c :: s)) := by
      apply max_eq_right
      apply le_min
      case h₁ => decide
      case h₂ => exact le_trans (by decide) (Int.natCast_nonneg _)
    rw [atoi, List.dropWhile_cons_of_neg (by simp [isSpace_of_isDigit hc]), takeSign_of_isDigit hc]
    simp only [Bool.false_eq_true, if_false, hw, hl]

theorem atoi_of_lt (hne : s ≠ []) (hd : ∀ c ∈ s, isDigit c = true)
    (hlt : Libc.ofDigits 10 s < 65536) : atoi s = Libc.ofDigits 10 s := by
  have hm : min (IntType.int64.high - 1) (Libc.ofDigits 10 s : Int) = Libc.ofDigits 10 s := by
    apply min_eq_right
    have hh : (65536 : Int) ≤ IntType.int64.high - 1 := by decide
    omega
  rw [atoi_digits hne hd, hm]
  apply IntType.wrap_of_inRange (by decide)
  have hl : IntType.int32.low ≤ 0 := by decide
  have hh : (65536 : Int) ≤ IntType.int32.high := by decide
  constructor <;> omega

theorem isNumeric_digits (hne : s ≠ []) (hd : ∀ c ∈ s, isDigit c = true) : isNumeric s = true := by
  unfold isNumeric
  split
  case h_1 => contradiction
  case h_2 => exact absurd (hd 45 List.mem_cons_self) (by decide)
  case h_3 => exact List.all_eq_true.mpr hd

theorem digits_of_isNumeric (h : isNumeric s = true) (hs : s.head? ≠ some 45) :
    s ≠ [] ∧ ∀ c ∈ s, isDigit c = true := by
  unfold isNumeric at h
  split at h
  case h_1 => contradiction
  case h_2 => exact absurd rfl hs
  case h_3 hne _ => exact ⟨hne, List.all_eq_true.mp h⟩

-- The ports that the code reads as what they are.
theorem portNumeral_iff : PortNumeral s ↔ PortPasses s ∧ ¬PortMisread s := by
  constructor
  case mp =>
    intro h
    have ha := atoi_of_lt h.ne h.digits h.lt
    have hlt := h.lt
    refine ⟨⟨isNumeric_digits h.ne h.digits, by omega, by omega⟩, ?_⟩
    intro hm
    cases hm
    case inl hs => exact absurd (h.digits 45 (List.mem_of_mem_head? hs)) (by decide)
    case inr hv => omega
  case mpr =>
    rintro ⟨hp, hm⟩
    obtain ⟨hs, hv⟩ := not_or.mp hm
    obtain ⟨hne, hd⟩ := digits_of_isNumeric hp.numeric hs
    refine ⟨hne, hd, ?_⟩
    -- A number below 2^32 that the cast changes becomes negative.
    have ha := atoi_digits hne hd
    have hlo := hp.low
    have hhi := hp.high
    have hh : IntType.int64.high = 9223372036854775808 := by decide
    have hl : IntType.int32.low = -2147483648 := by decide
    have hb : (2 : Int) ^ IntType.int32.bits = 4294967296 := by decide
    rw [IntType.wrap, hl, hh, hb] at ha
    omega

theorem parseConnType_eq {opt : List Nat} (h : opt = Fields.text 58 ty fields)
    (hl : ty.length = 3) :
    (parseConnType opt = some .tcp ∨ parseConnType opt = some .udp) ↔
      (ty.map toLower = tcpText ∨ ty.map toLower = udpText) := by
  have ho : 3 ≤ opt.length := by
    rw [h, Fields.text, List.length_append, hl]
    exact Nat.le_add_right 3 _
  have ht : opt.take 3 = ty := by
    rw [h, Fields.text, ← hl, List.take_left]
  simp only [parseConnType, if_pos ho, ht]
  by_cases htcp : ty.map toLower = tcpText
  case pos => simp [htcp]
  case neg =>
    by_cases hudp : ty.map toLower = udpText
    case pos => simp [hudp, show udpText ≠ tcpText by decide]
    case neg =>
      by_cases hcom : ty.map toLower = comText
      case pos => simp [hcom, show comText ≠ tcpText by decide, show comText ≠ udpText by decide]
      case neg => simp [htcp, hudp, hcom]

-- The strings of the form are those that pass what the code checks without being misread.
theorem grammar_iff {opt : List Nat} (h : opt = Fields.text 58 ty fields)
    (hp : Fields.Plain 58 ty fields) :
    Grammar inetAddr opt ty fields ↔ Passes inetAddr opt fields ∧ ¬Misread ty fields := by
  constructor
  case mp =>
    intro g
    have hl : ty.length = 3 := by
      cases g.type
      case inl ht => simpa [tcpText] using congrArg List.length ht
      case inr ht => simpa [udpText] using congrArg List.length ht
    constructor
    case left =>
      constructor
      case type    => exact (parseConnType_eq h hl).mpr g.type
      case few     => exact g.few
      case dstAddr => exact g.dstAddr
      case dstPort => exact fun s hs => (portNumeral_iff.mp (g.dstPort s hs)).1
      case srcAddr => exact g.srcAddr
      case srcPort => exact fun s hs => (portNumeral_iff.mp (g.srcPort s hs)).1
    case right =>
      intro hm
      cases hm
      case inl hn => exact hn hl
      case inr hm =>
        obtain ⟨s, hs, hm⟩ := hm
        cases hs
        case inl hs => exact (portNumeral_iff.mp (g.dstPort s hs)).2 hm
        case inr hs => exact (portNumeral_iff.mp (g.srcPort s hs)).2 hm
  case mpr =>
    rintro ⟨p, hm⟩
    obtain ⟨hn, hports⟩ := not_or.mp hm
    have hl : ty.length = 3 := not_not.mp hn
    constructor
    case text    => exact h
    case plain   => exact hp
    case type    => exact (parseConnType_eq h hl).mp p.type
    case few     => exact p.few
    case dstAddr => exact p.dstAddr
    case srcAddr => exact p.srcAddr
    case dstPort =>
      exact fun s hs => portNumeral_iff.mpr ⟨p.dstPort s hs, fun hm => hports ⟨s, .inl hs, hm⟩⟩
    case srcPort =>
      exact fun s hs => portNumeral_iff.mpr ⟨p.srcPort s hs, fun hm => hports ⟨s, .inr hs, hm⟩⟩

-- The result of a parameter that is refused.
def Refused (r : Except (HRESULT × ConnParamEth) ConnParamEth) : Prop :=
  ∃ hr param, r = .error (hr, param) ∧ hr ≠ sOk

theorem Refused.bind {r : Except (HRESULT × ConnParamEth) ConnParamEth} (h : Refused r)
    (f : ConnParamEth → Except (HRESULT × ConnParamEth) ConnParamEth) : Refused (r >>= f) := by
  obtain ⟨hr, param, rfl, hne⟩ := h
  exact ⟨hr, param, rfl, hne⟩

theorem passed_bind (param : ConnParamEth)
    (f : ConnParamEth → Except (HRESULT × ConnParamEth) ConnParamEth) :
    (.ok param >>= f) = f param :=
  rfl

variable {set : Nat → ConnParamEth} {param : ConnParamEth}

theorem setPort_passes (h : ∀ s, o = some s → PortPasses s) :
    setPort set param o = .ok (o.elim param fun s => set (htons (atoi s).toNat)) := by
  cases o
  case none   => rfl
  case some s =>
    have hs := h s rfl
    have hw : atoi s = IntType.uint16.wrap (atoi s) :=
      (IntType.wrap_of_inRange (by decide) ⟨hs.low, hs.high⟩).symm
    simp only [setPort, hs.numeric, Bool.true_eq_false, if_false, Option.elim_some]
    exact if_neg (not_or.mpr ⟨not_lt.mpr hs.low, not_not.mpr hw⟩)

theorem setPort_refused (h : ¬∀ s, o = some s → PortPasses s) : Refused (setPort set param o) := by
  cases o
  case none   => exact absurd (fun _ hs => absurd hs (Option.some_ne_none _).symm) h
  case some s =>
    simp only [setPort]
    split
    case isTrue    => exact ⟨_, _, rfl, by decide⟩
    case isFalse hn =>
      split
      case isTrue => exact ⟨_, _, rfl, by decide⟩
      case isFalse hr =>
        obtain ⟨hlo, hw⟩ := not_or.mp hr
        have hin := IntType.wrap_inRange (t := .uint16) (by decide) (atoi s)
        refine absurd (fun t ht => ?_) h
        cases ht
        exact ⟨Bool.eq_true_of_not_eq_false hn, not_lt.mp hlo, not_not.mp hw ▸ hin.2⟩

theorem setAddr_passes (h : ∀ s, o = some s → Accepted inetAddr s) :
    setAddr inetAddr set param o = .ok (o.elim param fun s => set (inetAddr s)) := by
  cases o
  case none   => rfl
  case some s =>
    refine if_neg fun hn => ?_
    cases h s rfl
    case inl ha => exact ha hn.1
    case inr hb => exact hn.2 hb

theorem setAddr_refused (h : ¬∀ s, o = some s → Accepted inetAddr s) :
    Refused (setAddr inetAddr set param o) := by
  cases o
  case none   => exact absurd (fun _ hs => absurd hs (Option.some_ne_none _).symm) h
  case some s =>
    have hn : inetAddr s = inaddrNone ∧ s ≠ broadcastText := by
      by_contra hn
      refine h fun t ht => ?_
      cases ht
      exact or_iff_not_imp_left.mpr fun ha => not_not.mp fun hb => hn ⟨not_not.mp ha, hb⟩
    exact ⟨_, _, if_pos hn, by decide⟩

-- The parameters that are set for fields which pass.
def taken (inetAddr : List Nat → Nat) (fields : List (List Nat)) (param : ConnParamEth) :
    ConnParamEth where
  dstAddr := fields[0]?.elim param.dstAddr inetAddr
  dstPort := fields[1]?.elim param.dstPort fun s => htons (atoi s).toNat
  srcAddr := fields[2]?.elim param.srcAddr inetAddr
  srcPort := fields[3]?.elim param.srcPort fun s => htons (atoi s).toNat

theorem setParams_passes {opt : List Nat} (p : Passes inetAddr opt fields) :
    setParams inetAddr (ty :: fields) param = .ok (taken inetAddr fields param) := by
  simp only [setParams, taken, List.getElem?_cons_succ]
  rw [setPort_passes p.srcPort, passed_bind, setAddr_passes p.srcAddr, passed_bind,
    setPort_passes p.dstPort, passed_bind, setAddr_passes p.dstAddr]
  cases fields[0]? <;> cases fields[1]? <;> cases fields[2]? <;> cases fields[3]? <;> rfl

theorem setParams_refused {opt : List Nat}
    (ht : parseConnType opt = some .tcp ∨ parseConnType opt = some .udp)
    (hf : fields.length ≤ 4) (h : ¬Passes inetAddr opt fields) :
    Refused (setParams inetAddr (ty :: fields) param) := by
  simp only [setParams, List.getElem?_cons_succ]
  by_cases h4 : ∀ s, fields[3]? = some s → PortPasses s
  case neg => exact (setPort_refused h4).bind _
  case pos =>
    rw [setPort_passes h4, passed_bind]
    by_cases h3 : ∀ s, fields[2]? = some s → Accepted inetAddr s
    case neg => exact (setAddr_refused h3).bind _
    case pos =>
      rw [setAddr_passes h3, passed_bind]
      by_cases h2 : ∀ s, fields[1]? = some s → PortPasses s
      case neg => exact (setPort_refused h2).bind _
      case pos =>
        rw [setPort_passes h2, passed_bind]
        exact setAddr_refused fun h1 => h ⟨ht, hf, h1, h2, h3, h4⟩

theorem parseConnParamEther_passes {opt : List Nat} (h : opt = Fields.text 58 ty fields)
    (hp : Fields.Plain 58 ty fields) (p : Passes inetAddr opt fields) :
    parseConnParamEther inetAddr true opt param = (sOk, taken inetAddr fields param) := by
  have hs : splitParams 5 opt = some (ty :: fields) := by
    rw [h, splitParams_text hp, if_pos (Nat.lt_succ_of_le p.few)]
  simp only [parseConnParamEther, if_pos p.type, if_true, parseFields, hs, setParams_passes p]

theorem parseFields_refused {opt : List Nat} (h : opt = Fields.text 58 ty fields)
    (hp : Fields.Plain 58 ty fields)
    (ht : parseConnType opt = some .tcp ∨ parseConnType opt = some .udp)
    (hn : ¬Passes inetAddr opt fields) : (parseFields inetAddr opt param).1 ≠ sOk := by
  by_cases hf : fields.length ≤ 4
  case pos =>
    have hs : splitParams 5 opt = some (ty :: fields) := by
      rw [h, splitParams_text hp, if_pos (Nat.lt_succ_of_le hf)]
    have hr : Refused (setParams inetAddr (ty :: fields) param) := setParams_refused ht hf hn
    obtain ⟨_, _, he, hne⟩ := hr
    simpa only [parseFields, hs, he] using hne
  case neg =>
    have hs : splitParams 5 opt = none := by
      rw [h, splitParams_text hp, if_neg fun hlt => hf (Nat.le_of_lt_succ hlt)]
    simp only [parseFields, hs]
    decide

-- What the code accepts.
theorem parseConnParamEther_sOk_iff {opt : List Nat} (h : opt = Fields.text 58 ty fields)
    (hp : Fields.Plain 58 ty fields) (served : Bool) :
    (parseConnParamEther inetAddr served opt param).1 = sOk ↔
      served = true ∧ Passes inetAddr opt fields := by
  constructor
  case mp =>
    intro hok
    by_cases ht : parseConnType opt = some .tcp ∨ parseConnType opt = some .udp
    case neg =>
      simp only [parseConnParamEther, if_neg ht] at hok
      exact absurd hok (by decide)
    case pos =>
      simp only [parseConnParamEther, if_pos ht] at hok
      cases served
      case false => exact absurd hok (show eOutOfMemory ≠ sOk by decide)
      case true  => exact ⟨rfl, by_contra fun hn => parseFields_refused h hp ht hn hok⟩
  case mpr =>
    rintro ⟨rfl, p⟩
    rw [parseConnParamEther_passes h hp p]

-- Ports that are numerals are set to what they tell.
theorem taken_of_grammar {opt : List Nat} (g : Grammar inetAddr opt ty fields) :
    taken inetAddr fields param = given inetAddr fields param := by
  have hport : ∀ (o : Option (List Nat)) (v : Nat), (∀ s, o = some s → PortNumeral s) →
      (o.elim v fun s => htons (atoi s).toNat) = o.elim v fun s => htons (Libc.ofDigits 10 s) := by
    intro o v ho
    cases o
    case none   => rw [Option.elim_none, Option.elim_none]
    case some s =>
      have hs := ho s rfl
      simp only [Option.elim_some, atoi_of_lt hs.ne hs.digits hs.lt, Int.toNat_natCast]
  simp only [taken, given, hport _ _ g.dstPort, hport _ _ g.srcPort]

-- The strings that are parsed exactly, among those that pass what the code checks.
theorem parse_exactly_iff (inetAddr : List Nat → Nat) (served : Bool) (opt : List Nat)
    (param : ConnParamEth) :
    ParsedExactly inetAddr opt param (parseConnParamEther inetAddr served opt param) ↔
      ∀ ty fields, opt = Fields.text 58 ty fields → Fields.Plain 58 ty fields →
        Passes inetAddr opt fields → (served = true ↔ ¬Misread ty fields) := by
  have htext : ∃ ty fields, Fields.Plain 58 ty fields ∧ opt = Fields.text 58 ty fields :=
    Fields.exists_text opt
  obtain ⟨ty, fields, hp, h⟩ := htext
  have hok : (parseConnParamEther inetAddr served opt param).1 = sOk ↔
      served = true ∧ Passes inetAddr opt fields := parseConnParamEther_sOk_iff h hp served
  -- The fields are those of any form that the string has.
  have huniq : ∀ ty' fields', opt = Fields.text 58 ty' fields' → Fields.Plain 58 ty' fields' →
      ty' = ty ∧ fields' = fields := fun ty' fields' h' hp' =>
    Fields.text_inj hp' hp (h' ▸ h)
  have hg : (∃ ty fields, Grammar inetAddr opt ty fields) ↔
      Passes inetAddr opt fields ∧ ¬Misread ty fields := by
    rw [← grammar_iff h hp]
    constructor
    case mp =>
      rintro ⟨ty', fields', g⟩
      obtain ⟨rfl, rfl⟩ := huniq ty' fields' g.text g.plain
      exact g
    case mpr => exact fun g => ⟨ty, fields, g⟩
  constructor
  case mp =>
    intro he ty' fields' h' hp' p
    obtain ⟨rfl, rfl⟩ := huniq ty' fields' h' hp'
    have hiff := he.accepted
    rw [hok, hg] at hiff
    simpa only [p, and_true, true_and] using hiff
  case mpr =>
    intro hc
    have hm := hc ty fields h hp
    constructor
    case accepted =>
      rw [hok, hg]
      constructor
      case mp =>
        rintro ⟨hs, p⟩
        exact ⟨p, (hm p).mp hs⟩
      case mpr =>
        rintro ⟨p, hn⟩
        exact ⟨(hm p).mpr hn, p⟩
    case values =>
      intro hret ty' fields' g
      obtain ⟨rfl, rfl⟩ := huniq ty' fields' g.text g.plain
      obtain ⟨rfl, p⟩ := hok.mp hret
      rw [parseConnParamEther_passes h hp p]
      exact taken_of_grammar g

-- "127.0.0.1"
def localhostText : List Nat :=
  [49, 50, 55, 46, 48, 46, 48, 46, 49]

-- A lone sign is taken for the port 0, as in "tcp:127.0.0.1:-".
theorem sign_not_exact :
    ¬∀ inetAddr opt param,
      ParsedExactly inetAddr opt param (parseConnParamEther inetAddr true opt param) := by
  intro h
  have he := h (fun _ => 16777343) (Fields.text 58 tcpText [localhostText, [45]]) ⟨0, 0, 0, 0⟩
  obtain ⟨ty, fields, g⟩ := he.accepted.mp (by decide)
  have hp : Fields.Plain 58 tcpText [localhostText, [45]] := by
    unfold Fields.Plain
    decide
  obtain ⟨rfl, rfl⟩ := Fields.text_inj g.plain hp g.text.symm
  exact absurd ((g.dstPort [45] rfl).digits 45 (by decide)) (by decide)

end
end Device
