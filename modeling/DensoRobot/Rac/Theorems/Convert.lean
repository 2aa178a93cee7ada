import Mathlib.Data.List.Forall2
import Mathlib.Data.Nat.Digits.Defs
import DensoRobot.Common.Theorems.Copy
import DensoRobot.Common.Theorems.Integers
import DensoRobot.Rac.RacString

open HRESULT Bytes

-- What is printed fits into the buffer of `Variant2Bstr`, and a character has at most
-- `MB_LEN_MAX` bytes.
structure Libc.Bounded (lib : Libc) : Prop where
  float  : ∀ bits, (lib.float.print bits).length < 500
  double : ∀ bits, (lib.double.print bits).length < 500
  date   : ∀ val, (lib.printDate val).length < 500
  bytes  : ∀ {chars : List Nat} {bytes : List UInt8}, lib.wcstombs chars = some bytes →
    bytes.length ≤ 16 * chars.length

namespace Rac

-- A conversion that succeeds leaves a string, and one that fails leaves what can still be released.
inductive Sound : Exec Converted → Prop
  | string : cString data = .ok text → Sound (.ok ⟨sOk, .owned data, next⟩)
  | failure : Failed hr → chDest ≠ .freed → Sound (.ok ⟨hr, chDest, next⟩)

-- What can go wrong: something is refused, it is refused after a string was built up that is
-- released then, or there is no string or no space for it.
inductive Defect
  | refusal
  | dangling
  | breach
  deriving DecidableEq

def check (p : Prop) [Decidable p] (d : Defect) : Option Defect :=
  if p then none else some d

def first (checks : List (Option Defect)) : Option Defect :=
  checks.findSome? id

-- What a part of a tree goes through, given the number of requests for memory before it, and if all
-- goes well, the number of requests it takes and the length of its string.
structure Piece where
  checks   : (next : Nat) → List (Option Defect)
  requests : Nat
  size     : Nat

-- A piece with the number of characters next to it.
structure Span extends Piece where
  added : Nat

-- Only after the first element there is something to be released.
def relabel (frees first : Bool) : Defect → Defect
  | .breach              => .breach
  | .refusal | .dangling => if frees && !first then .dangling else .refusal

section

variable (lib : Libc) (host : Host)

def joinChecks (frees : Bool) : (first : Bool) → (next len : Nat) → List Span →
    List (Option Defect)
  | _,     _,    _,   []          => []
  | first, next, len, span :: spans =>
    let len := len + span.size + span.added + if spans.isEmpty then 0 else 1
    (span.checks next).map (·.map (relabel frees first)) ++
      check (host.malloc (next + span.requests) = true) .refusal ::
      check (len < 4294967296) .breach ::
      joinChecks frees false (next + span.requests + 1) len spans

def joinPiece (frees : Bool) (spans : List Span) : Piece where
  checks next := check (spans ≠ []) .breach :: joinChecks host frees true next 0 spans
  requests    := (spans.map fun span => span.requests + 1).sum
  size        := (spans.map fun span => span.size + span.added).sum - 1

-- The bytes of a string.
def multibyte (chars : Option (List Nat)) : Option (List UInt8) :=
  (chars.bind lib.wcstombs).map (·.takeWhile (· ≠ 0))

-- The characters that a variant is changed to.
def characters : Variant → Option (List Nat)
  | .scalar .empty _ => some []
  | .scalar vt val   => (vt.number val).map fun n => wcs (printNumber lib vt n)
  | .bstr bstrVal    => bstrVal.map fun b => wcs b.chars
  | _                => none

def stringChecks (chars : Option (List Nat)) (next : Nat) : List (Option Defect) :=
  [check (multibyte lib chars).isSome .refusal, check (host.malloc next = true) .refusal]

def stringSize (chars : Option (List Nat)) : Nat :=
  ((multibyte lib chars).getD []).length

def singlePiece (v : Variant) : Piece where
  checks next := check (host.malloc next = true) .refusal ::
    stringChecks lib host (characters lib v) (next + 1)
  requests    := 2
  size        := stringSize lib (characters lib v)

def bstrSpan (bstr : Option Bstr) : Span where
  checks   := stringChecks lib host (bstr.map fun b => wcs b.chars)
  requests := 1
  size     := stringSize lib (bstr.map fun b => wcs b.chars)
  added    := 1

-- The strings of the elements were asked for one after the other.
def rawSpans : (alloc : Nat) → List Variant → List Span
  | _,     []      => []
  | alloc, v :: vs =>
    { checks next := check (host.malloc alloc = true) .refusal ::
        stringChecks lib host (characters lib v) next
      requests    := 1
      size        := stringSize lib (characters lib v)
      added       := 1 } :: rawSpans (alloc + 1) vs

def rawPiece (vt : VarType) (psa : ArrayHeader) (data : List UInt8) : Piece :=
  let elements := (List.range psa.cElements).map fun i =>
    Variant.scalar vt (ofLe (data.window (psa.cbElements * i) psa.cbElements))
  let spans := rawSpans lib host 0 elements
  { checks next :=
      check (psa.cElements < 2147483648 ∧ host.malloc next = true) .refusal ::
      (joinPiece host false (rawSpans lib host (next + 1) elements)).checks
        (next + 1 + psa.cElements)
    requests := 1 + psa.cElements + (joinPiece host false spans).requests
    size     := (joinPiece host false spans).size }

def variantSpan (vt : Nat) (piece : Piece) : Span :=
  { piece with added := (sprintf vt).length + 3 }

mutual

def piece : Variant → Piece
  | .variantArray psa data =>
    joinPiece host true (spans data ++ List.replicate (psa.cElements - data.length)
      (variantSpan 0 (singlePiece lib host (.scalar .empty 0))))
  | .bstrArray psa data    =>
    joinPiece host false ((List.range psa.cElements).map fun i =>
      bstrSpan lib host (data.getD i none))
  | .rawArray vt psa data  => rawPiece lib host vt psa data
  | .nullArray _           => ⟨fun _ => [some .breach], 0, 0⟩
  | .scalar vt val         => singlePiece lib host (.scalar vt val)
  | .bstr bstrVal          => singlePiece lib host (.bstr bstrVal)

def spans : List Variant → List Span
  | []      => []
  | v :: vs => variantSpan v.vt (piece v) :: spans vs

end

end

-- How a conversion ends, depending on what goes wrong first.
inductive Outcome (size next : Nat) : Option Defect → Exec Converted → Prop
  | string : cString data = .ok text → text.length = size →
      Outcome size next none (.ok ⟨sOk, .owned data, next⟩)
  | refusal : Failed hr → chDest ≠ .freed → Outcome size next (some .refusal) (.ok ⟨hr, chDest, n⟩)
  | dangling : Failed hr → Outcome size next (some .dangling) (.ok ⟨hr, .freed, n⟩)
  | missing : Outcome size next (some .breach) (.ok ⟨sOk, .null, n⟩)
  | fault : Outcome size next (some .breach) (.error e)

def Piece.Describes (p : Piece) (convert : Nat → Exec Converted) : Prop :=
  ∀ next, Outcome p.size (next + p.requests) (first (p.checks next)) (convert next)

structure Span.Describes (span : Span) (part : Part) : Prop where
  convert : span.toPiece.Describes part.convert
  added   : part.added = span.added
  plain   : ∀ s ∈ part.before, 0 ∉ s
  closing : 0 ∉ part.after
  room    : span.added = (part.before.map List.length).sum + part.after.length + 1

section

variable {lib : Libc} {host : Host} {size next : Nat} {r : Exec Converted}

@[simp]
theorem first_nil : first [] = none :=
  rfl

theorem first_append (cs ds : List (Option Defect)) : first (cs ++ ds) = (first cs).or (first ds) :=
  List.findSome?_append

theorem first_map (f : Defect → Defect) (cs : List (Option Defect)) :
    first (cs.map (·.map f)) = (first cs).map f := by
  induction cs
  case nil => rfl
  case cons c cs ih =>
    cases c
    case none   => exact ih
    case some d => rfl

theorem first_check (p : Prop) [Decidable p] (d : Defect) (cs : List (Option Defect)) :
    first (check p d :: cs) = if p then first cs else some d := by
  by_cases hp : p
  case pos => rw [check, if_pos hp, if_pos hp]; rfl
  case neg => rw [check, if_neg hp, if_neg hp]; rfl

theorem strcats_ok {ss : List (List UInt8)} {n : Nat} {t : List UInt8}
    (h : t.length + (ss.map List.length).sum < n) :
    ss.foldlM (strcat n) t = .ok (t ++ ss.flatten) := by
  induction ss generalizing t
  case nil => simp
  case cons s ss ih =>
    rw [List.map_cons, List.sum_cons, ← Nat.add_assoc] at h
    have hs : t.length + s.length < n := Nat.lt_of_le_of_lt (Nat.le_add_right _ _) h
    have ht : strcat n t s = .ok (t ++ s) := if_pos hs
    rw [← List.length_append] at h
    rw [List.foldlM_cons, ht, Exec.ok_bind, ih h, List.flatten_cons, List.append_assoc]

theorem strcats_error {ss : List (List UInt8)} {n : Nat} {t : List UInt8} (hne : ss ≠ [])
    (h : n ≤ t.length + (ss.map List.length).sum) : ss.foldlM (strcat n) t = .error .write := by
  induction ss generalizing t
  case nil => contradiction
  case cons s ss ih =>
    rw [List.map_cons, List.sum_cons, ← Nat.add_assoc] at h
    rw [List.foldlM_cons]
    by_cases hs : t.length + s.length < n
    case neg =>
      have ht : strcat n t s = .error .write := if_neg hs
      rw [ht, Exec.error_bind]
    case pos =>
      have ht : strcat n t s = .ok (t ++ s) := if_pos hs
      rw [ht, Exec.ok_bind]
      cases ss
      case nil       => exact absurd hs (Nat.not_lt.mpr h)
      case cons s ss => exact ih (by simp) (by rwa [List.length_append])

theorem cString_terminated {text : List UInt8} (h : 0 ∉ text) :
    cString (text ++ [0]) = .ok text := by
  have hne : ∀ c ∈ text, (c ≠ 0 : Bool) = true := fun c hc => decide_eq_true fun h0 => h (h0 ▸ hc)
  have ht : (text ++ [0]).takeWhile (· ≠ 0) = text ++ [0].takeWhile (· ≠ 0) :=
    List.takeWhile_append_of_pos hne
  have hz : [(0 : UInt8)].takeWhile (· ≠ 0) = [] := rfl
  rw [cString, if_pos (List.mem_append_right text List.mem_cons_self), ht, hz, List.append_nil]
  rfl

theorem cString_plain {data text : List UInt8} (h : cString data = .ok text) : 0 ∉ text := by
  simp only [cString] at h
  split at h
  case isFalse => cases h
  case isTrue =>
    cases h
    intro hmem
    have hc := List.all_eq_true.mp List.all_takeWhile _ hmem
    simp at hc

-- What the loop has so far: for each element, a character more than needed was asked for.
structure Built (b : Building) (done : Nat) : Prop where
  plain : ∀ text, b.text = some text → 0 ∉ text
  empty : b.text = none ↔ done = 0
  len   : b.len = (b.text.getD []).length + done
  lt    : b.len < 4294967296

theorem Built.start (next : Nat) : Built ⟨.none, 0, next⟩ 0 where
  plain _ h := by cases h
  empty     := iff_of_true rfl rfl
  len       := rfl
  lt        := (by decide : 0 < 4294967296)

-- The strings that are appended for an element.
def appended (part : Part) (chPoint : List UInt8) (last : Bool) : List (List UInt8) :=
  part.before ++ [chPoint, part.after ++ if last then [] else [44]]

variable {span : Span} {part : Part} {chPoint : List UInt8} {b : Building} {done : Nat}

theorem length_appended (hd : span.Describes part) (chPoint : List UInt8) (last : Bool) :
    ((appended part chPoint last).map List.length).sum + 1 =
      chPoint.length + span.added + if last then 0 else 1 := by
  have hroom := hd.room
  cases last
  case false => simp [appended]; omega
  case true  => simp [appended]; omega

theorem plain_appended (hd : span.Describes part) (hc : 0 ∉ chPoint) (last : Bool) :
    0 ∉ (appended part chPoint last).flatten := by
  have hafter : 0 ∉ part.after ++ if last then [] else [44] := by
    cases last <;> simp [hd.closing]
  intro h
  simp only [appended, List.flatten_append, List.mem_append, List.mem_flatten] at h
  cases h
  case inl h =>
    obtain ⟨s, hs, h0⟩ := h
    exact hd.plain s hs h0
  case inr h =>
    obtain ⟨s, hs, h0⟩ := h
    cases List.mem_cons.mp hs
    case inl hs => exact hc (hs ▸ h0)
    case inr hs => exact hafter (List.mem_singleton.mp hs ▸ h0)

-- The size that was asked for is enough iff it was not reduced.
theorem append_ok (hd : span.Describes part) (hb : Built b done) (hc : 0 ∉ chPoint) (last : Bool)
    (hs : chPoint.length = span.size)
    (hl : b.len + span.size + span.added + (if last then 0 else 1) < 4294967296) (next : Nat) :
    ∃ text, (appended part chPoint last).foldlM
        (strcat (u32 (b.len + chPoint.length + part.added + if last then 0 else 1)))
        (b.text.getD []) = .ok text ∧
      text.length + 1 = (b.text.getD []).length + span.size + span.added + (if last then 0 else 1) ∧
      Built ⟨some text, b.len + span.size + span.added + (if last then 0 else 1), next⟩
        (done + 1) := by
  have happ := length_appended hd chPoint last
  have hlen := hb.len
  have hplain : 0 ∉ b.text.getD [] := by
    cases ht : b.text
    case none      => simp
    case some text => exact hb.plain text ht
  rw [hs, hd.added, u32_of_lt hl]
  rw [hs] at happ
  refine ⟨_, strcats_ok (by omega), ?_, ?_⟩
  case refine_1 => rw [List.length_append, List.length_flatten]; omega
  case refine_2 =>
    constructor
    case plain =>
      rintro _ ⟨⟩ h0
      exact (List.mem_append.mp h0).elim hplain (plain_appended hd hc last)
    case empty => simp
    case len =>
      rw [Option.getD_some, List.length_append, List.length_flatten]
      simp only
      omega
    case lt => exact hl

theorem append_error (hd : span.Describes part) (hb : Built b done) (last : Bool)
    (hs : chPoint.length = span.size) (hdone : done < 4294967296)
    (hl : 4294967296 ≤ b.len + span.size + span.added + (if last then 0 else 1)) :
    (appended part chPoint last).foldlM
        (strcat (u32 (b.len + chPoint.length + part.added + if last then 0 else 1)))
        (b.text.getD []) = .error .write := by
  have happ := length_appended hd chPoint last
  have hlen := hb.len
  rw [hs] at happ
  apply strcats_error
  case hne => simp [appended]
  case h =>
    rw [hs, hd.added]
    simp only [u32]
    omega

variable {frees : Bool} {spans : List Span} {parts : List Part} {d : Defect}

def restSize (spans : List Span) : Nat :=
  (spans.map fun span => span.size + span.added).sum - if spans.isEmpty then 0 else 1

-- An element that is not converted ends the loop.
theorem join_refused (hb : Built b done) {hr : HRESULT} {chDest : Dest} {n : Nat} (hf : Failed hr)
    (hc : part.convert b.next = .ok ⟨hr, chDest, n⟩) (hd : d ≠ .breach) :
    Outcome size next (some (relabel frees (decide (done = 0)) d))
      (join host frees (part :: parts) b) := by
  have hj : join host frees (part :: parts) b =
      .ok ⟨hr, if frees then b.freed else b.chDest, n⟩ := by
    simp only [join, hc, Exec.ok_bind, if_pos hf]
    rfl
  have hrel : relabel frees (decide (done = 0)) d =
      if frees && !decide (done = 0) then .dangling else .refusal := by
    cases d
    case breach => contradiction
    all_goals rfl
  rw [hj, hrel]
  cases ht : b.text
  case none =>
    have hdone : decide (done = 0) = true := decide_eq_true (hb.empty.mp ht)
    have hdest : (if frees then b.freed else b.chDest) = .null := by
      simp [Building.freed, Building.chDest, ht]
    rw [hdone, hdest, Bool.not_true, Bool.and_false]
    exact .refusal hf (by simp)
  case some text =>
    have hdone : decide (done = 0) = false := by
      apply decide_eq_false
      rw [← hb.empty, ht]
      simp
    rw [hdone, Bool.not_false, Bool.and_true]
    cases frees
    case true =>
      have hdest : b.freed = .freed := by simp [Building.freed, ht]
      simp only [if_true, hdest]
      exact .dangling hf
    case false =>
      have hdest : b.chDest = .owned (text ++ [0]) := by simp [Building.chDest, ht]
      simp only [hdest, Bool.false_eq_true, if_false]
      exact .refusal hf (by simp)

theorem isEmpty_of_forall₂ {R : α → β → Prop} {as : List α} {bs : List β}
    (h : List.Forall₂ R as bs) : bs.isEmpty = as.isEmpty := by
  cases h <;> rfl

theorem Span.Describes.pos (hd : span.Describes part) : 0 < span.added :=
  hd.room ▸ Nat.succ_pos _

theorem restSize_cons (hd : span.Describes part) (hds : List.Forall₂ Span.Describes spans parts) :
    restSize (span :: spans) + 1 =
      span.size + span.added + (if spans.isEmpty then 0 else 1) + restSize spans := by
  have hpos := hd.pos
  cases hds
  case nil =>
    simp only [restSize, List.map_cons, List.map_nil, List.sum_cons, List.sum_nil, List.isEmpty_nil,
      List.isEmpty_cons, if_true, Bool.false_eq_true, if_false]
    omega
  case cons hd' _ =>
    have hpos' := hd'.pos
    simp only [restSize, List.map_cons, List.sum_cons, List.isEmpty_cons,
      Bool.false_eq_true, if_false]
    omega

-- The strings of all elements are joined, unless something goes wrong.
theorem join_outcome (h : List.Forall₂ Span.Describes spans parts) (hb : Built b done)
    (hdone : done + spans.length < 4294967296) (hne : spans = [] → done ≠ 0) :
    Outcome ((b.text.getD []).length + restSize spans)
      (b.next + (spans.map fun span => span.requests + 1).sum)
      (first (joinChecks host frees (decide (done = 0)) b.next b.len spans))
      (join host frees parts b) := by
  induction h generalizing b done
  case nil =>
    cases ht : b.text
    case none      => exact absurd (hb.empty.mp ht) (hne rfl)
    case some text =>
      have hdest : b.chDest = .owned (text ++ [0]) := by simp [Building.chDest, ht]
      simp only [join, joinChecks, hdest]
      exact .string (cString_terminated (hb.plain text ht)) rfl
  case cons span part spans parts hd hds ih =>
    have hout := hd.convert b.next
    have hlast := isEmpty_of_forall₂ hds
    rw [joinChecks, first_append, first_map, first_check, first_check]
    generalize first (span.checks b.next) = d at hout
    generalize hconv : part.convert b.next = r at hout
    cases hout
    case refusal hf _ => exact join_refused hb hf hconv (by simp)
    case dangling hf  => exact join_refused hb hf hconv (by simp)
    case missing =>
      have hj : join host frees (part :: parts) b = .error .read := by
        simp only [join, hconv, Exec.ok_bind, if_neg not_failed_sOk]
        rfl
      exact hj ▸ .fault
    case fault e =>
      have hj : join host frees (part :: parts) b = .error e := by
        simp only [join, hconv]
        rfl
      exact hj ▸ .fault
    case string data chPoint hstr hsize =>
      have hplain := cString_plain hstr
      cases hm : host.malloc (b.next + span.requests)
      case false =>
        have hj : join host frees (part :: parts) b =
            .ok ⟨eOutOfMemory, .null, b.next + span.requests + 1⟩ := by
          simp only [join, hconv, Exec.ok_bind, if_neg not_failed_sOk, Dest.string, hstr,
            Host.alloc, hm]
          rfl
        exact hj ▸ .refusal failed_eOutOfMemory (by simp)
      case true =>
        by_cases hl : b.len + span.size + span.added + (if spans.isEmpty then 0 else 1) < 4294967296
        case neg =>
          have happ := append_error hd hb spans.isEmpty hsize (by omega) (Nat.not_lt.mp hl)
          have hj : join host frees (part :: parts) b = .error .write := by
            simp only [appended] at happ
            simp only [join, hconv, Exec.ok_bind, if_neg not_failed_sOk, Dest.string,
              hstr, Host.alloc, hm, if_true, hlast, happ]
            rfl
          rw [hj, if_pos rfl, if_neg hl]
          exact .fault
        case pos =>
          obtain ⟨text, happ, hlen, hb'⟩ :=
            append_ok hd hb hplain spans.isEmpty hsize hl (b.next + span.requests + 1)
          have hu : u32 (b.len + chPoint.length + part.added + if spans.isEmpty then 0 else 1) =
              b.len + span.size + span.added + if spans.isEmpty then 0 else 1 := by
            rw [hsize, hd.added, u32_of_lt hl]
          have hj : join host frees (part :: parts) b = join host frees parts
              ⟨some text, b.len + span.size + span.added + (if spans.isEmpty then 0 else 1),
                b.next + span.requests + 1⟩ := by
            rw [hu] at happ
            simp only [appended] at happ
            simp only [join, hconv, Exec.ok_bind, if_neg not_failed_sOk, Dest.string,
              hstr, Host.alloc, hm, if_true, hlast, hu, happ]
          have hrest :=
            ih hb' (by rw [List.length_cons] at hdone; omega) (fun _ => Nat.succ_ne_zero done)
          have hsum := restSize_cons hd hds
          have hsz : text.length + restSize spans =
              (b.text.getD []).length + restSize (span :: spans) := by omega
          have hnext : b.next + span.requests + 1 + (spans.map fun span => span.requests + 1).sum =
              b.next + ((span :: spans).map fun span => span.requests + 1).sum := by
            rw [List.map_cons, List.sum_cons]
            omega
          rw [hj, if_pos rfl, if_pos hl, ← hsz, ← hnext]
          exact hrest

theorem joinPiece_describes (h : List.Forall₂ Span.Describes spans parts)
    (hlen : spans.length < 4294967296) :
    (joinPiece host frees spans).Describes fun next => join host frees parts ⟨none, 0, next⟩ := by
  intro next
  cases h
  case nil => exact .missing
  case cons hd hds =>
    have hj : Outcome _ _ _ (join host frees _ ⟨none, 0, next⟩) :=
      join_outcome (.cons hd hds) (Built.start next) (by rwa [Nat.zero_add]) (by simp)
    rw [Option.getD_none, List.length_nil, Nat.zero_add] at hj
    simp only [joinPiece, first_check, if_pos (List.cons_ne_nil _ _)]
    exact hj

end

section

variable {lib : Libc} {host : Host} {next : Nat} {vt : VarType} {val : Nat} {chars : List Nat}

theorem length_decimal {z : Int} (h : z.natAbs < 10 ^ 20) : (Libc.decimal z).length ≤ 21 := by
  have hd := Nat.toDigits_length 10 z.natAbs 20 (by decide) h
  simp only [Libc.decimal]
  split
  case isTrue  => rw [List.length_cons, List.length_map]; omega
  case isFalse => rw [List.length_map]; omega

theorem natAbs_wrap {t : IntType} (h : 0 < t.bits) (hb : t.bits ≤ 64) (z : Int) :
    (t.wrap z).natAbs < 10 ^ 20 := by
  obtain ⟨hlow, hhigh⟩ := t.wrap_inRange h z
  have hpow (n : Nat) (hn : n ≤ 64) : (2 : Int) ^ n ≤ 18446744073709551616 :=
    pow_le_pow_right₀ (by decide) hn
  have hb₁ := hpow _ hb
  have hb₂ := hpow (t.bits - 1) (by omega)
  cases hs : t.signed
  case false =>
    simp only [IntType.low, IntType.high, hs, Bool.false_eq_true, if_false] at hlow hhigh
    omega
  case true =>
    simp only [IntType.low, IntType.high, hs, if_true] at hlow hhigh
    omega

theorem length_printInt {t : IntType} (hl : lib.Bounded) (h : 0 < t.bits)
    (hb : t.bits ≤ 64) (z : Int) :
    (printNumber lib vt (.int t (t.wrap z))).length < 500 := by
  have hdec {z : Int} (hz : z.natAbs < 10 ^ 20) : (Libc.decimal z).length < 500 :=
    Nat.lt_of_le_of_lt (length_decimal hz) (by decide)
  simp only [printNumber]
  split
  case h_1 => exact hdec (natAbs_wrap (by decide) (by decide) _)
  case h_2 => exact hdec (natAbs_wrap (by decide) (by decide) _)
  case h_3 => exact hl.date _
  case h_4 => exact hdec (natAbs_wrap h hb z)

theorem length_printNumber (hl : lib.Bounded) {n : Number} (h : vt.number val = some n) :
    (printNumber lib vt n).length < 500 := by
  cases vt
  case r4 =>
    cases h
    exact hl.float val
  case r8 =>
    cases h
    exact hl.double val
  all_goals cases h
  all_goals exact length_printInt hl (by decide) (by decide) val

theorem characters_scalar {n : Number} (h : vt.number val = some n) :
    characters lib (.scalar vt val) = some (wcs (printNumber lib vt n)) := by
  cases vt
  case empty => contradiction
  all_goals simp only [characters, h, Option.map_some]

theorem changeValue_some (hl : lib.Bounded) (hvt : vt ≠ .bstr)
    (hc : characters lib (.scalar vt val) = some chars) :
    changeValue lib host (.scalar vt val) false .bstr next =
      .ok (.ok (.bstr (stored host next chars)), next + 1) := by
  cases hn : vt.number val
  case none =>
    have hempty : sysAllocString host (some []) next = .ok (stored host next [], next + 1) :=
      sysAllocString_short (by decide) next
    cases vt
    case empty =>
      cases hc
      simp [changeValue, hempty]
    case bstr => contradiction
    case null | error | variant | other => cases hc
    all_goals cases hn
  case some n =>
    have hlen := length_printNumber hl hn
    have hw : wcslen (printNumber lib vt n) ≤ (printNumber lib vt n).length :=
      (List.takeWhile_sublist _).length_le
    have hprint : variant2bstr lib host vt n next =
        .ok (stored host next (wcs (printNumber lib vt n)), next + 1) :=
      sysAllocString_short (by omega) next
    cases (characters_scalar hn).symm.trans hc
    simp only [changeValue_scalar lib host hn, subChangeType, Bool.false_eq_true, if_false, hprint]
    rfl

theorem changeValue_none (hvt : vt ≠ .bstr) (hc : characters lib (.scalar vt val) = none) :
    ∃ hr, Failed hr ∧ changeValue lib host (.scalar vt val) false .bstr next = .ok
      (.error hr, next) := by
  cases vt
  case bstr         => contradiction
  case empty        => cases hc
  case null | error => exact ⟨eTypeMismatch, by decide, rfl⟩
  case variant | other => exact ⟨eBadVarType, by decide, rfl⟩
  all_goals cases hc

theorem ne_bstr_of_characters (hvt : vt ≠ .bstr)
    (hc : characters lib (.scalar vt val) = some chars) :
    (Variant.scalar vt val).vt ≠ VarType.word false .bstr := by
  have hcode : (Variant.scalar vt val).vt = vt.code := rfl
  rw [hcode]
  cases vt
  case bstr  => contradiction
  case other => cases hc
  all_goals decide

-- A variant is changed to a string in place or at a destination iff it has characters.
theorem changeInPlace_some (hl : lib.Bounded) (hvt : vt ≠ .bstr)
    (hc : characters lib (.scalar vt val) = some chars) :
    variantChangeType lib host none (.scalar vt val) false .bstr next =
      .ok ⟨sOk, .bstr (stored host next chars), next + 1⟩ := by
  have hne := ne_bstr_of_characters hvt hc
  simp only [variantChangeType, changeValue_some hl hvt hc, Exec.pure_eq, Exec.ok_bind, if_neg hne]

theorem change_some (hl : lib.Bounded) {v : Variant} (hv : v.Intact)
    (hc : characters lib v = some chars) :
    variantChangeType lib host (some (.init false .empty)) v false .bstr next =
      .ok ⟨sOk, .bstr (stored host next chars), next + 1⟩ := by
  cases v
  case scalar vt val =>
    have hne := ne_bstr_of_characters hv hc
    simp only [variantChangeType, changeValue_some hl hv hc, Variant.init,
      variantClear, Exec.pure_eq, Exec.ok_bind, if_neg hne]
  case bstr bstrVal =>
    cases bstrVal
    case none   => cases hc
    case some b =>
      cases hc
      have hs : sysAllocString host (some b.chars) next =
          .ok (stored host next (wcs b.chars), next + 1) := by
        have hb := hv b rfl
        exact sysAllocString_short (by omega) next
      have hsame : (Variant.bstr (some b)).vt = VarType.word false .bstr := rfl
      simp only [variantChangeType, variantCopy, Variant.init, variantClear,
        Exec.pure_eq, Exec.ok_bind, if_pos hsame, Option.isSome_some, if_true, Option.map_some, hs]
  all_goals cases hc

theorem change_none {v : Variant} (hv : v.Intact) (ha : v.isArray = false)
    (hc : characters lib v = none) :
    ∃ r, variantChangeType lib host (some (.init false .empty)) v false .bstr next = .ok r ∧
      (Failed r.hr ∨ bstrVal r.dest = none) := by
  cases v
  case scalar vt val =>
    have hch : ∃ hr, Failed hr ∧
        changeValue lib host (.scalar vt val) false .bstr next = .ok (.error hr, next) :=
      changeValue_none hv hc
    obtain ⟨hr, hf, hch⟩ := hch
    by_cases hsame : (Variant.scalar vt val).vt = VarType.word false .bstr
    case neg =>
      refine ⟨⟨hr, .init false .empty, next⟩, ?_, .inl hf⟩
      simp only [variantChangeType, hch, Variant.init, variantClear, Exec.pure_eq, Exec.ok_bind,
        if_neg hsame]
    case pos =>
      have hcode : vt.code = VarType.word false .bstr := hsame
      have hplain : vt.isPlain = false := by
        cases vt
        case bstr  => contradiction
        case other => rfl
        all_goals exact absurd hcode (by decide)
      refine ⟨⟨eBadVarType, .init false .empty, next⟩, ?_, .inl failed_eBadVarType⟩
      simp only [variantChangeType, variantCopy, hplain, Variant.init, variantClear, Exec.pure_eq,
        Exec.ok_bind, if_pos hsame, Option.isSome_some, if_true, Bool.false_eq_true, if_false]
  case bstr bstrVal =>
    cases bstrVal
    case some b => cases hc
    case none =>
      have hsame : (Variant.bstr none).vt = VarType.word false .bstr := rfl
      refine ⟨⟨sOk, .bstr none, next⟩, ?_, .inr rfl⟩
      simp only [variantChangeType, variantCopy, Variant.init, variantClear,
        Exec.pure_eq, Exec.ok_bind,
        if_pos hsame, Option.isSome_some, if_true, Option.map_none, sysAllocString]
  all_goals cases ha

theorem cString_append_zero (bytes : List UInt8) :
    cString (bytes ++ [0]) = .ok (bytes.takeWhile (· ≠ 0)) := by
  have ht : (bytes ++ [0]).takeWhile (· ≠ 0) = bytes.takeWhile (· ≠ 0) := by
    induction bytes
    case nil => rfl
    case cons b bytes ih =>
      by_cases hb : b = 0
      case pos => simp [hb]
      case neg => simpa [hb] using ih
  rw [cString, if_pos (List.mem_append_right bytes List.mem_cons_self), ht]
  rfl

-- A string of bytes is made of a string of characters, unless something is missing.
theorem convertString_outcome (hl : lib.Bounded) {bstr : Option Bstr}
    (hb : Variant.ShortBstr bstr) :
    Outcome (stringSize lib (bstr.map fun b => wcs b.chars)) (next + 1)
      (first (stringChecks lib host (bstr.map fun b => wcs b.chars) next))
      (.ok (convertString lib host bstr next)) := by
  simp only [stringChecks, first_check, first_nil, stringSize]
  cases bstr
  case none =>
    have hconv : convertString lib host none next = ⟨eOutOfMemory, .null, next⟩ := rfl
    rw [hconv]
    exact .refusal failed_eOutOfMemory (by simp)
  case some b =>
    cases hw : lib.wcstombs (wcs b.chars)
    case none =>
      have hm : multibyte lib (some (wcs b.chars)) = none := by simp [multibyte, hw]
      have hconv : convertString lib host (some b) next = ⟨eOutOfMemory, .null, next⟩ := by
        simp only [convertString, convertWideChar2MultiByte, hw]
      rw [Option.map_some, hm, hconv]
      exact .refusal failed_eOutOfMemory (by simp)
    case some bytes =>
      have hlen : bytes.length + 1 < 2147483648 := by
        have hbytes := hl.bytes hw
        have hshort : (wcs b.chars).length < 16383 := hb b rfl
        omega
      have hi : i32 (bytes.length + 1) = (bytes.length + 1 : Nat) := by
        rw [i32, u32_of_lt (by omega), if_pos hlen]
      have hpos : 0 < i32 (bytes.length + 1) := hi ▸ Int.natCast_pos.mpr (Nat.succ_pos _)
      have hm : multibyte lib (some (wcs b.chars)) = some (bytes.takeWhile (· ≠ 0)) := by
        simp [multibyte, hw]
      have hinto : lib.wcstombsInto (wcs b.chars) (i32 (bytes.length + 1)).toNat =
          bytes ++ [0] := by
        rw [hi, Int.toNat_natCast]
        simp [Libc.wcstombsInto, hw]
      rw [Option.map_some, hm]
      cases hs : host.malloc next
      case false =>
        have hconv : convertString lib host (some b) next = ⟨eOutOfMemory, .null, next + 1⟩ := by
          simp only [convertString, convertWideChar2MultiByte, hw, if_pos hpos, Host.alloc, hs,
            Bool.false_eq_true, if_false]
        rw [hconv]
        exact .refusal failed_eOutOfMemory (by simp)
      case true  =>
        have hconv : convertString lib host (some b) next =
            ⟨sOk, .owned (bytes ++ [0]), next + 1⟩ := by
          simp only [convertString, convertWideChar2MultiByte, hw, if_pos hpos,
            Host.alloc, hs, if_true, hinto]
        rw [hconv]
        exact .string (cString_append_zero bytes) rfl

theorem shortBstr_stored (h : wcslen chars < 16383)  :
    Variant.ShortBstr (stored host next chars) := by
  intro b hb
  simp only [stored] at hb
  split at hb
  case isTrue  => cases hb; exact h
  case isFalse => cases hb

theorem characters_short (hl : lib.Bounded) {v : Variant} (hv : v.Intact)
    (hc : characters lib v = some chars) : wcslen chars < 16383 ∧ wcs chars = chars := by
  cases v
  case scalar vt val =>
    cases hn : vt.number val
    case none =>
      cases vt
      case empty =>
        cases hc
        exact ⟨by decide, rfl⟩
      case bstr => contradiction
      case null | error | variant | other => cases hc
      all_goals cases hn
    case some n =>
      cases (characters_scalar hn).symm.trans hc
      have hlen := length_printNumber hl hn
      have hw : wcslen (printNumber lib vt n) ≤ (printNumber lib vt n).length :=
        (List.takeWhile_sublist _).length_le
      exact ⟨by rw [wcslen, wcs_wcs]; exact Nat.lt_of_le_of_lt hw (by omega), wcs_wcs _⟩
  case bstr bstrVal =>
    cases bstrVal
    case none   => cases hc
    case some b =>
      cases hc
      exact ⟨by rw [wcslen, wcs_wcs]; exact hv b rfl, wcs_wcs _⟩
  all_goals cases hc

-- The string of a variant, or of an element that was changed in place.
theorem stored_outcome (hl : lib.Bounded) {v : Variant} (hv : v.Intact)
    (hc : characters lib v = some chars) (n : Nat) :
    Outcome (stringSize lib (characters lib v)) (next + 1)
      (first (check (host.malloc n = true) .refusal ::
        stringChecks lib host (characters lib v) next))
      (.ok (convertString lib host (stored host n chars) next)) := by
  obtain ⟨hshort, hw⟩ := characters_short hl hv hc
  have hout : Outcome _ (next + 1) _ (.ok (convertString lib host (stored host n chars) next)) :=
    convertString_outcome hl (shortBstr_stored hshort)
  rw [first_check, hc]
  cases hm : host.malloc n
  case false =>
    have hs : stored host n chars = none := by simp [stored, hm]
    rw [hs]
    exact .refusal failed_eOutOfMemory (by simp)
  case true =>
    have hs : stored host n chars = some ⟨n, chars⟩ := by simp [stored, hm]
    rw [hs, Option.map_some, hw, ← hs] at hout
    exact hout

theorem single_describes (hl : lib.Bounded) {v : Variant} (hv : v.Intact) (ha : v.isArray = false) :
    (singlePiece lib host v).Describes (convertSingle lib host v) := by
  intro next
  cases hc : characters lib v
  case some chars =>
    have hconv : convertSingle lib host v next =
        .ok (convertString lib host (stored host next chars) (next + 1)) := by
      simp only [convertSingle, change_some hl hv hc, Exec.ok_bind, if_neg not_failed_sOk, bstrVal]
      rfl
    rw [hconv]
    exact stored_outcome hl hv hc next
  case none =>
    have hch : ∃ r, variantChangeType lib host (some (.init false .empty)) v false .bstr
      next = .ok r ∧
        (Failed r.hr ∨ bstrVal r.dest = none) := change_none hv ha hc
    obtain ⟨r, hr, hfail⟩ := hch
    have hfirst : first ((singlePiece lib host v).checks next) = some .refusal := by
      simp only [singlePiece, hc, stringChecks, first_check]
      split <;> rfl
    have hconv : ∃ hr n, Failed hr ∧ convertSingle lib host v next = .ok ⟨hr, .null, n⟩ := by
      by_cases hf : Failed r.hr
      case pos =>
        exact ⟨r.hr, r.next, hf, by simp only [convertSingle, hr, Exec.ok_bind, if_pos hf]; rfl⟩
      case neg =>
        have hb := hfail.resolve_left hf
        refine ⟨eOutOfMemory, r.next, failed_eOutOfMemory, ?_⟩
        simp only [convertSingle, hr, Exec.ok_bind, if_neg hf, hb]
        rfl
    obtain ⟨hr, n, hf, hconv⟩ := hconv
    rw [hfirst, hconv]
    exact .refusal hf (by simp)

theorem bstr_describes (hl : lib.Bounded) {bstr : Option Bstr} (hb : Variant.ShortBstr bstr) :
    (bstrSpan lib host bstr).Describes (bstrPart lib host bstr) where
  convert next := convertString_outcome hl hb
  added        := rfl
  plain        := fun _ h => absurd h (by simp [bstrPart])
  closing      := by simp [bstrPart]
  room         := rfl

-- The elements of a number array are changed in place one after the other.
theorem changeElements_ok (hl : lib.Bounded) (hvt : vt ≠ .bstr) {vals : List Nat}
    (hcs : ∀ val ∈ vals, (characters lib (.scalar vt val)).isSome) (next : Nat) :
    ∃ bstrs, changeElements lib host (vals.map (.scalar vt)) next =
        .ok (.ok bstrs, next + vals.length) ∧
      List.Forall₂ Span.Describes (rawSpans lib host next (vals.map (.scalar vt)))
        (bstrs.map (bstrPart lib host)) := by
  induction vals generalizing next
  case nil => exact ⟨[], rfl, .nil⟩
  case cons val vals ih =>
    obtain ⟨hc, hcs⟩ := List.forall_mem_cons.mp hcs
    obtain ⟨chars, hc⟩ := Option.isSome_iff_exists.mp hc
    obtain ⟨bstrs, hch, hds⟩ := ih hcs (next + 1)
    refine ⟨stored host next chars :: bstrs, ?_, .cons ?_ hds⟩
    case refine_1 =>
      have hnext : next + 1 + vals.length = next + (val :: vals).length := by
        rw [List.length_cons]
        omega
      simp only [List.map_cons, changeElements, changeInPlace_some hl hvt hc, Exec.ok_bind,
        if_neg not_failed_sOk, hch, hnext]
      rfl
    case refine_2 =>
      constructor
      case convert => exact fun n => stored_outcome hl (v := .scalar vt val) hvt hc next
      case added   => rfl
      case plain   => exact fun _ h => absurd h (by simp [bstrPart])
      case closing => simp [bstrPart]
      case room    => rfl

theorem rawSpans_alike (lib : Libc) (host : Host) (a b : Nat) (vs : List Variant) :
    (rawSpans lib host a vs).map (fun span => span.size + span.added) =
        (rawSpans lib host b vs).map (fun span => span.size + span.added) ∧
      (rawSpans lib host a vs).map (fun span => span.requests + 1) =
        (rawSpans lib host b vs).map (fun span => span.requests + 1) := by
  induction vs generalizing a b
  case nil => exact ⟨rfl, rfl⟩
  case cons v vs ih =>
    obtain ⟨hs, hr⟩ := ih (a + 1) (b + 1)
    simp only [rawSpans, List.map_cons, hs, hr, and_self]

theorem length_rawSpans (a : Nat) (vs : List Variant) :
    (rawSpans lib host a vs).length = vs.length := by
  induction vs generalizing a
  case nil          => rfl
  case cons v vs ih => exact congrArg Nat.succ (ih (a + 1))

theorem characters_of_elemSize (hs : elemSize vt = some sz) (hb : vt ≠ .bstr) (hv : vt ≠ .variant)
    (val : Nat) : (characters lib (.scalar vt val)).isSome := by
  cases vt
  case empty | null | error | other => cases hs
  case bstr | variant => contradiction
  all_goals rfl

variable {psa : ArrayHeader}

theorem vector_lt (hv : psa.Vector vt) : psa.cElements < 4294967296 := by
  cases hv
  case empty hc _ _ _       => exact hc ▸ (by decide)
  case full hs hc _ _ hb =>
    have hpos := elemSize_pos hs
    exact Nat.lt_of_le_of_lt (Nat.le_mul_of_pos_right _ hpos) hb

theorem withCount_eq (hv : psa.Vector vt) (hc : psa.cElements < 2147483648)
    (k : Nat → Exec Converted) : withCount psa k = k psa.cElements := by
  have hcnt : (i32 (Variant.count psa)).toNat = psa.cElements := by
    rw [Variant.count_eq (vector_lt hv), i32, u32_of_lt (vector_lt hv), if_pos hc,
      Int.toNat_natCast]
  have hcap : ¬psa.cap < psa.cElements := by
    cases hv
    case empty hc _ _ hcap  => omega
    case full _ _ _ hcap _  => omega
  simp only [withCount, hcnt, if_neg hcap]

theorem raw_describes (hl : lib.Bounded) (hb : vt ≠ .bstr) (hnv : vt ≠ .variant)
    (hv : psa.Vector vt)
    (data : List UInt8) : (rawPiece lib host vt psa data).Describes
    (convertRaw lib host vt psa data) := by
  intro next
  have hlt := vector_lt hv
  have hneg : i32 (Variant.count psa) < 0 ↔ ¬psa.cElements < 2147483648 := by
    rw [Variant.count_eq hlt, i32, u32_of_lt hlt]
    split
    case isTrue h  => omega
    case isFalse h => omega
  by_cases hserved : psa.cElements < 2147483648 ∧ host.malloc next = true
  case neg =>
    have hc : i32 (Variant.count psa) < 0 ∨ host.malloc next = false := by
      rw [hneg, ← Bool.not_eq_true, ← not_and_or]
      exact hserved
    simp only [rawPiece, first_check, if_neg hserved, convertRaw, if_pos hc]
    exact .refusal failed_eOutOfMemory (by simp)
  case pos =>
    have hc : ¬(i32 (Variant.count psa) < 0 ∨ host.malloc next = false) := by
      rw [hneg, ← Bool.not_eq_true, ← not_and_or, not_not]
      exact hserved
    let vals := (List.range psa.cElements).map fun i =>
      ofLe (data.window (psa.cbElements * i) psa.cbElements)
    have hvals : ((List.range psa.cElements).map fun i =>
        Variant.scalar vt (ofLe (data.window (psa.cbElements * i) psa.cbElements))) =
        vals.map (.scalar vt) := by
      rw [List.map_map]
      rfl
    have hlen : vals.length = psa.cElements := by rw [List.length_map, List.length_range]
    have hcs : ∀ val ∈ vals, (characters lib (.scalar vt val)).isSome := by
      intro val hmem
      cases hv
      case empty hc _ _ _ => simp [vals, hc] at hmem
      case full hs _ _ _ _ => exact characters_of_elemSize hs hb hnv val
    obtain ⟨bstrs, hch, hds⟩ := changeElements_ok hl hb hcs (next + 1)
    have hspans : (rawSpans lib host (next + 1) (vals.map (.scalar vt))).length < 4294967296 := by
      rwa [length_rawSpans, List.length_map, hlen]
    have hdesc :
      (joinPiece host false (rawSpans lib host (next + 1) (vals.map (.scalar vt)))).Describes
        fun n => join host false (bstrs.map (bstrPart lib host)) ⟨none, 0, n⟩ :=
      joinPiece_describes hds hspans
    have hconv : convertRaw lib host vt psa data next =
        join host false (bstrs.map (bstrPart lib host)) ⟨none, 0, next + 1 + psa.cElements⟩ := by
      simp only [convertRaw, if_neg hc, withCount_eq hv hserved.1, hvals, hch, Exec.ok_bind, hlen]
    obtain ⟨hsize, hreq⟩ := rawSpans_alike lib host (next + 1) 0 (vals.map (.scalar vt))
    have hout := hdesc (next + 1 + psa.cElements)
    rw [hconv]
    simp only [rawPiece, hvals, first_check, if_pos hserved]
    simp only [joinPiece, hsize, hreq, Nat.add_assoc] at hout ⊢
    exact hout

theorem plain_sprintf (vt : Nat) : 0 ∉ sprintf vt := by
  have hdigit : ∀ c ∈ Nat.toDigits 10 vt, UInt8.ofNat c.toNat ≠ 0 := by
    intro c hc
    have hd := Char.isDigit_iff_toNat.mp (Nat.isDigit_of_mem_toDigits (by decide) (by decide) hc)
    have hlow : 48 ≤ c.toNat := hd.1
    have hhigh : c.toNat ≤ 57 := hd.2
    intro h
    have hz := congrArg UInt8.toNat h
    rw [UInt8.toNat_ofNat', Nat.mod_eq_of_lt (by omega)] at hz
    have hzero : (0 : UInt8).toNat = 0 := rfl
    omega
  intro h
  have hneg : ¬(vt : Int) < 0 := Int.not_lt.mpr (Int.natCast_nonneg vt)
  simp only [sprintf, Libc.decimal, if_neg hneg, Int.natAbs_natCast, List.mem_append, List.mem_map,
    List.mem_singleton] at h
  obtain ⟨_, ⟨c, hc, rfl⟩, h⟩ | h := h
  case inl => exact hdigit c hc h
  case inr => exact absurd h (by decide)

theorem variant_describes {p : Piece} {convert : Nat → Exec Converted} (h : p.Describes convert)
    (vt : Nat) : (variantSpan vt p).Describes (variantPart vt convert) where
  convert := h
  added   := rfl
  plain   := List.forall_mem_cons.mpr ⟨by decide, List.forall_mem_singleton.mpr (plain_sprintf vt)⟩
  closing := by simp [variantPart]
  room    := by simp [variantSpan, variantPart]; omega

theorem length_variantParts (lib : Libc) (host : Host) (vs : List Variant) :
    (variantParts lib host vs).length = vs.length := by
  induction vs
  case nil          => rfl
  case cons v vs ih => simp only [variantParts, List.length_cons, ih]

theorem length_spans (vs : List Variant) : (spans lib host vs).length = vs.length := by
  induction vs
  case nil          => rfl
  case cons v vs ih => simp only [spans, List.length_cons, ih]

theorem forall₂_replicate {R : α → β → Prop} {a : α} {b : β} (h : R a b) (n : Nat) :
    List.Forall₂ R (List.replicate n a) (List.replicate n b) := by
  induction n
  case zero      => exact .nil
  case succ n ih => exact .cons h ih

theorem vector_small (hv : psa.Vector vt) (h : ∀ sz, elemSize vt = some sz → 2 ≤ sz) :
    psa.cElements < 2147483648 := by
  cases hv
  case empty hc _ _ _ => exact hc ▸ (by decide)
  case full hs _ _ _ hb =>
    have hle := Nat.mul_le_mul_left psa.cElements (h _ hs)
    omega

theorem bstrArray_describes (hl : lib.Bounded) {data : List (Option Bstr)} (hv : psa.Vector .bstr)
    (hb : ∀ b ∈ data, Variant.ShortBstr b) :
    (piece lib host (.bstrArray psa data)).Describes
      (convertVariant2RacStr lib host (.bstrArray psa data)) := by
  have hc := vector_small hv fun sz hs => Option.some.inj hs ▸ (by decide)
  have hshort (i : Nat) : Variant.ShortBstr (data.getD i none) := by
    rw [List.getD_eq_getElem?_getD]
    cases hi : data[i]?
    case none   => exact fun _ h => absurd h (by simp)
    case some b => exact hb b (List.mem_of_getElem? hi)
  have hds (is : List Nat) : List.Forall₂ Span.Describes
      (is.map fun i => bstrSpan lib host (data.getD i none))
      ((is.map fun i => data.getD i none).map (bstrPart lib host)) := by
    induction is
    case nil          => exact .nil
    case cons i is ih => exact .cons (bstr_describes hl (hshort i)) ih
  intro next
  simp only [piece, convertVariant2RacStr, withCount_eq hv hc]
  refine joinPiece_describes (hds (List.range psa.cElements)) ?_ next
  rw [List.length_map, List.length_range]
  exact vector_lt hv

mutual

-- What is said about a tree is what its conversion does.
theorem convert_describes (hl : lib.Bounded) : (v : Variant) → v.Intact →
    (piece lib host v).Describes (convertVariant2RacStr lib host v)
  | .scalar _ _, hv => by
    simpa only [piece, Piece.Describes, convertVariant2RacStr] using single_describes hl hv rfl
  | .bstr _, hv => by
    simpa only [piece, Piece.Describes, convertVariant2RacStr] using single_describes hl hv rfl
  | .nullArray _, hv => absurd hv (by simp [Variant.Intact])
  | .rawArray vt psa data, hv => by
    simpa only [piece, Piece.Describes, convertVariant2RacStr] using
      raw_describes hl hv.1 hv.2.1 hv.2.2.1 data
  | .bstrArray psa data, hv => bstrArray_describes hl hv.1 hv.2.2
  | .variantArray psa data, hv => by
    have hc := vector_small hv.1 fun sz hs => Option.some.inj hs ▸ (by decide)
    have hempty : (variantSpan 0 (singlePiece lib host (.scalar .empty 0))).Describes
        (variantPart 0 (convertSingle lib host (.scalar .empty 0))) :=
      variant_describes (single_describes hl (by simp [Variant.Intact]) rfl) 0
    have hds := List.rel_append (spans_describe hl data hv.2.2)
      (forall₂_replicate hempty (psa.cElements - data.length))
    have hlen := length_variantParts lib host data
    intro next
    simp only [piece, convertVariant2RacStr, withCount_eq hv.1 hc, hlen]
    rw [List.take_of_length_le (hlen ▸ hv.2.1)]
    refine joinPiece_describes hds ?_ next
    rw [List.length_append, length_spans, List.length_replicate, Nat.add_sub_cancel' hv.2.1]
    exact vector_lt hv.1

theorem spans_describe (hl : lib.Bounded) : (vs : List Variant) → Variant.AllIntact vs →
    List.Forall₂ Span.Describes (spans lib host vs) (variantParts lib host vs)
  | [],      _  => .nil
  | v :: vs, hv =>
      .cons (variant_describes (convert_describes hl v hv.1) v.vt) (spans_describe hl vs hv.2)

end

end

end Rac
