import DensoRobot.Robotalk.Draw

open HRESULT Bytes Bcap

namespace Robotalk

inductive Color
  | fg
  | bg
  | fill
  deriving DecidableEq

inductive Shape
  | line
  | rect
  deriving DecidableEq

namespace Color

def code : Color → UInt8
  | fg   => colorFg
  | bg   => colorBg
  | fill => colorFill

def ofCode (code : UInt8) : Option Color :=
  if code = colorFg then some fg
  else if code = colorBg then some bg
  else if code = colorFill then some fill
  else none

@[simp]
theorem ofCode_code (c : Color) : ofCode c.code = some c := by
  cases c <;> rfl

end Color

namespace Shape

def code : Shape → UInt8
  | line => drawLine
  | rect => drawRect

def ofCode (code : UInt8) : Option Shape :=
  if code = drawLine then some line
  else if code = drawRect then some rect
  else none

@[simp]
theorem ofCode_code (s : Shape) : ofCode s.code = some s := by
  cases s <;> rfl

end Shape

-- A drawing command, where the text of a string is given by its characters.
inductive MiniTpCommand
  | color (color : Color) (val : UInt8)
  | string (text : List Nat) (posX posY size attr : UInt8)
  | shape (shape : Shape) (x₁ y₁ x₂ y₂ : UInt8)

-- A drawing command as the pendant reads it. Each byte of a text has an attribute.
inductive Record
  | color (color : Color) (val : UInt8)
  | string (posX posY size : UInt8) (text attrs : List UInt8)
  | shape (shape : Shape) (x₁ y₁ x₂ y₂ : UInt8)

namespace Record

def code : Record → UInt8
  | color c _        => c.code
  | string ..        => drawString
  | shape s _ _ _ _  => s.code

def payload : Record → List UInt8
  | color _ val                       => [val]
  | string posX posY size text attrs  =>
    [posX, posY, size, UInt8.ofNat text.length] ++ text ++ 0 :: attrs
  | shape _ x₁ y₁ x₂ y₂               => [x₁, y₁, x₂, y₂]

def bytes (r : Record) : List UInt8 :=
  [r.code, UInt8.ofNat r.payload.length] ++ r.payload

def ofPayload (code : UInt8) : (payload : List UInt8) → Option Record
  | [val]            => (Color.ofCode code).map (color · val)
  | [x₁, y₁, x₂, y₂] => (Shape.ofCode code).map (shape · x₁ y₁ x₂ y₂)
  | posX :: posY :: size :: n :: rest =>
    let text := rest.take n.toNat
    let attrs := rest.drop (n.toNat + 1)
    if code = drawString ∧ rest = text ++ 0 :: attrs ∧ attrs.length = n.toNat then
      some (string posX posY size text attrs)
    else
      none
  | _                => none

end Record

-- The records that a packet consists of.
def parse : List UInt8 → Option (List Record)
  | []                  => some []
  | [_]                 => none
  | code :: len :: rest =>
    if rest.length < len.toNat then
      none
    else do
      let r ← Record.ofPayload code (rest.take len.toNat)
      let rs ← parse (rest.drop len.toNat)
      return r :: rs
termination_by bytes => bytes.length
decreasing_by
  rw [List.length_drop]
  exact Nat.lt_succ_of_le (Nat.le_succ_of_le (Nat.sub_le ..))

namespace MiniTpCommand

-- The record of a command, unless there is a character without a multibyte form.
def record (lib : Libc) : MiniTpCommand → Option Record
  | color c val                      => some (.color c val)
  | string text posX posY size attr  =>
    (lib.wcstombs text).map fun bytes =>
      .string posX posY size bytes (List.replicate bytes.length attr)
  | shape s x₁ y₁ x₂ y₂              => some (.shape s x₁ y₁ x₂ y₂)

-- The size that is computed for the record of a command, by the characters of its text.
def counted : MiniTpCommand → Nat
  | color ..            => 3
  | string text _ _ _ _ => 2 * u16 text.length + 7
  | shape ..            => 6

-- A command without a text, or with one that has as many bytes as `SysStringLen` counts characters.
def Plain (lib : Libc) : MiniTpCommand → Prop
  | string text _ _ _ _ => ∃ bytes, lib.wcstombs text = some bytes ∧ bytes.length = u16 text.length
  | _                   => True

end MiniTpCommand

-- The records that can be told from their bytes.
structure Record.Valid (r : Record) : Prop where
  attrs   : ∀ {posX posY size text attrs}, r = .string posX posY size text attrs →
    attrs.length = text.length
  payload : r.payload.length < 256

section

variable {r : Record} {rs : List Record} {rest : List UInt8}

theorem Record.length_payload_string {posX posY size : UInt8} {text attrs : List UInt8} :
    (Record.string posX posY size text attrs).payload.length = text.length + attrs.length + 5 := by
  simp only [payload, List.length_append, List.length_cons, List.length_nil]
  omega

theorem Record.length_bytes : r.bytes.length = r.payload.length + 2 := by
  simp [bytes]

theorem Record.ofPayload_payload (hr : r.Valid) : ofPayload r.code r.payload = some r := by
  cases r
  case color c val         => simp [ofPayload, code, payload]
  case shape s x₁ y₁ x₂ y₂ => simp [ofPayload, code, payload]
  case string posX posY size text attrs =>
    have ha := hr.attrs rfl
    have hl := hr.payload
    have hn : (UInt8.ofNat text.length).toNat = text.length := by
      rw [length_payload_string] at hl
      exact Nat.mod_eq_of_lt (by omega)
    have ht : (text ++ 0 :: attrs).take text.length = text := List.take_left
    have hd : (text ++ 0 :: attrs).drop (text.length + 1) = attrs := by simp [List.drop_append]
    cases hrest : text ++ 0 :: attrs
    case nil => simp at hrest
    case cons =>
      rw [hrest] at ht hd
      simp only [code, payload, List.cons_append, List.nil_append, hrest, ofPayload, hn, ht, hd, ha,
        and_self, if_true]

-- A record is read back from the front of what is sent.
theorem parse_bytes_append (hr : r.Valid) :
    parse (r.bytes ++ rest) = (parse rest).map (r :: ·) := by
  have hn : (UInt8.ofNat r.payload.length).toNat = r.payload.length :=
    Nat.mod_eq_of_lt hr.payload
  have hlt : ¬(r.payload ++ rest).length < r.payload.length :=
    Nat.not_lt.mpr (List.length_append ▸ Nat.le_add_right ..)
  simp only [Record.bytes, List.cons_append, List.nil_append, parse, hn, if_neg hlt, List.take_left,
    List.drop_left, Record.ofPayload_payload hr]
  cases parse rest <;> rfl

theorem parse_flatMap (h : ∀ r ∈ rs, r.Valid) : parse (rs.flatMap Record.bytes) = some rs := by
  induction rs
  case nil       => simp [parse]
  case cons r rs ih =>
    rw [List.flatMap_cons, parse_bytes_append (h r <| List.mem_cons_self ..)]
    rw [ih fun r hr => h r <| List.mem_cons_of_mem _ hr]
    rfl

end

end Robotalk
