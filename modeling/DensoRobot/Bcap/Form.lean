import DensoRobot.Bcap.Encode
import DensoRobot.Bcap.Decode
import DensoRobot.Bcap.Wire

open Bytes

namespace Bcap

-- A host that always has memory, and for which dates look the same everywhere.
def ampleHost : Host where
  malloc        := fun _ => true
  secondsToDays := id
  daysToSeconds := some

def sentNumber (host : Host) : VarType → List UInt8 → List UInt8
  | .date, data => vntdate2bytary host data
  | _,     data => data

-- The first `n` elements of the given size, each of which `conv` converts.
def convElems (size : Nat) (conv : List UInt8 → List UInt8) : (n : Nat) → List UInt8 → List UInt8
  | 0,     _    => []
  | n + 1, data => conv (data.take size) ++ convElems size conv n (data.drop size)

def receivedNumber (host : Host) : VarType → List UInt8 → List UInt8
  | .date, data => bytary2vntdate host data
  | _,     data => data

-- What a receiver makes of a value on the wire.
mutual

def Value.received (host : Host) : Value → Value
  | .number vt data    => .number vt (receivedNumber host vt data)
  | .text chars        => .text (wcs chars)
  | .numbers vt n data => .numbers vt n (convElems (elementSize vt) (receivedNumber host vt) n data)
  | .texts elems       => .texts (elems.map wcs)
  | .variants elems    => .variants (Value.allReceived host elems)

def Value.allReceived (host : Host) : List Value → List Value
  | []      => []
  | x :: xs => x.received host :: Value.allReceived host xs

end

@[simp]
theorem Value.length_allReceived (host : Host) (xs : List Value) :
    (allReceived host xs).length = xs.length := by
  induction xs <;> simp [allReceived, *]

def bstrBytes (b : Option Bstr) : List UInt8 :=
  toLe 4 (2 * sysStringLen b) ++ (bstrText b).flatMap (toLe 2)

end Bcap

namespace Variant

open Bcap

-- The form of a variant on the wire, whatever it is.
mutual

def payload (host : Host) : Variant → List UInt8
  | scalar vt val        => sentNumber host vt (toLe (wireSize vt) val)
  | bstr bstrVal         => bstrBytes bstrVal
  | nullArray _          => []
  | rawArray vt psa data => convElems (elementSize vt) (sentNumber host vt) (count psa) data
  | bstrArray _ data     => data.flatMap bstrBytes
  | variantArray _ data  => bodies host data

def bodies (host : Host) : List Variant → List UInt8
  | []      => []
  | v :: vs => toLe 2 v.vt ++ toLe 4 ((elements v).getD 0) ++ payload host v ++ bodies host vs

end

-- The type, the number of elements and the payload.
def body (host : Host) (v : Variant) : List UInt8 :=
  toLe 2 v.vt ++ toLe 4 ((elements v).getD 0) ++ v.payload host

def argument (host : Host) (v : Variant) : List UInt8 :=
  toLe 4 (v.body host).length ++ v.body host

-- The value that a variant shows on the wire.
mutual

def sent (host : Host) : Variant → Value
  | scalar vt val        => .number vt (sentNumber host vt (toLe (wireSize vt) val))
  | bstr bstrVal         => .text ((bstrText bstrVal).map u16)
  | nullArray vt         => .numbers vt 0 []
  | rawArray vt psa data => .numbers vt psa.cElements <|
    convElems (elementSize vt) (sentNumber host vt) psa.cElements data
  | bstrArray _ data     => .texts (data.map fun b => (bstrText b).map u16)
  | variantArray _ data  => .variants (allSent host data)

def allSent (host : Host) : List Variant → List Value
  | []      => []
  | v :: vs => v.sent host :: allSent host vs

end

@[simp]
theorem length_allSent (host : Host) (vs : List Variant) :
    (allSent host vs).length = vs.length := by
  induction vs <;> simp [allSent, *]

-- The variants whose arrays are there with all of their elements.
mutual

def Filled : Variant → Prop
  | scalar _ _ | bstr _   => True
  | nullArray _           => False
  | rawArray vt psa data  =>
    psa.cElements < 4294967296 ∧ psa.cElements * elementSize vt ≤ data.length
  | bstrArray psa data    => psa.cElements < 4294967296 ∧ data.length = psa.cElements
  | variantArray psa data =>
    psa.cElements < 4294967296 ∧ data.length = psa.cElements ∧ AllFilled data

def AllFilled : List Variant → Prop
  | []      => True
  | v :: vs => v.Filled ∧ AllFilled vs

end

-- The variants that can be there, with all elements of their arrays. The data of elements whose
-- type has no size may be anything.
mutual

def Whole : Variant → Prop
  | scalar vt _           => vt.Proper ∧ vt ≠ .bstr
  | bstr _                => True
  | nullArray _           => False
  | rawArray vt psa data  =>
    vt.Proper ∧ vt ≠ .bstr ∧ vt ≠ .variant ∧ psa.cElements < 4294967296 ∧
      (data.length = psa.cElements * elementSize vt ∨ elemSize vt = none ∧ 0 < psa.cElements)
  | bstrArray psa data    => psa.cElements < 4294967296 ∧ data.length = psa.cElements
  | variantArray psa data =>
    psa.cElements < 4294967296 ∧ data.length = psa.cElements ∧ AllWhole data

def AllWhole : List Variant → Prop
  | []      => True
  | v :: vs => v.Whole ∧ AllWhole vs

end

-- A date that is the same after the way to the days of the wire and back.
def Lasting (host : Host) (date : List UInt8) : Prop :=
  bytary2vntdate host (vntdate2bytary host date) = date

def AllLasting (host : Host) : (n : Nat) → (dates : List UInt8) → Prop
  | 0,     _     => True
  | n + 1, dates => Lasting host (dates.take 8) ∧ AllLasting host n (dates.drop 8)

-- The variants that arrive as they were sent.
mutual

def Deliverable (host : Host) : Variant → Prop
  | scalar vt val        => vt = .date → Lasting host (toLe 8 val)
  | bstr bstrVal         => IsText (text bstrVal)
  | nullArray _          => True
  | rawArray vt psa data =>
    psa.cElements = 0 ∨ (elemSize vt).isSome ∧ (vt = .date → AllLasting host psa.cElements data)
  | bstrArray _ data     => data.length * 8 < 4294967296 ∧ ∀ b ∈ data, IsText (text b)
  | variantArray _ data  => data.length * 24 < 4294967296 ∧ AllDeliverable host data

def AllDeliverable (host : Host) : List Variant → Prop
  | []      => True
  | v :: vs => v.Deliverable host ∧ AllDeliverable host vs

end

end Variant

namespace Bcap

-- A packet with the arguments `vs` in a buffer that is `pad` bytes larger than it need be.
def BcapPacket.bytes (host : Host) (p : BcapPacket) (vs : List Variant) (pad : Nat) : List UInt8 :=
  [bcapHeader] ++ toLe 4 (bcapSizeMin + (vs.flatMap (Variant.argument host)).length + pad) ++
    toLe 2 p.serial ++ toLe 2 p.reserv ++ toLe 4 (wordOfInt p.id) ++ toLe 2 p.argc ++
    vs.flatMap (Variant.argument host) ++ List.replicate pad 0 ++ [bcapTerminator]

section

variable {size n : Nat} {conv : List UInt8 → List UInt8} {data : List UInt8}

theorem length_bstrText (b : Option Bstr) : (bstrText b).length = sysStringLen b := by
  cases b
  case none => rfl
  case some b => exact List.length_take_of_le u16_le

theorem length_bstrBytes (b : Option Bstr) : (bstrBytes b).length = 4 + 2 * sysStringLen b := by
  have h (cs : List Nat) : (cs.flatMap (toLe 2)).length = 2 * cs.length := by
    induction cs <;> simp [*]; omega
  rw [bstrBytes, List.length_append, length_toLe, h, length_bstrText]

theorem length_convElems (hc : ∀ e : List UInt8, e.length = size → (conv e).length = size)
    (h : n * size ≤ data.length) : (convElems size conv n data).length = n * size := by
  induction n generalizing data
  case zero => simp [convElems]
  case succ n ih =>
    rw [Nat.succ_mul] at h ⊢
    have hd : n * size ≤ (data.drop size).length := by
      rw [List.length_drop]
      omega
    rw [convElems, List.length_append, ih hd,
      hc _ (List.length_take_of_le (by omega)), Nat.add_comm]

theorem convElems_empty (hc : conv [] = []) (n : Nat) (data : List UInt8) :
    convElems 0 conv n data = [] := by
  induction n generalizing data
  case zero => rfl
  case succ n ih => rw [convElems, List.take_zero, hc, ih, List.append_nil]

theorem convElems_id (h : n * size ≤ data.length) :
    convElems size id n data = data.take (n * size) := by
  induction n generalizing data
  case zero => simp [convElems]
  case succ n ih =>
    rw [Nat.succ_mul] at h ⊢
    have hd : n * size ≤ (data.drop size).length := by
      rw [List.length_drop]
      omega
    rw [convElems, ih hd, Nat.add_comm, List.take_add]
    rfl

theorem length_sentNumber (host : Host) (vt : VarType) {e : List UInt8}
    (h : e.length = wireSize vt) : (sentNumber host vt e).length = wireSize vt := by
  cases vt
  case date => exact length_toLe ..
  all_goals exact h

end
end Bcap

namespace Variant

open Bcap

theorem length_body (host : Host) (v : Variant) :
    (v.body host).length = 6 + (v.payload host).length := by
  simp only [body, List.length_append, length_toLe]

theorem length_argument (host : Host) (v : Variant) :
    (v.argument host).length = 10 + (v.payload host).length := by
  simp only [argument, List.length_append, length_toLe, length_body]
  omega

theorem elements_eq {v : Variant} (h : v.Filled) : ∃ cnt, elements v = some cnt := by
  cases v
  case nullArray => exact h.elim
  all_goals exact ⟨_, rfl⟩

-- There are no dates in a variant.
mutual

def Dateless : Variant → Prop
  | scalar vt _                          => vt ≠ .date
  | rawArray vt psa _                    => vt = .date → psa.cElements = 0
  | bstr _ | nullArray _ | bstrArray _ _ => True
  | variantArray _ data                  => AllDateless data

def AllDateless : List Variant → Prop
  | []      => True
  | v :: vs => v.Dateless ∧ AllDateless vs

end

-- A variant that can be sent as it is, and for which a receiver finds enough memory.
structure Settled (v : Variant) : Prop where
  stored    : v.Stored
  readable  : v.value.Readable
  creatable : v.value.Creatable

theorem AllDateless.of_mem : {vs : List Variant} → AllDateless vs → v ∈ vs → v.Dateless
  | _ :: _, h, hv => (List.mem_cons.mp hv).elim (fun he => he ▸ h.left) fun hv => h.right.of_mem hv

theorem allSettled : {vs : List Variant} → (∀ v ∈ vs, v.Settled) →
    AllStored vs ∧ Value.AllReadable (values vs) ∧ Value.AllCreatable (values vs)
  | [],      _ => ⟨trivial, trivial, trivial⟩
  | v :: vs, h => by
    have ⟨hv, hvs⟩ := List.forall_mem_cons.mp h
    have ⟨hs, hr, hc⟩ := allSettled hvs
    exact ⟨⟨hv.stored, hs⟩, ⟨hv.readable, hr⟩, ⟨hv.creatable, hc⟩⟩

end Variant
