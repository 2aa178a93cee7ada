import DensoRobot.Bcap.Theorems.Channel
import DensoRobot.Bcap.Theorems.RoundTrip

open HRESULT Bytes

namespace Bcap

-- The number of bytes that a CRC takes on a connection.
def crcPad (type : ConnType) : Nat :=
  if type = .com then bcapSizeCrc else 0

-- A packet that can be encoded, and whose arguments its receiver can create.
structure Carriable (type : ConnType) (p : BcapPacket) (vs : List Variant) : Prop where
  transmissible : Transmissible p vs (crcPad type)
  creatable     : Value.AllCreatable (Variant.values vs)

-- The number of bytes of a packet on a connection.
def sizeOn (type : ConnType) (vs : List Variant) : Nat :=
  16 + ((Variant.values vs).flatMap Value.argument).length + crcPad type

section

variable {type : ConnType} {p : BcapPacket} {vs : List Variant}

-- Any content of the CRC slot leaves a packet that the connection may carry.
theorem framed (h : Legible p vs (crcPad type)) (hfits : sizeOn type vs ≤ lenMax type)
    {crc : List UInt8} (hc : crc.length = crcPad type) :
    lenMin type ≤ (p.frame vs crc).length ∧ (p.frame vs crc).length ≤ lenMax type ∧
      wellFramed (p.frame vs crc) := by
  have hlen := Legible.length_frame p vs crc
  have hsize := h.size
  rw [sizeOn] at hfits
  refine ⟨?_, by omega, wellFramed_frame (by rw [← BcapPacket.frame]; omega)⟩
  cases type <;> simp only [lenMin, bcapSizeMin, bcapSizeCrc, crcPad, reduceCtorEq, if_false,
    if_true] at hc hlen ⊢ <;> omega

end

-- A packet is received as one that carries the same.
def Matches (r r' : HRESULT × Option BcapPacket) : Prop :=
  r.1 = r'.1 ∧ Option.Rel BcapPacket.Equiv r.2 r'.2

-- Only packets that the connection is able to carry are sent, if they are small enough.
def CarriableAll (type : ConnType) (ts : List Traffic) : Prop :=
  ∀ p, .send p ∈ ts → ∃ vs, Carriable type p vs

section

variable {ch : Channel σ} {addr : Nat} {holds : List (List UInt8) → σ → Prop}
variable {p : BcapPacket} {vs : List Variant} {client : Bool} {arg : Nat}

end

-- A connection on which nothing is on its way is an empty queue, whichever end receives.
def Delivers (ch : Channel σ) (host : Host) (addr : Nat) (s : σ) : Prop :=
  ∀ ts, CarriableAll ch.type ts → ∀ client arg next, Listens ch.type addr client arg → ∃ rs s',
    Settles (fun fuel => carry ch client host fuel ts arg next s) (.ok (rs, s')) ∧
      List.Forall₂ Matches rs (enqueue ch.type ts [])

end Bcap
