import DensoRobot.Bcap.Theorems.Deliverable
import DensoRobot.Bcap.Theorems.Finish

open HRESULT Bytes

namespace Bcap

-- A packet that was encoded to `bytes`, and a receiver that accepts it.
structure Message (host : Host) where
  packet     : BcapPacket
  args       : List Variant
  inRange    : packet.InRange
  argList    : packet.argList = .ok args
  whole      : Variant.AllWhole args
  dst        : List UInt8
  length_dst : dst.length < 4294967296
  bytes      : List UInt8
  encoded    : packet2bytary host packet dst = .ok (sOk, bytes)
  receiver   : BcapPacket
  accepts    : Succeeded (checkArgc receiver packet.argc)
  room       : ∀ args ∈ receiver.args, receiver.argc ≠ argcAuto → receiver.argc ≤ args.slots.length

namespace Message

variable {host : Host}

-- What is returned for a message.
def Delivers (m : Message host) (r : HRESULT × BcapPacket) : Prop :=
  r.1 = sOk ∧ r.2.Equiv m.packet

theorem argc_eq (m : Message host) : (Variant.allSent host m.args).length = m.packet.argc := by
  rw [Variant.length_allSent, length_of_argList m.argList]

theorem length_le (m : Message host) :
    16 + (m.args.flatMap (Variant.argument host)).length ≤ m.dst.length :=
  packet2bytary_fits m.argList (Variant.allFilled m.whole) m.length_dst m.encoded

-- The bytes of the buffer that are not needed.
def pad (m : Message host) : List UInt8 :=
  List.replicate (m.dst.length - (16 + (m.args.flatMap (Variant.argument host)).length)) 0

theorem bytes_eq (m : Message host) : m.bytes =
    frame m.packet.serial m.packet.reserv m.packet.id (Variant.allSent host m.args) m.pad := by
  have hf := Variant.allFilled m.whole
  have h := packet2bytary_filled m.argList hf (Nat.add_sub_cancel' m.length_le).symm m.length_dst
  have he : m.bytes = _ := congrArg Prod.snd (Except.ok.inj (m.encoded.symm.trans h))
  rw [he, BcapPacket.bytes, frame, Variant.arguments_sent host hf, m.argc_eq, pad,
    List.length_replicate]

theorem length_lt (m : Message host) : m.bytes.length < 4294967296 := by
  have hle := m.length_le
  rw [m.bytes_eq, length_frame, Variant.arguments_sent host (Variant.allFilled m.whole), pad,
    List.length_replicate, Nat.add_sub_cancel' hle]
  exact m.length_dst

theorem wellFramed (m : Message host) : wellFramed m.bytes := by
  have hl := m.length_lt
  rw [m.bytes_eq] at hl ⊢
  exact wellFramed_frame hl

end Message

section

variable (size : Nat → Nat) {host : Host} {g rest : List UInt8} {s : Tcp}

end

section

variable {host : Host}

end

end Bcap
