import DensoRobot.Lib.Bytes
import DensoRobot.Common.Variant

namespace Bcap

def bcapHeader     : UInt8 := 0x01
def bcapTerminator : UInt8 := 0x04

def bcapSizeHeader  : Nat := 1
def bcapSizeLen     : Nat := 4
def bcapSizeMin     : Nat := 16
def bcapSizeDataLen : Nat := 4
def bcapSizeCrc     : Nat := 2
def bcapPosLen      : Nat := 1
def bcapPosSerial   : Nat := 5
def bcapPosReserve  : Nat := 7
def bcapPosId       : Nat := 9
def bcapPosArgc     : Nat := 13
def bcapPosDataLen  : Nat := 15
def udpMaxPacket    : Nat := 503

def bcapPosCrc (totalSize : Nat) : Nat :=
  totalSize - 3

def bcapSizeCalcCrc (totalSize : Nat) : Nat :=
  totalSize - 4

-- The array that `BCAP_PACKET.args` points to. A slot is `none` until a variant is written to it.
structure Args where
  addr  : Nat
  slots : List (Option Variant)

structure BcapPacket where
  serial : Nat
  reserv : Nat
  id     : Int
  argc   : Nat
  args   : Option Args

-- `(uint16_t) -1`, with which a receiver asks for arguments that are allocated by the system.
def argcAuto : Nat := 65535

def readSlots : List (Option Variant) → Exec (List Variant)
  | []              => pure []
  | none :: _       => throw .uninit
  | some v :: slots => do return v :: (← readSlots slots)

@[simp]
theorem readSlots_map_some (vs : List Variant) : readSlots (vs.map some) = .ok vs := by
  induction vs
  case nil          => rfl
  case cons v vs ih => simp [readSlots, ih]

-- The arguments of a packet as they are read.
def BcapPacket.argList (p : BcapPacket) : Exec (List Variant) :=
  match p.args with
  | none      => if p.argc = 0 then pure [] else throw .read
  | some args =>
      if p.argc ≤ args.slots.length then readSlots (args.slots.take p.argc) else throw .read

-- The blocks of memory that are released when a packet is cleaned up.
def BcapPacket.clearArgs (p : BcapPacket) : Exec (List Nat) :=
  match p.args with
  | none      => pure []
  | some args => do return (← variantsClear (← p.argList)) ++ [args.addr]

-- The fields of a packet lie in the range of their types.
structure BcapPacket.InRange (p : BcapPacket) : Prop where
  serial : p.serial < 65536
  reserv : p.reserv < 65536
  id_ge  : -2147483648 ≤ p.id
  id_lt  : p.id < 2147483648
  argc   : p.argc < 65536

-- A packet whose arguments are the given variants.
def BcapPacket.ofArgs (serial reserv : Nat) (id : Int) (addr : Nat) (args : List Variant) :
    BcapPacket where
  serial := serial
  reserv := reserv
  id     := id
  argc   := args.length
  args   := some ⟨addr, args.map some⟩

@[simp]
theorem BcapPacket.argList_ofArgs (serial reserv : Nat) (id : Int) (addr : Nat)
    (args : List Variant) : (ofArgs serial reserv id addr args).argList = .ok args := by
  simp [argList, ofArgs, ← List.map_take]

end Bcap
