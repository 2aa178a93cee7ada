import DensoRobot.Bcap.Channel
import DensoRobot.Bcap.Theorems.Finish
import DensoRobot.Bcap.Theorems.Reply

open HRESULT Bytes

namespace Bcap

-- A packet that a connection of the given type may carry.
structure Sound (type : ConnType) (f : List UInt8) : Prop where
  framed : wellFramed f
  min    : lenMin type ≤ f.length
  max    : f.length ≤ lenMax type
  crc    : type = .com → crcMatches f

theorem Sound.length_lt {type : ConnType} {f : List UInt8} (h : Sound type f) :
    f.length < 4294967296 := by
  have hm := h.max
  cases type
  case tcp       => exact Nat.lt_succ_of_le hm
  case udp | com => exact Nat.lt_of_le_of_lt hm (by decide)

-- A UDP client listens to the address `addr` only.
def Listens (type : ConnType) (addr : Nat) (client : Bool) (arg : Nat) : Prop :=
  client = true → type = .udp → arg = addr

section

variable {host : Host}

end

end Bcap
