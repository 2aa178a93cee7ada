import DensoRobot.Bcap.Theorems.Com

open HRESULT Bytes

namespace Bcap

namespace ComFrame

def argc (f : ComFrame) : Nat :=
  announced f.bytes

-- The receiver gets the packet of the frame if it receives nothing else.
structure Receivable (host : Host) (q : BcapPacket) (f : ComFrame) : Prop where
  crc      : crcMatches f.bytes
  argc_le  : f.argc ≤ q.argc
  complete : Complete host f.bytes

-- Frames are rejected one after the other, each of which can be received into the packet that the
-- previous one has left behind.
structure Harmless (host : Host) (q : BcapPacket) (bads : List ComFrame) (f : ComFrame) : Prop where
  complete : ∀ b ∈ bads, Complete host b.bytes
  argc_le  : (q.argc :: (bads ++ [f]).map argc).IsChain (· ≥ ·)

end ComFrame

section

variable (client : Bool) {host : Host} {f : ComFrame} {bads : List ComFrame} {q : BcapPacket}
variable {rest : List (List UInt8)} {fuel : Nat} {l : Link (List (List UInt8))}

end

end Bcap
