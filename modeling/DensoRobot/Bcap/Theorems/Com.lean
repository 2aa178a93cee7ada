import DensoRobot.Bcap.Transport
import DensoRobot.Bcap.Theorems.Header
import DensoRobot.Bcap.Theorems.Reception

open HRESULT Bytes

namespace Bcap

-- A frame that can be sent on a serial line.
structure FitsLine (f : List UInt8) : Prop where
  framed : wellFramed f
  min    : lenMin .com ≤ f.length
  max    : f.length ≤ lenMax .com

theorem FitsLine.length_lt {f : List UInt8} (h : FitsLine f) : f.length < 4294967296 :=
  Nat.lt_of_le_of_lt h.max (by decide)

-- A frame and the reads that bring it.
structure ComFrame where
  reads  : List (List UInt8)
  proper : [] ∉ reads
  fits   : FitsLine reads.flatten

def ComFrame.bytes (f : ComFrame) : List UInt8 :=
  f.reads.flatten

-- What is left of a read, if no frame starts with it.
def keep (held r : List UInt8) : List UInt8 :=
  let rest := (held ++ r).dropWhile (· ≠ bcapHeader)
  if bcapSizeHeader + bcapSizeLen ≤ rest.length then [] else rest

-- The reads bring at least one byte each, and no more than there is room for.
def Fit : (held : List UInt8) → (reads : List (List UInt8)) → Prop
  | _,    []         => True
  | held, r :: reads => r ≠ [] ∧ held.length + r.length ≤ udpMaxPacket ∧ Fit (keep held r) reads

section

variable (client : Bool) {f held : List UInt8} {reads rest : List (List UInt8)}

end

section

variable (client : Bool) {host : Host} (q : BcapPacket) {rest : List (List UInt8)}

end
end Bcap
