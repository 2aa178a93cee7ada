import DensoRobot.Bcap.Encode
import DensoRobot.Device.ConnParam

open HRESULT Bytes

namespace Bcap

-- The body of the inner loop of `bcap_calc_crc`.
def crcShift (crc : UInt16) : UInt16 :=
  if crc &&& 0x8000 ≠ 0 then (crc <<< 1) ^^^ 0x1021 else crc <<< 1

def crcByte (crc : UInt16) (b : UInt8) : UInt16 :=
  Nat.repeat crcShift 8 (crc ^^^ (b.toUInt16 <<< 8))

def calcCrc (buf : List UInt8) : UInt16 :=
  buf.foldl crcByte 0xFFFF

-- Fills the CRC slot of a packet.
def putCrc (buf : List UInt8) (crc : UInt16) : List UInt8 :=
  buf.splice (bcapPosCrc buf.length) (toLe 2 crc.toNat)

def lenMax : ConnType → Nat
  | .tcp        => 4294967295
  | .udp | .com => udpMaxPacket

-- The number of bytes that a packet takes on a connection.
def lenSend (type : ConnType) (packet : BcapPacket) : Exec Nat := do
  let len ← calcSizePacket packet
  return if type = .com then u32 (len + bcapSizeCrc) else len

-- The part of `bcap_send` that prepares the bytes for `dn_send`.
def sendBytes (host : Host) (type : ConnType) (packet : BcapPacket) :
    Exec (HRESULT × List UInt8) := do
  let lenSend ← lenSend type packet
  if lenMax type < lenSend then
    return (eTooMuchData, [])
  -- The content of `buf_send` does not matter, as it is filled with zeros.
  let (hr, buf) ← packet2bytary host packet (List.replicate lenSend 0)
  if Failed hr then
    return (hr, buf)
  if type = .com then
    return (hr, putCrc buf (calcCrc <| buf.window bcapPosLen (bcapSizeCalcCrc lenSend)))
  else
    return (hr, buf)

end Bcap
