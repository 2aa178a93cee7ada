import DensoRobot.Bcap.Client

open HRESULT Bytes Bcap

namespace Robotalk

def rtkEnq         : UInt8 := 0x05
def rtkCmdNak      : Nat := 0x0E82
def rtkSizePacket  : Nat := 256
def rtkSizeHeader  : Nat := 6
def rtkSizeCommand : Nat := 2
def rtkSizeCrc     : Nat := 2

def rtkSizeData : Nat :=
  rtkSizePacket - rtkSizeHeader

def rtkPosLen     : Nat := 1
def rtkPosCommand : Nat := 2
def rtkPosFromId  : Nat := 4
def rtkPosToId    : Nat := 5

-- `RTK_PACKET`, by the buffer of its union.
structure RtkPacket where
  buf : List UInt8

namespace RtkPacket

variable (p : RtkPacket)

def enq : UInt8 :=
  p.buf.getD 0 0

def len : Nat :=
  (p.buf.getD rtkPosLen 0).toNat

def command : Nat :=
  ofLe (p.buf.window rtkPosCommand rtkSizeCommand)

def fromId : UInt8 :=
  p.buf.getD rtkPosFromId 0

def toId : UInt8 :=
  p.buf.getD rtkPosToId 0

-- The first `n` bytes of the data.
def data (n : Nat) : List UInt8 :=
  p.buf.window rtkSizeHeader n

def write (o : Nat) (bytes : List UInt8) : RtkPacket where
  buf := p.buf.splice o bytes

end RtkPacket

-- `memcpy_be` on a machine that stores numbers with the lowest byte first.
def memcpyBe (src : List UInt8) : List UInt8 :=
  src.reverse

def rtkParam2packet (command : Nat) (data : Option (List UInt8)) (lenData : Nat)
    (fromId toId : UInt8) (packet : RtkPacket) : HRESULT × RtkPacket :=
  if 0 < lenData ∧ data = none then
    (eInvalidArg, packet)
  else if rtkSizeData - rtkSizeCrc < lenData then
    (eInvalidArg, packet)
  else
    let packet := packet.write 0 <|
      [rtkEnq, UInt8.ofNat lenData] ++ memcpyBe (toLe rtkSizeCommand command) ++ [fromId, toId]
    (sOk, packet.write rtkSizeHeader <| (data.getD []).take lenData)

def rtkCalcCrc (packet : RtkPacket) : Nat :=
  let lenData :=
    if rtkSizeData - rtkSizeCrc < packet.len then rtkSizeData - rtkSizeCrc else packet.len
  (packet.buf.take (rtkSizeHeader + lenData)).foldl (fun crc b => u16 (crc + b.toNat)) 0

-- The checksum as it is transmitted.
def crcBytes (packet : RtkPacket) : List UInt8 :=
  memcpyBe (toLe rtkSizeCrc <| rtkCalcCrc packet)

section

variable (host : Host) (port : Port σ)

-- ROBOTalk runs over UDP and serial lines only.
def rtkSend (packetSend : RtkPacket) (state : σ) : HRESULT × RtkPacket × σ :=
  if port.type = .tcp then
    (eInvalidArg, packetSend, state)
  else
    let lenSend := rtkSizeHeader + rtkSizeCrc + packetSend.len
    if rtkSizePacket < lenSend then
      (eTooMuchData, packetSend, state)
    else
      let packetSend := packetSend.write (rtkSizeHeader + packetSend.len) (crcBytes packetSend)
      let (hr, state) := port.dnSend (packetSend.buf.take lenSend) state
      (hr, packetSend, state)

-- The content of the memory does not matter, as all of it is written to.
def rtkSendNak (fromId toId : UInt8) (l : Link σ) : HRESULT × Link σ :=
  match host.alloc l.next with
  | (none,   next) => (eOutOfMemory, { l with next })
  | (some _, next) =>
    let packet := ⟨List.replicate (rtkSizeHeader + rtkSizeCrc) 0⟩
    let (hr, packet) := rtkParam2packet rtkCmdNak none 0 fromId toId packet
    if Failed hr then
      (hr, { l with next })
    else
      let (hr, _, state) := rtkSend port packet l.state
      (hr, { l with next, state })

end
end Robotalk
