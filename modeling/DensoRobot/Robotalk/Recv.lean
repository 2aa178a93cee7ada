import DensoRobot.Robotalk.Packet

open HRESULT Bytes Bcap

namespace Robotalk

section

variable (host : Host) (port : Port σ) (client : Bool)

-- Calls `dn_recv` while a header is looked for.
-- The server takes the address of the first datagram.
def recvHead (len : Nat) (l : Link σ) : Delivery × Link σ :=
  let (d, state) := port.dnRecv len false l.state
  let l := { l with state }
  if port.type = .udp then
    if client || l.flagInit then
      (udpCheckSockaddr l.arg d, l)
    else
      match d with
      | .ok _ addr => (d, { l with flagInit := true, arg := addr })
      | .fail _ _  => (d, { l with flagInit := true })
  else
    (d, l)

-- The inner loop, where `held` are the first `len_recved` bytes of `buf_tmp`. The overlapping
-- `memcpy` is taken for a `memmove`.
def seek : (fuel : Nat) → (held : List UInt8) → Link σ → Exec (Except HRESULT (List UInt8) × Link σ)
  | 0,        _,    _ => throw .fuel
  | fuel + 1, held, l =>
    let held := held.dropWhile (· ≠ rtkEnq)
    if rtkSizeHeader + rtkSizeCrc ≤ held.length then
      pure (.ok held, l)
    else
      match recvHead port client (udpMaxPacket - held.length) l with
      | (.fail hr _,  l) => pure (.error hr, l)
      | (.ok bytes _, l) => seek fuel (held ++ bytes) l

-- The loop that receives the rest of a packet, where `buf` are the bytes of `packet_recv->buf` that
-- have been received. With it comes the failure, if there is one.
def fill (lenRecv : Nat) : (fuel : Nat) → (buf : List UInt8) → Link σ →
    Exec (Option HRESULT × List UInt8 × Link σ)
  | 0,        _,   _ => throw .fuel
  | fuel + 1, buf, l =>
    if lenRecv ≤ buf.length then
      pure (none, buf, l)
    else
      match recvRest port.toDevice (lenRecv - buf.length) l with
      | (.fail hr _,  l) => pure (some hr, buf, l)
      | (.ok bytes _, l) => fill lenRecv fuel (buf ++ bytes) l

-- Whether the checksum in a packet is the one of the packet.
def crcMatches (packet : RtkPacket) : Bool :=
  packet.buf.window (rtkSizeHeader + packet.len) rtkSizeCrc == crcBytes packet

-- Orders the command to the host's endian.
def RtkPacket.swapCommand (packet : RtkPacket) : RtkPacket :=
  packet.write rtkPosCommand <| memcpyBe (packet.buf.window rtkPosCommand rtkSizeCommand)

-- The outer loop, where `hr` is the result so far.
-- A header with too large a length makes it continue with `hr` as `dn_recv` set it.
def rounds (retryNak : Nat) :
    (fuel : Nat) → (retryCnt : Nat) → (hr : HRESULT) → RtkPacket → Link σ →
    Exec (HRESULT × RtkPacket × Link σ)
  | 0,        _,        _,  _,      _ => throw .fuel
  | fuel + 1, retryCnt, hr, packet, l => do
    if retryNak < retryCnt then
      return (hr, packet, l)
    match ← seek port client fuel [] l with
    | (.error hr, l) => return (hr, packet, l)
    | (.ok held,  l) =>
      let lenRecv := rtkSizeHeader + rtkSizeCrc + (RtkPacket.mk held).len
      if rtkSizePacket < lenRecv then
        rounds retryNak fuel (u32 (retryCnt + 1)) sOk packet l
      else
        let (failure, buf, l) ← fill port lenRecv fuel (held.take lenRecv) l
        let packet := packet.write 0 buf
        match failure with
        | some hr => return (hr, packet, l)
        | none    =>
          if crcMatches packet then
            return (sOk, packet.swapCommand, l)
          let (hr, l) := rtkSendNak host port packet.fromId packet.toId l
          if Succeeded hr then
            let hr := if retryCnt = retryNak then eInvalidPacket else hr
            rounds retryNak fuel (u32 (retryCnt + 1)) hr packet l
          else
            return (hr, packet.swapCommand, l)

-- The parameters other than the type have been checked, and `arg` is `*device->arg`.
def rtkRecv (fuel retryNak : Nat) (packetRecv : RtkPacket) (arg next : Nat) (state : σ) :
    Exec (HRESULT × RtkPacket × Link σ) :=
  let l := ⟨state, arg, false, next⟩
  if port.type = .tcp then
    return (eInvalidArg, packetRecv, l)
  else
    rounds host port client retryNak fuel 0 sOk packetRecv l

end

-- A line that delivers the given reads, in which a call that asks for less leaves the rest to the
-- next one, and that keeps what is sent.
structure Line where
  reads : List (List UInt8)
  sent  : List (List UInt8)

-- `addr` is the address of the other side, and `sending` tells the result of the `n`-th call of
-- `dn_send`.
def linePort (type : ConnType) (addr : Nat) (sending : Nat → HRESULT) : Port Line where
  type := type
  dnRecv len _ line :=
    match line.reads with
    | []         => (.fail eTimeout none, line)
    | r :: reads =>
      if r.length ≤ len then (.ok r addr, { line with reads })
      else (.ok (r.take len) addr, { line with reads := r.drop len :: reads })
  dnSend bytes line := (sending line.sent.length, { line with sent := line.sent ++ [bytes] })

end Robotalk
