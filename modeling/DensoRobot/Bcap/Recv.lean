import DensoRobot.Bcap.Decode
import DensoRobot.Bcap.Send

open HRESULT Bytes

namespace Bcap

-- What a call of `dn_recv` does. In case of success it stores `bytes` and their number, otherwise
-- `len` is the number that it stores, if any.
-- `addr` is the sender of a datagram.
inductive Delivery
  | ok (bytes : List UInt8) (addr : Nat)
  | fail (hr : HRESULT) (len : Option Nat)

-- A connection of a given type, with states in `σ`.
-- Data that is received with `MSG_PEEK` is received again.
structure Device (σ : Type) where
  type   : ConnType
  dnRecv : (len : Nat) → (peek : Bool) → σ → Delivery × σ

-- The connection during `bcap_recv`: its state, the address `*device->arg`, the variable
-- `flag_init`, and the number of the next block of memory.
structure Link (σ : Type) where
  state    : σ
  arg      : Nat
  flagInit : Bool
  next     : Nat

def lenMin : ConnType → Nat
  | .tcp | .udp => bcapSizeMin
  | .com        => bcapSizeMin + bcapSizeCrc

section

variable (dev : Device σ) (client : Bool)

-- Calls `dn_recv` and ignores what it returns.
def discard (len : Nat) (l : Link σ) : Link σ :=
  { l with state := (dev.dnRecv len false l.state).2 }

def udpCheckSockaddr (sockTo : Nat) : Delivery → Delivery
  | .ok bytes addr    => if sockTo = addr then .ok bytes addr else .fail eAccessDenied none
  | .fail hr len      => .fail hr len

-- Calls `dn_recv` while a header is looked for.
-- The server takes the address of the first datagram.
def recvHead (len : Nat) (l : Link σ) : Delivery × Link σ :=
  let (d, state) := dev.dnRecv len true l.state
  let l := { l with state }
  if dev.type = .udp then
    if client || l.flagInit then
      (udpCheckSockaddr l.arg d, l)
    else
      match d with
      | .ok _ addr => (d, { l with flagInit := true, arg := addr })
      | .fail _ _  => (d, { l with flagInit := true })
  else
    (d, l)

-- Calls `dn_recv` for the rest of a packet.
def recvRest (len : Nat) (l : Link σ) : Delivery × Link σ :=
  let (d, state) := dev.dnRecv len false l.state
  (if dev.type = .udp then udpCheckSockaddr l.arg d else d, { l with state })

-- Moves the first header of `buf_tmp` to its start. The overlapping `memcpy` is taken for a
-- `memmove`.
def skip (held : List UInt8) (l : Link σ) : List UInt8 × Link σ :=
  let rest := held.dropWhile (· ≠ bcapHeader)
  if dev.type = .tcp ∧ held.head? ≠ some bcapHeader then
    (rest, discard dev (held.length - rest.length) l)
  else
    (rest, l)

-- The inner loop, where `held` are the first `len_recved` bytes of `buf_tmp`.
def seek : (fuel : Nat) → (held : List UInt8) → Link σ → Exec (Except HRESULT (List UInt8) × Link σ)
  | 0,        _,    _ => throw .fuel
  | fuel + 1, held, l =>
    let (held, l) := skip dev held l
    if bcapSizeHeader + bcapSizeLen ≤ held.length then
      pure (.ok held, l)
    else
      let held := if dev.type = .tcp then [] else held
      match recvHead dev client (udpMaxPacket - held.length) l with
      | (.fail hr _,  l) => pure (.error hr, l)
      | (.ok bytes _, l) => seek fuel (held ++ bytes) l

-- The first bytes of `buf_recv`. With `CONN_TCP` the result of `dn_recv` is ignored, so that the
-- bytes that were peeked at may count as received even though `buf_recv` does not hold them.
def start (lenRecv : Nat) (held : List UInt8) (l : Link σ) : Exec (List UInt8 × Link σ) :=
  if dev.type = .tcp then
    match dev.dnRecv lenRecv false l.state with
    | (.ok bytes _,      state) => pure (bytes, { l with state })
    | (.fail _ (some 0), state) => pure ([], { l with state })
    | (.fail _ _,        _)     => throw .uninit
  else
    pure (held, l)

-- The loop that receives the rest of a packet.
def fill (lenRecv : Nat) : (fuel : Nat) → (buf : List UInt8) → Link σ →
    Exec (Except HRESULT (List UInt8) × Link σ)
  | 0,        _,   _ => throw .fuel
  | fuel + 1, buf, l =>
    if lenRecv ≤ buf.length then
      pure (.ok (buf.take lenRecv), l)
    else
      match recvRest dev (lenRecv - buf.length) l with
      | (.fail hr _,  l) => pure (.error hr, l)
      | (.ok bytes _, l) => fill lenRecv fuel (buf ++ bytes) l

-- Whether the CRC in a packet is the one of the packet.
def crcMatches (buf : List UInt8) : Bool :=
  toLe 2 (calcCrc <| buf.window bcapPosLen (bcapSizeCalcCrc buf.length)).toNat ==
    buf.window (bcapPosCrc buf.length) bcapSizeCrc

-- The outer loop.
def recvLoop (host : Host) : (fuel : Nat) → BcapPacket → Link σ →
    Exec (HRESULT × BcapPacket × Link σ)
  | 0,        _,      _ => throw .fuel
  | fuel + 1, packet, l => do
    match ← seek dev client fuel [] l with
    | (.error hr, l) => return (hr, packet, l)
    | (.ok held,  l) =>
      let lenRecv := ofLe (held.window bcapPosLen bcapSizeLen)
      if lenRecv < lenMin dev.type ∨ lenMax dev.type < lenRecv then
        let l := if dev.type = .tcp then discard dev bcapSizeHeader l else l
        recvLoop host fuel packet l
      else
        match host.alloc l.next with
        | (none,   next) => return (eOutOfMemory, packet, { l with next })
        | (some _, next) =>
          let (buf, l) ← start dev lenRecv held { l with next }
          match ← fill dev lenRecv fuel buf l with
          | (.error hr, l) => return (hr, packet, l)
          | (.ok buf,   l) =>
            let r ← bytary2packet host buf packet l.next
            let l := { l with next := r.next }
            if ¬Failed r.hr ∧ dev.type = .com ∧ !crcMatches buf then
              recvLoop host fuel r.packet l
            else
              return (r.hr, r.packet, l)

-- The parameters have been checked, and `arg` is `*device->arg`.
def bcapRecv (host : Host) (fuel : Nat) (packet : BcapPacket) (arg next : Nat) (state : σ) :
    Exec (HRESULT × BcapPacket × Link σ) :=
  recvLoop dev client host fuel packet ⟨state, arg, false, next⟩

end
end Bcap
