import DensoRobot.Bcap.Client
import DensoRobot.Bcap.Transport

open HRESULT

namespace Bcap

-- One direction of a connection. What is sent gets to the end that receives.
structure Channel (σ : Type) extends Device σ where
  put : (bytes : List UInt8) → σ → σ

def Channel.port (ch : Channel σ) : Port σ where
  toDevice     := ch.toDevice
  dnSend bytes := fun state => (sOk, ch.put bytes state)

-- A packet is sent at one end, or the other end receives one.
inductive Traffic
  | send (packet : BcapPacket)
  | recv

-- The results of sending and receiving, with the packets that were received. `client` tells which
-- end receives.
def carry (ch : Channel σ) (client : Bool) (host : Host) (fuel : Nat) : List Traffic →
    (arg next : Nat) → σ → Exec (List (HRESULT × Option BcapPacket) × σ)
  | [],                 _,   _,    state => pure ([], state)
  | .send packet :: ts, arg, next, state => do
    let (hr, state) ← bcapSend ch.port host packet state
    let (rs, state) ← carry ch client host fuel ts arg next state
    return ((hr, none) :: rs, state)
  | .recv :: ts,        arg, next, state => do
    let (hr, packet, l) ←
      bcapRecv ch.toDevice client host fuel ⟨0, 0, 0, argcAuto, none⟩ arg next state
    let (rs, state) ← carry ch client host fuel ts l.arg l.next l.state
    return ((hr, if Failed hr then none else some packet) :: rs, state)

-- Whether a packet is small enough for a connection.
def fits (type : ConnType) (packet : BcapPacket) : Bool :=
  match lenSend type packet with
  | .error _ => false
  | .ok len  => len ≤ lenMax type

-- The same with a queue of packets in place of the connection.
def enqueue (type : ConnType) : List Traffic → (queue : List BcapPacket) →
    List (HRESULT × Option BcapPacket)
  | [],                 _               => []
  | .send packet :: ts, queue           =>
    if fits type packet then (sOk, none) :: enqueue type ts (queue ++ [packet])
    else (eTooMuchData, none) :: enqueue type ts queue
  | .recv :: ts,        []              => (eTimeout, none) :: enqueue type ts []
  | .recv :: ts,        packet :: queue => (sOk, some packet) :: enqueue type ts queue

end Bcap
