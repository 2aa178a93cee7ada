import DensoRobot.Bcap.Client

open HRESULT

namespace Bcap

-- What a call of `send_receive` is given, and the state that the connection is in by then.
structure Call (σ : Type) where
  packetSend : BcapPacket
  packetRecv : BcapPacket
  next       : Nat
  state      : σ

inductive Request (σ : Type)
  | setRetry (retry : Nat)
  | call (c : Call σ)

section

variable (host : Host) (fuel : Nat) (port : Port σ)

-- The packets that the loop over the attempts hands to `bcap_send`.
def attempted (packetSend : BcapPacket) : (retry : Nat) → Client → (packetRecv : BcapPacket) →
    (next : Nat) → σ → List BcapPacket
  | 0,         _,      _,          _,    _     => []
  | retry + 1, client, packetRecv, next, state =>
    { packetSend with serial := client.serial } ::
      match attempt host fuel port packetSend client packetRecv next state with
      | .error _ => []
      | .ok a    =>
        if a.again then attempted packetSend retry a.client a.packetRecv a.next a.state else []

-- Those of `send_receive`.
def Call.sent (client : Client) (c : Call σ) : List BcapPacket :=
  attempted host fuel port
    { c.packetSend with reserv := if port.type = .tcp then 0 else client.serial }
      client.retry client
    { c.packetRecv with id := eFail } c.next c.state

-- Those of each call on a connection, the last of which may not return.
def sent (client : Client) : List (Request σ) → List (List BcapPacket)
  | []                       => []
  | .setRetry retry :: ops   => sent { client with retry := bCapSetRetry port.type retry } ops
  | .call c         :: ops   =>
    c.sent host fuel port client ::
      match sendReceive host fuel port client c.packetSend c.packetRecv c.next c.state with
      | .error _               => []
      | .ok (_, client, _)     => sent client ops

end
end Bcap
