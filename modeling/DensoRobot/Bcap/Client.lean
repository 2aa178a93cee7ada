import DensoRobot.Bcap.Recv

open HRESULT

namespace Bcap

-- A connection on which bytes can be sent as well.
structure Port (σ : Type) extends Device σ where
  dnSend : (bytes : List UInt8) → σ → HRESULT × σ

def bcapSend (port : Port σ) (host : Host) (packet : BcapPacket) (state : σ) :
    Exec (HRESULT × σ) := do
  let (hr, bytes) ← sendBytes host port.type packet
  if Failed hr then
    return (hr, state)
  return port.dnSend bytes state

-- `CONN_BCAP_CLIENT`, where `arg` is the address of the server.
structure Client where
  arg    : Nat
  retry  : Nat
  serial : Nat

-- bcap_param->serial++;
-- if (bcap_param->serial == 0) bcap_param->serial = 1;
def nextSerial (serial : Nat) : Nat :=
  if u16 (serial + 1) = 0 then 1 else u16 (serial + 1)

def retryMin : Nat := 1
def retryMax : Nat := 7

-- The number of attempts that `bCap_SetRetry` stores.
def bCapSetRetry (type : ConnType) (retry : Nat) : Nat :=
  match type with
  | .tcp        => 1
  | .udp | .com =>
      if retry < retryMin then retryMin else if retryMax < retry then retryMax else retry

theorem bCapSetRetry_idem (type : ConnType) (retry : Nat) :
    bCapSetRetry type (bCapSetRetry type retry) = bCapSetRetry type retry := by
  cases type <;> grind [bCapSetRetry, retryMin, retryMax]

section

variable (host : Host) (fuel : Nat)

-- Receives packets during one attempt until the one with the given serial number comes, other than
-- the server's notice that it is still executing.
def await (dev : Device σ) (arg serial : Nat) : (rounds : Nat) → BcapPacket → (next : Nat) → σ →
    Exec (HRESULT × BcapPacket × Nat × σ)
  | 0,          _,          _,    _     => throw .fuel
  | rounds + 1, packetRecv, next, state => do
    let (hr, packetRecv, l) ← bcapRecv dev true host fuel
      { packetRecv with argc := 1 } arg next state
    if Failed hr ∨ (serial = packetRecv.serial ∧ packetRecv.id ≠ sExecuting) then
      return (hr, packetRecv, l.next, l.state)
    else
      await dev arg serial rounds packetRecv l.next l.state

-- What an attempt comes to. Only one that was sent and not answered is followed by another one.
structure Attempted (σ : Type) where
  again      : Bool
  hr         : HRESULT
  client     : Client
  packetRecv : BcapPacket
  next       : Nat
  state      : σ

-- The body of the loop over the attempts.
def attempt (port : Port σ) (packetSend : BcapPacket) (client : Client) (packetRecv : BcapPacket)
    (next : Nat) (state : σ) : Exec (Attempted σ) := do
  let serial := client.serial
  let client := { client with serial := nextSerial serial }
  let (hr, state) ← bcapSend port host { packetSend with serial } state
  if Failed hr then
    return ⟨false, hr, client, packetRecv, next, state⟩
  let (hr, packetRecv, next, state) ←
    await host fuel port.toDevice client.arg serial fuel packetRecv next state
  return ⟨Failed hr, hr, client, packetRecv, next, state⟩

-- The loop over the attempts of `send_receive`, where `hr` is the result so far.
def attempts (port : Port σ) (packetSend : BcapPacket) : (retry : Nat) → Client → (hr : HRESULT) →
    (packetRecv : BcapPacket) → (next : Nat) → σ → Exec (HRESULT × Client × BcapPacket × σ)
  | 0,         client, hr, packetRecv, _,    state => return (hr, client, packetRecv, state)
  | retry + 1, client, _,  packetRecv, next, state => do
    let a ← attempt host fuel port packetSend client packetRecv next state
    if a.again then
      attempts port packetSend retry a.client a.hr a.packetRecv a.next a.state
    else
      return (a.hr, a.client, a.packetRecv, a.state)

-- The index has been checked, and the mutex is locked.
def sendReceive (port : Port σ) (client : Client) (packetSend packetRecv : BcapPacket) (next : Nat)
    (state : σ) : Exec (HRESULT × Client × BcapPacket × σ) := do
  let packetSend := { packetSend with reserv := if port.type = .tcp then 0 else client.serial }
  let packetRecv := { packetRecv with id := eFail }
  let (hr, client, packetRecv, state) ←
    attempts host fuel port packetSend client.retry client sOk packetRecv next state
  return (if Succeeded hr then packetRecv.id else hr, client, packetRecv, state)

end
end Bcap
