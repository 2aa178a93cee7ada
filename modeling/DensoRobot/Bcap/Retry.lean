import DensoRobot.Bcap.Client
import DensoRobot.Bcap.Receiver

open HRESULT

-- A client and a server that are connected by UDP or COM. A packet that is sent may be lost, but no
-- packet overtakes another one.
namespace Bcap.Retry

inductive Line
  | udp
  | com
  deriving DecidableEq

-- What is read of a request to decide about it, and the number of the call that it is made for.
structure Request where
  serial : Nat
  reserv : Nat
  id     : Int
  call   : Nat
  deriving DecidableEq

structure Response where
  serial : Nat
  id     : HRESULT
  deriving DecidableEq

-- A call of `send_receive` that waits for its response, with the number of attempts that are left.
structure Waiting where
  reserv : Nat
  serial : Nat
  id     : Int
  left   : Nat
  deriving DecidableEq

-- Why `receive_execute` responds to a request without passing it to `bcap_callfunc`.
inductive Refusal
  | maxConnect
  | busyProc
  | maxObject
  -- An option of `ID_SERVICE_START` is not accepted.
  | option (hr : HRESULT)

def Refusal.hr : Refusal → HRESULT
  | maxConnect => eMaxConnect
  | busyProc   => eBusyProc
  | maxObject  => eMaxObject
  | option hr  => hr

structure Session where
  serial    : Nat
  -- The number of calls that were made so far.
  calls     : Nat
  waiting   : Option Waiting
  -- The packets on the way, the oldest first.
  requests  : List Request
  responses : List Response
  -- The last response in the node for the client. A new node has one with the serial number 0.
  lastSend  : Response
  -- The requests whose responses were copied to that node.
  recorded  : List Request
  -- The requests that `bcap_callfunc` was called for.
  executed  : List Request

inductive Act
  | call (retry : Nat) (id : Int)
  | expire
  | receive
  | loseRequest (i : Nat)
  | loseResponse (i : Nat)
  | serve (result : HRESULT) (notices : Nat)
  -- `receive_execute` does not wait for the callback any longer.
  | giveUp (notices : Nat)
  | refuse (refusal : Refusal)
  -- `check_lifelimit` destroys the node for the client.
  | forget

-- The response that `bcap_callfunc` prepares, where the callback returns `result`.
def bcapCallfunc (p : Request) (result : HRESULT) : Response where
  serial := p.serial
  id     := result

def effectiveReserv (p : Request) : Nat :=
  if p.reserv = 0 then p.serial else p.reserv

namespace Session

-- The serial number is 1 from the beginning, and the server has not sent anything.
def start : Session where
  serial    := 1
  calls     := 0
  waiting   := none
  requests  := []
  responses := []
  lastSend  := ⟨0, 0⟩
  recorded  := []
  executed  := []

section

variable (line : Line) (s : Session)

-- The next turn of the loop over the attempts, if there is one.
def attempt (reserv : Nat) (id : Int) : (left : Nat) → Session
  | 0        => { s with waiting := none }
  | left + 1 => { s with
    serial   := nextSerial s.serial
    waiting  := some ⟨reserv, s.serial, id, left⟩
    requests := s.requests ++ [⟨s.serial, reserv, id, s.calls⟩] }

def call (retry : Nat) (id : Int) : Session :=
  { s with calls := s.calls + 1 }.attempt s.serial id retry

def receive (w : Waiting) (r : Response) : Session :=
  if w.serial = r.serial ∧ r.id ≠ sExecuting then { s with waiting := none } else s

def forget : Session :=
  { s with
    lastSend := ⟨0, 0⟩
    recorded := [] }

-- The response is copied to the node for the client, which over UDP is destroyed if the request has
-- stopped the service. The next request from this client gets a new one.
def record (p : Request) (r : Response) : Session :=
  if line = .udp ∧ p.id = idServiceStop ∧ r.id = sOk then s.forget
  else { s with
    lastSend := r
    recorded := s.recorded ++ [p] }

def send (r : Response) : Session :=
  { s with responses := s.responses ++ [r] }

-- The last response is repeated, under the serial number of the request.
def respond (p : Request) : Session :=
  s.send { s.lastSend with serial := p.serial }

-- The callback is run, and the client is told a number of times that it is executing.
def execute (p : Request) (notices : Nat) : Session :=
  { s with
    responses := s.responses ++ List.replicate notices ⟨p.serial, sExecuting⟩
    executed  := s.executed ++ [p] }

-- `receive_execute`, whose callback returns `result` before the timeout for it.
def receiveExecute (p : Request) (result : HRESULT) (notices : Nat) : Session :=
  if s.lastSend.serial = effectiveReserv p then s.respond p
  else ((s.execute p notices).send (bcapCallfunc p result)).record line p (bcapCallfunc p result)

-- Whether `receive_execute` may refuse a request.
def Refuses (p : Request) : Refusal → Prop
  | .maxConnect => line = .udp ∧ s.lastSend.serial = 0
  | .busyProc   => s.lastSend.serial ≠ effectiveReserv p
  | .maxObject  => s.lastSend.serial ≠ effectiveReserv p ∧ p.id ∈ creatingIds
  | .option hr  => s.lastSend.serial ≠ effectiveReserv p ∧ p.id = idServiceStart ∧ Failed hr

def refuse (p : Request) (refusal : Refusal) : Session :=
  s.send ⟨p.serial, refusal.hr⟩

end

inductive Step (line : Line) : Session → Act → Session → Prop
  | call {id : Int} : s.waiting = none → Step line s (.call retry id) (s.call retry id)
  | expire : s.waiting = some w → Step line s .expire (s.attempt w.reserv w.id w.left)
  | receive : s.waiting = some w → s.responses = r :: rs →
      Step line s .receive ({ s with responses := rs }.receive w r)
  | loseRequest : Step line s (.loseRequest i) { s with requests := s.requests.eraseIdx i }
  | loseResponse : Step line s (.loseResponse i) { s with responses := s.responses.eraseIdx i }
  | serve : s.requests = p :: ps →
      Step line s (.serve result notices)
        ({ s with requests := ps }.receiveExecute line p result notices)
  -- Over COM `bcap_callfunc` writes the response where it is looked for, so that it is not lost
  -- then.
  | giveUp : line = .udp → s.requests = p :: ps → s.lastSend.serial ≠ effectiveReserv p →
      Step line s (.giveUp notices) ({ s with requests := ps }.execute p notices)
  | refuse : s.requests = p :: ps → s.Refuses line p refusal →
      Step line s (.refuse refusal) ({ s with requests := ps }.refuse p refusal)
  | forget : line = .udp → Step line s .forget s.forget

end Session
end Bcap.Retry
