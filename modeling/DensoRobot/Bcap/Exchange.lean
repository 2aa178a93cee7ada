import DensoRobot.Bcap.Retry

open HRESULT

-- A session in which each packet tells the attempt that it belongs to, and the responses carry
-- arguments.
namespace Bcap.Retry

-- An attempt of a call and the first one of that call. Attempts are counted from 0.
structure Attempt where
  call  : Nat
  first : Nat
  index : Nat
  id    : Int
  deriving DecidableEq

-- What the callback leaves in the response.
structure Result (α : Type) where
  id   : HRESULT
  args : List α
  deriving DecidableEq

structure Reply (α : Type) where
  attempt : Attempt
  result  : Result α
  deriving DecidableEq

structure Exchange (α : Type) where
  attempts  : List Attempt
  calls     : Nat
  -- The attempt whose response is waited for, and the number of attempts that are left.
  waiting   : Option (Attempt × Nat)
  requests  : List Attempt
  responses : List (Reply α)
  lastSend  : Option (Reply α)
  recorded  : List Attempt
  -- What the callbacks have left, and the attempts that were refused, with the responses to them.
  executed  : List (Reply α)
  refused   : List (Reply α)
  -- The calls with what they have returned.
  returned  : List (Nat × Result α)

-- The serial number of an attempt.
def serialOf (index : Nat) : Nat :=
  nextSerial^[index] 1

def Attempt.toRequest (a : Attempt) : Request where
  serial := serialOf a.index
  reserv := serialOf a.first
  id     := a.id
  call   := a.call

def Reply.toResponse (r : Reply α) : Response where
  serial := serialOf r.attempt.index
  id     := r.result.id

namespace Exchange

def start : Exchange α where
  attempts  := []
  calls     := 0
  waiting   := none
  requests  := []
  responses := []
  lastSend  := none
  recorded  := []
  executed  := []
  refused   := []
  returned  := []

inductive Act (α : Type)
  | call (retry : Nat) (id : Int)
  | expire
  | receive
  | loseRequest (i : Nat)
  | loseResponse (i : Nat)
  | serve (result : Result α) (notices : Nat)
  | giveUp (result : Result α) (notices : Nat)
  | refuse (refusal : Refusal)
  | forget

def Act.toAct : Act α → Retry.Act
  | .call retry id        => .call retry id
  | .expire               => .expire
  | .receive              => .receive
  | .loseRequest i        => .loseRequest i
  | .loseResponse i       => .loseResponse i
  | .serve result notices => .serve result.id notices
  | .giveUp _ notices     => .giveUp notices
  | .refuse refusal       => .refuse refusal
  | .forget               => .forget

section

variable (line : Line) (e : Exchange α)

-- What the session is without the attempts and the arguments.
def toSession : Session where
  serial    := serialOf e.attempts.length
  calls     := e.calls
  waiting   := e.waiting.map fun (w, left) => ⟨serialOf w.first, serialOf w.index, w.id, left⟩
  requests  := e.requests.map Attempt.toRequest
  responses := e.responses.map Reply.toResponse
  lastSend  := (e.lastSend.map Reply.toResponse).getD ⟨0, 0⟩
  recorded  := e.recorded.map Attempt.toRequest
  executed  := e.executed.map fun x => x.attempt.toRequest

def attempt (first : Nat) (id : Int) : (left : Nat) → Exchange α
  | 0        => { e with waiting := none }
  | left + 1 =>
    let a : Attempt := ⟨e.calls, first, e.attempts.length, id⟩
    { e with
      attempts := e.attempts ++ [a]
      waiting  := some (a, left)
      requests := e.requests ++ [a] }

def call (retry : Nat) (id : Int) : Exchange α :=
  { e with calls := e.calls + 1 }.attempt e.attempts.length id retry

-- The call returns what the response carries.
def receive (w : Attempt) (r : Reply α) : Exchange α :=
  if serialOf w.index = serialOf r.attempt.index ∧ r.result.id ≠ sExecuting then
    { e with
      waiting  := none
      returned := e.returned ++ [(w.call, r.result)] }
  else e

def forget : Exchange α :=
  { e with
    lastSend := none
    recorded := [] }

def record (r : Reply α) : Exchange α :=
  if line = .udp ∧ r.attempt.id = idServiceStop ∧ r.result.id = sOk then e.forget
  else { e with
    lastSend := some r
    recorded := e.recorded ++ [r.attempt] }

def send (r : Reply α) : Exchange α :=
  { e with responses := e.responses ++ [r] }

-- The callback leaves `r`.
def execute (r : Reply α) (notices : Nat) : Exchange α :=
  { e with
    responses := e.responses ++ List.replicate notices ⟨r.attempt, ⟨sExecuting, []⟩⟩
    executed  := e.executed ++ [r] }

-- What was sent last, if that is taken for the response to the given request.
def answered (p : Attempt) : Option (Result α) :=
  (e.lastSend.filter fun l => serialOf l.attempt.index = serialOf p.first).map Reply.result

def receiveExecute (p : Attempt) (result : Result α) (notices : Nat) : Exchange α :=
  match e.answered p with
  | some last => e.send ⟨p, last⟩
  | none      => ((e.execute ⟨p, result⟩ notices).send ⟨p, result⟩).record line ⟨p, result⟩

def Refuses (p : Attempt) : Refusal → Prop
  | .maxConnect => line = .udp ∧ e.lastSend = none
  | .busyProc   => e.answered p = none
  | .maxObject  => e.answered p = none ∧ p.id ∈ creatingIds
  | .option hr  => e.answered p = none ∧ p.id = idServiceStart ∧ Failed hr

def refuse (p : Attempt) (refusal : Refusal) : Exchange α :=
  let r : Reply α := ⟨p, ⟨refusal.hr, []⟩⟩
  { e with refused := e.refused ++ [r] }.send r

end

inductive Step (line : Line) : Exchange α → Act α → Exchange α → Prop
  | call {e : Exchange α} {retry : Nat} {id : Int} :
      e.waiting = none → Step line e (.call retry id) (e.call retry id)
  | expire {e : Exchange α} {w : Attempt} {left : Nat} :
      e.waiting = some (w, left) → Step line e .expire (e.attempt w.first w.id left)
  | receive {e : Exchange α} {w : Attempt} {left : Nat} {r : Reply α} {rs : List (Reply α)} :
      e.waiting = some (w, left) → e.responses = r :: rs →
      Step line e .receive ({ e with responses := rs }.receive w r)
  | loseRequest {e : Exchange α} {i : Nat} :
      Step line e (.loseRequest i) { e with requests := e.requests.eraseIdx i }
  | loseResponse {e : Exchange α} {i : Nat} :
      Step line e (.loseResponse i) { e with responses := e.responses.eraseIdx i }
  | serve {e : Exchange α} {p : Attempt} {ps : List Attempt} {result : Result α} {notices : Nat} :
      e.requests = p :: ps →
      Step line e (.serve result notices)
        ({ e with requests := ps }.receiveExecute line p result notices)
  | giveUp {e : Exchange α} {p : Attempt} {ps : List Attempt} {result : Result α} {notices : Nat} :
      line = .udp → e.requests = p :: ps → e.answered p = none →
      Step line e (.giveUp result notices) ({ e with requests := ps }.execute ⟨p, result⟩ notices)
  | refuse {e : Exchange α} {p : Attempt} {ps : List Attempt} {refusal : Refusal} :
      e.requests = p :: ps → e.Refuses line p refusal →
      Step line e (.refuse refusal) ({ e with requests := ps }.refuse p refusal)
  | forget {e : Exchange α} : line = .udp → Step line e .forget e.forget

end Exchange
end Bcap.Retry
