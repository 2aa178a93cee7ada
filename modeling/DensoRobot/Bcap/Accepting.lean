import DensoRobot.Bcap.Relation

open HRESULT

namespace Bcap

-- The accepting thread of a TCP server and the threads of its clients, which change the connection
-- tree under a mutex. Each step is one of a single thread.
namespace Accepting

-- Where `accept_thread` is. `last` tells whether the thread ends afterwards.
inductive Accept
  -- wait_event(&bcap_param->term_main_evt, 300)
  | waits
  -- tcp_accept(bcap_param->device.sock, &client)
  | accepts
  -- change_relation(bcap_param, ADD_CHILD, &client);
  | adds (client : Nat)
  -- change_relation(bcap_param, DELETE_CHILD, NULL);
  | deletes (last : Bool)
  -- The loop of `DELETE_CHILD`, before a node. The mutex is locked.
  | frees (last : Bool) (node : Option Nat)
  -- child = bcap_param->node1;
  | looks
  -- set_event((EVENT *) &child->term_main_evt);
  | tells (child : Nat)
  -- exit_thread(child->main_thread);
  | joins (child : Nat)
  | ended

-- Where the `recv_thread` of a node is.
inductive Client
  | absent
  | runs
  -- `bcap_recv` or a callback does not return any more.
  | stuck
  -- change_relation(bcap_param, DESTROY_SELF, NULL);
  | leaves
  | ended
  deriving DecidableEq

-- Whether the thread has begun and has not left the tree.
@[simp]
def Client.lives : Client → Bool
  | .runs | .stuck | .leaves => true
  | _                        => false

def Accept.locks : Accept → Bool
  | .frees _ _ => true
  | _          => false

end Accepting

structure Accepting where
  memory  : Memory Node
  accept  : Accepting.Accept
  client  : Nat → Accepting.Client
  -- Whether the `term_main_evt` of the server is set, and the nodes whose one is set.
  term    : Bool
  told    : List Nat
  -- The nodes whose threads were waited for in `DELETE_CHILD`, and those whose threads were waited
  -- for when the server was closed. The last one comes first.
  joined  : List Nat
  drained : List Nat

namespace Accepting

-- The server has been opened, and its thread has created the mutex.
def start (memory : Memory Node) : Accepting where
  memory  := memory
  accept  := .waits
  client  := fun _ => .absent
  term    := false
  told    := []
  joined  := []
  drained := []

inductive Act
  -- `bCap_Close_Server` sets the event.
  | close
  | poll
  | accept (client : Option Nat)
  | add (calls : Calls) (begun : Bool)
  | delete
  | free
  | look
  | tell
  | join
  -- `receive_execute` changes the node and allocates other memory.
  | work (p execTimeout wdtInterval : Nat) (lastSendArgs : Option Variant) (blocks : Nat)
  | stick (p : Nat)
  | leave (p : Nat)
  | destroy (p : Nat) (calls : Calls)

section

variable (host : Host) (own : Nat) (h : Accepting)

def poll : Exec Accepting := do
  if h.term then
    return { h with accept := .looks }
  else
    let root ← h.memory.load own
    return { h with accept := if root.numChild < bcapClientMax then .accepts else .deletes false }

-- The thread of the node begins if nothing has failed. Nobody looks at the result of
-- `begin_thread`.
def add (calls : Calls) (begun : Bool) (sock : Nat) : Exec Accepting := do
  let (hr, memory) ← changeRelation host calls 1 own .addChild sock h.memory
  return { h with
    memory := memory
    client :=
      if Succeeded hr ∧ begun then Function.update h.client h.memory.next .runs else h.client
    accept := .deletes false }

-- node = own->node2;
def delete (last : Bool) : Exec Accepting := do
  let root ← h.memory.load own
  return { h with accept := .frees last root.node2 }

-- The thread of the node has ended when it is waited for, which must not be done again.
def free (last : Bool) (node : Nat) : Exec Accepting :=
  if node ∈ h.drained then throw .read
  else do
    let tmp := (← h.memory.load node).node2
    let memory ← h.memory.free node
    let memory ← memory.modify own fun n => { n with numChild := n.numChild - 1 }
    return { h with
      memory := memory
      accept := .frees last tmp
      told   := node :: h.told
      joined := node :: h.joined }

-- own->node2 = NULL;
def unlock (last : Bool) : Exec Accepting := do
  let memory ← h.memory.modify own fun n => { n with node2 := none }
  return { h with memory := memory, accept := if last then .ended else .waits }

def look : Exec Accepting := do
  let root ← h.memory.load own
  return { h with accept := match root.node1 with
    | some child => .tells child
    | none       => .deletes true }

def tell (child : Nat) : Exec Accepting := do
  let _ ← h.memory.load child
  return { h with accept := .joins child, told := child :: h.told }

def join (child : Nat) : Exec Accepting := do
  let _ ← h.memory.load child
  return { h with accept := .looks, drained := child :: h.drained }

def work (p execTimeout wdtInterval : Nat) (lastSendArgs : Option Variant) (blocks : Nat) :
    Exec Accepting := do
  let memory ← h.memory.modify p fun n => { n with execTimeout, wdtInterval, lastSendArgs }
  return { h with memory := { memory with next := memory.next + blocks } }

def destroy (calls : Calls) (p : Nat) : Exec Accepting := do
  let (_, memory) ← changeRelation host calls 1 p .destroySelf 0 h.memory
  return { h with memory := memory, client := Function.update h.client p .ended }

end

-- What a step of a thread that is not blocked leads to.
inductive Does (host : Host) (own : Nat) : Accepting → Act → Exec Accepting → Prop
  | close {h : Accepting} : Does host own h .close (pure { h with term := true })
  | poll {h : Accepting} : h.accept = .waits → Does host own h .poll (h.poll own)
  | accepted {h : Accepting} {client : Nat} :
      h.accept = .accepts →
      Does host own h (.accept (some client)) (pure { h with accept := .adds client })
  | refused {h : Accepting} :
      h.accept = .accepts → Does host own h (.accept none)
        (pure { h with accept := .deletes false })
  | add {h : Accepting} {client : Nat} {calls : Calls} {begun : Bool} :
      h.accept = .adds client →
      Does host own h (.add calls begun) (h.add host own calls begun client)
  | delete {h : Accepting} {last : Bool} :
      h.accept = .deletes last → Does host own h .delete (h.delete own last)
  | free {h : Accepting} {last : Bool} {node : Nat} :
      h.accept = .frees last (some node) → h.client node = .ended →
      Does host own h .free (h.free own last node)
  | unlock {h : Accepting} {last : Bool} :
      h.accept = .frees last none → Does host own h .free (h.unlock own last)
  | look {h : Accepting} : h.accept = .looks → Does host own h .look (h.look own)
  | tell {h : Accepting} {child : Nat} :
      h.accept = .tells child → Does host own h .tell (h.tell child)
  | join {h : Accepting} {child : Nat} :
      h.accept = .joins child → h.client child = .ended → Does host own h .join (h.join child)
  | work {h : Accepting} {p execTimeout wdtInterval blocks : Nat} {lastSendArgs : Option Variant} :
      h.client p = .runs →
      Does host own h (.work p execTimeout wdtInterval lastSendArgs blocks)
        (h.work p execTimeout wdtInterval lastSendArgs blocks)
  | stick {h : Accepting} {p : Nat} :
      h.client p = .runs →
      Does host own h (.stick p) (pure { h with client := Function.update h.client p .stuck })
  | leave {h : Accepting} {p : Nat} :
      h.client p = .runs →
      Does host own h (.leave p) (pure { h with client := Function.update h.client p .leaves })
  | destroy {h : Accepting} {p : Nat} {calls : Calls} :
      h.client p = .leaves → h.accept.locks = false →
      Does host own h (.destroy p calls) (h.destroy host calls p)

def Step (host : Host) (own : Nat) (h : Accepting) (a : Act) (h' : Accepting) : Prop :=
  Does host own h a (pure h')

end Accepting
end Bcap
