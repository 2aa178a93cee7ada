import DensoRobot.Common.Clock
import DensoRobot.Common.Memory
import DensoRobot.Bcap.Send

open HRESULT

namespace Bcap

def bcapClientMax : Int := 20
def udpLifelimit  : Nat := 10000

inductive ChangeRelation
  | addChild
  | deleteChild
  | destroySelf

-- The part of a `CONN_BCAP_SERVER` that `change_relation` and its callers work on.
-- `arg` is the address that `device.arg` points to, and `lastSendArgs` what `last_send.args` points
-- to. Blocks of memory that belong to a node are released together with it.
structure Node where
  type          : ConnType
  sock          : Nat
  timeout       : Nat
  arg           : Option Nat
  lastSendArgs  : Option Variant
  execTimeout   : Nat
  wdtInterval   : Nat
  lastModified  : Nat
  relationMutex : Bool
  numChild      : Int
  parent        : Option Nat
  node1         : Option Nat
  node2         : Option Nat

-- The results of the calls that `change_relation` makes.
structure Calls where
  lockMutex   : HRESULT
  setTimeout  : HRESULT
  createEvent : HRESULT
  now         : Nat

section

variable (host : Host) (calls : Calls)

-- The node that `ADD_CHILD` fills in before it links it.
def newNode (own : Nat) (n : Node) (sock : Nat) : Node where
  type          := n.type
  sock          := sock
  timeout       := n.timeout
  arg           := n.arg
  lastSendArgs  := none
  execTimeout   := n.execTimeout
  wdtInterval   := n.wdtInterval
  lastModified  := calls.now
  relationMutex := n.relationMutex
  numChild      := 0
  parent        := some own
  node1         := none
  node2         := none

-- A child of a server without threads gets memory of its own.
def ownMemory (node : Nat) (own : Node) (m : Memory Node) : Exec (Memory Node) := do
  let m ←
    if own.type = .udp then
      match host.alloc m.next with
      | (none,   _)    => throw .write
      | (some _, next) => Memory.modify { m with next } node fun n => { n with arg := own.arg }
    else
      pure m
  match host.alloc m.next with
  | (none,   next) => Memory.modify { m with next } node fun n => { n with lastSendArgs := none }
  | (some _, next) =>
    Memory.modify { m with next } node fun n => { n with lastSendArgs := some (.init false .empty) }

def addChild (own sock : Nat) (m : Memory Node) : Exec (HRESULT × Memory Node) := do
  let root ← m.load own
  match host.alloc m.next with
  | (none,      next) => return (eOutOfMemory, { m with next })
  | (some node, next) =>
    let m := Memory.set { m with next } node (some (newNode calls own root sock))
    let m ← m.modify own fun n => { n with numChild := n.numChild + 1 }
    let tmp := (← m.load own).node1
    let m ← m.modify own fun n => { n with node1 := some node }
    let m ← m.modify node fun n => { n with node2 := tmp }
    let m ← m.modifyIf tmp fun n => { n with node1 := some node }
    if root.relationMutex then
      if Failed calls.setTimeout then
        return (calls.setTimeout, ← m.free node)
      else if Failed calls.createEvent then
        return (calls.createEvent, ← m.free node)
      else
        return (calls.createEvent, m)
    else
      return (sOk, ← ownMemory host node root m)

-- The child threads have ended when they are waited for.
def deleteChild (fuel own : Nat) (m : Memory Node) : Exec (Memory Node) := do
  let m ← m.each (·.node2) (fun node m => do
    let m ← m.free node
    m.modify own fun n => { n with numChild := n.numChild - 1 }) fuel (← m.load own).node2
  m.modify own fun n => { n with node2 := none }

def destroySelf (own parent : Nat) (m : Memory Node) : Exec (Memory Node) := do
  let tmp := (← m.load own).node1
  let node2 := (← m.load own).node2
  let m ← match tmp with
    | none     => m.modify parent fun n => { n with node1 := node2 }
    | some tmp => m.modify tmp fun n => { n with node2 := node2 }
  let m ← m.modifyIf node2 fun n => { n with node1 := tmp }
  let tmp := (← m.load parent).node2
  let m ← m.modify parent fun n => { n with node2 := some own }
  let m ← m.modify own fun n => { n with node2 := tmp }
  m.modifyIf tmp fun n => { n with node1 := some own }

def changeRelation : (fuel : Nat) → (own : Nat) → ChangeRelation → (sock : Nat) → Memory Node →
    Exec (HRESULT × Memory Node)
  | 0,        _,   _,    _,    _ => throw .fuel
  | fuel + 1, own, mode, sock, m => do
    let n ← m.load own
    let hr := if n.relationMutex then calls.lockMutex else sOk
    if Failed hr then
      return (hr, m)
    match mode, n.parent with
    | .addChild,    none        => addChild host calls own sock m
    | .addChild,    some _      => return (hr, m)
    | .deleteChild, none        => return (hr, ← deleteChild fuel own m)
    | .deleteChild, some _      => return (hr, m)
    | .destroySelf, some parent => return (hr, ← destroySelf own parent m)
    | .destroySelf, none        =>
      if n.relationMutex then
        return (hr, m)
      else
        let m ← m.each (·.node2) (fun node m => do
          return (← changeRelation fuel node .destroySelf 0 m).2) fuel n.node1
        return (hr, (← changeRelation fuel own .deleteChild 0 m).2)

-- `now` tells the time at which each child is looked at.
def checkLifelimit (now : Nat → Nat) (fuel parent : Nat) (m : Memory Node) :
    Exec (Int × Memory Node) := do
  let m ← m.each (·.node2) (fun child m => do
    let diff := calcTimeDiff (← m.load child).lastModified (now child)
    if udpLifelimit < diff then
      return (← changeRelation host calls fuel child .destroySelf 0 m).2
    else
      return m) fuel (← m.load parent).node1
  let (_, m) ← changeRelation host calls fuel parent .deleteChild 0 m
  return ((← m.load parent).numChild, m)

-- The loop of `search_node`.
def searchNode (arg : Option Nat) (m : Memory Node) : (fuel : Nat) → (tmp : Option Nat) →
    Exec (Option Nat)
  | _,        none     => pure none
  | 0,        some _   => throw .fuel
  | fuel + 1, some tmp => do
    let n ← m.load tmp
    if n.arg = none ∨ arg = none then
      throw .read
    else if n.arg = arg then
      return some tmp
    else
      searchNode arg m fuel n.node2

-- How `receive_execute` finds the child that belongs to the sender of a datagram. There is none if
-- the sender is turned away.
def findChild (now : Nat → Nat) (fuel parent : Nat) (m : Memory Node) :
    Exec (Option Nat × Memory Node) := do
  let n ← m.load parent
  match ← searchNode n.arg m fuel n.node1 with
  | some node => return (some node, m)
  | none      =>
    let (numChild, m) ←
      if bcapClientMax ≤ n.numChild then checkLifelimit host calls now fuel parent m
      else pure (n.numChild, m)
    if bcapClientMax ≤ numChild then
      return (none, m)
    else
      let (_, m) ← changeRelation host calls fuel parent .addChild n.sock m
      return ((← m.load parent).node1, m)

end
end Bcap
