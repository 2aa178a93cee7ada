import DensoRobot.Common.Memory

open HRESULT

namespace Bcap

def bcapObjectMax : Int := 1000

structure VecObject where
  id   : Int
  hObj : Nat
  prev : Option Nat
  next : Option Nat

-- The members of a `CONN_BCAP_SERVER` for its created objects, with the memory of these.
structure ObjectVector where
  numObject : Int
  stack     : Option Nat
  memory    : Memory VecObject

def pushVector (pObj : Nat) (s : ObjectVector) : Exec (HRESULT × ObjectVector) :=
  if bcapObjectMax ≤ s.numObject then
    pure (eMaxObject, s)
  else do
    let pPrev := s.stack
    let m ← s.memory.modify pObj fun o => { o with prev := pPrev }
    let m ← m.modifyIf pPrev fun o => { o with next := some pObj }
    return (sOk, ⟨s.numObject + 1, some pObj, m⟩)

-- How `receive_execute` pushes an object, whose memory is filled with zeros before.
def pushObject (pObj : Nat) (id : Int) (hObj : Nat) (s : ObjectVector) :
    Exec (HRESULT × ObjectVector) :=
  pushVector pObj { s with memory := s.memory.set pObj (some ⟨id, hObj, none, none⟩) }

-- The part of `pop_vector` for the object where `i == index`.
def unlinkObject (pCur : Nat) (s : ObjectVector) : Exec ObjectVector := do
  let pNext := (← s.memory.load pCur).next
  let m ← s.memory.modify pCur fun o => { o with next := none }
  let pPrev := (← m.load pCur).prev
  let m ← m.modify pCur fun o => { o with prev := none }
  let stack := if pNext = none then pPrev else s.stack
  let m ← m.modifyIf pNext fun o => { o with prev := pPrev }
  let m ← m.modifyIf pPrev fun o => { o with next := pNext }
  return ⟨s.numObject - 1, stack, m⟩

-- The loop of `pop_vector`, with the number of turns that are left.
def popFrom (index : Int) (s : ObjectVector) : (n : Nat) → (i : Int) → (pCur : Option Nat) →
    Exec (HRESULT × Option Nat × ObjectVector)
  | 0,     _, _         => pure (eHandle, none, s)
  | _ + 1, _, none      => pure (eHandle, none, s)
  | n + 1, i, some pCur =>
    if i = index then do
      return (sOk, some pCur, ← unlinkObject pCur s)
    else do
      popFrom index s n (i + 1) (← s.memory.load pCur).prev

-- The object is `none` if `*pObj` is not written to.
def popVector (index : Int) (s : ObjectVector) : Exec (HRESULT × Option Nat × ObjectVector) :=
  popFrom index s s.numObject.toNat 0 s.stack

-- The loop of `search_vector`.
def searchFrom (id : Int) (hObj : Nat) (m : Memory VecObject) : (n : Nat) → (i : Int) →
    (pCur : Option Nat) → Exec Int
  | 0,     _, _         => pure (-1)
  | _ + 1, _, none      => pure (-1)
  | n + 1, i, some pCur => do
    let o ← m.load pCur
    if o.id = id ∧ o.hObj = hObj then
      return i
    else
      searchFrom id hObj m n (i + 1) o.prev

def searchVector (id : Int) (hObj : Nat) (s : ObjectVector) : Exec Int :=
  searchFrom id hObj s.memory s.numObject.toNat 0 s.stack

end Bcap
