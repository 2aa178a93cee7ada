import DensoRobot.Bcap.Recv

open HRESULT

namespace Bcap

-- A TCP socket: the bytes that were sent and not received yet, how many of them have been peeked
-- at, and the number of calls so far.
structure Tcp where
  unread : List UInt8
  peeked : Nat
  calls  : Nat

-- `size n` is the number of bytes which the `n`-th call prefers to return.
def tcpDevice (size : Nat → Nat) : Device Tcp where
  type := .tcp
  dnRecv len peek s :=
    let available := min len s.unread.length
    let n := if !peek ∧ len ≤ s.peeked then available else min available (max 1 (size s.calls))
    if len = 0 then
      (.fail eAccessDenied (some 0), s)
    else if s.unread = [] then
      (.fail eTimeout none, s)
    else if peek then
      (.ok (s.unread.take n) 0, ⟨s.unread, max s.peeked n, s.calls + 1⟩)
    else
      (.ok (s.unread.take n) 0, ⟨s.unread.drop n, s.peeked - n, s.calls + 1⟩)

end Bcap
