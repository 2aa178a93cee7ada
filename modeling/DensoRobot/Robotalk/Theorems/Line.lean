import DensoRobot.Robotalk.Theorems.Frame

open HRESULT Bytes Bcap

namespace Robotalk

-- What a read leaves of a chunk, if it asks for `len` bytes.
def left (len : Nat) (r : List UInt8) : List (List UInt8) :=
  if r.length ≤ len then [] else [r.drop len]

theorem flatten_left (len : Nat) (r : List UInt8) : (left len r).flatten = r.drop len := by
  by_cases h : r.length ≤ len
  case pos => rw [left, if_pos h, List.drop_of_length_le h, List.flatten_nil]
  case neg => rw [left, if_neg h, List.flatten_singleton]

theorem nil_notMem_left (len : Nat) (r : List UInt8) : [] ∉ left len r := by
  by_cases h : r.length ≤ len
  case pos =>
    rw [left, if_pos h]
    exact List.not_mem_nil
  case neg =>
    rw [left, if_neg h, List.mem_singleton]
    exact fun hn => h (List.drop_eq_nil_iff.mp hn.symm)

namespace Line

-- The bytes that have not been received yet.
def stream (line : Line) : List UInt8 :=
  line.reads.flatten

-- Every successful call of `dn_recv` makes it smaller.
def size (line : Line) : Nat :=
  (line.reads.map (·.length + 1)).sum

theorem length_stream_le_size (line : Line) : line.stream.length ≤ line.size := by
  obtain ⟨reads, sent⟩ := line
  simp only [stream, size]
  induction reads
  case nil => exact Nat.le_refl _
  case cons r reads ih =>
    simp only [List.flatten_cons, List.length_append, List.map_cons, List.sum_cons]
    omega

end Line

section

variable (type : ConnType) (addr : Nat) (sending : Nat → HRESULT)
variable {len : Nat} {l l' l'' : Link Line}

theorem dnRecv_nil {peek : Bool} {line : Line} (h : line.reads = []) :
    (linePort type addr sending).dnRecv len peek line = (.fail eTimeout none, line) := by
  simp only [linePort, h]

theorem dnRecv_cons {peek : Bool} {r : List UInt8} {reads : List (List UInt8)} {line : Line}
    (h : line.reads = r :: reads) :
    (linePort type addr sending).dnRecv len peek line =
      (.ok (r.take len) addr, { line with reads := left len r ++ reads }) := by
  simp only [linePort, h, left]
  by_cases hr : r.length ≤ len
  case pos => simp only [if_pos hr, List.take_of_length_le hr, List.nil_append]
  case neg => simp only [if_neg hr, List.singleton_append]

theorem size_left (hlen : 0 < len) (r : List UInt8) (reads : List (List UInt8))
    (sent sent' : List (List UInt8)) :
    (Line.mk (left len r ++ reads) sent).size < (Line.mk (r :: reads) sent').size := by
  simp only [Line.size, left]
  by_cases hr : r.length ≤ len
  case pos => simp [if_pos hr]
  case neg =>
    simp [if_neg hr]
    omega

-- The bytes that have been received between two moments.
structure Brings (l l' : Link Line) (bytes : List UInt8) : Prop where
  stream : l.state.stream = bytes ++ l'.state.stream
  size   : l'.state.size ≤ l.state.size

namespace Brings

variable {bytes bytes' : List UInt8}

theorem refl (l : Link Line) : Brings l l [] where
  stream := rfl
  size   := Nat.le_refl _

theorem trans (h : Brings l l' bytes) (h' : Brings l' l'' bytes') :
    Brings l l'' (bytes ++ bytes') where
  stream := by rw [h.stream, h'.stream, List.append_assoc]
  size   := Nat.le_trans h'.size h.size

-- What is sent does not matter.
theorem of_reads (h : Brings l l' bytes) (hr : l''.state.reads = l'.state.reads) :
    Brings l l'' bytes where
  stream := by
    rw [h.stream, Line.stream, Line.stream, hr]
  size   := by
    rw [Line.size, hr]
    exact h.size

end Brings

-- The outcome of a call of `dn_recv`.
inductive Reading (len : Nat) (l : Link Line) : Delivery × Link Line → Prop
  | fail {hr n l'} : Failed hr → Reading len l (.fail hr n, l')
  | ok {bytes addr l'} : bytes.length ≤ len → Brings l l' bytes → l'.state.size < l.state.size →
      Reading len l (.ok bytes addr, l')

theorem dnRecv_reading (hlen : 0 < len) (peek : Bool) (l : Link Line) :
    let r := (linePort type addr sending).dnRecv len peek l.state
    ∀ flagInit arg next, Reading len l (r.1, ⟨r.2, arg, flagInit, next⟩) := by
  intro r flagInit arg next
  cases h : l.state.reads
  case nil =>
    simp only [r, dnRecv_nil type addr sending h]
    exact .fail failed_eTimeout
  case cons r' reads =>
    have hs : l.state = ⟨r' :: reads, l.state.sent⟩ := by rw [← h]
    have hsize := size_left hlen r' reads l.state.sent l.state.sent
    rw [← hs] at hsize
    simp only [r, dnRecv_cons type addr sending h]
    refine .ok (List.length_take_le ..) ⟨?_, Nat.le_of_lt hsize⟩ hsize
    rw [Line.stream, Line.stream, h]
    simp only [List.flatten_append, flatten_left, ← List.append_assoc, List.take_append_drop,
      List.flatten_cons]

theorem Reading.checkSockaddr {d : Delivery} (h : Reading len l (d, l')) (arg : Nat) :
    Reading len l (udpCheckSockaddr arg d, l') := by
  cases h
  case fail h => exact .fail h
  case ok bytes addr hb hs hl =>
    by_cases ha : arg = addr
    case pos =>
      rw [udpCheckSockaddr, if_pos ha]
      exact .ok hb hs hl
    case neg =>
      rw [udpCheckSockaddr, if_neg ha]
      exact .fail failed_eAccessDenied

theorem recvRest_reading (hlen : 0 < len) (l : Link Line) :
    Reading len l (recvRest (linePort type addr sending).toDevice len l) := by
  have h := dnRecv_reading type addr sending hlen false l l.flagInit l.arg l.next
  by_cases ht : (linePort type addr sending).type = .udp
  case pos =>
    simp only [recvRest, if_pos ht]
    exact h.checkSockaddr l.arg
  case neg =>
    simp only [recvRest, if_neg ht]
    exact h

theorem recvHead_reading (hlen : 0 < len) (client : Bool) (l : Link Line) :
    Reading len l (recvHead (linePort type addr sending) client len l) := by
  have h := dnRecv_reading type addr sending hlen false l
  by_cases ht : (linePort type addr sending).type = .udp
  case pos =>
    simp only [recvHead, if_pos ht]
    by_cases hc : (client || l.flagInit) = true
    case pos =>
      rw [if_pos hc]
      exact (h ..).checkSockaddr l.arg
    case neg =>
      rw [if_neg hc]
      split <;> exact h ..
  case neg =>
    simp only [recvHead, if_neg ht]
    exact h ..

end
end Robotalk
