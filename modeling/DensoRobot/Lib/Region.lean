import DensoRobot.Lib.Bytes

-- The memory behind a pointer, by the byte at each distance from it.
abbrev Region := Nat → UInt8

namespace Region

-- Overwrites the bytes from `o` on.
def put (m : Region) (o : Nat) (bs : List UInt8) : Region :=
  fun j => if o ≤ j ∧ j < o + bs.length then bs.getD (j - o) 0 else m j

def read (m : Region) (o n : Nat) : List UInt8 :=
  (List.range n).map fun j => m (o + j)

-- Writes blocks, each of which starts `stride` bytes behind the one before it.
def stamp (stride : Nat) : (o : Nat) → List (List UInt8) → Region → Region
  | _, [],        m => m
  | o, b :: rest, m => stamp stride (o + stride) rest (m.put o b)

variable {m : Region} {o o' j n stride size : Nat} {bs : List UInt8} {blocks : List (List UInt8)}

end Region
