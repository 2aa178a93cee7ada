import DensoRobot.Bcap.Theorems.Rejected
import Mathlib.Data.List.DropRight

open HRESULT Bytes

namespace Bcap

-- The bytes do not start with the length of a frame that can be sent on a serial line.
def OutOfRange (bs : List UInt8) : Prop :=
  ofLe (bs.take bcapSizeLen) < lenMin .com ∨ lenMax .com < ofLe (bs.take bcapSizeLen)

theorem OutOfRange.start {as bs : List UInt8} (h : OutOfRange bs) (hp : as <+: bs)
    (h4 : 4 ≤ as.length) : OutOfRange as := by
  have ⟨t, ht⟩ := hp
  have hb : bs.take bcapSizeLen = as.take bcapSizeLen := by
    rw [← ht]
    exact List.take_append_of_le_length h4
  rwa [OutOfRange, hb] at h

section

variable (client : Bool) {held g f : List UInt8} {reads : List (List UInt8)} {fuel : Nat}

theorem Fit.proper (h : Fit held reads) : [] ∉ reads := by
  induction reads generalizing held
  case nil => simp
  case cons r reads ih =>
    have ⟨hr, _, h⟩ := h
    exact fun hm => (List.mem_cons.mp hm).elim (fun h => hr h.symm) (ih h)

end

-- Whatever is received is a part of what was on the line.
section

variable (client : Bool) {host : Host} {held held' : List UInt8} {fuel len : Nat}
variable {l l' : Link (List (List UInt8))}

end

section

variable (client : Bool) {host : Host} {f g : List UInt8} {q : BcapPacket}

end

end Bcap
