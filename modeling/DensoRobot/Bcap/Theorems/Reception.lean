import DensoRobot.Bcap.Theorems.Alike
import DensoRobot.Bcap.Theorems.Spends

open HRESULT Bytes

namespace Bcap

-- All arguments that a frame announces are present and can be read.
def Complete (host : Host) (src : List UInt8) : Prop :=
  ∃ c, Extent.args false host src (announced src) (announced src) ⟨bcapPosDataLen, 0⟩ = .whole c

-- The arguments of a frame, as far as they can be read.
def argValues (host : Host) (src : List UInt8) : List Value :=
  match bytary2args host src (announced src) (announced src) 0 with
  | .ok d    => Variant.values d.val
  | .error _ => []

-- The packet `p` holds what a frame says.
def Carries (host : Host) (src : List UInt8) (p : BcapPacket) : Prop :=
  p.serial = ofLe (src.window bcapPosSerial 2) ∧ p.reserv = ofLe (src.window bcapPosReserve 2) ∧
  p.id = i32 (ofLe (src.window bcapPosId 4)) ∧ p.argc = announced src ∧
  ∃ vs, p.argList = .ok vs ∧ Variant.values vs = argValues host src

theorem Carries.equiv_iff {host : Host} {src : List UInt8} {p q : BcapPacket}
    (hq : Carries host src q) : p.Equiv q ↔ Carries host src p := by
  have ⟨hs, hr, hi, hc, ws, hws, hxs⟩ := hq
  simp only [BcapPacket.Equiv, Carries, hs, hr, hi, hc]
  refine and_congr_right fun _ => and_congr_right fun _ => and_congr_right fun _ =>
    and_congr_right fun _ => ⟨fun ⟨vs, ws', hvs, hws', he⟩ => ?_, fun ⟨vs, hvs, he⟩ => ?_⟩
  · rw [hws] at hws'
    cases hws'
    exact ⟨vs, hvs, he.trans hxs⟩
  · exact ⟨vs, ws, hvs, hws, he.trans hxs.symm⟩

section

variable {host : Host} {src : List UInt8}

variable {q : BcapPacket}

end
end Bcap
