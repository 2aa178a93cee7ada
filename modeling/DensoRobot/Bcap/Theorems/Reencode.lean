import DensoRobot.Bcap.Theorems.RoundTrip
import DensoRobot.Bcap.Theorems.Spends

open HRESULT Bytes

namespace Bcap

section

variable {host : Host} {src : List UInt8} {p : BcapPacket} {vs : List Variant}

theorem ReadFrom.inRange (h : ReadFrom src p vs) : p.InRange := by
  have hm := length_of_wellFramed h.framed
  have hfield {o n : Nat} (hn : o + n ≤ 16) : ofLe (src.window o n) < 256 ^ n := by
    have hlt := ofLe_lt (src.window o n)
    rwa [List.length_window (Nat.le_trans hn hm)] at hlt
  rw [← h.header]
  exact {
    serial := hfield (by decide)
    reserv := hfield (by decide)
    argc   := hfield (by decide)
    id_ge  := (i32_bounds _).left
    id_lt  := (i32_bounds _).right
  }

-- Whatever has been read can be sent.
theorem ReadFrom.legible (h : ReadFrom src p vs) (hl : src.length < 4294967296)
    (hdate : Variant.AllDateless vs) :
    Legible p vs 0 ∧ Value.AllCreatable (Variant.values vs) := by
  have ⟨hs, hr, hc⟩ := Variant.allSettled fun v hv => h.good v hv (hdate.of_mem hv)
  exact ⟨⟨h.inRange, h.args, hs, hr, Nat.lt_of_le_of_lt h.size hl⟩, hc⟩

-- A packet that was accepted survives being sent again, no matter how irregular it was.
theorem survives_of_accepted (hh : host.Ample) (hl : src.length < 4294967296) {q q' : BcapPacket}
    {next : Nat} {r : Received} (h : bytary2packet host src q next = .ok r) (hs : Succeeded r.hr)
    (hdate : ∀ vs, r.packet.argList = .ok vs → Variant.AllDateless vs)
    (hq : q'.argc = argcAuto) (hq' : q'.args = none) (next' : Nat) :
    Survives host r.packet q' none next' := by
  have ⟨vs, hread⟩ := readFrom_of_accepted hl h hs
  have ⟨hlegible, hc⟩ := hread.legible hl (hdate vs hread.args)
  exact survives_of_creatable hlegible hh hq hq' hc next'

end

-- A string of one and a half characters behind a wrong length, a number of an unknown type that is
-- said to have five elements, and two bytes behind the arguments.
def irregularFrame : List UInt8 :=
  [1, 44, 0, 0, 0, 5, 0, 0, 0, 17, 0, 0, 0, 2, 0,
    99, 0, 0, 0, 8, 0, 7, 0, 0, 0, 3, 0, 0, 0, 65, 0,
    0, 0, 0, 0, 99, 0, 5, 0, 0, 0,
    1, 2, 4]

def irregularPacket : BcapPacket where
  serial := 5
  reserv := 0
  id     := 17
  argc   := 2
  args   := some ⟨0, [some (.bstr (some ⟨1, [65]⟩)), some (.scalar (.other 99) 0)]⟩

theorem irregularFrame_survives :
    bytary2packet ampleHost irregularFrame autoPacket 0 = .ok ⟨sOk, irregularPacket, 2⟩ ∧
    Survives ampleHost irregularPacket autoPacket none 0 := by
  have hl : irregularFrame.length < 4294967296 := by decide
  have hrun : bytary2packet ampleHost irregularFrame autoPacket 0 =
    .ok ⟨sOk, irregularPacket, 2⟩ := by rfl
  refine ⟨hrun, survives_of_accepted (fun _ => rfl) hl hrun succeeded_sOk
    (fun vs hvs => ?_) rfl rfl 0⟩
  cases hvs
  simp [Variant.AllDateless, Variant.Dateless]

end Bcap
