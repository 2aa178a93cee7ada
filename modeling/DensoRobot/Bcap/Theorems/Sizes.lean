import DensoRobot.Bcap.Theorems.Encode

open HRESULT Bytes

namespace Bcap

section

variable (host : Host) {p : BcapPacket} {vs : List Variant}

-- The length in front of an argument is the number of the bytes behind it.
theorem length_field {v : Variant} (h : (v.argument host).length < 4294967296) :
    ofLe ((v.argument host).take 4) = ((v.argument host).drop 4).length := by
  have ht : (toLe 4 (v.body host).length).length = 4 := length_toLe ..
  rw [Variant.length_argument] at h
  rw [Variant.argument, List.take_left' ht, List.drop_left' ht]
  exact ofLe_toLe_of_lt (by rw [Variant.length_body]; omega)

theorem length_le_of_mem {v : Variant} (hv : v ∈ vs) :
    (v.argument host).length ≤ (vs.flatMap (Variant.argument host)).length := by
  have ⟨as, bs, he⟩ := List.append_of_mem hv
  rw [he, List.flatMap_append, List.flatMap_cons, List.length_append, List.length_append]
  omega

-- The buffer of a packet is large enough iff it has the size that is computed for the packet.
theorem packet2bytary_iff_size (h : p.argList = .ok vs) (hf : Variant.AllFilled vs)
    (hl : 16 + (vs.flatMap (Variant.argument host)).length < 4294967296) {dst : List UInt8}
    (hmin : bcapSizeMin ≤ dst.length) (hd : dst.length < 4294967296) :
    ∃ size hr buf, calcSizePacket p = .ok size ∧ packet2bytary host p dst = .ok (hr, buf) ∧
      buf.length = dst.length ∧ (hr = sOk ↔ size ≤ dst.length) ∧
      (hr = sOk → (vs.flatMap (Variant.argument host)).length = size - bcapSizeMin ∧
        buf = p.bytes host vs (dst.length - size) ∧
        ∀ v ∈ vs, ofLe ((v.argument host).take 4) = ((v.argument host).drop 4).length) := by
  have hsize := calcSizePacket_filled h hf hl
  by_cases hfits : 16 + (vs.flatMap (Variant.argument host)).length ≤ dst.length
  case pos =>
    have hrun := packet2bytary_filled h hf (Nat.add_sub_cancel' hfits).symm hd
    refine ⟨_, _, _, hsize, hrun, ?_, iff_of_true rfl hfits, fun _ => ⟨?_, rfl, fun v hv => ?_⟩⟩
    · simp only [BcapPacket.bytes, List.length_append, length_toLe, List.length_singleton,
        List.length_replicate]
      omega
    · exact (Nat.add_sub_cancel_left ..).symm
    · have hle := length_le_of_mem host hv
      exact length_field host (by omega)
  case neg =>
    obtain ⟨buf, hrun, hbuf⟩ := packet2bytary_small h hf hmin (Nat.not_le.mp hfits) hl
    have hfail : eInvalidArg ≠ sOk := failed_eInvalidArg.ne_sOk
    exact ⟨_, _, buf, hsize, hrun, hbuf, iff_of_false hfail hfits, fun h => absurd h hfail⟩

end

-- An array of a date and a string, in a buffer that has two bytes more than are needed.
def datedText : Variant :=
  .variantArray ⟨1, some 2, 0, 2, 24, 2⟩ [.scalar .date 5, .bstr (some ⟨3, [72, 105]⟩)]

theorem datedText_encoded : ∃ size hr buf,
    calcSizePacket (.ofArgs 1 0 17 0 [datedText]) = .ok size ∧
    packet2bytary ampleHost (.ofArgs 1 0 17 0 [datedText]) (List.replicate 56 0) = .ok (hr, buf) ∧
    buf.length = 56 ∧ (hr = sOk ↔ size ≤ 56) := by
  have hf : Variant.AllFilled [datedText] :=
    ⟨⟨by decide, rfl, trivial, trivial, trivial⟩, trivial⟩
  have hmin : bcapSizeMin ≤ (List.replicate 56 (0 : UInt8)).length := by decide
  have ⟨size, hr, buf, hsize, hrun, hbuf, hiff, _⟩ := packet2bytary_iff_size ampleHost
    (BcapPacket.argList_ofArgs 1 0 17 0 [datedText]) hf (by decide) hmin (by decide)
  exact ⟨size, hr, buf, hsize, hrun, hbuf, hiff⟩

end Bcap
