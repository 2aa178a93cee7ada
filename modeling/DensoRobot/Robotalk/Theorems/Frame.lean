import DensoRobot.Robotalk.Recv

open HRESULT Bytes Bcap

namespace Robotalk

-- A complete frame with the right checksum.
structure Frame (f : List UInt8) : Prop where
  enq    : f.head? = some rtkEnq
  length : f.length = rtkSizeHeader + rtkSizeCrc + (RtkPacket.mk f).len
  len_le : (RtkPacket.mk f).len ≤ rtkSizeData - rtkSizeCrc
  crc    : crcMatches ⟨f⟩ = true

-- The packet holds the frame, with its command in the host's order.
def Holds (packet : RtkPacket) (f : List UInt8) : Prop :=
  packet.buf.take f.length = (RtkPacket.mk f).swapCommand.buf

section

variable {f rest bs : List UInt8} {o n : Nat}

theorem window_append (h : o + n ≤ f.length) : (f ++ rest).window o n = f.window o n := by
  rw [List.window, List.drop_append_of_le_length (by omega),
    List.take_append_of_le_length (by simp only [List.length_drop]; omega)]
  rfl

theorem write_eq (packet : RtkPacket) (bs : List UInt8) :
    packet.write 0 bs = ⟨bs ++ packet.buf.drop bs.length⟩ := by
  simp [RtkPacket.write, List.splice]

theorem getD_append (h : o < f.length) (d : UInt8) : (f ++ rest).getD o d = f.getD o d := by
  simp [List.getD, List.getElem?_append_left h]

theorem len_append (h : 2 ≤ f.length) : (RtkPacket.mk (f ++ rest)).len = (RtkPacket.mk f).len := by
  rw [RtkPacket.len, getD_append (by simp only [rtkPosLen]; omega), RtkPacket.len]

theorem fromId_append (h : 6 ≤ f.length) :
    (RtkPacket.mk (f ++ rest)).fromId = (RtkPacket.mk f).fromId := by
  rw [RtkPacket.fromId, getD_append (by simp only [rtkPosFromId]; omega), RtkPacket.fromId]

theorem toId_append (h : 6 ≤ f.length) :
    (RtkPacket.mk (f ++ rest)).toId = (RtkPacket.mk f).toId := by
  rw [RtkPacket.toId, getD_append (by simp only [rtkPosToId]; omega), RtkPacket.toId]

theorem two_le_length (h : rtkSizeHeader ≤ f.length) : 2 ≤ f.length :=
  Nat.le_trans (by decide) h

theorem length_command (h : 4 ≤ f.length) :
    (f.window rtkPosCommand rtkSizeCommand).length = 2 :=
  List.length_window h

theorem rtkCalcCrc_append (h : rtkSizeHeader + (RtkPacket.mk f).len ≤ f.length) :
    rtkCalcCrc ⟨f ++ rest⟩ = rtkCalcCrc ⟨f⟩ := by
  have h2 : 2 ≤ f.length := two_le_length (Nat.le_trans (Nat.le_add_right ..) h)
  have hn : rtkSizeHeader + (if rtkSizeData - rtkSizeCrc < (RtkPacket.mk f).len then
      rtkSizeData - rtkSizeCrc else (RtkPacket.mk f).len) ≤ f.length := by
    split <;> omega
  simp only [rtkCalcCrc, len_append h2, List.take_append_of_le_length hn]

-- What follows a frame does not matter for its checksum.
theorem crcMatches_append (h : rtkSizeHeader + rtkSizeCrc + (RtkPacket.mk f).len ≤ f.length) :
    crcMatches ⟨f ++ rest⟩ = crcMatches ⟨f⟩ := by
  have h2 : 2 ≤ f.length := two_le_length
    (Nat.le_trans (Nat.le_trans (Nat.le_add_right ..) (Nat.le_add_right ..)) h)
  have hw : rtkSizeHeader + (RtkPacket.mk f).len + rtkSizeCrc ≤ f.length := by omega
  rw [crcMatches, crcMatches, len_append h2, window_append hw, crcBytes, crcBytes,
    rtkCalcCrc_append (by omega)]

theorem swapCommand_eq (h : 4 ≤ f.length) :
    (RtkPacket.mk f).swapCommand = ⟨f.take 2 ++ (f.window 2 2).reverse ++ f.drop 4⟩ := by
  have hl : ((f.window 2 2).reverse).length = 2 := by
    rw [List.length_reverse]
    exact length_command h
  simp only [RtkPacket.swapCommand, RtkPacket.write, List.splice, memcpyBe, rtkPosCommand,
    rtkSizeCommand, hl]

theorem swapCommand_append (h : 4 ≤ f.length) :
    (RtkPacket.mk (f ++ rest)).swapCommand = ⟨(RtkPacket.mk f).swapCommand.buf ++ rest⟩ := by
  have h' : 4 ≤ (f ++ rest).length := Nat.le_trans h (by simp)
  rw [swapCommand_eq h, swapCommand_eq h', window_append (by exact h),
    List.take_append_of_le_length (Nat.le_trans (by decide) h), List.drop_append_of_le_length h]
  simp only [List.append_assoc]

theorem length_swapCommand (h : 4 ≤ f.length) :
    (RtkPacket.mk f).swapCommand.buf.length = f.length := by
  have hl := length_command h
  simp only [rtkPosCommand, rtkSizeCommand] at hl
  rw [swapCommand_eq h]
  simp only [List.length_append, List.length_take, List.length_reverse, hl, List.length_drop]
  omega

-- The bytes of a packet around those of its command.
theorem exists_parts (h : 4 ≤ f.length) : ∃ a b x y c, f = a :: b :: x :: y :: c ∧
    (RtkPacket.mk f).swapCommand = ⟨a :: b :: y :: x :: c⟩ := by
  match f, h with
  | a :: b :: x :: y :: c, h => exact ⟨a, b, x, y, c, rfl, rfl⟩

theorem len_swapCommand (h : 4 ≤ f.length) :
    (RtkPacket.mk f).swapCommand.len = (RtkPacket.mk f).len := by
  obtain ⟨a, b, x, y, c, rfl, hs⟩ := exists_parts h
  rw [hs]
  rfl

-- The order of the bytes does not matter for their sum.
theorem rtkCalcCrc_swapCommand (h : 4 ≤ f.length) :
    rtkCalcCrc (RtkPacket.mk f).swapCommand = rtkCalcCrc ⟨f⟩ := by
  have hlen := len_swapCommand h
  obtain ⟨a, b, x, y, c, rfl, hs⟩ := exists_parts h
  rw [rtkCalcCrc, rtkCalcCrc, hlen, hs]
  generalize (if rtkSizeData - rtkSizeCrc < _ then _ else _) = n
  have hn : rtkSizeHeader + n = n + 2 + 4 := by simp only [rtkSizeHeader]; omega
  have hu : ∀ s, u16 (u16 (s + y.toNat) + x.toNat) = u16 (u16 (s + x.toNat) + y.toNat) := by
    intro s
    simp only [u16]
    omega
  simp only [hn, List.take_succ_cons, List.foldl_cons, hu]

theorem crcMatches_swapCommand (h : 4 ≤ f.length) :
    crcMatches (RtkPacket.mk f).swapCommand = crcMatches ⟨f⟩ := by
  have hlen := len_swapCommand h
  have hcrc := rtkCalcCrc_swapCommand h
  obtain ⟨a, b, x, y, c, rfl, hs⟩ := exists_parts h
  have hn : rtkSizeHeader + (RtkPacket.mk (a :: b :: x :: y :: c)).len =
      (RtkPacket.mk (a :: b :: x :: y :: c)).len + 2 + 4 := by
    simp only [rtkSizeHeader]
    omega
  rw [crcMatches, crcMatches, crcBytes, crcBytes, hcrc, hlen, hs, hn]
  simp only [List.window, List.drop_succ_cons]

theorem Frame.length_ge (h : Frame f) : 8 ≤ f.length := by
  have := h.length
  simp only [rtkSizeHeader, rtkSizeCrc] at this
  omega

theorem Frame.length_le (h : Frame f) : f.length ≤ rtkSizePacket := by
  have := h.length
  have := h.len_le
  simp only [rtkSizeHeader, rtkSizeCrc, rtkSizeData, rtkSizePacket] at *
  omega

-- The packet that a verified frame is written to.
theorem holds_write (h : Frame f) (packet : RtkPacket) :
    Holds (packet.write 0 f).swapCommand f := by
  have h8 := h.length_ge
  have hl := length_swapCommand (Nat.le_trans (by decide) h8)
  rw [write_eq, swapCommand_append (Nat.le_trans (by decide) h8), Holds, ← hl]
  exact List.take_left

-- A packet that no frame was written to.
def Void (packet : RtkPacket) : Prop :=
  ∀ f, Frame f → ¬Holds packet f

theorem void_zero (n : Nat) : Void ⟨List.replicate n 0⟩ := by
  intro f hf hh
  have h8 := hf.length_ge
  have henq := hf.enq
  obtain ⟨a, b, x, y, c, rfl, hs⟩ := exists_parts (Nat.le_trans (by decide) h8)
  rw [Holds, hs] at hh
  have ha : a ∈ (List.replicate n 0).take (a :: b :: x :: y :: c).length := by
    rw [hh]
    exact List.mem_cons_self
  rw [List.eq_of_mem_replicate (List.mem_of_mem_take ha), List.head?_cons] at henq
  exact absurd henq (by decide)

-- A frame with a wrong checksum does not become a right one when its command is ordered.
theorem void_write {packet : RtkPacket} (h8 : 8 ≤ f.length)
    (hl : f.length = rtkSizeHeader + rtkSizeCrc + (RtkPacket.mk f).len)
    (hcrc : crcMatches ⟨f⟩ = false) : Void (packet.write 0 f) := by
  intro f' hf hh
  have h8' := hf.length_ge
  have h4' : 4 ≤ f'.length := Nat.le_trans (by decide) h8'
  rw [Holds, write_eq] at hh
  have hlen : (RtkPacket.mk f).len = (RtkPacket.mk f').len := by
    rw [← len_swapCommand h4', ← len_append (Nat.le_trans (by decide) h8)]
    rw [RtkPacket.len, RtkPacket.len, ← hh, List.getD, List.getD, List.getElem?_take_of_lt]
    exact Nat.lt_of_lt_of_le (by decide) h8'
  have hff : f'.length = f.length := by rw [hf.length, hl, hlen]
  rw [hff, List.take_left] at hh
  have hcrc' := crcMatches_swapCommand h4'
  rw [hf.crc, show (RtkPacket.mk f').swapCommand = ⟨f⟩ by rw [hh], hcrc] at hcrc'
  exact Bool.false_ne_true hcrc'

theorem write_nil (packet : RtkPacket) : packet.write 0 [] = packet := by
  rw [write_eq]
  rfl

end
end Robotalk
