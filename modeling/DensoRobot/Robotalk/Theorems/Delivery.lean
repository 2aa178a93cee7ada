import DensoRobot.Robotalk.Theorems.Verified

open HRESULT Bytes Bcap

namespace Robotalk

-- The frame that carries a command.
def frameHead (command lenData : Nat) (fromId toId : UInt8) : List UInt8 :=
  [rtkEnq, UInt8.ofNat lenData] ++ memcpyBe (toLe rtkSizeCommand command) ++ [fromId, toId]

def frame (command : Nat) (data : List UInt8) (fromId toId : UInt8) : List UInt8 :=
  frameHead command data.length fromId toId ++ data ++
    crcBytes ⟨frameHead command data.length fromId toId ++ data⟩

section

variable {command : Nat} {data : List UInt8} {fromId toId : UInt8} {packet : RtkPacket}

@[simp]
theorem length_frameHead (command lenData : Nat) (fromId toId : UInt8) :
    (frameHead command lenData fromId toId).length = 6 := by
  simp [frameHead, memcpyBe, rtkSizeCommand]

@[simp]
theorem length_crcBytes (packet : RtkPacket) : (crcBytes packet).length = 2 := by
  simp [crcBytes, memcpyBe, rtkSizeCrc]

theorem len_frameHead (hdata : data.length ≤ rtkSizeData - rtkSizeCrc) (command : Nat)
    (fromId toId : UInt8) (bs : List UInt8) :
    (RtkPacket.mk (frameHead command data.length fromId toId ++ bs)).len = data.length := by
  have hlt : data.length < 256 := Nat.lt_of_le_of_lt hdata (by decide)
  have hd : (UInt8.ofNat data.length).toNat = data.length := by simpa using hlt
  exact hd

theorem length_frame (command : Nat) (data : List UInt8) (fromId toId : UInt8) :
    (frame command data fromId toId).length = rtkSizeHeader + rtkSizeCrc + data.length := by
  simp only [frame, List.length_append, length_frameHead, length_crcBytes,
    rtkSizeHeader, rtkSizeCrc]
  omega

theorem frame_frame (hdata : data.length ≤ rtkSizeData - rtkSizeCrc) (command : Nat)
    (fromId toId : UInt8) :
    Frame (frame command data fromId toId) := by
  have hlen : (RtkPacket.mk (frame command data fromId toId)).len = data.length := by
    rw [frame, List.append_assoc, len_frameHead hdata]
  have hlen' := len_frameHead hdata command fromId toId data
  refine ⟨rfl, ?length, hlen.trans_le hdata, ?crc⟩
  case length => rw [hlen, length_frame]
  case crc =>
    have hl : (frameHead command data.length fromId toId ++ data).length =
        rtkSizeHeader + data.length := by
      rw [List.length_append, length_frameHead]
      rfl
    have hc : rtkCalcCrc ⟨frame command data fromId toId⟩ =
        rtkCalcCrc ⟨frameHead command data.length fromId toId ++ data⟩ := by
      apply rtkCalcCrc_append
      rw [hlen', hl]
    rw [crcMatches, hlen, crcBytes, hc, beq_iff_eq]
    have hw : (frame command data fromId toId).drop (rtkSizeHeader + data.length) =
        crcBytes ⟨frameHead command data.length fromId toId ++ data⟩ := by
      rw [frame, ← hl, List.drop_left]
    rw [List.window, hw, List.take_of_length_le (by simp [rtkSizeCrc])]
    rfl

-- A packet with the given contents, whose command is in the host's order.
structure Contains (packet : RtkPacket) (command : Nat) (data : List UInt8) (fromId toId : UInt8) :
    Prop where
  len     : packet.len = data.length
  command : packet.command = command
  fromId  : packet.fromId = fromId
  toId    : packet.toId = toId
  data    : packet.data packet.len = data

theorem swapCommand_frame : (RtkPacket.mk (frame command data fromId toId)).swapCommand.buf =
    [rtkEnq, UInt8.ofNat data.length] ++ toLe rtkSizeCommand command ++ [fromId, toId] ++ (data ++
      crcBytes ⟨frameHead command data.length fromId toId ++ data⟩) :=
  rfl

theorem contains_of_holds (hcommand : command < 65536)
    (hdata : data.length ≤ rtkSizeData - rtkSizeCrc)
    (h : Holds packet (frame command data fromId toId)) :
    Contains packet command data fromId toId := by
  obtain ⟨buf⟩ := packet
  have hb := List.take_append_drop (frame command data fromId toId).length buf
  rw [h, swapCommand_frame, List.append_assoc _ (data ++ _)] at hb
  have hlen : (RtkPacket.mk buf).len = data.length := by
    have hlt : data.length < 256 := Nat.lt_of_le_of_lt hdata (by decide)
    have hd : (UInt8.ofNat data.length).toNat = data.length := by simpa using hlt
    rw [← hb]
    exact hd
  refine ⟨hlen, ?command, ?fromId, ?toId, ?data⟩
  case command =>
    have hc : buf.window rtkPosCommand rtkSizeCommand = toLe rtkSizeCommand command := by
      rw [← hb]
      rfl
    rw [RtkPacket.command, hc]
    exact ofLe_toLe_of_lt hcommand
  case data =>
    rw [hlen, RtkPacket.data, ← hb]
    simp only [List.append_assoc]
    exact List.take_left
  all_goals
    rw [← hb]
    rfl

-- Both functions that make up a frame.
theorem rtkParam2packet_eq (command : Nat) {data : Option (List UInt8)} (fromId toId : UInt8)
    (hdata : (data.getD []).length ≤ rtkSizeData - rtkSizeCrc)
    (hbuf : packet.buf.length = rtkSizePacket) :
    rtkParam2packet command data (data.getD []).length fromId toId packet =
      (sOk,
        packet.write 0 (frameHead command (data.getD []).length fromId toId ++ data.getD [])) := by
  have hnull : ¬(0 < (data.getD []).length ∧ data = none) := by
    rintro ⟨hpos, rfl⟩
    exact Nat.lt_irrefl _ hpos
  rw [rtkParam2packet, if_neg hnull, if_neg (Nat.not_lt.mpr hdata), List.take_length]
  have hroom : 0 + (frameHead command (data.getD []).length fromId toId).length +
      (data.getD []).length ≤ packet.buf.length := by
    simp only [rtkSizeData, rtkSizePacket, rtkSizeHeader, rtkSizeCrc] at hdata hbuf
    rw [hbuf, length_frameHead]
    omega
  have hs := List.splice_splice_append hroom
  rw [length_frameHead] at hs
  simp only [RtkPacket.write, ← hs]
  rfl

theorem rtkSend_eq {σ : Type} {port : Port σ} (ht : port.type ≠ .tcp)
    (hdata : data.length ≤ rtkSizeData - rtkSizeCrc) (hbuf : packet.buf.length = rtkSizePacket)
    (command : Nat) (fromId toId : UInt8) (state : σ) :
    rtkSend port (packet.write 0 (frameHead command data.length fromId toId ++ data)) state =
      ((port.dnSend (frame command data fromId toId) state).1,
        packet.write 0 (frame command data fromId toId),
        (port.dnSend (frame command data fromId toId) state).2) := by
  have hlen : (packet.write 0 (frameHead command data.length fromId toId ++ data)).len =
      data.length := by
    rw [write_eq, List.append_assoc]
    exact len_frameHead hdata command fromId toId _
  have hcrc : crcBytes (packet.write 0 (frameHead command data.length fromId toId ++ data)) =
      crcBytes ⟨frameHead command data.length fromId toId ++ data⟩ := by
    rw [crcBytes, write_eq, rtkCalcCrc_append, crcBytes]
    rw [len_frameHead hdata, List.length_append, length_frameHead]
    exact Nat.le_refl _
  have hl : (frameHead command data.length fromId toId ++ data).length =
      rtkSizeHeader + data.length := by
    rw [List.length_append, length_frameHead]
    rfl
  have hmax : rtkSizeHeader + rtkSizeCrc + data.length ≤ rtkSizePacket := by
    simp only [rtkSizeData, rtkSizePacket, rtkSizeHeader, rtkSizeCrc] at hdata ⊢
    omega
  have hw : (packet.write 0 (frameHead command data.length fromId toId ++ data)).write
      (rtkSizeHeader + data.length)
      (crcBytes ⟨frameHead command data.length fromId toId ++ data⟩) =
        packet.write 0 (frame command data fromId toId) := by
    have hroom : 0 + (frameHead command data.length fromId toId ++ data).length +
        (crcBytes ⟨frameHead command data.length fromId toId ++ data⟩).length ≤
          packet.buf.length := by
      rw [hl, length_crcBytes, hbuf]
      simp only [rtkSizePacket, rtkSizeHeader, rtkSizeCrc] at hmax ⊢
      omega
    have hs := List.splice_splice_append hroom
    rw [hl, Nat.zero_add] at hs
    exact congrArg RtkPacket.mk hs
  have htake : (packet.write 0 (frame command data fromId toId)).buf.take
      (rtkSizeHeader + rtkSizeCrc + data.length) = frame command data fromId toId := by
    rw [write_eq, ← length_frame command data fromId toId, List.take_left]
  rw [rtkSend, if_neg ht, hlen, if_neg (Nat.not_lt.mpr hmax), hcrc, hw]
  simp only [htake]

end

section

variable (host : Host) (type : ConnType) (addr : Nat) (sending : Nat → HRESULT) (client : Bool)
variable {f g held buf : List UInt8} {reads rest : List (List UInt8)} {fuel : Nat} {l : Link Line}

-- Skipping what precedes a frame.
theorem dropWhile_before {s : List UInt8} (hf : f.head? = some rtkEnq) (hg : rtkEnq ∉ g)
    (h : held ++ s = g ++ f) :
    ∃ g', held.dropWhile (· ≠ rtkEnq) ++ s = g' ++ f ∧ rtkEnq ∉ g' ∧
      (held.dropWhile (· ≠ rtkEnq) ≠ [] → g' = []) := by
  cases List.append_eq_append_iff.mp h
  case inl hl =>
    have ⟨a, hga, hs⟩ := hl
    have hheld : held.dropWhile (· ≠ rtkEnq) = [] := by
      have hn := dropWhile_noise (fun hm => hg (hga ▸ List.mem_append_left a hm)) []
      rwa [List.append_nil] at hn
    rw [hheld]
    exact ⟨a, hs, fun hm => hg (hga ▸ List.mem_append_right held hm), fun hn => absurd rfl hn⟩
  case inr hr =>
    have ⟨c, hc, hfc⟩ := hr
    rw [hc, dropWhile_noise hg, dropWhile_start hf ⟨s, hfc.symm⟩]
    exact ⟨[], hfc.symm, List.not_mem_nil, fun _ => rfl⟩

-- The address of the other side is known, once the server has received something.
def Knows (l : Link Line) : Prop :=
  type = .udp → l.arg = addr

theorem recvHead_line {r : List UInt8} (len : Nat) (hl : l.state.reads = r :: rest)
    (hknows : client = true ∨ l.flagInit = true → Knows type addr l) :
    ∃ l', recvHead (linePort type addr sending) client len l = (.ok (r.take len) addr, l') ∧
      l'.state = ⟨left len r ++ rest, l.state.sent⟩ ∧ Knows type addr l' := by
  have hd : (linePort type addr sending).dnRecv len false l.state = _ :=
    dnRecv_cons type addr sending hl
  by_cases ht : type = .udp
  case pos =>
    have hp : (linePort type addr sending).type = .udp := ht
    simp only [recvHead, hd, if_pos hp]
    by_cases hc : (client || l.flagInit) = true
    case pos =>
      have ha := hknows (Bool.or_eq_true_iff.mp hc) ht
      rw [if_pos hc, udpCheckSockaddr, if_pos ha]
      exact ⟨_, rfl, rfl, fun _ => ha⟩
    case neg =>
      rw [if_neg hc]
      exact ⟨_, rfl, rfl, fun _ => rfl⟩
  case neg =>
    have hp : (linePort type addr sending).type ≠ .udp := ht
    simp only [recvHead, hd, if_neg hp]
    exact ⟨_, rfl, rfl, fun h => absurd h ht⟩

theorem recvRest_line {r : List UInt8} (len : Nat) (hl : l.state.reads = r :: rest)
    (hknows : Knows type addr l) :
    ∃ l', recvRest (linePort type addr sending).toDevice len l = (.ok (r.take len) addr, l') ∧
      l'.state = ⟨left len r ++ rest, l.state.sent⟩ ∧ Knows type addr l' := by
  have hd : (linePort type addr sending).dnRecv len false l.state = _ :=
    dnRecv_cons type addr sending hl
  by_cases ht : type = .udp
  case pos =>
    have hp : (linePort type addr sending).type = .udp := ht
    simp only [recvRest, hd, if_pos hp]
    rw [udpCheckSockaddr, if_pos (hknows ht)]
    exact ⟨_, rfl, rfl, hknows⟩
  case neg =>
    have hp : (linePort type addr sending).type ≠ .udp := ht
    simp only [recvRest, hd, if_neg hp]
    exact ⟨_, rfl, rfl, hknows⟩

-- Reads that bring the given bytes, at least one each.
structure Bring (reads : List (List UInt8)) (bs : List UInt8) : Prop where
  bytes  : reads.flatten = bs
  proper : [] ∉ reads

theorem Bring.nil_of_nil (h : Bring reads []) : reads = [] := by
  cases reads
  case nil => rfl
  case cons r reads =>
    have hr := (List.append_eq_nil_iff.mp h.bytes).left
    exact absurd (hr ▸ List.mem_cons_self) h.proper

-- What a read takes, and what it leaves.
theorem Bring.split {r bs : List UInt8} {len : Nat} (h : Bring (r :: reads) bs) (hlen : 0 < len) :
    ∃ bs', bs = r.take len ++ bs' ∧ Bring (left len r ++ reads) bs' ∧ bs'.length < bs.length := by
  have hb := h.bytes
  rw [List.flatten_cons, ← List.take_append_drop len r, List.append_assoc] at hb
  refine ⟨r.drop len ++ reads.flatten, hb.symm, ⟨?bytes, ?proper⟩, ?shorter⟩
  case bytes => rw [List.flatten_append, flatten_left]
  case proper =>
    intro hm
    cases List.mem_append.mp hm
    case inl hm => exact nil_notMem_left len r hm
    case inr hm => exact h.proper (List.mem_cons_of_mem _ hm)
  case shorter =>
    have hr : 0 < r.length := List.length_pos_of_ne_nil fun hr => h.proper (hr ▸ List.mem_cons_self)
    rw [← hb]
    simp only [List.length_append, List.length_take]
    omega

theorem seek_line {bs : List UInt8} (hf : f.head? = some rtkEnq) (h8 : 8 ≤ f.length)
    (hg : rtkEnq ∉ g) (h : held ++ bs = g ++ f) (hb : Bring reads bs) (hfuel : bs.length < fuel)
    (hl : l.state.reads = reads ++ rest)
    (hknows : client = true ∨ l.flagInit = true → Knows type addr l)
    (hheld : held ≠ [] → Knows type addr l) :
    ∃ held' bs' reads' l', seek (linePort type addr sending) client fuel held l =
        .ok (.ok held', l') ∧ 8 ≤ held'.length ∧ held' ++ bs' = f ∧ Bring reads' bs' ∧
      l'.state = ⟨reads' ++ rest, l.state.sent⟩ ∧ Knows type addr l' ∧ bs'.length ≤ bs.length := by
  induction fuel generalizing held bs g reads l
  case zero => contradiction
  case succ fuel ih =>
    obtain ⟨g', hd, hg', hnil⟩ := dropWhile_before hf hg h
    have hdrop : held.dropWhile (· ≠ rtkEnq) ≠ [] → Knows type addr l :=
      fun hne => hheld fun hn => hne (by rw [hn, List.dropWhile_nil])
    revert hd hnil hdrop
    simp only [seek]
    generalize held.dropWhile (· ≠ rtkEnq) = held'
    intro hd hnil hdrop
    by_cases hle : rtkSizeHeader + rtkSizeCrc ≤ held'.length
    case pos =>
      have hne : held' ≠ [] := List.ne_nil_of_length_pos (Nat.lt_of_lt_of_le (by decide) hle)
      rw [hnil hne, List.nil_append] at hd
      refine ⟨held', bs, reads, l, if_pos hle, hle, hd, hb, ?_, hdrop hne, Nat.le_refl _⟩
      rw [← hl]
    case neg =>
      cases reads
      case nil =>
        have hbs : bs = [] := hb.bytes.symm
        have hlen := congrArg List.length hd
        rw [hbs, List.append_nil, List.length_append] at hlen
        exact absurd (Nat.le_trans h8 (hlen ▸ Nat.le_add_left ..)) hle
      case cons r reads =>
        have hlen : 0 < udpMaxPacket - held'.length :=
          Nat.sub_pos_of_lt (Nat.lt_trans (Nat.lt_of_not_le hle) (by decide))
        obtain ⟨bs', hbs, hb', hshorter⟩ := hb.split hlen
        obtain ⟨l', hrecv, hstate, hknows'⟩ :=
          recvHead_line type addr sending client (udpMaxPacket - held'.length) hl hknows
        have hd' : held' ++ r.take (udpMaxPacket - held'.length) ++ bs' = g' ++ f := by
          rw [List.append_assoc, ← hbs, hd]
        have hl' : l'.state.reads = left (udpMaxPacket - held'.length) r ++ reads ++ rest := by
          rw [hstate, List.append_assoc]
          rfl
        obtain ⟨held'', bs'', reads'', l'', hseek, h8', hf', hb'', hs'', hk'', hle''⟩ :=
          ih hg' hd' hb' (Nat.lt_of_lt_of_le hshorter (Nat.le_of_lt_succ hfuel)) hl'
            (fun _ => hknows') (fun _ => hknows')
        rw [hstate] at hs''
        refine ⟨held'', bs'', reads'', l'', ?_, h8', hf', hb'', hs'', hk'',
          Nat.le_trans hle'' (Nat.le_of_lt hshorter)⟩
        rw [if_neg hle, hrecv]
        exact hseek

theorem fill_line {bs : List UInt8} (h : buf ++ bs = f) (hb : Bring reads bs)
    (hfuel : bs.length < fuel) (hl : l.state.reads = reads ++ rest) (hknows : Knows type addr l) :
    ∃ l', fill (linePort type addr sending) f.length fuel buf l = .ok (none, f, l') ∧
      l'.state = ⟨rest, l.state.sent⟩ := by
  induction fuel generalizing buf bs reads l
  case zero => contradiction
  case succ fuel ih =>
    rw [fill]
    cases bs
    case nil =>
      rw [List.append_nil] at h
      rw [hb.nil_of_nil, List.nil_append] at hl
      refine ⟨l, ?_, by rw [← hl]⟩
      rw [h, if_pos (Nat.le_refl _)]
      rfl
    case cons b bs =>
      have hlt : buf.length < f.length := by
        rw [← h, List.length_append]
        exact Nat.lt_add_of_pos_right (Nat.succ_pos _)
      cases reads
      case nil => exact absurd hb.bytes.symm (List.cons_ne_nil b bs)
      case cons r reads =>
        obtain ⟨bs', hbs, hb', hshorter⟩ := hb.split (Nat.sub_pos_of_lt hlt)
        obtain ⟨l', hrecv, hstate, hknows'⟩ :=
          recvRest_line type addr sending (f.length - buf.length) hl hknows
        have hl' : l'.state.reads = left (f.length - buf.length) r ++ reads ++ rest := by
          rw [hstate, List.append_assoc]
          rfl
        have h' : buf ++ r.take (f.length - buf.length) ++ bs' = f := by
          rw [List.append_assoc, ← hbs, h]
        obtain ⟨l'', hfill, hs''⟩ := ih h' hb'
          (Nat.lt_of_lt_of_le hshorter (Nat.le_of_lt_succ hfuel)) hl' hknows'
        rw [hstate] at hs''
        refine ⟨l'', ?_, hs''⟩
        rw [if_neg (Nat.not_le.mpr hlt), hrecv]
        exact hfill

-- A frame is received, however it is split up and whatever precedes it.
theorem turn_frame (hf : Frame f) (hg : rtkEnq ∉ g) (hb : Bring reads (g ++ f))
    (hfuel : (g ++ f).length < fuel) (hl : l.state.reads = reads ++ rest)
    (hknows : client = true ∨ l.flagInit = true → Knows type addr l) :
    ∃ l', turn host (linePort type addr sending) client fuel l = .ok (.verified f, l') ∧
      l'.state = ⟨rest, l.state.sent⟩ := by
  have ⟨held, bs, reads', l₁, hseek, h8, hheld, hb', hs₁, hk₁, hle⟩ :=
    seek_line type addr sending client hf.enq hf.length_ge hg (List.nil_append _) hb hfuel hl
      hknows (fun h => absurd rfl h)
  have hpre : held <+: f := ⟨bs, hheld⟩
  have hlen : rtkSizeHeader + rtkSizeCrc + (RtkPacket.mk held).len = f.length := by
    rw [len_of_start hpre (Nat.le_trans (by decide) h8), hf.length]
  have ⟨l₂, hfill, hs₂⟩ := fill_line type addr sending hheld hb' (Nat.lt_of_le_of_lt hle hfuel)
    (congrArg Line.reads hs₁) hk₁
  rw [hs₁] at hs₂
  refine ⟨l₂, ?_, hs₂⟩
  simp only [turn, hseek, Exec.ok_bind, hlen, if_neg (Nat.not_lt.mpr hf.length_le),
    List.take_of_length_le hpre.length_le, hfill, if_pos hf.crc, Exec.pure_eq]

-- What is sent is received, whatever precedes it and however it is split up, without sending NAK.
-- `bytes` is what `rtk_send` passes to `dn_send`.
def Delivers (command : Nat) (data : Option (List UInt8)) (fromId toId : UInt8)
    (packet : RtkPacket) : Prop :=
  ∃ packetSend bytes,
    rtkParam2packet command data (data.getD []).length fromId toId packet = (sOk, packetSend) ∧
    (∀ (port : Port Line), port.type = type → ∀ line, ∃ packetSend',
      rtkSend port packetSend line =
        ((port.dnSend bytes line).1, packetSend', (port.dnSend bytes line).2)) ∧
    ∀ noise reads rest, rtkEnq ∉ noise → [] ∉ reads → reads.flatten = noise ++ bytes →
      ∀ retryNak packetRecv arg next, packetRecv.buf.length = rtkSizePacket →
        (type = .udp → client = true → arg = addr) → ∃ enough, ∀ fuel, enough ≤ fuel →
          ∃ packet' l, rtkRecv host (linePort type addr sending) client fuel retryNak packetRecv arg
            next ⟨reads ++ rest, []⟩ = .ok (sOk, packet', l) ∧
              Contains packet' command (data.getD []) fromId toId ∧ l.state = ⟨rest, []⟩

theorem frame_delivers (ht : type ≠ .tcp) {command : Nat} (hcommand : command < 65536)
    {data : Option (List UInt8)} (hdata : (data.getD []).length ≤ rtkSizeData - rtkSizeCrc)
    (fromId toId : UInt8) {packet : RtkPacket} (hbuf : packet.buf.length = rtkSizePacket) :
    Delivers host type addr sending client command data fromId toId packet := by
  have hp := rtkParam2packet_eq command fromId toId hdata hbuf
  refine ⟨_, frame command (data.getD []) fromId toId, hp, ?sent, ?received⟩
  case sent =>
    intro port hpt line
    exact ⟨_, rtkSend_eq (hpt ▸ ht) hdata hbuf command fromId toId line⟩
  case received =>
    intro noise reads rest hnoise hproper hreads retryNak packetRecv arg next _ harg
    have hf := frame_frame hdata command fromId toId
    let l : Link Line := ⟨⟨reads ++ rest, []⟩, arg, false, next⟩
    have hknows : client = true ∨ l.flagInit = true → Knows type addr l := fun h hu =>
      harg hu (h.resolve_right Bool.false_ne_true)
    refine ⟨l.state.size + 2, fun fuel hfuel => ?_⟩
    rcases fuel with _ | fuel
    case zero => contradiction
    have hsize : l.state.size < fuel := Nat.lt_of_succ_lt_succ hfuel
    have hlong : (noise ++ frame command (data.getD []) fromId toId).length < fuel := by
      have hle := l.state.length_stream_le_size
      rw [Line.stream, List.flatten_append, hreads, List.length_append] at hle
      omega
    obtain ⟨l', hturn, hl'⟩ :=
      turn_frame host type addr sending client hf hnoise ⟨hreads, hproper⟩ hlong rfl hknows
    rw [rtkRecv_eq host type addr sending client ht,
      rounds_succ host type addr sending client hsize (Nat.zero_le _), hturn]
    exact ⟨_, l', rfl, contains_of_holds hcommand hdata (holds_write hf packetRecv), hl'⟩

theorem enqs_deliver : Delivers ampleHost .udp 7 (fun _ => eFail) true 0x0E82
    (some [0x05, 0x05]) 1 2
    ⟨List.replicate rtkSizePacket 0⟩ :=
  frame_delivers ampleHost .udp 7 (fun _ => eFail) true (by decide) (by decide) (by decide) 1 2
    (List.length_replicate ..)

end
end Robotalk
