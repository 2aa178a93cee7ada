import DensoRobot.Bcap.Send
import DensoRobot.Bcap.Theorems.Encode
import DensoRobot.Bcap.Theorems.Decode

open HRESULT Bytes

namespace Bcap

-- A packet that can be sent in a buffer with `pad` additional bytes, and whose arguments are `vs`.
structure Transmissible (p : BcapPacket) (vs : List Variant) (pad : Nat) : Prop where
  inRange  : p.InRange
  args     : p.argList = .ok vs
  stored   : Variant.AllStored vs
  sendable : Value.AllSendable (Variant.values vs)
  size     : 16 + ((Variant.values vs).flatMap Value.argument).length + pad < 4294967296

-- A packet that can be sent, and whose arguments a receiver can read.
structure Legible (p : BcapPacket) (vs : List Variant) (pad : Nat) : Prop where
  inRange  : p.InRange
  args     : p.argList = .ok vs
  stored   : Variant.AllStored vs
  readable : Value.AllReadable (Variant.values vs)
  size     : 16 + ((Variant.values vs).flatMap Value.argument).length + pad < 4294967296

theorem Transmissible.legible {p : BcapPacket} {vs : List Variant} {pad : Nat}
    (h : Transmissible p vs pad) : Legible p vs pad where
  inRange  := h.inRange
  args     := h.args
  stored   := h.stored
  readable := Value.allReadable h.sendable
  size     := h.size

-- The packet `q` carries the same as the packet `p`.
def BcapPacket.Equiv (p q : BcapPacket) : Prop :=
  p.serial = q.serial ∧ p.reserv = q.reserv ∧ p.id = q.id ∧ p.argc = q.argc ∧
  ∃ vs ws, p.argList = .ok vs ∧ q.argList = .ok ws ∧ Variant.values vs = Variant.values ws

-- The CRC slot, if there is one.
def crcBytes : Option UInt16 → List UInt8
  | none     => []
  | some crc => toLe 2 crc.toNat

def fillCrc (buf : List UInt8) : Option UInt16 → List UInt8
  | none     => buf
  | some crc => putCrc buf crc

-- Encoding the packet `p` and decoding the result into `q` yields a packet that carries the same.
def Survives (host : Host) (p q : BcapPacket) (crc : Option UInt16) (next : Nat) : Prop :=
  ∃ len buf r, calcSizePacket p = .ok len ∧
    (∀ dst : List UInt8, dst.length = len + (crcBytes crc).length →
      packet2bytary host p dst = .ok (sOk, buf)) ∧
    bytary2packet host (fillCrc buf crc) q next = .ok r ∧ r.hr = sOk ∧ r.packet.Equiv p

-- The frame of a packet.
def BcapPacket.frame (p : BcapPacket) (vs : List Variant) (crc : List UInt8) : List UInt8 :=
  Bcap.frame p.serial p.reserv p.id (Variant.values vs) crc

theorem fillCrc_frame (serial reserv : Nat) (id : Int) (xs : List Value) (crc : Option UInt16) :
    fillCrc (frame serial reserv id xs (List.replicate (crcBytes crc).length 0)) crc =
      frame serial reserv id xs (crcBytes crc) := by
  cases crc
  case none => rfl
  case some crc =>
    have hl : (frame serial reserv id xs (List.replicate 2 0)).length = _ := length_frame
    simp only [fillCrc, putCrc, bcapPosCrc, crcBytes, length_toLe, hl, List.length_replicate]
    refine (List.splice_append_append ?_ (by simp) List.length_replicate).trans ?_
    · simp only [List.length_append, length_toLe, List.length_singleton]
      omega
    · simp [frame]

-- A receiver that asks for arguments which are allocated by the system accepts any number of them.
theorem checkArgc_auto {q : BcapPacket} (hq : q.argc = argcAuto) (hq' : q.args = none) {n : Nat} :
    Succeeded (checkArgc q n) := by
  simp [checkArgc, hq, hq', Succeeded, sOk]

-- The slots that are given suffice for the arguments that are accepted.
theorem argc_le_of_checkArgc {q : BcapPacket} {n : Nat}
    (hq : ∀ args ∈ q.args, q.argc ≠ argcAuto → q.argc ≤ args.slots.length)
    (h : Succeeded (checkArgc q n)) {args : Args} (ha : q.args = some args) :
    n ≤ args.slots.length := by
  simp only [checkArgc] at h
  by_cases hauto : q.argc = argcAuto
  case pos => simp [hauto, ha, eInvalidArg, Succeeded] at h; exact absurd h (by decide)
  case neg =>
    by_cases hn : q.argc < n
    case pos => simp [hauto, ha, hn] at h; exact absurd h (by decide)
    case neg => exact Nat.le_trans (Nat.not_lt.mp hn) (hq args ha hauto)

theorem argList_fill {serial reserv : Nat} {id : Int} {args : Args} {ws : List Variant} :
    BcapPacket.argList ⟨serial, reserv, id, ws.length, some (args.fill ws)⟩ = .ok ws := by
  simp [BcapPacket.argList, Args.fill]

-- The packet `p` has the given fields, and arguments of the given values.
structure BcapPacket.Holds (p : BcapPacket) (serial reserv : Nat) (id : Int) (xs : List Value) :
    Prop where
  serial : p.serial = serial
  reserv : p.reserv = reserv
  id     : p.id = id
  argc   : p.argc = xs.length
  args   : ∃ ws, p.argList = .ok ws ∧ Variant.values ws = xs

theorem BcapPacket.Holds.equiv_iff {p q : BcapPacket} {xs : List Value} {vs : List Variant}
    (h : q.Holds p.serial p.reserv p.id xs) (hargs : p.argList = .ok vs) (hn : p.argc = xs.length) :
    q.Equiv p ↔ xs = Variant.values vs := by
  obtain ⟨ws, hws, hxs⟩ := h.args
  constructor
  case mp =>
    rintro ⟨_, _, _, _, ws', vs', hws', hvs', he⟩
    cases hws.symm.trans hws'
    cases hargs.symm.trans hvs'
    exact hxs.symm.trans he
  case mpr =>
    exact fun he => ⟨h.serial, h.reserv, h.id, h.argc.trans hn.symm, ws, vs, hws,
      hargs, hxs.trans he⟩

section

variable {host : Host} {serial reserv : Nat} {id : Int} {xs : List Value} {crc : List UInt8}
variable {q : BcapPacket}

-- The slots for the arguments are those of the receiver, or allocated.
theorem fillArgs_frame (hh : host.Ample) (hx : Value.AllFormed xs)
    (hl : (frame serial reserv id xs crc).length < 4294967296) (hne : xs.length ≠ 0)
    {args : Option Args} (hroom : ∀ a ∈ args, xs.length ≤ a.slots.length) (next : Nat) :
    (Value.AllReceivable xs → ∃ r, fillArgs host (frame serial reserv id xs crc)
        ⟨serial, reserv, id, xs.length, args⟩ next = .ok r ∧
      r.hr = sOk ∧ r.packet.Holds serial reserv id (Value.allReceived host xs)) ∧
    (¬Value.AllReceivable xs → ∀ r, fillArgs host (frame serial reserv id xs crc)
        ⟨serial, reserv, id, xs.length, args⟩ next = .ok r → Failed r.hr) := by
  have hread (args : Args) (hr : xs.length ≤ args.slots.length) (next : Nat) :
      let received : Exec Received := do
        let d ← bytary2args host (frame serial reserv id xs crc) xs.length args.slots.length next
        return ⟨d.hr, ⟨serial, reserv, id, xs.length, some (args.fill d.val)⟩, d.cur.next⟩
      (Value.AllReceivable xs → ∃ r, received = .ok r ∧ r.hr = sOk ∧
        r.packet.Holds serial reserv id (Value.allReceived host xs)) ∧
      (¬Value.AllReceivable xs → ∀ r, received = .ok r → Failed r.hr) := by
    have ha := bytary2args_frame hh hx hl hr next
    refine ⟨fun hc => ?fits, fun hc r hr => ?short⟩
    case fits =>
      obtain ⟨ws, cur, he, hv⟩ := ha.left hc
      have hn : xs.length = ws.length := by
        rw [← Variant.length_values, hv, Value.length_allReceived]
      refine ⟨_, by rw [he]; rfl, rfl, rfl, rfl, rfl, ?_, ws, ?_, hv⟩
      · exact (Value.length_allReceived host xs).symm
      · rw [hn]
        exact argList_fill
    case short =>
      obtain ⟨d, he, hr⟩ := ok_of_bind hr
      cases hr
      exact ha.right hc d he
  cases args
  case none =>
    have h := hread ⟨next, List.replicate xs.length none⟩ (by simp) (next + 1)
    simpa only [fillArgs, if_neg hne, mallocArgs, Host.alloc_of_ample hh, Option.map_some] using h
  case some a =>
    have h := hread a (hroom a rfl) next
    simpa only [fillArgs, if_neg hne] using h

-- The receiver accepts the number of arguments, and keeps the promise that there are `argc` slots.
theorem bytary2packet_received (hh : host.Ample) (hx : Value.AllFormed xs)
    (hl : (frame serial reserv id xs crc).length < 4294967296)
    (hr : BcapPacket.InRange ⟨serial, reserv, id, xs.length, none⟩)
    (hs : Succeeded (checkArgc q xs.length))
    (hq : ∀ args ∈ q.args, q.argc ≠ argcAuto → q.argc ≤ args.slots.length) (next : Nat) :
    (Value.AllReceivable xs → ∃ r,
    bytary2packet host (frame serial reserv id xs crc) q next = .ok r ∧
      r.hr = sOk ∧ r.packet.Holds serial reserv id (Value.allReceived host xs)) ∧
    (¬Value.AllReceivable xs →
      ∀ r, bytary2packet host (frame serial reserv id xs crc) q next = .ok r → Failed r.hr) := by
  rw [bytary2packet_frame hl hr.serial hr.reserv ⟨hr.id_ge, hr.id_lt⟩ hr.argc,
    if_neg (not_failed_iff.mpr hs)]
  by_cases hz : xs.length = 0
  case neg =>
    exact fillArgs_frame hh hx hl hz (fun a ha => argc_le_of_checkArgc hq hs ha) next
  case pos =>
    obtain rfl := List.eq_nil_of_length_eq_zero hz
    refine ⟨fun _ => ⟨_, rfl, rfl, rfl, rfl, rfl, rfl, [], ?_, rfl⟩, fun h => absurd trivial h⟩
    cases hq' : q.args <;> simp [BcapPacket.argList, readSlots]

end

namespace Legible

variable {host : Host} {p q : BcapPacket} {vs : List Variant} {pad next : Nat} {crc : List UInt8}

theorem calcSizePacket_eq (h : Legible p vs pad) :
    calcSizePacket p = .ok (16 + ((Variant.values vs).flatMap Value.argument).length) :=
  Bcap.calcSizePacket_eq h.args h.stored h.readable (Nat.lt_of_add_right_lt h.size)

theorem length_frame (p : BcapPacket) (vs : List Variant) (crc : List UInt8) :
    (p.frame vs crc).length = 16 +
    ((Variant.values vs).flatMap Value.argument).length + crc.length :=
  Bcap.length_frame

theorem packet2bytary_eq (h : Legible p vs pad) {dst : List UInt8}
    (hd : dst.length = 16 + ((Variant.values vs).flatMap Value.argument).length + pad) :
    packet2bytary host p dst = .ok (sOk, p.frame vs (List.replicate pad 0)) :=
  Bcap.packet2bytary_eq host h.args h.stored h.readable hd (hd ▸ h.size)

theorem argc_eq (h : Legible p vs pad) : (Variant.values vs).length = p.argc := by
  rw [Variant.length_values, length_of_argList h.args]

-- The receiver accepts the number of arguments, and keeps the promise that there are `argc` slots.
theorem bytary2packet_accepted (h : Legible p vs crc.length) (hh : host.Ample)
    (hs : Succeeded (checkArgc q p.argc))
    (hq : ∀ args ∈ q.args, q.argc ≠ argcAuto → q.argc ≤ args.slots.length) (next : Nat) :
    (Value.AllCreatable (Variant.values vs) →
      ∃ r, bytary2packet host (p.frame vs crc) q next = .ok r ∧
        r.hr = sOk ∧ r.packet.Equiv p) ∧
    (¬Value.AllCreatable (Variant.values vs) →
      ∀ r, bytary2packet host (p.frame vs crc) q next = .ok r → Failed r.hr) := by
  have hl : (p.frame vs crc).length < 4294967296 := by rw [length_frame]; exact h.size
  have hr : BcapPacket.InRange ⟨p.serial, p.reserv, p.id, (Variant.values vs).length, none⟩ :=
    { h.inRange with argc := h.argc_eq.symm ▸ h.inRange.argc }
  have hf :=
    bytary2packet_received hh (Value.allFormed h.readable) hl hr (h.argc_eq.symm ▸ hs) hq next
  rw [allReceived_of_readable host _ h.readable] at hf
  rw [← Value.allReceivable_iff h.readable]
  refine ⟨fun hr => ?_, hf.right⟩
  obtain ⟨r, he, hok, holds⟩ := hf.left hr
  exact ⟨r, he, hok, holds.equiv_iff h.args (h.argc_eq ▸ rfl) |>.mpr rfl⟩

end Legible

section

variable {host : Host} {p q : BcapPacket} {vs : List Variant} {crc : Option UInt16} {next : Nat}

theorem survives_of_creatable (h : Legible p vs (crcBytes crc).length) (hh : host.Ample)
    (hq : q.argc = argcAuto) (hq' : q.args = none) (hv : Value.AllCreatable (Variant.values vs))
    (next : Nat) : Survives host p q crc next := by
  have ⟨r, hr, hok, he⟩ :=
    (h.bytary2packet_accepted hh (checkArgc_auto hq hq') (by simp [hq']) next).left hv
  refine ⟨_, _, r, h.calcSizePacket_eq, fun dst => h.packet2bytary_eq, ?_, hok, he⟩
  rw [BcapPacket.frame, fillCrc_frame]
  exact hr

end

def autoPacket : BcapPacket :=
  ⟨0, 0, 0, argcAuto, none⟩

-- An array of `n` strings without characters.
def emptyStrings (n : Nat) : Variant :=
  .bstrArray ⟨1, some 2, 0, n, 8, n⟩ (List.replicate n none)

end Bcap
