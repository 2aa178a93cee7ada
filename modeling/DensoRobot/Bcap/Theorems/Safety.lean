import DensoRobot.Bcap.Theorems.Extent
import DensoRobot.Bcap.Theorems.RoundTrip

open HRESULT Bytes

namespace Bcap

-- The number of arguments that a packet announces.
def announced (src : List UInt8) : Nat :=
  ofLe (src.window bcapPosArgc 2)

-- Nothing is accessed outside of the memory that was given or requested.
def MemorySafe (r : Exec α) : Prop :=
  r ≠ .error .read ∧ r ≠ .error .write

-- `r` succeeds if `P` holds, and leaves the memory otherwise.
structure Decides (P : Prop) (r : Exec α) : Prop where
  runs   : P → ∃ a, r = .ok a
  leaves : ¬P → r = .error .read ∨ r = .error .write

-- The strings, the arrays and the position itself stay within their bounds in all arguments that
-- are read.
def Tame (host : Host) (src : List UInt8) (q : BcapPacket) (next : Nat) : Prop :=
  let next' := if q.args.isSome then next else next + 1
  wellFramed src → Succeeded (checkArgc q (announced src)) → (q.args.isSome ∨ host.malloc next) →
    Extent.args false host src (announced src) (announced src) ⟨bcapPosDataLen, next'⟩ ≠ .bad

section

variable {host : Host} {src : List UInt8} {lenSrc : Nat}

theorem variants_room {item : Bool → VarType → Nat → Cursor → Extent} {flag : Bool} {n room : Nat}
    (h : n ≤ room) (c : Cursor) : Extent.variants src lenSrc item flag n room c =
      Extent.variants src lenSrc item flag n n c := by
  induction n generalizing room c
  case zero => rfl
  case succ n ih =>
    rcases room with _ | room
    case zero => omega
    have hf : Extent.variants src lenSrc item flag n room =
        Extent.variants src lenSrc item flag n n :=
      funext fun c => ih (by omega) c
    simp only [Extent.variants, hf]

theorem length_of_wellFramed (h : wellFramed src) : 16 ≤ src.length := by
  simp only [wellFramed, bcapSizeMin, Bool.and_eq_true] at h
  exact of_decide_eq_true h.left.left.left

theorem header_of_wellFramed (h : wellFramed src) :
    src.head? = some bcapHeader ∧ ofLe (src.window bcapPosLen bcapSizeLen) = src.length := by
  simp only [wellFramed, Bool.and_eq_true, beq_iff_eq] at h
  exact ⟨List.head?_eq_getElem?.trans h.left.right, h.left.left.right⟩

-- What becomes of the arguments once there are slots for all of them.
theorem bytary2args_extent (host : Host) (strict : Bool) (hw : wellFramed src)
    (hl : src.length < 4294967296)
    {n room : Nat} (hr : n ≤ room) (next : Nat) :
    Agrees (src.length - 1) (releaseAll variantClear) strict ⟨0, next⟩
      (bytary2args host src n room next)
        (Extent.args strict host src n n ⟨bcapPosDataLen, next⟩) := by
  have hm := length_of_wellFramed hw
  rw [Extent.args, ← variants_room hr]
  exact bytary2args_agrees hm hl n room (by simp only [bcapPosDataLen]; omega)

theorem MemorySafe.of_ok {a : α} : MemorySafe (.ok a : Exec α) :=
  ⟨by simp, by simp⟩

namespace Decides

variable {P : Prop} {r : Exec α}

theorem of_ok {a : α} (h : P) : Decides P (.ok a : Exec α) where
  runs _   := ⟨a, rfl⟩
  leaves n := absurd h n

theorem safe_iff (h : Decides P r) : MemorySafe r ↔ P := by
  by_cases hp : P
  case pos =>
    obtain ⟨_, rfl⟩ := h.runs hp
    exact iff_of_true .of_ok hp
  case neg =>
    refine iff_of_false (fun hm => ?_) hp
    exact (h.leaves hp).elim hm.left hm.right

theorem returns_iff (h : Decides P r) : (∃ a, r = .ok a) ↔ P := by
  by_cases hp : P
  case pos => exact iff_of_true (h.runs hp) hp
  case neg =>
    refine iff_of_false ?_ hp
    rcases h.leaves hp with rfl | rfl <;> exact fun ⟨_, h⟩ => by contradiction

end Decides

theorem Agrees.decides {release : α → Exec (List Nat)} {c : Cursor} {r : Exec (Decoded α)}
    {e : Extent} {f : Decoded α → β} (h : Agrees lenSrc release false c r e) :
    Decides (e ≠ .bad) (do return f (← r)) := by
  cases e
  case whole =>
    have ⟨_, hr, _⟩ := h
    exact ⟨fun _ => ⟨_, by rw [hr]; rfl⟩, fun n => absurd (by simp) n⟩
  case cut =>
    have ⟨_, hr, _⟩ := h
    exact ⟨fun _ => ⟨_, by rw [hr]; rfl⟩, fun n => absurd (by simp) n⟩
  case bad =>
    refine ⟨fun hn => absurd rfl hn, fun _ => ?_⟩
    exact (h.left rfl).imp (fun hr => by rw [hr]; rfl) fun hr => by rw [hr]; rfl

-- The packet `q` after the fields in front of the arguments have been read.
def header (src : List UInt8) (q : BcapPacket) : BcapPacket where
  serial := ofLe (src.window bcapPosSerial 2)
  reserv := ofLe (src.window bcapPosReserve 2)
  id     := i32 (ofLe (src.window bcapPosId 4))
  argc   := announced src
  args   := q.args

theorem bytary2packet_accept {q : BcapPacket} (hw : wellFramed src)
    (hf : Succeeded (checkArgc q (announced src))) (next : Nat) :
    bytary2packet host src q next = fillArgs host src (header src q) next := by
  have hf :
    ¬Failed (checkArgc ⟨ofLe (src.window bcapPosSerial 2), ofLe (src.window bcapPosReserve 2),
      i32 (ofLe (src.window bcapPosId 4)), q.argc, q.args⟩ (ofLe (src.window bcapPosArgc 2))) :=
    not_failed_iff.mpr hf
  simp only [bytary2packet, hw, Bool.not_true, Bool.false_eq_true, if_false, if_neg hf]
  rfl

theorem bytary2packet_refuse (host : Host) {q : BcapPacket} (next : Nat)
    (h : wellFramed src → Failed (checkArgc q (announced src))) :
    ∃ hr q', bytary2packet host src q next = .ok ⟨hr, q', next⟩ ∧ Failed hr ∧
      q'.argc = q.argc ∧ q'.args = q.args := by
  by_cases hw : wellFramed src
  case neg => exact ⟨_, q, by simp [bytary2packet, hw], failed_eInvalidPacket, rfl, rfl⟩
  case pos =>
    have hf : Failed (checkArgc ⟨ofLe (src.window bcapPosSerial 2),
        ofLe (src.window bcapPosReserve 2), i32 (ofLe (src.window bcapPosId 4)), q.argc, q.args⟩
        (ofLe (src.window bcapPosArgc 2))) := h hw
    refine ⟨_, { header src q with argc := q.argc }, ?_, h hw, rfl, rfl⟩
    simp only [bytary2packet, hw, Bool.not_true, Bool.false_eq_true, if_false, if_pos hf]
    rfl

variable (host) in
-- `q` is given by a caller that keeps the promise that there are `argc` slots.
theorem bytary2packet_decides (hl : src.length < 4294967296) {q : BcapPacket}
    (hq : ∀ args ∈ q.args, q.argc ≠ argcAuto → q.argc ≤ args.slots.length) (next : Nat) :
    Decides (Tame host src q next) (bytary2packet host src q next) := by
  unfold Tame
  by_cases hr : wellFramed src → Failed (checkArgc q (announced src))
  case pos =>
    have ⟨_, _, he, _⟩ := bytary2packet_refuse host next hr
    rw [he]
    exact .of_ok fun hw hs => absurd (hr hw) (not_failed_iff.mpr hs)
  case neg =>
    have ⟨hw, hs⟩ := Classical.not_imp.mp hr
    have hs := not_failed_iff.mp hs
    rw [bytary2packet_accept hw hs]
    simp only [hw, true_imp_iff, hs]
    by_cases hz : announced src = 0
    case pos =>
      simp only [fillArgs, header, hz, if_true]
      exact .of_ok fun _ => by simp [Extent.args, Extent.variants]
    case neg =>
      cases ha : q.args
      case some args =>
        have hle := argc_le_of_checkArgc hq hs ha
        have he := bytary2args_extent host false hw hl hle next
        simp only [fillArgs, header, ha, if_neg hz, Option.isSome_some, if_true, true_or,
          true_imp_iff]
        exact he.decides
      case none =>
        simp only [fillArgs, header, ha, if_neg hz, Option.isSome_none, Bool.false_eq_true,
          if_false, false_or, mallocArgs, Host.alloc]
        cases hm : host.malloc next
        case false => exact .of_ok fun h => by contradiction
        case true =>
          have hle : announced src ≤
              (List.replicate (announced src) (none : Option Variant)).length :=
            Nat.le_of_eq List.length_replicate.symm
          have he := bytary2args_extent host false hw hl hle (next + 1)
          simp only [if_true, Option.map_some, true_imp_iff]
          exact he.decides

theorem memorySafe_iff (hl : src.length < 4294967296) {q : BcapPacket}
    (hq : ∀ args ∈ q.args, q.argc ≠ argcAuto → q.argc ≤ args.slots.length) (next : Nat) :
    MemorySafe (bytary2packet host src q next) ↔ Tame host src q next :=
  (bytary2packet_decides host hl hq next).safe_iff

end

-- A packet with one argument, a string of 32766 bytes, of which only the first two are present.
def longString : List UInt8 :=
  [1, 32, 0, 0, 0, 1, 0, 0, 0, 17, 0, 0, 0, 1, 0,
    12, 0, 0, 0, 8, 0, 1, 0, 0, 0, 0xFE, 0x7F, 0, 0, 65, 0,
    4]

-- The same packet, but the string has two bytes.
def shortString : List UInt8 :=
  [1, 32, 0, 0, 0, 1, 0, 0, 0, 17, 0, 0, 0, 1, 0,
    12, 0, 0, 0, 8, 0, 1, 0, 0, 0, 2, 0, 0, 0, 65, 0,
    4]

theorem shortString_memorySafe : MemorySafe (bytary2packet ampleHost shortString autoPacket 0) :=
  memorySafe_iff (by decide) (fun _ h => by contradiction) 0 |>.mpr fun _ _ _ => by decide

-- The memory for 16383 characters and their terminator takes `2 ^ 16` bytes, none of which are
-- requested.
theorem longString_writes : bytary2packet ampleHost longString autoPacket 0 = .error .write := by
  rfl

theorem longString_not_memorySafe :
    ¬MemorySafe (bytary2packet ampleHost longString autoPacket 0) :=
  fun h => h.right longString_writes

end Bcap
