import DensoRobot.Common.Theorems.Copy
import DensoRobot.Common.Theorems.Integers
import DensoRobot.Robotalk.Theorems.Records

open HRESULT Bytes Bcap

-- Each character has at least one byte.
def Libc.Multibyte (lib : Libc) : Prop :=
  ∀ {chars : List Nat} {bytes : List UInt8}, lib.wcstombs chars = some bytes →
    chars.length ≤ bytes.length

namespace Robotalk

namespace MiniTpCommand

def Records (lib : Libc) : List MiniTpCommand → List Record → Prop :=
  List.Forall₂ fun cmd r => cmd.record lib = some r

-- The bytes that are written for a command. If a text takes more bytes than it has characters, then
-- some of the bytes that are reserved for it may keep what was there before.
inductive Writes (lib : Libc) : MiniTpCommand → List UInt8 → Prop
  | color (c : Color) (val : UInt8) : Writes lib (.color c val) [c.code, 1, val]
  | shape (s : Shape) (x₁ y₁ x₂ y₂ : UInt8) :
      Writes lib (.shape s x₁ y₁ x₂ y₂) [s.code, 4, x₁, y₁, x₂, y₂]
  | string {text : List Nat} {n : Nat} {bytes : List UInt8} (posX posY size attr : UInt8)
      (hn : n = u16 text.length) (hl : bytes.length = n) (hp : lib.wcstombsInto text n <+: bytes) :
      Writes lib (.string text posX posY size attr)
        ([drawString, UInt8.ofNat (n * 2 + 5), posX, posY, size, UInt8.ofNat n] ++ bytes ++
          0 :: List.replicate n attr)

end MiniTpCommand

open MiniTpCommand (Records Writes)

section

variable {lib : Libc} {cmd : MiniTpCommand} {cmds : List MiniTpCommand} {r : Record}
    {rs : List Record}
variable {bs : List UInt8} {bss : List (List UInt8)}

-- The record of a command is valid if its bytes fit into the packet.
theorem record_valid (h : cmd.record lib = some r) (hl : r.bytes.length ≤ drawSize) : r.Valid where
  attrs := by
    rintro posX posY size text attrs rfl
    cases cmd <;> simp only [MiniTpCommand.record] at h
    case string =>
      obtain ⟨bytes, _, h⟩ := Option.map_eq_some_iff.mp h
      cases h
      exact List.length_replicate
    all_goals cases h
  payload := by
    rw [Record.length_bytes, drawSize] at hl
    omega

theorem records_valid (h : Records lib cmds rs) (hl : (rs.flatMap Record.bytes).length ≤ drawSize) :
    ∀ r ∈ rs, r.Valid := by
  induction h
  case nil => intro r h; cases h
  case cons hr _ ih =>
    rw [List.flatMap_cons, List.length_append] at hl
    intro r h
    cases h
    case head   => exact record_valid hr (Nat.le_trans (Nat.le_add_right ..) hl)
    case tail h => exact ih (Nat.le_trans (Nat.le_add_left ..) hl) r h

theorem length_of_writes (h : cmd.Writes lib bs) : bs.length = cmd.counted := by
  cases h
  case color => rfl
  case shape => rfl
  case string hn hl _ =>
    simp only [List.length_append, List.length_cons, List.length_nil, List.length_replicate, hl, hn,
      MiniTpCommand.counted]
    omega

-- For a plain command, the bytes of its record are written.
theorem writes_record (h : cmd.Writes lib bs) (hp : cmd.Plain lib) :
    ∃ r, cmd.record lib = some r ∧ bs = r.bytes := by
  cases h
  case color c val         => exact ⟨.color c val, rfl, rfl⟩
  case shape s x₁ y₁ x₂ y₂ => exact ⟨.shape s x₁ y₁ x₂ y₂, rfl, rfl⟩
  case string text _ bytes posX posY size attr hn hl hpre =>
    obtain ⟨mbs, hm, hlen⟩ := hp
    have hnil : text = [] → mbs = [] := by
      rintro rfl
      exact List.eq_nil_of_length_eq_zero hlen
    rw [Libc.wcstombsInto_of_length hm (hlen.trans hn.symm) hnil] at hpre
    have heq : mbs = bytes := hpre.eq_of_length (hlen.trans (hn.symm.trans hl.symm))
    subst heq
    refine ⟨.string posX posY size mbs (List.replicate mbs.length attr), ?_, ?_⟩
    · simp only [MiniTpCommand.record, hm, Option.map_some]
    · simp only [Record.bytes, Record.length_payload_string, List.length_replicate, hl]
      simp only [Record.code, Record.payload, hl, List.cons_append, List.nil_append, Nat.mul_two]

-- If the bytes of its record are written, a command is plain.
theorem plain_of_writes {rest rest' : List UInt8} (h : cmd.Writes lib bs)
    (hr : cmd.record lib = some r) (hb : bs.length ≤ drawSize) (hl : r.bytes.length ≤ drawSize)
    (heq : bs ++ rest = r.bytes ++ rest') : cmd.Plain lib := by
  cases h
  case color => trivial
  case shape => trivial
  case string text n bytes posX posY size attr hn hlen hpre =>
    obtain ⟨mbs, hm, hr⟩ := Option.map_eq_some_iff.mp hr
    refine ⟨mbs, hm, ?_⟩
    cases hr
    rw [Record.length_bytes, Record.length_payload_string, List.length_replicate, drawSize] at hl
    simp only [List.length_append, List.length_cons, List.length_nil, List.length_replicate, hlen,
      drawSize] at hb
    simp only [Record.bytes, Record.payload, List.cons_append, List.nil_append,
      List.cons.injEq] at heq
    have hnum : (UInt8.ofNat n).toNat = (UInt8.ofNat mbs.length).toNat :=
      congrArg UInt8.toNat heq.right.right.right.right.right.left
    simp only [UInt8.toNat_ofNat'] at hnum
    omega

end

section

variable (calls : DrawCalls)

def ChangesTo (vt : VarType) (v w : Variant) : Prop :=
  ∃ hr, calls.changeType v vt = (hr, w) ∧ Succeeded hr

def IsNumber (v : Variant) (n : UInt8) : Prop :=
  ∃ w, ChangesTo calls .ui1 v w ∧ bVal w = n

def IsText (v : Variant) (chars : List Nat) : Prop :=
  ∃ w, ChangesTo calls .bstr v w ∧ text (bstrVal w) = chars

-- A variant that is an array of a code and a parameter.
def IsCommand (v : Variant) (code : UInt8) (par : Variant) : Prop :=
  v.isArray = true ∧ ∃ par₀, calls.variants v 2 = [par₀, par] ∧ IsNumber calls par₀ code

-- The variant that a command was given as, of which all parameters are delivered.
inductive GivenAs (v : Variant) : MiniTpCommand → Prop
  | color {c : Color} {par : Variant} {val : UInt8} :
      IsCommand calls v c.code par → IsNumber calls par val → GivenAs v (.color c val)
  | string {par : Variant} {chars : List Nat} {s₀ s₁ s₂ s₃ s₄ : Variant}
      {posX posY size attr : UInt8} :
      IsCommand calls v drawString par → calls.variants par 5 = [s₀, s₁, s₂, s₃, s₄] →
      IsText calls s₀ chars → IsNumber calls s₁ posX → IsNumber calls s₂ posY →
      IsNumber calls s₃ size → IsNumber calls s₄ attr →
      GivenAs v (.string chars posX posY size attr)
  | shape {s : Shape} {par : Variant} {x₁ y₁ x₂ y₂ : UInt8} :
      IsCommand calls v s.code par → calls.bytes par 4 = [x₁, y₁, x₂, y₂] →
      GivenAs v (.shape s x₁ y₁ x₂ y₂)

end

-- What was drawn so far is at the front of `data`.
structure Holding (out : List UInt8) (d : Drawing) : Prop where
  hr   : Succeeded d.hr
  data : out <+: d.data
  size : d.data.length = drawSize
  len  : d.lenData = out.length

section

variable {data out : List UInt8} {i : Nat}

-- Writing behind what is there.
theorem store_behind (bs : List UInt8) (hp : out <+: data) (hi : out.length = i)
    (hl : i + bs.length ≤ data.length) :
    ∃ data', store data i bs = .ok data' ∧ out ++ bs <+: data' ∧ data'.length = data.length := by
  obtain ⟨post, rfl⟩ := hp
  refine ⟨(out ++ post).splice i bs, if_pos hl, ?_, List.length_splice hl⟩
  rw [List.splice_append hi]
  exact List.prefix_append ..

-- More of what is there, up to a position.
theorem prefix_extend {bs : List UInt8} {n : Nat} (hp : out ++ bs <+: data) (hb : bs.length ≤ n)
    (hl : out.length + n ≤ data.length) :
    ∃ bs', out ++ bs' <+: data ∧ bs <+: bs' ∧ bs'.length = n := by
  obtain ⟨post, rfl⟩ := hp
  refine ⟨(bs ++ post).take n, ?_, ?_, ?_⟩
  · rw [List.append_assoc]
    exact (List.prefix_append_right_inj out).mpr (List.take_prefix ..)
  · exact List.prefix_take_iff.mpr ⟨List.prefix_append .., hb⟩
  · rw [List.length_take]
    simp only [List.length_append] at hl ⊢
    omega

end

-- The result of a command, behind what was drawn so far.
inductive Draws (lib : Libc) (cmd : MiniTpCommand) (out : List UInt8) :
    Exec (Except HRESULT Drawing) → Prop
  | written {bs : List UInt8} {d : Drawing} (hl : out.length + cmd.counted ≤ drawSize)
      (hw : cmd.Writes lib bs) (hd : Holding (out ++ bs) d) : Draws lib cmd out (.ok (.ok d))
  | refused (hl : drawSize < out.length + cmd.counted) :
      Draws lib cmd out (.ok (.error eOutOfMemory))

section

variable (lib : Libc) {calls : DrawCalls} {v par : Variant} {cmd : MiniTpCommand} {d : Drawing}
variable {out : List UInt8}

theorem drawCommand_color {c : Color} (h : IsCommand calls v c.code par) : ∃ hr, Succeeded hr ∧
    drawCommand lib calls v d = drawColorCommand calls c.code par { d with hr } := by
  obtain ⟨ha, par₀, hp, w, ⟨hr, hc, hs⟩, hb⟩ := h
  refine ⟨hr, hs, ?_⟩
  simp only [drawCommand, ha, hp, hc, hb, not_true, if_false, if_neg hs.not_failed]
  cases c <;> rfl

theorem drawCommand_string (h : IsCommand calls v drawString par) : ∃ hr, Succeeded hr ∧
    drawCommand lib calls v d = drawStringCommand lib calls drawString par { d with hr } := by
  obtain ⟨ha, par₀, hp, w, ⟨hr, hc, hs⟩, hb⟩ := h
  refine ⟨hr, hs, ?_⟩
  simp only [drawCommand, ha, hp, hc, hb, not_true, if_false, if_neg hs.not_failed]
  rfl

theorem drawCommand_shape {s : Shape} (h : IsCommand calls v s.code par) : ∃ hr, Succeeded hr ∧
    drawCommand lib calls v d = drawShapeCommand calls s.code par { d with hr } := by
  obtain ⟨ha, par₀, hp, w, ⟨hr, hc, hs⟩, hb⟩ := h
  refine ⟨hr, hs, ?_⟩
  simp only [drawCommand, ha, hp, hc, hb, not_true, if_false, if_neg hs.not_failed]
  cases s <;> rfl

-- The cursor after a record that fits.
theorem cursor_eq {n : Nat} (h : out.length + n ≤ drawSize) :
    u8 (out.length + n) = out.length + n :=
  u8_of_lt (Nat.lt_of_le_of_lt h (by decide))

theorem drawColorCommand_draws {c : Color} {val : UInt8} (hd : Holding out d)
    (hn : IsNumber calls par val) :
    Draws lib (.color c val) out (drawColorCommand calls c.code par d) := by
  obtain ⟨w, ⟨hr, hc, hs⟩, rfl⟩ := hn
  simp only [drawColorCommand, hd.len]
  split
  case isTrue hlt => exact .refused hlt
  case isFalse hle =>
    rw [Nat.not_lt] at hle
    obtain ⟨data, hst, hp, hl⟩ := store_behind [c.code, 1, bVal w] hd.data rfl (hd.size ▸ hle)
    simp only [hc, if_neg hs.not_failed, hst, Exec.ok_bind]
    refine .written hle (.color c _) ⟨hs, hp, hl.trans hd.size, ?_⟩
    rw [cursor_eq hle, List.length_append]
    rfl

theorem drawShapeCommand_draws {s : Shape} {x₁ y₁ x₂ y₂ : UInt8} (hd : Holding out d)
    (hb : calls.bytes par 4 = [x₁, y₁, x₂, y₂]) :
    Draws lib (.shape s x₁ y₁ x₂ y₂) out (drawShapeCommand calls s.code par d) := by
  simp only [drawShapeCommand, hb, List.length_cons, List.length_nil, Nat.lt_irrefl,
    if_false, hd.len]
  split
  case isTrue hlt => exact .refused hlt
  case isFalse hle =>
    rw [Nat.not_lt] at hle
    obtain ⟨data, hst, hp, hl⟩ :=
      store_behind [s.code, 4, x₁, y₁, x₂, y₂] hd.data rfl (hd.size ▸ hle)
    have hst : store d.data out.length ([s.code, 4] ++ [x₁, y₁, x₂, y₂].take 4) = .ok data := hst
    simp only [hst, Exec.ok_bind]
    refine .written hle (.shape s ..) ⟨hd.hr, hp, hl.trans hd.size, ?_⟩
    rw [cursor_eq hle, List.length_append]
    rfl

theorem sysStringLen_eq (b : Option Bstr) : sysStringLen b = u16 (text b).length := by
  cases b <;> rfl

theorem changeSubs_delivered {chars : List Nat} {s₀ s₁ s₂ s₃ s₄ : Variant} {n₁ n₂ n₃ n₄ : UInt8}
    (hr₀ : HRESULT) (h₀ : IsText calls s₀ chars) (h₁ : IsNumber calls s₁ n₁)
    (h₂ : IsNumber calls s₂ n₂) (h₃ : IsNumber calls s₃ n₃) (h₄ : IsNumber calls s₄ n₄) :
    ∃ hr w₀ w₁ w₂ w₃ w₄, Succeeded hr ∧
      changeSubs calls hr₀ .bstr [s₀, s₁, s₂, s₃, s₄] = .ok (hr, [w₀, w₁, w₂, w₃, w₄]) ∧
      text (bstrVal w₀) = chars ∧ bVal w₁ = n₁ ∧ bVal w₂ = n₂ ∧ bVal w₃ = n₃ ∧ bVal w₄ = n₄ := by
  obtain ⟨w₀, ⟨_, hc₀, hs₀⟩, ht⟩ := h₀
  obtain ⟨w₁, ⟨_, hc₁, hs₁⟩, hb₁⟩ := h₁
  obtain ⟨w₂, ⟨_, hc₂, hs₂⟩, hb₂⟩ := h₂
  obtain ⟨w₃, ⟨_, hc₃, hs₃⟩, hb₃⟩ := h₃
  obtain ⟨w₄, ⟨hr, hc₄, hs₄⟩, hb₄⟩ := h₄
  refine ⟨hr, w₀, w₁, w₂, w₃, w₄, hs₄, ?_, ht, hb₁, hb₂, hb₃, hb₄⟩
  simp only [changeSubs, hc₀, hc₁, hc₂, hc₃, hc₄, if_neg hs₀.not_failed, if_neg hs₁.not_failed,
    if_neg hs₂.not_failed, if_neg hs₃.not_failed, if_neg hs₄.not_failed]
  rfl

-- The four parts of a string are written one behind the other.
theorem store_string {data : List UInt8} (hdr text attrs : List UInt8) {n : Nat} (hp : out <+: data)
    (hhdr : hdr.length = 6) (ht : text.length ≤ n) (ha : attrs.length = n)
    (hl : out.length + (2 * n + 7) ≤ data.length) : ∃ bytes data₁ data₂ data₃ data₄,
      store data out.length hdr = .ok data₁ ∧ store data₁ (out.length + 6) text = .ok data₂ ∧
      store data₂ (out.length + n + 6) [0] = .ok data₃ ∧
      store data₃ (out.length + n + 7) attrs = .ok data₄ ∧ data₄.length = data.length ∧
      bytes.length = n ∧ text <+: bytes ∧ out ++ (hdr ++ bytes ++ 0 :: attrs) <+: data₄ := by
  obtain ⟨data₁, hst₁, hp₁, hl₁⟩ := store_behind hdr hp rfl (by omega)
  have hi₁ : (out ++ hdr).length = out.length + 6 := by rw [List.length_append, hhdr]
  obtain ⟨data₂, hst₂, hp₂, hl₂⟩ := store_behind text hp₁ hi₁ (by omega)
  obtain ⟨bytes, hp₂, hpre, hn⟩ := prefix_extend hp₂ ht (by omega)
  have hi₂ : (out ++ hdr ++ bytes).length = out.length + n + 6 := by
    rw [List.length_append, hi₁, hn]
    omega
  obtain ⟨data₃, hst₃, hp₃, hl₃⟩ :=
    store_behind [0] hp₂ hi₂ (by rw [List.length_singleton]; omega)
  have hi₃ : (out ++ hdr ++ bytes ++ [0]).length = out.length + n + 7 := by
    rw [List.length_append, hi₂, List.length_singleton]
  obtain ⟨data₄, hst₄, hp₄, hl₄⟩ := store_behind attrs hp₃ hi₃ (by omega)
  refine ⟨bytes, data₁, data₂, data₃, data₄, hst₁, hst₂, hst₃, hst₄, by omega, hn, hpre, ?_⟩
  simpa only [List.append_assoc, List.singleton_append] using hp₄

theorem drawStringCommand_draws {chars : List Nat} {s₀ s₁ s₂ s₃ s₄ : Variant}
    {posX posY size attr : UInt8} (hd : Holding out d)
    (hv : calls.variants par 5 = [s₀, s₁, s₂, s₃, s₄]) (h₀ : IsText calls s₀ chars)
    (h₁ : IsNumber calls s₁ posX) (h₂ : IsNumber calls s₂ posY) (h₃ : IsNumber calls s₃ size)
    (h₄ : IsNumber calls s₄ attr) :
    Draws lib (.string chars posX posY size attr) out
      (drawStringCommand lib calls drawString par d) := by
  obtain ⟨hr, w₀, w₁, w₂, w₃, w₄, hs, hc, rfl, rfl, rfl, rfl, rfl⟩ :=
    changeSubs_delivered d.hr h₀ h₁ h₂ h₃ h₄
  have hlen : u16 (text (bstrVal w₀)).length < 65536 := u16_lt
  generalize hn : u16 (text (bstrVal w₀)).length = n at hlen
  have hcmd : u32 (n * 2 + 5) = n * 2 + 5 := u32_of_lt (by omega)
  have hout : out.length ≤ drawSize := hd.size ▸ hd.data.length_le
  rw [drawSize] at hout
  have hsum : u32 (out.length + (n * 2 + 5) + 2) = out.length + (2 * n + 7) := by
    rw [u32_of_lt] <;> omega
  have hcounted : MiniTpCommand.counted (.string (text (bstrVal w₀)) (bVal w₁) (bVal w₂) (bVal w₃)
      (bVal w₄)) = 2 * n + 7 := by
    rw [MiniTpCommand.counted, hn]
  simp only [drawStringCommand, hv, hc, List.length_cons, List.length_nil, Nat.lt_irrefl, if_false,
    List.take, List.getD_cons_zero, List.getD_cons_succ, sysStringLen_eq, hn, hcmd, hd.len, hsum]
  split
  case isTrue hlt => exact .refused (hcounted ▸ hlt)
  case isFalse hle =>
    rw [Nat.not_lt] at hle
    obtain ⟨bytes, data₁, data₂, data₃, data₄, hst₁, hst₂, hst₃, hst₄, hl, hb, hpre, hp⟩ :=
      store_string [drawString, UInt8.ofNat (n * 2 + 5), bVal w₁, bVal w₂, bVal w₃, UInt8.ofNat n]
        (lib.wcstombsInto (text (bstrVal w₀)) n) (List.replicate n (bVal w₄)) hd.data rfl
        Libc.length_wcstombsInto_le List.length_replicate (hd.size ▸ hle)
    simp only [hst₁, hst₂, hst₃, hst₄, Exec.ok_bind]
    refine .written (hcounted ▸ hle)
      (.string (bVal w₁) (bVal w₂) (bVal w₃) (bVal w₄) hn.symm hb hpre)
      ⟨hs, hp, hl.trans hd.size, ?_⟩
    have hu : u8 (n * 2 + 5 + 2) = 2 * n + 7 := by
      rw [drawSize] at hle
      rw [u8_of_lt] <;> omega
    rw [hu, cursor_eq hle]
    simp only [List.length_append, List.length_cons, List.length_nil, List.length_replicate, hb]
    omega

-- What a command does to the packet.
theorem drawCommand_draws (hd : Holding out d) (hv : GivenAs calls v cmd) :
    Draws lib cmd out (drawCommand lib calls v d) := by
  cases hv
  case color hc hn =>
    obtain ⟨hr, hs, he⟩ := drawCommand_color lib (d := d) hc
    exact he ▸ drawColorCommand_draws lib ⟨hs, hd.data, hd.size, hd.len⟩ hn
  case string hc hv h₀ h₁ h₂ h₃ h₄ =>
    obtain ⟨hr, hs, he⟩ := drawCommand_string lib (d := d) hc
    exact he ▸ drawStringCommand_draws lib ⟨hs, hd.data, hd.size, hd.len⟩ hv h₀ h₁ h₂ h₃ h₄
  case shape hc hb =>
    obtain ⟨hr, hs, he⟩ := drawCommand_shape lib (d := d) hc
    exact he ▸ drawShapeCommand_draws lib ⟨hs, hd.data, hd.size, hd.len⟩ hb

end

-- The result of some commands, behind what was drawn before them.
inductive DrawsAll (lib : Libc) (cmds : List MiniTpCommand) (out : List UInt8) :
    Exec (Except HRESULT Drawing) → Prop
  | written {bss : List (List UInt8)} {d : Drawing}
      (hl : out.length + (cmds.map MiniTpCommand.counted).sum ≤ drawSize)
      (hw : List.Forall₂ (Writes lib) cmds bss) (hd : Holding (out ++ bss.flatten) d) :
      DrawsAll lib cmds out (.ok (.ok d))
  | refused (hl : drawSize < out.length + (cmds.map MiniTpCommand.counted).sum) :
      DrawsAll lib cmds out (.ok (.error eOutOfMemory))

section

variable (lib : Libc) {calls : DrawCalls} {vs : List Variant} {cmds : List MiniTpCommand}

theorem drawCommands_draws (hv : List.Forall₂ (GivenAs calls) vs cmds)
    {out : List UInt8} {d : Drawing}
    (hd : Holding out d) : DrawsAll lib cmds out (drawCommands lib calls vs d) := by
  induction hv generalizing out d
  case nil =>
    refine .written ?_ .nil ?_
    · exact hd.size ▸ hd.data.length_le
    · rwa [List.flatten_nil, List.append_nil]
  case cons v cmd vs cmds hv _ ih =>
    have hdraw := drawCommand_draws lib hd hv
    simp only [drawCommands]
    revert hdraw
    generalize drawCommand lib calls v d = x
    intro hdraw
    cases hdraw
    case refused hl =>
      refine .refused (Nat.lt_of_lt_of_le hl ?_)
      rw [List.map_cons, List.sum_cons]
      omega
    case written bs d' hl hw hd' =>
      have hrun := ih hd'
      simp only [Exec.ok_bind]
      revert hrun
      generalize drawCommands lib calls vs d' = x
      intro hrun
      have hsum : (out ++ bs).length + (cmds.map MiniTpCommand.counted).sum =
          out.length + ((cmd :: cmds).map MiniTpCommand.counted).sum := by
        rw [List.length_append, length_of_writes hw, List.map_cons, List.sum_cons, Nat.add_assoc]
      cases hrun
      case refused hl => exact .refused (hsum ▸ hl)
      case written hl hws hd =>
        refine .written (hsum ▸ hl) (.cons hw hws) ?_
        rwa [List.flatten_cons, ← List.append_assoc]

variable {lib} {data : List UInt8} {psa : ArrayHeader}

theorem holding_start (hd : data.length = drawSize) : Holding [] ⟨sOk, data, 0⟩ :=
  ⟨succeeded_sOk, List.nil_prefix, hd, rfl⟩

-- The packet is sent with what was written for the commands, unless they are too long.
theorem drawMiniTp_draws (hv : psa.Vector .variant) (hn : vs.length = psa.cElements)
    (hne : cmds ≠ [])
    (hc : List.Forall₂ (GivenAs calls) vs cmds) (hd : data.length = drawSize) :
    (∃ bss, (cmds.map MiniTpCommand.counted).sum ≤ drawSize ∧ List.Forall₂ (Writes lib) cmds bss ∧
      drawMiniTp lib calls data (.variantArray psa vs) = .ok (.ok bss.flatten)) ∨
    (drawSize < (cmds.map MiniTpCommand.counted).sum ∧
      drawMiniTp lib calls data (.variantArray psa vs) = .ok (.error eOutOfMemory)) := by
  have hpos : psa.cElements ≠ 0 := by
    intro h0
    rw [← hn, List.length_eq_zero_iff] at h0
    subst h0
    cases hc
    exact hne rfl
  have hcap : ¬psa.cap < psa.cElements := by
    cases hv
    case empty h _ _ _    => exact absurd h hpos
    case full _ _ _ hcap _ => exact Nat.not_lt.mpr (Nat.le_of_eq hcap.symm)
  have hall : (vs ++ List.replicate (psa.cElements - vs.length) (Variant.init false .empty)).take
      psa.cElements = vs := hn ▸ List.take_left
  have hrun := drawCommands_draws lib hc (holding_start hd)
  have hvt : ¬(Variant.variantArray psa vs).vt ≠ VarType.word true .variant := not_not.mpr rfl
  simp only [drawMiniTp, if_neg hvt, if_neg hpos, if_neg hcap, hall]
  revert hrun
  generalize drawCommands lib calls vs ⟨sOk, data, 0⟩ = x
  intro hrun
  cases hrun
  case refused hl => exact .inr ⟨by simpa using hl, rfl⟩
  case written bss d hl hw hd =>
    refine .inl ⟨bss, by simpa using hl, hw, ?_⟩
    have htake : d.data.take d.lenData = bss.flatten := by
      rw [hd.len, ← List.prefix_iff_eq_take.mp hd.data, List.nil_append]
    simp only [Exec.ok_bind, if_neg hd.hr.not_failed, htake]
    rfl

-- A drawing of commands stays in the packet, and what is sent tells the commands.
structure DrawsWithin (lib : Libc) (calls : DrawCalls) (data : List UInt8) (psa : ArrayHeader)
    (vs : List Variant) (cmds : List MiniTpCommand) : Prop where
  inside  : ∀ f, drawMiniTp lib calls data (.variantArray psa vs) ≠ .error f
  cursor  : ∀ {k d}, drawCommands lib calls (vs.take k) ⟨sOk, data, 0⟩ = .ok (.ok d) →
    d.lenData = ((cmds.take k).map MiniTpCommand.counted).sum
  records : ∀ {sent}, drawMiniTp lib calls data (.variantArray psa vs) = .ok (.ok sent) →
    ∃ rs, Records lib cmds rs ∧ sent = rs.flatMap Record.bytes ∧ parse sent = some rs ∧
      sent.length ≤ rtkSizeData - rtkSizeCrc
  sends   : ∀ {rs}, Records lib cmds rs → (rs.flatMap Record.bytes).length ≤ drawSize →
    ∃ sent, drawMiniTp lib calls data (.variantArray psa vs) = .ok (.ok sent)
  refuses : ∀ {rs}, Records lib cmds rs → drawSize < (rs.flatMap Record.bytes).length →
    drawMiniTp lib calls data (.variantArray psa vs) = .ok (.error eOutOfMemory)

end

section

variable {lib : Libc} {cmds : List MiniTpCommand} {bss : List (List UInt8)} {rs : List Record}

theorem length_of_writesAll (h : List.Forall₂ (Writes lib) cmds bss) :
    bss.flatten.length = (cmds.map MiniTpCommand.counted).sum := by
  induction h
  case nil => rfl
  case cons hw _ ih =>
    rw [List.flatten_cons, List.length_append, length_of_writes hw, ih, List.map_cons,
      List.sum_cons]

theorem writesAll_records (h : List.Forall₂ (Writes lib) cmds bss)
    (hp : ∀ cmd ∈ cmds, cmd.Plain lib) :
    ∃ rs, Records lib cmds rs ∧ bss.flatten = rs.flatMap Record.bytes := by
  induction h
  case nil => exact ⟨[], .nil, rfl⟩
  case cons hw _ ih =>
    obtain ⟨r, hr, rfl⟩ := writes_record hw (hp _ <| List.mem_cons_self ..)
    obtain ⟨rs, hrs, heq⟩ := ih fun cmd h => hp cmd <| List.mem_cons_of_mem _ h
    refine ⟨r :: rs, .cons hr hrs, ?_⟩
    rw [List.flatten_cons, heq, List.flatMap_cons]

theorem plain_of_writesAll (h : List.Forall₂ (Writes lib) cmds bss) (hr : Records lib cmds rs)
    (heq : bss.flatten = rs.flatMap Record.bytes) (hl : bss.flatten.length ≤ drawSize) :
    ∀ cmd ∈ cmds, cmd.Plain lib := by
  induction h generalizing rs
  case nil => intro cmd h; cases h
  case cons hw _ ih =>
    cases hr
    case cons r rs hr hrs =>
      have hl' := heq ▸ hl
      rw [List.flatten_cons, List.flatMap_cons] at heq
      rw [List.flatten_cons, List.length_append] at hl
      rw [List.flatMap_cons, List.length_append] at hl'
      have hplain := plain_of_writes hw hr (Nat.le_trans (Nat.le_add_right ..) hl)
        (Nat.le_trans (Nat.le_add_right ..) hl') heq
      obtain ⟨r', hr', rfl⟩ := writes_record hw hplain
      cases hr.symm.trans hr'
      intro cmd h
      cases h
      case head   => exact hplain
      case tail h =>
        exact ih hrs (List.append_cancel_left heq) (Nat.le_trans (Nat.le_add_left ..) hl) cmd h

-- The record of a command is not shorter than it is computed to be.
theorem counted_le (hm : lib.Multibyte) (h : Records lib cmds rs) :
    (cmds.map MiniTpCommand.counted).sum ≤ (rs.flatMap Record.bytes).length := by
  induction h
  case nil => exact Nat.zero_le _
  case cons cmd r _ _ hr _ ih =>
    rw [List.map_cons, List.sum_cons, List.flatMap_cons, List.length_append]
    refine Nat.add_le_add ?_ ih
    cases cmd <;> simp only [MiniTpCommand.record] at hr
    case string text _ _ _ _ =>
      obtain ⟨bytes, hb, hr⟩ := Option.map_eq_some_iff.mp hr
      cases hr
      have hle : u16 text.length ≤ bytes.length := Nat.le_trans u16_le (hm hb)
      rw [Record.length_bytes, Record.length_payload_string, List.length_replicate,
        MiniTpCommand.counted]
      omega
    all_goals
      cases hr
      exact Nat.le_refl _

theorem records_unique {rs' : List Record} (h : Records lib cmds rs) (h' : Records lib cmds rs') :
    rs = rs' := by
  induction h generalizing rs'
  case nil => cases h'; rfl
  case cons hr _ ih =>
    cases h'
    case cons hr' hrs' =>
      cases hr.symm.trans hr'
      rw [ih hrs']

end

section

variable (lib : Libc) {calls : DrawCalls} {vs : List Variant} {cmds : List MiniTpCommand}
variable {data : List UInt8} {psa : ArrayHeader}

theorem drawMiniTp_within_iff (hm : lib.Multibyte) (hv : psa.Vector .variant)
    (hn : vs.length = psa.cElements) (hne : cmds ≠ [])
    (hc : List.Forall₂ (GivenAs calls) vs cmds) (hd : data.length = drawSize) :
    DrawsWithin lib calls data psa vs cmds ↔
      ((cmds.map MiniTpCommand.counted).sum ≤ drawSize → ∀ cmd ∈ cmds, cmd.Plain lib) := by
  have hcursor : ∀ {k d}, drawCommands lib calls (vs.take k) ⟨sOk, data, 0⟩ = .ok (.ok d) →
      d.lenData = ((cmds.take k).map MiniTpCommand.counted).sum := by
    intro k d h
    have hrun := h ▸ drawCommands_draws lib (List.forall₂_take k hc) (holding_start hd)
    cases hrun
    case written hw hd => rw [hd.len, List.nil_append, length_of_writesAll hw]
  have hdraw : (∃ bss, _ ∧ List.Forall₂ (Writes lib) cmds bss ∧ _) ∨ _ :=
    drawMiniTp_draws hv hn hne hc hd
  constructor
  case mp =>
    intro h hl
    cases hdraw
    case inr hd => exact absurd hl (Nat.not_le.mpr hd.left)
    case inl hd =>
      obtain ⟨bss, _, hw, hr⟩ := hd
      obtain ⟨rs, hrs, heq, _, _⟩ := h.records hr
      exact plain_of_writesAll hw hrs heq (length_of_writesAll hw ▸ hl)
  case mpr =>
    intro hp
    cases hdraw
    case inr hd =>
      obtain ⟨hl, hr⟩ := hd
      constructor
      case inside  => intro f h; cases hr.symm.trans h
      case cursor  => exact hcursor
      case records => intro sent h; cases hr.symm.trans h
      case sends   =>
        intro rs hrs h
        exact absurd (Nat.le_trans (counted_le hm hrs) h) (Nat.not_le.mpr hl)
      case refuses => intro _ _ _; exact hr
    case inl hd =>
      obtain ⟨bss, hl, hw, hr⟩ := hd
      obtain ⟨rs, hrs, heq⟩ := writesAll_records hw (hp hl)
      have hlen : bss.flatten.length ≤ drawSize := length_of_writesAll hw ▸ hl
      constructor
      case inside  => intro f h; cases hr.symm.trans h
      case cursor  => exact hcursor
      case records =>
        intro sent h
        cases hr.symm.trans h
        exact ⟨rs, hrs, heq, heq ▸ parse_flatMap (records_valid hrs (heq ▸ hlen)), hlen⟩
      case sends   => intro _ _ _; exact ⟨_, hr⟩
      case refuses =>
        intro rs' hrs' h
        rw [records_unique hrs' hrs, ← heq] at h
        exact absurd hlen (Nat.not_le.mpr h)

end

-- Calls that deliver parameters which have the right type already.
def directCalls : DrawCalls where
  variants v dwSize := match v with
    | .variantArray _ data => data.take dwSize
    | _                    => []
  bytes v dwSize := match v with
    | .variantArray _ data => (data.take dwSize).map bVal
    | _                    => []
  changeType v _ := (sOk, v)

def utf8Libc : Libc :=
  { integerLibc with
    wcstombs := fun chars =>
      if ∀ c ∈ chars, c.isValidChar then some
        (chars.flatMap fun c => String.utf8EncodeChar (.ofNat c))
      else none }

theorem utf8Libc_multibyte : utf8Libc.Multibyte := by
  intro chars bytes h
  simp only [utf8Libc] at h
  split at h
  case isFalse => cases h
  case isTrue  =>
    cases h
    clear * -
    induction chars
    case nil => exact Nat.le_refl _
    case cons c chars ih =>
      have hc : 1 ≤ (String.utf8EncodeChar (.ofNat c)).length := by
        rw [String.length_utf8EncodeChar]
        exact Char.utf8Size_pos _
      rw [List.flatMap_cons, List.length_append, List.length_cons, Nat.add_comm]
      exact Nat.add_le_add hc ih

def vectorHeader (n : Nat) : ArrayHeader :=
  ⟨0, some 1, 0, n, 24, n⟩

def colorVariant (c : Color) (val : Nat) : Variant :=
  .variantArray (vectorHeader 2) [.scalar .ui1 c.code.toNat, .scalar .ui1 val]

-- A string in the upper left corner.
def stringVariant (chars : List Nat) : Variant :=
  .variantArray (vectorHeader 2) [.scalar .ui1 drawString.toNat,
    .variantArray (vectorHeader 5) <|
      .bstr (some ⟨2, chars⟩) :: List.replicate 4 (.scalar .ui1 0)]

theorem isNumber_direct (n : Nat) : IsNumber directCalls (.scalar .ui1 n) (UInt8.ofNat n) :=
  ⟨_, ⟨sOk, rfl, succeeded_sOk⟩, rfl⟩

theorem isCommand_direct (code : Nat) (par : Variant) :
    IsCommand directCalls (.variantArray (vectorHeader 2) [.scalar .ui1 code, par])
      (UInt8.ofNat code)
      par :=
  ⟨rfl, _, rfl, isNumber_direct code⟩

theorem givenAs_color (c : Color) (val : Nat) :
    GivenAs directCalls (colorVariant c val) (.color c (UInt8.ofNat val)) := by
  have h := isCommand_direct c.code.toNat (.scalar .ui1 val)
  rw [UInt8.ofNat_toNat] at h
  exact .color h (isNumber_direct val)

theorem givenAs_string (chars : List Nat) :
    GivenAs directCalls (stringVariant chars) (.string (wcs chars) 0 0 0 0) :=
  .string (isCommand_direct ..) rfl ⟨_, ⟨sOk, rfl, succeeded_sOk⟩, rfl⟩ (isNumber_direct 0)
    (isNumber_direct 0) (isNumber_direct 0) (isNumber_direct 0)

-- A color and the string `AB`.
theorem color_string_within :
    DrawsWithin utf8Libc directCalls (List.replicate 248 0) (vectorHeader 2)
    [colorVariant .fg 1, stringVariant [65, 66]] [.color .fg 1, .string [65, 66] 0 0 0 0] := by
  refine (drawMiniTp_within_iff utf8Libc utf8Libc_multibyte
    (.full rfl (by decide) rfl rfl (by decide))
    rfl (by decide) (.cons (givenAs_color .fg 1) (.cons (givenAs_string [65, 66]) .nil)) rfl).mpr ?_
  intro _ cmd h
  simp only [List.mem_cons, List.not_mem_nil, or_false] at h
  cases h
  case inl h => exact h ▸ trivial
  case inr h => exact h ▸ ⟨[65, 66], by decide, rfl⟩

-- The letter `é` has two bytes, for which one is reserved.
theorem accent_not_within : List.Forall₂ (GivenAs directCalls) [stringVariant [0xE9]]
      [.string [0xE9] 0 0 0 0] ∧
    ¬DrawsWithin utf8Libc directCalls (List.replicate 248 0) (vectorHeader 1) [stringVariant [0xE9]]
      [.string [0xE9] 0 0 0 0] := by
  constructor
  case left => exact .cons (givenAs_string [0xE9]) .nil
  case right =>
    intro h
    have hrun : drawMiniTp utf8Libc directCalls (List.replicate 248 0)
        (.variantArray (vectorHeader 1) [stringVariant [0xE9]]) =
          .ok (.ok [0x20, 7, 0, 0, 0, 1, 0, 0, 0]) := by
      decide +kernel
    obtain ⟨rs, hrs, heq, -⟩ := h.records hrun
    cases hrs
    case cons hr hrs =>
      cases hrs
      have hrec : (MiniTpCommand.string [0xE9] 0 0 0 0).record utf8Libc =
          some (.string 0 0 0 [0xC3, 0xA9] [0, 0]) := by
        have hbytes : utf8Libc.wcstombs [0xE9] = some [0xC3, 0xA9] := by decide
        rw [MiniTpCommand.record, hbytes]
        rfl
      cases hrec.symm.trans hr
      exact absurd heq (by decide)

end Robotalk
