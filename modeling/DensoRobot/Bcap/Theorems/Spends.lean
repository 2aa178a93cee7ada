import DensoRobot.Bcap.Theorems.CleanUp
import DensoRobot.Bcap.Theorems.Decode

open HRESULT Bytes

namespace Bcap

-- Besides, it has the property `P`.
def Takes (lenSrc : Nat) (P : α → Prop) (w : α → Nat) (c : Cursor) (r : Exec (Decoded α)) : Prop :=
  ∀ d, r = .ok d → Succeeded d.hr →
    P d.val ∧ c.offset + w d.val ≤ d.cur.offset ∧ d.cur.offset ≤ lenSrc

namespace Takes

variable {lenSrc : Nat} {P : α → Prop} {w : α → Nat} {c c' : Cursor} {r : Exec (Decoded α)}

theorem failed {hr : HRESULT} (h : Failed hr) (a : α) :
    Takes lenSrc P w c (.ok ⟨hr, a, c'⟩) := by
  rintro _ ⟨⟩ hs
  exact absurd h (not_failed_iff.mpr hs)

theorem error (f : Fault) : Takes lenSrc P w c (.error f) :=
  fun _ h => by contradiction

theorem whole {a : α} (ha : P a) (hw : w a = 0) (hc : c.offset ≤ lenSrc) :
    Takes lenSrc P w c (.ok ⟨sOk, a, c⟩) := by
  rintro _ ⟨⟩ _
  exact ⟨ha, Nat.le_of_eq (congrArg (c.offset + ·) hw), hc⟩

theorem map {Q : β → Prop} {w' : β → Nat} {g : α → β} (h : Takes lenSrc P w c' r)
    (hQ : ∀ a, P a → Q (g a)) (hw : ∀ a, c.offset + w' (g a) ≤ c'.offset + w a) :
    Takes lenSrc Q w' c (do let d ← r; return { d with val := g d.val }) := by
  intro d hd hs
  have ⟨d', hd', he⟩ := ok_of_bind hd
  cases he
  have ⟨hP, hl, hb⟩ := h d' hd' hs
  exact ⟨hQ _ hP, Nat.le_trans (hw d'.val) hl, hb⟩

-- An element, which the rest of a list follows.
theorem cons {Ps Qs : List α → Prop} {ws : List α → Nat}
    (hcons : ∀ a as, ws (a :: as) = w a + ws as)
    (hPs : ∀ a as, P a → Ps as → Qs (a :: as))
    (h : Takes lenSrc P w c r) {k : Cursor → Exec (Decoded (List α))}
    (hk : ∀ c' : Cursor, c'.offset ≤ lenSrc → Takes lenSrc Ps ws c' (k c')) :
    Takes lenSrc Qs ws c (do
      let d ← r
      if Failed d.hr then
        return { d with val := [d.val] }
      let ds ← k d.cur
      return { ds with val := d.val :: ds.val }) := by
  intro d hd hs
  obtain ⟨d', hd', he⟩ := ok_of_bind hd
  by_cases hf : Failed d'.hr
  case pos =>
    rw [if_pos hf] at he
    cases he
    exact absurd hf (not_failed_iff.mpr hs)
  case neg =>
    rw [if_neg hf] at he
    obtain ⟨ds, hds, he⟩ := ok_of_bind he
    cases he
    obtain ⟨hP, hl, hb⟩ := h d' hd' (not_failed_iff.mp hf)
    obtain ⟨hPs', hl', hb'⟩ := hk d'.cur hb ds hds hs
    have hw := hcons d'.val ds.val
    exact ⟨hPs _ _ hP hPs', by simp only; omega, hb'⟩

end Takes

section

variable {src : List UInt8} {lenSrc : Nat} {host : Host} {c : Cursor}

theorem fetch_takes (hl : src.length < 4294967296) {P : α → Prop} {w : α → Nat} {c₀ : Cursor}
    {size : Nat} {a : α} {k : List UInt8 → Cursor → Exec (Decoded α)}
    (hk : ∀ bs c', bs.length = size → c'.offset = c.offset + size → c'.offset ≤ lenSrc →
      Takes lenSrc P w c₀ (k bs c')) :
    Takes lenSrc P w c₀ (fetch src lenSrc size a c k) := by
  simp only [fetch]
  by_cases hlen : lenSrc < u32 (c.offset + size)
  case pos =>
    rw [if_pos hlen]
    exact .failed failed_eInvalidPacket a
  case neg =>
    rw [if_neg hlen]
    by_cases hs : c.offset + size ≤ src.length
    case neg =>
      rw [if_neg hs]
      exact .error _
    case pos =>
      have hu : u32 (c.offset + size) = c.offset + size := u32_of_lt (by omega)
      rw [if_pos hs]
      exact hk _ _ (List.length_window hs) hu (by simp only; omega)

-- All elements have been read, and were found room for.
structure Elements (argc room : Nat) (P : α → Prop) (as : List α) : Prop where
  length : as.length = argc
  room   : argc ≤ room
  each   : ∀ a ∈ as, P a

theorem Elements.nil {P : α → Prop} (room : Nat) : Elements 0 room P [] where
  length := rfl
  room   := Nat.zero_le _
  each   := fun _ h => absurd h List.not_mem_nil

theorem Elements.cons {argc room : Nat} {P : α → Prop} {a : α} {as : List α} (ha : P a)
    (h : Elements argc room P as) : Elements (argc + 1) (room + 1) P (a :: as) where
  length := congrArg (· + 1) h.length
  room   := Nat.succ_le_succ h.room
  each   := List.forall_mem_cons.mpr ⟨ha, h.each⟩

theorem getMany_takes (hl : src.length < 4294967296) {size : Nat} (conv : List UInt8 → β)
    {w : β → Nat} (hw : ∀ bs, bs.length = size → w (conv bs) = size) (argc room : Nat)
    (hc : c.offset ≤ lenSrc) :
    Takes lenSrc (Elements argc room fun b => ∃ bs, bs.length = size ∧ b = conv bs)
      (fun as => (as.map w).sum) c (getMany src lenSrc size conv argc room c) := by
  induction argc generalizing room c
  case zero => exact .whole (.nil room) rfl hc
  case succ argc ih =>
    refine fetch_takes hl fun bs c' hbs hc' hb => ?_
    cases room
    case zero => exact .error _
    case succ room =>
      refine (ih room hb).map (fun as h => .cons ⟨bs, hbs, rfl⟩ h) fun as => ?_
      simp only [List.map_cons, List.sum_cons, hw bs hbs]
      omega

-- The memory of a string that was read completely is large enough for it.
theorem isText_of_capacity {cs : List Nat} {n : Nat} (hn : cs.length = n)
    (hroom : n ≤ bstrCapacity (u16 n)) (hcs : ∀ c ∈ cs, c < 65536) : IsText (wcs cs) := by
  have hle : (wcs cs).length ≤ cs.length := (List.takeWhile_sublist _).length_le
  rw [bstrCapacity_eq, u16] at hroom
  refine ⟨by omega, fun c hc => ⟨?_, hcs c ((List.takeWhile_sublist _).subset hc)⟩⟩
  have hne := List.mem_takeWhile_imp hc
  exact Nat.pos_of_ne_zero (by simpa using hne)

theorem getBstr_takes (hl : src.length < 4294967296) (slot : Bool) :
    Takes lenSrc (fun b => slot = true ∧ IsText (Variant.text b))
      (fun b => (textBytes (Variant.text b)).length) c (getBstr host src lenSrc slot c) := by
  refine fetch_takes hl fun bs c' _ hc' hb => ?_
  cases slot
  case false => exact .error _
  case true =>
    intro d hd hs
    have ⟨⟨b, next⟩, _, hd⟩ := ok_of_bind hd
    cases b
    case none =>
      cases hd
      exact absurd failed_eOutOfMemory (not_failed_iff.mpr hs)
    case some b =>
      have ⟨d', hd', hd⟩ := ok_of_bind hd
      cases hd
      have ⟨hmany, hle, hb'⟩ := getMany_takes hl ofLe (w := fun _ => 2) (fun _ _ => rfl) _ _
        (c := ⟨c'.offset, next⟩) hb d' hd' hs
      have hchars : ∀ n ∈ d'.val, n < 65536 := by
        intro n hn
        have ⟨bs, hbs, he⟩ := hmany.each n hn
        have hlt := ofLe_lt bs
        rw [hbs] at hlt
        exact he ▸ hlt
      refine ⟨⟨rfl, isText_of_capacity hmany.length hmany.room hchars⟩, ?_, hb'⟩
      have hlen : (wcs d'.val).length ≤ d'.val.length := (List.takeWhile_sublist _).length_le
      simp only [List.map_const', List.sum_replicate_nat] at hle
      simp only [length_textBytes, Variant.text]
      omega

theorem getBstrs_takes (hl : src.length < 4294967296) (argc room : Nat) (hc : c.offset ≤ lenSrc) :
    Takes lenSrc (Elements argc room fun b => IsText (Variant.text b))
      (fun bs => ((bs.map Variant.text).flatMap textBytes).length) c
      (getBstrs host src lenSrc argc room c) := by
  induction argc generalizing room c
  case zero => exact .whole (.nil room) rfl hc
  case succ argc ih =>
    refine (getBstr_takes hl _).cons (fun b bs => by simp) (fun b bs hb hbs => ?_) fun c' hc' =>
      ih (room - 1) hc'
    have hroom : room - 1 + 1 = room := Nat.sub_add_cancel (of_decide_eq_true hb.left)
    exact hroom ▸ .cons hb.right hbs

def payloadLength (v : Variant) : Nat :=
  v.value.payload.length

-- What is known of a variant that has been read.
def Good (v : Variant) : Prop :=
  v.Dateless → v.Settled

theorem bytary2scalar_takes (hl : src.length < 4294967296) {vt : VarType} (hp : vt.Proper)
    (hc : c.offset ≤ lenSrc) :
    Takes lenSrc Good payloadLength c (bytary2scalar host src lenSrc vt c) := by
  have hgood (hb : vt ≠ .bstr) (val : Nat) : Good (.scalar vt val) :=
    fun hd => ⟨trivial, ⟨hp, hb, hd, length_toLe ..⟩, trivial⟩
  have hfixed {size : Nat} (hs : wireSize vt ≤ size) (hb : vt ≠ .bstr)
      (conv : List UInt8 → List UInt8) :
      Takes lenSrc Good payloadLength c (fetch src lenSrc size (.scalar vt 0) c fun bs c =>
        pure ⟨sOk, .scalar vt (ofLe (conv bs)), c⟩) := by
    refine fetch_takes hl fun bs c' _ hc' hb' => ?_
    rintro _ ⟨⟩ _
    refine ⟨hgood hb _, ?_, hb'⟩
    simp only [payloadLength, Variant.value, Value.payload, length_toLe]
    omega
  have hzero (hs : wireSize vt = 0) (hb : vt ≠ .bstr) : Takes lenSrc Good payloadLength c
      (.ok ⟨sOk, .scalar vt 0, c⟩) :=
    .whole (hgood hb 0) (by simp [payloadLength, Variant.value, Value.payload, hs]) hc
  cases vt
  case bstr =>
    exact (getBstr_takes hl true).map (fun _ h _ => ⟨trivial, h.right, trivial⟩)
      fun _ => Nat.le_refl _
  case empty | null | variant | other => exact hzero rfl (by simp)
  all_goals exact hfixed (by decide) (by simp) _

theorem length_flatten_eq {as : List (List UInt8)} {size : Nat} (h : ∀ a ∈ as, a.length = size) :
    as.flatten.length = as.length * size := by
  induction as
  case nil => simp
  case cons a as ih =>
    have ⟨ha, has⟩ := List.forall_mem_cons.mp h
    rw [List.flatten_cons, List.length_append, ha, ih has, List.length_cons,
      Nat.succ_mul, Nat.add_comm]

theorem Created.room_iff {vt : VarType} {n next next' sz : Nat} {psa : ArrayHeader}
    (h : Created vt n next psa next') (hs : elemSize vt = some sz) (hsz : 0 < sz)
    (hroom : n ≤ psa.cap) : n * sz < 4294967296 := by
  cases h.right.right
  case inl h => rw [h.left, Nat.zero_mul]; decide
  case inr h =>
    have ⟨_, _, _, sz', hs', hcap⟩ := h
    cases hs.symm.trans hs'
    rw [hcap] at hroom
    exact (le_vectorCapacity hsz).mp hroom

theorem bytary2array_takes (hl : src.length < 4294967296)
    {dec : (argc room : Nat) → Cursor → Exec (Decoded (List Variant))}
    (hd : ∀ argc room, Takes lenSrc (Elements argc room Good)
      (fun vs => (Value.bodies (Variant.values vs)).length) c (dec argc room c))
    {vt : VarType} (hp : vt.Proper) {argc next next' : Nat} (hargc : argc < 4294967296)
    {psa : ArrayHeader} (hpsa : Created vt argc next psa next') (hc : c.offset ≤ lenSrc) :
    Takes lenSrc Good payloadLength c (bytary2array host src lenSrc dec vt argc psa c) := by
  have hn : psa.cElements = argc := hpsa.right.left
  have hgood {data : List UInt8}
      (helem : (vt = .date → argc = 0) → isElement vt ∨ argc = 0 ∧ vt ≠ .bstr ∧ vt ≠ .variant)
      (hlen : data.length = argc * wireSize vt) : Good (.rawArray vt psa data) := by
    subst hn
    exact fun hdate => ⟨hargc, ⟨hp, helem hdate, hargc, hlen⟩, trivial⟩
  have hraw (size : Nat) (hsize : isElement vt → size = wireSize vt)
      (helem : (vt = .date → argc = 0) → isElement vt ∨ argc = 0 ∧ vt ≠ .bstr ∧ vt ≠ .variant)
      (conv : List UInt8 → List UInt8) (hconv : ∀ bs, bs.length = size → (conv bs).length = size) :
      Takes lenSrc Good payloadLength c (do
        let d ← getMany src lenSrc size conv argc psa.cap c
        return { d with val := .rawArray vt psa d.val.flatten }) := by
    refine (getMany_takes hl conv (w := List.length) hconv argc psa.cap hc).map
      (g := fun as => Variant.rawArray vt psa as.flatten) (fun as h => ?_) fun as => ?_
    · have hlen : as.flatten.length = as.length * size := by
        apply length_flatten_eq
        intro a ha
        obtain ⟨bs, hbs, he⟩ := h.each a ha
        exact (congrArg List.length he).trans (hconv bs hbs)
      rw [h.length] at hlen
      exact fun hdate => hgood helem (hlen.trans ((helem (hn ▸ hdate)).elim
        (fun he => congrArg (argc * ·) (hsize he))
        fun hz => by rw [hz.left, Nat.zero_mul, Nat.zero_mul])) hdate
    · simp [payloadLength, Variant.value, Value.payload]
  have hwhole (hs : elemSize vt = none) (hb : vt ≠ .bstr) (hv : vt ≠ .variant) :
      Takes lenSrc Good payloadLength c (.ok ⟨sOk, .rawArray vt psa [], c⟩) := by
    have hzero : argc = 0 := by
      cases hpsa.right.right
      case inl h => exact h.left
      case inr h =>
        obtain ⟨_, _, _, _, hs', _⟩ := h
        cases hs.symm.trans hs'
    refine .whole (hgood (fun _ => .inr ⟨hzero, hb, hv⟩) ?_) rfl hc
    rw [hzero, Nat.zero_mul]
    rfl
  cases vt
  case ui1 =>
    simp only [bytary2array]
    by_cases hlen : lenSrc < u32 (c.offset + argc)
    case pos =>
      rw [if_pos hlen]
      exact .failed failed_eInvalidArg _
    rw [if_neg hlen]
    by_cases hcap : psa.cap < argc
    case pos =>
      rw [if_pos hcap]
      exact .error _
    rw [if_neg hcap]
    by_cases hs : c.offset + argc ≤ src.length
    case neg =>
      rw [if_neg hs]
      exact .error _
    rw [if_pos hs]
    rintro _ ⟨⟩ _
    have hw := List.length_window hs
    have hu : u32 (c.offset + argc) = c.offset + argc := u32_of_lt (by omega)
    refine ⟨hgood (fun _ => .inl rfl) (hw.trans (Nat.mul_one _).symm), ?_⟩
    simp only [payloadLength, Variant.value, Value.payload, hw, hu]
    omega
  case bstr =>
    refine (getBstrs_takes hl argc psa.cap hc).map (fun bs h _ => ?_) fun _ => Nat.le_refl _
    have hroom := hpsa.room_iff rfl (by decide) h.room
    refine ⟨⟨hn ▸ hargc, h.length.trans hn.symm⟩, List.forall_mem_map.mpr h.each, ?_⟩
    rw [Variant.value, Value.Creatable, List.length_map, h.length]
    exact hroom
  case variant =>
    refine (hd argc psa.cap).map (fun vs h hdate => ?_) fun _ => Nat.le_refl _
    have hroom := hpsa.room_iff rfl (by decide) h.room
    obtain ⟨hs, hr, hcr⟩ :=
      Variant.allSettled fun v hv => h.each v hv (Variant.AllDateless.of_mem hdate hv)
    refine ⟨⟨hn ▸ hargc, h.length.trans hn.symm, hs⟩, hr, ?_, hcr⟩
    rw [Variant.length_values, h.length]
    exact hroom
  case empty | null | error | other => exact hwhole rfl (by simp) (by simp)
  case date =>
    exact hraw 8 (fun he => absurd he (by decide)) (fun hz => .inr ⟨hz rfl, by simp, by simp⟩)
      (bytary2vntdate host) fun _ _ => length_toLe ..
  all_goals exact hraw _ (fun _ => rfl) (fun _ => .inl rfl) id fun _ h => h

-- An argument that begins behind the largest position is not accepted.
def Unwrapped (src : List UInt8) (lenSrc : Nat)
    (dec : (isArray : Bool) → VarType → (argc : Nat) → Cursor → Exec (Decoded Variant)) : Prop :=
  ∀ {argc room : Nat} {c : Cursor} {d : Decoded (List Variant)}, c.offset ≤ lenSrc →
    4294967296 ≤ c.offset + 4 → bytary2vntary src lenSrc dec true (argc + 1) room c = .ok d →
    Failed d.hr

theorem bytary2vntary_takes (hl : src.length < 4294967296)
    {dec : Bool → VarType → Nat → Cursor → Exec (Decoded Variant)}
    (hd : ∀ isArray {vt argc} {c : Cursor}, vt.Proper → argc < 4294967296 → c.offset ≤ lenSrc →
      Takes lenSrc Good payloadLength c (dec isArray vt argc c))
    (flag : Bool) (hf : flag = true → Unwrapped src lenSrc dec) (argc room : Nat)
    (hc : c.offset ≤ lenSrc) :
    Takes lenSrc (Elements argc room Good)
      (fun vs => ((Variant.values vs).flatMap (Value.item flag)).length) c
      (bytary2vntary src lenSrc dec flag argc room c) := by
  induction argc generalizing room c
  case zero => exact .whole (.nil room) rfl hc
  case succ argc ih =>
    cases room
    case zero => exact .error _
    case succ room =>
      by_cases hwrap : flag = true ∧ 4294967296 ≤ c.offset + 4
      case pos =>
        cases hwrap.left
        exact fun d hd hs => absurd (hf rfl hc hwrap.right hd) (not_failed_iff.mpr hs)
      have ho : (if flag then { c with offset := u32 (c.offset + bcapSizeDataLen) } else c).offset =
          c.offset + if flag then 4 else 0 := by
        cases flag
        case false => rfl
        case true  => exact u32_of_lt (Nat.not_le.mp fun h => hwrap ⟨rfl, h⟩)
      simp only [bytary2vntary]
      refine fetch_takes hl fun vt c₁ hvt hc₁ _ => ?_
      refine fetch_takes hl fun cnt c₂ hcnt hc₂ hb₂ => ?_
      have hvt : ofLe vt < 256 ^ 2 := hvt ▸ ofLe_lt vt
      have hcnt : ofLe cnt < 256 ^ 4 := hcnt ▸ ofLe_lt cnt
      refine Takes.cons (w := fun v => (Value.item flag v.value).length)
        (fun v vs => by simp [Variant.values]) (fun _ _ => .cons) ?_ fun c' hc' => ih room hc'
      intro d hd' hs
      obtain ⟨hgood, hle, hb'⟩ := hd _ (VarType.proper_ofWord hvt) hcnt hb₂ d hd' hs
      refine ⟨hgood, ?_, hb'⟩
      have hi : (Value.item flag d.val.value).length =
          (if flag then 4 else 0) + (6 + payloadLength d.val) := by
        cases flag
        case false => simp [Value.item, Value.length_body, payloadLength]
        case true  =>
          simp only [Value.item, if_true, length_argument, payloadLength]
          omega
      simp only [hi]
      omega

theorem bytary2vnt_takes (hl : src.length < 4294967296) (depth : Nat) (isArray : Bool)
    {vt : VarType} {argc : Nat} (hp : vt.Proper) (hargc : argc < 4294967296)
    (hc : c.offset ≤ lenSrc) :
    Takes lenSrc Good payloadLength c (bytary2vnt host src lenSrc depth isArray vt argc c) := by
  induction depth generalizing isArray vt argc c
  case zero => exact .error _
  case succ depth ih =>
    cases isArray
    case false => exact bytary2scalar_takes hl hp hc
    case true =>
      simp only [bytary2vnt]
      cases hcreate : safeArrayCreateVector host vt 1 argc c.next
      case mk psa next =>
        cases psa
        case none => exact .failed failed_eOutOfMemory _
        case some psa =>
          refine bytary2array_takes hl (c := ⟨c.offset, next⟩) (fun argc room => ?_) hp hargc
            (.of_eq hcreate) hc
          have h := bytary2vntary_takes hl (fun isArray _ _ _ hp ha hc => ih isArray hp ha hc)
            false (absurd · Bool.false_ne_true) argc room (c := ⟨c.offset, next⟩) hc
          simp only [← Value.bodies_eq] at h
          exact h

theorem fetch_within (hl : src.length < 4294967296) (hb : lenSrc ≤ src.length) {size : Nat} {a : α}
    {k : List UInt8 → Cursor → Exec (Decoded α)} (h : c.offset + size ≤ lenSrc) :
    fetch src lenSrc size a c k =
      k (src.window c.offset size) { c with offset := c.offset + size } := by
  have hu : u32 (c.offset + size) = c.offset + size := u32_of_lt (by omega)
  simp only [fetch, hu, if_neg (Nat.not_lt.mpr h), if_pos (Nat.le_trans h hb)]

-- The length of a frame that ends at the largest position shows in its first bytes.
theorem start_of_long (hw : wellFramed src) (hl : src.length < 4294967296)
    (hm : 4294967293 ≤ src.length) : ∃ b rest, src = 1 :: b :: 255 :: 255 :: 255 :: rest ∧
      253 ≤ b.toNat := by
  have ⟨hhead, hlen⟩ := header_of_wellFramed hw
  have h5 : 5 ≤ src.length := Nat.le_trans (by decide) (length_of_wellFramed hw)
  clear hw
  match src, h5 with
  | b₀ :: b₁ :: b₂ :: b₃ :: b₄ :: rest, _ =>
    cases Option.some.inj hhead
    have h₁ := b₁.toNat_lt
    have h₂ := b₂.toNat_lt
    have h₃ := b₃.toNat_lt
    have h₄ := b₄.toNat_lt
    simp only [bcapPosLen, bcapSizeLen, List.window, List.drop_succ_cons, List.drop_zero,
      List.take_succ_cons, List.take_zero, ofLe] at hlen
    have hbyte (b : UInt8) (h : b.toNat = 255) : b = 255 := UInt8.toNat_inj.mp h
    rw [hbyte b₂ (by omega), hbyte b₃ (by omega), hbyte b₄ (by omega)]
    exact ⟨b₁, rest, rfl, by omega⟩

-- What is taken for the type and the number of elements if one starts again at the beginning.
theorem words_of_long (hw : wellFramed src) (hl : src.length < 4294967296)
    (hm : 4294967293 ≤ src.length) {o : Nat} (ho : o ≤ 2) :
    64769 ≤ ofLe (src.window o 2) ∧ ofLe (src.window (o + 2) 4) ≠ 0 := by
  have ⟨b, rest, hsrc, hb⟩ := start_of_long hw hl hm
  clear hw hl hm
  subst hsrc
  have h₁ : (1 : UInt8).toNat = 1 := rfl
  have h₂ : (255 : UInt8).toNat = 255 := rfl
  match o, ho with
  | 0, _ | 1, _ | 2, _ =>
    simp only [List.window, List.drop_succ_cons, List.drop_zero, List.take_succ_cons,
      List.take_zero, ofLe, h₁, h₂]
    omega

theorem elemSize_ofCode {n : Nat} (h : 22 ≤ n) : elemSize (.ofCode n) = none := by
  unfold VarType.ofCode
  split <;> first | rfl | omega

-- Such a type word tells an array of an unknown type.
theorem ofWord_of_le {w : Nat} (h : 64769 ≤ w) (hw : w < 65536) :
    ∃ vt, VarType.ofWord w = (true, vt) ∧ elemSize vt = none := by
  have hf : w / VarType.vtArray % 2 = 1 := by simp only [VarType.vtArray]; omega
  refine ⟨.ofCode (w - VarType.vtArray),
    by simp only [VarType.ofWord, if_pos hf], elemSize_ofCode ?_⟩
  simp only [VarType.vtArray]
  omega

theorem safeArrayCreateVector_unknown (host : Host) {vt : VarType} (h : elemSize vt = none)
    {n : Nat} (hn : n ≠ 0)
    (lLbound : Int) (next : Nat) :
    (safeArrayCreateVector host vt lLbound n next).1 = none := by
  simp only [safeArrayCreateVector, if_neg hn, h]
  cases host.alloc next with
  | mk addr next => cases addr <;> rfl

theorem failed_of_unknown {vt : VarType} (h : elemSize vt = none) {n : Nat}
    (hn : n ≠ 0) {depth : Nat}
    {d : Decoded Variant} (hd : bytary2vnt host src lenSrc depth true vt n c = .ok d) :
    Failed d.hr := by
  cases depth
  case zero => contradiction
  case succ depth =>
    have hnone := safeArrayCreateVector_unknown host h hn 1 c.next
    rw [bytary2vnt] at hd
    cases hcreate : safeArrayCreateVector host vt 1 n c.next
    case mk psa next =>
      rw [hcreate] at hnone hd
      cases hnone
      cases hd
      exact failed_eOutOfMemory

-- There, the first bytes are taken for an array that cannot be created.
theorem unwrapped (hw : wellFramed src) (hl : src.length < 4294967296) :
    Unwrapped src (src.length - 1) (bytary2vnt host src (src.length - 1) src.length) := by
  intro argc room c d hc hwrap h
  have hm := length_of_wellFramed hw
  cases room
  case zero => contradiction
  case succ room =>
    have ho : u32 (c.offset + bcapSizeDataLen) ≤ 2 := by
      simp only [u32, bcapSizeDataLen]
      omega
    obtain ⟨hword, hcnt⟩ := words_of_long hw hl (by omega) ho
    have hword' := ofLe_lt (src.window (u32 (c.offset + bcapSizeDataLen)) 2)
    rw [List.length_window (by omega)] at hword'
    obtain ⟨vt, hvt, hnone⟩ := ofWord_of_le hword hword'
    simp only [bytary2vntary, if_true] at h
    rw [fetch_within hl (Nat.sub_le ..) (by simp only; omega)] at h
    simp only at h
    rw [fetch_within hl (Nat.sub_le ..) (by simp only; omega)] at h
    obtain ⟨d', hd', h⟩ := ok_of_bind h
    simp only [hvt] at hd'
    have hf : Failed d'.hr := failed_of_unknown hnone hcnt hd'
    rw [if_pos hf] at h
    cases h
    exact hf

-- The arguments fit into the frame.
theorem bytary2args_takes (hw : wellFramed src) (hl : src.length < 4294967296)
    (argc room next : Nat) :
    Takes (src.length - 1) (Elements argc room Good)
      (fun vs => ((Variant.values vs).flatMap Value.argument).length) ⟨bcapPosDataLen, next⟩
      (bytary2args host src argc room next) :=
  have hm := length_of_wellFramed hw
  bytary2vntary_takes hl
    (fun isArray _ _ _ hp ha hc => bytary2vnt_takes hl _ isArray hp ha hc) true
    (fun _ => unwrapped hw hl) argc room (by simp only [bcapPosDataLen]; omega)

-- The packet `p` with the arguments `vs` has been read from a frame.
structure ReadFrom (src : List UInt8) (p : BcapPacket) (vs : List Variant) : Prop where
  framed : wellFramed src
  header : header src p = p
  args   : p.argList = .ok vs
  good   : ∀ v ∈ vs, Good v
  size   : 16 + ((Variant.values vs).flatMap Value.argument).length ≤ src.length

theorem ReadFrom.filled (hw : wellFramed src) (hl : src.length < 4294967296) {q : BcapPacket}
    {args : Args} {next : Nat} {d : Decoded (List Variant)}
    (h : bytary2args host src (announced src) args.slots.length next = .ok d)
    (hs : Succeeded d.hr) :
    ReadFrom src { Bcap.header src q with args := some (args.fill d.val) } d.val := by
  have ⟨hgood, hle, hb⟩ := bytary2args_takes hw hl _ _ _ d h hs
  refine ⟨hw, rfl, ?_, hgood.each, ?_⟩
  · rw [BcapPacket.argList, Bcap.header, ← hgood.length]
    simp [Args.fill]
  · have hm := length_of_wellFramed hw
    simp only [bcapPosDataLen] at hle
    omega

-- Whatever is accepted ends up in the packet.
theorem readFrom_of_accepted (hl : src.length < 4294967296) {q : BcapPacket} {next : Nat}
    {r : Received} (h : bytary2packet host src q next = .ok r) (hs : Succeeded r.hr) :
    ∃ vs, ReadFrom src r.packet vs := by
  by_cases ha : wellFramed src ∧ Succeeded (checkArgc q (announced src))
  case neg =>
    obtain ⟨_, _, he, hf, _⟩ := bytary2packet_refuse host next fun hw =>
      Int.not_le.mp fun hs' => ha ⟨hw, hs'⟩
    cases he.symm.trans h
    exact absurd hf (not_failed_iff.mpr hs)
  case pos =>
    obtain ⟨hw, ha⟩ := ha
    rw [bytary2packet_accept hw ha] at h
    by_cases hz : announced src = 0
    case pos =>
      simp only [fillArgs, header, hz, if_true] at h
      cases h
      refine ⟨[], hw, by simp only [header, hz], ?_, fun _ hv => absurd hv List.not_mem_nil,
        length_of_wellFramed hw⟩
      cases q.args <;> simp [BcapPacket.argList, readSlots]
    case neg =>
      cases hq : q.args
      case none =>
        cases hm : host.malloc next
        case false =>
          simp only [fillArgs, header, hq, if_neg hz, mallocArgs, Host.alloc, hm] at h
          cases h
          exact absurd failed_eOutOfMemory (not_failed_iff.mpr hs)
        case true =>
          simp only [fillArgs, header, hq, if_neg hz, mallocArgs, Host.alloc, hm] at h
          obtain ⟨d, hd, h⟩ := ok_of_bind h
          cases h
          exact ⟨d.val, .filled hw hl (q := q) hd hs⟩
      case some args =>
        simp only [fillArgs, header, hq, if_neg hz] at h
        obtain ⟨d, hd, h⟩ := ok_of_bind h
        cases h
        exact ⟨d.val, .filled hw hl (q := q) hd hs⟩

end
end Bcap
