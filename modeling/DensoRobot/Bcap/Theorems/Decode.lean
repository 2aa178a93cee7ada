import DensoRobot.Bcap.Form
import Mathlib.Data.List.TakeWhile

open HRESULT Bytes

namespace Bcap

-- The function `f` consumes the bytes `bs` and yields something with the property `P`.
-- If `fits` does not hold, it fails or leaves the memory that it requested.
def Reads (src : List UInt8) (lenSrc : Nat) (f : Cursor → Exec (Decoded α)) (bs : List UInt8)
    (fits : Prop) (P : α → Prop) : Prop :=
  ∀ c : Cursor, src.Shows c.offset bs → c.offset + bs.length ≤ lenSrc → lenSrc < 4294967296 →
    (fits → ∃ a next, f c = .ok ⟨sOk, a, ⟨c.offset + bs.length, next⟩⟩ ∧ P a) ∧
    (¬fits → ∀ d, f c = .ok d → Failed d.hr)

theorem not_ok_write {d : Decoded α} {P : Prop} (h : (.error .write : Exec (Decoded α)) = .ok d) :
    P := by
  contradiction

namespace Reads

variable {src : List UInt8} {lenSrc : Nat} {f : Cursor → Exec (Decoded α)} {bs : List UInt8}
variable {fits fits' : Prop} {P : α → Prop} {Q : β → Prop}

theorem map {g : α → β} (h : Reads src lenSrc f bs fits P) (hg : ∀ a, P a → Q (g a)) :
    Reads src lenSrc (fun c => do let d ← f c; return { d with val := g d.val }) bs fits Q := by
  intro c hs hl hb
  refine ⟨fun hf => ?fits, fun hf d hd => ?short⟩
  case fits =>
    have ⟨a, next, he, ha⟩ := (h c hs hl hb).left hf
    exact ⟨g a, next, by simp [he], hg a ha⟩
  case short =>
    obtain ⟨d, he, hd⟩ := ok_of_bind hd
    cases hd
    exact (h c hs hl hb).right hf d he

theorem congr (h : Reads src lenSrc f bs fits P) (hf : fits ↔ fits') :
    Reads src lenSrc f bs fits' P :=
  fun c hs hl hb => propext hf ▸ h c hs hl hb

end Reads

section

variable {host : Host} (src : List UInt8) (lenSrc : Nat)

theorem fetch_eq {src : List UInt8} {lenSrc : Nat} {bs : List UInt8} {c : Cursor}
    {partly : α} {size : Nat}
    {k : List UInt8 → Cursor → Exec (Decoded α)} (hs : src.Shows c.offset bs)
    (hl : c.offset + bs.length ≤ lenSrc) (hb : lenSrc < 4294967296) (hn : size = bs.length) :
    fetch src lenSrc size partly c k = k bs { c with offset := c.offset + bs.length } := by
  subst hn
  have hu : u32 (c.offset + bs.length) = c.offset + bs.length := u32_of_lt (by omega)
  rw [fetch, hu, if_neg (by omega), if_pos hs.bound, hs.window_eq]

theorem getMany_reads {size : Nat} (conv : List UInt8 → β) (room : Nat)
    {elems : List (List UInt8)} (he : ∀ e ∈ elems, e.length = size) :
    Reads src lenSrc (getMany src lenSrc size conv elems.length room) elems.flatten
      (elems.length ≤ room) (· = elems.map conv) := by
  induction elems generalizing room
  case nil => exact fun c _ _ _ => ⟨fun _ => ⟨[], c.next, rfl, rfl⟩, fun h => by simp at h⟩
  case cons e elems ih =>
    intro c hs hl hb
    rw [List.flatten_cons] at hs hl
    have ⟨hs, hs'⟩ := List.shows_append.mp hs
    simp only [List.length_append] at hl
    have hn := he e List.mem_cons_self
    simp only [List.length_cons, getMany]
    rw [fetch_eq hs (by omega) hb hn.symm]
    rcases room with _ | room
    case zero => exact ⟨fun h => by simp at h, fun _ _ h => not_ok_write h⟩
    case succ =>
      have ih := ih room (fun e h => he e (List.mem_cons_of_mem _ h))
        ⟨c.offset + e.length, c.next⟩ hs' (by simp only; omega) hb
      simp only [Nat.add_le_add_iff_right, List.flatten_cons, List.length_append]
      refine ⟨fun h => ?fits, fun h => ?short⟩
      case fits =>
        have ⟨vals, next, hr, hv⟩ := ih.left h
        exact ⟨conv e :: vals, next, by simp [hr, Nat.add_assoc], by simp [hv]⟩
      case short =>
        intro d hd
        obtain ⟨d, he, hd⟩ := ok_of_bind hd
        cases hd
        exact ih.right h d he

theorem convElems_flatten {size : Nat} (conv : List UInt8 → List UInt8) {elems : List (List UInt8)}
    (he : ∀ e ∈ elems, e.length = size) :
    convElems size conv elems.length elems.flatten = (elems.map conv).flatten := by
  induction elems
  case nil => rfl
  case cons e elems ih =>
    have ⟨hn, he⟩ := List.forall_mem_cons.mp he
    rw [List.length_cons, convElems, List.flatten_cons, List.take_left' hn, List.drop_left' hn,
      ih he, List.map_cons, List.flatten_cons]

theorem exists_chunks (size n : Nat) (data : List UInt8) (h : data.length = n * size) :
    ∃ elems : List (List UInt8), elems.length = n ∧ elems.flatten = data ∧
      ∀ e ∈ elems, e.length = size := by
  induction n generalizing data
  case zero => exact ⟨[], rfl, by simpa using h, by simp⟩
  case succ n ih =>
    rw [Nat.add_mul, Nat.one_mul] at h
    have ⟨elems, hn, hf, he⟩ := ih (data.drop size) (by simp [h])
    refine ⟨data.take size :: elems, by simp [hn], by simp [hf], ?_⟩
    simp only [List.mem_cons, forall_eq_or_imp]
    exact ⟨by simp [h], he⟩

theorem map_ofLe_toLe {cs : List Nat} (h : IsWire cs) : (cs.map (toLe 2)).map ofLe = cs := by
  rw [List.map_map]
  exact (List.map_congr_left fun c hc => ofLe_toLe_of_lt (h.right c hc)).trans (List.map_id' cs)

-- The memory for a string is requested before its characters are known.
theorem sysAllocStringLen_nil (hh : host.Ample) (cch next : Nat) :
    sysAllocStringLen host [] cch next = .ok (some ⟨next, []⟩, next + 1) := by
  simp [sysAllocStringLen, hh, wcs, wcslen, u16]

theorem getBstr_reads (hh : host.Ample) (slot : Bool) {cs : List Nat} (h : IsWire cs) :
    Reads src lenSrc (getBstr host src lenSrc slot) (textBytes cs)
      (slot = true ∧ cs.length ≤ 16382) (Variant.text · = wcs cs) := by
  intro c hs hl hb
  rw [textBytes] at hs hl
  obtain ⟨hs, hs'⟩ := List.shows_append.mp hs
  simp only [List.length_append, length_toLe] at hl hs'
  rw [getBstr, fetch_eq hs (by simp; omega) hb (by simp)]
  cases slot
  case false => exact ⟨fun h => by simp at h, fun _ _ h => not_ok_write h⟩
  case true =>
    have hlen := h.left
    have hn : ofLe (toLe 4 (2 * cs.length)) / 2 = cs.length := by
      rw [ofLe_toLe_of_lt (by omega)]; omega
    have hu : u16 cs.length = cs.length := u16_of_lt hlen
    have hcap : cs.length ≤ bstrCapacity cs.length ↔ cs.length ≤ 16382 := by
      rw [bstrCapacity_eq]; omega
    have hf : (cs.map (toLe 2)).flatten = cs.flatMap (toLe 2) := rfl
    have he : ∀ e ∈ cs.map (toLe 2), e.length = 2 := by simp
    have hm := getMany_reads src lenSrc ofLe (bstrCapacity cs.length) he
    rw [hf, List.length_map, map_ofLe_toLe h] at hm
    have hm := hm ⟨c.offset + 4, c.next + 1⟩ hs' (by simp only; omega) hb
    refine ⟨fun hl => ?fits, fun hl => ?short⟩
    case fits =>
      obtain ⟨_, next, hr, hv⟩ := hm.left (hcap.mpr hl.right)
      refine ⟨some ⟨c.next, cs⟩, next, ?_, rfl⟩
      simp [sysAllocStringLen_nil hh, hn, hu, hr, hv, textBytes, Nat.add_assoc]
    case short =>
      intro d hd
      simp only [hn, hu, sysAllocStringLen_nil hh, Bool.not_true, Bool.false_eq_true, if_false,
        Exec.pure_eq, Exec.ok_bind, length_toLe] at hd
      obtain ⟨d', he, hd⟩ := ok_of_bind hd
      cases hd
      exact hm.right (fun h => hl ⟨rfl, hcap.mp h⟩) d' he

theorem getBstrs_reads (hh : host.Ample) (room : Nat) {elems : List (List Nat)}
    (h : ∀ cs ∈ elems, IsWire cs) :
    Reads src lenSrc (getBstrs host src lenSrc elems.length room) (elems.flatMap textBytes)
      (elems.length ≤ room ∧ ∀ cs ∈ elems, cs.length ≤ 16382)
      (List.map Variant.text · = elems.map wcs) := by
  induction elems generalizing room
  case nil => exact fun c _ _ _ => ⟨fun _ => ⟨[], c.next, rfl, rfl⟩, fun h => by simp at h⟩
  case cons cs elems ih =>
    intro c hs hl hb
    rw [List.flatMap_cons] at hs hl
    have ⟨hs, hs'⟩ := List.shows_append.mp hs
    rw [List.length_append] at hl
    have ht := getBstr_reads src lenSrc hh (decide (0 < room))
      (h cs List.mem_cons_self) c hs (by omega) hb
    simp only [List.length_cons, getBstrs, List.flatMap_cons, List.length_append,
      List.forall_mem_cons, decide_eq_true_eq] at ht ⊢
    by_cases hroom : 0 < room ∧ cs.length ≤ 16382
    case neg =>
      refine ⟨fun h => absurd ⟨by omega, h.right.left⟩ hroom, fun _ d hd => ?_⟩
      obtain ⟨d', he, hd⟩ := ok_of_bind hd
      have hf := ht.right hroom d' he
      rw [if_pos hf] at hd
      cases hd
      exact hf
    case pos =>
      have ⟨b, next, hr, hv⟩ := ht.left hroom
      have ih := ih (room - 1) (fun cs h' => h cs (List.mem_cons_of_mem _ h'))
        ⟨c.offset + (textBytes cs).length, next⟩ hs' (by simp only; omega) hb
      refine ⟨fun h => ?fits, fun h => ?short⟩
      case fits =>
        have ⟨bs, next, hr', hv'⟩ := ih.left ⟨by omega, h.right.right⟩
        exact ⟨b :: bs, next, by simp [hr, hr', Nat.add_assoc], by simp [hv, hv']⟩
      case short =>
        intro d hd
        simp only [hr, Exec.ok_bind, not_failed_sOk, if_false] at hd
        obtain ⟨d', he, hd⟩ := ok_of_bind hd
        cases hd
        exact ih.right (fun h' => h ⟨by omega, hroom.right, h'.right⟩) d' he

theorem length_receivedNumber (host : Host) (vt : VarType) {data : List UInt8}
    (hd : data.length = wireSize vt) : (receivedNumber host vt data).length = wireSize vt := by
  cases vt
  case date => exact length_toLe ..
  all_goals exact hd

theorem bytary2scalar_reads {vt : VarType} {data : List UInt8} (hbstr : vt ≠ .bstr)
    (hd : data.length = wireSize vt) :
    Reads src lenSrc (bytary2scalar host src lenSrc vt) data True
      (Variant.value · = .number vt (receivedNumber host vt data)) := by
  intro c hs hl hb
  have hf (size : Nat) (conv : List UInt8 → List UInt8) (hn : size = data.length) :
      fetch src lenSrc size (.scalar vt 0) c
        (fun bs c => pure ⟨sOk, Variant.scalar vt (ofLe (conv bs)), c⟩) =
      .ok ⟨sOk, .scalar vt (ofLe (conv data)), ⟨c.offset + data.length, c.next⟩⟩ :=
    fetch_eq hs hl hb hn
  have hv : (Variant.scalar vt (ofLe (receivedNumber host vt data))).value =
      .number vt (receivedNumber host vt data) := by
    rw [Variant.value, ← length_receivedNumber host vt hd, toLe_ofLe]
  refine ⟨fun _ => ⟨_, c.next, ?_, hv⟩, fun h => absurd trivial h⟩
  have hnone (hz : wireSize vt = 0) : (.ok ⟨sOk, .scalar vt 0, c⟩ : Exec (Decoded Variant)) =
      .ok ⟨sOk, .scalar vt (ofLe data), ⟨c.offset + data.length, c.next⟩⟩ := by
    rw [List.eq_nil_of_length_eq_zero (hd.trans hz)]
    rfl
  cases vt
  case bstr => contradiction
  case date => exact hf _ (bytary2vntdate host) hd.symm
  case empty | null | variant | other => exact hnone rfl
  all_goals exact hf _ id hd.symm

theorem bytary2array_reads {vt : VarType} {n : Nat} {data : List UInt8} {psa : ArrayHeader}
    {dec : Nat → Nat → Cursor → Exec (Decoded (List Variant))} (hbstr : vt ≠ .bstr)
    (hvariant : vt ≠ .variant) (hd : data.length = n * elementSize vt) (hp : psa.cElements = n)
    (hc : n ≤ psa.cap) :
    Reads src lenSrc (bytary2array host src lenSrc dec vt n psa) data True (Variant.value · =
      .numbers vt n (convElems (elementSize vt) (receivedNumber host vt) n data)) := by
  intro c hs hl hb
  have hv (data : List UInt8) : (Variant.rawArray vt psa data).value = .numbers vt n data := by
    rw [Variant.value, hp]
  refine ⟨fun _ => ?_, fun h => absurd trivial h⟩
  have hr (size : Nat) (conv : List UInt8 → List UInt8) (hn : data.length = n * size) :
      ∃ a next, (do
        let d ← getMany src lenSrc size conv n psa.cap c
        return { d with val := Variant.rawArray vt psa d.val.flatten } : Exec (Decoded Variant)) =
        .ok ⟨sOk, a, ⟨c.offset + data.length, next⟩⟩ ∧
      a.value = .numbers vt n (convElems size conv n data) := by
    obtain ⟨elems, hlen, hf, he⟩ := exists_chunks size n data hn
    have hm := getMany_reads src lenSrc conv psa.cap he
    rw [hlen, hf] at hm
    obtain ⟨_, next, hr, rfl⟩ := hm c hs hl hb |>.left hc
    have hconv := convElems_flatten conv he
    rw [hlen, hf] at hconv
    exact ⟨_, next, by rw [hr]; rfl, by rw [hv, hconv]⟩
  -- The elements of a `VT_UI1` array are read at once.
  have hbytes (hn : data.length = n) : bytary2array host src lenSrc dec .ui1 n psa c =
      .ok ⟨sOk, .rawArray .ui1 psa data, ⟨c.offset + data.length, c.next⟩⟩ := by
    have hu : u32 (c.offset + n) = c.offset + n := u32_of_lt (by omega)
    have hin := hs.bound
    have hw := hs.window_eq
    rw [hn] at hin hw hl ⊢
    simp only [bytary2array, hu, if_neg (Nat.not_lt.mpr hl), if_neg (Nat.not_lt.mpr hc), if_pos hin,
      hw, Exec.pure_eq]
  have hnone (hz : elementSize vt = 0) (hconv : receivedNumber host vt = id) :
      ∃ a next, (.ok ⟨sOk, .rawArray vt psa [], c⟩ : Exec (Decoded Variant)) =
        .ok ⟨sOk, a, ⟨c.offset + data.length, next⟩⟩ ∧
      a.value = .numbers vt n (convElems (elementSize vt) (receivedNumber host vt) n data) := by
    rw [hz, Nat.mul_zero] at hd
    refine ⟨_, c.next, by rw [hd]; rfl, ?_⟩
    rw [hv, hz, hconv, convElems_empty rfl]
  cases vt
  case bstr | variant => contradiction
  case ui1 =>
    refine ⟨_, c.next, hbytes (hd.trans (Nat.mul_one n)), ?_⟩
    have hid : convElems (elementSize .ui1) (receivedNumber host .ui1) n data =
        data.take (n * elementSize .ui1) := convElems_id (Nat.le_of_eq hd.symm)
    exact (hv data).trans (by rw [hid, ← hd, List.take_length])
  case empty | null | error | other => exact hnone rfl rfl
  case date => exact hr 8 (bytary2vntdate host) hd
  all_goals exact hr _ id hd

theorem le_vectorCapacity {n sz : Nat} (h : 0 < sz) :
    n ≤ vectorCapacity n sz ↔ n * sz < 4294967296 := by
  rw [vectorCapacity, Nat.le_div_iff_mul_le h]
  exact ⟨fun hn => Nat.lt_of_le_of_lt hn u32_lt, fun hn => Nat.le_of_eq (u32_of_lt hn).symm⟩

theorem safeArrayCreateVector_eq (hh : host.Ample) {vt : VarType} {n sz : Nat}
    (h : n = 0 ∨ elemSize vt = some sz) (lLbound : Int) (next : Nat) :
    ∃ psa next', safeArrayCreateVector host vt lLbound n next = (some psa, next') ∧
      psa.cElements = n ∧ psa.cap = vectorCapacity n sz := by
  by_cases hn : n = 0
  case pos =>
    subst hn
    exact ⟨⟨next, none, lLbound, 0, 0, 0⟩, next + 1, by simp [safeArrayCreateVector, hh], rfl,
      by simp [vectorCapacity, u32]⟩
  case neg =>
    exact ⟨⟨next, some (next + 1), lLbound, n, sz, vectorCapacity n sz⟩, next + 2,
      by simp [safeArrayCreateVector, hh, hn, h.resolve_left hn], rfl, rfl⟩

-- The length in front of an argument is skipped.
theorem shows_item {flag : Bool} {x : Value} {c : Cursor} {src : List UInt8}
    (hs : src.Shows c.offset (x.item flag)) (hl : c.offset + (x.item flag).length < 4294967296) :
    ∃ offset, (if flag then u32 (c.offset + bcapSizeDataLen) else c.offset) = offset ∧
      c.offset + (x.item flag).length = offset + x.body.length ∧ src.Shows offset x.body := by
  cases flag
  case false => exact ⟨c.offset, rfl, rfl, hs⟩
  case true =>
    have ⟨_, hs⟩ := List.shows_append.mp hs
    simp only [Value.item, Value.argument, if_true, List.length_append, length_toLe] at hs hl ⊢
    refine ⟨c.offset + 4, ?_, by omega, hs⟩
    exact u32_of_lt (by simp only [bcapSizeDataLen]; omega)

-- Reads the type and the number of elements that a variant starts with.
theorem bytary2vntary_succ {dec : Bool → VarType → Nat → Cursor → Exec (Decoded Variant)}
    {flag : Bool} {argc room : Nat} {c : Cursor} {x : Value} {offset : Nat} (hx : x.Formed)
    (ho : (if flag then u32 (c.offset + bcapSizeDataLen) else c.offset) = offset)
    (hs : src.Shows offset x.body) (hl : offset + x.body.length ≤ lenSrc)
    (hb : lenSrc < 4294967296) :
    bytary2vntary src lenSrc dec flag (argc + 1) (room + 1) c = do
      let d ← dec x.isArray x.base x.count ⟨offset + 6, c.next⟩
      if Failed d.hr then
        return { d with val := [d.val] }
      let ds ← bytary2vntary src lenSrc dec flag argc room d.cur
      return { ds with val := d.val :: ds.val } := by
  have hc : (if flag then { c with offset := u32 (c.offset + bcapSizeDataLen) } else c) =
      (⟨offset, c.next⟩ : Cursor) := by
    subst ho
    cases flag <;> rfl
  have hk := hx.proper
  have ⟨hs, _⟩ := List.shows_append.mp hs
  have ⟨hvt, hcnt⟩ := List.shows_append.mp hs
  simp only [Value.body, List.length_append, length_toLe] at hl hcnt
  have hn := count_lt hx (by omega)
  simp only [bytary2vntary, hc]
  rw [fetch_eq hvt (by simp; omega) hb (by simp)]
  have hvt' : ofLe (toLe 2 x.vt) = VarType.word x.isArray x.base :=
    ofLe_toLe_of_lt (hk.word_lt _)
  have hcnt' : ofLe (toLe 4 x.count) = x.count := ofLe_toLe_of_lt hn
  simp only [length_toLe, hvt', hk.ofWord_word]
  rw [fetch_eq hcnt (by simp; omega) hb (by simp)]
  simp only [length_toLe, hcnt', Nat.add_assoc]

theorem create_reads (hh : host.Ample) {depth n sz : Nat} {vt : VarType} {bs : List UInt8}
    {fits : Prop} {P : Variant → Prop} (h : n = 0 ∨ elemSize vt = some sz)
    (hr : ∀ psa : ArrayHeader, psa.cElements = n → psa.cap = vectorCapacity n sz →
      Reads src lenSrc (bytary2array host src lenSrc
        (bytary2vntary src lenSrc (bytary2vnt host src lenSrc depth) false) vt n psa) bs fits P) :
    Reads src lenSrc (bytary2vnt host src lenSrc (depth + 1) true vt n) bs fits P := by
  intro c hs hl hb
  have ⟨psa, next, he, hn, hc⟩ := safeArrayCreateVector_eq hh h 1 c.next
  simp only [bytary2vnt, he]
  exact hr psa hn hc ⟨c.offset, next⟩ hs hl hb

theorem bytary2vntary_reads {dec : Bool → VarType → Nat → Cursor → Exec (Decoded Variant)}
    (flag : Bool) (room : Nat) {xs : List Value} (hx : Value.AllFormed xs)
    (hd : ∀ x ∈ xs, Reads src lenSrc (dec x.isArray x.base x.count) x.payload x.Receivable
      (Variant.value · = x.received host)) :
    Reads src lenSrc (bytary2vntary src lenSrc dec flag xs.length room)
      (xs.flatMap (Value.item flag))
      (Value.AllReceivable xs ∧ xs.length ≤ room)
      (Variant.values · = Value.allReceived host xs) := by
  induction xs generalizing room
  case nil =>
    exact fun c _ _ _ =>
      ⟨fun _ => ⟨[], c.next, rfl, rfl⟩, fun h => by simp [Value.AllReceivable] at h⟩
  case cons x xs ih =>
    rcases room with _ | room
    case zero => exact fun _ _ _ _ => ⟨fun h => by simp at h, fun _ _ h => not_ok_write h⟩
    intro c hs hl hb
    have ⟨hi, hs'⟩ := List.shows_append.mp hs
    rw [List.flatMap_cons, List.length_append, ← Nat.add_assoc] at hl ⊢
    have ⟨offset, ho, hoff, hbody⟩ := shows_item hi (by omega)
    have ⟨_, hp⟩ := List.shows_append.mp hbody
    have hlen := Value.length_body x
    rw [List.length_cons, bytary2vntary_succ src lenSrc hx.left ho hbody (by omega) hb]
    rw [hoff] at hl hs' ⊢
    simp only [List.length_append, length_toLe] at hp
    have hr := hd x List.mem_cons_self ⟨offset + 6, c.next⟩ hp (by simp only; omega) hb
    simp only [Value.AllReceivable, Nat.add_le_add_iff_right, and_assoc, hlen] at hs' ⊢
    by_cases hc : x.Receivable
    case neg =>
      refine ⟨fun h => absurd h.left hc, fun _ d hd => ?_⟩
      obtain ⟨d', he, hd⟩ := ok_of_bind hd
      have hf := hr.right hc d' he
      rw [if_pos hf] at hd
      cases hd
      exact hf
    case pos =>
      have ⟨v, next, he, hv⟩ := hr.left hc
      have hrs := ih room hx.right (fun x h => hd x (List.mem_cons_of_mem _ h))
        ⟨offset + 6 + x.payload.length, next⟩ (by rw [Nat.add_assoc]; exact hs')
        (by simp only; omega) hb
      refine ⟨fun h => ?fits, fun h => ?short⟩
      case fits =>
        have ⟨vs, next, he', hvs⟩ := hrs.left h.right
        exact ⟨v :: vs, next, by simp [he, he', ← Nat.add_assoc],
          by simp [Variant.values, Value.allReceived, hv, hvs]⟩
      case short =>
        intro d hd
        simp only [he, Exec.ok_bind, not_failed_sOk, if_false] at hd
        obtain ⟨d', he', hd⟩ := ok_of_bind hd
        cases hd
        exact hrs.right (fun h' => h ⟨hc, h'⟩) d' he'

-- No array is created for elements without a size.
theorem create_unsized (hh : host.Ample) {depth n : Nat} {vt : VarType} {bs : List UInt8}
    {P : Variant → Prop} (hn : n ≠ 0) (hs : elemSize vt = none) :
    Reads src lenSrc (bytary2vnt host src lenSrc (depth + 1) true vt n) bs False P := by
  intro c _ _ _
  refine ⟨False.elim, fun _ d hd => ?_⟩
  simp only [bytary2vnt, safeArrayCreateVector, Host.alloc_of_ample hh, if_neg hn, hs] at hd
  cases hd
  exact failed_eOutOfMemory

theorem elemSize_cases {vt : VarType} (hbstr : vt ≠ .bstr) (hvariant : vt ≠ .variant) :
    elemSize vt = none ∨ elemSize vt = some (elementSize vt) ∧ 0 < elementSize vt := by
  cases vt <;> simp_all [elemSize, elementSize, wireSize]

mutual

theorem bytary2vnt_reads (hh : host.Ample) : (x : Value) → x.Formed →
    (depth : Nat) → x.depth ≤ depth →
    Reads src lenSrc (bytary2vnt host src lenSrc depth x.isArray x.base x.count) x.payload
      x.Receivable (Variant.value · = x.received host)
  | .variants _, _, 0, hd                => by simp [Value.depth] at hd
  | .number _ _, hx, _ + 1, _            =>
    bytary2scalar_reads src lenSrc hx.right.left hx.right.right
  | .text _, hx, _ + 1, _                =>
    getBstr_reads src lenSrc hh true hx |>.map
      (fun _ h => by rw [Variant.value, h]; rfl) |>.congr (by
      simp [Value.Receivable])
  | .numbers vt n data, hx, depth + 1, _ => by
    have ⟨_, hbstr, hvariant, _, hlen⟩ := hx
    have hread {sz : Nat} (hsz : n = 0 ∨ elemSize vt = some sz)
        (hcap : n * elementSize vt < 4294967296 → n ≤ vectorCapacity n sz) :
        Reads src lenSrc (bytary2vnt host src lenSrc (depth + 1) true vt n) data True
          (Variant.value · = (Value.numbers vt n data).received host) := by
      intro c hs hl hb
      refine create_reads src lenSrc hh hsz (fun psa hn hc => ?_) c hs hl hb
      exact bytary2array_reads src lenSrc hbstr hvariant hlen hn (hc ▸ hcap (by omega))
    by_cases hn : n = 0
    case pos =>
      refine (hread (.inl hn) fun _ =>
        Nat.le_trans (Nat.le_of_eq hn) (Nat.zero_le (vectorCapacity n 0))).congr ?_
      exact iff_of_true trivial (.inl hn)
    case neg =>
      cases elemSize_cases hbstr hvariant
      case inl hs =>
        refine (create_unsized src lenSrc hh hn hs).congr ?_
        simp [Value.Receivable, hn, hs]
      case inr hs =>
        refine (hread (.inr hs.left) (le_vectorCapacity hs.right).mpr).congr ?_
        exact iff_of_true trivial (.inr (by rw [hs.left]; rfl))
  | .texts elems, hx, _ + 1, _           =>
    create_reads src lenSrc hh (.inr rfl) fun psa _ hc => by
      have hr := getBstrs_reads src lenSrc hh psa.cap hx
      refine hr.map (fun _ h => by rw [Variant.value, h]; rfl) |>.congr ?_
      rw [hc, Value.count, le_vectorCapacity (by decide), Value.Receivable]
  | .variants elems, hx, depth + 1, hd   =>
    create_reads src lenSrc hh (.inr rfl) fun psa _ hc => by
      rw [Value.depth] at hd
      have he := elements_read hh elems hx depth (by omega)
      have hr := bytary2vntary_reads src lenSrc false psa.cap hx he
      rw [Value.payload, Value.bodies_eq]
      refine hr.map (fun _ h => by rw [Variant.value, h]; rfl) |>.congr ?_
      rw [hc, Value.count, le_vectorCapacity (by decide), Value.Receivable, and_comm]

theorem elements_read (hh : host.Ample) : (xs : List Value) → Value.AllFormed xs →
    (depth : Nat) → Value.depths xs ≤ depth →
    ∀ x ∈ xs, Reads src lenSrc (bytary2vnt host src lenSrc depth x.isArray x.base x.count) x.payload
      x.Receivable (Variant.value · = x.received host)
  | [], _, _, _             => by simp
  | x :: xs, hx, depth, hd  => by
    rw [Value.depths] at hd
    have h := bytary2vnt_reads hh x hx.left depth (by omega)
    have hs := elements_read hh xs hx.right depth (by omega)
    exact List.forall_mem_cons.mpr ⟨h, hs⟩

end

end

-- Every level of nested variants takes some bytes.

mutual

theorem depth_le : (x : Value) → x.depth ≤ x.payload.length + 1
  | .number _ _ | .text _ | .numbers _ _ _ | .texts _ => by simp [Value.depth]
  | .variants elems                                   => by
    have := depths_le elems
    simp only [Value.depth, Value.payload]
    omega

theorem depths_le : (xs : List Value) → Value.depths xs ≤ (Value.bodies xs).length
  | []      => Nat.le_refl _
  | x :: xs => by
    have := depth_le x
    have := depths_le xs
    simp only [Value.depths, Value.bodies, List.length_append, length_toLe]
    omega

end

theorem depths_le_args (xs : List Value) :
    Value.depths xs ≤ (xs.flatMap (Value.item true)).length := by
  induction xs
  case nil => exact Nat.le_refl _
  case cons x xs ih =>
    have := depth_le x
    have := length_argument x
    simp only [Value.depths, List.flatMap_cons, List.length_append, Value.item, if_true] at ih ⊢
    omega

section

variable {serial reserv : Nat} {id : Int} {xs : List Value} {crc : List UInt8}

theorem length_frame : (frame serial reserv id xs crc).length =
    16 + (xs.flatMap Value.argument).length + crc.length := by
  simp only [frame, List.length_append, length_toLe, List.length_singleton]
  omega

-- The fields of a frame, in their order.
theorem frame_shows {f : List UInt8} (hf : f = frame serial reserv id xs crc) :
    f.Shows 0 [bcapHeader] ∧ f.Shows 1 (toLe 4 f.length) ∧ f.Shows 5 (toLe 2 serial) ∧
    f.Shows 7 (toLe 2 reserv) ∧ f.Shows 9 (toLe 4 (wordOfInt id)) ∧ f.Shows 13 (toLe 2 xs.length) ∧
    f.Shows 15 (xs.flatMap Value.argument) ∧ f.Shows (f.length - 1) [bcapTerminator] := by
  have hl : f.length = 16 + (xs.flatMap Value.argument).length + crc.length := hf ▸ length_frame
  have h : f.Shows 0 (frame serial reserv id xs crc) := hf ▸ f.shows_self
  simp only [frame, List.shows_append, List.length_append, length_toLe, List.length_singleton,
    bcapSizeMin, ← hl] at h
  have ⟨⟨⟨⟨⟨⟨⟨⟨h₀, h₁⟩, h₂⟩, h₃⟩, h₄⟩, h₅⟩, h₆⟩, _⟩, h₇⟩ := h
  refine ⟨h₀, h₁, h₂, h₃, h₄, h₅, h₆, ?_⟩
  rw [hl]
  convert h₇ using 1
  omega

theorem wellFramed_frame (hl : (frame serial reserv id xs crc).length < 4294967296) :
    wellFramed (frame serial reserv id xs crc) := by
  generalize hf : frame serial reserv id xs crc = f at hl ⊢
  have ⟨h₀, h₁, _, _, _, _, _, h₇⟩ := frame_shows hf.symm
  have hmin : bcapSizeMin ≤ f.length := by rw [← hf, length_frame, bcapSizeMin]; omega
  have hw : ofLe (f.window bcapPosLen 4) = f.length := by
    have := h₁.window_eq
    rw [length_toLe] at this
    rw [bcapPosLen, this, ofLe_toLe_of_lt hl]
  simp [wellFramed, hmin, hw, h₀.getElem?, h₇.getElem?]

-- The fields of a frame are taken over before its arguments are read.
theorem bytary2packet_frame {host : Host} (hl : (frame serial reserv id xs crc).length < 4294967296)
    (hs : serial < 65536) (hr : reserv < 65536) (hid : -2147483648 ≤ id ∧ id < 2147483648)
    (hx : xs.length < 65536) (dst : BcapPacket) (next : Nat) :
    bytary2packet host (frame serial reserv id xs crc) dst next =
      if Failed (checkArgc dst xs.length) then
        .ok ⟨checkArgc dst xs.length, ⟨serial, reserv, id, dst.argc, dst.args⟩, next⟩
      else
        fillArgs host (frame serial reserv id xs crc) ⟨serial, reserv, id, xs.length, dst.args⟩
          next := by
  have hw := wellFramed_frame hl
  generalize hf : frame serial reserv id xs crc = f at hl hw ⊢
  have ⟨_, _, h₂, h₃, h₄, h₅, _, _⟩ := frame_shows hf.symm
  have h₂ := h₂.window_eq
  have h₃ := h₃.window_eq
  have h₄ := h₄.window_eq
  have h₅ := h₅.window_eq
  rw [length_toLe] at h₂ h₃ h₄ h₅
  simp only [bytary2packet, hw, bcapPosArgc, bcapPosSerial, bcapPosReserve, bcapPosId, h₂, h₃, h₄,
    h₅, ofLe_toLe_of_lt (show serial < 256 ^ 2 from hs),
      ofLe_toLe_of_lt (show reserv < 256 ^ 2 from hr),
    ofLe_toLe_of_lt (show xs.length < 256 ^ 2 from hx),
    ofLe_toLe_of_lt (show wordOfInt id < 256 ^ 4 from wordOfInt_lt id),
    i32_wordOfInt hid.left hid.right]
  rfl

-- The arguments of a frame are read completely, unless one of them cannot be received.
theorem bytary2args_frame {host : Host} (hh : host.Ample) (hx : Value.AllFormed xs)
    (hl : (frame serial reserv id xs crc).length < 4294967296) {room : Nat} (hr : xs.length ≤ room)
    (next : Nat) :
    (Value.AllReceivable xs → ∃ vs cur,
      bytary2args host (frame serial reserv id xs crc) xs.length room next = .ok ⟨sOk, vs, cur⟩ ∧
      Variant.values vs = Value.allReceived host xs) ∧
    (¬Value.AllReceivable xs → ∀ d,
      bytary2args host (frame serial reserv id xs crc) xs.length room next = .ok d →
      Failed d.hr) := by
  have hlen : (frame serial reserv id xs crc).length = _ := length_frame
  generalize hf : frame serial reserv id xs crc = f at hl hlen ⊢
  have ⟨_, _, _, _, _, _, h₆, _⟩ := frame_shows hf.symm
  have hd := depths_le_args xs
  have hi : xs.flatMap Value.argument = xs.flatMap (Value.item true) := rfl
  rw [hi] at hlen h₆
  have he := elements_read f (f.length - 1) hh xs hx f.length (by omega)
  have hrd := bytary2vntary_reads f (f.length - 1) true room hx he ⟨bcapPosDataLen, next⟩ h₆
    (by simp only [bcapPosDataLen]; omega) (by omega)
  refine ⟨fun hc => ?fits, fun hc => hrd.right fun h => hc h.left⟩
  case fits =>
    have ⟨vs, next, h, hv⟩ := hrd.left ⟨hc, hr⟩
    exact ⟨vs, _, h, hv⟩

end

end Bcap
