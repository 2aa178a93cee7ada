import Mathlib.Data.List.Forall2
import DensoRobot.Robot.SendParameter

open HRESULT

namespace Robot

open RecvField

-- What an element of a command has to be: floating point numbers, a number, or bytes.
inductive Part
  | r8 (xs : List UInt64)
  | i4 (z : Int)
  | ui1 (bs : List UInt8)

def Part.Is : Part → Variant → Prop
  | r8 xs,  v =>
      v.vt = vtR8s ∧ arrayLength v = xs.length ∧ doubles v xs.length = xs.map UInt64.toNat
  | i4 z,   v => v.vt = vtI4 ∧ lVal v = z
  | ui1 bs, v => v.vt = vtUi1s ∧ arrayLength v = bs.length ∧ bytes v bs.length = bs

-- What a field stands for. Values that are not given are zero, and sizes are in bits.
def SendField.parts (joints : Nat) (pose : List UInt64) (s : SendValues) : SendField → List Part
  | .pose      => [.r8 (pose ++ List.replicate (joints - pose.length) 0)]
  | miniio     => [.i4 s.miniio.toInt]
  | sendUserio =>
    let io := s.sendUserio
    [.i4 io.offset.toInt, .i4 (io.size.toInt * 8),
      .ui1 (io.value ++ List.replicate (io.size.toInt.toNat - io.value.length) 0)]
  | recvUserio => [.i4 s.recvUserio.offset.toInt, .i4 (s.recvUserio.size.toInt * 8)]
  | handio     => [.i4 s.handio.toInt]

-- A command consists of a pose alone, or of an array with all of its parts in order.
inductive SendCommand (v : Variant) : List Part → Prop
  | alone : part.Is v → SendCommand v [part]
  | array {ps : List Part} : 1 < ps.length → v.vt = vtVariants → arrayLength v = ps.length →
    List.Forall₂ Part.Is ps ((List.range ps.length).map (element v)) → SendCommand v ps

-- `CreateSendParameter` fails or builds the command.
inductive Built (mode sendfmt recvfmt : Int) (pose : List UInt64) (s : SendValues) :
    Exec (HRESULT × Variant × Nat) → Prop
  | refused : hr.Failed → Built mode sendfmt recvfmt pose s (.ok (hr, v, next))
  | built : sendJoints mode = some joints →
    SendCommand v ((sendFields sendfmt recvfmt).flatMap fun f => f.parts (joints + 1) pose s) →
    Built mode sendfmt recvfmt pose s (.ok (sOk, v, next))

namespace SendField

-- The size in bits of a user I/O is in the range of an `int`.
def Exact (s : SendValues) : SendField → Prop
  | sendUserio => s.sendUserio.size.toInt * 8 < 2147483648
  | recvUserio => s.recvUserio.size.toInt * 8 < 2147483648
  | _          => True

-- The number of requests for memory.
def requests : SendField → Nat
  | pose | sendUserio => 2
  | _                 => 0

end SendField

def requests (fields : List SendField) : Nat :=
  (fields.map SendField.requests).sum + if fields.length = 1 then 0 else 2

-- The values of the pose are not more than those of the mode with its options, the sizes are in
-- range, and there is memory for all arrays.
structure Buildable (host : Host) (fields : List SendField) (joints : Nat) (pose : List UInt64)
    (s : SendValues) (next : Nat) : Prop where
  pose   : pose.length ≤ joints + 1
  exact  : ∀ f ∈ fields, f.Exact s
  memory : ∀ k < requests fields, host.malloc (next + k) = true

-- What was received is what `put_SendUserIO` and `put_RecvUserIO` accept.
structure SendValues.Accepted (s : SendValues) : Prop where
  send : 0 < s.sendUserio.size.toInt
  fits : s.sendUserio.value.length ≤ s.sendUserio.size.toInt
  recv : 0 < s.recvUserio.size.toInt

section

variable {s : SendValues} {host : Host} {joints next : Nat} {pose : List UInt64}

theorem toSize_of_pos {z : Int} (h : 0 < z) (hu : z < 2147483648) : toSize z = z.toNat := by
  rw [toSize, Int.emod_eq_of_lt (Int.le_of_lt h) (by omega)]

theorem SendValues.Accepted.receive (h : s.Accepted) (m : Message) : (s.receive m).Accepted := by
  cases m
  case miniio value => exact ⟨h.send, h.fits, h.recv⟩
  case handio value => exact ⟨h.send, h.fits, h.recv⟩
  case recvUserio value =>
    simp only [SendValues.receive, putRecvUserio]
    split
    case isTrue => exact h
    split
    case isTrue => exact h
    split
    case isTrue     => exact h
    case isFalse hs => exact ⟨h.send, h.fits, Int.not_le.mp hs⟩
  case sendUserio value =>
    simp only [SendValues.receive, putSendUserio]
    split
    case isTrue => exact h
    split
    case isTrue => exact h
    split
    case isTrue => exact h
    case isFalse hs =>
      have hpos := Int.not_le.mp hs
      split
      case isTrue     => exact h
      case isFalse hf =>
        rw [toSize_of_pos hpos value.size.toInt_lt] at hf
        have hfits : (value.value.length : Int) ≤ value.size.toInt := by omega
        exact ⟨hpos, hfits, h.recv⟩

theorem SendValues.accepted (ms : List Message) : (ms.foldl SendValues.receive .init).Accepted := by
  have hinit : SendValues.init.Accepted := ⟨by decide, by decide, by decide⟩
  generalize SendValues.init = s at hinit
  induction ms generalizing s
  case nil          => exact hinit
  case cons m ms ih => exact ih _ (hinit.receive m)

theorem SendValues.Accepted.not_short {sendfmt : Int} (a : s.Accepted) :
    ¬(hasBit sendfmt fmtUserio ∧
      toSize s.sendUserio.size.toInt < s.sendUserio.value.length) := by
  have hfits := a.fits
  rw [toSize_of_pos a.send s.sendUserio.size.toInt_lt]
  omega

-- Creating a vector takes two requests for memory.
theorem createVector_served {vt : VarType} {n sz : Nat} (hsz : elemSize vt = some sz) (hp : 0 < sz)
    (hn : 0 < n) (hl : n * sz < 4294967296) (h₁ : host.malloc next = true)
    (h₂ : host.malloc (next + 1) = true) :
    safeArrayCreateVector host vt 0 n next =
      (some ⟨next, some (next + 1), 0, n, sz, n⟩, next + 2) := by
  have hc : vectorCapacity n sz = n := by rw [vectorCapacity, u32_of_lt hl, Nat.mul_div_cancel n hp]
  simp only [safeArrayCreateVector, Host.alloc, h₁, h₂, if_true, if_neg (Nat.ne_of_gt hn), hsz, hc]

theorem createVector_unserved {vt : VarType} {n sz : Nat} (hsz : elemSize vt = some sz)
    (hn : 0 < n) (h : ¬(host.malloc next = true ∧ host.malloc (next + 1) = true)) :
    ∃ next', safeArrayCreateVector host vt 0 n next = (none, next') := by
  by_cases h₁ : host.malloc next = true
  case neg =>
    rw [safeArrayCreateVector, Host.alloc, if_neg h₁]
    exact ⟨_, rfl⟩
  case pos =>
    have h₂ : ¬host.malloc (next + 1) = true := fun h₂ => h ⟨h₁, h₂⟩
    simp only [safeArrayCreateVector, Host.alloc, h₁, if_true, if_neg (Nat.ne_of_gt hn), hsz,
      if_neg h₂]
    exact ⟨_, rfl⟩

theorem window_append_succ {as bs : List α} (h : as.length = n) (i : Nat) :
    (as ++ bs).window (n * (i + 1)) n = bs.window (n * i) n := by
  have hle : as.length ≤ n * (i + 1) := h ▸ Nat.le_mul_of_pos_right n (Nat.succ_pos i)
  have hsub : n * (i + 1) - as.length = n * i := by rw [h, Nat.mul_succ, Nat.add_sub_cancel]
  rw [List.window, List.window, List.drop_append, List.drop_of_length_le hle, List.nil_append, hsub]

theorem doubles_flatMap (psa : ArrayHeader) (xs : List UInt64) :
    doubles (.rawArray .r8 psa (xs.flatMap fun x => Bytes.toLe 8 x.toNat)) xs.length =
      xs.map UInt64.toNat := by
  simp only [doubles, arrayBytes]
  induction xs
  case nil => rfl
  case cons x xs ih =>
    have hlen : (Bytes.toLe 8 x.toNat).length = 8 := Bytes.length_toLe 8 _
    have hx : Bytes.ofLe (Bytes.toLe 8 x.toNat) = x.toNat := Bytes.ofLe_toLe_of_lt x.toNat_lt
    rw [List.length_cons, List.range_succ_eq_map, List.map_cons, List.map_map, List.map_cons,
      List.flatMap_cons, ← ih]
    refine congrArg₂ List.cons ?head ?tail
    case head => rw [Nat.mul_zero, List.window, List.drop_zero, List.take_left' hlen, hx]
    case tail =>
      apply List.map_congr_left
      intro i _
      rw [Function.comp_apply, window_append_succ hlen]

theorem bytes_length (psa : ArrayHeader) (bs : List UInt8) :
    bytes (.rawArray .ui1 psa bs) bs.length = bs := by
  simp only [bytes, arrayBytes]
  apply List.ext_getElem
  case hl => simp
  case h =>
    intro i h₁ h₂
    simp [h₂]

theorem length_padded {α : Type} {xs : List α} {n : Nat} (h : xs.length ≤ n) (x : α) :
    (xs ++ List.replicate (n - xs.length) x).length = n := by
  rw [List.length_append, List.length_replicate, Nat.add_sub_cancel' h]

-- An array of floating point numbers is created iff it is served and takes all values.
theorem createDoubles_ok (hj : 0 < joints) (hl : joints ≤ 11) (hp : pose.length ≤ joints)
    (h₁ : host.malloc next = true) (h₂ : host.malloc (next + 1) = true) :
    ∃ v, createDoubles host joints pose next = .ok (v, next + 2) ∧
      (Part.r8 (pose ++ List.replicate (joints - pose.length) 0)).Is v := by
  have hv : safeArrayCreateVector host .r8 0 joints next =
      (some ⟨next, some (next + 1), 0, joints, 8, joints⟩, next + 2) :=
    createVector_served rfl (by decide) hj (by omega) h₁ h₂
  have hlen := length_padded hp 0
  refine ⟨_, by simp only [createDoubles, hv, le_refl, true_and, if_pos hp]; rfl, rfl, ?_, ?_⟩
  case refine_1 => exact hlen.symm
  case refine_2 => exact doubles_flatMap _ _

theorem createDoubles_error (hj : 0 < joints) (hl : joints ≤ 11)
    (h : ¬(pose.length ≤ joints ∧ host.malloc next = true ∧ host.malloc (next + 1) = true)) :
    ∃ e, createDoubles host joints pose next = .error e := by
  by_cases hm : host.malloc next = true ∧ host.malloc (next + 1) = true
  case neg =>
    have hv : ∃ next', safeArrayCreateVector host .r8 0 joints next = (none, next') :=
      createVector_unserved rfl hj hm
    obtain ⟨_, hv⟩ := hv
    exact ⟨.uninit, by simp only [createDoubles, hv]; rfl⟩
  case pos =>
    have hv : safeArrayCreateVector host .r8 0 joints next =
        (some ⟨next, some (next + 1), 0, joints, 8, joints⟩, next + 2) :=
      createVector_served rfl (by decide) hj (by omega) hm.1 hm.2
    have hp : ¬pose.length ≤ joints := fun hp => h ⟨hp, hm⟩
    exact ⟨.write, by simp only [createDoubles, hv, le_refl, true_and, if_neg hp]; rfl⟩

theorem createBytes_ok {size : Int} {value : List UInt8} (hs : 0 < size) (hu : size < 2147483648)
    (hv : value.length ≤ size) (h₁ : host.malloc next = true)
    (h₂ : host.malloc (next + 1) = true) :
    ∃ v, createBytes host size value next = .ok (v, next + 2) ∧
      (Part.ui1 (value ++ List.replicate (size.toNat - value.length) 0)).Is v := by
  have hw : wordOfInt size = size.toNat := by
    rw [wordOfInt, Int.emod_eq_of_lt (Int.le_of_lt hs) (by omega)]
  have hle : value.length ≤ size.toNat := by omega
  have hc : safeArrayCreateVector host .ui1 0 (wordOfInt size) next =
      (some ⟨next, some (next + 1), 0, size.toNat, 1, size.toNat⟩, next + 2) :=
    hw ▸ createVector_served rfl (by decide) (by omega) (by omega) h₁ h₂
  have hlen := length_padded hle 0
  refine ⟨_,
    by simp only [createBytes, hc, toSize_of_pos hs hu, le_refl, true_and, if_pos hle]; rfl,
    rfl, ?_, ?_⟩
  case refine_1 => exact hlen.symm
  case refine_2 => exact bytes_length _ _

theorem createBytes_error {size : Int} {value : List UInt8} (hs : 0 < size)
    (hu : size < 2147483648)
    (h : ¬(host.malloc next = true ∧ host.malloc (next + 1) = true)) :
    ∃ e, createBytes host size value next = .error e := by
  have hw : 0 < wordOfInt size := by
    rw [wordOfInt, Int.emod_eq_of_lt (Int.le_of_lt hs) (by omega)]
    omega
  have hv : ∃ next', safeArrayCreateVector host .ui1 0 (wordOfInt size) next = (none, next') :=
    createVector_unserved rfl hw h
  obtain ⟨_, hv⟩ := hv
  exact ⟨.uninit, by simp only [createBytes, hv]; rfl⟩

theorem i4_is (z : Int32) : (Part.i4 z.toInt).Is (i4 z.toInt) :=
  ⟨rfl, i32_wordOfInt z.le_toInt z.toInt_lt⟩

-- The size in bits is what is sent iff it is in the range of an `int`.
theorem i4_bits_is_iff {size : Int} (hs : 0 < size) (hu : size < 2147483648) :
    (Part.i4 (size * 8)).Is (i4 (toInt (size * 8))) ↔ size * 8 < 2147483648 := by
  have hb := i32_bounds (wordOfInt (size * 8))
  have hr : lVal (i4 (toInt (size * 8))) = toInt (size * 8) := i32_wordOfInt hb.1 hb.2
  constructor
  case mp =>
    intro h
    have hz := hr.symm.trans h.2
    have hlt : toInt (size * 8) < 2147483648 := hb.2
    omega
  case mpr =>
    intro h
    exact ⟨rfl, hr.trans (i32_wordOfInt (by omega) h)⟩

namespace SendField

-- What a field needs to be created.
structure Creatable (host : Host) (joints : Nat) (pose : List UInt64) (next : Nat) (f : SendField) :
    Prop where
  values : f = .pose → pose.length ≤ joints
  memory : ∀ k < f.requests, host.malloc (next + k) = true

theorem create_ok (a : s.Accepted) (hj : 0 < joints) (hl : joints ≤ 11) {f : SendField}
    (h : f.Creatable host joints pose next) :
    ∃ vs, f.create host joints pose s next = .ok (vs, next + f.requests) ∧ vs.length = f.width ∧
      (f.parts joints pose s).length = f.width ∧
      (List.Forall₂ Part.Is (f.parts joints pose s) vs ↔ f.Exact s) := by
  cases f
  case pose =>
    have h₁ : host.malloc next = true       := h.memory 0 (by decide)
    have h₂ : host.malloc (next + 1) = true := h.memory 1 (by decide)
    obtain ⟨v, hv, his⟩ := createDoubles_ok hj hl (h.values rfl) h₁ h₂
    refine ⟨[v], by simp only [create, hv]; rfl, rfl, rfl, ?_⟩
    simpa [parts, Exact] using his
  case miniio =>
    refine ⟨_, rfl, rfl, rfl, ?_⟩
    simpa [parts, Exact] using i4_is s.miniio
  case handio =>
    refine ⟨_, rfl, rfl, rfl, ?_⟩
    simpa [parts, Exact] using i4_is s.handio
  case recvUserio =>
    refine ⟨_, rfl, rfl, rfl, ?_⟩
    have hbits := i4_bits_is_iff a.recv s.recvUserio.size.toInt_lt
    simp only [parts, Exact, List.forall₂_cons, List.forall₂_nil_left_iff, and_true,
      i4_is, true_and, hbits]
  case sendUserio =>
    have h₁ : host.malloc next = true       := h.memory 0 (by decide)
    have h₂ : host.malloc (next + 1) = true := h.memory 1 (by decide)
    obtain ⟨v, hv, his⟩ := createBytes_ok a.send s.sendUserio.size.toInt_lt a.fits h₁ h₂
    refine ⟨_, by simp only [create, hv]; rfl, rfl, rfl, ?_⟩
    have hbits := i4_bits_is_iff a.send s.sendUserio.size.toInt_lt
    simp only [parts, Exact, List.forall₂_cons, List.forall₂_nil_left_iff, and_true,
      i4_is, true_and, hbits, his]

theorem create_error (a : s.Accepted) (hj : 0 < joints) (hl : joints ≤ 11) {f : SendField}
    (h : ¬f.Creatable host joints pose next) :
    ∃ e, f.create host joints pose s next = .error e := by
  have hmem : (∀ k < 2, host.malloc (next + k) = true) ↔
      host.malloc next = true ∧ host.malloc (next + 1) = true := by
    constructor
    case mp  => exact fun hk => ⟨hk 0 (by decide), hk 1 (by decide)⟩
    case mpr =>
      rintro ⟨h₁, h₂⟩ k hk
      obtain rfl | rfl : k = 0 ∨ k = 1 := by omega
      case inl => exact h₁
      case inr => exact h₂
  cases f
  case pose =>
    have hn : ¬(pose.length ≤ joints ∧ host.malloc next = true ∧ host.malloc (next + 1) = true) :=
      fun hc => h ⟨fun _ => hc.1, hmem.mpr hc.2⟩
    obtain ⟨e, he⟩ := createDoubles_error hj hl hn
    exact ⟨e, by simp only [create, he]; rfl⟩
  case sendUserio =>
    have hn : ¬(host.malloc next = true ∧ host.malloc (next + 1) = true) :=
      fun hc => h ⟨fun hp => absurd hp (by simp), hmem.mpr hc⟩
    have he : ∃ e, createBytes host s.sendUserio.size.toInt s.sendUserio.value next = .error e :=
      createBytes_error a.send s.sendUserio.size.toInt_lt hn
    obtain ⟨e, he⟩ := he
    exact ⟨e, by simp only [create, he]; rfl⟩
  all_goals
    exact absurd ⟨fun hp => absurd hp (by simp), fun k hk => absurd hk (Nat.not_lt_zero k)⟩ h

end SendField

theorem forall₂_append_iff {R : α → β → Prop} {as as' : List α} {bs bs' : List β}
    (h : as.length = bs.length) :
    List.Forall₂ R (as ++ as') (bs ++ bs') ↔ List.Forall₂ R as bs ∧ List.Forall₂ R as' bs' := by
  constructor
  case mp =>
    intro hf
    have htake := List.forall₂_take_append _ bs bs' hf
    have hdrop := List.forall₂_drop_append _ bs bs' hf
    rw [List.take_left' h] at htake
    rw [List.drop_left' h] at hdrop
    exact ⟨htake, hdrop⟩
  case mpr => exact fun hf => List.rel_append hf.1 hf.2

-- What a list of fields needs to be created.
structure Creatable (host : Host) (joints : Nat) (pose : List UInt64) (next : Nat)
    (fields : List SendField) : Prop where
  values : .pose ∈ fields → pose.length ≤ joints
  memory : ∀ k < (fields.map SendField.requests).sum, host.malloc (next + k) = true

theorem creatable_cons_iff {f : SendField} {fields : List SendField} :
    Creatable host joints pose next (f :: fields) ↔
    f.Creatable host joints pose next ∧ Creatable host joints pose (next + f.requests) fields := by
  constructor
  case mp =>
    intro h
    have hm := h.memory
    rw [List.map_cons, List.sum_cons] at hm
    refine ⟨⟨?hv, ?hm⟩, ⟨?hvs, ?hms⟩⟩
    case hv  => exact fun hf => h.values (hf ▸ List.mem_cons_self)
    case hm  => exact fun k hk => hm k (Nat.lt_add_right _ hk)
    case hvs => exact fun hf => h.values (List.mem_cons_of_mem _ hf)
    case hms => exact fun k hk => Nat.add_assoc next _ k ▸ hm (f.requests + k) (by omega)
  case mpr =>
    rintro ⟨hf, hfs⟩
    constructor
    case values =>
      intro hmem
      cases List.mem_cons.mp hmem
      case inl h => exact hf.values h.symm
      case inr h => exact hfs.values h
    case memory =>
      intro k hk
      rw [List.map_cons, List.sum_cons] at hk
      by_cases hlt : k < f.requests
      case pos => exact hf.memory k hlt
      case neg =>
        have hk' := hfs.memory (k - f.requests) (by omega)
        rwa [Nat.add_assoc, Nat.add_sub_cancel' (Nat.not_lt.mp hlt)] at hk'

-- All parts of the fields are created, and they are the right ones iff all sizes are in range.
theorem createFields_ok (a : s.Accepted) (hj : 0 < joints) (hl : joints ≤ 11)
    {fields : List SendField} (h : Creatable host joints pose next fields) :
    ∃ vs next', createFields host joints pose s fields next = .ok (vs, next') ∧
      vs.length = (fields.map SendField.width).sum ∧
      (fields.flatMap fun f => f.parts joints pose s).length = vs.length ∧
      (List.Forall₂ Part.Is (fields.flatMap fun f => f.parts joints pose s) vs ↔
        ∀ f ∈ fields, f.Exact s) := by
  induction fields generalizing next
  case nil => exact ⟨[], next, rfl, rfl, rfl, by simp⟩
  case cons f fields ih =>
    obtain ⟨hf, hfs⟩ := creatable_cons_iff.mp h
    obtain ⟨v, hv, hvl, hpl, hvi⟩ := SendField.create_ok a hj hl hf
    obtain ⟨vs, next', hvs, hvsl, hpsl, hvsi⟩ := ih hfs
    refine ⟨v ++ vs, next',
      by simp only [createFields, hv]; simp only [bind, Except.bind, hvs]; rfl, ?_, ?_, ?_⟩
    case refine_1 => rw [List.length_append, hvl, hvsl, List.map_cons, List.sum_cons]
    case refine_2 => rw [List.flatMap_cons, List.length_append, List.length_append, hpsl, hpl, hvl]
    case refine_3 =>
      rw [List.flatMap_cons, forall₂_append_iff (hpl.trans hvl.symm), hvi, hvsi,
        List.forall_mem_cons]

theorem createFields_error (a : s.Accepted) (hj : 0 < joints) (hl : joints ≤ 11)
    {fields : List SendField} (h : ¬Creatable host joints pose next fields) :
    ∃ e, createFields host joints pose s fields next = .error e := by
  induction fields generalizing next
  case nil => exact absurd ⟨by simp, by simp⟩ h
  case cons f fields ih =>
    rw [creatable_cons_iff] at h
    by_cases hf : f.Creatable host joints pose next
    case neg =>
      obtain ⟨e, he⟩ := SendField.create_error a hj hl hf
      exact ⟨e, by simp only [createFields, he]; rfl⟩
    case pos =>
      obtain ⟨v, hv, _⟩ := SendField.create_ok a hj hl hf
      obtain ⟨e, he⟩ := ih fun hfs => h ⟨hf, hfs⟩
      exact ⟨e, by simp only [createFields, hv]; simp only [bind, Except.bind, he]⟩

theorem sendJoints_bounds {mode : Int} (h : sendJoints mode = some joints) :
    0 < joints ∧ joints ≤ 10 := by
  unfold sendJoints at h
  split at h
  all_goals cases h
  all_goals decide

-- There is one argument iff only the pose is sent.
theorem sum_width_eq_one_iff (sendfmt recvfmt : Int) :
    ((sendFields sendfmt recvfmt).map SendField.width).sum = 1 ↔
      sendFields sendfmt recvfmt = [.pose] := by
  simp only [sendFields]
  cases hasBit sendfmt fmtMiniio <;> cases hasBit sendfmt fmtUserio <;>
    cases hasBit recvfmt fmtUserio <;> cases hasBit sendfmt fmtHandio <;>
    simp [SendField.width]

theorem sum_width_bounds (sendfmt recvfmt : Int) :
    0 < ((sendFields sendfmt recvfmt).map SendField.width).sum ∧
      ((sendFields sendfmt recvfmt).map SendField.width).sum ≤ 8 := by
  simp only [sendFields]
  cases hasBit sendfmt fmtMiniio <;> cases hasBit sendfmt fmtUserio <;>
    cases hasBit recvfmt fmtUserio <;> cases hasBit sendfmt fmtHandio <;>
    decide

theorem pose_mem_sendFields (sendfmt recvfmt : Int) : .pose ∈ sendFields sendfmt recvfmt := by
  simp only [sendFields, List.append_assoc]
  exact List.mem_append_left _ (List.mem_singleton.mpr rfl)

theorem not_built_error {mode sendfmt recvfmt : Int} (e : Fault) :
    ¬Built mode sendfmt recvfmt pose s (.error e) := by
  intro h
  cases h

theorem built_sOk_iff {mode sendfmt recvfmt : Int} {v : Variant}
    (hm : sendJoints mode = some joints) :
    Built mode sendfmt recvfmt pose s (.ok (sOk, v, next)) ↔
      SendCommand v ((sendFields sendfmt recvfmt).flatMap fun f =>
        f.parts (joints + 1) pose s) := by
  constructor
  case mp =>
    intro h
    cases h
    case refused hf   => exact absurd hf not_failed_sOk
    case built hj' hc =>
      cases hm.symm.trans hj'
      exact hc
  case mpr => exact Built.built hm

-- A pose alone.
theorem built_pose_iff {mode sendfmt recvfmt : Int} (a : s.Accepted)
    (hm : sendJoints mode = some joints) (hf : sendFields sendfmt recvfmt = [.pose]) :
    Built mode sendfmt recvfmt pose s (createSendParameter host mode sendfmt recvfmt pose s next) ↔
      Buildable host (sendFields sendfmt recvfmt) joints pose s next := by
  have hb := sendJoints_bounds hm
  have hc : createSendParameter host mode sendfmt recvfmt pose s next =
      (createDoubles host (joints + 1) pose next).bind fun x => .ok (sOk, x.1, x.2) := by
    simp only [createSendParameter, hm, if_neg a.not_short,
      if_pos ((sum_width_eq_one_iff sendfmt recvfmt).mpr hf)]
    rfl
  rw [hc]
  by_cases h : pose.length ≤ joints + 1 ∧ host.malloc next = true ∧ host.malloc (next + 1) = true
  case pos =>
    obtain ⟨v, hv, his⟩ := createDoubles_ok (Nat.succ_pos joints) (Nat.succ_le_succ hb.2) h.1 h.2.1
      h.2.2
    rw [hv, Except.bind, built_sOk_iff hm, hf]
    refine iff_of_true (.alone his) ⟨h.1, ?_, ?_⟩
    case refine_1 => exact List.forall_mem_singleton.mpr trivial
    case refine_2 =>
      intro k hk
      obtain rfl | rfl : k = 0 ∨ k = 1 := by
        have hr : requests [SendField.pose] = 2 := rfl
        omega
      case inl => exact h.2.1
      case inr => exact h.2.2
  case neg =>
    obtain ⟨e, he⟩ := createDoubles_error (Nat.succ_pos joints) (Nat.succ_le_succ hb.2) h
    rw [he, Except.bind, hf]
    refine iff_of_false (not_built_error e) fun hbuild => h ⟨hbuild.pose, ?_, ?_⟩
    case refine_1 => exact hbuild.memory 0 (by decide)
    case refine_2 => exact hbuild.memory 1 (by decide)

theorem requests_of_ne {sendfmt recvfmt : Int} (hf : sendFields sendfmt recvfmt ≠ [.pose]) :
    requests (sendFields sendfmt recvfmt) =
      ((sendFields sendfmt recvfmt).map SendField.requests).sum + 2 := by
  have hpose := pose_mem_sendFields sendfmt recvfmt
  rw [requests, if_neg]
  intro hlen
  obtain ⟨f, hone⟩ := List.length_eq_one_iff.mp hlen
  rw [hone, List.mem_singleton] at hpose
  exact hf (hpose ▸ hone)

theorem buildable_iff {sendfmt recvfmt : Int} (hf : sendFields sendfmt recvfmt ≠ [.pose]) :
    Buildable host (sendFields sendfmt recvfmt) joints pose s next ↔
      (host.malloc next = true ∧ host.malloc (next + 1) = true) ∧
        Creatable host (joints + 1) pose (next + 2) (sendFields sendfmt recvfmt) ∧
        ∀ f ∈ sendFields sendfmt recvfmt, f.Exact s := by
  have hmem : (∀ k < requests (sendFields sendfmt recvfmt), host.malloc (next + k) = true) ↔
      host.malloc next = true ∧ host.malloc (next + 1) = true ∧
        ∀ k < ((sendFields sendfmt recvfmt).map SendField.requests).sum,
          host.malloc (next + 2 + k) = true := by
    have hk : ∀ k, next + (k + 1 + 1) = next + 2 + k := fun k => by omega
    rw [requests_of_ne hf, Nat.forall_lt_succ_left, Nat.forall_lt_succ_left]
    exact and_congr Iff.rfl (and_congr Iff.rfl (forall₂_congr fun k _ => by rw [hk]))
  constructor
  case mp =>
    intro h
    obtain ⟨h₁, h₂, hk⟩ := hmem.mp h.memory
    exact ⟨⟨h₁, h₂⟩, ⟨fun _ => h.pose, hk⟩, h.exact⟩
  case mpr =>
    rintro ⟨⟨h₁, h₂⟩, hc, he⟩
    exact ⟨hc.values (pose_mem_sendFields sendfmt recvfmt), he, hmem.mpr ⟨h₁, h₂, hc.memory⟩⟩

theorem command_array_iff {psa : ArrayHeader} {parts : List Part} {vs : List Variant}
    (hp : parts.length = vs.length) (hc : psa.cElements = vs.length) (h : 1 < vs.length) :
    SendCommand (.variantArray psa vs) parts ↔ List.Forall₂ Part.Is parts vs := by
  have helem : (List.range parts.length).map (element (.variantArray psa vs)) = vs := by
    apply List.ext_getElem
    case hl => rw [List.length_map, List.length_range, hp]
    case h =>
      intro i h₁ h₂
      simp [element, h₂]
  constructor
  case mp =>
    intro hcmd
    cases hcmd
    case alone part _     => exact absurd h (hp ▸ Nat.lt_irrefl 1)
    case array _ _ _ hall => exact helem ▸ hall
  case mpr =>
    intro hall
    exact .array (hp ▸ h) rfl (hc.trans hp.symm) (helem.symm ▸ hall)

-- A pose with other fields.
theorem built_fields_iff {mode sendfmt recvfmt : Int} (a : s.Accepted)
    (hm : sendJoints mode = some joints) (hf : sendFields sendfmt recvfmt ≠ [.pose]) :
    Built mode sendfmt recvfmt pose s (createSendParameter host mode sendfmt recvfmt pose s next) ↔
      Buildable host (sendFields sendfmt recvfmt) joints pose s next := by
  have hb := sendJoints_bounds hm
  have hj := Nat.succ_pos joints
  have hl := Nat.succ_le_succ hb.2
  have hnum := mt (sum_width_eq_one_iff sendfmt recvfmt).mp hf
  have hbounds := sum_width_bounds sendfmt recvfmt
  rw [buildable_iff hf]
  generalize hn : ((sendFields sendfmt recvfmt).map SendField.width).sum = n at hnum hbounds
  by_cases hv : host.malloc next = true ∧ host.malloc (next + 1) = true
  case neg =>
    have hcreate : ∃ next', safeArrayCreateVector host .variant 0 n next = (none, next') :=
      createVector_unserved rfl hbounds.1 hv
    obtain ⟨_, hcreate⟩ := hcreate
    have hc : createSendParameter host mode sendfmt recvfmt pose s next = .error .uninit := by
      simp only [createSendParameter, hm, if_neg a.not_short, hn, if_neg hnum, hcreate]
      rfl
    rw [hc]
    exact iff_of_false (not_built_error _) fun h => hv h.1
  case pos =>
    have hcreate : safeArrayCreateVector host .variant 0 n next =
        (some ⟨next, some (next + 1), 0, n, 24, n⟩, next + 2) :=
      createVector_served rfl (by decide) hbounds.1 (by omega) hv.1 hv.2
    by_cases hfs : Creatable host (joints + 1) pose (next + 2) (sendFields sendfmt recvfmt)
    case neg =>
      obtain ⟨e, he⟩ := createFields_error a hj hl hfs
      have hc : createSendParameter host mode sendfmt recvfmt pose s next = .error e := by
        simp only [createSendParameter, hm, if_neg a.not_short, hn, if_neg hnum, hcreate, he]
        rfl
      rw [hc]
      exact iff_of_false (not_built_error _) fun h => hfs h.2.1
    case pos =>
      obtain ⟨vs, next', hvs, hlen, hparts, hiff⟩ := createFields_ok a hj hl hfs
      rw [hn] at hlen
      have hc : createSendParameter host mode sendfmt recvfmt pose s next =
          .ok (sOk, .variantArray ⟨next, some (next + 1), 0, n, 24, n⟩ vs, next') := by
        simp only [createSendParameter, hm, if_neg a.not_short, hn, if_neg hnum, hcreate, hvs]
        exact if_pos (Nat.le_of_eq hlen)
      have hlt : 1 < vs.length := by omega
      rw [hc, built_sOk_iff hm, command_array_iff hparts hlen.symm hlt, hiff]
      exact ⟨fun h => ⟨hv, hfs, h⟩, fun h => h.2.2⟩

end

-- A command is built inside of its arrays, or refused, iff its mode has no pose, or the values of
-- the pose fit, the sizes in bits are in range, and there is memory.
theorem createSendParameter_built_iff (host : Host) (mode sendfmt recvfmt : Int)
    (pose : List UInt64) (ms : List SendValues.Message) (next : Nat) :
    let s := ms.foldl SendValues.receive .init
    Built mode sendfmt recvfmt pose s (createSendParameter host mode sendfmt recvfmt pose s next) ↔
      ∀ joints, sendJoints mode = some joints →
        Buildable host (sendFields sendfmt recvfmt) joints pose s next := by
  intro s
  have a : s.Accepted := SendValues.accepted ms
  cases hm : sendJoints mode
  case none =>
    have hc : createSendParameter host mode sendfmt recvfmt pose s next =
        .ok (eFail, .scalar .empty 0, next) := by
      simp only [createSendParameter, hm]
      rfl
    rw [hc]
    exact iff_of_true (.refused failed_eFail) fun _ hj => absurd hj (by simp)
  case some joints =>
    have hall : (∀ j, some joints = some j →
        Buildable host (sendFields sendfmt recvfmt) j pose s next) ↔
        Buildable host (sendFields sendfmt recvfmt) joints pose s next := by simp
    rw [hall]
    by_cases hf : sendFields sendfmt recvfmt = [.pose]
    case pos => exact built_pose_iff a hm hf
    case neg => exact built_fields_iff a hm hf

def served : Host :=
  ⟨fun _ => true, id, some⟩

-- The values that the control writes, for a mode whose pose is a position.
theorem joints_not_built :
    ¬∀ host mode sendfmt recvfmt pose (ms : List SendValues.Message) next,
      let s := ms.foldl SendValues.receive .init
      Built mode sendfmt recvfmt pose s
        (createSendParameter host mode sendfmt recvfmt pose s next) := by
  intro h
  have hb := h served 1 0 0 (List.replicate 9 0) [] 0
  have he : createSendParameter served 1 0 0 (List.replicate 9 0) .init 0 = .error .write := rfl
  simp only [List.foldl_nil, he] at hb
  exact not_built_error _ hb

end Robot
