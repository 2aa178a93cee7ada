import DensoRobot.Lib.Stores
import DensoRobot.Robot.SlaveMove

open HRESULT Stores

namespace Robot

def Pose.get (p : Pose) : PoseVector → List Nat
  | .position => p.position
  | .joint    => p.joint
  | .trans    => p.trans

-- The array of a variant whose type is that of an array is there.
def NonNull (v : Variant) : Prop :=
  v.vt / VarType.vtArray % 2 = 1 → ∃ psa, parray v = .ok psa

namespace RecvField

-- Whether an element is one that the field asks for.
def Carried : RecvField → Variant → Prop
  | timestamp,    v => v.vt = vtI4
  | pose vectors, v => v.vt = vtR8s ∧ arrayLength v = numValues vectors
  | miniio,       v => v.vt = vtI4
  | userio,       v => v.vt = vtUi1s
  | handio,       v => v.vt = vtI4
  | current,      v => v.vt = vtR8s ∧ arrayLength v = 8

instance : (f : RecvField) → (v : Variant) → Decidable (f.Carried v)
  | timestamp, v => inferInstanceAs (Decidable (v.vt = vtI4))
  | pose _, _    => inferInstanceAs (Decidable (_ ∧ _))
  | miniio, v    => inferInstanceAs (Decidable (v.vt = vtI4))
  | userio, v    => inferInstanceAs (Decidable (v.vt = vtUi1s))
  | handio, v    => inferInstanceAs (Decidable (v.vt = vtI4))
  | current, _   => inferInstanceAs (Decidable (_ ∧ _))

-- What was received has the value of the field. The values of a pose are those of its vectors.
def Shown (v : Variant) (r : Received) : RecvField → Prop
  | timestamp    => r.timestamp = lVal v
  | pose vectors =>
    (vectors.map r.pose.get).flatten = doubles v (numValues vectors) ∧
      ∀ w ∈ vectors, (r.pose.get w).length = w.num
  | miniio       => r.miniio = lVal v
  | userio       => r.recvUserio = bytes v (arrayLength v)
  | handio       => r.handio = lVal v
  | current      => r.current = doubles v 8

end RecvField

-- The fields with the elements of an answer that are parsed for them.
def parts (recv : Variant) : List RecvField → (offset : Nat) → List (RecvField × Variant)
  | [],              _      => []
  | field :: fields, offset => (field, element recv offset) :: parts recv fields (offset + 1)

-- An answer carries exactly the fields that the format asks for.
inductive Carries (recvfmt : Int) (recv : Variant) : List (RecvField × Variant) → Prop
  | bare : recvPose recvfmt = some vectors → recvFields recvfmt vectors = [.pose vectors] →
    RecvField.Carried (.pose vectors) recv → Carries recvfmt recv [(.pose vectors, recv)]
  | fields : recvPose recvfmt = some vectors → recv.vt = vtVariants →
    RecvField.arrayLength recv = (recvFields recvfmt vectors).length →
    (∀ p ∈ parts recv (recvFields recvfmt vectors) 0, p.1.Carried p.2) →
    Carries recvfmt recv (parts recv (recvFields recvfmt vectors) 0)

-- What no field was parsed for is as before.
structure Kept (fields : List RecvField) (r r' : Received) : Prop where
  timestamp : .timestamp ∉ fields → r'.timestamp = r.timestamp
  pose      : ∀ w, (∀ vectors, .pose vectors ∈ fields → w ∉ vectors) → r'.pose.get w = r.pose.get w
  miniio    : .miniio ∉ fields → r'.miniio = r.miniio
  userio    : .userio ∉ fields → r'.recvUserio = r.recvUserio
  handio    : .handio ∉ fields → r'.handio = r.handio
  current   : .current ∉ fields → r'.current = r.current

-- An answer is parsed completely or not at all.
inductive Whole (recvfmt : Int) (recv : Variant) (r : Received) : HRESULT × Received → Prop
  | parsed : Carries recvfmt recv ps → (∀ p ∈ ps, p.1.Shown p.2 r') → Kept (ps.map Prod.fst) r r' →
    Whole recvfmt recv r (sOk, r')
  | refused : (∀ ps, ¬Carries recvfmt recv ps) → hr.Failed → Whole recvfmt recv r (hr, r)

-- A pose is not answered alone where more is asked for, and all fields in front of the first
-- element that is not of its type have the values that were there before.
structure Decisive (recvfmt : Int) (recv : Variant) (r : Received) : Prop where
  bare  : ∀ vectors, recvPose recvfmt = some vectors → RecvField.Carried (.pose vectors) recv →
    recvFields recvfmt vectors = [.pose vectors]
  early : ∀ vectors, recvPose recvfmt = some vectors → recv.vt = vtVariants →
    RecvField.arrayLength recv = (recvFields recvfmt vectors).length →
    (¬∀ p ∈ parts recv (recvFields recvfmt vectors) 0, p.1.Carried p.2) →
    ∀ p ∈ (parts recv (recvFields recvfmt vectors) 0).takeWhile fun p => p.1.Carried p.2,
      p.1.Shown p.2 r

section

variable {v recv : Variant} {vectors : List PoseVector} {recvfmt : Int} {r r' : Received}

theorem NonNull.parray_eq (h : NonNull v) (hv : v.vt / VarType.vtArray % 2 = 1) :
    ∃ psa, parray v = .ok psa ∧ RecvField.arrayLength v = psa.cElements := by
  obtain ⟨psa, hp⟩ := h hv
  exact ⟨psa, hp, by simp only [RecvField.arrayLength, hp]⟩

namespace RecvField

theorem accepts_eq (f : RecvField) (h : NonNull v) : f.accepts v = .ok (decide (f.Carried v)) := by
  have hr8 : v.vt = vtR8s → ∃ psa, parray v = .ok psa ∧ arrayLength v = psa.cElements :=
    fun hv => h.parray_eq (by rw [hv]; decide)
  have hui1 : v.vt = vtUi1s → ∃ psa, parray v = .ok psa ∧ arrayLength v = psa.cElements :=
    fun hv => h.parray_eq (by rw [hv]; decide)
  cases f
  case timestamp => rfl
  case miniio    => rfl
  case handio    => rfl
  case pose vectors =>
    by_cases hv : v.vt = vtR8s
    case neg => simp [accepts, Carried, hv]
    case pos =>
      obtain ⟨psa, hp, hl⟩ := hr8 hv
      simp [accepts, Carried, hv, hp, hl, eq_comm]
  case userio =>
    by_cases hv : v.vt = vtUi1s
    case neg => simp [accepts, Carried, hv]
    case pos =>
      obtain ⟨psa, hp, hl⟩ := hui1 hv
      simp [accepts, Carried, hv, hp]
  case current =>
    by_cases hv : v.vt = vtR8s
    case neg => simp [accepts, Carried, hv]
    case pos =>
      obtain ⟨psa, hp, hl⟩ := hr8 hv
      simp [accepts, Carried, hv, hp, hl, eq_comm]

theorem carried_of_accepts {f : RecvField} {b : Bool} (h : f.accepts v = .ok b) :
    b = true ↔ f.Carried v := by
  have ha : ∀ {n : Nat}, (do return n = (← parray v).cElements : Exec Bool) = .ok b →
      (b = true ↔ arrayLength v = n) := by
    intro n ha
    obtain ⟨psa, hp, hb⟩ := ok_of_bind ha
    cases hb
    simp [arrayLength, hp, eq_comm]
  cases f
  case timestamp => cases h; simp [Carried]
  case miniio    => cases h; simp [Carried]
  case handio    => cases h; simp [Carried]
  case pose vectors =>
    by_cases hv : v.vt = vtR8s
    case pos => simpa [Carried, hv] using ha ((if_pos hv).symm.trans h)
    case neg => cases (if_neg hv).symm.trans h; simp [Carried, hv]
  case userio =>
    by_cases hv : v.vt = vtUi1s
    case pos =>
      obtain ⟨psa, -, hb⟩ := ok_of_bind ((if_pos hv).symm.trans h)
      cases hb
      simp [Carried, hv]
    case neg => cases (if_neg hv).symm.trans h; simp [Carried, hv]
  case current =>
    by_cases hv : v.vt = vtR8s
    case pos => simpa [Carried, hv] using ha ((if_pos hv).symm.trans h)
    case neg => cases (if_neg hv).symm.trans h; simp [Carried, hv]

end RecvField

@[simp]
theorem length_doubles (n : Nat) : (doubles v n).length = n := by
  simp [doubles]

theorem recvPose_cases (h : recvPose recvfmt = some vectors) :
    vectors = [.position] ∨ vectors = [.joint] ∨ vectors = [.trans] ∨
      vectors = [.position, .joint] ∨ vectors = [.trans, .joint] := by
  unfold recvPose at h
  split at h
  case h_6 => contradiction
  all_goals cases h; simp

theorem take_eq_iff {xs a : List α} (h : xs.length = m) :
    xs.take m = a ↔ a = xs ∧ a.length = m := by
  rw [List.take_of_length_le (Nat.le_of_eq h)]
  constructor
  case mp  => rintro rfl; exact ⟨rfl, h⟩
  case mpr => exact fun ha => ha.1.symm

theorem take_drop_eq_iff {xs a b : List α} (h : xs.length = m + n) :
    (xs.take m = a ∧ (xs.drop m).take n = b) ↔ a ++ b = xs ∧ a.length = m ∧ b.length = n := by
  have hd : (xs.drop m).length = n := by rw [List.length_drop, h, Nat.add_sub_cancel_left]
  rw [List.take_of_length_le (Nat.le_of_eq hd)]
  constructor
  case mp =>
    rintro ⟨rfl, rfl⟩
    exact ⟨List.take_append_drop m xs,
      by rw [List.length_take, h, Nat.min_eq_left (Nat.le_add_right m n)], hd⟩
  case mpr =>
    rintro ⟨rfl, rfl, rfl⟩
    exact ⟨List.take_left, List.drop_left⟩

namespace RecvField

-- A value is shown iff storing it changes nothing.
theorem putPose_eq_self_iff {p : Pose} {xs : List Nat} (h : recvPose recvfmt = some vectors)
    (hx : xs.length = numValues vectors) :
    putPose vectors xs p = p ↔
      (vectors.map p.get).flatten = xs ∧ ∀ w ∈ vectors, (p.get w).length = w.num := by
  obtain ⟨position, joint, trans⟩ := p
  obtain rfl | rfl | rfl | rfl | rfl := recvPose_cases h
  case inl =>
    simpa [putPose, Pose.put, Pose.get] using take_eq_iff (m := PoseVector.position.num) hx
  case inr.inl =>
    simpa [putPose, Pose.put, Pose.get] using take_eq_iff (m := PoseVector.joint.num) hx
  case inr.inr.inl =>
    simpa [putPose, Pose.put, Pose.get] using take_eq_iff (m := PoseVector.trans.num) hx
  case inr.inr.inr.inl =>
    simpa [putPose, Pose.put, Pose.get] using take_drop_eq_iff hx
  case inr.inr.inr.inr =>
    simpa [putPose, Pose.put, Pose.get, and_comm] using take_drop_eq_iff hx

theorem putPose_idem {p : Pose} {xs : List Nat} (h : recvPose recvfmt = some vectors) :
    putPose vectors xs (putPose vectors xs p) = putPose vectors xs p := by
  obtain rfl | rfl | rfl | rfl | rfl := recvPose_cases h <;> rfl

theorem putPose_get {p : Pose} {xs : List Nat} {w : PoseVector} (h : w ∉ vectors) :
    (putPose vectors xs p).get w = p.get w := by
  induction vectors generalizing p xs
  case nil => rfl
  case cons u vectors ih =>
    obtain ⟨hu, hw⟩ := not_or.mp (mt List.mem_cons.mpr h)
    rw [putPose, ih hw]
    cases u <;> cases w <;> first | rfl | contradiction

-- The field of an element, and where its value goes.
def put (p : RecvField × Variant) (r : Received) : Received :=
  p.1.store p.2 r

-- The poses of a format are those that it asks for.
def Fits (recvfmt : Int) : RecvField → Prop
  | pose vectors => recvPose recvfmt = some vectors
  | _            => True

theorem shown_iff {f : RecvField} (h : f.Fits recvfmt) : f.Shown v r ↔ Holds put (f, v) r := by
  obtain ⟨p, _, _, _, _, _⟩ := r
  cases f
  case pose vectors =>
    simp only [Shown, Holds, put, store, Received.mk.injEq, and_true]
    exact (putPose_eq_self_iff h (length_doubles _)).symm
  all_goals simp [Shown, Holds, put, store, eq_comm]

theorem put_idem {f : RecvField} (h : f.Fits recvfmt) : Idempotent put (f, v) := by
  intro r
  cases f
  case pose vectors => simp only [put, store, putPose_idem h]
  all_goals rfl

def tag : RecvField → Nat
  | timestamp => 0
  | pose _    => 1
  | miniio    => 2
  | userio    => 3
  | handio    => 4
  | current   => 5

theorem put_independent {p q : RecvField × Variant} (h : p.1.tag ≠ q.1.tag) :
    Independent put p q := by
  intro r
  obtain ⟨f, v⟩ := p
  obtain ⟨g, w⟩ := q
  cases f <;> cases g <;> first | rfl | exact absurd rfl h

theorem put_kept {f : RecvField} (h : f ∈ fields) (r : Received) :
    Kept fields r (put (f, v) r) := by
  cases f
  all_goals
    constructor
    all_goals first
      | exact fun _ => rfl
      | exact fun hn => absurd h hn
      | skip
  case pose.pose vectors => exact fun w hw => putPose_get (hw vectors h)
  all_goals exact fun _ _ => rfl

end RecvField

theorem Kept.trans (h : Kept fields r r') (h' : Kept fields r' r'') : Kept fields r r'' where
  timestamp hn := (h'.timestamp hn).trans (h.timestamp hn)
  pose w hw    := (h'.pose w hw).trans (h.pose w hw)
  miniio hn    := (h'.miniio hn).trans (h.miniio hn)
  userio hn    := (h'.userio hn).trans (h.userio hn)
  handio hn    := (h'.handio hn).trans (h.handio hn)
  current hn   := (h'.current hn).trans (h.current hn)

theorem storeAll_kept {ps : List (RecvField × Variant)} (h : ∀ p ∈ ps, p.1 ∈ fields)
    (r : Received) : Kept fields r (storeAll RecvField.put ps r) := by
  induction ps generalizing r
  case nil =>
    exact ⟨fun _ => rfl, fun _ _ => rfl, fun _ => rfl, fun _ => rfl, fun _ => rfl, fun _ => rfl⟩
  case cons p ps ih =>
    obtain ⟨hp, hps⟩ := List.forall_mem_cons.mp h
    exact (RecvField.put_kept hp r).trans (ih hps _)

theorem ite_sublist {b : Bool} {x : α} : (if b then [x] else []).Sublist [x] := by
  cases b
  case false => exact List.nil_sublist _
  case true  => exact List.Sublist.refl _

-- The fields of a format are among all fields, in this order.
theorem recvFields_sublist (recvfmt : Int) (vectors : List PoseVector) :
    (recvFields recvfmt vectors).Sublist
      ([.timestamp] ++ [.pose vectors] ++ [.miniio] ++ [.userio] ++ [.handio] ++ [.current]) :=
  ((((ite_sublist.append (List.Sublist.refl _)).append ite_sublist).append ite_sublist).append
    ite_sublist).append ite_sublist

theorem recvFields_pairwise (recvfmt : Int) (vectors : List PoseVector) :
    (recvFields recvfmt vectors).Pairwise fun f g => f.tag ≠ g.tag := by
  apply List.Pairwise.sublist (recvFields_sublist recvfmt vectors)
  simp [RecvField.tag]

theorem recvFields_fit (h : recvPose recvfmt = some vectors) :
    ∀ f ∈ recvFields recvfmt vectors, f.Fits recvfmt := by
  intro f hf
  have hm := (recvFields_sublist recvfmt vectors).subset hf
  cases f
  case pose w =>
    have hw : w = vectors := by simpa using hm
    exact hw ▸ h
  all_goals trivial

theorem map_fst_parts (fields : List RecvField) (offset : Nat) :
    (parts recv fields offset).map Prod.fst = fields := by
  induction fields generalizing offset
  case nil => rfl
  case cons f fields ih => rw [parts, List.map_cons, ih]

theorem parts_pairwise (recvfmt : Int) (vectors : List PoseVector) :
    (parts recv (recvFields recvfmt vectors) 0).Pairwise (Independent RecvField.put) := by
  have hp := recvFields_pairwise recvfmt vectors
  have hfst : (parts recv (recvFields recvfmt vectors) 0).map Prod.fst =
      recvFields recvfmt vectors :=
    map_fst_parts _ 0
  rw [← hfst, List.pairwise_map] at hp
  exact hp.imp RecvField.put_independent

theorem fst_mem_of_mem_parts {fields : List RecvField} (h : p ∈ parts recv fields offset) :
    p.1 ∈ fields := by
  have hfst : (parts recv fields offset).map Prod.fst = fields := map_fst_parts fields offset
  exact hfst ▸ List.mem_map_of_mem h

theorem parts_fit (h : recvPose recvfmt = some vectors) :
    ∀ p ∈ parts recv (recvFields recvfmt vectors) 0, p.1.Fits recvfmt :=
  fun _ hp => recvFields_fit h _ (fst_mem_of_mem_parts hp)

-- The loop stores the values of all elements in front of the first one that is not accepted.
theorem parseFields_eq (h : ∀ i, NonNull (element recv i)) (fields : List RecvField) (offset : Nat)
    (r : Received) :
    parseFields recv fields offset r =
      .ok (if ∀ p ∈ parts recv fields offset, p.1.Carried p.2 then sOk else eFail,
        storeAll RecvField.put
          ((parts recv fields offset).takeWhile fun p => p.1.Carried p.2) r) := by
  induction fields generalizing offset r
  case nil => simp [parseFields, parts, storeAll]
  case cons f fields ih =>
    simp only [parseFields, f.accepts_eq (h offset), Exec.ok_bind, parts]
    by_cases hc : f.Carried (element recv offset)
    case pos =>
      rw [if_pos (by simpa using hc), ih, List.takeWhile_cons_of_pos (by simpa using hc)]
      simp only [List.forall_mem_cons, hc, true_and]
      rfl
    case neg =>
      rw [if_neg (by simpa using hc), List.takeWhile_cons_of_neg (by simpa using hc)]
      simp only [List.forall_mem_cons, hc, false_and, if_false]
      rfl

theorem takeWhile_eq_self {p : α → Bool} {l : List α} (h : ∀ a ∈ l, p a = true) :
    l.takeWhile p = l := by
  have ht : (l ++ []).takeWhile p = l ++ [].takeWhile p := List.takeWhile_append_of_pos h
  rwa [List.append_nil, List.takeWhile_nil, List.append_nil] at ht

-- What an answer in an array of its own leads to.
theorem parse_bare (h : NonNull recv) (hv : recv.vt = vtR8s)
    (hp : recvPose recvfmt = some vectors) :
    parseRecvParameter recvfmt recv r = .ok (if RecvField.Carried (.pose vectors) recv
      then (sOk, RecvField.put (.pose vectors, recv) r) else (eFail, r)) := by
  obtain ⟨psa, ha, hl⟩ := h.parray_eq (by rw [hv]; decide)
  simp only [parseRecvParameter, hp, ha, Exec.ok_bind, RecvField.Carried, hv, hl, true_and]
  by_cases hn : psa.cElements = numValues vectors
  case pos => simp [hn, RecvField.put]
  case neg => simp [hn, Ne.symm hn]

-- What an answer in an array of variants leads to.
theorem parse_fields (h : NonNull recv) (hv : recv.vt = vtVariants)
    (hp : recvPose recvfmt = some vectors)
    (hl : RecvField.arrayLength recv = (recvFields recvfmt vectors).length) :
    parseRecvParameter recvfmt recv r =
      parseFields recv (recvFields recvfmt vectors) 0 r := by
  obtain ⟨psa, ha, hpsa⟩ := h.parray_eq (by rw [hv]; decide)
  have hr8 : recv.vt ≠ vtR8s := by rw [hv]; decide
  simp only [parseRecvParameter, hp, if_neg hr8, if_pos hv, ha, Exec.ok_bind]
  rw [hpsa] at hl
  exact if_neg (not_not.mpr hl.symm)

theorem parse_length (h : NonNull recv) (hv : recv.vt = vtVariants)
    (hp : recvPose recvfmt = some vectors)
    (hl : RecvField.arrayLength recv ≠ (recvFields recvfmt vectors).length) :
    parseRecvParameter recvfmt recv r = .ok (eFail, r) := by
  obtain ⟨psa, ha, hpsa⟩ := h.parray_eq (by rw [hv]; decide)
  have hr8 : recv.vt ≠ vtR8s := by rw [hv]; decide
  simp only [parseRecvParameter, hp, if_neg hr8, if_pos hv, ha, Exec.ok_bind]
  rw [hpsa] at hl
  exact if_pos hl.symm

theorem parse_other (hr8 : recv.vt ≠ vtR8s) (hv : recv.vt ≠ vtVariants) :
    parseRecvParameter recvfmt recv r = .ok (eFail, r) := by
  simp only [parseRecvParameter, if_neg hr8, if_neg hv]
  split <;> rfl

theorem Carries.pose (h : Carries recvfmt recv ps) :
    ∃ vectors, recvPose recvfmt = some vectors := by
  cases h
  case bare hp _ _     => exact ⟨_, hp⟩
  case fields hp _ _ _ => exact ⟨_, hp⟩

theorem whole_failed_iff :
    Whole recvfmt recv r (eFail, r') ↔ (∀ ps, ¬Carries recvfmt recv ps) ∧ r' = r := by
  constructor
  case mp =>
    intro h
    generalize hret : (eFail, r') = ret at h
    cases h
    case parsed       => exact absurd (congrArg Prod.fst hret) (show eFail ≠ sOk by decide)
    case refused hn _ => exact ⟨hn, congrArg Prod.snd hret⟩
  case mpr =>
    rintro ⟨hn, rfl⟩
    exact .refused hn (by decide)

theorem whole_sOk_iff :
    Whole recvfmt recv r (sOk, r') ↔ ∃ ps, Carries recvfmt recv ps ∧
      (∀ p ∈ ps, p.1.Shown p.2 r') ∧ Kept (ps.map Prod.fst) r r' := by
  constructor
  case mp =>
    intro h
    generalize hret : (sOk, r') = ret at h
    cases h
    case parsed ps r'' hc hs hk =>
      cases hret
      exact ⟨ps, hc, hs, hk⟩
    case refused hf =>
      cases hret
      exact absurd hf not_failed_sOk
  case mpr =>
    rintro ⟨ps, hc, hs, hk⟩
    exact .parsed hc hs hk

theorem Carries.vt_eq (h : Carries recvfmt recv ps) : recv.vt = vtR8s ∨ recv.vt = vtVariants := by
  cases h
  case bare _ _ hc     => exact .inl hc.1
  case fields _ hv _ _ => exact .inr hv

theorem Carries.of_bare (h : Carries recvfmt recv ps) (hv : recv.vt = vtR8s)
    (hp : recvPose recvfmt = some vectors) :
    RecvField.Carried (.pose vectors) recv ∧ recvFields recvfmt vectors = [.pose vectors] := by
  cases h
  case bare w hw hf hc =>
    cases hp.symm.trans hw
    exact ⟨hc, hf⟩
  case fields hv' _ _ => exact absurd (hv.symm.trans hv') (by decide)

theorem Carries.of_fields (h : Carries recvfmt recv ps) (hv : recv.vt = vtVariants)
    (hp : recvPose recvfmt = some vectors) :
    RecvField.arrayLength recv = (recvFields recvfmt vectors).length ∧
      ∀ p ∈ parts recv (recvFields recvfmt vectors) 0, p.1.Carried p.2 := by
  cases h
  case bare _ _ hc           => exact absurd (hv.symm.trans hc.1) (by decide)
  case fields w hw _ hl hall =>
    cases hp.symm.trans hw
    exact ⟨hl, hall⟩

-- An answer that is refused before anything is stored.
theorem whole_iff_of_refused (hret : parseRecvParameter recvfmt recv r = .ok (eFail, r))
    (hn : ∀ ps, ¬Carries recvfmt recv ps) :
    ∃ ret, parseRecvParameter recvfmt recv r = .ok ret ∧ Whole recvfmt recv r ret :=
  ⟨_, hret, whole_failed_iff.mpr ⟨hn, rfl⟩⟩

theorem parse_whole_iff {ret : HRESULT × Received}
    (hret : parseRecvParameter recvfmt recv r = .ok ret) :
    (∃ ret, parseRecvParameter recvfmt recv r = .ok ret ∧ Whole recvfmt recv r ret) ↔
      Whole recvfmt recv r ret := by
  constructor
  case mp =>
    rintro ⟨ret', hret', hw⟩
    cases hret.symm.trans hret'
    exact hw
  case mpr => exact fun hw => ⟨ret, hret, hw⟩

theorem whole_bare_iff (h : NonNull recv) (hv : recv.vt = vtR8s)
    (hp : recvPose recvfmt = some vectors) :
    (∃ ret, parseRecvParameter recvfmt recv r = .ok ret ∧ Whole recvfmt recv r ret) ↔
      (RecvField.Carried (.pose vectors) recv → recvFields recvfmt vectors = [.pose vectors]) := by
  have hret := parse_bare (r := r) h hv hp
  rw [parse_whole_iff hret]
  by_cases hc : RecvField.Carried (.pose vectors) recv
  case neg =>
    rw [if_neg hc, whole_failed_iff]
    have hn : ∀ ps, ¬Carries recvfmt recv ps := fun ps hps => hc (hps.of_bare hv hp).1
    exact iff_of_true ⟨hn, rfl⟩ fun hc' => absurd hc' hc
  case pos =>
    rw [if_pos hc, whole_sOk_iff]
    constructor
    case mp =>
      rintro ⟨ps, hps, -⟩ -
      exact (hps.of_bare hv hp).2
    case mpr =>
      intro hf
      have hfit : RecvField.Fits recvfmt (.pose vectors) := hp
      refine ⟨_, .bare hp (hf hc) hc, ?_, ?_⟩
      case refine_1 =>
        intro p hm
        cases List.mem_singleton.mp hm
        exact (RecvField.shown_iff hfit).mpr (RecvField.put_idem hfit r)
      case refine_2 => exact RecvField.put_kept List.mem_cons_self r

theorem whole_fields_iff (h : NonNull recv) (he : ∀ i, NonNull (element recv i))
    (hv : recv.vt = vtVariants) (hp : recvPose recvfmt = some vectors)
    (hl : RecvField.arrayLength recv = (recvFields recvfmt vectors).length) :
    (∃ ret, parseRecvParameter recvfmt recv r = .ok ret ∧ Whole recvfmt recv r ret) ↔
      ((¬∀ p ∈ parts recv (recvFields recvfmt vectors) 0, p.1.Carried p.2) →
        ∀ p ∈ (parts recv (recvFields recvfmt vectors) 0).takeWhile fun p => p.1.Carried p.2,
          p.1.Shown p.2 r) := by
  have hret := (parse_fields (r := r) h hv hp hl).trans (parseFields_eq he _ _ _)
  have hpair : (parts recv (recvFields recvfmt vectors) 0).Pairwise (Independent RecvField.put) :=
    parts_pairwise recvfmt vectors
  have hfit : ∀ p ∈ parts recv (recvFields recvfmt vectors) 0, p.1.Fits recvfmt := parts_fit hp
  rw [parse_whole_iff hret]
  by_cases hall : ∀ p ∈ parts recv (recvFields recvfmt vectors) 0, p.1.Carried p.2
  case pos =>
    rw [if_pos hall, whole_sOk_iff, takeWhile_eq_self (by simpa using hall)]
    refine iff_of_true ⟨_, .fields hp hv hl hall, ?_, ?_⟩ fun hn => absurd hall hn
    case refine_1 =>
      intro p hm
      exact (RecvField.shown_iff (hfit p hm)).mpr
        (holds_storeAll (fun q hq => RecvField.put_idem (hfit q hq)) hpair hm)
    case refine_2 =>
      rw [map_fst_parts]
      exact storeAll_kept (fun p hm => fst_mem_of_mem_parts hm) r
  case neg =>
    rw [if_neg hall, whole_failed_iff]
    have hn : ∀ ps, ¬Carries recvfmt recv ps := fun ps hps => hall (hps.of_fields hv hp).2
    have hsub := List.takeWhile_sublist (fun p : RecvField × Variant => decide (p.1.Carried p.2))
      (l := parts recv (recvFields recvfmt vectors) 0)
    have hfit' : ∀ p ∈ (parts recv (recvFields recvfmt vectors) 0).takeWhile
        (fun p => p.1.Carried p.2), p.1.Fits recvfmt := fun p hm => hfit p (hsub.subset hm)
    have hself := storeAll_eq_self_iff (s := r)
      (fun q hq => RecvField.put_idem (hfit' q hq)) (hpair.sublist hsub)
    constructor
    case mp =>
      rintro ⟨-, hr⟩ -
      exact fun p hm => (RecvField.shown_iff (hfit' p hm)).mpr (hself.mp hr p hm)
    case mpr =>
      intro hs
      exact ⟨hn, hself.mpr fun p hm => (RecvField.shown_iff (hfit' p hm)).mp (hs hall p hm)⟩

-- The answers that are parsed completely or not at all.
theorem parseRecv_whole_iff (recvfmt : Int) (recv : Variant) (r : Received) (h : NonNull recv)
    (he : ∀ i, NonNull (element recv i)) :
    (∃ ret, parseRecvParameter recvfmt recv r = .ok ret ∧ Whole recvfmt recv r ret) ↔
      Decisive recvfmt recv r := by
  cases hp : recvPose recvfmt
  case none =>
    have hret : parseRecvParameter recvfmt recv r = .ok (eFail, r) := by
      simp only [parseRecvParameter, hp]
      rfl
    have hn : ∀ ps, ¬Carries recvfmt recv ps := by
      intro ps hps
      obtain ⟨w, hw⟩ := hps.pose
      exact absurd (hp.symm.trans hw) (Option.some_ne_none w).symm
    refine iff_of_true (whole_iff_of_refused hret hn) ⟨fun w hw => ?_, fun w hw => ?_⟩
    all_goals exact absurd (hp.symm.trans hw) (Option.some_ne_none w).symm
  case some vectors =>
    have huniq : ∀ w, recvPose recvfmt = some w → w = vectors :=
      fun w hw => (Option.some.inj (hp.symm.trans hw)).symm
    by_cases hr8 : recv.vt = vtR8s
    case pos =>
      rw [whole_bare_iff h hr8 hp]
      constructor
      case mp =>
        intro hb
        constructor
        case bare =>
          intro w hw
          exact huniq w hw ▸ hb
        case early => exact fun _ _ hv => absurd (hr8.symm.trans hv) (by decide)
      case mpr => exact fun hd => hd.bare vectors hp
    case neg =>
      have hbare : ∀ w, ¬RecvField.Carried (.pose w) recv := fun w hc => hr8 hc.1
      by_cases hv : recv.vt = vtVariants
      case neg =>
        have hn : ∀ ps, ¬Carries recvfmt recv ps := fun ps hps => hps.vt_eq.elim hr8 hv
        exact iff_of_true (whole_iff_of_refused (parse_other hr8 hv) hn)
          ⟨fun w _ hc => absurd hc (hbare w), fun _ _ hv' => absurd hv' hv⟩
      case pos =>
        by_cases hl : RecvField.arrayLength recv = (recvFields recvfmt vectors).length
        case neg =>
          have hn : ∀ ps, ¬Carries recvfmt recv ps := fun ps hps => hl (hps.of_fields hv hp).1
          refine iff_of_true (whole_iff_of_refused (parse_length h hv hp hl) hn)
            ⟨fun w _ hc => absurd hc (hbare w), fun w hw _ hl' => ?_⟩
          exact absurd (huniq w hw ▸ hl') hl
        case pos =>
          rw [whole_fields_iff h he hv hp hl]
          constructor
          case mp =>
            intro hs
            refine ⟨fun w _ hc => absurd hc (hbare w), fun w hw _ _ => ?_⟩
            exact huniq w hw ▸ hs
          case mpr => exact fun hd => hd.early vectors hp hv hl

end

-- An array of zeros.
def zeros (n : Nat) : Variant :=
  .rawArray .r8 ⟨0, some 1, 0, n, 8, n⟩ []

theorem nonNull_zeros (n : Nat) : NonNull (zeros n) :=
  fun _ => ⟨_, rfl⟩

theorem nonNull_scalar (vt : VarType) (h : vt.code / VarType.vtArray % 2 = 0) (val : Nat) :
    NonNull (.scalar vt val) := by
  intro hf
  have hv : Variant.vt (.scalar vt val) = vt.code := rfl
  rw [hv, h] at hf
  contradiction

theorem zeros_whole :
    ∃ ret, parseRecvParameter 2 (zeros 8) .init = .ok ret ∧ Whole 2 (zeros 8) .init ret := by
  apply (parseRecv_whole_iff 2 (zeros 8) .init (nonNull_zeros 8) ?elements).mpr
  case elements => exact fun _ => nonNull_scalar .empty rfl 0
  constructor
  case bare =>
    rintro w ⟨⟩ -
    rfl
  case early => exact fun _ _ hv => absurd hv (by decide)

-- Joints, and a number that is not the mini I/O.
def mixed : Variant :=
  .variantArray ⟨2, some 3, 0, 2, 24, 2⟩ [zeros 8, .scalar .r8 0]

theorem element_mixed : (i : Nat) → NonNull (element mixed i)
  | 0     => nonNull_zeros 8
  | 1     => nonNull_scalar .r8 rfl 0
  | _ + 2 => nonNull_scalar .empty rfl 0

-- The joints of an answer that is refused are kept.
theorem mixed_not_whole :
    ¬∀ recvfmt recv r, NonNull recv → (∀ i, NonNull (element recv i)) →
      ∃ ret, parseRecvParameter recvfmt recv r = .ok ret ∧ Whole recvfmt recv r ret := by
  intro h
  obtain ⟨ret, hret, hw⟩ := h 0x0102 mixed .init (fun _ => ⟨_, rfl⟩) element_mixed
  have he : parseRecvParameter 0x0102 mixed .init =
      .ok (eFail, RecvField.put (.pose [.joint], zeros 8) .init) := rfl
  cases he.symm.trans hret
  have hr := (whole_failed_iff.mp hw).2
  exact absurd hr (by decide)

end Robot
