import DensoRobot.Lib.Run
import DensoRobot.Robot.Control
import DensoRobot.Robot.Theorems.Answer

open HRESULT

namespace Robot

open RecvField

-- The joints among the values of a pose.
def jointsOf (vectors : List PoseVector) (v : Variant) : List Nat :=
  (putPose vectors (doubles v (numValues vectors)) ⟨[], [], []⟩).joint

-- The joints of an answer that is refused, where `m_joint` has the joints of the ones before.
-- The pose is reached if the number of elements and the timestamp are right.
def leftJoint (recvfmt : Int) (recv : Variant) (joint : List Nat) : List Nat :=
  match recvPose recvfmt with
  | none => joint
  | some vectors =>
    let i := if hasBit recvfmt fmtTime then 1 else 0
    if recv.vt = vtVariants ∧ arrayLength recv = (recvFields recvfmt vectors).length ∧
        (hasBit recvfmt fmtTime → (element recv 0).vt = vtI4) ∧
        Carried (.pose vectors) (element recv i) then
      jointsOf vectors (element recv i)
    else
      joint

section

variable {recv v : Variant} {vectors : List PoseVector} {recvfmt : Int} {r r' : Received}
variable {fields : List RecvField} {hr : HRESULT}

-- A format asks for joints.
def HasJoint (recvfmt : Int) : Prop :=
  ∃ vectors, recvPose recvfmt = some vectors ∧ .joint ∈ vectors

theorem putPose_joint {p : Pose} (h : recvPose recvfmt = some vectors) (hj : .joint ∈ vectors) :
    (putPose vectors (doubles v (numValues vectors)) p).joint = jointsOf vectors v := by
  obtain rfl | rfl | rfl | rfl | rfl := recvPose_cases h
  case inl             => contradiction
  case inr.inl         => rfl
  case inr.inr.inl     => contradiction
  case inr.inr.inr.inl => rfl
  case inr.inr.inr.inr => rfl

theorem length_jointsOf (h : recvPose recvfmt = some vectors) (hj : .joint ∈ vectors) :
    (jointsOf vectors v).length = 8 := by
  obtain rfl | rfl | rfl | rfl | rfl := recvPose_cases h
  case inl             => contradiction
  case inr.inr.inl     => contradiction
  all_goals simp [jointsOf, putPose, Pose.put, numValues, PoseVector.num]

-- Fields other than the pose leave it as it is.
theorem parseFields_pose (h : ∀ f ∈ fields, ∀ w, f ≠ .pose w)
    (hp : parseFields recv fields offset r = .ok (hr, r')) : r'.pose = r.pose := by
  induction fields generalizing offset r
  case nil => cases hp; rfl
  case cons f fields ih =>
    obtain ⟨hf, hfs⟩ := List.forall_mem_cons.mp h
    obtain ⟨b, -, hb⟩ := ok_of_bind hp
    cases b
    case false => cases hb; rfl
    case true =>
      rw [ih hfs hb]
      cases f
      case pose w => exact absurd rfl (hf w)
      all_goals rfl

-- From the pose on, it is stored iff its element is accepted.
theorem parseFields_from_pose (h : ∀ f ∈ fields, ∀ w, f ≠ .pose w)
    (hp : parseFields recv (.pose vectors :: fields) offset r = .ok (hr, r')) :
    if Carried (.pose vectors) (element recv offset) then
      r'.pose = putPose vectors (doubles (element recv offset) (numValues vectors)) r.pose
    else
      hr = eFail ∧ r'.pose = r.pose := by
  obtain ⟨b, hb, ht⟩ := ok_of_bind hp
  have hc := carried_of_accepts hb
  cases b
  case false =>
    rw [if_neg fun hc' => absurd (hc.mpr hc') (by decide)]
    cases ht
    exact ⟨rfl, rfl⟩
  case true =>
    rw [if_pos (hc.mp rfl)]
    exact parseFields_pose h ht

-- The fields behind the pose.
theorem recvFields_eq (recvfmt : Int) (vectors : List PoseVector) :
    ∃ fields, (∀ f ∈ fields, ∀ w, f ≠ .pose w) ∧
      recvFields recvfmt vectors =
        (if hasBit recvfmt fmtTime then [.timestamp] else []) ++ .pose vectors :: fields := by
  refine ⟨(if hasBit recvfmt fmtMiniio then [.miniio] else []) ++
    (if hasBit recvfmt fmtUserio then [.userio] else []) ++
    (if hasBit recvfmt fmtHandio then [.handio] else []) ++
    (if hasBit recvfmt fmtCurrent then [.current] else []), ?_, ?_⟩
  case refine_1 =>
    intro f hf w he
    subst he
    simp only [List.mem_append] at hf
    obtain ((hf | hf) | hf) | hf := hf
    all_goals exact absurd (ite_sublist.subset hf) (by simp)
  case refine_2 => simp [recvFields]

theorem parseFields_hr (h : parseFields recv fields offset r = .ok (hr, r')) :
    hr = sOk ∨ hr = eFail := by
  induction fields generalizing offset r
  case nil => cases h; exact .inl rfl
  case cons f fields ih =>
    obtain ⟨b, -, hb⟩ := ok_of_bind h
    cases b
    case false => cases hb; exact .inr rfl
    case true  => exact ih hb

-- What an answer with the right number of elements makes of the joints.
theorem parseFields_joint (hp : recvPose recvfmt = some vectors) (hj : .joint ∈ vectors)
    (hv : recv.vt = vtVariants) (hl : arrayLength recv = (recvFields recvfmt vectors).length)
    (h : parseFields recv (recvFields recvfmt vectors) 0 r = .ok (hr, r')) :
    r'.pose.joint = leftJoint recvfmt recv r.pose.joint ∧
      (hr = sOk → r'.pose.joint.length = 8) := by
  obtain ⟨fields, hf, he⟩ := recvFields_eq recvfmt vectors
  have hstored : ∀ {i : Nat}, r'.pose = putPose vectors
      (doubles (element recv i) (numValues vectors)) r.pose →
      r'.pose.joint = jointsOf vectors (element recv i) ∧ r'.pose.joint.length = 8 := by
    intro i hi
    rw [hi, putPose_joint hp hj]
    exact ⟨rfl, length_jointsOf hp hj⟩
  simp only [leftJoint, hp, hv, hl, true_and]
  rw [he] at h
  cases ht : hasBit recvfmt fmtTime
  case false =>
    simp only [ht, Bool.false_eq_true, if_false, List.nil_append, false_implies, true_and] at h ⊢
    have hpose := parseFields_from_pose hf h
    split at hpose
    case isTrue hc =>
      obtain ⟨hjoint, hlen⟩ := hstored hpose
      exact ⟨by rw [if_pos hc, hjoint], fun _ => hlen⟩
    case isFalse hc =>
      rw [if_neg hc, hpose.2]
      exact ⟨rfl, fun hs => absurd (hs.symm.trans hpose.1) (by decide)⟩
  case true =>
    simp only [ht, if_true, true_implies, List.singleton_append] at h ⊢
    obtain ⟨b, hb, hrest⟩ := ok_of_bind h
    have hts := carried_of_accepts hb
    cases b
    case false =>
      cases hrest
      rw [if_neg fun hc => absurd (hts.mpr hc.1) (by decide)]
      exact ⟨rfl, fun hs => absurd hs (by decide)⟩
    case true =>
      have hpose := parseFields_from_pose hf hrest
      have hi4 : (element recv 0).vt = vtI4 := hts.mp rfl
      simp only [hi4, true_and]
      split at hpose
      case isTrue hc =>
        obtain ⟨hjoint, hlen⟩ := hstored hpose
        exact ⟨by rw [if_pos hc, hjoint], fun _ => hlen⟩
      case isFalse hc =>
        rw [if_neg hc, hpose.2]
        exact ⟨rfl, fun hs => absurd (hs.symm.trans hpose.1) (by decide)⟩

theorem arrayLength_of_parray (h : parray v = .ok psa) : arrayLength v = psa.cElements := by
  simp only [arrayLength, h]

-- An answer that is accepted has all joints.
theorem parse_joint (hj : HasJoint recvfmt)
    (h : parseRecvParameter recvfmt recv r = .ok (hr, r')) :
    hr = sOk ∧ r'.pose.joint.length = 8 ∨
      hr = eFail ∧ r'.pose.joint = leftJoint recvfmt recv r.pose.joint := by
  obtain ⟨vectors, hp, hj⟩ := hj
  simp only [parseRecvParameter, hp] at h
  by_cases hr8 : recv.vt = vtR8s
  case pos =>
    rw [if_pos hr8] at h
    obtain ⟨psa, -, h⟩ := ok_of_bind h
    split at h
    case isTrue =>
      cases h
      have hv : recv.vt ≠ vtVariants := by rw [hr8]; decide
      exact .inr ⟨rfl, by simp [leftJoint, hp, hv]⟩
    case isFalse =>
      cases h
      refine .inl ⟨rfl, ?_⟩
      simp only [store, putPose_joint hp hj]
      exact length_jointsOf hp hj
  case neg =>
    rw [if_neg hr8] at h
    by_cases hv : recv.vt = vtVariants
    case neg =>
      rw [if_neg hv] at h
      cases h
      exact .inr ⟨rfl, by simp [leftJoint, hp, hv]⟩
    case pos =>
      rw [if_pos hv] at h
      obtain ⟨psa, hpsa, h⟩ := ok_of_bind h
      have hlen := arrayLength_of_parray hpsa
      split at h
      case isTrue hn =>
        cases h
        rw [← hlen] at hn
        exact .inr ⟨rfl, by simp [leftJoint, hp, Ne.symm hn]⟩
      case isFalse hn =>
        have hl : arrayLength recv = (recvFields recvfmt vectors).length :=
          hlen.trans (not_not.mp hn).symm
        obtain ⟨hjoint, hok⟩ := parseFields_joint hp hj hv hl h
        cases parseFields_hr h
        case inl hs => exact .inl ⟨hs, hok hs⟩
        case inr hs => exact .inr ⟨hs, hjoint⟩

end

namespace Control

variable {c c' t : Control} {call : Call} {created hr : HRESULT} {answer : HRESULT × Variant}
variable {after : Option Int}

theorem poseBits_jointFormat (recvFormat : Int) :
    poseBits (jointFormat recvFormat) = 2 ∨ poseBits (jointFormat recvFormat) = 4 ∨
      poseBits (jointFormat recvFormat) = 5 := by
  simp only [jointFormat]
  split
  case h_1 h => simp [h]
  case h_2 h => simp [h]
  case h_3 h => simp [h]
  all_goals
    simp only [poseBits] at *
    split <;> omega

theorem hasJoint_jointFormat (recvFormat : Int) : HasJoint (jointFormat recvFormat) := by
  have h := poseBits_jointFormat recvFormat
  simp only [HasJoint, recvPose]
  obtain h | h | h := h
  all_goals
    rw [h]
    exact ⟨_, rfl, by decide⟩

-- What `HighCurJntEx` answers.
def Answered (c : Control) (answer : HRESULT × Variant) : Prop :=
  Failed answer.1 ∨ answer.2.vt = vtR8s ∧ c.robotJoints + 1 ≤ arrayLength answer.2

structure Step (c : Control) (call : Call) (c' : Control) : Prop where
  next     : c.step call = .ok c'
  answered : ∀ answer, call = .read answer → c.Answered answer

-- Reading the joints does not go beyond them.
def Readable (c : Control) : Prop :=
  ∀ answer, c.Answered answer → ∃ c', c.read answer = .ok c'

-- The answer to a slave move is rejected.
structure Rejects (c : Control) (created : HRESULT) (answer : HRESULT × Variant) : Prop where
  slave    : c.mode ≠ 0
  created  : ¬Failed created
  answered : Succeeded answer.1
  parsed   : ∃ received, parseRecvParameter c.recvfmt answer.2 c.received = .ok (eFail, received)

-- The joints are unchanged after an answer that is rejected.
def Intact (c : Control) : Call → Prop
  | .write created answer after =>
    c.Rejects created answer → ∀ c', c.write created answer after = .ok c' → c'.joint = c.joint
  | _ => True

-- The joints are what an answer that is rejected leaves in `m_joint`.
def Settled (c : Control) : Call → Prop
  | .write created answer _ =>
    c.Rejects created answer → leftJoint c.recvfmt answer.2 c.received.pose.joint = c.joint
  | _ => True

-- What the loop relies on.
structure Steady (c : Control) : Prop where
  joints : c.robotJoints ≤ c.joint.length
  few    : c.robotJoints ≤ 8
  format : HasJoint c.recvfmt

theorem indexed_of_le (h : c.robotJoints ≤ c.joint.length) : c.Indexed :=
  fun _ hi _ => Nat.lt_of_lt_of_le hi h

theorem execCurJnt_eq (ha : c.Answered answer) :
    ∃ joint, execCurJnt answer c.joint = .ok (answer.1, joint) ∧
      (joint = c.joint ∨ c.robotJoints ≤ joint.length) := by
  obtain ⟨hr, v⟩ := answer
  by_cases hs : Succeeded hr ∧ v.vt = vtR8s
  case neg => exact ⟨_, if_neg hs, .inl rfl⟩
  case pos =>
    have hlen := (ha.resolve_left (not_failed_iff.mpr hs.1)).2
    cases hp : parray v
    case error e =>
      simp only [arrayLength, hp] at hlen
      exact absurd hlen (Nat.not_succ_le_zero _)
    case ok psa =>
      rw [arrayLength_of_parray hp] at hlen
      have hn : psa.cElements ≠ 0 := Nat.ne_of_gt (Nat.lt_of_lt_of_le (Nat.succ_pos _) hlen)
      refine ⟨(doubles v psa.cElements).drop 1, ?_, .inr ?_⟩
      case refine_1 => simp only [execCurJnt, if_pos hs, hp, Exec.ok_bind, if_neg hn]; rfl
      case refine_2 =>
        rw [List.length_drop, length_doubles]
        exact Nat.le_sub_of_add_le hlen

-- A read leaves the joints or replaces them by enough other ones.
theorem read_eq (inv : Steady c) (ha : c.Answered answer) :
    ∃ joint, c.read answer = .ok { c with joint } ∧ c.robotJoints ≤ joint.length := by
  by_cases hm : c.mode = 0
  case neg =>
    refine ⟨c.joint, ?_, inv.joints⟩
    simp only [read, if_neg hm, Exec.pure_eq, Exec.ok_bind]
    exact if_pos (indexed_of_le inv.joints)
  case pos =>
    obtain ⟨joint, he, hj⟩ := execCurJnt_eq ha
    have hle : c.robotJoints ≤ joint.length := hj.elim (fun h => h ▸ inv.joints) id
    refine ⟨joint, ?_, hle⟩
    have hi : ({ c with joint } : Control).Indexed := indexed_of_le hle
    simp only [read, if_pos hm, he]
    exact if_pos hi

theorem Steady.readable (inv : Steady c) : c.Readable := by
  intro answer ha
  obtain ⟨joint, h, -⟩ := read_eq inv ha
  exact ⟨_, h⟩

-- What a slave move makes of the joints.
theorem execSlaveMove_cases (hf : HasJoint c.recvfmt) (hm : c.mode ≠ 0)
    (h : execSlaveMove created answer c = .ok (hr, c')) :
    c'.robotJoints = c.robotJoints ∧ c'.recvfmt = c.recvfmt ∧
      (c'.joint = c.joint ∧ ¬c.Rejects created answer ∨
        c'.joint.length = 8 ∧ ¬c.Rejects created answer ∨
        c'.joint = leftJoint c.recvfmt answer.2 c.received.pose.joint ∧
          c.Rejects created answer) := by
  simp only [execSlaveMove] at h
  by_cases hc : Failed created
  case pos =>
    rw [if_pos hc] at h
    cases h
    exact ⟨rfl, rfl, .inl ⟨rfl, fun hr => hr.created hc⟩⟩
  case neg =>
    rw [if_neg hc] at h
    by_cases hs : Succeeded answer.1
    case neg =>
      rw [if_neg hs] at h
      cases h
      exact ⟨rfl, rfl, .inl ⟨rfl, fun hr => hs hr.answered⟩⟩
    case pos =>
      rw [if_pos hs] at h
      obtain ⟨⟨hrTmp, received⟩, hp, h⟩ := ok_of_bind h
      cases h
      refine ⟨rfl, rfl, .inr ?_⟩
      cases parse_joint hf hp
      case inl hj =>
        refine .inl ⟨hj.2, fun hr => ?_⟩
        obtain ⟨_, hp'⟩ := hr.parsed
        rw [hp', hj.1] at hp
        exact absurd (congrArg Prod.fst (Except.ok.inj hp)) (show eFail ≠ sOk by decide)
      case inr hj =>
        obtain ⟨rfl, hj⟩ := hj
        exact .inr ⟨hj, hm, hc, hs, received, hp⟩

theorem write_cases (hf : HasJoint c.recvfmt) (h : c.write created answer after = .ok c') :
    c'.robotJoints = c.robotJoints ∧ c'.recvfmt = c.recvfmt ∧
      (c'.joint = c.joint ∧ ¬c.Rejects created answer ∨
        c'.joint.length = 8 ∧ ¬c.Rejects created answer ∨
        c'.joint = leftJoint c.recvfmt answer.2 c.received.pose.joint ∧
          c.Rejects created answer) := by
  simp only [write] at h
  by_cases hm : c.mode ≠ 0
  case neg =>
    rw [if_neg hm] at h
    cases h
    exact ⟨rfl, rfl, .inl ⟨rfl, fun hr => hm hr.slave⟩⟩
  case pos =>
    rw [if_pos hm] at h
    obtain ⟨⟨hr, d⟩, he, h⟩ := ok_of_bind h
    have hd := execSlaveMove_cases hf hm he
    -- The mode that a failure leads to has no part in it.
    simp only at h
    split at h
    case isTrue  => cases h; exact hd
    case isFalse => cases h; exact hd

theorem intact_iff (hf : HasJoint c.recvfmt) (h : c.step call = .ok c') :
    c.Intact call ↔ c.Settled call := by
  cases call
  case read       => exact Iff.rfl
  case changeMode => exact Iff.rfl
  case write created answer after =>
    obtain ⟨-, -, hj⟩ := write_cases hf h
    constructor
    case mp =>
      intro hi hr
      obtain ⟨-, hn⟩ | ⟨-, hn⟩ | ⟨hl, -⟩ := hj
      case inl      => exact absurd hr hn
      case inr.inl  => exact absurd hr hn
      case inr.inr  => exact hl.symm.trans (hi hr c' h)
    case mpr =>
      intro hs hr d hd
      cases h.symm.trans hd
      obtain ⟨hj, -⟩ | ⟨-, hn⟩ | ⟨hl, -⟩ := hj
      case inl     => exact hj
      case inr.inl => exact absurd hr hn
      case inr.inr => exact hl.trans (hs hr)

theorem Step.steady (h : Step c call c') (hs : c.Settled call) (inv : Steady c) : Steady c' := by
  obtain ⟨hn, ha⟩ := h
  cases call
  case read answer =>
    obtain ⟨joint, he, hle⟩ := read_eq inv (ha answer rfl)
    cases he.symm.trans hn
    exact ⟨hle, inv.few, inv.format⟩
  case changeMode mode =>
    cases hn
    exact ⟨inv.joints, inv.few, inv.format⟩
  case write created answer after =>
    obtain ⟨hr, hf, hj⟩ := write_cases inv.format hn
    have hle : c'.robotJoints ≤ c'.joint.length := by
      rw [hr]
      obtain ⟨hj, -⟩ | ⟨hj, -⟩ | ⟨hl, hrej⟩ := hj
      case inl     => exact hj ▸ inv.joints
      case inr.inl => exact hj ▸ inv.few
      case inr.inr => exact (hl.trans (hs hrej)) ▸ inv.joints
    exact ⟨hle, hr ▸ inv.few, hf ▸ inv.format⟩

theorem steady_initialized {robotJoints : Nat} {type : Nat → Int} {mode recvFormat : Int}
    {values : List Nat} (hn : robotJoints ≤ 8)
    (hv : robotJoints + 1 ≤ values.length) :
    Steady (initialized robotJoints type mode recvFormat values) where
  joints := by
    simp only [initialized, List.length_drop]
    exact Nat.le_sub_of_add_le hv
  few    := hn
  format := hasJoint_jointFormat recvFormat

theorem run_iff (r : Run Step c steps t) :
    Steady c → ((Always Readable steps t ∧ ∀ p ∈ steps, p.1.Intact p.2) ↔
      ∀ p ∈ steps, p.1.Settled p.2) := by
  induction r
  case nil =>
    intro inv
    simp [Always, inv.readable]
  case cons h _ ih =>
    intro inv
    simp only [Always, List.forall_mem_cons, inv.readable, true_and, intact_iff inv.format h.next]
    constructor
    case mp =>
      rintro ⟨hread, hs, hintact⟩
      exact ⟨hs, (ih (h.steady hs inv)).mp ⟨hread, hintact⟩⟩
    case mpr =>
      rintro ⟨hs, hsettled⟩
      obtain ⟨hread, hintact⟩ := (ih (h.steady hs inv)).mpr hsettled
      exact ⟨hread, hs, hintact⟩

-- In a run after `Initialize`, reading never goes beyond the joints and no answer that is rejected
-- changes them, iff the joints are what such an answer leaves in `m_joint`.
theorem joints_iff {robotJoints : Nat} {type : Nat → Int} {mode recvFormat : Int}
    {values : List Nat} (hn : 1 ≤ robotJoints ∧ robotJoints ≤ 8)
    (hv : robotJoints + 1 ≤ values.length)
    (r : Run Step (initialized robotJoints type mode recvFormat values) steps t) :
    (Always Readable steps t ∧ ∀ p ∈ steps, p.1.Intact p.2) ↔ ∀ p ∈ steps, p.1.Settled p.2 :=
  run_iff r (steady_initialized hn.2 hv)

-- A robot with six revolute joints that answers with its joints, after `Initialize`.
def sixJoints : Control :=
  initialized 6 (fun _ => 1) 0x0202 2 (List.replicate 7 0)

-- An answer is accepted.
theorem accepted_joints :
    ∃ steps t, Run Step sixJoints steps t ∧ t.joint = List.replicate 8 0 ∧
      Always Readable steps t ∧ ∀ p ∈ steps, p.1.Intact p.2 := by
  have hp : ∃ r, parseRecvParameter sixJoints.recvfmt (zeros 8) sixJoints.received = .ok (sOk, r) :=
    ⟨_, rfl⟩
  have r : Run Step sixJoints [(sixJoints, .write sOk (sOk, zeros 8) none)]
      { sixJoints with
        joint    := List.replicate 8 0
        received := { Received.init with pose := ⟨[], List.replicate 8 0, []⟩ } } :=
    .cons ⟨rfl, fun _ h => absurd h (by simp)⟩ .nil
  refine ⟨_, _, r, rfl, (joints_iff (by decide) (by decide) r).mpr ?_⟩
  intro p hm
  cases List.mem_singleton.mp hm
  intro hr
  obtain ⟨r, hp⟩ := hp
  obtain ⟨r', hp'⟩ := hr.parsed
  have he := congrArg Prod.fst (Except.ok.inj (hp.symm.trans hp'))
  exact absurd he (show sOk ≠ eFail by decide)

-- After a first answer that is rejected there are no joints.
theorem rejected_no_joints :
    ∃ steps t, Run Step sixJoints steps t ∧ t.joint = [] ∧
      ¬(Always Readable steps t ∧ ∀ p ∈ steps, p.1.Intact p.2) := by
  have r : Run Step sixJoints [(sixJoints, .write sOk (sOk, .scalar .empty 0) none)]
      { sixJoints with joint := [] } :=
    .cons ⟨rfl, fun _ h => absurd h (by simp)⟩ .nil
  refine ⟨_, _, r, rfl, fun h => ?_⟩
  obtain ⟨c, hc⟩ := h.1.2 (eFail, .scalar .empty 0) (.inl (by decide))
  have he : read (eFail, .scalar .empty 0) { sixJoints with joint := [] } = .error .read := rfl
  exact absurd (he.symm.trans hc) (by simp)

end Control
end Robot
