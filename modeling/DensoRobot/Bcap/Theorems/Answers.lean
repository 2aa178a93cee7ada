import DensoRobot.Bcap.Invoke
import DensoRobot.Bcap.Theorems.CleanUp

open HRESULT

namespace Variant

-- The type word tells how the value is stored.
structure Tagged (v : Variant) : Prop where
  i4   : v.vt = VarType.i4.code → ∃ lVal, v = .scalar .i4 lVal
  bstr : v.vt = VarType.bstr.code → ∃ bstrVal, v = .bstr bstrVal

theorem Tagged.text (bstrVal : Option Bstr) : (Variant.bstr bstrVal).Tagged where
  i4 h   := absurd h (show ¬8 = 3 by decide)
  bstr _ := ⟨_, rfl⟩

theorem Tagged.array {v : Variant} (h : v.isArray = true) : v.Tagged := by
  have hvt : v.vt = VarType.vtArray + v.base.code := by rw [vt, VarType.word, if_pos h]
  have hne : 8192 ≤ v.vt := by rw [hvt]; exact Nat.le_add_right _ _
  exact ⟨fun h => absurd (h ▸ hne) (by decide), fun h => absurd (h ▸ hne) (by decide)⟩

theorem Tagged.scalar {n val : Nat} (h : VarType.ofCode n ≠ .bstr) :
    (Variant.scalar (VarType.ofCode n) val).Tagged where
  i4 hvt   := by
    have hn : n = 3 := (VarType.code_ofCode n).symm.trans hvt
    exact ⟨val, hn ▸ rfl⟩
  bstr hvt := by
    have hn : n = 8 := (VarType.code_ofCode n).symm.trans hvt
    exact absurd (hn ▸ rfl) h

theorem Tagged.init (n : Nat) (isArray : Bool) : (init isArray (VarType.ofCode n)).Tagged := by
  cases isArray
  case true  => exact .array rfl
  case false =>
    by_cases h : VarType.ofCode n = .bstr
    case pos => exact h ▸ .text none
    case neg =>
      have hinit : Variant.init false (VarType.ofCode n) = .scalar (VarType.ofCode n) 0 := by
        generalize VarType.ofCode n = vt at h
        cases vt <;> first | rfl | exact absurd rfl h
      exact hinit ▸ .scalar h

theorem exists_ofWord (w : Nat) : ∃ isArray n, VarType.ofWord w = (isArray, VarType.ofCode n) := by
  unfold VarType.ofWord
  split <;> exact ⟨_, _, rfl⟩

end Variant

namespace Bcap

section

variable {host : Host} {src : List UInt8} {lenSrc : Nat} {c : Cursor}

theorem bytary2scalar_scalar {vt : VarType} (hvt : vt ≠ .bstr) {d : Decoded Variant}
    (h : bytary2scalar host src lenSrc vt c = .ok d) : ∃ val, d.val = .scalar vt val := by
  have fixed {size : Nat} {conv : List UInt8 → List UInt8}
      (h : (fetch src lenSrc size (.scalar vt 0) c fun bs c =>
        pure ⟨sOk, .scalar vt (Bytes.ofLe (conv bs)), c⟩) = .ok d) :
      ∃ val, d.val = .scalar vt val := by
    rcases fetch_ok h with rfl | ⟨bs, c', h⟩
    · exact ⟨_, rfl⟩
    · cases h
      exact ⟨_, rfl⟩
  have none (h : (pure ⟨sOk, .scalar vt 0, c⟩ : Exec (Decoded Variant)) = .ok d) :
      ∃ val, d.val = .scalar vt val := by
    cases h
    exact ⟨_, rfl⟩
  cases vt
  case bstr => exact absurd rfl hvt
  all_goals first | exact fixed h | exact none h

theorem bytary2scalar_bstr {d : Decoded Variant}
    (h : bytary2scalar host src lenSrc .bstr c = .ok d) : ∃ bstrVal, d.val = .bstr bstrVal := by
  obtain ⟨d', _, h⟩ := ok_of_bind (show (getBstr host src lenSrc true c >>= fun d =>
    pure { d with val := Variant.bstr d.val }) = .ok d from h)
  cases h
  exact ⟨_, rfl⟩

theorem bytary2array_isArray {dec : (argc room : Nat) → Cursor → Exec (Decoded (List Variant))}
    {vt : VarType} {argc : Nat} {psa : ArrayHeader} {d : Decoded Variant}
    (h : bytary2array host src lenSrc dec vt argc psa c = .ok d) : d.val.isArray = true := by
  have filled {α : Type} {r : Exec (Decoded α)} (wrap : α → Variant)
      (hwrap : ∀ a, (wrap a).isArray = true)
      (h : (do let d ← r; return { d with val := wrap d.val }) = (.ok d : Exec (Decoded Variant))) :
      d.val.isArray = true := by
    obtain ⟨d', _, h⟩ := ok_of_bind h
    cases h
    exact hwrap d'.val
  have raw {size : Nat} {conv : List UInt8 → List UInt8}
      (h : (do
        let d ← getMany src lenSrc size conv argc psa.cap c
        return { d with val := .rawArray vt psa d.val.flatten }) =
          (.ok d : Exec (Decoded Variant))) :
      d.val.isArray = true :=
    filled (fun data : List (List UInt8) => .rawArray vt psa data.flatten) (fun _ => rfl) h
  have other (h : (pure ⟨sOk, .rawArray vt psa [], c⟩ : Exec (Decoded Variant)) = .ok d) :
      d.val.isArray = true := by
    cases h
    rfl
  cases vt
  case ui1 =>
    rw [bytary2array] at h
    split at h
    case isTrue => cases h; rfl
    case isFalse =>
      split at h
      case isTrue => cases h
      case isFalse =>
        split at h
        case isTrue  => cases h; rfl
        case isFalse => cases h
  case bstr    => exact filled (Variant.bstrArray psa) (fun _ => rfl) h
  case variant => exact filled (Variant.variantArray psa) (fun _ => rfl) h
  all_goals first | exact other h | exact raw h

theorem bytary2vnt_tagged {depth argc n : Nat} {isArray : Bool} {d : Decoded Variant}
    (h : bytary2vnt host src lenSrc depth isArray (VarType.ofCode n) argc c = .ok d) :
    d.val.Tagged := by
  cases depth
  case zero => cases h
  case succ depth =>
    cases isArray
    case false =>
      by_cases hvt : VarType.ofCode n = .bstr
      case pos =>
        obtain ⟨bstrVal, h⟩ := bytary2scalar_bstr (hvt ▸ h)
        exact h ▸ .text bstrVal
      case neg =>
        obtain ⟨val, h⟩ := bytary2scalar_scalar hvt h
        exact h ▸ .scalar hvt
    case true =>
      rw [bytary2vnt] at h
      split at h
      case h_1 => cases h; exact .array rfl
      case h_2 => exact .array (bytary2array_isArray h)

theorem bytary2vntary_tagged {depth : Nat} {flag : Bool} {argc room : Nat}
    {d : Decoded (List Variant)}
    (h : bytary2vntary src lenSrc (bytary2vnt host src lenSrc depth) flag
      argc room c = .ok d) : ∀ v ∈ d.val, v.Tagged := by
  induction argc generalizing room c d
  case zero => cases h; simp
  case succ argc ih =>
    rcases room with _ | room
    case zero => cases h
    case succ =>
      rw [bytary2vntary] at h
      rcases fetch_ok h with rfl | ⟨bs, c', h⟩
      · exact List.forall_mem_singleton.mpr (.init 0 false)
      obtain ⟨isArray, n, hw⟩ := Variant.exists_ofWord (Bytes.ofLe bs)
      simp only [hw] at h
      rcases fetch_ok h with rfl | ⟨bs', c'', h⟩
      · exact List.forall_mem_singleton.mpr (.init n isArray)
      obtain ⟨d', hd, h⟩ := ok_of_bind h
      have hd := bytary2vnt_tagged hd
      split at h
      case isTrue =>
        cases h
        exact List.forall_mem_singleton.mpr hd
      case isFalse =>
        obtain ⟨ds, hds, h⟩ := ok_of_bind h
        cases h
        exact List.forall_mem_cons.mpr ⟨hd, ih hds⟩

end

-- A packet whose first argument is there.
def BcapPacket.Answers (q : BcapPacket) : Prop :=
  ∃ v : Variant, q.firstSlot = some v ∧ v.Tagged

theorem fillArgs_answers {host : Host} {src : List UInt8} {dst : BcapPacket} {next : Nat}
    {r : Received} (hdst : dst.Answers) (h : fillArgs host src dst next = .ok r) :
    r.packet.Answers := by
  obtain ⟨v, hv, htag⟩ := hdst
  rcases dst with ⟨serial, reserv, id, argc, _ | ⟨addr, slots⟩⟩
  case none => cases hv
  rcases slots with _ | ⟨slot, slots⟩
  case nil => cases hv
  rw [fillArgs] at h
  split at h
  case isTrue => cases h; exact ⟨v, hv, htag⟩
  case isFalse =>
    obtain ⟨d, hd, h⟩ := ok_of_bind h
    cases h
    have hd := bytary2vntary_tagged hd
    rcases hval : d.val with _ | ⟨v', vs⟩
    case nil =>
      refine ⟨v, ?_, htag⟩
      simpa [BcapPacket.firstSlot, Args.fill, hval] using hv
    case cons =>
      refine ⟨v', ?_, hd v' (hval ▸ List.mem_cons_self)⟩
      simp [BcapPacket.firstSlot, Args.fill]

theorem bytary2packet_answers {host : Host} {src : List UInt8} {dst : BcapPacket} {next : Nat}
    {r : Received} (hdst : dst.Answers) (h : bytary2packet host src dst next = .ok r) :
    r.packet.Answers := by
  rw [bytary2packet] at h
  split at h
  case isTrue => cases h; exact hdst
  case isFalse =>
    dsimp only at h
    split at h
    case isTrue => cases h; exact hdst
    case isFalse =>
      have hargc {serial reserv argc : Nat} {id : Int} :
          (⟨serial, reserv, id, argc, dst.args⟩ : BcapPacket).Answers := hdst
      exact fillArgs_answers hargc h

section

variable {dev : Device σ} {client : Bool} {host : Host} {fuel : Nat}

theorem recvLoop_answers {packet packet' : BcapPacket} {hr : HRESULT} {l l' : Link σ}
    (hp : packet.Answers) (h : recvLoop dev client host fuel packet l = .ok (hr, packet', l')) :
    packet'.Answers := by
  induction fuel generalizing packet l
  case zero => cases h
  case succ fuel ih =>
    rw [recvLoop] at h
    obtain ⟨⟨sought, l₁⟩, _, h⟩ := ok_of_bind h
    cases sought
    case error => cases h; exact hp
    case ok held =>
      dsimp only at h
      split at h
      case isTrue => exact ih hp h
      case isFalse =>
        split at h
        case h_1 => cases h; exact hp
        case h_2 =>
          obtain ⟨⟨buf, l₂⟩, _, h⟩ := ok_of_bind h
          obtain ⟨⟨filled, l₃⟩, _, h⟩ := ok_of_bind h
          cases filled
          case error => cases h; exact hp
          case ok buf =>
            obtain ⟨r, hr, h⟩ := ok_of_bind h
            have hr := bytary2packet_answers hp hr
            split at h
            case isTrue  => exact ih hr h
            case isFalse => cases h; exact hr

theorem await_answers {rounds arg serial next next' : Nat} {packetRecv packet' : BcapPacket}
    {hr : HRESULT} {state state' : σ} (hp : packetRecv.Answers)
    (h : await host fuel dev arg serial rounds packetRecv next state =
      .ok (hr, packet', next', state')) : packet'.Answers := by
  induction rounds generalizing packetRecv next state
  case zero => cases h
  case succ rounds ih =>
    rw [await] at h
    obtain ⟨⟨hr₁, p, l⟩, hrecv, h⟩ := ok_of_bind h
    have hargc : ({ packetRecv with argc := 1 } : BcapPacket).Answers := hp
    have hp := recvLoop_answers hargc hrecv
    dsimp only at h
    split at h
    case isTrue  => cases h; exact hp
    case isFalse => exact ih hp h

theorem attempt_answers {port : Port σ} {packetSend packetRecv : BcapPacket} {next : Nat}
    {c : Client} {state : σ} {a : Attempted σ} (hp : packetRecv.Answers)
    (h : attempt host fuel port packetSend c packetRecv next state = .ok a) :
    a.packetRecv.Answers := by
  obtain ⟨⟨hr₁, state₁⟩, _, h⟩ := ok_of_bind h
  dsimp only at h
  split at h
  case isTrue => cases h; exact hp
  case isFalse =>
    obtain ⟨⟨hr₂, p, next₂, state₂⟩, hawait, h⟩ := ok_of_bind h
    cases h
    exact await_answers hp hawait

theorem attempts_answers {port : Port σ} {packetSend packetRecv packet' : BcapPacket}
    {retry next : Nat} {c c' : Client} {hr hr' : HRESULT} {state state' : σ}
    (hp : packetRecv.Answers)
    (h : attempts host fuel port packetSend retry c hr packetRecv next state =
      .ok (hr', c', packet', state')) : packet'.Answers := by
  induction retry generalizing c hr packetRecv next state
  case zero => cases h; exact hp
  case succ retry ih =>
    rw [attempts] at h
    obtain ⟨a, ha, h⟩ := ok_of_bind h
    have hp := attempt_answers hp ha
    split at h
    case isTrue  => exact ih hp h
    case isFalse => cases h; exact hp

theorem sendReceive_answers {port : Port σ} {packetSend packetRecv packet' : BcapPacket}
    {next : Nat} {c c' : Client} {hr : HRESULT} {state state' : σ} (hp : packetRecv.Answers)
    (h : sendReceive host fuel port c packetSend packetRecv next state =
      .ok (hr, c', packet', state')) : packet'.Answers := by
  obtain ⟨⟨hr₁, c₁, p, state₁⟩, hattempts, h⟩ := ok_of_bind h
  cases h
  have hid : ({ packetRecv with id := eFail } : BcapPacket).Answers := hp
  exact attempts_answers hid hattempts

end
end Bcap
