import DensoRobot.Bcap.Theorems.Safety

open HRESULT Bytes

namespace Bcap

section

variable {src : List UInt8} {lenSrc : Nat} {flag : Bool} {n m room : Nat} {c : Cursor}

theorem Extent.andThen_assoc (e : Extent) (k k' : Cursor → Extent) :
    (e.andThen k).andThen k' = e.andThen fun c => (k c).andThen k' := by
  cases e <;> rfl

-- The extent of a list is the one of its first elements, followed by the one of the rest.
theorem Extent.variants_add {item : Bool → VarType → Nat → Cursor → Extent} (h : n ≤ room) :
    variants src lenSrc item flag (n + m) room c =
      (variants src lenSrc item flag n room c).andThen
        (variants src lenSrc item flag m (room - n)) := by
  induction n generalizing room c
  case zero => simp [variants, andThen]
  case succ n ih =>
    rcases room with _ | room
    case zero => omega
    have ih (c : Cursor) := @ih room c (by omega)
    rw [Nat.add_right_comm, variants, variants]
    simp only [andThen_assoc, Nat.add_sub_add_right]
    have hf : variants src lenSrc item flag (n + m) room = fun c =>
        (variants src lenSrc item flag n room c).andThen
          (variants src lenSrc item flag m (room - n)) := funext ih
    rw [hf]

theorem fetch_ok {size : Nat} {partly : α} {k : List UInt8 → Cursor → Exec (Decoded α)}
    {d : Decoded α} (h : fetch src lenSrc size partly c k = .ok d) :
    d = ⟨eInvalidPacket, partly, c⟩ ∨ ∃ bs c', k bs c' = .ok d := by
  simp only [fetch] at h
  by_cases h₁ : lenSrc < u32 (c.offset + size)
  case pos => simp [h₁] at h; exact .inl h.symm
  case neg =>
    by_cases h₂ : c.offset + size ≤ src.length
    case neg => simp [h₁, h₂] at h
    case pos =>
      rw [if_neg h₁, if_pos h₂] at h
      exact .inr ⟨_, _, h⟩

-- As many elements are left behind as have been started, which are all of them in case of success.
theorem length_of_bytary2vntary {dec : Bool → VarType → Nat → Cursor → Exec (Decoded Variant)}
    {d : Decoded (List Variant)} (h : bytary2vntary src lenSrc dec flag n room c = .ok d) :
    d.val.length ≤ n ∧ (Succeeded d.hr → d.val.length = n) ∧ (0 < n → 0 < d.val.length) := by
  induction n generalizing room c d
  case zero => cases h; simp
  case succ n ih =>
    rcases room with _ | room
    case zero => simp [bytary2vntary] at h
    have single {hr : HRESULT} {v : Variant} {c : Cursor} (hf : Failed hr) (hd : d = ⟨hr, [v], c⟩) :
        d.val.length ≤ n + 1 ∧ (Succeeded d.hr → d.val.length = n + 1) ∧
          (0 < n + 1 → 0 < d.val.length) := by
      subst hd
      exact ⟨by simp, fun hs => absurd hf (not_failed_iff.mpr hs), by simp⟩
    rw [bytary2vntary] at h
    rcases fetch_ok h with h | ⟨_, _, h⟩
    case inl => exact single failed_eInvalidPacket h
    rcases fetch_ok h with h | ⟨_, _, h⟩
    case inl => exact single failed_eInvalidPacket h
    obtain ⟨d', _, h⟩ := ok_of_bind h
    by_cases hf : Failed d'.hr
    case pos =>
      rw [if_pos hf] at h
      exact single hf (Except.ok.inj h).symm
    case neg =>
      rw [if_neg hf] at h
      obtain ⟨ds, hds, h⟩ := ok_of_bind h
      have ih := ih hds
      rw [← Except.ok.inj h]
      simpa using ⟨ih.left, ih.right.left⟩

-- The elements of a list behind the first ones are only read if these are complete.
def Decoded.followedBy (d : Decoded (List α)) (k : Cursor → Exec (Decoded (List α))) :
    Exec (Decoded (List α)) := do
  if Failed d.hr then
    return d
  let ds ← k d.cur
  return { ds with val := d.val ++ ds.val }

theorem fetch_bind {size : Nat} {partly : α} {k : List UInt8 → Cursor → Exec (Decoded α)}
    {f : Decoded α → Exec (Decoded α)} (hf : ∀ d : Decoded α, Failed d.hr → f d = .ok d) :
    (fetch src lenSrc size partly c k >>= f) =
      fetch src lenSrc size partly c fun bs c => k bs c >>= f := by
  simp only [fetch]
  by_cases h₁ : lenSrc < u32 (c.offset + size)
  case pos => simp [h₁, hf]
  case neg => by_cases h₂ : c.offset + size ≤ src.length <;> simp [h₁, h₂]

theorem bytary2vntary_add {dec : Bool → VarType → Nat → Cursor → Exec (Decoded Variant)}
    (h : n ≤ room) : bytary2vntary src lenSrc dec flag (n + m) room c =
      bytary2vntary src lenSrc dec flag n room c >>= fun d =>
        d.followedBy (bytary2vntary src lenSrc dec flag m (room - n)) := by
  induction n generalizing room c
  case zero =>
    simp only [bytary2vntary, Nat.zero_add, Nat.sub_zero, Exec.pure_eq, Exec.ok_bind,
      Decoded.followedBy, not_failed_sOk, if_false, List.nil_append]
    cases bytary2vntary src lenSrc dec flag m room c <;> rfl
  case succ n ih =>
    rcases room with _ | room
    case zero => omega
    have hk (d : Decoded (List Variant)) (hf : Failed d.hr) :
        d.followedBy (bytary2vntary src lenSrc dec flag m (room - n)) = .ok d := by
      simp [Decoded.followedBy, hf]
    rw [Nat.add_right_comm, bytary2vntary, bytary2vntary, Nat.add_sub_add_right, fetch_bind hk]
    congr 1
    funext vt c
    simp only
    rw [fetch_bind hk]
    congr 1
    funext cnt c
    have ih (c : Cursor) := @ih room c (by omega)
    simp only [ih]
    generalize dec _ _ _ c = r
    rcases r with _ | d
    case error => rfl
    simp only [Exec.ok_bind, Exec.pure_eq]
    by_cases hf : Failed d.hr
    case pos => simp only [if_pos hf, Exec.ok_bind, Decoded.followedBy, Exec.pure_eq]
    case neg =>
      simp only [if_neg hf]
      generalize bytary2vntary src lenSrc dec flag n room d.cur = r
      rcases r with _ | ds
      case error => rfl
      simp only [Exec.ok_bind, Exec.pure_eq, Decoded.followedBy]
      by_cases hf' : Failed ds.hr
      case pos => simp only [if_pos hf', Exec.ok_bind]
      case neg =>
        simp only [if_neg hf']
        cases bytary2vntary src lenSrc dec flag m (room - n) ds.cur <;> rfl

end

section

variable {host : Host} {src : List UInt8} {n next : Nat}

-- The clean-up releases the memory which was allocated from block `next` on, and nothing else.
def CleansUp (host : Host) (src : List UInt8) (q : BcapPacket) (next : Nat) : Prop :=
  ∃ r, bytary2packet host src q next = .ok r ∧ Owned next r.next r.packet.clearArgs

-- All arguments in front of the last one are complete, and no array of strings or variants finds
-- itself without room for its elements.
def Cleanable (host : Host) (src : List UInt8) (next : Nat) : Prop :=
  wellFramed src → announced src ≠ 0 → host.malloc next → ∃ c,
    Extent.args true host src (announced src - 1) (announced src) ⟨bcapPosDataLen, next + 1⟩ =
      .whole c ∧
    Extent.args true host src 1 1 c ≠ .bad

theorem args_succ (strict : Bool) (c : Cursor) :
    Extent.args strict host src (n + 1) (n + 1) c =
      (Extent.args strict host src n (n + 1) c).andThen (Extent.args strict host src 1 1) := by
  rw [Extent.args, Extent.variants_add (Nat.le_add_right n 1), Nat.add_sub_cancel_left]
  rfl

theorem bytary2args_succ (host : Host) (src : List UInt8) (n next : Nat) :
    bytary2args host src (n + 1) (n + 1) next =
    bytary2vntary src (src.length - 1) (bytary2vnt host src (src.length - 1) src.length) true n
      (n + 1) ⟨bcapPosDataLen, next⟩ >>= fun d =>
    d.followedBy (bytary2vntary src (src.length - 1)
      (bytary2vnt host src (src.length - 1) src.length) true 1 1) := by
  rw [bytary2args, bytary2vntary_add (Nat.le_add_right n 1), Nat.add_sub_cancel_left]

-- Every slot is written to, and what is in the slots is owned.
theorem filled_iff (hw : wellFramed src) (hl : src.length < 4294967296) :
    (∃ d, bytary2args host src (n + 1) (n + 1) next = .ok d ∧ d.val.length = n + 1 ∧
      Owned next d.cur.next (releaseAll variantClear d.val)) ↔
    ∃ c, Extent.args true host src n (n + 1) ⟨bcapPosDataLen, next⟩ = .whole c ∧
      Extent.args true host src 1 1 c ≠ .bad := by
  have hm := length_of_wellFramed hw
  have hb : bcapPosDataLen ≤ src.length - 1 := by simp only [bcapPosDataLen]; omega
  have ha := bytary2args_extent host true hw hl (Nat.le_refl (n + 1)) next
  have ha' : Agrees _ _ true _ _ (Extent.args true host src n (n + 1) _) :=
    bytary2args_agrees hm hl n (n + 1) (c := ⟨bcapPosDataLen, next⟩) hb
  have hr := bytary2args_succ host src n next
  rw [args_succ] at ha
  cases h₁ : Extent.args true host src n (n + 1) ⟨bcapPosDataLen, next⟩ <;> rw [h₁] at ha ha'
  case whole c =>
    obtain ⟨vs, hvs, _⟩ := ha'
    have hlen := (length_of_bytary2vntary hvs).right.left (Int.le_refl _)
    have hfull {d : Decoded (List Variant)}
      (hd : bytary2args host src (n + 1) (n + 1) next = .ok d) :
        d.val.length = n + 1 := by
      rw [hr, hvs, Exec.ok_bind] at hd
      simp only [Decoded.followedBy, not_failed_sOk, if_false] at hd
      obtain ⟨ds, hds, hd⟩ := ok_of_bind hd
      have h := length_of_bytary2vntary hds
      have := h.right.right (by decide)
      rw [← Except.ok.inj hd, List.length_append, hlen]
      omega
    simp only [Extent.andThen] at ha
    constructor
    case mp =>
      rintro ⟨d, hd, _, _, _, ho, _⟩
      refine ⟨c, rfl, fun hbad => ?_⟩
      rw [hbad] at ha
      obtain ⟨f, hf⟩ := ha.right rfl d hd
      simp [hf] at ho
    case mpr =>
      rintro ⟨c', hc, hne⟩
      cases hc
      cases h₂ : Extent.args true host src 1 1 c <;> rw [h₂] at ha
      case whole c' =>
        obtain ⟨vs, hd, _, _, ho⟩ := ha
        exact ⟨_, hd, hfull hd, ho rfl⟩
      case cut =>
        obtain ⟨d, hd, _, ho⟩ := ha
        exact ⟨_, hd, hfull hd, ho rfl⟩
      case bad => exact absurd h₂ hne
  case cut =>
    obtain ⟨d', hd', hf, _⟩ := ha'
    constructor
    case mp =>
      rintro ⟨d, hd, hlen, _⟩
      rw [hr, hd', Exec.ok_bind, Decoded.followedBy, if_pos hf] at hd
      have := (length_of_bytary2vntary hd').left
      rw [Except.ok.inj hd] at this
      omega
    case mpr =>
      rintro ⟨_, h, _⟩
      contradiction
  case bad =>
    constructor
    case mp =>
      rintro ⟨d, hd, _, _, _, ho, _⟩
      obtain ⟨f, hf⟩ := ha.right rfl d hd
      simp [hf] at ho
    case mpr =>
      rintro ⟨_, h, _⟩
      contradiction

theorem readSlots_append_none (vs : List Variant) (k : Nat) :
    readSlots (vs.map some ++ List.replicate (k + 1) none) = .error .uninit := by
  induction vs
  case nil          => rfl
  case cons v vs ih => simp [readSlots, ih]

-- The clean-up reads all slots, also those that nothing was written to.
theorem clearArgs_fill {serial reserv addr argc : Nat} {id : Int} {vs : List Variant}
    (h : vs.length ≤ argc) :
    BcapPacket.clearArgs ⟨serial, reserv, id, argc,
      some (Args.fill ⟨addr, List.replicate argc none⟩ vs)⟩ =
      if vs.length = argc then (do return (← releaseAll variantClear vs) ++ [addr])
      else .error .uninit := by
  have ha : BcapPacket.argList ⟨serial, reserv, id, argc,
      some (Args.fill ⟨addr, List.replicate argc none⟩ vs)⟩ =
      readSlots (vs.map some ++ List.replicate (argc - vs.length) none) := by
    simp [BcapPacket.argList, Args.fill, h, List.take_of_length_le]
  rw [BcapPacket.clearArgs, ha]
  by_cases hl : vs.length = argc
  case pos => simp [hl, variantsClear_eq, Args.fill]
  case neg =>
    obtain ⟨k, hk⟩ := Nat.exists_eq_succ_of_ne_zero (n := argc - vs.length) (by omega)
    simp only [if_neg hl, hk, readSlots_append_none, Exec.error_bind]

theorem fillArgs_fresh (hm : host.malloc next) {serial reserv : Nat} {id : Int} :
    fillArgs host src ⟨serial, reserv, id, n + 1, none⟩ next = do
      let d ← bytary2args host src (n + 1) (n + 1) (next + 1)
      return ⟨d.hr, ⟨serial, reserv, id, n + 1,
        some (Args.fill ⟨next, List.replicate (n + 1) none⟩ d.val)⟩, d.cur.next⟩ := by
  simp [fillArgs, mallocArgs, Host.alloc, hm]

theorem fillArgs_starved (hm : host.malloc next = false) {serial reserv : Nat} {id : Int} :
    fillArgs host src ⟨serial, reserv, id, n + 1, none⟩ next =
      .ok ⟨eOutOfMemory, ⟨serial, reserv, id, n + 1, none⟩, next + 1⟩ := by
  simp [fillArgs, mallocArgs, Host.alloc, hm]

theorem cleansUp_iff (hl : src.length < 4294967296) {q : BcapPacket} (hq : q.argc = argcAuto)
    (hq' : q.args = none) : CleansUp host src q next ↔ Cleanable host src next := by
  have hs : Succeeded (checkArgc q (announced src)) := by
    simp only [checkArgc, hq, hq', if_true, Option.isSome_none, Bool.false_eq_true, if_false]
    exact Int.le_refl _
  have hnil {serial reserv argc : Nat} {id : Int} {hi : Nat} (h : next ≤ hi) :
      Owned next hi (BcapPacket.clearArgs ⟨serial, reserv, id, argc, none⟩) := .nil h
  by_cases hw : wellFramed src
  case neg =>
    obtain ⟨hr, q', he, _, _, ha⟩ := bytary2packet_refuse host (q := q) next fun h => absurd h hw
    refine ⟨fun _ h => absurd h hw, fun _ => ⟨_, he, ?_⟩⟩
    simp only [BcapPacket.clearArgs, ha, hq']
    exact .nil (Nat.le_refl _)
  case pos =>
    unfold CleansUp Cleanable
    rw [bytary2packet_accept hw hs]
    simp only [header, hq']
    rcases hn : announced src with _ | n
    case zero => exact ⟨fun _ _ h => absurd rfl h, fun _ => ⟨_, rfl, hnil (Nat.le_refl _)⟩⟩
    case succ =>
      cases hm : host.malloc next
      case false =>
        rw [fillArgs_starved hm]
        exact ⟨fun _ _ _ h => by simp at h, fun _ => ⟨_, rfl, hnil (Nat.le_succ _)⟩⟩
      case true =>
        simp only [hw, true_imp_iff, Nat.add_sub_cancel, ne_eq, Nat.succ_ne_zero, not_false_eq_true]
        rw [← filled_iff hw hl]
        simp only [fillArgs_fresh hm]
        constructor
        case mp =>
          rintro ⟨r, hr, ho⟩
          obtain ⟨d, hd, hr⟩ := ok_of_bind hr
          refine ⟨d, hd, ?_⟩
          rw [← Except.ok.inj hr, clearArgs_fill (length_of_bytary2vntary hd).left] at ho
          by_cases hlen : d.val.length = n + 1
          case pos => exact ⟨hlen, Owned.snoc_iff.mp (by simpa only [if_pos hlen] using ho)⟩
          case neg =>
            rw [if_neg hlen] at ho
            obtain ⟨_, _, ho, _⟩ := ho
            contradiction
        case mpr =>
          rintro ⟨d, hd, hlen, ho⟩
          refine ⟨_, by rw [hd]; rfl, ?_⟩
          rw [clearArgs_fill (Nat.le_of_eq hlen), if_pos hlen]
          exact Owned.snoc_iff.mpr ho

end

theorem shortString_cleansUp : CleansUp ampleHost shortString autoPacket 0 :=
  cleansUp_iff (by decide) rfl rfl |>.mpr fun _ _ _ => ⟨⟨15, 1⟩, rfl, by decide⟩

-- A packet that announces two arguments and ends in front of them.
def missingArgs : List UInt8 :=
  [1, 16, 0, 0, 0, 1, 0, 0, 0, 17, 0, 0, 0, 2, 0, 4]

theorem missingArgs_uninit : (do
    let r ← bytary2packet ampleHost missingArgs autoPacket 0
    r.packet.clearArgs) = .error .uninit := by
  rfl

theorem missingArgs_not_cleansUp : ¬CleansUp ampleHost missingArgs autoPacket 0 := by
  intro ⟨r, hr, _, _, ho, _⟩
  have h := missingArgs_uninit
  rw [hr, Exec.ok_bind, ho] at h
  contradiction

end Bcap
