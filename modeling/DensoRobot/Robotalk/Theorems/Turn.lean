import DensoRobot.Robotalk.Theorems.Line

open HRESULT Bytes Bcap

namespace Robotalk

section

variable (type : ConnType) (addr : Nat) (sending : Nat → HRESULT) (client : Bool)
variable {held buf : List UInt8} {fuel fuel' : Nat} {l l' : Link Line}

-- The outcome of looking for a header.
inductive Seeking (held : List UInt8) (l : Link Line) :
    Except HRESULT (List UInt8) × Link Line → Prop
  | fail {hr l'} : Failed hr → Seeking held l (.error hr, l')
  | ok {held' used l'} : held' <:+ held ++ used → held'.head? = some rtkEnq → 8 ≤ held'.length →
      Brings l l' used → (held.length < 8 → l'.state.size < l.state.size) →
      Seeking held l (.ok held', l')

theorem seek_spec (held : List UInt8) (hfuel : l.state.size < fuel) :
    ∃ r, seek (linePort type addr sending) client fuel held l = .ok r ∧ Seeking held l r := by
  induction fuel generalizing held l
  case zero => contradiction
  case succ fuel ih =>
    have hsuf : held.dropWhile (· ≠ rtkEnq) <:+ held := List.dropWhile_suffix _
    simp only [seek]
    by_cases h8 : rtkSizeHeader + rtkSizeCrc ≤ (held.dropWhile (· ≠ rtkEnq)).length
    case pos =>
      have hne : held.dropWhile (· ≠ rtkEnq) ≠ [] := List.ne_nil_of_length_pos (Nat.lt_of_succ_le
        (Nat.le_trans (by decide) h8))
      refine ⟨_, if_pos h8, .ok ?_ (head?_dropWhile hne) h8 (Brings.refl l) ?_⟩
      · rw [List.append_nil]
        exact hsuf
      · exact fun h => absurd (Nat.lt_of_le_of_lt (Nat.le_trans h8 hsuf.length_le) h) (by decide)
    case neg =>
      have hlen : 0 < udpMaxPacket - (held.dropWhile (· ≠ rtkEnq)).length :=
        Nat.sub_pos_of_lt (Nat.lt_trans (Nat.lt_of_not_le h8) (by decide))
      have hread := recvHead_reading type addr sending hlen client l
      rw [if_neg h8]
      revert hread
      generalize recvHead (linePort type addr sending) client _ l = d
      intro hread
      cases hread
      case fail hr _ _ h => exact ⟨_, rfl, .fail h⟩
      case ok bytes _ l₁ hb hs hlt =>
        have ⟨r, hr, hseek⟩ := ih (held.dropWhile (· ≠ rtkEnq) ++ bytes) (l := l₁)
          (Nat.lt_of_lt_of_le hlt (Nat.le_of_lt_succ hfuel))
        refine ⟨r, hr, ?_⟩
        cases hseek
        case fail h => exact .fail h
        case ok used _ hh henq h8' hs' _ =>
          refine .ok ?_ henq h8' (hs.trans hs') (fun _ => Nat.lt_of_le_of_lt hs'.size hlt)
          rw [List.append_assoc] at hh
          exact hh.trans (List.suffix_append_self_iff.mpr hsuf)

theorem seek_mono {σ : Type} {port : Port σ} {l : Link σ} {r : Except HRESULT (List UInt8) × Link σ}
    (h : seek port client fuel held l = .ok r) (hle : fuel ≤ fuel') :
    seek port client fuel' held l = .ok r := by
  induction fuel generalizing held l fuel'
  case zero => contradiction
  case succ fuel ih =>
    rcases fuel' with _ | fuel'
    case zero => contradiction
    have hle := Nat.le_of_succ_le_succ hle
    simp only [seek] at h ⊢
    split at h
    case isTrue h8 => rwa [if_pos h8]
    case isFalse h8 =>
      rw [if_neg h8]
      revert h
      generalize recvHead port client _ l = d
      obtain ⟨_ | _, _⟩ := d
      case ok => exact fun h => ih h hle
      case fail => exact id

-- The outcome of receiving the rest of a packet.
inductive Filling (lenRecv : Nat) (buf : List UInt8) (l : Link Line) :
    Option HRESULT × List UInt8 × Link Line → Prop
  | fail {hr buf' l'} : Failed hr → Filling lenRecv buf l (some hr, buf', l')
  | ok {used l'} : (buf ++ used).length = lenRecv → Brings l l' used →
      Filling lenRecv buf l (none, buf ++ used, l')

theorem fill_spec {lenRecv : Nat} (hbuf : buf.length ≤ lenRecv) (hfuel : l.state.size < fuel) :
    ∃ r, fill (linePort type addr sending) lenRecv fuel buf l = .ok r ∧
      Filling lenRecv buf l r := by
  induction fuel generalizing buf l
  case zero => contradiction
  case succ fuel ih =>
    simp only [fill]
    by_cases hle : lenRecv ≤ buf.length
    case pos =>
      have hl : (buf ++ []).length = lenRecv := by
        rw [List.append_nil]
        exact Nat.le_antisymm hbuf hle
      have hf := Filling.ok hl (Brings.refl l)
      rw [List.append_nil] at hf
      exact ⟨_, if_pos hle, hf⟩
    case neg =>
      have hread := recvRest_reading type addr sending
        (Nat.sub_pos_of_lt (Nat.lt_of_not_le hle)) l
      rw [if_neg hle]
      revert hread
      generalize recvRest (linePort type addr sending).toDevice _ l = d
      intro hread
      cases hread
      case fail hr _ _ h => exact ⟨_, rfl, .fail h⟩
      case ok bytes _ l₁ hb hs hlt =>
        have hlen : (buf ++ bytes).length ≤ lenRecv := by
          rw [List.length_append]
          omega
        have ⟨r, hr, hfill⟩ := ih hlen (Nat.lt_of_lt_of_le hlt (Nat.le_of_lt_succ hfuel))
        refine ⟨r, hr, ?_⟩
        cases hfill
        case fail h => exact .fail h
        case ok hl hs' =>
          rw [List.append_assoc] at hl ⊢
          exact .ok hl (hs.trans hs')

theorem fill_mono {σ : Type} {port : Port σ} {lenRecv : Nat} {l : Link σ}
    {r : Option HRESULT × List UInt8 × Link σ}
    (h : fill port lenRecv fuel buf l = .ok r) (hle : fuel ≤ fuel') :
    fill port lenRecv fuel' buf l = .ok r := by
  induction fuel generalizing buf l fuel'
  case zero => contradiction
  case succ fuel ih =>
    rcases fuel' with _ | fuel'
    case zero => contradiction
    have hle := Nat.le_of_succ_le_succ hle
    simp only [fill] at h ⊢
    split at h
    case isTrue h8 => rwa [if_pos h8]
    case isFalse h8 =>
      rw [if_neg h8]
      revert h
      generalize recvRest port.toDevice _ l = d
      obtain ⟨_ | _, _⟩ := d
      case ok => exact fun h => ih h hle
      case fail => exact id

end
end Robotalk
