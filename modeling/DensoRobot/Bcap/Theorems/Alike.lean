import DensoRobot.Bcap.Theorems.Decode

open HRESULT Bytes

namespace Bcap

-- Two runs of the decoder differ in where they store what they read at most, where `e` tells what
-- the results stand for.
def Alike (e : α → β) (r s : Exec (Decoded α)) : Prop :=
  (∃ d d', r = .ok d ∧ s = .ok d' ∧ d.hr = d'.hr ∧ e d.val = e d'.val ∧
    d.cur.offset = d'.cur.offset) ∨
  ∃ f, r = .error f ∧ s = .error f

namespace Alike

variable {e : α → β} {r s : Exec (Decoded α)} {c c' : Cursor}

theorem ok {hr : HRESULT} {a a' : α} (ha : e a = e a') (hc : c.offset = c'.offset) :
    Alike e (.ok ⟨hr, a, c⟩) (.ok ⟨hr, a', c'⟩) :=
  .inl ⟨_, _, rfl, rfl, rfl, ha, hc⟩

theorem error (f : Fault) : Alike e (.error f) (.error f) :=
  .inr ⟨f, rfl, rfl⟩

theorem map {e' : α' → β'} {g h : α → α'} (hr : Alike e r s)
    (he : ∀ a a', e a = e a' → e' (g a) = e' (h a')) :
    Alike e' (do let d ← r; return { d with val := g d.val })
      (do let d ← s; return { d with val := h d.val }) := by
  rcases hr with ⟨d, d', rfl, rfl, hr, hv, ho⟩ | ⟨f, rfl, rfl⟩
  case inl => exact .inl ⟨_, _, rfl, rfl, hr, he _ _ hv, ho⟩
  case inr => exact error f

-- An element, which the rest of a list follows.
theorem cons {es : List α → List β} (hnil : es [] = [])
    (hcons : ∀ a as, es (a :: as) = e a :: es as)
    {k k' : Cursor → Exec (Decoded (List α))} (hr : Alike e r s)
    (hk : ∀ c c' : Cursor, c.offset = c'.offset → Alike es (k c) (k' c')) :
    Alike es
      (do
        let d ← r
        if Failed d.hr then
          return { d with val := [d.val] }
        let ds ← k d.cur
        return { ds with val := d.val :: ds.val })
      (do
        let d ← s
        if Failed d.hr then
          return { d with val := [d.val] }
        let ds ← k' d.cur
        return { ds with val := d.val :: ds.val }) := by
  rcases hr with ⟨d, d', rfl, rfl, hr, hv, ho⟩ | ⟨f, rfl, rfl⟩
  case inr => exact error f
  case inl =>
    simp only [Exec.ok_bind, ← hr]
    by_cases hf : Failed d.hr
    case pos =>
      simp only [if_pos hf]
      exact .inl ⟨_, _, rfl, rfl, rfl, by simp only [hcons, hnil, hv], ho⟩
    case neg =>
      simp only [if_neg hf]
      exact (hk _ _ ho).map fun as as' has => by rw [hcons, hcons, hv, has]

end Alike

section

variable (src : List UInt8) (lenSrc : Nat) {host : Host} {c c' : Cursor}

end
end Bcap
