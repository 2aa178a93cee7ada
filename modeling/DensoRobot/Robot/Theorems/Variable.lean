import Mathlib.Data.List.Chain
import DensoRobot.Robot.Variable

open HRESULT

namespace Robot

-- The times at which the value is asked for.
def polls (events : List VariableEvent) : List Int :=
  events.filterMap fun
    | .execGetValue time => some time
    | .publish _         => none

-- Each time lies more than some milliseconds behind the one before it.
def Spaced (milliseconds : Int) (times : List Int) : Prop :=
  times.IsChain fun t t' => milliseconds * 1000000 < t' - t

-- A variable that is read, whose service was started.
def Serves (duration : Int) (v : DensoVariable) : Prop :=
  ∃ vt write now mode, (DensoVariable.create vt true write duration now).startService
    mode = (sOk, v)

-- The calls are made at times that do not decrease.
def Ordered (calls : List (Int × HRESULT × Variant)) : Prop :=
  (calls.map Prod.fst).IsChain (· ≤ ·)

namespace DensoVariable

section

variable {v : DensoVariable} {calls : List (Int × HRESULT × Variant)}

-- A value is asked for if the time is over, which then starts anew.
theorem polls_updates_cons (hs : v.serving = true) (hr : v.read = true) (t : Int)
    (ret : HRESULT × Variant) :
    polls (updates ((t, ret) :: calls) v) =
      if v.duration < t - v.pubTimePrev then t :: polls (updates calls { v with pubTimePrev := t })
      else polls (updates calls v) := by
  obtain ⟨hr', vntRet⟩ := ret
  simp only [updates, update, hs, hr, not_true, if_false, true_and]
  split
  case isTrue =>
    simp only [polls, List.filterMap_append, List.filterMap_cons]
    split <;> rfl
  case isFalse => rfl

theorem spaced_updates {n : Int} (hs : v.serving = true) (hr : v.read = true)
    (hd : v.duration = n * 1000000) : Spaced n (v.pubTimePrev :: polls (updates calls v)) := by
  induction calls generalizing v
  case nil => exact List.isChain_singleton _
  case cons call calls ih =>
    obtain ⟨t, ret⟩ := call
    rw [polls_updates_cons hs hr]
    split
    case isFalse     => exact ih hs hr hd
    case isTrue hlt  =>
      refine List.isChain_cons_cons.mpr ⟨hd ▸ hlt, ?_⟩
      exact ih (v := { v with pubTimePrev := t }) hs hr hd

end

end DensoVariable

theorem Serves.members {duration : Int} {v : DensoVariable} (h : Serves duration v) :
    v.serving = true ∧ v.read = true ∧ v.duration = i32 (wordOfInt (duration * 1000000)) := by
  obtain ⟨vt, write, now, mode, h⟩ := h
  rw [DensoVariable.startService] at h
  split at h
  case isTrue => cases h
  case isFalse =>
    split at h
    case isTrue => cases h
    case isFalse =>
      cases h
      exact ⟨rfl, rfl, rfl⟩

-- A variable of type `VT_I4`.
def i4Variable (duration : Int) : DensoVariable where
  vt          := 3
  read        := true
  write       := false
  duration    := i32 (wordOfInt (duration * 1000000))
  pubTimePrev := 0
  serving     := true

theorem serves_i4 (duration : Int) : Serves duration (i4Variable duration) :=
  ⟨3, false, 0, 0, rfl⟩

-- Two calls, at the first times at which the value is asked for.
def twoCalls (duration : Int) : List (Int × HRESULT × Variant) :=
  [(max duration 0 + 1, eFail, .init false .empty),
    (2 * (max duration 0 + 1), eFail, .init false .empty)]

theorem polls_twoCalls {v : DensoVariable} (hs : v.serving = true) (hr : v.read = true)
    (hp : v.pubTimePrev = 0) : polls (DensoVariable.updates (twoCalls v.duration) v) =
      [max v.duration 0 + 1, 2 * (max v.duration 0 + 1)] := by
  have hfirst : v.duration < max v.duration 0 + 1 - v.pubTimePrev := by omega
  have hsecond : v.duration < 2 * (max v.duration 0 + 1) - (max v.duration 0 + 1) := by omega
  have hs' : ({ v with pubTimePrev := max v.duration 0 + 1 } : DensoVariable).serving = true := hs
  rw [twoCalls, DensoVariable.polls_updates_cons hs hr, if_pos hfirst,
    DensoVariable.polls_updates_cons hs' hr, if_pos hsecond]
  rfl

theorem polls_spaced_iff {duration : Int} (h0 : 0 ≤ duration) (hmax : duration < 2147483648) :
    (∀ v calls, Serves duration v → Ordered calls →
      Spaced duration (polls (DensoVariable.updates calls v))) ↔ duration ≤ 2147 := by
  constructor
  case mp =>
    intro h
    have hordered : Ordered (twoCalls (i4Variable duration).duration) := by
      refine List.isChain_cons_cons.mpr ⟨?_, List.isChain_singleton _⟩
      omega
    have hspaced := h _ _ (serves_i4 duration) hordered
    rw [polls_twoCalls rfl rfl rfl] at hspaced
    have hlt := (List.isChain_cons_cons.mp hspaced).left
    have hb : (i4Variable duration).duration < 2147483648 := (i32_bounds _).right
    omega
  case mpr =>
    intro hle v calls hv _
    obtain ⟨hs, hr, hd⟩ := hv.members
    rw [i32_wordOfInt (by omega) (by omega)] at hd
    exact (DensoVariable.spaced_updates hs hr hd).tail

-- A period of a second.
theorem second_spaced : (∀ v calls, Serves 1000 v → Ordered calls →
    Spaced 1000 (polls (DensoVariable.updates calls v))) ↔ (1000 : Int) ≤ 2147 :=
  polls_spaced_iff (by decide) (by decide)

-- With a period of five seconds, the value is asked for again after less than one.
theorem five_seconds_not_spaced : ¬∀ v calls, Serves 5000 v → Ordered calls →
    Spaced 5000 (polls (DensoVariable.updates calls v)) := by
  intro h
  have hordered : Ordered (twoCalls (i4Variable 5000).duration) :=
    List.isChain_cons_cons.mpr ⟨by decide, List.isChain_singleton _⟩
  have hspaced := h _ _ (serves_i4 5000) hordered
  rw [polls_twoCalls rfl rfl rfl] at hspaced
  exact absurd (List.isChain_cons_cons.mp hspaced).left (by decide)

end Robot
