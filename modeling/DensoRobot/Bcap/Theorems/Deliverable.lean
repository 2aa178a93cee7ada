import DensoRobot.Bcap.Theorems.RoundTrip

open HRESULT Bytes

-- What becomes of a variant that is sent: its form on the wire, and what a receiver makes of this.

namespace Bcap

section

variable {host : Host}

theorem textBytes_sent (b : Option Bstr) : textBytes ((bstrText b).map u16) = bstrBytes b := by
  have hc : ((bstrText b).map u16).flatMap (toLe 2) = (bstrText b).flatMap (toLe 2) := by
    rw [List.flatMap_map]
    exact List.flatMap_congr fun c _ => toLe_mod 2 c
  rw [textBytes, bstrBytes, List.length_map, length_bstrText, hc]

theorem isWire_sent (b : Option Bstr) : IsWire ((bstrText b).map u16) := by
  constructor
  case left =>
    rw [List.length_map, length_bstrText]
    cases b
    case none   => decide
    case some b => exact u16_lt
  case right =>
    intro c hc
    obtain ⟨_, _, rfl⟩ := List.mem_map.mp hc
    exact u16_lt

-- A string arrives iff its length and all of its characters are told by 16 bits, and there is room
-- for it.
theorem text_arrives_iff (b : Option Bstr) :
    ((bstrText b).map u16).length ≤ 16382 ∧ wcs ((bstrText b).map u16) = Variant.text b ↔
      IsText (Variant.text b) := by
  constructor
  case mp =>
    rintro ⟨hl, he⟩
    have hsub : Variant.text b <+: (bstrText b).map u16 := he ▸ List.takeWhile_prefix _
    refine ⟨Nat.le_trans hsub.length_le hl,
      fun c hc => ⟨?_, (isWire_sent b).right c (hsub.subset hc)⟩⟩
    have hc := List.all_eq_true.mp List.all_takeWhile c (he ▸ hc)
    exact Nat.pos_of_ne_zero (by simpa using hc)
  case mpr =>
    intro h
    have hmap : (Variant.text b).map u16 = Variant.text b :=
      (List.map_congr_left fun c hc => u16_of_lt (h.right c hc).right).trans (List.map_id' _)
    rw [bstrText_eq h, hmap]
    exact ⟨h.left, wcs_of_isText h⟩

theorem dates_arrive_iff {n : Nat} {dates : List UInt8} (hl : dates.length = n * 8) :
    convElems 8 (bytary2vntdate host) n (convElems 8 (vntdate2bytary host) n dates) = dates ↔
      Variant.AllLasting host n dates := by
  induction n generalizing dates
  case zero =>
    rw [Nat.zero_mul] at hl
    exact iff_of_true (List.eq_nil_of_length_eq_zero hl).symm trivial
  case succ n ih =>
    have hsent : (vntdate2bytary host (dates.take 8)).length = 8 := length_toLe ..
    have hread : (bytary2vntdate host (vntdate2bytary host (dates.take 8))).length =
        (dates.take 8).length := by
      rw [List.length_take_of_le (by omega)]
      exact length_toLe ..
    simp only [convElems, List.take_left' hsent, List.drop_left' hsent, Variant.AllLasting]
    rw [← ih (by rw [List.length_drop]; omega)]
    constructor
    case mp  => exact fun h => List.append_inj (h.trans (List.take_append_drop 8 dates).symm) hread
    case mpr =>
      rintro ⟨h, hs⟩
      rw [hs]
      exact (congrArg (· ++ _) h).trans (List.take_append_drop 8 dates)

theorem number_arrives_iff {vt : VarType} {data : List UInt8} :
    receivedNumber host vt (sentNumber host vt data) = data ↔
      (vt = .date → Variant.Lasting host data) := by
  by_cases h : vt = .date
  case pos => simp [h, receivedNumber, sentNumber, Variant.Lasting]
  case neg => simp [h, receivedNumber_eq host h, sentNumber_eq host h]

theorem elements_arrive_iff {vt : VarType} {n : Nat} {data : List UInt8}
    (hd : data.length = n * elementSize vt) :
    convElems (elementSize vt) (receivedNumber host vt) n
        (convElems (elementSize vt) (sentNumber host vt) n data) = data ↔
      (vt = .date → Variant.AllLasting host n data) := by
  by_cases h : vt = .date
  case pos =>
    subst h
    exact (dates_arrive_iff hd).trans (by simp)
  case neg =>
    have hid : convElems (elementSize vt) id n data = data := by
      rw [convElems_id (Nat.le_of_eq hd.symm), ← hd, List.take_length]
    rw [receivedNumber_eq host h, sentNumber_eq host h, hid, hid]
    exact iff_of_true rfl fun he => absurd he h

end
end Bcap

namespace Variant

open Bcap

variable (host : Host)

theorem Whole.length_le {vt : VarType} {psa : ArrayHeader} {data : List UInt8}
    (h : (rawArray vt psa data).Whole) : psa.cElements * elementSize vt ≤ data.length := by
  obtain ⟨_, hbstr, hvariant, _, hd⟩ := h
  cases hd
  case inl hd => exact Nat.le_of_eq hd.symm
  case inr hd =>
    have hz : elementSize vt = 0 := by
      cases vt <;> first | rfl | contradiction | exact absurd hd.left (by simp [elemSize])
    simp [hz]

mutual

theorem Whole.filled : {v : Variant} → v.Whole → v.Filled
  | scalar _ _, _ | bstr _, _ => trivial
  | rawArray _ _ _, h         => ⟨h.right.right.right.left, Whole.length_le h⟩
  | bstrArray _ _, h          => h
  | variantArray _ _, h       => ⟨h.left, h.right.left, allFilled h.right.right⟩

theorem allFilled : {vs : List Variant} → AllWhole vs → AllFilled vs
  | [], _     => trivial
  | _ :: _, h => ⟨Whole.filled h.left, allFilled h.right⟩

end

mutual

theorem formed_sent : (v : Variant) → v.Whole → (v.sent host).Formed
  | scalar vt val, h         =>
    ⟨h.left, h.right, length_sentNumber host vt (length_toLe ..)⟩
  | bstr b, _                => isWire_sent b
  | rawArray vt psa data, h  => by
    have hc (e : List UInt8) (he : e.length = elementSize vt) :
        (sentNumber host vt e).length = elementSize vt := by
      cases vt
      case date => exact length_toLe ..
      all_goals exact he
    have ⟨hp, hb, hv, hn, _⟩ := h
    exact ⟨hp, hb, hv, hn, length_convElems hc (Whole.length_le h)⟩
  | bstrArray _ data, _      => by
    intro chars hc
    obtain ⟨b, _, rfl⟩ := List.mem_map.mp hc
    exact isWire_sent b
  | variantArray _ data, h   => allFormed_sent data h.right.right

theorem allFormed_sent : (vs : List Variant) → AllWhole vs → Value.AllFormed (allSent host vs)
  | [], _      => trivial
  | v :: vs, h => ⟨formed_sent v h.left, allFormed_sent vs h.right⟩

end

theorem vt_sent (v : Variant) : (v.sent host).vt = v.vt := by
  cases v <;> rfl

theorem count_sent {v : Variant} (h : v.Filled) : Bcap.elements v = some (v.sent host).count := by
  cases v <;> simp only [Filled] at h <;> simp only [Bcap.elements, sent, Value.count]
  case rawArray => rw [count_eq h.left]
  case bstrArray => rw [count_eq h.left, List.length_map, h.right]
  case variantArray => rw [count_eq h.left, length_allSent, h.right.left]

mutual

theorem payload_sent : (v : Variant) → v.Filled → (v.sent host).payload = v.payload host
  | scalar _ _, _          => rfl
  | bstr b, _              => textBytes_sent b
  | rawArray _ _ _, h      => by rw [payload, count_eq h.left]; rfl
  | bstrArray _ data, _    => by
    rw [sent, Value.payload, List.flatMap_map]
    exact List.flatMap_congr fun b _ => textBytes_sent b
  | variantArray _ data, h => bodies_sent data h.right.right

theorem bodies_sent : (vs : List Variant) → AllFilled vs →
    Value.bodies (allSent host vs) = bodies host vs
  | [], _      => rfl
  | v :: vs, h => by
    rw [allSent, Value.bodies, bodies, vt_sent, payload_sent v h.left, bodies_sent vs h.right,
      count_sent host h.left, Option.getD_some]

end

theorem arguments_sent {vs : List Variant} (h : AllFilled vs) :
    (allSent host vs).flatMap Value.argument = vs.flatMap (argument host) := by
  induction vs
  case nil => rfl
  case cons v vs ih =>
    rw [allSent, List.flatMap_cons, List.flatMap_cons, ih h.right]
    simp only [Value.argument, Value.body, argument, body, vt_sent, payload_sent host v h.left,
      count_sent host h.left, Option.getD_some]

-- Exactly the deliverable ones arrive as they were sent.
mutual

theorem deliverable_iff : (v : Variant) → v.Whole →
    ((v.sent host).Receivable ∧ (v.sent host).received host = v.value ↔ v.Deliverable host)
  | scalar vt val, h         => by
    simp only [sent, Value.Receivable, true_and, Value.received, value, Value.number.injEq,
      number_arrives_iff, Deliverable]
    exact forall_congr' fun he => by rw [he]; rfl
  | bstr b, _                => by
    simp only [sent, Value.Receivable, Value.received, value, Value.text.injEq, Deliverable]
    exact text_arrives_iff b
  | rawArray vt psa data, h  => by
    obtain ⟨_, _, _, _, hd⟩ := h
    simp only [sent, Value.Receivable, Value.received, value, Value.numbers.injEq, true_and,
      Deliverable]
    cases hd
    case inr hd => simp [hd.left, Nat.ne_of_gt hd.right]
    case inl hd =>
      rw [elements_arrive_iff hd]
      by_cases hz : psa.cElements = 0
      case pos => simp [hz, AllLasting]
      case neg => simp [hz]
  | bstrArray _ data, _      => by
    simp only [sent, Value.Receivable, Value.received, value, Value.texts.injEq, List.map_map,
      List.map_inj_left, List.length_map, List.forall_mem_map, and_assoc, ← forall₂_and,
      Function.comp, Deliverable, ← text_arrives_iff]
  | variantArray _ data, h   => by
    simp only [sent, Value.Receivable, Value.received, value, Value.variants.injEq, length_allSent,
      and_assoc, Deliverable, allDeliverable_iff data h.right.right]

theorem allDeliverable_iff : (vs : List Variant) → AllWhole vs →
    (Value.AllReceivable (allSent host vs) ∧
      Value.allReceived host (allSent host vs) = values vs ↔ AllDeliverable host vs)
  | [], _      => by simp [allSent, Value.AllReceivable, Value.allReceived, values, AllDeliverable]
  | v :: vs, h => by
    simp only [allSent, Value.AllReceivable, Value.allReceived, values, List.cons.injEq,
      AllDeliverable, ← deliverable_iff v h.left, ← allDeliverable_iff vs h.right]
    exact and_and_and_comm

end

end Variant
