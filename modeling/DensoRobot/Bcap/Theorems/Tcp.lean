import DensoRobot.Bcap.Transport
import DensoRobot.Bcap.Theorems.Header

open HRESULT Bytes

namespace Bcap

section

variable (size : Nat → Nat) {s : Tcp} {len : Nat} {as rest : List UInt8}

-- What has been peeked at is consumed as a whole.
theorem tcp_consume (hu : s.unread = as ++ rest) (hp : as.length ≤ s.peeked) (l : Link Tcp) :
    (discard (tcpDevice size) as.length { l with state := s }).state.unread = rest := by
  simp only [discard, tcpDevice]
  by_cases hz : as.length = 0
  case pos => simp [hu, List.eq_nil_of_length_eq_zero hz]
  case neg =>
    have hne : as ≠ [] := fun h => hz (by simp [h])
    simp [hz, hne, hu, hp]

-- An empty connection apart, some bytes are received.
theorem tcp_receive (hl : 0 < len) (hne : s.unread ≠ []) (peek : Bool) :
    ∃ n s', (tcpDevice size).dnRecv len peek s = (.ok (s.unread.take n) 0, s') ∧
      0 < n ∧ n ≤ len ∧ n ≤ s.unread.length ∧
      (peek = true → s'.unread = s.unread ∧ n ≤ s'.peeked) ∧
      (peek = false → s'.unread = s.unread.drop n) := by
  have hu := List.length_pos_iff.mpr hne
  have hz : len ≠ 0 := Nat.ne_of_gt hl
  simp only [tcpDevice, if_neg hz, if_neg hne]
  cases peek
  case true =>
    refine ⟨_, _, rfl, ?_⟩
    simp
    omega
  case false =>
    by_cases hp : len ≤ s.peeked
    case pos =>
      refine ⟨_, _, rfl, ?_⟩
      simp [hp]
      omega
    case neg =>
      refine ⟨_, _, rfl, ?_⟩
      simp [hp]
      omega

end

section

variable (size : Nat → Nat) {host : Host} {g f rest : List UInt8}

-- A part of the bytes `g ++ t` ends within `g` or behind it.
theorem prefix_cases {g t held : List UInt8} (h : held <+: g ++ t) :
    (∃ g', g = held ++ g') ∨ ∃ bs, bs ≠ [] ∧ held = g ++ bs ∧ bs <+: t := by
  have ⟨w, hw⟩ := h
  rcases List.append_eq_append_iff.mp hw with ⟨g', hg', _⟩ | ⟨bs, hbs, hbs'⟩
  case inl => exact .inl ⟨g', hg'⟩
  case inr =>
    by_cases hb : bs = []
    case pos => exact .inl ⟨[], by simp [hbs, hb]⟩
    case neg => exact .inr ⟨bs, hb, hbs, w, hbs'.symm⟩

theorem skip_eq (l : Link Tcp) (held : List UInt8) :
    skip (tcpDevice size) held l = (held.dropWhile (· ≠ bcapHeader),
      if held.head? = some bcapHeader then l
      else discard (tcpDevice size)
        (held.length - (held.dropWhile (· ≠ bcapHeader)).length) l) := by
  have ht : (tcpDevice size).type = .tcp := rfl
  simp only [skip]
  by_cases h : held.head? = some bcapHeader
  case pos => rw [if_neg (fun h' => h'.right h), if_pos h]
  case neg => rw [if_pos ⟨ht, h⟩, if_neg h]

-- The noise that has been peeked at is consumed.
theorem skip_tcp (hg : bcapHeader ∉ g) {t held : List UInt8} (ht : t.head? = some bcapHeader)
    {l : Link Tcp} (hu : l.state.unread = g ++ t) (hh : held <+: g ++ t)
    (hp : held.length ≤ l.state.peeked) :
    ∃ held' l' g', skip (tcpDevice size) held l = (held', l') ∧ bcapHeader ∉ g' ∧
      l'.state.unread = g' ++ t ∧ l'.next = l.next ∧ (held' = [] ∨ g' = [] ∧ held' <+: t) := by
  rw [skip_eq]
  rcases prefix_cases hh with ⟨g', hg'⟩ | ⟨bs, hne, hbs, hbt⟩
  case inl =>
    have hmem : bcapHeader ∉ held := fun h => hg (hg' ▸ List.mem_append_left _ h)
    have hn : held.dropWhile (· ≠ bcapHeader) = [] := by
      simpa using dropWhile_noise hmem []
    have hne : held.head? ≠ some bcapHeader := fun h => hmem (List.mem_of_mem_head? h)
    rw [hg', List.append_assoc] at hu
    refine ⟨_, _, g', rfl, fun h => hg (hg' ▸ List.mem_append_right _ h), ?_, ?_, .inl hn⟩
    · rw [if_neg hne, hn, List.length_nil, Nat.sub_zero]
      exact tcp_consume size hu hp l
    · rw [if_neg hne]
      rfl
  case inr =>
    have hbh : bs.head? = some bcapHeader := by
      have ⟨w, hw⟩ := hbt
      rw [← hw, List.head?_append] at ht
      cases bs
      case nil      => exact absurd rfl hne
      case cons b _ => simpa using ht
    have hn : held.dropWhile (· ≠ bcapHeader) = bs := by
      rw [hbs, dropWhile_noise hg, dropWhile_header hbh]
    refine ⟨_, _, [], rfl, by simp, ?_, ?_, .inr ⟨rfl, hn ▸ hbt⟩⟩
    · by_cases hg0 : held.head? = some bcapHeader
      case pos =>
        have hg0 : g = [] := by
          cases g
          case nil      => rfl
          case cons a _ =>
            rw [hbs, List.cons_append, List.head?_cons, Option.some.injEq] at hg0
            exact absurd (hg0 ▸ List.mem_cons_self) hg
        rw [if_pos (by simp [hbs, hg0, hbh]), hu, hg0]
      case neg =>
        rw [if_neg hg0, hn, hbs, List.length_append, Nat.add_sub_cancel]
        refine tcp_consume size hu (Nat.le_trans ?_ hp) l
        simp [hbs]
    · by_cases hg0 : held.head? = some bcapHeader <;> simp [hg0, discard]

-- The header is found and none of the bytes behind it are consumed.
theorem seek_tcp (client : Bool) (fuel : Nat) {t : List UInt8} (ht : t.head? = some bcapHeader)
    (hg : bcapHeader ∉ g) {held : List UInt8} {l : Link Tcp} (hu : l.state.unread = g ++ t)
    (hh : held <+: g ++ t) (hp : held.length ≤ l.state.peeked) :
    seek (tcpDevice size) client fuel held l = .error .fuel ∨
    ∃ held' l', seek (tcpDevice size) client fuel held l = .ok (.ok held', l') ∧
      held' <+: t ∧ 5 ≤ held'.length ∧ l'.state.unread = t ∧ l'.next = l.next := by
  induction fuel generalizing g held l
  case zero => exact .inl rfl
  case succ fuel ih =>
    obtain ⟨held', l', g', hs, hg', hu', hn, hh'⟩ := skip_tcp size hg ht hu hh hp
    simp only [seek, hs, bcapSizeHeader, bcapSizeLen]
    by_cases hlen : 5 ≤ held'.length
    case pos =>
      rcases hh' with hz | ⟨hg0, hpre⟩
      case inl => simp [hz] at hlen
      case inr =>
        rw [if_pos hlen]
        exact .inr ⟨held', l', rfl, hpre, hlen, by simpa [hg0] using hu', hn⟩
    case neg =>
      have hne : l'.state.unread ≠ [] := by
        rw [hu']
        intro h
        rw [(List.append_eq_nil_iff.mp h).right] at ht
        contradiction
      obtain ⟨n, s', hr, _, _, _, hpk, _⟩ :=
        tcp_receive size (by decide : 0 < udpMaxPacket) hne true
      obtain ⟨hu'', hp''⟩ := hpk rfl
      rw [if_neg hlen]
      have hrecv : recvHead (tcpDevice size) client udpMaxPacket l' =
          (.ok (l'.state.unread.take n) 0, { l' with state := s' }) := by
        simp only [recvHead, hr]
        rfl
      have htype : (tcpDevice size).type = .tcp := rfl
      simp only [htype, if_true, List.length_nil, Nat.sub_zero, hrecv, List.nil_append]
      rcases @ih g' hg' (l'.state.unread.take n) { l' with state := s' } (hu'.symm ▸ hu'')
        (by rw [← hu']; exact List.take_prefix ..) (by simp only [List.length_take]; omega)
        with h | ⟨held'', l'', h, hpre, hl, hun, hnx⟩
      · exact .inl h
      · exact .inr ⟨held'', l'', h, hpre, hl, hun, hnx.trans hn⟩

end

end Bcap
