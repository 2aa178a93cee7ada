import DensoRobot.Lib.Fuel
import DensoRobot.Bcap.Theorems.Tcp

open HRESULT Bytes

namespace Bcap

-- From some call on, all bytes that were sent have arrived, as far as a header and its length go.
def Arrives (size : Nat → Nat) : Prop :=
  ∃ n, ∀ k, n ≤ k → 5 ≤ size k

-- A packet is received from here on.
structure Announces (t : List UInt8) : Prop where
  head : t.head? = some bcapHeader
  full : 5 ≤ t.length
  size : bcapSizeMin ≤ ofLe (t.window bcapPosLen bcapSizeLen)

-- The stream ends within a header and its length.
structure Dangles (t : List UInt8) : Prop where
  head  : t.head? = some bcapHeader
  short : t.length < 5

-- The last header of a stream dangles, and none of the headers before it announces a packet.
structure Stuck (bytes : List UInt8) : Prop where
  dangles : ∃ t, t <:+ bytes ∧ Dangles t
  barren  : ∀ t, t <:+ bytes → ¬Announces t

-- The packet that is received from a stream, if its bytes are all there: the first header that
-- announces a packet, and as many bytes as it announces.
def Offers (bytes f : List UInt8) : Prop :=
  ∃ t, t <:+ bytes ∧ Announces t ∧ (∀ t', t' <:+ bytes → Announces t' → t' <:+ t) ∧
    f <+: t ∧ f.length = ofLe (t.window bcapPosLen bcapSizeLen)

section

variable {t u : List UInt8}

-- Bytes in front of the first header do not matter.
theorem suffix_dropWhile (h : t <:+ u) (ht : t.head? = some bcapHeader) :
    t <:+ u.dropWhile (· ≠ bcapHeader) := by
  induction u
  case nil => exact h
  case cons b u ih =>
    by_cases hb : b = bcapHeader
    case pos => rwa [List.dropWhile_cons_of_neg (by simpa using hb)]
    case neg =>
      rw [List.dropWhile_cons_of_pos (by simpa using hb)]
      cases List.suffix_cons_iff.mp h
      case inl h => exact absurd (by simpa [h] using ht) hb
      case inr h => exact ih h

theorem stuck_dropWhile (u : List UInt8) : Stuck (u.dropWhile (· ≠ bcapHeader)) ↔ Stuck u := by
  have hu := List.dropWhile_suffix (p := (· ≠ bcapHeader)) (l := u)
  constructor
  case mp =>
    intro s
    obtain ⟨t, ht, d⟩ := s.dangles
    exact ⟨⟨t, ht.trans hu, d⟩, fun t ht a => s.barren t (suffix_dropWhile ht a.head) a⟩
  case mpr =>
    intro s
    obtain ⟨t, ht, d⟩ := s.dangles
    exact ⟨⟨t, suffix_dropWhile ht d.head, d⟩, fun t ht => s.barren t (ht.trans hu)⟩

-- Nothing is announced in front of `u`.
theorem offers_suffix {bytes f : List UInt8} (hu : u <:+ bytes)
    (h : ∀ t, t <:+ bytes → Announces t → t <:+ u) : Offers u f ↔ Offers bytes f := by
  constructor
  case mp =>
    rintro ⟨t, ht, a, hfirst, hf⟩
    exact ⟨t, ht.trans hu, a, fun t' ht' a' => hfirst t' (h t' ht' a') a', hf⟩
  case mpr =>
    rintro ⟨t, ht, a, hfirst, hf⟩
    exact ⟨t, h t ht a, a, fun t' ht' a' => hfirst t' (ht'.trans hu) a', hf⟩

theorem offers_dropWhile (u f : List UInt8) :
    Offers (u.dropWhile (· ≠ bcapHeader)) f ↔ Offers u f :=
  offers_suffix (List.dropWhile_suffix _) fun _ ht a => suffix_dropWhile ht a.head

theorem Announces.offers_iff (a : Announces t) {f : List UInt8} :
    Offers t f ↔ f <+: t ∧ f.length = ofLe (t.window bcapPosLen bcapSizeLen) := by
  constructor
  case mp =>
    rintro ⟨t', ht, _, hfirst, hf⟩
    have he := ht.eq_of_length_le (hfirst t List.suffix_rfl a).length_le
    exact he ▸ hf
  case mpr => exact fun hf => ⟨t, List.suffix_rfl, a, fun _ h _ => h, hf⟩

theorem not_offers_nil (f : List UInt8) : ¬Offers [] f := by
  rintro ⟨t, ht, a, _⟩
  exact absurd a.full (by simp [List.suffix_nil.mp ht])

theorem not_stuck_nil : ¬Stuck [] := by
  intro s
  obtain ⟨t, ht, d⟩ := s.dangles
  rw [List.suffix_nil.mp ht] at d
  cases d.head

theorem Announces.not_stuck (a : Announces t) : ¬Stuck t :=
  fun s => s.barren t List.suffix_rfl a

theorem Dangles.stuck (d : Dangles t) : Stuck t where
  dangles := ⟨t, List.suffix_rfl, d⟩
  barren  := fun _ h a => Nat.not_lt.mpr (Nat.le_trans a.full h.length_le) d.short

theorem suffix_tail {t' : List UInt8} (h : t' <:+ t) (hne : t' ≠ t) : t' <:+ t.tail := by
  cases t
  case nil => exact absurd (List.suffix_nil.mp h) hne
  case cons b t =>
    cases List.suffix_cons_iff.mp h
    case inl h => exact absurd h hne
    case inr h => exact h

-- A header that announces less than the size of a packet is left behind.
theorem stuck_tail (h5 : 5 ≤ t.length) (ha : ¬Announces t) : Stuck t.tail ↔ Stuck t := by
  constructor
  case mp =>
    intro s
    obtain ⟨t', ht, d⟩ := s.dangles
    refine ⟨⟨t', ht.trans (List.tail_suffix t), d⟩, fun t' ht a => ?_⟩
    by_cases he : t' = t
    case pos => exact ha (he ▸ a)
    case neg => exact s.barren t' (suffix_tail ht he) a
  case mpr =>
    intro s
    obtain ⟨t', ht, d⟩ := s.dangles
    refine ⟨⟨t', suffix_tail ht fun he => ?_, d⟩,
      fun t' ht => s.barren t' (ht.trans (List.tail_suffix t))⟩
    exact Nat.not_lt.mpr h5 (he ▸ d.short)

theorem offers_tail (ha : ¬Announces t) (f : List UInt8) : Offers t.tail f ↔ Offers t f :=
  offers_suffix (List.tail_suffix t) fun _ ht a => suffix_tail ht fun he => ha (he ▸ a)

end

section

variable (size : Nat → Nat) {s : Tcp} {held g t : List UInt8} {l : Link Tcp}

theorem tcp_peek (hne : s.unread ≠ []) :
    ∃ n s', (tcpDevice size).dnRecv udpMaxPacket true s = (.ok (s.unread.take n) 0, s') ∧
      s'.unread = s.unread ∧ n ≤ s'.peeked ∧ s'.calls = s.calls + 1 ∧
      0 < n ∧ n ≤ s.unread.length ∧ (5 ≤ size s.calls → min 5 s.unread.length ≤ n) := by
  have hu := List.length_pos_iff.mpr hne
  have hz : udpMaxPacket ≠ 0 := by decide
  have hm : 5 ≤ udpMaxPacket := by decide
  simp only [tcpDevice, if_neg hz, if_neg hne]
  refine ⟨_, _, rfl, ?_⟩
  simp
  omega

-- A call that is made to consume some bytes changes nothing else.
theorem discard_eq (len : Nat) (l : Link Tcp) : ∃ s', discard (tcpDevice size) len l =
    { l with state := s' } ∧ l.state.calls ≤ s'.calls := by
  refine ⟨_, rfl, ?_⟩
  simp only [tcpDevice]
  by_cases hz : len = 0
  case pos => rw [if_pos hz]
  case neg =>
    by_cases hu : l.state.unread = []
    case pos => rw [if_neg hz, if_pos hu]
    case neg =>
      rw [if_neg hz, if_neg hu]
      exact Nat.le_succ _

-- The bytes in front of the first header are consumed, as far as they have been peeked at.
theorem skip_consumes (hh : held <+: l.state.unread) (hp : held.length ≤ l.state.peeked) :
    ∃ s', skip (tcpDevice size) held l =
        (held.dropWhile (· ≠ bcapHeader), { l with state := s' }) ∧
      l.state.calls ≤ s'.calls ∧
      s'.unread = l.state.unread.drop (held.takeWhile (· ≠ bcapHeader)).length := by
  rw [skip_eq]
  by_cases h : held.head? = some bcapHeader
  case pos =>
    refine ⟨l.state, by rw [if_pos h], Nat.le_refl _, ?_⟩
    cases held
    case nil      => contradiction
    case cons b _ => simp_all
  case neg =>
    rw [if_neg h]
    have hl :=
      congrArg List.length (List.takeWhile_append_dropWhile (p := (· ≠ bcapHeader)) (l := held))
    rw [List.length_append] at hl
    have he : held.length - (held.dropWhile (· ≠ bcapHeader)).length =
        (held.takeWhile (· ≠ bcapHeader)).length := by omega
    rw [he]
    obtain ⟨s', hd, hc⟩ := discard_eq size (held.takeWhile (· ≠ bcapHeader)).length l
    refine ⟨s', by rw [hd], hc, ?_⟩
    have hpre : held.takeWhile (· ≠ bcapHeader) <+: held := List.takeWhile_prefix _
    obtain ⟨w, hw⟩ := hpre.trans hh
    have hu := tcp_consume size hw.symm (Nat.le_trans hpre.length_le hp) l
    rw [hd] at hu
    rw [← hw, List.drop_left]
    exact hu

-- As long as no header has been found with its length, the bytes are peeked at once more.
theorem seek_again (client : Bool) (hh : held <+: l.state.unread)
    (hp : held.length ≤ l.state.peeked) (h5 : (held.dropWhile (· ≠ bcapHeader)).length < 5)
    (hne : l.state.unread.drop (held.takeWhile (· ≠ bcapHeader)).length ≠ []) :
    ∃ n s', (∀ fuel, seek (tcpDevice size) client (fuel + 1) held l =
        seek (tcpDevice size) client fuel (s'.unread.take n) { l with state := s' }) ∧
      s'.unread = l.state.unread.drop (held.takeWhile (· ≠ bcapHeader)).length ∧
      l.state.calls < s'.calls ∧ (s'.unread.take n).length ≤ s'.peeked ∧ 0 < n ∧
      ((∀ k, l.state.calls ≤ k → 5 ≤ size k) → min 5 s'.unread.length ≤ n) := by
  obtain ⟨s₁, hs, hc, hu⟩ := skip_consumes size hh hp
  rw [← hu] at hne
  obtain ⟨n, s₂, hr, hu₂, hpk, hc₂, hpos, _, h5'⟩ := tcp_peek size hne
  have hrecv : recvHead (tcpDevice size) client (udpMaxPacket - 0) { l with state := s₁ } =
      (.ok (s₁.unread.take n) 0, { l with state := s₂ }) := by
    simp only [Nat.sub_zero, recvHead, hr]
    rfl
  have htype : (tcpDevice size).type = .tcp := rfl
  refine ⟨n, s₂, fun fuel => ?_, hu₂.trans hu, ?_, ?_, hpos, fun hf => ?_⟩
  · have hlt : ¬bcapSizeHeader + bcapSizeLen ≤ (held.dropWhile (· ≠ bcapHeader)).length :=
      Nat.not_le.mpr h5
    simp only [seek, hs, if_neg hlt, htype, if_true, List.length_nil, hrecv, List.nil_append, hu₂]
  · omega
  · exact Nat.le_trans (List.length_take_le ..) hpk
  · exact hu₂ ▸ h5' (hf _ hc)

-- Nothing but noise is consumed until nothing is left.
theorem seek_silent (client : Bool) (k : Nat) (hg : bcapHeader ∉ l.state.unread)
    (hh : held <+: l.state.unread) (hp : held.length ≤ l.state.peeked)
    (hk : l.state.unread.length - held.length = k) :
    ∃ hr l', Settles (fun fuel => seek (tcpDevice size) client fuel held l)
      (.ok (.error hr, l')) := by
  induction k using Nat.strong_induction_on generalizing held l
  case h k ih =>
    have hmem : bcapHeader ∉ held := fun h => hg (hh.subset h)
    have hd : held.dropWhile (· ≠ bcapHeader) = [] := by simpa using dropWhile_noise hmem []
    have ht := List.takeWhile_append_dropWhile (p := (· ≠ bcapHeader)) (l := held)
    rw [hd, List.append_nil] at ht
    by_cases hne : l.state.unread.drop (held.takeWhile (· ≠ bcapHeader)).length = []
    case pos =>
      obtain ⟨s₁, hs, _, hu⟩ := skip_consumes size hh hp
      have hrecv : recvHead (tcpDevice size) client udpMaxPacket { l with state := s₁ } =
          (.fail eTimeout none, { l with state := s₁ }) := by
        simp [recvHead, tcpDevice, hu.trans hne, udpMaxPacket]
      have htype : (tcpDevice size).type = .tcp := rfl
      refine ⟨eTimeout, { l with state := s₁ },
        Settles.step (.of_forall fun _ => rfl) fun fuel => ?_⟩
      simp only [seek, hs, hd, htype, if_true, List.length_nil, Nat.sub_zero, hrecv]
      rfl
    case neg =>
      obtain ⟨n, s', hs, hu, _, hpk, hpos, _⟩ :=
        seek_again size client hh hp (by rw [hd]; decide) hne
      rw [ht] at hu hne
      have hlen := List.length_pos_iff.mpr hne
      have hnone : bcapHeader ∉ s'.unread := fun h => hg (List.mem_of_mem_drop (hu ▸ h))
      rw [← hu] at hlen
      have hl := congrArg List.length hu
      rw [List.length_drop] at hl
      obtain ⟨hr, l', h⟩ := ih (s'.unread.length - (s'.unread.take n).length)
        (by rw [List.length_take]; omega) (l := { l with state := s' }) hnone
        (List.take_prefix ..) hpk rfl
      exact ⟨hr, l', h.step hs⟩

-- A header and its length have been peeked at.
theorem seek_now (client : Bool) (hh : held <+: l.state.unread) (hp : held.length ≤ l.state.peeked)
    (h5 : 5 ≤ (held.dropWhile (· ≠ bcapHeader)).length) :
    ∃ s', (∀ fuel, seek (tcpDevice size) client (fuel + 1) held l =
        .ok (.ok (held.dropWhile (· ≠ bcapHeader)), { l with state := s' })) ∧
      s'.unread = l.state.unread.dropWhile (· ≠ bcapHeader) ∧
      held.dropWhile (· ≠ bcapHeader) <+: l.state.unread.dropWhile (· ≠ bcapHeader) := by
  obtain ⟨s', hs, _, hu⟩ := skip_consumes size hh hp
  have hne : held.dropWhile (· ≠ bcapHeader) ≠ [] := fun h => by
    rw [h] at h5
    contradiction
  have hpre := dropWhile_prefix_drop (b := bcapHeader) hh
  obtain ⟨w, hw⟩ := hpre
  have hhead : (l.state.unread.drop (held.takeWhile (· ≠ bcapHeader)).length).head? =
      some bcapHeader := by
    rw [← hw, List.head?_append, head?_dropWhile hne]
    rfl
  have he := dropWhile_drop (b := bcapHeader) hh
  rw [dropWhile_header hhead] at he
  refine ⟨s', fun fuel => ?_, hu.trans he, ⟨w, hw.trans he⟩⟩
  simp only [seek, hs, bcapSizeHeader, bcapSizeLen, if_pos h5]
  rfl

theorem noise_pos {u : List UInt8} {n : Nat} (hne : u ≠ []) (hn : 0 < n)
    (h : u.head? ≠ some bcapHeader) : 0 < ((u.take n).takeWhile (· ≠ bcapHeader)).length := by
  cases u
  case nil => contradiction
  case cons b u =>
    cases n
    case zero   => contradiction
    case succ n =>
      have hb : b ≠ bcapHeader := fun hb => h (by rw [hb]; rfl)
      rw [List.take_succ_cons, List.takeWhile_cons_of_pos (by simpa using hb)]
      exact Nat.succ_pos _

-- The header is found once the bytes behind it have arrived.
theorem seek_found (client : Bool) {n : Nat} (hn : ∀ k, n ≤ k → 5 ≤ size k) (m : Nat)
    (h5 : 5 ≤ (l.state.unread.dropWhile (· ≠ bcapHeader)).length)
    (hh : held <+: l.state.unread) (hp : held.length ≤ l.state.peeked)
    (hm : n - l.state.calls +
      (l.state.unread.length - (held.takeWhile (· ≠ bcapHeader)).length) = m) :
    ∃ held' l', Settles (fun fuel => seek (tcpDevice size) client fuel held l)
      (.ok (.ok held', l')) ∧
      held' <+: l'.state.unread ∧ 5 ≤ held'.length ∧ l'.next = l.next ∧
      l'.state.unread = l.state.unread.dropWhile (· ≠ bcapHeader) := by
  induction m using Nat.strong_induction_on generalizing held l
  case h m ih =>
    by_cases hlen : 5 ≤ (held.dropWhile (· ≠ bcapHeader)).length
    case pos =>
      obtain ⟨s', hs, hu, hpre⟩ := seek_now size client hh hp hlen
      exact ⟨_, { l with state := s' }, .step (.of_forall fun _ => rfl) hs, hu ▸ hpre,
        hlen, rfl, hu⟩
    case neg =>
      have he := dropWhile_drop (b := bcapHeader) hh
      have hne : l.state.unread.drop (held.takeWhile (· ≠ bcapHeader)).length ≠ [] := by
        intro h
        rw [← he, h] at h5
        contradiction
      obtain ⟨k, s', hs, hu, hc, hpk, hpos, hk⟩ :=
        seek_again size client hh hp (Nat.lt_of_not_le hlen) hne
      rw [← hu] at he hne
      have hh' : s'.unread.take k <+: s'.unread := List.take_prefix ..
      have hl := congrArg List.length hu
      rw [List.length_drop] at hl
      by_cases hhead : n ≤ l.state.calls ∧ s'.unread.head? = some bcapHeader
      case pos =>
        have hd : (s'.unread.take k).dropWhile (· ≠ bcapHeader) = s'.unread.take k :=
          dropWhile_start hhead.right hh'
        have h5' : 5 ≤ ((s'.unread.take k).dropWhile (· ≠ bcapHeader)).length := by
          have := hk fun k h => hn k (Nat.le_trans hhead.left h)
          rw [← he, dropWhile_header hhead.right] at h5
          rw [hd, List.length_take]
          omega
        obtain ⟨s₂, hs₂, hu₂, hpre⟩ :=
          seek_now size client (l := { l with state := s' }) hh' hpk h5'
        exact ⟨_, { l with state := s₂ },
          .step (.step (.of_forall fun _ => rfl) hs₂) hs, hu₂ ▸ hpre, h5', rfl, hu₂.trans he⟩
      case neg =>
        have hless : n - s'.calls +
            (s'.unread.length - ((s'.unread.take k).takeWhile (· ≠ bcapHeader)).length) < m := by
          by_cases hcalls : n ≤ l.state.calls
          case neg => omega
          case pos =>
            have hnoise := noise_pos hne hpos fun h => hhead ⟨hcalls, h⟩
            have hlen := List.length_pos_iff.mpr hne
            omega
        obtain ⟨held', l', h, hpre, hl', hn', hu'⟩ :=
          ih _ hless (l := { l with state := s' }) (he ▸ h5)
          hh' hpk rfl
        exact ⟨held', l', h.step hs, hpre, hl', hn', hu'.trans he⟩

-- A header without its length is peeked at forever.
theorem seek_dangling (client : Bool) (d : Dangles (l.state.unread.dropWhile (· ≠ bcapHeader)))
    (fuel : Nat) (hh : held <+: l.state.unread) (hp : held.length ≤ l.state.peeked) :
    seek (tcpDevice size) client fuel held l = .error .fuel := by
  have hu := List.takeWhile_append_dropWhile (p := (· ≠ bcapHeader)) (l := l.state.unread)
  have h := seek_tcp size client fuel d.head (not_mem_takeWhile _) hu.symm (by rwa [hu]) hp
  cases h
  case inl h => exact h
  case inr h =>
    obtain ⟨held', l', _, hpre, h5, _⟩ := h
    exact absurd (Nat.le_trans h5 hpre.length_le) (Nat.not_le.mpr d.short)

-- The bytes that have been read so far and those that are still unread make up the same stream.
theorem start_part (len : Nat) (hl : 0 < len) (held : List UInt8) (hne : l.state.unread ≠ []) :
    ∃ buf s', start (tcpDevice size) len held l = .ok (buf, { l with state := s' }) ∧
      buf.length ≤ len ∧ buf ++ s'.unread = l.state.unread := by
  obtain ⟨n, s', hr, _, hn, _, _, hd⟩ := tcp_receive size hl hne false
  refine ⟨l.state.unread.take n, s', ?_, ?_, ?_⟩
  · simp only [start, hr]
    rfl
  · exact Nat.le_trans (List.length_take_le ..) hn
  · rw [hd rfl, List.take_append_drop]

theorem fill_part {len : Nat} {buf : List UInt8} (hb : buf.length < len)
    (hne : l.state.unread ≠ []) : ∃ bs s', bs ≠ [] ∧ (buf ++ bs).length ≤ len ∧
      bs ++ s'.unread = l.state.unread ∧
      ∀ fuel, fill (tcpDevice size) len (fuel + 1) buf l =
        fill (tcpDevice size) len fuel (buf ++ bs) { l with state := s' } := by
  have hlt : 0 < len - buf.length := by omega
  obtain ⟨n, s', hr, hpos, hn, hle, _, hd⟩ := tcp_receive size hlt hne false
  have hrecv : recvRest (tcpDevice size) (len - buf.length) l =
      (.ok (l.state.unread.take n) 0, { l with state := s' }) := by
    simp only [recvRest, hr]
    rfl
  have hlen := List.length_take_of_le hle
  refine ⟨l.state.unread.take n, s', ?_, ?_, ?_, fun fuel => ?_⟩
  · exact List.ne_nil_of_length_pos (hlen.symm ▸ hpos)
  · rw [List.length_append]
    omega
  · rw [hd rfl, List.take_append_drop]
  · simp only [fill, if_neg (Nat.not_le.mpr hb), hrecv]

-- The bytes of a packet are read, and none of those behind it.
theorem fill_whole {len : Nat} (k : Nat) {buf f rest : List UInt8} (hf : f.length = len)
    (hb : buf.length ≤ len) (hu : buf ++ l.state.unread = f ++ rest)
    (hk : len - buf.length = k) :
    ∃ l', Settles (fun fuel => fill (tcpDevice size) len fuel buf l) (.ok (.ok f, l')) ∧
      l'.next = l.next ∧ l'.state.unread = rest := by
  induction k using Nat.strong_induction_on generalizing buf l
  case h k ih =>
    by_cases hfull : len ≤ buf.length
    case pos =>
      obtain ⟨rfl, hrest⟩ := List.append_inj hu (by omega)
      refine ⟨l, Settles.step (.of_forall fun _ => rfl) fun fuel => ?_, rfl, hrest⟩
      simp only [fill, if_pos hfull, List.take_of_length_le hb]
      rfl
    case neg =>
      have hne : l.state.unread ≠ [] := fun h => by
        have hl := congrArg List.length hu
        simp only [h, List.append_nil, List.length_append] at hl
        omega
      obtain ⟨bs, s', hbs, hle, hu', hs⟩ := fill_part size (Nat.lt_of_not_le hfull) hne
      have hpos := List.length_pos_iff.mpr hbs
      rw [List.length_append] at hle
      obtain ⟨l', h, hn, hr⟩ := ih (len - (buf ++ bs).length)
        (by rw [List.length_append]; omega) (l := { l with state := s' })
        (by rw [List.length_append]; exact hle)
        (by rw [List.append_assoc]; exact hu'.symm ▸ hu) rfl
      exact ⟨l', h.step hs, hn, hr⟩

-- The bytes that are missing do not arrive in time.
theorem fill_short {len : Nat} (k : Nat) {buf : List UInt8}
    (hb : (buf ++ l.state.unread).length < len) (hk : len - buf.length = k) :
    ∃ l', Settles (fun fuel => fill (tcpDevice size) len fuel buf l)
      (.ok (.error eTimeout, l')) := by
  induction k using Nat.strong_induction_on generalizing buf l
  case h k ih =>
    rw [List.length_append] at hb
    have hlt : buf.length < len := by omega
    by_cases hne : l.state.unread = []
    case pos =>
      have hz : len - buf.length ≠ 0 := by omega
      have hrecv : recvRest (tcpDevice size) (len - buf.length) l = (.fail eTimeout none, l) := by
        simp only [recvRest, tcpDevice, if_neg hz, if_pos hne]
        rfl
      refine ⟨l, Settles.step (.of_forall fun _ => rfl) fun fuel => ?_⟩
      simp only [fill, if_neg (Nat.not_le.mpr hlt), hrecv]
      rfl
    case neg =>
      obtain ⟨bs, s', hbs, hle, hu, hs⟩ := fill_part size hlt hne
      have hpos := List.length_pos_iff.mpr hbs
      have hl := congrArg List.length hu
      rw [List.length_append] at hle hl
      obtain ⟨l', h⟩ := ih (len - (buf ++ bs).length) (by rw [List.length_append]; omega)
        (l := { l with state := s' }) (by simp only [List.length_append]; omega) rfl
      exact ⟨l', h.step hs⟩

end

-- What a call returns where `u` are the bytes from the first header that announces a packet on.
inductive Concludes (host : Host) (q : BcapPacket) (next : Nat) (u : List UInt8) :
    Exec (HRESULT × BcapPacket × Link Tcp) → Prop
  | refused {l : Link Tcp} : host.malloc next = false →
    Concludes host q next u (.ok (eOutOfMemory, q, l))
  | short {l : Link Tcp} : u.length < ofLe (u.window bcapPosLen bcapSizeLen) →
    Concludes host q next u (.ok (eTimeout, q, l))
  | whole {f : List UInt8} {l : Link Tcp} : host.malloc next = true → f ++ l.state.unread = u →
    f.length = ofLe (u.window bcapPosLen bcapSizeLen) →
    Concludes host q next u (do
      let r ← bytary2packet host f q (next + 1)
      return (r.hr, r.packet, { l with next := r.next }))

theorem Concludes.returns_iff {host : Host} {q : BcapPacket} {next : Nat} {u : List UInt8}
    {r : Exec (HRESULT × BcapPacket × Link Tcp)} (h : Concludes host q next u r)
    (hlen : ofLe (u.window bcapPosLen bcapSizeLen) < 4294967296)
    (hq : ∀ args ∈ q.args, q.argc ≠ argcAuto → q.argc ≤ args.slots.length) :
    (∃ a, r = .ok a) ↔ ∀ f, f <+: u ∧ f.length = ofLe (u.window bcapPosLen bcapSizeLen) →
      host.malloc next = true → Tame host f q (next + 1) := by
  cases h
  case refused hm => exact iff_of_true ⟨_, rfl⟩ fun _ _ h => absurd (hm.symm.trans h) (by decide)
  case short hs =>
    exact iff_of_true ⟨_, rfl⟩ fun f hf _ =>
      absurd hf.left.length_le (Nat.not_le.mpr (hf.right ▸ hs))
  case whole f l hm hu hf =>
    have hd := bytary2packet_decides host (hf ▸ hlen) hq (next + 1)
    have hthe (f' : List UInt8) (hf' : f' <+: u ∧ f'.length = f.length) : f' = f :=
      (List.prefix_of_prefix_length_le hf'.left ⟨_, hu⟩ (Nat.le_of_eq hf'.right)).eq_of_length
        hf'.right
    rw [← hf]
    have ht : (∀ f', f' <+: u ∧ f'.length = f.length → host.malloc next = true →
        Tame host f' q (next + 1)) ↔ Tame host f q (next + 1) :=
      ⟨fun h => h f ⟨⟨_, hu⟩, rfl⟩ hm, fun h f' hf' _ => (hthe f' hf') ▸ h⟩
    rw [ht, ← hd.returns_iff]
    constructor
    case mp  => exact fun ⟨_, h⟩ => (ok_of_bind h).imp fun _ h => h.left
    case mpr => exact fun ⟨r, h⟩ => ⟨_, by rw [h]; rfl⟩

section

variable (size : Nat → Nat) (host : Host) {l : Link Tcp}

-- The header is found together with the length behind it.
theorem seek_length (client : Bool) (ha : Arrives size)
    (h5 : 5 ≤ (l.state.unread.dropWhile (· ≠ bcapHeader)).length) :
    ∃ held l', Settles (fun fuel => seek (tcpDevice size) client fuel [] l) (.ok (.ok held, l')) ∧
      l'.next = l.next ∧ l'.state.unread = l.state.unread.dropWhile (· ≠ bcapHeader) ∧
      ofLe (held.window bcapPosLen bcapSizeLen) =
        ofLe ((l.state.unread.dropWhile (· ≠ bcapHeader)).window bcapPosLen bcapSizeLen) := by
  obtain ⟨n, hn⟩ := ha
  obtain ⟨held, l', hs, hpre, hlen, hnext, hu⟩ := seek_found size client hn _ h5 List.nil_prefix
    (Nat.zero_le _) rfl
  exact ⟨held, l', hs, hnext, hu,
    congrArg ofLe <| window_start hpre (hu ▸ List.prefix_rfl) hlen h5⟩

theorem length_lt (u : List UInt8) : ofLe (u.window bcapPosLen bcapSizeLen) < 4294967296 := by
  have hlt := ofLe_lt (u.window bcapPosLen bcapSizeLen)
  have hle : (u.window bcapPosLen bcapSizeLen).length ≤ 4 := List.length_take_le ..
  exact Nat.lt_of_lt_of_le hlt (Nat.pow_le_pow_right (by decide) hle)

-- Once a header announces a packet, the call comes to an end.
theorem recv_packet (client : Bool) (ha : Arrives size) (q : BcapPacket)
    (a : Announces (l.state.unread.dropWhile (· ≠ bcapHeader))) :
    ∃ r, Settles (fun fuel => recvLoop (tcpDevice size) client host fuel q l) r ∧
      Concludes host q l.next (l.state.unread.dropWhile (· ≠ bcapHeader)) r := by
  obtain ⟨held, l₁, hs, hnext, hu, hle⟩ := seek_length size client ha a.full
  have hlen := length_lt (l.state.unread.dropWhile (· ≠ bcapHeader))
  have hmin := a.size
  have hne : l₁.state.unread ≠ [] :=
    hu ▸ List.ne_nil_of_length_pos (Nat.lt_of_lt_of_le (by decide) a.full)
  rw [← hle] at hlen hmin
  have hrange : ¬(ofLe (held.window bcapPosLen bcapSizeLen) < lenMin (tcpDevice size).type ∨
      lenMax (tcpDevice size).type < ofLe (held.window bcapPosLen bcapSizeLen)) := by
    simp only [tcpDevice, lenMin, lenMax, bcapSizeMin, bcapSizeLen] at hmin hlen ⊢
    omega
  have htype : (tcpDevice size).type = .tcp := rfl
  rw [← hu, ← hnext]
  rw [← hu] at hle
  cases hm : host.malloc l₁.next
  case false =>
    have hret : Settles (fun _ => (.ok (eOutOfMemory, q, { l₁ with next := l₁.next + 1 }) : Exec _))
      _ := .of_forall fun _ => rfl
    refine ⟨_, hs.after hret fun fuel h => ?_, .refused hm⟩
    rw [recvLoop, h, Exec.ok_bind]
    simp only [if_neg hrange, Host.alloc, hm, Bool.false_eq_true, if_false]
    rfl
  case true =>
    obtain ⟨buf, s₂, hst, hb, hu₂⟩ := start_part size (l := { l₁ with next := l₁.next + 1 })
      (ofLe (held.window bcapPosLen bcapSizeLen)) (Nat.lt_of_lt_of_le (by decide) hmin) held hne
    by_cases hall : ofLe (held.window bcapPosLen bcapSizeLen) ≤ l₁.state.unread.length
    case neg =>
      have hall := Nat.lt_of_not_le hall
      obtain ⟨l₃, hf⟩ := fill_short size (l := ⟨s₂, l₁.arg, l₁.flagInit, l₁.next + 1⟩) _
        (hu₂.symm ▸ hall) rfl
      refine ⟨_, hs.after_both hf fun fuel h h' => ?_, .short (l := l₃) (hle ▸ hall)⟩
      rw [recvLoop, h, Exec.ok_bind]
      simp only [if_neg hrange, Host.alloc, hm, if_true, hst, Exec.ok_bind, h']
      rfl
    case pos =>
      have htake := List.length_take_of_le hall
      have hcut := List.take_append_drop (ofLe (held.window bcapPosLen bcapSizeLen)) l₁.state.unread
      obtain ⟨l₃, hf, hn₃, hu₃⟩ := fill_whole size
        (l := ⟨s₂, l₁.arg, l₁.flagInit, l₁.next + 1⟩) _ htake hb (hu₂.trans hcut.symm) rfl
      refine ⟨_, hs.after_both hf fun fuel h h' => ?_, .whole (l := l₃) hm (hu₃ ▸ hcut)
        (htake.trans hle)⟩
      rw [recvLoop, h, Exec.ok_bind]
      simp only [if_neg hrange, Host.alloc, hm, if_true, hst, Exec.ok_bind, h', hn₃]
      simp [htype]

-- A header that announces less than the size of a packet is discarded.
theorem recv_discards (client : Bool) (ha : Arrives size) (q : BcapPacket)
    (h5 : 5 ≤ (l.state.unread.dropWhile (· ≠ bcapHeader)).length)
    (hn : ¬Announces (l.state.unread.dropWhile (· ≠ bcapHeader))) :
    ∃ l' : Link Tcp, l'.state.unread = (l.state.unread.dropWhile (· ≠ bcapHeader)).tail ∧
      l'.next = l.next ∧
      ∀ r, Settles (fun fuel => recvLoop (tcpDevice size) client host fuel q l') r →
        Settles (fun fuel => recvLoop (tcpDevice size) client host fuel q l) r := by
  obtain ⟨held, l₁, hs, hnext, hu, hle⟩ := seek_length size client ha h5
  have hne := List.ne_nil_of_length_pos (Nat.lt_of_lt_of_le (by decide) h5)
  have hlt : ofLe (held.window bcapPosLen bcapSizeLen) < lenMin .tcp :=
    Nat.lt_of_not_le fun h => hn ⟨head?_dropWhile hne, h5, hle ▸ h⟩
  have htype : (tcpDevice size).type = .tcp := rfl
  obtain ⟨n, s', hr, hpos, hone, _, _, hd⟩ := tcp_receive size (by decide : 0 < bcapSizeHeader)
    (hu.symm ▸ hne) false
  have hn : n = 1 := Nat.le_antisymm hone hpos
  refine ⟨{ l₁ with state := s' }, ?_, hnext, fun r h => hs.after h fun fuel h' => ?_⟩
  · exact (hd rfl).trans (by rw [hn, List.drop_one, hu])
  · rw [recvLoop, h', Exec.ok_bind]
    simp only [hlt, true_or, if_true, htype, discard, hr]

-- Nothing more arrives.
theorem recv_silent (client : Bool) (q : BcapPacket)
    (h : l.state.unread.dropWhile (· ≠ bcapHeader) = []) :
    ∃ a, Settles (fun fuel => recvLoop (tcpDevice size) client host fuel q l) (.ok a) := by
  have hg : bcapHeader ∉ l.state.unread := by
    have hu := List.takeWhile_append_dropWhile (p := (· ≠ bcapHeader)) (l := l.state.unread)
    rw [h, List.append_nil] at hu
    exact hu ▸ not_mem_takeWhile _
  obtain ⟨hr, l', hs⟩ := seek_silent size client _ hg List.nil_prefix (Nat.zero_le _) rfl
  refine ⟨(hr, q, l'), hs.after (.of_forall fun _ => rfl) fun fuel h => ?_⟩
  rw [recvLoop, h]
  rfl

-- A header without its length keeps the call from returning.
theorem recv_dangling (client : Bool) (fuel : Nat) (q : BcapPacket)
    (d : Dangles (l.state.unread.dropWhile (· ≠ bcapHeader))) :
    recvLoop (tcpDevice size) client host fuel q l = .error .fuel := by
  cases fuel
  case zero => rfl
  case succ fuel =>
    rw [recvLoop, seek_dangling size client d fuel List.nil_prefix (Nat.zero_le _)]
    rfl

-- The decoder stays within its memory for the packet that a stream offers.
def TameOffer (bytes : List UInt8) (q : BcapPacket) (next : Nat) : Prop :=
  ∀ f, Offers bytes f → host.malloc next = true → Tame host f q (next + 1)

-- The induction is on the number of bytes that are left.
theorem recv_settles (client : Bool) (ha : Arrives size) {q : BcapPacket}
    (hq : ∀ args ∈ q.args, q.argc ≠ argcAuto → q.argc ≤ args.slots.length) (n : Nat)
    (hn : l.state.unread.length = n) :
    ∃ r, Settles (fun fuel => recvLoop (tcpDevice size) client host fuel q l) r ∧
      ((∃ a, r = .ok a) ↔ ¬Stuck l.state.unread ∧ TameOffer host l.state.unread q l.next) := by
  induction n using Nat.strong_induction_on generalizing l
  case h n ih =>
    simp only [TameOffer, ← stuck_dropWhile l.state.unread, ← offers_dropWhile l.state.unread]
    by_cases hnil : l.state.unread.dropWhile (· ≠ bcapHeader) = []
    case pos =>
      obtain ⟨a, hs⟩ := recv_silent size host client q hnil
      rw [hnil]
      exact ⟨_, hs, iff_of_true ⟨a, rfl⟩
        ⟨not_stuck_nil, fun f h => absurd h (not_offers_nil f)⟩⟩
    case neg =>
      by_cases h5 : 5 ≤ (l.state.unread.dropWhile (· ≠ bcapHeader)).length
      case neg =>
        have d : Dangles _ := ⟨head?_dropWhile hnil, Nat.lt_of_not_le h5⟩
        exact ⟨_, .of_forall fun fuel => recv_dangling size host client fuel q d,
          iff_of_false (fun ⟨_, h⟩ => by contradiction) fun h => h.left d.stuck⟩
      case pos =>
        by_cases a : Announces (l.state.unread.dropWhile (· ≠ bcapHeader))
        case pos =>
          obtain ⟨r, hs, hr⟩ := recv_packet size host client ha q a
          refine ⟨r, hs, ?_⟩
          simp only [hr.returns_iff (length_lt _) hq, a.offers_iff, a.not_stuck, not_false_eq_true,
            true_and]
        case neg =>
          obtain ⟨l', hu, hnext, hs⟩ := recv_discards size host client ha q h5 a
          have hless : l'.state.unread.length < n := by
            have hle :=
              (List.dropWhile_suffix (p := (· ≠ bcapHeader)) (l := l.state.unread)).length_le
            rw [hu, List.length_tail]
            omega
          obtain ⟨r, hr, hiff⟩ := ih _ hless rfl
          simp only [TameOffer, hu, hnext, stuck_tail h5 a, offers_tail a] at hiff
          exact ⟨r, hs r hr, hiff⟩

-- On TCP a call returns iff the stream does not end within a header and its length, with no packet
-- announced before, and the packet that is announced first, if it is all there, does not make the
-- decoder leave its memory.
theorem bcapRecv_ends_iff (ha : Arrives size) (client : Bool) {q : BcapPacket}
    (hq : ∀ args ∈ q.args, q.argc ≠ argcAuto → q.argc ≤ args.slots.length)
    (arg next : Nat) (s : Tcp) :
    (∃ a, Settles (fun fuel => bcapRecv (tcpDevice size) client host fuel q arg next s) (.ok a)) ↔
    ¬Stuck s.unread ∧ TameOffer host s.unread q next := by
  obtain ⟨r, hr, hiff⟩ := recv_settles size host (l := ⟨s, arg, false, next⟩) client ha hq _ rfl
  rw [← hiff]
  constructor
  case mp  => exact fun ⟨a, ha⟩ => ⟨a, hr.unique ha⟩
  case mpr => exact fun ⟨a, ha⟩ => ⟨a, ha ▸ hr⟩

def stringsFrame : List UInt8 :=
  BcapPacket.frame (.ofArgs 1 0 17 0 [emptyStrings 3]) [emptyStrings 3] []

-- Noise and two packets, behind which a single byte is left.
def stringsStream : Tcp :=
  ⟨[0x55] ++ (stringsFrame ++ stringsFrame ++ [7]), 0, 0⟩

theorem stringsStream_finishes : ∃ a, Settles
    (fun fuel => bcapRecv (tcpDevice fun _ => 30) false ampleHost fuel autoPacket 0 0 stringsStream)
    (.ok a) := by
  have a : Announces (stringsStream.unread.dropWhile (· ≠ bcapHeader)) :=
    ⟨by decide +kernel, by decide +kernel, by decide +kernel⟩
  refine bcapRecv_ends_iff (fun _ => 30) ampleHost ⟨0, fun _ _ => (by decide : 5 ≤ 30)⟩ false
    (q := autoPacket) (fun _ h => by contradiction) 0 0 stringsStream |>.mpr
      ⟨fun s => ?_, fun f hf _ => ?_⟩
  · exact a.not_stuck ((stuck_dropWhile _).mpr s)
  · obtain ⟨hpre, hlen⟩ := a.offers_iff.mp ((offers_dropWhile _ f).mpr hf)
    rw [List.prefix_iff_eq_take.mp hpre, hlen]
    intro _ _ _
    decide +kernel

-- A peer that sends a header byte and then falls silent.
def headerStream : Tcp :=
  ⟨[bcapHeader], 0, 0⟩

theorem headerStream_spins : ¬∃ a, Settles
    (fun fuel => bcapRecv (tcpDevice fun _ => udpMaxPacket) false ampleHost fuel autoPacket 0 0
      headerStream) (.ok a) := by
  rintro ⟨a, ha⟩
  have hd : Dangles (headerStream.unread.dropWhile (· ≠ bcapHeader)) := ⟨rfl, by decide⟩
  have hn := ha.unique <| .of_forall fun fuel =>
    recv_dangling (fun _ => udpMaxPacket) ampleHost (l := ⟨headerStream, 0, false, 0⟩) false fuel
      autoPacket hd
  contradiction

end
end Bcap
