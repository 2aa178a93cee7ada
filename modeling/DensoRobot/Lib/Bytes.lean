import Mathlib.Data.List.Basic
import Mathlib.Algebra.Order.Ring.Nat
import Mathlib.Algebra.BigOperators.Group.List.Basic

-- Little-endian numbers.

namespace Bytes

-- The lowest `n` bytes of `v`, lowest first.
def toLe : (n v : Nat) → List UInt8
  | 0, _     => []
  | n + 1, v => UInt8.ofNat v :: toLe n (v / 256)

def ofLe : List UInt8 → Nat
  | []      => 0
  | b :: bs => b.toNat + 256 * ofLe bs

@[simp]
theorem length_toLe (n v : Nat) : (toLe n v).length = n := by
  induction n generalizing v <;> simp [toLe, *]

theorem ofLe_toLe (n v : Nat) : ofLe (toLe n v) = v % 256 ^ n := by
  induction n generalizing v
  case zero => simp [toLe, ofLe, Nat.mod_one]
  case succ n ih =>
    have hb : (UInt8.ofNat v).toNat = v % 256 := by simp
    rw [toLe, ofLe, ih, hb, Nat.pow_succ, Nat.mul_comm (256 ^ n), Nat.mod_mul]

theorem ofLe_toLe_of_lt {n v : Nat} (h : v < 256 ^ n) : ofLe (toLe n v) = v := by
  rw [ofLe_toLe, Nat.mod_eq_of_lt h]

theorem ofLe_lt (bs : List UInt8) : ofLe bs < 256 ^ bs.length := by
  induction bs
  case nil => simp [ofLe]
  case cons b bs ih =>
    have hb := b.toNat_lt
    simp only [ofLe, List.length_cons, Nat.pow_succ]
    omega

theorem toLe_ofLe (bs : List UInt8) : toLe bs.length (ofLe bs) = bs := by
  induction bs
  case nil => rfl
  case cons b bs ih =>
    have hb := b.toNat_lt
    have hd : (b.toNat + 256 * ofLe bs) / 256 = ofLe bs := by omega
    have hm : UInt8.ofNat (b.toNat + 256 * ofLe bs) = b := by
      apply UInt8.toNat_inj.mp
      simp only [UInt8.toNat_ofNat']
      omega
    simp only [ofLe, List.length_cons, toLe, hd, hm, ih]

theorem toLe_mod (n v : Nat) : toLe n (v % 256 ^ n) = toLe n v := by
  have h := toLe_ofLe (toLe n v)
  rwa [length_toLe, ofLe_toLe] at h

end Bytes

-- Reading and writing a part of a buffer.

namespace List

-- The `n` elements of a buffer from position `o` on.
def window (d : List α) (o n : Nat) : List α :=
  (d.drop o).take n

-- Overwrites the elements of a buffer from position `o` on.
def splice (d : List α) (o : Nat) (bs : List α) : List α :=
  d.take o ++ bs ++ d.drop (o + bs.length)

-- The buffer `d` shows `bs` from position `o` on.
def Shows (d : List α) (o : Nat) (bs : List α) : Prop :=
  ∃ pre post, d = pre ++ bs ++ post ∧ pre.length = o

section

variable {d as bs cs pre post : List α} {o n : Nat}

theorem length_window (h : o + n ≤ d.length) : (d.window o n).length = n := by
  simp only [window, length_take, length_drop]
  omega

theorem length_splice (h : o + bs.length ≤ d.length) : (d.splice o bs).length = d.length := by
  simp only [splice, length_append, length_take, length_drop]
  omega

theorem splice_append_append (ho : pre.length = o) (hn : n = cs.length) (hl : bs.length = n) :
    (pre ++ bs ++ post).splice o cs = pre ++ cs ++ post := by
  subst ho hn
  simp [splice, append_assoc, ← hl, drop_append]

theorem splice_append (ho : pre.length = o) :
    (pre ++ post).splice o bs = pre ++ bs ++ post.drop bs.length := by
  subst ho
  simp [splice, drop_append]

-- Writing behind what was just written extends it.
theorem splice_splice_append (h : o + bs.length + cs.length ≤ d.length) :
    (d.splice o bs).splice (o + bs.length) cs = d.splice o (bs ++ cs) := by
  have ho : (d.take o).length = o := by simp only [length_take]; omega
  simp only [splice, length_append]
  rw [take_append_of_le_length (by simp only [length_append]; omega)]
  rw [take_of_length_le (by simp only [length_append]; omega)]
  rw [drop_append, drop_of_length_le (by simp only [length_append]; omega)]
  simp only [nil_append, drop_drop, append_assoc, length_append, ho]
  congr 4
  omega

-- Writing in front of what was written extends it, too.
theorem splice_splice_before (d as bs : List α) (o : Nat)
    (h : o + as.length + bs.length ≤ d.length) :
    (d.splice (o + as.length) bs).splice o as = d.splice o (as ++ bs) := by
  have ho : (d.take (o + as.length)).length = o + as.length := by simp only [length_take]; omega
  simp only [splice, append_assoc]
  rw [take_append_of_le_length (by omega), drop_append_of_le_length (by omega)]
  rw [take_take, drop_of_length_le (l := d.take _) (by omega)]
  simp only [nil_append, length_append, Nat.add_assoc]
  congr 2
  omega

theorem Shows.bound : d.Shows o bs → o + bs.length ≤ d.length
  | ⟨_, _, h, ho⟩ => by simp [h, ← ho]

theorem Shows.window_eq : d.Shows o bs → d.window o bs.length = bs
  | ⟨_, _, h, ho⟩ => by simp [h, ← ho, window, append_assoc]

theorem shows_append : d.Shows o (as ++ bs) ↔ d.Shows o as ∧ d.Shows (o + as.length) bs where
  mp := fun ⟨pre, post, h, ho⟩ =>
    ⟨⟨pre, bs ++ post, by simp [h], ho⟩, ⟨pre ++ as, post, by simp [h], by simp [ho]⟩⟩
  mpr := fun ⟨⟨pre, post, h, ho⟩, ⟨pre', post', h', ho'⟩⟩ => by
    have hpre : pre' = pre ++ as := by
      have ht := congrArg (take (o + as.length)) (h.symm.trans h')
      rw [take_append_of_le_length (by simp [ho]), take_of_length_le (by simp [ho])] at ht
      rw [append_assoc, take_append_of_le_length (by omega), take_of_length_le (by omega)] at ht
      exact ht.symm
    exact ⟨pre, post', by rw [h', hpre]; simp, ho⟩

theorem shows_self (d : List α) : d.Shows 0 d :=
  ⟨[], [], by simp, rfl⟩

theorem Shows.getElem? {a : α} : d.Shows o [a] → d[o]? = some a
  | ⟨_, _, h, ho⟩ => by simp [h, ← ho]

theorem mem_of_lookup [BEq α] [LawfulBEq α] {k : α} {b : β} {l : List (α × β)}
    (h : l.lookup k = some b) : (k, b) ∈ l := by
  obtain ⟨_, _, hl, _⟩ := lookup_eq_some_iff.mp h
  rw [hl]
  exact mem_append_right _ mem_cons_self

end
end List

-- Looking for the first byte of a frame.

namespace Bytes

variable {b : UInt8} {f g held : List UInt8}

theorem dropWhile_noise (hg : b ∉ g) (bs : List UInt8) :
    (g ++ bs).dropWhile (· ≠ b) = bs.dropWhile (· ≠ b) :=
  List.dropWhile_append_of_pos fun c hc => by
    simpa using fun h : c = b => hg (h ▸ hc)

-- Nothing is skipped at the beginning of a frame.
theorem dropWhile_start (hf : f.head? = some b) (h : held <+: f) :
    held.dropWhile (· ≠ b) = held := by
  have ⟨t, ht⟩ := h
  cases held
  case nil => rfl
  case cons c bs =>
    rw [← ht, List.cons_append, List.head?_cons, Option.some.injEq] at hf
    simp [hf]

theorem dropWhile_header {bs : List UInt8} (h : bs.head? = some b) :
    bs.dropWhile (· ≠ b) = bs :=
  dropWhile_start h List.prefix_rfl

theorem head?_dropWhile {bs : List UInt8} (h : bs.dropWhile (· ≠ b) ≠ []) :
    (bs.dropWhile (· ≠ b)).head? = some b := by
  rw [List.head?_eq_some_head h]
  simpa using List.head_dropWhile_not (fun c : UInt8 => decide (c ≠ b)) h

theorem not_mem_takeWhile (bs : List UInt8) : b ∉ bs.takeWhile (· ≠ b) :=
  fun h => by simpa using List.all_eq_true.mp List.all_takeWhile b h

-- Without the bytes in front of the first header, the first bytes of a stream still start it.
theorem dropWhile_prefix_drop {u : List UInt8} (h : held <+: u) :
    held.dropWhile (· ≠ b) <+: u.drop (held.takeWhile (· ≠ b)).length := by
  obtain ⟨w, rfl⟩ := h
  have ht := List.takeWhile_append_dropWhile (p := (· ≠ b)) (l := held)
  exact ⟨w, by
    nth_rewrite 3 [← ht]
    rw [List.append_assoc, List.drop_left]⟩

theorem dropWhile_drop {u : List UInt8} (h : held <+: u) :
    (u.drop (held.takeWhile (· ≠ b)).length).dropWhile (· ≠ b) = u.dropWhile (· ≠ b) := by
  have hpre : held.takeWhile (· ≠ b) <+: held := List.takeWhile_prefix _
  obtain ⟨w, rfl⟩ := hpre.trans h
  rw [List.drop_left, dropWhile_noise (not_mem_takeWhile held)]

end Bytes
