import DensoRobot.Common.Variant
import DensoRobot.Lib.Links

-- The memory of the nodes of a linked structure. `next` is the number of the next block of memory,
-- and `freed` are the nodes that were given back, the last one first.
structure Memory (ν : Type) where
  cell  : Nat → Option ν
  next  : Nat
  freed : List Nat

namespace Memory

variable (m : Memory ν) (p : Nat)

def set (n : Option ν) : Memory ν :=
  { m with cell := Function.update m.cell p n }

def load : Exec ν :=
  match m.cell p with
  | some n => pure n
  | none   => throw .read

def modify (f : ν → ν) : Exec (Memory ν) := do
  let n ← m.load p
  return m.set p (some (f n))

-- if (tmp != NULL) ...
def modifyIf (tmp : Option Nat) (f : ν → ν) : Exec (Memory ν) :=
  match tmp with
  | some p => m.modify p f
  | none   => pure m

def free : Exec (Memory ν) := do
  let _ ← m.load p
  return { m.set p none with freed := p :: m.freed }

-- node = ...;
-- while (node != NULL) { tmp = node->next; ...; node = tmp; }
def each (next : ν → Option Nat) (visit : Nat → Memory ν → Exec (Memory ν)) :
    (fuel : Nat) → (node : Option Nat) → Memory ν → Exec (Memory ν)
  | _,        none,      m => pure m
  | 0,        some _,    _ => throw .fuel
  | fuel + 1, some node, m => do
    let n ← m.load node
    let m ← visit node m
    each next visit fuel (next n) m

section

variable {m : Memory ν} {p : Nat} {n : ν} {f : ν → ν}

theorem load_eq (h : m.cell p = some n) : m.load p = .ok n := by
  rw [load, h]
  rfl

theorem modify_eq (h : m.cell p = some n) : m.modify p f = .ok (m.set p (some (f n))) := by
  rw [modify, load_eq h]
  rfl

theorem free_eq (h : m.cell p = some n) :
    m.free p = .ok { m.set p none with freed := p :: m.freed } := by
  rw [free, load_eq h]
  rfl

@[simp]
theorem cell_set_self (m : Memory ν) (p : Nat) (o : Option ν) : (m.set p o).cell p = o :=
  Function.update_self ..

theorem cell_set_of_ne (h : q ≠ p) (o : Option ν) : (m.set p o).cell q = m.cell q :=
  Function.update_of_ne h ..

theorem map_cell_set {g : ν → β} {n' : ν} (h : m.cell p = some n) (hg : g n' = g n) (q : Nat) :
    ((m.set p (some n')).cell q).map g = (m.cell q).map g := by
  by_cases hq : q = p
  case pos => rw [hq, cell_set_self, h, Option.map_some, Option.map_some, hg]
  case neg => rw [cell_set_of_ne hq]

-- A loop that visits the nodes of a list one after the other. `I` says what holds while `xs` are
-- still to be visited.
theorem each_spec {next : ν → Option Nat} {visit : Nat → Memory ν → Exec (Memory ν)}
    {I : List Nat → Memory ν → Prop}
    (step : ∀ {x xs m}, I (x :: xs) m → ∃ n m', m.cell x = some n ∧ next n = xs.head? ∧
      visit x m = .ok m' ∧ I xs m') :
    {xs : List Nat} → {m : Memory ν} → {fuel : Nat} → I xs m → xs.length ≤ fuel →
      ∃ m', each next visit fuel xs.head? m = .ok m' ∧ I [] m'
  | [],      m, fuel,     i, _ => ⟨m, by cases fuel <;> rfl, i⟩
  | x :: xs, m, fuel + 1, i, h => by
    have ⟨n, m', hn, hnext, hvisit, i'⟩ := step i
    have ⟨m'', heach, hdone⟩ := each_spec step i' (Nat.le_of_succ_le_succ h)
    refine ⟨m'', ?_, hdone⟩
    simp only [List.head?_cons, each, load_eq hn, Exec.ok_bind, hvisit, hnext, heach]

end
end Memory
