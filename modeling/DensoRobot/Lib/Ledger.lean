import Mathlib.Data.List.Basic

-- What a log tells of things that are taken and given back, where a thing may be held repeatedly.
inductive Entry (κ : Type)
  | take (key : κ)
  | give (key : κ)

namespace Entry

variable {κ : Type} [BEq κ]

def tally (key : κ) (held : Nat) : Entry κ → Nat
  | take k => if k == key then held + 1 else held
  | give k => if k == key then held - 1 else held

-- How often a thing is held at the end of a log.
def balance (log : List (Entry κ)) (key : κ) : Nat :=
  log.foldl (tally key) 0

theorem balance_append (log log' : List (Entry κ)) (key : κ) :
    balance (log ++ log') key = log'.foldl (tally key) (balance log key) :=
  List.foldl_append ..

-- The list that a log leads to if taking appends to it and giving back erases the first match.
def post (table : List κ) : Entry κ → List κ
  | take k => table ++ [k]
  | give k => table.erase k

theorem count_post [LawfulBEq κ] (table : List κ) (e : Entry κ) (key : κ) :
    (post table e).count key = tally key (table.count key) e := by
  cases e
  case take k =>
    simp only [post, tally, List.count_append, List.count_singleton]
    split <;> rfl
  case give k =>
    simp only [post, tally, List.count_erase]
    split <;> rfl

theorem count_foldl_post [LawfulBEq κ] (log : List (Entry κ)) :
    ∀ (table : List κ) (key : κ),
      (log.foldl post table).count key = log.foldl (tally key) (table.count key) := by
  induction log
  case nil => exact fun _ _ => rfl
  case cons e log ih =>
    intro table key
    rw [List.foldl_cons, ih, count_post, List.foldl_cons]

end Entry
