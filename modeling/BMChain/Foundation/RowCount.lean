import BMChain.Foundation.Table

/-!
# Counting rows

The number of rows of a table which pass a test, and how the writes move it.
-/

namespace BMChain.Foundation.Table

variable {Row : Type}

variable {table before after : Table Row} {id : Nat} {old new : Row}

/-- The number of rows which pass a test. -/
def countOf (test : Row → Bool) (table : Table Row) : Nat :=
  (table.entries.filter fun entry => test entry.2).length

/-- What one row adds to the number. -/
def one (test : Row → Bool) (row : Row) : Nat :=
  if test row then 1 else 0

theorem countOf_eq_sumOf
    (test : Row → Bool)
    (table : Table Row) :
    (table.countOf test : Int) =
      sumOf (fun row => (one test row : Int)) table.rows := by
  unfold countOf sumOf entries
  induction table.rows.toList with
  | nil => rfl
  | cons entry rest induction =>
      rw [List.map_cons, List.sum_cons, ← induction, List.filter_cons]
      unfold one
      cases passed : test entry.2 with
      | true => simp [passed, Int.add_comm]
      | false => simp [passed]

theorem countOf_emplace
    (test : Row → Bool)
    (table : Table Row)
    (row : Row) :
    (table.emplace row).countOf test = table.countOf test + one test row := by
  have moved := sumOf_emplace (fun row => (one test row : Int)) table row
  rw [← countOf_eq_sumOf, ← countOf_eq_sumOf] at moved
  exact_mod_cast moved

/-- What is overwritten no longer counts, and what is written does. -/
theorem countOf_set
    (test : Row → Bool)
    (found : table.find? id = some old)
    (row : Row) :
    (table.set id row).countOf test + one test old =
      table.countOf test + one test row := by
  have moved := sumOf_set (fun row => (one test row : Int)) found row
  rw [← countOf_eq_sumOf, ← countOf_eq_sumOf] at moved
  omega

theorem countOf_remove
    (test : Row → Bool)
    (found : table.find? id = some old) :
    (table.remove id).countOf test + one test old = table.countOf test := by
  have moved := sumOf_remove (fun row => (one test row : Int)) found
  rw [← countOf_eq_sumOf, ← countOf_eq_sumOf] at moved
  omega

/-- A row which passes is counted. -/
theorem one_le_countOf
    (test : Row → Bool)
    {row : Row}
    (found : table.find? id = some row) :
    one test row ≤ table.countOf test := by
  have moved := countOf_remove test found
  omega

/-- A table which differs in one row has the sum with that row exchanged. -/
theorem sumOf_of_others
    (measure : Row → Int)
    (found : before.find? id = some old)
    (changed : after.find? id = some new)
    (others : ∀ other, other ≠ id → after.find? other = before.find? other) :
    sumOf measure after.rows =
      sumOf measure before.rows - measure old + measure new := by
  have rows : after.rows = place before.rows id (some new) := by
    refine Std.ExtTreeMap.ext_getElem? ?_
    intro other
    rw [getElem?_place]
    split
    case isTrue same =>
      subst same
      exact changed
    case isFalse different => exact others other (Ne.symm different)
  rw [rows, sumOf_place measure found]
  rfl

theorem countOf_of_others
    (test : Row → Bool)
    (found : before.find? id = some old)
    (changed : after.find? id = some new)
    (others : ∀ other, other ≠ id → after.find? other = before.find? other) :
    after.countOf test + one test old = before.countOf test + one test new := by
  have moved := sumOf_of_others (fun row => (one test row : Int)) found changed
    others
  rw [← countOf_eq_sumOf, ← countOf_eq_sumOf] at moved
  omega

end BMChain.Foundation.Table
