import Mathlib.Tactic.Common
import Mathlib.Algebra.BigOperators.Group.List.Basic
import Mathlib.Algebra.Order.BigOperators.Group.List
import Mathlib.Algebra.Ring.Int.Defs
import Mathlib.Data.List.Sort
import BMChain.Foundation.FiniteMap

/-!
# Tables of rows

A table keeps its rows by key and hands out the ids of new rows.  The sum of
a measure over all rows moves by exactly what a write puts in and takes out,
and the rows which come first in an order of the user's are found by a scan.
-/

namespace BMChain.Foundation

open Std

/-! ## Sums over finite maps -/

section Sums

variable {K V W : Type} [Ord K] [TransOrd K] [LawfulEqOrd K]
    {map : ExtTreeMap K V}

/-- The sum of a measure over all values of a map. -/
def sumOf (measure : V → Int) (map : ExtTreeMap K V) : Int :=
  (map.toList.map fun entry => measure entry.2).sum

theorem toList_nodup
    (map : ExtTreeMap K V) :
    map.toList.Nodup := by
  refine (FiniteMap.distinct_keys map).imp ?_
  intro first second different same
  exact different (congrArg Prod.fst same)

/-- Measures which agree on the values have the same sum. -/
theorem sumOf_congr
    {first second : V → Int}
    (same : ∀ (key : K) value, map[key]? = some value →
      first value = second value) :
    sumOf first map = sumOf second map := by
  refine congrArg List.sum (List.map_congr_left ?_)
  rintro ⟨key, value⟩ member
  exact same key value (ExtTreeMap.mem_toList_iff_getElem?_eq_some.1 member)

/-- A value under a new key adds its own measure. -/
theorem sumOf_insert_new
    (measure : V → Int)
    {key : K}
    (fresh : map[key]? = none)
    (value : V) :
    sumOf measure (map.insert key value) = sumOf measure map + measure value := by
  have listed : (map.insert key value).toList.Perm ((key, value) :: map.toList) := by
    rw [List.perm_ext_iff_of_nodup (toList_nodup _)]
    · rintro ⟨other, found⟩
      rw [ExtTreeMap.mem_toList_iff_getElem?_eq_some, List.mem_cons,
        ExtTreeMap.mem_toList_iff_getElem?_eq_some, Prod.mk.injEq]
      by_cases same : other = key
      · subst same
        simp [fresh, eq_comm]
      · rw [ExtTreeMap.getElem?_insert, if_neg]
        · simp [same]
        · rw [Std.compare_eq_iff_eq]
          exact fun equal => same equal.symm
    · rw [List.nodup_cons, ExtTreeMap.mem_toList_iff_getElem?_eq_some]
      exact ⟨by simp [fresh], toList_nodup map⟩
  have summed := (listed.map fun entry => measure entry.2).sum_eq
  rw [List.map_cons, List.sum_cons] at summed
  unfold sumOf
  rw [summed, add_comm]

/-- Removing a key takes the measure of its value away. -/
theorem sumOf_erase
    (measure : V → Int)
    {key : K}
    {value : V}
    (found : map[key]? = some value) :
    sumOf measure (map.erase key) = sumOf measure map - measure value := by
  have absent : (map.erase key)[key]? = none := by
    simp
  have restored : (map.erase key).insert key value = map := by
    refine ExtTreeMap.ext_getElem? ?_
    intro other
    by_cases same : key = other
    · subst same
      simp [found]
    · rw [ExtTreeMap.getElem?_insert, ExtTreeMap.getElem?_erase, if_neg, if_neg]
        <;> simpa [Std.compare_eq_iff_eq] using same
  have added := sumOf_insert_new measure absent value
  rw [restored] at added
  omega

omit [LawfulEqOrd K] in
theorem sumOf_map
    (measure : W → Int)
    (map : ExtTreeMap K V)
    (view : V → W) :
    sumOf measure (map.map fun _ value => view value) =
      sumOf (fun value => measure (view value)) map := by
  simp [sumOf, ExtTreeMap.toList_map, Function.comp_def]

/-- A measure which is nowhere negative has no negative sum. -/
theorem sumOf_nonneg
    {measure : V → Int}
    (nonneg : ∀ (key : K) value, map[key]? = some value → 0 ≤ measure value) :
    0 ≤ sumOf measure map := by
  refine List.sum_nonneg ?_
  intro value member
  rcases List.mem_map.1 member with ⟨⟨key, row⟩, listed, rfl⟩
  exact nonneg key row
    (ExtTreeMap.mem_toList_iff_getElem?_eq_some.1 listed)

/-- A value has no larger measure than all of them together. -/
theorem le_sumOf
    {measure : V → Int}
    (nonneg : ∀ (key : K) value, map[key]? = some value → 0 ≤ measure value)
    {key : K}
    {value : V}
    (found : map[key]? = some value) :
    measure value ≤ sumOf measure map := by
  have rest : 0 ≤ sumOf measure (map.erase key) := by
    refine sumOf_nonneg ?_
    intro other row there
    rw [ExtTreeMap.getElem?_erase] at there
    split at there
    · cases there
    · exact nonneg other row there
  rw [sumOf_erase measure found] at rest
  omega

/-- A measure which is zero everywhere has the sum zero. -/
theorem sumOf_eq_zero
    {measure : V → Int}
    (zero : ∀ (key : K) value, map[key]? = some value → measure value = 0) :
    sumOf measure map = 0 := by
  refine List.sum_eq_zero ?_
  intro value member
  rcases List.mem_map.1 member with ⟨⟨key, row⟩, listed, rfl⟩
  exact zero key row
    (ExtTreeMap.mem_toList_iff_getElem?_eq_some.1 listed)

/-- A view of the values commutes with a new value. -/
theorem map_insert
    (map : ExtTreeMap K V)
    (view : V → W)
    (key : K)
    (value : V) :
    (map.insert key value).map (fun _ row => view row) =
      (map.map fun _ row => view row).insert key (view value) := by
  refine ExtTreeMap.ext_getElem? ?_
  intro other
  simp only [ExtTreeMap.getElem?_map, ExtTreeMap.getElem?_insert]
  split <;> simp

/-- A view of the values commutes with a removal. -/
theorem map_erase
    (map : ExtTreeMap K V)
    (view : V → W)
    (key : K) :
    (map.erase key).map (fun _ row => view row) =
      (map.map fun _ row => view row).erase key := by
  refine ExtTreeMap.ext_getElem? ?_
  intro other
  simp only [ExtTreeMap.getElem?_map, ExtTreeMap.getElem?_erase]
  split <;> simp

/-- Write a value under a key, or leave nothing there. -/
def place (map : ExtTreeMap K V) (key : K) : Option V → ExtTreeMap K V
  | some value => map.insert key value
  | none => map.erase key

theorem getElem?_place
    [DecidableEq K]
    (map : ExtTreeMap K V)
    (key other : K)
    (value : Option V) :
    (place map key value)[other]? =
      if key = other then value else map[other]? := by
  cases value with
  | none =>
      simp only [place, ExtTreeMap.getElem?_erase, Std.compare_eq_iff_eq]
  | some value =>
      simp only [place, ExtTreeMap.getElem?_insert, Std.compare_eq_iff_eq]

/-- Removing a key which is not there changes nothing. -/
theorem erase_absent
    {key : K}
    (absent : map[key]? = none) :
    map.erase key = map := by
  refine ExtTreeMap.ext_getElem? ?_
  intro other
  rw [ExtTreeMap.getElem?_erase]
  split
  case isTrue equal =>
    rw [Std.compare_eq_iff_eq] at equal
    rw [← equal, absent]
  case isFalse => rfl

/-- Writing exchanges the measure of what was there. -/
theorem sumOf_place
    (measure : V → Int)
    {key : K}
    {before : Option V}
    (found : map[key]? = before)
    (after : Option V) :
    sumOf measure (place map key after) =
      sumOf measure map - before.elim 0 measure + after.elim 0 measure := by
  have absent : (map.erase key)[key]? = none := by
    simp
  have erased :
      sumOf measure (map.erase key) =
        sumOf measure map - before.elim 0 measure := by
    cases before with
    | none => simp [erase_absent found]
    | some old => exact sumOf_erase measure found
  cases after with
  | none => simpa [place] using erased
  | some value =>
      have restored :
          map.insert key value = (map.erase key).insert key value := by
        refine ExtTreeMap.ext_getElem? ?_
        intro other
        simp only [ExtTreeMap.getElem?_insert, ExtTreeMap.getElem?_erase]
        split <;> rfl
      rw [place, restored, sumOf_insert_new measure absent, erased]
      rfl

/-- A view of the values commutes with a written value. -/
theorem map_place
    (map : ExtTreeMap K V)
    (view : V → W)
    (key : K)
    (value : Option V) :
    (place map key value).map (fun _ row => view row) =
      place (map.map fun _ row => view row) key (value.map view) := by
  cases value with
  | none => exact map_erase map view key
  | some value => exact map_insert map view key value

/-- Changing a value which is there writes the changed value. -/
theorem modify_eq_place
    {key : K}
    {old : V}
    (found : map[key]? = some old)
    (change : V → V) :
    map.modify key change = place map key (some (change old)) := by
  refine ExtTreeMap.ext_getElem? ?_
  intro other
  rw [ExtTreeMap.getElem?_modify, place, ExtTreeMap.getElem?_insert]
  split
  case isTrue => rw [found]; rfl
  case isFalse => rfl

/-- The later of two values written under one key stays. -/
theorem place_place
    (map : ExtTreeMap K V)
    (key : K)
    (first second : Option V) :
    place (place map key first) key second = place map key second := by
  refine ExtTreeMap.ext_getElem? ?_
  intro other
  cases first <;> cases second <;>
    simp only [place, ExtTreeMap.getElem?_insert, ExtTreeMap.getElem?_erase] <;>
      split <;> rfl

/-- The map with one value lists it. -/
theorem toList_place_empty
    (key : K)
    (value : V) :
    (place (∅ : ExtTreeMap K V) key (some value)).toList =
      [(key, value)] := by
  rw [← List.perm_singleton, List.perm_ext_iff_of_nodup (toList_nodup _)
    (List.nodup_singleton _)]
  rintro ⟨other, found⟩
  rw [ExtTreeMap.mem_toList_iff_getElem?_eq_some, place,
    ExtTreeMap.getElem?_insert, List.mem_singleton, Prod.mk.injEq]
  split
  case isTrue same =>
    rw [Std.compare_eq_iff_eq] at same
    simp [same, eq_comm]
  case isFalse different =>
    rw [Std.compare_eq_iff_eq] at different
    simp [Ne.symm different]

/-- Writing what is there changes nothing. -/
theorem place_same
    {key : K}
    {value : Option V}
    (found : map[key]? = value) :
    place map key value = map := by
  cases value with
  | none => exact erase_absent found
  | some value =>
      refine ExtTreeMap.ext_getElem? ?_
      intro other
      rw [place, ExtTreeMap.getElem?_insert]
      split
      case isTrue equal =>
        rw [Std.compare_eq_iff_eq] at equal
        rw [← equal, found]
      case isFalse => rfl

end Sums

/-! ## Tables of numbered rows -/

/-- Rows by id; the ids still to be handed out belong to no row. -/
structure Table (Row : Type) where
  rows : ExtTreeMap Nat Row
  nextId : Nat
  fresh : ∀ id, nextId ≤ id → rows[id]? = none

namespace Table

variable {Row : Type} {table : Table Row} {row : Row} {id : Nat}
    {test : Row → Bool}

/-- The table with no rows. -/
def empty : Table Row :=
  ⟨∅, 0, by simp⟩

/-- The row with the given id. -/
def find? (table : Table Row) (id : Nat) : Option Row :=
  table.rows[id]?

/-- The ids with their rows, by increasing id. -/
def entries (table : Table Row) : List (Nat × Row) :=
  table.rows.toList

/-- The number of rows. -/
def size (table : Table Row) : Nat :=
  table.rows.size

/-- Overwrite the row with the given id, if there is one. -/
def set (table : Table Row) (id : Nat) (row : Row) : Table Row where
  rows := table.rows.modify id fun _ => row
  nextId := table.nextId
  fresh := by
    intro other above
    have none := table.fresh other above
    rw [ExtTreeMap.getElem?_modify]
    split <;> simp_all

/-- Remove the row with the given id. -/
def remove (table : Table Row) (id : Nat) : Table Row where
  rows := table.rows.erase id
  nextId := table.nextId
  fresh := by
    intro other above
    rw [ExtTreeMap.getElem?_erase, table.fresh other above]
    simp

/-- Add a row with the next id. -/
def emplace (table : Table Row) (row : Row) : Table Row where
  rows := table.rows.insert table.nextId row
  nextId := table.nextId + 1
  fresh := by
    intro other above
    rw [ExtTreeMap.getElem?_insert, if_neg]
    · exact table.fresh other (by omega)
    · rw [Std.compare_eq_iff_eq]
      omega

/-- Overwriting a row which is there writes it. -/
theorem set_rows
    {old : Row}
    (found : table.find? id = some old)
    (row : Row) :
    (table.set id row).rows = place table.rows id (some row) :=
  modify_eq_place found fun _ => row

theorem find?_nextId
    (table : Table Row) :
    table.find? table.nextId = none :=
  table.fresh table.nextId (Nat.le_refl _)

/-- The first entry by id which passes a test. -/
def findBy (table : Table Row) (test : Row → Bool) : Option (Nat × Row) :=
  table.entries.find? fun entry => test entry.2

/-- What a search finds is in the table. -/
theorem find?_of_findBy
    {entry : Nat × Row}
    (found : table.findBy test = some entry) :
    table.find? entry.1 = some entry.2 := by
  have member := List.mem_of_find?_eq_some found
  exact ExtTreeMap.mem_toList_iff_getElem?_eq_some.1 member

theorem passed_of_findBy
    {entry : Nat × Row}
    (found : table.findBy test = some entry) :
    test entry.2 = true :=
  (List.find?_eq_some_iff_append.1 found).1

/-- Every row of a table has a property. -/
def All (property : Row → Prop) (table : Table Row) : Prop :=
  ∀ id row, table.find? id = some row → property row

section All

variable {property : Row → Prop}

theorem All.empty :
    (Table.empty : Table Row).All property := by
  intro id row found
  cases found

theorem All.emplace
    (all : table.All property)
    (holds : property row) :
    (table.emplace row).All property := by
  intro id other found
  have placed := getElem?_place table.rows table.nextId id (some row)
  rw [show place table.rows table.nextId (some row) =
    (table.emplace row).rows from rfl] at placed
  rw [find?, placed] at found
  split at found
  · cases found
    exact holds
  · exact all id other found

theorem All.set
    (all : table.All property)
    (holds : property row)
    (id : Nat) :
    (table.set id row).All property := by
  intro other written found
  rw [find?, Table.set, ExtTreeMap.getElem?_modify] at found
  split at found
  · rcases Option.map_eq_some_iff.1 found with ⟨_, -, rfl⟩
    exact holds
  · exact all other written found

theorem All.remove
    (all : table.All property)
    (id : Nat) :
    (table.remove id).All property := by
  intro other row found
  rw [find?, Table.remove, ExtTreeMap.getElem?_erase] at found
  split at found
  · cases found
  · exact all other row found

end All

section Holds

/-- A row of a table, under whichever id. -/
def Holds (table : Table Row) (row : Row) : Prop :=
  ∃ id, table.find? id = some row

theorem holds_emplace
    (table : Table Row)
    (row : Row) :
    (table.emplace row).Holds row := by
  refine ⟨table.nextId, ?_⟩
  rw [find?, emplace, ExtTreeMap.getElem?_insert_self]

theorem Holds.emplace
    (holds : table.Holds row)
    (other : Row) :
    (table.emplace other).Holds row := by
  rcases holds with ⟨id, found⟩
  refine ⟨id, ?_⟩
  have placed := getElem?_place table.rows table.nextId id (some other)
  rw [show place table.rows table.nextId (some other) =
    (table.emplace other).rows from rfl] at placed
  rw [find?, placed, if_neg]
  · exact found
  · rintro rfl
    rw [find?_nextId] at found
    cases found

theorem Holds.remove
    (holds : table.Holds row)
    {removed : Row}
    (found : table.find? id = some removed)
    (different : removed ≠ row) :
    (table.remove id).Holds row := by
  rcases holds with ⟨place, there⟩
  refine ⟨place, ?_⟩
  rw [find?, Table.remove, ExtTreeMap.getElem?_erase, if_neg]
  · exact there
  · intro same
    rw [Std.compare_eq_iff_eq] at same
    subst same
    rw [found] at there
    cases there
    exact different rfl

/-- A search which finds nothing leaves no row which passes the test. -/
theorem Holds.not_of_findBy
    (holds : table.Holds row)
    (none : (table.findBy test).isNone = true) :
    test row = false := by
  rcases holds with ⟨id, found⟩
  rw [Option.isNone_iff_eq_none, findBy, List.find?_eq_none] at none
  have refused := none (id, row)
    (ExtTreeMap.mem_toList_iff_getElem?_eq_some.2 found)
  exact eq_false_of_ne_true refused

end Holds

theorem sumOf_emplace
    (measure : Row → Int)
    (table : Table Row)
    (row : Row) :
    sumOf measure (table.emplace row).rows =
      sumOf measure table.rows + measure row :=
  sumOf_insert_new measure table.find?_nextId row

theorem sumOf_set
    (measure : Row → Int)
    {old : Row}
    (found : table.find? id = some old)
    (row : Row) :
    sumOf measure (table.set id row).rows =
      sumOf measure table.rows - measure old + measure row := by
  rw [set_rows found, sumOf_place measure found]
  rfl

theorem sumOf_remove
    (measure : Row → Int)
    {old : Row}
    (found : table.find? id = some old) :
    sumOf measure (table.remove id).rows =
      sumOf measure table.rows - measure old :=
  sumOf_erase measure found

theorem find?_remove
    (table : Table Row)
    (id other : Nat) :
    (table.remove id).find? other =
      if id = other then none else table.find? other :=
  getElem?_place table.rows id other none

/-- A table with a row less is smaller. -/
theorem size_remove_lt
    (found : table.find? id = some row) :
    (table.remove id).size < table.size := by
  have there : table.rows.contains id = true := by
    rw [ExtTreeMap.contains_eq_isSome_getElem?]
    exact Option.isSome_of_eq_some found
  have some : table.rows.size ≠ 0 := by
    intro empty
    rw [ExtTreeMap.eq_empty_iff_size_eq_zero.2 empty] at there
    simp at there
  change (table.rows.erase id).size < table.rows.size
  rw [ExtTreeMap.size_erase, if_pos there]
  exact Nat.sub_one_lt some

theorem find?_set
    {old : Row}
    (found : table.find? id = some old)
    (row : Row)
    (other : Nat) :
    (table.set id row).find? other =
      if id = other then some row else table.find? other := by
  rw [find?, set_rows found]
  exact getElem?_place table.rows id other (some row)

/-- One row is written anew, and the others have a property. -/
theorem All.of_set
    {property : Row → Prop}
    {old row : Row}
    (found : table.find? id = some old)
    (others : ∀ other kept, id ≠ other → table.find? other = some kept →
      property kept)
    (holds : property row) :
    (table.set id row).All property := by
  intro other kept there
  rw [find?_set found] at there
  split at there
  case isTrue =>
    cases there
    exact holds
  case isFalse different => exact others other kept different there

/-- One row is removed, and the others have a property. -/
theorem All.of_remove
    {property : Row → Prop}
    (others : ∀ other kept, id ≠ other → table.find? other = some kept →
      property kept) :
    (table.remove id).All property := by
  intro other kept there
  rw [find?_remove] at there
  split at there
  case isTrue => cases there
  case isFalse different => exact others other kept different there

/-- Overwriting a row which is not there does nothing. -/
theorem set_absent
    (missing : table.find? id = none)
    (row : Row) :
    table.set id row = table := by
  have rows : (table.set id row).rows = table.rows := by
    refine ExtTreeMap.ext_getElem? ?_
    intro other
    change (table.rows.modify id fun _ => row)[other]? = _
    rw [ExtTreeMap.getElem?_modify]
    split
    case isTrue same =>
      rw [Std.compare_eq_iff_eq] at same
      subst same
      rw [show table.rows[id]? = none from missing]
      rfl
    case isFalse => rfl
  cases table
  rw [Table.mk.injEq]
  exact ⟨rows, rfl⟩

theorem find?_emplace
    (table : Table Row)
    (row : Row)
    (other : Nat) :
    (table.emplace row).find? other =
      if table.nextId = other then some row else table.find? other :=
  getElem?_place table.rows table.nextId other (some row)

theorem holds_emplace_iff
    (table : Table Row)
    (row other : Row) :
    (table.emplace row).Holds other ↔ table.Holds other ∨ row = other := by
  constructor
  · rintro ⟨id, found⟩
    rw [find?_emplace] at found
    split at found
    · exact .inr (Option.some.inj found)
    · exact .inl ⟨id, found⟩
  · rintro (holds | rfl)
    · exact holds.emplace row
    · exact table.holds_emplace row

/-- A search which finds nothing is refused by every row. -/
theorem refused_of_findBy
    (missing : table.findBy test = none)
    {id : Nat}
    {row : Row}
    (found : table.find? id = some row) :
    test row = false := by
  have refused := List.find?_eq_none.1 missing (id, row)
    (ExtTreeMap.mem_toList_iff_getElem?_eq_some.2 found)
  exact Bool.eq_false_iff.2 refused

/-- A search finds the first row by id which passes the test. -/
theorem findBy_eq_some_iff
    {row : Row} :
    table.findBy test = some (id, row) ↔
      table.find? id = some row ∧ test row = true ∧
        ∀ other earlier, table.find? other = some earlier →
          test earlier = true → id ≤ other := by
  have forward : ∀ place first, table.findBy test = some (place, first) →
      ∀ other earlier, table.find? other = some earlier →
        test earlier = true → place ≤ other := by
    intro place first found other earlier there passed
    rcases List.find?_eq_some_iff_append.1 found with
      ⟨-, before, after, split, refused⟩
    have sorted : table.entries.Pairwise fun one two =>
        compare one.1 two.1 = .lt :=
      table.rows.ordered_keys_toList
    have listed : (other, earlier) ∈ table.entries :=
      ExtTreeMap.mem_toList_iff_getElem?_eq_some.2 there
    rw [split] at sorted listed
    rcases List.mem_append.1 listed with inside | inside
    · exact absurd passed (by simpa using refused _ inside)
    · rcases List.mem_cons.1 inside with same | later
      · exact Nat.le_of_eq (congrArg Prod.fst same).symm
      · have ordered := (List.pairwise_append.1 sorted).2.1
        have less := (List.pairwise_cons.1 ordered).1 _ later
        exact Nat.le_of_lt (Nat.compare_eq_lt.1 less)
  constructor
  · intro found
    exact ⟨find?_of_findBy found, passed_of_findBy found,
      forward id row found⟩
  · rintro ⟨found, passed, first⟩
    cases search : table.findBy test with
    | none =>
        have refused := refused_of_findBy search found
        rw [passed] at refused
        cases refused
    | some entry =>
        rcases entry with ⟨place, best⟩
        have there := find?_of_findBy search
        have before := forward place best search id row found passed
        have after := first place best there (passed_of_findBy search)
        have same : place = id := Nat.le_antisymm before after
        subst same
        rw [found] at there
        rw [Option.some.inj there]

/-- The first row by id is what a search without a test finds. -/
theorem head?_entries
    (table : Table Row) :
    table.entries.head? = table.findBy fun _ => true := by
  unfold findBy
  cases table.entries with
  | nil => rfl
  | cons entry rest => rfl

/-- A search among rows of which one has changed, but not for the test. -/
theorem findBy_set
    {old row : Row}
    (found : table.find? id = some old)
    (same : test row = test old) :
    (table.set id row).findBy test =
      (table.findBy test).map fun entry =>
        (entry.1, if id = entry.1 then row else entry.2) := by
  have rows := find?_set found row
  -- A row passes the test after the change exactly when it did before.
  have passes : ∀ other new, (table.set id row).find? other = some new →
      test new = true →
        ∃ earlier, table.find? other = some earlier ∧ test earlier = true := by
    intro other new there passed
    rw [rows] at there
    split at there
    case isTrue equal =>
      cases there
      exact ⟨old, equal ▸ found, same ▸ passed⟩
    case isFalse => exact ⟨new, there, passed⟩
  cases search : table.findBy test with
  | none =>
      rw [Option.map_none, findBy, List.find?_eq_none]
      rintro ⟨other, new⟩ listed passed
      have there := ExtTreeMap.mem_toList_iff_getElem?_eq_some.1 listed
      rcases passes other new there passed with ⟨earlier, before, did⟩
      have refused := refused_of_findBy search before
      rw [did] at refused
      cases refused
  | some entry =>
      rcases entry with ⟨place, best⟩
      rcases findBy_eq_some_iff.1 search with ⟨there, passed, first⟩
      rw [Option.map_some, findBy_eq_some_iff, rows]
      refine ⟨?_, ?_, ?_⟩
      · split
        case isTrue => rfl
        case isFalse => exact there
      · dsimp only
        split
        case isTrue equal =>
          subst equal
          rw [found] at there
          cases there
          rw [same, passed]
        case isFalse => exact passed
      · intro other new found passed
        rcases passes other new found passed with ⟨earlier, before, did⟩
        exact first other earlier before did

/-- A search among rows with a new one, which comes last. -/
theorem findBy_emplace
    (table : Table Row)
    (test : Row → Bool)
    (row : Row) :
    (table.emplace row).findBy test =
      (table.findBy test).or
        (if test row then some (table.nextId, row) else none) := by
  have rows := find?_emplace table row
  have below : ∀ id old, table.find? id = some old → id < table.nextId := by
    intro id old found
    by_contra above
    have none := table.fresh id (Nat.le_of_not_lt above)
    rw [find?, none] at found
    cases found
  cases search : table.findBy test with
  | none =>
      rw [Option.none_or]
      split
      case isTrue passed =>
        rw [findBy_eq_some_iff, rows, if_pos rfl]
        refine ⟨rfl, passed, ?_⟩
        intro other earlier there did
        rw [rows] at there
        split at there
        case isTrue same => exact Nat.le_of_eq same
        case isFalse =>
          have refused := refused_of_findBy search there
          rw [did] at refused
          cases refused
      case isFalse failed =>
        rw [findBy, List.find?_eq_none]
        rintro ⟨other, new⟩ listed passed
        have there := ExtTreeMap.mem_toList_iff_getElem?_eq_some.1 listed
        rw [← find?, rows] at there
        split at there
        case isTrue =>
          cases there
          exact failed passed
        case isFalse =>
          have refused := refused_of_findBy search there
          rw [passed] at refused
          cases refused
  | some entry =>
      rcases entry with ⟨place, best⟩
      rcases findBy_eq_some_iff.1 search with ⟨there, passed, first⟩
      rw [Option.some_or, findBy_eq_some_iff, rows, if_neg]
      · refine ⟨there, passed, ?_⟩
        intro other earlier found did
        rw [rows] at found
        split at found
        case isTrue same => exact same ▸ Nat.le_of_lt (below place best there)
        case isFalse => exact first other earlier found did
      · rintro rfl
        exact absurd (below _ best there) (Nat.lt_irrefl _)

/-! ### Keys of the rows -/

section Keys

variable {Key : Type} {key : Row → Key}

/-- No two rows have the same key. -/
def Distinct (key : Row → Key) (table : Table Row) : Prop :=
  ∀ first second row other,
    table.find? first = some row → table.find? second = some other →
      key row = key other → first = second

theorem Distinct.empty :
    (Table.empty : Table Row).Distinct key := by
  intro first second row other found
  cases found

theorem Distinct.emplace
    (distinct : table.Distinct key)
    (free : table.All fun other => key other ≠ key row) :
    (table.emplace row).Distinct key := by
  intro first second one two found there same
  rw [find?_emplace] at found there
  split at found <;> split at there
  case isTrue.isTrue last also => rw [← last, ← also]
  case isTrue.isFalse =>
    cases found
    exact absurd same.symm (free second two there)
  case isFalse.isTrue =>
    cases there
    exact absurd same (free first one found)
  case isFalse.isFalse => exact distinct first second one two found there same

/-- A row which keeps its key may change. -/
theorem Distinct.set
    (distinct : table.Distinct key)
    {old row : Row}
    (found : table.find? id = some old)
    (kept : key row = key old) :
    (table.set id row).Distinct key := by
  intro first second one two there also same
  rw [find?_set found] at there also
  split at there <;> split at also
  case isTrue.isTrue start stop => rw [← start, ← stop]
  case isTrue.isFalse start _ =>
    cases there
    exact start ▸ distinct id second old two found also (kept ▸ same)
  case isFalse.isTrue _ stop =>
    cases also
    exact stop ▸ distinct first id one old there found (same.trans kept)
  case isFalse.isFalse => exact distinct first second one two there also same

theorem Distinct.remove
    (distinct : table.Distinct key)
    (id : Nat) :
    (table.remove id).Distinct key := by
  intro first second one two there also same
  rw [find?_remove] at there also
  split at there
  · cases there
  split at also
  · cases also
  exact distinct first second one two there also same

theorem Distinct.of_subset
    {after : Table Row}
    (distinct : table.Distinct key)
    (subset : ∀ id row, after.find? id = some row →
      table.find? id = some row) :
    after.Distinct key := by
  intro first second one two there also same
  exact distinct first second one two (subset _ _ there) (subset _ _ also) same

/-- A search by key finds a row with the key. -/
theorem key_of_findBy
    [DecidableEq Key]
    {value : Key}
    {entry : Nat × Row}
    (found : table.findBy (fun row => key row = value) = some entry) :
    key entry.2 = value := by
  have passed := passed_of_findBy found
  rwa [decide_eq_true_eq] at passed

/-- Only the row which a search finds has the key. -/
theorem Distinct.others
    [DecidableEq Key]
    (distinct : table.Distinct key)
    {value : Key}
    (found : table.findBy (fun row => key row = value) = some (id, row))
    (other : Nat)
    (kept : Row)
    (different : id ≠ other)
    (there : table.find? other = some kept) :
    key kept ≠ value := by
  intro same
  exact different (distinct id other row kept (find?_of_findBy found) there
    ((key_of_findBy found).trans same.symm))

end Keys

theorem mem_entries_iff
    {row : Row} :
    (id, row) ∈ table.entries ↔ table.find? id = some row :=
  ExtTreeMap.mem_toList_iff_getElem?_eq_some

/-- A table of one entry. -/
theorem rows_of_entries
    (single : table.entries = [(id, row)]) :
    table.rows = place ∅ id (some row) :=
  ExtTreeMap.ext_toList
    (.of_eq (single.trans (toList_place_empty id row).symm))

theorem length_entries
    (table : Table Row) :
    table.entries.length = table.size :=
  ExtTreeMap.length_toList

theorem size_pos
    (found : table.find? id = some row) :
    0 < table.size := by
  rw [← length_entries]
  exact List.length_pos_of_mem (mem_entries_iff.2 found)

/-- Several rows are removed. -/
theorem find?_foldl_remove
    (entries : List (Nat × Row))
    (table : Table Row)
    (id : Nat) :
    (entries.foldl (fun table entry => table.remove entry.1) table).find? id =
      if id ∈ entries.map Prod.fst then none else table.find? id := by
  induction entries generalizing table with
  | nil => simp
  | cons entry rest induction =>
      rw [List.foldl_cons, induction, find?_remove, List.map_cons]
      by_cases later : id ∈ rest.map Prod.fst
      · rw [if_pos later, if_pos (List.mem_cons_of_mem _ later)]
      · rw [if_neg later]
        by_cases same : entry.1 = id
        · rw [if_pos same, if_pos (List.mem_cons.2 (.inl same.symm))]
        · rw [if_neg same, if_neg]
          intro member
          rcases List.mem_cons.1 member with equal | member
          · exact same equal.symm
          · exact later member

/-- Rows which a measure does not count can be removed. -/
theorem sumOf_foldl_remove
    (measure : Row → Int)
    (entries : List (Nat × Row))
    (light : ∀ id row, id ∈ entries.map Prod.fst →
      table.find? id = some row → measure row = 0) :
    sumOf measure
        (entries.foldl (fun table entry => table.remove entry.1) table).rows =
      sumOf measure table.rows := by
  induction entries generalizing table with
  | nil => rfl
  | cons entry rest induction =>
      have first : sumOf measure (table.remove entry.1).rows =
          sumOf measure table.rows := by
        cases found : table.find? entry.1 with
        | none => exact congrArg (sumOf measure) (erase_absent found)
        | some row =>
            rw [sumOf_remove measure found, light entry.1 row (by simp) found,
              Int.sub_zero]
      rw [List.foldl_cons, induction, first]
      intro id row member found
      rw [find?_remove] at found
      split at found
      · cases found
      · exact light id row (List.mem_cons_of_mem _ member) found

end Table

/-! ## Registers of named rows -/

/-- Rows by name, each with a number of its own. -/
structure Register (Row : Type) where
  rows : ExtTreeMap String Row
  nextId : Nat

namespace Register

variable {Row : Type} {register : Register Row} {row : Row}
    {test : Row → Bool}

/-- The register with no rows. -/
def empty : Register Row :=
  ⟨∅, 0⟩

/-- The row with the given name. -/
def find? (register : Register Row) (name : String) : Option Row :=
  register.rows[name]?

/-- The names with their rows, by increasing name. -/
def entries (register : Register Row) : List (String × Row) :=
  register.rows.toList

/-- The number of rows. -/
def size (register : Register Row) : Nat :=
  register.rows.size

/-- Overwrite the row with the given name, if there is one. -/
def set (register : Register Row) (name : String) (row : Row) :
    Register Row :=
  { register with rows := register.rows.modify name fun _ => row }

/-- Overwriting a row which is there writes it. -/
theorem set_rows
    {name : String}
    {old : Row}
    (found : register.find? name = some old)
    (row : Row) :
    (register.set name row).rows = place register.rows name (some row) :=
  modify_eq_place found fun _ => row

/-- Add a row under a new name. -/
def emplace (register : Register Row) (name : String) (row : Row) :
    Register Row :=
  ⟨register.rows.insert name row, register.nextId + 1⟩

/-- The first entry by name which passes a test. -/
def findBy (register : Register Row) (test : Row → Bool) :
    Option (String × Row) :=
  register.entries.find? fun entry => test entry.2

/-- What a search finds is in the register. -/
theorem find?_of_findBy
    {entry : String × Row}
    (found : register.findBy test = some entry) :
    register.find? entry.1 = some entry.2 := by
  have member := List.mem_of_find?_eq_some found
  exact ExtTreeMap.mem_toList_iff_getElem?_eq_some.1 member

theorem passed_of_findBy
    {entry : String × Row}
    (found : register.findBy test = some entry) :
    test entry.2 = true :=
  (List.find?_eq_some_iff_append.1 found).1

/-- Rows which look the same are listed in the same order. -/
theorem map_entries_congr
    {View : Type}
    {first second : Register Row}
    (view : Row → View)
    (same : ∀ name,
      (first.find? name).map view = (second.find? name).map view) :
    first.entries.map (fun entry => view entry.2) =
      second.entries.map fun entry => view entry.2 := by
  have rows : first.rows.map (fun _ row => view row) =
      second.rows.map fun _ row => view row := by
    refine ExtTreeMap.ext_getElem? fun name => ?_
    rw [ExtTreeMap.getElem?_map, ExtTreeMap.getElem?_map]
    exact same name
  have listed := congrArg (fun map => map.toList.map Prod.snd) rows
  simp only [ExtTreeMap.toList_map, List.map_map] at listed
  exact listed

theorem find?_emplace
    (register : Register Row)
    (name other : String)
    (row : Row) :
    (register.emplace name row).find? other =
      if name = other then some row else register.find? other :=
  getElem?_place register.rows name other (some row)

theorem find?_set
    {name : String}
    {old : Row}
    (found : register.find? name = some old)
    (row : Row)
    (other : String) :
    (register.set name row).find? other =
      if name = other then some row else register.find? other := by
  rw [find?, set_rows found, getElem?_place]
  rfl

theorem nodup_names
    (register : Register Row) :
    (register.entries.map Prod.fst).Nodup :=
  List.pairwise_map.2 (FiniteMap.distinct_keys register.rows)

theorem mem_entries_iff
    {name : String}
    {row : Row} :
    (name, row) ∈ register.entries ↔ register.find? name = some row :=
  ExtTreeMap.mem_toList_iff_getElem?_eq_some

theorem size_pos
    {name : String}
    (found : register.find? name = some row) :
    0 < register.size := by
  have listed := List.length_pos_of_mem (mem_entries_iff.2 found)
  rwa [entries, ExtTreeMap.length_toList] at listed

end Register

/-! ## First rows -/

/-- The first element of a list in an order of the user's. -/
def firstBy {Row : Type} (before : Row → Row → Bool) : List Row → Option Row
  | [] => none
  | row :: rest =>
      match firstBy before rest with
      | none => some row
      | some best => if before best row then some best else some row

theorem mem_of_firstBy
    {Row : Type}
    {before : Row → Row → Bool}
    {rows : List Row}
    {row : Row}
    (first : firstBy before rows = some row) :
    row ∈ rows := by
  induction rows with
  | nil => simp [firstBy] at first
  | cons head rest induction =>
      unfold firstBy at first
      split at first
      case h_1 =>
        simp only [Option.some.injEq] at first
        simp [first]
      case h_2 best found =>
        split at first
        · simp only [Option.some.injEq] at first
          subst first
          exact List.mem_cons_of_mem head (induction found)
        · simp only [Option.some.injEq] at first
          simp [first]

/-- No list with an element lacks a first one. -/
theorem eq_nil_of_firstBy
    {Row : Type}
    {before : Row → Row → Bool}
    {rows : List Row}
    (missing : firstBy before rows = none) :
    rows = [] := by
  cases rows with
  | nil => rfl
  | cons head rest =>
      unfold firstBy at missing
      split at missing
      · cases missing
      · split at missing <;> cases missing

/-- The first element has the least key when the order goes by the key. -/
theorem firstBy_least
    {Row Key : Type}
    [Preorder Key]
    {before : Row → Row → Bool}
    (key : Row → Key)
    (goes : ∀ first second, before first second = true →
      key first ≤ key second)
    (stays : ∀ first second, before first second = false →
      key second ≤ key first)
    {rows : List Row}
    {least : Row}
    (first : firstBy before rows = some least) :
    ∀ row ∈ rows, key least ≤ key row := by
  induction rows generalizing least with
  | nil => simp
  | cons head rest induction =>
      rw [List.forall_mem_cons]
      unfold firstBy at first
      split at first
      case h_1 missing =>
        cases first
        rw [eq_nil_of_firstBy missing]
        exact ⟨Preorder.le_refl _, by simp⟩
      case h_2 best found =>
        have others := induction found
        split at first
        case isTrue earlier =>
          cases first
          exact ⟨goes _ _ earlier, others⟩
        case isFalse later =>
          cases first
          have best := stays _ _ (Bool.eq_false_iff.2 later)
          exact ⟨Preorder.le_refl _,
            fun row member => Preorder.le_trans _ _ _ best (others row member)⟩

end BMChain.Foundation
