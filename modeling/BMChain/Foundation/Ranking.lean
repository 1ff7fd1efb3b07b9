import Mathlib.Data.List.Sort
import Mathlib.Data.List.Nodup
import Mathlib.Data.List.Perm.Subperm

/-!
# Swaps, selections and order statistics of lists

Swapping two of the first elements of a list permutes these elements, what is
selected from a list in some order is a part of it, and an element of the
sorted list has all later ones above it.
-/

namespace BMChain.Foundation

variable {Item : Type}

variable {fallback : Item} {count : Nat} {items : List Item}

/-! ## Swaps -/

/-- Exchange the elements of a list at two places. -/
def swapAt (items : List Item) (fallback : Item) (first second : Nat) :
    List Item :=
  (items.set first (items.getD second fallback)).set second
    (items.getD first fallback)

theorem length_swapAt
    (items : List Item)
    (fallback : Item)
    (first second : Nat) :
    (swapAt items fallback first second).length = items.length := by
  simp only [swapAt, List.length_set]

theorem take_swapAt_perm
    (fallback : Item)
    {count first second : Nat}
    (fits : count ≤ items.length)
    (firstIn : first < count)
    (secondIn : second < count) :
    ((swapAt items fallback first second).take count).Perm
      (items.take count) := by
  have shorter : (items.take count).length = count :=
    List.length_take_of_le fits
  have swapped := List.set_set_perm
    (show first < (items.take count).length by omega)
    (show second < (items.take count).length by omega)
  rw [List.getElem_take, List.getElem_take] at swapped
  simp only [swapAt, List.take_set, List.getD_eq_getElem?_getD,
    List.getElem?_eq_getElem (Nat.lt_of_lt_of_le firstIn fits),
    List.getElem?_eq_getElem (Nat.lt_of_lt_of_le secondIn fits),
    Option.getD_some]
  exact swapped

/-- Swaps among the first elements, one after another, permute them. -/
theorem take_swaps_perm
    {places : List Nat}
    (target : Nat → Nat)
    (within : ∀ place ∈ places, place < count ∧ target place < count)
    (fits : count ≤ items.length) :
    ((places.foldl
      (fun items place => swapAt items fallback place (target place))
      items).take count).Perm (items.take count) := by
  induction places generalizing items with
  | nil => exact .refl _
  | cons place rest induction =>
      have here := within place List.mem_cons_self
      have fitsThen :
          count ≤ (swapAt items fallback place (target place)).length := by
        rw [length_swapAt]
        exact fits
      have others := induction
        (fun other member => within other (List.mem_cons_of_mem _ member))
        fitsThen
      exact others.trans (take_swapAt_perm fallback fits here.1 here.2)

theorem length_swaps
    (places : List Nat)
    (target : Nat → Nat)
    (items : List Item) :
    (places.foldl
      (fun items place => swapAt items fallback place (target place))
      items).length = items.length := by
  induction places generalizing items with
  | nil => rfl
  | cons place rest induction =>
      rw [List.foldl_cons, induction, length_swapAt]

/-! ## Selections -/

/-- A part of a list has different images if the list has. -/
theorem nodup_map_of_subperm
    {Image : Type}
    {image : Item → Image}
    {part items : List Item}
    (selected : part.Subperm items)
    (distinct : (items.map image).Nodup) :
    (part.map image).Nodup := by
  rcases selected with ⟨listed, permuted, included⟩
  exact (permuted.map image).nodup_iff.1
    (distinct.sublist (included.map image))

/-- The front of what a test leaves of a sorted list is a part of the list. -/
theorem take_filter_subperm
    {items order : List Item}
    (sorted : order.Perm items)
    (test : Item → Bool)
    (count : Nat) :
    ((order.filter test).take count).Subperm items :=
  ((List.take_sublist _ _).trans List.filter_sublist).subperm.trans
    sorted.subperm

/-! ## Order statistics -/

/-- All elements of the sorted list from a place on are at least as great. -/
theorem length_sub_le_countP
    {values : List Nat}
    {place value : Nat}
    (chosen : (values.insertionSort (· ≤ ·))[place]? = some value) :
    values.length - place ≤ values.countP (value ≤ ·) := by
  have sorted := List.pairwise_insertionSort (· ≤ ·) values
  have permuted := List.perm_insertionSort (· ≤ ·) values
  rcases List.getElem?_eq_some_iff.1 chosen with ⟨within, rfl⟩
  have tail : ∀ other ∈ (values.insertionSort (· ≤ ·)).drop place,
      (values.insertionSort (· ≤ ·))[place] ≤ other := by
    intro other member
    rcases List.mem_iff_getElem.1 member with ⟨index, inside, rfl⟩
    rw [List.getElem_drop]
    exact sorted.sortedLE.getElem_le_getElem_of_le (Nat.le_add_right _ _)
  calc values.length - place
      = ((values.insertionSort (· ≤ ·)).drop place).length := by
        rw [List.length_drop, permuted.length_eq]
    _ = ((values.insertionSort (· ≤ ·)).drop place).countP
          ((values.insertionSort (· ≤ ·))[place] ≤ ·) := by
        refine (List.countP_eq_length.2 fun other member => ?_).symm
        exact decide_eq_true (tail other member)
    _ ≤ (values.insertionSort (· ≤ ·)).countP
          ((values.insertionSort (· ≤ ·))[place] ≤ ·) :=
        (List.drop_sublist place _).countP_le
    _ = values.countP ((values.insertionSort (· ≤ ·))[place] ≤ ·) :=
        permuted.countP_eq _

end BMChain.Foundation
