import Mathlib.Tactic.Common

/-!
# Finite maps and local loops

Ordered containers are represented by the extensional search trees of the
standard library: two maps are equal exactly when every lookup agrees, and
`toList` lists the entries by increasing key.

A loop whose body only touches what belongs to the current key acts
pointwise.  `foldl_local` states this once for an arbitrary state and an
arbitrary notion of what a key can see of it; the loops over a whole map or
set are instances.
-/

namespace BMChain.Foundation.FiniteMap

open Std

section LocalLoop

variable {State Item Key View : Type}
variable (key : Item → Key)
variable (view : State → Key → View)
variable (body : State → Item → State)
variable (effect : Item → View → View)

/--
A loop over items with distinct keys, whose body changes only what its own
key sees, changes every visited key once and leaves the others alone.
-/
theorem foldl_local
    (own :
      ∀ state item,
        view (body state item) (key item) =
          effect item (view state (key item)))
    (other :
      ∀ state item place,
        key item ≠ place → view (body state item) place = view state place)
    (items : List Item)
    (distinct :
      items.Pairwise fun first second => key first ≠ key second)
    (state : State) :
    (∀ item ∈ items,
      view (items.foldl body state) (key item) =
        effect item (view state (key item))) ∧
    (∀ place, (∀ item ∈ items, key item ≠ place) →
      view (items.foldl body state) place = view state place) := by
  induction items generalizing state with
  | nil => simp
  | cons head rest induction =>
      rw [List.pairwise_cons] at distinct
      obtain ⟨fresh, distinct⟩ := distinct
      obtain ⟨visited, skipped⟩ := induction distinct (body state head)
      simp only [List.foldl_cons, List.forall_mem_cons]
      refine ⟨⟨?_, ?_⟩, ?_⟩
      · rw [skipped (key head) fun item member =>
          (fresh item member).symm]
        exact own state head
      · intro item member
        rw [visited item member,
          other state head (key item) (fresh item member)]
      · rintro place ⟨notHead, notRest⟩
        rw [skipped place notRest, other state head place notHead]

/-- A loop keeps whatever its body keeps. -/
theorem foldl_unchanged
    {Value : Type}
    (observe : State → Value)
    (unchanged : ∀ state item, observe (body state item) = observe state)
    (items : List Item)
    (state : State) :
    observe (items.foldl body state) = observe state := by
  induction items generalizing state with
  | nil => rfl
  | cons head rest induction =>
      rw [List.foldl_cons, induction, unchanged]

end LocalLoop

section Maps

variable {K V : Type} [Ord K] [TransOrd K] [LawfulEqOrd K]

theorem distinct_keys
    (map : ExtTreeMap K V) :
    map.toList.Pairwise (fun first second => first.1 ≠ second.1) := by
  refine map.distinct_keys_toList.imp ?_
  intro first second different equal
  exact different (compare_eq_iff_eq.2 equal)

theorem distinct_ids
    (set : ExtTreeSet K) :
    set.toList.Pairwise (fun first second => first ≠ second) := by
  refine set.distinct_toList.imp ?_
  intro first second different equal
  exact different (compare_eq_iff_eq.2 equal)

/-- A local loop over all entries of a map, seen from one key. -/
theorem foldl_map_local
    {State View : Type}
    (view : State → K → View)
    (body : State → K × V → State)
    (effect : V → View → View)
    (own :
      ∀ state item,
        view (body state item) item.1 = effect item.2 (view state item.1))
    (other :
      ∀ state item place,
        item.1 ≠ place → view (body state item) place = view state place)
    (map : ExtTreeMap K V)
    (state : State)
    (place : K) :
    view (map.toList.foldl body state) place =
      match map[place]? with
      | some value => effect value (view state place)
      | none => view state place := by
  obtain ⟨visited, skipped⟩ :=
    foldl_local Prod.fst view body (fun item => effect item.2)
      own other map.toList (distinct_keys map) state
  cases found : map[place]? with
  | some value =>
      exact visited (place, value)
        (ExtTreeMap.mem_toList_iff_getElem?_eq_some.2 found)
  | none =>
      refine skipped place ?_
      rintro ⟨first, value⟩ member rfl
      rw [ExtTreeMap.mem_toList_iff_getElem?_eq_some] at member
      simp [member] at found

/-- A local loop over all members of a set, seen from one key. -/
theorem foldl_set_local
    {State View : Type}
    (view : State → K → View)
    (body : State → K → State)
    (effect : View → View)
    (own :
      ∀ state item, view (body state item) item = effect (view state item))
    (other :
      ∀ state item place,
        item ≠ place → view (body state item) place = view state place)
    (set : ExtTreeSet K)
    (state : State)
    (place : K) :
    view (set.toList.foldl body state) place =
      if place ∈ set then effect (view state place) else view state place := by
  obtain ⟨visited, skipped⟩ :=
    foldl_local id view body (fun _ => effect)
      own other set.toList (distinct_ids set) state
  split
  case isTrue member =>
    exact visited place (ExtTreeSet.mem_toList.2 member)
  case isFalse absent =>
    refine skipped place ?_
    rintro item member rfl
    exact absent (ExtTreeSet.mem_toList.1 member)

end Maps

end BMChain.Foundation.FiniteMap
