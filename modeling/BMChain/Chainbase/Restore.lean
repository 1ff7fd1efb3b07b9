import BMChain.Chainbase.UndoRecord

/-!
# When the loops of `undo` complete

The loops restore the objects one by one, in the order of their ids, and the
container checks its unique keys at every step.  `Restorable` is the exact
condition for all the checks to pass: the objects to be restored or erased
are still stored, and none of the keys to be restored is held by an object
which is restored or erased later.
-/

namespace BMChain.Chainbase

open Std
open BMChain.Foundation
open BMChain.Foundation.FiniteMap

variable {V : Type}

/-- No two stored objects hold a unique key in common. -/
def Separate
    (conflicts : V → V → Bool)
    (indices : ExtTreeMap ObjectId V) : Prop :=
  ∀ (id other : ObjectId) (value : V) (held : V),
    indices[id]? = some value →
    indices[other]? = some held →
    id ≠ other →
    conflicts value held = false

/-- The condition under which `undo` can restore every object in its turn. -/
structure Restorable
    (conflicts : V → V → Bool)
    (entry : UndoState V)
    (indices : ExtTreeMap ObjectId V) : Prop where
  updated_stored : ∀ id ∈ entry.oldValues, id ∈ indices
  new_stored : ∀ id ∈ entry.newIds, id ∈ indices
  keys_free :
    ∀ (id other : ObjectId) (value held : V),
      entry.oldValues[id]? = some value →
      other ∈ entry.newIds ∨ (other ∈ entry.oldValues ∧ id < other) →
      indices[other]? = some held →
      conflicts value held = false

/-! ## The checks of the container -/

theorem collides_eq_false_iff
    (conflicts : V → V → Bool)
    (indices : ExtTreeMap ObjectId V)
    (id : ObjectId)
    (value : V) :
    collides conflicts indices id value = false ↔
      ∀ (other : ObjectId) (held : V),
        indices[other]? = some held →
        other ≠ id →
        conflicts value held = false := by
  simp only [collides, List.any_eq_false, Prod.forall,
    ExtTreeMap.mem_toList_iff_getElem?_eq_some]
  simp

theorem modifyFault_eq_none_iff
    (conflicts : V → V → Bool)
    (indices : ExtTreeMap ObjectId V)
    (item : ObjectId × V) :
    modifyFault conflicts indices item = none ↔
      item.1 ∈ indices ∧
      collides conflicts indices item.1 item.2 = false := by
  unfold modifyFault
  grind

theorem emplaceFault_eq_none_iff
    (conflicts : V → V → Bool)
    (indices : ExtTreeMap ObjectId V)
    (item : ObjectId × V) :
    emplaceFault conflicts indices item = none ↔
      item.1 ∉ indices ∧
      collides conflicts indices item.1 item.2 = false := by
  unfold emplaceFault
  grind

theorem eraseFault_eq_none_iff
    (indices : ExtTreeMap ObjectId V)
    (id : ObjectId) :
    eraseFault indices id = none ↔ id ∈ indices := by
  unfold eraseFault
  grind

/-! ## The container half way through a loop -/

section Prefix

variable {values : ExtTreeMap ObjectId V}
variable {visited rest : List (ObjectId × V)}
variable {item : ObjectId × V}

theorem item_of_split
    (split : values.toList = visited ++ item :: rest) :
    values[item.1]? = some item.2 := by
  rw [← ExtTreeMap.mem_toList_iff_getElem?_eq_some]
  simp [split]

/-- The entries visited before `item` are those with a smaller id. -/
theorem mem_visited_iff
    (split : values.toList = visited ++ item :: rest)
    (id : ObjectId)
    (value : V) :
    (id, value) ∈ visited ↔
      values[id]? = some value ∧ id < item.1 := by
  have ordered := values.ordered_keys_toList
  simp only [split, List.pairwise_append, List.pairwise_cons,
    List.mem_cons, Nat.compare_eq_lt] at ordered
  obtain ⟨-, ⟨larger, -⟩, smaller⟩ := ordered
  rw [← ExtTreeMap.mem_toList_iff_getElem?_eq_some, split]
  constructor
  · intro member
    exact ⟨by simp [member], smaller _ member item (.inl rfl)⟩
  · rintro ⟨member, below⟩
    simp only [List.mem_append, List.mem_cons] at member
    rcases member with inVisited | rfl | inRest
    · exact inVisited
    · exact absurd below (Nat.lt_irrefl id)
    · exact absurd below (Nat.not_lt.2 (larger _ inRest).le)

/-- Half way through a restoring loop, smaller ids have been written. -/
theorem lookup_visited
    (split : values.toList = visited ++ item :: rest)
    (indices : ExtTreeMap ObjectId V)
    (id : ObjectId) :
    (visited.foldl put indices)[id]? =
      if id < item.1 then values[id]?.or indices[id]?
      else indices[id]? := by
  have distinct :
      visited.Pairwise fun first second => first.1 ≠ second.1 := by
    have all := distinct_keys values
    rw [split, List.pairwise_append] at all
    exact all.1
  obtain ⟨written, skipped⟩ :=
    foldl_local Prod.fst lookup put (fun written _ => some written.2)
      lookup_put_self lookup_put_ne visited distinct indices
  cases found : values[id]? with
  | none =>
      have absent := skipped id ?_
      · simpa [lookup] using absent
      · rintro ⟨other, value⟩ member rfl
        have := (mem_visited_iff split other value).1 member
        simp [found] at this
  | some value =>
      by_cases below : id < item.1
      · simpa [lookup, below] using
          written (id, value)
            ((mem_visited_iff split id value).2 ⟨found, below⟩)
      · have absent := skipped id ?_
        · simpa [lookup, below] using absent
        · rintro ⟨other, value⟩ member rfl
          exact below ((mem_visited_iff split other value).1 member).2

/-- Half way through an erasing loop, the next id is as it was. -/
theorem lookup_not_erased
    {ids : ExtTreeSet ObjectId}
    {erased later : List ObjectId}
    {id : ObjectId}
    (split : ids.toList = erased ++ id :: later)
    (indices : ExtTreeMap ObjectId V) :
    (erased.foldl ExtTreeMap.erase indices)[id]? = indices[id]? := by
  have distinct := distinct_ids ids
  simp only [split, List.pairwise_append, List.mem_cons] at distinct
  obtain ⟨inside, -, across⟩ := distinct
  obtain ⟨-, skipped⟩ :=
    foldl_local (fun id => id) lookup ExtTreeMap.erase
      (fun _ _ => (none : Option V)) lookup_erase_self lookup_erase_ne
      erased inside indices
  exact skipped id fun other member => across other member id (.inl rfl)

end Prefix

/-! ## The three loops -/

section Loops

variable {conflicts : V → V → Bool}
variable {entry : UndoState V}
variable {before after : Objects V}

/-- The first loop completes if the old values fit, each in its turn. -/
theorem modifyFault_of_restorable
    (records : Records entry before after)
    (separate : Separate conflicts before.indices)
    (restorable : Restorable conflicts entry after.indices)
    {visited rest : List (ObjectId × V)}
    {item : ObjectId × V}
    (split : entry.oldValues.toList = visited ++ item :: rest) :
    modifyFault conflicts (visited.foldl put after.indices) item =
      none := by
  have old := item_of_split split
  rw [modifyFault_eq_none_iff, collides_eq_false_iff]
  constructor
  · have stored := restorable.updated_stored item.1 (by grind)
    have same := lookup_visited split after.indices item.1
    grind
  · intro other held found different
    rw [lookup_visited split] at found
    have wasItem := (records.before_of_old old).1
    by_cases earlier : other < item.1 ∧ other ∈ entry.oldValues
    · -- The other object already has its old key back.
      obtain ⟨value, oldOther⟩ :
          ∃ value, entry.oldValues[other]? = some value := by grind
      have wasOther := (records.before_of_old oldOther).1
      have : held = value := by grind
      exact separate item.1 other item.2 held wasItem (this ▸ wasOther)
        (Ne.symm different)
    · have stored : after.indices[other]? = some held := by grind
      rcases records.origin stored with new | updated | wasOther
      · exact restorable.keys_free item.1 other item.2 held old
          (.inl new) stored
      · refine restorable.keys_free item.1 other item.2 held old
          (.inr ⟨updated, ?_⟩) stored
        grind
      · exact separate item.1 other item.2 held wasItem wasOther
          (Ne.symm different)

/-- The first loop can only complete in that case. -/
theorem keys_free_of_modifyFault
    (records : Records entry before after)
    (checks :
      ∀ visited item rest,
        entry.oldValues.toList = visited ++ item :: rest →
          modifyFault conflicts (visited.foldl put after.indices) item =
            none)
    {id : ObjectId}
    {value : V}
    (old : entry.oldValues[id]? = some value) :
    id ∈ after.indices ∧
      ∀ (other : ObjectId) (held : V),
        other ∈ entry.newIds ∨ (other ∈ entry.oldValues ∧ id < other) →
        after.indices[other]? = some held →
        conflicts value held = false := by
  obtain ⟨visited, rest, split⟩ :=
    List.append_of_mem
      (ExtTreeMap.mem_toList_iff_getElem?_eq_some.2 old)
  have check := checks visited (id, value) rest split
  rw [modifyFault_eq_none_iff, collides_eq_false_iff] at check
  obtain ⟨stored, free⟩ := check
  have lookupAt := lookup_visited split after.indices
  constructor
  · have := lookupAt id
    grind
  · intro other held later found
    have notNew := (records.before_of_old old).2
    refine free other held ?_ ?_
    · rw [lookupAt other]
      rcases later with new | ⟨updated, above⟩
      · -- A new object has no old value, so the loop has not touched it.
        have : entry.oldValues[other]? = none := by
          rw [Option.eq_none_iff_forall_ne_some]
          intro was oldOther
          exact (records.before_of_old oldOther).2 new
        grind
      · grind
    · grind

/-- What the container holds when the last loop begins. -/
theorem before_of_erased
    (records : Records entry before after)
    {id : ObjectId}
    {value : V}
    (stored :
      (entry.newIds.toList.foldl ExtTreeMap.erase
        (entry.oldValues.toList.foldl put after.indices))[id]? =
        some value) :
    before.indices[id]? = some value ∧
      entry.removedValues[id]? = none := by
  rw [lookup_erase_loop, lookup_put_loop] at stored
  have notRemoved : entry.removedValues[id]? = none := by
    rw [Option.eq_none_iff_forall_ne_some]
    intro was removed
    have := records.before_of_removed removed
    grind
  refine ⟨?_, notRemoved⟩
  cases old : entry.oldValues[id]? with
  | some was =>
      have := records.before_of_old old
      grind
  | none =>
      have stillStored : after.indices[id]? = some value := by grind
      have := records.origin stillStored
      grind

/-- The erasing loop completes exactly when every new object is stored. -/
theorem eraseFault_iff
    (records : Records entry before after) :
    (∀ erased id later,
      entry.newIds.toList = erased ++ id :: later →
        eraseFault
          (erased.foldl ExtTreeMap.erase
            (entry.oldValues.toList.foldl put after.indices)) id = none) ↔
      ∀ id ∈ entry.newIds, id ∈ after.indices := by
  have same
      {erased later : List ObjectId}
      {id : ObjectId}
      (new : id ∈ entry.newIds)
      (split : entry.newIds.toList = erased ++ id :: later) :
      eraseFault
          (erased.foldl ExtTreeMap.erase
            (entry.oldValues.toList.foldl put after.indices)) id = none ↔
        id ∈ after.indices := by
    have notOld : entry.oldValues[id]? = none := by
      rw [Option.eq_none_iff_forall_ne_some]
      intro was old
      exact (records.before_of_old old).2 new
    rw [eraseFault_eq_none_iff, ExtTreeMap.mem_iff_isSome_getElem?,
      lookup_not_erased split, lookup_put_loop, notOld, Option.none_or,
      ← ExtTreeMap.mem_iff_isSome_getElem?]
  constructor
  · intro checks id new
    obtain ⟨erased, later, split⟩ :=
      List.append_of_mem (ExtTreeSet.mem_toList.2 new)
    exact (same new split).1 (checks erased id later split)
  · intro stored erased id later split
    have new : id ∈ entry.newIds := by
      rw [← ExtTreeSet.mem_toList, split]
      simp
    exact (same new split).2 (stored id new)

/-- The last loop always completes. -/
theorem emplaceFault_of_records
    (records : Records entry before after)
    (separate : Separate conflicts before.indices)
    {visited rest : List (ObjectId × V)}
    {item : ObjectId × V}
    (split : entry.removedValues.toList = visited ++ item :: rest) :
    emplaceFault conflicts
      (visited.foldl put
        (entry.newIds.toList.foldl ExtTreeMap.erase
          (entry.oldValues.toList.foldl put after.indices))) item =
      none := by
  have removed := item_of_split split
  have wasItem := (records.before_of_removed removed).1
  rw [emplaceFault_eq_none_iff, collides_eq_false_iff]
  simp only [ExtTreeMap.mem_iff_isSome_getElem?, lookup_visited split,
    Nat.lt_irrefl, if_false]
  constructor
  · intro stored
    obtain ⟨value, found⟩ := Option.isSome_iff_exists.1 stored
    have := (before_of_erased records found).2
    simp [removed] at this
  · intro other held found different
    have wasOther : before.indices[other]? = some held := by
      cases removedOther : entry.removedValues[other]? with
      | some was =>
          have := records.before_of_removed removedOther
          by_cases earlier : other < item.1
          · grind
          · rw [if_neg earlier] at found
            exact (before_of_erased records found).1
      | none =>
          refine (before_of_erased records ?_).1
          grind
    exact separate item.1 other item.2 held wasItem wasOther
      (Ne.symm different)

/--
The loops of `undo` complete exactly when the entry is restorable, and then
they return the container the session began with.
-/
theorem restore_eq_ok_iff
    (records : Records entry before after)
    (separate : Separate conflicts before.indices)
    (indices : ExtTreeMap ObjectId V) :
    GenericIndex.restore conflicts after.indices entry = .ok indices ↔
      Restorable conflicts entry after.indices ∧
      indices = before.indices := by
  have restored :
      entry.removedValues.toList.foldl put
        (entry.newIds.toList.foldl ExtTreeMap.erase
          (entry.oldValues.toList.foldl put after.indices)) =
        before.indices :=
    ExtTreeMap.ext_getElem? records.restored_lookup
  unfold GenericIndex.restore
  simp only [bind_eq_ok_iff, guardedFold_eq_ok_iff]
  constructor
  · rintro ⟨_, ⟨oldChecks, rfl⟩, _, ⟨newChecks, rfl⟩, -, rfl⟩
    have free := @keys_free_of_modifyFault _ _ _ _ _ records oldChecks
    refine ⟨⟨?_, (eraseFault_iff records).1 newChecks, ?_⟩, restored⟩
    · intro id member
      obtain ⟨value, old⟩ :=
        Option.isSome_iff_exists.1
          (ExtTreeMap.mem_iff_isSome_getElem?.1 member)
      exact (free old).1
    · intro id other value held old later found
      exact (free old).2 other held later found
  · rintro ⟨restorable, rfl⟩
    refine ⟨_, ⟨?_, rfl⟩, _, ⟨?_, rfl⟩, ?_, restored.symm⟩
    · intro visited item rest split
      exact modifyFault_of_restorable records separate restorable split
    · exact (eraseFault_iff records).2 restorable.new_stored
    · intro visited item rest split
      exact emplaceFault_of_records records separate split

end Loops

end BMChain.Chainbase
