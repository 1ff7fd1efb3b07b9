import BMChain.Chainbase.Restore

/-!
# Mutating calls

`emplace`, `modify` and `remove` change the stored objects and let the
newest undo entry record the change.  `Change` says once what such a call can
do, with or without unique keys and whether or not it throws; the histories
of calls are built on it.
-/

namespace BMChain.Chainbase

open Std

variable {V : Type}

/-- The calls which change the stored objects. -/
inductive Mutation (V : Type) where
  | emplace (value : V)
  | modify (id : ObjectId) (modifier : V → V)
  | remove (id : ObjectId)

namespace GenericIndex

/--
A mutating call whose exception, if any, is caught by the caller.  `modify`
and `remove` take a reference to a stored object, so an id which is not
stored stands for no call.
-/
def mutate
    (conflicts : V → V → Bool)
    (index : GenericIndex V) :
    Mutation V → GenericIndex V
  | .emplace value => (index.emplace conflicts value).1
  | .modify id modifier => (index.modify conflicts id modifier).1
  | .remove id => index.remove id

end GenericIndex

section Headers

variable (index : GenericIndex V)

@[simp]
theorem GenericIndex.onHead_revision
    (change : UndoState V → UndoState V) :
    (index.onHead change).revision = index.revision := by
  unfold GenericIndex.onHead
  split <;> rfl

@[simp]
theorem GenericIndex.onHead_nextId
    (change : UndoState V → UndoState V) :
    (index.onHead change).nextId = index.nextId := by
  unfold GenericIndex.onHead
  split <;> rfl

@[simp]
theorem GenericIndex.onHead_indices
    (change : UndoState V → UndoState V) :
    (index.onHead change).indices = index.indices := by
  unfold GenericIndex.onHead
  split <;> rfl

theorem UndoState.onModify_revision
    (id : ObjectId)
    (value : V)
    (entry : UndoState V) :
    (entry.onModify id value).revision = entry.revision := by
  unfold UndoState.onModify
  grind

theorem UndoState.onRemove_revision
    (id : ObjectId)
    (value : V)
    (entry : UndoState V) :
    (entry.onRemove id value).revision = entry.revision := by
  unfold UndoState.onRemove
  grind

end Headers

/--
What a mutating call does, said once: it rewrites the newest entry so that
the entry records the way to the new objects as well, and without unique
keys it never loses an object.
-/
structure Change
    (conflicts : V → V → Bool)
    (index after : GenericIndex V)
    (change : UndoState V → UndoState V) : Prop where
  stack : after.stack = (index.onHead change).stack
  revision : after.revision = index.revision
  entryRevision : ∀ entry, (change entry).revision = entry.revision
  records :
    ∀ {entry before},
      Records entry before index.objects →
        Records (change entry) before after.objects
  intact :
    (∀ value held, conflicts value held = false) →
    ∀ {entry before},
      Records entry before index.objects →
      entry.Intact index.objects →
        (change entry).Intact after.objects

theorem Change.refl
    (conflicts : V → V → Bool)
    (index : GenericIndex V) :
    Change conflicts index index (fun entry => entry) where
  stack := by
    unfold GenericIndex.onHead
    split <;> simp_all
  revision := rfl
  entryRevision _ := rfl
  records recorded := recorded
  intact _ _ _ _ intact := intact

theorem emplace_change
    (conflicts : V → V → Bool)
    (index : GenericIndex V)
    (value : V) :
    ∃ change,
      Change conflicts index (index.emplace conflicts value).1 change := by
  unfold GenericIndex.emplace
  split
  case h_1 fault refused =>
    exact ⟨_, Change.refl conflicts index⟩
  case h_2 accepted =>
    refine ⟨UndoState.onCreate index.nextId, ?_, ?_, ?_, ?_, ?_⟩
    · unfold GenericIndex.onHead
      split <;> simp_all
    · simp
    · intro entry
      rfl
    · intro entry before recorded
      simpa [GenericIndex.objects] using recorded.emplace value
    · intro _ entry before recorded intact id
      have := intact id
      rw [status_onCreate]
      simp only [GenericIndex.objects, GenericIndex.onHead_indices,
        Status.Intact] at this ⊢
      grind

theorem modify_change
    (conflicts : V → V → Bool)
    (index : GenericIndex V)
    (id : ObjectId)
    (modifier : V → V) :
    ∃ change,
      Change conflicts index
        (index.modify conflicts id modifier).1 change := by
  unfold GenericIndex.modify
  split
  case h_1 absent =>
    exact ⟨_, Change.refl conflicts index⟩
  case h_2 value stored =>
    refine ⟨UndoState.onModify id value, ?_, ?_, ?_, ?_, ?_⟩
    · dsimp only
      split <;> rfl
    · dsimp only
      split <;> simp
    · exact UndoState.onModify_revision id value
    · intro entry before recorded
      dsimp only
      split
      · simpa [GenericIndex.objects] using
          recorded.modify stored (index.indices.erase id) (by grind)
      · simpa [GenericIndex.objects] using
          recorded.modify stored
            (index.indices.insert id (modifier value)) (by grind)
    · intro unconstrained entry before recorded intact other
      have free : collides conflicts index.indices id (modifier value) =
          false := by
        simp [collides_eq_false_iff, unconstrained]
      have := intact other
      rw [status_onModify]
      simp only [free, GenericIndex.objects, Status.Intact] at this ⊢
      grind

theorem remove_change
    (conflicts : V → V → Bool)
    (index : GenericIndex V)
    (id : ObjectId) :
    ∃ change, Change conflicts index (index.remove id) change := by
  unfold GenericIndex.remove
  split
  case h_1 absent =>
    exact ⟨_, Change.refl conflicts index⟩
  case h_2 value stored =>
    refine ⟨UndoState.onRemove id value, rfl, ?_, ?_, ?_, ?_⟩
    · simp
    · exact UndoState.onRemove_revision id value
    · intro entry before recorded
      simpa [GenericIndex.objects] using recorded.remove stored
    · intro _ entry before recorded intact other
      rw [status_onRemove]
      by_cases equal : id = other
      · subst equal
        have row := recorded.recorded id
        simp only [GenericIndex.objects, stored] at row
        simpa [GenericIndex.objects] using Status.Intact.remove row
      · have := intact other
        simpa [GenericIndex.objects, equal, ExtTreeMap.getElem?_erase]
          using this

/-- Every mutating call is such a change, whatever the unique keys. -/
theorem mutate_change
    (conflicts : V → V → Bool)
    (index : GenericIndex V)
    (mutation : Mutation V) :
    ∃ change,
      Change conflicts index (index.mutate conflicts mutation) change := by
  cases mutation with
  | emplace value => exact emplace_change conflicts index value
  | modify id modifier => exact modify_change conflicts index id modifier
  | remove id => exact remove_change conflicts index id

end BMChain.Chainbase
