import BMChain.Chainbase.Mutation

/-!
# Undo and unique secondary keys

The objects of an index with a unique secondary key are restored one after
the other, and the container checks the key each time.  A key which was
handed from one object to another during the session may still be taken when
its first owner is restored, and a colliding modification has erased an
object whose old value stays recorded.  This file proves that nothing else
can go wrong.
-/

namespace BMChain.Chainbase

open Std
open BMChain.Foundation

variable {V : Type}

variable {indices : ExtTreeMap ObjectId V} {entry : UndoState V}

/-! ## Sessions -/

/-- A sequence of mutating calls whose exceptions are caught. -/
def GenericIndex.mutateAll
    (conflicts : V → V → Bool)
    (index : GenericIndex V)
    (mutations : List (Mutation V)) :
    GenericIndex V :=
  mutations.foldl (GenericIndex.mutate conflicts) index

/--
The undo entry on top of the stack records the whole session, and the rest
of the stack is untouched.
-/
structure SessionOpen
    (start current : GenericIndex V)
    (entry : UndoState V) : Prop where
  stack : current.stack = entry :: start.stack
  revision : current.revision = start.revision + 1
  records : Records entry start.objects current.objects

theorem SessionOpen.start
    {start : GenericIndex V}
    (below : start.objects.IdsBelow) :
    SessionOpen start start.startUndoSession
      (UndoState.fresh start.nextId (start.revision + 1)) where
  stack := rfl
  revision := rfl
  records := Records.fresh below _

/-- One mutating call keeps the session open, whether it throws or not. -/
theorem SessionOpen.mutate
    {conflicts : V → V → Bool}
    {start current : GenericIndex V}
    (session : SessionOpen start current entry)
    (mutation : Mutation V) :
    ∃ entry',
      SessionOpen start (current.mutate conflicts mutation) entry' := by
  obtain ⟨change, changed⟩ := mutate_change conflicts current mutation
  refine ⟨change entry, ?_, ?_, changed.records session.records⟩
  · rw [changed.stack]
    simp [GenericIndex.onHead, session.stack]
  · exact changed.revision.trans session.revision

theorem SessionOpen.mutateAll
    (conflicts : V → V → Bool)
    {start current : GenericIndex V}
    (session : SessionOpen start current entry)
    (mutations : List (Mutation V)) :
    ∃ entry',
      SessionOpen start (current.mutateAll conflicts mutations) entry' := by
  induction mutations generalizing current entry with
  | nil => exact ⟨entry, session⟩
  | cons mutation rest induction =>
      obtain ⟨entry', next⟩ := session.mutate mutation
      exact induction next

variable {K : Type} [DecidableEq K]

/-! ## Indices with a secondary key -/

/-- Two objects conflict when they have the same secondary key. -/
def sameKey (key : V → K) (value held : V) : Bool :=
  decide (key value = key held)

/-- An index as the container keeps it: ids and secondary keys are unique. -/
structure KeyedIndex (key : V → K) where
  index : GenericIndex V
  below : index.objects.IdsBelow
  separate : Separate (sameKey key) index.indices

/-- Storing a value which the container accepts keeps the keys unique. -/
theorem Separate.insert
    {key : V → K}
    (separate : Separate (sameKey key) indices)
    {id : ObjectId}
    {value : V}
    (free : collides (sameKey key) indices id value = false) :
    Separate (sameKey key) (indices.insert id value) := by
  rw [collides_eq_false_iff] at free
  intro first second value₁ value₂ found₁ found₂ different
  have old := separate first second value₁ value₂
  have free₁ := free first value₁
  have free₂ := free second value₂
  simp only [sameKey, decide_eq_false_iff_not] at *
  grind

theorem Separate.erase
    {conflicts : V → V → Bool}
    (separate : Separate conflicts indices)
    (id : ObjectId) :
    Separate conflicts (indices.erase id) := by
  intro first second value₁ value₂ found₁ found₂ different
  have old := separate first second value₁ value₂
  grind

theorem mutate_separate
    {key : V → K}
    {index : GenericIndex V}
    (separate : Separate (sameKey key) index.indices)
    (mutation : Mutation V) :
    Separate (sameKey key)
      (index.mutate (sameKey key) mutation).indices := by
  cases mutation with
  | emplace value =>
      simp only [GenericIndex.mutate]
      unfold GenericIndex.emplace
      split
      · exact separate
      · rename_i accepted
        rw [emplaceFault_eq_none_iff] at accepted
        simpa using separate.insert accepted.2
  | modify id modifier =>
      simp only [GenericIndex.mutate]
      unfold GenericIndex.modify
      split
      · exact separate
      · dsimp only
        split
        · exact separate.erase id
        · rename_i free
          exact separate.insert (by simpa using free)
  | remove id =>
      simp only [GenericIndex.mutate]
      unfold GenericIndex.remove
      split
      · exact separate
      · exact separate.erase id

/-- Mutating calls, also those which throw, stay among keyed indices. -/
def KeyedIndex.mutate
    {key : V → K}
    (keyed : KeyedIndex key)
    (mutation : Mutation V) :
    KeyedIndex key where
  index := keyed.index.mutate (sameKey key) mutation
  below := by
    obtain ⟨change, changed⟩ :=
      mutate_change (sameKey key) keyed.index mutation
    exact (changed.records (Records.fresh keyed.below 0)).after_lt
  separate := mutate_separate keyed.separate mutation

/-! ## Undoing a session -/

/-- The state in which the caller undoes the session. -/
def KeyedIndex.afterSession
    {key : V → K}
    (start : KeyedIndex key)
    (mutations : List (Mutation V)) :
    GenericIndex V :=
  start.index.startUndoSession.mutateAll (sameKey key) mutations

/-- `undo` completes and the objects are those the session began with. -/
def UndoRestores
    {key : V → K}
    (start : KeyedIndex key)
    (mutations : List (Mutation V)) : Prop :=
  ∃ undone,
    (start.afterSession mutations).undo (sameKey key) = .ok undone ∧
    undone.indices = start.index.indices

/--
When `undo` begins, every object which the session updated or created is
still stored, and no key to be restored is held by a created object or by an
updated object with a larger id.
-/
def KeysReturnable
    (key : V → K)
    (current : GenericIndex V) : Prop :=
  ∃ entry older,
    current.stack = entry :: older ∧
    Restorable (sameKey key) entry current.indices

/--
For every index and every sequence of calls in a session, undoing completes
and restores the objects exactly when the keys can be returned in turn.
-/
theorem undo_restores_iff
    {key : V → K}
    (start : KeyedIndex key)
    (mutations : List (Mutation V)) :
    UndoRestores start mutations ↔
      KeysReturnable key (start.afterSession mutations) := by
  obtain ⟨entry, session⟩ :=
    (SessionOpen.start start.below).mutateAll (sameKey key) mutations
  change SessionOpen start.index (start.afterSession mutations) entry
    at session
  have loops :=
    restore_eq_ok_iff session.records start.separate
      start.index.indices
  unfold UndoRestores KeysReturnable GenericIndex.undo
  simp only [session.stack, bind_eq_ok_iff]
  constructor
  · rintro ⟨undone, ⟨indices, restored, undone_eq⟩, same⟩
    obtain rfl : undone.indices = indices := by
      cases undone_eq
      rfl
    exact ⟨entry, _, rfl, (loops.1 (same ▸ restored)).1⟩
  · rintro ⟨_, _, shape, restorable⟩
    obtain ⟨rfl, rfl⟩ := by simpa using shape
    exact ⟨_, ⟨_, loops.2 ⟨restorable, rfl⟩, rfl⟩, rfl⟩

theorem separate_single :
    Separate (sameKey fun value : Nat => value)
      ((∅ : ExtTreeMap ObjectId Nat).insert 0 1) := by
  intro first second value held found₁ found₂ different
  grind

/-- One object with key 1. -/
def singleKey : KeyedIndex (fun value : Nat => value) where
  index := ⟨[], 0, 1, (∅ : ExtTreeMap ObjectId Nat).insert 0 1⟩
  below := by
    intro id member
    simp [GenericIndex.objects] at member
    simp [GenericIndex.objects, ← member]
  separate := separate_single

/--
A session gives the object another key and creates a second object with the
first key; undoing meets the second object when it restores the first.
-/
theorem undo_fails_after_handover :
    ¬ UndoRestores singleKey
        [.modify 0 (fun _ => 2), .emplace 1] := by
  rintro ⟨undone, completed, -⟩
  have refused :
      (singleKey.afterSession
        [.modify 0 (fun _ => 2), .emplace 1]).undo
          (sameKey fun value : Nat => value) = .error .uniqueness := by
    rfl
  rw [refused] at completed
  cases completed

end BMChain.Chainbase
