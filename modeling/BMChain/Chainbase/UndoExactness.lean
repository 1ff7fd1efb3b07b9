import BMChain.Chainbase.Mutation
import BMChain.Foundation.SnapshotStack

/-!
# Undo exactness

An index without further unique keys is compared with a ghost stack of
snapshots.  Every call keeps the stacks aligned: entry by entry, the undo
stack records the way from one snapshot to the next and from the newest
snapshot to the stored objects.  Undoing therefore never fails and returns
to the newest snapshot, for every history of nested sessions.
-/

namespace BMChain.Chainbase

open Std
open BMChain.Foundation

variable {V : Type}

variable {snapshots ghost : List (Snapshot (Objects V))}

variable {current : Objects V}

/-- The calls made on an index. -/
inductive Call (V : Type) where
  | mutation (call : Mutation V)
  | startUndoSession
  | undo
  | squash
  | commit (revision : Int)

namespace GenericIndex

/-- One call. -/
def call
    (conflicts : V → V → Bool)
    (index : GenericIndex V) :
    Call V → Except Fault (GenericIndex V)
  | .mutation mutation => .ok (index.mutate conflicts mutation)
  | .startUndoSession => .ok index.startUndoSession
  | .undo => index.undo conflicts
  | .squash => .ok index.squash
  | .commit revision => .ok (index.commit revision)

end GenericIndex

/-- The unique keys of an index which has none besides the id. -/
def noFurtherKey (_ _ : V) : Bool := false

/-- An index together with its ghost stack of snapshots, newest first. -/
structure Shadowed (V : Type) where
  index : GenericIndex V
  ghost : List (Snapshot (Objects V))

namespace Shadowed

/-- What a call does to the ghost stack. -/
def ghostAfter
    (state : Shadowed V) :
    Call V → List (Snapshot (Objects V))
  | .mutation _ => state.ghost
  | .startUndoSession =>
      ⟨state.index.revision + 1, state.index.objects⟩ :: state.ghost
  | .undo => state.ghost.tail
  | .squash => state.ghost.tail
  | .commit revision =>
      state.ghost.rdropWhile fun snapshot =>
        decide (snapshot.revision ≤ revision)

/-- One call on the index and on its ghost stack. -/
def step
    (state : Shadowed V)
    (call : Call V) :
    Except Fault (Shadowed V) := do
  let index ← state.index.call noFurtherKey call
  return ⟨index, state.ghostAfter call⟩

/-- A sequence of calls. -/
def run (state : Shadowed V) : List (Call V) → Except Fault (Shadowed V)
  | [] => .ok state
  | call :: rest => do
      let next ← state.step call
      next.run rest

/-- The abstract machine the pair stands for. -/
def machine (state : Shadowed V) : SnapshotStack (Objects V) where
  current := state.index.objects
  revision := state.index.revision
  saved := state.ghost

end Shadowed

/--
The undo stack records the way between consecutive snapshots, and from the
newest snapshot to the current objects.
-/
inductive Aligned :
    List (UndoState V) → List (Snapshot (Objects V)) → Objects V → Prop where
  | nil (current : Objects V) : Aligned [] [] current
  | cons
      {entry : UndoState V}
      {snapshot : Snapshot (Objects V)}
      {current : Objects V}
      {entries : List (UndoState V)}
      {snapshots : List (Snapshot (Objects V))}
      (records : Records entry snapshot.state current)
      (intact : entry.Intact current)
      (revision : entry.revision = snapshot.revision)
      (older : Aligned entries snapshots snapshot.state) :
      Aligned (entry :: entries) (snapshot :: snapshots) current

/-- The invariant of every reachable pair. -/
structure Shadowed.Exact (state : Shadowed V) : Prop where
  below : state.index.objects.IdsBelow
  aligned : Aligned state.index.stack state.ghost state.index.objects
  consecutive : state.machine.Consecutive

/-! ## The calls keep the stacks aligned -/

/-- The cells marked N/A in the matrix of `squash`. -/
def Status.NotApplicable (prev row : Status V) : Prop :=
  (row.isNew = true ∧
    (prev.isNew = true ∨ prev.old.isSome = true ∨
      prev.removed.isSome = true)) ∨
  (row.old.isSome = true ∧ prev.removed.isSome = true) ∨
  (row.removed.isSome = true ∧ prev.removed.isSome = true)

theorem Records.applicable
    {prev state : UndoState V}
    {before middle after : Objects V}
    (older : Records prev before middle)
    (newer : Records state middle after)
    (id : ObjectId) :
    ¬ Status.NotApplicable (prev.status id) (state.status id) := by
  have causal := older.causal newer id
  have olderRow := older.recorded id
  have newerRow := newer.recorded id
  generalize prev.status id = prevRow at *
  generalize state.status id = row at *
  generalize before.indices[id]? = was at *
  generalize middle.indices[id]? = between at *
  generalize after.indices[id]? = now at *
  unfold Status.NotApplicable Causal at *
  cases newerRow <;> cases olderRow <;> simp_all

theorem Aligned.length_eq
    {entries : List (UndoState V)}
    (aligned : Aligned entries snapshots current) :
    entries.length = snapshots.length := by
  induction aligned with
  | nil => rfl
  | cons _ _ _ _ induction => simp [induction]

theorem Aligned.eq_nil_iff
    {entries : List (UndoState V)}
    (aligned : Aligned entries snapshots current) :
    entries = [] ↔ snapshots = [] := by
  cases aligned <;> simp

/-- A mutating call rewrites the newest entry and the current objects. -/
theorem Aligned.change
    {index after : GenericIndex V}
    {change : UndoState V → UndoState V}
    (aligned : Aligned index.stack ghost index.objects)
    (changed : Change noFurtherKey index after change) :
    Aligned after.stack ghost after.objects := by
  rw [changed.stack]
  unfold GenericIndex.onHead
  cases shape : index.stack with
  | nil =>
      rw [shape] at aligned
      cases aligned
      simpa [shape] using Aligned.nil after.objects
  | cons entry entries =>
      rw [shape] at aligned
      cases aligned with
      | cons records intact revision older =>
          exact .cons (changed.records records)
            (changed.intact (fun _ _ => rfl) records intact)
            ((changed.entryRevision entry).trans revision) older

/-- Entry by entry, the stacks carry the same revisions. -/
theorem Aligned.revision_eq
    {entries : List (UndoState V)}
    (aligned : Aligned entries snapshots current)
    (depth : Nat)
    (bound : depth < entries.length) :
    (entries.get ⟨depth, bound⟩).revision =
      (snapshots.get ⟨depth, aligned.length_eq ▸ bound⟩).revision := by
  induction aligned generalizing depth with
  | nil => simp at bound
  | cons _ _ revision _ induction =>
      cases depth with
      | zero => exact revision
      | succ depth => exact induction depth (by simpa using bound)

/-- Neighbouring entries never meet in a cell marked N/A. -/
theorem Aligned.applicable
    {entries : List (UndoState V)}
    (aligned : Aligned entries snapshots current)
    {depth : Nat}
    {state prev : UndoState V}
    (newer : entries[depth]? = some state)
    (older : entries[depth + 1]? = some prev)
    (id : ObjectId) :
    ¬ Status.NotApplicable (prev.status id) (state.status id) := by
  induction aligned generalizing depth with
  | nil => simp at newer
  | cons records _ _ rest induction =>
      cases depth with
      | zero =>
          cases rest with
          | nil => simp at older
          | cons olderRecords _ _ _ =>
              obtain rfl : _ = state := by simpa using newer
              obtain rfl : _ = prev := by simpa using older
              exact olderRecords.applicable records id
      | succ depth =>
          exact induction (by simpa using newer) (by simpa using older)

/-- Dropping from the bottom of both stacks keeps the rest aligned. -/
theorem Aligned.commit
    {entries : List (UndoState V)}
    (aligned : Aligned entries snapshots current)
    (revision : Int) :
    Aligned
      (entries.rdropWhile fun entry => decide (entry.revision ≤ revision))
      (snapshots.rdropWhile fun snapshot =>
        decide (snapshot.revision ≤ revision))
      current := by
  induction aligned with
  | nil current => exact .nil current
  | cons records intact sameRevision older induction =>
      rw [rdropWhile_cons, rdropWhile_cons, sameRevision]
      have emptyIff := induction.eq_nil_iff
      simp only [emptyIff]
      split
      · exact .nil _
      · exact .cons records intact sameRevision induction

theorem GenericIndex.squash_objects
    (index : GenericIndex V) :
    index.squash.objects = index.objects := by
  unfold GenericIndex.squash
  split <;> rfl

theorem Aligned.squash
    {index : GenericIndex V}
    (aligned : Aligned index.stack ghost index.objects) :
    Aligned index.squash.stack ghost.tail index.squash.objects := by
  unfold GenericIndex.squash
  split
  case h_1 shape =>
    rw [shape] at aligned ⊢
    cases aligned
    exact .nil _
  case h_2 only shape =>
    rw [shape] at aligned
    cases aligned with
    | cons records intact revision older =>
        cases older
        exact .nil _
  case h_3 state prev rest shape =>
    rw [shape] at aligned
    cases aligned with
    | cons newer newerIntact newerRevision older =>
        cases older with
        | cons older olderIntact olderRevision oldest =>
            refine .cons (older.merge newer) ?_ ?_ oldest
            · intro id
              rw [status_merge]
              exact Status.Intact.merge (older.recorded id)
                (newer.recorded id) (older.causal newer id)
                (olderIntact id) (newerIntact id)
            · exact (merge_header prev state).2.trans olderRevision

/-- An intact entry of an index without unique keys is restorable. -/
theorem UndoState.Intact.restorable
    {entry : UndoState V}
    (intact : entry.Intact current) :
    Restorable noFurtherKey entry current.indices where
  updated_stored := by
    intro id member
    have := intact id
    simp only [Status.Intact, UndoState.status] at this
    grind
  new_stored := by
    intro id member
    have := intact id
    simp only [Status.Intact, UndoState.status] at this
    grind
  keys_free _ _ _ _ _ _ _ := rfl

/-- Undoing an open session succeeds and returns its snapshot. -/
theorem Aligned.undo
    {index : GenericIndex V}
    {snapshot : Snapshot (Objects V)}
    (aligned : Aligned index.stack (snapshot :: ghost) index.objects) :
    ∃ undone,
      index.undo noFurtherKey = .ok undone ∧
      undone.objects = snapshot.state ∧
      undone.objects.IdsBelow ∧
      undone.revision = index.revision - 1 ∧
      Aligned undone.stack ghost undone.objects := by
  generalize stackEq : index.stack = stack at aligned
  cases aligned with
  | cons records intact revision older =>
      rename_i entry entries
      have restored :
          GenericIndex.restore noFurtherKey index.indices entry =
            .ok snapshot.state.indices :=
        (restore_eq_ok_iff records (fun _ _ _ _ _ _ _ => rfl) _).2
          ⟨intact.restorable, rfl⟩
      have objectsEq :
          (⟨snapshot.state.indices, entry.oldNextId⟩ : Objects V) =
            snapshot.state := by
        rw [records.oldNextId]
      refine ⟨⟨entries, index.revision - 1, entry.oldNextId,
        snapshot.state.indices⟩, ?_, objectsEq, ?_, rfl, ?_⟩
      · unfold GenericIndex.undo
        simp only [stackEq, restored]
        rfl
      · exact objectsEq.symm ▸ records.before_lt
      · exact objectsEq.symm ▸ older

/-! ## The pair refines the abstract machine -/

namespace Shadowed

variable {state : Shadowed V}

/-- Undoing succeeds and is the abstract return to the newest snapshot. -/
theorem Exact.undo
    (exact_ : state.Exact) :
    ∃ undone,
      state.index.undo noFurtherKey = .ok undone ∧
      undone.objects.IdsBelow ∧
      Aligned undone.stack state.ghost.tail undone.objects ∧
      (⟨undone, state.ghost.tail⟩ : Shadowed V).machine =
        state.machine.undo := by
  have aligned := exact_.aligned
  unfold machine SnapshotStack.undo
  cases ghostEq : state.ghost with
  | nil =>
      have empty : state.index.stack = [] :=
        aligned.eq_nil_iff.2 ghostEq
      refine ⟨state.index, ?_, exact_.below, ?_, rfl⟩
      · simp [GenericIndex.undo, empty]
      · simpa [empty] using Aligned.nil state.index.objects
  | cons snapshot rest =>
      rw [ghostEq] at aligned
      obtain ⟨undone, ok, objectsEq, below, revisionEq, older⟩ :=
        aligned.undo
      exact ⟨undone, ok, below, older, by simp [objectsEq, revisionEq]⟩

theorem Exact.squash_machine
    (exact_ : state.Exact) :
    (⟨state.index.squash, state.ghost.tail⟩ : Shadowed V).machine =
      state.machine.squash := by
  have sameLength := exact_.aligned.length_eq
  unfold machine SnapshotStack.squash GenericIndex.squash
    GenericIndex.objects
  grind

/-! ## Whole histories -/

/-- The invariant survives every call, and no call fails. -/
theorem Exact.step
    (exact_ : state.Exact)
    (call : Call V) :
    ∃ next, state.step call = .ok next ∧ next.Exact := by
  obtain ⟨below, aligned, consecutive⟩ := exact_
  cases call with
  | mutation mutation =>
      obtain ⟨change, changed⟩ :=
        mutate_change noFurtherKey state.index mutation
      refine ⟨_, rfl, ?_, aligned.change changed, ?_⟩
      · exact (changed.records (Records.fresh below 0)).after_lt
      · intro depth bound
        have := consecutive depth bound
        simpa [machine, ghostAfter, changed.revision] using this
  | startUndoSession =>
      refine ⟨_, rfl, below, ?_, ?_⟩
      · refine .cons (Records.fresh below _) ?_ rfl aligned
        intro id
        simp [UndoState.status, Status.Intact]
      · exact SnapshotStack.startSession_consecutive consecutive
  | undo =>
      obtain ⟨undone, ok, undoneBelow, older, machineEq⟩ :=
        Exact.undo ⟨below, aligned, consecutive⟩
      refine ⟨⟨undone, state.ghost.tail⟩, ?_, undoneBelow, older, ?_⟩
      · simp only [Shadowed.step, GenericIndex.call, ok]
        rfl
      · rw [machineEq]
        exact SnapshotStack.undo_consecutive consecutive
  | squash =>
      have machineEq :=
        Exact.squash_machine ⟨below, aligned, consecutive⟩
      refine ⟨⟨state.index.squash, state.ghost.tail⟩, rfl, ?_,
        aligned.squash, ?_⟩
      · rw [GenericIndex.squash_objects]
        exact below
      · rw [machineEq]
        exact SnapshotStack.squash_consecutive consecutive
  | commit revision =>
      exact ⟨_, rfl, below, aligned.commit revision,
        SnapshotStack.commit_consecutive consecutive revision⟩

/-- A history of any length and nesting completes in the invariant. -/
theorem Exact.run
    (exact_ : state.Exact)
    (calls : List (Call V)) :
    ∃ final, state.run calls = .ok final ∧ final.Exact := by
  induction calls generalizing state with
  | nil => exact ⟨state, rfl, exact_⟩
  | cons call rest induction =>
      obtain ⟨next, ok, nextExact⟩ := exact_.step call
      obtain ⟨final, rest_ok, finalExact⟩ := induction nextExact
      refine ⟨final, ?_, finalExact⟩
      simp only [Shadowed.run, ok]
      exact rest_ok

end Shadowed

/-- Objects whose ids were handed out by the counter. -/
structure StoredObjects (V : Type) extends Objects V where
  below : toObjects.IdsBelow

/-- An index with an empty undo stack. -/
def GenericIndex.opened
    (stored : StoredObjects V)
    (revision : Int) :
    GenericIndex V where
  stack := []
  revision := revision
  nextId := stored.nextId
  indices := stored.indices

/-- An index with an empty undo stack and no snapshots. -/
def Shadowed.opened
    (stored : StoredObjects V)
    (revision : Int) :
    Shadowed V :=
  ⟨.opened stored revision, []⟩

theorem Shadowed.opened_exact
    (stored : StoredObjects V)
    (revision : Int) :
    (Shadowed.opened stored revision).Exact where
  below := stored.below
  aligned := .nil _
  consecutive := by
    intro depth bound
    simp [machine, Shadowed.opened] at bound

/--
Undo exactness: after any history of calls, the undo stack is as high as the
ghost stack, its revisions are consecutive and end at the index's revision,
undoing returns exactly to the newest snapshot, and no two neighbouring
entries meet in a cell which `squash` leaves out.
-/
theorem undo_exact
    (stored : StoredObjects V)
    (revision : Int)
    (calls : List (Call V)) :
    ∃ final,
      (Shadowed.opened stored revision).run calls = .ok final ∧
      final.index.stack.length = final.ghost.length ∧
      (∀ depth (bound : depth < final.index.stack.length),
        (final.index.stack.get ⟨depth, bound⟩).revision =
          final.index.revision - depth) ∧
      (final.index.stack ≠ [] →
        ∃ undone snapshot older,
          final.index.undo noFurtherKey = .ok undone ∧
          final.ghost = snapshot :: older ∧
          undone.objects = snapshot.state) ∧
      (∀ depth state prev (id : ObjectId),
        final.index.stack[depth]? = some state →
        final.index.stack[depth + 1]? = some prev →
        ¬ Status.NotApplicable (prev.status id) (state.status id)) := by
  obtain ⟨final, ok, exact_⟩ :=
    (Shadowed.opened_exact stored revision).run calls
  have aligned := exact_.aligned
  refine ⟨final, ok, aligned.length_eq, ?_, ?_, ?_⟩
  · intro depth bound
    have saved := exact_.consecutive depth (aligned.length_eq ▸ bound)
    rw [aligned.revision_eq depth bound]
    exact saved
  · intro nonempty
    cases ghostEq : final.ghost with
    | nil => exact absurd (aligned.eq_nil_iff.2 ghostEq) nonempty
    | cons snapshot older =>
        rw [ghostEq] at aligned
        obtain ⟨undone, undo_ok, objectsEq, -⟩ := aligned.undo
        exact ⟨undone, snapshot, older, undo_ok, rfl, objectsEq⟩
  · intro depth state prev id atDepth below
    exact aligned.applicable atDepth below id

end BMChain.Chainbase
