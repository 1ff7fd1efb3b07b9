import Mathlib.Tactic.Common
import Mathlib.Data.List.DropRight

/-!
# Stacks of snapshots

The purpose of an undo stack, in its own terms: a current state, a revision
counter, and one saved state for every open session, newest first.  Undoing
returns to the newest saved state, squashing forgets it, and committing a
revision forgets every saved state from the bottom up to that revision.
-/

namespace BMChain.Foundation

/-- Dropping from the end of a list, by recursion from its front. -/
theorem rdropWhile_cons
    {Item : Type}
    (drop : Item → Bool)
    (head : Item)
    (rest : List Item) :
    (head :: rest).rdropWhile drop =
      if rest.rdropWhile drop = [] ∧ drop head = true then []
      else head :: rest.rdropWhile drop := by
  simp only [List.rdropWhile, List.reverse_cons, List.dropWhile_append,
    List.isEmpty_iff, List.reverse_eq_nil_iff]
  by_cases empty : rest.reverse.dropWhile drop = []
  · by_cases dropped : drop head = true <;> simp [empty, dropped]
  · simp [empty]

/-- A saved state together with the revision its session received. -/
structure Snapshot (State : Type) where
  revision : Int
  state : State
  deriving DecidableEq

/-- The current state and the saved states of the open sessions. -/
structure SnapshotStack (State : Type) where
  current : State
  revision : Int
  saved : List (Snapshot State)
  deriving DecidableEq

variable {State : Type}

namespace SnapshotStack

/-- A stack without open sessions. -/
def opened
    (current : State)
    (revision : Int) :
    SnapshotStack State where
  current := current
  revision := revision
  saved := []

/-- Change the current state and leave every saved state alone. -/
def update
    (stack : SnapshotStack State)
    (current : State) :
    SnapshotStack State :=
  { stack with current := current }

/-- Save the current state under the next revision. -/
def startSession
    (stack : SnapshotStack State) :
    SnapshotStack State where
  current := stack.current
  revision := stack.revision + 1
  saved := ⟨stack.revision + 1, stack.current⟩ :: stack.saved

/-- Return to the newest saved state; without one, nothing happens. -/
def undo
    (stack : SnapshotStack State) :
    SnapshotStack State :=
  match stack.saved with
  | [] => stack
  | top :: rest => ⟨top.state, stack.revision - 1, rest⟩

/--
Forget the newest saved state.  The revision goes down with it unless it
was the only one.
-/
def squash
    (stack : SnapshotStack State) :
    SnapshotStack State :=
  match stack.saved with
  | [] => stack
  | [_] => { stack with saved := [] }
  | _ :: rest =>
      { stack with
        revision := stack.revision - 1
        saved := rest }

/-- Forget, from the bottom, every saved state up to the given revision. -/
def commit
    (stack : SnapshotStack State)
    (revision : Int) :
    SnapshotStack State :=
  { stack with
    saved :=
      stack.saved.rdropWhile fun saved =>
        decide (saved.revision ≤ revision) }

/-- The saved revisions count down one by one from the current revision. -/
def Consecutive (stack : SnapshotStack State) : Prop :=
  ∀ depth (bound : depth < stack.saved.length),
    (stack.saved.get ⟨depth, bound⟩).revision = stack.revision - depth

theorem startSession_consecutive
    {stack : SnapshotStack State}
    (consecutive : stack.Consecutive) :
    stack.startSession.Consecutive := by
  intro depth bound
  cases depth with
  | zero =>
      simp [startSession]
  | succ depth =>
      have older := consecutive depth (by simpa [startSession] using bound)
      simp only [startSession, List.get_eq_getElem,
        List.getElem_cons_succ] at older ⊢
      rw [older]
      push_cast
      omega

/-- Dropping the newest saved state together with its revision. -/
theorem consecutive_tail
    {stack : SnapshotStack State}
    {top : Snapshot State}
    {rest : List (Snapshot State)}
    (shape : stack.saved = top :: rest)
    (consecutive : stack.Consecutive)
    (current : State) :
    Consecutive ⟨current, stack.revision - 1, rest⟩ := by
  intro depth bound
  have older :=
    consecutive (depth + 1) (by simpa [shape] using bound)
  simp only [shape, List.get_eq_getElem, List.getElem_cons_succ] at older
  simp only [List.get_eq_getElem]
  rw [older]
  push_cast
  omega

theorem undo_consecutive
    {stack : SnapshotStack State}
    (consecutive : stack.Consecutive) :
    stack.undo.Consecutive := by
  unfold undo
  split
  case h_1 empty => exact consecutive
  case h_2 top rest shape =>
    exact consecutive_tail shape consecutive top.state

theorem squash_consecutive
    {stack : SnapshotStack State}
    (consecutive : stack.Consecutive) :
    stack.squash.Consecutive := by
  unfold squash
  split
  case h_1 empty => exact consecutive
  case h_2 only shape =>
    intro depth bound
    simp at bound
  case h_3 top rest notSingle shape =>
    exact consecutive_tail shape consecutive stack.current

theorem commit_consecutive
    {stack : SnapshotStack State}
    (consecutive : stack.Consecutive)
    (revision : Int) :
    (stack.commit revision).Consecutive := by
  intro depth bound
  have keep :=
    List.rdropWhile_prefix
      (fun saved : Snapshot State => decide (saved.revision ≤ revision))
      stack.saved
  have older := consecutive depth (lt_of_lt_of_le bound keep.length_le)
  simp only [commit, List.get_eq_getElem] at older ⊢
  rw [← older, keep.getElem]

/-! ## Properties of every state on the stack -/

/-- The current state and every saved one have a property. -/
def All (holds : State → Prop) (stack : SnapshotStack State) : Prop :=
  holds stack.current ∧ ∀ snapshot ∈ stack.saved, holds snapshot.state

section All

variable {holds : State → Prop} {stack : SnapshotStack State}

theorem All.opened
    {current : State}
    (start : holds current)
    (revision : Int) :
    All holds (opened current revision) :=
  ⟨start, by simp [SnapshotStack.opened]⟩

theorem All.update
    {current : State}
    (all : All holds stack)
    (now : holds current) :
    All holds (stack.update current) :=
  ⟨now, all.2⟩

theorem All.startSession
    (all : All holds stack) :
    All holds stack.startSession := by
  refine ⟨all.1, ?_⟩
  rw [SnapshotStack.startSession, List.forall_mem_cons]
  exact all

theorem All.undo
    (all : All holds stack) :
    All holds stack.undo := by
  unfold SnapshotStack.undo
  split
  case h_1 => exact all
  case h_2 top rest shape =>
    rcases all with ⟨-, saved⟩
    rw [shape, List.forall_mem_cons] at saved
    exact saved

theorem All.commit
    (all : All holds stack)
    (revision : Int) :
    All holds (stack.commit revision) := by
  refine ⟨all.1, ?_⟩
  intro snapshot member
  exact all.2 snapshot ((List.rdropWhile_prefix _ _).subset member)

end All

end SnapshotStack

end BMChain.Foundation
