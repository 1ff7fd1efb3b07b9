import BMChain.Chain.Replay
import Mathlib.Logic.Relation

/-!
# A push as a sequence of chain steps

Whatever `push_block` does, it moves the chain by two kinds of steps only:
it undoes the newest session, or it runs a session for a block which it was
given or which it finds in the fork database.  An invariant of the chain which
survives both kinds of steps survives every push.
-/

namespace BMChain.Chain

open BMChain.Protocol
open BMChain.Foundation

variable {Content Body Rest : Type} [DecidableEq Content]

variable {block : SignedBlock Content Body}
variable {allowed : SignedBlock Content Body → Prop}

/-- One step of the chain, for admissible blocks. -/
inductive ChainStep
    (rules : Rules Content Body Rest)
    (allowed : SignedBlock Content Body → Prop) :
    SnapshotStack (ChainState Content Rest) →
      SnapshotStack (ChainState Content Rest) → Prop where
  | undo (chain : SnapshotStack (ChainState Content Rest)) :
      ChainStep rules allowed chain chain.undo
  | session
      {chain after : SnapshotStack (ChainState Content Rest)}
      {block : SignedBlock Content Body}
      {returned : Bool}
      (admissible : Admissible allowed block)
      (effect : SessionEffect rules block chain after returned) :
      ChainStep rules allowed chain after

/-- Any number of steps. -/
abbrev ChainSteps
    (rules : Rules Content Body Rest)
    (allowed : SignedBlock Content Body → Prop) :=
  Relation.ReflTransGen (ChainStep rules allowed)

/--
A part of a push: the chain moves by steps, the fork database stays linked,
the popped blocks can be applied again, and the fork database does not lose
its head.
-/
structure Moves
    (rules : Rules Content Body Rest)
    (allowed : SignedBlock Content Body → Prop)
    (db after : Database Content Body Rest) : Prop where
  chain : ChainSteps rules allowed db.chain after.chain
  forkDb :
    db.forkDb.WellLinked allowed → after.forkDb.WellLinked allowed
  replay :
    db.forkDb.WellLinked allowed →
      Replayable rules allowed db → Replayable rules allowed after
  started :
    db.forkDb.head.isSome = true → after.forkDb.head.isSome = true

namespace Moves

variable (rules : Rules Content Body Rest)
variable {db middle after : Database Content Body Rest}

theorem refl
    (db : Database Content Body Rest) :
    Moves rules allowed db db :=
  ⟨.refl, fun wellLinked => wellLinked, fun _ replayable => replayable,
    fun started => started⟩

variable {rules} in
theorem trans
    (first : Moves rules allowed db middle)
    (second : Moves rules allowed middle after) :
    Moves rules allowed db after :=
  ⟨first.chain.trans second.chain,
    fun wellLinked => second.forkDb (first.forkDb wellLinked),
    fun wellLinked replayable =>
      second.replay (first.forkDb wellLinked)
        (first.replay wellLinked replayable),
    fun started => second.started (first.started started)⟩

theorem applyInSession
    (db : Database Content Body Rest)
    (admissible : Admissible allowed block) :
    Moves rules allowed db (db.applyInSession rules block).1 := by
  obtain ⟨effect, shrinks, -⟩ :=
    Database.applyInSession_effect rules db block
  refine ⟨.single (.session admissible effect), fun wellLinked => ?_,
    fun wellLinked replayable => ?_, ?_⟩
  · exact wellLinked.shrink shrinks.index
      (shrinks.head ▸ wellLinked.head)
  · exact replayable.applyInSession wellLinked admissible
  · rw [shrinks.head]
    exact fun started => started

theorem popBlock
    {returned : Bool}
    (popped : db.popBlock = (after, returned)) :
    Moves rules allowed db after := by
  cases returned with
  | false =>
      rw [popBlock_failed popped]
      exact refl rules db
  | true =>
      obtain ⟨forkDb, poppedFork, rfl⟩ := popBlock_popped popped
      refine ⟨.single (.undo db.chain),
        fun wellLinked => wellLinked.popBlock poppedFork,
        fun _ replayable => replayable.undo rfl rfl, fun _ => ?_⟩
      simp only [ForkDatabase.popBlock, Option.bind_eq_bind,
        Option.bind_eq_some_iff] at poppedFork
      obtain ⟨head, -, prev, -, same⟩ := poppedFork
      cases same
      rfl

theorem popUntil
    (target : BlockId Content)
    (fuel : Nat)
    (db : Database Content Body Rest) :
    Moves rules allowed db (db.popUntil target fuel).1 := by
  induction fuel generalizing db with
  | zero => exact refl rules db
  | succ fuel induction =>
      unfold Database.popUntil
      split
      · exact refl rules db
      · split
        · rename_i failed
          exact popBlock rules failed
        · rename_i popped
          exact (popBlock rules popped).trans (induction _)

theorem popTo
    (target : BlockId Content)
    (db : Database Content Body Rest) :
    Moves rules allowed db (db.popTo target).1 :=
  popUntil rules target _ db

theorem applyBranch
    {items : List (ForkItem Content Body)}
    (admissible : ∀ item ∈ items, Admissible allowed item.data)
    (db : Database Content Body Rest) :
    Moves rules allowed db (db.applyBranch rules items).1 := by
  induction items generalizing db with
  | nil => exact refl rules db
  | cons item items induction =>
      rw [List.forall_mem_cons] at admissible
      have step := applyInSession rules db admissible.1
      unfold Database.applyBranch
      split
      · rename_i applied
        rw [applied] at step
        exact step.trans (induction admissible.2 _)
      · rename_i failed
        rw [failed] at step
        exact step

/-- Items leave the index of the fork database, and the head may be set. -/
theorem editFork
    (db : Database Content Body Rest)
    {forkDb : ForkDatabase Content Body}
    (index : ∀ item ∈ forkDb.index, item ∈ db.forkDb.index)
    (head :
      ∀ item ∈ forkDb.head,
        LinkedChain allowed item.chain ∨ item ∈ db.forkDb.head)
    (started :
      db.forkDb.head.isSome = true → forkDb.head.isSome = true) :
    Moves rules allowed db { db with forkDb := forkDb } := by
  refine ⟨.refl, fun wellLinked => wellLinked.shrink index ?_,
    fun _ replayable => replayable, started⟩
  intro item member
  rcases head item member with linked | old
  · exact linked
  · exact wellLinked.head item old

end Moves

theorem removeItems_index
    (items : List (ForkItem Content Body))
    (forkDb : ForkDatabase Content Body) :
    ∀ item ∈ (Database.removeItems items forkDb).index,
      item ∈ forkDb.index := by
  induction items generalizing forkDb with
  | nil => exact fun _ member => member
  | cons removed items induction =>
      intro item member
      have inRest := induction (forkDb.remove removed.id) item member
      exact List.mem_of_mem_filter inRest

namespace Moves

variable (rules : Rules Content Body Rest)

theorem restoreOldBranch
    (db : Database Content Body Rest)
    (bad : List (ForkItem Content Body))
    {front : ForkItem Content Body}
    {oldBranch : List (ForkItem Content Body)}
    (target : BlockId Content)
    (frontLinked : LinkedChain allowed front.chain)
    (admissible : ∀ item ∈ oldBranch, Admissible allowed item.data) :
    Moves rules allowed db
      (db.restoreOldBranch rules bad front oldBranch target) := by
  have edit :
      Moves rules allowed db
        { db with
          forkDb :=
            (Database.removeItems bad db.forkDb).setHead front } := by
    refine editFork rules db (removeItems_index bad db.forkDb) ?_
      fun _ => rfl
    rintro item ⟨⟩
    exact .inl frontLinked
  have pops := edit.trans (popTo rules target _)
  unfold Database.restoreOldBranch
  dsimp only
  split
  · rename_i failed
    rw [failed] at pops
    exact pops
  · rename_i popped
    rw [popped] at pops
    exact pops.trans (applyBranch rules (by simpa using admissible) _)

theorem switchForks
    (db : Database Content Body Rest)
    (wellLinked : db.forkDb.WellLinked allowed)
    (newHead : ForkItem Content Body) :
    Moves rules allowed db (db.switchForks rules newHead).1 := by
  unfold Database.switchForks
  split
  · exact refl rules db
  · rename_i first second fetched
    obtain ⟨firstLinked, secondLinked, -⟩ :=
      ForkDatabase.fetchBranchFrom_branches wellLinked fetched
    split
    · rename_i front last isFront isLast
      have hold : Moves rules allowed db (db.holding first second) :=
        editFork rules db (fun _ member => member)
          (fun _ member => .inr member) (fun started => started)
      have pops := hold.trans (popTo rules last.previousId _)
      dsimp only
      split
      · rename_i failed
        rw [failed] at pops
        exact pops
      · rename_i popped
        rw [popped] at pops
        have admissible :
            ∀ item ∈ first.reverse, Admissible allowed item.data := by
          intro item member
          exact (firstLinked item (by simpa using member)).admissible
        have applied := pops.trans (applyBranch rules admissible _)
        split
        · rename_i all
          rw [all] at applied
          exact applied
        · rename_i failed
          rw [failed] at applied
          refine applied.trans (restoreOldBranch rules _ _ _ ?_ ?_)
          · exact secondLinked front (List.mem_of_head? isFront)
          · exact fun item member =>
              (secondLinked item member).admissible
    · exact refl rules db

theorem pushTaken
    (db : Database Content Body Rest)
    (wellLinked : db.forkDb.WellLinked allowed)
    (newHead : ForkItem Content Body)
    (admissible : Admissible allowed block) :
    Moves rules allowed db (db.pushTaken rules newHead block).1 := by
  unfold Database.pushTaken
  split
  · split
    · exact switchForks rules db wellLinked newHead
    · exact refl rules db
  · have session := applyInSession rules db admissible
    split
    · rename_i applied
      rw [applied] at session
      exact session
    · rename_i failed
      rw [failed] at session
      refine session.trans (editFork rules _ ?_ ?_ ?_)
      · exact fun _ member => List.mem_of_mem_filter member
      · exact fun _ member => .inr member
      · exact fun started => started

end Moves

/--
What the fork database makes of a pushed block: it refuses it, or it returns
the block's new item or its old head.
-/
structure Taken
    (db : Database Content Body Rest)
    (block : SignedBlock Content Body)
    (forkDb : ForkDatabase Content Body)
    (newHead : ForkItem Content Body) : Prop where
  accepted : db.forkDb.pushBlock block = .ok forkDb
  isHead : forkDb.head = some newHead
  new : db.forkDb.becomesHead block = true → newHead.data = block
  old : db.forkDb.becomesHead block = false → db.forkDb.head = some newHead

/-- A push is refused by the fork database or goes on with its head. -/
theorem pushBlock_cases
    (rules : Rules Content Body Rest)
    (db : Database Content Body Rest)
    (block : SignedBlock Content Body) :
    ((∃ fault, db.forkDb.pushBlock block = .error fault) ∧
      db.pushBlock rules block = (db, .thrown)) ∨
    ∃ forkDb newHead,
      Taken db block forkDb newHead ∧
      db.pushBlock rules block =
        (((db.taking forkDb newHead).pushTaken rules newHead
            block).1.release,
          ((db.taking forkDb newHead).pushTaken rules newHead block).2) := by
  unfold Database.pushBlock
  cases accepted : db.forkDb.pushBlock block with
  | error fault => exact .inl ⟨⟨fault, rfl⟩, rfl⟩
  | ok forkDb =>
      right
      obtain ⟨back, inserted, -⟩ := ForkDatabase.pushBlock_ok accepted
      have heads :=
        db.forkDb.insertItem_head ⟨db.forkDb.nextHandle, block, back⟩
      rw [← inserted] at heads
      cases becomes : db.forkDb.becomesHead block with
      | true =>
          have isHead := heads.1 becomes
          refine ⟨forkDb, _, ⟨accepted, isHead, fun _ => rfl, ?_⟩, ?_⟩
          · simp [becomes]
          · simp only [isHead]
      | false =>
          obtain ⟨head, old⟩ : ∃ head, db.forkDb.head = some head := by
            unfold ForkDatabase.becomesHead at becomes
            cases old : db.forkDb.head with
            | none => simp [old] at becomes
            | some head => exact ⟨head, rfl⟩
          have isHead := (heads.2 becomes).trans old
          refine ⟨forkDb, head, ⟨accepted, isHead, ?_, fun _ => old⟩, ?_⟩
          · simp [becomes]
          · simp only [isHead]

/-- A push moves the chain by steps and keeps the fork database linked. -/
theorem pushBlock_moves
    (rules : Rules Content Body Rest)
    (db : Database Content Body Rest)
    (block : SignedBlock Content Body)
    (wellLinked : db.forkDb.WellLinked allowed)
    (isAllowed : allowed block)
    (numbered : db.forkDb.head = none → block.blockNum ≠ 0) :
    Moves rules allowed db (db.pushBlock rules block).1 := by
  unfold Database.pushBlock
  split
  · exact .refl rules db
  · rename_i forkDb accepted
    have taken := wellLinked.pushBlock isAllowed numbered accepted
    have admissible : Admissible allowed block :=
      ⟨ForkDatabase.blockNum_ne_zero numbered accepted, isAllowed⟩
    split
    · exact .refl rules db
    · rename_i newHead isHead
      have take : Moves rules allowed db (db.taking forkDb newHead) :=
        ⟨.refl, fun _ => taken.shrink (fun _ member => member) taken.head,
          fun _ replayable => replayable, fun _ => by simp [isHead]⟩
      have pushed :=
        take.trans (Moves.pushTaken rules _ (take.forkDb wellLinked)
          newHead admissible)
      refine pushed.trans (Moves.editFork rules _ ?_ ?_ ?_)
      · exact fun _ member => member
      · exact fun _ member => .inr member
      · exact fun started => started

end BMChain.Chain
