import BMChain.Chain.ForkBranch
import BMChain.Chain.PushBlock

/-!
# What one session can do

Every block is applied inside its own undo session.  `SessionEffect` lists
what such a session can leave of the chain: a block is refused without a
trace, applied, or fails after it has committed irreversible blocks; in the
last case its own session may already have been committed, and then the half
applied block stays.  Invariants of the chain are proved from this list.
-/

namespace BMChain.Chain

open BMChain.Protocol
open BMChain.Foundation

variable {Content Body Rest : Type}

/-- The state `next` has `block` as its head, on top of `state`. -/
structure NextState
    (state : ChainState Content Rest)
    (block : SignedBlock Content Body)
    (next : ChainState Content Rest) : Prop where
  link : block.previous = state.headBlockId
  headBlockId : next.headBlockId = block.id
  headBlockNum : next.headBlockNum = block.blockNum
  applied : next.applied = block.id :: state.applied

variable [DecidableEq Content]

/-- The state a block leads to when its application returns. -/
def appliedState
    (rules : Rules Content Body Rest)
    (state : ChainState Content Rest)
    (block : SignedBlock Content Body) :
    Option (ChainState Content Rest) :=
  if block.previous ≠ state.headBlockId then
    none
  else
    match rules.prelude state block with
    | .error _ => none
    | .ok rest =>
        let head := Database.headState rules state block rest
        match rules.maintenance head block with
        | .error _ => none
        | .ok rest => some { head with rest := rest }

theorem appliedState_next
    {rules : Rules Content Body Rest}
    {state next : ChainState Content Rest}
    {block : SignedBlock Content Body}
    (accepted : appliedState rules state block = some next) :
    NextState state block next := by
  unfold appliedState at accepted
  split at accepted
  · cases accepted
  · rename_i link
    split at accepted
    · cases accepted
    · dsimp only at accepted
      split at accepted
      · cases accepted
      · cases accepted
        exact ⟨not_not.1 link, rfl, rfl, rfl⟩

/-- The entries which survive the commit of an irreversible block. -/
def keptAfter
    (last : Nat)
    (saved : List (Snapshot (ChainState Content Rest))) :
    List (Snapshot (ChainState Content Rest)) :=
  saved.rdropWhile fun snapshot => decide (snapshot.revision ≤ (last : Int))

/--
The block would make its own undo session irreversible: it passes the
prelude, and the number it commits covers the session.
-/
def commitsOwnSession
    (rules : Rules Content Body Rest)
    (chain : SnapshotStack (ChainState Content Rest))
    (block : SignedBlock Content Body) : Bool :=
  match rules.prelude chain.current block with
  | .error _ => false
  | .ok rest =>
      (keptAfter
        (Database.headState rules chain.current block
          rest).lastIrreversibleBlockNum
        (⟨chain.revision + 1, chain.current⟩ :: chain.saved)).isEmpty

/-- What a session may leave of the chain, and whether it returned. -/
inductive SessionEffect
    (rules : Rules Content Body Rest)
    (block : SignedBlock Content Body)
    (chain : SnapshotStack (ChainState Content Rest)) :
    SnapshotStack (ChainState Content Rest) → Bool → Prop where
  /-- The block was refused before anything was committed. -/
  | refused : SessionEffect rules block chain chain false
  | applied
      {next : ChainState Content Rest}
      (accepted : appliedState rules chain.current block = some next) :
      SessionEffect rules block chain
        ⟨next, chain.revision + 1,
          keptAfter next.lastIrreversibleBlockNum
            (⟨chain.revision + 1, chain.current⟩ :: chain.saved)⟩ true
  /-- The block failed after its commit, and its session was undone. -/
  | undone
      (last : Nat) :
      SessionEffect rules block chain
        { chain with saved := keptAfter last chain.saved } false
  /-- The block failed after it had committed its own session. -/
  | halfApplied
      {next : ChainState Content Rest}
      (nextState : NextState chain.current block next)
      (own : commitsOwnSession rules chain block = true) :
      SessionEffect rules block chain ⟨next, chain.revision + 1, []⟩ false

/-- A session can only drop items from the index of the fork database. -/
structure ForkShrinks
    (db after : ForkDatabase Content Body) : Prop where
  head : after.head = db.head
  held : after.held = db.held
  nextHandle : after.nextHandle = db.nextHandle
  index : ∀ item ∈ after.index, item ∈ db.index

omit [DecidableEq Content] in
theorem ForkShrinks.refl
    (db : ForkDatabase Content Body) :
    ForkShrinks db db :=
  ⟨rfl, rfl, rfl, fun _ member => member⟩

omit [DecidableEq Content] in
theorem setMaxSize_shrinks
    (db : ForkDatabase Content Body)
    (size : Nat) :
    ForkShrinks db (db.setMaxSize size) := by
  unfold ForkDatabase.setMaxSize
  split
  · exact ⟨rfl, rfl, rfl, fun _ member => member⟩
  · exact ⟨rfl, rfl, rfl, fun _ member => List.mem_of_mem_filter member⟩

/-! ## The parts of a session -/

namespace Database

omit [DecidableEq Content] in
/-- The log loop only writes the log. -/
theorem appendToLog_frame
    (count : Nat)
    (db : Database Content Body Rest) :
    (appendToLog count db).1.chain = db.chain ∧
      (appendToLog count db).1.forkDb = db.forkDb ∧
      (appendToLog count db).1.poppedEmpty = db.poppedEmpty := by
  induction count generalizing db with
  | zero => exact ⟨rfl, rfl, rfl⟩
  | succ count induction =>
      unfold appendToLog
      split
      · exact ⟨rfl, rfl, rfl⟩
      · exact induction _

omit [DecidableEq Content] in
/-- The commit drops undo entries; log and fork database follow. -/
theorem commitIrreversible_frame
    (db : Database Content Body Rest) :
    (commitIrreversible db).1.chain =
        db.chain.commit db.chain.current.lastIrreversibleBlockNum ∧
      ForkShrinks db.forkDb (commitIrreversible db).1.forkDb ∧
      (commitIrreversible db).1.poppedEmpty = db.poppedEmpty := by
  unfold commitIrreversible
  dsimp only
  split
  all_goals
    rename_i after appended
    obtain ⟨chain, forkDb, popped⟩ := congrArg Prod.fst appended ▸
      appendToLog_frame _ _
    simp only at chain forkDb popped
  · exact ⟨chain, forkDb ▸ ForkShrinks.refl _, popped⟩
  · exact ⟨chain, forkDb ▸ setMaxSize_shrinks _ _, popped⟩

variable (rules : Rules Content Body Rest)
variable (db : Database Content Body Rest)
variable (block : SignedBlock Content Body)

/--
`apply_block` either fails before its commit, or links to the head, commits
and then fails or returns.
-/
theorem applyBlock_cases :
    (∃ rest,
      applyBlock rules db block =
        ({ db with
            chain :=
              db.chain.update { db.chain.current with rest := rest } },
          false)) ∨
    ∃ after returned next,
      applyBlock rules db block = (after, returned) ∧
      NextState db.chain.current block next ∧
      (∃ rest,
        rules.prelude db.chain.current block = .ok rest ∧
        next.lastIrreversibleBlockNum =
          (headState rules db.chain.current block
            rest).lastIrreversibleBlockNum) ∧
      after.chain =
        (db.chain.update next).commit next.lastIrreversibleBlockNum ∧
      ForkShrinks db.forkDb after.forkDb ∧
      after.poppedEmpty = db.poppedEmpty ∧
      (returned = true →
        appliedState rules db.chain.current block = some next) := by
  unfold applyBlock appliedState
  dsimp only
  by_cases link : block.previous = db.chain.current.headBlockId
  case neg =>
    left
    exact ⟨db.chain.current.rest, by simp [link]; rfl⟩
  simp only [link, ne_eq, not_true_eq_false, if_false]
  cases prelude : rules.prelude db.chain.current block with
  | error rest => exact .inl ⟨rest, rfl⟩
  | ok rest =>
      right
      dsimp only
      generalize headEq :
        headState rules db.chain.current block rest = head
      have nextState (rest' : Rest) :
          NextState db.chain.current block { head with rest := rest' } := by
        subst headEq
        exact ⟨link, rfl, rfl, rfl⟩
      have frame :=
        commitIrreversible_frame
          { db with chain := db.chain.update head }
      obtain ⟨⟨after, found⟩, committed⟩ :
          ∃ out,
            commitIrreversible
              { db with chain := db.chain.update head } = out :=
        ⟨_, rfl⟩
      simp only [committed] at frame ⊢
      obtain ⟨chain, shrinks, popped⟩ := frame
      cases found with
      | false =>
          exact ⟨after, false, head, rfl, nextState head.rest,
            ⟨rest, rfl, by rw [headEq]⟩, chain, shrinks, popped, by simp⟩
      | true =>
          cases maintenance : rules.maintenance head block with
          | error rest' =>
              refine ⟨_, false, { head with rest := rest' }, rfl,
                nextState rest', ⟨rest, rfl, by rw [headEq]⟩, ?_, shrinks,
                popped, by simp⟩
              simp only [chain]
              rfl
          | ok rest' =>
              refine ⟨_, true, { head with rest := rest' }, rfl,
                nextState rest', ⟨rest, rfl, by rw [headEq]⟩, ?_, shrinks,
                popped, fun _ => rfl⟩
              simp only [chain]
              rfl

/-- The undo of a failed block finds its own session, or nothing at all. -/
theorem undo_effect
    (chain : SnapshotStack (ChainState Content Rest))
    {next : ChainState Content Rest}
    (nextState : NextState chain.current block next)
    (passed :
      ∃ rest,
        rules.prelude chain.current block = .ok rest ∧
        next.lastIrreversibleBlockNum =
          (headState rules chain.current block
            rest).lastIrreversibleBlockNum) :
    SessionEffect rules block chain
      ((chain.startSession.update next).commit
        next.lastIrreversibleBlockNum).undo false := by
  have kept :=
    rdropWhile_cons
      (fun snapshot : Snapshot (ChainState Content Rest) =>
        decide (snapshot.revision ≤ (next.lastIrreversibleBlockNum : Int)))
      ⟨chain.revision + 1, chain.current⟩ chain.saved
  unfold SnapshotStack.undo SnapshotStack.commit SnapshotStack.update
    SnapshotStack.startSession
  dsimp only
  split at kept
  · obtain ⟨rest, prelude, last⟩ := passed
    rw [kept]
    refine .halfApplied nextState ?_
    rw [last] at kept
    simp only [commitsOwnSession, prelude, keptAfter, kept,
      List.isEmpty_nil]
  · rw [kept]
    simp only [Int.add_sub_cancel]
    exact .undone next.lastIrreversibleBlockNum

/-- A session has one of the listed effects and frames everything else. -/
theorem applyInSession_effect :
    SessionEffect rules block db.chain
        (applyInSession rules db block).1.chain
        (applyInSession rules db block).2 ∧
      ForkShrinks db.forkDb (applyInSession rules db block).1.forkDb ∧
      (applyInSession rules db block).1.poppedEmpty = db.poppedEmpty := by
  unfold applyInSession
  rcases applyBlock_cases rules
      { db with chain := db.chain.startSession } block with
    ⟨rest, refused⟩ | ⟨after, returned, next, out, nextState, passed,
      chain, shrinks, popped, accepted⟩
  · rw [refused]
    refine ⟨?_, ForkShrinks.refl _, rfl⟩
    have same :
        ((db.chain.startSession.update
          { db.chain.startSession.current with rest := rest }).undo) =
          db.chain := by
      simp [SnapshotStack.startSession, SnapshotStack.update,
        SnapshotStack.undo]
    simp only [same]
    exact .refused
  · rw [out]
    cases returned with
    | true =>
        refine ⟨?_, shrinks, popped⟩
        rw [chain]
        exact .applied (accepted rfl)
    | false =>
        refine ⟨?_, shrinks, popped⟩
        simp only [chain]
        exact undo_effect rules block db.chain nextState passed

end Database

/-! ## Pops -/

/-- A failed pop changes nothing. -/
theorem popBlock_failed
    {db after : Database Content Body Rest}
    (failed : db.popBlock = (after, false)) :
    after = db := by
  unfold Database.popBlock at failed
  split at failed
  · cases failed
    rfl
  · split at failed
    · cases failed
      rfl
    · cases failed

/-- A pop moves the fork head back and undoes the newest session. -/
theorem popBlock_popped
    {db after : Database Content Body Rest}
    (popped : db.popBlock = (after, true)) :
    ∃ forkDb,
      db.forkDb.popBlock = some forkDb ∧
      after =
        { db with
          forkDb := forkDb
          chain := db.chain.undo
          poppedEmpty := db.poppedEmpty || db.chain.saved.isEmpty } := by
  unfold Database.popBlock at popped
  split at popped
  · cases popped
  · split at popped
    · cases popped
    · rename_i forkDb poppedFork
      cases popped
      exact ⟨forkDb, poppedFork, rfl⟩

end BMChain.Chain
