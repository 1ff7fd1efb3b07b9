import BMChain.Chain.ForkHead

/-!
# Pushes which throw

A throwing push should leave the chain state and the head of the fork
database as they were.  The chain state is protected by undo sessions, the
head of the fork database is not: a block which becomes the fork head before
it is refused stays the fork head, and every pop moves the fork head back.
This file says when a push rolls back, and follows each failure: a refused
extension, a switch which does not start, and a switch whose first block is
refused, after which the old branch is applied again.
-/

namespace BMChain.Chain

open BMChain.Protocol
open BMChain.Foundation

variable {Content Body Rest : Type} [DecidableEq Content]

variable {block : SignedBlock Content Body} {target : BlockId Content}

variable {rules : Rules Content Body Rest} {db : Database Content Body Rest}
variable {allowed : SignedBlock Content Body → Prop}

/--
The switch to the fork database's head rolls back.  `before` is the head of
the fork database before the push, and `stays` says that it has not moved.
-/
def switchRollsBack
    [DecidableEq Body]
    (rules : Rules Content Body Rest)
    (before : Option (ForkItem Content Body))
    (stays : Bool)
    (db : Database Content Body Rest)
    (newHead : ForkItem Content Body) : Bool :=
  let head := db.chain.current.headBlockId
  match db.forkDb.fetchBranchFrom newHead.id head with
  | none => stays
  | some (first, second) =>
      let held := db.holding first second
      second.getLast?.all fun last =>
        let popped := held.popTo last.previousId
        if popped.2 then
          -- Every block of the new branch is applied, or its first one is
          -- refused and the fork head was the item of the applied head.
          (popped.1.applyBranch rules first.reverse).2.isEmpty ||
          first.getLast?.all fun oldest =>
            ! (popped.1.applyInSession rules oldest.data).2 &&
            ! commitsOwnSession rules popped.1.chain oldest.data &&
            decide (db.forkDb.fetchBlock head = before)
        else
          -- The pop loop throws at its first pop.
          stays && ! held.popBlock.2

/--
The push rolls back if it throws: the fork database refuses the block, or
its head extends the applied head and the block is applied, or is refused
without having become the fork head or having committed its own session; or
there is nothing to switch to, or the switch rolls back.
-/
def rollsBack
    [DecidableEq Body]
    (rules : Rules Content Body Rest)
    (db : Database Content Body Rest)
    (block : SignedBlock Content Body) : Bool :=
  match db.forkDb.pushBlock block with
  | .error _ => true
  | .ok forkDb =>
      forkDb.head.all fun newHead =>
        let taken := db.taking forkDb newHead
        let state := db.chain.current
        if newHead.previousId = state.headBlockId then
          (taken.applyInSession rules block).2 ||
            (! db.forkDb.becomesHead block &&
              ! commitsOwnSession rules db.chain block)
        else
          decide (newHead.num ≤ state.headBlockNum) ||
            switchRollsBack rules db.forkDb.head
              (! db.forkDb.becomesHead block) taken newHead

/-- The chain state and the head item of the fork database are the same. -/
structure RolledBack
    (db after : Database Content Body Rest) : Prop where
  chain : after.chain.current = db.chain.current
  forkHead : after.forkDb.head = db.forkDb.head

/-! ## A refused block -/

/-- A refused block which did not commit its own session leaves no trace. -/
theorem applyInSession_refused
    (refused : (db.applyInSession rules block).2 = false)
    (notOwn : commitsOwnSession rules db.chain block = false) :
    RolledBack db (db.applyInSession rules block).1 := by
  obtain ⟨effect, shrinks, -⟩ :=
    Database.applyInSession_effect rules db block
  refine ⟨?_, shrinks.head⟩
  rw [refused] at effect
  generalize (db.applyInSession rules block).1.chain = chain at effect ⊢
  cases effect with
  | refused => rfl
  | undone last => rfl
  | halfApplied nextState own => simp [own] at notOwn

/-- A branch whose first block is refused fails as a whole. -/
theorem applyBranch_refused
    {items : List (ForkItem Content Body)}
    {oldest : ForkItem Content Body}
    (isOldest : items.head? = some oldest)
    (refused : (db.applyInSession rules oldest.data).2 = false) :
    db.applyBranch rules items =
      ((db.applyInSession rules oldest.data).1, items) := by
  cases items with
  | nil => simp at isOldest
  | cons item items =>
      cases isOldest
      unfold Database.applyBranch
      generalize db.applyInSession rules oldest.data = out at *
      obtain ⟨after, returned⟩ := out
      cases refused
      rfl

/-! ## A failed switch -/

theorem popTo_first_failed
    (different : db.chain.current.headBlockId ≠ target)
    (failed : db.popBlock.2 = false) :
    db.popTo target = (db, false) := by
  unfold Database.popTo Database.popUntil
  rw [if_neg different]
  obtain ⟨after, shape⟩ : ∃ after, db.popBlock = (after, false) :=
    ⟨db.popBlock.1, by rw [← failed]⟩
  rw [shape, popBlock_failed shape]

/-- The handler of a failed switch leads back to where the switch began. -/
theorem restoreOldBranch_rolledBack
    (bad : List (ForkItem Content Body))
    (front : ForkItem Content Body)
    {oldBranch : List (ForkItem Content Body)}
    {state : ChainState Content Rest}
    {logged : Nat}
    (atTarget : db.chain.current.headBlockId = target)
    (leads :
      LeadsTo rules logged db.chain.current oldBranch.reverse state)
    (log : logged ≤ db.logHeadNum) :
    (db.restoreOldBranch rules bad front oldBranch
        target).chain.current = state ∧
      (db.restoreOldBranch rules bad front oldBranch
        target).forkDb.head = some front := by
  let edited : Database Content Body Rest :=
    { db with forkDb := (Database.removeItems bad db.forkDb).setHead front }
  have popped : edited.popTo target = (edited, true) :=
    popUntil_reached _ atTarget
  have again :=
    applyBranch_again
      (show LeadsTo rules logged edited.chain.current _ state from leads)
      log
  simp only [edited] at popped
  simp only [Database.restoreOldBranch, popped]
  exact again

theorem switchForks_rolledBack
    [DecidableEq Body]
    (functional :
      ∀ x y, allowed x → allowed y → x.id = y.id → x = y)
    {before : Option (ForkItem Content Body)}
    {stays : Bool}
    {newHead : ForkItem Content Body}
    (wellLinked : db.forkDb.WellLinked allowed)
    (replayable : Replayable rules allowed db)
    (unmoved : stays = true → db.forkDb.head = before)
    (condition : switchRollsBack rules before stays db newHead = true)
    (threw : (db.switchForks rules newHead).2 = .thrown) :
    (db.switchForks rules newHead).1.chain.current = db.chain.current ∧
      (db.switchForks rules newHead).1.forkDb.head = before := by
  unfold Database.switchForks at threw ⊢
  unfold switchRollsBack at condition
  cases fetched : db.forkDb.fetchBranchFrom newHead.id
      db.chain.current.headBlockId with
  | none =>
      simp only [fetched] at condition
      exact ⟨rfl, unmoved condition⟩
  | some branches =>
      obtain ⟨first, second⟩ := branches
      obtain ⟨firstLinked, secondLinked, base, firstBranch,
        secondBranch⟩ :=
        ForkDatabase.fetchBranchFrom_branches wellLinked fetched
      obtain ⟨firstItem, front, -, foundFront, -, isFront⟩ :=
        ForkDatabase.fetchBranchFrom_heads fetched
      obtain ⟨last, isLast, isBase⟩ := secondBranch.getLast?
      obtain ⟨oldest, isOldest, -⟩ := firstBranch.getLast?
      simp only [fetched, isFront, isLast, isOldest, foundFront,
        Option.all_some] at condition threw ⊢
      subst isBase
      have held : Replayable rules allowed (db.holding first second) :=
        replayable
      have different :
          (db.holding first second).chain.current.headBlockId ≠
            last.previousId := by
        intro same
        have below := secondBranch.num_lt secondLinked
        rw [show db.chain.current.headBlockId = _ from same] at below
        exact absurd below (lt_irrefl _)
      cases reached :
          ((db.holding first second).popTo last.previousId).2 with
      | false =>
          simp only [reached, Bool.false_eq_true, if_false,
            Bool.and_eq_true, Bool.not_eq_true'] at condition
          simp only [popTo_first_failed different condition.2]
          exact ⟨rfl, unmoved condition.1⟩
      | true =>
          obtain ⟨afterPop, popped⟩ :
              ∃ afterPop,
                (db.holding first second).popTo last.previousId =
                  (afterPop, true) :=
            ⟨_, by rw [← reached]⟩
          simp only [popped, if_true] at condition threw ⊢
          rcases Bool.or_eq_true _ _ ▸ condition with all | first_refused
          · -- Every block was applied, so the switch returned.
            rw [List.isEmpty_iff] at all
            generalize afterPop.applyBranch rules first.reverse = applied
              at all threw
            obtain ⟨after, bad⟩ := applied
            cases all
            cases threw
          · simp only [Bool.and_eq_true, Bool.not_eq_true',
              decide_eq_true_eq] at first_refused
            obtain ⟨⟨refused, notOwn⟩, isBefore⟩ := first_refused
            have heldBranch :
                ForkDatabase.Branch
                  (db.holding first second).chain.current.headBlockId
                  second last.previousId :=
              secondBranch
            have leads :=
              popUntil_leadsTo functional secondLinked heldBranch held
                popped
            have linked : afterPop.forkDb.WellLinked allowed := by
              have moves : Moves rules allowed _ _ :=
                .popTo rules last.previousId (db.holding first second)
              rw [popped] at moves
              exact moves.forkDb
                (wellLinked.shrink (fun _ member => member) wellLinked.head)
            have logs : afterPop.logHeadNum = db.logHeadNum := by
              have same :=
                congrArg Prod.fst popped ▸
                  (popUntil_frame last.previousId _
                    (db.holding first second)).2
              simp only [Database.logHeadNum]
              rw [same]
              rfl
            have grows :=
              (Database.applyInSession_logHeadNum rules linked
                oldest.data).1
            have undone := applyInSession_refused refused notOwn
            have isFirst : first.reverse.head? = some oldest := by
              simpa using isOldest
            have failed := applyBranch_refused isFirst refused
            rw [← undone.chain] at leads
            have restored :=
              restoreOldBranch_rolledBack first.reverse front
                (undone.chain ▸ popUntil_target popped) leads
                (logs ▸ grows)
            rw [failed]
            cases shape : first.reverse with
            | nil => simp [shape] at isFirst
            | cons item items =>
                rw [shape] at restored
                exact ⟨restored.1, restored.2.trans isBefore⟩

/-! ## Whole runs -/

/-- A push which throws in a state where it rolls back has rolled back. -/
theorem pushBlock_rolledBack
    [DecidableEq Body]
    (functional :
      ∀ x y, allowed x → allowed y → x.id = y.id → x = y)
    (wellLinked : db.forkDb.WellLinked allowed)
    (replayable : Replayable rules allowed db)
    (isAllowed : allowed block)
    (numbered : db.forkDb.head = none → block.blockNum ≠ 0)
    (condition : rollsBack rules db block = true)
    (threw : (db.pushBlock rules block).2 = .thrown) :
    RolledBack db (db.pushBlock rules block).1 := by
  rcases pushBlock_cases rules db block with
    ⟨-, refused⟩ | ⟨forkDb, newHead, taken, pushed⟩
  · rw [refused]
    exact ⟨rfl, rfl⟩
  · rw [pushed] at threw ⊢
    have unmoved :
        (! db.forkDb.becomesHead block) = true →
          (db.taking forkDb newHead).forkDb.head = db.forkDb.head := by
      intro stays
      rw [Bool.not_eq_true'] at stays
      exact taken.isHead.trans (taken.old stays).symm
    simp only [rollsBack, taken.accepted, taken.isHead, Option.all_some]
      at condition
    suffices rolled :
        ((db.taking forkDb newHead).pushTaken rules newHead
            block).1.chain.current = db.chain.current ∧
          ((db.taking forkDb newHead).pushTaken rules newHead
            block).1.forkDb.head = db.forkDb.head from
      ⟨rolled.1, rolled.2⟩
    unfold Database.pushTaken at threw ⊢
    rw [Database.taking_chain] at threw ⊢
    by_cases extension : newHead.previousId = db.chain.current.headBlockId
    · simp only [extension, if_true, Bool.or_eq_true, Bool.and_eq_true,
        Bool.not_eq_true'] at condition
      simp only [extension, ne_eq, not_true_eq_false, if_false] at threw ⊢
      cases returned :
          ((db.taking forkDb newHead).applyInSession rules block).2 with
      | true =>
          generalize
            (db.taking forkDb newHead).applyInSession rules block = out
            at returned threw
          obtain ⟨after, flag⟩ := out
          cases returned
          cases threw
      | false =>
          rw [returned] at condition
          obtain ⟨stays, notOwn⟩ := condition.resolve_left (by simp)
          have rolled :=
            applyInSession_refused returned
              (show commitsOwnSession rules
                (db.taking forkDb newHead).chain block = false from notOwn)
          have head := rolled.forkHead.trans (unmoved (by simp [stays]))
          have chain := rolled.chain
          generalize
            (db.taking forkDb newHead).applyInSession rules block = out
            at returned head chain
          obtain ⟨after, flag⟩ := out
          cases returned
          exact ⟨chain, head⟩
    · simp only [extension, if_false, Bool.or_eq_true, decide_eq_true_eq]
        at condition
      simp only [extension, ne_eq, not_false_eq_true, if_true] at threw ⊢
      by_cases above : newHead.num > db.chain.current.headBlockNum
      · rw [if_pos above] at threw ⊢
        have takenLinked :
            (db.taking forkDb newHead).forkDb.WellLinked allowed :=
          have linked :=
            wellLinked.pushBlock isAllowed numbered taken.accepted
          linked.shrink (fun _ member => member) linked.head
        exact switchForks_rolledBack functional takenLinked replayable
          unmoved (condition.resolve_left (by omega)) threw
      · rw [if_neg above] at threw
        cases threw

/-- No two different blocks of a run have the same id. -/
def NoTwins
    (opening : Opening Content Body Rest)
    (blocks : List (SignedBlock Content Body)) : Prop :=
  ∀ x ∈ opening.headBlock.toList ++ blocks,
    ∀ y ∈ opening.headBlock.toList ++ blocks, x.id = y.id → x = y

instance
    [DecidableEq Body]
    (opening : Opening Content Body Rest)
    (blocks : List (SignedBlock Content Body)) :
    Decidable (NoTwins opening blocks) :=
  inferInstanceAs (Decidable (∀ x ∈ _, ∀ y ∈ _, _))

/--
After any sequence of pushes, a push which throws leaves the chain state and
the fork database's head item as they were, provided it rolls back.
-/
theorem push_block_atomic
    [DecidableEq Body]
    (rules : Rules Content Body Rest)
    (opening : Opening Content Body Rest)
    (blocks : List (SignedBlock Content Body))
    (block : SignedBlock Content Body)
    (numbered : Numbered opening.database (blocks ++ [block]))
    (noTwins : NoTwins opening (blocks ++ [block]))
    (condition :
      rollsBack rules (opening.database.pushAll rules blocks) block = true)
    (threw :
      ((opening.database.pushAll rules blocks).pushBlock rules
        block).2 = .thrown) :
    RolledBack (opening.database.pushAll rules blocks)
      ((opening.database.pushAll rules blocks).pushBlock rules
        block).1 := by
  let pushed : SignedBlock Content Body → Prop :=
    fun x => x ∈ opening.headBlock.toList ++ (blocks ++ [block])
  have functional :
      ∀ x y, pushed x → pushed y → x.id = y.id → x = y :=
    fun x y isX isY => noTwins x isX y isY
  have linked : opening.database.forkDb.WellLinked pushed :=
    opening_wellLinked opening fun x isHead => by
      simp [pushed, Option.mem_def.1 isHead]
  have trail : Replayable rules pushed opening.database := trivial
  obtain ⟨numberedBefore, numberedLast⟩ :=
    numbered.append rules (opening_wellLinked opening fun _ _ => trivial)
  have moves :=
    pushAll_moves rules linked (fun x member => by simp [pushed, member])
      numberedBefore
  exact pushBlock_rolledBack functional (moves.forkDb linked)
    (moves.replay linked trail) (by simp [pushed])
    (fun headless => numberedLast headless block (by simp)) condition threw

/-- A chain of two blocks, and the first block of a bad branch. -/
def badBranchBlocks : List (SignedBlock Nat Bool) :=
  [sampleBlock firstBlock.id 1 true, sampleBlock firstBlock.id 2 false]

/-- The switch to the bad branch fails at its first block. -/
theorem push_block_atomic_bad_branch :
    ((sampleOpening.database.pushAll sampleRules badBranchBlocks).pushBlock
        sampleRules
        (sampleBlock (sampleBlock firstBlock.id 2 false).id 3
          true)).2 = .thrown ∧
      RolledBack
        (sampleOpening.database.pushAll sampleRules badBranchBlocks)
        ((sampleOpening.database.pushAll sampleRules
          badBranchBlocks).pushBlock sampleRules
            (sampleBlock (sampleBlock firstBlock.id 2 false).id 3
              true)).1 :=
  ⟨by decide,
    push_block_atomic sampleRules sampleOpening badBranchBlocks _
      (fun headless => by simp [sampleOpening, Opening.database,
        ForkDatabase.startBlock] at headless)
      (by decide) (by decide) (by decide)⟩

/-- A refused extension of the head stays the head of the fork database. -/
theorem refused_extension_stays_fork_head :
    (sampleOpening.database.pushBlock sampleRules
        (sampleBlock firstBlock.id 1 false)).2 = .thrown ∧
      ¬ RolledBack sampleOpening.database
        (sampleOpening.database.pushBlock sampleRules
          (sampleBlock firstBlock.id 1 false)).1 := by
  constructor
  · decide
  · intro rolled
    have head := rolled.forkHead
    revert head
    decide

end BMChain.Chain
