import BMChain.Chain.Opening

/-!
# The head of the fork database

`push_block` compares the head of the fork database with the head of the
applied chain.  Two things part them.  A block which becomes the fork head
and is then refused stays the fork head; and `pop_block`, called while
switching, moves the fork head back along the new branch.  Runs in which
neither happens keep the heads together.
-/

namespace BMChain.Chain

open BMChain.Protocol
open BMChain.Foundation

variable {Content Body Rest : Type} [DecidableEq Content]

variable {rules : Rules Content Body Rest} {db : Database Content Body Rest}
    {block : SignedBlock Content Body}

/-- `_fork_db.head()->id` equals `head_block_id()`. -/
def HeadsAgree (db : Database Content Body Rest) : Prop :=
  db.forkDb.head.map ForkItem.id = some db.chain.current.headBlockId

instance (db : Database Content Body Rest) : Decidable (HeadsAgree db) :=
  inferInstanceAs (Decidable (_ = _))

/--
A block which becomes the head of the fork database extends the applied head
and its application returns.
-/
def extendsHead
    (rules : Rules Content Body Rest)
    (db : Database Content Body Rest)
    (block : SignedBlock Content Body) : Bool :=
  match db.forkDb.pushBlock block with
  | .error _ => true
  | .ok forkDb =>
      forkDb.head.all fun newHead =>
        ! db.forkDb.becomesHead block ||
          decide (block.previous = db.chain.current.headBlockId) &&
            ((db.taking forkDb newHead).applyInSession rules block).2

/-- The condition on every push of a run. -/
def ExtendsHead
    (rules : Rules Content Body Rest)
    (db : Database Content Body Rest)
    (block : SignedBlock Content Body) : Prop :=
  extendsHead rules db block = true

instance
    (rules : Rules Content Body Rest)
    (db : Database Content Body Rest)
    (block : SignedBlock Content Body) :
    Decidable (ExtendsHead rules db block) :=
  inferInstanceAs (Decidable (_ = true))

theorem ExtendsHead.applied
    (extendsHead_ : ExtendsHead rules db block)
    {forkDb : ForkDatabase Content Body}
    {newHead : ForkItem Content Body}
    (taken : Taken db block forkDb newHead)
    (becomes : db.forkDb.becomesHead block = true) :
    block.previous = db.chain.current.headBlockId ∧
      ((db.taking forkDb newHead).applyInSession rules block).2 = true := by
  simpa [ExtendsHead, extendsHead, taken.accepted, taken.isHead, becomes]
    using extendsHead_

omit [DecidableEq Content] in
theorem BlockId_header_ne
    (content : Content)
    (previous : BlockId Content) :
    BlockId.header content previous ≠ previous := by
  intro same
  have := congrArg sizeOf same
  simp at this

/-- The heads agree, or nothing has been pushed to a fresh database yet. -/
structure HeadsTogether
    (db : Database Content Body Rest) : Prop where
  number :
    db.chain.current.headBlockNum = db.chain.current.headBlockId.num
  heads : db.forkDb.head = none ∨ HeadsAgree db

theorem opening_together
    (opening : Opening Content Body Rest) :
    HeadsTogether opening.database := by
  unfold Opening.database
  cases headBlock : opening.headBlock with
  | none =>
      obtain ⟨num, id⟩ := opening.fresh headBlock
      exact ⟨by simp [SnapshotStack.opened, num, id, BlockId.num],
        .inl rfl⟩
  | some block =>
      obtain ⟨id, num, -⟩ := opening.started block headBlock
      refine ⟨?_, .inr ?_⟩
      · simp [SnapshotStack.opened, ← id, ← num]
      · simp [HeadsAgree, SnapshotStack.opened,
          ForkDatabase.startBlock, ForkItem.id, id]

/-- A block applied on the head is the new head. -/
theorem applyInSession_head
    (returned : (db.applyInSession rules block).2 = true) :
    (db.applyInSession rules block).1.chain.current.headBlockId = block.id ∧
      (db.applyInSession rules block).1.chain.current.headBlockNum =
        block.blockNum ∧
      (db.applyInSession rules block).1.forkDb.head = db.forkDb.head := by
  obtain ⟨effect, shrinks, -⟩ :=
    Database.applyInSession_effect rules db block
  rw [returned] at effect
  generalize chainEq : (db.applyInSession rules block).1.chain = chain
    at effect
  cases effect with
  | applied accepted =>
      have next := appliedState_next accepted
      exact ⟨next.headBlockId, next.headBlockNum, shrinks.head⟩

/-- A push in such a run either changes nothing or advances both heads. -/
theorem pushBlock_heads
    (together : HeadsTogether db)
    (extends_ : ExtendsHead rules db block) :
    HeadsTogether (db.pushBlock rules block).1 ∧
      ∀ switched,
        (db.pushBlock rules block).2 = .returned switched →
          HeadsAgree (db.pushBlock rules block).1 := by
  rcases pushBlock_cases rules db block with
    ⟨-, refused⟩ | ⟨forkDb, newHead, taken, pushed⟩
  · rw [refused]
    exact ⟨together, by simp⟩
  · rw [pushed]
    cases becomes : db.forkDb.becomesHead block
    case true =>
      -- The new item is applied on the head: both heads advance.
      obtain ⟨link, returned⟩ := extends_.applied taken becomes
      have data := taken.new becomes
      obtain ⟨headId, headNum, head⟩ := applyInSession_head returned
      have linked :
          newHead.previousId =
            (db.taking forkDb newHead).chain.current.headBlockId := by
        simpa [ForkItem.previousId, data] using link
      unfold Database.pushTaken
      rw [if_neg (not_not.2 linked)]
      generalize
        (db.taking forkDb newHead).applyInSession rules block = out
        at returned headId headNum head
      obtain ⟨after, flag⟩ := out
      simp only at returned headId headNum head
      subst returned
      have agree : HeadsAgree after.release := by
        simp [HeadsAgree, head, headId, taken.isHead, ForkItem.id, data]
      refine ⟨⟨?_, .inr agree⟩, fun _ _ => agree⟩
      simpa [headId] using headNum
    case false =>
      -- The old head is returned, and it is no candidate for anything.
      have old := taken.old becomes
      have agree : HeadsAgree db := by
        rcases together.heads with none | agree
        · simp [none] at old
        · exact agree
      have sameId : newHead.id = db.chain.current.headBlockId := by
        simpa [HeadsAgree, old] using agree
      have notLinked :
          newHead.previousId ≠
            (db.taking forkDb newHead).chain.current.headBlockId := by
        change newHead.previousId ≠ db.chain.current.headBlockId
        rw [← sameId]
        exact (BlockId_header_ne _ _).symm
      have notAbove :
          ¬ newHead.num >
            (db.taking forkDb newHead).chain.current.headBlockNum := by
        change ¬ newHead.num > db.chain.current.headBlockNum
        rw [together.number, ← sameId]
        simp [ForkItem.num, ForkItem.id]
      unfold Database.pushTaken
      rw [if_pos notLinked, if_neg notAbove]
      have agree' :
          HeadsAgree (db.taking forkDb newHead).release := by
        simpa [HeadsAgree, taken.isHead] using sameId
      exact ⟨⟨together.number, .inr agree'⟩, fun _ _ => agree'⟩

/--
Fork head and applied head agree after every push which returns, in every run
whose pushes do not switch forks and do not leave a refused fork head.
-/
theorem fork_head_agrees
    (rules : Rules Content Body Rest)
    (opening : Opening Content Body Rest)
    (blocks : List (SignedBlock Content Body))
    (block : SignedBlock Content Body)
    (steps :
      StepsMeet (ExtendsHead rules) rules opening.database
        (blocks ++ [block]))
    (switched : Bool)
    (returned :
      ((opening.database.pushAll rules blocks).pushBlock rules block).2 =
        .returned switched) :
    HeadsAgree
      ((opening.database.pushAll rules blocks).pushBlock rules
        block).1 := by
  obtain ⟨before, last, -⟩ := stepsMeet_append.1 steps
  have together :
      HeadsTogether (opening.database.pushAll rules blocks) :=
    pushAll_invariant HeadsTogether
      (fun db block together extends_ =>
        (pushBlock_heads together extends_).1)
      (opening_together opening) before
  exact (pushBlock_heads together last).2 switched returned

/-- Two blocks on the first block, one after the other. -/
def extendingBlocks : List (SignedBlock Nat Bool) :=
  let second := sampleBlock firstBlock.id 1 true
  [second, sampleBlock second.id 2 true]

theorem fork_head_agrees_extending :
    HeadsAgree
      ((sampleOpening.database.pushAll sampleRules
          (extendingBlocks.take 1)).pushBlock sampleRules
        (sampleBlock (sampleBlock firstBlock.id 1 true).id 2 true)).1 :=
  fork_head_agrees sampleRules sampleOpening (extendingBlocks.take 1)
    (sampleBlock (sampleBlock firstBlock.id 1 true).id 2 true)
    (by decide) false (by decide)

/-- Three blocks: one on the first block, and a longer branch beside it. -/
def switchingBlocks : List (SignedBlock Nat Bool) :=
  let beside := sampleBlock firstBlock.id 2 true
  [sampleBlock firstBlock.id 1 true, beside, sampleBlock beside.id 3 true]

/--
After a switch by one block the fork head is one block behind the applied
head, although `push_block` has returned.
-/
theorem fork_head_behind_after_switch :
    ((sampleOpening.database.pushAll sampleRules
        (switchingBlocks.take 2)).pushBlock sampleRules
          (sampleBlock (sampleBlock firstBlock.id 2 true).id 3 true)).2 =
        .returned true ∧
      ¬ HeadsAgree
        (sampleOpening.database.pushAll sampleRules switchingBlocks) := by
  decide

end BMChain.Chain
