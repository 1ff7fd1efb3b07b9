import BMChain.Chain.BlockSession

/-!
# Applying popped blocks again

When a switch fails, the handler applies the blocks of the old branch again.
This leads back to the state before, because every state on the undo stack
came from the one below it by applying a block, and because what applying
that block made irreversible is in the block log already: the log loop, the
only part of `apply_block` which depends on more than the state, has nothing
to do the second time.
-/

namespace BMChain.Chain

open BMChain.Protocol
open BMChain.Foundation

variable {Content Body Rest : Type} [DecidableEq Content]

variable {block : SignedBlock Content Body} {fuel : Nat}
    {items : List (ForkItem Content Body)}

variable {target : BlockId Content}
variable {allowed : SignedBlock Content Body → Prop}

/-! ## The block log -/

namespace Database

variable {db : Database Content Body Rest}

omit [DecidableEq Content] in
/-- Every round of the log loop appends the next block. -/
theorem appendToLog_logHeadNum
    (count : Nat)
    (wellLinked : db.forkDb.WellLinked allowed) :
    db.logHeadNum ≤ (appendToLog count db).1.logHeadNum ∧
      ((appendToLog count db).2 = true →
        (appendToLog count db).1.logHeadNum = db.logHeadNum + count) := by
  induction count generalizing db with
  | zero => exact ⟨le_rfl, fun _ => rfl⟩
  | succ count induction =>
      unfold appendToLog
      split
      · exact ⟨le_rfl, by simp⟩
      · rename_i item found
        have num :=
          ForkDatabase.fetchBlockOnMainBranchByNumber_num wellLinked found
        let next : Database Content Body Rest :=
          { db with blockLog := item.data :: db.blockLog }
        have nextNum : next.logHeadNum = db.logHeadNum + 1 := num
        have nextLinked : next.forkDb.WellLinked allowed := wellLinked
        obtain ⟨grows, reached⟩ := induction nextLinked
        change _ ≤ (appendToLog count next).1.logHeadNum ∧
          ((appendToLog count next).2 = true →
            (appendToLog count next).1.logHeadNum = _)
        refine ⟨by omega, fun returned => ?_⟩
        have := reached returned
        omega

omit [DecidableEq Content] in
/-- After the commit, the log reaches up to the irreversible block. -/
theorem commitIrreversible_logHeadNum
    (db : Database Content Body Rest)
    (wellLinked : db.forkDb.WellLinked allowed) :
    db.logHeadNum ≤ (commitIrreversible db).1.logHeadNum ∧
      ((commitIrreversible db).2 = true →
        db.chain.current.lastIrreversibleBlockNum ≤
          (commitIrreversible db).1.logHeadNum) := by
  let last := db.chain.current.lastIrreversibleBlockNum
  let committed : Database Content Body Rest :=
    { db with chain := db.chain.commit last }
  have committedLinked : committed.forkDb.WellLinked allowed := wellLinked
  obtain ⟨grows, reached⟩ :=
    appendToLog_logHeadNum (last - db.logHeadNum) committedLinked
  have same : committed.logHeadNum = db.logHeadNum := rfl
  unfold commitIrreversible
  dsimp only
  split
  · rename_i after appended
    rw [show appendToLog (last - db.logHeadNum) committed = _ from
      appended] at grows
    exact ⟨grows, by simp⟩
  · rename_i after appended
    rw [show appendToLog (last - db.logHeadNum) committed = _ from
      appended] at grows reached
    refine ⟨grows, fun _ => ?_⟩
    have full := reached rfl
    simp only [same] at full
    change last ≤ after.logHeadNum
    omega

/-- The log only grows, and reaches up to what an applied block commits. -/
theorem applyInSession_logHeadNum
    (rules : Rules Content Body Rest)
    (wellLinked : db.forkDb.WellLinked allowed)
    (block : SignedBlock Content Body) :
    db.logHeadNum ≤ (applyInSession rules db block).1.logHeadNum ∧
      ((applyInSession rules db block).2 = true →
        (applyInSession rules db
            block).1.chain.current.lastIrreversibleBlockNum ≤
          (applyInSession rules db block).1.logHeadNum) := by
  have applied :
      db.logHeadNum ≤
          (applyBlock rules { db with chain := db.chain.startSession }
            block).1.logHeadNum ∧
        ((applyBlock rules { db with chain := db.chain.startSession }
            block).2 = true →
          (applyBlock rules { db with chain := db.chain.startSession }
              block).1.chain.current.lastIrreversibleBlockNum ≤
            (applyBlock rules { db with chain := db.chain.startSession }
              block).1.logHeadNum) := by
    unfold applyBlock
    dsimp only
    split
    · exact ⟨le_rfl, by simp⟩
    · split
      · exact ⟨le_rfl, by simp⟩
      · rename_i rest passed
        have log :=
          commitIrreversible_logHeadNum
            { db with
              chain :=
                db.chain.startSession.update
                  (headState rules db.chain.startSession.current block
                    rest) }
            wellLinked
        split
        · rename_i after failed
          rw [failed] at log
          exact ⟨log.1, by simp⟩
        · rename_i after committed
          rw [committed] at log
          split
          · exact ⟨log.1, by simp⟩
          · exact ⟨log.1, fun _ => log.2 rfl⟩
  unfold applyInSession
  split
  · rename_i after returned
    rw [returned] at applied
    exact applied
  · rename_i after failed
    rw [failed] at applied
    exact ⟨applied.1, by simp⟩

end Database

/-! ## The trail of applied blocks -/

/--
Every state on the stack leads to the one above it by a block, and the log
reaches up to what that block has made irreversible.
-/
def ReplayTrail
    (rules : Rules Content Body Rest)
    (allowed : SignedBlock Content Body → Prop)
    (logged : Nat) :
    ChainState Content Rest →
      List (Snapshot (ChainState Content Rest)) → Prop
  | _, [] => True
  | state, older :: rest =>
      (∃ block,
        Admissible allowed block ∧
        appliedState rules older.state block = some state ∧
        state.lastIrreversibleBlockNum ≤ logged) ∧
      ReplayTrail rules allowed logged older.state rest

/-- The chain of a database has such a trail. -/
def Replayable
    (rules : Rules Content Body Rest)
    (allowed : SignedBlock Content Body → Prop)
    (db : Database Content Body Rest) : Prop :=
  ReplayTrail rules allowed db.logHeadNum db.chain.current db.chain.saved

namespace ReplayTrail

variable {rules : Rules Content Body Rest}
variable {logged more : Nat}
variable {state : ChainState Content Rest}
variable {saved kept : List (Snapshot (ChainState Content Rest))}

theorem mono
    (trail : ReplayTrail rules allowed logged state saved)
    (grows : logged ≤ more) :
    ReplayTrail rules allowed more state saved := by
  induction saved generalizing state with
  | nil => trivial
  | cons older rest induction =>
      obtain ⟨⟨block, admissible, accepted, covered⟩, deeper⟩ := trail
      exact ⟨⟨block, admissible, accepted, covered.trans grows⟩,
        induction deeper⟩

theorem shorten
    (trail : ReplayTrail rules allowed logged state saved)
    (shorter : kept <+: saved) :
    ReplayTrail rules allowed logged state kept := by
  induction saved generalizing state kept with
  | nil =>
      rw [List.prefix_nil] at shorter
      exact shorter ▸ trivial
  | cons older rest induction =>
      rcases List.prefix_cons_iff.1 shorter with rfl | ⟨kept', rfl, shorter'⟩
      · trivial
      · exact ⟨trail.1, induction trail.2 shorter'⟩

end ReplayTrail

omit [DecidableEq Content] in
theorem prefix_of_keptAfter
    (last : Nat)
    (saved : List (Snapshot (ChainState Content Rest))) :
    keptAfter last saved <+: saved :=
  List.rdropWhile_prefix _ _

namespace Replayable

variable {rules : Rules Content Body Rest}
variable {db after : Database Content Body Rest}

theorem undo
    (replayable : Replayable rules allowed db)
    (chain : after.chain = db.chain.undo)
    (log : after.blockLog = db.blockLog) :
    Replayable rules allowed after := by
  have sameLog : after.logHeadNum = db.logHeadNum := by
    simp [Database.logHeadNum, log]
  unfold Replayable at replayable ⊢
  rw [sameLog, chain]
  unfold SnapshotStack.undo
  split
  · exact replayable
  · rename_i top rest shape
    rw [shape] at replayable
    exact replayable.2

theorem applyInSession
    (replayable : Replayable rules allowed db)
    (wellLinked : db.forkDb.WellLinked allowed)
    (admissible : Admissible allowed block) :
    Replayable rules allowed (db.applyInSession rules block).1 := by
  obtain ⟨effect, -⟩ := Database.applyInSession_effect rules db block
  obtain ⟨grows, covered⟩ :=
    Database.applyInSession_logHeadNum rules wellLinked block
  unfold Replayable at replayable ⊢
  generalize db.applyInSession rules block = out at *
  obtain ⟨after, returned⟩ := out
  have trail := replayable.mono grows
  dsimp only at effect trail covered ⊢
  generalize after.chain = chain at effect covered ⊢
  cases effect with
  | refused => exact trail
  | applied accepted =>
      refine ReplayTrail.shorten ?_ (prefix_of_keptAfter _ _)
      exact ⟨⟨block, admissible, accepted, covered rfl⟩, trail⟩
  | undone last => exact trail.shorten (prefix_of_keptAfter _ _)
  | halfApplied => trivial

end Replayable

/-! ## Popping and applying again -/

/-- Applying the blocks of the items, oldest first, leads to `target`. -/
def LeadsTo
    (rules : Rules Content Body Rest)
    (logged : Nat) :
    ChainState Content Rest → List (ForkItem Content Body) →
      ChainState Content Rest → Prop
  | state, [], target => state = target
  | state, item :: items, target =>
      ∃ next,
        appliedState rules state item.data = some next ∧
        next.lastIrreversibleBlockNum ≤ logged ∧
        LeadsTo rules logged next items target

theorem LeadsTo.append
    {rules : Rules Content Body Rest}
    {logged : Nat}
    {state middle target : ChainState Content Rest}
    {items more : List (ForkItem Content Body)}
    (first : LeadsTo rules logged state items middle)
    (second : LeadsTo rules logged middle more target) :
    LeadsTo rules logged state (items ++ more) target := by
  induction items generalizing state with
  | nil => exact (first : state = middle) ▸ second
  | cons item items induction =>
      obtain ⟨next, accepted, covered, rest⟩ := first
      exact ⟨next, accepted, covered, induction rest⟩

/-- The pop loop touches neither the index of the fork database nor the log. -/
theorem popUntil_frame
    (target : BlockId Content)
    (fuel : Nat)
    (db : Database Content Body Rest) :
    (db.popUntil target fuel).1.forkDb.index = db.forkDb.index ∧
      (db.popUntil target fuel).1.blockLog = db.blockLog := by
  induction fuel generalizing db with
  | zero => exact ⟨rfl, rfl⟩
  | succ fuel induction =>
      unfold Database.popUntil
      split
      · exact ⟨rfl, rfl⟩
      · split
        · rename_i failed
          rw [popBlock_failed failed]
          exact ⟨rfl, rfl⟩
        · rename_i popped
          obtain ⟨forkDb, poppedFork, rfl⟩ := popBlock_popped popped
          simp only [ForkDatabase.popBlock, Option.bind_eq_bind,
            Option.bind_eq_some_iff] at poppedFork
          obtain ⟨head, -, prev, -, same⟩ := poppedFork
          cases same
          exact induction _

/-- With an empty undo stack the pop loop gets nowhere. -/
theorem popUntil_stuck
    (fuel : Nat)
    {db : Database Content Body Rest}
    (empty : db.chain.saved = [])
    (different : db.chain.current.headBlockId ≠ target) :
    (db.popUntil target fuel).2 = false := by
  induction fuel generalizing db with
  | zero => exact decide_eq_false different
  | succ fuel induction =>
      unfold Database.popUntil
      rw [if_neg different]
      split
      · rfl
      · rename_i popped
        obtain ⟨forkDb, -, rfl⟩ := popBlock_popped popped
        have undone : db.chain.undo = db.chain := by
          simp [SnapshotStack.undo, empty]
        refine induction ?_ ?_ <;> simpa only [undone]

theorem popUntil_reached
    (fuel : Nat)
    {db : Database Content Body Rest}
    (reached : db.chain.current.headBlockId = target) :
    db.popUntil target fuel = (db, true) := by
  cases fuel <;> simp [Database.popUntil, reached]

theorem popUntil_target
    {db after : Database Content Body Rest}
    (popped : db.popUntil target fuel = (after, true)) :
    after.chain.current.headBlockId = target := by
  induction fuel generalizing db with
  | zero =>
      cases (congrArg Prod.fst popped : db = after)
      exact of_decide_eq_true (congrArg Prod.snd popped)
  | succ fuel induction =>
      unfold Database.popUntil at popped
      split at popped
      · rename_i reached
        cases popped
        exact reached
      · split at popped
        · cases popped
        · exact induction popped

/-- Popping a branch reaches a state from which it leads back. -/
theorem popUntil_leadsTo
    {rules : Rules Content Body Rest}
    (functional :
      ∀ x y, allowed x → allowed y → x.id = y.id → x = y)
    (linked : ∀ item ∈ items, LinkedChain allowed item.chain)
    {db after : Database Content Body Rest}
    (branch :
      ForkDatabase.Branch db.chain.current.headBlockId items target)
    (replayable : Replayable rules allowed db)
    (popped : db.popUntil target fuel = (after, true)) :
    LeadsTo rules db.logHeadNum after.chain.current items.reverse
      db.chain.current := by
  induction fuel generalizing db items with
  | zero =>
      have below := branch.num_lt linked
      have reached : db.chain.current.headBlockId = target := by
        simpa [Database.popUntil] using congrArg Prod.snd popped
      rw [reached] at below
      exact absurd below (lt_irrefl _)
  | succ fuel induction =>
      have different : db.chain.current.headBlockId ≠ target := by
        intro reached
        have below := branch.num_lt linked
        rw [reached] at below
        exact absurd below (lt_irrefl _)
      unfold Database.popUntil at popped
      rw [if_neg different] at popped
      split at popped
      · cases popped
      rename_i middle poppedOne
      obtain ⟨forkDb, -, rfl⟩ := popBlock_popped poppedOne
      cases shape : db.chain.saved with
      | nil =>
          have undone : db.chain.undo = db.chain := by
            simp [SnapshotStack.undo, shape]
          have stuck := congrArg Prod.snd popped
          rw [popUntil_stuck fuel (by simpa only [undone])
            (by simpa only [undone])] at stuck
          cases stuck
      | cons top rest =>
          have undone :
              db.chain.undo = ⟨top.state, db.chain.revision - 1, rest⟩ := by
            simp [SnapshotStack.undo, shape]
          simp only [undone] at popped
          unfold Replayable at replayable
          rw [shape] at replayable
          obtain ⟨⟨block, admissible, accepted, covered⟩, deeper⟩ :=
            replayable
          have next := appliedState_next accepted
          rw [next.headBlockId] at branch
          -- The branch's newest item holds the block which was applied.
          have isBlock
              {item : ForkItem Content Body}
              (member : item ∈ items)
              (same : block.id = item.id) :
              block = item.data :=
            functional block item.data admissible.allowed
              (linked item member).admissible.allowed same
          generalize topId : block.id = id at branch isBlock
          cases branch with
          | single item =>
              have same := isBlock (List.mem_singleton.2 rfl) rfl
              have reached : top.state.headBlockId = item.previousId := by
                rw [← next.link, same]
                rfl
              rw [popUntil_reached fuel reached] at popped
              cases popped
              exact ⟨_, same ▸ accepted, covered, rfl⟩
          | @cons item older base olderBranch =>
              have same := isBlock (List.mem_cons_self) rfl
              have link : item.previousId = top.state.headBlockId := by
                rw [← next.link, same]
                rfl
              rw [link] at olderBranch
              rw [List.forall_mem_cons] at linked
              have leads :=
                induction linked.2
                  (by exact olderBranch) (by exact deeper) popped
              rw [List.reverse_cons]
              exact leads.append ⟨_, same ▸ accepted, covered, rfl⟩

/-- A block which led to a state before leads there again. -/
theorem applyInSession_again
    {rules : Rules Content Body Rest}
    {db : Database Content Body Rest}
    {next : ChainState Content Rest}
    (accepted : appliedState rules db.chain.current block = some next)
    (covered : next.lastIrreversibleBlockNum ≤ db.logHeadNum) :
    (db.applyInSession rules block).2 = true ∧
      (db.applyInSession rules block).1.chain.current = next ∧
      (db.applyInSession rules block).1.logHeadNum = db.logHeadNum := by
  unfold appliedState at accepted
  split at accepted
  · cases accepted
  rename_i link
  split at accepted
  · cases accepted
  rename_i rest prelude
  dsimp only at accepted
  split at accepted
  · cases accepted
  rename_i rest' maintenance
  cases accepted
  -- The log has everything already, so the commit cannot fail.
  have nothing :
      (Database.headState rules db.chain.current block
        rest).lastIrreversibleBlockNum - db.logHeadNum = 0 :=
    Nat.sub_eq_zero_of_le covered
  unfold Database.applyInSession Database.applyBlock
    Database.commitIrreversible
  simp only [SnapshotStack.startSession, SnapshotStack.update,
    SnapshotStack.commit, link, if_false, prelude]
  unfold Database.logHeadNum at nothing ⊢
  simp only [nothing, Database.appendToLog, maintenance, and_self]

/-- Blocks which led to a state before lead there again. -/
theorem applyBranch_again
    {rules : Rules Content Body Rest}
    {logged : Nat}
    {db : Database Content Body Rest}
    {target : ChainState Content Rest}
    (leads : LeadsTo rules logged db.chain.current items target)
    (log : logged ≤ db.logHeadNum) :
    (db.applyBranch rules items).1.chain.current = target ∧
      (db.applyBranch rules items).1.forkDb.head = db.forkDb.head := by
  induction items generalizing db with
  | nil => exact ⟨leads, rfl⟩
  | cons item items induction =>
      obtain ⟨next, accepted, covered, rest⟩ := leads
      obtain ⟨returned, current, sameLog⟩ :=
        applyInSession_again accepted (covered.trans log)
      have shrinks :=
        (Database.applyInSession_effect rules db item.data).2.1.head
      unfold Database.applyBranch
      generalize db.applyInSession rules item.data = out at *
      obtain ⟨after, flag⟩ := out
      cases returned
      dsimp only at current sameLog shrinks ⊢
      rw [← current] at rest
      rw [← shrinks]
      exact induction rest (sameLog ▸ log)

end BMChain.Chain
