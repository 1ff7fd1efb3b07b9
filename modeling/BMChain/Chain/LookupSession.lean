import BMChain.Chain.BlockLookup

/-!
# Where one block leaves the chain to be looked up

The log gets the blocks of the chain, the fork database drops only what is in
the log, and the summaries go back with the state when a block is refused.  A
block which fails after it has made itself irreversible stays the head, and is
looked up in the log.
-/

namespace BMChain.Chain

open BMChain.Protocol BMChain.Foundation Std

variable {Content Body Rest : Type}

variable {head : ForkItem Content Body}

/-! ## Changes of the fork database -/

section Shelves

variable {main log : List (SignedBlock Content Body)}
    {forkDb after : ForkDatabase Content Body}

theorem mem_fetchBlockByNumber
    {item : ForkItem Content Body}
    {num : Nat} :
    item ∈ forkDb.fetchBlockByNumber num ↔
      item ∈ forkDb.index ∧ item.num = num := by
  rw [ForkDatabase.fetchBlockByNumber, List.mem_filter, decide_eq_true_iff]

theorem Shelved.of_index
    (shelved : Shelved main log forkDb)
    (same : after.index = forkDb.index) :
    Shelved main log after := by
  have fetch : ∀ num,
      after.fetchBlockByNumber num = forkDb.fetchBlockByNumber num := by
    intro num
    rw [ForkDatabase.fetchBlockByNumber, same]
    rfl
  refine ⟨shelved.older, ?_, ?_, ?_⟩
  · intro num above below
    rw [fetch]
    exact shelved.recent num above below
  · intro num item logged single
    exact shelved.settled num item logged (fetch num ▸ single)
  · rw [same]
    exact shelved.below

/-- At one height within the log, the fork database may change. -/
theorem Shelved.aside
    {height : Nat}
    (shelved : Shelved main log forkDb)
    (logged : height ≤ log.length)
    (others : ∀ num, num ≠ height →
      after.fetchBlockByNumber num = forkDb.fetchBlockByNumber num)
    (single : ∀ item, after.fetchBlockByNumber height = [item] →
      item.data ∈ log) :
    Shelved main log after := by
  refine ⟨shelved.older, ?_, ?_, ?_⟩
  · intro num above below
    rw [others num (by omega)]
    exact shelved.recent num above below
  · intro num item inside found
    by_cases same : num = height
    · subst same
      exact single item found
    · exact shelved.settled num item inside (others num same ▸ found)
  · intro item member
    by_cases same : item.num = height
    · rw [same]
      exact Nat.le_trans logged shelved.older.length_le
    · have listed := mem_fetchBlockByNumber.2 ⟨member, rfl⟩
      rw [others item.num same] at listed
      exact shelved.below item (mem_fetchBlockByNumber.1 listed).1

/-- What is dropped is in the log. -/
theorem Shelved.setMaxSize
    {size : Nat}
    (shelved : Shelved main log forkDb)
    (isHead : forkDb.head = some head)
    (low : head.num - size ≤ log.length) :
    Shelved main log (forkDb.setMaxSize size) := by
  have fetch : ∀ num, (forkDb.setMaxSize size).fetchBlockByNumber num =
      if num < head.num - size then []
      else forkDb.fetchBlockByNumber num := by
    intro num
    unfold ForkDatabase.fetchBlockByNumber ForkDatabase.setMaxSize
    rw [isHead]
    dsimp only
    rw [List.filter_filter]
    split
    case isTrue dropped =>
      refine List.filter_eq_nil_iff.2 ?_
      intro item member
      simp only [Bool.and_eq_true, decide_eq_true_eq, Bool.not_eq_true',
        decide_eq_false_iff_not, not_and, not_not]
      rintro rfl
      exact dropped
    case isFalse kept =>
      refine List.filter_congr ?_
      intro item member
      by_cases same : item.num = num
      · simp [same, kept]
      · simp [same]
  refine ⟨shelved.older, ?_, ?_, ?_⟩
  · intro num above below
    rw [fetch, if_neg (by omega)]
    exact shelved.recent num above below
  · intro num item logged single
    rw [fetch] at single
    split at single
    · cases single
    · exact shelved.settled num item logged single
  · intro item member
    exact shelved.below item ((setMaxSize_shrinks forkDb size).index item member)

end Shelves

/-! ## The log -/

section Log

variable {main : List (SignedBlock Content Body)}
    {db : Database Content Body Rest}

/-- What appending to the log up to a height leaves. -/
structure LogsTo (main : List (SignedBlock Content Body)) (last : Nat)
    (db after : Database Content Body Rest) (found : Bool) : Prop where
  shelved : Shelved main after.blockLog after.forkDb
  complete : found = true →
    after.blockLog.length = max db.blockLog.length last
  missing : found = false → after.blockLog = main ∧ main.length < last

/-- The next block of the chain is found for the log. -/
theorem Shelved.next
    (shelved : Shelved main db.blockLog db.forkDb)
    (chain : IsChain main)
    (below : db.blockLog.length < main.length) :
    ∃ item,
      db.forkDb.fetchBlockOnMainBranchByNumber (db.logHeadNum + 1) =
          some item ∧
        Shelved main (item.data :: db.blockLog) db.forkDb := by
  rcases shelved.recent _ (Nat.lt_succ_self _) below with
    ⟨item, single, found⟩
  refine ⟨item, ?_, chain.cons_suffix shelved.older found, ?_, ?_,
    shelved.below⟩
  · rw [(chain.suffix shelved.older).logHeadNum]
    unfold ForkDatabase.fetchBlockOnMainBranchByNumber
    rw [single]
  · intro num above reached
    exact shelved.recent num (Nat.lt_of_succ_lt above) reached
  · intro num other logged alone
    by_cases same : num = db.blockLog.length + 1
    · rw [same, single] at alone
      cases alone
      exact List.mem_cons_self
    · rw [List.length_cons] at logged
      exact List.mem_cons_of_mem _
        (shelved.settled num other (by omega) alone)

theorem appendToLog_logs
    (count : Nat)
    (db : Database Content Body Rest)
    (shelved : Shelved main db.blockLog db.forkDb)
    (chain : IsChain main) :
    LogsTo main (db.blockLog.length + count) db
      (Database.appendToLog count db).1
        (Database.appendToLog count db).2 := by
  induction count generalizing db with
  | zero => exact ⟨shelved, by simp [Database.appendToLog], by
      simp [Database.appendToLog]⟩
  | succ count induction =>
      unfold Database.appendToLog
      by_cases below : db.blockLog.length < main.length
      · rcases shelved.next chain below with ⟨item, found, next⟩
        rw [found]
        dsimp only
        have logs :=
          induction { db with blockLog := item.data :: db.blockLog } next
        refine ⟨logs.shelved, fun all => ?_, fun none => ?_⟩
        · rw [logs.complete all, List.length_cons]
          omega
        · rcases logs.missing none with ⟨whole, short⟩
          rw [List.length_cons] at short
          exact ⟨whole, by omega⟩
      · have whole : db.blockLog = main :=
          shelved.older.eq_of_length_le (Nat.le_of_not_lt below)
        have missing : db.forkDb.fetchBlockOnMainBranchByNumber
            (db.logHeadNum + 1) = none := by
          rw [(chain.suffix shelved.older).logHeadNum]
          unfold ForkDatabase.fetchBlockOnMainBranchByNumber
          rw [shelved.nothing_above
            (Nat.lt_succ_of_le (Nat.le_of_not_lt below))]
        rw [missing]
        refine ⟨shelved, by simp, fun _ => ⟨whole, ?_⟩⟩
        rw [whole]
        omega

/-- The commit logs what is irreversible, and drops only what is in the log. -/
theorem commitIrreversible_logs
    (db : Database Content Body Rest)
    (shelved : Shelved main db.blockLog db.forkDb)
    (chain : IsChain main)
    (isHead : db.forkDb.head = some head)
    (low : head.num ≤ main.length)
    (height : db.chain.current.headBlockNum = main.length)
    (near : main.length <
      db.chain.current.lastIrreversibleBlockNum + (2 ^ 32 - 1)) :
    LogsTo main db.chain.current.lastIrreversibleBlockNum db
      (Database.commitIrreversible db).1
        (Database.commitIrreversible db).2 := by
  have logHead := (chain.suffix shelved.older).logHeadNum
  have inside := shelved.older.length_le
  generalize last : db.chain.current.lastIrreversibleBlockNum = num at near
  have logs := appendToLog_logs (num - db.logHeadNum)
    { db with chain := db.chain.commit num } shelved chain
  have frame := Database.appendToLog_frame (num - db.logHeadNum)
    { db with chain := db.chain.commit num }
  have same : ({ db with chain := db.chain.commit num } :
      Database Content Body Rest).logHeadNum = db.logHeadNum := rfl
  unfold Database.commitIrreversible
  dsimp only
  rw [last, same]
  generalize Database.appendToLog (num - db.logHeadNum)
    { db with chain := db.chain.commit num } = out at logs frame ⊢
  rcases out with ⟨appended, found⟩
  rw [logHead] at logs
  cases found with
  | false =>
      rcases logs.missing rfl with ⟨whole, short⟩
      dsimp only at short
      refine ⟨logs.shelved, fun all => ?_, fun _ => ⟨whole, ?_⟩⟩
      · cases all
      · omega
  | true =>
      have complete : appended.blockLog.length = max db.blockLog.length
          (db.blockLog.length + (num - db.blockLog.length)) :=
        logs.complete rfl
      have long : appended.blockLog.length ≤ main.length :=
        logs.shelved.older.length_le
      have below : num ≤ main.length := by omega
      have size : (main.length + 2 ^ 32 - num + 1) % 2 ^ 32 =
          main.length - num + 1 := by
        omega
      refine ⟨?_, fun _ => ?_, fun missing => ?_⟩
      · refine logs.shelved.setMaxSize (frame.2.1 ▸ isHead) ?_
        show head.num - _ ≤ appended.blockLog.length
        rw [height, size]
        omega
      · show appended.blockLog.length = _
        omega
      · cases missing

theorem LogsTo.grows
    {last : Nat}
    {after : Database Content Body Rest}
    {found : Bool}
    (logs : LogsTo main last db after found)
    (older : db.blockLog <:+ main) :
    db.blockLog.length ≤ after.blockLog.length := by
  cases found with
  | false =>
      rw [(logs.missing rfl).1]
      exact older.length_le
  | true =>
      rw [logs.complete rfl]
      exact Nat.le_max_left _ _

end Log

/-! ## Applying a block -/

/-- The last irreversible block does not fall too far behind. -/
theorem newLastIrreversible_near
    {head last : Nat}
    (small : head < 2 ^ 32)
    (near : (head + (2 ^ 32 - last)) % 2 ^ 32 < maxUndoHistory)
    (confirmed : List Nat) :
    head < newLastIrreversible head last confirmed + (2 ^ 32 - 1) := by
  have above : startMinerVotingBlock ≤ head →
      last ≤ newLastIrreversible head last confirmed := by
    intro late
    unfold newLastIrreversible
    rw [if_neg (Nat.not_lt_of_le late)]
    dsimp only
    split
    · split <;> omega
    · exact Nat.le_refl _
  have start : startMinerVotingBlock < 2 ^ 32 - 1 := by decide
  by_cases top : head = 2 ^ 32 - 1
  · have positive : last ≠ 0 := by
      rintro rfl
      subst top
      exact absurd near (by decide)
    have reached := above (by omega)
    omega
  · omega

section Sessions

variable [DecidableEq Content]
    {stages : Stages Content Body Rest}
    {main : List (SignedBlock Content Body)}
    {db : Database Content Body (Summaries Content × Rest)}
    {block : SignedBlock Content Body}

/-- The state which a block on the head commits. -/
structure Headed
    (state head : ChainState Content (Summaries Content × Rest))
    (block : SignedBlock Content Body) : Prop where
  id : head.headBlockId = block.id
  number : head.headBlockNum = block.blockNum
  near : (block.blockNum + (2 ^ 32 - state.lastIrreversibleBlockNum)) %
    2 ^ 32 < maxUndoHistory
  behind : block.blockNum < head.lastIrreversibleBlockNum + (2 ^ 32 - 1)
  summaries : head.rest.1 = state.rest.1

/-- A block on the head is refused at first, or it is committed. -/
theorem applyBlock_stages
    (stages : Stages Content Body Rest)
    (db : Database Content Body (Summaries Content × Rest))
    (link : block.previous = db.chain.current.headBlockId) :
    (∃ rest, Database.applyBlock stages.rules db block =
      ({ db with
        chain := db.chain.update { db.chain.current with rest := rest } },
        false)) ∨
    ∃ head rest committed found returned,
      Headed db.chain.current head block ∧
      Database.commitIrreversible
          { db with chain := db.chain.update head } = (committed, found) ∧
      Database.applyBlock stages.rules db block =
        ({ committed with
          chain := (db.chain.update { head with rest := rest }).commit
            head.lastIrreversibleBlockNum }, returned) ∧
      (rest.1 = if found then
        createBlockSummary db.chain.current.rest.1 block
          else db.chain.current.rest.1) ∧
      (returned = true → found = true) := by
  unfold Database.applyBlock
  dsimp only
  rw [if_neg (not_not.2 link)]
  cases opened : stages.opening db.chain.current block with
  | error rest => exact .inl ⟨_, by simp only [Stages.rules, opened]; rfl⟩
  | ok rest =>
      by_cases near : (block.blockNum +
          (2 ^ 32 - db.chain.current.lastIrreversibleBlockNum)) % 2 ^ 32 <
        maxUndoHistory
      case neg =>
        exact .inl ⟨_, by simp only [Stages.rules, opened, if_neg near]; rfl⟩
      right
      have prelude : stages.rules.prelude db.chain.current block =
          .ok (db.chain.current.rest.1, rest) := by
        simp only [Stages.rules, opened, if_pos near]
      rw [prelude]
      dsimp only
      generalize headEq : Database.headState stages.rules db.chain.current
        block (db.chain.current.rest.1, rest) = head
      have headed : Headed db.chain.current head block := by
        subst headEq
        exact ⟨rfl, rfl, near,
          newLastIrreversible_near block.id.num_lt near _, rfl⟩
      have frame := (Database.commitIrreversible_frame
        { db with chain := db.chain.update head }).1
      generalize committedEq : Database.commitIrreversible
        { db with chain := db.chain.update head } = out at frame ⊢
      rcases out with ⟨committed, found⟩
      dsimp only at frame
      have moved : ∀ next, committed.chain.update next =
          (db.chain.update next).commit head.lastIrreversibleBlockNum := by
        intro next
        rw [frame]
        rfl
      cases found with
      | false =>
          refine ⟨head, head.rest, committed, false, false, headed,
            committedEq, ?_, headed.summaries, id⟩
          have same : (db.chain.update head).commit
              head.lastIrreversibleBlockNum = committed.chain := frame.symm
          show (committed, false) = _
          rw [same]
      | true =>
          cases closed : stages.closing
            { head with
              rest := (createBlockSummary db.chain.current.rest.1 block,
                head.rest.2) }
            block with
          | error last =>
              refine ⟨head, (createBlockSummary db.chain.current.rest.1 block,
                last), committed, true, false, headed, committedEq, ?_, rfl,
                by simp⟩
              simp only [Stages.rules, headed.summaries, closed, moved]
          | ok last =>
              refine ⟨head, (createBlockSummary db.chain.current.rest.1 block,
                last), committed, true, true, headed, committedEq, ?_, rfl,
                by simp⟩
              simp only [Stages.rules, headed.summaries, closed, moved]

/-- What a session leaves when its block is undone. -/
structure Undone (main : List (SignedBlock Content Body))
    (block : SignedBlock Content Body)
    (db after : Database Content Body (Summaries Content × Rest)) :
    Prop where
  current : after.chain.current = db.chain.current
  shelved : Shelved (block :: main) after.blockLog after.forkDb
  short : after.blockLog.length ≤ main.length
  grows : db.blockLog.length ≤ after.blockLog.length

/-- What a session leaves when its block is the new head. -/
structure Advanced (main : List (SignedBlock Content Body))
    (block : SignedBlock Content Body)
    (db after : Database Content Body (Summaries Content × Rest)) :
    Prop where
  head : after.chain.current.headBlockId = block.id
  height : after.chain.current.headBlockNum = block.blockNum
  near : (block.blockNum +
      (2 ^ 32 - db.chain.current.lastIrreversibleBlockNum)) % 2 ^ 32 <
    maxUndoHistory
  shelved : Shelved (block :: main) after.blockLog after.forkDb
  grows : db.blockLog.length ≤ after.blockLog.length
  summaries :
    after.chain.current.rest.1 =
        createBlockSummary db.chain.current.rest.1 block ∨
      after.chain.current.rest.1 = db.chain.current.rest.1 ∧
        after.blockLog = block :: main
  irreversible :
    min after.chain.current.lastIrreversibleBlockNum (main.length + 1) ≤
      after.blockLog.length

omit [DecidableEq Content] in
/-- The undo of a session finds its own state, or everything is committed. -/
theorem undo_session
    (chain : SnapshotStack (ChainState Content Rest))
    (coherent : Coherent chain)
    (next : ChainState Content Rest)
    (last : Nat) :
    (((chain.startSession.update next).commit last).undo.current =
        chain.current ∧ last ≤ chain.current.headBlockNum) ∨
      (((chain.startSession.update next).commit last).undo.current = next ∧
        chain.current.headBlockNum < last) := by
  have kept := keptAfter_cons last ⟨chain.revision + 1, chain.current⟩
    chain.saved
  have revision := coherent.revision
  unfold SnapshotStack.undo SnapshotStack.commit SnapshotStack.update
    SnapshotStack.startSession
  dsimp only
  change keptAfter last (⟨chain.revision + 1, chain.current⟩ ::
    chain.saved) = _ at kept
  unfold keptAfter at kept
  split at kept
  case isTrue all =>
    right
    rw [kept]
    have above := all.2
    dsimp only at above
    exact ⟨rfl, by omega⟩
  case isFalse some =>
    left
    rw [kept]
    refine ⟨rfl, ?_⟩
    by_contra above
    have whole : chain.current.headBlockNum ≤ last := by omega
    refine some ⟨coherent.trail.keptAfter_eq_nil whole, ?_⟩
    dsimp only
    omega

/-- A session of a block on the head. -/
theorem applyInSession_cases
    (link : block.previous = db.chain.current.headBlockId)
    (chain : IsChain (block :: main))
    (coherent : Coherent db.chain)
    (height : db.chain.current.headBlockNum = main.length)
    (shelved : Shelved (block :: main) db.blockLog db.forkDb)
    (short : db.blockLog.length ≤ main.length)
    (isHead : db.forkDb.head = some head)
    (low : head.num ≤ main.length + 1) :
    (Advanced main block db (db.applyInSession stages.rules block).1 ∧
      ((db.applyInSession stages.rules block).2 = false →
        (db.applyInSession stages.rules block).1.blockLog =
          block :: main)) ∨
    ((db.applyInSession stages.rules block).2 = false ∧
      Undone main block db (db.applyInSession stages.rules block).1) := by
  unfold Database.applyInSession
  rcases applyBlock_stages stages
    { db with chain := db.chain.startSession } link with
    ⟨rest, refused⟩ | ⟨next, rest, committed, found, returned, headed,
      commit, applied, summaries, returns⟩
  · rw [refused]
    exact .inr ⟨rfl, rfl, shelved, short, Nat.le_refl _⟩
  have number : block.blockNum = main.length + 1 := chain.2.1
  have nextHeight : next.headBlockNum = main.length + 1 :=
    headed.number.trans number
  have behind : main.length + 1 <
      next.lastIrreversibleBlockNum + (2 ^ 32 - 1) :=
    number ▸ headed.behind
  have logs : LogsTo (block :: main) next.lastIrreversibleBlockNum
      { db with chain := db.chain.startSession.update next } committed
        found := by
    have ran := commitIrreversible_logs
      { db with chain := db.chain.startSession.update next } shelved chain
        isHead low nextHeight behind
    have done : Database.commitIrreversible
        { db with chain := db.chain.startSession.update next } =
          (committed, found) := commit
    rw [done] at ran
    exact ran
  have grows : db.blockLog.length ≤ committed.blockLog.length :=
    logs.grows shelved.older
  have long := logs.shelved.older.length_le
  rw [List.length_cons] at long
  have whole : main.length < next.lastIrreversibleBlockNum →
      committed.blockLog = block :: main := by
    intro above
    cases found with
    | false => exact (logs.missing rfl).1
    | true =>
        have complete := logs.complete rfl
        refine logs.shelved.older.eq_of_length_le ?_
        rw [complete, List.length_cons]
        exact Nat.le_trans above (Nat.le_max_right _ _)
  have settled : min next.lastIrreversibleBlockNum (main.length + 1) ≤
      committed.blockLog.length := by
    cases found with
    | false =>
        rw [(logs.missing rfl).1]
        exact Nat.min_le_right _ _
    | true =>
        rw [logs.complete rfl]
        exact Nat.le_trans (Nat.min_le_left _ _) (Nat.le_max_right _ _)
  have written : rest.1 =
        createBlockSummary db.chain.current.rest.1 block ∨
      rest.1 = db.chain.current.rest.1 ∧
        committed.blockLog = block :: main := by
    cases found with
    | false => exact .inr ⟨summaries, (logs.missing rfl).1⟩
    | true => exact .inl summaries
  rw [applied]
  cases returned with
  | true =>
      refine .inl ⟨⟨headed.id, headed.number, headed.near, logs.shelved,
        grows, written, settled⟩, ?_⟩
      intro failed
      cases failed
  | false =>
      rcases undo_session db.chain coherent { next with rest := rest }
        next.lastIrreversibleBlockNum with ⟨back, below⟩ | ⟨kept, above⟩
      · right
        refine ⟨rfl, back, logs.shelved, ?_, grows⟩
        rw [height] at below
        cases found with
        | false =>
            have above := (logs.missing rfl).2
            rw [List.length_cons] at above
            omega
        | true =>
            show committed.blockLog.length ≤ main.length
            rw [logs.complete rfl]
            exact Nat.max_le.2 ⟨short, below⟩
      · left
        rw [height] at above
        refine ⟨⟨?_, ?_, headed.near, logs.shelved, grows, ?_, ?_⟩,
          fun _ => whole above⟩
        · exact (congrArg ChainState.headBlockId kept).trans headed.id
        · exact (congrArg ChainState.headBlockNum kept).trans headed.number
        · dsimp only
          rw [kept]
          exact written
        · dsimp only
          rw [kept]
          exact settled

end Sessions

end BMChain.Chain
