import BMChain.Chain.KnownBlock
import BMChain.Chain.LookupSession

/-!
# Lookups in whole runs

The lookups by number follow the chain as long as no push leaves a block beside
the chain in the fork database, above the log.
-/

namespace BMChain.Chain

open BMChain.Protocol BMChain.Foundation Std

variable {Content Body Rest : Type}

variable {log : List (SignedBlock Content Body)} {num : Nat}
    {after : Database Content Body (Summaries Content × Rest)}
    {rules : Rules Content Body Rest}

variable {item : ForkItem Content Body}

/-! ## Runs on one chain -/

/-- An opening with the log of a chain whose newest block is the head. -/
structure LoggedOpening (Content Body Rest : Type)
    extends Opening Content Body (Summaries Content × Rest) where
  chain : IsChain blockLog
  newest : headBlock = blockLog.head?
  summaries : ∀ num, 0 < num → (summaryOf state.rest.1 num).num = num →
    (blockAt blockLog num).map SignedBlock.id = some (summaryOf state.rest.1 num)

section Runs

variable [DecidableEq Content]

/--
What the fork database keeps of a block which is not applied: nothing when its
head calls for applying the block, which is refused then.
-/
def keptAside
    (db : Database Content Body Rest)
    (forkDb : ForkDatabase Content Body)
    (newHead : ForkItem Content Body)
    (block : SignedBlock Content Body) :
    ForkDatabase Content Body :=
  if newHead.previousId = db.chain.current.headBlockId then
    forkDb.remove block.id
  else forkDb

/--
A block stays on the chain if the fork database refuses it, if it builds on the
applied head, if it leaves the items of the fork database as they are, or if it
is not above the log and does not leave a single foreign block at its height.
-/
def StaysOnChain
    (db : Database Content Body Rest)
    (block : SignedBlock Content Body) : Prop :=
  ∀ forkDb newHead, Taken db block forkDb newHead →
    block.previous = db.chain.current.headBlockId ∨
      (Known db block ↔
        newHead.previousId ≠ db.chain.current.headBlockId) ∨
      block.blockNum ≤ db.logHeadNum ∧
        ∀ item, (keptAside db forkDb newHead block).fetchBlockByNumber
            block.blockNum = [item] →
          item.data ∈ db.blockLog

/-- The chain after a push: a new head is the pushed block. -/
def chainAfter
    (rules : Rules Content Body Rest)
    (db : Database Content Body Rest)
    (block : SignedBlock Content Body)
    (main : List (SignedBlock Content Body)) :
    List (SignedBlock Content Body) :=
  if (db.pushBlock rules block).1.chain.current.headBlockId =
      db.chain.current.headBlockId then main
  else block :: main

/-- The chain after a run. -/
def chainAfterAll
    (rules : Rules Content Body Rest) :
    Database Content Body Rest → List (SignedBlock Content Body) →
      List (SignedBlock Content Body) → List (SignedBlock Content Body)
  | _, main, [] => main
  | db, main, block :: rest =>
      chainAfterAll rules (db.pushBlock rules block).1
        (chainAfter rules db block main) rest

/-! ## The invariant -/

/-- The head of the fork database is the applied head, or builds on it. -/
def ForkHeadNear (db : Database Content Body Rest)
    (item : ForkItem Content Body) : Prop :=
  db.chain.current.headBlockNum ≤ item.num ∧
    (item.num ≤ db.chain.current.headBlockNum ∨
      item.num = db.chain.current.headBlockNum + 1 ∧
        item.previousId = db.chain.current.headBlockId)

/-- The database knows one chain, as far as it is looked up by numbers. -/
structure OneChain (main : List (SignedBlock Content Body))
    (db : Database Content Body (Summaries Content × Rest)) : Prop where
  chain : IsChain main
  head : headOf main = db.chain.current.headBlockId
  height : db.chain.current.headBlockNum = main.length
  coherent : Coherent db.chain
  shelved : Shelved main db.blockLog db.forkDb
  summarized : Summarized main db.blockLog db.chain.current
  fork : db.forkDb.head = none ∧ main = [] ∨
    ∃ item, db.forkDb.head = some item ∧ ForkHeadNear db item

variable {stages : Stages Content Body Rest}
    {main : List (SignedBlock Content Body)}
    {db : Database Content Body (Summaries Content × Rest)}
    {block : SignedBlock Content Body}

omit [DecidableEq Content] in
theorem OneChain.looksUp
    (one : OneChain main db) :
    LooksUp db main :=
  ⟨one.chain, one.head, one.height.symm,
    fun _ positive => one.shelved.fetchBlockByNumber one.chain positive,
    fun _ positive =>
      findBlockIdForNum_eq one.shelved one.summarized one.chain positive⟩

theorem oneChain_opening
    (opening : LoggedOpening Content Body Rest) :
    OneChain opening.blockLog opening.toOpening.database := by
  have chain := opening.chain
  have newest := opening.newest
  have coherent := opening_coherent opening.toOpening
  have summarized : Summarized opening.blockLog opening.blockLog
      opening.state :=
    ⟨opening.summaries, fun _ above below => absurd above
      (Nat.not_lt_of_le below), fun _ old => by omega, Nat.min_le_right _ _⟩
  cases found : opening.headBlock with
  | none =>
      rcases opening.fresh found with ⟨height, head⟩
      rw [found] at newest
      have empty := List.head?_eq_none_iff.1 newest.symm
      refine ⟨chain, ?_, ?_, coherent, ?_, summarized, .inl ⟨?_, empty⟩⟩
      · rw [empty]
        exact head.symm
      · rw [empty]
        exact height
      · have index : opening.toOpening.database.forkDb.index = [] := by
          unfold Opening.database
          rw [found]
          rfl
        refine ⟨List.suffix_rfl, fun num above below =>
          absurd above (Nat.not_lt_of_le below), ?_, ?_⟩
        · intro num item _ single
          unfold ForkDatabase.fetchBlockByNumber at single
          rw [index] at single
          cases single
        · rw [index]
          exact List.forall_mem_nil _
      · unfold Opening.database
        rw [found]
        rfl
  | some block =>
      rcases opening.started block found with ⟨id, number, -⟩
      rw [found] at newest
      rcases List.head?_eq_some_iff.1 newest.symm with ⟨older, log⟩
      have length : block.blockNum = opening.blockLog.length := by
        rw [log] at chain ⊢
        exact chain.2.1
      have index : opening.toOpening.database.forkDb.index =
          [⟨0, block, []⟩] := by
        unfold Opening.database
        rw [found]
        rfl
      refine ⟨chain, ?_, number.symm.trans length, coherent, ?_, summarized,
        .inr ⟨⟨0, block, []⟩, ?_, ?_⟩⟩
      · rw [log]
        exact id
      · refine ⟨List.suffix_rfl, fun num above below =>
          absurd above (Nat.not_lt_of_le below), ?_, ?_⟩
        · intro num item _ single
          have member : item ∈ opening.toOpening.database.forkDb.index :=
            (mem_fetchBlockByNumber.1
              (single ▸ List.mem_singleton_self item)).1
          rw [index] at member
          rw [List.mem_singleton.1 member]
          show block ∈ opening.blockLog
          rw [log]
          exact List.mem_cons_self
        · rw [index]
          intro item member
          rw [List.mem_singleton.1 member]
          exact Nat.le_of_eq length
      · unfold Opening.database
        rw [found]
        rfl
      · exact ⟨Nat.le_of_eq number.symm, .inl (Nat.le_of_eq number)⟩

/-! ## One push -/

omit [DecidableEq Content] in
/-- The block on the head is the only one of its number. -/
theorem Shelved.insert
    {forkDb after : ForkDatabase Content Body}
    (shelved : Shelved main log forkDb)
    (number : item.data.blockNum = main.length + 1)
    (index : after.index = item :: forkDb.index) :
    Shelved (item.data :: main) log after := by
  have top : item.num = main.length + 1 := number
  have fetch : ∀ num, after.fetchBlockByNumber num =
      if item.num = num then item :: forkDb.fetchBlockByNumber num
      else forkDb.fetchBlockByNumber num := by
    intro num
    unfold ForkDatabase.fetchBlockByNumber
    rw [index, List.filter_cons]
    simp only [decide_eq_true_eq]
  refine ⟨shelved.older.trans (List.suffix_cons _ _), ?_, ?_, ?_⟩
  · intro num above below
    rw [List.length_cons] at below
    rw [fetch]
    by_cases same : item.num = num
    · refine ⟨item, ?_, if_pos same⟩
      rw [if_pos same, shelved.nothing_above (by omega)]
    · rcases shelved.recent num above (by omega) with ⟨old, single, found⟩
      exact ⟨old, (if_neg same).trans single, (if_neg same).trans found⟩
  · intro num other logged single
    have inside := shelved.older.length_le
    rw [fetch, if_neg (by omega)] at single
    exact shelved.settled num other logged single
  · rw [index]
    intro other member
    rw [List.length_cons]
    rcases List.mem_cons.1 member with rfl | old
    · exact Nat.le_of_eq top
    · exact Nat.le_succ_of_le (shelved.below other old)

theorem fetchBlockByNumber_remove
    {id : BlockId Content}
    (forkDb : ForkDatabase Content Body)
    (other : num ≠ id.num) :
    (forkDb.remove id).fetchBlockByNumber num =
      forkDb.fetchBlockByNumber num := by
  unfold ForkDatabase.fetchBlockByNumber ForkDatabase.remove
  dsimp only
  rw [List.filter_filter]
  refine List.filter_congr ?_
  intro item _
  by_cases same : item.num = num
  · have different : item.id ≠ id := by
      rintro rfl
      exact other same.symm
    simp [same, different]
  · simp [same]

/-- Without a block which is in the log, the chain is looked up as before. -/
theorem Shelved.remove_logged
    {forkDb : ForkDatabase Content Body}
    (shelved : Shelved main log forkDb)
    (whole : log = main)
    (only : ∀ item ∈ forkDb.index, item.num = block.blockNum →
      item.id = block.id)
    (below : block.blockNum ≤ main.length) :
    Shelved main log (forkDb.remove block.id) := by
  refine shelved.aside (whole ▸ below) ?_ ?_
  · intro num other
    exact fetchBlockByNumber_remove forkDb other
  · intro item single
    rcases mem_fetchBlockByNumber.1
      (single ▸ List.mem_singleton_self item) with ⟨member, same⟩
    rcases List.mem_filter.1 member with ⟨old, kept⟩
    exact absurd (only item old same) (of_decide_eq_true kept)

/-- Without the block on the head, the fork database is as before. -/
theorem Shelved.remove_newest
    {forkDb : ForkDatabase Content Body}
    (shelved : Shelved (block :: main) log forkDb)
    (number : block.blockNum = main.length + 1)
    (short : log.length ≤ main.length) :
    Shelved main log (forkDb.remove block.id) := by
  refine ⟨?_, ?_, ?_, ?_⟩
  · rcases List.suffix_cons_iff.1 shelved.older with whole | older
    · rw [whole, List.length_cons] at short
      omega
    · exact older
  · intro num above below
    rcases shelved.recent num above (Nat.le_succ_of_le below) with
      ⟨item, single, found⟩
    rw [blockAt, if_neg (by omega)] at found
    refine ⟨item, ?_, found⟩
    rw [fetchBlockByNumber_remove forkDb (by rw [SignedBlock.id_num]; omega)]
    exact single
  · intro num item logged single
    rw [fetchBlockByNumber_remove forkDb (by rw [SignedBlock.id_num]; omega)]
      at single
    exact shelved.settled num item logged single
  · intro item member
    rcases List.mem_filter.1 member with ⟨old, kept⟩
    have bound := shelved.below item old
    rw [List.length_cons] at bound
    by_contra above
    have top : item.num = main.length + 1 := by omega
    rcases shelved.recent (main.length + 1) (by omega)
      (by rw [List.length_cons]) with ⟨only, single, found⟩
    rw [blockAt, if_pos number] at found
    have listed := mem_fetchBlockByNumber.2 ⟨old, top⟩
    rw [single, List.mem_singleton] at listed
    have same : item.id = block.id := by
      rw [listed]
      exact congrArg SignedBlock.id (Option.some.inj found).symm
    exact (of_decide_eq_true kept) same

omit [DecidableEq Content] in
theorem Summarized.grows
    {log longer : List (SignedBlock Content Body)}
    {state : ChainState Content (Summaries Content × Rest)}
    (summarized : Summarized main log state)
    (grows : log.length ≤ longer.length) :
    Summarized main longer state := by
  refine ⟨summarized.follows, ?_, ?_, ?_⟩
  · intro num above below near
    exact summarized.recent num (by omega) below near
  · intro num old
    exact (summarized.old num old).trans grows
  · exact summarized.irreversible.trans grows

omit [DecidableEq Content] in
/-- A push which leaves the state as it is. -/
theorem OneChain.unmoved
    (one : OneChain main db)
    (current : after.chain.current = db.chain.current)
    (coherent : Coherent after.chain)
    (grows : db.blockLog.length ≤ after.blockLog.length)
    (shelved : Shelved main after.blockLog after.forkDb)
    (isHead : after.forkDb.head = some item)
    (near : ForkHeadNear db item) :
    OneChain main after := by
  refine ⟨one.chain, ?_, ?_, coherent, shelved, ?_,
    .inr ⟨item, isHead, ?_⟩⟩
  · rw [current]
    exact one.head
  · rw [current]
    exact one.height
  · rw [current]
    exact one.summarized.grows grows
  · unfold ForkHeadNear
    rw [current]
    exact near

omit [DecidableEq Content] in
/-- The summaries after a block, as far as the log does not reach. -/
theorem Advanced.summarized
    (advanced : Advanced main block db after)
    (chain : IsChain (block :: main))
    (summarized : Summarized main db.blockLog db.chain.current) :
    Summarized (block :: main) after.blockLog after.chain.current := by
  have number : block.blockNum = main.length + 1 := chain.2.1
  have grows := advanced.grows
  refine ⟨?_, ?_, ?_, advanced.irreversible⟩
  · intro num positive same
    have old : (summaryOf db.chain.current.rest.1 num).num = num →
        (blockAt (block :: main) num).map SignedBlock.id =
          some (summaryOf db.chain.current.rest.1 num) := by
      intro same
      have found := summarized.follows num positive same
      rcases Option.map_eq_some_iff.1 found with ⟨older, there, -⟩
      rcases mem_of_blockAt there with ⟨member, rfl⟩
      have below := (chain.2.2.num_le member).2
      rw [blockAt, if_neg (by omega)]
      exact found
    rcases advanced.summaries with created | ⟨kept, -⟩
    · rw [created, summaryOf_createBlockSummary] at same ⊢
      split at same
      case isTrue slot =>
        rw [if_pos slot, blockAt,
          if_pos (show block.blockNum = num from same)]
        rfl
      case isFalse slot =>
        rw [if_neg slot]
        exact old same
    · rw [kept] at same ⊢
      exact old same
  · intro num above below near
    rw [List.length_cons] at below near
    rcases advanced.summaries with created | ⟨-, whole⟩
    · rw [created, summaryOf_createBlockSummary]
      by_cases newest : num = block.blockNum
      · rw [newest, if_pos rfl]
        rfl
      · rw [if_neg (by omega)]
        exact summarized.recent num (by omega) (by omega) (by omega)
    · rw [whole, List.length_cons] at above
      omega
  · intro num old
    have near := advanced.near
    have settled := summarized.irreversible
    have small : block.blockNum < 2 ^ 32 := block.id.num_lt
    rw [List.length_cons] at old
    rw [maxUndoHistory] at near
    by_cases behind :
        db.chain.current.lastIrreversibleBlockNum ≤ main.length
    · rw [Nat.min_eq_left behind] at settled
      omega
    · rw [Nat.min_eq_right (by omega)] at settled
      omega

/-! ### A block on the head -/

variable {forkDb : ForkDatabase Content Body}
    {newHead : ForkItem Content Body}

/-- A block on the head has the next number. -/
theorem OneChain.number
    (one : OneChain main db)
    (taken : Taken db block forkDb newHead)
    (link : block.previous = db.chain.current.headBlockId) :
    block.blockNum = main.length + 1 := by
  have numbered : db.forkDb.head = none → block.blockNum ≠ 0 := by
    intro headless
    rcases one.fork with ⟨-, empty⟩ | ⟨item, isHead, -⟩
    · have start : block.previous = .zero := by
        rw [link, ← one.head, empty]
        rfl
      unfold SignedBlock.blockNum
      rw [start]
      show (0 + 1) % 2 ^ 32 ≠ 0
      omega
    · rw [headless] at isHead
      cases isHead
  have positive := ForkDatabase.blockNum_ne_zero numbered taken.accepted
  rw [SignedBlock.blockNum_eq positive, link, ← one.height,
    one.coherent.trail.number]

/-- A taken block is known, or it is the first item of the index. -/
theorem taken_index_cases
    {db : Database Content Body Rest}
    (taken : Taken db block forkDb newHead) :
    Known db block ∧ forkDb.index = db.forkDb.index ∨
      ¬ Known db block ∧
        ∃ item : ForkItem Content Body, item.data = block ∧
          forkDb.index = item :: db.forkDb.index := by
  by_cases known : Known db block
  · exact .inl ⟨known, taken_index known taken⟩
  · rcases ForkDatabase.pushBlock_ok taken.accepted with ⟨back, rfl, -⟩
    refine .inr ⟨known, ⟨db.forkDb.nextHandle, block, back⟩, rfl, ?_⟩
    unfold ForkDatabase.insertItem
    exact if_neg known

/-- A known block is not above the chain. -/
theorem OneChain.known_le
    (one : OneChain main db)
    (known : Known db block) :
    block.blockNum ≤ main.length := by
  rcases Option.isSome_iff_exists.1 known with ⟨item, found⟩
  unfold ForkDatabase.fetchBlock at found
  have same : item.id = block.id := by
    simpa using List.find?_some found
  have below := one.shelved.below item (List.mem_of_find?_eq_some found)
  rw [← SignedBlock.id_num, ← same]
  exact below

/-- The head of the fork database builds on the applied head, too. -/
theorem OneChain.newHead_next
    (one : OneChain main db)
    (taken : Taken db block forkDb newHead)
    (link : block.previous = db.chain.current.headBlockId) :
    newHead.num = main.length + 1 ∧
      newHead.previousId = db.chain.current.headBlockId := by
  have number := one.number taken link
  cases becomes : db.forkDb.becomesHead block with
  | true =>
      have new := taken.new becomes
      constructor
      · rw [← number, ← new]
        rfl
      · rw [← link, ← new]
        rfl
  | false =>
      have old := taken.old becomes
      rcases one.fork with ⟨headless, -⟩ | ⟨item, isHead, above, near⟩
      · rw [old] at headless
        cases headless
      · rw [old] at isHead
        cases isHead
        unfold ForkDatabase.becomesHead at becomes
        rw [old] at becomes
        have high := of_decide_eq_false becomes
        rw [number] at high
        rw [one.height] at near
        rcases near with low | near
        · omega
        · exact near

/-- A taken block is pushed on. -/
theorem pushBlock_of_taken
    (rules : Rules Content Body Rest)
    {db : Database Content Body Rest}
    (taken : Taken db block forkDb newHead) :
    (db.pushBlock rules block).1 =
      ((db.taking forkDb newHead).pushTaken rules newHead block).1.release := by
  unfold Database.pushBlock
  rw [taken.accepted]
  simp only [taken.isHead]

/-- The chain after a push follows the head. -/
theorem chainAfter_of_current
    {db : Database Content Body Rest}
    (same : (db.pushBlock rules block).1.chain.current = db.chain.current) :
    chainAfter rules db block main = main := by
  unfold chainAfter
  rw [same, if_pos rfl]

theorem chainAfter_of_head
    {db : Database Content Body Rest}
    (link : block.previous = db.chain.current.headBlockId)
    (head : (db.pushBlock rules block).1.chain.current.headBlockId =
      block.id) :
    chainAfter rules db block main = block :: main := by
  unfold chainAfter
  rw [head, ← link]
  exact if_neg (BlockId_header_ne _ _)

omit [DecidableEq Content] in
/-- The database after a block on the head has become the head. -/
theorem Advanced.oneChain
    {forkDb : ForkDatabase Content Body}
    (advanced : Advanced main block db after)
    (chain : IsChain (block :: main))
    (summarized : Summarized main db.blockLog db.chain.current)
    (coherent : Coherent after.chain)
    (shelved : Shelved (block :: main) after.blockLog forkDb)
    (isHead : forkDb.head = some newHead)
    (num : newHead.num = main.length + 1) :
    OneChain (block :: main) { after with forkDb := forkDb } := by
  have height := advanced.height.trans chain.2.1
  exact ⟨chain, advanced.head.symm, height, coherent, shelved,
    advanced.summarized chain summarized,
    .inr ⟨newHead, isHead, Nat.le_of_eq (height.trans num.symm),
      .inl (Nat.le_of_eq (num.trans height.symm))⟩⟩

/-- A block on the head becomes the head, or leaves the chain as it is. -/
theorem OneChain.extend
    (one : OneChain main db)
    (taken : Taken db block forkDb newHead)
    (link : block.previous = db.chain.current.headBlockId) :
    OneChain (chainAfter stages.rules db block main)
      (db.pushBlock stages.rules block).1 := by
  have number := one.number taken link
  have chain : IsChain (block :: main) :=
    ⟨link.trans one.head.symm, number, one.chain⟩
  rcases one.newHead_next taken link with ⟨num, onHead⟩
  have unknown : ¬ Known db block := by
    intro known
    have below := one.known_le known
    omega
  rcases taken_index_cases taken with ⟨known, -⟩ | ⟨-, item, data, index⟩
  · exact absurd known unknown
  have shelved : Shelved (block :: main) db.blockLog
      (db.taking forkDb newHead).forkDb := by
    rw [← data] at number ⊢
    exact one.shelved.insert number index
  have session : _ ∨ (Database.applyInSession stages.rules
      (db.taking forkDb newHead) block).2 = false ∧ _ :=
    applyInSession_cases link chain one.coherent one.height shelved
      one.shelved.older.length_le taken.isHead (Nat.le_of_eq num)
  rcases Database.applyInSession_effect stages.rules
    (db.taking forkDb newHead) block with ⟨effect, shrinks, -⟩
  have coherent := (one.coherent.session (by omega) effect).coherent
  have isHead := shrinks.head.trans taken.isHead
  have pushed := pushBlock_of_taken stages.rules taken
  unfold Database.pushTaken at pushed
  rw [if_neg (show ¬ newHead.previousId ≠ (db.taking forkDb
    newHead).chain.current.headBlockId from not_not.2 onHead)] at pushed
  generalize (db.taking forkDb newHead).applyInSession stages.rules block =
    out at session coherent isHead pushed shrinks
  rcases out with ⟨after, returned⟩
  dsimp only at session coherent isHead
  rcases session with ⟨advanced, failed⟩ | ⟨rfl, undone⟩
  · cases returned with
    | true =>
        have head := (congrArg (fun db => db.chain.current.headBlockId)
          pushed).trans advanced.head
        rw [chainAfter_of_head link head, pushed]
        exact advanced.oneChain chain one.summarized coherent
          (advanced.shelved.of_index rfl) isHead num
    | false =>
        have head := (congrArg (fun db => db.chain.current.headBlockId)
          pushed).trans advanced.head
        rw [chainAfter_of_head link head, pushed]
        refine advanced.oneChain chain one.summarized coherent
          ((advanced.shelved.remove_logged (failed rfl) ?_
            (Nat.le_of_eq number)).of_index rfl)
          isHead num
        intro other member same
        have inside := shrinks.index other member
        change other ∈ forkDb.index at inside
        rw [index] at inside
        rcases List.mem_cons.1 inside with rfl | old
        · exact congrArg SignedBlock.id data
        · have below := one.shelved.below other old
          omega
  · have same := (congrArg (fun db => db.chain.current) pushed).trans
      undone.current
    rw [chainAfter_of_current same, pushed]
    refine one.unmoved (pushed ▸ same) coherent undone.grows
      ((undone.shelved.remove_newest number undone.short).of_index rfl)
      isHead ?_
    rw [ForkHeadNear, one.height]
    exact ⟨by omega, .inr ⟨num, onHead⟩⟩

/-! ### A block beside the head -/

/-- A block which does not link to the head leaves no trace. -/
theorem applyInSession_unlinked
    (rules : Rules Content Body Rest)
    {db : Database Content Body Rest}
    (apart : block.previous ≠ db.chain.current.headBlockId) :
    db.applyInSession rules block = (db, false) := by
  unfold Database.applyInSession Database.applyBlock
  dsimp only
  rw [if_pos (show block.previous ≠
    db.chain.startSession.current.headBlockId from apart)]
  have back : db.chain.startSession.undo = db.chain := by
    simp [SnapshotStack.startSession, SnapshotStack.undo]
  show ({ db with chain := db.chain.startSession.undo }, false) = (db, false)
  rw [back]

/-- The head of the fork database does not fall below the applied head. -/
theorem OneChain.newHead_ge
    (one : OneChain main db)
    (taken : Taken db block forkDb newHead) :
    main.length ≤ newHead.num := by
  rcases one.fork with ⟨-, empty⟩ | ⟨item, isHead, above, -⟩
  · rw [empty]
    exact Nat.zero_le _
  · rw [one.height] at above
    cases becomes : db.forkDb.becomesHead block with
    | true =>
        have new := taken.new becomes
        unfold ForkDatabase.becomesHead at becomes
        rw [isHead] at becomes
        have higher := of_decide_eq_true becomes
        rw [← new] at higher
        exact above.trans (Nat.le_of_lt higher)
    | false =>
        have old := taken.old becomes
        rw [isHead] at old
        cases old
        exact above

/-- The fork database does not call for a switch. -/
theorem OneChain.newHead_near
    (one : OneChain main db)
    (taken : Taken db block forkDb newHead)
    (apart : block.previous ≠ db.chain.current.headBlockId)
    (below : newHead.previousId ≠ db.chain.current.headBlockId →
      block.blockNum ≤ main.length) :
    ForkHeadNear db newHead := by
  rw [ForkHeadNear, one.height]
  refine ⟨one.newHead_ge taken, ?_⟩
  cases becomes : db.forkDb.becomesHead block with
  | true =>
      have new := taken.new becomes
      have beside : newHead.previousId ≠ db.chain.current.headBlockId := by
        unfold ForkItem.previousId
        rw [new]
        exact apart
      left
      unfold ForkItem.num
      rw [new]
      exact below beside
  | false =>
      have old := taken.old becomes
      rcases one.fork with ⟨headless, -⟩ | ⟨item, isHead, -, near⟩
      · rw [old] at headless
        cases headless
      · rw [old] at isHead
        cases isHead
        rw [one.height] at near
        exact near

/-- The push of a block beside the head keeps it in the fork database only. -/
theorem pushBlock_aside
    (rules : Rules Content Body Rest)
    {db : Database Content Body Rest}
    (taken : Taken db block forkDb newHead)
    (apart : block.previous ≠ db.chain.current.headBlockId)
    (near : ForkHeadNear db newHead) :
    (db.pushBlock rules block).1 =
      { db with
        forkDb :=
          { keptAside db forkDb newHead block with held := [] } } := by
  have unlinked : (db.taking forkDb newHead).applyInSession rules block =
      (db.taking forkDb newHead, false) :=
    applyInSession_unlinked rules apart
  rw [pushBlock_of_taken rules taken]
  unfold Database.pushTaken keptAside
  by_cases onHead : newHead.previousId = db.chain.current.headBlockId
  · rw [if_pos onHead,
      if_neg (show ¬ newHead.previousId ≠ (db.taking forkDb
        newHead).chain.current.headBlockId from not_not.2 onHead),
      unlinked]
    rfl
  · have low : newHead.num ≤ db.chain.current.headBlockNum := by
      rcases near.2 with low | ⟨-, next⟩
      · exact low
      · exact absurd next onHead
    rw [if_neg onHead,
      if_pos (show newHead.previousId ≠ (db.taking forkDb
        newHead).chain.current.headBlockId from onHead),
      if_neg (show ¬ newHead.num > (db.taking forkDb
        newHead).chain.current.headBlockNum from Nat.not_lt_of_le low)]
    rfl

/-- Taking out the pushed item again gives the old items. -/
theorem remove_unknown
    {db : Database Content Body Rest}
    (unknown : ¬ Known db block)
    (data : item.data = block)
    (index : forkDb.index = item :: db.forkDb.index) :
    (forkDb.remove block.id).index = db.forkDb.index := by
  unfold ForkDatabase.remove
  rw [index, List.filter_cons_of_neg (by
    rw [← data]
    simp [ForkItem.id])]
  refine List.filter_eq_self.2 fun other member => ?_
  rw [decide_eq_true_iff]
  intro same
  refine unknown (List.find?_isSome.2 ⟨other, member, ?_⟩)
  exact decide_eq_true same

/-- A pushed block changes the items of its own number only. -/
theorem keptAside_others
    {db : Database Content Body Rest}
    (taken : Taken db block forkDb newHead)
    (other : num ≠ block.blockNum) :
    (keptAside db forkDb newHead block).fetchBlockByNumber num =
      db.forkDb.fetchBlockByNumber num := by
  have inserted : forkDb.fetchBlockByNumber num =
      db.forkDb.fetchBlockByNumber num := by
    unfold ForkDatabase.fetchBlockByNumber
    rcases taken_index_cases taken with ⟨-, same⟩ | ⟨-, item, data, index⟩
    · rw [same]
    · rw [index, List.filter_cons_of_neg]
      rw [decide_eq_true_iff, ForkItem.num, data]
      exact other.symm
  unfold keptAside
  split
  · rw [fetchBlockByNumber_remove forkDb other, inserted]
  · exact inserted

/-- A block beside the head which stays on the chain. -/
theorem OneChain.beside
    (one : OneChain main db)
    (taken : Taken db block forkDb newHead)
    (apart : block.previous ≠ db.chain.current.headBlockId)
    (stays : StaysOnChain db block) :
    OneChain (chainAfter stages.rules db block main)
      (db.pushBlock stages.rules block).1 := by
  have kept : Shelved main db.blockLog (keptAside db forkDb newHead block) ∧
      (newHead.previousId ≠ db.chain.current.headBlockId →
        block.blockNum ≤ main.length) := by
    rcases stays forkDb newHead taken with link | known | ⟨logged, single⟩
    · exact absurd link apart
    · refine ⟨one.shelved.of_index ?_,
        fun beside => one.known_le (known.2 beside)⟩
      unfold keptAside
      rcases taken_index_cases taken with ⟨isKnown, same⟩ |
        ⟨unknown, item, data, index⟩
      · rw [if_neg (known.1 isKnown)]
        exact same
      · rw [if_pos (by
          by_contra beside
          exact unknown (known.2 beside))]
        exact remove_unknown unknown data index
    · rw [(one.chain.suffix one.shelved.older).logHeadNum] at logged
      exact ⟨one.shelved.aside logged
          (fun num other => keptAside_others taken other) single,
        fun _ => logged.trans one.shelved.older.length_le⟩
  have near := one.newHead_near taken apart kept.2
  have pushed := pushBlock_aside stages.rules taken apart near
  have same := congrArg (fun db => db.chain.current) pushed
  rw [chainAfter_of_current same, pushed]
  refine one.unmoved rfl one.coherent (Nat.le_refl _)
    (kept.1.of_index rfl) ?_ near
  show (keptAside db forkDb newHead block).head = some newHead
  unfold keptAside
  split <;> exact taken.isHead

theorem OneChain.push
    (one : OneChain main db)
    (stays : StaysOnChain db block) :
    OneChain (chainAfter stages.rules db block main)
      (db.pushBlock stages.rules block).1 := by
  rcases pushBlock_cases stages.rules db block with
    ⟨-, refused⟩ | ⟨forkDb, newHead, taken, -⟩
  · have same : (db.pushBlock stages.rules block).1 = db := by rw [refused]
    rw [chainAfter_of_current (congrArg (fun db => db.chain.current) same),
      same]
    exact one
  · by_cases link : block.previous = db.chain.current.headBlockId
    · exact one.extend taken link
    · exact one.beside taken link stays

/-! ## Every run -/

/--
In every run whose blocks stay on the chain, a block is looked up by its number
in the chain of the head, and so is its id.
-/
theorem block_lookup
    (stages : Stages Content Body Rest)
    (opening : LoggedOpening Content Body Rest)
    (blocks : List (SignedBlock Content Body))
    (steps : StepsMeet StaysOnChain stages.rules opening.toOpening.database
      blocks) :
    LooksUp (opening.toOpening.database.pushAll stages.rules blocks)
      (chainAfterAll stages.rules opening.toOpening.database
        opening.blockLog blocks) := by
  have run : ∀ blocks db main, OneChain main db →
      StepsMeet StaysOnChain stages.rules db blocks →
        OneChain (chainAfterAll stages.rules db main blocks)
          (db.pushAll stages.rules blocks) := by
    intro blocks
    induction blocks with
    | nil => exact fun _ _ one _ => one
    | cons block rest induction =>
        intro db main one steps
        exact induction _ _ (one.push steps.1) steps.2
  exact (run blocks _ _ (oneChain_opening opening) steps).looksUp

end Runs

/-! ## A small chain with lookups -/

/-- Parts of `_apply_block` which accept the blocks with a true body. -/
def sampleStages : Stages Nat Bool Unit where
  opening _ block := if block.body then .ok () else .error ()
  lastConfirmed _ := []
  closing _ _ := .ok ()

/-- A database opened at the first block, with its log and its summary. -/
def loggedOpening : LoggedOpening Nat Bool Unit where
  state :=
    ⟨firstBlock.id, 1, 0, [firstBlock.id], createBlockSummary ∅ firstBlock, ()⟩
  blockLog := [firstBlock]
  headBlock := some firstBlock
  fresh := by simp
  started := by
    rintro block ⟨⟩
    decide
  irreversible := by decide
  chain := by
    refine ⟨?_, ?_, trivial⟩ <;> decide
  newest := rfl
  summaries := by
    intro num positive same
    have written := summaryOf_createBlockSummary ∅ firstBlock num
    have first : firstBlock.blockNum = 1 := by decide
    change (summaryOf (createBlockSummary ∅ firstBlock) num).num = num at same
    change _ = some (summaryOf (createBlockSummary ∅ firstBlock) num)
    rw [written] at same ⊢
    split at same
    case isTrue slot =>
      rw [if_pos slot, blockAt, if_pos (show firstBlock.blockNum = num from same)]
      rfl
    case isFalse other =>
      have empty : summaryOf (∅ : Summaries Nat) num = .zero := by
        simp [summaryOf]
      rw [empty] at same
      exact absurd same.symm (Nat.pos_iff_ne_zero.1 positive)

theorem block_lookup_extending :
    LooksUp (loggedOpening.toOpening.database.pushAll sampleStages.rules
        extendingBlocks)
      (chainAfterAll sampleStages.rules loggedOpening.toOpening.database
        loggedOpening.blockLog extendingBlocks) := by
  refine block_lookup sampleStages loggedOpening extendingBlocks ⟨?_, ?_, trivial⟩
  · intro forkDb newHead _
    left
    decide
  · intro forkDb newHead _
    left
    decide +kernel

/-- Two blocks on the first one: the second is kept beside the chain. -/
def forkedDatabase : Database Nat Bool (Summaries Nat × Unit) :=
  loggedOpening.toOpening.database.pushAll sampleStages.rules
    (switchingBlocks.take 2)

/--
While the fork database holds two blocks of the head's height, which the log
does not have yet, the lookup by number finds none of them.
-/
theorem lookup_misses_the_head :
    forkedDatabase.chain.current.headBlockNum = 2 ∧
      forkedDatabase.fetchBlockByNumber 2 = .ok none ∧
      ¬ ∃ main, LooksUp forkedDatabase main := by
  have height : forkedDatabase.chain.current.headBlockNum = 2 := by
    decide +kernel
  have missing : forkedDatabase.fetchBlockByNumber 2 = .ok none := by
    decide +kernel
  refine ⟨height, missing, ?_⟩
  rintro ⟨main, looks⟩
  rcases looks.chain.exists_blockAt (by omega)
    (Nat.le_of_eq (looks.height.trans height).symm) with ⟨block, found⟩
  have finds := looks.blocks 2 (by omega)
  rw [missing, found] at finds
  cases finds

end BMChain.Chain
