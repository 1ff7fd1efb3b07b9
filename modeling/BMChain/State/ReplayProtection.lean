import BMChain.Foundation.SnapshotStack
import BMChain.State.FootprintOperation
import BMChain.State.FootprintBlock
import BMChain.State.Transaction

/-!
# Replay protection

A transaction is refused while its record is in the deduplication index, and
the record is dropped only after the head time has passed the expiration,
from where on the transaction is refused as expired.  The windows meet
because the head time grows with every block; block 1, whose transactions
are not checked against the head, has no predecessors to replay.

The chain is kept with the undo stack, so that the histories include blocks
which were popped and branches which were applied instead.
-/

namespace BMChain.State

open BMChain.Foundation BMChain.Protocol

variable {db after : Database} {header : BlockHeader}

/-! ## Histories -/

/-- A chain of blocks, newest first, and the state it leads to. -/
structure AppliedChain where
  db : Database
  blocks : List FullBlock

/-- What can happen to the chain of a node. -/
inductive ChainEvent where
  | apply (block : FullBlock)
  | pop
  | commit (revision : Int)

section Histories

variable (ext : External) (wire : Wire)

/--
The effect of an event.  A block is applied in its own undo session, which
is undone when the application throws.
-/
def chainStep (stack : SnapshotStack AppliedChain) :
    ChainEvent → SnapshotStack AppliedChain
  | .apply block =>
      match stack.current.db.applyFullBlock ext wire skipNothing block with
      | .ok db =>
          stack.startSession.update ⟨db, block :: stack.current.blocks⟩
      | .error _ => stack
  | .pop => stack.undo
  | .commit revision => stack.commit revision

/-- The chain of a node after a history which starts at genesis. -/
def chainAfter (events : List ChainEvent) : SnapshotStack AppliedChain :=
  events.foldl (chainStep ext wire) (.opened ⟨initGenesis, []⟩ 0)

end Histories

/-- What holds at genesis and after every applied block holds in every history. -/
theorem chainAfter_invariant
    {ext : External}
    {wire : Wire}
    (holds : AppliedChain → Prop)
    (genesis : holds ⟨initGenesis, []⟩)
    (applied : ∀ chain block db,
      chain.db.applyFullBlock ext wire skipNothing block = .ok db →
        holds chain → holds ⟨db, block :: chain.blocks⟩)
    (events : List ChainEvent) :
    holds (chainAfter ext wire events).current := by
  suffices all : ∀ stack : SnapshotStack AppliedChain, stack.All holds →
      (events.foldl (chainStep ext wire) stack).All holds from
    (all _ (.opened genesis 0)).1
  induction events with
  | nil => exact fun stack all => all
  | cons event rest induction =>
      intro stack all
      refine induction _ ?_
      cases event with
      | apply block =>
          cases ran : stack.current.db.applyFullBlock ext wire skipNothing
            block with
          | error message =>
              simp only [chainStep, ran]
              exact all
          | ok db =>
              simp only [chainStep, ran]
              exact all.startSession.update
                (applied stack.current block db ran all.1)
      | pop => exact all.undo
      | commit revision => exact all.commit revision

/-! ## The head of the chain and the records -/

namespace Database

theorem transactions_of_agrees
    {fields : List Field}
    {before after : Database}
    (agrees : Agrees fields before after)
    (separate : apart [.transactions] fields = true) :
    after.transactions = before.transactions :=
  agrees.read_eq separate List.mem_cons_self

/-- Operations leave the head and the records alone. -/
theorem applyOperation_head
    {ext : External}
    {op : Operation}
    (done : db.applyOperation ext op = .ok after) :
    after.headOf = db.headOf ∧ after.transactions = db.transactions := by
  have agrees := touches_applyOperation ext db op after done
  constructor
  · refine headOf_of_agrees agrees ?_
    cases op <;> rfl
  · refine transactions_of_agrees agrees ?_
    cases op <;> rfl

/-- What applying a transaction without skip flags takes and leaves. -/
theorem applyTransaction_cases
    {ext : External}
    {wire : Wire}
    {trx : SignedTransaction}
    (done : db.applyTransaction ext wire skipNothing trx = .ok after) :
    (db.transactions.findBy
        fun row => row.trxId = wire.transactionId trx).isNone = true ∧
      (db.headBlockNum = 0 ∨ db.headBlockTime < trx.expiration) ∧
      after.headOf = db.headOf ∧
      after.transactions =
        db.transactions.emplace
          ⟨wire.transactionId trx, trx.expiration⟩ := by
  simp only [applyTransaction, skipNothing, bind_eq_ok_iff,
    require_eq_ok_iff, Bool.false_eq_true, false_or] at done
  rcases done with ⟨_, -, _, new, _, -, _, checked, ran⟩
  have kept := foldlM_invariant
    (fun state => state.headOf = db.headOf ∧
      state.transactions = db.transactions.emplace
        ⟨wire.transactionId trx, trx.expiration⟩)
    (fun state op next _ applied held => by
      rcases applyOperation_head applied with ⟨head, records⟩
      rw [head, records]
      exact held)
    ran ⟨rfl, rfl⟩
  refine ⟨new, ?_, kept⟩
  unfold checkAgainstHead at checked
  split at checked
  case isTrue first => exact Or.inl first
  case isFalse =>
    simp only [bind_eq_ok_iff, require_eq_ok_iff] at checked
    rcases checked with ⟨_, -, _, -, _, early, -⟩
    exact Or.inr early

/-- What the header is checked for, and that entering a block changes neither. -/
theorem enterBlock_head
    {db entered : Database}
    (done : db.enterBlock header = .ok entered) :
    entered.headOf = db.headOf ∧ entered.transactions = db.transactions := by
  have agrees := touches_enterBlock db header entered done
  exact ⟨headOf_of_agrees agrees rfl, transactions_of_agrees agrees rfl⟩

/-- Setting the head of the chain. -/
theorem updateGlobalDynamicData_head
    (done : db.updateGlobalDynamicData header = .ok after) :
    after.headOf = (header.number, header.id, header.timestamp) ∧
      after.transactions = db.transactions := by
  refine ⟨?_, transactions_of_agrees
    (touches_updateGlobalDynamicData db header after done) rfl⟩
  simp only [updateGlobalDynamicData, bind_eq_ok_iff, pure_eq_ok_iff] at done
  rcases done with ⟨_, -, _, -, rfl⟩
  rfl

theorem updateLastIrreversibleBlock_head
    (done : db.updateLastIrreversibleBlock = .ok after) :
    after.headOf = db.headOf := by
  unfold updateLastIrreversibleBlock at done
  split at done
  · cases done
    rfl
  · simp only [bind_eq_ok_iff, pure_eq_ok_iff] at done
    rcases done with ⟨_, -, _, -, rfl⟩
    rfl

/-- Only records which have expired are dropped. -/
theorem clearExpiredTransactions_keeps
    (done : db.clearExpiredTransactions = .ok after) :
    after.headOf = db.headOf ∧
      ∀ row, db.transactions.Holds row →
        db.headBlockTime ≤ row.expiration → after.transactions.Holds row := by
  refine drain_invariant
    (fun state => state.headOf = db.headOf ∧
      ∀ row, db.transactions.Holds row →
        db.headBlockTime ≤ row.expiration → state.transactions.Holds row)
    ?_ done ⟨rfl, fun row holds _ => holds⟩
  rintro entry state next offered removed ⟨head, held⟩
  cases removed
  refine ⟨head, fun row holds current => ?_⟩
  have due := (Option.filter_eq_some_iff.1 offered).2
  have time : state.headBlockTime = db.headBlockTime :=
    congrArg (fun head => head.2.2) head
  refine (held row holds current).remove (find?_of_firstDue offered) ?_
  rintro rfl
  rw [decide_eq_true_eq, time] at due
  exact absurd current (Nat.not_le.2 due)

/-- The steps of a block after the first keep the head and the live records. -/
theorem runStep_keeps
    {ext : External}
    {step : BlockStep}
    (later : step ≠ .updateGlobalDynamicData)
    (done : db.runStep ext header step = .ok after) :
    after.headOf = db.headOf ∧
      ∀ row, db.transactions.Holds row →
        db.headBlockTime ≤ row.expiration → after.transactions.Holds row := by
  have agrees := touches_runStep ext header db step after done
  cases step with
  | updateGlobalDynamicData => exact absurd rfl later
  | updateLastIrreversibleBlock =>
      refine ⟨updateLastIrreversibleBlock_head done, fun row holds _ => ?_⟩
      rw [transactions_of_agrees agrees rfl]
      exact holds
  | clearExpiredTransactions => exact clearExpiredTransactions_keeps done
  | _ =>
      refine ⟨headOf_of_agrees agrees rfl, fun row holds _ => ?_⟩
      rw [transactions_of_agrees agrees rfl]
      exact holds

/-- The end of a block sets the head and keeps the records which are not due. -/
theorem finishBlock_head
    {ext : External}
    (done : db.finishBlock ext header = .ok after) :
    after.headOf = (header.number, header.id, header.timestamp) ∧
      ∀ row, db.transactions.Holds row →
        header.timestamp ≤ row.expiration → after.transactions.Holds row := by
  rw [finishBlock, blockSteps, List.foldlM_cons, bind_eq_ok_iff] at done
  rcases done with ⟨updated, first, done⟩
  rcases updateGlobalDynamicData_head first with ⟨head, records⟩
  have kept := foldlM_invariant
    (fun state => state.headOf = updated.headOf ∧
      ∀ row, updated.transactions.Holds row →
        header.timestamp ≤ row.expiration → state.transactions.Holds row)
    (fun state step next member stepped held => by
      have later : step ≠ .updateGlobalDynamicData := by
        rintro rfl
        simp at member
      rcases runStep_keeps later stepped with ⟨same, live⟩
      have time : state.headBlockTime = header.timestamp := by
        have headed := held.1.trans head
        exact congrArg (fun head => head.2.2) headed
      refine ⟨same.trans held.1, fun row holds current => ?_⟩
      exact live row (held.2 row holds current) (time ▸ current))
    done ⟨rfl, fun row holds _ => holds⟩
  refine ⟨kept.1.trans head, fun row holds current => ?_⟩
  exact kept.2 row (records ▸ holds) current

/-- The record of a transaction. -/
def recordOf (wire : Wire) (trx : SignedTransaction) : TransactionObject :=
  ⟨wire.transactionId trx, trx.expiration⟩

/-- The transactions of a block, one after the other. -/
theorem applyTransactions_cases
    {ext : External}
    {wire : Wire}
    {trxs : List SignedTransaction}
    (ran :
      trxs.foldlM (applyTransaction ext wire skipNothing) db = .ok after) :
    after.headOf = db.headOf ∧
      (∀ row, db.transactions.Holds row → after.transactions.Holds row) ∧
      (∀ trx ∈ trxs, after.transactions.Holds (recordOf wire trx)) ∧
      (trxs.map wire.transactionId).Nodup ∧
      (∀ trx ∈ trxs, ∀ row, db.transactions.Holds row →
        row.trxId ≠ wire.transactionId trx) ∧
      (∀ trx ∈ trxs,
        db.headBlockNum = 0 ∨ db.headBlockTime < trx.expiration) := by
  induction trxs generalizing db with
  | nil =>
      cases ran
      simp
  | cons trx rest induction =>
      rw [List.foldlM_cons, bind_eq_ok_iff] at ran
      rcases ran with ⟨middle, applied, ran⟩
      rcases applyTransaction_cases applied with ⟨new, early, head, records⟩
      rcases induction ran with ⟨same, grows, held, distinct, fresh, inTime⟩
      have recorded : middle.transactions.Holds (recordOf wire trx) := by
        rw [records]
        exact Table.holds_emplace _ _
      have kept : ∀ row, db.transactions.Holds row →
          middle.transactions.Holds row := by
        intro row holds
        rw [records]
        exact holds.emplace _
      have number : middle.headBlockNum = db.headBlockNum :=
        congrArg (fun head => head.1) head
      have time : middle.headBlockTime = db.headBlockTime :=
        congrArg (fun head => head.2.2) head
      simp only [List.forall_mem_cons, List.map_cons, List.nodup_cons]
      refine ⟨same.trans head, fun row holds => grows row (kept row holds),
        ⟨grows _ recorded, held⟩, ⟨?_, distinct⟩, ⟨?_, ?_⟩, ⟨early, ?_⟩⟩
      · intro member
        rcases List.mem_map.1 member with ⟨other, listed, equal⟩
        exact fresh other listed _ recorded equal.symm
      · intro row holds
        exact of_decide_eq_false (holds.not_of_findBy new)
      · intro other listed row holds
        exact fresh other listed row (kept row holds)
      · rw [← number, ← time]
        exact inTime

/-- What applying a whole block without skip flags goes through. -/
theorem applyFullBlock_cases
    {ext : External}
    {wire : Wire}
    {block : FullBlock}
    (done : db.applyFullBlock ext wire skipNothing block = .ok after) :
    db.props.headBlockId = block.header.previous ∧
      db.headBlockTime < block.header.timestamp ∧
      ∃ entered middle,
        db.enterBlock block.header = .ok entered ∧
          block.transactions.foldlM (applyTransaction ext wire skipNothing)
            entered = .ok middle ∧
          middle.finishBlock ext block.header = .ok after := by
  simp only [applyFullBlock, validateHeader, bind_eq_ok_iff,
    require_eq_ok_iff] at done
  rcases done with ⟨_, -, _, ⟨_, link, _, later, -⟩, _, -, entered, enter,
    middle, ran, finish⟩
  exact ⟨link, later, entered, middle, enter, ran, finish⟩

end Database

/-! ## The invariant -/

section Guard

variable (wire : Wire)

/-- The transactions of a chain. -/
def chainTransactions (blocks : List FullBlock) : List SignedTransaction :=
  blocks.flatMap FullBlock.transactions

/-- No transaction of the block has expired at the time of its predecessor. -/
def AppliedInTime (next previous : FullBlock) : Prop :=
  ∀ trx ∈ next.transactions, previous.header.timestamp < trx.expiration

/--
The head is the newest block, every transaction which has not expired is on
record, and what the protection promises.
-/
structure Guarded (chain : AppliedChain) : Prop where
  number : chain.db.headBlockNum = chain.blocks.length
  idNumber : chain.db.props.headBlockId.num = chain.blocks.length
  time : ∀ block ∈ chain.blocks.head?,
    chain.db.headBlockTime = block.header.timestamp
  fits : chain.db.headBlockTime < 2 ^ 32
  slow : chain.blocks.length ≤ chain.db.headBlockTime
  recorded : ∀ trx ∈ chainTransactions chain.blocks,
    chain.db.headBlockTime ≤ trx.expiration →
      chain.db.transactions.Holds (Database.recordOf wire trx)
  distinct :
    ((chainTransactions chain.blocks).map wire.transactionId).Nodup
  inTime : chain.blocks.IsChain AppliedInTime

end Guard

theorem guarded_genesis
    (wire : Wire) :
    Guarded wire ⟨initGenesis, []⟩ where
  number := rfl
  idNumber := rfl
  time := by simp
  fits := by decide
  slow := by decide
  recorded := by simp [chainTransactions]
  distinct := by simp [chainTransactions]
  inTime := .nil

/-- Every applied block keeps the invariant. -/
theorem Guarded.applied
    {ext : External}
    {wire : Wire}
    (digest : ∀ first second,
      wire.transactionId first = wire.transactionId second →
        first.expiration = second.expiration)
    {chain : AppliedChain}
    {block : FullBlock}
    (done : chain.db.applyFullBlock ext wire skipNothing block = .ok db)
    (guarded : Guarded wire chain) :
    Guarded wire ⟨db, block :: chain.blocks⟩ := by
  rcases Database.applyFullBlock_cases done
    with ⟨link, later, entered, middle, enter, ran, finish⟩
  rcases Database.enterBlock_head enter with ⟨head, records⟩
  rcases Database.applyTransactions_cases ran
    with ⟨same, grows, held, distinct, fresh, inTime⟩
  rcases Database.finishBlock_head finish with ⟨newHead, live⟩
  have number : entered.headBlockNum = chain.db.headBlockNum :=
    congrArg (fun head => head.1) head
  have time : entered.headBlockTime = chain.db.headBlockTime :=
    congrArg (fun head => head.2.2) head
  have newNumber : db.headBlockNum = block.header.number :=
    congrArg (fun head => head.1) newHead
  have newId : db.props.headBlockId = block.header.id :=
    congrArg (fun head => head.2.1) newHead
  have newTime : db.headBlockTime = block.header.timestamp :=
    congrArg (fun head => head.2.2) newHead
  rw [number, time] at inTime
  rw [records] at grows fresh
  have counted : block.header.number = chain.blocks.length + 1 := by
    have room : chain.blocks.length + 1 < 2 ^ 32 :=
      ((Nat.succ_le_succ guarded.slow).trans later).trans_lt
        block.timestampFits
    rw [BlockHeader.number, ← link, guarded.idNumber,
      Nat.mod_eq_of_lt room]
  constructor
  case number => exact newNumber.trans counted
  case idNumber =>
    rw [newId]
    exact counted
  case time => simpa using newTime
  case fits =>
    rw [newTime]
    exact block.timestampFits
  case slow =>
    rw [newTime]
    exact (Nat.succ_le_succ guarded.slow).trans later
  case recorded =>
    intro trx member current
    rw [newTime] at current
    refine live _ ?_ current
    rcases List.mem_append.1 member with mine | older
    · exact held trx mine
    · refine grows _ (guarded.recorded trx older ?_)
      exact (later.trans_le current).le
  case distinct =>
    rw [chainTransactions, List.flatMap_cons, List.map_append,
      List.nodup_append]
    refine ⟨distinct, guarded.distinct, ?_⟩
    rintro id mine other older rfl
    rcases List.mem_map.1 mine with ⟨trx, listed, rfl⟩
    rcases List.mem_map.1 older with ⟨old, applied, equal⟩
    -- the older one is on record, or has expired before the head
    by_cases current : chain.db.headBlockTime ≤ old.expiration
    · exact fresh trx listed _ (guarded.recorded old applied current) equal
    · rcases inTime trx listed with first | early
      · rw [guarded.number, List.length_eq_zero_iff] at first
        rw [first] at applied
        simp at applied
      · rw [digest old trx equal] at current
        exact current early.le
  case inTime =>
    cases shape : chain.blocks with
    | nil => exact .singleton block
    | cons previous rest =>
        refine .cons_cons ?_ (shape ▸ guarded.inTime)
        intro trx member
        rw [← guarded.time previous (by simp [shape])]
        rcases inTime trx member with first | early
        · rw [guarded.number, shape] at first
          simp at first
        · exact early

/--
No two transactions of a chain share an id, and no transaction is applied on
a head block whose time has reached its expiration.
-/
theorem replay_protected
    (ext : External)
    (wire : Wire)
    (digest : ∀ first second,
      wire.transactionId first = wire.transactionId second →
        first.expiration = second.expiration)
    (events : List ChainEvent) :
    ((chainTransactions (chainAfter ext wire events).current.blocks).map
        wire.transactionId).Nodup ∧
      (chainAfter ext wire events).current.blocks.IsChain AppliedInTime := by
  have guarded : Guarded wire (chainAfter ext wire events).current :=
    chainAfter_invariant (Guarded wire) (guarded_genesis wire)
      (fun chain block db done => Guarded.applied digest done) events
  exact ⟨guarded.distinct, guarded.inTime⟩

/-! ## A block with a transaction -/

/-- A transfer of `initminer`, signed with its key. -/
def sampleTransaction : SignedTransaction where
  refBlockNum := 0
  refBlockPrefix := 0
  expiration := genesisTime + 60
  operations := [sampleTransfer]
  signatures := [initPublicKey]

/-- The first block, with one transaction. -/
def sampleBlock : FullBlock where
  header :=
    { timestamp := genesisTime + 3
      witness := initMinerName
      transactionMerkleRoot := 1
      signee := initPublicKey
      previous := .zero }
  transactions := [sampleTransaction]
  timestampFits := by decide

/-- A block which was applied, popped and applied again. -/
def sampleHistory : List ChainEvent :=
  [.apply sampleBlock, .pop, .apply sampleBlock]

theorem sampleWire_digest
    (first second : SignedTransaction)
    (same :
      sampleWire.transactionId first = sampleWire.transactionId second) :
    first.expiration = second.expiration := by
  simp only [sampleWire] at same
  change @Eq Nat _ _
  omega

theorem replay_protected_history :
    (chainAfter plainExternal sampleWire sampleHistory).current.blocks.length =
        1 ∧
      ((chainTransactions
          (chainAfter plainExternal sampleWire
            sampleHistory).current.blocks).map
          sampleWire.transactionId).Nodup ∧
      (chainAfter plainExternal sampleWire
        sampleHistory).current.blocks.IsChain AppliedInTime :=
  ⟨by decide +kernel,
    replay_protected plainExternal sampleWire sampleWire_digest sampleHistory⟩

end BMChain.State
