import BMChain.State.QuietChain
import BMChain.State.Transaction

/-!
# The production of a block

A producer fills a block from the pending transactions.  It keeps a running
total of packed sizes, which starts from the size of an empty header and four
bytes more, and puts off what would bring the total to the maximum.  The
header it writes in the end has a name, extensions and a count of
transactions, whose sizes were not known to the total.
-/

namespace BMChain.State

open BMChain.Foundation BMChain.Protocol

variable {maximum : Nat} {trx : SignedTransaction}
    {pending : List SignedTransaction} {block : FullBlock}

variable {total : Nat} {kept : List SignedTransaction}

/-! ## Packed sizes -/

/-- The size of an `unsigned_int`, which is packed by seven bits a byte. -/
def varintSize (value : Nat) : Nat :=
  value.log2 / 7 + 1

/-- The size of a name, which is packed as a `std::string`. -/
def packedNameSize (name : AccountName) : Nat :=
  varintSize (nameSize name) + nameSize name

/-- The size of a `block_header_extensions`: its tag and its content. -/
def extensionSize : HeaderExtension → Nat
  | .void => 1
  | .version _ => 1 + 4
  | .hardforkVersionVote _ _ => 1 + (4 + 4)

/-- `fc::raw::pack_size` of a `signed_block_header`. -/
def headerSize (content : HeaderContent) : Nat :=
  20 + 4 + packedNameSize content.witness + 20 +
    (varintSize content.extensions.length +
      (content.extensions.map extensionSize).sum) + 65

/-- `signed_block_header()`. -/
def emptyContent : HeaderContent where
  timestamp := 0
  witness := ""
  signee := 0

/-- `max_block_header_size`. -/
def maxBlockHeaderSize : Nat :=
  headerSize emptyContent + 4

/-- `BMCHAIN_MAX_BLOCK_SIZE`. -/
def maxBlockSize : Nat := 1024 * 64 * blockInterval * 2000

/-- A serialisation of blocks by their members. -/
structure PackedWire extends Wire where
  /-- `fc::raw::pack_size` of a transaction. -/
  trxSize : SignedTransaction → Nat
  packSize_eq : ∀ header trxs,
    packSize header trxs =
      headerSize header.toHeaderContent +
        (varintSize trxs.length + (trxs.map trxSize).sum)

/-! ## What a producer works with -/

/-- `BMCHAIN_BLOCKCHAIN_VERSION`. -/
def blockchainVersion : Nat := 0

/-- `BMCHAIN_BLOCKCHAIN_HARDFORK_VERSION`. -/
def blockchainHardforkVersion : Nat := blockchainVersion

/-- `_hardfork_versions`. -/
def hardforkVersions : List Nat := [0]

/-- `_hardfork_times`. -/
def hardforkTimes : List Time := [genesisTime]

/-- The arguments of `generate_block`, with the public key of the private one. -/
structure BlockRequest where
  moment : Time
  momentFits : moment < 2 ^ 32
  witnessOwner : AccountName
  blockSigningKey : PublicKey
  skip : SkipFlags := skipNothing
  skipBlockSizeCheck : Bool := false

/-- A transaction leads from one state to the next. -/
def AppliesTransaction (ext : External) (wire : Wire)
    (db after : Database) : Prop :=
  ∃ skip trx, db.applyTransaction ext wire skip trx = .ok after

/--
The state of the head block, and the one of `_pending_tx_session` which
transactions have led to from there.
-/
structure ProducerState (ext : External) (wire : Wire) where
  head : Database
  session : Database
  pushed : Relation.ReflTransGen (AppliesTransaction ext wire) head session

/-! ## Filling the block -/

/-- The state, the running total and the transactions of the pending block. -/
structure Filling where
  db : Database
  totalBlockSize : Nat
  transactions : List SignedTransaction

/-- What becomes of a pending transaction. -/
inductive Outcome where
  | expired
  | postponed
  | failed
  | included (db : Database)

section Production

variable {ext : External} {wire : PackedWire}

/-- The decision of the loop about a pending transaction. -/
def outcome (ext : External) (wire : PackedWire) (request : BlockRequest)
    (maximumBlockSize : Nat) (filling : Filling) (trx : SignedTransaction) :
    Outcome :=
  if trx.expiration < request.moment then .expired
  else if maximumBlockSize ≤ filling.totalBlockSize + wire.trxSize trx then
    .postponed
  else
    match filling.db.applyTransaction ext wire.toWire request.skip trx with
    | .error _ => .failed
    | .ok db => .included db

/-- One round of the loop. -/
def takePending (ext : External) (wire : PackedWire) (request : BlockRequest)
    (maximumBlockSize : Nat) (filling : Filling) (trx : SignedTransaction) :
    Filling :=
  match outcome ext wire request maximumBlockSize filling trx with
  | .included db =>
      { db := db
        totalBlockSize := filling.totalBlockSize + wire.trxSize trx
        transactions := filling.transactions ++ [trx] }
  | _ => filling

namespace ProducerState

/-- The loop over the pending transactions, from the state of the head. -/
def fill (state : ProducerState ext wire.toWire) (request : BlockRequest)
    (pending : List SignedTransaction) : Filling :=
  pending.foldl
    (takePending ext wire request state.session.props.maximumBlockSize)
    ⟨state.head, maxBlockHeaderSize, []⟩

/-- The extensions which a witness puts into its header. -/
def headerExtensions (state : ProducerState ext wire.toWire)
    (witness : WitnessObject) : List HeaderExtension :=
  let hfp := state.head.hardforks
  let version : List HeaderExtension :=
    if witness.runningVersion ≠ blockchainVersion then
      [.version blockchainVersion]
    else []
  let voted (hardfork : Nat) : List HeaderExtension :=
    [.hardforkVersionVote (hardforkVersions.getD hardfork 0)
      (hardforkTimes.getD hardfork 0)]
  let vote :=
    if hfp.currentHardforkVersion < blockchainHardforkVersion ∧
        (witness.hardforkVersionVote ≠
            hardforkVersions.getD (hfp.lastHardfork + 1) 0 ∨
          witness.hardforkTimeVote ≠
            hardforkTimes.getD (hfp.lastHardfork + 1) 0) then
      voted (hfp.lastHardfork + 1)
    else if hfp.currentHardforkVersion = blockchainHardforkVersion ∧
        blockchainHardforkVersion < witness.hardforkVersionVote then
      voted hfp.lastHardfork
    else []
  version ++ vote

/-- The checks which a producer has to pass. -/
def checkProducer (state : ProducerState ext wire.toWire)
    (request : BlockRequest) : Except Fault Unit := do
  let slot := state.session.getSlotAtTime request.moment
  require (0 < slot) "slot_num > 0"
  require (state.session.getScheduledWitness slot = request.witnessOwner)
    "scheduled_witness == witness_owner"
  let witness ← state.session.getWitness request.witnessOwner
  require
    (request.skip.witnessSignature ∨
      witness.signingKey = request.blockSigningKey)
    "witness_obj.signing_key == block_signing_private_key.get_public_key()"

/-- The header which is written over the transactions of a block. -/
def producedHeader (state : ProducerState ext wire.toWire)
    (request : BlockRequest) (witness : WitnessObject)
    (trxs : List SignedTransaction) : BlockHeader where
  previous := state.head.props.headBlockId
  timestamp := request.moment
  transactionMerkleRoot := wire.merkleRoot trxs
  witness := request.witnessOwner
  extensions := state.headerExtensions witness
  signee :=
    if request.skip.witnessSignature then 0 else request.blockSigningKey

/-- The block which `_generate_block` assembles. -/
def assembleBlock (state : ProducerState ext wire.toWire)
    (request : BlockRequest) (pending : List SignedTransaction) :
    Except Fault FullBlock := do
  state.checkProducer request
  let filling := state.fill request pending
  let witness ← state.head.getWitness request.witnessOwner
  pure
    { header := state.producedHeader request witness filling.transactions
      transactions := filling.transactions
      timestampFits := request.momentFits }

/-- `_generate_block`, and the state after the head has taken the block. -/
def generateBlock (state : ProducerState ext wire.toWire)
    (request : BlockRequest) (pending : List SignedTransaction) :
    Except Fault (FullBlock × Database) := do
  let block ← state.assembleBlock request pending
  require
    (request.skipBlockSizeCheck ∨
      wire.packSize block.header block.transactions ≤ maxBlockSize)
    "fc::raw::pack_size(pending_block) <= BMCHAIN_MAX_BLOCK_SIZE"
  let db ← state.head.applyFullBlock ext wire.toWire request.skip block
  pure (block, db)

end ProducerState

/-! ## What the total leaves out -/

/-- The names of witnesses are no shorter than names may be. -/
def Database.WitnessesNamed (db : Database) : Prop :=
  ∀ name witness, db.witnesses.find? name = some witness →
    minAccountNameLength ≤ nameSize name

/-! ## Names -/

theorem size_of_validName
    {name : AccountName}
    (valid : isValidAccountName (nameText name) = true) :
    minAccountNameLength ≤ nameSize name := by
  rw [nameSize, ← String.length_toList]
  unfold isValidAccountName at valid
  dsimp only at valid
  split at valid
  case isTrue short => cases valid
  case isFalse enough => exact Nat.not_lt.1 enough

namespace Database

variable {db after : Database}

/-- Where no witness is created, the names stay. -/
theorem WitnessesNamed.of_agrees
    {fields : List Field}
    (named : db.WitnessesNamed)
    (agrees : Agrees fields db after)
    (separate : apart [.witness .identity] fields = true) :
    after.WitnessesNamed := by
  have same : (Field.witness .identity).read after =
      (Field.witness .identity).read db :=
    agrees.read_eq separate List.mem_cons_self
  intro name witness found
  have row := congrFun same name
  simp only [Field.read, found, Option.map_some] at row
  rcases Option.map_eq_some_iff.1 row.symm with ⟨earlier, there, -⟩
  exact named name earlier there

theorem WitnessesNamed.witnessUpdate
    {op : WitnessUpdateOperation}
    (named : db.WitnessesNamed)
    (valid : isValidAccountName (nameText op.owner) = true)
    (done : db.witnessUpdateEvaluator op = .ok after) :
    after.WitnessesNamed := by
  rcases witnessUpdate_cases done with updated | ⟨-, rfl⟩
  · exact named.of_agrees (agrees_updateWitness updated) rfl
  · intro name witness found
    rw [Register.find?_emplace] at found
    split at found
    case isTrue same => exact same ▸ size_of_validName valid
    case isFalse => exact named name witness found

theorem WitnessesNamed.applyOperation
    {op : Operation}
    (named : db.WitnessesNamed)
    (valid : op.validate ext = .ok ())
    (done : db.applyOperation ext op = .ok after) :
    after.WitnessesNamed := by
  have agrees := touches_applyOperation ext db op after done
  cases op with
  | witnessUpdate op =>
      simp only [Operation.validate, WitnessUpdateOperation.validate,
        bind_eq_ok_iff] at valid
      rcases valid with ⟨_, owner, -⟩
      exact named.witnessUpdate (require_eq_ok_iff.1 owner) done
  | _ => exact named.of_agrees agrees rfl

end Database

namespace ProducerState

variable {state : ProducerState ext wire.toWire} {request : BlockRequest}
  {pending : List SignedTransaction} {witness : WitnessObject}

end ProducerState

end Production

/-! ## Sample inputs -/

/-- Blocks without transactions, one in every slot. -/
def quietBlocks (ext : External) : Nat → Database → Except Fault Database
  | 0, db => .ok db
  | count + 1, db => do
      let header := quietHeader db (db.headBlockTime + blockInterval)
      let begun ← db.beginBlock header
      let after ← begun.finishBlock ext header
      quietBlocks ext count after

theorem RunState.quietBlocks
    {ext : External}
    {count : Nat}
    {db after : Database}
    (run : RunState ext (fun _ _ => True) none db)
    (done : BMChain.State.quietBlocks ext count db = .ok after) :
    RunState ext (fun _ _ => True) none after := by
  induction count generalizing db with
  | zero =>
      cases done
      exact run
  | succ count induction =>
      rw [BMChain.State.quietBlocks, bind_eq_ok_iff] at done
      rcases done with ⟨begun, first, done⟩
      rw [bind_eq_ok_iff] at done
      rcases done with ⟨next, second, done⟩
      refine induction ?_ done
      exact .step (.finishBlock _)
        (.step (.beginBlock _) run (.beginBlock _) trivial first)
        (.finishBlock _) trivial second

end BMChain.State
