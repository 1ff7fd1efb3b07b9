import BMChain.Protocol.SignState
import BMChain.State.Run

/-!
# Transactions and whole blocks

`_apply_transaction` and `_apply_block` with their skip flags.  What the
code takes from the serialisation and the digests of `fc` is a parameter:
transaction ids, the keys recovered from signatures, the root over the
transactions, the size of a block and the second word of a block id.
-/

namespace BMChain.State

open BMChain.Foundation BMChain.Protocol

/-- `signed_transaction`, as far as it is read. -/
structure SignedTransaction where
  refBlockNum : Nat
  refBlockPrefix : Nat
  expiration : Time
  operations : List Operation
  signatures : List Nat := []

/-- `signed_block`; its time is a number of 32 bits. -/
structure FullBlock where
  header : BlockHeader
  transactions : List SignedTransaction
  timestampFits : header.timestamp < 2 ^ 32

/-- The digests and the serialisation. -/
structure Wire where
  /-- `transaction::id`. -/
  transactionId : SignedTransaction → Nat
  /-- The public key which a signature of a transaction was made with. -/
  recoverKey : SignedTransaction → Nat → Except Fault PublicKey
  /-- `calculate_merkle_root`. -/
  merkleRoot : List SignedTransaction → Nat
  /-- `fc::raw::pack_size` of a block. -/
  packSize : BlockHeader → List SignedTransaction → Nat
  /-- The second word of a block id. -/
  secondWord : BlockId HeaderContent → Nat

/-- The skip flags which applying a block reads. -/
structure SkipFlags where
  witnessSignature : Bool := false
  transactionSignatures : Bool := false
  transactionDupeCheck : Bool := false
  taposCheck : Bool := false
  authorityCheck : Bool := false
  merkleCheck : Bool := false
  witnessScheduleCheck : Bool := false
  validate : Bool := false

/-- A check which a flag may suppress. -/
def unlessSkipped (skip : Bool) (check : Except Fault Unit) :
    Except Fault Unit :=
  if skip then .ok () else check

/-- `skip_nothing`. -/
def skipNothing : SkipFlags := {}

/-- `get_shared_db_merkle`. -/
def sharedDbMerkle : List (Nat × Nat) :=
  [(3705111, 0x0a8f0fd5450c3706ec8b8cbad795cd0b3679bf35),
    (3705120, 0x2027edb72b671f7011c8cc4c7a8b59c39b305093),
    (3713940, 0xbf8a1d516927c506ebdbb7b38bef2e992435435f),
    (3714132, 0xe8b77773d268b72c8d650337b8cce360bbe64779),
    (3714567, 0x45af59a8c2d7d4a606151ef5dae03d2dfe13fbdd),
    (3714588, 0xe64275443bdc82f104ac936486d367af8f6d1584),
    (4138790, 0xf65a3a788a2ef52406d8ba5705d7288be228403f),
    (5435426, 0x0b32538b2d22bd3146d54b6e3cb5ae8b9780e8a5)]

/-- `BMCHAIN_MAX_TIME_UNTIL_EXPIRATION`. -/
def maxTimeUntilExpiration : Nat := 60 * 60

/-- `BMCHAIN_MAX_SIG_CHECK_DEPTH`. -/
def maxSigCheckDepth : Nat := 2

namespace SignedTransaction

/-- `transaction::validate`. -/
def validate (ext : External) (trx : SignedTransaction) :
    Except Fault Unit := do
  require (trx.operations ≠ [])
    "A transaction must have at least one operation"
  trx.operations.forM (Operation.validate ext)

/-- `get_signature_keys`. -/
def getSignatureKeys (wire : Wire) (trx : SignedTransaction) :
    Except Fault (List PublicKey) :=
  trx.signatures.foldlM
    (fun keys signature => do
      let key ← wire.recoverKey trx signature
      require (key ∉ keys) "Duplicate Signature detected"
      pure (keys ++ [key]))
    []

end SignedTransaction

namespace Database

/-! ## Transactions -/

/-- The call of `verify_authority` with its handler. -/
def verifySignatures (wire : Wire) (db : Database)
    (trx : SignedTransaction) : Except Fault Unit := do
  let keys ← trx.getSignatureKeys wire
  let getter (part : AccountAuthorityObject → Authority) : AuthorityGetter :=
    fun name => part <$> orFault (db.authorities.find? name) "unknown key"
  match verifyAuthority trx.operations keys
      (getter AccountAuthorityObject.active)
      (getter AccountAuthorityObject.owner)
      (getter AccountAuthorityObject.posting)
      maxSigCheckDepth false [] [] [] with
  | .ok () => .ok ()
  | .error fault =>
      -- `tx_missing_active_auth` is forgiven in the listed blocks
      if fault.isMissingActive ∧
          (sharedDbMerkle.lookup (db.headBlockNum + 1)).isSome then .ok ()
      else .error fault.message

/-- The checks against the head block, which block 1 is spared. -/
def checkAgainstHead (wire : Wire) (skip : SkipFlags) (db : Database)
    (trx : SignedTransaction) : Except Fault Unit :=
  if db.headBlockNum = 0 then .ok ()
  else do
    require
      (skip.taposCheck ∨
        trx.refBlockPrefix =
          wire.secondWord (db.blockSummaries.getD trx.refBlockNum .zero))
      "transaction_tapos_exception"
    let now := db.headBlockTime
    require (trx.expiration ≤ now + maxTimeUntilExpiration)
      "transaction_expiration_exception"
    require (now < trx.expiration) "transaction_expiration_exception"
    require (now ≤ trx.expiration) "transaction_expiration_exception"

/-- `create< transaction_object >`, unless the flag suppresses it. -/
def recordTransaction (wire : Wire) (skip : SkipFlags) (db : Database)
    (trx : SignedTransaction) : Database :=
  if skip.transactionDupeCheck then db
  else
    { db with
      transactions :=
        db.transactions.emplace ⟨wire.transactionId trx, trx.expiration⟩ }

/-- `_apply_transaction`. -/
def applyTransaction (ext : External) (wire : Wire) (skip : SkipFlags)
    (db : Database) (trx : SignedTransaction) : Except Fault Database := do
  unlessSkipped skip.validate (trx.validate ext)
  require
    (skip.transactionDupeCheck ∨
      (db.transactions.findBy
        fun row => row.trxId = wire.transactionId trx).isNone)
    "Duplicate transaction check failed"
  unlessSkipped (skip.transactionSignatures || skip.authorityCheck)
    (db.verifySignatures wire trx)
  db.checkAgainstHead wire skip trx
  let db := db.recordTransaction wire skip trx
  trx.operations.foldlM (fun db op => db.applyOperation ext op) db

/-! ## Blocks -/

/-- The merkle check of `_apply_block`. -/
def checkMerkleRoot (wire : Wire) (skip : SkipFlags) (block : FullBlock) :
    Except Fault Unit :=
  let root := wire.merkleRoot block.transactions
  require
    (skip.merkleCheck ∨ block.header.transactionMerkleRoot = root ∨
      sharedDbMerkle.lookup block.header.number = some root)
    "Merkle check failed"

/-- `validate_block_header`, with its skip flags. -/
def validateHeader (skip : SkipFlags) (db : Database)
    (header : BlockHeader) : Except Fault Unit := do
  require (db.props.headBlockId = header.previous)
    "head_block_id() == next_block.previous"
  require (db.headBlockTime < header.timestamp)
    "head_block_time() < next_block.timestamp"
  let witness ← db.getWitness header.witness
  require (skip.witnessSignature ∨ header.signee = witness.signingKey)
    "next_block.validate_signee( witness.signing_key )"
  let slot := db.getSlotAtTime header.timestamp
  require (skip.witnessScheduleCheck ∨ 0 < slot) "slot_num > 0"
  require
    (skip.witnessScheduleCheck ∨
      witness.owner = db.getScheduledWitness slot)
    "Witness produced block at wrong time"

/-- `_apply_block` between the header and the transactions. -/
def enterBlock (db : Database) (header : BlockHeader) :
    Except Fault Database := do
  let db := { db with
    props := { db.props with currentWitness := header.witness } }
  let db ← header.extensions.foldlM (processExtension header.witness) db
  let witness ← db.getWitness header.witness
  require (db.hardforks.currentHardforkVersion ≤ witness.runningVersion)
    "Block produced by witness that is not running current hardfork"
  pure db

/-- `_apply_block`. -/
def applyFullBlock (ext : External) (wire : Wire) (skip : SkipFlags)
    (db : Database) (block : FullBlock) : Except Fault Database := do
  checkMerkleRoot wire skip block
  db.validateHeader skip block.header
  require
    (wire.packSize block.header block.transactions ≤
      db.props.maximumBlockSize)
    "Block Size is too Big"
  let db ← db.enterBlock block.header
  let db ← block.transactions.foldlM (applyTransaction ext wire skip) db
  db.finishBlock ext block.header

/-- Without skip flags a block begins as the runs of single events do. -/
theorem beginBlock_eq (db : Database) (header : BlockHeader) :
    db.beginBlock header =
      (do
        db.validateHeader skipNothing header
        db.enterBlock header) := by
  simp [beginBlock, validateHeader, validateBlockHeader, enterBlock,
    skipNothing]

end Database

/-! ## Sample inputs -/

/-- A serialisation which tells transactions apart by their times and references. -/
def sampleWire : Wire where
  transactionId trx := trx.expiration * 2 ^ 16 + trx.refBlockNum % 2 ^ 16
  recoverKey _ signature := .ok signature
  merkleRoot trxs := trxs.length
  packSize _ trxs := 115 + 100 * trxs.length
  secondWord id := id.num

end BMChain.State
