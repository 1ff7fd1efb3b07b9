import BMChain.State.FootprintOperation
import BMChain.State.Ledger

/-!
# Operations which move nothing

Most evaluators change votes, texts, authorities, delegations or tokens and
leave every holding of BMT and vesting shares as it is.
-/

namespace BMChain.State

open BMChain.Foundation BMChain.Protocol Std

/-! ## Computations which keep the ledger -/

/-- Whatever state a computation returns has the ledger it started with. -/
def KeepsLedger (db : Database) (result : Except Fault Database) : Prop :=
  ∀ after, result = .ok after → after.ledger = db.ledger

/-- Two states with one ledger. -/
def SameLedger (before after : Database) : Prop :=
  after.ledger = before.ledger

instance : IsPreorder Database SameLedger where
  refl := fun _ => rfl
  trans := fun _ _ _ first second => Eq.trans second first

theorem keepsLedger_iff
    {db : Database}
    {result : Except Fault Database} :
    KeepsLedger db result ↔ Respects SameLedger db result :=
  Iff.rfl

namespace KeepsLedger

variable {db : Database} {Value Item : Type}

theorem ok
    {after : Database}
    (same : after.ledger = db.ledger) :
    KeepsLedger db (.ok after) :=
  keepsLedger_iff.2 (.ok same)

/-- A value is computed before the state is changed. -/
theorem read
    {first : Except Fault Value}
    {next : Value → Except Fault Database}
    (kept : ∀ value, KeepsLedger db (next value)) :
    KeepsLedger db (first >>= next) :=
  keepsLedger_iff.2 (.read fun value _ => kept value)

theorem foldlM
    {step : Database → Item → Except Fault Database}
    (items : List Item)
    (kept : ∀ db item, KeepsLedger db (step db item)) :
    KeepsLedger db (items.foldlM step db) :=
  keepsLedger_iff.2 (.foldlM items kept)

end KeepsLedger

/-- The parts of the state which the ledger is read from. -/
def ledgerParts : List Field :=
  [.account .balance, .account .savings, .account .rewardBmt,
    .account .rewardShares, .account .rewardBacking, .account .shares,
    .limitOrders, .convertRequests, .escrows, .savingsWithdraws,
    .rewardFunds, .contentOrders, .props .supply, .props .vestingFund,
    .props .vestingShares, .props .rewardFund, .props .pendingShares,
    .props .pendingBacking]

theorem ledger_of_agrees
    {fields : List Field}
    {before after : Database}
    (agrees : Agrees fields before after)
    (separate : apart ledgerParts fields = true) :
    after.ledger = before.ledger := by
  have same : ∀ field ∈ ledgerParts, field.read after = field.read before :=
    fun _ member => agrees.read_eq separate member
  have limitOrders : after.limitOrders = before.limitOrders :=
    same .limitOrders (by decide)
  have convertRequests : after.convertRequests = before.convertRequests :=
    same .convertRequests (by decide)
  have escrows : after.escrows = before.escrows := same .escrows (by decide)
  have savings : after.savingsWithdraws = before.savingsWithdraws :=
    same .savingsWithdraws (by decide)
  have funds : after.rewardFunds = before.rewardFunds :=
    same .rewardFunds (by decide)
  have contentOrders : after.contentOrders = before.contentOrders :=
    same .contentOrders (by decide)
  have totals : after.props.totals = before.props.totals :=
    DynamicGlobalProperties.totals_congr
      (same (.props .supply) (by decide))
      (same (.props .vestingFund) (by decide))
      (same (.props .vestingShares) (by decide))
      (same (.props .rewardFund) (by decide))
      (same (.props .pendingShares) (by decide))
      (same (.props .pendingBacking) (by decide))
  have purses : after.accounts.rows.map (fun _ account => account.purse) =
      before.accounts.rows.map fun _ account => account.purse := by
    refine ExtTreeMap.ext_getElem? fun name => ?_
    have aspects : ∀ aspect, .account aspect ∈ ledgerParts →
        after.accounts.rows[name]?.map aspect.read =
          before.accounts.rows[name]?.map aspect.read :=
      fun aspect member => congrFun (same (.account aspect) member) name
    have balance := aspects .balance (by decide)
    have saved := aspects .savings (by decide)
    have rewardBmt := aspects .rewardBmt (by decide)
    have rewardShares := aspects .rewardShares (by decide)
    have rewardBacking := aspects .rewardBacking (by decide)
    have shares := aspects .shares (by decide)
    rw [ExtTreeMap.getElem?_map, ExtTreeMap.getElem?_map]
    cases now : after.accounts.rows[name]? <;>
      cases start : before.accounts.rows[name]? <;>
        simp only [now, start, Option.map_none, Option.map_some, reduceCtorEq,
          Option.some.injEq] at *
    exact AccountObject.purse_congr balance saved rewardBmt shares rewardShares
      rewardBacking
  simp only [Database.ledger, purses, limitOrders, convertRequests, escrows,
    savings, funds, contentOrders, totals]

/-- What is apart from the holdings keeps the ledger. -/
theorem KeepsLedger.of_touches
    {fields : List Field}
    {db : Database}
    {result : Except Fault Database}
    (touches : Touches fields db result)
    (separate : apart ledgerParts fields = true) :
    KeepsLedger db result :=
  fun after done => ledger_of_agrees (touches after done) separate

namespace Database

open KeepsLedger

/-! ## Single objects -/

theorem keeps_modifyAccount
    (db : Database)
    (name : AccountName)
    {change : AccountObject → Except Fault AccountObject}
    (kept : ∀ account changed,
      change account = .ok changed → changed.purse = account.purse) :
    KeepsLedger db (db.modifyAccount name change) :=
  fun _ done => ledger_modifyAccount done kept

/-- The change of an account outside its holdings which cannot fail. -/
theorem keeps_modifyAccount_pure
    (db : Database)
    (name : AccountName)
    {change : AccountObject → AccountObject}
    (kept : ∀ account, (change account).purse = account.purse) :
    KeepsLedger db (db.modifyAccount name fun account =>
      pure (change account)) := by
  refine keeps_modifyAccount db name ?_
  intro account changed equal
  cases equal
  exact kept account

theorem keeps_modifyWitness
    (db : Database)
    (name : AccountName)
    (change : WitnessObject → Except Fault WitnessObject) :
    KeepsLedger db (db.modifyWitness name change) :=
  .read fun _ => .ok rfl

theorem keeps_modifyComment
    (db : Database)
    (id : Nat)
    (change : CommentObject → Except Fault CommentObject) :
    KeepsLedger db (db.modifyComment id change) :=
  .read fun _ => .ok rfl

/-! ## Parts of operations -/

theorem keeps_adjustProxiedVotesFrom
    (remaining : Nat)
    (db : Database)
    (name : AccountName)
    (delta : Int) :
    KeepsLedger db (adjustProxiedVotesFrom remaining db name delta) :=
  .of_touches (touches_adjustProxiedVotesFrom remaining db name delta) rfl

theorem keeps_updateParents
    (change : CommentObject → CommentObject)
    (rounds : Nat)
    (db : Database)
    (author : AccountName)
    (permlink : Text) :
    KeepsLedger db (updateParents change rounds db author permlink) :=
  .of_touches (touches_updateParents change rounds db author permlink) rfl

theorem keeps_editComment
    (ext : External)
    (db : Database)
    (id : Nat)
    (op : CommentOperation) :
    KeepsLedger db (db.editComment ext id op) :=
  keeps_modifyComment db id _

theorem keeps_countPost
    (db : Database)
    (op : CommentOperation) :
    KeepsLedger db (db.countPost op) :=
  .of_touches (touches_countPost db op) rfl

theorem keeps_changeVote
    (db : Database)
    (op : VoteOperation)
    (id : Nat)
    (comment : CommentObject)
    (voteId : Nat)
    (vote : CommentVoteObject)
    (power : VotePower) :
    KeepsLedger db (db.changeVote op id comment voteId vote power) :=
  .of_touches (touches_changeVote db op id comment voteId vote power) rfl

/-- An escrow changed outside its holdings leaves the ledger as it is. -/
theorem ledger_set_escrow_same
    {db : Database}
    {id : Nat}
    {escrow : EscrowObject}
    (found : db.escrows.find? id = some escrow)
    {changed : EscrowObject}
    (same : changed.holding = escrow.holding) :
    { db with escrows := db.escrows.set id changed }.ledger = db.ledger := by
  have held : db.ledger.escrows[id]? = some escrow.holding :=
    ledger_escrow_of_find? found
  rw [ledger_set_escrow found, same, place_same held]

theorem keeps_escrowDispute
    (op : EscrowDisputeOperation)
    (db : Database) :
    KeepsLedger db (db.escrowDisputeEvaluator op) := by
  intro after applied
  simp only [escrowDisputeEvaluator, getEscrow, bind_eq_ok_iff,
    orFault_eq_ok_iff] at applied
  rcases applied with
    ⟨_, -, ⟨id, escrow⟩, searched, _, -, _, -, _, -, _, -, _, -, written⟩
  cases written
  exact ledger_set_escrow_same (Table.find?_of_findBy searched) rfl

/-! ## The registry -/

/-- The operations which can move BMT or vesting shares. -/
def movesMoney : Operation → Bool
  | .vote _ | .comment _ | .transfer _ | .limitOrderCreate _
  | .limitOrderCancel _ | .accountCreate _ | .limitOrderCreate2 _
  | .escrowTransfer _ | .escrowRelease _ | .escrowApprove _
  | .transferToSavings _ | .cancelTransferFromSavings _
  | .claimRewardBalance _ | .accountCreateWithDelegation _
  | .contentOrderCreate _ | .contentOrderCancel _ | .encryptedContent _
  | .contentOrderCancelByAuthor _ | .customTokenCreate _ => true
  | _ => false

/-- Every other operation leaves the ledger as it is. -/
theorem keeps_applyOperation
    (ext : External)
    (db : Database)
    (op : Operation)
    (idle : movesMoney op = false) :
    KeepsLedger db (db.applyOperation ext op) := by
  have touches := touches_applyOperation ext db op
  cases op with
  | escrowDispute op => exact keeps_escrowDispute op db
  | vote _ | comment _ | transfer _ | limitOrderCreate _
  | limitOrderCancel _ | accountCreate _ | limitOrderCreate2 _
  | escrowTransfer _ | escrowRelease _ | escrowApprove _
  | transferToSavings _ | cancelTransferFromSavings _
  | claimRewardBalance _ | accountCreateWithDelegation _
  | contentOrderCreate _ | contentOrderCancel _ | encryptedContent _
  | contentOrderCancelByAuthor _ | customTokenCreate _ => cases idle
  | _ => exact .of_touches touches rfl

end Database

end BMChain.State
