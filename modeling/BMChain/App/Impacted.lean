import Mathlib.Data.List.Dedup
import BMChain.State.Spending

/-!
# Impacted accounts and the account history

The history of an account is written from a list of the accounts which each
operation impacts, kept apart from the evaluators.  Here the purses which an
evaluator's entries name are compared with that list and with the lists of the
virtual operations which it pushes.
-/

namespace BMChain.App

open BMChain.Foundation BMChain.Protocol BMChain.State

/-! ## The visitor -/

/--
The overloads for virtual operations.  Those which are never pushed have no
fields here and name nobody.
-/
def impactedByVirtual : VirtualOperation → List AccountName
  | .authorReward author _ _ _ => [author]
  | .curationReward curator _ _ _ => [curator]
  | .fillOrder currentOwner _ _ openOwner _ _ => [currentOwner, openOwner]
  | .shutdownWitness owner => [owner]
  | .returnVestingDelegation account _ => [account]
  | .commentBenefactorReward benefactor author _ _ => [benefactor, author]
  | .producerReward producer _ => [producer]
  | .commentReward _ _ _ | .commentPayoutUpdate _ _ | .hardfork _
  | .fillConvertRequest | .liquidityReward | .interest | .fillRepWithdraw
  | .fillTransferFromSavings => []

/-- `operation_get_impacted_accounts`. -/
def operationGetImpactedAccounts : Operation → List AccountName
  | .accountCreate op => [op.newAccountName, op.creator]
  | .accountCreateWithDelegation op => [op.newAccountName, op.creator]
  | .comment op =>
      op.author :: if op.parentAuthor ≠ "" then [op.parentAuthor] else []
  | .challengeAuthority op => [op.challenger, op.challenged]
  | .vote op => [op.voter, op.author]
  | .transfer op => [op.fromAccount, op.toAccount]
  | .escrowTransfer op => [op.fromAccount, op.toAccount, op.agent]
  | .escrowApprove op => [op.fromAccount, op.toAccount, op.agent]
  | .escrowDispute op => [op.fromAccount, op.toAccount, op.agent]
  | .escrowRelease op => [op.fromAccount, op.toAccount, op.agent]
  | .transferToVesting op =>
      op.fromAccount ::
        if op.toAccount ≠ "" ∧ op.toAccount ≠ op.fromAccount then
          [op.toAccount]
        else []
  | .setWithdrawSavingsRoute op => [op.fromAccount, op.toAccount]
  | .accountWitnessVote op => [op.account, op.witness]
  | .accountWitnessProxy op => [op.account, op.proxy]
  | .feedPublish op => [op.publisher]
  | .pow op => [op.workerAccount]
  | .pow2 op => [op.workerAccount]
  | .requestAccountRecovery op => [op.accountToRecover, op.recoveryAccount]
  | .recoverAccount op => [op.accountToRecover]
  | .changeRecoveryAccount op => [op.accountToRecover]
  | .transferToSavings op => [op.fromAccount, op.toAccount]
  | .transferFromSavings op => [op.fromAccount, op.toAccount]
  | .delegateVestingShares op => [op.delegator, op.delegatee]
  | .privateMessage op => [op.fromAccount, op.toAccount]
  | .encryptedContent op => [op.author]
  | .contentOrderCreate op => [op.owner]
  | .contentOrderCancel op => [op.owner]
  | .contentOrderCancelByAuthor op => [op.author]
  | .virtual op => impactedByVirtual op
  | op => op.requiredPosting ++ op.requiredActive ++ op.requiredOwner

/-! ## The history -/

/-- The options of the plugin. -/
structure HistoryOptions where
  /-- `_tracked_accounts`, by their lower ends. -/
  trackedAccounts : List (AccountName × AccountName) := []
  filterContent : Bool := false
  blacklist : Bool := false
  /-- Whether the type of an operation is in `_op_list`. -/
  listed : Operation → Bool := fun _ => false

namespace HistoryOptions

/-- Whether an account is in a tracked range, or none is given. -/
def tracks (options : HistoryOptions) (item : AccountName) : Bool :=
  let before := options.trackedAccounts.takeWhile (·.1 < item)
  let range :=
    match options.trackedAccounts.dropWhile (·.1 < item) with
    | [] => before.getLast?
    | range :: _ =>
        if before ≠ [] ∧ range.1 ≠ item then before.getLast? else some range
  options.trackedAccounts.isEmpty ||
    range.any fun range => range.1 ≤ item ∧ item ≤ range.2

/-- Whether the filter lets an operation through. -/
def passes (options : HistoryOptions) (op : Operation) : Bool :=
  if options.filterContent then
    if options.listed op then !options.blacklist else options.blacklist
  else true

end HistoryOptions

/-- The accounts and operations of the entries, in their order. -/
abbrev History := List (AccountName × Operation)

/-- `account_history_plugin_impl::on_operation`. -/
def onOperation (options : HistoryOptions) (history : History)
    (op : Operation) : History :=
  let impacted := (operationGetImpactedAccounts op).dedup
  history ++ (impacted.filter fun item =>
    options.tracks item && options.passes op).map (·, op)

/-! ## What an operation notifies of -/

/-- The virtual operations which were pushed between two states, in order. -/
def pushedBetween (db after : Database) : List VirtualOperation :=
  (after.virtualOperations.take
    (after.virtualOperations.length - db.virtualOperations.length)).reverse

/-- The operations which the plugins see while one is applied. -/
def notifications (op : Operation) (db after : Database) : List Operation :=
  op :: (pushedBetween db after).map .virtual

/-- The balances which the history should not miss. -/
def balancesOf (db : Database) (name : AccountName) :
    Option (Int × Int × Int × Int × Int) :=
  (db.accounts.find? name).map fun account =>
    (account.balance, account.savingsBalance, account.rewardBmtBalance,
      account.rewardVestingBalance, account.vestingShares)

/--
Each account whose balances change is impacted by an operation which is
notified, and a history without ranges and filters has an entry for it.
-/
def HistoryComplete (op : Operation) (db after : Database) : Prop :=
  ∀ name, balancesOf after name ≠ balancesOf db name →
    ∃ notice ∈ notifications op db after,
      name ∈ operationGetImpactedAccounts notice ∧
        ∀ options history, options.trackedAccounts = [] →
          options.filterContent = false →
            (name, notice) ∈
              (notifications op db after).foldl (onOperation options) history

end BMChain.App
