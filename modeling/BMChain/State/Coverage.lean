import BMChain.State.Delegation

/-!
# Delegated shares are covered

An account should never have delegated more shares than it owns.  What it may
delegate is computed from its shares and from the withdrawal of its savings
which is under way, so the shares are covered as long as no withdrawal counts
as negative and no payout takes shares away.
-/

namespace BMChain.State

open BMChain.Foundation BMChain.Protocol Std

variable {db after : Database} {ext : External}

variable {before : Database}

namespace Database

/-! ## The invariant -/

/-- Delegated shares are booked, none of them negative, and all of them owned. -/
structure Covered (db : Database) : Prop where
  booked : db.DelegationsBooked
  nonneg : db.DelegationsNonneg
  covered : ∀ name,
    db.held AccountObject.delegatedVestingShares name ≤
      db.held AccountObject.vestingShares name

theorem Covered.delegated_nonneg
    (covered : db.Covered)
    (name : AccountName) :
    0 ≤ db.held AccountObject.delegatedVestingShares name := by
  rw [covered.booked.delegated]
  refine Int.add_nonneg (sumOf_nonneg ?_) (sumOf_nonneg ?_)
  · intro id delegation found
    have shares := covered.nonneg.1 id delegation found
    split
    · exact shares
    · exact Int.le_refl 0
  · intro id expiration found
    have shares := covered.nonneg.2 id expiration found
    split
    · exact shares
    · exact Int.le_refl 0

theorem Covered.received_nonneg
    (covered : db.Covered)
    (name : AccountName) :
    0 ≤ db.held AccountObject.receivedVestingShares name := by
  rw [covered.booked.received]
  refine sumOf_nonneg ?_
  intro id delegation found
  have shares := covered.nonneg.1 id delegation found
  split
  · exact shares
  · exact Int.le_refl 0

/-- A move of delegated shares keeps them covered when the owner has them. -/
theorem Covered.of_move
    {delegator delegatee : AccountName}
    {given returning : Int}
    (start : before.Covered)
    (move : DelegationMove before after delegator delegatee given returning)
    (shares : ∀ name,
      before.held AccountObject.vestingShares name ≤
        after.held AccountObject.vestingShares name)
    (enough : given + returning ≤ 0 ∨
      before.held AccountObject.delegatedVestingShares delegator +
          (given + returning) ≤
        before.held AccountObject.vestingShares delegator) :
    after.Covered := by
  refine ⟨move.booked start.booked, move.nonneg start.nonneg, ?_⟩
  intro name
  have own := shares name
  have old := start.covered name
  rw [move.delegated]
  split
  case isTrue same =>
    subst same
    omega
  case isFalse => omega

/-- What touches neither the books nor the shares keeps them covered. -/
theorem Covered.of_agrees
    {fields : List Field}
    (start : before.Covered)
    (agrees : Agrees fields before after)
    (separate : apart (.account .shares :: bookFields) fields = true) :
    after.Covered := by
  have both : decide (.account .shares ∉ fields) = true ∧
      apart bookFields fields = true :=
    Bool.and_eq_true_iff.1 separate
  refine start.of_move (DelegationMove.of_agrees agrees both.2 "" "") ?_
    (.inl (by decide))
  intro name
  rw [held_shares_of_agrees agrees (of_decide_eq_true both.1)]

/-! ## Delegations -/

/-- An account has not drawn more from its savings than it asked for. -/
def WithdrawsWithin (db : Database) (name : AccountName) : Prop :=
  ∀ account, db.accounts.find? name = some account →
    account.withdrawn ≤ account.toWithdraw

/-- What is available for delegation is owned and not delegated yet. -/
theorem available_le
    {name : AccountName}
    {account : AccountObject}
    {available : Int}
    (within : db.WithdrawsWithin name)
    (got : db.getAccount name = .ok account)
    (free : availableShares account = .ok available) :
    db.held AccountObject.delegatedVestingShares name + available ≤
      db.held AccountObject.vestingShares name := by
  have found := find_of_getAccount got
  have leaving := within account found
  rw [held_of_find found, held_of_find found]
  simp only [availableShares, bind_eq_ok_iff, checked_eq_ok_iff] at free
  rcases free with ⟨_, ⟨-, rfl⟩, _, ⟨-, rfl⟩, -, rfl⟩
  omega

/--
When an operation keeps delegated shares covered: a delegator has no withdrawal
which counts as negative, and the fee of a new account does not wrap around
when it is converted.
-/
def OperationCovers (db : Database) : Operation → Prop
  | .delegateVestingShares op => db.WithdrawsWithin op.delegator
  | .accountCreateWithDelegation op =>
      db.WithdrawsWithin op.creator ∧
        ∀ shares, db.toVests op.fee = .ok shares → 0 ≤ shares
  | _ => True

/-- A new account with a delegation changes no shares but its own. -/
theorem shares_accountCreateWithDelegation
    {op : AccountCreateWithDelegationOperation}
    (done : db.accountCreateWithDelegationEvaluator op = .ok after)
    (converts : ∀ shares, db.toVests op.fee = .ok shares → 0 ≤ shares)
    (name : AccountName) :
    db.held AccountObject.vestingShares name ≤
      after.held AccountObject.vestingShares name := by
  simp only [accountCreateWithDelegationEvaluator, bind_eq_ok_iff,
    require_eq_ok_iff, Asset.inSymbol_eq_ok_iff] at done
  rcases done with ⟨_, -, _, ⟨symbol, rfl⟩, _, -, _, -, _, -, _, -, done⟩
  rcases done with ⟨_, -, _, -, _, -, _, -, _, -, _, -, _, -, _, -, _, -, done⟩
  rcases done with ⟨_, -, _, -, _, -, debited, debit, accounts, created, done⟩
  rcases done with ⟨authorities, -, delegations, -, done⟩
  have spent : debited.held AccountObject.vestingShares name =
      db.held AccountObject.vestingShares name := by
    refine held_modifyAccount_same debit ?_ name
    intro account changed change
    simp only [bind_eq_ok_iff, pure_eq_ok_iff] at change
    rcases change with ⟨_, -, _, -, rfl⟩
    rfl
  have opened : ∀ ready : Database, ready.accounts = accounts →
      ready.held AccountObject.vestingShares name =
        db.held AccountObject.vestingShares name := by
    rintro ready rfl
    rw [held_createNamed created, ite_self, Int.add_zero, spent]
  split at done
  case isFalse =>
    cases done
    exact Int.le_of_eq (opened _ rfl).symm
  case isTrue =>
    rw [bind_eq_ok_iff] at done
    rcases done with ⟨⟨vested, shares⟩, vest, equal⟩
    cases equal
    have props : debited.props = db.props := by
      rcases accounts_of_modifyAccount debit with ⟨_, rfl⟩
      rfl
    have amount : db.toVests op.fee = .ok shares := by
      have converted := toVests_of_createVesting vest
      have fee : op.fee = bmt op.fee.amount := by
        rw [bmt, ← symbol]
      rw [fee]
      simpa only [toVests, props] using converted
    have nonneg := converts shares amount
    have ready := opened { debited with
      accounts := accounts
      authorities := authorities
      delegations := delegations } rfl
    rw [held_createVesting vest, ready]
    split <;> omega

theorem shares_accountCreate
    {op : AccountCreateOperation}
    (done : db.accountCreateEvaluator ext op = .ok after)
    (name : AccountName) :
    after.held AccountObject.vestingShares name =
      db.held AccountObject.vestingShares name := by
  simp only [accountCreateEvaluator, bind_eq_ok_iff] at done
  rcases done with ⟨_, -, _, -, _, -, _, -, _, -, _, -, _, -, _, -, done⟩
  rcases done with ⟨debited, debit, _, -, accounts, created, done⟩
  rcases done with ⟨authorities, -, paid, pay, emitted⟩
  have emission := held_shares_of_agrees
    (touches_processFundsBmchain _ _ after emitted) (by decide) name
  have fee := held_shares_of_agrees (touches_payFee _ _ paid pay) (by decide)
    name
  have spent := held_shares_of_agrees
    (touches_addBalance db _ _ debited debit) (by decide) name
  rw [emission, fee, ← spent]
  have opened := @held_createNamed debited
    { debited with accounts := accounts, authorities := authorities } _
    AccountObject.vestingShares _ created name
  rwa [ite_self, Int.add_zero] at opened

/-! ## Operations -/

theorem covered_applyOperation
    {op : Operation}
    (covers : OperationCovers db op)
    (valid : op.validate ext = .ok ())
    (done : db.applyOperation ext op = .ok after)
    (covered : db.Covered) :
    after.Covered := by
  have agrees := touches_applyOperation ext db op after done
  cases op with
  | delegateVestingShares op =>
      rcases move_delegateVestingShares valid done with
        ⟨_, available, given, returning, got, free, bound, move⟩
      refine covered.of_move move ?_ ?_
      · intro name
        rw [held_shares_of_agrees
          (touches_delegateVestingShares op db after done) (by decide)]
      · have enough := available_le covers got free
        omega
  | accountCreateWithDelegation op =>
      rcases move_accountCreateWithDelegation valid done with
        ⟨_, available, got, free, bound, move⟩
      refine covered.of_move move ?_ (.inr ?_)
      · exact shares_accountCreateWithDelegation done covers.2
      · have enough := available_le covers.1 got free
        omega
  | accountCreate op =>
      refine covered.of_move (move_accountCreate done) ?_ (.inl (by decide))
      intro name
      rw [shares_accountCreate done]
  | claimRewardBalance op =>
      have move := DelegationMove.of_agrees agrees rfl "" ""
      refine covered.of_move move ?_ (.inl (by decide))
      intro name
      rw [held_claimRewardBalance done]
      simp only [Operation.validate, ClaimRewardBalanceOperation.validate,
        bind_eq_ok_iff, require_eq_ok_iff] at valid
      split <;> omega
  | _ => exact covered.of_agrees agrees rfl

/-! ## Steps of a block -/

theorem covered_clearExpiredDelegations
    (done : db.clearExpiredDelegations = .ok after)
    (covered : db.Covered) :
    after.Covered := by
  refine drain_invariant Covered ?_ done covered
  intro entry state next offered returned before
  have row := find?_of_firstDue offered
  have nonneg := before.nonneg.2 entry.1 entry.2 row
  refine before.of_move (move_returnDelegation row returned) ?_
    (.inl (by omega))
  intro name
  rw [held_shares_of_agrees (touches_returnDelegation entry state next returned)
    (by decide)]

/-- The sweep of the null account leaves the shares of all others. -/
theorem shares_clearNullAccountBalance
    (done : db.clearNullAccountBalance = .ok after)
    (name : AccountName) :
    after.held AccountObject.vestingShares name =
        db.held AccountObject.vestingShares name ∨
      name = nullAccount ∧ after.held AccountObject.vestingShares name = 0 := by
  rcases clearNullAccountBalance_cases done with
    ⟨ready, total, burned, sum, before, burn, kept⟩
  have first := held_shares_of_agrees before (by decide) name
  have last := held_shares_of_agrees kept (by decide) name
  rw [last, ← first]
  simp only [burnVesting, bind_eq_ok_iff] at burn
  rcases burn with ⟨account, -, burn⟩
  split at burn
  case isFalse =>
    cases burn
    exact .inl rfl
  case isTrue =>
    simp only [bind_eq_ok_iff] at burn
    rcases burn with ⟨_, -, _, -, _, -, _, -, cleared, clear, _, -, equal⟩
    cases equal
    rcases find_modifyAccount clear with ⟨owner, _, found, change, rows⟩
    cases change
    unfold held
    rw [rows name]
    split
    case isTrue same => exact .inr ⟨same.symm, rfl⟩
    case isFalse => exact .inl rfl

/-- Whether a payout gives its author no negative number of shares. -/
def PayoutCovers (ext : External) (db : Database) (id recentClaims : Nat)
    (rewardBalance : Int) : Prop :=
  ∀ shares, db.payoutShares ext id recentClaims rewardBalance = .ok shares →
    0 ≤ shares

theorem covered_cashoutCommentHelper
    {id recentClaims : Nat}
    {rewardBalance claimed : Int}
    (covers : PayoutCovers ext db id recentClaims rewardBalance)
    (done : db.cashoutCommentHelper ext id recentClaims rewardBalance =
      .ok (after, claimed))
    (covered : db.Covered) :
    after.Covered := by
  rcases cashout_cases done with kept | ⟨ready, vested, author, _, shares, paid⟩
  · exact covered.of_agrees kept rfl
  · rcases paid with ⟨before, create, kept, amount⟩
    refine Covered.of_agrees ?_ kept rfl
    have move := DelegationMove.of_agrees (agrees_createVesting_shares create)
      rfl "" ""
    refine (covered.of_agrees before rfl).of_move move ?_ (.inl (by decide))
    intro name
    have nonneg := covers shares amount
    rw [held_createVesting create]
    split <;> omega

/--
When a step of a block keeps delegated shares covered: the null account has
none to be swept, no payout takes shares away, and the initial shares are not
burned yet.
-/
def StepCovers (ext : External) (_ : BlockHeader) (db : Database) :
    BlockStep → Prop
  | .clearNullAccountBalance =>
      db.held AccountObject.delegatedVestingShares nullAccount = 0
  | .processCommentCashout => EachPayout ext (PayoutCovers ext) db
  | .processHardforks => db.headBlockNum ≠ burnInitRepBlock
  | _ => True

theorem covered_runStep
    {header : BlockHeader}
    {step : BlockStep}
    (covers : StepCovers ext header db step)
    (done : db.runStep ext header step = .ok after)
    (covered : db.Covered) :
    after.Covered := by
  have agrees := touches_runStep ext header db step after done
  cases step with
  | clearExpiredDelegations =>
      exact covered_clearExpiredDelegations done covered
  | clearNullAccountBalance =>
      have move := DelegationMove.of_agrees agrees rfl "" ""
      refine ⟨move.booked covered.booked, move.nonneg covered.nonneg, ?_⟩
      intro name
      have old := covered.covered name
      rw [move.delegated, Int.add_zero, ite_self, Int.add_zero]
      rcases shares_clearNullAccountBalance done name with same | ⟨rfl, zero⟩
      · rwa [same]
      · rw [zero, covers]
  | processCommentCashout =>
      refine processCommentCashout_invariant Covered ?_ ?_ covers done covered
      · exact fun before after kept start => start.of_agrees kept rfl
      · intro db id recentClaims rewardBalance after claimed fair cashed start
        exact covered_cashoutCommentHelper fair cashed start
  | processHardforks =>
      simp only [runStep, processHardforks, bind_eq_ok_iff] at done
      rcases done with ⟨_, -, done⟩
      rw [if_neg covers] at done
      cases done
      exact covered
  | _ => exact covered.of_agrees agrees rfl

end Database

/-! ## Runs -/

theorem covered_genesis :
    initGenesis.Covered := by
  refine ⟨booked_genesis, ⟨.empty, .empty⟩, ?_⟩
  intro name
  unfold Database.held
  cases found : initGenesis.accounts.find? name with
  | none => exact Int.le_refl 0
  | some account =>
      exact genesis_account
        (fun row => row.delegatedVestingShares ≤ row.vestingShares)
        (by decide +kernel) found

theorem covered_run
    {block : Option BlockHeader}
    (run : RunState ext
      (EventMeets ext Database.OperationCovers (Database.StepCovers ext))
      block db) :
    db.Covered := by
  refine RunState.invariant Database.Covered covered_genesis ?_ ?_ ?_ run
  · intro state header after begun covered
    exact covered.of_agrees
      (Database.touches_beginBlock state header after begun) rfl
  · intro state op after covers valid done covered
    exact Database.covered_applyOperation covers valid done covered
  · intro header state step after covers done covered
    exact Database.covered_runStep covers done covered

/--
In a run whose steps all keep delegated shares covered, every account owns what
it delegated, and the shares its votes count for are not negative.
-/
theorem delegations_covered
    {ext : External}
    {block : Option BlockHeader}
    {db : Database}
    (run : RunState ext
      (EventMeets ext Database.OperationCovers (Database.StepCovers ext))
      block db)
    {name : AccountName}
    {account : AccountObject}
    (found : db.accounts.find? name = some account) :
    0 ≤ account.delegatedVestingShares ∧
      account.delegatedVestingShares ≤ account.vestingShares ∧
        0 ≤ account.receivedVestingShares ∧
          ∀ effective, account.effectiveVestingShares = .ok effective →
            0 ≤ effective ∧ (uint128 effective : Int) = effective := by
  have covered := covered_run run
  have given := covered.delegated_nonneg name
  have owned := covered.covered name
  have received := covered.received_nonneg name
  rw [Database.held_of_find found] at given owned received
  rw [Database.held_of_find found] at owned
  refine ⟨given, owned, received, ?_⟩
  intro effective counted
  simp only [AccountObject.effectiveVestingShares, bind_eq_ok_iff,
    checked_eq_ok_iff] at counted
  rcases counted with ⟨_, ⟨-, rfl⟩, fits, rfl⟩
  have nonneg : 0 ≤ account.vestingShares - account.delegatedVestingShares +
      account.receivedVestingShares := by omega
  exact ⟨nonneg, uint128_eq nonneg fits⟩

/-- A delegation from genesis is covered. -/
theorem delegations_covered_devs :
    ∃ after account,
      initGenesis.step plainExternal (.operation sampleDelegation) =
          .ok after ∧
        after.accounts.find? initMinerName = some account ∧
          account.delegatedVestingShares ≤ account.vestingShares := by
  have ran : ((initGenesis.step plainExternal
      (.operation sampleDelegation)).bind fun after =>
        after.getAccount initMinerName).isOk = true := by
    decide +kernel
  rcases exists_of_isOk ran with ⟨account, done⟩
  rcases (bind_eq_ok_iff _ _ _).1 done with ⟨after, stepped, got⟩
  have found := Database.find_of_getAccount got
  have within : initGenesis.WithdrawsWithin initMinerName :=
    fun owner found => genesis_account
      (fun row => row.withdrawn ≤ row.toWithdraw) (by decide +kernel) found
  have run : RunState plainExternal
      (EventMeets plainExternal Database.OperationCovers
        (Database.StepCovers plainExternal)) none after :=
    .step (.operation sampleDelegation) .genesis (.operation _ _) within
      stepped
  exact ⟨after, account, stepped, found, (delegations_covered run found).2.1⟩

/-- A withdrawal of a negative amount of savings. -/
def negativeWithdrawal : Operation :=
  .withdrawSavings
    { account := initMinerName
      savings := bmt (-1000000000000) }

/-- A delegation of more shares than the first witness owns. -/
def excessiveDelegation : Operation :=
  .delegateVestingShares
    { delegator := initMinerName
      delegatee := "devs"
      vestingShares := vests 10500000000000 }

/--
After a withdrawal of a negative amount an account can delegate shares which it
does not own.
-/
theorem negative_withdrawal_overdelegates :
    ¬ ∀ (ext : External) (block : Option BlockHeader) (db : Database),
      RunState ext (EventMeets ext (fun _ _ => True) BeforeBurn) block db →
        ∀ name account, db.accounts.find? name = some account →
          0 ≤ account.delegatedVestingShares ∧
            account.delegatedVestingShares ≤ account.vestingShares ∧
              0 ≤ account.receivedVestingShares := by
  intro covered
  have ran : ((initGenesis.step plainExternal
      (.operation negativeWithdrawal)).bind fun middle =>
        (middle.step plainExternal (.operation excessiveDelegation)).bind
          fun after => (after.getAccount initMinerName).map fun account =>
            decide (account.delegatedVestingShares ≤
              account.vestingShares)) = .ok false := by
    decide +kernel
  rcases (bind_eq_ok_iff _ _ _).1 ran with ⟨middle, withdrawn, ran⟩
  rcases (bind_eq_ok_iff _ _ _).1 ran with ⟨after, delegated, ran⟩
  have run : RunState plainExternal
      (EventMeets plainExternal (fun _ _ => True) BeforeBurn) none after :=
    .step (.operation excessiveDelegation)
      (.step (.operation negativeWithdrawal) .genesis (.operation _ _)
        trivial withdrawn)
      (.operation _ _) trivial delegated
  cases got : after.getAccount initMinerName with
  | error message =>
      rw [got] at ran
      cases ran
  | ok account =>
      rw [got] at ran
      have found := Database.find_of_getAccount got
      have owned := (covered plainExternal none after run initMinerName
        account found).2.1
      exact of_decide_eq_false (Except.ok.inj ran) owned

end BMChain.State
