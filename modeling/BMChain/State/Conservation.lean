import BMChain.State.LedgerBlock

/-!
# The supply and what backs it

`validate_invariants` compares the supply with the BMT of all holders.  Each
operation and each step of a block is shown to keep the two equal or not, by a
condition on the state before it.  The totals of the vesting shares follow the
accounts in every case.
-/

namespace BMChain.State

open BMChain.Foundation BMChain.Protocol Std

variable {db after : Database} {ext : External}

variable {result : Except Fault Database} {event : Event} {total : Total}

/-! ## Consistent states -/

namespace Database

/-- The total which `validate_invariants` compares with the supply. -/
def totalSupply (db : Database) : Int :=
  sumOf (fun account : AccountObject =>
      account.balance + account.savingsBalance + account.rewardBmtBalance)
    db.accounts.rows +
  sumOf LimitOrderObject.inBmt db.limitOrders.rows +
  sumOf (fun request => request.amount.inBmt) db.convertRequests.rows +
  sumOf (fun escrow : EscrowObject =>
      escrow.bmtBalance + escrow.pendingFee.inBmt) db.escrows.rows +
  sumOf (fun request => request.amount.inBmt) db.savingsWithdraws.rows +
  sumOf RewardFundObject.rewardBalance db.rewardFunds.rows +
  sumOf ContentOrderObject.inBmt db.contentOrders.rows +
  (db.props.totalVestingFundBmt + db.props.totalRewardFundBmt +
    db.props.pendingRewardedVestingBmt)

/-- The total is computed, and the supply is equal to it. -/
def SupplyConsistent (db : Database) : Prop :=
  db.ledger.Legal ∧ db.props.currentSupply = db.totalSupply

theorem gap_ledger
    (db : Database) :
    db.ledger.gap = db.props.currentSupply - db.totalSupply := by
  simp only [Ledger.gap, Ledger.holdings, ledger, sumOf_map, totalSupply]
  rfl

theorem supplyConsistent_iff
    (db : Database) :
    db.SupplyConsistent ↔ db.ledger.Legal ∧ db.ledger.gap = 0 := by
  rw [SupplyConsistent, gap_ledger]
  exact and_congr_right fun _ => by omega

/-- A journal keeps the supply consistent when its weight is zero. -/
theorem consistent_iff_of_moves
    {weight : Int}
    (consistent : db.SupplyConsistent)
    (moves : Moves db.ledger after.ledger weight) :
    after.SupplyConsistent ↔ weight = 0 := by
  rw [supplyConsistent_iff] at consistent ⊢
  have gap := moves.gap_eq
  rw [consistent.2] at gap
  rcases moves with ⟨entries, posted, -, -⟩
  constructor
  · rintro ⟨-, closed⟩
    omega
  · intro zero
    exact ⟨posted.legal consistent.1, by omega⟩

end Database

/-! ## Operations -/

/--
When an operation keeps the supply consistent.  A changed price of an open
order is booked with the wrong sign; a fee goes to every reward fund in full,
and a negative one to none; an order may be priced in another symbol than it
takes; an escrow is removed with the fee it still holds.
-/
def KeepsSupply (db : Database) : Operation → Prop
  | .contentOrderCreate op =>
      Database.usingCloseContent ≤ db.headBlockNum →
        ∀ id order,
          db.findContentOrder op.author op.permlink op.owner =
              some (id, order) →
            order.status = .open → order.price = op.price.amount
  | .customTokenCreate op =>
      op.customTokenCreationFee.amount = 0 ∨
        0 < op.customTokenCreationFee.amount ∧ db.rewardFunds.size = 1
  | .accountCreate op => op.fee.amount = 0 ∨ db.rewardFunds.size = 1
  | .limitOrderCreate2 op =>
      op.exchangeRate.base.symbol = bmtSymbol ∨ op.amountToSell.amount = 0
  | .escrowRelease op =>
      ∀ id escrow,
        db.getEscrow op.fromAccount op.escrowId = .ok (id, escrow) →
          escrow.bmtBalance = op.bmtAmount.amount →
            escrow.pendingFee.inBmt = 0
  | _ => True

namespace Database

@[simp]
theorem netDrift_fundEntries
    (total : Total)
    (deposits : List (Nat × Int)) :
    netDrift total (fundEntries deposits) = 0 := by
  induction deposits with
  | nil => rfl
  | cons deposit rest induction =>
      simp only [fundEntries, List.map_cons, netDrift_cons, Entry.drift]
        at induction ⊢
      omega

theorem IsEmission.vested
    {entries : List Entry}
    (emission : IsEmission entries) :
    Vested entries := by
  cases emission with
  | stopped => simp
  | paid deposits witness reward _ => simp

/-- A fee reaches the funds unchanged when there is exactly one of them. -/
theorem fee_eq_deposited_iff
    {fee : Int}
    {count : Nat} :
    fee - (if 0 < fee then fee * count else 0) = 0 ↔
      fee = 0 ∨ 0 < fee ∧ count = 1 := by
  split
  case isFalse none => omega
  case isTrue positive =>
    constructor
    · intro equal
      have same : fee * (count : Int) = fee * 1 := by omega
      have one := Int.eq_of_mul_eq_mul_left (by omega) same
      exact .inr ⟨positive, by omega⟩
    · rintro (zero | ⟨-, rfl⟩)
      · omega
      · simp

theorem Emits.moves
    (emits : Emits db result)
    (returned : result = .ok after) :
    Moves db.ledger after.ledger 0 := by
  rcases emits after returned with ⟨emission, emitted, posted⟩
  exact ⟨emission, posted, emitted.netWeight_eq, emitted.vested⟩

theorem moves_createOrder
    {owner : AccountName}
    {orderid : Nat}
    {amountToSell : Asset}
    {getPrice : Except Fault Price}
    {fillOrKill : Bool}
    {expiration : Time}
    (applied : db.createOrder owner orderid amountToSell getPrice fillOrKill
      expiration = .ok after) :
    ∃ price,
      amountToSell.symbol = bmtSymbol ∧ getPrice = .ok price ∧
        Moves db.ledger after.ledger
          (if price.base.symbol = bmtSymbol then 0
            else amountToSell.amount) := by
  rcases posts_createOrder applied with ⟨id, price, symbol, priced, posted⟩
  refine ⟨price, symbol, priced, _, posted, ?_, by simp⟩
  by_cases base : price.base.symbol = bmtSymbol
  · simp [Entry.weight, LimitOrderObject.inBmt, LimitOrderObject.amountForSale,
      Asset.inBmt, base]
  · simp [Entry.weight, LimitOrderObject.inBmt, LimitOrderObject.amountForSale,
      Asset.inBmt, base]

/-- A closed order gives its price to one balance. -/
theorem moves_closedOrder
    {id : Nat}
    {name : AccountName}
    {order : ContentOrderObject}
    {status : OrderStatus}
    (isOpen : order.status = .open)
    (closed : status ≠ .open)
    (posted : Posts db.ledger
      [.purse name .balance order.price,
        .contentOrder id (some order) (some { order with status := status })]
      after.ledger) :
    Moves db.ledger after.ledger 0 := by
  refine ⟨_, posted, ?_, by simp⟩
  simp [Entry.weight, ContentOrderObject.inBmt, isOpen, closed]

/-- Every operation moves the totals of the vesting shares with the accounts,
and the gap of the supply by nothing exactly under its condition. -/
theorem moves_applyOperation
    {op : Operation}
    (valid : op.validate ext = .ok ())
    (applied : db.applyOperation ext op = .ok after) :
    ∃ weight,
      Moves db.ledger after.ledger weight ∧
        (weight = 0 ↔ KeepsSupply db op) := by
  by_cases idle : movesMoney op = false
  · refine ⟨0, .of_eq (keeps_applyOperation ext db op idle after applied), ?_⟩
    cases op <;> simp [movesMoney, KeepsSupply] at idle ⊢
  have balanced : Moves db.ledger after.ledger 0 → KeepsSupply db op →
      ∃ weight, Moves db.ledger after.ledger weight ∧
        (weight = 0 ↔ KeepsSupply db op) :=
    fun moves kept => ⟨0, moves, iff_of_true rfl kept⟩
  cases op with
  | vote op => exact balanced ((emits_vote ext db op).moves applied) trivial
  | comment op =>
      exact balanced ((emits_comment ext db op).moves applied) trivial
  | transfer op =>
      refine balanced ⟨_, posts_transfer applied, ?_, by simp⟩ trivial
      simp [Entry.weight]
  | transferToSavings op =>
      refine balanced ⟨_, posts_transferToSavings applied, ?_, by simp⟩ trivial
      simp [Entry.weight]
  | cancelTransferFromSavings op =>
      rcases posts_cancelTransferFromSavings applied with
        ⟨id, request, symbol, posted⟩
      refine balanced ⟨_, posted, ?_, by simp⟩ trivial
      simp [Entry.weight, Asset.inBmt, symbol]
  | claimRewardBalance op =>
      rcases posts_claimRewardBalance applied with ⟨-, moved, -, -, -, posted⟩
      refine balanced ⟨_, posted, ?_, by simp⟩ trivial
      simp [Entry.weight]
  | escrowTransfer op =>
      rcases posts_escrowTransfer valid applied with ⟨id, posted⟩
      have symbol : op.fee.symbol = bmtSymbol := by
        simp only [Operation.validate, EscrowTransferOperation.validate,
          bind_eq_ok_iff, require_eq_ok_iff] at valid
        rcases valid with ⟨_, -, _, -, _, -, _, -, _, -, _, -, _, symbol, -⟩
        exact symbol
      refine balanced ⟨_, posted, ?_, by simp⟩ trivial
      simp [Entry.weight, EscrowHolding.inBmt, Asset.inBmt, symbol]
  | escrowApprove op =>
      rcases posts_escrowApprove applied with
        same | ⟨id, escrow, -, symbol, returned | paid⟩
      · exact balanced (.of_eq same) trivial
      · refine balanced ⟨_, returned, ?_, by simp⟩ trivial
        simp [Entry.weight, EscrowHolding.inBmt, EscrowObject.holding,
          Asset.inBmt, symbol]
      · refine balanced ⟨_, paid, ?_, by simp⟩ trivial
        simp [Entry.weight, EscrowHolding.inBmt, EscrowObject.holding,
          Asset.inBmt, symbol, bmt]
  | escrowRelease op =>
      rcases posts_escrowRelease applied with ⟨id, escrow, found, posted⟩
      refine ⟨_, .of_posts posted (by simp), ?_⟩
      have only : KeepsSupply db (.escrowRelease op) ↔
          (escrow.bmtBalance = op.bmtAmount.amount →
            escrow.pendingFee.inBmt = 0) := by
        constructor
        · exact fun kept => kept id escrow found
        · intro kept other row again
          cases again.symm.trans found
          exact kept
      rw [only]
      by_cases emptied : escrow.bmtBalance = op.bmtAmount.amount
      · rw [if_pos emptied]
        simp [Entry.weight, EscrowHolding.inBmt, EscrowObject.holding, emptied]
      · rw [if_neg emptied]
        simp [Entry.weight, EscrowHolding.inBmt, EscrowObject.holding, emptied]
  | limitOrderCreate op =>
      rcases moves_createOrder applied with ⟨price, symbol, priced, moves⟩
      simp only [LimitOrderCreateOperation.getPrice, Price.ofAssets,
        bind_eq_ok_iff, pure_eq_ok_iff] at priced
      rcases priced with ⟨_, -, _, -, _, -, rfl⟩
      rw [if_pos symbol] at moves
      exact balanced moves trivial
  | limitOrderCreate2 op =>
      rcases moves_createOrder applied with ⟨price, symbol, priced, moves⟩
      cases priced
      refine ⟨_, moves, ?_⟩
      simp only [KeepsSupply]
      split <;> simp_all
  | limitOrderCancel op =>
      rcases posts_limitOrderCancel applied with ⟨id, order, symbol, posted⟩
      refine balanced ⟨_, posted, ?_, by simp⟩ trivial
      simp [Entry.weight, LimitOrderObject.inBmt,
        LimitOrderObject.amountForSale, Asset.inBmt, symbol]
  | accountCreate op =>
      rcases posts_accountCreate applied with
        ⟨deposits, emission, posted, sum, emitted⟩
      have positive : 0 ≤ op.fee.amount := by
        simp only [Operation.validate, AccountCreateOperation.validate,
          bind_eq_ok_iff, require_eq_ok_iff] at valid
        rcases valid with ⟨_, -, _, -, _, -, _, -, _, -, positive⟩
        exact positive
      have vested := emitted.vested
      simp only [vested_iff] at vested
      refine ⟨_, .of_posts posted (by simp [vested]), ?_⟩
      have weight : netWeight
          ([.purse op.creator .balance (-op.fee.amount),
              .openPurse op.newAccountName] ++
            (fundEntries deposits ++ emission)) =
          op.fee.amount -
            (if 0 < op.fee.amount then op.fee.amount * db.rewardFunds.size
              else 0) := by
        simp only [netWeight_append, netWeight_cons, netWeight_nil,
          Entry.weight, netWeight_fundEntries, emitted.netWeight_eq, sum]
        omega
      rw [weight, fee_eq_deposited_iff]
      simp only [KeepsSupply]
      omega
  | accountCreateWithDelegation op =>
      rcases posts_accountCreateWithDelegation applied with
        ⟨vested, posted, ⟨none, rfl⟩ | ⟨shares, rfl⟩⟩
      · have positive : 0 ≤ op.fee.amount := by
          simp only [Operation.validate,
            AccountCreateWithDelegationOperation.validate, bind_eq_ok_iff,
            require_eq_ok_iff] at valid
          rcases valid with
            ⟨_, -, _, -, _, -, _, -, _, -, _, -, _, -, _, -, _, positive, -⟩
          exact positive
        refine balanced ⟨_, posted, ?_, by simp⟩ trivial
        simp [Entry.weight]
        omega
      · refine balanced ⟨_, posted, ?_, by simp⟩ trivial
        simp [Entry.weight]
  | contentOrderCreate op =>
      rcases posts_contentOrderCreate applied with
        ⟨rfl, same⟩ | ⟨absent, id, order, price, posted⟩ |
          ⟨late, id, order, found, status, different, posted⟩
      · refine balanced (.refl _) ?_
        intro late other row found
        rcases same late with ⟨id, order, there, kept⟩
        cases there.symm.trans found
        exact kept
      · refine balanced ⟨_, posted, ?_, by simp⟩ ?_
        · simp [Entry.weight, price]
        · intro _ other row found
          rw [absent] at found
          cases found
      · refine ⟨_, .of_posts posted (by simp), ?_⟩
        refine iff_of_false ?_ ?_
        · simp [Entry.weight, ContentOrderObject.inBmt, status]
          omega
        · exact fun kept => different (kept late id order found status)
  | contentOrderCancel op =>
      rcases posts_contentOrderCancel applied with
        rfl | ⟨order, -, status, posted⟩
      · exact balanced (.refl _) trivial
      · exact balanced (moves_closedOrder status (by decide) posted) trivial
  | contentOrderCancelByAuthor op =>
      rcases posts_contentOrderCancelByAuthor applied with
        ⟨-, rfl⟩ | ⟨-, order, -, status, posted⟩
      · exact balanced (.refl _) trivial
      · exact balanced (moves_closedOrder status (by decide) posted) trivial
  | encryptedContent op =>
      rcases posts_encryptedContent applied with
        ⟨settled, emission, posted, emitted, rfl | ⟨-, order, -, status, rfl⟩⟩
      · exact balanced
          ⟨_, posted, emitted.netWeight_eq, emitted.vested⟩ trivial
      · have vested := emitted.vested
        simp only [vested_iff] at vested
        refine balanced ⟨_, posted, ?_, by simp [settledEntries, vested]⟩
          trivial
        simp [settledEntries, Entry.weight, ContentOrderObject.inBmt, status,
          emitted.netWeight_eq]
  | customTokenCreate op =>
      rcases posts_customTokenCreate applied with ⟨deposits, posted, sum⟩
      refine ⟨_, .of_posts posted (by simp), ?_⟩
      rw [netWeight_cons, netWeight_fundEntries, sum]
      simp only [Entry.weight, KeepsSupply]
      rw [← fee_eq_deposited_iff]
      omega
  | _ => exact absurd rfl idle

end Database

/-! ## Steps of a block -/

/-- The sweep of the null account must not take out a negative value. -/
def StepKeepsSupply (db : Database) : BlockStep → Prop
  | .clearNullAccountBalance => 0 ≤ db.nullValue
  | _ => True

namespace Database

theorem moves_of_keeps
    (kept : KeepsLedger db result)
    (returned : result = .ok after) :
    Moves db.ledger after.ledger 0 :=
  .of_eq (kept after returned)

/-- The same for the steps of a block. -/
theorem moves_runStep
    {header : BlockHeader}
    {step : BlockStep}
    (ran : db.runStep ext header step = .ok after) :
    ∃ weight,
      Moves db.ledger after.ledger weight ∧
        (weight = 0 ↔ StepKeepsSupply db step) := by
  have balanced : Moves db.ledger after.ledger 0 → StepKeepsSupply db step →
      ∃ weight, Moves db.ledger after.ledger weight ∧
        (weight = 0 ↔ StepKeepsSupply db step) :=
    fun moves kept => ⟨0, moves, iff_of_true rfl kept⟩
  cases step with
  | updateGlobalDynamicData =>
      exact balanced
        (moves_of_keeps (keeps_updateGlobalDynamicData db header) ran) trivial
  | updateSigningWitness =>
      exact balanced
        (moves_of_keeps (keeps_modifyWitness db _ _) ran) trivial
  | updateLastIrreversibleBlock =>
      exact balanced
        (moves_of_keeps (keeps_updateLastIrreversibleBlock db) ran) trivial
  | createBlockSummary =>
      cases ran
      exact balanced (.refl _) trivial
  | clearExpiredTransactions =>
      exact balanced
        (moves_of_keeps (keeps_clearExpiredTransactions db) ran) trivial
  | clearExpiredOrders =>
      exact balanced (moves_clearExpiredOrders ran) trivial
  | clearExpiredDelegations =>
      exact balanced
        (moves_of_keeps (keeps_clearExpiredDelegations db) ran) trivial
  | updateWitnessSchedule =>
      exact balanced
        (moves_of_keeps (keeps_updateWitnessSchedule db) ran) trivial
  | updateVirtualSupply =>
      cases ran
      refine balanced (.of_eq (ledger_set_props db ?_)) trivial
      exact DynamicGlobalProperties.totals_congr rfl rfl rfl rfl rfl rfl
  | clearNullAccountBalance =>
      refine ⟨_, moves_clearNullAccountBalance ran, ?_⟩
      simp only [StepKeepsSupply]
      omega
  | processCommentCashout =>
      exact balanced (moves_processCommentCashout ran) trivial
  | processVestingWithdrawals =>
      exact balanced (moves_withdrawAlong ran) trivial
  | customTokensEmissions =>
      exact balanced
        (moves_of_keeps (keeps_customTokensEmissions db) ran) trivial
  | processSavingsReward =>
      exact balanced (moves_processSavingsReward ran) trivial
  | accountRecoveryProcessing =>
      exact balanced
        (moves_of_keeps (keeps_accountRecoveryProcessing db) ran) trivial
  | expireEscrowRatification =>
      exact balanced (moves_expireEscrowRatification ran) trivial
  | processDeclineVotingRights =>
      exact balanced
        (moves_of_keeps (keeps_processDeclineVotingRights db) ran) trivial
  | processHardforks =>
      exact balanced (moves_processHardforks ran) trivial

end Database

/-! ## Runs -/

/-- When an event keeps the supply consistent. -/
def EventKeepsSupply (ext : External) (db : Database) : Event → Prop
  | .operation op => KeepsSupply db op
  | .beginBlock _ => True
  | .finishBlock header =>
      Database.EachStep ext header StepKeepsSupply blockSteps db

theorem genesis_consistent :
    initGenesis.SupplyConsistent := by
  refine ⟨⟨?_, ?_, ?_⟩, by decide +kernel⟩
  · intro id request found
    cases found
  · intro id escrow found
    have none : initGenesis.ledger.escrows = ∅ := rfl
    rw [none] at found
    cases found
  · intro id request found
    cases found

/-- Whether an event keeps the supply consistent, step by step. -/
theorem event_consistent
    (allowed : EventKeepsSupply ext db event)
    (stepped : db.step ext event = .ok after)
    (consistent : db.SupplyConsistent) :
    after.SupplyConsistent := by
  cases event with
  | operation op =>
      simp only [Database.step, bind_eq_ok_iff] at stepped
      rcases stepped with ⟨_, valid, applied⟩
      rcases Database.moves_applyOperation valid applied with
        ⟨weight, moves, zero⟩
      exact (Database.consistent_iff_of_moves consistent moves).2
        (zero.2 allowed)
  | beginBlock header =>
      have kept := Database.keeps_beginBlock db header after stepped
      exact (Database.consistent_iff_of_moves consistent (.of_eq kept)).2 rfl
  | finishBlock header =>
      refine Database.foldlM_runStep_invariant Database.SupplyConsistent ?_
        allowed stepped consistent
      intro state step next kept ran before
      rcases Database.moves_runStep ran with ⟨weight, moves, zero⟩
      exact (Database.consistent_iff_of_moves before moves).2 (zero.2 kept)

/--
An operation, or a step of a block, keeps a consistent supply consistent
exactly under its condition, and so every run of such steps from genesis does.
-/
theorem supply_conserved_iff
    (ext : External) :
    (∀ db op after,
      db.SupplyConsistent → op.validate ext = .ok () →
        db.applyOperation ext op = .ok after →
          (after.SupplyConsistent ↔ KeepsSupply db op)) ∧
    (∀ db header step after,
      db.SupplyConsistent → db.runStep ext header step = .ok after →
        (after.SupplyConsistent ↔ StepKeepsSupply db step)) ∧
    (∀ block db,
      RunState ext (EventKeepsSupply ext) block db →
        db.SupplyConsistent) := by
  refine ⟨?_, ?_, ?_⟩
  · intro db op after consistent valid applied
    rcases Database.moves_applyOperation valid applied with
      ⟨weight, moves, zero⟩
    rw [Database.consistent_iff_of_moves consistent moves, zero]
  · intro db header step after consistent ran
    rcases Database.moves_runStep ran with ⟨weight, moves, zero⟩
    rw [Database.consistent_iff_of_moves consistent moves, zero]
  · intro block db run
    induction run with
    | genesis => exact genesis_consistent
    | step event _ _ allowed stepped induction =>
        exact event_consistent allowed stepped induction

/-- A transfer after genesis meets its condition. -/
theorem supply_conserved_transfer :
    ∃ after,
      initGenesis.applyOperation plainExternal sampleTransfer = .ok after ∧
        after.SupplyConsistent := by
  have ran :
      (initGenesis.applyOperation plainExternal sampleTransfer).isOk = true := by
    decide +kernel
  rcases exists_of_isOk ran with ⟨after, applied⟩
  refine ⟨after, applied, ?_⟩
  have valid : sampleTransfer.validate plainExternal = .ok () := by
    decide +kernel
  exact ((supply_conserved_iff plainExternal).1 initGenesis sampleTransfer
    after genesis_consistent valid applied).2 trivial

/-- A token created by the first witness for a negative fee. -/
def negativeFeeToken : Operation :=
  .customTokenCreate
    { controlAccount := initMinerName
      currentSupply := ⟨1000, symbolWord 3 ['T', 'K', 'N']⟩
      customTokenCreationFee := bmt (-5) }

/-- A negative fee is new BMT which the supply does not count. -/
theorem negative_fee_breaks_supply :
    ¬ ∀ (ext : External) (db : Database) (op : Operation) (after : Database),
      db.SupplyConsistent → op.validate ext = .ok () →
        db.applyOperation ext op = .ok after → after.SupplyConsistent := by
  intro conserved
  have ran : (initGenesis.applyOperation plainExternal
      negativeFeeToken).map (fun after =>
        decide (after.props.currentSupply = after.totalSupply)) =
      .ok false := by
    decide +kernel
  cases applied : initGenesis.applyOperation plainExternal
      negativeFeeToken with
  | error message =>
      rw [applied] at ran
      cases ran
  | ok after =>
      have consistent := conserved plainExternal initGenesis negativeFeeToken
        after genesis_consistent rfl applied
      rw [applied] at ran
      have broken : decide (after.props.currentSupply = after.totalSupply) =
          false :=
        Except.ok.inj ran
      exact of_decide_eq_false broken consistent.2

/-! ## Vesting totals -/

/-- What every event moves, it moves in a total and in the accounts alike. -/
theorem event_surplus
    (stepped : db.step ext event = .ok after)
    (counted : total.counted ≠ none)
    (zero : db.ledger.surplus total = 0) :
    after.ledger.surplus total = 0 := by
  cases event with
  | operation op =>
      simp only [Database.step, bind_eq_ok_iff] at stepped
      rcases stepped with ⟨_, valid, applied⟩
      rcases Database.moves_applyOperation valid applied with ⟨_, moves, -⟩
      rw [moves.surplus_eq counted, zero]
  | beginBlock header =>
      rw [Database.keeps_beginBlock db header after stepped, zero]
  | finishBlock header =>
      refine foldlM_invariant
        (fun state : Database => state.ledger.surplus total = 0) ?_ stepped
        zero
      intro state step next _ ran before
      rcases Database.moves_runStep ran with ⟨_, moves, -⟩
      rw [moves.surplus_eq counted, before]

theorem surplus_reachable
    (reachable : Reachable ext db)
    (counted : total.counted ≠ none) :
    db.ledger.surplus total = 0 := by
  rcases reachable with ⟨block, run⟩
  induction run with
  | genesis =>
      cases total with
      | vestingShares => decide +kernel
      | pendingShares => decide +kernel
      | pendingBacking => decide +kernel
      | supply => exact absurd rfl counted
      | vestingFund => exact absurd rfl counted
      | rewardFund => exact absurd rfl counted
  | step event _ _ _ stepped induction =>
      exact event_surplus stepped counted induction

/--
The global totals of the vesting shares and of the pending rewards are the
sums over the accounts.
-/
theorem vesting_totals
    {ext : External}
    {db : Database}
    (reachable : Reachable ext db) :
    db.props.totalVestingShares =
        sumOf AccountObject.vestingShares db.accounts.rows ∧
      db.props.pendingRewardedVestingShares =
        sumOf AccountObject.rewardVestingBalance db.accounts.rows ∧
      db.props.pendingRewardedVestingBmt =
        sumOf AccountObject.rewardVestingBmt db.accounts.rows := by
  have shares := surplus_reachable reachable (by decide :
    Total.vestingShares.counted ≠ none)
  have pending := surplus_reachable reachable (by decide :
    Total.pendingShares.counted ≠ none)
  have backing := surplus_reachable reachable (by decide :
    Total.pendingBacking.counted ≠ none)
  simp only [Ledger.surplus, Total.counted, Option.elim_some, Database.ledger,
    sumOf_map] at shares pending backing
  refine ⟨?_, ?_, ?_⟩
  · exact Int.eq_of_sub_eq_zero shares
  · exact Int.eq_of_sub_eq_zero pending
  · exact Int.eq_of_sub_eq_zero backing

/-- The totals after a transfer from genesis. -/
theorem vesting_totals_transfer :
    ∃ after,
      initGenesis.step plainExternal (.operation sampleTransfer) =
          .ok after ∧
        after.props.totalVestingShares =
          sumOf AccountObject.vestingShares after.accounts.rows := by
  have ran : (initGenesis.step plainExternal
      (.operation sampleTransfer)).isOk = true := by
    decide +kernel
  rcases exists_of_isOk ran with ⟨after, stepped⟩
  have reachable : Reachable plainExternal after :=
    ⟨none, .step (.operation sampleTransfer) .genesis (.operation _ _) trivial
      stepped⟩
  exact ⟨after, stepped, (vesting_totals reachable).1⟩

end BMChain.State
