import BMChain.State.LedgerFrame

/-!
# The entries of the operations

The entries which each evaluator that moves BMT or vesting shares posts to the
ledger.
-/

namespace BMChain.State

open BMChain.Foundation BMChain.Protocol Std

variable {name : AccountName} {reward used amount : Int} {delta : Asset}
    {ext : External} {id : Nat} {escrow : EscrowObject}
    {order : ContentOrderObject}

variable {op : ClaimRewardBalanceOperation} {fee newBmt shares : Int}
    {entries : List Entry}

/-! ## Entries for totals and tables -/

/-- Add amounts to the totals. -/
def creditTotals (totals : Total → Int) (credits : List (Total × Int)) :
    Total → Int :=
  credits.foldl
    (fun totals credit =>
      Function.update totals credit.1 (totals credit.1 + credit.2))
    totals

/-- The entries which add amounts to the totals. -/
def totalEntries (credits : List (Total × Int)) : List Entry :=
  credits.map fun credit => .total credit.1 credit.2

theorem Posts.totals
    (ledger : Ledger)
    (credits : List (Total × Int)) :
    Posts ledger (totalEntries credits)
      { ledger with totals := creditTotals ledger.totals credits } := by
  induction credits generalizing ledger with
  | nil => exact .nil ledger
  | cons credit rest induction =>
      exact .cons trivial (induction (ledger.post (.total credit.1 credit.2)))

namespace Database

variable {db after : Database}

/-- Global properties changed by added amounts post an entry for each. -/
theorem posts_props
    (db : Database)
    (props : DynamicGlobalProperties)
    (credits : List (Total × Int))
    (changed : props.totals = creditTotals db.props.totals credits) :
    Posts db.ledger (totalEntries credits)
      { db with props := props }.ledger := by
  have same :
      { db with props := props }.ledger =
        { db.ledger with
          totals := creditTotals db.ledger.totals credits } := by
    simp only [ledger, changed]
  rw [same]
  exact .totals db.ledger credits

/-! ## Balances -/

theorem posts_addBalance
    (done : db.addBalance name amount = .ok after) :
    Posts db.ledger [.purse name .balance amount] after.ledger := by
  refine posts_modifyAccount done [(.balance, amount)] ?_
  intro account changed equal
  simp only [bind_eq_ok_iff, checked_eq_ok_iff, pure_eq_ok_iff] at equal
  rcases equal with ⟨_, ⟨-, rfl⟩, rfl⟩
  funext kind
  cases kind <;> rfl

theorem posts_adjustBalance
    (done : db.adjustBalance name delta = .ok after) :
    delta.symbol = bmtSymbol ∧
      Posts db.ledger [.purse name .balance delta.amount] after.ledger := by
  have inverted := done
  rw [adjustBalance, modifyAccount_eq_ok_iff] at inverted
  rcases inverted with ⟨account, changed, -, equal, -⟩
  simp only [bind_eq_ok_iff, require_eq_ok_iff] at equal
  rcases equal with ⟨_, symbol, -⟩
  refine ⟨symbol, posts_modifyAccount done [(.balance, delta.amount)] ?_⟩
  intro account changed equal
  simp only [bind_eq_ok_iff, checked_eq_ok_iff, pure_eq_ok_iff] at equal
  rcases equal with ⟨_, -, _, ⟨-, rfl⟩, rfl⟩
  funext kind
  cases kind <;> rfl

theorem posts_adjustSavingsBalance
    (done : db.adjustSavingsBalance name delta = .ok after) :
    delta.symbol = bmtSymbol ∧
      Posts db.ledger [.purse name .savings delta.amount] after.ledger := by
  have inverted := done
  rw [adjustSavingsBalance, modifyAccount_eq_ok_iff] at inverted
  rcases inverted with ⟨account, changed, -, equal, -⟩
  simp only [bind_eq_ok_iff, require_eq_ok_iff] at equal
  rcases equal with ⟨_, symbol, -⟩
  refine ⟨symbol, posts_modifyAccount done [(.savings, delta.amount)] ?_⟩
  intro account changed equal
  simp only [bind_eq_ok_iff, checked_eq_ok_iff, pure_eq_ok_iff] at equal
  rcases equal with ⟨_, -, _, ⟨-, rfl⟩, rfl⟩
  funext kind
  cases kind <;> rfl

theorem posts_adjustRewardBalance
    (done : db.adjustRewardBalance name delta = .ok after) :
    Posts db.ledger [.purse name .rewardBmt delta.amount] after.ledger := by
  refine posts_modifyAccount done [(.rewardBmt, delta.amount)] ?_
  intro account changed equal
  simp only [bind_eq_ok_iff, checked_eq_ok_iff, pure_eq_ok_iff] at equal
  rcases equal with ⟨_, -, _, ⟨-, rfl⟩, rfl⟩
  funext kind
  cases kind <;> rfl

/-! ## Transfers -/

theorem keeps_proveActive
    (db : Database)
    (name : AccountName)
    (account : AccountObject) :
    KeepsLedger db (db.proveActive name account) := by
  unfold proveActive
  split
  · exact keeps_modifyAccount_pure db name fun _ => rfl
  · exact .ok rfl

theorem posts_transfer
    {op : TransferOperation}
    (applied : db.transferEvaluator op = .ok after) :
    Posts db.ledger
      [.purse op.fromAccount .balance (-op.amount.amount),
        .purse op.toAccount .balance op.amount.amount] after.ledger := by
  simp only [transferEvaluator, Asset.neg, bind_eq_ok_iff, pure_eq_ok_iff,
    checked_eq_ok_iff] at applied
  rcases applied with
    ⟨_, -, _, -, proved, kept, _, -, _, -, _, ⟨_, ⟨-, rfl⟩, rfl⟩,
      debited, debit, credit⟩
  have first := (posts_adjustBalance debit).2
  rw [keeps_proveActive db _ _ proved kept] at first
  exact first.append (posts_adjustBalance credit).2

theorem posts_transferToSavings
    {op : TransferToSavingsOperation}
    (applied : db.transferToSavingsEvaluator op = .ok after) :
    Posts db.ledger
      [.purse op.fromAccount .balance (-op.amount.amount),
        .purse op.toAccount .savings op.amount.amount] after.ledger := by
  simp only [transferToSavingsEvaluator, Asset.neg, bind_eq_ok_iff,
    pure_eq_ok_iff, checked_eq_ok_iff] at applied
  rcases applied with
    ⟨_, -, _, -, _, -, _, -, _, ⟨_, ⟨-, rfl⟩, rfl⟩, debited, debit, credit⟩
  exact (posts_adjustBalance debit).2.append
    (posts_adjustSavingsBalance credit).2

theorem posts_cancelTransferFromSavings
    {op : CancelTransferFromSavingsOperation}
    (applied : db.cancelTransferFromSavingsEvaluator op = .ok after) :
    ∃ id request,
      request.amount.symbol = bmtSymbol ∧
        Posts db.ledger
          [.purse op.fromAccount .savings request.amount.amount,
            .savingsWithdraw id (some request) none] after.ledger := by
  simp only [cancelTransferFromSavingsEvaluator, getSavingsWithdraw,
    bind_eq_ok_iff, orFault_eq_ok_iff] at applied
  rcases applied with ⟨⟨id, request⟩, searched, credited, credit, counted⟩
  have owner : request.fromAccount = op.fromAccount := by
    have test := List.find?_some searched
    simp only [decide_eq_true_eq] at test
    exact test.1
  have row := Table.find?_of_findBy searched
  rcases posts_adjustSavingsBalance credit with ⟨symbol, posted⟩
  refine ⟨id, request, symbol, ?_⟩
  rw [← owner]
  refine posted.append ?_
  rcases accounts_of_modifyAccount credit with ⟨accounts, rfl⟩
  rw [ledger_modifyAccount counted]
  · exact .single ⟨row, rfl⟩
  · rintro account _ ⟨⟩
    exact AccountObject.purse_congr rfl rfl rfl rfl rfl rfl

/-! ## Rewards -/

/-- What a claim moves is computed from the rewards which the account has. -/
theorem posts_claimRewardBalance
    (applied : db.claimRewardBalanceEvaluator op = .ok after) :
    ∃ account moved,
      db.accounts.find? op.account = some account ∧
        op.rewardVests.amount ≤ account.rewardVestingBalance ∧
          rewardVestingBmtToMove account op.rewardVests.amount = .ok moved ∧
      Posts db.ledger
        [.purse op.account .rewardBmt (-op.rewardBmt.amount),
          .purse op.account .balance op.rewardBmt.amount,
          .purse op.account .shares op.rewardVests.amount,
          .purse op.account .rewardShares (-op.rewardVests.amount),
          .purse op.account .rewardBacking (-moved),
          .total .vestingShares op.rewardVests.amount,
          .total .vestingFund moved,
          .total .pendingShares (-op.rewardVests.amount),
          .total .pendingBacking (-moved)] after.ledger := by
  simp only [claimRewardBalanceEvaluator, Asset.inSymbol_eq_ok_iff,
    bind_eq_ok_iff, checked_eq_ok_iff, require_eq_ok_iff, getAccount,
    orFault_eq_ok_iff] at applied
  rcases applied with
    ⟨account, found, _, ⟨-, rfl⟩, _, -, _, ⟨-, rfl⟩, _, within, moved, move, _,
      ⟨-, rfl⟩, claimed, claim, credited, credit, changed, change, _,
      ⟨-, rfl⟩, _, ⟨-, rfl⟩, _, ⟨-, rfl⟩, _, ⟨-, rfl⟩, voted⟩
  refine ⟨account, moved, found, within, move, ?_⟩
  have shares : Posts credited.ledger
      (purseEntries op.account
        [(.shares, op.rewardVests.amount),
          (.rewardShares, -op.rewardVests.amount),
          (.rewardBacking, -moved)]) changed.ledger := by
    refine posts_modifyAccount change _ ?_
    intro account changed equal
    simp only [bind_eq_ok_iff, checked_eq_ok_iff, pure_eq_ok_iff] at equal
    rcases equal with ⟨_, ⟨-, rfl⟩, _, ⟨-, rfl⟩, _, ⟨-, rfl⟩, rfl⟩
    funext kind
    cases kind <;> rfl
  have totals := posts_props changed
    { changed.props with
      totalVestingShares :=
        changed.props.totalVestingShares + op.rewardVests.amount
      totalVestingFundBmt := changed.props.totalVestingFundBmt + moved
      pendingRewardedVestingShares :=
        changed.props.pendingRewardedVestingShares - op.rewardVests.amount
      pendingRewardedVestingBmt :=
        changed.props.pendingRewardedVestingBmt - moved }
    [(.vestingShares, op.rewardVests.amount), (.vestingFund, moved),
      (.pendingShares, -op.rewardVests.amount), (.pendingBacking, -moved)]
    (by funext kind; cases kind <;> rfl)
  rw [keeps_adjustProxiedVotesFrom _ _ _ _ after voted]
  exact (posts_adjustRewardBalance claim).append
    ((posts_adjustBalance credit).2.append (shares.append totals))

/-! ## Escrows -/

theorem posts_escrowTransfer
    {op : EscrowTransferOperation}
    (valid : op.validate ext = .ok ())
    (applied : db.escrowTransferEvaluator op = .ok after) :
    ∃ id,
      Posts db.ledger
        [.purse op.fromAccount .balance
            (-(op.bmtAmount.amount + op.fee.amount)),
          .escrow id none (some ⟨op.bmtAmount.amount, op.fee⟩)]
        after.ledger := by
  have symbol : op.fee.symbol = bmtSymbol := by
    simp only [EscrowTransferOperation.validate, bind_eq_ok_iff,
      require_eq_ok_iff] at valid
    rcases valid with ⟨_, -, _, -, _, -, _, -, _, -, _, -, _, symbol, -⟩
    exact symbol
  simp only [escrowTransferEvaluator, createRow, if_pos symbol,
    Asset.inSymbol_eq_ok_iff, bind_eq_ok_iff, checked_eq_ok_iff,
    pure_eq_ok_iff] at applied
  rcases applied with
    ⟨_, -, _, -, _, -, _, -, _, -, _, ⟨-, rfl⟩, _, ⟨-, rfl⟩, _, -, _, ⟨-, rfl⟩,
      debited, debit, _, ⟨_, -, rfl⟩, rfl⟩
  refine ⟨debited.escrows.nextId, ?_⟩
  refine (posts_adjustBalance debit).2.append ?_
  have fresh : debited.ledger.escrows[debited.escrows.nextId]? = none := by
    have row := debited.escrows.find?_nextId
    rw [Table.find?] at row
    simp [ledger, ExtTreeMap.getElem?_map, row]
  have written : ({ debited with
      escrows := debited.escrows.emplace
        { escrowId := op.escrowId
          fromAccount := op.fromAccount
          toAccount := op.toAccount
          agent := op.agent
          ratificationDeadline := op.ratificationDeadline
          escrowExpiration := op.escrowExpiration
          bmtBalance := op.bmtAmount.amount
          pendingFee := op.fee } } : Database).ledger =
      debited.ledger.post (.escrow debited.escrows.nextId none
        (some ⟨op.bmtAmount.amount, op.fee⟩)) := by
    simp only [ledger, Ledger.post, Table.emplace, place, map_insert]
    rfl
  rw [written]
  refine .single ⟨fresh, ?_⟩
  rintro held ⟨⟩
  exact .inl symbol

/-- An escrow which is paid back gives its sender all it holds. -/
theorem posts_returnEscrow
    {sender : AccountName}
    (found : db.escrows.find? id = some escrow)
    (done : db.returnEscrow sender id escrow = .ok after) :
    escrow.pendingFee.symbol = bmtSymbol ∧
      Posts db.ledger
        [.purse sender .balance escrow.bmtBalance,
          .purse sender .balance escrow.pendingFee.amount,
          .escrow id (some escrow.holding) none] after.ledger := by
  simp only [returnEscrow, bind_eq_ok_iff, pure_eq_ok_iff] at done
  rcases done with ⟨paid, pay, refunded, refund, rfl⟩
  rcases posts_adjustBalance refund with ⟨symbol, posted⟩
  refine ⟨symbol, (posts_adjustBalance pay).2.append (posted.append ?_)⟩
  rcases accounts_of_modifyAccount pay with ⟨first, rfl⟩
  rcases accounts_of_modifyAccount refund with ⟨second, rfl⟩
  have written : ({ db with
      accounts := second, escrows := db.escrows.remove id } :
        Database).ledger =
      ({ db with accounts := second } : Database).ledger.post
        (.escrow id (some escrow.holding) none) := by
    simp only [ledger, Ledger.post, Table.remove, place, map_erase]
  have held : ({ db with accounts := second } : Database).ledger.escrows[id]? =
      some escrow.holding :=
    ledger_escrow_of_find? found
  rw [written]
  exact .single ⟨held, fun _ impossible => by cases impossible⟩

/-- A changed escrow posts one entry. -/
theorem posts_set_escrow
    (found : db.escrows.find? id = some escrow)
    (changed : EscrowObject)
    (kept : changed.pendingFee.symbol = escrow.pendingFee.symbol) :
    Posts db.ledger [.escrow id (some escrow.holding) (some changed.holding)]
      { db with escrows := db.escrows.set id changed }.ledger := by
  rw [ledger_set_escrow found]
  refine .single ⟨ledger_escrow_of_find? found, ?_⟩
  rintro held ⟨⟩
  exact .inr ⟨escrow.holding, rfl, kept⟩

/-- A removed escrow posts one entry. -/
theorem posts_remove_escrow
    (found : db.escrows.find? id = some escrow) :
    Posts db.ledger [.escrow id (some escrow.holding) none]
      { db with escrows := db.escrows.remove id }.ledger := by
  have written : { db with escrows := db.escrows.remove id }.ledger =
      db.ledger.post (.escrow id (some escrow.holding) none) := by
    simp only [ledger, Ledger.post, Table.remove, place, map_erase]
  rw [written]
  exact .single
    ⟨ledger_escrow_of_find? found, fun _ impossible => by cases impossible⟩

/-- The fee of an escrow goes to its agent, or nothing moves. -/
theorem posts_payAgent
    {agent : AccountName}
    (found : db.escrows.find? id = some escrow)
    (done : db.payAgent agent id escrow = .ok after) :
    (escrow.pendingFee.symbol = bmtSymbol ∧
        Posts db.ledger
          [.purse agent .balance escrow.pendingFee.amount,
            .escrow id (some escrow.holding)
              (some ⟨escrow.bmtBalance, bmt 0⟩)] after.ledger) ∨
      after = db := by
  unfold payAgent at done
  split at done
  case isTrue =>
    simp only [bind_eq_ok_iff, pure_eq_ok_iff] at done
    rcases done with ⟨paid, pay, rfl⟩
    rcases posts_adjustBalance pay with ⟨symbol, posted⟩
    refine .inl ⟨symbol, posted.append ?_⟩
    rcases accounts_of_modifyAccount pay with ⟨accounts, rfl⟩
    have here : ({ db with accounts := accounts } : Database).escrows.find? id =
        some escrow :=
      found
    have written := posts_set_escrow here
      { escrow with pendingFee := { escrow.pendingFee with amount := 0 } } rfl
    simpa [EscrowObject.holding, symbol, bmt] using written
  case isFalse =>
    cases done
    exact .inr rfl

/-- The entries of an approval, by what it leads to. -/
theorem posts_escrowApprove
    {op : EscrowApproveOperation}
    (applied : db.escrowApproveEvaluator op = .ok after) :
    after.ledger = db.ledger ∨
      ∃ id escrow,
        db.escrows.find? id = some escrow ∧
          escrow.pendingFee.symbol = bmtSymbol ∧
            (Posts db.ledger
                [.purse op.fromAccount .balance escrow.bmtBalance,
                  .purse op.fromAccount .balance escrow.pendingFee.amount,
                  .escrow id (some escrow.holding) none] after.ledger ∨
              Posts db.ledger
                [.purse op.agent .balance escrow.pendingFee.amount,
                  .escrow id (some escrow.holding)
                    (some ⟨escrow.bmtBalance, bmt 0⟩)] after.ledger) := by
  simp only [escrowApproveEvaluator, getEscrow, bind_eq_ok_iff,
    orFault_eq_ok_iff] at applied
  rcases applied with
    ⟨⟨id, escrow⟩, searched, _, -, _, -, _, -, _, -, _, -, decided⟩
  have found : db.escrows.find? id = some escrow :=
    Table.find?_of_findBy searched
  split at decided
  case isTrue =>
    rcases posts_returnEscrow found decided with ⟨symbol, posted⟩
    exact .inr ⟨id, escrow, found, symbol, .inl posted⟩
  case isFalse =>
    -- The approval itself is written first, which the ledger does not see.
    have same : ({ db with
        escrows := db.escrows.set id (approvedBy op escrow) } :
          Database).ledger = db.ledger :=
      ledger_set_escrow_same found rfl
    have now :
        (db.escrows.set id (approvedBy op escrow)).find? id =
          some (approvedBy op escrow) := by
      rw [Table.find?, Table.set_rows found, getElem?_place, if_pos rfl]
    rcases posts_payAgent now decided with ⟨symbol, posted⟩ | rfl
    · rw [same] at posted
      exact .inr ⟨id, escrow, found, symbol, .inr posted⟩
    · exact .inl same

theorem posts_escrowRelease
    {op : EscrowReleaseOperation}
    (applied : db.escrowReleaseEvaluator op = .ok after) :
    ∃ id escrow,
      db.getEscrow op.fromAccount op.escrowId = .ok (id, escrow) ∧
        Posts db.ledger
          [.purse op.receiver .balance op.bmtAmount.amount,
            .escrow id (some escrow.holding)
              (if escrow.bmtBalance = op.bmtAmount.amount then none
                else some
                  ⟨escrow.bmtBalance - op.bmtAmount.amount,
                    escrow.pendingFee⟩)] after.ledger := by
  simp only [escrowReleaseEvaluator, Asset.inSymbol_eq_ok_iff, bind_eq_ok_iff,
    checked_eq_ok_iff] at applied
  rcases applied with
    ⟨_, -, _, -, ⟨id, escrow⟩, searched, _, ⟨-, rfl⟩, _, -, _, -, _, -, _, -,
      _, -, _, -, paid, pay, _, ⟨-, rfl⟩, left⟩
  refine ⟨id, escrow, searched, (posts_adjustBalance pay).2.append ?_⟩
  rw [getEscrow, orFault_eq_ok_iff] at searched
  have found : db.escrows.find? id = some escrow :=
    Table.find?_of_findBy searched
  rcases accounts_of_modifyAccount pay with ⟨accounts, rfl⟩
  have here : ({ db with accounts := accounts } : Database).escrows.find? id =
      some escrow :=
    found
  split at left
  case isTrue zero =>
    cases left
    rw [if_pos (by dsimp only at zero; omega)]
    exact posts_remove_escrow here
  case isFalse nonzero =>
    cases left
    rw [if_neg (by dsimp only at nonzero; omega)]
    exact posts_set_escrow here
      { escrow with bmtBalance := escrow.bmtBalance - op.bmtAmount.amount } rfl

/-! ## Limit orders -/

theorem posts_cancelOrder
    {order : LimitOrderObject}
    (found : db.limitOrders.find? id = some order)
    (done : db.cancelOrder id order = .ok after) :
    order.sellPrice.base.symbol = bmtSymbol ∧
      Posts db.ledger
        [.purse order.seller .balance order.forSale,
          .limitOrder id (some order) none] after.ledger := by
  simp only [cancelOrder, bind_eq_ok_iff, pure_eq_ok_iff] at done
  rcases done with ⟨paid, pay, rfl⟩
  rcases posts_adjustBalance pay with ⟨symbol, posted⟩
  refine ⟨symbol, posted.append ?_⟩
  rcases accounts_of_modifyAccount pay with ⟨accounts, rfl⟩
  exact .single found

theorem posts_limitOrderCancel
    {op : LimitOrderCancelOperation}
    (applied : db.limitOrderCancelEvaluator op = .ok after) :
    ∃ id order,
      order.sellPrice.base.symbol = bmtSymbol ∧
        Posts db.ledger
          [.purse op.owner .balance order.forSale,
            .limitOrder id (some order) none] after.ledger := by
  simp only [limitOrderCancelEvaluator, getLimitOrder, bind_eq_ok_iff,
    orFault_eq_ok_iff] at applied
  rcases applied with ⟨⟨id, order⟩, searched, canceled⟩
  have owner : order.seller = op.owner := by
    have test := List.find?_some searched
    simp only [decide_eq_true_eq] at test
    exact test.1
  have posted := posts_cancelOrder (Table.find?_of_findBy searched) canceled
  rw [owner] at posted
  exact ⟨id, order, posted⟩

/-- A fill pays the seller, and only BMT can be paid. -/
theorem symbols_of_fillOrder
    {pays receives : Asset}
    {result : Database × Bool}
    (filled : db.fillOrder id pays receives = .ok result) :
    pays.symbol ≠ receives.symbol ∧ receives.symbol = bmtSymbol := by
  simp only [fillOrder, bind_eq_ok_iff, require_eq_ok_iff] at filled
  rcases filled with ⟨order, -, _, -, _, differ, paid, pay, -⟩
  exact ⟨differ, (posts_adjustBalance pay).1⟩

/-- Two orders are never matched: one of them would have to receive no BMT. -/
theorem matchOrders_ne_ok
    (db : Database)
    (newId oldId : Nat)
    (result : Database × Nat) :
    db.matchOrders newId oldId ≠ .ok result := by
  intro matched
  simp only [matchOrders, bind_eq_ok_iff] at matched
  rcases matched with
    ⟨_, -, _, -, _, -, _, -, ⟨oldReceives, newReceives⟩, -, ⟨middle, _⟩, first,
      ⟨_, _⟩, second, -⟩
  rcases symbols_of_fillOrder first with ⟨differ, new⟩
  rcases symbols_of_fillOrder second with ⟨-, old⟩
  exact differ (old.trans new.symm)

theorem matchAll_eq
    {newId : Nat}
    {orders : List Nat}
    (matched : matchAll newId orders db = .ok after) :
    after = db := by
  cases orders with
  | nil =>
      cases matched
      rfl
  | cons oldId rest =>
      rw [matchAll, bind_eq_ok_iff] at matched
      rcases matched with ⟨result, first, -⟩
      exact absurd first (matchOrders_ne_ok db newId oldId result)

theorem applyOrder_eq
    {filled : Bool}
    (applied : db.applyOrder id = .ok (after, filled)) :
    after = db := by
  simp only [applyOrder, bind_eq_ok_iff, pure_eq_ok_iff] at applied
  rcases applied with ⟨_, -, _, -, final, matched, equal⟩
  cases equal
  exact matchAll_eq matched

/-- A new order takes what it sells out of the balance of its owner. -/
theorem posts_createOrder
    {owner : AccountName}
    {orderid : Nat}
    {amountToSell : Asset}
    {getPrice : Except Fault Price}
    {fillOrKill : Bool}
    {expiration : Time}
    (applied : db.createOrder owner orderid amountToSell getPrice fillOrKill
      expiration = .ok after) :
    ∃ id price,
      amountToSell.symbol = bmtSymbol ∧ getPrice = .ok price ∧
        Posts db.ledger
          [.purse owner .balance (-amountToSell.amount),
            .limitOrder id none
              (some ⟨db.headBlockTime, expiration, owner, orderid,
                amountToSell.amount, price⟩)] after.ledger := by
  simp only [createOrder, createRow, Asset.neg, bind_eq_ok_iff,
    checked_eq_ok_iff, pure_eq_ok_iff] at applied
  rcases applied with
    ⟨_, -, _, -, _, -, _, -, _, ⟨_, ⟨-, rfl⟩, rfl⟩, debited, debit, price,
      priced, _, ⟨_, -, rfl⟩, ⟨final, filled⟩, applied, _, -, rfl⟩
  rcases posts_adjustBalance debit with ⟨symbol, posted⟩
  rcases accounts_of_modifyAccount debit with ⟨accounts, rfl⟩
  refine ⟨db.limitOrders.nextId, price, symbol, priced, posted.append ?_⟩
  rw [applyOrder_eq applied]
  exact .single db.limitOrders.find?_nextId

/-! ## Orders for closed content -/

theorem posts_modifyContentOrder
    {change : ContentOrderObject → ContentOrderObject}
    (done : db.modifyContentOrder id change = .ok after)
    (found : db.contentOrders.find? id = some order) :
    Posts db.ledger [.contentOrder id (some order) (some (change order))]
      after.ledger := by
  simp only [modifyContentOrder, modifyRow, found, bind_eq_ok_iff,
    orFault_eq_ok_iff, pure_eq_ok_iff] at done
  rcases done with ⟨_, ⟨_, equal, _, rfl, rfl⟩, rfl⟩
  cases equal
  have written :
      ({ db with contentOrders := db.contentOrders.set id (change order) } :
        Database).ledger =
        db.ledger.post
          (.contentOrder id (some order) (some (change order))) := by
    simp only [ledger, Ledger.post, Table.set_rows found]
  rw [written]
  exact .single found

/-- An order which is closed pays its price to one account. -/
theorem posts_closeOrder
    {db paid after : Database}
    {status : OrderStatus}
    (found : db.contentOrders.find? id = some order)
    (pay : db.addBalance name order.price = .ok paid)
    (done : paid.modifyContentOrder id
      (fun order => { order with status := status }) = .ok after) :
    Posts db.ledger
      [.purse name .balance order.price,
        .contentOrder id (some order)
          (some { order with status := status })] after.ledger := by
  have posted := posts_addBalance pay
  rcases accounts_of_modifyAccount pay with ⟨accounts, rfl⟩
  exact posted.append (posts_modifyContentOrder done found)

theorem posts_refundOrder
    (found : db.contentOrders.find? id = some order)
    (done : db.refundOrder id order name = .ok after) :
    order.status = .open ∧
      Posts db.ledger
        [.purse name .balance order.price,
          .contentOrder id (some order)
            (some { order with status := .canceled })] after.ledger := by
  simp only [refundOrder, bind_eq_ok_iff, require_eq_ok_iff] at done
  rcases done with ⟨_, status, paid, pay, closed⟩
  exact ⟨status, posts_closeOrder found pay closed⟩

theorem posts_settleOrder
    {author : AccountName}
    (done : db.settleOrder author id = .ok after) :
    ∃ order,
      db.contentOrders.find? id = some order ∧ order.status = .open ∧
        Posts db.ledger
          [.purse author .balance order.price,
            .contentOrder id (some order)
              (some { order with status := .completed })] after.ledger := by
  simp only [settleOrder, getContentOrderById, bind_eq_ok_iff,
    orFault_eq_ok_iff, require_eq_ok_iff] at done
  rcases done with ⟨order, found, _, status, paid, pay, closed⟩
  exact ⟨order, found, status, posts_closeOrder found pay closed⟩

theorem posts_contentOrderCancel
    {op : ContentOrderCancelOperation}
    (applied : db.contentOrderCancelEvaluator op = .ok after) :
    after = db ∨
      ∃ order,
        db.contentOrders.find? op.orderId = some order ∧
          order.status = .open ∧
            Posts db.ledger
              [.purse op.owner .balance order.price,
                .contentOrder op.orderId (some order)
                  (some { order with status := .canceled })]
              after.ledger := by
  unfold contentOrderCancelEvaluator at applied
  split at applied
  case isTrue =>
    cases applied
    exact .inl rfl
  case isFalse =>
    simp only [getContentOrderById, bind_eq_ok_iff, orFault_eq_ok_iff]
      at applied
    rcases applied with ⟨order, found, _, -, refunded⟩
    exact .inr ⟨order, found, posts_refundOrder found refunded⟩

theorem posts_contentOrderCancelByAuthor
    {op : ContentOrderCancelByAuthorOperation}
    (applied : db.contentOrderCancelByAuthorEvaluator op = .ok after) :
    db.headBlockNum < usingCloseContent ∧ after = db ∨
      usingCloseContent ≤ db.headBlockNum ∧ ∃ order,
        db.contentOrders.find? op.orderId = some order ∧
          order.status = .open ∧
            Posts db.ledger
              [.purse order.owner .balance order.price,
                .contentOrder op.orderId (some order)
                  (some { order with status := .canceled })]
              after.ledger := by
  unfold contentOrderCancelByAuthorEvaluator at applied
  split at applied
  case isTrue early =>
    cases applied
    exact .inl ⟨early, rfl⟩
  case isFalse late =>
    simp only [getContentOrderById, bind_eq_ok_iff, orFault_eq_ok_iff]
      at applied
    rcases applied with ⟨order, found, _, -, refunded⟩
    exact .inr ⟨Nat.le_of_not_lt late, order, found,
      posts_refundOrder found refunded⟩

/--
A new order reserves its price.  A changed price moves the balance of the
owner the wrong way: by what the old price is above the new one.
-/
theorem posts_contentOrderCreate
    {op : ContentOrderCreateOperation}
    (applied : db.contentOrderCreateEvaluator op = .ok after) :
    after = db ∧
        (usingCloseContent ≤ db.headBlockNum →
          ∃ id order,
            db.findContentOrder op.author op.permlink op.owner =
                some (id, order) ∧
              (order.status = .open → order.price = op.price.amount)) ∨
      db.findContentOrder op.author op.permlink op.owner = none ∧
        (∃ id order,
          order.inBmt = op.price.amount ∧
            Posts db.ledger
              [.purse op.owner .balance (-op.price.amount),
                .contentOrder id none (some order)] after.ledger) ∨
      usingCloseContent ≤ db.headBlockNum ∧
        ∃ id order,
          db.findContentOrder op.author op.permlink op.owner =
              some (id, order) ∧
            order.status = .open ∧ order.price ≠ op.price.amount ∧
              Posts db.ledger
                [.purse op.owner .balance
                    (-(order.price - op.price.amount)),
                  .contentOrder id (some order)
                    (some { order with price := op.price.amount })]
                after.ledger := by
  unfold contentOrderCreateEvaluator at applied
  split at applied
  case isTrue early =>
    cases applied
    exact .inl ⟨rfl, fun late => by omega⟩
  case isFalse late =>
    simp only [bind_eq_ok_iff, Asset.inSymbol_eq_ok_iff] at applied
    rcases applied with
      ⟨_, -, ⟨_, comment⟩, -, _, ⟨-, rfl⟩, _, -, _, -, _, -, decided⟩
    split at decided
    case h_1 absent =>
      simp only [createRow, bind_eq_ok_iff, pure_eq_ok_iff] at decided
      rcases decided with ⟨debited, debit, _, ⟨_, -, rfl⟩, rfl⟩
      have posted := posts_addBalance debit
      rcases accounts_of_modifyAccount debit with ⟨accounts, rfl⟩
      refine .inr (.inl ⟨absent, db.contentOrders.nextId, _, ?_,
        posted.append (.single db.contentOrders.find?_nextId)⟩)
      rfl
    case h_2 id order searched =>
      split at decided
      case isTrue edited =>
        simp only [bind_eq_ok_iff, checked_eq_ok_iff] at decided
        rcases decided with ⟨_, ⟨-, rfl⟩, moved, move, written⟩
        have posted := posts_addBalance move
        have found : db.contentOrders.find? id = some order :=
          Table.find?_of_findBy searched
        rcases accounts_of_modifyAccount move with ⟨accounts, rfl⟩
        exact .inr (.inr ⟨by omega, id, order, searched, edited.1, edited.2,
          posted.append (posts_modifyContentOrder written found)⟩)
      case isFalse kept =>
        cases decided
        refine .inl ⟨rfl, fun _ => ⟨id, order, searched, ?_⟩⟩
        intro status
        by_contra different
        exact kept ⟨status, different⟩

/-! ## Reward funds and emission -/

/-- The entries of deposits in reward funds. -/
def fundEntries (deposits : List (Nat × Int)) : List Entry :=
  deposits.map fun deposit => .fund deposit.1 deposit.2

/-- The sum of deposits. -/
def deposited (deposits : List (Nat × Int)) : Int :=
  (deposits.map Prod.snd).sum

@[simp]
theorem netWeight_fundEntries
    (deposits : List (Nat × Int)) :
    netWeight (fundEntries deposits) = -deposited deposits := by
  induction deposits with
  | nil => rfl
  | cons deposit rest induction =>
      simp only [fundEntries, deposited, List.map_cons, List.sum_cons,
        netWeight_cons, Entry.weight] at induction ⊢
      omega

@[simp]
theorem netCredit_fundEntries
    (name : AccountName)
    (kind : Holding)
    (deposits : List (Nat × Int)) :
    netCredit name kind (fundEntries deposits) = 0 := by
  induction deposits with
  | nil => rfl
  | cons deposit rest induction =>
      simp only [fundEntries, List.map_cons, netCredit_cons, Entry.credit]
        at induction ⊢
      omega

theorem posts_modifyRewardFund
    {change : RewardFundObject → Except Fault RewardFundObject}
    (done : db.modifyRewardFund id change = .ok after)
    (added : ∀ fund changed,
      change fund = .ok changed →
        changed.rewardBalance = fund.rewardBalance + amount) :
    Posts db.ledger [.fund id amount] after.ledger := by
  simp only [modifyRewardFund, modifyRow, bind_eq_ok_iff, orFault_eq_ok_iff,
    pure_eq_ok_iff] at done
  rcases done with ⟨_, ⟨fund, found, changed, change, rfl⟩, rfl⟩
  have held : db.ledger.funds[id]? = some fund.rewardBalance := by
    have row : db.rewardFunds.rows[id]? = some fund := found
    simp [ledger, ExtTreeMap.getElem?_map, row]
  have written :
      ({ db with rewardFunds := db.rewardFunds.set id changed } :
        Database).ledger = db.ledger.post (.fund id amount) := by
    simp only [Ledger.post, modify_eq_place held]
    simp only [ledger, Table.set_rows found, map_place, Option.map_some,
      added fund changed change]
  rw [written]
  refine .single ?_
  exact ExtTreeMap.isSome_getElem?_iff_mem.1 (by rw [held]; rfl)

/-- A fee goes to every reward fund in full. -/
theorem posts_addToRewardFunds
    (done : db.addToRewardFunds fee = .ok after) :
    ∃ deposits,
      Posts db.ledger (fundEntries deposits) after.ledger ∧
        deposited deposits = fee * db.rewardFunds.size := by
  have each : ∀ (items : List (Nat × RewardFundObject)) (db after : Database),
      items.foldlM
        (fun db entry => db.modifyRewardFund entry.1 fun fund => do
          let balance ← checked (fund.rewardBalance + fee)
          pure { fund with rewardBalance := balance })
        db = .ok after →
      ∃ deposits,
        Posts db.ledger (fundEntries deposits) after.ledger ∧
          deposited deposits = fee * items.length := by
    intro items
    induction items with
    | nil =>
        rintro db after ⟨⟩
        exact ⟨[], .nil _, by simp [deposited]⟩
    | cons entry rest induction =>
        intro db after ran
        rw [List.foldlM_cons, bind_eq_ok_iff] at ran
        rcases ran with ⟨middle, first, ran⟩
        rcases induction middle after ran with ⟨deposits, posted, sum⟩
        refine ⟨(entry.1, fee) :: deposits, ?_, ?_⟩
        · refine Posts.append (posts_modifyRewardFund first ?_) posted
          intro fund changed equal
          simp only [bind_eq_ok_iff, checked_eq_ok_iff, pure_eq_ok_iff]
            at equal
          rcases equal with ⟨_, ⟨-, rfl⟩, rfl⟩
          rfl
        · rw [deposited] at sum ⊢
          rw [List.map_cons, List.sum_cons, sum, List.length_cons,
            Int.natCast_add, Int.mul_add]
          omega
  rcases each db.rewardFunds.entries db after done with
    ⟨deposits, posted, sum⟩
  refine ⟨deposits, posted, ?_⟩
  rw [sum, Table.entries, ExtTreeMap.length_toList, Table.size]

/-- What a fee leads to in the funds. -/
theorem posts_payFee
    (done : db.payFee fee = .ok after) :
    ∃ deposits,
      Posts db.ledger (fundEntries deposits) after.ledger ∧
        deposited deposits =
          if 0 < fee then fee * db.rewardFunds.size else 0 := by
  unfold payFee at done
  split at done
  case isTrue positive =>
    rw [if_pos positive]
    exact posts_addToRewardFunds done
  case isFalse none =>
    cases done
    rw [if_neg none]
    exact ⟨[], .nil _, rfl⟩

/-- The reward funds take no more than they are offered. -/
theorem posts_payRewardFunds
    (done : db.payRewardFunds reward = .ok (after, used)) :
    (∃ deposits,
      Posts db.ledger (fundEntries deposits) after.ledger ∧
        deposited deposits = used) ∧
      (used = 0 ∨ used ≤ reward) := by
  refine foldlM_invariant
    (fun paid : Database × Int =>
      (∃ deposits,
        Posts db.ledger (fundEntries deposits) paid.1.ledger ∧
          deposited deposits = paid.2) ∧
        (paid.2 = 0 ∨ paid.2 ≤ reward))
    ?_ done ⟨⟨[], .nil _, rfl⟩, .inl rfl⟩
  rintro ⟨state, paid⟩ entry after - stepped ⟨⟨deposits, posted, sum⟩, -⟩
  simp only [payRewardFund, bind_eq_ok_iff, checked_eq_ok_iff,
    require_eq_ok_iff, pure_eq_ok_iff] at stepped
  rcases stepped with
    ⟨_, ⟨-, rfl⟩, share, -, changed, change, _, ⟨-, rfl⟩, _, fits, rfl⟩
  refine ⟨⟨deposits ++ [(entry.1, share)], ?_, ?_⟩, .inr fits⟩
  · rw [fundEntries, List.map_append]
    refine posted.append (posts_modifyRewardFund change ?_)
    intro fund changed equal
    simp only [bind_eq_ok_iff, checked_eq_ok_iff, pure_eq_ok_iff] at equal
    rcases equal with ⟨_, ⟨-, rfl⟩, rfl⟩
    rfl
  · simp [deposited] at sum ⊢
    omega

/-- The entries of an emission: new supply for the funds and a witness. -/
inductive IsEmission : List Entry → Prop
  | stopped : IsEmission []
  | paid (deposits : List (Nat × Int)) (witness : AccountName) (reward : Int) :
      0 ≤ reward →
        IsEmission
          (fundEntries deposits ++
            [.purse witness .balance reward,
              .total .supply (deposited deposits + reward)])

theorem IsEmission.netWeight_eq
    (emission : IsEmission entries) :
    netWeight entries = 0 := by
  cases emission with
  | stopped => rfl
  | paid deposits witness reward _ =>
      simp only [netWeight_append, netWeight_fundEntries, netWeight_cons,
        netWeight_nil, Entry.weight]
      omega

theorem IsEmission.netCredit_nonneg
    (emission : IsEmission entries)
    (name : AccountName)
    (kind : Holding) :
    0 ≤ netCredit name kind entries := by
  cases emission with
  | stopped => rfl
  | paid deposits witness reward positive =>
      simp only [netCredit_append, netCredit_fundEntries, netCredit_cons,
        netCredit_nil, Entry.credit]
      split <;> omega

/-- What the reward funds take of an offer, together. -/
def fundShares (db : Database) (reward : Int) : Int :=
  (db.rewardFunds.entries.map fun entry =>
    (reward * entry.2.percentContentRewards).tdiv hundredPercent).sum

theorem used_of_payRewardFunds
    (done : db.payRewardFunds reward = .ok (after, used)) :
    used = db.fundShares reward := by
  suffices each : ∀ (items : List (Nat × RewardFundObject))
      (paid final : Database × Int),
      items.foldlM (payRewardFund reward) paid = .ok final →
        final.2 = paid.2 + (items.map fun entry =>
          (reward * entry.2.percentContentRewards).tdiv
            hundredPercent).sum by
    have sum := each db.rewardFunds.entries (db, 0) (after, used) done
    rw [Int.zero_add] at sum
    exact sum
  intro items
  induction items with
  | nil =>
      rintro paid final ⟨⟩
      exact (Int.add_zero _).symm
  | cons entry rest induction =>
      intro paid final ran
      rw [List.foldlM_cons, bind_eq_ok_iff] at ran
      rcases ran with ⟨middle, stepped, ran⟩
      simp only [payRewardFund, checkedDiv, bind_eq_ok_iff, checked_eq_ok_iff,
        require_eq_ok_iff, pure_eq_ok_iff] at stepped
      rcases stepped with ⟨_, ⟨-, rfl⟩, _, ⟨_, -, -, rfl⟩, changed, -, _,
        ⟨-, rfl⟩, _, -, rfl⟩
      rw [induction _ final ran, List.map_cons, List.sum_cons, Int.add_assoc]

theorem rewardFunds_of_payRewardFunds
    (done : db.payRewardFunds reward = .ok (after, used)) :
    ∃ funds, after = { db with rewardFunds := funds } := by
  refine foldlM_invariant
    (fun paid : Database × Int =>
      ∃ funds, paid.1 = { db with rewardFunds := funds })
    ?_ done ⟨db.rewardFunds, rfl⟩
  rintro ⟨state, paid⟩ entry next - stepped ⟨funds, rfl⟩
  simp only [payRewardFund, modifyRewardFund, bind_eq_ok_iff,
    pure_eq_ok_iff] at stepped
  rcases stepped with ⟨_, -, _, -, _, ⟨funds, -, rfl⟩, _, -, _, -, rfl⟩
  exact ⟨funds, rfl⟩

/-- The owner of the witness whose block it is. -/
def producer (db : Database) : Option AccountName :=
  (db.witnesses.find? db.props.currentWitness).map WitnessObject.owner

/-- What the producer of a block gets of an emission. -/
def producerReward (db : Database) (newBmt : Int) : Int :=
  if db.emissionStopped then 0
  else
    newBmt - db.fundShares ((newBmt * contentRewardPercentNew).tdiv
      hundredPercent)

/-- An emission credits the producer only, with its reward. -/
theorem posts_producerReward
    (positive : 0 ≤ newBmt)
    (done : db.processFundsBmchain newBmt = .ok after) :
    ∃ emission,
      IsEmission emission ∧ Posts db.ledger emission after.ledger ∧
        ∀ name kind, netCredit name kind emission =
          if kind = .balance ∧ db.producer = some name then
            db.producerReward newBmt
          else 0 := by
  unfold processFundsBmchain at done
  unfold producerReward
  split at done
  case isTrue stopped =>
    cases done
    refine ⟨[], .stopped, .nil _, fun name kind => ?_⟩
    rw [if_pos stopped, ite_self]
    rfl
  case isFalse running =>
    simp only [bind_eq_ok_iff, checked_eq_ok_iff, pure_eq_ok_iff] at done
    rcases done with
      ⟨⟨funded, used⟩, fund, _, ⟨-, rfl⟩, witness, found, paid, pay, _,
        ⟨-, rfl⟩, _, ⟨-, rfl⟩, _, ⟨-, rfl⟩, daily, -, rfl⟩
    have share := used_of_payRewardFunds fund
    rcases posts_payRewardFunds fund with ⟨⟨deposits, posted, rfl⟩, bounded⟩
    have offered :
        (newBmt * contentRewardPercentNew).tdiv hundredPercent ≤ newBmt := by
      rw [Int.tdiv_eq_ediv_of_nonneg (Int.mul_nonneg positive (by decide))]
      simp only [contentRewardPercentNew, hundredPercent]
      omega
    refine ⟨_, .paid deposits witness.owner (newBmt - deposited deposits)
      (by omega), posted.append ((posts_addBalance pay).append ?_), ?_⟩
    · exact posts_props
        (paid.pushVirtualOperation (.producerReward witness.owner
          (bmt (newBmt - deposited deposits)))) _
        [(.supply, deposited deposits + (newBmt - deposited deposits))]
        (by funext kind; cases kind <;> rfl)
    · intro name kind
      have producing : db.producer = some witness.owner := by
        rcases rewardFunds_of_payRewardFunds fund with ⟨funds, rfl⟩
        rw [getWitness, orFault_eq_ok_iff] at found
        exact congrArg (Option.map WitnessObject.owner) found
      rw [producing, if_neg running, ← share]
      simp only [netCredit_append, netCredit_fundEntries, netCredit_cons,
        netCredit_nil, Entry.credit, Option.some.injEq, Int.zero_add,
        Int.add_zero]
      exact if_congr (by rw [and_comm, eq_comm (a := kind)]) rfl rfl

theorem posts_processFundsBmchain
    (positive : 0 ≤ newBmt)
    (done : db.processFundsBmchain newBmt = .ok after) :
    ∃ emission,
      IsEmission emission ∧ Posts db.ledger emission after.ledger := by
  rcases posts_producerReward positive done with ⟨emission, is, posted, -⟩
  exact ⟨emission, is, posted⟩

/-- A new token costs its creator a fee, which positive goes to the funds. -/
theorem posts_customTokenCreate
    {op : CustomTokenCreateOperation}
    (applied : db.customTokenCreateEvaluator op = .ok after) :
    ∃ deposits,
      Posts db.ledger
          (.purse op.controlAccount .balance
              (-op.customTokenCreationFee.amount) :: fundEntries deposits)
          after.ledger ∧
        deposited deposits =
          if 0 < op.customTokenCreationFee.amount then
            op.customTokenCreationFee.amount * db.rewardFunds.size
          else 0 := by
  simp only [customTokenCreateEvaluator, Asset.inSymbol_eq_ok_iff,
    bind_eq_ok_iff] at applied
  rcases applied with
    ⟨_, -, _, ⟨-, rfl⟩, _, -, _, -, debited, debit, paid⟩
  have first := posts_addBalance debit
  rcases accounts_of_modifyAccount debit with ⟨accounts, rfl⟩
  rcases posts_payFee paid with ⟨deposits, posted, sum⟩
  exact ⟨deposits, first.append posted, sum⟩

/-! ## Comments and votes -/

/-- The states which a computation returns differ by an emission. -/
def Emits (db : Database) (result : Except Fault Database) : Prop :=
  ∀ after, result = .ok after →
    ∃ emission,
      IsEmission emission ∧ Posts db.ledger emission after.ledger

namespace Emits

variable {Value : Type}

theorem keeps
    {result : Except Fault Database}
    (kept : KeepsLedger db result) :
    Emits db result := by
  intro after returned
  refine ⟨[], .stopped, ?_⟩
  rw [kept after returned]
  exact .nil _

theorem read
    {first : Except Fault Value}
    {next : Value → Except Fault Database}
    (emits : ∀ value, Emits db (next value)) :
    Emits db (first >>= next) := by
  intro after equal
  rw [bind_eq_ok_iff] at equal
  rcases equal with ⟨value, -, rest⟩
  exact emits value after rest

/-- The ledger is kept before the emission. -/
theorem bind
    {first : Except Fault Database}
    {next : Database → Except Fault Database}
    (start : KeepsLedger db first)
    (emits : ∀ middle, Emits middle (next middle)) :
    Emits db (first >>= next) := by
  intro after equal
  rw [bind_eq_ok_iff] at equal
  rcases equal with ⟨middle, changed, finished⟩
  rw [← start middle changed]
  exact emits middle after finished

end Emits

theorem emits_storeComment
    (db : Database)
    (op : CommentOperation)
    (comment : CommentObject) :
    Emits db (db.storeComment op comment) := by
  refine .read fun _ => .read fun _ => .read fun comments => ?_
  refine .bind (keeps_updateParents _ _ _ _ _) fun middle after done => ?_
  refine posts_processFundsBmchain ?_ done
  split <;> decide

theorem emits_comment
    (ext : External)
    (db : Database)
    (op : CommentOperation) :
    Emits db (db.commentEvaluator ext op) := by
  refine .read ?_
  rintro ⟨author, parent⟩
  dsimp only
  split
  · refine .read fun _ => .read fun _ => .bind (keeps_countPost db op) ?_
    exact fun middle => emits_storeComment middle op _
  · exact .keeps (keeps_editComment ext db _ op)

theorem emits_castVote
    (ext : External)
    (db : Database)
    (op : VoteOperation)
    (voter : AccountObject)
    (id : Nat)
    (comment : CommentObject)
    (power : VotePower) :
    Emits db (db.castVote ext op voter id comment power) := by
  refine .read fun _ => .read fun _ => ?_
  refine .bind (keeps_modifyAccount_pure db op.voter fun _ => rfl) ?_
  intro spent
  refine .read fun _ => .read fun _ => .read fun _ => .read fun _ => ?_
  refine .read fun _ => ?_
  refine .bind (keeps_modifyComment _ _ _) fun counted => ?_
  refine .read fun _ => ?_
  refine .bind (keeps_modifyComment _ _ _) fun weighed => ?_
  exact fun after done => posts_processFundsBmchain (by decide) done

theorem emits_vote
    (ext : External)
    (db : Database)
    (op : VoteOperation) :
    Emits db (db.voteEvaluator ext op) := by
  refine .read fun _ => .read fun _ => .read fun _ => .read fun _ => ?_
  refine .read fun _ => .read fun _ => ?_
  split
  · exact .keeps (.ok rfl)
  · refine .read fun _ => ?_
    split
    · exact emits_castVote ext db op _ _ _ _
    · exact .keeps (keeps_changeVote db op _ _ _ _ _)

/-- The entries by which an author is paid for an order. -/
def settledEntries (author : AccountName) (id : Nat)
    (order : ContentOrderObject) : List Entry :=
  [.purse author .balance order.price,
    .contentOrder id (some order) (some { order with status := .completed })]

/-- Encrypted content settles the order it is made for, then emits. -/
theorem posts_encryptedContent
    {op : EncryptedContentOperation}
    (applied : db.encryptedContentEvaluator ext op = .ok after) :
    ∃ settled emission,
      Posts db.ledger (settled ++ emission) after.ledger ∧
        IsEmission emission ∧
          (settled = [] ∨
            op.applyOrder = true ∧
              ∃ order,
                db.contentOrders.find? op.orderId = some order ∧
                  order.status = .open ∧
                    settled = settledEntries op.author op.orderId order) := by
  simp only [encryptedContentEvaluator, bind_eq_ok_iff] at applied
  rcases applied with ⟨⟨author, parent⟩, -, middle, settled, stored⟩
  obtain ⟨emission, emitted, posted⟩ : ∃ emission,
      IsEmission emission ∧ Posts middle.ledger emission after.ledger := by
    split at stored
    · refine Emits.read (fun _ => .read fun _ => ?_) after stored
      refine .bind (keeps_countPost _ _) ?_
      exact fun counted => .read fun _ => emits_storeComment counted _ _
    · exact Emits.keeps (keeps_editComment ext _ _ _) after stored
  split at settled
  case isTrue forOrder =>
    rcases posts_settleOrder settled with ⟨order, found, status, first⟩
    exact ⟨settledEntries op.author op.orderId order, emission,
      first.append posted, emitted,
      .inr ⟨forOrder.2, order, found, status, rfl⟩⟩
  case isFalse =>
    cases settled
    exact ⟨[], emission, posted, emitted, .inl rfl⟩

/-! ## New accounts -/

/-- A new account opens an empty purse. -/
theorem posts_createAccount
    {row : Nat → AccountObject}
    {accounts : Register AccountObject}
    (created : createNamed db.accounts name row = .ok accounts)
    (empty : ∀ id kind, (row id).purse kind = 0) :
    Posts db.ledger [.openPurse name]
      { db with accounts := accounts }.ledger := by
  simp only [createNamed, bind_eq_ok_iff, require_eq_ok_iff, pure_eq_ok_iff,
    Option.isNone_iff_eq_none] at created
  rcases created with ⟨_, absent, rfl⟩
  have written : ({ db with
      accounts := db.accounts.emplace name (row db.accounts.nextId) } :
        Database).ledger = db.ledger.post (.openPurse name) := by
    have none : (row db.accounts.nextId).purse = fun _ => 0 :=
      funext (empty _)
    simp only [ledger, Ledger.post, Register.emplace, place, map_insert, none]
  rw [written]
  refine .single ?_
  have row : db.accounts.rows[name]? = none := absent
  intro member
  have some := ExtTreeMap.isSome_getElem?_iff_mem.2 member
  simp [ledger, ExtTreeMap.getElem?_map, row] at some

theorem posts_accountCreate
    {op : AccountCreateOperation}
    (applied : db.accountCreateEvaluator ext op = .ok after) :
    ∃ deposits emission,
      Posts db.ledger
          ([.purse op.creator .balance (-op.fee.amount),
              .openPurse op.newAccountName] ++
            (fundEntries deposits ++ emission))
          after.ledger ∧
        deposited deposits =
            (if 0 < op.fee.amount then
              op.fee.amount * db.rewardFunds.size
            else 0) ∧
          IsEmission emission := by
  simp only [accountCreateEvaluator, Asset.inSymbol_eq_ok_iff,
    bind_eq_ok_iff] at applied
  rcases applied with
    ⟨_, -, _, ⟨-, rfl⟩, _, -, _, -, _, -, _, -, _, -, _, -, debited, debit,
      avatar, -, accounts, created, authorities, -, funded, fund, emitted⟩
  have first := posts_addBalance debit
  rcases accounts_of_modifyAccount debit with ⟨before, rfl⟩
  have opened := posts_createAccount created
    (by intro id kind; cases kind <;> rfl)
  rcases posts_payFee fund with ⟨deposits, paid, sum⟩
  rcases posts_processFundsBmchain (by decide) emitted with
    ⟨emission, emission', posted⟩
  exact ⟨deposits, emission,
    first.append (opened.append (paid.append posted)), sum, emission'⟩

/-- BMT turned into shares of an account at the current price. -/
theorem posts_createVesting_shares
    (done : db.createVesting name amount false = .ok (after, shares)) :
    Posts db.ledger
      [.purse name .shares shares, .total .vestingFund amount,
        .total .vestingShares shares] after.ledger := by
  simp only [createVesting, Bool.false_eq_true, if_false, bind_eq_ok_iff,
    checked_eq_ok_iff, pure_eq_ok_iff] at done
  rcases done with
    ⟨_, -, created, -, _, -, changed, change, _, ⟨-, rfl⟩, _, ⟨-, rfl⟩,
      voted, vote, equal⟩
  cases equal
  rw [keeps_adjustProxiedVotesFrom _ _ _ _ _ vote]
  have first : Posts db.ledger (purseEntries name [(.shares, shares)])
      changed.ledger := by
    refine posts_modifyAccount change _ ?_
    intro account changed equal
    simp only [bind_eq_ok_iff, checked_eq_ok_iff, pure_eq_ok_iff] at equal
    rcases equal with ⟨_, ⟨-, rfl⟩, rfl⟩
    funext kind
    cases kind <;> rfl
  refine first.append ?_
  exact posts_props changed _ [(.vestingFund, amount), (.vestingShares, shares)]
    (by funext kind; cases kind <;> rfl)

/-- BMT turned into shares which an account has still to claim. -/
theorem posts_createVesting_reward
    (done : db.createVesting name amount true = .ok (after, shares)) :
    Posts db.ledger
      [.purse name .rewardShares shares, .purse name .rewardBacking amount,
        .total .pendingShares shares, .total .pendingBacking amount]
      after.ledger := by
  simp only [createVesting, if_true, bind_eq_ok_iff, checked_eq_ok_iff,
    pure_eq_ok_iff] at done
  rcases done with
    ⟨_, -, created, -, _, -, changed, change, _, ⟨-, rfl⟩, _, ⟨-, rfl⟩,
      equal⟩
  cases equal
  have first : Posts db.ledger
      (purseEntries name [(.rewardShares, shares), (.rewardBacking, amount)])
      changed.ledger := by
    refine posts_modifyAccount change _ ?_
    intro account changed equal
    simp only [bind_eq_ok_iff, checked_eq_ok_iff, pure_eq_ok_iff] at equal
    rcases equal with ⟨_, ⟨-, rfl⟩, _, ⟨-, rfl⟩, rfl⟩
    funext kind
    cases kind <;> rfl
  refine first.append ?_
  exact posts_props changed _
    [(.pendingShares, shares), (.pendingBacking, amount)]
    (by funext kind; cases kind <;> rfl)

theorem posts_accountCreateWithDelegation
    {op : AccountCreateWithDelegationOperation}
    (applied : db.accountCreateWithDelegationEvaluator op = .ok after) :
    ∃ vested,
      Posts db.ledger
          ([.purse op.creator .balance (-op.fee.amount),
            .openPurse op.newAccountName] ++ vested) after.ledger ∧
        (op.fee.amount ≤ 0 ∧ vested = [] ∨
          ∃ shares,
            vested =
              [.purse op.newAccountName .shares shares,
                .total .vestingFund op.fee.amount,
                .total .vestingShares shares]) := by
  simp only [accountCreateWithDelegationEvaluator, Asset.inSymbol_eq_ok_iff,
    bind_eq_ok_iff] at applied
  rcases applied with
    ⟨_, -, _, ⟨-, rfl⟩, _, -, _, -, _, ⟨-, rfl⟩, _, -, _, -, _, -, _, -, _, -,
      _, -, _, -, _, -, _, -, _, -, _, -, _, -, _, -, debited, debit,
      accounts, created, authorities, -, delegations, -, vested⟩
  have first : Posts db.ledger
      (purseEntries op.creator [(.balance, -op.fee.amount)])
      debited.ledger := by
    refine posts_modifyAccount debit _ ?_
    intro account changed equal
    simp only [bind_eq_ok_iff, checked_eq_ok_iff, pure_eq_ok_iff] at equal
    rcases equal with ⟨_, ⟨-, rfl⟩, _, ⟨-, rfl⟩, rfl⟩
    funext kind
    cases kind <;> rfl
  have opened := posts_createAccount created
    (by intro id kind; cases kind <;> rfl)
  split at vested
  case isTrue =>
    simp only [bind_eq_ok_iff, pure_eq_ok_iff] at vested
    rcases vested with ⟨⟨final, shares⟩, vesting, rfl⟩
    have posted := posts_createVesting_shares vesting
    exact ⟨_, first.append (opened.append posted), .inr ⟨shares, rfl⟩⟩
  case isFalse none =>
    cases vested
    exact ⟨[], first.append (opened.append (.nil _)),
      .inl ⟨by omega, rfl⟩⟩

end Database

end BMChain.State
