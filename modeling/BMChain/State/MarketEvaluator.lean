import BMChain.State.TransferEvaluator

/-!
# Evaluators for limit orders and custom tokens

The order book with its matching, the custom tokens of
`custom_token_evaluator.cpp`, and the operations whose payload only a plugin
reads.
-/

namespace BMChain.State

open BMChain.Foundation BMChain.Protocol

namespace Database

/-! ## Limit orders -/

/-- `cancel_order`. -/
def cancelOrder (db : Database) (id : Nat) (order : LimitOrderObject) :
    Except Fault Database := do
  let db ← db.adjustBalance order.seller order.amountForSale
  pure { db with limitOrders := db.limitOrders.remove id }

/-- `fill_order`; the result says whether the order is gone. -/
def fillOrder (db : Database) (id : Nat) (pays receives : Asset) :
    Except Fault (Database × Bool) := do
  let order ← orFault (db.limitOrders.find? id) "unknown key"
  require (order.amountForSale.symbol = pays.symbol)
    "order.amount_for_sale().symbol == pays.symbol"
  require (pays.symbol ≠ receives.symbol) "pays.symbol != receives.symbol"
  let db ← db.adjustBalance order.seller receives
  if pays = order.amountForSale then
    pure ({ db with limitOrders := db.limitOrders.remove id }, true)
  else do
    let left ← checked (order.forSale - pays.amount)
    let order := { order with forSale := left }
    let db := { db with limitOrders := db.limitOrders.set id order }
    let wanted ← order.amountToReceive
    if wanted.amount = 0 then do
      let db ← db.cancelOrder id order
      pure (db, true)
    else pure (db, false)

/-- `match`; bit 0 says that the new order is gone, bit 1 that the old one is. -/
def matchOrders (db : Database) (newId oldId : Nat) :
    Except Fault (Database × Nat) := do
  let newOrder ← orFault (db.limitOrders.find? newId) "unknown key"
  let oldOrder ← orFault (db.limitOrders.find? oldId) "unknown key"
  let price := oldOrder.sellPrice
  let newForSale := newOrder.amountForSale
  let oldForSale := oldOrder.amountForSale
  let offered ← oldForSale.mul price
  let fits ← newForSale.le offered
  let (oldReceives, newReceives) ←
    (if fits then do
      let bought ← newForSale.mul price
      pure (newForSale, bought)
    else pure (offered, oldForSale))
  let db := db.pushVirtualOperation
    (.fillOrder newOrder.seller newOrder.orderid oldReceives
      oldOrder.seller oldOrder.orderid newReceives)
  let (db, newFilled) ← db.fillOrder newId oldReceives newReceives
  let (db, oldFilled) ← db.fillOrder oldId newReceives oldReceives
  pure (db, (if newFilled then 1 else 0) + (if oldFilled then 2 else 0))

/-- The order of `by_price`: the higher price first, then the lower id. -/
def beforeByPrice (first second : Nat × LimitOrderObject) : Bool :=
  first.2.sellPrice.gt second.2.sellPrice ||
    (!second.2.sellPrice.gt first.2.sellPrice && first.1 ≤ second.1)

/-- The orders from `lower_bound( limit )` to `upper_bound( maxPrice )`. -/
def ordersBetween (db : Database) (limit maxPrice : Price) : List Nat :=
  ((db.limitOrders.entries.filter fun entry =>
    !entry.2.sellPrice.gt limit && !maxPrice.gt entry.2.sellPrice).insertionSort
      fun first second => beforeByPrice first second).map Prod.fst

/-- Match a new order with the given orders until it is filled. -/
def matchAll (newId : Nat) : List Nat → Database → Except Fault Database
  | [], db => .ok db
  | oldId :: rest, db => do
      let (db, result) ← db.matchOrders newId oldId
      if result % 2 = 1 then pure db else matchAll newId rest db

/-- `apply_order`; the result says whether the order was filled. -/
def applyOrder (db : Database) (id : Nat) : Except Fault (Database × Bool) := do
  let order ← orFault (db.limitOrders.find? id) "unknown key"
  let maxPrice := order.sellPrice.invert
  let limit ← Price.max maxPrice.base.symbol maxPrice.quote.symbol
  let db ← matchAll id (db.ordersBetween limit maxPrice) db
  pure (db, (db.limitOrders.find? id).isNone)

/-- The common part of both `limit_order_create` evaluators. -/
def createOrder (db : Database) (owner : AccountName) (orderid : Nat)
    (amountToSell : Asset) (getPrice : Except Fault Price) (fillOrKill : Bool)
    (expiration : Time) : Except Fault Database := do
  require (db.headBlockTime < expiration)
    "Limit order has to expire after head block time."
  let account ← db.getAccount owner
  let balance ← getBalance account amountToSell.symbol
  require (amountToSell.amount ≤ balance)
    "Account does not have sufficient funds for limit order."
  let debit ← amountToSell.neg
  let db ← db.adjustBalance owner debit
  let price ← getPrice
  let orders ← createRow db.limitOrders
    (fun other => other.seller = owner ∧ other.orderid = orderid)
    ⟨db.headBlockTime, expiration, owner, orderid, amountToSell.amount, price⟩
  let id := db.limitOrders.nextId
  let (db, filled) ← { db with limitOrders := orders }.applyOrder id
  require (!fillOrKill || filled)
    "Cancelling order because it was not filled."
  pure db

/-- `limit_order_create_evaluator::do_apply`. -/
def limitOrderCreateEvaluator (op : LimitOrderCreateOperation)
    (db : Database) : Except Fault Database :=
  db.createOrder op.owner op.orderid op.amountToSell op.getPrice
    op.fillOrKill op.expiration

/-- `limit_order_create2_evaluator::do_apply`. -/
def limitOrderCreate2Evaluator (op : LimitOrderCreate2Operation)
    (db : Database) : Except Fault Database :=
  db.createOrder op.owner op.orderid op.amountToSell (pure op.exchangeRate)
    op.fillOrKill op.expiration

/-- `limit_order_cancel_evaluator::do_apply`. -/
def limitOrderCancelEvaluator (op : LimitOrderCancelOperation)
    (db : Database) : Except Fault Database := do
  let (id, order) ← db.getLimitOrder op.owner op.orderid
  db.cancelOrder id order

/-! ## Custom tokens -/

/-- The token with a symbol. -/
def findToken (db : Database) (symbol : AssetSymbol) :
    Option (Nat × CustomTokenObject) :=
  db.customTokens.findBy fun token => token.symbol = symbol

/-- The balance which `by_owner` finds: the one with the greatest id. -/
def findTokenBalance (db : Database) (owner : AccountName)
    (symbol : AssetSymbol) : Option (Nat × AccountBalanceObject) :=
  (db.accountBalances.entries.filter fun entry =>
    entry.2.owner = owner ∧ entry.2.symbol = symbol).getLast?

/-- `custom_token_create_evaluator::do_apply`. -/
def customTokenCreateEvaluator (op : CustomTokenCreateOperation)
    (db : Database) : Except Fault Database := do
  let account ← db.getAccount op.controlAccount
  let fee ← op.customTokenCreationFee.inSymbol bmtSymbol
  require (fee ≤ account.balance) "Control account dosn't have enough BMT."
  require (db.findToken op.currentSupply.symbol).isNone
    "Custom token with such symbol exists."
  let symbol := op.currentSupply.symbol
  let db := { db with
    customTokens := db.customTokens.emplace
      { controlAccount := op.controlAccount
        symbol := symbol
        currentSupply := op.currentSupply
        rewardFund := ⟨0, symbol⟩
        generationTime := db.headBlockTime }
    accountBalances := db.accountBalances.emplace
      ⟨symbol, op.controlAccount, op.currentSupply⟩ }
  let db ← db.addBalance op.controlAccount (-fee)
  db.payFee fee

/-- `custom_token_transfer_evaluator::do_apply`. -/
def customTokenTransferEvaluator (op : CustomTokenTransferOperation)
    (db : Database) : Except Fault Database := do
  let (fromId, held) ← orFault
    (db.findTokenBalance op.fromAccount op.amount.symbol)
    "This account doesn't have enough token #1."
  let less ← held.balance.lt op.amount
  require (!less) "This account doesn't have enough token #2."
  require (held.symbol = op.amount.symbol) "Wrong symbol."
  let left ← held.balance.sub op.amount
  let db := { db with
    accountBalances := db.accountBalances.set fromId
      { held with balance := left } }
  match db.findTokenBalance op.toAccount op.amount.symbol with
  | none =>
      pure { db with
        accountBalances := db.accountBalances.emplace
          ⟨op.amount.symbol, op.toAccount, op.amount⟩ }
  | some (toId, target) => do
      let sum ← target.balance.add op.amount
      pure { db with
        accountBalances := db.accountBalances.set toId
          { target with balance := sum } }

/-- `custom_token_setup_emissions_evaluator::do_apply`. -/
def customTokenSetupEmissionsEvaluator
    (op : CustomTokenSetupEmissionsOperation) (db : Database) :
    Except Fault Database := do
  let (id, token) ← orFault (db.findToken op.symbol.symbol)
    "Custom token with such symbol don't exists."
  pure { db with
    customTokens := db.customTokens.set id
      { token with
        inflationRate := op.inflationRate
        scheduleTime := op.scheduleTime
        intervalCount := op.intervalCount
        intervalSeconds := op.intervalSeconds } }

/-- `custom_token_setup_parameters_visitor`. -/
def setParameter (token : CustomTokenObject) :
    TokenSetupParameter → CustomTokenObject
  | .allowVesting value => { token with allowVesting := value }
  | .allowVoting value => { token with allowVoting := value }

/-- `custom_token_set_setup_parameters_evaluator::do_apply`. -/
def customTokenSetSetupParametersEvaluator
    (op : CustomTokenSetSetupParametersOperation) (db : Database) :
    Except Fault Database := do
  let (id, token) ← orFault (db.findToken op.symbol.symbol)
    "SMT numerical asset identifier not found"
  require (token.controlAccount = op.controlAccount)
    "The account does NOT control the token"
  require (token.phase = .accountElevated)
    "token pre-setup operation no longer allowed after setup phase is over"
  pure { db with
    customTokens := db.customTokens.set id
      (op.setupParameters.foldl setParameter token) }

/-! ## Operations for plugins -/

/-- The id under which the private message plugin registers. -/
def privateMessageId : Text :=
  "private_message".toList.map fun char => UInt8.ofNat char.toNat

/-- `custom_evaluator::do_apply`. -/
def customEvaluator (ext : External) (op : CustomOperation)
    (db : Database) : Except Fault Database := do
  require (op.id ≠ 777 ∨ !ext.interpreterThrows privateMessageId op.data)
    "interpreter"
  pure db

/-- `custom_json_evaluator::do_apply`. -/
def customJsonEvaluator (ext : External) (op : CustomJsonOperation)
    (db : Database) : Except Fault Database := do
  require (!ext.interpreterThrows op.id op.json) "interpreter"
  pure db

/-- `custom_binary_evaluator::do_apply`. -/
def customBinaryEvaluator (ext : External) (op : CustomBinaryOperation)
    (db : Database) : Except Fault Database := do
  require (!ext.interpreterThrows op.id op.data) "interpreter"
  pure db

/-- `private_message_evaluator::do_apply`; the message itself is the plugin's. -/
def privateMessageEvaluator (ext : External) (op : PrivateMessageOperation)
    (db : Database) : Except Fault Database :=
  if !ext.hasMessageIndex then .ok db
  else do
    require (op.fromAccount ≠ op.toAccount) "pm.from != pm.to"
    require (op.fromMemoKey ≠ op.toMemoKey) "pm.from_memo_key != pm.to_memo_key"
    require (op.sentTime ≠ 0) "pm.sent_time != 0"
    require (32 ≤ op.encryptedMessage.length)
      "pm.encrypted_message.size() >= 32"
    let _ ← ext.fromHex op.encryptedMessage op.messageSize
    pure db

end Database

end BMChain.State
