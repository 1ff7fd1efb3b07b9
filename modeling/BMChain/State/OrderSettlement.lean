import BMChain.State.ContentOrder

/-!
# Settlement of orders for closed content

An order is closed by whoever names its id, a cancellation pays the account
which signs it, and a changed price moves the balance of the owner the wrong
way.  In the runs whose steps do none of this, what was paid into an open order
is its price, and whoever closes the order moves exactly that.
-/

namespace BMChain.State

open BMChain.Foundation BMChain.Protocol Std

variable {id : Nat} {order : ContentOrderObject} {ext : External}
    {op : ContentOrderCreateOperation}

variable {status : OrderStatus} {name : AccountName} {fields : List Field}

/-- The accounts whose authority an operation needs. -/
def authorised (op : Operation) : List AccountName :=
  op.requiredOwner ++ op.requiredActive ++ op.requiredPosting

namespace Database

/-! ## What is paid -/

/--
What the owners of orders have paid into them after an event: an operation
which creates or changes an order pays into it what it takes from the balance
of the owner.
-/
def paidAfter (paid : Nat → Int) (db : Database) (event : Event)
    (after : Database) : Nat → Int :=
  match event with
  | .operation (.contentOrderCreate op) => fun id =>
      if (after.findContentOrder op.author op.permlink op.owner).map Prod.fst =
          some id then
        paid id + (db.held AccountObject.balance op.owner -
          after.held AccountObject.balance op.owner)
      else paid id
  | _ => paid

/-- What an account gets of the emission which an operation brings. -/
def emissionOf (db : Database) (op : Operation) (name : AccountName) : Int :=
  match op with
  | .encryptedContent content => db.emissionFor content name
  | _ => 0

/--
An order is closed by its owner or its author, and what was paid into it goes
to the author for a post of his, or else back to the owner.
-/
structure OrderClosed (paid : Nat → Int) (op : Operation)
    (db after : Database) (id : Nat) (order : ContentOrderObject) : Prop where
  wasOpen : order.status = .open
  closer : ∃ name ∈ authorised op, name = order.owner ∨ name = order.author
  settled : ∃ payee status,
    after.contentOrders.find? id = some { order with status := status } ∧
      (status = .completed ∧ payee = order.author ∧
          (∃ content, op = .encryptedContent content ∧
            content.author = order.author) ∨
        status = .canceled ∧ payee = order.owner) ∧
      ∀ name, after.held AccountObject.balance name =
        db.held AccountObject.balance name +
          (if payee = name then paid id else 0) + db.emissionOf op name

/--
An order is left as it is, or gets a new price while it is open, or is
closed.
-/
def OrderKept (paid : Nat → Int) (op : Operation) (db after : Database)
    (id : Nat) (order : ContentOrderObject) : Prop :=
  after.contentOrders.find? id = some order ∨
    (order.status = .open ∧ ∃ price,
      after.contentOrders.find? id = some { order with price := price }) ∨
    OrderClosed paid op db after id order

/-- What an operation on orders may do. -/
structure Settles (paid : Nat → Int) (op : Operation)
    (db after : Database) : Prop where
  orders : ∀ id order, db.contentOrders.find? id = some order →
    OrderKept paid op db after id order
  balances :
    match op with
    | .contentOrderCreate create =>
        ∀ name, name ≠ create.owner →
          after.held AccountObject.balance name =
            db.held AccountObject.balance name
    | .contentOrderCancel cancel =>
        ∃ order, db.contentOrders.find? cancel.orderId = some order ∧
          OrderClosed paid op db after cancel.orderId order
    | .contentOrderCancelByAuthor cancel =>
        ∃ order, db.contentOrders.find? cancel.orderId = some order ∧
          OrderClosed paid op db after cancel.orderId order
    | .encryptedContent content =>
        content.applyOrder = true →
          ∃ order, db.contentOrders.find? content.orderId = some order ∧
            OrderClosed paid op db after content.orderId order
    | _ => True

/--
The condition on an event: an open order keeps its price, it is canceled by
its owner, or through its author's operation by one of the two, and content
is posted for it by its author.
-/
def SettlesOwn (db : Database) : Event → Prop
  | .operation (.contentOrderCreate op) =>
      ∀ order, existingOrder op db = some order → order.status = .open →
        order.price = op.price.amount
  | .operation (.contentOrderCancel op) =>
      ∀ order, db.contentOrders.find? op.orderId = some order →
        op.owner = order.owner
  | .operation (.contentOrderCancelByAuthor op) =>
      ∀ order, db.contentOrders.find? op.orderId = some order →
        op.author = order.owner ∨ op.author = order.author
  | .operation (.encryptedContent op) =>
      op.applyOrder = true →
        ∀ order, db.contentOrders.find? op.orderId = some order →
          op.author = order.author
  | _ => True

/-- What was paid into an open order is its price. -/
structure PaidUp (paid : Nat → Int) (db : Database) : Prop where
  price : ∀ id order, db.contentOrders.find? id = some order →
    order.status = .open → paid id = order.price
  fresh : ∀ id, db.contentOrders.nextId ≤ id → paid id = 0

/-! ## One step -/

section Steps

variable {paid : Nat → Int} {db after : Database}

theorem PaidUp.of_same
    (up : PaidUp paid db)
    (same : after.contentOrders = db.contentOrders) :
    PaidUp paid after := by
  constructor
  · rw [same]
    exact up.price
  · rw [same]
    exact up.fresh

/-- An order which is closed is open no more. -/
theorem PaidUp.close
    (up : PaidUp paid db)
    (found : db.contentOrders.find? id = some order)
    (closed : status ≠ .open)
    (orders : after.contentOrders =
      db.contentOrders.set id { order with status := status }) :
    PaidUp paid after := by
  constructor
  · intro other row there isOpen
    rw [orders, Table.find?_set found] at there
    split at there
    · cases there
      exact absurd isOpen closed
    · exact up.price other row there isOpen
  · rw [orders]
    exact up.fresh

/-- Paying an order to an account and closing it. -/
theorem closes_order
    {middle : Database}
    (found : db.contentOrders.find? id = some order)
    (pay : db.addBalance name order.price = .ok middle)
    (done : middle.modifyContentOrder id
      (fun order => { order with status := status }) = .ok after) :
    after.contentOrders =
        db.contentOrders.set id { order with status := status } ∧
      ∀ other, after.held AccountObject.balance other =
        db.held AccountObject.balance other +
          if name = other then order.price else 0 := by
  have credited := held_addBalance pay
  have there : middle.contentOrders.find? id = some order := by
    rcases accounts_of_modifyAccount pay with ⟨accounts, rfl⟩
    exact found
  rcases accounts_of_modifyAccount pay with ⟨accounts, rfl⟩
  cases modifyContentOrder_eq there done
  exact ⟨rfl, credited⟩

theorem closes_refundOrder
    (found : db.contentOrders.find? id = some order)
    (done : db.refundOrder id order name = .ok after) :
    order.status = .open ∧
      after.contentOrders =
        db.contentOrders.set id { order with status := .canceled } ∧
      ∀ other, after.held AccountObject.balance other =
        db.held AccountObject.balance other +
          if name = other then order.price else 0 := by
  simp only [refundOrder, bind_eq_ok_iff, require_eq_ok_iff] at done
  rcases done with ⟨_, status, paid, pay, closed⟩
  exact ⟨status, closes_order found pay closed⟩

/-- A cancellation closes the order it names. -/
theorem closes_contentOrderCancel
    {op : ContentOrderCancelOperation}
    (late : usingCloseContent ≤ db.headBlockNum)
    (done : db.contentOrderCancelEvaluator op = .ok after) :
    ∃ order, db.contentOrders.find? op.orderId = some order ∧
      order.status = .open ∧
        after.contentOrders =
          db.contentOrders.set op.orderId { order with status := .canceled } ∧
        ∀ other, after.held AccountObject.balance other =
          db.held AccountObject.balance other +
            if op.owner = other then order.price else 0 := by
  rw [contentOrderCancelEvaluator, if_neg (Nat.not_lt.2 late)] at done
  simp only [getContentOrderById, bind_eq_ok_iff, orFault_eq_ok_iff] at done
  rcases done with ⟨order, found, _, -, refunded⟩
  exact ⟨order, found, closes_refundOrder found refunded⟩

/-- The author's cancellation closes the order it names. -/
theorem closes_contentOrderCancelByAuthor
    {op : ContentOrderCancelByAuthorOperation}
    (late : usingCloseContent ≤ db.headBlockNum)
    (done : db.contentOrderCancelByAuthorEvaluator op = .ok after) :
    ∃ order, db.contentOrders.find? op.orderId = some order ∧
      order.status = .open ∧
        after.contentOrders =
          db.contentOrders.set op.orderId { order with status := .canceled } ∧
        ∀ other, after.held AccountObject.balance other =
          db.held AccountObject.balance other +
            if order.owner = other then order.price else 0 := by
  rw [contentOrderCancelByAuthorEvaluator, if_neg (Nat.not_lt.2 late)] at done
  simp only [getContentOrderById, bind_eq_ok_iff, orFault_eq_ok_iff] at done
  rcases done with ⟨order, found, _, -, refunded⟩
  exact ⟨order, found, closes_refundOrder found refunded⟩

/-- Content for no order leaves the orders. -/
theorem contentOrders_unordered
    {op : EncryptedContentOperation}
    (unordered : ¬ (usingCloseContent ≤ db.headBlockNum ∧ op.applyOrder))
    (done : db.encryptedContentEvaluator ext op = .ok after) :
    after.contentOrders = db.contentOrders := by
  simp only [encryptedContentEvaluator, checkComment, bind_eq_ok_iff,
    pure_eq_ok_iff, if_neg unordered] at done
  rcases done with ⟨_, ⟨_, -, account, -, _, -, parent, parented, _, -, rfl⟩,
    middle, rfl, stored⟩
  rcases posts_writeContent parented (refl_of _ db) stored
    with ⟨_, -, -, -, kept⟩
  exact kept

/-- Content for an order closes the order it names. -/
theorem closes_encryptedContent
    {op : EncryptedContentOperation}
    (late : usingCloseContent ≤ db.headBlockNum)
    (ordered : op.applyOrder = true)
    (done : db.encryptedContentEvaluator ext op = .ok after) :
    ∃ order, db.contentOrders.find? op.orderId = some order ∧
      order.status = .open ∧
        after.contentOrders =
          db.contentOrders.set op.orderId { order with status := .completed } ∧
        ∀ other, after.held AccountObject.balance other =
          db.held AccountObject.balance other +
            (if op.author = other then order.price else 0) +
              db.emissionFor op other := by
  simp only [encryptedContentEvaluator, checkComment, bind_eq_ok_iff,
    pure_eq_ok_iff] at done
  rcases done with ⟨_, ⟨_, -, account, -, _, -, parent, parented, _, -, rfl⟩,
    middle, settled, stored⟩
  rw [if_pos ⟨late, ordered⟩] at settled
  rcases posts_writeContent parented
    (touches_settleOrder db _ _ middle settled) stored
    with ⟨emission, -, posted, credits, kept⟩
  simp only [settleOrder, getContentOrderById, bind_eq_ok_iff,
    orFault_eq_ok_iff, require_eq_ok_iff] at settled
  rcases settled with ⟨order, found, _, status, paid, pay, closed⟩
  rcases closes_order found pay closed with ⟨orders, balances⟩
  refine ⟨order, found, status, kept.trans orders, ?_⟩
  intro other
  rw [balance_of_posts posted, balances, credits, if_pos rfl]

theorem contentOrders_of_agrees
    (agrees : Agrees fields db after)
    (separate : apart [.contentOrders] fields = true) :
    after.contentOrders = db.contentOrders :=
  agrees.read_eq separate (List.mem_singleton.2 rfl)

theorem PaidUp.of_agrees
    (up : PaidUp paid db)
    (agrees : Agrees fields db after)
    (separate : apart [.contentOrders] fields = true) :
    PaidUp paid after :=
  up.of_same (contentOrders_of_agrees agrees separate)

/-- A new order is paid with its price. -/
theorem PaidUp.create
    (up : PaidUp paid db)
    (absent : Opens op db)
    (orders : after.contentOrders = db.contentOrders.emplace (newOrder op db))
    (debit : after.held AccountObject.balance op.owner =
      db.held AccountObject.balance op.owner + -op.price.amount) :
    PaidUp (paidAfter paid db (.operation (.contentOrderCreate op)) after)
      after := by
  have found : (after.findContentOrder op.author op.permlink op.owner).map
      Prod.fst = some db.contentOrders.nextId := by
    rw [findContentOrder_new orders, Option.map_eq_none_iff.1 absent,
      if_pos ⟨rfl, rfl, rfl⟩]
    rfl
  have next : after.contentOrders.nextId = db.contentOrders.nextId + 1 := by
    rw [orders]
    rfl
  simp only [paidAfter, found, Option.some.injEq]
  constructor
  · intro id order there isOpen
    rw [orders, Table.find?_emplace] at there
    split at there
    case isTrue new =>
      cases there
      rw [if_pos new, ← new, up.fresh _ (Nat.le_refl _), debit]
      change _ = op.price.amount
      omega
    case isFalse old =>
      rw [if_neg old]
      exact up.price id order there isOpen
  · intro id above
    rw [next] at above
    rw [if_neg (by omega)]
    exact up.fresh id (by omega)

/-- An order which is created, or kept with its price, is paid up. -/
theorem paidUp_contentOrderCreate
    (own : SettlesOwn db (.operation (.contentOrderCreate op)))
    (done : db.contentOrderCreateEvaluator op = .ok after)
    (up : PaidUp paid db) :
    PaidUp (paidAfter paid db (.operation (.contentOrderCreate op)) after)
      after := by
  have same : after = db →
      PaidUp (paidAfter paid db (.operation (.contentOrderCreate op)) after)
        after := by
    rintro rfl
    simpa [paidAfter] using up
  by_cases late : usingCloseContent ≤ db.headBlockNum
  case neg =>
    rw [contentOrderCreateEvaluator, if_pos (Nat.lt_of_not_le late)] at done
    exact same (Except.ok.inj done).symm
  case pos =>
    rcases contentOrderCreate_cases late done with
      ⟨absent, -, debited, debit, rfl⟩ | ⟨id, order, searched, choice⟩
    case inl =>
      have credited := held_addBalance debit op.owner
      rw [if_pos rfl] at credited
      exact up.create absent rfl credited
    case inr =>
      rcases choice with ⟨edited, -⟩ | ⟨-, rfl⟩
      · refine absurd (own order ?_ edited.1) edited.2
        rw [existingOrder, searched, Option.map_some]
      · exact same rfl

/-- What was paid into the open orders stays their price. -/
theorem paidUp_applyOperation
    {op : Operation}
    (own : SettlesOwn db (.operation op))
    (done : db.applyOperation ext op = .ok after)
    (up : PaidUp paid db) :
    PaidUp (paidAfter paid db (.operation op) after) after := by
  have agrees := touches_applyOperation ext db op after done
  cases op with
  | contentOrderCreate op => exact paidUp_contentOrderCreate own done up
  | contentOrderCancel op =>
      by_cases late : usingCloseContent ≤ db.headBlockNum
      case neg =>
        simp only [applyOperation, contentOrderCancelEvaluator,
          if_pos (Nat.lt_of_not_le late)] at done
        cases done
        exact up
      case pos =>
        rcases closes_contentOrderCancel late done with
          ⟨order, found, -, orders, -⟩
        exact up.close found (by decide) orders
  | contentOrderCancelByAuthor op =>
      by_cases late : usingCloseContent ≤ db.headBlockNum
      case neg =>
        simp only [applyOperation, contentOrderCancelByAuthorEvaluator,
          if_pos (Nat.lt_of_not_le late)] at done
        cases done
        exact up
      case pos =>
        rcases closes_contentOrderCancelByAuthor late done with
          ⟨order, found, -, orders, -⟩
        exact up.close found (by decide) orders
  | encryptedContent op =>
      by_cases forOrder : usingCloseContent ≤ db.headBlockNum ∧ op.applyOrder
      case neg => exact up.of_same (contentOrders_unordered forOrder done)
      case pos =>
        rcases closes_encryptedContent forOrder.1 forOrder.2 done with
          ⟨order, found, -, orders, -⟩
        exact up.close found (by decide) orders
  | _ => exact up.of_agrees agrees rfl

/-- An operation which sets one order leaves the others. -/
theorem orderKept_of_set
    {op : Operation}
    {order changed : ContentOrderObject}
    (found : db.contentOrders.find? id = some order)
    (orders : after.contentOrders = db.contentOrders.set id changed)
    (kept : OrderKept paid op db after id order)
    (other : Nat)
    (row : ContentOrderObject)
    (there : db.contentOrders.find? other = some row) :
    OrderKept paid op db after other row := by
  by_cases same : id = other
  · subst same
    rw [found] at there
    cases there
    exact kept
  · refine .inl ?_
    rw [orders, Table.find?_set found, if_neg same, there]

theorem settles_contentOrderCreate
    (late : usingCloseContent ≤ db.headBlockNum)
    (done : db.contentOrderCreateEvaluator op = .ok after) :
    Settles paid (.contentOrderCreate op) db after := by
  have ordered := (ordered_contentOrderCreate late done).1
  constructor
  case orders =>
    rcases contentOrderCreate_cases late done with
      ⟨-, -, debited, -, rfl⟩ | ⟨id, order, searched, choice⟩
    case inl =>
      intro id order found
      refine .inl ?_
      rw [Table.find?_emplace, if_neg, found]
      rintro rfl
      rw [Table.find?_nextId] at found
      cases found
    case inr =>
      have found : db.contentOrders.find? id = some order :=
        Table.find?_of_findBy searched
      rcases choice with ⟨edited, -, moved, -, rfl⟩ | ⟨-, rfl⟩
      · refine orderKept_of_set found rfl (.inr (.inl ⟨edited.1,
          op.price.amount, ?_⟩))
        rw [Table.find?_set found, if_pos rfl]
      · exact fun other row there => .inl there
  case balances =>
    intro name other
    unfold held
    rw [ordered.accounts, if_neg (Ne.symm other)]
    cases db.accounts.find? name <;> simp

/-- What an operation does to the orders in use. -/
theorem settles_applyOperation
    {op : Operation}
    (late : usingCloseContent ≤ db.headBlockNum)
    (own : SettlesOwn db (.operation op))
    (done : db.applyOperation ext op = .ok after)
    (up : PaidUp paid db) :
    Settles paid op db after := by
  have agrees := touches_applyOperation ext db op after done
  have idle : after.contentOrders = db.contentOrders →
      ∀ id order, db.contentOrders.find? id = some order →
        OrderKept paid op db after id order := by
    intro same id order found
    exact .inl (by rw [same, found])
  cases op with
  | contentOrderCreate op => exact settles_contentOrderCreate late done
  | contentOrderCancel op =>
      rcases closes_contentOrderCancel late done with
        ⟨order, found, isOpen, orders, balances⟩
      have signer := own order found
      have closed : OrderClosed paid (.contentOrderCancel op) db after
          op.orderId order := by
        refine ⟨isOpen, ⟨op.owner, ?_, .inl signer⟩, order.owner, .canceled,
          ?_, .inr ⟨rfl, rfl⟩, ?_⟩
        · simp [authorised, Operation.requiredActive]
        · rw [orders, Table.find?_set found, if_pos rfl]
        · intro name
          rw [balances, signer, up.price _ order found isOpen]
          exact (Int.add_zero _).symm
      exact ⟨orderKept_of_set found orders (.inr (.inr closed)), order, found,
        closed⟩
  | contentOrderCancelByAuthor op =>
      rcases closes_contentOrderCancelByAuthor late done with
        ⟨order, found, isOpen, orders, balances⟩
      have signer := own order found
      have closed : OrderClosed paid (.contentOrderCancelByAuthor op) db after
          op.orderId order := by
        refine ⟨isOpen, ⟨op.author, ?_, signer⟩, order.owner, .canceled,
          ?_, .inr ⟨rfl, rfl⟩, ?_⟩
        · simp [authorised, Operation.requiredActive]
        · rw [orders, Table.find?_set found, if_pos rfl]
        · intro name
          rw [balances, up.price _ order found isOpen]
          exact (Int.add_zero _).symm
      exact ⟨orderKept_of_set found orders (.inr (.inr closed)), order, found,
        closed⟩
  | encryptedContent op =>
      by_cases ordered : op.applyOrder = true
      case neg =>
        refine ⟨idle (contentOrders_unordered (fun both => ordered both.2)
          done), fun forOrder => absurd forOrder ordered⟩
      case pos =>
        rcases closes_encryptedContent late ordered done with
          ⟨order, found, isOpen, orders, balances⟩
        have author := own ordered order found
        have closed : OrderClosed paid (.encryptedContent op) db after
            op.orderId order := by
          refine ⟨isOpen, ⟨op.author, ?_, .inr author⟩, order.author,
            .completed, ?_, .inl ⟨rfl, rfl, op, rfl, author⟩, ?_⟩
          · simp [authorised, Operation.requiredPosting]
          · rw [orders, Table.find?_set found, if_pos rfl]
          · intro name
            rw [balances, author, up.price _ order found isOpen]
            rfl
        exact ⟨orderKept_of_set found orders (.inr (.inr closed)),
          fun _ => ⟨order, found, closed⟩⟩
  | _ => exact ⟨idle (contentOrders_of_agrees agrees rfl), trivial⟩

end Steps

end Database

/-! ## Runs -/

/--
The runs from genesis whose events are all allowed, with what the owners of
orders have paid into them.
-/
def OrderRun (ext : External) (allowed : Database → Event → Prop) :
    (Nat → Int) → Option BlockHeader → Database → Prop :=
  RecordedRun ext allowed (fun _ => 0) Database.paidAfter

/-- In a run whose steps settle their own orders, open orders are paid up. -/
theorem OrderRun.paidUp
    {paid : Nat → Int}
    {block : Option BlockHeader}
    {db : Database}
    (run : OrderRun ext Database.SettlesOwn paid block db) :
    Database.PaidUp paid db := by
  refine RecordedRun.invariant Database.PaidUp ?_ ?_ run
  · constructor
    · intro id order found
      cases found
    · exact fun _ _ => rfl
  · intro paid db event after own stepped up
    cases event with
    | operation op =>
        simp only [Database.step, bind_eq_ok_iff] at stepped
        rcases stepped with ⟨_, -, done⟩
        exact Database.paidUp_applyOperation own done up
    | beginBlock header =>
        exact up.of_agrees (Database.touches_beginBlock _ header _ stepped)
          rfl
    | finishBlock header =>
        have each : Database.EachStep ext header (fun _ _ => True)
            blockSteps db :=
          Database.eachStep_of_forall (fun _ _ => trivial) _ _
        refine Database.foldlM_runStep_invariant (Database.PaidUp paid) ?_
          each stepped up
        intro state which after _ ran start
        have agrees := Database.touches_runStep ext header state which after
          ran
        cases which with
        | _ => exact start.of_agrees agrees rfl

/--
In every run whose steps settle their own orders, what the owner of an open
order has paid into it is its price, and the next such operation keeps an
order or closes it for its owner or its author.
-/
theorem order_settlement
    {ext : External}
    {paid : Nat → Int}
    {block : Option BlockHeader}
    {db : Database}
    (run : OrderRun ext Database.SettlesOwn paid block db) :
    (∀ id order, db.contentOrders.find? id = some order →
      order.status = .open → paid id = order.price) ∧
    ∀ op after,
      Database.usingCloseContent ≤ db.headBlockNum →
        op.validate ext = .ok () → db.SettlesOwn (.operation op) →
          db.applyOperation ext op = .ok after →
            Database.Settles paid op db after := by
  refine ⟨run.paidUp.price, ?_⟩
  intro op after late _ own done
  exact Database.settles_applyOperation late own done run.paidUp

/-! ## Cancellations -/

/-- The cancellation of the first order by an account. -/
def sampleCancel (owner : AccountName) : Operation :=
  .contentOrderCancel
    { owner := owner
      orderId := 0 }

/-- The order of the sample runs. -/
def firstOrder : ContentOrderCreateOperation :=
  sampleOrder initMinerName "devs" 1

/-- The states around the sample order and its cancellation. -/
def runWithCancel (owner : AccountName) :
    Except Fault (Database × Database) := do
  let posted ← eventsBeforeOrders.foldlM (Database.step plainExternal)
    initGenesis
  let ordered ← posted.step plainExternal
    (.operation (.contentOrderCreate firstOrder))
  let after ← ordered.applyOperation plainExternal (sampleCancel owner)
  let order ← orFault (ordered.contentOrders.find? 0) ""
  require (order.owner = "devs" ∧ order.author = initMinerName ∧
    Database.existingOrder firstOrder posted = none ∧
      Database.usingCloseContent ≤ ordered.headBlockNum) ""
  pure (ordered, after)

theorem orderRun_of_runWithCancel
    {owner : AccountName}
    {ordered after : Database}
    (ran : runWithCancel owner = .ok (ordered, after)) :
    (∃ paid, OrderRun plainExternal Database.SettlesOwn paid none ordered) ∧
      Database.usingCloseContent ≤ ordered.headBlockNum ∧
      ordered.applyOperation plainExternal (sampleCancel owner) = .ok after ∧
      ∃ order, ordered.contentOrders.find? 0 = some order ∧
        order.owner = "devs" ∧ order.author = initMinerName := by
  simp only [runWithCancel, eventsBeforeOrders, List.foldlM_cons,
    List.foldlM_nil, bind_eq_ok_iff, pure_eq_ok_iff, orFault_eq_ok_iff,
    require_eq_ok_iff] at ran
  rcases ran with ⟨posted, ⟨begun, first, finished, second, one, third, two,
    fourth, rfl⟩, created, fifth, _, done, order, found, _,
    ⟨owns, wrote, absent, late⟩, equal⟩
  cases equal
  have own : two.SettlesOwn
      (.operation (.contentOrderCreate firstOrder)) := by
    intro other there
    rw [absent] at there
    cases there
  have idle : OrderRun plainExternal Database.SettlesOwn _ none two :=
    .step (.operation (samplePost "devs"))
      (.step (.operation (samplePost initMinerName))
        (.step (.finishBlock firstHeader)
          (.step (.beginBlock firstHeader) .genesis (.beginBlock _) trivial
            first)
          (.finishBlock _) trivial second)
        (.operation _ _) trivial third)
      (.operation _ _) trivial fourth
  have run := RecordedRun.step _ idle (.operation _ _) own fifth
  exact ⟨⟨_, run⟩, late, done, order, found, owns, wrote⟩

/-- The owner's cancellation settles the order. -/
theorem order_settlement_canceled :
    ∃ paid ordered after,
      OrderRun plainExternal Database.SettlesOwn paid none ordered ∧
        ordered.applyOperation plainExternal (sampleCancel "devs") =
            .ok after ∧
          Database.Settles paid (sampleCancel "devs") ordered after := by
  rcases exists_of_isOk (by decide +kernel :
    (runWithCancel "devs").isOk = true) with ⟨⟨ordered, after⟩, ran⟩
  rcases orderRun_of_runWithCancel ran with
    ⟨⟨paid, run⟩, late, done, order, found, owns, -⟩
  refine ⟨paid, ordered, after, run, done, ?_⟩
  refine (order_settlement run).2 (sampleCancel "devs") after late (by rfl) ?_
    done
  intro other there
  rw [found] at there
  cases there
  exact owns.symm

/-- A stranger closes an order and is paid for it. -/
theorem stranger_cancels_order :
    ¬ ∀ (ext : External) (paid : Nat → Int) (block : Option BlockHeader)
        (db : Database) (op : Operation) (after : Database),
      OrderRun ext (fun _ _ => True) paid block db →
        Database.usingCloseContent ≤ db.headBlockNum →
          op.validate ext = .ok () → db.applyOperation ext op = .ok after →
            Database.Settles paid op db after := by
  intro settles
  rcases exists_of_isOk (by decide +kernel :
    (runWithCancel "miners").isOk = true) with ⟨⟨ordered, after⟩, ran⟩
  rcases orderRun_of_runWithCancel ran with
    ⟨⟨paid, run⟩, late, done, order, found, owns, wrote⟩
  have settled := settles plainExternal paid none ordered _ after
    (RecordedRun.mono (fun _ _ _ => trivial) run) late (by rfl) done
  rcases settled.balances with ⟨other, there, closed⟩
  rcases found.symm.trans there
  rcases closed.closer with ⟨name, signer, mine⟩
  simp only [authorised, Operation.requiredOwner, Operation.requiredActive,
    Operation.requiredPosting, sampleCancel, List.nil_append,
    List.append_nil, List.mem_singleton] at signer
  rw [signer, owns, wrote] at mine
  exact absurd mine (by decide)

end BMChain.State
