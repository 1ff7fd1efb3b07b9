import BMChain.State.Spending

/-!
# Two orders for closed content in one block

An order is found by its author, permlink and owner, but a new one also takes
the block's time for itself.  It is said exactly when two orders of different
owners can both be made, with the same outcome whichever comes first.
-/

namespace BMChain.State

open BMChain.Foundation BMChain.Protocol Std

variable {id : Nat} {order : ContentOrderObject}

variable {name author owner : AccountName} {amount price : Int}
    {permlink : Text} {one : Database}

namespace Database

section Placing

variable (op : ContentOrderCreateOperation) (db : Database)

/-! ## One order -/

/-- The order which the operation creates. -/
def newOrder : ContentOrderObject where
  sentTime := db.headBlockTime
  author := op.author
  permlink := op.permlink
  owner := op.owner
  price := op.price.amount
  status := .open
  jsonMetadata := op.jsonMetadata

/-- The checks of the evaluator, which it makes once orders are used. -/
def OrderAllowed : Prop :=
  usingCloseContent ≤ db.headBlockNum →
    ∃ account id comment,
      db.accounts.find? op.owner = some account ∧
        db.findComment op.author op.permlink = some (id, comment) ∧
          op.price.symbol = bmtSymbol ∧ op.price.amount < account.balance ∧
            comment.price.le op.price = .ok true

/-- The operation is about the order with a key. -/
def OrdersFor (author : AccountName) (permlink : Text)
    (owner : AccountName) : Prop :=
  op.author = author ∧ cString op.permlink = cString permlink ∧
    op.owner = owner

instance (author : AccountName) (permlink : Text) (owner : AccountName) :
    Decidable (OrdersFor op author permlink owner) :=
  inferInstanceAs (Decidable (_ ∧ _ ∧ _))

/-- The order which the operation finds. -/
def existingOrder : Option ContentOrderObject :=
  (db.findContentOrder op.author op.permlink op.owner).map Prod.snd

/-- The operation creates an order. -/
def Opens : Prop :=
  existingOrder op db = none

/-- What the operation takes from the balance of the owner. -/
def orderDue : Int :=
  match existingOrder op db with
  | none => op.price.amount
  | some order =>
      if order.status = .open ∧ order.price ≠ op.price.amount then
        order.price - op.price.amount
      else 0

/-- The amounts which the operation computes are in range. -/
def DueFits : Prop :=
  match existingOrder op db with
  | none =>
      FitsInt64 (db.held AccountObject.balance op.owner - op.price.amount)
  | some order =>
      order.status = .open ∧ order.price ≠ op.price.amount →
        FitsInt64 (order.price - op.price.amount) ∧
          FitsInt64 (db.held AccountObject.balance op.owner -
            (order.price - op.price.amount))

/-- No order was sent at the time of the block. -/
def TimeFree : Prop :=
  db.contentOrders.findBy (fun other => other.sentTime = db.headBlockTime) =
    none

/-- The order after the operation. -/
def orderLeft : ContentOrderObject :=
  match existingOrder op db with
  | none => newOrder op db
  | some order =>
      if order.status = .open ∧ order.price ≠ op.price.amount then
        { order with price := op.price.amount }
      else order

/-- What the operation changes, seen through lookups. -/
structure Ordered (after : Database) : Prop where
  props : after.props = db.props
  comments : after.comments = db.comments
  accounts : ∀ name,
    after.accounts.find? name =
      (db.accounts.find? name).map fun account =>
        { account with
          balance := account.balance -
            if op.owner = name then orderDue op db else 0 }
  orders : ∀ author permlink owner,
    (after.findContentOrder author permlink owner).map Prod.snd =
      if OrdersFor op author permlink owner then some (orderLeft op db)
      else (db.findContentOrder author permlink owner).map Prod.snd
  free : TimeFree after ↔ TimeFree db ∧ ¬ Opens op db

end Placing

section Evaluator

variable {op : ContentOrderCreateOperation} {db after : Database}

theorem find_addBalance
    (done : db.addBalance name amount = .ok after) :
    FitsInt64 (db.held AccountObject.balance name + amount) ∧
      ∀ other, after.accounts.find? other =
        (db.accounts.find? other).map fun account =>
          { account with
            balance := account.balance + if name = other then amount else 0 } := by
  rcases find_modifyAccount done with ⟨account, changed, found, change, rows⟩
  simp only [bind_eq_ok_iff, checked_eq_ok_iff, pure_eq_ok_iff] at change
  rcases change with ⟨_, ⟨fits, rfl⟩, rfl⟩
  refine ⟨by rwa [held_of_find found], ?_⟩
  intro other
  rw [rows other]
  split
  case isTrue same =>
    subst same
    rw [found]
    rfl
  case isFalse =>
    cases there : db.accounts.find? other with
    | none => rfl
    | some row => simp

theorem held_addBalance
    (done : db.addBalance name amount = .ok after)
    (other : AccountName) :
    after.held AccountObject.balance other =
      db.held AccountObject.balance other +
        if name = other then amount else 0 := by
  refine held_modifyAccount done ?_ other
  intro account changed _ change
  simp only [bind_eq_ok_iff, checked_eq_ok_iff, pure_eq_ok_iff] at change
  rcases change with ⟨_, ⟨-, rfl⟩, rfl⟩
  rfl

/-- A key is searched for as the operation does which is about it. -/
theorem OrdersFor.find
    (same : OrdersFor op author permlink owner)
    (db : Database) :
    db.findContentOrder author permlink owner =
      db.findContentOrder op.author op.permlink op.owner := by
  rcases same with ⟨rfl, text, rfl⟩
  unfold findContentOrder
  rw [text]

theorem ordersFor_of_find
    (found : db.findContentOrder author permlink owner = some (id, order)) :
    order.author = author ∧ cString order.permlink = cString permlink ∧
      order.owner = owner := by
  have passed := Table.passed_of_findBy found
  exact of_decide_eq_true passed

/-- A search among orders of which one has got a new price. -/
theorem find_repricedOrder
    (searched : db.findContentOrder op.author op.permlink op.owner =
      some (id, order))
    (orders : after.contentOrders =
      db.contentOrders.set id { order with price := price })
    (author : AccountName)
    (permlink : Text)
    (owner : AccountName) :
    (after.findContentOrder author permlink owner).map Prod.snd =
      if OrdersFor op author permlink owner then
        some { order with price := price }
      else (db.findContentOrder author permlink owner).map Prod.snd := by
  have found : db.contentOrders.find? id = some order :=
    Table.find?_of_findBy searched
  have before : after.findContentOrder author permlink owner =
      (db.findContentOrder author permlink owner).map fun entry =>
        (entry.1,
          if id = entry.1 then { order with price := price } else entry.2) := by
    rw [findContentOrder, orders]
    exact Table.findBy_set found rfl
  rw [before, Option.map_map]
  split
  case isTrue same =>
    rw [same.find, searched]
    simp
  case isFalse other =>
    cases there : db.findContentOrder author permlink owner with
    | none => rfl
    | some entry =>
        rcases entry with ⟨place, row⟩
        have apart : id ≠ place := by
          rintro rfl
          have same := Table.find?_of_findBy there
          rw [found] at same
          cases same
          rcases ordersFor_of_find searched with ⟨writer, text, buyer⟩
          rcases ordersFor_of_find there with ⟨author', text', owner'⟩
          exact other ⟨writer.symm.trans author', text.symm.trans text',
            buyer.symm.trans owner'⟩
        simp [apart]

theorem modifyContentOrder_eq
    {change : ContentOrderObject → ContentOrderObject}
    (found : db.contentOrders.find? id = some order)
    (done : db.modifyContentOrder id change = .ok after) :
    after = { db with
      contentOrders := db.contentOrders.set id (change order) } := by
  simp only [modifyContentOrder, modifyRow, found, bind_eq_ok_iff,
    orFault_eq_ok_iff, pure_eq_ok_iff] at done
  rcases done with ⟨_, ⟨_, equal, _, rfl, rfl⟩, rfl⟩
  cases equal
  rfl

/-- A new price leaves the times of the orders. -/
theorem timeFree_repriced
    (found : db.contentOrders.find? id = some order)
    (orders : after.contentOrders =
      db.contentOrders.set id { order with price := price })
    (props : after.props = db.props) :
    TimeFree after ↔ TimeFree db := by
  have time : after.headBlockTime = db.headBlockTime :=
    congrArg DynamicGlobalProperties.time props
  have searched :
      after.contentOrders.findBy
          (fun other => other.sentTime = db.headBlockTime) =
        (db.contentOrders.findBy
          (fun other => other.sentTime = db.headBlockTime)).map fun entry =>
            (entry.1,
              if id = entry.1 then { order with price := price }
              else entry.2) := by
    rw [orders]
    exact Table.findBy_set found rfl
  unfold TimeFree
  rw [time, searched, Option.map_eq_none_iff]

/-- A search among orders with a new one, which comes last. -/
theorem findContentOrder_new
    (orders : after.contentOrders = db.contentOrders.emplace (newOrder op db))
    (author : AccountName)
    (permlink : Text)
    (owner : AccountName) :
    after.findContentOrder author permlink owner =
      (db.findContentOrder author permlink owner).or
        (if OrdersFor op author permlink owner then
          some (db.contentOrders.nextId, newOrder op db)
        else none) := by
  rw [findContentOrder, orders, Table.findBy_emplace]
  simp only [decide_eq_true_eq]
  rfl

theorem find_newOrder
    (absent : Opens op db)
    (orders : after.contentOrders = db.contentOrders.emplace (newOrder op db))
    (author : AccountName)
    (permlink : Text)
    (owner : AccountName) :
    (after.findContentOrder author permlink owner).map Prod.snd =
      if OrdersFor op author permlink owner then some (newOrder op db)
      else (db.findContentOrder author permlink owner).map Prod.snd := by
  rw [findContentOrder_new orders]
  split
  case isTrue same =>
    rw [same.find, Option.map_eq_none_iff.1 absent]
    rfl
  case isFalse => rw [Option.or_none]

/-- What the evaluator can do once orders are used. -/
theorem contentOrderCreate_cases
    (late : usingCloseContent ≤ db.headBlockNum)
    (done : db.contentOrderCreateEvaluator op = .ok after) :
    (Opens op db ∧ TimeFree db ∧ ∃ paid,
      db.addBalance op.owner (-op.price.amount) = .ok paid ∧
        after = { paid with
          contentOrders := db.contentOrders.emplace (newOrder op db) }) ∨
    ∃ id order,
      db.findContentOrder op.author op.permlink op.owner = some (id, order) ∧
        ((order.status = .open ∧ order.price ≠ op.price.amount) ∧
            FitsInt64 (order.price - op.price.amount) ∧
            (∃ paid,
              db.addBalance op.owner (-(order.price - op.price.amount)) =
                  .ok paid ∧
                after = { paid with
                  contentOrders := db.contentOrders.set id
                    { order with price := op.price.amount } }) ∨
          ¬ (order.status = .open ∧ order.price ≠ op.price.amount) ∧
            after = db) := by
  unfold contentOrderCreateEvaluator at done
  rw [if_neg (Nat.not_lt.2 late)] at done
  simp only [bind_eq_ok_iff, Asset.inSymbol_eq_ok_iff] at done
  rcases done with
    ⟨account, got, ⟨_, comment⟩, -, _, ⟨-, rfl⟩, _, -, _, -, _, -, decided⟩
  split at decided
  case h_1 searched =>
    simp only [createRow, bind_eq_ok_iff, pure_eq_ok_iff, require_eq_ok_iff,
      Option.isNone_iff_eq_none] at decided
    rcases decided with ⟨paid, debit, _, ⟨_, free, rfl⟩, rfl⟩
    refine .inl ⟨?_, ?_, paid, debit, ?_⟩
    · rw [Opens, existingOrder, searched, Option.map_none]
    · rcases accounts_of_modifyAccount debit with ⟨accounts, rfl⟩
      exact free
    · rcases accounts_of_modifyAccount debit with ⟨accounts, rfl⟩
      rfl
  case h_2 id order searched =>
    refine .inr ⟨id, order, searched, ?_⟩
    split at decided
    case isTrue edited =>
      simp only [bind_eq_ok_iff, checked_eq_ok_iff] at decided
      rcases decided with ⟨_, ⟨range, rfl⟩, moved, move, written⟩
      refine .inl ⟨edited, range, moved, move, ?_⟩
      rcases accounts_of_modifyAccount move with ⟨accounts, rfl⟩
      refine modifyContentOrder_eq ?_ written
      exact Table.find?_of_findBy searched
    case isFalse kept =>
      cases decided
      exact .inr ⟨kept, rfl⟩

/-- What the evaluator does once orders are used. -/
theorem ordered_contentOrderCreate
    (late : usingCloseContent ≤ db.headBlockNum)
    (done : db.contentOrderCreateEvaluator op = .ok after) :
    Ordered op db after ∧ DueFits op db ∧ (Opens op db → TimeFree db) := by
  rcases contentOrderCreate_cases late done with
    ⟨absent, free, paid, debit, rfl⟩ | ⟨id, order, searched, choice⟩
  case inl =>
    rcases find_addBalance debit with ⟨fits, rows⟩
    rcases accounts_of_modifyAccount debit with ⟨accounts, rfl⟩
    have missing : existingOrder op db = none := absent
    refine ⟨?_, ?_, fun _ => free⟩
    · constructor
      case props => rfl
      case comments => rfl
      case accounts =>
        intro name
        refine (rows name).trans ?_
        simp only [orderDue, missing]
        congr 1
        funext row
        congr 1
        split <;> omega
      case orders =>
        intro author permlink owner
        rw [find_newOrder absent rfl, orderLeft, missing]
      case free =>
        refine iff_of_false ?_ fun both => both.2 absent
        intro free
        have refused := Table.refused_of_findBy free
          (Table.holds_emplace db.contentOrders (newOrder op db)).choose_spec
        exact absurd refused (by simp [newOrder, headBlockTime])
    · simp only [DueFits, missing]
      exact fits
  case inr =>
    have existing : existingOrder op db = some order := by
      rw [existingOrder, searched, Option.map_some]
    have present : ¬ Opens op db := by
      intro absent
      rw [Opens, existing] at absent
      cases absent
    have found : db.contentOrders.find? id = some order :=
      Table.find?_of_findBy searched
    rcases choice with ⟨edited, range, moved, move, rfl⟩ | ⟨kept, rfl⟩
    case inl =>
      rcases find_addBalance move with ⟨fits, rows⟩
      rcases accounts_of_modifyAccount move with ⟨accounts, rfl⟩
      refine ⟨?_, ?_, fun opens => absurd opens present⟩
      · constructor
        case props => rfl
        case comments => rfl
        case accounts =>
          intro name
          refine (rows name).trans ?_
          simp only [orderDue, existing, if_pos edited]
          congr 1
          funext row
          congr 1
          split <;> omega
        case orders =>
          intro author permlink owner
          rw [find_repricedOrder searched rfl, orderLeft, existing]
          simp only [if_pos edited]
        case free =>
          rw [and_iff_left present]
          exact timeFree_repriced found rfl rfl
      · simp only [DueFits, existing]
        exact fun _ => ⟨range, fits⟩
    case inr =>
      refine ⟨?_, ?_, fun opens => absurd opens present⟩
      · constructor
        case props => rfl
        case comments => rfl
        case accounts =>
          intro name
          simp [orderDue, existing, if_neg kept]
        case orders =>
          intro author permlink owner
          split
          case isTrue same =>
            rw [same.find, orderLeft, searched, existing]
            simp only [if_neg kept, Option.map_some]
          case isFalse => rfl
        case free => rw [and_iff_left present]
      · simp only [DueFits, existing]
        exact fun edited => absurd edited kept

/-- An order which is allowed, in range and alone at its time is made. -/
theorem contentOrderCreate_succeeds
    (late : usingCloseContent ≤ db.headBlockNum)
    (allowed : OrderAllowed op db)
    (fits : DueFits op db)
    (free : Opens op db → TimeFree db) :
    ∃ after, db.contentOrderCreateEvaluator op = .ok after := by
  rcases allowed late with
    ⟨account, place, comment, found, post, symbol, enough, accepted⟩
  have held : db.held AccountObject.balance op.owner = account.balance :=
    held_of_find found
  have debit : ∀ due, FitsInt64 (account.balance - due) →
      db.addBalance op.owner (-due) = .ok { db with
        accounts := db.accounts.set op.owner
          { account with balance := account.balance - due } } := by
    intro due range
    refine modifyAccount_eq_ok_iff.2 ⟨account, _, found, ?_, rfl⟩
    exact (bind_eq_ok_iff _ _ _).2
      ⟨account.balance - due, checked_eq_ok_iff.2 ⟨range, rfl⟩, rfl⟩
  have got : db.getAccount op.owner = .ok account := orFault_eq_ok_iff.2 found
  have read : db.getComment op.author op.permlink = .ok (place, comment) :=
    orFault_eq_ok_iff.2 post
  have price : op.price.inSymbol bmtSymbol = .ok op.price.amount :=
    Asset.inSymbol_eq_ok_iff.2 ⟨symbol, rfl⟩
  rw [contentOrderCreateEvaluator, if_neg (Nat.not_lt.2 late)]
  simp only [got, read, price, accepted, enough, require, if_true, bind,
    Except.bind]
  cases searched : db.findContentOrder op.author op.permlink op.owner with
  | none =>
      have absent : existingOrder op db = none := by
        rw [existingOrder, searched, Option.map_none]
      simp only [DueFits, absent, held] at fits
      rw [debit _ fits]
      refine ⟨_, (bind_eq_ok_iff _ _ _).2 ⟨_, (bind_eq_ok_iff _ _ _).2
        ⟨(), require_eq_ok_iff.2 ?_, rfl⟩, rfl⟩⟩
      rw [Option.isNone_iff_eq_none]
      exact free absent
  | some entry =>
      rcases entry with ⟨id, order⟩
      have existing : existingOrder op db = some order := by
        rw [existingOrder, searched, Option.map_some]
      dsimp only
      split
      case isTrue edited =>
        simp only [DueFits, existing, held] at fits
        rcases fits edited with ⟨range, left⟩
        rw [checked_eq_ok_iff.2 ⟨range, rfl⟩]
        dsimp only
        rw [debit _ left]
        refine ⟨_, (bind_eq_ok_iff _ _ _).2 ⟨_, (bind_eq_ok_iff _ _ _).2
          ⟨order, orFault_eq_ok_iff.2 ?_, rfl⟩, rfl⟩⟩
        exact Table.find?_of_findBy searched
      case isFalse => exact ⟨db, rfl⟩

end Evaluator

/-! ## Two orders -/

section Pairs

variable {first second : ContentOrderCreateOperation} {db : Database}

/--
Both orders can be made, in either order, with the same balances and the same
orders in the end.
-/
def OrdersCommute (first second : ContentOrderCreateOperation)
    (db : Database) : Prop :=
  ∃ one oneTwo two twoOne,
    db.contentOrderCreateEvaluator first = .ok one ∧
      one.contentOrderCreateEvaluator second = .ok oneTwo ∧
        db.contentOrderCreateEvaluator second = .ok two ∧
          two.contentOrderCreateEvaluator first = .ok twoOne ∧
            (∀ name, oneTwo.held AccountObject.balance name =
              twoOne.held AccountObject.balance name) ∧
            ∀ author permlink owner,
              (oneTwo.findContentOrder author permlink owner).map Prod.snd =
                (twoOne.findContentOrder author permlink owner).map Prod.snd

/--
Orders are not used yet, or each order is in range and, when it is new, finds
the time of the block free, and not both are new.
-/
def OrdersApart (first second : ContentOrderCreateOperation)
    (db : Database) : Prop :=
  usingCloseContent ≤ db.headBlockNum →
    DueFits first db ∧ DueFits second db ∧
      (Opens first db ∨ Opens second db → TimeFree db) ∧
        ¬ (Opens first db ∧ Opens second db)

/-! ### What the order of one owner leaves of another's -/

section Other

variable {after : Database} (ordered : Ordered first db after)
    (owners : first.owner ≠ second.owner)

include ordered owners

theorem Ordered.existing_other :
    existingOrder second after = existingOrder second db := by
  rw [existingOrder, ordered.orders, if_neg]
  · rfl
  · exact fun same => owners same.2.2

theorem Ordered.account_other :
    after.accounts.find? second.owner = db.accounts.find? second.owner := by
  rw [ordered.accounts, if_neg owners]
  simp

theorem Ordered.allowed_other
    (allowed : OrderAllowed second db) :
    OrderAllowed second after := by
  unfold OrderAllowed at allowed ⊢
  rw [headBlockNum, ordered.props, ordered.account_other owners, findComment,
    ordered.comments]
  exact allowed

theorem Ordered.fits_other :
    DueFits second after ↔ DueFits second db := by
  unfold DueFits held
  rw [ordered.existing_other owners, ordered.account_other owners]

theorem Ordered.opens_other :
    Opens second after ↔ Opens second db := by
  rw [Opens, Opens, ordered.existing_other owners]

theorem Ordered.due_other :
    orderDue second after = orderDue second db := by
  rw [orderDue, orderDue, ordered.existing_other owners]

theorem Ordered.left_other :
    orderLeft second after = orderLeft second db := by
  rw [orderLeft, orderLeft, ordered.existing_other owners, newOrder, newOrder,
    headBlockTime, ordered.props, headBlockTime]

end Other

/-- Orders of different owners which are both made end alike. -/
theorem orders_same
    {one two oneTwo twoOne : Database}
    (owners : first.owner ≠ second.owner)
    (oneFirst : Ordered first db one)
    (thenSecond : Ordered second one oneTwo)
    (twoFirst : Ordered second db two)
    (thenFirst : Ordered first two twoOne) :
    (∀ name, oneTwo.held AccountObject.balance name =
      twoOne.held AccountObject.balance name) ∧
    ∀ author permlink owner,
      (oneTwo.findContentOrder author permlink owner).map Prod.snd =
        (twoOne.findContentOrder author permlink owner).map Prod.snd := by
  constructor
  · intro name
    unfold held
    rw [thenSecond.accounts, thenFirst.accounts, oneFirst.accounts,
      twoFirst.accounts, oneFirst.due_other owners,
      twoFirst.due_other owners.symm]
    cases db.accounts.find? name with
    | none => rfl
    | some account =>
        simp only [Option.map_some, Option.getD_some]
        omega
  · intro author permlink owner
    rw [thenSecond.orders, thenFirst.orders, oneFirst.orders, twoFirst.orders,
      oneFirst.left_other owners, twoFirst.left_other owners.symm]
    split
    case isTrue mine =>
      rw [if_neg fun theirs => owners (theirs.2.2.trans mine.2.2.symm)]
    case isFalse => rfl

/-- When the other is made first, an order needs that not both are new. -/
theorem made_after_iff
    (late : usingCloseContent ≤ db.headBlockNum)
    (owners : first.owner ≠ second.owner)
    (allowed : OrderAllowed second db)
    (ordered : Ordered first db one) :
    (∃ after, one.contentOrderCreateEvaluator second = .ok after) ↔
      DueFits second db ∧
        (Opens second db → TimeFree db ∧ ¬ Opens first db) := by
  have stillLate : usingCloseContent ≤ one.headBlockNum := by
    rw [headBlockNum, ordered.props]
    exact late
  rw [← ordered.fits_other owners, ← ordered.opens_other owners,
    ← ordered.free]
  constructor
  · rintro ⟨after, done⟩
    exact (ordered_contentOrderCreate stillLate done).2
  · rintro ⟨fits, free⟩
    exact contentOrderCreate_succeeds stillLate
      (ordered.allowed_other owners allowed) fits free

/-- Orders which come alone need no more than a free time. -/
theorem made_iff
    {op : ContentOrderCreateOperation}
    (late : usingCloseContent ≤ db.headBlockNum)
    (allowed : OrderAllowed op db) :
    (∃ after, db.contentOrderCreateEvaluator op = .ok after) ↔
      DueFits op db ∧ (Opens op db → TimeFree db) := by
  constructor
  · rintro ⟨after, done⟩
    exact (ordered_contentOrderCreate late done).2
  · rintro ⟨fits, free⟩
    exact contentOrderCreate_succeeds late allowed fits free

/-- The evaluator makes an order only when it is allowed. -/
theorem allowed_of_contentOrderCreate
    {op : ContentOrderCreateOperation}
    {after : Database}
    (done : db.contentOrderCreateEvaluator op = .ok after) :
    OrderAllowed op db := by
  intro late
  rw [contentOrderCreateEvaluator, if_neg (Nat.not_lt.2 late)] at done
  simp only [bind_eq_ok_iff, Asset.inSymbol_eq_ok_iff, require_eq_ok_iff]
    at done
  rcases done with ⟨account, got, ⟨id, comment⟩, read, _, ⟨symbol, rfl⟩, _,
    enough, _, accepted, _, rfl, -⟩
  exact ⟨account, id, comment, find_of_getAccount got,
    orFault_eq_ok_iff.1 read, symbol, enough, accepted⟩

end Pairs

end Database

/--
Two allowed orders of different owners do not exclude each other exactly when
they are apart.
-/
theorem orders_commute_iff
    {db : Database}
    {first second : ContentOrderCreateOperation}
    (owners : first.owner ≠ second.owner)
    (allowedFirst : Database.OrderAllowed first db)
    (allowedSecond : Database.OrderAllowed second db) :
    Database.OrdersCommute first second db ↔
      Database.OrdersApart first second db := by
  by_cases late : Database.usingCloseContent ≤ db.headBlockNum
  case neg =>
    have early : db.headBlockNum < Database.usingCloseContent :=
      Nat.lt_of_not_le late
    have idle : ∀ op, db.contentOrderCreateEvaluator op = .ok db := by
      intro op
      rw [Database.contentOrderCreateEvaluator, if_pos early]
    refine iff_of_true ?_ fun again => absurd again late
    exact ⟨db, db, db, db, idle _, idle _, idle _, idle _, fun _ => rfl,
      fun _ _ _ => rfl⟩
  case pos =>
    have firstIff := Database.made_iff late allowedFirst
    have secondIff := Database.made_iff late allowedSecond
    constructor
    · rintro ⟨one, oneTwo, two, twoOne, made, then2, made2, -, -⟩ _
      have ordered := (Database.ordered_contentOrderCreate late made).1
      have later := (Database.made_after_iff late owners allowedSecond
        ordered).1 ⟨oneTwo, then2⟩
      have alone := firstIff.1 ⟨one, made⟩
      refine ⟨alone.1, later.1, ?_, ?_⟩
      · rintro (opens | opens)
        · exact alone.2 opens
        · exact (later.2 opens).1
      · exact fun both => (later.2 both.2).2 both.1
    · intro apart
      rcases apart late with ⟨fits, fits2, free, notBoth⟩
      rcases firstIff.2 ⟨fits, fun opens => free (.inl opens)⟩ with
        ⟨one, made⟩
      rcases secondIff.2 ⟨fits2, fun opens => free (.inr opens)⟩ with
        ⟨two, made2⟩
      have ordered := (Database.ordered_contentOrderCreate late made).1
      have ordered2 := (Database.ordered_contentOrderCreate late made2).1
      rcases (Database.made_after_iff late owners allowedSecond ordered).2
        ⟨fits2, fun opens => ⟨free (.inr opens), fun too =>
          notBoth ⟨too, opens⟩⟩⟩ with ⟨oneTwo, then2⟩
      rcases (Database.made_after_iff late owners.symm allowedFirst
        ordered2).2 ⟨fits, fun opens => ⟨free (.inl opens), fun too =>
          notBoth ⟨opens, too⟩⟩⟩ with ⟨twoOne, then1⟩
      have late1 : Database.usingCloseContent ≤ one.headBlockNum := by
        rw [Database.headBlockNum, ordered.props]
        exact late
      have late2 : Database.usingCloseContent ≤ two.headBlockNum := by
        rw [Database.headBlockNum, ordered2.props]
        exact late
      exact ⟨one, oneTwo, two, twoOne, made, then2, made2, then1,
        Database.orders_same owners ordered
          (Database.ordered_contentOrderCreate late1 then2).1 ordered2
          (Database.ordered_contentOrderCreate late2 then1).1⟩

/-! ## Orders of one block -/

/-- An order for the sample post of an author. -/
def sampleOrder (author owner : AccountName) (price : Int) :
    ContentOrderCreateOperation where
  author := author
  permlink := [97]
  owner := owner
  price := bmt price
  jsonMetadata := []

/-- The header of a second block without transactions. -/
def secondHeader : BlockHeader :=
  { firstHeader with
    timestamp := genesisTime + 6
    previous := firstHeader.id }

/-- The events until two accounts have posts. -/
def eventsBeforeOrders : List Event :=
  [.beginBlock firstHeader, .finishBlock firstHeader,
    .operation (samplePost initMinerName), .operation (samplePost "devs")]

/-- The events until one of them has an order, and a later block. -/
def eventsBeforeEdit : List Event :=
  eventsBeforeOrders ++
    [.operation (.contentOrderCreate (sampleOrder initMinerName "devs" 1)),
      .beginBlock secondHeader, .finishBlock secondHeader]

/-- A changed order and a new one in a later block do not exclude each other. -/
theorem orders_commute_later :
    ∃ db,
      eventsBeforeEdit.foldlM (Database.step plainExternal) initGenesis =
          .ok db ∧
        Database.OrdersCommute (sampleOrder initMinerName "devs" 3)
          (sampleOrder "devs" initMinerName 2) db := by
  have ran : (eventsBeforeEdit.foldlM (Database.step plainExternal)
      initGenesis).bind (fun db =>
      (db.contentOrderCreateEvaluator
        (sampleOrder initMinerName "devs" 3)).bind fun _ =>
          (db.contentOrderCreateEvaluator
            (sampleOrder "devs" initMinerName 2)).bind fun _ =>
              require ((Database.existingOrder
                  (sampleOrder initMinerName "devs" 3) db).isSome ∧
                Database.usingCloseContent ≤ db.headBlockNum) "") =
      .ok () := by
    decide +kernel
  rcases (bind_eq_ok_iff _ _ _).1 ran with ⟨db, reached, ran⟩
  rcases (bind_eq_ok_iff _ _ _).1 ran with ⟨one, first, ran⟩
  rcases (bind_eq_ok_iff _ _ _).1 ran with ⟨two, second, ran⟩
  rcases require_eq_ok_iff.1 ran with ⟨present, late⟩
  have firstMade := (Database.ordered_contentOrderCreate late first).2
  have secondMade := (Database.ordered_contentOrderCreate late second).2
  have old : ¬ Database.Opens (sampleOrder initMinerName "devs" 3) db := by
    intro opens
    rw [opens] at present
    cases present
  refine ⟨db, reached, ?_⟩
  refine (orders_commute_iff (by decide)
    (Database.allowed_of_contentOrderCreate first)
    (Database.allowed_of_contentOrderCreate second)).2 ?_
  intro _
  refine ⟨firstMade.1, secondMade.1, ?_, fun both => old both.1⟩
  rintro (opens | opens)
  · exact firstMade.2 opens
  · exact secondMade.2 opens

/-- Two new orders in one block exclude each other. -/
theorem new_orders_exclude :
    ¬ ∀ (ext : External) (db : Database)
        (first second : ContentOrderCreateOperation),
      Reachable ext db → first.validate = .ok () →
        second.validate = .ok () → first.owner ≠ second.owner →
          Database.OrderAllowed first db → Database.OrderAllowed second db →
            Database.OrdersCommute first second db := by
  intro commute
  have ran : (eventsBeforeOrders.foldlM (Database.step plainExternal)
      initGenesis).bind (fun db =>
        (db.contentOrderCreateEvaluator
          (sampleOrder initMinerName "devs" 1)).bind fun one =>
            (db.contentOrderCreateEvaluator
              (sampleOrder "devs" initMinerName 1)).bind fun _ =>
                require (!(one.contentOrderCreateEvaluator
                  (sampleOrder "devs" initMinerName 1)).isOk) "") =
      .ok () := by
    decide +kernel
  rcases (bind_eq_ok_iff _ _ _).1 ran with ⟨db, reached, ran⟩
  rcases (bind_eq_ok_iff _ _ _).1 ran with ⟨one, first, ran⟩
  rcases (bind_eq_ok_iff _ _ _).1 ran with ⟨two, second, ran⟩
  have fails := require_eq_ok_iff.1 ran
  have phases : Phases eventsBeforeOrders none none :=
    ⟨_, .beginBlock _, _, .finishBlock _, _, .operation _ _, _,
      .operation _ _, rfl⟩
  have reachable : Reachable plainExternal db :=
    ⟨none, RunState.genesis.of_foldlM phases reached⟩
  rcases commute plainExternal db _ _ reachable (by rfl) (by rfl) (by decide)
    (Database.allowed_of_contentOrderCreate first)
    (Database.allowed_of_contentOrderCreate second) with
    ⟨again, oneTwo, -, -, same, made, -⟩
  rw [first] at same
  cases same
  rw [made] at fails
  cases fails

end BMChain.State
