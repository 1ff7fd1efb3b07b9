import BMChain.State.Conservation
import BMChain.State.Holdings

/-!
# The ids of limit orders

An order is created under all 32 bits of its id, and looked up under the lower
16 of them.  A record of the run says under which id each order was created.
-/

namespace BMChain.State

open BMChain.Foundation BMChain.Protocol Std

variable {fields : List Field} {ext : External} {owner : AccountName}
    {orderid : Nat} {event : Event}

/-- The owner and the id under which orders were created, by their objects. -/
abbrev CreatedOrders : Type :=
  Nat → Option (AccountName × Nat)

namespace Database

/-! ## What events do to the orders -/

/-- An event creates no order, and takes no account away. -/
structure FewerOrders (before after : Database) : Prop where
  orders : ∀ id order, after.limitOrders.find? id = some order →
    before.limitOrders.find? id = some order
  present : ∀ name, (before.accounts.find? name).isSome = true →
    (after.accounts.find? name).isSome = true

instance : IsPreorder Database FewerOrders where
  refl _ := ⟨fun _ _ found => found, fun _ there => there⟩
  trans _ _ _ first second :=
    ⟨fun id order found => first.orders id order (second.orders id order found),
      fun name there => second.present name (first.present name there)⟩

section Fewer

variable {db before after : Database}

theorem present_of_agrees
    (agrees : Agrees fields before after)
    (separate : apart [.account .identity] fields = true)
    (name : AccountName) :
    (after.accounts.find? name).isSome =
      (before.accounts.find? name).isSome := by
  have same : Field.read (.account .identity) after =
      Field.read (.account .identity) before :=
    agrees.read_eq separate List.mem_cons_self
  have row := congrArg Option.isSome (congrFun same name)
  simpa only [Field.read, Option.isSome_map] using row

theorem FewerOrders.of_agrees
    (agrees : Agrees fields before after)
    (separate : apart [.limitOrders, .account .identity] fields = true) :
    FewerOrders before after := by
  have orders : after.limitOrders = before.limitOrders :=
    agrees.read_eq separate List.mem_cons_self
  constructor
  case orders =>
    rw [orders]
    exact fun _ _ found => found
  case present =>
    intro name there
    rw [apart, List.all_cons, Bool.and_eq_true] at separate
    rw [present_of_agrees agrees separate.2]
    exact there

theorem FewerOrders.of_opened
    {name : AccountName}
    (opens : OpensAccount db after name) :
    FewerOrders db after := by
  rcases opens with ⟨paid, opened, row, -, pay, created, others, emit⟩
  refine trans_of _ (of_agrees pay rfl) (trans_of _ ?_ (of_agrees emit rfl))
  have separate : apart [.limitOrders] (.delegations :: accountFields) = true :=
    rfl
  have orders : opened.limitOrders = paid.limitOrders :=
    others.read_eq separate List.mem_cons_self
  constructor
  case orders =>
    rw [orders]
    exact fun _ _ found => found
  case present =>
    intro other there
    rw [(find_createNamed created).2 other]
    split
    · rfl
    · exact there

theorem fewer_cancelOrder
    {id : Nat}
    {order : LimitOrderObject}
    (done : db.cancelOrder id order = .ok after) :
    FewerOrders db after := by
  simp only [cancelOrder, bind_eq_ok_iff, pure_eq_ok_iff] at done
  rcases done with ⟨paid, pay, rfl⟩
  have kept : FewerOrders db paid :=
    .of_agrees (touches_adjustBalance db _ _ paid pay) rfl
  refine trans_of _ kept ?_
  constructor
  case orders =>
    intro other row found
    dsimp only at found
    rw [Table.find?_remove] at found
    split at found
    · cases found
    · exact found
  case present => exact fun _ there => there

theorem fewer_clearExpiredOrders
    (done : db.clearExpiredOrders = .ok after) :
    FewerOrders db after := by
  refine drain_invariant (FewerOrders db) ?_ done (refl_of _ db)
  intro entry state next _ canceled kept
  exact trans_of _ kept (fewer_cancelOrder canceled)

theorem fewer_runStep
    {header : BlockHeader}
    {which : BlockStep}
    (done : db.runStep ext header which = .ok after) :
    FewerOrders db after := by
  have agrees := touches_runStep ext header db which after done
  cases which with
  | clearExpiredOrders => exact fewer_clearExpiredOrders done
  | _ => exact .of_agrees agrees rfl

end Fewer

/-- The owner and the id of the order which an operation creates. -/
def orderCreatedBy : Event → Option (AccountName × Nat)
  | .operation (.limitOrderCreate op) => some (op.owner, op.orderid)
  | .operation (.limitOrderCreate2 op) => some (op.owner, op.orderid)
  | _ => none

/-- Note the order which an event creates. -/
def noteOrder (created : CreatedOrders) (db : Database) (event : Event)
    (_ : Database) : CreatedOrders :=
  match orderCreatedBy event with
  | some key => Function.update created db.limitOrders.nextId (some key)
  | none => created

section Creation

variable {db after : Database}

/-- What the creation of an order does to the orders. -/
structure PlacesOrder (db after : Database) (owner : AccountName)
    (orderid : Nat) : Prop where
  free : db.limitOrders.All fun order =>
    (order.seller, order.orderid) ≠ (owner, orderid)
  placed : ∃ order : LimitOrderObject,
    (order.seller, order.orderid) = (owner, orderid) ∧
      after.limitOrders = db.limitOrders.emplace order
  present : ∀ name, (after.accounts.find? name).isSome =
    (db.accounts.find? name).isSome
  owned : (db.accounts.find? owner).isSome = true

theorem places_createOrder
    {amountToSell : Asset}
    {getPrice : Except Fault Price}
    {fillOrKill : Bool}
    {expiration : Time}
    (applied : db.createOrder owner orderid amountToSell getPrice fillOrKill
      expiration = .ok after) :
    PlacesOrder db after owner orderid := by
  simp only [createOrder, createRow, bind_eq_ok_iff, require_eq_ok_iff,
    Option.isNone_iff_eq_none, pure_eq_ok_iff] at applied
  rcases applied with
    ⟨_, -, account, got, _, -, _, -, _, -, debited, debit, price, priced, _,
      ⟨_, fresh, rfl⟩, ⟨final, filled⟩, applied, _, -, rfl⟩
  have agrees : Agrees [.account .balance] db debited :=
    touches_adjustBalance db _ _ debited debit
  have orders : debited.limitOrders = db.limitOrders :=
    agrees .limitOrders (by decide)
  have same := applyOrder_eq applied
  subst same
  rw [orders] at fresh
  constructor
  case free =>
    intro id order found equal
    have refused := Table.refused_of_findBy fresh found
    exact of_decide_eq_false refused (Prod.mk.inj equal)
  case placed =>
    dsimp only
    rw [orders]
    exact ⟨_, rfl, rfl⟩
  case present =>
    have separate : apart [.account .identity] [.account .balance] = true := rfl
    intro name
    have kept := present_of_agrees agrees separate name
    exact kept
  case owned =>
    rw [find_of_getAccount got]
    rfl

/-- An event creates the order which is noted, or none. -/
theorem orders_step
    (stepped : db.step ext event = .ok after) :
    match orderCreatedBy event with
    | some key => PlacesOrder db after key.1 key.2
    | none => FewerOrders db after := by
  cases event with
  | beginBlock header =>
      exact .of_agrees (touches_beginBlock db header after stepped) rfl
  | finishBlock header =>
      have each : EachStep ext header (fun _ _ => True) blockSteps db :=
        eachStep_of_forall (fun _ _ => trivial) _ _
      refine foldlM_runStep_invariant (FewerOrders db) ?_ each stepped
        (refl_of _ db)
      exact fun _ _ _ _ ran kept => trans_of _ kept (fewer_runStep ran)
  | operation op =>
      simp only [step, bind_eq_ok_iff] at stepped
      rcases stepped with ⟨_, -, done⟩
      have agrees := touches_applyOperation ext db op after done
      cases op with
      | limitOrderCreate op => exact places_createOrder done
      | limitOrderCreate2 op => exact places_createOrder done
      | limitOrderCancel op =>
          simp only [applyOperation, limitOrderCancelEvaluator,
            bind_eq_ok_iff] at done
          rcases done with ⟨⟨id, order⟩, -, canceled⟩
          exact fewer_cancelOrder canceled
      | accountCreate op => exact .of_opened (opensAccountNow_accountCreate done).opens
      | accountCreateWithDelegation op =>
          exact .of_opened (opensAccountNow_accountCreateWithDelegation done).opens
      | _ => exact .of_agrees agrees rfl

end Creation

/-! ## The record of the orders -/

/-- The open orders are those which the record says. -/
structure OrdersNoted (created : CreatedOrders) (db : Database) : Prop where
  noted : ∀ id order, db.limitOrders.find? id = some order →
    created id = some (order.seller, order.orderid)
  distinct : db.limitOrders.Distinct fun order => (order.seller, order.orderid)
  sellers : db.limitOrders.All fun order =>
    (db.accounts.find? order.seller).isSome = true

section Noted

variable {created : CreatedOrders} {db after : Database}

theorem OrdersNoted.of_fewer
    (noted : OrdersNoted created db)
    (fewer : FewerOrders db after) :
    OrdersNoted created after := by
  constructor
  case noted =>
    exact fun id order found => noted.noted id order (fewer.orders id order found)
  case distinct =>
    intro first second one two found there same
    exact noted.distinct first second one two (fewer.orders first one found)
      (fewer.orders second two there) same
  case sellers =>
    intro id order found
    exact fewer.present _ (noted.sellers id order (fewer.orders id order found))

theorem OrdersNoted.of_places
    (noted : OrdersNoted created db)
    (places : PlacesOrder db after owner orderid) :
    OrdersNoted
      (Function.update created db.limitOrders.nextId (some (owner, orderid)))
      after := by
  rcases places.placed with ⟨order, key, placed⟩
  constructor
  case noted =>
    intro id row found
    rw [placed, Table.find?_emplace] at found
    split at found
    case isTrue same =>
      cases found
      rw [← same, Function.update_self, key]
    case isFalse different =>
      rw [Function.update_of_ne (Ne.symm different)]
      exact noted.noted id row found
  case distinct =>
    rw [placed]
    refine noted.distinct.emplace ?_
    intro id other found same
    exact places.free id other found (same.trans key)
  case sellers =>
    intro id row found
    rw [places.present]
    rw [placed, Table.find?_emplace] at found
    split at found
    case isTrue =>
      cases found
      rw [(Prod.mk.inj key).1]
      exact places.owned
    case isFalse => exact noted.sellers id row found

theorem OrdersNoted.step
    (noted : OrdersNoted created db)
    (stepped : db.step ext event = .ok after) :
    OrdersNoted (noteOrder created db event after) after := by
  have moved := orders_step stepped
  unfold noteOrder
  split at moved
  case h_1 => exact noted.of_places moved
  case h_2 => exact noted.of_fewer moved

end Noted

/-! ## Cancelling -/

/-- What an order still has for sale can go back to its owner. -/
def Refundable (db : Database) (order : LimitOrderObject) : Prop :=
  order.sellPrice.base.symbol = bmtSymbol ∧
    FitsInt64 (db.held AccountObject.balance order.seller + order.forSale)

/-- An order is removed, and its owner gets what it has for sale. -/
structure OrderCancelled (db after : Database) (id : Nat)
    (order : LimitOrderObject) : Prop where
  removed : after.limitOrders = db.limitOrders.remove id
  credited : ∀ name, after.held AccountObject.balance name =
    db.held AccountObject.balance name +
      if order.seller = name then order.forSale else 0

/-- What the cancellation of an order under an id promises. -/
structure CancelsRight (created : CreatedOrders) (db : Database)
    (op : LimitOrderCancelOperation) : Prop where
  cancels : ∀ id order, db.limitOrders.find? id = some order →
    created id = some (op.owner, op.orderid) →
      ∃ after, db.limitOrderCancelEvaluator op = .ok after ∧
        OrderCancelled db after id order
  refuses : (∀ id order, db.limitOrders.find? id = some order →
      created id ≠ some (op.owner, op.orderid)) →
    ∃ fault, db.limitOrderCancelEvaluator op = .error fault
  spares : ∀ after id order, db.limitOrderCancelEvaluator op = .ok after →
    db.limitOrders.find? id = some order → after.limitOrders.find? id = none →
      ∃ name, created id = some (name, op.orderid)

/--
The orders of the owner let the cancellation find the right one: an order with
the id has an id of 16 bits and can be refunded, and an order with the lower 16
bits of a greater id cannot be.
-/
def FindsOrder (db : Database) (op : LimitOrderCancelOperation) : Prop :=
  ∀ id order, db.limitOrders.find? id = some order →
    order.seller = op.owner →
      (order.orderid = op.orderid →
        op.orderid < 2 ^ 16 ∧ db.Refundable order) ∧
      (order.orderid = op.orderid % 2 ^ 16 →
        op.orderid < 2 ^ 16 ∨ ¬db.Refundable order)

section Cancel

variable {created : CreatedOrders} {db after : Database}
  {op : LimitOrderCancelOperation} {id : Nat} {order : LimitOrderObject}

theorem cancelled_of_cancelOrder
    (done : db.cancelOrder id order = .ok after) :
    OrderCancelled db after id order ∧ db.Refundable order := by
  simp only [cancelOrder, adjustBalance, bind_eq_ok_iff,
    pure_eq_ok_iff] at done
  rcases done with ⟨paid, pay, rfl⟩
  have orders : paid.limitOrders = db.limitOrders := by
    rcases accounts_of_modifyAccount pay with ⟨accounts, rfl⟩
    rfl
  constructor
  case left =>
    constructor
    case removed => exact congrArg (fun table => table.remove id) orders
    case credited =>
      intro name
      refine held_modifyAccount pay ?_ name
      intro account changed _ equal
      simp only [bind_eq_ok_iff, checked_eq_ok_iff, pure_eq_ok_iff] at equal
      rcases equal with ⟨_, -, _, ⟨-, rfl⟩, rfl⟩
      rfl
  case right =>
    simp only [modifyAccount_eq_ok_iff, bind_eq_ok_iff, require_eq_ok_iff,
      checked_eq_ok_iff, pure_eq_ok_iff] at pay
    rcases pay with ⟨account, _, found, ⟨_, symbol, _, ⟨fits, rfl⟩, rfl⟩, -⟩
    refine ⟨symbol, ?_⟩
    rw [held_of_find found]
    exact fits

theorem cancelOrder_of_refundable
    (owned : (db.accounts.find? order.seller).isSome = true)
    (refundable : db.Refundable order) :
    ∃ after, db.cancelOrder id order = .ok after := by
  rcases Option.isSome_iff_exists.1 owned with ⟨account, found⟩
  rcases refundable with ⟨symbol, fits⟩
  rw [held_of_find found] at fits
  have pays : db.adjustBalance order.seller order.amountForSale =
      .ok { db with
        accounts := db.accounts.set order.seller
          { account with balance := account.balance + order.forSale } } := by
    rw [adjustBalance, modifyAccount_eq_ok_iff]
    refine ⟨account, _, found, ?_, rfl⟩
    simp only [bind_eq_ok_iff, require_eq_ok_iff, checked_eq_ok_iff,
      pure_eq_ok_iff]
    exact ⟨(), symbol, _, ⟨fits, rfl⟩, rfl⟩
  rw [cancelOrder, pays]
  exact ⟨_, rfl⟩

/-- A cancellation takes an order of the owner with the lower bits of the id. -/
theorem found_of_cancel
    (done : db.limitOrderCancelEvaluator op = .ok after) :
    ∃ id order, db.limitOrders.find? id = some order ∧
      order.seller = op.owner ∧ order.orderid = op.orderid % 2 ^ 16 ∧
        db.cancelOrder id order = .ok after := by
  simp only [limitOrderCancelEvaluator, getLimitOrder, bind_eq_ok_iff,
    orFault_eq_ok_iff] at done
  rcases done with ⟨⟨id, order⟩, searched, canceled⟩
  have test := Table.passed_of_findBy searched
  have key := of_decide_eq_true test
  exact ⟨id, order, Table.find?_of_findBy searched, key.1, key.2, canceled⟩

/-- An order with the lower bits of the id is the one which is taken. -/
theorem cancel_of_found
    (noted : OrdersNoted created db)
    (found : db.limitOrders.find? id = some order)
    (owner : order.seller = op.owner)
    (bits : order.orderid = op.orderid % 2 ^ 16)
    (refundable : db.Refundable order) :
    ∃ after, db.limitOrderCancelEvaluator op = .ok after ∧
      OrderCancelled db after id order := by
  have searched : db.getLimitOrder op.owner op.orderid = .ok (id, order) := by
    rw [getLimitOrder, orFault_eq_ok_iff, Table.findBy_eq_some_iff]
    refine ⟨found, decide_eq_true ⟨owner, bits⟩, ?_⟩
    intro other earlier there test
    have key := of_decide_eq_true test
    refine Nat.le_of_eq (noted.distinct id other order earlier found there ?_)
    dsimp only
    rw [owner, bits, key.1, key.2]
  have pays : ∃ after, db.cancelOrder id order = .ok after :=
    cancelOrder_of_refundable (noted.sellers id order found) refundable
  rcases pays with ⟨after, canceled⟩
  refine ⟨after, ?_, (cancelled_of_cancelOrder canceled).1⟩
  rw [limitOrderCancelEvaluator, searched]
  exact canceled

theorem none_of_removed
    (cancelled : OrderCancelled db after id order) :
    after.limitOrders.find? id = none := by
  rw [cancelled.removed, Table.find?_remove, if_pos rfl]

theorem findsOrder_of_cancelsRight
    (noted : OrdersNoted created db)
    (right : CancelsRight created db op) :
    db.FindsOrder op := by
  intro id order found owner
  constructor
  case left =>
    intro same
    have key : created id = some (op.owner, op.orderid) := by
      rw [noted.noted id order found, owner, same]
    rcases right.cancels id order found key with ⟨after, done, cancelled⟩
    rcases found_of_cancel done with ⟨place, taken, there, _, bits, canceled⟩
    have gone := none_of_removed (cancelled_of_cancelOrder canceled).1
    have equal : id = place := by
      by_contra different
      rw [cancelled.removed, Table.find?_remove, if_neg different, there] at gone
      cases gone
    subst equal
    rw [found] at there
    cases there
    refine ⟨?_, (cancelled_of_cancelOrder canceled).2⟩
    rw [← same, bits]
    exact Nat.mod_lt _ (by decide)
  case right =>
    intro bits
    by_contra both
    rcases not_or.1 both with ⟨wide, refunds⟩
    rcases cancel_of_found noted found owner bits (not_not.1 refunds) with
      ⟨after, done, cancelled⟩
    rcases right.spares after id order done found (none_of_removed cancelled)
      with ⟨name, key⟩
    rw [noted.noted id order found, Option.some.injEq] at key
    have same := (Prod.mk.inj key).2
    refine wide ?_
    rw [← same, bits]
    exact Nat.mod_lt _ (by decide)

theorem cancelsRight_of_findsOrder
    (noted : OrdersNoted created db)
    (finds : db.FindsOrder op) :
    CancelsRight created db op := by
  -- Whatever is taken has the whole id, as the other orders cannot be refunded.
  have taken : ∀ after, db.limitOrderCancelEvaluator op = .ok after →
      ∃ id order, db.limitOrders.find? id = some order ∧
        created id = some (op.owner, op.orderid) ∧
          OrderCancelled db after id order := by
    intro after done
    rcases found_of_cancel done with ⟨id, order, found, owner, bits, canceled⟩
    rcases cancelled_of_cancelOrder canceled with ⟨cancelled, refunds⟩
    rcases (finds id order found owner).2 bits with small | never
    · rw [Nat.mod_eq_of_lt small] at bits
      refine ⟨id, order, found, ?_, cancelled⟩
      rw [noted.noted id order found, owner, bits]
    · exact absurd refunds never
  constructor
  case cancels =>
    intro id order found key
    rw [noted.noted id order found, Option.some.injEq] at key
    rcases Prod.mk.inj key with ⟨owner, same⟩
    rcases (finds id order found owner).1 same with ⟨small, refunds⟩
    refine cancel_of_found noted found owner ?_ refunds
    rw [Nat.mod_eq_of_lt small]
    exact same
  case refuses =>
    intro none
    cases done : db.limitOrderCancelEvaluator op with
    | error fault => exact ⟨fault, rfl⟩
    | ok after =>
        rcases taken after done with ⟨id, order, found, key, -⟩
        exact absurd key (none id order found)
  case spares =>
    intro after id order done found gone
    rcases taken after done with ⟨place, row, -, key, cancelled⟩
    by_cases same : place = id
    · rw [← same]
      exact ⟨op.owner, key⟩
    · rw [cancelled.removed, Table.find?_remove, if_neg same, found] at gone
      cases gone

end Cancel

end Database

open Database

/--
In every run, with a record of the orders which it creates, the cancellation
under an id does what it promises exactly when it finds the right order.
-/
theorem cancels_right_iff
    {ext : External}
    {created : CreatedOrders}
    {block : Option BlockHeader}
    {db : Database}
    (run : RecordedRun ext (fun _ _ => True) (fun _ => none) noteOrder created
      block db)
    (op : LimitOrderCancelOperation) :
    CancelsRight created db op ↔ db.FindsOrder op := by
  have noted : OrdersNoted created db := by
    refine run.invariant OrdersNoted ?_ ?_
    · constructor
      case noted =>
        intro id order found
        cases found
      case distinct => exact Table.Distinct.empty
      case sellers => exact Table.All.empty
    · exact fun _ _ _ _ _ stepped before => before.step stepped
  exact ⟨findsOrder_of_cancelsRight noted, cancelsRight_of_findsOrder noted⟩

/-- An order of `initminer` for one BMT. -/
def offeredOrder (orderid : Nat) : Operation :=
  .limitOrderCreate
    { owner := initMinerName
      orderid := orderid
      amountToSell := bmt 1000
      minToReceive := vests 1000
      fillOrKill := false
      expiration := genesisTime + 3600 }

/-- An order with a small id can be cancelled. -/
theorem cancels_right_one_order :
    ∃ created db,
      RecordedRun plainExternal (fun _ _ => True) (fun _ => none) noteOrder
          created none db ∧
        CancelsRight created db ⟨initMinerName, 7⟩ := by
  have ran : ([Event.operation (offeredOrder 7)].foldlM
      (Database.step plainExternal) initGenesis).bind (fun db =>
        require (∀ entry ∈ db.limitOrders.entries,
          entry.2.orderid = 7 ∧
            entry.2.sellPrice.base.symbol = bmtSymbol ∧
              FitsInt64 (db.held AccountObject.balance entry.2.seller +
                entry.2.forSale)) "") = .ok () := by
    decide +kernel
  rcases (bind_eq_ok_iff _ _ _).1 ran with ⟨db, done, facts⟩
  rw [require_eq_ok_iff] at facts
  have phases : Phases [.operation (offeredOrder 7)] none none :=
    ⟨none, .operation _ none, rfl⟩
  have start : RecordedRun plainExternal (fun _ _ => True) (fun _ => none)
      noteOrder (fun _ => none) none initGenesis := .genesis
  rcases start.of_foldlM phases done with ⟨created, run⟩
  refine ⟨created, db, run, (cancels_right_iff run _).2 ?_⟩
  intro id order found _
  have listed := ExtTreeMap.mem_toList_iff_getElem?_eq_some.2 found
  rcases facts (id, order) listed with ⟨_, refunds⟩
  exact ⟨fun _ => ⟨by decide, refunds⟩, fun _ => .inl (by decide)⟩

/-- The order which is cancelled under a great id is one with its lower bits. -/
theorem cancels_other_order :
    ∃ db after,
      [Event.operation (offeredOrder 7),
          .operation (offeredOrder 65543)].foldlM
            (Database.step plainExternal) initGenesis = .ok db ∧
        db.limitOrderCancelEvaluator ⟨initMinerName, 65543⟩ = .ok after ∧
          (db.limitOrders.entries.map fun entry => entry.2.orderid) =
              [7, 65543] ∧
            (after.limitOrders.entries.map fun entry => entry.2.orderid) =
              [65543] := by
  have ran : ([Event.operation (offeredOrder 7),
      .operation (offeredOrder 65543)].foldlM
        (Database.step plainExternal) initGenesis).bind (fun db =>
          (db.limitOrderCancelEvaluator ⟨initMinerName, 65543⟩).bind
            fun after => require
              ((db.limitOrders.entries.map fun entry => entry.2.orderid) =
                  [7, 65543] ∧
                (after.limitOrders.entries.map fun entry =>
                  entry.2.orderid) = [65543]) "") = .ok () := by
    decide +kernel
  rcases (bind_eq_ok_iff _ _ _).1 ran with ⟨db, done, rest⟩
  rcases (bind_eq_ok_iff _ _ _).1 rest with ⟨after, canceled, facts⟩
  exact ⟨db, after, done, canceled, require_eq_ok_iff.1 facts⟩

end BMChain.State
