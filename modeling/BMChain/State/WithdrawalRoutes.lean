import BMChain.Foundation.RowCount
import BMChain.State.SavingsBound

/-!
# The routes of withdrawals

An account counts its routes.  The checks and the payments go through the
routes from `upper_bound( from, account_id_type() )` on, so all of them count
as long as no route leads to the account with id zero.
-/

namespace BMChain.State

open BMChain.Foundation BMChain.Protocol Std

variable {name : AccountName} {owner : AccountObject}
    {op : SetWithdrawSavingsRouteOperation} {ext : External}

namespace Database

/-! ## Routes of an account -/

/-- Whether a route starts from an account. -/
def leavesFrom (account : Nat) (route : WithdrawRouteObject) : Bool :=
  route.fromAccount = account

/-- All routes of an account. -/
def allRoutes (db : Database) (account : Nat) :
    List (Nat × WithdrawRouteObject) :=
  db.withdrawRoutes.entries.filter fun entry => leavesFrom account entry.2

/-- What an account with routes says of their number. -/
def routeCounter (db : Database) (name : AccountName) : Option Nat :=
  (db.accounts.find? name).map AccountObject.withdrawRoutes

/-- The routes of every account are its own, and it counts them. -/
structure RoutesCounted (db : Database) : Prop where
  ids : Numbered db.accountIdOf db.accounts.nextId
  owned : db.withdrawRoutes.All fun route =>
    route.fromAccount < db.accounts.nextId
  counted : ∀ name id count,
    db.accountIdOf name = some id → db.routeCounter name = some count →
      count = db.withdrawRoutes.countOf (leavesFrom id) ∧ count ≤ 10

/-- No route leads to the account with id zero. -/
def AllReached (db : Database) : Prop :=
  db.withdrawRoutes.All fun route => route.toAccount ≠ 0

/-- What the routes of an account promise. -/
structure RoutesHold (db : Database) : Prop where
  percents : ∀ name account, db.accounts.find? name = some account →
    ((db.allRoutes account.id).map fun entry => entry.2.percent).sum ≤
      hundredPercent
  number : ∀ name account, db.accounts.find? name = some account →
    account.withdrawRoutes = (db.allRoutes account.id).length ∧
      account.withdrawRoutes ≤ 10
  considered : ∀ name account, db.accounts.find? name = some account →
    (db.routesFrom account.id).Perm (db.allRoutes account.id)

/-- All routes are considered when none leads to the account with id zero. -/
theorem routesFrom_perm
    {db : Database}
    (reached : db.AllReached)
    (account : Nat) :
    (db.routesFrom account).Perm (db.allRoutes account) := by
  refine (List.perm_insertionSort _ _).trans (List.Perm.of_eq ?_)
  refine List.filter_congr ?_
  rintro ⟨id, route⟩ listed
  have found := ExtTreeMap.mem_toList_iff_getElem?_eq_some.1 listed
  have later := Nat.pos_of_ne_zero (reached id route found)
  simp [leavesFrom, later]

theorem RoutesCounted.holds
    {db : Database}
    (counted : db.RoutesCounted)
    (routed : db.Routed)
    (reached : db.AllReached) :
    db.RoutesHold := by
  constructor
  case percents =>
    intro name account _
    have sums := ((routesFrom_perm reached account.id).map
      fun entry => entry.2.percent).sum_eq
    have same := sum_routesOf db account.id
    rw [routesOf, List.map_map] at same
    have within := routed account.id
    rw [← same] at within
    rw [← sums]
    exact Int.ofNat_le.1 within
  case number =>
    intro name account found
    have named : db.routeCounter name = some account.withdrawRoutes := by
      rw [routeCounter, found]
      rfl
    exact counted.counted name account.id _ (accountIdOf_of_find found) named
  case considered => exact fun _ account _ => routesFrom_perm reached account.id

/-! ## Changes which keep the routes -/

section Frame

variable {fields : List Field} {before after : Database}

/-- The parts of the state which the routes are read from. -/
def routeParts : List Field :=
  [.account .identity, .accountIds, .account .routes, .withdrawRoutes]

theorem routeCounter_of_read_eq
    (same : Field.read (.account .routes) after =
      Field.read (.account .routes) before) :
    after.routeCounter = before.routeCounter := by
  funext name
  exact congrFun same name

theorem RoutesCounted.of_agrees
    (counted : before.RoutesCounted)
    (agrees : Agrees fields before after)
    (separate : apart routeParts fields = true) :
    after.RoutesCounted := by
  have same := fun field member =>
    @Agrees.read_eq _ _ _ _ agrees separate field member
  have ids := accountIdOf_of_read_eq (same _ (by decide))
  have counters := routeCounter_of_read_eq (same _ (by decide))
  have next : after.accounts.nextId = before.accounts.nextId :=
    same .accountIds (by decide)
  have routes : after.withdrawRoutes = before.withdrawRoutes :=
    same .withdrawRoutes (by decide)
  constructor
  case ids =>
    rw [ids, next]
    exact counted.ids
  case owned =>
    rw [routes, next]
    exact counted.owned
  case counted =>
    rw [ids, counters, routes]
    exact counted.counted

theorem AllReached.of_agrees
    (reached : before.AllReached)
    (agrees : Agrees fields before after)
    (separate : apart [.withdrawRoutes] fields = true) :
    after.AllReached := by
  have routes : after.withdrawRoutes = before.withdrawRoutes :=
    agrees.read_eq separate List.mem_cons_self
  rw [AllReached, routes]
  exact reached

/-- No route leaves from an account which is not there yet. -/
theorem RoutesCounted.none_later
    {db : Database}
    (counted : db.RoutesCounted) :
    db.withdrawRoutes.countOf (leavesFrom db.accounts.nextId) = 0 := by
  refine List.length_eq_zero_iff.2 (List.filter_eq_nil_iff.2 ?_)
  rintro ⟨id, route⟩ listed
  have found := ExtTreeMap.mem_toList_iff_getElem?_eq_some.1 listed
  have below := counted.owned id route found
  simpa [leavesFrom] using Nat.ne_of_lt below

/-- A new account has no routes. -/
theorem RoutesCounted.of_opened
    {db : Database}
    (counted : db.RoutesCounted)
    (opens : OpensAccount db after name) :
    after.RoutesCounted := by
  rcases opens with ⟨paid, opened, row, fresh, pay, created, others, emit⟩
  have start := counted.of_agrees pay rfl
  have separate : apart [.withdrawRoutes] (.delegations :: accountFields) =
      true := rfl
  have routes : opened.withdrawRoutes = paid.withdrawRoutes :=
    others.read_eq separate List.mem_cons_self
  have next : opened.accounts.nextId = paid.accounts.nextId + 1 := by
    simp only [createNamed, bind_eq_ok_iff, pure_eq_ok_iff] at created
    rcases created with ⟨_, -, equal⟩
    rw [← equal]
    rfl
  rcases find_createNamed created with ⟨free, rows⟩
  have none : (row paid.accounts.nextId).withdrawRoutes = 0 :=
    congrArg AccountObject.withdrawRoutes (fresh _)
  have numbered : ∀ other, opened.accountIdOf other =
      if name = other then some paid.accounts.nextId
      else paid.accountIdOf other := by
    intro other
    rw [accountIdOf, rows other]
    split
    · rw [Option.map_some, congrArg AccountObject.id (fresh _)]
    · rfl
  refine RoutesCounted.of_agrees ?_ emit rfl
  constructor
  case ids =>
    rw [next]
    exact start.ids.add numbered
  case owned =>
    rw [routes, next]
    exact fun id route found => Nat.lt_succ_of_lt (start.owned id route found)
  case counted =>
    intro other id count given counter
    rw [routes]
    rw [numbered] at given
    rw [routeCounter, rows other] at counter
    split at given
    case isTrue same =>
      cases given
      rw [if_pos same, Option.map_some, none] at counter
      cases counter
      exact ⟨start.none_later.symm, Nat.zero_le _⟩
    case isFalse different =>
      rw [if_neg different] at counter
      exact start.counted other id count given counter

end Frame

/-! ## `set_withdraw_savings_route` -/

section Routes

variable {db after : Database}

/-- A change of the counter of one account, beside its routes. -/
theorem routesCounted_modify
    {routes : Table WithdrawRouteObject}
    {change : Nat → Nat}
    (counted : db.RoutesCounted)
    (found : db.accounts.find? name = some owner)
    (owned : routes.All fun route => route.fromAccount < db.accounts.nextId)
    (others : ∀ id, id ≠ owner.id →
      routes.countOf (leavesFrom id) =
        db.withdrawRoutes.countOf (leavesFrom id))
    (own : change owner.withdrawRoutes = routes.countOf (leavesFrom owner.id) ∧
      change owner.withdrawRoutes ≤ 10)
    (done : { db with withdrawRoutes := routes }.modifyAccount name
      (fun account => pure { account with
        withdrawRoutes := change account.withdrawRoutes }) = .ok after) :
    after.RoutesCounted := by
  simp only [modifyAccount_eq_ok_iff, pure_eq_ok_iff] at done
  rcases done with ⟨_, _, again, rfl, rfl⟩
  rw [found] at again
  cases again
  have rows := Register.find?_set found { owner with
    withdrawRoutes := change owner.withdrawRoutes }
  have ids : ∀ other, ((db.accounts.set name { owner with
      withdrawRoutes := change owner.withdrawRoutes }).find? other).map
        AccountObject.id = db.accountIdOf other := by
    intro other
    rw [rows other, accountIdOf]
    split
    case isTrue same =>
      rw [← same, found]
      rfl
    case isFalse => rfl
  constructor
  case ids =>
    constructor
    case below =>
      intro other id given
      exact counted.ids.below other id ((ids other).symm.trans given)
    case single =>
      intro first second id given again
      exact counted.ids.single first second id
        ((ids first).symm.trans given) ((ids second).symm.trans again)
  case owned => exact owned
  case counted =>
    intro other id count given counter
    have numbered : db.accountIdOf other = some id :=
      (ids other).symm.trans given
    rw [routeCounter] at counter
    dsimp only at counter ⊢
    rw [rows other] at counter
    split at counter
    case isTrue same =>
      subst same
      rw [accountIdOf_of_find found] at numbered
      cases numbered
      cases counter
      exact own
    case isFalse different =>
      have apart : id ≠ owner.id := by
        intro equal
        subst equal
        exact different (counted.ids.single name other owner.id
          (accountIdOf_of_find found) numbered)
      rw [others id apart]
      exact counted.counted other id count numbered counter

theorem routesCounted_writeRoute
    {route : WithdrawRouteObject}
    (counted : db.RoutesCounted)
    (found : db.accounts.find? op.fromAccount = some owner)
    (leaves : route.fromAccount = owner.id)
    (done : db.writeRoute op owner route = .ok after) :
    after.RoutesCounted := by
  have named : db.routeCounter op.fromAccount = some owner.withdrawRoutes := by
    rw [routeCounter, found]
    rfl
  have numbered := accountIdOf_of_find found
  have below := counted.ids.below _ _ numbered
  rcases counted.counted _ _ _ numbered named with ⟨counter, few⟩
  have one : Table.one (leavesFrom owner.id) route = 1 :=
    if_pos (decide_eq_true leaves)
  have none : ∀ (row : WithdrawRouteObject) (id : Nat),
      row.fromAccount = owner.id → id ≠ owner.id →
        Table.one (leavesFrom id) row = 0 := by
    intro row id same different
    refine if_neg fun passed => different ?_
    exact (of_decide_eq_true passed).symm.trans same
  unfold writeRoute at done
  split at done
  case h_1 fresh =>
    simp only [bind_eq_ok_iff, require_eq_ok_iff] at done
    rcases done with ⟨_, -, _, room, done⟩
    refine routesCounted_modify counted found
      (counted.owned.emplace (leaves ▸ below)) ?_ ?_ done
    · intro id different
      rw [Table.countOf_emplace, none route id leaves different, Nat.add_zero]
    · rw [Table.countOf_emplace, one, ← counter, increment]
      omega
  case h_2 id old search =>
    have there : db.withdrawRoutes.find? id = some old :=
      Table.find?_of_findBy search
    have test := Table.passed_of_findBy search
    have passed : old.fromAccount = route.fromAccount ∧
        old.toAccount = route.toAccount := of_decide_eq_true test
    have starts : old.fromAccount = owner.id := passed.1.trans leaves
    have single : Table.one (leavesFrom owner.id) old = 1 :=
      if_pos (decide_eq_true starts)
    split at done
    case isTrue =>
      have removed := Table.countOf_remove (leavesFrom owner.id) there
      rw [single, ← counter] at removed
      refine routesCounted_modify counted found (counted.owned.remove id) ?_ ?_
        done
      · intro other different
        have same := Table.countOf_remove (leavesFrom other) there
        rw [none old other starts different, Nat.add_zero] at same
        exact same
      · rw [decrement]
        omega
    case isFalse =>
      cases done
      have same : ∀ other, (db.withdrawRoutes.set id route).countOf
          (leavesFrom other) =
            db.withdrawRoutes.countOf (leavesFrom other) := by
        intro other
        have moved := Table.countOf_set (leavesFrom other) there route
        have equal : Table.one (leavesFrom other) old =
            Table.one (leavesFrom other) route := by
          rw [Table.one, Table.one, leavesFrom, leavesFrom, passed.1]
        omega
      constructor
      case ids => exact counted.ids
      case owned => exact counted.owned.set (leaves ▸ below) id
      case counted =>
        intro other place count given again
        dsimp only
        rw [same place]
        exact counted.counted other place count given again

/-- The operation does not name the account with id zero. -/
def LeadsOn (db : Database) (op : SetWithdrawSavingsRouteOperation) : Prop :=
  ∀ account, db.accounts.find? op.toAccount = some account → account.id ≠ 0

theorem reached_writeRoute
    {route : WithdrawRouteObject}
    (reached : db.AllReached)
    (leads : route.toAccount ≠ 0)
    (done : db.writeRoute op owner route = .ok after) :
    after.AllReached := by
  unfold writeRoute at done
  split at done
  case h_1 =>
    simp only [bind_eq_ok_iff] at done
    rcases done with ⟨_, -, _, -, done⟩
    rcases accounts_of_modifyAccount done with ⟨accounts, rfl⟩
    exact Table.All.emplace reached leads
  case h_2 id old search =>
    split at done
    case isTrue =>
      rcases accounts_of_modifyAccount done with ⟨accounts, rfl⟩
      exact Table.All.remove reached id
    case isFalse =>
      cases done
      exact Table.All.set reached leads id

/-- The rules for routes which are kept whatever the destinations are. -/
structure RoutesKept (db : Database) : Prop where
  counted : db.RoutesCounted
  routed : db.Routed

theorem routesKept_setWithdrawSavingsRoute
    (valid : op.validate = .ok ())
    (done : db.setWithdrawSavingsRouteEvaluator op = .ok after)
    (kept : db.RoutesKept) :
    after.RoutesKept := by
  refine ⟨?_, routed_setWithdrawSavingsRoute valid done kept.routed⟩
  simp only [setWithdrawSavingsRouteEvaluator, bind_eq_ok_iff,
    pure_eq_ok_iff] at done
  rcases done with ⟨owner, got, _, -, written, write, _, -, rfl⟩
  exact routesCounted_writeRoute kept.counted (find_of_getAccount got) rfl write

theorem reached_setWithdrawSavingsRoute
    (leads : db.LeadsOn op)
    (done : db.setWithdrawSavingsRouteEvaluator op = .ok after)
    (reached : db.AllReached) :
    after.AllReached := by
  simp only [setWithdrawSavingsRouteEvaluator, bind_eq_ok_iff,
    pure_eq_ok_iff] at done
  rcases done with ⟨_, -, target, got, written, write, _, -, rfl⟩
  exact reached_writeRoute reached (leads target (find_of_getAccount got)) write

end Routes

/-! ## Runs -/

theorem RoutesKept.of_agrees
    {fields : List Field}
    {before after : Database}
    (kept : before.RoutesKept)
    (agrees : Agrees fields before after)
    (separate : apart routeParts fields = true) :
    after.RoutesKept :=
  ⟨kept.counted.of_agrees agrees separate,
    kept.routed.of_agrees agrees (apart_of_subset separate (by decide))⟩

theorem RoutesKept.of_opened
    {db after : Database}
    (kept : db.RoutesKept)
    (opens : OpensAccount db after name) :
    after.RoutesKept := by
  refine ⟨kept.counted.of_opened opens, ?_⟩
  rcases opens with ⟨paid, opened, row, -, pay, -, others, emit⟩
  exact ((kept.routed.of_agrees pay rfl).of_agrees others rfl).of_agrees emit
    rfl

theorem routesKept_genesis :
    initGenesis.RoutesKept := by
  constructor
  case counted =>
    constructor
    case ids => exact numbered_genesis
    case owned =>
      intro id route found
      cases found
    case counted =>
      intro name id count _ counter
      rcases Option.map_eq_some_iff.1 counter with ⟨account, found, rfl⟩
      have none := genesis_account (fun row => row.withdrawRoutes = 0)
        (by decide +kernel) found
      rw [none]
      exact ⟨rfl, Nat.zero_le _⟩
  case routed => exact initGenesis_savingsKept.routed

theorem routesKept_applyOperation
    {op : Operation}
    {db after : Database}
    (valid : op.validate ext = .ok ())
    (done : db.applyOperation ext op = .ok after)
    (kept : db.RoutesKept) :
    after.RoutesKept := by
  have agrees := touches_applyOperation ext db op after done
  cases op with
  | setWithdrawSavingsRoute op =>
      exact routesKept_setWithdrawSavingsRoute valid done kept
  | accountCreate op => exact kept.of_opened (opensAccountNow_accountCreate done).opens
  | accountCreateWithDelegation op =>
      exact kept.of_opened (opensAccountNow_accountCreateWithDelegation done).opens
  | _ => exact kept.of_agrees agrees rfl

/-- No operation makes a route to the account with id zero. -/
def AvoidsFirst (db : Database) : Operation → Prop
  | .setWithdrawSavingsRoute op => db.LeadsOn op
  | _ => True

theorem reached_applyOperation
    {op : Operation}
    {db after : Database}
    (avoids : db.AvoidsFirst op)
    (done : db.applyOperation ext op = .ok after)
    (reached : db.AllReached) :
    after.AllReached := by
  have agrees := touches_applyOperation ext db op after done
  cases op with
  | setWithdrawSavingsRoute op =>
      exact reached_setWithdrawSavingsRoute avoids done reached
  | _ => exact reached.of_agrees agrees rfl

theorem routes_runStep
    {header : BlockHeader}
    {which : BlockStep}
    {db after : Database}
    (done : db.runStep ext header which = .ok after)
    (kept : db.RoutesKept ∧ db.AllReached) :
    after.RoutesKept ∧ after.AllReached := by
  have agrees := touches_runStep ext header db which after done
  cases which <;>
    exact ⟨kept.1.of_agrees agrees rfl, kept.2.of_agrees agrees rfl⟩

end Database

open Database

/--
In all states which runs visit, also between the steps of a block, the routes
of an account come to all of a withdrawal at most, the account counts them, and
the payments consider each of them.
-/
theorem withdrawal_routes_hold
    {ext : External}
    {db : Database}
    (visited : Visited ext AvoidsFirst (fun _ _ _ => True) db) :
    db.RoutesHold := by
  have kept : db.RoutesKept ∧ db.AllReached := by
    refine visited.invariant (fun state => state.RoutesKept ∧ state.AllReached)
      ⟨routesKept_genesis, ?_⟩ ?_ ?_ ?_
    · intro id route found
      cases found
    · rintro state header after begun ⟨counted, reached⟩
      have agrees := touches_beginBlock state header after begun
      exact ⟨counted.of_agrees agrees rfl, reached.of_agrees agrees rfl⟩
    · rintro state op after avoids valid done ⟨counted, reached⟩
      exact ⟨routesKept_applyOperation valid done counted,
        reached_applyOperation avoids done reached⟩
    · exact fun _ _ _ _ _ done before => routes_runStep done before
  exact kept.1.counted.holds kept.1.routed kept.2

/-- A route from `devs`. -/
def sampleRoute (target : AccountName) (percent : Nat) : Operation :=
  .setWithdrawSavingsRoute
    { fromAccount := "devs"
      toAccount := target
      percent := percent
      autoVest := false }

/-- A route to `initminer` for all of a withdrawal. -/
theorem withdrawal_routes_hold_one_route :
    ∃ db,
      initGenesis.step plainExternal
          (.operation (sampleRoute initMinerName 10000)) = .ok db ∧
        db.RoutesHold := by
  have ran : ((require ((initGenesis.accounts.find? initMinerName).all
      fun account => account.id ≠ 0) "").bind fun _ =>
        initGenesis.step plainExternal
          (.operation (sampleRoute initMinerName 10000))).isOk = true := by
    decide +kernel
  rcases exists_of_isOk ran with ⟨db, done⟩
  rcases (bind_eq_ok_iff _ _ _).1 done with ⟨_, apart, routed⟩
  rcases (bind_eq_ok_iff _ _ _).1 routed with ⟨_, valid, applied⟩
  have visited : Visited plainExternal AvoidsFirst (fun _ _ _ => True) db := by
    refine .operation _ .genesis ?_ valid applied
    intro account found
    rw [require_eq_ok_iff] at apart
    have lookup : initGenesis.accounts.find? initMinerName = some account :=
      found
    simpa [lookup] using apart
  exact ⟨db, routed, withdrawal_routes_hold visited⟩

/--
With a route to `miners`, which has the id zero, an account gives away twice a
withdrawal, and this route is not considered.
-/
theorem withdrawal_routes_fail :
    ∃ db,
      [Event.operation (sampleRoute "miners" 10000),
          .operation (sampleRoute initMinerName 10000)].foldlM
            (Database.step plainExternal) initGenesis = .ok db ∧
        Reachable plainExternal db ∧
          ∃ account, db.accounts.find? "devs" = some account ∧
            ((db.allRoutes account.id).map fun entry =>
              entry.2.percent).sum = 2 * hundredPercent ∧
                (db.allRoutes account.id).length = 2 ∧
                  (db.routesFrom account.id).length = 1 := by
  have ran : ([Event.operation (sampleRoute "miners" 10000),
      .operation (sampleRoute initMinerName 10000)].foldlM
        (Database.step plainExternal) initGenesis).bind (fun db =>
          (db.getAccount "devs").bind fun account =>
            require
              (((db.allRoutes account.id).map fun entry =>
                entry.2.percent).sum = 2 * hundredPercent ∧
                  (db.allRoutes account.id).length = 2 ∧
                    (db.routesFrom account.id).length = 1) "") = .ok () := by
    decide +kernel
  rcases (bind_eq_ok_iff _ _ _).1 ran with ⟨db, done, rest⟩
  rcases (bind_eq_ok_iff _ _ _).1 rest with ⟨account, got, facts⟩
  refine ⟨db, done, ⟨none, RunState.of_foldlM .genesis ?_ done⟩, account,
    find_of_getAccount got, require_eq_ok_iff.1 facts⟩
  exact ⟨none, .operation _ none, none, .operation _ none, rfl⟩

end BMChain.State
