import BMChain.State.CurationRewards
import BMChain.State.SavingsWithdrawal
import BMChain.State.WitnessTally

/-!
# Withdrawals within what was asked for

The routes of an account take no more than the amount of a visit, and this
amount is no more than the savings.  It is no more than what is left of the
withdrawal either, except near its end: there the amount is the remainder of
the whole withdrawal by the rate, which is what is left only if full rates were
taken before.
-/

namespace BMChain.State

open BMChain.Foundation BMChain.Protocol

variable {withdrawal : Withdrawal} {db after before : Database}
    {fields : List Field} {name : AccountName} {ext : External}

variable {routes : List WithdrawRouteObject} {amount : Int}
    {op : SetWithdrawSavingsRouteOperation} {delta : Asset}

namespace Withdrawal

/-! ## Shares -/

/-- A withdrawal within what was asked for, and savings which are there. -/
structure Within (withdrawal : Withdrawal) : Prop where
  rated : 0 ≤ withdrawal.rate
  counted : 0 ≤ withdrawal.withdrawn
  asked : withdrawal.withdrawn ≤ withdrawal.wanted
  saved : 0 ≤ withdrawal.savings
  fits : FitsInt64 withdrawal.savings

/-- Nothing is asked for and nothing is saved. -/
theorem within_idle
    (id : Nat)
    (next : Time) :
    Within ⟨id, 0, 0, next, 0, 0⟩ :=
  ⟨Int.le_refl 0, Int.le_refl 0, Int.le_refl 0, Int.le_refl 0,
    (by decide : FitsInt64 0)⟩

theorem Within.amount_nonneg
    (within : withdrawal.Within) :
    0 ≤ withdrawal.amount := by
  unfold Withdrawal.amount
  split
  · apply le_min within.saved
    exact Int.tmod_nonneg _ (Int.le_trans within.counted within.asked)
  · exact le_min within.saved within.rated

theorem amount_le_savings
    (withdrawal : Withdrawal) :
    withdrawal.amount ≤ withdrawal.savings := by
  unfold Withdrawal.amount
  split
  · exact min_le_left _ _
  · exact min_le_left _ _

/-- What the shares of some routes come to. -/
theorem sum_shares_le
    (nonneg : 0 ≤ amount)
    (fits : FitsInt64 amount)
    (each : ∀ route ∈ routes, route.percent ≤ hundredPercent) :
    (shares routes amount).sum * hundredPercent ≤
      amount * (routes.map WithdrawRouteObject.percent).sum := by
  induction routes with
  | nil => simp [shares]
  | cons route rest induction =>
      have others := induction fun route member =>
        each route (List.mem_cons_of_mem _ member)
      rcases Database.scaled_share nonneg fits (each route List.mem_cons_self)
        (by decide) with ⟨part, deposit, -, share⟩
      have product : 0 ≤ amount * (route.percent : Int) :=
        Int.mul_nonneg nonneg (Int.natCast_nonneg _)
      rw [List.map_cons, List.sum_cons, Nat.cast_add, Int.mul_add,
        shares_cons]
      split
      case isTrue =>
        rw [List.sum_cons, Int.add_mul]
        apply Int.add_le_add ?_ others
        rw [Database.routeDeposit, deposit]
        exact share
      case isFalse => omega

/-- The routes take no more than the amount when their percents allow it. -/
theorem sum_shares_le_amount
    (nonneg : 0 ≤ amount)
    (fits : FitsInt64 amount)
    (routed : (routes.map WithdrawRouteObject.percent).sum ≤ hundredPercent) :
    (shares routes amount).sum ≤ amount := by
  have each : ∀ route ∈ routes, route.percent ≤ hundredPercent := by
    intro route member
    apply Nat.le_trans ?_ routed
    exact List.single_le_sum (fun _ _ => Nat.zero_le _) _
      (List.mem_map_of_mem member)
  have scaled := sum_shares_le nonneg fits each
  have whole : amount * ((routes.map WithdrawRouteObject.percent).sum : Int) ≤
      amount * (hundredPercent : Int) :=
    Int.mul_le_mul_of_nonneg_left (Int.ofNat_le.2 routed) nonneg
  exact Int.le_of_mul_le_mul_right (Int.le_trans scaled whole) (by decide)

/-! ## Visits -/

/--
Where less than a rate is left, as much is left as the remainder of the whole
withdrawal by the rate, or as the savings.
-/
def RemainderLeft (withdrawal : Withdrawal) : Prop :=
  withdrawal.wanted - withdrawal.withdrawn < withdrawal.rate →
    min withdrawal.savings (withdrawal.wanted.tmod withdrawal.rate) ≤
      withdrawal.wanted - withdrawal.withdrawn

/-- A share does not bring a withdrawal a rate below nothing. -/
theorem rate_foldl_pay
    (rated : 0 ≤ withdrawal.rate)
    (paid : List Int) :
    0 ≤ (paid.foldl pay withdrawal).rate := by
  induction paid generalizing withdrawal with
  | nil => exact rated
  | cons share rest induction =>
      apply induction
      unfold pay
      split
      · exact Int.le_refl 0
      · exact rated

/-- A visit keeps a withdrawal within what was asked for. -/
theorem Within.visit
    {routes : Nat → List WithdrawRouteObject}
    (within : withdrawal.Within)
    (routed : ((routes withdrawal.id).map WithdrawRouteObject.percent).sum ≤
      hundredPercent)
    (remains : withdrawal.RemainderLeft) :
    (withdrawal.visit routes).Within := by
  have nonneg := within.amount_nonneg
  have covered := withdrawal.amount_le_savings
  have fits : FitsInt64 withdrawal.amount := by
    have bounds := within.fits
    unfold FitsInt64 at bounds ⊢
    omega
  have taken : (withdrawal.drawn routes).sum ≤ withdrawal.amount :=
    sum_shares_le_amount nonneg fits routed
  have given : 0 ≤ (withdrawal.drawn routes).sum :=
    List.sum_nonneg fun share member =>
      Int.le_of_lt (pos_of_mem_shares member)
  have left : (withdrawal.drawn routes).sum ≤
      withdrawal.wanted - withdrawal.withdrawn := by
    by_cases ending :
        withdrawal.wanted - withdrawal.withdrawn < withdrawal.rate
    · have enough := remains ending
      rw [Withdrawal.amount, if_pos ending] at taken
      exact Int.le_trans taken enough
    · have least : withdrawal.amount ≤ withdrawal.rate := by
        rw [Withdrawal.amount, if_neg ending]
        exact min_le_right _ _
      omega
  rcases payAll (withdrawal.drawn routes) withdrawal with
    ⟨-, wanted, savings, withdrawn⟩
  have asked := within.asked
  have counted := within.counted
  have bounds := within.fits
  constructor
  case rated => exact rate_foldl_pay within.rated _
  case counted =>
    rw [Withdrawal.visit, withdrawn]
    omega
  case asked =>
    rw [Withdrawal.visit, withdrawn, wanted]
    omega
  case saved =>
    rw [Withdrawal.visit, savings]
    omega
  case fits =>
    rw [Withdrawal.visit, savings]
    unfold FitsInt64 at bounds ⊢
    omega

/-- A withdrawal after some visits, each of which was due. -/
inductive Stage (now : Time) (routes : Nat → List WithdrawRouteObject) :
    Withdrawal → Withdrawal → Prop
  | start (withdrawal : Withdrawal) : Stage now routes withdrawal withdrawal
  | visit {withdrawal later : Withdrawal} :
      withdrawal.next ≤ now →
        Stage now routes (withdrawal.visit routes) later →
          Stage now routes withdrawal later

/--
The remainder is left at each visit of a round, to the withdrawal as it is or
as earlier visits of the same round leave it.
-/
def EndsWithin (now : Time) (routes : Nat → List WithdrawRouteObject)
    (withdrawal : Withdrawal) : Prop :=
  ∀ later, Stage now routes withdrawal later → later.next ≤ now →
    later.RemainderLeft

/-- A walk keeps withdrawals within what was asked for. -/
theorem within_of_walk
    {now : Time}
    {routes : Nat → List WithdrawRouteObject}
    {current : Option AccountName}
    {rows final : AccountName → Option Withdrawal}
    {visits : List AccountName}
    (walk : Walk key (Database.dueAt now) (Withdrawal.visit routes) current
      rows visits final)
    (routed : ∀ account,
      ((routes account).map WithdrawRouteObject.percent).sum ≤ hundredPercent)
    (within : ∀ name row, rows name = some row → row.Within)
    (ends : ∀ name row, rows name = some row → row.EndsWithin now routes) :
    ∀ name row, final name = some row → row.Within := by
  have both := walk.invariant
    (fun row => row.Within ∧ row.EndsWithin now routes) ?_ ?_
  · exact fun name row found => (both name row found).1
  · rintro row due ⟨inside, ending⟩
    refine ⟨inside.visit (routed row.id) (ending row (.start row) due), ?_⟩
    intro later stage ready
    exact ending later (.visit due stage) ready
  · exact fun name row found => ⟨within name row found, ends name row found⟩

end Withdrawal

/-! ## Routes -/

namespace Database

/-- The percents which an account has given to its routes. -/
def routedPercent (db : Database) (account : Nat) : Int :=
  sumOf
    (fun route : WithdrawRouteObject =>
      if route.fromAccount = account ∧ 0 < route.toAccount then
        (route.percent : Int) else 0)
    db.withdrawRoutes.rows

/-- The routes of an account come to the percents it has given. -/
theorem sum_routesOf
    (db : Database)
    (account : Nat) :
    (((db.routesOf account).map WithdrawRouteObject.percent).sum : Int) =
      db.routedPercent account := by
  have sorted := List.perm_insertionSort
    (fun first second : Nat × WithdrawRouteObject =>
      first.2.toAccount ≤ second.2.toAccount)
    (db.withdrawRoutes.entries.filter fun entry =>
      entry.2.fromAccount = account ∧ 0 < entry.2.toAccount)
  unfold routesOf routesFrom routedPercent sumOf
  rw [List.map_map, (sorted.map _).sum_eq]
  show _ = (db.withdrawRoutes.entries.map _).sum
  generalize db.withdrawRoutes.entries = entries
  induction entries with
  | nil => rfl
  | cons entry rest induction =>
      rw [List.map_cons, List.sum_cons, ← induction, List.filter_cons]
      dsimp only
      by_cases own : entry.2.fromAccount = account ∧ 0 < entry.2.toAccount
      · rw [if_pos (decide_eq_true own), if_pos own]
        rfl
      · rw [if_neg (by simpa using own), if_neg own, Int.zero_add]

/-- The percents after the route of an operation is written. -/
theorem routedPercent_writeRoute
    {owner : AccountObject}
    {route : WithdrawRouteObject}
    (done : db.writeRoute op owner route = .ok after)
    (account : Nat) :
    after.routedPercent account ≤
      db.routedPercent account +
        if route.fromAccount = account then (route.percent : Int) else 0 := by
  have gain : (if route.fromAccount = account ∧ 0 < route.toAccount then
      (route.percent : Int) else 0) ≤
        if route.fromAccount = account then (route.percent : Int) else 0 := by
    split
    case isTrue own => rw [if_pos own.1]
    case isFalse =>
      split
      · exact Int.natCast_nonneg _
      · exact Int.le_refl 0
  unfold writeRoute at done
  split at done
  case h_1 fresh =>
    simp only [bind_eq_ok_iff] at done
    rcases done with ⟨_, -, _, -, done⟩
    rcases accounts_of_modifyAccount done with ⟨accounts, rfl⟩
    show sumOf _ (db.withdrawRoutes.emplace route).rows ≤ _
    rw [Table.sumOf_emplace]
    exact Int.add_le_add_left gain _
  case h_2 id old search =>
    have found := Table.find?_of_findBy search
    have nonneg : 0 ≤ (if old.fromAccount = account ∧ 0 < old.toAccount then
        (old.percent : Int) else 0) := by
      split
      · exact Int.natCast_nonneg _
      · exact Int.le_refl 0
    split at done
    case isTrue =>
      rcases accounts_of_modifyAccount done with ⟨accounts, rfl⟩
      show sumOf _ (db.withdrawRoutes.remove id).rows ≤ _
      rw [Table.sumOf_remove _ found]
      have more : 0 ≤ (if route.fromAccount = account then
          (route.percent : Int) else 0) := by
        split
        · exact Int.natCast_nonneg _
        · exact Int.le_refl 0
      exact Int.le_trans (Int.sub_le_self _ nonneg) (Int.le_add_of_nonneg_right more)
    case isFalse =>
      cases done
      show sumOf _ (db.withdrawRoutes.set id route).rows ≤ _
      rw [Table.sumOf_set _ found]
      exact Int.add_le_add (Int.sub_le_self _ nonneg) gain

/-- No account has routes for more than all of a withdrawal. -/
def Routed (db : Database) : Prop :=
  ∀ account, db.routedPercent account ≤ hundredPercent

/-- A route is only written when the routes do not come to more than all. -/
theorem routed_setWithdrawSavingsRoute
    (valid : op.validate = .ok ())
    (done : db.setWithdrawSavingsRouteEvaluator op = .ok after)
    (routed : db.Routed) :
    after.Routed := by
  simp only [SetWithdrawSavingsRouteOperation.validate, bind_eq_ok_iff,
    require_eq_ok_iff] at valid
  rcases valid with ⟨_, -, _, -, small⟩
  simp only [setWithdrawSavingsRouteEvaluator, bind_eq_ok_iff,
    require_eq_ok_iff] at done
  rcases done with ⟨owner, -, target, -, written, write, _, total, equal⟩
  cases equal
  intro account
  have bound := routedPercent_writeRoute write account
  have before := routed account
  by_cases own : owner.id = account
  · subst own
    rw [if_pos rfl] at bound
    rw [← sum_routesOf] at bound ⊢
    rw [routesOf, List.map_map] at bound ⊢
    rw [Function.comp_def] at bound ⊢
    have percent : op.percent ≤ 10000 := small
    have sum : routedPercent db owner.id ≤ 10000 := before
    have checked : ((after.routesFrom owner.id).map
        fun entry => entry.2.percent).sum % 2 ^ 16 ≤ 10000 := total
    show ((((after.routesFrom owner.id).map
      fun entry => entry.2.percent).sum : Nat) : Int) ≤ 10000
    revert bound checked
    generalize ((after.routesFrom owner.id).map
      fun entry => entry.2.percent).sum = whole
    intro bound checked
    dsimp only at bound
    omega
  · rw [if_neg own] at bound
    omega

/-! ## The invariant -/

/--
Accounts are filed, their withdrawals are within what was asked for, their
routes within a whole, and there are no requests from the time when savings
could be transferred.
-/
structure SavingsKept (db : Database) : Prop where
  named : ∀ name account, db.accounts.find? name = some account →
    account.name = name
  ids : Numbered db.accountIdOf db.accounts.nextId
  within : ∀ name withdrawal, db.withdrawals name = some withdrawal →
    withdrawal.Within
  routed : db.Routed
  unrequested : ∀ id, db.savingsWithdraws.find? id = none

theorem SavingsKept.filed
    (kept : db.SavingsKept) :
    db.AccountsFiled := by
  constructor
  case named => exact kept.named
  case single =>
    intro first second account other found again same
    apply kept.ids.single first second account.id (accountIdOf_of_find found)
    rw [same]
    exact accountIdOf_of_find again

/-- The parts of the state which the invariant is about. -/
def savingsParts : List Field :=
  [.account .identity, .accountIds, .account .savings, .account .withdrawal,
    .withdrawRoutes, .savingsWithdraws]

/-- Other withdrawals and routes within their bounds. -/
theorem SavingsKept.of_parts
    (kept : before.SavingsKept)
    (agrees : Agrees fields before after)
    (separate : apart [.account .identity, .accountIds, .savingsWithdraws]
      fields = true)
    (within : ∀ name withdrawal, after.withdrawals name = some withdrawal →
      withdrawal.Within)
    (routed : after.Routed) :
    after.SavingsKept := by
  have same := fun field member =>
    @Agrees.read_eq _ _ _ _ agrees separate field member
  have identity := same (.account .identity) (by decide)
  have next := same .accountIds (by decide)
  have requests := same .savingsWithdraws (by decide)
  simp only [Field.read] at next requests
  have filed := kept.filed.of_agrees agrees (by
    rw [apart, List.all_cons, Bool.and_eq_true] at separate ⊢
    exact ⟨separate.1, rfl⟩)
  constructor
  case named => exact filed.named
  case ids =>
    rw [accountIdOf_of_read_eq identity, next]
    exact kept.ids
  case within => exact within
  case routed => exact routed
  case unrequested =>
    rw [requests]
    exact kept.unrequested

theorem Routed.of_agrees
    (routed : before.Routed)
    (agrees : Agrees fields before after)
    (separate : apart [.withdrawRoutes] fields = true) :
    after.Routed := by
  have routes := @Agrees.read_eq _ _ _ _ agrees separate .withdrawRoutes
    (by decide)
  simp only [Field.read] at routes
  intro account
  rw [routedPercent, routes]
  exact routed account

theorem apart_of_subset
    {parts more fields : List Field}
    (separate : apart more fields = true)
    (included : parts ⊆ more) :
    apart parts fields = true :=
  List.all_eq_true.2 fun field member =>
    List.all_eq_true.1 separate field (included member)

/-- What touches none of these parts keeps the invariant. -/
theorem SavingsKept.of_agrees
    (kept : before.SavingsKept)
    (agrees : Agrees fields before after)
    (separate : apart savingsParts fields = true) :
    after.SavingsKept := by
  have part := fun parts => @apart_of_subset parts _ _ separate
  apply kept.of_parts agrees (part _ (by decide)) ?_
    (kept.routed.of_agrees agrees (part _ (by decide)))
  rw [withdrawals_of_agrees agrees (part _ (by decide))]
  exact kept.within

/-! ## Operations -/

/-- A change of the savings of an account. -/
theorem withdrawals_adjustSavings
    (done : db.adjustSavingsBalance name delta = .ok after) :
    ∃ withdrawal, db.withdrawals name = some withdrawal ∧
      FitsInt64 (withdrawal.savings + delta.amount) ∧
        after.withdrawals = Function.update db.withdrawals name
          (some { withdrawal with
            savings := withdrawal.savings + delta.amount }) := by
  rw [adjustSavingsBalance, modifyAccount_eq_ok_iff] at done
  rcases done with ⟨account, changed, found, change, rfl⟩
  simp only [bind_eq_ok_iff, checked_eq_ok_iff, pure_eq_ok_iff] at change
  rcases change with ⟨_, -, _, ⟨fits, rfl⟩, rfl⟩
  refine ⟨withdrawalOf account, withdrawals_of_find found, fits, ?_⟩
  funext other
  show ((db.accounts.set name _).find? other).map withdrawalOf = _
  rw [Register.find?_set found]
  by_cases same : name = other
  · subst same
    rw [if_pos rfl, Function.update_self]
    rfl
  · rw [if_neg same, Function.update_of_ne (Ne.symm same)]
    rfl

/-- Savings which stay there keep the invariant. -/
theorem SavingsKept.adjustSavings
    (kept : db.SavingsKept)
    (done : db.adjustSavingsBalance name delta = .ok after)
    (enough : ∀ withdrawal, db.withdrawals name = some withdrawal →
      0 ≤ withdrawal.savings + delta.amount) :
    after.SavingsKept := by
  rcases withdrawals_adjustSavings done with ⟨withdrawal, found, fits, moved⟩
  have agrees := touches_adjustSavingsBalance db _ _ after done
  apply kept.of_parts agrees (by decide) ?_
    (kept.routed.of_agrees agrees (by decide))
  intro other changed stored
  rw [moved] at stored
  by_cases same : other = name
  · subst same
    rw [Function.update_self, Option.some.injEq] at stored
    subst stored
    have within := kept.within other withdrawal found
    exact ⟨within.rated, within.counted, within.asked,
      enough withdrawal found, fits⟩
  · rw [Function.update_of_ne same] at stored
    exact kept.within other changed stored

/-- A deposit into savings adds to them. -/
theorem kept_transferToSavings
    {op : TransferToSavingsOperation}
    (valid : op.validate ext = .ok ())
    (done : db.transferToSavingsEvaluator op = .ok after)
    (kept : db.SavingsKept) :
    after.SavingsKept := by
  simp only [TransferToSavingsOperation.validate, bind_eq_ok_iff,
    require_eq_ok_iff] at valid
  rcases valid with ⟨_, -, _, -, _, positive, -⟩
  simp only [transferToSavingsEvaluator, bind_eq_ok_iff] at done
  rcases done with ⟨_, -, _, -, _, -, _, -, _, -, debited, debit, done⟩
  have before := kept.of_agrees
    (touches_adjustBalance db _ _ debited debit) (by decide)
  apply before.adjustSavings done
  intro withdrawal found
  exact Int.add_nonneg (before.within _ withdrawal found).saved
    (Int.le_of_lt positive)

/-- A change of one account which keeps its withdrawal within the request. -/
theorem within_of_modifyAccount
    {change : AccountObject → Except Fault AccountObject}
    (done : db.modifyAccount name change = .ok after)
    (within : ∀ other withdrawal, db.withdrawals other = some withdrawal →
      withdrawal.Within)
    (keeps : ∀ account changed, change account = .ok changed →
      (withdrawalOf account).Within → (withdrawalOf changed).Within) :
    ∀ other withdrawal, after.withdrawals other = some withdrawal →
      withdrawal.Within := by
  rw [modifyAccount_eq_ok_iff] at done
  rcases done with ⟨account, changed, found, change, rfl⟩
  intro other withdrawal stored
  rw [withdrawals, Register.find?_set found] at stored
  split at stored
  case isTrue =>
    cases stored
    exact keeps account changed change
      (within name _ (withdrawals_of_find found))
  case isFalse => exact within other withdrawal stored

/-- A request for an amount which is not negative starts anew. -/
theorem kept_withdrawSavings
    {op : WithdrawSavingsOperation}
    (done : db.withdrawSavingsEvaluator op = .ok after)
    (asked : 0 ≤ op.savings.amount)
    (kept : db.SavingsKept) :
    after.SavingsKept := by
  have agrees := touches_withdrawSavings op db after done
  apply kept.of_parts agrees (by decide) ?_
    (kept.routed.of_agrees agrees (by decide))
  simp only [withdrawSavingsEvaluator, bind_eq_ok_iff] at done
  rcases done with ⟨account, -, _, -, done⟩
  split at done
  case isTrue =>
    rw [bind_eq_ok_iff] at done
    rcases done with ⟨_, -, done⟩
    apply within_of_modifyAccount done kept.within
    intro account changed change within
    cases change
    exact ⟨Int.le_refl 0, Int.le_refl 0, Int.le_refl 0, within.saved,
      within.fits⟩
  case isFalse =>
    apply within_of_modifyAccount done kept.within
    intro account changed change within
    simp only [bind_eq_ok_iff, checkedDiv, checked_eq_ok_iff,
      pure_eq_ok_iff] at change
    rcases change with ⟨_, ⟨_, -, -, rfl⟩, _, -, rfl⟩
    have quotient : 0 ≤ op.savings.amount.tdiv savingsWithdrawIntervals :=
      Int.tdiv_nonneg asked (by decide)
    refine ⟨?_, Int.le_refl 0, asked, within.saved, within.fits⟩
    show 0 ≤ if op.savings.amount.tdiv savingsWithdrawIntervals = 0 then (1 : Int)
      else op.savings.amount.tdiv savingsWithdrawIntervals
    split
    · decide
    · exact quotient

/-- A new account withdraws nothing. -/
theorem SavingsKept.of_created
    {row : Nat → AccountObject}
    (kept : db.SavingsKept)
    (created : createNamed db.accounts name row = .ok after.accounts)
    (named : ∀ id, (row id).id = id ∧ (row id).name = name)
    (idle : ∀ id, (withdrawalOf (row id)).Within)
    (routes : after.withdrawRoutes = db.withdrawRoutes)
    (requests : after.savingsWithdraws = db.savingsWithdraws) :
    after.SavingsKept := by
  rcases find_createNamed created with ⟨free, rows⟩
  have next : after.accounts.nextId = db.accounts.nextId + 1 := by
    simp only [createNamed, bind_eq_ok_iff, pure_eq_ok_iff] at created
    rcases created with ⟨_, -, equal⟩
    rw [← equal]
    rfl
  constructor
  case named =>
    intro other account found
    rw [rows other] at found
    split at found
    case isTrue same =>
      cases found
      rw [(named _).2, same]
    case isFalse => exact kept.named other account found
  case ids =>
    rw [next]
    refine @Numbered.add _ _ _ name kept.ids ?_
    intro other
    rw [accountIdOf, rows other]
    split
    · rw [Option.map_some, (named _).1]
    · rfl
  case within =>
    intro other withdrawal found
    rw [withdrawals, rows other] at found
    split at found
    · cases found
      exact idle _
    · exact kept.within other withdrawal found
  case routed =>
    intro account
    rw [routedPercent, routes]
    exact kept.routed account
  case unrequested =>
    rw [requests]
    exact kept.unrequested

/-- A new account withdraws nothing. -/
theorem SavingsKept.opened
    (kept : db.SavingsKept)
    (opens : OpensAccount db after name) :
    after.SavingsKept := by
  rcases opens with ⟨paid, opened, row, fresh, before, created, made, rest⟩
  refine SavingsKept.of_agrees ?_ rest (by decide)
  refine (kept.of_agrees before (by decide)).of_created created ?_ ?_
    (made .withdrawRoutes (by decide)) (made .savingsWithdraws (by decide))
  · intro id
    rw [fresh id]
    exact ⟨rfl, rfl⟩
  · intro id
    rw [fresh id]
    exact Withdrawal.within_idle id maximumTime

/-- When an operation keeps withdrawals within what was asked for. -/
def AsksNonneg (_ : Database) : Operation → Prop
  | .withdrawSavings op => 0 ≤ op.savings.amount
  | _ => True

theorem savings_applyOperation
    {op : Operation}
    (asks : AsksNonneg db op)
    (valid : op.validate ext = .ok ())
    (done : db.applyOperation ext op = .ok after)
    (kept : db.SavingsKept) :
    after.SavingsKept := by
  have agrees := touches_applyOperation ext db op after done
  cases op with
  | withdrawSavings op => exact kept_withdrawSavings done asks kept
  | transferToSavings op => exact kept_transferToSavings valid done kept
  | setWithdrawSavingsRoute op =>
      have routed := routed_setWithdrawSavingsRoute valid done kept.routed
      apply kept.of_parts agrees rfl ?_ routed
      rw [withdrawals_of_agrees agrees rfl]
      exact kept.within
  | cancelTransferFromSavings op =>
      simp only [applyOperation, cancelTransferFromSavingsEvaluator,
        bind_eq_ok_iff, getSavingsWithdraw, orFault_eq_ok_iff] at done
      rcases done with ⟨request, search, -⟩
      have found := Table.find?_of_findBy search
      rw [kept.unrequested] at found
      cases found
  | accountCreate op => exact kept.opened (opensAccountNow_accountCreate done).opens
  | accountCreateWithDelegation op =>
      exact kept.opened (opensAccountNow_accountCreateWithDelegation done).opens
  | _ => exact kept.of_agrees agrees rfl

/-! ## Blocks -/

/-- The savings of the null account are taken as a whole. -/
theorem kept_burnSavings
    {total sum : Int}
    (done : db.burnSavings total = .ok (after, sum))
    (kept : db.SavingsKept) :
    after.SavingsKept := by
  simp only [burnSavings, bind_eq_ok_iff] at done
  rcases done with ⟨account, got, done⟩
  split at done
  case isTrue =>
    simp only [bind_eq_ok_iff] at done
    rcases done with ⟨_, -, taken, take, equal⟩
    cases equal
    apply kept.adjustSavings take
    intro withdrawal found
    rw [withdrawals_of_find (find_of_getAccount got), Option.some.injEq]
      at found
    subst found
    exact Int.le_of_eq (Int.add_right_neg account.savingsBalance).symm
  case isFalse =>
    cases done
    exact kept

theorem savings_clearNullAccountBalance
    (done : db.clearNullAccountBalance = .ok after)
    (kept : db.SavingsKept) :
    after.SavingsKept := by
  simp only [clearNullAccountBalance, bind_eq_ok_iff] at done
  rcases done with ⟨⟨first, _⟩, balance, ⟨second, total⟩, savings, done⟩
  rcases done with ⟨⟨burned, sum⟩, vesting, ⟨fourth, _⟩, reward, done⟩
  rcases done with ⟨⟨fifth, paid⟩, rewardVesting, done⟩
  have before := kept_burnSavings savings
    (kept.of_agrees (agrees_burnBalance balance) (by decide))
  have later := (before.of_agrees (agrees_burnVesting vesting)
    (by decide)).of_agrees (agrees_burnReward reward) (by decide)
  have last := later.of_agrees (agrees_burnRewardVesting rewardVesting)
    (by decide)
  split at done
  case isFalse =>
    cases done
    exact last
  case isTrue =>
    simp only [adjustSupply, bind_eq_ok_iff, pure_eq_ok_iff] at done
    rcases done with ⟨_, -, _, -, rfl⟩
    refine last.of_agrees (agrees_props fifth [.supply, .virtualSupply] ?_)
      (by decide)
    intro aspect outside
    cases aspect <;> simp [PropsAspect.read] at outside ⊢

/-- A growth of the supply is not rewarded with less than nothing. -/
def RewardsSigned (ext : External) : Prop :=
  ∀ growth savings total, 0 ≤ growth → 0 < savings → 0 < total →
    0 ≤ ext.savingReward growth savings total

/-- The supply has not fallen when a reward for savings is due. -/
def SupplyGrown (db : Database) : Prop :=
  db.headBlockNum % savingsRewardIntervalBlocks = 0 →
    db.props.lastCurrentSupply ≤ db.props.currentSupply

theorem kept_paySavingRewards
    {growth total : Int}
    {entries : List (AccountName × AccountObject)}
    {paid : Int}
    {final : Database × Int}
    (single : (entries.map Prod.fst).Nodup)
    (rows : ∀ entry ∈ entries,
      db.withdrawals entry.1 = some (withdrawalOf entry.2))
    (signed : RewardsSigned ext)
    (grown : 0 ≤ growth)
    (some : 0 < total)
    (ran : entries.foldlM (paySavingReward ext growth total) (db, paid) =
      .ok final)
    (kept : db.SavingsKept) :
    final.1.SavingsKept := by
  induction entries generalizing db paid with
  | nil =>
      cases ran
      exact kept
  | cons entry rest induction =>
      rw [List.foldlM_cons, bind_eq_ok_iff] at ran
      rcases ran with ⟨⟨middle, sum⟩, pay, ran⟩
      rw [List.map_cons, List.nodup_cons] at single
      unfold paySavingReward at pay
      split at pay
      case isFalse =>
        cases pay
        exact induction single.2
          (fun other member => rows other (List.mem_cons_of_mem _ member))
          ran kept
      case isTrue positive =>
        simp only [bind_eq_ok_iff] at pay
        rcases pay with ⟨saved, save, _, -, equal⟩
        cases equal
        have own := rows entry List.mem_cons_self
        apply induction single.2 ?_ ran
        · apply kept.adjustSavings save
          intro withdrawal found
          rw [own, Option.some.injEq] at found
          subst found
          exact Int.add_nonneg (Int.le_of_lt positive)
            (signed _ _ _ grown positive some)
        · intro other member
          rcases withdrawals_adjustSavings save with ⟨_, -, -, moved⟩
          have apart : other.1 ≠ entry.1 := by
            intro same
            exact single.1 (same ▸ List.mem_map_of_mem member)
          rw [moved, Function.update_of_ne apart]
          exact rows other (List.mem_cons_of_mem _ member)

theorem savings_processSavingsReward
    (signed : RewardsSigned ext)
    (grown : db.SupplyGrown)
    (done : db.processSavingsReward ext = .ok after)
    (kept : db.SavingsKept) :
    after.SavingsKept := by
  unfold processSavingsReward at done
  dsimp only at done
  split at done
  case isTrue =>
    cases done
    exact kept
  case isFalse due =>
    rw [not_or, not_not] at due
    simp only [bind_eq_ok_iff] at done
    rcases done with ⟨total, sum, done⟩
    split at done
    case isTrue =>
      cases done
      exact kept
    case isFalse some =>
      simp only [bind_eq_ok_iff, pure_eq_ok_iff] at done
      rcases done with ⟨⟨paid, rewards⟩, pay, _, -, _, -, rfl⟩
      have saved : paid.SavingsKept := by
        apply kept_paySavingRewards (Register.nodup_names _) ?_ signed
          (Int.sub_nonneg_of_le (grown due.1)) (Int.not_le.1 some) pay kept
        intro entry member
        exact withdrawals_of_find (Register.mem_entries_iff.1 member)
      refine saved.of_agrees (agrees_props paid
        [.supply, .virtualSupply, .lastSupply] ?_) (by decide)
      intro aspect outside
      cases aspect <;> simp [PropsAspect.read] at outside ⊢

/--
What the steps of a block need: the remainder of a withdrawal is left of it
where it is taken, and the supply has not fallen where savings are rewarded.
-/
def PaysWithin (_ : BlockHeader) (db : Database) :
    BlockStep → Prop
  | .processVestingWithdrawals =>
      ∀ name account, db.accounts.find? name = some account →
        (withdrawalOf account).EndsWithin db.headBlockTime db.routesOf
  | .processSavingsReward => db.SupplyGrown
  | _ => True

theorem savings_processVestingWithdrawals
    (ends : ∀ name account, db.accounts.find? name = some account →
      (withdrawalOf account).EndsWithin db.headBlockTime db.routesOf)
    (done : db.processVestingWithdrawals = .ok after)
    (kept : db.SavingsKept) :
    after.SavingsKept := by
  rcases walk_of_processVestingWithdrawals kept.filed done with
    ⟨visits, -, walk⟩
  have agrees : Agrees withdrawalFields db after :=
    touches_withdrawAlong _ _ db after done
  apply kept.of_parts agrees (by decide) ?_
    (kept.routed.of_agrees agrees (by decide))
  apply Withdrawal.within_of_walk walk ?_ kept.within ?_
  · intro account
    have routed := kept.routed account
    rw [← sum_routesOf] at routed
    exact Int.ofNat_le.1 routed
  · intro name withdrawal found
    rcases Option.map_eq_some_iff.1 found with ⟨account, stored, rfl⟩
    exact ends name account stored

theorem savings_runStep
    {header : BlockHeader}
    {step : BlockStep}
    (signed : RewardsSigned ext)
    (pays : PaysWithin header db step)
    (done : db.runStep ext header step = .ok after)
    (kept : db.SavingsKept) :
    after.SavingsKept := by
  have agrees := touches_runStep ext header db step after done
  cases step with
  | clearNullAccountBalance => exact savings_clearNullAccountBalance done kept
  | processVestingWithdrawals =>
      exact savings_processVestingWithdrawals pays done kept
  | processSavingsReward =>
      exact savings_processSavingsReward signed pays done kept
  | _ => exact kept.of_agrees agrees (by decide)

/-! ## Runs -/

theorem initGenesis_savingsKept :
    initGenesis.SavingsKept := by
  constructor
  case named => exact initGenesis_accountsFiled.named
  case ids => exact numbered_genesis
  case within =>
    intro name withdrawal found
    rcases Option.map_eq_some_iff.1 found with ⟨account, stored, rfl⟩
    have idle := genesis_account
      (fun row => row.savingsWithdrawRate = 0 ∧ row.withdrawn = 0 ∧
        row.toWithdraw = 0 ∧ row.savingsBalance = 0)
      (by decide +kernel) stored
    unfold withdrawalOf
    rw [idle.1, idle.2.1, idle.2.2.1, idle.2.2.2]
    exact Withdrawal.within_idle _ _
  case routed =>
    intro account
    show (0 : Int) ≤ 10000
    decide
  case unrequested => exact fun id => rfl

/--
In every run in which no negative amount is asked for, the remainder is left
where it is taken and the supply has not fallen where savings are rewarded,
every withdrawal is within what was asked for.
-/
theorem savings_within
    {ext : External}
    {block : Option BlockHeader}
    {db : Database}
    (signed : RewardsSigned ext)
    (run : RunState ext (EventMeets ext AsksNonneg PaysWithin) block db)
    {name : AccountName}
    {account : AccountObject}
    (found : db.accounts.find? name = some account) :
    0 ≤ account.withdrawn ∧ account.withdrawn ≤ account.toWithdraw ∧
      0 ≤ account.savingsBalance := by
  have kept := RunState.invariant SavingsKept initGenesis_savingsKept
    (fun before header after began start =>
      start.of_agrees (touches_beginBlock before header after began)
        (by decide))
    (fun _ _ _ asks valid done start =>
      savings_applyOperation asks valid done start)
    (fun _ _ _ _ pays done start => savings_runStep signed pays done start) run
  have within := kept.within name _ (withdrawals_of_find found)
  exact ⟨within.counted, within.asked, within.saved⟩

/-- A deposit into the savings of `devs` and a request to withdraw it. -/
def depositAndWithdraw (savings : Int) : List Event :=
  [.operation (.transferToSavings
      { fromAccount := initMinerName
        toAccount := "devs"
        amount := bmt 3000
        memo := [] }),
    .operation (.withdrawSavings
      { account := "devs", savings := bmt savings })]

theorem events_of_depositAndWithdraw
    {savings : Int}
    (ran : (depositAndWithdraw savings).foldlM (Database.step plainExternal)
      initGenesis = .ok db) :
    ∃ saved,
      initGenesis.step plainExternal (.operation (.transferToSavings
        { fromAccount := initMinerName
          toAccount := "devs"
          amount := bmt 3000
          memo := [] })) = .ok saved ∧
        saved.step plainExternal (.operation (.withdrawSavings
          { account := "devs", savings := bmt savings })) = .ok db := by
  rw [depositAndWithdraw, List.foldlM_cons, bind_eq_ok_iff] at ran
  rcases ran with ⟨saved, save, ran⟩
  rw [List.foldlM_cons, bind_eq_ok_iff] at ran
  rcases ran with ⟨asked, ask, same⟩
  cases same
  exact ⟨saved, save, ask⟩

/-- A deposit of 3000 which is withdrawn in parts of 100. -/
theorem savings_within_devs :
    ∃ db account,
      (depositAndWithdraw 3000).foldlM (Database.step plainExternal)
          initGenesis = .ok db ∧
        db.accounts.find? "devs" = some account ∧
          0 ≤ account.withdrawn ∧ account.withdrawn ≤ account.toWithdraw ∧
            0 ≤ account.savingsBalance := by
  have ready : (((depositAndWithdraw 3000).foldlM
      (Database.step plainExternal) initGenesis).bind fun db =>
        db.getAccount "devs").isOk = true := by
    decide +kernel
  rcases exists_of_isOk ready with ⟨account, done⟩
  rcases (bind_eq_ok_iff _ _ _).1 done with ⟨db, ran, got⟩
  have found := find_of_getAccount got
  refine ⟨db, account, ran, found, ?_⟩
  rcases events_of_depositAndWithdraw ran with ⟨saved, save, ask⟩
  have run : RunState plainExternal
      (EventMeets plainExternal AsksNonneg PaysWithin) none db :=
    .step (.operation (.withdrawSavings
      { account := "devs", savings := bmt 3000 }))
      (.step (.operation (.transferToSavings _)) .genesis (.operation _ _)
        trivial save)
      (.operation _ _) (by decide : (0 : Int) ≤ 3000) ask
  have signed : RewardsSigned plainExternal := by
    intro growth savings total grown positive some
    exact Int.tdiv_nonneg
      (Int.mul_nonneg grown (Int.le_of_lt positive))
      (Int.mul_nonneg (by decide) (Int.le_of_lt some))
  exact savings_within signed run found

/-- The operations on savings and withdrawals, and the blocks. -/
def SavingsEvent (_ : Database) : Event → Prop
  | .operation (.withdrawSavings _) => True
  | .operation (.setWithdrawSavingsRoute _) => True
  | .operation (.transferToSavings _) => True
  | .operation _ => False
  | _ => True

/-- A request for a negative amount counts more as withdrawn than it asks. -/
theorem negative_request_exceeds :
    ∃ db account, RunState plainExternal SavingsEvent none db ∧
      db.accounts.find? "devs" = some account ∧
        ¬ (0 ≤ account.withdrawn ∧ account.withdrawn ≤ account.toWithdraw ∧
          0 ≤ account.savingsBalance) := by
  have ready : (((depositAndWithdraw (-100)).foldlM
      (Database.step plainExternal) initGenesis).bind fun db => do
        let account ← db.getAccount "devs"
        require (account.toWithdraw < account.withdrawn) "within").isOk =
          true := by
    decide +kernel
  rcases exists_of_isOk ready with ⟨_, done⟩
  rcases (bind_eq_ok_iff _ _ _).1 done with ⟨db, ran, read⟩
  rcases (bind_eq_ok_iff _ _ _).1 read with ⟨account, got, excess⟩
  rw [require_eq_ok_iff] at excess
  refine ⟨db, account, ?_, find_of_getAccount got, fun bounds =>
    absurd bounds.2.1 (Int.not_le_of_gt excess)⟩
  rcases events_of_depositAndWithdraw ran with ⟨saved, save, ask⟩
  exact .step (.operation (.withdrawSavings _))
    (.step (.operation (.transferToSavings _)) .genesis (.operation _ _)
      trivial save) (.operation _ _) trivial ask

/-- Near its end a withdrawal of 309 with one route for a half takes 312. -/
example :
    ((⟨4, 1000, 10, 0, 309, 308⟩ : Withdrawal).visit
      fun _ => [⟨4, 3, 5000, false⟩]).withdrawn = 312 := by
  decide +kernel

end Database

end BMChain.State
