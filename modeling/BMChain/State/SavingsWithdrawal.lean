import Mathlib.Data.Prod.Lex
import BMChain.Foundation.OrderedWalk
import BMChain.State.FootprintBlock
import BMChain.State.Run

/-!
# Withdrawals from savings as a walk

What `process_vesting_withdrawals` does to the withdrawal of an account depends
on that withdrawal and on the routes of the account only.  A round is
therefore a walk along the withdrawals by their dates, in which a visit takes
one share after another for the routes.
-/

namespace BMChain.State

open BMChain.Foundation BMChain.Protocol

variable {db after before : Database} {name : AccountName}
    {account : AccountObject}

/-! ## Withdrawals -/

/-- What a withdrawal reads and writes of an account. -/
structure Withdrawal where
  id : Nat
  savings : Int
  rate : Int
  next : Time
  /-- `to_withdraw`. -/
  wanted : Int
  withdrawn : Int

/-- The withdrawal of an account. -/
def withdrawalOf (account : AccountObject) : Withdrawal :=
  ⟨account.id, account.savingsBalance, account.savingsWithdrawRate,
    account.nextSavingsWithdrawal, account.toWithdraw, account.withdrawn⟩

namespace Withdrawal

/-- The place in `by_next_savings_withdrawal`. -/
def key (withdrawal : Withdrawal) : Time ×ₗ Nat :=
  toLex (withdrawal.next, withdrawal.id)

/-- The amount which a visit divides among the routes. -/
def amount (withdrawal : Withdrawal) : Int :=
  if withdrawal.wanted - withdrawal.withdrawn < withdrawal.rate then
    min withdrawal.savings (withdrawal.wanted.tmod withdrawal.rate)
  else min withdrawal.savings withdrawal.rate

/-- Take one share. -/
def pay (withdrawal : Withdrawal) (share : Int) : Withdrawal :=
  if withdrawal.wanted ≤ withdrawal.withdrawn + share ∨
      withdrawal.savings - share = 0 then
    { withdrawal with
      savings := withdrawal.savings - share
      withdrawn := withdrawal.withdrawn + share
      rate := 0
      next := maximumTime }
  else
    { withdrawal with
      savings := withdrawal.savings - share
      withdrawn := withdrawal.withdrawn + share
      next := addSeconds withdrawal.next
        Database.savingsWithdrawIntervalSeconds }

/-- The shares of an amount for the routes; a share of nothing is not paid. -/
def shares (routes : List WithdrawRouteObject) (amount : Int) : List Int :=
  ((routes.filter fun route => !route.autoVest).map fun route =>
    Database.routeDeposit amount route.percent).filter (0 < ·)

/-- The shares which a visit takes for the routes. -/
def drawn (routes : Nat → List WithdrawRouteObject)
    (withdrawal : Withdrawal) : List Int :=
  shares (routes withdrawal.id) withdrawal.amount

/-- A visit. -/
def visit (routes : Nat → List WithdrawRouteObject)
    (withdrawal : Withdrawal) : Withdrawal :=
  (withdrawal.drawn routes).foldl pay withdrawal

theorem shares_cons
    (route : WithdrawRouteObject)
    (routes : List WithdrawRouteObject)
    (amount : Int) :
    shares (route :: routes) amount =
      if !route.autoVest ∧ 0 < Database.routeDeposit amount route.percent then
        Database.routeDeposit amount route.percent :: shares routes amount
      else shares routes amount := by
  unfold shares
  cases vest : route.autoVest with
  | true => simp [vest]
  | false =>
      by_cases positive : 0 < Database.routeDeposit amount route.percent
      · simp [vest, positive]
      · simp [vest, positive]

theorem pos_of_mem_shares
    {routes : List WithdrawRouteObject}
    {amount share : Int}
    (member : share ∈ shares routes amount) :
    0 < share :=
  of_decide_eq_true (List.mem_filter.1 member).2

@[simp]
theorem pay_id
    (withdrawal : Withdrawal)
    (share : Int) :
    (withdrawal.pay share).id = withdrawal.id := by
  unfold pay
  split <;> rfl

@[simp]
theorem pay_wanted
    (withdrawal : Withdrawal)
    (share : Int) :
    (withdrawal.pay share).wanted = withdrawal.wanted := by
  unfold pay
  split <;> rfl

@[simp]
theorem pay_savings
    (withdrawal : Withdrawal)
    (share : Int) :
    (withdrawal.pay share).savings = withdrawal.savings - share := by
  unfold pay
  split <;> rfl

@[simp]
theorem pay_withdrawn
    (withdrawal : Withdrawal)
    (share : Int) :
    (withdrawal.pay share).withdrawn = withdrawal.withdrawn + share := by
  unfold pay
  split <;> rfl

/-- What a list of shares takes from the savings is counted as withdrawn. -/
theorem payAll
    (paid : List Int)
    (withdrawal : Withdrawal) :
    (paid.foldl pay withdrawal).id = withdrawal.id ∧
      (paid.foldl pay withdrawal).wanted = withdrawal.wanted ∧
      (paid.foldl pay withdrawal).savings = withdrawal.savings - paid.sum ∧
      (paid.foldl pay withdrawal).withdrawn =
        withdrawal.withdrawn + paid.sum := by
  induction paid generalizing withdrawal with
  | nil => simp
  | cons share rest induction =>
      rcases induction (withdrawal.pay share) with
        ⟨id, wanted, savings, withdrawn⟩
      rw [List.foldl_cons, id, wanted, savings, withdrawn, List.sum_cons,
        pay_id, pay_wanted, pay_savings, pay_withdrawn]
      refine ⟨rfl, rfl, ?_, ?_⟩
      · omega
      · omega

@[simp]
theorem visit_id
    (routes : Nat → List WithdrawRouteObject)
    (withdrawal : Withdrawal) :
    (withdrawal.visit routes).id = withdrawal.id :=
  (payAll (withdrawal.drawn routes) withdrawal).1

end Withdrawal

/-! ## The withdrawals of a state -/

namespace Database

/-- The withdrawals by the names of the accounts. -/
def withdrawals (db : Database) : AccountName → Option Withdrawal :=
  fun name => (db.accounts.find? name).map withdrawalOf

/-- The routes of an account which `process_vesting_withdrawals` reads. -/
def routesOf (db : Database) (account : Nat) : List WithdrawRouteObject :=
  (db.routesFrom account).map Prod.snd

/-- Accounts are filed under their names, and no two have the same id. -/
structure AccountsFiled (db : Database) : Prop where
  named : ∀ name account, db.accounts.find? name = some account →
    account.name = name
  single : ∀ first second account other,
    db.accounts.find? first = some account →
      db.accounts.find? second = some other → account.id = other.id →
        first = second

theorem withdrawals_of_find
    (found : db.accounts.find? name = some account) :
    db.withdrawals name = some (withdrawalOf account) := by
  rw [withdrawals, found]
  rfl

/-- A state with the same accounts as far as withdrawals go. -/
theorem withdrawals_of_agrees
    {fields : List Field}
    (agrees : Agrees fields before after)
    (separate : apart [.account .identity, .account .savings,
      .account .withdrawal] fields = true) :
    after.withdrawals = before.withdrawals := by
  funext name
  have identity := congrFun
    (@Agrees.read_eq _ _ _ _ agrees separate (.account .identity) (by decide)) name
  have savings := congrFun
    (@Agrees.read_eq _ _ _ _ agrees separate (.account .savings) (by decide)) name
  have withdrawal := congrFun
    (@Agrees.read_eq _ _ _ _ agrees separate (.account .withdrawal) (by decide)) name
  simp only [Field.read] at identity savings withdrawal
  unfold withdrawals
  cases old : before.accounts.find? name with
  | none =>
      rw [old] at identity
      cases new : after.accounts.find? name with
      | none => rfl
      | some changed =>
          rw [new] at identity
          cases identity
  | some account =>
      rw [old] at identity savings withdrawal
      cases new : after.accounts.find? name with
      | none =>
          rw [new] at identity
          cases identity
      | some changed =>
          rw [new] at identity savings withdrawal
          simp only [Option.map_some, Option.some.injEq, AccountAspect.read,
            Prod.mk.injEq] at identity savings withdrawal
          simp only [Option.map_some, withdrawalOf, identity.1, savings,
            withdrawal.1, withdrawal.2.1, withdrawal.2.2.1, withdrawal.2.2.2]

/-- A state with the same accounts by name and id. -/
theorem AccountsFiled.of_agrees
    {fields : List Field}
    (filed : before.AccountsFiled)
    (agrees : Agrees fields before after)
    (separate : apart [.account .identity] fields = true) :
    after.AccountsFiled := by
  have origin : ∀ name changed, after.accounts.find? name = some changed →
      ∃ account, before.accounts.find? name = some account ∧
        changed.id = account.id ∧ changed.name = account.name := by
    intro name changed found
    have identity := congrFun
      (@Agrees.read_eq _ _ _ _ agrees separate (.account .identity) (by decide)) name
    simp only [Field.read] at identity
    rw [found] at identity
    cases old : before.accounts.find? name with
    | none =>
        rw [old] at identity
        cases identity
    | some account =>
        rw [old] at identity
        simp only [Option.map_some, Option.some.injEq, AccountAspect.read,
          Prod.mk.injEq] at identity
        exact ⟨account, rfl, identity.1, identity.2⟩
  constructor
  case named =>
    intro name changed found
    rcases origin name changed found with ⟨account, old, -, same⟩
    rw [same, filed.named name account old]
  case single =>
    intro first second changed other found again same
    rcases origin first changed found with ⟨account, old, id, -⟩
    rcases origin second other again with ⟨older, before, id', -⟩
    exact filed.single first second account older old before
      (id ▸ id' ▸ same)

/-- A list of the accounts shows that they are filed. -/
theorem accountsFiled_of_entries
    (named : ∀ entry ∈ db.accounts.entries, entry.2.name = entry.1)
    (single : (db.accounts.entries.map fun entry => entry.2.id).Nodup) :
    db.AccountsFiled := by
  constructor
  case named =>
    intro name account found
    exact named (name, account) (Register.mem_entries_iff.2 found)
  case single =>
    intro first second account other found again same
    have listed := Register.mem_entries_iff.2 found
    have also := Register.mem_entries_iff.2 again
    exact congrArg Prod.fst
      (List.inj_on_of_nodup_map single listed also same)

theorem initGenesis_accountsFiled :
    initGenesis.AccountsFiled := by
  apply accountsFiled_of_entries
  · decide +kernel
  · decide +kernel

theorem AccountsFiled.tagged
    (filed : db.AccountsFiled) :
    Tagged Withdrawal.id db.withdrawals := by
  intro first second withdrawal other found again same
  rcases Option.map_eq_some_iff.1 found with ⟨account, stored, rfl⟩
  rcases Option.map_eq_some_iff.1 again with ⟨older, kept, rfl⟩
  exact filed.single first second account older stored kept same

/-! ## Visits -/

/-- A change of an account which leaves its withdrawal alone. -/
theorem withdrawals_addBalance
    {amount : Int}
    (done : db.addBalance name amount = .ok after) :
    after.withdrawals = db.withdrawals :=
  withdrawals_of_agrees (touches_addBalance db name amount after done) rfl

/-- A counted share is taken from the withdrawal. -/
theorem withdrawals_countWithdrawal
    {withdrawal : Withdrawal}
    {share : Int}
    (found : db.withdrawals name = some withdrawal)
    (done : db.modifyAccount name (countWithdrawal share) = .ok after) :
    after.withdrawals =
      Function.update db.withdrawals name (some (withdrawal.pay share)) := by
  rw [modifyAccount_eq_ok_iff] at done
  rcases done with ⟨account, changed, stored, change, rfl⟩
  rw [withdrawals_of_find stored, Option.some.injEq] at found
  subst found
  have paid : withdrawalOf changed = (withdrawalOf account).pay share := by
    simp only [countWithdrawal, bind_eq_ok_iff, checked_eq_ok_iff] at change
    rcases change with ⟨_, ⟨-, rfl⟩, _, ⟨-, rfl⟩, change⟩
    unfold Withdrawal.pay
    split at change
    case isTrue finished =>
      cases change
      exact (if_pos finished).symm
    case isFalse unfinished =>
      cases change
      exact (if_neg unfinished).symm
  funext other
  show ((db.accounts.set name changed).find? other).map withdrawalOf = _
  rw [Register.find?_set stored]
  by_cases same : name = other
  · subst same
    rw [if_pos rfl, Function.update_self, Option.map_some, paid]
  · rw [if_neg same, Function.update_of_ne (Ne.symm same)]
    rfl

/-- A payment on a route takes its share. -/
theorem withdrawals_payRoute
    {withdrawal : Withdrawal}
    {amount : Int}
    {route : Nat × WithdrawRouteObject}
    (found : db.withdrawals name = some withdrawal)
    (done : payRoute name amount db route = .ok after) :
    after.withdrawals = Function.update db.withdrawals name
      (some ((Withdrawal.shares [route.2] amount).foldl Withdrawal.pay
        withdrawal)) := by
  have same : Function.update db.withdrawals name (some withdrawal) =
      db.withdrawals := by
    rw [← found, Function.update_eq_self]
  rw [Withdrawal.shares_cons]
  unfold payRoute at done
  split at done
  case isTrue vest =>
    cases done
    rw [if_neg (by simp [vest])]
    exact same.symm
  case isFalse liquid =>
    rw [bind_eq_ok_iff] at done
    rcases done with ⟨target, -, done⟩
    dsimp only at done
    split at done
    case isTrue positive =>
      rw [bind_eq_ok_iff] at done
      rcases done with ⟨credited, credit, done⟩
      rw [if_pos ⟨by simpa using liquid, positive⟩]
      have kept := withdrawals_addBalance credit
      rw [withdrawals_countWithdrawal (by rw [kept, found]) done, kept]
      rfl
    case isFalse nothing =>
      cases done
      rw [if_neg fun both => nothing both.2]
      exact same.symm

/-- A visit takes the shares of all routes. -/
theorem withdrawals_payRoutes
    {routes : List (Nat × WithdrawRouteObject)}
    {withdrawal : Withdrawal}
    {amount : Int}
    (found : db.withdrawals name = some withdrawal)
    (done : routes.foldlM (payRoute name amount) db = .ok after) :
    after.withdrawals = Function.update db.withdrawals name
      (some ((Withdrawal.shares (routes.map Prod.snd) amount).foldl
        Withdrawal.pay withdrawal)) := by
  induction routes generalizing db withdrawal with
  | nil =>
      cases done
      show _ = Function.update after.withdrawals name (some withdrawal)
      rw [← found, Function.update_eq_self]
  | cons route rest induction =>
      rw [List.foldlM_cons, bind_eq_ok_iff] at done
      rcases done with ⟨middle, paid, done⟩
      have first := withdrawals_payRoute found paid
      rw [induction (by rw [first, Function.update_self]) done, first,
        Function.update_idem, List.map_cons]
      have split : Withdrawal.shares (route.2 :: rest.map Prod.snd) amount =
          Withdrawal.shares [route.2] amount ++
            Withdrawal.shares (rest.map Prod.snd) amount := by
        rw [Withdrawal.shares_cons, Withdrawal.shares_cons]
        split <;> rfl
      rw [split, List.foldl_append]

/-- The amount which a visit reads is that of the withdrawal. -/
theorem amountToWithdraw_eq
    {amount : Int}
    (read : amountToWithdraw account = .ok amount) :
    amount = (withdrawalOf account).amount := by
  simp only [amountToWithdraw, bind_eq_ok_iff, checked_eq_ok_iff] at read
  rcases read with ⟨left, ⟨-, rfl⟩, read⟩
  unfold Withdrawal.amount
  split at read
  case isTrue less =>
    simp only [checkedMod, bind_eq_ok_iff, pure_eq_ok_iff] at read
    rcases read with ⟨rest, ⟨_, -, _, -, rfl⟩, rfl⟩
    exact (if_pos less).symm
  case isFalse enough =>
    cases read
    exact (if_neg enough).symm

/-- The withdrawals after a visit. -/
theorem withdrawals_withdrawFrom
    (found : db.accounts.find? name = some account)
    (done : db.withdrawFrom name account = .ok after) :
    after.withdrawals = Function.update db.withdrawals name
      (some ((withdrawalOf account).visit db.routesOf)) := by
  rw [withdrawFrom, bind_eq_ok_iff] at done
  rcases done with ⟨amount, read, done⟩
  rw [amountToWithdraw_eq read] at done
  exact withdrawals_payRoutes (withdrawals_of_find found) done

/-! ## The walk -/

/-- The accounts which `withdrawAlong` visits, one after the other. -/
def visitsAlong : Nat → Option AccountObject → Database →
    Except Fault (List AccountName)
  | _, none, _ => .ok []
  | 0, some _, _ => .error "endless"
  | rounds + 1, some account, db =>
      if account.nextSavingsWithdrawal ≤ db.headBlockTime then do
        let following := (db.nextByWithdrawal account).map AccountObject.name
        let db ← db.withdrawFrom account.name account
        let visits ← visitsAlong rounds (following.bind db.accounts.find?) db
        pure (account.name :: visits)
      else .ok []

/-- The accounts which `process_vesting_withdrawals` visits. -/
def vestingWithdrawalVisits (db : Database) :
    Except Fault (List AccountName) :=
  visitsAlong (db.accounts.size * 2 ^ 32)
    (firstBy beforeByWithdrawal (db.accounts.entries.map Prod.snd)) db

/-- A place in the index which comes no later than the head of the chain. -/
def dueAt (now : Time) (key : Time ×ₗ Nat) : Prop :=
  (ofLex key).1 ≤ now

theorem dueAt.early
    {now : Time}
    {first second : Time ×ₗ Nat}
    (due : dueAt now second)
    (before : first ≤ second) :
    dueAt now first := by
  rw [Prod.Lex.le_iff] at before
  rcases before with less | ⟨same, -⟩
  · exact Nat.le_trans (Nat.le_of_lt less) due
  · exact Nat.le_trans (Nat.le_of_eq same) due

theorem beforeByWithdrawal_iff
    {first second : AccountObject} :
    beforeByWithdrawal first second = true ↔
      (withdrawalOf first).key < (withdrawalOf second).key := by
  unfold beforeByWithdrawal Withdrawal.key
  rw [Prod.Lex.toLex_lt_toLex, Bool.or_eq_true, Bool.and_eq_true,
    decide_eq_true_eq, decide_eq_true_eq, decide_eq_true_eq]
  rfl

/-- The first account of some in the index has the least place. -/
theorem first_by_withdrawal
    {accounts : List AccountObject}
    {least : AccountObject}
    (first : firstBy beforeByWithdrawal accounts = some least) :
    ∀ account ∈ accounts,
      (withdrawalOf least).key ≤ (withdrawalOf account).key := by
  apply firstBy_least (fun account => (withdrawalOf account).key) ?_ ?_ first
  · intro account other earlier
    exact le_of_lt (beforeByWithdrawal_iff.1 earlier)
  · intro account other later
    rw [← not_lt, ← beforeByWithdrawal_iff, later]
    decide

/-- The accounts of a state as a list are those which are found by name. -/
theorem mem_accounts_iff
    {account : AccountObject} :
    account ∈ db.accounts.entries.map Prod.snd ↔
      ∃ name, db.accounts.find? name = some account := by
  rw [List.mem_map]
  constructor
  · rintro ⟨⟨name, row⟩, listed, rfl⟩
    exact ⟨name, Register.mem_entries_iff.1 listed⟩
  · rintro ⟨name, found⟩
    exact ⟨(name, account), Register.mem_entries_iff.2 found, rfl⟩

/-- The loop starts at the first place of the index. -/
theorem leads_withdrawals
    (filed : db.AccountsFiled) :
    Leads Withdrawal.key db.withdrawals
      ((firstBy beforeByWithdrawal (db.accounts.entries.map Prod.snd)).map
        AccountObject.name) := by
  cases first : firstBy beforeByWithdrawal
      (db.accounts.entries.map Prod.snd) with
  | none =>
      intro name
      have empty := eq_nil_of_firstBy first
      cases found : db.accounts.find? name with
      | none =>
          unfold withdrawals
          rw [found]
          rfl
      | some account =>
          have listed := mem_accounts_iff.2 ⟨name, found⟩
          rw [empty] at listed
          cases listed
  | some account =>
      rcases mem_accounts_iff.1 (mem_of_firstBy first) with ⟨name, found⟩
      rw [← filed.named name account found] at found
      refine ⟨withdrawalOf account, withdrawals_of_find found, ?_⟩
      intro other row stored
      rcases Option.map_eq_some_iff.1 stored with ⟨next, kept, rfl⟩
      exact first_by_withdrawal first next (mem_accounts_iff.2 ⟨other, kept⟩)

/-- The loop moves on to the place which follows. -/
theorem follows_withdrawals
    (filed : db.AccountsFiled)
    (current : AccountObject) :
    Follows Withdrawal.key db.withdrawals (withdrawalOf current).key
      ((db.nextByWithdrawal current).map AccountObject.name) := by
  cases next : db.nextByWithdrawal current with
  | none =>
      intro name row stored
      rcases Option.map_eq_some_iff.1 stored with ⟨account, found, rfl⟩
      rw [← not_lt, ← beforeByWithdrawal_iff]
      intro after
      have listed : account ∈ (db.accounts.entries.map Prod.snd).filter
          fun account => beforeByWithdrawal current account :=
        List.mem_filter.2 ⟨mem_accounts_iff.2 ⟨name, found⟩, after⟩
      rw [eq_nil_of_firstBy next] at listed
      cases listed
  | some account =>
      have listed := List.mem_filter.1 (mem_of_firstBy next)
      rcases mem_accounts_iff.1 listed.1 with ⟨name, found⟩
      rw [← filed.named name account found] at found
      refine ⟨withdrawalOf account, withdrawals_of_find found,
        beforeByWithdrawal_iff.1 listed.2, ?_⟩
      intro other row stored after
      rcases Option.map_eq_some_iff.1 stored with ⟨later, kept, rfl⟩
      apply first_by_withdrawal next later
      exact List.mem_filter.2
        ⟨mem_accounts_iff.2 ⟨other, kept⟩, beforeByWithdrawal_iff.2 after⟩

theorem touches_withdrawFrom
    (db : Database)
    (name : AccountName)
    (account : AccountObject) :
    Touches withdrawalFields db (db.withdrawFrom name account) := by
  unfold withdrawFrom
  refine .read fun amount _ => ?_
  exact .foldlM _ fun state route => touches_payRoute _ amount state route

/-- A state which differs in balances, savings and withdrawals only. -/
theorem kept_of_withdrawalFields
    (filed : before.AccountsFiled)
    (agrees : Agrees withdrawalFields before after) :
    after.AccountsFiled ∧ after.headBlockTime = before.headBlockTime ∧
      after.routesOf = before.routesOf := by
  have head := agrees (.props .head) (by decide)
  have routes := agrees .withdrawRoutes (by decide)
  simp only [Field.read, PropsAspect.read, Prod.mk.injEq] at head routes
  refine ⟨filed.of_agrees agrees rfl, head.2.2.1, ?_⟩
  unfold routesOf routesFrom
  rw [routes]

/-- The loop of `process_vesting_withdrawals` is a walk. -/
theorem walk_of_withdrawAlong
    {rounds : Nat}
    {current : Option AccountObject}
    (filed : db.AccountsFiled)
    (stands : ∀ account, current = some account →
      db.accounts.find? account.name = some account)
    (ran : withdrawAlong rounds current db = .ok after) :
    ∃ visits, visitsAlong rounds current db = .ok visits ∧
      Walk Withdrawal.key (dueAt db.headBlockTime)
        (Withdrawal.visit db.routesOf) (current.map AccountObject.name)
        db.withdrawals visits after.withdrawals := by
  induction rounds generalizing current db with
  | zero =>
      cases current with
      | none =>
          cases ran
          exact ⟨[], rfl, .ended _⟩
      | some account => cases ran
  | succ rounds induction =>
      cases current with
      | none =>
          cases ran
          exact ⟨[], rfl, .ended _⟩
      | some account =>
          have found := stands account rfl
          unfold withdrawAlong at ran
          unfold visitsAlong
          split at ran
          case isFalse later =>
            cases ran
            rw [if_neg later]
            exact ⟨[], rfl, .later (withdrawals_of_find found) later⟩
          case isTrue due =>
            rw [if_pos due]
            dsimp only at ran ⊢
            rw [bind_eq_ok_iff] at ran
            rcases ran with ⟨middle, visited, ran⟩
            have agrees := touches_withdrawFrom db _ account middle visited
            rcases kept_of_withdrawalFields filed agrees with
              ⟨still, now, routes⟩
            have moved := withdrawals_withdrawFrom found visited
            have follows := follows_withdrawals filed account
            generalize next : (db.nextByWithdrawal account).map
              AccountObject.name = following at follows ran ⊢
            have present : ∀ name, following = some name →
                ∃ row, middle.accounts.find? name = some row ∧
                  row.name = name := by
              rintro name rfl
              rcases follows with ⟨row, listed, after, -⟩
              have apart : name ≠ account.name := by
                rintro rfl
                rw [withdrawals_of_find found, Option.some.injEq] at listed
                subst listed
                exact lt_irrefl _ after
              have kept : middle.withdrawals name = some row := by
                rw [moved, Function.update_of_ne apart, listed]
              rcases Option.map_eq_some_iff.1 kept with ⟨account, stored, -⟩
              exact ⟨account, stored, still.named name account stored⟩
            have named : (following.bind middle.accounts.find?).map
                AccountObject.name = following := by
              cases following with
              | none => rfl
              | some name =>
                  rcases present name rfl with ⟨row, stored, same⟩
                  rw [Option.bind_some, stored, Option.map_some, same]
            rcases induction still (by
                intro row chosen
                rcases Option.bind_eq_some_iff.1 chosen with
                  ⟨name, rfl, stored⟩
                rw [still.named name row stored]
                exact stored) ran with ⟨visits, traced, walk⟩
            refine ⟨account.name :: visits, ?_, ?_⟩
            · rw [visited, ok_bind, traced]
              rfl
            · rw [named, now, routes, moved] at walk
              exact .visit (withdrawals_of_find found) due follows walk

/-- `process_vesting_withdrawals` is a walk along all withdrawals. -/
theorem walk_of_processVestingWithdrawals
    (filed : db.AccountsFiled)
    (ran : db.processVestingWithdrawals = .ok after) :
    ∃ visits, db.vestingWithdrawalVisits = .ok visits ∧
      Walk Withdrawal.key (dueAt db.headBlockTime)
        (Withdrawal.visit db.routesOf)
        ((firstBy beforeByWithdrawal
          (db.accounts.entries.map Prod.snd)).map AccountObject.name)
        db.withdrawals visits after.withdrawals := by
  apply walk_of_withdrawAlong filed ?_ ran
  intro account first
  rcases mem_accounts_iff.1 (mem_of_firstBy first) with ⟨name, found⟩
  rw [filed.named name account found]
  exact found

end Database

end BMChain.State
