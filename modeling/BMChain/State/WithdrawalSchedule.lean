import BMChain.State.SavingsWithdrawal
import Mathlib.Data.Nat.ModEq

/-!
# The dates of withdrawals

A visit moves the date of a withdrawal once for every share it takes, so a
withdrawal keeps its schedule when exactly one share is taken, or when the
last share ends it.  A withdrawal which takes no share keeps its date and is
visited again in every block.
-/

namespace BMChain.State

open BMChain.Foundation BMChain.Protocol

variable {withdrawal : Withdrawal} {paid : List Int}

/-- `BMCHAIN_SAVINGS_WITHDRAW_INTERVAL_SECONDS`. -/
abbrev withdrawInterval : Nat :=
  Database.savingsWithdrawIntervalSeconds

namespace Withdrawal

/-! ## Dates -/

/-- Shares which end a withdrawal or leave nothing in the savings. -/
def Finished (withdrawal : Withdrawal) (paid : List Int) : Prop :=
  withdrawal.wanted ≤ withdrawal.withdrawn + paid.sum ∨
    withdrawal.savings = paid.sum

instance (withdrawal : Withdrawal) (paid : List Int) :
    Decidable (withdrawal.Finished paid) :=
  inferInstanceAs (Decidable (_ ∨ _))

theorem pay_next
    (withdrawal : Withdrawal)
    (share : Int) :
    (withdrawal.pay share).next =
      if withdrawal.Finished [share] then maximumTime
      else addSeconds withdrawal.next withdrawInterval := by
  have same : withdrawal.Finished [share] ↔
      withdrawal.wanted ≤ withdrawal.withdrawn + share ∨
        withdrawal.savings - share = 0 := by
    rw [Finished, List.sum_singleton, Int.sub_eq_zero]
  unfold pay
  split
  case isTrue finished => exact (if_pos (same.2 finished)).symm
  case isFalse unfinished =>
    exact (if_neg fun finished => unfinished (same.1 finished)).symm

/-- The last share decides whether a withdrawal ends. -/
theorem next_of_finished
    (some : paid ≠ [])
    (finished : withdrawal.Finished paid) :
    (paid.foldl pay withdrawal).next = maximumTime := by
  rcases List.eq_nil_or_concat paid with rfl | ⟨earlier, last, rfl⟩
  · exact absurd rfl some
  · rcases payAll earlier withdrawal with ⟨-, wanted, savings, withdrawn⟩
    rw [List.concat_eq_append, List.foldl_append, List.foldl_cons,
      List.foldl_nil, pay_next]
    apply if_pos
    rw [List.concat_eq_append, Finished, List.sum_append] at finished
    rw [Finished, wanted, savings, withdrawn]
    rcases finished with enough | empty
    · left
      omega
    · right
      omega

theorem sum_nonneg
    (positive : ∀ share ∈ paid, 0 < share) :
    0 ≤ paid.sum :=
  List.sum_nonneg fun share member => Int.le_of_lt (positive share member)

theorem sum_pos
    (positive : ∀ share ∈ paid, 0 < share)
    (some : paid ≠ []) :
    0 < paid.sum := by
  cases paid with
  | nil => exact absurd rfl some
  | cons share rest =>
      rw [List.sum_cons]
      exact Int.add_pos_of_pos_of_nonneg (positive share List.mem_cons_self)
        (sum_nonneg fun share member =>
          positive share (List.mem_cons_of_mem _ member))

/--
Shares which neither end a withdrawal nor leave nothing in the savings on the
way move the date by one interval each.
-/
theorem next_of_unfinished
    (positive : ∀ share ∈ paid, 0 < share)
    (wants : withdrawal.withdrawn + paid.sum < withdrawal.wanted)
    (keeps : ∀ part, part <+: paid → part ≠ [] →
      part.sum ≠ withdrawal.savings)
    (some : paid ≠ []) :
    (paid.foldl pay withdrawal).next =
      (withdrawal.next + paid.length * withdrawInterval) % 2 ^ 32 := by
  induction paid generalizing withdrawal with
  | nil => exact absurd rfl some
  | cons share rest induction =>
      have others : ∀ share ∈ rest, 0 < share := fun share member =>
        positive share (List.mem_cons_of_mem _ member)
      have nonneg := sum_nonneg others
      rw [List.sum_cons] at wants
      have unfinished : ¬ withdrawal.Finished [share] := by
        rintro (enough | empty)
        · rw [List.sum_singleton] at enough
          omega
        · exact keeps [share] (List.prefix_iff_eq_take.2 rfl)
            (List.cons_ne_nil _ _) empty.symm
      have first : (withdrawal.pay share).next =
          (withdrawal.next + withdrawInterval) % 2 ^ 32 := by
        rw [pay_next, if_neg unfinished, addSeconds]
      rw [List.foldl_cons]
      cases rest with
      | nil =>
          rw [List.foldl_nil, first, List.length_singleton, Nat.one_mul]
      | cons next rest =>
          rw [induction others ?_ ?_ (List.cons_ne_nil _ _), first,
            Nat.mod_add_mod, Nat.add_assoc, List.length_cons (a := share),
            Nat.succ_mul, Nat.add_comm withdrawInterval]
          · rw [pay_withdrawn, pay_wanted]
            omega
          · intro part initial filled
            rw [pay_savings]
            have sum := keeps (share :: part)
              (List.cons_prefix_cons.2 ⟨rfl, initial⟩) (List.cons_ne_nil _ _)
            rw [List.sum_cons] at sum
            omega

/-- Shares after the savings were empty move the date on from its end. -/
theorem next_of_emptied
    {part rest : List Int}
    (positive : ∀ share ∈ part ++ rest, 0 < share)
    (wants : withdrawal.withdrawn + (part ++ rest).sum < withdrawal.wanted)
    (spent : part ≠ [])
    (empty : part.sum = withdrawal.savings)
    (more : rest ≠ []) :
    ((part ++ rest).foldl pay withdrawal).next =
      (maximumTime + rest.length * withdrawInterval) % 2 ^ 32 := by
  rcases payAll part withdrawal with ⟨-, wanted, savings, withdrawn⟩
  have others : ∀ share ∈ rest, 0 < share := fun share member =>
    positive share (List.mem_append_right part member)
  rw [List.foldl_append, next_of_unfinished others ?_ ?_ more,
    next_of_finished spent (.inr empty.symm)]
  · rw [withdrawn, wanted]
    rw [List.sum_append] at wants
    omega
  · intro initial begins filled
    rw [savings, empty, Int.sub_self]
    apply Int.ne_of_gt
    apply sum_pos ?_ filled
    exact fun share member => others share (begins.subset member)

/-! ## Schedules -/

/--
Shares which move the date of a withdrawal to its end or one interval on.
Either they end the withdrawal or the savings; or the savings are never empty
and as many intervals as shares bring the date, in 32 bits, one interval on;
or the same holds of the shares after those which empty the savings.
-/
def OnSchedule (withdrawal : Withdrawal) (paid : List Int) : Prop :=
  withdrawal.Finished paid ∧ (paid = [] → withdrawal.next = maximumTime) ∨
  (∀ part, part <+: paid → part ≠ [] → part.sum ≠ withdrawal.savings) ∧
    (withdrawal.next + paid.length * withdrawInterval) % 2 ^ 32 =
      withdrawal.next + withdrawInterval ∨
  ∃ part rest, paid = part ++ rest ∧ part ≠ [] ∧ rest ≠ [] ∧
    part.sum = withdrawal.savings ∧
      (maximumTime + rest.length * withdrawInterval) % 2 ^ 32 =
        withdrawal.next + withdrawInterval

/-- The date which a withdrawal on schedule has next. -/
def nextDate (withdrawal : Withdrawal) (paid : List Int) : Time :=
  if withdrawal.Finished paid then maximumTime
  else withdrawal.next + withdrawInterval

/-- A withdrawal which is at its end, or due one interval later. -/
def Advanced (before after : Withdrawal) : Prop :=
  after.next = maximumTime ∧
      (after.wanted ≤ after.withdrawn ∨ after.savings = 0) ∨
    after.next = before.next + withdrawInterval

theorem finished_iff
    (withdrawal : Withdrawal)
    (paid : List Int) :
    withdrawal.Finished paid ↔
      (paid.foldl pay withdrawal).wanted ≤
          (paid.foldl pay withdrawal).withdrawn ∨
        (paid.foldl pay withdrawal).savings = 0 := by
  rcases payAll paid withdrawal with ⟨-, wanted, savings, withdrawn⟩
  rw [Finished, wanted, savings, withdrawn, Int.sub_eq_zero]

theorem interval_pos :
    0 < withdrawInterval := by
  decide

/-- A withdrawal advances exactly when its shares are on schedule. -/
theorem advanced_iff
    (positive : ∀ share ∈ paid, 0 < share) :
    Advanced withdrawal (paid.foldl pay withdrawal) ↔
      withdrawal.OnSchedule paid := by
  have later : withdrawal.next ≠ withdrawal.next + withdrawInterval :=
    Nat.ne_of_lt (Nat.lt_add_of_pos_right interval_pos)
  rw [Advanced, ← finished_iff]
  rcases List.eq_nil_or_concat paid with rfl | ⟨earlier, last, whole⟩
  · rw [List.foldl_nil]
    constructor
    case mp =>
      rintro (⟨ends, finished⟩ | moved)
      · exact .inl ⟨finished, fun _ => ends⟩
      · exact absurd moved later
    case mpr =>
      rintro (⟨finished, ends⟩ | ⟨-, moved⟩ | ⟨part, rest, split, spent, -⟩)
      · exact .inl ⟨ends rfl, finished⟩
      · rw [List.length_nil, Nat.zero_mul, Nat.add_zero] at moved
        have bound := Nat.mod_le withdrawal.next (2 ^ 32)
        rw [moved] at bound
        exact absurd bound
          (Nat.not_le_of_lt (Nat.lt_add_of_pos_right interval_pos))
      · exact absurd (List.append_eq_nil_iff.1 split.symm).1 spent
  · have filled : paid ≠ [] := by
      rw [whole, List.concat_eq_append]
      exact List.append_ne_nil_of_right_ne_nil _ (List.cons_ne_nil _ _)
    by_cases finished : withdrawal.Finished paid
    · have ends := next_of_finished filled finished
      exact iff_of_true (.inl ⟨ends, finished⟩)
        (.inl ⟨finished, fun empty => absurd empty filled⟩)
    · have wants : withdrawal.withdrawn + paid.sum < withdrawal.wanted := by
        rw [Finished, not_or] at finished
        exact Int.lt_of_not_ge finished.1
      constructor
      case mp =>
        rintro (⟨-, ends⟩ | moved)
        · exact absurd ends finished
        · by_cases keeps : ∀ part, part <+: paid → part ≠ [] →
              part.sum ≠ withdrawal.savings
          · rw [next_of_unfinished positive wants keeps filled] at moved
            exact .inr (.inl ⟨keeps, moved⟩)
          · simp only [not_forall, not_not] at keeps
            rcases keeps with ⟨part, ⟨rest, rfl⟩, spent, empty⟩
            have more : rest ≠ [] := by
              rintro rfl
              rw [List.append_nil] at finished
              exact finished (.inr empty.symm)
            rw [next_of_emptied positive wants spent empty more] at moved
            exact .inr (.inr ⟨part, rest, rfl, spent, more, empty, moved⟩)
      case mpr =>
        rintro (⟨ends, -⟩ | ⟨keeps, moved⟩ |
          ⟨part, rest, rfl, spent, more, empty, moved⟩)
        · exact absurd ends finished
        · rw [next_of_unfinished positive wants keeps filled]
          exact .inr moved
        · rw [next_of_emptied positive wants spent empty more]
          exact .inr moved

/-- The date after a visit which advances a withdrawal. -/
theorem next_of_advanced
    (advanced : Advanced withdrawal (paid.foldl pay withdrawal)) :
    (paid.foldl pay withdrawal).next = withdrawal.nextDate paid := by
  rw [Advanced, ← finished_iff] at advanced
  unfold nextDate
  split
  case isTrue finished =>
    rcases advanced with ⟨ends, -⟩ | moved
    · exact ends
    · by_cases filled : paid = []
      · subst filled
        exact absurd moved
          (Nat.ne_of_lt (Nat.lt_add_of_pos_right interval_pos))
      · exact next_of_finished filled finished
  case isFalse unfinished =>
    rcases advanced with ⟨-, ends⟩ | moved
    · exact absurd ends unfinished
    · exact moved

/-- A few intervals bring a date one interval on when there is one of them. -/
theorem intervals_eq_one
    {date count : Nat}
    (few : count ≤ 10) :
    (date + count * withdrawInterval) % 2 ^ 32 = date + withdrawInterval ↔
      count = 1 ∧ date + withdrawInterval < 2 ^ 32 := by
  have seconds : withdrawInterval = 604800 := by decide
  constructor
  case mp =>
    intro moved
    have bounded : date + withdrawInterval < 2 ^ 32 :=
      moved ▸ Nat.mod_lt _ (Nat.two_pow_pos 32)
    refine ⟨?_, bounded⟩
    cases count with
    | zero =>
        rw [Nat.zero_mul, Nat.add_zero] at moved
        have bound := Nat.mod_le date (2 ^ 32)
        omega
    | succ more =>
        have less : more * withdrawInterval < 2 ^ 32 := by
          rw [seconds]
          omega
        have alike : more * withdrawInterval + (date + withdrawInterval) ≡
            date + withdrawInterval [MOD 2 ^ 32] := by
          show _ % _ = (date + withdrawInterval) % 2 ^ 32
          rw [Nat.mod_eq_of_lt bounded, Nat.add_left_comm, ← Nat.succ_mul,
            moved]
        have none := Nat.eq_zero_of_dvd_of_lt
          (Nat.add_modEq_right_iff.1 alike) less
        have zero := (Nat.mul_eq_zero.1 none).resolve_right
          (Nat.ne_of_gt interval_pos)
        rw [zero]
  case mpr =>
    rintro ⟨rfl, bounded⟩
    rw [Nat.one_mul, Nat.mod_eq_of_lt bounded]

/--
With at most ten shares, which do not exceed the savings together, a
withdrawal is on schedule when the shares end it or one share is taken.
-/
theorem onSchedule_iff_of_few
    (positive : ∀ share ∈ paid, 0 < share)
    (few : paid.length ≤ 10)
    (covered : paid.sum ≤ withdrawal.savings) :
    withdrawal.OnSchedule paid ↔
      withdrawal.Finished paid ∧ (paid = [] → withdrawal.next = maximumTime) ∨
        withdrawal.savings ≠ paid.sum ∧ paid.length = 1 ∧
          withdrawal.next + withdrawInterval < 2 ^ 32 := by
  constructor
  case mp =>
    rintro (ends | ⟨keeps, moved⟩ | ⟨part, rest, rfl, -, more, empty, -⟩)
    · exact .inl ends
    · have single := (intervals_eq_one few).1 moved
      right
      refine ⟨fun empty => ?_, single⟩
      apply keeps paid (List.prefix_refl paid) ?_ empty.symm
      rintro rfl
      exact absurd single.1 (by decide)
    · have left := sum_pos (fun share member =>
        positive share (List.mem_append_right part member)) more
      rw [List.sum_append, empty] at covered
      omega
  case mpr =>
    rintro (ends | ⟨keeps, single⟩)
    · exact .inl ends
    · refine .inr (.inl ⟨?_, (intervals_eq_one few).2 single⟩)
      intro part initial filled empty
      have whole : part = paid := by
        apply initial.eq_of_length_le
        rw [single.1]
        exact List.length_pos_iff.2 filled
      rw [whole] at empty
      exact keeps empty.symm

end Withdrawal

/-! ## One interval per withdrawal -/

namespace Database

/--
A round visits an account once and leaves its withdrawal at its end, or due
exactly one interval after its date before.
-/
structure OneInterval (db after : Database) (name : AccountName)
    (account : AccountObject) : Prop where
  visited : ∃ visits, db.vestingWithdrawalVisits = .ok visits ∧
    visits.count name = 1
  dated : ∃ left, after.accounts.find? name = some left ∧
    (left.nextSavingsWithdrawal = maximumTime ∧
        (left.toWithdraw ≤ left.withdrawn ∨ left.savingsBalance = 0) ∨
      left.nextSavingsWithdrawal =
        account.nextSavingsWithdrawal + withdrawInterval)

/--
The shares of an account are on schedule; and when the next date of its
withdrawal is due as well, no other account is due between the two dates.
-/
structure KeepsSchedule (db : Database) (account : AccountObject) : Prop where
  dated : (withdrawalOf account).OnSchedule
    ((withdrawalOf account).drawn db.routesOf)
  clear : (withdrawalOf account).nextDate
      ((withdrawalOf account).drawn db.routesOf) ≤ db.headBlockTime →
    ∀ name other, db.accounts.find? name = some other →
      ¬ ((withdrawalOf account).key < (withdrawalOf other).key ∧
        (withdrawalOf other).key < toLex
          ((withdrawalOf account).nextDate
            ((withdrawalOf account).drawn db.routesOf), account.id))

/-- The place of a withdrawal after a visit which advances it. -/
theorem key_of_advanced
    {db : Database}
    {account : AccountObject}
    (advanced : (withdrawalOf account).Advanced
      ((withdrawalOf account).visit db.routesOf)) :
    ((withdrawalOf account).visit db.routesOf).key = toLex
      ((withdrawalOf account).nextDate
        ((withdrawalOf account).drawn db.routesOf), account.id) := by
  have date := Withdrawal.next_of_advanced advanced
  unfold Withdrawal.key
  rw [Withdrawal.visit_id, Withdrawal.visit, date]
  rfl

theorem same_id
    (first second : Withdrawal)
    (same : first.key = second.key) :
    first.id = second.id :=
  congrArg (fun key => (ofLex key).2) same

/--
A round gives every due account one interval exactly when the shares of every
due account are on schedule and keep it from being due twice.
-/
theorem one_interval_iff
    {db after : Database}
    (filed : db.AccountsFiled)
    (ran : db.processVestingWithdrawals = .ok after) :
    (∀ name account, db.accounts.find? name = some account →
      account.nextSavingsWithdrawal ≤ db.headBlockTime →
        db.OneInterval after name account) ↔
    ∀ name account, db.accounts.find? name = some account →
      account.nextSavingsWithdrawal ≤ db.headBlockTime →
        db.KeepsSchedule account := by
  rcases walk_of_processVestingWithdrawals filed ran with
    ⟨visits, traced, walk⟩
  have once := walk.once_iff same_id
    (Withdrawal.visit_id db.routesOf)
    (fun first second => dueAt.early) (leads_withdrawals filed) filed.tagged
    Withdrawal.Advanced
  have positive : ∀ withdrawal : Withdrawal,
      ∀ share ∈ withdrawal.drawn db.routesOf, 0 < share :=
    fun _ _ member => Withdrawal.pos_of_mem_shares member
  constructor
  case mp =>
    intro met
    have meets := once.1 ?_
    · intro name account found due
      have kept := meets name _ (withdrawals_of_find found) due
      have dated := (Withdrawal.advanced_iff (positive _)).1 kept.1
      refine ⟨dated, fun soon other row stored between => ?_⟩
      have place := key_of_advanced kept.1
      refine kept.2 ?_ other _ (withdrawals_of_find stored) ?_
      · rw [place]
        exact soon
      · rw [place]
        exact between
    · intro name withdrawal found due
      rcases Option.map_eq_some_iff.1 found with ⟨account, stored, rfl⟩
      rcases met name account stored due with
        ⟨⟨listed, traces, single⟩, left, still, dated⟩
      rw [traced] at traces
      cases traces
      exact ⟨single, withdrawalOf left, withdrawals_of_find still, dated⟩
  case mpr =>
    intro meets
    have met := once.2 ?_
    · intro name account found due
      rcases met name _ (withdrawals_of_find found) due with
        ⟨single, withdrawal, left, dated⟩
      rcases Option.map_eq_some_iff.1 left with ⟨row, stored, rfl⟩
      exact ⟨⟨visits, traced, single⟩, row, stored, dated⟩
    · intro name withdrawal found due
      rcases Option.map_eq_some_iff.1 found with ⟨account, stored, rfl⟩
      rcases meets name account stored due with ⟨dated, clear⟩
      have advanced := (Withdrawal.advanced_iff (positive _)).2 dated
      have place := key_of_advanced advanced
      refine ⟨advanced, fun soon other row stored between => ?_⟩
      rcases Option.map_eq_some_iff.1 stored with ⟨next, kept, rfl⟩
      rw [place] at soon between
      exact clear soon other next kept between

/-! ## Routes at genesis -/

/-- A withdrawal of 3000 from savings which is due at genesis. -/
def startWithdrawal (account : AccountObject) : AccountObject :=
  { account with
    savingsBalance := 3000
    savingsWithdrawRate := 100
    nextSavingsWithdrawal := genesisTime
    toWithdraw := 3000 }

/-- Genesis with this withdrawal for `devs`, and with some routes. -/
def withdrawing (routes : List WithdrawRouteObject) : Database :=
  { initGenesis with
    accounts := registerOf AccountObject.name
      (genesisAccounts.map fun account =>
        if account.name = "devs" then startWithdrawal account else account)
    withdrawRoutes := routes.foldl Table.emplace .empty }

/-- The date of the withdrawal of `devs` after a round. -/
def dateAfterRound (routes : List WithdrawRouteObject) :
    Except Fault (Option Time) := do
  let after ← (withdrawing routes).processVestingWithdrawals
  pure ((after.accounts.find? "devs").map AccountObject.nextSavingsWithdrawal)

/-- A round with the given routes does not move `devs` by one interval. -/
def MissesInterval (routes : List WithdrawRouteObject) : Prop :=
  ∃ after, (withdrawing routes).processVestingWithdrawals = .ok after ∧
    ∃ account, (withdrawing routes).accounts.find? "devs" = some account ∧
      account.nextSavingsWithdrawal ≤ (withdrawing routes).headBlockTime ∧
        ¬ (withdrawing routes).OneInterval after "devs" account

/-- A round which brings another date breaks the interval of `devs`. -/
theorem not_oneInterval_of_date
    {routes : List WithdrawRouteObject}
    {date : Time}
    (dated : dateAfterRound routes = .ok (some date))
    (unfinished : date ≠ maximumTime)
    (other : date ≠ genesisTime + withdrawInterval) :
    MissesInterval routes := by
  rw [dateAfterRound, bind_eq_ok_iff] at dated
  rcases dated with ⟨after, ran, read⟩
  rw [pure_eq_ok_iff, Option.map_eq_some_iff] at read
  rcases read with ⟨row, stored, rfl⟩
  have start : ((withdrawing routes).accounts.find? "devs").map
      AccountObject.nextSavingsWithdrawal = some genesisTime := by
    show ((withdrawing []).accounts.find? "devs").map _ = _
    decide +kernel
  rcases Option.map_eq_some_iff.1 start with ⟨account, found, next⟩
  refine ⟨after, ran, account, found, Nat.le_of_eq next, ?_⟩
  rintro ⟨-, left, still, ends | moved⟩
  · rw [stored, Option.some.injEq] at still
    exact unfinished (still ▸ ends.1)
  · rw [stored, Option.some.injEq] at still
    rw [next] at moved
    exact other (still ▸ moved)

/--
Without a route an account stays due, and with two routes its date moves by
two intervals.
-/
theorem one_interval_fails :
    MissesInterval [] ∧
      MissesInterval [⟨4, 1, 5000, false⟩, ⟨4, 3, 5000, false⟩] := by
  constructor
  · have dated : dateAfterRound [] = .ok (some genesisTime) := by
      decide +kernel
    exact not_oneInterval_of_date dated (by decide) (by decide)
  · have dated : dateAfterRound
        [⟨4, 1, 5000, false⟩, ⟨4, 3, 5000, false⟩] =
          .ok (some (genesisTime + 2 * withdrawInterval)) := by
      decide +kernel
    exact not_oneInterval_of_date dated (by decide) (by decide)

theorem withdrawing_accountsFiled
    (routes : List WithdrawRouteObject) :
    (withdrawing routes).AccountsFiled := by
  have filed : (withdrawing []).AccountsFiled := by
    apply accountsFiled_of_entries
    · decide +kernel
    · decide +kernel
  have agrees : Agrees [.withdrawRoutes] (withdrawing [])
      (withdrawing routes) := by
    intro field outside
    cases field <;> first | rfl | exact absurd (by decide) outside
  exact filed.of_agrees agrees rfl

/-- With one route for the whole amount every due account keeps its interval. -/
theorem one_interval_iff_routed :
    ∃ after,
      (withdrawing [⟨4, 3, 10000, false⟩]).processVestingWithdrawals =
          .ok after ∧
        ∀ name account,
          (withdrawing [⟨4, 3, 10000, false⟩]).accounts.find? name =
              some account →
            account.nextSavingsWithdrawal ≤
                (withdrawing [⟨4, 3, 10000, false⟩]).headBlockTime →
              (withdrawing [⟨4, 3, 10000, false⟩]).OneInterval after name
                account := by
  generalize same : withdrawing [⟨4, 3, 10000, false⟩] = db
  have ready : db.processVestingWithdrawals.isOk = true := by
    subst same
    decide +kernel
  rcases exists_of_isOk ready with ⟨after, ran⟩
  refine ⟨after, ran, (one_interval_iff ?_ ran).2 ?_⟩
  · subst same
    exact withdrawing_accountsFiled _
  intro name account found due
  have checked : ∀ entry ∈ db.accounts.entries,
      entry.2.nextSavingsWithdrawal ≤ db.headBlockTime →
        ((withdrawalOf entry.2).drawn db.routesOf).length = 1 ∧
          ((withdrawalOf entry.2).drawn db.routesOf).sum <
            (withdrawalOf entry.2).savings ∧
          (withdrawalOf entry.2).next + withdrawInterval < 2 ^ 32 ∧
          db.headBlockTime < (withdrawalOf entry.2).nextDate
            ((withdrawalOf entry.2).drawn db.routesOf) := by
    subst same
    decide +kernel
  rcases checked (name, account) (Register.mem_entries_iff.2 found) due with
    ⟨single, less, fits, late⟩
  constructor
  case dated =>
    apply (Withdrawal.onSchedule_iff_of_few
      (fun _ member => Withdrawal.pos_of_mem_shares member)
      (Nat.le_trans (Nat.le_of_eq single) (by decide))
      (Int.le_of_lt less)).2
    exact .inr ⟨Int.ne_of_gt less, single, fits⟩
  case clear =>
    intro soon
    exact absurd soon (Nat.not_le_of_lt late)

end Database

end BMChain.State
