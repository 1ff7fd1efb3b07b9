import BMChain.State.FootprintBlock

/-!
# What an account holds

A quantity of an account by the account's name, which is zero for a name
nobody has.  Whatever changes an account or creates one then changes a
function on names in one place.
-/

namespace BMChain.State

open BMChain.Foundation BMChain.Protocol Std

variable {db after before : Database} {name : AccountName}
    {account : AccountObject}

namespace Database

/-- A quantity of the account with a name. -/
def held (quantity : AccountObject → Int) (db : Database)
    (name : AccountName) : Int :=
  ((db.accounts.find? name).map quantity).getD 0

theorem held_of_find
    {quantity : AccountObject → Int}
    (found : db.accounts.find? name = some account) :
    db.held quantity name = quantity account := by
  rw [held, found]
  rfl

theorem find_of_getAccount
    (got : db.getAccount name = .ok account) :
    db.accounts.find? name = some account :=
  orFault_eq_ok_iff.1 got

/-- The accounts after one of them is changed. -/
theorem find_modifyAccount
    {change : AccountObject → Except Fault AccountObject}
    (done : db.modifyAccount name change = .ok after) :
    ∃ account changed,
      db.accounts.find? name = some account ∧ change account = .ok changed ∧
        ∀ other, after.accounts.find? other =
          if name = other then some changed else db.accounts.find? other := by
  rw [modifyAccount_eq_ok_iff] at done
  rcases done with ⟨account, changed, found, change, rfl⟩
  refine ⟨account, changed, found, change, ?_⟩
  intro other
  rw [Register.find?, Register.set_rows found, getElem?_place]
  rfl

/-- A changed account holds more by what the change adds. -/
theorem held_modifyAccount
    {quantity : AccountObject → Int}
    {delta : Int}
    {change : AccountObject → Except Fault AccountObject}
    (done : db.modifyAccount name change = .ok after)
    (moved : ∀ account changed,
      db.accounts.find? name = some account → change account = .ok changed →
        quantity changed = quantity account + delta)
    (other : AccountName) :
    after.held quantity other =
      db.held quantity other + if name = other then delta else 0 := by
  rcases find_modifyAccount done with ⟨account, changed, found, change, rows⟩
  unfold held
  rw [rows other]
  split
  case isTrue same =>
    rw [← same, found]
    exact moved account changed found change
  case isFalse => exact (Int.add_zero _).symm

/-- A change which leaves a quantity alone changes nobody's. -/
theorem held_modifyAccount_same
    {quantity : AccountObject → Int}
    {change : AccountObject → Except Fault AccountObject}
    (done : db.modifyAccount name change = .ok after)
    (kept : ∀ account changed, change account = .ok changed →
      quantity changed = quantity account)
    (other : AccountName) :
    after.held quantity other = db.held quantity other := by
  have moved := held_modifyAccount done
    (fun account changed _ equal =>
      (kept account changed equal).trans (Int.add_zero _).symm) other
  rwa [ite_self, Int.add_zero] at moved

/-- The accounts after a new one is created. -/
theorem find_createNamed
    {row : Nat → AccountObject}
    (created : createNamed db.accounts name row = .ok after.accounts) :
    db.accounts.find? name = none ∧
      ∀ other, after.accounts.find? other =
        if name = other then some (row db.accounts.nextId)
        else db.accounts.find? other := by
  simp only [createNamed, bind_eq_ok_iff, pure_eq_ok_iff, require_eq_ok_iff,
    Option.isNone_iff_eq_none] at created
  rcases created with ⟨_, free, equal⟩
  refine ⟨free, ?_⟩
  intro other
  rw [← equal]
  exact getElem?_place db.accounts.rows name other (some _)

/-- A new account holds what it is created with. -/
theorem held_createNamed
    {quantity : AccountObject → Int}
    {row : Nat → AccountObject}
    (created : createNamed db.accounts name row = .ok after.accounts)
    (other : AccountName) :
    after.held quantity other =
      db.held quantity other +
        if name = other then quantity (row db.accounts.nextId) else 0 := by
  rcases find_createNamed created with ⟨free, rows⟩
  unfold held
  rw [rows other]
  split
  case isTrue same =>
    rw [← same, free]
    exact (Int.zero_add _).symm
  case isFalse => exact (Int.add_zero _).symm

/-- A quantity which is an aspect of its own stays where that is not touched. -/
theorem held_of_read_eq
    {aspect : AccountAspect}
    (same : Field.read (.account aspect) after =
      Field.read (.account aspect) before)
    (view : aspect.Carrier → Int)
    (name : AccountName) :
    after.held (fun account => view (aspect.read account)) name =
      before.held (fun account => view (aspect.read account)) name := by
  have row := congrArg (fun entry => (entry.map view).getD 0)
    (congrFun same name)
  simp only [Field.read, Option.map_map] at row
  exact row

theorem held_shares_of_agrees
    {fields : List Field}
    (agrees : Agrees fields before after)
    (outside : .account .shares ∉ fields)
    (name : AccountName) :
    after.held AccountObject.vestingShares name =
      before.held AccountObject.vestingShares name :=
  held_of_read_eq (agrees _ outside) (fun shares => shares) name

/-! ## Vesting shares -/

theorem held_createVesting
    {amount shares : Int}
    (done : db.createVesting name amount false = .ok (after, shares))
    (other : AccountName) :
    after.held AccountObject.vestingShares other =
      db.held AccountObject.vestingShares other +
        if name = other then shares else 0 := by
  simp only [createVesting, Bool.false_eq_true, if_false, bind_eq_ok_iff,
    pure_eq_ok_iff] at done
  rcases done with
    ⟨_, -, _, -, _, -, changed, change, _, -, _, -, voted, vote, equal⟩
  cases equal
  have tally := held_shares_of_agrees
    (touches_adjustProxiedVotesFrom _ _ _ _ _ vote) (by decide) other
  rw [tally]
  refine held_modifyAccount change ?_ other
  intro account changed _ equal
  simp only [bind_eq_ok_iff, pure_eq_ok_iff, checked_eq_ok_iff] at equal
  rcases equal with ⟨_, ⟨-, rfl⟩, rfl⟩
  rfl

/-- A claim of rewards turns shares to be claimed into owned ones. -/
theorem held_claimRewardBalance
    {op : ClaimRewardBalanceOperation}
    (done : db.claimRewardBalanceEvaluator op = .ok after)
    (other : AccountName) :
    after.held AccountObject.vestingShares other =
      db.held AccountObject.vestingShares other +
        if op.account = other then op.rewardVests.amount else 0 := by
  simp only [claimRewardBalanceEvaluator, bind_eq_ok_iff,
    Asset.inSymbol_eq_ok_iff] at done
  rcases done with ⟨_, -, _, -, _, -, _, ⟨-, rfl⟩, _, -, _, -, _, -, done⟩
  rcases done with ⟨taken, take, given, give, moved, move, done⟩
  rcases done with ⟨_, -, _, -, _, -, _, -, tallied⟩
  have tally := held_shares_of_agrees
    (touches_adjustProxiedVotesFrom _ _ _ _ _ tallied) (by decide) other
  have paid := held_shares_of_agrees
    (touches_adjustBalance taken _ _ given give) (by decide) other
  have debited := held_shares_of_agrees
    (touches_adjustRewardBalance db _ _ taken take) (by decide) other
  rw [tally, ← debited, ← paid]
  refine held_modifyAccount move ?_ other
  intro account changed _ equal
  simp only [bind_eq_ok_iff, pure_eq_ok_iff, checked_eq_ok_iff] at equal
  rcases equal with ⟨_, ⟨-, rfl⟩, _, -, _, -, rfl⟩
  rfl

end Database

end BMChain.State
