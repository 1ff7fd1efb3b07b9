import BMChain.State.WitnessVotes

/-!
# No tally exceeds the shares

The weights of the voters for one witness come from different shares, so as
long as no account owns a negative number of shares they do not exceed the
total, not even with a vote which is about to be given.
-/

namespace BMChain.State

open BMChain.Foundation BMChain.Protocol Std

variable {name : AccountName} {ext : External}

namespace Database

/-! ## The bound -/

/-- No shares are negative, and the total counts them all. -/
structure SharesBacked (db : Database) : Prop where
  nonneg : ∀ name, 0 ≤ db.held AccountObject.vestingShares name
  total : db.props.totalVestingShares =
    ∑ name ∈ db.names, db.held AccountObject.vestingShares name

/--
What the accounts carry is right for a forest whose roots include all voters.
-/
structure Carries (db : Database) (parent : AccountName → Option AccountName) :
    Prop where
  closed : Forest.Closed parent db.names
  carried : ∀ distance, distance < maxProxyRecursionDepth → ∀ name,
    db.proxied distance name =
      Forest.carried parent (db.held AccountObject.vestingShares) db.names
        (distance + 1) name
  rooted : ∀ name ∈ db.names, parent name ≠ none →
    ∀ witness, db.voteCount ((db.accountIdOf name).getD 0) witness = 0

theorem carries_of_kept
    {db : Database}
    (proxies : db.ProxiesKept)
    (voters : db.VotersKept) :
    db.Carries db.proxyOf :=
  ⟨proxies.closed, proxies.carried, fun _ listed proxied witness =>
    voters.rooted.voteCount_eq listed proxied witness⟩

theorem voteCount_nonneg
    (db : Database)
    (account witness : Nat) :
    0 ≤ db.voteCount account witness :=
  sumOf_nonneg fun _ _ _ => by split <;> decide

section Bound

variable {db : Database} {parent : AccountName → Option AccountName}

/-- The weight of a root is what it settles. -/
theorem Carries.weight_eq
    (carries : db.Carries parent)
    (listed : name ∈ db.names)
    (root : parent name = none) :
    db.weight name =
      Forest.settled parent (db.held AccountObject.vestingShares) db.names
        maxProxyRecursionDepth name := by
  rw [Forest.settled, if_pos root, Finset.sum_range_succ', weight,
    Forest.carried_zero listed, Int.add_comm]
  congr 1
  refine Finset.sum_congr rfl fun distance below => ?_
  exact carries.carried distance (Finset.mem_range.1 below) name

theorem Carries.weight_nonneg
    (carries : db.Carries parent)
    (backed : db.SharesBacked)
    (name : AccountName) :
    0 ≤ db.weight name := by
  refine Int.add_nonneg (backed.nonneg name) ?_
  refine Finset.sum_nonneg fun distance below => ?_
  rw [carries.carried distance (Finset.mem_range.1 below)]
  exact Forest.carried_nonneg backed.nonneg _ name

/-- A voter counts for one witness with no more than it settles. -/
theorem Carries.support_le
    (carries : db.Carries parent)
    (backed : db.SharesBacked)
    (voters : db.VotersKept)
    (witness : Nat)
    (listed : name ∈ db.names) :
    db.support witness name ≤
      Forest.settled parent (db.held AccountObject.vestingShares) db.names
        maxProxyRecursionDepth name := by
  have settled : 0 ≤ Forest.settled parent
      (db.held AccountObject.vestingShares) db.names maxProxyRecursionDepth
        name :=
    Forest.settled_nonneg backed.nonneg _ name
  by_cases root : parent name = none
  · have few := voters.single ((db.accountIdOf name).getD 0) witness
    have heavy := carries.weight_nonneg backed name
    rw [← carries.weight_eq listed root, support]
    calc
      db.voteCount ((db.accountIdOf name).getD 0) witness * db.weight name ≤
          1 * db.weight name := Int.mul_le_mul_of_nonneg_right few heavy
      _ = db.weight name := Int.one_mul _
  · rw [support, carries.rooted name listed root, Int.zero_mul]
    exact settled

/-- All voters for one witness together own no more than there is. -/
theorem Carries.tally_le
    (carries : db.Carries parent)
    (backed : db.SharesBacked)
    (voters : db.VotersKept)
    (witness : Nat) :
    db.tally witness ≤ db.props.totalVestingShares := by
  rw [backed.total, ← Forest.sum_settled carries.closed
    (db.held AccountObject.vestingShares) maxProxyRecursionDepth]
  exact Finset.sum_le_sum fun name listed =>
    carries.support_le backed voters witness listed

end Bound

/-! ## Shares which are not negative -/

theorem SharesBacked.of_agrees
    {fields : List Field}
    {before after : Database}
    (backed : before.SharesBacked)
    (agrees : Agrees fields before after)
    (separate : apart [.account .shares, .props .vestingShares] fields = true) :
    after.SharesBacked := by
  have shares : Field.read (.account .shares) after =
      Field.read (.account .shares) before :=
    agrees.read_eq separate (by decide)
  have total := agrees.read_eq separate
    (by decide : .props .vestingShares ∈ [_, Field.props .vestingShares])
  simp only [Field.read, PropsAspect.read] at total
  have held : after.held AccountObject.vestingShares =
      before.held AccountObject.vestingShares :=
    funext (held_of_read_eq shares fun count => count)
  constructor
  case nonneg => rw [held]; exact backed.nonneg
  case total => rw [total, names_of_read_eq shares, held]; exact backed.total

theorem total_iff_surplus
    {db : Database} :
    db.props.totalVestingShares =
        ∑ name ∈ db.names, db.held AccountObject.vestingShares name ↔
      db.ledger.surplus .vestingShares = 0 := by
  rw [← sumOf_accounts]
  simp only [Ledger.surplus, Total.counted, Option.elim_some, Database.ledger,
    sumOf_map]
  exact Int.sub_eq_zero.symm

/-- What moves no total alone, and no account below zero, keeps the shares
backed. -/
theorem SharesBacked.of_moves
    {before after : Database}
    {weight : Int}
    (backed : before.SharesBacked)
    (moves : Moves before.ledger after.ledger weight)
    (nonneg : ∀ name, 0 ≤ after.held AccountObject.vestingShares name) :
    after.SharesBacked := by
  refine ⟨nonneg, total_iff_surplus.2 ?_⟩
  rw [moves.surplus_eq (by decide)]
  exact total_iff_surplus.1 backed.total

/-- An operation mints no negative number of shares. -/
def MintsShares (db : Database) : Operation → Prop
  | .accountCreateWithDelegation op =>
      ∀ shares, db.toVests op.fee = .ok shares → 0 ≤ shares
  | _ => True

theorem backed_applyOperation
    {op : Operation}
    {db after : Database}
    (mints : MintsShares db op)
    (valid : op.validate ext = .ok ())
    (done : db.applyOperation ext op = .ok after)
    (backed : db.SharesBacked) :
    after.SharesBacked := by
  rcases moves_applyOperation valid done with ⟨weight, moves, -⟩
  have agrees := touches_applyOperation ext db op after done
  cases op with
  | accountCreate op =>
      refine backed.of_moves moves fun name => ?_
      rw [shares_accountCreate done]
      exact backed.nonneg name
  | accountCreateWithDelegation op =>
      refine backed.of_moves moves fun name => (backed.nonneg name).trans ?_
      exact shares_accountCreateWithDelegation done mints name
  | claimRewardBalance op =>
      refine backed.of_moves moves fun name => ?_
      have before := backed.nonneg name
      rw [held_claimRewardBalance done]
      simp only [Operation.validate, ClaimRewardBalanceOperation.validate,
        bind_eq_ok_iff, require_eq_ok_iff] at valid
      split <;> omega
  | _ => exact backed.of_agrees agrees rfl

theorem backed_createVesting
    {db after : Database}
    {amount shares : Int}
    (done : db.createVesting name amount false = .ok (after, shares))
    (positive : 0 ≤ shares)
    (backed : db.SharesBacked) :
    after.SharesBacked := by
  refine backed.of_moves (moves_createVesting done) ?_
  intro other
  have before := backed.nonneg other
  rw [held_createVesting done]
  split <;> omega

/-- A step of a block mints no negative number of shares. -/
def StepMintsShares (ext : External) (db : Database) : BlockStep → Prop
  | .processCommentCashout => EachPayout ext (PayoutCovers ext) db
  | _ => True

theorem backed_cashoutCommentHelper
    {db after : Database}
    {id recentClaims : Nat}
    {rewardBalance claimed : Int}
    (covers : PayoutCovers ext db id recentClaims rewardBalance)
    (done : db.cashoutCommentHelper ext id recentClaims rewardBalance =
      .ok (after, claimed))
    (backed : db.SharesBacked) :
    after.SharesBacked := by
  rcases cashout_cases done with kept | ⟨ready, vested, _, _, shares, paid⟩
  · exact backed.of_agrees kept rfl
  · rcases paid with ⟨before, create, kept, amount⟩
    exact (backed_createVesting create (covers shares amount)
      (backed.of_agrees before rfl)).of_agrees kept rfl

theorem backed_runStep
    {header : BlockHeader}
    {step : BlockStep}
    {db after : Database}
    (early : BeforeBurn header db step)
    (mints : StepMintsShares ext db step)
    (done : db.runStep ext header step = .ok after)
    (backed : db.SharesBacked) :
    after.SharesBacked := by
  have agrees := touches_runStep ext header db step after done
  cases step with
  | clearNullAccountBalance =>
      rcases moves_runStep done with ⟨weight, moves, -⟩
      refine backed.of_moves moves ?_
      intro name
      rcases shares_clearNullAccountBalance done name with same | ⟨-, zero⟩
      · rw [same]
        exact backed.nonneg name
      · rw [zero]
  | processCommentCashout =>
      refine processCommentCashout_invariant SharesBacked ?_ ?_ mints done
        backed
      · exact fun before after paid start => start.of_agrees paid rfl
      · intro db id recentClaims rewardBalance after claimed covers cashed start
        exact backed_cashoutCommentHelper covers cashed start
  | processHardforks =>
      simp only [runStep, processHardforks, bind_eq_ok_iff] at done
      rcases done with ⟨_, -, done⟩
      rw [if_neg early] at done
      cases done
      exact backed
  | _ => exact backed.of_agrees agrees rfl

end Database

end BMChain.State
