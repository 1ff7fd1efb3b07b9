import BMChain.State.CurationRewards
import BMChain.State.LedgerBlock

/-!
# How a payout splits its reward

The credits of a payout are computed from the reward, the votes and the routes
of the comment alone.  They share out the reward without a remainder, and the
payout posts exactly these credits.
-/

namespace BMChain.State

open BMChain.Foundation BMChain.Protocol Std

variable {name : AccountName} {db after : Database}
    {claimed reward rewardBalance maxRewards amount : Int}
    {id recentClaims percent : Nat} {routes : List BeneficiaryRoute}
    {comment : CommentObject} {ext : External}

variable {entries : List Entry} {target : AccountName}
    {shares authorTokens : Int} {vote : Nat × CommentVoteObject}
    {start final : Database × Int} {rewards vesting liquid : List Int}

/-! ## What the entries add -/

namespace Entry

/-- The amount by which an entry changes a total. -/
def addition (kind : Total) : Entry → Option Int
  | .total other amount => if other = kind then some amount else none
  | _ => none

/-- The amount by which an entry changes the balance of an account. -/
def deposit (name : AccountName) : Entry → Option Int
  | .purse target kind amount =>
      if kind = .balance ∧ target = name then some amount else none
  | _ => none

end Entry

namespace Posts

theorem totals_eq
    {ledger after : Ledger}
    (posted : Posts ledger entries after)
    (kind : Total) :
    after.totals kind =
      ledger.totals kind + (entries.filterMap (Entry.addition kind)).sum := by
  induction posted with
  | nil => simp
  | @cons ledger after entry entries accepted _ induction =>
      rw [induction]
      cases entry with
      | total other amount =>
          by_cases same : other = kind
          · subst same
            simp [Ledger.post, Entry.addition]
            omega
          · simp [Ledger.post, Entry.addition, same, Ne.symm same]
      | purse name holding amount => rfl
      | openPurse name => rfl
      | fund id amount => rfl
      | limitOrder id before next => rfl
      | escrow id before next => rfl
      | savingsWithdraw id before next => rfl
      | contentOrder id before next => rfl

theorem balance_eq
    {ledger after : Ledger}
    (posted : Posts ledger entries after)
    (name : AccountName) :
    after.holding name .balance =
      ledger.holding name .balance +
        (entries.filterMap (Entry.deposit name)).sum := by
  have credits : netCredit name .balance entries =
      (entries.filterMap (Entry.deposit name)).sum := by
    clear posted
    induction entries with
    | nil => rfl
    | cons entry entries induction =>
        rw [netCredit_cons, induction]
        cases entry with
        | purse target kind amount =>
            by_cases same : kind = .balance ∧ target = name
            · simp [Entry.credit, Entry.deposit, same]
            · rw [and_comm] at same
              simp [Entry.credit, Entry.deposit, same, and_comm]
        | _ => exact Int.zero_add _
  rw [posted.holding_eq name .balance, credits]

end Posts

/--
One ledger follows from another by entries which add these amounts, one by one,
to the rewards in vesting shares, to the vesting fund and to the balance of an
account.
-/
def CreditsPosted (before after : Ledger) (name : AccountName)
    (rewards vesting liquid : List Int) : Prop :=
  ∃ entries, Posts before entries after ∧
    entries.filterMap (Entry.addition .pendingBacking) = rewards ∧
      entries.filterMap (Entry.addition .vestingFund) = vesting ∧
        entries.filterMap (Entry.deposit name) = liquid

namespace CreditsPosted

theorem refl
    (ledger : Ledger)
    (name : AccountName) :
    CreditsPosted ledger ledger name [] [] [] :=
  ⟨[], .nil _, rfl, rfl, rfl⟩

theorem trans
    {before middle after : Ledger}
    {rewards vesting liquid rewards' vesting' liquid' : List Int}
    (first : CreditsPosted before middle name rewards vesting liquid)
    (second : CreditsPosted middle after name rewards' vesting' liquid') :
    CreditsPosted before after name (rewards ++ rewards')
      (vesting ++ vesting') (liquid ++ liquid') := by
  rcases first with ⟨entries, posted, rfl, rfl, rfl⟩
  rcases second with ⟨others, next, rfl, rfl, rfl⟩
  refine ⟨entries ++ others, posted.append next, ?_, ?_, ?_⟩
  · exact List.filterMap_append
  · exact List.filterMap_append
  · exact List.filterMap_append

theorem of_reward
    (done : db.createVesting target amount true = .ok (after, shares)) :
    CreditsPosted db.ledger after.ledger name [amount] [] [] :=
  ⟨_, Database.posts_createVesting_reward done, rfl, rfl, rfl⟩

theorem of_shares
    (done : db.createVesting target amount false = .ok (after, shares)) :
    CreditsPosted db.ledger after.ledger name [] [amount] [] :=
  ⟨_, Database.posts_createVesting_shares done, rfl, rfl, rfl⟩

theorem of_balance
    (done : db.adjustBalance name (bmt amount) = .ok after) :
    CreditsPosted db.ledger after.ledger name [] [] [amount] := by
  refine ⟨_, (Database.posts_adjustBalance done).2, rfl, rfl, ?_⟩
  simp [Entry.deposit, bmt]

end CreditsPosted

/-! ## The split -/

/-- The credits of a payout in BMT. -/
structure PayoutCredits where
  curators : List Int
  beneficiaries : List Int
  vesting : List Int
  liquid : List Int

namespace PayoutCredits

/-- A payout without a reward. -/
def empty : PayoutCredits :=
  ⟨[], [], [], []⟩

/-- All credits of a payout. -/
def all (credits : PayoutCredits) : List Int :=
  credits.curators ++ credits.beneficiaries ++
    (credits.vesting ++ credits.liquid)

end PayoutCredits

/-- The part of a reward by a percentage. -/
def curationPart (reward : Int) (percent : Nat) : Int :=
  wrapInt64 (toUint64 (uint128 reward * percent % 2 ^ 128 / hundredPercent))

/-- What the beneficiaries receive of the tokens of the author. -/
def beneficiaryTokens (authorTokens : Int) (routes : List BeneficiaryRoute) :
    List Int :=
  routes.map fun route =>
    (authorTokens * route.weight).tdiv hundredPercent

/-- What the author receives as balance. -/
def liquidTokens (authorTokens : Int) (percent : Nat) : Int :=
  (authorTokens * percent).tdiv (2 * hundredPercent)

namespace Database

/-- The claims of votes, without those which are zero. -/
def claimsOf (comment : CommentObject) (maxRewards : Int)
    (votes : List (Nat × CommentVoteObject)) : List Int :=
  (votes.map fun vote =>
    curatorClaim maxRewards vote.2.weight comment.totalVoteWeight).filter
      fun claim => claim ≠ 0

/-- What the curators are paid. -/
def curatorCredits (db : Database) (id : Nat) (comment : CommentObject)
    (maxRewards : Int) : List Int :=
  if comment.allowCurationRewards then
    claimsOf comment maxRewards (db.votesByWeight id)
  else []

/-- The part of the curation reward which returns to the author. -/
def unclaimedPart (db : Database) (id : Nat) (comment : CommentObject)
    (maxRewards : Int) : Int :=
  if comment.allowCurationRewards then
    maxRewards - (db.curatorCredits id comment maxRewards).sum
  else 0

/-- How a positive reward is split. -/
def payoutCredits (db : Database) (id : Nat) (comment : CommentObject)
    (reward : Int) (percent : Nat) : PayoutCredits :=
  let curation := curationPart reward percent
  let authorTokens :=
    reward - curation + db.unclaimedPart id comment curation
  let beneficiaries := beneficiaryTokens authorTokens comment.beneficiaries
  let rest := authorTokens - beneficiaries.sum
  let liquid := liquidTokens rest comment.percentBmtDollars
  { curators := db.curatorCredits id comment curation
    beneficiaries := beneficiaries
    vesting := [rest - liquid]
    liquid := [liquid] }

end Database

/-! ## The parts of an amount -/

theorem tdiv_within
    {factor divisor : Nat}
    (nonneg : 0 ≤ amount)
    (within : factor ≤ divisor)
    (positive : 0 < divisor) :
    0 ≤ (amount * factor).tdiv divisor ∧
      (amount * factor).tdiv divisor ≤ amount ∧
        (amount * factor).tdiv divisor * divisor ≤ amount * factor := by
  have product : 0 ≤ amount * (factor : Int) :=
    Int.mul_nonneg nonneg (Int.natCast_nonneg _)
  rw [Int.tdiv_eq_ediv_of_nonneg product]
  have above : (0 : Int) < divisor := Int.natCast_pos.2 positive
  have share : amount * (factor : Int) / divisor * divisor ≤ amount * factor :=
    Int.ediv_mul_le _ (Int.ne_of_gt above)
  have most : amount * (factor : Int) ≤ amount * divisor :=
    Int.mul_le_mul_of_nonneg_left (Int.ofNat_le.2 within) nonneg
  refine ⟨Int.ediv_nonneg product (Int.le_of_lt above), ?_, share⟩
  exact Int.le_of_mul_le_mul_right (Int.le_trans share most) above

/-- Routes which were accepted share no more than the whole. -/
theorem weights_of_validateRoutes
    {sum : Nat}
    {previous : Option BeneficiaryRoute}
    (bounded : sum ≤ hundredPercent)
    (valid : validateRoutes sum previous routes = .ok ()) :
    (∀ route ∈ routes, route.weight ≤ hundredPercent) ∧
      sum + (routes.map BeneficiaryRoute.weight).sum ≤ hundredPercent := by
  induction routes generalizing sum previous with
  | nil => exact ⟨fun _ absent => (nomatch absent), bounded⟩
  | cons route rest induction =>
      simp only [validateRoutes, bind_eq_ok_iff, require_eq_ok_iff] at valid
      rcases valid with ⟨_, -, _, single, _, within, _, -, valid⟩
      rcases induction within valid with ⟨each, all⟩
      refine ⟨?_, ?_⟩
      · intro other member
        rcases List.mem_cons.1 member with rfl | member
        · exact single
        · exact each other member
      · rw [List.map_cons, List.sum_cons, ← Nat.add_assoc]
        exact all

theorem beneficiaryTokens_within
    (nonneg : 0 ≤ authorTokens)
    (each : ∀ route ∈ routes, route.weight ≤ hundredPercent) :
    (∀ tokens ∈ beneficiaryTokens authorTokens routes, 0 ≤ tokens) ∧
      (beneficiaryTokens authorTokens routes).sum * hundredPercent ≤
        authorTokens * (routes.map BeneficiaryRoute.weight).sum := by
  induction routes with
  | nil => exact ⟨fun _ absent => (nomatch absent), by simp [beneficiaryTokens]⟩
  | cons route rest induction =>
      rcases induction fun other member =>
        each other (List.mem_cons_of_mem _ member) with ⟨others, later⟩
      rcases tdiv_within nonneg (each route List.mem_cons_self)
        (show 0 < hundredPercent by decide) with ⟨part, -, share⟩
      refine ⟨?_, ?_⟩
      · intro tokens member
        rcases List.mem_cons.1 member with rfl | member
        · exact part
        · exact others tokens member
      · rw [List.map_cons, List.sum_cons, Nat.cast_add, Int.mul_add]
        rw [beneficiaryTokens, List.map_cons, List.sum_cons, Int.add_mul]
        exact Int.add_le_add share later

namespace Database

theorem curatorClaim_nonneg
    {weight : Nat}
    (nonneg : 0 ≤ maxRewards)
    (fits : FitsInt64 maxRewards)
    (small : comment.totalVoteWeight < 2 ^ 64)
    (within : weight ≤ comment.totalVoteWeight) :
    0 ≤ curatorClaim maxRewards weight comment.totalVoteWeight := by
  rcases scaled_share nonneg fits within small with ⟨part, claim, -, -⟩
  rw [curatorClaim, claim]
  exact Int.natCast_nonneg part

theorem curatorCredits_nonneg
    (nonneg : 0 ≤ maxRewards)
    (fits : FitsInt64 maxRewards)
    (small : comment.totalVoteWeight < 2 ^ 64)
    (enough : db.voteWeights id ≤ comment.totalVoteWeight) :
    ∀ claim ∈ db.curatorCredits id comment maxRewards, 0 ≤ claim := by
  intro claim member
  rw [curatorCredits] at member
  split at member
  case isFalse => cases member
  case isTrue =>
    rcases List.mem_map.1 (List.mem_filter.1 member).1 with ⟨vote, own, rfl⟩
    have part : vote.2.weight ≤ db.voteWeights id :=
      List.le_sum_of_mem (List.mem_map_of_mem own)
    exact curatorClaim_nonneg nonneg fits small (Nat.le_trans part enough)

/-- Every credit gives, when the parts before it leave something. -/
theorem payoutCredits_nonneg
    (nonneg : 0 ≤ curationPart reward percent)
    (part : curationPart reward percent ≤ reward)
    (fits : FitsInt64 (curationPart reward percent))
    (small : comment.totalVoteWeight < 2 ^ 64)
    (enough : db.voteWeights id ≤ comment.totalVoteWeight)
    (unclaimed : 0 ≤ db.unclaimedPart id comment (curationPart reward percent))
    (each : ∀ route ∈ comment.beneficiaries, route.weight ≤ hundredPercent)
    (routes : (comment.beneficiaries.map BeneficiaryRoute.weight).sum ≤
      hundredPercent)
    (liquid : comment.percentBmtDollars ≤ hundredPercent) :
    ∀ credit ∈ (db.payoutCredits id comment reward percent).all,
      0 ≤ credit := by
  have curators := curatorCredits_nonneg nonneg fits small enough
  generalize tokens : reward - curationPart reward percent +
    db.unclaimedPart id comment (curationPart reward percent) = authorTokens
  have author : 0 ≤ authorTokens := by omega
  rcases beneficiaryTokens_within author each with ⟨shares, sum⟩
  have rest : (beneficiaryTokens authorTokens comment.beneficiaries).sum ≤
      authorTokens := by
    apply Int.le_of_mul_le_mul_right (Int.le_trans sum ?_)
      (show (0 : Int) < hundredPercent by decide)
    exact Int.mul_le_mul_of_nonneg_left (Int.ofNat_le.2 routes) author
  have half := tdiv_within (Int.sub_nonneg_of_le rest)
    (Nat.le_trans liquid (show hundredPercent ≤ 2 * hundredPercent by decide))
    (show 0 < 2 * hundredPercent by decide)
  intro credit member
  simp only [PayoutCredits.all, payoutCredits, tokens, List.mem_append,
    List.mem_singleton] at member
  rcases member with (claim | share) | rfl | rfl
  · exact curators credit claim
  · exact shares credit share
  · exact Int.sub_nonneg_of_le half.2.1
  · exact half.1

/-! ## The payout posts its credits -/

theorem claimsOf_zero
    (rest : List (Nat × CommentVoteObject))
    (zero : curatorClaim maxRewards vote.2.weight comment.totalVoteWeight =
      0) :
    claimsOf comment maxRewards (vote :: rest) =
      claimsOf comment maxRewards rest := by
  rw [claimsOf, List.map_cons, List.filter_cons_of_neg (by simp [zero])]
  rfl

theorem claimsOf_cons
    (rest : List (Nat × CommentVoteObject))
    (some : ¬curatorClaim maxRewards vote.2.weight comment.totalVoteWeight =
      0) :
    claimsOf comment maxRewards (vote :: rest) =
      curatorClaim maxRewards vote.2.weight comment.totalVoteWeight ::
        claimsOf comment maxRewards rest := by
  rw [claimsOf, List.map_cons, List.filter_cons_of_pos (by simp [some])]
  rfl

theorem credits_payCurator
    {votes : List (Nat × CommentVoteObject)}
    (ran : votes.foldlM (payCurator comment maxRewards) start = .ok final) :
    CreditsPosted start.1.ledger final.1.ledger name
        (claimsOf comment maxRewards votes) [] [] ∧
      final.2 = start.2 - (claimsOf comment maxRewards votes).sum := by
  induction votes generalizing start with
  | nil =>
      cases ran
      exact ⟨.refl _ _, (Int.sub_zero _).symm⟩
  | cons vote rest induction =>
      rw [List.foldlM_cons, bind_eq_ok_iff] at ran
      rcases ran with ⟨middle, paid, ran⟩
      rcases induction ran with ⟨later, left⟩
      simp only [payCurator] at paid
      split at paid
      case isTrue zero =>
        cases paid
        rw [claimsOf_zero rest zero]
        exact ⟨later, left⟩
      case isFalse some =>
        simp only [bind_eq_ok_iff, checked_eq_ok_iff, pure_eq_ok_iff] at paid
        rcases paid with ⟨_, ⟨-, rfl⟩, ⟨voter, _⟩, -, ⟨vested, shares⟩, vest,
          counted, count, rfl⟩
        have kept : counted.ledger = vested.ledger := by
          refine (ledger_modifyAccount count ?_).trans rfl
          intro account changed equal
          simp only [bind_eq_ok_iff, pure_eq_ok_iff] at equal
          rcases equal with ⟨_, -, rfl⟩
          rfl
        have first : CreditsPosted start.1.ledger counted.ledger name
            [curatorClaim maxRewards vote.2.weight comment.totalVoteWeight]
            [] [] := by
          rw [kept]
          exact .of_reward vest
        rw [claimsOf_cons rest some]
        refine ⟨first.trans later, ?_⟩
        rw [List.sum_cons, left]
        dsimp only
        omega

theorem credits_payCurators
    {maxRewards claimed unclaimed : Int}
    (name : AccountName)
    (done : db.payCurators id comment maxRewards =
      .ok (after, claimed, unclaimed)) :
    CreditsPosted db.ledger after.ledger name
        (db.curatorCredits id comment maxRewards) [] [] ∧
      claimed = (db.curatorCredits id comment maxRewards).sum ∧
        unclaimed = db.unclaimedPart id comment maxRewards := by
  unfold payCurators at done
  split at done
  case isTrue disallowed =>
    cases done
    rw [Bool.not_eq_true'] at disallowed
    have refused : ¬comment.allowCurationRewards = true := by
      simp [disallowed]
    rw [unclaimedPart, curatorCredits, if_neg refused, if_neg refused]
    exact ⟨.refl _ _, rfl, rfl⟩
  case isFalse allowed =>
    have allowed : comment.allowCurationRewards = true := by
      simpa using allowed
    simp only [bind_eq_ok_iff, checked_eq_ok_iff] at done
    rcases done with ⟨⟨paid, left⟩, pay, _, ⟨-, rfl⟩, equal⟩
    cases equal
    have credits : CreditsPosted db.ledger paid.ledger name
          (db.curatorCredits id comment maxRewards) [] [] ∧
        left = maxRewards - (db.curatorCredits id comment maxRewards).sum := by
      rw [curatorCredits, if_pos allowed]
      split at pay
      case isTrue => exact credits_payCurator pay
      case isFalse weightless =>
        cases pay
        have none :
            claimsOf comment maxRewards (db.votesByWeight id) = [] := by
          apply List.filter_eq_nil_iff.2
          intro claim member
          rcases List.mem_map.1 member with ⟨vote, -, rfl⟩
          rw [Nat.eq_zero_of_not_pos weightless, curatorClaim, Nat.div_zero]
          decide
        rw [none]
        exact ⟨.refl _ _, (Int.sub_zero _).symm⟩
    rw [unclaimedPart, if_pos allowed]
    refine ⟨credits.1, ?_, credits.2⟩
    rw [credits.2]
    omega

theorem credits_payBeneficiaries
    (name : AccountName)
    (ran : routes.foldlM (payBeneficiary comment authorTokens) start =
      .ok final) :
    CreditsPosted start.1.ledger final.1.ledger name
        (beneficiaryTokens authorTokens routes) [] [] ∧
      final.2 = start.2 + (beneficiaryTokens authorTokens routes).sum := by
  induction routes generalizing start with
  | nil =>
      cases ran
      exact ⟨.refl _ _, (Int.add_zero _).symm⟩
  | cons route rest induction =>
      rw [List.foldlM_cons, bind_eq_ok_iff] at ran
      rcases ran with ⟨middle, paid, ran⟩
      rcases induction ran with ⟨later, left⟩
      simp only [payBeneficiary, checkedDiv, bind_eq_ok_iff,
        require_eq_ok_iff, checked_eq_ok_iff, pure_eq_ok_iff] at paid
      rcases paid with ⟨_, ⟨-, rfl⟩, _, ⟨_, -, -, rfl⟩, _, -, ⟨vested, shares⟩,
        vest, _, ⟨-, rfl⟩, rfl⟩
      have first : CreditsPosted start.1.ledger vested.ledger name _ [] [] :=
        .of_reward vest
      refine ⟨first.trans later, ?_⟩
      rw [left, show beneficiaryTokens authorTokens (route :: rest) =
        _ :: beneficiaryTokens authorTokens rest from rfl, List.sum_cons]
      dsimp only
      omega

theorem credits_payAuthor
    {authorTokens curationTokens beneficiaryTokens claimed : Int}
    (done : db.payAuthor id comment authorTokens curationTokens
      beneficiaryTokens claimed = .ok after) :
    CreditsPosted db.ledger after.ledger comment.author []
      [authorTokens - liquidTokens authorTokens comment.percentBmtDollars]
      [liquidTokens authorTokens comment.percentBmtDollars] := by
  simp only [payAuthor, checkedDiv, bind_eq_ok_iff, require_eq_ok_iff,
    checked_eq_ok_iff] at done
  rcases done with
    ⟨_, ⟨-, rfl⟩, _, ⟨_, -, -, rfl⟩, _, ⟨-, rfl⟩, _, -, ⟨vested, created⟩, vest,
      paid, pay, _, -, adjusted, adjust, written, write, counted⟩
  have kept : after.ledger = paid.ledger := by
    have count : after.ledger = written.ledger := by
      refine ledger_modifyAccount counted ?_
      intro account changed equal
      simp only [bind_eq_ok_iff, pure_eq_ok_iff] at equal
      rcases equal with ⟨_, -, rfl⟩
      rfl
    have wrote := keeps_modifyComment _ _ _ written write
    have adjusts := keeps_modifyComment _ _ _ adjusted adjust
    rw [count, wrote]
    exact adjusts
  rw [kept]
  have shares : CreditsPosted db.ledger vested.ledger comment.author _ _ _ :=
    .of_shares vest
  exact shares.trans (.of_balance pay)

/-- A reward is split by posting its credits. -/
theorem credits_splitReward
    (read : db.getCurationRewardsPercent = .ok percent)
    (done : db.splitReward id comment reward = .ok (after, claimed)) :
    CreditsPosted db.ledger after.ledger comment.author
        ((db.payoutCredits id comment reward percent).curators ++
          (db.payoutCredits id comment reward percent).beneficiaries)
        (db.payoutCredits id comment reward percent).vesting
        (db.payoutCredits id comment reward percent).liquid ∧
      claimed = (db.payoutCredits id comment reward percent).all.sum := by
  simp only [splitReward, read, ok_bind, bind_eq_ok_iff, checked_eq_ok_iff,
    pure_eq_ok_iff] at done
  rcases done with
    ⟨_, ⟨-, rfl⟩, ⟨curated, curation, unclaimed⟩, curate, _, ⟨-, rfl⟩, _,
      ⟨-, rfl⟩, ⟨shared, beneficiary⟩, share, _, ⟨-, rfl⟩, paid, pay, equal⟩
  cases equal
  rcases credits_payCurators comment.author curate with
    ⟨curators, rfl, rfl⟩
  rcases credits_payBeneficiaries comment.author share with
    ⟨beneficiaries, sum⟩
  dsimp only at sum
  rw [Int.zero_add] at sum
  subst sum
  have posted := curators.trans (beneficiaries.trans (credits_payAuthor pay))
  rw [List.append_nil] at posted
  refine ⟨posted, ?_⟩
  simp only [PayoutCredits.all, payoutCredits, List.sum_append,
    List.sum_singleton, curationPart]
  omega

/-- A payout claims the reward, or what is not for the curators. -/
theorem claimed_of_splitReward
    (read : db.getCurationRewardsPercent = .ok percent)
    (done : db.splitReward id comment reward = .ok (after, claimed)) :
    claimed =
      if comment.allowCurationRewards then reward
      else reward - curationPart reward percent := by
  rw [(credits_splitReward read done).2]
  simp only [PayoutCredits.all, payoutCredits, unclaimedPart, List.sum_append,
    List.sum_singleton]
  split
  case isTrue => omega
  case isFalse refused =>
    rw [curatorCredits, if_neg refused, List.sum_nil]
    omega

/-! ## Exact payouts -/

/-- The reward of a comment against the cached state of its fund. -/
def rshareReward (ext : External) (db : Database) (comment : CommentObject)
    (recentClaims : Nat) (rewardBalance : Int) : Except Fault Int := do
  let (_, fund) ← db.getRewardFund
  getRshareReward ext
    { rshares := comment.netRshares
      rewardWeight := comment.rewardWeight
      totalRewardShares2 := recentClaims
      totalRewardFundBmt := rewardBalance
      rewardCurve := fund.authorRewardCurve
      contentConstant := fund.contentConstant }

/-- The credits of a payout; a reward of zero has none. -/
def splitCredits (db : Database) (id : Nat) (comment : CommentObject)
    (reward : Int) (percent : Nat) : PayoutCredits :=
  if 0 < reward then db.payoutCredits id comment reward percent else .empty

/-- No fund gives its curators more than the reward. -/
def CurationWithin (db : Database) : Prop :=
  db.rewardFunds.All fun fund => fund.percentCurationRewards ≤ hundredPercent

/--
A payout posts its credits, none of which takes anything.  They are what the
global totals and the balance of the author gain, and what the fund gives away.
-/
structure SplitsExactly (db after : Database) (comment : CommentObject)
    (reward claimed : Int) (credits : PayoutCredits) : Prop where
  posted : CreditsPosted db.ledger after.ledger comment.author
    (credits.curators ++ credits.beneficiaries) credits.vesting credits.liquid
  each : ∀ credit ∈ credits.all, 0 ≤ credit
  pending : db.props.pendingRewardedVestingBmt ≤
    after.props.pendingRewardedVestingBmt
  fund : db.props.totalVestingFundBmt ≤ after.props.totalVestingFundBmt
  balance : db.ledger.holding comment.author .balance ≤
    after.ledger.holding comment.author .balance
  sum : claimed =
    (after.props.pendingRewardedVestingBmt -
        db.props.pendingRewardedVestingBmt) +
      (after.props.totalVestingFundBmt - db.props.totalVestingFundBmt) +
        (after.ledger.holding comment.author .balance -
          db.ledger.holding comment.author .balance)
  within : claimed ≤ reward
  whole : comment.allowCurationRewards = true → claimed = reward

theorem payout_bounds
    {payout : Nat}
    (small : payout < 2 ^ 63) :
    0 ≤ (if (payout : Int) < minPayout then 0 else (payout : Int)) ∧
      FitsInt64 (if (payout : Int) < minPayout then 0 else (payout : Int)) := by
  split
  case isTrue => exact ⟨Int.le_refl 0, by decide⟩
  case isFalse =>
    constructor
    · exact Int.natCast_nonneg payout
    · constructor <;> omega

/-- The funds of every state of a run have such a percentage. -/
theorem curationWithin_run
    {block : Option BlockHeader}
    (run : RunState ext (fun _ _ => True) block db) :
    db.CurationWithin :=
  fun place fund found => ((weightsHold_run run).2 place fund found).2

theorem getRshareReward_bounds
    {ctx : CommentRewardContext}
    (done : getRshareReward ext ctx = .ok reward) :
    0 ≤ reward ∧ FitsInt64 reward := by
  simp only [getRshareReward, bind_eq_ok_iff, require_eq_ok_iff,
    pure_eq_ok_iff] at done
  rcases done with ⟨_, -, _, -, claim, -, _, small, rfl⟩
  exact payout_bounds small

/-- What the credits add to the totals and to the balance. -/
theorem gains_of_posted
    (posted : CreditsPosted db.ledger after.ledger name rewards vesting
      liquid) :
    after.props.pendingRewardedVestingBmt =
        db.props.pendingRewardedVestingBmt + rewards.sum ∧
      after.props.totalVestingFundBmt =
          db.props.totalVestingFundBmt + vesting.sum ∧
        after.ledger.holding name .balance =
          db.ledger.holding name .balance + liquid.sum := by
  rcases posted with ⟨entries, posts, rfl, rfl, rfl⟩
  exact ⟨posts.totals_eq .pendingBacking, posts.totals_eq .vestingFund,
    posts.balance_eq name⟩

/-- Credits which give are what a payout adds to the totals. -/
theorem SplitsExactly.of_posted
    {credits : PayoutCredits}
    (posted : CreditsPosted db.ledger after.ledger comment.author
      (credits.curators ++ credits.beneficiaries) credits.vesting
        credits.liquid)
    (each : ∀ credit ∈ credits.all, 0 ≤ credit)
    (sum : claimed = credits.all.sum)
    (within : claimed ≤ reward)
    (whole : comment.allowCurationRewards = true → claimed = reward) :
    SplitsExactly db after comment reward claimed credits := by
  have gives : ∀ amounts : List Int, (∀ amount ∈ amounts,
      amount ∈ credits.all) → 0 ≤ amounts.sum := fun amounts part =>
    List.sum_nonneg fun amount member => each amount (part amount member)
  rcases gains_of_posted posted with ⟨pending, fund, balance⟩
  have rewards' := gives (credits.curators ++ credits.beneficiaries)
    fun amount member => List.mem_append_left _ member
  have vesting' := gives credits.vesting fun amount member =>
    List.mem_append_right _ (List.mem_append_left _ member)
  have liquid' := gives credits.liquid fun amount member =>
    List.mem_append_right _ (List.mem_append_right _ member)
  simp only [PayoutCredits.all, List.sum_append] at sum pending rewards'
  constructor
  case posted => exact posted
  case each => exact each
  case pending => omega
  case fund => omega
  case balance => omega
  case sum => omega
  case within => exact within
  case whole => exact whole

theorem SplitsExactly.of_ledger
    {db middle after : Database}
    {credits : PayoutCredits}
    (same : after.ledger = middle.ledger)
    (splits : SplitsExactly db middle comment reward claimed credits) :
    SplitsExactly db after comment reward claimed credits := by
  have pending : after.props.pendingRewardedVestingBmt =
      middle.props.pendingRewardedVestingBmt :=
    congrArg (fun ledger => ledger.totals .pendingBacking) same
  have fund : after.props.totalVestingFundBmt =
      middle.props.totalVestingFundBmt :=
    congrArg (fun ledger => ledger.totals .vestingFund) same
  constructor
  case posted =>
    rw [same]
    exact splits.posted
  case each => exact splits.each
  case pending =>
    rw [pending]
    exact splits.pending
  case fund =>
    rw [fund]
    exact splits.fund
  case balance =>
    rw [same]
    exact splits.balance
  case sum =>
    rw [pending, fund, same]
    exact splits.sum
  case within => exact splits.within
  case whole => exact splits.whole

theorem curationPart_within
    (nonneg : 0 ≤ reward)
    (fits : FitsInt64 reward)
    (within : percent ≤ hundredPercent) :
    0 ≤ curationPart reward percent ∧ curationPart reward percent ≤ reward := by
  rcases scaled_share nonneg fits within (by decide) with
    ⟨part, share, less, -⟩
  change curationPart reward percent = part at share
  rw [share]
  exact ⟨Int.natCast_nonneg part, less⟩

theorem splitReward_exactly
    (routes : comment.beneficiaries = [] ∨
      (CommentOptionsExtension.payoutBeneficiaries
        comment.beneficiaries).validate = .ok ())
    (liquid : comment.percentBmtDollars ≤ hundredPercent)
    (small : comment.totalVoteWeight < 2 ^ 64)
    (enough : db.voteWeights id ≤ comment.totalVoteWeight)
    (nonneg : 0 ≤ reward)
    (fits : FitsInt64 reward)
    (read : db.getCurationRewardsPercent = .ok percent)
    (within : percent ≤ hundredPercent)
    (done : db.splitReward id comment reward = .ok (after, claimed)) :
    SplitsExactly db after comment reward claimed
      (db.payoutCredits id comment reward percent) := by
  rcases credits_splitReward read done with ⟨posted, sum⟩
  rcases curationPart_within nonneg fits within with ⟨curation, less⟩
  have inside : FitsInt64 (curationPart reward percent) := by
    have bounds := fits
    constructor
    · have low := bounds.1
      omega
    · have high := bounds.2
      omega
  have weights : (∀ route ∈ comment.beneficiaries,
      route.weight ≤ hundredPercent) ∧
        (comment.beneficiaries.map BeneficiaryRoute.weight).sum ≤
          hundredPercent := by
    rcases routes with none | valid
    · rw [none]
      exact ⟨fun _ absent => (nomatch absent), by decide⟩
    · simp only [CommentOptionsExtension.validate, bind_eq_ok_iff,
        require_eq_ok_iff] at valid
      rcases valid with ⟨_, -, _, -, valid⟩
      have bounds := weights_of_validateRoutes (Nat.zero_le _) valid
      rwa [Nat.zero_add] at bounds
  have tally : weightTally db.commentVotes id ≤ comment.totalVoteWeight := by
    rw [weightTally_eq_sum]
    exact Int.ofNat_le.2 enough
  -- The curators leave their author something, as the payout did not fail.
  have paid : 0 ≤
      db.unclaimedPart id comment (curationPart reward percent) := by
    simp only [splitReward, read, ok_bind, bind_eq_ok_iff,
      checked_eq_ok_iff] at done
    rcases done with ⟨_, -, ⟨curated, claims, unclaimed⟩, curate, -⟩
    have left := (payCurators_within curation inside small (.inr tally)
      curate).2
    rcases credits_payCurators comment.author curate with ⟨-, -, rfl⟩
    exact left
  have each := payoutCredits_nonneg curation less inside small enough paid
    weights.1 weights.2 liquid
  have total := claimed_of_splitReward read done
  refine .of_posted posted each sum ?_ ?_
  · rw [total]
    split
    · exact Int.le_refl reward
    · exact Int.sub_le_self reward curation
  · intro allowed
    rw [total, if_pos allowed]

theorem curationPart_zero
    (percent : Nat) :
    curationPart 0 percent = 0 := by
  rw [curationPart, show uint128 0 = 0 from rfl, Nat.zero_mul]
  rfl

theorem rshareReward_bounds
    (worth : db.rshareReward ext comment recentClaims rewardBalance =
      .ok reward) :
    0 ≤ reward ∧ FitsInt64 reward := by
  simp only [rshareReward, bind_eq_ok_iff] at worth
  rcases worth with ⟨fund, -, worth⟩
  exact getRshareReward_bounds worth

theorem ledger_of_close
    {db restarted closed : Database}
    {operation : VirtualOperation}
    (restart : db.restartComment id = .ok restarted)
    (close : (restarted.pushVirtualOperation operation).closeVotes id =
      .ok closed) :
    closed.ledger = db.ledger :=
  (keeps_closeVotes _ _ closed close).trans
    (keeps_modifyComment _ _ _ restarted restart)

section Cashout

variable (found : db.comments.find? id = some comment)
    (done : db.cashoutCommentHelper ext id recentClaims rewardBalance =
      .ok (after, claimed))

include found done

/-- The payout of a comment with positive shares splits its reward. -/
theorem split_of_cashout
    (voted : 0 < comment.netRshares) :
    ∃ reward percent split,
      db.rshareReward ext comment recentClaims rewardBalance = .ok reward ∧
        db.getCurationRewardsPercent = .ok percent ∧
          (if 0 < reward then db.splitReward id comment reward
            else pure (db, 0)) = .ok (split, claimed) ∧
            after.ledger = split.ledger := by
  have got : db.getCommentById id = .ok comment :=
    orFault_eq_ok_iff.2 found
  simp only [cashoutCommentHelper, got, ok_bind, if_pos voted, bind_eq_ok_iff,
    pure_eq_ok_iff] at done
  rcases done with ⟨⟨paid, sum⟩, pay, restarted, restart, closed, close, equal⟩
  cases equal
  simp only [payComment, bind_eq_ok_iff, pure_eq_ok_iff] at pay
  rcases pay with ⟨⟨place, fund⟩, funded, reward, worth, ⟨split, given⟩, give,
    equal⟩
  cases equal
  refine ⟨reward, fund.percentCurationRewards, split, ?_, ?_, give,
    (ledger_of_close restart close).trans rfl⟩
  · rw [rshareReward, funded]
    exact worth
  · rw [getCurationRewardsPercent, funded]
    rfl

/-- A comment without positive shares is paid nothing. -/
theorem none_of_cashout
    (worthless : comment.netRshares ≤ 0) :
    claimed = 0 ∧ after.ledger = db.ledger := by
  have got : db.getCommentById id = .ok comment :=
    orFault_eq_ok_iff.2 found
  simp only [cashoutCommentHelper, got, ok_bind,
    if_neg (Int.not_lt.2 worthless), bind_eq_ok_iff, pure_eq_ok_iff] at done
  rcases done with ⟨⟨paid, sum⟩, pay, restarted, restart, closed, close, equal⟩
  cases equal
  cases pay
  exact ⟨rfl, ledger_of_close restart close⟩

/-- What a payout of a comment with positive shares gives away. -/
theorem claimed_eq
    (voted : 0 < comment.netRshares) :
    ∃ reward percent,
      db.rshareReward ext comment recentClaims rewardBalance = .ok reward ∧
        db.getCurationRewardsPercent = .ok percent ∧
          claimed =
            if comment.allowCurationRewards then reward
            else reward - curationPart reward percent := by
  rcases split_of_cashout found done voted with
    ⟨reward, percent, split, worth, read, give, -⟩
  refine ⟨reward, percent, worth, read, ?_⟩
  split at give
  case isTrue => exact claimed_of_splitReward read give
  case isFalse none =>
    cases give
    have zero : reward = 0 :=
      Int.le_antisymm (Int.not_lt.1 none) (rshareReward_bounds worth).1
    rw [zero, curationPart_zero, Int.sub_zero, ite_self]

/-- A payout gives away no more than the reward of its comment. -/
theorem claimed_within
    (curation : db.CurationWithin) :
    0 ≤ claimed ∧
      if 0 < comment.netRshares then
        ∃ reward, db.rshareReward ext comment recentClaims rewardBalance =
          .ok reward ∧ claimed ≤ reward
      else claimed = 0 := by
  by_cases voted : 0 < comment.netRshares
  · rcases claimed_eq found done voted with ⟨reward, percent, worth, read, sum⟩
    simp only [getCurationRewardsPercent, bind_eq_ok_iff, pure_eq_ok_iff]
      at read
    rcases read with ⟨⟨place, fund⟩, funded, rfl⟩
    have there := Table.find?_of_findBy (orFault_eq_ok_iff.1 funded)
    have bounds := rshareReward_bounds worth
    have part := curationPart_within bounds.1 bounds.2
      (curation place fund there)
    rw [if_pos voted, sum]
    split
    · exact ⟨bounds.1, reward, worth, Int.le_refl reward⟩
    · exact ⟨Int.sub_nonneg_of_le part.2, reward, worth,
        Int.sub_le_self reward part.1⟩
  · rw [if_neg voted, (none_of_cashout found done (Int.not_lt.1 voted)).1]
    exact ⟨Int.le_refl 0, rfl⟩

/-- What the totals and the balance of the author gain is what is claimed. -/
theorem gains_of_cashout :
    (after.props.pendingRewardedVestingBmt -
        db.props.pendingRewardedVestingBmt) +
      (after.props.totalVestingFundBmt - db.props.totalVestingFundBmt) +
        (after.ledger.holding comment.author .balance -
          db.ledger.holding comment.author .balance) = claimed := by
  have credits : ∃ rewards vesting liquid,
      CreditsPosted db.ledger after.ledger comment.author rewards vesting
          liquid ∧
        claimed = rewards.sum + vesting.sum + liquid.sum := by
    by_cases voted : 0 < comment.netRshares
    · rcases split_of_cashout found done voted with
        ⟨reward, percent, split, -, read, give, same⟩
      rw [same]
      split at give
      case isTrue =>
        rcases credits_splitReward read give with ⟨posted, sum⟩
        refine ⟨_, _, _, posted, ?_⟩
        rw [sum, PayoutCredits.all, List.sum_append, List.sum_append,
          List.sum_append]
        omega
      case isFalse =>
        cases give
        exact ⟨[], [], [], .refl _ _, rfl⟩
    · rcases none_of_cashout found done (Int.not_lt.1 voted) with ⟨zero, same⟩
      rw [same]
      exact ⟨[], [], [], .refl _ _, zero⟩
  rcases credits with ⟨rewards, vesting, liquid, posted, sum⟩
  rcases gains_of_posted posted with ⟨pending, fund, balance⟩
  omega

end Cashout

/--
What a payout of a comment gives away is what the pending rewards, the vesting
fund and the balance of the author gain, and it is the whole reward unless the
comment allows no curation rewards.
-/
theorem payout_splits_exactly
    {ext : External}
    {db after : Database}
    {id recentClaims : Nat}
    {rewardBalance claimed : Int}
    {comment : CommentObject}
    (found : db.comments.find? id = some comment)
    (voted : 0 < comment.netRshares)
    (routes : comment.beneficiaries = [] ∨
      (CommentOptionsExtension.payoutBeneficiaries
        comment.beneficiaries).validate = .ok ())
    (liquid : comment.percentBmtDollars ≤ hundredPercent)
    (small : comment.totalVoteWeight < 2 ^ 64)
    (enough : db.voteWeights id ≤ comment.totalVoteWeight)
    (curation : db.CurationWithin)
    (done : db.cashoutCommentHelper ext id recentClaims rewardBalance =
      .ok (after, claimed)) :
    ∃ reward percent,
      db.rshareReward ext comment recentClaims rewardBalance = .ok reward ∧
        db.getCurationRewardsPercent = .ok percent ∧
          SplitsExactly db after comment reward claimed
            (db.splitCredits id comment reward percent) := by
  rcases split_of_cashout found done voted with
    ⟨reward, percent, split, worth, read, give, same⟩
  refine ⟨reward, percent, worth, read, SplitsExactly.of_ledger same ?_⟩
  have bounds := rshareReward_bounds worth
  have within : percent ≤ hundredPercent := by
    simp only [getCurationRewardsPercent, bind_eq_ok_iff, pure_eq_ok_iff]
      at read
    rcases read with ⟨⟨place, fund⟩, funded, rfl⟩
    exact curation place fund
      (Table.find?_of_findBy (orFault_eq_ok_iff.1 funded))
  rw [splitCredits]
  split at give
  case isTrue positive =>
    rw [if_pos positive]
    exact splitReward_exactly routes liquid small enough bounds.1 bounds.2 read
      within give
  case isFalse none =>
    cases give
    rw [if_neg none]
    refine .of_posted (.refl _ _) (fun _ absent => by cases absent) rfl
      bounds.1 ?_
    intro _
    omega

/-- A post with one vote receives a whole fund of one thousand. -/
theorem payout_splits_exactly_one_vote :
    ∃ db comment after percent,
      [Event.operation (samplePost initMinerName),
          .beginBlock firstHeader, .finishBlock firstHeader,
          .operation (sampleVote "devs" 10000)].foldlM
            (step plainExternal) initGenesis = .ok db ∧
        db.comments.find? 0 = some comment ∧
          db.cashoutCommentHelper plainExternal 0 4000000000000 1000 =
              .ok (after, 1000) ∧
            SplitsExactly db after comment 1000 1000
              (db.splitCredits 0 comment 1000 percent) := by
  have ran : ([Event.operation (samplePost initMinerName),
      .beginBlock firstHeader, .finishBlock firstHeader,
      .operation (sampleVote "devs" 10000)].foldlM
        (step plainExternal) initGenesis).bind (fun db =>
          (db.getCommentById 0).bind fun comment =>
            (require (0 < comment.netRshares ∧ comment.beneficiaries = [] ∧
              comment.percentBmtDollars ≤ hundredPercent ∧
                comment.totalVoteWeight < 2 ^ 64 ∧
                  db.voteWeights 0 ≤ comment.totalVoteWeight ∧
                    comment.allowCurationRewards = true) "").bind fun _ =>
              (db.cashoutCommentHelper plainExternal 0 4000000000000
                1000).bind fun paid => require (paid.2 = 1000) "") =
        .ok () := by
    decide +kernel
  rcases (bind_eq_ok_iff _ _ _).1 ran with ⟨db, done, rest⟩
  rcases (bind_eq_ok_iff _ _ _).1 rest with ⟨comment, got, rest⟩
  rcases (bind_eq_ok_iff _ _ _).1 rest with ⟨_, facts, rest⟩
  rcases (bind_eq_ok_iff _ _ _).1 rest with ⟨⟨after, claimed⟩, cash, sum⟩
  rw [require_eq_ok_iff] at facts sum
  dsimp only at sum
  subst sum
  rcases facts with ⟨voted, routes, liquid, small, enough, allowed⟩
  have found := orFault_eq_ok_iff.1 got
  have phases : Phases [.operation (samplePost initMinerName),
      .beginBlock firstHeader, .finishBlock firstHeader,
      .operation (sampleVote "devs" 10000)] none none :=
    ⟨none, .operation _ none, _, .beginBlock _, none, .finishBlock _, none,
      .operation _ none, rfl⟩
  have run := RunState.of_foldlM .genesis phases done
  rcases payout_splits_exactly found voted (.inl routes) liquid small enough
    (curationWithin_run run) cash with ⟨reward, percent, -, -, splits⟩
  have whole := splits.whole allowed
  subst whole
  exact ⟨db, comment, after, percent, done, found, cash, splits⟩

end Database

end BMChain.State
