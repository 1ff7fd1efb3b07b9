import BMChain.State.FootprintOperation

/-!
# The footprint of payouts

What the payout of comments can touch.  Everything but the shares of the
author is touched on the way there and back, so a payout is taken apart at the
point where these shares are created.
-/

namespace BMChain.State

open BMChain.Foundation BMChain.Protocol Std

variable {comment : CommentObject} {rewardBalance claimed authorTokens : Int}
    {db after : Database} {id recentClaims : Nat} {ext : External}

namespace Database

/-! ## Curators, beneficiaries and the author -/

/-- What a payout touches besides the shares of the author. -/
def payoutFields : List Field :=
  [.comments, .commentVotes, .virtualOperations, .props .rewardShares,
    .account .activity, .account .balance] ++ rewardFields

/-- What the payments of a payout touch besides the shares of the author. -/
def paymentFields : List Field :=
  [.comments, .virtualOperations, .account .activity, .account .balance] ++
    rewardFields

/-- What the payments to curators and beneficiaries touch. -/
def curatorFields : List Field :=
  [.virtualOperations, .account .activity] ++ rewardFields

theorem touches_activity
    (db : Database)
    (name : AccountName)
    {change : AccountObject → Except Fault AccountObject}
    (kept : ∀ account changed, change account = .ok changed →
      ∀ aspect, aspect ≠ AccountAspect.activity →
        AccountAspect.read aspect changed =
          AccountAspect.read aspect account) :
    Touches curatorFields db (db.modifyAccount name change) :=
  (touches_modifyAccount db name [.activity] fun account changed equal aspect
    outside => kept account changed equal aspect
      (by simpa using outside)).mono (by decide)

theorem agrees_payCurator
    {maxRewards : Int}
    {paid after : Database × Int}
    {vote : Nat × CommentVoteObject}
    (done : payCurator comment maxRewards paid vote = .ok after) :
    Agrees curatorFields paid.1 after.1 := by
  unfold payCurator at done
  dsimp only at done
  split at done
  · cases done
    exact refl_of _ _
  · simp only [bind_eq_ok_iff] at done
    rcases done with
      ⟨_, -, ⟨name, _⟩, -, ⟨created, reward⟩, create, counted, count, equal⟩
    cases equal
    have shares := (agrees_createVesting_reward create).mono
      (by decide : _ ⊆ curatorFields)
    have pushed := (agrees_virtualOperations created
      (.curationReward name (vests reward) comment.author
        comment.permlink)).mono (by decide : _ ⊆ curatorFields)
    refine trans_of _ shares (trans_of _ pushed ?_)
    refine touches_activity _ _ ?_ _ count
    intro account changed equal aspect other
    simp only [bind_eq_ok_iff, pure_eq_ok_iff] at equal
    rcases equal with ⟨_, -, rfl⟩
    cases aspect <;> simp [AccountAspect.read] at other ⊢

theorem agrees_payCurators
    {maxRewards claimed unclaimed : Int}
    (done : db.payCurators id comment maxRewards =
      .ok (after, claimed, unclaimed)) :
    Agrees curatorFields db after := by
  unfold payCurators at done
  split at done
  · cases done
    exact refl_of _ _
  · simp only [bind_eq_ok_iff] at done
    rcases done with ⟨⟨paid, left⟩, pay, _, -, equal⟩
    cases equal
    split at pay
    · refine foldlM_invariant
        (fun state : Database × Int => Agrees curatorFields db state.1) ?_ pay
        (refl_of _ db)
      intro state vote next _ stepped before
      exact trans_of _ before (agrees_payCurator stepped)
    · cases pay
      exact refl_of _ _

theorem agrees_payBeneficiary
    {paid after : Database × Int}
    {route : BeneficiaryRoute}
    (done : payBeneficiary comment authorTokens paid route = .ok after) :
    Agrees curatorFields paid.1 after.1 := by
  simp only [payBeneficiary, bind_eq_ok_iff] at done
  rcases done with
    ⟨_, -, _, -, _, -, ⟨vested, shares⟩, create, _, -, equal⟩
  cases equal
  have pending := (agrees_createVesting_reward create).mono
    (by decide : _ ⊆ curatorFields)
  exact trans_of _ pending
    ((agrees_virtualOperations vested _).mono (by decide))

theorem agrees_payBeneficiaries
    {routes : List BeneficiaryRoute}
    {paid after : Database × Int}
    (done : routes.foldlM (payBeneficiary comment authorTokens) paid =
      .ok after) :
    Agrees curatorFields paid.1 after.1 := by
  refine foldlM_invariant
    (fun state : Database × Int => Agrees curatorFields paid.1 state.1) ?_
    done (refl_of _ paid.1)
  intro state route next _ stepped before
  exact trans_of _ before (agrees_payBeneficiary stepped)

/-- The author is paid in shares, and otherwise in what payouts touch. -/
theorem payAuthor_cases
    {authorTokens curationTokens beneficiaryTokens claimed : Int}
    (done : db.payAuthor id comment authorTokens curationTokens
      beneficiaryTokens claimed = .ok after) :
    ∃ scaled liquid vesting vested shares,
      checked (authorTokens * comment.percentBmtDollars) = .ok scaled ∧
        checkedDiv scaled (2 * hundredPercent) = .ok liquid ∧
          checked (authorTokens - liquid) = .ok vesting ∧
            db.createVesting comment.author vesting false =
                .ok (vested, shares) ∧
              Agrees paymentFields vested after := by
  simp only [payAuthor, bind_eq_ok_iff] at done
  rcases done with ⟨scaled, scale, liquid, halve, vesting, left, _, -, done⟩
  rcases done with ⟨⟨vested, shares⟩, create, credited, credit, done⟩
  rcases done with ⟨_, -, totalled, total, rewarded, reward, count⟩
  refine ⟨scaled, liquid, vesting, vested, shares, scale, halve, left,
    create, ?_⟩
  have balance := (touches_adjustBalance vested _ _ credited credit).mono
    (by decide : _ ⊆ paymentFields)
  have payout := (touches_modifyComment credited _ _ totalled total).mono
    (by decide : _ ⊆ paymentFields)
  have first := (agrees_virtualOperations totalled
    (.authorReward comment.author comment.permlink (bmt liquid)
      (vests shares))).mono (by decide : _ ⊆ paymentFields)
  have second := (agrees_virtualOperations
    (totalled.pushVirtualOperation (.authorReward comment.author
      comment.permlink (bmt liquid) (vests shares)))
    (.commentReward comment.author comment.permlink (bmt claimed))).mono
      (by decide : _ ⊆ paymentFields)
  have author := (touches_modifyComment _ _ _ rewarded reward).mono
    (by decide : _ ⊆ paymentFields)
  refine trans_of _ balance (trans_of _ payout (trans_of _ first
    (trans_of _ second (trans_of _ author ?_))))
  refine (touches_activity rewarded _ ?_ after count).mono (by decide)
  intro account changed equal aspect other
  simp only [bind_eq_ok_iff, pure_eq_ok_iff] at equal
  rcases equal with ⟨_, -, rfl⟩
  cases aspect <;> simp [AccountAspect.read] at other ⊢

/-- The reward which the split starts from, with the shares the author gets. -/
def authorShares (db : Database) (id : Nat) (comment : CommentObject)
    (reward : Int) : Except Fault Int := do
  let percent ← db.getCurationRewardsPercent
  let curation := wrapInt64
    (toUint64 (uint128 reward * percent % 2 ^ 128 / hundredPercent))
  let forAuthor ← checked (reward - curation)
  let (db, _, unclaimed) ← db.payCurators id comment curation
  let authorTokens ← checked (forAuthor + unclaimed)
  let (db, beneficiaryTokens) ←
    comment.beneficiaries.foldlM (payBeneficiary comment authorTokens) (db, 0)
  let authorTokens ← checked (authorTokens - beneficiaryTokens)
  let scaled ← checked (authorTokens * comment.percentBmtDollars)
  let liquid ← checkedDiv scaled (2 * hundredPercent)
  let vesting ← checked (authorTokens - liquid)
  db.toVests (bmt vesting)

theorem toVests_of_createVesting
    {name : AccountName}
    {amount shares : Int}
    (done : db.createVesting name amount false = .ok (after, shares)) :
    db.toVests (bmt amount) = .ok shares := by
  simp only [createVesting, Bool.false_eq_true, if_false, bind_eq_ok_iff,
    pure_eq_ok_iff] at done
  rcases done with
    ⟨_, rfl, created, convert, amount, symbol, _, -, _, -, _, -, _, -, equal⟩
  cases equal
  simp only [toVests, bind_eq_ok_iff]
  exact ⟨created, convert, symbol⟩

/-- The author of a comment is paid in shares, in the middle of its payout. -/
theorem splitReward_cases
    {reward claimed : Int}
    (done : db.splitReward id comment reward = .ok (after, claimed)) :
    ∃ ready vested vesting shares,
      Agrees paymentFields db ready ∧
        ready.createVesting comment.author vesting false =
            .ok (vested, shares) ∧
          Agrees paymentFields vested after ∧
            db.authorShares id comment reward = .ok shares := by
  simp only [splitReward, bind_eq_ok_iff] at done
  rcases done with ⟨percent, share, forAuthor, rest, done⟩
  rcases done with
    ⟨⟨curated, tokens, unclaimed⟩, curate, authorTokens, sum, _, -, done⟩
  rcases done with
    ⟨⟨shared, beneficiaryTokens⟩, split, finalTokens, less, paid, pay, equal⟩
  cases equal
  rcases payAuthor_cases pay with
    ⟨scaled, liquid, vesting, vested, shares, scale, halve, left, create, kept⟩
  have before := (trans_of _ (agrees_payCurators curate)
    (agrees_payBeneficiaries split)).mono (by decide : _ ⊆ paymentFields)
  refine ⟨shared, vested, vesting, shares, before, create, kept, ?_⟩
  simp only [authorShares, bind_eq_ok_iff]
  exact ⟨percent, share, forAuthor, rest, _, curate, authorTokens, sum, _,
    split, finalTokens, less, scaled, scale, liquid, halve, vesting, left,
    toVests_of_createVesting create⟩

/-! ## The payout of one comment -/

theorem touches_closeVotes
    (db : Database)
    (id : Nat) :
    Touches [.commentVotes] db (db.closeVotes id) := by
  refine .read fun comment _ => .foldlM _ fun state vote => ?_
  refine .read fun _ _ => ?_
  split
  · exact .ok (agrees_commentVotes state _)
  · exact .ok (agrees_commentVotes state _)

/-- The shares which the payout of a comment gives its author. -/
def payoutShares (ext : External) (db : Database) (id recentClaims : Nat)
    (rewardBalance : Int) : Except Fault Int := do
  let comment ← db.getCommentById id
  if 0 < comment.netRshares then do
    let (_, fund) ← db.getRewardFund
    let reward ← getRshareReward ext
      { rshares := comment.netRshares
        rewardWeight := comment.rewardWeight
        totalRewardShares2 := recentClaims
        totalRewardFundBmt := rewardBalance
        rewardCurve := fund.authorRewardCurve
        contentConstant := fund.contentConstant }
    if 0 < reward then db.authorShares id comment reward else pure 0
  else pure 0

theorem agrees_dropRshares2
    (db : Database)
    (old : Nat) :
    Agrees [.props .rewardShares] db (db.dropRshares2 old) := by
  refine (agrees_props db [.rewardShares] ?_).mono (by decide)
  intro aspect outside
  cases aspect <;> simp [PropsAspect.read] at outside ⊢

/--
The payout of a comment touches no shares, or it gives shares to one author.
-/
theorem cashout_cases
    (done : db.cashoutCommentHelper ext id recentClaims rewardBalance =
      .ok (after, claimed)) :
    Agrees payoutFields db after ∨
      ∃ ready vested author vesting shares,
        Agrees payoutFields db ready ∧
          ready.createVesting author vesting false = .ok (vested, shares) ∧
            Agrees payoutFields vested after ∧
              db.payoutShares ext id recentClaims rewardBalance =
                .ok shares := by
  simp only [cashoutCommentHelper, bind_eq_ok_iff] at done
  rcases done with
    ⟨comment, got, ⟨paid, _⟩, pay, restarted, restart, closed, close, equal⟩
  cases equal
  have closing : Agrees payoutFields paid after := by
    have fresh := (touches_modifyComment paid _ _ restarted restart).mono
      (by decide : _ ⊆ payoutFields)
    have pushed := (agrees_virtualOperations restarted
      (.commentPayoutUpdate comment.author comment.permlink)).mono
        (by decide : _ ⊆ payoutFields)
    exact trans_of _ fresh (trans_of _ pushed
      ((touches_closeVotes _ _ after close).mono (by decide)))
  split at pay
  case isFalse =>
    cases pay
    exact .inl closing
  case isTrue positive =>
    simp only [payComment, bind_eq_ok_iff] at pay
    rcases pay with ⟨fund, fundOf, reward, rewarded, ⟨split, _⟩, give, equal⟩
    cases equal
    have dropped : Agrees payoutFields split (split.dropRshares2
        (defaultRewardCurve (uint128 comment.netRshares))) :=
      (agrees_dropRshares2 split _).mono (by decide)
    split at give
    case isFalse =>
      cases give
      exact .inl (trans_of _ dropped closing)
    case isTrue some =>
      rcases splitReward_cases give with
        ⟨ready, vested, vesting, shares, before, create, kept, amount⟩
      have widen : paymentFields ⊆ payoutFields := by decide
      refine .inr ⟨ready, vested, comment.author, vesting, shares,
        before.mono widen, create,
        trans_of _ (kept.mono widen) (trans_of _ dropped closing), ?_⟩
      simp only [payoutShares, bind_eq_ok_iff]
      refine ⟨comment, got, ?_⟩
      rw [if_pos positive]
      simp only [bind_eq_ok_iff]
      refine ⟨fund, fundOf, reward, rewarded, ?_⟩
      rw [if_pos some, amount]

/-- What the payout of a comment touches. -/
def cashoutFields : List Field :=
  payoutFields ++ vestingFields

/-- What a round of payouts touches. -/
def roundFields : List Field :=
  .rewardFunds :: cashoutFields

theorem agrees_cashoutCommentHelper
    (done : db.cashoutCommentHelper ext id recentClaims rewardBalance =
      .ok (after, claimed)) :
    Agrees cashoutFields db after := by
  have widen : payoutFields ⊆ cashoutFields := by decide
  rcases cashout_cases done with kept | ⟨ready, vested, _, _, _, paid⟩
  · exact kept.mono widen
  · rcases paid with ⟨before, create, kept, -⟩
    have shares := (agrees_createVesting_shares create).mono
      (by decide : _ ⊆ cashoutFields)
    exact trans_of _ (before.mono widen)
      (trans_of _ shares (kept.mono widen))

/-- The payment of a comment before it is cleared. -/
theorem agrees_payComment
    (done : db.payComment ext id comment recentClaims rewardBalance =
      .ok (after, claimed)) :
    Agrees (.props .rewardShares :: paymentFields ++ vestingFields) db after := by
  simp only [payComment, bind_eq_ok_iff] at done
  rcases done with ⟨_, -, _, -, ⟨split, _⟩, give, equal⟩
  cases equal
  refine trans_of _ ?_ ((agrees_dropRshares2 split _).mono (by decide))
  split at give
  case isFalse =>
    cases give
    exact refl_of _ db
  case isTrue =>
    rcases splitReward_cases give with
      ⟨ready, vested, vesting, shares, before, create, kept, -⟩
    have widen : paymentFields ⊆
        .props .rewardShares :: paymentFields ++ vestingFields := by decide
    have vest := (agrees_createVesting_shares create).mono
      (by decide : _ ⊆ .props .rewardShares :: paymentFields ++ vestingFields)
    exact trans_of _ (before.mono widen) (trans_of _ vest (kept.mono widen))

/-! ## The round of payouts -/

theorem agrees_decayFunds
    {funds : List RewardFundContext}
    (done : db.decayFunds = .ok (after, funds)) :
    Agrees [.rewardFunds] db after := by
  refine foldlM_invariant
    (fun state : Database × List RewardFundContext =>
      Agrees [.rewardFunds] db state.1) ?_ done (refl_of _ db)
  intro state entry next _ stepped before
  simp only [bind_eq_ok_iff] at stepped
  rcases stepped with ⟨decayed, decay, equal⟩
  cases equal
  exact trans_of _ before (touches_modifyRewardFund state.1 _ _ decayed decay)

theorem touches_writeFunds
    (db : Database)
    (funds : List RewardFundContext) :
    Touches [.rewardFunds] db (db.writeFunds funds) :=
  .foldlM _ fun state _ => touches_modifyRewardFund state _ _

/-- A condition on every payout of a round, in the state before it. -/
def EachPayout (ext : External)
    (sound : Database → Nat → Nat → Int → Prop) (db : Database) : Prop :=
  ∀ decayed funds claims,
    firstPayoutBlock < db.headBlockNum →
      db.decayFunds = .ok (decayed, funds) →
        decayed.dueComments.foldlM (decayed.addClaims ext) funds =
            .ok claims →
          EachRound
            (fun (round : Database × List RewardFundContext) due =>
              ∀ id fund context,
                round.1.getRewardFund = .ok (id, fund) →
                  round.2[id]? = some context →
                    sound round.1 due context.recentClaims
                      context.rewardBalance)
            (fun round => (dueComments round.1).head?.map Prod.fst)
            (cashoutDue ext) decayed.comments.size (decayed, claims)

theorem eachPayout_of_forall
    {sound : Database → Nat → Nat → Int → Prop}
    (always : ∀ db id recentClaims rewardBalance,
      sound db id recentClaims rewardBalance)
    (db : Database) :
    EachPayout ext sound db := by
  intro decayed funds claims _ _ _
  refine eachRound_of_forall ?_ decayed.comments.size (decayed, claims)
  intro round due id fund context _ _
  exact always round.1 due context.recentClaims context.rewardBalance

/-- A condition on each payout gives another, with what the payouts keep. -/
theorem EachPayout.imp
    {sound implied : Database → Nat → Nat → Int → Prop}
    (holds : Database → Prop)
    (paid : ∀ db id recentClaims rewardBalance after claimed,
      db.cashoutCommentHelper ext id recentClaims rewardBalance =
          .ok (after, claimed) →
        holds db → holds after)
    (implies : ∀ db id recentClaims rewardBalance,
      holds db → sound db id recentClaims rewardBalance →
        implied db id recentClaims rewardBalance)
    (start : ∀ decayed funds,
      db.decayFunds = .ok (decayed, funds) → holds decayed)
    (each : EachPayout ext sound db) :
    EachPayout ext implied db := by
  intro decayed funds claims late decay claim
  refine (each decayed funds claims late decay claim).imp
    (fun round : Database × List RewardFundContext => holds round.1) ?_ ?_
    (start decayed funds decay)
  · intro due round next acted before
    simp only [cashoutDue, bind_eq_ok_iff] at acted
    rcases acted with ⟨_, -, _, -, ⟨cashed, _⟩, cash, _, -, equal⟩
    cases equal
    exact paid _ _ _ _ _ _ cash before
  · intro round due held fair id fund context found listed
    exact implies round.1 due context.recentClaims context.rewardBalance held
      (fair id fund context found listed)

theorem eachPayout_of_invariant
    {sound : Database → Nat → Nat → Int → Prop}
    (holds : Database → Prop)
    (paid : ∀ db id recentClaims rewardBalance after claimed,
      db.cashoutCommentHelper ext id recentClaims rewardBalance =
          .ok (after, claimed) →
        holds db → holds after)
    (sounds : ∀ db id recentClaims rewardBalance,
      holds db → sound db id recentClaims rewardBalance)
    (start : ∀ decayed funds,
      db.decayFunds = .ok (decayed, funds) → holds decayed) :
    EachPayout ext sound db :=
  (eachPayout_of_forall (fun _ _ _ _ => trivial) db).imp holds paid
    (fun db id recentClaims rewardBalance held (_ : True) =>
      sounds db id recentClaims rewardBalance held) start

/-- What the payouts of comments and the funds keep holds after the round. -/
theorem processCommentCashout_invariant
    {sound : Database → Nat → Nat → Int → Prop}
    (holds : Database → Prop)
    (funded : ∀ before after,
      Agrees [.rewardFunds] before after → holds before → holds after)
    (paid : ∀ db id recentClaims rewardBalance after claimed,
      sound db id recentClaims rewardBalance →
        db.cashoutCommentHelper ext id recentClaims rewardBalance =
            .ok (after, claimed) →
          holds db → holds after)
    (each : EachPayout ext sound db)
    (done : db.processCommentCashout ext = .ok after)
    (start : holds db) :
    holds after := by
  unfold processCommentCashout at done
  split at done
  · cases done
    exact start
  rename_i begun
  simp only [bind_eq_ok_iff] at done
  rcases done with ⟨⟨decayed, funds⟩, decay, claims, claim, done⟩
  rcases done with ⟨⟨round, written⟩, ran, write⟩
  refine funded round after (touches_writeFunds round written after write) ?_
  refine drain_invariant_each
    (fun round : Database × List RewardFundContext => holds round.1) ?_
    (each decayed funds claims (Nat.lt_of_not_le begun) decay claim) ran
    (funded db decayed (agrees_decayFunds decay) start)
  intro due round next _ fair acted before
  simp only [cashoutDue, bind_eq_ok_iff, orFault_eq_ok_iff] at acted
  rcases acted with
    ⟨⟨id, fund⟩, found, context, listed, ⟨cashed, _⟩, cash, _, -, equal⟩
  cases equal
  exact paid _ _ _ _ _ _ (fair id fund context found listed) cash before

theorem touches_processCommentCashout
    (ext : External)
    (db : Database) :
    Touches roundFields db (db.processCommentCashout ext) := by
  unfold processCommentCashout
  split
  · exact .unchanged
  refine .read ?_
  rintro ⟨decayed, funds⟩ decay
  refine .after ?_ ((agrees_decayFunds decay).mono
    (by decide : _ ⊆ roundFields))
  refine .read fun claims _ => .read ?_
  rintro ⟨paid, written⟩ ran
  have payouts : Agrees roundFields decayed paid := by
    refine drain_invariant
      (fun round : Database × List RewardFundContext =>
        Agrees roundFields decayed round.1) ?_ ran (refl_of _ decayed)
    intro due round next _ acted before
    simp only [cashoutDue, bind_eq_ok_iff] at acted
    rcases acted with ⟨_, -, _, -, ⟨cashed, _⟩, cash, _, -, equal⟩
    cases equal
    have paying := agrees_cashoutCommentHelper cash
    exact trans_of _ before (paying.mono (List.subset_cons_self _ _))
  refine .after ?_ payouts
  exact (touches_writeFunds paid written).mono (by decide)

end Database

end BMChain.State
