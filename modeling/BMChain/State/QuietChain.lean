import BMChain.State.AccountRecovery

/-!
# A chain on which nothing happens

From genesis on, the first witness can produce blocks without transactions for
years: each of them succeeds, whatever slots were missed before it.
-/

namespace BMChain.State

open BMChain.Foundation BMChain.Protocol Std Database

variable {witness : WitnessObject} {after : Database}

/-! ## Quiet states -/

/-- The first witness, with its key and without votes. -/
structure Founder (witness : WitnessObject) : Prop where
  id : witness.id = 0
  owner : witness.owner = initMinerName
  key : witness.signingKey = initPublicKey
  votes : witness.votes = 0
  worker : witness.powWorker = 0

/-- The first witness is the only one. -/
def OnlyFounder (witnesses : Register WitnessObject) : Prop :=
  ∃ witness, Founder witness ∧
    witnesses.rows = place ∅ initMinerName (some witness)

/-- An account without anything which the null account can lose. -/
structure Penniless (account : AccountObject) : Prop where
  balance : account.balance = 0
  savings : account.savingsBalance = 0
  shares : account.vestingShares = 0
  reward : account.rewardBmtBalance = 0
  rewardShares : account.rewardVestingBalance = 0

/-- The reward fund of posts, with a balance which fits. -/
structure QuietFund (fund : RewardFundObject) : Prop where
  name : fund.name = postRewardFundName
  fits : FitsInt64 fund.rewardBalance

/-- The names which genesis schedules. -/
def founderSchedule : List AccountName :=
  initMinerName :: List.replicate (maxWitnesses - 1) ""

/-- A state in which the end of a block has nothing to do. -/
structure Quiet (db : Database) : Prop where
  producer : OnlyFounder db.witnesses
  names : db.schedule.currentShuffledWitnesses = founderSchedule
  places : db.schedule.numScheduledWitnesses = 1
  elected : db.schedule.maxVotedWitnesses = 20
  required : db.schedule.hardforkRequiredWitnesses = 17
  nextHardfork : db.hardforks.nextHardfork = 0
  version : db.hardforks.currentHardforkVersion = 0
  fund : ∃ fund, QuietFund fund ∧ db.rewardFunds.rows = place ∅ 0 (some fund)
  null : ∃ account, db.accounts.find? nullAccount = some account ∧
    Penniless account
  patient : ∀ name account, db.accounts.find? name = some account →
    account.nextSavingsWithdrawal = maximumTime
  unsaved : ∀ name account, db.accounts.find? name = some account →
    account.savingsBalance = 0
  transactions : db.transactions = .empty
  limitOrders : db.limitOrders = .empty
  delegations : db.delegationExpirations = .empty
  tokens : db.customTokens = .empty
  escrows : db.escrows = .empty
  declines : db.declineRequests = .empty
  requests : db.recoveryRequests = .empty
  owners : db.ownerHistory = .empty
  known : db.changeRecoveryRequests.All fun request =>
    db.accounts.find? request.accountToRecover ≠ none

/-- The number of the head, and that the blocks before it are irreversible. -/
structure HeadAt (number : Nat) (db : Database) : Prop where
  height : db.props.headBlockNumber = number
  id : db.props.headBlockId.num = number
  irreversible : db.props.lastIrreversibleBlockNum ≤ number
  recent : number ≤ db.props.lastIrreversibleBlockNum + maxWitnesses

/-- What is known of the comments and their votes. -/
abbrev Content :=
  Table CommentObject → Table CommentVoteObject → Prop

theorem quiet_genesis :
    Quiet initGenesis where
  producer := ⟨_, ⟨rfl, rfl, rfl, rfl, rfl⟩, rfl⟩
  names := rfl
  places := rfl
  elected := rfl
  required := rfl
  nextHardfork := rfl
  version := rfl
  fund := ⟨_, ⟨rfl, by decide⟩, rfl⟩
  null := ⟨{ id := 1, name := nullAccount }, rfl,
    rfl, rfl, rfl, rfl, rfl⟩
  patient _ _ found :=
    genesis_account (fun account => account.nextSavingsWithdrawal = maximumTime)
      (by decide +kernel) found
  unsaved _ _ found :=
    genesis_account (fun account => account.savingsBalance = 0)
      (by decide +kernel) found
  transactions := rfl
  limitOrders := rfl
  delegations := rfl
  tokens := rfl
  escrows := rfl
  declines := rfl
  requests := rfl
  owners := rfl
  known := Table.All.empty

theorem headAt_genesis :
    HeadAt 0 initGenesis :=
  ⟨rfl, rfl, Nat.le_refl _, Nat.zero_le _⟩

/-! ## Steps with nothing to do -/

namespace Quiet

variable {ext : External} {header : BlockHeader} {db : Database}

variable (quiet : Quiet db)

include quiet

theorem clearExpiredTransactions :
    db.clearExpiredTransactions = .ok db := by
  refine drain_idle ?_ _
  rw [quiet.transactions]
  rfl

theorem clearExpiredOrders :
    db.clearExpiredOrders = .ok db := by
  refine drain_idle ?_ _
  rw [quiet.limitOrders]
  rfl

theorem clearExpiredDelegations :
    db.clearExpiredDelegations = .ok db := by
  refine drain_idle ?_ _
  rw [quiet.delegations]
  rfl

theorem expireEscrowRatification :
    db.expireEscrowRatification = .ok db := by
  refine drain_idle ?_ _
  rw [firstUnratified, quiet.escrows]
  rfl

theorem processDeclineVotingRights :
    db.processDeclineVotingRights = .ok db := by
  refine drain_idle ?_ _
  rw [firstDecline, quiet.declines]
  rfl

theorem clearNullAccountBalance :
    db.clearNullAccountBalance = .ok db := by
  rcases quiet.null with ⟨account, found, poor⟩
  have got : db.getAccount nullAccount = .ok account :=
    orFault_eq_ok_iff.2 found
  simp [Database.clearNullAccountBalance, burnBalance, burnSavings,
    burnVesting, burnReward, burnRewardVesting, got, poor.balance,
    poor.savings, poor.shares, poor.reward, poor.rewardShares, bind,
    Except.bind, pure, Except.pure]

theorem processVestingWithdrawals
    (early : db.headBlockTime < maximumTime) :
    db.processVestingWithdrawals = .ok db := by
  unfold Database.processVestingWithdrawals
  cases first : firstBy beforeByWithdrawal
      (db.accounts.entries.map Prod.snd) with
  | none =>
      unfold withdrawAlong
      rfl
  | some account =>
      rcases List.mem_map.1 (mem_of_firstBy first) with
        ⟨⟨name, _⟩, listed, rfl⟩
      have found := ExtTreeMap.mem_toList_iff_getElem?_eq_some.1 listed
      have some : db.accounts.size ≠ 0 := by
        intro none
        have nothing : db.accounts.entries = [] :=
          List.eq_nil_of_length_eq_zero (ExtTreeMap.length_toList.trans none)
        rw [nothing] at listed
        cases listed
      have rounds : ∃ rounds, db.accounts.size * 2 ^ 32 = rounds + 1 :=
        Nat.exists_eq_succ_of_ne_zero (Nat.mul_ne_zero some (by decide))
      rcases rounds with ⟨rounds, equal⟩
      rw [equal, withdrawAlong, if_neg]
      rw [quiet.patient name _ found]
      exact Nat.not_le_of_lt early

theorem customTokensEmissions :
    db.customTokensEmissions = .ok db := by
  unfold Database.customTokensEmissions
  split
  · rfl
  · rw [quiet.tokens]
    unfold emitAlong
    rfl

theorem totalSavings :
    db.totalSavings = .ok 0 := by
  refine foldlM_idle ?_
  rintro ⟨name, account⟩ listed
  have found := ExtTreeMap.mem_toList_iff_getElem?_eq_some.1 listed
  dsimp only
  rw [quiet.unsaved name account found]
  rfl

theorem processSavingsReward :
    db.processSavingsReward ext = .ok db := by
  unfold Database.processSavingsReward
  dsimp only
  split
  · rfl
  · rw [quiet.totalSavings]
    rfl

theorem processHardforks
    (small : db.headBlockNum ≠ burnInitRepBlock) :
    db.processHardforks = .ok db := by
  rw [Database.processHardforks, require_pos (.inl quiet.nextHardfork)]
  simp only [bind, Except.bind]
  rw [if_neg small]
  rfl

/-! ## The reward fund -/

omit quiet in
theorem entries_fund
    {funds : Table RewardFundObject}
    {fund : RewardFundObject}
    (rows : funds.rows = place ∅ 0 (some fund)) :
    funds.entries = [(0, fund)] := by
  rw [Table.entries, rows, toList_place_empty]

/-- A change of the only fund to a quiet one keeps the quiet. -/
theorem modifyRewardFund
    {change : RewardFundObject → Except Fault RewardFundObject}
    (changes : ∀ fund, QuietFund fund → Yields (change fund) QuietFund) :
    Yields (db.modifyRewardFund 0 change) fun after =>
      ∃ funds, after = { db with rewardFunds := funds } ∧ Quiet after := by
  rcases quiet.fund with ⟨fund, settled, rows⟩
  have found : db.rewardFunds.find? 0 = some fund := by
    rw [Table.find?, rows, getElem?_place, if_pos rfl]
  have row : Yields (modifyRow db.rewardFunds 0 change) fun funds =>
      ∃ fund, QuietFund fund ∧ funds.rows = place ∅ 0 (some fund) := by
    rw [modifyRow, found]
    refine (changes fund settled).bind fun changed still => ?_
    refine .ok ⟨changed, still, ?_⟩
    rw [Table.set_rows found, rows, place_place]
  exact row.bind fun funds single =>
    .ok ⟨funds, rfl, { quiet with fund := single }⟩

/-- The claims of the fund decay. -/
theorem decayFunds :
    Yields db.decayFunds fun decayed =>
      (∃ funds, decayed.1 = { db with rewardFunds := funds }) ∧
        Quiet decayed.1 ∧ ∃ context : RewardFundContext,
          decayed.2 = [context] ∧ context.bmtAwarded = 0 := by
  rcases quiet.fund with ⟨fund, settled, rows⟩
  rw [Database.decayFunds, entries_fund rows, List.foldlM_cons]
  refine .bind ?_ fun decayed facts => .ok facts
  have modified : Yields (db.modifyRewardFund 0 fun _ =>
      pure (decayClaims db.headBlockTime fund)) fun after =>
        ∃ funds, after = { db with rewardFunds := funds } ∧ Quiet after :=
    quiet.modifyRewardFund fun _ _ => .ok ⟨settled.name, settled.fits⟩
  refine modified.bind ?_
  rintro _ ⟨funds, rfl, quiet⟩
  exact .ok ⟨⟨funds, rfl⟩, quiet, _, rfl, rfl⟩

/-- The fund is written back as it is when nothing was awarded. -/
theorem writeFunds
    {context : RewardFundContext}
    (none : context.bmtAwarded = 0) :
    Yields (db.writeFunds [context]) fun after =>
      ∃ funds, after = { db with rewardFunds := funds } ∧ Quiet after := by
  refine .bind (quiet.modifyRewardFund ?_) fun written facts => .ok facts
  intro fund settled
  have fits : checked (fund.rewardBalance - context.bmtAwarded) =
      .ok fund.rewardBalance := by
    rw [none, Int.sub_zero]
    exact checked_eq_ok_iff.2 ⟨settled.fits, rfl⟩
  exact .step fits (.ok ⟨settled.name, settled.fits⟩)

/-- Without rewards, a round of payouts leaves what its drain leaves. -/
theorem processCommentCashout_of_drain
    {final : Content}
    (early : db.headBlockNum ≤ firstPayoutBlock →
      final db.comments db.commentVotes)
    (against : db.comments.All fun comment => comment.netRshares ≤ 0)
    (drained : ∀ funds context,
      Quiet { db with rewardFunds := funds } →
        context.bmtAwarded = 0 →
          Yields (drain "a payout is due again"
            (fun round : Database × List RewardFundContext =>
              (dueComments round.1).head?.map Prod.fst)
            (cashoutDue ext) db.comments.size
            ({ db with rewardFunds := funds }, [context]))
            fun round => Quiet round.1 ∧
              final round.1.comments round.1.commentVotes ∧
                ∃ context : RewardFundContext,
                  round.2 = [context] ∧ context.bmtAwarded = 0) :
    Yields (db.processCommentCashout ext) fun after =>
      Quiet after ∧ final after.comments after.commentVotes := by
  unfold Database.processCommentCashout
  split
  case isTrue young => exact .ok ⟨quiet, early young⟩
  refine quiet.decayFunds.bind ?_
  rintro ⟨_, _⟩ ⟨⟨funds, rfl⟩, quiet, context, rfl, none⟩
  dsimp only
  have claims : (dueComments { db with rewardFunds := funds }).foldlM
      (addClaims ext { db with rewardFunds := funds }) [context] =
        .ok [context] := by
    refine foldlM_idle ?_
    intro due member
    rw [dueComments, List.mem_insertionSort, List.mem_filter] at member
    have found := ExtTreeMap.mem_toList_iff_getElem?_eq_some.1 member.1
    exact if_neg (Int.not_lt.2 (against due.1 due.2 found))
  refine .step claims ((drained funds context quiet none).bind ?_)
  rintro ⟨round, _⟩ ⟨quiet, left, context, rfl, none⟩
  refine (quiet.writeFunds none).mono ?_
  rintro _ ⟨funds, rfl, quiet⟩
  exact ⟨quiet, left⟩

/-- Without comments, only the claims of the fund decay. -/
theorem processCommentCashout
    (empty : db.comments = .empty) :
    Yields (db.processCommentCashout ext) fun after =>
      Quiet after ∧ after.comments = .empty := by
  refine @processCommentCashout_of_drain ext db quiet
    (fun comments _ => comments = .empty) (fun _ => empty) ?_ ?_
  · rw [empty]
    exact Table.All.empty
  · intro funds context quiet none
    refine .of_eq (drain_idle ?_ _) ⟨quiet, empty, context, rfl, none⟩
    rw [dueComments]
    dsimp only
    rw [empty]
    rfl

/-! ## Recovery accounts -/

/-- A change of an account's recovery account keeps the quiet. -/
theorem applyRecoveryChange
    {entry : Nat × ChangeRecoveryAccountRequestObject}
    (found : db.changeRecoveryRequests.find? entry.1 = some entry.2) :
    Yields (Database.applyRecoveryChange entry db) fun after =>
      Quiet after ∧ after.headBlockTime = db.headBlockTime ∧
        after.changeRecoveryRequests =
          db.changeRecoveryRequests.remove entry.1 := by
  have there := quiet.known entry.1 entry.2 found
  rcases Option.ne_none_iff_exists'.1 there with ⟨account, known⟩
  have changed : Yields
      (db.modifyAccount entry.2.accountToRecover fun account =>
        pure { account with recoveryAccount := entry.2.recoveryAccount })
      fun after => ∃ accounts : Register AccountObject,
        after = { db with accounts := accounts } ∧
          ∀ other, accounts.find? other =
            if entry.2.accountToRecover = other then
              some { account with recoveryAccount := entry.2.recoveryAccount }
            else db.accounts.find? other := by
    refine ⟨_, modifyAccount_eq_ok_iff.2 ⟨account, _, known, rfl, rfl⟩, _, rfl, ?_⟩
    intro other
    rw [Register.find?, Register.set_rows known, getElem?_place]
    rfl
  refine changed.bind ?_
  rintro _ ⟨accounts, rfl, rows⟩
  have kept : ∀ name account, accounts.find? name = some account →
      ∃ old, db.accounts.find? name = some old ∧
        account.nextSavingsWithdrawal = old.nextSavingsWithdrawal ∧
          account.savingsBalance = old.savingsBalance ∧
            (Penniless old → Penniless account) := by
    intro name account there
    rw [rows name] at there
    split at there
    case isTrue same =>
      subst same
      cases there
      exact ⟨_, known, rfl, rfl, fun poor => ⟨poor.balance, poor.savings,
        poor.shares, poor.reward, poor.rewardShares⟩⟩
    case isFalse => exact ⟨account, there, rfl, rfl, fun poor => poor⟩
  have stay : ∀ name, db.accounts.find? name ≠ none →
      accounts.find? name ≠ none := by
    intro name there
    rw [rows name]
    split
    · exact Option.some_ne_none _
    · exact there
  refine .ok ⟨{ quiet with
    null := ?_
    patient := ?_
    unsaved := ?_
    known := ?_ }, rfl, rfl⟩
  · rcases quiet.null with ⟨poor, found, penniless⟩
    rcases Option.ne_none_iff_exists'.1
      (stay nullAccount (found ▸ Option.some_ne_none poor)) with ⟨null, there⟩
    rcases kept nullAccount null there with ⟨old, was, -, -, loses⟩
    rw [found] at was
    cases was
    exact ⟨null, there, loses penniless⟩
  · intro name account there
    rcases kept name account there with ⟨old, was, same, -, -⟩
    exact same.trans (quiet.patient name old was)
  · intro name account there
    rcases kept name account there with ⟨old, was, -, same, -⟩
    exact same.trans (quiet.unsaved name old was)
  · refine Table.All.remove ?_ entry.1
    exact fun id request found => stay _ (quiet.known id request found)

/-- The sweep of recovery changes recovery accounts at most. -/
theorem accountRecoveryProcessing :
    Yields db.accountRecoveryProcessing Quiet := by
  unfold Database.accountRecoveryProcessing
  refine .step (drain_idle ?_ _) (.step (drain_idle ?_ _) ?_)
  · rw [quiet.requests]
    rfl
  · rw [quiet.owners]
    rfl
  refine .drain Quiet (fun state => state.changeRecoveryRequests.size) ?_
    (Nat.le_refl _) quiet
  intro entry state offered quiet
  have found := find?_of_firstDue offered
  rcases quiet.applyRecoveryChange found with ⟨after, done, quiet, -, changes⟩
  refine ⟨after, done, quiet, ?_⟩
  rw [changes]
  exact Table.size_remove_lt found

/-! ## The witness -/

omit quiet in
theorem entries_founder
    {witnesses : Register WitnessObject}
    (rows : witnesses.rows = place ∅ initMinerName (some witness)) :
    witnesses.entries = [(initMinerName, witness)] := by
  rw [Register.entries, rows, toList_place_empty]

theorem size_founder :
    db.witnesses.size = 1 := by
  rcases quiet.producer with ⟨witness, -, rows⟩
  have listed := congrArg List.length (entries_founder rows)
  rw [Register.entries, ExtTreeMap.length_toList] at listed
  exact listed

/-- The only witness is found. -/
theorem getWitness :
    Yields (db.getWitness initMinerName) Founder := by
  rcases quiet.producer with ⟨witness, founder, rows⟩
  refine .of_eq (orFault_eq_ok_iff.2 ?_) founder
  rw [Register.find?, rows, getElem?_place, if_pos rfl]

/-- The only witness is changed. -/
theorem modifyWitness_row
    {change : WitnessObject → Except Fault WitnessObject}
    (property : WitnessObject → Prop)
    (changes : ∀ witness, Founder witness →
      Yields (change witness) fun changed => Founder changed ∧ property changed) :
    Yields (db.modifyWitness initMinerName change) fun after =>
      ∃ (witnesses : Register WitnessObject) (witness : WitnessObject),
        after = { db with witnesses := witnesses } ∧ Founder witness ∧
          property witness ∧
            witnesses.rows = place ∅ initMinerName (some witness) := by
  rcases quiet.producer with ⟨witness, founder, rows⟩
  have found : db.witnesses.find? initMinerName = some witness := by
    rw [Register.find?, rows, getElem?_place, if_pos rfl]
  have row : Yields (modifyNamed db.witnesses initMinerName change)
      fun witnesses => ∃ witness, Founder witness ∧ property witness ∧
        witnesses.rows = place ∅ initMinerName (some witness) := by
    rw [modifyNamed, found]
    refine (changes witness founder).bind fun changed facts => ?_
    refine .ok ⟨changed, facts.1, facts.2, ?_⟩
    rw [Register.set_rows found, rows, place_place]
  refine row.bind ?_
  rintro witnesses ⟨witness, facts⟩
  exact .ok ⟨witnesses, witness, rfl, facts⟩

/-- A change which leaves the witness what it is keeps the quiet. -/
theorem modifyWitness
    {change : WitnessObject → Except Fault WitnessObject}
    (changes : ∀ witness, Founder witness → Yields (change witness) Founder) :
    Yields (db.modifyWitness initMinerName change) Quiet := by
  refine (quiet.modifyWitness_row (fun _ => True) ?_).mono ?_
  · exact fun witness founder =>
      (changes witness founder).mono fun _ still => ⟨still, trivial⟩
  · rintro _ ⟨witnesses, witness, rfl, founder, -, rows⟩
    exact { quiet with producer := ⟨witness, founder, rows⟩ }

/-- The witness is given a place in the schedule. -/
theorem markScheduled
    (place : WitnessScheduleType)
    {witnesses : List WitnessObject}
    (founders : ∀ witness ∈ witnesses, Founder witness) :
    Yields (db.markScheduled place witnesses) Quiet := by
  refine .foldlM Quiet ?_ quiet
  intro state witness member quiet
  rw [(founders witness member).owner]
  exact quiet.modifyWitness fun witness founder =>
    .ok ⟨founder.id, founder.owner, founder.key, founder.votes,
      founder.worker⟩

/-- The lists of witnesses by votes and by their time in the race. -/
theorem listed_founder :
    ∃ witness, Founder witness ∧ db.witnessesByVote = [witness] ∧
      db.witnessesBySchedule = [witness] := by
  rcases quiet.producer with ⟨witness, founder, rows⟩
  refine ⟨witness, founder, ?_, ?_⟩
  · rw [witnessesByVote, entries_founder rows]
    rfl
  · rw [witnessesBySchedule, entries_founder rows]
    rfl

theorem elected_founder :
    ∃ witness, Founder witness ∧ db.electedWitnesses = [witness] := by
  rcases quiet.listed_founder with ⟨witness, founder, byVote, -⟩
  refine ⟨witness, founder, ?_⟩
  rw [electedWitnesses, byVote, quiet.elected]
  simp [founder.key, initPublicKey]

theorem minersQueue_founder :
    db.minersQueue = [] := by
  rcases quiet.producer with ⟨witness, founder, rows⟩
  rw [minersQueue, entries_founder rows]
  simp [founder.worker]

theorem startLaps
    (time : Nat)
    (founder : Founder witness) :
    Yields (Database.startLaps time [witness] db) fun after =>
      Quiet after.1 := by
  have lap : divideUint128 maxUint128 (uint128 (witness.votes + 1)) =
      .ok maxUint128 := by
    rw [founder.votes]
    rfl
  refine .step lap ?_
  dsimp only
  split
  · exact .ok quiet
  · rw [founder.owner]
    refine .bind (quiet.modifyWitness ?_) fun started quiet => .ok quiet
    exact fun witness founder =>
      .ok ⟨founder.id, founder.owner, founder.key, founder.votes,
        founder.worker⟩

theorem resetVirtualScheduleTime :
    Yields db.resetVirtualScheduleTime Quiet := by
  rcases quiet.producer with ⟨witness, founder, rows⟩
  rw [Database.resetVirtualScheduleTime, entries_founder rows]
  refine .foldlM Quiet ?_ { quiet with }
  intro state entry member quiet
  rw [List.mem_singleton.1 member]
  refine quiet.modifyWitness ?_
  intro witness founder
  have lap : divideUint128 maxUint128 (uint128 (witness.votes + 1)) =
      .ok maxUint128 := by
    rw [founder.votes]
    rfl
  refine .step lap ?_
  exact .ok ⟨founder.id, founder.owner, founder.key, founder.votes,
    founder.worker⟩

/-- The scheduled witnesses are the only one. -/
theorem scheduledWitnesses_eq
    (got : db.getWitness initMinerName = .ok witness) :
    db.scheduledWitnesses = .ok [witness] := by
  rw [Database.scheduledWitnesses, quiet.names, quiet.places]
  change List.mapM db.getWitness [initMinerName] = _
  simp [List.mapM_cons, got, bind, Except.bind, pure, Except.pure]

theorem scheduledWitnesses :
    Yields db.scheduledWitnesses fun scheduled =>
      ∃ witness, Founder witness ∧ scheduled = [witness] := by
  rcases quiet.getWitness with ⟨witness, got, founder⟩
  exact .of_eq (quiet.scheduledWitnesses_eq got) ⟨witness, founder, rfl⟩

/-- One witness cannot decide on a hardfork. -/
theorem countHardforkVotes
    (witness : WitnessObject) :
    Quiet (db.countHardforkVotes [witness]) := by
  have few : majorityHardfork db.schedule.hardforkRequiredWitnesses
      ([witness].map fun witness =>
        (witness.hardforkVersionVote, witness.hardforkTimeVote)) = none := by
    rw [quiet.required, majorityHardfork, List.find?_eq_none]
    intro vote _ enough
    have count : List.count vote ([witness].map fun witness =>
        (witness.hardforkVersionVote, witness.hardforkTimeVote)) ≤ 1 :=
      List.count_le_length
    rw [decide_eq_true_eq] at enough
    omega
  rw [Database.countHardforkVotes, few]
  exact { quiet with nextHardfork := quiet.version }

/-- The schedule is written as it was. -/
theorem writeSchedule
    (founder : Founder witness)
    (time version : Nat) :
    Quiet (db.writeSchedule [witness] [] [] time version) := by
  refine { quiet with names := ?_, places := rfl }
  change shuffleNames db.headBlockTime 1
    ([witness.owner] ++ List.replicate (maxWitnesses - 1) "") = _
  rw [founder.owner, shuffleNames, List.range_one, List.foldl_cons,
    List.foldl_nil]
  dsimp only
  rw [Nat.sub_zero, Nat.mod_one]
  rfl

theorem updateMedianWitnessProps :
    Yields db.updateMedianWitnessProps Quiet := by
  refine quiet.scheduledWitnesses.bind ?_
  rintro _ ⟨witness, founder, rfl⟩
  have middle : orFault ([witness].insertionSort fun first second =>
      first.props.accountCreationFee.amount ≤
        second.props.accountCreationFee.amount)[[witness].length / 2]?
      "out of range" = .ok witness := by
    simp [orFault]
  have size : median ([witness].map fun witness =>
      witness.props.maximumBlockSize) =
        .ok witness.props.maximumBlockSize := by
    simp [median, orFault]
  refine .step middle (.step size ?_)
  exact .ok { quiet with }

/-- The witness is elected once more. -/
theorem updateWitnessSchedule :
    Yields db.updateWitnessSchedule Quiet := by
  unfold Database.updateWitnessSchedule
  split
  case isFalse => exact .ok quiet
  unfold updateWitnessSchedule4
  rcases quiet.elected_founder with ⟨elected, voted, electedList⟩
  rw [electedList]
  refine .bind (quiet.markScheduled _ ?_) ?_
  · intro witness member
    rw [List.mem_singleton.1 member]
    exact voted
  intro marked quiet
  dsimp only
  rw [quiet.minersQueue_founder]
  refine .bind (.ok rfl) ?_
  rintro _ rfl
  rcases quiet.listed_founder with ⟨racing, founder, -, bySchedule⟩
  have race : runRace ([].map WitnessObject.id ++
        [elected].map WitnessObject.id) [racing]
      ([elected].length + ([] : List WitnessObject).length) =
        ⟨[racing], []⟩ := by
    simp [runRace, maxWitnesses, founder.id, voted.id]
  dsimp only
  rw [bySchedule, race]
  refine .bind (quiet.markScheduled _ (by simp)) ?_
  intro joined quiet
  refine .bind (quiet.startLaps _ founder) ?_
  rintro ⟨lapped, overflow⟩ quiet
  have reset : Yields
      (if overflow then lapped.resetVirtualScheduleTime else pure lapped)
      Quiet := by
    split
    · exact Quiet.resetVirtualScheduleTime quiet
    · exact .ok quiet
  refine reset.bind ?_
  intro raced quiet
  refine .step (require_pos ?_) ?_
  · rw [quiet.size_founder]
    rfl
  refine quiet.scheduledWitnesses.bind ?_
  rintro _ ⟨witness, -, rfl⟩
  have counted := quiet.countHardforkVotes witness
  exact (counted.writeSchedule voted _ _).updateMedianWitnessProps

/-- The steps of a block which start from its head, payouts apart. -/
theorem runStep
    (early : db.headBlockTime < maximumTime)
    (small : db.headBlockNum ≠ burnInitRepBlock)
    {step : BlockStep}
    (late : step ∈ blockSteps.drop 3)
    (other : step ≠ .processCommentCashout) :
    Yields (db.runStep ext header step) Quiet := by
  cases step with
  | updateGlobalDynamicData => simp [blockSteps] at late
  | updateSigningWitness => simp [blockSteps] at late
  | updateLastIrreversibleBlock => simp [blockSteps] at late
  | processCommentCashout => exact absurd rfl other
  | createBlockSummary => exact .ok { quiet with }
  | clearExpiredTransactions =>
      exact .of_eq quiet.clearExpiredTransactions quiet
  | clearExpiredOrders => exact .of_eq quiet.clearExpiredOrders quiet
  | clearExpiredDelegations =>
      exact .of_eq quiet.clearExpiredDelegations quiet
  | updateWitnessSchedule => exact quiet.updateWitnessSchedule
  | updateVirtualSupply => exact .ok { quiet with }
  | clearNullAccountBalance =>
      exact .of_eq quiet.clearNullAccountBalance quiet
  | processVestingWithdrawals =>
      exact .of_eq (quiet.processVestingWithdrawals early) quiet
  | customTokensEmissions => exact .of_eq quiet.customTokensEmissions quiet
  | processSavingsReward => exact .of_eq quiet.processSavingsReward quiet
  | accountRecoveryProcessing => exact quiet.accountRecoveryProcessing
  | expireEscrowRatification =>
      exact .of_eq quiet.expireEscrowRatification quiet
  | processDeclineVotingRights =>
      exact .of_eq quiet.processDeclineVotingRights quiet
  | processHardforks => exact .of_eq (quiet.processHardforks small) quiet

end Quiet

/-! ## Blocks -/

/-- A block at every interval of the first years comes before the last time. -/
theorem quietTime_lt
    {number : Nat}
    (small : number < burnInitRepBlock) :
    genesisTime + blockInterval * number < maximumTime := by
  have bound : number < 10512000 := small
  show 1510655500 + 3 * number < 2 ^ 32 - 1
  omega

/-- The header of a block without transactions on a state. -/
def quietHeader (db : Database) (time : Time) : BlockHeader where
  timestamp := time
  witness := initMinerName
  signee := initPublicKey
  previous := db.props.headBlockId

section Blocks

variable {ext : External} {db : Database} {number : Nat} {time : Time}

theorem HeadAt.of_agrees
    {fields : List Field}
    (head : HeadAt number db)
    (agrees : Agrees fields db after)
    (separate : apart [.props .head] fields = true) :
    HeadAt number after := by
  have same : (Field.props .head).read after = (Field.props .head).read db :=
    agrees.read_eq separate List.mem_cons_self
  simp only [Field.read, PropsAspect.read, Prod.mk.injEq] at same
  rcases same with ⟨height, id, -, -, -, -, irreversible⟩
  constructor
  · rw [height, head.height]
  · rw [id, head.id]
  · rw [irreversible]
    exact head.irreversible
  · rw [irreversible]
    exact head.recent

theorem Quiet.getScheduledWitness
    (quiet : Quiet db)
    (slot : Nat) :
    db.getScheduledWitness slot = initMinerName := by
  rw [Database.getScheduledWitness, quiet.names, quiet.places, Nat.mod_one]
  rfl

/-- A slot of the witness which produces the block is not counted. -/
theorem Quiet.missSlot
    (quiet : Quiet db)
    (slot : Nat) :
    db.missSlot initMinerName slot = .ok db := by
  rcases quiet.getWitness with ⟨witness, got, founder⟩
  rw [Database.missSlot, quiet.getScheduledWitness, got]
  simp only [bind, Except.bind]
  rw [if_pos founder.owner]
  rfl

/-- The slot of a later time has a number. -/
theorem slot_pos
    (later : db.headBlockTime + blockInterval ≤ time)
    (early : time < maximumTime) :
    0 < db.getSlotAtTime time := by
  have first : db.getSlotTime 1 ≤ time := by
    unfold getSlotTime addSeconds
    rw [if_neg (by decide)]
    split
    · exact Nat.le_trans (Nat.mod_le _ _) later
    · refine Nat.le_trans (Nat.mod_le _ _) (Nat.le_trans ?_ later)
      exact Nat.add_le_add_right (Nat.div_mul_le_self _ _) _
  unfold getSlotAtTime
  dsimp only
  rw [if_neg (Nat.not_lt_of_le first), Nat.mod_eq_of_lt]
  · exact Nat.succ_pos _
  · have quotient : (time - db.getSlotTime 1) / blockInterval ≤ time :=
      Nat.le_trans (Nat.div_le_self _ _) (Nat.sub_le _ _)
    exact Nat.lt_of_le_of_lt (Nat.succ_le_succ quotient)
      (Nat.succ_lt_succ early)

/-- The next block of a quiet chain is begun. -/
theorem Quiet.beginBlock
    (quiet : Quiet db)
    (head : HeadAt number db)
    (later : db.headBlockTime + blockInterval ≤ time)
    (early : time < maximumTime) :
    Yields (db.beginBlock (quietHeader db time)) fun begun =>
      Quiet begun ∧ HeadAt number begun ∧
        begun.props.headBlockId = db.props.headBlockId := by
  rcases quiet.getWitness with ⟨witness, got, founder⟩
  have valid : db.validateBlockHeader (quietHeader db time) = .ok () := by
    simp only [validateBlockHeader, bind_eq_ok_iff, require_eq_ok_iff]
    refine ⟨(), rfl, (), ?_, witness, got, (), founder.key.symm, (),
      slot_pos later early, ?_⟩
    · exact Nat.lt_of_lt_of_le (Nat.lt_add_of_pos_right (by decide)) later
    · rw [founder.owner, quiet.getScheduledWitness]
  refine .step valid (.step rfl (.step got (.step (require_pos ?_) ?_)))
  · change db.hardforks.currentHardforkVersion ≤ _
    rw [quiet.version]
    exact Nat.zero_le _
  · exact .ok ⟨{ quiet with }, ⟨head.height, head.id, head.irreversible,
      head.recent⟩, rfl⟩

/-- The participation record has no part in anything else. -/
theorem foldl_recordSlot
    (places : List Nat)
    (props : DynamicGlobalProperties) :
    ∃ count filled,
      places.foldl (fun props place => recordSlot (place = 0) props) props =
        { props with
          participationCount := count
          recentSlotsFilled := filled } := by
  induction places generalizing props with
  | nil => exact ⟨props.participationCount, props.recentSlotsFilled, rfl⟩
  | cons place rest induction =>
      rcases induction (recordSlot (place = 0) props) with
        ⟨count, filled, equal⟩
      exact ⟨count, filled, equal⟩

/-- The head moves on by one block. -/
theorem Quiet.updateGlobalDynamicData
    {header : BlockHeader}
    (quiet : Quiet db)
    (head : HeadAt number db)
    (small : number + 1 < burnInitRepBlock)
    (witness : header.witness = initMinerName)
    (previous : header.previous = db.props.headBlockId) :
    Yields (db.updateGlobalDynamicData header) fun after =>
      Quiet after ∧ after.props.headBlockNumber = number + 1 ∧
        after.props.headBlockId.num = number + 1 ∧
          after.headBlockTime = header.timestamp ∧
            after.props.lastIrreversibleBlockNum =
              db.props.lastIrreversibleBlockNum := by
  have numbered : header.number = number + 1 := by
    rw [BlockHeader.number, previous, head.id]
    exact Nat.mod_eq_of_lt (Nat.lt_trans small (by decide))
  rw [Database.updateGlobalDynamicData, witness]
  refine .step (foldlM_idle fun place _ => quiet.missSlot (place + 1)) ?_
  rcases foldl_recordSlot (List.range ((if db.headBlockTime = 0 then 0
    else decrement 32 (db.getSlotAtTime header.timestamp)) + 1)) db.props with
      ⟨count, filled, recorded⟩
  dsimp only
  rw [recorded]
  refine .step (require_pos ?_) (.ok ?_)
  · change (header.number +
      (2 ^ 32 - db.props.lastIrreversibleBlockNum)) % 2 ^ 32 < maxUndoHistory
    rw [numbered]
    have above := head.irreversible
    have below := head.recent
    simp only [maxWitnesses, maxUndoHistory, burnInitRepBlock] at *
    omega
  · exact ⟨{ quiet with }, numbered, numbered, rfl, rfl⟩

/-- The witness of a block confirms it. -/
theorem Quiet.updateSigningWitness
    {header : BlockHeader}
    (quiet : Quiet db)
    (witness : header.witness = initMinerName) :
    Yields (db.updateSigningWitness header) fun after =>
      Quiet after ∧ after.props = db.props ∧
        ∃ signing, after.getWitness initMinerName = .ok signing ∧
          signing.lastConfirmedBlockNum = header.number := by
  rw [Database.updateSigningWitness, witness]
  refine (quiet.modifyWitness_row (fun signing =>
    signing.lastConfirmedBlockNum = header.number) ?_).mono ?_
  · exact fun witness founder => .ok ⟨⟨founder.id, founder.owner, founder.key,
      founder.votes, founder.worker⟩, rfl⟩
  · rintro _ ⟨witnesses, signing, rfl, founder, confirmed, rows⟩
    refine ⟨{ quiet with producer := ⟨signing, founder, rows⟩ }, rfl,
      signing, orFault_eq_ok_iff.2 ?_, confirmed⟩
    rw [Register.find?, rows, getElem?_place, if_pos rfl]

/-- The last irreversible block follows the head. -/
theorem Quiet.updateLastIrreversibleBlock
    {signing : WitnessObject}
    (quiet : Quiet db)
    (height : db.props.headBlockNumber = number)
    (id : db.props.headBlockId.num = number)
    (below : db.props.lastIrreversibleBlockNum ≤ number)
    (got : db.getWitness initMinerName = .ok signing)
    (confirmed : signing.lastConfirmedBlockNum = number) :
    Yields db.updateLastIrreversibleBlock fun after =>
      Quiet after ∧ HeadAt number after ∧
        after.headBlockTime = db.headBlockTime ∧
          (Database.startMinerVotingBlock ≤ number →
            after.props.lastIrreversibleBlockNum = number) := by
  unfold Database.updateLastIrreversibleBlock
  have same : db.headBlockNum = number := height
  split
  case isTrue =>
    refine .ok ⟨{ quiet with }, ⟨height, id, ?_, ?_⟩, rfl, fun _ => by omega⟩
    · dsimp only
      split <;> omega
    · dsimp only
      split <;> omega
  case isFalse =>
    refine .step (quiet.scheduledWitnesses_eq got) ?_
    have only : orFault (([signing].map
        WitnessObject.lastConfirmedBlockNum).insertionSort (· ≤ ·))[
          (hundredPercent - irreversibleThreshold) * [signing].length /
            hundredPercent]? "out of range" = .ok number := by
      simp [orFault, confirmed, hundredPercent, irreversibleThreshold]
    refine .step only (.ok ⟨{ quiet with }, ⟨height, id, ?_, ?_⟩, rfl,
      fun _ => Nat.max_eq_left below⟩)
    · exact Nat.max_le.2 ⟨Nat.le_refl _, below⟩
    · exact Nat.le_trans (Nat.le_max_left _ _) (Nat.le_add_right _ _)

/-- The first steps of a block leave a quiet state with the new head. -/
theorem Quiet.newHead
    {header : BlockHeader}
    (quiet : Quiet db)
    (head : HeadAt number db)
    (small : number + 1 < burnInitRepBlock)
    (witness : header.witness = initMinerName)
    (previous : header.previous = db.props.headBlockId) :
    Yields ((blockSteps.take 3).foldlM (Database.runStep ext header) db)
      fun after => Quiet after ∧ HeadAt (number + 1) after ∧
        after.headBlockTime = header.timestamp := by
  have numbered : header.number = number + 1 := by
    rw [BlockHeader.number, previous, head.id]
    exact Nat.mod_eq_of_lt (Nat.lt_trans small (by decide))
  have order : blockSteps.take 3 = [.updateGlobalDynamicData,
      .updateSigningWitness, .updateLastIrreversibleBlock] := rfl
  rw [order, List.foldlM_cons]
  refine .bind (quiet.updateGlobalDynamicData head small witness previous) ?_
  rintro set ⟨quiet, height, id, time, irreversible⟩
  rw [List.foldlM_cons]
  refine .bind (quiet.updateSigningWitness witness) ?_
  rintro signed ⟨quiet, props, signing, got, confirmed⟩
  rw [List.foldlM_cons]
  refine .bind (quiet.updateLastIrreversibleBlock (props ▸ height)
    (props ▸ id) ?_ got (confirmed.trans numbered)) ?_
  · rw [props, irreversible]
    exact Nat.le_succ_of_le head.irreversible
  · rintro after ⟨quiet, head, same, -⟩
    refine .ok ⟨quiet, head, same.trans ?_⟩
    exact (congrArg DynamicGlobalProperties.time props).trans time

/-- The steps between and after the payouts leave the comments as they are. -/
theorem content_of_steps
    {header : BlockHeader}
    {steps : List BlockStep}
    (others : BlockStep.processCommentCashout ∉ steps)
    (ran : steps.foldlM (Database.runStep ext header) db = .ok after) :
    after.comments = db.comments ∧ after.commentVotes = db.commentVotes := by
  induction steps generalizing db with
  | nil =>
      cases ran
      exact ⟨rfl, rfl⟩
  | cons step rest induction =>
      rw [List.foldlM_cons, bind_eq_ok_iff] at ran
      rcases ran with ⟨middle, stepped, ran⟩
      rw [List.mem_cons, not_or] at others
      have agrees := touches_runStep ext header db step middle stepped
      have separate : apart [.comments, .commentVotes] (stepFootprint step) =
          true := by
        cases step with
        | processCommentCashout => exact absurd rfl others.1
        | _ => rfl
      have comments : middle.comments = db.comments :=
        agrees.read_eq separate List.mem_cons_self
      have votes : middle.commentVotes = db.commentVotes :=
        agrees.read_eq separate (List.mem_cons_of_mem _ List.mem_cons_self)
      rcases induction others.2 ran with ⟨later, kept⟩
      exact ⟨later.trans comments, kept.trans votes⟩

/-- A quiet state within a block, with what is known of the comments. -/
structure Ready (header : BlockHeader) (number : Nat) (content : Content)
    (db : Database) : Prop where
  quiet : Quiet db
  head : HeadAt number db
  time : db.headBlockTime = header.timestamp
  content : content db.comments db.commentVotes

/-- What a step of a block does apart from the quiet and the comments. -/
theorem Ready.stepped
    {header : BlockHeader}
    {content final : Content}
    {step : BlockStep}
    (ready : Ready header number content db)
    (late : step ∈ blockSteps.drop 3)
    (done : db.runStep ext header step = .ok after)
    (quiet : Quiet after)
    (left : final after.comments after.commentVotes) :
    Ready header number final after := by
  have agrees := touches_runStep ext header db step after done
  refine ⟨quiet, ?_, ?_, left⟩
  · cases step with
    | updateGlobalDynamicData => simp [blockSteps] at late
    | updateLastIrreversibleBlock => simp [blockSteps] at late
    | _ => exact ready.head.of_agrees agrees rfl
  · rcases time_runStep done with set | kept
    · exact set
    · exact kept.trans ready.time

/-- Steps without payouts. -/
theorem Ready.steps
    {header : BlockHeader}
    {content : Content}
    {steps : List BlockStep}
    (ready : Ready header number content db)
    (small : number < burnInitRepBlock)
    (early : header.timestamp < maximumTime)
    (late : steps ⊆ blockSteps.drop 3)
    (others : BlockStep.processCommentCashout ∉ steps) :
    Yields (steps.foldlM (Database.runStep ext header) db)
      (Ready header number content) := by
  refine .foldlM (Ready header number content) ?_ ready
  intro state step member ready
  have other : state.headBlockNum ≠ burnInitRepBlock := by
    rw [headBlockNum, ready.head.height]
    exact Nat.ne_of_lt small
  have apart : step ≠ .processCommentCashout := by
    rintro rfl
    exact others member
  have stepped : Yields (state.runStep ext header step) Quiet :=
    ready.quiet.runStep (ready.time ▸ early) other (late member) apart
  rcases stepped with ⟨after, done, quiet⟩
  have one : [step].foldlM (Database.runStep ext header) state =
      .ok after := by
    rw [List.foldlM_cons, done]
    rfl
  rcases content_of_steps (fun same => apart (List.mem_singleton.1 same).symm)
    one with ⟨comments, votes⟩
  refine .of_eq done (ready.stepped (late member) done quiet ?_)
  rw [comments, votes]
  exact ready.content

/-- The next block of a quiet chain ends. -/
theorem Quiet.finishBlock
    {header : BlockHeader}
    {content final : Content}
    (quiet : Quiet db)
    (head : HeadAt number db)
    (small : number + 1 < burnInitRepBlock)
    (early : header.timestamp < maximumTime)
    (witness : header.witness = initMinerName)
    (previous : header.previous = db.props.headBlockId)
    (start : content db.comments db.commentVotes)
    (cashout : ∀ state, Ready header (number + 1) content state →
      Yields (state.processCommentCashout ext) fun after =>
        Quiet after ∧ final after.comments after.commentVotes) :
    Yields (db.finishBlock ext header) (Ready header (number + 1) final) := by
  have order : blockSteps = blockSteps.take 3 ++
      ((blockSteps.drop 3).take 7 ++
        .processCommentCashout :: blockSteps.drop 11) := rfl
  rw [Database.finishBlock, order, List.foldlM_append]
  have first : Yields ((blockSteps.take 3).foldlM
      (Database.runStep ext header) db)
      (Ready header (number + 1) content) := by
    rcases quiet.newHead head small witness previous with
      ⟨set, done, quiet, head, time⟩
    rcases content_of_steps (by simp [blockSteps]) done with ⟨comments, votes⟩
    refine .of_eq done ⟨quiet, head, time, ?_⟩
    rw [comments, votes]
    exact start
  refine first.bind ?_
  intro set ready
  rw [List.foldlM_append]
  refine .bind (ready.steps small early (List.take_subset _ _)
    (by simp [blockSteps])) ?_
  intro state ready
  rw [List.foldlM_cons]
  rcases cashout state ready with ⟨paid, done, quiet, left⟩
  have payout : state.runStep ext header .processCommentCashout = .ok paid :=
    done
  refine .step payout (Ready.steps ?_ small early ?_ (by simp [blockSteps]))
  · exact ready.stepped (by simp [blockSteps]) payout quiet left
  · exact List.drop_subset_drop_left _ (by decide)

/-- A block without transactions follows on a quiet chain. -/
theorem Quiet.next
    {content final : Content}
    (quiet : Quiet db)
    (head : HeadAt number db)
    (small : number + 1 < burnInitRepBlock)
    (later : db.headBlockTime + blockInterval ≤ time)
    (early : time < maximumTime)
    (start : content db.comments db.commentVotes)
    (cashout : ∀ state,
      Ready (quietHeader db time) (number + 1) content state →
        Yields (state.processCommentCashout ext) fun after =>
          Quiet after ∧ final after.comments after.commentVotes) :
    ∃ begun after, db.beginBlock (quietHeader db time) = .ok begun ∧
      content begun.comments begun.commentVotes ∧
        begun.finishBlock ext (quietHeader db time) = .ok after ∧
          Ready (quietHeader db time) (number + 1) final after := by
  rcases quiet.beginBlock head later early with
    ⟨begun, begin, ready, height, previous⟩
  have agrees := touches_beginBlock db _ begun begin
  have comments : begun.comments = db.comments := agrees .comments (by decide)
  have votes : begun.commentVotes = db.commentVotes :=
    agrees .commentVotes (by decide)
  rw [← comments, ← votes] at start
  have ended : Yields (begun.finishBlock ext (quietHeader db time))
      (Ready (quietHeader db time) (number + 1) final) :=
    ready.finishBlock height small early rfl previous.symm start cashout
  rcases ended with ⟨after, finish, facts⟩
  exact ⟨begun, after, begin, start, finish, facts⟩

/-- There are no comments. -/
abbrev NoComments : Content :=
  fun comments _ => comments = .empty

/-- A block without transactions follows on a chain without comments. -/
theorem Quiet.next_empty
    (quiet : Quiet db)
    (head : HeadAt number db)
    (small : number + 1 < burnInitRepBlock)
    (later : db.headBlockTime + blockInterval ≤ time)
    (early : time < maximumTime)
    (empty : db.comments = .empty) :
    ∃ begun after, db.beginBlock (quietHeader db time) = .ok begun ∧
      begun.finishBlock ext (quietHeader db time) = .ok after ∧
        Ready (quietHeader db time) (number + 1) NoComments after := by
  have cashout : ∀ state,
      Ready (quietHeader db time) (number + 1) NoComments state →
        Yields (state.processCommentCashout ext) fun after =>
          Quiet after ∧ NoComments after.comments after.commentVotes :=
    fun _ ready => ready.quiet.processCommentCashout ready.content
  have start : NoComments db.comments db.commentVotes := empty
  rcases quiet.next head small later early start cashout with
    ⟨begun, after, begin, -, finish, ready⟩
  exact ⟨begun, after, begin, finish, ready⟩

end Blocks

end BMChain.State
