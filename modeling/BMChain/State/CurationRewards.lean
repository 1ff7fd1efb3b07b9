import BMChain.State.CurationWeights

/-!
# The rewards of the curators

`pay_curators` gives each vote its part of the reward by weight, rounded down.
As long as the weights of the votes are no more than the total of the comment,
all parts together are no more than the reward.
-/

namespace BMChain.State

open BMChain.Foundation BMChain.Protocol Std

variable {id factor divisor : Nat} {comment : CommentObject} {maxRewards : Int}
    {db : Database} {ext : External}

namespace Database

/-! ## What is safe -/

/-- The sum of the weights of the votes on a comment. -/
def voteWeights (db : Database) (id : Nat) : Nat :=
  ((db.votesByWeight id).map fun vote => vote.2.weight).sum

/--
The curation reward of a comment is part of its reward, and `pay_curators` hands
out no more than it is given.
-/
structure CuratorsWithin (db : Database) (id : Nat) : Prop where
  share : ∀ reward percent,
    0 < reward → FitsInt64 reward →
      db.getCurationRewardsPercent = .ok percent →
        0 ≤ wrapInt64
            (toUint64 (uint128 reward * percent % 2 ^ 128 / hundredPercent)) ∧
          wrapInt64
            (toUint64 (uint128 reward * percent % 2 ^ 128 / hundredPercent)) ≤
              reward
  paid : ∀ comment maxRewards after claimed unclaimed,
    db.comments.find? id = some comment →
      0 ≤ maxRewards → FitsInt64 maxRewards →
        db.payCurators id comment maxRewards =
            .ok (after, claimed, unclaimed) →
          claimed ≤ maxRewards ∧ 0 ≤ unclaimed

/--
The weights of votes on comments which were not paid yet add up to no more than
the total, so that none of them is too large to be taken out, and no payout
which is due hands out more than the curation reward.
-/
structure CurationSafe (ext : External) (db : Database) : Prop where
  weights : ∀ id comment, db.comments.find? id = some comment →
    comment.lastPayout = 0 → db.voteWeights id ≤ comment.totalVoteWeight
  subtracts : ∀ place vote comment,
    db.commentVotes.find? place = some vote →
      db.comments.find? vote.comment = some comment →
        comment.lastPayout = 0 → vote.weight ≤ comment.totalVoteWeight
  payouts : db.EachPayout ext fun state id _ _ => state.CuratorsWithin id

/-! ## One part -/

theorem mul_within
    {amount factor : Nat}
    (small : amount < 2 ^ 63)
    (fits : factor < 2 ^ 64) :
    amount * factor < 2 ^ 128 := by
  calc amount * factor
      ≤ 2 ^ 63 * 2 ^ 64 :=
        Nat.mul_le_mul (Nat.le_of_lt small) (Nat.le_of_lt fits)
    _ < 2 ^ 128 := by decide

/-- The part of an amount by a factor which is no more than the divisor. -/
theorem scaled_eq
    {whole factor divisor : Nat}
    (fits : FitsInt64 whole)
    (within : factor ≤ divisor)
    (small : divisor < 2 ^ 64) :
    wrapInt64 (toUint64 (uint128 whole * factor % 2 ^ 128 / divisor)) =
        (whole * factor / divisor : Nat) ∧
      whole * factor / divisor ≤ whole := by
  have below : whole < 2 ^ 63 := by
    have bound := fits.2
    omega
  have same : uint128 whole = whole := by
    unfold uint128
    omega
  have product := mul_within below (Nat.lt_of_le_of_lt within small)
  have part : whole * factor / divisor ≤ whole := by
    refine Nat.div_le_of_le_mul ?_
    rw [Nat.mul_comm]
    exact Nat.mul_le_mul_right whole within
  refine ⟨?_, part⟩
  rw [same, Nat.mod_eq_of_lt product]
  exact wrapInt64_toUint64 (Nat.lt_of_le_of_lt part below)

theorem scaled_share
    {amount : Int}
    (nonneg : 0 ≤ amount)
    (fits : FitsInt64 amount)
    (within : factor ≤ divisor)
    (small : divisor < 2 ^ 64) :
    ∃ part : Nat,
      wrapInt64 (toUint64 (uint128 amount * factor % 2 ^ 128 / divisor)) =
          part ∧
        (part : Int) ≤ amount ∧ (part : Int) * divisor ≤ amount * factor := by
  rcases Int.eq_ofNat_of_zero_le nonneg with ⟨whole, rfl⟩
  rcases scaled_eq fits within small with ⟨equal, part⟩
  refine ⟨whole * factor / divisor, equal, Int.ofNat_le.2 part, ?_⟩
  exact_mod_cast Nat.div_mul_le_self (whole * factor) divisor

/-! ## All parts -/

/-- The parts which were paid, weighed by the total, are within the reward. -/
theorem unclaimed_of_foldlM
    {votes : List (Nat × CommentVoteObject)}
    {start final : Database × Int}
    (nonneg : 0 ≤ maxRewards)
    (fits : FitsInt64 maxRewards)
    (small : comment.totalVoteWeight < 2 ^ 64)
    (within : ∀ vote ∈ votes, vote.2.weight ≤ comment.totalVoteWeight)
    (ran : votes.foldlM (payCurator comment maxRewards) start = .ok final) :
    (start.2 - final.2) * comment.totalVoteWeight ≤
      maxRewards * (votes.map fun vote => vote.2.weight).sum := by
  induction votes generalizing start with
  | nil =>
      cases ran
      simp
  | cons vote rest induction =>
      rw [List.foldlM_cons, bind_eq_ok_iff] at ran
      rcases ran with ⟨middle, paid, ran⟩
      have later := induction
        (fun other member => within other (List.mem_cons_of_mem _ member)) ran
      rcases scaled_share nonneg fits (within vote List.mem_cons_self) small
        with ⟨part, claim, -, share⟩
      have given : start.2 - middle.2 = part := by
        unfold payCurator at paid
        rw [curatorClaim, claim] at paid
        dsimp only at paid
        split at paid
        case isTrue none =>
          cases paid
          omega
        case isFalse =>
          simp only [bind_eq_ok_iff, checked_eq_ok_iff] at paid
          rcases paid with ⟨_, ⟨-, rfl⟩, _, -, _, -, _, -, equal⟩
          cases equal
          dsimp only
          omega
      rw [List.map_cons, List.sum_cons]
      rw [Nat.cast_add]
      calc (start.2 - final.2) * (comment.totalVoteWeight : Int)
          = part * comment.totalVoteWeight +
              (middle.2 - final.2) * comment.totalVoteWeight := by
            rw [← given, ← Int.add_mul, sub_add_sub_cancel]
        _ ≤ maxRewards * vote.2.weight + maxRewards *
              ((rest.map fun vote => vote.2.weight).sum : Nat) :=
            Int.add_le_add share later
        _ = maxRewards * (vote.2.weight +
              ((rest.map fun vote => vote.2.weight).sum : Nat)) :=
            (Int.mul_add _ _ _).symm

/-- The sum of the weights over the list of the votes. -/
theorem weightTally_eq_sum
    (db : Database)
    (id : Nat) :
    weightTally db.commentVotes id = (db.voteWeights id : Int) := by
  have sorted := List.perm_insertionSort
    (fun first second : Nat × CommentVoteObject =>
      second.2.weight < first.2.weight ∨
        (first.2.weight = second.2.weight ∧
          first.2.voter ≤ second.2.voter))
    (db.commentVotes.entries.filter fun entry => entry.2.comment = id)
  have summed := (sorted.map fun vote => vote.2.weight).sum_eq
  rw [voteWeights, votesByWeight, summed, weightTally, sumOf]
  change (db.commentVotes.entries.map _).sum = _
  induction db.commentVotes.entries with
  | nil => rfl
  | cons vote rest induction =>
      by_cases own : vote.2.comment = id
      · simp [own, induction]
      · simp [own, induction]

theorem mem_votesByWeight
    {vote : Nat × CommentVoteObject} :
    vote ∈ db.votesByWeight id ↔
      db.commentVotes.find? vote.1 = some vote.2 ∧ vote.2.comment = id := by
  rw [votesByWeight, List.mem_insertionSort, List.mem_filter,
    decide_eq_true_eq]
  exact and_congr_left fun _ => ExtTreeMap.mem_toList_iff_getElem?_eq_some

/-- The curators get no more than the reward. -/
theorem payCurators_within
    {db after : Database}
    {maxRewards claimed unclaimed : Int}
    (nonneg : 0 ≤ maxRewards)
    (fits : FitsInt64 maxRewards)
    (small : comment.totalVoteWeight < 2 ^ 64)
    (enough : comment.totalVoteWeight = 0 ∨
      weightTally db.commentVotes id ≤ comment.totalVoteWeight)
    (done : db.payCurators id comment maxRewards =
      .ok (after, claimed, unclaimed)) :
    claimed ≤ maxRewards ∧ 0 ≤ unclaimed := by
  unfold payCurators at done
  split at done
  case isTrue =>
    cases done
    exact ⟨nonneg, Int.le_refl 0⟩
  case isFalse =>
    simp only [bind_eq_ok_iff, checked_eq_ok_iff] at done
    rcases done with ⟨⟨paid, left⟩, pay, _, ⟨-, rfl⟩, equal⟩
    cases equal
    suffices rest : 0 ≤ left by omega
    split at pay
    case isFalse =>
      cases pay
      exact nonneg
    case isTrue positive =>
      have within : weightTally db.commentVotes id ≤ comment.totalVoteWeight :=
        enough.resolve_left (Nat.ne_of_gt positive)
      have each : ∀ vote ∈ db.votesByWeight id,
          vote.2.weight ≤ comment.totalVoteWeight := by
        intro vote member
        rcases mem_votesByWeight.1 member with ⟨found, own⟩
        have part := weight_le_tally found own
        omega
      have given := unclaimed_of_foldlM nonneg fits small each pay
      rw [weightTally_eq_sum, voteWeights] at within
      have bound : (maxRewards - left) * (comment.totalVoteWeight : Int) ≤
          maxRewards * comment.totalVoteWeight :=
        Int.le_trans given (Int.mul_le_mul_of_nonneg_left within nonneg)
      have less : maxRewards - left ≤ maxRewards :=
        Int.le_of_mul_le_mul_right bound (Int.natCast_pos.2 positive)
      omega

theorem curatorsWithin_of_holds
    (holds : WeightsHold db)
    (curved : db.RootCurved)
    (id : Nat) :
    CuratorsWithin db id := by
  constructor
  case share =>
    intro reward percent positive fits read
    simp only [getCurationRewardsPercent, bind_eq_ok_iff,
      pure_eq_ok_iff] at read
    rcases read with ⟨⟨place, fund⟩, got, rfl⟩
    have there := Table.find?_of_findBy (orFault_eq_ok_iff.1 got)
    have part : fund.percentCurationRewards ≤ hundredPercent :=
      (curved place fund there).2
    rcases scaled_share (Int.le_of_lt positive) fits part (by decide) with
      ⟨share, equal, less, -⟩
    rw [equal]
    exact ⟨Int.natCast_nonneg _, less⟩
  case paid =>
    intro comment maxRewards after claimed unclaimed found nonneg fits done
    have weighed := holds.holds id comment found
    refine payCurators_within nonneg fits weighed.small ?_ done
    by_cases unpaid : comment.lastPayout = 0
    · exact .inr (weighed.unpaid unpaid).1
    · exact weighed.paid unpaid

/-! ## Runs -/

theorem WeightsHold.curationSafe
    (holds : WeightsHold db)
    (curved : db.RootCurved) :
    db.CurationSafe ext := by
  constructor
  case weights =>
    intro id comment found unpaid
    have enough := ((holds.holds id comment found).unpaid unpaid).1
    rw [weightTally_eq_sum] at enough
    exact Int.ofNat_le.1 enough
  case subtracts =>
    intro place vote comment voted found unpaid
    have enough := ((holds.holds vote.comment comment found).unpaid unpaid).1
    have part := weight_le_tally voted rfl
    exact Int.ofNat_le.1 (Int.le_trans part enough)
  case payouts =>
    refine eachPayout_of_invariant
      (fun state => WeightsHold state ∧ state.RootCurved) ?_ ?_ ?_
    · rintro state id _ _ after _ paid ⟨holds, curved⟩
      exact ⟨holds.cashoutComment paid,
        KeepsCurve.of_agrees (agrees_cashoutCommentHelper paid) rfl curved⟩
    · rintro state id _ _ ⟨holds, curved⟩
      exact curatorsWithin_of_holds holds curved id
    · intro decayed funds decay
      exact ⟨holds.of_funds (agrees_decayFunds decay),
        keepsCurve_decayFunds decay curved⟩

theorem weightsHold_genesis :
    WeightsHold initGenesis := by
  refine ⟨votesBooked_genesis, by decide, ?_⟩
  intro id comment found
  cases found

/-- The weights of every run hold, and its funds keep their curve. -/
theorem weightsHold_run
    {block : Option BlockHeader}
    (run : RunState ext (fun _ _ => True) block db) :
    WeightsHold db ∧ db.RootCurved := by
  have timed : RunState ext (EventMeets ext (fun _ _ => True)
      fun header _ _ => reverseAuctionTime < header.timestamp) block db := by
    refine run.strengthen ?_
    intro block next state event before phase _
    cases event with
    | operation op => trivial
    | beginBlock header => trivial
    | finishBlock header =>
        rcases before.ahead phase with ⟨start, later⟩
        refine eachStep_of_forall (fun _ _ => ?_) _ _
        exact Nat.lt_of_lt_of_le (by decide : reverseAuctionTime < genesisTime)
          (Nat.le_trans start (Nat.le_of_lt later))
  refine RunState.invariant
    (fun state => WeightsHold state ∧ state.RootCurved)
    ⟨weightsHold_genesis, rootCurved_genesis⟩ ?_ ?_ ?_ timed
  · rintro db header after begun ⟨holds, curved⟩
    have agrees := touches_beginBlock db header after begun
    have steady := steady_of_booked (holds.booked.of_agrees agrees rfl)
      (time_beginBlock begun).2
    exact ⟨holds.of_agrees steady agrees rfl,
      KeepsCurve.of_agrees agrees rfl curved⟩
  · rintro db op after _ _ done ⟨holds, curved⟩
    exact ⟨holds.applyOperation curved done,
      keepsCurve_applyOperation done curved⟩
  · rintro header db which after later done ⟨holds, curved⟩
    exact ⟨holds.runStep later done, keepsCurve_runStep done curved⟩

end Database

/--
In every state of a run, and before every step of the block which is applied,
the weights of the votes on a comment which was not paid yet are within its
total, and no payout hands out more to the curators than the curation reward.
-/
theorem curation_weights
    {ext : External}
    {block : Option BlockHeader}
    {db : Database}
    (run : RunState ext (fun _ _ => True) block db) :
    db.CurationSafe ext ∧
      ∀ header, block = some header →
        Database.EachStep ext header
          (fun state _ => state.CurationSafe ext) blockSteps db := by
  have start := Database.weightsHold_run run
  refine ⟨start.1.curationSafe start.2, ?_⟩
  intro header applied
  have later : Database.reverseAuctionTime < header.timestamp :=
    Nat.lt_trans start.1.late (run.clock.2 header applied)
  refine Database.eachStep_of_invariant
    (fun state => Database.WeightsHold state ∧ state.RootCurved) ?_ ?_ _ start
  · rintro state step after done ⟨holds, curved⟩
    exact ⟨holds.runStep later done, Database.keepsCurve_runStep done curved⟩
  · rintro state step ⟨holds, curved⟩
    exact holds.curationSafe curved

/-- A vote on a post which is one block old has some weight. -/
theorem curation_weights_one_vote :
    ∃ db, [Event.operation (samplePost initMinerName),
          .beginBlock firstHeader, .finishBlock firstHeader,
          .operation (sampleVote "devs" 10000)].foldlM
            (Database.step plainExternal) initGenesis = .ok db ∧
        0 < db.voteWeights 0 ∧ db.CurationSafe plainExternal := by
  have ran : ([Event.operation (samplePost initMinerName),
      .beginBlock firstHeader, .finishBlock firstHeader,
      .operation (sampleVote "devs" 10000)].foldlM
        (Database.step plainExternal) initGenesis).bind (fun db =>
          require (0 < db.voteWeights 0) "") = .ok () := by
    decide +kernel
  rcases (bind_eq_ok_iff _ _ _).1 ran with ⟨db, done, heavy⟩
  rw [require_eq_ok_iff] at heavy
  have phases : Phases [.operation (samplePost initMinerName),
      .beginBlock firstHeader, .finishBlock firstHeader,
      .operation (sampleVote "devs" 10000)] none none :=
    ⟨none, .operation _ none, _, .beginBlock _, none, .finishBlock _, none,
      .operation _ none, rfl⟩
  have run := RunState.of_foldlM .genesis phases done
  exact ⟨db, done, heavy, (curation_weights run).1⟩

end BMChain.State
