import BMChain.State.CashoutRound
import BMChain.State.Run

/-!
# The promises of a round of payouts

What `process_comment_cashout` does when the chain is past the first payout
block and the next payouts are within the range of its clock.
-/

namespace BMChain.State.Database

open BMChain.Foundation BMChain.Protocol Std

variable {now : Time} {after db : Database} {id : Nat}
    {fund : RewardFundObject} {order : List Nat} {comment : CommentObject}
    {final : Database × List RewardFundContext}

/-! ## The whole round -/

/-- The funds decayed and cached, with the claims which are due. -/
def beginRound (ext : External) (db : Database) :
    Except Fault (Database × List RewardFundContext) := do
  let (decayed, funds) ← db.decayFunds
  let claims ← decayed.dueComments.foldlM (decayed.addClaims ext) funds
  pure (decayed, claims)

/-- A round of payouts, as the loop without a bound takes it. -/
theorem round_of_process
    {ext : External}
    (late : firstPayoutBlock < db.headBlockNum)
    (done : db.processCommentCashout ext = .ok after) :
    ∃ start order final, beginRound ext db = .ok start ∧
      Takes nextDue (cashoutDue ext) start order final ∧
        final.1.writeFunds final.2 = .ok after := by
  rw [processCommentCashout, if_neg (Nat.not_le_of_lt late)] at done
  simp only [bind_eq_ok_iff] at done
  rcases done with ⟨⟨decayed, funds⟩, decay, claims, claim, ⟨paid, last⟩, ran,
    write⟩
  rcases takes_of_drain ran with ⟨order, taken⟩
  refine ⟨(decayed, claims), order, (paid, last), ?_, taken, write⟩
  rw [beginRound, decay, ok_bind]
  dsimp only
  rw [claim]
  rfl

/-- The state in which the payouts begin. -/
structure Begun (ext : External) (db : Database)
    (start : Database × List RewardFundContext) : Prop where
  comments : start.1.comments = db.comments
  time : start.1.headBlockTime = db.headBlockTime
  fund : ∀ place fund, db.getRewardFund = .ok (place, fund) →
    start.1.getRewardFund = .ok (place, decayClaims db.headBlockTime fund) ∧
      start.2[place]? = some
        ⟨roundClaims ext db fund, fund.rewardBalance, 0⟩
  other : ∀ (place : Nat) (fund : RewardFundObject),
    db.rewardFunds.find? place = some fund →
      start.1.rewardFunds.find? place =
          some (decayClaims db.headBlockTime fund) ∧
        ((∀ post, db.getRewardFund ≠ .ok (place, post)) →
          (∀ post, start.1.getRewardFund ≠ .ok (place, post)) ∧
            start.2[place]? = some (cachedFund db.headBlockTime fund))

theorem begun_of_beginRound
    {ext : External}
    {start : Database × List RewardFundContext}
    (sound : RoundSound ext db)
    (done : beginRound ext db = .ok start) :
    Begun ext db start := by
  simp only [beginRound, bind_eq_ok_iff, pure_eq_ok_iff] at done
  rcases done with ⟨⟨decayed, funds⟩, decay, claims, claim, rfl⟩
  have decays := decayed_of_decayFunds decay
  dsimp only at claim
  constructor
  case comments => exact decays.comments
  case time => exact decays.time
  case fund =>
    intro place fund got
    have there := Table.find?_of_findBy (orFault_eq_ok_iff.1 got)
    have moved := decays.getRewardFund got
    refine ⟨moved, ?_⟩
    rw [decays.dueComments] at claim
    exact (addClaims_loop moved (decays.context sound.numbered there)
      (sound.sums place fund got) claim).1
  case other =>
    intro place fund there
    refine ⟨(decays.find? place).trans (congrArg _ there), ?_⟩
    intro apart
    have still : ∀ post, decayed.getRewardFund ≠ .ok (place, post) := by
      intro post got
      cases main : db.getRewardFund with
      | error error =>
          have none := orFault_eq_ok_iff.1 got
          rw [Table.findBy, decays.entries, List.find?_map,
            Option.map_eq_some_iff] at none
          rcases none with ⟨entry, searched, -⟩
          have found : db.getRewardFund = .ok entry :=
            orFault_eq_ok_iff.2 searched
          rw [main] at found
          cases found
      | ok entry =>
          have moved := decays.getRewardFund main
          rw [got] at moved
          cases moved
          exact apart _ main
    refine ⟨still, ?_⟩
    rw [others_addClaims still claim]
    exact decays.context sound.numbered there

/--
What a round of payouts promises.  It comes to an end; it pays the due comments,
each once; each reward is the one which the start of the round gives; and the
funds lose no more than they had, and keep their claims with those which were
paid.
-/
structure PaysRound (ext : External) (db : Database) : Prop where
  halts : ∀ start, beginRound ext db = .ok start →
    Halts nextDue (cashoutDue ext) start
  pays : ∀ after, db.processCommentCashout ext = .ok after →
    ∃ start order final, beginRound ext db = .ok start ∧
      Takes nextDue (cashoutDue ext) start order final ∧
        final.1.writeFunds final.2 = .ok after ∧
          order.Nodup ∧ ∀ id, id ∈ order ↔ Due db id
  rewards : ∀ start round id, beginRound ext db = .ok start →
    Reaches nextDue (cashoutDue ext) start round →
      nextDue round = some id →
        ∃ comment, db.comments.find? id = some comment ∧
          round.1.comments.find? id = some comment ∧
            ∀ place fund context,
              db.getRewardFund = .ok (place, fund) →
                round.2[place]? = some context →
                  round.1.rshareReward ext comment context.recentClaims
                      context.rewardBalance =
                    db.rshareReward ext comment (roundClaims ext db fund)
                      fund.rewardBalance
  funds : ∀ after place fund, db.processCommentCashout ext = .ok after →
    db.rewardFunds.find? place = some fund →
      ∃ written, after.rewardFunds.find? place = some written ∧
        0 ≤ fund.rewardBalance - written.rewardBalance ∧
          fund.rewardBalance - written.rewardBalance ≤ fund.rewardBalance ∧
            (db.getRewardFund = .ok (place, fund) →
              written.recentClaims = roundClaims ext db fund) ∧
              ((∀ post, db.getRewardFund ≠ .ok (place, post)) →
                written.recentClaims =
                  (decayClaims db.headBlockTime fund).recentClaims)

/-! ## What the round keeps -/

section Round

variable {ext : External}
  {db : Database}
  {start round : Database × List RewardFundContext}

theorem Begun.due_iff
    (begun : Begun ext db start)
    (id : Nat) :
    Due start.1 id ↔ Due db id := by
  rw [Due, Due, begun.comments, begun.time]

theorem Begun.cashesLater
    (begun : Begun ext db start)
    (later : db.CashesLater) :
    start.1.CashesLater := by
  rw [CashesLater, begun.time]
  exact later

theorem Begun.dueComments
    (begun : Begun ext db start) :
    start.1.dueComments = db.dueComments := by
  unfold Database.dueComments
  rw [begun.comments, begun.time]

/-- Curators get no more than the reward after the decay, too. -/
theorem curationWithin_of_beginRound
    (curation : db.CurationWithin)
    (done : beginRound ext db = .ok start) :
    start.1.CurationWithin := by
  simp only [beginRound, bind_eq_ok_iff, pure_eq_ok_iff] at done
  rcases done with ⟨⟨decayed, funds⟩, decay, claims, -, rfl⟩
  intro place fund found
  rw [(decayed_of_decayFunds decay).find? place] at found
  rcases Option.map_eq_some_iff.1 found with ⟨old, there, rfl⟩
  exact curation place old there

/-- A reward in the round is the one which the start of the round gives. -/
theorem rewards_of_reaches
    (begun : Begun ext db start)
    (later : db.CashesLater)
    (reached : Reaches nextDue (cashoutDue ext) start round)
    (offered : nextDue round = some id) :
    ∃ comment, db.comments.find? id = some comment ∧
      round.1.comments.find? id = some comment ∧
        ∀ place fund context,
          db.getRewardFund = .ok (place, fund) →
            round.2[place]? = some context →
              round.1.rshareReward ext comment context.recentClaims
                  context.rewardBalance =
                db.rshareReward ext comment (roundClaims ext db fund)
                  fund.rewardBalance := by
  have held := inRound_of_reaches (begun.cashesLater later) reached
  rcases due_of_nextDue offered with ⟨comment, row, early⟩
  have first : db.comments.find? id = some comment := by
    rw [← begun.comments, ← held.comments id ⟨comment, row, early⟩]
    exact row
  refine ⟨comment, first, row, ?_⟩
  intro place fund context got found
  rcases begun.fund place fund got with ⟨moved, cached⟩
  rcases held.contexts place context found with ⟨old, there, claims, balance⟩
  rw [cached] at there
  cases there
  have same : round.1.getRewardFund =
      .ok (place, decayClaims db.headBlockTime fund) := by
    rw [← moved, getRewardFund, getRewardFund, held.funds]
  rw [← claims, ← balance, rshareReward, rshareReward, same, got]
  rfl

/-- The fund of the posts gives away no more than it had. -/
theorem awards_of_takes
    {place : Nat}
    (sound : RoundSound ext db)
    (later : db.CashesLater)
    (done : beginRound ext db = .ok start)
    (got : db.getRewardFund = .ok (place, fund))
    (taken : Takes nextDue (cashoutDue ext) start order final) :
    ∃ awarded : Int,
      final.2[place]? = some
          ⟨roundClaims ext db fund, fund.rewardBalance, awarded⟩ ∧
        0 ≤ awarded ∧ awarded ≤ fund.rewardBalance := by
  have begun := begun_of_beginRound sound done
  have still := begun.cashesLater later
  have there := Table.find?_of_findBy (orFault_eq_ok_iff.1 got)
  rcases sound.balances place fund there with ⟨nonneg, fits⟩
  rcases begun.fund place fund got with ⟨moved, cached⟩
  have curation := curationWithin_of_beginRound sound.curation done
  have weights : ∀ due ∈ start.1.dueComments,
      due.2.rewardWeight ≤ hundredPercent := by
    rw [begun.dueComments]
    exact sound.weights
  have opened : AwardsWithin ext (decayClaims db.headBlockTime fund) place
      ⟨roundClaims ext db fund, fund.rewardBalance, 0⟩ start := by
    refine ⟨0, cached, Int.le_refl 0, .inr rfl, ?_⟩
    have whole : dueClaims ext start.1 (decayClaims db.headBlockTime fund) ≤
        roundClaims ext db fund := by
      rw [dueClaims, begun.dueComments]
      exact Nat.le_add_left _ _
    rw [Int.zero_mul, Int.zero_add]
    exact Int.mul_le_mul_of_nonneg_left (Int.ofNat_le.2 whole) nonneg
  have closed := taken.invariant
    (fun round => InRound start round ∧
      AwardsWithin ext (decayClaims db.headBlockTime fund) place
        ⟨roundClaims ext db fund, fund.rewardBalance, 0⟩ round)
    (fun _ _ _ offered acted held =>
      ⟨held.1.cashoutDue still acted,
        held.2.cashoutDue held.1 still moved curation weights nonneg fits
          offered acted⟩)
    ⟨.refl start, opened⟩
  exact closed.2.le nonneg

/-- Another fund gives nothing away. -/
theorem others_of_takes
    {place : Nat}
    (later : start.1.CashesLater)
    (other : ∀ post, start.1.getRewardFund ≠ .ok (place, post))
    (taken : Takes nextDue (cashoutDue ext) start order final) :
    final.2[place]? = start.2[place]? := by
  refine (taken.invariant
    (fun round => InRound start round ∧ round.2[place]? = start.2[place]?) ?_
    ⟨.refl start, rfl⟩).2
  rintro id round after - acted ⟨held, same⟩
  refine ⟨held.cashoutDue later acted, ?_⟩
  rw [others_cashoutDue ?_ acted]
  · exact same
  · intro post got
    refine other post ?_
    rw [← got, getRewardFund, getRewardFund, held.funds]

/-- The funds after the round. -/
theorem funds_of_takes
    {place : Nat}
    (sound : RoundSound ext db)
    (later : db.CashesLater)
    (done : beginRound ext db = .ok start)
    (taken : Takes nextDue (cashoutDue ext) start order final)
    (written : final.1.writeFunds final.2 = .ok after)
    (found : db.rewardFunds.find? place = some fund) :
    ∃ written, after.rewardFunds.find? place = some written ∧
      0 ≤ fund.rewardBalance - written.rewardBalance ∧
        fund.rewardBalance - written.rewardBalance ≤ fund.rewardBalance ∧
          (db.getRewardFund = .ok (place, fund) →
            written.recentClaims = roundClaims ext db fund) ∧
            ((∀ post, db.getRewardFund ≠ .ok (place, post)) →
              written.recentClaims =
                (decayClaims db.headBlockTime fund).recentClaims) := by
  have begun := begun_of_beginRound sound done
  have still := begun.cashesLater later
  have held : InRound start final := taken.invariant (InRound start)
    (fun _ _ _ _ acted before => before.cashoutDue still acted) (.refl start)
  rcases begun.other place fund found with ⟨decayed, apart⟩
  have there : final.1.rewardFunds.find? place =
      some (decayClaims db.headBlockTime fund) := by
    rw [held.funds]
    exact decayed
  have balance := (sound.balances place fund found).1
  by_cases main : ∃ post, db.getRewardFund = .ok (place, post)
  · rcases main with ⟨post, got⟩
    have same : fund = post := Option.some.inj
      (found.symm.trans (Table.find?_of_findBy (orFault_eq_ok_iff.1 got)))
    subst same
    rcases awards_of_takes sound later done got taken with
      ⟨awarded, cached, given, most⟩
    refine ⟨_, writeFunds_row written cached there, ?_, ?_, ?_, ?_⟩
    · show 0 ≤ fund.rewardBalance - (fund.rewardBalance - awarded)
      omega
    · show fund.rewardBalance - (fund.rewardBalance - awarded) ≤
        fund.rewardBalance
      omega
    · exact fun _ => rfl
    · exact fun other => absurd got (other fund)
  · have other : ∀ post, db.getRewardFund ≠ .ok (place, post) :=
      fun post got => main ⟨post, got⟩
    rcases apart other with ⟨separate, cached⟩
    rw [← others_of_takes still separate taken] at cached
    refine ⟨_, writeFunds_row written cached there, ?_, ?_, ?_, ?_⟩
    · show 0 ≤ fund.rewardBalance - (fund.rewardBalance - 0)
      omega
    · show fund.rewardBalance - (fund.rewardBalance - 0) ≤ fund.rewardBalance
      omega
    · exact fun got => absurd got (other fund)
    · exact fun _ => rfl

end Round

/-! ## The promise -/

/--
Past the first payout block, and while the next payouts are within the range of
the clock, the round keeps its promises.  Before that block it does nothing.
-/
theorem cashout_round
    {ext : External}
    {db : Database}
    (sound : RoundSound ext db)
    (later : db.CashesLater) :
    (firstPayoutBlock < db.headBlockNum → PaysRound ext db) ∧
      (db.headBlockNum ≤ firstPayoutBlock →
        db.processCommentCashout ext = .ok db) := by
  constructor
  · intro started
    constructor
    case halts =>
      intro start done
      have begun := begun_of_beginRound sound done
      exact round_halts (begun.cashesLater later)
    case pays =>
      intro after done
      rcases round_of_process started done with
        ⟨start, order, final, opened, taken, written⟩
      have begun := begun_of_beginRound sound opened
      rcases round_once (begun.cashesLater later) taken with ⟨once, all⟩
      refine ⟨start, order, final, opened, taken, written, once, ?_⟩
      intro id
      rw [all id]
      exact begun.due_iff id
    case rewards =>
      intro start round id done reached offered
      exact rewards_of_reaches (begun_of_beginRound sound done) later reached
        offered
    case funds =>
      intro after place fund done found
      rcases round_of_process started done with
        ⟨start, order, final, opened, taken, written⟩
      exact funds_of_takes sound later opened taken written found
  · exact fun early => if_pos early

/-! ## One due comment -/

/-- The comment which is due in `dueState`. -/
def dueComment (rshares : Int) : CommentObject :=
  { author := initMinerName
    permlink := [97]
    netRshares := rshares
    rewardWeight := hundredPercent }

/-- The state of genesis with one due comment, at a later head. -/
def dueState (now : Time) (number : Nat) (rshares : Int) : Database :=
  { initGenesis with
    comments := Table.empty.emplace (dueComment rshares)
    props := { genesisProps with time := now, headBlockNumber := number } }

theorem due_dueState
    (now : Time)
    (number : Nat)
    (rshares : Int) :
    Due (dueState now number rshares) 0 :=
  ⟨dueComment rshares, (Table.find?_emplace _ _ 0).trans (if_pos rfl),
    Nat.zero_le _⟩

theorem sound_dueState
    {number : Nat}
    {rshares : Int}
    (sums : (getRewardFund (dueState now number rshares)).bind (fun fund =>
      require (roundClaims plainExternal (dueState now number rshares) fund.2 <
        2 ^ 128) "") = .ok ()) :
    RoundSound plainExternal (dueState now number rshares) := by
  constructor
  case numbered =>
    show initGenesis.FundsNumbered
    unfold FundsNumbered
    decide +kernel
  case balances =>
    exact Table.All.empty.emplace ⟨by decide, by decide⟩
  case curation => exact Table.All.empty.emplace (by decide)
  case weights =>
    intro due member
    have full : (dueState now number rshares).comments.All fun comment =>
        comment.rewardWeight ≤ hundredPercent :=
      Table.All.empty.emplace (Nat.le_refl _)
    exact full due.1 due.2 (mem_dueComments.1 member).1
  case sums =>
    intro place fund got
    rcases (bind_eq_ok_iff _ _ _).1 sums with ⟨entry, found, small⟩
    rw [got] at found
    cases found
    exact require_eq_ok_iff.1 small

/-- A round over a comment whose claim is the whole claim of the fund. -/
theorem cashout_round_one_comment :
    PaysRound plainExternal
      (dueState genesisTime (firstPayoutBlock + 1) 1000) :=
  (cashout_round (sound_dueState (by decide +kernel))
    (show genesisTime + secondCashoutWindow < 2 ^ 32 by decide)).1
      (Nat.lt_succ_self firstPayoutBlock)

/-! ## Where the promise fails -/

/-- A comment without votes is due in every round. -/
structure AgainDue (now : Time) (round : Database × List RewardFundContext) :
    Prop where
  comment : ∃ comment : CommentObject,
    round.1.comments.rows = place ∅ 0 (some comment) ∧
      comment.netRshares ≤ 0 ∧ comment.cashoutTime ≤ now
  time : round.1.headBlockTime = now
  votes : round.1.commentVotes = .empty
  fund : ∃ place fund context, round.1.getRewardFund = .ok (place, fund) ∧
    round.2[place]? = some context ∧ context.bmtAwarded = 0

theorem closeVotes_none
    (found : db.comments.find? 0 = some comment)
    (votes : db.commentVotes = .empty) :
    db.closeVotes 0 = .ok db := by
  have none : db.votesOfComment 0 = [] := by
    rw [votesOfComment, votes]
    rfl
  have got : db.getCommentById 0 = .ok comment :=
    orFault_eq_ok_iff.2 found
  rw [closeVotes, got, ok_bind, none]
  rfl

/-- The payout of a comment without worth and votes. -/
theorem cashout_worthless
    {ext : External}
    {recentClaims : Nat}
    {rewardBalance : Int}
    (rows : db.comments.rows = place ∅ 0 (some comment))
    (worthless : comment.netRshares ≤ 0)
    (votes : db.commentVotes = .empty) :
    Yields (db.cashoutCommentHelper ext 0 recentClaims rewardBalance)
      fun paid => paid.2 = 0 ∧ paid.1.commentVotes = .empty ∧
        ∃ restarted : CommentObject,
          paid.1.comments.rows = place ∅ 0 (some restarted) ∧
            restarted.netRshares ≤ 0 := by
  have found : db.comments.find? 0 = some comment := by
    rw [Table.find?, rows, getElem?_place, if_pos rfl]
  have restarts : Yields (db.restartComment 0) fun after =>
      after.commentVotes = .empty ∧
        ∃ restarted : CommentObject,
          after.comments.rows = place ∅ 0 (some restarted) ∧
            restarted.netRshares ≤ 0 := by
    unfold restartComment modifyComment modifyRow
    rw [found]
    refine .ok ⟨votes, ?_, ?_, ?_⟩
    · exact { comment with
        netRshares := if 0 < comment.netRshares then 0 else comment.netRshares
        childrenAbsRshares := 0
        absRshares := 0
        voteRshares := 0
        totalVoteWeight := 0
        maxCashoutTime := maximumTime
        cashoutTime := addSeconds db.headBlockTime secondCashoutWindow
        lastPayout := db.headBlockTime }
    · refine (Table.set_rows found _).trans ?_
      rw [rows]
      exact place_place ∅ 0 _ _
    · dsimp only
      rw [if_neg (Int.not_lt.2 worthless)]
      exact worthless
  refine .step (orFault_eq_ok_iff.2 found) ?_
  rw [if_neg (Int.not_lt.2 worthless)]
  refine .bind (.ok rfl) ?_
  rintro _ rfl
  refine restarts.bind ?_
  rintro after ⟨empty, restarted, single, still⟩
  have there : after.comments.find? 0 = some restarted := by
    rw [Table.find?, single, getElem?_place, if_pos rfl]
  refine .step (closeVotes_none there empty) ?_
  exact .ok ⟨rfl, empty, restarted, single, still⟩

/-- A next payout before the head makes the comment due again. -/
theorem AgainDue.cashoutDue
    {ext : External}
    {round : Database × List RewardFundContext}
    (again : AgainDue now round)
    (wraps : addSeconds now secondCashoutWindow ≤ now) :
    ∃ id after, nextDue round = some id ∧
      Database.cashoutDue ext id round = .ok after ∧ AgainDue now after := by
  rcases again with ⟨⟨comment, rows, worthless, early⟩, time, votes, place,
    fund, context, got, listed, zero⟩
  have offered : nextDue round = some 0 := by
    have entries : round.1.comments.entries = [(0, comment)] := by
      rw [Table.entries, rows]
      exact toList_place_empty 0 comment
    have due : ([(0, comment)] : List (Nat × CommentObject)).filter (fun entry =>
        entry.2.cashoutTime ≤ round.1.headBlockTime) = [(0, comment)] := by
      rw [time]
      exact List.filter_cons_of_pos (decide_eq_true early)
    rw [nextDue, dueComments, entries, due]
    rfl
  have pays : Yields (round.1.cashoutCommentHelper ext 0 context.recentClaims
      context.rewardBalance) _ := cashout_worthless rows worthless votes
  rcases pays with
    ⟨⟨paid, claimed⟩, pay, rfl, empty, restarted, single, still⟩
  have cashed := cashedOut_of_done pay
  have written : Database.cashoutDue ext 0 round = .ok (paid, round.2.set place
      { context with bmtAwarded := 0 }) := by
    rw [Database.cashoutDue, got, ok_bind]
    dsimp only
    rw [listed, orFault, ok_bind, pay, ok_bind, changeContext, listed, orFault,
      ok_bind, zero]
    rfl
  refine ⟨0, _, offered, written, ?_⟩
  rcases cashed.own with ⟨next, there, later⟩
  have same : next = restarted := by
    rw [Table.find?, single, getElem?_place, if_pos rfl] at there
    exact (Option.some.inj there).symm
  subst same
  constructor
  case comment =>
    refine ⟨next, single, still, ?_⟩
    rw [later, time]
    exact wraps
  case time => exact cashed.time.trans time
  case votes => exact empty
  case fund =>
    refine ⟨place, fund, { context with bmtAwarded := 0 }, ?_, ?_, rfl⟩
    · rw [← got, getRewardFund, getRewardFund, cashed.funds]
    · exact List.getElem?_set_self (List.getElem?_eq_some_iff.1 listed).1

/-- Before the first payout block the due comment is not paid. -/
theorem early_round_fails
    {ext : External}
    (early : db.headBlockNum ≤ firstPayoutBlock)
    (due : Due db id) :
    ¬PaysRound ext db := by
  intro promised
  rcases promised.pays db (if_pos early) with
    ⟨start, order, final, -, taken, written, -⟩
  have agrees := touches_writeFunds final.1 final.2 db written
  have comments : db.comments = final.1.comments :=
    agrees .comments (by decide)
  have time : db.headBlockTime = final.1.headBlockTime :=
    congrArg (fun head => head.2.2) (headOf_of_agrees agrees rfl)
  refine not_due_of_nextDue taken.done_eq id ?_
  rw [Due, ← comments, ← time]
  exact due

/-- Near the end of the clock the round has no end. -/
theorem late_round_fails
    (wraps : addSeconds now secondCashoutWindow ≤ now)
    (sound : RoundSound plainExternal (dueState now (firstPayoutBlock + 1) 0))
    (begins : (beginRound plainExternal
      (dueState now (firstPayoutBlock + 1) 0)).isOk = true)
    (funded : (getRewardFund
      (dueState now (firstPayoutBlock + 1) 0)).isOk = true) :
    ¬PaysRound plainExternal (dueState now (firstPayoutBlock + 1) 0) := by
  intro promised
  rcases exists_of_isOk begins with ⟨start, done⟩
  rcases exists_of_isOk funded with ⟨⟨place, fund⟩, got⟩
  have begun := begun_of_beginRound sound done
  have votes : start.1.commentVotes = .empty := by
    simp only [beginRound, bind_eq_ok_iff, pure_eq_ok_iff] at done
    rcases done with ⟨⟨decayed, funds⟩, decay, claims, -, rfl⟩
    exact agrees_decayFunds decay .commentVotes (by decide)
  rcases begun.fund place fund got with ⟨moved, cached⟩
  refine not_halts_of_more (AgainDue now)
    (fun round again => again.cashoutDue wraps) ?_ (promised.halts start done)
  refine ⟨⟨dueComment 0, ?_, Int.le_refl 0, Nat.zero_le _⟩, begun.time, votes,
    place, _, _, moved, cached, rfl⟩
  rw [begun.comments]
  rfl

/--
The promise is not kept before the first payout block, and not within thirty
days of the end of the clock.
-/
theorem cashout_round_fails :
    (RoundSound plainExternal (dueState genesisTime 1 0) ∧
        Due (dueState genesisTime 1 0) 0 ∧
          ¬PaysRound plainExternal (dueState genesisTime 1 0)) ∧
      RoundSound plainExternal
          (dueState 4294967286 (firstPayoutBlock + 1) 0) ∧
        ¬PaysRound plainExternal
          (dueState 4294967286 (firstPayoutBlock + 1) 0) := by
  have late : RoundSound plainExternal
      (dueState 4294967286 (firstPayoutBlock + 1) 0) :=
    sound_dueState (by decide +kernel)
  refine ⟨⟨sound_dueState (by decide +kernel), due_dueState _ _ _,
    early_round_fails (by decide) (due_dueState _ _ _)⟩, late, ?_⟩
  exact late_round_fails (by decide) late (by decide +kernel)
    (by decide +kernel)

end BMChain.State.Database
