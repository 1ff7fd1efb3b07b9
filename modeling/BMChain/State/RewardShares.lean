import BMChain.State.Spending
import BMChain.State.VoteTotals

/-!
# The outstanding reward shares

`adjust_rshares2` is written to keep `total_reward_shares2` at the reward curve
of all comments which are due a reward.  A vote moves the shares of a comment
and never reports it, and only the payout subtracts.  So the total is the
outstanding one just as long as no vote leaves a comment with positive shares.
-/

namespace BMChain.State

open BMChain.Foundation BMChain.Protocol

variable {ext : External} {id : Nat} {op : VoteOperation}

/-! ## What is outstanding -/

/-- The reward curve of a comment, if it is due a reward. -/
def CommentObject.rewardShares (comment : CommentObject) : Int :=
  if 0 < comment.netRshares then
    defaultRewardCurve (uint128 comment.netRshares)
  else 0

namespace Database

/-- The sum of the reward curve over the comments with positive shares. -/
def outstandingShares (db : Database) : Int :=
  sumOf CommentObject.rewardShares db.comments.rows

/-- The total covers what the payout of a comment subtracts from it. -/
def CoversPayout (db : Database) (id : Nat) : Prop :=
  ∀ comment, db.comments.find? id = some comment →
    comment.rewardShares ≤ db.props.totalRewardShares2

/--
The total is the outstanding one, and no payout which is due subtracts more
than there is.
-/
structure SharesOutstanding (ext : External) (db : Database) : Prop where
  total : (db.props.totalRewardShares2 : Int) = db.outstandingShares
  covers : db.EachPayout ext fun state id _ _ => state.CoversPayout id

/-- The shares of a comment without those of the earlier vote of an account. -/
def sharesOfOthers (db : Database) (id : Nat) (comment : CommentObject)
    (voter : AccountObject) : Int :=
  match db.commentVotes.findBy fun vote =>
      vote.comment = id ∧ vote.voter = voter.id with
  | none => comment.netRshares
  | some (_, vote) => comment.netRshares - vote.rshares

/--
No vote outweighs what the others have against a comment, unless the comment is
paid for good.
-/
def VotesAgainst (db : Database) : Operation → Prop
  | .vote op => ∀ id comment voter power,
      db.findComment op.author op.permlink = some (id, comment) →
        db.accounts.find? op.voter = some voter →
          db.calculateDiscussionPayoutTime comment ≠ .ok maximumTime →
            db.votePower voter op.weight = .ok power →
              db.sharesOfOthers id comment voter + voteRshares op power ≤ 0
  | _ => True

/-- No comment is due a reward, and nothing is reported. -/
structure Unrewarded (db : Database) : Prop where
  net : db.comments.All fun comment => comment.netRshares ≤ 0
  total : db.props.totalRewardShares2 = 0

end Database

section Curve

variable {comment : CommentObject}

theorem rewardShares_nonneg
    (comment : CommentObject) :
    0 ≤ comment.rewardShares := by
  unfold CommentObject.rewardShares
  split
  · exact Int.natCast_nonneg _
  · exact Int.le_refl 0

theorem rewardShares_of_nonpos
    (against : comment.netRshares ≤ 0) :
    comment.rewardShares = 0 :=
  if_neg (Int.not_lt.2 against)

/-- The curve is positive on the positive shares of 64 bits. -/
theorem rewardShares_pos
    (positive : 0 < comment.netRshares)
    (fits : FitsInt64 comment.netRshares) :
    0 < comment.rewardShares := by
  have small : comment.netRshares < 2 ^ 63 := by
    have bound := fits.2
    omega
  rcases Int.eq_ofNat_of_zero_le (Int.le_of_lt positive) with ⟨shares, equal⟩
  rw [CommentObject.rewardShares, if_pos positive, equal]
  rw [equal] at positive small
  have some : 0 < shares := by omega
  have less : shares < 2 ^ 63 := by omega
  have curve : shares * shares < 2 ^ 128 := by
    calc shares * shares < 2 ^ 63 * 2 ^ 63 :=
          Nat.mul_lt_mul_of_lt_of_lt less less
      _ < 2 ^ 128 := by decide
  have kept : uint128 shares = shares := by
    unfold uint128
    omega
  rw [kept, defaultRewardCurve, Nat.mod_eq_of_lt curve]
  exact Int.natCast_pos.2 (Nat.mul_pos some some)

end Curve

namespace Database

variable {db after : Database}

/-! ## What keeps the comments unrewarded -/

namespace Unrewarded

theorem outstanding
    (unrewarded : Unrewarded db) :
    db.outstandingShares = 0 := by
  refine sumOf_eq_zero ?_
  intro id comment found
  exact rewardShares_of_nonpos (unrewarded.net id comment found)

theorem of_sees
    (unrewarded : Unrewarded db)
    (sees : Sees (fun _ => CommentObject.totals) db after)
    (total : after.props.totalRewardShares2 = db.props.totalRewardShares2) :
    Unrewarded after := by
  constructor
  case net =>
    intro id comment found
    rcases sees.found found with ⟨old, before, same⟩
    have net : old.netRshares = comment.netRshares :=
      congrArg VoteTotals.netRshares same
    exact net ▸ unrewarded.net id old before
  case total => exact total.trans unrewarded.total

theorem of_agrees
    {fields : List Field}
    (unrewarded : Unrewarded db)
    (agrees : Agrees fields db after)
    (separate : apart [.comments, .props .rewardShares] fields = true) :
    Unrewarded after := by
  have total : after.props.totalRewardShares2 = db.props.totalRewardShares2 :=
    agrees.read_eq separate (List.mem_cons_of_mem _ List.mem_cons_self)
  have same : after.comments = db.comments :=
    agrees.read_eq separate List.mem_cons_self
  exact unrewarded.of_sees (.of_comments same) total

end Unrewarded

theorem total_applyOperation
    {op : Operation}
    (done : db.applyOperation ext op = .ok after) :
    after.props.totalRewardShares2 = db.props.totalRewardShares2 := by
  have agrees := touches_applyOperation ext db op after done
  have separate : apart [.props .rewardShares] (footprint op) = true := by
    cases op <;> rfl
  exact agrees.read_eq separate List.mem_cons_self

/-! ## Votes -/

/-- A vote which counts moves the shares of its comment by its own. -/
inductive SharesMoved (db : Database) (op : VoteOperation)
    (after : Database) : Prop
  | late (id : Nat) (comment : CommentObject)
      (found : db.findComment op.author op.permlink = some (id, comment))
      (paid : db.calculateDiscussionPayoutTime comment = .ok maximumTime)
      (same : after = db)
  | moved (id : Nat) (comment : CommentObject) (voter : AccountObject)
      (power : VotePower) (voted : CommentObject)
      (found : db.findComment op.author op.permlink = some (id, comment))
      (account : db.accounts.find? op.voter = some voter)
      (unpaid : db.calculateDiscussionPayoutTime comment ≠ .ok maximumTime)
      (powered : db.votePower voter op.weight = .ok power)
      (net : voted.netRshares =
        db.sharesOfOthers id comment voter + voteRshares op power)
      (fits : FitsInt64 voted.netRshares)
      (sees : Sees (fun _ => CommentObject.core)
        { db with comments := db.comments.set id voted } after)

theorem sharesMoved_vote
    (done : db.voteEvaluator ext op = .ok after) :
    SharesMoved db op after := by
  simp only [voteEvaluator, bind_eq_ok_iff, getComment, getAccount,
    orFault_eq_ok_iff] at done
  rcases done with ⟨⟨id, comment⟩, found, voter, account, done⟩
  rcases done with ⟨_, -, _, -, _, -, time, due, done⟩
  split at done
  case isTrue late =>
    exact .late id comment found (late ▸ due)
      ((pure_eq_ok_iff _ _).1 done).symm
  case isFalse early =>
    have unpaid : db.calculateDiscussionPayoutTime comment ≠
        .ok maximumTime := by
      rw [due]
      exact fun late => early (Except.ok.inj late)
    simp only [bind_eq_ok_iff] at done
    rcases done with ⟨power, powered, done⟩
    split at done
    case h_1 first =>
      rcases castVote_cases done with
        ⟨voted, _, -, totals, fits, -, -, -, sees⟩
      refine .moved id comment voter power voted found account unpaid powered
        ?_ fits sees
      rw [sharesOfOthers, first]
      exact congrArg VoteTotals.netRshares totals
    case h_2 place vote earlier =>
      rcases changeVote_cases done with ⟨voted, _, -, totals, fits, -, -, sees⟩
      refine .moved id comment voter power voted found account unpaid powered
        ?_ fits sees
      rw [sharesOfOthers, earlier]
      exact congrArg VoteTotals.netRshares totals

namespace Unrewarded

theorem vote
    (unrewarded : Unrewarded db)
    (against : db.VotesAgainst (.vote op))
    (done : db.voteEvaluator ext op = .ok after) :
    Unrewarded after := by
  have total : after.props.totalRewardShares2 = db.props.totalRewardShares2 :=
    @total_applyOperation ext db after (.vote op) done
  cases sharesMoved_vote done with
  | late _ _ _ _ same => exact same ▸ unrewarded
  | moved id comment voter power voted found account unpaid powered net fits
      sees =>
      have low : voted.netRshares ≤ 0 := by
        rw [net]
        exact against id comment voter power found account unpaid powered
      have placed : Unrewarded
          { db with comments := db.comments.set id voted } :=
        ⟨unrewarded.net.set low id, unrewarded.total⟩
      exact placed.of_sees (sees.map (fun _ => Prod.snd) fun _ _ => rfl) total

/-- A vote which leaves the total at what is outstanding is one against. -/
theorem votesAgainst
    (unrewarded : Unrewarded db)
    (done : db.voteEvaluator ext op = .ok after)
    (equal : (after.props.totalRewardShares2 : Int) = after.outstandingShares) :
    db.VotesAgainst (.vote op) := by
  intro id comment voter power found account unpaid powered
  have total : after.props.totalRewardShares2 = 0 :=
    (@total_applyOperation ext db after (.vote op) done).trans unrewarded.total
  rw [total] at equal
  cases sharesMoved_vote done with
  | late other post found' paid same =>
      rw [found] at found'
      cases found'
      exact absurd paid unpaid
  | moved other post account' power' voted found' owner _ powered' net fits
      sees =>
      rw [found] at found'
      cases found'
      rw [account] at owner
      cases owner
      rw [powered] at powered'
      cases powered'
      rw [← net, ← Int.not_lt]
      intro positive
      have stored := Table.find?_of_findBy found
      have seen := sees id
      dsimp only at seen
      rw [Table.find?_set stored, if_pos rfl, Option.map_some,
        Option.map_eq_some_iff] at seen
      rcases seen with ⟨row, there, same⟩
      have shares : row.netRshares = voted.netRshares :=
        congrArg (fun core => core.2.netRshares) same
      have due : 0 < row.rewardShares :=
        rewardShares_pos (shares ▸ positive) (shares ▸ fits)
      have part : row.rewardShares ≤ after.outstandingShares :=
        le_sumOf (fun _ other _ => rewardShares_nonneg other) there
      omega

end Unrewarded

/-! ## The other changes of comments -/

namespace Unrewarded

variable (unrewarded : Unrewarded db)

include unrewarded

theorem storeComment
    {op : CommentOperation}
    {comment : CommentObject}
    (totals : comment.totals = ⟨0, 0, 0, 0⟩)
    (done : db.storeComment op comment = .ok after)
    (total : after.props.totalRewardShares2 = db.props.totalRewardShares2) :
    Unrewarded after := by
  simp only [Database.storeComment, createRow, bind_eq_ok_iff,
    pure_eq_ok_iff] at done
  rcases done with ⟨_, -, _, -, _, ⟨_, -, rfl⟩, told, walk, pay⟩
  have sees : Sees (fun _ => CommentObject.totals)
      { db with comments := db.comments.emplace comment } after := by
    refine trans_of _ (sees_updateParents ?_ _ _ _ _ told walk)
      (.of_agrees (touches_processFundsBmchain told _ after pay) rfl)
    exact fun _ _ => rfl
  have net : comment.netRshares = 0 := congrArg VoteTotals.netRshares totals
  have placed : Unrewarded
      { db with comments := db.comments.emplace comment } :=
    ⟨unrewarded.net.emplace (Int.le_of_eq net), unrewarded.total⟩
  exact placed.of_sees sees total

theorem written
    {op : CommentOperation}
    (total : after.props.totalRewardShares2 = db.props.totalRewardShares2)
    (written : Written ext db op after) :
    Unrewarded after := by
  cases written with
  | edited sees =>
      exact unrewarded.of_sees (sees.map (fun _ => Prod.snd) fun _ _ => rfl)
        total
  | stored later parent comment same fresh found core done =>
      have kept : after.props.totalRewardShares2 =
          later.props.totalRewardShares2 :=
        touches_storeComment later op comment after done
          (.props .rewardShares) (by decide)
      have totals : comment.totals = ⟨0, 0, 0, 0⟩ := by
        refine (congrArg Prod.snd core).trans ?_
        cases parent <;> rfl
      have ready : Unrewarded later :=
        unrewarded.of_sees (.of_comments same) (kept.symm.trans total)
      exact ready.storeComment totals done kept

theorem deleteComment
    {op : DeleteCommentOperation}
    (total : after.props.totalRewardShares2 = db.props.totalRewardShares2)
    (done : db.deleteCommentEvaluator op = .ok after) :
    Unrewarded after := by
  simp only [deleteCommentEvaluator, bind_eq_ok_iff, pure_eq_ok_iff] at done
  rcases done with ⟨_, -, _, -, ⟨id, comment⟩, -, _, -, _, -, done⟩
  rcases done with ⟨_, -, told, walk, rfl⟩
  have sees : Sees (fun _ => CommentObject.totals) db told := by
    refine trans_of _ (Sees.of_comments rfl)
      (sees_updateParents ?_ _ _ _ _ told walk)
    exact fun _ _ => rfl
  have kept : Unrewarded told := unrewarded.of_sees sees total
  exact ⟨kept.net.remove id, kept.total⟩

theorem restartComment
    (done : db.restartComment id = .ok after) :
    Unrewarded after := by
  simp only [Database.restartComment, modifyComment, modifyRow,
    bind_eq_ok_iff, orFault_eq_ok_iff, pure_eq_ok_iff] at done
  rcases done with ⟨_, ⟨old, there, _, rfl, rfl⟩, rfl⟩
  have against := unrewarded.net id old there
  refine ⟨unrewarded.net.set ?_ id, unrewarded.total⟩
  dsimp only
  rw [if_neg (Int.not_lt.2 against)]
  exact against

/-- A payout which gives no reward reports nothing. -/
theorem cashoutComment
    {id recentClaims : Nat}
    {rewardBalance claimed : Int}
    (done : db.cashoutCommentHelper ext id recentClaims rewardBalance =
      .ok (after, claimed)) :
    Unrewarded after := by
  simp only [cashoutCommentHelper, bind_eq_ok_iff, getCommentById,
    orFault_eq_ok_iff] at done
  rcases done with
    ⟨comment, found, ⟨paid, _⟩, pay, restarted, restart, closed, close, equal⟩
  cases equal
  rw [if_neg (Int.not_lt.2 (unrewarded.net id comment found))] at pay
  cases pay
  have cleared : Unrewarded restarted := unrewarded.restartComment restart
  have noted : Unrewarded (restarted.pushVirtualOperation
      (.commentPayoutUpdate comment.author comment.permlink)) :=
    ⟨cleared.net, cleared.total⟩
  exact noted.of_agrees (touches_closeVotes _ id after close) rfl

theorem applyOperation
    {op : Operation}
    (against : db.VotesAgainst op)
    (done : db.applyOperation ext op = .ok after) :
    Unrewarded after := by
  have agrees := touches_applyOperation ext db op after done
  have total := total_applyOperation done
  cases op with
  | vote op => exact unrewarded.vote against done
  | comment op => exact unrewarded.written total (written_comment done)
  | encryptedContent op =>
      exact unrewarded.written total (written_encryptedContent done)
  | deleteComment op => exact unrewarded.deleteComment total done
  | commentOptions op =>
      have sees := sees_commentOptions op db after done
      exact unrewarded.of_sees
        (sees.map (fun _ view => view.1.2) fun _ _ => rfl) total
  | _ => exact unrewarded.of_agrees agrees rfl

theorem runStep
    {header : BlockHeader}
    {step : BlockStep}
    (done : db.runStep ext header step = .ok after) :
    Unrewarded after := by
  have agrees := touches_runStep ext header db step after done
  cases step with
  | processCommentCashout =>
      refine processCommentCashout_invariant Unrewarded ?_ ?_
        (eachPayout_of_forall (fun _ _ _ _ => trivial) db) done unrewarded
      · exact fun before after funded start => start.of_agrees funded rfl
      · exact fun _ _ _ _ _ _ _ cashed start => start.cashoutComment cashed
  | _ => exact unrewarded.of_agrees agrees rfl

/-- Without a comment to reward, the total is right and is never short. -/
theorem sharesOutstanding :
    db.SharesOutstanding ext := by
  constructor
  case total =>
    rw [unrewarded.outstanding, unrewarded.total]
    rfl
  case covers =>
    refine eachPayout_of_invariant Unrewarded ?_ ?_ ?_
    · exact fun _ _ _ _ _ _ cashed start => start.cashoutComment cashed
    · intro state id _ _ start comment found
      rw [rewardShares_of_nonpos (start.net id comment found)]
      exact Int.natCast_nonneg _
    · exact fun decayed funds decay =>
        unrewarded.of_agrees (agrees_decayFunds decay) rfl

omit unrewarded in
theorem visited
    (visited : Visited ext VotesAgainst (fun _ _ _ => True) db) :
    Unrewarded db := by
  refine visited.invariant Unrewarded ?_ ?_ ?_ ?_
  · exact ⟨Table.All.empty, rfl⟩
  · intro state header next begun start
    exact start.of_agrees (touches_beginBlock state header next begun) rfl
  · exact fun _ _ _ against _ done start => start.applyOperation against done
  · exact fun _ _ _ _ _ done start => start.runStep done

end Unrewarded

end Database

/-! ## Runs -/

/--
As long as no vote leaves a comment with positive shares, the total is the
outstanding one and covers what payouts subtract; an operation keeps this
exactly if it is no such vote.
-/
theorem reward_shares_outstanding
    {ext : External}
    {db : Database}
    (visited :
      Visited ext Database.VotesAgainst (fun _ _ _ => True) db) :
    db.SharesOutstanding ext ∧
      ∀ op after, db.applyOperation ext op = .ok after →
        (after.SharesOutstanding ext ↔ db.VotesAgainst op) := by
  have unrewarded := Database.Unrewarded.visited visited
  refine ⟨unrewarded.sharesOutstanding, ?_⟩
  intro op after done
  constructor
  · intro outstanding
    cases op with
    | vote op => exact unrewarded.votesAgainst done outstanding.total
    | _ => trivial
  · intro against
    exact (unrewarded.applyOperation against done).sharesOutstanding

/-- A vote against a post leaves the total right. -/
theorem reward_shares_outstanding_against :
    ∃ db,
      [Event.operation (samplePost initMinerName),
          .operation (sampleVote "devs" (-10000))].foldlM
            (Database.step plainExternal) initGenesis = .ok db ∧
        db.SharesOutstanding plainExternal := by
  have ran : ((initGenesis.step plainExternal
      (.operation (samplePost initMinerName))).bind fun db =>
        (require
          ((db.findComment initMinerName [97]).all fun entry =>
            (db.accounts.find? "devs").all fun voter =>
              db.sharesOfOthers entry.1 entry.2 voter = 0) "").bind fun _ =>
          db.step plainExternal
            (.operation (sampleVote "devs" (-10000)))).isOk = true := by
    decide +kernel
  rcases exists_of_isOk ran with ⟨db, done⟩
  rcases (bind_eq_ok_iff _ _ _).1 done with ⟨posted, post, done⟩
  rcases (bind_eq_ok_iff _ _ _).1 done with ⟨_, fresh, vote⟩
  have against : posted.VotesAgainst (sampleVote "devs" (-10000)) := by
    intro id comment voter power found account _ powered
    rw [require_eq_ok_iff] at fresh
    have none : posted.sharesOfOthers id comment voter = 0 := by
      have lookup : posted.findComment initMinerName [97] =
          some (id, comment) := found
      have owner : posted.accounts.find? "devs" = some voter := account
      simpa [lookup, owner] using fresh
    have nonneg := Database.votePower_nonneg powered
    rw [none, Database.voteRshares, if_pos (by decide)]
    omega
  refine ⟨db, ?_, ?_⟩
  · rw [List.foldlM_cons, post]
    change (posted.step plainExternal _ >>= _) = _
    rw [vote]
    rfl
  · rcases (bind_eq_ok_iff _ _ _).1 post with ⟨_, valid, stored⟩
    rcases (bind_eq_ok_iff _ _ _).1 vote with ⟨_, sound, voted⟩
    have second : Visited plainExternal Database.VotesAgainst
        (fun _ _ _ => True) posted :=
      .operation (samplePost initMinerName) .genesis trivial valid stored
    exact (reward_shares_outstanding
      (second.operation _ against sound voted)).1

/-- A vote for a post leaves the total at zero, and the post is due a reward. -/
theorem reward_shares_not_reported :
    ∃ db,
      [Event.operation (samplePost initMinerName),
          .operation (sampleVote "devs" 10000)].foldlM
            (Database.step plainExternal) initGenesis = .ok db ∧
        Reachable plainExternal db ∧ db.props.totalRewardShares2 = 0 ∧
          0 < db.outstandingShares ∧ ¬ db.SharesOutstanding plainExternal := by
  have ran : ([Event.operation (samplePost initMinerName),
      .operation (sampleVote "devs" 10000)].foldlM
        (Database.step plainExternal) initGenesis).bind (fun db =>
          require (db.props.totalRewardShares2 = 0 ∧
            0 < db.outstandingShares) "") = .ok () := by
    decide +kernel
  rcases (bind_eq_ok_iff _ _ _).1 ran with ⟨db, done, facts⟩
  rw [require_eq_ok_iff] at facts
  rcases facts with ⟨total, due⟩
  have reachable : Reachable plainExternal db := by
    refine ⟨none, RunState.of_foldlM .genesis ?_ done⟩
    exact ⟨none, .operation _ none, none, .operation _ none, rfl⟩
  refine ⟨db, done, reachable, total, due, fun outstanding => ?_⟩
  have equal := outstanding.total
  omega

end BMChain.State
