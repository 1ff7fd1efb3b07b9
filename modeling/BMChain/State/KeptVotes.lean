import BMChain.State.CurationRewards
import BMChain.State.QuietChain

/-!
# Votes which outlive a payout

A week after a post the chain pays it, without a reward when the votes are
against it.  The payout sets the total of the weights to zero and keeps the
votes with their weights, so the total is below their sum from then on.
-/

namespace BMChain.State

open BMChain.Foundation BMChain.Protocol Std Database

/-! ## What posts and votes leave quiet -/

section Agreement

variable {fields : List Field} {db after : Database}

/-- The aspects of witnesses. -/
def witnessParts : List Field :=
  [.witness .identity, .witness .votes, .witness .race, .witness .service]

/-- The parts which make a state quiet. -/
def quietParts : List Field :=
  witnessParts ++ [.account .identity, .account .withdrawal,
    .account .savings, .schedule, .hardforks, .transactions, .limitOrders,
    .delegationExpirations, .customTokens, .escrows, .declineRequests,
    .recoveryRequests, .ownerHistory, .changeRecoveryRequests]

theorem witnesses_of_agrees
    (agrees : Agrees fields db after)
    (separate : apart witnessParts fields = true) :
    after.witnesses.rows = db.witnesses.rows := by
  refine ExtTreeMap.ext_getElem? ?_
  intro name
  have identity : Field.read (.witness .identity) after =
      Field.read (.witness .identity) db :=
    agrees.read_eq separate (by decide)
  have votes : Field.read (.witness .votes) after =
      Field.read (.witness .votes) db :=
    agrees.read_eq separate (by decide)
  have race : Field.read (.witness .race) after =
      Field.read (.witness .race) db :=
    agrees.read_eq separate (by decide)
  have service : Field.read (.witness .service) after =
      Field.read (.witness .service) db :=
    agrees.read_eq separate (by decide)
  replace identity := congrFun identity name
  replace votes := congrFun votes name
  replace race := congrFun race name
  replace service := congrFun service name
  change after.witnesses.find? name = db.witnesses.find? name
  simp only [Field.read] at identity votes race service
  cases old : db.witnesses.find? name with
  | none =>
      rw [old] at identity
      exact Option.map_eq_none_iff.1 identity
  | some witness =>
      rw [old] at identity votes race service
      rcases Option.map_eq_some_iff.1 identity with ⟨changed, there, _⟩
      rw [there] at identity votes race service ⊢
      cases witness
      cases changed
      simp_all [WitnessAspect.read]

/-- What can be read off a state of which the rest is quiet. -/
def Calm (db : Database) : Prop :=
  (db.rewardFunds.entries.map fun entry => (entry.1, entry.2.name)) =
      [(0, postRewardFundName)] ∧
    (∀ entry ∈ db.rewardFunds.entries, FitsInt64 entry.2.rewardBalance) ∧
      ((db.accounts.find? nullAccount).map fun account =>
        (account.balance, account.savingsBalance, account.vestingShares,
          account.rewardBmtBalance, account.rewardVestingBalance)) =
        some (0, 0, 0, 0, 0)

instance (db : Database) : Decidable (Calm db) :=
  inferInstanceAs (Decidable (_ ∧ _ ∧ _))

/-- What touches no quiet part keeps the quiet, if it leaves the rest calm. -/
theorem Quiet.of_agrees
    (quiet : Quiet db)
    (agrees : Agrees fields db after)
    (separate : apart quietParts fields = true)
    (calm : Calm after) :
    Quiet after := by
  have witnesses : after.witnesses.rows = db.witnesses.rows := by
    refine witnesses_of_agrees agrees ?_
    rw [apart, List.all_eq_true] at separate ⊢
    exact fun field member => separate field (List.mem_append_left _ member)
  have kept : ∀ field ∈ quietParts, field.read after = field.read db :=
    fun _ member => agrees.read_eq separate member
  have schedule : after.schedule = db.schedule :=
    kept .schedule (by decide)
  have hardforks : after.hardforks = db.hardforks :=
    kept .hardforks (by decide)
  have identity : Field.read (.account .identity) after =
      Field.read (.account .identity) db :=
    kept _ (by decide)
  have withdrawal : Field.read (.account .withdrawal) after =
      Field.read (.account .withdrawal) db :=
    kept _ (by decide)
  have savings : Field.read (.account .savings) after =
      Field.read (.account .savings) db :=
    kept _ (by decide)
  have changes : after.changeRecoveryRequests = db.changeRecoveryRequests :=
    kept .changeRecoveryRequests (by decide)
  have account : ∀ name account, after.accounts.find? name = some account →
      ∃ old, db.accounts.find? name = some old ∧
        old.nextSavingsWithdrawal = account.nextSavingsWithdrawal ∧
          old.savingsBalance = account.savingsBalance := by
    intro name account found
    have times := congrFun withdrawal name
    have saved := congrFun savings name
    simp only [Field.read, found, Option.map_some] at times saved
    rcases Option.map_eq_some_iff.1 times.symm with ⟨old, there, equal⟩
    rw [there] at saved
    simp only [AccountAspect.read, Prod.mk.injEq] at equal
    exact ⟨old, there, equal.2.1, (Option.some.inj saved).symm⟩
  rcases calm with ⟨funds, fits, null⟩
  constructor
  case producer =>
    rcases quiet.producer with ⟨witness, founder, rows⟩
    exact ⟨witness, founder, witnesses.trans rows⟩
  case names => exact schedule ▸ quiet.names
  case places => exact schedule ▸ quiet.places
  case elected => exact schedule ▸ quiet.elected
  case required => exact schedule ▸ quiet.required
  case nextHardfork => exact hardforks ▸ quiet.nextHardfork
  case version => exact hardforks ▸ quiet.version
  case fund =>
    rcases List.map_eq_singleton_iff.1 funds with ⟨⟨id, fund⟩, single, equal⟩
    simp only [Prod.mk.injEq] at equal
    rcases equal with ⟨rfl, name⟩
    exact ⟨fund, ⟨name, fits _ (single ▸ List.mem_singleton_self _)⟩,
      Table.rows_of_entries single⟩
  case null =>
    rcases Option.map_eq_some_iff.1 null with ⟨account, found, equal⟩
    simp only [Prod.mk.injEq] at equal
    rcases equal with ⟨balance, savings, shares, reward, rewardShares⟩
    exact ⟨account, found, balance, savings, shares, reward, rewardShares⟩
  case patient =>
    intro name changed found
    rcases account name changed found with ⟨old, there, same, -⟩
    exact same.symm.trans (quiet.patient name old there)
  case unsaved =>
    intro name changed found
    rcases account name changed found with ⟨old, there, -, same⟩
    exact same.symm.trans (quiet.unsaved name old there)
  case transactions =>
    exact (kept .transactions (by decide)).trans quiet.transactions
  case limitOrders =>
    exact (kept .limitOrders (by decide)).trans quiet.limitOrders
  case delegations =>
    exact (kept .delegationExpirations (by decide)).trans quiet.delegations
  case tokens =>
    exact (kept .customTokens (by decide)).trans quiet.tokens
  case escrows =>
    exact (kept .escrows (by decide)).trans quiet.escrows
  case declines =>
    exact (kept .declineRequests (by decide)).trans quiet.declines
  case requests =>
    exact (kept .recoveryRequests (by decide)).trans quiet.requests
  case owners =>
    exact (kept .ownerHistory (by decide)).trans quiet.owners
  case known =>
    rw [changes]
    intro id request found
    have named := congrFun identity request.accountToRecover
    intro gone
    simp only [Field.read, gone, Option.map_none] at named
    exact quiet.known id request found (Option.map_eq_none_iff.1 named.symm)

end Agreement

/-! ## The payout of a post without worth -/

/-- A vote on the first comment has some weight. -/
def Weighed (votes : Table CommentVoteObject) : Prop :=
  ∃ place vote, votes.find? place = some vote ∧ vote.comment = 0 ∧
    0 < vote.weight

/-- The only comment is a post without worth, and a vote on it has weight. -/
structure Unpaid (due : Time) (comments : Table CommentObject)
    (votes : Table CommentVoteObject) : Prop where
  post : ∃ comment : CommentObject,
    comments.rows = place ∅ 0 (some comment) ∧ comment.netRshares ≤ 0 ∧
      comment.parentAuthor = "" ∧ comment.cashoutTime = due
  weighed : Weighed votes

/-- The only comment was paid, and a vote on it has weight. -/
structure Paid (now : Time) (comments : Table CommentObject)
    (votes : Table CommentVoteObject) : Prop where
  post : ∃ comment : CommentObject,
    comments.rows = place ∅ 0 (some comment) ∧ comment.totalVoteWeight = 0 ∧
      now < comment.cashoutTime
  weighed : Weighed votes

/-- No comment is worth a reward. -/
abbrev Worthless : Content :=
  fun comments _ => comments.All fun comment => comment.netRshares ≤ 0

/-- Options stay, and a block ends when no comment is worth a reward. -/
def PaysNothing (db : Database) : Event → Prop
  | .operation (.commentOptions _) => False
  | .finishBlock _ => Worthless db.comments db.commentVotes
  | _ => True

section Payout

variable {ext : External} {db : Database} {due : Time}

theorem Unpaid.worthless
    {comments : Table CommentObject}
    {votes : Table CommentVoteObject}
    (unpaid : Unpaid due comments votes) :
    Worthless comments votes := by
  rcases unpaid.post with ⟨comment, rows, worthless, -, -⟩
  intro id other found
  rw [Table.find?, rows, getElem?_place] at found
  split at found
  · cases found
    exact worthless
  · cases found

/-- The votes on a post which is due again keep their weights. -/
theorem closeVotes_weighed
    {comment : CommentObject}
    (rows : db.comments.rows = place ∅ 0 (some comment))
    (root : comment.parentAuthor = "")
    (again : comment.cashoutTime ≠ maximumTime)
    (weighed : Weighed db.commentVotes) :
    Yields (db.closeVotes 0) fun after =>
      ∃ votes, after = { db with commentVotes := votes } ∧ Weighed votes := by
  rcases weighed with ⟨place, vote, there, on, heavy⟩
  have found : db.getCommentById 0 = .ok comment := by
    refine orFault_eq_ok_iff.2 ?_
    rw [Table.find?, rows, getElem?_place, if_pos rfl]
  have closed : Yields (db.closeVotes 0) fun after =>
      ∃ votes row, after = { db with commentVotes := votes } ∧
        votes.find? place = some row ∧ row.comment = 0 ∧
          row.weight = vote.weight := by
    refine .step found (.foldlM _ ?_ ⟨_, vote, rfl, there, on, rfl⟩)
    rintro _ ⟨other, closing⟩ member ⟨votes, row, rfl, kept, own, weight⟩
    rcases mem_votesOfComment.1 member with ⟨old, post⟩
    have time : ∀ state : Database,
        state.calculateDiscussionPayoutTime comment =
          .ok comment.cashoutTime :=
      fun _ => if_pos root
    refine .step (time _) ?_
    rw [if_pos again]
    by_cases same : other = place
    · subst same
      have equal := Option.some.inj (old.symm.trans there)
      dsimp only at equal
      subst equal
      refine .ok ⟨_, { closing with numChanges := -1 }, rfl, ?_, on, rfl⟩
      rw [Table.find?_set kept, if_pos rfl]
    · refine .ok ⟨_, row, rfl, ?_, own, weight⟩
      dsimp only
      cases present : votes.find? other with
      | none => rw [Table.set_absent present, kept]
      | some _ => rw [Table.find?_set present, if_neg same, kept]
  refine closed.mono ?_
  rintro after ⟨votes, row, equal, kept, own, weight⟩
  exact ⟨votes, equal, place, row, kept, own, weight ▸ heavy⟩

/-- The payout sets the total to zero and keeps the votes. -/
theorem cashout_unpaid
    {recentClaims : Nat}
    {rewardBalance : Int}
    (unpaid : Unpaid due db.comments db.commentVotes)
    (early : db.headBlockTime + secondCashoutWindow < maximumTime) :
    Yields (db.cashoutCommentHelper ext 0 recentClaims rewardBalance)
      fun paid => ∃ comments votes operations,
        paid = ({ db with
          comments := comments
          commentVotes := votes
          virtualOperations := operations }, 0) ∧
            Paid db.headBlockTime comments votes := by
  rcases unpaid with ⟨⟨comment, rows, worthless, root, -⟩, weighed⟩
  have there : db.comments.find? 0 = some comment := by
    rw [Table.find?, rows, getElem?_place, if_pos rfl]
  have later : addSeconds db.headBlockTime secondCashoutWindow =
      db.headBlockTime + secondCashoutWindow := by
    refine Nat.mod_eq_of_lt (Nat.lt_trans early ?_)
    decide
  have restarted : Yields (db.restartComment 0) fun after =>
      ∃ (comments : Table CommentObject) (restart : CommentObject),
        after = { db with comments := comments } ∧
          comments.rows = place ∅ 0 (some restart) ∧
            restart.totalVoteWeight = 0 ∧ restart.parentAuthor = "" ∧
              restart.cashoutTime =
                db.headBlockTime + secondCashoutWindow := by
    unfold restartComment modifyComment modifyRow
    rw [there]
    refine .ok ⟨_, ?restart, rfl, ?single, ?total, ?root, ?time⟩
    case single =>
      refine (Table.set_rows there _).trans ?_
      rw [rows]
      exact place_place ∅ 0 _ _
    case total => rfl
    case root => exact root
    case time => exact later
  refine .step (orFault_eq_ok_iff.2 there) ?_
  rw [if_neg (Int.not_lt.2 worthless)]
  refine .bind (.ok rfl) ?_
  rintro _ rfl
  refine restarted.bind ?_
  rintro _ ⟨comments, restart, rfl, single, total, post, again⟩
  have unending : restart.cashoutTime ≠ maximumTime := by
    rw [again]
    exact Nat.ne_of_lt early
  refine .bind (closeVotes_weighed ?rows post unending ?votes) ?closed
  case rows => exact single
  case votes => exact weighed
  case closed =>
    rintro _ ⟨votes, rfl, kept⟩
    refine .ok ⟨comments, votes, _, rfl, ⟨restart, single, total, ?_⟩, kept⟩
    rw [again]
    exact Nat.lt_add_of_pos_right (by decide)

/-- The only comment is due at its time. -/
theorem dueComments_unpaid
    (unpaid : Unpaid due db.comments db.commentVotes)
    (now : due ≤ db.headBlockTime) :
    (dueComments db).head?.map Prod.fst = some 0 := by
  rcases unpaid.post with ⟨comment, rows, -, -, time⟩
  have single : db.comments.entries = [(0, comment)] := by
    rw [Table.entries, rows, toList_place_empty]
  rw [dueComments, single]
  simp [time, now]

theorem dueComments_paid
    (paid : Paid db.headBlockTime db.comments db.commentVotes) :
    (dueComments db).head?.map Prod.fst = none := by
  rcases paid.post with ⟨comment, rows, -, later⟩
  have single : db.comments.entries = [(0, comment)] := by
    rw [Table.entries, rows, toList_place_empty]
  rw [dueComments, single]
  simp [later]

/-- The first comment is paid against the context of the only fund. -/
theorem cashoutDue_unpaid
    {context : RewardFundContext}
    (quiet : Quiet db)
    (unpaid : Unpaid due db.comments db.commentVotes)
    (early : db.headBlockTime + secondCashoutWindow < maximumTime)
    (none : context.bmtAwarded = 0) :
    Yields (cashoutDue ext 0 (db, [context])) fun round =>
      (Quiet round.1 ∧ Paid db.headBlockTime round.1.comments
          round.1.commentVotes ∧
        ∃ context : RewardFundContext,
          round.2 = [context] ∧ context.bmtAwarded = 0) ∧
        (dueComments round.1).head?.map Prod.fst = .none := by
  rcases context with ⟨recentClaims, rewardBalance, awarded⟩
  cases none
  rcases quiet.fund with ⟨fund, settled, rows⟩
  have got : db.getRewardFund = .ok (0, fund) := by
    refine orFault_eq_ok_iff.2 ?_
    rw [Table.findBy, Quiet.entries_fund rows, List.find?_cons_of_pos]
    exact decide_eq_true settled.name
  refine .step got (.step rfl ?_)
  refine (cashout_unpaid unpaid early).bind ?_
  rintro _ ⟨comments, votes, operations, rfl, paid⟩
  refine .step rfl (.ok ⟨⟨{ quiet with }, paid, _, rfl, rfl⟩, ?_⟩)
  exact dueComments_paid paid

/-- A round of payouts pays the only comment. -/
theorem Quiet.payout
    (quiet : Quiet db)
    (unpaid : Unpaid due db.comments db.commentVotes)
    (old : firstPayoutBlock < db.headBlockNum)
    (now : due ≤ db.headBlockTime)
    (early : db.headBlockTime + secondCashoutWindow < maximumTime) :
    Yields (db.processCommentCashout ext) fun after =>
      Quiet after ∧
        Paid db.headBlockTime after.comments after.commentVotes := by
  rcases unpaid.post with ⟨comment, rows, -⟩
  refine quiet.processCommentCashout_of_drain ?_ unpaid.worthless ?_
  · intro young
    exact absurd old (Nat.not_lt_of_le young)
  · intro funds context quiet none
    have rounds : db.comments.size = 1 := by
      have listed : db.comments.entries = [(0, comment)] := by
        rw [Table.entries, rows, toList_place_empty]
      have length := congrArg List.length listed
      rw [Table.entries, ExtTreeMap.length_toList] at length
      exact length
    rw [rounds]
    refine .drain_once (show _ = some 0 from ?_) ?_ 0
    · exact dueComments_unpaid unpaid now
    · exact cashoutDue_unpaid quiet unpaid early none

end Payout

/-! ## From the post to its payout -/

/-- A run with an unpaid post whose votes weigh, at the end of a block. -/
structure UnpaidRun (number : Nat) (db : Database) : Prop where
  run : RunState plainExternal PaysNothing none db
  quiet : Quiet db
  head : HeadAt number db
  time : db.headBlockTime = genesisTime + blockInterval * number
  unpaid : Unpaid (genesisTime + cashoutWindowSeconds) db.comments
    db.commentVotes

theorem agrees_operation
    {ext : External}
    {op : Operation}
    {db after : Database}
    (done : db.step ext (.operation op) = .ok after) :
    Agrees (footprint op) db after := by
  rcases (bind_eq_ok_iff _ _ _).1 done with ⟨_, -, applied⟩
  exact touches_applyOperation ext db op after applied

/-- Only one block is between the post and the votes on it. -/
theorem unpaidRun_one :
    ∃ db, UnpaidRun 1 db := by
  have ran : ((initGenesis.step plainExternal
      (.operation (samplePost initMinerName))).bind fun posted => do
        require (Calm posted) ""
        require (posted.comments.findBy (fun comment =>
          0 < comment.netRshares) = none) ""
        let begun ← posted.step plainExternal (.beginBlock firstHeader)
        let opened ← begun.step plainExternal (.finishBlock firstHeader)
        let praised ← opened.step plainExternal
          (.operation (sampleVote "devs" 10000))
        let voted ← praised.step plainExternal
          (.operation (sampleVote initMinerName (-10000)))
        let comment ← orFault (voted.comments.find? 0) ""
        let vote ← orFault (voted.commentVotes.find? 0) ""
        require (Calm voted ∧ voted.comments.entries.map Prod.fst = [0] ∧
          comment.netRshares ≤ 0 ∧ comment.parentAuthor = "" ∧
            comment.cashoutTime = genesisTime + cashoutWindowSeconds ∧
              vote.comment = 0 ∧ 0 < vote.weight) "") = .ok () := by
    decide +kernel
  rcases (bind_eq_ok_iff _ _ _).1 ran with ⟨posted, post, ran⟩
  simp only [bind_eq_ok_iff, require_eq_ok_iff, orFault_eq_ok_iff] at ran
  rcases ran with ⟨_, still, _, bare, begun, begin, opened, finish, praised,
    praise, voted, votes, comment, found, vote, there, calm, single, worthless, root,
    due, own, heavy⟩
  have written := agrees_operation post
  have quiet : Quiet posted := quiet_genesis.of_agrees written rfl still
  have head : HeadAt 0 posted := headAt_genesis.of_agrees written rfl
  have same : posted.props.headBlockId = initGenesis.props.headBlockId ∧
      posted.headBlockTime = genesisTime := by
    have kept : Field.read (.props .head) posted =
        Field.read (.props .head) initGenesis :=
      written (.props .head) (by decide)
    exact ⟨congrArg (fun head => head.2.1) kept,
      congrArg (fun head => head.2.2.1) kept⟩
  have header : quietHeader posted (genesisTime + blockInterval) =
      firstHeader := by
    rw [quietHeader, same.1]
    rfl
  have next : ∃ begun after, posted.beginBlock firstHeader = .ok begun ∧
      Worthless begun.comments begun.commentVotes ∧
        begun.finishBlock plainExternal firstHeader = .ok after ∧
          Ready firstHeader 1 (fun _ _ => True) after := by
    rw [← header]
    refine @Quiet.next plainExternal posted 0 _ Worthless
      (fun _ _ => True) quiet head (by decide) ?_ (by decide) ?_ ?_
    · rw [same.2]
    · exact fun _ _ there => Int.not_lt.1
        (of_decide_eq_false (Table.refused_of_findBy bare there))
    · intro state ready
      have early : state.headBlockNum ≤ firstPayoutBlock := by
        rw [headBlockNum, ready.head.height]
        decide
      exact .of_eq (if_pos early) ⟨ready.quiet, trivial⟩
  rcases next with ⟨started, ended, start, idle, done, ready⟩
  cases Except.ok.inj (start.symm.trans begin)
  cases Except.ok.inj (done.symm.trans finish)
  have first := agrees_operation praise
  have second := agrees_operation votes
  have agrees : Agrees voteFields opened voted := trans_of _ first second
  have initial : RunState plainExternal PaysNothing none initGenesis := .genesis
  have written := RunState.step (.operation (samplePost initMinerName)) initial
    (.operation _ none) trivial post
  have entered := RunState.step _ written (.beginBlock _) trivial begin
  have left := RunState.step _ entered (.finishBlock _) idle finish
  have praised := RunState.step (.operation (sampleVote "devs" 10000)) left
    (.operation _ none) trivial praise
  have run := RunState.step (.operation (sampleVote initMinerName (-10000)))
    praised (.operation _ none) trivial votes
  refine ⟨voted, ?_⟩
  constructor
  case run => exact run
  case quiet => exact ready.quiet.of_agrees agrees rfl calm
  case head => exact ready.head.of_agrees agrees rfl
  case time =>
    have kept : Field.read (.props .head) voted =
        Field.read (.props .head) opened :=
      agrees (.props .head) (by decide)
    exact (congrArg (fun head => head.2.2.1) kept).trans ready.time
  case unpaid =>
    rcases List.map_eq_singleton_iff.1 single with ⟨⟨id, row⟩, listed, equal⟩
    cases equal
    have rows := Table.rows_of_entries listed
    rw [Table.find?, rows, getElem?_place, if_pos rfl] at found
    cases found
    exact ⟨⟨comment, rows, worthless, root, due⟩, 0, vote, there, own, heavy⟩

/-- The run goes on with a block as long as nothing is paid. -/
theorem UnpaidRun.next
    {number : Nat}
    {db : Database}
    (start : UnpaidRun number db)
    (young : number + 1 ≤ firstPayoutBlock) :
    ∃ after, UnpaidRun (number + 1) after := by
  have small : number + 1 < burnInitRepBlock :=
    Nat.lt_of_le_of_lt young (by decide)
  have late : db.headBlockTime + blockInterval =
      genesisTime + blockInterval * (number + 1) := by
    rw [start.time]
    rfl
  have early : db.headBlockTime + blockInterval < maximumTime := by
    rw [late]
    exact quietTime_lt small
  have cashout : ∀ state, Ready (quietHeader db (db.headBlockTime +
      blockInterval)) (number + 1)
        (Unpaid (genesisTime + cashoutWindowSeconds)) state →
      Yields (state.processCommentCashout plainExternal) fun after =>
        Quiet after ∧ Unpaid (genesisTime + cashoutWindowSeconds)
          after.comments after.commentVotes := by
    intro state ready
    have idle : state.headBlockNum ≤ firstPayoutBlock := by
      rw [headBlockNum, ready.head.height]
      exact young
    exact .of_eq (if_pos idle) ⟨ready.quiet, ready.content⟩
  rcases start.quiet.next start.head small (Nat.le_refl _) early start.unpaid
    cashout with ⟨begun, after, begin, unpaid, finish, ready⟩
  have entered := RunState.step _ start.run (.beginBlock _) trivial begin
  have run := RunState.step _ entered (.finishBlock _) unpaid.worthless finish
  exact ⟨after, run, ready.quiet, ready.head, ready.time.trans late,
    ready.content⟩

theorem unpaidRun_blocks
    {blocks : Nat}
    (young : blocks + 1 ≤ firstPayoutBlock) :
    ∃ db, UnpaidRun (blocks + 1) db := by
  induction blocks with
  | zero => exact unpaidRun_one
  | succ blocks induction =>
      rcases induction (Nat.le_of_succ_le young) with ⟨db, start⟩
      exact start.next young

/-- With the first block of payouts the post is paid, and its votes stay. -/
theorem UnpaidRun.pay
    {db : Database}
    (start : UnpaidRun firstPayoutBlock db) :
    ∃ header begun after, RunState plainExternal PaysNothing (some header) begun ∧
      Unpaid (genesisTime + cashoutWindowSeconds) begun.comments
          begun.commentVotes ∧
        genesisTime + cashoutWindowSeconds ≤ header.timestamp ∧
          begun.finishBlock plainExternal header = .ok after ∧
            Paid after.headBlockTime after.comments after.commentVotes := by
  have late : db.headBlockTime + blockInterval =
      genesisTime + blockInterval * (firstPayoutBlock + 1) := by
    rw [start.time]
    rfl
  have cashout : ∀ state, Ready (quietHeader db (db.headBlockTime +
      blockInterval)) (firstPayoutBlock + 1)
        (Unpaid (genesisTime + cashoutWindowSeconds)) state →
      Yields (state.processCommentCashout plainExternal) fun after =>
        Quiet after ∧ Paid (db.headBlockTime + blockInterval)
          after.comments after.commentVotes := by
    intro state ready
    have time : state.headBlockTime = db.headBlockTime + blockInterval :=
      ready.time
    rw [← time]
    refine ready.quiet.payout ready.content ?_ ?_ ?_
    · rw [headBlockNum, ready.head.height]
      exact Nat.lt_succ_self _
    · rw [time, late]
      decide
    · rw [time, late]
      decide
  rcases start.quiet.next start.head (by decide) (Nat.le_refl _)
    (by rw [late]; decide) start.unpaid cashout with
      ⟨begun, after, begin, unpaid, finish, ready⟩
  have entered := RunState.step _ start.run (.beginBlock _) trivial begin
  refine ⟨_, begun, after, entered, unpaid, ?_, finish, ?_⟩
  · change _ ≤ db.headBlockTime + blockInterval
    rw [late]
    decide
  · rw [ready.time]
    exact ready.content

/-- The votes on a paid post outweigh its total. -/
theorem paid_votes_outweigh :
    ∃ db comment, Reachable plainExternal db ∧
      db.comments.find? 0 = some comment ∧
        comment.totalVoteWeight < db.voteWeights 0 := by
  have enough : 201599 + 1 ≤ firstPayoutBlock := by decide
  rcases unpaidRun_blocks enough with ⟨_, start⟩
  rcases start.pay with ⟨header, begun, db, entered, unpaid, -, finish,
    ⟨comment, rows, none, -⟩, weighed⟩
  have run := RunState.step _ entered (.finishBlock header) unpaid.worthless
    finish
  rcases weighed with ⟨place, vote, found, own, heavy⟩
  refine ⟨db, comment, ⟨_, run.mono fun _ _ _ => trivial⟩, ?_, ?_⟩
  · rw [Table.find?, rows, getElem?_place, if_pos rfl]
  · have part := weight_le_tally found own
    rw [weightTally_eq_sum] at part
    omega

end BMChain.State
