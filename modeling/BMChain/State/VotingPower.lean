import BMChain.Foundation.TokenBucket
import BMChain.State.CommentFrame
import BMChain.State.Clock
import BMChain.State.Holdings

/-!
# The voting power of an account

Voting power is a bucket which regenerates in five days.  A vote, be it the
first on a comment or a change, draws what it uses; nothing else draws from the
bucket or fills it.
-/

namespace BMChain.State

open BMChain.Foundation BMChain.Protocol

variable {op : VoteOperation} {event : Event} {id : Nat}
    {comment : CommentObject} {power : VotePower}

/-- The regeneration of voting power. -/
def voteRefill : Refill where
  capacity := hundredPercent
  part := hundredPercent
  whole := Database.voteRegenerationSeconds

theorem voteRefill_proper :
    voteRefill.Proper :=
  ⟨by decide, by decide, by decide⟩

/-- The voting power of an account and the time of its last vote. -/
def AccountObject.voteBucket (account : AccountObject) : TokenBucket where
  level := account.votingPower
  time := account.lastVoteTime

namespace Database

variable {ext : External} {db after : Database} {name : AccountName}

/-- The bucket of an account. -/
def voteBucket (db : Database) (name : AccountName) : Option TokenBucket :=
  (db.accounts.find? name).map AccountObject.voteBucket

/-- What a vote uses of the power of the voter. -/
def usedPower (db : Database) (op : VoteOperation) : Int :=
  let used : Except Fault Int := do
    let (_, comment) ← db.getComment op.author op.permlink
    let voter ← db.getAccount op.voter
    let payoutTime ← db.calculateDiscussionPayoutTime comment
    if payoutTime = maximumTime then pure 0
    else do
      let power ← db.votePower voter op.weight
      pure power.used
  match used with
  | .ok used => used
  | .error _ => 0

/-! ## One vote -/

/-- A vote takes no more than the power which is there. -/
theorem draw_of_votePower
    {voter : AccountObject}
    {weight : Int}
    (done : db.votePower voter weight = .ok power) :
    voter.voteBucket.time ≤ db.headBlockTime ∧
      power.current =
        voter.voteBucket.available voteRefill db.headBlockTime ∧
        0 ≤ power.used ∧ power.used ≤ power.current := by
  simp only [votePower, bind_eq_ok_iff, require_eq_ok_iff, pure_eq_ok_iff]
    at done
  rcases done with ⟨_, waited, _, positive, _, some, _, enough, effective, -,
    _, -, rfl⟩
  have passed : 0 ≤ (db.headBlockTime : Int) - voter.lastVoteTime := by
    have interval : (0 : Int) ≤ minVoteIntervalSec := by
      decide
    omega
  refine ⟨?_, ?_, ?_, enough⟩
  · exact Int.le_of_sub_nonneg passed
  · have regenerated : (hundredPercent *
          ((db.headBlockTime : Int) - voter.lastVoteTime)).tdiv
            voteRegenerationSeconds =
        voter.voteBucket.refilled voteRefill db.headBlockTime := by
      rw [Int.tdiv_eq_ediv_of_nonneg
        (Int.mul_nonneg (Int.natCast_nonneg _) passed), Int.mul_comm]
      rfl
    rw [regenerated]
    rfl
  · refine Int.tdiv_nonneg ?_ (Int.natCast_nonneg _)
    have weighed := Int.tdiv_nonneg
      (Int.mul_nonneg (Int.le_of_lt positive)
        (Int.natCast_nonneg weight.natAbs))
      (Int.natCast_nonneg hundredPercent)
    omega

/-- The bucket of the voter is drawn from, and those of the others stay. -/
theorem voteBucket_spendVotePower
    {voter : AccountName}
    (done : db.spendVotePower voter power = .ok after) :
    after.voteBucket name =
      if voter = name then
        some ⟨power.current - power.used, db.headBlockTime⟩
      else db.voteBucket name := by
  rcases find_modifyAccount done with ⟨account, changed, -, equal, rows⟩
  cases equal
  rw [voteBucket, rows name]
  split
  · rfl
  · rfl

theorem voteBucket_of_agrees
    {fields : List Field}
    (agrees : Agrees fields db after)
    (separate : apart [.account .voting] fields = true)
    (name : AccountName) :
    after.voteBucket name = db.voteBucket name := by
  have same : (after.accounts.find? name).map
        (AccountAspect.read .voting) =
      (db.accounts.find? name).map (AccountAspect.read .voting) :=
    congrFun (agrees.read_eq separate List.mem_cons_self) name
  have bucket := congrArg
    (Option.map fun parts : Int × Time => TokenBucket.mk parts.1 parts.2) same
  rw [Option.map_map, Option.map_map] at bucket
  exact bucket

/-- What a vote touches after the power is spent. -/
def countedFields : List Field :=
  .comments :: .commentVotes :: emissionFields

theorem spends_castVote
    {voter : AccountObject}
    (done : db.castVote ext op voter id comment power = .ok after) :
    ∃ spent, db.spendVotePower op.voter power = .ok spent ∧
      Agrees countedFields spent after := by
  simp only [castVote, bind_eq_ok_iff] at done
  rcases done with ⟨_, -, _, -, spent, spend, _, -, _, -, done⟩
  rcases done with ⟨_, -, _, -, upvotes, -, counted, count, done⟩
  rcases done with ⟨weights, -, weighed, weigh, pay⟩
  refine ⟨spent, spend, ?_⟩
  have added := Agrees.mono
    (touches_addChildrenRshares _ _ _ counted count)
    (show [.comments] ⊆ countedFields by decide)
  have noted := Agrees.mono (touches_modifyComment _ _ _ weighed weigh)
    (show [.comments] ⊆ countedFields by decide)
  have paid := Agrees.mono (touches_processFundsBmchain weighed _ after pay)
    (show emissionFields ⊆ countedFields by decide)
  exact trans_of _
    ((agrees_comments spent _).mono (by decide))
    (trans_of _ added
      (trans_of _
        ((agrees_commentVotes counted _).mono (by decide))
        (trans_of _ noted paid)))

theorem spends_changeVote
    {id voteId : Nat}
    {vote : CommentVoteObject}
    (done : db.changeVote op id comment voteId vote power = .ok after) :
    ∃ spent, db.spendVotePower op.voter power = .ok spent ∧
      Agrees countedFields spent after := by
  simp only [changeVote, bind_eq_ok_iff, pure_eq_ok_iff] at done
  rcases done with ⟨_, -, _, -, spent, spend, _, -, _, -, done⟩
  rcases done with ⟨_, -, _, -, counted, count, weighed, weigh, rfl⟩
  refine ⟨spent, spend, ?_⟩
  have added := Agrees.mono
    (touches_addChildrenRshares _ _ _ counted count)
    (show [.comments] ⊆ countedFields by decide)
  have noted := Agrees.mono (touches_modifyComment _ _ _ weighed weigh)
    (show [.comments] ⊆ countedFields by decide)
  exact trans_of _
    ((agrees_comments spent _).mono (by decide))
    (trans_of _ added
      (trans_of _ noted
        ((agrees_commentVotes weighed _).mono (by decide))))

/-- What the votes of a step do to the bucket of an account. -/
inductive BucketStep (db after : Database) (name : AccountName)
    (used : Int) : Prop
  | idle (none : used = 0) (same : after.voteBucket name = db.voteBucket name)
  | drawn (bucket : TokenBucket) (there : db.voteBucket name = some bucket)
      (later : bucket.time ≤ db.headBlockTime) (nonneg : 0 ≤ used)
      (enough : used ≤ bucket.available voteRefill db.headBlockTime)
      (left : after.voteBucket name =
        some (bucket.draw voteRefill db.headBlockTime used))

/-- A vote draws the power which it uses from the bucket of the voter. -/
theorem bucketStep_vote
    (done : db.voteEvaluator ext op = .ok after) :
    BucketStep db after op.voter (db.usedPower op) ∧
      (op.voter ≠ name → after.voteBucket name = db.voteBucket name) := by
  simp only [voteEvaluator, bind_eq_ok_iff] at done
  rcases done with ⟨⟨id, comment⟩, found, voter, account, done⟩
  rcases done with ⟨_, -, _, -, _, -, payoutTime, due, done⟩
  split at done
  case isTrue late =>
    cases done
    have unused : db.usedPower op = 0 := by
      simp only [usedPower, found, account, due, ok_bind, late, if_true]
      rfl
    exact ⟨.idle unused rfl, fun _ => rfl⟩
  case isFalse going =>
    rw [bind_eq_ok_iff] at done
    rcases done with ⟨power, powered, done⟩
    have spends : ∃ spent, db.spendVotePower op.voter power = .ok spent ∧
        Agrees countedFields spent after := by
      split at done
      · exact spends_castVote done
      · exact spends_changeVote done
    rcases spends with ⟨spent, spend, rest⟩
    have used : db.usedPower op = power.used := by
      simp only [usedPower, found, account, due, ok_bind, going, if_false,
        powered]
      rfl
    rcases draw_of_votePower powered with ⟨later, current, nonneg, enough⟩
    have kept := voteBucket_of_agrees rest rfl
    constructor
    · refine .drawn voter.voteBucket ?_ later ?_ ?_ ?_
      · rw [voteBucket, orFault_eq_ok_iff.1 account, Option.map_some]
      · rw [used]
        exact nonneg
      · rw [used, ← current]
        exact enough
      · rw [kept, voteBucket_spendVotePower spend, if_pos rfl, used,
          TokenBucket.draw, current]
    · intro other
      rw [kept, voteBucket_spendVotePower spend, if_neg other]

/-! ## All events -/

/-- A new account has all its power, and another keeps what it has. -/
theorem voteBucket_of_opens
    {opened : AccountName}
    (opens : OpensAccountNow db after opened)
    (name : AccountName) :
    after.voteBucket name = db.voteBucket name ∨
      db.voteBucket name = none ∧
        after.voteBucket name = some ⟨hundredPercent, db.headBlockTime⟩ := by
  rcases opens with ⟨paid, made, row, fresh, before, created, -, later⟩
  rcases find_createNamed created with ⟨free, rows⟩
  rw [voteBucket_of_agrees later rfl, ← voteBucket_of_agrees before rfl name,
    voteBucket, voteBucket, rows name]
  split
  case isTrue same =>
    subst same
    refine .inr ⟨?_, ?_⟩
    · rw [free, Option.map_none]
    · rcases fresh paid.accounts.nextId with ⟨shape, now⟩
      have power : (row paid.accounts.nextId).votingPower = hundredPercent :=
        congrArg AccountObject.votingPower shape
      rw [Option.map_some, AccountObject.voteBucket, power, now]
  case isFalse => exact .inl rfl

/-- Only the own votes of an account draw from its bucket. -/
theorem voteBucket_applyOperation
    {op : Operation}
    (done : db.applyOperation ext op = .ok after)
    (others : ∀ own, op = .vote own → own.voter ≠ name) :
    after.voteBucket name = db.voteBucket name ∨
      db.voteBucket name = none ∧
        after.voteBucket name = some ⟨hundredPercent, db.headBlockTime⟩ := by
  have agrees := touches_applyOperation ext db op after done
  cases op with
  | vote op => exact .inl ((bucketStep_vote done).2 (others op rfl))
  | accountCreate op =>
      exact voteBucket_of_opens (opensAccountNow_accountCreate done) name
  | accountCreateWithDelegation op =>
      exact voteBucket_of_opens
        (opensAccountNow_accountCreateWithDelegation done) name
  | _ => exact .inl (voteBucket_of_agrees agrees rfl name)

theorem voteBucket_finishBlock
    {header : BlockHeader}
    (done : db.finishBlock ext header = .ok after)
    (name : AccountName) :
    after.voteBucket name = db.voteBucket name := by
  have each : EachStep ext header (fun _ _ => True) blockSteps db :=
    eachStep_of_forall (fun _ _ => trivial) _ _
  refine foldlM_runStep_invariant
    (fun state => state.voteBucket name = db.voteBucket name) ?_ each done rfl
  intro state step next _ ran same
  have agrees := touches_runStep ext header state step next ran
  rw [← same]
  cases step <;> exact voteBucket_of_agrees agrees rfl name

/-- No event but an own vote draws from the bucket of an account. -/
theorem voteBucket_step
    (done : db.step ext event = .ok after)
    (others : ∀ op, event = .operation (.vote op) → op.voter ≠ name) :
    after.voteBucket name = db.voteBucket name ∨
      db.voteBucket name = none ∧
        after.voteBucket name = some ⟨hundredPercent, db.headBlockTime⟩ := by
  cases event with
  | operation op =>
      simp only [step, bind_eq_ok_iff] at done
      rcases done with ⟨_, -, applied⟩
      refine voteBucket_applyOperation applied ?_
      rintro own rfl
      exact others own rfl
  | beginBlock header =>
      exact .inl (voteBucket_of_agrees
        (touches_beginBlock db header after done) rfl name)
  | finishBlock header => exact .inl (voteBucket_finishBlock done name)

/-- An own vote is a step of the bucket. -/
theorem bucketStep_step
    (done : db.step ext (.operation (.vote op)) = .ok after) :
    BucketStep db after op.voter (db.usedPower op) := by
  simp only [step, bind_eq_ok_iff] at done
  rcases done with ⟨_, -, applied⟩
  exact (@bucketStep_vote op ext db after op.voter applied).1

/-- Time does not go back in a run. -/
theorem headBlockTime_le_of_step
    {allowed : Database → Event → Prop}
    {block next : Option BlockHeader}
    (run : RunState ext allowed block db)
    (phase : Phase event block next)
    (done : db.step ext event = .ok after) :
    db.headBlockTime ≤ after.headBlockTime := by
  cases event with
  | operation op =>
      simp only [step, bind_eq_ok_iff] at done
      rcases done with ⟨_, -, applied⟩
      exact Nat.le_of_eq (time_applyOperation applied).symm
  | beginBlock header => exact Nat.le_of_eq (time_beginBlock done).2.symm
  | finishBlock header =>
      rw [time_finishBlock done]
      exact Nat.le_of_lt (run.ahead phase).2

/-- Every bucket is within its bounds, and its last draw is not ahead. -/
def BucketsKept (db : Database) : Prop :=
  ∀ name bucket, db.voteBucket name = some bucket →
    bucket.Within voteRefill ∧ bucket.time ≤ db.headBlockTime

theorem BucketsKept.step
    (kept : db.BucketsKept)
    (ahead : db.headBlockTime ≤ after.headBlockTime)
    (done : db.step ext event = .ok after) :
    after.BucketsKept := by
  intro name bucket there
  have start : ∀ bucket : TokenBucket, bucket.time ≤ db.headBlockTime →
      bucket.time ≤ after.headBlockTime :=
    fun bucket before => Int.le_trans before (Int.ofNat_le.2 ahead)
  have other :
      (∀ op, event = .operation (.vote op) → op.voter ≠ name) →
        bucket.Within voteRefill ∧ bucket.time ≤ after.headBlockTime := by
    intro others
    rcases voteBucket_step done others with same | ⟨-, fresh⟩
    · rw [same] at there
      rcases kept name bucket there with ⟨within, before⟩
      exact ⟨within, start bucket before⟩
    · rw [fresh] at there
      cases there
      refine ⟨⟨?_, Int.le_refl _⟩, start _ (Int.le_refl _)⟩
      exact Int.natCast_nonneg hundredPercent
  by_cases own : ∃ op, event = .operation (.vote op) ∧ op.voter = name
  · rcases own with ⟨op, rfl, rfl⟩
    cases bucketStep_step done with
    | idle none same =>
        rw [same] at there
        rcases kept op.voter bucket there with ⟨within, before⟩
        exact ⟨within, start bucket before⟩
    | drawn before found later nonneg enough left =>
        rw [left] at there
        cases there
        exact ⟨TokenBucket.within_draw nonneg enough,
          start _ (Int.le_refl _)⟩
  · exact other fun op same voter => own ⟨op, same, voter⟩

theorem bucketsKept_genesis :
    initGenesis.BucketsKept := by
  intro name bucket there
  rw [voteBucket, Option.map_eq_some_iff] at there
  rcases there with ⟨account, found, rfl⟩
  refine genesis_account
    (fun account => account.voteBucket.Within voteRefill ∧
      account.voteBucket.time ≤ initGenesis.headBlockTime) ?_ found
  intro row listed
  have fresh : row.votingPower = hundredPercent ∧ row.lastVoteTime = 0 := by
    revert row
    decide +kernel
  refine ⟨⟨?_, ?_⟩, ?_⟩
  · show 0 ≤ row.votingPower
    rw [fresh.1]
    decide
  · exact Int.le_of_eq fresh.1
  · show (row.lastVoteTime : Int) ≤ initGenesis.headBlockTime
    rw [fresh.2]
    exact Int.natCast_nonneg _

end Database

theorem RunState.bucketsKept
    {ext : External}
    {allowed : Database → Event → Prop}
    {block : Option BlockHeader}
    {db : Database}
    (run : RunState ext allowed block db) :
    db.BucketsKept := by
  induction run with
  | genesis => exact Database.bucketsKept_genesis
  | step event run phase _ stepped induction =>
      exact induction.step
        (Database.headBlockTime_le_of_step run phase stepped) stepped

/-! ## The budget -/

/--
A run from a state, with the time and the used power of each vote of an account,
the last one first.
-/
inductive VotingRun (ext : External) (name : AccountName)
    (opening : Option BlockHeader) (start : Database) :
    List (Time × Int) → Option BlockHeader → Database → Prop
  | start : VotingRun ext name opening start [] opening start
  | vote {votes : List (Time × Int)} {block : Option BlockHeader}
      {db after : Database} (op : VoteOperation) :
      VotingRun ext name opening start votes block db → op.voter = name →
        db.step ext (.operation (.vote op)) = .ok after →
          VotingRun ext name opening start
            ((db.headBlockTime, db.usedPower op) :: votes) block after
  | other {votes : List (Time × Int)} {block next : Option BlockHeader}
      {db after : Database} (event : Event) :
      VotingRun ext name opening start votes block db →
        Phase event block next →
          (∀ op, event = .operation (.vote op) → op.voter ≠ name) →
            db.step ext event = .ok after →
              VotingRun ext name opening start votes next after

namespace VotingRun

variable {ext : External} {name : AccountName} {opening block : Option BlockHeader}
    {start db : Database} {votes : List (Time × Int)}

theorem runState
    (reached : RunState ext (fun _ _ => True) opening start)
    (run : VotingRun ext name opening start votes block db) :
    RunState ext (fun _ _ => True) block db := by
  induction run with
  | start => exact reached
  | vote op _ _ done induction =>
      exact .step _ induction (.operation _ _) trivial done
  | other event _ phase _ done induction =>
      exact .step event induction phase trivial done

/-- What was used is covered, and nothing was drawn after the last vote. -/
def Budget (name : AccountName) (first : TokenBucket)
    (votes : List (Time × Int)) (db : Database) : Prop :=
  ∃ bucket, db.voteBucket name = some bucket ∧
    first.Covers voteRefill bucket (votes.map Prod.snd).sum ∧
      ∀ last, votes.head? = some last → bucket.time ≤ last.1

theorem budget
    {first : TokenBucket}
    (reached : RunState ext (fun _ _ => True) opening start)
    (found : start.voteBucket name = some first)
    (run : VotingRun ext name opening start votes block db) :
    Budget name first votes db := by
  induction run with
  | start =>
      refine ⟨first, found, .refl first, ?_⟩
      intro last none
      cases none
  | vote op run own done induction =>
      subst own
      rcases induction with ⟨bucket, there, covers, -⟩
      have kept := (run.runState reached).bucketsKept op.voter bucket there
      cases Database.bucketStep_step done with
      | idle none same =>
          refine ⟨bucket, same.trans there, ?_, ?_⟩
          · rw [List.map_cons, List.sum_cons, none, Int.zero_add]
            exact covers
          · intro last equal
            cases equal
            exact kept.2
      | drawn before found later nonneg enough left =>
          cases found.symm.trans there
          refine ⟨_, left, ?_, ?_⟩
          · rw [List.map_cons, List.sum_cons, Int.add_comm]
            exact covers.draw voteRefill_proper later
          · intro last equal
            cases equal
            exact Int.le_refl _
  | other event run phase others done induction =>
      rcases induction with ⟨bucket, there, covers, drawn⟩
      rcases Database.voteBucket_step done others with same | ⟨absent, -⟩
      · exact ⟨bucket, same.trans there, covers, drawn⟩
      · cases there.symm.trans absent

end VotingRun

/--
In every run from a reachable state the voting power of an account stays within
its bounds, and its votes use no more than the power at the start and what was
regenerated until the last of them.
-/
theorem voting_power_budget
    {ext : External}
    {opening block : Option BlockHeader}
    {start db : Database}
    {name : AccountName}
    {account : AccountObject}
    {votes : List (Time × Int)}
    (reached : RunState ext (fun _ _ => True) opening start)
    (found : start.accounts.find? name = some account)
    (run : VotingRun ext name opening start votes block db) :
    (∃ last, db.accounts.find? name = some last ∧
      0 ≤ last.votingPower ∧ last.votingPower ≤ hundredPercent) ∧
      ∀ time used, votes.head? = some (time, used) →
        (votes.map Prod.snd).sum ≤
          account.votingPower +
            hundredPercent * ((time : Int) - account.lastVoteTime) /
              Database.voteRegenerationSeconds := by
  have first : start.voteBucket name = some account.voteBucket := by
    rw [Database.voteBucket, found, Option.map_some]
  rcases run.budget reached first with ⟨bucket, there, covers, drawn⟩
  have kept := (run.runState reached).bucketsKept name bucket there
  rw [Database.voteBucket, Option.map_eq_some_iff] at there
  rcases there with ⟨last, row, rfl⟩
  refine ⟨⟨last, row, kept.1.nonneg, kept.1.le⟩, ?_⟩
  intro time used latest
  have within := covers.drawn_le voteRefill_proper kept.1 (drawn _ latest)
  rw [Int.mul_comm]
  exact within

/-- A vote of the account `devs` on the first post. -/
def devsVote (weight : Int) : VoteOperation where
  voter := "devs"
  author := initMinerName
  permlink := [97]
  weight := weight
  commentBmchain := []

/-- The budget of a vote and its change in the next block. -/
theorem voting_power_budget_changed_vote :
    ∃ start db account first second,
      start.accounts.find? "devs" = some account ∧
        VotingRun plainExternal "devs" none start
          [(genesisTime + 3, second), (genesisTime, first)] none db ∧
          0 < first ∧ 0 < second ∧
            second + first ≤
              account.votingPower +
                hundredPercent * (((genesisTime + 3 : Time) : Int) -
                  account.lastVoteTime) / Database.voteRegenerationSeconds := by
  have ran : ((initGenesis.step plainExternal
      (.operation (samplePost initMinerName))).bind fun posted => do
        let account ← posted.getAccount "devs"
        let voted ← posted.step plainExternal
          (.operation (.vote (devsVote 10000)))
        let begun ← voted.step plainExternal (.beginBlock firstHeader)
        let opened ← begun.step plainExternal (.finishBlock firstHeader)
        let changed ← opened.step plainExternal
          (.operation (.vote (devsVote 5000)))
        require (posted.headBlockTime = genesisTime ∧
          opened.headBlockTime = genesisTime + 3 ∧
            0 < posted.usedPower (devsVote 10000) ∧
              0 < opened.usedPower (devsVote 5000) ∧
                changed.commentVotes.entries.length = 1) "") = .ok () := by
    decide +kernel
  rcases (bind_eq_ok_iff _ _ _).1 ran with ⟨posted, post, ran⟩
  simp only [bind_eq_ok_iff, require_eq_ok_iff, Database.getAccount,
    orFault_eq_ok_iff] at ran
  rcases ran with ⟨account, found, voted, vote, begun, begin, opened, finish,
    changed, change, start, later, some, more, -⟩
  have reached : RunState plainExternal (fun _ _ => True) none posted :=
    .step _ .genesis (.operation _ none) trivial post
  have first : VotingRun plainExternal "devs" none posted
      [(posted.headBlockTime, posted.usedPower (devsVote 10000))] none voted :=
    .vote (devsVote 10000) .start rfl vote
  have between : VotingRun plainExternal "devs" none posted
      [(posted.headBlockTime, posted.usedPower (devsVote 10000))] none opened :=
    .other _ (.other _ first (.beginBlock _) (by simp) begin) (.finishBlock _)
      (by simp) finish
  have second := VotingRun.vote (devsVote 5000) between rfl change
  have budget := (voting_power_budget reached found second).2 _ _ rfl
  rw [start, later] at second
  rw [later, List.map_cons, List.map_cons, List.map_nil, List.sum_cons,
    List.sum_cons, List.sum_nil, Int.add_zero] at budget
  exact ⟨posted, changed, account, _, _, found, second, some, more, budget⟩

end BMChain.State
