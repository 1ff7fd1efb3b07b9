import BMChain.State.CommentOverflow
import BMChain.State.IrreversibleBlock
import BMChain.State.Spending

/-!
# The cap on a day's emission

`process_funds_bmchain` counts what it creates and stops at a cap.  The count
starts again with the emissions at a head block which begins a day, and these
are exempt from the cap.  So the count covers what was created in the period
only when at most one emission is exempt and nothing was created before it.
-/

namespace BMChain.State

open BMChain.Foundation BMChain.Protocol

variable {db after : Database} {amount : Int} {ext : External}
    {op : CommentOperation} {lead : Nat}

variable {comment : CommentObject} {entry : Nat × CommentObject}
    {event : Event} {count : Nat}

namespace Database

/-! ## One emission -/

/-- What an emission reads and changes: the head, the supply and the count. -/
def emissionView (db : Database) : Nat × Int × Int :=
  (db.props.headBlockNumber, db.props.currentSupply, db.props.dailyEmission)

/-- The head block begins a day. -/
abbrev BeginsDay (db : Database) : Prop :=
  db.props.headBlockNumber % emissionPeriod = 0

/-- The effect of an emission, if it is not stopped. -/
def Emission (db : Database) (amount : Int) (after : Database) : Prop :=
  after.emissionView =
    if db.emissionStopped then db.emissionView
    else
      (db.props.headBlockNumber, db.props.currentSupply + amount,
        (if db.BeginsDay then 0 else db.props.dailyEmission) + amount)

theorem emissionView_of_agrees
    {fields : List Field}
    {before after : Database}
    (agrees : Agrees fields before after)
    (separate : apart [.props .head, .props .supply, .props .emission] fields =
      true) :
    after.emissionView = before.emissionView := by
  have head : Field.read (.props .head) after =
      Field.read (.props .head) before :=
    agrees.read_eq separate (by simp)
  have supply : Field.read (.props .supply) after =
      Field.read (.props .supply) before :=
    agrees.read_eq separate (by simp)
  have daily : Field.read (.props .emission) after =
      Field.read (.props .emission) before :=
    agrees.read_eq separate (by simp)
  simp only [Field.read, PropsAspect.read, Prod.mk.injEq] at head supply daily
  rw [emissionView, emissionView, head.1, supply, daily]

/-- An emission after a change which leaves its view alone. -/
theorem Emission.of_view
    {db middle after : Database}
    (emission : Emission middle amount after)
    (same : middle.emissionView = db.emissionView) :
    Emission db amount after := by
  simp only [emissionView, Prod.mk.injEq] at same
  rcases same with ⟨head, supply, daily⟩
  have stopped : middle.emissionStopped = db.emissionStopped := by
    unfold emissionStopped dailyEmissionCap
    rw [head, supply, daily]
  unfold Emission at emission ⊢
  rw [emission, stopped]
  unfold BeginsDay emissionView
  rw [head, supply, daily]

/-- What is created goes to the funds and to the producer. -/
theorem emission_processFundsBmchain
    (done : db.processFundsBmchain amount = .ok after) :
    Emission db amount after := by
  unfold processFundsBmchain at done
  unfold Emission
  split at done
  case isTrue stopped =>
    cases done
    exact (if_pos stopped).symm
  case isFalse running =>
    rw [if_neg running]
    simp only [bind_eq_ok_iff, checked_eq_ok_iff, pure_eq_ok_iff] at done
    rcases done with
      ⟨⟨funded, used⟩, fund, _, ⟨-, rfl⟩, witness, -, paid, pay, _,
        ⟨-, rfl⟩, _, ⟨-, rfl⟩, _, ⟨-, rfl⟩, _, ⟨-, rfl⟩, rfl⟩
    rcases rewardFunds_of_payRewardFunds fund with ⟨funds, rfl⟩
    rcases accounts_of_modifyAccount pay with ⟨accounts, rfl⟩
    have whole : used + (amount - used) = amount := by omega
    simp only [emissionView, whole]
    rfl

/-! ## The operations which create BMT -/

/-- The voter has voted for the comment before. -/
def hasVoted (db : Database) (op : VoteOperation) : Bool :=
  match db.getComment op.author op.permlink, db.getAccount op.voter with
  | .ok (id, _), .ok voter =>
      (db.commentVotes.findBy fun vote =>
        vote.comment = id ∧ vote.voter = voter.id).isSome
  | _, _ => false

/-- The emission for new content with a parent. -/
def contentRate (parentAuthor : AccountName) : Int :=
  if nameSize parentAuthor = 0 then postEmissionRate else commentEmissionRate

/-- What an operation creates unless the emission is stopped. -/
def tokenEmissionOf (db : Database) : Operation → Option Int
  | .accountCreate _ => some userEmissionRate
  | .comment op =>
      if (db.findComment op.author op.permlink).isNone then
        some (contentRate op.parentAuthor)
      else none
  | .encryptedContent op =>
      if (db.findComment op.author op.permlink).isNone then
        some (contentRate op.parentAuthor)
      else none
  | .vote op => if db.hasVoted op then none else some voteEmissionRate
  | _ => none

theorem emission_accountCreate
    {op : AccountCreateOperation}
    (done : db.accountCreateEvaluator ext op = .ok after) :
    Emission db userEmissionRate after := by
  simp only [accountCreateEvaluator, bind_eq_ok_iff] at done
  rcases done with
    ⟨_, -, _, -, _, -, _, -, _, -, _, -, _, -, _, -, debited, debit, avatar, -,
      accounts, -, authorities, -, funded, fund, emitted⟩
  refine (emission_processFundsBmchain emitted).of_view ?_
  have first := emissionView_of_agrees (touches_payFee _ _ funded fund) rfl
  have second := emissionView_of_agrees
    (agrees_accounts debited accounts authorities) rfl
  have third := emissionView_of_agrees (touches_addBalance _ _ _ debited debit)
    rfl
  exact first.trans (second.trans third)

theorem emission_storeComment
    (done : db.storeComment op comment = .ok after) :
    Emission db (contentRate comment.parentAuthor) after := by
  simp only [storeComment, bind_eq_ok_iff] at done
  rcases done with ⟨_, -, _, -, comments, -, told, tell, emitted⟩
  have parents := emissionView_of_agrees
    (touches_updateParents _ _ _ _ _ told tell) rfl
  exact (emission_processFundsBmchain emitted).of_view parents

theorem emission_comment
    (new : db.findComment op.author op.permlink = none)
    (done : db.commentEvaluator ext op = .ok after) :
    Emission db (contentRate op.parentAuthor) after := by
  simp only [commentEvaluator, checkComment, new, bind_eq_ok_iff,
    pure_eq_ok_iff] at done
  rcases done with ⟨_, ⟨_, -, _, -, _, -, parent, found, _, -, rfl⟩, _, -, _,
    -, counted, count, stored⟩
  have same := emissionView_of_agrees (touches_countPost db op counted count)
    rfl
  have emission := (emission_storeComment stored).of_view same
  rw [parentAuthor_of_findParent found] at emission
  exact emission

theorem view_comment
    (old : db.findComment op.author op.permlink = some entry)
    (done : db.commentEvaluator ext op = .ok after) :
    after.emissionView = db.emissionView := by
  simp only [commentEvaluator, old, bind_eq_ok_iff] at done
  rcases done with ⟨_, -, edited⟩
  exact emissionView_of_agrees (touches_editComment ext db _ _ after edited) rfl

/-- Settling an order before the content is stored creates nothing. -/
theorem view_settled
    {op : EncryptedContentOperation}
    {db settled : Database}
    (settle : (if usingCloseContent ≤ db.headBlockNum ∧ op.applyOrder then
        db.settleOrder op.author op.orderId
      else pure db) = .ok settled) :
    settled.emissionView = db.emissionView := by
  split at settle
  · exact emissionView_of_agrees (touches_settleOrder db _ _ settled settle) rfl
  · cases settle
    rfl

theorem emission_encryptedContent
    {op : EncryptedContentOperation}
    (new : db.findComment op.author op.permlink = none)
    (done : db.encryptedContentEvaluator ext op = .ok after) :
    Emission db (contentRate op.parentAuthor) after := by
  simp only [encryptedContentEvaluator, checkComment, new, bind_eq_ok_iff,
    pure_eq_ok_iff] at done
  rcases done with ⟨_, ⟨_, -, _, -, _, -, parent, found, _, -, rfl⟩, settled,
    settle, _, -, _, -, counted, count, comment, made, stored⟩
  have same := emissionView_of_agrees
    (touches_countPost settled _ counted count) rfl
  have emission := (emission_storeComment stored).of_view
    (same.trans (view_settled settle))
  rw [parentAuthor_of_encryptComment made, parentAuthor_of_findParent found]
    at emission
  exact emission

theorem view_encryptedContent
    {op : EncryptedContentOperation}
    (old : db.findComment op.author op.permlink = some entry)
    (done : db.encryptedContentEvaluator ext op = .ok after) :
    after.emissionView = db.emissionView := by
  simp only [encryptedContentEvaluator, old, bind_eq_ok_iff] at done
  rcases done with ⟨_, -, settled, settle, edited⟩
  have same := emissionView_of_agrees
    (touches_editComment ext settled _ _ after edited) rfl
  exact same.trans (view_settled settle)

theorem emission_castVote
    {op : VoteOperation}
    {voter : AccountObject}
    {id : Nat}
    {power : VotePower}
    (done : db.castVote ext op voter id comment power = .ok after) :
    Emission db voteEmissionRate after := by
  simp only [castVote, bind_eq_ok_iff] at done
  rcases done with ⟨_, -, _, -, spent, spend, _, -, _, -, _, -, _, -, _, -,
    shared, share, weight, -, weighed, weigh, emitted⟩
  have first := emissionView_of_agrees (touches_spendVotePower db _ _ spent
    spend) rfl
  have second := emissionView_of_agrees
    (touches_addChildrenRshares _ _ _ shared share) rfl
  have third := emissionView_of_agrees
    (touches_modifyComment _ _ _ weighed weigh) rfl
  exact (emission_processFundsBmchain emitted).of_view
    (third.trans (second.trans first))

/-- A first vote creates BMT, or it is for a comment which is closed. -/
theorem emission_vote
    {op : VoteOperation}
    (done : db.voteEvaluator ext op = .ok after) :
    after.emissionView = db.emissionView ∨
      db.hasVoted op = false ∧ Emission db voteEmissionRate after := by
  simp only [voteEvaluator, bind_eq_ok_iff] at done
  rcases done with ⟨⟨id, comment⟩, found, voter, named, _, -, _, -, _, -, time,
    -, done⟩
  dsimp only at done
  split at done
  · cases done
    exact .inl rfl
  · rw [bind_eq_ok_iff] at done
    rcases done with ⟨power, -, done⟩
    cases searched : db.commentVotes.findBy fun vote =>
        vote.comment = id ∧ vote.voter = voter.id with
    | none =>
        rw [searched] at done
        refine .inr ⟨?_, emission_castVote done⟩
        simp only [hasVoted, found, named, searched, Option.isSome_none]
    | some entry =>
        rw [searched] at done
        exact .inl (emissionView_of_agrees
          (touches_changeVote db _ _ _ _ _ _ after done) rfl)

/-- Only the operations with an emission create BMT. -/
theorem emission_applyOperation
    {op : Operation}
    (done : db.applyOperation ext op = .ok after) :
    after.emissionView = db.emissionView ∨
      ∃ amount, db.tokenEmissionOf op = some amount ∧
        Emission db amount after := by
  have agrees := touches_applyOperation ext db op after done
  cases op with
  | accountCreate op => exact .inr ⟨_, rfl, emission_accountCreate done⟩
  | comment op =>
      cases found : db.findComment op.author op.permlink with
      | none =>
          refine .inr ⟨_, ?_, emission_comment found done⟩
          simp only [tokenEmissionOf, found, Option.isNone_none, if_true]
      | some entry => exact .inl (view_comment found done)
  | encryptedContent op =>
      cases found : db.findComment op.author op.permlink with
      | none =>
          refine .inr ⟨_, ?_, emission_encryptedContent found done⟩
          simp only [tokenEmissionOf, found, Option.isNone_none, if_true]
      | some entry => exact .inl (view_encryptedContent found done)
  | vote op =>
      rcases emission_vote done with same | ⟨new, emission⟩
      · exact .inl same
      · refine .inr ⟨_, ?_, emission⟩
        simp only [tokenEmissionOf, new, Bool.false_eq_true, if_false]
  | _ => exact .inl (emissionView_of_agrees agrees rfl)

end Database

/-! ## Periods -/

/--
The record of a period: what was created in it, the largest cap so far, the
largest emission of one operation, and whether the run kept to its condition.
-/
structure EmissionPeriod where
  created : Int
  cap : Int
  single : Int
  regular : Prop

/-- What was created is within the cap and one operation's emission. -/
def EmissionPeriod.WithinCap (period : EmissionPeriod) : Prop :=
  period.created = 0 ∨ period.created ≤ period.cap + period.single

namespace Database

/--
The period of an operation, whose block comes the given number of blocks after
the head: the next block, or the head itself.
-/
def periodOf (lead : Nat) (db : Database) : Nat :=
  (db.headBlockNum + lead) / emissionPeriod

/-- The BMT which an operation creates. -/
def createdBy (db : Database) : Event → Database → Int
  | .operation _, after => after.props.currentSupply - db.props.currentSupply
  | _, _ => 0

/--
An operation which creates BMT while the head begins a day is the first of its
period to do so, and the cap is not negative.
-/
def OpensPeriod (period : EmissionPeriod) (db : Database) : Event → Prop
  | .operation op =>
      db.BeginsDay → (db.tokenEmissionOf op).isSome →
        period.created = 0 ∧ 0 ≤ db.dailyEmissionCap
  | _ => True

/-- The record before the first event. -/
def firstPeriod : EmissionPeriod :=
  ⟨0, initGenesis.dailyEmissionCap, 0, True⟩

/-- Note what an event creates, in its period or in a new one. -/
def notePeriod (lead : Nat) (period : EmissionPeriod) (db : Database)
    (event : Event) (after : Database) : EmissionPeriod :=
  let going :=
    if db.periodOf lead = after.periodOf lead then period
    else ⟨0, after.dailyEmissionCap, 0, period.regular⟩
  { created := going.created + db.createdBy event after
    cap := max going.cap after.dailyEmissionCap
    single := max going.single (db.createdBy event after)
    regular := going.regular ∧ OpensPeriod period db event }

/-- The day's count covers what was created in the period. -/
structure Counted (period : EmissionPeriod) (db : Database) : Prop where
  nonneg : 0 ≤ period.created
  counted : period.created ≤ db.props.dailyEmission
  capped : db.dailyEmissionCap ≤ period.cap
  within : period.WithinCap

theorem emissionOf_pos
    {op : Operation}
    (emits : db.tokenEmissionOf op = some amount) :
    0 < amount := by
  have rate : ∀ parent, 0 < contentRate parent := by
    intro parent
    unfold contentRate
    split <;> decide
  unfold tokenEmissionOf at emits
  split at emits
  case h_1 =>
    cases emits
    decide
  case h_2 op =>
    split at emits
    · cases emits
      exact rate _
    · cases emits
  case h_3 op =>
    split at emits
    · cases emits
      exact rate _
    · cases emits
  case h_4 op =>
    split at emits
    · cases emits
    · cases emits
      decide
  case h_5 => cases emits

/-- An event which creates nothing leaves what was created, or starts anew. -/
theorem Counted.idle
    {period : EmissionPeriod}
    (counted : Counted period db)
    (none : db.createdBy event after = 0)
    (daily : after.props.dailyEmission = db.props.dailyEmission) :
    Counted (notePeriod lead period db event after) after := by
  unfold notePeriod
  rw [none]
  split
  case isTrue =>
    constructor
    case nonneg =>
      show 0 ≤ period.created + 0
      rw [Int.add_zero]
      exact counted.nonneg
    case counted =>
      show period.created + 0 ≤ after.props.dailyEmission
      rw [Int.add_zero, daily]
      exact counted.counted
    case capped => exact le_max_right _ _
    case within =>
      rcases counted.within with zero | within
      · exact .inl ((Int.add_zero _).trans zero)
      · refine .inr ?_
        show period.created + 0 ≤ _
        rw [Int.add_zero]
        exact within.trans (Int.add_le_add (le_max_left _ _) (le_max_left _ _))
  case isFalse =>
    constructor
    case nonneg => exact Int.le_refl 0
    case counted =>
      rw [daily]
      exact counted.nonneg.trans counted.counted
    case capped => exact le_max_right _ _
    case within => exact .inl rfl

/-- An emission is counted, and stays within the cap before it. -/
theorem Counted.emission
    {period : EmissionPeriod}
    {op : Operation}
    (counted : Counted period db)
    (emits : db.tokenEmissionOf op = some amount)
    (emission : Emission db amount after)
    (running : ¬db.emissionStopped = true)
    (opens : OpensPeriod period db (.operation op)) :
    Counted (notePeriod lead period db (.operation op) after) after := by
  unfold Emission at emission
  rw [if_neg running] at emission
  simp only [emissionView, Prod.mk.injEq] at emission
  rcases emission with ⟨head, supply, daily⟩
  have created : db.createdBy (.operation op) after = amount := by
    show after.props.currentSupply - db.props.currentSupply = amount
    omega
  have stays : db.periodOf lead = after.periodOf lead := by
    rw [periodOf, periodOf, headBlockNum, headBlockNum, head]
  have positive := emissionOf_pos emits
  have start := counted.nonneg
  have counts := counted.counted
  have capped := counted.capped
  have cap := le_max_left period.cap after.dailyEmissionCap
  have single := le_max_right period.single amount
  unfold notePeriod
  rw [if_pos stays, created]
  by_cases begins : db.BeginsDay
  case pos =>
    rcases opens begins (by rw [emits]; rfl) with ⟨zero, nonneg⟩
    rw [if_pos begins] at daily
    constructor
    case nonneg =>
      show 0 ≤ period.created + amount
      omega
    case counted =>
      show period.created + amount ≤ after.props.dailyEmission
      omega
    case capped => exact le_max_right _ _
    case within =>
      refine .inr ?_
      show period.created + amount ≤
        max period.cap after.dailyEmissionCap + max period.single amount
      omega
  case neg =>
    rw [if_neg begins] at daily
    have below : db.props.dailyEmission < db.dailyEmissionCap := by
      by_contra reached
      refine running (decide_eq_true ?_)
      exact ⟨not_lt.1 reached, begins⟩
    constructor
    case nonneg =>
      show 0 ≤ period.created + amount
      omega
    case counted =>
      show period.created + amount ≤ after.props.dailyEmission
      omega
    case capped => exact le_max_right _ _
    case within =>
      refine .inr ?_
      show period.created + amount ≤
        max period.cap after.dailyEmissionCap + max period.single amount
      omega

/-- The steps of a block do not touch the day's count. -/
theorem dailyEmission_finishBlock
    {header : BlockHeader}
    (done : db.finishBlock ext header = .ok after) :
    after.props.dailyEmission = db.props.dailyEmission := by
  refine foldlM_invariant (fun state : Database =>
    state.props.dailyEmission = db.props.dailyEmission) ?_ done rfl
  intro state step next _ ran same
  have agrees := touches_runStep ext header state step next ran
  have kept : Field.read (.props .emission) next =
      Field.read (.props .emission) state := by
    refine agrees (.props .emission) ?_
    cases step <;> decide
  exact kept.trans same

theorem Counted.step
    {period : EmissionPeriod}
    (counted : Counted period db)
    (stepped : db.step ext event = .ok after)
    (opens : OpensPeriod period db event) :
    Counted (notePeriod lead period db event after) after := by
  cases event with
  | operation op =>
      simp only [Database.step, bind_eq_ok_iff] at stepped
      rcases stepped with ⟨_, -, done⟩
      have idle : after.emissionView = db.emissionView →
          Counted (notePeriod lead period db (.operation op) after) after := by
        intro same
        simp only [emissionView, Prod.mk.injEq] at same
        refine counted.idle ?_ same.2.2
        show after.props.currentSupply - db.props.currentSupply = 0
        omega
      rcases emission_applyOperation done with same | ⟨amount, emits, emission⟩
      · exact idle same
      · by_cases stopped : db.emissionStopped = true
        · unfold Emission at emission
          rw [if_pos stopped] at emission
          exact idle emission
        · exact counted.emission emits emission stopped opens
  | beginBlock header =>
      have kept := touches_beginBlock db header after stepped
        (.props .emission) (by decide)
      exact counted.idle rfl kept
  | finishBlock header =>
      exact counted.idle rfl (dailyEmission_finishBlock stepped)

end Database

open Database

/--
In every run in which each emission at the beginning of a day is the first of
its period, what is created in a period is within the cap and one operation's
emission.
-/
theorem daily_emission_capped
    {ext : External}
    {lead : Nat}
    {period : EmissionPeriod}
    {block : Option BlockHeader}
    {db : Database}
    (run : RecordedRun ext (fun _ _ => True) firstPeriod (notePeriod lead)
      period block db)
    (regular : period.regular) :
    period.WithinCap := by
  have counted : period.regular → Counted period db := by
    refine run.invariant
      (fun record state => record.regular → Counted record state) ?_ ?_
    · intro _
      exact ⟨Int.le_refl 0, Int.le_refl 0, Int.le_refl _, .inl rfl⟩
    · intro record state event after _ stepped before going
      refine (before ?_).step stepped going.2
      have kept := going.1
      split at kept <;> exact kept
  exact (counted regular).within

/-- The first post is the first emission of its period. -/
theorem daily_emission_capped_one_post :
    ∃ period db,
      RecordedRun plainExternal (fun _ _ => True) firstPeriod (notePeriod 1)
          period none db ∧
        period.created = postEmissionRate ∧ period.WithinCap := by
  have ran : (initGenesis.step plainExternal
      (.operation (samplePost initMinerName))).bind (fun db =>
        require (db.props.headBlockNumber = 0 ∧
          db.props.currentSupply =
            initGenesis.props.currentSupply + postEmissionRate) "") =
              .ok () := by
    decide +kernel
  rcases (bind_eq_ok_iff _ _ _).1 ran with ⟨db, posted, facts⟩
  rw [require_eq_ok_iff] at facts
  have run : RecordedRun plainExternal (fun _ _ => True) firstPeriod
      (notePeriod 1) _ none db :=
    .step (.operation (samplePost initMinerName)) .genesis (.operation _ none)
      trivial posted
  have stays : initGenesis.periodOf 1 = db.periodOf 1 := by
    rw [periodOf, periodOf, headBlockNum, headBlockNum, facts.1]
    rfl
  refine ⟨_, db, run, ?_, daily_emission_capped run ?_⟩
  · unfold notePeriod
    rw [if_pos stays]
    show 0 + (db.props.currentSupply - initGenesis.props.currentSupply) = _
    rw [facts.2]
    omega
  · unfold notePeriod
    rw [if_pos stays]
    exact ⟨trivial, fun _ _ => ⟨rfl, by decide +kernel⟩⟩

/-! ## A day which begins with many replies -/

/-- Many replies in the first block of a day. -/
structure Flooded (count : Nat) (period : EmissionPeriod) (db : Database) :
    Prop where
  thread : db.Thread count
  supply : db.props.currentSupply = 102000105000 + 2000 * count
  created : period.created = 5000 + 2000 * count
  cap : period.cap ≤ 60273972
  single : period.single ≤ 5000

theorem dailyEmissionCap_le
    (nonneg : 0 ≤ db.props.currentSupply)
    (bound : db.props.currentSupply ≤ 110000000000) :
    db.dailyEmissionCap ≤ 60273972 := by
  have scaled : 0 ≤ db.props.currentSupply * dailyInflationRateRestriction :=
    Int.mul_nonneg nonneg (by decide)
  have first : 0 ≤
      (db.props.currentSupply * dailyInflationRateRestriction).tdiv 100 :=
    Int.tdiv_nonneg scaled (by decide)
  rw [dailyEmissionCap, Int.tdiv_eq_ediv_of_nonneg first,
    Int.tdiv_eq_ediv_of_nonneg scaled]
  simp only [dailyInflationRateRestriction]
  omega

/-- A further reply creates BMT although the cap may be reached. -/
theorem Flooded.step
    {period : EmissionPeriod}
    (flooded : Flooded count period db)
    (bound : count < 40000) :
    ∃ after,
      db.step plainExternal
          (.operation (.encryptedContent (sampleReply count))) = .ok after ∧
        Flooded (count + 1)
          (notePeriod 1 period db
            (.operation (.encryptedContent (sampleReply count))) after)
          after := by
  have small : count < 2 ^ 32 := Nat.lt_trans bound (by decide)
  rcases flooded.thread.step small with ⟨after, stepped, thread⟩
  refine ⟨after, stepped, ?_⟩
  simp only [Database.step, bind_eq_ok_iff] at stepped
  rcases stepped with ⟨_, -, done⟩
  have number := flooded.thread.emitting.number
  have running : ¬db.emissionStopped = true := by
    simp [emissionStopped, number]
  have emission := emission_encryptedContent flooded.thread.fresh done
  unfold Emission at emission
  rw [if_neg running] at emission
  simp only [emissionView, Prod.mk.injEq] at emission
  rcases emission with ⟨head, supply, -⟩
  have rate : contentRate (sampleReply count).parentAuthor = 2000 :=
    (by decide : contentRate initMinerName = 2000)
  rw [rate, flooded.supply] at supply
  have stays : db.periodOf 1 = after.periodOf 1 := by
    rw [periodOf, periodOf, headBlockNum, headBlockNum, head]
  have created : db.createdBy
      (.operation (.encryptedContent (sampleReply count))) after = 2000 := by
    show after.props.currentSupply - db.props.currentSupply = 2000
    rw [supply, flooded.supply]
    omega
  unfold notePeriod
  rw [if_pos stays, created]
  constructor
  case thread => exact thread
  case supply =>
    rw [supply]
    omega
  case created =>
    show period.created + 2000 = _
    rw [flooded.created]
    omega
  case cap =>
    refine max_le flooded.cap (dailyEmissionCap_le ?_ ?_)
    · omega
    · omega
  case single => exact max_le flooded.single (by decide)

theorem flooded_reached
    (bound : count ≤ 40000) :
    ∃ period db,
      RecordedRun plainExternal (fun _ _ => True) firstPeriod (notePeriod 1)
          period (some firstHeader) db ∧
        Flooded count period db := by
  induction count with
  | zero =>
      have ran : (initGenesis.step plainExternal
          (.beginBlock firstHeader)).bind (fun begun =>
            (begun.step plainExternal
              (.operation (samplePost initMinerName))).bind fun posted =>
                require (posted.postMade = true ∧
                  begun.props.headBlockNumber = 0 ∧
                    begun.props.currentSupply = 102000100000 ∧
                      posted.props.currentSupply = 102000105000) "") =
                        .ok () := by
        decide +kernel
      rcases (bind_eq_ok_iff _ _ _).1 ran with ⟨begun, first, ran⟩
      rcases (bind_eq_ok_iff _ _ _).1 ran with ⟨posted, second, facts⟩
      rw [require_eq_ok_iff] at facts
      rcases facts with ⟨made, head, supply, more⟩
      have thread := thread_of_postMade made
      have run : RecordedRun plainExternal (fun _ _ => True) firstPeriod
          (notePeriod 1) _ (some firstHeader) posted :=
        .step (.operation (samplePost initMinerName))
          (.step (.beginBlock firstHeader) .genesis (.beginBlock _) trivial
            first)
          (.operation _ _) trivial second
      have begins : initGenesis.periodOf 1 = begun.periodOf 1 := by
        rw [periodOf, periodOf, headBlockNum, headBlockNum, head]
        rfl
      have stays : begun.periodOf 1 = posted.periodOf 1 := by
        rw [periodOf, periodOf, headBlockNum, headBlockNum, head,
          thread.emitting.number]
      have created : begun.createdBy (.operation (samplePost initMinerName))
          posted = 5000 := by
        show posted.props.currentSupply - begun.props.currentSupply = 5000
        rw [supply, more]
        rfl
      refine ⟨_, posted, run, ?_⟩
      unfold notePeriod
      rw [if_pos begins, if_pos stays, created]
      constructor
      case thread => exact thread
      case supply => exact more
      case created => rfl
      case cap =>
        refine max_le (max_le (by decide +kernel) (dailyEmissionCap_le ?_ ?_))
          (dailyEmissionCap_le ?_ ?_)
        · rw [supply]
          decide
        · rw [supply]
          decide
        · rw [more]
          decide
        · rw [more]
          decide
      case single =>
        have none : (0 : Int) ≤ 5000 := by decide
        exact max_le (max_le none none) (Int.le_refl 5000)
  | succ count induction =>
      rcases induction (Nat.le_of_succ_le bound) with
        ⟨period, db, run, flooded⟩
      rcases flooded.step bound with ⟨after, stepped, next⟩
      exact ⟨_, after, .step (.operation (.encryptedContent _)) run
        (.operation _ _) trivial stepped, next⟩

/-- Replies in the first block of a day create more than the day's cap. -/
theorem daily_emission_exceeds_cap :
    ∃ period db,
      RecordedRun plainExternal (fun _ _ => True) firstPeriod (notePeriod 1)
          period (some firstHeader) db ∧
        ¬period.WithinCap := by
  rcases flooded_reached (Nat.le_refl 40000) with ⟨period, db, run, flooded⟩
  refine ⟨period, db, run, ?_⟩
  have created := flooded.created
  have cap := flooded.cap
  have single := flooded.single
  rintro (zero | within)
  · omega
  · omega

end BMChain.State
