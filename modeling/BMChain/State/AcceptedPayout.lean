import BMChain.State.CashoutRound
import BMChain.State.CommentOptions
import BMChain.State.KeptVotes
import BMChain.State.RewardShares

/-!
# The options of comments in runs

The options of a comment only become narrower as long as no operation asks for
more BMT than the comment pays.  The payouts do not look at the maximum which a
comment accepts, so they keep to it as far as the shares of the fund do.
-/

namespace BMChain.State

open BMChain.Foundation BMChain.Protocol Std

variable {ext : External}

namespace Database

/-! ## What the options keep -/

/-- No comment has wider options than before. -/
abbrev Tightens : Database → Database → Prop :=
  Outlives (fun _ => True) fun old new => old.options.Tightened new.options

/-- Routes are set where there were none and no votes. -/
abbrev SetsFairly : Database → Database → Prop :=
  Outlives (fun _ => True) FairRoutes

/-- No comment refuses a payout of zero. -/
def AllAccept (db : Database) : Prop :=
  db.comments.All CommentObject.AcceptsNonneg

instance : History (fun _ => True)
    (fun old new => old.options.Tightened new.options) where
  refl comment := refl_of _ comment.options
  trans _ _ _ first second := trans_of _ first second
  steady _ _ _ _ := trivial

section Restrains

variable {db after : Database}

theorem Restrains.tightens
    (restrains : Restrains db after) :
    Tightens db after := by
  cases restrains with
  | keeps kept =>
      refine kept.mono (fun _ _ => trivial) ?_
      intro old new same
      rw [show new.options = old.options from same]
      exact refl_of _ old.options
  | narrows narrowed =>
      exact narrowed.mono (fun _ never => never.elim) fun _ _ less =>
        less.options

theorem Restrains.setsFairly
    (restrains : Restrains db after) :
    SetsFairly db after := by
  cases restrains with
  | keeps kept =>
      refine kept.mono (fun _ _ => trivial) ?_
      exact fun _ _ same => .inl (congrArg PayoutOptions.beneficiaries same)
  | narrows narrowed =>
      exact narrowed.mono (fun _ never => never.elim) fun _ _ less =>
        less.routes

theorem KeepsOptions.allAccept
    (kept : KeepsOptions db after)
    (accept : db.AllAccept) :
    after.AllAccept := by
  intro id comment found
  rcases kept.comments id comment found with ⟨old, there, same⟩ | ⟨-, plain⟩
  · show 0 ≤ comment.options.maxAcceptedPayout
    rw [show comment.options = old.options from same]
    exact accept id old there
  · show 0 ≤ comment.options.maxAcceptedPayout
    rw [show comment.options = PayoutOptions.initial from plain]
    decide

theorem Restrains.allAccept
    (restrains : Restrains db after)
    (accept : db.AllAccept) :
    after.AllAccept := by
  cases restrains with
  | keeps kept => exact kept.allAccept accept
  | narrows narrowed =>
      intro id comment found
      rcases narrowed.comments id comment found with
        ⟨old, there, less⟩ | ⟨-, never⟩
      · exact less.accepts (accept id old there)
      · exact never.elim

end Restrains

/-! ## The share of a comment in the fund -/

/-- The part of the fund which the claims of a comment give it. -/
def fundShare (ext : External) (fund : RewardFundObject)
    (comment : CommentObject) (recentClaims : Nat) (rewardBalance : Int) :
    Nat :=
  uint256 rewardBalance *
      (claimOf ext fund comment * comment.rewardWeight / hundredPercent) /
    recentClaims

/-- What is left of a share when the curators' part stays in the fund. -/
def authorPart (percent share : Nat) : Nat :=
  share - share * percent / hundredPercent

/-- A share is too small to be paid, or the comment accepts it. -/
def AcceptsShare (comment : CommentObject) (percent share : Nat) : Prop :=
  (share : Int) < minPayout ∨
    ((if comment.allowCurationRewards then share
      else authorPart percent share : Nat) : Int) ≤ comment.maxAcceptedPayout

/-- The comment which is paid accepts its share of the fund. -/
def ShareAccepted (ext : External) (db : Database)
    (id recentClaims : Nat) (rewardBalance : Int) : Prop :=
  ∀ comment place fund,
    db.comments.find? id = some comment →
      db.getRewardFund = .ok (place, fund) →
        AcceptsShare comment fund.percentCurationRewards
          (fundShare ext fund comment recentClaims rewardBalance)

/-- What the pending rewards, the vesting fund and the author gain. -/
def paidOut (db after : Database) (author : AccountName) : Int :=
  (after.props.pendingRewardedVestingBmt -
      db.props.pendingRewardedVestingBmt) +
    (after.props.totalVestingFundBmt - db.props.totalVestingFundBmt) +
      (after.ledger.holding author .balance -
        db.ledger.holding author .balance)

/-- A payout gives away what it reports, and no more than the comment accepts. -/
def PaysAccepted (ext : External) (db : Database)
    (id recentClaims : Nat) (rewardBalance : Int) : Prop :=
  ∀ comment after claimed,
    db.comments.find? id = some comment →
      db.cashoutCommentHelper ext id recentClaims rewardBalance =
          .ok (after, claimed) →
        paidOut db after comment.author = claimed ∧
          claimed ≤ comment.maxAcceptedPayout

theorem authorPart_mono
    {percent less more : Nat}
    (within : percent ≤ hundredPercent)
    (below : less ≤ more) :
    authorPart percent less ≤ authorPart percent more := by
  rcases Nat.exists_eq_add_of_le below with ⟨rest, rfl⟩
  have grown : (less + rest) * percent / hundredPercent ≤
      less * percent / hundredPercent + rest := by
    calc (less + rest) * percent / hundredPercent
        ≤ (less * percent + rest * hundredPercent) / hundredPercent := by
          rw [Nat.add_mul]
          exact Nat.div_le_div_right
            (Nat.add_le_add_left (Nat.mul_le_mul_left rest within) _)
      _ = less * percent / hundredPercent + rest :=
          Nat.add_mul_div_right _ _ (by decide)
  unfold authorPart
  omega

/-- A reward is a share of the fund, and dust is not paid. -/
theorem rshareReward_within
    {db : Database}
    {place recentClaims : Nat}
    {fund : RewardFundObject}
    {comment : CommentObject}
    {rewardBalance reward : Int}
    (got : db.getRewardFund = .ok (place, fund))
    (worth : db.rshareReward ext comment recentClaims rewardBalance =
      .ok reward) :
    ∃ part : Nat, reward = part ∧
      part ≤ fundShare ext fund comment recentClaims rewardBalance ∧
        ((fundShare ext fund comment recentClaims rewardBalance : Int) <
          minPayout → part = 0) := by
  rw [rshareReward, got, ok_bind] at worth
  simp only [getRshareReward, bind_eq_ok_iff, require_eq_ok_iff,
    pure_eq_ok_iff] at worth
  rcases worth with ⟨_, voted, _, -, claim, curve, _, -, rfl⟩
  have own : claimOf ext fund comment = claim := by
    rw [claimOf, if_pos voted, curve]
    rfl
  have share : uint256 rewardBalance *
        (claim * comment.rewardWeight % 2 ^ 256 / hundredPercent) % 2 ^ 256 /
          recentClaims ≤
      fundShare ext fund comment recentClaims rewardBalance := by
    rw [fundShare, own]
    refine Nat.div_le_div_right (Nat.le_trans (Nat.mod_le _ _) ?_)
    exact Nat.mul_le_mul_left _ (Nat.div_le_div_right (Nat.mod_le _ _))
  split
  case isTrue => exact ⟨0, rfl, Nat.zero_le _, fun _ => rfl⟩
  case isFalse paid =>
    refine ⟨_, rfl, share, fun dust => absurd ?_ paid⟩
    exact Int.lt_of_le_of_lt (Int.ofNat_le.2 share) dust

/-- A comment which accepts its share is paid no more than it accepts. -/
theorem paysAccepted_of_share
    {db : Database}
    {id recentClaims : Nat}
    {rewardBalance : Int}
    (curved : db.RootCurved)
    (accept : db.AllAccept)
    (share : ShareAccepted ext db id recentClaims rewardBalance) :
    PaysAccepted ext db id recentClaims rewardBalance := by
  intro comment after claimed found done
  refine ⟨gains_of_cashout found done, ?_⟩
  have nonneg : 0 ≤ comment.maxAcceptedPayout := accept id comment found
  by_cases voted : 0 < comment.netRshares
  case neg =>
    rw [(none_of_cashout found done (Int.not_lt.1 voted)).1]
    exact nonneg
  rcases claimed_eq found done voted with ⟨reward, percent, worth, read, sum⟩
  simp only [getCurationRewardsPercent, bind_eq_ok_iff, pure_eq_ok_iff] at read
  rcases read with ⟨⟨place, fund⟩, funded, rfl⟩
  have within : fund.percentCurationRewards ≤ hundredPercent :=
    (curved place fund
      (Table.find?_of_findBy (orFault_eq_ok_iff.1 funded))).2
  have fits := (rshareReward_bounds worth).2
  rcases rshareReward_within funded worth with ⟨part, rfl, less, dust⟩
  have curators : curationPart part fund.percentCurationRewards =
        (part * fund.percentCurationRewards / hundredPercent : Nat) ∧
      part * fund.percentCurationRewards / hundredPercent ≤ part :=
    scaled_eq fits within (by decide)
  have given : claimed =
      ((if comment.allowCurationRewards then part
        else authorPart fund.percentCurationRewards part : Nat) : Int) := by
    rw [sum]
    split
    · rfl
    · rw [curators.1, authorPart, Int.ofNat_sub curators.2]
  rw [given]
  rcases share comment place fund found funded with small | fair
  case inl =>
    rw [dust small, authorPart, Nat.zero_mul, Nat.zero_div, Nat.sub_zero,
      ite_self]
    exact nonneg
  case inr =>
    refine Int.le_trans (Int.ofNat_le.2 ?_) fair
    split
    · exact less
    · exact authorPart_mono within less

/-! ## Runs -/

/-- A step of a block makes only payouts which the comments accept. -/
def StepAccepts (ext : External) (db : Database) : BlockStep → Prop
  | .processCommentCashout => db.EachPayout ext (ShareAccepted ext)
  | _ => True

/-- The payouts of a step of a block are within what the comments accept. -/
def StepHonours (ext : External) (db : Database) : BlockStep → Prop
  | .processCommentCashout => db.EachPayout ext (PaysAccepted ext)
  | _ => True

/-- No operation asks for more, and the payouts are accepted. -/
def KeepsToOptions (ext : External) : Database → Event → Prop :=
  EventMeets ext MeetsAsk fun _ => StepAccepts ext

/-- The payouts of an event are within what the comments accept. -/
def HonoursOptions (ext : External) : Database → Event → Prop :=
  EventMeets ext (fun _ _ => True) fun _ => StepHonours ext

/-- The payouts of the comments rest on these two. -/
def PaysSafely (db : Database) : Prop :=
  db.RootCurved ∧ db.AllAccept

theorem paysSafely_genesis :
    initGenesis.PaysSafely := by
  refine ⟨rootCurved_genesis, ?_⟩
  intro id comment found
  cases found

theorem PaysSafely.of_runStep
    {header : BlockHeader}
    {db after : Database}
    {which : BlockStep}
    (safe : db.PaysSafely)
    (ran : db.runStep ext header which = .ok after) :
    after.PaysSafely :=
  ⟨keepsCurve_runStep ran safe.1, (keepsOptions_runStep ran).allAccept safe.2⟩

theorem PaysSafely.of_step
    {event : Event}
    {db after : Database}
    (safe : db.PaysSafely)
    (meets : KeepsToOptions ext db event)
    (stepped : db.step ext event = .ok after) :
    after.PaysSafely := by
  refine ⟨?_, (restrains_step meets stepped).allAccept safe.2⟩
  cases event with
  | operation op =>
      simp only [step, bind_eq_ok_iff] at stepped
      rcases stepped with ⟨_, -, done⟩
      exact keepsCurve_applyOperation done safe.1
  | beginBlock header =>
      exact KeepsCurve.of_agrees (touches_beginBlock db header after stepped)
        rfl safe.1
  | finishBlock header =>
      exact (foldlM_runStep_invariant PaysSafely
        (fun _ _ _ _ ran before => before.of_runStep ran) meets stepped safe).1

/-- The payouts of a block are within what the comments accept. -/
theorem honoursOptions_of_keeps
    {event : Event}
    {db : Database}
    (safe : db.PaysSafely)
    (meets : KeepsToOptions ext db event) :
    HonoursOptions ext db event := by
  cases event with
  | operation op => trivial
  | beginBlock header => trivial
  | finishBlock header =>
      refine EachStep.imp PaysSafely (fun _ _ _ ran before =>
        before.of_runStep ran) ?_ safe meets
      intro state which holds accepted
      cases which with
      | processCommentCashout =>
          refine EachPayout.imp PaysSafely ?_ ?_ ?_ accepted
          · intro before id recentClaims rewardBalance after claimed cashed kept
            refine ⟨?_, (keepsOptions_cashoutCommentHelper cashed).allAccept
              kept.2⟩
            exact KeepsCurve.of_agrees (agrees_cashoutCommentHelper cashed) rfl
              kept.1
          · exact fun _ _ _ _ kept share =>
              paysAccepted_of_share kept.1 kept.2 share
          · intro decayed funds decay
            have kept : KeepsOptions state decayed :=
              .of_agrees (agrees_decayFunds decay) rfl
            exact ⟨keepsCurve_decayFunds decay holds.1,
              kept.allAccept holds.2⟩
      | _ => trivial

end Database

open Database

/-- One allowed event leads from a state to another. -/
def Follows (ext : External) (allowed : Database → Event → Prop)
    (before after : Database) : Prop :=
  ∃ event, allowed before event ∧ before.step ext event = .ok after

theorem paysSafely_run
    {block : Option BlockHeader}
    {db : Database}
    (run : RunState ext (KeepsToOptions ext) block db) :
    db.PaysSafely := by
  induction run with
  | genesis => exact paysSafely_genesis
  | step event _ _ meets stepped induction =>
      exact induction.of_step meets stepped

theorem paysSafely_of_follows
    {start db : Database}
    (safe : start.PaysSafely)
    (leads : Relation.ReflTransGen (Follows ext (KeepsToOptions ext)) start
      db) :
    db.PaysSafely := by
  induction leads with
  | refl => exact safe
  | tail _ next induction =>
      rcases next with ⟨event, meets, stepped⟩
      exact induction.of_step meets stepped

theorem tightens_of_follows
    {start db : Database}
    (leads : Relation.ReflTransGen (Follows ext (KeepsToOptions ext)) start
      db) :
    Tightens start db := by
  induction leads with
  | refl => exact refl_of Tightens start
  | tail _ next induction =>
      rcases next with ⟨event, meets, stepped⟩
      exact trans_of Tightens induction (restrains_step meets stepped).tightens

/--
The options of comments only become narrower from one state of a run to any
later one, routes are set where there are none yet and no votes, and no payout
gives away more than its comment accepts.
-/
theorem options_tighten_and_are_honoured
    {ext : External}
    {block : Option BlockHeader}
    {start db : Database}
    (run : RunState ext (KeepsToOptions ext) block start)
    (leads : Relation.ReflTransGen (Follows ext (KeepsToOptions ext)) start
      db) :
    Tightens start db ∧
      ∀ event after,
        KeepsToOptions ext db event → db.step ext event = .ok after →
          SetsFairly db after ∧ HonoursOptions ext db event := by
  refine ⟨tightens_of_follows leads, ?_⟩
  intro event after meets stepped
  have safe := paysSafely_of_follows (paysSafely_run run) leads
  exact ⟨(restrains_step meets stepped).setsFairly,
    honoursOptions_of_keeps safe meets⟩

/-- Comments without worth have no share of the fund. -/
theorem Database.Unrewarded.keepsToOptions
    {db : Database}
    (unrewarded : Unrewarded db)
    (header : BlockHeader) :
    KeepsToOptions ext db (.finishBlock header) := by
  refine eachStep_of_invariant Unrewarded
    (fun _ _ _ ran start => start.runStep ran) ?_ blockSteps unrewarded
  intro state which unrewarded
  cases which with
  | processCommentCashout =>
      refine eachPayout_of_invariant Unrewarded ?_ ?_ ?_
      · exact fun _ _ _ _ _ _ cashed start => start.cashoutComment cashed
      · intro paying id _ _ start comment _ fund found _
        have none : claimOf ext fund comment = 0 :=
          if_neg (Int.not_lt.2 (start.net id comment found))
        refine .inl ?_
        rw [fundShare, none, Nat.zero_mul, Nat.zero_div, Nat.mul_zero,
          Nat.zero_div]
        decide
      · exact fun decayed funds decay =>
          unrewarded.of_agrees (agrees_decayFunds decay) rfl
  | _ => trivial

/-- A run which pays nothing keeps to the options. -/
theorem keepsToOptions_of_paysNothing
    {block : Option BlockHeader}
    {db : Database}
    (run : RunState ext PaysNothing block db) :
    RunState ext (KeepsToOptions ext) block db ∧
      db.props.totalRewardShares2 = 0 := by
  induction run with
  | genesis => exact ⟨.genesis, rfl⟩
  | @step _ _ db after event _ phase idle stepped induction =>
      rcases induction with ⟨run, none⟩
      cases event with
      | operation op =>
          refine ⟨.step _ run phase ?_ stepped, ?_⟩
          · cases op <;> trivial
          · rcases (bind_eq_ok_iff _ _ _).1 stepped with ⟨_, -, done⟩
            exact (total_applyOperation done).trans none
      | beginBlock header =>
          have agrees := touches_beginBlock db header after stepped
          have total : after.props.totalRewardShares2 =
              db.props.totalRewardShares2 :=
            agrees (.props .rewardShares) (by decide)
          exact ⟨.step _ run phase trivial stepped, total.trans none⟩
      | finishBlock header =>
          have start : Unrewarded db := ⟨idle, none⟩
          have meets : KeepsToOptions ext db (.finishBlock header) :=
            start.keepsToOptions header
          refine ⟨.step _ run phase meets stepped, ?_⟩
          exact (foldlM_runStep_invariant Unrewarded
            (fun _ _ _ _ ran start => start.runStep ran) meets stepped
            start).total

/-- Options for the post of the sample runs. -/
def sampleOptions (payout : Int) (percent : Nat) : CommentOptionsOperation where
  author := initMinerName
  permlink := [97]
  maxAcceptedPayout := bmt payout
  percentBmtDollars := percent
  allowVotes := true
  allowCurationRewards := true
  extensions := []

/-- An author asks for less BMT, and the payout of a due post is accepted. -/
theorem options_tighten_one_post :
    (∃ start db,
      initGenesis.step plainExternal
          (.operation (samplePost initMinerName)) = .ok start ∧
        start.step plainExternal
            (.operation (.commentOptions (sampleOptions 20 5000))) = .ok db ∧
          Tightens start db) ∧
      ∃ db header due after,
        Unpaid due db.comments db.commentVotes ∧ due ≤ header.timestamp ∧
          db.finishBlock plainExternal header = .ok after ∧
            Paid after.headBlockTime after.comments after.commentVotes ∧
              HonoursOptions plainExternal db (.finishBlock header) := by
  refine ⟨?_, ?paid⟩
  case paid =>
    have enough : 201599 + 1 ≤ firstPayoutBlock := by decide
    rcases unpaidRun_blocks enough with ⟨_, start⟩
    rcases start.pay with ⟨header, db, after, entered, unpaid, late, finish,
      paid⟩
    rcases keepsToOptions_of_paysNothing entered with ⟨run, none⟩
    have unrewarded : Unrewarded db := ⟨unpaid.worthless, none⟩
    exact ⟨db, header, _, after, unpaid, late, finish, paid,
      ((options_tighten_and_are_honoured run .refl).2 _ after
        (unrewarded.keepsToOptions header) finish).2⟩
  have ran : ((initGenesis.step plainExternal
      (.operation (samplePost initMinerName))).bind fun start =>
        (start.getComment initMinerName [97]).bind fun comment =>
          (require (5000 ≤ comment.2.percentBmtDollars) "").bind fun _ =>
            start.step plainExternal (.operation
              (.commentOptions (sampleOptions 20 5000)))).isOk = true := by
    decide +kernel
  rcases exists_of_isOk ran with ⟨db, done⟩
  rcases (bind_eq_ok_iff _ _ _).1 done with ⟨start, posted, rest⟩
  rcases (bind_eq_ok_iff _ _ _).1 rest with ⟨⟨place, post⟩, got, rest⟩
  rcases (bind_eq_ok_iff _ _ _).1 rest with ⟨_, less, asked⟩
  refine ⟨start, db, posted, asked, ?_⟩
  have run : RunState plainExternal (KeepsToOptions plainExternal) none
      start :=
    .step (.operation (samplePost initMinerName)) .genesis (.operation _ none)
      trivial posted
  have leads : Relation.ReflTransGen
      (Follows plainExternal (KeepsToOptions plainExternal)) start db := by
    refine .single ⟨.operation (.commentOptions (sampleOptions 20 5000)), ?_,
      asked⟩
    intro id comment found
    have same : (place, post) = (id, comment) :=
      Except.ok.inj (got.symm.trans found)
    cases same
    exact require_eq_ok_iff.1 less
  exact (options_tighten_and_are_honoured run leads).1

/--
An author may ask for all BMT again, and the payout of a post which accepts
twenty gives away a whole fund of one thousand.
-/
theorem options_widen_and_are_not_honoured :
    (∃ start db,
      Reachable plainExternal start ∧
        start.step plainExternal
            (.operation (.commentOptions (sampleOptions 20 10000))) = .ok db ∧
          ¬Tightens start db) ∧
      ∃ db comment after,
        Reachable plainExternal db ∧
          db.comments.find? 0 = some comment ∧
            comment.maxAcceptedPayout = 20 ∧
              db.cashoutCommentHelper plainExternal 0 4000000000000 1000 =
                .ok (after, 1000) := by
  constructor
  · have ran : ([Event.operation (samplePost initMinerName),
        .operation (.commentOptions (sampleOptions 20 0))].foldlM
          (step plainExternal) initGenesis).bind (fun start =>
            (start.step plainExternal (.operation
              (.commentOptions (sampleOptions 20 10000)))).bind fun db =>
                require ((start.comments.find? 0).map
                    CommentObject.percentBmtDollars = some 0 ∧
                  (db.comments.find? 0).map
                    CommentObject.percentBmtDollars = some 10000 ∧
                      0 < start.comments.nextId) "") = .ok () := by
      decide +kernel
    rcases (bind_eq_ok_iff _ _ _).1 ran with ⟨start, asked, rest⟩
    rcases (bind_eq_ok_iff _ _ _).1 rest with ⟨db, again, facts⟩
    rw [require_eq_ok_iff] at facts
    rcases facts with ⟨first, second, below⟩
    refine ⟨start, db, ⟨none, RunState.of_foldlM .genesis ?_ asked⟩, again, ?_⟩
    · exact ⟨none, .operation _ none, none, .operation _ none, rfl⟩
    · intro tightens
      rcases Option.map_eq_some_iff.1 second with ⟨comment, found, percent⟩
      rcases tightens.old below found with ⟨old, there, less⟩
      have none : old.percentBmtDollars = 0 := by
        rw [there] at first
        exact Option.some.inj first
      have more := less.percent
      simp only [CommentObject.options, none, percent] at more
      cases more
  · have ran : ([Event.operation (samplePost initMinerName),
        .operation (.commentOptions (sampleOptions 20 10000)),
        .beginBlock firstHeader, .finishBlock firstHeader,
        .operation (sampleVote "devs" 10000)].foldlM
          (step plainExternal) initGenesis).bind (fun db =>
            (db.getCommentById 0).bind fun comment =>
              (require (comment.maxAcceptedPayout = 20) "").bind fun _ =>
                (db.cashoutCommentHelper plainExternal 0 4000000000000
                  1000).bind fun paid => require (paid.2 = 1000) "") =
          .ok () := by
      decide +kernel
    rcases (bind_eq_ok_iff _ _ _).1 ran with ⟨db, done, rest⟩
    rcases (bind_eq_ok_iff _ _ _).1 rest with ⟨comment, got, rest⟩
    rcases (bind_eq_ok_iff _ _ _).1 rest with ⟨_, accepts, rest⟩
    rcases (bind_eq_ok_iff _ _ _).1 rest with ⟨⟨after, claimed⟩, cash, sum⟩
    rw [require_eq_ok_iff] at accepts sum
    dsimp only at sum
    subst sum
    refine ⟨db, comment, after, ⟨none, RunState.of_foldlM .genesis ?_ done⟩,
      orFault_eq_ok_iff.1 got, accepts, cash⟩
    exact ⟨none, .operation _ none, none, .operation _ none, _, .beginBlock _,
      none, .finishBlock _, none, .operation _ none, rfl⟩

end BMChain.State
