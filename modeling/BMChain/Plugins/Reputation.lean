import BMChain.State.Spending
import BMChain.State.VoteTotals

/-!
# Reputation

The follow plugin keeps a reputation for every author.  Before a vote operation
it takes out what an earlier vote of the same voter is worth, and after it the
rules of the plugin decide whether the vote is put in.  What the rules decided
is not stored, so the earlier vote is taken out whether it was put in or not.
-/

namespace BMChain.Plugins

open BMChain.Foundation BMChain.Protocol BMChain.State
open BMChain.State.Database

variable {ext : External} {start : Database}

variable {power : VotePower} {place : Nat}

/-! ## The state of the plugin -/

/-- `reputation_object`. -/
structure ReputationObject where
  account : AccountName
  reputation : Int

/-- The database with the reputations, by account. -/
structure FollowPlugin where
  db : Database
  reputations : Register ReputationObject

/-- What a vote is worth: the noise of its shares is shifted away. -/
def worth (vote : CommentVoteObject) : Int :=
  vote.rshares >>> 6

namespace FollowPlugin

/-- The reputation of an account, which is zero when it has none. -/
def reputation (plugin : FollowPlugin) (name : AccountName) : Int :=
  ((plugin.reputations.find? name).map ReputationObject.reputation).getD 0

/-- The vote of an account on a comment. -/
def findVote (db : Database) (id : Nat) (voter : AccountObject) :
    Option (Nat × CommentVoteObject) :=
  db.commentVotes.findBy fun vote =>
    vote.comment = id ∧ vote.voter = voter.id

/-- The earlier vote is taken out of the author's reputation. -/
def takeOut (plugin : FollowPlugin) (op : VoteOperation) :
    Except Fault FollowPlugin := do
  let (id, comment) ← plugin.db.getComment op.author op.permlink
  let payoutTime ← plugin.db.calculateDiscussionPayoutTime comment
  if payoutTime = maximumTime then pure plugin
  else do
    let voter ← plugin.db.getAccount op.voter
    match findVote plugin.db id voter, plugin.reputations.find? op.author with
    | some (_, vote), some held => do
        let reputation ← checked (held.reputation - worth vote)
        pure { plugin with
          reputations := plugin.reputations.set op.author
            { held with reputation := reputation } }
    | _, _ => pure plugin

/-- The visitor before a vote, which drops what is thrown. -/
def preVote (plugin : FollowPlugin) (op : VoteOperation) : FollowPlugin :=
  match plugin.takeOut op with
  | .ok after => after
  | .error _ => plugin

/--
The rules: who has a negative reputation has no effect on others, and who votes
against an author has to have more reputation than the author.
-/
def rulesAllow
    (voterRep authorRep : Option ReputationObject)
    (rshares : Int) :
    Bool :=
  if voterRep.any (·.reputation < 0) then false
  else
    match authorRep with
    | none => !(rshares < 0 && !voterRep.any (0 < ·.reputation))
    | some held =>
        !(rshares < 0 && !voterRep.any (held.reputation < ·.reputation))

/-- The vote which was cast, with the decision of the rules, unless the comment
has been paid for good. -/
def judge (plugin : FollowPlugin) (op : VoteOperation) :
    Except Fault (Option (CommentVoteObject × Bool)) := do
  let (id, comment) ← plugin.db.getComment op.author op.permlink
  let payoutTime ← plugin.db.calculateDiscussionPayoutTime comment
  if payoutTime = maximumTime then pure none
  else do
    let voter ← plugin.db.getAccount op.voter
    let (_, vote) ← orFault (findVote plugin.db id voter) "no vote"
    pure (some (vote,
      rulesAllow (plugin.reputations.find? op.voter)
        (plugin.reputations.find? op.author) vote.rshares))

/-- A vote which the rules allow is put into the author's reputation. -/
def putIn (plugin : FollowPlugin) (author : AccountName) :
    Option (CommentVoteObject × Bool) → Except Fault FollowPlugin
  | some (vote, true) =>
      match plugin.reputations.find? author with
      | none =>
          pure { plugin with
            reputations := plugin.reputations.emplace author
              ⟨author, worth vote⟩ }
      | some held => do
          let reputation ← checked (held.reputation + worth vote)
          pure { plugin with
            reputations := plugin.reputations.set author
              { held with reputation := reputation } }
  | _ => pure plugin

/-- What was cast and decided, if the comment and the vote are found. -/
def verdict (plugin : FollowPlugin) (op : VoteOperation) :
    Option (CommentVoteObject × Bool) :=
  match plugin.judge op with
  | .ok verdict => verdict
  | .error _ => none

/-- The visitor after a vote.  What it throws is dropped, and the vote stands. -/
def postVote (plugin : FollowPlugin) (op : VoteOperation) : FollowPlugin :=
  match plugin.judge op >>= plugin.putIn op.author with
  | .ok after => after
  | .error _ => plugin

/-- The state between the evaluator and the visitor after it. -/
def voted (ext : External) (plugin : FollowPlugin) (op : VoteOperation) :
    Except Fault FollowPlugin := do
  let noted := plugin.preVote op
  let db ← noted.db.applyOperation ext (.vote op)
  pure { noted with db := db }

end FollowPlugin

/-! ## The votes which were put in -/

/-- Which votes were put in when they were last cast, by comment and voter. -/
abbrev Counted := Nat → Nat → Bool

/-- The record after a vote. -/
def Counted.note (counted : Counted) :
    Option (CommentVoteObject × Bool) → Counted
  | none => counted
  | some (vote, allowed) => fun comment voter =>
      if comment = vote.comment ∧ voter = vote.voter then allowed
      else counted comment voter

/-- The author of a comment. -/
def authorOf (db : Database) (id : Nat) : Option AccountName :=
  (db.comments.find? id).map CommentObject.author

/-- What a vote adds to the reputation of an author, if it was put in. -/
def credit (counted : Counted) (db : Database) (author : AccountName)
    (vote : CommentVoteObject) : Int :=
  if counted vote.comment vote.voter = true ∧
      authorOf db vote.comment = some author then
    worth vote
  else 0

/-- The sum over the votes on the comments of an author which were put in. -/
def credits (counted : Counted) (db : Database) (author : AccountName) : Int :=
  sumOf (credit counted db author) db.commentVotes.rows

/-! ## What a vote leaves of the comments -/

/-- The place of a comment and the time of its payout. -/
def standing (comment : CommentObject) :
    CountedNode (AccountName × Text) × Time :=
  (comment.node, comment.cashoutTime)

section Standing

variable {db after : Database}

theorem sees_standing_castVote
    {op : VoteOperation}
    {voter : AccountObject}
    {id : Nat}
    {comment : CommentObject}
    (stored : db.comments.find? id = some comment)
    (done : db.castVote ext op voter id comment power = .ok after) :
    Sees (fun _ => standing) db after := by
  simp only [castVote, bind_eq_ok_iff, require_eq_ok_iff] at done
  rcases done with ⟨_, -, _, -, spent, spend, _, -, _, -, _, -, _, -, done⟩
  rcases done with ⟨_, -, counted, count, _, -, weighed, weigh, pay⟩
  have comments : spent.comments = db.comments :=
    touches_spendVotePower db _ _ spent spend .comments (by decide)
  have there : spent.comments.find? id = some comment := by
    rw [comments]
    exact stored
  have noted : Sees (fun _ => standing) counted weighed := by
    refine trans_of _ (Sees.of_comments rfl)
      (sees_modifyComment_pure _ id ?_ weighed weigh)
    exact fun comment => rfl
  have added : Sees (fun _ => standing) _ counted :=
    (sees_addChildrenRshares _ _ _ counted count).map
      (fun _ view => (view.1.1, view.2.2)) fun _ _ => rfl
  have paid : Sees (fun _ => standing) weighed after :=
    .of_agrees (touches_processFundsBmchain weighed _ after pay) rfl
  refine trans_of _ ?_ (trans_of _ added (trans_of _ noted paid))
  refine trans_of _ (Sees.of_comments comments) (sees_set there ?_)
  rfl

theorem sees_standing_changeVote
    {op : VoteOperation}
    {id voteId : Nat}
    {comment : CommentObject}
    {vote : CommentVoteObject}
    (stored : db.comments.find? id = some comment)
    (done : db.changeVote op id comment voteId vote power = .ok after) :
    Sees (fun _ => standing) db after := by
  simp only [changeVote, bind_eq_ok_iff, pure_eq_ok_iff] at done
  rcases done with ⟨_, -, _, -, spent, spend, _, -, _, -, _, -, done⟩
  rcases done with ⟨_, -, counted, count, weighed, weigh, rfl⟩
  have comments : spent.comments = db.comments :=
    touches_spendVotePower db _ _ spent spend .comments (by decide)
  have there : spent.comments.find? id = some comment := by
    rw [comments]
    exact stored
  have added : Sees (fun _ => standing) _ counted :=
    (sees_addChildrenRshares _ _ _ counted count).map
      (fun _ view => (view.1.1, view.2.2)) fun _ _ => rfl
  have noted : Sees (fun _ => standing) counted weighed := by
    refine sees_modifyComment_pure _ id ?_ weighed weigh
    exact fun comment => rfl
  refine trans_of _ ?_ (trans_of _ added (trans_of _ noted (.of_comments rfl)))
  refine trans_of _ (Sees.of_comments comments) (sees_set there ?_)
  rfl

/-- A comment is found under its id as long as the places are the same. -/
theorem findComment_of_sees
    (sees : Sees (fun _ => standing) db after)
    {author : AccountName}
    {permlink : Text}
    {id : Nat}
    {comment : CommentObject}
    (found : db.findComment author permlink = some (id, comment)) :
    ∃ kept, after.findComment author permlink = some (id, kept) ∧
      standing kept = standing comment := by
  rcases Table.findBy_eq_some_iff.1 found with ⟨stored, passed, first⟩
  have seen := sees id
  rw [stored, Option.map_some, Option.map_eq_some_iff] at seen
  rcases seen with ⟨kept, there, same⟩
  have key (one two : CommentObject) (equal : standing one = standing two) :
      one.author = two.author ∧ cString one.permlink = cString two.permlink :=
    Prod.mk.inj (congrArg (fun view => view.1.key) equal)
  refine ⟨kept, Table.findBy_eq_some_iff.2 ⟨there, ?_, ?_⟩, same⟩
  · rw [decide_eq_true_eq] at passed ⊢
    rw [(key _ _ same).1, (key _ _ same).2]
    exact passed
  · intro other later found passes
    rcases sees.found found with ⟨old, before, equal⟩
    refine first other old before ?_
    rw [decide_eq_true_eq] at passes ⊢
    rw [(key _ _ equal).1, (key _ _ equal).2]
    exact passes

/-- The time of the payout of a discussion stays. -/
theorem payoutTime_of_sees
    (sees : Sees (fun _ => standing) db after)
    {comment kept : CommentObject}
    (same : standing kept = standing comment)
    {time : Time}
    (due : db.calculateDiscussionPayoutTime comment = .ok time) :
    after.calculateDiscussionPayoutTime kept = .ok time := by
  have upper : kept.parentAuthor = "" ↔ comment.parentAuthor = "" := by
    have equal := congrArg (fun view => view.1.upper.isNone) same
    by_cases first : kept.parentAuthor = "" <;>
      by_cases second : comment.parentAuthor = "" <;>
        simp_all [standing, CommentObject.node]
  have root : kept.rootComment = comment.rootComment :=
    congrArg (fun view => view.1.root) same
  have cashout : kept.cashoutTime = comment.cashoutTime :=
    congrArg Prod.snd same
  unfold calculateDiscussionPayoutTime at due ⊢
  split at due
  case isTrue top =>
    rw [if_pos (upper.2 top), cashout]
    exact due
  case isFalse reply =>
    rw [if_neg (fun top => reply (upper.1 top))]
    simp only [bind_eq_ok_iff, getCommentById, orFault_eq_ok_iff,
      pure_eq_ok_iff] at due ⊢
    rcases due with ⟨top, stored, rfl⟩
    have seen := sees comment.rootComment
    rw [stored, Option.map_some, Option.map_eq_some_iff] at seen
    rcases seen with ⟨last, there, equal⟩
    exact ⟨last, root ▸ there, congrArg Prod.snd equal⟩

/-- The row of a vote, new or written over an earlier one. -/
inductive VotePlaced (db after : Database) (id : Nat) (voter : AccountObject)
    (vote : CommentVoteObject) : Prop
  | cast (first : FollowPlugin.findVote db id voter = none)
      (votes : after.commentVotes = db.commentVotes.emplace vote)
  | changed (place : Nat) (old : CommentVoteObject)
      (earlier : FollowPlugin.findVote db id voter = some (place, old))
      (votes : after.commentVotes = db.commentVotes.set place vote)

/-- What a vote does to the comment it finds. -/
structure VoteOutcome (db after : Database) (op : VoteOperation) (id : Nat)
    (comment : CommentObject) (voter : AccountObject) (time : Time) : Prop where
  found : db.findComment op.author op.permlink = some (id, comment)
  account : db.accounts.find? op.voter = some voter
  due : db.calculateDiscussionPayoutTime comment = .ok time
  sees : Sees (fun _ => standing) db after
  late : time = maximumTime → after = db
  placed : time ≠ maximumTime → ∃ vote, vote.comment = id ∧
    vote.voter = voter.id ∧ VotePlaced db after id voter vote

theorem voteOutcome
    {op : VoteOperation}
    (done : db.voteEvaluator ext op = .ok after) :
    ∃ id comment voter time, VoteOutcome db after op id comment voter time := by
  simp only [voteEvaluator, bind_eq_ok_iff, getComment, getAccount,
    orFault_eq_ok_iff] at done
  rcases done with ⟨⟨id, comment⟩, found, voter, account, done⟩
  rcases done with ⟨_, -, _, -, _, -, time, due, done⟩
  have stored := Table.find?_of_findBy found
  refine ⟨id, comment, voter, time, ?_⟩
  split at done
  case isTrue late =>
    cases (pure_eq_ok_iff _ _).1 done
    exact ⟨found, account, due, refl_of _ db, fun _ => rfl,
      fun early => absurd late early⟩
  case isFalse early =>
    simp only [bind_eq_ok_iff] at done
    rcases done with ⟨power, -, done⟩
    split at done
    case h_1 first =>
      rcases castVote_cases done with
        ⟨_, vote, -, -, -, ⟨on, cast, -⟩, -, votes, -⟩
      exact ⟨found, account, due, sees_standing_castVote stored done,
        fun late => absurd late early,
        fun _ => ⟨vote, on, cast, .cast first votes⟩⟩
    case h_2 place old earlier =>
      rcases changeVote_cases done with
        ⟨_, vote, -, -, -, ⟨on, cast, -⟩, votes, -⟩
      have passed := Table.passed_of_findBy earlier
      rw [decide_eq_true_eq] at passed
      exact ⟨found, account, due, sees_standing_changeVote stored done,
        fun late => absurd late early,
        fun _ => ⟨vote, on.trans passed.1, cast.trans passed.2,
          .changed place old earlier votes⟩⟩

theorem VotePlaced.findVote
    {id : Nat}
    {voter : AccountObject}
    {vote : CommentVoteObject}
    (placed : VotePlaced db after id voter vote)
    (on : vote.comment = id)
    (cast : vote.voter = voter.id) :
    ∃ place, FollowPlugin.findVote after id voter = some (place, vote) := by
  have passes : decide (vote.comment = id ∧ vote.voter = voter.id) = true :=
    decide_eq_true ⟨on, cast⟩
  cases placed with
  | cast first votes =>
      refine ⟨db.commentVotes.nextId, ?_⟩
      unfold FollowPlugin.findVote at first ⊢
      rw [votes, Table.findBy_emplace, first, if_pos passes]
      rfl
  | changed place old earlier votes =>
      refine ⟨place, ?_⟩
      unfold FollowPlugin.findVote at earlier ⊢
      rw [votes, Table.findBy_set (Table.find?_of_findBy earlier)
        (passes.trans (Table.passed_of_findBy earlier).symm), earlier]
      simp

end Standing

/-! ## How the sums move -/

section Credits

variable {db after : Database}
variable {counted : Counted}
variable {author : AccountName}
variable {id : Nat}
variable {voter : AccountObject}
variable {vote : CommentVoteObject}

/-- What the earlier vote of an account on a comment was credited with. -/
def earlierCredit (counted : Counted) (db : Database) (author : AccountName)
    (id : Nat) (voter : AccountObject) : Int :=
  ((FollowPlugin.findVote db id voter).map
    fun entry => credit counted db author entry.2).getD 0

theorem authorOf_of_sees
    (sees : Sees (fun _ => standing) db after)
    (id : Nat) :
    authorOf after id = authorOf db id := by
  have seen := congrArg (Option.map fun view => view.1.key.1) (sees id)
  rw [Option.map_map, Option.map_map] at seen
  exact seen

/-- Only the vote which is noted gets another credit. -/
theorem credit_note_other
    (allowed : Bool)
    {other : CommentVoteObject}
    (different :
      ¬(other.comment = vote.comment ∧ other.voter = vote.voter))
    (same : authorOf after other.comment = authorOf db other.comment) :
    credit (counted.note (some (vote, allowed))) after author other =
      credit counted db author other := by
  simp only [credit, Counted.note, if_neg different, same]

theorem credits_placed
    (once : db.commentVotes.Distinct fun vote => (vote.comment, vote.voter))
    (sees : Sees (fun _ => standing) db after)
    (on : vote.comment = id)
    (cast : vote.voter = voter.id)
    (placed : VotePlaced db after id voter vote)
    (allowed : Bool) :
    credits (counted.note (some (vote, allowed))) after author =
      credits counted db author - earlierCredit counted db author id voter +
        if allowed = true ∧ authorOf db id = some author then worth vote
        else 0 := by
  have own :
      credit (counted.note (some (vote, allowed))) after author vote =
        if allowed = true ∧ authorOf db id = some author then worth vote
        else 0 := by
    simp only [credit, Counted.note, on, and_self, if_true,
      authorOf_of_sees sees]
  cases placed with
  | cast first votes =>
      have before : earlierCredit counted db author id voter = 0 := by
        rw [earlierCredit, first]
        rfl
      rw [credits, votes, Table.sumOf_emplace, own, before, Int.sub_zero,
        credits]
      refine congrArg (· + _) (sumOf_congr ?_)
      intro place other found
      refine credit_note_other allowed ?_ (authorOf_of_sees sees _)
      rw [on, cast]
      exact of_decide_eq_false (Table.refused_of_findBy first found)
  | changed place old earlier votes =>
      have stored := Table.find?_of_findBy earlier
      have before :
          earlierCredit counted db author id voter =
            credit counted db author old := by
        rw [earlierCredit, earlier]
        rfl
      have passed := Table.passed_of_findBy earlier
      rw [decide_eq_true_eq] at passed
      have rest :
          sumOf (credit (counted.note (some (vote, allowed))) after author)
              (db.commentVotes.remove place).rows =
            sumOf (credit counted db author)
              (db.commentVotes.remove place).rows := by
        refine sumOf_congr ?_
        intro other row found
        refine credit_note_other allowed ?_ (authorOf_of_sees sees _)
        rintro ⟨comment, name⟩
        change (db.commentVotes.remove place).find? other = some row at found
        rw [Table.find?_remove] at found
        split at found
        case isTrue => cases found
        case isFalse apart =>
          refine apart (once place other old row stored found ?_)
          exact Prod.ext (passed.1.trans (comment.trans on).symm)
            (passed.2.trans (name.trans cast).symm)
      rw [Table.sumOf_remove _ stored, Table.sumOf_remove _ stored] at rest
      rw [credits, votes, Table.sumOf_set _ stored, own, rest, before, credits]

end Credits

/-! ## The visitors -/

section Visitors

variable {plugin : FollowPlugin}
variable {op : VoteOperation}

theorem reputation_set
    {name : AccountName}
    {held row : ReputationObject}
    (found : plugin.reputations.find? name = some held)
    (other : AccountName) :
    FollowPlugin.reputation
        { plugin with reputations := plugin.reputations.set name row } other =
      if name = other then row.reputation else plugin.reputation other := by
  unfold FollowPlugin.reputation
  rw [Register.find?, Register.set_rows found, getElem?_place]
  split <;> rfl

theorem reputation_emplace
    (name : AccountName)
    (row : ReputationObject)
    (other : AccountName) :
    FollowPlugin.reputation
        { plugin with reputations := plugin.reputations.emplace name row }
        other =
      if name = other then row.reputation else plugin.reputation other := by
  unfold FollowPlugin.reputation
  rw [Register.find?, Register.emplace]
  rw [show plugin.reputations.rows.insert name row =
    place plugin.reputations.rows name (some row) from rfl, getElem?_place]
  split <;> rfl

theorem db_preVote :
    (plugin.preVote op).db = plugin.db := by
  unfold FollowPlugin.preVote
  split
  case h_1 after done =>
    simp only [FollowPlugin.takeOut, bind_eq_ok_iff] at done
    rcases done with ⟨_, -, _, -, done⟩
    split at done
    · cases done
      rfl
    · simp only [bind_eq_ok_iff] at done
      rcases done with ⟨_, -, done⟩
      split at done
      · simp only [bind_eq_ok_iff, pure_eq_ok_iff] at done
        rcases done with ⟨_, -, rfl⟩
        rfl
      · cases done
        rfl
  case h_2 => rfl

/--
The earlier vote can be taken out: it was put in, and the reputation without it
fits; or it is worth nothing.
-/
def Removable (counted : Counted) (plugin : FollowPlugin)
    (op : VoteOperation) : Prop :=
  ∀ id comment voter time place old held,
    plugin.db.findComment op.author op.permlink = some (id, comment) →
    plugin.db.accounts.find? op.voter = some voter →
    plugin.db.calculateDiscussionPayoutTime comment = .ok time →
    time ≠ maximumTime →
    FollowPlugin.findVote plugin.db id voter = some (place, old) →
    plugin.reputations.find? op.author = some held →
      (counted id voter.id = true ∧ FitsInt64 (held.reputation - worth old)) ∨
        worth old = 0

/-- The reputation of the author has room for a vote which the rules allow. -/
def Addable (middle : FollowPlugin) (op : VoteOperation) : Prop :=
  ∀ vote held,
    middle.judge op = .ok (some (vote, true)) →
    middle.reputations.find? op.author = some held →
      FitsInt64 (held.reputation + worth vote)

/-- A vote can be exchanged for an earlier one in the author's reputation. -/
def Exchangeable (counted : Counted) (plugin middle : FollowPlugin)
    (op : VoteOperation) : Prop :=
  Removable counted plugin op ∧ Addable middle op

/-- What the visitor before a vote finds. -/
structure Finds (plugin : FollowPlugin) (op : VoteOperation) (id : Nat)
    (comment : CommentObject) (voter : AccountObject) (time : Time) : Prop where
  found : plugin.db.findComment op.author op.permlink = some (id, comment)
  account : plugin.db.accounts.find? op.voter = some voter
  due : plugin.db.calculateDiscussionPayoutTime comment = .ok time

variable {counted : Counted}
variable {id : Nat}
variable {comment : CommentObject}
variable {voter : AccountObject}
variable {time : Time}

theorem Finds.authorOf
    (finds : Finds plugin op id comment voter time) :
    authorOf plugin.db id = some op.author := by
  have passed := Table.passed_of_findBy finds.found
  rw [decide_eq_true_eq] at passed
  rw [Plugins.authorOf, Table.find?_of_findBy finds.found, Option.map_some]
  exact congrArg some passed.1

/-- The visitor before a vote, from what it finds. -/
theorem takeOut_eq
    (finds : Finds plugin op id comment voter time) :
    plugin.takeOut op =
      if time = maximumTime then .ok plugin
      else
        match FollowPlugin.findVote plugin.db id voter,
            plugin.reputations.find? op.author with
        | some (_, vote), some held => do
            let reputation ← checked (held.reputation - worth vote)
            pure { plugin with
              reputations := plugin.reputations.set op.author
                { held with reputation := reputation } }
        | _, _ => .ok plugin := by
  have first : plugin.db.getComment op.author op.permlink =
      .ok (id, comment) :=
    orFault_eq_ok_iff.2 finds.found
  have account : plugin.db.getAccount op.voter = .ok voter :=
    orFault_eq_ok_iff.2 finds.account
  simp only [FollowPlugin.takeOut, first, account, ok_bind, finds.due]
  rfl

theorem preVote_late
    (finds : Finds plugin op id comment voter time)
    (late : time = maximumTime) :
    plugin.preVote op = plugin := by
  rw [FollowPlugin.preVote, takeOut_eq finds, if_pos late]

/-- The earlier vote leaves the reputations, if it can be taken out. -/
theorem preVote_spec
    (finds : Finds plugin op id comment voter time)
    (early : time ≠ maximumTime)
    (removable : Removable counted plugin op)
    (held : ∀ place old,
      FollowPlugin.findVote plugin.db id voter = some (place, old) →
        counted id voter.id = true →
          plugin.reputations.find? op.author ≠ none)
    (name : AccountName) :
    (plugin.preVote op).reputation name =
        plugin.reputation name -
          earlierCredit counted plugin.db name id voter ∧
      ((plugin.preVote op).reputations.find? name = none ↔
        plugin.reputations.find? name = none) := by
  rw [FollowPlugin.preVote, takeOut_eq finds, if_neg early]
  cases earlier : FollowPlugin.findVote plugin.db id voter with
  | none => simp [earlierCredit, earlier]
  | some entry =>
      rcases entry with ⟨place, old⟩
      have passed := Table.passed_of_findBy earlier
      simp only [decide_eq_true_eq] at passed
      have taken :
          earlierCredit counted plugin.db name id voter =
            if counted id voter.id = true ∧ op.author = name then worth old
            else 0 := by
        simp only [earlierCredit, earlier, Option.map_some, Option.getD_some,
          credit, passed.1, passed.2, finds.authorOf, Option.some.injEq]
      rw [taken]
      cases there : plugin.reputations.find? op.author with
      | none =>
          have uncounted : ¬ counted id voter.id = true := fun counts =>
            held place old earlier counts there
          simp [uncounted]
      | some row =>
          have choice := removable id comment voter time place old row
            finds.found finds.account finds.due early earlier there
          have own : plugin.reputation op.author = row.reputation := by
            rw [FollowPlugin.reputation, there]
            rfl
          by_cases fits : FitsInt64 (row.reputation - worth old)
          · have kept : checked (row.reputation - worth old) =
                .ok (row.reputation - worth old) :=
              checked_eq_ok_iff.2 ⟨fits, rfl⟩
            simp only [kept, ok_bind]
            constructor
            · show FollowPlugin.reputation
                { plugin with
                  reputations := plugin.reputations.set op.author
                    ⟨row.account, row.reputation - worth old⟩ } name = _
              rw [reputation_set there]
              by_cases same : op.author = name
              · rw [if_pos same, ← same, own]
                rcases choice with ⟨counts, -⟩ | nothing
                · rw [if_pos ⟨counts, rfl⟩]
                · rw [nothing, ite_self]
              · rw [if_neg same, if_neg (fun both => same both.2),
                  Int.sub_zero]
            · show (plugin.reputations.set op.author _).find? name = none ↔ _
              rw [Register.find?, Register.set_rows there, getElem?_place]
              split
              case isTrue same =>
                rw [← same, there]
                simp
              case isFalse => rfl
          · have thrown : checked (row.reputation - worth old) =
                .error "overflow" := if_neg fits
            simp only [thrown]
            rcases choice with ⟨-, does⟩ | nothing
            · exact absurd does fits
            · constructor
              · rw [nothing, ite_self, Int.sub_zero]
                rfl
              · rfl

/-- What the decision puts into the reputations. -/
theorem putIn_spec
    {after : FollowPlugin}
    {author : AccountName}
    {vote : CommentVoteObject}
    {allowed : Bool}
    (done : plugin.putIn author (some (vote, allowed)) = .ok after)
    (name : AccountName) :
    after.db = plugin.db ∧
      after.reputation name =
        plugin.reputation name +
          (if allowed = true ∧ author = name then worth vote else 0) ∧
      (after.reputations.find? name = none ↔
        plugin.reputations.find? name = none ∧
          ¬(allowed = true ∧ author = name)) := by
  cases allowed with
  | false =>
      cases done
      simp
  | true =>
      simp only [FollowPlugin.putIn] at done
      split at done
      case h_1 missing =>
        cases done
        refine ⟨rfl, ?_, ?_⟩
        · rw [reputation_emplace]
          by_cases same : author = name
          · subst same
            rw [if_pos rfl, if_pos ⟨rfl, rfl⟩, FollowPlugin.reputation, missing]
            exact (Int.zero_add _).symm
          · rw [if_neg same, if_neg (fun both => same both.2), Int.add_zero]
        · show (plugin.reputations.emplace author _).find? name = none ↔ _
          rw [Register.find?, Register.emplace]
          rw [show plugin.reputations.rows.insert author _ =
            place plugin.reputations.rows author (some _) from rfl,
            getElem?_place]
          by_cases same : author = name
          · simp [same]
          · simp [same, Register.find?]
      case h_2 row there =>
        simp only [bind_eq_ok_iff, checked_eq_ok_iff, pure_eq_ok_iff] at done
        rcases done with ⟨_, ⟨-, rfl⟩, rfl⟩
        refine ⟨rfl, ?_, ?_⟩
        · rw [reputation_set there]
          by_cases same : author = name
          · subst same
            rw [if_pos rfl, if_pos ⟨rfl, rfl⟩, FollowPlugin.reputation, there]
            rfl
          · rw [if_neg same, if_neg (fun both => same both.2), Int.add_zero]
        · show (plugin.reputations.set author _).find? name = none ↔ _
          rw [Register.find?, Register.set_rows there, getElem?_place]
          by_cases same : author = name
          · subst same
            simp
          · simp [same, Register.find?]

/-- A vote is put in as far as there is room for it. -/
theorem putIn_addable
    {vote : CommentVoteObject}
    {allowed : Bool}
    (addable : Addable plugin op)
    (judged : plugin.judge op = .ok (some (vote, allowed))) :
    ∃ after, plugin.putIn op.author (some (vote, allowed)) = .ok after := by
  cases allowed with
  | false => exact ⟨plugin, rfl⟩
  | true =>
      simp only [FollowPlugin.putIn]
      split
      case h_1 => exact ⟨_, rfl⟩
      case h_2 held there =>
        have fits := addable vote held judged there
        rw [checked_eq_ok_iff.2 ⟨fits, rfl⟩]
        exact ⟨_, rfl⟩

theorem judge_late
    (finds : Finds plugin op id comment voter time)
    (late : time = maximumTime) :
    plugin.judge op = .ok none := by
  have first : plugin.db.getComment op.author op.permlink =
      .ok (id, comment) :=
    orFault_eq_ok_iff.2 finds.found
  simp only [FollowPlugin.judge, first, ok_bind, finds.due, if_pos late]
  rfl

theorem judge_early
    (finds : Finds plugin op id comment voter time)
    (early : time ≠ maximumTime)
    {vote : CommentVoteObject}
    (cast : FollowPlugin.findVote plugin.db id voter = some (place, vote)) :
    ∃ allowed, plugin.judge op = .ok (some (vote, allowed)) := by
  have first : plugin.db.getComment op.author op.permlink =
      .ok (id, comment) :=
    orFault_eq_ok_iff.2 finds.found
  have account : plugin.db.getAccount op.voter = .ok voter :=
    orFault_eq_ok_iff.2 finds.account
  refine ⟨FollowPlugin.rulesAllow (plugin.reputations.find? op.voter)
    (plugin.reputations.find? op.author) vote.rshares, ?_⟩
  simp only [FollowPlugin.judge, first, account, ok_bind, finds.due,
    if_neg early, cast, orFault]
  rfl

end Visitors

/-! ## The invariant -/

/--
What the plugin keeps while every earlier vote can be taken out: each account
has one vote on a comment which is there, an author with a vote that was put in
has a reputation, and all reputations are the sums of such votes.
-/
structure ReputationsExact (counted : Counted) (plugin : FollowPlugin) :
    Prop where
  once : plugin.db.commentVotes.Distinct fun vote => (vote.comment, vote.voter)
  known : ∀ place vote, plugin.db.commentVotes.find? place = some vote →
    plugin.db.comments.find? vote.comment ≠ none
  held : ∀ place vote author,
    plugin.db.commentVotes.find? place = some vote →
      counted vote.comment vote.voter = true →
        authorOf plugin.db vote.comment = some author →
          plugin.reputations.find? author ≠ none
  exact : ∀ author,
    plugin.reputation author = credits counted plugin.db author

/-- The part of a vote which the plugin reads. -/
def votePart (vote : CommentVoteObject) : Nat × Nat × Int :=
  (vote.comment, vote.voter, vote.rshares)

/-- What is kept when something else than a vote happens. -/
structure KeepsVotes (before after : Database) : Prop where
  votes : ∀ place, (after.commentVotes.find? place).map votePart =
    (before.commentVotes.find? place).map votePart
  authors : ∀ id author, authorOf before id = some author →
    authorOf after id = some author

section Steps

variable {counted : Counted}
variable {plugin middle after : FollowPlugin}
variable {op : VoteOperation}

theorem authorOf_of_known
    {db later : Database}
    (keeps : KeepsVotes db later)
    {id : Nat}
    (known : db.comments.find? id ≠ none) :
    authorOf later id = authorOf db id := by
  cases found : db.comments.find? id with
  | none => exact absurd found known
  | some comment =>
      have author : authorOf db id = some comment.author := by
        rw [authorOf, found]
        rfl
      rw [author]
      exact keeps.authors id comment.author author

/-- A vote was there before, with the same comment, voter and shares. -/
theorem KeepsVotes.earlier
    {db later : Database}
    (keeps : KeepsVotes db later)
    {vote : CommentVoteObject}
    (found : later.commentVotes.find? place = some vote) :
    ∃ old, db.commentVotes.find? place = some old ∧
      old.comment = vote.comment ∧ old.voter = vote.voter ∧
        old.rshares = vote.rshares := by
  have same := keeps.votes place
  rw [found, Option.map_some, eq_comm, Option.map_eq_some_iff] at same
  rcases same with ⟨old, there, equal⟩
  simp only [votePart, Prod.mk.injEq] at equal
  exact ⟨old, there, equal⟩

/-- A sum over what the plugin reads of the votes is kept. -/
theorem KeepsVotes.sumOf_eq
    {db later : Database}
    (keeps : KeepsVotes db later)
    (measure : Nat × Nat × Int → Int) :
    sumOf (fun vote => measure (votePart vote)) later.commentVotes.rows =
      sumOf (fun vote => measure (votePart vote)) db.commentVotes.rows := by
  have parts : later.commentVotes.rows.map (fun _ vote => votePart vote) =
      db.commentVotes.rows.map fun _ vote => votePart vote := by
    refine Std.ExtTreeMap.ext_getElem? ?_
    intro place
    rw [Std.ExtTreeMap.getElem?_map, Std.ExtTreeMap.getElem?_map]
    exact keeps.votes place
  rw [← sumOf_map measure _ votePart, parts, sumOf_map]

theorem ReputationsExact.between
    {later : Database}
    (exact : ReputationsExact counted plugin)
    (keeps : KeepsVotes plugin.db later) :
    ReputationsExact counted { plugin with db := later } := by
  have same : ∀ place vote, plugin.db.commentVotes.find? place = some vote →
      authorOf later vote.comment = authorOf plugin.db vote.comment :=
    fun place vote found =>
      authorOf_of_known keeps (exact.known place vote found)
  constructor
  case once =>
    intro first second one two foundFirst foundSecond equal
    rcases keeps.earlier foundFirst with ⟨_, stored, comment, voter, -⟩
    rcases keeps.earlier foundSecond with ⟨_, other, second, cast, -⟩
    refine exact.once _ _ _ _ stored other ?_
    rw [Prod.mk.injEq] at equal ⊢
    exact ⟨comment.trans (equal.1.trans second.symm),
      voter.trans (equal.2.trans cast.symm)⟩
  case known =>
    intro place vote found missing
    rcases keeps.earlier found with ⟨old, stored, comment, -⟩
    have author := same place old stored
    change later.comments.find? vote.comment = none at missing
    rw [authorOf, comment, missing, Option.map_none, eq_comm, ← comment,
      authorOf, Option.map_eq_none_iff] at author
    exact exact.known place old stored author
  case held =>
    intro place vote author found counts by'
    rcases keeps.earlier found with ⟨old, stored, comment, voter, -⟩
    refine exact.held place old author stored ?_ ?_
    · rw [comment, voter]
      exact counts
    · rw [← same place old stored, comment]
      exact by'
  case exact =>
    intro author
    let measure (part : Nat × Nat × Int) : Int :=
      if counted part.1 part.2.1 = true ∧ authorOf later part.1 = some author
      then part.2.2 >>> 6 else 0
    refine (exact.exact author).trans ?_
    refine (sumOf_congr ?_).trans (keeps.sumOf_eq measure).symm
    intro place vote found
    simp only [credit, worth, measure, votePart, same place vote found]

/-- A vote operation between the visitors, as far as the plugin sees it. -/
theorem voted_cases
    (voted : plugin.voted ext op = .ok middle) :
    ∃ id comment voter time,
      VoteOutcome plugin.db middle.db op id comment voter time ∧
        middle = { plugin.preVote op with db := middle.db } ∧
          ∃ kept later, Finds middle op id kept later time ∧
            later.id = voter.id := by
  simp only [FollowPlugin.voted, bind_eq_ok_iff, pure_eq_ok_iff,
    db_preVote] at voted
  rcases voted with ⟨db, applied, rfl⟩
  rcases voteOutcome applied with ⟨id, comment, voter, time, outcome⟩
  rcases findComment_of_sees outcome.sees outcome.found with
    ⟨kept, found, same⟩
  have identity := congrFun (touches_vote ext op plugin.db db applied
    (.account .identity) (by decide)) op.voter
  change (db.accounts.find? op.voter).map _ =
    (plugin.db.accounts.find? op.voter).map _ at identity
  rw [outcome.account, Option.map_some, Option.map_eq_some_iff] at identity
  rcases identity with ⟨later, account, equal⟩
  refine ⟨id, comment, voter, time, outcome, rfl, kept, later, ?_,
    congrArg Prod.fst equal⟩
  exact ⟨found, account, payoutTime_of_sees outcome.sees same outcome.due⟩

theorem VoteOutcome.finds
    {id : Nat}
    {comment : CommentObject}
    {voter : AccountObject}
    {time : Time}
    {db : Database}
    (outcome : VoteOutcome plugin.db db op id comment voter time) :
    Finds plugin op id comment voter time :=
  ⟨outcome.found, outcome.account, outcome.due⟩

/-- What a vote operation with both visitors does to a reputation. -/
inductive VoteEffect (counted : Counted) (plugin : FollowPlugin)
    (op : VoteOperation) (after : FollowPlugin) :
    Option (CommentVoteObject × Bool) → Prop
  | late (same : after = plugin) : VoteEffect counted plugin op after none
  | early {id : Nat} {comment : CommentObject} {voter : AccountObject}
      {time : Time} {vote : CommentVoteObject} {allowed : Bool}
      (outcome : VoteOutcome plugin.db after.db op id comment voter time)
      (on : vote.comment = id) (cast : vote.voter = voter.id)
      (placed : VotePlaced plugin.db after.db id voter vote)
      (reputation : ∀ name, after.reputation name =
        plugin.reputation name - earlierCredit counted plugin.db name id voter +
          if allowed = true ∧ op.author = name then worth vote else 0)
      (held : ∀ name, after.reputations.find? name = none ↔
        plugin.reputations.find? name = none ∧
          ¬(allowed = true ∧ op.author = name)) :
      VoteEffect counted plugin op after (some (vote, allowed))

theorem ReputationsExact.effect
    (exact : ReputationsExact counted plugin)
    (exchangeable : Exchangeable counted plugin middle op)
    (voted : plugin.voted ext op = .ok middle) :
    VoteEffect counted plugin op (middle.postVote op)
      (middle.verdict op) := by
  rcases exchangeable with ⟨removable, addable⟩
  rcases voted_cases voted with
    ⟨id, comment, voter, time, outcome, state, kept, later, finds, same⟩
  unfold FollowPlugin.postVote FollowPlugin.verdict
  by_cases late : time = maximumTime
  · rw [judge_late finds late]
    refine .late ?_
    show middle = plugin
    rw [state, preVote_late outcome.finds late, outcome.late late]
  · rcases outcome.placed late with ⟨vote, on, cast, placed⟩
    rcases placed.findVote on cast with ⟨place, there⟩
    have seen : FollowPlugin.findVote middle.db id later =
        some (place, vote) := by
      rw [← there]
      simp only [FollowPlugin.findVote, same]
    rcases judge_early finds late seen with ⟨allowed, judged⟩
    rcases putIn_addable addable judged with ⟨after, done⟩
    rw [judged, ok_bind, done]
    have before := preVote_spec outcome.finds late removable ?_
    · have put := putIn_spec done
      have db : after.db = middle.db := (put op.author).1
      rw [state] at put
      refine .early (db ▸ outcome) on cast (db ▸ placed) ?_ ?_
      · intro name
        rw [(put name).2.1]
        exact congrArg (· + _) (before name).1
      · intro name
        rw [(put name).2.2]
        exact and_congr_left' (before name).2
    · intro spot old earlier counts
      have passed := Table.passed_of_findBy earlier
      simp only [decide_eq_true_eq] at passed
      refine exact.held spot old op.author (Table.find?_of_findBy earlier) ?_ ?_
      · rw [passed.1, passed.2]
        exact counts
      · rw [passed.1]
        exact outcome.finds.authorOf

/-- The rows after a vote: the vote itself, or an old one of another pair. -/
theorem VotePlaced.found
    {db later : Database}
    {id : Nat}
    {voter : AccountObject}
    {vote row : CommentVoteObject}
    (once : db.commentVotes.Distinct fun vote => (vote.comment, vote.voter))
    (placed : VotePlaced db later id voter vote)
    (found : later.commentVotes.find? place = some row) :
    row = vote ∨ (db.commentVotes.find? place = some row ∧
      ¬(row.comment = id ∧ row.voter = voter.id)) := by
  cases placed with
  | cast first votes =>
      rw [votes, Table.find?_emplace] at found
      split at found
      · exact Or.inl (Option.some.inj found).symm
      · exact Or.inr ⟨found,
          of_decide_eq_false (Table.refused_of_findBy first found)⟩
  | changed spot old earlier votes =>
      have stored := Table.find?_of_findBy earlier
      rw [votes, Table.find?_set stored] at found
      split at found
      · exact Or.inl (Option.some.inj found).symm
      case isFalse apart =>
        refine Or.inr ⟨found, ?_⟩
        rintro ⟨comment, name⟩
        have passed := Table.passed_of_findBy earlier
        simp only [decide_eq_true_eq] at passed
        exact apart (once spot place old row stored found
          (Prod.ext (passed.1.trans comment.symm)
            (passed.2.trans name.symm)))

theorem VotePlaced.distinct
    {db later : Database}
    {id : Nat}
    {voter : AccountObject}
    {vote : CommentVoteObject}
    (once : db.commentVotes.Distinct fun vote => (vote.comment, vote.voter))
    (on : vote.comment = id)
    (cast : vote.voter = voter.id)
    (placed : VotePlaced db later id voter vote) :
    later.commentVotes.Distinct fun vote => (vote.comment, vote.voter) := by
  cases placed with
  | cast first votes =>
      rw [votes]
      refine once.emplace ?_
      intro place row there same
      have refused := Table.refused_of_findBy first there
      rw [Prod.mk.injEq, on, cast] at same
      exact of_decide_eq_false refused same
  | changed place old earlier votes =>
      have passed := Table.passed_of_findBy earlier
      simp only [decide_eq_true_eq] at passed
      rw [votes]
      exact once.set (Table.find?_of_findBy earlier)
        (Prod.ext (on.trans passed.1.symm) (cast.trans passed.2.symm))

/-- A vote operation keeps the invariant. -/
theorem ReputationsExact.vote
    {verdict : Option (CommentVoteObject × Bool)}
    (exact : ReputationsExact counted plugin)
    (effect : VoteEffect counted plugin op after verdict) :
    ReputationsExact (counted.note verdict) after := by
  cases effect with
  | late same => exact same ▸ exact
  | @early id comment voter time vote allowed outcome on cast placed reputation
      held =>
      have author := outcome.finds.authorOf
      constructor
      case once => exact placed.distinct exact.once on cast
      case known =>
        intro place row found
        refine outcome.sees.ne_none ?_
        rcases placed.found exact.once found with rfl | ⟨there, -⟩
        · rw [on, Table.find?_of_findBy outcome.found]
          exact Option.some_ne_none _
        · exact exact.known place row there
      case held =>
        intro place row name found counts wrote missing
        rw [authorOf_of_sees outcome.sees] at wrote
        have free := (held name).1 missing
        rcases placed.found exact.once found with rfl | ⟨there, other⟩
        · rw [on, author] at wrote
          simp only [Counted.note, and_self, if_true] at counts
          exact free.2 ⟨counts, Option.some.inj wrote⟩
        · simp only [Counted.note, on, cast, if_neg other] at counts
          exact exact.held place row name there counts wrote free.1
      case exact =>
        intro name
        rw [reputation name, exact.exact name,
          credits_placed exact.once outcome.sees on cast placed allowed,
          author]
        simp only [Option.some.injEq]

end Steps

/-! ## Runs of votes -/

/--
The states which votes lead to from a database without votes, with the votes
which were put in.  Between the votes anything may happen which leaves the
comments, the voters and the shares of the votes as they are, as payouts do,
and deletes no comment.
-/
inductive VoteRun (ext : External)
    (allowed : Counted → FollowPlugin → FollowPlugin → VoteOperation → Prop)
    (start : Database) : Counted → FollowPlugin → Prop
  | start : VoteRun ext allowed start (fun _ _ => false) ⟨start, .empty⟩
  | vote {counted : Counted} {plugin middle : FollowPlugin}
      (op : VoteOperation) :
      VoteRun ext allowed start counted plugin →
        allowed counted plugin middle op →
          plugin.voted ext op = .ok middle →
            VoteRun ext allowed start (counted.note (middle.verdict op))
              (middle.postVote op)
  | between {counted : Counted} {plugin : FollowPlugin} {later : Database}
      (event : Event) :
      VoteRun ext allowed start counted plugin →
        plugin.db.step ext event = .ok later → KeepsVotes plugin.db later →
          VoteRun ext allowed start counted { plugin with db := later }

theorem VoteRun.reputationsExact
    {counted : Counted}
    {plugin : FollowPlugin}
    (unvoted : start.commentVotes.rows = ∅)
    (run : VoteRun ext Exchangeable start counted plugin) :
    ReputationsExact counted plugin := by
  have none : ∀ place, start.commentVotes.find? place = none := by
    intro place
    rw [Table.find?, unvoted]
    simp
  induction run with
  | start =>
      constructor
      case once =>
        intro first second row other found
        cases (none first).symm.trans found
      case known =>
        intro place vote found
        cases (none place).symm.trans found
      case held =>
        intro place vote author found
        cases (none place).symm.trans found
      case exact =>
        intro author
        show (0 : Int) = sumOf _ start.commentVotes.rows
        rw [unvoted]
        rfl
  | vote op _ exchangeable voted induction =>
      exact induction.vote (induction.effect exchangeable voted)
  | between event _ _ keeps induction => exact induction.between keeps

/--
In every run in which each changed vote had been put in, and no reputation runs
out of 64 bits, every reputation is the sum over the votes which were put in, and
a vote which the rules refuse does no more than take out what the voter's earlier
vote had put in.
-/
theorem reputation_counts
    {ext : External}
    {start : Database}
    {counted : Counted}
    {plugin : FollowPlugin}
    (unvoted : start.commentVotes.rows = ∅)
    (run : VoteRun ext Exchangeable start counted plugin) :
    (∀ author, plugin.reputation author = credits counted plugin.db author) ∧
      ∀ (op : VoteOperation) (middle : FollowPlugin)
          (vote : CommentVoteObject),
        Removable counted plugin op → plugin.voted ext op = .ok middle →
          middle.judge op = .ok (some (vote, false)) →
            ∃ id voter,
              vote.comment = id ∧ vote.voter = voter.id ∧
                ∀ author, (middle.postVote op).reputation author =
                  plugin.reputation author -
                    earlierCredit counted plugin.db author id voter := by
  have exact := run.reputationsExact unvoted
  refine ⟨exact.exact, ?_⟩
  intro op middle vote removable voted judged
  have addable : Addable middle op := by
    intro other held allowed
    rw [judged] at allowed
    cases allowed
  have effect := exact.effect ⟨removable, addable⟩ voted
  rw [FollowPlugin.verdict, judged] at effect
  cases effect with
  | @early id comment voter _ _ _ outcome on cast placed reputation held =>
      refine ⟨id, voter, on, cast, ?_⟩
      intro author
      rw [reputation author]
      simp

/-! ## Playing a run -/

deriving instance DecidableEq for CommentVoteObject

/-- A check of `KeepsVotes`. -/
def keepsVotes (before after : Database) : Bool :=
  (after.commentVotes.entries.map fun entry => (entry.1, votePart entry.2)) =
      (before.commentVotes.entries.map
        fun entry => (entry.1, votePart entry.2)) &&
    before.comments.entries.all fun entry =>
      authorOf after entry.1 = some entry.2.author

theorem keepsVotes_sound
    {before after : Database}
    (passed : keepsVotes before after = true) :
    KeepsVotes before after := by
  simp only [keepsVotes, Bool.and_eq_true, decide_eq_true_eq,
    List.all_eq_true] at passed
  rcases passed with ⟨rows, authors⟩
  constructor
  case votes =>
    have same : after.commentVotes.rows.map (fun _ vote => votePart vote) =
        before.commentVotes.rows.map fun _ vote => votePart vote := by
      refine Std.ExtTreeMap.toList_inj.1 ?_
      rw [Std.ExtTreeMap.toList_map, Std.ExtTreeMap.toList_map]
      exact rows
    intro place
    have there := congrArg (fun rows => rows[place]?) same
    simp only [Std.ExtTreeMap.getElem?_map] at there
    exact there
  case authors =>
    intro id author wrote
    rcases Option.map_eq_some_iff.1 wrote with ⟨comment, found, rfl⟩
    exact authors (id, comment)
      (Std.ExtTreeMap.mem_toList_iff_getElem?_eq_some.2 found)

/-- A check of `Removable`. -/
def removable (counted : Counted) (plugin : FollowPlugin)
    (op : VoteOperation) : Bool :=
  match plugin.db.findComment op.author op.permlink,
      plugin.db.accounts.find? op.voter with
  | some (id, _), some voter =>
      match FollowPlugin.findVote plugin.db id voter,
          plugin.reputations.find? op.author with
      | some (_, old), some held =>
          (counted id voter.id && FitsInt64 (held.reputation - worth old)) ||
            worth old = 0
      | _, _ => true
  | _, _ => true

theorem removable_sound
    (counted : Counted)
    (plugin : FollowPlugin)
    (op : VoteOperation)
    (passed : removable counted plugin op = true) :
    Removable counted plugin op := by
  intro id comment voter time place old held found account _ _ earlier there
  simpa [removable, found, account, earlier, there] using passed

/-- A check of `Addable`. -/
def addable (middle : FollowPlugin) (op : VoteOperation) : Bool :=
  match middle.verdict op, middle.reputations.find? op.author with
  | some (vote, true), some held => FitsInt64 (held.reputation + worth vote)
  | _, _ => true

/-- A check of `Exchangeable`. -/
def exchangeable (counted : Counted) (plugin middle : FollowPlugin)
    (op : VoteOperation) : Bool :=
  removable counted plugin op && addable middle op

theorem exchangeable_sound
    (counted : Counted)
    (plugin middle : FollowPlugin)
    (op : VoteOperation)
    (passed : exchangeable counted plugin middle op = true) :
    Exchangeable counted plugin middle op := by
  rw [exchangeable, Bool.and_eq_true] at passed
  refine ⟨removable_sound counted plugin op passed.1, ?_⟩
  intro vote held judged there
  simpa [addable, FollowPlugin.verdict, judged, there] using passed.2

/-- A vote, or an event between votes. -/
inductive VoteEvent where
  | vote (op : VoteOperation)
  | other (event : Event)

/-- One event of a run, with a check of its votes. -/
def playVote
    (ext : External)
    (check : Counted → FollowPlugin → FollowPlugin → VoteOperation → Bool)
    (state : Counted × FollowPlugin) :
    VoteEvent → Except Fault (Counted × FollowPlugin)
  | .vote op => do
      let middle ← state.2.voted ext op
      require (check state.1 state.2 middle op) "check"
      pure (state.1.note (middle.verdict op), middle.postVote op)
  | .other event => do
      let later ← state.2.db.step ext event
      require (keepsVotes state.2.db later) "keepsVotes"
      pure (state.1, { state.2 with db := later })

theorem VoteRun.of_play
    {check : Counted → FollowPlugin → FollowPlugin → VoteOperation → Bool}
    {allowed : Counted → FollowPlugin → FollowPlugin → VoteOperation → Prop}
    (implied : ∀ counted plugin middle op,
      check counted plugin middle op = true →
        allowed counted plugin middle op)
    {state final : Counted × FollowPlugin}
    {events : List VoteEvent}
    (run : VoteRun ext allowed start state.1 state.2)
    (played : events.foldlM (playVote ext check) state = .ok final) :
    VoteRun ext allowed start final.1 final.2 := by
  refine foldlM_invariant
    (fun state : Counted × FollowPlugin =>
      VoteRun ext allowed start state.1 state.2) ?_ played run
  intro state event next _ stepped before
  cases event with
  | vote op =>
      simp only [playVote, bind_eq_ok_iff, require_eq_ok_iff,
        pure_eq_ok_iff] at stepped
      rcases stepped with ⟨middle, voted, _, passed, rfl⟩
      exact before.vote op (implied _ _ _ op passed) voted
  | other event =>
      simp only [playVote, bind_eq_ok_iff, require_eq_ok_iff,
        pure_eq_ok_iff] at stepped
      rcases stepped with ⟨later, stepped, _, kept, rfl⟩
      exact before.between event stepped (keepsVotes_sound kept)

/-- The state after `initminer` has posted. -/
def postedStart : Database :=
  match initGenesis.step plainExternal
      (.operation (samplePost initMinerName)) with
  | .ok db => db
  | .error _ => initGenesis

/-- A vote on that post. -/
def voteOn (voter : AccountName) (weight : Int) : VoteOperation :=
  { voter := voter
    author := initMinerName
    permlink := [97]
    weight := weight
    commentBmchain := [] }

/--
`devs` votes for the post and `initminer` against it, which the rules refuse;
three seconds later `initminer` votes for it.
-/
def refusedThenChanged : List VoteEvent :=
  [.vote (voteOn "devs" 10000), .vote (voteOn initMinerName (-5000)),
    .other (.beginBlock firstHeader), .other (.finishBlock firstHeader),
    .vote (voteOn initMinerName 10000)]

/--
After that the reputation of `initminer` is higher than the votes which were
put in: the vote against the post was never put in, and yet it was taken out.
-/
theorem refused_vote_is_taken_out :
    ∃ counted plugin,
      Reachable plainExternal postedStart ∧
        postedStart.commentVotes.rows = ∅ ∧
          VoteRun plainExternal (fun _ _ _ _ => True) postedStart counted
              plugin ∧
            credits counted plugin.db initMinerName <
              plugin.reputation initMinerName := by
  have ran : (refusedThenChanged.foldlM
      (playVote plainExternal fun _ _ _ _ => true)
      (fun _ _ => false, ⟨postedStart, .empty⟩)).bind (fun state =>
        require
          (credits state.1 state.2.db initMinerName <
            state.2.reputation initMinerName) "") = .ok () := by
    decide +kernel
  rcases (bind_eq_ok_iff _ _ _).1 ran with ⟨⟨counted, plugin⟩, played, less⟩
  rw [require_eq_ok_iff] at less
  have posted : (initGenesis.step plainExternal
      (.operation (samplePost initMinerName))).isOk = true := by
    decide +kernel
  rcases exists_of_isOk posted with ⟨start, stepped⟩
  have equal : postedStart = start := by
    rw [postedStart, stepped]
  refine ⟨counted, plugin, ⟨none, ?_⟩, ?_, ?_, less⟩
  · rw [equal]
    exact .step _ .genesis (.operation _ none) trivial stepped
  · exact Std.ExtTreeMap.toList_inj.1 (by decide +kernel)
  · exact VoteRun.of_play (fun _ _ _ _ _ => trivial) .start played

/-- `devs` votes for the post, `initminer` against it, and `devs` changes the
vote three seconds later. -/
def countedThenChanged : List VoteEvent :=
  [.vote (voteOn "devs" 10000), .vote (voteOn initMinerName (-5000)),
    .other (.beginBlock firstHeader), .other (.finishBlock firstHeader),
    .vote (voteOn "devs" 5000)]

/-- Here every vote which is changed had been put in. -/
theorem reputation_counts_changed :
    ∃ counted plugin,
      VoteRun plainExternal Exchangeable postedStart counted plugin ∧
        plugin.reputation initMinerName =
          credits counted plugin.db initMinerName ∧
        0 < plugin.reputation initMinerName := by
  have ran : (countedThenChanged.foldlM (playVote plainExternal exchangeable)
      (fun _ _ => false, ⟨postedStart, .empty⟩)).bind (fun state =>
        require (0 < state.2.reputation initMinerName) "") = .ok () := by
    decide +kernel
  rcases (bind_eq_ok_iff _ _ _).1 ran with ⟨⟨counted, plugin⟩, played, some⟩
  rw [require_eq_ok_iff] at some
  have run : VoteRun plainExternal Exchangeable postedStart counted plugin :=
    VoteRun.of_play exchangeable_sound .start played
  have unvoted : postedStart.commentVotes.rows = ∅ :=
    Std.ExtTreeMap.toList_inj.1 (by decide +kernel)
  exact ⟨counted, plugin, run, (reputation_counts unvoted run).1 _, some⟩

end BMChain.Plugins
