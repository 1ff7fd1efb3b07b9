import BMChain.Foundation.CountedForest
import BMChain.State.FootprintBlock

/-!
# What is kept of the comments

Most changes of a comment leave its place in the discussion and the totals of
its votes.  Comments are looked at through a view, and a computation which
changes nothing that the view shows is found as such by the rules for
relations which computations respect.
-/

namespace BMChain.State

open BMChain.Foundation BMChain.Protocol Std

variable {ext : External} {rewardBalance claimed : Int}

/-! ## Views of a comment -/

/-- The place of a comment in its discussion. -/
def CommentObject.node (comment : CommentObject) :
    CountedNode (AccountName × Text) where
  key := (comment.author, cString comment.permlink)
  upper :=
    if comment.parentAuthor = "" then none
    else some (comment.parentAuthor, cString comment.parentPermlink)
  depth := comment.depth
  root := comment.rootComment
  count := comment.children

/-- The totals of the votes on a comment since its last payout. -/
structure VoteTotals where
  netRshares : Int
  absRshares : Int
  netVotes : Int
  lastPayout : Time

/-- The totals which a comment keeps. -/
def CommentObject.totals (comment : CommentObject) : VoteTotals where
  netRshares := comment.netRshares
  absRshares := comment.absRshares
  netVotes := comment.netVotes
  lastPayout := comment.lastPayout

/-- What a comment keeps of the weights of its votes. -/
structure Weighing where
  totalVoteWeight : Nat
  voteRshares : Int
  lastPayout : Time
  created : Time

/-- The weights which a comment keeps. -/
def CommentObject.weighing (comment : CommentObject) : Weighing where
  totalVoteWeight := comment.totalVoteWeight
  voteRshares := comment.voteRshares
  lastPayout := comment.lastPayout
  created := comment.created

/-- The place of a comment and its totals. -/
def CommentObject.core (comment : CommentObject) :
    CountedNode (AccountName × Text) × VoteTotals :=
  (comment.node, comment.totals)

/-- What only votes and payouts change of a comment. -/
def CommentObject.record (comment : CommentObject) :
    (CountedNode (AccountName × Text) × VoteTotals) × Weighing × Time :=
  (comment.core, comment.weighing, comment.cashoutTime)

/-- All of a comment, or only its place if it is the given one. -/
def CommentObject.besides (paid id : Nat) (comment : CommentObject) :
    CountedNode (AccountName × Text) ⊕ CommentObject :=
  if id = paid then .inl comment.node else .inr comment

namespace Database

variable {View : Type} {view : Nat → CommentObject → View}

/-- Two states show the same comments in a view. -/
def Sees (view : Nat → CommentObject → View) (before after : Database) :
    Prop :=
  ∀ id, (after.comments.find? id).map (view id) =
    (before.comments.find? id).map (view id)

instance : IsPreorder Database (Sees view) where
  refl _ _ := rfl
  trans _ _ _ first second id := (second id).trans (first id)

theorem Sees.of_comments
    {before after : Database}
    (same : after.comments = before.comments) :
    Sees view before after := by
  intro id
  rw [same]

theorem Sees.of_agrees
    {fields : List Field}
    {before after : Database}
    (agrees : Agrees fields before after)
    (separate : apart [.comments] fields = true) :
    Sees view before after :=
  .of_comments (agrees.read_eq separate (List.mem_singleton.2 rfl))

/-- A view which shows less sees the same. -/
theorem Sees.map
    {Less : Type}
    {less : Nat → CommentObject → Less}
    {before after : Database}
    (sees : Sees view before after)
    (part : Nat → View → Less)
    (shown : ∀ id comment, less id comment = part id (view id comment)) :
    Sees less before after := by
  intro id
  have seen := congrArg (Option.map (part id)) (sees id)
  rw [Option.map_map, Option.map_map] at seen
  rw [show less id = part id ∘ view id from funext (shown id)]
  exact seen

/-- A comment which is there was there, with the same view. -/
theorem Sees.found
    {before after : Database}
    (sees : Sees view before after)
    {id : Nat}
    {comment : CommentObject}
    (found : after.comments.find? id = some comment) :
    ∃ old, before.comments.find? id = some old ∧
      view id old = view id comment := by
  have seen := sees id
  rw [found, Option.map_some, eq_comm, Option.map_eq_some_iff] at seen
  exact seen

theorem Sees.ne_none
    {before after : Database}
    (sees : Sees view before after)
    {id : Nat}
    (there : before.comments.find? id ≠ none) :
    after.comments.find? id ≠ none := by
  intro none
  have seen := sees id
  rw [none, Option.map_none, eq_comm, Option.map_eq_none_iff] at seen
  exact there seen

/-- The comments besides one are the same. -/
theorem Sees.eq_of_ne
    {before after : Database}
    {paid other : Nat}
    (sees : Sees (CommentObject.besides paid) before after)
    (different : other ≠ paid) :
    after.comments.find? other = before.comments.find? other := by
  have shown : CommentObject.besides paid other = Sum.inr := by
    funext comment
    exact if_neg different
  have seen := sees other
  rw [shown] at seen
  exact Option.map_injective Sum.inr_injective seen

/-- A comment which is written over by one of the same view. -/
theorem sees_set
    {db : Database}
    {id : Nat}
    {old comment : CommentObject}
    (found : db.comments.find? id = some old)
    (kept : view id comment = view id old) :
    Sees view db { db with comments := db.comments.set id comment } := by
  intro other
  dsimp only
  rw [Table.find?_set found]
  split
  case isTrue same =>
    subst same
    rw [found, Option.map_some, Option.map_some, kept]
  case isFalse => rfl

theorem sees_modifyComment
    (db : Database)
    (id : Nat)
    {change : CommentObject → Except Fault CommentObject}
    (kept : ∀ comment changed, change comment = .ok changed →
      view id changed = view id comment) :
    Respects (Sees view) db (db.modifyComment id change) := by
  intro after done
  simp only [modifyComment, modifyRow, bind_eq_ok_iff, orFault_eq_ok_iff,
    pure_eq_ok_iff] at done
  rcases done with ⟨_, ⟨old, found, changed, change, rfl⟩, rfl⟩
  exact sees_set found (kept old changed change)

theorem sees_modifyComment_pure
    (db : Database)
    (id : Nat)
    {change : CommentObject → CommentObject}
    (kept : ∀ comment, view id (change comment) = view id comment) :
    Respects (Sees view) db
      (db.modifyComment id fun comment => pure (change comment)) := by
  refine sees_modifyComment db id ?_
  intro comment changed equal
  cases equal
  exact kept comment

/-- The walk to the top keeps what its change keeps. -/
theorem sees_updateParents
    {change : CommentObject → CommentObject}
    (kept : ∀ id comment, view id (change comment) = view id comment)
    (rounds : Nat)
    (db : Database)
    (author : AccountName)
    (permlink : Text) :
    Respects (Sees view) db
      (updateParents change rounds db author permlink) := by
  induction rounds generalizing db author permlink with
  | zero => exact .error _
  | succ rounds induction =>
      unfold updateParents
      split
      · exact .unchanged
      · refine .read fun parent _ => ?_
        refine .bind (sees_modifyComment_pure db _ (kept _)) ?_
        exact fun changed => induction changed _ _

/-! ## Edits and options -/

theorem sees_commentOptions
    (op : CommentOptionsOperation)
    (db : Database) :
    Respects (Sees fun _ => CommentObject.record) db
      (db.commentOptionsEvaluator op) := by
  refine .read fun _ _ => .read fun _ _ => .read fun _ _ => ?_
  refine .read fun _ _ => .read fun _ _ => .read fun _ _ => ?_
  refine .read fun _ _ => .read fun _ _ => ?_
  refine .bind (sees_modifyComment_pure db _ fun comment => rfl) ?_
  refine fun changed => .foldlM _ fun state extension => ?_
  cases extension with
  | payoutBeneficiaries beneficiaries =>
      refine sees_modifyComment state _ ?_
      intro comment changed equal
      simp only [bind_eq_ok_iff, pure_eq_ok_iff] at equal
      rcases equal with ⟨_, -, _, -, _, -, rfl⟩
      rfl
  | curationRewardsPercent percent =>
      exact .read fun _ _ =>
        sees_modifyComment_pure state _ fun comment => rfl

theorem sees_editComment
    (ext : External)
    (db : Database)
    (id : Nat)
    (op : CommentOperation) :
    Respects (Sees fun _ => CommentObject.record) db
      (db.editComment ext id op) := by
  refine sees_modifyComment db id ?_
  intro comment changed equal
  simp only [bind_eq_ok_iff, pure_eq_ok_iff] at equal
  rcases equal with ⟨_, -, _, -, rfl⟩
  rfl

/-! ## Votes -/

section Votes

variable {db after : Database} {op : VoteOperation} {id : Nat}
    {comment : CommentObject} {power : VotePower}

theorem sees_addChildrenRshares
    (db : Database)
    (root : Nat)
    (absRshares : Int) :
    Respects (Sees fun _ => CommentObject.record) db
      (db.addChildrenRshares root absRshares) := by
  refine sees_modifyComment db root ?_
  intro comment changed equal
  simp only [bind_eq_ok_iff, pure_eq_ok_iff] at equal
  rcases equal with ⟨_, -, rfl⟩
  rfl

/-- The shares of a vote with its sign. -/
def voteRshares (op : VoteOperation) (power : VotePower) : Int :=
  if op.weight < 0 then -power.absRshares else power.absRshares

/-- A first vote is put in, and its comment gets the new totals. -/
theorem castVote_cases
    {voter : AccountObject}
    (done : db.castVote ext op voter id comment power = .ok after) :
    ∃ voted vote,
      voted.node = comment.node ∧
        voted.totals =
          { netRshares := comment.netRshares + voteRshares op power
            absRshares := comment.absRshares + power.absRshares
            netVotes :=
              if 0 < voteRshares op power then
                (comment.netVotes + 1).bmod (2 ^ 32)
              else (comment.netVotes - 1).bmod (2 ^ 32)
            lastPayout := comment.lastPayout } ∧
        FitsInt64 voted.netRshares ∧
        (vote.comment = id ∧ vote.voter = voter.id ∧
          vote.rshares = voteRshares op power) ∧
        0 < power.absRshares ∧
        after.commentVotes = db.commentVotes.emplace vote ∧
        Sees (fun _ => CommentObject.core)
          { db with comments := db.comments.set id voted } after := by
  simp only [castVote, bind_eq_ok_iff, require_eq_ok_iff,
    checked_eq_ok_iff] at done
  rcases done with ⟨_, -, _, -, spent, spend, _, -, _, positive, done⟩
  rcases done with ⟨_, ⟨fits, rfl⟩, _, ⟨-, rfl⟩, upvotes, -, done⟩
  rcases done with ⟨counted, count, _, -, weighed, weigh, pay⟩
  have comments : spent.comments = db.comments :=
    touches_spendVotePower db _ _ spent spend .comments (by decide)
  have votes : spent.commentVotes = db.commentVotes :=
    touches_spendVotePower db _ _ spent spend .commentVotes (by decide)
  refine ⟨?voted, ?vote, ?node, ?totals, ?fits, ?fields, positive, ?votes,
    ?sees⟩
  case votes =>
    have added := touches_addChildrenRshares _ _ _ counted count .commentVotes
      (by decide)
    have noted := touches_modifyComment _ _ _ weighed weigh .commentVotes
      (by decide)
    have paid := touches_processFundsBmchain weighed _ after pay .commentVotes
      (by decide)
    have stored : after.commentVotes = counted.commentVotes.emplace _ :=
      paid.trans noted
    have kept : counted.commentVotes = db.commentVotes := added.trans votes
    rw [kept] at stored
    exact stored
  case sees =>
    have added := (sees_addChildrenRshares _ _ _ counted count).map
      (fun _ => Prod.fst) fun _ _ => rfl
    have noted : Sees (fun _ => CommentObject.core) counted weighed := by
      refine trans_of _ (Sees.of_comments rfl)
        (sees_modifyComment_pure _ id ?_ weighed weigh)
      exact fun comment => rfl
    have paid : Sees (fun _ => CommentObject.core) weighed after :=
      .of_agrees (touches_processFundsBmchain weighed _ after pay) rfl
    rw [← comments]
    exact trans_of _ added (trans_of _ noted paid)
  case node => rfl
  case totals => rfl
  case fits => exact fits
  case fields => exact ⟨rfl, rfl, rfl⟩

/-- A vote is changed, and its comment gets the new totals. -/
theorem changeVote_cases
    {voteId : Nat}
    {vote : CommentVoteObject}
    (done : db.changeVote op id comment voteId vote power = .ok after) :
    ∃ voted changed,
      voted.node = comment.node ∧
        voted.totals =
          { netRshares :=
              comment.netRshares - vote.rshares + voteRshares op power
            absRshares := comment.absRshares + power.absRshares
            netVotes :=
              (comment.netVotes +
                netVotesChange vote.rshares (voteRshares op power)).bmod
                  (2 ^ 32)
            lastPayout := comment.lastPayout } ∧
        FitsInt64 voted.netRshares ∧
        (changed.comment = vote.comment ∧ changed.voter = vote.voter ∧
          changed.rshares = voteRshares op power) ∧
        after.commentVotes = db.commentVotes.set voteId changed ∧
        Sees (fun _ => CommentObject.core)
          { db with comments := db.comments.set id voted } after := by
  simp only [changeVote, bind_eq_ok_iff, checked_eq_ok_iff,
    pure_eq_ok_iff] at done
  rcases done with ⟨_, -, _, -, spent, spend, _, -, _, ⟨-, rfl⟩, done⟩
  rcases done with ⟨_, ⟨fits, rfl⟩, _, ⟨-, rfl⟩, counted, count, done⟩
  rcases done with ⟨weighed, weigh, rfl⟩
  have comments : spent.comments = db.comments :=
    touches_spendVotePower db _ _ spent spend .comments (by decide)
  have votes : spent.commentVotes = db.commentVotes :=
    touches_spendVotePower db _ _ spent spend .commentVotes (by decide)
  refine ⟨?voted, ?changed, ?node, ?totals, ?fits, ?fields, ?votes, ?sees⟩
  case votes =>
    have added := touches_addChildrenRshares _ _ _ counted count .commentVotes
      (by decide)
    have noted := touches_modifyComment _ _ _ weighed weigh .commentVotes
      (by decide)
    have kept : weighed.commentVotes = db.commentVotes :=
      noted.trans (added.trans votes)
    dsimp only
    rw [kept]
  case sees =>
    have added := (sees_addChildrenRshares _ _ _ counted count).map
      (fun _ => Prod.fst) fun _ _ => rfl
    have noted : Sees (fun _ => CommentObject.core) counted weighed := by
      refine sees_modifyComment_pure _ id ?_ weighed weigh
      exact fun comment => rfl
    rw [← comments]
    exact trans_of _ added (trans_of _ noted (.of_comments rfl))
  case node => rfl
  case totals => rfl
  case fits => exact fits
  case fields => exact ⟨rfl, rfl, rfl⟩

/-- What comes of a vote: nothing, a first vote, or a changed one. -/
inductive Voted (ext : External) (db : Database) (op : VoteOperation)
    (after : Database) : Prop
  | late (same : after = db)
  | cast (id : Nat) (comment : CommentObject) (voter : AccountObject)
      (power : VotePower) (stored : db.comments.find? id = some comment)
      (account : db.accounts.find? op.voter = some voter)
      (powered : db.votePower voter op.weight = .ok power)
      (first : db.commentVotes.findBy (fun vote =>
        vote.comment = id ∧ vote.voter = voter.id) = none)
      (done : db.castVote ext op voter id comment power = .ok after)
  | changed (id : Nat) (comment : CommentObject) (voter : AccountObject)
      (power : VotePower) (voteId : Nat) (vote : CommentVoteObject)
      (stored : db.comments.find? id = some comment)
      (account : db.accounts.find? op.voter = some voter)
      (powered : db.votePower voter op.weight = .ok power)
      (earlier : db.commentVotes.findBy (fun vote =>
        vote.comment = id ∧ vote.voter = voter.id) = some (voteId, vote))
      (done : db.changeVote op id comment voteId vote power = .ok after)

theorem voted_vote
    (done : db.voteEvaluator ext op = .ok after) :
    Voted ext db op after := by
  simp only [voteEvaluator, bind_eq_ok_iff, getComment, getAccount,
    orFault_eq_ok_iff] at done
  rcases done with ⟨⟨id, comment⟩, found, voter, account, done⟩
  rcases done with ⟨_, -, _, -, _, -, payoutTime, -, done⟩
  have stored := Table.find?_of_findBy found
  split at done
  case isTrue => exact .late (pure_eq_ok_iff _ _ |>.1 done).symm
  case isFalse =>
    simp only [bind_eq_ok_iff] at done
    rcases done with ⟨power, powered, done⟩
    split at done
    case h_1 first =>
      exact .cast id comment voter power stored account powered first done
    case h_2 voteId vote earlier =>
      exact .changed id comment voter power voteId vote stored account powered
        earlier done

/-- A vote keeps the places of the comments. -/
theorem sees_vote
    (ext : External)
    (op : VoteOperation)
    (db : Database) :
    Respects (Sees fun _ => CommentObject.node) db
      (db.voteEvaluator ext op) := by
  intro after done
  have kept : ∀ {id comment voted}, db.comments.find? id = some comment →
      CommentObject.node voted = comment.node →
        Sees (fun _ => CommentObject.core)
            { db with comments := db.comments.set id voted } after →
          Sees (fun _ => CommentObject.node) db after := by
    intro id comment voted stored node sees
    exact trans_of _ (sees_set stored node)
      (sees.map (fun _ => Prod.fst) fun _ _ => rfl)
  cases voted_vote done with
  | late same =>
      subst same
      exact refl_of _ after
  | cast id comment voter power stored account powered first done =>
      rcases castVote_cases done with ⟨voted, _, node, -, -, -, -, -, sees⟩
      exact kept stored node sees
  | changed id comment voter power voteId vote stored account powered earlier
      done =>
      rcases changeVote_cases done with ⟨voted, _, node, -, -, -, -, sees⟩
      exact kept stored node sees

end Votes

/-! ## New comments -/

/--
What comes of a comment or of encrypted content: the edit of a comment, or a
new one which is stored in a state with the same comments.
-/
inductive Written (ext : External) (db : Database) (op : CommentOperation)
    (after : Database) : Prop
  | edited (sees : Sees (fun _ => CommentObject.core) db after)
  | stored (later : Database) (parent : Option CommentObject)
      (comment : CommentObject) (same : later.comments = db.comments)
      (fresh : db.findComment op.author op.permlink = none)
      (found : db.findParent op = .ok parent)
      (core : comment.core = (later.freshComment ext op parent).core)
      (done : later.storeComment op comment = .ok after)

theorem core_encryptComment
    {db : Database}
    {op : EncryptedContentOperation}
    {comment encrypted : CommentObject}
    (done : db.encryptComment ext op comment = .ok encrypted) :
    encrypted.core = comment.core := by
  simp only [encryptComment, bind_eq_ok_iff] at done
  rcases done with ⟨_, -, done⟩
  split at done <;> cases done <;> rfl

theorem written_comment
    {op : CommentOperation}
    {db after : Database}
    (done : db.commentEvaluator ext op = .ok after) :
    Written ext db op after := by
  simp only [commentEvaluator, checkComment, bind_eq_ok_iff,
    pure_eq_ok_iff] at done
  rcases done with ⟨_, ⟨_, -, _, -, _, -, parent, found, _, -, rfl⟩, done⟩
  split at done
  case h_1 fresh =>
    simp only [bind_eq_ok_iff] at done
    rcases done with ⟨_, -, _, -, counted, count, stored⟩
    have same : counted.comments = db.comments :=
      touches_countPost db op counted count .comments (by decide)
    exact .stored counted parent _ same fresh found rfl stored
  case h_2 =>
    have sees := sees_editComment ext db _ op after done
    exact .edited (sees.map (fun _ => Prod.fst) fun _ _ => rfl)

theorem written_encryptedContent
    {op : EncryptedContentOperation}
    {db after : Database}
    (done : db.encryptedContentEvaluator ext op = .ok after) :
    Written ext db op.toCommentOperation after := by
  simp only [encryptedContentEvaluator, checkComment, bind_eq_ok_iff,
    pure_eq_ok_iff] at done
  rcases done with
    ⟨_, ⟨_, -, _, -, _, -, parent, found, _, -, rfl⟩, settled, settle, done⟩
  have kept : settled.comments = db.comments := by
    split at settle
    · exact touches_settleOrder db _ _ settled settle .comments (by decide)
    · cases settle
      rfl
  split at done
  case h_1 fresh =>
    simp only [bind_eq_ok_iff] at done
    rcases done with ⟨_, -, _, -, counted, count, comment, made, stored⟩
    have same : counted.comments = settled.comments :=
      touches_countPost settled _ counted count .comments (by decide)
    exact .stored counted parent comment (same.trans kept) fresh found
      (core_encryptComment made) stored
  case h_2 =>
    have sees := sees_editComment ext settled _ _ after done
    exact .edited (trans_of _ (Sees.of_comments kept)
      (sees.map (fun _ => Prod.fst) fun _ _ => rfl))

/-! ## Payouts -/

section Payouts

variable {db after : Database}

theorem sees_pushVirtualOperation
    (db : Database)
    (operation : VirtualOperation) :
    Sees view db (db.pushVirtualOperation operation) :=
  .of_comments rfl

/-- A view of the comments does not show what a payout gives. -/
def HidesPayouts (view : Nat → CommentObject → View) (id : Nat) : Prop :=
  ∀ comment total curators beneficiaries rewards,
    view id { comment with
      totalPayoutValue := total
      curatorPayoutValue := curators
      beneficiaryPayoutValue := beneficiaries
      authorRewards := rewards } = view id comment

theorem hidesPayouts_besides
    (id : Nat) :
    HidesPayouts (CommentObject.besides id) id := by
  intro comment _ _ _ _
  simp [CommentObject.besides, CommentObject.node]

/--
A relation does not look at what a payout writes into the comment with the given
id, nor at anything besides the comments.
-/
structure IgnoresPayouts (relation : Database → Database → Prop) (id : Nat) :
    Prop where
  comments : ∀ before after : Database,
    after.comments = before.comments → relation before after
  payouts : ∀ (db after : Database)
    (change : CommentObject → Except Fault CommentObject),
    (∀ comment changed, change comment = .ok changed →
      ∃ total curators beneficiaries rewards, changed = { comment with
        totalPayoutValue := total
        curatorPayoutValue := curators
        beneficiaryPayoutValue := beneficiaries
        authorRewards := rewards }) →
      db.modifyComment id change = .ok after → relation db after

theorem HidesPayouts.ignores
    {id : Nat}
    (hides : HidesPayouts view id) :
    IgnoresPayouts (Sees view) id := by
  constructor
  case comments => exact fun _ _ same => .of_comments same
  case payouts =>
    intro db after change paid done
    refine sees_modifyComment db id ?_ after done
    intro comment changed equal
    rcases paid comment changed equal with
      ⟨total, curators, beneficiaries, rewards, rfl⟩
    exact hides comment total curators beneficiaries rewards

section Ignored

variable {relation : Database → Database → Prop} {id : Nat}

theorem IgnoresPayouts.of_agrees
    {fields : List Field}
    (ignores : IgnoresPayouts relation id)
    (agrees : Agrees fields db after)
    (separate : apart [.comments] fields = true) :
    relation db after :=
  ignores.comments db after
    (agrees.read_eq separate (List.mem_singleton.2 rfl))

variable [IsPreorder Database relation]

theorem IgnoresPayouts.payAuthor
    {comment : CommentObject}
    {authorTokens curationTokens beneficiaryTokens claimed : Int}
    (ignores : IgnoresPayouts relation id)
    (done : db.payAuthor id comment authorTokens curationTokens
      beneficiaryTokens claimed = .ok after) :
    relation db after := by
  simp only [Database.payAuthor, bind_eq_ok_iff] at done
  rcases done with ⟨scaled, -, liquid, -, vesting, -, _, -, done⟩
  rcases done with ⟨⟨vested, shares⟩, create, credited, credit, done⟩
  rcases done with ⟨_, -, totalled, total, rewarded, reward, count⟩
  have first : relation db vested :=
    ignores.of_agrees (agrees_createVesting_shares create) rfl
  have second : relation vested credited :=
    ignores.of_agrees (touches_adjustBalance vested _ _ credited credit) rfl
  have third : relation credited totalled := by
    refine ignores.payouts credited totalled _ ?_ total
    intro comment changed equal
    simp only [bind_eq_ok_iff, pure_eq_ok_iff] at equal
    rcases equal with ⟨_, -, _, -, _, -, rfl⟩
    exact ⟨_, _, _, comment.authorRewards, rfl⟩
  have fourth : relation totalled rewarded := by
    refine trans_of _ ?_ (ignores.payouts _ rewarded _ ?_ reward)
    · exact ignores.comments _ _ rfl
    · intro comment changed equal
      simp only [bind_eq_ok_iff, pure_eq_ok_iff] at equal
      rcases equal with ⟨_, -, rfl⟩
      exact ⟨comment.totalPayoutValue, comment.curatorPayoutValue,
        comment.beneficiaryPayoutValue, _, rfl⟩
  have fifth : relation rewarded after := by
    rcases accounts_of_modifyAccount count with ⟨accounts, rfl⟩
    exact ignores.comments rewarded _ rfl
  exact trans_of _ first (trans_of _ second (trans_of _ third
    (trans_of _ fourth fifth)))

theorem IgnoresPayouts.splitReward
    {comment : CommentObject}
    {reward claimed : Int}
    (ignores : IgnoresPayouts relation id)
    (done : db.splitReward id comment reward = .ok (after, claimed)) :
    relation db after := by
  simp only [Database.splitReward, bind_eq_ok_iff] at done
  rcases done with ⟨_, -, _, -, ⟨curated, _, _⟩, curate, _, -, _, -, done⟩
  rcases done with ⟨⟨shared, _⟩, share, _, -, paid, pay, equal⟩
  cases equal
  have first : relation db curated :=
    ignores.of_agrees (agrees_payCurators curate) rfl
  have second : relation curated shared :=
    ignores.of_agrees (agrees_payBeneficiaries share) rfl
  exact trans_of _ first (trans_of _ second (ignores.payAuthor pay))

/-- A payment is not seen by a relation which ignores payouts. -/
theorem IgnoresPayouts.payComment
    {recentClaims : Nat}
    {comment : CommentObject}
    (ignores : IgnoresPayouts relation id)
    (done : db.payComment ext id comment recentClaims rewardBalance =
      .ok (after, claimed)) :
    relation db after := by
  simp only [Database.payComment, bind_eq_ok_iff] at done
  rcases done with ⟨_, -, _, -, ⟨split, _⟩, give, equal⟩
  cases equal
  have dropped : relation split
      (split.dropRshares2 (defaultRewardCurve (uint128 comment.netRshares))) :=
    ignores.comments split _ rfl
  refine trans_of _ ?_ dropped
  split at give
  case isTrue => exact ignores.splitReward give
  case isFalse =>
    cases give
    exact refl_of _ db

end Ignored

theorem sees_payComment
    {id recentClaims : Nat}
    {comment : CommentObject}
    (hides : HidesPayouts view id)
    (done : db.payComment ext id comment recentClaims rewardBalance =
      .ok (after, claimed)) :
    Sees view db after :=
  hides.ignores.payComment done

theorem sees_restartComment
    {id : Nat}
    (done : db.restartComment id = .ok after) :
    Sees (CommentObject.besides id) db after := by
  refine sees_modifyComment_pure db id ?_ after done
  intro comment
  simp [CommentObject.besides, CommentObject.node]

/-- A payout keeps the comments, besides what it writes into its own. -/
theorem sees_cashoutCommentHelper
    {id recentClaims : Nat}
    (done : db.cashoutCommentHelper ext id recentClaims rewardBalance =
      .ok (after, claimed)) :
    Sees (CommentObject.besides id) db after := by
  simp only [cashoutCommentHelper, bind_eq_ok_iff] at done
  rcases done with
    ⟨comment, -, ⟨paid, _⟩, pay, restarted, restart, closed, close, equal⟩
  cases equal
  have closing : Sees (CommentObject.besides id) paid after := by
    exact trans_of _ (sees_restartComment restart)
      (trans_of _ (sees_pushVirtualOperation _ _)
        (.of_agrees (touches_closeVotes _ id after close) rfl))
  refine trans_of _ ?_ closing
  split at pay
  case isFalse =>
    cases pay
    exact refl_of _ db
  case isTrue => exact sees_payComment (hidesPayouts_besides id) pay

end Payouts

end Database

end BMChain.State
