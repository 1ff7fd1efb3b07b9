import BMChain.State.CommentFrame
import BMChain.State.Run

/-!
# The options of comments

`comment_options` is the only operation which changes the options of a comment.
Votes, edits and payouts keep them, and the ids of comments are never used
again, so the options of a comment can be compared over any number of events.
-/

namespace BMChain.State

open BMChain.Foundation BMChain.Protocol Std

variable {ext : External} {op : VoteOperation} {power : VotePower}

/-- What `comment_options` sets. -/
structure PayoutOptions where
  maxAcceptedPayout : Int
  percentBmtDollars : Nat
  allowVotes : Bool
  allowCurationRewards : Bool
  beneficiaries : List BeneficiaryRoute

/-- The options of a comment. -/
def CommentObject.options (comment : CommentObject) : PayoutOptions where
  maxAcceptedPayout := comment.maxAcceptedPayout
  percentBmtDollars := comment.percentBmtDollars
  allowVotes := comment.allowVotes
  allowCurationRewards := comment.allowCurationRewards
  beneficiaries := comment.beneficiaries

/-- The options of a new comment. -/
def PayoutOptions.initial : PayoutOptions where
  maxAcceptedPayout := 1000000000
  percentBmtDollars := hundredPercent
  allowVotes := true
  allowCurationRewards := true
  beneficiaries := []

/-- Options which are no wider than others, with the routes once they are set. -/
structure PayoutOptions.Tightened (old new : PayoutOptions) : Prop where
  payout : new.maxAcceptedPayout ≤ old.maxAcceptedPayout
  percent : new.percentBmtDollars ≤ old.percentBmtDollars
  votes : new.allowVotes = true → old.allowVotes = true
  curation : new.allowCurationRewards = true → old.allowCurationRewards = true
  routes : old.beneficiaries ≠ [] → new.beneficiaries = old.beneficiaries

instance : IsPreorder PayoutOptions PayoutOptions.Tightened where
  refl _ := ⟨Int.le_refl _, Nat.le_refl _, id, id, fun _ => rfl⟩
  trans old middle new first second := by
    constructor
    case payout => exact Int.le_trans second.payout first.payout
    case percent => exact Nat.le_trans second.percent first.percent
    case votes => exact fun allowed => first.votes (second.votes allowed)
    case curation => exact fun allowed => first.curation (second.curation allowed)
    case routes =>
      intro some
      have kept := first.routes some
      rw [second.routes (by rw [kept]; exact some), kept]

/-- Routes are set where there are none yet, and no votes. -/
def FairRoutes (old new : CommentObject) : Prop :=
  new.beneficiaries = old.beneficiaries ∨
    (old.beneficiaries = [] ∧ old.absRshares = 0)

/-- A payout of zero or more is accepted. -/
def CommentObject.AcceptsNonneg (comment : CommentObject) : Prop :=
  0 ≤ comment.maxAcceptedPayout

/-- What `comment_options` does to its comment. -/
structure Narrows (old new : CommentObject) : Prop where
  options : old.options.Tightened new.options
  routes : FairRoutes old new
  shares : new.absRshares = old.absRshares
  accepts : old.AcceptsNonneg → new.AcceptsNonneg

namespace Database

/-! ## Comments which outlive a change -/

/--
The comments which are there before and after a change are related; comments
which are new have new ids, and open in a way of their own.
-/
structure Outlives (opens : CommentObject → Prop)
    (related : CommentObject → CommentObject → Prop)
    (before after : Database) : Prop where
  ids : before.comments.nextId ≤ after.comments.nextId
  comments : ∀ id comment, after.comments.find? id = some comment →
    (∃ old, before.comments.find? id = some old ∧ related old comment) ∨
      (before.comments.nextId ≤ id ∧ opens comment)

/-- How comments open stays the case when they change. -/
class History (opens : CommentObject → Prop)
    (related : CommentObject → CommentObject → Prop) : Prop extends
    IsPreorder CommentObject related where
  steady : ∀ old new, opens old → related old new → opens new

theorem Outlives.mono
    {opens wider : CommentObject → Prop}
    {related weaker : CommentObject → CommentObject → Prop}
    {before after : Database}
    (opened : ∀ comment, opens comment → wider comment)
    (implied : ∀ old new, related old new → weaker old new)
    (outlives : Outlives opens related before after) :
    Outlives wider weaker before after := by
  constructor
  case ids => exact outlives.ids
  case comments =>
    intro id comment found
    rcases outlives.comments id comment found with ⟨old, there, kept⟩ | new
    · exact .inl ⟨old, there, implied old comment kept⟩
    · exact .inr ⟨new.1, opened comment new.2⟩

/-- A comment with an old id was there before. -/
theorem Outlives.old
    {opens : CommentObject → Prop}
    {related : CommentObject → CommentObject → Prop}
    {before after : Database}
    {id : Nat}
    {comment : CommentObject}
    (outlives : Outlives opens related before after)
    (below : id < before.comments.nextId)
    (found : after.comments.find? id = some comment) :
    ∃ old, before.comments.find? id = some old ∧ related old comment := by
  rcases outlives.comments id comment found with old | new
  · exact old
  · exact absurd new.1 (Nat.not_le_of_lt below)

section Outlives

variable {opens : CommentObject → Prop}
  {related : CommentObject → CommentObject → Prop}
  [History opens related]
  {db before after : Database}

instance : IsPreorder Database (Outlives opens related) where
  refl _ := ⟨Nat.le_refl _, fun _ comment found =>
    .inl ⟨comment, found, refl_of related comment⟩⟩
  trans before middle after first second := by
    constructor
    case ids => exact Nat.le_trans first.ids second.ids
    case comments =>
      intro id comment found
      rcases second.comments id comment found with
        ⟨between, there, next⟩ | ⟨fresh, opened⟩
      · rcases first.comments id between there with
          ⟨old, start, prior⟩ | ⟨fresh, opened⟩
        · exact .inl ⟨old, start, trans_of related prior next⟩
        · exact .inr ⟨fresh, History.steady between comment opened next⟩
      · exact .inr ⟨Nat.le_trans first.ids fresh, opened⟩

theorem Outlives.of_comments
    (same : after.comments = before.comments) :
    Outlives opens related before after := by
  constructor
  case ids => exact Nat.le_of_eq (congrArg Table.nextId same.symm)
  case comments =>
    intro id comment found
    rw [same] at found
    exact .inl ⟨comment, found, refl_of related comment⟩

theorem Outlives.of_agrees
    {fields : List Field}
    (agrees : Agrees fields before after)
    (separate : apart [.comments] fields = true) :
    Outlives opens related before after :=
  .of_comments (agrees.read_eq separate (List.mem_singleton.2 rfl))

theorem outlives_set
    {id : Nat}
    {old comment : CommentObject}
    (found : db.comments.find? id = some old)
    (kept : related old comment) :
    Outlives opens related db
      { db with comments := db.comments.set id comment } := by
  constructor
  case ids => exact Nat.le_refl _
  case comments =>
    intro other written there
    dsimp only at there
    rw [Table.find?_set found] at there
    split at there
    case isTrue same =>
      subst same
      cases there
      exact .inl ⟨old, found, kept⟩
    case isFalse => exact .inl ⟨written, there, refl_of related written⟩

theorem outlives_modifyComment
    (db : Database)
    (id : Nat)
    {change : CommentObject → Except Fault CommentObject}
    (kept : ∀ comment changed, db.comments.find? id = some comment →
      change comment = .ok changed → related comment changed) :
    Respects (Outlives opens related) db (db.modifyComment id change) := by
  intro after done
  simp only [modifyComment, modifyRow, bind_eq_ok_iff, orFault_eq_ok_iff,
    pure_eq_ok_iff] at done
  rcases done with ⟨_, ⟨old, found, changed, change, rfl⟩, rfl⟩
  exact outlives_set found (kept old changed found change)

theorem outlives_updateParents
    {change : CommentObject → CommentObject}
    (kept : ∀ comment, related comment (change comment))
    (rounds : Nat)
    (db : Database)
    (author : AccountName)
    (permlink : Text) :
    Respects (Outlives opens related) db
      (updateParents change rounds db author permlink) := by
  induction rounds generalizing db author permlink with
  | zero => exact .error _
  | succ rounds induction =>
      unfold updateParents
      split
      · exact .unchanged
      · refine .read fun parent _ => .bind (outlives_modifyComment db _ ?_) ?_
        · intro comment changed _ equal
          cases equal
          exact kept comment
        · exact fun changed => induction changed _ _

theorem outlives_emplace
    {comment : CommentObject}
    (opened : opens comment) :
    Outlives opens related db
      { db with comments := db.comments.emplace comment } := by
  constructor
  case ids => exact Nat.le_succ _
  case comments =>
    intro id written found
    dsimp only at found
    rw [Table.find?_emplace] at found
    split at found
    case isTrue same =>
      cases found
      exact .inr ⟨Nat.le_of_eq same, opened⟩
    case isFalse => exact .inl ⟨written, found, refl_of related written⟩

theorem outlives_remove
    (id : Nat) :
    Outlives opens related db
      { db with comments := db.comments.remove id } := by
  constructor
  case ids => exact Nat.le_refl _
  case comments =>
    intro other comment found
    dsimp only at found
    rw [Table.find?, Table.remove, ExtTreeMap.getElem?_erase] at found
    split at found
    case isTrue => cases found
    case isFalse => exact .inl ⟨comment, found, refl_of related comment⟩

end Outlives

/-- Everything keeps the options, besides `comment_options`. -/
def SameOptions (old new : CommentObject) : Prop :=
  new.options = old.options

/-- New comments have the options of an empty `comment_object`. -/
def OpensPlain (comment : CommentObject) : Prop :=
  comment.options = PayoutOptions.initial

instance : History OpensPlain SameOptions where
  refl _ := rfl
  trans _ _ _ first second := second.trans first
  steady _ _ opened kept := kept.trans opened

abbrev KeepsOptions : Database → Database → Prop :=
  Outlives OpensPlain SameOptions

/-! ## Votes and edits -/

section Operations

variable {db after : Database}

theorem keepsOptions_modifyComment
    (db : Database)
    (id : Nat)
    {change : CommentObject → CommentObject}
    (kept : ∀ comment, (change comment).options = comment.options) :
    Respects KeepsOptions db
      (db.modifyComment id fun comment => pure (change comment)) := by
  refine outlives_modifyComment db id ?_
  intro comment changed _ equal
  cases equal
  exact kept comment

theorem keepsOptions_addChildrenRshares
    (db : Database)
    (root : Nat)
    (absRshares : Int) :
    Respects KeepsOptions db (db.addChildrenRshares root absRshares) := by
  refine outlives_modifyComment db root ?_
  intro comment changed _ equal
  simp only [bind_eq_ok_iff, pure_eq_ok_iff] at equal
  rcases equal with ⟨_, -, rfl⟩
  rfl

theorem keepsOptions_castVote
    {voter : AccountObject}
    {id : Nat}
    {comment : CommentObject}
    (found : db.comments.find? id = some comment)
    (done : db.castVote ext op voter id comment power = .ok after) :
    KeepsOptions db after := by
  simp only [castVote, bind_eq_ok_iff, checked_eq_ok_iff] at done
  rcases done with ⟨_, -, _, -, spent, spend, _, -, _, -, done⟩
  rcases done with ⟨_, ⟨-, rfl⟩, _, ⟨-, rfl⟩, upvotes, -, done⟩
  rcases done with ⟨counted, count, _, -, weighed, weigh, pay⟩
  have comments : spent.comments = db.comments :=
    touches_spendVotePower db _ _ spent spend .comments (by decide)
  have voted : KeepsOptions spent counted := by
    have stored : spent.comments.find? id = some comment := by
      rw [comments]
      exact found
    refine trans_of _ ?_ (keepsOptions_addChildrenRshares _ _ _ counted count)
    exact outlives_set stored rfl
  have noted : KeepsOptions counted weighed := by
    refine trans_of _ ?_ (keepsOptions_modifyComment _ id ?_ weighed weigh)
    · exact .of_comments rfl
    · exact fun _ => rfl
  have paid : KeepsOptions weighed after :=
    .of_agrees (touches_processFundsBmchain weighed _ after pay) rfl
  exact trans_of _ (.of_comments comments)
    (trans_of _ voted (trans_of _ noted paid))

theorem keepsOptions_changeVote
    {id voteId : Nat}
    {comment : CommentObject}
    {vote : CommentVoteObject}
    (found : db.comments.find? id = some comment)
    (done : db.changeVote op id comment voteId vote power = .ok after) :
    KeepsOptions db after := by
  simp only [changeVote, bind_eq_ok_iff, checked_eq_ok_iff,
    pure_eq_ok_iff] at done
  rcases done with ⟨_, -, _, -, spent, spend, _, -, _, ⟨-, rfl⟩, done⟩
  rcases done with ⟨_, ⟨-, rfl⟩, _, ⟨-, rfl⟩, counted, count, done⟩
  rcases done with ⟨weighed, weigh, rfl⟩
  have comments : spent.comments = db.comments :=
    touches_spendVotePower db _ _ spent spend .comments (by decide)
  have voted : KeepsOptions spent counted := by
    have stored : spent.comments.find? id = some comment := by
      rw [comments]
      exact found
    refine trans_of _ ?_ (keepsOptions_addChildrenRshares _ _ _ counted count)
    exact outlives_set stored rfl
  have noted : KeepsOptions counted weighed := by
    refine keepsOptions_modifyComment counted id ?_ weighed weigh
    exact fun _ => rfl
  refine trans_of _ (.of_comments comments)
    (trans_of _ voted (trans_of _ noted ?_))
  exact .of_comments rfl

theorem keepsOptions_vote
    (done : db.voteEvaluator ext op = .ok after) :
    KeepsOptions db after := by
  cases voted_vote done with
  | late same =>
      subst same
      exact refl_of _ after
  | cast id comment voter power stored account powered first done =>
      exact keepsOptions_castVote stored done
  | changed id comment voter power voteId vote stored account powered earlier
      done =>
      exact keepsOptions_changeVote stored done

theorem opensPlain_freshComment
    (ext : External)
    (db : Database)
    (op : CommentOperation)
    (parent : Option CommentObject) :
    OpensPlain (db.freshComment ext op parent) := by
  cases parent with
  | none => rfl
  | some parent => rfl

theorem options_encryptComment
    {op : EncryptedContentOperation}
    {comment encrypted : CommentObject}
    (done : db.encryptComment ext op comment = .ok encrypted) :
    encrypted.options = comment.options := by
  simp only [encryptComment, bind_eq_ok_iff] at done
  rcases done with ⟨_, -, done⟩
  split at done
  · cases done
    rfl
  · cases done
    rfl

theorem keepsOptions_storeComment
    {op : CommentOperation}
    {comment : CommentObject}
    (opened : OpensPlain comment)
    (done : db.storeComment op comment = .ok after) :
    KeepsOptions db after := by
  simp only [storeComment, createRow, bind_eq_ok_iff, pure_eq_ok_iff] at done
  rcases done with ⟨_, -, _, -, _, ⟨_, -, rfl⟩, told, walk, pay⟩
  refine trans_of _ (outlives_emplace opened) (trans_of _ ?_
    (Outlives.of_agrees (touches_processFundsBmchain told _ after pay) rfl))
  refine outlives_updateParents ?_ _ _ _ _ told walk
  exact fun _ => rfl

theorem keepsOptions_editComment
    (ext : External)
    (db : Database)
    (id : Nat)
    (op : CommentOperation) :
    Respects KeepsOptions db (db.editComment ext id op) := by
  refine outlives_modifyComment db id ?_
  intro comment changed _ equal
  simp only [bind_eq_ok_iff, pure_eq_ok_iff] at equal
  rcases equal with ⟨_, -, _, -, rfl⟩
  rfl

theorem keepsOptions_comment
    {op : CommentOperation}
    (done : db.commentEvaluator ext op = .ok after) :
    KeepsOptions db after := by
  simp only [commentEvaluator, bind_eq_ok_iff] at done
  rcases done with ⟨_, -, done⟩
  split at done
  case h_1 =>
    simp only [bind_eq_ok_iff] at done
    rcases done with ⟨_, -, _, -, counted, count, stored⟩
    exact trans_of _ (Outlives.of_agrees (touches_countPost db op counted count)
      rfl) (keepsOptions_storeComment
        (opensPlain_freshComment ext counted op _) stored)
  case h_2 => exact keepsOptions_editComment ext db _ op after done

theorem keepsOptions_encryptedContent
    {op : EncryptedContentOperation}
    (done : db.encryptedContentEvaluator ext op = .ok after) :
    KeepsOptions db after := by
  simp only [encryptedContentEvaluator, bind_eq_ok_iff] at done
  rcases done with ⟨_, -, settled, settle, done⟩
  have kept : KeepsOptions db settled := by
    split at settle
    · exact .of_agrees (touches_settleOrder db _ _ settled settle) rfl
    · cases settle
      exact refl_of _ db
  refine trans_of _ kept ?_
  split at done
  case h_1 =>
    simp only [bind_eq_ok_iff] at done
    rcases done with ⟨_, -, _, -, counted, count, comment, made, stored⟩
    have opened : OpensPlain comment :=
      (options_encryptComment made).trans
        (opensPlain_freshComment ext counted _ _)
    exact trans_of _ (Outlives.of_agrees
      (touches_countPost settled _ counted count) rfl)
        (keepsOptions_storeComment opened stored)
  case h_2 => exact keepsOptions_editComment ext settled _ _ after done

theorem keepsOptions_deleteComment
    {op : DeleteCommentOperation}
    (done : db.deleteCommentEvaluator op = .ok after) :
    KeepsOptions db after := by
  simp only [deleteCommentEvaluator, bind_eq_ok_iff, pure_eq_ok_iff] at done
  rcases done with ⟨_, -, _, -, ⟨id, comment⟩, -, _, -, _, -, done⟩
  rcases done with ⟨_, -, told, walk, rfl⟩
  have walked : KeepsOptions db told := by
    refine trans_of _ ?_ (outlives_updateParents ?_ _ _ _ _ told walk)
    · exact .of_comments rfl
    · exact fun _ => rfl
  exact trans_of _ walked (outlives_remove id)

/-- Every other operation keeps the options. -/
theorem keepsOptions_applyOperation
    {op : Operation}
    (other : ∀ options, op ≠ .commentOptions options)
    (done : db.applyOperation ext op = .ok after) :
    KeepsOptions db after := by
  have agrees := touches_applyOperation ext db op after done
  cases op with
  | vote op => exact keepsOptions_vote done
  | comment op => exact keepsOptions_comment done
  | encryptedContent op => exact keepsOptions_encryptedContent done
  | deleteComment op => exact keepsOptions_deleteComment done
  | commentOptions op => exact absurd rfl (other op)
  | _ => exact .of_agrees agrees rfl

end Operations

/-! ## `comment_options` -/

/-- The operation asks for no more BMT than the comment pays now. -/
def AsksNoMore (db : Database) (op : CommentOptionsOperation) : Prop :=
  ∀ id comment, db.getComment op.author op.permlink = .ok (id, comment) →
    op.percentBmtDollars ≤ comment.percentBmtDollars

instance : History (fun _ => False) Narrows where
  refl comment := ⟨refl_of _ comment.options, .inl rfl, rfl, id⟩
  trans old middle new first second := by
    constructor
    case options => exact trans_of _ first.options second.options
    case shares => exact second.shares.trans first.shares
    case accepts => exact fun accepts => second.accepts (first.accepts accepts)
    case routes =>
      rcases second.routes with same | ⟨none, unvoted⟩
      · rcases first.routes with kept | free
        · exact .inl (same.trans kept)
        · exact .inr free
      · refine .inr ⟨?_, first.shares ▸ unvoted⟩
        by_contra some
        exact some ((first.options.routes some).symm.trans none)
  steady _ _ never _ := never

section CommentOptions

variable {db after : Database}

theorem narrows_applyCommentOption
    (id : Nat)
    (db : Database)
    (option : CommentOptionsExtension) :
    Respects (Outlives (fun _ => False) Narrows) db
      (db.applyCommentOption id option) := by
  cases option with
  | payoutBeneficiaries routes =>
      refine outlives_modifyComment db id ?_
      intro comment changed _ equal
      simp only [bind_eq_ok_iff, require_eq_ok_iff, pure_eq_ok_iff] at equal
      rcases equal with ⟨_, none, _, unvoted, _, -, rfl⟩
      constructor
      case options =>
        constructor
        case payout => exact Int.le_refl _
        case percent => exact Nat.le_refl _
        case votes => exact fun allowed => allowed
        case curation => exact fun allowed => allowed
        case routes => exact fun some => absurd none some
      case routes => exact .inr ⟨none, unvoted⟩
      case shares => rfl
      case accepts => exact fun accepts => accepts
  | curationRewardsPercent percent =>
      refine .read fun _ _ => outlives_modifyComment db id ?_
      intro comment changed _ equal
      cases equal
      exact ⟨refl_of _ comment.options, .inl rfl, rfl, fun accepts => accepts⟩

/-- An operation which asks for no more narrows the options of its comment. -/
theorem narrows_commentOptions
    {op : CommentOptionsOperation}
    (less : db.AsksNoMore op)
    (valid : op.validate ext = .ok ())
    (done : db.commentOptionsEvaluator op = .ok after) :
    Outlives (fun _ => False) Narrows db after := by
  simp only [CommentOptionsOperation.validate, bind_eq_ok_iff,
    require_eq_ok_iff] at valid
  rcases valid with ⟨_, -, _, -, _, -, _, accepts, -⟩
  simp only [commentOptionsEvaluator, bind_eq_ok_iff, require_eq_ok_iff]
    at done
  rcases done with ⟨_, -, _, -, ⟨id, comment⟩, got, payout, amount, done⟩
  rcases done with ⟨_, -, _, curation, _, votes, _, smaller, done⟩
  rcases done with ⟨changed, change, done⟩
  have stored : db.comments.find? id = some comment :=
    Table.find?_of_findBy (orFault_eq_ok_iff.1 got)
  have asked : payout = op.maxAcceptedPayout.amount := by
    simp only [Asset.inSymbol, bind_eq_ok_iff, pure_eq_ok_iff] at amount
    rcases amount with ⟨_, -, equal⟩
    exact equal.symm
  refine trans_of _ (outlives_modifyComment db id ?_ changed change) ?_
  · intro found written there equal
    cases equal
    rw [stored] at there
    cases there
    constructor
    case options =>
      constructor
      case payout => exact smaller
      case percent => exact less id comment got
      case votes =>
        intro allowed
        show comment.allowVotes = true
        simpa [show op.allowVotes = true from allowed] using votes
      case curation =>
        intro allowed
        show comment.allowCurationRewards = true
        simpa [show op.allowCurationRewards = true from allowed] using curation
      case routes => exact fun _ => rfl
    case routes => exact .inl rfl
    case shares => rfl
    case accepts =>
      intro _
      show 0 ≤ payout
      rw [asked]
      exact accepts
  · have each : Respects (Outlives (fun _ => False) Narrows) changed
        (op.extensions.foldlM (applyCommentOption id) changed) :=
      .foldlM _ fun state option => narrows_applyCommentOption id state option
    exact each after done

end CommentOptions

/-! ## Payouts and blocks -/

section Blocks

variable {db after : Database}

theorem ignoresPayouts_keepsOptions
    (id : Nat) :
    IgnoresPayouts KeepsOptions id := by
  constructor
  case comments => exact fun _ _ same => .of_comments same
  case payouts =>
    intro db after change paid done
    refine outlives_modifyComment db id ?_ after done
    intro comment changed _ equal
    rcases paid comment changed equal with ⟨_, _, _, _, rfl⟩
    rfl

theorem keepsOptions_cashoutCommentHelper
    {id recentClaims : Nat}
    {rewardBalance claimed : Int}
    (done : db.cashoutCommentHelper ext id recentClaims rewardBalance =
      .ok (after, claimed)) :
    KeepsOptions db after := by
  simp only [cashoutCommentHelper, bind_eq_ok_iff] at done
  rcases done with
    ⟨comment, -, ⟨paid, _⟩, pay, restarted, restart, closed, close, equal⟩
  cases equal
  have first : KeepsOptions db paid := by
    split at pay
    case isFalse =>
      cases pay
      exact refl_of _ db
    case isTrue => exact (ignoresPayouts_keepsOptions id).payComment pay
  have second : KeepsOptions paid restarted := by
    refine keepsOptions_modifyComment paid id ?_ restarted restart
    exact fun _ => rfl
  have third : KeepsOptions restarted after := by
    refine trans_of _ ?_
      (Outlives.of_agrees (touches_closeVotes _ id after close) rfl)
    exact .of_comments rfl
  exact trans_of _ first (trans_of _ second third)

theorem keepsOptions_runStep
    {header : BlockHeader}
    {step : BlockStep}
    (done : db.runStep ext header step = .ok after) :
    KeepsOptions db after := by
  have agrees := touches_runStep ext header db step after done
  cases step with
  | processCommentCashout =>
      refine processCommentCashout_invariant (KeepsOptions db) ?_ ?_
        (eachPayout_of_forall (fun _ _ _ _ => trivial) db) done (refl_of _ db)
      · exact fun before after funded start =>
          trans_of _ start (.of_agrees funded rfl)
      · exact fun _ _ _ _ _ _ _ cashed start =>
          trans_of _ start (keepsOptions_cashoutCommentHelper cashed)
  | _ => exact .of_agrees agrees rfl

/-! ## Events -/

/-- An event keeps all options, or it narrows those of one comment. -/
inductive Restrains (db after : Database) : Prop
  | keeps (kept : KeepsOptions db after)
  | narrows (narrowed : Outlives (fun _ => False) Narrows db after)

/-- The operation of an event asks for no more. -/
def MeetsAsk (db : Database) : Operation → Prop
  | .commentOptions op => db.AsksNoMore op
  | _ => True

theorem restrains_applyOperation
    {op : Operation}
    (less : db.MeetsAsk op)
    (valid : op.validate ext = .ok ())
    (done : db.applyOperation ext op = .ok after) :
    Restrains db after := by
  cases op with
  | commentOptions op =>
      exact .narrows (narrows_commentOptions less valid done)
  | _ =>
      refine .keeps (keepsOptions_applyOperation ?_ done)
      intro options equal
      cases equal

theorem restrains_step
    {event : Event}
    {blocks : BlockHeader → Database → BlockStep → Prop}
    (less : EventMeets ext MeetsAsk blocks db event)
    (stepped : db.step ext event = .ok after) :
    Restrains db after := by
  cases event with
  | operation op =>
      simp only [step, bind_eq_ok_iff] at stepped
      rcases stepped with ⟨_, valid, done⟩
      exact restrains_applyOperation less valid done
  | beginBlock header =>
      exact .keeps (.of_agrees (touches_beginBlock db header after stepped) rfl)
  | finishBlock header =>
      refine .keeps (foldlM_runStep_invariant (KeepsOptions db) ?_ less stepped
        (refl_of _ db))
      exact fun state which after _ ran kept =>
        trans_of _ kept (keepsOptions_runStep ran)

end Blocks

end Database

end BMChain.State
