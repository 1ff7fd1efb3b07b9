import BMChain.State.CommentFrame
import BMChain.State.Run

/-!
# The tree of comments

A comment names the comment it replies to, and keeps its depth, the id of the
post at the top and the number of comments below it.  Posts, replies and
removals keep these in step, as long as the counter of the post does not run
over.
-/

namespace BMChain.State

open BMChain.Foundation BMChain.Foundation.CountedForest BMChain.Protocol
open Relation Std

variable {author : AccountName} {permlink : Text} {ext : External}

namespace Database

/-! ## The tree which the comments name -/

/-- One comment is a reply to another. -/
def IsReply (db : Database) (reply parent : Nat) : Prop :=
  ∃ comment above, db.comments.find? reply = some comment ∧
    comment.parentAuthor ≠ "" ∧
      db.findComment comment.parentAuthor comment.parentPermlink =
        some (parent, above)

/--
The comments are a forest: parents exist and lie one level higher, no chain of
parents closes, and depths, roots and counts of replies are what the chains of
parents say.
-/
structure CommentTree (db : Database) : Prop where
  parent : ∀ id comment, db.comments.find? id = some comment →
    comment.parentAuthor ≠ "" →
      ∃ place above,
        db.findComment comment.parentAuthor comment.parentPermlink =
            some (place, above) ∧
          comment.depth = above.depth + 1
  acyclic : ∀ id, ¬ TransGen (IsReply db) id id
  top : ∀ id comment, db.comments.find? id = some comment →
    comment.parentAuthor = "" → comment.depth = 0
  depth : ∀ id comment, db.comments.find? id = some comment →
    comment.depth ≤ maxCommentDepth
  root : ∀ id comment, db.comments.find? id = some comment →
    ∃ post, db.comments.find? comment.rootComment = some post ∧
      post.parentAuthor = "" ∧
        ReflTransGen (IsReply db) id comment.rootComment
  children : ∀ id comment, db.comments.find? id = some comment →
    comment.children = {other | TransGen (IsReply db) other id}.ncard

/-- The comments as the nodes of a counted forest. -/
def commentNodes (db : Database) (id : Nat) :
    Option (CountedNode (AccountName × Text)) :=
  (db.comments.find? id).map CommentObject.node

/-- The key under which a comment is the parent of another. -/
def parentKey (author : AccountName) (permlink : Text) :
    Option (AccountName × Text) :=
  if author = "" then none else some (author, cString permlink)

/-- What the evaluators keep of the comments. -/
structure TreeBooked (db : Database) : Prop where
  rooted : Rooted (commentNodes db)
  counted : Counted (commentNodes db)
  depth : ∀ id comment, db.comments.find? id = some comment →
    comment.depth ≤ maxCommentDepth
  fits : ∀ id comment, db.comments.find? id = some comment →
    comment.children < 2 ^ 32

section Lookups

variable {db : Database} {id : Nat} {comment : CommentObject}

theorem commentNodes_of_find
    (found : db.comments.find? id = some comment) :
    commentNodes db id = some comment.node := by
  rw [commentNodes, found, Option.map_some]

theorem find_of_commentNodes
    {node : CountedNode (AccountName × Text)}
    (found : commentNodes db id = some node) :
    ∃ comment, db.comments.find? id = some comment ∧ comment.node = node :=
  Option.map_eq_some_iff.1 found

theorem find_of_findComment
    (found : db.findComment author permlink = some (id, comment)) :
    db.comments.find? id = some comment ∧
      comment.node.key = (author, cString permlink) := by
  refine ⟨Table.find?_of_findBy found, ?_⟩
  have passed := Table.passed_of_findBy found
  simp only [decide_eq_true_eq] at passed
  exact Prod.ext passed.1 passed.2

/-- A comment is found by its key where keys are distinct. -/
theorem findComment_of_find
    (rooted : Rooted (commentNodes db))
    (found : db.comments.find? id = some comment)
    (key : comment.node.key = (author, cString permlink)) :
    db.findComment author permlink = some (id, comment) := by
  refine Table.findBy_eq_some_iff.2 ⟨found, ?_, ?_⟩
  · rw [decide_eq_true_eq]
    exact Prod.mk.inj key
  · intro other earlier there passed
    rw [decide_eq_true_eq] at passed
    refine Nat.le_of_eq (rooted.distinct _ _ _ _ (commentNodes_of_find found)
      (commentNodes_of_find there) ?_)
    exact key.trans (Prod.ext passed.1.symm passed.2.symm)

theorem isReply_iff_child
    (rooted : Rooted (commentNodes db))
    (reply parent : Nat) :
    IsReply db reply parent ↔ Child (commentNodes db) reply parent := by
  constructor
  · rintro ⟨comment, above, found, named, there⟩
    rcases find_of_findComment there with ⟨high, key⟩
    refine ⟨_, _, commentNodes_of_find found, commentNodes_of_find high, ?_⟩
    rw [key]
    exact if_neg named
  · rintro ⟨low, high, found, there, upper⟩
    rcases find_of_commentNodes found with ⟨comment, stored, rfl⟩
    rcases find_of_commentNodes there with ⟨above, kept, rfl⟩
    have named : comment.parentAuthor ≠ "" := by
      intro empty
      rw [CommentObject.node, if_pos empty] at upper
      cases upper
    refine ⟨comment, above, stored, named, findComment_of_find rooted kept ?_⟩
    rw [CommentObject.node, if_neg named] at upper
    exact (Option.some.inj upper).symm

end Lookups

/-- What the evaluators keep makes the comments a forest. -/
theorem TreeBooked.commentTree
    {db : Database}
    (booked : TreeBooked db) :
    CommentTree db := by
  have same : IsReply db = Child (commentNodes db) := by
    funext reply parent
    exact propext (isReply_iff_child booked.rooted reply parent)
  constructor
  case parent =>
    intro id comment found named
    have upper : comment.node.upper =
        some (comment.parentAuthor, cString comment.parentPermlink) :=
      if_neg named
    rcases booked.rooted.parent id _ _ (commentNodes_of_find found) upper with
      ⟨place, high, there, key, depth, -⟩
    rcases find_of_commentNodes there with ⟨above, stored, rfl⟩
    exact ⟨place, above, findComment_of_find booked.rooted stored key, depth⟩
  case acyclic =>
    intro id
    rw [same]
    exact booked.rooted.acyclic id
  case top =>
    intro id comment found unnamed
    exact (booked.rooted.top id _ (commentNodes_of_find found)
      (if_pos unnamed)).1
  case depth => exact booked.depth
  case root =>
    intro id comment found
    rcases booked.rooted.reaches_root (commentNodes_of_find found) with
      ⟨top, there, upper, path⟩
    rcases find_of_commentNodes there with ⟨post, stored, rfl⟩
    refine ⟨post, stored, ?_, same ▸ path⟩
    by_contra named
    rw [CommentObject.node, if_neg named] at upper
    cases upper
  case children =>
    intro id comment found
    rw [same]
    exact booked.counted id _ (commentNodes_of_find found)

/-! ## Changes which keep the tree -/

theorem TreeBooked.of_sees
    {before after : Database}
    (booked : TreeBooked before)
    (sees : Sees (fun _ => CommentObject.node) before after) :
    TreeBooked after := by
  have nodes : commentNodes after = commentNodes before := funext sees
  have kept : ∀ id comment, after.comments.find? id = some comment →
      ∃ old, before.comments.find? id = some old ∧
        old.node = comment.node := by
    intro id comment found
    have there := commentNodes_of_find found
    rw [nodes] at there
    exact find_of_commentNodes there
  constructor
  case rooted =>
    rw [nodes]
    exact booked.rooted
  case counted =>
    rw [nodes]
    exact booked.counted
  case depth =>
    intro id comment found
    rcases kept id comment found with ⟨old, before, same⟩
    have depth : old.depth = comment.depth := congrArg CountedNode.depth same
    exact depth ▸ booked.depth id old before
  case fits =>
    intro id comment found
    rcases kept id comment found with ⟨old, before, same⟩
    have count : old.children = comment.children :=
      congrArg CountedNode.count same
    exact count ▸ booked.fits id old before

/-! ## The walk to the top -/

section Walk

variable {change : CommentObject → CommentObject}

theorem commentNodes_set
    {db : Database}
    {id : Nat}
    {old comment : CommentObject}
    (found : db.comments.find? id = some old)
    (other : Nat) :
    commentNodes { db with comments := db.comments.set id comment } other =
      if id = other then some comment.node else commentNodes db other := by
  rw [commentNodes, Table.find?_set found]
  split <;> rfl

open Classical in
/-- The walk changes the comments on the way up, each of them once. -/
theorem find_updateParents
    (kept : ∀ comment, (change comment).node.SameShape comment.node)
    {rounds : Nat}
    {db after : Database}
    (rooted : Rooted (commentNodes db))
    (done : updateParents change rounds db author permlink = .ok after)
    (id : Nat) :
    after.comments.find? id =
      (db.comments.find? id).map fun comment =>
        if Over (commentNodes db) (parentKey author permlink) id then
          change comment
        else comment := by
  induction rounds generalizing db author permlink with
  | zero => cases done
  | succ rounds induction =>
      rw [updateParents] at done
      split at done
      case isTrue empty =>
        cases done
        have none : parentKey author permlink = none := if_pos empty
        simp [none, not_over_none]
      case isFalse named =>
        simp only [bind_eq_ok_iff, getComment, orFault_eq_ok_iff] at done
        rcases done with ⟨⟨place, parent⟩, found, changed, modify, rest⟩
        simp only [modifyComment, modifyRow, bind_eq_ok_iff,
          orFault_eq_ok_iff, pure_eq_ok_iff] at modify
        rcases modify with ⟨_, ⟨old, there, _, rfl, rfl⟩, rfl⟩
        rcases find_of_findComment found with ⟨stored, key⟩
        rw [there] at stored
        cases stored
        -- The change keeps the shape, so the way up stays the same.
        have same : ∀ other, SameAt (commentNodes db)
            (commentNodes { db with
              comments := db.comments.set place (change parent) }) other := by
          intro other
          rw [SameAt, commentNodes_set there]
          split
          case isTrue equal =>
            subst equal
            rw [commentNodes_of_find there, Option.map_some, Option.map_some]
            exact congrArg some (kept parent).shape_eq
          case isFalse => rfl
        have node := commentNodes_of_find there
        have start : parentKey author permlink = some parent.node.key := by
          rw [key]
          exact if_neg named
        have next : parentKey parent.parentAuthor parent.parentPermlink =
            parent.node.upper := rfl
        rw [induction (rooted.of_same same) rest, next, start]
        simp only [over_iff_of_same same, rooted.over_iff node]
        rw [Table.find?_set there]
        by_cases equal : place = id
        · subst equal
          have apart : ¬ Over (commentNodes db) parent.node.upper place := by
            rw [over_iff_below node]
            exact rooted.acyclic place
          simp [apart, there]
        · simp [equal, Ne.symm equal]

end Walk

/-- What the walk does to a comment: it is counted anew and becomes active. -/
def recount (count : Nat → Nat) (now : Time) (comment : CommentObject) :
    CommentObject :=
  { comment with children := count comment.children, active := now }

theorem sameShape_recount
    (count : Nat → Nat)
    (now : Time)
    (comment : CommentObject) :
    (recount count now comment).node.SameShape comment.node :=
  ⟨rfl, rfl, rfl, rfl⟩

/-! ## A new comment -/

/-- The post above a reply can count one more comment, if one is created. -/
def ReplyFits (db : Database) (op : CommentOperation) : Prop :=
  ∀ place parent post,
    db.findComment op.author op.permlink = none → op.parentAuthor ≠ "" →
      db.findComment op.parentAuthor op.parentPermlink =
          some (place, parent) →
        db.comments.find? parent.rootComment = some post →
          post.children + 1 < 2 ^ 32

/-- The place of a comment which an operation creates. -/
structure Placed (db : Database) (op : CommentOperation)
    (node : CountedNode (AccountName × Text)) : Prop where
  key : node.key = (op.author, cString op.permlink)
  upper : node.upper = parentKey op.parentAuthor op.parentPermlink
  count : node.count = 0
  depth : node.depth ≤ maxCommentDepth
  top : op.parentAuthor = "" → node.depth = 0 ∧ node.root = db.comments.nextId
  parent : op.parentAuthor ≠ "" →
    ∃ place above,
      db.findComment op.parentAuthor op.parentPermlink = some (place, above) ∧
        node.depth = above.depth + 1 ∧ node.root = above.rootComment

theorem placed_freshComment
    (ext : External)
    {db later : Database}
    {op : CommentOperation}
    {parent : Option CommentObject}
    (found : db.findParent op = .ok parent)
    (same : later.comments = db.comments) :
    Placed db op (later.freshComment ext op parent).node := by
  unfold findParent at found
  split at found
  case isTrue empty =>
    cases found
    constructor
    case key => rfl
    case upper => simp [CommentObject.node, freshComment, parentKey, empty]
    case count => rfl
    case depth => exact Nat.zero_le _
    case top =>
      intro _
      rw [← same]
      exact ⟨rfl, rfl⟩
    case parent => exact fun named => absurd empty named
  case isFalse named =>
    simp only [bind_eq_ok_iff, getComment, orFault_eq_ok_iff,
      require_eq_ok_iff, pure_eq_ok_iff] at found
    rcases found with ⟨⟨place, above⟩, there, _, shallow, rfl⟩
    have key := (find_of_findComment there).2
    have author : above.author = op.parentAuthor := congrArg Prod.fst key
    have permlink : cString above.permlink = cString op.parentPermlink :=
      congrArg Prod.snd key
    have deeper : increment 16 above.depth = above.depth + 1 := by
      have small : above.depth + 1 < 2 ^ 16 := by
        simp only [maxCommentDepth] at shallow
        omega
      rw [increment, Nat.mod_eq_of_lt small]
    constructor
    case key => rfl
    case upper =>
      simp [CommentObject.node, freshComment, parentKey, author, permlink]
    case count => rfl
    case depth =>
      simp only [CommentObject.node, freshComment, deeper]
      simpa using shallow
    case top => exact fun empty => absurd empty named
    case parent => exact fun _ => ⟨place, above, there, deeper, rfl⟩

section Stored

variable {db after : Database} {op : CommentOperation}
    {comment : CommentObject}

/-- A comment above a reply which fits can count it. -/
theorem ReplyFits.count
    (fits : ReplyFits db op)
    (fresh : db.findComment op.author op.permlink = none)
    (booked : TreeBooked db)
    {id : Nat}
    (found : db.comments.find? id = some comment)
    (above : Over (commentNodes db)
      (parentKey op.parentAuthor op.parentPermlink) id) :
    comment.children + 1 < 2 ^ 32 := by
  rcases above with ⟨place, _, there, start, path⟩
  rcases find_of_commentNodes there with ⟨parent, stored, rfl⟩
  have named : op.parentAuthor ≠ "" := by
    intro empty
    rw [parentKey, if_pos empty] at start
    cases start
  rw [parentKey, if_neg named] at start
  have lookup := findComment_of_find booked.rooted stored
    (Option.some.inj start).symm
  have node := commentNodes_of_find found
  have root : parent.rootComment = comment.rootComment := by
    rcases ReflTransGen.cases_head path with same | ⟨next, step, rest⟩
    · subst same
      rw [stored] at found
      cases found
      rfl
    · exact (booked.rooted.below there node (TransGen.head' step rest)).2
  rcases booked.rooted.reaches_root node with ⟨_, top, -, -⟩
  rcases find_of_commentNodes top with ⟨post, topmost, rfl⟩
  have bound := fits place parent post fresh named lookup (root ▸ topmost)
  have less := booked.rooted.ncard_le_root node
  have count := booked.counted id _ node
  have total := booked.counted _ _ top
  change comment.children = _ at count
  change post.children = _ at total
  omega

theorem commentNodes_emplace
    (db : Database)
    (comment : CommentObject)
    (id : Nat) :
    commentNodes { db with comments := db.comments.emplace comment } id =
      if db.comments.nextId = id then some comment.node
      else commentNodes db id := by
  rw [commentNodes, Table.find?_emplace]
  split <;> rfl

/-- A comment which is placed is a new leaf. -/
theorem Placed.grown
    (placed : Placed db op comment.node)
    (fresh : db.findComment op.author op.permlink = none) :
    Grown (commentNodes db)
      (commentNodes { db with comments := db.comments.emplace comment })
      db.comments.nextId comment.node := by
  constructor
  case fresh => rw [commentNodes, Table.find?_nextId, Option.map_none]
  case placed => rw [commentNodes_emplace, if_pos rfl]
  case others =>
    intro id other
    rw [SameAt, commentNodes_emplace, if_neg (Ne.symm other)]
  case key =>
    intro id node there same
    rcases find_of_commentNodes there with ⟨other, stored, rfl⟩
    have refused := Table.refused_of_findBy fresh stored
    rw [placed.key] at same
    exact of_decide_eq_false refused (Prod.mk.inj same)
  case top =>
    intro none
    rw [placed.upper, parentKey] at none
    refine placed.top ?_
    by_contra named
    rw [if_neg named] at none
    cases none
  case parent =>
    intro key upper
    rw [placed.upper, parentKey] at upper
    have named : op.parentAuthor ≠ "" := by
      intro empty
      rw [if_pos empty] at upper
      cases upper
    rw [if_neg named] at upper
    cases upper
    rcases placed.parent named with ⟨place, above, there, depth, root⟩
    rcases find_of_findComment there with ⟨stored, key⟩
    exact ⟨place, above.node, commentNodes_of_find stored, key, depth, root⟩

open Classical in
/-- The rows after a new comment is stored and its parents are told. -/
theorem find_storeComment
    (rooted : Rooted (commentNodes db))
    (placed : Placed db op comment.node)
    (fresh : db.findComment op.author op.permlink = none)
    (done : db.storeComment op comment = .ok after) :
    after.comments.find? db.comments.nextId = some comment ∧
      ∀ id, id ≠ db.comments.nextId →
        after.comments.find? id =
          (db.comments.find? id).map fun old =>
            if Over (commentNodes db) comment.node.upper id then
              recount (increment 32) db.headBlockTime old
            else old := by
  simp only [storeComment, createRow, bind_eq_ok_iff, pure_eq_ok_iff] at done
  rcases done with ⟨_, -, _, -, _, ⟨_, -, rfl⟩, told, walk, pay⟩
  have grown := placed.grown fresh
  have rows := fun id => find_updateParents
    (sameShape_recount (increment 32) db.headBlockTime)
    (grown.rooted rooted) walk id
  have paid : after.comments = told.comments :=
    (touches_processFundsBmchain told _ after pay) .comments
      (by decide : _ ∉ emissionFields)
  have above : ∀ id,
      Over (commentNodes { db with comments := db.comments.emplace comment })
          (parentKey op.parentAuthor op.parentPermlink) id ↔
        Over (commentNodes db) comment.node.upper id := by
    intro id
    rw [← placed.upper, over_iff_below grown.placed,
      grown.below_iff rooted]
    simp [grown.not_new_below id]
  simp only [above, Table.find?_emplace] at rows
  rw [paid]
  constructor
  · rw [rows, if_pos rfl, Option.map_some, if_neg grown.not_over_new]
  · intro id other
    rw [rows, if_neg (Ne.symm other)]

theorem TreeBooked.storeComment
    (booked : TreeBooked db)
    (placed : Placed db op comment.node)
    (fresh : db.findComment op.author op.permlink = none)
    (fits : ReplyFits db op)
    (done : db.storeComment op comment = .ok after) :
    TreeBooked after := by
  rcases find_storeComment booked.rooted placed fresh done with
    ⟨stored, others⟩
  have start := placed.grown fresh
  have grown : Grown (commentNodes db) (commentNodes after)
      db.comments.nextId comment.node := by
    refine ⟨start.fresh, commentNodes_of_find stored, ?_, start.key,
      start.top, start.parent⟩
    intro id other
    rw [SameAt, commentNodes, commentNodes, others id other]
    cases db.comments.find? id with
    | none => rfl
    | some old =>
        rw [Option.map_some, Option.map_some]
        split
        case isTrue =>
          exact congrArg some (sameShape_recount _ _ old).shape_eq
        case isFalse => rfl
  have counts : ∀ id old node, commentNodes db id = some old →
      commentNodes after id = some node →
        open Classical in
        node.count =
          if Over (commentNodes db) comment.node.upper id then old.count + 1
          else old.count := by
    intro id _ _ before later
    rcases find_of_commentNodes before with ⟨old, found, rfl⟩
    rcases find_of_commentNodes later with ⟨new, there, rfl⟩
    rw [others id (start.ne_new before), found, Option.map_some,
      Option.some.injEq] at there
    subst there
    split
    case isTrue above =>
      have small := fits.count fresh booked found (placed.upper ▸ above)
      exact Nat.mod_eq_of_lt small
    case isFalse => rfl
  constructor
  case rooted => exact grown.rooted booked.rooted
  case counted =>
    exact grown.counted booked.rooted booked.counted placed.count counts
  case depth =>
    intro id row found
    rcases grown.cases (commentNodes_of_find found) with
      ⟨-, same⟩ | ⟨_, before, shape⟩
    · have depth := congrArg CountedNode.depth same
      exact depth.trans_le placed.depth
    · rcases find_of_commentNodes before with ⟨old, there, rfl⟩
      exact shape.depth.symm.trans_le (booked.depth id old there)
  case fits =>
    intro id row found
    have node := commentNodes_of_find found
    rcases grown.cases node with ⟨-, same⟩ | ⟨_, before, -⟩
    · have count := (congrArg CountedNode.count same).trans placed.count
      change row.children = 0 at count
      omega
    · have count := counts id _ _ before node
      rcases find_of_commentNodes before with ⟨old, there, rfl⟩
      change row.children = _ at count
      rw [count]
      split
      case isTrue above =>
        exact fits.count fresh booked there (placed.upper ▸ above)
      case isFalse => exact booked.fits id old there

end Stored

/-- A comment which is written keeps the tree. -/
theorem TreeBooked.written
    {db after : Database}
    {op : CommentOperation}
    (booked : TreeBooked db)
    (fits : ReplyFits db op)
    (written : Written ext db op after) :
    TreeBooked after := by
  cases written with
  | edited sees =>
      exact booked.of_sees (sees.map (fun _ => Prod.fst) fun _ _ => rfl)
  | stored later parent comment same fresh found core done =>
      have lookup : ∀ author permlink,
          later.findComment author permlink = db.findComment author permlink := by
        intro author permlink
        rw [findComment, findComment, same]
      have parented : later.findParent op = .ok parent := by
        rw [← found, findParent, findParent, getComment, getComment, lookup]
      have placed : Placed later op comment.node := by
        have node : comment.node = (later.freshComment ext op parent).node :=
          congrArg Prod.fst core
        rw [node]
        exact placed_freshComment ext parented rfl
      have room : ReplyFits later op := by
        intro place above post new named there topmost
        rw [lookup] at new there
        rw [same] at topmost
        exact fits place above post new named there topmost
      exact (booked.of_sees (.of_comments same)).storeComment placed
        ((lookup _ _).trans fresh) room done

/-! ## A comment which is removed -/

section Removed

variable {db after : Database} {op : DeleteCommentOperation}

open Classical in
/-- The rows after a comment is removed and its parents are told. -/
theorem find_deleteComment
    (rooted : Rooted (commentNodes db))
    (done : db.deleteCommentEvaluator op = .ok after) :
    ∃ id comment, db.comments.find? id = some comment ∧
      comment.children = 0 ∧
        ∀ other, after.comments.find? other =
          if id = other then none
          else (db.comments.find? other).map fun old =>
            if Below (commentNodes db) id other then
              recount (decrement 32) db.headBlockTime old
            else old := by
  simp only [deleteCommentEvaluator, bind_eq_ok_iff, getComment,
    orFault_eq_ok_iff, require_eq_ok_iff, pure_eq_ok_iff] at done
  rcases done with ⟨_, -, _, -, ⟨id, comment⟩, found, _, leaf, _, -, done⟩
  rcases done with ⟨_, -, told, walk, rfl⟩
  have stored := (find_of_findComment found).1
  refine ⟨id, comment, stored, leaf, ?_⟩
  have walked := fun rooted other => find_updateParents
    (sameShape_recount (decrement 32) db.headBlockTime) rooted walk other
  have rows : ∀ other, told.comments.find? other =
      (db.comments.find? other).map fun old =>
        if Over (commentNodes db)
            (parentKey comment.parentAuthor comment.parentPermlink) other then
          recount (decrement 32) db.headBlockTime old
        else old := walked rooted
  have upper : parentKey comment.parentAuthor comment.parentPermlink =
      comment.node.upper := rfl
  simp only [upper, over_iff_below (commentNodes_of_find stored)] at rows
  intro other
  rw [Table.find?_remove, rows]

theorem TreeBooked.deleteComment
    (booked : TreeBooked db)
    (done : db.deleteCommentEvaluator op = .ok after) :
    TreeBooked after := by
  rcases find_deleteComment booked.rooted done with
    ⟨id, comment, stored, empty, rows⟩
  have node := commentNodes_of_find stored
  -- The counter is what tells that no reply would lose its parent.
  have leaf : ∀ other, ¬ Below (commentNodes db) other id := by
    intro other below
    have count := booked.counted id _ node
    change comment.children = _ at count
    rw [empty, eq_comm, Set.ncard_eq_zero (booked.rooted.below_finite id),
      Set.eq_empty_iff_forall_notMem] at count
    exact count other below
  have shrunk : Shrunk (commentNodes db) (commentNodes after) id := by
    constructor
    case removed => rw [commentNodes, rows, if_pos rfl, Option.map_none]
    case leaf => exact leaf
    case others =>
      intro other apart
      rw [SameAt, commentNodes, commentNodes, rows, if_neg (Ne.symm apart)]
      cases db.comments.find? other with
      | none => rfl
      | some old =>
          rw [Option.map_some, Option.map_some]
          split
          case isTrue =>
            exact congrArg some (sameShape_recount _ _ old).shape_eq
          case isFalse => rfl
  have counts : ∀ other old row, commentNodes db other = some old →
      commentNodes after other = some row →
        open Classical in
        row.count =
          if Below (commentNodes db) id other then old.count - 1
          else old.count := by
    intro other _ _ before later
    have apart := (shrunk.cases later).1
    rcases find_of_commentNodes before with ⟨old, found, rfl⟩
    rcases find_of_commentNodes later with ⟨new, there, rfl⟩
    rw [rows, if_neg (Ne.symm apart), found, Option.map_some,
      Option.some.injEq] at there
    subst there
    split
    case isTrue below =>
      have count := booked.counted other _ before
      change old.children = _ at count
      have some : 0 < {low | Below (commentNodes db) low other}.ncard :=
        (Set.ncard_pos (booked.rooted.below_finite other)).2 ⟨id, below⟩
      have small := booked.fits other old found
      change decrement 32 old.children = old.children - 1
      rw [decrement]
      omega
    case isFalse => rfl
  constructor
  case rooted => exact shrunk.rooted booked.rooted
  case counted => exact shrunk.counted booked.counted counts
  case depth =>
    intro other row found
    rcases shrunk.cases (commentNodes_of_find found) with
      ⟨-, _, before, shape⟩
    rcases find_of_commentNodes before with ⟨old, there, rfl⟩
    exact shape.depth.symm.trans_le (booked.depth other old there)
  case fits =>
    intro other row found
    have there := commentNodes_of_find found
    rcases shrunk.cases there with ⟨-, _, before, -⟩
    have count := counts other _ _ before there
    rcases find_of_commentNodes before with ⟨old, kept, rfl⟩
    have small := booked.fits other old kept
    have same : old.node.count = old.children := rfl
    change row.children = _ at count
    rw [same] at count
    split at count <;> omega

end Removed

/-! ## Runs -/

theorem TreeBooked.of_agrees
    {fields : List Field}
    {before after : Database}
    (booked : TreeBooked before)
    (agrees : Agrees fields before after)
    (separate : apart [.comments] fields = true) :
    TreeBooked after :=
  booked.of_sees (.of_agrees agrees separate)

theorem treeBooked_genesis :
    TreeBooked initGenesis := by
  have none : ∀ id, commentNodes initGenesis id = none := fun id => rfl
  refine ⟨⟨?_, ?_, ?_, ?_⟩, ?_, ?_, ?_⟩
  · simp [none]
  · intro first second one two found
    cases found
  · intro id node key found
    cases found
  · intro id node found
    cases found
  · intro id node found
    cases found
  · intro id comment found
    cases found
  · intro id comment found
    cases found

/-- A reply which an operation creates can be counted. -/
def RepliesFit (db : Database) : Operation → Prop
  | .comment op => ReplyFits db op
  | .encryptedContent op => ReplyFits db op.toCommentOperation
  | _ => True

theorem TreeBooked.applyOperation
    {db after : Database}
    {op : Operation}
    (booked : TreeBooked db)
    (fits : RepliesFit db op)
    (done : db.applyOperation ext op = .ok after) :
    TreeBooked after := by
  have agrees := touches_applyOperation ext db op after done
  cases op with
  | vote op => exact booked.of_sees (sees_vote ext op db after done)
  | comment op => exact booked.written fits (written_comment done)
  | encryptedContent op =>
      exact booked.written fits (written_encryptedContent done)
  | deleteComment op => exact booked.deleteComment done
  | commentOptions op =>
      have sees := sees_commentOptions op db after done
      exact booked.of_sees (sees.map (fun _ view => view.1.1) fun _ _ => rfl)
  | _ => exact booked.of_agrees agrees rfl

theorem TreeBooked.cashout
    {db after : Database}
    (booked : TreeBooked db)
    (done : db.processCommentCashout ext = .ok after) :
    TreeBooked after := by
  refine processCommentCashout_invariant TreeBooked ?_ ?_
    (eachPayout_of_forall (fun _ _ _ _ => trivial) db) done booked
  · intro before after agrees kept
    exact kept.of_agrees agrees rfl
  · intro db id recentClaims rewardBalance after claimed _ paid kept
    refine kept.of_sees ((sees_cashoutCommentHelper paid).map
      (fun _ => Sum.elim (fun node => node) CommentObject.node) ?_)
    intro other comment
    rw [CommentObject.besides]
    split <;> rfl

theorem TreeBooked.runStep
    {header : BlockHeader}
    {db after : Database}
    {step : BlockStep}
    (booked : TreeBooked db)
    (done : db.runStep ext header step = .ok after) :
    TreeBooked after := by
  have agrees := touches_runStep ext header db step after done
  cases step with
  | processCommentCashout => exact booked.cashout done
  | _ => exact booked.of_agrees agrees rfl

end Database

/--
In every run whose replies can be counted by the posts above them, the
comments are a forest.
-/
theorem comment_tree
    {ext : External}
    {block : Option BlockHeader}
    {db : Database}
    (run : RunState ext
      (EventMeets ext Database.RepliesFit fun _ _ _ => True) block db) :
    db.CommentTree := by
  refine Database.TreeBooked.commentTree ?_
  refine RunState.invariant Database.TreeBooked Database.treeBooked_genesis
    ?_ ?_ ?_ run
  · intro db header after begun booked
    exact booked.of_agrees (Database.touches_beginBlock db header after begun)
      rfl
  · intro db op after fits _ done booked
    exact booked.applyOperation fits done
  · intro header db which after _ done booked
    exact booked.runStep done

/-- An answer to the sample post. -/
def sampleAnswer : Operation :=
  .comment
    { parentAuthor := initMinerName
      parentPermlink := [97]
      author := "devs"
      permlink := [98]
      title := []
      body := [99]
      jsonMetadata := [] }

/-- The comments are a forest after a post and an answer. -/
theorem comment_tree_answered :
    ∃ db,
      [Event.operation (samplePost initMinerName),
          .operation sampleAnswer].foldlM (Database.step plainExternal)
            initGenesis = .ok db ∧
        db.CommentTree := by
  have ran : ((initGenesis.step plainExternal
      (.operation (samplePost initMinerName))).bind fun db =>
        (require
          ((db.findComment initMinerName [97]).all fun entry =>
            (db.comments.find? entry.2.rootComment).all fun post =>
              post.children + 1 < 2 ^ 32) "").bind fun _ =>
          db.step plainExternal (.operation sampleAnswer)).isOk = true := by
    decide +kernel
  rcases exists_of_isOk ran with ⟨db, done⟩
  rcases (bind_eq_ok_iff _ _ _).1 done with ⟨posted, post, done⟩
  rcases (bind_eq_ok_iff _ _ _).1 done with ⟨_, room, answer⟩
  refine ⟨db, ?_, ?_⟩
  · rw [List.foldlM_cons, post]
    change (posted.step plainExternal (.operation sampleAnswer) >>= _) = _
    rw [answer]
    rfl
  · have fits : Database.RepliesFit posted sampleAnswer := by
      intro place parent top _ _ there topmost
      rw [require_eq_ok_iff] at room
      have lookup : posted.findComment initMinerName [97] =
          some (place, parent) := there
      simpa [lookup, topmost] using room
    refine comment_tree (.step (.operation sampleAnswer) (.step
      (.operation (samplePost initMinerName)) .genesis (.operation _ none) ?_
      post) (.operation _ none) fits answer)
    intro _ _ _ _ named
    exact absurd rfl named

end BMChain.State
