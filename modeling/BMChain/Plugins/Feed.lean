import BMChain.Foundation.NumberedEntries
import BMChain.Foundation.PartialEffect
import BMChain.Plugins.Follow
import Mathlib.Data.List.Sort
import Mathlib.Data.String.Basic

/-!
# Feeds

The follow plugin keeps a feed for every account which follows a blog, and a
list of the posts of every blog.  A post is entered into the feeds of all the
followers of its author, and of all those of an account which reblogs it; then
the entries of the follower which are too far behind are pruned.  The loop
which prunes looks at the first entry of an index without asking whether there
is one.
-/

namespace BMChain.Plugins

open BMChain.Foundation BMChain.Protocol BMChain.State

/-! ## The objects -/

/-- `feed_object`. -/
structure FeedObject where
  account : AccountName
  rebloggedBy : List AccountName
  firstRebloggedBy : AccountName
  firstRebloggedOn : Time
  comment : Nat
  reblogs : Nat
  accountFeedId : Nat
  deriving DecidableEq

/-- `blog_object`. -/
structure BlogObject where
  account : AccountName
  comment : Nat
  rebloggedOn : Time
  blogFeedId : Nat

/-- `blog_author_stats_object`. -/
structure BlogAuthorStatsObject where
  blogger : AccountName
  guest : AccountName
  count : Nat

/-- The indexes `by_feed` and `by_old_feed`. -/
def feedNumbering : Numbering AccountName FeedObject :=
  ⟨FeedObject.account, FeedObject.accountFeedId⟩

/-- The indexes `by_blog` and `by_old_blog`. -/
def blogNumbering : Numbering AccountName BlogObject :=
  ⟨BlogObject.account, BlogObject.blogFeedId⟩

/-- `reblog_operation`. -/
structure ReblogOperation where
  account : AccountName
  author : AccountName
  permlink : Text

/-- An operation which the plugin sees. -/
inductive FeedEvent where
  | follow (op : FollowOperation)
  | comment (op : CommentOperation)
  | encryptedContent (op : EncryptedContentOperation)
  | reblog (op : ReblogOperation)
  | deleteComment (op : DeleteCommentOperation)

/-- The options of the plugin, and what an unset field holds. -/
structure FeedOptions where
  maxFeedSize : Nat
  startFeeds : Time
  /-- `reblogs` in the entry of a post, which nothing sets. -/
  unsetReblogs : Nat

/-- How a handler ends without a result. -/
inductive FeedFault where
  /-- It throws. -/
  | thrown (fault : Fault)
  /-- It reads the position past the end of an index. -/
  | pastEnd

/-- The objects of the plugin which feeds depend on. -/
structure FeedState where
  follow : FollowState := .empty
  feeds : Table FeedObject := .empty
  blogs : Table BlogObject := .empty
  stats : Table BlogAuthorStatsObject := .empty

/-- The call of a function of the chain. -/
def called {Value : Type} (result : Except Fault Value) :
    Except FeedFault Value :=
  result.mapError .thrown

/-! ## One feed -/

/-- The entry of a comment in the feed of an account. -/
def findFeed (feeds : Table FeedObject) (comment : Nat)
    (account : AccountName) : Option (Nat × FeedObject) :=
  feeds.findBy fun row => (row.comment, row.account) = (comment, account)

/-- `create< feed_object >`. -/
def createFeed (feeds : Table FeedObject) (row : FeedObject) :
    Except FeedFault (Table FeedObject) :=
  called (createRow feeds
    (fun other =>
      (other.account, other.accountFeedId) = (row.account, row.accountFeedId) ∨
        (other.comment, other.account) = (row.comment, row.account))
    row)

/-- The loop which removes old entries from a list of numbered ones. -/
def pruneOld {Row : Type} (numbering : Numbering AccountName Row)
    (options : FeedOptions) (account : AccountName) (nextId : Nat)
    (rows : Table Row) : Except FeedFault (Table Row) :=
  match numbering.prune 32 options.maxFeedSize account nextId (rows.size + 1)
      rows with
  | some kept => .ok kept
  | none => .error .pastEnd

/-- A post enters the feed of a follower, unless it is there. -/
def feedPost (options : FeedOptions) (comment : Nat) (follower : AccountName)
    (feeds : Table FeedObject) : Except FeedFault (Table FeedObject) := do
  let nextId := feedNumbering.nextNumber 32 feeds follower
  match findFeed feeds comment follower with
  | some _ => pure feeds
  | none =>
      let feeds ← createFeed feeds
        { account := follower
          rebloggedBy := []
          firstRebloggedBy := ""
          firstRebloggedOn := 0
          comment := comment
          reblogs := options.unsetReblogs
          accountFeedId := nextId }
      pruneOld feedNumbering options follower nextId feeds

/-- A reblogged post enters the feed of a follower, or is noted there. -/
def feedReblog (options : FeedOptions) (account : AccountName) (now : Time)
    (comment : Nat) (follower : AccountName) (feeds : Table FeedObject) :
    Except FeedFault (Table FeedObject) := do
  let nextId := feedNumbering.nextNumber 32 feeds follower
  let feeds ←
    match findFeed feeds comment follower with
    | none =>
        createFeed feeds
          { account := follower
            rebloggedBy := [account]
            firstRebloggedBy := account
            firstRebloggedOn := now
            comment := comment
            reblogs := 1
            accountFeedId := nextId }
    | some (id, row) =>
        pure (feeds.set id { row with
          rebloggedBy := row.rebloggedBy ++ [account]
          reblogs := increment 32 row.reblogs })
  -- Also when the post was there and nothing has been entered.
  pruneOld feedNumbering options follower nextId feeds

namespace FeedState

/-- The followers of an account, in the order of `by_following_follower`. -/
def followersOf (state : FeedState) (account : AccountName) :
    List FollowObject :=
  ((state.follow.follows.entries.map Prod.snd).filter
    fun row => row.following = account).insertionSort
      fun left right => left.follower ≤ right.follower

/-- One round of the loop over the followers. -/
def visitFollower
    (visit : AccountName → Table FeedObject →
      Except FeedFault (Table FeedObject))
    (row : FollowObject) : Effect FeedFault FeedState Unit :=
  if row.isBlog then do
    let state ← get
    let feeds ← Effect.lift (visit row.follower state.feeds)
    set { state with feeds := feeds }
  else
    pure ()

/-- The loop over the followers; what was written before it throws stays. -/
def forFollowers (account : AccountName)
    (visit : AccountName → Table FeedObject →
      Except FeedFault (Table FeedObject)) :
    Effect FeedFault FeedState Unit := do
  let state ← get
  (state.followersOf account).forM (visitFollower visit)

/-! ## Blogs -/

/-- The entry of a comment in the blog of an account. -/
def findBlog (state : FeedState) (comment : Nat) (account : AccountName) :
    Option (Nat × BlogObject) :=
  state.blogs.findBy fun row => (row.comment, row.account) = (comment, account)

/-- `create< blog_object >`. -/
def createBlog (state : FeedState) (row : BlogObject) :
    Except FeedFault (Table BlogObject) :=
  called (createRow state.blogs
    (fun other =>
      (other.account, other.blogFeedId) = (row.account, row.blogFeedId) ∨
        (other.comment, other.account) = (row.comment, row.account))
    row)

/-- A post enters the blog of its author, unless it is there. -/
def blogPost (options : FeedOptions) (comment : Nat) (author : AccountName) :
    Effect FeedFault FeedState Unit := do
  let state ← get
  let nextId := blogNumbering.nextNumber 32 state.blogs author
  match state.findBlog comment author with
  | some _ => pure ()
  | none =>
      let blogs ← Effect.lift (state.createBlog ⟨author, comment, 0, nextId⟩)
      set { state with blogs := blogs }
      let blogs ← Effect.lift
        (pruneOld blogNumbering options author nextId blogs)
      set { state with blogs := blogs }

/-- The number of posts of a guest on a blog grows. -/
def countReblog (blogger guest : AccountName) :
    Effect FeedFault FeedState Unit := do
  let state ← get
  match firstBy (fun left right => right.2.count < left.2.count)
      (state.stats.entries.filter fun entry =>
        entry.2.blogger = blogger ∧ entry.2.guest = guest) with
  | some (id, row) =>
      set { state with
        stats := state.stats.set id
          { row with count := increment 32 row.count } }
  | none =>
      let stats ← Effect.lift (called (createRow state.stats
        (fun other =>
          (other.blogger, other.guest, other.count) = (blogger, guest, 1))
        ⟨blogger, guest, 1⟩))
      set { state with stats := stats }

/-! ## The operations -/

/--
`post_operation_visitor` for a `comment_operation`, and the copy of it for an
`encrypted_content_operation`.
-/
def onContent (options : FeedOptions) (db : Database)
    (parentAuthor author : AccountName) (permlink : Text) :
    Effect FeedFault FeedState Unit := do
  if 0 < nameSize parentAuthor then
    pure ()
  else
    let (id, comment) ← Effect.lift (called (db.getComment author permlink))
    if comment.created ≠ db.headBlockTime then
      pure ()
    else
      if options.startFeeds ≤ db.headBlockTime then
        forFollowers author (feedPost options id)
      blogPost options id author

/-- `reblog_evaluator::do_apply`. -/
def doReblog (options : FeedOptions) (db : Database) (op : ReblogOperation) :
    Effect FeedFault FeedState Unit := do
  let (id, comment) ←
    Effect.lift (called (db.getComment op.author op.permlink))
  Effect.lift (called (require (nameSize comment.parentAuthor = 0)
    "Only top level posts can be reblogged"))
  let state ← get
  let nextId := blogNumbering.nextNumber 32 state.blogs op.account
  Effect.lift (called (require ((state.findBlog id op.account).isNone)
    "Account has already reblogged this post"))
  let blogs ← Effect.lift
    (state.createBlog ⟨op.account, id, db.headBlockTime, nextId⟩)
  set { state with blogs := blogs }
  countReblog op.account comment.author
  if options.startFeeds ≤ db.headBlockTime then
    forFollowers op.account
      (feedReblog options op.account db.headBlockTime id)

/-- `pre_operation_visitor` for a `delete_comment_operation`. -/
def onDeleteComment (db : Database) (op : DeleteCommentOperation)
    (state : FeedState) : FeedState :=
  match db.findComment op.author op.permlink with
  | none => state
  | some (id, comment) =>
      if nameSize comment.parentAuthor ≠ 0 then state
      else
        { state with
          feeds := (state.feeds.entries.filter
            fun entry => entry.2.comment = id).foldl
              (fun feeds entry => feeds.remove entry.1) state.feeds
          blogs := (state.blogs.entries.filter
            fun entry => entry.2.comment = id).foldl
              (fun blogs entry => blogs.remove entry.1) state.blogs }

/-- What a handler has written stays, also when it throws. -/
def written (outcome : Except FeedFault Unit × FeedState) :
    Option FeedState :=
  match outcome.1 with
  | .error .pastEnd => none
  | _ => some outcome.2

/-- What an evaluator has written is undone when it throws. -/
def squashed (state : FeedState)
    (outcome : Except FeedFault Unit × FeedState) : Option FeedState :=
  match outcome.1 with
  | .error .pastEnd => none
  | .error (.thrown _) => some state
  | .ok _ => some outcome.2

/--
The plugin after an operation, given the database in which it sees it; nothing
when a loop has read past the end of an index.
-/
def apply (options : FeedOptions) (db : Database) (state : FeedState) :
    FeedEvent → Option FeedState
  | .follow op =>
      match state.follow.doApply op with
      | .ok follow => some { state with follow := follow }
      | .error _ => some state
  | .comment op =>
      written (Effect.perform
        (onContent options db op.parentAuthor op.author op.permlink) state)
  | .encryptedContent op =>
      written (Effect.perform
        (onContent options db op.parentAuthor op.author op.permlink) state)
  | .reblog op =>
      state.squashed (Effect.perform (doReblog options db op) state)
  | .deleteComment op => some (onDeleteComment db op state)

end FeedState

end BMChain.Plugins
