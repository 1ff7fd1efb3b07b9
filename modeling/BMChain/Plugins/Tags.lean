import Mathlib.Data.List.Dedup
import Mathlib.Data.List.Sort
import BMChain.Foundation.PartialEffect
import BMChain.Foundation.Summaries
import BMChain.Protocol.FixedString
import BMChain.State.Database

/-!
# Tags

The tags plugin keeps a tag object for each comment and each of its tags, and
along with them the statistics of every tag and of every author with a tag.
What a handler throws is caught at the end of it, and what it has written stays.
The scores `hot` and `trending`, which are floating point numbers and only order
the indexes, are left out.
-/

namespace BMChain.Plugins

open BMChain.Foundation BMChain.Protocol BMChain.State

/-! ## The objects -/

/-- `tag_name_type`. -/
abbrev TagName := FixedString 32

/-- `tag_object`. -/
structure TagObject where
  tag : TagName
  created : Time
  active : Time
  cashout : Time
  netRshares : Int
  netVotes : Int
  children : Int
  promotedBalance : Int := 0
  author : Nat
  parent : Nat
  comment : Nat

/-- `is_post`: the parent is the default id, which is zero. -/
def TagObject.isPost (tag : TagObject) : Bool :=
  tag.parent = 0

/-- `tag_stats_object`. -/
structure TagStatsObject where
  tag : TagName
  totalPayout : Asset := bmt 0
  netVotes : Int := 0
  topPosts : Nat := 0
  comments : Nat := 0

/-- `author_tag_stats_object`. -/
structure AuthorTagStatsObject where
  author : Nat
  tag : TagName
  totalPosts : Nat := 0

/-- The author and the tag of a tag object. -/
def TagObject.authorTag (tag : TagObject) : Nat × TagName :=
  (tag.author, tag.tag)

/-- The author and the tag of a row of the statistics. -/
def AuthorTagStatsObject.authorTag (stats : AuthorTagStatsObject) :
    Nat × TagName :=
  (stats.author, stats.tag)

/-- The objects of the plugin. -/
structure TagsPlugin where
  tags : Table TagObject := .empty
  tagStats : Table TagStatsObject := .empty
  authorStats : Table AuthorTagStatsObject := .empty

/-- What a handler of the plugin does. -/
abbrev TagsHandler (Value : Type) := Effect Fault TagsPlugin Value

/-! ## Statistics -/

/-- `remove_stats`. -/
def removeStats (tag : TagObject) (stats : TagStatsObject) : TagStatsObject :=
  { stats with
    topPosts :=
      if tag.isPost then decrement 32 stats.topPosts else stats.topPosts
    comments :=
      if tag.isPost then stats.comments else decrement 32 stats.comments
    netVotes := (stats.netVotes - tag.netVotes).bmod (2 ^ 32) }

/-- `add_stats`. -/
def addStats (tag : TagObject) (stats : TagStatsObject) : TagStatsObject :=
  { stats with
    topPosts :=
      if tag.isPost then increment 32 stats.topPosts else stats.topPosts
    comments :=
      if tag.isPost then stats.comments else increment 32 stats.comments
    netVotes := (stats.netVotes + tag.netVotes).bmod (2 ^ 32) }

namespace TagsPlugin

/-- `get_stats`, which is given the tag as a string, and a change of the object. -/
def changeStats (plugin : TagsPlugin) (tag : Text)
    (change : TagStatsObject → TagStatsObject) : TagsPlugin :=
  { plugin with
    tagStats :=
      plugin.tagStats.upsert TagStatsObject.tag (.ofText tag)
        { tag := .ofText tag } change }

/-- One more object of an author with a tag. -/
def countPost (plugin : TagsPlugin) (author : Nat) (tag : Text) :
    TagsPlugin :=
  { plugin with
    authorStats :=
      plugin.authorStats.upsert AuthorTagStatsObject.authorTag
        (author, .ofText tag) { author := author, tag := .ofText tag }
        fun stats => { stats with
          totalPosts := increment 32 stats.totalPosts } }

/-- A tag object is made, and counted by the two kinds of statistics. -/
def addTag (plugin : TagsPlugin) (name : Text) (tag : TagObject) : TagsPlugin :=
  ({ plugin with tags := plugin.tags.emplace tag }.changeStats name
    (addStats tag)).countPost tag.author name

/-- A tag object is overwritten, and counted again by those of its tag. -/
def setTag (plugin : TagsPlugin) (id : Nat) (name : Text) (tag : TagObject) :
    TagsPlugin :=
  { plugin with tags := plugin.tags.set id tag }.changeStats name (addStats tag)

/-- The tag objects of a comment, in the order of `by_comment`. -/
def tagsOfComment (plugin : TagsPlugin) (comment : Nat) :
    List (Nat × TagObject) :=
  plugin.tags.entries.filter fun entry => entry.2.comment = comment

end TagsPlugin

/--
`remove_tag`.  The statistics of the tag are left as they are; those of its
author are read off the object which has just been removed.
-/
def removeTag (id : Nat) : TagsHandler Unit := do
  let plugin ← get
  match plugin.tags.find? id with
  | none => pure ()
  | some tag =>
      let stats := plugin.authorStats.findBy fun stats =>
        stats.authorTag = tag.authorTag
      set { plugin with
        tags := plugin.tags.remove id
        authorStats :=
          match stats with
          | none => plugin.authorStats
          | some (row, stats) =>
              plugin.authorStats.set row { stats with
                totalPosts := decrement 32 stats.totalPosts } }

/-! ## The tags of a comment -/

/-- What is used of a library for JSON and text. -/
structure MetadataLibrary where
  /-- `fc::json::from_string`, and the set `tags` of `comment_metadata`. -/
  tags : Text → Except Fault (List Text)
  /-- `fc::to_lower`. -/
  toLower : Text → Text

/-- A `set<string>` of texts: each one once, in order. -/
def textSet (texts : List Text) : List Text :=
  texts.dedup.insertionSort fun left right => left ≤ right

/-- The tags in the metadata of a comment; there are none when it throws. -/
def metadataTags (lib : MetadataLibrary) (metadata : Text) : List Text :=
  if metadata = [] then []
  else (lib.tags metadata).toOption.getD []

/-- `filter_tags`, which looks at the first five tags. -/
def filterTags (lib : MetadataLibrary) (comment : CommentObject) : List Text :=
  let first := (metadataTags lib comment.jsonMetadata).take 5
  let lower := (first.filter fun tag => tag ≠ []).map lib.toLower
  -- The universal tag is the empty text.
  textSet (if 0 ≤ comment.netRshares then [] :: lower else lower)

section Updates

/-- What `update_tag` writes. -/
def TagObject.refresh (tag : TagObject) (comment : CommentObject)
    (cashout : Time) : TagObject :=
  { tag with
    active := comment.active
    cashout := cashout
    children := (comment.children : Int).bmod (2 ^ 32)
    netRshares := comment.netRshares
    netVotes := comment.netVotes
    promotedBalance := if cashout = 0 then 0 else tag.promotedBalance }

/-- What `create_tag` writes. -/
def newTag (author parent id : Nat) (comment : CommentObject) (name : Text) :
    TagObject where
  tag := .ofText name
  created := comment.created
  active := comment.active
  cashout := comment.cashoutTime
  netRshares := comment.netRshares
  netVotes := comment.netVotes
  children := (comment.children : Int).bmod (2 ^ 32)
  author := author
  parent := parent
  comment := id

variable (db : Database)

/-- `update_tag`, with the object as it is when it is called. -/
def updateTag (comment : CommentObject) (id : Nat) : TagsHandler Unit := do
  let plugin ← get
  match plugin.tags.find? id with
  | none => pure ()
  | some current =>
      let name := current.tag.toText
      set (plugin.changeStats name (removeStats current))
      let cashout ← Effect.lift (db.calculateDiscussionPayoutTime comment)
      let plugin ← get
      set (plugin.setTag id name (current.refresh comment cashout))

/-- The id of the parent of a comment, which is zero for a post. -/
def parentId (comment : CommentObject) : Except Fault Nat :=
  if nameSize comment.parentAuthor = 0 then .ok 0
  else do
    let (id, _) ← db.getComment comment.parentAuthor comment.parentPermlink
    pure id

/-- `create_tag`. -/
def createTag (id : Nat) (comment : CommentObject) (name : Text) :
    TagsHandler Unit := do
  let author ← Effect.lift (db.getAccount comment.author)
  let parent ← Effect.lift (parentId db comment)
  let plugin ← get
  set (plugin.addTag name (newTag author.id parent id comment name))

/-- The tag object with a name, in `existing_tags`, where the last one stays. -/
def existingTag (rows : List (Nat × TagObject)) (name : Text) : Option Nat :=
  (rows.reverse.find? fun entry => entry.2.tag.toText = name).map Prod.fst

/-- The object of a name is updated, or made when there is none. -/
def updateName (rows : List (Nat × TagObject)) (id : Nat)
    (comment : CommentObject) (name : Text) : TagsHandler Unit :=
  match existingTag rows name with
  | none => createTag db id comment name
  | some tag => updateTag db comment tag

/-- The part of `update_tags` which reads the tags of the comment anew. -/
def updateParsedTags (lib : MetadataLibrary) (id : Nat)
    (comment : CommentObject) : TagsHandler Unit := do
  let plugin ← get
  let rows := plugin.tagsOfComment id
  let names := filterTags lib comment
  names.forM (updateName db rows id comment)
  (rows.filter fun entry => entry.2.tag.toText ∉ names).forM fun entry =>
    removeTag entry.1

/-- The part of `update_tags` about the tags of the comment itself. -/
def updateOwnTags (lib : MetadataLibrary) (parseTags : Bool) (id : Nat)
    (comment : CommentObject) : TagsHandler Unit :=
  if parseTags then updateParsedTags db lib id comment
  else do
    let plugin ← get
    (plugin.tagsOfComment id).forM fun entry => updateTag db comment entry.1

/--
`update_tags`, for a comment and then for the comments above it.  A chain of
parents which does not close has no more comments than there are.
-/
def updateTags (lib : MetadataLibrary) :
    Nat → Bool → Nat × CommentObject → TagsHandler Unit
  | 0, _, _ => throw "endless chain of parents"
  | rounds + 1, parseTags, (id, comment) => do
      updateOwnTags db lib parseTags id comment
      if nameSize comment.parentAuthor ≠ 0 then
        let parent ← Effect.lift
          (db.getComment comment.parentAuthor comment.parentPermlink)
        updateTags lib rounds false parent

/-- The lookup of a comment and `update_tags` for it. -/
def updateNamed (lib : MetadataLibrary) (parseTags : Bool)
    (author : AccountName) (permlink : Text) : TagsHandler Unit := do
  let comment ← Effect.lift (db.getComment author permlink)
  updateTags db lib (db.comments.size + 1) parseTags comment

/-! ## Notifications -/

/-- The tag objects of comments of an author which are no longer there. -/
def deadTags (plugin : TagsPlugin) (author : Nat) : List (Nat × TagObject) :=
  plugin.tags.entries.filter fun entry =>
    entry.2.author = author ∧ (db.comments.find? entry.2.comment).isNone

/-- The handler of `delete_comment_operation`, which only removes. -/
def dropDeadTags (author : AccountName) : TagsHandler Unit := do
  let account ← Effect.lift (db.getAccount author)
  let plugin : TagsPlugin ← get
  let tags := (deadTags db plugin account.id).foldl
    (fun tags entry => tags.remove entry.1) plugin.tags
  set { plugin with tags := tags }

/-- `total_payout` of a tag. -/
def addPayout (payout : Asset) (name : Text) : TagsHandler Unit := do
  let plugin ← get
  let plugin := plugin.changeStats name id
  set plugin
  match plugin.tagStats.findBy fun stats => stats.tag = .ofText name with
  | none => pure ()
  | some (_, stats) =>
      let total ← Effect.lift (stats.totalPayout.add payout)
      set (plugin.changeStats name fun stats =>
        { stats with totalPayout := total })

/-- The operations which the plugin updates tags for. -/
inductive TagsOperation where
  | comment (author : AccountName) (permlink : Text)
  | encryptedContent (author : AccountName) (permlink : Text)
  | vote (author : AccountName) (permlink : Text)
  | deleteComment (author : AccountName)
  | commentReward (author : AccountName) (permlink : Text) (payout : Asset)
  | commentPayoutUpdate (author : AccountName) (permlink : Text)

/-- `operation_visitor`. -/
def visitTags (lib : MetadataLibrary) : TagsOperation → TagsHandler Unit
  | .comment author permlink => updateNamed db lib true author permlink
  | .encryptedContent author permlink => updateNamed db lib true author permlink
  | .vote author permlink => updateNamed db lib false author permlink
  | .deleteComment author => dropDeadTags db author
  | .commentReward author permlink payout => do
      updateNamed db lib false author permlink
      let comment ← Effect.lift (db.getComment author permlink)
      (filterTags lib comment.2).forM (addPayout payout)
  | .commentPayoutUpdate author permlink =>
      updateNamed db lib false author permlink

/-- `on_operation`, which keeps to itself what a handler throws. -/
def TagsPlugin.onOperation (lib : MetadataLibrary) (op : TagsOperation)
    (plugin : TagsPlugin) : TagsPlugin :=
  (Effect.perform (visitTags db lib op) plugin).2

end Updates

end BMChain.Plugins
