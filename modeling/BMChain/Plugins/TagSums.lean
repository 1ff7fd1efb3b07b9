import BMChain.Plugins.TagStatistics
import BMChain.State.Run

/-!
# The tag statistics are sums

The statistics of a tag agree with the tag objects as long as a comment which
is edited keeps its tags, a comment which is deleted has none, and the tags
which a comment gets are different and read back as themselves in the 32 bytes
of their storage.
-/

namespace BMChain.Plugins

open BMChain.Foundation BMChain.Protocol BMChain.State
open Relation

variable {tag : TagName} {rows : List (Nat × TagObject)} {parseTags : Bool}

/-! ## The chain -/

/-- Every comment has a root, and no chain of parents closes. -/
structure RootsKept (db : Database) : Prop where
  root : ∀ id comment, db.comments.find? id = some comment →
    ∃ post, db.comments.find? comment.rootComment = some post
  acyclic : ∀ id, ¬ TransGen (Database.IsReply db) id id

/-- A forest of comments has roots. -/
theorem RootsKept.of_tree
    {db : Database}
    (tree : db.CommentTree) :
    RootsKept db where
  root id comment found := by
    rcases tree.root id comment found with ⟨post, there, -⟩
    exact ⟨post, there⟩
  acyclic := tree.acyclic

namespace TagsPlugin

/-! ## The keys of the objects -/

/-- The comment and the tag of an object. -/
def keyOf (plugin : TagsPlugin) (id : Nat) : Option (Nat × TagName) :=
  (plugin.tags.find? id).map fun row => (row.comment, row.tag)

/-- Objects keep their keys, and new ones belong to one comment. -/
structure Retagged (comment : Nat) (before after : TagsPlugin) : Prop where
  kept : ∀ id key, before.keyOf id = some key → after.keyOf id = some key
  new : ∀ id key, after.keyOf id = some key →
    key.1 = comment ∨ before.keyOf id = some key

theorem Retagged.refl
    (comment : Nat)
    (plugin : TagsPlugin) :
    Retagged comment plugin plugin :=
  ⟨fun _ _ found => found, fun _ _ found => .inr found⟩

theorem Retagged.trans
    {comment : Nat}
    {before middle after : TagsPlugin}
    (first : Retagged comment before middle)
    (second : Retagged comment middle after) :
    Retagged comment before after where
  kept id key found := second.kept id key (first.kept id key found)
  new id key found := by
    rcases second.new id key found with own | there
    · exact .inl own
    · exact first.new id key there

theorem Retagged.of_same
    {comment : Nat}
    {before after : TagsPlugin}
    (same : ∀ id, after.keyOf id = before.keyOf id) :
    Retagged comment before after where
  kept id _ found := (same id).trans found
  new id _ found := .inr ((same id).symm.trans found)

/-- The tags of the objects of a comment and of those above it read back. -/
def ReadsAbove (db : Database) (comment : Nat) (plugin : TagsPlugin) : Prop :=
  ∀ id key, plugin.keyOf id = some key →
    ReflTransGen (Database.IsReply db) comment key.1 →
      .ofText key.2.toText = key.2

/-- Above a comment nothing is new of it. -/
theorem ReadsAbove.parent
    {db : Database}
    {comment parent : Nat}
    {before after : TagsPlugin}
    (roots : RootsKept db)
    (reads : ReadsAbove db comment before)
    (retagged : Retagged comment before after)
    (reply : db.IsReply comment parent) :
    ReadsAbove db parent after := by
  intro id key found path
  rcases retagged.new id key found with own | there
  · rw [own] at path
    exact absurd (TransGen.head' reply path) (roots.acyclic comment)
  · exact reads id key there (.head reply path)

theorem keyOf_of_found
    {plugin : TagsPlugin}
    {id : Nat}
    {row : TagObject}
    (found : plugin.tags.find? id = some row) :
    plugin.keyOf id = some (row.comment, row.tag) := by
  rw [keyOf, found, Option.map_some]

theorem found_of_keyOf
    {plugin : TagsPlugin}
    {id comment : Nat}
    (found : plugin.keyOf id = some (comment, tag)) :
    ∃ row, plugin.tags.find? id = some row ∧ row.comment = comment ∧
      row.tag = tag := by
  rcases Option.map_eq_some_iff.1 found with ⟨row, there, same⟩
  exact ⟨row, there, congrArg Prod.fst same, congrArg Prod.snd same⟩

/-- An object which is added has the next id. -/
theorem keyOf_addTag
    (plugin : TagsPlugin)
    (name : Text)
    (row : TagObject)
    (id : Nat) :
    (plugin.addTag name row).keyOf id =
      if plugin.tags.nextId = id then some (row.comment, row.tag)
      else plugin.keyOf id := by
  show ((plugin.tags.emplace row).find? id).map _ = _
  rw [Table.find?_emplace]
  split <;> rfl

/-- An object which is counted again keeps its key. -/
theorem keyOf_setTag
    {plugin : TagsPlugin}
    {id : Nat}
    {old row : TagObject}
    (found : plugin.tags.find? id = some old)
    (tag : row.tag = old.tag)
    (comment : row.comment = old.comment)
    (name : Text)
    (other : Nat) :
    ((plugin.changeStats name (removeStats old)).setTag id name row).keyOf
      other = plugin.keyOf other := by
  show ((plugin.tags.set id row).find? other).map _ = _
  rw [Table.find?_set found]
  split
  case isTrue same =>
    subst same
    rw [keyOf_of_found found, Option.map_some, comment, tag]
  case isFalse => rfl

end TagsPlugin

/-! ## Single objects -/

section Objects

open TagsPlugin

variable {db : Database} {comment : CommentObject} {id place : Nat}
    {plugin : TagsPlugin} {old : TagObject} {name : Text}

theorem perform_updateTag
    {cashout : Time}
    (found : plugin.tags.find? place = some old)
    (due : db.calculateDiscussionPayoutTime comment = .ok cashout) :
    Effect.perform (updateTag db comment place) plugin =
      (.ok ⟨⟩, (plugin.changeStats old.tag.toText (removeStats old)).setTag
        place old.tag.toText (old.refresh comment cashout)) := by
  rw [updateTag, Effect.perform_bind_ok (Effect.perform_get plugin), found, due]
  rfl

/-- A tag object is made, or a lookup throws and nothing is written. -/
theorem perform_createTag
    (db : Database)
    (id : Nat)
    (comment : CommentObject)
    (name : Text)
    (plugin : TagsPlugin) :
    (∃ fault, Effect.perform (createTag db id comment name) plugin =
        (.error fault, plugin)) ∨
      ∃ author parent, Effect.perform (createTag db id comment name) plugin =
        (.ok ⟨⟩, plugin.addTag name (newTag author parent id comment name)) := by
  rw [createTag, Effect.perform_bind, Effect.perform_lift]
  cases db.getAccount comment.author with
  | error fault => exact .inl ⟨fault, rfl⟩
  | ok author =>
      dsimp only
      rw [Effect.perform_bind, Effect.perform_lift]
      cases parentId db comment with
      | error fault => exact .inl ⟨fault, rfl⟩
      | ok parent => exact .inr ⟨author.id, parent, rfl⟩

/-- The root of a comment is there, so its payout time is. -/
theorem payoutTime_of_roots
    (roots : RootsKept db)
    (stored : db.comments.find? id = some comment) :
    ∃ cashout, db.calculateDiscussionPayoutTime comment = .ok cashout := by
  rcases roots.root id comment stored with ⟨post, there⟩
  unfold Database.calculateDiscussionPayoutTime
  split
  · exact ⟨comment.cashoutTime, rfl⟩
  · refine ⟨post.cashoutTime, ?_⟩
    rw [Database.getCommentById, there]
    rfl

/-- The books are kept, and only tags of one comment are new. -/
def Tended (comment : Nat) (before after : TagsPlugin) : Prop :=
  after.Booked ∧ Retagged comment before after

/-- An object whose tag reads back is updated. -/
theorem tended_updateTag
    (roots : RootsKept db)
    (stored : db.comments.find? id = some comment)
    (booked : plugin.Booked)
    (key : plugin.keyOf place = some (id, tag))
    (reads : .ofText tag.toText = tag) :
    ∃ after, Effect.perform (updateTag db comment place) plugin =
        (.ok ⟨⟩, after) ∧
      after.Booked ∧ ∀ other, after.keyOf other = plugin.keyOf other := by
  rcases found_of_keyOf key with ⟨row, found, -, rfl⟩
  rcases payoutTime_of_roots roots stored with ⟨cashout, due⟩
  refine ⟨_, perform_updateTag found due,
    booked.setTag found reads rfl rfl rfl rfl, ?_⟩
  intro other
  exact keyOf_setTag found (by rfl) (by rfl) row.tag.toText other

/-- The objects of a comment are updated one by one. -/
theorem leaves_updateEach
    {entries : List (Nat × TagObject)}
    (roots : RootsKept db)
    (stored : db.comments.find? id = some comment)
    (booked : plugin.Booked)
    (own : ∀ entry ∈ entries, ∃ tag, plugin.keyOf entry.1 = some (id, tag) ∧
      .ofText tag.toText = tag) :
    Effect.Leaves (Tended id plugin) (fun _ _ => True)
      (Effect.perform (entries.forM fun entry => updateTag db comment entry.1)
        plugin) := by
  refine .forM ⟨booked, .refl id plugin⟩ ?_
  intro entry listed middle tended
  rcases own entry listed with ⟨tag, key, reads⟩
  rcases tended_updateTag roots stored tended.1 (tended.2.kept _ _ key) reads with
    ⟨after, ran, kept, same⟩
  rw [ran]
  exact .ok ⟨kept, tended.2.trans (.of_same same)⟩ trivial

/-! ## The tags of a comment -/

/--
The names which a comment has are updated, and the others are made; what is
made is new to the comment.
-/
theorem leaves_parse
    {names : List Text}
    {start : TagsPlugin}
    (roots : RootsKept db)
    (stored : db.comments.find? id = some comment)
    (own : ∀ name place, existingTag rows name = some place →
      ∃ tag, start.keyOf place = some (id, tag) ∧ .ofText tag.toText = tag)
    (apart : names.Pairwise fun name other =>
      existingTag rows name = none → existingTag rows other = none →
        (FixedString.ofText name : TagName) ≠ .ofText other)
    (tended : Tended id start plugin)
    (free : ∀ name ∈ names, existingTag rows name = none →
      ∀ place, plugin.keyOf place ≠ some (id, .ofText name)) :
    Effect.Leaves (Tended id start) (fun _ _ => True)
      (Effect.perform (names.forM (updateName db rows id comment)) plugin) := by
  induction names generalizing plugin with
  | nil => exact .ok tended trivial
  | cons name rest induction =>
      rw [List.pairwise_cons] at apart
      rw [List.forall_mem_cons] at free
      change Effect.Leaves _ _ (Effect.perform
        (updateName db rows id comment name >>= fun _ =>
          rest.forM (updateName db rows id comment)) plugin)
      rw [Effect.perform_bind, updateName]
      cases existing : existingTag rows name with
      | none =>
          dsimp only
          rcases perform_createTag db id comment name plugin with
            ⟨fault, thrown⟩ | ⟨author, parent, made⟩
          · rw [thrown]
            exact .error tended
          · rw [made]
            have keys := keyOf_addTag plugin name
              (newTag author parent id comment name)
            refine induction apart.2 ⟨?_, tended.2.trans ⟨?_, ?_⟩⟩ ?_
            · refine tended.1.addTag rfl ?_
              intro other row found same
              refine free.1 existing other ?_
              rw [keyOf_of_found found, same]
              rfl
            · intro other key found
              rw [keys, if_neg]
              · exact found
              · rintro rfl
                rcases found_of_keyOf found with ⟨row, there, -⟩
                rw [Table.find?_nextId] at there
                cases there
            · intro other key found
              rw [keys] at found
              split at found
              · cases found
                exact .inl rfl
              · exact .inr found
            · intro other member missing place found
              rw [keys] at found
              split at found
              · exact apart.1 other member existing missing
                  (congrArg Prod.snd (Option.some.inj found))
              · exact free.2 other member missing place found
      | some place =>
          dsimp only
          rcases own name place existing with ⟨tag, key, reads⟩
          rcases tended_updateTag roots stored tended.1
            (tended.2.kept _ _ key) reads with ⟨after, ran, kept, same⟩
          rw [ran]
          refine induction apart.2 ⟨kept, tended.2.trans (.of_same same)⟩ ?_
          intro other member missing place found
          rw [same] at found
          exact free.2 other member missing place found

end Objects

/-- The names in the metadata of a comment for which it has no object. -/
def newNames (lib : MetadataLibrary) (plugin : TagsPlugin) (id : Nat)
    (comment : CommentObject) : List Text :=
  (filterTags lib comment).filter fun name =>
    existingTag (plugin.tagsOfComment id) name = none

/--
A comment which is parsed keeps its tags, and its new names are different from
each other and from its tags when they are cut.
-/
structure KeepsTags (lib : MetadataLibrary) (plugin : TagsPlugin) (id : Nat)
    (comment : CommentObject) : Prop where
  kept : ∀ entry ∈ plugin.tagsOfComment id,
    entry.2.tag.toText ∈ filterTags lib comment
  apart : ((newNames lib plugin id comment).map fun name =>
    (FixedString.ofText name : TagName)).Nodup
  free : ∀ name ∈ newNames lib plugin id comment,
    ∀ entry ∈ plugin.tagsOfComment id, entry.2.tag ≠ .ofText name

section Comments

open TagsPlugin

variable {lib : MetadataLibrary} {db : Database} {comment : CommentObject}
    {id : Nat} {plugin : TagsPlugin}

theorem mem_tagsOfComment
    {entry : Nat × TagObject} :
    entry ∈ plugin.tagsOfComment id ↔
      plugin.tags.find? entry.1 = some entry.2 ∧ entry.2.comment = id := by
  rw [tagsOfComment, List.mem_filter, decide_eq_true_iff]
  exact and_congr_left fun _ => Table.mem_entries_iff

/-- The tag of an object of the comment reads back. -/
theorem readsBack_of_mem
    (reads : ReadsAbove db id plugin)
    {entry : Nat × TagObject}
    (listed : entry ∈ plugin.tagsOfComment id) :
    ∃ tag, plugin.keyOf entry.1 = some (id, tag) ∧
      .ofText tag.toText = tag := by
  rcases mem_tagsOfComment.1 listed with ⟨found, rfl⟩
  have key := keyOf_of_found found
  exact ⟨entry.2.tag, key, reads entry.1 _ key .refl⟩

theorem mem_of_existingTag
    {name : Text}
    {place : Nat}
    (existing : existingTag rows name = some place) :
    ∃ entry ∈ rows, entry.1 = place := by
  rcases Option.map_eq_some_iff.1 existing with ⟨entry, found, same⟩
  exact ⟨entry, List.mem_reverse.1 (List.mem_of_find?_eq_some found), same⟩

section Updates

variable
    (roots : RootsKept db)
    (stored : db.comments.find? id = some comment)
    (booked : plugin.Booked)
    (reads : ReadsAbove db id plugin)

include roots stored booked reads

theorem leaves_updateParsedTags
    (keeps : KeepsTags lib plugin id comment) :
    Effect.Leaves (Tended id plugin) (fun _ _ => True)
      (Effect.perform (updateParsedTags db lib id comment) plugin) := by
  have none : ((plugin.tagsOfComment id).filter fun entry =>
      entry.2.tag.toText ∉ filterTags lib comment) = [] := by
    rw [List.filter_eq_nil_iff]
    intro entry listed
    rw [decide_eq_true_iff, not_not]
    exact keeps.kept entry listed
  have apart := keeps.apart
  rw [List.Nodup, List.pairwise_map, newNames, List.pairwise_filter] at apart
  have parsed : Effect.Leaves (Tended id plugin) (fun _ _ => True)
      (Effect.perform ((filterTags lib comment).forM
        (updateName db (plugin.tagsOfComment id) id comment)) plugin) := by
    refine leaves_parse roots stored ?own ?apart ⟨booked, .refl id plugin⟩ ?free
    case own =>
      intro name place existing
      rcases mem_of_existingTag existing with ⟨entry, listed, rfl⟩
      exact readsBack_of_mem reads listed
    case apart =>
      refine apart.imp ?_
      intro name other differs missing lacking
      exact differs (decide_eq_true missing) (decide_eq_true lacking)
    case free =>
      intro name member missing place found
      rcases found_of_keyOf found with ⟨row, there, own, same⟩
      have new : name ∈ newNames lib plugin id comment :=
        List.mem_filter.2 ⟨member, decide_eq_true missing⟩
      exact keeps.free name new (place, row)
        (mem_tagsOfComment.2 ⟨there, own⟩) same
  rw [updateParsedTags, Effect.perform_bind_ok (Effect.perform_get plugin)]
  refine parsed.bind ?_
  intro _ middle tended _
  rw [none]
  exact .ok tended trivial

theorem leaves_updateOwnTags
    (keeps : parseTags = true → KeepsTags lib plugin id comment) :
    Effect.Leaves (Tended id plugin) (fun _ _ => True)
      (Effect.perform (updateOwnTags db lib parseTags id comment) plugin) := by
  unfold updateOwnTags
  split
  case isTrue parses =>
    exact leaves_updateParsedTags roots stored booked reads (keeps parses)
  case isFalse =>
    rw [Effect.perform_bind_ok (Effect.perform_get plugin)]
    exact leaves_updateEach roots stored booked
      fun entry listed => readsBack_of_mem reads listed

/-- The books are kept up the chain of parents. -/
theorem leaves_updateTags
    {rounds : Nat}
    (keeps : parseTags = true → KeepsTags lib plugin id comment) :
    Effect.Leaves Booked (fun _ _ => True)
      (Effect.perform (updateTags db lib rounds parseTags (id, comment))
        plugin) := by
  induction rounds generalizing parseTags id comment plugin with
  | zero => exact .error booked
  | succ rounds induction =>
      have own := leaves_updateOwnTags roots stored booked reads keeps
      rw [updateTags, Effect.perform_bind]
      generalize Effect.perform (updateOwnTags db lib parseTags id comment)
        plugin = outcome at own
      rcases outcome with ⟨fault | ⟨⟩, middle⟩
      · exact .error own.1.1
      · dsimp only
        split
        case isFalse => exact .ok own.1.1 trivial
        case isTrue named =>
          rw [Effect.perform_bind, Effect.perform_lift]
          cases above : db.getComment comment.parentAuthor
              comment.parentPermlink with
          | error fault => exact .error own.1.1
          | ok entry =>
              rcases entry with ⟨place, parent⟩
              rw [Database.getComment, orFault_eq_ok_iff] at above
              have reply : db.IsReply id place :=
                ⟨comment, parent, stored,
                  fun empty => named (by rw [empty]; rfl), above⟩
              refine induction (Table.find?_of_findBy above) own.1.1
                (reads.parent roots own.1.2 reply) ?_
              rintro ⟨⟩

end Updates

/-- The condition on an update of the tags of a comment, which may be parsed. -/
def Updates (lib : MetadataLibrary) (db : Database) (parseTags : Bool)
    (author : AccountName) (permlink : Text) (plugin : TagsPlugin) : Prop :=
  ∀ id comment, db.getComment author permlink = .ok (id, comment) →
    ReadsAbove db id plugin ∧
      (parseTags = true → KeepsTags lib plugin id comment)

theorem leaves_updateNamed
    {author : AccountName}
    {permlink : Text}
    (roots : RootsKept db)
    (booked : plugin.Booked)
    (updates : Updates lib db parseTags author permlink plugin) :
    Effect.Leaves Booked (fun _ _ => True)
      (Effect.perform (updateNamed db lib parseTags author permlink)
        plugin) := by
  rw [updateNamed, Effect.perform_bind, Effect.perform_lift]
  cases got : db.getComment author permlink with
  | error fault => exact .error booked
  | ok entry =>
      rcases entry with ⟨id, comment⟩
      have steady := updates id comment got
      rw [Database.getComment, orFault_eq_ok_iff] at got
      exact leaves_updateTags roots (Table.find?_of_findBy got) booked steady.1
        steady.2

end Comments

/-! ## Operations -/

section Operations

open TagsPlugin

variable {lib : MetadataLibrary} {db : Database} {plugin : TagsPlugin}

/-- The payout of a tag is not one of the numbers which are counted. -/
theorem booked_changeStats
    (booked : plugin.Booked)
    (name : Text)
    {change : TagStatsObject → TagStatsObject}
    (same : ∀ stats, change stats =
      { stats with totalPayout := (change stats).totalPayout }) :
    (plugin.changeStats name change).Booked := by
  have keeps (stats : TagStatsObject) : (change stats).tag = stats.tag := by
    rw [same]
  refine ⟨booked.comments, ?_, booked.authorStats⟩
  refine booked.tagStats.write rfl keeps ?_ ?_ ?_ StatsFollow.fresh
  · exact fun id row found => .inr ⟨id, row, found, rfl⟩
  · exact fun stats _ follows => follows
  · intro stats _ follows
    rw [same]
    exact ⟨follows.posts, follows.comments, follows.votes⟩

theorem leaves_addPayout
    (booked : plugin.Booked)
    (payout : Asset)
    (name : Text) :
    Effect.Leaves Booked (fun _ _ => True)
      (Effect.perform (addPayout payout name) plugin) := by
  have made : (plugin.changeStats name id).Booked :=
    booked_changeStats booked name fun _ => rfl
  rw [addPayout, Effect.perform_bind_ok (Effect.perform_get plugin),
    Effect.perform_bind_ok (Effect.perform_set _ plugin)]
  split
  · exact .ok made trivial
  case h_2 stats _ =>
    rw [Effect.perform_bind, Effect.perform_lift]
    cases stats.totalPayout.add payout with
    | error fault => exact .error made
    | ok total => exact .ok (booked_changeStats made name fun _ => rfl) trivial

/-- The condition on an operation which the plugin sees. -/
def TagsPlugin.Steady (lib : MetadataLibrary) (db : Database)
    (plugin : TagsPlugin) : TagsOperation → Prop
  | .comment author permlink => Updates lib db true author permlink plugin
  | .encryptedContent author permlink =>
      Updates lib db true author permlink plugin
  | .vote author permlink => Updates lib db false author permlink plugin
  | .deleteComment author =>
      ∀ account, db.getAccount author = .ok account →
        deadTags db plugin account.id = []
  | .commentReward author permlink _ =>
      Updates lib db false author permlink plugin
  | .commentPayoutUpdate author permlink =>
      Updates lib db false author permlink plugin

/-- An operation which meets the condition keeps the books. -/
theorem leaves_visitTags
    {op : TagsOperation}
    (roots : RootsKept db)
    (booked : plugin.Booked)
    (steady : plugin.Steady lib db op) :
    Effect.Leaves Booked (fun _ _ => True)
      (Effect.perform (visitTags db lib op) plugin) := by
  cases op with
  | comment author permlink => exact leaves_updateNamed roots booked steady
  | encryptedContent author permlink =>
      exact leaves_updateNamed roots booked steady
  | vote author permlink => exact leaves_updateNamed roots booked steady
  | commentPayoutUpdate author permlink =>
      exact leaves_updateNamed roots booked steady
  | commentReward author permlink payout =>
      rw [visitTags]
      refine (leaves_updateNamed roots booked steady).bind ?_
      intro _ middle kept _
      rw [Effect.perform_bind, Effect.perform_lift]
      cases db.getComment author permlink with
      | error fault => exact .error kept
      | ok comment =>
          exact .forM kept fun name _ _ held => leaves_addPayout held payout name
  | deleteComment author =>
      rw [visitTags, dropDeadTags, Effect.perform_bind, Effect.perform_lift]
      cases got : db.getAccount author with
      | error fault => exact .error booked
      | ok account =>
          dsimp only
          rw [Effect.perform_bind_ok (Effect.perform_get plugin),
            steady account got]
          exact .ok booked trivial

end Operations

/-! ## Runs -/

/-- The objects of the plugin after operations which meet the condition. -/
inductive TagsRun (lib : MetadataLibrary) : TagsPlugin → Prop
  | start : TagsRun lib {}
  | operation {plugin : TagsPlugin} (db : Database) (op : TagsOperation) :
      TagsRun lib plugin → RootsKept db → plugin.Steady lib db op →
        TagsRun lib (plugin.onOperation db lib op)

theorem TagsRun.booked
    {lib : MetadataLibrary}
    {plugin : TagsPlugin}
    (run : TagsRun lib plugin) :
    plugin.Booked := by
  induction run with
  | start => exact .empty
  | operation db op _ roots steady booked =>
      exact (leaves_visitTags roots booked steady).1

/-- The counters of a tag have room for its numbers. -/
structure CountersFit (tags : Table TagObject) (tag : TagName) : Prop where
  posts : tagged TagObject.isPost tags tag < 2 ^ 32
  comments : tagged TagObject.isReply tags tag < 2 ^ 32
  least : -2 ^ 31 ≤ votesOf tags tag
  most : votesOf tags tag < 2 ^ 31

/-- The statistics of a tag are the sums over the objects with the tag. -/
structure StatsAreSums (tags : Table TagObject) (stats : TagStatsObject) :
    Prop where
  posts : stats.topPosts = tagged TagObject.isPost tags stats.tag
  comments : stats.comments = tagged TagObject.isReply tags stats.tag
  votes : stats.netVotes = votesOf tags stats.tag

theorem StatsFollow.sums_iff
    {tags : Table TagObject}
    {stats : TagStatsObject}
    (follows : StatsFollow tags stats) :
    StatsAreSums tags stats ↔ CountersFit tags stats.tag := by
  have range : (2 ^ 32 : Nat) ≠ 0 := by decide
  have posts := follows.posts
  have comments := follows.comments
  have votes := follows.votes
  constructor
  case mp =>
    intro sums
    rw [sums.posts] at posts
    rw [sums.comments] at comments
    rw [sums.votes] at votes
    have bounds := bmod_eq_self_iff.1 votes.symm
    exact ⟨(Nat.mod_eq_iff_lt range).1 posts.symm,
      (Nat.mod_eq_iff_lt range).1 comments.symm, bounds.1, bounds.2⟩
  case mpr =>
    intro fit
    refine ⟨?_, ?_, ?_⟩
    · rw [posts, Nat.mod_eq_of_lt fit.posts]
    · rw [comments, Nat.mod_eq_of_lt fit.comments]
    · rw [votes, bmod_eq_self_iff.2 ⟨fit.least, fit.most⟩]

/-- The objects and the statistics, as far as the counters reach. -/
structure TagSums (plugin : TagsPlugin) : Prop where
  comments : plugin.tags.Distinct fun row => (row.comment, row.tag)
  known : plugin.tags.All fun row =>
    (∃ stats, plugin.tagStats.Holds stats ∧ stats.tag = row.tag) ∧
      ∃ stats, plugin.authorStats.Holds stats ∧ stats.authorTag = row.authorTag
  tags : plugin.tagStats.Distinct TagStatsObject.tag
  authors : plugin.authorStats.Distinct AuthorTagStatsObject.authorTag
  sums : plugin.tagStats.All fun stats =>
    StatsAreSums plugin.tags stats ↔ CountersFit plugin.tags stats.tag
  posts : plugin.authorStats.All fun stats =>
    stats.totalPosts = postsBy plugin.tags stats.authorTag ↔
      postsBy plugin.tags stats.authorTag < 2 ^ 32

/--
In every run whose operations meet the condition, no comment has a tag twice,
and the statistics of every tag and of every author with a tag are the sums over
the tag objects exactly as long as these fit the counters.
-/
theorem tag_statistics
    {lib : MetadataLibrary}
    {plugin : TagsPlugin}
    (run : TagsRun lib plugin) :
    TagSums plugin := by
  have booked := run.booked
  constructor
  case comments => exact booked.comments
  case known =>
    intro id row found
    rcases booked.tagStats.known id row found with ⟨place, stats, there, same⟩
    rcases booked.authorStats.known id row found with
      ⟨other, author, stored, equal⟩
    exact ⟨⟨stats, ⟨place, there⟩, same⟩, ⟨author, ⟨other, stored⟩, equal⟩⟩
  case tags => exact booked.tagStats.distinct
  case authors => exact booked.authorStats.distinct
  case sums =>
    intro id stats found
    exact (booked.tagStats.right id stats found).sums_iff
  case posts =>
    intro id stats found
    have follows := booked.authorStats.right id stats found
    have range : (2 ^ 32 : Nat) ≠ 0 := by decide
    rw [← Nat.mod_eq_iff_lt range, follows, eq_comm]

/-- The tag in metadata which name one tag of one letter. -/
def oneTag : Text → Option Text
  | [123, 34, 116, 97, 103, 115, 34, 58, 91, 34, letter, 34, 93, 125] =>
      some [letter]
  | _ => none

/-- What the plugin uses of a library, for such metadata. -/
def oneTagLibrary : MetadataLibrary where
  tags text := orFault ((oneTag text).map fun tag => [tag]) "not one tag"
  toLower text := text.map fun byte =>
    if 65 ≤ byte ∧ byte ≤ 90 then byte + 32 else byte

/-- A node which takes such metadata for JSON. -/
def oneTagExternal : External :=
  { plainExternal with
    isJson := fun text => text.isEmpty || (oneTag text).isSome }

/-- A post of the first witness with a tag of one letter. -/
def taggedPost (letter : UInt8) : CommentOperation where
  parentAuthor := ""
  parentPermlink := [98]
  author := initMinerName
  permlink := [97]
  title := []
  body := [99]
  jsonMetadata :=
    [123, 34, 116, 97, 103, 115, 34, 58, 91, 34, letter, 34, 93, 125]

/-- The plugin sees the post, in the database in which it has been made. -/
def seePost (db : Database) (plugin : TagsPlugin) : TagsPlugin :=
  plugin.onOperation db oneTagLibrary (.comment initMinerName [97])

/-- After a post with a tag the statistics are sums over two objects. -/
theorem tag_statistics_post :
    ∃ db,
      initGenesis.step oneTagExternal (.operation (.comment (taggedPost 98))) =
          .ok db ∧
        (seePost db {}).tags.size = 2 ∧
        TagSums (seePost db {}) := by
  have ran : (initGenesis.step oneTagExternal
      (.operation (.comment (taggedPost 98)))).toOption.any (fun db =>
        (seePost db {}).tags.size = 2 ∧
          (db.getComment initMinerName [97]).toOption.all fun entry =>
            (filterTags oneTagLibrary entry.2).map
              (fun name => (FixedString.ofText name : TagName)) |>.Nodup) =
      true := by
    decide +kernel
  rcases exists_of_any ran with ⟨db, made, passed⟩
  rw [decide_eq_true_iff] at passed
  rcases passed with ⟨size, apart⟩
  have posted : initGenesis.applyOperation oneTagExternal
      (.comment (taggedPost 98)) = .ok db := made
  have booked : Database.TreeBooked db := by
    refine Database.treeBooked_genesis.applyOperation ?_ posted
    intro _ _ _ _ named
    exact absurd rfl named
  have roots : RootsKept db := .of_tree booked.commentTree
  refine ⟨db, made, size, tag_statistics (.operation db _ .start roots ?_)⟩
  intro id comment got
  rw [got] at apart
  refine ⟨(fun place key found => nomatch found), fun _ => ⟨?_, ?_, ?_⟩⟩
  · exact fun entry listed => nomatch listed
  · exact ((List.filter_sublist).map _).nodup (of_decide_eq_true apart)
  · exact fun name _ entry listed => nomatch listed

/--
When the post is edited and has another tag, its first tag is no longer there,
and is still counted.
-/
theorem tag_statistics_fails :
    ∃ db edited,
      initGenesis.step oneTagExternal (.operation (.comment (taggedPost 98))) =
          .ok db ∧
        db.step oneTagExternal (.operation (.comment (taggedPost 99))) =
          .ok edited ∧
        ∃ stats, (seePost edited (seePost db {})).tagStats.Holds stats ∧
          ¬ StatsAreSums (seePost edited (seePost db {})).tags stats := by
  have ran : (initGenesis.step oneTagExternal
      (.operation (.comment (taggedPost 98)))).toOption.any (fun db =>
        (db.step oneTagExternal
          (.operation (.comment (taggedPost 99)))).toOption.any fun edited =>
            (seePost edited (seePost db {})).tagStats.entries.any fun entry =>
              entry.2.topPosts ≠ tagged TagObject.isPost
                (seePost edited (seePost db {})).tags entry.2.tag) = true := by
    decide +kernel
  rcases exists_of_any ran with ⟨db, made, ran⟩
  rcases exists_of_any ran with ⟨edited, changed, ran⟩
  rcases List.any_eq_true.1 ran with ⟨⟨id, stats⟩, listed, differs⟩
  refine ⟨db, edited, made, changed, stats,
    ⟨id, Table.mem_entries_iff.1 listed⟩, ?_⟩
  intro sums
  exact of_decide_eq_true differs sums.posts

end BMChain.Plugins
