import BMChain.Plugins.Tags
import BMChain.State.CommentTree

/-!
# What the tag statistics count

The statistics follow the tag objects modulo the range of their counters as
long as a tag object which is made stays: updates change the objects in place
and count them again.  An object which is removed is still counted by its tag.
-/

namespace BMChain.Plugins

open BMChain.Foundation BMChain.Protocol BMChain.State

/-! ## The numbers -/

/-- The number of tag objects of some kind with a tag. -/
def tagged (kind : TagObject → Bool) (tags : Table TagObject) (tag : TagName) :
    Nat :=
  tags.countOf fun row => row.tag = tag && kind row

/-- The objects which are not posts. -/
def TagObject.isReply (tag : TagObject) : Bool :=
  !tag.isPost

/-- The sum of the votes on what has a tag. -/
def votesOf (tags : Table TagObject) (tag : TagName) : Int :=
  sumOf (fun row => if row.tag = tag then row.netVotes else 0) tags.rows

/-- The number of tag objects of an author with a tag. -/
def postsBy (tags : Table TagObject) (key : Nat × TagName) : Nat :=
  tags.countOf fun row => row.authorTag = key

/-- The statistics of a tag follow its numbers, within the counters. -/
structure StatsFollow (tags : Table TagObject) (stats : TagStatsObject) :
    Prop where
  posts : stats.topPosts = tagged TagObject.isPost tags stats.tag % 2 ^ 32
  comments : stats.comments = tagged TagObject.isReply tags stats.tag % 2 ^ 32
  votes : stats.netVotes = (votesOf tags stats.tag).bmod (2 ^ 32)

/-- The statistics of an author with a tag follow the number. -/
def AuthorFollows (tags : Table TagObject) (stats : AuthorTagStatsObject) :
    Prop :=
  stats.totalPosts = postsBy tags stats.authorTag % 2 ^ 32

section Counting

variable {tags : Table TagObject} {row old : TagObject} {id : Nat}
variable {tag : TagName} {kind : TagObject → Bool}

theorem one_of_tag
    (same : row.tag = tag) :
    Table.one (fun row => row.tag = tag && kind row) row =
      Table.one kind row := by
  simp only [Table.one, same, decide_true, Bool.true_and]

theorem one_of_other
    (different : row.tag ≠ tag) :
    Table.one (fun row => row.tag = tag && kind row) row = 0 := by
  simp only [Table.one, different, decide_false, Bool.false_and]
  rfl

theorem tagged_emplace
    (same : row.tag = tag) :
    tagged kind (tags.emplace row) tag =
      tagged kind tags tag + Table.one kind row := by
  rw [tagged, Table.countOf_emplace, one_of_tag same]
  rfl

theorem tagged_emplace_other
    (different : row.tag ≠ tag) :
    tagged kind (tags.emplace row) tag = tagged kind tags tag := by
  rw [tagged, Table.countOf_emplace, one_of_other different]
  rfl

/-- A row which keeps its tag and its kind is counted as before. -/
theorem tagged_set
    (found : tags.find? id = some old)
    (same : row.tag = old.tag)
    (kept : kind row = kind old) :
    tagged kind (tags.set id row) tag = tagged kind tags tag := by
  have moved := Table.countOf_set (fun row => row.tag = tag && kind row) found
    row
  have equal : Table.one (fun row => row.tag = tag && kind row) row =
      Table.one (fun row => row.tag = tag && kind row) old := by
    simp only [Table.one, same, kept]
  rw [equal] at moved
  exact Nat.add_right_cancel moved

/-- A row is counted under its tag. -/
theorem one_le_tagged
    (found : tags.find? id = some old)
    (same : old.tag = tag) :
    Table.one kind old ≤ tagged kind tags tag := by
  rw [← one_of_tag same]
  exact Table.one_le_countOf _ found

theorem votesOf_emplace
    (tags : Table TagObject)
    (row : TagObject)
    (tag : TagName) :
    votesOf (tags.emplace row) tag =
      votesOf tags tag + if row.tag = tag then row.netVotes else 0 :=
  Table.sumOf_emplace _ tags row

theorem votesOf_set
    (found : tags.find? id = some old)
    (row : TagObject)
    (tag : TagName) :
    votesOf (tags.set id row) tag =
      votesOf tags tag - (if old.tag = tag then old.netVotes else 0) +
        if row.tag = tag then row.netVotes else 0 :=
  Table.sumOf_set _ found row

/-- A counter goes on following a number which grows by one or not. -/
theorem increment_follows
    {bits counter number : Nat}
    (follows : counter = number % 2 ^ bits) :
    (if kind row then increment bits counter else counter) =
      (number + Table.one kind row) % 2 ^ bits := by
  rw [Table.one, follows]
  split
  case isTrue => exact increment_mod bits number
  case isFalse => rfl

theorem decrement_follows
    {bits counter number : Nat}
    (follows : counter = number % 2 ^ bits)
    (counted : Table.one kind row ≤ number) :
    (if kind row then decrement bits counter else counter) =
      (number - Table.one kind row) % 2 ^ bits := by
  rw [follows]
  unfold Table.one at counted ⊢
  split
  case isTrue yes =>
    rw [if_pos yes] at counted
    have less := decrement_mod bits (number - 1)
    rw [Nat.sub_add_cancel counted] at less
    exact less
  case isFalse => rfl

/-- A counter from which a row is taken and to which it is added again. -/
theorem update_follows
    {bits counter number : Nat}
    (follows : counter = number % 2 ^ bits)
    (counted : Table.one kind old ≤ number)
    (kept : kind row = kind old) :
    (if kind row then
        increment bits (if kind old then decrement bits counter else counter)
      else if kind old then decrement bits counter
      else counter) =
      number % 2 ^ bits := by
  have less := decrement_follows follows counted
  have more := @increment_follows row kind _ _ _ less
  have turned : Table.one kind row = Table.one kind old := by
    rw [Table.one, Table.one, kept]
  rw [turned, Nat.sub_add_cancel counted] at more
  exact more

end Counting

/-! ## One write -/

section Writes

variable {tags : Table TagObject} {stats : TagStatsObject}
    {row old : TagObject} {id : Nat}

section Rows

variable (row : TagObject) (stats : TagStatsObject)

theorem ite_isReply
    (reply post : Nat) :
    (if row.isReply then reply else post) =
      if row.isPost then post else reply := by
  rw [TagObject.isReply]
  cases row.isPost <;> rfl

@[simp]
theorem addStats_topPosts :
    (addStats row stats).topPosts =
      if row.isPost then increment 32 stats.topPosts else stats.topPosts :=
  rfl

@[simp]
theorem addStats_comments :
    (addStats row stats).comments =
      if row.isReply then increment 32 stats.comments else stats.comments :=
  (ite_isReply row _ _).symm

@[simp]
theorem addStats_netVotes :
    (addStats row stats).netVotes =
      (stats.netVotes + row.netVotes).bmod (2 ^ 32) :=
  rfl

@[simp]
theorem addStats_tag :
    (addStats row stats).tag = stats.tag :=
  rfl

@[simp]
theorem removeStats_topPosts :
    (removeStats row stats).topPosts =
      if row.isPost then decrement 32 stats.topPosts else stats.topPosts :=
  rfl

@[simp]
theorem removeStats_comments :
    (removeStats row stats).comments =
      if row.isReply then decrement 32 stats.comments else stats.comments :=
  (ite_isReply row _ _).symm

@[simp]
theorem removeStats_netVotes :
    (removeStats row stats).netVotes =
      (stats.netVotes - row.netVotes).bmod (2 ^ 32) :=
  rfl

@[simp]
theorem removeStats_tag :
    (removeStats row stats).tag = stats.tag :=
  rfl

end Rows

/-- A new row is counted by the statistics of its tag. -/
theorem StatsFollow.add
    (follows : StatsFollow tags stats)
    (same : stats.tag = row.tag) :
    StatsFollow (tags.emplace row) (addStats row stats) := by
  rcases follows with ⟨posts, comments, votes⟩
  constructor
  case posts =>
    rw [addStats_topPosts, addStats_tag, tagged_emplace same.symm]
    exact increment_follows posts
  case comments =>
    rw [addStats_comments, addStats_tag, tagged_emplace same.symm]
    exact increment_follows comments
  case votes =>
    rw [addStats_netVotes, addStats_tag, votesOf_emplace, if_pos same.symm,
      votes, Int.bmod_add_bmod]

theorem StatsFollow.add_other
    (follows : StatsFollow tags stats)
    (different : stats.tag ≠ row.tag) :
    StatsFollow (tags.emplace row) stats := by
  rcases follows with ⟨posts, comments, votes⟩
  constructor
  case posts => rw [tagged_emplace_other different.symm, posts]
  case comments => rw [tagged_emplace_other different.symm, comments]
  case votes => rw [votesOf_emplace, if_neg different.symm, add_zero, votes]

/-- A row which is written anew is counted again by the statistics of its tag. -/
theorem StatsFollow.update
    (follows : StatsFollow tags stats)
    (found : tags.find? id = some old)
    (same : stats.tag = old.tag)
    (tag : row.tag = old.tag)
    (post : row.isPost = old.isPost) :
    StatsFollow (tags.set id row) (addStats row (removeStats old stats)) := by
  have reply : row.isReply = old.isReply := by
    rw [TagObject.isReply, TagObject.isReply, post]
  rcases follows with ⟨posts, comments, votes⟩
  constructor
  case posts =>
    rw [addStats_topPosts, addStats_tag, removeStats_topPosts, removeStats_tag,
      tagged_set found tag post]
    exact update_follows posts (one_le_tagged found same.symm) post
  case comments =>
    rw [addStats_comments, addStats_tag, removeStats_comments, removeStats_tag,
      tagged_set found tag reply]
    exact update_follows comments (one_le_tagged found same.symm) reply
  case votes =>
    rw [addStats_netVotes, addStats_tag, removeStats_netVotes, removeStats_tag,
      votesOf_set found, if_pos same.symm, if_pos (tag.trans same.symm), votes,
      Int.bmod_sub_bmod, Int.bmod_add_bmod]

theorem StatsFollow.update_other
    (follows : StatsFollow tags stats)
    (found : tags.find? id = some old)
    (different : stats.tag ≠ old.tag)
    (tag : row.tag = old.tag)
    (post : row.isPost = old.isPost) :
    StatsFollow (tags.set id row) stats := by
  have reply : row.isReply = old.isReply := by
    rw [TagObject.isReply, TagObject.isReply, post]
  rcases follows with ⟨posts, comments, votes⟩
  constructor
  case posts => rw [tagged_set found tag post, posts]
  case comments => rw [tagged_set found tag reply, comments]
  case votes =>
    rw [votesOf_set found, tag, if_neg different.symm, if_neg different.symm,
      sub_zero, add_zero, votes]

/-- A tag which no row has counts nothing. -/
theorem StatsFollow.fresh
    {tag : TagName}
    (free : tags.All fun row => row.tag ≠ tag) :
    StatsFollow tags { tag := tag } := by
  have none (kind : TagObject → Bool) : tagged kind tags tag = 0 := by
    rw [tagged, Table.countOf, List.length_eq_zero_iff, List.filter_eq_nil_iff]
    rintro ⟨id, row⟩ listed
    have other := free id row (Table.mem_entries_iff.1 listed)
    simp [other]
  have votes : votesOf tags tag = 0 := by
    refine sumOf_eq_zero ?_
    intro id row found
    exact if_neg (free id row found)
  constructor
  case posts => exact (congrArg (· % 2 ^ 32) (none _)).symm
  case comments => exact (congrArg (· % 2 ^ 32) (none _)).symm
  case votes => exact (congrArg (Int.bmod · (2 ^ 32)) votes).symm

end Writes

section Authors

variable {tags : Table TagObject} {stats : AuthorTagStatsObject}
    {row old : TagObject} {id : Nat}

theorem AuthorFollows.add
    (follows : AuthorFollows tags stats)
    (same : stats.authorTag = row.authorTag) :
    AuthorFollows (tags.emplace row)
      { stats with totalPosts := increment 32 stats.totalPosts } := by
  have grown : postsBy (tags.emplace row) stats.authorTag =
      postsBy tags stats.authorTag + 1 := by
    rw [postsBy, Table.countOf_emplace, Table.one, if_pos]
    · rfl
    · exact decide_eq_true same.symm
  show increment 32 stats.totalPosts =
    postsBy (tags.emplace row) stats.authorTag % 2 ^ 32
  rw [grown, follows]
  exact increment_mod 32 _

theorem AuthorFollows.add_other
    (follows : AuthorFollows tags stats)
    (different : stats.authorTag ≠ row.authorTag) :
    AuthorFollows (tags.emplace row) stats := by
  rw [AuthorFollows, postsBy, Table.countOf_emplace, Table.one, if_neg]
  · exact follows
  · exact Bool.eq_false_iff.1 (decide_eq_false different.symm)

theorem AuthorFollows.update
    (follows : AuthorFollows tags stats)
    (found : tags.find? id = some old)
    (same : row.authorTag = old.authorTag) :
    AuthorFollows (tags.set id row) stats := by
  have moved := Table.countOf_set
    (fun row => row.authorTag = stats.authorTag) found row
  have equal : Table.one (fun row => row.authorTag = stats.authorTag) row =
      Table.one (fun row => row.authorTag = stats.authorTag) old := by
    simp only [Table.one, same]
  rw [equal] at moved
  rw [AuthorFollows, postsBy, Nat.add_right_cancel moved]
  exact follows

/-- An author without an object of a tag has a count of zero. -/
theorem AuthorFollows.fresh
    {author : Nat}
    {tag : TagName}
    (free : tags.All fun row => row.authorTag ≠ (author, tag)) :
    AuthorFollows tags { author := author, tag := tag } := by
  have none : postsBy tags (author, tag) = 0 := by
    rw [postsBy, Table.countOf, List.length_eq_zero_iff, List.filter_eq_nil_iff]
    rintro ⟨id, row⟩ listed
    have other := free id row (Table.mem_entries_iff.1 listed)
    simp [other]
  exact (congrArg (· % 2 ^ 32) none).symm

end Authors

/-! ## The objects together -/

namespace TagsPlugin

/--
No comment has a tag twice, and the statistics follow what there is of every tag
and of every author with a tag.
-/
structure Booked (plugin : TagsPlugin) : Prop where
  comments : plugin.tags.Distinct fun row => (row.comment, row.tag)
  tagStats : Summarised TagObject.tag TagStatsObject.tag StatsFollow plugin.tags
    plugin.tagStats
  authorStats : Summarised TagObject.authorTag AuthorTagStatsObject.authorTag
    AuthorFollows plugin.tags plugin.authorStats

variable {plugin : TagsPlugin}

theorem Booked.empty :
    Booked {} :=
  ⟨.empty, .empty, .empty⟩

/-- A tag which the comment does not have yet is added. -/
theorem Booked.addTag
    (booked : plugin.Booked)
    {name : Text}
    {row : TagObject}
    (named : row.tag = .ofText name)
    (free : plugin.tags.All fun other =>
      (other.comment, other.tag) ≠ (row.comment, row.tag)) :
    (plugin.addTag name row).Booked := by
  have within {Key : Type} (key : TagObject → Key) :
      (plugin.tags.emplace row).All fun other =>
        key other = key row ∨ ∃ id old, plugin.tags.find? id = some old ∧
          key old = key other := by
    refine .emplace ?_ (.inl rfl)
    exact fun id other found => .inr ⟨id, other, found, rfl⟩
  constructor
  case comments => exact booked.comments.emplace free
  case tagStats =>
    refine booked.tagStats.write rfl (fun _ => rfl) (named ▸ within _) ?_ ?_ ?_
    · intro stats different follows
      exact follows.add_other (named ▸ different)
    · intro stats same follows
      exact follows.add (named ▸ same)
    · exact StatsFollow.fresh
  case authorStats =>
    have author : row.authorTag = (row.author, .ofText name) :=
      Prod.ext rfl named
    refine booked.authorStats.write rfl (fun _ => rfl) (author ▸ within _)
      ?_ ?_ ?_
    · intro stats different follows
      exact follows.add_other (author ▸ different)
    · intro stats same follows
      exact follows.add (same.trans author.symm)
    · exact AuthorFollows.fresh

/-- The two changes of the statistics when an object is overwritten are one. -/
theorem setTag_changeStats
    (plugin : TagsPlugin)
    (id : Nat)
    (name : Text)
    (old row : TagObject) :
    (plugin.changeStats name (removeStats old)).setTag id name row =
      { plugin with tags := plugin.tags.set id row }.changeStats name
        fun stats => addStats row (removeStats old stats) := by
  have once : (plugin.changeStats name (removeStats old)).tagStats.upsert
      TagStatsObject.tag (.ofText name) { tag := .ofText name } (addStats row) =
        plugin.tagStats.upsert TagStatsObject.tag (.ofText name)
          { tag := .ofText name } fun stats => addStats row (removeStats old stats) :=
    Table.upsert_upsert rfl fun _ => rfl
  rw [setTag, changeStats, once]
  rfl

/-- A tag object whose tag reads back as itself is counted again. -/
theorem Booked.setTag
    (booked : plugin.Booked)
    {id : Nat}
    {old row : TagObject}
    (found : plugin.tags.find? id = some old)
    (reads : .ofText old.tag.toText = old.tag)
    (tag : row.tag = old.tag)
    (author : row.author = old.author)
    (comment : row.comment = old.comment)
    (parent : row.parent = old.parent) :
    ((plugin.changeStats old.tag.toText (removeStats old)).setTag id
      old.tag.toText row).Booked := by
  have post : row.isPost = old.isPost := by
    rw [TagObject.isPost, TagObject.isPost, parent]
  have authorTag : row.authorTag = old.authorTag := Prod.ext author tag
  have within {Key : Type} (key : TagObject → Key) (same : key row = key old) :
      (plugin.tags.set id row).All fun other =>
        ∃ id old, plugin.tags.find? id = some old ∧ key old = key other := by
    refine .of_set found ?_ ⟨id, old, found, same.symm⟩
    exact fun other kept _ there => ⟨other, kept, there, rfl⟩
  constructor
  case comments => exact booked.comments.set found (by rw [comment, tag])
  case tagStats =>
    rw [setTag_changeStats, changeStats, reads]
    refine booked.tagStats.write rfl (fun _ => rfl) ?_ ?_ ?_ ?_
    · exact fun id other there => .inr (within _ tag id other there)
    · intro stats different follows
      exact follows.update_other found different tag post
    · intro stats same follows
      exact follows.update found same tag post
    · exact StatsFollow.fresh
  case authorStats =>
    refine booked.authorStats.of_rows (within _ authorTag) ?_
    exact fun stats follows => follows.update found authorTag

end TagsPlugin

end BMChain.Plugins
