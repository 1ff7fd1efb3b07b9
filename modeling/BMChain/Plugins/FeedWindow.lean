import BMChain.Plugins.Feed
import BMChain.State.Run

/-!
# The window of a feed

The entries of a feed are of different posts, have different numbers, and no
two numbers are further apart than the size of feeds.  What is pruned is older
than what stays.  This holds as long as no feed is numbered past the last word,
and the loop which prunes finds an entry to stop at: it does not when feeds
have size zero and a post is reblogged which is in the feed already, unless a
later account has a feed.
-/

namespace BMChain.Plugins

open BMChain.Foundation BMChain.Protocol BMChain.State

variable {account : AccountName} {row : FeedObject} {db : Database}

variable {Row : Type} {place : Nat} {noted : FeedObject}
    {names : List AccountName} {before : FeedState}
    {outcome : Except FeedFault Unit × FeedState} {follow : FollowState}

/-! ## What holds of feeds -/

/-- The entries of a feed are of different posts and within a window. -/
structure FeedsHold (options : FeedOptions) (feeds : Table FeedObject) :
    Prop where
  window : feedNumbering.Window 32 options.maxFeedSize feeds
  comments : feeds.Distinct fun row => (row.comment, row.account)

/-- Every entry stays, or is older than all which its account has left. -/
def PrunesOldest (before after : Table FeedObject) : Prop :=
  ∀ id old, before.find? id = some old →
    (∃ kept, after.find? id = some kept ∧ kept.account = old.account ∧
      kept.accountFeedId = old.accountFeedId) ∨
      after.All fun kept => kept.account = old.account →
        old.accountFeedId < kept.accountFeedId

/-- A comment is in the feed of an account. -/
def InFeed (comment : Nat) (account : AccountName)
    (feeds : Table FeedObject) : Prop :=
  ∃ row, feeds.Holds row ∧ row.comment = comment ∧ row.account = account

/-- A comment is in a feed, or the feed has a number for it. -/
def Enterable (options : FeedOptions) (comment : Nat) (account : AccountName)
    (feeds : Table FeedObject) : Prop :=
  InFeed comment account feeds ∨
    feedNumbering.Room 32 options.maxFeedSize feeds account

/-- The loop which prunes after a reblog finds an entry to stop at. -/
def Prunable (options : FeedOptions) (comment : Nat) (account : AccountName)
    (feeds : Table FeedObject) : Prop :=
  InFeed comment account feeds →
    0 < options.maxFeedSize ∨
      ∃ row, feeds.Holds row ∧ account < row.account

/-- One feed has changed. -/
structure Visited (options : FeedOptions) (follower : AccountName)
    (before after : Table FeedObject) : Prop where
  holds : FeedsHold options after
  others : ∀ id row, row.account ≠ follower →
    (after.find? id = some row ↔ before.find? id = some row)
  older : PrunesOldest before after

theorem PrunesOldest.refl
    (feeds : Table FeedObject) :
    PrunesOldest feeds feeds :=
  fun _ old found => .inl ⟨old, found, rfl, rfl⟩

section Visit

variable {options : FeedOptions} {comment : Nat} {follower : AccountName}
    {feeds middle after : Table FeedObject}

theorem Visited.refl
    (holds : FeedsHold options feeds) :
    Visited options follower feeds feeds :=
  ⟨holds, fun _ _ _ => .rfl, .refl feeds⟩

/-- An entry of the feed is written, and then the feed is pruned. -/
theorem Visited.of_pruned
    (holds : FeedsHold options after)
    (enters : ∀ id old, feeds.find? id = some old →
      ∃ kept, middle.find? id = some kept ∧ kept.account = old.account ∧
        kept.accountFeedId = old.accountFeedId)
    (others : ∀ id row, row.account ≠ follower →
      (middle.find? id = some row ↔ feeds.find? id = some row))
    (pruned : feedNumbering.Pruned follower middle after) :
    Visited options follower feeds after := by
  have apart : ∀ id row, row.account ≠ follower →
      (after.find? id = some row ↔ feeds.find? id = some row) := by
    intro id row differs
    rw [← others id row differs]
    exact ⟨pruned.subset id row, fun found => pruned.others id row found differs⟩
  refine ⟨holds, apart, ?_⟩
  intro id old found
  by_cases own : old.account = follower
  · rcases enters id old found with ⟨kept, there, account, number⟩
    rcases pruned.older id kept there with stays | older
    · exact .inl ⟨kept, stays, account, number⟩
    · right
      intro other newer remains same
      rw [← number]
      exact older other newer remains (same.trans own)
  · exact .inl ⟨old, (apart id old own).2 found, rfl, rfl⟩

theorem pruneOld_ok
    {numbering : Numbering AccountName Row}
    {rows kept : Table Row}
    {nextId : Nat}
    (ran : numbering.prune 32 options.maxFeedSize account nextId
      (rows.size + 1) rows = some kept) :
    pruneOld numbering options account nextId rows = .ok kept := by
  rw [pruneOld, ran]

/-- What `create` refuses throws, and what it takes has free keys. -/
theorem createRow_cases
    {Row First Second : Type}
    [DecidableEq First]
    [DecidableEq Second]
    (first : Row → First)
    (second : Row → Second)
    (table : Table Row)
    (row : Row) :
    (∃ fault, called (createRow table (fun other =>
        first other = first row ∨ second other = second row) row) =
          .error (.thrown fault)) ∨
      called (createRow table (fun other =>
          first other = first row ∨ second other = second row) row) =
            .ok (table.emplace row) ∧
        (table.All fun other => first other ≠ first row) ∧
        table.All fun other => second other ≠ second row := by
  cases created : createRow table (fun other =>
      first other = first row ∨ second other = second row) row with
  | error fault => exact .inl ⟨fault, rfl⟩
  | ok kept =>
      right
      simp only [createRow, bind_eq_ok_iff, require_eq_ok_iff,
        pure_eq_ok_iff] at created
      rcases created with ⟨_, missing, rfl⟩
      refine ⟨rfl, ?_, ?_⟩
      · intro id other found same
        have refused := Table.Holds.not_of_findBy ⟨id, found⟩ missing
        exact of_decide_eq_false refused (.inl same)
      · intro id other found same
        have refused := Table.Holds.not_of_findBy ⟨id, found⟩ missing
        exact of_decide_eq_false refused (.inr same)

theorem createFeed_cases
    (feeds : Table FeedObject)
    (row : FeedObject) :
    (∃ fault, createFeed feeds row = .error (.thrown fault)) ∨
      createFeed feeds row = .ok (feeds.emplace row) ∧
        (feeds.All fun other => (other.account, other.accountFeedId) ≠
          (row.account, row.accountFeedId)) ∧
        feeds.All fun other => (other.comment, other.account) ≠
          (row.comment, row.account) :=
  createRow_cases
    (fun row : FeedObject => (row.account, row.accountFeedId))
    (fun row : FeedObject => (row.comment, row.account)) feeds row

theorem enters_emplace
    (feeds : Table FeedObject)
    (row : FeedObject)
    (id : Nat)
    (old : FeedObject)
    (found : feeds.find? id = some old) :
    (feeds.emplace row).find? id = some old := by
  rw [Table.find?_emplace, if_neg]
  · exact found
  · rintro rfl
    rw [feeds.find?_nextId] at found
    cases found

/-- A new entry is added to a feed, which has a number for it, and pruned. -/
theorem visited_append
    (holds : FeedsHold options feeds)
    (row : FeedObject)
    (own : row.account = follower)
    (numbered : row.accountFeedId = feedNumbering.nextNumber 32 feeds follower)
    (room : feedNumbering.Room 32 options.maxFeedSize feeds follower) :
    (∃ fault, (createFeed feeds row >>= fun feeds =>
        pruneOld feedNumbering options follower row.accountFeedId feeds) =
          .error (.thrown fault)) ∨
      ∃ after, (createFeed feeds row >>= fun feeds =>
          pruneOld feedNumbering options follower row.accountFeedId feeds) =
            .ok after ∧
        Visited options follower feeds after := by
  rcases createFeed_cases feeds row with ⟨fault, thrown⟩ | ⟨created, free, alone⟩
  · exact .inl ⟨fault, by rw [thrown]; rfl⟩
  · right
    rcases holds.window.append own numbered free room
      (Nat.lt_succ_self _) with ⟨after, ran, pruned, window⟩
    refine ⟨after, ?_, Visited.of_pruned ?_ ?_ ?_ pruned⟩
    · rw [created]
      exact pruneOld_ok ran
    · exact ⟨window, (holds.comments.emplace alone).of_subset pruned.subset⟩
    · intro id old found
      exact ⟨old, enters_emplace feeds row id old found, rfl, rfl⟩
    · intro id other differs
      refine ⟨?_, enters_emplace feeds row id other⟩
      intro found
      rw [Table.find?_emplace] at found
      split at found
      · cases found
        exact absurd own differs
      · exact found

theorem enters_set
    (there : feeds.find? place = some row)
    (account : noted.account = row.account)
    (number : noted.accountFeedId = row.accountFeedId)
    (id : Nat)
    (old : FeedObject)
    (found : feeds.find? id = some old) :
    ∃ kept, (feeds.set place noted).find? id = some kept ∧
      kept.account = old.account ∧ kept.accountFeedId = old.accountFeedId := by
  rw [Table.find?_set there]
  split
  case isTrue same =>
    subst same
    rw [there] at found
    cases found
    exact ⟨noted, rfl, account, number⟩
  case isFalse => exact ⟨old, found, rfl, rfl⟩

/-- An entry of a feed is noted, and the feed is pruned as for a new one. -/
theorem visited_note
    (holds : FeedsHold options feeds)
    (there : feeds.find? place = some row)
    (own : noted.account = row.account)
    (number : noted.accountFeedId = row.accountFeedId)
    (same : noted.comment = row.comment)
    (mine : row.account = follower)
    (stop : 0 < options.maxFeedSize ∨
      ∃ row, feeds.Holds row ∧ follower < row.account) :
    ∃ after,
      pruneOld feedNumbering options follower
          (feedNumbering.nextNumber 32 feeds follower)
          (feeds.set place noted) = .ok after ∧
        Visited options follower feeds after := by
  have enters := enters_set there own number
  have window : feedNumbering.Window 32 options.maxFeedSize
      (feeds.set place noted) := holds.window.set there own number
  have stops : ∃ id last, (feeds.set place noted).find? id = some last ∧
      feedNumbering.Stops 32 options.maxFeedSize follower
        (feedNumbering.nextNumber 32 feeds follower) last := by
    rcases stop with some | ⟨later, ⟨id, found⟩, behind⟩
    · rcases feedNumbering.nextNumber_cases 32 feeds follower with
        ⟨-, none⟩ | ⟨id, last, found, belongs, next, -⟩
      · exact absurd mine (none place row there)
      · rcases enters id last found with ⟨kept, stays, account, alike⟩
        refine ⟨id, kept, stays, .inr ⟨account.trans belongs, ?_⟩⟩
        rw [next]
        show Numbering.distance 32 _ kept.accountFeedId ≤ _
        rw [alike]
        exact (Numbering.distance_next_le
          (holds.window.fits id last found)).trans some
    · rcases enters id later found with ⟨kept, stays, account, -⟩
      refine ⟨id, kept, stays, .inl ?_⟩
      show follower < kept.account
      rw [account]
      exact behind
  rcases stops with ⟨id, last, found, stopping⟩
  rcases Numbering.prune_spec (Nat.lt_succ_self _) window.numbers found stopping
    with ⟨after, ran, pruned, -⟩
  refine ⟨after, pruneOld_ok ran, Visited.of_pruned ?_ enters ?_ pruned⟩
  · exact ⟨window.of_subset pruned.subset,
      (holds.comments.set there (by rw [same, own])).of_subset pruned.subset⟩
  · intro id other differs
    rw [Table.find?_set there]
    split
    case isTrue equal =>
      subst equal
      constructor
      · rintro ⟨⟩
        exact absurd (own.trans mine) differs
      · intro found
        rw [there] at found
        cases found
        exact absurd mine differs
    case isFalse => exact .rfl

/-- A search which finds nothing says that the comment is not in the feed. -/
theorem not_inFeed
    (missing : findFeed feeds comment follower = none) :
    ¬ InFeed comment follower feeds := by
  rintro ⟨row, ⟨id, found⟩, same, own⟩
  have refused := Table.refused_of_findBy missing found
  exact of_decide_eq_false refused (by rw [same, own])

theorem inFeed_of_findFeed
    {id : Nat}
    (found : findFeed feeds comment follower = some (id, row)) :
    feeds.find? id = some row ∧ row.comment = comment ∧
      row.account = follower := by
  have key := Table.key_of_findBy found
  rw [Prod.mk.injEq] at key
  exact ⟨Table.find?_of_findBy found, key⟩

/-- A post enters a feed. -/
theorem feedPost_visited
    (holds : FeedsHold options feeds)
    (enters : Enterable options comment follower feeds) :
    (∃ fault, feedPost options comment follower feeds =
        .error (.thrown fault)) ∨
      ∃ after, feedPost options comment follower feeds = .ok after ∧
        Visited options follower feeds after := by
  rw [feedPost]
  cases found : findFeed feeds comment follower with
  | some entry => exact .inr ⟨feeds, rfl, .refl holds⟩
  | none =>
      have room := enters.resolve_left (not_inFeed found)
      exact visited_append holds _ rfl rfl room

/-- A reblogged post enters a feed, or is noted there. -/
theorem feedReblog_visited
    {now : Time}
    (holds : FeedsHold options feeds)
    (enters : Enterable options comment follower feeds)
    (prunable : Prunable options comment follower feeds) :
    (∃ fault, feedReblog options account now comment follower feeds =
        .error (.thrown fault)) ∨
      ∃ after,
        feedReblog options account now comment follower feeds = .ok after ∧
          Visited options follower feeds after := by
  rw [feedReblog]
  cases found : findFeed feeds comment follower with
  | none =>
      have room := enters.resolve_left (not_inFeed found)
      exact visited_append holds _ rfl rfl room
  | some entry =>
      rcases entry with ⟨id, row⟩
      rcases inFeed_of_findFeed found with ⟨there, same, own⟩
      right
      exact visited_note holds there rfl rfl rfl
        own (prunable ⟨row, ⟨id, there⟩, same, own⟩)

end Visit

/-! ## The loop over the followers -/

/-- The part of a feed from an account on is the same. -/
def SameFrom (account : AccountName) (before after : Table FeedObject) : Prop :=
  ∀ id row, account ≤ row.account →
    (after.find? id = some row ↔ before.find? id = some row)

theorem SameFrom.holds_iff
    {before after : Table FeedObject}
    (same : SameFrom account before after)
    (reached : account ≤ row.account) :
    after.Holds row ↔ before.Holds row :=
  exists_congr fun id => same id row reached

theorem SameFrom.inFeed_iff
    {comment : Nat}
    {before after : Table FeedObject}
    (same : SameFrom account before after) :
    InFeed comment account after ↔ InFeed comment account before := by
  constructor
  · rintro ⟨row, holds, post, rfl⟩
    exact ⟨row, (same.holds_iff (le_refl _)).1 holds, post, rfl⟩
  · rintro ⟨row, holds, post, rfl⟩
    exact ⟨row, (same.holds_iff (le_refl _)).2 holds, post, rfl⟩

theorem Enterable.of_sameFrom
    {options : FeedOptions}
    {comment : Nat}
    {before after : Table FeedObject}
    (same : SameFrom account before after)
    (enters : Enterable options comment account before) :
    Enterable options comment account after := by
  rcases enters with there | wide | room
  · exact .inl (same.inFeed_iff.2 there)
  · exact .inr (.inl wide)
  · refine .inr (.inr ?_)
    intro id row found own
    exact room id row ((same id row own.ge).1 found) own

theorem Prunable.of_sameFrom
    {options : FeedOptions}
    {comment : Nat}
    {before after : Table FeedObject}
    (same : SameFrom account before after)
    (prunable : Prunable options comment account before) :
    Prunable options comment account after := by
  intro there
  refine (prunable (same.inFeed_iff.1 there)).imp_right ?_
  rintro ⟨row, holds, behind⟩
  exact ⟨row, (same.holds_iff behind.le).2 holds, behind⟩

/-- The loop has ended, with these feeds changed. -/
structure Looped (options : FeedOptions) (names : List AccountName)
    (before : FeedState) (outcome : Except FeedFault Unit × FeedState) :
    Prop where
  returns : outcome.1 ≠ .error .pastEnd
  keeps : outcome.2 = { before with feeds := outcome.2.feeds }
  holds : FeedsHold options outcome.2.feeds
  others : ∀ id row, row.account ∉ names →
    (outcome.2.feeds.find? id = some row ↔ before.feeds.find? id = some row)
  older : PrunesOldest before.feeds outcome.2.feeds

theorem Looped.refl
    {options : FeedOptions}
    {state : FeedState}
    {result : Except FeedFault Unit}
    (returns : result ≠ .error .pastEnd)
    (holds : FeedsHold options state.feeds) :
    Looped options names state (result, state) :=
  ⟨returns, rfl, holds, fun _ _ _ => .rfl, .refl state.feeds⟩

/-- One feed is changed before the loop goes on over the others. -/
theorem Looped.cons
    {options : FeedOptions}
    {name : AccountName}
    {feeds : Table FeedObject}
    (new : name ∉ names)
    (visited : Visited options name before.feeds feeds)
    (looped : Looped options names { before with feeds := feeds } outcome) :
    Looped options (name :: names) before outcome := by
  refine ⟨looped.returns, looped.keeps, looped.holds, ?_, ?_⟩
  · intro id row outside
    rw [List.mem_cons, not_or] at outside
    rw [looped.others id row outside.2, visited.others id row outside.1]
  · intro id old found
    by_cases own : old.account = name
    · have same : ∀ id row, row.account = name →
          (outcome.2.feeds.find? id = some row ↔ feeds.find? id = some row) := by
        intro id row mine
        exact looped.others id row (mine ▸ new)
      rcases visited.older id old found with ⟨kept, there, account, number⟩ | old'
      · exact .inl ⟨kept, (same id kept (account.trans own)).2 there, account,
          number⟩
      · right
        intro other newer there mine
        exact old' other newer ((same other newer (mine.trans own)).1 there) mine
    · exact looped.older id old ((visited.others id old own).2 found)

/-- The followers are visited in ascending order, so what a round needs stays. -/
theorem looped_forM
    {options : FeedOptions}
    {visit : AccountName → Table FeedObject →
      Except FeedFault (Table FeedObject)}
    {Ready : AccountName → Table FeedObject → Prop}
    (each : ∀ name feeds, FeedsHold options feeds → Ready name feeds →
      (∃ fault, visit name feeds = .error (.thrown fault)) ∨
        ∃ after, visit name feeds = .ok after ∧
          Visited options name feeds after)
    (stays : ∀ name before after, SameFrom name before after →
      Ready name before → Ready name after)
    {rows : List FollowObject}
    {state : FeedState}
    (ascending : rows.Pairwise fun left right => left.follower < right.follower)
    (holds : FeedsHold options state.feeds)
    (ready : ∀ row ∈ rows, row.isBlog = true → Ready row.follower state.feeds) :
    Looped options (rows.map FollowObject.follower) state
      (Effect.perform (rows.forM (FeedState.visitFollower visit)) state) := by
  induction rows generalizing state with
  | nil => exact .refl (fun equal => nomatch equal) holds
  | cons row rest induction =>
      rw [List.pairwise_cons] at ascending
      rw [List.forall_mem_cons] at ready
      rw [List.map_cons]
      have new : row.follower ∉ rest.map FollowObject.follower := by
        intro member
        rcases List.mem_map.1 member with ⟨other, listed, same⟩
        exact (ascending.1 other listed).ne' same
      change Looped _ _ _ (Effect.perform
        (FeedState.visitFollower visit row >>= fun _ => rest.forM (FeedState.visitFollower visit))
        state)
      by_cases blog : row.isBlog = true
      · have round : Effect.perform (FeedState.visitFollower visit row) state =
            match visit row.follower state.feeds with
            | .ok feeds => (.ok (), { state with feeds := feeds })
            | .error fault => (.error fault, state) := by
          rw [FeedState.visitFollower, if_pos blog,
            Effect.perform_bind_ok (Effect.perform_get state),
            Effect.perform_bind, Effect.perform_lift]
          cases visit row.follower state.feeds <;> rfl
        rw [Effect.perform_bind, round]
        rcases each row.follower state.feeds holds (ready.1 blog) with
          ⟨fault, thrown⟩ | ⟨after, visited, changed⟩
        · rw [thrown]
          refine .refl ?_ holds
          rintro ⟨⟩
        · rw [visited]
          refine .cons new changed (induction ascending.2 changed.holds ?_)
          intro other listed follows
          refine stays other.follower state.feeds after ?_
            (ready.2 other listed follows)
          intro id entry reached
          refine changed.others id entry ?_
          exact ((ascending.1 other listed).trans_le reached).ne'
      · have round : Effect.perform (FeedState.visitFollower visit row) state =
            (.ok (), state) := by
          rw [FeedState.visitFollower, if_neg blog, Effect.perform_pure]
        rw [Effect.perform_bind_ok round]
        exact .cons new (.refl holds) (induction ascending.2 holds ready.2)

/-! ## One operation -/

namespace FeedState

/-- What holds of the objects of the plugin. -/
structure Sound (options : FeedOptions) (state : FeedState) : Prop where
  follows :
    state.follow.follows.Distinct fun row => (row.follower, row.following)
  feeds : FeedsHold options state.feeds
  blogs : state.blogs.Distinct fun row => (row.account, row.blogFeedId)

/-- The state is sound, and of the feeds only the oldest entries are gone. -/
def Moved (options : FeedOptions) (before after : FeedState) : Prop :=
  after.Sound options ∧ PrunesOldest before.feeds after.feeds

/-- The state is sound, and the followers and their feeds are as before. -/
def Unfed (options : FeedOptions) (before after : FeedState) : Prop :=
  after.Sound options ∧ after.follow = before.follow ∧
    after.feeds = before.feeds

/-- A handler may throw, but not read past the end of an index. -/
def Throws (fault : FeedFault) : Prop :=
  fault ≠ .pastEnd

variable {options : FeedOptions} {state : FeedState}

theorem Unfed.refl
    (sound : state.Sound options) :
    Unfed options state state :=
  ⟨sound, rfl, rfl⟩

theorem Unfed.trans
    {before middle after : FeedState}
    (first : Unfed options before middle)
    (second : Unfed options middle after) :
    Unfed options before after :=
  ⟨second.1, second.2.1.trans first.2.1, second.2.2.trans first.2.2⟩

/-- The followers and their feeds are those from before. -/
theorem Unfed.followers
    {before after : FeedState}
    (unfed : Unfed options before after)
    {Ready : AccountName → Table FeedObject → Prop}
    (ready : ∀ row ∈ before.followersOf account, row.isBlog = true →
      Ready row.follower before.feeds) :
    ∀ row ∈ after.followersOf account, row.isBlog = true →
      Ready row.follower after.feeds := by
  intro row listed follows
  rw [followersOf, unfed.2.1] at listed
  rw [unfed.2.2]
  exact ready row listed follows

theorem Unfed.moved
    {before after : FeedState}
    (unfed : Unfed options before after) :
    Moved options before after :=
  ⟨unfed.1, unfed.2.2 ▸ PrunesOldest.refl before.feeds⟩

/-- The followers are visited once each, in ascending order. -/
theorem ascending_followersOf
    (distinct :
      state.follow.follows.Distinct fun row => (row.follower, row.following))
    (account : AccountName) :
    (state.followersOf account).Pairwise
      fun left right => left.follower < right.follower := by
  let order (left right : FollowObject) : Prop := left.follower ≤ right.follower
  have total : Std.Total order := ⟨fun left right => le_total _ _⟩
  have trans : IsTrans FollowObject order := ⟨fun _ _ _ => le_trans⟩
  let listed := (state.follow.follows.entries.map Prod.snd).filter
    fun row => row.following = account
  have sorted : (listed.insertionSort order).Pairwise order :=
    List.pairwise_insertionSort order listed
  have apart : (listed.insertionSort order).Pairwise
      fun left right => left.follower ≠ right.follower := by
    refine ((List.perm_insertionSort order listed).pairwise_iff
      fun differs => Ne.symm differs).2 ?_
    rw [List.pairwise_filter, List.pairwise_map]
    refine (FiniteMap.distinct_keys state.follow.follows.rows).imp_of_mem ?_
    intro first second left right different own other same
    rw [decide_eq_true_iff] at own other
    exact different (distinct first.1 second.1 first.2 second.2
      (Table.mem_entries_iff.1 left) (Table.mem_entries_iff.1 right)
      (Prod.ext same (own.trans other.symm)))
  exact (sorted.and apart).imp fun both => lt_of_le_of_ne both.1 both.2

theorem ends_forFollowers
    {visit : AccountName → Table FeedObject →
      Except FeedFault (Table FeedObject)}
    {Ready : AccountName → Table FeedObject → Prop}
    (sound : state.Sound options)
    (each : ∀ name feeds, FeedsHold options feeds → Ready name feeds →
      (∃ fault, visit name feeds = .error (.thrown fault)) ∨
        ∃ after, visit name feeds = .ok after ∧
          Visited options name feeds after)
    (stays : ∀ name before after, SameFrom name before after →
      Ready name before → Ready name after)
    (ready : ∀ row ∈ state.followersOf account, row.isBlog = true →
      Ready row.follower state.feeds) :
    Effect.Ends Throws (Moved options state)
      (Effect.perform (forFollowers account visit) state) := by
  have looped := looped_forM each stays
    (ascending_followersOf sound.follows account) sound.feeds ready
  rw [forFollowers, Effect.perform_bind_ok (Effect.perform_get state)]
  refine ⟨⟨?_, looped.older⟩, ?_⟩
  · rw [looped.keeps]
    exact ⟨sound.follows, looped.holds, sound.blogs⟩
  · rintro fault thrown rfl
    exact looped.returns thrown

/-! ## Blogs -/

theorem ends_called
    {Value : Type}
    {property : FeedState → Prop}
    (holds : property state)
    (result : Except Fault Value) :
    Effect.Ends Throws property
      (Effect.perform (Effect.lift (called result) :
        Effect FeedFault FeedState Value) state) := by
  cases result with
  | ok value => exact .ok holds
  | error fault => exact .error holds (fun equal => nomatch equal)

/-- What has been required holds, and the state has not changed. -/
theorem required
    {condition : Prop}
    [Decidable condition]
    {message : String}
    {middle : FeedState}
    (ran : Effect.perform (Effect.lift (called (require condition message)) :
      Effect FeedFault FeedState Unit) state = (.ok (), middle)) :
    condition ∧ state = middle := by
  rw [Effect.perform_lift, Prod.mk.injEq] at ran
  refine ⟨?_, ran.2⟩
  by_contra fails
  rw [require, if_neg fails] at ran
  cases ran.1

/-- A row of a blog is created with free keys, or `create` throws. -/
theorem createBlog_cases
    (state : FeedState)
    (row : BlogObject) :
    (∃ fault, state.createBlog row = .error (.thrown fault)) ∨
      state.createBlog row = .ok (state.blogs.emplace row) ∧
        state.blogs.All fun other => (other.account, other.blogFeedId) ≠
          (row.account, row.blogFeedId) := by
  rcases createRow_cases
    (fun row : BlogObject => (row.account, row.blogFeedId))
    (fun row : BlogObject => (row.comment, row.account)) state.blogs row with
      thrown | ⟨created, free, -⟩
  · exact .inl thrown
  · exact .inr ⟨created, free⟩

theorem Sound.createBlog
    (sound : state.Sound options)
    {row : BlogObject}
    (free : state.blogs.All fun other => (other.account, other.blogFeedId) ≠
      (row.account, row.blogFeedId)) :
    Unfed options state { state with blogs := state.blogs.emplace row } :=
  ⟨⟨sound.follows, sound.feeds, sound.blogs.emplace free⟩, rfl, rfl⟩

/-- The entry which has just been made stops the loop which prunes a blog. -/
theorem prune_blogs
    (sound : state.Sound options)
    {row : BlogObject}
    (numbered : row.blogFeedId =
      blogNumbering.nextNumber 32 state.blogs row.account)
    (free : state.blogs.All fun other => (other.account, other.blogFeedId) ≠
      (row.account, row.blogFeedId)) :
    ∃ kept,
      pruneOld blogNumbering options row.account row.blogFeedId
          (state.blogs.emplace row) = .ok kept ∧
        kept.Distinct fun row => (row.account, row.blogFeedId) := by
  have distinct := sound.blogs.emplace free
  have new : (state.blogs.emplace row).find? state.blogs.nextId = some row := by
    rw [Table.find?_emplace, if_pos rfl]
  have fits : row.blogFeedId < 2 ^ 32 :=
    numbered ▸ Numbering.nextNumber_lt _ _ _ _
  have near : Numbering.distance 32 row.blogFeedId row.blogFeedId ≤
      options.maxFeedSize := by
    rw [Numbering.distance_eq (Nat.le_refl _) fits, Nat.sub_self]
    exact Nat.zero_le _
  have stops : blogNumbering.Stops 32 options.maxFeedSize row.account
      row.blogFeedId row := .inr ⟨rfl, near⟩
  rcases Numbering.prune_spec (Nat.lt_succ_self _) distinct new stops with
    ⟨kept, ran, pruned, -⟩
  exact ⟨kept, pruneOld_ok ran, distinct.of_subset pruned.subset⟩

theorem ends_blogPost
    (sound : state.Sound options)
    (comment : Nat)
    (author : AccountName) :
    Effect.Ends Throws (Unfed options state)
      (Effect.perform (blogPost options comment author) state) := by
  rw [blogPost, Effect.perform_bind_ok (Effect.perform_get state)]
  cases state.findBlog comment author with
  | some entry => exact .ok (.refl sound)
  | none =>
      dsimp only
      rcases state.createBlog_cases ⟨author, comment, 0,
          blogNumbering.nextNumber 32 state.blogs author⟩ with
        ⟨fault, thrown⟩ | ⟨created, free⟩
      · rw [thrown, Effect.perform_bind, Effect.perform_lift]
        exact .error (.refl sound) (fun equal => nomatch equal)
      · rcases prune_blogs sound rfl free with ⟨kept, ran, distinct⟩
        rw [created, Effect.perform_bind_ok (Effect.perform_lift _ _),
          Effect.perform_bind_ok (Effect.perform_set _ _), ran,
          Effect.perform_bind_ok (Effect.perform_lift _ _)]
        exact .ok ⟨⟨sound.follows, sound.feeds, distinct⟩, rfl, rfl⟩

theorem ends_countReblog
    (sound : state.Sound options)
    (blogger guest : AccountName) :
    Effect.Ends Throws (Unfed options state)
      (Effect.perform (countReblog blogger guest) state) := by
  rw [countReblog, Effect.perform_bind_ok (Effect.perform_get state)]
  split
  · exact .ok ⟨⟨sound.follows, sound.feeds, sound.blogs⟩, rfl, rfl⟩
  · refine (ends_called (.refl sound) _).bind (fun _ unfed => unfed) ?_
    intro stats middle unfed ran
    obtain rfl : state = middle := congrArg Prod.snd ran
    exact .ok ⟨⟨sound.follows, sound.feeds, sound.blogs⟩, rfl, rfl⟩

/-! ## The condition -/

/-- The post whose followers' feeds are changed by a `comment_operation`. -/
def contentTarget (options : FeedOptions) (db : Database)
    (parentAuthor author : AccountName) (permlink : Text) : Option Nat :=
  match db.getComment author permlink with
  | .error _ => none
  | .ok (id, comment) =>
      if nameSize parentAuthor = 0 ∧ comment.created = db.headBlockTime ∧
          options.startFeeds ≤ db.headBlockTime then
        some id
      else none

/-- The post whose followers' feeds are changed by a `reblog_operation`. -/
def reblogTarget (options : FeedOptions) (db : Database) (state : FeedState)
    (op : ReblogOperation) : Option Nat :=
  match db.getComment op.author op.permlink with
  | .error _ => none
  | .ok (id, comment) =>
      if nameSize comment.parentAuthor = 0 ∧ (state.findBlog id op.account).isNone ∧
          (state.createBlog ⟨op.account, id, db.headBlockTime,
            blogNumbering.nextNumber 32 state.blogs op.account⟩).isOk ∧
          options.startFeeds ≤ db.headBlockTime then
        some id
      else none

/-- A post can enter the feeds of the followers of an account. -/
def Open (options : FeedOptions) (state : FeedState) (account : AccountName)
    (comment : Nat) : Prop :=
  ∀ row ∈ state.followersOf account, row.isBlog = true →
    Enterable options comment row.follower state.feeds

/--
The condition on an operation: every feed which it changes has a number for a
new entry, and after a reblog the loop finds an entry to stop at.
-/
def Steady (options : FeedOptions) (db : Database) (state : FeedState) :
    FeedEvent → Prop
  | .comment op =>
      ∀ comment,
        contentTarget options db op.parentAuthor op.author op.permlink =
            some comment →
          state.Open options op.author comment
  | .encryptedContent op =>
      ∀ comment,
        contentTarget options db op.parentAuthor op.author op.permlink =
            some comment →
          state.Open options op.author comment
  | .reblog op =>
      ∀ comment, reblogTarget options db state op = some comment →
        state.Open options op.account comment ∧
          ∀ row ∈ state.followersOf op.account, row.isBlog = true →
            Prunable options comment row.follower state.feeds
  | .follow _ => True
  | .deleteComment _ => True

/-! ## The operations -/

theorem ends_onContent
    {parentAuthor author : AccountName}
    {permlink : Text}
    (sound : state.Sound options)
    (steady : ∀ comment,
      contentTarget options db parentAuthor author permlink = some comment →
        state.Open options author comment) :
    Effect.Ends Throws (Moved options state)
      (Effect.perform (onContent options db parentAuthor author permlink)
        state) := by
  have stay : Moved options state state := Unfed.moved (.refl sound)
  rw [onContent]
  split
  case isTrue => exact .ok stay
  case isFalse root =>
    replace root := Nat.eq_zero_of_not_pos root
    cases got : db.getComment author permlink with
    | error fault =>
        exact .error stay (fun equal => nomatch equal)
    | ok entry =>
        rcases entry with ⟨id, comment⟩
        have target : comment.created = db.headBlockTime →
            options.startFeeds ≤ db.headBlockTime →
              state.Open options author id := by
          intro new started
          refine steady id ?_
          rw [contentTarget, got]
          exact if_pos ⟨root, new, started⟩
        have lifted : Effect.perform (Effect.lift (called (.ok (id, comment))) :
            Effect FeedFault FeedState (Nat × CommentObject)) state =
              (.ok (id, comment), state) := rfl
        rw [Effect.perform_bind_ok lifted]
        dsimp only
        split
        case isTrue => exact .ok stay
        case isFalse new =>
          rw [not_not] at new
          split
          case isTrue started =>
            refine (ends_forFollowers sound
              (fun _ _ holds enters => feedPost_visited holds enters)
              (fun _ _ _ same enters => enters.of_sameFrom same)
              (target new started)).bind (fun _ moved => moved) ?_
            rintro ⟨⟩ middle moved -
            have unfed := ends_blogPost moved.1 id author
            refine ⟨⟨unfed.left.1, ?_⟩, unfed.thrown⟩
            rw [unfed.left.2.2]
            exact moved.2
          case isFalse =>
            have unfed := ends_blogPost sound id author
            exact ⟨unfed.left.moved, unfed.thrown⟩

theorem ends_doReblog
    {op : ReblogOperation}
    (sound : state.Sound options)
    (steady : state.Steady options db (.reblog op)) :
    Effect.Ends Throws (Moved options state)
      (Effect.perform (doReblog options db op) state) := by
  have stay : Moved options state state := Unfed.moved (.refl sound)
  rw [doReblog]
  cases got : db.getComment op.author op.permlink with
  | error fault => exact .error stay (fun equal => nomatch equal)
  | ok entry =>
      rcases entry with ⟨id, comment⟩
      have lifted : Effect.perform (Effect.lift (called (.ok (id, comment))) :
          Effect FeedFault FeedState (Nat × CommentObject)) state =
            (.ok (id, comment), state) := rfl
      rw [Effect.perform_bind_ok lifted]
      dsimp only
      refine (ends_called stay _).bind (fun _ moved => moved) ?_
      rintro ⟨⟩ middle - passed
      rcases required passed with ⟨root, rfl⟩
      rw [Effect.perform_bind_ok (Effect.perform_get state)]
      refine (ends_called stay _).bind (fun _ moved => moved) ?_
      rintro ⟨⟩ middle - found
      rcases required found with ⟨missing, rfl⟩
      rcases state.createBlog_cases ⟨op.account, id, db.headBlockTime,
          blogNumbering.nextNumber 32 state.blogs op.account⟩ with
        ⟨fault, thrown⟩ | ⟨created, free⟩
      · rw [thrown, Effect.perform_bind, Effect.perform_lift]
        exact .error stay (fun equal => nomatch equal)
      · rw [created, Effect.perform_bind_ok (Effect.perform_lift _ _),
          Effect.perform_bind_ok (Effect.perform_set _ _)]
        have blogged := sound.createBlog free
        refine (ends_countReblog blogged.1 op.account comment.author).bind
          (fun middle unfed => (Unfed.trans blogged unfed).moved) ?_
        rintro ⟨⟩ middle unfed -
        have before := Unfed.trans blogged unfed
        split
        case isFalse => exact .ok before.moved
        case isTrue started =>
          have target : reblogTarget options db state op = some id := by
            rw [reblogTarget, got]
            exact if_pos ⟨root, missing, by rw [created]; rfl, started⟩
          let Ready (name : AccountName) (feeds : Table FeedObject) : Prop :=
            Enterable options id name feeds ∧ Prunable options id name feeds
          have ready : ∀ row ∈ state.followersOf op.account,
              row.isBlog = true → Ready row.follower state.feeds := by
            intro row listed follows
            exact ⟨(steady id target).1 row listed follows,
              (steady id target).2 row listed follows⟩
          have fed : Effect.Ends Throws (Moved options middle)
              (Effect.perform (forFollowers op.account
                (feedReblog options op.account db.headBlockTime id)) middle) := by
            refine ends_forFollowers before.1 ?_ ?_ (before.followers ready)
            · intro name feeds holds ready
              exact feedReblog_visited holds ready.1 ready.2
            · intro name feeds after same ready
              exact ⟨ready.1.of_sameFrom same, ready.2.of_sameFrom same⟩
          refine ⟨⟨fed.left.1, ?_⟩, fed.thrown⟩
          rw [← before.2.2]
          exact fed.left.2

/-- The entries of a comment are removed, and no others are made. -/
theorem sound_onDeleteComment
    (sound : state.Sound options)
    (db : Database)
    (op : DeleteCommentOperation) :
    (onDeleteComment db op state).Sound options := by
  have subset : ∀ {Row : Type} (table : Table Row)
      (entries : List (Nat × Row)) id row,
      (entries.foldl (fun table entry => table.remove entry.1) table).find? id =
          some row →
        table.find? id = some row := by
    intro Row table entries id row found
    rw [Table.find?_foldl_remove] at found
    split at found
    · cases found
    · exact found
  rw [onDeleteComment]
  split
  · exact sound
  split
  · exact sound
  · have feeds := subset state.feeds
    have blogs := subset state.blogs
    exact ⟨sound.follows, ⟨sound.feeds.window.of_subset (feeds _),
      sound.feeds.comments.of_subset (feeds _)⟩,
      sound.blogs.of_subset (blogs _)⟩

/-- A pair of accounts has one row. -/
theorem distinct_writePair
    (distinct :
      follow.follows.Distinct fun row => (row.follower, row.following))
    (op : FollowOperation)
    (what : Nat) :
    (follow.writePair op what).1.Distinct
      fun row => (row.follower, row.following) := by
  rw [FollowState.writePair]
  cases found : follow.pair op with
  | none =>
      refine distinct.emplace ?_
      intro id row there same
      have refused := Table.refused_of_findBy found there
      rw [Prod.mk.injEq] at same
      rw [same.1, same.2] at refused
      simp at refused
  | some entry =>
      exact distinct.set (Table.find?_of_findBy found) rfl

theorem sound_follow
    {op : FollowOperation}
    (sound : state.Sound options)
    (done : state.follow.doApply op = .ok follow) :
    Sound options { state with follow := follow } := by
  simp only [FollowState.doApply, bind_eq_ok_iff, pure_eq_ok_iff] at done
  rcases done with ⟨_, -, rfl⟩
  exact ⟨distinct_writePair sound.follows op _, sound.feeds, sound.blogs⟩

theorem written_of_ends
    (ends : Effect.Ends Throws (Moved options before) outcome) :
    ∃ after, written outcome = some after ∧ Moved options before after := by
  rcases outcome with ⟨(_ | _) | ⟨⟩, after⟩
  · exact ⟨after, rfl, ends.left⟩
  · exact absurd rfl (ends.thrown _ rfl)
  · exact ⟨after, rfl, ends.left⟩

theorem squashed_of_ends
    (sound : state.Sound options)
    (ends : Effect.Ends Throws (Moved options state) outcome) :
    ∃ after, state.squashed outcome = some after ∧
      Moved options state after := by
  rcases outcome with ⟨(_ | _) | ⟨⟩, after⟩
  · exact ⟨state, rfl, Unfed.moved (.refl sound)⟩
  · exact absurd rfl (ends.thrown _ rfl)
  · exact ⟨after, rfl, ends.left⟩

/-- An operation which meets the condition keeps what holds of the plugin. -/
theorem apply_steady
    {event : FeedEvent}
    (sound : state.Sound options)
    (steady : state.Steady options db event) :
    ∃ after, state.apply options db event = some after ∧
      after.Sound options ∧
      ((∀ op, event ≠ .deleteComment op) →
        PrunesOldest state.feeds after.feeds) := by
  cases event with
  | comment op =>
      rcases written_of_ends (ends_onContent sound steady) with
        ⟨after, done, moved⟩
      exact ⟨after, done, moved.1, fun _ => moved.2⟩
  | encryptedContent op =>
      rcases written_of_ends (ends_onContent sound steady) with
        ⟨after, done, moved⟩
      exact ⟨after, done, moved.1, fun _ => moved.2⟩
  | reblog op =>
      rcases squashed_of_ends sound (ends_doReblog sound steady) with
        ⟨after, done, moved⟩
      exact ⟨after, done, moved.1, fun _ => moved.2⟩
  | deleteComment op =>
      refine ⟨_, rfl, sound_onDeleteComment sound db op, ?_⟩
      exact fun other => absurd rfl (other op)
  | follow op =>
      rw [apply]
      split
      case h_1 follow done =>
        exact ⟨_, rfl, sound_follow sound done, fun _ => .refl state.feeds⟩
      case h_2 => exact ⟨state, rfl, sound, fun _ => .refl state.feeds⟩

end FeedState

/-! ## Runs -/

/-- The states of the plugin after operations which meet the condition. -/
inductive FeedRun (options : FeedOptions) : FeedState → Prop
  | start : FeedRun options {}
  | apply {state after : FeedState} (db : Database) (event : FeedEvent) :
      FeedRun options state → state.Steady options db event →
        state.apply options db event = some after → FeedRun options after

theorem FeedRun.sound
    {options : FeedOptions}
    {state : FeedState}
    (run : FeedRun options state) :
    state.Sound options := by
  induction run with
  | start => exact ⟨.empty, ⟨.empty feedNumbering 32 _, .empty⟩, .empty⟩
  | apply db event _ steady done sound =>
      rcases FeedState.apply_steady sound steady with ⟨after, same, kept, -⟩
      rw [done] at same
      cases same
      exact kept

/--
In every run whose operations meet the condition, the entries of a feed are of
different posts, numbered differently and within the window; the next operation
which meets it is carried out without reading past the end of an index, and
prunes only entries older than those which stay.
-/
theorem feed_window
    {options : FeedOptions}
    {state : FeedState}
    (run : FeedRun options state) :
    FeedsHold options state.feeds ∧
      ∀ db event, state.Steady options db event →
        ∃ after, state.apply options db event = some after ∧
          ((∀ op, event ≠ .deleteComment op) →
            PrunesOldest state.feeds after.feeds) := by
  refine ⟨run.sound.feeds, ?_⟩
  intro db event steady
  rcases FeedState.apply_steady run.sound steady with ⟨after, done, -, older⟩
  exact ⟨after, done, older⟩

/-- The post of the first witness. -/
def feedPostOperation : CommentOperation where
  parentAuthor := ""
  parentPermlink := [98]
  author := initMinerName
  permlink := [97]
  title := []
  body := [99]
  jsonMetadata := []

/-- Options with a size of feeds. -/
def sizedFeeds (maxFeedSize : Nat) : FeedOptions :=
  ⟨maxFeedSize, 0, 0⟩

/-- The account `devs` follows the first witness. -/
def devsFollow : FeedEvent :=
  .follow ⟨"devs", initMinerName, ["blog"]⟩

/-- The same post by the account `miners`, whom `devs` follows too. -/
def minersPost : CommentOperation :=
  { feedPostOperation with author := "miners" }

/-- An entry whose number has no successor. -/
def isLastEntry (row : FeedObject) : Bool :=
  2 ^ 32 ≤ row.accountFeedId + 1

theorem steady_of_findBy
    {options : FeedOptions}
    {state : FeedState}
    (small : state.feeds.findBy isLastEntry = none)
    (op : CommentOperation) :
    state.Steady options db (.comment op) := by
  intro comment _ row _ _
  refine .inr (.inr fun id row found _ => ?_)
  exact Nat.lt_of_not_le (of_decide_eq_false (Table.refused_of_findBy small found))

/-- In a feed of one entry the second post takes the place of the first one. -/
theorem feed_window_pruned :
    ∃ db followed state after,
      ([feedPostOperation, minersPost].map fun op =>
          Event.operation (.comment op)).foldlM
        (Database.step plainExternal) initGenesis = .ok db ∧
      [devsFollow, .follow ⟨"devs", "miners", ["blog"]⟩].foldlM
        (FeedState.apply (sizedFeeds 0) db) {} = some followed ∧
      followed.apply (sizedFeeds 0) db (.comment feedPostOperation) =
        some state ∧
      state.apply (sizedFeeds 0) db (.comment minersPost) = some after ∧
      state.feeds.entries.map (fun entry => entry.2.comment) = [0] ∧
      after.feeds.entries.map (fun entry => entry.2.comment) = [1] ∧
      FeedsHold (sizedFeeds 0) state.feeds ∧
      PrunesOldest state.feeds after.feeds := by
  have ran : (([feedPostOperation, minersPost].map fun op =>
      Event.operation (.comment op)).foldlM
        (Database.step plainExternal) initGenesis).bind (fun db => do
          let followed ← orFault ([devsFollow,
            .follow ⟨"devs", "miners", ["blog"]⟩].foldlM
              (FeedState.apply (sizedFeeds 0) db) {}) ""
          let state ← orFault (followed.apply (sizedFeeds 0) db
            (.comment feedPostOperation)) ""
          let after ← orFault (state.apply (sizedFeeds 0) db
            (.comment minersPost)) ""
          require (followed.feeds.findBy isLastEntry = none ∧
            state.feeds.findBy isLastEntry = none ∧
            state.feeds.entries.map (fun entry => entry.2.comment) = [0] ∧
            after.feeds.entries.map (fun entry => entry.2.comment) = [1]) "") =
      .ok () := by
    decide +kernel
  rcases (bind_eq_ok_iff _ _ _).1 ran with ⟨db, posted, ran⟩
  simp only [bind_eq_ok_iff, orFault_eq_ok_iff, require_eq_ok_iff] at ran
  rcases ran with ⟨followed, done, state, first, after, second, few, small,
    alone, left⟩
  have steps := done
  simp only [List.foldlM_cons, List.foldlM_nil, Option.bind_eq_bind,
    Option.bind_eq_some_iff, Option.pure_def, Option.some.injEq] at steps
  rcases steps with ⟨one, follow, _, again, same⟩
  cases same
  have begun : FeedRun (sizedFeeds 0) one :=
    .apply db devsFollow .start trivial follow
  have run : FeedRun (sizedFeeds 0) state :=
    .apply db _ (.apply db (.follow ⟨"devs", "miners", ["blog"]⟩) begun trivial
      again) (steady_of_findBy few feedPostOperation) first
  have window := feed_window run
  rcases window.2 db _ (steady_of_findBy small minersPost) with
    ⟨other, applied, older⟩
  cases applied.symm.trans second
  refine ⟨db, followed, state, after, posted, done, first, second, alone, left,
    window.1, older ?_⟩
  rintro op ⟨⟩

/--
With feeds of size zero a post enters a feed, and when another account which
the follower follows reblogs it, the loop removes the entry and reads past the
end of the index.
-/
theorem feed_window_fails :
    ∃ db state,
      initGenesis.step plainExternal (.operation (.comment feedPostOperation)) =
          .ok db ∧
        [devsFollow, .follow ⟨"devs", "temp", ["blog"]⟩,
            .comment feedPostOperation].foldlM
          (FeedState.apply (sizedFeeds 0) db) {} = some state ∧
        state.apply (sizedFeeds 0) db
          (.reblog ⟨"temp", initMinerName, [97]⟩) = none := by
  have ran : (initGenesis.step plainExternal
      (.operation (.comment feedPostOperation))).toOption.bind (fun db =>
        ([devsFollow, .follow ⟨"devs", "temp", ["blog"]⟩,
            .comment feedPostOperation].foldlM
          (FeedState.apply (sizedFeeds 0) db) {}).map fun state =>
            (state.apply (sizedFeeds 0) db
              (.reblog ⟨"temp", initMinerName, [97]⟩)).isNone) =
      some true := by
    decide +kernel
  rcases Option.bind_eq_some_iff.1 ran with ⟨db, made, ran⟩
  rcases Option.map_eq_some_iff.1 ran with ⟨state, done, ended⟩
  refine ⟨db, state, ?_, done, Option.isNone_iff_eq_none.1 ended⟩
  cases posted : initGenesis.step plainExternal
      (.operation (.comment feedPostOperation)) with
  | error fault =>
      rw [posted] at made
      cases made
  | ok made' =>
      rw [posted] at made
      cases made
      rfl

end BMChain.Plugins
