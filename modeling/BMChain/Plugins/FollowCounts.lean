import BMChain.Plugins.Follow
import Std.Data.String.ToNat

/-!
# What the follow counts count

The stored numbers follow the numbers of rows modulo `2 ^ 32`: an operation
writes one row, and moves the two counts of its accounts by what this row
counted before and counts afterwards.
-/

namespace BMChain.Plugins

open BMChain.Foundation BMChain.Protocol BMChain.State

/-! ## The bits of an operation -/

theorem addTarget_bit
    {read : Nat × Bool}
    (same : read.1.testBit FollowType.blog.bit = read.2)
    (target : String) :
    (addTarget read target).1.testBit FollowType.blog.bit =
      (addTarget read target).2 := by
  unfold addTarget
  cases followTypeMap target with
  | blog =>
      rw [Nat.testBit_or, Nat.testBit_two_pow_self, Bool.or_true]
  | ignore =>
      rw [Nat.testBit_or, Nat.testBit_two_pow_of_ne (by decide), Bool.or_false]
      exact same
  | undefined => exact same

/-- The blog bit is set exactly when the operation follows. -/
theorem FollowOperation.target_bit
    (op : FollowOperation) :
    op.target.1.testBit FollowType.blog.bit = op.target.2 := by
  have general : ∀ (targets : List String) (read : Nat × Bool),
      read.1.testBit FollowType.blog.bit = read.2 →
        (targets.foldl addTarget read).1.testBit FollowType.blog.bit =
          (targets.foldl addTarget read).2 := by
    intro targets
    induction targets with
    | nil => exact fun _ same => same
    | cons target rest induction =>
        intro read same
        exact induction _ (addTarget_bit same target)
  exact general op.what (0, false) (Nat.zero_testBit _)

/-! ## One row -/

/-- What a condition adds to a number. -/
def flag (condition : Bool) : Nat :=
  if condition then 1 else 0

/-- A count which follows a number modulo `2 ^ 32` goes on following it. -/
theorem recount_mod
    {wasFollowed isFollowing : Bool}
    {before after : Nat}
    (moved : after + flag wasFollowed = before + flag isFollowing)
    (counted : flag wasFollowed ≤ before) :
    recount wasFollowed isFollowing (before % 2 ^ 32) = after % 2 ^ 32 := by
  have down : wasFollowed = true →
      decrement 32 (before % 2 ^ 32) = (before - 1) % 2 ^ 32 ∧
        1 ≤ before := by
    rintro rfl
    have positive : 1 ≤ before := counted
    have less := decrement_mod 32 (before - 1)
    rw [Nat.sub_add_cancel positive] at less
    exact ⟨less, positive⟩
  have up : ∀ count, increment 32 (count % 2 ^ 32) = (count + 1) % 2 ^ 32 :=
    increment_mod 32
  unfold recount
  dsimp only
  generalize 2 ^ 32 = range at down up ⊢
  cases wasFollowed with
  | false =>
      have grown : after = before + flag isFollowing := moved
      rw [if_neg Bool.false_ne_true, grown]
      cases isFollowing with
      | false => rw [if_neg Bool.false_ne_true]; rfl
      | true => rw [if_pos rfl, up]; rfl
  | true =>
      rcases down rfl with ⟨less, positive⟩
      have grown : after = before - 1 + flag isFollowing := by
        have sum : after + 1 = before + flag isFollowing := moved
        omega
      rw [if_pos rfl, less, grown]
      cases isFollowing with
      | false => rw [if_neg Bool.false_ne_true]; rfl
      | true => rw [if_pos rfl, up]; rfl

section Rows

variable {state : FollowState} {op : FollowOperation} {what : Nat}
    {follows : Table FollowObject} {wasFollowed : Bool}

/-- The row of a pair is a row about the two accounts. -/
theorem FollowState.pair_eq
    {entry : Nat × FollowObject}
    (found : state.pair op = some entry) :
    state.follows.find? entry.1 = some entry.2 ∧
      entry.2.follower = op.follower ∧ entry.2.following = op.following := by
  have passed := Table.passed_of_findBy found
  rw [Bool.and_eq_true, decide_eq_true_iff, decide_eq_true_iff] at passed
  exact ⟨Table.find?_of_findBy found, passed⟩

/--
Writing the row of a pair moves the number of rows which follow a blog and
have an account on one side, `place` being the account of the pair there.
-/
theorem writePair_countOf
    (written : state.writePair op what = (follows, wasFollowed))
    (side : FollowObject → AccountName)
    (place : AccountName)
    (belongs : ∀ row, row.follower = op.follower →
      row.following = op.following → side row = place)
    (name : AccountName) :
    follows.countOf (fun row => side row = name && row.isBlog) +
          flag (place = name && wasFollowed) =
        state.follows.countOf (fun row => side row = name && row.isBlog) +
          flag (place = name && what.testBit FollowType.blog.bit) ∧
      flag (place = name && wasFollowed) ≤
        state.follows.countOf fun row => side row = name && row.isBlog := by
  unfold FollowState.writePair at written
  cases found : state.pair op with
  | none =>
      rw [found] at written
      cases written
      have added := Table.countOf_emplace
        (fun row => side row = name && row.isBlog) state.follows
        ⟨op.follower, op.following, what⟩
      rw [added, Table.one, belongs _ rfl rfl, Bool.and_false]
      exact ⟨rfl, Nat.zero_le _⟩
  | some entry =>
      rcases entry with ⟨id, row⟩
      have about := FollowState.pair_eq found
      dsimp only at about
      rcases about with ⟨there, follower, following⟩
      rw [found] at written
      cases written
      have moved := Table.countOf_set
        (fun row => side row = name && row.isBlog) there
        { row with what := what }
      have counted := Table.one_le_countOf
        (fun row => side row = name && row.isBlog) there
      rw [Table.one, belongs row follower following] at counted
      rw [Table.one, Table.one, belongs row follower following,
        belongs { row with what := what } follower following] at moved
      exact ⟨moved, counted⟩

end Rows

/-! ## The counts -/

/-- The stored numbers follow the numbers of rows, modulo `2 ^ 32`. -/
structure FollowsCounted (state : FollowState) : Prop where
  following : ∀ name,
    state.followingCount name = state.followed name % 2 ^ 32
  followers : ∀ name,
    state.followerCount name = state.followers name % 2 ^ 32
  recorded : ∀ name, state.counts.find? name = none →
    state.followed name = 0 ∧ state.followers name = 0

theorem counted_empty :
    FollowsCounted .empty :=
  ⟨fun _ => rfl, fun _ => rfl, fun _ _ => ⟨rfl, rfl⟩⟩

section Counts

variable {counts : Register FollowCountObject} {name : AccountName}
    {wasFollowed isFollowing : Bool}

/-- The number in an object, or zero when there is none. -/
def stored (field : FollowCountObject → Nat)
    (counts : Register FollowCountObject) (name : AccountName) : Nat :=
  ((counts.find? name).map field).getD 0

/-- The number which an operation leaves in the object of its account. -/
def newCount (field : FollowCountObject → Nat)
    (found : Option FollowCountObject) (wasFollowed isFollowing : Bool) :
    Nat :=
  match found with
  | none => flag isFollowing
  | some count => recount wasFollowed isFollowing (field count)

/-- The object of a follower is there and has its new number. -/
theorem countFollower_stored
    (counts : Register FollowCountObject)
    (name other : AccountName)
    (wasFollowed isFollowing : Bool) :
    let after := FollowState.countFollower counts name wasFollowed isFollowing
    (after.find? other = none ↔ name ≠ other ∧ counts.find? other = none) ∧
      stored FollowCountObject.followerCount after other =
        stored FollowCountObject.followerCount counts other ∧
      stored FollowCountObject.followingCount after other =
        if name = other then
          newCount FollowCountObject.followingCount (counts.find? name)
            wasFollowed isFollowing
        else stored FollowCountObject.followingCount counts other := by
  unfold stored FollowState.countFollower
  dsimp only
  cases found : counts.find? name with
  | none =>
      rw [Register.find?_emplace]
      by_cases same : name = other
      · subst same
        simp [found, newCount, flag]
      · simp [same]
  | some count =>
      rw [Register.find?_set found]
      by_cases same : name = other
      · subst same
        simp [found, newCount]
      · simp [same]

/-- The object of a followed account is there and has its new number. -/
theorem countFollowing_stored
    (counts : Register FollowCountObject)
    (name other : AccountName)
    (wasFollowed isFollowing : Bool) :
    let after := FollowState.countFollowing counts name wasFollowed isFollowing
    (after.find? other = none ↔ name ≠ other ∧ counts.find? other = none) ∧
      stored FollowCountObject.followingCount after other =
        stored FollowCountObject.followingCount counts other ∧
      stored FollowCountObject.followerCount after other =
        if name = other then
          newCount FollowCountObject.followerCount (counts.find? name)
            wasFollowed isFollowing
        else stored FollowCountObject.followerCount counts other := by
  unfold stored FollowState.countFollowing
  dsimp only
  cases found : counts.find? name with
  | none =>
      rw [Register.find?_emplace]
      by_cases same : name = other
      · subst same
        simp [found, newCount, flag]
      · simp [same]
  | some count =>
      rw [Register.find?_set found]
      by_cases same : name = other
      · subst same
        simp [found, newCount]
      · simp [same]

end Counts

/-- One of the two counts of an operation follows its number of rows. -/
theorem count_follows
    {wasFollowed isFollowing : Bool}
    {name place : AccountName}
    {before after old : Nat}
    {found : Option FollowCountObject}
    (field : FollowCountObject → Nat)
    (moved : after + flag (place = name && wasFollowed) =
      before + flag (place = name && isFollowing))
    (counted : flag (place = name && wasFollowed) ≤ before)
    (kept : old = before % 2 ^ 32)
    (held : place = name → (found.map field).getD 0 = old)
    (recorded : place = name → found = none → before = 0) :
    (if place = name then
        newCount field found wasFollowed isFollowing
      else old) = after % 2 ^ 32 := by
  by_cases here : place = name
  · rw [decide_eq_true here, Bool.true_and, Bool.true_and] at moved
    rw [decide_eq_true here, Bool.true_and] at counted
    rw [if_pos here]
    cases found with
    | none =>
        have nothing := recorded here rfl
        rw [nothing] at moved counted
        have all : after = flag isFollowing := by omega
        have small : flag isFollowing < 2 ^ 32 := by
          cases isFollowing <;> decide
        rw [all, Nat.mod_eq_of_lt small]
        rfl
    | some count =>
        have value : field count = before % 2 ^ 32 := (held here).trans kept
        unfold newCount
        dsimp only
        rw [value]
        exact recount_mod moved counted
  · rw [decide_eq_false here, Bool.false_and, Bool.false_and] at moved
    have same : after = before := moved
    rw [if_neg here, kept, same]

/-- An applied operation keeps the counts in step with the rows. -/
theorem FollowsCounted.doApply
    {state after : FollowState}
    {op : FollowOperation}
    (counted : FollowsCounted state)
    (applied : state.doApply op = .ok after) :
    FollowsCounted after := by
  have bit := op.target_bit
  unfold FollowState.doApply at applied
  generalize targetEq : op.target = target at applied bit
  rcases target with ⟨what, isFollowing⟩
  dsimp only at applied bit
  generalize writtenEq : state.writePair op what = written at applied
  rcases written with ⟨follows, wasFollowed⟩
  rcases (bind_eq_ok_iff _ _ _).1 applied with ⟨_, -, done⟩
  cases done
  have rowsFollower := writePair_countOf writtenEq FollowObject.follower
    op.follower fun _ follower _ => follower
  have rowsFollowing := writePair_countOf writtenEq FollowObject.following
    op.following fun _ _ following => following
  rw [bit] at rowsFollower rowsFollowing
  have first := countFollower_stored state.counts op.follower
  have second := countFollowing_stored
    (FollowState.countFollower state.counts op.follower wasFollowed
      isFollowing) op.following
  refine ⟨?_, ?_, ?_⟩
  · intro name
    have view := (second name wasFollowed isFollowing).2.1.trans
      (first name wasFollowed isFollowing).2.2
    refine view.trans (count_follows FollowCountObject.followingCount
      (rowsFollower name).1 (rowsFollower name).2 (counted.following name)
      ?_ ?_)
    · rintro rfl
      rfl
    · rintro rfl missing
      exact (counted.recorded _ missing).1
  · intro name
    have view := (second name wasFollowed isFollowing).2.2
    rw [(first name wasFollowed isFollowing).2.1] at view
    refine view.trans (count_follows FollowCountObject.followerCount
      (rowsFollowing name).1 (rowsFollowing name).2 (counted.followers name)
      ?_ ?_)
    · rintro rfl
      exact (first _ wasFollowed isFollowing).2.1
    · rintro rfl missing
      exact (counted.recorded _
        ((first _ wasFollowed isFollowing).1.1 missing).2).2
  · intro name missing
    rcases (second name wasFollowed isFollowing).1.1 missing with
      ⟨notFollowing, missing⟩
    rcases (first name wasFollowed isFollowing).1.1 missing with
      ⟨notFollower, missing⟩
    have none := counted.recorded name missing
    have follower := (rowsFollower name).1
    have following := (rowsFollowing name).1
    rw [decide_eq_false notFollower, Bool.false_and, Bool.false_and]
      at follower
    rw [decide_eq_false notFollowing, Bool.false_and, Bool.false_and]
      at following
    exact ⟨(show _ = state.followed name from follower).trans none.1,
      (show _ = state.followers name from following).trans none.2⟩

theorem counted_run
    {ops : List FollowOperation}
    {state after : FollowState}
    (counted : FollowsCounted state)
    (ran : state.run ops = .ok after) :
    FollowsCounted after := by
  induction ops generalizing state with
  | nil =>
      cases ran
      exact counted
  | cons op rest induction =>
      unfold FollowState.run at ran
      rw [List.foldlM_cons, bind_eq_ok_iff] at ran
      rcases ran with ⟨middle, applied, ran⟩
      exact induction (counted.doApply applied) ran

/-! ## Every run -/

/--
After any applied operations the counts are right exactly when no account
follows, or is followed by, `2 ^ 32` accounts or more.
-/
theorem follow_counts_iff
    {ops : List FollowOperation}
    {state : FollowState}
    (ran : FollowState.empty.run ops = .ok state) :
    (∀ name, state.followerCount name = state.followers name ∧
        state.followingCount name = state.followed name) ↔
      ∀ name, state.followers name < 2 ^ 32 ∧
        state.followed name < 2 ^ 32 := by
  have counted := counted_run counted_empty ran
  constructor
  · intro right name
    rcases right name with ⟨followers, following⟩
    rw [← followers, ← following, counted.followers, counted.following]
    exact ⟨Nat.mod_lt _ (Nat.two_pow_pos 32),
      Nat.mod_lt _ (Nat.two_pow_pos 32)⟩
  · intro small name
    rcases small name with ⟨followers, following⟩
    rw [counted.followers, counted.following]
    exact ⟨Nat.mod_eq_of_lt followers, Nat.mod_eq_of_lt following⟩

/-- Alice follows the blog of another account. -/
def followBlog (name : AccountName) : FollowOperation :=
  ⟨"alice", name, ["blog"]⟩

/-- The counts are right after one operation. -/
theorem follow_counts_iff_one :
    ∃ state, FollowState.empty.run [followBlog "bob"] = .ok state ∧
      state.followers "bob" = 1 ∧
        ∀ name, state.followerCount name = state.followers name ∧
          state.followingCount name = state.followed name := by
  have few : ∀ test : FollowObject → Bool,
      (Table.empty.emplace ⟨"alice", "bob", 2⟩).countOf test < 2 ^ 32 := by
    intro test
    rw [Table.countOf_emplace, Table.one]
    split
    · exact (by decide : 0 + 1 < 2 ^ 32)
    · exact (by decide : 0 + 0 < 2 ^ 32)
  have ran : FollowState.empty.run [followBlog "bob"] = .ok _ := rfl
  exact ⟨_, ran, rfl, (follow_counts_iff ran).2 fun _ => ⟨few _, few _⟩⟩

/-! ## Too many followed accounts -/

/-- Alice follows one account after the other. -/
def followMany (count : Nat) : List FollowOperation :=
  (List.range count).map fun num => followBlog (Nat.repr num)

/-- Every one of these operations is applied and adds a row. -/
theorem run_followMany
    (count : Nat) :
    ∃ state, FollowState.empty.run (followMany count) = .ok state ∧
      state.followed "alice" = count ∧
      state.follows.All fun row =>
        ∃ num, num < count ∧ row.following = Nat.repr num := by
  induction count with
  | zero => exact ⟨.empty, rfl, rfl, Table.All.empty⟩
  | succ count induction =>
      rcases induction with ⟨state, ran, many, known⟩
      have fresh : state.pair (followBlog (Nat.repr count)) = none := by
        cases found : state.pair (followBlog (Nat.repr count)) with
        | none => rfl
        | some entry =>
            rcases FollowState.pair_eq found with ⟨there, -, following⟩
            rcases known entry.1 entry.2 there with ⟨num, earlier, same⟩
            have equal := Nat.repr_injective (same.symm.trans following)
            omega
      have written :
          state.writePair (followBlog (Nat.repr count)) 2 =
            (state.follows.emplace ⟨"alice", Nat.repr count, 2⟩, false) := by
        unfold FollowState.writePair
        rw [fresh]
        rfl
      have applied : ∃ counts,
          state.doApply (followBlog (Nat.repr count)) =
            .ok ⟨state.follows.emplace ⟨"alice", Nat.repr count, 2⟩,
              counts⟩ := by
        unfold FollowState.doApply
        have target : (followBlog (Nat.repr count)).target = (2, true) := rfl
        rw [target]
        dsimp only
        rw [written]
        exact ⟨_, rfl⟩
      rcases applied with ⟨counts, applied⟩
      refine ⟨⟨state.follows.emplace ⟨"alice", Nat.repr count, 2⟩, counts⟩,
        ?_, ?_, ?_⟩
      · unfold FollowState.run followMany
        rw [List.range_succ, List.map_append, List.foldlM_append]
        have before : (List.map (fun num => followBlog (Nat.repr num))
            (List.range count)).foldlM FollowState.doApply
              FollowState.empty = .ok state := ran
        rw [before]
        show (state.doApply (followBlog (Nat.repr count)) >>= _) = _
        rw [applied]
        rfl
      · have added := Table.countOf_emplace
          (fun row : FollowObject => row.follower = "alice" && row.isBlog)
          state.follows ⟨"alice", Nat.repr count, 2⟩
        have follows : Table.one
            (fun row : FollowObject => row.follower = "alice" && row.isBlog)
            ⟨"alice", Nat.repr count, 2⟩ = 1 :=
          if_pos (show (decide ("alice" = "alice") && Nat.testBit 2 1) = true
            by decide)
        rw [follows] at added
        exact added.trans (congrArg (· + 1) many)
      · refine Table.All.emplace ?_ ⟨count, Nat.lt_succ_self _, rfl⟩
        intro id row there
        rcases known id row there with ⟨num, earlier, same⟩
        exact ⟨num, Nat.lt_succ_of_lt earlier, same⟩

/-- After `2 ^ 32` followed accounts the count is back at zero. -/
theorem follow_counts_wrap :
    ∃ state, FollowState.empty.run (followMany (2 ^ 32)) = .ok state ∧
      state.followed "alice" = 2 ^ 32 ∧ state.followingCount "alice" = 0 := by
  rcases run_followMany (2 ^ 32) with ⟨state, ran, many, -⟩
  have counted := counted_run counted_empty ran
  refine ⟨state, ran, many, ?_⟩
  rw [counted.following, many]
  exact Nat.mod_self _

end BMChain.Plugins
