import BMChain.State.Clock
import BMChain.State.CommentFrame

/-!
# The totals of the votes on a comment

A comment keeps the sum of the shares of its votes, the sum of their absolute
values and the number of votes for it less those against it.  Until the first
payout these are the totals of the votes which are stored, whichever way the
votes were changed.
-/

namespace BMChain.State

open BMChain.Foundation BMChain.Protocol Std

variable {place : Nat} {voter : AccountObject} {power : VotePower}
    {ext : External} {op : VoteOperation}

variable {header : BlockHeader} {step : BlockStep}

variable {fields : List Field} {recentClaims : Nat}
    {rewardBalance claimed : Int}

namespace Database

/-! ## Votes on one comment -/

/-- The votes on a comment, weighed by a measure of their shares. -/
def voteTally (measure : Int → Int) (votes : Table CommentVoteObject) (id : Nat) :
    Int :=
  sumOf (fun vote => if vote.comment = id then measure vote.rshares else 0)
    votes.rows

/-- How many more votes on a comment are for it than against it. -/
def votesBalance (db : Database) (id : Nat) : Int :=
  ((db.votesOfComment id).countP fun vote => 0 < vote.2.rshares) -
    ((db.votesOfComment id).countP fun vote => vote.2.rshares < 0)

/-- The totals are those of the votes which are stored. -/
structure TotalsBooked (totals : VoteTotals)
    (votes : Table CommentVoteObject) (id : Nat) : Prop where
  net : totals.netRshares = voteTally (fun rshares => rshares) votes id
  count : totals.netVotes = (voteTally Int.sign votes id).bmod (2 ^ 32)
  abs : voteTally (fun rshares => |rshares|) votes id ≤ totals.absRshares

theorem TotalsBooked.count_add
    {totals : VoteTotals}
    {votes : Table CommentVoteObject}
    {id : Nat}
    (booked : TotalsBooked totals votes id)
    (step : Int) :
    (voteTally Int.sign votes id + step).bmod (2 ^ 32) =
      (totals.netVotes + step).bmod (2 ^ 32) := by
  rw [booked.count, Int.bmod_add_bmod]

/-- What the evaluators keep of the votes. -/
structure VotesBooked (db : Database) : Prop where
  known : ∀ place vote, db.commentVotes.find? place = some vote →
    db.comments.find? vote.comment ≠ none
  once : db.commentVotes.Distinct fun vote => (vote.comment, vote.voter)
  totals : ∀ id comment, db.comments.find? id = some comment →
    comment.lastPayout = 0 → TotalsBooked comment.totals db.commentVotes id

/-! ## From the table to the list of votes -/

theorem mem_votesOfComment
    {db : Database}
    {id : Nat}
    {vote : Nat × CommentVoteObject} :
    vote ∈ db.votesOfComment id ↔
      db.commentVotes.find? vote.1 = some vote.2 ∧ vote.2.comment = id := by
  rw [votesOfComment, List.mem_insertionSort, List.mem_filter,
    decide_eq_true_eq]
  exact and_congr_left fun _ => ExtTreeMap.mem_toList_iff_getElem?_eq_some

theorem VotesBooked.of_sees
    {before after : Database}
    (booked : VotesBooked before)
    (sees : Sees (fun _ => CommentObject.totals) before after)
    (votes : after.commentVotes = before.commentVotes) :
    VotesBooked after := by
  constructor
  case known =>
    intro place vote found
    rw [votes] at found
    exact sees.ne_none (booked.known place vote found)
  case once =>
    rw [votes]
    exact booked.once
  case totals =>
    intro id comment found unpaid
    rcases sees.found found with ⟨old, there, same⟩
    have last : old.lastPayout = comment.lastPayout :=
      congrArg VoteTotals.lastPayout same
    rw [votes, ← same]
    exact booked.totals id old there (last.trans unpaid)

theorem votes_of_agrees
    {before after : Database}
    (agrees : Agrees fields before after)
    (separate : apart [.commentVotes] fields = true) :
    after.commentVotes = before.commentVotes :=
  agrees.read_eq separate List.mem_cons_self

theorem VotesBooked.of_agrees
    {before after : Database}
    (booked : VotesBooked before)
    (agrees : Agrees fields before after)
    (separate : apart [.comments, .commentVotes] fields = true) :
    VotesBooked after := by
  have comments : after.comments = before.comments :=
    agrees.read_eq separate List.mem_cons_self
  have votes : after.commentVotes = before.commentVotes :=
    agrees.read_eq separate (List.mem_cons_of_mem _ List.mem_cons_self)
  exact booked.of_sees (.of_comments comments) votes

/-! ## Votes -/

theorem voteTally_emplace
    (measure : Int → Int)
    (votes : Table CommentVoteObject)
    (vote : CommentVoteObject)
    (id : Nat) :
    voteTally measure (votes.emplace vote) id =
      voteTally measure votes id +
        if vote.comment = id then measure vote.rshares else 0 :=
  Table.sumOf_emplace _ votes vote

theorem voteTally_set
    (measure : Int → Int)
    {votes : Table CommentVoteObject}
    {old : CommentVoteObject}
    (found : votes.find? place = some old)
    (vote : CommentVoteObject)
    (id : Nat) :
    voteTally measure (votes.set place vote) id =
      voteTally measure votes id -
          (if old.comment = id then measure old.rshares else 0) +
        if vote.comment = id then measure vote.rshares else 0 :=
  Table.sumOf_set _ found vote

/-- A vote is worth nothing when its weight is zero, and else a positive amount. -/
theorem votePower_nonneg
    {db : Database}
    {weight : Int}
    (done : db.votePower voter weight = .ok power) :
    0 ≤ power.absRshares := by
  simp only [votePower, bind_eq_ok_iff, require_eq_ok_iff,
    pure_eq_ok_iff] at done
  rcases done with ⟨_, -, _, -, _, positive, _, -, shares, -, _, dust, equal⟩
  rw [← equal]
  dsimp only
  rcases dust with above | zero
  · have threshold : 0 < voteDustThreshold := by decide
    generalize wrapInt64 _ = absRshares at above ⊢
    exact Int.le_of_lt (Int.lt_trans threshold above)
  · have weighed : ∀ current : Int,
        (current * (weight.natAbs : Int)).tdiv hundredPercent = 0 := by
      intro current
      rw [zero, Int.natAbs_zero, Int.natCast_zero, Int.mul_zero,
        Int.zero_tdiv]
    have unused : ∀ denominator : Nat, 0 < denominator →
        (0 + (denominator : Int) - 1).tdiv denominator = 0 := by
      intro denominator some
      exact Int.tdiv_eq_zero_of_lt (by omega) (by omega)
    have none : uint128 0 = 0 := rfl
    rw [weighed, unused _ positive, none, Nat.mul_zero, Nat.zero_mod,
      Nat.zero_div]
    exact Int.le_refl 0

/-- How a changed vote moves the count is the difference of the signs. -/
theorem netVotesChange_eq_sign
    (old new : Int) :
    netVotesChange old new = new.sign - old.sign := by
  have sign : ∀ value : Int, value < 0 ∧ value.sign = -1 ∨
      value = 0 ∧ value.sign = 0 ∨ 0 < value ∧ value.sign = 1 := by
    intro value
    rcases Int.lt_trichotomy value 0 with below | zero | above
    · exact .inl ⟨below, Int.sign_eq_neg_one_of_neg below⟩
    · exact .inr (.inl ⟨zero, by rw [zero, Int.sign_zero]⟩)
    · exact .inr (.inr ⟨above, Int.sign_eq_one_of_pos above⟩)
  have before := sign old
  have after := sign new
  unfold netVotesChange
  split_ifs <;> omega

section Votes

variable {db after : Database} {id : Nat} {comment voted : CommentObject}
    {votes : Table CommentVoteObject}

/-- The totals of one comment and its votes change together. -/
theorem VotesBooked.retotal
    (booked : VotesBooked db)
    (found : db.comments.find? id = some comment)
    (last : voted.lastPayout = comment.lastPayout)
    (known : ∀ place vote, votes.find? place = some vote →
      db.comments.find? vote.comment ≠ none)
    (once : votes.Distinct fun vote => (vote.comment, vote.voter))
    (own : comment.lastPayout = 0 → TotalsBooked voted.totals votes id)
    (others : ∀ other, other ≠ id → ∀ measure,
      voteTally measure votes other = voteTally measure db.commentVotes other)
    (same : after.commentVotes = votes)
    (sees : Sees (fun _ => CommentObject.core)
      { db with comments := db.comments.set id voted } after) :
    VotesBooked after := by
  have kept : Sees (fun _ => CommentObject.totals)
      { db with comments := db.comments.set id voted } after :=
    sees.map (fun _ => Prod.snd) fun _ _ => rfl
  constructor
  case known =>
    intro place vote there
    rw [same] at there
    refine kept.ne_none ?_
    change (db.comments.set id voted).find? vote.comment ≠ none
    rw [Table.find?_set found]
    split
    case isTrue => exact Option.some_ne_none voted
    case isFalse => exact known place vote there
  case once =>
    rw [same]
    exact once
  case totals =>
    intro other row there unpaid
    rcases kept.found there with ⟨old, before, equal⟩
    have payout : old.lastPayout = row.lastPayout :=
      congrArg VoteTotals.lastPayout equal
    rw [same, ← equal]
    change (db.comments.set id voted).find? other = some old at before
    rw [Table.find?_set found] at before
    split at before
    case isTrue own' =>
      subst own'
      cases before
      exact own (last.symm.trans (payout.trans unpaid))
    case isFalse different =>
      have totals := booked.totals other old before (payout.trans unpaid)
      have tallies := others other (Ne.symm different)
      exact ⟨by rw [tallies]; exact totals.net,
        by rw [tallies]; exact totals.count,
        by rw [tallies]; exact totals.abs⟩

/-- The sign and the size of the shares of a vote. -/
theorem voteRshares_cases
    (op : VoteOperation)
    (nonneg : 0 ≤ power.absRshares) :
    |voteRshares op power| = power.absRshares := by
  unfold voteRshares
  split
  · rw [abs_neg, abs_of_nonneg nonneg]
  · exact abs_of_nonneg nonneg

theorem VotesBooked.castVote
    (booked : VotesBooked db)
    (found : db.comments.find? id = some comment)
    (first : db.commentVotes.findBy (fun vote =>
      vote.comment = id ∧ vote.voter = voter.id) = none)
    (done : db.castVote ext op voter id comment power = .ok after) :
    VotesBooked after := by
  rcases castVote_cases done with
    ⟨voted, vote, -, totals, -, ⟨on, cast, shares⟩, positive, votes, sees⟩
  have last : voted.lastPayout = comment.lastPayout :=
    congrArg VoteTotals.lastPayout totals
  refine booked.retotal found last ?_ ?_ ?_ ?_ votes sees
  · intro place row there
    rw [Table.find?_emplace] at there
    split at there
    case isTrue =>
      cases there
      rw [on, found]
      exact Option.some_ne_none comment
    case isFalse => exact booked.known place row there
  · refine booked.once.emplace ?_
    intro place row there same
    have refused := Table.refused_of_findBy first there
    rw [Prod.mk.injEq, on, cast] at same
    exact of_decide_eq_false refused same
  · intro unpaid
    have before := booked.totals id comment found unpaid
    have size := voteRshares_cases op (Int.le_of_lt positive)
    rw [totals]
    constructor
    case net =>
      rw [voteTally_emplace, if_pos on, shares, ← before.net]
      rfl
    case count =>
      rw [voteTally_emplace, if_pos on, shares, before.count_add]
      dsimp only
      split
      case isTrue above => rw [Int.sign_eq_one_of_pos above]; rfl
      case isFalse below =>
        have negative : voteRshares op power < 0 := by
          rcases Int.lt_trichotomy (voteRshares op power) 0 with
            under | zero | above
          · exact under
          · rw [zero, abs_zero] at size
            omega
          · exact absurd above below
        rw [Int.sign_eq_neg_one_of_neg negative]
        rfl
    case abs =>
      rw [voteTally_emplace, if_pos on, shares, size]
      exact Int.add_le_add_right before.abs _
  · intro other different measure
    rw [voteTally_emplace, if_neg (by rw [on]; exact Ne.symm different),
      Int.add_zero]

theorem VotesBooked.changeVote
    {voteId : Nat}
    {vote : CommentVoteObject}
    (booked : VotesBooked db)
    (found : db.comments.find? id = some comment)
    (earlier : db.commentVotes.findBy (fun vote =>
      vote.comment = id ∧ vote.voter = voter.id) = some (voteId, vote))
    (nonneg : 0 ≤ power.absRshares)
    (done : db.changeVote op id comment voteId vote power = .ok after) :
    VotesBooked after := by
  rcases changeVote_cases done with
    ⟨voted, changed, -, totals, -, ⟨on, cast, shares⟩, votes, sees⟩
  have last : voted.lastPayout = comment.lastPayout :=
    congrArg VoteTotals.lastPayout totals
  have there := Table.find?_of_findBy earlier
  have passed := Table.passed_of_findBy earlier
  rw [decide_eq_true_eq] at passed
  have own : vote.comment = id := passed.1
  refine booked.retotal found last ?_ ?_ ?_ ?_ votes sees
  · intro place row kept
    rw [Table.find?_set there] at kept
    split at kept
    case isTrue =>
      cases kept
      rw [on, own, found]
      exact Option.some_ne_none comment
    case isFalse => exact booked.known place row kept
  · exact booked.once.set there (Prod.ext on cast)
  · intro unpaid
    have before := booked.totals id comment found unpaid
    have size := voteRshares_cases op nonneg
    rw [totals]
    constructor
    case net =>
      rw [voteTally_set _ there, if_pos own, if_pos (on.trans own), shares,
        ← before.net]
      rfl
    case count =>
      have moved : ∀ tally : Int,
          tally - vote.rshares.sign + (voteRshares op power).sign =
            tally + netVotesChange vote.rshares (voteRshares op power) := by
        intro tally
        rw [netVotesChange_eq_sign]
        omega
      rw [voteTally_set _ there, if_pos own, if_pos (on.trans own), shares,
        moved, before.count_add]
      rfl
    case abs =>
      rw [voteTally_set _ there, if_pos own, if_pos (on.trans own), shares, size]
      have less := before.abs
      have old := abs_nonneg vote.rshares
      change _ ≤ comment.absRshares at less
      dsimp only
      omega
  · intro other different measure
    have apart : vote.comment ≠ other := by
      rw [own]
      exact Ne.symm different
    rw [voteTally_set _ there, if_neg apart, if_neg (on ▸ apart)]
    omega

theorem VotesBooked.vote
    (booked : VotesBooked db)
    (done : db.voteEvaluator ext op = .ok after) :
    VotesBooked after := by
  cases voted_vote done with
  | late same => exact same ▸ booked
  | cast id comment voter power stored account powered first done =>
      exact booked.castVote stored first done
  | changed id comment voter power voteId vote stored account powered earlier
      done =>
      exact booked.changeVote stored earlier (votePower_nonneg powered) done

end Votes

/-! ## New comments -/

theorem VotesBooked.storeComment
    {db after : Database}
    {op : CommentOperation}
    {comment : CommentObject}
    (booked : VotesBooked db)
    (totals : comment.totals = ⟨0, 0, 0, 0⟩)
    (done : db.storeComment op comment = .ok after) :
    VotesBooked after := by
  have votes : after.commentVotes = db.commentVotes :=
    touches_storeComment db op comment after done .commentVotes (by decide)
  simp only [Database.storeComment, createRow, bind_eq_ok_iff,
    pure_eq_ok_iff] at done
  rcases done with ⟨_, -, _, -, _, ⟨_, -, rfl⟩, told, walk, pay⟩
  have sees : Sees (fun _ => CommentObject.totals)
      { db with comments := db.comments.emplace comment } after := by
    refine trans_of _ (sees_updateParents ?_ _ _ _ _ told walk)
      (.of_agrees (touches_processFundsBmchain told _ after pay) rfl)
    exact fun _ _ => rfl
  have placed : VotesBooked
      { db with comments := db.comments.emplace comment } := by
    constructor
    case known =>
      intro place vote found
      change (db.comments.emplace comment).find? vote.comment ≠ none
      rw [Table.find?_emplace]
      split
      case isTrue => exact Option.some_ne_none comment
      case isFalse => exact booked.known place vote found
    case once => exact booked.once
    case totals =>
      intro id row found unpaid
      change (db.comments.emplace comment).find? id = some row at found
      rw [Table.find?_emplace] at found
      split at found
      case isTrue same =>
        cases found
        -- No vote can refer to an id which was not given out yet.
        have none : ∀ measure, voteTally measure db.commentVotes id = 0 := by
          intro measure
          refine sumOf_eq_zero ?_
          intro place vote there
          refine if_neg fun own => booked.known place vote there ?_
          rw [own, ← same]
          exact db.comments.find?_nextId
        rw [totals]
        exact ⟨(none _).symm, by rw [none]; rfl, Int.le_of_eq (none _)⟩
      case isFalse => exact booked.totals id row found unpaid
  exact placed.of_sees sees votes

theorem VotesBooked.written
    {db after : Database}
    {op : CommentOperation}
    (booked : VotesBooked db)
    (votes : after.commentVotes = db.commentVotes)
    (written : Written ext db op after) :
    VotesBooked after := by
  cases written with
  | edited sees =>
      exact booked.of_sees (sees.map (fun _ => Prod.snd) fun _ _ => rfl) votes
  | stored later parent comment same fresh found core done =>
      have kept : later.commentVotes = db.commentVotes :=
        (touches_storeComment later op comment after done .commentVotes
          (by decide)).symm.trans votes
      have totals : comment.totals = ⟨0, 0, 0, 0⟩ := by
        refine (congrArg Prod.snd core).trans ?_
        cases parent <;> rfl
      exact (booked.of_sees (.of_comments same) kept).storeComment totals done

/-! ## Votes which are removed or closed -/

/-- Votes on one comment are removed or closed, and the others stay. -/
structure OthersStay (id : Nat) (before after : Table CommentVoteObject) :
    Prop where
  old : ∀ place vote, after.find? place = some vote →
    ∃ earlier, before.find? place = some earlier ∧
      earlier.comment = vote.comment ∧ earlier.voter = vote.voter
  others : ∀ other, other ≠ id → ∀ measure,
    voteTally measure after other = voteTally measure before other

namespace OthersStay

variable {id : Nat} {before after : Table CommentVoteObject}

theorem refl
    (votes : Table CommentVoteObject) :
    OthersStay id votes votes :=
  ⟨fun _ vote found => ⟨vote, found, rfl, rfl⟩, fun _ _ _ => rfl⟩

theorem remove
    (stay : OthersStay id before after)
    {vote : CommentVoteObject}
    (found : before.find? place = some vote)
    (own : vote.comment = id) :
    OthersStay id before (after.remove place) := by
  constructor
  case old =>
    intro other row there
    rw [Table.find?_remove] at there
    split at there
    · cases there
    · exact stay.old other row there
  case others =>
    intro other different measure
    rw [← stay.others other different measure]
    cases there : after.find? place with
    | none =>
        exact congrArg (sumOf _) (erase_absent there)
    | some row =>
        rcases stay.old place row there with ⟨earlier, same, on, -⟩
        rw [found] at same
        cases same
        refine (Table.sumOf_remove _ there).trans ?_
        rw [if_neg, Int.sub_zero]
        · rfl
        · rw [← on, own]
          exact Ne.symm different

theorem set
    (stay : OthersStay id before after)
    {vote closed : CommentVoteObject}
    (found : before.find? place = some vote)
    (own : vote.comment = id)
    (on : closed.comment = vote.comment)
    (cast : closed.voter = vote.voter) :
    OthersStay id before (after.set place closed) := by
  cases there : after.find? place with
  | none =>
      rw [Table.set_absent there]
      exact stay
  | some row =>
      constructor
      case old =>
        intro other row' kept
        rw [Table.find?_set there] at kept
        split at kept
        case isTrue same =>
          subst same
          cases kept
          exact ⟨vote, found, on.symm, cast.symm⟩
        case isFalse => exact stay.old other row' kept
      case others =>
        intro other different measure
        rcases stay.old place row there with ⟨earlier, same, still, -⟩
        rw [found] at same
        cases same
        have apart : vote.comment ≠ other := by
          rw [own]
          exact Ne.symm different
        rw [voteTally_set _ there, if_neg (still ▸ apart), if_neg (on ▸ apart),
          stay.others other different measure]
        omega

theorem once
    (stay : OthersStay id before after)
    (distinct : before.Distinct fun vote => (vote.comment, vote.voter)) :
    after.Distinct fun vote => (vote.comment, vote.voter) := by
  intro first second one two found there same
  rcases stay.old first one found with ⟨early, earlier, on, cast⟩
  rcases stay.old second two there with ⟨late, later, on', cast'⟩
  refine distinct first second early late earlier later ?_
  rw [Prod.mk.injEq] at same
  exact Prod.ext (on.trans (same.1.trans on'.symm))
    (cast.trans (same.2.trans cast'.symm))

theorem foldl_remove
    {entries : List (Nat × CommentVoteObject)}
    (own : ∀ entry ∈ entries, before.find? entry.1 = some entry.2 ∧
      entry.2.comment = id)
    (stay : OthersStay id before after) :
    OthersStay id before
      (entries.foldl (fun votes vote => votes.remove vote.1) after) := by
  induction entries generalizing after with
  | nil => exact stay
  | cons entry rest induction =>
      rw [List.foldl_cons]
      have first := own entry List.mem_cons_self
      exact induction (fun entry later => own entry (List.mem_cons_of_mem _ later))
        (stay.remove first.1 first.2)

end OthersStay

section Closed

variable {db after : Database} {id : Nat}

/-- Votes are dropped or closed with their comment removed or paid. -/
theorem VotesBooked.of_stay
    (booked : VotesBooked db)
    (stay : OthersStay id db.commentVotes after.commentVotes)
    (others : ∀ other, other ≠ id →
      (after.comments.find? other).map CommentObject.totals =
        (db.comments.find? other).map CommentObject.totals)
    (own : ∀ comment, after.comments.find? id = some comment →
      comment.lastPayout ≠ 0)
    (left : ∀ place vote, after.commentVotes.find? place = some vote →
      vote.comment = id → after.comments.find? id ≠ none) :
    VotesBooked after := by
  constructor
  case known =>
    intro place vote found
    by_cases same : vote.comment = id
    · rw [same]
      exact left place vote found same
    · rcases stay.old place vote found with ⟨earlier, before, on, -⟩
      intro none
      have seen := others vote.comment same
      rw [none, Option.map_none, eq_comm, Option.map_eq_none_iff] at seen
      exact booked.known place earlier before (on ▸ seen)
  case once => exact stay.once booked.once
  case totals =>
    intro other row found unpaid
    have different : other ≠ id := by
      rintro rfl
      exact own row found unpaid
    have seen := others other different
    rw [found, Option.map_some, eq_comm, Option.map_eq_some_iff] at seen
    rcases seen with ⟨old, before, same⟩
    have last : old.lastPayout = row.lastPayout :=
      congrArg VoteTotals.lastPayout same
    have totals := booked.totals other old before (last.trans unpaid)
    have tallies := stay.others other different
    rw [← same]
    exact ⟨totals.net.trans (tallies _).symm,
      totals.count.trans (by rw [tallies]),
      Int.le_trans (Int.le_of_eq (tallies _)) totals.abs⟩

/-- A comment is deleted with its votes. -/
theorem VotesBooked.deleteComment
    {op : DeleteCommentOperation}
    (booked : VotesBooked db)
    (done : db.deleteCommentEvaluator op = .ok after) :
    VotesBooked after ∧
      ∃ id, OthersStay id db.commentVotes after.commentVotes := by
  simp only [deleteCommentEvaluator, bind_eq_ok_iff, pure_eq_ok_iff] at done
  rcases done with ⟨_, -, _, -, ⟨id, comment⟩, -, _, -, _, -, done⟩
  rcases done with ⟨_, -, told, walk, rfl⟩
  have votes : told.commentVotes = (db.votesOfComment id).foldl
      (fun votes vote => votes.remove vote.1) db.commentVotes :=
    touches_updateParents _ _ _ _ _ told walk .commentVotes (by decide)
  have sees : Sees (fun _ => CommentObject.totals) db told := by
    refine trans_of _ (Sees.of_comments rfl)
      (sees_updateParents ?_ _ _ _ _ told walk)
    exact fun _ _ => rfl
  have stay : OthersStay id db.commentVotes told.commentVotes := by
    rw [votes]
    exact .foldl_remove (fun entry member => mem_votesOfComment.1 member)
      (.refl _)
  refine ⟨booked.of_stay stay ?_ ?_ ?_, id, stay⟩
  · intro other different
    change ((told.comments.remove id).find? other).map _ = _
    rw [Table.find?_remove, if_neg (Ne.symm different)]
    exact sees other
  · intro row found
    change (told.comments.remove id).find? id = some row at found
    rw [Table.find?_remove, if_pos rfl] at found
    cases found
  · intro place vote found own
    change told.commentVotes.find? place = some vote at found
    rw [votes, Table.find?_foldl_remove] at found
    split at found
    case isTrue => cases found
    case isFalse kept =>
      refine absurd (List.mem_map.2 ⟨(place, vote), ?_, rfl⟩) kept
      exact mem_votesOfComment.2 ⟨found, own⟩

/-- Closing the votes of a comment leaves those of the others. -/
theorem othersStay_closeVotes
    (done : db.closeVotes id = .ok after) :
    OthersStay id db.commentVotes after.commentVotes := by
  simp only [closeVotes, bind_eq_ok_iff] at done
  rcases done with ⟨_, -, done⟩
  refine foldlM_invariant
    (fun state : Database =>
      OthersStay id db.commentVotes state.commentVotes) ?_ done (.refl _)
  intro state vote next member stepped stay
  rcases mem_votesOfComment.1 member with ⟨found, own⟩
  simp only [bind_eq_ok_iff] at stepped
  rcases stepped with ⟨_, -, stepped⟩
  split at stepped
  · cases stepped
    exact stay.set found own rfl rfl
  · cases stepped
    exact stay.remove found own

theorem lastPayout_restartComment
    (done : db.restartComment id = .ok after) :
    ∃ comment, after.comments.find? id = some comment ∧
      comment.lastPayout = db.headBlockTime := by
  simp only [restartComment, modifyComment, modifyRow, bind_eq_ok_iff,
    orFault_eq_ok_iff, pure_eq_ok_iff] at done
  rcases done with ⟨_, ⟨old, there, _, rfl, rfl⟩, rfl⟩
  exact ⟨_, (Table.find?_set there _ _).trans (if_pos rfl), rfl⟩

/-- What a payout leaves of the votes, and that it notes its time. -/
theorem cashout_votes
    (done : db.cashoutCommentHelper ext id recentClaims rewardBalance =
      .ok (after, claimed)) :
    OthersStay id db.commentVotes after.commentVotes ∧
      ∃ comment, after.comments.find? id = some comment ∧
        comment.lastPayout = db.headBlockTime := by
  have head := headOf_of_agrees (agrees_cashoutCommentHelper done) rfl
  simp only [cashoutCommentHelper, bind_eq_ok_iff] at done
  rcases done with
    ⟨comment, -, ⟨paid, _⟩, pay, restarted, restart, closed, close, equal⟩
  cases equal
  have closing := touches_closeVotes _ _ after close
  have votes : paid.commentVotes = db.commentVotes := by
    split at pay
    case isFalse =>
      cases pay
      rfl
    case isTrue => exact agrees_payComment pay .commentVotes (by decide)
  have kept : restarted.commentVotes = paid.commentVotes :=
    touches_modifyComment paid _ _ restarted restart .commentVotes (by decide)
  constructor
  · have stay := othersStay_closeVotes close
    change OthersStay id restarted.commentVotes _ at stay
    rw [kept, votes] at stay
    exact stay
  · rcases lastPayout_restartComment restart with ⟨row, found, last⟩
    have same : after.comments = restarted.comments :=
      closing .comments (by decide)
    have restarting := headOf_of_agrees
      (touches_modifyComment paid _ _ restarted restart) rfl
    have time : paid.headBlockTime = db.headBlockTime := by
      have still := headOf_of_agrees closing rfl
      exact congrArg (fun head => head.2.2)
        ((restarting.symm.trans still.symm).trans head)
    exact ⟨row, same ▸ found, last.trans time⟩

theorem VotesBooked.cashoutComment
    (booked : VotesBooked db)
    (late : 0 < db.headBlockTime)
    (done : db.cashoutCommentHelper ext id recentClaims rewardBalance =
      .ok (after, claimed)) :
    VotesBooked after := by
  rcases cashout_votes done with ⟨stay, comment, found, last⟩
  have sees := sees_cashoutCommentHelper done
  refine booked.of_stay stay ?_ ?_ ?_
  · intro other different
    rw [sees.eq_of_ne different]
  · intro row there
    rw [found] at there
    cases there
    rw [last]
    exact Nat.ne_of_gt late
  · intro _ _ _ _
    rw [found]
    exact Option.some_ne_none comment

end Closed

/-! ## Runs -/

theorem votesBooked_genesis :
    VotesBooked initGenesis := by
  refine ⟨?_, Table.Distinct.empty, ?_⟩
  · intro place vote found
    cases found
  · intro id comment found
    cases found

theorem VotesBooked.applyOperation
    {db after : Database}
    {op : Operation}
    (booked : VotesBooked db)
    (done : db.applyOperation ext op = .ok after) :
    VotesBooked after := by
  have agrees := touches_applyOperation ext db op after done
  cases op with
  | vote op => exact booked.vote done
  | comment op =>
      exact booked.written (votes_of_agrees agrees rfl)
        (written_comment done)
  | encryptedContent op =>
      exact booked.written (votes_of_agrees agrees rfl)
        (written_encryptedContent done)
  | deleteComment op => exact (booked.deleteComment done).1
  | commentOptions op =>
      have sees := sees_commentOptions op db after done
      exact booked.of_sees (sees.map (fun _ view => view.1.2) fun _ _ => rfl)
        (votes_of_agrees agrees rfl)
  | _ => exact booked.of_agrees agrees rfl

/-- The votes are in order, and the clock has started. -/
structure VotesTimed (db : Database) : Prop where
  booked : VotesBooked db
  started : 0 < db.headBlockTime

theorem VotesTimed.runStep
    {db after : Database}
    (timed : VotesTimed db)
    (later : 0 < header.timestamp)
    (done : db.runStep ext header step = .ok after) :
    VotesTimed after := by
  have agrees := touches_runStep ext header db step after done
  have started : 0 < after.headBlockTime := by
    rcases time_runStep done with set | kept
    · exact set ▸ later
    · exact kept ▸ timed.started
  cases step with
  | processCommentCashout =>
      refine processCommentCashout_invariant VotesTimed ?_ ?_
        (eachPayout_of_forall (fun _ _ _ _ => trivial) db) done timed
      · intro before after agrees timed
        have head := headOf_of_agrees agrees rfl
        have time : after.headBlockTime = before.headBlockTime :=
          congrArg (fun head => head.2.2) head
        exact ⟨timed.booked.of_agrees agrees rfl, time ▸ timed.started⟩
      · intro db id recentClaims rewardBalance after claimed _ paid timed
        have head := headOf_of_agrees (agrees_cashoutCommentHelper paid) rfl
        have time : after.headBlockTime = db.headBlockTime :=
          congrArg (fun head => head.2.2) head
        exact ⟨timed.booked.cashoutComment timed.started paid,
          time ▸ timed.started⟩
  | _ => exact ⟨timed.booked.of_agrees agrees rfl, started⟩

/-- The voters are among the first accounts. -/
structure FewVoters (count : Nat) (db : Database) : Prop where
  ids : ∀ name account, db.accounts.find? name = some account →
    account.id < count
  voters : db.commentVotes.All fun vote => vote.voter < count

section Voters

variable {count id : Nat} {db after : Database}

theorem FewVoters.of_agrees
    {fields : List Field}
    (few : FewVoters count db)
    (agrees : Agrees fields db after)
    (separate : apart [.account .identity] fields = true)
    (voters : after.commentVotes.All fun vote => vote.voter < count) :
    FewVoters count after := by
  refine ⟨?_, voters⟩
  intro name account found
  have same : Field.read (.account .identity) after =
      Field.read (.account .identity) db :=
    agrees.read_eq separate List.mem_cons_self
  have row := congrFun same name
  simp only [Field.read, found, Option.map_some] at row
  rcases Option.map_eq_some_iff.1 row.symm with ⟨old, there, equal⟩
  have ids : old.id = account.id := congrArg Prod.fst equal
  exact ids ▸ few.ids name old there

theorem voters_of_stay
    {votes : Table CommentVoteObject}
    (stay : OthersStay id db.commentVotes votes)
    (voters : db.commentVotes.All fun vote => vote.voter < count) :
    votes.All fun vote => vote.voter < count := by
  intro place vote found
  rcases stay.old place vote found with ⟨earlier, before, -, cast⟩
  exact cast ▸ voters place earlier before

/-- An account has one vote on a comment, so accounts bound the balance. -/
theorem FewVoters.fits
    (few : FewVoters count db)
    (booked : VotesBooked db)
    (small : count < 2 ^ 31)
    (id : Nat) :
    FitsInt32 (db.votesBalance id) := by
  have distinct : ((db.votesOfComment id).map fun vote =>
      vote.2.voter).Nodup := by
    have keys : (db.votesOfComment id).Nodup := by
      rw [votesOfComment, (List.perm_insertionSort _ _).nodup_iff]
      exact (toList_nodup db.commentVotes.rows).filter _
    refine keys.map_on ?_
    rintro ⟨place, vote⟩ member ⟨other, later⟩ listed same
    rw [mem_votesOfComment] at member listed
    cases booked.once place other vote later member.1 listed.1
      (Prod.ext (member.2.trans listed.2.symm) same)
    rw [member.1] at listed
    exact Prod.ext rfl (Option.some.inj listed.1)
  have length : (db.votesOfComment id).length ≤ count := by
    have within : ((db.votesOfComment id).map fun vote =>
        vote.2.voter) ⊆ List.range count := by
      intro voter member
      rcases List.mem_map.1 member with ⟨vote, listed, rfl⟩
      exact List.mem_range.2 (few.voters _ _ (mem_votesOfComment.1 listed).1)
    have bound := distinct.length_le_of_subset within
    rwa [List.length_map, List.length_range] at bound
  have up := List.countP_le_length
    (p := fun vote : Nat × CommentVoteObject => decide (0 < vote.2.rshares))
    (l := db.votesOfComment id)
  have down := List.countP_le_length
    (p := fun vote : Nat × CommentVoteObject => decide (vote.2.rshares < 0))
    (l := db.votesOfComment id)
  rw [votesBalance, FitsInt32]
  omega

end Voters

end Database

/-- Votes, comments, their options, deletions and blocks. -/
def IsVotingEvent : Event → Prop
  | .operation (.vote _) => True
  | .operation (.comment _) => True
  | .operation (.commentOptions _) => True
  | .operation (.deleteComment _) => True
  | .operation _ => False
  | _ => True

section VotingRuns

variable {ext : External} {count : Nat} {db after : Database}

namespace Database

theorem FewVoters.vote
    (few : FewVoters count db)
    (done : db.voteEvaluator ext op = .ok after) :
    after.commentVotes.All fun vote => vote.voter < count := by
  cases voted_vote done with
  | late same => exact same ▸ few.voters
  | cast id comment voter power stored account powered first done =>
      rcases castVote_cases done with
        ⟨_, vote, -, -, -, ⟨-, cast, -⟩, -, votes, -⟩
      rw [votes]
      exact few.voters.emplace (cast ▸ few.ids _ _ account)
  | changed id comment voter power voteId vote stored account powered earlier
      done =>
      rcases changeVote_cases done with
        ⟨_, changed, -, -, -, ⟨-, cast, -⟩, votes, -⟩
      rw [votes]
      refine few.voters.set ?_ voteId
      exact cast ▸ few.voters _ _ (Table.find?_of_findBy earlier)

/-- No operation of such a run makes an account. -/
theorem FewVoters.applyOperation
    {op : Operation}
    (few : FewVoters count db)
    (booked : VotesBooked db)
    (voting : IsVotingEvent (.operation op))
    (done : db.applyOperation ext op = .ok after) :
    FewVoters count after := by
  have agrees := touches_applyOperation ext db op after done
  cases op with
  | vote op => exact few.of_agrees agrees rfl (few.vote done)
  | comment op =>
      exact few.of_agrees agrees rfl
        (votes_of_agrees agrees rfl ▸ few.voters)
  | commentOptions op =>
      exact few.of_agrees agrees rfl
        (votes_of_agrees agrees rfl ▸ few.voters)
  | deleteComment op =>
      rcases (booked.deleteComment done).2 with ⟨id, stay⟩
      exact few.of_agrees agrees rfl (voters_of_stay stay few.voters)
  | _ => exact absurd voting id

theorem FewVoters.runStep
    (few : FewVoters count db)
    (done : db.runStep ext header step = .ok after) :
    FewVoters count after := by
  have agrees := touches_runStep ext header db step after done
  have separate : apart [.account .identity] (stepFootprint step) = true := by
    cases step <;> rfl
  refine few.of_agrees agrees separate ?_
  cases step with
  | processCommentCashout =>
      refine processCommentCashout_invariant
        (fun state => state.commentVotes.All fun vote => vote.voter < count)
        ?_ ?_ (eachPayout_of_forall (fun _ _ _ _ => trivial) db) done few.voters
      · intro before after agrees voters
        exact votes_of_agrees agrees rfl ▸ voters
      · intro db id recentClaims rewardBalance after claimed _ paid voters
        exact voters_of_stay (cashout_votes paid).1 voters
  | _ => exact votes_of_agrees agrees rfl ▸ few.voters

end Database

end VotingRuns

/-- A vote on the sample post. -/
def sampleVote (voter : AccountName) (weight : Int) : Operation :=
  .vote
    { voter := voter
      author := initMinerName
      permlink := [97]
      weight := weight
      commentBmchain := [] }

end BMChain.State
