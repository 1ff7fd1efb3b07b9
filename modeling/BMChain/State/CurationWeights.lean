import BMChain.State.CurationCurve
import BMChain.State.VoteTotals

/-!
# The weights of the votes on a comment

Curators share a reward by the weights of their votes.  Until its first payout
a comment has at least the weights of its votes in total.  The payout sets the
total to zero and keeps the votes, so a vote which is changed afterwards takes
its weight out of nothing and the total wraps; even then it stays above the
weights of the votes, and no payout hands out more than its curators are due.
-/

namespace BMChain.State

open BMChain.Foundation BMChain.Protocol Std

variable {ext : External} {weight : Nat}

variable {fields : List Field} {upvotes rewardBalance claimed : Int}

/-! ## What weighs the votes on a comment -/

/-- A comment of which there are votes of some weight. -/
structure Weighing.Holds (weighing : Weighing) (weights : Int) : Prop where
  aged : Database.reverseAuctionTime ≤ weighing.created
  nonneg : 0 ≤ weighing.voteRshares
  fits : FitsInt64 weighing.voteRshares
  small : weighing.totalVoteWeight < 2 ^ 64
  bound : weights < 2 ^ 64
  unpaid : weighing.lastPayout = 0 →
    weights ≤ weighing.totalVoteWeight ∧
      weighing.totalVoteWeight ≤ Database.rootWeight weighing.voteRshares
  paid : weighing.lastPayout ≠ 0 →
    weighing.totalVoteWeight = 0 ∨ weights ≤ weighing.totalVoteWeight

namespace Database

/-- The weights of the votes on a comment. -/
def weightTally (votes : Table CommentVoteObject) (id : Nat) : Int :=
  sumOf (fun vote => if vote.comment = id then (vote.weight : Int) else 0)
    votes.rows

/-- The weights of all comments hold. -/
structure WeightsHold (db : Database) : Prop where
  booked : VotesBooked db
  late : reverseAuctionTime < db.headBlockTime
  holds : ∀ id comment, db.comments.find? id = some comment →
    comment.weighing.Holds (weightTally db.commentVotes id)

/-! ## Sums of weights -/

section Tally

variable {votes : Table CommentVoteObject} {place id : Nat}
    {old vote : CommentVoteObject}

theorem weight_le_tally
    (found : votes.find? place = some vote)
    (own : vote.comment = id) :
    (vote.weight : Int) ≤ weightTally votes id := by
  have nonneg : ∀ (place : Nat) (row : CommentVoteObject),
      votes.rows[place]? = some row →
        0 ≤ if row.comment = id then (row.weight : Int) else 0 := by
    intro place row _
    split
    · exact Int.natCast_nonneg _
    · exact Int.le_refl 0
  have part := le_sumOf nonneg found
  rw [if_pos own] at part
  exact part

theorem weightTally_emplace
    (votes : Table CommentVoteObject)
    (vote : CommentVoteObject)
    (id : Nat) :
    weightTally (votes.emplace vote) id =
      weightTally votes id + if vote.comment = id then (vote.weight : Int) else 0 :=
  Table.sumOf_emplace _ votes vote

theorem weightTally_set
    (found : votes.find? place = some old)
    (vote : CommentVoteObject)
    (id : Nat) :
    weightTally (votes.set place vote) id =
      weightTally votes id -
          (if old.comment = id then (old.weight : Int) else 0) +
        if vote.comment = id then (vote.weight : Int) else 0 :=
  Table.sumOf_set _ found vote

theorem weightTally_remove
    (found : votes.find? place = some old)
    (id : Nat) :
    weightTally (votes.remove place) id =
      weightTally votes id -
        if old.comment = id then (old.weight : Int) else 0 :=
  Table.sumOf_remove _ found

end Tally

/-! ## Changes which keep the weights -/

section Kept

variable {db after : Database} {id : Nat} {weighing : Weighing}

/-- One comment is weighed anew, and the others are as they were. -/
structure Reweighed (db after : Database) (id : Nat) (weighing : Weighing) :
    Prop where
  own : (after.comments.find? id).map CommentObject.weighing = some weighing
  others : ∀ other, other ≠ id →
    (after.comments.find? other).map CommentObject.weighing =
      (db.comments.find? other).map CommentObject.weighing

/-- What is kept besides the comments and their votes. -/
structure Steady (db after : Database) : Prop where
  booked : VotesBooked after
  time : reverseAuctionTime < db.headBlockTime →
    reverseAuctionTime < after.headBlockTime

theorem WeightsHold.of_sees
    (holds : WeightsHold db)
    (steady : Steady db after)
    (sees : Sees (fun _ => CommentObject.weighing) db after)
    (votes : after.commentVotes = db.commentVotes) :
    WeightsHold after := by
  refine ⟨steady.booked, steady.time holds.late, ?_⟩
  intro id comment found
  rcases sees.found found with ⟨old, before, same⟩
  rw [← same, votes]
  exact holds.holds id old before

/-- A comment and its votes are weighed anew. -/
theorem WeightsHold.reweigh
    (holds : WeightsHold db)
    (steady : Steady db after)
    (reweighed : Reweighed db after id weighing)
    (own : weighing.Holds (weightTally after.commentVotes id))
    (others : ∀ other, other ≠ id →
      weightTally after.commentVotes other =
        weightTally db.commentVotes other) :
    WeightsHold after := by
  refine ⟨steady.booked, steady.time holds.late, ?_⟩
  intro other comment found
  by_cases same : other = id
  · subst same
    have row := reweighed.own
    rw [found, Option.map_some, Option.some.injEq] at row
    rw [row]
    exact own
  · have row := reweighed.others other same
    rw [found, Option.map_some, eq_comm, Option.map_eq_some_iff] at row
    rcases row with ⟨old, before, equal⟩
    rw [← equal, others other same]
    exact holds.holds other old before

/-- A comment is written over, and after that no comment is weighed anew. -/
theorem Reweighed.of_set
    {old voted : CommentObject}
    (found : db.comments.find? id = some old)
    (sees : Sees (fun _ => CommentObject.weighing)
      { db with comments := db.comments.set id voted } after) :
    Reweighed db after id voted.weighing := by
  constructor
  case own =>
    refine (sees id).trans ?_
    dsimp only
    rw [Table.find?_set found, if_pos rfl]
    rfl
  case others =>
    intro other different
    refine (sees other).trans ?_
    dsimp only
    rw [Table.find?_set found, if_neg (Ne.symm different)]

theorem Reweighed.sees
    {final : Database}
    (reweighed : Reweighed db after id weighing)
    (sees : Sees (fun _ => CommentObject.weighing) after final) :
    Reweighed db final id weighing :=
  ⟨(sees id).trans reweighed.own, fun other different =>
    (sees other).trans (reweighed.others other different)⟩

end Kept

/-! ## Votes -/

section Votes

variable {db after : Database} {op : VoteOperation} {id : Nat}
    {comment : CommentObject} {power : VotePower}

/-- The total of a comment which is changed last. -/
theorem reweighed_modifyTotal
    {voted : CommentObject}
    {counted : Database}
    {change : Nat → Nat}
    (found : db.comments.find? id = some comment)
    (sees : Sees (fun _ => CommentObject.weighing)
      { db with comments := db.comments.set id voted } counted)
    (done : counted.modifyComment id (fun comment =>
      pure { comment with totalVoteWeight := change comment.totalVoteWeight }) =
        .ok after) :
    Reweighed db after id { voted.weighing with
      totalVoteWeight := change voted.weighing.totalVoteWeight } := by
  have first : Reweighed db counted id voted.weighing := .of_set found sees
  simp only [modifyComment, modifyRow, bind_eq_ok_iff, orFault_eq_ok_iff,
    pure_eq_ok_iff] at done
  rcases done with ⟨_, ⟨row, there, _, rfl, rfl⟩, rfl⟩
  have same := first.own
  rw [there, Option.map_some, Option.some.injEq] at same
  constructor
  case own =>
    dsimp only
    rw [Table.find?_set there, if_pos rfl, Option.map_some, ← same]
    rfl
  case others =>
    intro other different
    dsimp only
    rw [Table.find?_set there, if_neg (Ne.symm different)]
    exact first.others other different

/-- What a first vote weighs, and what its comment has in total then. -/
structure VoteWeighed (db after : Database) (id : Nat)
    (comment : CommentObject) (full : Nat) (upvotes : Int) : Prop where
  more : rootWeight comment.voteRshares + full ≤ rootWeight upvotes
  raised : comment.voteRshares ≤ upvotes
  fits : FitsInt64 upvotes
  paid : comment.lastPayout ≠ 0 → full = 0
  vote : ∃ vote, vote.comment = id ∧ vote.weight ≤ full ∧
    after.commentVotes = db.commentVotes.emplace vote
  reweighed : Reweighed db after id
    { comment.weighing with
      totalVoteWeight := (comment.totalVoteWeight + full) % 2 ^ 64
      voteRshares := upvotes }

theorem raised_upvotes
    {own rshares upvotes : Int}
    (fits : FitsInt64 own)
    (done : (if 0 < rshares then checked (own + rshares) else pure own) =
      Except.ok upvotes) :
    own ≤ upvotes ∧ FitsInt64 upvotes := by
  split at done
  case isTrue up =>
    rcases checked_eq_ok_iff.1 done with ⟨within, rfl⟩
    exact ⟨by omega, within⟩
  case isFalse =>
    cases done
    exact ⟨Int.le_refl _, fits⟩

theorem castVote_weighed
    {voter : AccountObject}
    (curved : db.RootCurved)
    (found : db.comments.find? id = some comment)
    (aged : reverseAuctionTime ≤ comment.created)
    (nonneg : 0 ≤ comment.voteRshares)
    (fits : FitsInt64 comment.voteRshares)
    (done : db.castVote ext op voter id comment power = .ok after) :
    ∃ full upvotes, VoteWeighed db after id comment full upvotes := by
  simp only [castVote, bind_eq_ok_iff, require_eq_ok_iff] at done
  rcases done with ⟨_, -, _, -, spent, spend, _, -, _, -, _, -, _, -, done⟩
  rcases done with ⟨upvotes, upvote, counted, count, done⟩
  rcases done with ⟨⟨full, weight⟩, weigh, weighed, note, pay⟩
  rcases raised_upvotes fits upvote with ⟨raised, within⟩
  have spending := touches_spendVotePower db _ _ spent spend
  have counting := touches_addChildrenRshares _ _ _ counted count
  have curve : counted.RootCurved := by
    refine trans_of KeepsCurve (.of_agrees spending rfl)
      (trans_of KeepsCurve ?_ (.of_agrees counting rfl)) curved
    exact fun curved => curved
  have weights := curationWeight_le curve weigh aged nonneg raised within
  refine ⟨full, upvotes, weights.2.1, raised, within, weights.2.2, ?_, ?_⟩
  · have added : counted.commentVotes = db.commentVotes :=
      (counting .commentVotes (by decide)).trans
        (spending .commentVotes (by decide))
    have noting := touches_modifyComment _ _ _ weighed note .commentVotes
      (by decide)
    have paying := touches_processFundsBmchain weighed _ after pay
      .commentVotes (by decide)
    have stored : after.commentVotes = counted.commentVotes.emplace _ :=
      paying.trans noting
    rw [added] at stored
    exact ⟨_, rfl, weights.1, stored⟩
  · have comments : spent.comments = db.comments :=
      spending .comments (by decide)
    have sees := (sees_addChildrenRshares _ _ _ counted count).map
      (fun _ view => view.2.1) fun _ _ => rfl
    have there : spent.comments.find? id = some comment :=
      comments ▸ found
    have totalled := @reweighed_modifyTotal spent _ id _ _
      { counted with commentVotes := counted.commentVotes.emplace _ }
      (fun total => (total + full) % 2 ^ 64) there sees note
    refine .sees ⟨totalled.own, ?_⟩
      (.of_agrees (touches_processFundsBmchain weighed _ after pay) rfl)
    intro other different
    rw [← comments]
    exact totalled.others other different

/-- A changed vote weighs nothing, and its weight is taken out of the total. -/
structure VoteUnweighed (db after : Database) (id : Nat)
    (comment : CommentObject) (place : Nat) (vote : CommentVoteObject) :
    Prop where
  changed : ∃ changed, changed.comment = vote.comment ∧ changed.weight = 0 ∧
    after.commentVotes = db.commentVotes.set place changed
  reweighed : Reweighed db after id
    { comment.weighing with
      totalVoteWeight :=
        (comment.totalVoteWeight + (2 ^ 64 - vote.weight % 2 ^ 64)) % 2 ^ 64 }

theorem changeVote_unweighed
    {place : Nat}
    {vote : CommentVoteObject}
    (found : db.comments.find? id = some comment)
    (done : db.changeVote op id comment place vote power = .ok after) :
    VoteUnweighed db after id comment place vote := by
  simp only [changeVote, bind_eq_ok_iff, pure_eq_ok_iff] at done
  rcases done with ⟨_, -, _, -, spent, spend, _, -, _, -, _, -, _, -, done⟩
  rcases done with ⟨counted, count, weighed, note, rfl⟩
  have spending := touches_spendVotePower db _ _ spent spend
  constructor
  case changed =>
    have noting := touches_modifyComment _ _ _ weighed note .commentVotes
      (by decide)
    have counting := touches_addChildrenRshares _ _ _ counted count
      .commentVotes (by decide)
    have kept : weighed.commentVotes = db.commentVotes :=
      noting.trans (counting.trans (spending .commentVotes (by decide)))
    refine ⟨?row, ?on, ?none, ?votes⟩
    case votes =>
      dsimp only
      rw [kept]
    case on => rfl
    case none => rfl
  case reweighed =>
    have comments : spent.comments = db.comments :=
      spending .comments (by decide)
    have sees := (sees_addChildrenRshares _ _ _ counted count).map
      (fun _ view => view.2.1) fun _ _ => rfl
    have there : spent.comments.find? id = some comment :=
      comments ▸ found
    have totalled := @reweighed_modifyTotal spent _ id _ _ counted
      (fun total => (total + (2 ^ 64 - vote.weight % 2 ^ 64)) % 2 ^ 64)
      there sees note
    refine ⟨totalled.own, ?_⟩
    intro other different
    rw [← comments]
    exact totalled.others other different

/-- A weight which is taken out of a total that has it. -/
theorem subtract_weight
    {total weight : Nat}
    (small : total < 2 ^ 64)
    (within : weight ≤ total) :
    (total + (2 ^ 64 - weight % 2 ^ 64)) % 2 ^ 64 = total - weight := by
  omega

end Votes

end Database

/-! ## Weights which hold -/

section Holds

variable {weighing : Weighing} {weights : Int}

/-- A first vote keeps the weights. -/
theorem Weighing.Holds.cast
    {full weight : Nat}
    (holds : weighing.Holds weights)
    (more : Database.rootWeight weighing.voteRshares + full ≤ Database.rootWeight upvotes)
    (raised : weighing.voteRshares ≤ upvotes)
    (fits : FitsInt64 upvotes)
    (paid : weighing.lastPayout ≠ 0 → full = 0)
    (light : weight ≤ full) :
    Weighing.Holds
      { weighing with
        totalVoteWeight := (weighing.totalVoteWeight + full) % 2 ^ 64
        voteRshares := upvotes }
      (weights + weight) := by
  have top := Database.rootWeight_lt fits
  have small := holds.small
  by_cases unpaid : weighing.lastPayout = 0
  · rcases holds.unpaid unpaid with ⟨enough, below⟩
    have sum : (weighing.totalVoteWeight + full) % 2 ^ 64 =
        weighing.totalVoteWeight + full := Nat.mod_eq_of_lt (by omega)
    refine ⟨holds.aged, Int.le_trans holds.nonneg raised, fits, ?_, ?_, ?_, ?_⟩
    · exact Nat.mod_lt _ (by decide)
    · omega
    · intro _
      dsimp only
      rw [sum]
      constructor <;> omega
    · exact fun late => absurd unpaid late
  · have none := paid unpaid
    have nothing : weight = 0 := by omega
    subst none nothing
    refine ⟨holds.aged, Int.le_trans holds.nonneg raised, fits, ?_, ?_, ?_, ?_⟩
    · exact Nat.mod_lt _ (by decide)
    · exact (Int.add_zero weights).symm ▸ holds.bound
    · exact fun early => absurd early unpaid
    · intro late
      dsimp only
      rw [Nat.add_zero, Nat.mod_eq_of_lt small, Int.natCast_zero, Int.add_zero]
      exact holds.paid late

/-- A changed vote keeps the weights, whether the total wraps or not. -/
theorem Weighing.Holds.change
    (holds : weighing.Holds weights)
    (within : (weight : Int) ≤ weights) :
    Weighing.Holds
      { weighing with
        totalVoteWeight := (weighing.totalVoteWeight +
          (2 ^ 64 - weight % 2 ^ 64)) % 2 ^ 64 }
      (weights - weight) := by
  have small := holds.small
  have bound := holds.bound
  refine ⟨holds.aged, holds.nonneg, holds.fits, ?_, ?_, ?_, ?_⟩
  · exact Nat.mod_lt _ (by decide)
  · omega
  · intro unpaid
    rcases holds.unpaid unpaid with ⟨enough, below⟩
    dsimp only
    rw [Database.subtract_weight small (by omega)]
    constructor <;> omega
  · intro paid
    dsimp only
    rcases holds.paid paid with none | enough
    · rw [none]
      omega
    · rw [Database.subtract_weight small (by omega)]
      omega

/-- A payout starts the total again and can only lose votes. -/
theorem Weighing.Holds.restart
    {fewer : Int}
    {now : Time}
    (holds : weighing.Holds weights)
    (less : fewer ≤ weights)
    (late : now ≠ 0) :
    Weighing.Holds ⟨0, 0, now, weighing.created⟩ fewer := by
  have zero : FitsInt64 0 := by decide
  exact ⟨holds.aged, Int.le_refl 0, zero, Nat.two_pow_pos 64,
    Int.lt_of_le_of_lt less holds.bound, fun none => absurd none late,
    fun _ => .inl rfl⟩

end Holds

namespace Database

section Evaluators

variable {db after : Database}

theorem steady_of_booked
    (booked : VotesBooked after)
    (time : after.headBlockTime = db.headBlockTime) :
    Steady db after :=
  ⟨booked, fun late => time ▸ late⟩

theorem WeightsHold.vote
    {op : VoteOperation}
    (holds : WeightsHold db)
    (curved : db.RootCurved)
    (steady : Steady db after)
    (done : db.voteEvaluator ext op = .ok after) :
    WeightsHold after := by
  cases voted_vote done with
  | late same => exact same ▸ holds
  | cast id comment voter power stored account powered first done =>
      have old := holds.holds id comment stored
      rcases castVote_weighed curved stored old.aged old.nonneg old.fits
        done with ⟨full, upvotes, weighed⟩
      rcases weighed.vote with ⟨vote, on, light, votes⟩
      refine holds.reweigh steady weighed.reweighed ?_ ?_
      · rw [votes, weightTally_emplace, if_pos on]
        exact old.cast weighed.more weighed.raised weighed.fits weighed.paid
          light
      · intro other different
        rw [votes, weightTally_emplace, if_neg (on ▸ Ne.symm different),
          Int.add_zero]
  | changed id comment voter power place vote stored account powered earlier
      done =>
      have there := Table.find?_of_findBy earlier
      have passed := Table.passed_of_findBy earlier
      rw [decide_eq_true_eq] at passed
      have unweighed := changeVote_unweighed stored done
      rcases unweighed.changed with ⟨changed, on, none, votes⟩
      refine holds.reweigh steady unweighed.reweighed ?_ ?_
      · rw [votes, weightTally_set there, if_pos passed.1,
          if_pos (on.trans passed.1), none, Int.natCast_zero, Int.add_zero]
        exact (holds.holds id comment stored).change
          (weight_le_tally there passed.1)
      · intro other different
        have apart : vote.comment ≠ other := by
          rw [passed.1]
          exact Ne.symm different
        rw [votes, weightTally_set there, if_neg apart, if_neg (on ▸ apart),
          Int.sub_zero, Int.add_zero]

/-- A new comment is weighed as it is stored. -/
theorem reweighed_storeComment
    {op : CommentOperation}
    {comment : CommentObject}
    (done : db.storeComment op comment = .ok after) :
    Reweighed db after db.comments.nextId comment.weighing := by
  simp only [storeComment, createRow, bind_eq_ok_iff, pure_eq_ok_iff] at done
  rcases done with ⟨_, -, _, -, _, ⟨_, -, rfl⟩, told, walk, pay⟩
  have sees : Sees (fun _ => CommentObject.weighing)
      { db with comments := db.comments.emplace comment } after := by
    refine trans_of _ (sees_updateParents ?_ _ _ _ _ told walk)
      (.of_agrees (touches_processFundsBmchain told _ after pay) rfl)
    exact fun _ _ => rfl
  constructor
  case own =>
    refine (sees _).trans ?_
    dsimp only
    rw [Table.find?_emplace, if_pos rfl]
    rfl
  case others =>
    intro other different
    refine (sees other).trans ?_
    dsimp only
    rw [Table.find?_emplace, if_neg (Ne.symm different)]

/-- A new comment has no votes, and it is from now. -/
theorem reweighed_freshComment
    {op : CommentOperation}
    {ready : Database}
    {comment : CommentObject}
    (agrees : Agrees fields db ready)
    (separate : apart [.comments, .props .head] fields = true)
    (fresh : comment.weighing = ⟨0, 0, 0, ready.headBlockTime⟩)
    (stored : ready.storeComment op comment = .ok after) :
    Reweighed db after db.comments.nextId ⟨0, 0, 0, db.headBlockTime⟩ := by
  have same : ready.comments = db.comments :=
    agrees.read_eq separate List.mem_cons_self
  have head : (Field.props .head).read ready = (Field.props .head).read db :=
    agrees.read_eq separate (List.mem_cons_of_mem _ List.mem_cons_self)
  have time : ready.headBlockTime = db.headBlockTime :=
    congrArg (fun head => head.2.2.1) head
  have reweighed := reweighed_storeComment stored
  rw [same, fresh, time] at reweighed
  exact ⟨reweighed.own, fun other different =>
    same ▸ reweighed.others other different⟩

/-- A comment operation keeps what weighs the votes, or adds a new comment. -/
theorem comment_weighed
    {op : CommentOperation}
    (done : db.commentEvaluator ext op = .ok after) :
    Sees (fun _ => CommentObject.weighing) db after ∨
      Reweighed db after db.comments.nextId ⟨0, 0, 0, db.headBlockTime⟩ := by
  simp only [commentEvaluator, checkComment, bind_eq_ok_iff,
    pure_eq_ok_iff] at done
  rcases done with ⟨_, ⟨_, -, _, -, _, -, parent, found, _, -, rfl⟩, done⟩
  split at done
  case h_1 fresh =>
    simp only [bind_eq_ok_iff] at done
    rcases done with ⟨_, -, _, -, counted, count, stored⟩
    have counting := touches_countPost db op counted count
    refine .inr (reweighed_freshComment counting rfl ?_ stored)
    cases parent <;> rfl
  case h_2 =>
    have sees := sees_editComment ext db _ op after done
    exact .inl (sees.map (fun _ view => view.2.1) fun _ _ => rfl)

theorem weighing_encryptComment
    {op : EncryptedContentOperation}
    {comment encrypted : CommentObject}
    (done : db.encryptComment ext op comment = .ok encrypted) :
    encrypted.weighing = comment.weighing := by
  simp only [encryptComment, bind_eq_ok_iff] at done
  rcases done with ⟨_, -, done⟩
  split at done <;> cases done <;> rfl

theorem encryptedContent_weighed
    {op : EncryptedContentOperation}
    (done : db.encryptedContentEvaluator ext op = .ok after) :
    Sees (fun _ => CommentObject.weighing) db after ∨
      Reweighed db after db.comments.nextId ⟨0, 0, 0, db.headBlockTime⟩ := by
  simp only [encryptedContentEvaluator, checkComment, bind_eq_ok_iff,
    pure_eq_ok_iff] at done
  rcases done with
    ⟨_, ⟨_, -, _, -, _, -, parent, found, _, -, rfl⟩, settled, settle, done⟩
  have settling : Agrees [.account .balance, .contentOrders,
      .account .activity] db settled := by
    split at settle
    · exact (touches_settleOrder db _ _ settled settle).mono (by decide)
    · cases settle
      exact refl_of _ db
  split at done
  case h_1 fresh =>
    simp only [bind_eq_ok_iff] at done
    rcases done with ⟨_, -, _, -, counted, count, comment, made, stored⟩
    have counting := touches_countPost settled _ counted count
    refine .inr (reweighed_freshComment
      (trans_of _ settling (counting.mono (by decide))) rfl ?_ stored)
    rw [weighing_encryptComment made]
    cases parent <;> rfl
  case h_2 =>
    have sees := sees_editComment ext settled _ _ after done
    exact .inl (trans_of _ (Sees.of_agrees settling rfl)
      (sees.map (fun _ view => view.2.1) fun _ _ => rfl))

theorem WeightsHold.written
    (holds : WeightsHold db)
    (steady : Steady db after)
    (votes : after.commentVotes = db.commentVotes)
    (weighed : Sees (fun _ => CommentObject.weighing) db after ∨
      Reweighed db after db.comments.nextId ⟨0, 0, 0, db.headBlockTime⟩) :
    WeightsHold after := by
  rcases weighed with sees | reweighed
  · exact holds.of_sees steady sees votes
  · refine holds.reweigh steady reweighed ?_ fun other _ => by rw [votes]
    -- No vote can refer to an id which was not given out yet.
    have none : weightTally db.commentVotes db.comments.nextId = 0 := by
      refine sumOf_eq_zero ?_
      intro place vote there
      refine if_neg fun own => holds.booked.known place vote there ?_
      rw [own]
      exact db.comments.find?_nextId
    have zero : FitsInt64 0 := by decide
    rw [votes, none]
    exact ⟨Nat.le_of_lt holds.late, Int.le_refl 0, zero, Nat.two_pow_pos 64,
      by decide, fun _ => ⟨Int.le_refl 0, Nat.zero_le _⟩,
      fun paid => absurd rfl paid⟩

end Evaluators

/-! ## Votes which are removed or closed -/

/-- Votes on one comment are removed or closed, with the weights they have. -/
structure VotesReduced (id : Nat) (before after : Table CommentVoteObject) :
    Prop where
  old : ∀ place vote, after.find? place = some vote →
    ∃ earlier, before.find? place = some earlier ∧
      earlier.comment = vote.comment ∧ earlier.weight = vote.weight
  others : ∀ other, other ≠ id →
    weightTally after other = weightTally before other
  own : weightTally after id ≤ weightTally before id

namespace VotesReduced

variable {id place : Nat} {before after : Table CommentVoteObject}
    {vote closed : CommentVoteObject}

theorem refl
    (votes : Table CommentVoteObject) :
    VotesReduced id votes votes :=
  ⟨fun _ vote found => ⟨vote, found, rfl, rfl⟩, fun _ _ => rfl, Int.le_refl _⟩

theorem remove
    (reduced : VotesReduced id before after)
    (found : before.find? place = some vote)
    (on : vote.comment = id) :
    VotesReduced id before (after.remove place) := by
  have old : ∀ other row, (after.remove place).find? other = some row →
      ∃ earlier, before.find? other = some earlier ∧
        earlier.comment = row.comment ∧ earlier.weight = row.weight := by
    intro other row there
    rw [Table.find?_remove] at there
    split at there
    · cases there
    · exact reduced.old other row there
  cases there : after.find? place with
  | none =>
      have tally : ∀ other,
          weightTally (after.remove place) other = weightTally after other :=
        fun other => congrArg (sumOf _) (erase_absent there)
      exact ⟨old, fun other different =>
        (tally other).trans (reduced.others other different),
        (tally id).symm ▸ reduced.own⟩
  | some row =>
      rcases reduced.old place row there with ⟨earlier, same, still, -⟩
      rw [found] at same
      cases same
      refine ⟨old, ?_, ?_⟩
      · intro other different
        have apart : row.comment ≠ other := by
          rw [← still, on]
          exact Ne.symm different
        rw [weightTally_remove there, if_neg apart, Int.sub_zero]
        exact reduced.others other different
      · have less := reduced.own
        rw [weightTally_remove there, if_pos (still.symm.trans on)]
        omega

theorem set
    (reduced : VotesReduced id before after)
    (found : before.find? place = some vote)
    (on : closed.comment = vote.comment)
    (weighs : closed.weight = vote.weight) :
    VotesReduced id before (after.set place closed) := by
  cases there : after.find? place with
  | none =>
      rw [Table.set_absent there]
      exact reduced
  | some row =>
      rcases reduced.old place row there with ⟨earlier, same, still, weighed⟩
      rw [found] at same
      cases same
      have tally : ∀ other,
          weightTally (after.set place closed) other =
            weightTally after other := by
        intro other
        rw [weightTally_set there, on, weighs, still, weighed]
        omega
      constructor
      case old =>
        intro other row' kept
        rw [Table.find?_set there] at kept
        split at kept
        case isTrue same =>
          subst same
          cases kept
          exact ⟨vote, found, on.symm, weighs.symm⟩
        case isFalse => exact reduced.old other row' kept
      case others =>
        exact fun other different =>
          (tally other).trans (reduced.others other different)
      case own => exact (tally id).symm ▸ reduced.own

theorem foldl_remove
    {entries : List (Nat × CommentVoteObject)}
    (own : ∀ entry ∈ entries, before.find? entry.1 = some entry.2 ∧
      entry.2.comment = id)
    (reduced : VotesReduced id before after) :
    VotesReduced id before
      (entries.foldl (fun votes vote => votes.remove vote.1) after) := by
  induction entries generalizing after with
  | nil => exact reduced
  | cons entry rest induction =>
      rw [List.foldl_cons]
      have first := own entry List.mem_cons_self
      exact induction
        (fun entry later => own entry (List.mem_cons_of_mem _ later))
        (reduced.remove first.1 first.2)

end VotesReduced

section Payouts

variable {db after : Database} {id : Nat}

theorem votesReduced_closeVotes
    (done : db.closeVotes id = .ok after) :
    VotesReduced id db.commentVotes after.commentVotes := by
  simp only [closeVotes, bind_eq_ok_iff] at done
  rcases done with ⟨_, -, done⟩
  refine foldlM_invariant
    (fun state : Database =>
      VotesReduced id db.commentVotes state.commentVotes) ?_ done (.refl _)
  intro state vote next member stepped reduced
  rcases mem_votesOfComment.1 member with ⟨found, own⟩
  simp only [bind_eq_ok_iff] at stepped
  rcases stepped with ⟨_, -, stepped⟩
  split at stepped
  · cases stepped
    exact reduced.set found rfl rfl
  · cases stepped
    exact reduced.remove found own

/-- A payout clears the weights of its comment. -/
theorem restartComment_weighing
    {comment : CommentObject}
    (found : db.comments.find? id = some comment)
    (done : db.restartComment id = .ok after) :
    (after.comments.find? id).map CommentObject.weighing =
      some ⟨0, 0, db.headBlockTime, comment.created⟩ := by
  simp only [restartComment, modifyComment, modifyRow, bind_eq_ok_iff,
    orFault_eq_ok_iff, pure_eq_ok_iff] at done
  rcases done with ⟨_, ⟨old, there, _, rfl, rfl⟩, rfl⟩
  rw [found] at there
  cases there
  dsimp only
  rw [Table.find?_set found, if_pos rfl]
  rfl

theorem WeightsHold.deleteComment
    {op : DeleteCommentOperation}
    (holds : WeightsHold db)
    (steady : Steady db after)
    (done : db.deleteCommentEvaluator op = .ok after) :
    WeightsHold after := by
  simp only [deleteCommentEvaluator, bind_eq_ok_iff, pure_eq_ok_iff] at done
  rcases done with ⟨_, -, _, -, ⟨id, comment⟩, -, _, -, _, -, done⟩
  rcases done with ⟨_, -, told, walk, rfl⟩
  have votes : told.commentVotes = (db.votesOfComment id).foldl
      (fun votes vote => votes.remove vote.1) db.commentVotes :=
    touches_updateParents _ _ _ _ _ told walk .commentVotes (by decide)
  have sees : Sees (fun _ => CommentObject.weighing) db told := by
    refine trans_of _ (Sees.of_comments rfl)
      (sees_updateParents ?_ _ _ _ _ told walk)
    exact fun _ _ => rfl
  have reduced : VotesReduced id db.commentVotes told.commentVotes := by
    rw [votes]
    exact .foldl_remove (fun entry member => mem_votesOfComment.1 member)
      (.refl _)
  refine ⟨steady.booked, steady.time holds.late, ?_⟩
  intro other row found
  dsimp only at found
  rw [Table.find?_remove] at found
  split at found
  case isTrue => cases found
  case isFalse different =>
    rcases sees.found found with ⟨old, before, same⟩
    rw [← same]
    dsimp only
    rw [reduced.others other (Ne.symm different)]
    exact holds.holds other old before

/-- What a payout leaves of the weights of its comment and of the others. -/
theorem cashout_weighed
    {recentClaims : Nat}
    (done : db.cashoutCommentHelper ext id recentClaims rewardBalance =
      .ok (after, claimed)) :
    ∃ comment, db.comments.find? id = some comment ∧
      Reweighed db after id ⟨0, 0, db.headBlockTime, comment.created⟩ ∧
        VotesReduced id db.commentVotes after.commentVotes := by
  simp only [cashoutCommentHelper, bind_eq_ok_iff, getCommentById,
    orFault_eq_ok_iff] at done
  rcases done with
    ⟨comment, found, ⟨paid, _⟩, pay, restarted, restart, closed, close, equal⟩
  cases equal
  have hides : HidesPayouts (fun _ => CommentObject.weighing) id :=
    fun _ _ _ _ _ => rfl
  have paying : Sees (fun _ => CommentObject.weighing) db paid ∧
      paid.commentVotes = db.commentVotes ∧
        paid.headBlockTime = db.headBlockTime := by
    split at pay
    case isFalse =>
      cases pay
      exact ⟨refl_of _ db, rfl, rfl⟩
    case isTrue =>
      have agrees := agrees_payComment pay
      have head := headOf_of_agrees agrees rfl
      exact ⟨sees_payComment hides pay, agrees .commentVotes (by decide),
        congrArg (fun head => head.2.2) head⟩
  rcases paying with ⟨sees, votes, time⟩
  have row := sees id
  rw [found, Option.map_some, Option.map_eq_some_iff] at row
  rcases row with ⟨kept, there, same⟩
  have cleared := restartComment_weighing there restart
  have created : kept.created = comment.created :=
    congrArg Weighing.created same
  rw [time, created] at cleared
  have closing := touches_closeVotes _ id after close
  have comments : after.comments = restarted.comments :=
    closing .comments (by decide)
  refine ⟨comment, found, ⟨comments ▸ cleared, ?_⟩, ?_⟩
  · intro other different
    rw [comments, (sees_restartComment restart).eq_of_ne different]
    exact sees other
  · have unread : restarted.commentVotes = paid.commentVotes :=
      touches_modifyComment paid _ _ restarted restart .commentVotes
        (by decide)
    have reduced := votesReduced_closeVotes close
    change VotesReduced id restarted.commentVotes _ at reduced
    rw [unread, votes] at reduced
    exact reduced

end Payouts

/-! ## Operations and steps -/

namespace WeightsHold

variable {db after : Database}

theorem of_agrees
    (holds : WeightsHold db)
    (steady : Steady db after)
    (agrees : Agrees fields db after)
    (separate : apart [.comments, .commentVotes] fields = true) :
    WeightsHold after := by
  have comments : after.comments = db.comments :=
    agrees.read_eq separate List.mem_cons_self
  have votes : after.commentVotes = db.commentVotes :=
    agrees.read_eq separate (List.mem_cons_of_mem _ List.mem_cons_self)
  exact holds.of_sees steady (.of_comments comments) votes

theorem applyOperation
    {op : Operation}
    (holds : WeightsHold db)
    (curved : db.RootCurved)
    (done : db.applyOperation ext op = .ok after) :
    WeightsHold after := by
  have agrees := touches_applyOperation ext db op after done
  have steady : Steady db after :=
    steady_of_booked (holds.booked.applyOperation done)
      (time_applyOperation done)
  cases op with
  | vote op => exact holds.vote curved steady done
  | comment op =>
      exact holds.written steady (votes_of_agrees agrees rfl)
        (comment_weighed done)
  | encryptedContent op =>
      exact holds.written steady (votes_of_agrees agrees rfl)
        (encryptedContent_weighed done)
  | deleteComment op => exact holds.deleteComment steady done
  | commentOptions op =>
      have sees := sees_commentOptions op db after done
      exact holds.of_sees steady
        (sees.map (fun _ view => view.2.1) fun _ _ => rfl)
        (votes_of_agrees agrees rfl)
  | _ => exact holds.of_agrees steady agrees rfl

theorem cashoutComment
    {id recentClaims : Nat}
    (holds : WeightsHold db)
    (done : db.cashoutCommentHelper ext id recentClaims rewardBalance =
      .ok (after, claimed)) :
    WeightsHold after := by
  have started : 0 < db.headBlockTime :=
    Nat.lt_of_le_of_lt (Nat.zero_le _) holds.late
  have agrees := agrees_cashoutCommentHelper done
  have head := headOf_of_agrees agrees rfl
  have steady : Steady db after :=
    steady_of_booked (holds.booked.cashoutComment started done)
      (congrArg (fun head => head.2.2) head)
  rcases cashout_weighed done with ⟨comment, found, reweighed, reduced⟩
  exact holds.reweigh steady reweighed
    ((holds.holds id comment found).restart reduced.own
      (Nat.ne_of_gt started)) reduced.others

/-- The funds are read and written back without a look at the comments. -/
theorem of_funds
    (holds : WeightsHold db)
    (funded : Agrees [.rewardFunds] db after) :
    WeightsHold after := by
  have head := headOf_of_agrees funded rfl
  exact holds.of_agrees (steady_of_booked (holds.booked.of_agrees funded rfl)
    (congrArg (fun head => head.2.2) head)) funded rfl

theorem runStep
    {header : BlockHeader}
    {step : BlockStep}
    (holds : WeightsHold db)
    (later : reverseAuctionTime < header.timestamp)
    (done : db.runStep ext header step = .ok after) :
    WeightsHold after := by
  have agrees := touches_runStep ext header db step after done
  have time : reverseAuctionTime < db.headBlockTime →
      reverseAuctionTime < after.headBlockTime := by
    intro late
    rcases time_runStep done with set | kept
    · exact set ▸ later
    · exact kept ▸ late
  cases step with
  | processCommentCashout =>
      refine processCommentCashout_invariant WeightsHold ?_ ?_
        (eachPayout_of_forall (fun _ _ _ _ => trivial) db) done holds
      · exact fun before after funded holds => holds.of_funds funded
      · exact fun _ _ _ _ _ _ _ paid holds => holds.cashoutComment paid
  | _ =>
      exact holds.of_agrees ⟨holds.booked.of_agrees agrees rfl, time⟩ agrees rfl

end WeightsHold

end Database

end BMChain.State
