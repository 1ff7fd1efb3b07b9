import BMChain.Foundation.RowCount
import BMChain.Foundation.WorkLoop
import BMChain.State.CommentFrame
import BMChain.State.PayoutSplit

/-!
# The round of payouts

Every payout moves the cashout time of its comment past the head of the chain
and leaves the other comments, the funds and their cached claims as they are.
So the loop takes each due comment once, and each reward is the one which the
start of the round gives.
-/

namespace BMChain.State.Database

open BMChain.Foundation BMChain.Protocol Std

variable {place : Nat} {fund : RewardFundObject}

variable {round final : Database × List RewardFundContext}
    {dues : List (Nat × CommentObject)} {comment : CommentObject}
    {balance : Int}

/-! ## Due comments -/

/-- A comment is due for its payout. -/
def Due (db : Database) (id : Nat) : Prop :=
  ∃ comment, db.comments.find? id = some comment ∧
    comment.cashoutTime ≤ db.headBlockTime

/-- The comment which the loop pays next. -/
def nextDue (round : Database × List RewardFundContext) : Option Nat :=
  (dueComments round.1).head?.map Prod.fst

/-- The next payouts are after the head of the chain. -/
def CashesLater (db : Database) : Prop :=
  db.headBlockTime + secondCashoutWindow < 2 ^ 32

theorem mem_dueComments
    {db : Database}
    {due : Nat × CommentObject} :
    due ∈ db.dueComments ↔
      db.comments.find? due.1 = some due.2 ∧
        due.2.cashoutTime ≤ db.headBlockTime := by
  rw [dueComments, List.mem_insertionSort, List.mem_filter, decide_eq_true_eq]
  exact and_congr_left fun _ => ExtTreeMap.mem_toList_iff_getElem?_eq_some

theorem due_of_nextDue
    {id : Nat}
    (offered : nextDue round = some id) :
    Due round.1 id := by
  rcases Option.map_eq_some_iff.1 offered with ⟨due, first, rfl⟩
  exact ⟨due.2, mem_dueComments.1 (List.mem_of_mem_head? first)⟩

theorem not_due_of_nextDue
    (nothing : nextDue round = none)
    (id : Nat) :
    ¬Due round.1 id := by
  rintro ⟨comment, found, due⟩
  have empty := List.head?_eq_none_iff.1 (Option.map_eq_none_iff.1 nothing)
  have listed : (id, comment) ∈ dueComments round.1 :=
    mem_dueComments.2 ⟨found, due⟩
  rw [empty] at listed
  cases listed

/-! ## One payout -/

/-- What a payout does to the comments and the funds. -/
structure CashedOut (db after : Database) (id : Nat) : Prop where
  own : ∃ comment, after.comments.find? id = some comment ∧
    comment.cashoutTime = addSeconds db.headBlockTime secondCashoutWindow
  others : ∀ other, other ≠ id →
    after.comments.find? other = db.comments.find? other
  time : after.headBlockTime = db.headBlockTime
  funds : after.rewardFunds = db.rewardFunds

theorem restarted_row
    {db after : Database}
    {id : Nat}
    (done : db.restartComment id = .ok after) :
    ∃ comment, after.comments.find? id = some comment ∧
      comment.cashoutTime =
        addSeconds db.headBlockTime secondCashoutWindow := by
  simp only [restartComment, modifyComment, modifyRow, bind_eq_ok_iff,
    orFault_eq_ok_iff, pure_eq_ok_iff] at done
  rcases done with ⟨_, ⟨old, found, _, rfl, rfl⟩, rfl⟩
  refine ⟨_, (Table.find?_set found _ id).trans (if_pos rfl), rfl⟩

theorem cashedOut_of_done
    {ext : External}
    {db after : Database}
    {id recentClaims : Nat}
    {rewardBalance claimed : Int}
    (done : db.cashoutCommentHelper ext id recentClaims rewardBalance =
      .ok (after, claimed)) :
    CashedOut db after id := by
  have agrees := agrees_cashoutCommentHelper done
  have sees := sees_cashoutCommentHelper done
  constructor
  case own =>
    simp only [cashoutCommentHelper, bind_eq_ok_iff] at done
    rcases done with
      ⟨comment, -, ⟨paid, _⟩, pay, restarted, restart, closed, close, equal⟩
    cases equal
    have head : paid.headBlockTime = db.headBlockTime := by
      split at pay
      case isFalse =>
        cases pay
        rfl
      case isTrue =>
        have same := headOf_of_agrees (agrees_payComment pay) rfl
        exact congrArg (fun head => head.2.2) same
    have comments : after.comments = restarted.comments :=
      touches_closeVotes _ id after close .comments (by decide)
    rcases restarted_row restart with ⟨next, there, time⟩
    refine ⟨next, ?_, ?_⟩
    · rw [comments]
      exact there
    · rw [time, ← head]
  case others => exact fun other different => sees.eq_of_ne different
  case time =>
    exact congrArg (fun head => head.2.2) (headOf_of_agrees agrees rfl)
  case funds => exact agrees .rewardFunds (by decide)

section Payout

variable {db after : Database} {id : Nat}

theorem CashedOut.not_due
    (paid : CashedOut db after id)
    (later : db.CashesLater) :
    ¬Due after id := by
  rintro ⟨comment, found, due⟩
  rcases paid.own with ⟨restarted, there, time⟩
  rw [there] at found
  cases found
  rw [paid.time, time, addSeconds, Nat.mod_eq_of_lt later] at due
  exact absurd due (Nat.not_le_of_lt (Nat.lt_add_of_pos_right (by decide)))

/-- A payout takes its comment off the due ones. -/
theorem CashedOut.settles
    (paid : CashedOut db after id)
    (later : db.CashesLater)
    (other : Nat) :
    Due after other ↔ Due db other ∧ other ≠ id := by
  by_cases same : other = id
  · subst same
    exact iff_of_false (paid.not_due later) fun both => both.2 rfl
  · rw [Due, Due, paid.others other same, paid.time]
    exact ⟨fun due => ⟨due, same⟩, fun due => due.1⟩

/-- Whether a row is due at a time. -/
def paysAt (now : Time) (comment : CommentObject) : Bool :=
  comment.cashoutTime ≤ now

/-- A payout leaves fewer due comments. -/
theorem CashedOut.fewer
    (paid : CashedOut db after id)
    (later : db.CashesLater)
    (due : Due db id) :
    after.comments.countOf (paysAt after.headBlockTime) <
      db.comments.countOf (paysAt db.headBlockTime) := by
  rcases due with ⟨old, found, early⟩
  rcases paid.own with ⟨restarted, there, time⟩
  have counted := Table.countOf_of_others (paysAt db.headBlockTime) found there
    paid.others
  have before : Table.one (paysAt db.headBlockTime) old = 1 :=
    if_pos (decide_eq_true early)
  have settled : Table.one (paysAt db.headBlockTime) restarted = 0 := by
    refine if_neg ?_
    intro again
    refine paid.not_due later ⟨restarted, there, ?_⟩
    rw [paid.time]
    exact of_decide_eq_true again
  rw [paid.time]
  omega

end Payout

/-! ## The loop -/

section Loop

variable {ext : External}
  {start round after : Database × List RewardFundContext}
  {id : Nat}

theorem cashoutDue_cases
    (acted : cashoutDue ext id round = .ok after) :
    ∃ place fund context claimed,
      round.1.getRewardFund = .ok (place, fund) ∧
        round.2[place]? = some context ∧
          round.1.cashoutCommentHelper ext id context.recentClaims
              context.rewardBalance = .ok (after.1, claimed) ∧
            after.2 = round.2.set place
              { context with bmtAwarded := context.bmtAwarded + claimed } := by
  simp only [cashoutDue, changeContext, bind_eq_ok_iff, orFault_eq_ok_iff,
    checked_eq_ok_iff, pure_eq_ok_iff] at acted
  rcases acted with
    ⟨⟨place, fund⟩, got, context, found, ⟨paid, claimed⟩, pay, _,
      ⟨old, again, _, ⟨_, ⟨-, rfl⟩, rfl⟩, rfl⟩, rfl⟩
  rw [found] at again
  cases again
  exact ⟨place, fund, context, claimed, got, found, pay, rfl⟩

theorem cashedOut_of_cashoutDue
    (acted : cashoutDue ext id round = .ok after) :
    CashedOut round.1 after.1 id := by
  rcases cashoutDue_cases acted with ⟨_, _, _, _, -, -, pay, -⟩
  exact cashedOut_of_done pay

theorem CashedOut.cashesLater
    {db after : Database}
    (paid : CashedOut db after id)
    (later : db.CashesLater) :
    after.CashesLater := by
  rw [CashesLater, paid.time]
  exact later

/-- The loop comes to an end when the next payouts are later. -/
theorem round_halts
    (later : start.1.CashesLater) :
    Halts nextDue (cashoutDue ext) start := by
  refine halts_of_less (fun round => round.1.CashesLater)
    (fun round => round.1.comments.countOf (paysAt round.1.headBlockTime)) ?_
    later
  intro id round after offered acted before
  have paid := cashedOut_of_cashoutDue acted
  exact ⟨paid.cashesLater before,
    paid.fewer before (due_of_nextDue offered)⟩

/-- Each due comment is paid once, and no other. -/
theorem round_once
    {order : List Nat}
    (later : start.1.CashesLater)
    (taken : Takes nextDue (cashoutDue ext) start order final) :
    order.Nodup ∧ ∀ id, id ∈ order ↔ Due start.1 id := by
  refine taken.once (fun round => round.1.CashesLater)
    (fun round id => Due round.1 id) ?_ ?_ ?_ later
  · exact fun round id _ offered => due_of_nextDue offered
  · exact fun round id _ nothing => not_due_of_nextDue nothing id
  · intro id round after offered acted before
    have paid := cashedOut_of_cashoutDue acted
    exact ⟨paid.cashesLater before, paid.settles before⟩

/-- What the rounds leave of the state in which they start. -/
structure InRound (start round : Database × List RewardFundContext) : Prop where
  time : round.1.headBlockTime = start.1.headBlockTime
  funds : round.1.rewardFunds = start.1.rewardFunds
  contexts : ∀ (place : Nat) (context : RewardFundContext),
    round.2[place]? = some context →
      ∃ first : RewardFundContext, start.2[place]? = some first ∧
        first.recentClaims = context.recentClaims ∧
          first.rewardBalance = context.rewardBalance
  comments : ∀ id, Due round.1 id →
    round.1.comments.find? id = start.1.comments.find? id

theorem InRound.refl
    (start : Database × List RewardFundContext) :
    InRound start start :=
  ⟨rfl, rfl, fun _ context found => ⟨context, found, rfl, rfl⟩,
    fun _ _ => rfl⟩

theorem InRound.cashoutDue
    (before : InRound start round)
    (later : start.1.CashesLater)
    (acted : cashoutDue ext id round = .ok after) :
    InRound start after := by
  have paid := cashedOut_of_cashoutDue acted
  have still : round.1.CashesLater := by
    rw [CashesLater, before.time]
    exact later
  rcases cashoutDue_cases acted with
    ⟨place, fund, context, claimed, -, found, -, written⟩
  constructor
  case time => exact paid.time.trans before.time
  case funds => exact paid.funds.trans before.funds
  case contexts =>
    intro other changed there
    rw [written, List.getElem?_set] at there
    split at there
    case isTrue same =>
      subst same
      split at there
      case isTrue =>
        cases there
        exact before.contexts place context found
      case isFalse => cases there
    case isFalse => exact before.contexts other changed there
  case comments =>
    intro other due
    rcases (paid.settles still other).1 due with ⟨earlier, different⟩
    rw [paid.others other different]
    exact before.comments other earlier

theorem inRound_of_reaches
    (later : start.1.CashesLater)
    (reached : Reaches nextDue (cashoutDue ext) start round) :
    InRound start round :=
  reached.invariant (InRound start)
    (fun _ _ _ _ acted before => before.cashoutDue later acted) (.refl start)

end Loop

/-! ## The start of the round -/

/-- The fund and its cached state after the decay. -/
def cachedFund (now : Time) (fund : RewardFundObject) : RewardFundContext :=
  ⟨(decayClaims now fund).recentClaims, fund.rewardBalance, 0⟩

/-- The funds have the ids from zero on, as the source asserts. -/
def FundsNumbered (db : Database) : Prop :=
  db.rewardFunds.entries.map Prod.fst =
    List.range db.rewardFunds.entries.length

theorem FundsNumbered.entry
    {db : Database}
    (numbered : db.FundsNumbered)
    (found : db.rewardFunds.find? place = some fund) :
    db.rewardFunds.entries[place]? = some (place, fund) := by
  have member : (place, fund) ∈ db.rewardFunds.entries :=
    ExtTreeMap.mem_toList_iff_getElem?_eq_some.2 found
  rcases List.getElem?_of_mem member with ⟨index, listed⟩
  have key : (db.rewardFunds.entries.map Prod.fst)[index]? = some place := by
    rw [List.getElem?_map, listed]
    rfl
  rw [numbered, List.getElem?_range] at key
  · cases key
    exact listed
  · exact (List.getElem?_eq_some_iff.1 listed).1

/-- Let one fund decay and cache it. -/
def decayOne (now : Time) (decayed : Database × List RewardFundContext)
    (entry : Nat × RewardFundObject) :
    Except Fault (Database × List RewardFundContext) := do
  let db ← decayed.1.modifyRewardFund entry.1 fun _ =>
    pure (decayClaims now entry.2)
  pure (db, decayed.2 ++ [cachedFund now entry.2])

theorem decayOne_loop
    {now : Time}
    {entries : List (Nat × RewardFundObject)}
    {start final : Database × List RewardFundContext}
    (distinct : (entries.map Prod.fst).Nodup)
    (ran : entries.foldlM (decayOne now) start = .ok final) :
    final.2 = start.2 ++ entries.map (fun entry => cachedFund now entry.2) ∧
      (∀ entry ∈ entries, final.1.rewardFunds.find? entry.1 =
        some (decayClaims now entry.2)) ∧
        ∀ place, place ∉ entries.map Prod.fst →
          final.1.rewardFunds.find? place = start.1.rewardFunds.find? place := by
  induction entries generalizing start with
  | nil =>
      cases ran
      refine ⟨(List.append_nil _).symm, ?_, fun _ _ => rfl⟩
      intro entry absent
      cases absent
  | cons entry rest induction =>
      rw [List.foldlM_cons, bind_eq_ok_iff] at ran
      rcases ran with ⟨middle, stepped, ran⟩
      rw [List.map_cons, List.nodup_cons] at distinct
      rcases induction distinct.2 ran with ⟨cached, decayed, others⟩
      simp only [decayOne, modifyRewardFund, modifyRow, bind_eq_ok_iff,
        orFault_eq_ok_iff, pure_eq_ok_iff] at stepped
      rcases stepped with ⟨_, ⟨_, ⟨row, found, _, rfl, rfl⟩, rfl⟩, rfl⟩
      refine ⟨?_, ?_, ?_⟩
      · rw [cached, List.append_assoc]
        rfl
      · intro other member
        rcases List.mem_cons.1 member with rfl | member
        · rw [others other.1 distinct.1]
          exact (Table.find?_set found _ other.1).trans (if_pos rfl)
        · exact decayed other member
      · intro place outside
        rw [List.map_cons, List.mem_cons, not_or] at outside
        rw [others place outside.2]
        exact (Table.find?_set found _ place).trans
          (if_neg (Ne.symm outside.1))

/-- What the decay leaves: the same funds, decayed, and their cached states. -/
structure Decayed (db decayed : Database) (funds : List RewardFundContext) :
    Prop where
  comments : decayed.comments = db.comments
  time : decayed.headBlockTime = db.headBlockTime
  rows : decayed.rewardFunds.rows =
    db.rewardFunds.rows.map fun _ fund => decayClaims db.headBlockTime fund
  cached : funds = db.rewardFunds.entries.map fun entry =>
    cachedFund db.headBlockTime entry.2

theorem decayed_of_decayFunds
    {db decayed : Database}
    {funds : List RewardFundContext}
    (done : db.decayFunds = .ok (decayed, funds)) :
    Decayed db decayed funds := by
  have agrees := agrees_decayFunds done
  have distinct : (db.rewardFunds.entries.map Prod.fst).Nodup := by
    rw [List.Nodup, List.pairwise_map]
    exact FiniteMap.distinct_keys db.rewardFunds.rows
  rcases decayOne_loop distinct
    (show db.rewardFunds.entries.foldlM (decayOne db.headBlockTime) (db, []) =
      .ok (decayed, funds) from done) with ⟨cached, written, others⟩
  constructor
  case comments => exact agrees .comments (by decide)
  case time =>
    exact congrArg (fun head => head.2.2) (headOf_of_agrees agrees rfl)
  case rows =>
    refine ExtTreeMap.ext_getElem? ?_
    intro place
    rw [ExtTreeMap.getElem?_map]
    cases found : db.rewardFunds.rows[place]? with
    | none =>
        refine (others place ?_).trans found
        intro listed
        rcases List.mem_map.1 listed with ⟨entry, member, rfl⟩
        have there := ExtTreeMap.mem_toList_iff_getElem?_eq_some.1 member
        rw [found] at there
        cases there
    | some fund =>
        exact written (place, fund)
          (ExtTreeMap.mem_toList_iff_getElem?_eq_some.2 found)
  case cached => exact cached

section Decay

variable {db decayed : Database} {funds : List RewardFundContext}
    (decays : Decayed db decayed funds)

include decays

theorem Decayed.find?
    (place : Nat) :
    decayed.rewardFunds.find? place =
      (db.rewardFunds.find? place).map (decayClaims db.headBlockTime) := by
  rw [Table.find?, decays.rows, ExtTreeMap.getElem?_map]
  rfl

theorem Decayed.entries :
    decayed.rewardFunds.entries =
      db.rewardFunds.entries.map fun entry =>
        (entry.1, decayClaims db.headBlockTime entry.2) := by
  rw [Table.entries, decays.rows, ExtTreeMap.toList_map]
  rfl

/-- The decayed fund of the posts is at the same place. -/
theorem Decayed.getRewardFund
    (got : db.getRewardFund = .ok (place, fund)) :
    decayed.getRewardFund =
      .ok (place, decayClaims db.headBlockTime fund) := by
  have found := orFault_eq_ok_iff.1 got
  refine orFault_eq_ok_iff.2 ?_
  rw [Table.findBy, decays.entries, List.find?_map]
  exact congrArg (Option.map fun entry : Nat × RewardFundObject =>
    (entry.1, decayClaims db.headBlockTime entry.2)) found

theorem Decayed.context
    (numbered : db.FundsNumbered)
    (found : db.rewardFunds.find? place = some fund) :
    funds[place]? = some (cachedFund db.headBlockTime fund) := by
  rw [decays.cached, List.getElem?_map, numbered.entry found]
  rfl

theorem Decayed.dueComments :
    decayed.dueComments = db.dueComments := by
  unfold Database.dueComments
  rw [decays.comments, decays.time]

end Decay

/-! ## The claims of the due comments -/

/-- The claim of a comment on its fund, by the reward curve. -/
def claimOf (ext : External) (fund : RewardFundObject)
    (comment : CommentObject) : Nat :=
  if 0 < comment.netRshares then
    (evaluateRewardCurve ext (uint128 comment.netRshares)
      fund.authorRewardCurve fund.contentConstant).toOption.getD 0
  else 0

/-- The claims of all comments which are due. -/
def dueClaims (ext : External) (db : Database) (fund : RewardFundObject) :
    Nat :=
  (db.dueComments.map fun due => claimOf ext fund due.2).sum

/-- The claims against which a round of payouts is made. -/
def roundClaims (ext : External) (db : Database) (fund : RewardFundObject) :
    Nat :=
  (decayClaims db.headBlockTime fund).recentClaims + dueClaims ext db fund

/-- The claims which are added to a fund, one due comment after another. -/
theorem addClaims_loop
    {ext : External}
    {db : Database}
    {funds final : List RewardFundContext}
    {first : RewardFundContext}
    (got : db.getRewardFund = .ok (place, fund))
    (found : funds[place]? = some first)
    (small : first.recentClaims +
      (dues.map fun due => claimOf ext fund due.2).sum < 2 ^ 128)
    (ran : dues.foldlM (db.addClaims ext) funds = .ok final) :
    final[place]? = some { first with
        recentClaims := first.recentClaims +
          (dues.map fun due => claimOf ext fund due.2).sum } ∧
      ∀ other, other ≠ place → final[other]? = funds[other]? := by
  induction dues generalizing funds first with
  | nil =>
      cases ran
      exact ⟨found, fun _ _ => rfl⟩
  | cons due rest induction =>
      rw [List.foldlM_cons, bind_eq_ok_iff] at ran
      rcases ran with ⟨middle, stepped, ran⟩
      rw [List.map_cons, List.sum_cons, ← Nat.add_assoc] at small ⊢
      have step : middle[place]? = some { first with
            recentClaims := first.recentClaims + claimOf ext fund due.2 } ∧
          ∀ other, other ≠ place → middle[other]? = funds[other]? := by
        unfold addClaims at stepped
        split at stepped
        case isFalse none =>
          cases stepped
          rw [claimOf, if_neg none]
          exact ⟨found, fun _ _ => rfl⟩
        case isTrue positive =>
          simp only [got, ok_bind, changeContext, bind_eq_ok_iff,
            orFault_eq_ok_iff, pure_eq_ok_iff] at stepped
          rcases stepped with ⟨claims, curve, old, again, _, rfl, rfl⟩
          rw [found] at again
          cases again
          have claim : claimOf ext fund due.2 = claims := by
            rw [claimOf, if_pos positive, curve]
            rfl
          rw [claim] at small ⊢
          have whole : addUint128 first.recentClaims claims =
              first.recentClaims + claims :=
            Nat.mod_eq_of_lt
              (Nat.lt_of_le_of_lt (Nat.le_add_right _ _) small)
          constructor
          · rw [List.getElem?_set_self (List.getElem?_eq_some_iff.1 found).1,
              whole]
          · intro other different
            exact List.getElem?_set_ne (Ne.symm different)
      rcases induction step.1 small ran with ⟨last, others⟩
      refine ⟨last, ?_⟩
      intro other different
      rw [others other different]
      exact step.2 other different

theorem dueClaims_eq_sumOf
    (ext : External)
    (db : Database)
    (fund : RewardFundObject) :
    (dueClaims ext db fund : Int) =
      sumOf (fun comment => if paysAt db.headBlockTime comment then
        (claimOf ext fund comment : Int) else 0) db.comments.rows := by
  have sorted := List.perm_insertionSort
    (fun first second : Nat × CommentObject =>
      first.2.cashoutTime < second.2.cashoutTime ∨
        (first.2.cashoutTime = second.2.cashoutTime ∧ first.1 ≤ second.1))
    (db.comments.entries.filter fun entry =>
      entry.2.cashoutTime ≤ db.headBlockTime)
  have summed := (sorted.map fun due => claimOf ext fund due.2).sum_eq
  rw [dueClaims, dueComments, summed, sumOf]
  change _ = (db.comments.entries.map _).sum
  induction db.comments.entries with
  | nil => rfl
  | cons entry rest induction =>
      by_cases early : entry.2.cashoutTime ≤ db.headBlockTime
      · simp [early, paysAt, induction]
      · simp [early, paysAt, induction]

/-- A payout takes the claim of its comment off the claims which are due. -/
theorem CashedOut.claims
    {ext : External}
    {db after : Database}
    {id : Nat}
    (paid : CashedOut db after id)
    (later : db.CashesLater)
    (found : db.comments.find? id = some comment)
    (early : comment.cashoutTime ≤ db.headBlockTime) :
    dueClaims ext after fund + claimOf ext fund comment =
      dueClaims ext db fund := by
  rcases paid.own with ⟨restarted, there, time⟩
  have moved := Table.sumOf_of_others
    (fun comment => if paysAt db.headBlockTime comment then
      (claimOf ext fund comment : Int) else 0) found there paid.others
  have settled : paysAt db.headBlockTime restarted = false := by
    refine decide_eq_false ?_
    intro again
    refine paid.not_due later ⟨restarted, there, ?_⟩
    rw [paid.time]
    exact again
  have before : paysAt db.headBlockTime comment = true := decide_eq_true early
  rw [settled, before] at moved
  have left := dueClaims_eq_sumOf ext after fund
  have whole := dueClaims_eq_sumOf ext db fund
  rw [paid.time] at left
  simp only [if_true, Bool.false_eq_true, if_false] at moved
  omega

/-! ## Rewards and awards -/

theorem share_within
    {weight : Nat}
    (claim total : Nat)
    (nonneg : 0 ≤ balance)
    (fits : FitsInt64 balance)
    (within : weight ≤ hundredPercent) :
    ((uint256 balance * (claim * weight % 2 ^ 256 / hundredPercent) % 2 ^ 256 /
        total : Nat) : Int) * total ≤ balance * claim := by
  rcases Int.eq_ofNat_of_zero_le nonneg with ⟨whole, rfl⟩
  have same : uint256 whole = whole := by
    have small := fits.2
    unfold uint256
    omega
  have part : claim * weight % 2 ^ 256 / hundredPercent ≤ claim := by
    refine Nat.div_le_of_le_mul (Nat.le_trans (Nat.mod_le _ _) ?_)
    rw [Nat.mul_comm]
    exact Nat.mul_le_mul_right claim within
  rw [same]
  have share : whole * (claim * weight % 2 ^ 256 / hundredPercent) % 2 ^ 256 /
      total * total ≤ whole * claim := by
    calc whole * (claim * weight % 2 ^ 256 / hundredPercent) % 2 ^ 256 /
          total * total
        ≤ whole * (claim * weight % 2 ^ 256 / hundredPercent) % 2 ^ 256 :=
          Nat.div_mul_le_self _ _
      _ ≤ whole * (claim * weight % 2 ^ 256 / hundredPercent) :=
          Nat.mod_le _ _
      _ ≤ whole * claim := Nat.mul_le_mul_left whole part
  exact_mod_cast share

/-- A reward is no more than the share of its claim in the balance. -/
theorem rshareReward_share
    {ext : External}
    {db : Database}
    {place recentClaims : Nat}
    {balance reward : Int}
    (got : db.getRewardFund = .ok (place, fund))
    (voted : 0 < comment.netRshares)
    (nonneg : 0 ≤ balance)
    (fits : FitsInt64 balance)
    (within : comment.rewardWeight ≤ hundredPercent)
    (done : db.rshareReward ext comment recentClaims balance = .ok reward) :
    0 < recentClaims ∧
      reward * recentClaims ≤ balance * claimOf ext fund comment := by
  rw [rshareReward, got, ok_bind] at done
  simp only [getRshareReward, bind_eq_ok_iff, require_eq_ok_iff,
    pure_eq_ok_iff] at done
  rcases done with ⟨_, -, _, positive, claim, curve, _, -, rfl⟩
  have own : claimOf ext fund comment = claim := by
    rw [claimOf, if_pos voted, curve]
    rfl
  refine ⟨positive, ?_⟩
  rw [own]
  have share := share_within claim recentClaims nonneg fits within
  split
  case isTrue =>
    rw [Int.zero_mul]
    exact Int.mul_nonneg nonneg (Int.natCast_nonneg _)
  case isFalse => exact share

/-- A state in which the sums of the round are within their types. -/
structure RoundSound (ext : External) (db : Database) : Prop where
  numbered : db.FundsNumbered
  balances : db.rewardFunds.All fun fund =>
    0 ≤ fund.rewardBalance ∧ FitsInt64 fund.rewardBalance
  curation : db.CurationWithin
  weights : ∀ due ∈ db.dueComments, due.2.rewardWeight ≤ hundredPercent
  sums : ∀ place fund, db.getRewardFund = .ok (place, fund) →
    roundClaims ext db fund < 2 ^ 128

/-- What a fund has given away leaves enough for the claims still due. -/
def AwardsWithin (ext : External) (fund : RewardFundObject) (place : Nat)
    (first : RewardFundContext) (round : Database × List RewardFundContext) :
    Prop :=
  ∃ awarded : Int,
    round.2[place]? = some { first with bmtAwarded := awarded } ∧
      0 ≤ awarded ∧ (0 < first.recentClaims ∨ awarded = 0) ∧
        awarded * first.recentClaims +
            first.rewardBalance * dueClaims ext round.1 fund ≤
          first.rewardBalance * first.recentClaims

section Awards

variable {ext : External}
  {start round after : Database × List RewardFundContext}
  {place id : Nat}
  {fund : RewardFundObject}
  {first : RewardFundContext}

theorem AwardsWithin.cashoutDue
    (held : AwardsWithin ext fund place first round)
    (before : InRound start round)
    (later : start.1.CashesLater)
    (got : start.1.getRewardFund = .ok (place, fund))
    (curation : start.1.CurationWithin)
    (weights : ∀ due ∈ start.1.dueComments,
      due.2.rewardWeight ≤ hundredPercent)
    (nonneg : 0 ≤ first.rewardBalance)
    (fits : FitsInt64 first.rewardBalance)
    (offered : nextDue round = some id)
    (acted : cashoutDue ext id round = .ok after) :
    AwardsWithin ext fund place first after := by
  rcases held with ⟨awarded, there, some, claimable, enough⟩
  have paid := cashedOut_of_cashoutDue acted
  have still : round.1.CashesLater := by
    rw [CashesLater, before.time]
    exact later
  have same : round.1.getRewardFund = .ok (place, fund) := by
    rw [← got, getRewardFund, getRewardFund, before.funds]
  rcases cashoutDue_cases acted with
    ⟨place', fund', context, claimed, got', found, pay, written⟩
  rw [same] at got'
  cases got'
  rw [there] at found
  cases found
  rcases due_of_nextDue offered with ⟨comment, row, early⟩
  have listed : (id, comment) ∈ start.1.dueComments := by
    refine mem_dueComments.2 ⟨?_, ?_⟩
    · rw [← before.comments id ⟨comment, row, early⟩]
      exact row
    · rw [← before.time]
      exact early
  have fair : round.1.CurationWithin := by
    rw [CurationWithin, before.funds]
    exact curation
  rcases claimed_within row pay fair with ⟨given, bound⟩
  have share : (0 < first.recentClaims ∨ claimed = 0) ∧
      claimed * first.recentClaims ≤
        first.rewardBalance * claimOf ext fund comment := by
    split at bound
    case isTrue voted =>
      rcases bound with ⟨reward, worth, less⟩
      rcases rshareReward_share same voted nonneg fits
        (weights (id, comment) listed) worth with ⟨positive, most⟩
      refine ⟨.inl positive, Int.le_trans ?_ most⟩
      exact Int.mul_le_mul_of_nonneg_right less (Int.natCast_nonneg _)
    case isFalse =>
      refine ⟨.inr bound, ?_⟩
      rw [bound, Int.zero_mul]
      exact Int.mul_nonneg nonneg (Int.natCast_nonneg _)
  have taken : dueClaims ext after.1 fund + claimOf ext fund comment =
      dueClaims ext round.1 fund := paid.claims still row early
  refine ⟨awarded + claimed, ?_, ?_, ?_, ?_⟩
  · rw [written, List.getElem?_set_self (List.getElem?_eq_some_iff.1 there).1]
  · exact Int.add_nonneg some given
  · rcases claimable with positive | none
    · exact .inl positive
    · rcases share.1 with positive | zero
      · exact .inl positive
      · right
        rw [none, zero]
        rfl
  · calc (awarded + claimed) * (first.recentClaims : Int) +
          first.rewardBalance * dueClaims ext after.1 fund
        = awarded * first.recentClaims + (claimed * first.recentClaims +
            first.rewardBalance * dueClaims ext after.1 fund) := by
          rw [Int.add_mul, Int.add_assoc]
      _ ≤ awarded * first.recentClaims +
            (first.rewardBalance * claimOf ext fund comment +
              first.rewardBalance * dueClaims ext after.1 fund) :=
          Int.add_le_add_left (Int.add_le_add_right share.2 _) _
      _ = awarded * first.recentClaims +
            first.rewardBalance * dueClaims ext round.1 fund := by
          rw [← Int.mul_add, ← Nat.cast_add, Nat.add_comm, taken]
      _ ≤ first.rewardBalance * first.recentClaims := enough

/-- In the end a fund has given away no more than it had. -/
theorem AwardsWithin.le
    (held : AwardsWithin ext fund place first round)
    (nonneg : 0 ≤ first.rewardBalance) :
    ∃ awarded : Int,
      round.2[place]? = some { first with bmtAwarded := awarded } ∧
        0 ≤ awarded ∧ awarded ≤ first.rewardBalance := by
  rcases held with ⟨awarded, there, some, claimable, enough⟩
  refine ⟨awarded, there, some, ?_⟩
  rcases claimable with positive | none
  · have rest : 0 ≤ first.rewardBalance * (dueClaims ext round.1 fund : Int) :=
      Int.mul_nonneg nonneg (Int.natCast_nonneg _)
    refine Int.le_of_mul_le_mul_right (Int.le_trans ?_ enough)
      (Int.natCast_pos.2 positive)
    exact Int.le_add_of_nonneg_right rest
  · rw [none]
    exact nonneg

/-- The cached state of another fund stays as it is. -/
theorem others_cashoutDue
    (other : ∀ fund, round.1.getRewardFund ≠ .ok (place, fund))
    (acted : cashoutDue ext id round = .ok after) :
    after.2[place]? = round.2[place]? := by
  rcases cashoutDue_cases acted with
    ⟨place', fund, context, claimed, got, -, -, written⟩
  rw [written]
  refine List.getElem?_set_ne ?_
  rintro rfl
  exact other fund got

theorem others_addClaims
    {db : Database}
    {funds final : List RewardFundContext}
    (other : ∀ fund, db.getRewardFund ≠ .ok (place, fund))
    (ran : dues.foldlM (db.addClaims ext) funds = .ok final) :
    final[place]? = funds[place]? := by
  refine foldlM_invariant (fun state => state[place]? = funds[place]?) ?_ ran
    rfl
  intro state due next _ stepped before
  unfold addClaims at stepped
  split at stepped
  case isFalse =>
    cases stepped
    exact before
  case isTrue =>
    simp only [changeContext, bind_eq_ok_iff, orFault_eq_ok_iff,
      pure_eq_ok_iff] at stepped
    rcases stepped with ⟨⟨place', fund⟩, got, claims, -, old, -, _, rfl, rfl⟩
    rw [← before]
    refine List.getElem?_set_ne ?_
    rintro rfl
    exact other fund got

end Awards

/-! ## The funds are written back -/

/-- Write one cached state back. -/
def writeFund (db : Database) (entry : RewardFundContext × Nat) :
    Except Fault Database :=
  db.modifyRewardFund entry.2 fun fund => do
    let balance ← checked (fund.rewardBalance - entry.1.bmtAwarded)
    pure { fund with
      recentClaims := entry.1.recentClaims
      rewardBalance := balance }

theorem writeFund_loop
    {funds : List RewardFundContext}
    {first : Nat}
    {db after : Database}
    (ran : (funds.zipIdx first).foldlM writeFund db = .ok after) :
    (∀ place, place < first →
      after.rewardFunds.find? place = db.rewardFunds.find? place) ∧
      ∀ place context fund, funds[place]? = some context →
        db.rewardFunds.find? (first + place) = some fund →
          after.rewardFunds.find? (first + place) = some { fund with
            recentClaims := context.recentClaims
            rewardBalance := fund.rewardBalance - context.bmtAwarded } := by
  induction funds generalizing first db with
  | nil =>
      cases ran
      refine ⟨fun _ _ => rfl, ?_⟩
      intro place context fund absent
      cases absent
  | cons head rest induction =>
      rw [List.zipIdx_cons, List.foldlM_cons, bind_eq_ok_iff] at ran
      rcases ran with ⟨middle, stepped, ran⟩
      simp only [writeFund, modifyRewardFund, modifyRow, bind_eq_ok_iff,
        orFault_eq_ok_iff, checked_eq_ok_iff, pure_eq_ok_iff] at stepped
      rcases stepped with ⟨_, ⟨old, found, _, ⟨_, ⟨-, rfl⟩, rfl⟩, rfl⟩, rfl⟩
      rcases induction ran with ⟨earlier, written⟩
      dsimp only at earlier written
      constructor
      · intro place less
        rw [earlier place (Nat.lt_succ_of_lt less)]
        exact (Table.find?_set found _ place).trans
          (if_neg (Nat.ne_of_gt less))
      · intro place context fund listed there
        cases place with
        | zero =>
            cases listed
            rw [Nat.add_zero] at there ⊢
            rw [found] at there
            cases there
            rw [earlier first (Nat.lt_succ_self first)]
            exact (Table.find?_set found _ first).trans (if_pos rfl)
        | succ place =>
            have shift : first + (place + 1) = first + 1 + place := by omega
            rw [shift] at there ⊢
            refine written place context fund listed ?_
            refine Eq.trans ((Table.find?_set found _ _).trans
              (if_neg ?_)) there
            omega

/-- A fund loses what its cached state has given away. -/
theorem writeFunds_row
    {funds : List RewardFundContext}
    {db after : Database}
    {context : RewardFundContext}
    (done : db.writeFunds funds = .ok after)
    (listed : funds[place]? = some context)
    (found : db.rewardFunds.find? place = some fund) :
    after.rewardFunds.find? place = some { fund with
      recentClaims := context.recentClaims
      rewardBalance := fund.rewardBalance - context.bmtAwarded } := by
  have ran : (funds.zipIdx 0).foldlM writeFund db = .ok after := done
  have written := (writeFund_loop ran).2 place context fund listed
  rw [Nat.zero_add] at written
  exact written found

end BMChain.State.Database
