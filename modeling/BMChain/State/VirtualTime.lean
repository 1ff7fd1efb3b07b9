import BMChain.State.ScheduleForm

/-!
# The virtual race of the witnesses

A witness which is not among those with the most votes runs a lap of a fixed
length with a speed of one more than its votes.  Its place in the lap, the
time of the last update and the time at which the lap ends are written when
its votes change and when a round passes it; in between they are behind the
virtual time, but they still determine where the witness is.
-/

namespace BMChain.State

open BMChain.Foundation BMChain.Protocol Std

variable {time : Nat} {witness : WitnessObject} {db after : Database}
    {ext : External}

namespace Database

/-! ## The lap of a witness -/

/-- The time which the rest of a lap takes. -/
def restOfLap (witness : WitnessObject) : Nat :=
  (maxUint128 - witness.virtualPosition) / (witness.votes.toNat + 1)

/--
A witness whose place in the race is right for a virtual time.  A tally below
zero is only met between two changes of one tally, at one virtual time.
-/
structure Tracked (time : Nat) (witness : WitnessObject) : Prop where
  updated : witness.virtualLastUpdate ≤ time
  placed : witness.virtualPosition ≤ maxUint128
  ahead : 0 ≤ witness.votes → time ≤ witness.virtualScheduledTime
  due : 0 ≤ witness.votes → witness.virtualScheduledTime =
    min maxUint128 (witness.virtualLastUpdate + restOfLap witness)
  current : witness.votes < 0 → witness.virtualLastUpdate = time
  bounded : witness.votes < 2 ^ 63

/-- The place of a witness at the virtual time is still in the lap. -/
theorem Tracked.place_le
    (tracked : Tracked time witness)
    (nonneg : 0 ≤ witness.votes) :
    witness.virtualPosition +
        witness.votes.toNat * (time - witness.virtualLastUpdate) ≤
      maxUint128 := by
  have placed := tracked.placed
  have ahead := tracked.ahead nonneg
  rw [tracked.due nonneg] at ahead
  have elapsed : time - witness.virtualLastUpdate ≤ restOfLap witness :=
    Nat.sub_le_of_le_add
      (Nat.le_trans (Nat.le_min.1 ahead).2 (Nat.le_of_eq (Nat.add_comm _ _)))
  have moved : witness.votes.toNat * (time - witness.virtualLastUpdate) ≤
      maxUint128 - witness.virtualPosition := by
    calc witness.votes.toNat * (time - witness.virtualLastUpdate)
        ≤ (witness.votes.toNat + 1) * restOfLap witness :=
          Nat.mul_le_mul (Nat.le_succ _) elapsed
      _ ≤ maxUint128 - witness.virtualPosition := Nat.mul_div_le _ _
  omega

/-- The end of a lap in 128 bits, or no end at all where it does not fit. -/
theorem lapEnd_eq
    {time lap : Nat}
    (early : time ≤ maxUint128)
    (short : lap ≤ maxUint128) :
    (if addUint128 time lap < time then maxUint128 else addUint128 time lap) =
      min maxUint128 (time + lap) := by
  unfold addUint128 maxUint128 at *
  rcases Nat.lt_or_ge (time + lap) (2 ^ 128) with fits | wraps
  · rw [Nat.mod_eq_of_lt fits, if_neg (by omega)]
    omega
  · rw [Nat.mod_eq_sub_mod wraps, Nat.mod_eq_of_lt (by omega),
      if_pos (by omega)]
    omega

theorem subUint128_eq
    {left right : Nat}
    (early : left ≤ maxUint128)
    (ordered : right ≤ left) :
    subUint128 left right = left - right := by
  unfold subUint128 maxUint128 at *
  have small : right % 2 ^ 128 = right := Nat.mod_eq_of_lt (by omega)
  rw [small]
  omega

theorem uint128_of_nonneg
    {value : Int}
    (nonneg : 0 ≤ value)
    (small : value < 2 ^ 128) :
    uint128 value = value.toNat := by
  unfold uint128
  rw [Int.emod_eq_of_lt nonneg small]

/-- How far a witness has moved since it was updated. -/
theorem Tracked.moved_eq
    (tracked : Tracked time witness)
    (early : time ≤ maxUint128) :
    addUint128 witness.virtualPosition
        (uint128 witness.votes * subUint128 time witness.virtualLastUpdate %
          2 ^ 128) =
      witness.virtualPosition +
        witness.votes.toNat * (time - witness.virtualLastUpdate) ∧
      witness.virtualPosition +
          witness.votes.toNat * (time - witness.virtualLastUpdate) ≤
        maxUint128 := by
  have placed := tracked.placed
  have bounded := tracked.bounded
  rw [subUint128_eq early tracked.updated]
  rcases Int.lt_or_le witness.votes 0 with negative | nonneg
  · rw [tracked.current negative, Nat.sub_self, Nat.mul_zero, Nat.mul_zero]
    unfold addUint128 maxUint128 at *
    omega
  · have place := tracked.place_le nonneg
    rw [uint128_of_nonneg nonneg (by omega)]
    refine ⟨?_, place⟩
    unfold addUint128 maxUint128 at *
    generalize witness.votes.toNat * (time - witness.virtualLastUpdate) =
      moved at *
    omega

/-- A change of the votes leaves a witness whose place is right. -/
theorem Tracked.adjusted
    {votes : Int}
    (tracked : Tracked time witness)
    (early : time ≤ maxUint128)
    (fits : FitsInt64 votes) :
    let position := addUint128 witness.virtualPosition
      (uint128 witness.votes * subUint128 time witness.virtualLastUpdate %
        2 ^ 128)
    let scheduled := addUint128 time
      (subUint128 maxUint128 position / uint128 (votes + 1))
    Tracked time
      { witness with
        virtualPosition := position
        virtualLastUpdate := time
        votes := votes
        virtualScheduledTime :=
          if scheduled < time then maxUint128 else scheduled } := by
  dsimp only
  rcases tracked.moved_eq early with ⟨moved, inside⟩
  rw [moved, subUint128_eq (Nat.le_refl _) inside]
  rw [lapEnd_eq early (Nat.le_trans (Nat.div_le_self _ _) (Nat.sub_le _ _))]
  have due : 0 ≤ votes → uint128 (votes + 1) = votes.toNat + 1 := by
    intro nonneg
    have small := fits.2
    rw [uint128_of_nonneg (by omega) (by omega)]
    omega
  constructor
  case updated => exact Nat.le_refl _
  case placed => exact inside
  case ahead => exact fun _ => Nat.le_min.2 ⟨early, Nat.le_add_right _ _⟩
  case due =>
    intro nonneg
    simp only [restOfLap, due nonneg]
  case current => exact fun _ => rfl
  case bounded => exact fits.2

/-- All witnesses are where the virtual time says. -/
structure OnTrack (db : Database) : Prop where
  early : db.schedule.currentVirtualTime ≤ maxUint128
  tracked : ∀ name witness, db.witnesses.find? name = some witness →
    Tracked db.schedule.currentVirtualTime witness

theorem OnTrack.of_agrees
    {fields : List Field}
    {before after : Database}
    (onTrack : before.OnTrack)
    (agrees : Agrees fields before after)
    (separate : apart [.schedule, .witness .votes, .witness .race] fields =
      true) :
    after.OnTrack := by
  have same : ∀ field ∈ [Field.schedule, .witness .votes, .witness .race],
      field.read after = field.read before :=
    fun field member => agrees.read_eq separate member
  have schedule : after.schedule = before.schedule :=
    same .schedule (by decide)
  have votes := same (.witness .votes) (by decide)
  have race := same (.witness .race) (by decide)
  constructor
  case early =>
    rw [schedule]
    exact onTrack.early
  case tracked =>
    intro name witness found
    have vote := congrFun votes name
    have place := congrFun race name
    simp only [Field.read, found, Option.map_some] at vote place
    rcases Option.map_eq_some_iff.1 vote.symm with ⟨old, there, sameVotes⟩
    rw [there, Option.map_some, Option.some.injEq] at place
    simp only [WitnessAspect.read, Prod.mk.injEq] at sameVotes place
    rcases place with ⟨updated, placed, scheduled⟩
    have tracked := onTrack.tracked name old there
    rw [schedule]
    constructor
    case updated => exact updated ▸ tracked.updated
    case placed => exact placed ▸ tracked.placed
    case ahead => exact scheduled ▸ sameVotes ▸ tracked.ahead
    case due =>
      rw [restOfLap, scheduled, updated, placed, ← sameVotes]
      exact tracked.due
    case current => exact updated ▸ sameVotes ▸ tracked.current
    case bounded => exact sameVotes ▸ tracked.bounded

/-! ## Changes of the votes -/

/-- A change after which the witnesses are where the virtual time says. -/
def Steers (before after : Database) : Prop :=
  before.OnTrack → after.OnTrack

instance : IsPreorder Database Steers where
  refl _ onTrack := onTrack
  trans _ _ _ first second onTrack := second (first onTrack)

/-- What leaves the race alone. -/
theorem steers_of_touches
    {fields : List Field}
    {result : Except Fault Database}
    (touches : Touches fields db result)
    (separate : apart [.schedule, .witness .votes, .witness .race] fields =
      true) :
    Respects Steers db result :=
  Respects.mono touches fun _ _ agrees onTrack =>
    onTrack.of_agrees agrees separate

theorem steers_adjustWitnessVote
    (db : Database)
    (name : AccountName)
    (delta : Int) :
    Respects Steers db (db.adjustWitnessVote name delta) := by
  intro after done onTrack
  simp only [adjustWitnessVote, modifyWitness, modifyNamed, bind_eq_ok_iff,
    orFault_eq_ok_iff, pure_eq_ok_iff] at done
  rcases done with ⟨_, ⟨witness, found, changed, change, rfl⟩, rfl⟩
  refine ⟨onTrack.early, ?_⟩
  intro other row there
  rw [Register.find?_set found] at there
  split at there
  case isTrue same =>
    cases there
    simp only [checked_eq_ok_iff, divideUint128, bind_eq_ok_iff,
      pure_eq_ok_iff] at change
    rcases change with ⟨votes, ⟨fits, equal⟩, _, -, lap, ⟨_, -, rfl⟩, rfl⟩
    rw [equal] at fits
    exact (onTrack.tracked name witness found).adjusted onTrack.early fits
  case isFalse => exact onTrack.tracked other row there

theorem steers_adjustWitnessVotes
    (db : Database)
    (account : Nat)
    (delta : Int) :
    Respects Steers db (db.adjustWitnessVotes account delta) :=
  .foldlM _ fun state _ =>
    .read fun _ _ => steers_adjustWitnessVote state _ delta

theorem steers_addToProxy
    (db : Database)
    (name : AccountName)
    (change : List Int → Except Fault (List Int)) :
    Respects Steers db (db.modifyAccount name fun proxy => do
      let votes ← change proxy.proxiedVsfVotes
      pure { proxy with proxiedVsfVotes := votes }) := by
  refine steers_of_touches (touches_modifyAccount db name [.proxied] ?_) rfl
  intro account changed equal aspect outside
  simp only [bind_eq_ok_iff, pure_eq_ok_iff] at equal
  rcases equal with ⟨_, -, rfl⟩
  cases aspect <;> simp [AccountAspect.read] at outside ⊢

theorem steers_adjustProxiedVotesFrom
    (remaining : Nat)
    (db : Database)
    (name : AccountName)
    (delta : Int) :
    Respects Steers db (adjustProxiedVotesFrom remaining db name delta) := by
  induction remaining generalizing db name with
  | zero =>
      unfold adjustProxiedVotesFrom
      refine .read fun account _ => ?_
      split
      · exact steers_adjustWitnessVotes db _ delta
      · exact .unchanged
  | succ left induction =>
      unfold adjustProxiedVotesFrom
      refine .read fun account _ => ?_
      split
      · exact steers_adjustWitnessVotes db _ delta
      · exact .bind
          (steers_addToProxy db _ fun votes => addProxied votes _ delta)
          fun middle => induction middle _

theorem steers_adjustProxiedDeltasFrom
    (remaining : Nat)
    (db : Database)
    (name : AccountName)
    (deltas : List Int) :
    Respects Steers db (adjustProxiedDeltasFrom remaining db name deltas) := by
  induction remaining generalizing db name with
  | zero =>
      unfold adjustProxiedDeltasFrom
      refine .read fun account _ => ?_
      dsimp only
      split
      · exact .read fun total _ => steers_adjustWitnessVotes db _ total
      · exact .unchanged
  | succ left induction =>
      unfold adjustProxiedDeltasFrom
      refine .read fun account _ => ?_
      dsimp only
      split
      · exact .read fun total _ => steers_adjustWitnessVotes db _ total
      · exact .bind (steers_addToProxy db _ (addProxiedDeltas _ deltas))
          fun middle => induction middle _

theorem onTrack_createVesting
    {name : AccountName}
    {amount shares : Int}
    (done : db.createVesting name amount false = .ok (after, shares))
    (onTrack : db.OnTrack) :
    after.OnTrack := by
  simp only [createVesting, Bool.false_eq_true, if_false, bind_eq_ok_iff,
    pure_eq_ok_iff] at done
  rcases done with
    ⟨_, -, _, -, _, -, changed, change, _, -, _, -, voted, vote, equal⟩
  cases equal
  refine steers_adjustProxiedVotesFrom _ _ _ _ _ vote ?_
  have account : Agrees [.account .shares] db changed := by
    refine touches_modifyAccount db name [.shares] ?_ changed change
    intro account changed equal aspect outside
    simp only [bind_eq_ok_iff, pure_eq_ok_iff] at equal
    rcases equal with ⟨_, -, rfl⟩
    cases aspect <;> simp [AccountAspect.read] at outside ⊢
  have paid := onTrack.of_agrees account rfl
  exact ⟨paid.early, paid.tracked⟩

/-! ## Operations -/

theorem steers_accountWitnessVote
    (op : AccountWitnessVoteOperation)
    (db : Database) :
    Respects Steers db (db.accountWitnessVoteEvaluator op) := by
  have count := fun (state : Database) (change : Nat → Nat) =>
    steers_of_touches (touches_countVotes state op.account change) rfl
  refine .read fun voter _ => .read fun _ _ => .read fun _ _ => ?_
  refine .read fun witness _ => .read fun _ _ => ?_
  split
  · refine .read fun _ _ => .read fun _ _ => ?_
    have added := agrees_witnessVotes db
      (db.witnessVotes.emplace ⟨witness.id, voter.id⟩)
    refine .after ?_ fun onTrack => onTrack.of_agrees added rfl
    exact .bind (steers_adjustWitnessVote _ _ _) fun voted =>
      count voted (increment 16)
  · refine .read fun _ _ => .read fun _ _ => ?_
    refine .bind (steers_adjustWitnessVote db _ _) fun voted => ?_
    refine .bind (count voted (decrement 16)) fun counted => ?_
    exact .ok fun onTrack => ⟨onTrack.early, onTrack.tracked⟩

theorem steers_accountWitnessProxy
    (op : AccountWitnessProxyOperation)
    (db : Database) :
    Respects Steers db (db.accountWitnessProxyEvaluator op) := by
  have setProxy := fun state : Database =>
    steers_of_touches (touches_setProxy state op.account op.proxy) rfl
  refine .read fun _ _ => .read fun _ _ => .read fun _ _ => ?_
  refine .read fun deltas _ => ?_
  refine .bind (steers_adjustProxiedDeltasFrom _ db _ _) fun taken => ?_
  split
  · refine .read fun _ _ => .read fun _ _ => ?_
    refine .bind (steers_of_touches (touches_clearWitnessVotes taken _) rfl) ?_
    refine fun cleared => .bind (setProxy cleared) fun changed => ?_
    exact .read fun _ _ => steers_adjustProxiedDeltasFrom _ changed _ _
  · exact setProxy taken

theorem steers_claimRewardBalance
    (op : ClaimRewardBalanceOperation)
    (db : Database) :
    Respects Steers db (db.claimRewardBalanceEvaluator op) := by
  refine .read fun _ _ => .read fun _ _ => .read fun _ _ => ?_
  refine .read fun _ _ => .read fun _ _ => .read fun _ _ => ?_
  refine .read fun _ _ => ?_
  refine .bind (steers_of_touches (touches_adjustRewardBalance db _ _) rfl) ?_
  intro taken
  refine .bind (steers_of_touches (touches_adjustBalance taken _ _) rfl) ?_
  intro given
  refine .bind (steers_of_touches (touches_modifyAccount given op.account
    [.shares, .rewardShares, .rewardBacking] ?_) rfl) ?_
  · intro account changed equal aspect outside
    simp only [bind_eq_ok_iff, pure_eq_ok_iff] at equal
    rcases equal with ⟨_, -, _, -, _, -, rfl⟩
    cases aspect <;> simp [AccountAspect.read] at outside ⊢
  refine fun moved => .read fun total _ => .read fun fund _ => ?_
  refine .read fun pendingShares _ => .read fun pendingBmt _ => ?_
  exact .after (steers_adjustProxiedVotesFrom _ _ _ _)
    fun onTrack => ⟨onTrack.early, onTrack.tracked⟩

theorem onTrack_accountCreateWithDelegation
    {op : AccountCreateWithDelegationOperation}
    (done : db.accountCreateWithDelegationEvaluator op = .ok after)
    (onTrack : db.OnTrack) :
    after.OnTrack := by
  rcases accountCreateWithDelegation_cases done with
    ⟨debited, accounts, authorities, delegations, _, touched, -, vested⟩
  have paid := onTrack.of_agrees touched rfl
  have opened : { debited with
      accounts := accounts
      authorities := authorities
      delegations := delegations }.OnTrack :=
    ⟨paid.early, paid.tracked⟩
  rcases vested with rfl | ⟨_, _, vest⟩
  · exact opened
  · exact onTrack_createVesting vest opened

/-- A new witness waits without an end, and its lap has not begun. -/
theorem tracked_new
    (early : time ≤ maxUint128)
    (new : witness.votes = 0 ∧ witness.virtualLastUpdate = 0 ∧
      witness.virtualPosition = 0 ∧
        witness.virtualScheduledTime = maxUint128) :
    Tracked time witness := by
  rcases new with ⟨votes, updated, position, scheduled⟩
  constructor
  case updated => exact updated ▸ Nat.zero_le _
  case placed => exact position ▸ Nat.zero_le _
  case ahead => exact fun _ => scheduled ▸ early
  case due =>
    intro _
    rw [restOfLap, votes, updated, position, scheduled]
    decide
  case current => exact fun negative => absurd votes (Int.ne_of_lt negative)
  case bounded =>
    rw [votes]
    decide

theorem onTrack_witnessUpdate
    {op : WitnessUpdateOperation}
    (done : db.witnessUpdateEvaluator op = .ok after)
    (onTrack : db.OnTrack) :
    after.OnTrack := by
  rcases witnessUpdate_cases done with updated | ⟨free, rfl⟩
  · exact onTrack.of_agrees (agrees_updateWitness updated) rfl
  · refine ⟨onTrack.early, ?_⟩
    intro name witness found
    rw [Register.find?_emplace] at found
    split at found
    · cases found
      exact tracked_new onTrack.early ⟨rfl, rfl, rfl, rfl⟩
    · exact onTrack.tracked name witness found

theorem onTrack_applyOperation
    {op : Operation}
    (done : db.applyOperation ext op = .ok after)
    (onTrack : db.OnTrack) :
    after.OnTrack := by
  have agrees := touches_applyOperation ext db op after done
  cases op with
  | witnessUpdate op => exact onTrack_witnessUpdate done onTrack
  | accountWitnessVote op =>
      exact steers_accountWitnessVote op db after done onTrack
  | accountWitnessProxy op =>
      exact steers_accountWitnessProxy op db after done onTrack
  | claimRewardBalance op =>
      exact steers_claimRewardBalance op db after done onTrack
  | accountCreateWithDelegation op =>
      exact onTrack_accountCreateWithDelegation done onTrack
  | _ => exact onTrack.of_agrees agrees rfl

/-! ## Steps which are no round -/

theorem steers_takeVotingRights
    (entry : Nat × DeclineVotingRightsRequestObject)
    (db : Database) :
    Respects Steers db (takeVotingRights entry db) := by
  refine .read fun _ _ => .read fun deltas _ => ?_
  refine .bind (steers_adjustProxiedDeltasFrom _ db _ _) fun taken => ?_
  refine .bind (steers_of_touches (touches_clearWitnessVotes taken _) rfl) ?_
  intro cleared
  refine .bind (steers_of_touches (touches_modifyAccount_pure cleared _
    [.canVote, .proxy] ?_) rfl) ?_
  · intro account aspect outside
    cases aspect <;> simp [AccountAspect.read] at outside ⊢
  · exact fun changed => .ok fun onTrack => ⟨onTrack.early, onTrack.tracked⟩

theorem onTrack_processCommentCashout
    (done : db.processCommentCashout ext = .ok after)
    (onTrack : db.OnTrack) :
    after.OnTrack := by
  have always : EachPayout ext (fun _ _ _ _ => True) db :=
    eachPayout_of_forall (fun _ _ _ _ => trivial) db
  refine processCommentCashout_invariant OnTrack ?_ ?_ always done onTrack
  · exact fun before after funded start => start.of_agrees funded rfl
  · intro state id recentClaims rewardBalance next claimed _ cashed start
    rcases cashout_cases cashed with paid | ⟨ready, vested, _, _, _, paid⟩
    · exact start.of_agrees paid rfl
    · rcases paid with ⟨before, create, closed, -⟩
      have vest := onTrack_createVesting create (start.of_agrees before rfl)
      exact vest.of_agrees closed rfl

theorem onTrack_runStep
    {header : BlockHeader}
    {step : BlockStep}
    (other : step ≠ .updateWitnessSchedule)
    (done : db.runStep ext header step = .ok after)
    (onTrack : db.OnTrack) :
    after.OnTrack := by
  have agrees := touches_runStep ext header db step after done
  cases step with
  | updateWitnessSchedule => exact absurd rfl other
  | processCommentCashout => exact onTrack_processCommentCashout done onTrack
  | processDeclineVotingRights =>
      exact Respects.drain _ (fun entry state =>
        steers_takeVotingRights entry state) after done onTrack
  | _ => exact onTrack.of_agrees agrees rfl

end Database

end BMChain.State
