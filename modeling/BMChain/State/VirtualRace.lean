import BMChain.State.TallyBound
import BMChain.State.VirtualTime

/-!
# The rounds of the virtual race

A round advances the virtual time to the end of the lap of the last witness
which it passes.  Whom it has not passed is not due before, since the race is
run along the order of the due times; whom it has passed starts a new lap, and
when the end of one does not fit, all start anew at time zero.
-/

namespace BMChain.State

open BMChain.Foundation BMChain.Protocol Std

variable {name : AccountName} {witness kept : WitnessObject} {ext : External}

variable {View : Type} {first second : WitnessObject} {header : BlockHeader}

namespace Database

/-! ## A round -/

/-- The race passes the front of the order. -/
theorem runRace_processed
    (taken : List Nat)
    (witnesses : List WitnessObject)
    (count : Nat) :
    ∃ rest, witnesses = (runRace taken witnesses count).processed ++ rest := by
  induction witnesses generalizing count with
  | nil => exact ⟨[], rfl⟩
  | cons witness others induction =>
      unfold runRace
      split
      · exact ⟨witness :: others, rfl⟩
      · rcases induction (if witness.signingKey ≠ 0 ∧ witness.id ∉ taken then
          count + 1 else count) with ⟨rest, listed⟩
        refine ⟨rest, ?_⟩
        rw [List.cons_append]
        exact congrArg (witness :: ·) listed

/-- No witness is due before one which comes earlier in the order. -/
theorem pairwise_witnessesBySchedule
    (db : Database) :
    db.witnessesBySchedule.Pairwise fun first second =>
      first.virtualScheduledTime ≤ second.virtualScheduledTime := by
  have total : Std.Total fun first second : WitnessObject =>
      first.virtualScheduledTime < second.virtualScheduledTime ∨
        (first.virtualScheduledTime = second.virtualScheduledTime ∧
          first.id ≤ second.id) :=
    ⟨fun first second => by omega⟩
  have transitive : IsTrans WitnessObject fun first second =>
      first.virtualScheduledTime < second.virtualScheduledTime ∨
        (first.virtualScheduledTime = second.virtualScheduledTime ∧
          first.id ≤ second.id) :=
    ⟨fun first second third one two => by omega⟩
  refine (List.pairwise_insertionSort _ _).imp ?_
  intro first second ordered
  omega

/-- What the new laps leave in the row of a name. -/
def Restarted (time : Nat) (witnesses : List WitnessObject)
    (name : AccountName) (row kept : WitnessObject) : Prop :=
  (∀ witness ∈ witnesses, witness.owner ≠ name) ∧ kept = row ∨
    ∃ witness ∈ witnesses, witness.owner = name ∧
      time ≤ addUint128 time (maxUint128 / uint128 (witness.votes + 1)) ∧
        kept = { row with
          virtualPosition := 0
          virtualLastUpdate := time
          virtualScheduledTime :=
            addUint128 time (maxUint128 / uint128 (witness.votes + 1)) }

theorem restarted_startLaps
    {time : Nat}
    {witnesses : List WitnessObject}
    {db after : Database}
    (done : startLaps time witnesses db = .ok (after, false))
    (found : after.witnesses.find? name = some kept) :
    ∃ row, db.witnesses.find? name = some row ∧
      Restarted time witnesses name row kept := by
  induction witnesses generalizing db with
  | nil =>
      cases done
      exact ⟨kept, found, .inl ⟨fun _ none => (List.not_mem_nil none).elim,
        rfl⟩⟩
  | cons witness rest induction =>
      simp only [startLaps, divideUint128, bind_eq_ok_iff, pure_eq_ok_iff]
        at done
      rcases done with ⟨lap, ⟨_, -, rfl⟩, done⟩
      split at done
      case isTrue => cases done
      case isFalse fits =>
        simp only [modifyWitness, modifyNamed, bind_eq_ok_iff,
          orFault_eq_ok_iff, pure_eq_ok_iff] at done
        rcases done with ⟨started, ⟨_, ⟨old, there, _, rfl, rfl⟩, rfl⟩, done⟩
        rcases induction done with ⟨row, written, later⟩
        rw [Register.find?_set there] at written
        split at written
        case isTrue same =>
          cases written
          refine ⟨old, same ▸ there, .inr ?_⟩
          rcases later with ⟨-, rfl⟩ | ⟨other, member, owner, ahead, rfl⟩
          · exact ⟨witness, List.mem_cons_self, same, Nat.le_of_not_lt fits,
              rfl⟩
          · exact ⟨other, List.mem_cons_of_mem _ member, owner, ahead, rfl⟩
        case isFalse different =>
          refine ⟨row, written, ?_⟩
          rcases later with ⟨none, rfl⟩ | ⟨other, member, restarted⟩
          · refine .inl ⟨?_, rfl⟩
            exact List.forall_mem_cons.2 ⟨different, none⟩
          · exact .inr ⟨other, List.mem_cons_of_mem _ member, restarted⟩

/-- A row after the reset of the race. -/
def freshLap (witness : WitnessObject) : WitnessObject :=
  { witness with
    virtualPosition := 0
    virtualLastUpdate := 0
    virtualScheduledTime := maxUint128 / uint128 (witness.votes + 1) }

theorem freshLap_foldlM
    {names : List (AccountName × WitnessObject)}
    {db after : Database}
    (done : names.foldlM
      (fun (db : Database) entry =>
        db.modifyWitness entry.1 fun witness => do
          let lap ← divideUint128 maxUint128 (uint128 (witness.votes + 1))
          pure { witness with
            virtualPosition := 0
            virtualLastUpdate := 0
            virtualScheduledTime := lap }) db = .ok after)
    (found : after.witnesses.find? name = some kept) :
    ∃ row, db.witnesses.find? name = some row ∧
      (name ∈ names.map Prod.fst ∧ kept = freshLap row ∨
        name ∉ names.map Prod.fst ∧ kept = row) := by
  induction names generalizing db with
  | nil =>
      cases done
      exact ⟨kept, found, .inr ⟨List.not_mem_nil, rfl⟩⟩
  | cons entry rest induction =>
      rw [List.foldlM_cons, bind_eq_ok_iff] at done
      rcases done with ⟨started, start, done⟩
      simp only [modifyWitness, modifyNamed, divideUint128, bind_eq_ok_iff,
        orFault_eq_ok_iff, pure_eq_ok_iff] at start
      rcases start with ⟨_, ⟨old, there, _, ⟨_, ⟨_, -, rfl⟩, rfl⟩, rfl⟩, rfl⟩
      rcases induction done with ⟨row, written, later⟩
      rw [Register.find?_set there] at written
      split at written
      case isTrue same =>
        cases written
        refine ⟨old, same ▸ there, .inl ⟨?_, ?_⟩⟩
        · rw [← same]
          exact List.mem_cons_self
        · rcases later with ⟨-, rfl⟩ | ⟨-, rfl⟩
          · rfl
          · rfl
      case isFalse different =>
        refine ⟨row, written, ?_⟩
        rw [List.map_cons, List.mem_cons, or_iff_right (Ne.symm different)]
        exact later

theorem freshLap_resetVirtualScheduleTime
    {db after : Database}
    (done : db.resetVirtualScheduleTime = .ok after)
    (found : after.witnesses.find? name = some kept) :
    ∃ row, db.witnesses.find? name = some row ∧ kept = freshLap row := by
  rcases freshLap_foldlM done found with ⟨row, there, renewed⟩
  refine ⟨row, there, ?_⟩
  rcases renewed with ⟨-, fresh⟩ | ⟨unlisted, -⟩
  · exact fresh
  · exact absurd (List.mem_map_of_mem (Register.mem_entries_iff.2 there))
      unlisted

/-- Every tally is a number which the evaluators may leave. -/
def TalliesCounted (db : Database) : Prop :=
  ∀ name witness, db.witnesses.find? name = some witness → 0 ≤ witness.votes

/-- A row at the start of a lap. -/
theorem tracked_lapStart
    {time : Nat}
    (nonneg : 0 ≤ witness.votes)
    (bounded : witness.votes < 2 ^ 63)
    (early : time ≤ maxUint128)
    (position : witness.virtualPosition = 0)
    (updated : witness.virtualLastUpdate = time)
    (scheduled : witness.virtualScheduledTime =
      addUint128 time (maxUint128 / uint128 (witness.votes + 1)))
    (fits : time ≤
      addUint128 time (maxUint128 / uint128 (witness.votes + 1))) :
    Tracked time witness := by
  have speed : uint128 (witness.votes + 1) = witness.votes.toNat + 1 := by
    rw [uint128_of_nonneg (by omega) (by omega)]
    omega
  have due : addUint128 time (maxUint128 / uint128 (witness.votes + 1)) =
      min maxUint128 (time + restOfLap witness) := by
    have ended := lapEnd_eq early
      (Nat.div_le_self maxUint128 (uint128 (witness.votes + 1)))
    rw [if_neg (Nat.not_lt.2 fits)] at ended
    rw [ended, restOfLap, position, speed, Nat.sub_zero]
  constructor
  case updated => exact Nat.le_of_eq updated
  case placed => exact position ▸ Nat.zero_le _
  case ahead => exact fun _ => scheduled ▸ fits
  case due =>
    intro _
    rw [scheduled, due, updated]
  case current => exact fun negative => absurd nonneg (Int.not_le.2 negative)
  case bounded => exact bounded

theorem LookAlike.row
    {view : WitnessObject → View}
    {before after : Database}
    (alike : LookAlike view before after)
    {row : WitnessObject}
    (found : after.witnesses.find? name = some row) :
    ∃ old, before.witnesses.find? name = some old ∧ view old = view row := by
  have same := alike name
  rw [found, Option.map_some] at same
  exact Option.map_eq_some_iff.1 same.symm

theorem LookAlike.symm
    {view : WitnessObject → View}
    {before after : Database}
    (alike : LookAlike view before after) :
    LookAlike view after before :=
  fun name => (alike name).symm

/-- What rows with one place in the race have in common. -/
theorem racing_eq
    (same : racing first = racing second) :
    first.owner = second.owner ∧ first.votes = second.votes ∧
      first.virtualScheduledTime = second.virtualScheduledTime := by
  have owner := congrArg WitnessObject.owner same
  have votes := congrArg WitnessObject.votes same
  have due := congrArg WitnessObject.virtualScheduledTime same
  exact ⟨owner, votes, due⟩

theorem Tracked.of_racing
    {time : Nat}
    (tracked : Tracked time first)
    (same : racing first = racing second) :
    Tracked time second := by
  have raced : Tracked time (racing first) :=
    ⟨tracked.updated, tracked.placed, tracked.ahead, tracked.due,
      tracked.current, tracked.bounded⟩
  rw [same] at raced
  exact ⟨raced.updated, raced.placed, raced.ahead, raced.due, raced.current,
    raced.bounded⟩

/-- A witness which is not due before a later time is still on track then. -/
theorem Tracked.later
    {time later : Nat}
    (tracked : Tracked time witness)
    (forward : time ≤ later)
    (nonneg : 0 ≤ witness.votes)
    (waits : later ≤ witness.virtualScheduledTime) :
    Tracked later witness :=
  ⟨Nat.le_trans tracked.updated forward, tracked.placed, fun _ => waits,
    tracked.due, fun negative => absurd nonneg (Int.not_le.2 negative),
    tracked.bounded⟩

namespace RoundTrace

variable {db after : Database} (trace : RoundTrace db after)

/-- The time to which a round advances. -/
def time : Nat :=
  (trace.race.processed.getLast?.map WitnessObject.virtualScheduledTime).getD
    db.schedule.currentVirtualTime

include trace

theorem virtualTime_eq :
    after.schedule.currentVirtualTime =
      if trace.overflow then 0 else trace.time :=
  (scheduled_updateMedianWitnessProps trace.written).2.2.1

theorem witnesses_eq :
    after.witnesses = trace.raced.witnesses := by
  refine (scheduled_updateMedianWitnessProps trace.written).2.2.2.trans ?_
  show (trace.raced.countHardforkVotes trace.scheduled).witnesses = _
  unfold countHardforkVotes
  split <;> rfl

theorem mined_owned
    (owned : db.WitnessesOwned) :
    trace.mined.WitnessesOwned := by
  intro name witness found
  rcases trace.alike.row found with ⟨old, there, same⟩
  rw [← (racing_eq same).1]
  exact owned name old there

/-- The rows which the race looks at are on track. -/
theorem tracked_listed
    (onTrack : db.OnTrack)
    (listed : witness ∈ trace.mined.witnessesBySchedule) :
    ∃ name, trace.mined.witnesses.find? name = some witness ∧
      Tracked db.schedule.currentVirtualTime witness := by
  have member : witness ∈ trace.mined.witnessRows :=
    (List.perm_insertionSort _ _).mem_iff.1 listed
  rcases List.mem_map.1 member with ⟨⟨name, row⟩, entry, rfl⟩
  have found := Register.mem_entries_iff.1 entry
  rcases trace.alike.row found with ⟨old, there, same⟩
  exact ⟨name, found, (onTrack.tracked name old there).of_racing same⟩

theorem listed_eq :
    ∃ rest, trace.mined.witnessesBySchedule =
      trace.race.processed ++ rest := by
  rw [trace.raceRun]
  exact runRace_processed _ _ _

/-- A round advances the virtual time to that of a witness, or not at all. -/
theorem time_bounds
    (onTrack : db.OnTrack)
    (counted : db.TalliesCounted) :
    db.schedule.currentVirtualTime ≤ trace.time ∧ trace.time ≤ maxUint128 := by
  unfold time
  cases last : trace.race.processed.getLast? with
  | none => exact ⟨Nat.le_refl _, onTrack.early⟩
  | some witness =>
      rcases trace.listed_eq with ⟨rest, listed⟩
      have member : witness ∈ trace.mined.witnessesBySchedule := by
        rw [listed]
        exact List.mem_append_left _ (List.mem_of_getLast? last)
      rcases trace.tracked_listed onTrack member with ⟨name, found, tracked⟩
      rcases trace.alike.row found with ⟨old, there, same⟩
      have nonneg : 0 ≤ witness.votes :=
        (racing_eq same).2.1 ▸ counted name old there
      refine ⟨tracked.ahead nonneg, ?_⟩
      show witness.virtualScheduledTime ≤ maxUint128
      rw [tracked.due nonneg]
      exact Nat.min_le_left _ _

/-- Whom the race has not passed is not due before the new time. -/
theorem time_le
    (onTrack : db.OnTrack)
    (counted : db.TalliesCounted)
    (listed : witness ∈ trace.mined.witnessesBySchedule)
    (free : witness ∉ trace.race.processed) :
    trace.time ≤ witness.virtualScheduledTime := by
  rcases trace.listed_eq with ⟨rest, split⟩
  have sorted := pairwise_witnessesBySchedule trace.mined
  unfold time
  cases last : trace.race.processed.getLast? with
  | none =>
      rcases trace.tracked_listed onTrack listed with ⟨name, found, tracked⟩
      rcases trace.alike.row found with ⟨old, there, same⟩
      exact tracked.ahead ((racing_eq same).2.1 ▸ counted name old there)
  | some leader =>
      rw [split] at listed sorted
      have later := (List.mem_append.1 listed).resolve_left free
      exact (List.pairwise_append.1 sorted).2.2 leader
        (List.mem_of_getLast? last) witness later

theorem lapped_votes :
    LookAlike WitnessObject.votes db trace.lapped := by
  have marked : LookAlike WitnessObject.votes db trace.marked :=
    trace.markedAlike.comp WitnessObject.votes
  exact marked.trans
    (congrFun (agrees_startLaps trace.laps (.witness .votes) (by decide)))

/-- A round which does not overflow advances the race. -/
theorem onTrack_advanced
    (owned : db.WitnessesOwned)
    (counted : db.TalliesCounted)
    (onTrack : db.OnTrack)
    (fits : trace.overflow = false) :
    after.OnTrack := by
  have clock := trace.virtualTime_eq
  rcases trace.time_bounds onTrack counted with ⟨forward, early⟩
  rw [fits, if_neg Bool.false_ne_true] at clock
  have same : trace.lapped = trace.raced := by
    have reset := trace.reset
    rw [fits] at reset
    exact Except.ok.inj reset
  constructor
  case early =>
    rw [clock]
    exact early
  case tracked =>
    intro name kept found
    rw [clock]
    rw [trace.witnesses_eq, ← same] at found
    have laps := trace.laps
    rw [fits] at laps
    rcases restarted_startLaps laps found with ⟨row, marked, restarted⟩
    rcases trace.markedAlike.row marked with ⟨old, there, alike⟩
    rcases trace.alike.symm.row there with ⟨listed, mined, look⟩
    have member : listed ∈ trace.mined.witnessesBySchedule := by
      refine (List.perm_insertionSort _ _).mem_iff.2 ?_
      exact List.mem_map.2 ⟨(name, listed), Register.mem_entries_iff.2 mined,
        rfl⟩
    have owner := trace.mined_owned owned name listed mined
    have tracked := (onTrack.tracked name old there).of_racing alike
    have nonneg : 0 ≤ row.votes :=
      (racing_eq alike).2.1 ▸ counted name old there
    rcases restarted with ⟨free, rfl⟩ | ⟨witness, passed, named, ahead, rfl⟩
    · refine tracked.later forward nonneg ?_
      rw [← (racing_eq (look.trans alike)).2.2]
      exact trace.time_le onTrack counted member
        fun passed => free listed passed owner
    · have inOrder : witness ∈ trace.mined.witnessesBySchedule := by
        rcases trace.listed_eq with ⟨rest, split⟩
        rw [split]
        exact List.mem_append_left _ passed
      rcases trace.tracked_listed onTrack inOrder with ⟨other, placed, -⟩
      have place := trace.mined_owned owned other witness placed
      rw [named] at place
      rw [← place, mined, Option.some.injEq] at placed
      have votes := (racing_eq (look.trans alike)).2.1
      rw [placed] at votes
      rw [votes] at ahead ⊢
      exact tracked_lapStart nonneg tracked.bounded early rfl rfl rfl ahead

/-- A round which overflows starts the race anew. -/
theorem onTrack_reset
    (counted : db.TalliesCounted)
    (onTrack : db.OnTrack)
    (wraps : trace.overflow = true) :
    after.OnTrack ∧ trace.lapped.resetVirtualScheduleTime = .ok trace.raced := by
  have clock := trace.virtualTime_eq
  have reset := trace.reset
  rw [wraps, if_pos rfl] at clock reset
  refine ⟨⟨?_, ?_⟩, reset⟩
  case refine_1 =>
    rw [clock]
    exact Nat.zero_le _
  case refine_2 =>
    intro name kept found
    rw [clock]
    rw [trace.witnesses_eq] at found
    rcases freshLap_resetVirtualScheduleTime reset found with ⟨row, lapped, rfl⟩
    rcases trace.lapped_votes.row lapped with ⟨old, there, votes⟩
    have nonneg : 0 ≤ row.votes := votes ▸ counted name old there
    have bounded : row.votes < 2 ^ 63 :=
      votes ▸ (onTrack.tracked name old there).bounded
    refine tracked_lapStart nonneg bounded (Nat.zero_le _) rfl rfl ?_
      (Nat.zero_le _)
    have small := Nat.div_le_self maxUint128 (uint128 (row.votes + 1))
    show maxUint128 / uint128 (row.votes + 1) =
      (0 + maxUint128 / uint128 (row.votes + 1)) % 2 ^ 128
    rw [Nat.zero_add, Nat.mod_eq_of_lt (Nat.lt_of_le_of_lt small (by decide))]

end RoundTrace

/-! ## Tallies -/

/-- A tally is a sum of weights, and no weight is negative. -/
theorem counted_of_kept
    {db : Database}
    (votes : db.VotesKept)
    (backed : db.SharesBacked) :
    db.TalliesCounted := by
  intro name witness found
  have carries := carries_of_kept votes.proxies votes.tallies.toVotersKept
  have named : db.witnessIdOf name = some witness.id := by
    rw [witnessIdOf, found]
    rfl
  have tallied := votes.tallies.tallied name witness.id named
  have own : db.votesFor name = witness.votes := by
    rw [votesFor, found]
    rfl
  rw [← own, tallied]
  refine Finset.sum_nonneg fun other _ => ?_
  exact Int.mul_nonneg (voteCount_nonneg db _ _)
    (carries.weight_nonneg backed other)

/-- What the race rests on. -/
structure RaceKept (db : Database) : Prop where
  votes : db.VotesKept
  backed : db.SharesBacked
  formed : db.ScheduleWellFormed
  onTrack : db.OnTrack

theorem RaceKept.counted
    {db : Database}
    (kept : db.RaceKept) :
    db.TalliesCounted :=
  counted_of_kept kept.votes kept.backed

/-- The virtual race is reset. -/
def RaceReset (after : Database) : Prop :=
  ∃ lapped raced, resetVirtualScheduleTime lapped = .ok raced ∧
    after.witnesses = raced.witnesses ∧ after.schedule.currentVirtualTime = 0

/-- A round keeps the race right, and turns the time back only by a reset. -/
theorem onTrack_updateWitnessSchedule
    {db after : Database}
    (done : db.updateWitnessSchedule = .ok after)
    (kept : db.RaceKept) :
    after.OnTrack ∧
      (db.schedule.currentVirtualTime ≤ after.schedule.currentVirtualTime ∨
        after.RaceReset) := by
  unfold updateWitnessSchedule at done
  split at done
  case isFalse =>
    cases done
    exact ⟨kept.onTrack, .inl (Nat.le_refl _)⟩
  case isTrue =>
    rcases roundTrace_of_updateWitnessSchedule4 done with ⟨trace⟩
    have clock := trace.virtualTime_eq
    cases overflow : trace.overflow with
    | false =>
        refine ⟨trace.onTrack_advanced kept.formed.owned kept.counted
          kept.onTrack overflow, .inl ?_⟩
        rw [clock, overflow, if_neg Bool.false_ne_true]
        exact (trace.time_bounds kept.onTrack kept.counted).1
    | true =>
        rcases trace.onTrack_reset kept.counted kept.onTrack overflow with
          ⟨onTrack, reset⟩
        refine ⟨onTrack, .inr ⟨trace.lapped, trace.raced, reset,
          trace.witnesses_eq, ?_⟩⟩
        rw [clock, overflow, if_pos rfl]

/-! ## Runs -/

/-- The operations of runs in which no negative number of shares is minted. -/
def RaceOperation (db : Database) (op : Operation) : Prop :=
  VotesReadably db op ∧ MintsShares db op

/-- The steps of such runs, before the initial shares are burned. -/
def RaceStep (ext : External) (header : BlockHeader) (db : Database)
    (which : BlockStep) : Prop :=
  BeforeBurn header db which ∧ StepMintsShares ext db which

theorem race_genesis :
    initGenesis.RaceKept := by
  refine ⟨votes_genesis, ⟨?_, ?_⟩, formed_genesis, Nat.zero_le _, ?_⟩
  case refine_1 =>
    intro name
    cases found : initGenesis.accounts.find? name with
    | none =>
        rw [held, found]
        exact Int.le_refl 0
    | some account =>
        rw [held_of_find found]
        exact genesis_account (fun row => 0 ≤ row.vestingShares)
          (by decide +kernel) found
  case refine_2 => exact total_iff_surplus.2 (by decide +kernel)
  case refine_3 =>
    have new : ∀ entry ∈ initGenesis.witnesses.entries,
        entry.2.votes = 0 ∧ entry.2.virtualLastUpdate = 0 ∧
          entry.2.virtualPosition = 0 ∧
            entry.2.virtualScheduledTime = maxUint128 := by
      decide +kernel
    intro name witness found
    exact tracked_new (Nat.zero_le _)
      (new (name, witness) (Register.mem_entries_iff.2 found))

theorem race_beginBlock
    {db after : Database}
    (begun : db.beginBlock header = .ok after)
    (kept : db.RaceKept) :
    after.RaceKept := by
  have agrees := touches_beginBlock db header after begun
  exact ⟨⟨kept.votes.proxies.of_agrees agrees rfl,
    kept.votes.tallies.of_agrees agrees rfl⟩, kept.backed.of_agrees agrees rfl,
    kept.formed.of_agrees agrees rfl, kept.onTrack.of_agrees agrees rfl⟩

theorem race_applyOperation
    {op : Operation}
    {db after : Database}
    (allowed : RaceOperation db op)
    (valid : op.validate ext = .ok ())
    (done : db.applyOperation ext op = .ok after)
    (kept : db.RaceKept) :
    after.RaceKept :=
  ⟨votes_applyOperation allowed.1 valid done kept.votes,
    backed_applyOperation allowed.2 valid done kept.backed,
    formed_applyOperation done kept.formed,
    onTrack_applyOperation done kept.onTrack⟩

theorem race_runStep
    {which : BlockStep}
    {db after : Database}
    (allowed : RaceStep ext header db which)
    (done : db.runStep ext header which = .ok after)
    (kept : db.RaceKept) :
    after.RaceKept := by
  refine ⟨votes_runStep allowed.1 done kept.votes,
    backed_runStep allowed.1 allowed.2 done kept.backed,
    formed_runStep done kept.formed, ?_⟩
  by_cases round : which = .updateWitnessSchedule
  · subst round
    exact (onTrack_updateWitnessSchedule done kept).1
  · exact onTrack_runStep round done kept.onTrack

/--
Every witness was last updated at a virtual time which has come and is due at
one which has not passed, and its place at the virtual time, as a change of
its votes computes it, fits into 128 bits.
-/
structure RaceConsistent (db : Database) : Prop where
  updated : ∀ name witness, db.witnesses.find? name = some witness →
    witness.virtualLastUpdate ≤ db.schedule.currentVirtualTime
  due : ∀ name witness, db.witnesses.find? name = some witness →
    db.schedule.currentVirtualTime ≤ witness.virtualScheduledTime
  fits : ∀ name witness, db.witnesses.find? name = some witness →
    witness.virtualPosition + witness.votes *
        (db.schedule.currentVirtualTime - witness.virtualLastUpdate) ≤
      (2 ^ 128 - 1 : Int)
  computed : ∀ name witness, db.witnesses.find? name = some witness →
    (addUint128 witness.virtualPosition
        (uint128 witness.votes *
          subUint128 db.schedule.currentVirtualTime
            witness.virtualLastUpdate % 2 ^ 128) : Int) =
      witness.virtualPosition + witness.votes *
        (db.schedule.currentVirtualTime - witness.virtualLastUpdate)

theorem RaceKept.consistent
    {db : Database}
    (kept : db.RaceKept) :
    db.RaceConsistent := by
  have place : ∀ name witness, db.witnesses.find? name = some witness →
      (witness.virtualPosition + witness.votes *
          (db.schedule.currentVirtualTime - witness.virtualLastUpdate) : Int) =
        ((witness.virtualPosition + witness.votes.toNat *
          (db.schedule.currentVirtualTime - witness.virtualLastUpdate) : Nat) :
            Int) := by
    intro name witness found
    have tracked := kept.onTrack.tracked name witness found
    have nonneg := kept.counted name witness found
    rw [Nat.cast_add, Nat.cast_mul, Int.toNat_of_nonneg nonneg,
      Nat.cast_sub tracked.updated]
  constructor
  case updated =>
    exact fun name witness found =>
      (kept.onTrack.tracked name witness found).updated
  case due =>
    exact fun name witness found =>
      (kept.onTrack.tracked name witness found).ahead
        (kept.counted name witness found)
  case fits =>
    intro name witness found
    rw [place name witness found]
    have inside := (kept.onTrack.tracked name witness found).place_le
      (kept.counted name witness found)
    exact Int.ofNat_le.2 inside
  case computed =>
    intro name witness found
    rw [place name witness found]
    have moved := (kept.onTrack.tracked name witness found).moved_eq
      kept.onTrack.early
    exact congrArg Int.ofNat moved.1

end Database

theorem race_visited
    {db : Database}
    (visited : Visited ext Database.RaceOperation (Database.RaceStep ext) db) :
    db.RaceKept := by
  refine visited.invariant Database.RaceKept Database.race_genesis ?_ ?_ ?_
  · exact fun state header after begun => Database.race_beginBlock begun
  · exact fun state op after allowed valid done =>
      Database.race_applyOperation allowed valid done
  · exact fun header state which after allowed done =>
      Database.race_runStep allowed done

/--
The virtual race is consistent in all states which votes, changes of proxies,
rounds and the other operations and steps lead to, and the virtual time is
turned back only by a round which resets the race.
-/
theorem virtual_time_consistent
    {ext : External}
    {db : Database}
    (visited : Visited ext Database.RaceOperation (Database.RaceStep ext) db) :
    db.RaceConsistent ∧
      (∀ op after, db.applyOperation ext op = .ok after →
        after.schedule.currentVirtualTime = db.schedule.currentVirtualTime) ∧
      ∀ header which after, Database.RaceStep ext header db which →
        db.runStep ext header which = .ok after →
          after.RaceConsistent ∧
            (db.schedule.currentVirtualTime ≤
                after.schedule.currentVirtualTime ∨
              which = .updateWitnessSchedule ∧ after.RaceReset) := by
  have kept := race_visited visited
  refine ⟨kept.consistent, ?_, ?_⟩
  · intro op after done
    have agrees := Database.touches_applyOperation ext db op after done
    have same : Field.read .schedule after = Field.read .schedule db := by
      refine agrees.read_eq ?_ (List.mem_singleton.2 rfl)
      cases op <;> rfl
    exact congrArg WitnessScheduleObject.currentVirtualTime same
  · intro header which after allowed done
    have next := Database.race_runStep allowed done kept
    refine ⟨next.consistent, ?_⟩
    by_cases round : which = .updateWitnessSchedule
    · subst round
      rcases (Database.onTrack_updateWitnessSchedule done kept).2 with
        forward | reset
      · exact .inl forward
      · exact .inr ⟨rfl, reset⟩
    · left
      have agrees := Database.touches_runStep ext header db which after done
      have same : Field.read .schedule after = Field.read .schedule db := by
        refine agrees.read_eq ?_ (List.mem_singleton.2 rfl)
        cases which with
        | updateWitnessSchedule => exact absurd rfl round
        | _ => rfl
      exact Nat.le_of_eq
        (congrArg WitnessScheduleObject.currentVirtualTime same).symm

/-- A vote of an account of genesis. -/
def sampleWitnessVote : Operation :=
  .accountWitnessVote
    { account := initMinerName
      witness := initMinerName
      approve := true }

/-- After a vote, and after the round which follows it. -/
theorem virtual_time_consistent_voted :
    ∃ voted after,
      initGenesis.applyOperation plainExternal sampleWitnessVote = .ok voted ∧
        voted.updateWitnessSchedule = .ok after ∧
          voted.RaceConsistent ∧ after.RaceConsistent := by
  have ran : ((initGenesis.applyOperation plainExternal sampleWitnessVote).bind
      fun voted => voted.updateWitnessSchedule).isOk = true := by
    decide +kernel
  rcases exists_of_isOk ran with ⟨after, both⟩
  rcases (bind_eq_ok_iff _ _ _).1 both with ⟨voted, done, round⟩
  have visited : Visited plainExternal Database.RaceOperation
      (Database.RaceStep plainExternal) voted :=
    .operation sampleWitnessVote .genesis
      ⟨⟨by unfold Database.NullSilent; decide, trivial⟩, trivial⟩ (by decide) done
  have consistent := virtual_time_consistent visited
  have next := consistent.2.2
    { timestamp := genesisTime
      witness := initMinerName
      signee := 0
      previous := .zero }
    .updateWitnessSchedule after ⟨trivial, trivial⟩ round
  exact ⟨voted, after, done, round, consistent.1, next.1⟩

/-! ## A proxy which cannot be read -/

/-- Twenty names. -/
def crowdNames : List AccountName :=
  (List.range 20).map fun place =>
    String.ofList ['a', 'a', 'a', Char.ofNat (97 + place)]

/-- A new account with a key. -/
def crowdAccount (name : AccountName) : Operation :=
  let authority : Authority :=
    { weightThreshold := 1, accountAuths := [], keyAuths := [(1, 1)] }
  .accountCreate
    { fee := bmt 100000
      creator := initMinerName
      newAccountName := name
      owner := authority
      active := authority
      posting := authority
      memoKey := 1
      jsonMetadata := [] }

/-- A vote of the account `devs`. -/
def devsChoice (approve : Bool) (witness : AccountName) : Operation :=
  .accountWitnessVote
    { account := "devs", witness := witness, approve := approve }

/-- Two votes which are taken back after the proxy has taken their shares. -/
def hiddenVotes : List Operation :=
  crowdNames.map crowdAccount ++ ("devs" :: crowdNames).map crowdWitness ++
    ["aaaa", "aaab"].map (devsChoice true) ++ [hiddenProxy] ++
      ["aaaa", "aaab"].map (devsChoice false)

/--
Two witnesses are left with negative votes.  A round moves the virtual time
past the second one, whose place then wraps around below zero.
-/
theorem virtual_time_wraps :
    ∃ after witness,
      Visited plainExternal (fun _ _ => True) (fun _ _ _ => True) after ∧
        after.witnesses.find? "aaab" = some witness ∧
          witness.virtualPosition + witness.votes *
              (after.schedule.currentVirtualTime -
                witness.virtualLastUpdate) = -100000000 ∧
            ¬after.RaceConsistent := by
  have ran : (((hiddenVotes.map Event.operation).foldlM
      (Database.step plainExternal) initGenesis).bind fun voted => do
        let after ← voted.updateWitnessSchedule
        let witness ← after.getWitness "aaab"
        require (witness.virtualPosition + witness.votes *
          (after.schedule.currentVirtualTime - witness.virtualLastUpdate) =
            -100000000) "") = .ok () := by
    decide +kernel
  rcases (bind_eq_ok_iff _ _ _).1 ran with ⟨voted, done, ran⟩
  rcases (bind_eq_ok_iff _ _ _).1 ran with ⟨after, round, ran⟩
  rcases (bind_eq_ok_iff _ _ _).1 ran with ⟨witness, got, place⟩
  rw [require_eq_ok_iff] at place
  have found := orFault_eq_ok_iff.1 got
  have visited : Visited plainExternal (fun _ _ => True) (fun _ _ _ => True)
      voted :=
    Visited.genesis.of_operations (fun _ _ _ => trivial) done
  have header : BlockHeader := BlockHeader.mk
    { timestamp := genesisTime, witness := initMinerName, signee := 0 } .zero
  refine ⟨after, witness, .step header .updateWitnessSchedule visited trivial
    round, found, place, fun consistent => ?_⟩
  have computed := consistent.computed "aaab" witness found
  rw [place] at computed
  omega

end BMChain.State
