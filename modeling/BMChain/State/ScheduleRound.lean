import BMChain.Foundation.Ranking
import BMChain.State.FootprintBlock

/-!
# What a scheduling round selects

A round selects witnesses from three orders of one table while it writes to
the rows which it selects.  The rows it has written to keep their name, their
id, their key and their place in the race, so the selection can be read from
the state before the round.
-/

namespace BMChain.State

open BMChain.Foundation BMChain.Protocol Std

variable {View : Type}

variable {voted : List Nat} {limit : Nat}
    {queue selected miners : List WitnessObject}

namespace Database

/-! ## The selection, from the state before the round -/

/-- The rows of the witnesses, by name. -/
def witnessRows (db : Database) : List WitnessObject :=
  db.witnesses.entries.map Prod.snd

/-- The first miners of the queue which have a key and are not elected. -/
def selectedMiners (db : Database) : List WitnessObject :=
  (db.minersQueue.filter fun miner =>
    miner.id ∉ db.electedWitnesses.map WitnessObject.id ∧
      miner.signingKey ≠ 0).take db.schedule.maxMinerWitnesses

/--
The witnesses in the lead of the virtual race which have a key and are not
selected yet, as many as there are places left.
-/
def selectedRunnersUp (db : Database) : List WitnessObject :=
  (db.witnessesBySchedule.filter fun witness =>
    witness.signingKey ≠ 0 ∧
      witness.id ∉ db.selectedMiners.map WitnessObject.id ++
        db.electedWitnesses.map WitnessObject.id).take
    (maxWitnesses - (db.electedWitnesses.length + db.selectedMiners.length))

/-- The witnesses which a round selects. -/
def selectedWitnesses (db : Database) : List WitnessObject :=
  db.electedWitnesses ++ db.selectedMiners ++ db.selectedRunnersUp

/-! ## The loops of the selection -/

theorem takeMiners_selected
    {db after : Database}
    (done : takeMiners voted limit queue selected db = .ok (after, miners)) :
    miners = selected ++ (queue.filter fun miner =>
      miner.id ∉ voted ∧ miner.signingKey ≠ 0).take
        (limit - selected.length) := by
  induction queue generalizing selected db with
  | nil =>
      cases done
      rw [List.filter_nil, List.take_nil, List.append_nil]
  | cons miner queue induction =>
      unfold takeMiners at done
      split at done
      case isTrue full =>
        cases done
        rw [Nat.sub_eq_zero_of_le full, List.take_zero, List.append_nil]
      case isFalse room =>
        rw [bind_eq_ok_iff] at done
        rcases done with ⟨marked, -, rest⟩
        have others := induction rest
        by_cases chosen : miner.id ∉ voted ∧ miner.signingKey ≠ 0
        · rw [if_pos chosen, List.length_append, List.length_singleton]
            at others
          have left : limit - selected.length =
              limit - (selected.length + 1) + 1 := by
            omega
          rw [List.filter_cons, if_pos (decide_eq_true chosen), left,
            List.take_succ_cons, others, List.append_assoc]
          rfl
        · rw [if_neg chosen] at others
          rw [List.filter_cons, if_neg (mt of_decide_eq_true chosen)]
          exact others

theorem runRace_joined
    (taken : List Nat)
    (witnesses : List WitnessObject)
    (count : Nat) :
    (runRace taken witnesses count).joined =
      (witnesses.filter fun witness =>
        witness.signingKey ≠ 0 ∧ witness.id ∉ taken).take
          (maxWitnesses - count) := by
  induction witnesses generalizing count with
  | nil =>
      rw [List.filter_nil, List.take_nil]
      rfl
  | cons witness rest induction =>
      unfold runRace
      split
      case isTrue full =>
        rw [Nat.sub_eq_zero_of_le full, List.take_zero]
      case isFalse room =>
        by_cases joins : witness.signingKey ≠ 0 ∧ witness.id ∉ taken
        · have left : maxWitnesses - count =
              maxWitnesses - (count + 1) + 1 := by
            omega
          rw [List.filter_cons, if_pos (decide_eq_true joins), left,
            List.take_succ_cons, ← induction]
          simp only [if_pos joins]
        · rw [List.filter_cons, if_neg (mt of_decide_eq_true joins),
            ← induction]
          simp only [if_neg joins]

/-! ## Rows which were written to -/

/-- Two states whose witnesses look the same. -/
def LookAlike {View : Type} (view : WitnessObject → View)
    (before after : Database) : Prop :=
  ∀ name, (after.witnesses.find? name).map view =
    (before.witnesses.find? name).map view

theorem LookAlike.trans
    {view : WitnessObject → View}
    {before middle after : Database}
    (first : LookAlike view before middle)
    (second : LookAlike view middle after) :
    LookAlike view before after :=
  fun name => (second name).trans (first name)

theorem LookAlike.comp
    {View Other : Type}
    {view : WitnessObject → View}
    {before after : Database}
    (alike : LookAlike view before after)
    (further : View → Other) :
    LookAlike (fun witness => further (view witness)) before after := by
  intro name
  have row := congrArg (Option.map further) (alike name)
  rw [Option.map_map, Option.map_map] at row
  exact row

theorem LookAlike.rows
    {view : WitnessObject → View}
    {before after : Database}
    (alike : LookAlike view before after) :
    after.witnessRows.map view = before.witnessRows.map view := by
  rw [witnessRows, witnessRows, List.map_map, List.map_map]
  exact Register.map_entries_congr view alike

theorem lookAlike_modifyWitness
    {view : WitnessObject → View}
    {db after : Database}
    {name : AccountName}
    {change : WitnessObject → Except Fault WitnessObject}
    (kept : ∀ witness changed, change witness = .ok changed →
      view changed = view witness)
    (done : db.modifyWitness name change = .ok after) :
    LookAlike view db after := by
  simp only [modifyWitness, modifyNamed, bind_eq_ok_iff, orFault_eq_ok_iff,
    pure_eq_ok_iff] at done
  rcases done with ⟨_, ⟨witness, found, changed, change, rfl⟩, rfl⟩
  intro other
  have row : (db.witnesses.set name changed).find? other =
      if name = other then some changed else db.witnesses.find? other := by
    rw [Register.find?, Register.set_rows found, getElem?_place]
    rfl
  rw [row]
  split
  case isTrue same =>
    rw [← same, found, Option.map_some, Option.map_some,
      kept witness changed change]
  case isFalse => rfl

theorem lookAlike_markScheduled
    {view : WitnessObject → View}
    (kept : ∀ witness place,
      view { witness with schedule := place } = view witness)
    {place : WitnessScheduleType}
    {witnesses : List WitnessObject}
    {db after : Database}
    (done : markScheduled place witnesses db = .ok after) :
    LookAlike view db after := by
  induction witnesses generalizing db with
  | nil =>
      cases done
      exact fun _ => rfl
  | cons witness rest induction =>
      rw [markScheduled, List.foldlM_cons, bind_eq_ok_iff] at done
      rcases done with ⟨marked, mark, done⟩
      refine LookAlike.trans (lookAlike_modifyWitness ?_ mark) (induction done)
      intro row changed equal
      cases equal
      exact kept row place

theorem lookAlike_takeMiners
    {view : WitnessObject → View}
    (kept : ∀ witness place worker,
      view { witness with schedule := place, powWorker := worker } =
        view witness)
    {db after : Database}
    (done : takeMiners voted limit queue selected db = .ok (after, miners)) :
    LookAlike view db after := by
  induction queue generalizing selected db with
  | nil =>
      cases done
      exact fun _ => rfl
  | cons miner queue induction =>
      unfold takeMiners at done
      split at done
      · cases done
        exact fun _ => rfl
      · rw [bind_eq_ok_iff] at done
        rcases done with ⟨marked, mark, rest⟩
        have taken : LookAlike view db marked := by
          refine lookAlike_modifyWitness ?_ mark
          intro row changed equal
          cases equal
          exact kept row _ 0
        have others := induction rest
        exact fun name => (others name).trans (taken name)

/-! ## The names which are selected -/

/-- What a round reads from a row before the miners are taken. -/
def unmarked (witness : WitnessObject) : WitnessObject :=
  { witness with schedule := .none }

/-- What a round reads from a row for the virtual race. -/
def racing (witness : WitnessObject) : WitnessObject :=
  { witness with schedule := .none, powWorker := 0 }

theorem minersQueue_unmarked
    {before after : Database}
    (alike : LookAlike unmarked before after) :
    after.minersQueue.map unmarked = before.minersQueue.map unmarked := by
  have sorted : ∀ db : Database, db.minersQueue.map unmarked =
      ((db.witnessRows.map unmarked).filter fun witness =>
        0 < witness.powWorker).insertionSort
          fun first second => first.powWorker ≤ second.powWorker := by
    intro db
    rw [List.filter_map]
    exact List.map_insertionSort _ _ _ _ fun _ _ _ _ => Iff.rfl
  rw [sorted after, sorted before, alike.rows]

theorem witnessesBySchedule_racing
    {before after : Database}
    (alike : LookAlike racing before after) :
    after.witnessesBySchedule.map racing =
      before.witnessesBySchedule.map racing := by
  have sorted : ∀ db : Database, db.witnessesBySchedule.map racing =
      (db.witnessRows.map racing).insertionSort fun first second =>
        first.virtualScheduledTime < second.virtualScheduledTime ∨
          (first.virtualScheduledTime = second.virtualScheduledTime ∧
            first.id ≤ second.id) := by
    intro db
    rw [witnessesBySchedule]
    exact List.map_insertionSort _ _ _ _ fun _ _ _ _ => Iff.rfl
  rw [sorted after, sorted before, alike.rows]

/-! ## The states a round passes through -/

/-- The states and the choices of a round which succeeds. -/
structure RoundTrace (db after : Database) where
  /-- After the elected witnesses and the miners are marked. -/
  mined : Database
  miners : List WitnessObject
  race : RaceResult
  /-- After the runners-up are marked. -/
  marked : Database
  lapped : Database
  overflow : Bool
  /-- After the new laps, or the reset of the race. -/
  raced : Database
  scheduled : List WitnessObject
  version : Nat
  service : Agrees [.witness .service, .props .mining] db marked
  alike : LookAlike racing db mined
  markedAlike : LookAlike racing db marked
  minersSelected : miners.map unmarked = db.selectedMiners.map unmarked
  raceRun : race = runRace
    (miners.map WitnessObject.id ++ db.electedWitnesses.map WitnessObject.id)
    mined.witnessesBySchedule (db.electedWitnesses.length + miners.length)
  laps : startLaps
    ((race.processed.getLast?.map WitnessObject.virtualScheduledTime).getD
      db.schedule.currentVirtualTime) race.processed marked =
        .ok (lapped, overflow)
  reset : (if overflow then lapped.resetVirtualScheduleTime else pure lapped) =
    .ok raced
  complete : db.electedWitnesses.length + miners.length + race.joined.length =
    min maxWitnesses raced.witnesses.size
  written : ((raced.countHardforkVotes scheduled).writeSchedule
    db.electedWitnesses miners race.joined
    (if overflow then 0 else
      (race.processed.getLast?.map WitnessObject.virtualScheduledTime).getD
        db.schedule.currentVirtualTime) version).updateMedianWitnessProps =
      .ok after

theorem roundTrace_of_updateWitnessSchedule4
    {db after : Database}
    (done : db.updateWitnessSchedule4 = .ok after) :
    Nonempty (RoundTrace db after) := by
  simp only [updateWitnessSchedule4, bind_eq_ok_iff, require_eq_ok_iff,
    Prod.exists] at done
  rcases done with ⟨elected, mark, mined, miners, mine, marked, join, lapped,
    overflow, laps, raced, reset, _, complete, scheduled, -, written⟩
  have voted := touches_markScheduled _ _ db elected mark
  have taken := agrees_takeMiners mine
  have joined := touches_markScheduled _ _ mined marked join
  have first : elected.schedule = db.schedule := voted .schedule (by decide)
  have second : mined.schedule = elected.schedule := taken .schedule (by decide)
  have third : marked.schedule = mined.schedule := joined .schedule (by decide)
  have clock : marked.schedule = db.schedule := by
    rw [third, second, first]
  rw [clock] at laps written
  refine ⟨{
    mined := mined
    miners := miners
    race := _
    marked := marked
    lapped := lapped
    overflow := overflow
    raced := raced
    scheduled := scheduled
    version := _
    service := ?service
    alike := ?alike
    markedAlike := ?markedAlike
    minersSelected := ?minersSelected
    raceRun := rfl
    laps := laps
    reset := reset
    complete := complete
    written := written }⟩
  case service =>
    exact trans_of _ (voted.mono (by decide))
      (trans_of _ taken (joined.mono (by decide)))
  case alike =>
    exact (lookAlike_markScheduled (fun _ _ => rfl) mark).trans
      (lookAlike_takeMiners (fun _ _ _ => rfl) mine)
  case markedAlike =>
    exact ((lookAlike_markScheduled (fun _ _ => rfl) mark).trans
      (lookAlike_takeMiners (fun _ _ _ => rfl) mine)).trans
        (lookAlike_markScheduled (fun _ _ => rfl) join)
  case minersSelected =>
    have queue := minersQueue_unmarked
      (lookAlike_markScheduled (fun _ _ => rfl) mark)
    rw [takeMiners_selected mine, List.nil_append, List.length_nil,
      Nat.sub_zero, first, selectedMiners, List.map_take, List.map_take]
    have kept : ∀ rows : List WitnessObject,
        (rows.filter fun miner =>
          miner.id ∉ db.electedWitnesses.map WitnessObject.id ∧
            miner.signingKey ≠ 0).map unmarked =
        (rows.map unmarked).filter fun miner =>
          miner.id ∉ db.electedWitnesses.map WitnessObject.id ∧
            miner.signingKey ≠ 0 := by
      intro rows
      rw [List.filter_map]
      rfl
    rw [kept, kept, queue]

/-! ## The selection of a round -/

namespace RoundTrace

variable {db after : Database} (trace : RoundTrace db after)

include trace

/-- Writing the schedule leaves the witnesses alone. -/
theorem agrees_written :
    Agrees [.hardforks, .schedule, .props .blockSize] trace.raced after := by
  have counted := agrees_countHardforkVotes trace.raced trace.scheduled
  have median := touches_updateMedianWitnessProps _ _ trace.written
  refine trans_of _ (counted.mono (by decide)) ?_
  exact trans_of _ ((agrees_schedule _ _).mono (by decide))
    (median.mono (by decide))

theorem owners_miners :
    trace.miners.map WitnessObject.owner =
      db.selectedMiners.map WitnessObject.owner := by
  have owners := congrArg (List.map WitnessObject.owner) trace.minersSelected
  rw [List.map_map, List.map_map] at owners
  exact owners

theorem ids_miners :
    trace.miners.map WitnessObject.id =
      db.selectedMiners.map WitnessObject.id := by
  have ids := congrArg (List.map WitnessObject.id) trace.minersSelected
  rw [List.map_map, List.map_map] at ids
  exact ids

theorem length_miners :
    trace.miners.length = db.selectedMiners.length := by
  have lengths := congrArg List.length trace.minersSelected
  rwa [List.length_map, List.length_map] at lengths

theorem owners_joined :
    trace.race.joined.map WitnessObject.owner =
      db.selectedRunnersUp.map WitnessObject.owner := by
  have kept : ∀ (taken : List Nat) (rows : List WitnessObject),
      (rows.filter fun witness =>
        witness.signingKey ≠ 0 ∧ witness.id ∉ taken).map
          WitnessObject.owner =
      ((rows.map racing).filter fun witness =>
        witness.signingKey ≠ 0 ∧ witness.id ∉ taken).map
          WitnessObject.owner := by
    intro taken rows
    rw [List.filter_map, List.map_map]
    rfl
  have order := witnessesBySchedule_racing trace.alike
  rw [trace.raceRun, runRace_joined, selectedRunnersUp, List.map_take,
    List.map_take, trace.ids_miners, trace.length_miners, kept,
    kept _ db.witnessesBySchedule, order]

/-- The names which a round writes are those of the selected witnesses. -/
theorem owners_selected :
    (db.electedWitnesses ++ trace.miners ++ trace.race.joined).map
        WitnessObject.owner =
      db.selectedWitnesses.map WitnessObject.owner := by
  rw [selectedWitnesses, List.map_append, List.map_append, List.map_append,
    List.map_append, trace.owners_miners, trace.owners_joined]

end RoundTrace

end Database

end BMChain.State
