import BMChain.State.AccountEvaluator

/-!
# The witness schedule

`witness_schedule.cpp`: every round the witnesses with the most votes and
those in the lead of the virtual race are scheduled, and the list of names is
shuffled.
-/

namespace BMChain.State

open BMChain.Foundation BMChain.Protocol

namespace Database

/-! ## Selection -/

/-- The witnesses in the order of `by_vote_name`. -/
def witnessesByVote (db : Database) : List WitnessObject :=
  (db.witnesses.entries.map Prod.snd).insertionSort
    fun first second => beforeByVoteName first second

/-- The witnesses in the order of `by_schedule_time`. -/
def witnessesBySchedule (db : Database) : List WitnessObject :=
  (db.witnesses.entries.map Prod.snd).insertionSort fun first second =>
    first.virtualScheduledTime < second.virtualScheduledTime ∨
      (first.virtualScheduledTime = second.virtualScheduledTime ∧
        first.id ≤ second.id)

/-- The highest voted witnesses which have a signing key. -/
def electedWitnesses (db : Database) : List WitnessObject :=
  (db.witnessesByVote.filter fun witness => witness.signingKey ≠ 0).take
    db.schedule.maxVotedWitnesses

/-- Give the listed witnesses a place in the schedule. -/
def markScheduled (place : WitnessScheduleType)
    (witnesses : List WitnessObject) (db : Database) :
    Except Fault Database :=
  witnesses.foldlM
    (fun db witness => db.modifyWitness witness.owner fun witness =>
      pure { witness with schedule := place })
    db

/-- The miners' queue, taken from its top until enough miners are selected. -/
def takeMiners (voted : List Nat) (limit : Nat) :
    List WitnessObject → List WitnessObject → Database →
      Except Fault (Database × List WitnessObject)
  | [], selected, db => .ok (db, selected)
  | miner :: queue, selected, db =>
      if limit ≤ selected.length then .ok (db, selected)
      else do
        let chosen := miner.id ∉ voted ∧ miner.signingKey ≠ 0
        let db ← db.modifyWitness miner.owner fun witness =>
          pure { witness with
            schedule := if chosen then .miner else witness.schedule
            powWorker := 0 }
        let db := { db with
          props := { db.props with
            numPowWitnesses := decrement 32 db.props.numPowWitnesses } }
        takeMiners voted limit queue
          (if chosen then selected ++ [miner] else selected) db

/-- The witnesses which have mined, in the order of `by_pow`. -/
def minersQueue (db : Database) : List WitnessObject :=
  ((db.witnesses.entries.map Prod.snd).filter fun witness =>
    0 < witness.powWorker).insertionSort
      fun first second => first.powWorker ≤ second.powWorker

/-- Witnesses passed in the virtual race, and those of them which join. -/
structure RaceResult where
  processed : List WitnessObject
  joined : List WitnessObject

/-- The run along `by_schedule_time` until every place is taken. -/
def runRace (taken : List Nat) : List WitnessObject → Nat → RaceResult
  | [], _ => ⟨[], []⟩
  | witness :: rest, count =>
      if maxWitnesses ≤ count then ⟨[], []⟩
      else
        let joins := witness.signingKey ≠ 0 ∧ witness.id ∉ taken
        let result := runRace taken rest (if joins then count + 1 else count)
        ⟨witness :: result.processed,
          if joins then witness :: result.joined else result.joined⟩

/-! ## The virtual race -/

/-- `reset_virtual_schedule_time`. -/
def resetVirtualScheduleTime (db : Database) : Except Fault Database :=
  db.witnesses.entries.foldlM
    (fun db entry => db.modifyWitness entry.1 fun witness => do
      let lap ← divideUint128 maxUint128 (uint128 (witness.votes + 1))
      pure { witness with
        virtualPosition := 0
        virtualLastUpdate := 0
        virtualScheduledTime := lap })
    { db with schedule := { db.schedule with currentVirtualTime := 0 } }

/-- Start a new lap for the listed witnesses; the flag reports an overflow. -/
def startLaps (time : Nat) : List WitnessObject → Database →
    Except Fault (Database × Bool)
  | [], db => .ok (db, false)
  | witness :: rest, db => do
      let lap ← divideUint128 maxUint128 (uint128 (witness.votes + 1))
      let scheduled := addUint128 time lap
      if scheduled < time then pure (db, true)
      else do
        let db ← db.modifyWitness witness.owner fun witness =>
          pure { witness with
            virtualPosition := 0
            virtualLastUpdate := time
            virtualScheduledTime := scheduled }
        startLaps time rest db

/-! ## Versions -/

/-- The scheduled witnesses. -/
def scheduledWitnesses (db : Database) : Except Fault (List WitnessObject) :=
  (db.schedule.currentShuffledWitnesses.take
    db.schedule.numScheduledWitnesses).mapM db.getWitness

/-- The highest version which enough witnesses run at least. -/
def majorityVersion (required current : Nat) (versions : List Nat) : Nat :=
  ((versions.dedup.insertionSort fun first second => second ≤ first).find?
    fun version =>
      required ≤ versions.countP fun other => version ≤ other).getD current

/-- The first vote for a hardfork, by version and time, with enough witnesses. -/
def majorityHardfork (required : Nat) (votes : List (Nat × Time)) :
    Option (Nat × Time) :=
  (votes.dedup.insertionSort fun first second =>
    first.1 < second.1 ∨ (first.1 = second.1 ∧ first.2 ≤ second.2)).find?
      fun vote => required ≤ votes.count vote

/-- Count the votes of the scheduled witnesses on the next hardfork. -/
def countHardforkVotes (db : Database) (witnesses : List WitnessObject) :
    Database :=
  match majorityHardfork db.schedule.hardforkRequiredWitnesses
      (witnesses.map fun witness =>
        (witness.hardforkVersionVote, witness.hardforkTimeVote)) with
  | some (version, time) =>
      { db with
        hardforks := { db.hardforks with
          nextHardfork := version, nextHardforkTime := time } }
  | none =>
      { db with
        hardforks := { db.hardforks with
          nextHardfork := db.hardforks.currentHardforkVersion } }

/-! ## The shuffle -/

/-- The generator of the shuffle. -/
def scramble (word : UInt64) : UInt64 :=
  let word := word ^^^ (word >>> 12)
  let word := word ^^^ (word <<< 25)
  let word := word ^^^ (word >>> 27)
  word * 2685821657736338717

/-- `std::swap` of two places. -/
def swapNames (names : List AccountName) (first second : Nat) :
    List AccountName :=
  (names.set first (names.getD second "")).set second (names.getD first "")

/-- The shuffle of the first `count` names, seeded with the head block's time. -/
def shuffleNames (now : Time) (count : Nat) (names : List AccountName) :
    List AccountName :=
  (List.range count).foldl
    (fun names place =>
      let word := scramble
        ((UInt64.ofNat now <<< 32) +
          UInt64.ofNat place * 2685821657736338717)
      swapNames names place (place + word.toNat % (count - place)))
    names

/-! ## The round -/

/-- The middle element of the sorted amounts. -/
def median (values : List Nat) : Except Fault Nat :=
  orFault ((values.insertionSort (· ≤ ·))[values.length / 2]?) "out of range"

/-- `update_median_witness_props`. -/
def updateMedianWitnessProps (db : Database) : Except Fault Database := do
  let active ← db.scheduledWitnesses
  let byFee := active.insertionSort fun first second =>
    first.props.accountCreationFee.amount ≤
      second.props.accountCreationFee.amount
  let middle ← orFault byFee[active.length / 2]? "out of range"
  let blockSize ← median
    (active.map fun witness => witness.props.maximumBlockSize)
  pure { db with
    schedule := { db.schedule with
      medianProps := ⟨middle.props.accountCreationFee, blockSize⟩ }
    props := { db.props with maximumBlockSize := blockSize } }

/-- Write the selected names to the schedule and shuffle them. -/
def writeSchedule (db : Database) (elected miners joined : List WitnessObject)
    (time version : Nat) : Database :=
  let active := (elected ++ miners ++ joined).map WitnessObject.owner
  let count := max (active.length % 2 ^ 8) 1
  let names := active ++ List.replicate (maxWitnesses - active.length) ""
  { db with
    schedule := { db.schedule with
      currentShuffledWitnesses := shuffleNames db.headBlockTime count names
      numScheduledWitnesses := count
      witnessPayNormalizationFactor :=
        db.schedule.electedWeight * elected.length +
          db.schedule.minerWeight * miners.length +
            db.schedule.timeshareWeight * joined.length
      currentVirtualTime := time
      nextShuffleBlockNum := (db.headBlockNum + count) % 2 ^ 32
      majorityVersion := version } }

/-- `update_witness_schedule4`. -/
def updateWitnessSchedule4 (db : Database) : Except Fault Database := do
  let elected := db.electedWitnesses
  let voted := elected.map WitnessObject.id
  let db ← db.markScheduled .elected elected
  let (db, miners) ← takeMiners voted db.schedule.maxMinerWitnesses
    db.minersQueue [] db
  let taken := miners.map WitnessObject.id ++ voted
  let race := runRace taken db.witnessesBySchedule
    (elected.length + miners.length)
  let db ← db.markScheduled .timeshare race.joined
  let time := (race.processed.getLast?.map
    WitnessObject.virtualScheduledTime).getD db.schedule.currentVirtualTime
  let (db, overflow) ← startLaps time race.processed db
  let db ← (if overflow then db.resetVirtualScheduleTime else pure db)
  let time := if overflow then 0 else time
  require
    (elected.length + miners.length + race.joined.length =
      min maxWitnesses db.witnesses.size)
    "number of active witnesses does not equal expected_active_witnesses"
  let scheduled ← db.scheduledWitnesses
  let version := majorityVersion db.schedule.hardforkRequiredWitnesses
    db.schedule.majorityVersion
    (scheduled.map WitnessObject.runningVersion)
  let db := db.countHardforkVotes scheduled
  (db.writeSchedule elected miners race.joined time version).updateMedianWitnessProps

/-- `update_witness_schedule`. -/
def updateWitnessSchedule (db : Database) : Except Fault Database :=
  if db.headBlockNum % maxWitnesses = 0 then db.updateWitnessSchedule4
  else .ok db

end Database

end BMChain.State
