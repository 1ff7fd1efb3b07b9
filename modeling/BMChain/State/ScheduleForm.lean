import BMChain.State.ScheduleRound

/-!
# The schedule is well formed

The scheduled names are different names of witnesses in every state, also
between the steps of a block, so every slot has a witness.
-/

namespace BMChain.State

open BMChain.Foundation BMChain.Protocol Std

variable {ext : External}

namespace Database

/-! ## The invariant -/

/-- The names which have a place in the schedule. -/
def scheduledNames (db : Database) : List AccountName :=
  db.schedule.currentShuffledWitnesses.take db.schedule.numScheduledWitnesses

/-- The rows of the witnesses are kept under the names of their owners. -/
def WitnessesOwned (db : Database) : Prop :=
  ∀ name witness, db.witnesses.find? name = some witness →
    witness.owner = name

/-- The schedule names different witnesses, and at least one. -/
structure ScheduleWellFormed (db : Database) : Prop where
  owned : db.WitnessesOwned
  nonempty : 1 ≤ db.schedule.numScheduledWitnesses
  fits : db.schedule.numScheduledWitnesses ≤
    db.schedule.currentShuffledWitnesses.length
  distinct : db.scheduledNames.Nodup
  present : ∀ name ∈ db.scheduledNames,
    ∃ witness, db.witnesses.find? name = some witness

/-- What a change leaves of the witnesses. -/
structure WitnessesStay (before after : Database) : Prop where
  owned : before.WitnessesOwned → after.WitnessesOwned
  present : ∀ name witness, before.witnesses.find? name = some witness →
    ∃ kept, after.witnesses.find? name = some kept

theorem witnessesStay_of_read_eq
    {before after : Database}
    (same : Field.read (.witness .identity) after =
      Field.read (.witness .identity) before) :
    WitnessesStay before after := by
  constructor
  case owned =>
    intro owned name witness found
    have row := congrFun same name
    simp only [Field.read, found, Option.map_some] at row
    rcases Option.map_eq_some_iff.1 row.symm with ⟨old, there, equal⟩
    have owners : old.owner = witness.owner := congrArg Prod.snd equal
    rw [← owners]
    exact owned name old there
  case present =>
    intro name witness found
    have row := congrFun same name
    simp only [Field.read, found, Option.map_some] at row
    rcases Option.map_eq_some_iff.1 row with ⟨kept, there, -⟩
    exact ⟨kept, there⟩

theorem ScheduleWellFormed.of_witnessesStay
    {before after : Database}
    (formed : before.ScheduleWellFormed)
    (stay : WitnessesStay before after)
    (same : after.schedule = before.schedule) :
    after.ScheduleWellFormed := by
  have names : after.scheduledNames = before.scheduledNames := by
    rw [scheduledNames, scheduledNames, same]
  constructor
  case owned => exact stay.owned formed.owned
  case nonempty =>
    rw [same]
    exact formed.nonempty
  case fits =>
    rw [same]
    exact formed.fits
  case distinct =>
    rw [names]
    exact formed.distinct
  case present =>
    intro name member
    rw [names] at member
    rcases formed.present name member with ⟨witness, found⟩
    exact stay.present name witness found

theorem ScheduleWellFormed.of_agrees
    {fields : List Field}
    {before after : Database}
    (formed : before.ScheduleWellFormed)
    (agrees : Agrees fields before after)
    (separate : apart [.witness .identity, .schedule] fields = true) :
    after.ScheduleWellFormed := by
  have rows : Field.read (.witness .identity) after =
      Field.read (.witness .identity) before :=
    agrees.read_eq separate List.mem_cons_self
  have schedule : Field.read .schedule after = Field.read .schedule before :=
    agrees.read_eq separate (by decide)
  exact formed.of_witnessesStay (witnessesStay_of_read_eq rows) schedule

/-! ## Different witnesses are selected -/

theorem nodup_owners
    {db : Database}
    (owned : db.WitnessesOwned) :
    (db.witnessRows.map WitnessObject.owner).Nodup := by
  have names : db.witnessRows.map WitnessObject.owner =
      db.witnesses.entries.map Prod.fst := by
    rw [witnessRows, List.map_map]
    refine List.map_congr_left ?_
    rintro ⟨name, witness⟩ member
    exact owned name witness (Register.mem_entries_iff.1 member)
  rw [names]
  exact Register.nodup_names db.witnesses

/-- Rows with one owner are one row. -/
theorem eq_of_owner_eq
    {db : Database}
    (owned : db.WitnessesOwned)
    {first second : WitnessObject}
    (member : first ∈ db.witnessRows)
    (other : second ∈ db.witnessRows)
    (same : first.owner = second.owner) :
    first = second :=
  List.inj_on_of_nodup_map (nodup_owners owned) member other same

theorem subperm_elected
    (db : Database) :
    db.electedWitnesses.Subperm db.witnessRows :=
  take_filter_subperm (List.perm_insertionSort _ _) _ _

theorem subperm_miners
    (db : Database) :
    db.selectedMiners.Subperm db.witnessRows := by
  have queue := List.perm_insertionSort
    (fun first second : WitnessObject => first.powWorker ≤ second.powWorker)
    (db.witnessRows.filter fun witness => 0 < witness.powWorker)
  exact (take_filter_subperm queue _ _).trans List.filter_sublist.subperm

theorem subperm_runnersUp
    (db : Database) :
    db.selectedRunnersUp.Subperm db.witnessRows :=
  take_filter_subperm (List.perm_insertionSort _ _) _ _

/-- A row whose id is not among those of some rows has another owner. -/
theorem owner_notMem_of_id
    {db : Database}
    (owned : db.WitnessesOwned)
    {taken : List WitnessObject}
    (part : taken.Subperm db.witnessRows)
    {witness : WitnessObject}
    (member : witness ∈ db.witnessRows)
    (free : witness.id ∉ taken.map WitnessObject.id) :
    witness.owner ∉ taken.map WitnessObject.owner := by
  intro listed
  rcases List.mem_map.1 listed with ⟨other, chosen, same⟩
  have equal := eq_of_owner_eq owned (part.subset chosen) member same
  rw [equal] at chosen
  exact free (List.mem_map_of_mem chosen)

/-- The witnesses which a round selects have different owners. -/
theorem nodup_selected
    {db : Database}
    (owned : db.WitnessesOwned) :
    (db.selectedWitnesses.map WitnessObject.owner).Nodup := by
  have distinct := nodup_owners owned
  rw [selectedWitnesses, List.map_append, List.map_append]
  refine List.nodup_append'.2 ⟨List.nodup_append'.2 ⟨?_, ?_, ?_⟩, ?_, ?_⟩
  case refine_1 => exact nodup_map_of_subperm (subperm_elected db) distinct
  case refine_2 => exact nodup_map_of_subperm (subperm_miners db) distinct
  case refine_3 =>
    intro name elected mined
    rcases List.mem_map.1 mined with ⟨miner, chosen, rfl⟩
    have passed := List.mem_filter.1 (List.mem_of_mem_take chosen)
    have free := of_decide_eq_true passed.2
    exact owner_notMem_of_id owned (subperm_elected db)
      ((subperm_miners db).subset chosen) free.1 elected
  case refine_4 => exact nodup_map_of_subperm (subperm_runnersUp db) distinct
  case refine_5 =>
    intro name taken joined
    rcases List.mem_map.1 joined with ⟨witness, chosen, rfl⟩
    have passed := List.mem_filter.1 (List.mem_of_mem_take chosen)
    have free := of_decide_eq_true passed.2
    have member := (subperm_runnersUp db).subset chosen
    rw [List.mem_append, not_or] at free
    rcases List.mem_append.1 taken with elected | mined
    · exact owner_notMem_of_id owned (subperm_elected db) member free.2.2
        elected
    · exact owner_notMem_of_id owned (subperm_miners db) member free.2.1 mined

/-! ## The shuffle -/

theorem shuffleNames_swaps
    (now : Time)
    (count : Nat)
    (names : List AccountName) :
    ∃ target : Nat → Nat, (∀ place < count, target place < count) ∧
      shuffleNames now count names =
        (List.range count).foldl
          (fun names place => swapAt names "" place (target place)) names := by
  refine ⟨fun place => place + (scramble ((UInt64.ofNat now <<< 32) +
    UInt64.ofNat place * 2685821657736338717)).toNat % (count - place), ?_, rfl⟩
  intro place below
  have left : 0 < count - place := Nat.sub_pos_of_lt below
  have drawn := Nat.mod_lt (scramble ((UInt64.ofNat now <<< 32) +
    UInt64.ofNat place * 2685821657736338717)).toNat left
  show place + _ % (count - place) < count
  omega

/-- The shuffle permutes the scheduled names. -/
theorem shuffleNames_perm
    (now : Time)
    {count : Nat}
    {names : List AccountName}
    (fits : count ≤ names.length) :
    ((shuffleNames now count names).take count).Perm (names.take count) := by
  rcases shuffleNames_swaps now count names with ⟨target, within, swaps⟩
  rw [swaps]
  refine take_swaps_perm target ?_ fits
  intro place member
  have below := List.mem_range.1 member
  exact ⟨below, within place below⟩

theorem length_shuffleNames
    (now : Time)
    (count : Nat)
    (names : List AccountName) :
    (shuffleNames now count names).length = names.length := by
  rcases shuffleNames_swaps now count names with ⟨target, -, swaps⟩
  rw [swaps, length_swaps]

/-! ## After a round -/

theorem scheduled_updateMedianWitnessProps
    {db after : Database}
    (done : db.updateMedianWitnessProps = .ok after) :
    after.schedule.currentShuffledWitnesses =
        db.schedule.currentShuffledWitnesses ∧
      after.schedule.numScheduledWitnesses =
        db.schedule.numScheduledWitnesses ∧
      after.schedule.currentVirtualTime = db.schedule.currentVirtualTime ∧
      after.witnesses = db.witnesses := by
  simp only [updateMedianWitnessProps, bind_eq_ok_iff, pure_eq_ok_iff] at done
  rcases done with ⟨_, -, _, -, _, -, rfl⟩
  exact ⟨rfl, rfl, rfl, rfl⟩

namespace RoundTrace

variable {db after : Database} (trace : RoundTrace db after)

include trace

theorem raced_identity :
    Field.read (.witness .identity) trace.raced =
      Field.read (.witness .identity) db := by
  have lapped := agrees_startLaps trace.laps
  have marked := trace.service (.witness .identity) (by decide)
  have laps := lapped (.witness .identity) (by decide)
  have reset := trace.reset
  split at reset
  · have raced := touches_resetVirtualScheduleTime _ _ reset
    exact ((raced (.witness .identity) (by decide)).trans laps).trans marked
  · have same : trace.lapped = trace.raced := Except.ok.inj reset
    rw [← same]
    exact laps.trans marked

/-- As many witnesses are selected as there are places, or witnesses. -/
theorem length_selected
    (formed : db.ScheduleWellFormed) :
    1 ≤ db.selectedWitnesses.length ∧
      db.selectedWitnesses.length ≤ maxWitnesses := by
  have lengths := congrArg List.length trace.owners_selected
  have complete := trace.complete
  have stay := witnessesStay_of_read_eq trace.raced_identity
  have first : ∃ name, name ∈ db.scheduledNames := by
    refine List.exists_mem_of_length_pos ?_
    rw [scheduledNames, List.length_take_of_le formed.fits]
    exact formed.nonempty
  rcases first with ⟨name, member⟩
  rcases formed.present name member with ⟨witness, found⟩
  rcases stay.present name witness found with ⟨kept, there⟩
  have positive := Register.size_pos there
  simp only [List.length_map, List.length_append] at lengths
  rw [← lengths, complete]
  constructor
  · exact Nat.le_min.2 ⟨by decide, positive⟩
  · exact Nat.min_le_left _ _

theorem numScheduled_eq
    (formed : db.ScheduleWellFormed) :
    after.schedule.numScheduledWitnesses = db.selectedWitnesses.length := by
  rcases scheduled_updateMedianWitnessProps trace.written with ⟨-, count, -⟩
  have bounds := trace.length_selected formed
  have lengths := congrArg List.length trace.owners_selected
  have owners : (db.selectedWitnesses.map WitnessObject.owner).length =
      db.selectedWitnesses.length := List.length_map _
  rw [owners] at lengths
  rw [count]
  show max (_ % 2 ^ 8) 1 = _
  rw [lengths]
  have small : db.selectedWitnesses.length ≤ 21 := bounds.2
  omega

theorem length_shuffled :
    after.schedule.currentShuffledWitnesses.length =
      db.selectedWitnesses.length +
        (maxWitnesses - db.selectedWitnesses.length) := by
  rcases scheduled_updateMedianWitnessProps trace.written with ⟨names, -, -⟩
  have lengths := congrArg List.length trace.owners_selected
  rw [names]
  show (shuffleNames _ _ _).length = _
  rw [length_shuffleNames, List.length_append, List.length_replicate, lengths,
    List.length_map]

/-- After a round the scheduled names are those of the selected witnesses. -/
theorem scheduled_perm
    (formed : db.ScheduleWellFormed) :
    after.scheduledNames.Perm
      (db.selectedWitnesses.map WitnessObject.owner) := by
  rcases scheduled_updateMedianWitnessProps trace.written with ⟨names, count, -⟩
  have numbered := trace.numScheduled_eq formed
  have owners := trace.owners_selected
  have places := count.symm.trans numbered
  rw [scheduledNames, names, count, ← owners]
  refine (shuffleNames_perm _ ?_).trans (.of_eq ?_)
  · rw [List.length_append, owners, List.length_map]
    exact Nat.le_trans (Nat.le_of_eq places) (Nat.le_add_right _ _)
  · refine List.take_left' ?_
    rw [owners, List.length_map]
    exact places.symm

/-- A round leaves a well-formed schedule. -/
theorem wellFormed
    (formed : db.ScheduleWellFormed) :
    after.ScheduleWellFormed := by
  have permuted := trace.scheduled_perm formed
  have bounds := trace.length_selected formed
  have stay : WitnessesStay db after := by
    refine witnessesStay_of_read_eq ?_
    exact (trace.agrees_written (.witness .identity) (by decide)).trans
      trace.raced_identity
  constructor
  case owned => exact stay.owned formed.owned
  case nonempty =>
    rw [trace.numScheduled_eq formed]
    exact bounds.1
  case fits =>
    rw [trace.numScheduled_eq formed, trace.length_shuffled]
    exact Nat.le_add_right _ _
  case distinct =>
    exact permuted.nodup_iff.2 (nodup_selected formed.owned)
  case present =>
    intro name member
    rcases List.mem_map.1 (permuted.mem_iff.1 member) with
      ⟨witness, chosen, rfl⟩
    have listed : witness ∈ db.witnessRows := by
      rcases List.mem_append.1 chosen with early | joined
      · rcases List.mem_append.1 early with elected | mined
        · exact (subperm_elected db).subset elected
        · exact (subperm_miners db).subset mined
      · exact (subperm_runnersUp db).subset joined
    rcases List.mem_map.1 listed with ⟨⟨name, row⟩, entry, rfl⟩
    have found := Register.mem_entries_iff.1 entry
    rw [formed.owned name row found]
    exact stay.present name row found

end RoundTrace

/-! ## Operations and steps -/

theorem witnessesStay_witnessUpdate
    {op : WitnessUpdateOperation}
    {db after : Database}
    (done : db.witnessUpdateEvaluator op = .ok after) :
    WitnessesStay db after := by
  rcases witnessUpdate_cases done with updated | ⟨free, rfl⟩
  · have agrees := agrees_updateWitness updated
    exact witnessesStay_of_read_eq (agrees (.witness .identity) (by decide))
  · constructor
    case owned =>
      intro owned name witness found
      rw [Register.find?_emplace] at found
      split at found
      case isTrue same =>
        cases found
        exact same
      case isFalse => exact owned name witness found
    case present =>
      intro name witness found
      refine ⟨witness, ?_⟩
      rw [Register.find?_emplace, if_neg, found]
      rintro rfl
      rw [free] at found
      cases found

/-- Every operation keeps the schedule well formed. -/
theorem formed_applyOperation
    {op : Operation}
    {db after : Database}
    (done : db.applyOperation ext op = .ok after)
    (formed : db.ScheduleWellFormed) :
    after.ScheduleWellFormed := by
  have agrees := touches_applyOperation ext db op after done
  cases op with
  | witnessUpdate op =>
      refine formed.of_witnessesStay (witnessesStay_witnessUpdate done) ?_
      exact agrees .schedule (by simp [footprint, witnessFields])
  | _ => exact formed.of_agrees agrees rfl

/-- Every step of a block keeps the schedule well formed. -/
theorem formed_runStep
    {header : BlockHeader}
    {step : BlockStep}
    {db after : Database}
    (done : db.runStep ext header step = .ok after)
    (formed : db.ScheduleWellFormed) :
    after.ScheduleWellFormed := by
  have agrees := touches_runStep ext header db step after done
  cases step with
  | updateWitnessSchedule =>
      simp only [runStep, updateWitnessSchedule] at done
      split at done
      · rcases roundTrace_of_updateWitnessSchedule4 done with ⟨trace⟩
        exact trace.wellFormed formed
      · cases done
        exact formed
  | _ => exact formed.of_agrees agrees rfl

theorem formed_genesis :
    initGenesis.ScheduleWellFormed := by
  have owned : ∀ entry ∈ initGenesis.witnesses.entries,
      entry.2.owner = entry.1 := by
    decide +kernel
  constructor
  case owned =>
    intro name witness found
    exact owned (name, witness) (Register.mem_entries_iff.2 found)
  case nonempty => decide
  case fits => decide
  case distinct => decide
  case present =>
    have names : ∀ name ∈ initGenesis.scheduledNames,
        (initGenesis.witnesses.find? name).isSome = true := by
      decide +kernel
    intro name member
    exact Option.isSome_iff_exists.1 (names name member)

end Database

/-- The schedule is well formed in all states which are visited. -/
theorem formed_visited
    {operation : Database → Operation → Prop}
    {step : BlockHeader → Database → BlockStep → Prop}
    {db : Database}
    (visited : Visited ext operation step db) :
    db.ScheduleWellFormed := by
  refine visited.invariant Database.ScheduleWellFormed Database.formed_genesis
    ?_ ?_ ?_
  · intro state header after begun formed
    exact formed.of_agrees (Database.touches_beginBlock state header after begun)
      rfl
  · intro state op after _ _ done formed
    exact Database.formed_applyOperation done formed
  · intro header state which after _ done formed
    exact Database.formed_runStep done formed

namespace Database

/-! ## Every slot has a witness -/

/-- The scheduled witnesses are all found. -/
theorem ScheduleWellFormed.scheduledWitnesses_eq
    {db : Database}
    (formed : db.ScheduleWellFormed) :
    ∃ witnesses, db.scheduledWitnesses = .ok witnesses ∧
      witnesses.map WitnessObject.owner = db.scheduledNames := by
  have all : ∀ names : List AccountName,
      (∀ name ∈ names, ∃ witness, db.witnesses.find? name = some witness) →
        ∃ witnesses, names.mapM db.getWitness = .ok witnesses ∧
          witnesses.map WitnessObject.owner = names := by
    intro names present
    induction names with
    | nil => exact ⟨[], rfl, rfl⟩
    | cons name rest induction =>
        rw [List.forall_mem_cons] at present
        rcases present with ⟨⟨witness, found⟩, present⟩
        rcases induction present with ⟨witnesses, got, owners⟩
        refine ⟨witness :: witnesses, ?_, ?_⟩
        · rw [List.mapM_cons, got, getWitness, found]
          rfl
        · rw [List.map_cons, owners, formed.owned name witness found]
  exact all db.scheduledNames formed.present

/-- The name of a slot is one of the scheduled names. -/
theorem ScheduleWellFormed.scheduled_mem
    {db : Database}
    (formed : db.ScheduleWellFormed)
    (slot : Nat) :
    db.getScheduledWitness slot ∈ db.scheduledNames := by
  have below := Nat.mod_lt ((db.props.currentAslot + slot) % 2 ^ 64)
    formed.nonempty
  have inside := Nat.lt_of_lt_of_le below formed.fits
  rw [getScheduledWitness, List.getD_eq_getElem?_getD,
    List.getElem?_eq_getElem inside, Option.getD_some]
  exact List.mem_take_iff_getElem.2
    ⟨_, Nat.lt_min.2 ⟨below, inside⟩, rfl⟩

/-- Every slot has a witness, and nothing which looks one up fails. -/
structure SlotsServed (db : Database) : Prop where
  scheduled : ∀ slot, ∃ witness,
    db.getWitness (db.getScheduledWitness slot) = .ok witness ∧
      witness.owner = db.getScheduledWitness slot
  missed : ∀ producer (slots : List Nat), ∃ after,
    slots.foldlM (missSlot producer) db = .ok after
  confirmed : ∃ after, db.updateLastIrreversibleBlock = .ok after

theorem ScheduleWellFormed.getWitness_scheduled
    {db : Database}
    (formed : db.ScheduleWellFormed)
    (slot : Nat) :
    ∃ witness, db.getWitness (db.getScheduledWitness slot) = .ok witness ∧
      witness.owner = db.getScheduledWitness slot := by
  rcases formed.present _ (formed.scheduled_mem slot) with ⟨witness, found⟩
  refine ⟨witness, ?_, formed.owned _ witness found⟩
  rw [getWitness, found]
  rfl

theorem ScheduleWellFormed.missSlot_ok
    {db : Database}
    (formed : db.ScheduleWellFormed)
    (producer : AccountName)
    (slot : Nat) :
    ∃ after, missSlot producer db slot = .ok after := by
  rcases formed.getWitness_scheduled slot with ⟨witness, got, owner⟩
  have found : db.witnesses.find? witness.owner = some witness := by
    rw [owner]
    exact orFault_eq_ok_iff.1 got
  simp only [missSlot, got, ok_bind]
  split
  · exact ⟨db, rfl⟩
  · simp only [modifyWitness, modifyNamed, found]
    exact ⟨_, rfl⟩

theorem ScheduleWellFormed.missSlots_ok
    {db : Database}
    (formed : db.ScheduleWellFormed)
    (producer : AccountName)
    (slots : List Nat) :
    ∃ after, slots.foldlM (missSlot producer) db = .ok after := by
  induction slots generalizing db with
  | nil => exact ⟨db, rfl⟩
  | cons slot rest induction =>
      rcases formed.missSlot_ok producer slot with ⟨middle, missed⟩
      have next := formed.of_agrees
        (touches_missSlot producer db slot middle missed) rfl
      rcases induction next with ⟨after, rested⟩
      refine ⟨after, ?_⟩
      rw [List.foldlM_cons, missed]
      exact rested

theorem ScheduleWellFormed.updateLastIrreversibleBlock_ok
    {db : Database}
    (formed : db.ScheduleWellFormed) :
    ∃ after, db.updateLastIrreversibleBlock = .ok after := by
  unfold updateLastIrreversibleBlock
  split
  · exact ⟨_, rfl⟩
  · rcases formed.scheduledWitnesses_eq with ⟨witnesses, got, owners⟩
    have length := congrArg List.length owners
    rw [List.length_map, scheduledNames,
      List.length_take_of_le formed.fits] at length
    have some := formed.nonempty
    have within : (hundredPercent - irreversibleThreshold) *
        witnesses.length / hundredPercent <
          ((witnesses.map WitnessObject.lastConfirmedBlockNum).insertionSort
            (· ≤ ·)).length := by
      rw [List.length_insertionSort, List.length_map]
      show (10000 - 7500) * witnesses.length / 10000 < witnesses.length
      omega
    simp only [got, ok_bind, List.getElem?_eq_getElem within]
    exact ⟨_, rfl⟩

theorem ScheduleWellFormed.slotsServed
    {db : Database}
    (formed : db.ScheduleWellFormed) :
    db.SlotsServed :=
  ⟨formed.getWitness_scheduled, formed.missSlots_ok,
    formed.updateLastIrreversibleBlock_ok⟩

end Database

/-! ## Every run -/

/--
Throughout every run the schedule is well formed and every slot has a witness,
and a scheduling round leaves the names of the witnesses which it selected.
-/
theorem schedule_well_formed
    {ext : External}
    {db : Database}
    (visited : Visited ext (fun _ _ => True) (fun _ _ _ => True) db) :
    db.ScheduleWellFormed ∧ db.SlotsServed ∧
      ∀ after, db.updateWitnessSchedule4 = .ok after →
        after.ScheduleWellFormed ∧
          after.scheduledNames.Perm
            (db.selectedWitnesses.map WitnessObject.owner) := by
  have formed := formed_visited visited
  refine ⟨formed, formed.slotsServed, ?_⟩
  intro after done
  rcases Database.roundTrace_of_updateWitnessSchedule4 done with ⟨trace⟩
  exact ⟨trace.wellFormed formed, trace.scheduled_perm formed⟩

/-- A new witness with a key. -/
def crowdWitness (name : AccountName) : Operation :=
  .witnessUpdate
    { owner := name
      url := [97]
      blockSigningKey := 1
      props := ⟨bmt 10000, 65536⟩
      fee := bmt 0 }

/-- Four witnesses, whom the next round shuffles. -/
theorem schedule_well_formed_genesis :
    ∃ db after,
      ((["devs", "temp", "miners"].map crowdWitness).map
          Event.operation).foldlM (Database.step plainExternal) initGenesis =
            .ok db ∧
        db.updateWitnessSchedule4 = .ok after ∧
          db.selectedWitnesses.map WitnessObject.owner =
              ["devs", initMinerName, "miners", "temp"] ∧
            after.scheduledNames =
              ["devs", "miners", initMinerName, "temp"] ∧
            db.SlotsServed ∧ after.ScheduleWellFormed ∧
              after.scheduledNames.Perm
                (db.selectedWitnesses.map WitnessObject.owner) := by
  have ran : (((["devs", "temp", "miners"].map crowdWitness).map
      Event.operation).foldlM (Database.step plainExternal) initGenesis).bind
        (fun db => do
          let after ← db.updateWitnessSchedule4
          require (db.selectedWitnesses.map WitnessObject.owner =
              ["devs", initMinerName, "miners", "temp"] ∧
            after.scheduledNames =
              ["devs", "miners", initMinerName, "temp"]) "") = .ok () := by
    decide +kernel
  rcases (bind_eq_ok_iff _ _ _).1 ran with ⟨db, done, ran⟩
  rcases (bind_eq_ok_iff _ _ _).1 ran with ⟨after, round, names⟩
  rw [require_eq_ok_iff] at names
  have visited : Visited plainExternal (fun _ _ => True) (fun _ _ _ => True)
      db :=
    Visited.genesis.of_operations (fun _ _ _ => trivial) done
  have formed := schedule_well_formed visited
  exact ⟨db, after, done, round, names.1, names.2, formed.2.1,
    formed.2.2 after round⟩

end BMChain.State
