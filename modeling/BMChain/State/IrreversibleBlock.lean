import BMChain.State.Clock
import BMChain.State.QuietChain
import BMChain.State.ScheduleForm

/-!
# The last irreversible block

The number of the last irreversible block follows the head with a fixed lag at
first, and is then an order statistic of what the scheduled witnesses have
confirmed.  No witness confirms a block which is not there yet, so the number
stays below the head, and the lag leaves it where the votes take over.
-/

namespace BMChain.State

open BMChain.Foundation BMChain.Protocol Std

variable {after db before : Database} {header : BlockHeader} {ext : External}

variable {fields : List Field} {producer : AccountName} {slot : Nat}

namespace Database

/-! ## What is kept at the head -/

/-- The numbers of blocks which the state keeps do not exceed the head. -/
structure HeadBounds (db : Database) : Prop where
  counted : db.props.headBlockId.num = db.headBlockNum
  /-- A block takes at least a second. -/
  timed : genesisTime + db.headBlockNum ≤ db.headBlockTime
  irreversible : db.props.lastIrreversibleBlockNum ≤ db.headBlockNum
  lagged : db.headBlockNum < startMinerVotingBlock →
    db.props.lastIrreversibleBlockNum ≤ db.headBlockNum - maxWitnesses
  confirmed : ∀ name witness, db.witnesses.find? name = some witness →
    witness.lastConfirmedBlockNum ≤ db.headBlockNum

theorem confirmed_of_lookAlike
    {bound : Nat}
    (alike : LookAlike WitnessObject.lastConfirmedBlockNum before after)
    (confirmed : ∀ name witness, before.witnesses.find? name = some witness →
      witness.lastConfirmedBlockNum ≤ bound) :
    ∀ name witness, after.witnesses.find? name = some witness →
      witness.lastConfirmedBlockNum ≤ bound := by
  intro name witness found
  have row := alike name
  rw [found, Option.map_some] at row
  rcases Option.map_eq_some_iff.1 row.symm with ⟨old, there, same⟩
  rw [← same]
  exact confirmed name old there

theorem confirmed_of_read_eq
    (same : Field.read (.witness .service) after =
      Field.read (.witness .service) before) :
    LookAlike WitnessObject.lastConfirmedBlockNum before after := by
  have alike : LookAlike (WitnessAspect.read .service) before after :=
    congrFun same
  exact alike.comp fun service => service.2.2.2.2.1

/-- The bounds stay while the head does. -/
theorem HeadBounds.of_head
    (bounds : before.HeadBounds)
    (head : Field.read (.props .head) after =
      Field.read (.props .head) before)
    (alike : LookAlike WitnessObject.lastConfirmedBlockNum before after) :
    after.HeadBounds := by
  simp only [Field.read, PropsAspect.read, Prod.mk.injEq] at head
  rcases head with ⟨number, id, time, -, -, -, irreversible⟩
  have confirmed := confirmed_of_lookAlike alike bounds.confirmed
  constructor
  case counted =>
    rw [headBlockNum, id, number]
    exact bounds.counted
  case timed =>
    rw [headBlockNum, headBlockTime, number, time]
    exact bounds.timed
  case irreversible =>
    rw [headBlockNum, irreversible, number]
    exact bounds.irreversible
  case lagged =>
    rw [headBlockNum, irreversible, number]
    exact bounds.lagged
  case confirmed =>
    rw [headBlockNum, number]
    exact confirmed

theorem HeadBounds.of_agrees
    (bounds : before.HeadBounds)
    (agrees : Agrees fields before after)
    (separate : apart [.props .head, .witness .service] fields = true) :
    after.HeadBounds :=
  bounds.of_head (agrees.read_eq separate List.mem_cons_self)
    (confirmed_of_read_eq (agrees.read_eq separate
      (List.mem_cons_of_mem _ List.mem_cons_self)))

theorem irreversible_of_agrees
    (agrees : Agrees fields before after)
    (separate : apart [.props .head] fields = true) :
    after.props.lastIrreversibleBlockNum =
      before.props.lastIrreversibleBlockNum := by
  have head : Field.read (.props .head) after =
      Field.read (.props .head) before :=
    agrees.read_eq separate List.mem_cons_self
  simp only [Field.read, PropsAspect.read, Prod.mk.injEq] at head
  exact head.2.2.2.2.2.2

/-! ## What confirms no block -/

theorem confirmed_processExtensions
    {name : AccountName}
    {extensions : List HeaderExtension}
    (done : extensions.foldlM (processExtension name) db = .ok after) :
    LookAlike WitnessObject.lastConfirmedBlockNum db after := by
  refine foldlM_invariant
    (LookAlike WitnessObject.lastConfirmedBlockNum db) ?_ done fun _ => rfl
  intro state extension next _ processed alike
  refine alike.trans ?_
  cases extension with
  | void =>
      cases processed
      exact fun _ => rfl
  | version reported =>
      refine lookAlike_modifyWitness ?_ processed
      intro witness changed equal
      cases equal
      rfl
  | hardforkVersionVote version time =>
      refine lookAlike_modifyWitness ?_ processed
      intro witness changed equal
      cases equal
      rfl

theorem confirmed_beginBlock
    (begun : db.beginBlock header = .ok after) :
    LookAlike WitnessObject.lastConfirmedBlockNum db after := by
  simp only [beginBlock, bind_eq_ok_iff, pure_eq_ok_iff] at begun
  rcases begun with ⟨_, -, _, processed, _, -, _, -, rfl⟩
  have alike := confirmed_processExtensions processed
  exact fun name => alike name

theorem confirmed_missSlot
    (missed : missSlot producer db slot = .ok after) :
    LookAlike WitnessObject.lastConfirmedBlockNum db after := by
  simp only [missSlot, bind_eq_ok_iff] at missed
  rcases missed with ⟨witness, -, missed⟩
  split at missed
  · cases missed
    exact fun _ => rfl
  · rw [bind_eq_ok_iff] at missed
    rcases missed with ⟨marked, mark, finished⟩
    have alike : LookAlike WitnessObject.lastConfirmedBlockNum db marked := by
      refine lookAlike_modifyWitness ?_ mark
      intro row changed equal
      cases equal
      rfl
    cases finished
    split
    · exact alike
    · exact alike

theorem props_missSlot
    (missed : missSlot producer db slot = .ok after) :
    after.props = db.props := by
  simp only [missSlot, modifyWitness, bind_eq_ok_iff] at missed
  rcases missed with ⟨witness, -, missed⟩
  split at missed
  · cases missed
    rfl
  · simp only [bind_eq_ok_iff, pure_eq_ok_iff] at missed
    rcases missed with ⟨_, ⟨_, -, rfl⟩, rfl⟩
    split <;> rfl

theorem RoundTrace.confirmed
    (trace : RoundTrace db after) :
    LookAlike WitnessObject.lastConfirmedBlockNum db after := by
  have marked : LookAlike WitnessObject.lastConfirmedBlockNum db
      trace.marked :=
    trace.markedAlike.comp WitnessObject.lastConfirmedBlockNum
  have laps := confirmed_of_read_eq
    (agrees_startLaps trace.laps (.witness .service) (by decide))
  have written := confirmed_of_read_eq
    (trace.agrees_written (.witness .service) (by decide))
  have raced : LookAlike WitnessObject.lastConfirmedBlockNum trace.lapped
      trace.raced := by
    have reset := trace.reset
    split at reset
    · exact confirmed_of_read_eq (touches_resetVirtualScheduleTime _ _ reset
        (.witness .service) (by decide))
    · have same : trace.lapped = trace.raced := Except.ok.inj reset
      rw [same]
      exact fun _ => rfl
  exact ((marked.trans laps).trans raced).trans written

theorem previous_beginBlock
    (begun : db.beginBlock header = .ok after) :
    header.previous = db.props.headBlockId := by
  simp only [beginBlock, validateBlockHeader, bind_eq_ok_iff,
    require_eq_ok_iff] at begun
  rcases begun with ⟨_, ⟨_, previous, -⟩, -⟩
  exact previous.symm

/-! ## Operations -/

theorem bounds_applyOperation
    {op : Operation}
    (done : db.applyOperation ext op = .ok after)
    (bounds : db.HeadBounds) :
    after.HeadBounds := by
  have agrees := touches_applyOperation ext db op after done
  cases op with
  | witnessUpdate op =>
      have head : Field.read (.props .head) after =
          Field.read (.props .head) db :=
        agrees (.props .head) (by simp [footprint, witnessFields])
      rcases witnessUpdate_cases done with updated | ⟨free, rfl⟩
      · refine bounds.of_head head (lookAlike_modifyWitness ?_ updated)
        intro witness changed equal
        cases equal
        rfl
      · refine ⟨bounds.counted, bounds.timed, bounds.irreversible,
          bounds.lagged, ?_⟩
        intro name witness found
        rw [Register.find?_emplace] at found
        split at found
        · cases found
          exact Nat.zero_le _
        · exact bounds.confirmed name witness found
  | _ => exact bounds.of_agrees agrees rfl

/-! ## Steps of a block -/

theorem irreversible_recordSlots
    (places : List Nat)
    (props : DynamicGlobalProperties) :
    (places.foldl (fun props place => recordSlot (place = 0) props)
        props).lastIrreversibleBlockNum = props.lastIrreversibleBlockNum := by
  induction places generalizing props with
  | nil => rfl
  | cons place rest induction =>
      rw [List.foldl_cons, induction]
      rfl

/-- A new head confirms nothing and makes nothing irreversible yet. -/
theorem irreversible_updateGlobalDynamicData
    (done : db.updateGlobalDynamicData header = .ok after) :
    after.props.lastIrreversibleBlockNum = db.props.lastIrreversibleBlockNum ∧
      LookAlike WitnessObject.lastConfirmedBlockNum db after := by
  simp only [updateGlobalDynamicData, bind_eq_ok_iff, pure_eq_ok_iff] at done
  rcases done with ⟨missed, slots, _, -, rfl⟩
  have kept : missed.props = db.props ∧
      LookAlike WitnessObject.lastConfirmedBlockNum db missed := by
    refine foldlM_invariant
      (fun state : Database => state.props = db.props ∧
        LookAlike WitnessObject.lastConfirmedBlockNum db state)
      ?_ slots ⟨rfl, fun _ => rfl⟩
    rintro state place next - missing ⟨same, alike⟩
    refine ⟨?_, alike.trans (confirmed_missSlot missing)⟩
    rw [← same]
    exact props_missSlot missing
  refine ⟨?_, fun name => kept.2 name⟩
  exact (irreversible_recordSlots _ missed.props).trans
    (congrArg DynamicGlobalProperties.lastIrreversibleBlockNum kept.1)

/-- The first step of a block's end makes the block the head. -/
theorem bounds_updateGlobalDynamicData
    (done : db.updateGlobalDynamicData header = .ok after)
    (previous : header.previous = db.props.headBlockId)
    (later : db.headBlockTime < header.timestamp)
    (fits : header.timestamp < 2 ^ 32)
    (bounds : db.HeadBounds) :
    after.HeadBounds ∧ header.number = after.headBlockNum ∧
      after.props.lastIrreversibleBlockNum =
        db.props.lastIrreversibleBlockNum := by
  rcases irreversible_updateGlobalDynamicData done with ⟨irreversible, alike⟩
  have head := (updateGlobalDynamicData_head done).1
  have numbered : after.headBlockNum = header.number := congrArg Prod.fst head
  have named : after.props.headBlockId = header.id :=
    congrArg (fun head => head.2.1) head
  have dated : after.headBlockTime = header.timestamp :=
    congrArg (fun head => head.2.2) head
  have small : db.headBlockNum + 1 < 2 ^ 32 := by
    calc db.headBlockNum + 1
        ≤ db.headBlockNum + genesisTime :=
          Nat.add_le_add_left (by decide) _
      _ = genesisTime + db.headBlockNum := Nat.add_comm _ _
      _ ≤ db.headBlockTime := bounds.timed
      _ < 2 ^ 32 := Nat.lt_trans later fits
  have number : header.number = db.headBlockNum + 1 := by
    show (header.previous.num + 1) % 2 ^ 32 = _
    rw [previous, bounds.counted]
    exact Nat.mod_eq_of_lt small
  refine ⟨⟨?_, ?_, ?_, ?_, ?_⟩, numbered.symm, irreversible⟩
  case refine_1 =>
    rw [named, numbered]
    rfl
  case refine_2 =>
    rw [numbered, dated, number]
    exact Nat.lt_of_le_of_lt bounds.timed later
  case refine_3 =>
    rw [irreversible, numbered, number]
    exact Nat.le_succ_of_le bounds.irreversible
  case refine_4 =>
    intro early
    rw [numbered, number] at early
    rw [irreversible, numbered, number]
    have lagged := bounds.lagged (Nat.lt_of_succ_lt early)
    omega
  case refine_5 =>
    have below := confirmed_of_lookAlike alike bounds.confirmed
    intro name witness found
    rw [numbered, number]
    exact Nat.le_succ_of_le (below name witness found)

theorem bounds_updateSigningWitness
    (done : db.updateSigningWitness header = .ok after)
    (number : header.number = db.headBlockNum)
    (bounds : db.HeadBounds) :
    after.HeadBounds := by
  have agrees := touches_updateSigningWitness db header after done
  have head : Field.read (.props .head) after = Field.read (.props .head) db :=
    agrees (.props .head) (by decide)
  simp only [updateSigningWitness, modifyWitness, modifyNamed, bind_eq_ok_iff,
    orFault_eq_ok_iff, pure_eq_ok_iff] at done
  rcases done with ⟨_, ⟨signing, found, _, rfl, rfl⟩, rfl⟩
  refine ⟨bounds.counted, bounds.timed, bounds.irreversible, bounds.lagged, ?_⟩
  intro name witness there
  rw [Register.find?_set found] at there
  split at there
  · cases there
    exact Nat.le_of_eq number
  · exact bounds.confirmed name witness there

theorem scheduledWitnesses_mem
    {witnesses : List WitnessObject}
    (got : db.scheduledWitnesses = .ok witnesses)
    {witness : WitnessObject}
    (member : witness ∈ witnesses) :
    ∃ name, db.witnesses.find? name = some witness := by
  have listed : ∀ names : List AccountName, ∀ witnesses,
      names.mapM db.getWitness = .ok witnesses → witness ∈ witnesses →
        ∃ name, db.witnesses.find? name = some witness := by
    intro names
    induction names with
    | nil =>
        intro witnesses got member
        cases got
        cases member
    | cons name rest induction =>
        intro witnesses got member
        simp only [List.mapM_cons, bind_eq_ok_iff, pure_eq_ok_iff] at got
        rcases got with ⟨first, found, others, got, rfl⟩
        rcases List.mem_cons.1 member with rfl | member
        · exact ⟨name, orFault_eq_ok_iff.1 found⟩
        · exact induction others got member
  exact listed _ witnesses got member

/-- The last irreversible block moves forward, but not beyond the head. -/
theorem bounds_updateLastIrreversibleBlock
    (done : db.updateLastIrreversibleBlock = .ok after)
    (bounds : db.HeadBounds) :
    after.HeadBounds ∧
      db.props.lastIrreversibleBlockNum ≤
        after.props.lastIrreversibleBlockNum := by
  unfold updateLastIrreversibleBlock at done
  split at done
  case isTrue early =>
    cases done
    have lagged := bounds.lagged early
    have below : (if maxWitnesses < db.headBlockNum then
          db.headBlockNum - maxWitnesses
        else db.props.lastIrreversibleBlockNum) ≤
          db.headBlockNum - maxWitnesses := by
      split
      · exact Nat.le_refl _
      · exact lagged
    refine ⟨⟨bounds.counted, bounds.timed, ?_, fun _ => below,
      bounds.confirmed⟩, ?_⟩
    · exact Nat.le_trans below (Nat.sub_le _ _)
    · show _ ≤ if maxWitnesses < db.headBlockNum then _ else _
      split
      · exact lagged
      · exact Nat.le_refl _
  case isFalse late =>
    simp only [bind_eq_ok_iff, orFault_eq_ok_iff, pure_eq_ok_iff] at done
    rcases done with ⟨witnesses, got, confirmed, chosen, rfl⟩
    have member := (List.perm_insertionSort _ _).mem_iff.1
      (List.mem_of_getElem? chosen)
    rcases List.mem_map.1 member with ⟨witness, scheduled, rfl⟩
    rcases scheduledWitnesses_mem got scheduled with ⟨name, found⟩
    have below := bounds.confirmed name witness found
    refine ⟨⟨bounds.counted, bounds.timed, ?_, ?_, bounds.confirmed⟩,
      Nat.le_max_right _ _⟩
    · exact Nat.max_le.2 ⟨below, bounds.irreversible⟩
    · exact fun early => absurd early late

/-- The later steps of a block's end keep the bounds. -/
theorem bounds_runStep
    {step : BlockStep}
    (later : step ≠ .updateGlobalDynamicData)
    (number : header.number = db.headBlockNum)
    (done : db.runStep ext header step = .ok after)
    (bounds : db.HeadBounds) :
    after.HeadBounds ∧
      db.props.lastIrreversibleBlockNum ≤
        after.props.lastIrreversibleBlockNum := by
  have agrees := touches_runStep ext header db step after done
  have stays : apart [.props .head] (stepFootprint step) = true →
      db.props.lastIrreversibleBlockNum ≤
        after.props.lastIrreversibleBlockNum :=
    fun separate => Nat.le_of_eq (irreversible_of_agrees agrees separate).symm
  cases step with
  | updateGlobalDynamicData => exact absurd rfl later
  | updateLastIrreversibleBlock =>
      exact bounds_updateLastIrreversibleBlock done bounds
  | updateSigningWitness =>
      exact ⟨bounds_updateSigningWitness done number bounds, stays rfl⟩
  | updateWitnessSchedule =>
      refine ⟨?_, stays rfl⟩
      simp only [runStep, updateWitnessSchedule] at done
      split at done
      · rcases roundTrace_of_updateWitnessSchedule4 done with ⟨trace⟩
        exact bounds.of_head (agrees (.props .head) (by decide))
          trace.confirmed
      · cases done
        exact bounds
  | _ => exact ⟨bounds.of_agrees agrees rfl, stays rfl⟩

/-- The steps of a block's end, up to any of them. -/
theorem bounds_steps
    {steps : List BlockStep}
    (front : steps <+: blockSteps)
    (ran : steps.foldlM (runStep ext header) db = .ok after)
    (previous : header.previous = db.props.headBlockId)
    (later : db.headBlockTime < header.timestamp)
    (fits : header.timestamp < 2 ^ 32)
    (bounds : db.HeadBounds) :
    after.HeadBounds ∧
      db.props.lastIrreversibleBlockNum ≤
        after.props.lastIrreversibleBlockNum := by
  cases steps with
  | nil =>
      cases ran
      exact ⟨bounds, Nat.le_refl _⟩
  | cons step rest =>
      rw [blockSteps, List.cons_prefix_cons] at front
      rcases front with ⟨rfl, front⟩
      rw [List.foldlM_cons, bind_eq_ok_iff] at ran
      rcases ran with ⟨headed, first, ran⟩
      rcases bounds_updateGlobalDynamicData first previous later fits bounds
        with ⟨start, number, irreversible⟩
      have kept := foldlM_invariant
        (fun state : Database => state.HeadBounds ∧
          header.number = state.headBlockNum ∧
            headed.props.lastIrreversibleBlockNum ≤
              state.props.lastIrreversibleBlockNum)
        (fun state step next member stepped held => by
          have late : step ≠ .updateGlobalDynamicData := by
            rintro rfl
            have listed := front.subset member
            simp at listed
          rcases held with ⟨inside, numbered, above⟩
          rcases bounds_runStep late numbered stepped inside with
            ⟨further, forward⟩
          have same := congrArg Prod.fst (runStep_keeps late stepped).1
          exact ⟨further, numbered.trans same.symm, above.trans forward⟩)
        ran ⟨start, number, Nat.le_refl _⟩
      refine ⟨kept.1, ?_⟩
      rw [← irreversible]
      exact kept.2.2

/-! ## The quorum -/

/-- Enough different scheduled witnesses have confirmed a block. -/
structure Quorum (db : Database) (number : Nat) : Prop where
  scheduled : db.scheduledNames.length = db.schedule.numScheduledWitnesses
  distinct : db.scheduledNames.Nodup
  confirmed :
    db.schedule.numScheduledWitnesses -
        (hundredPercent - irreversibleThreshold) *
          db.schedule.numScheduledWitnesses / hundredPercent ≤
      db.scheduledNames.countP fun name =>
        (db.witnesses.find? name).any fun witness =>
          number ≤ witness.lastConfirmedBlockNum

theorem quorum_updateLastIrreversibleBlock
    (formed : db.ScheduleWellFormed)
    (voting : startMinerVotingBlock ≤ db.headBlockNum)
    (done : db.updateLastIrreversibleBlock = .ok after)
    (raised : db.props.lastIrreversibleBlockNum <
      after.props.lastIrreversibleBlockNum) :
    db.Quorum after.props.lastIrreversibleBlockNum := by
  have length : db.scheduledNames.length =
      db.schedule.numScheduledWitnesses :=
    List.length_take_of_le formed.fits
  rw [updateLastIrreversibleBlock, if_neg (Nat.not_lt.2 voting)] at done
  simp only [bind_eq_ok_iff, orFault_eq_ok_iff, pure_eq_ok_iff] at done
  rcases done with ⟨witnesses, got, confirmed, chosen, rfl⟩
  have number : max confirmed db.props.lastIrreversibleBlockNum =
      confirmed := by
    refine Nat.max_eq_left (Nat.le_of_lt (Nat.lt_of_not_le fun below => ?_))
    have stays : db.props.lastIrreversibleBlockNum <
        max confirmed db.props.lastIrreversibleBlockNum := raised
    rw [Nat.max_eq_right below] at stays
    exact Nat.lt_irrefl _ stays
  have owners : witnesses.map WitnessObject.owner = db.scheduledNames := by
    rcases formed.scheduledWitnesses_eq with ⟨others, same, owners⟩
    rw [got] at same
    cases same
    exact owners
  have several : witnesses.length = db.schedule.numScheduledWitnesses := by
    rw [← length, ← owners, List.length_map]
  have counted : (db.scheduledNames.countP fun name =>
        (db.witnesses.find? name).any fun witness =>
          confirmed ≤ witness.lastConfirmedBlockNum) =
      (witnesses.map WitnessObject.lastConfirmedBlockNum).countP
        (confirmed ≤ ·) := by
    rw [← owners, List.countP_map, List.countP_map]
    refine List.countP_congr fun witness member => ?_
    rcases scheduledWitnesses_mem got member with ⟨name, found⟩
    have owner := formed.owned name witness found
    simp only [Function.comp_apply, owner, found, Option.any_some]
  refine ⟨length, formed.distinct, ?_⟩
  show _ ≤ db.scheduledNames.countP fun name =>
    (db.witnesses.find? name).any fun witness =>
      max confirmed db.props.lastIrreversibleBlockNum ≤
        witness.lastConfirmedBlockNum
  rw [number, counted]
  have enough := length_sub_le_countP chosen
  rw [List.length_map, several] at enough
  exact enough

end Database

/-! ## Runs -/

/-- The timestamps of headers are numbers of 32 bits. -/
def TimestampFits (_ : Database) : Event → Prop
  | .beginBlock header => header.timestamp < 2 ^ 32
  | _ => True

theorem bounds_genesis :
    initGenesis.HeadBounds := by
  have confirmed : ∀ entry ∈ initGenesis.witnesses.entries,
      entry.2.lastConfirmedBlockNum ≤ initGenesis.headBlockNum := by
    decide +kernel
  refine ⟨rfl, Nat.le_refl _, Nat.le_refl _, fun _ => Nat.zero_le _, ?_⟩
  intro name witness found
  exact confirmed (name, witness) (Register.mem_entries_iff.2 found)

/-- The bounds hold in every run, and a block is applied on top of the head. -/
theorem bounds_run
    {block : Option BlockHeader}
    (run : RunState ext TimestampFits block db) :
    db.HeadBounds ∧ ∀ header, block = some header →
      header.previous = db.props.headBlockId ∧
        db.headBlockTime < header.timestamp ∧ header.timestamp < 2 ^ 32 := by
  induction run with
  | genesis => exact ⟨bounds_genesis, fun header none => by cases none⟩
  | step event _ phase permitted stepped induction =>
      rcases induction with ⟨bounds, follows⟩
      cases phase with
      | operation op block =>
          simp only [Database.step, bind_eq_ok_iff] at stepped
          rcases stepped with ⟨_, -, done⟩
          refine ⟨Database.bounds_applyOperation done bounds, ?_⟩
          intro header current
          have head := (Database.applyOperation_head done).1
          have named := congrArg (fun head => head.2.1) head
          rcases follows header current with ⟨previous, later, fits⟩
          rw [Database.time_applyOperation done]
          exact ⟨previous.trans named.symm, later, fits⟩
      | beginBlock header =>
          have agrees := Database.touches_beginBlock _ header _ stepped
          refine ⟨bounds.of_head (agrees (.props .head) (by decide))
            (Database.confirmed_beginBlock stepped), ?_⟩
          intro other current
          cases current
          have head := Database.headOf_of_agrees agrees rfl
          have named := congrArg (fun head => head.2.1) head
          rcases Database.time_beginBlock stepped with ⟨later, same⟩
          rw [same]
          exact ⟨(Database.previous_beginBlock stepped).trans named.symm, later,
            permitted⟩
      | finishBlock header =>
          rcases follows header rfl with ⟨previous, later, fits⟩
          refine ⟨(Database.bounds_steps List.prefix_rfl stepped previous later
            fits bounds).1, ?_⟩
          intro other none
          cases none

/--
The last irreversible block of a run never moves back and never passes the
head, and when the votes of the witnesses raise it, a quorum has confirmed it.
-/
theorem last_irreversible_block
    {ext : External}
    {block : Option BlockHeader}
    {db : Database}
    (run : RunState ext TimestampFits block db) :
    db.props.lastIrreversibleBlockNum ≤ db.headBlockNum ∧
      (∀ event next after, Phase event block next → TimestampFits db event →
        db.step ext event = .ok after →
          db.props.lastIrreversibleBlockNum ≤
            after.props.lastIrreversibleBlockNum) ∧
      ∀ header steps middle, block = some header → steps <+: blockSteps →
        steps.foldlM (Database.runStep ext header) db = .ok middle →
          db.props.lastIrreversibleBlockNum ≤
              middle.props.lastIrreversibleBlockNum ∧
            middle.props.lastIrreversibleBlockNum ≤ middle.headBlockNum ∧
            ∀ after, middle.updateLastIrreversibleBlock = .ok after →
              Database.startMinerVotingBlock ≤ middle.headBlockNum →
                middle.props.lastIrreversibleBlockNum <
                    after.props.lastIrreversibleBlockNum →
                  middle.Quorum after.props.lastIrreversibleBlockNum := by
  rcases bounds_run run with ⟨bounds, follows⟩
  refine ⟨bounds.irreversible, ?_, ?_⟩
  · intro event next after phase permitted stepped
    cases phase with
    | operation op block =>
        simp only [Database.step, bind_eq_ok_iff] at stepped
        rcases stepped with ⟨_, -, done⟩
        have agrees := Database.touches_applyOperation ext db op after done
        have separate : apart [.props .head] (Database.footprint op) = true := by
          cases op <;> rfl
        exact Nat.le_of_eq (Database.irreversible_of_agrees agrees separate).symm
    | beginBlock header =>
        have agrees := Database.touches_beginBlock db header after stepped
        exact Nat.le_of_eq (Database.irreversible_of_agrees agrees rfl).symm
    | finishBlock header =>
        rcases follows header rfl with ⟨previous, later, fits⟩
        exact (Database.bounds_steps List.prefix_rfl stepped previous later
          fits bounds).2
  · intro header steps middle current front ran
    rcases follows header current with ⟨previous, later, fits⟩
    rcases Database.bounds_steps front ran previous later fits bounds with
      ⟨inside, forward⟩
    refine ⟨forward, inside.irreversible, ?_⟩
    intro after done voting raised
    have reachable : Reachable ext db :=
      ⟨block, run.mono fun _ _ _ => trivial⟩
    have formed := formed_visited ((Visited.of_reachable reachable).of_steps
      (Database.eachStep_of_forall (fun _ _ => trivial) _ _) ran)
    exact Database.quorum_updateLastIrreversibleBlock formed voting done raised

/-- The first years can pass in blocks without transactions. -/
theorem exists_quietBlocks
    {blocks : Nat}
    (small : blocks < Database.burnInitRepBlock) :
    ∃ db, RunState ext TimestampFits none db ∧ Quiet db ∧ HeadAt blocks db ∧
      db.comments = .empty ∧
        db.headBlockTime = genesisTime + blockInterval * blocks := by
  induction blocks with
  | zero =>
      exact ⟨initGenesis, .genesis, quiet_genesis, headAt_genesis, rfl, rfl⟩
  | succ blocks induction =>
      rcases induction (Nat.lt_of_succ_lt small) with
        ⟨db, run, quiet, head, empty, time⟩
      have early := quietTime_lt small
      have later : db.headBlockTime + blockInterval ≤
          genesisTime + blockInterval * (blocks + 1) :=
        time ▸ Nat.le_refl _
      rcases @Quiet.next_empty ext db blocks _ quiet head small later early
        empty with
        ⟨begun, after, begin, finish, ready⟩
      exact ⟨after, .step _ (.step _ run (.beginBlock _)
        (Nat.lt_succ_of_lt early) begin) (.finishBlock _) trivial finish,
        ready.quiet, ready.head, ready.content, ready.time⟩

/-- After thirty days the witness makes the block irreversible which it signs. -/
theorem last_irreversible_block_voting :
    ∃ db header middle after,
      RunState plainExternal TimestampFits (some header) db ∧
        (blockSteps.take 2).foldlM (Database.runStep plainExternal header) db =
            .ok middle ∧
          middle.headBlockNum = Database.startMinerVotingBlock + 1 ∧
          db.props.lastIrreversibleBlockNum ≤
              middle.props.lastIrreversibleBlockNum ∧
            middle.updateLastIrreversibleBlock = .ok after ∧
            after.props.lastIrreversibleBlockNum =
                Database.startMinerVotingBlock + 1 ∧
              middle.Quorum (Database.startMinerVotingBlock + 1) := by
  have small : Database.startMinerVotingBlock + 1 <
      Database.burnInitRepBlock := by
    decide
  rcases @exists_quietBlocks plainExternal _ (Nat.lt_of_succ_lt small) with
    ⟨start, run, quiet, head, -, time⟩
  let header := quietHeader start (start.headBlockTime + blockInterval)
  have early : header.timestamp < maximumTime := by
    change start.headBlockTime + blockInterval < maximumTime
    rw [time]
    decide
  rcases quiet.beginBlock head (Nat.le_refl _) early with
    ⟨db, begun, quiet, head, previous⟩
  have started := RunState.step (.beginBlock header) run (.beginBlock header)
    (Nat.lt_succ_of_lt early) begun
  have numbered : header.number = Database.startMinerVotingBlock + 1 := by
    have above : header.previous = db.props.headBlockId := previous.symm
    rw [BlockHeader.number, above, head.id]
    rfl
  rcases @Quiet.updateGlobalDynamicData db _ header quiet head small rfl
    previous.symm with ⟨set, write, quiet, height, id, -, same⟩
  rcases @Quiet.updateSigningWitness set header quiet rfl with
    ⟨middle, sign, quiet, props, signing, got, confirmed⟩
  rw [← props] at height id same
  have below := Nat.lt_succ_of_le (same.trans_le head.irreversible)
  rcases quiet.updateLastIrreversibleBlock height id (Nat.le_of_lt below) got
    (confirmed.trans numbered) with ⟨after, done, -, -, -, raised⟩
  have now := raised (Nat.le_succ _)
  have steps : (blockSteps.take 2).foldlM
      (Database.runStep plainExternal header) db = .ok middle := by
    show Except.bind (db.updateGlobalDynamicData header) _ = _
    rw [write]
    show Except.bind (set.updateSigningWitness header) _ = _
    rw [sign]
    rfl
  rcases (last_irreversible_block started).2.2 header _ middle rfl
    (List.take_prefix 2 blockSteps) steps with ⟨forward, -, votes⟩
  refine ⟨db, header, middle, after, started, steps, height, forward, done,
    now, ?_⟩
  exact now ▸ votes after done ((Nat.le_succ _).trans_eq height.symm)
    (now ▸ below)

end BMChain.State
