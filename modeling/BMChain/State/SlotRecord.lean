import BMChain.Foundation.ShiftRegister
import BMChain.State.IrreversibleBlock

/-!
# The record of filled slots

The global properties keep 128 slots as bits and count the ones among them.
The slot of a block is entered before those which were missed ahead of it, so
that a bit stands for the slot one before that which its place suggests.
-/

namespace BMChain.State

open BMChain.Foundation BMChain.Protocol

variable {props : DynamicGlobalProperties} {db after : Database}
    {ext : External} {header : BlockHeader}

namespace Database

/-! ## What the record says -/

/-- The number of slots which `update_global_dynamic_data` finds missed. -/
def missedSlots (db : Database) (header : BlockHeader) : Nat :=
  if db.headBlockTime = 0 then 0
  else decrement 32 (db.getSlotAtTime header.timestamp)

/-- The participation count is the number of ones in the record. -/
def CountsSlots (db : Database) : Prop :=
  db.props.participationCount = onesBelow 128 db.props.recentSlotsFilled

/-- The bits of the record are the slots which were filled. -/
def RecordsSlots (filled : Nat → Prop) (db : Database) : Prop :=
  ∀ age, age < 128 → age < db.props.currentAslot →
    (db.props.recentSlotsFilled.testBit age = true ↔
      filled (db.props.currentAslot - age))

/-- The bits are those of the slots one earlier, of which genesis is the first. -/
def RecordsEarlierSlots (filled : Nat → Prop) (db : Database) : Prop :=
  ∀ age, age < 128 → age < db.props.currentAslot →
    (db.props.recentSlotsFilled.testBit age = true ↔
      db.props.currentAslot - (age + 1) = 0 ∨
        filled (db.props.currentAslot - (age + 1)))

/-- No slot of the record is missed, nor the one before them. -/
def NoSlotMissed (filled : Nat → Prop) (db : Database) : Prop :=
  ∀ age, age ≤ 128 → age < db.props.currentAslot →
    filled (db.props.currentAslot - age)

/-- Note the slot in which a block is applied. -/
def noteSlot (filled : Nat → Prop) (_ : Database) :
    Event → Database → Nat → Prop
  | .finishBlock _, after =>
      fun slot => filled slot ∨ slot = after.props.currentAslot
  | _, _ => filled

/-- The part of the global properties which is about slots. -/
def slotsOf (db : Database) : Nat × Nat × Nat :=
  (db.props.currentAslot, db.props.recentSlotsFilled,
    db.props.participationCount)

/-! ## One slot -/

theorem recentSlotsFilled_recordSlot
    (filled : Bool)
    (props : DynamicGlobalProperties) :
    (recordSlot filled props).recentSlotsFilled =
      shiftIn 128 props.recentSlotsFilled filled := by
  cases filled <;> rfl

/-- The counter of 8 bits has room for the ones of the register. -/
theorem counts_recordSlot
    {filled : Bool}
    (counts : props.participationCount =
      onesBelow 128 props.recentSlotsFilled) :
    (recordSlot filled props).participationCount =
      onesBelow 128 (recordSlot filled props).recentSlotsFilled := by
  have shifted : onesBelow 128 (shiftIn 128 props.recentSlotsFilled filled) +
        (props.recentSlotsFilled.testBit 127).toNat =
      onesBelow 128 props.recentSlotsFilled + filled.toNat :=
    onesBelow_shiftIn 127 props.recentSlotsFilled filled
  have bound := onesBelow_le 128
    (shiftIn 128 props.recentSlotsFilled filled)
  have top := Nat.toNat_testBit props.recentSlotsFilled 127
  have small := Bool.toNat_lt (props.recentSlotsFilled.testBit 127)
  rw [recentSlotsFilled_recordSlot]
  show (props.participationCount +
      (2 ^ 8 - props.recentSlotsFilled / 2 ^ 127 % 2) +
        if filled = true then 1 else 0) % 2 ^ 8 = _
  have entered : (if filled = true then 1 else 0) = filled.toNat := by
    cases filled <;> rfl
  rw [← top, counts, entered]
  omega

/-! ## One block -/

theorem slots_of_agrees
    {fields : List Field}
    {before after : Database}
    (agrees : Agrees fields before after)
    (separate : apart [.props .head] fields = true) :
    after.slotsOf = before.slotsOf := by
  have head : Field.read (.props .head) after =
      Field.read (.props .head) before :=
    agrees.read_eq separate List.mem_cons_self
  simp only [Field.read, PropsAspect.read, Prod.mk.injEq] at head
  rcases head with ⟨-, -, -, slot, register, count, -⟩
  rw [slotsOf, slotsOf, slot, register, count]

theorem slots_applyOperation
    {op : Operation}
    (done : db.applyOperation ext op = .ok after) :
    after.slotsOf = db.slotsOf := by
  refine slots_of_agrees (touches_applyOperation ext db op after done) ?_
  cases op <;> rfl

/-- The steps of a block after the first leave the slots alone. -/
theorem slots_runStep
    {step : BlockStep}
    (later : step ≠ .updateGlobalDynamicData)
    (done : db.runStep ext header step = .ok after) :
    after.slotsOf = db.slotsOf := by
  have agrees := touches_runStep ext header db step after done
  cases step with
  | updateGlobalDynamicData => exact absurd rfl later
  | updateLastIrreversibleBlock =>
      simp only [runStep, updateLastIrreversibleBlock] at done
      split at done
      · cases done
        rfl
      · simp only [bind_eq_ok_iff, pure_eq_ok_iff] at done
        rcases done with ⟨_, -, _, -, rfl⟩
        rfl
  | _ => exact slots_of_agrees agrees rfl

/-- The properties once the slots up to that of a block are entered. -/
def recordSlots (missed : Nat) (props : DynamicGlobalProperties) :
    DynamicGlobalProperties :=
  (List.range (missed + 1)).foldl
    (fun props place => recordSlot (place = 0) props) props

/-- The first step of a block enters its slot and those which were missed. -/
theorem slots_updateGlobalDynamicData
    (done : db.updateGlobalDynamicData header = .ok after) :
    after.slotsOf =
      ((db.props.currentAslot + db.missedSlots header + 1) % 2 ^ 64,
        (recordSlots (db.missedSlots header) db.props).recentSlotsFilled,
        (recordSlots (db.missedSlots header) db.props).participationCount) := by
  simp only [updateGlobalDynamicData, bind_eq_ok_iff, pure_eq_ok_iff] at done
  rcases done with ⟨marked, slots, _, -, rfl⟩
  have same : marked.props = db.props := by
    refine foldlM_invariant (fun state : Database => state.props = db.props)
      ?_ slots rfl
    intro state place next _ missing held
    exact (props_missSlot missing).trans held
  have aslot : ∀ places : List Nat, ∀ props : DynamicGlobalProperties,
      (places.foldl (fun props place => recordSlot (place = 0) props)
        props).currentAslot = props.currentAslot := by
    intro places
    induction places with
    | nil => exact fun _ => rfl
    | cons place rest induction => exact fun props => induction _
  show ((_ : Nat), (_ : Nat), (_ : Nat)) = _
  rw [same, aslot]
  rfl

theorem slots_finishBlock
    (done : db.finishBlock ext header = .ok after) :
    after.slotsOf =
      ((db.props.currentAslot + db.missedSlots header + 1) % 2 ^ 64,
        (recordSlots (db.missedSlots header) db.props).recentSlotsFilled,
        (recordSlots (db.missedSlots header) db.props).participationCount) := by
  rw [finishBlock, blockSteps, List.foldlM_cons, bind_eq_ok_iff] at done
  rcases done with ⟨updated, first, done⟩
  rw [← slots_updateGlobalDynamicData first]
  refine foldlM_invariant (fun state : Database =>
    state.slotsOf = updated.slotsOf) ?_ done rfl
  intro state step next member stepped held
  have later : step ≠ .updateGlobalDynamicData := by
    rintro rfl
    simp at member
  exact (slots_runStep later stepped).trans held

theorem slots_step
    {event : Event}
    (stepped : db.step ext event = .ok after) :
    after.slotsOf = match event with
      | .finishBlock header =>
          ((db.props.currentAslot + db.missedSlots header + 1) % 2 ^ 64,
            (recordSlots (db.missedSlots header) db.props).recentSlotsFilled,
            (recordSlots (db.missedSlots header)
              db.props).participationCount)
      | _ => db.slotsOf := by
  cases event with
  | operation op =>
      simp only [step, bind_eq_ok_iff] at stepped
      rcases stepped with ⟨_, -, done⟩
      exact slots_applyOperation done
  | beginBlock header =>
      exact slots_of_agrees (touches_beginBlock db header after stepped) rfl
  | finishBlock header => exact slots_finishBlock stepped

/-! ## The count -/

theorem counts_recordSlots
    {missed : Nat}
    (counts : props.participationCount =
      onesBelow 128 props.recentSlotsFilled) :
    (recordSlots missed props).participationCount =
      onesBelow 128 (recordSlots missed props).recentSlotsFilled := by
  unfold recordSlots
  generalize List.range (missed + 1) = places
  induction places generalizing props with
  | nil => exact counts
  | cons place rest induction => exact induction (counts_recordSlot counts)

theorem CountsSlots.step
    {event : Event}
    (counts : db.CountsSlots)
    (stepped : db.step ext event = .ok after) :
    after.CountsSlots := by
  have slots := slots_step stepped
  cases event with
  | finishBlock header =>
      simp only [slotsOf, Prod.mk.injEq] at slots
      rw [CountsSlots, slots.2.1, slots.2.2]
      exact counts_recordSlots counts
  | _ =>
      simp only [slotsOf, Prod.mk.injEq] at slots
      rw [CountsSlots, slots.2.1, slots.2.2]
      exact counts

/-! ## The bits -/

theorem testBit_recordSlots
    (missed : Nat)
    (props : DynamicGlobalProperties)
    {age : Nat}
    (inside : age < 128) :
    (recordSlots missed props).recentSlotsFilled.testBit age =
      if age < missed then false
      else if age = missed then true
      else props.recentSlotsFilled.testBit (age - missed - 1) := by
  have register : (recordSlots missed props).recentSlotsFilled =
      shiftInGap 128 props.recentSlotsFilled missed := by
    unfold recordSlots shiftInGap
    generalize List.range (missed + 1) = places
    induction places generalizing props with
    | nil => rfl
    | cons place rest induction =>
        rw [List.foldl_cons, List.foldl_cons, induction,
          recentSlotsFilled_recordSlot]
  rw [register]
  exact testBit_shiftInGap 127 _ missed inside

/-- The record is one slot late, and the newest slot is that of a block. -/
structure RecordLags (filled : Nat → Prop) (db : Database) : Prop where
  records : RecordsEarlierSlots filled db
  newest : 0 < db.props.currentAslot → filled db.props.currentAslot
  past : ∀ slot, filled slot → 0 < slot ∧ slot ≤ db.props.currentAslot
  /-- A block takes at least a second, and less than all slots of 32 bits. -/
  timed : (2 ^ 32 : Nat) * genesisTime + db.props.currentAslot ≤
    (2 ^ 32 : Nat) * db.headBlockTime

theorem RecordLags.of_slots
    {filled : Nat → Prop}
    (lags : RecordLags filled db)
    (slots : after.slotsOf = db.slotsOf)
    (time : after.headBlockTime = db.headBlockTime) :
    RecordLags filled after := by
  simp only [slotsOf, Prod.mk.injEq] at slots
  rcases slots with ⟨slot, register, -⟩
  constructor
  case records =>
    rw [RecordsEarlierSlots, slot, register]
    exact lags.records
  case newest =>
    rw [slot]
    exact lags.newest
  case past =>
    rw [slot]
    exact lags.past
  case timed =>
    rw [slot, time]
    exact lags.timed

theorem missedSlots_lt
    (db : Database)
    (header : BlockHeader) :
    db.missedSlots header < 2 ^ 32 := by
  unfold missedSlots
  split
  · decide
  · exact Nat.mod_lt _ (by decide)

/-- The slot after that of the block before is the one which is entered. -/
theorem RecordLags.finishBlock
    {filled : Nat → Prop}
    (lags : RecordLags filled db)
    (later : db.headBlockTime < header.timestamp)
    (fits : header.timestamp < 2 ^ 32)
    (done : db.finishBlock ext header = .ok after) :
    RecordLags (noteSlot filled db (.finishBlock header) after) after := by
  have few := missedSlots_lt db header
  have timed := lags.timed
  have slots := slots_finishBlock done
  have time := time_finishBlock done
  simp only [slotsOf, Prod.mk.injEq] at slots
  rcases slots with ⟨slot, register, -⟩
  have moved : (2 ^ 32 : Nat) * (db.headBlockTime + 1) ≤
      (2 ^ 32 : Nat) * header.timestamp :=
    Nat.mul_le_mul_left _ later
  have bounded : (2 ^ 32 : Nat) * header.timestamp ≤
      (2 ^ 32 : Nat) * (2 ^ 32 - 1) :=
    Nat.mul_le_mul_left _ (Nat.le_sub_one_of_lt fits)
  rw [Nat.mod_eq_of_lt (by omega)] at slot
  constructor
  case records =>
    intro age inside since
    rw [register, testBit_recordSlots _ _ inside]
    rcases Nat.lt_trichotomy age (db.missedSlots header) with
      missed | rfl | older
    · -- a slot after that of the block before, which nobody took
      rw [if_pos missed]
      constructor
      · rintro ⟨⟩
      · rintro (genesis | known | new)
        · omega
        · have := (lags.past _ known).2
          omega
        · omega
    · have place : after.props.currentAslot - (db.missedSlots header + 1) =
          db.props.currentAslot := by omega
      rw [if_neg (Nat.lt_irrefl _), if_pos rfl, place]
      refine ⟨fun _ => ?_, fun _ => rfl⟩
      rcases Nat.eq_zero_or_pos db.props.currentAslot with genesis | some
      · exact .inl genesis
      · exact .inr (.inl (lags.newest some))
    · have place : after.props.currentAslot - (age + 1) =
          db.props.currentAslot - (age - db.missedSlots header - 1 + 1) := by
        omega
      rw [if_neg (Nat.lt_asymm older), if_neg (Nat.ne_of_gt older),
        lags.records _ (by omega) (by omega), ← place]
      refine or_congr Iff.rfl ⟨.inl, ?_⟩
      rintro (known | new)
      · exact known
      · omega
  case newest => exact fun _ => .inr rfl
  case past =>
    rintro place (known | rfl)
    · have bounds := lags.past place known
      omega
    · omega
  case timed =>
    rw [time]
    omega

/-- A record which is one slot late is right where no slot is missed. -/
theorem RecordLags.records_iff
    {filled : Nat → Prop}
    (lags : RecordLags filled db) :
    RecordsSlots filled db ↔ NoSlotMissed filled db := by
  constructor
  case mp =>
    intro records age
    induction age with
    | zero => exact fun _ since => lags.newest since
    | succ age induction =>
        intro inside since
        have known := induction (Nat.le_of_succ_le inside)
          (Nat.lt_of_succ_lt since)
        have set := (records age inside (Nat.lt_of_succ_lt since)).2 known
        rcases (lags.records age inside (Nat.lt_of_succ_lt since)).1 set with
          genesis | filled
        · omega
        · exact filled
  case mpr =>
    intro none age inside since
    refine ⟨fun _ => none age (Nat.le_of_lt inside) since, fun _ => ?_⟩
    refine (lags.records age inside since).2 ?_
    rcases Nat.lt_or_ge (age + 1) db.props.currentAslot with more | all
    · exact .inr (none (age + 1) inside more)
    · exact .inl (Nat.sub_eq_zero_of_le all)

end Database

open Database

theorem RecordLags.of_run
    {filled : Nat → Prop}
    {block : Option BlockHeader}
    (run : RecordedRun ext TimestampFits (fun _ => False) noteSlot filled
      block db) :
    RecordLags filled db := by
  induction run with
  | genesis =>
      constructor
      case records => exact fun _ _ since => absurd since (Nat.not_lt_zero _)
      case newest => exact fun some => absurd some (Nat.lt_irrefl 0)
      case past => rintro _ ⟨⟩
      case timed => exact Nat.le_refl _
  | step event before phase _ stepped induction =>
      cases phase with
      | finishBlock header =>
          rcases (bounds_run before.runState).2 header rfl with
            ⟨-, later, fits⟩
          exact induction.finishBlock later fits stepped
      | operation op =>
          have slots := slots_step stepped
          simp only [Database.step, bind_eq_ok_iff] at stepped
          rcases stepped with ⟨_, -, done⟩
          exact induction.of_slots slots (time_applyOperation done)
      | beginBlock header =>
          exact induction.of_slots (slots_step stepped)
            (time_beginBlock stepped).2

/--
The count of the slots is right in every run, and the bits are those of the
slots one earlier.  They are the slots which their places suggest as long as
none of these is missed, and not after.
-/
theorem slot_record_holds
    {ext : External} :
    (∀ filled block db,
      RecordedRun ext (fun _ _ => True) (fun _ => False) noteSlot filled
          block db →
        CountsSlots db) ∧
      ∀ filled block db,
        RecordedRun ext TimestampFits (fun _ => False) noteSlot filled block
            db →
          RecordsEarlierSlots filled db ∧
            (RecordsSlots filled db ↔ NoSlotMissed filled db) := by
  constructor
  case left =>
    intro filled block db run
    refine run.invariant (fun _ state => CountsSlots state) ?_ ?_
    · show 128 = onesBelow 128 (2 ^ 128 - 1)
      decide +kernel
    · exact fun _ _ _ _ _ stepped counts => counts.step stepped
  case right =>
    intro filled block db run
    have lags := RecordLags.of_run run
    exact ⟨lags.records, lags.records_iff⟩

/-- The header of a first block in the second slot. -/
def lateHeader : BlockHeader :=
  { firstHeader with timestamp := genesisTime + 6 }

/-- A first block in the second slot is entered as one in the first. -/
theorem slot_record_fails :
    ∃ filled db,
      RecordedRun plainExternal (fun _ _ => True) (fun _ => False) noteSlot
          filled none db ∧
        ¬RecordsSlots filled db := by
  have ran : ([Event.beginBlock lateHeader, .finishBlock lateHeader].foldlM
      (Database.step plainExternal) initGenesis).bind (fun db =>
        require (db.props.currentAslot = 2 ∧
          db.props.recentSlotsFilled.testBit 0 = false) "") = .ok () := by
    decide +kernel
  rcases (bind_eq_ok_iff _ _ _).1 ran with ⟨db, done, facts⟩
  rw [require_eq_ok_iff] at facts
  rw [List.foldlM_cons, bind_eq_ok_iff] at done
  rcases done with ⟨begun, first, done⟩
  rw [List.foldlM_cons, bind_eq_ok_iff] at done
  rcases done with ⟨after, second, done⟩
  cases done
  have run : RecordedRun plainExternal (fun _ _ => True) (fun _ => False)
      noteSlot _ none db :=
    .step (.finishBlock lateHeader)
      (.step (.beginBlock lateHeader) .genesis (.beginBlock _) trivial first)
      (.finishBlock _) trivial second
  refine ⟨_, db, run, fun records => ?_⟩
  have lowest := (records 0 (by decide) (by rw [facts.1]; decide)).2
    (.inr rfl)
  rw [facts.2] at lowest
  cases lowest

/-- The same block, whose slot is recorded in the place of the one before. -/
theorem slot_record_holds_late_block :
    ∃ filled db,
      RecordedRun plainExternal TimestampFits (fun _ => False) noteSlot filled
          none db ∧
        CountsSlots db ∧ filled 2 ∧ ¬filled 1 ∧
          db.props.currentAslot = 2 ∧
            db.props.recentSlotsFilled.testBit 0 = false ∧
              db.props.recentSlotsFilled.testBit 1 = true := by
  have ran : (initGenesis.step plainExternal (.beginBlock lateHeader)).bind
      (fun begun => (begun.step plainExternal (.finishBlock lateHeader)).bind
        fun db => require (db.props.currentAslot = 2) "") = .ok () := by
    decide +kernel
  rcases (bind_eq_ok_iff _ _ _).1 ran with ⟨begun, first, ran⟩
  rcases (bind_eq_ok_iff _ _ _).1 ran with ⟨db, second, slot⟩
  rw [require_eq_ok_iff] at slot
  have early : lateHeader.timestamp < 2 ^ 32 := by decide
  have run : RecordedRun plainExternal TimestampFits (fun _ => False) noteSlot _
      none db :=
    .step (.finishBlock lateHeader)
      (.step (.beginBlock lateHeader) .genesis (.beginBlock _) early first)
      (.finishBlock _) trivial second
  have holds := @slot_record_holds plainExternal
  have records := (holds.2 _ _ _ run).1
  have free : ¬(noteSlot (noteSlot (fun _ => False) initGenesis
      (.beginBlock lateHeader) begun) begun (.finishBlock lateHeader) db)
        1 := by
    rintro (⟨⟨⟩⟩ | one)
    rw [slot] at one
    cases one
  have lowest := records 0 (by decide) (by rw [slot]; decide)
  have next := records 1 (by decide) (by rw [slot]; decide)
  rw [slot] at lowest next
  refine ⟨_, db, run, holds.1 _ _ _ (run.mono fun _ _ _ => trivial),
    .inr slot.symm, free, slot, ?_, next.2 (.inl rfl)⟩
  refine Bool.eq_false_iff.2 fun set => ?_
  rcases lowest.1 set with ⟨⟨⟩⟩ | filled
  exact free filled

end BMChain.State
