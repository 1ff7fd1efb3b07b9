import BMChain.State.ReplayProtection
import BMChain.State.Run

/-!
# The clock of a run

The head time is set by the first step of a block's end, to a time after the
one before, and by nothing else.
-/

namespace BMChain.State

open BMChain.Foundation BMChain.Protocol

variable {header : BlockHeader}

namespace Database

variable {ext : External} {db after : Database}

theorem time_applyOperation
    {op : Operation}
    (done : db.applyOperation ext op = .ok after) :
    after.headBlockTime = db.headBlockTime :=
  congrArg (fun head => head.2.2) (applyOperation_head done).1

/-- A block is begun for a later time. -/
theorem time_beginBlock
    (done : db.beginBlock header = .ok after) :
    db.headBlockTime < header.timestamp ∧
      after.headBlockTime = db.headBlockTime := by
  constructor
  · simp only [beginBlock, validateBlockHeader, bind_eq_ok_iff,
      require_eq_ok_iff] at done
    rcases done with ⟨_, ⟨_, -, _, later, -⟩, -⟩
    exact later
  · have agrees := touches_beginBlock db header after done
    exact congrArg (fun head => head.2.2) (headOf_of_agrees agrees rfl)

/-- Within the end of a block the head time is set, or stays. -/
theorem time_runStep
    {step : BlockStep}
    (done : db.runStep ext header step = .ok after) :
    after.headBlockTime = header.timestamp ∨
      after.headBlockTime = db.headBlockTime := by
  by_cases first : step = .updateGlobalDynamicData
  · subst first
    exact .inl (congrArg (fun head => head.2.2)
      (updateGlobalDynamicData_head done).1)
  · exact .inr (congrArg (fun head => head.2.2) (runStep_keeps first done).1)

theorem time_finishBlock
    (done : db.finishBlock ext header = .ok after) :
    after.headBlockTime = header.timestamp :=
  congrArg (fun head => head.2.2) (finishBlock_head done).1

end Database

/-- The head time is not before genesis, and before the block which is applied. -/
theorem RunState.clock
    {ext : External}
    {allowed : Database → Event → Prop}
    {block : Option BlockHeader}
    {db : Database}
    (run : RunState ext allowed block db) :
    genesisTime ≤ db.headBlockTime ∧
      ∀ header, block = some header → db.headBlockTime < header.timestamp := by
  induction run with
  | genesis => exact ⟨Nat.le_refl _, fun header none => by cases none⟩
  | step event _ phase _ stepped induction =>
      rcases induction with ⟨start, ahead⟩
      cases phase with
      | operation op block =>
          simp only [Database.step, bind_eq_ok_iff] at stepped
          rcases stepped with ⟨_, -, done⟩
          rw [Database.time_applyOperation done]
          exact ⟨start, ahead⟩
      | beginBlock header =>
          rcases Database.time_beginBlock stepped with ⟨later, same⟩
          rw [same]
          refine ⟨start, ?_⟩
          intro other same
          cases same
          exact later
      | finishBlock header =>
          have later := ahead header rfl
          rw [Database.time_finishBlock stepped]
          refine ⟨Nat.le_trans start (Nat.le_of_lt later), ?_⟩
          intro other none
          cases none

/-- The blocks of a run are applied for times after the head. -/
theorem RunState.ahead
    {ext : External}
    {allowed : Database → Event → Prop}
    {db : Database}
    {block next : Option BlockHeader}
    (run : RunState ext allowed block db)
    (phase : Phase (.finishBlock header) block next) :
    genesisTime ≤ db.headBlockTime ∧ db.headBlockTime < header.timestamp := by
  cases phase
  exact ⟨run.clock.1, run.clock.2 header rfl⟩

end BMChain.State
