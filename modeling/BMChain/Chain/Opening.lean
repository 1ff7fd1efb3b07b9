import BMChain.Chain.PushSteps

/-!
# Opened databases and runs

`database::open` returns to the last irreversible state, with an empty undo
stack, and starts the fork database with the head block, which it reads from
the block log; a fresh database has no head block yet.  A run is a sequence
of `push_block` calls on an opened database.
-/

namespace BMChain.Chain

open BMChain.Protocol
open BMChain.Foundation

variable {Content Body Rest : Type}

variable {blocks : List (SignedBlock Content Body)}

variable {rules : Rules Content Body Rest} {db : Database Content Body Rest}
variable {allowed : SignedBlock Content Body → Prop}

/-- The fork database as constructed. -/
def ForkDatabase.empty : ForkDatabase Content Body where
  index := []
  head := none
  maxSize := 1024
  nextHandle := 0
  held := []

/-- What `open` finds: the state, the log, and the head block in the log. -/
structure Opening (Content Body Rest : Type) where
  state : ChainState Content Rest
  blockLog : List (SignedBlock Content Body)
  headBlock : Option (SignedBlock Content Body)
  fresh :
    headBlock = none →
      state.headBlockNum = 0 ∧ state.headBlockId = .zero
  started :
    ∀ block ∈ headBlock,
      block.id = state.headBlockId ∧
      block.blockNum = state.headBlockNum ∧
      block.blockNum ≠ 0
  irreversible :
    state.lastIrreversibleBlockNum ≤ state.headBlockNum

variable [DecidableEq Content]

/-- The database which `open` leaves. -/
def Opening.database
    (opening : Opening Content Body Rest) :
    Database Content Body Rest where
  chain := .opened opening.state opening.state.headBlockNum
  forkDb :=
    match opening.headBlock with
    | none => .empty
    | some block => ForkDatabase.empty.startBlock block
  blockLog := opening.blockLog
  poppedEmpty := false

/-- Every push of a run meets a condition on the database before it. -/
def StepsMeet
    (condition :
      Database Content Body Rest → SignedBlock Content Body → Prop)
    (rules : Rules Content Body Rest) :
    Database Content Body Rest → List (SignedBlock Content Body) → Prop
  | _, [] => True
  | db, block :: rest =>
      condition db block ∧
        StepsMeet condition rules (db.pushBlock rules block).1 rest

instance decidableStepsMeet
    (condition :
      Database Content Body Rest → SignedBlock Content Body → Prop)
    [∀ db block, Decidable (condition db block)]
    (rules : Rules Content Body Rest) :
    ∀ db blocks, Decidable (StepsMeet condition rules db blocks)
  | _, [] => isTrue trivial
  | db, block :: rest =>
      @instDecidableAnd _ _ _
        (decidableStepsMeet condition rules
          (db.pushBlock rules block).1 rest)

theorem stepsMeet_append
    {condition :
      Database Content Body Rest → SignedBlock Content Body → Prop}
    {blocks more : List (SignedBlock Content Body)} :
    StepsMeet condition rules db (blocks ++ more) ↔
      StepsMeet condition rules db blocks ∧
        StepsMeet condition rules (db.pushAll rules blocks) more := by
  induction blocks generalizing db with
  | nil => simp [StepsMeet, Database.pushAll]
  | cons block rest induction =>
      simp only [List.cons_append, StepsMeet, induction, and_assoc]
      rfl

theorem pushAll_append
    {blocks more : List (SignedBlock Content Body)} :
    db.pushAll rules (blocks ++ more) =
      (db.pushAll rules blocks).pushAll rules more := by
  simp [Database.pushAll]

/-- An invariant which every conditioned push keeps holds after the run. -/
theorem pushAll_invariant
    {condition :
      Database Content Body Rest → SignedBlock Content Body → Prop}
    (invariant : Database Content Body Rest → Prop)
    (step :
      ∀ db block,
        invariant db → condition db block →
          invariant (db.pushBlock rules block).1)
    (initial : invariant db)
    (steps : StepsMeet condition rules db blocks) :
    invariant (db.pushAll rules blocks) := by
  induction blocks generalizing db with
  | nil => exact initial
  | cons block rest induction =>
      exact induction (step db block initial steps.1) steps.2

/-! ## Runs as moves -/

/-- Blocks pushed to a database without a head have a positive number. -/
def Numbered
    (db : Database Content Body Rest)
    (blocks : List (SignedBlock Content Body)) : Prop :=
  db.forkDb.head = none → ∀ block ∈ blocks, block.blockNum ≠ 0

theorem opening_wellLinked
    (opening : Opening Content Body Rest)
    (isAllowed : ∀ block ∈ opening.headBlock, allowed block) :
    opening.database.forkDb.WellLinked allowed := by
  unfold Opening.database
  cases headBlock : opening.headBlock with
  | none =>
      exact ⟨by simp [ForkDatabase.empty], by simp [ForkDatabase.empty]⟩
  | some block =>
      have admissible : Admissible allowed block :=
        ⟨(opening.started block headBlock).2.2, isAllowed block headBlock⟩
      constructor
      · simpa [ForkDatabase.startBlock, ForkDatabase.fetchBlock,
          ForkDatabase.empty, ForkItem.chain, LinkedChain] using admissible
      · simpa [ForkDatabase.startBlock, ForkItem.chain, LinkedChain]
          using admissible

theorem Numbered.tail
    {block : SignedBlock Content Body}
    {rest : List (SignedBlock Content Body)}
    (numbered : Numbered db (block :: rest))
    (moves : Moves rules allowed db (db.pushBlock rules block).1) :
    Numbered (db.pushBlock rules block).1 rest := by
  intro headless other member
  have before : db.forkDb.head = none := by
    cases head : db.forkDb.head with
    | none => rfl
    | some item =>
        have := moves.started (by simp [head])
        simp [headless] at this
  exact numbered before other (by simp [member])

/-- A run moves the chain by steps and keeps the fork database linked. -/
theorem pushAll_moves
    (rules : Rules Content Body Rest)
    (wellLinked : db.forkDb.WellLinked allowed)
    (isAllowed : ∀ block ∈ blocks, allowed block)
    (numbered : Numbered db blocks) :
    Moves rules allowed db (db.pushAll rules blocks) := by
  induction blocks generalizing db with
  | nil => exact .refl rules db
  | cons block rest induction =>
      rw [List.forall_mem_cons] at isAllowed
      have moves :=
        pushBlock_moves rules db block wellLinked isAllowed.1
          fun headless => numbered headless block (by simp)
      exact moves.trans
        (induction (moves.forkDb wellLinked) isAllowed.2
          (numbered.tail moves))

/-- Both parts of a run are numbered. -/
theorem Numbered.append
    (rules : Rules Content Body Rest)
    {blocks more : List (SignedBlock Content Body)}
    (numbered : Numbered db (blocks ++ more))
    (wellLinked : db.forkDb.WellLinked fun _ => True) :
    Numbered db blocks ∧ Numbered (db.pushAll rules blocks) more := by
  have first : Numbered db blocks :=
    fun headless block member => numbered headless block (by simp [member])
  refine ⟨first, fun headless block member => ?_⟩
  have moves :=
    pushAll_moves rules wellLinked (fun _ _ => trivial) first
  cases head : db.forkDb.head with
  | none => exact numbered head block (by simp [member])
  | some item =>
      have := moves.started (by simp [head])
      simp [headless] at this

/-! ## A small chain for examples -/

/-- Rules which accept exactly the blocks whose body is well formed. -/
def sampleRules : Rules Nat Bool Unit where
  prelude _ block := if block.body then .ok () else .error ()
  lastConfirmed _ := []
  maintenance _ _ := .ok ()

/-- A block of the sample chain. -/
def sampleBlock
    (previous : BlockId Nat)
    (content : Nat)
    (body : Bool) :
    SignedBlock Nat Bool :=
  ⟨previous, content, body⟩

/-- The first block of the sample chain. -/
def firstBlock : SignedBlock Nat Bool := sampleBlock .zero 0 true

/-- A database opened at the first block. -/
def sampleOpening : Opening Nat Bool Unit where
  state := ⟨firstBlock.id, 1, 0, [firstBlock.id], ()⟩
  blockLog := [firstBlock]
  headBlock := some firstBlock
  fresh := by simp
  started := by
    rintro block ⟨⟩
    decide
  irreversible := by decide

end BMChain.Chain
