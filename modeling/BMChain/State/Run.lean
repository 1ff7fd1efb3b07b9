import BMChain.State.Maintenance

/-!
# Genesis and runs

The state which `init_genesis` creates, and the runs which start from it: an
operation which passes `validate` and its evaluator, or the part of a block
before or after its transactions.
-/

namespace BMChain.State

open BMChain.Foundation BMChain.Protocol

variable {header : BlockHeader}

variable {steps : List BlockStep} {Value : Type} {result : Except Fault Value}

/-! ## Genesis -/

/-- `BMCHAIN_INIT_SUPPLY`. -/
def initSupply : Int := 92000000000

/-- `BMCHAIN_INIT_PUBLIC_KEY`. -/
def initPublicKey : PublicKey := 1

/-- The key of the account `devs`. -/
def devPublicKey : PublicKey := 2

/-- The shares of the account `devs`. -/
def devShares : Int := 100000000

/-- The accounts of `init_genesis`, in the order of their creation. -/
def genesisAccounts : List AccountObject :=
  [{ id := 0, name := "miners" },
    { id := 1, name := nullAccount },
    { id := 2, name := "temp" },
    { id := 3, name := initMinerName
      memoKey := initPublicKey
      balance := initSupply * 9 / 10
      vestingShares := Database.initSupplyRep },
    { id := 4, name := "devs"
      memoKey := devPublicKey
      balance := initSupply / 10
      vestingShares := devShares }]

/-- The authority which one key satisfies. -/
def keyAuthority (key : PublicKey) : Authority :=
  ⟨1, [], [(key, 1)]⟩

/-- An authority object with one authority in all three places. -/
def uniformAuthority (account : AccountName) (authority : Authority) :
    AccountAuthorityObject :=
  ⟨account, authority, authority, authority, 0⟩

/-- The authority objects of `init_genesis`. -/
def genesisAuthorities : List AccountAuthorityObject :=
  [uniformAuthority "miners" (.ofThreshold 1),
    uniformAuthority nullAccount (.ofThreshold 1),
    ⟨"temp", .ofThreshold 0, .ofThreshold 0, .ofThreshold 1, 0⟩,
    uniformAuthority initMinerName (keyAuthority initPublicKey),
    uniformAuthority "devs" (keyAuthority devPublicKey)]

/-- Rows under the names which a function reads from them. -/
def registerOf {Row : Type} (name : Row → String) (rows : List Row) :
    Register Row :=
  rows.foldl (fun register row => register.emplace (name row) row) .empty

/-- The global properties of `init_genesis`. -/
def genesisProps : DynamicGlobalProperties :=
  let rep := Database.initSupplyRep + devShares
  let supply := initSupply + rep / 1000
  { time := genesisTime
    currentWitness := initMinerName
    recentSlotsFilled := maxUint128
    participationCount := 128
    currentSupply := supply
    virtualSupply := supply
    lastCurrentSupply := supply
    totalVestingShares := rep
    totalVestingFundBmt := rep / 1000
    maximumBlockSize := 1024 * 64 * blockInterval * 2000 }

/-- `init_genesis`. -/
def initGenesis : Database where
  accounts := registerOf AccountObject.name genesisAccounts
  authorities := registerOf AccountAuthorityObject.account genesisAuthorities
  witnesses := registerOf WitnessObject.owner
    [{ id := 0
       owner := initMinerName
       signingKey := initPublicKey
       schedule := .miner }]
  witnessVotes := .empty
  comments := .empty
  commentVotes := .empty
  rewardFunds := Table.empty.emplace
    { name := postRewardFundName
      lastUpdate := genesisTime
      contentConstant := 2000000000000
      percentCurationRewards := 2500
      percentContentRewards := hundredPercent
      authorRewardCurve := .quadratic
      curationRewardCurve := .squareRoot }
  limitOrders := .empty
  convertRequests := .empty
  escrows := .empty
  savingsWithdraws := .empty
  withdrawRoutes := .empty
  contentOrders := .empty
  delegations := .empty
  delegationExpirations := .empty
  ownerHistory := .empty
  recoveryRequests := .empty
  changeRecoveryRequests := .empty
  declineRequests := .empty
  customTokens := .empty
  accountBalances := .empty
  transactions := .empty
  blockSummaries := ∅
  props := genesisProps
  schedule :=
    { currentShuffledWitnesses :=
        initMinerName :: List.replicate (maxWitnesses - 1) "" }
  hardforks := { processedHardforks := [genesisTime] }
  virtualOperations := []

/-- What every account of genesis has holds for an account found there. -/
theorem genesis_account
    (property : AccountObject → Prop)
    (all : ∀ row ∈ initGenesis.accounts.entries.map Prod.snd, property row)
    {name : AccountName}
    {account : AccountObject}
    (found : initGenesis.accounts.find? name = some account) :
    property account := by
  refine all account (List.mem_map.2 ⟨(name, account), ?_, rfl⟩)
  exact Std.ExtTreeMap.mem_toList_iff_getElem?_eq_some.2 found

/-! ## Runs -/

/-- What happens to the state. -/
inductive Event where
  | operation (op : Operation)
  | beginBlock (header : BlockHeader)
  | finishBlock (header : BlockHeader)

/-- The effect of an event. -/
def Database.step (ext : External) (db : Database) :
    Event → Except Fault Database
  | .operation op => do
      op.validate ext
      db.applyOperation ext op
  | .beginBlock header => db.beginBlock header
  | .finishBlock header => db.finishBlock ext header

/-- The block which is being applied, if any, before and after an event. -/
inductive Phase : Event → Option BlockHeader → Option BlockHeader → Prop
  | operation (op : Operation) (block : Option BlockHeader) :
      Phase (.operation op) block block
  | beginBlock (header : BlockHeader) :
      Phase (.beginBlock header) none (some header)
  | finishBlock (header : BlockHeader) :
      Phase (.finishBlock header) (some header) none

/--
The states of runs from genesis whose events are all allowed, with the block
which is being applied.
-/
inductive RunState (ext : External) (allowed : Database → Event → Prop) :
    Option BlockHeader → Database → Prop
  | genesis : RunState ext allowed none initGenesis
  | step {block next : Option BlockHeader} {db after : Database}
      (event : Event) :
      RunState ext allowed block db → Phase event block next →
        allowed db event → db.step ext event = .ok after →
          RunState ext allowed next after

theorem RunState.mono
    {ext : External}
    {allowed weaker : Database → Event → Prop}
    (implied : ∀ db event, allowed db event → weaker db event)
    {block : Option BlockHeader}
    {db : Database}
    (run : RunState ext allowed block db) :
    RunState ext weaker block db := by
  induction run with
  | genesis => exact .genesis
  | step event _ phase permitted stepped induction =>
      exact .step event induction phase (implied _ _ permitted) stepped

/-- What the runs which lead to an event say about it may be required of it. -/
theorem RunState.strengthen
    {ext : External}
    {allowed stronger : Database → Event → Prop}
    (implied : ∀ block next db event,
      RunState ext allowed block db → Phase event block next →
        allowed db event → stronger db event)
    {block : Option BlockHeader}
    {db : Database}
    (run : RunState ext allowed block db) :
    RunState ext stronger block db := by
  induction run with
  | genesis => exact .genesis
  | step event before phase permitted stepped induction =>
      exact .step event induction phase
        (implied _ _ _ event before phase permitted) stepped

/-- The states reachable from genesis. -/
def Reachable (ext : External) (db : Database) : Prop :=
  ∃ block, RunState ext (fun _ _ => True) block db

/-- Events which can follow one another, with the block before and after. -/
def Phases : List Event → Option BlockHeader → Option BlockHeader → Prop
  | [], block, next => block = next
  | event :: rest, block, next =>
      ∃ middle, Phase event block middle ∧ Phases rest middle next

/-- A run goes on with events which all succeed. -/
theorem RunState.of_foldlM
    {ext : External}
    {events : List Event}
    {block next : Option BlockHeader}
    {db after : Database}
    (run : RunState ext (fun _ _ => True) block db)
    (phases : Phases events block next)
    (ran : events.foldlM (Database.step ext) db = .ok after) :
    RunState ext (fun _ _ => True) next after := by
  induction events generalizing block db with
  | nil =>
      cases phases
      cases ran
      exact run
  | cons event rest induction =>
      rcases phases with ⟨middle, phase, phases⟩
      rw [List.foldlM_cons, bind_eq_ok_iff] at ran
      rcases ran with ⟨stepped, first, ran⟩
      exact induction (.step event run phase trivial first) phases ran

/--
The states of runs whose events are all allowed, with a record of the run which
starts as given and in which each event is noted.
-/
inductive RecordedRun {Record : Type} (ext : External)
    (allowed : Database → Event → Prop) (start : Record)
    (note : Record → Database → Event → Database → Record) :
    Record → Option BlockHeader → Database → Prop
  | genesis : RecordedRun ext allowed start note start none initGenesis
  | step {record : Record} {block next : Option BlockHeader}
      {db after : Database} (event : Event) :
      RecordedRun ext allowed start note record block db →
        Phase event block next → allowed db event →
          db.step ext event = .ok after →
            RecordedRun ext allowed start note (note record db event after)
              next after

namespace RecordedRun

variable {Record : Type} {ext : External} {allowed : Database → Event → Prop}
    {start record : Record}
    {note : Record → Database → Event → Database → Record}
    {block : Option BlockHeader} {db : Database}

/-- The run without the record. -/
theorem runState
    (run : RecordedRun ext allowed start note record block db) :
    RunState ext allowed block db := by
  induction run with
  | genesis => exact .genesis
  | step event _ phase permitted stepped induction =>
      exact .step event induction phase permitted stepped

theorem mono
    {weaker : Database → Event → Prop}
    (implied : ∀ db event, allowed db event → weaker db event)
    (run : RecordedRun ext allowed start note record block db) :
    RecordedRun ext weaker start note record block db := by
  induction run with
  | genesis => exact .genesis
  | step event _ phase permitted stepped induction =>
      exact .step event induction phase (implied _ _ permitted) stepped

/-- A run goes on with events which all succeed. -/
theorem of_foldlM
    {events : List Event}
    {next : Option BlockHeader}
    {after : Database}
    (run : RecordedRun ext (fun _ _ => True) start note record block db)
    (phases : Phases events block next)
    (ran : events.foldlM (Database.step ext) db = .ok after) :
    ∃ noted, RecordedRun ext (fun _ _ => True) start note noted next after := by
  induction events generalizing record block db with
  | nil =>
      cases phases
      cases ran
      exact ⟨record, run⟩
  | cons event rest induction =>
      rcases phases with ⟨middle, phase, phases⟩
      rw [List.foldlM_cons, bind_eq_ok_iff] at ran
      rcases ran with ⟨stepped, first, ran⟩
      exact induction (.step event run phase trivial first) phases ran

/-- What every allowed event keeps, with its note, holds in every run. -/
theorem invariant
    (holds : Record → Database → Prop)
    (genesis : holds start initGenesis)
    (kept : ∀ record db event after,
      allowed db event → db.step ext event = .ok after → holds record db →
        holds (note record db event after) after)
    (run : RecordedRun ext allowed start note record block db) :
    holds record db := by
  induction run with
  | genesis => exact genesis
  | step event _ _ permitted stepped induction =>
      exact kept _ _ event _ permitted stepped induction

end RecordedRun

/--
The condition on an event which consists of one on operations and one on the
steps of a block, each in the state before it.
-/
def EventMeets (ext : External) (operation : Database → Operation → Prop)
    (step : BlockHeader → Database → BlockStep → Prop) (db : Database) :
    Event → Prop
  | .operation op => operation db op
  | .beginBlock _ => True
  | .finishBlock header =>
      Database.EachStep ext header (step header) blockSteps db

/-- The steps of the blocks before the initial shares are burned. -/
def BeforeBurn (_ : BlockHeader) (db : Database) : BlockStep → Prop
  | .processHardforks => db.headBlockNum ≠ Database.burnInitRepBlock
  | _ => True

theorem Database.eachStep_of_forall
    {ext : External}
    {allowed : Database → BlockStep → Prop}
    (always : ∀ db step, allowed db step)
    (steps : List BlockStep)
    (db : Database) :
    EachStep ext header allowed steps db := by
  induction steps generalizing db with
  | nil => trivial
  | cons step rest induction =>
      exact ⟨always db step, fun middle _ => induction middle⟩

/-- A condition on each step gives another, with what the steps keep. -/
theorem Database.EachStep.imp
    {ext : External}
    {allowed implied : Database → BlockStep → Prop}
    (holds : Database → Prop)
    (kept : ∀ db step after,
      db.runStep ext header step = .ok after → holds db → holds after)
    (implies : ∀ db step, holds db → allowed db step → implied db step)
    {db : Database}
    (start : holds db)
    (each : EachStep ext header allowed steps db) :
    EachStep ext header implied steps db := by
  induction steps generalizing db with
  | nil => trivial
  | cons step rest induction =>
      exact ⟨implies db step start each.1, fun middle stepped =>
        induction (kept db step middle stepped start) (each.2 middle stepped)⟩

theorem Database.eachStep_of_invariant
    {ext : External}
    {allowed : Database → BlockStep → Prop}
    (holds : Database → Prop)
    (kept : ∀ db step after,
      db.runStep ext header step = .ok after → holds db → holds after)
    (allows : ∀ db step, holds db → allowed db step)
    (steps : List BlockStep)
    {db : Database}
    (start : holds db) :
    EachStep ext header allowed steps db :=
  (eachStep_of_forall (fun _ _ => trivial) steps db).imp holds kept
    (fun db step held (_ : True) => allows db step held) start

section Invariants

variable {ext : External} (holds : Database → Prop)
    (genesis : holds initGenesis)
    (begun : ∀ db header after,
      db.beginBlock header = .ok after → holds db → holds after)

include genesis begun

/-- What every operation and every step of a block keeps holds in every run. -/
theorem RunState.invariant
    {operation : Database → Operation → Prop}
    {step : BlockHeader → Database → BlockStep → Prop}
    (applied : ∀ db op after,
      operation db op → op.validate ext = .ok () →
        db.applyOperation ext op = .ok after → holds db →
          holds after)
    (ran : ∀ header db which after,
      step header db which → db.runStep ext header which = .ok after →
        holds db → holds after)
    {block : Option BlockHeader}
    {db : Database}
    (run : RunState ext (EventMeets ext operation step) block db) :
    holds db := by
  induction run with
  | genesis => exact genesis
  | step event _ _ allowed stepped induction =>
      cases event with
      | operation op =>
          simp only [Database.step, bind_eq_ok_iff] at stepped
          rcases stepped with ⟨_, valid, done⟩
          exact applied _ op _ allowed valid done induction
      | beginBlock header => exact begun _ header _ stepped induction
      | finishBlock header =>
          exact Database.foldlM_runStep_invariant holds
            (fun state which after => ran header state which after) allowed
            stepped induction

/-- What every operation and every step of a block keeps is always the case. -/
theorem Reachable.invariant
    (applied : ∀ db op after,
      op.validate ext = .ok () → db.applyOperation ext op = .ok after →
        holds db → holds after)
    (ran : ∀ header db which after,
      db.runStep ext header which = .ok after → holds db →
        holds after)
    {db : Database}
    (reachable : Reachable ext db) :
    holds db := by
  rcases reachable with ⟨block, run⟩
  have meets : RunState ext
      (EventMeets ext (fun _ _ => True) fun _ _ _ => True) block db := by
    refine run.mono fun state event _ => ?_
    cases event with
    | operation op => trivial
    | beginBlock header => trivial
    | finishBlock header =>
        exact Database.eachStep_of_forall (fun _ _ => trivial) _ _
  exact RunState.invariant holds genesis begun
    (fun db op after _ => applied db op after)
    (fun header db which after _ => ran header db which after) meets

end Invariants

/-! ## Between the steps of a block -/

/--
The states which operations and the steps of blocks lead to, in any order.
They include the states of all runs, and those between the steps of a block.
-/
inductive Visited (ext : External) (operation : Database → Operation → Prop)
    (step : BlockHeader → Database → BlockStep → Prop) : Database → Prop
  | genesis : Visited ext operation step initGenesis
  | beginBlock {db after : Database} (header : BlockHeader) :
      Visited ext operation step db → db.beginBlock header = .ok after →
        Visited ext operation step after
  | operation {db after : Database} (op : Operation) :
      Visited ext operation step db → operation db op →
        op.validate ext = .ok () → db.applyOperation ext op = .ok after →
          Visited ext operation step after
  | step {db after : Database} (header : BlockHeader) (which : BlockStep) :
      Visited ext operation step db → step header db which →
        db.runStep ext header which = .ok after →
          Visited ext operation step after

namespace Visited

variable {ext : External} {operation : Database → Operation → Prop}
    {step : BlockHeader → Database → BlockStep → Prop} {db : Database}

/-- Operations one after another visit the states between them. -/
theorem of_operations
    {ops : List Operation}
    {after : Database}
    (visited : Visited ext operation step db)
    (each : ∀ db, ∀ op ∈ ops, operation db op)
    (ran : (ops.map Event.operation).foldlM (Database.step ext) db = .ok after) :
    Visited ext operation step after := by
  induction ops generalizing db with
  | nil =>
      cases ran
      exact visited
  | cons op rest induction =>
      rw [List.map_cons, List.foldlM_cons, bind_eq_ok_iff] at ran
      rcases ran with ⟨middle, stepped, ran⟩
      rcases (bind_eq_ok_iff _ _ _).1 stepped with ⟨_, valid, done⟩
      refine induction (.operation op visited ?_ valid done) ?_ ran
      · exact each db op List.mem_cons_self
      · exact fun state other member =>
          each state other (List.mem_cons_of_mem _ member)

/-- The steps of a block visit the states between them. -/
theorem of_steps
    {after : Database}
    (visited : Visited ext operation step db)
    (each : Database.EachStep ext header (step header) steps db)
    (ran : steps.foldlM (Database.runStep ext header) db = .ok after) :
    Visited ext operation step after :=
  Database.foldlM_runStep_invariant (Visited ext operation step)
    (fun _ which _ allowed stepped before =>
      .step header which before allowed stepped) each ran visited

/-- A run visits its states. -/
theorem of_run
    {block : Option BlockHeader}
    (run : RunState ext (EventMeets ext operation step) block db) :
    Visited ext operation step db := by
  induction run with
  | genesis => exact .genesis
  | step event _ _ allowed stepped induction =>
      cases event with
      | operation op =>
          simp only [Database.step, bind_eq_ok_iff] at stepped
          rcases stepped with ⟨_, valid, done⟩
          exact .operation op induction allowed valid done
      | beginBlock header => exact .beginBlock header induction stepped
      | finishBlock header => exact induction.of_steps allowed stepped

theorem of_reachable
    (reachable : Reachable ext db) :
    Visited ext (fun _ _ => True) (fun _ _ _ => True) db := by
  rcases reachable with ⟨block, run⟩
  refine of_run (run.mono fun state event _ => ?_)
  cases event with
  | operation op => trivial
  | beginBlock header => trivial
  | finishBlock header =>
      exact Database.eachStep_of_forall (fun _ _ => trivial) _ _

/-- What operations and steps keep holds in all states which are visited. -/
theorem invariant
    (holds : Database → Prop)
    (genesis : holds initGenesis)
    (begun : ∀ db header after,
      db.beginBlock header = .ok after → holds db → holds after)
    (applied : ∀ db op after,
      operation db op → op.validate ext = .ok () →
        db.applyOperation ext op = .ok after → holds db → holds after)
    (ran : ∀ header db which after,
      step header db which → db.runStep ext header which = .ok after →
        holds db → holds after)
    (visited : Visited ext operation step db) :
    holds db := by
  induction visited with
  | genesis => exact genesis
  | beginBlock header _ done induction => exact begun _ header _ done induction
  | operation op _ allowed valid done induction =>
      exact applied _ op _ allowed valid done induction
  | step header which _ allowed done induction =>
      exact ran header _ which _ allowed done induction

end Visited

/-! ## Sample inputs -/

/-- The external functions on the short ASCII texts of the samples. -/
def plainExternal : External where
  isUtf8 text := text.all fun byte => byte < 128
  isJson text := text.isEmpty
  avatarOf _ := .ok none
  fromHex text _ := if text = [] then .ok [] else .error "not hexadecimal"
  patchBody _ edit := edit
  pow17 value := if value ≤ 1 then value else value * value
  savingReward growth savings total := (growth * savings).tdiv (5 * total)
  isWork _ := false
  interpreterThrows _ _ := false
  hasMessageIndex := false

/-- A transfer between two accounts of genesis. -/
def sampleTransfer : Operation :=
  .transfer
    { fromAccount := initMinerName
      toAccount := "devs"
      amount := bmt 5
      memo := [] }

/-- A post of an author. -/
def samplePost (author : AccountName) : Operation :=
  .comment
    { parentAuthor := ""
      parentPermlink := [98]
      author := author
      permlink := [97]
      title := []
      body := [99]
      jsonMetadata := [] }

/-- The header of a first block without transactions. -/
def firstHeader : BlockHeader where
  timestamp := genesisTime + 3
  witness := initMinerName
  signee := initPublicKey
  previous := .zero

theorem exists_of_isOk
    (ok : result.isOk = true) :
    ∃ value, result = .ok value := by
  cases result with
  | error message => cases ok
  | ok value => exact ⟨value, rfl⟩

theorem exists_of_any
    {test : Value → Bool}
    (passed : result.toOption.any test = true) :
    ∃ value, result = .ok value ∧ test value = true := by
  cases result with
  | error message => cases passed
  | ok value => exact ⟨value, rfl, passed⟩

end BMChain.State
