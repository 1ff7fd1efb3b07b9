import BMChain.Chain.Opening
import BMChain.Chain.PendingTransactions

/-!
# Runs with pending transactions

Undoing the session of the pending transactions leads from a node to the
database it would have without them.  Every call keeps this relation, so the
blocks of a run have the same effect as in a run which saw no transaction.
-/

namespace BMChain.Chain

open BMChain.Protocol
open BMChain.Foundation

variable {Content Body Rest Trx Request : Type}

variable {state : ChainState Content Rest} {offered : List Trx}
    {filling : Filling Content Rest Trx}

/-! ## States with transactions on top -/

/-- The state a transaction leads to when it does not throw. -/
def trial (rules : NodeRules Content Body Rest Trx Request)
    (state : ChainState Content Rest) (trx : Trx) :
    Option (ChainState Content Rest) :=
  match rules.apply state trx with
  | .error _ => none
  | .ok rest => some { state with rest := rest }

theorem foldlM_trial
    {rules : NodeRules Content Body Rest Trx Request}
    {trxs : List Trx}
    {trx : Trx}
    {first state next : ChainState Content Rest}
    (led : trxs.foldlM (trial rules) first = some state)
    (tried : trial rules state trx = some next) :
    (trxs ++ [trx]).foldlM (trial rules) first = some next := by
  rw [List.foldlM_append, led]
  show [trx].foldlM (trial rules) state = some next
  rw [List.foldlM_cons, tried]
  rfl

/-- The database in an open session, with another current state. -/
def Database.inSession (db : Database Content Body Rest)
    (state : ChainState Content Rest) : Database Content Body Rest :=
  { db with chain := db.chain.startSession.update state }

/-- The node stands on a database: its session, if any, started there. -/
structure Stands (db : Database Content Body Rest)
    (node : Node Content Body Rest Trx) : Prop where
  closed : node.pendingSession = false → node.database = db
  session : node.pendingSession = true →
    ∃ state, node.database = db.inSession state

/-- The pending transactions of the node, in order, lead to its state. -/
structure Settled (rules : NodeRules Content Body Rest Trx Request)
    (db : Database Content Body Rest)
    (node : Node Content Body Rest Trx) : Prop where
  closed : node.pendingSession = false →
    node.database = db ∧ node.pendingTx = []
  session : node.pendingSession = true →
    ∃ state, node.database = db.inSession state ∧
      node.pendingTx.foldlM (trial rules) db.chain.current = some state

theorem Settled.stands
    {rules : NodeRules Content Body Rest Trx Request}
    {db : Database Content Body Rest}
    {node : Node Content Body Rest Trx}
    (settled : Settled rules db node) :
    Stands db node where
  closed := fun shut => (settled.closed shut).1
  session := fun started =>
    let ⟨state, same, _⟩ := settled.session started
    ⟨state, same⟩

theorem tryTransaction_inSession
    (rules : NodeRules Content Body Rest Trx Request)
    (db : Database Content Body Rest)
    (state : ChainState Content Rest)
    (trx : Trx) :
    Node.tryTransaction rules (db.inSession state).chain trx =
      ((db.inSession ((trial rules state trx).getD state)).chain,
        (trial rules state trx).isSome) := by
  have current : (db.inSession state).chain.startSession.current = state := rfl
  simp only [Node.tryTransaction, trial, current]
  cases rules.apply state trx with
  | error rest =>
      simp [Database.inSession, SnapshotStack.startSession,
        SnapshotStack.update, SnapshotStack.undo]
  | ok rest =>
      simp [Database.inSession, SnapshotStack.startSession,
        SnapshotStack.update, SnapshotStack.squash]

theorem inSession_undo
    (db : Database Content Body Rest)
    (state : ChainState Content Rest) :
    { db.inSession state with chain := (db.inSession state).chain.undo } =
      db := by
  simp [Database.inSession, SnapshotStack.startSession, SnapshotStack.update,
    SnapshotStack.undo]

namespace Stands

variable {rules : NodeRules Content Body Rest Trx Request}
    {db : Database Content Body Rest} {node : Node Content Body Rest Trx}

/-- Undoing the session leads back to the database. -/
theorem reset
    (stands : Stands db node) :
    node.resetSession =
      { node with database := db, pendingSession := false } := by
  unfold Node.resetSession
  cases shut : node.pendingSession with
  | false =>
      rw [if_neg (by simp), ← stands.closed shut, ← shut]
  | true =>
      rcases stands.session shut with ⟨state, same⟩
      rw [if_pos rfl]
      simp only [Node.withChain, same]
      rw [inSession_undo]

/-- With its session open, the node has one of the states above the database. -/
theorem opened
    (stands : Stands db node) :
    ∃ state, node.openSession =
        { node with
          database := db.inSession state, pendingSession := true } ∧
      (node.pendingSession = false → state = db.chain.current) := by
  unfold Node.openSession
  cases shut : node.pendingSession with
  | false =>
      refine ⟨db.chain.current, ?_, fun _ => rfl⟩
      rw [if_neg (by simp)]
      simp only [Node.withChain, stands.closed shut]
      rfl
  | true =>
      rcases stands.session shut with ⟨state, same⟩
      refine ⟨state, ?_, by simp⟩
      rw [if_pos rfl, ← same, ← shut]

end Stands

/-! ## Pushing transactions -/

section Pushing

variable {rules : NodeRules Content Body Rest Trx Request}
    {db : Database Content Body Rest} {node : Node Content Body Rest Trx}

/-- What `_push_transaction` does to a node in one of the states above. -/
theorem pushPending_eq
    (isOpen : node.openSession =
      { node with database := db.inSession state, pendingSession := true })
    (trx : Trx) :
    (node.pushPending rules trx).1 =
      { node with
        database := db.inSession ((trial rules state trx).getD state)
        pendingSession := true
        pendingTx :=
          if (trial rules state trx).isSome then node.pendingTx ++ [trx]
          else node.pendingTx } := by
  unfold Node.pushPending
  rw [isOpen]
  simp only [tryTransaction_inSession]
  cases trial rules state trx with
  | none => rfl
  | some next => rfl

theorem Stands.pushPending
    (stands : Stands db node)
    (trx : Trx) :
    Stands db (node.pushPending rules trx).1 := by
  rcases stands.opened with ⟨state, isOpen, -⟩
  rw [pushPending_eq isOpen]
  exact ⟨nofun, fun _ => ⟨_, rfl⟩⟩

/-- A transaction joins the pending ones, or leaves no trace. -/
theorem Settled.pushPending
    (settled : Settled rules db node)
    (trx : Trx) :
    Settled rules db (node.pushPending rules trx).1 := by
  rcases settled.stands.opened with ⟨state, isOpen, fresh⟩
  have led : node.pendingTx.foldlM (trial rules) db.chain.current =
      some state := by
    cases shut : node.pendingSession with
    | false =>
        rw [(settled.closed shut).2, fresh shut]
        rfl
    | true =>
        rcases settled.session shut with ⟨current, same, led⟩
        have equal : db.inSession state = db.inSession current := by
          rw [← same]
          have database := congrArg Node.database isOpen
          rw [Node.openSession, if_pos shut] at database
          exact database.symm
        have states : state = current :=
          congrArg (fun db => db.chain.current) equal
        rw [led, states]
  rw [pushPending_eq isOpen]
  refine ⟨nofun, fun _ => ⟨_, rfl, ?_⟩⟩
  cases tried : trial rules state trx with
  | none => exact led
  | some next => exact foldlM_trial led tried

theorem pushPending_poppedTx
    (trx : Trx) :
    (node.pushPending rules trx).1.poppedTx = node.poppedTx := by
  have isOpen : node.openSession.poppedTx = node.poppedTx := by
    unfold Node.openSession
    split <;> rfl
  unfold Node.pushPending
  dsimp only
  split <;> exact isOpen

theorem restoreTransactions_poppedTx
    (trxs : List Trx)
    (node : Node Content Body Rest Trx) :
    (node.restoreTransactions rules trxs).poppedTx = node.poppedTx := by
  induction trxs generalizing node with
  | nil => rfl
  | cons trx rest induction =>
      rw [Node.restoreTransactions, List.foldl_cons]
      split
      · exact induction node
      · exact (induction _).trans (pushPending_poppedTx trx)

theorem Settled.restoreTransactions
    (settled : Settled rules db node)
    (trxs : List Trx) :
    Settled rules db (node.restoreTransactions rules trxs) := by
  induction trxs generalizing node with
  | nil => exact settled
  | cons trx rest induction =>
      rw [Node.restoreTransactions, List.foldl_cons]
      split
      · exact induction settled
      · exact induction (settled.pushPending trx)

end Pushing

/-! ## Pushing blocks -/

section Blocks

variable [DecidableEq Content]

/--
The node ends a step as its database alone would, with other popped
transactions at most.
-/
def Tracks {Ended : Type} (node : Node Content Body Rest Trx)
    (result : Node Content Body Rest Trx × Ended)
    (plain : Database Content Body Rest × Ended) : Prop :=
  ∃ popped, result =
    ({ node with database := plain.1, poppedTx := popped }, plain.2)

variable (rules : NodeRules Content Body Rest Trx Request)
    (node : Node Content Body Rest Trx)

theorem tracks_popBlock
    (shut : node.pendingSession = false) :
    Tracks node (node.popBlock rules) node.database.popBlock := by
  have same : node.resetSession = node := by
    rw [Node.resetSession, if_neg (by simp [shut])]
  unfold Node.popBlock
  rw [same]
  dsimp only
  cases fetched : node.database.fetchBlockById
      node.database.chain.current.headBlockId with
  | none =>
      refine ⟨node.poppedTx, ?_⟩
      simp only [Database.popBlock, fetched]
  | some block =>
      dsimp only
      generalize node.database.popBlock = popped
      rcases popped with ⟨db, returned⟩
      cases returned with
      | false => exact ⟨node.poppedTx, rfl⟩
      | true => exact ⟨_, rfl⟩

theorem tracks_popUntil
    (target : BlockId Content)
    (fuel : Nat)
    (node : Node Content Body Rest Trx)
    (shut : node.pendingSession = false) :
    Tracks node (node.popUntil rules target fuel)
      (node.database.popUntil target fuel) := by
  induction fuel generalizing node with
  | zero => exact ⟨node.poppedTx, rfl⟩
  | succ fuel induction =>
      unfold Node.popUntil Database.popUntil
      split
      · exact ⟨node.poppedTx, rfl⟩
      · rcases tracks_popBlock rules node shut with ⟨popped, result⟩
        rw [result]
        rcases node.database.popBlock with ⟨db, returned⟩
        cases returned with
        | false => exact ⟨popped, rfl⟩
        | true =>
            exact induction { node with database := db, poppedTx := popped } shut

theorem tracks_popTo
    (target : BlockId Content)
    (shut : node.pendingSession = false) :
    Tracks node (node.popTo rules target) (node.database.popTo target) :=
  tracks_popUntil rules target _ node shut

theorem tracks_restoreOldBranch
    (bad : List (ForkItem Content Body))
    (front : ForkItem Content Body)
    (oldBranch : List (ForkItem Content Body))
    (target : BlockId Content)
    (shut : node.pendingSession = false) :
    ∃ popped, node.restoreOldBranch rules bad front oldBranch target =
      { node with
        database := node.database.restoreOldBranch rules.chain bad front
          oldBranch target
        poppedTx := popped } := by
  let edited : Node Content Body Rest Trx := { node with
    database := { node.database with
      forkDb := (Database.removeItems bad node.database.forkDb).setHead front } }
  rcases tracks_popTo rules edited target shut with ⟨popped, result⟩
  unfold Node.restoreOldBranch Database.restoreOldBranch
  dsimp only
  rw [show edited = _ from rfl] at result
  rw [result]
  rcases edited.database.popTo target with ⟨db, returned⟩
  cases returned with
  | false => exact ⟨popped, rfl⟩
  | true => exact ⟨popped, rfl⟩

theorem tracks_switchForks
    (newHead : ForkItem Content Body)
    (shut : node.pendingSession = false) :
    Tracks node (node.switchForks rules newHead)
      (node.database.switchForks rules.chain newHead) := by
  unfold Node.switchForks Database.switchForks
  cases fetched : node.database.forkDb.fetchBranchFrom newHead.id
      node.database.chain.current.headBlockId with
  | none => exact ⟨node.poppedTx, rfl⟩
  | some branches =>
      rcases branches with ⟨first, second⟩
      dsimp only
      rcases second.head? with _ | front
      · exact ⟨node.poppedTx, rfl⟩
      rcases second.getLast? with _ | last
      · exact ⟨node.poppedTx, rfl⟩
      dsimp only
      rcases tracks_popTo rules
        { node with database := node.database.holding first second }
        last.previousId shut with ⟨popped, result⟩
      rw [result]
      dsimp only
      rcases (node.database.holding first second).popTo last.previousId with
        ⟨db, returned⟩
      cases returned with
      | false => exact ⟨popped, rfl⟩
      | true =>
          dsimp only
          rcases db.applyBranch rules.chain first.reverse with ⟨after, bad⟩
          cases bad with
          | nil => exact ⟨popped, rfl⟩
          | cons item items =>
              rcases tracks_restoreOldBranch rules
                { node with database := after, poppedTx := popped }
                (item :: items) front second last.previousId shut with
                ⟨more, restored⟩
              refine ⟨more, ?_⟩
              dsimp only
              rw [restored]

theorem tracks_pushTaken
    (newHead : ForkItem Content Body)
    (block : SignedBlock Content Body)
    (shut : node.pendingSession = false) :
    Tracks node (node.pushTaken rules newHead block)
      (node.database.pushTaken rules.chain newHead block) := by
  unfold Node.pushTaken Database.pushTaken
  split
  · split
    · exact tracks_switchForks rules node newHead shut
    · exact ⟨node.poppedTx, rfl⟩
  · rcases node.database.applyInSession rules.chain block with ⟨db, returned⟩
    cases returned with
    | false => exact ⟨node.poppedTx, rfl⟩
    | true => exact ⟨node.poppedTx, rfl⟩

/-- Without its pending transactions a node pushes a block as its database. -/
theorem tracks_pushAlone
    (block : SignedBlock Content Body)
    (shut : node.pendingSession = false) :
    Tracks node (node.pushAlone rules block)
      (node.database.pushBlock rules.chain block) := by
  unfold Node.pushAlone Database.pushBlock
  cases accepted : node.database.forkDb.pushBlock block with
  | error fault => exact ⟨node.poppedTx, rfl⟩
  | ok forkDb =>
      dsimp only
      cases forkDb.head with
      | none => exact ⟨node.poppedTx, rfl⟩
      | some newHead =>
          rcases tracks_pushTaken rules
            { node with database := node.database.taking forkDb newHead }
            newHead block shut with ⟨popped, result⟩
          refine ⟨popped, ?_⟩
          dsimp only
          rw [result]

end Blocks

section Calls

variable [DecidableEq Content]
    {rules : NodeRules Content Body Rest Trx Request}
    {db : Database Content Body Rest} {node : Node Content Body Rest Trx}

/-- A push leads to the pushed database with what is left of the pending. -/
theorem Stands.pushBlock
    (stands : Stands db node)
    (block : SignedBlock Content Body) :
    Settled rules (db.pushBlock rules.chain block).1
        (node.pushBlock rules block).1 ∧
      (node.pushBlock rules block).1.poppedTx = [] ∧
      (node.pushBlock rules block).2 =
        (db.pushBlock rules.chain block).2 := by
  let cleared : Node Content Body Rest Trx :=
    { node with database := db, pendingSession := false, pendingTx := [] }
  have start : node.clearPending = cleared := by
    rw [Node.clearPending, stands.reset]
  rcases tracks_pushAlone rules cleared block rfl with ⟨popped, result⟩
  unfold Node.pushBlock
  rw [start, result]
  refine ⟨?_, restoreTransactions_poppedTx _ _, rfl⟩
  have alone : Settled rules (db.pushBlock rules.chain block).1
      ({ cleared with
        database := (db.pushBlock rules.chain block).1
        poppedTx := popped } : Node Content Body Rest Trx) :=
    ⟨fun _ => ⟨rfl, rfl⟩, nofun⟩
  have restored := alone.restoreTransactions popped
  refine Settled.restoreTransactions ?_ _
  exact ⟨restored.closed, restored.session⟩

/-! ## Producing blocks -/

/--
The block being filled holds some of the transactions offered, in their order,
and they apply one by one on top of the database.
-/
def Filled (rules : NodeRules Content Body Rest Trx Request)
    (db : Database Content Body Rest) (offered : List Trx)
    (filling : Filling Content Rest Trx) : Prop :=
  filling.transactions.Sublist offered ∧
    ∃ state, filling.chain = (db.inSession state).chain ∧
      filling.transactions.foldlM (trial rules) db.chain.current = some state

omit [DecidableEq Content] in
theorem Filled.takePending
    (filled : Filled rules db offered filling)
    (request : Request)
    (maximum : Nat)
    (trx : Trx) :
    Filled rules db (offered ++ [trx])
      (Node.takePending rules request maximum filling trx) := by
  rcases filled with ⟨listed, state, chain, led⟩
  have skipped : Filled rules db (offered ++ [trx]) filling :=
    ⟨listed.trans (List.sublist_append_left _ _), state, chain, led⟩
  unfold Node.takePending
  split
  · exact skipped
  dsimp only
  split
  · exact skipped
  rw [chain, tryTransaction_inSession]
  cases tried : trial rules state trx with
  | none => exact ⟨skipped.1, state, rfl, led⟩
  | some next => exact ⟨listed.append (.refl _), next, rfl, foldlM_trial led tried⟩

omit [DecidableEq Content] in
theorem Filled.loop
    (filled : Filled rules db offered filling)
    (request : Request)
    (maximum : Nat)
    (trxs : List Trx) :
    Filled rules db (offered ++ trxs)
      (trxs.foldl (Node.takePending rules request maximum) filling) := by
  induction trxs generalizing offered filling with
  | nil => simpa using filled
  | cons trx rest induction =>
      rw [List.append_cons, List.foldl_cons]
      exact induction (filled.takePending request maximum trx)

omit [DecidableEq Content] in
theorem Stands.fill
    (stands : Stands db node)
    (request : Request) :
    Filled rules db node.pendingTx (node.fill rules request) := by
  have start : node.resetSession.openSession.database.chain =
      (db.inSession db.chain.current).chain := by
    rw [stands.reset]
    rfl
  unfold Node.fill
  rw [start]
  have empty : Filled rules db []
      ⟨(db.inSession db.chain.current).chain, rules.headerSize, []⟩ :=
    ⟨.refl _, _, rfl, rfl⟩
  exact empty.loop request _ _

omit [DecidableEq Content] in
/-- After the loop the node is back at the state of its head block. -/
theorem Stands.emptied
    (stands : Stands db node)
    (request : Request) :
    node.emptied rules request =
      { node with database := db, pendingSession := false } := by
  have filled : Filled rules db node.pendingTx (node.fill rules request) :=
    stands.fill request
  rcases filled with ⟨-, state, chain, -⟩
  unfold Node.emptied
  rw [chain, stands.reset]
  show { node with
    database := { db.inSession state with
      chain := (db.inSession state).chain.undo }
    pendingSession := false } = _
  rw [inSession_undo]

/-! ## Runs -/

/-- What is asked of a node. -/
inductive Call (Content Body Trx Request : Type) where
  | transaction (trx : Trx)
  | block (block : SignedBlock Content Body)
  | produce (request : Request)

/--
A node with the blocks which its calls have pushed.  It is stale when the last
block it filled was given up for its size.
-/
structure NodeLog (Content Body Rest Trx : Type) where
  node : Node Content Body Rest Trx
  blocks : List (SignedBlock Content Body)
  stale : Bool

namespace NodeLog

/-- The log of a node which has just opened its database. -/
def opened (db : Database Content Body Rest) :
    NodeLog Content Body Rest Trx :=
  ⟨.opened db, [], false⟩

/-- What a call makes of a node. -/
def call (rules : NodeRules Content Body Rest Trx Request)
    (log : NodeLog Content Body Rest Trx) :
    Call Content Body Trx Request → NodeLog Content Body Rest Trx
  | .transaction trx =>
      { log with node := (log.node.pushTransaction rules trx).1 }
  | .block block =>
      ⟨(log.node.pushBlock rules block).1, log.blocks ++ [block], false⟩
  | .produce request =>
      match log.node.generateBlock rules request with
      | (node, .refused) => { log with node := node }
      | (node, .tooLarge) =>
          { log with node := node, stale := !node.pendingTx.isEmpty }
      | (node, .pushed _) =>
          ⟨node, log.blocks ++ [log.node.produced rules request], false⟩

/-- A log which goes on from a database. -/
structure Holds (rules : NodeRules Content Body Rest Trx Request)
    (start : Database Content Body Rest)
    (log : NodeLog Content Body Rest Trx) : Prop where
  stands : Stands (start.pushAll rules.chain log.blocks) log.node
  settled : log.stale = false →
    Settled rules (start.pushAll rules.chain log.blocks) log.node
  popped : log.node.poppedTx = []

variable {start : Database Content Body Rest}
    {log : NodeLog Content Body Rest Trx}

theorem Holds.transaction
    (holds : Holds rules start log)
    (trx : Trx) :
    Holds rules start (log.call rules (.transaction trx)) := by
  show Holds rules start
    { log with node := (log.node.pushTransaction rules trx).1 }
  unfold Node.pushTransaction
  split
  · exact ⟨holds.stands.pushPending trx,
      fun fresh => (holds.settled fresh).pushPending trx,
      (pushPending_poppedTx trx).trans holds.popped⟩
  · exact holds

theorem Holds.pushed
    {standing : Node Content Body Rest Trx}
    (stands : Stands (start.pushAll rules.chain log.blocks) standing)
    (block : SignedBlock Content Body) :
    Holds rules start
      ⟨(standing.pushBlock rules block).1, log.blocks ++ [block], false⟩ := by
  have settled : Settled rules
        ((start.pushAll rules.chain log.blocks).pushBlock rules.chain block).1
        (standing.pushBlock rules block).1 ∧
      (standing.pushBlock rules block).1.poppedTx = [] ∧ _ :=
    stands.pushBlock block
  have blocks : start.pushAll rules.chain (log.blocks ++ [block]) =
      ((start.pushAll rules.chain log.blocks).pushBlock rules.chain block).1 :=
    pushAll_append
  refine ⟨?_, fun _ => ?_, settled.2.1⟩
  · rw [blocks]
    exact settled.1.stands
  · rw [blocks]
    exact settled.1

theorem Holds.produce
    (holds : Holds rules start log)
    (request : Request) :
    Holds rules start (log.call rules (.produce request)) := by
  have emptied : log.node.emptied rules request = _ :=
    holds.stands.emptied request
  have stands : Stands (start.pushAll rules.chain log.blocks)
      (log.node.emptied rules request) := by
    rw [emptied]
    exact ⟨fun _ => rfl, nofun⟩
  by_cases may :
      rules.mayProduce log.node.database.chain.current request = true
  · by_cases small : rules.isSmall (log.node.produced rules request) = true
    · simp only [NodeLog.call, Node.generateBlock, if_pos may, if_pos small]
      exact .pushed stands _
    · simp only [NodeLog.call, Node.generateBlock, if_pos may, if_neg small]
      refine ⟨stands, fun fresh => ?_, by rw [emptied]; exact holds.popped⟩
      rw [emptied] at fresh ⊢
      refine ⟨fun _ => ⟨rfl, ?_⟩, nofun⟩
      simpa using fresh
  · simp only [NodeLog.call, Node.generateBlock, if_neg may]
    exact holds

theorem Holds.call
    (holds : Holds rules start log)
    (asked : Call Content Body Trx Request) :
    Holds rules start (log.call rules asked) := by
  cases asked with
  | transaction trx => exact holds.transaction trx
  | block block => exact .pushed holds.stands block
  | produce request => exact holds.produce request

end NodeLog

/-- After any calls a node goes on from the database without transactions. -/
theorem NodeLog.holds
    (rules : NodeRules Content Body Rest Trx Request)
    (start : Database Content Body Rest)
    (calls : List (Call Content Body Trx Request)) :
    NodeLog.Holds rules start
      (calls.foldl (NodeLog.call rules) (.opened start)) := by
  suffices kept : ∀ log, NodeLog.Holds rules start log →
      NodeLog.Holds rules start (calls.foldl (NodeLog.call rules) log) from
    kept _ ⟨⟨fun _ => rfl, nofun⟩, fun _ => ⟨fun _ => ⟨rfl, rfl⟩, nofun⟩, rfl⟩
  induction calls with
  | nil => exact fun log holds => holds
  | cons asked rest induction =>
      exact fun log holds => induction _ (holds.call asked)

/--
Whatever transactions a node is given, its blocks have the effect they would
have without them, and unless it is stale its pending transactions lead, in
their order, from the state of its head block to its own.
-/
theorem pending_transactions_leave_no_trace
    (rules : NodeRules Content Body Rest Trx Request)
    (start : Database Content Body Rest)
    (calls : List (Call Content Body Trx Request)) :
    let log := calls.foldl (NodeLog.call rules) (.opened start)
    let head := start.pushAll rules.chain log.blocks
    Stands head log.node ∧ log.node.poppedTx = [] ∧
      (log.stale = false → Settled rules head log.node) := by
  have holds := NodeLog.holds rules start calls
  exact ⟨holds.stands, holds.popped, holds.settled⟩

/--
The transactions of a block which a node produces are pending ones, in their
order, and apply one after the other on top of its head block.
-/
theorem produced_transactions_apply
    (rules : NodeRules Content Body Rest Trx Request)
    (start : Database Content Body Rest)
    (calls : List (Call Content Body Trx Request))
    (request : Request) :
    let log := calls.foldl (NodeLog.call rules) (.opened start)
    let head := start.pushAll rules.chain log.blocks
    ∃ trxs state, trxs.Sublist log.node.pendingTx ∧
      trxs.foldlM (trial rules) head.chain.current = some state ∧
        log.node.produced rules request =
          rules.assemble head.chain.current request trxs := by
  intro log head
  have stands : Stands head log.node := (NodeLog.holds rules start calls).stands
  have filled : Filled rules head log.node.pendingTx
      (log.node.fill rules request) := stands.fill request
  rcases filled with ⟨listed, state, -, led⟩
  refine ⟨_, state, listed, led, ?_⟩
  have emptied : log.node.emptied rules request = _ := stands.emptied request
  rw [Node.produced, emptied]

end Calls

end BMChain.Chain
