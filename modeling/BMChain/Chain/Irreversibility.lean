import BMChain.Chain.ForkHead

/-!
# Irreversible blocks

The undo stack begins at a base state, which no undo can leave behind: the
state before the oldest session which has not been committed.  Commits only
move the base forward, and every state on the stack, and the current one,
agrees with the base on the irreversible blocks.  So an irreversible block
stays in the chain whatever is pushed.

What the windows do not guarantee is that a switch stops above the base: the
fork database admits branches which leave the chain one block below the last
irreversible one.  The second half of the file shows that a switch which
stays above the base never pops with an empty undo stack.
-/

namespace BMChain.Chain

open BMChain.Protocol
open BMChain.Foundation

variable {Content Body Rest : Type}

variable {chain after : SnapshotStack (ChainState Content Rest)}
    {items : List (ForkItem Content Body)}

variable {base : BlockId Content} {block : SignedBlock Content Body}
    {rules : Rules Content Body Rest} {db : Database Content Body Rest}
variable {allowed : SignedBlock Content Body → Prop}

/-- The block at the head of `state` was applied on top of `older`. -/
structure Follows
    (older state : ChainState Content Rest) : Prop where
  link : ∃ content, state.headBlockId = .header content older.headBlockId
  number : state.headBlockNum = older.headBlockNum + 1
  applied : state.applied = state.headBlockId :: older.applied

/-- The saved states lead down from the current state, block by block. -/
def Trail :
    ChainState Content Rest →
      List (Snapshot (ChainState Content Rest)) → Prop
  | state, [] => state.headBlockNum = state.headBlockId.num
  | state, older :: rest =>
      state.headBlockNum = state.headBlockId.num ∧
      older.revision = state.headBlockNum ∧
      Follows older.state state ∧
      Trail older.state rest

/-- The oldest state which undoing can reach. -/
def baseOf
    (current : ChainState Content Rest)
    (saved : List (Snapshot (ChainState Content Rest))) :
    ChainState Content Rest :=
  match saved with
  | [] => current
  | older :: rest => baseOf older.state rest

/-- The number of the newest block which cannot be undone. -/
def committedNum (chain : SnapshotStack (ChainState Content Rest)) : Nat :=
  (baseOf chain.current chain.saved).headBlockNum

/-- The invariant of the chain. -/
structure Coherent
    (chain : SnapshotStack (ChainState Content Rest)) : Prop where
  trail : Trail chain.current chain.saved
  revision : chain.revision = chain.current.headBlockNum
  settledCurrent :
    min chain.current.lastIrreversibleBlockNum
      chain.current.headBlockNum ≤ committedNum chain
  settledSaved :
    ∀ snapshot ∈ chain.saved,
      min snapshot.state.lastIrreversibleBlockNum
        snapshot.state.headBlockNum ≤ committedNum chain

/-! ## Trails -/

namespace Trail

variable {state : ChainState Content Rest}
variable {saved : List (Snapshot (ChainState Content Rest))}

theorem number
    (trail : Trail state saved) :
    state.headBlockNum = state.headBlockId.num := by
  cases saved with
  | nil => exact trail
  | cons older rest => exact trail.1

theorem base_num
    (trail : Trail state saved) :
    (baseOf state saved).headBlockNum + saved.length =
      state.headBlockNum := by
  induction saved generalizing state with
  | nil => rfl
  | cons older rest induction =>
      obtain ⟨-, -, follows, deeper⟩ := trail
      have := induction deeper
      have := follows.number
      simp only [baseOf, List.length_cons]
      omega

theorem base_applied
    (trail : Trail state saved) :
    (baseOf state saved).applied <:+ state.applied := by
  induction saved generalizing state with
  | nil => exact List.suffix_rfl
  | cons older rest induction =>
      obtain ⟨-, -, follows, deeper⟩ := trail
      rw [follows.applied]
      exact (induction deeper).trans (List.suffix_cons _ _)

/-- Blocks above the base have numbers above the base's. -/
theorem num_of_mem_applied
    (trail : Trail state saved)
    {id : BlockId Content}
    (member : id ∈ state.applied) :
    id ∈ (baseOf state saved).applied ∨
      ((baseOf state saved).headBlockNum < id.num ∧
        id.num ≤ state.headBlockNum) := by
  induction saved generalizing state with
  | nil => exact .inl member
  | cons older rest induction =>
      have deep := trail.base_num
      obtain ⟨number, -, follows, deeper⟩ := trail
      rw [follows.applied, List.mem_cons] at member
      have step := follows.number
      rcases member with rfl | older'
      · right
        simp only [List.length_cons] at deep
        omega
      · rcases induction deeper older' with inBase | ⟨above, below⟩
        · exact .inl inBase
        · exact .inr ⟨above, by omega⟩

end Trail

theorem keptAfter_cons
    (last : Nat)
    (older : Snapshot (ChainState Content Rest))
    (rest : List (Snapshot (ChainState Content Rest))) :
    keptAfter last (older :: rest) =
      if keptAfter last rest = [] ∧ older.revision ≤ last then []
      else older :: keptAfter last rest := by
  simp [keptAfter, rdropWhile_cons]

namespace Trail

variable {state : ChainState Content Rest}
variable {saved : List (Snapshot (ChainState Content Rest))}

/-- Committing the head leaves no session. -/
theorem keptAfter_eq_nil
    (trail : Trail state saved)
    {last : Nat}
    (committed : state.headBlockNum ≤ last) :
    keptAfter last saved = [] := by
  induction saved generalizing state with
  | nil => rfl
  | cons older rest induction =>
      obtain ⟨-, revision, follows, deeper⟩ := trail
      have step := follows.number
      rw [keptAfter_cons, if_pos]
      exact ⟨induction deeper (by omega), by omega⟩

/-- Committing keeps a trail, and moves its base past the committed block. -/
theorem commit
    (trail : Trail state saved)
    (last : Nat) :
    Trail state (keptAfter last saved) ∧
      (baseOf state saved).applied <:+
        (baseOf state (keptAfter last saved)).applied ∧
      (baseOf state saved).headBlockNum ≤
        (baseOf state (keptAfter last saved)).headBlockNum ∧
      min last state.headBlockNum ≤
        (baseOf state (keptAfter last saved)).headBlockNum := by
  induction saved generalizing state with
  | nil => exact ⟨trail, List.suffix_rfl, le_rfl, Nat.min_le_right _ _⟩
  | cons older rest induction =>
      have number := trail.number
      have deep := trail.base_num
      have suffix := trail.base_applied
      obtain ⟨-, revision, follows, deeper⟩ := trail
      obtain ⟨kept, keptSuffix, keptNum, keptLast⟩ := induction deeper
      have step := follows.number
      rw [keptAfter_cons]
      split
      · exact ⟨number, suffix, by simp only [baseOf] at deep ⊢; omega,
          Nat.min_le_right _ _⟩
      · rename_i notAll
        refine ⟨⟨number, revision, follows, kept⟩, keptSuffix, keptNum, ?_⟩
        have above : last < state.headBlockNum := by
          by_contra notAbove
          refine notAll ⟨deeper.keptAfter_eq_nil ?_, ?_⟩ <;> omega
        simp only [baseOf]
        omega

end Trail

/-! ## Steps of the chain -/

variable [DecidableEq Content]

/-- A step keeps the invariant, and the base only moves forward. -/
structure Advances
    (chain after : SnapshotStack (ChainState Content Rest)) : Prop where
  coherent : Coherent after
  base :
    (baseOf chain.current chain.saved).applied <:+
      (baseOf after.current after.saved).applied

omit [DecidableEq Content] in
/-- The state after a block follows the state before it. -/
theorem NextState.follows
    {state next : ChainState Content Rest}
    (nextState : NextState state block next)
    (number : state.headBlockNum = state.headBlockId.num)
    (numbered : block.blockNum ≠ 0) :
    Follows state next := by
  refine ⟨⟨block.content, ?_⟩, ?_, ?_⟩
  · rw [nextState.headBlockId, ← nextState.link]
    rfl
  · rw [nextState.headBlockNum, number, ← nextState.link]
    exact SignedBlock.blockNum_eq numbered
  · rw [nextState.applied, nextState.headBlockId]

omit [DecidableEq Content] in
theorem Coherent.undo
    (coherent : Coherent chain) :
    Advances chain chain.undo := by
  obtain ⟨trail, revision, settledCurrent, settledSaved⟩ := coherent
  unfold SnapshotStack.undo
  split
  · exact ⟨⟨trail, revision, settledCurrent, settledSaved⟩,
      List.suffix_rfl⟩
  · rename_i top rest shape
    unfold committedNum at settledCurrent settledSaved
    rw [shape] at trail settledCurrent settledSaved
    rw [List.forall_mem_cons] at settledSaved
    obtain ⟨-, topRevision, follows, deeper⟩ := trail
    have step := follows.number
    refine ⟨⟨deeper, ?_, settledSaved.1, settledSaved.2⟩, ?_⟩
    · simp only
      omega
    · rw [shape]
      exact List.suffix_rfl

/-- Every effect of a session keeps the invariant. -/
theorem Coherent.session
    {returned : Bool}
    (coherent : Coherent chain)
    (numbered : block.blockNum ≠ 0)
    (effect : SessionEffect rules block chain after returned) :
    Advances chain after := by
  obtain ⟨trail, revision, settledCurrent, settledSaved⟩ := coherent
  have extended
      {next : ChainState Content Rest}
      (nextState : NextState chain.current block next) :
      Trail next (⟨chain.revision + 1, chain.current⟩ :: chain.saved) := by
    have follows := nextState.follows trail.number numbered
    refine ⟨?_, ?_, follows, trail⟩
    · rw [nextState.headBlockNum, nextState.headBlockId]
      rfl
    · have := follows.number
      simp only
      omega
  cases effect with
  | refused =>
      exact ⟨⟨trail, revision, settledCurrent, settledSaved⟩,
        List.suffix_rfl⟩
  | @applied next accepted =>
      have nextState := appliedState_next accepted
      obtain ⟨kept, keptSuffix, keptNum, keptLast⟩ :=
        (extended nextState).commit next.lastIrreversibleBlockNum
      have follows := nextState.follows trail.number numbered
      refine ⟨⟨kept, ?_, keptLast, ?_⟩, keptSuffix⟩
      · have := follows.number
        simp only
        omega
      · intro snapshot member
        have old : snapshot ∈
            (⟨chain.revision + 1, chain.current⟩ :: chain.saved :
              List (Snapshot (ChainState Content Rest))) :=
          (List.rdropWhile_prefix _ _).subset member
        refine le_trans ?_ keptNum
        rcases List.mem_cons.1 old with rfl | saved
        · exact settledCurrent
        · exact settledSaved snapshot saved
  | undone last =>
      obtain ⟨kept, keptSuffix, keptNum, -⟩ := trail.commit last
      refine ⟨⟨kept, revision, settledCurrent.trans keptNum, ?_⟩,
        keptSuffix⟩
      intro snapshot member
      exact (settledSaved snapshot
        ((List.rdropWhile_prefix _ _).subset member)).trans keptNum
  | @halfApplied next nextState nothingKept =>
      have follows := nextState.follows trail.number numbered
      have suffix := (extended nextState).base_applied
      refine ⟨⟨(extended nextState).number, ?_, ?_, by simp⟩, suffix⟩
      · have := follows.number
        simp only
        omega
      · exact Nat.min_le_right _ _

/-- Any number of steps. -/
theorem Coherent.steps
    (coherent : Coherent chain)
    (steps : ChainSteps rules allowed chain after) :
    Advances chain after := by
  induction steps with
  | refl => exact ⟨coherent, List.suffix_rfl⟩
  | @tail middle final _ step advanced =>
      have next : Advances middle final := by
        cases step with
        | undo => exact advanced.coherent.undo
        | session admissible effect =>
            exact advanced.coherent.session admissible.numbered effect
      exact ⟨next.coherent, advanced.base.trans next.base⟩

/-! ## Pops above the base -/

/-- `id` is `base` or a descendant of it, with no number wrapped around. -/
inductive Descends (base : BlockId Content) : BlockId Content → Prop where
  | refl : Descends base base
  | step
      {content : Content}
      {previous : BlockId Content}
      (older : Descends base previous)
      (numbered : (BlockId.header content previous).num ≠ 0) :
      Descends base (.header content previous)

omit [DecidableEq Content] in
theorem Descends.num_lt
    {base id : BlockId Content}
    (descends : Descends base id)
    (different : id ≠ base) :
    base.num < id.num := by
  induction descends with
  | refl => exact absurd rfl different
  | @step content previous older numbered induction =>
      have num := BlockId.header_num_eq numbered
      by_cases same : previous = base
      · subst same
        omega
      · have := induction same
        omega

omit [DecidableEq Content] in
theorem Descends.of_branch
    {top base : BlockId Content}
    (branch : ForkDatabase.Branch top items base)
    (linked : ∀ item ∈ items, LinkedChain allowed item.chain) :
    Descends base top := by
  induction branch with
  | single item =>
      exact .step .refl (linked item (by simp)).admissible.numbered
  | cons item older induction =>
      rw [List.forall_mem_cons] at linked
      exact .step (induction linked.2) linked.1.admissible.numbered

/-- The pop loop never finds an empty undo stack above the base. -/
theorem popUntil_poppedEmpty
    (target : BlockId Content)
    (fuel : Nat)
    (coherent : Coherent db.chain)
    (descends : Descends target db.chain.current.headBlockId)
    (safe : committedNum db.chain ≤ target.num) :
    (db.popUntil target fuel).1.poppedEmpty = db.poppedEmpty ∧
      ((db.popUntil target fuel).2 = true →
        (db.popUntil target fuel).1.chain.current.headBlockId = target) := by
  induction fuel generalizing db with
  | zero =>
      exact ⟨rfl, fun reached => of_decide_eq_true reached⟩
  | succ fuel induction =>
      unfold Database.popUntil
      split
      · rename_i reached
        exact ⟨rfl, fun _ => reached⟩
      · rename_i notReached
        split
        · rename_i failed
          rw [popBlock_failed failed]
          exact ⟨rfl, by simp⟩
        · rename_i popped
          obtain ⟨forkDb, -, rfl⟩ := popBlock_popped popped
          -- Below the head and above the base there is a session to undo.
          obtain ⟨top, rest, shape⟩ :
              ∃ top rest, db.chain.saved = top :: rest := by
            have above := descends.num_lt notReached
            have number := coherent.trail.number
            have deep := coherent.trail.base_num
            unfold committedNum at safe
            cases shape : db.chain.saved with
            | nil =>
                simp only [shape, List.length_nil] at deep safe
                omega
            | cons top rest => exact ⟨top, rest, rfl⟩
          have undone :
              db.chain.undo = ⟨top.state, db.chain.revision - 1, rest⟩ := by
            simp [SnapshotStack.undo, shape]
          have follows : Follows top.state db.chain.current := by
            have trail := coherent.trail
            rw [shape] at trail
            exact trail.2.2.1
          have older : Descends target top.state.headBlockId := by
            obtain ⟨content, link⟩ := follows.link
            rw [link] at descends notReached
            cases descends with
            | refl => exact absurd rfl notReached
            | step older numbered => exact older
          let next : Database Content Body Rest :=
            { db with
              forkDb := forkDb
              chain := db.chain.undo
              poppedEmpty := db.poppedEmpty || db.chain.saved.isEmpty }
          have nextCoherent : Coherent next.chain := coherent.undo.coherent
          have nextSafe : committedNum next.chain ≤ target.num := by
            unfold committedNum at safe ⊢
            rw [shape] at safe
            rw [show next.chain = _ from undone]
            exact safe
          have nextOlder :
              Descends target next.chain.current.headBlockId := by
            rw [show next.chain = _ from undone]
            exact older
          have deeper := induction nextCoherent nextOlder nextSafe
          simpa [next, shape] using deeper

theorem popTo_poppedEmpty
    (target : BlockId Content)
    (coherent : Coherent db.chain)
    (descends : Descends target db.chain.current.headBlockId)
    (safe : committedNum db.chain ≤ target.num) :
    (db.popTo target).1.poppedEmpty = db.poppedEmpty ∧
      ((db.popTo target).2 = true →
        (db.popTo target).1.chain.current.headBlockId = target) :=
  popUntil_poppedEmpty target _ coherent descends safe

/-! ## Switches above the base -/

theorem applyInSession_descends
    (rules : Rules Content Body Rest)
    (numbered : block.blockNum ≠ 0)
    (descends : Descends base db.chain.current.headBlockId) :
    Descends base
      (db.applyInSession rules block).1.chain.current.headBlockId := by
  obtain ⟨effect, -⟩ := Database.applyInSession_effect rules db block
  have extended
      {next : ChainState Content Rest}
      (nextState : NextState db.chain.current block next) :
      Descends base next.headBlockId := by
    rw [nextState.headBlockId]
    exact .step (nextState.link ▸ descends) numbered
  generalize db.applyInSession rules block = out at effect ⊢
  obtain ⟨after, returned⟩ := out
  dsimp only at effect ⊢
  generalize after.chain = chain at effect ⊢
  cases effect with
  | refused => exact descends
  | applied accepted => exact extended (appliedState_next accepted)
  | undone last => exact descends
  | halfApplied nextState _ => exact extended nextState

theorem applyBranch_descends
    (rules : Rules Content Body Rest)
    (numbered : ∀ item ∈ items, item.data.blockNum ≠ 0)
    (descends : Descends base db.chain.current.headBlockId) :
    Descends base
        (db.applyBranch rules items).1.chain.current.headBlockId ∧
      (db.applyBranch rules items).1.poppedEmpty = db.poppedEmpty := by
  induction items generalizing db with
  | nil => exact ⟨descends, rfl⟩
  | cons item items induction =>
      rw [List.forall_mem_cons] at numbered
      have step :=
        applyInSession_descends rules numbered.1 descends
      have popped :=
        (Database.applyInSession_effect rules db item.data).2.2
      unfold Database.applyBranch
      split
      · rename_i applied
        rw [applied] at step popped
        obtain ⟨deeper, rest⟩ := induction numbered.2 step
        exact ⟨deeper, rest.trans popped⟩
      · rename_i failed
        rw [failed] at step popped
        exact ⟨step, popped⟩

/--
A switch which the push starts leaves the chain at or above the newest
committed block, and if the new branch fails, nothing it has committed lies
above the point where it left the chain.
-/
def switchSafe
    (rules : Rules Content Body Rest)
    (db : Database Content Body Rest)
    (block : SignedBlock Content Body) : Bool :=
  match db.forkDb.pushBlock block with
  | .error _ => true
  | .ok forkDb =>
      forkDb.head.all fun newHead =>
        let taken := db.taking forkDb newHead
        let state := db.chain.current
        decide (newHead.previousId = state.headBlockId) ||
        decide (newHead.num ≤ state.headBlockNum) ||
        match taken.forkDb.fetchBranchFrom newHead.id
            state.headBlockId with
        | none => true
        | some (first, second) =>
            second.getLast?.all fun last =>
              let fork := last.previousId
              let popped := (taken.holding first second).popTo fork
              let tried := popped.1.applyBranch rules first.reverse
              decide (committedNum db.chain ≤ fork.num) &&
              (! popped.2 || tried.2.isEmpty ||
                decide (committedNum tried.1.chain ≤ fork.num))

/-- The condition on every push of a run. -/
def SwitchSafe
    (rules : Rules Content Body Rest)
    (db : Database Content Body Rest)
    (block : SignedBlock Content Body) : Prop :=
  switchSafe rules db block = true

instance
    (rules : Rules Content Body Rest)
    (db : Database Content Body Rest)
    (block : SignedBlock Content Body) :
    Decidable (SwitchSafe rules db block) :=
  inferInstanceAs (Decidable (_ = true))

theorem restoreOldBranch_poppedEmpty
    (rules : Rules Content Body Rest)
    (bad : List (ForkItem Content Body))
    (front : ForkItem Content Body)
    {oldBranch : List (ForkItem Content Body)}
    {target : BlockId Content}
    (coherent : Coherent db.chain)
    (descends : Descends target db.chain.current.headBlockId)
    (safe : committedNum db.chain ≤ target.num)
    (numbered : ∀ item ∈ oldBranch, item.data.blockNum ≠ 0) :
    (db.restoreOldBranch rules bad front oldBranch target).poppedEmpty =
      db.poppedEmpty := by
  let edited : Database Content Body Rest :=
    { db with forkDb := (Database.removeItems bad db.forkDb).setHead front }
  have editedCoherent : Coherent edited.chain := coherent
  obtain ⟨popped, reached⟩ :=
    popTo_poppedEmpty target editedCoherent descends safe
  simp only [Database.restoreOldBranch]
  split
  · rename_i failed
    rw [failed] at popped
    exact popped
  · rename_i afterPop ok
    rw [ok] at popped reached
    have atFork : Descends target afterPop.chain.current.headBlockId :=
      reached rfl ▸ Descends.refl
    have numberedOld :
        ∀ item ∈ oldBranch.reverse, item.data.blockNum ≠ 0 := by
      simpa using numbered
    exact (applyBranch_descends rules numberedOld atFork).2.trans popped

theorem switchForks_poppedEmpty
    (rules : Rules Content Body Rest)
    {newHead : ForkItem Content Body}
    (wellLinked : db.forkDb.WellLinked allowed)
    (coherent : Coherent db.chain)
    (safe :
      ∀ first second last,
        db.forkDb.fetchBranchFrom newHead.id
          db.chain.current.headBlockId = some (first, second) →
        second.getLast? = some last →
          committedNum db.chain ≤ last.previousId.num ∧
          (((db.holding first second).popTo last.previousId).2 = true →
            ((((db.holding first second).popTo
              last.previousId).1.applyBranch rules
                first.reverse).2 ≠ []) →
            committedNum
              (((db.holding first second).popTo
                last.previousId).1.applyBranch rules
                  first.reverse).1.chain ≤ last.previousId.num)) :
    (db.switchForks rules newHead).1.poppedEmpty = db.poppedEmpty := by
  unfold Database.switchForks
  cases fetched : db.forkDb.fetchBranchFrom newHead.id
      db.chain.current.headBlockId with
  | none => rfl
  | some branches =>
      obtain ⟨first, second⟩ := branches
      obtain ⟨firstLinked, secondLinked, base, -, secondBranch⟩ :=
        ForkDatabase.fetchBranchFrom_branches wellLinked fetched
      obtain ⟨front, isFront, -⟩ := secondBranch.head?
      obtain ⟨last, isLast, isBase⟩ := secondBranch.getLast?
      obtain ⟨above, afterFailure⟩ :=
        safe first second last fetched isLast
      have descends : Descends last.previousId
          (db.holding first second).chain.current.headBlockId :=
        isBase ▸ Descends.of_branch secondBranch secondLinked
      have admissible :
          ∀ item ∈ first.reverse, Admissible allowed item.data := by
        intro item member
        exact (firstLinked item (by simpa using member)).admissible
      have held : Coherent (db.holding first second).chain := coherent
      have pops := popTo_poppedEmpty last.previousId held descends above
      have moves : Moves rules allowed _ _ :=
        .popTo rules last.previousId (db.holding first second)
      simp only [isFront, isLast]
      generalize
        (db.holding first second).popTo last.previousId = popped
        at pops moves afterFailure
      obtain ⟨afterPop, reached⟩ := popped
      cases reached with
      | false => exact pops.1
      | true =>
          have atFork : Descends last.previousId
              afterPop.chain.current.headBlockId :=
            pops.2 rfl ▸ Descends.refl
          have applied :=
            applyBranch_descends rules
              (fun item member => (admissible item member).numbered) atFork
          have applies := moves.trans
            (Moves.applyBranch rules admissible afterPop)
          dsimp only at afterFailure ⊢
          generalize afterPop.applyBranch rules first.reverse = tried
            at applied applies afterFailure
          obtain ⟨afterApply, bad⟩ := tried
          cases bad with
          | nil => exact applied.2.trans pops.1
          | cons item items =>
              have restored :=
                restoreOldBranch_poppedEmpty rules (item :: items) front
                  (coherent.steps applies.chain).coherent applied.1
                  (afterFailure rfl (List.cons_ne_nil _ _))
                  (fun item member =>
                    (secondLinked item member).admissible.numbered)
              exact restored.trans (applied.2.trans pops.1)

/-- A safe push never pops with an empty undo stack. -/
theorem pushBlock_poppedEmpty
    (wellLinked : db.forkDb.WellLinked allowed)
    (coherent : Coherent db.chain)
    (isAllowed : allowed block)
    (numbered : db.forkDb.head = none → block.blockNum ≠ 0)
    (safe : SwitchSafe rules db block) :
    (db.pushBlock rules block).1.poppedEmpty = db.poppedEmpty := by
  rcases pushBlock_cases rules db block with
    ⟨-, refused⟩ | ⟨forkDb, newHead, taken, pushed⟩
  · rw [refused]
  · rw [pushed]
    change
      ((db.taking forkDb newHead).pushTaken rules newHead
        block).1.poppedEmpty = db.poppedEmpty
    unfold Database.pushTaken
    split
    · rename_i notLinked
      split
      · rename_i above
        have takenLinked :
            (db.taking forkDb newHead).forkDb.WellLinked allowed :=
          have linked :=
            wellLinked.pushBlock isAllowed numbered taken.accepted
          linked.shrink (fun _ member => member) linked.head
        refine switchForks_poppedEmpty rules takenLinked coherent ?_
        intro first second last fetched isLast
        rw [Database.taking_chain] at fetched notLinked above
        simp only [SwitchSafe, switchSafe, taken.accepted, taken.isHead,
          fetched, isLast, Option.all_some, notLinked,
          Nat.not_le.2 above, decide_false, Bool.false_or,
          Bool.and_eq_true, decide_eq_true_eq] at safe
        refine ⟨safe.1, fun reached failed => ?_⟩
        simpa [reached, failed] using safe.2
      · rfl
    · have session :=
        (Database.applyInSession_effect rules (db.taking forkDb newHead)
          block).2.2
      split
      · rename_i applied
        rw [applied] at session
        exact session
      · rename_i failed
        rw [failed] at session
        exact session

/-! ## Whole runs -/

theorem opening_coherent
    (opening : Opening Content Body Rest) :
    Coherent opening.database.chain := by
  refine ⟨(opening_together opening).number, rfl, ?_, ?_⟩
  · exact Nat.min_le_right _ _
  · simp [Opening.database, SnapshotStack.opened]

/-- In a run of safe pushes no block is popped with an empty undo stack. -/
theorem pushAll_poppedEmpty
    (rules : Rules Content Body Rest)
    {blocks : List (SignedBlock Content Body)}
    (coherent : Coherent db.chain)
    (wellLinked : db.forkDb.WellLinked allowed)
    (isAllowed : ∀ block ∈ blocks, allowed block)
    (numbered : Numbered db blocks)
    (safe : StepsMeet (SwitchSafe rules) rules db blocks) :
    (db.pushAll rules blocks).poppedEmpty = db.poppedEmpty := by
  induction blocks generalizing db with
  | nil => rfl
  | cons block rest induction =>
      rw [List.forall_mem_cons] at isAllowed
      have positive (none : db.forkDb.head = none) :
          block.blockNum ≠ 0 :=
        numbered none block (by simp)
      have moves :=
        pushBlock_moves rules db block wellLinked isAllowed.1 positive
      have step :=
        pushBlock_poppedEmpty wellLinked coherent isAllowed.1 positive
          safe.1
      have deeper :=
        induction (coherent.steps moves.chain).coherent
          (moves.forkDb wellLinked) isAllowed.2 (numbered.tail moves)
          safe.2
      exact deeper.trans step

/--
Irreversible blocks stay: an applied block whose number is at most the last
irreversible one is applied in every later state, whatever is pushed; and as
long as switches stay above the newest committed block, no block is popped
with an empty undo stack.
-/
theorem irreversible_blocks_stay
    (rules : Rules Content Body Rest)
    (opening : Opening Content Body Rest)
    (before after : List (SignedBlock Content Body))
    (numbered : Numbered opening.database (before ++ after)) :
    (∀ id ∈ (opening.database.pushAll rules before).chain.current.applied,
      id.num ≤
          (opening.database.pushAll rules
            before).chain.current.lastIrreversibleBlockNum →
        id ∈
          (opening.database.pushAll rules
            (before ++ after)).chain.current.applied) ∧
    (StepsMeet (SwitchSafe rules) rules opening.database
        (before ++ after) →
      (opening.database.pushAll rules
        (before ++ after)).poppedEmpty = false) := by
  let anything : SignedBlock Content Body → Prop := fun _ => True
  have initial := opening_coherent opening
  have linked : opening.database.forkDb.WellLinked anything :=
    opening_wellLinked opening fun _ _ => trivial
  constructor
  · intro id applied irreversible
    obtain ⟨numberedBefore, numberedAfter⟩ := numbered.append rules linked
    have firstMoves :=
      pushAll_moves rules linked (fun _ _ => trivial) numberedBefore
    have secondMoves :=
      pushAll_moves rules (firstMoves.forkDb linked) (fun _ _ => trivial)
        numberedAfter
    have middle := (initial.steps firstMoves.chain).coherent
    have advanced := middle.steps secondMoves.chain
    rw [← pushAll_append] at advanced
    have inBase :
        id ∈
          (baseOf
            (opening.database.pushAll rules before).chain.current
            (opening.database.pushAll rules
              before).chain.saved).applied := by
      have settled := middle.settledCurrent
      rcases middle.trail.num_of_mem_applied applied with
        inBase | ⟨above, below⟩
      · exact inBase
      · unfold committedNum at settled
        omega
    exact advanced.coherent.trail.base_applied.subset
      (advanced.base.subset inBase)
  · exact pushAll_poppedEmpty rules initial linked (fun _ _ => trivial)
      numbered

/-! ## The windows do not line up -/

/-- `count` blocks on top of each other, numbered by their content. -/
def sampleChain
    (previous : BlockId Nat)
    (content : Nat) :
    Nat → List (SignedBlock Nat Bool)
  | 0 => []
  | count + 1 =>
      let block := sampleBlock previous content true
      block :: sampleChain block.id (content + 1) count

/-- The block with this number in the sample chain. -/
def chainId (num : Nat) : BlockId Nat :=
  ((sampleChain firstBlock.id 2 24)[num - 2]?.getD firstBlock).id

/-- The state after 25 blocks and a longer branch on block 10. -/
def switchedSample : Database Nat Bool Unit :=
  sampleOpening.database.pushAll sampleRules
    (sampleChain firstBlock.id 2 24 ++ sampleChain (chainId 10) 100 16)

/-- The switch takes block 11 away, and block 4, which is irreversible, stays. -/
theorem irreversible_blocks_stay_switching :
    chainId 11 ∉ switchedSample.chain.current.applied ∧
      chainId 4 ∈ switchedSample.chain.current.applied ∧
        switchedSample.poppedEmpty = false := by
  rcases irreversible_blocks_stay sampleRules sampleOpening
    (sampleChain firstBlock.id 2 24) (sampleChain (chainId 10) 100 16)
    (fun none => by simp [sampleOpening, Opening.database,
      ForkDatabase.startBlock] at none) with ⟨stay, safe⟩
  unfold switchedSample
  exact ⟨by decide +kernel,
    stay (chainId 4) (by decide +kernel) (by decide +kernel),
    safe (by decide +kernel)⟩

/--
With 25 blocks applied, block 4 is irreversible.  A branch on block 3 is still
admitted, and switching to it pops block 4 with an empty undo stack.
-/
theorem popped_with_empty_undo_stack :
    (sampleOpening.database.pushAll sampleRules
        (sampleChain firstBlock.id 2
          24)).chain.current.lastIrreversibleBlockNum = 4 ∧
      (sampleOpening.database.pushAll sampleRules
        (sampleChain firstBlock.id 2 24 ++
          sampleChain (chainId 3) 100 23)).poppedEmpty = true := by
  decide +kernel

end BMChain.Chain
