import BMChain.Chain.Atomicity
import BMChain.Chain.Irreversibility

/-!
# Pushing a known block again

The fork database refuses to insert an item it already has, but it still
compares the freshly made item with its head, and `push_block` goes on with
whatever is the head then.  This file says exactly when nothing happens.
-/

namespace BMChain.Chain

open BMChain.Protocol
open BMChain.Foundation

variable {Content Body Rest : Type} [DecidableEq Content]

variable {id : Option (BlockId Content)} {target : BlockId Content}

variable {forkDb : ForkDatabase Content Body} {removed : ForkItem Content Body}

variable {db : Database Content Body Rest} {block : SignedBlock Content Body}
variable (rules : Rules Content Body Rest)
    {newHead : ForkItem Content Body}

/-- The block is in the fork database. -/
def Known
    (db : Database Content Body Rest)
    (block : SignedBlock Content Body) : Prop :=
  (db.forkDb.fetchBlock block.id).isSome = true

/-- Chain state, items of the fork database, and the id of its head. -/
structure SameToUsers
    (db after : Database Content Body Rest) : Prop where
  chain : after.chain.current = db.chain.current
  index : ∀ item, item ∈ after.forkDb.index ↔ item ∈ db.forkDb.index
  head :
    after.forkDb.head.map ForkItem.id = db.forkDb.head.map ForkItem.id

omit [DecidableEq Content] in
theorem sameToUsers_release
    {db after : Database Content Body Rest} :
    SameToUsers db after.release ↔ SameToUsers db after :=
  ⟨fun same => ⟨same.chain, same.index, same.head⟩,
    fun same => ⟨same.chain, same.index, same.head⟩⟩

/-- The push returns `false` or throws, and nothing has changed. -/
def PushHarmless
    (db : Database Content Body Rest)
    (block : SignedBlock Content Body) : Prop :=
  (db.pushBlock rules block).2 ≠ .returned true ∧
    SameToUsers db (db.pushBlock rules block).1

/--
The items behind the head of the fork database end, as far as the weak pointers
can be locked, at an item with the given id.
-/
inductive DeadEnd (id : Option (BlockId Content)) :
    ForkDatabase Content Body → Prop where
  | here
      {forkDb : ForkDatabase Content Body}
      (same : forkDb.head.map ForkItem.id = id)
      (stuck : forkDb.popBlock = none) :
      DeadEnd id forkDb
  | back
      {forkDb older : ForkDatabase Content Body}
      (popped : forkDb.popBlock = some older)
      (deeper : DeadEnd id older) :
      DeadEnd id forkDb

/--
The switch to the fork database's head does not start.  There are no branches;
or there is nothing behind the head to go back to, or nothing to undo, and the
way back ends at the id of the head before the push.
-/
def SwitchStalls
    (db taken : Database Content Body Rest)
    (newHead : ForkItem Content Body)
    (block : SignedBlock Content Body) : Prop :=
  match taken.forkDb.fetchBranchFrom newHead.id
      taken.chain.current.headBlockId with
  | none => db.forkDb.becomesHead block = false
  | some (first, second) =>
      let held := (taken.holding first second).forkDb
      (held.popBlock = none ∨ db.chain.saved = []) ∧
        DeadEnd (db.forkDb.head.map ForkItem.id) held

/--
The state in which a known block can be pushed again: the fork database
refuses it as too old, or its head does not build on the applied head and
either stays where it is at most at the applied height, or calls for a switch
which does not start.
-/
def Quiet
    (db : Database Content Body Rest)
    (block : SignedBlock Content Body) : Prop :=
  ∀ forkDb newHead,
    Taken db block forkDb newHead →
      newHead.previousId ≠ db.chain.current.headBlockId ∧
      (if newHead.num ≤ db.chain.current.headBlockNum then
        db.forkDb.becomesHead block = false
      else
        SwitchStalls db (db.taking forkDb newHead) newHead block)

/-! ## What happens to the items -/

theorem taken_index
    (known : Known db block)
    (taken : Taken db block forkDb newHead) :
    forkDb.index = db.forkDb.index := by
  obtain ⟨back, inserted, -⟩ := ForkDatabase.pushBlock_ok taken.accepted
  rw [inserted]
  unfold ForkDatabase.insertItem
  exact if_pos known

/-- A block of the index has a number. -/
theorem known_numbered
    {allowed : SignedBlock Content Body → Prop}
    (wellLinked : db.forkDb.WellLinked allowed)
    (known : Known db block) :
    block.blockNum ≠ 0 := by
  obtain ⟨item, found⟩ := Option.isSome_iff_exists.1 known
  obtain ⟨member, same⟩ := ForkDatabase.fetchBlock_spec found
  have numbered := (wellLinked.index item member).admissible.numbered
  rw [← SignedBlock.id_num] at numbered ⊢
  rw [← same]
  exact numbered

theorem taken_head_id_iff
    (taken : Taken db block forkDb newHead) :
    forkDb.head.map ForkItem.id = db.forkDb.head.map ForkItem.id ↔
      db.forkDb.becomesHead block = false := by
  rw [taken.isHead]
  cases becomes : db.forkDb.becomesHead block with
  | false => simp [taken.old becomes]
  | true =>
      have data := taken.new becomes
      unfold ForkDatabase.becomesHead at becomes
      cases old : db.forkDb.head with
      | none => simp
      | some head =>
          simp only [old, decide_eq_true_eq] at becomes
          simp only [Option.map_some, Option.some.injEq, reduceCtorEq,
            iff_false]
          intro same
          have nums := congrArg BlockId.num same
          simp only [ForkItem.id, data, SignedBlock.id_num] at nums
          have : head.num = head.data.blockNum := rfl
          omega

theorem popTo_index
    (target : BlockId Content)
    (db : Database Content Body Rest) :
    (db.popTo target).1.forkDb.index = db.forkDb.index :=
  (popUntil_frame target _ db).1

theorem applyBranch_index
    (items : List (ForkItem Content Body))
    (db : Database Content Body Rest) :
    ∀ item ∈ (db.applyBranch rules items).1.forkDb.index,
      item ∈ db.forkDb.index := by
  induction items generalizing db with
  | nil => exact fun _ member => member
  | cons item items induction =>
      have shrinks :=
        (Database.applyInSession_effect rules db item.data).2.1.index
      unfold Database.applyBranch
      split
      · rename_i applied
        rw [applied] at shrinks
        exact fun other member =>
          shrinks other (induction _ other member)
      · rename_i failed
        rw [failed] at shrinks
        exact shrinks

/-- The items which were not applied are the last ones of the branch. -/
theorem applyBranch_suffix
    (items : List (ForkItem Content Body))
    (db : Database Content Body Rest) :
    (db.applyBranch rules items).2 <:+ items := by
  induction items generalizing db with
  | nil => exact List.suffix_rfl
  | cons item items induction =>
      unfold Database.applyBranch
      split
      · exact (induction _).trans (List.suffix_cons item items)
      · exact List.suffix_rfl

theorem removeItems_absent
    (items : List (ForkItem Content Body))
    (forkDb : ForkDatabase Content Body)
    (member : removed ∈ items) :
    ∀ item ∈ (Database.removeItems items forkDb).index,
      item.id ≠ removed.id := by
  induction items generalizing forkDb with
  | nil => cases member
  | cons first items induction =>
      intro item inIndex
      rcases List.mem_cons.1 member with rfl | later
      · have kept :=
          removeItems_index items (forkDb.remove removed.id) item inIndex
        simpa [ForkDatabase.remove] using (List.mem_filter.1 kept).2
      · exact induction (forkDb.remove first.id) later item inIndex

/-! ## A pop loop which gets nowhere -/

/-- A pop fails with the pop of the fork database, once the block is found. -/
theorem popBlock_of_found
    (found :
      (db.fetchBlockById db.chain.current.headBlockId).isSome = true) :
    db.popBlock =
      match db.forkDb.popBlock with
      | none => (db, false)
      | some forkDb =>
          ({ db with
              forkDb := forkDb
              chain := db.chain.undo
              poppedEmpty := db.poppedEmpty || db.chain.saved.isEmpty },
            true) := by
  unfold Database.popBlock
  split
  case h_1 missing =>
    rw [missing] at found
    cases found
  case h_2 => rfl

omit [DecidableEq Content] in
theorem deadEnd_of_stuck
    (stuck : forkDb.popBlock = none) :
    DeadEnd id forkDb ↔ forkDb.head.map ForkItem.id = id := by
  constructor
  · intro ends
    cases ends with
    | here same => exact same
    | back popped =>
        rw [stuck] at popped
        cases popped
  · exact fun same => .here same stuck

omit [DecidableEq Content] in
theorem deadEnd_of_popped
    {older : ForkDatabase Content Body}
    (popped : forkDb.popBlock = some older) :
    DeadEnd id forkDb ↔ DeadEnd id older := by
  constructor
  · intro ends
    cases ends with
    | here _ stuck =>
        rw [stuck] at popped
        cases popped
    | back again deeper =>
        rw [popped] at again
        cases again
        exact deeper
  · exact fun deeper => .back popped deeper

/-- With nothing to undo, the loop moves the fork head to the dead end. -/
theorem popUntil_deadEnd
    (id : Option (BlockId Content))
    (fuel : Nat)
    (empty : db.chain.saved = [])
    (different : db.chain.current.headBlockId ≠ target)
    (found :
      (db.fetchBlockById db.chain.current.headBlockId).isSome = true)
    (enough : ∀ head ∈ db.forkDb.head, head.back.length < fuel) :
    (db.popUntil target fuel).1.chain = db.chain ∧
      ((db.popUntil target fuel).1.forkDb.head.map ForkItem.id = id ↔
        DeadEnd id db.forkDb) := by
  induction fuel generalizing db with
  | zero =>
      have headless : db.forkDb.head = none := by
        cases head : db.forkDb.head with
        | none => rfl
        | some item => exact absurd (enough item head) (Nat.not_lt_zero _)
      have stuck : db.forkDb.popBlock = none := by
        simp [ForkDatabase.popBlock, headless]
      exact ⟨rfl, (deadEnd_of_stuck stuck).symm⟩
  | succ fuel induction =>
      unfold Database.popUntil
      rw [if_neg different, popBlock_of_found found]
      cases popped : db.forkDb.popBlock with
      | none => exact ⟨rfl, (deadEnd_of_stuck popped).symm⟩
      | some older =>
          have undone : db.chain.undo = db.chain := by
            simp [SnapshotStack.undo, empty]
          rw [deadEnd_of_popped popped]
          simp only [ForkDatabase.popBlock, Option.bind_eq_bind,
            Option.bind_eq_some_iff, Option.pure_def,
            Option.some.injEq] at popped
          obtain ⟨head, isHead, prev, locked, rfl⟩ := popped
          have shorter : prev.back.length < fuel := by
            have long := enough head isHead
            rw [ForkDatabase.lockPrev_spec locked] at long
            exact Nat.lt_of_succ_lt_succ long
          simp only [undone]
          refine induction empty different found ?_
          rintro item ⟨⟩
          exact shorter

omit [DecidableEq Content] in
theorem undo_headBlockNum
    {chain : SnapshotStack (ChainState Content Rest)}
    (coherent : Coherent chain) :
    chain.undo.current.headBlockNum ≤ chain.current.headBlockNum := by
  unfold SnapshotStack.undo
  split
  · exact Nat.le_refl _
  · rename_i top rest shape
    have trail := coherent.trail
    rw [shape] at trail
    have step := trail.2.2.1.number
    show top.state.headBlockNum ≤ _
    omega

/-- The loop undoes blocks, and so never raises the head. -/
theorem popUntil_headBlockNum
    (target : BlockId Content)
    (fuel : Nat)
    (coherent : Coherent db.chain) :
    (db.popUntil target fuel).1.chain.current.headBlockNum ≤
      db.chain.current.headBlockNum := by
  induction fuel generalizing db with
  | zero => exact Nat.le_refl _
  | succ fuel induction =>
      unfold Database.popUntil
      split
      · exact Nat.le_refl _
      · split
        · rename_i failed
          rw [popBlock_failed failed]
        · rename_i popped
          obtain ⟨older, -, rfl⟩ := popBlock_popped popped
          exact (induction coherent.undo.coherent).trans
            (undo_headBlockNum coherent)

/-- The loop may pop everything behind the head of the fork database. -/
theorem popTo_fuel
    (target : BlockId Content)
    (db : Database Content Body Rest) :
    ∃ fuel, db.popTo target = db.popUntil target (fuel + 1) ∧
      ∀ head ∈ db.forkDb.head, head.back.length < fuel + 1 := by
  unfold Database.popTo
  cases db.forkDb.head with
  | none => exact ⟨0, rfl, fun _ none => by cases none⟩
  | some head =>
      refine ⟨head.back.length, rfl, ?_⟩
      rintro item ⟨⟩
      exact Nat.lt_succ_self _

/-- The loop throws and has changed nothing exactly when it is stalled. -/
theorem popTo_same_iff
    (id : Option (BlockId Content))
    (coherent : Coherent db.chain)
    (different : db.chain.current.headBlockId ≠ target)
    (found :
      (db.fetchBlockById db.chain.current.headBlockId).isSome = true) :
    ((db.popTo target).2 = false ∧
        (db.popTo target).1.chain.current = db.chain.current ∧
          (db.popTo target).1.forkDb.head.map ForkItem.id = id) ↔
      (db.forkDb.popBlock = none ∨ db.chain.saved = []) ∧
        DeadEnd id db.forkDb := by
  cases popped : db.forkDb.popBlock with
  | none =>
      have failed : db.popBlock.2 = false := by
        rw [popBlock_of_found found, popped]
      rw [popTo_first_failed different failed, deadEnd_of_stuck popped]
      simp
  | some older =>
      cases shape : db.chain.saved with
      | nil =>
          obtain ⟨fuel, loop, enough⟩ := popTo_fuel target db
          obtain ⟨chain, ends⟩ :=
            popUntil_deadEnd id (fuel + 1) shape different found enough
          have stuck :=
            popUntil_stuck (fuel + 1) shape different
          rw [loop, chain, ends, stuck]
          simp
      | cons top rest =>
          simp only [reduceCtorEq, or_self, false_and, iff_false, not_and]
          intro _ same
          exfalso
          -- The first pop undoes a block, and the others do not bring it back.
          have lower : (db.popTo target).1.chain.current.headBlockNum ≤
              db.chain.undo.current.headBlockNum := by
            obtain ⟨fuel, loop, -⟩ := popTo_fuel target db
            rw [loop, Database.popUntil, if_neg different,
              popBlock_of_found found, popped]
            exact popUntil_headBlockNum target _ coherent.undo.coherent
          have trail := coherent.trail
          rw [shape] at trail
          have step := trail.2.2.1.number
          rw [same] at lower
          simp only [SnapshotStack.undo, shape] at lower
          omega

/-! ## The two ways on -/

/-- A failed switch takes the fork database's head out of the index. -/
theorem restoreOldBranch_index
    (db : Database Content Body Rest)
    {bad : List (ForkItem Content Body)}
    (front : ForkItem Content Body)
    (oldBranch : List (ForkItem Content Body))
    (target : BlockId Content)
    (member : removed ∈ bad) :
    removed ∉
      (db.restoreOldBranch rules bad front oldBranch
        target).forkDb.index := by
  intro inIndex
  unfold Database.restoreOldBranch at inIndex
  dsimp only at inIndex
  have pops :=
    popTo_index target
      { db with
        forkDb := (Database.removeItems bad db.forkDb).setHead front }
  have inRemoved :
      removed ∈ (Database.removeItems bad db.forkDb).index := by
    split at inIndex
    · rename_i failed
      rw [failed] at pops
      exact pops ▸ inIndex
    · rename_i popped
      rw [popped] at pops
      exact pops ▸ applyBranch_index rules _ _ _ inIndex
  exact removeItems_absent bad db.forkDb member removed inRemoved rfl

/-- A switch is harmless exactly when it stalls. -/
theorem switch_harmless_iff
    {db taken : Database Content Body Rest}
    {allowed : SignedBlock Content Body → Prop}
    (coherent : Coherent db.chain)
    (wellLinked : taken.forkDb.WellLinked allowed)
    (chain : taken.chain = db.chain)
    (index : taken.forkDb.index = db.forkDb.index)
    (stays :
      taken.forkDb.head.map ForkItem.id = db.forkDb.head.map ForkItem.id ↔
        db.forkDb.becomesHead block = false) :
    ((taken.switchForks rules newHead).2 ≠ .returned true ∧
      SameToUsers db (taken.switchForks rules newHead).1) ↔
      SwitchStalls db taken newHead block := by
  unfold Database.switchForks SwitchStalls
  cases fetched : taken.forkDb.fetchBranchFrom newHead.id
      taken.chain.current.headBlockId with
  | none =>
      rw [← stays]
      constructor
      · exact fun harmless => harmless.2.head
      · intro head
        exact ⟨by simp, ⟨by rw [chain], by simp [index], head⟩⟩
  | some branches =>
      obtain ⟨first, second⟩ := branches
      obtain ⟨firstItem, secondItem, foundFirst, foundSecond, headFirst,
        headSecond⟩ := ForkDatabase.fetchBranchFrom_heads fetched
      obtain ⟨-, secondLinked, base, -, secondBranch⟩ :=
        ForkDatabase.fetchBranchFrom_branches wellLinked fetched
      obtain ⟨last, isLast, isBase⟩ := secondBranch.getLast?
      -- The branch begins above its base, so there is something to pop.
      have different : taken.chain.current.headBlockId ≠ last.previousId := by
        intro same
        have below := secondBranch.num_lt secondLinked
        rw [same, isBase] at below
        exact Nat.lt_irrefl _ below
      have found :
          ((taken.holding first second).fetchBlockById
            taken.chain.current.headBlockId).isSome = true := by
        have inIndex : (taken.holding first second).forkDb.fetchBlock
            taken.chain.current.headBlockId = some secondItem := foundSecond
        rw [Database.fetchBlockById, inIndex]
        rfl
      have held : Coherent (taken.holding first second).chain :=
        chain ▸ coherent
      have stalls := popTo_same_iff
        (db.forkDb.head.map ForkItem.id) held different found
      rw [show (taken.holding first second).chain = db.chain from chain]
        at stalls
      simp only [headSecond, isLast]
      rw [← stalls]
      generalize poppedEq :
        (taken.holding first second).popTo last.previousId = popped
      obtain ⟨afterPop, reached⟩ := popped
      have popIndex : afterPop.forkDb.index = db.forkDb.index := by
        have same := popTo_index last.previousId
          (taken.holding first second)
        rw [poppedEq] at same
        exact same.trans index
      cases reached with
      | false =>
          simp only [ne_eq, reduceCtorEq, not_false_eq_true, true_and]
          constructor
          · exact fun same => ⟨same.chain, same.head⟩
          · rintro ⟨chainSame, headSame⟩
            exact ⟨chainSame, by simp [popIndex], headSame⟩
      | true =>
          simp only [reduceCtorEq, false_and, iff_false, not_and]
          generalize appliedEq :
            afterPop.applyBranch rules first.reverse = applied
          obtain ⟨afterApply, bad⟩ := applied
          cases bad with
          | nil => simp
          | cons item items =>
              intro _ same
              -- The item found for the new head is among the bad ones.
              have suffix :=
                applyBranch_suffix rules first.reverse afterPop
              rw [appliedEq] at suffix
              have isBad : firstItem ∈ item :: items := by
                obtain ⟨before, split⟩ := suffix
                have lasts := congrArg List.getLast? split
                rw [List.getLast?_reverse, headFirst,
                  List.getLast?_append_cons] at lasts
                exact List.mem_of_getLast? lasts
              have gone :=
                restoreOldBranch_index rules afterApply secondItem second
                  last.previousId isBad
              refine gone ((same.index firstItem).2 ?_)
              rw [← index]
              exact (ForkDatabase.fetchBlock_spec foundFirst).1

/-- An attempt to apply a known block on the head always shows. -/
theorem extension_not_harmless
    {db taken : Database Content Body Rest}
    (known : Known db block)
    (chain : taken.chain = db.chain) :
    ((taken.applyInSession rules block).2 = true →
      (taken.applyInSession rules block).1.chain.current ≠
        db.chain.current) ∧
    ¬ (∀ item,
      item ∈
          ((taken.applyInSession rules block).1.forkDb.remove
            block.id).index ↔
        item ∈ db.forkDb.index) := by
  constructor
  · intro returned same
    obtain ⟨effect, -⟩ :=
      Database.applyInSession_effect rules taken block
    rw [returned] at effect
    generalize chainEq : (taken.applyInSession rules block).1.chain = after
      at effect same
    cases effect with
    | applied accepted =>
        have next := appliedState_next accepted
        simp only at same
        rw [same, chain] at next
        have fixed : block.id = block.previous :=
          next.headBlockId.symm.trans next.link.symm
        exact BlockId_header_ne _ _ fixed
  · intro same
    obtain ⟨item, found⟩ := Option.isSome_iff_exists.1 known
    obtain ⟨member, sameId⟩ := ForkDatabase.fetchBlock_spec found
    have kept := (same item).2 member
    simp [ForkDatabase.remove, sameId] at kept

/-- In a linked and coherent database this is so exactly in a quiet state. -/
theorem pushHarmless_iff_quiet
    {allowed : SignedBlock Content Body → Prop}
    (coherent : Coherent db.chain)
    (wellLinked : db.forkDb.WellLinked allowed)
    (isAllowed : allowed block)
    (known : Known db block) :
    PushHarmless rules db block ↔ Quiet db block := by
  unfold PushHarmless
  rcases pushBlock_cases rules db block with
    ⟨⟨fault, refused⟩, pushed⟩ | ⟨forkDb, newHead, taken, pushed⟩
  · rw [pushed]
    constructor
    · intro _ forkDb newHead taken
      simp [taken.accepted] at refused
    · exact fun _ => ⟨by simp, ⟨rfl, fun _ => Iff.rfl, rfl⟩⟩
  · rw [pushed]
    have quiet_iff :
        Quiet db block ↔
          newHead.previousId ≠ db.chain.current.headBlockId ∧
          (if newHead.num ≤ db.chain.current.headBlockNum then
            db.forkDb.becomesHead block = false
          else
            SwitchStalls db (db.taking forkDb newHead) newHead block) := by
      constructor
      · exact fun quiet => quiet forkDb newHead taken
      · intro body forkDb' newHead' taken'
        have sameDb := taken'.accepted.symm.trans taken.accepted
        cases sameDb
        have sameHead := taken'.isHead.symm.trans taken.isHead
        cases sameHead
        exact body
    rw [quiet_iff, sameToUsers_release]
    have index := taken_index known taken
    have takenLinked : (db.taking forkDb newHead).forkDb.WellLinked allowed :=
      have linked := wellLinked.pushBlock isAllowed
        (fun _ => known_numbered wellLinked known) taken.accepted
      linked.shrink (fun _ member => member) linked.head
    unfold Database.pushTaken
    rw [Database.taking_chain]
    by_cases linked : newHead.previousId = db.chain.current.headBlockId
    · -- The fork head builds on the applied head: the block is applied.
      simp only [linked, ne_eq, not_true_eq_false, false_and, if_false,
        iff_false, not_and]
      obtain ⟨advances, removes⟩ :=
        extension_not_harmless rules known
          (Database.taking_chain db forkDb newHead)
      generalize
        (db.taking forkDb newHead).applyInSession rules block = out
        at advances removes
      obtain ⟨after, returned⟩ := out
      cases returned with
      | true => exact fun _ same => advances rfl same.chain
      | false => exact fun _ same => removes same.index
    · simp only [linked, ne_eq, not_false_eq_true, true_and, if_true]
      by_cases above : newHead.num > db.chain.current.headBlockNum
      · rw [if_pos above, if_neg (by omega)]
        have stays := taken_head_id_iff taken
        exact switch_harmless_iff rules coherent takenLinked
          (Database.taking_chain db forkDb newHead) index stays
      · rw [if_neg above, if_pos (by omega), ← taken_head_id_iff taken]
        constructor
        · exact fun harmless => harmless.2.head
        · exact fun head =>
            ⟨by simp, ⟨rfl, fun item => by
              rw [← index]
              rfl, head⟩⟩

/--
In every state which pushes lead to, pushing a known block again is harmless
exactly when the state is quiet.
-/
theorem push_known_harmless_iff
    (rules : Rules Content Body Rest)
    (opening : Opening Content Body Rest)
    (blocks : List (SignedBlock Content Body))
    (block : SignedBlock Content Body)
    (numbered : Numbered opening.database blocks)
    (known : Known (opening.database.pushAll rules blocks) block) :
    PushHarmless rules (opening.database.pushAll rules blocks) block ↔
      Quiet (opening.database.pushAll rules blocks) block := by
  let anything : SignedBlock Content Body → Prop := fun _ => True
  have linked : opening.database.forkDb.WellLinked anything :=
    opening_wellLinked opening fun _ _ => trivial
  have moves := pushAll_moves rules linked (fun _ _ => trivial) numbered
  exact pushHarmless_iff_quiet rules
    ((opening_coherent opening).steps moves.chain).coherent
    (moves.forkDb linked) trivial known

/-- While the heads agree, a block which is not above them is harmless. -/
theorem quiet_of_heads_agree
    (number :
      db.chain.current.headBlockNum = db.chain.current.headBlockId.num)
    (agree : HeadsAgree db)
    (below : db.forkDb.becomesHead block = false) :
    Quiet db block := by
  intro forkDb newHead taken
  have old := taken.old below
  have sameId : newHead.id = db.chain.current.headBlockId := by
    simpa [HeadsAgree, old] using agree
  constructor
  · rw [← sameId]
    exact (BlockId_header_ne _ _).symm
  · have notAbove : newHead.num ≤ db.chain.current.headBlockNum := by
      rw [number, ← sameId]
      exact le_of_eq rfl
    rw [if_pos notAbove]
    exact below

theorem push_known_harmless_extending :
    Known (sampleOpening.database.pushAll sampleRules extendingBlocks)
        (sampleBlock firstBlock.id 1 true) ∧
      PushHarmless sampleRules
        (sampleOpening.database.pushAll sampleRules extendingBlocks)
        (sampleBlock firstBlock.id 1 true) := by
  have known :
      Known (sampleOpening.database.pushAll sampleRules extendingBlocks)
        (sampleBlock firstBlock.id 1 true) := by
    unfold Known
    decide
  refine ⟨known, (push_known_harmless_iff sampleRules sampleOpening
    extendingBlocks _ ?_ known).2 ?_⟩
  · intro none
    simp [sampleOpening, Opening.database, ForkDatabase.startBlock] at none
  exact quiet_of_heads_agree (by decide) (by decide) (by decide)

/--
After a switch by one block, the new head block is known; pushing it again
moves the head of the fork database.
-/
theorem push_known_moves_fork_head :
    Known (sampleOpening.database.pushAll sampleRules switchingBlocks)
        (sampleBlock (sampleBlock firstBlock.id 2 true).id 3 true) ∧
      ¬ PushHarmless sampleRules
        (sampleOpening.database.pushAll sampleRules switchingBlocks)
        (sampleBlock (sampleBlock firstBlock.id 2 true).id 3 true) := by
  constructor
  · unfold Known
    decide
  · rintro ⟨-, same⟩
    have head := same.head
    revert head
    decide

end BMChain.Chain
