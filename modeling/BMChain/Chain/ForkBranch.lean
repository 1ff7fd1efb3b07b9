import BMChain.Chain.ForkDatabase

/-!
# Branches of the fork database

The items behind an item are linked by their block ids, and every pushed
block has a positive number.  `Branch` describes what `fetch_branch_from`
returns: items which lead from a block down to the children of a common
predecessor.
-/

namespace BMChain.Chain

open BMChain.Protocol

variable {Content Body : Type}

variable {node : Nat × SignedBlock Content Body}
    {back rest : List (Nat × SignedBlock Content Body)}
    {firsts seconds items passed : List (ForkItem Content Body)}
    {first second : ForkItem Content Body}

variable {last item : ForkItem Content Body} {top base : BlockId Content}
    {num handle : Nat} {data block : SignedBlock Content Body}

/-- A block which may be pushed: its number has not wrapped around. -/
structure Admissible
    (allowed : SignedBlock Content Body → Prop)
    (block : SignedBlock Content Body) : Prop where
  numbered : block.blockNum ≠ 0
  allowed : allowed block

/-- Consecutive blocks name each other, and all of them are admissible. -/
def LinkedChain
    (allowed : SignedBlock Content Body → Prop) :
    List (Nat × SignedBlock Content Body) → Prop
  | [] => True
  | [node] => Admissible allowed node.2
  | node :: prev :: rest =>
      Admissible allowed node.2 ∧ node.2.previous = prev.2.id ∧
        LinkedChain allowed (prev :: rest)

/-- Every item of the index, and the head, has a linked chain behind it. -/
structure ForkDatabase.WellLinked
    (allowed : SignedBlock Content Body → Prop)
    (db : ForkDatabase Content Body) : Prop where
  index : ∀ item ∈ db.index, LinkedChain allowed item.chain
  head : ∀ item ∈ db.head, LinkedChain allowed item.chain

variable {allowed : SignedBlock Content Body → Prop}

theorem LinkedChain.tail
    (linked : LinkedChain allowed (node :: rest)) :
    LinkedChain allowed rest := by
  cases rest with
  | nil => trivial
  | cons prev rest => exact linked.2.2

theorem LinkedChain.admissible
    (linked : LinkedChain allowed (node :: rest)) :
    Admissible allowed node.2 := by
  cases rest with
  | nil => exact linked
  | cons prev rest => exact linked.1

namespace ForkDatabase

variable {db : ForkDatabase Content Body}

theorem lockPrev_spec
    {item prev : ForkItem Content Body}
    (locked : db.lockPrev item = some prev) :
    item.back = prev.chain := by
  unfold lockPrev at locked
  split at locked
  · cases locked
  · rename_i shape
    split at locked
    · cases locked
      exact shape
    · cases locked

/-- A locked predecessor is the block the item names. -/
theorem lockPrev_linked
    {item prev : ForkItem Content Body}
    (linked : LinkedChain allowed item.chain)
    (locked : db.lockPrev item = some prev) :
    LinkedChain allowed prev.chain ∧
      item.previousId = prev.id ∧
      item.num = prev.num + 1 := by
  have back := lockPrev_spec locked
  unfold ForkItem.chain at linked
  rw [back] at linked
  have same : item.data.previous = prev.data.id := linked.2.1
  refine ⟨linked.tail, same, ?_⟩
  have numbered := SignedBlock.blockNum_eq linked.admissible.numbered
  simpa [ForkItem.num, same] using numbered

/-! ## Branches -/

/--
`Branch top items base`: the items, newest first, are the blocks from `top`
down to a child of `base`.
-/
inductive Branch :
    BlockId Content → List (ForkItem Content Body) → BlockId Content →
      Prop where
  | single (item : ForkItem Content Body) :
      Branch item.id [item] item.previousId
  | cons
      (item : ForkItem Content Body)
      {items : List (ForkItem Content Body)}
      {base : BlockId Content}
      (older : Branch item.previousId items base) :
      Branch item.id (item :: items) base

theorem Branch.head?
    (branch : Branch top items base) :
    ∃ front, items.head? = some front ∧ front.id = top := by
  cases branch <;> exact ⟨_, rfl, rfl⟩

theorem Branch.getLast?
    (branch : Branch top items base) :
    ∃ last, items.getLast? = some last ∧ last.previousId = base := by
  induction branch with
  | single item => exact ⟨item, rfl, rfl⟩
  | cons item older induction =>
      obtain ⟨last, isLast, previous⟩ := induction
      exact ⟨last, by simp [List.getLast?_cons, isLast], previous⟩

/-- A branch leads to a block with a larger number. -/
theorem Branch.num_lt
    (branch : Branch top items base)
    (linked : ∀ item ∈ items, LinkedChain allowed item.chain) :
    base.num < top.num := by
  induction branch with
  | single item =>
      have numbered := (linked item (by simp)).admissible.numbered
      have step : item.id.num = item.previousId.num + 1 :=
        SignedBlock.blockNum_eq numbered
      omega
  | cons item older induction =>
      rw [List.forall_mem_cons] at linked
      have step : item.id.num = item.previousId.num + 1 :=
        SignedBlock.blockNum_eq linked.1.admissible.numbered
      have below := induction linked.2
      omega

/-- Walking down from above a number ends at that number. -/
theorem walkDown_num
    (linked : LinkedChain allowed ((handle, data) :: back))
    (above : num ≤ data.blockNum)
    (walked : db.walkDown num handle data back = some (passed, last)) :
    last.num = num := by
  induction back generalizing handle data passed with
  | nil =>
      unfold walkDown at walked
      split at walked
      · cases walked
      · cases walked
        simp only [ForkItem.num]
        omega
  | cons prev back induction =>
      obtain ⟨prevHandle, prevData⟩ := prev
      unfold walkDown at walked
      split at walked
      · split at walked
        · simp only [Option.bind_eq_bind, Option.bind_eq_some_iff] at walked
          obtain ⟨⟨passed', last'⟩, deeper, same⟩ := walked
          cases same
          refine induction linked.tail ?_ deeper
          have step : data.blockNum = data.previous.num + 1 :=
            SignedBlock.blockNum_eq linked.admissible.numbered
          have link : data.previous = prevData.id := linked.2.1
          rw [link, SignedBlock.id_num] at step
          omega
        · cases walked
      · cases walked
        simp only [ForkItem.num]
        omega

/-- What is found on the main branch has the number asked for. -/
theorem fetchBlockOnMainBranchByNumber_num
    (wellLinked : db.WellLinked allowed)
    (found : db.fetchBlockOnMainBranchByNumber num = some item) :
    item.num = num := by
  unfold fetchBlockOnMainBranchByNumber at found
  split at found
  · cases found
  · rename_i single shape
    cases found
    have member : item ∈ db.fetchBlockByNumber num := by simp [shape]
    simpa [fetchBlockByNumber] using (List.mem_filter.1 member).2
  · simp only [walkMainBranchToNum, Option.bind_eq_bind,
      Option.bind_eq_some_iff] at found
    obtain ⟨head, isHead, walked⟩ := found
    split at walked
    · cases walked
    · rename_i notAbove
      simp only [Option.bind_eq_some_iff] at walked
      obtain ⟨⟨passed, last⟩, walked, same⟩ := walked
      cases same
      exact walkDown_num (wellLinked.head head isHead)
        (Nat.not_lt.1 notAbove) walked

/-- Walking down passes items which lead from its start to its end. -/
theorem walkDown_branch
    (linked : LinkedChain allowed ((handle, data) :: back))
    (walked : db.walkDown num handle data back = some (passed, last)) :
    LinkedChain allowed last.chain ∧
      (∀ item ∈ passed, LinkedChain allowed item.chain) ∧
      ∀ items base,
        Branch last.id items base →
          Branch data.id (passed ++ items) base := by
  induction back generalizing handle data passed with
  | nil =>
      unfold walkDown at walked
      split at walked
      · cases walked
      · cases walked
        exact ⟨linked, by simp, fun items base branch => branch⟩
  | cons prev back induction =>
      obtain ⟨prevHandle, prevData⟩ := prev
      unfold walkDown at walked
      split at walked
      · split at walked
        · simp only [Option.bind_eq_bind, Option.bind_eq_some_iff] at walked
          obtain ⟨⟨passed', last'⟩, deeper, same⟩ := walked
          cases same
          obtain ⟨lastLinked, passedLinked, extend⟩ :=
            induction linked.tail deeper
          refine ⟨lastLinked, ?_, fun items base branch => ?_⟩
          · exact List.forall_mem_cons.2 ⟨linked, passedLinked⟩
          have older := extend items base branch
          rw [← (linked.2.1 : data.previous = prevData.id)] at older
          exact Branch.cons
            ⟨handle, data, (prevHandle, prevData) :: back⟩ older
        · cases walked
      · cases walked
        exact ⟨linked, by simp, fun items base branch => branch⟩

variable [DecidableEq Content]

theorem fetchBlock_spec
    {id : BlockId Content}
    (found : db.fetchBlock id = some item) :
    item ∈ db.index ∧ item.id = id := by
  unfold fetchBlock at found
  exact ⟨List.mem_of_find?_eq_some found,
    by simpa using List.find?_some found⟩

/-- The branches walked in step meet in a common predecessor. -/
theorem walkTogether_branch
    (shape : first.back = back)
    (firstLinked : LinkedChain allowed first.chain)
    (secondLinked : LinkedChain allowed second.chain)
    (walked :
      db.walkTogether first back second = some (firsts, seconds)) :
    (∀ item ∈ firsts, LinkedChain allowed item.chain) ∧
      (∀ item ∈ seconds, LinkedChain allowed item.chain) ∧
      ∃ base,
        Branch first.id firsts base ∧ Branch second.id seconds base := by
  induction back generalizing first second firsts seconds with
  | nil =>
      unfold walkTogether at walked
      split at walked
      · rename_i same
        cases walked
        exact ⟨by simpa, by simpa, _, .single first,
          same ▸ .single second⟩
      · cases walked
  | cons prev back induction =>
      obtain ⟨prevHandle, prevData⟩ := prev
      unfold walkTogether at walked
      split at walked
      · rename_i same
        cases walked
        exact ⟨by simpa, by simpa, _, .single first,
          same ▸ .single second⟩
      · simp only at walked
        split at walked
        · simp only [Option.bind_eq_bind, Option.bind_eq_some_iff] at walked
          obtain ⟨prevSecond, locked, ⟨firsts', seconds'⟩, deeper, same⟩ :=
            walked
          cases same
          unfold ForkItem.chain at firstLinked
          rw [shape] at firstLinked
          obtain ⟨prevLinked, previousSecond, -⟩ :=
            lockPrev_linked secondLinked locked
          let prevFirst : ForkItem Content Body :=
            ⟨prevHandle, prevData, back⟩
          have prevFirstLinked : LinkedChain allowed prevFirst.chain :=
            firstLinked.tail
          obtain ⟨firstsLinked, secondsLinked, base, firstBranch,
            secondBranch⟩ :=
            induction rfl prevFirstLinked prevLinked deeper
          have linked : LinkedChain allowed first.chain := by
            unfold ForkItem.chain
            rw [shape]
            exact firstLinked
          refine ⟨List.forall_mem_cons.2 ⟨linked, firstsLinked⟩,
            List.forall_mem_cons.2 ⟨secondLinked, secondsLinked⟩,
            base, .cons first ?_, .cons second ?_⟩
          · have previousFirst : first.previousId = prevData.id :=
              firstLinked.2.1
            exact previousFirst ▸ firstBranch
          · exact previousSecond ▸ secondBranch
        · cases walked

/-- The two branches are linked and meet in a common predecessor. -/
theorem fetchBranchFrom_branches
    (wellLinked : db.WellLinked allowed)
    {first second : BlockId Content}
    (fetched : db.fetchBranchFrom first second = some (firsts, seconds)) :
    (∀ item ∈ firsts, LinkedChain allowed item.chain) ∧
      (∀ item ∈ seconds, LinkedChain allowed item.chain) ∧
      ∃ base, Branch first firsts base ∧ Branch second seconds base := by
  unfold fetchBranchFrom at fetched
  simp only [Option.bind_eq_bind, Option.bind_eq_some_iff] at fetched
  obtain ⟨firstItem, foundFirst, secondItem, foundSecond,
    ⟨passedFirst, lastFirst⟩, walkedFirst,
    ⟨passedSecond, lastSecond⟩, walkedSecond,
    ⟨restFirst, restSecond⟩, together, same⟩ := fetched
  cases same
  obtain ⟨inFirst, rfl⟩ := fetchBlock_spec foundFirst
  obtain ⟨inSecond, rfl⟩ := fetchBlock_spec foundSecond
  obtain ⟨linkedFirst, passedFirstLinked, extendFirst⟩ :=
    walkDown_branch (wellLinked.index _ inFirst) walkedFirst
  obtain ⟨linkedSecond, passedSecondLinked, extendSecond⟩ :=
    walkDown_branch (wellLinked.index _ inSecond) walkedSecond
  obtain ⟨firstsLinked, secondsLinked, base, branchFirst, branchSecond⟩ :=
    walkTogether_branch rfl linkedFirst linkedSecond together
  exact ⟨List.forall_mem_append.2 ⟨passedFirstLinked, firstsLinked⟩,
    List.forall_mem_append.2 ⟨passedSecondLinked, secondsLinked⟩,
    base, extendFirst _ _ branchFirst, extendSecond _ _ branchSecond⟩

omit [DecidableEq Content] in
/-- The first item of a walk is the one it starts from. -/
theorem walkDown_head
    (walked : db.walkDown num handle data back = some (passed, last)) :
    (passed ++ [last]).head? = some ⟨handle, data, back⟩ := by
  cases back with
  | nil =>
      unfold walkDown at walked
      split at walked
      · cases walked
      · cases walked
        rfl
  | cons prev back =>
      unfold walkDown at walked
      split at walked
      · split at walked
        · simp only [Option.bind_eq_bind, Option.bind_eq_some_iff] at walked
          obtain ⟨⟨passed', last'⟩, -, same⟩ := walked
          cases same
          rfl
        · cases walked
      · cases walked
        rfl

theorem walkTogether_heads
    (walked :
      db.walkTogether first back second = some (firsts, seconds)) :
    firsts.head? = some first ∧ seconds.head? = some second := by
  unfold walkTogether at walked
  split at walked
  · cases walked
    exact ⟨rfl, rfl⟩
  · split at walked
    · cases walked
    · split at walked
      · simp only [Option.bind_eq_bind, Option.bind_eq_some_iff] at walked
        obtain ⟨prev, -, ⟨firsts', seconds'⟩, -, same⟩ := walked
        cases same
        exact ⟨rfl, rfl⟩
      · cases walked

/-- Both branches begin with the items found for the two ids. -/
theorem fetchBranchFrom_heads
    {first second : BlockId Content}
    (fetched : db.fetchBranchFrom first second = some (firsts, seconds)) :
    ∃ firstItem secondItem,
      db.fetchBlock first = some firstItem ∧
      db.fetchBlock second = some secondItem ∧
      firsts.head? = some firstItem ∧
      seconds.head? = some secondItem := by
  unfold fetchBranchFrom at fetched
  simp only [Option.bind_eq_bind, Option.bind_eq_some_iff] at fetched
  obtain ⟨firstItem, foundFirst, secondItem, foundSecond,
    ⟨passedFirst, lastFirst⟩, walkedFirst,
    ⟨passedSecond, lastSecond⟩, walkedSecond,
    ⟨restFirst, restSecond⟩, together, same⟩ := fetched
  cases same
  obtain ⟨headFirst, headSecond⟩ := walkTogether_heads together
  refine ⟨firstItem, secondItem, foundFirst, foundSecond, ?_, ?_⟩
  · have walked := walkDown_head walkedFirst
    cases passedFirst with
    | nil => simpa [headFirst] using walked
    | cons item passed => simpa using walked
  · have walked := walkDown_head walkedSecond
    cases passedSecond with
    | nil => simpa [headSecond] using walked
    | cons item passed => simpa using walked

/-! ## Pushing and popping -/

/-- The block would become the head of the fork database. -/
def becomesHead
    (db : ForkDatabase Content Body)
    (block : SignedBlock Content Body) : Bool :=
  match db.head with
  | none => true
  | some head => decide (head.num < block.blockNum)

/-- What an accepted block does. -/
theorem pushBlock_ok
    {after : ForkDatabase Content Body}
    (accepted : db.pushBlock block = .ok after) :
    ∃ back,
      after = db.insertItem ⟨db.nextHandle, block, back⟩ ∧
      (back = [] ∨
        ∃ prev ∈ db.index, prev.id = block.previous ∧ back = prev.chain) ∧
      (db.head.isSome = true → db.lowerBound < block.blockNum) := by
  unfold pushBlock at accepted
  dsimp only at accepted
  split at accepted
  · cases accepted
  · rename_i young
    have positive :
        db.head.isSome = true → db.lowerBound < block.blockNum := by
      intro started
      by_contra old
      exact young ⟨started, old⟩
    split at accepted
    · split at accepted
      · cases accepted
      · rename_i prev found
        cases accepted
        obtain ⟨member, same⟩ := fetchBlock_spec found
        exact ⟨prev.chain, rfl, .inr ⟨prev, member, same, rfl⟩, positive⟩
    · cases accepted
      exact ⟨[], rfl, .inl rfl, positive⟩

/-- The head after a push is the new item or the old head. -/
theorem insertItem_head
    (db : ForkDatabase Content Body)
    (item : ForkItem Content Body) :
    (db.becomesHead item.data = true →
      (db.insertItem item).head = some item) ∧
      (db.becomesHead item.data = false →
        (db.insertItem item).head = db.head) := by
  unfold becomesHead insertItem
  cases db.head with
  | none => simp
  | some head =>
      exact ⟨fun above => if_pos (of_decide_eq_true above),
        fun notAbove => if_neg (of_decide_eq_false notAbove)⟩

theorem insertItem_index
    {item other : ForkItem Content Body}
    (member : other ∈ (db.insertItem item).index) :
    other = item ∨ other ∈ db.index := by
  unfold insertItem at member
  dsimp only at member
  split at member
  · exact .inr member
  · simpa using member

/-- An accepted block has a positive number. -/
theorem blockNum_ne_zero
    {after : ForkDatabase Content Body}
    (numbered : db.head = none → block.blockNum ≠ 0)
    (accepted : db.pushBlock block = .ok after) :
    block.blockNum ≠ 0 := by
  obtain ⟨-, -, -, young⟩ := pushBlock_ok accepted
  cases head : db.head with
  | none => exact numbered head
  | some item =>
      have := young (by simp [head])
      omega

theorem WellLinked.pushBlock
    (wellLinked : db.WellLinked allowed)
    {after : ForkDatabase Content Body}
    (isAllowed : allowed block)
    (numbered : db.head = none → block.blockNum ≠ 0)
    (accepted : db.pushBlock block = .ok after) :
    after.WellLinked allowed := by
  have admissible : Admissible allowed block :=
    ⟨blockNum_ne_zero numbered accepted, isAllowed⟩
  obtain ⟨back, rfl, behind, -⟩ := pushBlock_ok accepted
  have itemLinked :
      LinkedChain allowed
        (ForkItem.chain ⟨db.nextHandle, block, back⟩) := by
    rcases behind with rfl | ⟨prev, member, same, rfl⟩
    · exact admissible
    · exact ⟨admissible, same.symm, wellLinked.index prev member⟩
  have heads := db.insertItem_head ⟨db.nextHandle, block, back⟩
  constructor
  · intro item member
    rcases insertItem_index member with rfl | old
    · exact itemLinked
    · exact wellLinked.index item old
  · intro item member
    cases becomes : db.becomesHead block with
    | true =>
        rw [heads.1 becomes] at member
        cases member
        exact itemLinked
    | false =>
        rw [heads.2 becomes] at member
        exact wellLinked.head item member

omit [DecidableEq Content] in
theorem WellLinked.popBlock
    (wellLinked : db.WellLinked allowed)
    {after : ForkDatabase Content Body}
    (popped : db.popBlock = some after) :
    after.WellLinked allowed := by
  simp only [ForkDatabase.popBlock, Option.bind_eq_bind,
    Option.bind_eq_some_iff] at popped
  obtain ⟨head, isHead, prev, locked, same⟩ := popped
  cases same
  refine ⟨wellLinked.index, ?_⟩
  rintro item ⟨⟩
  exact (lockPrev_linked (wellLinked.head head isHead) locked).1

omit [DecidableEq Content] in
/-- Dropping items from the index keeps the rest linked. -/
theorem WellLinked.shrink
    (wellLinked : db.WellLinked allowed)
    {after : ForkDatabase Content Body}
    (index : ∀ item ∈ after.index, item ∈ db.index)
    (head : ∀ item ∈ after.head, LinkedChain allowed item.chain) :
    after.WellLinked allowed :=
  ⟨fun item member => wellLinked.index item (index item member), head⟩

end ForkDatabase

end BMChain.Chain
