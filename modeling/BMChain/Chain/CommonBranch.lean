import BMChain.Chain.ForkHead
import Mathlib.Logic.Relation
import Mathlib.Data.List.Chain

/-!
# Branches down to a common ancestor

When two items reach, over pointers that can be locked, items above one block,
`fetch_branch_from` succeeds.  Its branches follow the pointers and end above
one block, and they share a block only when one of the two items lies behind
the other.
-/

namespace BMChain.Chain

open BMChain.Protocol

variable {Content Body : Type}

variable {one two : ForkItem Content Body}
    {items : List (ForkItem Content Body)}
    {back : List (Nat × SignedBlock Content Body)}

variable {handle : Nat} {data : SignedBlock Content Body}
    {bottom low top : ForkItem Content Body}

/-! ## Pointers -/

namespace ForkDatabase

/-- An item and the one to which its pointer leads. -/
def Links (db : ForkDatabase Content Body)
    (item prev : ForkItem Content Body) : Prop :=
  db.lockPrev item = some prev

/-- An item which is reached from another one over its pointers. -/
abbrev Behind (db : ForkDatabase Content Body)
    (item ancestor : ForkItem Content Body) : Prop :=
  Relation.TransGen db.Links item ancestor

/-- An item reached from another one over any number of pointers. -/
abbrev OnChain (db : ForkDatabase Content Body)
    (item other : ForkItem Content Body) : Prop :=
  Relation.ReflTransGen db.Links item other

/-- The pointers from an item on lead to the blocks named, one number below. -/
def Agreeing (db : ForkDatabase Content Body)
    (item : ForkItem Content Body) : Prop :=
  ∀ member prev, db.OnChain item member → db.Links member prev →
    member.previousId = prev.id ∧ member.num = prev.num + 1

/-- All items' pointers agree with their previous ids and numbers. -/
def PointersAgree (db : ForkDatabase Content Body) : Prop :=
  ∀ item ∈ db.index, db.Agreeing item

variable {db : ForkDatabase Content Body} {item prev : ForkItem Content Body}

theorem Links.cases
    (links : db.Links item prev) :
    item.back = prev.chain ∧ db.alive prev.handle = true := by
  unfold Links lockPrev at links
  split at links
  · cases links
  · rename_i shape
    split at links
    · rename_i living
      cases links
      exact ⟨shape, living⟩
    · cases links

/-- The predecessor is the first item behind. -/
theorem Links.shape
    {rest : List (Nat × SignedBlock Content Body)}
    (links : db.Links item prev)
    (back : item.back = (handle, data) :: rest) :
    prev = ⟨handle, data, rest⟩ ∧ db.alive handle = true := by
  rcases links.cases with ⟨shape, living⟩
  rw [back] at shape
  rcases prev with ⟨_, _, _⟩
  simp only [ForkItem.chain, List.cons.injEq, Prod.mk.injEq] at shape
  rcases shape with ⟨⟨rfl, rfl⟩, rfl⟩
  exact ⟨rfl, living⟩

theorem Agreeing.step
    (agree : db.Agreeing item)
    (links : db.Links item prev) :
    item.previousId = prev.id ∧ item.num = prev.num + 1 ∧
      db.Agreeing prev := by
  rcases agree item prev .refl links with ⟨named, number⟩
  refine ⟨named, number, fun member older onChain => ?_⟩
  exact agree member older (.head links onChain)

/-- Items with one id have one number. -/
theorem num_of_id
    (same : one.id = two.id) :
    one.num = two.num := by
  have numbers := congrArg BlockId.num same
  unfold ForkItem.id at numbers
  rw [SignedBlock.id_num, SignedBlock.id_num] at numbers
  exact numbers

/-- Items with one predecessor have one number. -/
theorem num_of_previousId
    (same : one.previousId = two.previousId) :
    one.num = two.num := by
  have previous : one.data.previous = two.data.previous := same
  unfold ForkItem.num SignedBlock.blockNum
  rw [previous]

/-- The chain of an item goes on with its predecessor, if it goes on. -/
theorem OnChain.next
    (onChain : db.OnChain item low) :
    item = low ∨ ∃ prev, db.Links item prev ∧ db.OnChain prev low :=
  Relation.ReflTransGen.cases_head onChain

theorem OnChain.num_le
    (onChain : db.OnChain item low)
    (agree : db.Agreeing item) :
    low.num ≤ item.num ∧ db.Agreeing low := by
  induction onChain with
  | refl => exact ⟨Nat.le_refl _, agree⟩
  | tail _ links induction =>
      rcases induction with ⟨below, older⟩
      rcases older.step links with ⟨-, number, oldest⟩
      exact ⟨by omega, oldest⟩

/-! ## Paths -/

/-- Items which follow the pointers from one item to another. -/
structure Path (db : ForkDatabase Content Body)
    (items : List (ForkItem Content Body))
    (top bottom : ForkItem Content Body) : Prop where
  linked : items.IsChain db.Links
  first : items.head? = some top
  last : items.getLast? = some bottom

theorem Path.single
    (item : ForkItem Content Body) :
    db.Path [item] item item :=
  ⟨.singleton item, rfl, rfl⟩

theorem Path.cons
    (links : db.Links item prev)
    (path : db.Path items prev bottom) :
    db.Path (item :: items) item bottom := by
  cases items with
  | nil => cases path.first
  | cons front rest =>
      have same : front = prev := Option.some.inj path.first
      subst same
      exact ⟨.cons_cons links path.linked, rfl, path.last⟩

theorem Path.append
    {top last bottom : ForkItem Content Body}
    {passed rest : List (ForkItem Content Body)}
    (upper : db.Path (passed ++ [last]) top last)
    (lower : db.Path rest last bottom) :
    db.Path (passed ++ rest) top bottom := by
  induction passed generalizing top with
  | nil =>
      have same : last = top := Option.some.inj upper.first
      rw [← same]
      exact lower
  | cons front passed induction =>
      have same : front = top := Option.some.inj upper.first
      subst same
      cases passed with
      | nil =>
          have links : db.Links front last :=
            (List.isChain_cons_cons.1 upper.linked).1
          exact lower.cons links
      | cons second passed =>
          have links : db.Links front second :=
            (List.isChain_cons_cons.1 upper.linked).1
          have upper' : db.Path (second :: passed ++ [last]) second last :=
            ⟨upper.linked.tail, rfl, upper.last⟩
          exact (induction upper').cons links

/-- A path ends on the chain of the item from which it starts. -/
theorem Path.onChain
    (path : db.Path items top bottom) :
    db.OnChain top bottom := by
  induction items generalizing top with
  | nil => cases path.first
  | cons front rest induction =>
      have same : front = top := Option.some.inj path.first
      subst same
      cases rest with
      | nil =>
          have same : front = bottom := Option.some.inj path.last
          rw [same]
      | cons second rest =>
          have links : db.Links front second :=
            (List.isChain_cons_cons.1 path.linked).1
          exact .head links (induction ⟨path.linked.tail, rfl, path.last⟩)

/-- The numbers fall along a path. -/
theorem Path.num_le
    (path : db.Path items top bottom)
    (agree : db.Agreeing top) :
    ∀ member ∈ items, member.num ≤ top.num := by
  induction items generalizing top with
  | nil => exact fun _ member => nomatch member
  | cons front rest induction =>
      have same : front = top := Option.some.inj path.first
      subst same
      intro other member
      rcases List.mem_cons.1 member with rfl | inside
      · exact Nat.le_refl _
      · cases rest with
        | nil => cases inside
        | cons second rest =>
            have links : db.Links front second :=
              (List.isChain_cons_cons.1 path.linked).1
            rcases agree.step links with ⟨-, number, older⟩
            have below := induction ⟨path.linked.tail, rfl, path.last⟩ older
              other inside
            omega

/-! ## Applying a branch again -/

section

variable [DecidableEq Content]

/-- The head block after the items have been applied, each to its previous. -/
def reapply :
    BlockId Content → List (ForkItem Content Body) → Option (BlockId Content)
  | head, [] => some head
  | head, item :: items =>
      if item.previousId = head then reapply item.id items else none

theorem reapply_append
    (head : BlockId Content)
    (lower upper : List (ForkItem Content Body)) :
    reapply head (lower ++ upper) =
      (reapply head lower).bind fun head => reapply head upper := by
  induction lower generalizing head with
  | nil => rfl
  | cons item lower induction =>
      by_cases follows : item.previousId = head
      case pos =>
        simp only [List.cons_append, reapply, if_pos follows, induction]
      case neg =>
        simp only [List.cons_append, reapply, if_neg follows, Option.bind_none]

/-- A path applied from its bottom leads to its top. -/
theorem Path.reapply
    (path : db.Path items top bottom)
    (agree : db.Agreeing top) :
    reapply bottom.previousId items.reverse = some top.id := by
  induction items generalizing top with
  | nil => cases path.first
  | cons front rest induction =>
      have same : front = top := Option.some.inj path.first
      subst same
      cases rest with
      | nil =>
          have same : front = bottom := Option.some.inj path.last
          subst same
          exact if_pos rfl
      | cons second rest =>
          have links : db.Links front second :=
            (List.isChain_cons_cons.1 path.linked).1
          rcases agree.step links with ⟨named, -, older⟩
          have below := induction ⟨path.linked.tail, rfl, path.last⟩ older
          rw [List.reverse_cons, reapply_append, below]
          exact if_pos named

end

/-! ## Walking down -/

/-- Nothing is passed from an item which is not above the number. -/
theorem walkDown_here
    {num handle : Nat}
    (reached : ¬ num < data.blockNum) :
    db.walkDown num handle data back = some ([], ⟨handle, data, back⟩) := by
  cases back with
  | nil => exact if_neg reached
  | cons node back => exact if_neg reached

/-- Walking down to a number not below an item of the chain succeeds. -/
theorem walkDown_path
    {num handle : Nat}
    (agree : db.Agreeing ⟨handle, data, back⟩)
    (onChain : db.OnChain ⟨handle, data, back⟩ low)
    (bound : low.num ≤ num) :
    ∃ passed last,
      db.walkDown num handle data back = some (passed, last) ∧
        db.Path (passed ++ [last]) ⟨handle, data, back⟩ last ∧
          db.Agreeing last ∧ db.OnChain last low ∧
            (∀ item ∈ passed, num < item.num) ∧
              (num ≤ data.blockNum → last.num = num) ∧
                (data.blockNum ≤ num →
                  passed = [] ∧ last = ⟨handle, data, back⟩) := by
  induction back generalizing handle data with
  | nil =>
      rcases onChain.next with same | ⟨prev, links, -⟩
      case inl =>
        have reached : ¬ num < data.blockNum := by
          rw [← same] at bound
          exact Nat.not_lt_of_le bound
        refine ⟨[], ⟨handle, data, []⟩, walkDown_here reached, .single _,
          agree, onChain, List.forall_mem_nil _, ?_, fun _ => ⟨rfl, rfl⟩⟩
        exact fun enough => Nat.le_antisymm (Nat.le_of_not_lt reached) enough
      case inr => cases links.cases.1
  | cons node rest induction =>
      rcases node with ⟨prevHandle, prevData⟩
      by_cases above : num < data.blockNum
      case neg =>
        refine ⟨[], ⟨handle, data, (prevHandle, prevData) :: rest⟩,
          walkDown_here above, .single _, agree, onChain,
          List.forall_mem_nil _, ?_, fun _ => ⟨rfl, rfl⟩⟩
        exact fun enough => Nat.le_antisymm (Nat.le_of_not_lt above) enough
      case pos =>
        rcases onChain.next with same | ⟨prev, links, deeper⟩
        case inl =>
          rw [← same] at bound
          exact absurd above (Nat.not_lt_of_le bound)
        rcases links.shape rfl with ⟨rfl, living⟩
        rcases agree.step links with ⟨-, number, older⟩
        have step : data.blockNum = prevData.blockNum + 1 := number
        rcases induction older deeper with ⟨passed, last, walked, path, linked,
          reached, high, level, -⟩
        refine ⟨⟨handle, data, (prevHandle, prevData) :: rest⟩ :: passed, last,
          ?_, path.cons links, linked, reached, ?_, ?_, ?_⟩
        · unfold walkDown
          rw [if_pos above, if_pos living, walked]
          rfl
        · exact List.forall_mem_cons.2 ⟨above, high⟩
        · intro _
          apply level
          show num ≤ prevData.blockNum
          omega
        · intro enough
          exact absurd above (Nat.not_lt_of_le enough)

/-! ## Walking together -/

variable [DecidableEq Content]

/-- What the last loop of `fetch_branch_from` returns for two items. -/
structure Meeting
    (db : ForkDatabase Content Body)
    (first second : ForkItem Content Body)
    (firsts seconds : List (ForkItem Content Body))
    (lastFirst lastSecond : ForkItem Content Body) : Prop where
  firstPath : db.Path firsts first lastFirst
  secondPath : db.Path seconds second lastSecond
  base : lastFirst.previousId = lastSecond.previousId
  apart : first.id ≠ second.id →
    ∀ one ∈ firsts, ∀ two ∈ seconds, one.id ≠ two.id

/-- The walk stops where both items have one predecessor. -/
theorem walkTogether_stop
    {first second : ForkItem Content Body}
    (back : List (Nat × SignedBlock Content Body))
    (meet : first.previousId = second.previousId) :
    db.walkTogether first back second = some ([first], [second]) ∧
      db.Meeting first second [first] [second] first second := by
  refine ⟨?_, .single first, .single second, meet, ?_⟩
  · unfold walkTogether
    rw [if_pos meet]
  · intro different one inFirst two inSecond
    rw [List.mem_singleton.1 inFirst, List.mem_singleton.1 inSecond]
    exact different

/-- Two items of one height are walked to the first common predecessor. -/
theorem walkTogether_path
    {first second low otherLow : ForkItem Content Body}
    (shape : first.back = back)
    (firstAgree : db.Agreeing first)
    (secondAgree : db.Agreeing second)
    (level : first.num = second.num)
    (firstChain : db.OnChain first low)
    (secondChain : db.OnChain second otherLow)
    (common : low.previousId = otherLow.previousId) :
    ∃ firsts seconds lastFirst lastSecond,
      db.walkTogether first back second = some (firsts, seconds) ∧
        db.Meeting first second firsts seconds lastFirst lastSecond ∧
          low.num ≤ lastFirst.num := by
  have height := num_of_previousId common
  induction back generalizing first second with
  | nil =>
      rcases firstChain.next with rfl | ⟨prev, links, -⟩
      case inl =>
        rcases secondChain.next with rfl | ⟨prev, links, deeper⟩
        case inl =>
          rcases walkTogether_stop [] common with ⟨walked, meeting⟩
          exact ⟨_, _, _, _, walked, meeting, Nat.le_refl _⟩
        case inr =>
          rcases secondAgree.step links with ⟨-, number, older⟩
          have below := (deeper.num_le older).1
          omega
      case inr =>
        rw [links.cases.1] at shape
        cases shape
  | cons node rest induction =>
      by_cases meet : first.previousId = second.previousId
      case pos =>
        rcases walkTogether_stop (node :: rest) meet with ⟨walked, meeting⟩
        exact ⟨_, _, _, _, walked, meeting, (firstChain.num_le firstAgree).1⟩
      case neg =>
        rcases node with ⟨handle, data⟩
        -- The walk has not reached the common predecessor on either side.
        have further : first ≠ low ∧ second ≠ otherLow := by
          constructor
          · rintro rfl
            rcases secondChain.next with rfl | ⟨prev, links, deeper⟩
            · exact meet common
            · rcases secondAgree.step links with ⟨-, number, older⟩
              have below := (deeper.num_le older).1
              omega
          · rintro rfl
            rcases firstChain.next with rfl | ⟨prev, links, deeper⟩
            · exact meet common
            · rcases firstAgree.step links with ⟨-, number, older⟩
              have below := (deeper.num_le older).1
              omega
        rcases firstChain.next.resolve_left further.1 with
          ⟨prevFirst, linksFirst, deeperFirst⟩
        rcases secondChain.next.resolve_left further.2 with
          ⟨prevSecond, linksSecond, deeperSecond⟩
        rcases firstAgree.step linksFirst with
          ⟨previousFirst, stepFirst, olderFirst⟩
        rcases secondAgree.step linksSecond with
          ⟨previousSecond, stepSecond, olderSecond⟩
        have different : prevFirst.id ≠ prevSecond.id := by
          rw [← previousFirst, ← previousSecond]
          exact meet
        have even : prevFirst.num = prevSecond.num := by omega
        rcases linksFirst.shape shape with ⟨same, living⟩
        have back : prevFirst.back = rest := by
          rw [same]
        rcases induction back olderFirst olderSecond even deeperFirst
          deeperSecond with ⟨firsts, seconds, lastFirst, lastSecond, walked,
            ⟨pathFirst, pathSecond, base, apart⟩, reached⟩
        refine ⟨first :: firsts, second :: seconds, lastFirst, lastSecond, ?_,
          ⟨pathFirst.cons linksFirst, pathSecond.cons linksSecond, base, ?_⟩,
          reached⟩
        · have locked : db.lockPrev second = some prevSecond := linksSecond
          rw [same] at walked
          unfold walkTogether
          rw [if_neg meet]
          simp only [living, if_true, locked, Option.bind_eq_bind,
            Option.bind_some, walked]
          rfl
        · intro tops one inFirst two inSecond sameId
          have level' := num_of_id sameId
          rcases List.mem_cons.1 inFirst with rfl | inFirst
          · rcases List.mem_cons.1 inSecond with rfl | inSecond
            · exact tops sameId
            · have below := pathSecond.num_le olderSecond two inSecond
              omega
          · have below := pathFirst.num_le olderFirst one inFirst
            rcases List.mem_cons.1 inSecond with rfl | inSecond
            · omega
            · exact apart different one inFirst two inSecond sameId

/-! ## Fetching the branches -/

/-- What `fetch_branch_from` returns for the blocks of two items. -/
structure Branches
    (db : ForkDatabase Content Body)
    (firstItem secondItem : ForkItem Content Body)
    (firsts seconds : List (ForkItem Content Body))
    (lastFirst lastSecond : ForkItem Content Body) : Prop where
  fetched : db.fetchBranchFrom firstItem.id secondItem.id =
    some (firsts, seconds)
  firstPath : db.Path firsts firstItem lastFirst
  secondPath : db.Path seconds secondItem lastSecond
  base : lastFirst.previousId = lastSecond.previousId
  apart : ∀ one ∈ firsts, ∀ two ∈ seconds, one.id = two.id →
    (∃ item, db.OnChain firstItem item ∧ item.id = secondItem.id) ∨
      ∃ item, db.OnChain secondItem item ∧ item.id = firstItem.id

/-- Two items whose chains meet have branches down to where they meet. -/
theorem fetchBranchFrom_branchesMeet
    {first second : BlockId Content}
    {firstItem secondItem low otherLow : ForkItem Content Body}
    (agree : db.PointersAgree)
    (foundFirst : db.fetchBlock first = some firstItem)
    (foundSecond : db.fetchBlock second = some secondItem)
    (firstChain : db.OnChain firstItem low)
    (secondChain : db.OnChain secondItem otherLow)
    (common : low.previousId = otherLow.previousId) :
    ∃ firsts seconds lastFirst lastSecond,
      db.Branches firstItem secondItem firsts seconds lastFirst lastSecond ∧
        low.num ≤ lastFirst.num := by
  rcases fetchBlock_spec foundFirst with ⟨inFirst, rfl⟩
  rcases fetchBlock_spec foundSecond with ⟨inSecond, rfl⟩
  have agreeFirst := agree _ inFirst
  have agreeSecond := agree _ inSecond
  have level := num_of_previousId common
  have bound : low.num ≤ secondItem.num := by
    have below := (secondChain.num_le agreeSecond).1
    omega
  rcases walkDown_path agreeFirst firstChain bound with
    ⟨passedFirst, downFirst, walkedFirst, upperFirst, olderFirst, deepFirst,
      highFirst, numFirst, keepFirst⟩
  have bound' : otherLow.num ≤ downFirst.num := by
    have below := (deepFirst.num_le olderFirst).1
    omega
  rcases walkDown_path agreeSecond secondChain bound' with
    ⟨passedSecond, downSecond, walkedSecond, upperSecond, olderSecond,
      deepSecond, highSecond, numSecond, keepSecond⟩
  -- Only the higher one of the two items has been walked down.
  have sides :
      (passedFirst = [] ∧ downFirst = firstItem ∧
        downFirst.num ≤ secondItem.num) ∨
        passedSecond = [] ∧ downSecond = secondItem ∧
          downFirst.num = secondItem.num := by
    by_cases lower : firstItem.num ≤ secondItem.num
    case pos =>
      rcases keepFirst lower with ⟨none, same⟩
      exact .inl ⟨none, same, same ▸ lower⟩
    case neg =>
      have even := numFirst (Nat.le_of_lt (Nat.lt_of_not_le lower))
      rcases keepSecond (Nat.le_of_eq even.symm) with ⟨none, same⟩
      exact .inr ⟨none, same, even⟩
  have even : downSecond.num = downFirst.num := by
    apply numSecond
    show downFirst.num ≤ secondItem.num
    rcases sides with ⟨-, -, lower⟩ | ⟨-, -, even⟩
    · exact lower
    · exact Nat.le_of_eq even
  rcases walkTogether_path rfl olderFirst olderSecond even.symm deepFirst
    deepSecond common with ⟨restFirst, restSecond, lastFirst, lastSecond,
      together, meeting, reached⟩
  have pathSecond := upperSecond.append meeting.secondPath
  refine ⟨passedFirst ++ restFirst, passedSecond ++ restSecond, lastFirst,
    lastSecond, ⟨?_, upperFirst.append meeting.firstPath, pathSecond,
      meeting.base, ?_⟩, reached⟩
  · unfold fetchBranchFrom
    simp only [foundFirst, foundSecond, Option.bind_eq_bind, Option.bind_some]
    rw [walkedFirst]
    simp only [Option.bind_some]
    rw [walkedSecond]
    simp only [Option.bind_some, together]
    rfl
  · intro one inFirst two inSecond same
    have level := num_of_id same
    by_cases joined : downFirst.id = downSecond.id
    case pos =>
      rcases sides with ⟨-, whole, -⟩ | ⟨-, whole, -⟩
      · refine .inr ⟨downSecond, upperSecond.onChain, ?_⟩
        rw [← joined, whole]
      · refine .inl ⟨downFirst, upperFirst.onChain, ?_⟩
        rw [joined, whole]
    case neg =>
      -- Above the level of the walk together there is only one branch.
      rcases List.mem_append.1 inFirst with above | inFirst
      · have high : secondItem.num < one.num := highFirst one above
        have below : two.num ≤ secondItem.num :=
          pathSecond.num_le agreeSecond two inSecond
        omega
      · have below := meeting.firstPath.num_le olderFirst one inFirst
        rcases List.mem_append.1 inSecond with above | inSecond
        · have high := highSecond two above
          omega
        · exact absurd same (meeting.apart joined one inFirst two inSecond)

/--
Two items with a common ancestor behind both have branches down to the blocks
above one block, over consecutive pointers.
-/
theorem fetchBranchFrom_meets
    {first second : BlockId Content}
    {firstItem secondItem ancestor other : ForkItem Content Body}
    (agree : db.PointersAgree)
    (foundFirst : db.fetchBlock first = some firstItem)
    (foundSecond : db.fetchBlock second = some secondItem)
    (behindFirst : db.Behind firstItem ancestor)
    (behindSecond : db.Behind secondItem other)
    (common : ancestor.id = other.id) :
    ∃ firsts seconds lastFirst lastSecond,
      db.fetchBranchFrom first second = some (firsts, seconds) ∧
        db.Path firsts firstItem lastFirst ∧
          db.Path seconds secondItem lastSecond ∧
            firstItem.id = first ∧ secondItem.id = second ∧
              lastFirst.previousId = lastSecond.previousId ∧
                (∀ one ∈ firsts, ∀ two ∈ seconds, one.id = two.id →
                  (∃ item, db.OnChain firstItem item ∧ item.id = second) ∨
                    ∃ item, db.OnChain secondItem item ∧ item.id = first) ∧
                  reapply lastFirst.previousId firsts.reverse =
                    some first := by
  rcases fetchBlock_spec foundFirst with ⟨inFirst, rfl⟩
  rcases fetchBlock_spec foundSecond with ⟨inSecond, rfl⟩
  rcases Relation.TransGen.tail'_iff.1 behindFirst with
    ⟨low, chainFirst, linksFirst⟩
  rcases Relation.TransGen.tail'_iff.1 behindSecond with
    ⟨otherLow, chainSecond, linksSecond⟩
  have agreeFirst := agree _ inFirst
  have namedFirst := (agreeFirst _ _ chainFirst linksFirst).1
  have namedSecond := (agree _ inSecond _ _ chainSecond linksSecond).1
  have meet : low.previousId = otherLow.previousId := by
    rw [namedFirst, namedSecond, common]
  rcases fetchBranchFrom_branchesMeet agree foundFirst foundSecond chainFirst
    chainSecond meet with ⟨firsts, seconds, lastFirst, lastSecond, branches, -⟩
  exact ⟨firsts, seconds, lastFirst, lastSecond, branches.fetched,
    branches.firstPath, branches.secondPath, rfl, rfl, branches.base,
    branches.apart, branches.firstPath.reapply agreeFirst⟩

end ForkDatabase

/-! ## A fork of two blocks -/

/-- In a fork database which pushes have built the pointers agree. -/
theorem ForkDatabase.WellLinked.pointersAgree
    {allowed : SignedBlock Content Body → Prop}
    {db : ForkDatabase Content Body}
    (wellLinked : db.WellLinked allowed) :
    db.PointersAgree := by
  intro item member other prev onChain links
  have linked : LinkedChain allowed other.chain := by
    clear links
    induction onChain with
    | refl => exact wellLinked.index item member
    | tail _ step linked =>
        exact (ForkDatabase.lockPrev_linked linked step).1
  exact (ForkDatabase.lockPrev_linked linked links).2

/-- Blocks pushed one after the other; a refused block leaves no trace. -/
def ForkDatabase.pushEach
    [DecidableEq Content]
    (db : ForkDatabase Content Body)
    (blocks : List (SignedBlock Content Body)) :
    ForkDatabase Content Body :=
  blocks.foldl
    (fun db block =>
      match db.pushBlock block with
      | .ok after => after
      | .error _ => db)
    db

theorem ForkDatabase.WellLinked.pushEach
    [DecidableEq Content]
    {allowed : SignedBlock Content Body → Prop}
    {db : ForkDatabase Content Body}
    (wellLinked : db.WellLinked allowed)
    {blocks : List (SignedBlock Content Body)}
    (admissible : ∀ block ∈ blocks, Admissible allowed block) :
    (db.pushEach blocks).WellLinked allowed := by
  induction blocks generalizing db with
  | nil => exact wellLinked
  | cons block blocks induction =>
      rcases List.forall_mem_cons.1 admissible with ⟨first, others⟩
      apply induction _ others
      dsimp only
      split
      · rename_i accepted
        exact wellLinked.pushBlock first.allowed (fun _ => first.numbered)
          accepted
      · exact wellLinked

/-- A first block, a block on it, and two blocks beside that one. -/
def branchedDatabase : ForkDatabase Nat Bool :=
  let beside := sampleBlock firstBlock.id 2 true
  ForkDatabase.pushEach ForkDatabase.empty
    [firstBlock, sampleBlock firstBlock.id 1 true, beside,
      sampleBlock beside.id 3 true]

/-- The item found for a block which is in the index. -/
def branchedItem (block : SignedBlock Nat Bool) : ForkItem Nat Bool :=
  (branchedDatabase.fetchBlock block.id).getD ⟨0, block, []⟩

theorem fetchBranchFrom_meets_beside :
    let beside := sampleBlock firstBlock.id 2 true
    let top := sampleBlock beside.id 3 true
    let left := sampleBlock firstBlock.id 1 true
    ∃ firsts seconds lastFirst lastSecond,
      branchedDatabase.fetchBranchFrom top.id left.id =
          some (firsts, seconds) ∧
        branchedDatabase.Path firsts (branchedItem top) lastFirst ∧
          branchedDatabase.Path seconds (branchedItem left) lastSecond ∧
            (branchedItem top).id = top.id ∧ (branchedItem left).id = left.id ∧
              lastFirst.previousId = lastSecond.previousId ∧
                (∀ one ∈ firsts, ∀ two ∈ seconds, one.id = two.id →
                  (∃ item, branchedDatabase.OnChain (branchedItem top) item ∧
                    item.id = left.id) ∨
                    ∃ item, branchedDatabase.OnChain (branchedItem left) item ∧
                      item.id = top.id) ∧
                  ForkDatabase.reapply lastFirst.previousId firsts.reverse =
                    some top.id := by
  have empty : (ForkDatabase.empty : ForkDatabase Nat Bool).WellLinked
      fun _ => True :=
    ⟨by simp [ForkDatabase.empty], by simp [ForkDatabase.empty]⟩
  have linked : branchedDatabase.WellLinked fun _ => True := by
    apply empty.pushEach
    intro block member
    refine ⟨?_, trivial⟩
    revert block
    decide
  have down : branchedDatabase.Links
      (branchedItem (sampleBlock (sampleBlock firstBlock.id 2 true).id 3 true))
      (branchedItem (sampleBlock firstBlock.id 2 true)) := by
    unfold ForkDatabase.Links
    decide
  have beside : branchedDatabase.Links
      (branchedItem (sampleBlock firstBlock.id 2 true))
      (branchedItem firstBlock) := by
    unfold ForkDatabase.Links
    decide
  have left : branchedDatabase.Links
      (branchedItem (sampleBlock firstBlock.id 1 true))
      (branchedItem firstBlock) := by
    unfold ForkDatabase.Links
    decide
  exact ForkDatabase.fetchBranchFrom_meets linked.pointersAgree (by decide)
    (by decide) (.head down (.single beside)) (.single left) rfl

end BMChain.Chain
