import Mathlib.Data.Set.Card
import Mathlib.Logic.Relation
import Mathlib.Tactic.Common

/-!
# Forests whose nodes count what lies below them

Nodes have a number and a key, name their parent by its key, and keep their
depth, the number of their root and a count of the nodes below them.  A leaf
may be put in or taken out where the counts on the path above it are moved by
one.
-/

namespace BMChain.Foundation

variable {place id : Nat}

/-- A node of a counted forest. -/
structure CountedNode (Key : Type) where
  key : Key
  upper : Option Key
  depth : Nat
  root : Nat
  count : Nat

/-- A node without its count. -/
def CountedNode.shape {Key : Type} (node : CountedNode Key) :
    CountedNode Key :=
  { node with count := 0 }

/-- Two nodes differ in their counts at most. -/
structure CountedNode.SameShape {Key : Type}
    (first second : CountedNode Key) : Prop where
  key : first.key = second.key
  upper : first.upper = second.upper
  depth : first.depth = second.depth
  root : first.root = second.root

theorem CountedNode.sameShape_of_shape_eq
    {Key : Type}
    {first second : CountedNode Key}
    (equal : first.shape = second.shape) :
    first.SameShape second := by
  simp only [shape, CountedNode.mk.injEq] at equal
  rcases equal with ⟨key, upper, depth, root, -⟩
  exact ⟨key, upper, depth, root⟩

theorem CountedNode.SameShape.shape_eq
    {Key : Type}
    {first second : CountedNode Key}
    (same : first.SameShape second) :
    first.shape = second.shape := by
  rcases same with ⟨key, upper, depth, root⟩
  rw [shape, shape, key, upper, depth, root]

namespace CountedForest

open Relation

variable {Key : Type} {nodes after : Nat → Option (CountedNode Key)}

/-- One node is directly below another. -/
def Child (nodes : Nat → Option (CountedNode Key)) (child parent : Nat) :
    Prop :=
  ∃ low high, nodes child = some low ∧ nodes parent = some high ∧
    low.upper = some high.key

/-- One node is somewhere below another. -/
def Below (nodes : Nat → Option (CountedNode Key)) : Nat → Nat → Prop :=
  TransGen (Child nodes)

/-- One node is another, or somewhere below it. -/
def AtOrBelow (nodes : Nat → Option (CountedNode Key)) : Nat → Nat → Prop :=
  ReflTransGen (Child nodes)

/-- The shape of a forest: keys, parents, depths and roots fit together. -/
structure Rooted (nodes : Nat → Option (CountedNode Key)) : Prop where
  finite : {id | nodes id ≠ none}.Finite
  distinct : ∀ first second one two,
    nodes first = some one → nodes second = some two → one.key = two.key →
      first = second
  parent : ∀ id node key, nodes id = some node → node.upper = some key →
    ∃ place high, nodes place = some high ∧ high.key = key ∧
      node.depth = high.depth + 1 ∧ node.root = high.root
  top : ∀ id node, nodes id = some node → node.upper = none →
    node.depth = 0 ∧ node.root = id

/-- Every node counts the nodes below it. -/
def Counted (nodes : Nat → Option (CountedNode Key)) : Prop :=
  ∀ id node, nodes id = some node →
    node.count = {other | Below nodes other id}.ncard

/-! ## Paths -/

/-- A node lies deeper than every node above it, under the same root. -/
theorem Rooted.child
    (rooted : Rooted nodes)
    {child parent : Nat}
    {low high : CountedNode Key}
    (found : nodes child = some low)
    (there : nodes parent = some high)
    (step : Child nodes child parent) :
    low.depth = high.depth + 1 ∧ low.root = high.root := by
  rcases step with ⟨low', high', found', there', upper⟩
  rw [found] at found'
  rw [there] at there'
  cases found'
  cases there'
  rcases rooted.parent child low _ found upper with
    ⟨place, node, placed, key, depth, root⟩
  have same := rooted.distinct place parent node high placed there key
  rw [same, there] at placed
  cases placed
  exact ⟨depth, root⟩

theorem Child.mem
    {child parent : Nat}
    (step : Child nodes child parent) :
    (∃ low, nodes child = some low) ∧ ∃ high, nodes parent = some high := by
  rcases step with ⟨low, high, found, there, -⟩
  exact ⟨⟨low, found⟩, high, there⟩

theorem Rooted.below
    (rooted : Rooted nodes)
    {child ancestor : Nat}
    {low high : CountedNode Key}
    (found : nodes child = some low)
    (there : nodes ancestor = some high)
    (path : Below nodes child ancestor) :
    high.depth < low.depth ∧ low.root = high.root := by
  induction path generalizing high with
  | single step =>
      rcases rooted.child found there step with ⟨depth, root⟩
      exact ⟨by omega, root⟩
  | tail _ step induction =>
      rcases step.mem.1 with ⟨middle, between⟩
      rcases induction between with ⟨deep, same⟩
      rcases rooted.child between there step with ⟨depth, root⟩
      exact ⟨by omega, same.trans root⟩

/-- No node is below itself. -/
theorem Rooted.acyclic
    (rooted : Rooted nodes)
    (id : Nat) :
    ¬ Below nodes id id := by
  intro cycle
  rcases TransGen.head'_iff.1 cycle with ⟨next, step, -⟩
  rcases step.mem.1 with ⟨node, found⟩
  exact absurd (rooted.below found found cycle).1 (Nat.lt_irrefl _)

/-- The way up from a node ends at its root. -/
theorem Rooted.reaches_root
    (rooted : Rooted nodes)
    {node : CountedNode Key}
    (found : nodes id = some node) :
    ∃ top, nodes node.root = some top ∧ top.upper = none ∧
      AtOrBelow nodes id node.root := by
  induction depth : node.depth generalizing id node with
  | zero =>
      cases upper : node.upper with
      | none =>
          have root := (rooted.top id node found upper).2
          rw [root]
          exact ⟨node, found, upper, .refl⟩
      | some key =>
          rcases rooted.parent id node key found upper with
            ⟨_, _, -, -, deeper, -⟩
          omega
  | succ depth induction =>
      cases upper : node.upper with
      | none =>
          have flat := (rooted.top id node found upper).1
          omega
      | some key =>
          rcases rooted.parent id node key found upper with
            ⟨place, high, there, same, deeper, root⟩
          rcases induction there (by omega) with ⟨top, reached, first, path⟩
          rw [root]
          refine ⟨top, reached, first, path.head ?_⟩
          exact ⟨node, high, found, there, same ▸ upper⟩

theorem Rooted.below_finite
    (rooted : Rooted nodes)
    (id : Nat) :
    {other | Below nodes other id}.Finite := by
  refine rooted.finite.subset ?_
  intro other path
  rcases TransGen.head'_iff.1 path with ⟨next, step, -⟩
  rcases step.mem.1 with ⟨node, found⟩
  rw [Set.mem_ofPred_eq, found]
  exact Option.some_ne_none node

/-- A node counts no more than its root. -/
theorem Rooted.ncard_le_root
    (rooted : Rooted nodes)
    {node : CountedNode Key}
    (found : nodes id = some node) :
    {other | Below nodes other id}.ncard ≤
      {other | Below nodes other node.root}.ncard := by
  rcases rooted.reaches_root found with ⟨top, -, -, path⟩
  refine Set.ncard_le_ncard ?_ (rooted.below_finite _)
  intro other below
  exact TransGen.trans_left below path

/-! ## Changes of counts -/

/-- A number has a node of the same shape, or none, in both forests. -/
def SameAt (nodes after : Nat → Option (CountedNode Key)) (id : Nat) : Prop :=
  (after id).map CountedNode.shape = (nodes id).map CountedNode.shape

theorem SameAt.symm
    (same : SameAt nodes after id) :
    SameAt after nodes id :=
  Eq.symm same

theorem SameAt.some
    {node : CountedNode Key}
    (same : SameAt nodes after id)
    (found : nodes id = some node) :
    ∃ changed, after id = Option.some changed ∧
      changed.SameShape node := by
  rw [SameAt, found, Option.map_some] at same
  rcases Option.map_eq_some_iff.1 same with ⟨changed, there, shape⟩
  exact ⟨changed, there, CountedNode.sameShape_of_shape_eq shape⟩

theorem SameAt.ne_none
    (same : SameAt nodes after id)
    (there : nodes id ≠ none) :
    after id ≠ none := by
  rcases Option.ne_none_iff_exists'.1 there with ⟨node, found⟩
  rcases same.some found with ⟨changed, changes, -⟩
  rw [changes]
  exact Option.some_ne_none changed

theorem Child.of_same
    {child parent : Nat}
    (low : SameAt nodes after child)
    (high : SameAt nodes after parent)
    (step : Child nodes child parent) :
    Child after child parent := by
  rcases step with ⟨one, two, found, there, upper⟩
  rcases low.some found with ⟨one', found', same⟩
  rcases high.some there with ⟨two', there', same'⟩
  refine ⟨one', two', found', there', ?_⟩
  rw [same.upper, same'.key, upper]

theorem Child.iff_of_same
    (same : ∀ id, SameAt nodes after id)
    (child parent : Nat) :
    Child after child parent ↔ Child nodes child parent :=
  ⟨fun step => step.of_same (same child).symm (same parent).symm,
    fun step => step.of_same (same child) (same parent)⟩

theorem Rooted.of_same
    (rooted : Rooted nodes)
    (same : ∀ id, SameAt nodes after id) :
    Rooted after := by
  have back : ∀ {id node}, after id = some node →
      ∃ old, nodes id = some old ∧ old.SameShape node :=
    fun {id} _ found => (same id).symm.some found
  constructor
  case finite =>
    refine rooted.finite.subset ?_
    intro id there
    exact (same id).symm.ne_none there
  case distinct =>
    intro first second one two found there key
    rcases back found with ⟨old, before, shape⟩
    rcases back there with ⟨other, also, shape'⟩
    exact rooted.distinct first second old other before also
      (shape.key.trans (key.trans shape'.key.symm))
  case parent =>
    intro id node key found upper
    rcases back found with ⟨old, before, shape⟩
    rcases rooted.parent id old key before (shape.upper.trans upper) with
      ⟨place, high, there, equal, depth, root⟩
    rcases (same place).some there with ⟨changed, stays, still⟩
    refine ⟨place, changed, stays, still.key.trans equal, ?_, ?_⟩
    · rw [← shape.depth, depth, still.depth]
    · rw [← shape.root, root, still.root]
  case top =>
    intro id node found upper
    rcases back found with ⟨old, before, shape⟩
    rw [← shape.depth, ← shape.root]
    exact rooted.top id old before (shape.upper.trans upper)

/-! ## The way up from a key -/

/-- A number lies on the way up which starts at a key. -/
def Over (nodes : Nat → Option (CountedNode Key)) (upper : Option Key)
    (id : Nat) : Prop :=
  ∃ place high, nodes place = some high ∧ upper = some high.key ∧
    AtOrBelow nodes place id

theorem not_over_none
    (id : Nat) :
    ¬ Over nodes none id := by
  rintro ⟨_, _, -, start, -⟩
  cases start

/-- The way up from the parent of a node passes all above the node. -/
theorem over_iff_below
    {node : CountedNode Key}
    (found : nodes place = some node) :
    Over nodes node.upper id ↔ Below nodes place id := by
  constructor
  · rintro ⟨next, high, there, upper, path⟩
    exact TransGen.head' ⟨node, high, found, there, upper⟩ path
  · intro path
    rcases TransGen.head'_iff.1 path with ⟨next, step, rest⟩
    rcases step with ⟨low, high, found', there, upper⟩
    rw [found] at found'
    cases found'
    exact ⟨next, high, there, upper, rest⟩

/-- The way up from a node starts there and goes on from its parent. -/
theorem Rooted.over_iff
    (rooted : Rooted nodes)
    {node : CountedNode Key}
    (found : nodes place = some node) :
    Over nodes (some node.key) id ↔ id = place ∨ Over nodes node.upper id := by
  rw [over_iff_below found]
  constructor
  · rintro ⟨start, high, there, equal, path⟩
    have same := rooted.distinct start place high node there found
      (Option.some.inj equal).symm
    subst same
    exact (ReflTransGen.cases_head path).imp Eq.symm
      fun ⟨next, step, rest⟩ => TransGen.head' step rest
  · rintro (rfl | path)
    · exact ⟨id, node, found, rfl, .refl⟩
    · exact ⟨place, node, found, rfl, path.to_reflTransGen⟩

theorem over_iff_of_same
    (same : ∀ id, SameAt nodes after id)
    (upper : Option Key)
    (id : Nat) :
    Over after upper id ↔ Over nodes upper id := by
  have forward : ∀ {first second : Nat → Option (CountedNode Key)},
      (∀ id, SameAt first second id) → Over first upper id →
        Over second upper id := by
    rintro first second same ⟨place, high, there, equal, path⟩
    rcases (same place).some there with ⟨changed, stays, shape⟩
    refine ⟨place, changed, stays, equal.trans (by rw [shape.key]), ?_⟩
    exact path.lift (fun id => id) fun one two step =>
      (Child.iff_of_same same one two).2 step
  exact ⟨forward fun id => (same id).symm, forward same⟩

/-! ## A new leaf -/

/-- A leaf is put in, below a node or as a root. -/
structure Grown (nodes after : Nat → Option (CountedNode Key)) (new : Nat)
    (leaf : CountedNode Key) : Prop where
  fresh : nodes new = none
  placed : after new = some leaf
  others : ∀ id, id ≠ new → SameAt nodes after id
  key : ∀ id node, nodes id = some node → node.key ≠ leaf.key
  top : leaf.upper = none → leaf.depth = 0 ∧ leaf.root = new
  parent : ∀ key, leaf.upper = some key →
    ∃ place high, nodes place = some high ∧ high.key = key ∧
      leaf.depth = high.depth + 1 ∧ leaf.root = high.root

namespace Grown

variable {new : Nat} {leaf : CountedNode Key}

variable (grown : Grown nodes after new leaf)

include grown

theorem ne_new
    {node : CountedNode Key}
    (found : nodes id = some node) :
    id ≠ new := by
  rintro rfl
  rw [grown.fresh] at found
  cases found

theorem some
    {node : CountedNode Key}
    (found : nodes id = some node) :
    ∃ changed, after id = Option.some changed ∧
      changed.SameShape node :=
  (grown.others id (grown.ne_new found)).some found

/-- A node of the grown forest is the leaf, or was there. -/
theorem cases
    {node : CountedNode Key}
    (found : after id = Option.some node) :
    id = new ∧ node = leaf ∨
      ∃ old, nodes id = Option.some old ∧ old.SameShape node := by
  by_cases same : id = new
  · rw [same, grown.placed] at found
    exact .inl ⟨same, (Option.some.inj found).symm⟩
  · rcases (grown.others id same).symm.some found with ⟨old, before, shape⟩
    exact .inr ⟨old, before, shape⟩

theorem rooted
    (rooted : Rooted nodes) :
    Rooted after := by
  constructor
  case finite =>
    refine (rooted.finite.insert new).subset ?_
    intro id there
    by_cases same : id = new
    · exact .inl same
    · exact .inr ((grown.others id same).symm.ne_none there)
  case distinct =>
    intro first second one two found there key
    rcases grown.cases found with ⟨rfl, rfl⟩ | ⟨old, before, shape⟩
    · rcases grown.cases there with ⟨rfl, -⟩ | ⟨other, before, shape⟩
      · rfl
      · exact absurd (shape.key.trans key.symm) (grown.key second other before)
    · rcases grown.cases there with ⟨rfl, rfl⟩ | ⟨other, also, shape'⟩
      · exact absurd (shape.key.trans key) (grown.key first old before)
      · exact rooted.distinct first second old other before also
          (shape.key.trans (key.trans shape'.key.symm))
  case parent =>
    -- The parent is there before the leaf is, and keeps its shape.
    have lift : ∀ {node : CountedNode Key} {key : Key},
        (∃ place high, nodes place = Option.some high ∧ high.key = key ∧
          node.depth = high.depth + 1 ∧ node.root = high.root) →
        ∃ place high, after place = Option.some high ∧ high.key = key ∧
          node.depth = high.depth + 1 ∧ node.root = high.root := by
      rintro node key ⟨place, high, there, same, depth, root⟩
      rcases grown.some there with ⟨changed, stays, shape⟩
      refine ⟨place, changed, stays, shape.key.trans same, ?_, ?_⟩
      · rw [depth, shape.depth]
      · rw [root, shape.root]
    intro id node key found upper
    rcases grown.cases found with ⟨rfl, rfl⟩ | ⟨old, before, shape⟩
    · exact lift (grown.parent key upper)
    · rw [← shape.depth, ← shape.root]
      exact lift (rooted.parent id old key before (shape.upper.trans upper))
  case top =>
    intro id node found upper
    rcases grown.cases found with ⟨rfl, rfl⟩ | ⟨old, before, shape⟩
    · exact grown.top upper
    · rw [← shape.depth, ← shape.root]
      exact rooted.top id old before (shape.upper.trans upper)

/-- The steps up in the grown forest. -/
theorem child_iff
    (rooted : Rooted nodes)
    (child parent : Nat) :
    Child after child parent ↔
      Child nodes child parent ∨
        child = new ∧ ∃ high, nodes parent = Option.some high ∧
          leaf.upper = Option.some high.key := by
  constructor
  · rintro ⟨low, high, found, there, upper⟩
    -- Nothing is put below the new leaf.
    have known : ∃ old, nodes parent = Option.some old ∧
        old.SameShape high := by
      rcases grown.cases there with ⟨rfl, rfl⟩ | old
      · have below : ∃ place node, nodes place = Option.some node ∧
            node.key = high.key := by
          rcases grown.cases found with ⟨rfl, rfl⟩ | ⟨old, before, shape⟩
          · rcases grown.parent _ upper with ⟨place, node, there, key, -⟩
            exact ⟨place, node, there, key⟩
          · rcases rooted.parent child old _ before
              (shape.upper.trans upper) with ⟨place, node, there, key, -⟩
            exact ⟨place, node, there, key⟩
        rcases below with ⟨place, node, placed, key⟩
        exact absurd key (grown.key place node placed)
      · exact old
    rcases known with ⟨top, before, shape⟩
    rcases grown.cases found with ⟨rfl, rfl⟩ | ⟨old, earlier, shape'⟩
    · exact .inr ⟨rfl, top, before, upper.trans (by rw [shape.key])⟩
    · refine .inl ⟨old, top, earlier, before, ?_⟩
      rw [shape'.upper, upper, shape.key]
  · rintro (step | ⟨rfl, high, there, upper⟩)
    · rcases step.mem with ⟨⟨low, found⟩, high, there⟩
      exact step.of_same (grown.others _ (grown.ne_new found))
        (grown.others _ (grown.ne_new there))
    · rcases grown.some there with ⟨changed, stays, shape⟩
      exact ⟨leaf, changed, grown.placed, stays, by rw [upper, shape.key]⟩

theorem not_below_new
    (id : Nat) :
    ¬ Below nodes id new := by
  intro path
  rcases TransGen.tail'_iff.1 path with ⟨_, -, last⟩
  rcases last.mem.2 with ⟨node, found⟩
  exact grown.ne_new found rfl

theorem not_new_below
    (id : Nat) :
    ¬ Below nodes new id := by
  intro path
  rcases TransGen.head'_iff.1 path with ⟨_, first, -⟩
  rcases first.mem.1 with ⟨node, found⟩
  exact grown.ne_new found rfl

theorem not_over_new :
    ¬ Over nodes leaf.upper new := by
  rintro ⟨place, node, there, -, path⟩
  rcases ReflTransGen.cases_tail path with same | ⟨_, -, last⟩
  · exact grown.ne_new there same.symm
  · rcases last.mem.2 with ⟨node, found⟩
    exact grown.ne_new found rfl

/-- What lies below a node of the grown forest. -/
theorem below_iff
    (rooted : Rooted nodes)
    (low high : Nat) :
    Below after low high ↔
      Below nodes low high ∨ low = new ∧ Over nodes leaf.upper high := by
  constructor
  · intro path
    induction path with
    | single step =>
        rcases (grown.child_iff rooted _ _).1 step with
          old | ⟨rfl, node, there, upper⟩
        · exact .inl (.single old)
        · exact .inr ⟨rfl, _, node, there, upper, .refl⟩
    | tail _ step induction =>
        rcases (grown.child_iff rooted _ _).1 step with
          old | ⟨rfl, -⟩
        · rcases induction with below | ⟨rfl, place, node, there, upper, path⟩
          · exact .inl (below.tail old)
          · exact .inr ⟨rfl, place, node, there, upper, path.tail old⟩
        · rcases induction with below | ⟨-, above⟩
          · exact absurd below (grown.not_below_new _)
          · exact absurd above grown.not_over_new
  · have lift : ∀ {one two}, Child nodes one two → Child after one two :=
      fun step => (grown.child_iff rooted _ _).2 (.inl step)
    rintro (path | ⟨rfl, place, node, there, upper, path⟩)
    · exact path.lift id fun _ _ => lift
    · refine TransGen.head' ?_ (path.lift id fun _ _ => lift)
      exact (grown.child_iff rooted _ _).2 (.inr ⟨rfl, node, there, upper⟩)

open Classical in
/-- Each node above the leaf counts one more. -/
theorem counted
    (rooted : Rooted nodes)
    (counted : Counted nodes)
    (empty : leaf.count = 0)
    (counts : ∀ id old node, nodes id = Option.some old →
      after id = Option.some node →
        node.count = if Over nodes leaf.upper id then old.count + 1
          else old.count) :
    Counted after := by
  intro id node found
  rcases grown.cases found with ⟨rfl, rfl⟩ | ⟨old, before, -⟩
  · have none : {other | Below after other id} = ∅ := by
      rw [Set.eq_empty_iff_forall_notMem]
      intro other path
      rcases (grown.below_iff rooted other id).1 path with below | ⟨-, above⟩
      · exact grown.not_below_new other below
      · exact grown.not_over_new above
    rw [none, Set.ncard_empty, empty]
  · rw [counts id old node before found, counted id old before]
    split
    case isTrue above =>
      have below : {other | Below after other id} =
          insert new {other | Below nodes other id} := by
        ext other
        simp [grown.below_iff rooted, above, or_comm]
      have absent : new ∉ {other | Below nodes other id} :=
        grown.not_new_below id
      rw [below, Set.ncard_insert_of_notMem absent (rooted.below_finite id)]
    case isFalse apart =>
      have below : {other | Below after other id} =
          {other | Below nodes other id} := by
        ext other
        simp [grown.below_iff rooted, apart]
      rw [below]

end Grown

/-! ## A leaf which is taken out -/

/-- A leaf is taken out. -/
structure Shrunk (nodes after : Nat → Option (CountedNode Key)) (gone : Nat) :
    Prop where
  removed : after gone = none
  others : ∀ id, id ≠ gone → SameAt nodes after id
  leaf : ∀ id, ¬ Below nodes id gone

namespace Shrunk

variable {gone : Nat}

variable (shrunk : Shrunk nodes after gone)

include shrunk

theorem cases
    {node : CountedNode Key}
    (found : after id = some node) :
    id ≠ gone ∧ ∃ old, nodes id = some old ∧ old.SameShape node := by
  have other : id ≠ gone := by
    rintro rfl
    rw [shrunk.removed] at found
    cases found
  exact ⟨other, (shrunk.others id other).symm.some found⟩

theorem child_iff
    (child parent : Nat) :
    Child after child parent ↔ Child nodes child parent ∧ child ≠ gone := by
  constructor
  · intro step
    rcases step.mem with ⟨⟨low, found⟩, high, there⟩
    have one := (shrunk.cases found).1
    have two := (shrunk.cases there).1
    exact ⟨step.of_same (shrunk.others child one).symm
      (shrunk.others parent two).symm, one⟩
  · rintro ⟨step, one⟩
    have two : parent ≠ gone := by
      rintro rfl
      exact shrunk.leaf child (.single step)
    exact step.of_same (shrunk.others child one) (shrunk.others parent two)

theorem below_iff
    (low high : Nat) :
    Below after low high ↔ Below nodes low high ∧ low ≠ gone := by
  constructor
  · intro path
    rcases TransGen.head'_iff.1 path with ⟨_, first, -⟩
    refine ⟨?_, ((shrunk.child_iff _ _).1 first).2⟩
    exact path.lift id fun _ _ step => ((shrunk.child_iff _ _).1 step).1
  · rintro ⟨path, other⟩
    induction path with
    | single step => exact .single ((shrunk.child_iff _ _).2 ⟨step, other⟩)
    | tail before step induction =>
        refine induction.tail ((shrunk.child_iff _ _).2 ⟨step, ?_⟩)
        rintro rfl
        exact shrunk.leaf _ before

theorem rooted
    (rooted : Rooted nodes) :
    Rooted after := by
  constructor
  case finite =>
    refine rooted.finite.subset ?_
    intro id there
    rcases Option.ne_none_iff_exists'.1 there with ⟨node, found⟩
    rcases shrunk.cases found with ⟨-, old, before, -⟩
    rw [Set.mem_ofPred_eq, before]
    exact Option.some_ne_none old
  case distinct =>
    intro first second one two found there key
    rcases shrunk.cases found with ⟨-, old, before, shape⟩
    rcases shrunk.cases there with ⟨-, other, also, shape'⟩
    exact rooted.distinct first second old other before also
      (shape.key.trans (key.trans shape'.key.symm))
  case parent =>
    intro id node key found upper
    rcases shrunk.cases found with ⟨-, old, before, shape⟩
    rcases rooted.parent id old key before (shape.upper.trans upper) with
      ⟨place, high, there, same, depth, root⟩
    have stays : place ≠ gone := by
      rintro rfl
      refine shrunk.leaf id (.single ⟨old, high, before, there, ?_⟩)
      rw [shape.upper, upper, same]
    rcases (shrunk.others place stays).some there with ⟨changed, left, still⟩
    refine ⟨place, changed, left, still.key.trans same, ?_, ?_⟩
    · rw [← shape.depth, depth, still.depth]
    · rw [← shape.root, root, still.root]
  case top =>
    intro id node found upper
    rcases shrunk.cases found with ⟨-, old, before, shape⟩
    rw [← shape.depth, ← shape.root]
    exact rooted.top id old before (shape.upper.trans upper)

open Classical in
/-- Each node above the leaf counts one less. -/
theorem counted
    (counted : Counted nodes)
    (counts : ∀ id old node, nodes id = some old → after id = some node →
      node.count = if Below nodes gone id then old.count - 1
        else old.count) :
    Counted after := by
  intro id node found
  rcases shrunk.cases found with ⟨-, old, before, -⟩
  rw [counts id old node before found, counted id old before]
  have below : {other | Below after other id} =
      {other | Below nodes other id} \ {gone} := by
    ext other
    simp [shrunk.below_iff]
  rw [below]
  split
  case isTrue above =>
    have member : gone ∈ {other | Below nodes other id} := above
    rw [Set.ncard_sdiff_singleton_of_mem member]
  case isFalse apart =>
    have absent : gone ∉ {other | Below nodes other id} := apart
    rw [Set.sdiff_singleton_eq_self absent]

end Shrunk

end CountedForest

end BMChain.Foundation
