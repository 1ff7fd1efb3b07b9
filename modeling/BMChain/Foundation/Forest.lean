import Mathlib.Algebra.BigOperators.Group.Finset.Basic
import Mathlib.Algebra.BigOperators.Group.Finset.Piecewise
import Mathlib.Algebra.BigOperators.Intervals
import Mathlib.Algebra.Order.BigOperators.Group.Finset
import Mathlib.Tactic.Common

/-!
# Weights in a forest

A forest is given by the parent of each node.  Every node has a weight of its
own, and carries at each distance the weights of the nodes which lie that far
below it.  Taking a node off its parent moves the weights of its whole subtree,
each at its distance from the nodes above.
-/

namespace BMChain.Foundation.Forest

variable {Node : Type} {parent : Node → Option Node}

variable {start upper node source : Node} {steps : Nat}

/-! ## Paths to the root -/

/-- The node which lies a number of steps above another one. -/
def above (parent : Node → Option Node) : Nat → Node → Option Node
  | 0, node => some node
  | steps + 1, node => (parent node).bind (above parent steps)

@[simp]
theorem above_zero
    (node : Node) :
    above parent 0 node = some node :=
  rfl

theorem above_succ
    (steps : Nat)
    (node : Node) :
    above parent (steps + 1) node = (parent node).bind (above parent steps) :=
  rfl

theorem above_add
    (first second : Nat)
    (node : Node) :
    above parent (first + second) node =
      (above parent first node).bind (above parent second) := by
  induction first generalizing node with
  | zero => simp
  | succ first induction =>
      rw [Nat.succ_add, above_succ, above_succ, Option.bind_assoc]
      exact congrArg (parent node).bind (funext induction)

/-- The last step of a path is one to a parent. -/
theorem above_succ_last
    (steps : Nat)
    (node : Node) :
    above parent (steps + 1) node = (above parent steps node).bind parent := by
  rw [above_add]
  congr 1
  funext last
  exact Option.bind_fun_some (parent last)

/-- A path does not go on above a node without a parent. -/
theorem above_of_root
    (root : parent node = none)
    (steps : Nat) :
    above parent (steps + 1) node = none := by
  rw [above_succ, root]
  rfl

/-- No path leads back to where it started. -/
def Acyclic (parent : Node → Option Node) : Prop :=
  ∀ steps node, above parent (steps + 1) node ≠ some node

/-! ## Taking a node off its parent -/

section Detached

variable [DecidableEq Node]

/-- The forest in which a node has no parent. -/
def detach (parent : Node → Option Node) (node : Node) : Node → Option Node :=
  Function.update parent node none

@[simp]
theorem detach_self
    (node : Node) :
    detach parent node node = none := by
  rw [detach, Function.update_self]

theorem detach_of_ne
    {node other : Node}
    (different : other ≠ node) :
    detach parent node other = parent other := by
  rw [detach, Function.update_of_ne different]

/-- A path of the detached forest was there before. -/
theorem above_of_detach
    {start target : Node}
    (path : above (detach parent node) steps start = some target) :
    above parent steps start = some target := by
  induction steps generalizing start with
  | zero => exact path
  | succ steps induction =>
      by_cases same : start = node
      · rw [same, above_of_root (detach_self node)] at path
        cases path
      · rw [above_succ, detach_of_ne same] at path
        rw [above_succ]
        rcases Option.bind_eq_some_iff.1 path with ⟨next, step, rest⟩
        exact Option.bind_eq_some_iff.2 ⟨next, step, induction rest⟩

theorem Acyclic.detach
    (acyclic : Acyclic parent)
    (node : Node) :
    Acyclic (detach parent node) :=
  fun steps start path => acyclic steps start (above_of_detach path)

/-- A path which never comes to a node does not need its parent. -/
theorem above_detach_of_avoids
    (avoids : ∀ steps, above (detach parent node) steps start ≠ some node)
    (steps : Nat) :
    above parent steps start = above (detach parent node) steps start := by
  induction steps generalizing start with
  | zero => rfl
  | succ steps induction =>
      have different : start ≠ node := fun same => avoids 0 (congrArg some same)
      rw [above_succ, above_succ, detach_of_ne different]
      cases next : parent start with
      | none => rfl
      | some upper =>
          refine induction fun further path => avoids (further + 1) ?_
          rw [above_succ, detach_of_ne different, next]
          exact path

/-- A node may be put below another one from which no path leads back. -/
theorem Acyclic.attach
    (placed : parent node = some upper)
    (acyclic : Acyclic (Forest.detach parent node))
    (avoids : ∀ steps,
      above (Forest.detach parent node) steps upper ≠ some node) :
    Acyclic parent := by
  have back : ∀ steps, above parent steps upper ≠ some node := by
    intro steps path
    rw [above_detach_of_avoids avoids] at path
    exact avoids steps path
  intro steps start cycle
  by_cases visits : ∃ before, above (Forest.detach parent node) before start =
      some node
  case neg =>
    refine acyclic steps start ?_
    rw [← above_detach_of_avoids (fun further path => visits ⟨further, path⟩)]
    exact cycle
  case pos =>
    rcases visits with ⟨before, path⟩
    have reached := above_of_detach path
    -- Walking round the cycle often enough comes to the node above again.
    have around : ∀ rounds,
        above parent (rounds * (steps + 1)) start = some start := by
      intro rounds
      induction rounds with
      | zero => rw [Nat.zero_mul]; rfl
      | succ rounds induction =>
          rw [Nat.succ_mul, above_add, induction]
          exact cycle
    have length : before + 1 ≤ (before + 1) * (steps + 1) :=
      Nat.le_mul_of_pos_right _ (Nat.succ_pos steps)
    have split : (before + 1) * (steps + 1) =
        before + 1 + ((before + 1) * (steps + 1) - (before + 1)) := by omega
    have onward := around (before + 1)
    rw [split, above_add, above_succ_last, reached, Option.bind_some, placed,
      Option.bind_some] at onward
    refine back ((before + 1) * (steps + 1) - (before + 1) + before) ?_
    rw [above_add, onward]
    exact reached

end Detached

/-! ## Carried weights -/

section Weights

variable {Weight : Type} [AddCommMonoid Weight] [DecidableEq Node]

/-- A weight which counts for a node when a path leads there. -/
def share (parent : Node → Option Node) (weight : Weight) (steps : Nat)
    (source node : Node) : Weight :=
  if above parent steps source = some node then weight else 0

@[simp]
theorem share_zero
    (steps : Nat)
    (source node : Node) :
    share parent (0 : Weight) steps source node = 0 :=
  ite_self 0

theorem share_neg
    {Group : Type}
    [AddCommGroup Group]
    (weight : Group)
    (steps : Nat)
    (source node : Node) :
    share parent (-weight) steps source node =
      -share parent weight steps source node := by
  unfold share
  split
  · rfl
  · exact neg_zero.symm

theorem share_of_root
    (root : parent source = none)
    (weight : Weight)
    (steps : Nat)
    (node : Node) :
    share parent weight (steps + 1) source node = 0 := by
  rw [share, above_of_root root, if_neg (by simp)]

theorem share_of_parent
    (next : parent source = some upper)
    (weight : Weight)
    (steps : Nat)
    (node : Node) :
    share parent weight (steps + 1) source node =
      share parent weight steps upper node := by
  rw [share, share, above_succ, next]
  rfl

/-- The weights of the nodes which lie a number of steps below a node. -/
def carried (parent : Node → Option Node) (weight : Node → Weight)
    (nodes : Finset Node) (steps : Nat) (node : Node) : Weight :=
  ∑ source ∈ nodes, share parent (weight source) steps source node

theorem carried_zero
    {weight : Node → Weight}
    {nodes : Finset Node}
    (member : node ∈ nodes) :
    carried parent weight nodes 0 node = weight node := by
  simp [carried, share, member]

/-- More weight on one node is carried by the nodes above it. -/
theorem carried_add
    {weight heavier : Node → Weight}
    {nodes : Finset Node}
    {changed : Node}
    {delta : Weight}
    (member : changed ∈ nodes)
    (moved : ∀ node,
      heavier node = weight node + if changed = node then delta else 0)
    (steps : Nat)
    (node : Node) :
    carried parent heavier nodes steps node =
      carried parent weight nodes steps node +
        share parent delta steps changed node := by
  have split : ∀ source ∈ nodes,
      share parent (heavier source) steps source node =
        share parent (weight source) steps source node +
          if changed = source then share parent delta steps changed node
          else 0 := by
    intro source _
    rw [moved source]
    unfold share
    by_cases same : changed = source
    · subst same
      split <;> simp
    · simp [same]
  rw [carried, Finset.sum_congr rfl split, Finset.sum_add_distrib,
    Finset.sum_ite_eq, if_pos member]
  rfl

/--
A path either avoids the node which is taken off its parent, or reaches it and
goes on from there.
-/
theorem share_detach
    (weight : Weight)
    (node : Node)
    (steps : Nat)
    (source target : Node) :
    share parent weight steps source target =
      share (detach parent node) weight steps source target +
        ∑ place ∈ Finset.range steps,
          share parent (share (detach parent node) weight (steps - 1 - place)
            source node) (place + 1) node target := by
  induction steps generalizing source with
  | zero => simp [share]
  | succ steps induction =>
      rw [Finset.sum_range_succ, Nat.add_sub_cancel, Nat.sub_self]
      by_cases same : source = node
      · subst same
        have off : ∀ further,
            share (detach parent source) weight (further + 1) source =
              fun _ => 0 := by
          intro further
          funext other
          exact share_of_root (detach_self source) weight further other
        have rest : ∀ place ∈ Finset.range steps,
            share parent (share (detach parent source) weight (steps - place)
              source source) (place + 1) source target = 0 := by
          intro place below
          have positive : steps - place = steps - place - 1 + 1 := by
            have := Finset.mem_range.1 below
            omega
          rw [positive, off, share_zero]
        rw [Finset.sum_eq_zero rest, off, zero_add, zero_add]
        simp [share]
      · have last :
            share (detach parent node) weight 0 source node = 0 := by
          simp [share, same]
        rw [last]
        cases next : parent source with
        | none =>
            have off : ∀ further other,
                share (detach parent node) weight (further + 1) source other =
                  0 := by
              exact share_of_root ((detach_of_ne same).trans next) weight
            have rest : ∀ place ∈ Finset.range steps,
                share parent (share (detach parent node) weight
                  (steps - place) source node) (place + 1) node target = 0 := by
              intro place below
              have positive : steps - place = steps - place - 1 + 1 := by
                have := Finset.mem_range.1 below
                omega
              rw [positive, off, share_zero]
            rw [Finset.sum_eq_zero rest, off, share_zero,
              share_of_root next, add_zero, add_zero]
        | some upper =>
            have step : ∀ further other,
                share (detach parent node) weight (further + 1) source other =
                  share (detach parent node) weight further upper other := by
              exact share_of_parent ((detach_of_ne same).trans next) weight
            have rest : ∀ place ∈ Finset.range steps,
                share parent (share (detach parent node) weight
                  (steps - place) source node) (place + 1) node target =
                share parent (share (detach parent node) weight
                  (steps - 1 - place) upper node) (place + 1) node target := by
              intro place below
              have positive : steps - place = steps - 1 - place + 1 := by
                have := Finset.mem_range.1 below
                omega
              rw [positive, step]
            rw [Finset.sum_congr rfl rest, step]
            rw [share_of_parent next, induction, share_zero, add_zero]

/-- A node which is taken off its parent takes its subtree away from the nodes
above, each part at its distance. -/
theorem carried_detach
    (weight : Node → Weight)
    (nodes : Finset Node)
    (node : Node)
    (steps : Nat)
    (target : Node) :
    carried parent weight nodes steps target =
      carried (detach parent node) weight nodes steps target +
        ∑ place ∈ Finset.range steps,
          share parent
            (carried (detach parent node) weight nodes (steps - 1 - place) node)
            (place + 1) node target := by
  have gathered : ∀ place ∈ Finset.range steps,
      share parent
        (carried (detach parent node) weight nodes (steps - 1 - place) node)
        (place + 1) node target =
      ∑ source ∈ nodes,
        share parent (share (detach parent node) (weight source)
          (steps - 1 - place) source node) (place + 1) node target := by
    intro place _
    by_cases path : above parent (place + 1) node = some target
    · simp [share, path, carried]
    · simp [share, path]
  rw [Finset.sum_congr rfl gathered, Finset.sum_comm, carried, carried,
    ← Finset.sum_add_distrib]
  exact Finset.sum_congr rfl fun source _ =>
    share_detach (weight source) node steps source target

/-- The subtree of a node does not depend on the node's parent. -/
theorem carried_detach_self
    (acyclic : Acyclic parent)
    (weight : Node → Weight)
    (nodes : Finset Node)
    (node : Node)
    (steps : Nat) :
    carried parent weight nodes steps node =
      carried (detach parent node) weight nodes steps node := by
  rw [carried_detach weight nodes node steps node, Finset.sum_eq_zero, add_zero]
  intro place _
  rw [share, if_neg (acyclic place node)]

/-- New nodes without weight change nothing. -/
theorem carried_insert
    {weight : Node → Weight}
    {nodes : Finset Node}
    {added : Node}
    (light : weight added = 0)
    (steps : Nat)
    (node : Node) :
    carried parent weight (insert added nodes) steps node =
      carried parent weight nodes steps node := by
  unfold carried
  by_cases member : added ∈ nodes
  · rw [Finset.insert_eq_of_mem member]
  · rw [Finset.sum_insert member, light, share_zero, zero_add]

/-! ## The weight of the whole forest -/

/-- The parents of a set of nodes belong to it. -/
def Closed (parent : Node → Option Node) (nodes : Finset Node) : Prop :=
  ∀ node ∈ nodes, ∀ upper, parent node = some upper → upper ∈ nodes

omit [DecidableEq Node] in
theorem Closed.above_mem
    {nodes : Finset Node}
    (closed : Closed parent nodes)
    (member : source ∈ nodes)
    (path : above parent steps source = some node) :
    node ∈ nodes := by
  induction steps generalizing source with
  | zero =>
      cases path
      exact member
  | succ steps induction =>
      rcases Option.bind_eq_some_iff.1 path with ⟨next, step, rest⟩
      exact induction (closed source member next step) rest

theorem Closed.detach
    {nodes : Finset Node}
    (closed : Closed parent nodes)
    (node : Node) :
    Closed (Forest.detach parent node) nodes := by
  intro other member upper step
  by_cases same : other = node
  · rw [same, detach_self] at step
    cases step
  · rw [detach_of_ne same] at step
    exact closed other member upper step

/-- A node may be put below any node of the set. -/
theorem Closed.update
    {nodes : Finset Node}
    (closed : Closed parent nodes)
    (listed : upper ∈ nodes)
    (node : Node) :
    Closed (Function.update parent node (some upper)) nodes := by
  intro other member next step
  by_cases same : other = node
  · rw [same, Function.update_self] at step
    cases step
    exact listed
  · rw [Function.update_of_ne same] at step
    exact closed other member next step

/-- One step further, every weight has moved up from a node with a parent. -/
theorem sum_carried_succ
    {nodes : Finset Node}
    (closed : Closed parent nodes)
    (weight : Node → Weight)
    (steps : Nat) :
    ∑ node ∈ nodes, carried parent weight nodes (steps + 1) node =
      ∑ node ∈ nodes,
        if parent node = none then 0
        else carried parent weight nodes steps node := by
  have single : ∀ source ∈ nodes,
      ∑ node ∈ nodes, share parent (weight source) (steps + 1) source node =
        ∑ node ∈ nodes,
          if parent node = none then 0
          else share parent (weight source) steps source node := by
    intro source member
    simp only [share, above_succ_last]
    cases path : above parent steps source with
    | none => simp
    | some last =>
        have reached := closed.above_mem member path
        cases next : parent last with
        | none =>
            rw [Option.bind_some, next]
            refine (Finset.sum_eq_zero fun node _ => if_neg (by simp)).trans
              (Finset.sum_eq_zero fun node _ => ?_).symm
            by_cases same : last = node
            · rw [← same, if_pos next]
            · simp [same]
        | some upper =>
            have arrived := closed last reached upper next
            rw [Option.bind_some, next]
            rw [Finset.sum_eq_single_of_mem upper arrived,
              Finset.sum_eq_single_of_mem last reached]
            · simp [next]
            · intro node _ different
              simp [Ne.symm different]
            · intro node _ different
              simp [Ne.symm different]
  simp only [carried]
  rw [Finset.sum_comm, Finset.sum_congr rfl single, Finset.sum_comm]
  refine Finset.sum_congr rfl fun node _ => ?_
  split
  · exact Finset.sum_const_zero
  · rfl

/-- What a node settles of the weights within a number of steps: a root keeps
all it carries, and any other node only what has come the whole way. -/
def settled (parent : Node → Option Node) (weight : Node → Weight)
    (nodes : Finset Node) (steps : Nat) (node : Node) : Weight :=
  if parent node = none then
    ∑ distance ∈ Finset.range (steps + 1),
      carried parent weight nodes distance node
  else carried parent weight nodes steps node

/-- Every weight is settled at exactly one node. -/
theorem sum_settled
    {nodes : Finset Node}
    (closed : Closed parent nodes)
    (weight : Node → Weight)
    (steps : Nat) :
    ∑ node ∈ nodes, settled parent weight nodes steps node =
      ∑ node ∈ nodes, weight node := by
  induction steps with
  | zero =>
      refine Finset.sum_congr rfl fun node member => ?_
      simp [settled, carried_zero member]
  | succ steps induction =>
      have kept : ∀ node ∈ nodes,
          settled parent weight nodes (steps + 1) node =
            (if parent node = none then
              ∑ distance ∈ Finset.range (steps + 1),
                carried parent weight nodes distance node
            else 0) + carried parent weight nodes (steps + 1) node := by
        intro node _
        unfold settled
        split
        · rw [Finset.sum_range_succ]
        · rw [zero_add]
      rw [Finset.sum_congr rfl kept, Finset.sum_add_distrib,
        sum_carried_succ closed, ← Finset.sum_add_distrib, ← induction]
      refine Finset.sum_congr rfl fun node _ => ?_
      unfold settled
      split
      · rw [add_zero]
      · rw [zero_add]

/-! ## Weights which are not negative -/

section Nonnegative

variable [PartialOrder Weight] [IsOrderedAddMonoid Weight]
    {weight : Node → Weight} {nodes : Finset Node}

theorem carried_nonneg
    (nonneg : ∀ node, 0 ≤ weight node)
    (steps : Nat)
    (node : Node) :
    0 ≤ carried parent weight nodes steps node := by
  refine Finset.sum_nonneg fun source _ => ?_
  unfold share
  split
  · exact nonneg source
  · exact le_rfl

theorem settled_nonneg
    (nonneg : ∀ node, 0 ≤ weight node)
    (steps : Nat)
    (node : Node) :
    0 ≤ settled parent weight nodes steps node := by
  unfold settled
  split
  · exact Finset.sum_nonneg fun distance _ =>
      carried_nonneg nonneg distance node
  · exact carried_nonneg nonneg steps node

end Nonnegative

end Weights

end BMChain.Foundation.Forest
