import Mathlib.Logic.Function.Basic
import Mathlib.Tactic.Common

/-!
# Trees of pairs

The members of a list are joined in pairs, level by level, until one is left; a
member without a partner is carried up as it is.  What is left determines the
list among those of its length, unless two pairs join to the same value.
-/

namespace BMChain.Foundation

variable {Node : Type} {join : Node → Node → Node}

variable {nodes others : List Node}

/-- One level: neighbours are joined, and a last one without partner stays. -/
def pairUp (join : Node → Node → Node) : List Node → List Node
  | first :: second :: rest => join first second :: pairUp join rest
  | rest => rest

theorem length_pairUp
    (nodes : List Node) :
    (pairUp join nodes).length = (nodes.length + 1) / 2 := by
  induction nodes using pairUp.induct with
  | case1 first second rest induction =>
      rw [pairUp, List.length_cons, induction, List.length_cons,
        List.length_cons]
      omega
  | case2 rest short =>
      match rest, short with
      | [], _ => simp [pairUp]
      | [_], _ => simp [pairUp]
      | first :: second :: rest, short =>
          exact absurd rfl (short first second rest)

/-- A pair at the end of complete pairs is joined. -/
theorem pairUp_append_pair
    (even : nodes.length % 2 = 0)
    (first second : Node) :
    pairUp join (nodes ++ [first, second]) =
      pairUp join nodes ++ [join first second] := by
  induction nodes using pairUp.induct with
  | case1 left right rest induction =>
      rw [List.cons_append, List.cons_append, pairUp, pairUp, induction]
      · rfl
      · rw [List.length_cons, List.length_cons] at even
        omega
  | case2 rest short =>
      match rest, short, even with
      | [], _, _ => simp [pairUp]
      | [_], _, even => simp at even
      | left :: right :: rest, short, _ =>
          exact absurd rfl (short left right rest)

/-- One more node at the end of complete pairs is carried up. -/
theorem pairUp_append_single
    (even : nodes.length % 2 = 0)
    (last : Node) :
    pairUp join (nodes ++ [last]) = pairUp join nodes ++ [last] := by
  induction nodes using pairUp.induct with
  | case1 left right rest induction =>
      rw [List.cons_append, List.cons_append, pairUp, pairUp, induction]
      · rfl
      · rw [List.length_cons, List.length_cons] at even
        omega
  | case2 rest short =>
      match rest, short, even with
      | [], _, _ => simp [pairUp]
      | [_], _, even => simp at even
      | left :: right :: rest, short, _ =>
          exact absurd rfl (short left right rest)

/-- The node which is left of a list after all levels. -/
def pairRoot (join : Node → Node → Node) : List Node → Option Node
  | [] => none
  | [node] => some node
  | first :: second :: rest =>
      pairRoot join (pairUp join (first :: second :: rest))
termination_by nodes => nodes.length
decreasing_by
  rw [length_pairUp]
  simp only [List.length_cons]
  omega

theorem pairRoot_of_long
    (long : 1 < nodes.length) :
    pairRoot join nodes = pairRoot join (pairUp join nodes) := by
  match nodes, long with
  | first :: second :: rest, _ => rw [pairRoot]

/-! ## Binding -/

/-- Two different pairs are joined to the same node. -/
def Collision (join : Node → Node → Node) : Prop :=
  ∃ first second left right,
    (first, second) ≠ (left, right) ∧ join first second = join left right

theorem not_collision_of_injective
    (injective : Function.Injective2 join) :
    ¬ Collision join := by
  rintro ⟨first, second, left, right, different, same⟩
  rcases injective same with ⟨rfl, rfl⟩
  exact different rfl

/-- A level determines the one below it, unless there is a collision. -/
theorem eq_of_pairUp_eq
    (free : ¬ Collision join)
    (length : nodes.length = others.length)
    (same : pairUp join nodes = pairUp join others) :
    nodes = others := by
  induction nodes using pairUp.induct generalizing others with
  | case1 first second rest induction =>
      match others, length with
      | left :: right :: below, length =>
          rw [pairUp, pairUp, List.cons.injEq] at same
          have pair : (first, second) = (left, right) := by
            by_contra different
            exact free ⟨first, second, left, right, different, same.1⟩
          rw [Prod.mk.injEq] at pair
          rw [induction (Nat.add_right_cancel (Nat.add_right_cancel length))
            same.2, pair.1, pair.2]
  | case2 rest short =>
      match rest, short, others, length with
      | [], _, [], _ => rfl
      | [node], _, [other], _ => exact same
      | first :: second :: rest, short, _, _ =>
          exact absurd rfl (short first second rest)

/-- The root determines the list, unless there is a collision. -/
theorem eq_of_pairRoot_eq
    (free : ¬ Collision join)
    (length : nodes.length = others.length)
    (same : pairRoot join nodes = pairRoot join others) :
    nodes = others := by
  induction nodes using pairRoot.induct join generalizing others with
  | case1 =>
      exact (List.eq_nil_of_length_eq_zero length.symm).symm
  | case2 node =>
      match others, length with
      | [other], _ =>
          rw [pairRoot, pairRoot] at same
          rw [Option.some.inj same]
  | case3 first second rest induction =>
      have long : 1 < others.length := by
        rw [← length]
        simp
      rw [pairRoot_of_long (show 1 < (first :: second :: rest).length by simp),
        pairRoot_of_long long] at same
      refine eq_of_pairUp_eq free length (induction ?_ same)
      rw [length_pairUp, length_pairUp, length]

end BMChain.Foundation
