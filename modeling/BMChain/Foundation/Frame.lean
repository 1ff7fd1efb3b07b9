import Mathlib.Order.Defs.Unbundled
import BMChain.Foundation.GuardedFold

/-!
# Computations which respect a relation

A fallible computation respects a preorder on states when every state it
returns is related to the one it started from.  The rules follow the shapes of
such computations: a result, a failure, a value read on the way, two changes in
sequence, and loops.
-/

namespace BMChain.Foundation

variable {State Error Value Item : Type}

/-- Whatever a computation returns is related to the state it starts from. -/
def Respects (relation : State → State → Prop) (state : State)
    (result : Except Error State) : Prop :=
  ∀ after, result = .ok after → relation state after

namespace Respects

variable {relation : State → State → Prop} {state : State}

theorem ok
    {after : State}
    (related : relation state after) :
    Respects relation state (.ok after : Except Error State) := by
  intro final equal
  cases equal
  exact related

theorem error
    (message : Error) :
    Respects relation state (.error message) := by
  intro final equal
  cases equal

/-- A value is computed before the state is changed. -/
theorem read
    {first : Except Error Value}
    {next : Value → Except Error State}
    (respects : ∀ value, first = .ok value →
      Respects relation state (next value)) :
    Respects relation state (first >>= next) := by
  intro final equal
  rw [bind_eq_ok_iff] at equal
  rcases equal with ⟨value, computed, rest⟩
  exact respects value computed final rest

theorem mono
    {weaker : State → State → Prop}
    {result : Except Error State}
    (respects : Respects relation state result)
    (implied : ∀ before after, relation before after → weaker before after) :
    Respects weaker state result :=
  fun after returned => implied state after (respects after returned)

variable [IsPreorder State relation]

theorem unchanged :
    Respects relation state (.ok state : Except Error State) :=
  .ok (refl_of relation state)

/-- A computation starts from a related state. -/
theorem after
    {middle : State}
    {result : Except Error State}
    (rest : Respects relation middle result)
    (first : relation state middle) :
    Respects relation state result :=
  fun after returned => trans_of relation first (rest after returned)

/-- The state is changed twice. -/
theorem bind
    {first : Except Error State}
    {next : State → Except Error State}
    (start : Respects relation state first)
    (rest : ∀ middle, Respects relation middle (next middle)) :
    Respects relation state (first >>= next) := by
  intro final equal
  rw [bind_eq_ok_iff] at equal
  rcases equal with ⟨middle, changed, finished⟩
  exact trans_of relation (start middle changed) (rest middle final finished)

theorem foldlM
    {step : State → Item → Except Error State}
    (items : List Item)
    (respects : ∀ state item, Respects relation state (step state item)) :
    Respects relation state (items.foldlM step state) := by
  intro final ran
  refine foldlM_invariant (relation state) ?_ ran (refl_of relation state)
  intro middle item after _ stepped related
  exact trans_of relation related (respects middle item after stepped)

theorem drain
    {endless : Error}
    {next : State → Option Item}
    {act : Item → State → Except Error State}
    (rounds : Nat)
    (respects : ∀ item state, Respects relation state (act item state)) :
    Respects relation state
      (Foundation.drain endless next act rounds state) := by
  intro final ran
  refine drain_invariant (relation state) ?_ ran (refl_of relation state)
  intro item middle after _ acted related
  exact trans_of relation related (respects item middle after acted)

end Respects

end BMChain.Foundation
