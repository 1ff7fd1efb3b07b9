import Mathlib.Tactic.Common

/-!
# Computations which throw

A computation reads and writes a state and may throw.  What it has written
stays written when it throws, and its caller goes on with that state.
-/

namespace BMChain.Foundation

/-- A computation on a state, which keeps its writes when it throws. -/
abbrev Effect (Error State Value : Type) := ExceptT Error (StateM State) Value

namespace Effect

variable {Error State Value Result Item : Type}

/-- What the computation returns or throws, and the state it leaves. -/
def perform (action : Effect Error State Value) (state : State) :
    Except Error Value × State :=
  action.run.run state

/-- The computation reads the result of a function which may throw. -/
def lift (result : Except Error Value) : Effect Error State Value :=
  ExceptT.mk (pure result)

@[simp]
theorem perform_pure
    (value : Value)
    (state : State) :
    perform (pure value : Effect Error State Value) state =
      (.ok value, state) :=
  rfl

@[simp]
theorem perform_lift
    (result : Except Error Value)
    (state : State) :
    perform (lift result) state = (result, state) :=
  rfl

@[simp]
theorem perform_get
    (state : State) :
    perform (get : Effect Error State State) state = (.ok state, state) :=
  rfl

@[simp]
theorem perform_set
    (written state : State) :
    perform (set written : Effect Error State PUnit) state =
      (.ok ⟨⟩, written) :=
  rfl

theorem perform_bind
    (first : Effect Error State Value)
    (next : Value → Effect Error State Result)
    (state : State) :
    perform (first >>= next) state =
      match perform first state with
      | (.ok value, middle) => perform (next value) middle
      | (.error error, middle) => (.error error, middle) := by
  unfold perform
  rw [ExceptT.run_bind, StateT.run_bind]
  change (match first.run.run state with | (result, middle) => _) = _
  rcases first.run.run state with ⟨value | error, middle⟩
  · rfl
  · rfl

theorem perform_bind_ok
    {first : Effect Error State Value}
    {state middle : State}
    {value : Value}
    (ran : perform first state = (.ok value, middle))
    (next : Value → Effect Error State Result) :
    perform (first >>= next) state = perform (next value) middle := by
  rw [perform_bind, ran]

theorem foldlM_congr
    {step other : Value → Item → Effect Error State Value}
    {items : List Item}
    (same : ∀ item ∈ items, ∀ value, step value item = other value item)
    (value : Value) :
    items.foldlM step value = items.foldlM other value := by
  induction items generalizing value with
  | nil => rfl
  | cons first rest induction =>
      rw [List.forall_mem_cons] at same
      rw [List.foldlM_cons, List.foldlM_cons, same.1]
      exact bind_congr fun next => induction same.2 next

/-! ## Invariants -/

/--
A state with the invariant is left, and what is returned has the property there.
-/
def Leaves (invariant : State → Prop) (yields : Value → State → Prop)
    (outcome : Except Error Value × State) : Prop :=
  invariant outcome.2 ∧
    ∀ value, outcome.1 = .ok value → yields value outcome.2

variable {invariant : State → Prop}

theorem Leaves.ok
    {yields : Value → State → Prop}
    {value : Value}
    {state : State}
    (kept : invariant state)
    (holds : yields value state) :
    Leaves invariant yields ((.ok value, state) : Except Error Value × State) := by
  refine ⟨kept, ?_⟩
  rintro _ ⟨⟩
  exact holds

theorem Leaves.error
    {yields : Value → State → Prop}
    {error : Error}
    {state : State}
    (kept : invariant state) :
    Leaves invariant yields
      ((.error error, state) : Except Error Value × State) := by
  refine ⟨kept, ?_⟩
  rintro _ ⟨⟩

/-- The rest leaves what it should wherever the first part ends. -/
theorem Leaves.bind
    {between : Value → State → Prop}
    {yields : Result → State → Prop}
    {first : Effect Error State Value}
    {next : Value → Effect Error State Result}
    {state : State}
    (start : Leaves invariant between (perform first state))
    (rest : ∀ value middle, invariant middle → between value middle →
      Leaves invariant yields (perform (next value) middle)) :
    Leaves invariant yields (perform (first >>= next) state) := by
  rw [perform_bind]
  generalize perform first state = outcome at start
  rcases start with ⟨kept, returned⟩
  rcases outcome with ⟨error | value, middle⟩
  · exact .error kept
  · exact rest value middle kept (returned value rfl)

/-- Every round leaves what the next one needs. -/
theorem Leaves.foldlM
    {step : Value → Item → Effect Error State Value}
    {items : List Item}
    {value : Value}
    {state : State}
    (kept : invariant state)
    (each : ∀ item ∈ items, ∀ value state, invariant state →
      Leaves invariant (fun _ _ => True) (perform (step value item) state)) :
    Leaves invariant (fun _ _ => True)
      (perform (items.foldlM step value) state) := by
  induction items generalizing value state with
  | nil => exact .ok kept trivial
  | cons first rest induction =>
      rw [List.forall_mem_cons] at each
      rw [List.foldlM_cons]
      exact (each.1 value state kept).bind fun _ _ held _ =>
        induction held each.2

theorem Leaves.forM
    {action : Item → Effect Error State PUnit}
    {items : List Item}
    {state : State}
    (kept : invariant state)
    (each : ∀ item ∈ items, ∀ state, invariant state →
      Leaves invariant (fun _ _ => True) (perform (action item) state)) :
    Leaves invariant (fun _ _ => True) (perform (items.forM action) state) := by
  induction items generalizing state with
  | nil => exact .ok kept trivial
  | cons first rest induction =>
      rw [List.forall_mem_cons] at each
      change Leaves _ _
        (perform (action first >>= fun _ => rest.forM action) state)
      exact (each.1 state kept).bind fun _ middle held _ =>
        induction held each.2

/-! ## Errors -/

/-- However it ends, a state with the property is left, and errors are such. -/
structure Ends (throws : Error → Prop) (property : State → Prop)
    (outcome : Except Error Value × State) : Prop where
  left : property outcome.2
  thrown : ∀ error, outcome.1 = .error error → throws error

variable {throws : Error → Prop} {property : State → Prop}

theorem Ends.ok
    {value : Value}
    {state : State}
    (holds : property state) :
    Ends throws property ((.ok value, state) : Except Error Value × State) := by
  refine ⟨holds, ?_⟩
  rintro _ ⟨⟩

theorem Ends.error
    {error : Error}
    {state : State}
    (holds : property state)
    (such : throws error) :
    Ends throws property
      ((.error error, state) : Except Error Value × State) := by
  refine ⟨holds, ?_⟩
  rintro _ ⟨⟩
  exact such

/-- The rest ends as it should wherever the first part returns. -/
theorem Ends.bind
    {between : State → Prop}
    {first : Effect Error State Value}
    {next : Value → Effect Error State Result}
    {state : State}
    (start : Ends throws between (perform first state))
    (implied : ∀ middle, between middle → property middle)
    (rest : ∀ value middle, between middle →
      perform first state = (.ok value, middle) →
        Ends throws property (perform (next value) middle)) :
    Ends throws property (perform (first >>= next) state) := by
  rw [perform_bind]
  cases ran : perform first state with
  | mk result middle =>
      rw [ran] at start
      cases result with
      | error error =>
          exact .error (implied middle start.left) (start.thrown error rfl)
      | ok value => exact rest value middle start.left ran

end Effect

end BMChain.Foundation
