import Mathlib.Tactic.Common

/-!
# Loops that check before they write

A loop over a list which tests the state before each write either stops at
the first failed test or performs every write.  `guardedFold` is that loop;
its law separates the tests, which see the state produced by the writes
before them, from the final state.  `drain` is the loop which takes work from
the state until none is left.
-/

namespace BMChain.Foundation

section Loop

variable {State Item Error : Type} {endless : Error}
    {next : State → Option Item} {act : Item → State → Except Error State}
    {step : State → Item → Except Error State}

/-- Run a checked write for every item of the list, stopping at a failure. -/
def guardedFold
    (check : State → Item → Option Error)
    (write : State → Item → State) :
    State → List Item → Except Error State
  | state, [] => .ok state
  | state, item :: rest =>
      match check state item with
      | some error => .error error
      | none => guardedFold check write (write state item) rest

/--
The loop completes exactly when every test passes in the state left by the
writes before it, and it then performs all of them.
-/
theorem guardedFold_eq_ok_iff
    (check : State → Item → Option Error)
    (write : State → Item → State)
    (state final : State)
    (items : List Item) :
    guardedFold check write state items = .ok final ↔
      (∀ before item after,
        items = before ++ item :: after →
          check (before.foldl write state) item = none) ∧
      final = items.foldl write state := by
  induction items generalizing state with
  | nil =>
      simp [guardedFold, eq_comm]
  | cons head rest induction =>
      unfold guardedFold
      cases test : check state head with
      | some error =>
          simp only [reduceCtorEq, false_iff, not_and]
          intro tests
          have impossible := tests [] head rest rfl
          simp [test] at impossible
      | none =>
          rw [induction]
          refine and_congr ⟨?_, ?_⟩ Iff.rfl
          · intro tests before item after split
            cases before with
            | nil =>
                obtain ⟨rfl, rfl⟩ := by simpa using split
                exact test
            | cons first before =>
                obtain ⟨rfl, rfl⟩ := by simpa using split
                exact tests before item after rfl
          · intro tests before item after split
            exact tests (head :: before) item after (by simp [split])

theorem ok_bind
    {Value Result : Type}
    (value : Value)
    (next : Value → Except Error Result) :
    ((.ok value : Except Error Value) >>= next) = next value :=
  rfl

/-- A sequence of two steps succeeds when both do. -/
theorem bind_eq_ok_iff
    {Value Result : Type}
    (first : Except Error Value)
    (next : Value → Except Error Result)
    (result : Result) :
    (first >>= next) = .ok result ↔
      ∃ value, first = .ok value ∧ next value = .ok result := by
  cases first with
  | error error => simp [bind, Except.bind]
  | ok value => simp [bind, Except.bind]

theorem pure_eq_ok_iff
    {Value : Type}
    (value result : Value) :
    (pure value : Except Error Value) = .ok result ↔ value = result := by
  simp [pure, Except.pure]

/--
Run an action on the work which the state offers until it offers none.  A
loop which has not ended after the given number of rounds fails.
-/
def drain
    (endless : Error)
    (next : State → Option Item)
    (act : Item → State → Except Error State) :
    Nat → State → Except Error State
  | 0, state => if (next state).isNone then .ok state else .error endless
  | rounds + 1, state =>
      match next state with
      | none => .ok state
      | some item => do
          let state ← act item state
          drain endless next act rounds state

/-- What every action keeps holds at the end of the loop. -/
theorem drain_invariant
    (invariant : State → Prop)
    (kept : ∀ item state after,
      next state = some item → act item state = .ok after →
        invariant state → invariant after)
    {rounds : Nat}
    {state final : State}
    (ran : drain endless next act rounds state = .ok final)
    (start : invariant state) :
    invariant final := by
  induction rounds generalizing state with
  | zero =>
      unfold drain at ran
      split at ran
      · cases ran
        exact start
      · cases ran
  | succ rounds induction =>
      unfold drain at ran
      split at ran
      case h_1 =>
        cases ran
        exact start
      case h_2 item offered =>
        rw [bind_eq_ok_iff] at ran
        rcases ran with ⟨middle, acted, rest⟩
        exact induction rest (kept item state middle offered acted start)

/-- The loop ends when the state offers no more work. -/
theorem drain_done
    {rounds : Nat}
    {state final : State}
    (ran : drain endless next act rounds state = .ok final) :
    next final = none := by
  induction rounds generalizing state with
  | zero =>
      unfold drain at ran
      split at ran
      case isTrue empty =>
        cases ran
        exact Option.isNone_iff_eq_none.1 empty
      case isFalse => cases ran
  | succ rounds induction =>
      unfold drain at ran
      split at ran
      case h_1 empty =>
        cases ran
        exact empty
      case h_2 item offered =>
        rw [bind_eq_ok_iff] at ran
        rcases ran with ⟨middle, acted, rest⟩
        exact induction rest

/-- A loop with nothing to do does nothing. -/
theorem drain_idle
    {state : State}
    (nothing : next state = none)
    (rounds : Nat) :
    drain endless next act rounds state = .ok state := by
  cases rounds with
  | zero => simp [drain, nothing]
  | succ rounds => simp [drain, nothing]

/-- What every step keeps holds at the end of a fold. -/
theorem foldlM_invariant
    (invariant : State → Prop)
    {items : List Item}
    (kept : ∀ state item after,
      item ∈ items → step state item = .ok after →
        invariant state → invariant after)
    {state final : State}
    (ran : items.foldlM step state = .ok final)
    (start : invariant state) :
    invariant final := by
  induction items generalizing state with
  | nil =>
      cases ran
      exact start
  | cons head rest induction =>
      rw [List.foldlM_cons, bind_eq_ok_iff] at ran
      rcases ran with ⟨middle, stepped, rest⟩
      refine induction ?_ rest ?_
      · intro state item after member
        exact kept state item after (List.mem_cons_of_mem head member)
      · exact kept state head middle List.mem_cons_self stepped start

/-- A fold whose steps do nothing does nothing. -/
theorem foldlM_idle
    {items : List Item}
    {state : State}
    (idle : ∀ item ∈ items, step state item = .ok state) :
    items.foldlM step state = .ok state := by
  induction items with
  | nil => rfl
  | cons head rest induction =>
      rw [List.foldlM_cons, idle head List.mem_cons_self]
      exact induction fun item member =>
        idle item (List.mem_cons_of_mem head member)

/-- A condition on every item which the loop takes, in the state it is taken in. -/
def EachRound
    (allowed : State → Item → Prop)
    (next : State → Option Item)
    (act : Item → State → Except Error State) :
    Nat → State → Prop
  | 0, _ => True
  | rounds + 1, state =>
      ∀ item, next state = some item →
        allowed state item ∧
          ∀ after, act item state = .ok after →
            EachRound allowed next act rounds after

theorem eachRound_of_forall
    {allowed : State → Item → Prop}
    (always : ∀ state item, allowed state item)
    (rounds : Nat)
    (state : State) :
    EachRound allowed next act rounds state := by
  induction rounds generalizing state with
  | zero => trivial
  | succ rounds induction =>
      intro item _
      exact ⟨always state item, fun after _ => induction after⟩

/-- A condition on each item gives another, with what every action keeps. -/
theorem EachRound.imp
    {allowed implied : State → Item → Prop}
    (invariant : State → Prop)
    (kept : ∀ item state after,
      act item state = .ok after → invariant state → invariant after)
    (implies : ∀ state item,
      invariant state → allowed state item → implied state item)
    {rounds : Nat}
    {state : State}
    (start : invariant state)
    (each : EachRound allowed next act rounds state) :
    EachRound implied next act rounds state := by
  induction rounds generalizing state with
  | zero => trivial
  | succ rounds induction =>
      intro item offered
      rcases each item offered with ⟨fair, rest⟩
      exact ⟨implies state item start fair, fun after acted =>
        induction (kept item state after acted start) (rest after acted)⟩

/-- What every allowed action keeps holds at the end of the loop. -/
theorem drain_invariant_each
    {allowed : State → Item → Prop}
    (invariant : State → Prop)
    (kept : ∀ item state after,
      next state = some item → allowed state item →
        act item state = .ok after → invariant state → invariant after)
    {rounds : Nat}
    {state final : State}
    (each : EachRound allowed next act rounds state)
    (ran : drain endless next act rounds state = .ok final)
    (start : invariant state) :
    invariant final := by
  induction rounds generalizing state with
  | zero =>
      unfold drain at ran
      split at ran
      · cases ran
        exact start
      · cases ran
  | succ rounds induction =>
      unfold drain at ran
      split at ran
      · cases ran
        exact start
      case h_2 item offered =>
        rw [bind_eq_ok_iff] at ran
        rcases ran with ⟨middle, acted, ran⟩
        rcases each item offered with ⟨fair, rest⟩
        exact induction (rest middle acted) ran
          (kept item state middle offered fair acted start)

end Loop

/-! ## Computations which succeed -/

/-- A computation succeeds, with a value which has the property. -/
def Yields {Error Value : Type} (result : Except Error Value)
    (property : Value → Prop) : Prop :=
  ∃ value, result = .ok value ∧ property value

namespace Yields

variable {State Item Error Value Result : Type}

theorem ok
    {value : Value}
    {property : Value → Prop}
    (holds : property value) :
    Yields (.ok value : Except Error Value) property :=
  ⟨value, rfl, holds⟩

theorem of_eq
    {result : Except Error Value}
    {value : Value}
    {property : Value → Prop}
    (equal : result = .ok value)
    (holds : property value) :
    Yields result property :=
  ⟨value, equal, holds⟩

theorem mono
    {result : Except Error Value}
    {property weaker : Value → Prop}
    (yields : Yields result property)
    (implied : ∀ value, property value → weaker value) :
    Yields result weaker := by
  rcases yields with ⟨value, equal, holds⟩
  exact ⟨value, equal, implied value holds⟩

/-- The rest succeeds on whatever the first part returns. -/
theorem bind
    {first : Except Error Value}
    {next : Value → Except Error Result}
    {between : Value → Prop}
    {property : Result → Prop}
    (start : Yields first between)
    (rest : ∀ value, between value → Yields (next value) property) :
    Yields (first >>= next) property := by
  rcases start with ⟨value, equal, holds⟩
  rw [equal]
  exact rest value holds

/-- The first part returns a known value. -/
theorem step
    {first : Except Error Value}
    {next : Value → Except Error Result}
    {value : Value}
    {property : Result → Prop}
    (equal : first = .ok value)
    (rest : Yields (next value) property) :
    Yields (first >>= next) property := by
  rw [equal]
  exact rest

/-- Every step of a fold succeeds and keeps an invariant. -/
theorem foldlM
    {step : State → Item → Except Error State}
    (invariant : State → Prop)
    {items : List Item}
    (each : ∀ state, ∀ item ∈ items, invariant state →
      Yields (step state item) invariant)
    {state : State}
    (start : invariant state) :
    Yields (items.foldlM step state) invariant := by
  induction items generalizing state with
  | nil => exact .ok start
  | cons head rest induction =>
      rw [List.foldlM_cons]
      refine .bind (each state head List.mem_cons_self start) ?_
      intro middle held
      refine induction ?_ held
      exact fun state item member =>
        each state item (List.mem_cons_of_mem head member)

/-- A loop whose every round succeeds and leaves less to do ends. -/
theorem drain
    {endless : Error}
    {next : State → Option Item}
    {act : Item → State → Except Error State}
    (invariant : State → Prop)
    (left : State → Nat)
    (round : ∀ item state, next state = some item → invariant state →
      Yields (act item state) fun after =>
        invariant after ∧ left after < left state)
    {rounds : Nat}
    {state : State}
    (enough : left state ≤ rounds)
    (start : invariant state) :
    Yields (Foundation.drain endless next act rounds state) invariant := by
  induction rounds generalizing state with
  | zero =>
      cases offered : next state with
      | none => exact .of_eq (drain_idle offered 0) start
      | some item =>
          rcases round item state offered start with ⟨_, -, -, less⟩
          omega
  | succ rounds induction =>
      cases offered : next state with
      | none => exact .of_eq (drain_idle offered _) start
      | some item =>
          simp only [Foundation.drain, offered]
          refine .bind (round item state offered start) ?_
          intro after held
          exact induction (by omega) held.1

/-- A loop which has nothing more to do after one round. -/
theorem drain_once
    {endless : Error}
    {next : State → Option Item}
    {act : Item → State → Except Error State}
    {property : State → Prop}
    {item : Item}
    {state : State}
    (offered : next state = some item)
    (acts : Yields (act item state) fun after =>
      property after ∧ next after = none)
    (rounds : Nat) :
    Yields (Foundation.drain endless next act (rounds + 1) state)
      property := by
  simp only [Foundation.drain, offered]
  refine acts.bind ?_
  rintro after ⟨holds, nothing⟩
  exact .of_eq (drain_idle nothing rounds) holds

end Yields

end BMChain.Foundation
