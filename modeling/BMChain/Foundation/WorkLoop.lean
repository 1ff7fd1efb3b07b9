import BMChain.Foundation.GuardedFold
import Mathlib.Data.List.Nodup

/-!
# Loops over pending work

A loop which asks the state for the next item until there is none.  It is seen
without a bound on its rounds: the states it reaches, the items it takes until
it is done, and whether it comes to an end at all, be it by a failure.
-/

namespace BMChain.Foundation

variable {State Item Error : Type}

variable {final state : State} {items : List Item}
  {next : State → Option Item}
  {act : Item → State → Except Error State}

/-- The states before the rounds of a loop, and the last one. -/
inductive Reaches (next : State → Option Item)
    (act : Item → State → Except Error State) (start : State) : State → Prop
  | start : Reaches next act start start
  | round {state after : State} {item : Item} :
      Reaches next act start state → next state = some item →
        act item state = .ok after → Reaches next act start after

/-- The items which a loop takes until nothing is left. -/
inductive Takes (next : State → Option Item)
    (act : Item → State → Except Error State) :
    State → List Item → State → Prop
  | done {state : State} : next state = none → Takes next act state [] state
  | round {state middle final : State} {item : Item} {items : List Item} :
      next state = some item → act item state = .ok middle →
        Takes next act middle items final →
          Takes next act state (item :: items) final

/-- A loop comes to an end, with nothing left or by a failure. -/
inductive Halts (next : State → Option Item)
    (act : Item → State → Except Error State) : State → Prop
  | done {state : State} : next state = none → Halts next act state
  | failed {state : State} {item : Item} {error : Error} :
      next state = some item → act item state = .error error →
        Halts next act state
  | round {state after : State} {item : Item} :
      next state = some item → act item state = .ok after →
        Halts next act after → Halts next act state

section Invariant

variable
    (stays : State → Prop)
    (kept : ∀ item state after,
      next state = some item → act item state = .ok after →
        stays state → stays after)

include stays kept

/-- What the rounds keep holds in every state which is reached. -/
theorem Reaches.invariant
    {start state : State}
    (holds : stays start)
    (reached : Reaches next act start state) :
    stays state := by
  induction reached with
  | start => exact holds
  | round _ offered acted induction =>
      exact kept _ _ _ offered acted induction

/-- What the rounds keep holds when the loop is done. -/
theorem Takes.invariant
    (taken : Takes next act state items final)
    (holds : stays state) :
    stays final := by
  induction taken with
  | done => exact holds
  | round offered acted _ induction =>
      exact induction (kept _ _ _ offered acted holds)

end Invariant

theorem Takes.done_eq
    (taken : Takes next act state items final) :
    next final = none := by
  induction taken with
  | done nothing => exact nothing
  | round _ _ _ induction => exact induction

/-- A bounded loop which succeeds took its items one after another. -/
theorem takes_of_drain
    {endless : Error}
    {rounds : Nat}
    (ran : drain endless next act rounds state = .ok final) :
    ∃ items, Takes next act state items final := by
  induction rounds generalizing state with
  | zero =>
      unfold drain at ran
      split at ran
      case isTrue empty =>
        cases ran
        exact ⟨[], .done (Option.isNone_iff_eq_none.1 empty)⟩
      case isFalse => cases ran
  | succ rounds induction =>
      unfold drain at ran
      split at ran
      case h_1 empty =>
        cases ran
        exact ⟨[], .done empty⟩
      case h_2 item offered =>
        rw [bind_eq_ok_iff] at ran
        rcases ran with ⟨middle, acted, ran⟩
        rcases induction ran with ⟨items, taken⟩
        exact ⟨item :: items, .round offered acted taken⟩

/-- A loop whose every round leaves less to do comes to an end. -/
theorem halts_of_less
    (invariant : State → Prop)
    (left : State → Nat)
    (less : ∀ item state after,
      next state = some item → act item state = .ok after →
        invariant state → invariant after ∧ left after < left state)
    (holds : invariant state) :
    Halts next act state := by
  generalize bound : left state = amount
  induction amount using Nat.strongRecOn generalizing state with
  | ind amount induction =>
      cases offered : next state with
      | none => exact .done offered
      | some item =>
          cases acted : act item state with
          | error error => exact .failed offered acted
          | ok after =>
              rcases less item state after offered acted holds with
                ⟨held, fewer⟩
              rw [bound] at fewer
              exact .round offered acted (induction _ fewer held rfl)

/-- A loop which always finds more to do never comes to an end. -/
theorem not_halts_of_more
    (invariant : State → Prop)
    (more : ∀ state, invariant state → ∃ item after,
      next state = some item ∧ act item state = .ok after ∧ invariant after)
    (holds : invariant state) :
    ¬Halts next act state := by
  intro halts
  induction halts with
  | done nothing =>
      rcases more _ holds with ⟨item, after, offered, -⟩
      rw [nothing] at offered
      cases offered
  | failed offered failed =>
      rcases more _ holds with ⟨item, after, again, acted, -⟩
      rw [offered] at again
      cases again
      rw [failed] at acted
      cases acted
  | round offered acted _ induction =>
      rcases more _ holds with ⟨item, after, again, other, held⟩
      rw [offered] at again
      cases again
      rw [acted] at other
      cases other
      exact induction held

/-- A round takes its item off the pending ones, and touches no other. -/
def Settles (pending : State → Item → Prop) (item : Item)
    (before after : State) : Prop :=
  ∀ other, pending after other ↔ pending before other ∧ other ≠ item

/-- A loop whose rounds settle their items takes each pending one once. -/
theorem Takes.once
    (invariant : State → Prop)
    (pending : State → Item → Prop)
    (offers : ∀ state item,
      invariant state → next state = some item → pending state item)
    (idle : ∀ state item,
      invariant state → next state = none → ¬pending state item)
    (settles : ∀ item state after,
      next state = some item → act item state = .ok after →
        invariant state → invariant after ∧ Settles pending item state after)
    (taken : Takes next act state items final)
    (holds : invariant state) :
    items.Nodup ∧ ∀ item, item ∈ items ↔ pending state item := by
  induction taken with
  | done nothing =>
      refine ⟨List.nodup_nil, ?_⟩
      intro item
      exact iff_of_false List.not_mem_nil (idle _ item holds nothing)
  | @round state middle final item items offered acted _ induction =>
      rcases settles item state middle offered acted holds with
        ⟨held, settled⟩
      rcases induction held with ⟨once, others⟩
      have there := offers state item holds offered
      constructor
      · refine List.nodup_cons.2 ⟨?_, once⟩
        intro again
        exact ((settled item).1 ((others item).1 again)).2 rfl
      · intro other
        rw [List.mem_cons, others other, settled other]
        constructor
        · rintro (rfl | ⟨before, -⟩)
          · exact there
          · exact before
        · intro before
          by_cases same : other = item
          · exact .inl same
          · exact .inr ⟨before, same⟩

end BMChain.Foundation
