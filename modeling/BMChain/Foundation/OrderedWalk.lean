import Mathlib.Data.List.Nodup
import Mathlib.Logic.Function.Basic
import Mathlib.Order.Lattice

/-!
# Walks along an index whose keys change

A loop goes along an index in the order of its keys while the keys are due.
It takes the place which follows the row it stands on, and only then changes
that row, which moves the row to another place of the index.  A row which is
moved ahead of the loop and is still due is met again, so how often a row is
visited depends on what stands between its old place and its new one.
-/

namespace BMChain.Foundation

variable {Name Row Key Tag : Type} [DecidableEq Name] [LinearOrder Key]

/-! ## Places -/

/-- The name of a row whose key comes first of all. -/
def Leads (key : Row → Key) (rows : Name → Option Row) : Option Name → Prop
  | none => ∀ name, rows name = none
  | some name =>
      ∃ row, rows name = some row ∧
        ∀ other found, rows other = some found → key row ≤ key found

/-- The name of a row whose key comes first of those after a position. -/
def Follows (key : Row → Key) (rows : Name → Option Row) (position : Key) :
    Option Name → Prop
  | none => ∀ name row, rows name = some row → key row ≤ position
  | some name =>
      ∃ row, rows name = some row ∧ position < key row ∧
        ∀ other found, rows other = some found → position < key found →
          key row ≤ key found

/-- No two rows have the same tag. -/
def Tagged (tag : Row → Tag) (rows : Name → Option Row) : Prop :=
  ∀ first second row other, rows first = some row →
    rows second = some other → tag row = tag other → first = second

/-! ## Walks -/

/--
A walk from a place of the index: the names of the rows it visits and the rows
which it leaves.
-/
inductive Walk (key : Row → Key) (due : Key → Prop) (step : Row → Row) :
    Option Name → (Name → Option Row) → List Name →
      (Name → Option Row) → Prop
  | ended (rows : Name → Option Row) : Walk key due step none rows [] rows
  | later {name : Name} {rows : Name → Option Row} {row : Row} :
      rows name = some row → ¬ due (key row) →
        Walk key due step (some name) rows [] rows
  | visit {name : Name} {rows final : Name → Option Row} {row : Row}
      {following : Option Name} {visits : List Name} :
      rows name = some row → due (key row) →
        Follows key rows (key row) following →
          Walk key due step following
            (Function.update rows name (some (step row))) visits final →
            Walk key due step (some name) rows (name :: visits) final

namespace Walk

variable {key : Row → Key} {due : Key → Prop} {step : Row → Row}
    {rows final : Name → Option Row} {visits : List Name}

/-- What every visit keeps of the rows holds of those which are left. -/
theorem invariant
    (holds : Row → Prop)
    {current : Option Name}
    (walk : Walk key due step current rows visits final)
    (kept : ∀ row, due (key row) → holds row → holds (step row))
    (start : ∀ name row, rows name = some row → holds row) :
    ∀ name row, final name = some row → holds row := by
  induction walk with
  | ended => exact start
  | later => exact start
  | @visit name rows final row following visits found ready next rest
      induction =>
      apply induction
      intro other changed stored
      by_cases same : other = name
      · subst same
        rw [Function.update_self] at stored
        cases stored
        exact kept row ready (start other row found)
      · rw [Function.update_of_ne same] at stored
        exact start other changed stored

/-- A row which is not visited is left as it was. -/
theorem unvisited
    {current : Option Name}
    (walk : Walk key due step current rows visits final)
    {name : Name}
    (passed : name ∉ visits) :
    final name = rows name := by
  induction walk with
  | ended => rfl
  | later => rfl
  | @visit visited rows final row following visits found ready next rest
      induction =>
      rw [List.mem_cons, not_or] at passed
      rw [induction passed.2, Function.update_of_ne passed.1]

/-- A row which is visited once is changed once. -/
theorem visited_once
    {current : Option Name}
    (walk : Walk key due step current rows visits final)
    {name : Name}
    {row : Row}
    (found : rows name = some row)
    (once : visits.count name = 1) :
    final name = some (step row) := by
  induction walk with
  | ended => simp at once
  | later => simp at once
  | @visit visited rows final seen following visits stored ready next rest
      induction =>
      by_cases same : visited = name
      · subst same
        rw [List.count_cons_self, Nat.add_eq_right] at once
        rw [rest.unvisited (List.count_eq_zero.1 once), Function.update_self]
        rw [stored, Option.some.injEq] at found
        rw [found]
      · rw [List.count_cons_of_ne same] at once
        apply induction
        · rw [Function.update_of_ne (Ne.symm same)]
          exact found
        · exact once

/-! ## Rows which are met -/

section Met

variable {tag : Row → Tag}
    (tagKey : ∀ first second, key first = key second → tag first = tag second)
    (tagStep : ∀ row, tag (step row) = tag row)
    (early : ∀ first second, due second → first ≤ second → due first)

include tagStep in
/-- A visit keeps the tags apart. -/
theorem tagged_update
    (tagged : Tagged tag rows)
    {name : Name}
    {row : Row}
    (found : rows name = some row) :
    Tagged tag (Function.update rows name (some (step row))) := by
  have read : ∀ other changed,
      Function.update rows name (some (step row)) other = some changed →
        ∃ old, rows other = some old ∧ tag changed = tag old := by
    intro other changed stored
    by_cases same : other = name
    · subst same
      rw [Function.update_self] at stored
      cases stored
      exact ⟨row, found, tagStep row⟩
    · rw [Function.update_of_ne same] at stored
      exact ⟨changed, stored, rfl⟩
  intro first second changed other stored again same
  rcases read first changed stored with ⟨old, before, equal⟩
  rcases read second other again with ⟨older, earlier, equal'⟩
  apply tagged first second old older before earlier
  rw [← equal, ← equal', same]

include tagKey tagStep early

/-- A walk meets every due row which does not come before it. -/
theorem mem_visits
    {current name : Name}
    (walk : Walk key due step (some current) rows visits final)
    (tagged : Tagged tag rows)
    {row standing : Row}
    (stands : rows current = some standing)
    (found : rows name = some row)
    (ahead : key standing ≤ key row)
    (ready : due (key row)) :
    name ∈ visits := by
  generalize place : some current = position at walk
  induction walk generalizing current standing with
  | ended => cases place
  | later stored late =>
      cases place
      rw [stands, Option.some.injEq] at stored
      subst stored
      exact absurd (early _ _ ready ahead) late
  | @visit current rows final seen following visits stored isDue next rest
      induction =>
      cases place
      rw [stands, Option.some.injEq] at stored
      subst stored
      by_cases same : name = current
      · subst same
        exact List.mem_cons_self
      · apply List.mem_cons_of_mem
        have beyond : key standing < key row := by
          apply lt_of_le_of_ne ahead
          intro equal
          exact same (tagged name current row standing found stands
            (tagKey _ _ equal.symm))
        have kept : Function.update rows current (some (step standing)) name =
            some row := by
          rw [Function.update_of_ne same]
          exact found
        cases following with
        | none => exact absurd (next name row found) (not_le_of_gt beyond)
        | some other =>
            rcases next with ⟨head, listed, after, least⟩
            have apart : other ≠ current := by
              rintro rfl
              rw [stands, Option.some.injEq] at listed
              subst listed
              exact lt_irrefl _ after
            apply induction (tagged_update tagStep tagged stands) ?_ kept
              (least name row found beyond) rfl
            rw [Function.update_of_ne apart]
            exact listed

/--
A due row which a visit moves beyond another row, and which is then still due,
is visited again.
-/
theorem visited_again
    {current name other : Name}
    (walk : Walk key due step (some current) rows visits final)
    (tagged : Tagged tag rows)
    {row between standing : Row}
    (stands : rows current = some standing)
    (found : rows name = some row)
    (ahead : key standing ≤ key row)
    (stored : rows other = some between)
    (after : key row < key between)
    (before : key between < key (step row))
    (ready : due (key (step row))) :
    2 ≤ visits.count name := by
  have soon : due (key row) :=
    early _ _ ready (le_of_lt (lt_trans after before))
  generalize place : some current = position at walk
  induction walk generalizing current standing with
  | ended => cases place
  | later given late =>
      cases place
      rw [stands, Option.some.injEq] at given
      subst given
      exact absurd (early _ _ soon ahead) late
  | @visit current rows final seen following visits given isDue next rest
      induction =>
      cases place
      rw [stands, Option.some.injEq] at given
      subst given
      have marked := tagged_update tagStep tagged stands
      have away : other ≠ current := by
        rintro rfl
        rw [stands, Option.some.injEq] at stored
        subst stored
        exact absurd (lt_of_lt_of_le after ahead) (lt_irrefl _)
      have reached : key standing < key between :=
        lt_of_le_of_lt ahead after
      cases following with
      | none => exact absurd (next other between stored) (not_le_of_gt reached)
      | some head =>
          rcases next with ⟨first, listed, further, least⟩
          have apart : head ≠ current := by
            rintro rfl
            rw [stands, Option.some.injEq] at listed
            subst listed
            exact lt_irrefl _ further
          have waiting :
              Function.update rows current (some (step standing)) head =
                some first := by
            rw [Function.update_of_ne apart]
            exact listed
          by_cases same : name = current
          · subst same
            rw [stands, Option.some.injEq] at found
            subst found
            rw [List.count_cons_self]
            apply Nat.succ_le_succ
            apply List.one_le_count_iff.2
            exact rest.mem_visits tagKey tagStep early marked waiting
              (Function.update_self _ _ _)
              (le_of_lt (lt_of_le_of_lt
                (least other between stored reached) before)) ready
          · have beyond : key standing < key row := by
              apply lt_of_le_of_ne ahead
              intro equal
              exact same (tagged name current row standing found stands
                (tagKey _ _ equal.symm))
            rw [List.count_cons_of_ne (Ne.symm same)]
            apply induction marked waiting ?_ (least name row found beyond)
              ?_ rfl
            · rw [Function.update_of_ne same]
              exact found
            · rw [Function.update_of_ne away]
              exact stored

/-! ## Rows which are met once -/

/--
No row is visited twice when no row stands between the place of a due row and
the place to which its visit moves it, as far as it is still due there.
-/
theorem visited_at_most_once
    {start : Name → Option Row}
    {current : Name}
    (walk : Walk key due step (some current) rows visits final)
    (tagged : Tagged tag start)
    (clear : ∀ name row, start name = some row → due (key row) →
      due (key (step row)) → ∀ other between, start other = some between →
        ¬ (key row < key between ∧ key between < key (step row)))
    {standing : Row}
    (stands : rows current = some standing)
    {done : List Name}
    (old : ∀ name, name ∉ done → rows name = start name)
    (fresh : ∀ name ∉ done, ∀ row, start name = some row → due (key row) →
      key standing ≤ key row)
    (past : ∀ name ∈ done, ∃ row, start name = some row ∧
      rows name = some (step row) ∧
        (due (key (step row)) → key (step row) < key standing)) :
    visits.Nodup ∧ ∀ name ∈ visits, name ∉ done := by
  generalize place : some current = position at walk
  induction walk generalizing current standing done with
  | ended => cases place
  | later => exact ⟨List.nodup_nil, fun _ listed => nomatch listed⟩
  | @visit current rows final seen following visits given isDue next rest
      induction =>
      cases place
      rw [stands, Option.some.injEq] at given
      subst given
      -- a visited row is not due or behind, so the walk stands on a new one
      have new : current ∉ done := by
        intro already
        rcases past current already with ⟨row, -, moved, behind⟩
        rw [stands, Option.some.injEq] at moved
        subst moved
        exact lt_irrefl _ (behind isDue)
      have source : start current = some standing := by
        rw [← old current new, stands]
      cases following with
      | none =>
          cases rest with
          | ended =>
              refine ⟨List.nodup_singleton current, ?_⟩
              intro name listed
              rw [List.mem_singleton] at listed
              subst listed
              exact new
      | some head =>
          rcases next with ⟨first, listed, further, least⟩
          have apart : head ≠ current := by
            rintro rfl
            rw [stands, Option.some.injEq] at listed
            subst listed
            exact lt_irrefl _ further
          have waiting :
              Function.update rows current (some (step standing)) head =
                some first := by
            rw [Function.update_of_ne apart]
            exact listed
          have ends := @induction head first waiting (current :: done)
            ?_ ?_ ?_ rfl
          · refine ⟨List.nodup_cons.2 ⟨fun again => ?_, ends.1⟩, ?_⟩
            · exact ends.2 current again List.mem_cons_self
            · intro name member
              rcases List.mem_cons.1 member with rfl | member
              · exact new
              · exact fun already => ends.2 name member
                  (List.mem_cons_of_mem current already)
          · intro name outside
            rw [List.mem_cons, not_or] at outside
            rw [Function.update_of_ne outside.1]
            exact old name outside.2
          · intro name outside row found ready
            rw [List.mem_cons, not_or] at outside
            have stored : rows name = some row := by
              rw [old name outside.2, found]
            apply least name row stored
            apply lt_of_le_of_ne (fresh name outside.2 row found ready)
            intro equal
            exact outside.1 (tagged name current row standing found source
              (tagKey _ _ equal.symm))
          · intro name inside
            rcases List.mem_cons.1 inside with rfl | earlier
            · refine ⟨standing, source, Function.update_self _ _ _, ?_⟩
              intro ready
              by_contra beyond
              rw [not_lt] at beyond
              have headDue : due (key first) := early _ _ ready beyond
              by_cases visited : head ∈ done
              · rcases past head visited with ⟨row, -, moved, behind⟩
                rw [listed, Option.some.injEq] at moved
                subst moved
                exact lt_irrefl _ (lt_trans (behind headDue) further)
              · have origin : start head = some first := by
                  rw [← old head visited, listed]
                refine clear name standing source isDue ready head first
                  origin ⟨further, lt_of_le_of_ne beyond fun equal => ?_⟩
                apply apart
                apply tagged head name first standing origin source
                rw [tagKey _ _ equal, tagStep]
            · rcases past name earlier with ⟨row, found, moved, behind⟩
              refine ⟨row, found, ?_, fun ready =>
                lt_trans (behind ready) further⟩
              rw [Function.update_of_ne, moved]
              rintro rfl
              exact new earlier

/--
A walk along the whole index visits every due row once, and does with it what
is wanted, exactly when one visit does what is wanted and no row stands
between the old place of a due row and its new one, as far as it is still due.
-/
theorem once_iff
    {first : Option Name}
    (walk : Walk key due step first rows visits final)
    (leads : Leads key rows first)
    (tagged : Tagged tag rows)
    (wanted : Row → Row → Prop) :
    (∀ name row, rows name = some row → due (key row) →
      visits.count name = 1 ∧
        ∃ left, final name = some left ∧ wanted row left) ↔
    ∀ name row, rows name = some row → due (key row) →
      wanted row (step row) ∧
        (due (key (step row)) → ∀ other between, rows other = some between →
          ¬ (key row < key between ∧ key between < key (step row))) := by
  constructor
  case mp =>
    intro met name row found ready
    rcases met name row found ready with ⟨once, left, stored, meets⟩
    rw [walk.visited_once found once, Option.some.injEq] at stored
    subst stored
    refine ⟨meets, fun still other between listed both => ?_⟩
    cases first with
    | none => exact absurd found (by simp [leads name])
    | some current =>
        rcases leads with ⟨standing, stands, least⟩
        have twice := walk.visited_again tagKey tagStep early tagged stands
          found (least name row found) listed both.1 both.2 still
        rw [once] at twice
        exact absurd twice (by decide)
  case mpr =>
    intro meets name row found ready
    cases first with
    | none => exact absurd found (by simp [leads name])
    | some current =>
        rcases leads with ⟨standing, stands, least⟩
        have listed := walk.mem_visits tagKey tagStep early tagged stands
          found (least name row found) ready
        have single := (walk.visited_at_most_once tagKey tagStep early
          tagged (fun name row found ready =>
            (meets name row found ready).2)
          stands (fun _ _ => rfl)
          (fun name _ row found _ => least name row found)
          (fun _ member => absurd member List.not_mem_nil)).1
        have once : visits.count name = 1 :=
          List.count_eq_one_of_mem single listed
        exact ⟨once, step row, walk.visited_once found once,
          (meets name row found ready).1⟩

end Met

end Walk

end BMChain.Foundation
