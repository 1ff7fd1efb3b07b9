import BMChain.Foundation.OrderedWalk
import Mathlib.Data.Finset.Max
import Mathlib.Data.Fintype.Basic

/-!
# Walks which go on from the new place

A loop goes along an index in the order of its keys while the keys are due.
It changes the row on which it stands, which moves the row back to an earlier
place of the index, and goes on with the row which follows this new place.
Such a walk meets a row again when it has been moved beyond a later one, so it
meets every due row once only when the moved rows stay in order.
-/

namespace BMChain.Foundation

variable {Name Row Key : Type} [LinearOrder Key]

variable {current following : Option Name} {names : Finset Name} {name : Name}
    {other : Row}

/-! ## Places -/

/-- A finite index has a place after every position. -/
theorem exists_follows
    (key : Row → Key)
    {rows : Name → Option Row}
    (listed : ∀ name row, rows name = some row → name ∈ names)
    (position : Key) :
    ∃ following, Follows key rows position following := by
  classical
  by_cases ahead : ∃ name row, rows name = some row ∧ position < key row
  case neg =>
    refine ⟨none, fun name row found => ?_⟩
    exact not_lt.1 fun beyond => ahead ⟨name, row, found, beyond⟩
  case pos =>
    -- the least key among the rows which are ahead
    let later := names.filter fun name =>
      ∃ row, rows name = some row ∧ position < key row
    have some : later.Nonempty := by
      rcases ahead with ⟨name, row, found, beyond⟩
      exact ⟨name, Finset.mem_filter.2
        ⟨listed name row found, row, found, beyond⟩⟩
    let keyOf : Name → WithTop Key := fun name =>
      ((rows name).map fun row => (key row : WithTop Key)).getD ⊤
    rcases later.exists_min_image keyOf some with ⟨name, member, least⟩
    rcases (Finset.mem_filter.1 member).2 with ⟨row, found, beyond⟩
    refine ⟨Option.some name, row, found, beyond, ?_⟩
    intro other row' found' beyond'
    have bound := least other (Finset.mem_filter.2
      ⟨listed other row' found', row', found', beyond'⟩)
    simp only [keyOf, found, found', Option.map_some, Option.getD_some]
      at bound
    exact WithTop.coe_le_coe.1 bound

/-- Rows with places of their own leave one place to follow a position. -/
theorem Follows.unique
    {key : Row → Key}
    {rows : Name → Option Row}
    {position : Key}
    {following other : Option Name}
    (own : ∀ first second row row', rows first = some row →
      rows second = some row' → key row = key row' → first = second)
    (one : Follows key rows position following)
    (two : Follows key rows position other) :
    following = other := by
  cases following with
  | none =>
      cases other with
      | none => rfl
      | some second =>
          rcases two with ⟨row, found, beyond, -⟩
          exact absurd beyond (not_lt_of_ge (one second row found))
  | some first =>
      rcases one with ⟨row, found, beyond, least⟩
      cases other with
      | none => exact absurd beyond (not_lt_of_ge (two first row found))
      | some second =>
          rcases two with ⟨row', found', beyond', least'⟩
          have same : key row = key row' :=
            le_antisymm (least second row' found' beyond')
              (least' first row found beyond)
          exact congrArg some (own first second row row' found found' same)

/-! ## Walks -/

variable [DecidableEq Name]

/--
A walk which changes the row it stands on and goes on from its new place: the
names of the rows it visits and the rows which it leaves.
-/
inductive OnwardWalk (key : Row → Key) (due : Key → Prop)
    (step : Row → Option Row) :
    Option Name → (Name → Option Row) → List Name →
      (Name → Option Row) → Prop
  | ended (rows : Name → Option Row) :
      OnwardWalk key due step none rows [] rows
  | later {name : Name} {rows : Name → Option Row} {row : Row} :
      rows name = some row → ¬due (key row) →
        OnwardWalk key due step (some name) rows [] rows
  | visit {name : Name} {rows final : Name → Option Row} {row moved : Row}
      {following : Option Name} {visits : List Name} :
      rows name = some row → due (key row) → step row = some moved →
        Follows key (Function.update rows name (some moved)) (key moved)
            following →
          OnwardWalk key due step following
              (Function.update rows name (some moved)) visits final →
            OnwardWalk key due step (some name) rows (name :: visits) final

namespace OnwardWalk

variable {key : Row → Key} {due : Key → Prop} {step : Row → Option Row}
    {rows final : Name → Option Row} {visits : List Name}

/-- A row which is not visited is left as it was. -/
theorem unvisited
    (walk : OnwardWalk key due step current rows visits final)
    (passed : name ∉ visits) :
    final name = rows name := by
  induction walk with
  | ended => rfl
  | later => rfl
  | visit found ready changed next rest induction =>
      rw [List.mem_cons, not_or] at passed
      rw [induction passed.2, Function.update_of_ne passed.1]

/-- A row which is visited once is changed once. -/
theorem visited_once
    (walk : OnwardWalk key due step current rows visits final)
    (single : visits.Nodup)
    (visited : name ∈ visits) :
    final name = (rows name).bind step := by
  induction walk with
  | ended => cases visited
  | later => cases visited
  | @visit current rows final row moved following visits found ready changed
      next rest induction =>
      rw [List.nodup_cons] at single
      by_cases same : name = current
      · subst same
        rw [rest.unvisited single.1, Function.update_self, found,
          Option.bind_some, changed]
      · have member : name ∈ visits :=
          (List.mem_cons.1 visited).resolve_left same
        rw [induction single.2 member, Function.update_of_ne same]

end OnwardWalk

/-! ## Rows which stay in order -/

/-- A row of an index, and the row to which a visit changes it. -/
def Moves (step : Row → Option Row) (rows : Name → Option Row) (name : Name)
    (row moved : Row) : Prop :=
  rows name = some row ∧ step row = some moved

/--
A row is moved in its turn: it stays behind the rows which are visited before
it.  The last one may be moved before others when the first of these is no
longer due.
-/
structure TakesTurn (key : Row → Key) (due : Key → Prop)
    (step : Row → Option Row) (rows : Name → Option Row) (name : Name) :
    Prop where
  changes : ∀ row, rows name = some row → ∃ moved, step row = some moved
  keeps : ∀ first row row' moved moved',
    Moves step rows first row moved → Moves step rows name row' moved' →
      key row < key row' →
        (∃ third after, rows third = some after ∧ key row' < key after) →
          key moved < key moved'
  ends : ∀ first row row' moved moved',
    Moves step rows first row moved → Moves step rows name row' moved' →
      (∀ other after, rows other = some after → key after ≤ key row') →
        key moved' < key moved →
          ∃ other after later, Moves step rows other after later ∧
            key moved' < key later ∧ ¬due (key later)

/-- The rows have keys of their own, and visits move them back. -/
structure Rekeyed (nameOf : Row → Name) (key : Row → Key) (due : Key → Prop)
    (step : Row → Option Row) (rows : Name → Option Row) : Prop where
  named : ∀ name row, rows name = some row → nameOf row = name
  kept : ∀ row moved, step row = some moved → nameOf moved = nameOf row
  own : ∀ first second, key first = key second → nameOf first = nameOf second
  late : ∀ first second, due first → first ≤ second → due second
  back : ∀ name row moved, Moves step rows name row moved →
    due (key row) → key moved < key row

/-- The rows while some of the names are still waiting. -/
def Halfway (step : Row → Option Row) (rows : Name → Option Row)
    (waiting : Finset Name) : Name → Option Row :=
  fun name => if name ∈ waiting then rows name else (rows name).bind step

/-- The walk stands on the first of the names which are waiting. -/
structure Frontier (key : Row → Key) (due : Key → Prop)
    (rows : Name → Option Row) (waiting : Finset Name) (current : Name) :
    Prop where
  present : ∀ name ∈ waiting, ∃ row, rows name = some row
  ready : ∀ name row, rows name = some row → due (key row)
  ahead : ∀ name row row', name ∈ waiting → rows current = some row →
    rows name = some row' → key row ≤ key row'
  behind : ∀ name other row row', name ∉ waiting → other ∈ waiting →
    rows name = some row → rows other = some row' → key row < key row'

section Turns

variable {nameOf : Row → Name} {key : Row → Key} {due : Key → Prop}
  {step : Row → Option Row} {rows final : Name → Option Row}
  {waiting : Finset Name} {current : Name} {row moved : Row}
  {visits : List Name}

theorem halfway_of_mem
    (member : name ∈ waiting) :
    Halfway step rows waiting name = rows name :=
  if_pos member

theorem halfway_of_notMem
    (passed : name ∉ waiting) :
    Halfway step rows waiting name = (rows name).bind step :=
  if_neg passed

theorem halfway_of_moves
    (passed : name ∉ waiting)
    (moves : Moves step rows name row moved) :
    Halfway step rows waiting name = some moved := by
  rw [halfway_of_notMem passed, moves.1, Option.bind_some, moves.2]

theorem moves_of_halfway
    (passed : name ∉ waiting)
    (found : Halfway step rows waiting name = some moved) :
    ∃ row, Moves step rows name row moved := by
  rw [halfway_of_notMem passed, Option.bind_eq_some_iff] at found
  exact found

theorem halfway_visit
    (moves : Moves step rows current row moved) :
    Function.update (Halfway step rows waiting) current (some moved) =
      Halfway step rows (waiting.erase current) := by
  funext name
  by_cases same : name = current
  · subst same
    rw [Function.update_self]
    exact (halfway_of_moves (Finset.notMem_erase _ _) moves).symm
  · rw [Function.update_of_ne same, Halfway, Halfway]
    simp only [Finset.mem_erase, ne_eq, same, not_false_eq_true, true_and]

omit [DecidableEq Name] in
theorem Moves.unique
    {row' moved' : Row}
    (moves : Moves step rows current row moved)
    (again : Moves step rows current row' moved') :
    row = row' ∧ moved = moved' := by
  have same : row = row' := Option.some.inj (moves.1.symm.trans again.1)
  subst same
  exact ⟨rfl, Option.some.inj (moves.2.symm.trans again.2)⟩

omit [DecidableEq Name] in
/-- Rows with one key have one name. -/
theorem Rekeyed.name_eq
    (rekeyed : Rekeyed nameOf key due step rows)
    (found : rows current = some row)
    (listed : rows name = some other)
    (same : key row = key other) :
    current = name := by
  rw [← rekeyed.named current row found, ← rekeyed.named name other listed]
  exact rekeyed.own _ _ same

theorem Frontier.beyond
    (rekeyed : Rekeyed nameOf key due step rows)
    (frontier : Frontier key due rows waiting current)
    (found : rows current = some row)
    (member : name ∈ waiting.erase current)
    (listed : rows name = some other) :
    key row < key other := by
  rw [Finset.mem_erase] at member
  refine lt_of_le_of_ne
    (frontier.ahead name row other member.2 found listed) fun same => ?_
  exact member.1 (rekeyed.name_eq found listed same).symm

/-- The walk goes on to the first of the names which are still waiting. -/
theorem Frontier.next
    (rekeyed : Rekeyed nameOf key due step rows)
    (frontier : Frontier key due rows waiting current)
    (moves : Moves step rows current row moved)
    {head : Name}
    (follows : Follows key (Halfway step rows (waiting.erase current))
      (key moved) (some head))
    (member : head ∈ waiting.erase current) :
    Frontier key due rows (waiting.erase current) head := by
  rcases follows with ⟨first, listed, -, least⟩
  rw [halfway_of_mem member] at listed
  have back := rekeyed.back current row moved moves
    (frontier.ready current row moves.1)
  constructor
  case present =>
    exact fun name waits => frontier.present name (Finset.mem_of_mem_erase waits)
  case ready => exact frontier.ready
  case ahead =>
    intro name row' row'' waits found there
    rw [listed, Option.some.injEq] at found
    subst found
    apply least name row''
    · rw [halfway_of_mem waits]
      exact there
    · exact back.trans (frontier.beyond rekeyed moves.1 waits there)
  case behind =>
    intro name other row' row'' passed waits found there
    by_cases same : name = current
    · subst same
      rw [moves.1, Option.some.injEq] at found
      subst found
      exact frontier.beyond rekeyed moves.1 waits there
    · have outside : name ∉ waiting := fun listed =>
        passed (Finset.mem_erase.2 ⟨same, listed⟩)
      exact frontier.behind name other row' row'' outside
        (Finset.mem_of_mem_erase waits) found there

/-- Only the last name of a walk is visited when no row follows the place. -/
theorem Frontier.last
    (frontier : Frontier key due rows waiting current)
    (inside : current ∈ waiting)
    (found : rows current = some row)
    (alone : waiting.erase current = ∅) :
    ∀ name other, rows name = some other → key other ≤ key row := by
  intro name other listed
  by_cases same : name = current
  · subst same
    rw [found, Option.some.injEq] at listed
    exact le_of_eq (congrArg key listed.symm)
  · have outside : name ∉ waiting := by
      intro waits
      have member := Finset.mem_erase.2 ⟨same, waits⟩
      rw [alone] at member
      exact absurd member (Finset.notMem_empty name)
    exact le_of_lt
      (frontier.behind name current other row outside inside listed found)

/-- Once a name is visited, the walk goes on with the others or ends. -/
theorem OnwardWalk.goes_on
    {places : Name → Option Row}
    (walk : OnwardWalk key due step following places visits final)
    (visited : name ∈ visits) :
    ∃ head, following = some head ∧ head ∈ visits := by
  cases walk with
  | ended => cases visited
  | later => cases visited
  | @visit head => exact ⟨head, rfl, List.mem_cons_self⟩

section Visit

variable
    (rekeyed : Rekeyed nameOf key due step rows)
    (frontier : Frontier key due rows waiting current)
    (inside : current ∈ waiting)
    (moves : Moves step rows current row moved)
    (follows : Follows key (Halfway step rows (waiting.erase current))
      (key moved) following)

include rekeyed frontier inside moves follows

/-- A visit in a walk which meets no row twice is in its turn. -/
theorem takesTurn_of_visit
    (walk : OnwardWalk key due step following
      (Halfway step rows (waiting.erase current)) visits final)
    (visited : ∀ name, name ∈ visits ↔ name ∈ waiting.erase current) :
    TakesTurn key due step rows current := by
  constructor
  case changes =>
    intro other found
    rw [moves.1, Option.some.injEq] at found
    subst found
    exact ⟨moved, moves.2⟩
  case keeps =>
    rintro first earlier standing gone left changes again before
      ⟨third, after, listed, beyond⟩
    rcases moves.unique again with ⟨rfl, rfl⟩
    have different : first ≠ current := by
      rintro rfl
      exact absurd before (by rw [(moves.unique changes).1]; exact lt_irrefl _)
    -- the third row still waits, so the walk goes on to one which waits
    have waits : third ∈ waiting.erase current := by
      rw [Finset.mem_erase]
      constructor
      · rintro rfl
        rw [moves.1, Option.some.injEq] at listed
        subst listed
        exact lt_irrefl _ beyond
      · by_contra outside
        exact lt_asymm beyond (frontier.behind third current after row outside
          inside listed moves.1)
    rcases walk.goes_on ((visited third).2 waits) with ⟨head, rfl, member⟩
    have stays := (visited head).1 member
    rcases follows with ⟨next, there, -, least⟩
    rw [halfway_of_mem stays] at there
    have further := frontier.beyond rekeyed moves.1 stays there
    have outside : first ∉ waiting := fun member =>
      absurd before
        (not_lt_of_ge (frontier.ahead first row earlier member moves.1
          changes.1))
    by_contra behind
    have above : key moved < key gone := by
      refine lt_of_le_of_ne (not_lt.1 behind) fun same => different ?_
      have names := rekeyed.own _ _ same
      rw [rekeyed.kept _ _ moves.2, rekeyed.kept _ _ changes.2,
        rekeyed.named _ _ moves.1, rekeyed.named _ _ changes.1] at names
      exact names.symm
    have passed : first ∉ waiting.erase current := fun member =>
      outside (Finset.mem_of_mem_erase member)
    have reached := least first gone (halfway_of_moves passed changes) above
    have back := rekeyed.back first earlier gone changes
      (frontier.ready first earlier changes.1)
    exact absurd (further.trans_le (reached.trans back.le))
      (lt_asymm before)
  case ends =>
    intro first earlier standing gone left changes again last above
    rcases moves.unique again with ⟨rfl, rfl⟩
    have alone : waiting.erase current = ∅ := by
      rw [Finset.eq_empty_iff_forall_notMem]
      intro name waits
      rcases frontier.present name (Finset.mem_of_mem_erase waits) with
        ⟨other, listed⟩
      exact absurd (frontier.beyond rekeyed moves.1 waits listed)
        (not_lt_of_ge (last name other listed))
    have none : visits = [] := by
      rw [List.eq_nil_iff_forall_not_mem]
      intro name member
      have waits := (visited name).1 member
      rw [alone] at waits
      exact absurd waits (Finset.notMem_empty name)
    have outside : ∀ name, name ∉ waiting.erase current := by
      rw [alone]
      exact Finset.notMem_empty
    cases following with
    | none =>
        exact absurd above (not_lt_of_ge (follows first gone
          (halfway_of_moves (outside first) changes)))
    | some head =>
        rcases follows with ⟨next, there, beyond, -⟩
        rcases moves_of_halfway (outside head) there with ⟨source, shifts⟩
        refine ⟨head, source, next, shifts, beyond, ?_⟩
        rw [none] at walk
        cases walk with
        | later found late =>
            rw [there, Option.some.injEq] at found
            rw [found]
            exact late

/-- A row which takes its turn is followed by one which still waits. -/
theorem TakesTurn.follows_waiting
    (turn : TakesTurn key due step rows current)
    {third : Name}
    (waits : third ∈ waiting.erase current) :
    ∃ head, following = some head ∧ head ∈ waiting.erase current := by
  rcases frontier.present third (Finset.mem_of_mem_erase waits) with
    ⟨after, listed⟩
  have beyond := frontier.beyond rekeyed moves.1 waits listed
  have back := rekeyed.back current row moved moves
    (frontier.ready current row moves.1)
  cases following with
  | none =>
      have bound := follows third after
        (by rw [halfway_of_mem waits]; exact listed)
      exact absurd (back.trans beyond) (not_lt_of_ge bound)
  | some head =>
      refine ⟨head, rfl, ?_⟩
      by_contra passed
      rcases follows with ⟨next, there, above, -⟩
      rcases moves_of_halfway passed there with ⟨source, shifts⟩
      by_cases same : head = current
      · subst same
        rw [(shifts.unique moves).2] at above
        exact lt_irrefl _ above
      · have outside : head ∉ waiting := fun member =>
          passed (Finset.mem_erase.2 ⟨same, member⟩)
        have before := frontier.behind head current source row outside inside
          shifts.1 moves.1
        exact lt_asymm above (turn.keeps head source row next moved shifts
          moves before ⟨third, after, listed, beyond⟩)

/-- After the last row which takes its turn the walk ends. -/
theorem TakesTurn.ends_walk
    (turn : TakesTurn key due step rows current)
    (alone : waiting.erase current = ∅) :
    OnwardWalk key due step following
      (Halfway step rows (waiting.erase current)) []
      (Halfway step rows (waiting.erase current)) := by
  have outside : ∀ name, name ∉ waiting.erase current := by
    rw [alone]
    exact Finset.notMem_empty
  cases following with
  | none => exact .ended _
  | some head =>
      rcases follows with ⟨next, there, above, least⟩
      rcases moves_of_halfway (outside head) there with ⟨source, shifts⟩
      have last := frontier.last inside moves.1 alone
      rcases turn.ends head source row next moved shifts moves last above with
        ⟨other, after, late, changes, beyond, never⟩
      refine .later there fun ready => never ?_
      exact rekeyed.late _ _ ready
        (least other late (halfway_of_moves (outside other) changes) beyond)

end Visit

/-- In a walk which meets every row once, all rows take their turns. -/
theorem takesTurn_of_walk
    {places : Name → Option Row}
    {position : Option Name}
    (rekeyed : Rekeyed nameOf key due step rows)
    (walk : OnwardWalk key due step position places visits final)
    (standing : position = some current)
    (halfway : places = Halfway step rows waiting)
    (frontier : Frontier key due rows waiting current)
    (single : visits.Nodup)
    (visited : ∀ name, name ∈ visits ↔ name ∈ waiting) :
    ∀ name ∈ waiting, TakesTurn key due step rows name := by
  induction walk generalizing waiting current with
  | ended => cases standing
  | later =>
      intro name waits
      exact absurd ((visited name).2 waits) List.not_mem_nil
  | @visit place places final row moved following visits found ready changed
      next rest induction =>
      cases standing
      subst halfway
      rw [List.nodup_cons] at single
      have inside : place ∈ waiting := (visited place).1 List.mem_cons_self
      rw [halfway_of_mem inside] at found
      have moves : Moves step rows place row moved := ⟨found, changed⟩
      rw [halfway_visit moves] at next rest
      have others : ∀ name, name ∈ visits ↔ name ∈ waiting.erase place := by
        intro name
        rw [Finset.mem_erase, ← visited name, List.mem_cons]
        constructor
        · intro member
          refine ⟨?_, .inr member⟩
          rintro rfl
          exact single.1 member
        · rintro ⟨different, member⟩
          exact member.resolve_left different
      intro name waits
      by_cases same : name = place
      · subst same
        exact takesTurn_of_visit rekeyed frontier inside moves next rest others
      · have member := Finset.mem_erase.2 ⟨same, waits⟩
        rcases rest.goes_on ((others name).2 member) with ⟨head, rfl, stays⟩
        exact induction rfl (halfway_visit moves)
          (frontier.next rekeyed moves next ((others head).1 stays)) single.2
          others name member

/-- When all rows take their turns, a walk meets every row once. -/
theorem exists_walk_of_takesTurn
    (rekeyed : Rekeyed nameOf key due step rows)
    (listed : ∀ name row, rows name = some row → name ∈ names)
    (turns : ∀ name, TakesTurn key due step rows name)
    (frontier : Frontier key due rows waiting current)
    (inside : current ∈ waiting) :
    ∃ visits final,
      OnwardWalk key due step (some current) (Halfway step rows waiting)
          visits final ∧
        visits.Nodup ∧ ∀ name, name ∈ visits ↔ name ∈ waiting := by
  induction size : waiting.card generalizing waiting current with
  | zero =>
      rw [Finset.card_eq_zero] at size
      rw [size] at inside
      exact absurd inside (Finset.notMem_empty current)
  | succ count induction =>
      rcases frontier.present current inside with ⟨row, found⟩
      rcases (turns current).changes row found with ⟨moved, changed⟩
      have moves : Moves step rows current row moved := ⟨found, changed⟩
      have there : Halfway step rows waiting current = some row := by
        rw [halfway_of_mem inside, found]
      have known : ∀ name other,
          Halfway step rows (waiting.erase current) name = some other →
            name ∈ names := by
        intro name other stored
        by_cases waits : name ∈ waiting.erase current
        · rw [halfway_of_mem waits] at stored
          exact listed name other stored
        · rcases moves_of_halfway waits stored with ⟨source, shifts⟩
          exact listed name source shifts.1
      rcases exists_follows key known (key moved) with ⟨following, follows⟩
      have goes : ∀ visits final,
          OnwardWalk key due step following
              (Halfway step rows (waiting.erase current)) visits final →
            visits.Nodup →
              (∀ name, name ∈ visits ↔ name ∈ waiting.erase current) →
                ∃ visits final,
                  OnwardWalk key due step (some current)
                      (Halfway step rows waiting) visits final ∧
                    visits.Nodup ∧ ∀ name, name ∈ visits ↔ name ∈ waiting := by
        intro visits final walk single visited
        refine ⟨current :: visits, final, ?_, ?_, ?_⟩
        · rw [← halfway_visit moves] at follows walk
          exact .visit there (frontier.ready current row found) changed follows
            walk
        · refine List.nodup_cons.2 ⟨fun again => ?_, single⟩
          exact Finset.notMem_erase _ _ ((visited current).1 again)
        · intro name
          rw [List.mem_cons, visited name, ← Finset.mem_insert,
            Finset.insert_erase inside]
      rcases (waiting.erase current).eq_empty_or_nonempty with
        alone | ⟨third, waits⟩
      · refine goes [] _ ((turns current).ends_walk rekeyed frontier inside
          moves follows alone) List.nodup_nil fun name => ?_
        rw [alone]
        exact iff_of_false List.not_mem_nil (Finset.notMem_empty name)
      · rcases (turns current).follows_waiting rekeyed frontier inside moves
          follows waits with ⟨head, rfl, member⟩
        have fewer : (waiting.erase current).card = count := by
          rw [Finset.card_erase_of_mem inside, size]
          exact Nat.add_sub_cancel _ _
        rcases induction (frontier.next rekeyed moves follows member) member
          fewer with ⟨visits, final, walk, single, visited⟩
        exact goes visits final walk single visited

omit [DecidableEq Name] in
/-- The walk starts with all names waiting. -/
theorem Frontier.of_leads
    (ready : ∀ name row, rows name = some row → due (key row))
    (listed : ∀ name, name ∈ names ↔ ∃ row, rows name = some row)
    (leads : Leads key rows (some current)) :
    Frontier key due rows names current := by
  rcases leads with ⟨standing, stands, least⟩
  constructor
  case present => exact fun name member => (listed name).1 member
  case ready => exact ready
  case ahead =>
    intro name row row' _ found there
    rw [stands, Option.some.injEq] at found
    subst found
    exact least name row' there
  case behind =>
    intro name other row row' passed _ found _
    exact absurd ((listed name).2 ⟨row, found⟩) passed

/--
A walk along a whole index which is due meets every row once exactly when all
rows take their turns.
-/
theorem visits_once_iff
    (rekeyed : Rekeyed nameOf key due step rows)
    (ready : ∀ name row, rows name = some row → due (key row))
    (listed : ∀ name, name ∈ names ↔ ∃ row, rows name = some row)
    (leads : Leads key rows (some current)) :
    (∃ visits final,
      OnwardWalk key due step (some current) rows visits final ∧
        visits.Nodup ∧
          ∀ name, name ∈ visits ↔ ∃ row, rows name = some row) ↔
      ∀ name, TakesTurn key due step rows name := by
  have frontier : Frontier key due rows names current :=
    .of_leads ready listed leads
  have whole : Halfway step rows names = rows := by
    funext name
    by_cases member : name ∈ names
    · exact halfway_of_mem member
    · have absent : rows name = none := by
        rw [Option.eq_none_iff_forall_ne_some]
        exact fun row found => member ((listed name).2 ⟨row, found⟩)
      rw [halfway_of_notMem member, absent, Option.bind_none]
  constructor
  case mp =>
    rintro ⟨visits, final, walk, single, visited⟩ name
    have turns := takesTurn_of_walk rekeyed walk rfl whole.symm frontier
      single fun name => (visited name).trans (listed name).symm
    by_cases member : name ∈ names
    · exact turns name member
    · have absent : ∀ row, rows name ≠ some row :=
        fun row found => member ((listed name).2 ⟨row, found⟩)
      constructor
      case changes => exact fun row found => absurd found (absent row)
      case keeps =>
        exact fun _ _ row' _ _ _ moves => absurd moves.1 (absent row')
      case ends =>
        exact fun _ _ row' _ _ _ moves => absurd moves.1 (absent row')
  case mpr =>
    intro turns
    have inside : current ∈ names := by
      rcases leads with ⟨standing, stands, -⟩
      exact (listed current).2 ⟨standing, stands⟩
    rcases exists_walk_of_takesTurn rekeyed
      (fun name row found => (listed name).2 ⟨row, found⟩) turns frontier
      inside with ⟨visits, final, walk, single, visited⟩
    rw [whole] at walk
    exact ⟨visits, final, walk, single,
      fun name => (visited name).trans (listed name)⟩

end Turns

end BMChain.Foundation
