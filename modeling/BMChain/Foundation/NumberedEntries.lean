import BMChain.Foundation.Table
import Mathlib.Data.Prod.Lex
import Mathlib.Order.Basic

/-!
# Numbered entries

Every owner has entries in a table, numbered by an unsigned word.  A new entry
gets the number after the greatest one, and the entries whose number is too far
behind are removed from the smallest one on.  The entries of an owner stay
within a window, unless the numbers wrap.
-/

namespace BMChain.Foundation

/-- Which owner an entry belongs to, and its number there. -/
structure Numbering (Owner Row : Type) where
  owner : Row → Owner
  number : Row → Nat

namespace Numbering

variable {Owner Row : Type} [LinearOrder Owner]
variable (by_ : Numbering Owner Row)

/-! ## The operations -/

/-- The order of an index by the owner and then by a key. -/
def indexOrder {Key : Type} [LinearOrder Key] (key : Row → Key)
    (left right : Row) : Bool :=
  by_.owner left < by_.owner right ∨
    by_.owner left = by_.owner right ∧ key left < key right

/-- The order of an index in which the numbers of an owner go down. -/
def newestFirst : Row → Row → Bool :=
  by_.indexOrder fun row => OrderDual.toDual (by_.number row)

/-- The order of an index in which the numbers of an owner go up. -/
def oldestFirst : Row → Row → Bool :=
  by_.indexOrder by_.number

/-- The first entry of an index which does not come before an owner. -/
def lowerBound (before : Row → Row → Bool) (table : Table Row)
    (owner : Owner) : Option (Nat × Row) :=
  firstBy (fun left right => before left.2 right.2)
    (table.entries.filter fun entry => ¬ by_.owner entry.2 < owner)

/-- The number of the next entry of an owner. -/
def nextNumber (bits : Nat) (table : Table Row) (owner : Owner) : Nat :=
  match by_.lowerBound by_.newestFirst table owner with
  | some (_, last) =>
      if by_.owner last = owner then (by_.number last + 1) % 2 ^ bits else 0
  | none => 0

/-- The difference of two words. -/
def distance (bits next number : Nat) : Nat :=
  (next + 2 ^ bits - number) % 2 ^ bits

/--
Remove the oldest entry of the owner while it is too far behind; there is no
result when no entry is left to look at.
-/
def prune (bits limit : Nat) (owner : Owner) (next : Nat) :
    Nat → Table Row → Option (Table Row)
  | 0, table => some table
  | rounds + 1, table =>
      match by_.lowerBound by_.oldestFirst table owner with
      | none => none
      | some (id, oldest) =>
          if by_.owner oldest = owner ∧
              limit < distance bits next (by_.number oldest) then
            prune bits limit owner next rounds (table.remove id)
          else
            some table

variable {by_} {table after : Table Row} {owner : Owner} {bits limit next : Nat}

/-! ## The first entry of an owner -/

theorem found_of_lowerBound
    {before : Row → Row → Bool}
    {entry : Nat × Row}
    (first : by_.lowerBound before table owner = some entry) :
    table.find? entry.1 = some entry.2 ∧ owner ≤ by_.owner entry.2 := by
  have member := mem_of_firstBy first
  rw [List.mem_filter, decide_eq_true_iff, not_lt] at member
  exact ⟨Table.mem_entries_iff.1 member.1, member.2⟩

theorem below_of_lowerBound
    {before : Row → Row → Bool}
    (none : by_.lowerBound before table owner = none)
    {id : Nat}
    {row : Row}
    (found : table.find? id = some row) :
    by_.owner row < owner := by
  have empty := eq_nil_of_firstBy none
  have out := List.filter_eq_nil_iff.1 empty (id, row)
    (Table.mem_entries_iff.2 found)
  rw [decide_eq_true_iff, not_not] at out
  exact out

/-- The first entry from an owner on is its own with the least key, if any is. -/
theorem first_of_lowerBound
    {Key : Type}
    [LinearOrder Key]
    {key : Row → Key}
    {entry : Nat × Row}
    (first : by_.lowerBound (by_.indexOrder key) table owner = some entry)
    {id : Nat}
    {row : Row}
    (found : table.find? id = some row)
    (own : by_.owner row = owner) :
    by_.owner entry.2 = owner ∧ key entry.2 ≤ key row := by
  have inside : (id, row) ∈
      table.entries.filter fun entry => ¬ by_.owner entry.2 < owner := by
    rw [List.mem_filter, decide_eq_true_iff, not_lt]
    exact ⟨Table.mem_entries_iff.2 found, own.ge⟩
  have least := firstBy_least
    (fun pair : Nat × Row => toLex (by_.owner pair.2, key pair.2))
    ?goes ?stays first (id, row) inside
  case goes =>
    intro left right earlier
    rw [indexOrder, decide_eq_true_iff] at earlier
    rw [Prod.Lex.toLex_le_toLex]
    exact earlier.imp_right fun both => ⟨both.1, both.2.le⟩
  case stays =>
    intro left right later
    rw [indexOrder, decide_eq_false_iff_not, not_or, not_and, not_lt] at later
    rw [Prod.Lex.toLex_le_toLex]
    rcases later.1.lt_or_eq with less | same
    · exact .inl less
    · exact .inr ⟨same, not_lt.1 (later.2 same.symm)⟩
  rw [Prod.Lex.toLex_le_toLex, own] at least
  rcases least with less | ⟨same, order⟩
  · exact absurd less (not_lt.2 (found_of_lowerBound first).2)
  · exact ⟨same, order⟩

/-! ## The next number -/

/-- The next number is behind the greatest one, or zero without entries. -/
theorem nextNumber_cases
    (by_ : Numbering Owner Row)
    (bits : Nat)
    (table : Table Row)
    (owner : Owner) :
    (by_.nextNumber bits table owner = 0 ∧
        table.All fun row => by_.owner row ≠ owner) ∨
      ∃ id last, table.find? id = some last ∧ by_.owner last = owner ∧
        by_.nextNumber bits table owner = (by_.number last + 1) % 2 ^ bits ∧
        table.All fun row => by_.owner row = owner →
          by_.number row ≤ by_.number last := by
  rw [nextNumber]
  cases first : by_.lowerBound by_.newestFirst table owner with
  | none =>
      refine .inl ⟨rfl, ?_⟩
      intro id row found
      exact (below_of_lowerBound first found).ne
  | some entry =>
      rcases entry with ⟨id, last⟩
      dsimp only
      by_cases own : by_.owner last = owner
      · rw [if_pos own]
        refine .inr ⟨id, last, (found_of_lowerBound first).1, own, rfl, ?_⟩
        intro other row found belongs
        exact (first_of_lowerBound first found belongs).2
      · rw [if_neg own]
        refine .inl ⟨rfl, ?_⟩
        intro other row found belongs
        exact own (first_of_lowerBound first found belongs).1

/-! ## Pruning -/

/--
Only entries of the owner were removed, and each of them was older than all
which the owner has left.
-/
structure Pruned (by_ : Numbering Owner Row) (owner : Owner)
    (before after : Table Row) : Prop where
  subset : ∀ id row, after.find? id = some row → before.find? id = some row
  others : ∀ id row, before.find? id = some row → by_.owner row ≠ owner →
    after.find? id = some row
  older : ∀ id row, before.find? id = some row →
    after.find? id = some row ∨
      after.All fun kept => by_.owner kept = owner →
        by_.number row < by_.number kept

omit [LinearOrder Owner] in
theorem Pruned.refl
    (by_ : Numbering Owner Row)
    (owner : Owner)
    (table : Table Row) :
    by_.Pruned owner table table where
  subset _ _ found := found
  others _ _ found _ := found
  older _ _ found := .inl found

omit [LinearOrder Owner] in
/-- The oldest entry of the owner is removed first. -/
theorem Pruned.of_remove
    {id : Nat}
    {oldest : Row}
    (found : table.find? id = some oldest)
    (own : by_.owner oldest = owner)
    (least : table.All fun row => by_.owner row = owner →
      by_.number oldest ≤ by_.number row)
    (distinct : table.Distinct fun row => (by_.owner row, by_.number row))
    (pruned : by_.Pruned owner (table.remove id) after) :
    by_.Pruned owner table after := by
  have kept : ∀ {other row}, after.find? other = some row →
      other ≠ id ∧ table.find? other = some row := by
    intro other row there
    have before := pruned.subset other row there
    rw [Table.find?_remove] at before
    split at before
    case isTrue => cases before
    case isFalse different => exact ⟨Ne.symm different, before⟩
  constructor
  case subset => exact fun other row there => (kept there).2
  case others =>
    intro other row there differs
    refine pruned.others other row ?_ differs
    rw [Table.find?_remove, if_neg]
    · exact there
    · rintro rfl
      rw [found] at there
      cases there
      exact differs own
  case older =>
    intro other row there
    by_cases same : id = other
    · subst same
      rw [found] at there
      cases there
      refine .inr ?_
      intro place newer remains belongs
      have origin := kept remains
      refine (least place newer origin.2 belongs).lt_of_ne ?_
      intro equal
      exact origin.1 (distinct place id newer oldest origin.2 found
        (Prod.ext (belongs.trans own.symm) equal.symm))
    · refine pruned.older other row ?_
      rw [Table.find?_remove, if_neg same]
      exact there

/-- An entry at which the loop stops: of a later owner, or near enough. -/
def Stops (by_ : Numbering Owner Row) (bits limit : Nat) (owner : Owner)
    (next : Nat) (row : Row) : Prop :=
  owner < by_.owner row ∨
    by_.owner row = owner ∧ distance bits next (by_.number row) ≤ limit

/--
The loop ends where there is an entry to stop at, with the oldest entry that
the owner has left near enough.
-/
theorem prune_spec
    {rounds : Nat}
    (enough : table.size < rounds)
    (distinct : table.Distinct fun row => (by_.owner row, by_.number row))
    {place : Nat}
    {stop : Row}
    (there : table.find? place = some stop)
    (stops : by_.Stops bits limit owner next stop) :
    ∃ after, by_.prune bits limit owner next rounds table = some after ∧
      by_.Pruned owner table after ∧
      after.All fun row => by_.owner row = owner →
        ∃ oldest, after.Holds oldest ∧ by_.owner oldest = owner ∧
          distance bits next (by_.number oldest) ≤ limit ∧
          by_.number oldest ≤ by_.number row := by
  induction rounds generalizing table with
  | zero => exact absurd enough (Nat.not_lt_zero _)
  | succ rounds induction =>
      rw [prune]
      cases first : by_.lowerBound by_.oldestFirst table owner with
      | none =>
          have below := below_of_lowerBound first there
          rcases stops with later | ⟨own, -⟩
          · exact absurd later below.asymm
          · exact absurd own below.ne
      | some entry =>
          rcases entry with ⟨id, oldest⟩
          have found := (found_of_lowerBound first).1
          dsimp only at found ⊢
          by_cases due : by_.owner oldest = owner ∧
              limit < distance bits next (by_.number oldest)
          · rw [if_pos due]
            have differs : id ≠ place := by
              rintro rfl
              rw [found] at there
              cases there
              rcases stops with later | ⟨-, near⟩
              · exact later.ne due.1.symm
              · exact near.not_gt due.2
            have remains : (table.remove id).find? place = some stop := by
              rw [Table.find?_remove, if_neg differs]
              exact there
            rcases induction
              (Nat.lt_of_lt_of_le (Table.size_remove_lt found)
                (Nat.le_of_lt_succ enough))
              (distinct.remove id) remains with ⟨after, ran, pruned, near⟩
            refine ⟨after, ran, .of_remove found due.1 ?_ distinct pruned, near⟩
            intro other row inside own
            exact (first_of_lowerBound first inside own).2
          · rw [if_neg due]
            refine ⟨table, rfl, .refl by_ owner table, ?_⟩
            intro other row inside own
            have least := first_of_lowerBound first inside own
            refine ⟨oldest, ⟨id, found⟩, least.1, ?_, least.2⟩
            exact not_lt.1 fun far => due ⟨least.1, far⟩

/-! ## The window -/

/-- The numbers of an owner are different and within a window. -/
structure Window (by_ : Numbering Owner Row) (bits limit : Nat)
    (table : Table Row) : Prop where
  fits : table.All fun row => by_.number row < 2 ^ bits
  numbers : table.Distinct fun row => (by_.owner row, by_.number row)
  width : table.All fun row => table.All fun other =>
    by_.owner row = by_.owner other →
      by_.number row ≤ by_.number other + limit

omit [LinearOrder Owner] in
theorem Window.empty
    (by_ : Numbering Owner Row)
    (bits limit : Nat) :
    by_.Window bits limit .empty where
  fits := .empty
  numbers := .empty
  width := .empty

omit [LinearOrder Owner] in
/-- What is left of the entries is within their window. -/
theorem Window.of_subset
    (window : by_.Window bits limit table)
    (subset : ∀ id row, after.find? id = some row →
      table.find? id = some row) :
    by_.Window bits limit after where
  fits id row found := window.fits id row (subset id row found)
  numbers := window.numbers.of_subset subset
  width id row found other kept there :=
    window.width id row (subset _ _ found) other kept (subset _ _ there)

omit [LinearOrder Owner] in
/-- An entry may change which keeps its owner and its number. -/
theorem Window.set
    (window : by_.Window bits limit table)
    {id : Nat}
    {old row : Row}
    (found : table.find? id = some old)
    (own : by_.owner row = by_.owner old)
    (number : by_.number row = by_.number old) :
    by_.Window bits limit (table.set id row) := by
  have origin : ∀ {place changed}, (table.set id row).find? place = some changed →
      ∃ before, table.find? place = some before ∧
        by_.owner changed = by_.owner before ∧
        by_.number changed = by_.number before := by
    intro place changed there
    rw [Table.find?_set found] at there
    split at there
    case isTrue same =>
      cases there
      exact ⟨old, same ▸ found, own, number⟩
    case isFalse => exact ⟨changed, there, rfl, rfl⟩
  constructor
  case fits =>
    intro place changed there
    rcases origin there with ⟨before, kept, -, same⟩
    rw [same]
    exact window.fits place before kept
  case numbers => exact window.numbers.set found (by rw [own, number])
  case width =>
    intro place changed there other last kept
    rcases origin there with ⟨before, inside, owner, same⟩
    rcases origin kept with ⟨others, among, owners, alike⟩
    rw [owner, owners, same, alike]
    exact window.width place before inside other others among

theorem distance_eq
    {number : Nat}
    (behind : number ≤ next)
    (fits : next < 2 ^ bits) :
    distance bits next number = next - number := by
  have split : next + 2 ^ bits - number = next - number + 2 ^ bits := by omega
  rw [distance, split, Nat.add_mod_right]
  exact Nat.mod_eq_of_lt (Nat.lt_of_le_of_lt (Nat.sub_le _ _) fits)

/-- The number behind another one is one away from it, also when it wraps. -/
theorem distance_next_le
    {number : Nat}
    (fits : number < 2 ^ bits) :
    distance bits ((number + 1) % 2 ^ bits) number ≤ 1 := by
  by_cases last : number + 1 < 2 ^ bits
  · rw [Nat.mod_eq_of_lt last, distance_eq (Nat.le_succ number) last]
    omega
  · have full : number + 1 = 2 ^ bits := by omega
    have one : 0 + 2 ^ bits - number = 1 := by omega
    rw [full, Nat.mod_self, distance, one]
    exact Nat.mod_le _ _

theorem nextNumber_lt
    (by_ : Numbering Owner Row)
    (bits : Nat)
    (table : Table Row)
    (owner : Owner) :
    by_.nextNumber bits table owner < 2 ^ bits := by
  rcases by_.nextNumber_cases bits table owner with
    ⟨zero, -⟩ | ⟨_, _, -, -, next, -⟩
  · rw [zero]
    exact Nat.two_pow_pos bits
  · rw [next]
    exact Nat.mod_lt _ (Nat.two_pow_pos bits)

/-- The next number of an owner can be given without wrapping, or may wrap. -/
def Room (by_ : Numbering Owner Row) (bits limit : Nat) (table : Table Row)
    (owner : Owner) : Prop :=
  2 ^ bits ≤ limit + 1 ∨
    table.All fun row => by_.owner row = owner →
      by_.number row + 1 < 2 ^ bits

/-- Without wrapping the next number is above all others. -/
theorem lt_nextNumber
    (room : table.All fun row => by_.owner row = owner →
      by_.number row + 1 < 2 ^ bits) :
    table.All fun row => by_.owner row = owner →
      by_.number row < by_.nextNumber bits table owner := by
  intro id row found own
  rcases by_.nextNumber_cases bits table owner with
    ⟨-, none⟩ | ⟨place, last, there, owned, next, newest⟩
  · exact absurd own (none id row found)
  · rw [next, Nat.mod_eq_of_lt (room place last there owned)]
    exact Nat.lt_succ_of_le (newest id row found own)

/-- A new entry is added and the old ones are pruned, within the window. -/
theorem Window.append
    (window : by_.Window bits limit table)
    {row : Row}
    (own : by_.owner row = owner)
    (numbered : by_.number row = by_.nextNumber bits table owner)
    (free : table.All fun other =>
      (by_.owner other, by_.number other) ≠ (by_.owner row, by_.number row))
    (room : by_.Room bits limit table owner)
    {rounds : Nat}
    (enough : (table.emplace row).size < rounds) :
    ∃ after,
      by_.prune bits limit owner (by_.number row) rounds (table.emplace row) =
        some after ∧
      by_.Pruned owner (table.emplace row) after ∧
      by_.Window bits limit after := by
  have fits : (table.emplace row).All fun row => by_.number row < 2 ^ bits :=
    window.fits.emplace (numbered ▸ by_.nextNumber_lt bits table owner)
  have new : (table.emplace row).find? table.nextId = some row := by
    rw [Table.find?_emplace, if_pos rfl]
  have near : distance bits (by_.number row) (by_.number row) ≤ limit := by
    rw [distance_eq (Nat.le_refl _) (fits _ row new), Nat.sub_self]
    exact Nat.zero_le limit
  rcases prune_spec enough (window.numbers.emplace free) new (.inr ⟨own, near⟩)
    with ⟨after, ran, pruned, oldest⟩
  refine ⟨after, ran, pruned, ?_,
    (window.numbers.emplace free).of_subset pruned.subset, ?_⟩
  · exact fun id kept found => fits id kept (pruned.subset id kept found)
  · intro id one found other two there same
    have inside := pruned.subset id one found
    rcases room with wide | room
    · have small := fits id one inside
      omega
    by_cases mine : by_.owner two = owner
    · rcases oldest other two there mine with
        ⟨least, ⟨place, held⟩, owned, close, order⟩
      have top : ∀ {place kept}, (table.emplace row).find? place = some kept →
          by_.owner kept = owner → by_.number kept ≤ by_.number row := by
        intro place kept stored owned
        rw [Table.find?_emplace] at stored
        split at stored
        · cases stored
          exact Nat.le_refl _
        · rw [numbered]
          exact (lt_nextNumber room place kept stored owned).le
      have above := top inside (same.trans mine)
      have below := top (pruned.subset _ _ held) owned
      rw [distance_eq below (fits _ row new)] at close
      omega
    · have before : ∀ {place kept}, after.find? place = some kept →
          by_.owner kept ≠ owner → table.find? place = some kept := by
        intro place kept stored differs
        have there := pruned.subset place kept stored
        rw [Table.find?_emplace] at there
        split at there
        · cases there
          exact absurd own differs
        · exact there
      exact window.width id one (before found (same ▸ mine)) other two
        (before there mine) same

end Numbering

end BMChain.Foundation
