import Mathlib.Data.List.Pairwise
import Mathlib.Order.Lattice
import Mathlib.Tactic.Common

/-!
# Looking a key up in ranges

Ranges are kept by their lower ends.  The range of a key is looked up with one
search for the first lower end which is not below the key, and a step back when
that end is another key.  The search ends at the last range which begins at or
below the key; so it misses a key only when a range which begins there is empty.
-/

namespace BMChain.Foundation

variable {Key : Type} [LinearOrder Key]

variable {range first second : Key × Key} {rest : List (Key × Key)}

/-- The range to which a search and a step back lead. -/
def stepBack (ranges : List (Key × Key)) (item : Key) : Option (Key × Key) :=
  let before := ranges.takeWhile (·.1 < item)
  match ranges.dropWhile (·.1 < item) with
  | [] => before.getLast?
  | range :: _ =>
      if before ≠ [] ∧ range.1 ≠ item then before.getLast? else some range

/-- A range holds a key. -/
def InRange (range : Key × Key) (item : Key) : Prop :=
  range.1 ≤ item ∧ item ≤ range.2

/-- The ranges have different lower ends, in their order. -/
def ByLowerEnd (ranges : List (Key × Key)) : Prop :=
  ranges.Pairwise fun left right => left.1 < right.1

/-- No key lies in two ranges. -/
def ApartRanges (ranges : List (Key × Key)) : Prop :=
  ranges.Pairwise fun left right =>
    ∀ item, ¬ (InRange left item ∧ InRange right item)

/--
A key lies in a range, at or above a pair whose ends are in the wrong order and
which begins in the range as well.
-/
def Hidden (ranges : List (Key × Key)) (item : Key) : Prop :=
  ∃ range ∈ ranges, InRange range item ∧
    ∃ other ∈ ranges, other.2 < other.1 ∧ range.1 ≤ other.1 ∧ other.1 ≤ item

section Lookup

variable {ranges : List (Key × Key)} {item : Key}

/-- A range is the last one which begins at or below a key. -/
structure LastBelow (ranges : List (Key × Key)) (item : Key)
    (range : Key × Key) : Prop where
  member : range ∈ ranges
  begins : range.1 ≤ item
  last : ∀ other ∈ ranges, other.1 ≤ item → other.1 ≤ range.1

theorem stepBack_cons_of_not_lt
    (above : ¬ first.1 < item) :
    stepBack (first :: rest) item = some first := by
  unfold stepBack
  rw [List.takeWhile_cons_of_neg (by simpa using above),
    List.dropWhile_cons_of_neg (by simpa using above)]
  exact if_neg fun nonempty => nonempty.1 rfl

theorem stepBack_singleton_of_lt
    (below : first.1 < item) :
    stepBack [first] item = some first := by
  unfold stepBack
  rw [List.takeWhile_cons_of_pos (by simpa using below),
    List.dropWhile_cons_of_pos (by simpa using below)]
  rfl

theorem stepBack_cons_cons
    (below : first.1 < item) :
    stepBack (first :: second :: rest) item =
      if item < second.1 then some first
      else stepBack (second :: rest) item := by
  unfold stepBack
  rw [List.takeWhile_cons_of_pos (by simpa using below),
    List.dropWhile_cons_of_pos (by simpa using below)]
  by_cases next : second.1 < item
  · rw [if_neg (lt_asymm next), List.takeWhile_cons_of_pos (by simpa using next),
      List.dropWhile_cons_of_pos (by simpa using next)]
    cases rest.dropWhile (·.1 < item) with
    | nil => rfl
    | cons range others => simp
  · rw [List.takeWhile_cons_of_neg (by simpa using next),
      List.dropWhile_cons_of_neg (by simpa using next)]
    by_cases same : second.1 = item
    · simp [same]
    · have above : item < second.1 :=
        lt_of_le_of_ne (not_lt.1 next) (Ne.symm same)
      simp [same, above]

/-- The search leads to the last range which begins at or below the key. -/
theorem LastBelow.stepBack_eq
    (sorted : ByLowerEnd ranges)
    (last : LastBelow ranges item range) :
    stepBack ranges item = some range := by
  induction ranges with
  | nil => exact absurd last.member List.not_mem_nil
  | cons first rest induction =>
      rcases List.pairwise_cons.1 sorted with ⟨least, sorted⟩
      by_cases below : first.1 < item
      case neg =>
        rw [stepBack_cons_of_not_lt below]
        rcases List.mem_cons.1 last.member with rfl | member
        · rfl
        · have above := (least range member).trans_le last.begins
          exact absurd above below
      case pos =>
        cases rest with
        | nil =>
            rw [List.mem_singleton.1 last.member]
            exact stepBack_singleton_of_lt below
        | cons second rest =>
            rw [stepBack_cons_cons below]
            rcases List.mem_cons.1 last.member with rfl | member
            · refine if_pos (not_le.1 fun begins => ?_)
              have behind := last.last second
                (List.mem_cons_of_mem _ List.mem_cons_self) begins
              exact absurd (least second List.mem_cons_self) (not_lt.2 behind)
            · have begins : ¬ item < second.1 := by
                rw [not_lt]
                refine le_trans ?_ last.begins
                rcases List.mem_cons.1 member with rfl | later
                · exact le_refl _
                · exact le_of_lt ((List.pairwise_cons.1 sorted).1 range later)
              rw [if_neg begins]
              exact induction sorted ⟨member, last.begins,
                fun other there => last.last other
                  (List.mem_cons_of_mem _ there)⟩

/-- Some range is the last, if one begins at or below the key. -/
theorem exists_lastBelow
    (member : range ∈ ranges)
    (begins : range.1 ≤ item) :
    ∃ last, LastBelow ranges item last := by
  induction ranges generalizing range with
  | nil => exact absurd member List.not_mem_nil
  | cons first rest induction =>
      by_cases more : ∃ other ∈ rest, other.1 ≤ item
      case neg =>
        have alone : ∀ other ∈ first :: rest, other.1 ≤ item →
            other = first := by
          intro other there below
          rcases List.mem_cons.1 there with rfl | later
          · rfl
          · exact absurd ⟨other, later, below⟩ more
        refine ⟨first, List.mem_cons_self, ?_, ?_⟩
        · rw [← alone range member begins]
          exact begins
        · intro other there below
          rw [alone other there below]
      case pos =>
        rcases more with ⟨other, there, below⟩
        rcases induction there below with ⟨last, listed, lastBegins, latest⟩
        rcases le_total first.1 last.1 with earlier | later
        · refine ⟨last, List.mem_cons_of_mem _ listed, lastBegins, ?_⟩
          rw [List.forall_mem_cons]
          exact ⟨fun _ => earlier, latest⟩
        · by_cases firstBegins : first.1 ≤ item
          · refine ⟨first, List.mem_cons_self, firstBegins, ?_⟩
            rw [List.forall_mem_cons]
            exact ⟨fun _ => le_refl _, fun other there begins =>
              (latest other there begins).trans later⟩
          · refine ⟨last, List.mem_cons_of_mem _ listed, lastBegins, ?_⟩
            rw [List.forall_mem_cons]
            exact ⟨fun begins => absurd begins firstBegins, latest⟩

theorem mem_of_stepBack
    (found : stepBack ranges item = some range) :
    range ∈ ranges := by
  have before : ∀ last, (ranges.takeWhile (·.1 < item)).getLast? = some last →
      last ∈ ranges := fun last there =>
    (List.takeWhile_sublist _).subset (List.mem_of_getLast? there)
  unfold stepBack at found
  dsimp only at found
  split at found
  case h_1 => exact before range found
  case h_2 first others rest =>
    split at found
    case isTrue => exact before range found
    case isFalse =>
      cases found
      have there : range ∈ ranges.dropWhile (·.1 < item) := by
        rw [rest]
        exact List.mem_cons_self
      exact (List.dropWhile_sublist _).subset there

theorem eq_of_lower_eq
    (sorted : ByLowerEnd ranges)
    (firstMember : first ∈ ranges)
    (secondMember : second ∈ ranges)
    (same : first.1 = second.1) :
    first = second := by
  by_contra different
  have symmetric : Std.Symm fun left right : Key × Key => left.1 ≠ right.1 :=
    ⟨fun _ _ other => Ne.symm other⟩
  have apart : ranges.Pairwise fun left right => left.1 ≠ right.1 :=
    sorted.imp fun less => ne_of_lt less
  exact apart.forall firstMember secondMember different same

theorem ApartRanges.eq
    (disjoint : ApartRanges ranges)
    (firstMember : first ∈ ranges)
    (secondMember : second ∈ ranges)
    (inFirst : InRange first item)
    (inSecond : InRange second item) :
    first = second := by
  by_contra different
  have symmetric : Std.Symm fun left right : Key × Key =>
      ∀ item, ¬ (InRange left item ∧ InRange right item) :=
    ⟨fun _ _ apart item both => apart item both.symm⟩
  exact List.Pairwise.forall disjoint firstMember secondMember different item
    ⟨inFirst, inSecond⟩

/--
Where no key lies in two ranges, the search finds the range of each key which
is not hidden.
-/
theorem stepBack_holds_iff
    (sorted : ByLowerEnd ranges)
    (disjoint : ApartRanges ranges) :
    (∃ range, stepBack ranges item = some range ∧ InRange range item) ↔
      (∃ range ∈ ranges, InRange range item) ∧ ¬ Hidden ranges item := by
  constructor
  · rintro ⟨range, found, holds⟩
    have member := mem_of_stepBack found
    refine ⟨⟨range, member, holds⟩, ?_⟩
    rintro ⟨holder, listed, inside, other, there, reversed, begins, below⟩
    rcases exists_lastBelow member holds.1 with ⟨last, latest⟩
    cases (latest.stepBack_eq sorted).symm.trans found
    cases disjoint.eq listed member inside holds
    have same : other.1 = range.1 :=
      le_antisymm (latest.last other there below) begins
    cases eq_of_lower_eq sorted there member same
    exact absurd (holds.1.trans holds.2) (not_le.2 reversed)
  · rintro ⟨⟨holder, listed, inside⟩, shown⟩
    rcases exists_lastBelow listed inside.1 with ⟨last, latest⟩
    refine ⟨last, latest.stepBack_eq sorted, latest.begins, ?_⟩
    have begins := latest.last holder listed inside.1
    have ordered : last.1 ≤ last.2 := by
      by_contra reversed
      exact shown ⟨holder, listed, inside, last, latest.member,
        not_le.1 reversed, begins, latest.begins⟩
    by_contra above
    have there : InRange holder last.1 :=
      ⟨begins, latest.begins.trans inside.2⟩
    cases disjoint.eq listed latest.member there ⟨le_refl _, ordered⟩
    exact above inside.2

end Lookup

end BMChain.Foundation
