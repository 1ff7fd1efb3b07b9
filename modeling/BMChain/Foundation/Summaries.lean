import BMChain.Foundation.RowCount

/-!
# Summaries of rows

A table of summaries has one row for every key of the rows of another table.
When a row is written, the summary of its key is found or made and then
changed; what the summaries of other keys say stays as it is.
-/

namespace BMChain.Foundation

namespace Table

variable {Summary Key : Type} {table : Table Summary}

/-- Tables with the same rows and the same next id are the same. -/
theorem eq_of_find?
    {other : Table Summary}
    (rows : ∀ id, table.find? id = other.find? id)
    (next : table.nextId = other.nextId) :
    table = other := by
  have same : table.rows = other.rows :=
    Std.ExtTreeMap.ext_getElem? fun {id} => rows id
  cases table
  cases other
  rw [mk.injEq]
  exact ⟨same, next⟩

/-- The later of two rows written under one id stays. -/
theorem set_set
    {id : Nat}
    {old : Summary}
    (found : table.find? id = some old)
    (first second : Summary) :
    (table.set id first).set id second = table.set id second := by
  have there : (table.set id first).find? id = some first := by
    rw [find?_set found, if_pos rfl]
  refine eq_of_find? ?_ rfl
  intro other
  rw [find?_set there, find?_set found, find?_set found]
  split <;> rfl

/-- A row which has just been added is overwritten. -/
theorem emplace_set
    (table : Table Summary)
    (first second : Summary) :
    (table.emplace first).set table.nextId second = table.emplace second := by
  have there : (table.emplace first).find? table.nextId = some first := by
    rw [find?_emplace, if_pos rfl]
  refine eq_of_find? ?_ rfl
  intro other
  rw [find?_set there, find?_emplace, find?_emplace]
  split <;> rfl

variable [DecidableEq Key] {name : Summary → Key}

/-- Change the row of a key, which is made when there is none. -/
def upsert (table : Table Summary) (name : Summary → Key) (key : Key)
    (fresh : Summary) (change : Summary → Summary) : Table Summary :=
  match table.findBy fun summary => name summary = key with
  | some (id, summary) => table.set id (change summary)
  | none => table.emplace (change fresh)

section Upsert

variable {key : Key} {fresh : Summary} {change : Summary → Summary}

theorem upsert_of_found
    {entry : Nat × Summary}
    (found : table.findBy (fun summary => name summary = key) = some entry) :
    table.upsert name key fresh change =
      table.set entry.1 (change entry.2) := by
  rw [upsert, found]

theorem upsert_of_missing
    (missing : table.findBy (fun summary => name summary = key) = none) :
    table.upsert name key fresh change = table.emplace (change fresh) := by
  rw [upsert, missing]

/-- No row has the key which is missing. -/
theorem all_ne_of_missing
    (missing : table.findBy (fun summary => name summary = key) = none) :
    table.All fun summary => name summary ≠ key := by
  intro id summary found
  have refused := refused_of_findBy missing found
  exact of_decide_eq_false refused

/-- The row of one key is written, and those of the others stay. -/
theorem All.upsert
    {property : Summary → Prop}
    (distinct : table.Distinct name)
    (others : ∀ id summary, table.find? id = some summary →
      name summary ≠ key → property summary)
    (own : ∀ id summary, table.find? id = some summary →
      name summary = key → property (change summary))
    (start : (table.All fun summary => name summary ≠ key) →
      property (change fresh)) :
    (table.upsert name key fresh change).All property := by
  cases found : table.findBy fun summary => name summary = key with
  | none =>
      have free := all_ne_of_missing found
      rw [upsert_of_missing found]
      refine All.emplace ?_ (start free)
      exact fun id summary there => others id summary there (free id summary there)
  | some entry =>
      have there := find?_of_findBy found
      rw [upsert_of_found found]
      refine All.of_set there ?_ (own _ _ there (key_of_findBy found))
      intro other kept different stored
      exact others other kept stored
        (distinct.others found other kept different stored)

theorem Distinct.upsert
    (distinct : table.Distinct name)
    (named : name (change fresh) = key)
    (keeps : ∀ summary, name (change summary) = name summary) :
    (table.upsert name key fresh change).Distinct name := by
  cases found : table.findBy fun summary => name summary = key with
  | none =>
      rw [upsert_of_missing found]
      exact distinct.emplace (named ▸ all_ne_of_missing found)
  | some entry =>
      rw [upsert_of_found found]
      exact distinct.set (find?_of_findBy found) (keeps entry.2)

/-- The key has a row afterwards, as has every key which had one. -/
theorem exists_upsert
    (named : name (change fresh) = key)
    (keeps : ∀ summary, name (change summary) = name summary)
    {other : Key}
    (before : other = key ∨
      ∃ id summary, table.find? id = some summary ∧ name summary = other) :
    ∃ id summary, (table.upsert name key fresh change).find? id = some summary ∧
      name summary = other := by
  cases found : table.findBy fun summary => name summary = key with
  | none =>
      rw [upsert_of_missing found]
      rcases before with rfl | ⟨id, summary, there, same⟩
      · exact ⟨table.nextId, change fresh,
          (find?_emplace _ _ _).trans (if_pos rfl), named⟩
      · refine ⟨id, summary, ?_, same⟩
        rw [find?_emplace, if_neg]
        · exact there
        · rintro rfl
          rw [find?_nextId] at there
          cases there
  | some entry =>
      have there := find?_of_findBy found
      have own := key_of_findBy found
      rw [upsert_of_found found]
      have written : (table.set entry.1 (change entry.2)).find? entry.1 =
          some (change entry.2) := by
        rw [find?_set there, if_pos rfl]
      rcases before with rfl | ⟨id, summary, stored, same⟩
      · exact ⟨_, _, written, (keeps entry.2).trans own⟩
      · by_cases equal : entry.1 = id
        · subst equal
          rw [there] at stored
          cases stored
          exact ⟨_, _, written, (keeps entry.2).trans same⟩
        · refine ⟨id, summary, ?_, same⟩
          rw [find?_set there, if_neg equal]
          exact stored

/-- Two changes of the row of a key are one change. -/
theorem upsert_upsert
    {second : Summary → Summary}
    (named : name (change fresh) = key)
    (keeps : ∀ summary, name (change summary) = name summary) :
    (table.upsert name key fresh change).upsert name key fresh second =
      table.upsert name key fresh fun summary => second (change summary) := by
  cases found : table.findBy fun summary => name summary = key with
  | none =>
      have made := findBy_emplace table (fun summary => name summary = key)
        (change fresh)
      rw [found, Option.none_or, decide_eq_true named, if_pos rfl] at made
      rw [upsert_of_missing found, upsert_of_missing found, upsert_of_found made,
        emplace_set]
  | some entry =>
      have there := find?_of_findBy found
      have own := key_of_findBy found
      have same : decide (name (change entry.2) = key) =
          decide (name entry.2 = key) := by
        rw [keeps entry.2]
      have changed : (table.set entry.1 (change entry.2)).findBy
          (fun summary => name summary = key) = _ := findBy_set there same
      rw [found, Option.map_some, if_pos rfl] at changed
      rw [upsert_of_found found, upsert_of_found found,
        upsert_of_found changed, set_set there]

end Upsert

end Table

/-! ## Summaries which are right -/

variable {Row Summary Key : Type} [DecidableEq Key]
variable {key : Row → Key} {name : Summary → Key}
variable {right : Table Row → Summary → Prop}
variable {rows after : Table Row} {summaries : Table Summary}

/-- Every key of a row has one summary, and each summary is right. -/
structure Summarised (key : Row → Key) (name : Summary → Key)
    (right : Table Row → Summary → Prop) (rows : Table Row)
    (summaries : Table Summary) : Prop where
  distinct : summaries.Distinct name
  known : rows.All fun row =>
    ∃ id summary, summaries.find? id = some summary ∧ name summary = key row
  right : summaries.All (right rows)

omit [DecidableEq Key] in
theorem Summarised.empty :
    Summarised key name right .empty .empty :=
  ⟨.empty, .empty, .empty⟩

omit [DecidableEq Key] in
/-- Rows which keep their keys are written, and the summaries stay right. -/
theorem Summarised.of_rows
    (summarised : Summarised key name right rows summaries)
    (within : after.All fun row =>
      ∃ id other, rows.find? id = some other ∧ key other = key row)
    (stays : ∀ summary, right rows summary → right after summary) :
    Summarised key name right after summaries := by
  constructor
  case distinct => exact summarised.distinct
  case known =>
    intro id row found
    rcases within id row found with ⟨other, old, there, same⟩
    exact same ▸ summarised.known other old there
  case right =>
    exact fun id summary found => stays summary (summarised.right id summary found)

/-- Rows of one key are written, and the summary of this key along with them. -/
theorem Summarised.write
    (summarised : Summarised key name right rows summaries)
    {place : Key}
    {fresh : Summary}
    {change : Summary → Summary}
    (named : name fresh = place)
    (keeps : ∀ summary, name (change summary) = name summary)
    (within : after.All fun row =>
      key row = place ∨ ∃ id other, rows.find? id = some other ∧
        key other = key row)
    (others : ∀ summary, name summary ≠ place → right rows summary →
      right after summary)
    (own : ∀ summary, name summary = place → right rows summary →
      right after (change summary))
    (start : (rows.All fun row => key row ≠ place) → right rows fresh) :
    Summarised key name right after
      (summaries.upsert name place fresh change) := by
  have made : name (change fresh) = place := (keeps fresh).trans named
  constructor
  case distinct => exact summarised.distinct.upsert made keeps
  case known =>
    intro id row found
    refine Table.exists_upsert made keeps ?_
    rcases within id row found with same | ⟨other, old, there, same⟩
    · exact .inl same
    · exact .inr (same ▸ summarised.known other old there)
  case right =>
    refine .upsert summarised.distinct ?_ ?_ ?_
    · intro id summary found different
      exact others summary different (summarised.right id summary found)
    · intro id summary found same
      exact own summary same (summarised.right id summary found)
    · intro free
      refine own fresh named (start ?_)
      intro id row found same
      rcases summarised.known id row found with ⟨other, summary, there, equal⟩
      exact free other summary there (equal.trans same)

end BMChain.Foundation
