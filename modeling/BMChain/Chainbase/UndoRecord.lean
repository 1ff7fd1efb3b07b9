import BMChain.Chainbase.GenericIndex

/-!
# What an undo entry says about one object

Seen from a single object, an undo entry is one of the four rows of the
matrix in `squash`: the object is new, updated, deleted or untouched.
`Recorded` relates that row to the object's value before and after the
session.  Everything an entry promises is stated per object, so the
invariants of the recording functions and of `squash` are case analyses on
the rows.
-/

namespace BMChain.Chainbase

open Std
open BMChain.Foundation.FiniteMap

variable {V : Type}

variable {id : ObjectId} {value : V}

/-- An object's relationship to an undo entry. -/
structure Status (V : Type) where
  isNew : Bool
  old : Option V
  removed : Option V

namespace UndoState

/-- What the entry holds about the object `id`. -/
def status
    (entry : UndoState V)
    (id : ObjectId) : Status V where
  isNew := entry.newIds.contains id
  old := entry.oldValues[id]?
  removed := entry.removedValues[id]?

end UndoState

/-- The objects and the id counter, as a snapshot keeps them. -/
structure Objects (V : Type) where
  indices : ExtTreeMap ObjectId V
  nextId : ObjectId

namespace GenericIndex

/-- The part of an index which a snapshot saves. -/
def objects (index : GenericIndex V) : Objects V where
  indices := index.indices
  nextId := index.nextId

@[simp, grind =]
theorem objects_indices
    (index : GenericIndex V) :
    index.objects.indices = index.indices :=
  rfl

end GenericIndex

/--
The rows of the matrix, with the object's value before and after.  A new or
updated object may be absent afterwards: a colliding modification erases it
and leaves its record behind.
-/
inductive Recorded : Status V → Option V → Option V → Prop where
  | untouched (value : Option V) :
      Recorded ⟨false, none, none⟩ value value
  | new (after : Option V) :
      Recorded ⟨true, none, none⟩ none after
  | updated (was : V) (after : Option V) :
      Recorded ⟨false, some was, none⟩ (some was) after
  | deleted (was : V) :
      Recorded ⟨false, none, some was⟩ (some was) none

/--
An entry records a session which led from `before` to `after`: one row per
object, and ids are handed out in increasing order.
-/
structure Records
    (entry : UndoState V)
    (before after : Objects V) : Prop where
  oldNextId : entry.oldNextId = before.nextId
  nextId_le : before.nextId ≤ after.nextId
  before_lt : ∀ id ∈ before.indices, id < before.nextId
  after_lt : ∀ id ∈ after.indices, id < after.nextId
  new_ge : ∀ id ∈ entry.newIds, before.nextId ≤ id
  new_lt : ∀ id ∈ entry.newIds, id < after.nextId
  recorded :
    ∀ id : ObjectId,
      Recorded (entry.status id) before.indices[id]? after.indices[id]?

/-! ## Lookups after the loops of `undo` -/

/-- The lookup of one id, as what a loop can see of the container. -/
def lookup
    (indices : ExtTreeMap ObjectId V)
    (id : ObjectId) : Option V :=
  indices[id]?

theorem lookup_put_self
    (indices : ExtTreeMap ObjectId V)
    (item : ObjectId × V) :
    lookup (put indices item) item.1 = some item.2 := by
  simp [put, lookup]

theorem lookup_put_ne
    (indices : ExtTreeMap ObjectId V)
    (item : ObjectId × V)
    (other : ObjectId)
    (different : item.1 ≠ other) :
    lookup (put indices item) other = lookup indices other := by
  simp [put, lookup, ExtTreeMap.getElem?_insert, different]

theorem lookup_erase_self
    (indices : ExtTreeMap ObjectId V)
    (id : ObjectId) :
    lookup (indices.erase id) id = none := by
  simp [lookup]

theorem lookup_erase_ne
    (indices : ExtTreeMap ObjectId V)
    (id other : ObjectId)
    (different : id ≠ other) :
    lookup (indices.erase id) other = lookup indices other := by
  simp [lookup, ExtTreeMap.getElem?_erase, different]

theorem lookup_put_loop
    (values indices : ExtTreeMap ObjectId V)
    (id : ObjectId) :
    (values.toList.foldl put indices)[id]? =
      values[id]?.or indices[id]? := by
  have pointwise :=
    foldl_map_local lookup put (fun value _ => some value)
      lookup_put_self lookup_put_ne values indices id
  cases found : values[id]? <;> simpa [lookup, found] using pointwise

theorem lookup_erase_loop
    (ids : ExtTreeSet ObjectId)
    (indices : ExtTreeMap ObjectId V)
    (id : ObjectId) :
    (ids.toList.foldl ExtTreeMap.erase indices)[id]? =
      if id ∈ ids then none else indices[id]? := by
  exact foldl_set_local lookup ExtTreeMap.erase (fun _ => none)
    lookup_erase_self lookup_erase_ne ids indices id

/-! ## The recording functions -/

/-- `on_create`, seen from the created object. -/
theorem status_onCreate
    (entry : UndoState V)
    (id other : ObjectId) :
    (entry.onCreate id).status other =
      if id = other then
        { entry.status other with isNew := true }
      else
        entry.status other := by
  unfold UndoState.onCreate UndoState.status
  split <;> simp_all [ExtTreeSet.contains_insert]

/-- `on_modify`, seen from the modified object. -/
def Status.onModify (value : V) (row : Status V) : Status V :=
  if row.isNew then row
  else if row.old.isSome then row
  else { row with old := some value }

theorem status_onModify
    (entry : UndoState V)
    (id other : ObjectId)
    (value : V) :
    (entry.onModify id value).status other =
      if id = other then
        (entry.status other).onModify value
      else
        entry.status other := by
  unfold UndoState.onModify UndoState.status Status.onModify
  grind

/-- `on_remove`, seen from the removed object. -/
def Status.onRemove (value : V) (row : Status V) : Status V :=
  if row.isNew then
    { row with isNew := false }
  else
    match row.old with
    | some old =>
        { row with
          old := none
          removed := row.removed.or (some old) }
    | none =>
        { row with removed := row.removed.or (some value) }

theorem status_onRemove
    (entry : UndoState V)
    (id other : ObjectId)
    (value : V) :
    (entry.onRemove id value).status other =
      if id = other then
        (entry.status other).onRemove value
      else
        entry.status other := by
  unfold UndoState.onRemove UndoState.status Status.onRemove
  grind

/-! ## Merging two entries -/

/-- The old-value loop of `squash`, seen from one object. -/
def Status.squashOld (value : V) (row : Status V) : Status V :=
  if row.isNew then row
  else if row.old.isSome then row
  else { row with old := some value }

/-- The removed-value loop of `squash`, seen from one object. -/
def Status.squashRemoved (value : V) (row : Status V) : Status V :=
  if row.isNew then
    { row with isNew := false }
  else
    match row.old with
    | some old =>
        { row with
          old := none
          removed := row.removed.or (some old) }
    | none =>
        { row with removed := row.removed.or (some value) }

/-- The entry of the matrix for an older row `prev` and a newer `row`. -/
def Status.merge (prev row : Status V) : Status V :=
  let prev :=
    match row.old with
    | some value => prev.squashOld value
    | none => prev
  let prev := if row.isNew then { prev with isNew := true } else prev
  match row.removed with
  | some value => prev.squashRemoved value
  | none => prev

theorem status_squashOld_loop
    (prev : UndoState V)
    (values : ExtTreeMap ObjectId V)
    (id : ObjectId) :
    (values.toList.foldl UndoState.squashOld prev).status id =
      match values[id]? with
      | some value => (prev.status id).squashOld value
      | none => prev.status id := by
  apply foldl_map_local UndoState.status UndoState.squashOld
  · intro state item
    unfold UndoState.squashOld UndoState.status Status.squashOld
    grind
  · intro state item other different
    unfold UndoState.squashOld UndoState.status
    grind

theorem status_squashNew_loop
    (prev : UndoState V)
    (ids : ExtTreeSet ObjectId)
    (id : ObjectId) :
    (ids.toList.foldl UndoState.squashNew prev).status id =
      if id ∈ ids then
        { prev.status id with isNew := true }
      else
        prev.status id := by
  apply foldl_set_local UndoState.status UndoState.squashNew
    (fun row : Status V => { row with isNew := true })
  · intro state item
    unfold UndoState.squashNew UndoState.status
    grind
  · intro state item other different
    unfold UndoState.squashNew UndoState.status
    grind

theorem status_squashRemoved_loop
    (prev : UndoState V)
    (values : ExtTreeMap ObjectId V)
    (id : ObjectId) :
    (values.toList.foldl UndoState.squashRemoved prev).status id =
      match values[id]? with
      | some value => (prev.status id).squashRemoved value
      | none => prev.status id := by
  apply foldl_map_local UndoState.status UndoState.squashRemoved
  · intro state item
    unfold UndoState.squashRemoved UndoState.status Status.squashRemoved
    grind
  · intro state item other different
    unfold UndoState.squashRemoved UndoState.status
    grind

/-- The three loops of `squash` compute the matrix, object by object. -/
theorem status_merge
    (prev state : UndoState V)
    (id : ObjectId) :
    (prev.merge state).status id =
      (prev.status id).merge (state.status id) := by
  unfold UndoState.merge
  simp only [status_squashRemoved_loop, status_squashNew_loop,
    status_squashOld_loop]
  simp only [← ExtTreeSet.contains_iff_mem]
  rfl

/-- The loops of `squash` keep the older entry's counter and revision. -/
theorem merge_header
    (prev state : UndoState V) :
    (prev.merge state).oldNextId = prev.oldNextId ∧
      (prev.merge state).revision = prev.revision := by
  have header :
      ((prev.merge state).oldNextId, (prev.merge state).revision) =
        (prev.oldNextId, prev.revision) := by
    let observe (entry : UndoState V) := (entry.oldNextId, entry.revision)
    change observe (prev.merge state) = observe prev
    unfold UndoState.merge
    rw [foldl_unchanged _ observe, foldl_unchanged _ observe,
      foldl_unchanged _ observe]
    · intro entry item
      unfold UndoState.squashOld
      grind
    · intro entry item
      rfl
    · intro entry item
      unfold UndoState.squashRemoved
      grind
  simpa using header

/-! ## Rows compose -/

/-- Merging marks no object as new which neither entry marked. -/
theorem newIds_of_merge
    {prev state : UndoState V}
    (member : id ∈ (prev.merge state).newIds) :
    id ∈ prev.newIds ∨ id ∈ state.newIds := by
  have new : ((prev.merge state).status id).isNew = true := by
    simpa [UndoState.status] using member
  rw [status_merge] at new
  simp only [← ExtTreeSet.contains_iff_mem]
  unfold Status.merge Status.squashRemoved Status.squashOld
    UndoState.status at new
  grind

/-- A row which says "new" was not written over an object that existed. -/
def Causal (prev row : Status V) : Prop :=
  row.isNew = true → prev = ⟨false, none, none⟩

/--
The matrix is right: a row from `before` to `middle` merged with a causally
later row from `middle` to `after` is a row from `before` to `after`.
-/
theorem Recorded.merge
    {prev row : Status V}
    {before middle after : Option V}
    (older : Recorded prev before middle)
    (newer : Recorded row middle after)
    (causal : Causal prev row) :
    Recorded (prev.merge row) before after := by
  cases newer with
  | untouched => exact older
  | new =>
      obtain rfl := causal rfl
      cases older
      exact .new after
  | updated was =>
      cases older with
      | untouched => exact .updated was after
      | new => exact .new after
      | updated first => exact .updated first after
  | deleted was =>
      cases older with
      | untouched => exact .deleted was
      | new => exact .untouched none
      | updated first => exact .deleted first

/-- A new or updated object is still stored. -/
def Status.Intact (row : Status V) (after : Option V) : Prop :=
  row.isNew = true ∨ row.old.isSome = true → after.isSome = true

theorem Status.Intact.merge
    {prev row : Status V}
    {before middle after : Option V}
    (older : Recorded prev before middle)
    (newer : Recorded row middle after)
    (causal : Causal prev row)
    (olderIntact : prev.Intact middle)
    (newerIntact : row.Intact after) :
    (prev.merge row).Intact after := by
  cases newer with
  | untouched => exact olderIntact
  | new =>
      intro _
      exact newerIntact (.inl rfl)
  | updated was =>
      intro _
      exact newerIntact (.inr rfl)
  | deleted was =>
      cases older with
      | untouched => simp [Status.Intact, Status.merge, Status.squashRemoved]
      | new => simp [Status.Intact, Status.merge, Status.squashRemoved]
      | updated first =>
          simp [Status.Intact, Status.merge, Status.squashRemoved]

/-- A recorded modification is a row, whatever the object becomes. -/
theorem Recorded.modify
    {row : Status V}
    {before : Option V}
    (recorded : Recorded row before (some value))
    (after : Option V) :
    Recorded (row.onModify value) before after := by
  cases recorded with
  | untouched => exact .updated value after
  | new => exact .new after
  | updated was => exact .updated was after

theorem Recorded.remove
    {row : Status V}
    {before : Option V}
    (recorded : Recorded row before (some value)) :
    Recorded (row.onRemove value) before none := by
  cases recorded with
  | untouched => exact .deleted value
  | new => exact .untouched none
  | updated was => exact .deleted was

theorem Status.Intact.remove
    {row : Status V}
    {before : Option V}
    (recorded : Recorded row before (some value)) :
    (row.onRemove value).Intact none := by
  cases recorded <;> simp [Status.Intact, Status.onRemove]

/-! ## Entries and sessions -/

/-- Stored ids lie below the id counter. -/
def Objects.IdsBelow (objects : Objects V) : Prop :=
  ∀ id ∈ objects.indices, id < objects.nextId

/-- Every new or updated object of the entry is still stored. -/
def UndoState.Intact
    (entry : UndoState V)
    (after : Objects V) : Prop :=
  ∀ id : ObjectId, (entry.status id).Intact after.indices[id]?

/-- The entry of a session which has just begun. -/
def UndoState.fresh (nextId : ObjectId) (revision : Int) : UndoState V where
  oldValues := ∅
  removedValues := ∅
  newIds := ∅
  oldNextId := nextId
  revision := revision

namespace Records

variable {entry : UndoState V}
variable {before after : Objects V}

theorem fresh
    (below : before.IdsBelow)
    (revision : Int) :
    Records (UndoState.fresh before.nextId revision) before before where
  oldNextId := rfl
  nextId_le := le_rfl
  before_lt := below
  after_lt := below
  new_ge := by simp [UndoState.fresh]
  new_lt := by simp [UndoState.fresh]
  recorded id := by
    simpa [UndoState.fresh, UndoState.status] using
      Recorded.untouched before.indices[id]?

section Changes

variable (records : Records entry before after)

include records

theorem emplace
    (value : V) :
    Records (entry.onCreate after.nextId) before
      ⟨after.indices.insert after.nextId value, after.nextId + 1⟩ where
  oldNextId := records.oldNextId
  nextId_le := Nat.le_succ_of_le records.nextId_le
  before_lt := records.before_lt
  after_lt := by
    intro id member
    have := records.after_lt id
    grind
  new_ge := by
    intro id member
    have := records.new_ge id
    have := records.nextId_le
    simp only [UndoState.onCreate] at member
    grind
  new_lt := by
    intro id member
    have := records.new_lt id
    simp only [UndoState.onCreate] at member
    grind
  recorded := by
    intro id
    rw [status_onCreate]
    by_cases equal : after.nextId = id
    · -- The counter lies above every id the session has seen so far.
      subst equal
      have absentAfter : after.indices[after.nextId]? = none := by
        have := records.after_lt after.nextId
        grind
      have absentBefore : before.indices[after.nextId]? = none := by
        have := records.before_lt after.nextId
        have := records.nextId_le
        grind
      have notNew : (entry.status after.nextId).isNew = false := by
        have := records.new_lt after.nextId
        simp only [UndoState.status]
        grind
      have row := records.recorded after.nextId
      rw [absentAfter, absentBefore] at row
      simp only [if_true, ExtTreeMap.getElem?_insert_self, absentBefore]
      generalize entry.status after.nextId = status at row notNew ⊢
      cases row with
      | untouched => exact .new (some value)
      | new => simp at notNew
    · have row := records.recorded id
      simpa [equal, ExtTreeMap.getElem?_insert] using row

/-! ### Reading a row -/

theorem before_of_old
    (old : entry.oldValues[id]? = some value) :
    before.indices[id]? = some value ∧ id ∉ entry.newIds := by
  have row := records.recorded id
  have status_old : (entry.status id).old = some value := old
  have status_new : (entry.status id).isNew = entry.newIds.contains id := rfl
  generalize entry.status id = status at *
  generalize before.indices[id]? = was at *
  generalize after.indices[id]? = now at row
  cases row <;> grind

theorem before_of_removed
    (removed : entry.removedValues[id]? = some value) :
    before.indices[id]? = some value ∧
      after.indices[id]? = none ∧
      entry.oldValues[id]? = none := by
  have row := records.recorded id
  have status_removed : (entry.status id).removed = some value := removed
  have status_old : (entry.status id).old = entry.oldValues[id]? := rfl
  generalize entry.status id = status at *
  generalize before.indices[id]? = was at *
  generalize after.indices[id]? = now at *
  cases row <;> grind

/-- A stored object is new, updated, or as it was. -/
theorem origin
    (stored : after.indices[id]? = some value) :
    id ∈ entry.newIds ∨ id ∈ entry.oldValues ∨
      before.indices[id]? = some value := by
  have row := records.recorded id
  have status_new : (entry.status id).isNew = entry.newIds.contains id := rfl
  have status_old : (entry.status id).old = entry.oldValues[id]? := rfl
  generalize entry.status id = status at *
  generalize before.indices[id]? = was at *
  generalize after.indices[id]? = now at *
  cases row <;> grind

/-! ### The mutating calls -/

/-- A change of one stored object, recorded in that object's row. -/
theorem changeAt
    (id : ObjectId)
    (stored : id ∈ after.indices)
    {entry' : UndoState V}
    {indices' : ExtTreeMap ObjectId V}
    (header : entry'.oldNextId = entry.oldNextId)
    (newIds : ∀ other ∈ entry'.newIds, other ∈ entry.newIds)
    (own :
      Recorded (entry'.status id) before.indices[id]? indices'[id]?)
    (statuses :
      ∀ other, id ≠ other → entry'.status other = entry.status other)
    (values :
      ∀ other : ObjectId,
        id ≠ other → indices'[other]? = after.indices[other]?) :
    Records entry' before ⟨indices', after.nextId⟩ where
  oldNextId := header.trans records.oldNextId
  nextId_le := records.nextId_le
  before_lt := records.before_lt
  after_lt := by
    intro other member
    by_cases equal : id = other
    · exact equal ▸ records.after_lt id stored
    · have same := values other equal
      have := records.after_lt other
      grind
  new_ge := fun other member => records.new_ge other (newIds other member)
  new_lt := fun other member => records.new_lt other (newIds other member)
  recorded := by
    intro other
    by_cases equal : id = other
    · exact equal ▸ own
    · rw [statuses other equal, values other equal]
      exact records.recorded other

theorem modify
    (stored : after.indices[id]? = some value)
    (indices' : ExtTreeMap ObjectId V)
    (values :
      ∀ other : ObjectId,
        id ≠ other → indices'[other]? = after.indices[other]?) :
    Records (entry.onModify id value) before ⟨indices', after.nextId⟩ := by
  refine records.changeAt id (by grind) ?_ ?_ ?_ ?_ values
  · unfold UndoState.onModify
    grind
  · unfold UndoState.onModify
    grind
  · rw [status_onModify, if_pos rfl]
    exact Recorded.modify (stored ▸ records.recorded id) _
  · intro other different
    rw [status_onModify, if_neg different]

theorem remove
    (stored : after.indices[id]? = some value) :
    Records (entry.onRemove id value) before
      ⟨after.indices.erase id, after.nextId⟩ := by
  refine records.changeAt id (by grind) ?_ ?_ ?_ ?_ ?_
  · unfold UndoState.onRemove
    grind
  · unfold UndoState.onRemove
    grind
  · rw [status_onRemove, if_pos rfl, ExtTreeMap.getElem?_erase_self]
    exact Recorded.remove (stored ▸ records.recorded id)
  · intro other different
    rw [status_onRemove, if_neg different]
  · intro other different
    grind

end Changes

/-- Ids handed out later are new to the older entry. -/
theorem causal
    {prev state : UndoState V}
    {before middle after : Objects V}
    (older : Records prev before middle)
    (newer : Records state middle after)
    (id : ObjectId) :
    Causal (prev.status id) (state.status id) := by
  intro new
  have fresh : middle.nextId ≤ id := newer.new_ge id (by
    simpa [UndoState.status] using new)
  have absentBefore : before.indices[id]? = none := by
    have := older.before_lt id
    have := older.nextId_le
    grind
  have absentMiddle : middle.indices[id]? = none := by
    have := older.after_lt id
    grind
  have notNew : (prev.status id).isNew = false := by
    have := older.new_lt id
    simp only [UndoState.status]
    grind
  have row := older.recorded id
  rw [absentBefore, absentMiddle] at row
  generalize prev.status id = status at row notNew ⊢
  cases row with
  | untouched => rfl
  | new => simp at notNew

/-- `squash` composes two consecutive sessions into one. -/
theorem merge
    {prev state : UndoState V}
    {before middle after : Objects V}
    (older : Records prev before middle)
    (newer : Records state middle after) :
    Records (prev.merge state) before after where
  oldNextId := (merge_header prev state).1.trans older.oldNextId
  nextId_le := older.nextId_le.trans newer.nextId_le
  before_lt := older.before_lt
  after_lt := newer.after_lt
  new_ge := by
    intro id member
    rcases newIds_of_merge member with inPrev | inState
    · exact older.new_ge id inPrev
    · exact older.nextId_le.trans (newer.new_ge id inState)
  new_lt := by
    intro id member
    rcases newIds_of_merge member with inPrev | inState
    · exact (older.new_lt id inPrev).trans_le newer.nextId_le
    · exact newer.new_lt id inState
  recorded := by
    intro id
    rw [status_merge]
    exact (older.recorded id).merge (newer.recorded id)
      (older.causal newer id)

/-- What the loops of `undo` leave, if they all complete. -/
theorem restored_lookup
    (records : Records entry before after)
    (id : ObjectId) :
    (entry.removedValues.toList.foldl put
      (entry.newIds.toList.foldl ExtTreeMap.erase
        (entry.oldValues.toList.foldl put after.indices)))[id]? =
      before.indices[id]? := by
  have row := records.recorded id
  rw [lookup_put_loop, lookup_erase_loop, lookup_put_loop]
  simp only [← ExtTreeSet.contains_iff_mem]
  change
    (entry.status id).removed.or
      (if (entry.status id).isNew then none
        else (entry.status id).old.or after.indices[id]?) = _
  generalize entry.status id = status at row ⊢
  generalize before.indices[id]? = was at row ⊢
  generalize after.indices[id]? = now at row ⊢
  cases row <;> rfl

end Records

end BMChain.Chainbase
