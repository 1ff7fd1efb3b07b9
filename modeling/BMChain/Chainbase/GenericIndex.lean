import BMChain.Foundation.FiniteMap
import BMChain.Foundation.GuardedFold
import Mathlib.Data.List.DropRight

/-!
# The chainbase index

`generic_index` stores objects in a multi-index container keyed by object id
and records, for every open session, what it takes to go back.  The model
keeps the four members of the class: the undo stack (newest entry first), the
revision, the next id, and the stored objects.

The container may have further unique keys.  They enter through
`conflicts`: two objects conflict when they agree on the key of some unique
index.  A colliding insert is refused and changes nothing; a colliding
modification erases the modified object.
-/

namespace BMChain.Chainbase

open Std
open BMChain.Foundation

/-- The value an object id takes (`oid`), counted from zero. -/
abbrev ObjectId := Nat

/-- What goes wrong inside the container. -/
inductive Fault where
  /-- The exception raised for a violated uniqueness constraint. -/
  | uniqueness
  /-- `end()` was handed to the container where an element is required. -/
  | endIterator
  deriving DecidableEq, Repr

/-- What one session changed (`undo_state`). -/
structure UndoState (V : Type) where
  oldValues : ExtTreeMap ObjectId V
  removedValues : ExtTreeMap ObjectId V
  newIds : ExtTreeSet ObjectId
  oldNextId : ObjectId
  revision : Int

/-- The members of `generic_index`; the newest stack entry comes first. -/
structure GenericIndex (V : Type) where
  stack : List (UndoState V)
  revision : Int
  nextId : ObjectId
  indices : ExtTreeMap ObjectId V

section Container

variable {V : Type}
variable (conflicts : V → V → Bool)

/-- Some other stored object holds a unique key of `value`. -/
def collides
    (indices : ExtTreeMap ObjectId V)
    (id : ObjectId)
    (value : V) : Bool :=
  indices.toList.any fun entry =>
    entry.1 != id && conflicts value entry.2

/-- The test of the container's `modify` at an iterator found by id. -/
def modifyFault
    (indices : ExtTreeMap ObjectId V)
    (item : ObjectId × V) : Option Fault :=
  if item.1 ∉ indices then
    some .endIterator
  else if collides conflicts indices item.1 item.2 then
    some .uniqueness
  else
    none

/-- The test of the container's `erase` at an iterator found by id. -/
def eraseFault
    (indices : ExtTreeMap ObjectId V)
    (id : ObjectId) : Option Fault :=
  if id ∉ indices then some .endIterator else none

/-- The test of the container's `emplace`. -/
def emplaceFault
    (indices : ExtTreeMap ObjectId V)
    (item : ObjectId × V) : Option Fault :=
  if item.1 ∈ indices then
    some .uniqueness
  else if collides conflicts indices item.1 item.2 then
    some .uniqueness
  else
    none

/-- Put a value at its id. -/
def put
    (indices : ExtTreeMap ObjectId V)
    (item : ObjectId × V) : ExtTreeMap ObjectId V :=
  indices.insert item.1 item.2

end Container

namespace GenericIndex

variable {V : Type}

/-- Apply a change to the newest undo entry, if any session is open. -/
def onHead
    (index : GenericIndex V)
    (change : UndoState V → UndoState V) :
    GenericIndex V :=
  match index.stack with
  | [] => index
  | head :: rest => { index with stack := change head :: rest }

end GenericIndex

namespace UndoState

variable {V : Type}

/-- Record a created object. -/
def onCreate
    (id : ObjectId)
    (head : UndoState V) : UndoState V :=
  { head with newIds := head.newIds.insert id }

/-- Record the value an object has before its first modification. -/
def onModify
    (id : ObjectId)
    (value : V)
    (head : UndoState V) : UndoState V :=
  if id ∈ head.newIds then
    head
  else if id ∈ head.oldValues then
    head
  else
    { head with oldValues := head.oldValues.insertIfNew id value }

/-- Record a removed object under the value it had when the session began. -/
def onRemove
    (id : ObjectId)
    (value : V)
    (head : UndoState V) : UndoState V :=
  if id ∈ head.newIds then
    { head with newIds := head.newIds.erase id }
  else
    match head.oldValues[id]? with
    | some old =>
        { head with
          removedValues := head.removedValues.insertIfNew id old
          oldValues := head.oldValues.erase id }
    | none =>
        if id ∈ head.removedValues then
          head
        else
          { head with
            removedValues := head.removedValues.insertIfNew id value }

/-- The old-value loop of `squash`. -/
def squashOld
    (prev : UndoState V)
    (item : ObjectId × V) : UndoState V :=
  if item.1 ∈ prev.newIds then
    prev
  else if item.1 ∈ prev.oldValues then
    prev
  else
    { prev with
      oldValues := prev.oldValues.insertIfNew item.1 item.2 }

/-- The new-id loop of `squash`. -/
def squashNew
    (prev : UndoState V)
    (id : ObjectId) : UndoState V :=
  { prev with newIds := prev.newIds.insert id }

/-- The removed-value loop of `squash`. -/
def squashRemoved
    (prev : UndoState V)
    (item : ObjectId × V) : UndoState V :=
  if item.1 ∈ prev.newIds then
    { prev with newIds := prev.newIds.erase item.1 }
  else
    match prev.oldValues[item.1]? with
    | some old =>
        { prev with
          removedValues := prev.removedValues.insertIfNew item.1 old
          oldValues := prev.oldValues.erase item.1 }
    | none =>
        { prev with
          removedValues :=
            prev.removedValues.insertIfNew item.1 item.2 }

/-- Merge a session's entry into the entry below it. -/
def merge
    (prev state : UndoState V) : UndoState V :=
  let prev := state.oldValues.toList.foldl squashOld prev
  let prev := state.newIds.toList.foldl squashNew prev
  state.removedValues.toList.foldl squashRemoved prev

end UndoState

namespace GenericIndex

variable {V : Type}
variable (conflicts : V → V → Bool)

/--
`emplace`: the object receives the next id.  A refused insert throws before
anything has changed.
-/
def emplace
    (index : GenericIndex V)
    (value : V) :
    GenericIndex V × Option Fault :=
  match emplaceFault conflicts index.indices (index.nextId, value) with
  | some fault => (index, some fault)
  | none =>
      ({ index with
          nextId := index.nextId + 1
          indices := index.indices.insert index.nextId value
        }.onHead (UndoState.onCreate index.nextId), none)

/--
`modify` of a stored object: the old value is recorded first.  When the new
value collides, the container has erased the object before the throw.
-/
def modify
    (index : GenericIndex V)
    (id : ObjectId)
    (modifier : V → V) :
    GenericIndex V × Option Fault :=
  match index.indices[id]? with
  | none => (index, none)
  | some value =>
      let recorded := index.onHead (UndoState.onModify id value)
      if collides conflicts index.indices id (modifier value) then
        ({ recorded with indices := index.indices.erase id },
          some .uniqueness)
      else
        ({ recorded with
            indices := index.indices.insert id (modifier value) }, none)

/-- `remove` of a stored object. -/
def remove
    (index : GenericIndex V)
    (id : ObjectId) :
    GenericIndex V :=
  match index.indices[id]? with
  | none => index
  | some value =>
      { index.onHead (UndoState.onRemove id value) with
        indices := index.indices.erase id }

/-- `start_undo_session(true)`. -/
def startUndoSession (index : GenericIndex V) : GenericIndex V :=
  { index with
    stack :=
      { oldValues := ∅
        removedValues := ∅
        newIds := ∅
        oldNextId := index.nextId
        revision := index.revision + 1 } :: index.stack
    revision := index.revision + 1 }

/-- The three restoring loops of `undo`. -/
def restore
    (indices : ExtTreeMap ObjectId V)
    (head : UndoState V) :
    Except Fault (ExtTreeMap ObjectId V) := do
  let indices ←
    guardedFold (modifyFault conflicts) put indices head.oldValues.toList
  let indices ←
    guardedFold eraseFault ExtTreeMap.erase indices head.newIds.toList
  guardedFold (emplaceFault conflicts) put indices
    head.removedValues.toList

/-- `undo`; a fault leaves the loops half done. -/
def undo (index : GenericIndex V) : Except Fault (GenericIndex V) :=
  match index.stack with
  | [] => .ok index
  | head :: rest => do
      let indices ← restore conflicts index.indices head
      return {
        stack := rest
        revision := index.revision - 1
        nextId := head.oldNextId
        indices := indices }

/-- `squash`; a lone entry is dropped without touching the revision. -/
def squash (index : GenericIndex V) : GenericIndex V :=
  match index.stack with
  | [] => index
  | [_] => { index with stack := [] }
  | state :: prev :: rest =>
      { index with
        stack := prev.merge state :: rest
        revision := index.revision - 1 }

/-- `commit`: drop entries from the bottom of the stack. -/
def commit
    (index : GenericIndex V)
    (revision : Int) :
    GenericIndex V :=
  { index with
    stack :=
      index.stack.rdropWhile fun entry =>
        decide (entry.revision ≤ revision) }

end GenericIndex

end BMChain.Chainbase
