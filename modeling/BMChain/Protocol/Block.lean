import Mathlib.Algebra.Group.Nat.Defs
import Mathlib.Tactic.Common

/-!
# Blocks and their ids

A block id is the digest of the signed header with the block number stored
in its first word.  The digest is taken to be free of collisions: an id which
comes from a header is represented by that header.  A header may name any id
as its predecessor, also one which is no header's digest.
-/

namespace BMChain.Protocol

/-- `block_id_type`. -/
inductive BlockId (Content : Type) where
  /-- The default value `block_id_type()`. -/
  | zero
  /-- An id which is the digest of no header. -/
  | unknown (num hash : Nat)
  /-- The digest of a header: its other fields and its predecessor. -/
  | header (content : Content) (previous : BlockId Content)
  deriving DecidableEq

variable {Content Body : Type}

/-- `block_header::num_from_id`. -/
def BlockId.num : BlockId Content → Nat
  | .zero => 0
  | .unknown num _ => num % 2 ^ 32
  | .header _ previous => (previous.num + 1) % 2 ^ 32

theorem BlockId.num_lt
    (id : BlockId Content) :
    id.num < 2 ^ 32 := by
  cases id <;> simp [BlockId.num, Nat.mod_lt]

/-- A number which did not wrap around is the predecessor's plus one. -/
theorem BlockId.header_num_eq
    {content : Content}
    {previous : BlockId Content}
    (positive : (BlockId.header content previous).num ≠ 0) :
    (BlockId.header content previous).num = previous.num + 1 := by
  have bound := previous.num_lt
  simp only [BlockId.num] at positive ⊢
  omega

/-- `signed_block`: the header's predecessor, its other fields, and the body. -/
structure SignedBlock (Content Body : Type) where
  previous : BlockId Content
  content : Content
  body : Body
  deriving DecidableEq

namespace SignedBlock

/-- `signed_block_header::id`. -/
def id (block : SignedBlock Content Body) : BlockId Content :=
  .header block.content block.previous

/-- `block_header::block_num`. -/
def blockNum (block : SignedBlock Content Body) : Nat :=
  (block.previous.num + 1) % 2 ^ 32

@[simp]
theorem id_num
    (block : SignedBlock Content Body) :
    block.id.num = block.blockNum :=
  rfl

theorem blockNum_eq
    {block : SignedBlock Content Body}
    (positive : block.blockNum ≠ 0) :
    block.blockNum = block.previous.num + 1 := by
  rw [← id_num] at positive ⊢
  exact BlockId.header_num_eq positive

/-- The id names the predecessor. -/
theorem previous_eq_of_id_eq
    {first second : SignedBlock Content Body}
    (same : first.id = second.id) :
    first.previous = second.previous := by
  simp only [id, BlockId.header.injEq] at same
  exact same.2

end SignedBlock

end BMChain.Protocol
