import BMChain.Foundation.PairTree
import Mathlib.Algebra.Group.Nat.Defs
import Mathlib.Data.Nat.Pairing

/-!
# The merkle root of a block

The digests of a block's transactions are hashed in pairs within one array,
the results written over its front, until one digest is left.  A digest
without partner is carried up unhashed.  The root is therefore that of the
tree of pairs over the digests, and binds them.
-/

namespace BMChain.Protocol

open BMChain.Foundation

/-- The hash functions which the root is made with. -/
structure MerkleHashes (Transaction Digest Checksum : Type) where
  /-- `signed_transaction::merkle_digest`. -/
  merkleDigest : Transaction → Digest
  /-- `digest_type::hash` of a pair. -/
  pairHash : Digest → Digest → Digest
  /-- `checksum_type::hash`. -/
  checksumHash : Digest → Checksum
  /-- `checksum_type()`. -/
  zeroChecksum : Checksum

namespace MerkleHashes

variable {Transaction Digest Checksum : Type}
variable (hashes : MerkleHashes Transaction Digest Checksum)

/-- `ids[k] = hash( ids[2k], ids[2k + 1] )`; nothing when an index is outside. -/
def hashPairAt (ids : List Digest) (k : Nat) : Option (List Digest) := do
  let first ← ids[2 * k]?
  let second ← ids[2 * k + 1]?
  return ids.set k (hashes.pairHash first second)

/-- The inner loop, run for the first `pairs` pairs. -/
def hashPairs (ids : List Digest) : Nat → Option (List Digest)
  | 0 => some ids
  | pairs + 1 => do hashes.hashPairAt (← hashPairs ids pairs) pairs

/-- The 32-bit `i_max` of a number of hashes. -/
def iMax (count : Nat) : Nat :=
  (count - count % 2) % 2 ^ 32

/-- The number of hashes after a pass over `count` of them. -/
def nextCount (count : Nat) : Nat :=
  iMax count / 2 + count % 2

/-- One pass of the outer loop over the first `count` hashes. -/
def hashLevel (ids : List Digest) (count : Nat) : Option (List Digest) := do
  let ids ← hashes.hashPairs ids (iMax count / 2)
  if count % 2 = 1 then
    let last ← ids[iMax count]?
    return ids.set (iMax count / 2) last
  else
    return ids

theorem nextCount_lt
    {count : Nat}
    (several : 1 < count) :
    nextCount count < count := by
  have small : iMax count ≤ count := by
    rw [iMax]
    exact Nat.le_trans (Nat.mod_le _ _) (Nat.sub_le _ _)
  rw [nextCount]
  omega

/-- The outer loop, until one hash is left. -/
def hashLevels (ids : List Digest) (count : Nat) : Option (List Digest) :=
  if _several : 1 < count then
    (hashes.hashLevel ids count).bind fun ids =>
      hashLevels ids (nextCount count)
  else
    some ids
termination_by count
decreasing_by exact nextCount_lt _several

/--
`signed_block::calculate_merkle_root`.  There is no result for 2 ^ 32
transactions or more: the 32-bit index which fills `ids` never gets to the end.
-/
def calculateMerkleRoot (transactions : List Transaction) : Option Checksum :=
  if transactions.length = 0 then
    some hashes.zeroChecksum
  else if 2 ^ 32 ≤ transactions.length then
    none
  else do
    let ids := transactions.map hashes.merkleDigest
    let ids ← hashes.hashLevels ids ids.length
    return hashes.checksumHash (← ids[0]?)

/-! ## The array after a pass -/

theorem iMax_eq
    {count : Nat}
    (bounded : count < 2 ^ 32) :
    iMax count = 2 * (count / 2) := by
  rw [iMax]
  omega

theorem nextCount_eq
    {count : Nat}
    (bounded : count < 2 ^ 32) :
    nextCount count = (count + 1) / 2 := by
  rw [nextCount, iMax_eq bounded]
  omega

/-- One more complete pair at the front of the array. -/
theorem take_pair
    {ids : List Digest}
    {k : Nat}
    (room : 2 * k + 1 < ids.length) :
    ids.take (2 * (k + 1)) =
      ids.take (2 * k) ++ [ids[2 * k], ids[2 * k + 1]] := by
  rw [show 2 * (k + 1) = 2 * k + 1 + 1 by omega,
    List.take_succ_eq_append_getElem room,
    List.take_succ_eq_append_getElem (show 2 * k < ids.length by omega),
    List.append_assoc]
  rfl

/--
After `pairs` pairs the front of the array is their level of the tree, and
what lies behind it has not changed.
-/
theorem hashPairs_eq
    {ids : List Digest}
    {pairs : Nat}
    (room : 2 * pairs ≤ ids.length) :
    ∃ written,
      hashes.hashPairs ids pairs = some written ∧
      written.length = ids.length ∧
      written.take pairs =
        pairUp hashes.pairHash (ids.take (2 * pairs)) ∧
      ∀ index, pairs ≤ index → written[index]? = ids[index]? := by
  induction pairs with
  | zero => exact ⟨ids, rfl, rfl, by simp [pairUp], fun _ _ => rfl⟩
  | succ pairs induction =>
      rcases induction (by omega) with ⟨written, run, length, front, behind⟩
      have first : written[2 * pairs]? = some ids[2 * pairs] := by
        rw [behind _ (by omega), List.getElem?_eq_getElem]
      have second : written[2 * pairs + 1]? = some ids[2 * pairs + 1] := by
        rw [behind _ (by omega), List.getElem?_eq_getElem]
      refine ⟨written.set pairs
        (hashes.pairHash ids[2 * pairs] ids[2 * pairs + 1]), ?_, ?_, ?_, ?_⟩
      · rw [hashPairs, run, Option.bind_eq_bind, Option.bind_some, hashPairAt,
          first, second]
        rfl
      · rw [List.length_set, length]
      · have even : (ids.take (2 * pairs)).length % 2 = 0 := by
          rw [List.length_take_of_le (by omega)]
          omega
        rw [take_pair (by omega), pairUp_append_pair even, ← front,
          List.take_succ_eq_append_getElem
            (show pairs < (written.set pairs _).length by
              rw [List.length_set]; omega),
          List.getElem_set_self, List.take_set_of_le (Nat.le_refl pairs)]
      · intro index beyond
        rw [List.getElem?_set_ne (by omega), behind index (by omega)]

/-- After a pass the hashes that count are the next level of the tree. -/
theorem hashLevel_eq
    {ids : List Digest}
    {count : Nat}
    (bounded : count < 2 ^ 32)
    (room : count ≤ ids.length) :
    ∃ written,
      hashes.hashLevel ids count = some written ∧
      written.length = ids.length ∧
      written.take (nextCount count) =
        pairUp hashes.pairHash (ids.take count) := by
  have pairs : iMax count / 2 = count / 2 := by
    rw [iMax_eq bounded]
    omega
  have half : 2 * (count / 2) ≤ ids.length := by omega
  rcases hashes.hashPairs_eq half with ⟨written, run, length, front, behind⟩
  rw [nextCount_eq bounded, hashLevel, pairs, run, Option.bind_eq_bind,
    Option.bind_some, iMax_eq bounded]
  by_cases odd : count % 2 = 1
  · have last : written[2 * (count / 2)]? = some ids[2 * (count / 2)] := by
      rw [behind _ (by omega), List.getElem?_eq_getElem]
    have even : (ids.take (2 * (count / 2))).length % 2 = 0 := by
      rw [List.length_take_of_le (by omega)]
      omega
    refine ⟨written.set (count / 2) ids[2 * (count / 2)], ?_, ?_, ?_⟩
    · rw [if_pos odd, last]
      rfl
    · rw [List.length_set, length]
    · rw [show (count + 1) / 2 = count / 2 + 1 by omega,
        List.take_succ_eq_append_getElem
          (show count / 2 < (written.set (count / 2) _).length by
            rw [List.length_set]; omega),
        List.getElem_set_self, List.take_set_of_le (Nat.le_refl _), front,
        ← pairUp_append_single even,
        ← List.take_succ_eq_append_getElem (show 2 * (count / 2) < ids.length by
            omega),
        show 2 * (count / 2) + 1 = count by omega]
  · refine ⟨written, if_neg odd, length, ?_⟩
    rw [show (count + 1) / 2 = count / 2 by omega, front,
      show 2 * (count / 2) = count by omega]

/-- The loop ends, with the root of the tree in front. -/
theorem hashLevels_eq
    {ids : List Digest}
    {count : Nat}
    (positive : 0 < count)
    (bounded : count < 2 ^ 32)
    (room : count ≤ ids.length) :
    ∃ written,
      hashes.hashLevels ids count = some written ∧
      written[0]? = pairRoot hashes.pairHash (ids.take count) := by
  induction count using Nat.strongRecOn generalizing ids with
  | ind count induction =>
      by_cases several : 1 < count
      · rcases hashes.hashLevel_eq bounded room with ⟨level, run, length, front⟩
        have less := nextCount_lt several
        have next : 0 < nextCount count := by
          rw [nextCount_eq bounded]
          omega
        rcases induction (nextCount count) less next (Nat.lt_trans less bounded)
          (show nextCount count ≤ level.length by omega) with
            ⟨written, rest, root⟩
        refine ⟨written, ?_, ?_⟩
        · rw [hashLevels, dif_pos several, run, Option.bind_some, rest]
        · have long : 1 < (ids.take count).length := by
            rw [List.length_take_of_le room]
            exact several
          rw [root, front, ← pairRoot_of_long long]
      · refine ⟨ids, by rw [hashLevels, dif_neg several], ?_⟩
        have single : count = 1 := by omega
        subst single
        match ids, room with
        | first :: rest, _ => simp [pairRoot]

/-- The root is the checksum of the tree's root, for every list it is made of. -/
theorem calculateMerkleRoot_eq
    {transactions : List Transaction}
    (positive : 0 < transactions.length)
    (bounded : transactions.length < 2 ^ 32) :
    hashes.calculateMerkleRoot transactions =
      (pairRoot hashes.pairHash
        (transactions.map hashes.merkleDigest)).map hashes.checksumHash := by
  have length : (transactions.map hashes.merkleDigest).length =
      transactions.length := List.length_map _
  rcases hashes.hashLevels_eq
    (show 0 < (transactions.map hashes.merkleDigest).length by omega)
    (show (transactions.map hashes.merkleDigest).length < 2 ^ 32 by omega)
    (Nat.le_refl _) with ⟨written, run, front⟩
  rw [List.take_length] at front
  rw [calculateMerkleRoot, if_neg (by omega), if_neg (by omega), ← front]
  show (hashes.hashLevels _ _).bind _ = _
  rw [run, Option.bind_some]
  cases written[0]? <;> rfl

/-! ## What the root binds -/

/--
Equal roots of equally many transactions are roots of the same digests, unless
two digests have one checksum or two pairs one hash.
-/
theorem digests_or_collision
    {first second : List Transaction}
    {root : Checksum}
    (length : first.length = second.length)
    (ofFirst : hashes.calculateMerkleRoot first = some root)
    (ofSecond : hashes.calculateMerkleRoot second = some root) :
    first.map hashes.merkleDigest = second.map hashes.merkleDigest ∨
      Collision hashes.pairHash ∨
      ¬ Function.Injective hashes.checksumHash := by
  by_cases empty : first.length = 0
  · left
    have others : second.length = 0 := length ▸ empty
    rw [List.eq_nil_of_length_eq_zero empty,
      List.eq_nil_of_length_eq_zero others]
  have bounded : first.length < 2 ^ 32 := by
    by_contra large
    rw [calculateMerkleRoot, if_neg empty, if_pos (by omega)] at ofFirst
    cases ofFirst
  by_cases free : Collision hashes.pairHash
  · exact .inr (.inl free)
  by_cases injective : Function.Injective hashes.checksumHash
  · left
    rw [hashes.calculateMerkleRoot_eq (by omega) bounded] at ofFirst
    rw [hashes.calculateMerkleRoot_eq (by omega) (length ▸ bounded)] at ofSecond
    refine eq_of_pairRoot_eq free (by simpa using length) ?_
    exact Option.map_injective injective (ofFirst.trans ofSecond.symm)
  · exact .inr (.inr injective)

/--
With injective hashes, two lists of equally many transactions with one merkle
root have the same digests, element by element.
-/
theorem digests_of_merkle_roots
    (pairs : Function.Injective2 hashes.pairHash)
    (checksums : Function.Injective hashes.checksumHash)
    {first second : List Transaction}
    {root : Checksum}
    (length : first.length = second.length)
    (ofFirst : hashes.calculateMerkleRoot first = some root)
    (ofSecond : hashes.calculateMerkleRoot second = some root) :
    first.map hashes.merkleDigest = second.map hashes.merkleDigest := by
  rcases hashes.digests_or_collision length ofFirst ofSecond with
    same | collision | shared
  · exact same
  · exact absurd collision (not_collision_of_injective pairs)
  · exact absurd checksums shared

/-- Injective hashes of numbers; the digest of a transaction drops its last bit. -/
def numbered : MerkleHashes Nat Nat Nat where
  merkleDigest := (· / 2)
  pairHash := Nat.pair
  checksumHash := (· + 1)
  zeroChecksum := 0

/-- Two lists of three transactions with one root. -/
theorem digests_of_merkle_roots_three :
    numbered.calculateMerkleRoot [2, 4, 6] = some 34 ∧
      numbered.calculateMerkleRoot [3, 5, 7] = some 34 ∧
      [2, 4, 6].map numbered.merkleDigest =
        [3, 5, 7].map numbered.merkleDigest := by
  have first : numbered.calculateMerkleRoot [2, 4, 6] = some 34 := by
    rw [calculateMerkleRoot_eq _ (by decide) (by decide)]
    simp [numbered, pairRoot, pairUp, Nat.pair]
  have second : numbered.calculateMerkleRoot [3, 5, 7] = some 34 := by
    rw [calculateMerkleRoot_eq _ (by decide) (by decide)]
    simp [numbered, pairRoot, pairUp, Nat.pair]
  refine ⟨first, second, numbered.digests_of_merkle_roots ?_ ?_ rfl first second⟩
  · intro left other right last same
    exact Nat.pair_eq_pair.1 same
  · intro left right same
    exact Nat.add_right_cancel same

end MerkleHashes

end BMChain.Protocol
