import BMChain.Foundation.ByteOrder
import BMChain.Protocol.FixedString
import Mathlib.Data.List.TakeWhile
import Mathlib.Tactic.Tauto

/-!
# The order of fixed strings

A fixed string keeps its bytes in words which it compares as numbers.  It turns
the bytes of each word around on a machine which has the lowest byte in front,
so that the comparison of the words, nested through pairs, is that of the
strings.
-/

namespace BMChain.Protocol

open BMChain.Foundation

variable {bytes text : Text}

/-! ## Storage -/

/-- What `fixed_string` uses of its type `Storage`. -/
class Storage (Stored : Type) where
  /-- `sizeof`. -/
  size : Nat
  /-- The default value. -/
  initial : Stored
  /-- The bytes of a value as they lie in memory. -/
  memory : Stored → Text
  /-- The value of which these are the bytes in memory. -/
  ofMemory : Text → Stored
  /-- `fc::endian_reverse`. -/
  endianReverse : Stored → Stored
  /-- `operator <`. -/
  less : Stored → Stored → Bool

/--
The memory of a value can be read and written byte by byte, and values are
ordered as the memory of the reversed ones.
-/
class LawfulStorage (Stored : Type) [Storage Stored] : Prop where
  length_memory :
    ∀ value : Stored, (Storage.memory value).length = Storage.size Stored
  memory_ofMemory :
    ∀ bytes : Text, bytes.length = Storage.size Stored →
      Storage.memory (Storage.ofMemory bytes : Stored) = bytes
  memory_initial :
    Storage.memory (Storage.initial : Stored) =
      List.replicate (Storage.size Stored) 0
  reverse_reverse :
    ∀ value : Stored,
      Storage.endianReverse (Storage.endianReverse value) = value
  less_iff :
    ∀ value other : Stored,
      Storage.less (Storage.endianReverse value)
          (Storage.endianReverse other) = true ↔
        Storage.memory value < Storage.memory other

open Storage LawfulStorage

/-- A word of a machine which has the lowest byte in front. -/
instance : Storage UInt64 where
  size := 8
  initial := 0
  memory word := wordBytes 8 word.toNat
  ofMemory bytes := UInt64.ofNat (wordOf bytes)
  endianReverse word := UInt64.ofNat (wordOf (wordBytes 8 word.toNat).reverse)
  less word other := decide (word < other)

/-- Eight bytes fill a word. -/
theorem toNat_wordOf
    (length : bytes.length = 8) :
    (UInt64.ofNat (wordOf bytes)).toNat = wordOf bytes := by
  have bound := wordOf_lt bytes
  rw [length] at bound
  rw [UInt64.toNat_ofNat']
  exact Nat.mod_eq_of_lt bound

theorem wordBytes_toNat_wordOf
    (length : bytes.length = 8) :
    wordBytes 8 (UInt64.ofNat (wordOf bytes)).toNat = bytes := by
  rw [toNat_wordOf length, ← length, wordBytes_wordOf]

instance : LawfulStorage UInt64 where
  length_memory word := length_wordBytes 8 word.toNat
  memory_ofMemory _ length := wordBytes_toNat_wordOf length
  memory_initial := by decide
  reverse_reverse word := by
    have length : (wordBytes 8 word.toNat).reverse.length = 8 := by
      rw [List.length_reverse, length_wordBytes]
    apply UInt64.toNat_inj.1
    show (UInt64.ofNat (wordOf (wordBytes 8 (UInt64.ofNat
      (wordOf (wordBytes 8 word.toNat).reverse)).toNat).reverse)).toNat = _
    rw [wordBytes_toNat_wordOf length, List.reverse_reverse,
      wordOf_wordBytes word.toNat_lt, UInt64.ofNat_toNat]
  less_iff word other := by
    have length : ∀ word : UInt64, (wordBytes 8 word.toNat).reverse.length = 8 := by
      intro word
      rw [List.length_reverse, length_wordBytes]
    show decide (UInt64.ofNat (bigEndian (wordBytes 8 word.toNat)) <
      UInt64.ofNat (bigEndian (wordBytes 8 other.toNat))) = true ↔ _
    rw [decide_eq_true_iff, UInt64.lt_iff_toNat_lt, bigEndian, bigEndian,
      toNat_wordOf (length word), toNat_wordOf (length other)]
    exact bigEndian_lt_iff (by rw [length_wordBytes, length_wordBytes])

/-- `fc::erpair`. -/
structure Erpair (First Second : Type) where
  first : First
  second : Second
  deriving DecidableEq

/-- The parts lie behind each other; `std::tie` compares the first one first. -/
instance {First Second : Type} [Storage First] [Storage Second] :
    Storage (Erpair First Second) where
  size := size First + size Second
  initial := ⟨initial, initial⟩
  memory pair := memory pair.first ++ memory pair.second
  ofMemory bytes :=
    ⟨ofMemory (bytes.take (size First)), ofMemory (bytes.drop (size First))⟩
  endianReverse pair := ⟨endianReverse pair.first, endianReverse pair.second⟩
  less pair other :=
    less pair.first other.first ||
      (!less other.first pair.first && less pair.second other.second)

instance {First Second : Type}
    [Storage First] [LawfulStorage First]
    [Storage Second] [LawfulStorage Second] :
    LawfulStorage (Erpair First Second) where
  length_memory pair := by
    show (memory pair.first ++ memory pair.second).length = _
    rw [List.length_append, length_memory, length_memory]
    rfl
  memory_ofMemory bytes length := by
    have whole : bytes.length = size First + size Second := length
    show memory (ofMemory (bytes.take (size First)) : First) ++
      memory (ofMemory (bytes.drop (size First)) : Second) = bytes
    rw [memory_ofMemory _ (List.length_take_of_le (by omega)),
      memory_ofMemory _ (by rw [List.length_drop]; omega),
      List.take_append_drop]
  memory_initial := by
    show memory (initial : First) ++ memory (initial : Second) = _
    rw [memory_initial, memory_initial, List.replicate_append_replicate]
    rfl
  reverse_reverse pair := by
    show Erpair.mk (endianReverse (endianReverse pair.first))
      (endianReverse (endianReverse pair.second)) = pair
    rw [reverse_reverse, reverse_reverse]
  less_iff pair other := by
    show (less (endianReverse pair.first) (endianReverse other.first) ||
      (!less (endianReverse other.first) (endianReverse pair.first) &&
        less (endianReverse pair.second) (endianReverse other.second))) = true ↔
      memory pair.first ++ memory pair.second <
        memory other.first ++ memory other.second
    rw [append_lt_append_iff (by rw [length_memory, length_memory]),
      Bool.or_eq_true, Bool.and_eq_true, Bool.not_eq_true', ← Bool.not_eq_true,
      less_iff, less_iff, less_iff, List.not_lt, List.le_iff_lt_or_eq]
    tauto

/-- `fc::uint128`, with its high word first in memory. -/
structure Uint128 where
  hi : UInt64
  lo : UInt64
  deriving DecidableEq

/-- The words of an `fc::uint128` are laid out and compared as a pair of them. -/
def Uint128.words (value : Uint128) : Erpair UInt64 UInt64 :=
  ⟨value.hi, value.lo⟩

instance : Storage Uint128 where
  size := 16
  initial := ⟨0, 0⟩
  memory value := memory value.hi ++ memory value.lo
  ofMemory bytes := ⟨ofMemory (bytes.take 8), ofMemory (bytes.drop 8)⟩
  endianReverse value := ⟨endianReverse value.hi, endianReverse value.lo⟩
  less value other :=
    decide (value.hi < other.hi ∨ value.hi = other.hi ∧ value.lo < other.lo)

theorem Uint128.less_eq
    (value other : Uint128) :
    less value other = less value.words other.words := by
  show decide _ = (decide (value.hi < other.hi) ||
    (!decide (other.hi < value.hi) && decide (value.lo < other.lo)))
  rw [Bool.eq_iff_iff]
  simp only [decide_eq_true_iff, Bool.or_eq_true, Bool.and_eq_true,
    Bool.not_eq_true', decide_eq_false_iff_not, UInt64.lt_iff_toNat_lt,
    ← UInt64.toNat_inj]
  omega

instance : LawfulStorage Uint128 where
  length_memory value := length_memory value.words
  memory_ofMemory bytes length :=
    @memory_ofMemory (Erpair UInt64 UInt64) _ _ bytes length
  memory_initial := by decide
  reverse_reverse value := by
    show Uint128.mk (endianReverse (endianReverse value.hi))
      (endianReverse (endianReverse value.lo)) = value
    rw [reverse_reverse, reverse_reverse]
  less_iff value other := by
    rw [Uint128.less_eq]
    exact less_iff value.words other.words

/-! ## The string -/

/-- `fixed_string< Storage >`. -/
structure StoredString (Stored : Type) where
  data : Stored
  deriving DecidableEq

namespace StoredString

variable {Stored : Type} [Storage Stored]

/-- `memcpy` over the front of a value's memory. -/
def copyTo (value : Stored) (bytes : Text) : Stored :=
  ofMemory (bytes ++ (memory value).drop bytes.length)

/-- The constructor from `std::string`; the machine's own order is reversed. -/
def ofText (text : Text) : StoredString Stored where
  data :=
    endianReverse
      (if text.length ≤ size Stored then
        copyTo (initial : Stored) text
      else
        copyTo (initial : Stored) (text.take (size Stored)))

/-- `fixed_string::size`. -/
def size (string : StoredString Stored) : Nat :=
  let bytes := memory (endianReverse string.data)
  if bytes.getLast?.any (· ≠ 0) then
    Storage.size Stored
  else
    (cString bytes).length

/-- The conversion to `std::string`. -/
def toText (string : StoredString Stored) : Text :=
  let bytes := memory (endianReverse string.data)
  bytes.take
    (if bytes.getLast?.any (· ≠ 0) then
      Storage.size Stored
    else
      (cString bytes).length)

/-- `operator <`. -/
def less (string other : StoredString Stored) : Bool :=
  Storage.less string.data other.data

variable [LawfulStorage Stored]

/-- The bytes which the string stands for. -/
def key (string : StoredString Stored) : FixedString (Storage.size Stored) where
  bytes := memory (endianReverse string.data)
  length_bytes := length_memory _

theorem toText_eq
    (string : StoredString Stored) :
    string.toText = string.key.toText :=
  rfl

theorem size_eq
    (string : StoredString Stored) :
    string.size = string.key.size :=
  rfl

theorem key_ofText
    (text : Text) :
    (ofText text : StoredString Stored).key = FixedString.ofText text := by
  have copied : ∀ bytes : Text, bytes.length ≤ Storage.size Stored →
      memory (copyTo (initial : Stored) bytes) =
        zeroPadded (Storage.size Stored) bytes := by
    intro bytes fits
    rw [copyTo, memory_initial, List.drop_replicate, memory_ofMemory]
    · rfl
    · rw [List.length_append, List.length_replicate]
      omega
  apply FixedString.ext
  show memory (endianReverse (endianReverse _)) = _
  rw [reverse_reverse, FixedString.ofText_bytes]
  split
  case isTrue short =>
    rw [copied text short, List.take_of_length_le short]
    rfl
  case isFalse long =>
    have none : Storage.size Stored - text.length = 0 := by omega
    rw [copied _ (List.length_take_le _ _), zeroPadded, none,
      List.length_take_of_le (by omega), Nat.sub_self]

theorem less_iff
    (string other : StoredString Stored) :
    string.less other = true ↔ string.key.bytes < other.key.bytes := by
  have ordered := LawfulStorage.less_iff (endianReverse string.data)
    (endianReverse other.data)
  rwa [reverse_reverse, reverse_reverse] at ordered

end StoredString

/-! ## Strings without zeros -/

namespace FixedString

variable {width : Nat}

/-- A string which fits and has no zero keeps its size. -/
theorem size_ofText
    (fits : text.length ≤ width)
    (noZero : 0 ∉ text) :
    (ofText text : FixedString width).size = text.length := by
  rw [size]
  split
  case isTrue set =>
    rw [lastSet_ofText, Bool.and_eq_true, decide_eq_true_iff] at set
    cases last : text[width - 1]? with
    | none =>
        rw [last] at set
        exact absurd set.2 (by simp)
    | some byte =>
        have inside := (List.getElem?_eq_some_iff.1 last).1
        omega
  case isFalse =>
    have front : text.takeWhile (· ≠ 0) = text := by
      rw [List.takeWhile_eq_self_iff]
      intro byte member
      exact decide_eq_true (ne_of_mem_of_not_mem member noZero)
    rw [ofText_bytes, List.take_of_length_le fits, cString,
      List.takeWhile_append, front, if_pos rfl]
    simp

theorem toText_ofText
    (fits : text.length ≤ width)
    (noZero : 0 ∉ text) :
    (ofText text : FixedString width).toText = text := by
  rw [toText, size_ofText fits noZero, ofText_bytes,
    List.take_of_length_le fits, List.take_left]

end FixedString

/-! ## The three types -/

/-- The values which strings without zeros are stored as behave as these. -/
def KeepsStrings (Stored : Type) [Storage Stored] : Prop :=
  ∀ text other : Text,
    text.length ≤ Storage.size Stored →
    other.length ≤ Storage.size Stored →
    0 ∉ text →
    0 ∉ other →
      (StoredString.ofText text : StoredString Stored).toText = text ∧
      (StoredString.ofText text : StoredString Stored).size = text.length ∧
      ((StoredString.ofText text : StoredString Stored).less
          (StoredString.ofText other) = true ↔
        text < other)

theorem keepsStrings_of_lawful
    (Stored : Type)
    [Storage Stored]
    [LawfulStorage Stored] :
    KeepsStrings Stored := by
  intro text other fits otherFits noZero otherNoZero
  refine ⟨?_, ?_, ?_⟩
  · rw [StoredString.toText_eq, StoredString.key_ofText,
      FixedString.toText_ofText fits noZero]
  · rw [StoredString.size_eq, StoredString.key_ofText,
      FixedString.size_ofText fits noZero]
  · rw [StoredString.less_iff, StoredString.key_ofText,
      StoredString.key_ofText, FixedString.ofText_bytes,
      FixedString.ofText_bytes, List.take_of_length_le fits,
      List.take_of_length_le otherFits]
    exact zeroPadded_lt_iff fits otherFits noZero otherNoZero

/-- The storage of `fixed_string_16`. -/
abbrev Storage16 := Uint128

/-- The storage of `fixed_string_24`. -/
abbrev Storage24 := Erpair Uint128 UInt64

/-- The storage of `fixed_string_32`. -/
abbrev Storage32 := Erpair Uint128 Uint128

/--
Strings of at most 16, 24 and 32 bytes without a zero come back from fixed
strings of these widths, with their size, and are ordered as by their bytes.
-/
theorem fixed_strings_keep_strings :
    (Storage.size Storage16 = 16 ∧ KeepsStrings Storage16) ∧
      (Storage.size Storage24 = 24 ∧ KeepsStrings Storage24) ∧
      (Storage.size Storage32 = 32 ∧ KeepsStrings Storage32) :=
  ⟨⟨rfl, keepsStrings_of_lawful Storage16⟩,
    ⟨rfl, keepsStrings_of_lawful Storage24⟩,
    ⟨rfl, keepsStrings_of_lawful Storage32⟩⟩

/-- In the first of them, `alice` comes before `bob`. -/
theorem alice_before_bob :
    (StoredString.ofText FixedString.aliceText :
        StoredString Storage16).less
      (StoredString.ofText [98, 111, 98]) = true :=
  (fixed_strings_keep_strings.1.2 FixedString.aliceText [98, 111, 98]
    (by decide) (by decide) (by decide) (by decide)).2.2.2 (by decide)

end BMChain.Protocol
