import BMChain.Protocol.Authority

/-!
# Strings of fixed storage

An account name lives in sixteen raw bytes.  It is compared and indexed by
these bytes, but it is packed, shown and validated through its conversion to
`std::string`, which ends at the first zero byte unless the last byte of the
storage is set.  This file gives the storage, both conversions and the packing
over any codec of strings, and says which strings come back from the block log
as the key under which they were applied.
-/

namespace BMChain.Protocol

/-! ## The storage -/

/-- `fixed_string`, by the `width` bytes of its storage in memory order. -/
structure FixedString (width : Nat) where
  bytes : Text
  length_bytes : bytes.length = width
  deriving DecidableEq

namespace FixedString

variable {width : Nat}

@[ext]
theorem ext
    {left right : FixedString width}
    (same : left.bytes = right.bytes) :
    left = right := by
  cases left
  cases right
  cases same
  rfl

/-- The constructor from `std::string`: a short string leaves zeros behind it,
a long one is cut. -/
def ofText (text : Text) : FixedString width where
  bytes :=
    if text.length ≤ width then
      text ++ List.replicate (width - text.length) 0
    else
      text.take width
  length_bytes := by
    split
    · simp only [List.length_append, List.length_replicate]
      omega
    · simp only [List.length_take]
      omega

/-- Whether the last byte of the storage is set. -/
def lastSet (key : FixedString width) : Bool :=
  key.bytes.getLast?.any (· ≠ 0)

/-- `fixed_string::size`. -/
def size (key : FixedString width) : Nat :=
  if key.lastSet then width else (cString key.bytes).length

/-- The conversion to `std::string`. -/
def toText (key : FixedString width) : Text :=
  key.bytes.take key.size

/-! ## What the conversions keep -/

/-- A string and its first `width` bytes give one value. -/
theorem ofText_bytes
    (text : Text) :
    (ofText text : FixedString width).bytes =
      text.take width ++ List.replicate (width - text.length) 0 := by
  simp only [ofText]
  split
  case isTrue short => rw [List.take_of_length_le short]
  case isFalse long =>
    have none : width - text.length = 0 := by omega
    simp [none]

theorem toText_of_lastSet
    {key : FixedString width}
    (set : key.lastSet = true) :
    key.toText = key.bytes := by
  simp only [toText, size, set, if_true]
  exact List.take_of_length_le (Nat.le_of_eq key.length_bytes)

theorem toText_of_not_lastSet
    {key : FixedString width}
    (unset : key.lastSet = false) :
    key.toText = cString key.bytes := by
  simp only [toText, size, unset, Bool.false_eq_true, if_false]
  exact (List.prefix_iff_eq_take.1 (List.takeWhile_prefix _)).symm

/-- Nothing but zeros stands behind the first zero. -/
def ZerosBehind (text : Text) : Prop :=
  ∀ byte ∈ text.dropWhile (· ≠ 0), byte = 0

instance (text : Text) : Decidable (ZerosBehind text) :=
  inferInstanceAs (Decidable (∀ byte ∈ text.dropWhile (· ≠ 0), byte = 0))

theorem length_toText_le
    (key : FixedString width) :
    key.toText.length ≤ width := by
  simp only [toText, List.length_take, key.length_bytes]
  exact Nat.min_le_right _ _

/-- The storage is the string with zeros behind it, exactly when the string
comes back as the value it was taken from. -/
theorem ofText_toText_iff_padded
    (key : FixedString width) :
    ofText key.toText = key ↔
      key.bytes =
        key.toText ++ List.replicate (width - key.toText.length) 0 := by
  constructor
  · intro same
    conv_lhs => rw [← same]
    simp only [ofText, length_toText_le, if_true]
  · intro padded
    apply FixedString.ext
    simp only [ofText, length_toText_le, if_true]
    exact padded.symm

/-- A value comes back from its string exactly when its last byte is set or
nothing hides behind its first zero. -/
theorem ofText_toText_iff
    (key : FixedString width) :
    ofText key.toText = key ↔
      key.lastSet = true ∨ ZerosBehind key.bytes := by
  rw [ofText_toText_iff_padded]
  cases set : key.lastSet with
  | true =>
      simp [toText_of_lastSet set, key.length_bytes]
  | false =>
      rw [toText_of_not_lastSet set]
      have whole := List.takeWhile_append_dropWhile
        (p := fun byte : UInt8 => decide (byte ≠ 0)) (l := key.bytes)
      have total :
          (cString key.bytes).length +
            (key.bytes.dropWhile (· ≠ 0)).length = width := by
        rw [← List.length_append, cString, whole, key.length_bytes]
      have behind :
          width - (cString key.bytes).length =
            (key.bytes.dropWhile (· ≠ 0)).length := by
        omega
      rw [behind]
      conv_lhs => lhs; rw [← whole]
      rw [cString, List.append_cancel_left_eq]
      simp [List.eq_replicate_iff, ZerosBehind]

/-! ## Which strings are kept -/

/--
The strings whose storage is kept: the last byte which fits is set, or no
set byte stands behind a zero among those which fit.
-/
def Kept (width : Nat) (text : Text) : Prop :=
  text[width - 1]?.any (· ≠ 0) = true ∨ ZerosBehind (text.take width)

instance (text : Text) : Decidable (Kept width text) :=
  inferInstanceAs (Decidable (_ ∨ _))

theorem zerosBehind_append_zeros
    (text : Text)
    (count : Nat) :
    ZerosBehind (text ++ List.replicate count 0) ↔ ZerosBehind text := by
  simp only [ZerosBehind, List.dropWhile_append]
  split
  case isTrue none =>
    rw [List.isEmpty_iff.1 none]
    simp
  case isFalse =>
    simp only [List.mem_append, List.mem_replicate]
    constructor
    · intro zeros byte member
      exact zeros byte (Or.inl member)
    · rintro zeros byte (member | ⟨-, zero⟩)
      · exact zeros byte member
      · exact zero

/-- The last byte of the storage is the last byte of the string which fits. -/
theorem lastSet_ofText
    (text : Text) :
    (ofText text : FixedString width).lastSet =
      (decide (0 < width) && text[width - 1]?.any (· ≠ 0)) := by
  have size := (ofText text : FixedString width).length_bytes
  rw [lastSet, List.getLast?_eq_getElem?, size, ofText_bytes]
  cases width with
  | zero => simp
  | succ rest =>
      rw [Nat.add_sub_cancel]
      by_cases fits : rest < text.length
      · have inside : rest < (text.take (rest + 1)).length := by
          rw [List.length_take]
          omega
        rw [List.getElem?_append_left inside]
        simp
      · have short : text.length ≤ rest := Nat.le_of_not_lt fits
        have behind : (text.take (rest + 1)).length = text.length := by
          rw [List.length_take]
          omega
        have padded : rest - text.length < rest + 1 - text.length := by
          omega
        rw [List.getElem?_append_right (behind ▸ short), behind,
          List.getElem?_replicate, if_pos padded, List.getElem?_eq_none short]
        simp

theorem ofText_toText_ofText_iff
    (width : Nat)
    (text : Text) :
    ofText (ofText text : FixedString width).toText =
        (ofText text : FixedString width) ↔
      Kept width text := by
  rw [ofText_toText_iff, lastSet_ofText, ofText_bytes,
    zerosBehind_append_zeros]
  cases width with
  | zero => simp [Kept, ZerosBehind]
  | succ rest => simp [Kept]

end FixedString

/-! ## Packing -/

/--
The raw format of `std::string`: what is written for a string reads as that
string, whatever follows it.
-/
structure RawString where
  pack : Text → Text
  unpack : Text → Option (Text × Text)
  unpack_pack :
    ∀ text rest : Text, unpack (pack text ++ rest) = some (text, rest)

namespace FixedString

variable {width : Nat}
variable (raw : RawString)

/-- `fc::raw::pack` of a fixed string. -/
def pack (key : FixedString width) : Text :=
  raw.pack key.toText

/-- `fc::raw::unpack` into a fixed string. -/
def unpack (stream : Text) : Option (FixedString width × Text) :=
  (raw.unpack stream).map fun read => (ofText read.1, read.2)

theorem unpack_pack
    (key : FixedString width)
    (rest : Text) :
    unpack raw (pack raw key ++ rest) =
      some ((ofText key.toText : FixedString width), rest) := by
  simp only [unpack, pack, raw.unpack_pack, Option.map_some]

theorem unpack_of_read
    {stream text rest : Text}
    (read : raw.unpack stream = some (text, rest)) :
    unpack raw stream =
      some ((ofText text : FixedString width), rest) := by
  simp only [unpack, read, Option.map_some]

/-- The name which `validate_account_name` reads in a string of bytes. -/
def nameOf (text : Text) : AccountName :=
  String.ofList (text.map fun byte => Char.ofNat byte.toNat)

/--
What the nodes of a network rely on for two names read off the wire: a name
is read again as the same key, keys of one string are one key, and a key
whose string is a valid name is that name with zeros behind it.
-/
structure Survive (key other : FixedString width) : Prop where
  relayed :
    ∀ rest : Text, unpack raw (pack raw key ++ rest) = some (key, rest)
  otherRelayed :
    ∀ rest : Text, unpack raw (pack raw other ++ rest) = some (other, rest)
  separated : key.toText = other.toText → key = other
  constrained :
    isValidAccountName (nameOf key.toText) = true →
      key.bytes = key.toText ++ List.replicate (width - key.toText.length) 0
  otherConstrained :
    isValidAccountName (nameOf other.toText) = true →
      other.bytes =
        other.toText ++ List.replicate (width - other.toText.length) 0

/-- A key is read again as itself when its string gives it back. -/
theorem relayed_iff
    (key : FixedString width) :
    (∀ rest : Text, unpack raw (pack raw key ++ rest) = some (key, rest)) ↔
      ofText key.toText = key := by
  constructor
  · intro relayed
    have again := relayed []
    rw [unpack_pack] at again
    exact congrArg Prod.fst (Option.some.inj again)
  · intro same rest
    rw [unpack_pack, same]

theorem survive_iff
    (key other : FixedString width) :
    Survive raw key other ↔
      ofText key.toText = key ∧ ofText other.toText = other := by
  constructor
  · intro survive
    exact ⟨(relayed_iff raw key).1 survive.relayed,
      (relayed_iff raw other).1 survive.otherRelayed⟩
  · rintro ⟨same, otherSame⟩
    constructor
    case relayed => exact (relayed_iff raw key).2 same
    case otherRelayed => exact (relayed_iff raw other).2 otherSame
    case separated =>
      intro equal
      rw [← same, ← otherSame, equal]
    case constrained =>
      intro _
      exact (ofText_toText_iff_padded key).1 same
    case otherConstrained =>
      intro _
      exact (ofText_toText_iff_padded other).1 otherSame

/--
Two names read off the wire survive relay and replay exactly when no set byte
hides behind a zero in either string, unless the last byte of the storage is
set.
-/
theorem names_survive_relay_iff
    {stream otherStream text otherText rest otherRest : Text}
    (read : raw.unpack stream = some (text, rest))
    (otherRead : raw.unpack otherStream = some (otherText, otherRest)) :
    (∃ key other : FixedString width,
        unpack raw stream = some (key, rest) ∧
        unpack raw otherStream = some (other, otherRest) ∧
        Survive raw key other) ↔
      Kept width text ∧ Kept width otherText := by
  rw [← ofText_toText_ofText_iff width text,
    ← ofText_toText_ofText_iff width otherText, ← survive_iff raw]
  constructor
  · rintro ⟨key, other, keyRead, otherKeyRead, survive⟩
    rw [unpack_of_read raw read] at keyRead
    rw [unpack_of_read raw otherRead] at otherKeyRead
    cases keyRead
    cases otherKeyRead
    exact survive
  · intro survive
    exact ⟨ofText text, ofText otherText, unpack_of_read raw read,
      unpack_of_read raw otherRead, survive⟩

end FixedString

/-! ## The codec of the wire -/

/-- `unsigned_int`: seven bits a byte, the lowest first, the high bit set on
all but the last. -/
def packUnsigned : Nat → Nat → Text
  | 0, _ => []
  | rounds + 1, value =>
      if value < 128 then
        [UInt8.ofNat value]
      else
        UInt8.ofNat (value % 128 + 128) :: packUnsigned rounds (value / 128)

/-- The reading of an `unsigned_int`. -/
def unpackUnsigned : Text → Option (Nat × Text)
  | [] => none
  | byte :: rest =>
      if byte.toNat < 128 then
        some (byte.toNat, rest)
      else
        (unpackUnsigned rest).map fun read =>
          (byte.toNat % 128 + 128 * read.1, read.2)

theorem unpackUnsigned_pack
    (rounds value : Nat)
    (enough : value < rounds)
    (rest : Text) :
    unpackUnsigned (packUnsigned rounds value ++ rest) =
      some (value, rest) := by
  induction rounds generalizing value with
  | zero => exact absurd enough (Nat.not_lt_zero value)
  | succ rounds ih =>
      rw [packUnsigned]
      split
      case isTrue small =>
        have byte : (UInt8.ofNat value).toNat = value := by
          simp
          omega
        simp [unpackUnsigned, byte, small]
      case isFalse large =>
        have byte :
            (UInt8.ofNat (value % 128 + 128)).toNat = value % 128 + 128 := by
          simp
          omega
        have next : value / 128 < rounds := by omega
        have high : ¬value % 128 + 128 < 128 := by omega
        have low : (value % 128 + 128) % 128 = value % 128 := by omega
        rw [List.cons_append, unpackUnsigned, byte, if_neg high,
          ih (value / 128) next, Option.map_some, low, Nat.mod_add_div]

/-- `fc::raw` of a string: its size, then its bytes. -/
def rawString : RawString where
  pack text := packUnsigned (text.length + 1) text.length ++ text
  unpack stream := do
    let (size, rest) ← unpackUnsigned stream
    if size ≤ rest.length then
      some (rest.take size, rest.drop size)
    else
      none
  unpack_pack := by
    intro text rest
    rw [List.append_assoc,
      unpackUnsigned_pack _ _ (Nat.lt_succ_self text.length)]
    simp

namespace FixedString

/-- The bytes of `alice`. -/
def aliceText : Text := [97, 108, 105, 99, 101]

/-- The names `alice` and `alice.bob`, as they are sent, survive. -/
theorem names_survive_relay_alice :
    ∃ key other : FixedString 16,
      unpack rawString (5 :: aliceText) = some (key, []) ∧
      unpack rawString (9 :: (aliceText ++ [46, 98, 111, 98])) =
        some (other, []) ∧
      Survive rawString key other :=
  (names_survive_relay_iff rawString
      (show rawString.unpack (5 :: aliceText) = some (aliceText, []) by
        decide +kernel)
      (show rawString.unpack (9 :: (aliceText ++ [46, 98, 111, 98])) =
          some (aliceText ++ [46, 98, 111, 98], []) by
        decide +kernel)).2
    (by decide +kernel)

/--
A name sent as `alice`, a zero and one more letter passes for `alice` when it
is validated, but it is another key, and it is `alice` to a node which reads
it from the block log.
-/
theorem name_with_hidden_byte_changes :
    ∃ key reread : FixedString 16,
      unpack rawString (7 :: (aliceText ++ [0, 120])) = some (key, []) ∧
      unpack rawString (pack rawString key) = some (reread, []) ∧
      reread ≠ key ∧
      key.toText = reread.toText ∧
      isValidAccountName (nameOf key.toText) = true := by
  refine ⟨ofText (aliceText ++ [0, 120]), ofText aliceText, ?_⟩
  decide +kernel

end FixedString

end BMChain.Protocol
