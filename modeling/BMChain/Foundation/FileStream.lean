import Mathlib.Algebra.Group.Nat.Defs
import Mathlib.Tactic.Common

/-!
# Words and records in files

A file stream is open either for reading at a position or for appending.  Its
operations throw where a stream with exceptions does: there is nothing to
return after that.  Words have a fixed width and their lowest byte in front.
-/

namespace BMChain.Foundation

variable {value : Nat} {Value : Type}

/-! ## Words -/

/-- The bytes of a number, the lowest one in front. -/
def wordBytes : Nat → Nat → List UInt8
  | 0, _ => []
  | width + 1, value => UInt8.ofNat value :: wordBytes width (value / 256)

/-- The number with these bytes. -/
def wordOf : List UInt8 → Nat
  | [] => 0
  | byte :: rest => byte.toNat + 256 * wordOf rest

@[simp]
theorem length_wordBytes
    (width value : Nat) :
    (wordBytes width value).length = width := by
  induction width generalizing value with
  | zero => rfl
  | succ width induction =>
      rw [wordBytes, List.length_cons, induction]

/-- A number which fits into the width is read back. -/
theorem wordOf_wordBytes
    {width value : Nat}
    (fits : value < 256 ^ width) :
    wordOf (wordBytes width value) = value := by
  induction width generalizing value with
  | zero =>
      rw [Nat.pow_zero, Nat.lt_one_iff] at fits
      exact fits.symm
  | succ width induction =>
      have lower : (UInt8.ofNat value).toNat = value % 256 :=
        UInt8.toNat_ofNat'
      have upper : value / 256 < 256 ^ width := by
        rw [Nat.pow_succ] at fits
        exact Nat.div_lt_of_lt_mul (Nat.mul_comm _ _ ▸ fits)
      rw [wordBytes, wordOf, induction upper, lower]
      exact Nat.mod_add_div value 256

/-! ## Streams -/

/-- A file behind a stream, which is open for reading or for appending. -/
structure FileStream where
  bytes : List UInt8
  appending : Bool
  position : Nat
  deriving DecidableEq, Repr

/-- Offsets in a file are signed words of 64 bits. -/
def maxFileSize : Nat := 2 ^ 63

namespace FileStream

/-- Close the stream and open its file again. -/
def reopen (stream : FileStream) (appending : Bool) : FileStream :=
  { stream with appending := appending, position := 0 }

/-- `tellp` of a stream which appends: the end of the file. -/
def tellp (stream : FileStream) : Nat := stream.bytes.length

/-- `seekg`. -/
def seek (stream : FileStream) (position : Nat) : FileStream :=
  { stream with position := position }

/-- `seekg` to some bytes before the end, which fails before the beginning. -/
def seekFromEnd (stream : FileStream) (count : Nat) : Option FileStream :=
  if count ≤ stream.bytes.length then
    some (stream.seek (stream.bytes.length - count))
  else
    none

/-- `read`; the end of the file must not come before the last byte. -/
def read (stream : FileStream) (count : Nat) :
    Option (List UInt8 × FileStream) :=
  if stream.appending = false ∧
      stream.position + count ≤ stream.bytes.length then
    some ((stream.bytes.drop stream.position).take count,
      stream.seek (stream.position + count))
  else
    none

/-- Read a word of 64 bits. -/
def readWord (stream : FileStream) : Option (Nat × FileStream) := do
  let (bytes, stream) ← stream.read 8
  return (wordOf bytes, stream)

/-- Read a value with a parser, which returns what is left behind it. -/
def parse
    {Value : Type}
    (parser : List UInt8 → Option (Value × List UInt8))
    (stream : FileStream) :
    Option (Value × FileStream) :=
  if stream.appending then none
  else do
    let (value, rest) ← parser (stream.bytes.drop stream.position)
    return (value, stream.seek (stream.bytes.length - rest.length))

/-- `write`, at the end of the file. -/
def write (stream : FileStream) (data : List UInt8) : Option FileStream :=
  if stream.appending ∧
      stream.bytes.length + data.length < maxFileSize then
    some { stream with bytes := stream.bytes ++ data }
  else
    none

variable {stream after : FileStream} {before data rest : List UInt8}

/-! ## Reading what was written -/

theorem read_eq
    (reading : stream.appending = false)
    (bytes : stream.bytes = before ++ (data ++ rest))
    (position : stream.position = before.length) :
    stream.read data.length =
      some (data, stream.seek (before.length + data.length)) := by
  unfold read
  rw [if_pos ⟨reading, by rw [bytes, position]; simp⟩, bytes, position,
    List.drop_left, List.take_left]

theorem readWord_eq
    (reading : stream.appending = false)
    (bytes : stream.bytes = before ++ (wordBytes 8 value ++ rest))
    (position : stream.position = before.length)
    (fits : value < 2 ^ 64) :
    stream.readWord = some (value, stream.seek (before.length + 8)) := by
  have found := read_eq reading bytes position
  rw [length_wordBytes] at found
  unfold readWord
  rw [found]
  simp only [Option.bind_eq_bind, Option.bind_some]
  rw [wordOf_wordBytes (Nat.lt_of_lt_of_eq fits (by decide))]
  rfl

theorem parse_eq
    {parser : List UInt8 → Option (Value × List UInt8)}
    {value : Value}
    (reading : stream.appending = false)
    (bytes : stream.bytes = before ++ (data ++ rest))
    (position : stream.position = before.length)
    (parses : parser (data ++ rest) = some (value, rest)) :
    stream.parse parser =
      some (value, stream.seek (before.length + data.length)) := by
  have ends : stream.bytes.length - rest.length =
      before.length + data.length := by
    rw [bytes, List.length_append, List.length_append]
    omega
  unfold parse
  have behind : stream.bytes.drop stream.position = data ++ rest := by
    rw [bytes, position, List.drop_left]
  rw [if_neg (by rw [reading]; exact Bool.false_ne_true), behind, parses]
  simp only [Option.bind_eq_bind, Option.bind_some]
  rw [ends]
  rfl

/-- The last word of a file is found from its end. -/
theorem seekFromEnd_eq
    (bytes : stream.bytes = before ++ data) :
    stream.seekFromEnd data.length = some (stream.seek before.length) := by
  unfold seekFromEnd
  rw [if_pos (by rw [bytes]; simp), bytes, List.length_append,
    Nat.add_sub_cancel]

/-- The last word of any file which is long enough. -/
theorem lastWord_eq
    (reading : stream.appending = false)
    (long : 8 ≤ stream.bytes.length) :
    ∃ sought after,
      stream.seekFromEnd 8 = some sought ∧
        sought.readWord = some
          (wordOf (stream.bytes.drop (stream.bytes.length - 8)), after) := by
  have whole : (stream.bytes.drop (stream.bytes.length - 8)).length = 8 := by
    rw [List.length_drop]
    omega
  refine ⟨stream.seek (stream.bytes.length - 8),
    (stream.seek (stream.bytes.length - 8)).seek
      (stream.bytes.length - 8 + 8), if_pos long, ?_⟩
  unfold readWord read
  rw [if_pos ⟨reading, Nat.le_of_eq (Nat.sub_add_cancel long)⟩]
  simp only [Option.bind_eq_bind, Option.bind_some]
  unfold seek
  rw [List.take_of_length_le (Nat.le_of_eq whole)]
  rfl

theorem write_eq_some_iff :
    stream.write data = some after ↔
      (stream.appending = true ∧
        stream.bytes.length + data.length < maxFileSize) ∧
        after = { stream with bytes := stream.bytes ++ data } := by
  unfold write
  by_cases possible : stream.appending = true ∧
    stream.bytes.length + data.length < maxFileSize
  case pos =>
    rw [if_pos possible, Option.some.injEq, eq_comm]
    exact (and_iff_right possible).symm
  case neg =>
    rw [if_neg possible]
    exact ⟨fun impossible => (nomatch impossible),
      fun both => absurd both.1 possible⟩

/-- What fits into the file is written. -/
theorem exists_write
    (writing : stream.appending = true)
    (room : stream.bytes.length + data.length < maxFileSize) :
    ∃ after, stream.write data = some after ∧ after.appending = true ∧
      after.bytes = stream.bytes ++ data :=
  ⟨_, write_eq_some_iff.2 ⟨⟨writing, room⟩, rfl⟩, writing, rfl⟩

/-! ## Frames -/

/-- The file and the mode of the stream are the same, its position may differ. -/
structure Kept (stream after : FileStream) : Prop where
  bytes : after.bytes = stream.bytes
  appending : after.appending = stream.appending

theorem Kept.trans
    {last : FileStream}
    (first : Kept stream after)
    (second : Kept after last) :
    Kept stream last :=
  ⟨second.bytes.trans first.bytes, second.appending.trans first.appending⟩

theorem kept_seek (position : Nat) : Kept stream (stream.seek position) :=
  ⟨rfl, rfl⟩

theorem kept_seekFromEnd
    {count : Nat}
    (sought : stream.seekFromEnd count = some after) :
    Kept stream after := by
  unfold seekFromEnd at sought
  split at sought
  · cases sought
    exact kept_seek _
  · cases sought

theorem kept_readWord
    (found : stream.readWord = some (value, after)) :
    Kept stream after := by
  unfold readWord read at found
  split at found
  · cases found
    exact kept_seek _
  · cases found

theorem kept_parse
    {parser : List UInt8 → Option (Value × List UInt8)}
    {value : Value}
    (found : stream.parse parser = some (value, after)) :
    Kept stream after := by
  unfold parse at found
  split at found
  · cases found
  · simp only [Option.bind_eq_bind, Option.bind_eq_some_iff] at found
    rcases found with ⟨⟨value', rest⟩, -, same⟩
    cases same
    exact kept_seek _

end FileStream

end BMChain.Foundation
