import BMChain.Foundation.Decimal
import BMChain.Protocol.Authority
import Mathlib.Data.FinEnum
import Mathlib.Data.List.TakeWhile

/-!
# Assets as text

The text of an asset and the asset which is read from a text.  Trimming and the
reading of integers come from a library; the fraction is printed and read with
a one in front of it, and the amount is put together in 64-bit words which wrap
around.
-/

namespace BMChain.Protocol

open Foundation

variable {symbol : AssetSymbol} {text name : Text} {value : Int}

/-! ## Symbol words -/

/-- The number which bytes denote in memory order. -/
def littleEndian (bytes : Text) : Nat :=
  bytes.foldr (fun byte word => byte.toNat + 256 * word) 0

/-- The word with the decimals in its first byte and then the name. -/
def symbolOf (decimals : Nat) (name : Text) : AssetSymbol :=
  UInt64.ofNat (littleEndian (UInt8.ofNat decimals :: name))

theorem littleEndian_lt
    (bytes : Text) :
    littleEndian bytes < 256 ^ bytes.length := by
  induction bytes with
  | nil => exact Nat.one_pos
  | cons byte rest induction =>
      have small := byte.toNat_lt
      rw [List.length_cons, Nat.pow_succ]
      show byte.toNat + 256 * littleEndian rest < _
      omega

theorem littleEndian_byte
    (bytes : Text)
    (place : Nat) :
    littleEndian bytes / 256 ^ place % 256 = (bytes[place]?.getD 0).toNat := by
  induction bytes generalizing place with
  | nil => simp [littleEndian]
  | cons byte rest induction =>
      have small := byte.toNat_lt
      show (byte.toNat + 256 * littleEndian rest) / 256 ^ place % 256 = _
      cases place with
      | zero =>
          rw [Nat.pow_zero, Nat.div_one, List.getElem?_cons_zero,
            Option.getD_some]
          omega
      | succ place =>
          have next : (byte.toNat + 256 * littleEndian rest) / 256 =
              littleEndian rest := by
            omega
          rw [Nat.pow_succ', ← Nat.div_div_eq_div_mul, next,
            List.getElem?_cons_succ]
          exact induction place

/-- The bytes of a word are read in memory order. -/
theorem symbolByte_symbolOf
    {decimals : Nat}
    {place : Nat}
    (short : name.length ≤ 7)
    (inside : place < 8) :
    symbolByte (symbolOf decimals name) place =
      (UInt8.ofNat decimals :: name)[place]?.getD 0 := by
  apply UInt8.toNat_inj.1
  have fits : littleEndian (UInt8.ofNat decimals :: name) < 2 ^ 64 := by
    refine Nat.lt_of_lt_of_le (littleEndian_lt _) ?_
    have power : (256 : Nat) ^ 8 = 2 ^ 64 := by decide
    rw [← power]
    exact Nat.pow_le_pow_right (by decide) (Nat.succ_le_succ short)
  have shift : (UInt64.ofNat (8 * place)).toNat % 64 = 8 * place := by
    rw [UInt64.toNat_ofNat']
    omega
  have power : 2 ^ (8 * place) = 256 ^ place := Nat.pow_mul 2 8 place
  rw [symbolByte, symbolOf, UInt64.toNat_toUInt8, UInt64.toNat_shiftRight, shift,
    UInt64.toNat_ofNat', Nat.mod_eq_of_lt fits, Nat.shiftRight_eq_div_pow, power]
  exact littleEndian_byte _ place

/-- Numbers of as many digits are equal when their digits are. -/
theorem eq_of_digits
    {number other : Nat}
    (places : Nat)
    (bound : number < 256 ^ places)
    (otherBound : other < 256 ^ places)
    (same : ∀ place, place < places →
      number / 256 ^ place % 256 = other / 256 ^ place % 256) :
    number = other := by
  induction places generalizing number other with
  | zero =>
      rw [Nat.pow_zero, Nat.lt_one_iff] at bound otherBound
      rw [bound, otherBound]
  | succ places induction =>
      have low := same 0 (Nat.succ_pos places)
      have high : number / 256 = other / 256 := by
        rw [Nat.pow_succ] at bound otherBound
        refine induction (Nat.div_lt_of_lt_mul ?_) (Nat.div_lt_of_lt_mul ?_) ?_
        · rw [Nat.mul_comm]
          exact bound
        · rw [Nat.mul_comm]
          exact otherBound
        · intro place inside
          rw [Nat.div_div_eq_div_mul, Nat.div_div_eq_div_mul, ← Nat.pow_succ']
          exact same (place + 1) (Nat.succ_lt_succ inside)
      rw [Nat.pow_zero, Nat.div_one, Nat.div_one] at low
      omega

/-- A word is its eight bytes. -/
theorem symbol_ext
    {symbol other : AssetSymbol}
    (same : ∀ place, place < 8 →
      symbolByte symbol place = symbolByte other place) :
    symbol = other := by
  have byte : ∀ (symbol : AssetSymbol) (place : Nat), place < 8 →
      (symbolByte symbol place).toNat =
        symbol.toNat / 256 ^ place % 256 := by
    intro symbol place inside
    have shift : (UInt64.ofNat (8 * place)).toNat % 64 = 8 * place := by
      rw [UInt64.toNat_ofNat']
      omega
    have power : 2 ^ (8 * place) = 256 ^ place := Nat.pow_mul 2 8 place
    rw [symbolByte, UInt64.toNat_toUInt8, UInt64.toNat_shiftRight, shift,
      Nat.shiftRight_eq_div_pow, power]
  apply UInt64.toNat_inj.1
  refine eq_of_digits 8 symbol.toNat_lt other.toNat_lt ?_
  intro place inside
  rw [← byte symbol place inside, ← byte other place inside,
    same place inside]

/-- What is read of the name of a word. -/
structure NameRead (symbol : AssetSymbol) (name : Text) : Prop where
  short : name.length ≤ 6
  nonzero : 0 ∉ name
  bytes : ∀ place (inside : place < name.length),
    symbolByte symbol (place + 1) = name.get ⟨place, inside⟩

theorem NameRead.of_symbolName
    (named : symbolName symbol = .ok name) :
    NameRead symbol name := by
  simp only [symbolName, bind_eq_ok_iff, pure_eq_ok_iff] at named
  rcases named with ⟨_, -, rfl⟩
  have front := List.takeWhile_prefix (fun byte : UInt8 => decide (byte ≠ 0))
    (l := (List.range 6).map fun place => symbolByte symbol (place + 1))
  constructor
  case short =>
    have bound := front.length_le
    rw [List.length_map, List.length_range] at bound
    exact bound
  case nonzero =>
    intro member
    have kept := List.mem_takeWhile_imp member
    exact of_decide_eq_true kept rfl
  case bytes =>
    intro place inside
    rw [List.get_eq_getElem, front.getElem inside, List.getElem_map,
      List.getElem_range]

/-- The bytes of a word behind a name are zero. -/
def ZerosBehind (symbol : AssetSymbol) (name : Text) : Prop :=
  ∀ place < 8, name.length < place → symbolByte symbol place = 0

/-- A word is that of its decimals and its name when there is nothing behind. -/
theorem symbolOf_eq_iff
    (named : symbolName symbol = .ok name) :
    symbolOf (symbolByte symbol 0).toNat name = symbol ↔
      ZerosBehind symbol name := by
  have read := NameRead.of_symbolName named
  have short := read.short
  constructor
  case mp =>
    intro same place inside behind
    rw [← same, symbolByte_symbolOf (by omega) inside,
      List.getElem?_eq_none (by rw [List.length_cons]; omega),
      Option.getD_none]
  case mpr =>
    intro zeros
    apply symbol_ext
    intro place inside
    rw [symbolByte_symbolOf (by omega) inside]
    cases place with
    | zero => simp
    | succ place =>
        rw [List.getElem?_cons_succ]
        by_cases within : place < name.length
        · rw [List.getElem?_eq_getElem within, Option.getD_some,
            read.bytes place within]
          rfl
        · rw [List.getElem?_eq_none (by omega), Option.getD_none,
            zeros (place + 1) inside (by omega)]

example : symbolOf 3 [66, 77, 84] = bmtSymbol := by
  decide

/-! ## Printing -/

/-- `asset::decimals`. -/
def Asset.decimals (asset : Asset) : Except Fault Nat := do
  let result := (symbolByte asset.symbol 0).toNat
  require (result < 15) "result < 15"
  pure result

/-- The table of `asset::precision`. -/
def precisionTable : List Int :=
  [1, 10, 100, 1000, 10000, 100000, 1000000, 10000000, 100000000, 1000000000,
    10000000000, 100000000000, 1000000000000, 10000000000000, 100000000000000]

/-- The entry of the table for some decimals. -/
def precisionOf (decimals : Nat) : Int :=
  precisionTable[decimals]?.getD 0

/-- `asset::precision`. -/
def Asset.precision (asset : Asset) : Except Fault Int := do
  let decimals ← asset.decimals
  pure (precisionOf decimals)

/-- `fc::to_string` of a signed number. -/
def int64Text (value : Int) : Text :=
  if value < 0 then 45 :: decimal value.natAbs else decimal value.natAbs

/-- `asset::to_string`. -/
def Asset.toText (asset : Asset) : Except Fault Text := do
  let precision ← asset.precision
  let whole := int64Text (asset.amount.tdiv precision)
  let fraction :=
    if 1 < precision then
      46 :: (int64Text (precision + asset.amount.tmod precision)).drop 1
    else []
  let name ← symbolName asset.symbol
  pure (whole ++ fraction ++ 32 :: name)

theorem precisionOf_eq
    {decimals : Nat}
    (small : decimals < 15) :
    precisionOf decimals = 10 ^ decimals := by
  revert decimals
  decide

/-! ## Parsing -/

/-- What is used of a library for text. -/
structure TextLibrary where
  /-- Whether `fc::trim` removes a byte from the ends of a text. -/
  removed : UInt8 → Bool
  /-- `fc::to_int64`. -/
  toInt64 : Text → Except Fault Int

/-- `fc::trim`. -/
def TextLibrary.trim (lib : TextLibrary) (text : Text) : Text :=
  ((text.dropWhile lib.removed).reverse.dropWhile lib.removed).reverse

/-- The 64 bits of a result, as a signed number. -/
def wrapped (value : Int) : Int :=
  value.bmod (2 ^ 64)

/-- The decimals and the amount in front of the space. -/
def readNumber (lib : TextLibrary) (s : Text) (spacePos : Nat) :
    Except Fault (Nat × Int) :=
  match s.findIdx? (· = 46) with
  | some dotPos => do
      require (dotPos < spacePos) "space_pos > dot_pos"
      let intpart := s.take dotPos
      let fractpart := 49 :: (s.drop (dotPos + 1)).take (spacePos - dotPos - 1)
      -- `set_decimals` takes one byte.
      let decimals := (fractpart.length - 1) % 2 ^ 8
      require (decimals < 15) "d < 15"
      let precision := precisionOf decimals
      let whole ← lib.toInt64 intpart
      let fraction ← lib.toInt64 fractpart
      pure (decimals,
        wrapped (wrapped (wrapped (whole * precision) + fraction) - precision))
  | none => do
      let whole ← lib.toInt64 (s.take spacePos)
      pure (0, whole)

/-- `asset::from_string`. -/
def Asset.fromText (lib : TextLibrary) (source : Text) :
    Except Fault Asset := do
  let s := lib.trim source
  match s.findIdx? (· = 32) with
  | none => .error "space_pos != std::string::npos"
  | some spacePos => do
      let (decimals, amount) ← readNumber lib s spacePos
      let symbol := s.drop (spacePos + 1)
      require (symbol.length ≤ 6) "symbol_size <= 6"
      pure ⟨amount, symbolOf decimals symbol⟩

/-! ## Texts in parts -/

theorem wrapped_eq
    (fits : FitsInt64 value) :
    wrapped value = value := by
  rcases fits with ⟨low, high⟩
  exact Int.bmod_eq_of_le (by omega) (by omega)

/-- Only the last of the three results has to be wrapped. -/
theorem wrapped_steps
    (product digits precision : Int) :
    wrapped (wrapped (wrapped product + digits) - precision) =
      wrapped (product + digits - precision) := by
  simp only [wrapped, Int.bmod_add_bmod, Int.sub_eq_add_neg]

/-- What is not to be removed at its ends is not trimmed. -/
theorem TextLibrary.trim_eq_self
    {lib : TextLibrary}
    (starts : ∀ byte ∈ text.head?, lib.removed byte = false)
    (ends : ∀ byte ∈ text.getLast?, lib.removed byte = false) :
    lib.trim text = text := by
  have kept : ∀ other : Text, (∀ byte ∈ other.head?,
      lib.removed byte = false) → other.dropWhile lib.removed = other := by
    intro other first
    cases other with
    | nil => rfl
    | cons byte rest =>
        rw [List.dropWhile_cons_of_neg]
        rw [first byte rfl]
        decide
  rw [trim, kept text starts, kept text.reverse, List.reverse_reverse]
  rw [List.head?_reverse]
  exact ends

theorem findIdx?_cut
    {left rest : Text}
    {byte : UInt8}
    (free : byte ∉ left) :
    (left ++ byte :: rest).findIdx? (· = byte) = some left.length := by
  have none : left.findIdx? (· = byte) = none := by
    rw [List.findIdx?_eq_none_iff]
    intro other member
    refine decide_eq_false ?_
    rintro rfl
    exact free member
  rw [List.findIdx?_append, none, List.findIdx?_cons, decide_eq_true rfl]
  simp

/-- A number with a dot is read in two parts. -/
theorem fromText_fraction
    {lib : TextLibrary}
    {source whole fraction symbol : Text}
    (text : lib.trim source = whole ++ 46 :: (fraction ++ 32 :: symbol))
    (spaceFree : 32 ∉ whole ++ fraction)
    (dotFree : 46 ∉ whole) :
    Asset.fromText lib source = (do
      let decimals := fraction.length % 2 ^ 8
      require (decimals < 15) "d < 15"
      let integer ← lib.toInt64 whole
      let digits ← lib.toInt64 (49 :: fraction)
      require (symbol.length ≤ 6) "symbol_size <= 6"
      pure ⟨wrapped (integer * precisionOf decimals + digits -
        precisionOf decimals), symbolOf decimals symbol⟩) := by
  have space : (whole ++ 46 :: (fraction ++ 32 :: symbol)).findIdx? (· = 32) =
      some (whole.length + 1 + fraction.length) := by
    have free : 32 ∉ whole ++ 46 :: fraction := by
      simp only [List.mem_append, List.mem_cons, not_or] at spaceFree ⊢
      exact ⟨spaceFree.1, by decide, spaceFree.2⟩
    have cut := @findIdx?_cut _ symbol _ free
    rw [List.append_assoc, List.cons_append, List.length_append,
      List.length_cons] at cut
    rw [cut]
    congr 1
    omega
  have dot := @findIdx?_cut _ (fraction ++ 32 :: symbol) _ dotFree
  have before : whole.length < whole.length + 1 + fraction.length := by
    omega
  have between : whole.length + 1 + fraction.length - whole.length - 1 =
      fraction.length := by
    omega
  have behind : (whole ++ 46 :: (fraction ++ 32 :: symbol)).drop
      (whole.length + 1) = fraction ++ 32 :: symbol := by
    rw [← List.drop_drop, List.drop_left, List.drop_one, List.tail_cons]
  have rest : (whole ++ 46 :: (fraction ++ 32 :: symbol)).drop
      (whole.length + 1 + fraction.length + 1) = symbol := by
    rw [Nat.add_assoc, ← List.drop_drop, behind, ← List.drop_drop,
      List.drop_left, List.drop_one, List.tail_cons]
  simp only [Asset.fromText, readNumber, text, space, dot, require_pos before,
    between, behind, rest, List.take_left, List.length_cons,
    Nat.add_sub_cancel, wrapped_steps, bind_assoc, pure_bind]
  rfl

/-- A number without a dot is read as it is. -/
theorem fromText_whole
    {lib : TextLibrary}
    {source whole symbol : Text}
    (text : lib.trim source = whole ++ 32 :: symbol)
    (spaceFree : 32 ∉ whole)
    (dotFree : 46 ∉ whole ++ 32 :: symbol) :
    Asset.fromText lib source = (do
      let integer ← lib.toInt64 whole
      require (symbol.length ≤ 6) "symbol_size <= 6"
      pure ⟨integer, symbolOf 0 symbol⟩) := by
  have space := @findIdx?_cut _ symbol _ spaceFree
  have dot : (whole ++ 32 :: symbol).findIdx? (· = 46) = none := by
    rw [List.findIdx?_eq_none_iff]
    intro other member
    refine decide_eq_false ?_
    rintro rfl
    exact dotFree member
  have rest : (whole ++ 32 :: symbol).drop (whole.length + 1) = symbol := by
    rw [← List.drop_drop, List.drop_left, List.drop_one, List.tail_cons]
  simp only [Asset.fromText, readNumber, text, space, dot, rest, List.take_left,
    bind_assoc, pure_bind]

/-- A dot behind the space is refused. -/
theorem fromText_late_dot
    {lib : TextLibrary}
    {source whole symbol : Text}
    {asset : Asset}
    (text : lib.trim source = whole ++ 32 :: symbol)
    (spaceFree : 32 ∉ whole)
    (dotFree : 46 ∉ whole)
    (dotted : 46 ∈ symbol) :
    Asset.fromText lib source ≠ .ok asset := by
  have space := @findIdx?_cut _ symbol _ spaceFree
  rcases List.eq_append_cons_of_mem dotted with ⟨before, after, rfl, none⟩
  have free : 46 ∉ whole ++ 32 :: before := by
    simp only [List.mem_append, List.mem_cons, not_or]
    exact ⟨dotFree, by decide, none⟩
  have dot := @findIdx?_cut _ after _ free
  rw [List.append_assoc, List.cons_append, List.length_append,
    List.length_cons] at dot
  intro done
  simp only [Asset.fromText, readNumber, text, space, dot, bind_eq_ok_iff,
    require_eq_ok_iff] at done
  rcases done with ⟨_, ⟨_, early, -⟩, -⟩
  omega

/-! ## The round trip -/

theorem dot_notMem_of_digits
    (digits : ∀ byte ∈ text, DigitByte byte) :
    46 ∉ text ∧ 32 ∉ text := by
  constructor
  · exact fun member => absurd (digits 46 member) (by decide)
  · exact fun member => absurd (digits 32 member) (by decide)

theorem int64Text_of_nonneg
    (number : Nat) :
    int64Text number = decimal number := by
  rw [int64Text, if_neg (Int.not_lt.2 (Int.natCast_nonneg number)),
    Int.natAbs_natCast]

/-- An asset with some decimals and a name of one to six bytes. -/
structure Printable (lib : TextLibrary) (asset : Asset) (decimals : Nat)
    (name : Text) : Prop where
  nonneg : 0 ≤ asset.amount
  fits : asset.amount < 2 ^ 63
  places : asset.decimals = .ok decimals
  named : symbolName asset.symbol = .ok name
  some : name ≠ []
  bytes : ∀ byte ∈ name, byte ≠ 32 ∧ byte ≠ 46 ∧ lib.removed byte = false

theorem decimals_eq
    {asset : Asset}
    {decimals : Nat}
    (places : asset.decimals = .ok decimals) :
    decimals < 15 ∧ (symbolByte asset.symbol 0).toNat = decimals := by
  simp only [Asset.decimals, bind_eq_ok_iff, require_eq_ok_iff,
    pure_eq_ok_iff] at places
  rcases places with ⟨_, small, same⟩
  rw [← same]
  exact ⟨small, rfl⟩

/-- What is used of the library: digits stay, and integers come back. -/
structure TextLibrary.ReadsBack (lib : TextLibrary) : Prop where
  kept : ∀ byte, DigitByte byte → lib.removed byte = false
  inverse : ∀ value, FitsInt64 value → lib.toInt64 (int64Text value) = .ok value

/-- The text of an asset has the whole number and the digits of the fraction. -/
theorem toText_eq
    {lib : TextLibrary}
    {asset : Asset}
    {decimals : Nat}
    (printable : Printable lib asset decimals name) :
    ∃ whole fraction : Nat, fraction < 10 ^ decimals ∧
      asset.amount = whole * 10 ^ decimals + fraction ∧
        asset.toText =
          .ok (decimal whole ++
            (if decimals = 0 then []
              else 46 :: (decimal (10 ^ decimals + fraction)).drop 1) ++
                32 :: name) := by
  rcases Int.eq_ofNat_of_zero_le printable.nonneg with ⟨number, amount⟩
  have power : precisionOf decimals = ((10 ^ decimals : Nat) : Int) := by
    rw [precisionOf_eq (decimals_eq printable.places).1, Int.natCast_pow]
    rfl
  have table : asset.precision = .ok ((10 ^ decimals : Nat) : Int) := by
    rw [Asset.precision, printable.places, ok_bind, power]
    rfl
  have positive : 0 < 10 ^ decimals := Nat.pow_pos (by decide)
  refine ⟨number / 10 ^ decimals, number % 10 ^ decimals,
    Nat.mod_lt number positive, ?_, ?_⟩
  · have sum := Nat.div_add_mod number (10 ^ decimals)
    rw [Nat.mul_comm] at sum
    rw [amount]
    exact_mod_cast sum.symm
  · have several : (1 : Int) < ((10 ^ decimals : Nat) : Int) ↔
        ¬ decimals = 0 := by
      constructor
      · rintro large rfl
        exact absurd large (by decide)
      · intro some
        exact_mod_cast Nat.one_lt_pow some (by decide)
    rw [Asset.toText, table, amount]
    simp only [printable.named, bind, Except.bind, pure, Except.pure, ← Int.ofNat_tdiv,
      ← Int.ofNat_tmod, ← Int.natCast_add, int64Text_of_nonneg, several,
      ite_not]

/-- A printed text begins with a digit and ends with the name. -/
theorem trim_printed
    {lib : TextLibrary}
    {asset : Asset}
    {decimals : Nat}
    (reads : lib.ReadsBack)
    (printable : Printable lib asset decimals name)
    (whole : Nat)
    (middle : Text) :
    lib.trim (decimal whole ++ middle ++ 32 :: name) =
      decimal whole ++ middle ++ 32 :: name := by
  apply TextLibrary.trim_eq_self
  · rcases List.exists_cons_of_ne_nil (decimal_ne_nil whole) with
      ⟨digit, rest, front⟩
    intro byte first
    rw [front, List.append_assoc, List.cons_append, List.head?_cons,
      Option.mem_some_iff] at first
    subst first
    refine reads.kept digit (digitByte_of_mem_decimal whole digit ?_)
    rw [front]
    exact List.mem_cons_self
  · have some := printable.some
    intro byte last
    rw [List.getLast?_append, List.getLast?_cons,
      List.getLast?_eq_some_getLast some, Option.getD_some, Option.some_or,
      Option.mem_some_iff] at last
    subst last
    exact (printable.bytes _ (List.getLast_mem some)).2.2

/-- The text of an asset is read as its amount, its decimals and its name. -/
theorem fromText_toText
    {lib : TextLibrary}
    {asset : Asset}
    {decimals : Nat}
    (reads : lib.ReadsBack)
    (printable : Printable lib asset decimals name) :
    ∃ text, asset.toText = .ok text ∧
      Asset.fromText lib text =
        .ok ⟨asset.amount, symbolOf decimals name⟩ := by
  have short := (NameRead.of_symbolName printable.named).short
  have small := (decimals_eq printable.places).1
  rcases toText_eq printable with ⟨whole, fraction, part, sum, printed⟩
  refine ⟨_, printed, ?_⟩
  have trimmed := trim_printed reads printable whole
  have digits := dot_notMem_of_digits (digitByte_of_mem_decimal whole)
  have nameDot : 46 ∉ name := fun member =>
    (printable.bytes 46 member).2.1 rfl
  have high := printable.fits
  have positive : 0 < 10 ^ decimals := Nat.pow_pos (by decide)
  have below : whole ≤ whole * 10 ^ decimals :=
    Nat.le_mul_of_pos_right whole positive
  have scaled : (whole : Int) * 10 ^ decimals =
      ((whole * 10 ^ decimals : Nat) : Int) := by
    rw [Int.natCast_mul, Int.natCast_pow]
    rfl
  rw [scaled] at sum
  have front : lib.toInt64 (decimal whole) = .ok (whole : Int) := by
    rw [← int64Text_of_nonneg]
    exact reads.inverse _ ⟨by omega, by omega⟩
  by_cases plain : decimals = 0
  · subst plain
    rw [if_pos rfl, List.append_nil]
    have read := trimmed []
    rw [List.append_nil] at read
    have dotFree : 46 ∉ decimal whole ++ 32 :: name := by
      simp only [List.mem_append, List.mem_cons, not_or]
      exact ⟨digits.1, by decide, nameDot⟩
    rw [fromText_whole read digits.2 dotFree, front, ok_bind,
      require_pos short, ok_bind]
    have same : (whole : Int) = asset.amount := by
      omega
    rw [same]
    rfl
  · rw [if_neg plain]
    rcases decimal_leading_one part with ⟨rest, one, length⟩
    have restDigits := digitByte_of_mem_decimal (10 ^ decimals + fraction)
    rw [one, List.forall_mem_cons] at restDigits
    rw [one, List.drop_one, List.tail_cons]
    have read := trimmed (46 :: rest)
    have places : decimals % 2 ^ 8 = decimals :=
      Nat.mod_eq_of_lt (by omega)
    have limit : 10 ^ decimals ≤ 10 ^ 14 :=
      Nat.pow_le_pow_right (by decide) (by omega)
    have back : lib.toInt64 (49 :: rest) =
        .ok ((10 ^ decimals + fraction : Nat) : Int) := by
      rw [← one, ← int64Text_of_nonneg]
      exact reads.inverse _ ⟨by omega, by omega⟩
    rw [List.append_assoc, List.cons_append] at read ⊢
    have free : 32 ∉ decimal whole ++ rest := by
      simp only [List.mem_append, not_or]
      exact ⟨digits.2, (dot_notMem_of_digits restDigits.2).2⟩
    rw [fromText_fraction read free digits.1, length, places]
    have together : (whole : Int) * precisionOf decimals +
        ((10 ^ decimals + fraction : Nat) : Int) - precisionOf decimals =
          asset.amount := by
      rw [precisionOf_eq small, scaled]
      push_cast at sum ⊢
      omega
    simp only [require_pos small, require_pos short, front,
      back, ok_bind, together]
    rw [wrapped_eq ⟨by have low := printable.nonneg; omega, high⟩]
    rfl

/--
The text of an asset is read as its amount and, unless its word has bytes
behind the name, as its word.
-/
theorem asset_text_round_trip
    {lib : TextLibrary}
    {asset : Asset}
    {decimals : Nat}
    {name : Text}
    (reads : lib.ReadsBack)
    (printable : Printable lib asset decimals name) :
    ∃ text read, asset.toText = .ok text ∧
      Asset.fromText lib text = .ok read ∧ read.amount = asset.amount ∧
        (read.symbol = asset.symbol ↔ ZerosBehind asset.symbol name) := by
  rcases fromText_toText reads printable with ⟨text, printed, back⟩
  refine ⟨text, _, printed, back, rfl, ?_⟩
  have read := symbolOf_eq_iff printable.named
  rw [(decimals_eq printable.places).2] at read
  exact read

/-! ## A library -/

/-- Digits with an optional minus sign. -/
def numeral (negative : Bool) (digits : Text) : Text :=
  if negative then 45 :: digits else digits

/-- A number with an optional minus sign. -/
def signed (negative : Bool) (number : Nat) : Int :=
  if negative then -number else number

/-- A blank of the C locale. -/
def isBlank (byte : UInt8) : Bool :=
  byte = 32 || (9 ≤ byte && byte ≤ 13)

/-- The sign of a text, and what is behind it. -/
def splitSign (text : Text) : Bool × Text :=
  match text with
  | [] => (false, [])
  | byte :: rest =>
      if byte = 45 then (true, rest)
      else if byte = 43 then (false, rest)
      else (false, byte :: rest)

/-- The number of a text of digits, when it is a signed word. -/
def readInt64 (text : Text) : Except Fault Int := do
  let (negative, digits) := splitSign text
  require (digits ≠ [] ∧ ∀ byte ∈ digits, DigitByte byte) "bad lexical cast"
  let value := signed negative (decimalValue digits)
  require (FitsInt64 value) "bad lexical cast"
  pure value

/-- A library which trims blanks and reads decimal integers. -/
def plainText : TextLibrary where
  removed := isBlank
  toInt64 := readInt64

/-- Digits are read as their number, when it is a signed word. -/
theorem readInt64_numeral
    {negative : Bool}
    {digits : Text}
    (some : digits ≠ [])
    (all : ∀ byte ∈ digits, DigitByte byte) :
    readInt64 (numeral negative digits) = .ok value ↔
      FitsInt64 (signed negative (decimalValue digits)) ∧
        signed negative (decimalValue digits) = value := by
  have split : splitSign (numeral negative digits) = (negative, digits) := by
    cases negative with
    | true => rfl
    | false =>
        cases digits with
        | nil => rfl
        | cons byte rest =>
            have digit := all byte List.mem_cons_self
            have minus : byte ≠ 45 := by
              rintro rfl
              exact absurd digit (by decide)
            have plus : byte ≠ 43 := by
              rintro rfl
              exact absurd digit (by decide)
            show splitSign (byte :: rest) = _
            rw [splitSign, if_neg minus, if_neg plus]
  simp only [readInt64, split, bind_eq_ok_iff, require_eq_ok_iff,
    pure_eq_ok_iff, exists_const, ne_eq, some, not_false_eq_true, true_and]
  exact ⟨fun read => ⟨read.2.1, read.2.2⟩, fun fits => ⟨all, fits.1, fits.2⟩⟩

theorem int64Text_eq_numeral
    (value : Int) :
    int64Text value = numeral (decide (value < 0)) (decimal value.natAbs) := by
  rw [int64Text, numeral]
  simp only [decide_eq_true_iff]

theorem readsBack_plainText :
    plainText.ReadsBack := by
  constructor
  · intro byte digit
    rcases digit with ⟨low, high⟩
    have notSpace : byte ≠ 32 := by
      rintro rfl
      exact absurd low (by decide)
    have above : ¬ byte ≤ 13 := by
      rw [UInt8.le_iff_toNat_le]
      exact Nat.not_le.2 (Nat.lt_of_lt_of_le (by decide) low)
    simp [plainText, isBlank, notSpace, above]
  · intro value fits
    have same : signed (decide (value < 0))
        (decimalValue (decimal value.natAbs)) = value := by
      rw [decimalValue_decimal, signed]
      simp only [decide_eq_true_iff]
      split <;> omega
    rw [int64Text_eq_numeral]
    refine (readInt64_numeral (decimal_ne_nil _)
      (digitByte_of_mem_decimal _)).2 ?_
    rw [same]
    exact ⟨fits, rfl⟩

/-- The most there can be of BMT. -/
def mostBmt : Asset :=
  ⟨9223372036854775807, bmtSymbol⟩

/-- The word of BMT with a letter behind a zero behind the name. -/
def bmtAndMore : Asset :=
  ⟨1000, UInt64.ofNat (littleEndian [3, 66, 77, 84, 0, 88])⟩

/-- The most there can be of BMT is printed and read. -/
theorem asset_text_round_trip_bmt :
    ∃ text, mostBmt.toText = .ok text ∧
      Asset.fromText plainText text = .ok mostBmt := by
  have zeros : ZerosBehind mostBmt.symbol [66, 77, 84] := by
    unfold ZerosBehind
    decide
  rcases @asset_text_round_trip plainText mostBmt 3 [66, 77, 84]
      readsBack_plainText
      ⟨by decide, by decide, by decide, by decide, by decide,
        by decide +kernel⟩ with
    ⟨text, ⟨amount, symbol⟩, printed, read, sameAmount, sameSymbol⟩
  refine ⟨text, printed, read.trans ?_⟩
  cases sameAmount
  cases sameSymbol.2 zeros
  rfl

/-- What is behind the zero is not printed, and so not read. -/
theorem asset_text_forgets :
    Printable plainText bmtAndMore 3 [66, 77, 84] ∧
      ∃ text, bmtAndMore.toText = .ok text ∧
        Asset.fromText plainText text = .ok ⟨1000, bmtSymbol⟩ ∧
          bmtAndMore.symbol ≠ bmtSymbol := by
  refine ⟨⟨by decide, by decide, by decide, by decide, by decide,
      by decide +kernel⟩, [49, 46, 48, 48, 48, 32, 66, 77, 84], ?_, ?_, ?_⟩
  · decide +kernel
  · decide +kernel
  · decide

end BMChain.Protocol
