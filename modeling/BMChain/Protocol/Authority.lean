import BMChain.Protocol.Asset

/-!
# Account names and authorities
-/

namespace BMChain.Protocol

/--
`account_name_type`: the bytes of the storage, one character each, without
the zeros behind them.  A zero may stand between the others.
-/
abbrev AccountName := String

/-- `public_key_type`; zero is the default key `public_key_type()`. -/
abbrev PublicKey := Nat

/-- The bytes of a text field. -/
abbrev Text := List UInt8

/-- The C string at the front of a text, which is what `strcmp` reads. -/
def cString (text : Text) : Text :=
  text.takeWhile (· ≠ 0)

/-- `time_point_sec`: seconds since the epoch. -/
abbrev Time := Nat

/-- `time_point_sec::maximum`. -/
def maximumTime : Time := 2 ^ 32 - 1

/-- `operator +` of a time and a number of seconds, in 32 bits. -/
def addSeconds (time : Time) (seconds : Nat) : Time :=
  (time + seconds) % 2 ^ 32

/-! ## Account names -/

/-- `BMCHAIN_MIN_ACCOUNT_NAME_LENGTH`. -/
def minAccountNameLength : Nat := 3

/-- `BMCHAIN_MAX_ACCOUNT_NAME_LENGTH`. -/
def maxAccountNameLength : Nat := 16

/--
`operator std::string` of a name: the storage when its last byte is set, and
the bytes before the first zero otherwise.
-/
def nameText (name : AccountName) : String :=
  if name.length = maxAccountNameLength then name
  else String.ofList (name.toList.takeWhile fun char => char.toNat ≠ 0)

/-- `fixed_string::size`. -/
def nameSize (name : AccountName) : Nat :=
  (nameText name).length

/-- The letters which may start a label of a name. -/
def isNameLetter (char : Char) : Bool :=
  'a' ≤ char ∧ char ≤ 'z'

/-- The characters which may end a label of a name. -/
def isNameEnd (char : Char) : Bool :=
  isNameLetter char || ('0' ≤ char ∧ char ≤ '9')

/-- The characters which may stand inside a label of a name. -/
def isNameInner (char : Char) : Bool :=
  isNameEnd char || char = '-'

/-- The three tests which the loop makes on the label from `begin` to `end`. -/
def isValidLabel (label : List Char) : Bool :=
  match label with
  | [] => false
  | first :: rest =>
      match rest.reverse with
      | [] => isNameLetter first && isNameEnd first
      | last :: inner =>
          isNameLetter first && isNameEnd last && inner.all isNameInner

/--
The loop of `is_valid_account_name` from the position where `rest` begins.
Every round passes one dot, so the length of the name bounds the rounds.
-/
def validLabels : Nat → List Char → Bool
  | 0, _ => false
  | rounds + 1, rest =>
      let label := rest.takeWhile (· ≠ '.')
      if label.length < 3 then false
      else if !isValidLabel label then false
      else
        match rest.dropWhile (· ≠ '.') with
        | [] => true
        | _ :: next => validLabels rounds next

/-- `is_valid_account_name`. -/
def isValidAccountName (name : AccountName) : Bool :=
  let chars := name.toList
  if chars.length < minAccountNameLength then false
  else if maxAccountNameLength < chars.length then false
  else validLabels (chars.length + 1) chars

/-- `validate_account_name`. -/
def validateAccountName (name : AccountName) : Except Fault Unit :=
  require (isValidAccountName (nameText name)) "Account name is invalid"

/-! ## Authorities -/

/-- `authority`: weighted accounts and keys, each sorted by its own. -/
structure Authority where
  weightThreshold : Nat
  accountAuths : List (AccountName × Nat)
  keyAuths : List (PublicKey × Nat)
  deriving DecidableEq

namespace Authority

/-- The authority with no members. -/
def ofThreshold (threshold : Nat) : Authority :=
  ⟨threshold, [], []⟩

/-- `authority::is_impossible`. -/
def isImpossible (authority : Authority) : Bool :=
  (authority.accountAuths.map Prod.snd).sum +
    (authority.keyAuths.map Prod.snd).sum < authority.weightThreshold

/-- `authority::validate`. -/
def validate (authority : Authority) : Except Fault Unit :=
  authority.accountAuths.forM fun item =>
    require (isValidAccountName (nameText item.1))
      "is_valid_account_name( item.first )"

end Authority

end BMChain.Protocol
