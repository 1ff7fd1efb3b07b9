import BMChain.Foundation.GuardedFold
import BMChain.Protocol.Operation

/-!
# Verification of authorities

`sign_state` searches the graph of authorities for enough signatures, and
`verify_authority` asks it about every authority which the operations of a
transaction require.  The search keeps a memo of approved accounts, marks
the keys it meets, adds weights in 32 bits and stops at a fixed depth; the
graph may have cycles.

What the search is for is said by two least relations: an authority is
*satisfied* when enough of its entries count, and an account is *approved*
when it was given as approved or its authority is satisfied.
-/

namespace BMChain.Protocol

open Std
open Foundation

/-- `authority_getter`; asking for an account which does not exist throws. -/
abbrev AuthorityGetter := AccountName → Except Fault Authority

/--
What `verify_authority` throws: an exception of its own, or what a getter or an
assertion throws.
-/
inductive AuthorityFault where
  /-- `tx_missing_active_auth`. -/
  | missingActive (id : AccountName)
  /-- `tx_missing_owner_auth`. -/
  | missingOwner (id : AccountName)
  /-- `tx_missing_posting_auth`. -/
  | missingPosting (id : AccountName)
  /-- `tx_missing_other_auth`. -/
  | missingOther
  /-- `tx_irrelevant_sig`. -/
  | irrelevantSig
  | thrown (fault : Fault)
  deriving DecidableEq

namespace AuthorityFault

/-- The message of an exception. -/
def message : AuthorityFault → Fault
  | .missingActive id => "Missing Active Authority " ++ id
  | .missingOwner id => "Missing Owner Authority " ++ id
  | .missingPosting id => "Missing Posting Authority " ++ id
  | .missingOther => "Missing Authority"
  | .irrelevantSig => "Unnecessary signature(s) detected"
  | .thrown fault => fault

/-- `tx_missing_active_auth` of any account. -/
def isMissingActive : AuthorityFault → Bool
  | .missingActive _ => true
  | _ => false

end AuthorityFault

/-- `sign_state`. -/
structure SignState where
  getActive : AuthorityGetter
  availableKeys : List PublicKey
  providedSignatures : ExtTreeMap PublicKey Bool
  approvedBy : List AccountName
  maxRecursion : Nat

/-- What a check returns, with the state it leaves behind. -/
abbrev Verdict := Except Fault (Bool × SignState)

/-- Addition of weights, in 32 bits. -/
def addWeight (total weight : Nat) : Nat :=
  (total + weight) % 2 ^ 32

theorem addWeight_le (total weight : Nat) :
    addWeight total weight ≤ total + weight :=
  Nat.mod_le _ _

namespace SignState

/-- The constructor, with `approved_by` extended by the given approvals. -/
def start
    (signatures : List PublicKey)
    (getter : AuthorityGetter)
    (available : List PublicKey)
    (maxRecursion : Nat)
    (approvals : List AccountName) :
    SignState where
  getActive := getter
  availableKeys := available
  providedSignatures :=
    signatures.foldl (fun provided key => provided.insert key false) ∅
  approvedBy := "temp" :: approvals
  maxRecursion := maxRecursion

/-- `provided_signatures[k] = true`. -/
def markUsed (state : SignState) (key : PublicKey) : SignState :=
  { state with
    providedSignatures := state.providedSignatures.insert key true }

/-- `sign_state::signed_by`. -/
def signedBy (state : SignState) (key : PublicKey) : Bool × SignState :=
  match state.providedSignatures[key]? with
  | none =>
      if key ∈ state.availableKeys then (true, state.markUsed key)
      else (false, state)
  | some _ => (true, state.markUsed key)

/--
The loop of `check_authority` over the keys.  It gives the weight it has
found, or none when the weight has reached the threshold and the function
has returned true.
-/
def checkKeys (threshold : Nat) :
    List (PublicKey × Nat) → Nat → SignState → Option Nat × SignState
  | [], total, state => (some total, state)
  | (key, weight) :: rest, total, state =>
      match state.signedBy key with
      | (true, state) =>
          if threshold ≤ addWeight total weight then (none, state)
          else checkKeys threshold rest (addWeight total weight) state
      | (false, state) => checkKeys threshold rest total state

/--
The loop of `check_authority` over the accounts and its last line.  `deeper`
is the check one level down, or none at the last level, where accounts which
are not approved yet are passed over.
-/
def checkAccounts
    (deeper : Option (Authority → SignState → Verdict))
    (threshold : Nat) :
    List (AccountName × Nat) → Nat → SignState → Verdict
  | [], total, state => .ok (decide (threshold ≤ total), state)
  | (name, weight) :: rest, total, state =>
      if name ∈ state.approvedBy then
        if threshold ≤ addWeight total weight then .ok (true, state)
        else
          checkAccounts deeper threshold rest (addWeight total weight) state
      else
        match deeper with
        | none => checkAccounts deeper threshold rest total state
        | some check => do
            let authority ← state.getActive name
            let (signed, state) ← check authority state
            if signed then
              let state :=
                { state with approvedBy := state.approvedBy.insert name }
              if threshold ≤ addWeight total weight then .ok (true, state)
              else
                checkAccounts deeper threshold rest
                  (addWeight total weight) state
            else checkAccounts deeper threshold rest total state

/-- The body of `check_authority`: the keys first, then the accounts. -/
def checkEntries
    (deeper : Option (Authority → SignState → Verdict))
    (authority : Authority)
    (state : SignState) :
    Verdict :=
  match checkKeys authority.weightThreshold authority.keyAuths 0 state with
  | (none, state) => .ok (true, state)
  | (some total, state) =>
      checkAccounts deeper authority.weightThreshold
        authority.accountAuths total state

/-- `sign_state::check_authority` with so many levels left below it. -/
def checkAuthorityAt : Nat → Authority → SignState → Verdict
  | 0 => checkEntries none
  | levels + 1 => checkEntries (some (checkAuthorityAt levels))

/-- `sign_state::check_authority` of an authority. -/
def checkAuthority (authority : Authority) (state : SignState) : Verdict :=
  checkAuthorityAt state.maxRecursion authority state

/-- `sign_state::check_authority` of an account. -/
def checkAccount (name : AccountName) (state : SignState) : Verdict :=
  if name ∈ state.approvedBy then .ok (true, state)
  else do
    let authority ← state.getActive name
    state.checkAuthority authority

/-- `check_authority` of what a getter says about an account. -/
def checkOf
    (getter : AuthorityGetter)
    (name : AccountName)
    (state : SignState) :
    Verdict := do
  let authority ← getter name
  state.checkAuthority authority

/-- The operator `||` between two checks. -/
def orElse
    (first second : SignState → Verdict)
    (state : SignState) :
    Verdict := do
  let (signed, state) ← first state
  if signed then .ok (true, state) else second state

/-- `BMCHAIN_ASSERT` of a check. -/
def assertCheck
    (check : SignState → Verdict)
    (fault : AuthorityFault)
    (state : SignState) :
    Except AuthorityFault SignState := do
  let (signed, state) ← (check state).mapError .thrown
  require (signed = true) fault
  pure state

/-- `sign_state::remove_unused_signatures`. -/
def removeUnusedSignatures (state : SignState) : Bool × SignState :=
  (state.providedSignatures.toList.any (fun entry => !entry.2),
    { state with
      providedSignatures :=
        state.providedSignatures.filter fun _ used => used })

end SignState

/-- `flat_set::insert`. -/
def insertName (name : AccountName) : List AccountName → List AccountName
  | [] => [name]
  | first :: rest =>
      if name = first then first :: rest
      else if name < first then name :: first :: rest
      else first :: insertName name rest

/-- The flat set of the given names. -/
def flatSet (names : List AccountName) : List AccountName :=
  names.foldl (fun set name => insertName name set) []

open SignState in
/-- `verify_authority`. -/
def verifyAuthority
    (ops : List Operation)
    (signatures : List PublicKey)
    (getActive getOwner getPosting : AuthorityGetter)
    (maxRecursionDepth : Nat)
    (_allowCommittee : Bool)
    (activeApprovals ownerApprovals postingApprovals : List AccountName) :
    Except AuthorityFault Unit := do
  let requiredActive := flatSet (ops.flatMap Operation.requiredActive)
  let requiredOwner := flatSet (ops.flatMap Operation.requiredOwner)
  let requiredPosting := flatSet (ops.flatMap Operation.requiredPosting)
  let other := ops.flatMap Operation.requiredAuthorities
  if requiredPosting ≠ [] then
    require (requiredActive = [])
      (AuthorityFault.thrown "required_active.size() == 0")
    require (requiredOwner = [])
      (AuthorityFault.thrown "required_owner.size() == 0")
    require (other = []) (AuthorityFault.thrown "other.size() == 0")
    let state :=
      start signatures getPosting [] maxRecursionDepth postingApprovals
    let state ← requiredPosting.foldlM
      (fun state id =>
        state.assertCheck
          (orElse (checkAccount id)
            (orElse (checkOf getActive id) (checkOf getOwner id)))
          (.missingPosting id))
      state
    require (state.removeUnusedSignatures.1 = false) .irrelevantSig
  else
    let state :=
      start signatures getActive [] maxRecursionDepth
        (activeApprovals ++ ownerApprovals)
    let state ← other.foldlM
      (fun state authority =>
        state.assertCheck (checkAuthority authority) .missingOther)
      state
    let state ← requiredActive.foldlM
      (fun state id =>
        state.assertCheck (orElse (checkAccount id) (checkOf getOwner id))
          (.missingActive id))
      state
    let state ← requiredOwner.foldlM
      (fun state id =>
        if id ∈ ownerApprovals then .ok state
        else
          state.assertCheck (checkOf getOwner id)
            (.missingOwner id))
      state
    require (state.removeUnusedSignatures.1 = false) .irrelevantSig

end BMChain.Protocol
