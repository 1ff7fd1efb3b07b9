import BMChain.Protocol.AuthoritySearch

/-!
# The order of checks

The memo of `sign_state` holds accounts which were approved at any depth, so a
check may count an account which it could not reach within its own levels,
if an earlier check has approved it.  Accounts are therefore looked at twice:
what a check reaches on its own, and what it can count with the help of all
the accounts which the checks together may approve.  Where the second does
not exceed the first, the order of the checks does not matter.
-/

namespace BMChain.Protocol

open Std
open Foundation

variable {state : SignState} {name : AccountName}

variable {names : List AccountName} {key : PublicKey}

/-! ## Weights -/

/-- Some entries which count reach a bound, from a total. -/
def Weighs
    {Entry : Type}
    (counts : Entry → Prop)
    (entries : List (Entry × Nat))
    (total bound : Nat) :
    Prop :=
  ∃ counted : List (Entry × Nat), counted.Sublist entries ∧
    (∀ entry ∈ counted, counts entry.1) ∧
    bound ≤ total + (counted.map Prod.snd).sum

section Weights

variable {Entry : Type} {counts : Entry → Prop}
variable {entries : List (Entry × Nat)} {entry : Entry × Nat}
variable {total bound : Nat}

theorem Weighs.reached
    (enough : bound ≤ total) :
    Weighs counts entries total bound :=
  ⟨[], List.nil_sublist entries, by simp, by simpa using enough⟩

theorem Weighs.skip
    (weighs : Weighs counts entries total bound) :
    Weighs counts (entry :: entries) total bound := by
  rcases weighs with ⟨counted, part, all, enough⟩
  exact ⟨counted, part.cons entry, all, enough⟩

theorem Weighs.count
    (first : counts entry.1)
    (weighs : Weighs counts entries (addWeight total entry.2) bound) :
    Weighs counts (entry :: entries) total bound := by
  rcases weighs with ⟨counted, part, all, enough⟩
  refine ⟨entry :: counted, part.cons_cons entry, ?_, ?_⟩
  · rw [List.forall_mem_cons]
    exact ⟨first, all⟩
  · have wrapped := addWeight_le total entry.2
    rw [List.map_cons, List.sum_cons]
    omega

theorem Weighs.more
    {larger : Nat}
    (weighs : Weighs counts entries total bound)
    (grows : total ≤ larger) :
    Weighs counts entries larger bound := by
  rcases weighs with ⟨counted, part, all, enough⟩
  exact ⟨counted, part, all, by omega⟩

/-- The first entry is counted, or the others are enough. -/
theorem Weighs.cases
    (weighs : Weighs counts (entry :: entries) total bound) :
    Weighs counts entries total bound ∨
      counts entry.1 ∧ Weighs counts entries (total + entry.2) bound := by
  rcases weighs with ⟨counted, part, all, enough⟩
  cases part with
  | cons _ rest => exact .inl ⟨counted, rest, all, enough⟩
  | cons_cons _ rest =>
      rw [List.forall_mem_cons] at all
      rw [List.map_cons, List.sum_cons] at enough
      exact .inr ⟨all.1, _, rest, all.2, by omega⟩

end Weights

/-- A total which has not reached the threshold does not run over. -/
def Open (threshold total : Nat) : Prop :=
  total < threshold ∨ threshold = 0

/-- No weight takes a total below the threshold beyond 32 bits. -/
def Fits {Entry : Type} (threshold : Nat) (entries : List (Entry × Nat)) :
    Prop :=
  ∀ entry ∈ entries, threshold + entry.2 ≤ 2 ^ 32

section Relations

variable (getter : AuthorityGetter)
variable (signatures : List PublicKey)
variable (given : List AccountName)

/-- An account which counts from the start. -/
def Known (name : AccountName) : Prop :=
  name = "temp" ∨ name ∈ given

/-- An account entry which a check with so many levels left descends into. -/
inductive EntryWithin : Nat → Authority → AccountName → Prop
  | here
      {levels : Nat}
      {authority : Authority}
      (entry : AccountName × Nat)
      (member : entry ∈ authority.accountAuths) :
      EntryWithin (levels + 1) authority entry.1
  | step
      {levels : Nat}
      {authority next : Authority}
      {name : AccountName}
      (entry : AccountName × Nat)
      (member : entry ∈ authority.accountAuths)
      (found : getter entry.1 = .ok next)
      (rest : EntryWithin levels next name) :
      EntryWithin (levels + 1) authority name

/-- An account which a check of one of the required accounts descends into. -/
def Visited (levels : Nat) (required : List AccountName)
    (name : AccountName) : Prop :=
  ∃ start ∈ required, ∃ authority, getter start = .ok authority ∧
    EntryWithin getter levels authority name

/--
An account which the checks may approve together: it counts from the start, or
is visited and has an authority which such accounts and the signatures satisfy.
-/
inductive Approvable (visited : AccountName → Prop) : AccountName → Prop
  | known (name : AccountName) (known : Known given name) :
      Approvable visited name
  | authority
      (name : AccountName)
      (authority : Authority)
      (visit : visited name)
      (found : getter name = .ok authority)
      (fromKeys : Nat)
      (keys : Weighs (· ∈ signatures) authority.keyAuths 0 fromKeys)
      (counted : List (AccountName × Nat))
      (part : counted.Sublist authority.accountAuths)
      (approvable : ∀ entry ∈ counted, Approvable visited entry.1)
      (enough :
        authority.weightThreshold ≤
          fromKeys + (counted.map Prod.snd).sum) :
      Approvable visited name

end Relations

namespace SignState

/-! ## States between two checks -/

section States

variable {seen : AccountName → Prop}

/-- Two states which hold the same keys, and the same of some accounts. -/
structure Like (seen : AccountName → Prop) (first second : SignState) :
    Prop where
  asks : first.getActive = second.getActive
  depth : first.maxRecursion = second.maxRecursion
  keys : ∀ key,
    key ∈ first.providedSignatures ∨ key ∈ first.availableKeys ↔
      key ∈ second.providedSignatures ∨ key ∈ second.availableKeys
  memo : ∀ name, seen name →
    (name ∈ first.approvedBy ↔ name ∈ second.approvedBy)

namespace Like

variable {first second third : SignState}

theorem refl (state : SignState) : Like seen state state :=
  ⟨rfl, rfl, fun _ => .rfl, fun _ _ => .rfl⟩

theorem symm
    (like : Like seen first second) :
    Like seen second first :=
  ⟨like.asks.symm, like.depth.symm, fun key => (like.keys key).symm,
    fun name known => (like.memo name known).symm⟩

theorem trans
    (like : Like seen first second)
    (next : Like seen second third) :
    Like seen first third :=
  ⟨like.asks.trans next.asks, like.depth.trans next.depth,
    fun key => (like.keys key).trans (next.keys key),
    fun name known => (like.memo name known).trans (next.memo name known)⟩

theorem mono
    {fewer : AccountName → Prop}
    (like : Like seen first second)
    (part : ∀ name, fewer name → seen name) :
    Like fewer first second :=
  { like with memo := fun name known => like.memo name (part name known) }

/-- A key which is signed can be marked. -/
theorem marked
    (signed : key ∈ state.providedSignatures ∨ key ∈ state.availableKeys) :
    Like (fun _ => True) state (state.markUsed key) where
  asks := rfl
  depth := rfl
  memo _ _ := .rfl
  keys other := by
    change _ ↔ other ∈ state.providedSignatures.insert key true ∨ _
    rw [ExtTreeMap.mem_insert, Std.compare_eq_iff_eq]
    constructor
    · rintro (provided | available)
      · exact .inl (.inr provided)
      · exact .inr available
    · rintro ((rfl | provided) | available)
      · exact signed
      · exact .inl provided
      · exact .inr available

/-- A question about a key changes nothing which matters. -/
theorem signedBy
    (state : SignState)
    (key : PublicKey) :
    ((state.signedBy key).1 = true ↔
        key ∈ state.providedSignatures ∨ key ∈ state.availableKeys) ∧
      Like (fun _ => True) state (state.signedBy key).2 := by
  have member : key ∈ state.providedSignatures ↔
      (state.providedSignatures[key]?).isSome = true :=
    ExtTreeMap.mem_iff_isSome_getElem?
  unfold SignState.signedBy
  cases found : state.providedSignatures[key]? with
  | none =>
      have absent : key ∉ state.providedSignatures := by
        rw [member, found]
        decide
      dsimp only
      split
      case isTrue available =>
        exact ⟨iff_of_true rfl (.inr available), marked (.inr available)⟩
      case isFalse unavailable =>
        exact ⟨iff_of_false Bool.false_ne_true
          (not_or.2 ⟨absent, unavailable⟩), .refl state⟩
  | some used =>
      have provided : key ∈ state.providedSignatures := by
        rw [member, found]
        rfl
      exact ⟨iff_of_true rfl (.inl provided), marked (.inl provided)⟩

end Like

end States

/-- The keys are fixed, and the memo holds accounts which may be approved. -/
structure Ready
    (getter : AuthorityGetter)
    (signatures : List PublicKey)
    (given : List AccountName)
    (depth : Nat)
    (visited : AccountName → Prop)
    (state : SignState) :
    Prop where
  asks : state.getActive = getter
  depth : state.maxRecursion = depth
  keys : ∀ key, key ∈ signatures ↔
    key ∈ state.providedSignatures ∨ key ∈ state.availableKeys
  known : ∀ name, Known given name → name ∈ state.approvedBy
  approved : ∀ name ∈ state.approvedBy,
    Approvable getter signatures given visited name

section Loops

variable {getter : AuthorityGetter}
variable {signatures : List PublicKey}
variable {given : List AccountName}
variable {depth : Nat}
variable {visited : AccountName → Prop}

/--
A check which always answers: with true when a sufficient condition holds, and
only if a necessary one does.
-/
def Decides
    (getter : AuthorityGetter)
    (signatures : List PublicKey)
    (given : List AccountName)
    (depth : Nat)
    (visited : AccountName → Prop)
    (enough needed : Prop)
    (check : SignState → Verdict) :
    Prop :=
  ∀ state, Ready getter signatures given depth visited state →
    ∃ signed after, check state = .ok (signed, after) ∧
      Ready getter signatures given depth visited after ∧
        (enough → signed = true) ∧ (signed = true → needed)

theorem Ready.of_like
    {after : SignState}
    (ready : Ready getter signatures given depth visited state)
    (like : Like (fun _ => True) state after) :
    Ready getter signatures given depth visited after where
  asks := like.asks.symm.trans ready.asks
  depth := like.depth.symm.trans ready.depth
  keys key := (ready.keys key).trans (like.keys key)
  known name known := (like.memo name trivial).1 (ready.known name known)
  approved name member := ready.approved name ((like.memo name trivial).2 member)

/-- A key is found signed exactly when it is among the signatures. -/
theorem Ready.signedBy
    (ready : Ready getter signatures given depth visited state)
    (key : PublicKey) :
    ∃ after, state.signedBy key = (decide (key ∈ signatures), after) ∧
      Ready getter signatures given depth visited after := by
  rcases Like.signedBy state key with ⟨found, like⟩
  refine ⟨_, Prod.ext ?_ rfl, ready.of_like like⟩
  rw [Bool.eq_iff_iff, found, decide_eq_true_eq, ready.keys key]

theorem Ready.approve
    (ready : Ready getter signatures given depth visited state)
    (approvable : Approvable getter signatures given visited name) :
    Ready getter signatures given depth visited
      { state with approvedBy := state.approvedBy.insert name } where
  asks := ready.asks
  depth := ready.depth
  keys := ready.keys
  known other known := List.mem_insert_of_mem (ready.known other known)
  approved other member := by
    rcases List.mem_insert_iff.1 member with rfl | earlier
    · exact approvable
    · exact ready.approved other earlier

theorem Decides.mono
    {enough stronger needed weaker : Prop}
    {check : SignState → Verdict}
    (decides :
      Decides getter signatures given depth visited enough needed check)
    (implies : stronger → enough)
    (follows : needed → weaker) :
    Decides getter signatures given depth visited stronger weaker check := by
  intro state ready
  rcases decides state ready with
    ⟨signed, after, ran, kept, complete, sound⟩
  exact ⟨signed, after, ran, kept, fun strong => complete (implies strong),
    fun yes => follows (sound yes)⟩

variable (answers : ∀ name, ∃ authority, getter name = .ok authority)

include answers

section Orders

variable {required : List AccountName}

end Orders

end Loops

end SignState

/-! ## Checks which do not meet -/

namespace SignState

variable {getter : AuthorityGetter} {depth : Nat} {seen : AccountName → Prop}

namespace Like

variable {first second : SignState}

/-- The loop over the keys finds the same in both states. -/
theorem checkKeys
    (like : Like seen first second)
    (threshold : Nat)
    (entries : List (PublicKey × Nat))
    (total : Nat) :
    ∃ found after later,
      SignState.checkKeys threshold entries total first = (found, after) ∧
        SignState.checkKeys threshold entries total second = (found, later) ∧
          Like seen after later ∧ Like (fun _ => True) first after := by
  induction entries generalizing total first second with
  | nil => exact ⟨some total, first, second, rfl, rfl, like, .refl first⟩
  | cons entry rest induction =>
      rcases entry with ⟨key, weight⟩
      have one := signedBy first key
      have other := signedBy second key
      have same : (first.signedBy key).1 = (second.signedBy key).1 :=
        Bool.eq_iff_iff.2 (one.1.trans ((like.keys key).trans other.1.symm))
      have next : Like seen (first.signedBy key).2 (second.signedBy key).2 :=
        ((one.2.symm.mono fun _ _ => trivial).trans like).trans
          (other.2.mono fun _ _ => trivial)
      have stay := one.2
      unfold SignState.checkKeys
      rcases asked : first.signedBy key with ⟨signed, marked⟩
      rcases asked' : second.signedBy key with ⟨signed', marked'⟩
      rw [asked] at same next stay
      rw [asked'] at same next
      dsimp only at same next stay
      subst same
      cases signed with
      | true =>
          dsimp only
          split
          case isTrue =>
            exact ⟨none, marked, marked', rfl, rfl, next, stay⟩
          case isFalse =>
            rcases induction next (addWeight total weight) with
              ⟨found, after, later, ran, ran', kept, leave⟩
            exact ⟨found, after, later, ran, ran', kept, stay.trans leave⟩
      | false =>
          rcases induction next total with
            ⟨found, after, later, ran, ran', kept, leave⟩
          exact ⟨found, after, later, ran, ran', kept, stay.trans leave⟩

/-- An account is approved in both states. -/
theorem approve
    (like : Like seen first second)
    (name : AccountName) :
    Like seen { first with approvedBy := first.approvedBy.insert name }
      { second with approvedBy := second.approvedBy.insert name } :=
  { like with
    memo := fun other known => by
      rw [List.mem_insert_iff, List.mem_insert_iff, like.memo other known] }

theorem approved
    (state : SignState)
    (known : seen name) :
    Like (fun other => ¬ seen other) state
      { state with approvedBy := state.approvedBy.insert name } := by
  refine ⟨rfl, rfl, fun _ => .rfl, fun other unseen => ?_⟩
  rw [List.mem_insert_iff, or_iff_right]
  rintro rfl
  exact unseen known

end Like

variable (answers : ∀ name, ∃ authority, getter name = .ok authority)

include answers

end SignState

end BMChain.Protocol
