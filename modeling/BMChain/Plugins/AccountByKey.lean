import BMChain.State.FootprintBlock
import BMChain.State.Holdings

/-!
# The lookup of accounts by key

The plugin keeps an index of the keys in the authorities of accounts.  Before
an operation it caches the keys of the account whose authority may change, and
after it the cache is compared with the new authority.  The cache is no part
of the database: what an operation which failed has left there stays until the
next operation which clears it.
-/

namespace BMChain.Plugins

open BMChain.Foundation BMChain.Protocol BMChain.State
open BMChain.State.Database
open Std (ExtTreeSet)

variable {ext : External}

variable {row : AccountAuthorityObject} {header : BlockHeader}

/-! ## The state of the plugin -/

/-- `key_lookup_object`. -/
structure KeyLookupObject where
  key : PublicKey
  account : AccountName
  deriving DecidableEq

/-- The database with the index of the plugin, and the cache beside them. -/
structure KeyPlugin where
  db : Database
  keyLookup : Table KeyLookupObject
  cachedKeys : ExtTreeSet PublicKey

/-- The keys of an authority object, as they are inserted into a set. -/
def insertAuths
    (keys : ExtTreeSet PublicKey)
    (authority : AccountAuthorityObject) :
    ExtTreeSet PublicKey :=
  (authority.owner.keyAuths ++ authority.active.keyAuths ++
    authority.posting.keyAuths).foldl (fun keys item => keys.insert item.1)
    keys

/-- A key occurs in the owner, the active or the posting authority. -/
def OccursIn (key : PublicKey) (authority : AccountAuthorityObject) : Prop :=
  key ∈ authority.owner.keyAuths.map Prod.fst ∨
    key ∈ authority.active.keyAuths.map Prod.fst ∨
      key ∈ authority.posting.keyAuths.map Prod.fst

namespace KeyPlugin

/-- `clear_cache`. -/
def clearCache (plugin : KeyPlugin) : KeyPlugin :=
  { plugin with cachedKeys := ∅ }

/-- `cache_auths`. -/
def cacheAuths (plugin : KeyPlugin) (authority : AccountAuthorityObject) :
    KeyPlugin :=
  { plugin with cachedKeys := insertAuths plugin.cachedKeys authority }

/-- The row of a key and an account in the index. -/
def findLookup (index : Table KeyLookupObject) (row : KeyLookupObject) :
    Option (Nat × KeyLookupObject) :=
  index.findBy fun other => other = row

/-- One round of the loop over the new keys. -/
def noteKey
    (account : AccountName)
    (state : Table KeyLookupObject × ExtTreeSet PublicKey)
    (key : PublicKey) :
    Table KeyLookupObject × ExtTreeSet PublicKey :=
  if key ∈ state.2 then (state.1, state.2.erase key)
  else
    match findLookup state.1 ⟨key, account⟩ with
    | none => (state.1.emplace ⟨key, account⟩, state.2)
    | some _ => state

/-- One round of the loop over the keys which are left in the cache. -/
def dropKey
    (account : AccountName)
    (index : Table KeyLookupObject)
    (key : PublicKey) :
    Table KeyLookupObject :=
  match findLookup index ⟨key, account⟩ with
  | some (id, _) => index.remove id
  | none => index

/-- `update_key_lookup`. -/
def updateKeyLookup
    (plugin : KeyPlugin)
    (authority : AccountAuthorityObject) :
    KeyPlugin :=
  let newKeys := insertAuths ∅ authority
  let noted := newKeys.toList.foldl (noteKey authority.account)
    (plugin.keyLookup, plugin.cachedKeys)
  { plugin with
    keyLookup := noted.2.toList.foldl (dropKey authority.account) noted.1
    cachedKeys := ∅ }

/-! ## The hooks -/

/-- The cache of the authority of an account, if it has one. -/
def cacheAccount (plugin : KeyPlugin) (name : AccountName) : KeyPlugin :=
  match plugin.db.authorities.find? name with
  | some authority => plugin.clearCache.cacheAuths authority
  | none => plugin.clearCache

/-- `pre_operation`. -/
def preOperation (plugin : KeyPlugin) : Operation → KeyPlugin
  | .accountCreate _ => plugin.clearCache
  | .accountCreateWithDelegation _ => plugin.clearCache
  | .accountUpdate op => plugin.cacheAccount op.account
  | .recoverAccount op => plugin.cacheAccount op.accountToRecover
  | .pow _ => plugin.clearCache
  | .pow2 _ => plugin.clearCache
  | _ => plugin

/-- The update for the authority of an account, if it has one. -/
def updateAccount (plugin : KeyPlugin) (name : AccountName) : KeyPlugin :=
  match plugin.db.authorities.find? name with
  | some authority => plugin.updateKeyLookup authority
  | none => plugin

/-- `post_operation`. -/
def postOperation (plugin : KeyPlugin) : Operation → KeyPlugin
  | .accountCreate op => plugin.updateAccount op.newAccountName
  | .accountCreateWithDelegation op => plugin.updateAccount op.newAccountName
  | .accountUpdate op => plugin.updateAccount op.account
  | .recoverAccount op => plugin.updateAccount op.accountToRecover
  | .pow op => plugin.updateAccount op.workerAccount
  | .pow2 op => plugin.updateAccount op.workerAccount
  | _ => plugin

/--
`apply_operation` between the two hooks.  When it throws, the second hook is
not called, and the state after the first one is what is left.
-/
def applyOperation (ext : External) (plugin : KeyPlugin) (op : Operation) :
    Except KeyPlugin KeyPlugin :=
  let noted := plugin.preOperation op
  match noted.db.applyOperation ext op with
  | .ok db => .ok ({ noted with db := db }.postOperation op)
  | .error _ => .error noted

/-- A transaction: a failure undoes the database and the index, but not the
cache. -/
def applyTransaction
    (ext : External)
    (plugin : KeyPlugin)
    (operations : List Operation) :
    KeyPlugin :=
  match operations.foldlM (applyOperation ext) plugin with
  | .ok after => after
  | .error failed => { plugin with cachedKeys := failed.cachedKeys }

end KeyPlugin

/-! ## The sets of keys -/

theorem mem_foldl_insert_keys
    {Weight : Type}
    (items : List (PublicKey × Weight))
    (keys : ExtTreeSet PublicKey)
    (key : PublicKey) :
    key ∈ items.foldl (fun keys item => keys.insert item.1) keys ↔
      key ∈ keys ∨ key ∈ items.map Prod.fst := by
  induction items generalizing keys with
  | nil => simp
  | cons item rest induction =>
      rw [List.foldl_cons, induction, ExtTreeSet.mem_insert, List.map_cons,
        List.mem_cons, Std.LawfulEqCmp.compare_eq_iff_eq]
      constructor
      · rintro ((same | inside) | member)
        · exact Or.inr (Or.inl same.symm)
        · exact Or.inl inside
        · exact Or.inr (Or.inr member)
      · rintro (inside | same | member)
        · exact Or.inl (Or.inr inside)
        · exact Or.inl (Or.inl same.symm)
        · exact Or.inr member

theorem mem_insertAuths
    (keys : ExtTreeSet PublicKey)
    (authority : AccountAuthorityObject)
    (key : PublicKey) :
    key ∈ insertAuths keys authority ↔ key ∈ keys ∨ OccursIn key authority := by
  rw [insertAuths, mem_foldl_insert_keys, OccursIn, List.map_append,
    List.map_append, List.mem_append, List.mem_append, or_assoc]

/-! ## The loops of the update -/

section Loops

variable {index : Table KeyLookupObject}
variable (account : AccountName)

theorem row_of_findLookup
    {row : KeyLookupObject}
    {entry : Nat × KeyLookupObject}
    (found : KeyPlugin.findLookup index row = some entry) :
    entry.2 = row := by
  have passed := Table.passed_of_findBy found
  rwa [decide_eq_true_eq] at passed

/-- What the search for a row says about the index. -/
theorem findLookup_eq_none_iff
    {row : KeyLookupObject} :
    KeyPlugin.findLookup index row = none ↔ ¬ index.Holds row := by
  constructor
  · rintro missing ⟨id, found⟩
    have refused := Table.refused_of_findBy missing found
    simp at refused
  · intro free
    cases found : KeyPlugin.findLookup index row with
    | none => rfl
    | some entry =>
        have there := Table.find?_of_findBy found
        rw [row_of_findLookup found] at there
        exact absurd ⟨entry.1, there⟩ free

/-- Removing the only copy of a row. -/
theorem holds_remove_iff
    (distinct : index.Distinct id)
    {row : KeyLookupObject}
    {place : Nat}
    (found : index.find? place = some row)
    (other : KeyLookupObject) :
    (index.remove place).Holds other ↔ index.Holds other ∧ row ≠ other := by
  constructor
  · rintro ⟨id, left⟩
    rw [Table.find?_remove] at left
    split at left
    · cases left
    case isFalse apart =>
      refine ⟨⟨id, left⟩, ?_⟩
      intro same
      exact apart (distinct place id row other found left same)
  · rintro ⟨holds, different⟩
    exact holds.remove found different

theorem noteKey_spec
    (distinct : index.Distinct id)
    (cached : ExtTreeSet PublicKey)
    (key : PublicKey) :
    (KeyPlugin.noteKey account (index, cached) key).1.Distinct id ∧
      (∀ row, (KeyPlugin.noteKey account (index, cached) key).1.Holds row ↔
        index.Holds row ∨ (row = ⟨key, account⟩ ∧ key ∉ cached)) ∧
      (∀ other, other ∈ (KeyPlugin.noteKey account (index, cached) key).2 ↔
        other ∈ cached ∧ other ≠ key) := by
  unfold KeyPlugin.noteKey
  split
  case isTrue inside =>
    refine ⟨distinct, ?_, ?_⟩
    · intro row
      simp [inside]
    · intro other
      rw [ExtTreeSet.mem_erase, Ne, Std.LawfulEqCmp.compare_eq_iff_eq]
      constructor
      · rintro ⟨different, member⟩
        exact ⟨member, fun same => different same.symm⟩
      · rintro ⟨member, different⟩
        exact ⟨fun same => different same.symm, member⟩
  case isFalse outside =>
    have rest (other : PublicKey) :
        other ∈ cached ↔ other ∈ cached ∧ other ≠ key := by
      constructor
      · intro member
        exact ⟨member, fun same => outside (same ▸ member)⟩
      · exact And.left
    split
    case h_1 missing =>
      have free := findLookup_eq_none_iff.1 missing
      refine ⟨?_, ?_, rest⟩
      · apply distinct.emplace
        intro place other found same
        cases (show other = ⟨key, account⟩ from same)
        exact free ⟨place, found⟩
      · intro row
        rw [Table.holds_emplace_iff]
        simp [outside, eq_comm]
    case h_2 entry found =>
      refine ⟨distinct, ?_, rest⟩
      intro row
      have there : index.Holds ⟨key, account⟩ := by
        by_contra free
        rw [findLookup_eq_none_iff.2 free] at found
        cases found
      constructor
      · exact Or.inl
      · rintro (holds | ⟨rfl, -⟩)
        · exact holds
        · exact there

theorem foldl_noteKey_spec
    {keys : List PublicKey}
    (distinct : index.Distinct id)
    (different : keys.Nodup)
    (cached : ExtTreeSet PublicKey) :
    (keys.foldl (KeyPlugin.noteKey account) (index, cached)).1.Distinct id ∧
      (∀ row,
        (keys.foldl (KeyPlugin.noteKey account) (index, cached)).1.Holds row ↔
          index.Holds row ∨
            (row.account = account ∧ row.key ∈ keys ∧ row.key ∉ cached)) ∧
      (∀ other,
        other ∈ (keys.foldl (KeyPlugin.noteKey account) (index, cached)).2 ↔
          other ∈ cached ∧ other ∉ keys) := by
  induction keys generalizing index cached with
  | nil =>
      refine ⟨distinct, ?_, ?_⟩ <;> simp
  | cons key rest induction =>
      rcases noteKey_spec account distinct cached key with
        ⟨still, holds, members⟩
      rcases List.nodup_cons.1 different with ⟨fresh, different⟩
      rcases induction still different
        (KeyPlugin.noteKey account (index, cached) key).2 with
        ⟨last, final, remaining⟩
      rw [List.foldl_cons]
      refine ⟨last, ?_, ?_⟩
      · intro row
        rw [final, holds, members]
        rcases row with ⟨rowKey, rowAccount⟩
        simp only [KeyLookupObject.mk.injEq, List.mem_cons]
        grind
      · intro other
        rw [remaining, members, List.mem_cons]
        grind

theorem dropKey_spec
    (distinct : index.Distinct id)
    (key : PublicKey) :
    (KeyPlugin.dropKey account index key).Distinct id ∧
      ∀ row, (KeyPlugin.dropKey account index key).Holds row ↔
        index.Holds row ∧ row ≠ ⟨key, account⟩ := by
  unfold KeyPlugin.dropKey
  split
  case h_1 place old found =>
    cases (show old = ⟨key, account⟩ from row_of_findLookup found)
    refine ⟨distinct.remove place, ?_⟩
    intro row
    rw [holds_remove_iff distinct (Table.find?_of_findBy found), Ne, eq_comm]
  case h_2 missing =>
    refine ⟨distinct, ?_⟩
    intro row
    constructor
    · intro holds
      refine ⟨holds, ?_⟩
      rintro rfl
      exact findLookup_eq_none_iff.1 missing holds
    · exact And.left

theorem foldl_dropKey_spec
    (keys : List PublicKey)
    (distinct : index.Distinct id) :
    (keys.foldl (KeyPlugin.dropKey account) index).Distinct id ∧
      ∀ row, (keys.foldl (KeyPlugin.dropKey account) index).Holds row ↔
        index.Holds row ∧ ¬(row.account = account ∧ row.key ∈ keys) := by
  induction keys generalizing index with
  | nil => simp [distinct]
  | cons key rest induction =>
      rcases dropKey_spec account distinct key with
        ⟨still, holds⟩
      rcases induction still with ⟨last, final⟩
      rw [List.foldl_cons]
      refine ⟨last, ?_⟩
      intro row
      rw [final, holds]
      rcases row with ⟨rowKey, rowAccount⟩
      simp only [Ne, KeyLookupObject.mk.injEq, List.mem_cons]
      grind

end Loops

/-! ## What an update leaves -/

section Update

variable {plugin : KeyPlugin}

theorem nodup_toList
    (keys : ExtTreeSet PublicKey) :
    keys.toList.Nodup := by
  refine ExtTreeSet.distinct_toList.imp ?_
  intro first second different same
  exact different (Std.LawfulEqCmp.compare_eq_iff_eq.2 same)

/-- The rows after an update: new keys join, and what is left in the cache
goes. -/
theorem updateKeyLookup_spec
    (distinct : plugin.keyLookup.Distinct id)
    (authority : AccountAuthorityObject) :
    (plugin.updateKeyLookup authority).keyLookup.Distinct id ∧
      ∀ row, (plugin.updateKeyLookup authority).keyLookup.Holds row ↔
        (plugin.keyLookup.Holds row ∨
            (row.account = authority.account ∧ OccursIn row.key authority ∧
              row.key ∉ plugin.cachedKeys)) ∧
          ¬(row.account = authority.account ∧
            row.key ∈ plugin.cachedKeys ∧ ¬ OccursIn row.key authority) := by
  have listed (key : PublicKey) :
      key ∈ (insertAuths ∅ authority).toList ↔ OccursIn key authority := by
    rw [ExtTreeSet.mem_toList, mem_insertAuths]
    simp
  rcases foldl_noteKey_spec authority.account distinct
    (nodup_toList (insertAuths ∅ authority)) plugin.cachedKeys with
    ⟨still, noted, left⟩
  rcases foldl_dropKey_spec authority.account _ still with ⟨last, dropped⟩
  refine ⟨last, ?_⟩
  intro row
  unfold KeyPlugin.updateKeyLookup
  rw [dropped, noted, listed, ExtTreeSet.mem_toList, left, listed]

/--
After an update the index is exact for the account, if before it every row of
the account had a key which is cached or new, and every new key which was
cached had a row.
-/
theorem updateKeyLookup_exact
    (distinct : plugin.keyLookup.Distinct id)
    (authority : AccountAuthorityObject)
    (known : ∀ key, plugin.keyLookup.Holds ⟨key, authority.account⟩ →
      OccursIn key authority ∨ key ∈ plugin.cachedKeys)
    (kept : ∀ key, OccursIn key authority → key ∈ plugin.cachedKeys →
      plugin.keyLookup.Holds ⟨key, authority.account⟩)
    (key : PublicKey) :
    (plugin.updateKeyLookup authority).keyLookup.Holds
        ⟨key, authority.account⟩ ↔
      OccursIn key authority := by
  rw [(updateKeyLookup_spec distinct authority).2]
  simp only [true_and]
  constructor
  · rintro ⟨held | ⟨occurs, -⟩, left⟩
    · rcases known key held with occurs | cached
      · exact occurs
      · by_contra gone
        exact left ⟨cached, gone⟩
    · exact occurs
  · intro occurs
    refine ⟨?_, fun gone => gone.2 occurs⟩
    by_cases cached : key ∈ plugin.cachedKeys
    · exact Or.inl (kept key occurs cached)
    · exact Or.inr ⟨occurs, cached⟩

/-- An update leaves the rows of other accounts alone. -/
theorem updateKeyLookup_other
    (distinct : plugin.keyLookup.Distinct id)
    (authority : AccountAuthorityObject)
    {row : KeyLookupObject}
    (other : row.account ≠ authority.account) :
    (plugin.updateKeyLookup authority).keyLookup.Holds row ↔
      plugin.keyLookup.Holds row := by
  rw [(updateKeyLookup_spec distinct authority).2]
  simp [other]

end Update

/-! ## What operations do to authorities -/

/-- Only the authority object of one account changes, and it stays its own. -/
structure ChangesAuthority
    (name : AccountName)
    (before after : Database) :
    Prop where
  others : ∀ other, other ≠ name →
    after.authorities.find? other = before.authorities.find? other
  missing : before.authorities.find? name = none →
    after.authorities.find? name = none
  owned : ∀ row, before.authorities.find? name = some row →
    ∃ changed, after.authorities.find? name = some changed ∧
      changed.account = row.account

instance (name : AccountName) :
    IsPreorder Database (ChangesAuthority name) where
  refl db :=
    ⟨fun _ _ => rfl, fun missing => missing, fun row found => ⟨row, found, rfl⟩⟩
  trans := by
    intro first second third one two
    constructor
    case others =>
      intro other different
      rw [two.others other different, one.others other different]
    case missing =>
      intro missing
      exact two.missing (one.missing missing)
    case owned =>
      intro row found
      rcases one.owned row found with ⟨changed, there, same⟩
      rcases two.owned changed there with ⟨last, final, equal⟩
      exact ⟨last, final, equal.trans same⟩

theorem ChangesAuthority.of_same
    {name : AccountName}
    {before after : Database}
    (same : after.authorities = before.authorities) :
    ChangesAuthority name before after := by
  constructor
  case others =>
    intro other _
    rw [same]
  case missing =>
    intro missing
    rw [same, missing]
  case owned =>
    intro row found
    exact ⟨row, same ▸ found, rfl⟩

theorem changesAuthority_modifyAuthority
    (db : Database)
    (name : AccountName)
    {change : AccountAuthorityObject → AccountAuthorityObject}
    (owned : ∀ row, (change row).account = row.account) :
    Respects (ChangesAuthority name) db (db.modifyAuthority name change) := by
  intro after done
  simp only [Database.modifyAuthority, modifyNamed, bind_eq_ok_iff,
    orFault_eq_ok_iff, pure_eq_ok_iff] at done
  rcases done with ⟨_, ⟨row, found, _, rfl, rfl⟩, rfl⟩
  have rows (other : AccountName) :
      (db.authorities.set name (change row)).find? other =
        if name = other then some (change row)
        else db.authorities.find? other := by
    rw [Register.find?, Register.set_rows found, getElem?_place]
    rfl
  constructor
  case others =>
    intro other different
    rw [rows, if_neg (Ne.symm different)]
  case missing =>
    intro missing
    rw [found] at missing
    cases missing
  case owned =>
    intro old there
    cases found.symm.trans there
    exact ⟨change row, by rw [rows, if_pos rfl], owned row⟩

theorem changesAuthority_updateOwner
    (db : Database)
    (name : AccountName)
    (owner : Authority) :
    Respects (ChangesAuthority name) db
      (db.updateOwnerAuthority name owner) := by
  refine .read fun _ _ => ?_
  exact .after (changesAuthority_modifyAuthority _ name fun _ => rfl)
    (.of_same rfl)

theorem changesAuthority_modifyAccount
    (db : Database)
    (name account : AccountName)
    (change : AccountObject → Except Fault AccountObject) :
    Respects (ChangesAuthority name) db (db.modifyAccount account change) := by
  intro after done
  rcases Database.accounts_of_modifyAccount done with ⟨accounts, rfl⟩
  exact .of_same rfl

theorem changesAuthority_accountUpdate
    (ext : External)
    (op : AccountUpdateOperation)
    (db : Database) :
    Respects (ChangesAuthority op.account) db
      (db.accountUpdateEvaluator ext op) := by
  refine .read fun _ _ => .read fun _ _ => .read fun _ _ => ?_
  refine .read fun authority _ => ?_
  have owner : Respects (ChangesAuthority op.account) db
      (db.changeOwner op authority.lastOwnerUpdate) := by
    unfold Database.changeOwner
    split
    · exact .unchanged
    · refine .read fun _ _ => .read fun _ _ => ?_
      exact changesAuthority_updateOwner db _ _
  refine .bind owner fun middle => ?_
  refine .read fun _ _ => .read fun _ _ => ?_
  refine .bind (changesAuthority_modifyAccount middle _ _ _) fun changed => ?_
  split
  · exact changesAuthority_modifyAuthority changed _ fun _ => rfl
  · exact .unchanged

theorem changesAuthority_recoverAccount
    (op : RecoverAccountOperation)
    (db : Database) :
    Respects (ChangesAuthority op.accountToRecover) db
      (db.recoverAccountEvaluator op) := by
  refine .read fun _ _ => .read fun _ _ => .read fun _ _ => ?_
  refine .read fun _ _ => .read fun _ _ => ?_
  refine .bind (.after (changesAuthority_updateOwner _ _ _) (.of_same rfl))
    fun middle => ?_
  exact changesAuthority_modifyAccount middle _ _ _

/-- A new authority object joins the others. -/
structure CreatesAuthority
    (name : AccountName)
    (before after : Database) :
    Prop where
  free : before.authorities.find? name = none
  others : ∀ other, other ≠ name →
    after.authorities.find? other = before.authorities.find? other
  created : ∃ row, after.authorities.find? name = some row ∧
    row.account = name

theorem createsAuthority_of_createNamed
    {before after : Database}
    {name : AccountName}
    {row : Nat → AccountAuthorityObject}
    (owned : ∀ id, (row id).account = name)
    (created : createNamed before.authorities name row = .ok after.authorities) :
    CreatesAuthority name before after := by
  simp only [createNamed, bind_eq_ok_iff, pure_eq_ok_iff, require_eq_ok_iff,
    Option.isNone_iff_eq_none] at created
  rcases created with ⟨_, free, equal⟩
  have rows (other : AccountName) :
      after.authorities.find? other =
        if name = other then some (row before.authorities.nextId)
        else before.authorities.find? other := by
    rw [← equal]
    exact getElem?_place before.authorities.rows name other (some _)
  constructor
  case free => exact free
  case others =>
    intro other different
    rw [rows, if_neg (Ne.symm different)]
  case created =>
    exact ⟨_, by rw [rows, if_pos rfl], owned _⟩

theorem CreatesAuthority.frame
    {name : AccountName}
    {before start middle after : Database}
    (creates : CreatesAuthority name start middle)
    (same : start.authorities = before.authorities)
    (kept : after.authorities = middle.authorities) :
    CreatesAuthority name before after := by
  constructor
  case free => exact same ▸ creates.free
  case others =>
    intro other different
    rw [kept, creates.others other different, same]
  case created => exact kept ▸ creates.created

theorem createsAuthority_accountCreate
    {op : AccountCreateOperation}
    {db after : Database}
    (done : db.accountCreateEvaluator ext op = .ok after) :
    CreatesAuthority op.newAccountName db after := by
  simp only [Database.accountCreateEvaluator, bind_eq_ok_iff] at done
  rcases done with ⟨_, -, _, -, _, -, _, -, _, -, _, -, _, -, _, -, done⟩
  rcases done with ⟨debited, debit, _, -, accounts, -, done⟩
  rcases done with ⟨authorities, created, paid, pay, emitted⟩
  have start := touches_addBalance db _ _ debited debit .authorities (by decide)
  have middle := touches_payFee _ _ paid pay .authorities (by decide)
  have last :=
    touches_processFundsBmchain paid _ after emitted .authorities (by decide)
  have opened : CreatesAuthority op.newAccountName debited
      { debited with accounts := accounts, authorities := authorities } :=
    createsAuthority_of_createNamed (fun _ => rfl) created
  exact opened.frame start (last.trans middle)

theorem createsAuthority_accountCreateWithDelegation
    {op : AccountCreateWithDelegationOperation}
    {db after : Database}
    (done : db.accountCreateWithDelegationEvaluator op = .ok after) :
    CreatesAuthority op.newAccountName db after := by
  simp only [accountCreateWithDelegationEvaluator, bind_eq_ok_iff] at done
  rcases done with ⟨_, -, _, -, _, -, _, -, _, -, _, -, _, -, _, -, done⟩
  rcases done with ⟨_, -, _, -, _, -, _, -, _, -, _, -, _, -, _, -, done⟩
  rcases done with ⟨_, -, _, -, debited, debit, accounts, -, done⟩
  rcases done with ⟨authorities, created, delegations, -, done⟩
  have start : debited.authorities = db.authorities := by
    rcases accounts_of_modifyAccount debit with ⟨_, rfl⟩
    rfl
  have opened : CreatesAuthority op.newAccountName debited
      { debited with
        accounts := accounts
        authorities := authorities
        delegations := delegations } :=
    createsAuthority_of_createNamed (fun _ => rfl) created
  refine opened.frame start ?_
  split at done
  case isFalse =>
    cases done
    rfl
  case isTrue =>
    rw [bind_eq_ok_iff] at done
    rcases done with ⟨⟨vested, _⟩, vest, equal⟩
    cases equal
    exact agrees_createVesting_shares vest .authorities (by decide)

/-- Every authority object stands under the name of its account. -/
def AuthoritiesOwned (db : Database) : Prop :=
  ∀ name row, db.authorities.find? name = some row → row.account = name

theorem AuthoritiesOwned.of_same
    {db after : Database}
    (owned : AuthoritiesOwned db)
    (same : after.authorities = db.authorities) :
    AuthoritiesOwned after := by
  unfold AuthoritiesOwned
  rw [same]
  exact owned

theorem AuthoritiesOwned.changed
    {db after : Database}
    {name : AccountName}
    (owned : AuthoritiesOwned db)
    (changes : ChangesAuthority name db after) :
    AuthoritiesOwned after := by
  intro other row there
  by_cases same : other = name
  · subst same
    cases before : db.authorities.find? other with
    | none =>
        rw [changes.missing before] at there
        cases there
    | some old =>
        rcases changes.owned old before with ⟨changed, found, equal⟩
        cases found.symm.trans there
        rw [equal]
        exact owned other old before
  · rw [changes.others other same] at there
    exact owned other row there

theorem AuthoritiesOwned.created
    {db after : Database}
    {name : AccountName}
    (owned : AuthoritiesOwned db)
    (creates : CreatesAuthority name db after) :
    AuthoritiesOwned after := by
  rcases creates.created with ⟨made, found, own⟩
  intro other row there
  by_cases same : other = name
  · subst same
    cases found.symm.trans there
    exact own
  · rw [creates.others other same] at there
    exact owned other row there

/-! ## The index is exact -/

/--
The invariant of the plugin: each row once, each authority object under its
account's name, and the rows of an account which did not exist at the start
are those of its keys.
-/
structure KeysExact (start : Database) (plugin : KeyPlugin) : Prop where
  distinct : plugin.keyLookup.Distinct id
  owned : AuthoritiesOwned plugin.db
  exact : ∀ name, start.authorities.find? name = none →
    ∀ key, plugin.keyLookup.Holds ⟨key, name⟩ ↔
      ∃ row, plugin.db.authorities.find? name = some row ∧ OccursIn key row

namespace KeysExact

variable {start after : Database}
variable {plugin : KeyPlugin}
variable {name : AccountName}

/-- The invariant does not look at the cache, and at nothing but the
authorities of the database. -/
theorem of_same
    {other : KeyPlugin}
    (exact : KeysExact start plugin)
    (index : other.keyLookup = plugin.keyLookup)
    (authorities : other.db.authorities = plugin.db.authorities) :
    KeysExact start other := by
  constructor
  case distinct => exact index ▸ exact.distinct
  case owned => exact exact.owned.of_same authorities
  case exact =>
    rw [index, authorities]
    exact exact.exact

/-- An update for an account, with what it needs of its rows and the cache. -/
theorem of_update
    (distinct : plugin.keyLookup.Distinct id)
    (owned : AuthoritiesOwned plugin.db)
    (found : plugin.db.authorities.find? name = some row)
    (others : ∀ other, other ≠ name →
      start.authorities.find? other = none →
        ∀ key, plugin.keyLookup.Holds ⟨key, other⟩ ↔
          ∃ row, plugin.db.authorities.find? other = some row ∧
            OccursIn key row)
    (known : start.authorities.find? name = none →
      ∀ key, plugin.keyLookup.Holds ⟨key, name⟩ →
        OccursIn key row ∨ key ∈ plugin.cachedKeys)
    (kept : start.authorities.find? name = none →
      ∀ key, OccursIn key row → key ∈ plugin.cachedKeys →
        plugin.keyLookup.Holds ⟨key, name⟩) :
    KeysExact start (plugin.updateAccount name) := by
  have own := owned name row found
  have updated : plugin.updateAccount name = plugin.updateKeyLookup row := by
    rw [KeyPlugin.updateAccount, found]
  rw [updated]
  constructor
  case distinct => exact (updateKeyLookup_spec distinct row).1
  case owned => exact owned
  case exact =>
    intro other absent key
    by_cases same : other = name
    · subst same
      have exact := updateKeyLookup_exact distinct row
        (by rw [own]; exact known absent) (by rw [own]; exact kept absent) key
      rw [own] at exact
      rw [exact]
      constructor
      · intro occurs
        exact ⟨row, found, occurs⟩
      · rintro ⟨last, there, occurs⟩
        cases found.symm.trans there
        exact occurs
    · rw [updateKeyLookup_other distinct row (by rw [own]; exact same)]
      exact others other same absent key

/-- A new account is indexed by its keys. -/
theorem created
    (exact : KeysExact start plugin)
    (creates : CreatesAuthority name plugin.db after) :
    KeysExact start
      ({ plugin.clearCache with db := after }.updateAccount name) := by
  rcases creates.created with ⟨row, found, -⟩
  refine of_update exact.distinct (exact.owned.created creates) found
    ?_ ?_ ?_
  · intro other different absent key
    rw [creates.others other different]
    exact exact.exact other absent key
  · intro absent key held
    rcases (exact.exact name absent key).1 held with ⟨old, there, -⟩
    rw [creates.free] at there
    cases there
  · intro _ key _ cached
    exact absurd cached ExtTreeSet.not_mem_empty

theorem mem_cacheAccount
    (found : plugin.db.authorities.find? name = some row)
    (key : PublicKey) :
    key ∈ (plugin.cacheAccount name).cachedKeys ↔ OccursIn key row := by
  rw [KeyPlugin.cacheAccount, found]
  show key ∈ insertAuths ∅ row ↔ _
  rw [mem_insertAuths]
  simp

theorem cacheAccount_keyLookup :
    (plugin.cacheAccount name).keyLookup = plugin.keyLookup := by
  unfold KeyPlugin.cacheAccount
  split <;> rfl

/-- An account whose authority changes is indexed by its new keys. -/
theorem changed
    (exact : KeysExact start plugin)
    (changes : ChangesAuthority name plugin.db after) :
    KeysExact start
      ({ plugin.cacheAccount name with db := after }.updateAccount name) := by
  have owned : AuthoritiesOwned after := exact.owned.changed changes
  have others : ∀ other, other ≠ name →
      start.authorities.find? other = none →
        ∀ key, plugin.keyLookup.Holds ⟨key, other⟩ ↔
          ∃ row, after.authorities.find? other = some row ∧
            OccursIn key row := by
    intro other different absent key
    rw [changes.others other different]
    exact exact.exact other absent key
  cases before : plugin.db.authorities.find? name with
  | none =>
      have missing := changes.missing before
      rw [KeyPlugin.updateAccount, missing]
      constructor
      case distinct =>
        show (plugin.cacheAccount name).keyLookup.Distinct id
        rw [cacheAccount_keyLookup]
        exact exact.distinct
      case owned => exact owned
      case exact =>
        show ∀ other, _ → ∀ key,
          (plugin.cacheAccount name).keyLookup.Holds ⟨key, other⟩ ↔ _
        rw [cacheAccount_keyLookup]
        intro other absent key
        by_cases same : other = name
        · subst same
          rw [exact.exact other absent key]
          simp [before, missing]
        · exact others other same absent key
  | some old =>
      rcases changes.owned old before with ⟨row, found, -⟩
      refine of_update ?_ owned found ?_ ?_ ?_
      · show (plugin.cacheAccount name).keyLookup.Distinct id
        rw [cacheAccount_keyLookup]
        exact exact.distinct
      · show ∀ other, _ → _ → ∀ key,
          (plugin.cacheAccount name).keyLookup.Holds ⟨key, other⟩ ↔ _
        rw [cacheAccount_keyLookup]
        exact others
      · intro absent key
        show (plugin.cacheAccount name).keyLookup.Holds _ →
          _ ∨ key ∈ (plugin.cacheAccount name).cachedKeys
        rw [cacheAccount_keyLookup, mem_cacheAccount before]
        intro held
        rcases (exact.exact name absent key).1 held with ⟨_, there, occurs⟩
        cases before.symm.trans there
        exact Or.inr occurs
      · intro absent key _
        show key ∈ (plugin.cacheAccount name).cachedKeys →
          (plugin.cacheAccount name).keyLookup.Holds _
        rw [cacheAccount_keyLookup, mem_cacheAccount before]
        intro occurs
        exact (exact.exact name absent key).2 ⟨old, before, occurs⟩

/-- An update with an empty cache, for an authority which is indexed. -/
theorem again
    (exact : KeysExact start plugin) :
    KeysExact start (plugin.clearCache.updateAccount name) := by
  cases found : plugin.db.authorities.find? name with
  | none =>
      have idle : plugin.clearCache.updateAccount name = plugin.clearCache := by
        rw [KeyPlugin.updateAccount]
        simp only [KeyPlugin.clearCache, found]
      rw [idle]
      exact exact.of_same rfl rfl
  | some row =>
      refine of_update exact.distinct exact.owned found ?_ ?_ ?_
      · intro other _ absent key
        exact exact.exact other absent key
      · intro absent key held
        rcases (exact.exact name absent key).1 held with ⟨_, there, occurs⟩
        cases found.symm.trans there
        exact Or.inl occurs
      · intro _ key _ cached
        exact absurd cached ExtTreeSet.not_mem_empty

/-- An operation which the hooks do not look at. -/
theorem unwatched
    {op : Operation}
    (exact : KeysExact start plugin)
    (done : plugin.db.applyOperation ext op = .ok after)
    (outside : Field.authorities ∉ footprint op) :
    KeysExact start { plugin with db := after } :=
  exact.of_same rfl
    (touches_applyOperation ext plugin.db op after done .authorities outside)

theorem db_preOperation
    (op : Operation) :
    (plugin.preOperation op).db = plugin.db := by
  have cached (name : AccountName) :
      (plugin.cacheAccount name).db = plugin.db := by
    unfold KeyPlugin.cacheAccount
    split <;> rfl
  cases op with
  | accountUpdate op => exact cached _
  | recoverAccount op => exact cached _
  | _ => rfl

/-- One operation with its hooks keeps the invariant. -/
theorem applyOperation
    {next : KeyPlugin}
    (exact : KeysExact start plugin)
    (op : Operation)
    (done : plugin.applyOperation ext op = .ok next) :
    KeysExact start next := by
  unfold KeyPlugin.applyOperation at done
  simp only [db_preOperation] at done
  split at done
  case h_2 => cases done
  case h_1 after applied =>
    cases done
    cases op with
    | accountCreate op =>
        exact exact.created (createsAuthority_accountCreate applied)
    | accountCreateWithDelegation op =>
        exact exact.created
          (createsAuthority_accountCreateWithDelegation applied)
    | accountUpdate op =>
        exact exact.changed
          (changesAuthority_accountUpdate ext op _ after applied)
    | recoverAccount op =>
        exact exact.changed
          (changesAuthority_recoverAccount op _ after applied)
    | pow op =>
        cases applied
        exact exact.again
    | pow2 op => cases applied
    | _ => exact exact.unwatched applied (of_decide_eq_true rfl)

/-- A transaction keeps it, whether it succeeds or fails. -/
theorem applyTransaction
    (ext : External)
    (exact : KeysExact start plugin)
    (operations : List Operation) :
    KeysExact start (plugin.applyTransaction ext operations) := by
  unfold KeyPlugin.applyTransaction
  split
  case h_1 after done =>
    refine foldlM_invariant (KeysExact start) ?_ done exact
    intro middle op next _ applied before
    exact before.applyOperation op applied
  case h_2 => exact exact.of_same rfl rfl

end KeysExact

/-! ## Runs -/

theorem AuthoritiesOwned.applyOperation
    {db after : Database}
    (op : Operation)
    (done : db.applyOperation ext op = .ok after)
    (owned : AuthoritiesOwned db) :
    AuthoritiesOwned after := by
  have agrees := touches_applyOperation ext db op after done
  cases op with
  | accountCreate op =>
      exact owned.created (createsAuthority_accountCreate done)
  | accountCreateWithDelegation op =>
      exact owned.created (createsAuthority_accountCreateWithDelegation done)
  | accountUpdate op =>
      exact owned.changed (changesAuthority_accountUpdate ext op db after done)
  | recoverAccount op =>
      exact owned.changed (changesAuthority_recoverAccount op db after done)
  | _ => exact owned.of_same (agrees .authorities (of_decide_eq_true rfl))

theorem authorities_beginBlock
    {db after : Database}
    (begun : db.beginBlock header = .ok after) :
    after.authorities = db.authorities :=
  touches_beginBlock db header after begun .authorities (by decide)

theorem authorities_runStep
    {db after : Database}
    (step : BlockStep)
    (ran : db.runStep ext header step = .ok after) :
    after.authorities = db.authorities := by
  have agrees := touches_runStep ext header db step after ran
  cases step with
  | _ => exact agrees .authorities (of_decide_eq_true rfl)

theorem authoritiesOwned_of_reachable
    {db : Database}
    (reachable : Reachable ext db) :
    AuthoritiesOwned db := by
  refine Reachable.invariant AuthoritiesOwned ?_ ?_ ?_ ?_ reachable
  · intro name row found
    have member : (name, row) ∈ initGenesis.authorities.entries :=
      Std.ExtTreeMap.mem_toList_iff_getElem?_eq_some.2 found
    have all : ∀ entry ∈ initGenesis.authorities.entries,
        entry.2.account = entry.1 := by
      decide +kernel
    exact all (name, row) member
  · intro db header after begun owned
    exact owned.of_same (authorities_beginBlock begun)
  · intro db op after _ done owned
    exact owned.applyOperation op done
  · intro header db which after ran owned
    exact owned.of_same (authorities_runStep which ran)

/--
The states of a node which starts the plugin with an empty index on a database:
transactions, whether they succeed or fail, and the two ends of blocks.
-/
inductive KeyRun (ext : External) (start : Database) : KeyPlugin → Prop
  | start : KeyRun ext start ⟨start, .empty, ∅⟩
  | transaction {plugin : KeyPlugin} (operations : List Operation) :
      KeyRun ext start plugin →
        KeyRun ext start (plugin.applyTransaction ext operations)
  | beginBlock {plugin : KeyPlugin} {after : Database}
      (header : BlockHeader) :
      KeyRun ext start plugin → plugin.db.beginBlock header = .ok after →
        KeyRun ext start { plugin with db := after }
  | finishBlock {plugin : KeyPlugin} {after : Database}
      (header : BlockHeader) :
      KeyRun ext start plugin → plugin.db.finishBlock ext header = .ok after →
        KeyRun ext start { plugin with db := after }

theorem KeyRun.keysExact
    {start : Database}
    {plugin : KeyPlugin}
    (owned : AuthoritiesOwned start)
    (run : KeyRun ext start plugin) :
    KeysExact start plugin := by
  induction run with
  | start =>
      constructor
      case distinct => exact Table.Distinct.empty
      case owned => exact owned
      case exact =>
        intro name absent key
        constructor
        · rintro ⟨id, found⟩
          cases found
        · rintro ⟨row, found, -⟩
          cases absent.symm.trans found
  | transaction operations _ induction =>
      exact induction.applyTransaction ext operations
  | beginBlock header _ begun induction =>
      exact induction.of_same rfl (authorities_beginBlock begun)
  | @finishBlock plugin after header _ finished induction =>
      refine induction.of_same rfl ?_
      refine foldlM_invariant
        (fun db : Database => db.authorities = plugin.db.authorities) ?_
        finished rfl
      intro db which next _ ran same
      exact (authorities_runStep which ran).trans same

/--
Whatever transactions a node applies or refuses after it started the plugin
with an empty index, the index has a row for a key and an account created since
exactly when the key occurs in one of the account's authorities.
-/
theorem key_lookup_exact
    {ext : External}
    {start : Database}
    {plugin : KeyPlugin}
    (reachable : Reachable ext start)
    (run : KeyRun ext start plugin)
    {name : AccountName}
    {authority : AccountAuthorityObject}
    (absent : start.authorities.find? name = none)
    (created : plugin.db.authorities.find? name = some authority)
    (key : PublicKey) :
    plugin.keyLookup.Holds ⟨key, name⟩ ↔ OccursIn key authority := by
  have exact := run.keysExact (authoritiesOwned_of_reachable reachable)
  rw [exact.exact name absent key]
  constructor
  · rintro ⟨row, found, occurs⟩
    cases created.symm.trans found
    exact occurs
  · intro occurs
    exact ⟨authority, created, occurs⟩

/-! ## A sample run -/

deriving instance DecidableEq for AccountAuthorityObject

/-- `devs` creates `alice` with three keys. -/
def createAlice : Operation :=
  .accountCreate
    { fee := bmt minAccountCreationFee
      creator := "devs"
      newAccountName := "alice"
      owner := keyAuthority 11
      active := keyAuthority 12
      posting := keyAuthority 13
      memoKey := 14
      jsonMetadata := [] }

/-- The active key of `alice` moves to the posting authority, and a new one
takes its place. -/
def moveKeys : Operation :=
  .accountUpdate
    { account := "alice"
      owner := none
      active := some (keyAuthority 15)
      posting := some (keyAuthority 12)
      memoKey := 14
      jsonMetadata := [] }

/-- The plugin after `alice` was created, failed to be created again, and
changed her keys. -/
def pluginOfAlice : KeyPlugin :=
  (((KeyPlugin.mk initGenesis .empty ∅).applyTransaction plainExternal
      [createAlice]).applyTransaction plainExternal
      [moveKeys, createAlice]).applyTransaction plainExternal [moveKeys]

/-- The keys of `alice` after that are 11, 12 and 15. -/
theorem key_lookup_exact_alice :
    ∃ authority, pluginOfAlice.db.authorities.find? "alice" = some authority ∧
      (∀ key, pluginOfAlice.keyLookup.Holds ⟨key, "alice"⟩ ↔
        OccursIn key authority) ∧
      OccursIn 11 authority ∧ OccursIn 12 authority ∧
      ¬ OccursIn 13 authority := by
  have run : KeyRun plainExternal initGenesis pluginOfAlice :=
    ((KeyRun.start.transaction [createAlice]).transaction
      [moveKeys, createAlice]).transaction [moveKeys]
  have found :
      pluginOfAlice.db.authorities.find? "alice" =
        some ⟨"alice", keyAuthority 11, keyAuthority 15, keyAuthority 12, 0⟩ := by
    decide +kernel
  refine ⟨_, found, ?_, ?_⟩
  · intro key
    exact key_lookup_exact ⟨none, .genesis⟩ run (by decide +kernel) found key
  · simp [OccursIn, keyAuthority]

end BMChain.Plugins
