import BMChain.Protocol.AuthoritySearch
import BMChain.State.Transaction

/-!
# Operations inside custom operations

A plugin registers an interpreter for the payload of the three custom
operations.  The interpreter decodes the payload into operations of the
plugin's own type and compares what they require with what the custom
operation required of its signers.  The type of the inner operations is a
parameter, as it is in the source, and so are the decoders of `fc`.
-/

namespace BMChain.State

open BMChain.Foundation BMChain.Protocol

/-! ## The operation type of a plugin -/

/-- What the interpreter needs of a plugin's operation type. -/
structure CustomOperations (Inner Plugin : Type) where
  /-- `operation_validate`. -/
  validate : Inner → Except Fault Unit
  requiredActive : Inner → List AccountName
  requiredOwner : Inner → List AccountName
  requiredPosting : Inner → List AccountName
  requiredAuthorities : Inner → List Authority
  /-- The evaluator which the plugin registers for an operation. -/
  evaluate : Inner → Plugin → Except Fault Plugin

/-- `fc::variant`, as far as the interpreter looks at it. -/
inductive Variant where
  | array (items : List Variant)
  | other (text : Text)

/-- `is_array`. -/
def Variant.isArray : Variant → Bool
  | .array _ => true
  | .other _ => false

/-- Whether a payload looks like a list of operations. -/
def Variant.looksLikeList : Variant → Bool
  | .array (first :: _) => first.isArray
  | _ => false

/-- The decoders of `fc` for a plugin's operation type. -/
structure CustomCodec (Inner : Type) where
  /-- `fc::json::from_string`. -/
  fromString : Text → Except Fault Variant
  /-- `from_variant` into a vector. -/
  listFromVariant : Variant → Except Fault (List Inner)
  /-- `from_variant` into one operation. -/
  fromVariant : Variant → Except Fault Inner
  /-- `fc::raw::unpack` of a vector. -/
  unpackList : Text → Except Fault (List Inner)
  /-- `fc::raw::unpack` of one operation. -/
  unpack : Text → Except Fault Inner
  /-- `fc::raw::unpack` of a `private_message_operation`, as an operation. -/
  unpackPrivateMessage : Text → Except Fault Inner

/-- The operations which carry a payload. -/
inductive Carrier where
  | custom (op : CustomOperation)
  | customJson (op : CustomJsonOperation)
  | customBinary (op : CustomBinaryOperation)

/-- The outer operation, as the interpreter passes it on. -/
def Carrier.operation : Carrier → Operation
  | .custom op => .custom op
  | .customJson op => .customJson op
  | .customBinary op => .customBinary op

/-! ## The interpreter -/

section Interpreter

variable {Inner Plugin : Type}
variable (custom : CustomOperations Inner Plugin)
variable (codec : CustomCodec Inner)

/-- The reading of a packed payload: a vector, or else one operation. -/
def unpackPayload
    (single : Text → Except Fault Inner)
    (data : Text) :
    Except Fault (List Inner) :=
  match codec.unpackList data with
  | .ok inner => .ok inner
  | .error _ => do
      let inner ← single data
      pure [inner]

/-- The reading of a payload in JSON. -/
def readPayload (json : Text) : Except Fault (List Inner) := do
  let value ← codec.fromString json
  if value.looksLikeList then
    codec.listFromVariant value
  else
    let inner ← codec.fromVariant value
    pure [inner]

/-- The inner operations of a custom operation. -/
def decodePayload : Carrier → Except Fault (List Inner)
  | .customJson op => readPayload codec op.json
  | .customBinary op => unpackPayload codec codec.unpack op.data
  | .custom op => unpackPayload codec codec.unpackPrivateMessage op.data

/--
`apply_operations`.  The sets of the inner operations are compared with those
of the outer one, except for the active authorities, whose comparison is
commented out.
-/
def applyOperations
    (inner : List Inner)
    (outer : Operation)
    (plugin : Plugin) :
    Except Fault Plugin := do
  inner.forM custom.validate
  require
    (flatSet (inner.flatMap custom.requiredOwner) =
      flatSet outer.requiredOwner)
    "inner_owner == outer_owner"
  require
    (flatSet (inner.flatMap custom.requiredPosting) =
      flatSet outer.requiredPosting)
    "inner_posting == outer_posting"
  require
    (inner.flatMap custom.requiredAuthorities = outer.requiredAuthorities)
    "inner_other == outer_other"
  inner.foldlM (fun plugin op => custom.evaluate op plugin) plugin

/-- `generic_custom_operation_interpreter::apply`. -/
def interpret
    (outer : Carrier)
    (plugin : Plugin) :
    Except Fault Plugin := do
  let inner ← decodePayload codec outer
  applyOperations custom inner outer.operation plugin

/-! ## What the comparison gives -/

/-- The names which the inner operations require stand in a set of the outer
operation. -/
def NamesWithin
    (required : Inner → List AccountName)
    (inner : List Inner)
    (outer : List AccountName) :
    Prop :=
  ∀ op ∈ inner, ∀ name ∈ required op, name ∈ outer

theorem NamesWithin.of_flatSet
    {required : Inner → List AccountName}
    {inner : List Inner}
    {outer : List AccountName}
    (same : flatSet (inner.flatMap required) = flatSet outer) :
    NamesWithin required inner outer := by
  intro op member name needed
  have inside : name ∈ flatSet (inner.flatMap required) :=
    (mem_flatSet _ _).2 (List.mem_flatMap.2 ⟨op, member, needed⟩)
  rw [same] at inside
  exact (mem_flatSet _ _).1 inside

/--
Every account which an inner operation requires, by whichever authority, is
required by the outer operation for that authority.
-/
structure InnerCovered
    (inner : List Inner)
    (outer : Operation) :
    Prop where
  owner : NamesWithin custom.requiredOwner inner outer.requiredOwner
  active : NamesWithin custom.requiredActive inner outer.requiredActive
  posting : NamesWithin custom.requiredPosting inner outer.requiredPosting

theorem applyOperations_compares
    {inner : List Inner}
    {outer : Operation}
    {plugin after : Plugin}
    (applied : applyOperations custom inner outer plugin = .ok after) :
    NamesWithin custom.requiredOwner inner outer.requiredOwner ∧
      NamesWithin custom.requiredPosting inner outer.requiredPosting := by
  simp only [applyOperations, bind_eq_ok_iff, require_eq_ok_iff] at applied
  rcases applied with ⟨_, _, _, owner, _, posting, _⟩
  exact ⟨.of_flatSet owner, .of_flatSet posting⟩

/--
A custom operation of a transaction which passed `verify_authority`, whose
payload an interpreter has applied.
-/
structure AppliedPayload where
  operations : List Operation
  signatures : List PublicKey
  getActive : AuthorityGetter
  getOwner : AuthorityGetter
  getPosting : AuthorityGetter
  verified :
    verifyAuthority operations signatures getActive getOwner getPosting
      maxSigCheckDepth false [] [] [] = .ok ()
  outer : Carrier
  member : outer.operation ∈ operations
  inner : List Inner
  decoded : decodePayload codec outer = .ok inner
  before : Plugin
  after : Plugin
  applied : interpret custom codec outer before = .ok after

/--
The inner operations of an applied payload are covered by the signatures of
the outer operation exactly when their active accounts are, which nothing
compares.
-/
theorem inner_operations_covered_iff
    (payload : AppliedPayload custom codec) :
    InnerCovered custom payload.inner payload.outer.operation ↔
      NamesWithin custom.requiredActive payload.inner
        payload.outer.operation.requiredActive := by
  have applied := payload.applied
  rw [interpret, payload.decoded] at applied
  rcases applyOperations_compares custom applied with ⟨owner, posting⟩
  constructor
  · intro covered
    exact covered.active
  · intro active
    exact ⟨owner, active, posting⟩

end Interpreter

/-! ## The witness plugin -/

/-- `enable_content_editing_operation`, all of `witness_plugin_operation`. -/
structure EnableContentEditingOperation where
  account : AccountName
  relockTime : Time

/-- `content_edit_lock_object`. -/
structure ContentEditLockObject where
  account : AccountName
  lockTime : Time

/-- `enable_content_editing_evaluator::do_apply`. -/
def enableContentEditing (op : EnableContentEditingOperation)
    (locks : Table ContentEditLockObject) :
    Except Fault (Table ContentEditLockObject) :=
  match locks.findBy (fun lock => lock.account = op.account) with
  | none => .ok (locks.emplace ⟨op.account, op.relockTime⟩)
  | some (id, lock) =>
      .ok (locks.set id { lock with lockTime := op.relockTime })

/-- The operations of the witness plugin, which require an active authority. -/
def witnessOperations :
    CustomOperations EnableContentEditingOperation
      (Table ContentEditLockObject) where
  validate op := validateAccountName op.account
  requiredActive op := [op.account]
  requiredOwner _ := []
  requiredPosting _ := []
  requiredAuthorities _ := []
  evaluate := enableContentEditing

/-- The content of `initminer` is unlocked for a while. -/
def sampleEdit : EnableContentEditingOperation where
  account := initMinerName
  relockTime := 2 ^ 24

/-- The packed vector of that operation. -/
def packedEdit : Text :=
  [1, 0] ++ [9, 105, 110, 105, 116, 109, 105, 110, 101, 114] ++ [0, 0, 0, 1]

/-- The decoders on that payload. -/
def editCodec : CustomCodec EnableContentEditingOperation where
  fromString _ := .error "not JSON"
  listFromVariant _ := .error "not a vector"
  fromVariant _ := .error "not an operation"
  unpackList data :=
    if data = packedEdit then .ok [sampleEdit] else .error "stream underflow"
  unpack _ := .error "stream underflow"
  unpackPrivateMessage _ := .error "stream underflow"

/-- A custom operation of an account, with the operation above inside. -/
def carriedEdit (signer : AccountName) : CustomBinaryOperation where
  requiredOwnerAuths := []
  requiredActiveAuths := [signer]
  requiredPostingAuths := []
  requiredAuths := []
  id := [119, 105, 116, 110, 101, 115, 115]
  data := packedEdit

theorem interpret_carriedEdit
    (signer : AccountName) :
    interpret witnessOperations editCodec (.customBinary (carriedEdit signer))
        Table.empty =
      .ok (Table.empty.emplace ⟨initMinerName, 2 ^ 24⟩) := by
  rfl

/-- The authorities of genesis. -/
def genesisGetter (part : AccountAuthorityObject → Authority) :
    AuthorityGetter :=
  fun name =>
    part <$> orFault (initGenesis.authorities.find? name) "unknown key"

/-- The custom operation at genesis, with the signature of an account. -/
def editPayload (signer : AccountName) (key : PublicKey)
    (verified :
      verifyAuthority [.customBinary (carriedEdit signer)] [key]
        (genesisGetter AccountAuthorityObject.active)
        (genesisGetter AccountAuthorityObject.owner)
        (genesisGetter AccountAuthorityObject.posting)
        maxSigCheckDepth false [] [] [] = .ok ()) :
    AppliedPayload witnessOperations editCodec where
  operations := [.customBinary (carriedEdit signer)]
  signatures := [key]
  getActive := genesisGetter AccountAuthorityObject.active
  getOwner := genesisGetter AccountAuthorityObject.owner
  getPosting := genesisGetter AccountAuthorityObject.posting
  verified := verified
  outer := .customBinary (carriedEdit signer)
  member := List.mem_singleton.2 rfl
  inner := [sampleEdit]
  decoded := rfl
  before := Table.empty
  after := Table.empty.emplace ⟨initMinerName, 2 ^ 24⟩
  applied := interpret_carriedEdit signer

/-- `initminer` unlocks its content itself. -/
theorem inner_operations_covered_iff_own :
    ∃ payload : AppliedPayload witnessOperations editCodec,
      payload.inner = [sampleEdit] ∧ payload.signatures = [1] ∧
        InnerCovered witnessOperations payload.inner
          payload.outer.operation := by
  refine ⟨editPayload initMinerName 1 (by decide +kernel), rfl, rfl, ?_⟩
  refine (inner_operations_covered_iff _ _ _).2 ?_
  intro op member name needed
  cases List.mem_singleton.1 member
  exact needed

/-- `devs` signs for itself alone and unlocks the content of `initminer`. -/
theorem edit_inside_foreign_operation :
    ∃ payload : AppliedPayload witnessOperations editCodec,
      payload.outer = .customBinary (carriedEdit "devs") ∧
        payload.inner = [sampleEdit] ∧ payload.signatures = [2] ∧
          ¬ InnerCovered witnessOperations payload.inner
            payload.outer.operation := by
  refine ⟨editPayload "devs" 2 (by decide +kernel), rfl, rfl, rfl, ?_⟩
  intro covered
  have listed : initMinerName ∈ ["devs"] :=
    covered.active sampleEdit (List.mem_singleton.2 rfl) initMinerName
      List.mem_cons_self
  exact absurd listed (by decide)

end BMChain.State
