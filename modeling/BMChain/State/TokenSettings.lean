import BMChain.State.CustomToken
import BMChain.State.Transaction

/-!
# Settings of custom tokens

The account which controls a token sets up its emissions and its flags.  The
evaluator of the one operation does not ask who controls the token, and the
other operation needs nobody's signature, so what a transaction writes is
compared with the accounts which have to sign it.
-/

namespace BMChain.State

open BMChain.Foundation BMChain.Protocol Std

variable {db after : Database} {id : Nat} {ext : External}

/-! ## What operations write -/

/-- The settings of the emissions of a token. -/
structure EmissionSettings where
  inflationRate : Nat
  scheduleTime : Time
  intervalCount : Nat
  intervalSeconds : Nat
  deriving DecidableEq

def CustomTokenObject.emissions (token : CustomTokenObject) :
    EmissionSettings :=
  ⟨token.inflationRate, token.scheduleTime, token.intervalCount,
    token.intervalSeconds⟩

/-- The settings of a token which only its controller should change. -/
def CustomTokenObject.settings (token : CustomTokenObject) :
    EmissionSettings × Bool × Bool :=
  (token.emissions, token.allowVoting, token.allowVesting)

/-- The emissions which an operation writes for a symbol. -/
def emissionsFor (symbol : AssetSymbol) :
    Operation → Option EmissionSettings
  | .customTokenSetupEmissions op =>
      if op.symbol.symbol = symbol then
        some ⟨op.inflationRate, op.scheduleTime, op.intervalCount,
          op.intervalSeconds⟩
      else none
  | _ => none

/-- The parameters which an operation sets for a symbol. -/
def parametersFor (symbol : AssetSymbol) :
    Operation → List TokenSetupParameter
  | .customTokenSetSetupParameters op =>
      if op.symbol.symbol = symbol then op.setupParameters else []
  | _ => []

/-- The values which a list of parameters gives to the voting flag. -/
def votingValue : TokenSetupParameter → Option Bool
  | .allowVoting value => some value
  | .allowVesting _ => none

/-- The values which a list of parameters gives to the vesting flag. -/
def vestingValue : TokenSetupParameter → Option Bool
  | .allowVesting value => some value
  | .allowVoting _ => none

/-- Nothing is written, or in the end what was there before. -/
def WritesSame {Value : Type} (written : List Value) (value : Value) : Prop :=
  written.getLastD value = value

/-- A transaction writes a token nothing which it does not have already. -/
structure KeepsSettings (operations : List Operation)
    (token : CustomTokenObject) : Prop where
  emissions : WritesSame
    (operations.filterMap (emissionsFor token.symbol))
    token.emissions
  voting : WritesSame
    ((operations.flatMap (parametersFor token.symbol)).filterMap
      votingValue)
    token.allowVoting
  vesting : WritesSame
    ((operations.flatMap (parametersFor token.symbol)).filterMap
      vestingValue)
    token.allowVesting

/-- What an operation makes of a token. -/
def setsUp (token : CustomTokenObject) (op : Operation) :
    CustomTokenObject :=
  let emissions := (emissionsFor token.symbol op).getD token.emissions
  (parametersFor token.symbol op).foldl Database.setParameter
    { token with
      inflationRate := emissions.inflationRate
      scheduleTime := emissions.scheduleTime
      intervalCount := emissions.intervalCount
      intervalSeconds := emissions.intervalSeconds }

/-! ## The settings which are left -/

theorem setParameters_settings
    (parameters : List TokenSetupParameter)
    (token : CustomTokenObject) :
    (parameters.foldl Database.setParameter token).settings =
      (token.emissions,
        (parameters.filterMap votingValue).getLastD token.allowVoting,
        (parameters.filterMap vestingValue).getLastD token.allowVesting) := by
  induction parameters generalizing token with
  | nil => rfl
  | cons parameter rest induction =>
      rw [List.foldl_cons, induction]
      cases parameter with
      | allowVoting value =>
          rw [List.filterMap_cons_some (rfl : votingValue _ = some value),
            List.filterMap_cons_none (rfl : vestingValue _ = none),
            List.getLastD_cons]
          rfl
      | allowVesting value =>
          rw [List.filterMap_cons_none (rfl : votingValue _ = none),
            List.filterMap_cons_some (rfl : vestingValue _ = some value),
            List.getLastD_cons]
          rfl

theorem setParameters_symbol
    (parameters : List TokenSetupParameter)
    (token : CustomTokenObject) :
    (parameters.foldl Database.setParameter token).symbol = token.symbol ∧
      (parameters.foldl Database.setParameter token).controlAccount =
        token.controlAccount := by
  rcases Database.setParameters_eq parameters token with
    ⟨voting, vesting, equal⟩
  rw [equal]
  exact ⟨rfl, rfl⟩

/-- What the operation for emissions writes. -/
def setEmissions (op : CustomTokenSetupEmissionsOperation)
    (token : CustomTokenObject) : CustomTokenObject :=
  { token with
    inflationRate := op.inflationRate
    scheduleTime := op.scheduleTime
    intervalCount := op.intervalCount
    intervalSeconds := op.intervalSeconds }

theorem setsUp_emissions
    (token : CustomTokenObject)
    (op : CustomTokenSetupEmissionsOperation) :
    setsUp token (.customTokenSetupEmissions op) =
      if op.symbol.symbol = token.symbol then setEmissions op token
      else token := by
  simp only [setsUp, emissionsFor, parametersFor, List.foldl_nil]
  split <;> rfl

theorem setsUp_parameters
    (token : CustomTokenObject)
    (op : CustomTokenSetSetupParametersOperation) :
    setsUp token (.customTokenSetSetupParameters op) =
      if op.symbol.symbol = token.symbol then
        op.setupParameters.foldl Database.setParameter token
      else token := by
  simp only [setsUp, emissionsFor, parametersFor, Option.getD_none]
  split <;> rfl

theorem setsUp_symbol
    (token : CustomTokenObject)
    (op : Operation) :
    (setsUp token op).symbol = token.symbol :=
  (setParameters_symbol _ _).1

theorem setsUp_settings
    (token : CustomTokenObject)
    (op : Operation) :
    (setsUp token op).settings =
      ((emissionsFor token.symbol op).getD token.emissions,
        ((parametersFor token.symbol op).filterMap votingValue).getLastD
          token.allowVoting,
        ((parametersFor token.symbol op).filterMap vestingValue).getLastD
          token.allowVesting) :=
  setParameters_settings _ _

theorem getLastD_append
    {Value : Type}
    (first second : List Value)
    (value : Value) :
    (first ++ second).getLastD value =
      second.getLastD (first.getLastD value) := by
  induction first generalizing value with
  | nil => rfl
  | cons head rest induction =>
      rw [List.cons_append, List.getLastD_cons, List.getLastD_cons, induction]

/-- The settings after several operations are the ones written last. -/
theorem settings_foldl
    (operations : List Operation)
    (token : CustomTokenObject) :
    (operations.foldl setsUp token).settings =
      ((operations.filterMap (emissionsFor token.symbol)).getLastD
          token.emissions,
        ((operations.flatMap (parametersFor token.symbol)).filterMap
          votingValue).getLastD token.allowVoting,
        ((operations.flatMap (parametersFor token.symbol)).filterMap
          vestingValue).getLastD token.allowVesting) := by
  induction operations generalizing token with
  | nil => rfl
  | cons op rest induction =>
      have first := setsUp_settings token op
      simp only [CustomTokenObject.settings, Prod.mk.injEq] at first
      rcases first with ⟨emissions, voting, vesting⟩
      rw [List.foldl_cons, induction, setsUp_symbol, emissions, voting, vesting,
        List.flatMap_cons, List.filterMap_append, List.filterMap_append,
        getLastD_append, getLastD_append]
      cases written : emissionsFor token.symbol op with
      | none => rw [List.filterMap_cons_none written, Option.getD_none]
      | some value =>
          rw [List.filterMap_cons_some written, List.getLastD_cons,
            Option.getD_some]

/-- The settings stay exactly when what is written was there before. -/
theorem settings_foldl_eq_iff
    (operations : List Operation)
    (token : CustomTokenObject) :
    (operations.foldl setsUp token).settings = token.settings ↔
      KeepsSettings operations token := by
  rw [settings_foldl]
  simp only [CustomTokenObject.settings, Prod.mk.injEq]
  constructor
  · rintro ⟨emissions, voting, vesting⟩
    exact ⟨emissions, voting, vesting⟩
  · rintro ⟨emissions, voting, vesting⟩
    exact ⟨emissions, voting, vesting⟩

namespace Database

/-! ## Operations -/

/-- The token under an id, and that no two tokens share a symbol. -/
structure HasToken (db : Database) (id : Nat) (token : CustomTokenObject) :
    Prop where
  distinct : db.customTokens.Distinct CustomTokenObject.symbol
  found : db.customTokens.find? id = some token

theorem HasToken.of_agrees
    {fields : List Field}
    {before after : Database}
    {token : CustomTokenObject}
    (has : before.HasToken id token)
    (agrees : Agrees fields before after)
    (separate : Field.customTokens ∉ fields) :
    after.HasToken id token := by
  have same : after.customTokens = before.customTokens :=
    agrees .customTokens separate
  exact ⟨same ▸ has.distinct, same ▸ has.found⟩

/-- A token which is written under its symbol. -/
theorem HasToken.set
    {id place : Nat}
    {token other : CustomTokenObject}
    {symbol : AssetSymbol}
    (has : db.HasToken id token)
    (found : db.findToken symbol = some (place, other))
    (change : CustomTokenObject → CustomTokenObject)
    (kept : ∀ row, (change row).symbol = row.symbol) :
    { db with
      customTokens := db.customTokens.set place (change other) }.HasToken id
        (if symbol = token.symbol then change token else token) := by
  rcases find_of_findToken found with ⟨there, named⟩
  refine ⟨has.distinct.set there (kept other), ?_⟩
  rw [Table.find?_set there]
  by_cases equal : symbol = token.symbol
  · have same : place = id :=
      has.distinct place id other token there has.found (named.trans equal)
    have found := has.found
    rw [← same, there] at found
    rw [if_pos same, if_pos equal, Option.some.inj found]
  · rw [if_neg, if_neg equal, has.found]
    rintro rfl
    rw [has.found] at there
    cases there
    exact equal named.symm

/-- An operation writes a token what it writes under its symbol. -/
theorem hasToken_applyOperation
    {op : Operation}
    {token : CustomTokenObject}
    (done : db.applyOperation ext op = .ok after)
    (has : db.HasToken id token) :
    after.HasToken id (setsUp token op) := by
  have agrees := touches_applyOperation ext db op after done
  cases op with
  | customTokenCreate op =>
      simp only [applyOperation, customTokenCreateEvaluator, bind_eq_ok_iff,
        require_eq_ok_iff] at done
      rcases done with ⟨account, -, fee, -, _, -, _, new, debited, debit, paid⟩
      refine HasToken.of_agrees ?_ (touches_payFee _ _ after paid) (by decide)
      refine HasToken.of_agrees ?_ (touches_addBalance _ _ _ debited debit)
        (by decide)
      have missing := Option.isNone_iff_eq_none.1 new
      refine ⟨has.distinct.emplace ?_, ?_⟩
      · exact fun place other found => of_decide_eq_false
          (Table.refused_of_findBy missing found)
      · rw [Table.find?_emplace, if_neg, has.found]
        · rfl
        · rintro rfl
          have none := has.found
          rw [Table.find?_nextId] at none
          cases none
  | customTokenSetupEmissions op =>
      simp only [applyOperation, customTokenSetupEmissionsEvaluator,
        bind_eq_ok_iff, orFault_eq_ok_iff, pure_eq_ok_iff] at done
      rcases done with ⟨⟨place, other⟩, found, rfl⟩
      rw [setsUp_emissions]
      exact has.set found (setEmissions op) fun _ => rfl
  | customTokenSetSetupParameters op =>
      simp only [applyOperation, customTokenSetSetupParametersEvaluator,
        bind_eq_ok_iff, orFault_eq_ok_iff, pure_eq_ok_iff] at done
      rcases done with ⟨⟨place, other⟩, found, _, -, _, -, rfl⟩
      rw [setsUp_parameters]
      exact has.set found (op.setupParameters.foldl setParameter) fun row =>
        (setParameters_symbol op.setupParameters row).1
  | _ => exact has.of_agrees agrees (of_decide_eq_true rfl)

theorem hasToken_foldlM
    {operations : List Operation}
    {token : CustomTokenObject}
    (done : operations.foldlM (fun db op => db.applyOperation ext op) db =
      .ok after)
    (has : db.HasToken id token) :
    after.HasToken id (operations.foldl setsUp token) := by
  induction operations generalizing db token with
  | nil =>
      cases done
      exact has
  | cons op rest induction =>
      rw [List.foldlM_cons, bind_eq_ok_iff] at done
      rcases done with ⟨middle, first, done⟩
      exact induction done (hasToken_applyOperation first has)

/-- What a transaction makes of a token. -/
theorem hasToken_applyTransaction
    {wire : Wire}
    {skip : SkipFlags}
    {trx : SignedTransaction}
    {token : CustomTokenObject}
    (done : db.applyTransaction ext wire skip trx = .ok after)
    (has : db.HasToken id token) :
    after.HasToken id (trx.operations.foldl setsUp token) := by
  simp only [applyTransaction, bind_eq_ok_iff] at done
  rcases done with ⟨_, -, _, -, _, -, _, -, done⟩
  refine hasToken_foldlM done ?_
  unfold recordTransaction
  split
  · exact has
  · exact ⟨has.distinct, has.found⟩

end Database

/-! ## Transactions -/

/-- The accounts whose authority a transaction requires. -/
def SignedTransaction.requiredAccounts (trx : SignedTransaction) :
    List AccountName :=
  trx.operations.flatMap fun op =>
    op.requiredActive ++ op.requiredOwner ++ op.requiredPosting

/--
A transaction changes the settings of a token only with the authority of its
controller, exactly when it requires that authority or writes the token nothing
which it does not have already.
-/
theorem token_settings_controlled_iff
    {ext : External}
    {wire : Wire}
    {trx : SignedTransaction}
    {db after : Database}
    {id : Nat}
    {token : CustomTokenObject}
    (distinct : db.customTokens.Distinct CustomTokenObject.symbol)
    (found : db.customTokens.find? id = some token)
    (done : db.applyTransaction ext wire skipNothing trx = .ok after) :
    ∃ changed,
      after.customTokens.find? id = some changed ∧
        ((changed.settings ≠ token.settings →
            token.controlAccount ∈ trx.requiredAccounts) ↔
          token.controlAccount ∈ trx.requiredAccounts ∨
            KeepsSettings trx.operations token) := by
  have has : db.HasToken id token := ⟨distinct, found⟩
  refine ⟨_, (Database.hasToken_applyTransaction done has).found, ?_⟩
  rw [← settings_foldl_eq_iff]
  constructor
  · intro controlled
    by_cases same : (trx.operations.foldl setsUp token).settings =
        token.settings
    · exact .inr same
    · exact .inl (controlled same)
  · rintro (required | same) different
    · exact required
    · exact absurd same different

/-- The emissions of the sample token, set up in the name of an account. -/
def sampleEmissions (account : AccountName) : Operation :=
  .customTokenSetupEmissions
    { scheduleTime := genesisTime + 1
      controlAccount := account
      symbol := ⟨0, symbolWord 3 ['T', 'K', 'N']⟩
      inflationRate := 100
      intervalSeconds := 3
      intervalCount := 1 }

/-- The same as a transaction, signed with one key. -/
def sampleSetup (account : AccountName) (key : PublicKey) :
    SignedTransaction where
  refBlockNum := 0
  refBlockPrefix := 0
  expiration := genesisTime + 60
  operations := [sampleEmissions account]
  signatures := [key]

/-- The controller of a token sets up its emissions. -/
theorem token_settings_controlled_iff_controller :
    ∃ created after token changed,
      initGenesis.step plainExternal (.operation sampleToken) = .ok created ∧
        created.applyTransaction plainExternal sampleWire skipNothing
          (sampleSetup initMinerName initPublicKey) = .ok after ∧
        created.customTokens.find? 0 = some token ∧
          after.customTokens.find? 0 = some changed ∧
            (changed.settings ≠ token.settings →
              token.controlAccount ∈
                (sampleSetup initMinerName initPublicKey).requiredAccounts) := by
  have ran : ((initGenesis.step plainExternal (.operation sampleToken)).bind
      fun created => (orFault (created.customTokens.find? 0) "").bind
        fun token => (created.applyTransaction plainExternal sampleWire
          skipNothing (sampleSetup initMinerName initPublicKey)).bind
            fun _ => if token.controlAccount = initMinerName then .ok ()
              else .error "") = .ok () := by
    decide +kernel
  rcases (bind_eq_ok_iff _ _ _).1 ran with ⟨created, first, ran⟩
  rcases (bind_eq_ok_iff _ _ _).1 ran with ⟨token, got, ran⟩
  rcases (bind_eq_ok_iff _ _ _).1 ran with ⟨after, second, control⟩
  have found := orFault_eq_ok_iff.1 got
  have named : token.controlAccount = initMinerName := by
    split at control
    · assumption
    · cases control
  have reachable : Reachable plainExternal created :=
    ⟨none, .step (.operation sampleToken) .genesis (.operation _ _) trivial
      first⟩
  rcases token_settings_controlled_iff (tokens_reachable reachable).tokens
    found second with ⟨changed, there, holds⟩
  refine ⟨created, after, token, changed, first, second, found, there, ?_⟩
  exact holds.2 (.inl (by rw [named]; decide))

/--
Whoever signs for the operation sets up the emissions of a token, also when
somebody else controls the token.
-/
theorem stranger_sets_up_emissions :
    ¬ ∀ (ext : External) (wire : Wire) (trx : SignedTransaction)
        (db after : Database) (id : Nat) (token changed : CustomTokenObject),
      Reachable ext db → db.customTokens.find? id = some token →
        db.applyTransaction ext wire skipNothing trx = .ok after →
          after.customTokens.find? id = some changed →
            changed.settings ≠ token.settings →
              token.controlAccount ∈ trx.requiredAccounts := by
  intro controlled
  have ran : ((initGenesis.step plainExternal (.operation sampleToken)).bind
      fun created => (orFault (created.customTokens.find? 0) "").bind
        fun token => (created.applyTransaction plainExternal sampleWire
          skipNothing (sampleSetup "devs" devPublicKey)).bind
            fun after => (orFault (after.customTokens.find? 0) "").bind
              fun changed =>
                if token.controlAccount = initMinerName ∧
                  changed.settings ≠ token.settings then .ok ()
                else .error "") = .ok () := by
    decide +kernel
  rcases (bind_eq_ok_iff _ _ _).1 ran with ⟨created, first, ran⟩
  rcases (bind_eq_ok_iff _ _ _).1 ran with ⟨token, got, ran⟩
  rcases (bind_eq_ok_iff _ _ _).1 ran with ⟨after, second, ran⟩
  rcases (bind_eq_ok_iff _ _ _).1 ran with ⟨changed, now, differs⟩
  have both : token.controlAccount = initMinerName ∧
      changed.settings ≠ token.settings := by
    split at differs
    · assumption
    · cases differs
  have reachable : Reachable plainExternal created :=
    ⟨none, .step (.operation sampleToken) .genesis (.operation _ _) trivial
      first⟩
  have signed := controlled plainExternal sampleWire _ created after 0 token
    changed reachable (orFault_eq_ok_iff.1 got) second
    (orFault_eq_ok_iff.1 now) both.2
  rw [both.1] at signed
  exact absurd signed (by decide)

end BMChain.State
