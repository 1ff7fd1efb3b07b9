import BMChain.State.FootprintBlock
import BMChain.State.Run

/-!
# Custom tokens

A custom token has a supply, a reward fund and the balances of its holders.
The supply is shown to be the sum of the others, whatever is created,
transferred or emitted.
-/

namespace BMChain.State

open BMChain.Foundation BMChain.Protocol Std

variable {db after : Database} {symbol : AssetSymbol} {id : Nat}
    {token : CustomTokenObject} {ext : External}

variable {owner : AccountName} {op : CustomTokenTransferOperation}

/-- A balance with an amount added. -/
def AccountBalanceObject.moved (row : AccountBalanceObject) (delta : Int) :
    AccountBalanceObject :=
  { row with balance := ⟨row.balance.amount + delta, row.balance.symbol⟩ }

theorem AccountBalanceObject.moved_key
    (row : AccountBalanceObject)
    (delta : Int) :
    ((row.moved delta).owner, (row.moved delta).symbol) =
      (row.owner, row.symbol) :=
  rfl

namespace Database

/-! ## Balances of a token -/

/-- The balances in one symbol. -/
def tokenHeld (db : Database) (symbol : AssetSymbol) : Int :=
  sumOf
    (fun row : AccountBalanceObject =>
      if row.symbol = symbol then row.balance.amount else 0)
    db.accountBalances.rows

/-- A balance is one of a token. -/
def Issued (db : Database) (row : AccountBalanceObject) : Prop :=
  row.balance.symbol = row.symbol ∧
    ∃ id token, db.customTokens.find? id = some token ∧
      token.symbol = row.symbol

/-- Every token is held by the accounts and its fund, and every balance is one
of a token. -/
structure TokensBooked (db : Database) : Prop where
  tokens : db.customTokens.Distinct CustomTokenObject.symbol
  supplied : db.customTokens.All fun token =>
    token.currentSupply.symbol = token.symbol ∧
      token.rewardFund.symbol = token.symbol ∧
        db.tokenHeld token.symbol + token.rewardFund.amount =
          token.currentSupply.amount
  balances : db.accountBalances.Distinct fun row => (row.owner, row.symbol)
  issued : db.accountBalances.All db.Issued

theorem TokensBooked.of_agrees
    {fields : List Field}
    {before after : Database}
    (booked : before.TokensBooked)
    (agrees : Agrees fields before after)
    (separate : apart [.customTokens, .accountBalances] fields = true) :
    after.TokensBooked := by
  have tokens : after.customTokens = before.customTokens :=
    agrees.read_eq separate (by decide : Field.customTokens ∈ _)
  have balances : after.accountBalances = before.accountBalances :=
    agrees.read_eq separate (by decide : Field.accountBalances ∈ _)
  constructor
  case tokens => rw [tokens]; exact booked.tokens
  case supplied =>
    unfold tokenHeld
    rw [tokens, balances]
    exact booked.supplied
  case balances => rw [balances]; exact booked.balances
  case issued =>
    unfold Issued
    rw [tokens, balances]
    exact booked.issued

/-- A balance which the search finds is in the table, under its key. -/
theorem find_of_findTokenBalance
    {row : AccountBalanceObject}
    (found : db.findTokenBalance owner symbol = some (id, row)) :
    db.accountBalances.find? id = some row ∧ row.owner = owner ∧
      row.symbol = symbol := by
  have member := List.mem_of_getLast? found
  rcases List.mem_filter.1 member with ⟨listed, passed⟩
  have keyed := of_decide_eq_true passed
  exact ⟨ExtTreeMap.mem_toList_iff_getElem?_eq_some.1 listed, keyed⟩

/-- When the search finds nothing, no row has the key. -/
theorem free_of_findTokenBalance
    (missing : db.findTokenBalance owner symbol = none) :
    db.accountBalances.All fun row => (row.owner, row.symbol) ≠ (owner, symbol)
    := by
  intro id row found same
  rw [findTokenBalance, List.getLast?_eq_none_iff, List.filter_eq_nil_iff]
    at missing
  refine missing (id, row)
    (ExtTreeMap.mem_toList_iff_getElem?_eq_some.2 found) ?_
  exact decide_eq_true (Prod.mk.inj same)

/-- The token which the search finds is in the table. -/
theorem find_of_findToken
    (found : db.findToken symbol = some (id, token)) :
    db.customTokens.find? id = some token ∧ token.symbol = symbol := by
  have passed := Table.passed_of_findBy found
  exact ⟨Table.find?_of_findBy found, of_decide_eq_true passed⟩

/-! ## Changes of a token -/

/-- A token may change when its supply and its fund grow alike. -/
theorem TokensBooked.set_token
    {token changed : CustomTokenObject}
    (booked : db.TokensBooked)
    (amount : Int)
    (found : db.customTokens.find? id = some token)
    (symbol : changed.symbol = token.symbol)
    (supply : changed.currentSupply =
      ⟨token.currentSupply.amount + amount, token.currentSupply.symbol⟩)
    (fund : changed.rewardFund =
      ⟨token.rewardFund.amount + amount, token.rewardFund.symbol⟩) :
    { db with customTokens := db.customTokens.set id changed }.TokensBooked := by
  constructor
  case tokens => exact booked.tokens.set found symbol
  case supplied =>
    refine Table.All.set booked.supplied ?_ id
    rcases booked.supplied id token found with ⟨first, second, sum⟩
    rw [symbol, supply, fund]
    refine ⟨first, second, ?_⟩
    dsimp only
    omega
  case balances => exact booked.balances
  case issued =>
    intro place row there
    rcases booked.issued place row there with ⟨kept, other, owner, listed, same⟩
    refine ⟨kept, ?_⟩
    by_cases equal : id = other
    · subst equal
      rw [found] at listed
      cases listed
      exact ⟨id, changed, by rw [Table.find?_set found, if_pos rfl],
        symbol.trans same⟩
    · exact ⟨other, owner, by rw [Table.find?_set found, if_neg equal, listed],
        same⟩

/-- The setup parameters of a token are its two flags. -/
theorem setParameters_eq
    (parameters : List TokenSetupParameter)
    (token : CustomTokenObject) :
    ∃ voting vesting,
      parameters.foldl setParameter token =
        { token with allowVoting := voting, allowVesting := vesting } := by
  induction parameters generalizing token with
  | nil => exact ⟨token.allowVoting, token.allowVesting, rfl⟩
  | cons parameter rest induction =>
      rw [List.foldl_cons]
      rcases induction (setParameter token parameter) with
        ⟨voting, vesting, equal⟩
      refine ⟨voting, vesting, equal.trans ?_⟩
      cases parameter with
      | allowVoting value => rfl
      | allowVesting value => rfl

/-- What the emission of a token changes. -/
theorem emitToken_eq
    {token emitted : CustomTokenObject}
    (done : emitToken token = .ok emitted) :
    ∃ amount,
      emitted =
        { token with
          scheduleTime := addSeconds token.scheduleTime
            (token.intervalSeconds * token.intervalCount % 2 ^ 32)
          currentSupply :=
            ⟨token.currentSupply.amount + amount, token.currentSupply.symbol⟩
          rewardFund :=
            ⟨token.rewardFund.amount + amount, token.rewardFund.symbol⟩ } := by
  simp only [emitToken, Asset.add, bind_eq_ok_iff, pure_eq_ok_iff,
    checked_eq_ok_iff] at done
  rcases done with ⟨_, -, amount, -, _, ⟨_, -, _, ⟨-, rfl⟩, rfl⟩, done⟩
  rcases done with ⟨_, ⟨_, -, _, ⟨-, rfl⟩, rfl⟩, rfl⟩
  exact ⟨amount, rfl⟩

section Emission

variable
    (holds : Database → Prop)
    (emits : ∀ (db : Database) id token emitted,
      db.customTokens.find? id = some token → emitToken token = .ok emitted →
        holds db →
          holds { db with customTokens := db.customTokens.set id emitted })

include holds emits

/-- What every emission keeps is kept by the walk over the tokens. -/
theorem emitAlong_invariant
    {rounds : Nat}
    {current : Option (Nat × CustomTokenObject)}
    (listed : ∀ entry, current = some entry → entry ∈ db.customTokens.entries)
    (done : emitAlong rounds current db = .ok after)
    (start : holds db) :
    holds after := by
  induction rounds generalizing current db with
  | zero =>
      cases current with
      | none =>
          cases done
          exact start
      | some entry => cases done
  | succ rounds induction =>
      cases current with
      | none =>
          cases done
          exact start
      | some entry =>
          rcases entry with ⟨id, token⟩
          unfold emitAlong at done
          split at done
          case isFalse =>
            cases done
            exact start
          case isTrue =>
            rw [bind_eq_ok_iff] at done
            rcases done with ⟨emitted, emit, done⟩
            have found : db.customTokens.find? id = some token :=
              ExtTreeMap.mem_toList_iff_getElem?_eq_some.1
                (listed (id, token) rfl)
            refine induction ?_ done (emits db id token emitted found emit start)
            intro entry first
            exact (List.mem_filter.1 (mem_of_firstBy first)).1

theorem customTokensEmissions_invariant
    (done : db.customTokensEmissions = .ok after)
    (start : holds db) :
    holds after := by
  unfold customTokensEmissions at done
  split at done
  case isTrue =>
    cases done
    exact start
  case isFalse =>
    exact emitAlong_invariant holds emits (fun _ first => mem_of_firstBy first)
      done start

end Emission

/-! ## Creation and transfer -/

/-- A new token belongs to the account which controls it. -/
theorem tokens_customTokenCreate
    {op : CustomTokenCreateOperation}
    (done : db.customTokenCreateEvaluator op = .ok after)
    (booked : db.TokensBooked) :
    after.TokensBooked := by
  simp only [customTokenCreateEvaluator, bind_eq_ok_iff, require_eq_ok_iff]
    at done
  rcases done with ⟨account, -, fee, -, _, -, _, new, debited, debit, paid⟩
  refine TokensBooked.of_agrees ?_ (touches_payFee _ _ after paid) rfl
  refine TokensBooked.of_agrees ?_ (touches_addBalance _ _ _ debited debit) rfl
  have missing := Option.isNone_iff_eq_none.1 new
  have unknown : db.customTokens.All fun token =>
      token.symbol ≠ op.currentSupply.symbol :=
    fun id token found => of_decide_eq_false
      (Table.refused_of_findBy missing found)
  have unheld : db.accountBalances.All fun row =>
      row.symbol ≠ op.currentSupply.symbol := by
    intro id row found same
    rcases (booked.issued id row found).2 with ⟨place, token, there, named⟩
    exact unknown place token there (named.trans same)
  have held : ∀ symbol,
      sumOf (fun row : AccountBalanceObject =>
          if row.symbol = symbol then row.balance.amount else 0)
        (db.accountBalances.emplace
          ⟨op.currentSupply.symbol, op.controlAccount, op.currentSupply⟩).rows =
      db.tokenHeld symbol +
        if op.currentSupply.symbol = symbol then op.currentSupply.amount else 0 :=
    fun symbol => Table.sumOf_emplace _ _ _
  have zero : db.tokenHeld op.currentSupply.symbol = 0 := by
    refine List.sum_eq_zero ?_
    intro value member
    rcases List.mem_map.1 member with ⟨⟨id, row⟩, listed, rfl⟩
    exact if_neg (unheld id row
      (ExtTreeMap.mem_toList_iff_getElem?_eq_some.1 listed))
  constructor
  case tokens => exact booked.tokens.emplace unknown
  case supplied =>
    refine Table.All.emplace ?_ ?_
    · intro id token found
      rcases booked.supplied id token found with ⟨supply, fund, sum⟩
      refine ⟨supply, fund, ?_⟩
      rw [tokenHeld, held, if_neg (Ne.symm (unknown id token found)),
        Int.add_zero]
      exact sum
    · refine ⟨rfl, rfl, ?_⟩
      rw [tokenHeld, held, if_pos rfl, zero]
      dsimp only
      omega
  case balances =>
    refine booked.balances.emplace ?_
    intro id row found same
    exact unheld id row found (Prod.mk.inj same).2
  case issued =>
    refine Table.All.emplace ?_ ?_
    · intro id row found
      rcases booked.issued id row found with ⟨kept, place, token, there, named⟩
      refine ⟨kept, place, token, ?_, named⟩
      rw [Table.find?_emplace, if_neg, there]
      rintro rfl
      rw [Table.find?_nextId] at there
      cases there
    · exact ⟨rfl, db.customTokens.nextId, _, by
        rw [Table.find?_emplace, if_pos rfl], rfl⟩

/-- Balances may change as long as the sum in each symbol stays. -/
theorem TokensBooked.of_balances
    {balances : Table AccountBalanceObject}
    (booked : db.TokensBooked)
    (sums : ∀ symbol,
      { db with accountBalances := balances }.tokenHeld symbol =
        db.tokenHeld symbol)
    (distinct : balances.Distinct fun row => (row.owner, row.symbol))
    (issued : balances.All db.Issued) :
    { db with accountBalances := balances }.TokensBooked := by
  refine ⟨booked.tokens, ?_, distinct, issued⟩
  intro id token found
  rw [sums]
  exact booked.supplied id token found

/-- The sum in one symbol after a balance is moved. -/
theorem tokenHeld_moved
    {row : AccountBalanceObject}
    (found : db.accountBalances.find? id = some row)
    (delta : Int)
    (symbol : AssetSymbol) :
    { db with
      accountBalances :=
        db.accountBalances.set id (row.moved delta) }.tokenHeld symbol =
      db.tokenHeld symbol + if row.symbol = symbol then delta else 0 := by
  rw [tokenHeld, Table.sumOf_set _ found, tokenHeld]
  dsimp only [AccountBalanceObject.moved]
  by_cases same : row.symbol = symbol
  · simp only [same, if_true]
    omega
  · simp only [same, if_false]
    omega

/-- A transfer takes from one balance what it adds to another, or to a new one. -/
theorem customTokenTransfer_cases
    (done : db.customTokenTransferEvaluator op = .ok after) :
    ∃ id held middle,
      db.accountBalances.find? id = some held ∧
        held.owner = op.fromAccount ∧ held.symbol = op.amount.symbol ∧
          op.amount.amount ≤ held.balance.amount ∧
      middle = { db with
        accountBalances :=
          db.accountBalances.set id (held.moved (-op.amount.amount)) } ∧
      ((middle.findTokenBalance op.toAccount op.amount.symbol = none ∧
          after = { middle with
            accountBalances := middle.accountBalances.emplace
              ⟨op.amount.symbol, op.toAccount, op.amount⟩ }) ∨
        ∃ place target,
          middle.accountBalances.find? place = some target ∧
            target.owner = op.toAccount ∧ target.symbol = op.amount.symbol ∧
          after = { middle with
            accountBalances := middle.accountBalances.set place
              (target.moved op.amount.amount) }) := by
  simp only [customTokenTransferEvaluator, Asset.lt, Asset.sub, bind_eq_ok_iff,
    orFault_eq_ok_iff, require_eq_ok_iff, pure_eq_ok_iff, checked_eq_ok_iff]
    at done
  rcases done with ⟨⟨id, held⟩, found, less, ⟨_, same, rfl⟩, _, enough, done⟩
  rcases done with ⟨_, -, _, ⟨_, -, _, ⟨-, rfl⟩, rfl⟩, done⟩
  rcases find_of_findTokenBalance found with ⟨there, owner, symbol⟩
  simp only [Bool.not_eq_true', decide_eq_false_iff_not, Int.not_lt] at enough
  refine ⟨id, held, _, there, owner, symbol, enough, rfl, ?_⟩
  split at done
  case h_1 missing =>
    cases done
    exact .inl ⟨missing, rfl⟩
  case h_2 place target offered =>
    simp only [Asset.add, bind_eq_ok_iff, require_eq_ok_iff, pure_eq_ok_iff,
      checked_eq_ok_iff] at done
    rcases done with ⟨_, ⟨_, fits, _, ⟨-, rfl⟩, rfl⟩, rfl⟩
    rcases find_of_findTokenBalance offered with ⟨listed, holder, kind⟩
    exact .inr ⟨place, target, listed, holder, kind, rfl⟩

theorem tokens_customTokenTransfer
    (done : db.customTokenTransferEvaluator op = .ok after)
    (booked : db.TokensBooked) :
    after.TokensBooked := by
  rcases customTokenTransfer_cases done with
    ⟨id, held, middle, found, owner, symbol, -, rfl, rest⟩
  have known := booked.issued id held found
  have debited := tokenHeld_moved found (-op.amount.amount)
  have distinct := booked.balances.set found (held.moved_key (-op.amount.amount))
  have issued := booked.issued.set
    (show db.Issued (held.moved (-op.amount.amount)) from known) id
  rcases rest with ⟨missing, rfl⟩ | ⟨place, target, listed, holder, same, rfl⟩
  · refine booked.of_balances ?_ ?_ ?_
    · intro other
      have first := debited other
      rw [tokenHeld] at first
      rw [tokenHeld, Table.sumOf_emplace, first, symbol]
      dsimp only
      split <;> omega
    · exact distinct.emplace (free_of_findTokenBalance missing)
    · exact issued.emplace ⟨rfl, symbol ▸ known.2⟩
  · refine booked.of_balances ?_ ?_ ?_
    · intro other
      have second := tokenHeld_moved listed op.amount.amount other
      rw [second, debited other, symbol, same]
      split <;> omega
    · exact distinct.set listed (target.moved_key op.amount.amount)
    · exact issued.set (show db.Issued (target.moved op.amount.amount) from
        issued place target listed) place

/-! ## Operations and steps -/

theorem tokens_applyOperation
    {op : Operation}
    (done : db.applyOperation ext op = .ok after)
    (booked : db.TokensBooked) :
    after.TokensBooked := by
  have agrees := touches_applyOperation ext db op after done
  cases op with
  | customTokenCreate op => exact tokens_customTokenCreate done booked
  | customTokenTransfer op => exact tokens_customTokenTransfer done booked
  | customTokenSetupEmissions op =>
      simp only [applyOperation, customTokenSetupEmissionsEvaluator,
        bind_eq_ok_iff, orFault_eq_ok_iff, pure_eq_ok_iff] at done
      rcases done with ⟨⟨id, token⟩, found, rfl⟩
      rcases find_of_findToken found with ⟨there, -⟩
      refine booked.set_token 0 there rfl ?_ ?_
      · rw [Int.add_zero]
      · rw [Int.add_zero]
  | customTokenSetSetupParameters op =>
      simp only [applyOperation, customTokenSetSetupParametersEvaluator,
        bind_eq_ok_iff, orFault_eq_ok_iff, pure_eq_ok_iff] at done
      rcases done with ⟨⟨id, token⟩, found, _, -, _, -, rfl⟩
      rcases find_of_findToken found with ⟨there, -⟩
      rcases setParameters_eq op.setupParameters token with ⟨voting, vesting, kept⟩
      rw [kept]
      refine booked.set_token 0 there rfl ?_ ?_
      · rw [Int.add_zero]
      · rw [Int.add_zero]
  | _ => exact booked.of_agrees agrees rfl

theorem tokens_runStep
    {header : BlockHeader}
    {step : BlockStep}
    (done : db.runStep ext header step = .ok after)
    (booked : db.TokensBooked) :
    after.TokensBooked := by
  have agrees := touches_runStep ext header db step after done
  cases step with
  | customTokensEmissions =>
      refine customTokensEmissions_invariant TokensBooked ?_ done booked
      intro db id token emitted found emit start
      rcases emitToken_eq emit with ⟨amount, rfl⟩
      exact start.set_token amount found rfl rfl rfl
  | _ => exact booked.of_agrees agrees rfl

end Database

/-! ## Runs -/

theorem tokens_genesis :
    initGenesis.TokensBooked :=
  ⟨.empty, .empty, .empty, .empty⟩

theorem tokens_reachable
    (reachable : Reachable ext db) :
    db.TokensBooked := by
  refine Reachable.invariant Database.TokensBooked tokens_genesis ?_ ?_ ?_
    reachable
  · intro state header after begun booked
    exact booked.of_agrees
      (Database.touches_beginBlock state header after begun) rfl
  · exact fun state op after _ done booked =>
      Database.tokens_applyOperation done booked
  · exact fun header state step after done booked =>
      Database.tokens_runStep done booked

/--
The supply of a custom token is the sum of the balances in its symbol and of
its reward fund, all of them carry that symbol, and nobody has two balances in
one symbol.
-/
theorem custom_tokens_conserved
    {ext : External}
    {db : Database}
    (reachable : Reachable ext db) :
    (∀ id token, db.customTokens.find? id = some token →
      sumOf
            (fun row : AccountBalanceObject =>
              if row.symbol = token.symbol then row.balance.amount else 0)
            db.accountBalances.rows +
          token.rewardFund.amount = token.currentSupply.amount ∧
        token.currentSupply.symbol = token.symbol ∧
          token.rewardFund.symbol = token.symbol ∧
            ∀ place row, db.accountBalances.find? place = some row →
              row.symbol = token.symbol → row.balance.symbol = token.symbol) ∧
    (∀ first second row other,
      db.accountBalances.find? first = some row →
        db.accountBalances.find? second = some other →
          row.owner = other.owner → row.symbol = other.symbol →
            first = second) := by
  have booked := tokens_reachable reachable
  constructor
  · intro id token found
    rcases booked.supplied id token found with ⟨supply, fund, sum⟩
    refine ⟨sum, supply, fund, ?_⟩
    intro place row there same
    exact (booked.issued place row there).1.trans same
  · intro first second row other found there owner symbol
    exact booked.balances first second row other found there
      (Prod.ext owner symbol)

/-- A token of a thousand units. -/
def sampleToken : Operation :=
  .customTokenCreate
    { controlAccount := initMinerName
      currentSupply := ⟨1000, symbolWord 3 ['T', 'K', 'N']⟩
      customTokenCreationFee := bmt 5 }

/-- A payment in the token. -/
def samplePayment : Operation :=
  .customTokenTransfer
    { fromAccount := initMinerName
      toAccount := "devs"
      amount := ⟨250, symbolWord 3 ['T', 'K', 'N']⟩ }

/-- The supply after a payment in a new token. -/
theorem custom_tokens_conserved_payment :
    ∃ created after token,
      initGenesis.step plainExternal (.operation sampleToken) = .ok created ∧
        created.step plainExternal (.operation samplePayment) = .ok after ∧
          after.customTokens.find? 0 = some token ∧
            token.currentSupply.symbol = token.symbol := by
  have ran : ((initGenesis.step plainExternal (.operation sampleToken)).bind
      fun created => (created.step plainExternal
        (.operation samplePayment)).bind fun after =>
          orFault (after.customTokens.find? 0) "").isOk = true := by
    decide +kernel
  rcases exists_of_isOk ran with ⟨token, done⟩
  rcases (bind_eq_ok_iff _ _ _).1 done with ⟨created, first, done⟩
  rcases (bind_eq_ok_iff _ _ _).1 done with ⟨after, second, got⟩
  have found := orFault_eq_ok_iff.1 got
  have reachable : Reachable plainExternal after :=
    ⟨none, .step (.operation samplePayment)
      (.step (.operation sampleToken) .genesis (.operation _ _) trivial first)
      (.operation _ _) trivial second⟩
  exact ⟨created, after, token, first, second, found,
    ((custom_tokens_conserved reachable).1 0 token found).2.1⟩

end BMChain.State
