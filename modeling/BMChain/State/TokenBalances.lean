import BMChain.State.CustomToken
import BMChain.State.Holdings

/-!
# Balances of custom tokens are not taken

A transfer of a negative amount takes from its receiver, and a token may be
created with a negative supply.  It is said exactly when an operation on custom
tokens takes from nobody but its signer and leaves no balance negative.
-/

namespace BMChain.State

open BMChain.Foundation BMChain.Protocol Std

@[simp]
theorem AccountBalanceObject.moved_zero
    (row : AccountBalanceObject) :
    row.moved 0 = row := by
  rw [moved, Int.add_zero]

theorem AccountBalanceObject.moved_moved
    (row : AccountBalanceObject)
    (first second : Int) :
    (row.moved first).moved second = row.moved (first + second) := by
  simp only [moved, Int.add_assoc]

/-- A balance is the one which a search by owner and symbol looks for. -/
def AccountBalanceObject.Belongs (row : AccountBalanceObject)
    (owner : AccountName) (symbol : AssetSymbol) : Prop :=
  row.owner = owner ∧ row.symbol = symbol

instance (row : AccountBalanceObject) (owner : AccountName)
    (symbol : AssetSymbol) : Decidable (row.Belongs owner symbol) :=
  inferInstanceAs (Decidable (_ ∧ _))

/-- What a transfer adds to a balance. -/
def transferGain (op : CustomTokenTransferOperation)
    (row : AccountBalanceObject) : Int :=
  (if row.Belongs op.toAccount op.amount.symbol then op.amount.amount else 0) -
    if row.Belongs op.fromAccount op.amount.symbol then op.amount.amount else 0

namespace Database

/-! ## What a transfer moves -/

/-- The balances after a transfer are the old ones moved, and perhaps a new
one. -/
structure Transferred (op : CustomTokenTransferOperation)
    (db after : Database) : Prop where
  enough : ∃ id held, db.accountBalances.find? id = some held ∧
    held.Belongs op.fromAccount op.amount.symbol ∧
      op.amount.amount ≤ held.balance.amount
  kept : ∀ id row, db.accountBalances.find? id = some row →
    after.accountBalances.find? id = some (row.moved (transferGain op row))
  listed : ∀ id row, after.accountBalances.find? id = some row →
    (∃ old, db.accountBalances.find? id = some old ∧
      row = old.moved (transferGain op old)) ∨
    op.fromAccount ≠ op.toAccount ∧
      row = ⟨op.amount.symbol, op.toAccount, op.amount⟩
  opened :
    (∃ id, after.accountBalances.find? id =
      some ⟨op.amount.symbol, op.toAccount, op.amount⟩) ∨
    ∃ id row, db.accountBalances.find? id = some row ∧
      row.Belongs op.toAccount op.amount.symbol

/-- An account has one balance in a symbol. -/
theorem TokensBooked.same_of_belongs
    {db : Database}
    (booked : db.TokensBooked)
    {first second : Nat}
    {row other : AccountBalanceObject}
    {owner : AccountName}
    {symbol : AssetSymbol}
    (found : db.accountBalances.find? first = some row)
    (there : db.accountBalances.find? second = some other)
    (own : row.Belongs owner symbol)
    (same : other.Belongs owner symbol) :
    first = second := by
  refine booked.balances first second row other found there ?_
  exact Prod.ext (own.1.trans same.1.symm) (own.2.trans same.2.symm)

section Transfers

variable {op : CustomTokenTransferOperation} {db : Database} {id : Nat}
    {held : AccountBalanceObject}

variable
    (booked : db.TokensBooked)
    (found : db.accountBalances.find? id = some held)
    (own : held.Belongs op.fromAccount op.amount.symbol)

include booked found own

/-- Balances of others are not moved. -/
theorem transferGain_other
    {other : Nat}
    {row : AccountBalanceObject}
    (there : db.accountBalances.find? other = some row)
    (different : id ≠ other)
    (apart : ¬ row.Belongs op.toAccount op.amount.symbol) :
    transferGain op row = 0 := by
  have foreign : ¬ row.Belongs op.fromAccount op.amount.symbol :=
    fun same => different (booked.same_of_belongs found there own same)
  rw [transferGain, if_neg apart, if_neg foreign, Int.sub_zero]

theorem transferred_new
    (enough : op.amount.amount ≤ held.balance.amount)
    {balances : Table AccountBalanceObject}
    (moved : balances =
      db.accountBalances.set id (held.moved (-op.amount.amount)))
    (missing : { db with accountBalances := balances }.findTokenBalance
      op.toAccount op.amount.symbol = none) :
    Transferred op db { db with
      accountBalances := balances.emplace
        ⟨op.amount.symbol, op.toAccount, op.amount⟩ } := by
  have rows : ∀ other, balances.find? other =
      if id = other then some (held.moved (-op.amount.amount))
      else db.accountBalances.find? other := by
    intro other
    rw [moved, Table.find?_set found]
  have free := free_of_findTokenBalance missing
  have first : op.fromAccount ≠ op.toAccount := by
    intro same
    refine free id _ (by rw [rows, if_pos rfl]) ?_
    rw [AccountBalanceObject.moved_key, own.1, own.2, same]
  have apart : ∀ other row, db.accountBalances.find? other = some row →
      ¬ row.Belongs op.toAccount op.amount.symbol := by
    intro other row there same
    by_cases equal : id = other
    · subst equal
      rw [found] at there
      cases there
      exact first (own.1.symm.trans same.1)
    · refine free other row (by rw [rows, if_neg equal, there]) ?_
      rw [same.1, same.2]
  have gain : transferGain op held = -op.amount.amount := by
    rw [transferGain, if_neg (apart id held found), if_pos own, Int.zero_sub]
  have next : balances.nextId = db.accountBalances.nextId := by
    rw [moved]
    rfl
  constructor
  case enough => exact ⟨id, held, found, own, enough⟩
  case kept =>
    intro other row there
    rw [Table.find?_emplace, if_neg, rows]
    · split
      case isTrue equal =>
        subst equal
        rw [found] at there
        cases there
        rw [gain]
      case isFalse different =>
        rw [transferGain_other booked found own there different
          (apart other row there), AccountBalanceObject.moved_zero, there]
    · rintro rfl
      rw [next, Table.find?_nextId] at there
      cases there
  case listed =>
    intro other row there
    rw [Table.find?_emplace] at there
    split at there
    case isTrue =>
      cases there
      exact .inr ⟨first, rfl⟩
    case isFalse =>
      rw [rows] at there
      split at there
      case isTrue equal =>
        cases there
        exact .inl ⟨held, equal ▸ found, by rw [gain]⟩
      case isFalse different =>
        refine .inl ⟨row, there, ?_⟩
        rw [transferGain_other booked found own there different
          (apart other row there), AccountBalanceObject.moved_zero]
  case opened =>
    refine .inl ⟨balances.nextId, ?_⟩
    rw [Table.find?_emplace, if_pos rfl]

theorem transferred_old
    (enough : op.amount.amount ≤ held.balance.amount)
    {balances : Table AccountBalanceObject}
    (moved : balances =
      db.accountBalances.set id (held.moved (-op.amount.amount)))
    {place : Nat}
    {target : AccountBalanceObject}
    (offered : balances.find? place = some target)
    (theirs : target.Belongs op.toAccount op.amount.symbol) :
    Transferred op db { db with
      accountBalances := balances.set place
        (target.moved op.amount.amount) } := by
  have rows : ∀ other, balances.find? other =
      if id = other then some (held.moved (-op.amount.amount))
      else db.accountBalances.find? other := by
    intro other
    rw [moved, Table.find?_set found]
  -- The receiver's balance before the transfer, with what it gains.
  have before : ∃ row, db.accountBalances.find? place = some row ∧
      row.Belongs op.toAccount op.amount.symbol ∧
        target.moved op.amount.amount = row.moved (transferGain op row) := by
    rw [rows] at offered
    split at offered
    case isTrue equal =>
      cases offered
      refine ⟨held, equal ▸ found, theirs, ?_⟩
      have same : held.Belongs op.toAccount op.amount.symbol := theirs
      rw [AccountBalanceObject.moved_moved, transferGain, if_pos own,
        if_pos same]
      congr 1
      omega
    case isFalse different =>
      refine ⟨target, offered, theirs, ?_⟩
      have foreign : ¬ target.Belongs op.fromAccount op.amount.symbol :=
        fun same => different (booked.same_of_belongs found offered own same)
      rw [transferGain, if_pos theirs, if_neg foreign, Int.sub_zero]
  rcases before with ⟨row, there, mine, changed⟩
  have final : ∀ other old, db.accountBalances.find? other = some old →
      (balances.set place (target.moved op.amount.amount)).find? other =
        some (old.moved (transferGain op old)) := by
    intro other old listed
    rw [Table.find?_set offered]
    split
    case isTrue equal =>
      subst equal
      rw [there] at listed
      cases listed
      rw [changed]
    case isFalse different =>
      have apart : ¬ old.Belongs op.toAccount op.amount.symbol :=
        fun same => different (booked.same_of_belongs there listed mine same)
      rw [rows]
      split
      case isTrue equal =>
        subst equal
        rw [found] at listed
        cases listed
        rw [transferGain, if_neg apart, if_pos own, Int.zero_sub]
      case isFalse foreign =>
        rw [transferGain_other booked found own listed foreign apart,
          AccountBalanceObject.moved_zero, listed]
  constructor
  case enough => exact ⟨id, held, found, own, enough⟩
  case kept => exact final
  case listed =>
    intro other new listed
    cases old : db.accountBalances.find? other with
    | some old' =>
        rw [final other old' old] at listed
        exact .inl ⟨old', rfl, (Option.some.inj listed).symm⟩
    | none =>
        rw [Table.find?_set offered, if_neg, rows, if_neg, old] at listed
        · cases listed
        · rintro rfl
          rw [found] at old
          cases old
        · rintro rfl
          rw [there] at old
          cases old
  case opened => exact .inr ⟨place, row, there, mine⟩

end Transfers

theorem transferred_customTokenTransfer
    {op : CustomTokenTransferOperation}
    {db after : Database}
    (done : db.customTokenTransferEvaluator op = .ok after)
    (booked : db.TokensBooked) :
    Transferred op db after := by
  rcases customTokenTransfer_cases done with
    ⟨id, held, middle, found, owner, symbol, enough, rfl, rest⟩
  rcases rest with ⟨missing, rfl⟩ | ⟨place, target, offered, holder, kind, rfl⟩
  · exact transferred_new booked found ⟨owner, symbol⟩ enough rfl missing
  · exact transferred_old booked found ⟨owner, symbol⟩ enough rfl offered
      ⟨holder, kind⟩

/-! ## Nothing is taken -/

/-- Nobody but the signers has less, and nobody has a negative balance. -/
structure Untaken (db after : Database) (signers : List AccountName) : Prop
    where
  accounts : ∀ name,
    after.held AccountObject.balance name <
        db.held AccountObject.balance name →
      name ∈ signers
  balances : ∀ id row, db.accountBalances.find? id = some row →
    ∃ changed, after.accountBalances.find? id = some changed ∧
      (changed.balance.amount < row.balance.amount → row.owner ∈ signers)
  funded : ∀ name, 0 ≤ after.held AccountObject.balance name
  nonneg : after.accountBalances.All fun row => 0 ≤ row.balance.amount

/--
When a transfer takes nothing: its amount is not negative unless it is to
oneself, and no balance is left negative which the transfer does not fill.
-/
structure TransferSafe (op : CustomTokenTransferOperation) (db : Database) :
    Prop where
  amount : 0 ≤ op.amount.amount ∨ op.fromAccount = op.toAccount
  accounts : ∀ name, 0 ≤ db.held AccountObject.balance name
  balances : db.accountBalances.All fun row =>
    0 ≤ row.balance.amount + transferGain op row

/--
When the creation of a token takes nothing: its supply is not negative, and
no balance but that of the creator is.
-/
structure CreationSafe (op : CustomTokenCreateOperation) (db : Database) :
    Prop where
  supply : 0 ≤ op.currentSupply.amount
  accounts : ∀ name, name ≠ op.controlAccount →
    0 ≤ db.held AccountObject.balance name
  balances : db.accountBalances.All fun row => 0 ≤ row.balance.amount

theorem untaken_customTokenTransfer_iff
    {op : CustomTokenTransferOperation}
    {db after : Database}
    (booked : db.TokensBooked)
    (done : db.customTokenTransferEvaluator op = .ok after) :
    Untaken db after [op.fromAccount] ↔ TransferSafe op db := by
  have moved := transferred_customTokenTransfer done booked
  have agrees := touches_customTokenTransfer op db after done
  have same : ∀ name, after.held AccountObject.balance name =
      db.held AccountObject.balance name :=
    held_of_read_eq (agrees (.account .balance) (by decide)) fun count => count
  constructor
  · intro untaken
    constructor
    case amount =>
      by_contra taken
      simp only [not_or, Int.not_le] at taken
      rcases moved.opened with ⟨id, new⟩ | ⟨id, row, found, theirs⟩
      · exact absurd (untaken.nonneg id _ new) (Int.not_le.2 taken.1)
      · rcases untaken.balances id row found with ⟨changed, there, taker⟩
        rw [moved.kept id row found] at there
        cases there
        have foreign : ¬ row.Belongs op.fromAccount op.amount.symbol :=
          fun own => taken.2 (own.1.symm.trans theirs.1)
        have less : (row.moved (transferGain op row)).balance.amount <
            row.balance.amount := by
          rw [transferGain, if_pos theirs, if_neg foreign, Int.sub_zero]
          simp only [AccountBalanceObject.moved]
          omega
        have signer := List.mem_singleton.1 (taker less)
        exact taken.2 (signer.symm.trans theirs.1)
    case accounts =>
      intro name
      rw [← same]
      exact untaken.funded name
    case balances =>
      intro id row found
      exact untaken.nonneg id _ (moved.kept id row found)
  · intro safe
    constructor
    case accounts =>
      intro name less
      rw [same] at less
      exact absurd less (Int.lt_irrefl _)
    case balances =>
      intro id row found
      refine ⟨_, moved.kept id row found, ?_⟩
      intro less
      have negative : transferGain op row < 0 := by
        simp only [AccountBalanceObject.moved] at less
        omega
      rw [List.mem_singleton]
      by_contra foreign
      have stranger : ¬ row.Belongs op.fromAccount op.amount.symbol :=
        fun own => foreign own.1
      unfold transferGain at negative
      rw [if_neg stranger, Int.sub_zero] at negative
      split at negative
      case isTrue theirs =>
        rcases safe.amount with positive | self
        · omega
        · exact foreign (theirs.1.trans self.symm)
      case isFalse => omega
    case funded =>
      intro name
      rw [same]
      exact safe.accounts name
    case nonneg =>
      intro id row found
      rcases moved.listed id row found with ⟨old, there, rfl⟩ | ⟨other, rfl⟩
      · exact safe.balances id old there
      · exact safe.amount.resolve_right other

/-- The fee of a new token is paid by the account which controls it. -/
theorem balance_customTokenCreate
    {op : CustomTokenCreateOperation}
    {db after : Database}
    (done : db.customTokenCreateEvaluator op = .ok after) :
    ∃ fee,
      fee ≤ db.held AccountObject.balance op.controlAccount ∧
        (∀ name, after.held AccountObject.balance name =
          db.held AccountObject.balance name +
            if op.controlAccount = name then -fee else 0) ∧
        after.accountBalances = db.accountBalances.emplace
          ⟨op.currentSupply.symbol, op.controlAccount, op.currentSupply⟩ := by
  simp only [customTokenCreateEvaluator, bind_eq_ok_iff, require_eq_ok_iff]
    at done
  rcases done with ⟨account, got, fee, -, _, enough, _, -, done⟩
  rcases done with ⟨debited, debit, paid⟩
  have funds := touches_payFee _ _ after paid
  refine ⟨fee, ?_, ?_, ?_⟩
  · rw [held_of_find (find_of_getAccount got)]
    exact enough
  · intro name
    have unchanged : after.held AccountObject.balance name =
        debited.held AccountObject.balance name :=
      held_of_read_eq (funds (.account .balance) (by decide))
        (fun count => count) name
    rw [unchanged]
    refine held_modifyAccount debit ?_ name
    intro row changed _ change
    simp only [bind_eq_ok_iff, pure_eq_ok_iff, checked_eq_ok_iff] at change
    rcases change with ⟨_, ⟨-, rfl⟩, rfl⟩
    rfl
  · have kept : after.accountBalances = debited.accountBalances :=
      funds .accountBalances (by decide)
    have moved := touches_addBalance _ _ _ debited debit .accountBalances
      (by decide)
    exact kept.trans moved

theorem untaken_customTokenCreate_iff
    {op : CustomTokenCreateOperation}
    {db after : Database}
    (done : db.customTokenCreateEvaluator op = .ok after) :
    Untaken db after [op.controlAccount] ↔ CreationSafe op db := by
  rcases balance_customTokenCreate done with ⟨fee, enough, paid, rows⟩
  have kept : ∀ id row, db.accountBalances.find? id = some row →
      after.accountBalances.find? id = some row := by
    intro id row found
    rw [rows, Table.find?_emplace, if_neg, found]
    rintro rfl
    rw [Table.find?_nextId] at found
    cases found
  constructor
  · intro untaken
    constructor
    case supply =>
      refine untaken.nonneg db.accountBalances.nextId
        ⟨op.currentSupply.symbol, op.controlAccount, op.currentSupply⟩ ?_
      rw [rows, Table.find?_emplace, if_pos rfl]
    case accounts =>
      intro name other
      have funded := untaken.funded name
      rwa [paid, if_neg (Ne.symm other), Int.add_zero] at funded
    case balances =>
      exact fun id row found => untaken.nonneg id row (kept id row found)
  · intro safe
    constructor
    case accounts =>
      intro name less
      rw [paid] at less
      split at less
      case isTrue same => exact List.mem_singleton.2 same.symm
      case isFalse => omega
    case balances =>
      intro id row found
      exact ⟨row, kept id row found, fun less => absurd less (Int.lt_irrefl _)⟩
    case funded =>
      intro name
      rw [paid]
      split
      case isTrue same =>
        rw [← same]
        omega
      case isFalse other =>
        rw [Int.add_zero]
        exact safe.accounts name (Ne.symm other)
    case nonneg =>
      rw [rows]
      exact safe.balances.emplace safe.supply

end Database

/-! ## Runs -/

/--
In a reachable state, a transfer or a creation of custom tokens takes from
nobody but its signer and leaves no balance negative exactly under its
condition.
-/
theorem tokens_untaken_iff
    {ext : External}
    {db : Database}
    (reachable : Reachable ext db) :
    (∀ op after,
      (Operation.customTokenTransfer op).validate ext = .ok () →
        db.applyOperation ext (.customTokenTransfer op) = .ok after →
          (db.Untaken after (Operation.customTokenTransfer op).requiredActive ↔
            Database.TransferSafe op db)) ∧
    (∀ op after,
      (Operation.customTokenCreate op).validate ext = .ok () →
        db.applyOperation ext (.customTokenCreate op) = .ok after →
          (db.Untaken after (Operation.customTokenCreate op).requiredOwner ↔
            Database.CreationSafe op db)) := by
  have booked := tokens_reachable reachable
  constructor
  · intro op after _ done
    exact Database.untaken_customTokenTransfer_iff booked done
  · intro op after _ done
    exact Database.untaken_customTokenCreate_iff done

/-- A token of genesis takes nothing from anybody. -/
theorem tokens_untaken_iff_created :
    ∃ op after,
      sampleToken = .customTokenCreate op ∧
        initGenesis.applyOperation plainExternal sampleToken = .ok after ∧
          initGenesis.Untaken after
            (Operation.customTokenCreate op).requiredOwner := by
  have ran : (initGenesis.applyOperation plainExternal
      sampleToken).isOk = true := by
    decide +kernel
  rcases exists_of_isOk ran with ⟨after, done⟩
  refine ⟨_, after, rfl, done, ?_⟩
  refine ((tokens_untaken_iff ⟨none, .genesis⟩).2 _ after rfl done).2 ?_
  refine ⟨by decide, ?_, .empty⟩
  intro name _
  unfold Database.held
  cases found : initGenesis.accounts.find? name with
  | none => exact Int.le_refl 0
  | some account =>
      exact genesis_account (fun row => 0 ≤ row.balance) (by decide +kernel)
        found

/-- A transfer of a negative amount of the sample token. -/
def negativePayment : Operation :=
  .customTokenTransfer
    { fromAccount := initMinerName
      toAccount := "devs"
      amount := ⟨-100, symbolWord 3 ['T', 'K', 'N']⟩ }

/-- A transfer of a negative amount takes tokens from its receiver. -/
theorem negative_payment_takes :
    ¬ ∀ (ext : External) (db : Database) (op : CustomTokenTransferOperation)
        (after : Database),
      Reachable ext db →
        (Operation.customTokenTransfer op).validate ext = .ok () →
          db.applyOperation ext (.customTokenTransfer op) = .ok after →
            db.Untaken after
              (Operation.customTokenTransfer op).requiredActive := by
  intro untaken
  have ran : ((initGenesis.step plainExternal (.operation sampleToken)).bind
      fun created => (created.step plainExternal
        (.operation samplePayment)).bind fun paid =>
          (paid.applyOperation plainExternal negativePayment).bind
            fun after => (orFault (paid.accountBalances.find? 1) "").bind
              fun before => (orFault (after.accountBalances.find? 1) "").bind
                fun row =>
                  if before.owner = "devs" ∧
                    row.balance.amount < before.balance.amount then .ok ()
                  else .error "") = .ok () := by
    decide +kernel
  rcases (bind_eq_ok_iff _ _ _).1 ran with ⟨created, first, ran⟩
  rcases (bind_eq_ok_iff _ _ _).1 ran with ⟨paid, second, ran⟩
  rcases (bind_eq_ok_iff _ _ _).1 ran with ⟨after, third, ran⟩
  rcases (bind_eq_ok_iff _ _ _).1 ran with ⟨before, had, ran⟩
  rcases (bind_eq_ok_iff _ _ _).1 ran with ⟨row, has, less⟩
  have both : before.owner = "devs" ∧
      row.balance.amount < before.balance.amount := by
    split at less
    · assumption
    · cases less
  have reachable : Reachable plainExternal paid :=
    ⟨none, .step (.operation samplePayment)
      (.step (.operation sampleToken) .genesis (.operation _ _) trivial first)
      (.operation _ _) trivial second⟩
  have kept := untaken plainExternal paid _ after reachable rfl third
  rcases kept.balances 1 before (orFault_eq_ok_iff.1 had) with
    ⟨changed, there, signer⟩
  rw [orFault_eq_ok_iff.1 has] at there
  cases there
  have taker := signer both.2
  rw [both.1] at taker
  exact absurd taker (by decide)

end BMChain.State
