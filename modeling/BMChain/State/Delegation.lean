import BMChain.State.Holdings

/-!
# The books of delegated shares

Every account counts the shares it delegated and those it received.  The
counts are kept by two operations and by the sweep of expired delegations; they
agree with the tables in every reachable state.
-/

namespace BMChain.State

open BMChain.Foundation BMChain.Protocol Std

namespace Database

/-! ## The books -/

section Books

variable (db : Database) (name : AccountName)

/-- What an account gives away in the delegations of the moment. -/
def givenBy : Int :=
  sumOf (fun delegation : VestingDelegationObject =>
    if delegation.delegator = name then delegation.vestingShares else 0)
    db.delegations.rows

/-- What is on its way back to an account. -/
def returningTo : Int :=
  sumOf (fun expiration : DelegationExpirationObject =>
    if expiration.delegator = name then expiration.vestingShares else 0)
    db.delegationExpirations.rows

/-- What an account receives in the delegations of the moment. -/
def takenBy : Int :=
  sumOf (fun delegation : VestingDelegationObject =>
    if delegation.delegatee = name then delegation.vestingShares else 0)
    db.delegations.rows

end Books

/-- The counts of the accounts agree with the tables. -/
structure DelegationsBooked (db : Database) : Prop where
  delegated : ∀ name,
    db.held AccountObject.delegatedVestingShares name =
      db.givenBy name + db.returningTo name
  received : ∀ name,
    db.held AccountObject.receivedVestingShares name = db.takenBy name

/-- No delegation and no expiration is of a negative number of shares. -/
def DelegationsNonneg (db : Database) : Prop :=
  db.delegations.All (fun delegation => 0 ≤ delegation.vestingShares) ∧
    db.delegationExpirations.All fun expiration =>
      0 ≤ expiration.vestingShares

/-- What the books are made of. -/
def bookFields : List Field :=
  [.account .delegated, .account .received, .delegations,
    .delegationExpirations]

/--
Shares are given from one account to another, and others start or end their
way back to the giver, in the tables and in the counts alike.
-/
structure DelegationMove (before after : Database)
    (delegator delegatee : AccountName) (given returning : Int) : Prop where
  delegated : ∀ name,
    after.held AccountObject.delegatedVestingShares name =
      before.held AccountObject.delegatedVestingShares name +
        if delegator = name then given + returning else 0
  received : ∀ name,
    after.held AccountObject.receivedVestingShares name =
      before.held AccountObject.receivedVestingShares name +
        if delegatee = name then given else 0
  givenBy : ∀ name,
    after.givenBy name =
      before.givenBy name + if delegator = name then given else 0
  takenBy : ∀ name,
    after.takenBy name =
      before.takenBy name + if delegatee = name then given else 0
  returningTo : ∀ name,
    after.returningTo name =
      before.returningTo name + if delegator = name then returning else 0
  nonneg : before.DelegationsNonneg → after.DelegationsNonneg

/-- What leaves the books alone is a move of nothing. -/
theorem DelegationMove.of_agrees
    {fields : List Field}
    {before after : Database}
    (agrees : Agrees fields before after)
    (separate : apart bookFields fields = true)
    (delegator delegatee : AccountName) :
    DelegationMove before after delegator delegatee 0 0 := by
  have delegated := agrees.read_eq separate
    (by decide : .account .delegated ∈ bookFields)
  have received := agrees.read_eq separate
    (by decide : .account .received ∈ bookFields)
  have current : after.delegations = before.delegations :=
    agrees.read_eq separate (by decide : .delegations ∈ bookFields)
  have expiring :
      after.delegationExpirations = before.delegationExpirations :=
    agrees.read_eq separate (by decide : .delegationExpirations ∈ bookFields)
  constructor
  case delegated =>
    intro name
    rw [Int.add_zero, ite_self, Int.add_zero]
    exact congrArg (Option.getD · 0) (congrFun delegated name)
  case received =>
    intro name
    rw [ite_self, Int.add_zero]
    exact congrArg (Option.getD · 0) (congrFun received name)
  case givenBy =>
    intro name
    unfold Database.givenBy
    rw [current, ite_self, Int.add_zero]
  case takenBy =>
    intro name
    unfold Database.takenBy
    rw [current, ite_self, Int.add_zero]
  case returningTo =>
    intro name
    unfold Database.returningTo
    rw [expiring, ite_self, Int.add_zero]
  case nonneg =>
    rintro ⟨given, returning⟩
    exact ⟨by rwa [current], by rwa [expiring]⟩

theorem DelegationMove.trans
    {before middle after : Database}
    {delegator delegatee : AccountName}
    {given returning more later : Int}
    (first : DelegationMove before middle delegator delegatee given returning)
    (second : DelegationMove middle after delegator delegatee more later) :
    DelegationMove before after delegator delegatee (given + more)
      (returning + later) := by
  constructor
  case delegated =>
    intro name
    rw [second.delegated, first.delegated]
    split <;> omega
  case received =>
    intro name
    rw [second.received, first.received]
    split <;> omega
  case givenBy =>
    intro name
    rw [second.givenBy, first.givenBy]
    split <;> omega
  case takenBy =>
    intro name
    rw [second.takenBy, first.takenBy]
    split <;> omega
  case returningTo =>
    intro name
    rw [second.returningTo, first.returningTo]
    split <;> omega
  case nonneg => exact fun start => second.nonneg (first.nonneg start)

theorem DelegationMove.booked
    {before after : Database}
    {delegator delegatee : AccountName}
    {given returning : Int}
    (move : DelegationMove before after delegator delegatee given returning)
    (booked : before.DelegationsBooked) :
    after.DelegationsBooked := by
  refine ⟨?_, ?_⟩
  · intro name
    rw [move.delegated, move.givenBy, move.returningTo, booked.delegated]
    split <;> omega
  · intro name
    rw [move.received, move.takenBy, booked.received]

/-! ## Changed counts -/

section Counts

variable {db after : Database} {name : AccountName} {delta : Int}

theorem held_addDelegated
    (done : db.addDelegated name delta = .ok after)
    (other : AccountName) :
    after.held AccountObject.delegatedVestingShares other =
      db.held AccountObject.delegatedVestingShares other +
        if name = other then delta else 0 := by
  refine held_modifyAccount done ?_ other
  intro account changed _ change
  simp only [bind_eq_ok_iff, pure_eq_ok_iff, checked_eq_ok_iff] at change
  rcases change with ⟨_, ⟨-, rfl⟩, rfl⟩
  rfl

theorem held_addReceived
    (done : db.addReceived name delta = .ok after)
    (other : AccountName) :
    after.held AccountObject.receivedVestingShares other =
      db.held AccountObject.receivedVestingShares other +
        if name = other then delta else 0 := by
  refine held_modifyAccount done ?_ other
  intro account changed _ change
  simp only [bind_eq_ok_iff, pure_eq_ok_iff, checked_eq_ok_iff] at change
  rcases change with ⟨_, ⟨-, rfl⟩, rfl⟩
  rfl

/-- The count of the shares received is not part of those given. -/
theorem held_delegated_of_addReceived
    (done : db.addReceived name delta = .ok after)
    (other : AccountName) :
    after.held AccountObject.delegatedVestingShares other =
      db.held AccountObject.delegatedVestingShares other :=
  congrArg (Option.getD · 0)
    (congrFun (touches_addReceived db name delta after done
      (.account .delegated) (by decide)) other)

theorem held_received_of_addDelegated
    (done : db.addDelegated name delta = .ok after)
    (other : AccountName) :
    after.held AccountObject.receivedVestingShares other =
      db.held AccountObject.receivedVestingShares other :=
  congrArg (Option.getD · 0)
    (congrFun (touches_addDelegated db name delta after done
      (.account .received) (by decide)) other)

end Counts

/-! ## Delegations -/

section Delegate

variable {db : Database} {delegator delegatee : AccountName}

theorem find_of_delegation
    {entry : Nat × VestingDelegationObject}
    (found : (db.delegations.findBy fun other =>
      other.delegator = delegator ∧ other.delegatee = delegatee) =
        some entry) :
    db.delegations.find? entry.1 = some entry.2 ∧
      entry.2.delegator = delegator ∧ entry.2.delegatee = delegatee := by
  refine ⟨Table.find?_of_findBy found, ?_⟩
  have passed := List.find?_some found
  simpa using passed

/-- A first delegation between two accounts. -/
theorem move_newDelegation
    {shares : Int}
    {time : Time}
    {given after : Database}
    (positive : 0 ≤ shares)
    (give : { db with
      delegations := db.delegations.emplace
        ⟨delegator, delegatee, shares, time⟩ }.addDelegated delegator shares =
          .ok given)
    (take : given.addReceived delegatee shares = .ok after) :
    DelegationMove db after delegator delegatee shares 0 := by
  have tables : after.delegations = db.delegations.emplace
        ⟨delegator, delegatee, shares, time⟩ ∧
      after.delegationExpirations = db.delegationExpirations := by
    rcases accounts_of_modifyAccount give with ⟨_, rfl⟩
    rcases accounts_of_modifyAccount take with ⟨_, rfl⟩
    exact ⟨rfl, rfl⟩
  constructor
  case delegated =>
    intro name
    rw [held_delegated_of_addReceived take, held_addDelegated give,
      Int.add_zero]
    rfl
  case received =>
    intro name
    rw [held_addReceived take, held_received_of_addDelegated give]
    rfl
  case givenBy =>
    intro name
    unfold givenBy
    rw [tables.1, Table.sumOf_emplace]
  case takenBy =>
    intro name
    unfold takenBy
    rw [tables.1, Table.sumOf_emplace]
  case returningTo =>
    intro name
    unfold returningTo
    rw [tables.2, ite_self, Int.add_zero]
  case nonneg =>
    rintro ⟨current, expiring⟩
    exact ⟨by rw [tables.1]; exact current.emplace positive,
      by rwa [tables.2]⟩

variable {id : Nat} {delegation : VestingDelegationObject}

/-- A delegation is raised. -/
theorem move_raisedDelegation
    {shares : Int}
    {given taken : Database}
    (positive : 0 ≤ shares)
    (row : db.delegations.find? id = some delegation)
    (giver : delegation.delegator = delegator)
    (receiver : delegation.delegatee = delegatee)
    (give : db.addDelegated delegator (shares - delegation.vestingShares) =
      .ok given)
    (take : given.addReceived delegatee (shares - delegation.vestingShares) =
      .ok taken) :
    DelegationMove db
      { taken with
        delegations := taken.delegations.set id
          { delegation with vestingShares := shares } }
      delegator delegatee (shares - delegation.vestingShares) 0 := by
  have tables : taken.delegations = db.delegations ∧
      taken.delegationExpirations = db.delegationExpirations := by
    rcases accounts_of_modifyAccount give with ⟨_, rfl⟩
    rcases accounts_of_modifyAccount take with ⟨_, rfl⟩
    exact ⟨rfl, rfl⟩
  constructor
  case delegated =>
    intro name
    rw [Int.add_zero]
    exact (held_delegated_of_addReceived take name).trans
      (held_addDelegated give name)
  case received =>
    intro name
    refine (held_addReceived take name).trans ?_
    rw [held_received_of_addDelegated give]
  case givenBy =>
    intro name
    unfold givenBy
    rw [tables.1, Table.sumOf_set _ row, giver]
    dsimp only
    split <;> omega
  case takenBy =>
    intro name
    unfold takenBy
    rw [tables.1, Table.sumOf_set _ row, receiver]
    dsimp only
    split <;> omega
  case returningTo =>
    intro name
    unfold returningTo
    rw [tables.2, ite_self, Int.add_zero]
  case nonneg =>
    rintro ⟨current, expiring⟩
    refine ⟨?_, by rwa [← tables.2] at expiring⟩
    dsimp only
    rw [tables.1]
    exact current.set positive id

/-- A delegation is lowered or removed; the shares stay locked for a while. -/
theorem move_loweredDelegation
    {shares : Int}
    {expiration : Time}
    {taken after : Database}
    (nonneg : 0 ≤ shares)
    (lower : shares < delegation.vestingShares)
    (row : db.delegations.find? id = some delegation)
    (giver : delegation.delegator = delegator)
    (receiver : delegation.delegatee = delegatee)
    (take : { db with
      delegationExpirations := db.delegationExpirations.emplace
        ⟨delegator, delegation.vestingShares - shares, expiration⟩
          }.addReceived delegatee (-(delegation.vestingShares - shares)) =
            .ok taken)
    (done : (if 0 < shares then
        (pure { taken with
          delegations := taken.delegations.set id
            { delegation with vestingShares := shares } } :
              Except Fault Database)
      else
        pure { taken with delegations := taken.delegations.remove id }) =
          .ok after) :
    DelegationMove db after delegator delegatee
      (-(delegation.vestingShares - shares))
      (delegation.vestingShares - shares) := by
  have tables : taken.delegations = db.delegations := by
    rcases accounts_of_modifyAccount take with ⟨_, rfl⟩
    rfl
  have rows : ∃ delegations,
      after = { taken with delegations := delegations } ∧
        ∀ measure : VestingDelegationObject → Int,
          (shares = 0 → measure { delegation with vestingShares := 0 } = 0) →
            sumOf measure delegations.rows =
              sumOf measure db.delegations.rows - measure delegation +
                measure { delegation with vestingShares := shares } := by
    split at done
    case isTrue =>
      cases done
      refine ⟨_, rfl, fun measure _ => ?_⟩
      rw [tables, Table.sumOf_set _ row]
    case isFalse positive =>
      have zero : shares = 0 := by omega
      cases done
      refine ⟨_, rfl, fun measure vanishes => ?_⟩
      rw [tables, Table.sumOf_remove _ row, zero, vanishes zero, Int.add_zero]
  have kept : db.DelegationsNonneg → after.DelegationsNonneg := by
    rintro ⟨current, expiring⟩
    have locked : taken.delegationExpirations.All fun expiration =>
        0 ≤ expiration.vestingShares := by
      rcases accounts_of_modifyAccount take with ⟨_, rfl⟩
      exact expiring.emplace (by dsimp only; omega)
    rw [← tables] at current
    split at done
    · cases done
      exact ⟨current.set nonneg id, locked⟩
    · cases done
      exact ⟨current.remove id, locked⟩
  rcases rows with ⟨delegations, rfl, sums⟩
  constructor
  case delegated =>
    intro name
    refine (held_delegated_of_addReceived take name).trans ?_
    rw [Int.add_comm (-_), Int.add_right_neg, ite_self, Int.add_zero]
    rfl
  case received =>
    intro name
    exact held_addReceived take name
  case givenBy =>
    intro name
    refine (sums _ fun _ => by simp).trans ?_
    dsimp only
    rw [giver]
    unfold givenBy
    split <;> omega
  case takenBy =>
    intro name
    refine (sums _ fun _ => by simp).trans ?_
    dsimp only
    rw [receiver]
    unfold takenBy
    split <;> omega
  case returningTo =>
    intro name
    rcases accounts_of_modifyAccount take with ⟨_, rfl⟩
    exact Table.sumOf_emplace _ _ _
  case nonneg => exact kept

end Delegate

/-! ## Operations -/

/--
A delegation moves shares in the books, and gives no more than is available.
-/
theorem move_delegateVestingShares
    {op : DelegateVestingSharesOperation}
    {db after : Database}
    (valid : op.validate = .ok ())
    (done : db.delegateVestingSharesEvaluator op = .ok after) :
    ∃ delegator available given returning,
      db.getAccount op.delegator = .ok delegator ∧
        availableShares delegator = .ok available ∧
          (given + returning = 0 ∨ given + returning ≤ available) ∧
            DelegationMove db after op.delegator op.delegatee given
              returning := by
  simp only [DelegateVestingSharesOperation.validate, bind_eq_ok_iff,
    require_eq_ok_iff] at valid
  rcases valid with ⟨_, -, _, -, _, -, _, -, nonneg⟩
  simp only [delegateVestingSharesEvaluator, bind_eq_ok_iff] at done
  rcases done with ⟨delegator, got, _, -, available, free, done⟩
  rcases done with ⟨_, -, _, -, _, -, shares, amount, done⟩
  rw [Asset.inSymbol_eq_ok_iff] at amount
  rcases amount with ⟨-, rfl⟩
  refine ⟨delegator, available, ?_⟩
  split at done
  case h_1 =>
    simp only [bind_eq_ok_iff, require_eq_ok_iff] at done
    rcases done with ⟨_, enough, _, -, given, give, take⟩
    exact ⟨_, 0, got, free, .inr (by omega), move_newDelegation nonneg give take⟩
  case h_2 id delegation found =>
    rcases find_of_delegation found with ⟨row, giver, receiver⟩
    split at done
    case isTrue =>
      simp only [bind_eq_ok_iff, checked_eq_ok_iff, require_eq_ok_iff] at done
      rcases done with
        ⟨_, ⟨-, rfl⟩, _, -, _, enough, given, give, taken, take, equal⟩
      cases equal
      exact ⟨_, 0, got, free, .inr (by omega),
        move_raisedDelegation nonneg row giver receiver give take⟩
    case isFalse lower =>
      simp only [bind_eq_ok_iff, checked_eq_ok_iff] at done
      rcases done with
        ⟨_, ⟨-, rfl⟩, _, -, _, -, _, -, taken, take, done⟩
      exact ⟨_, _, got, free, .inl (by omega),
        move_loweredDelegation nonneg (Int.not_le.1 lower) row giver receiver
          take done⟩

/-- The books of an account which is created with a delegation. -/
theorem move_openAccount
    {db debited opened : Database}
    {creator name : AccountName}
    {change : AccountObject → Except Fault AccountObject}
    {row : Nat → AccountObject}
    {shares : Int}
    {time : Time}
    (debit : db.modifyAccount creator change = .ok debited)
    (created : createNamed debited.accounts name row = .ok opened.accounts)
    (changes : ∀ account changed, change account = .ok changed →
      changed.delegatedVestingShares =
          account.delegatedVestingShares + shares ∧
        changed.receivedVestingShares = account.receivedVestingShares)
    (starts : ∀ id, (row id).delegatedVestingShares = 0 ∧
      (row id).receivedVestingShares = shares)
    (listed : ∀ measure : VestingDelegationObject → Int,
      (shares = 0 → measure ⟨creator, name, 0, time⟩ = 0) →
        sumOf measure opened.delegations.rows =
          sumOf measure debited.delegations.rows +
            measure ⟨creator, name, shares, time⟩)
    (expiring : opened.delegationExpirations =
      debited.delegationExpirations)
    (kept : ∀ property : VestingDelegationObject → Prop,
      (0 < shares → property ⟨creator, name, shares, time⟩) →
        debited.delegations.All property → opened.delegations.All property) :
    DelegationMove db opened creator name shares 0 := by
  have delegations : debited.delegations = db.delegations ∧
      debited.delegationExpirations = db.delegationExpirations := by
    rcases accounts_of_modifyAccount debit with ⟨_, rfl⟩
    exact ⟨rfl, rfl⟩
  constructor
  case delegated =>
    intro other
    rw [held_createNamed created, (starts _).1, ite_self, Int.add_zero,
      Int.add_zero]
    exact held_modifyAccount debit
      (fun account changed _ done => (changes account changed done).1) other
  case received =>
    intro other
    have kept : debited.held AccountObject.receivedVestingShares other =
        db.held AccountObject.receivedVestingShares other :=
      held_modifyAccount_same debit
        (fun account changed done => (changes account changed done).2) other
    rw [held_createNamed created, (starts _).2, kept]
  case givenBy =>
    intro other
    refine (listed _ fun _ => by simp).trans ?_
    rw [delegations.1]
    rfl
  case takenBy =>
    intro other
    refine (listed _ fun _ => by simp).trans ?_
    rw [delegations.1]
    rfl
  case returningTo =>
    intro other
    unfold returningTo
    rw [expiring, delegations.2, ite_self, Int.add_zero]
  case nonneg =>
    rintro ⟨current, returning⟩
    rw [← delegations.1] at current
    exact ⟨kept _ (fun positive => Int.le_of_lt positive) current,
      by rwa [expiring, delegations.2]⟩

/-- A new account with a delegation receives no more than is available. -/
theorem move_accountCreateWithDelegation
    {ext : External}
    {op : AccountCreateWithDelegationOperation}
    {db after : Database}
    (valid : op.validate ext = .ok ())
    (done : db.accountCreateWithDelegationEvaluator op = .ok after) :
    ∃ creator available,
      db.getAccount op.creator = .ok creator ∧
        availableShares creator = .ok available ∧
          op.delegation.amount ≤ available ∧
            DelegationMove db after op.creator op.newAccountName
              op.delegation.amount 0 := by
  simp only [AccountCreateWithDelegationOperation.validate, bind_eq_ok_iff,
    require_eq_ok_iff] at valid
  rcases valid with ⟨_, -, _, -, _, -, _, -, _, -, _, -, _, -, _, -, _, -, nonneg⟩
  simp only [accountCreateWithDelegationEvaluator, bind_eq_ok_iff,
    require_eq_ok_iff, Asset.inSymbol_eq_ok_iff] at done
  rcases done with ⟨creator, got, _, -, _, -, available, free, done⟩
  rcases done with ⟨_, ⟨-, rfl⟩, _, enough, _, -, _, -, _, -, _, -, done⟩
  rcases done with ⟨_, -, _, -, _, -, _, -, _, -, _, -, _, -, _, -, done⟩
  rcases done with ⟨debited, debit, accounts, created, authorities, -, done⟩
  rcases done with ⟨delegations, listed, done⟩
  refine ⟨creator, available, got, free, enough, ?_⟩
  have opened : DelegationMove db
      { debited with
        accounts := accounts
        authorities := authorities
        delegations := delegations }
      op.creator op.newAccountName op.delegation.amount 0 := by
    refine @move_openAccount db debited _ op.creator op.newAccountName _ _
      op.delegation.amount
      (addSeconds debited.headBlockTime createAccountDelegationTime) debit
      created ?_ (fun id => ⟨rfl, rfl⟩) ?_ rfl ?_
    · intro account changed change
      simp only [bind_eq_ok_iff, pure_eq_ok_iff, checked_eq_ok_iff] at change
      rcases change with ⟨_, -, _, ⟨-, rfl⟩, rfl⟩
      exact ⟨rfl, rfl⟩
    · intro measure vanishes
      dsimp only
      split at listed
      case isTrue =>
        simp only [createRow, bind_eq_ok_iff, pure_eq_ok_iff] at listed
        rcases listed with ⟨_, -, rfl⟩
        exact Table.sumOf_emplace measure _ _
      case isFalse positive =>
        have zero : op.delegation.amount = 0 := by omega
        cases listed
        rw [zero, vanishes zero, Int.add_zero]
    · intro property holds current
      split at listed
      case isTrue positive =>
        simp only [createRow, bind_eq_ok_iff, pure_eq_ok_iff] at listed
        rcases listed with ⟨_, -, rfl⟩
        exact current.emplace (holds positive)
      case isFalse =>
        cases listed
        exact current
  split at done
  · rw [bind_eq_ok_iff] at done
    rcases done with ⟨⟨vested, _⟩, vest, equal⟩
    cases equal
    have kept := DelegationMove.of_agrees (agrees_createVesting_shares vest)
      rfl op.creator op.newAccountName
    simpa using opened.trans kept
  · cases done
    exact opened

theorem move_accountCreate
    {ext : External}
    {op : AccountCreateOperation}
    {db after : Database}
    (done : db.accountCreateEvaluator ext op = .ok after) :
    DelegationMove db after op.creator op.newAccountName 0 0 := by
  simp only [accountCreateEvaluator, bind_eq_ok_iff] at done
  rcases done with ⟨_, -, _, -, _, -, _, -, _, -, _, -, _, -, _, -, done⟩
  rcases done with ⟨debited, debit, _, -, accounts, created, done⟩
  rcases done with ⟨authorities, -, paid, pay, emitted⟩
  have opened : DelegationMove db
      { debited with accounts := accounts, authorities := authorities }
      op.creator op.newAccountName 0 0 := by
    refine @move_openAccount db debited _ op.creator op.newAccountName _ _ 0
      0 debit created ?_ (fun id => ⟨rfl, rfl⟩) ?_ rfl
      (fun property _ current => current)
    · intro account changed change
      simp only [bind_eq_ok_iff, pure_eq_ok_iff] at change
      rcases change with ⟨_, -, rfl⟩
      exact ⟨(Int.add_zero _).symm, rfl⟩
    · intro measure vanishes
      rw [vanishes rfl, Int.add_zero]
  have fee := DelegationMove.of_agrees (touches_payFee _ _ paid pay)
    rfl op.creator op.newAccountName
  have emission := DelegationMove.of_agrees
    (touches_processFundsBmchain _ _ after emitted) rfl op.creator
    op.newAccountName
  exact (opened.trans fee).trans emission

/-! ## The sweep of expired delegations -/

theorem move_returnDelegation
    {entry : Nat × DelegationExpirationObject}
    {db after : Database}
    (row : db.delegationExpirations.find? entry.1 = some entry.2)
    (done : returnDelegation entry db = .ok after) :
    DelegationMove db after entry.2.delegator "" 0
      (-entry.2.vestingShares) := by
  simp only [returnDelegation, bind_eq_ok_iff] at done
  rcases done with ⟨returned, back, equal⟩
  cases equal
  have tables : returned.delegations = db.delegations ∧
      returned.delegationExpirations = db.delegationExpirations := by
    rcases accounts_of_modifyAccount back with ⟨_, rfl⟩
    exact ⟨rfl, rfl⟩
  have changes : ∀ account changed : AccountObject,
      (do
        let delegated ← checked
          (account.delegatedVestingShares - entry.2.vestingShares)
        pure { account with delegatedVestingShares := delegated }) =
          (.ok changed : Except Fault AccountObject) →
        changed.delegatedVestingShares =
            account.delegatedVestingShares + (0 + -entry.2.vestingShares) ∧
          changed.receivedVestingShares =
            account.receivedVestingShares + 0 := by
    intro account changed change
    simp only [bind_eq_ok_iff, pure_eq_ok_iff, checked_eq_ok_iff] at change
    rcases change with ⟨_, ⟨-, rfl⟩, rfl⟩
    refine ⟨?_, (Int.add_zero _).symm⟩
    rw [Int.zero_add, ← Int.sub_eq_add_neg]
  constructor
  case delegated =>
    intro name
    exact held_modifyAccount back
      (fun account changed _ change => (changes account changed change).1)
      name
  case received =>
    intro name
    have kept := held_modifyAccount back
      (fun account changed _ change => (changes account changed change).2)
      name
    rw [ite_self] at kept ⊢
    exact kept
  case givenBy =>
    intro name
    rw [ite_self, Int.add_zero]
    exact congrArg (fun table => sumOf _ table.rows) tables.1
  case takenBy =>
    intro name
    rw [ite_self, Int.add_zero]
    exact congrArg (fun table => sumOf _ table.rows) tables.1
  case returningTo =>
    intro name
    have found : returned.delegationExpirations.find? entry.1 =
        some entry.2 := by
      rw [tables.2, row]
    refine (Table.sumOf_remove _ found).trans ?_
    rw [tables.2]
    unfold returningTo
    split <;> omega
  case nonneg =>
    rintro ⟨current, expiring⟩
    rw [← tables.1] at current
    rw [← tables.2] at expiring
    exact ⟨current, expiring.remove entry.1⟩

theorem booked_clearExpiredDelegations
    {db after : Database}
    (done : db.clearExpiredDelegations = .ok after)
    (booked : db.DelegationsBooked) :
    after.DelegationsBooked := by
  refine drain_invariant DelegationsBooked ?_ done booked
  intro entry state next offered returned before
  exact (move_returnDelegation (find?_of_firstDue offered) returned).booked
    before

/-! ## Runs -/

theorem booked_applyOperation
    {ext : External}
    {op : Operation}
    {db after : Database}
    (valid : op.validate ext = .ok ())
    (done : db.applyOperation ext op = .ok after)
    (booked : db.DelegationsBooked) :
    after.DelegationsBooked := by
  have agrees := touches_applyOperation ext db op after done
  cases op with
  | delegateVestingShares op =>
      rcases move_delegateVestingShares valid done with
        ⟨_, _, _, _, -, -, -, move⟩
      exact move.booked booked
  | accountCreateWithDelegation op =>
      rcases move_accountCreateWithDelegation valid done with
        ⟨_, _, -, -, -, move⟩
      exact move.booked booked
  | accountCreate op => exact (move_accountCreate done).booked booked
  | _ =>
      have move := DelegationMove.of_agrees agrees rfl "" ""
      exact move.booked booked

theorem booked_runStep
    {ext : External}
    {header : BlockHeader}
    {step : BlockStep}
    {db after : Database}
    (done : db.runStep ext header step = .ok after)
    (booked : db.DelegationsBooked) :
    after.DelegationsBooked := by
  have agrees := touches_runStep ext header db step after done
  cases step with
  | clearExpiredDelegations =>
      exact booked_clearExpiredDelegations done booked
  | _ =>
      have move := DelegationMove.of_agrees agrees rfl "" ""
      exact move.booked booked

end Database

theorem booked_genesis :
    initGenesis.DelegationsBooked := by
  have none : ∀ name account,
      initGenesis.accounts.find? name = some account →
        account.delegatedVestingShares = 0 ∧
          account.receivedVestingShares = 0 :=
    fun name account found => genesis_account
      (fun row => row.delegatedVestingShares = 0 ∧
        row.receivedVestingShares = 0) (by decide +kernel) found
  refine ⟨?_, ?_⟩
  · intro name
    unfold Database.held
    cases found : initGenesis.accounts.find? name with
    | none => rfl
    | some account => exact (none name account found).1
  · intro name
    unfold Database.held
    cases found : initGenesis.accounts.find? name with
    | none => rfl
    | some account => exact (none name account found).2

theorem booked_reachable
    {ext : External}
    {db : Database}
    (reachable : Reachable ext db) :
    db.DelegationsBooked := by
  refine Reachable.invariant Database.DelegationsBooked booked_genesis ?_ ?_ ?_
    reachable
  · intro state header after begun booked
    exact (Database.DelegationMove.of_agrees
      (Database.touches_beginBlock state header after begun) rfl "" "").booked booked
  · intro state op after valid done booked
    exact Database.booked_applyOperation valid done booked
  · intro header state step after done booked
    exact Database.booked_runStep done booked

/--
In every reachable state an account counts as delegated what its delegations
and the expirations on their way back to it hold, and as received what the
delegations to it hold.
-/
theorem delegation_counts
    {ext : External}
    {db : Database}
    (reachable : Reachable ext db)
    {name : AccountName}
    {account : AccountObject}
    (found : db.accounts.find? name = some account) :
    account.delegatedVestingShares =
        sumOf (fun delegation : VestingDelegationObject =>
            if delegation.delegator = name then delegation.vestingShares
            else 0) db.delegations.rows +
          sumOf (fun expiration : DelegationExpirationObject =>
            if expiration.delegator = name then expiration.vestingShares
            else 0) db.delegationExpirations.rows ∧
      account.receivedVestingShares =
        sumOf (fun delegation : VestingDelegationObject =>
          if delegation.delegatee = name then delegation.vestingShares
          else 0) db.delegations.rows := by
  have booked := booked_reachable reachable
  refine ⟨?_, ?_⟩
  · exact (Database.held_of_find found).symm.trans (booked.delegated name)
  · exact (Database.held_of_find found).symm.trans (booked.received name)

/-- A delegation between two accounts of genesis. -/
def sampleDelegation : Operation :=
  .delegateVestingShares
    { delegator := initMinerName
      delegatee := "devs"
      vestingShares := vests 100000000000 }

/-- The count of what `devs` receives in it. -/
theorem delegation_counts_devs :
    ∃ after account,
      initGenesis.step plainExternal (.operation sampleDelegation) =
          .ok after ∧
        after.accounts.find? "devs" = some account ∧
          account.receivedVestingShares =
            sumOf (fun delegation : VestingDelegationObject =>
              if delegation.delegatee = "devs" then delegation.vestingShares
              else 0) after.delegations.rows := by
  have ran : ((initGenesis.step plainExternal
      (.operation sampleDelegation)).bind fun after =>
        after.getAccount "devs").isOk = true := by
    decide +kernel
  rcases exists_of_isOk ran with ⟨account, done⟩
  rcases (bind_eq_ok_iff _ _ _).1 done with ⟨after, stepped, got⟩
  have found := Database.find_of_getAccount got
  have reachable : Reachable plainExternal after :=
    ⟨none, .step (.operation sampleDelegation) .genesis (.operation _ _)
      trivial stepped⟩
  exact ⟨after, account, stepped, found,
    (delegation_counts reachable found).2⟩

end BMChain.State
