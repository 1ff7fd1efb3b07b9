import BMChain.Foundation.OnwardWalk
import BMChain.State.CustomToken
import Mathlib.Data.Prod.Lex

/-!
# Emissions of custom tokens

`custom_tokens_emissions` goes along the tokens from the latest date to the
earliest and stops at the first token which is not due.  An emission moves the
token back along the index, and the loop goes on from there.  So all tokens
have to be due, and each token has to stay behind those which are emitted
before it.
-/

namespace BMChain.State

open BMChain.Foundation BMChain.Protocol

variable {token : CustomTokenObject} {id : Nat}

variable {entries : List (Nat × CustomTokenObject)} {now : Time}
    {entry : Nat × CustomTokenObject} {rounds : Nat}
    {current : Option (Nat × CustomTokenObject)} {position : Option Nat}
    {visits : List Nat}

/-! ## One emission -/

namespace CustomTokenObject

/-- The seconds between two emissions. -/
def interval (token : CustomTokenObject) : Nat :=
  token.intervalSeconds * token.intervalCount

/-- The tokens which are emitted at a date. -/
def emission (token : CustomTokenObject) : Int :=
  (token.currentSupply.amount * token.inflationRate).tdiv
    (100 * 365 * 24 * 60 * 20)

/-- A token once it is emitted. -/
def emitted (token : CustomTokenObject) : CustomTokenObject :=
  { token with
    scheduleTime := token.scheduleTime + token.interval
    currentSupply :=
      ⟨token.currentSupply.amount + token.emission,
        token.currentSupply.symbol⟩
    rewardFund :=
      ⟨token.rewardFund.amount + token.emission, token.rewardFund.symbol⟩ }

/-- The amounts of an emission fit, and so does the next date. -/
structure Emittable (token : CustomTokenObject) : Prop where
  scaled : FitsInt64 (token.currentSupply.amount * token.inflationRate)
  symbols : token.rewardFund.symbol = token.currentSupply.symbol
  supply : FitsInt64 (token.currentSupply.amount + token.emission)
  fund : FitsInt64 (token.rewardFund.amount + token.emission)
  date : token.scheduleTime + token.interval < 2 ^ 32

end CustomTokenObject

open CustomTokenObject

/-- A quotient by a positive number is no greater than what is divided. -/
theorem fitsInt64_tdiv
    {value divisor : Int}
    (fits : FitsInt64 value)
    (positive : 0 < divisor) :
    FitsInt64 (value.tdiv divisor) := by
  have size := Int.natAbs_tdiv_le_natAbs value divisor
  rw [FitsInt64] at fits ⊢
  rcases Int.le_total 0 value with nonneg | nonpos
  · have result := Int.tdiv_nonneg nonneg positive.le
    omega
  · have result := Int.tdiv_nonneg (Int.neg_nonneg_of_nonpos nonpos)
      positive.le
    rw [Int.neg_tdiv] at result
    omega

namespace Database

theorem emitToken_of_emittable
    (emittable : token.Emittable) :
    emitToken token = .ok token.emitted := by
  have interval : token.interval < 2 ^ 32 :=
    Nat.lt_of_le_of_lt (Nat.le_add_left _ _) emittable.date
  have date : addSeconds token.scheduleTime
      (token.intervalSeconds * token.intervalCount % 2 ^ 32) =
        token.scheduleTime + token.interval := by
    show (token.scheduleTime + token.interval % 2 ^ 32) % 2 ^ 32 = _
    rw [Nat.mod_eq_of_lt interval]
    exact Nat.mod_eq_of_lt emittable.date
  simp only [emitToken, Asset.add, checkedDiv, bind_eq_ok_iff, pure_eq_ok_iff,
    require_eq_ok_iff, checked_eq_ok_iff]
  refine ⟨_, ⟨emittable.scaled, rfl⟩, token.emission,
    ⟨(), by decide, fitsInt64_tdiv emittable.scaled (by decide), rfl⟩,
    ⟨_, _⟩, ⟨(), trivial, _, ⟨emittable.supply, rfl⟩, rfl⟩,
    ⟨_, _⟩, ⟨(), emittable.symbols, _, ⟨emittable.fund, rfl⟩, rfl⟩, ?_⟩
  rw [date]
  rfl

theorem emittable_of_emitToken
    (done : emitToken token = .ok token.emitted) :
    token.Emittable := by
  simp only [emitToken, Asset.add, checkedDiv, bind_eq_ok_iff, pure_eq_ok_iff,
    require_eq_ok_iff, checked_eq_ok_iff] at done
  rcases done with ⟨_, ⟨scaled, rfl⟩, _, ⟨_, -, -, rfl⟩, _,
    ⟨_, -, _, ⟨supply, rfl⟩, rfl⟩, _, ⟨_, symbols, _, ⟨fund, rfl⟩, rfl⟩, same⟩
  have date := congrArg CustomTokenObject.scheduleTime same
  refine ⟨scaled, symbols, supply, fund, ?_⟩
  have below : addSeconds token.scheduleTime
      (token.intervalSeconds * token.intervalCount % 2 ^ 32) < 2 ^ 32 :=
    Nat.mod_lt _ (by decide)
  have moved : addSeconds token.scheduleTime
      (token.intervalSeconds * token.intervalCount % 2 ^ 32) =
        token.scheduleTime + token.interval := date
  rwa [moved] at below

/-! ## The index by date -/

/-- The place of a token in the index, from the latest date down. -/
def tokenKey (entry : Nat × CustomTokenObject) : (Time ×ₗ Nat)ᵒᵈ :=
  OrderDual.toDual (toLex (entry.2.scheduleTime, entry.1))

/-- A place in the index whose date has come. -/
def tokenDue (now : Time) (place : (Time ×ₗ Nat)ᵒᵈ) : Prop :=
  (ofLex (OrderDual.ofDual place)).1 ≤ now

/-- The tokens with their ids. -/
def tokenRows (db : Database) (id : Nat) : Option (Nat × CustomTokenObject) :=
  (db.customTokens.find? id).map (Prod.mk id)

/-- The emission of a token with its id. -/
def tokenStep (entry : Nat × CustomTokenObject) :
    Option (Nat × CustomTokenObject) :=
  (emitToken entry.2).toOption.map (Prod.mk entry.1)

theorem beforeByTokenSchedule_iff
    {first second : Nat × CustomTokenObject} :
    beforeByTokenSchedule first second = true ↔
      tokenKey first < tokenKey second := by
  unfold beforeByTokenSchedule tokenKey
  rw [OrderDual.toDual_lt_toDual, Prod.Lex.toLex_lt_toLex]
  simp only [Bool.or_eq_true, Bool.and_eq_true, decide_eq_true_eq]
  rw [eq_comm (a := first.2.scheduleTime)]

theorem first_by_token_schedule
    {least : Nat × CustomTokenObject}
    (first : firstBy beforeByTokenSchedule entries = some least) :
    ∀ entry ∈ entries, tokenKey least ≤ tokenKey entry := by
  apply firstBy_least tokenKey ?_ ?_ first
  · intro entry other earlier
    exact le_of_lt (beforeByTokenSchedule_iff.1 earlier)
  · intro entry other later
    rw [← not_lt, ← beforeByTokenSchedule_iff, later]
    decide

theorem tokenRows_eq_some_iff
    {db : Database}
    {entry : Nat × CustomTokenObject} :
    db.tokenRows id = some entry ↔
      entry.1 = id ∧ db.customTokens.find? id = some entry.2 := by
  rw [tokenRows, Option.map_eq_some_iff]
  constructor
  · rintro ⟨token, found, rfl⟩
    exact ⟨rfl, found⟩
  · rintro ⟨rfl, found⟩
    exact ⟨entry.2, found, rfl⟩

theorem tokenStep_eq_some_iff
    {entry moved : Nat × CustomTokenObject} :
    tokenStep entry = some moved ↔
      moved.1 = entry.1 ∧ emitToken entry.2 = .ok moved.2 := by
  unfold tokenStep
  cases emitToken entry.2 with
  | error fault => simp [Except.toOption]
  | ok emitted =>
      simp only [Except.toOption, Option.map_some, Option.some.injEq,
        Except.ok.injEq, Prod.ext_iff, eq_comm]

theorem tokenDue.late
    {first second : (Time ×ₗ Nat)ᵒᵈ}
    (due : tokenDue now first)
    (before : first ≤ second) :
    tokenDue now second := by
  have below : OrderDual.ofDual second ≤ OrderDual.ofDual first := before
  rw [Prod.Lex.le_iff] at below
  rcases below with less | ⟨same, -⟩
  · exact Nat.le_trans (Nat.le_of_lt less) due
  · exact Nat.le_trans (Nat.le_of_eq same) due

/-- The loop starts at the first place of the index. -/
theorem leads_tokens
    (db : Database) :
    Leads tokenKey db.tokenRows
      ((firstBy beforeByTokenSchedule db.customTokens.entries).map
        Prod.fst) := by
  cases first : firstBy beforeByTokenSchedule db.customTokens.entries with
  | none =>
      intro id
      have empty := eq_nil_of_firstBy first
      rw [Option.eq_none_iff_forall_ne_some]
      intro entry found
      have listed := Table.mem_entries_iff.2
        (tokenRows_eq_some_iff.1 found).2
      rw [empty] at listed
      cases listed
  | some least =>
      have found := Table.mem_entries_iff.1 (mem_of_firstBy first)
      refine ⟨least, tokenRows_eq_some_iff.2 ⟨rfl, found⟩, ?_⟩
      intro other entry stored
      rcases tokenRows_eq_some_iff.1 stored with ⟨rfl, listed⟩
      exact first_by_token_schedule first entry (Table.mem_entries_iff.2 listed)

/-- The loop goes on with the place which follows. -/
theorem follows_tokens
    (db : Database)
    (current : Nat × CustomTokenObject) :
    Follows tokenKey db.tokenRows (tokenKey current)
      ((firstBy beforeByTokenSchedule
        (db.customTokens.entries.filter fun other =>
          beforeByTokenSchedule current other)).map Prod.fst) := by
  cases next : firstBy beforeByTokenSchedule
      (db.customTokens.entries.filter fun other =>
        beforeByTokenSchedule current other) with
  | none =>
      intro id entry stored
      rcases tokenRows_eq_some_iff.1 stored with ⟨rfl, found⟩
      rw [← not_lt, ← beforeByTokenSchedule_iff]
      intro after
      have listed := List.mem_filter.2 ⟨Table.mem_entries_iff.2 found, after⟩
      rw [eq_nil_of_firstBy next] at listed
      cases listed
  | some least =>
      have listed := List.mem_filter.1 (mem_of_firstBy next)
      have found := Table.mem_entries_iff.1 listed.1
      refine ⟨least, tokenRows_eq_some_iff.2 ⟨rfl, found⟩,
        beforeByTokenSchedule_iff.1 listed.2, ?_⟩
      intro other entry stored after
      rcases tokenRows_eq_some_iff.1 stored with ⟨rfl, kept⟩
      exact first_by_token_schedule next entry (List.mem_filter.2
        ⟨Table.mem_entries_iff.2 kept, beforeByTokenSchedule_iff.2 after⟩)

/-! ## The loop as a walk -/

/-- The tokens which the loop emits, one after the other. -/
def emittedAlong : Nat → Option (Nat × CustomTokenObject) → Database →
    List Nat
  | 0, _, _ => []
  | _, none, _ => []
  | rounds + 1, some (id, token), db =>
      if token.scheduleTime ≤ db.headBlockTime then
        match emitToken token with
        | .error _ => []
        | .ok emitted =>
            let db :=
              { db with customTokens := db.customTokens.set id emitted }
            let following := firstBy beforeByTokenSchedule
              (db.customTokens.entries.filter fun other =>
                beforeByTokenSchedule (id, emitted) other)
            id :: emittedAlong rounds following db
      else []

/-- The tokens which `custom_tokens_emissions` emits. -/
def emissions (db : Database) : List Nat :=
  if db.headBlockNum ≤ firstPayoutBlock then []
  else
    emittedAlong (db.customTokens.size * 2 ^ 32)
      (firstBy beforeByTokenSchedule db.customTokens.entries) db

/-- A token is written anew. -/
def setToken (db : Database) (id : Nat) (token : CustomTokenObject) :
    Database :=
  { db with customTokens := db.customTokens.set id token }

theorem tokenRows_setToken
    {db : Database}
    (found : db.customTokens.find? id = some token)
    (emitted : CustomTokenObject) :
    (db.setToken id emitted).tokenRows =
      Function.update db.tokenRows id (some (id, emitted)) := by
  funext other
  show ((db.customTokens.set id emitted).find? other).map _ = _
  rw [Table.find?_set found]
  by_cases same : id = other
  · subst same
    rw [if_pos rfl, Function.update_self]
    rfl
  · rw [if_neg same, Function.update_of_ne (Ne.symm same)]
    rfl

theorem listed_firstBy
    {db : Database}
    (part : ∀ entry ∈ entries, entry ∈ db.customTokens.entries)
    (first : firstBy beforeByTokenSchedule entries = some entry) :
    db.customTokens.find? entry.1 = some entry.2 :=
  Table.mem_entries_iff.1 (part entry (mem_of_firstBy first))

/-- The loop of `custom_tokens_emissions` is a walk. -/
theorem walk_of_emitAlong
    {db after : Database}
    (stands : ∀ entry, current = some entry →
      db.customTokens.find? entry.1 = some entry.2)
    (ran : emitAlong rounds current db = .ok after) :
    OnwardWalk tokenKey (tokenDue db.headBlockTime) tokenStep
      (current.map Prod.fst) db.tokenRows (emittedAlong rounds current db)
      after.tokenRows := by
  induction rounds generalizing current db with
  | zero =>
      cases current with
      | none =>
          cases ran
          exact .ended _
      | some entry => cases ran
  | succ rounds induction =>
      cases current with
      | none =>
          cases ran
          exact .ended _
      | some entry =>
          rcases entry with ⟨id, token⟩
          have found := stands (id, token) rfl
          have there := tokenRows_eq_some_iff.2 ⟨rfl, found⟩
          unfold emitAlong at ran
          unfold emittedAlong
          split at ran
          case isFalse late =>
            cases ran
            rw [if_neg late]
            exact .later there late
          case isTrue due =>
            rw [if_pos due]
            rw [bind_eq_ok_iff] at ran
            rcases ran with ⟨emitted, emit, ran⟩
            have changed : tokenStep (id, token) = some (id, emitted) :=
              tokenStep_eq_some_iff.2 ⟨rfl, emit⟩
            have follows := follows_tokens (db.setToken id emitted)
              (id, emitted)
            have rest : OnwardWalk tokenKey (tokenDue db.headBlockTime)
                tokenStep _ (db.setToken id emitted).tokenRows _ _ :=
              induction (fun entry first => listed_firstBy
                (fun _ member => (List.mem_filter.1 member).1) first) ran
            rw [tokenRows_setToken found] at follows rest
            rw [emit]
            exact .visit there due changed follows rest

/-- A walk with few visits is what the loop does. -/
theorem emitAlong_of_walk
    {rows final : Nat → Option (Nat × CustomTokenObject)}
    (walk : OnwardWalk tokenKey (tokenDue now) tokenStep position rows visits
      final)
    {db : Database}
    (time : db.headBlockTime = now)
    (stands : ∀ entry, current = some entry →
      db.customTokens.find? entry.1 = some entry.2)
    (head : current.map Prod.fst = position)
    (same : db.tokenRows = rows)
    (enough : visits.length < rounds) :
    ∃ after, emitAlong rounds current db = .ok after ∧
      emittedAlong rounds current db = visits ∧ after.tokenRows = final := by
  induction walk generalizing rounds current db with
  | ended rows =>
      rw [Option.map_eq_none_iff] at head
      subst head
      exact ⟨db, by cases rounds <;> rfl, by cases rounds <;> rfl, same⟩
  | @later id rows entry found late =>
      rcases Option.map_eq_some_iff.1 head with ⟨⟨_, token⟩, rfl, rfl⟩
      have there := tokenRows_eq_some_iff.2 ⟨rfl, stands _ rfl⟩
      rw [same, found, Option.some.injEq] at there
      subst there
      rw [← time] at late
      cases rounds with
      | zero => exact absurd enough (Nat.not_lt_zero _)
      | succ rounds => exact ⟨db, if_neg late, if_neg late, same⟩
  | @visit id rows final entry moved following visits found due changed next
      rest induction =>
      rcases Option.map_eq_some_iff.1 head with ⟨⟨place, token⟩, rfl, rfl⟩
      have stored := stands _ rfl
      have there := tokenRows_eq_some_iff.2 ⟨rfl, stored⟩
      rw [same, found, Option.some.injEq] at there
      subst there
      rcases moved with ⟨named, emitted⟩
      rcases tokenStep_eq_some_iff.1 changed with ⟨equal, emit⟩
      change named = place at equal
      subst named
      have kept : (db.setToken place emitted).tokenRows =
          Function.update rows place (some (place, emitted)) := by
        rw [tokenRows_setToken stored, same]
      have follows := follows_tokens (db.setToken place emitted)
        (place, emitted)
      rw [kept] at follows
      have own : ∀ first second entry other,
          Function.update rows place (some (place, emitted)) first =
              some entry →
            Function.update rows place (some (place, emitted)) second =
                some other →
              tokenKey entry = tokenKey other → first = second := by
        intro first second entry other one two equal
        rw [← kept] at one two
        rw [← (tokenRows_eq_some_iff.1 one).1, ← (tokenRows_eq_some_iff.1 two).1]
        exact congrArg (fun place => (ofLex (OrderDual.ofDual place)).2) equal
      cases rounds with
      | zero => exact absurd enough (Nat.not_lt_zero _)
      | succ rounds =>
          have goes : ∃ after,
              emitAlong rounds _ (db.setToken place emitted) = .ok after ∧
                emittedAlong rounds _ (db.setToken place emitted) = visits ∧
                  after.tokenRows = final :=
            induction time (fun entry first => listed_firstBy
              (fun _ member => (List.mem_filter.1 member).1) first)
              (follows.unique own next) kept (Nat.lt_of_succ_lt_succ enough)
          rcases goes with ⟨after, ran, traced, left⟩
          have due : token.scheduleTime ≤ db.headBlockTime := by
            rw [time]
            exact due
          refine ⟨after, ?_, ?_, left⟩
          · rw [emitAlong, if_pos due, emit]
            exact ran
          · rw [emittedAlong, if_pos due, emit]
            exact congrArg (List.cons place) traced

/-! ## What a run of emissions promises -/

/-- Every due token is emitted once, and the others are left alone. -/
structure EmitsOnce (db after : Database) : Prop where
  once : db.emissions.Nodup
  due : ∀ id, id ∈ db.emissions ↔
    ∃ token, db.customTokens.find? id = some token ∧
      token.scheduleTime ≤ db.headBlockTime
  tokens : ∀ id, after.customTokens.find? id =
    (db.customTokens.find? id).map fun token =>
      if token.scheduleTime ≤ db.headBlockTime then token.emitted else token

/-- A token with its id, once it is emitted. -/
def emittedEntry (entry : Nat × CustomTokenObject) : Nat × CustomTokenObject :=
  (entry.1, entry.2.emitted)

/--
All tokens are due, and once they are emitted they are still in order.  Only
the last one may come to stand before others, when the first of these is no
longer due.
-/
structure EmitsInTurn (db : Database) : Prop where
  due : db.customTokens.All fun token => token.scheduleTime ≤ db.headBlockTime
  emittable : db.customTokens.All Emittable
  keeps : ∀ first ∈ db.customTokens.entries,
    ∀ second ∈ db.customTokens.entries, ∀ third ∈ db.customTokens.entries,
      beforeByTokenSchedule first second = true →
        beforeByTokenSchedule second third = true →
          beforeByTokenSchedule (emittedEntry first) (emittedEntry second) =
            true
  ends : ∀ first ∈ db.customTokens.entries,
    ∀ last ∈ db.customTokens.entries,
      (∀ other ∈ db.customTokens.entries,
        beforeByTokenSchedule last other = false) →
        beforeByTokenSchedule (emittedEntry last) (emittedEntry first) = true →
          ∃ other ∈ db.customTokens.entries,
            beforeByTokenSchedule (emittedEntry last) (emittedEntry other) =
                true ∧
              db.headBlockTime < other.2.scheduleTime + other.2.interval

theorem moves_iff
    {db : Database}
    {entry moved : Nat × CustomTokenObject}
    (emits : ∀ token, db.customTokens.find? id = some token →
      emitToken token = .ok token.emitted) :
    Foundation.Moves tokenStep db.tokenRows id entry moved ↔
      entry.1 = id ∧ entry ∈ db.customTokens.entries ∧
        moved = emittedEntry entry := by
  rw [Foundation.Moves, tokenRows_eq_some_iff, tokenStep_eq_some_iff]
  constructor
  · rintro ⟨⟨rfl, found⟩, named, emit⟩
    refine ⟨rfl, Table.mem_entries_iff.2 found, ?_⟩
    rw [emits entry.2 found, Except.ok.injEq] at emit
    exact Prod.ext named emit.symm
  · rintro ⟨rfl, listed, rfl⟩
    have found := Table.mem_entries_iff.1 listed
    exact ⟨⟨rfl, found⟩, rfl, emits entry.2 found⟩

theorem key_emittedEntry
    (positive : 0 < entry.2.interval) :
    tokenKey (emittedEntry entry) < tokenKey entry := by
  rw [tokenKey, tokenKey, OrderDual.toDual_lt_toDual,
    Prod.Lex.toLex_lt_toLex]
  exact .inl (Nat.lt_add_of_pos_right positive)

section Turns

variable {db : Database}
    (positive : db.customTokens.All fun token => 0 < token.interval)
    (emits : ∀ id token, db.customTokens.find? id = some token →
      emitToken token = .ok token.emitted)

include positive emits

/-- Emissions move the tokens back along the index. -/
theorem rekeyed_tokens :
    Rekeyed Prod.fst tokenKey (tokenDue db.headBlockTime) tokenStep
      db.tokenRows := by
  constructor
  case named =>
    exact fun id entry found => (tokenRows_eq_some_iff.1 found).1
  case kept =>
    exact fun entry moved changed => (tokenStep_eq_some_iff.1 changed).1
  case own =>
    exact fun first second same =>
      congrArg (fun place => (ofLex (OrderDual.ofDual place)).2) same
  case late => exact fun first second due before => due.late before
  case back =>
    intro id entry moved moves _
    rcases (moves_iff (emits id)).1 moves with ⟨-, listed, rfl⟩
    have found := Table.mem_entries_iff.1 listed
    exact key_emittedEntry (positive entry.1 entry.2 found)

omit positive in
/-- Taking turns in the index is what `EmitsInTurn` asks. -/
theorem takesTurn_tokens_iff
    (due : db.customTokens.All fun token =>
      token.scheduleTime ≤ db.headBlockTime) :
    (∀ id, TakesTurn tokenKey (tokenDue db.headBlockTime) tokenStep
        db.tokenRows id) ↔
      db.EmitsInTurn := by
  have moves : ∀ entry ∈ db.customTokens.entries,
      Foundation.Moves tokenStep db.tokenRows entry.1 entry (emittedEntry entry) :=
    fun entry listed => (moves_iff (emits entry.1)).2 ⟨rfl, listed, rfl⟩
  constructor
  case mp =>
    intro turns
    constructor
    case due => exact due
    case emittable =>
      exact fun id token found => emittable_of_emitToken (emits id token found)
    case keeps =>
      intro first one second two third three before further
      rw [beforeByTokenSchedule_iff] at before further ⊢
      exact (turns second.1).keeps first.1 first second _ _ (moves first one)
        (moves second two) before
        ⟨third.1, third, (moves third three).1, further⟩
    case ends =>
      intro first one last two alone above
      rw [beforeByTokenSchedule_iff] at above
      have final : ∀ id other, db.tokenRows id = some other →
          tokenKey other ≤ tokenKey last := by
        intro id other stored
        rcases tokenRows_eq_some_iff.1 stored with ⟨rfl, found⟩
        rw [← not_lt, ← beforeByTokenSchedule_iff,
          alone other (Table.mem_entries_iff.2 found)]
        decide
      rcases (turns last.1).ends first.1 first last _ _ (moves first one)
        (moves last two) final above with
        ⟨id, other, moved, shifts, beyond, never⟩
      rcases (moves_iff (emits id)).1 shifts with ⟨-, listed, rfl⟩
      exact ⟨other, listed, beforeByTokenSchedule_iff.2 beyond,
        Nat.lt_of_not_le never⟩
  case mpr =>
    intro inTurn id
    constructor
    case changes =>
      intro entry found
      rcases tokenRows_eq_some_iff.1 found with ⟨rfl, stored⟩
      exact ⟨_, (moves entry (Table.mem_entries_iff.2 stored)).2⟩
    case keeps =>
      rintro other first second gone left one two before
        ⟨place, third, stored, further⟩
      rcases (moves_iff (emits other)).1 one with ⟨-, listed, rfl⟩
      rcases (moves_iff (emits id)).1 two with ⟨-, also, rfl⟩
      rcases tokenRows_eq_some_iff.1 stored with ⟨rfl, found⟩
      rw [← beforeByTokenSchedule_iff] at before further ⊢
      exact inTurn.keeps first listed second also third
        (Table.mem_entries_iff.2 found) before further
    case ends =>
      intro other first last gone left one two alone above
      rcases (moves_iff (emits other)).1 one with ⟨-, listed, rfl⟩
      rcases (moves_iff (emits id)).1 two with ⟨-, also, rfl⟩
      rw [← beforeByTokenSchedule_iff] at above
      have final : ∀ entry ∈ db.customTokens.entries,
          beforeByTokenSchedule last entry = false := by
        intro entry there
        rw [Bool.eq_false_iff]
        intro beyond
        rw [beforeByTokenSchedule_iff] at beyond
        exact absurd beyond (not_lt_of_ge
          (alone entry.1 entry (moves entry there).1))
      rcases inTurn.ends first listed last also final above with
        ⟨third, there, beyond, never⟩
      exact ⟨third.1, third, _, moves third there,
        beforeByTokenSchedule_iff.1 beyond, Nat.not_le_of_lt never⟩

end Turns

/-- The ids of all tokens. -/
def tokenIds (db : Database) : Finset Nat :=
  (db.customTokens.entries.map Prod.fst).toFinset

theorem mem_tokenIds
    {db : Database}
    (id : Nat) :
    id ∈ db.tokenIds ↔ ∃ entry, db.tokenRows id = some entry := by
  rw [tokenIds, List.mem_toFinset, List.mem_map]
  constructor
  · rintro ⟨entry, listed, rfl⟩
    exact ⟨entry, tokenRows_eq_some_iff.2
      ⟨rfl, Table.mem_entries_iff.1 listed⟩⟩
  · rintro ⟨entry, stored⟩
    rcases tokenRows_eq_some_iff.1 stored with ⟨rfl, found⟩
    exact ⟨entry, Table.mem_entries_iff.2 found, rfl⟩

theorem customTokensEmissions_eq
    {db : Database}
    (past : firstPayoutBlock < db.headBlockNum) :
    db.customTokensEmissions =
      emitAlong (db.customTokens.size * 2 ^ 32)
        (firstBy beforeByTokenSchedule db.customTokens.entries) db :=
  if_neg (Nat.not_le_of_lt past)

theorem emissions_eq
    {db : Database}
    (past : firstPayoutBlock < db.headBlockNum) :
    db.emissions =
      emittedAlong (db.customTokens.size * 2 ^ 32)
        (firstBy beforeByTokenSchedule db.customTokens.entries) db :=
  if_neg (Nat.not_le_of_lt past)

theorem walk_of_customTokensEmissions
    {db after : Database}
    (past : firstPayoutBlock < db.headBlockNum)
    (done : db.customTokensEmissions = .ok after) :
    OnwardWalk tokenKey (tokenDue db.headBlockTime) tokenStep
      ((firstBy beforeByTokenSchedule db.customTokens.entries).map Prod.fst)
      db.tokenRows db.emissions after.tokenRows := by
  rw [customTokensEmissions_eq past] at done
  rw [emissions_eq past]
  exact walk_of_emitAlong
    (fun entry first => listed_firstBy (fun _ member => member) first) done

/-- Nothing is emitted while no token is due. -/
theorem emitsOnce_of_none_due
    {db : Database}
    (late : db.customTokens.All fun token =>
      db.headBlockTime < token.scheduleTime) :
    ∃ after, db.customTokensEmissions = .ok after ∧ EmitsOnce db after := by
  have idle : db.customTokensEmissions = .ok db ∧ db.emissions = [] := by
    by_cases early : db.headBlockNum ≤ firstPayoutBlock
    · exact ⟨if_pos early, if_pos early⟩
    · have past := Nat.lt_of_not_le early
      rw [customTokensEmissions_eq past, emissions_eq past]
      generalize rounds : db.customTokens.size * 2 ^ 32 = count
      cases first : firstBy beforeByTokenSchedule db.customTokens.entries with
      | none => exact ⟨by cases count <;> rfl, by cases count <;> rfl⟩
      | some entry =>
          have found := listed_firstBy (fun _ member => member) first
          have waits := Nat.not_le_of_lt (late entry.1 entry.2 found)
          cases count with
          | zero =>
              have some := Table.size_pos found
              omega
          | succ count => exact ⟨if_neg waits, if_neg waits⟩
  refine ⟨db, idle.1, ?_, ?_, ?_⟩
  · rw [idle.2]
    exact List.nodup_nil
  · intro id
    rw [idle.2]
    refine iff_of_false List.not_mem_nil ?_
    rintro ⟨token, found, due⟩
    exact absurd due (Nat.not_le_of_lt (late id token found))
  · intro id
    cases found : db.customTokens.find? id with
    | none => rfl
    | some token =>
        rw [Option.map_some, if_neg (Nat.not_le_of_lt (late id token found))]

/-- What a walk which meets every token once leaves. -/
theorem tokens_of_walk
    {db after : Database}
    (emits : ∀ id token, db.customTokens.find? id = some token →
      emitToken token = .ok token.emitted)
    (due : db.customTokens.All fun token =>
      token.scheduleTime ≤ db.headBlockTime)
    (walk : OnwardWalk tokenKey (tokenDue db.headBlockTime) tokenStep position
      db.tokenRows visits after.tokenRows)
    (single : visits.Nodup)
    (visited : ∀ id, id ∈ visits ↔ ∃ entry, db.tokenRows id = some entry)
    (id : Nat) :
    after.customTokens.find? id =
      (db.customTokens.find? id).map fun token =>
        if token.scheduleTime ≤ db.headBlockTime then token.emitted
        else token := by
  have read : ∀ state : Database,
      state.customTokens.find? id = (state.tokenRows id).map Prod.snd := by
    intro state
    rw [tokenRows, Option.map_map]
    cases state.customTokens.find? id <;> rfl
  cases found : db.customTokens.find? id with
  | none =>
      have absent : db.tokenRows id = none := by
        rw [tokenRows, found]
        rfl
      have passed : id ∉ visits := by
        rw [visited id, absent]
        rintro ⟨_, stored⟩
        cases stored
      rw [read after, walk.unvisited passed, absent]
      rfl
  | some token =>
      have stored : db.tokenRows id = some (id, token) :=
        tokenRows_eq_some_iff.2 ⟨rfl, found⟩
      have changed : tokenStep (id, token) = some (id, token.emitted) :=
        tokenStep_eq_some_iff.2 ⟨rfl, emits id token found⟩
      rw [read after, walk.visited_once single ((visited id).2 ⟨_, stored⟩),
        stored, Option.bind_some, changed, Option.map_some, Option.map_some,
        if_pos (due id token found)]

section Once

variable {db after : Database}
    (past : firstPayoutBlock < db.headBlockNum)
    (positive : db.customTokens.All fun token => 0 < token.interval)

include past positive

theorem emitsInTurn_of_emitsOnce
    (done : db.customTokensEmissions = .ok after)
    (emitsOnce : EmitsOnce db after)
    (member : id ∈ db.emissions) :
    db.EmitsInTurn := by
  have walk := walk_of_customTokensEmissions past done
  rcases walk.goes_on member with ⟨head, place, first⟩
  have leads := leads_tokens db
  rw [place] at leads
  have due : db.customTokens.All fun token =>
      token.scheduleTime ≤ db.headBlockTime := by
    rcases leads with ⟨standing, stands, least⟩
    rcases (emitsOnce.due head).1 first with ⟨token, found, ready⟩
    rcases tokenRows_eq_some_iff.1 stands with ⟨rfl, stored⟩
    rw [stored, Option.some.injEq] at found
    subst found
    intro other row there
    have reached := least other (other, row)
      (tokenRows_eq_some_iff.2 ⟨rfl, there⟩)
    have begins : tokenDue db.headBlockTime (tokenKey standing) := ready
    exact begins.late reached
  have emits : ∀ id token, db.customTokens.find? id = some token →
      emitToken token = .ok token.emitted := by
    intro id token found
    have ready := due id token found
    have stored : db.tokenRows id = some (id, token) :=
      tokenRows_eq_some_iff.2 ⟨rfl, found⟩
    have left := emitsOnce.tokens id
    rw [found, Option.map_some, if_pos ready] at left
    have moved := walk.visited_once emitsOnce.once
      ((emitsOnce.due id).2 ⟨token, found, ready⟩)
    rw [stored, Option.bind_some, tokenRows, left, Option.map_some] at moved
    exact (tokenStep_eq_some_iff.1 moved.symm).2
  refine (takesTurn_tokens_iff emits due).1 ?_
  refine (visits_once_iff (rekeyed_tokens positive emits) ?_ mem_tokenIds
    leads).1 ⟨db.emissions, after.tokenRows, ?_, emitsOnce.once, ?_⟩
  · intro id entry stored
    rcases tokenRows_eq_some_iff.1 stored with ⟨rfl, found⟩
    exact due entry.1 entry.2 found
  · rw [← place]
    exact walk
  · intro id
    rw [emitsOnce.due id]
    constructor
    · rintro ⟨token, found, -⟩
      exact ⟨(id, token), tokenRows_eq_some_iff.2 ⟨rfl, found⟩⟩
    · rintro ⟨entry, stored⟩
      rcases tokenRows_eq_some_iff.1 stored with ⟨rfl, found⟩
      exact ⟨entry.2, found, due entry.1 entry.2 found⟩

theorem emitsOnce_of_emitsInTurn
    (inTurn : db.EmitsInTurn) :
    ∃ after, db.customTokensEmissions = .ok after ∧ EmitsOnce db after := by
  have emits : ∀ id token, db.customTokens.find? id = some token →
      emitToken token = .ok token.emitted := fun id token found =>
    emitToken_of_emittable (inTurn.emittable id token found)
  cases first : firstBy beforeByTokenSchedule db.customTokens.entries with
  | none =>
      refine emitsOnce_of_none_due fun id token found => ?_
      have listed := Table.mem_entries_iff.2 found
      rw [eq_nil_of_firstBy first] at listed
      cases listed
  | some head =>
      have leads := leads_tokens db
      rw [first] at leads
      rcases (visits_once_iff (rekeyed_tokens positive emits) (by
          intro id entry stored
          rcases tokenRows_eq_some_iff.1 stored with ⟨rfl, found⟩
          exact inTurn.due entry.1 entry.2 found) mem_tokenIds leads).2
        ((takesTurn_tokens_iff emits inTurn.due).2 inTurn) with
        ⟨visits, final, walk, single, visited⟩
      have enough : visits.length < db.customTokens.size * 2 ^ 32 := by
        have some : 0 < db.customTokens.size :=
          Table.size_pos (listed_firstBy (fun _ member => member) first)
        have few : visits.length ≤ db.customTokens.size := by
          rw [← Table.length_entries, ← List.length_map Prod.fst]
          refine (List.Nodup.subperm single fun id member => ?_).length_le
          exact List.mem_toFinset.1
            ((mem_tokenIds id).2 ((visited id).1 member))
        omega
      have runs : ∃ after,
          emitAlong (db.customTokens.size * 2 ^ 32) (some head) db =
              .ok after ∧
            emittedAlong (db.customTokens.size * 2 ^ 32) (some head) db =
                visits ∧
              after.tokenRows = final :=
        emitAlong_of_walk walk rfl (fun entry same => listed_firstBy
          (fun _ member => member) (first.trans same)) rfl rfl enough
      rcases runs with ⟨after, ran, traced, left⟩
      have traced : db.emissions = visits := by
        rw [emissions_eq past, first]
        exact traced
      rw [← left] at walk
      refine ⟨after, ?_, ?_, ?_, ?_⟩
      · rw [customTokensEmissions_eq past, first]
        exact ran
      · rw [traced]
        exact single
      · intro id
        rw [traced, visited id]
        constructor
        · rintro ⟨entry, stored⟩
          rcases tokenRows_eq_some_iff.1 stored with ⟨rfl, found⟩
          exact ⟨entry.2, found, inTurn.due entry.1 entry.2 found⟩
        · rintro ⟨token, found, -⟩
          exact ⟨(id, token), tokenRows_eq_some_iff.2 ⟨rfl, found⟩⟩
      · exact tokens_of_walk emits inTurn.due walk single visited

end Once

end Database

open Database

/--
The emissions reach every due token once, and no other, exactly when no token
is due or all are due and are emitted in turn.
-/
theorem emits_once_iff
    {db : Database}
    (past : firstPayoutBlock < db.headBlockNum)
    (positive : db.customTokens.All fun token => 0 < token.interval) :
    (∃ after, db.customTokensEmissions = .ok after ∧ EmitsOnce db after) ↔
      (db.customTokens.All fun token =>
        db.headBlockTime < token.scheduleTime) ∨
      db.EmitsInTurn := by
  constructor
  case mp =>
    rintro ⟨after, done, emitsOnce⟩
    by_cases some : ∃ id, id ∈ db.emissions
    case neg =>
      refine .inl fun id token found => Nat.lt_of_not_le fun due => some ?_
      exact ⟨id, (emitsOnce.due id).2 ⟨token, found, due⟩⟩
    case pos =>
      rcases some with ⟨id, member⟩
      exact .inr (emitsInTurn_of_emitsOnce past positive done emitsOnce member)
  case mpr =>
    rintro (late | inTurn)
    · exact emitsOnce_of_none_due late
    · exact emitsOnce_of_emitsInTurn past positive inTurn

/-! ## Sample inputs -/

/-- A token with a date, counted from genesis, and an interval. -/
def scheduledToken (symbol : AssetSymbol) (date seconds : Nat) :
    CustomTokenObject where
  controlAccount := "devs"
  symbol := symbol
  currentSupply := ⟨1000000000000, symbol⟩
  rewardFund := ⟨0, symbol⟩
  inflationRate := 5
  scheduleTime := genesisTime + date
  intervalSeconds := seconds
  intervalCount := 1

/-- A state with two tokens, 100 seconds after genesis. -/
def twoTokens (first second : CustomTokenObject) : Database :=
  { initGenesis with
    customTokens := (Table.empty.emplace first).emplace second
    props :=
      { genesisProps with
        time := genesisTime + 100
        headBlockNumber := firstPayoutBlock + 1 } }

theorem all_twoTokens
    {property : CustomTokenObject → Prop}
    {first second : CustomTokenObject}
    (one : property first)
    (two : property second) :
    (twoTokens first second).customTokens.All property :=
  (Table.All.empty.emplace one).emplace two

/-- Two tokens with one interval stay in order. -/
theorem emits_once_two_tokens :
    ∃ after,
      (twoTokens (scheduledToken 1 10 200)
          (scheduledToken 2 20 200)).customTokensEmissions = .ok after ∧
        EmitsOnce (twoTokens (scheduledToken 1 10 200)
          (scheduledToken 2 20 200)) after := by
  have past : firstPayoutBlock < (twoTokens (scheduledToken 1 10 200)
      (scheduledToken 2 20 200)).headBlockNum :=
    Nat.lt_succ_self firstPayoutBlock
  refine (emits_once_iff past
    (all_twoTokens (by decide) (by decide))).2 (.inr ?_)
  constructor
  case due => exact all_twoTokens (by decide) (by decide)
  case emittable =>
    refine all_twoTokens ?_ ?_
    · exact ⟨by decide, rfl, by decide, by decide, by decide⟩
    · exact ⟨by decide, rfl, by decide, by decide, by decide⟩
  case keeps => decide +kernel
  case ends => decide +kernel

/--
A due token is skipped behind one which is not due, and a token which is moved
less far than a later one is emitted twice.
-/
theorem emissions_skip_and_repeat :
    (twoTokens (scheduledToken 1 10 200)
        (scheduledToken 2 1000 200)).emissions = [] ∧
      (twoTokens (scheduledToken 1 50 10)
          (scheduledToken 2 40 30)).emissions = [0, 1, 0] ∧
        ¬(∃ after,
          (twoTokens (scheduledToken 1 10 200)
              (scheduledToken 2 1000 200)).customTokensEmissions = .ok after ∧
            EmitsOnce (twoTokens (scheduledToken 1 10 200)
              (scheduledToken 2 1000 200)) after) := by
  have none : (twoTokens (scheduledToken 1 10 200)
      (scheduledToken 2 1000 200)).emissions = [] := by
    decide +kernel
  refine ⟨none, by decide +kernel, ?_⟩
  rintro ⟨after, -, emitsOnce⟩
  have found : (twoTokens (scheduledToken 1 10 200)
      (scheduledToken 2 1000 200)).customTokens.find? 0 =
        some (scheduledToken 1 10 200) := rfl
  have member := (emitsOnce.due 0).2 ⟨_, found, by decide⟩
  rw [none] at member
  cases member

end BMChain.State
