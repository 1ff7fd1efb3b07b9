import Mathlib.Algebra.Group.PUnit
import BMChain.State.TallyBound

/-!
# The self-check of the chain

`validate_invariants` adds up what all objects hold and compares the sums with
the global properties.  Every sum is taken in 64 bits.  After each block of a
run which keeps the supply consistent it finds nothing, unless a sum is too
large for its type.
-/

namespace BMChain.State

open BMChain.Foundation BMChain.Protocol Std

/-! ## The check -/

/-- The sums over the accounts: supply, shares, pending BMT, and votes. -/
abbrev AccountSums := Int × Int × Int × Int

namespace Database

/-- Add an amount, which must be in BMT. -/
def addBmt (message : String) (supply : Int) (asset : Asset) :
    Except Fault Int :=
  if asset.symbol = bmtSymbol then checked (supply + asset.amount)
  else .error message

/-- The first loop of `validate_invariants`. -/
def checkWitnessVotes (db : Database) : Except Fault Unit :=
  db.witnesses.entries.foldlM
    (fun _ entry =>
      require (entry.2.votes ≤ db.props.totalVestingShares)
        "itr->votes <= gpo.total_vesting_shares.amount")
    ()

/-- The loop over the accounts. -/
def addAccount (sums : AccountSums) (account : AccountObject) :
    Except Fault AccountSums := do
  let (supply, vesting, pending, total) := sums
  let supply ← checked (supply + account.balance)
  let supply ← checked (supply + account.savingsBalance)
  let supply ← checked (supply + account.rewardBmtBalance)
  let vesting ← checked (vesting + account.vestingShares)
  let vesting ← checked (vesting + account.rewardVestingBalance)
  let pending ← checked (pending + account.rewardVestingBmt)
  let votes ← countedVotes account
  let total ← checked (total + votes)
  pure (supply, vesting, pending, total)

/-- The loop over the limit orders. -/
def addLimitOrder (supply : Int) (order : LimitOrderObject) :
    Except Fault Int :=
  if order.sellPrice.base.symbol = bmtSymbol then
    checked (supply + order.forSale)
  else .ok supply

/-- The loop over the escrows. -/
def addEscrow (supply : Int) (escrow : EscrowObject) : Except Fault Int := do
  let supply ← checked (supply + escrow.bmtBalance)
  addBmt "found escrow pending fee that is not BMT" supply escrow.pendingFee

/-- The loop over the content orders, with the sum of all their prices. -/
def addContentOrder (sums : Int × Int) (order : ContentOrderObject) :
    Except Fault (Int × Int) := do
  let prices ← checked (sums.2 + order.price)
  let supply ←
    if order.status = .open then checked (sums.1 + order.price)
    else pure sums.1
  pure (supply, prices)

/-- `validate_invariants`, without the sum `total_rshares2`. -/
def validateInvariants (db : Database) : Except Fault Unit := do
  let gpo := db.props
  db.checkWitnessVotes
  let (supply, vesting, pending, votes) ←
    (db.accounts.entries.map Prod.snd).foldlM addAccount (0, 0, 0, 0)
  let supply ← (db.convertRequests.entries.map Prod.snd).foldlM
    (fun supply request =>
      addBmt "Encountered illegal symbol in convert_request_object" supply
        request.amount)
    supply
  let supply ←
    (db.limitOrders.entries.map Prod.snd).foldlM addLimitOrder supply
  let supply ← (db.escrows.entries.map Prod.snd).foldlM addEscrow supply
  let supply ← (db.savingsWithdraws.entries.map Prod.snd).foldlM
    (fun supply request =>
      addBmt "found savings withdraw that is not BMT" supply request.amount)
    supply
  let supply ← (db.rewardFunds.entries.map Prod.snd).foldlM
    (fun supply fund => checked (supply + fund.rewardBalance)) supply
  let (supply, _) ← (db.contentOrders.entries.map Prod.snd).foldlM
    addContentOrder (supply, 0)
  let funds ← checked (gpo.totalVestingFundBmt + gpo.totalRewardFundBmt)
  let funds ← checked (funds + gpo.pendingRewardedVestingBmt)
  let supply ← checked (supply + funds)
  require (gpo.currentSupply = supply) "gpo.current_supply == total_supply"
  let shares ←
    checked (gpo.totalVestingShares + gpo.pendingRewardedVestingShares)
  require (shares = vesting)
    "gpo.total_vesting_shares + gpo.pending_rewarded_vesting_shares == total_vesting"
  require (gpo.totalVestingShares = votes)
    "gpo.total_vesting_shares.amount == total_vsf_votes"
  require (gpo.pendingRewardedVestingBmt = pending)
    "gpo.pending_rewarded_vesting_bmt == pending_vesting_bmt"
  require (gpo.currentSupply ≤ gpo.virtualSupply)
    "gpo.virtual_supply >= gpo.current_supply"

end Database

/-! ## Results which are exact or refused -/

/-- The value is computed, or a sum on the way is too large. -/
def Computes {Value : Type} (result : Except Fault Value) (value : Value) :
    Prop :=
  result = .ok value ∨ result = .error "overflow"

namespace Computes

variable {Value Next Row : Type} {value : Value} {next : Next}
    {result : Except Fault Value}

theorem ok
    (value : Value) :
    Computes (.ok value) value :=
  .inl rfl

theorem checked
    (value : Int) :
    Computes (checked value) value := by
  unfold Protocol.checked
  split
  · exact .inl rfl
  · exact .inr rfl

theorem require
    {condition : Prop}
    [Decidable condition]
    (holds : condition)
    (message : String) :
    Computes (require condition message) () :=
  .inl (if_pos holds)

theorem bind
    {rest : Value → Except Fault Next}
    (first : Computes result value)
    (second : Computes (rest value) next) :
    Computes (result >>= rest) next := by
  rcases first with rfl | rfl
  · exact second
  · exact .inr rfl

/-- A loop adds up what each of its rounds adds. -/
theorem sum
    [AddMonoid Value]
    {step : Value → Row → Except Fault Value}
    (amount : Row → Value)
    {rows : List Row}
    (each : ∀ total, ∀ row ∈ rows,
      Computes (step total row) (total + amount row))
    (start : Value) :
    Computes (rows.foldlM step start) (start + (rows.map amount).sum) := by
  induction rows generalizing start with
  | nil =>
      rw [List.map_nil, List.sum_nil, add_zero]
      exact .ok start
  | cons row rest induction =>
      rw [List.foldlM_cons, List.map_cons, List.sum_cons, ← add_assoc]
      refine (each start row List.mem_cons_self).bind ?_
      exact induction (fun total row member =>
        each total row (List.mem_cons_of_mem _ member)) _

end Computes

theorem sum_pairs
    {Row First Second : Type}
    [AddMonoid First]
    [AddMonoid Second]
    (first : Row → First)
    (second : Row → Second)
    (rows : List Row) :
    (rows.map fun row => (first row, second row)).sum =
      ((rows.map first).sum, (rows.map second).sum) := by
  induction rows with
  | nil => rfl
  | cons row rest induction =>
      rw [List.map_cons, List.sum_cons, induction]
      rfl

theorem sumOf_eq_sum
    {Key Row : Type}
    [Ord Key]
    [TransOrd Key]
    [LawfulEqOrd Key]
    (measure : Row → Int)
    (rows : ExtTreeMap Key Row) :
    sumOf measure rows = ((rows.toList.map Prod.snd).map measure).sum := by
  rw [List.map_map]
  rfl

/-! ## What the check finds -/

namespace Database

/-- What the objects and the global properties have to agree on. -/
structure Balanced (db : Database) : Prop where
  votes : ∀ name witness, db.witnesses.find? name = some witness →
    witness.votes ≤ db.props.totalVestingShares
  supply : db.SupplyConsistent
  shares : db.props.totalVestingShares =
    sumOf AccountObject.vestingShares db.accounts.rows
  pendingShares : db.props.pendingRewardedVestingShares =
    sumOf AccountObject.rewardVestingBalance db.accounts.rows
  pendingBmt : db.props.pendingRewardedVestingBmt =
    sumOf AccountObject.rewardVestingBmt db.accounts.rows
  counted : db.props.totalVestingShares =
    sumOf exactVsfVotes db.accounts.rows

variable {db after : Database} {ext : External} {header : BlockHeader}

theorem computes_countedVotes
    (account : AccountObject) :
    Computes (countedVotes account) (exactVsfVotes account) := by
  unfold countedVotes exactVsfVotes
  split
  · rw [← List.map_id account.proxiedVsfVotes]
    exact .sum id (fun total votes _ => .checked (total + votes)) _
  · exact .ok _

theorem computes_addAccount
    (sums : AccountSums)
    (account : AccountObject) :
    Computes (addAccount sums account)
      (sums + (account.balance + account.savingsBalance +
          account.rewardBmtBalance,
        account.vestingShares + account.rewardVestingBalance,
        account.rewardVestingBmt, exactVsfVotes account)) := by
  rcases sums with ⟨supply, vesting, pending, total⟩
  refine (Computes.checked _).bind ((Computes.checked _).bind ?_)
  refine (Computes.checked _).bind ((Computes.checked _).bind ?_)
  refine (Computes.checked _).bind ((Computes.checked _).bind ?_)
  refine (computes_countedVotes account).bind ((Computes.checked _).bind ?_)
  simp only [Prod.mk_add_mk, ← Int.add_assoc]
  exact .ok _

theorem computes_addBmt
    {asset : Asset}
    (symbol : asset.symbol = bmtSymbol)
    (message : String)
    (supply : Int) :
    Computes (addBmt message supply asset) (supply + asset.inBmt) := by
  rw [addBmt, Asset.inBmt, if_pos symbol, if_pos symbol]
  exact .checked _

theorem computes_addLimitOrder
    (supply : Int)
    (order : LimitOrderObject) :
    Computes (addLimitOrder supply order) (supply + order.inBmt) := by
  rw [LimitOrderObject.inBmt, LimitOrderObject.amountForSale, Asset.inBmt,
    addLimitOrder]
  split
  · exact .checked _
  · rw [Int.add_zero]
    exact .ok supply

theorem computes_addEscrow
    {escrow : EscrowObject}
    (symbol : escrow.pendingFee.symbol = bmtSymbol)
    (supply : Int) :
    Computes (addEscrow supply escrow)
      (supply + (escrow.bmtBalance + escrow.pendingFee.inBmt)) := by
  rw [← Int.add_assoc]
  exact (Computes.checked _).bind (computes_addBmt symbol _ _)

theorem computes_addContentOrder
    (sums : Int × Int)
    (order : ContentOrderObject) :
    Computes (addContentOrder sums order)
      (sums + (order.inBmt, order.price)) := by
  refine (Computes.checked _).bind ?_
  unfold ContentOrderObject.inBmt
  split
  · exact (Computes.checked _).bind (.ok _)
  · refine (Computes.ok sums.1).bind (.inl ?_)
    rw [← Int.add_zero sums.1]
    rfl

theorem mem_rows
    {Row : Type}
    {rows : ExtTreeMap Nat Row}
    {row : Row}
    (member : row ∈ rows.toList.map Prod.snd) :
    ∃ id : Nat, rows[id]? = some row := by
  rcases List.mem_map.1 member with ⟨entry, listed, rfl⟩
  exact ⟨entry.1, ExtTreeMap.mem_toList_iff_getElem?_eq_some.1 listed⟩

/-- On a balanced state the check is passed, or a sum is too large. -/
theorem Balanced.computes
    (balanced : db.Balanced)
    (virtual : db.props.currentSupply ≤ db.props.virtualSupply) :
    Computes db.validateInvariants () := by
  rcases balanced with
    ⟨votes, ⟨legal, supply⟩, shares, pendingShares, pendingBmt, counted⟩
  have accounts : Computes
      ((db.accounts.entries.map Prod.snd).foldlM addAccount (0, 0, 0, 0)) _ :=
    .sum _ (fun sums row _ => computes_addAccount sums row) 0
  have orders : ∀ supply : Int, Computes
      ((db.contentOrders.entries.map Prod.snd).foldlM addContentOrder
        (supply, 0)) _ :=
    fun supply =>
      .sum _ (fun sums row _ => computes_addContentOrder sums row) (supply, 0)
  have requests : ∀ message total,
      ∀ request ∈ db.convertRequests.entries.map Prod.snd,
        Computes (addBmt message total request.amount)
          (total + request.amount.inBmt) := by
    intro message total request member
    rcases mem_rows member with ⟨id, found⟩
    exact computes_addBmt (legal.convertRequests id request found) _ total
  have escrows : ∀ total, ∀ escrow ∈ db.escrows.entries.map Prod.snd,
      Computes (addEscrow total escrow)
        (total + (escrow.bmtBalance + escrow.pendingFee.inBmt)) := by
    intro total escrow member
    rcases mem_rows member with ⟨id, found⟩
    refine computes_addEscrow (legal.escrows id escrow.holding ?_) total
    simp only [ledger, ExtTreeMap.getElem?_map, found, Option.map_some]
  have savings : ∀ message total,
      ∀ request ∈ db.savingsWithdraws.entries.map Prod.snd,
        Computes (addBmt message total request.amount)
          (total + request.amount.inBmt) := by
    intro message total request member
    rcases mem_rows member with ⟨id, found⟩
    exact computes_addBmt (legal.savingsWithdraws id request found) _ total
  simp only [sum_pairs, Prod.mk_add_mk, zero_add] at accounts orders
  simp only [totalSupply, sumOf_eq_sum] at supply
  rw [sumOf_eq_sum] at shares pendingShares pendingBmt counted
  refine .bind (.sum (fun _ => ()) (fun _ entry member => .require
    (votes entry.1 entry.2
      (ExtTreeMap.mem_toList_iff_getElem?_eq_some.1 member)) _) ()) ?_
  refine accounts.bind (.bind (.sum _ (requests _) _) ?_)
  refine .bind (.sum _ (fun _ order _ => computes_addLimitOrder _ order) _) ?_
  refine .bind (.sum _ escrows _) (.bind (.sum _ (savings _) _) ?_)
  refine .bind (.sum _ (fun _ _ _ => .checked _) _) ((orders _).bind ?_)
  refine .bind (.checked _) (.bind (.checked _) (.bind (.checked _) ?_))
  refine .bind (.require ?_ _) ?_
  · simp only [Register.entries, Table.entries]
    omega
  refine .bind (.checked _) (.bind (.require ?_ _) ?_)
  · rw [shares, pendingShares, ← List.sum_map_add]
    rfl
  refine .bind (.require counted _) (.bind (.require pendingBmt _) ?_)
  exact .require virtual _

/-! ## Runs -/

/-- What is kept of the votes, the shares and the supply together. -/
structure Accounted (db : Database) : Prop where
  votes : db.VotesKept
  backed : db.SharesBacked
  supply : db.SupplyConsistent
  surplus : ∀ total : Total, total.counted ≠ none →
    db.ledger.surplus total = 0

/-- An operation which keeps the votes, the shares and the supply. -/
def KeepsAccounts (db : Database) (op : Operation) : Prop :=
  VotesReadably db op ∧ MintsShares db op ∧ KeepsSupply db op

/-- A step of a block which does. -/
def StepKeepsAccounts (ext : External) (header : BlockHeader) (db : Database)
    (step : BlockStep) : Prop :=
  BeforeBurn header db step ∧ StepMintsShares ext db step ∧
    StepKeepsSupply db step

/-- No witness has more votes than there are shares. -/
theorem Accounted.votes_le
    (accounted : db.Accounted)
    {name : AccountName}
    {witness : WitnessObject}
    (found : db.witnesses.find? name = some witness) :
    witness.votes ≤ db.props.totalVestingShares := by
  have tallied := accounted.votes.tallies.tallied name witness.id
    (congrArg (Option.map _) found)
  rw [votesFor, found, Option.map_some, Option.getD_some] at tallied
  rw [tallied]
  exact (carries_of_kept accounted.votes.proxies
    accounted.votes.tallies.toVotersKept).tally_le accounted.backed
      accounted.votes.tallies.toVotersKept witness.id

theorem Accounted.balanced
    (accounted : db.Accounted) :
    db.Balanced := by
  have shares := accounted.surplus .vestingShares (by decide)
  have pending := accounted.surplus .pendingShares (by decide)
  have backing := accounted.surplus .pendingBacking (by decide)
  simp only [Ledger.surplus, Total.counted, Option.elim_some, ledger,
    sumOf_map] at shares pending backing
  have owned := Int.eq_of_sub_eq_zero shares
  refine ⟨fun _ _ => accounted.votes_le, accounted.supply, owned,
    Int.eq_of_sub_eq_zero pending, Int.eq_of_sub_eq_zero backing, ?_⟩
  rw [accounted.votes.proxies.sum_exactVsfVotes]
  exact owned

theorem accounted_genesis :
    initGenesis.Accounted := by
  have surplus : ∀ total : Total, total.counted ≠ none →
      initGenesis.ledger.surplus total = 0 :=
    fun _ => surplus_reachable
      (⟨none, .genesis⟩ : Reachable plainExternal initGenesis)
  refine ⟨votes_genesis, ⟨?_, ?_⟩, genesis_consistent, surplus⟩
  · intro name
    unfold held
    cases found : initGenesis.accounts.find? name with
    | none => exact Int.le_refl 0
    | some account =>
        exact genesis_account (fun row => 0 ≤ row.vestingShares)
          (by decide +kernel) found
  · exact total_iff_surplus.2 (surplus .vestingShares (by decide))

/-- What moves no total alone, and the supply by nothing, is accounted for. -/
theorem Accounted.of_moves
    {weight : Int}
    (accounted : db.Accounted)
    (moves : Moves db.ledger after.ledger weight)
    (zero : weight = 0)
    (votes : after.VotesKept)
    (backed : after.SharesBacked) :
    after.Accounted := by
  refine ⟨votes, backed,
    (consistent_iff_of_moves accounted.supply moves).2 zero, ?_⟩
  intro total counted
  rw [moves.surplus_eq counted]
  exact accounted.surplus total counted

theorem accounted_run
    {block : Option BlockHeader}
    (run : RunState ext (EventMeets ext KeepsAccounts (StepKeepsAccounts ext))
      block db) :
    db.Accounted := by
  refine RunState.invariant Accounted accounted_genesis ?_ ?_ ?_ run
  · intro state header after begun accounted
    have agrees := touches_beginBlock state header after begun
    refine accounted.of_moves (.of_eq (keeps_beginBlock state header after
      begun)) rfl ?_ (accounted.backed.of_agrees agrees rfl)
    exact ⟨accounted.votes.proxies.of_agrees agrees rfl,
      accounted.votes.tallies.of_agrees agrees rfl⟩
  · intro state op after ⟨silent, mints, keeps⟩ valid done accounted
    rcases moves_applyOperation valid done with ⟨weight, moves, zero⟩
    exact accounted.of_moves moves (zero.2 keeps)
      (votes_applyOperation silent valid done accounted.votes)
      (backed_applyOperation mints valid done accounted.backed)
  · intro header state step after ⟨early, mints, keeps⟩ done accounted
    rcases moves_runStep done with ⟨weight, moves, zero⟩
    exact accounted.of_moves moves (zero.2 keeps)
      (votes_runStep early done accounted.votes)
      (backed_runStep early mints done accounted.backed)

/-- The conditions on the rest of the steps, after the first ones. -/
theorem EachStep.rest
    {allowed : Database → BlockStep → Prop}
    {first rest : List BlockStep}
    {middle : Database}
    (each : EachStep ext header allowed (first ++ rest) db)
    (ran : first.foldlM (runStep ext header) db = .ok middle) :
    EachStep ext header allowed rest middle := by
  induction first generalizing db with
  | nil =>
      cases ran
      exact each
  | cons step first induction =>
      rw [List.foldlM_cons, bind_eq_ok_iff] at ran
      rcases ran with ⟨next, stepped, ran⟩
      exact induction (each.2 next stepped) ran

/-- A step which touches no supply keeps the virtual supply right. -/
theorem virtualSupply_runStep
    {step : BlockStep}
    (separate : apart [.props .supply, .props .virtualSupply]
      (stepFootprint step) = true)
    (ran : db.runStep ext header step = .ok after)
    (equal : db.props.virtualSupply = db.props.currentSupply) :
    after.props.virtualSupply = after.props.currentSupply := by
  have agrees := touches_runStep ext header db step after ran
  have supply : Field.read (.props .supply) after =
      Field.read (.props .supply) db :=
    agrees.read_eq separate (by decide)
  have virtual : Field.read (.props .virtualSupply) after =
      Field.read (.props .virtualSupply) db :=
    agrees.read_eq separate (by decide)
  exact virtual.trans (equal.trans supply.symm)

/-- Nothing is created after the virtual supply is set. -/
theorem virtualSupply_finishBlock
    (each : EachStep ext header (StepKeepsAccounts ext header)
      blockSteps db)
    (finished : db.finishBlock ext header = .ok after) :
    after.props.virtualSupply = after.props.currentSupply := by
  have parts : blockSteps = blockSteps.take 14 ++ blockSteps.drop 14 := rfl
  rw [finishBlock, parts, List.foldlM_append, bind_eq_ok_iff]
    at finished
  rw [parts] at each
  rcases finished with ⟨emitted, first, rest⟩
  have late := each.rest first
  simp only [blockSteps, List.drop, List.foldlM_cons, List.foldlM_nil,
    bind_eq_ok_iff, pure_eq_ok_iff] at rest late
  rcases rest with ⟨updated, update, recovered, recover, expired, expire,
    declined, decline, forked, fork, rfl⟩
  have early := ((((late.2 _ update).2 _ recover).2 _ expire).2 _ decline).1.1
  have set : updated.props.virtualSupply = updated.props.currentSupply := by
    cases update
    rfl
  have kept := virtualSupply_runStep rfl decline (virtualSupply_runStep rfl
    expire (virtualSupply_runStep rfl recover set))
  simp only [runStep, processHardforks, bind_eq_ok_iff]
    at fork
  rcases fork with ⟨_, -, fork⟩
  rw [if_neg early] at fork
  cases fork
  exact kept

/--
After every block of a run which keeps the votes, the shares and the supply,
`validate_invariants` finds nothing, unless a sum does not fit its type.
-/
theorem invariants_validated
    (run : RunState ext (EventMeets ext KeepsAccounts (StepKeepsAccounts ext))
      (some header) db)
    (keeps : EachStep ext header (StepKeepsAccounts ext header)
      blockSteps db)
    (finished : db.finishBlock ext header = .ok after) :
    after.validateInvariants = .ok () ∨
      after.validateInvariants = .error "overflow" := by
  have ended := RunState.step (.finishBlock header) run (.finishBlock header)
    keeps finished
  refine (accounted_run ended).balanced.computes ?_
  rw [virtualSupply_finishBlock keeps finished]

/-- What is tested before each of the steps holds of them. -/
theorem eachStep_of_tested
    {allowed : Database → BlockStep → Prop}
    {test : Database → Prop}
    [DecidablePred test]
    (implies : ∀ db step, test db → allowed db step)
    {steps : List BlockStep}
    (ran : (steps.foldlM (fun (db : Database) step => do
      require (test db) ""
      runStep ext header db step) db).isOk = true) :
    EachStep ext header allowed steps db := by
  induction steps generalizing db with
  | nil => trivial
  | cons step rest induction =>
      rcases exists_of_isOk ran with ⟨last, ran⟩
      simp only [List.foldlM_cons, bind_eq_ok_iff, require_eq_ok_iff] at ran
      rcases ran with ⟨middle, ⟨_, tested, stepped⟩, ran⟩
      refine ⟨implies db step tested, fun next again => ?_⟩
      cases stepped.symm.trans again
      exact induction (by rw [ran]; rfl)

/-- The check after the first block. -/
theorem invariants_validated_firstHeader :
    ∃ begun after, initGenesis.beginBlock firstHeader = .ok begun ∧
      begun.finishBlock plainExternal firstHeader = .ok after ∧
        (after.validateInvariants = .ok () ∨
          after.validateInvariants = .error "overflow") := by
  have ran : ((initGenesis.beginBlock firstHeader).bind fun begun => do
      let after ← begun.finishBlock plainExternal firstHeader
      require ((blockSteps.foldlM (fun (db : Database) step => do
        require (db.headBlockNum ≤ 1 ∧ 0 ≤ db.nullValue) ""
        db.runStep plainExternal firstHeader step) begun).isOk = true) ""
      pure after).isOk = true := by
    decide +kernel
  rcases exists_of_isOk ran with ⟨after, ran⟩
  rcases (bind_eq_ok_iff _ _ _).1 ran with ⟨begun, begin, ran⟩
  simp only [bind_eq_ok_iff, require_eq_ok_iff, pure_eq_ok_iff] at ran
  rcases ran with ⟨ended, finish, _, tested, rfl⟩
  refine ⟨begun, ended, begin, finish, ?_⟩
  refine invariants_validated (.step _ .genesis (.beginBlock _) trivial begin)
    (eachStep_of_tested ?_ tested) finish
  rintro db step ⟨young, rich⟩
  refine ⟨?_, ?_, ?_⟩
  · cases step with
    | processHardforks =>
        exact Nat.ne_of_lt (Nat.lt_of_le_of_lt young (by decide))
    | _ => trivial
  · cases step with
    | processCommentCashout =>
        intro decayed funds claims late
        exact absurd young (Nat.not_le_of_lt
          (Nat.lt_of_le_of_lt (by decide) late))
    | _ => trivial
  · cases step with
    | clearNullAccountBalance => exact rich
    | _ => trivial

end Database

end BMChain.State
