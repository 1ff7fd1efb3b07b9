import Mathlib.Algebra.Order.Group.Int
import BMChain.State.Footprint

/-!
# The ledger behind the state

The part of the state which holds BMT and vesting shares, and the entries by
which it changes.  An entry adds to one purse, fund or global total, or
exchanges one order, escrow or request.  What entries do to the sum of all
holdings and to a single purse depends on the entries only, so the evaluators
and the block steps are described by the entries they post.
-/

/-- An amount, counted when it is in BMT. -/
def BMChain.Protocol.Asset.inBmt (asset : BMChain.Protocol.Asset) : Int :=
  if asset.symbol = BMChain.Protocol.bmtSymbol then asset.amount else 0

namespace BMChain.State

open BMChain.Foundation BMChain.Protocol Std

variable {name : AccountName} {db after : Database} {entry : Entry}
    {entries : List Entry}

/-! ## Ledgers -/

/-- The holdings of one account. -/
inductive Holding where
  | balance
  | savings
  | rewardBmt
  | shares
  | rewardShares
  | rewardBacking
  deriving DecidableEq

/-- The totals of the global properties. -/
inductive Total where
  | supply
  | vestingFund
  | vestingShares
  | rewardFund
  | pendingShares
  | pendingBacking
  deriving DecidableEq

/-- The holding of the accounts which a total is the sum of. -/
@[simp]
def Total.counted : Total → Option Holding
  | .vestingShares => some .shares
  | .pendingShares => some .rewardShares
  | .pendingBacking => some .rewardBacking
  | .supply | .vestingFund | .rewardFund => none

/-- The holdings of an account by kind. -/
abbrev Purse := Holding → Int

/-- What an escrow holds. -/
structure EscrowHolding where
  bmtBalance : Int
  pendingFee : Asset

/-- The BMT and the vesting shares of a state. -/
structure Ledger where
  purses : ExtTreeMap AccountName Purse
  limitOrders : ExtTreeMap Nat LimitOrderObject
  convertRequests : ExtTreeMap Nat ConvertRequestObject
  escrows : ExtTreeMap Nat EscrowHolding
  savingsWithdraws : ExtTreeMap Nat SavingsWithdrawObject
  funds : ExtTreeMap Nat Int
  contentOrders : ExtTreeMap Nat ContentOrderObject
  totals : Total → Int

/-- The BMT of a purse. -/
def Purse.inBmt (purse : Purse) : Int :=
  purse .balance + purse .savings + purse .rewardBmt

/-- The BMT which a limit order sells. -/
def LimitOrderObject.inBmt (order : LimitOrderObject) : Int :=
  order.amountForSale.inBmt

/-- The BMT in an escrow. -/
def EscrowHolding.inBmt (escrow : EscrowHolding) : Int :=
  escrow.bmtBalance + escrow.pendingFee.inBmt

/-- The BMT which an order for closed content still reserves. -/
def ContentOrderObject.inBmt (order : ContentOrderObject) : Int :=
  if order.status = .open then order.price else 0

namespace Ledger

/-- The BMT of all holders. -/
def holdings (ledger : Ledger) : Int :=
  sumOf Purse.inBmt ledger.purses +
    sumOf LimitOrderObject.inBmt ledger.limitOrders +
    sumOf (fun request => request.amount.inBmt) ledger.convertRequests +
    sumOf EscrowHolding.inBmt ledger.escrows +
    sumOf (fun request => request.amount.inBmt) ledger.savingsWithdraws +
    sumOf (fun balance => balance) ledger.funds +
    sumOf ContentOrderObject.inBmt ledger.contentOrders +
    (ledger.totals .vestingFund + ledger.totals .rewardFund +
      ledger.totals .pendingBacking)

/-- The supply which no holder has. -/
def gap (ledger : Ledger) : Int :=
  ledger.totals .supply - ledger.holdings

/-- What a total counts beyond the holdings of the accounts. -/
def surplus (ledger : Ledger) (total : Total) : Int :=
  ledger.totals total -
    total.counted.elim 0 fun kind =>
      sumOf (fun purse => purse kind) ledger.purses

/-- One holding of an account, zero without the account. -/
def holding (ledger : Ledger) (name : AccountName) (kind : Holding) : Int :=
  (ledger.purses[name]?.map fun purse => purse kind).getD 0

end Ledger

/-! ## Entries -/

/-- A change of the ledger. -/
inductive Entry where
  | purse (name : AccountName) (kind : Holding) (amount : Int)
  | openPurse (name : AccountName)
  | fund (id : Nat) (amount : Int)
  | total (kind : Total) (amount : Int)
  | limitOrder (id : Nat) (before after : Option LimitOrderObject)
  | escrow (id : Nat) (before after : Option EscrowHolding)
  | savingsWithdraw (id : Nat) (before after : Option SavingsWithdrawObject)
  | contentOrder (id : Nat) (before after : Option ContentOrderObject)

namespace Entry

/-- How an entry moves the gap between the supply and the holdings. -/
def weight : Entry → Int
  | .purse _ kind amount =>
      match kind with
      | .balance | .savings | .rewardBmt => -amount
      | .shares | .rewardShares | .rewardBacking => 0
  | .openPurse _ => 0
  | .fund _ amount => -amount
  | .total kind amount =>
      match kind with
      | .supply => amount
      | .vestingFund | .rewardFund | .pendingBacking => -amount
      | .vestingShares | .pendingShares => 0
  | .limitOrder _ before after =>
      before.elim 0 LimitOrderObject.inBmt - after.elim 0 LimitOrderObject.inBmt
  | .escrow _ before after =>
      before.elim 0 EscrowHolding.inBmt - after.elim 0 EscrowHolding.inBmt
  | .savingsWithdraw _ before after =>
      before.elim 0 (fun request => request.amount.inBmt) -
        after.elim 0 (fun request => request.amount.inBmt)
  | .contentOrder _ before after =>
      before.elim 0 ContentOrderObject.inBmt -
        after.elim 0 ContentOrderObject.inBmt

/-- How an entry moves a total against the holdings which it counts. -/
@[simp]
def drift (total : Total) : Entry → Int
  | .purse _ kind amount => if total.counted = some kind then -amount else 0
  | .total other amount => if other = total then amount else 0
  | _ => 0

/-- What an entry adds to one holding of an account. -/
def credit (name : AccountName) (kind : Holding) : Entry → Int
  | .purse target holding amount =>
      if target = name ∧ holding = kind then amount else 0
  | _ => 0

end Entry

/-- The gap which a list of entries leaves behind. -/
def netWeight (entries : List Entry) : Int :=
  (entries.map Entry.weight).sum

/-- How a list of entries moves a total against the holdings it counts. -/
def netDrift (total : Total) (entries : List Entry) : Int :=
  (entries.map (Entry.drift total)).sum

/-- What a list of entries adds to one holding of an account. -/
def netCredit (name : AccountName) (kind : Holding) (entries : List Entry) :
    Int :=
  (entries.map (Entry.credit name kind)).sum

@[simp]
theorem netWeight_nil :
    netWeight [] = 0 :=
  rfl

@[simp]
theorem netWeight_cons
    (entry : Entry)
    (entries : List Entry) :
    netWeight (entry :: entries) = entry.weight + netWeight entries := by
  simp [netWeight]

@[simp]
theorem netWeight_append
    (first second : List Entry) :
    netWeight (first ++ second) = netWeight first + netWeight second := by
  simp [netWeight]

@[simp]
theorem netDrift_nil
    (total : Total) :
    netDrift total [] = 0 :=
  rfl

@[simp]
theorem netDrift_cons
    (total : Total)
    (entry : Entry)
    (entries : List Entry) :
    netDrift total (entry :: entries) =
      entry.drift total + netDrift total entries := by
  simp [netDrift]

@[simp]
theorem netDrift_append
    (total : Total)
    (first second : List Entry) :
    netDrift total (first ++ second) =
      netDrift total first + netDrift total second := by
  simp [netDrift]

/-- The totals of shares and rewards follow the holdings of the accounts. -/
def Vested (entries : List Entry) : Prop :=
  ∀ total : Total, total.counted ≠ none → netDrift total entries = 0

@[simp]
theorem vested_iff
    (entries : List Entry) :
    Vested entries ↔
      netDrift .vestingShares entries = 0 ∧
        netDrift .pendingShares entries = 0 ∧
          netDrift .pendingBacking entries = 0 := by
  constructor
  · intro vested
    exact ⟨vested _ (by decide), vested _ (by decide), vested _ (by decide)⟩
  · rintro ⟨shares, pending, backing⟩ total counted
    cases total with
    | vestingShares => exact shares
    | pendingShares => exact pending
    | pendingBacking => exact backing
    | supply => exact absurd rfl counted
    | vestingFund => exact absurd rfl counted
    | rewardFund => exact absurd rfl counted

@[simp]
theorem netCredit_nil
    (name : AccountName)
    (kind : Holding) :
    netCredit name kind [] = 0 :=
  rfl

@[simp]
theorem netCredit_cons
    (name : AccountName)
    (kind : Holding)
    (entry : Entry)
    (entries : List Entry) :
    netCredit name kind (entry :: entries) =
      entry.credit name kind + netCredit name kind entries := by
  simp [netCredit]

@[simp]
theorem netCredit_append
    (name : AccountName)
    (kind : Holding)
    (first second : List Entry) :
    netCredit name kind (first ++ second) =
      netCredit name kind first + netCredit name kind second := by
  simp [netCredit]

namespace Ledger

/-- A changed escrow keeps the symbol of its fee; a new fee is in BMT. -/
def FeeKept (before after : Option EscrowHolding) : Prop :=
  ∀ held, after = some held →
    held.pendingFee.symbol = bmtSymbol ∨
      ∃ old, before = some old ∧
        held.pendingFee.symbol = old.pendingFee.symbol

/-- Whether an entry fits the ledger it is posted to. -/
def Accepts (ledger : Ledger) : Entry → Prop
  | .purse name _ _ => name ∈ ledger.purses
  | .openPurse name => name ∉ ledger.purses
  | .fund id _ => id ∈ ledger.funds
  | .total _ _ => True
  | .limitOrder id before _ => ledger.limitOrders[id]? = before
  | .escrow id before after =>
      ledger.escrows[id]? = before ∧ FeeKept before after
  | .savingsWithdraw id before after =>
      ledger.savingsWithdraws[id]? = before ∧ after = none
  | .contentOrder id before _ => ledger.contentOrders[id]? = before

/-- Post an entry. -/
def post (ledger : Ledger) : Entry → Ledger
  | .purse name kind amount =>
      { ledger with
        purses := ledger.purses.modify name fun purse =>
          Function.update purse kind (purse kind + amount) }
  | .openPurse name =>
      { ledger with purses := place ledger.purses name (some fun _ => 0) }
  | .fund id amount =>
      { ledger with
        funds := ledger.funds.modify id fun balance => balance + amount }
  | .total kind amount =>
      { ledger with
        totals := Function.update ledger.totals kind
          (ledger.totals kind + amount) }
  | .limitOrder id _ after =>
      { ledger with limitOrders := place ledger.limitOrders id after }
  | .escrow id _ after =>
      { ledger with escrows := place ledger.escrows id after }
  | .savingsWithdraw id _ after =>
      { ledger with
        savingsWithdraws := place ledger.savingsWithdraws id after }
  | .contentOrder id _ after =>
      { ledger with contentOrders := place ledger.contentOrders id after }

/-- An entry moves the gap by its weight. -/
theorem gap_post
    {ledger : Ledger}
    (accepted : ledger.Accepts entry) :
    (ledger.post entry).gap = ledger.gap + entry.weight := by
  cases entry with
  | purse name kind amount =>
      rcases ExtTreeMap.isSome_getElem?_iff_mem.2 accepted |>
        Option.isSome_iff_exists.1 with ⟨purse, found⟩
      simp only [gap, holdings, post, Entry.weight]
      rw [modify_eq_place found, sumOf_place _ found]
      cases kind <;>
        simp [Purse.inBmt, Function.update] <;> omega
  | openPurse name =>
      have absent : ledger.purses[name]? = none :=
        ExtTreeMap.getElem?_eq_none accepted
      simp only [gap, holdings, post, Entry.weight]
      rw [sumOf_place _ absent]
      simp [Purse.inBmt]
  | fund id amount =>
      rcases ExtTreeMap.isSome_getElem?_iff_mem.2 accepted |>
        Option.isSome_iff_exists.1 with ⟨balance, found⟩
      simp only [gap, holdings, post, Entry.weight]
      rw [modify_eq_place found, sumOf_place _ found]
      simp only [Option.elim_some]
      omega
  | total kind amount =>
      cases kind <;>
        simp [gap, holdings, post, Entry.weight, Function.update] <;> omega
  | limitOrder id before after =>
      simp only [gap, holdings, post, Entry.weight]
      rw [sumOf_place _ accepted]
      omega
  | escrow id before after =>
      simp only [gap, holdings, post, Entry.weight]
      rw [sumOf_place _ accepted.1]
      omega
  | savingsWithdraw id before after =>
      simp only [gap, holdings, post, Entry.weight]
      rw [sumOf_place _ accepted.1]
      omega
  | contentOrder id before after =>
      simp only [gap, holdings, post, Entry.weight]
      rw [sumOf_place _ accepted]
      omega

/-- An entry moves the surplus of a total by its drift. -/
theorem surplus_post
    {ledger : Ledger}
    (accepted : ledger.Accepts entry)
    (total : Total) :
    (ledger.post entry).surplus total =
      ledger.surplus total + entry.drift total := by
  cases entry with
  | purse name kind amount =>
      rcases ExtTreeMap.isSome_getElem?_iff_mem.2 accepted |>
        Option.isSome_iff_exists.1 with ⟨purse, found⟩
      simp only [surplus, post, Entry.drift]
      rw [modify_eq_place found]
      cases counted : total.counted with
      | none => simp
      | some holding =>
          simp only [Option.elim_some, Option.some.injEq]
          rw [sumOf_place _ found]
          by_cases same : holding = kind
          · subst same
            simp
            omega
          · simp [same, Function.update]
  | openPurse name =>
      have absent : ledger.purses[name]? = none :=
        ExtTreeMap.getElem?_eq_none accepted
      simp only [surplus, post, Entry.drift]
      cases total.counted with
      | none => simp
      | some holding =>
          simp only [Option.elim_some]
          rw [sumOf_place _ absent]
          simp
  | total other amount =>
      simp only [surplus, post, Entry.drift]
      by_cases same : other = total
      · subst same
        simp
        omega
      · simp [same, Function.update, Ne.symm same]
  | fund id amount => simp [surplus, post, Entry.drift]
  | limitOrder id before after => simp [surplus, post, Entry.drift]
  | escrow id before after => simp [surplus, post, Entry.drift]
  | savingsWithdraw id before after => simp [surplus, post, Entry.drift]
  | contentOrder id before after => simp [surplus, post, Entry.drift]

/-- An entry moves a holding by its credit. -/
theorem holding_post
    {ledger : Ledger}
    (accepted : ledger.Accepts entry)
    (name : AccountName)
    (kind : Holding) :
    (ledger.post entry).holding name kind =
      ledger.holding name kind + entry.credit name kind := by
  cases entry with
  | purse target holding amount =>
      rcases ExtTreeMap.isSome_getElem?_iff_mem.2 accepted |>
        Option.isSome_iff_exists.1 with ⟨purse, found⟩
      simp only [Ledger.holding, post, Entry.credit]
      rw [modify_eq_place found, getElem?_place]
      by_cases same : target = name
      · subst same
        by_cases kinds : holding = kind
        · subst kinds
          simp [found]
        · simp [found, kinds, Function.update, Ne.symm kinds]
      · simp [same]
  | openPurse target =>
      have absent : ledger.purses[target]? = none :=
        ExtTreeMap.getElem?_eq_none accepted
      simp only [Ledger.holding, post, Entry.credit, getElem?_place]
      split
      case isTrue same =>
        subst same
        simp [absent]
      case isFalse => simp
  | fund id amount => simp [Ledger.holding, post, Entry.credit]
  | total kind amount => simp [Ledger.holding, post, Entry.credit]
  | limitOrder id before after => simp [Ledger.holding, post, Entry.credit]
  | escrow id before after => simp [Ledger.holding, post, Entry.credit]
  | savingsWithdraw id before after => simp [Ledger.holding, post, Entry.credit]
  | contentOrder id before after => simp [Ledger.holding, post, Entry.credit]

/-- The symbols which the total of the supply is computed for. -/
structure Legal (ledger : Ledger) : Prop where
  convertRequests : ∀ (id : Nat) (request : ConvertRequestObject),
    ledger.convertRequests[id]? = some request →
      request.amount.symbol = bmtSymbol
  escrows : ∀ (id : Nat) (escrow : EscrowHolding),
    ledger.escrows[id]? = some escrow → escrow.pendingFee.symbol = bmtSymbol
  savingsWithdraws : ∀ (id : Nat) (request : SavingsWithdrawObject),
    ledger.savingsWithdraws[id]? = some request →
      request.amount.symbol = bmtSymbol

/-- An entry brings no other symbols. -/
theorem legal_post
    {ledger : Ledger}
    (accepted : ledger.Accepts entry)
    (legal : ledger.Legal) :
    (ledger.post entry).Legal := by
  cases entry with
  | escrow id before after =>
      refine ⟨legal.convertRequests, ?_, legal.savingsWithdraws⟩
      intro other escrow found
      simp only [post] at found
      rw [getElem?_place] at found
      split at found
      case isFalse => exact legal.escrows other escrow found
      case isTrue same =>
        rcases accepted.2 escrow found with new | ⟨old, before, kept⟩
        · exact new
        · rw [kept]
          exact legal.escrows id old (accepted.1.trans before)
  | savingsWithdraw id before after =>
      refine ⟨legal.convertRequests, legal.escrows, ?_⟩
      intro other request found
      simp only [post] at found
      rw [getElem?_place, accepted.2] at found
      split at found
      case isTrue => cases found
      case isFalse => exact legal.savingsWithdraws other request found
  | purse name kind amount => exact ⟨legal.1, legal.2, legal.3⟩
  | openPurse name => exact ⟨legal.1, legal.2, legal.3⟩
  | fund id amount => exact ⟨legal.1, legal.2, legal.3⟩
  | total kind amount => exact ⟨legal.1, legal.2, legal.3⟩
  | limitOrder id before after => exact ⟨legal.1, legal.2, legal.3⟩
  | contentOrder id before after => exact ⟨legal.1, legal.2, legal.3⟩

end Ledger

/-! ## Journals -/

/-- Entries posted one after another, each to a ledger it fits. -/
inductive Posts : Ledger → List Entry → Ledger → Prop
  | nil (ledger : Ledger) : Posts ledger [] ledger
  | cons {ledger after : Ledger} {entry : Entry} {entries : List Entry} :
      ledger.Accepts entry → Posts (ledger.post entry) entries after →
        Posts ledger (entry :: entries) after

namespace Posts

theorem single
    {ledger : Ledger}
    (accepted : ledger.Accepts entry) :
    Posts ledger [entry] (ledger.post entry) :=
  .cons accepted (.nil _)

theorem append
    {ledger middle after : Ledger}
    {first second : List Entry}
    (start : Posts ledger first middle)
    (rest : Posts middle second after) :
    Posts ledger (first ++ second) after := by
  induction start with
  | nil => exact rest
  | cons accepted _ induction => exact .cons accepted (induction rest)

/-- A journal moves the gap by its net weight. -/
theorem gap_eq
    {ledger after : Ledger}
    (posted : Posts ledger entries after) :
    after.gap = ledger.gap + netWeight entries := by
  induction posted with
  | nil => simp
  | cons accepted _ induction =>
      rw [induction, Ledger.gap_post accepted, netWeight_cons]
      omega

theorem legal
    {ledger after : Ledger}
    (posted : Posts ledger entries after)
    (start : ledger.Legal) :
    after.Legal := by
  induction posted with
  | nil => exact start
  | cons accepted _ induction =>
      exact induction (Ledger.legal_post accepted start)

/-- A journal moves the surplus of a total by its net drift. -/
theorem surplus_eq
    {ledger after : Ledger}
    (posted : Posts ledger entries after)
    (total : Total) :
    after.surplus total = ledger.surplus total + netDrift total entries := by
  induction posted with
  | nil => simp
  | cons accepted _ induction =>
      rw [induction, Ledger.surplus_post accepted, netDrift_cons]
      omega

/-- A journal moves a holding by its net credit. -/
theorem holding_eq
    {ledger after : Ledger}
    (posted : Posts ledger entries after)
    (name : AccountName)
    (kind : Holding) :
    after.holding name kind =
      ledger.holding name kind + netCredit name kind entries := by
  induction posted with
  | nil => simp
  | cons accepted _ induction =>
      rw [induction, Ledger.holding_post accepted, netCredit_cons]
      omega

end Posts

/-! ## Entries for one purse -/

/-- Add amounts to the holdings of a purse. -/
def creditPurse (purse : Purse) (credits : List (Holding × Int)) : Purse :=
  credits.foldl
    (fun purse credit =>
      Function.update purse credit.1 (purse credit.1 + credit.2))
    purse

/-- The entries which add amounts to the holdings of an account. -/
def purseEntries (name : AccountName) (credits : List (Holding × Int)) :
    List Entry :=
  credits.map fun credit => .purse name credit.1 credit.2

/-- Amounts added one after another are written to the purse at once. -/
theorem Posts.purse
    {ledger : Ledger}
    {purse : Purse}
    (found : ledger.purses[name]? = some purse)
    (credits : List (Holding × Int)) :
    Posts ledger (purseEntries name credits)
      { ledger with
        purses := place ledger.purses name
          (some (creditPurse purse credits)) } := by
  induction credits generalizing ledger purse with
  | nil =>
      rw [creditPurse, List.foldl_nil, place_same found]
      exact .nil ledger
  | cons credit rest induction =>
      have member : name ∈ ledger.purses := by
        rw [← ExtTreeMap.isSome_getElem?_iff_mem, found]
        rfl
      refine .cons member ?_
      have written :
          (ledger.post (.purse name credit.1 credit.2)).purses =
            place ledger.purses name
              (some (Function.update purse credit.1
                (purse credit.1 + credit.2))) :=
        modify_eq_place found _
      have now :
          (ledger.post (.purse name credit.1 credit.2)).purses[name]? =
            some (Function.update purse credit.1
              (purse credit.1 + credit.2)) := by
        rw [written, getElem?_place, if_pos rfl]
      have rest := induction now
      rw [written, place_place] at rest
      exact rest

/-! ## The ledger of a state -/

/-- The holdings of an account object. -/
def AccountObject.purse (account : AccountObject) : Purse
  | .balance => account.balance
  | .savings => account.savingsBalance
  | .rewardBmt => account.rewardBmtBalance
  | .shares => account.vestingShares
  | .rewardShares => account.rewardVestingBalance
  | .rewardBacking => account.rewardVestingBmt

theorem AccountObject.purse_congr
    {first second : AccountObject}
    (balance : first.balance = second.balance)
    (savings : first.savingsBalance = second.savingsBalance)
    (rewardBmt : first.rewardBmtBalance = second.rewardBmtBalance)
    (shares : first.vestingShares = second.vestingShares)
    (rewardShares :
      first.rewardVestingBalance = second.rewardVestingBalance)
    (rewardBacking : first.rewardVestingBmt = second.rewardVestingBmt) :
    first.purse = second.purse := by
  funext kind
  cases kind <;> assumption

/-- The totals of the global properties. -/
def DynamicGlobalProperties.totals (props : DynamicGlobalProperties) :
    Total → Int
  | .supply => props.currentSupply
  | .vestingFund => props.totalVestingFundBmt
  | .vestingShares => props.totalVestingShares
  | .rewardFund => props.totalRewardFundBmt
  | .pendingShares => props.pendingRewardedVestingShares
  | .pendingBacking => props.pendingRewardedVestingBmt

theorem DynamicGlobalProperties.totals_congr
    {first second : DynamicGlobalProperties}
    (supply : first.currentSupply = second.currentSupply)
    (vestingFund : first.totalVestingFundBmt = second.totalVestingFundBmt)
    (vestingShares : first.totalVestingShares = second.totalVestingShares)
    (rewardFund : first.totalRewardFundBmt = second.totalRewardFundBmt)
    (pendingShares :
      first.pendingRewardedVestingShares =
        second.pendingRewardedVestingShares)
    (pendingBacking :
      first.pendingRewardedVestingBmt = second.pendingRewardedVestingBmt) :
    first.totals = second.totals := by
  funext kind
  cases kind <;> assumption

/-- What an escrow object holds. -/
def EscrowObject.holding (escrow : EscrowObject) : EscrowHolding :=
  ⟨escrow.bmtBalance, escrow.pendingFee⟩

namespace Database

/-- The ledger of a state. -/
def ledger (db : Database) : Ledger where
  purses := db.accounts.rows.map fun _ account => account.purse
  limitOrders := db.limitOrders.rows
  convertRequests := db.convertRequests.rows
  escrows := db.escrows.rows.map fun _ escrow => escrow.holding
  savingsWithdraws := db.savingsWithdraws.rows
  funds := db.rewardFunds.rows.map fun _ fund => fund.rewardBalance
  contentOrders := db.contentOrders.rows
  totals := db.props.totals

/-- A changed account writes its purse to the ledger. -/
theorem ledger_set_account
    {account : AccountObject}
    (found : db.accounts.find? name = some account)
    (changed : AccountObject) :
    { db with accounts := db.accounts.set name changed }.ledger =
      { db.ledger with
        purses := place db.ledger.purses name (some changed.purse) } := by
  simp only [ledger, Register.set_rows found, map_place, Option.map_some]

theorem ledger_purse_of_find?
    {account : AccountObject}
    (found : db.accounts.find? name = some account) :
    db.ledger.purses[name]? = some account.purse := by
  have row : db.accounts.rows[name]? = some account := found
  simp [ledger, ExtTreeMap.getElem?_map, row]

/-- A changed escrow writes its holdings to the ledger. -/
theorem ledger_set_escrow
    {id : Nat}
    {escrow : EscrowObject}
    (found : db.escrows.find? id = some escrow)
    (changed : EscrowObject) :
    { db with escrows := db.escrows.set id changed }.ledger =
      { db.ledger with
        escrows := place db.ledger.escrows id (some changed.holding) } := by
  simp only [ledger, Table.set_rows found, map_place, Option.map_some]

theorem ledger_escrow_of_find?
    {id : Nat}
    {escrow : EscrowObject}
    (found : db.escrows.find? id = some escrow) :
    db.ledger.escrows[id]? = some escrow.holding := by
  have row : db.escrows.rows[id]? = some escrow := found
  simp [ledger, ExtTreeMap.getElem?_map, row]

/-- An account changed outside its holdings leaves the ledger as it is. -/
theorem ledger_modifyAccount
    {change : AccountObject → Except Fault AccountObject}
    (done : db.modifyAccount name change = .ok after)
    (kept : ∀ account changed,
      change account = .ok changed → changed.purse = account.purse) :
    after.ledger = db.ledger := by
  rw [modifyAccount_eq_ok_iff] at done
  rcases done with ⟨account, changed, found, change, rfl⟩
  rw [ledger_set_account found, kept account changed change,
    place_same (ledger_purse_of_find? found)]

/-- An account changed by added amounts posts an entry for each of them. -/
theorem posts_modifyAccount
    {change : AccountObject → Except Fault AccountObject}
    (done : db.modifyAccount name change = .ok after)
    (credits : List (Holding × Int))
    (kept : ∀ account changed,
      change account = .ok changed →
        changed.purse = creditPurse account.purse credits) :
    Posts db.ledger (purseEntries name credits) after.ledger := by
  rw [modifyAccount_eq_ok_iff] at done
  rcases done with ⟨account, changed, found, change, rfl⟩
  rw [ledger_set_account found, kept account changed change]
  exact .purse (ledger_purse_of_find? found) credits

end Database

end BMChain.State
