import BMChain.State.Spending

/-!
# The escrow protocol

The steps which the parties and the sweep of unratified escrows can take on
one escrow, as a relation of its own.  Every event of the chain takes each
escrow by such a step, and pays from it what the escrow no longer holds.
-/

namespace BMChain.State

open BMChain.Foundation BMChain.Protocol Std

variable {event : Event} {now : Time} {id : Nat} {ext : External}
    {escrow : EscrowObject} {row : Option EscrowObject}
    {signed : List AccountName}

variable {name : AccountName} {op : EscrowReleaseOperation} {target : Nat}

/-! ## The protocol of one escrow -/

/-- What an account was credited with from an escrow. -/
structure EscrowCredit where
  payee : AccountName
  amount : Int
  isFee : Bool

/-- A credit, unless it is of nothing. -/
def creditOf (payee : AccountName) (amount : Int) (isFee : Bool) :
    List EscrowCredit :=
  if amount = 0 then [] else [⟨payee, amount, isFee⟩]

/-- The funds which are left in an escrow, none once it is removed. -/
def fundsIn (row : Option EscrowObject) : Int :=
  (row.map EscrowObject.bmtBalance).getD 0

/-- The fee which is left in an escrow, none once it is removed. -/
def feeIn (row : Option EscrowObject) : Int :=
  (row.map fun escrow => escrow.pendingFee.amount).getD 0

/-- Whom an event pays from the funds of an escrow. -/
def fundsPayee (escrow : EscrowObject) : Event → AccountName
  | .operation (.escrowRelease op) => op.receiver
  | _ => escrow.fromAccount

/-- Whom an event pays from the fee of an escrow. -/
def feePayee (escrow : EscrowObject) : Event → AccountName
  | .operation (.escrowApprove op) =>
      if op.approve then op.agent else escrow.fromAccount
  | _ => escrow.fromAccount

/-- What an event credits from an escrow: all that it no longer holds. -/
def creditsOf (escrow : EscrowObject) (event : Event)
    (row : Option EscrowObject) : List EscrowCredit :=
  creditOf (fundsPayee escrow event) (escrow.bmtBalance - fundsIn row) false ++
    creditOf (feePayee escrow event) (escrow.pendingFee.amount - feeIn row)
      true

/-- An escrow with its fee paid. -/
def EscrowObject.feePaid (escrow : EscrowObject) : EscrowObject :=
  { escrow with pendingFee := { escrow.pendingFee with amount := 0 } }

/--
The steps of an escrow at a time, each with the accounts which approve the
escrow by it and with what is left of the escrow.
-/
inductive EscrowStep (now : Time) (escrow : EscrowObject) :
    Event → List AccountName → Option EscrowObject → Prop
  | idle (event : Event) :
      EscrowStep now escrow event [] (some escrow)
  | approve (op : EscrowApproveOperation)
      (receiver : op.toAccount = escrow.toAccount)
      (agent : op.agent = escrow.agent)
      (waits : escrow.isApproved = false)
      (incomplete : (Database.approvedBy op escrow).isApproved = false) :
      EscrowStep now escrow (.operation (.escrowApprove op)) [op.who]
        (some (Database.approvedBy op escrow))
  | ratify (op : EscrowApproveOperation)
      (receiver : op.toAccount = escrow.toAccount)
      (agent : op.agent = escrow.agent)
      (waits : escrow.isApproved = false)
      (willing : op.approve = true)
      (complete : (Database.approvedBy op escrow).isApproved = true) :
      EscrowStep now escrow (.operation (.escrowApprove op)) [op.who]
        (some (Database.approvedBy op escrow).feePaid)
  | reject (op : EscrowApproveOperation)
      (waits : escrow.isApproved = false)
      (unwilling : op.approve = false) :
      EscrowStep now escrow (.operation (.escrowApprove op)) [] none
  | dispute (op : EscrowDisputeOperation)
      (approved : escrow.isApproved = true) :
      EscrowStep now escrow (.operation (.escrowDispute op)) []
        (some { escrow with disputed := true })
  | release (op : EscrowReleaseOperation)
      (approved : escrow.isApproved = true)
      (receiver : op.receiver = escrow.fromAccount ∨
        op.receiver = escrow.toAccount)
      (byAgent : escrow.disputed = true → op.who = escrow.agent)
      (toOther : escrow.disputed = false → now < escrow.escrowExpiration →
        op.who = escrow.fromAccount ∧ op.receiver = escrow.toAccount ∨
          op.who = escrow.toAccount ∧ op.receiver = escrow.fromAccount)
      (row : Option EscrowObject)
      (left : row =
        if escrow.bmtBalance - op.bmtAmount.amount = 0 then none
        else some { escrow with
          bmtBalance := escrow.bmtBalance - op.bmtAmount.amount }) :
      EscrowStep now escrow (.operation (.escrowRelease op)) [] row
  | expire (header : BlockHeader)
      (waits : escrow.isApproved = false) :
      EscrowStep now escrow (.finishBlock header) [] none

/-! ## The history of one escrow -/

/--
The operation which opened an escrow, all that was credited from it, and the
accounts which approved it.
-/
structure EscrowHistory where
  opened : EscrowTransferOperation
  credits : List EscrowCredit
  approvals : List AccountName

/-- The amounts of credits together. -/
def creditSum (credits : List EscrowCredit) : Int :=
  (credits.map EscrowCredit.amount).sum

/-- What an account gets of credits. -/
def creditedTo (name : AccountName) (credits : List EscrowCredit) : Int :=
  creditSum (credits.filter fun credit => credit.payee = name)

/-- An escrow is between the parties and on the terms of an operation. -/
structure EscrowObject.OpenedBy (escrow : EscrowObject)
    (op : EscrowTransferOperation) : Prop where
  fromAccount : escrow.fromAccount = op.fromAccount
  toAccount : escrow.toAccount = op.toAccount
  agent : escrow.agent = op.agent
  expiration : escrow.escrowExpiration = op.escrowExpiration

/-- The receiver and the agent of an escrow both approved it. -/
def EscrowHistory.Ratified (history : EscrowHistory) : Prop :=
  history.opened.toAccount ∈ history.approvals ∧
    history.opened.agent ∈ history.approvals

/--
What was credited from an escrow and what it holds are what was put in; the
funds go to the sender or the receiver, and the fee goes to the agent once both
the receiver and the agent approved, or back to the sender with the rest.
-/
structure EscrowSound (history : EscrowHistory)
    (row : Option EscrowObject) : Prop where
  total : creditSum history.credits =
    history.opened.bmtAmount.amount + history.opened.fee.amount -
      (fundsIn row + feeIn row)
  funds : ∀ credit ∈ history.credits, credit.isFee = false →
    credit.payee = history.opened.fromAccount ∨
      credit.payee = history.opened.toAccount
  fee :
    (∃ escrow, row = some escrow ∧ escrow.isApproved = false ∧
      feeIn row = history.opened.fee.amount ∧
        history.credits.filter EscrowCredit.isFee = []) ∨
    ((∀ escrow, row = some escrow → escrow.isApproved = true) ∧
      history.Ratified ∧ feeIn row = 0 ∧
        history.credits.filter EscrowCredit.isFee =
          creditOf history.opened.agent history.opened.fee.amount true) ∨
    (row = none ∧
      history.credits.filter EscrowCredit.isFee =
        creditOf history.opened.fromAccount history.opened.fee.amount true)
  terms : ∀ escrow, row = some escrow → escrow.OpenedBy history.opened
  flags : ∀ escrow, row = some escrow →
    (escrow.toApproved = true ↔
        history.opened.toAccount ∈ history.approvals) ∧
      (escrow.agentApproved = true ↔
        history.opened.agent ∈ history.approvals)

@[simp]
theorem creditSum_append
    (first second : List EscrowCredit) :
    creditSum (first ++ second) = creditSum first + creditSum second := by
  simp [creditSum]

@[simp]
theorem creditSum_creditOf
    (payee : AccountName)
    (amount : Int)
    (isFee : Bool) :
    creditSum (creditOf payee amount isFee) = amount := by
  unfold creditOf
  split <;> simp_all [creditSum]

theorem creditSum_creditsOf
    (escrow : EscrowObject)
    (event : Event)
    (row : Option EscrowObject) :
    creditSum (creditsOf escrow event row) =
      fundsIn (some escrow) + feeIn (some escrow) -
        (fundsIn row + feeIn row) := by
  rw [creditsOf, creditSum_append, creditSum_creditOf, creditSum_creditOf]
  simp only [fundsIn, feeIn, Option.map_some, Option.getD_some]
  omega

theorem filter_creditOf
    (payee : AccountName)
    (amount : Int)
    (isFee : Bool) :
    (creditOf payee amount isFee).filter EscrowCredit.isFee =
      if isFee then creditOf payee amount true else [] := by
  unfold creditOf
  cases isFee <;> split <;> simp

theorem filter_creditsOf
    (escrow : EscrowObject)
    (event : Event)
    (row : Option EscrowObject) :
    (creditsOf escrow event row).filter EscrowCredit.isFee =
      creditOf (feePayee escrow event)
        (escrow.pendingFee.amount - feeIn row) true := by
  rw [creditsOf, List.filter_append, filter_creditOf, filter_creditOf]
  simp

theorem creditedTo_creditOf
    (name payee : AccountName)
    (amount : Int)
    (isFee : Bool) :
    creditedTo name (creditOf payee amount isFee) =
      if payee = name then amount else 0 := by
  unfold creditedTo creditOf
  split
  · simp_all [creditSum]
  · split <;> simp_all [creditSum]

theorem creditedTo_creditsOf
    (name : AccountName)
    (escrow : EscrowObject)
    (event : Event)
    (row : Option EscrowObject) :
    creditedTo name (creditsOf escrow event row) =
      (if fundsPayee escrow event = name then
        escrow.bmtBalance - fundsIn row else 0) +
      if feePayee escrow event = name then
        escrow.pendingFee.amount - feeIn row else 0 := by
  rw [← creditedTo_creditOf name _ _ false, ← creditedTo_creditOf name _ _ true]
  simp only [creditedTo, creditsOf, List.filter_append, creditSum_append]

/-- An escrow which stays as it is credits nobody. -/
theorem creditsOf_same
    (escrow : EscrowObject)
    (event : Event) :
    creditsOf escrow event (some escrow) = [] := by
  simp [creditsOf, fundsIn, feeIn, creditOf]

theorem payee_of_mem_creditsOf
    {credit : EscrowCredit}
    (member : credit ∈ creditsOf escrow event row)
    (fund : credit.isFee = false) :
    credit.payee = fundsPayee escrow event := by
  simp only [creditsOf, creditOf, List.mem_append] at member
  rcases member with member | member
  · split at member
    · cases member
    · rw [List.mem_singleton.1 member]
  · split at member
    · cases member
    · rw [List.mem_singleton.1 member] at fund
      cases fund

/-! ### A step keeps the history sound -/

namespace EscrowSound

variable {history : EscrowHistory}

variable (sound : EscrowSound history (some escrow))

include sound

/-- Until all have approved, the fee is in the escrow. -/
theorem unpaid
    (waits : escrow.isApproved = false) :
    escrow.pendingFee.amount = history.opened.fee.amount ∧
      history.credits.filter EscrowCredit.isFee = [] := by
  rcases sound.fee with ⟨other, same, -, left, none⟩ | ⟨approved, -⟩ |
    ⟨removed, -⟩
  · exact ⟨left, none⟩
  · rw [approved escrow rfl] at waits
    cases waits
  · cases removed

/-- Once all have approved, the agent has the fee. -/
theorem paid
    (approved : escrow.isApproved = true) :
    history.Ratified ∧ escrow.pendingFee.amount = 0 ∧
      history.credits.filter EscrowCredit.isFee =
        creditOf history.opened.agent history.opened.fee.amount true := by
  rcases sound.fee with ⟨other, same, waits, -⟩ |
    ⟨-, ratified, none, agent⟩ | ⟨removed, -⟩
  · cases same
    rw [approved] at waits
    cases waits
  · exact ⟨ratified, none, agent⟩
  · cases removed

/-- What a step credits from the funds goes to the sender or the receiver. -/
theorem funds_step
    (step : EscrowStep now escrow event signed row)
    (credit : EscrowCredit)
    (member : credit ∈ creditsOf escrow event row)
    (fund : credit.isFee = false) :
    credit.payee = history.opened.fromAccount ∨
      credit.payee = history.opened.toAccount := by
  have terms := sound.terms escrow rfl
  have payee := payee_of_mem_creditsOf member fund
  cases step with
  | idle event =>
      rw [creditsOf_same] at member
      cases member
  | release op _ receiver =>
      rcases receiver with same | same
      · exact .inl (payee.trans (same.trans terms.fromAccount))
      · exact .inr (payee.trans (same.trans terms.toAccount))
  | _ => exact .inl (payee.trans terms.fromAccount)

/-- A step leaves the parties and the terms. -/
theorem terms_step
    (step : EscrowStep now escrow event signed row)
    (left : EscrowObject)
    (remains : row = some left) :
    left.OpenedBy history.opened := by
  have terms := sound.terms escrow rfl
  have kept : ∀ other : EscrowObject,
      other.fromAccount = escrow.fromAccount →
        other.toAccount = escrow.toAccount → other.agent = escrow.agent →
          other.escrowExpiration = escrow.escrowExpiration →
            other.OpenedBy history.opened :=
    fun other one two three four => ⟨one.trans terms.fromAccount,
      two.trans terms.toAccount, three.trans terms.agent,
      four.trans terms.expiration⟩
  cases step with
  | reject op => cases remains
  | expire header => cases remains
  | release op _ _ _ _ _ equal =>
      rw [equal] at remains
      split at remains
      · cases remains
      · cases remains
        exact kept _ rfl rfl rfl rfl
  | _ =>
      cases remains
      exact kept _ rfl rfl rfl rfl

/-- The flags of an escrow are the approvals of its receiver and its agent. -/
theorem flags_step
    (step : EscrowStep now escrow event signed row)
    (left : EscrowObject)
    (remains : row = some left) :
    (left.toApproved = true ↔
        history.opened.toAccount ∈ history.approvals ++ signed) ∧
      (left.agentApproved = true ↔
        history.opened.agent ∈ history.approvals ++ signed) := by
  have terms := sound.terms escrow rfl
  have flags := sound.flags escrow rfl
  have marked : ∀ op : EscrowApproveOperation,
      op.toAccount = escrow.toAccount → op.agent = escrow.agent →
        ((Database.approvedBy op escrow).toApproved = true ↔
            history.opened.toAccount ∈ history.approvals ++ [op.who]) ∧
          ((Database.approvedBy op escrow).agentApproved = true ↔
            history.opened.agent ∈ history.approvals ++ [op.who]) := by
    intro op receiver agent
    simp only [Database.approvedBy, Bool.or_eq_true, decide_eq_true_iff,
      List.mem_append, List.mem_singleton, flags.1, flags.2, receiver, agent,
      terms.toAccount, terms.agent, eq_comm (a := op.who), and_self]
  cases step with
  | approve op receiver agent =>
      cases remains
      exact marked op receiver agent
  | ratify op receiver agent =>
      cases remains
      exact marked op receiver agent
  | reject op => cases remains
  | expire header => cases remains
  | release op _ _ _ _ _ equal =>
      rw [List.append_nil]
      rw [equal] at remains
      split at remains
      · cases remains
      · cases remains
        exact flags
  | _ =>
      rw [List.append_nil]
      cases remains
      exact flags

/-- The fee is paid once, by the step which completes or ends the approval. -/
theorem fee_step
    (step : EscrowStep now escrow event signed row)
    {credits : List EscrowCredit}
    (new : credits = history.credits ++ creditsOf escrow event row)
    (flags : ∀ left, row = some left → left.isApproved = true →
      EscrowHistory.Ratified ⟨history.opened, credits,
        history.approvals ++ signed⟩) :
    (∃ left, row = some left ∧ left.isApproved = false ∧
      feeIn row = history.opened.fee.amount ∧
        credits.filter EscrowCredit.isFee = []) ∨
    ((∀ left, row = some left → left.isApproved = true) ∧
      EscrowHistory.Ratified ⟨history.opened, credits,
        history.approvals ++ signed⟩ ∧ feeIn row = 0 ∧
          credits.filter EscrowCredit.isFee =
            creditOf history.opened.agent history.opened.fee.amount true) ∨
    (row = none ∧ credits.filter EscrowCredit.isFee =
      creditOf history.opened.fromAccount history.opened.fee.amount true) := by
  have terms := sound.terms escrow rfl
  have fees : credits.filter EscrowCredit.isFee =
      history.credits.filter EscrowCredit.isFee ++
        creditOf (feePayee escrow event)
          (escrow.pendingFee.amount - feeIn row) true := by
    rw [new, List.filter_append, filter_creditsOf]
  rw [fees]
  cases step with
  | idle event =>
      have nothing : creditOf (feePayee escrow event)
          (escrow.pendingFee.amount - feeIn (some escrow)) true = [] := by
        simp [feeIn, creditOf]
      rw [nothing, List.append_nil]
      rcases sound.fee with unpaid | ⟨approved, -, paid⟩ | back
      · exact .inl unpaid
      · exact .inr (.inl ⟨approved,
          flags escrow rfl (approved escrow rfl), paid⟩)
      · exact .inr (.inr back)
  | approve op receiver agent waits incomplete =>
      rcases sound.unpaid waits with ⟨fee, none⟩
      refine .inl ⟨_, rfl, incomplete, fee, ?_⟩
      rw [none]
      simp [feeIn, Database.approvedBy, creditOf]
  | ratify op receiver agent waits willing complete =>
      rcases sound.unpaid waits with ⟨fee, none⟩
      refine .inr (.inl ⟨?_, flags _ rfl complete, rfl, ?_⟩)
      · intro left remains
        cases remains
        exact complete
      · rw [none, feePayee, if_pos willing, agent, terms.agent, fee]
        simp [feeIn, EscrowObject.feePaid]
  | reject op waits unwilling =>
      rcases sound.unpaid waits with ⟨fee, none⟩
      refine .inr (.inr ⟨rfl, ?_⟩)
      rw [none, feePayee, unwilling, if_neg Bool.false_ne_true,
        terms.fromAccount, fee]
      simp [feeIn]
  | dispute op approved =>
      rcases sound.paid approved with ⟨-, fee, agent⟩
      refine .inr (.inl ⟨?_, flags _ rfl approved, fee, ?_⟩)
      · intro left remains
        cases remains
        exact approved
      · rw [agent]
        simp [feeIn, creditOf]
  | release op approved receiver byAgent toOther row left =>
      rcases sound.paid approved with ⟨ratified, fee, agent⟩
      have empty : feeIn row = 0 := by
        rw [left]
        split
        · rfl
        · exact fee
      rw [List.append_nil]
      refine .inr (.inl ⟨?_, ratified, empty, ?_⟩)
      · intro other remains
        rw [left] at remains
        split at remains
        · cases remains
        · cases remains
          exact approved
      · rw [agent, empty, fee]
        simp [creditOf]
  | expire header waits =>
      rcases sound.unpaid waits with ⟨fee, none⟩
      have payee : feePayee escrow (.finishBlock header) =
          escrow.fromAccount := rfl
      refine .inr (.inr ⟨rfl, ?_⟩)
      rw [none, payee, terms.fromAccount, fee]
      simp [feeIn]

/-- The history stays sound with what a step credits. -/
theorem step
    (step : EscrowStep now escrow event signed row) :
    EscrowSound
      { history with
        credits := history.credits ++ creditsOf escrow event row
        approvals := history.approvals ++ signed } row := by
  have flags := sound.flags_step step
  constructor
  case total =>
    have before := sound.total
    simp only [creditSum_append, creditSum_creditsOf]
    omega
  case funds =>
    intro credit member fund
    rcases List.mem_append.1 member with old | new
    · exact sound.funds credit old fund
    · exact sound.funds_step step credit new fund
  case fee =>
    refine sound.fee_step step rfl fun left remains approved => ?_
    rw [EscrowObject.isApproved, Bool.and_eq_true] at approved
    have marked := flags left remains
    exact ⟨marked.1.1 approved.1, marked.2.1 approved.2⟩
  case terms => exact sound.terms_step step
  case flags => exact flags

end EscrowSound

namespace Database

/-! ## What the operations do -/

/-- No escrow which all have approved has a fee left. -/
def FeesPaid (db : Database) : Prop :=
  db.escrows.All fun escrow =>
    escrow.isApproved = true → escrow.pendingFee.amount = 0

/-- The account which approves the escrow with an id by an event, if any. -/
def approvalsOf (db : Database) (event : Event) (id : Nat) :
    List AccountName :=
  match event with
  | .operation (.escrowApprove op) =>
      match db.getEscrow op.fromAccount op.escrowId with
      | .ok (chosen, _) =>
          if chosen = id ∧ op.approve = true then [op.who] else []
      | .error _ => []
  | _ => []

/--
An event takes one step on one escrow, leaves the others, and pays what the
step credits.
-/
structure EscrowTaken (db : Database) (event : Event) (after : Database)
    (id : Nat) (escrow : EscrowObject) (row : Option EscrowObject) : Prop where
  found : db.escrows.find? id = some escrow
  rows : ∀ other, after.escrows.find? other =
    if id = other then row else db.escrows.find? other
  signed : ∀ other, id ≠ other → db.approvalsOf event other = []
  step : EscrowStep db.headBlockTime escrow event (db.approvalsOf event id) row
  balances : ∀ name, after.held AccountObject.balance name =
    db.held AccountObject.balance name +
      creditedTo name (creditsOf escrow event row)

section Operations

variable {db after : Database}

theorem held_adjustBalance
    {delta : Asset}
    (done : db.adjustBalance name delta = .ok after)
    (other : AccountName) :
    after.held AccountObject.balance other =
      db.held AccountObject.balance other +
        if name = other then delta.amount else 0 := by
  refine held_modifyAccount done ?_ other
  intro account changed _ change
  simp only [bind_eq_ok_iff, checked_eq_ok_iff, pure_eq_ok_iff] at change
  rcases change with ⟨_, -, _, ⟨-, rfl⟩, rfl⟩
  rfl

/-- An escrow which is paid back is gone, and its sender has all of it. -/
theorem returned_escrow
    {sender : AccountName}
    (done : db.returnEscrow sender id escrow = .ok after) :
    after.escrows = db.escrows.remove id ∧
      ∀ name, after.held AccountObject.balance name =
        db.held AccountObject.balance name +
          if sender = name then escrow.bmtBalance + escrow.pendingFee.amount
          else 0 := by
  simp only [returnEscrow, bind_eq_ok_iff] at done
  rcases done with ⟨paid, pay, settled, settle, equal⟩
  cases equal
  refine ⟨?_, ?_⟩
  · dsimp only
    rw [escrows_of_adjustBalance settle, escrows_of_adjustBalance pay]
  · intro name
    have second := held_adjustBalance settle name
    rw [held_adjustBalance pay] at second
    refine second.trans ?_
    split
    · exact Int.add_assoc _ _ _
    · exact Int.add_zero _

theorem sender_of_getEscrow
    {escrowId : Nat}
    {entry : Nat × EscrowObject}
    (got : db.getEscrow name escrowId = .ok entry) :
    entry.2.fromAccount = name := by
  have passed := Table.passed_of_findBy (orFault_eq_ok_iff.1 got)
  exact (of_decide_eq_true passed).1

theorem taken_escrowApprove
    {op : EscrowApproveOperation}
    (valid : op.validate = .ok ())
    (done : db.escrowApproveEvaluator op = .ok after) :
    ∃ id escrow row,
      EscrowTaken db (.operation (.escrowApprove op)) after id escrow row := by
  simp only [EscrowApproveOperation.validate, bind_eq_ok_iff,
    require_eq_ok_iff] at valid
  rcases valid with ⟨_, -, _, -, _, -, _, -, party⟩
  simp only [escrowApproveEvaluator, bind_eq_ok_iff, require_eq_ok_iff]
    at done
  rcases done with ⟨⟨id, escrow⟩, got, _, receiver, _, agent, _, -, _,
    notTo, _, notAgent, decided⟩
  have found := find_of_getEscrow got
  have signed : ∀ other, db.approvalsOf (.operation (.escrowApprove op)) other =
      if id = other ∧ op.approve = true then [op.who] else [] := by
    intro other
    rw [approvalsOf, got]
  have others : ∀ other, id ≠ other →
      db.approvalsOf (.operation (.escrowApprove op)) other = [] :=
    fun other different => (signed other).trans
      (if_neg fun both => different both.1)
  have sender : escrow.fromAccount = op.fromAccount :=
    sender_of_getEscrow got
  have waits : escrow.isApproved = false := by
    rw [Bool.not_eq_true'] at notTo notAgent
    rw [EscrowObject.isApproved, Bool.and_eq_false_iff]
    rcases party with same | same
    · exact .inl (notTo.resolve_left (not_not_intro same))
    · exact .inr (notAgent.resolve_left (not_not_intro same))
  split at decided
  case isTrue unwilling =>
    have refuses : op.approve = false := by simpa using unwilling
    rcases returned_escrow decided with ⟨rows, balances⟩
    have nobody := (signed id).trans (if_neg fun both => by
      rw [refuses] at both
      cases both.2)
    refine ⟨id, escrow, none, found, ?_, others, ?_, ?_⟩
    · intro other
      rw [rows, Table.find?_remove]
    · rw [nobody]
      exact .reject op waits refuses
    · intro name
      have funds : fundsPayee escrow (.operation (.escrowApprove op)) =
          escrow.fromAccount := rfl
      rw [balances, creditedTo_creditsOf, funds, feePayee, refuses,
        if_neg Bool.false_ne_true, ← sender]
      split
      · simp [fundsIn, feeIn]
      · rfl
  case isFalse willing =>
    have agrees : op.approve = true := by simpa using willing
    have who := (signed id).trans (if_pos ⟨rfl, agrees⟩)
    unfold payAgent at decided
    split at decided
    case isFalse incomplete =>
      cases decided
      refine ⟨id, escrow, some (approvedBy op escrow), found, ?_, others, ?_,
        ?_⟩
      · exact Table.find?_set found _
      · rw [who]
        exact .approve op receiver.symm agent.symm waits
          (Bool.not_eq_true _ ▸ incomplete)
      · intro name
        rw [creditedTo_creditsOf]
        simp [fundsIn, feeIn, approvedBy, held]
    case isTrue complete =>
      rw [bind_eq_ok_iff] at decided
      rcases decided with ⟨paid, pay, equal⟩
      cases equal
      have marked : ∀ other, paid.escrows.find? other =
          if id = other then some (approvedBy op escrow)
          else db.escrows.find? other := by
        intro other
        rw [escrows_of_adjustBalance pay]
        exact Table.find?_set found _ other
      refine ⟨id, escrow, some (approvedBy op escrow).feePaid, found, ?_,
        others, ?_, ?_⟩
      · intro other
        have there : paid.escrows.find? id = some (approvedBy op escrow) := by
          rw [marked, if_pos rfl]
        refine (Table.find?_set there _ other).trans ?_
        split
        · rfl
        · rename_i different
          rw [marked, if_neg different]
      · rw [who]
        exact .ratify op receiver.symm agent.symm waits agrees complete
      · intro name
        have credited := held_adjustBalance pay name
        refine credited.trans ?_
        rw [creditedTo_creditsOf, feePayee, if_pos agrees]
        simp [fundsIn, feeIn, approvedBy, EscrowObject.feePaid, held]

theorem taken_escrowDispute
    {op : EscrowDisputeOperation}
    (done : db.escrowDisputeEvaluator op = .ok after) :
    ∃ id escrow row,
      EscrowTaken db (.operation (.escrowDispute op)) after id escrow row := by
  simp only [escrowDisputeEvaluator, bind_eq_ok_iff, require_eq_ok_iff,
    pure_eq_ok_iff] at done
  rcases done with ⟨_, -, ⟨id, escrow⟩, got, _, -, _, approved, _, -, _, -, _,
    -, rfl⟩
  have found := find_of_getEscrow got
  refine ⟨id, escrow, some { escrow with disputed := true }, found, ?_,
    fun _ _ => rfl, .dispute op approved, ?_⟩
  · exact Table.find?_set found _
  · intro name
    rw [creditedTo_creditsOf]
    simp [fundsIn, feeIn, held]

/-- Who may release what is in an escrow, and to whom. -/
theorem allowed_of_checkRelease
    (done : db.checkRelease escrow op = .ok ()) :
    (escrow.disputed = true → op.who = escrow.agent) ∧
      (escrow.disputed = false →
        db.headBlockTime < escrow.escrowExpiration →
          op.who = escrow.fromAccount ∧ op.receiver = escrow.toAccount ∨
            op.who = escrow.toAccount ∧
              op.receiver = escrow.fromAccount) := by
  unfold checkRelease at done
  split at done
  case isTrue disputed =>
    refine ⟨fun _ => require_eq_ok_iff.1 done, fun undisputed => ?_⟩
    rw [disputed] at undisputed
    cases undisputed
  case isFalse undisputed =>
    refine ⟨fun disputed => absurd disputed undisputed, fun _ early => ?_⟩
    rw [bind_eq_ok_iff] at done
    rcases done with ⟨_, party, decided⟩
    rw [if_pos early] at decided
    split at decided
    case isTrue sender =>
      exact .inl ⟨sender, require_eq_ok_iff.1 decided⟩
    case isFalse other =>
      have receiver := (require_eq_ok_iff.1 party).resolve_left other
      rw [if_pos receiver] at decided
      exact .inr ⟨receiver, require_eq_ok_iff.1 decided⟩

theorem taken_escrowRelease
    (fees : db.FeesPaid)
    (done : db.escrowReleaseEvaluator op = .ok after) :
    ∃ id escrow row,
      EscrowTaken db (.operation (.escrowRelease op)) after id escrow row := by
  simp only [escrowReleaseEvaluator, bind_eq_ok_iff, require_eq_ok_iff,
    Asset.inSymbol_eq_ok_iff, checked_eq_ok_iff] at done
  rcases done with ⟨_, -, _, -, ⟨id, escrow⟩, got, _, ⟨-, rfl⟩, _, -, _, -, _,
    -, _, receiver, _, approved, _, checks, paid, pay, _, ⟨-, rfl⟩, decided⟩
  have found := find_of_getEscrow got
  rcases allowed_of_checkRelease checks with ⟨byAgent, toOther⟩
  have credited := held_adjustBalance pay
  have escrows := escrows_of_adjustBalance pay
  split at decided
  case isTrue empty =>
    cases decided
    refine ⟨id, escrow, none, found, ?_, fun _ _ => rfl, .release op approved
      receiver byAgent toOther none (if_pos empty).symm, ?_⟩
    · intro other
      dsimp only
      rw [escrows, Table.find?_remove]
    · intro name
      have noFee : escrow.pendingFee.amount = 0 := fees id escrow found approved
      refine (credited name).trans ?_
      rw [creditedTo_creditsOf, noFee]
      have whole : escrow.bmtBalance = op.bmtAmount.amount :=
        Int.sub_eq_zero.1 empty
      simp [fundsIn, feeIn, fundsPayee, bmt, whole]
  case isFalse remains =>
    cases decided
    refine ⟨id, escrow, some _, found, ?_, fun _ _ => rfl, .release op approved
      receiver byAgent toOther _ (if_neg remains).symm, ?_⟩
    · intro other
      dsimp only
      rw [escrows]
      exact Table.find?_set found _ other
    · intro name
      refine (credited name).trans ?_
      rw [creditedTo_creditsOf]
      simp [fundsIn, feeIn, fundsPayee, bmt]

/-- The escrow which an operation opens. -/
def newEscrow (op : EscrowTransferOperation) : EscrowObject where
  escrowId := op.escrowId
  fromAccount := op.fromAccount
  toAccount := op.toAccount
  agent := op.agent
  ratificationDeadline := op.ratificationDeadline
  escrowExpiration := op.escrowExpiration
  bmtBalance := op.bmtAmount.amount
  pendingFee := op.fee

/-- A new escrow takes its funds and its fee from its sender. -/
theorem opened_escrowTransfer
    {op : EscrowTransferOperation}
    (valid : op.validate ext = .ok ())
    (done : db.escrowTransferEvaluator op = .ok after) :
    after.escrows = db.escrows.emplace (newEscrow op) ∧
      ∀ name, after.held AccountObject.balance name =
        db.held AccountObject.balance name -
          if op.fromAccount = name then op.bmtAmount.amount + op.fee.amount
          else 0 := by
  simp only [EscrowTransferOperation.validate, bind_eq_ok_iff,
    require_eq_ok_iff] at valid
  rcases valid with ⟨_, -, _, -, _, -, _, -, _, -, _, -, _, symbol, -⟩
  simp only [escrowTransferEvaluator, if_pos symbol, createRow,
    bind_eq_ok_iff, pure_eq_ok_iff, checked_eq_ok_iff,
    Asset.inSymbol_eq_ok_iff] at done
  rcases done with ⟨_, -, _, -, _, -, _, -, _, -, _, ⟨-, rfl⟩, _, ⟨-, rfl⟩, _,
    -, _, ⟨-, rfl⟩, paid, pay, _, ⟨_, -, rfl⟩, rfl⟩
  have credited := held_adjustBalance pay
  constructor
  · dsimp only
    rw [escrows_of_adjustBalance pay]
    rfl
  · intro name
    refine (credited name).trans ?_
    split
    · exact (Int.sub_eq_add_neg).symm
    · simp

/-- What one round of the sweep returns, and to whom. -/
def dueTo (name : AccountName) (escrow : EscrowObject) : Int :=
  if escrow.fromAccount = name then
    escrow.bmtBalance + escrow.pendingFee.amount
  else 0

/--
Escrows which not all have approved in time are removed, and each of them is
paid back to its sender.
-/
structure Swept (db after : Database) : Prop where
  time : after.headBlockTime = db.headBlockTime
  rows : ∀ id, after.escrows.find? id = db.escrows.find? id ∨
    after.escrows.find? id = none ∧
      ∀ escrow, db.escrows.find? id = some escrow →
        escrow.isApproved = false ∧
          escrow.ratificationDeadline ≤ db.headBlockTime
  balances : ∀ name, after.held AccountObject.balance name =
    db.held AccountObject.balance name +
      (sumOf (dueTo name) db.escrows.rows -
        sumOf (dueTo name) after.escrows.rows)

theorem Swept.start
    (db : Database) :
    Swept db db := by
  refine ⟨rfl, fun id => .inl rfl, fun name => ?_⟩
  omega

theorem mem_of_firstUnratified
    {entry : Nat × EscrowObject}
    (first : db.firstUnratified = some entry) :
    db.escrows.find? entry.1 = some entry.2 ∧
      entry.2.isApproved = false ∧
        entry.2.ratificationDeadline ≤ db.headBlockTime := by
  rcases Option.filter_eq_some_iff.1 first with ⟨chosen, due⟩
  rcases List.mem_filter.1 (mem_of_firstBy chosen) with ⟨member, waits⟩
  exact ⟨ExtTreeMap.mem_toList_iff_getElem?_eq_some.1 member, by
    simpa using waits, of_decide_eq_true due⟩

theorem Swept.round
    {state next : Database}
    (swept : Swept db state)
    (found : state.escrows.find? id = some escrow)
    (waits : escrow.isApproved = false)
    (due : escrow.ratificationDeadline ≤ state.headBlockTime)
    (acted : state.returnEscrow escrow.fromAccount id escrow = .ok next) :
    Swept db next := by
  rcases returned_escrow acted with ⟨rows, balances⟩
  constructor
  case time =>
    have head := headOf_of_agrees
      (touches_returnEscrow state _ _ _ next acted) rfl
    exact (congrArg (fun head => head.2.2) head).trans swept.time
  case rows =>
    intro other
    rw [rows, Table.find?_remove]
    split
    case isTrue same =>
      subst same
      refine .inr ⟨rfl, ?_⟩
      intro before there
      rcases swept.rows id with kept | ⟨gone, -⟩
      · rw [found, there] at kept
        cases kept
        exact ⟨waits, swept.time ▸ due⟩
      · rw [found] at gone
        cases gone
    case isFalse => exact swept.rows other
  case balances =>
    intro name
    have before := swept.balances name
    rw [balances, rows, Table.sumOf_remove _ found]
    change _ + dueTo name escrow = _
    omega

theorem swept_expireEscrowRatification
    (done : db.expireEscrowRatification = .ok after) :
    Swept db after := by
  refine drain_invariant (Swept db) ?_ done (Swept.start db)
  rintro ⟨id, escrow⟩ state next first acted swept
  rcases mem_of_firstUnratified first with ⟨found, waits, due⟩
  exact swept.round found waits due acted

/-! ## What the events do -/

theorem escrows_of_agrees
    {fields : List Field}
    (agrees : Agrees fields db after)
    (separate : apart [.escrows] fields = true) :
    after.escrows = db.escrows :=
  agrees.read_eq separate (List.mem_singleton.2 rfl)

theorem EscrowTaken.step_row
    {chosen : EscrowObject}
    (taken : EscrowTaken db event after target chosen row)
    (found : db.escrows.find? id = some escrow) :
    EscrowStep db.headBlockTime escrow event (db.approvalsOf event id)
      (after.escrows.find? id) := by
  rw [taken.rows]
  split
  case isTrue same =>
    subst same
    rw [taken.found] at found
    cases found
    exact taken.step
  case isFalse different =>
    rw [found, taken.signed id different]
    exact .idle event

/-- Every operation takes each escrow by a step of the protocol. -/
theorem escrowStep_applyOperation
    {op : Operation}
    (fees : db.FeesPaid)
    (valid : op.validate ext = .ok ())
    (done : db.applyOperation ext op = .ok after)
    (found : db.escrows.find? id = some escrow) :
    EscrowStep db.headBlockTime escrow (.operation op)
      (db.approvalsOf (.operation op) id) (after.escrows.find? id) := by
  have agrees := touches_applyOperation ext db op after done
  have idle : after.escrows.find? id = db.escrows.find? id →
      EscrowStep db.headBlockTime escrow (.operation op) []
        (after.escrows.find? id) := by
    intro same
    rw [same, found]
    exact .idle _
  cases op with
  | escrowTransfer op =>
      refine idle ?_
      rw [(opened_escrowTransfer valid done).1, Table.find?_emplace, if_neg]
      rintro rfl
      rw [Table.find?_nextId] at found
      cases found
  | escrowApprove op =>
      rcases taken_escrowApprove valid done with ⟨_, _, _, taken⟩
      exact taken.step_row found
  | escrowDispute op =>
      rcases taken_escrowDispute done with ⟨_, _, _, taken⟩
      exact taken.step_row found
  | escrowRelease op =>
      rcases taken_escrowRelease fees done with ⟨_, _, _, taken⟩
      exact taken.step_row found
  | _ => exact idle (by rw [escrows_of_agrees agrees rfl])

/-- The end of a block leaves an escrow or, if not all approved it, sweeps it. -/
theorem escrows_finishBlock
    {header : BlockHeader}
    (done : db.finishBlock ext header = .ok after)
    (id : Nat) :
    after.escrows.find? id = db.escrows.find? id ∨
      after.escrows.find? id = none ∧
        ∀ escrow, db.escrows.find? id = some escrow →
          escrow.isApproved = false := by
  have each : EachStep ext header (fun _ _ => True) blockSteps db :=
    eachStep_of_forall (fun _ _ => trivial) _ _
  refine foldlM_runStep_invariant
    (fun state => state.escrows.find? id = db.escrows.find? id ∨
      state.escrows.find? id = none ∧
        ∀ escrow, db.escrows.find? id = some escrow →
          escrow.isApproved = false) ?_ each done (.inl rfl)
  intro state step next _ ran start
  have agrees := touches_runStep ext header state step next ran
  have swept : Swept state next ∨ next.escrows = state.escrows := by
    cases step with
    | expireEscrowRatification =>
        exact .inl (swept_expireEscrowRatification ran)
    | _ => exact .inr (escrows_of_agrees agrees rfl)
  rcases swept with swept | same
  · rcases swept.rows id with kept | ⟨gone, waits⟩
    · rw [kept]
      exact start
    · refine .inr ⟨gone, fun escrow found => ?_⟩
      rcases start with same | ⟨-, waited⟩
      · exact (waits escrow (same.trans found)).1
      · exact waited escrow found
  · rw [same]
    exact start

/-- Every event takes each escrow by a step of the protocol. -/
theorem escrowStep_step
    (fees : db.FeesPaid)
    (done : db.step ext event = .ok after)
    (found : db.escrows.find? id = some escrow) :
    EscrowStep db.headBlockTime escrow event (db.approvalsOf event id)
      (after.escrows.find? id) := by
  cases event with
  | operation op =>
      simp only [step, bind_eq_ok_iff] at done
      rcases done with ⟨_, valid, done⟩
      exact escrowStep_applyOperation fees valid done found
  | beginBlock header =>
      rw [escrows_of_agrees (touches_beginBlock db header after done) rfl,
        found]
      exact .idle _
  | finishBlock header =>
      rcases escrows_finishBlock done id with kept | ⟨gone, waits⟩
      · rw [kept, found]
        exact .idle _
      · rw [gone]
        exact .expire header (waits escrow found)

/-- A step on an escrow opens none. -/
theorem EscrowTaken.absent
    {chosen : EscrowObject}
    (taken : EscrowTaken db event after target chosen row)
    (absent : db.escrows.find? id = none) :
    after.escrows.find? id = none := by
  rw [taken.rows, if_neg, absent]
  rintro rfl
  rw [taken.found] at absent
  cases absent

/-- An escrow which was not there is opened by a transfer, and is the next. -/
theorem opened_step
    (fees : db.FeesPaid)
    (done : db.step ext event = .ok after)
    (absent : db.escrows.find? id = none)
    (found : after.escrows.find? id = some escrow) :
    ∃ op, event = .operation (.escrowTransfer op) ∧
      op.validate ext = .ok () ∧ id = db.escrows.nextId ∧
        escrow = newEscrow op := by
  have idle : ∀ {conclusion : Prop}, after.escrows.find? id = none →
      conclusion := by
    intro _ none
    rw [none] at found
    cases found
  cases event with
  | operation op =>
      simp only [step, bind_eq_ok_iff] at done
      rcases done with ⟨_, valid, done⟩
      have agrees := touches_applyOperation ext db op after done
      cases op with
      | escrowTransfer op =>
          rw [(opened_escrowTransfer valid done).1, Table.find?_emplace]
            at found
          split at found
          case isTrue same =>
            cases found
            exact ⟨op, rfl, valid, same.symm, rfl⟩
          case isFalse =>
            rw [absent] at found
            cases found
      | escrowApprove op =>
          rcases taken_escrowApprove valid done with ⟨_, _, _, taken⟩
          exact idle (taken.absent absent)
      | escrowDispute op =>
          rcases taken_escrowDispute done with ⟨_, _, _, taken⟩
          exact idle (taken.absent absent)
      | escrowRelease op =>
          rcases taken_escrowRelease fees done with ⟨_, _, _, taken⟩
          exact idle (taken.absent absent)
      | _ => exact idle (by rw [escrows_of_agrees agrees rfl, absent])
  | beginBlock header =>
      refine idle ?_
      rw [escrows_of_agrees (touches_beginBlock db header after done) rfl,
        absent]
  | finishBlock header =>
      rcases escrows_finishBlock done id with kept | ⟨gone, -⟩
      · exact idle (kept.trans absent)
      · exact idle gone

end Operations

end Database

/-! ## Runs -/

/-- The operation by which an event opens the escrow with an id. -/
def openedAt (db : Database) (id : Nat) :
    Event → Option EscrowTransferOperation
  | .operation (.escrowTransfer op) =>
      if id = db.escrows.nextId then some op else none
  | _ => none

/-- What an event credits from the escrow with an id. -/
def creditsFrom (db : Database) (event : Event) (after : Database)
    (id : Nat) : List EscrowCredit :=
  match db.escrows.find? id with
  | some escrow => creditsOf escrow event (after.escrows.find? id)
  | none => []

/-- The histories of the escrows after an event. -/
def historyAfter (history : Nat → Option EscrowHistory) (db : Database)
    (event : Event) (after : Database) (id : Nat) : Option EscrowHistory :=
  match openedAt db id event with
  | some op => some ⟨op, [], []⟩
  | none => (history id).map fun past =>
      { past with
        credits := past.credits ++ creditsFrom db event after id
        approvals := past.approvals ++ db.approvalsOf event id }

/-- The runs from genesis, with the histories of all escrows. -/
def EscrowRun (ext : External) :
    (Nat → Option EscrowHistory) → Option BlockHeader → Database → Prop :=
  RecordedRun ext (fun _ _ => True) (fun _ => none) historyAfter

/-- Every escrow has a history, and every history is sound. -/
structure EscrowsBooked (history : Nat → Option EscrowHistory)
    (db : Database) : Prop where
  sound : ∀ id past, history id = some past →
    EscrowSound past (db.escrows.find? id)
  known : ∀ id escrow, db.escrows.find? id = some escrow →
    ∃ past, history id = some past

theorem EscrowsBooked.feesPaid
    {history : Nat → Option EscrowHistory}
    {db : Database}
    (booked : EscrowsBooked history db) :
    db.FeesPaid := by
  intro id escrow found approved
  rcases booked.known id escrow found with ⟨past, recorded⟩
  have sound := booked.sound id past recorded
  rw [found] at sound
  exact (sound.paid approved).2.1

/-- A new escrow holds all that was put in. -/
theorem EscrowSound.opened
    (op : EscrowTransferOperation) :
    EscrowSound ⟨op, [], []⟩ (some (Database.newEscrow op)) := by
  constructor
  case total =>
    simp [creditSum, fundsIn, feeIn, Database.newEscrow]
  case funds =>
    intro credit member
    cases member
  case fee => exact .inl ⟨_, rfl, rfl, rfl, rfl⟩
  case terms =>
    intro escrow same
    cases same
    exact ⟨rfl, rfl, rfl, rfl⟩
  case flags =>
    intro escrow same
    cases same
    exact ⟨iff_of_false Bool.false_ne_true List.not_mem_nil,
      iff_of_false Bool.false_ne_true List.not_mem_nil⟩

/-- Nobody approves what is not there. -/
theorem approvalsOf_absent
    {db : Database}
    (absent : db.escrows.find? id = none) :
    db.approvalsOf event id = [] := by
  unfold Database.approvalsOf
  split
  case h_1 op =>
    split
    case h_1 chosen escrow got =>
      refine if_neg ?_
      rintro ⟨rfl, -⟩
      rw [Database.find_of_getEscrow got] at absent
      cases absent
    case h_2 => rfl
  case h_2 => rfl

theorem openedAt_eq_some_iff
    {db : Database}
    {op : EscrowTransferOperation} :
    openedAt db id event = some op ↔
      event = .operation (.escrowTransfer op) ∧ id = db.escrows.nextId := by
  unfold openedAt
  split
  case h_1 other =>
    split
    case isTrue same => simp [same]
    case isFalse different => simp [different]
  case h_2 others =>
    refine iff_of_false (by simp) ?_
    rintro ⟨rfl, -⟩
    exact others op rfl

/-- The histories stay sound. -/
theorem EscrowsBooked.step
    {history : Nat → Option EscrowHistory}
    {db after : Database}
    (booked : EscrowsBooked history db)
    (stepped : db.step ext event = .ok after) :
    EscrowsBooked (historyAfter history db event after) after := by
  have fees := booked.feesPaid
  constructor
  case sound =>
    intro id past recorded
    unfold historyAfter at recorded
    split at recorded
    case h_1 op opened =>
      rcases openedAt_eq_some_iff.1 opened with ⟨rfl, rfl⟩
      simp only [Database.step, bind_eq_ok_iff] at stepped
      rcases stepped with ⟨_, valid, done⟩
      cases recorded
      rw [(Database.opened_escrowTransfer valid done).1, Table.find?_emplace,
        if_pos rfl]
      exact .opened op
    case h_2 unopened =>
      rcases Option.map_eq_some_iff.1 recorded with ⟨before, was, rfl⟩
      have sound := booked.sound id before was
      unfold creditsFrom
      cases found : db.escrows.find? id with
      | some escrow =>
          rw [found] at sound
          exact sound.step (Database.escrowStep_step fees stepped found)
      | none =>
          have none : after.escrows.find? id = none := by
            cases there : after.escrows.find? id with
            | none => rfl
            | some escrow =>
                rcases Database.opened_step fees stepped found there with
                  ⟨op, rfl, -, same, -⟩
                rw [openedAt_eq_some_iff.2 ⟨rfl, same⟩] at unopened
                cases unopened
          rw [found] at sound
          simpa [none, approvalsOf_absent found] using sound
  case known =>
    intro id escrow found
    unfold historyAfter
    cases opened : openedAt db id event with
    | some op => exact ⟨_, rfl⟩
    | none =>
        cases there : db.escrows.find? id with
        | some before =>
            rcases booked.known id before there with ⟨past, recorded⟩
            rw [recorded]
            exact ⟨_, rfl⟩
        | none =>
            rcases Database.opened_step fees stepped there found with
              ⟨op, rfl, -, same, -⟩
            rw [openedAt_eq_some_iff.2 ⟨rfl, same⟩] at opened
            cases opened

theorem EscrowRun.booked
    {history : Nat → Option EscrowHistory}
    {block : Option BlockHeader}
    {db : Database}
    (run : EscrowRun ext history block db) :
    EscrowsBooked history db := by
  refine RecordedRun.invariant EscrowsBooked ?_ ?_ run
  · constructor
    · intro id past recorded
      cases recorded
    · intro id escrow found
      cases found
  · intro history db event after _ stepped booked
    exact booked.step stepped

/-! ## The rules -/

/-- The rules which every step on an escrow follows. -/
structure EscrowRules (now : Time) (escrow : EscrowObject) (event : Event)
    (row : Option EscrowObject) : Prop where
  /-- What all have approved is not rejected, but only released. -/
  final : escrow.isApproved = true →
    (∃ left, row = some left ∧ left.isApproved = true) ∨
      row = none ∧ ∃ op, event = .operation (.escrowRelease op) ∧
        op.bmtAmount.amount = escrow.bmtBalance
  /-- The fee leaves an escrow which remains only once all have approved. -/
  ratified : ∀ left, row = some left →
    left.pendingFee ≠ escrow.pendingFee → left.isApproved = true
  /-- A dispute is not withdrawn. -/
  disputed : escrow.disputed = true → ∀ left, row = some left →
    left.disputed = true
  /-- Only the agent releases after a dispute, and only to the other party one
  of the two before a dispute and the expiration. -/
  released : ∀ op, event = .operation (.escrowRelease op) →
    row ≠ some escrow →
      escrow.isApproved = true ∧
        (escrow.disputed = true → op.who = escrow.agent) ∧
        (escrow.disputed = false → now < escrow.escrowExpiration →
          op.who = escrow.fromAccount ∧ op.receiver = escrow.toAccount ∨
            op.who = escrow.toAccount ∧ op.receiver = escrow.fromAccount)

theorem EscrowStep.rules
    (step : EscrowStep now escrow event signed row) :
    EscrowRules now escrow event row := by
  cases step with
  | idle event =>
      refine ⟨fun approved => .inl ⟨escrow, rfl, approved⟩, ?_, ?_, ?_⟩
      · rintro left ⟨⟩ different
        exact absurd rfl different
      · rintro disputed left ⟨⟩
        exact disputed
      · exact fun op _ changed => absurd rfl changed
  | approve op receiver agent waits incomplete =>
      refine ⟨fun approved => ?_, ?_, ?_, ?_⟩
      · rw [waits] at approved
        cases approved
      · rintro left ⟨⟩ different
        exact absurd rfl different
      · rintro disputed left ⟨⟩
        exact disputed
      · rintro op ⟨⟩
  | ratify op receiver agent waits willing complete =>
      refine ⟨fun approved => ?_, ?_, ?_, ?_⟩
      · rw [waits] at approved
        cases approved
      · rintro left ⟨⟩ _
        exact complete
      · rintro disputed left ⟨⟩
        exact disputed
      · rintro op ⟨⟩
  | reject op waits unwilling =>
      refine ⟨fun approved => ?_, ?_, ?_, ?_⟩
      · rw [waits] at approved
        cases approved
      · rintro left ⟨⟩
      · rintro disputed left ⟨⟩
      · rintro op ⟨⟩
  | dispute op approved =>
      refine ⟨fun _ => .inl ⟨_, rfl, approved⟩, ?_, ?_, ?_⟩
      · rintro left ⟨⟩ different
        exact absurd rfl different
      · rintro disputed left ⟨⟩
        rfl
      · rintro op ⟨⟩
  | release op approved receiver byAgent toOther row left =>
      have remains : ∀ other, row = some other →
          other = { escrow with
            bmtBalance := escrow.bmtBalance - op.bmtAmount.amount } := by
        intro other same
        rw [left] at same
        split at same
        · cases same
        · exact (Option.some.inj same).symm
      refine ⟨fun _ => ?_, ?_, ?_, ?_⟩
      · cases same : row with
        | some other =>
            refine .inl ⟨other, rfl, ?_⟩
            rw [remains other same]
            exact approved
        | none =>
            rw [same] at left
            refine .inr ⟨rfl, op, rfl, ?_⟩
            split at left
            case isTrue whole => exact (Int.sub_eq_zero.1 whole).symm
            case isFalse => cases left
      · intro other same different
        rw [remains other same] at different
        exact absurd rfl different
      · intro disputed other same
        rw [remains other same]
        exact disputed
      · rintro other ⟨⟩ _
        exact ⟨approved, byAgent, toOther⟩
  | expire header waits =>
      refine ⟨fun approved => ?_, ?_, ?_, ?_⟩
      · rw [waits] at approved
        cases approved
      · rintro left ⟨⟩
      · rintro disputed left ⟨⟩
      · rintro op ⟨⟩

namespace Database

theorem EscrowTaken.pays
    {db after : Database}
    (taken : EscrowTaken db event after id escrow row) :
    ∃ id escrow, db.escrows.find? id = some escrow ∧
      (∀ other, id ≠ other →
        after.escrows.find? other = db.escrows.find? other) ∧
      ∀ name, after.held AccountObject.balance name =
        db.held AccountObject.balance name +
          creditedTo name (creditsOf escrow event
            (after.escrows.find? id)) := by
  refine ⟨id, escrow, taken.found, ?_, ?_⟩
  · intro other different
    rw [taken.rows, if_neg different]
  · intro name
    rw [taken.rows, if_pos rfl]
    exact taken.balances name

end Database

end BMChain.State
