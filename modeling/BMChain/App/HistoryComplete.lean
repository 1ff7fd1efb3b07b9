import BMChain.App.Impacted
import BMChain.State.ContentOrder

/-!
# The history of balances

Every evaluator is followed by the purses it names and the virtual operations
it pushes.  All of them are on the list of the operation or of a virtual
operation, but for the owner of an order which the author of the content
cancels.
-/

namespace BMChain.App

open BMChain.Foundation BMChain.Protocol BMChain.State

variable {op : Operation} {name : AccountName} {fields : List Field}

variable {options : HistoryOptions} {entries : List Entry} {ext : External}

/-! ## Entries in the history -/

theorem mem_onOperation
    {history : History}
    (unranged : options.trackedAccounts = [])
    (unfiltered : options.filterContent = false)
    (impacted : name ∈ operationGetImpactedAccounts op) :
    (name, op) ∈ onOperation options history op := by
  refine List.mem_append_right _ (List.mem_map.2 ⟨name, ?_, rfl⟩)
  refine List.mem_filter.2 ⟨List.mem_dedup.2 impacted, ?_⟩
  simp [HistoryOptions.tracks, HistoryOptions.passes, unranged, unfiltered]

theorem mem_history
    {notices : List Operation}
    (unranged : options.trackedAccounts = [])
    (unfiltered : options.filterContent = false)
    (impacted : name ∈ operationGetImpactedAccounts op)
    (history : History)
    (known : op ∈ notices ∨ (name, op) ∈ history) :
    (name, op) ∈ notices.foldl (onOperation options) history := by
  induction notices generalizing history with
  | nil =>
      rcases known with member | known
      · cases member
      · exact known
  | cons notice rest induction =>
      refine induction (onOperation options history notice) ?_
      rcases known with member | known
      · rcases List.mem_cons.1 member with rfl | later
        · exact .inr (mem_onOperation unranged unfiltered impacted)
        · exact .inl later
      · exact .inr (List.mem_append_left _ known)

/-! ## Purses and entries -/

/-- The account whose purse an entry changes. -/
def entryNames : Entry → List AccountName
  | .purse name _ _ => [name]
  | .openPurse name => [name]
  | _ => []

/-- Posting the entry leaves the purse of the account as it was. -/
def Untouched (name : AccountName) (entry : Entry) : Prop :=
  ∀ ledger : Ledger,
    (ledger.post entry).purses[name]? = ledger.purses[name]?

theorem untouched_of_other
    {entry : Entry}
    (other : name ∉ entryNames entry) :
    Untouched name entry := by
  intro ledger
  cases entry with
  | purse target kind amount =>
      have different : target ≠ name := by
        rintro rfl
        exact other List.mem_cons_self
      rw [Ledger.post, Std.ExtTreeMap.getElem?_modify, if_neg]
      exact fun same => different (Std.compare_eq_iff_eq.1 same)
  | openPurse target =>
      have different : target ≠ name := by
        rintro rfl
        exact other List.mem_cons_self
      simp only [Ledger.post, getElem?_place, if_neg different]
  | _ => rfl

theorem untouched_of_zero
    (name target : AccountName)
    (kind : Holding) :
    Untouched name (.purse target kind 0) := by
  intro ledger
  rw [Ledger.post, Std.ExtTreeMap.getElem?_modify]
  split
  case isTrue same =>
    rw [← Std.compare_eq_iff_eq.1 same]
    simp
  case isFalse => rfl

theorem purses_of_posts
    {before after : Ledger}
    (posted : Posts before entries after)
    (others : ∀ entry ∈ entries, Untouched name entry) :
    after.purses[name]? = before.purses[name]? := by
  induction posted with
  | nil => rfl
  | cons _ _ induction =>
      rcases List.forall_mem_cons.1 others with ⟨first, rest⟩
      rw [induction rest, first]

theorem balancesOf_eq
    (db : Database)
    (name : AccountName) :
    balancesOf db name = db.ledger.purses[name]?.map fun purse =>
      (purse .balance, purse .savings, purse .rewardBmt, purse .rewardShares,
        purse .shares) := by
  simp only [balancesOf, Database.ledger, Std.ExtTreeMap.getElem?_map,
    Option.map_map]
  rfl

theorem holding_balance
    (db : Database)
    (name : AccountName) :
    db.ledger.holding name .balance =
      ((balancesOf db name).map Prod.fst).getD 0 := by
  rw [balancesOf_eq, Option.map_map]
  rfl

/-! ## What is accounted for -/

/--
The states differ by entries which name listed accounts, or accounts which the
virtual operations pushed meanwhile impact.
-/
def Accounted (names : List AccountName) (db after : Database) : Prop :=
  ∃ entries pushed,
    Posts db.ledger entries after.ledger ∧
      after.virtualOperations = pushed ++ db.virtualOperations ∧
        ∀ entry ∈ entries, ∀ name ∈ entryNames entry,
          name ∈ names ∨ ∃ op ∈ pushed, name ∈ impactedByVirtual op

instance (names : List AccountName) :
    IsPreorder Database (Accounted names) where
  refl := fun _ => ⟨[], [], .nil _, rfl, fun _ member => nomatch member⟩
  trans := by
    rintro db middle after ⟨first, old, posted, pushed, listed⟩
      ⟨second, new, more, further, also⟩
    refine ⟨first ++ second, new ++ old, posted.append more, ?_, ?_⟩
    · rw [further, pushed, List.append_assoc]
    · intro entry member name named
      rcases List.mem_append.1 member with early | late
      · rcases listed entry early name named with here | ⟨op, in_old, there⟩
        · exact .inl here
        · exact .inr ⟨op, List.mem_append_right _ in_old, there⟩
      · rcases also entry late name named with here | ⟨op, in_new, there⟩
        · exact .inl here
        · exact .inr ⟨op, List.mem_append_left _ in_new, there⟩

section Accounts

variable {names : List AccountName} {db after : Database}

theorem Accounted.of_eq
    (same : after.ledger = db.ledger)
    (silent : after.virtualOperations = db.virtualOperations) :
    Accounted names db after :=
  ⟨[], [], same ▸ .nil _, silent, fun _ member => nomatch member⟩

theorem Accounted.of_agrees
    (agrees : Agrees fields db after)
    (separate : apart [.virtualOperations] fields = true)
    (same : after.ledger = db.ledger) :
    Accounted names db after :=
  .of_eq same (agrees.read_eq separate List.mem_cons_self)

theorem Accounted.of_posts
    (agrees : Agrees fields db after)
    (separate : apart [.virtualOperations] fields = true)
    (posted : Posts db.ledger entries after.ledger)
    (listed : ∀ entry ∈ entries, ∀ name ∈ entryNames entry, name ∈ names) :
    Accounted names db after :=
  ⟨entries, [], posted, agrees.read_eq separate List.mem_cons_self,
    fun entry member name named => .inl (listed entry member name named)⟩

/-- A computation which the ledger does not see and which pushes nothing. -/
theorem accounted_of_keeps
    {result : Except Fault Database}
    (kept : KeepsLedger db result)
    (touches : Touches fields db result)
    (separate : apart [.virtualOperations] fields = true) :
    Respects (Accounted names) db result := by
  intro after done
  exact .of_agrees (touches after done) separate (kept after done)

/-- Whose balances changed is on the list or impacted by what was pushed. -/
theorem Accounted.complete
    (accounted : Accounted (operationGetImpactedAccounts op) db after) :
    HistoryComplete op db after := by
  intro name differs
  rcases accounted with ⟨entries, pushed, posted, grown, listed⟩
  have between : pushedBetween db after = pushed.reverse := by
    simp [pushedBetween, grown]
  have named : ∃ entry ∈ entries, name ∈ entryNames entry := by
    by_contra none
    refine differs ?_
    rw [balancesOf_eq, balancesOf_eq, purses_of_posts posted]
    exact fun entry member =>
      untouched_of_other fun named => none ⟨entry, member, named⟩
  rcases named with ⟨entry, member, named⟩
  have notice : ∃ notice ∈ notifications op db after,
      name ∈ operationGetImpactedAccounts notice := by
    rcases listed entry member name named with here | ⟨virtual, new, there⟩
    · exact ⟨op, List.mem_cons_self, here⟩
    · refine ⟨.virtual virtual, List.mem_cons_of_mem _ ?_, there⟩
      rw [between]
      exact List.mem_map_of_mem (List.mem_reverse.2 new)
  rcases notice with ⟨notice, known, impacted⟩
  exact ⟨notice, known, impacted, fun options history unranged unfiltered =>
    mem_history unranged unfiltered impacted history (.inl known)⟩

end Accounts

/-! ## Emissions -/

section Emissions

variable {names : List AccountName}

/-- An emission pays the producer, whose virtual operation it pushes. -/
theorem accounted_processFunds
    (db : Database)
    (newBmt : Int) :
    Respects (Accounted names) db (db.processFundsBmchain newBmt) := by
  intro after done
  unfold Database.processFundsBmchain at done
  split at done
  case isTrue stopped =>
    cases done
    exact refl_of (Accounted names) db
  case isFalse running =>
    simp only [bind_eq_ok_iff, checked_eq_ok_iff, pure_eq_ok_iff] at done
    rcases done with
      ⟨⟨funded, used⟩, fund, _, ⟨-, rfl⟩, witness, found, paid, pay, _,
        ⟨-, rfl⟩, _, ⟨-, rfl⟩, _, ⟨-, rfl⟩, daily, -, rfl⟩
    have silent : paid.virtualOperations = db.virtualOperations := by
      rcases Database.rewardFunds_of_payRewardFunds fund with ⟨funds, rfl⟩
      rcases Database.accounts_of_modifyAccount pay with ⟨accounts, rfl⟩
      rfl
    rcases Database.posts_payRewardFunds fund with
      ⟨⟨deposits, posted, rfl⟩, -⟩
    refine ⟨_, [.producerReward witness.owner
      (bmt (newBmt - Database.deposited deposits))],
      posted.append ((Database.posts_addBalance pay).append
        (Database.posts_props (paid.pushVirtualOperation
          (.producerReward witness.owner
            (bmt (newBmt - Database.deposited deposits)))) _
          [(.supply, Database.deposited deposits +
            (newBmt - Database.deposited deposits))]
          (by funext kind; cases kind <;> rfl))),
      congrArg _ silent, ?_⟩
    intro entry member name named
    simp only [List.mem_append, Database.fundEntries, List.mem_map,
      List.mem_singleton] at member
    rcases member with ⟨deposit, -, rfl⟩ | rfl | other
    · cases named
    · exact .inr ⟨_, List.mem_cons_self, named⟩
    · rcases List.mem_map.1 other with ⟨credit, -, rfl⟩
      cases named

theorem accounted_storeComment
    (db : Database)
    (op : CommentOperation)
    (comment : CommentObject) :
    Respects (Accounted names) db (db.storeComment op comment) := by
  refine .read fun _ _ => .read fun _ _ => .read fun comments _ => ?_
  have stored : Accounted names db { db with comments := comments } :=
    .of_eq rfl rfl
  refine .after (.bind ?_ fun told => accounted_processFunds told _) stored
  refine accounted_of_keeps (Database.keeps_updateParents _ _ _ _ _)
    (Database.touches_updateParents _ _ _ _ _) ?_
  rfl

theorem accounted_comment
    (ext : External)
    (db : Database)
    (op : CommentOperation) :
    Respects (Accounted names) db (db.commentEvaluator ext op) := by
  refine .read ?_
  rintro ⟨author, parent⟩ -
  dsimp only
  split
  · refine .read fun _ _ => .read fun _ _ => .bind ?_ ?_
    · exact accounted_of_keeps (Database.keeps_countPost db op)
        (Database.touches_countPost db op) rfl
    · exact fun counted => accounted_storeComment counted op _
  · exact accounted_of_keeps (Database.keeps_editComment ext db _ op)
      (Database.touches_editComment ext db _ op) rfl

theorem accounted_castVote
    (ext : External)
    (db : Database)
    (op : VoteOperation)
    (voter : AccountObject)
    (id : Nat)
    (comment : CommentObject)
    (power : Database.VotePower) :
    Respects (Accounted names) db
      (db.castVote ext op voter id comment power) := by
  refine .read fun _ _ => .read fun _ _ => .bind ?_ fun spent => ?_
  · refine accounted_of_keeps
      (Database.keeps_modifyAccount_pure db op.voter fun _ => rfl)
      (Database.touches_spendVotePower db op.voter power) ?_
    rfl
  refine .read fun _ _ => .read fun _ _ => ?_
  refine .read fun net _ => .read fun abs _ => .read fun upvotes _ => ?_
  refine .bind ?_ fun counted => .read fun weights _ => ?_
  · intro after done
    have kept := Database.keeps_modifyComment _ _ _ after done
    have agrees := Database.touches_addChildrenRshares _ _ _ after done
    exact .of_eq kept (agrees .virtualOperations (by decide))
  refine .bind ?_ fun weighed => accounted_processFunds weighed _
  intro after done
  have kept := Database.keeps_modifyComment _ _ _ after done
  have agrees := Database.touches_modifyComment _ _ _ after done
  exact .of_eq kept (agrees .virtualOperations (by decide))

theorem accounted_vote
    (ext : External)
    (db : Database)
    (op : VoteOperation) :
    Respects (Accounted names) db (db.voteEvaluator ext op) := by
  refine .read fun _ _ => .read fun _ _ => .read fun _ _ => ?_
  refine .read fun _ _ => .read fun _ _ => .read fun _ _ => ?_
  split
  · exact .unchanged
  · refine .read fun _ _ => ?_
    split
    · exact accounted_castVote ext db op _ _ _ _
    · exact accounted_of_keeps (Database.keeps_changeVote db op _ _ _ _ _)
        (Database.touches_changeVote db op _ _ _ _ _) rfl

/-- Encrypted content pays its author, then emits. -/
theorem accounted_encryptedContent
    (ext : External)
    (db : Database)
    (op : EncryptedContentOperation) :
    Respects (Accounted [op.author]) db
      (db.encryptedContentEvaluator ext op) := by
  refine .read ?_
  rintro ⟨author, parent⟩ -
  refine .bind ?_ fun middle => ?_
  · split
    · intro after done
      rcases Database.posts_settleOrder done with ⟨order, -, -, posted⟩
      refine .of_posts (Database.touches_settleOrder db _ _ after done) rfl
        posted ?_
      simp [entryNames]
    · exact .unchanged
  · split
    · refine .read fun _ _ => .read fun _ _ => .bind ?_ fun counted => ?_
      · exact accounted_of_keeps (Database.keeps_countPost middle _)
          (Database.touches_countPost middle _) rfl
      · exact .read fun comment _ => accounted_storeComment counted _ comment
    · exact accounted_of_keeps (Database.keeps_editComment ext middle _ _)
        (Database.touches_editComment ext middle _ _) rfl

/-- A new account costs its creator a fee and emits. -/
theorem accounted_accountCreate
    (ext : External)
    (db : Database)
    (op : AccountCreateOperation) :
    Respects (Accounted [op.newAccountName, op.creator]) db
      (db.accountCreateEvaluator ext op) := by
  intro after applied
  simp only [Database.accountCreateEvaluator, Asset.inSymbol_eq_ok_iff,
    bind_eq_ok_iff] at applied
  rcases applied with
    ⟨_, -, _, ⟨-, rfl⟩, _, -, _, -, _, -, _, -, _, -, _, -, debited, debit,
      avatar, -, accounts, created, authorities, -, funded, fund, emitted⟩
  have first := Database.posts_addBalance debit
  have opened := Database.posts_createAccount created
    (by intro id kind; cases kind <;> rfl)
  rcases Database.posts_payFee fund with ⟨deposits, paid, -⟩
  have silent := Database.touches_payFee _ _ funded fund .virtualOperations
    (by decide)
  refine trans_of (Accounted _) ?_ (accounted_processFunds _ _ after emitted)
  refine ⟨_, [], first.append (opened.append paid), ?_, ?_⟩
  · rcases Database.accounts_of_modifyAccount debit with ⟨before, rfl⟩
    exact silent
  · intro entry member name named
    simp only [List.mem_append, List.mem_singleton, Database.fundEntries,
      List.mem_map] at member
    rcases member with rfl | rfl | ⟨deposit, -, rfl⟩
    · exact .inl (List.mem_cons_of_mem _ named)
    · rw [List.mem_singleton.1 named]
      exact .inl List.mem_cons_self
    · cases named

end Emissions

/-! ## The operations -/

/-- A new order is never matched, so it pushes nothing. -/
theorem accounted_createOrder
    {db after : Database}
    {owner : AccountName}
    {orderid : Nat}
    {amountToSell : Asset}
    {getPrice : Except Fault Price}
    {fillOrKill : Bool}
    {expiration : Time}
    (applied : db.createOrder owner orderid amountToSell getPrice fillOrKill
      expiration = .ok after) :
    Accounted [owner] db after := by
  rcases Database.posts_createOrder applied with ⟨id, price, -, -, posted⟩
  simp only [Database.createOrder, bind_eq_ok_iff, pure_eq_ok_iff] at applied
  rcases applied with
    ⟨_, -, _, -, _, -, _, -, _, -, debited, debit, _, -, _, -,
      ⟨final, filled⟩, applied, _, -, rfl⟩
  refine ⟨_, [], posted, ?_, ?_⟩
  · rw [Database.applyOrder_eq applied]
    rcases Database.accounts_of_modifyAccount debit with ⟨accounts, rfl⟩
    rfl
  · simp [entryNames]

theorem accounted_limitOrderCancel
    {db after : Database}
    {op : LimitOrderCancelOperation}
    (applied : db.limitOrderCancelEvaluator op = .ok after) :
    Accounted [op.owner] db after := by
  rcases Database.posts_limitOrderCancel applied with ⟨id, order, -, posted⟩
  simp only [Database.limitOrderCancelEvaluator, bind_eq_ok_iff] at applied
  rcases applied with ⟨⟨id, order⟩, -, canceled⟩
  refine .of_posts (Database.touches_cancelOrder _ _ _ after canceled) rfl
    posted ?_
  simp [entryNames]

/-- The order which the author of the content cancels costs nothing or is its own. -/
def RefundsAuthor (db : Database) : Operation → Prop
  | .contentOrderCancelByAuthor op =>
      Database.usingCloseContent ≤ db.headBlockNum →
        ∀ order, db.contentOrders.find? op.orderId = some order →
          order.owner = op.author ∨ order.price = 0
  | _ => True

/-- The operations other than the one which refunds a stranger. -/
theorem accounted_applyOperation
    {db after : Database}
    (valid : op.validate ext = .ok ())
    (applied : db.applyOperation ext op = .ok after)
    (other :
      match op with
      | .contentOrderCancelByAuthor _ => False
      | _ => True) :
    Accounted (operationGetImpactedAccounts op) db after := by
  have agrees := Database.touches_applyOperation ext db op after applied
  cases op with
  | vote op => exact accounted_vote ext db op after applied
  | comment op => exact accounted_comment ext db op after applied
  | encryptedContent op =>
      exact accounted_encryptedContent ext db op after applied
  | accountCreate op => exact accounted_accountCreate ext db op after applied
  | transfer op =>
      refine .of_posts agrees rfl (Database.posts_transfer applied) ?_
      simp [entryNames, operationGetImpactedAccounts]
  | transferToSavings op =>
      refine .of_posts agrees rfl (Database.posts_transferToSavings applied) ?_
      simp [entryNames, operationGetImpactedAccounts]
  | cancelTransferFromSavings op =>
      rcases Database.posts_cancelTransferFromSavings applied with
        ⟨id, request, -, posted⟩
      refine .of_posts agrees rfl posted ?_
      simp [entryNames, operationGetImpactedAccounts, Operation.requiredActive]
  | claimRewardBalance op =>
      rcases Database.posts_claimRewardBalance applied with
        ⟨-, moved, -, -, -, posted⟩
      refine .of_posts agrees rfl posted ?_
      simp [entryNames, operationGetImpactedAccounts, Operation.requiredPosting]
  | escrowTransfer op =>
      rcases Database.posts_escrowTransfer valid applied with ⟨id, posted⟩
      refine .of_posts agrees rfl posted ?_
      simp [entryNames, operationGetImpactedAccounts]
  | escrowApprove op =>
      rcases Database.posts_escrowApprove applied with
        same | ⟨id, escrow, -, -, returned | paid⟩
      · exact .of_agrees agrees rfl same
      · refine .of_posts agrees rfl returned ?_
        simp [entryNames, operationGetImpactedAccounts]
      · refine .of_posts agrees rfl paid ?_
        simp [entryNames, operationGetImpactedAccounts]
  | escrowRelease op =>
      simp only [Operation.validate, EscrowReleaseOperation.validate,
        bind_eq_ok_iff, require_eq_ok_iff] at valid
      rcases valid with ⟨_, -, _, -, _, -, _, -, _, -, _, -, _, receiver, -⟩
      rcases Database.posts_escrowRelease applied with
        ⟨id, escrow, -, posted⟩
      refine .of_posts agrees rfl posted ?_
      simp only [entryNames, operationGetImpactedAccounts, List.mem_cons,
        List.not_mem_nil, or_false, forall_eq_or_imp, forall_eq,
        false_imp_iff, implies_true, and_true]
      exact receiver.imp_right .inl
  | limitOrderCreate op => exact accounted_createOrder applied
  | limitOrderCreate2 op => exact accounted_createOrder applied
  | limitOrderCancel op => exact accounted_limitOrderCancel applied
  | accountCreateWithDelegation op =>
      rcases Database.posts_accountCreateWithDelegation applied with
        ⟨vested, posted, ⟨-, rfl⟩ | ⟨shares, rfl⟩⟩
      · refine .of_posts agrees rfl posted ?_
        simp [entryNames, operationGetImpactedAccounts]
      · refine .of_posts agrees rfl posted ?_
        simp [entryNames, operationGetImpactedAccounts]
  | contentOrderCreate op =>
      rcases Database.posts_contentOrderCreate applied with
        ⟨rfl, -⟩ | ⟨-, id, order, -, posted⟩ | ⟨-, id, order, -, -, -, posted⟩
      · exact refl_of (Accounted _) _
      · refine .of_posts agrees rfl posted ?_
        simp [entryNames, operationGetImpactedAccounts]
      · refine .of_posts agrees rfl posted ?_
        simp [entryNames, operationGetImpactedAccounts]
  | contentOrderCancel op =>
      rcases Database.posts_contentOrderCancel applied with
        rfl | ⟨order, -, -, posted⟩
      · exact refl_of (Accounted _) _
      · refine .of_posts agrees rfl posted ?_
        simp [entryNames, operationGetImpactedAccounts]
  | customTokenCreate op =>
      rcases Database.posts_customTokenCreate applied with
        ⟨deposits, posted, -⟩
      refine .of_posts agrees rfl posted ?_
      rw [List.forall_mem_cons]
      constructor
      · simp [entryNames, operationGetImpactedAccounts, Operation.requiredOwner]
      · intro entry member name named
        rcases List.mem_map.1 member with ⟨deposit, -, rfl⟩
        cases named
  | contentOrderCancelByAuthor op => exact other.elim
  | _ =>
      exact .of_agrees agrees rfl
        (Database.keeps_applyOperation ext db _ rfl after applied)

/-- The refund of a canceled order is noted for its owner only as the author. -/
theorem complete_cancelByAuthor_iff
    {db after : Database}
    {op : ContentOrderCancelByAuthorOperation}
    (applied : db.applyOperation ext (.contentOrderCancelByAuthor op) =
      .ok after) :
    HistoryComplete (.contentOrderCancelByAuthor op) db after ↔
      RefundsAuthor db (.contentOrderCancelByAuthor op) := by
  have agrees := Database.touches_applyOperation ext db _ after applied
  rcases Database.posts_contentOrderCancelByAuthor applied with
    ⟨early, rfl⟩ | ⟨late, order, found, -, posted⟩
  · refine iff_of_true (Accounted.complete (refl_of (Accounted _) _)) ?_
    exact fun late => absurd late (Nat.not_le.2 early)
  have only : RefundsAuthor db (.contentOrderCancelByAuthor op) ↔
      order.owner = op.author ∨ order.price = 0 := by
    constructor
    · exact fun own => own late order found
    · intro own _ other again
      cases found.symm.trans again
      exact own
  rw [only]
  constructor
  · intro complete
    by_contra neither
    rw [not_or] at neither
    have credited := posted.holding_eq order.owner .balance
    have price : netCredit order.owner .balance
        [.purse order.owner .balance order.price,
          .contentOrder op.orderId (some order)
            (some { order with status := .canceled })] = order.price := by
      simp [Entry.credit]
    rw [price, holding_balance, holding_balance] at credited
    have moved : balancesOf after order.owner ≠ balancesOf db order.owner := by
      intro same
      rw [same] at credited
      exact neither.2 (by omega)
    have silent : Field.read .virtualOperations after =
        Field.read .virtualOperations db :=
      agrees.read_eq (show apart [.virtualOperations] _ = true from rfl)
        List.mem_cons_self
    replace silent : after.virtualOperations = db.virtualOperations := silent
    rcases complete order.owner moved with ⟨notice, known, impacted, -⟩
    simp only [notifications, pushedBetween, silent, Nat.sub_self,
      List.take_zero, List.reverse_nil, List.map_nil,
      List.mem_singleton] at known
    subst known
    exact neither.1 (List.mem_singleton.1 impacted)
  · rintro (same | free)
    · refine Accounted.complete (.of_posts agrees rfl posted ?_)
      simp [entryNames, operationGetImpactedAccounts, same]
    · intro name differs
      refine absurd ?_ differs
      rw [balancesOf_eq, balancesOf_eq, purses_of_posts posted]
      intro entry member
      simp only [List.mem_cons, List.not_mem_nil, or_false] at member
      rcases member with rfl | rfl
      · rw [free]
        exact untouched_of_zero _ _ _
      · exact untouched_of_other (fun named => by cases named)

/--
The history of an operation is complete exactly when it refunds no stranger,
in every state.
-/
theorem history_complete_iff
    {ext : External}
    {db after : Database}
    {op : Operation}
    (valid : op.validate ext = .ok ())
    (applied : db.applyOperation ext op = .ok after) :
    HistoryComplete op db after ↔ RefundsAuthor db op := by
  cases op with
  | contentOrderCancelByAuthor op => exact complete_cancelByAuthor_iff applied
  | _ =>
      exact iff_of_true (accounted_applyOperation valid applied trivial).complete
        trivial

/-- A transfer is noted for both of its accounts. -/
theorem history_complete_transfer :
    ∃ after,
      initGenesis.applyOperation plainExternal sampleTransfer = .ok after ∧
        HistoryComplete sampleTransfer initGenesis after := by
  rcases exists_of_isOk (by decide +kernel :
    (initGenesis.applyOperation plainExternal sampleTransfer).isOk = true)
    with ⟨after, applied⟩
  exact ⟨after, applied, (history_complete_iff (by rfl) applied).2 trivial⟩

/-- The author's cancellation of the first order. -/
def authorsRefund : Operation :=
  .contentOrderCancelByAuthor
    { author := "devs"
      orderId := 0 }

/-- The events until the order can be canceled. -/
def eventsBeforeRefund : List Event :=
  eventsBeforeOrders ++
    [.operation (.contentOrderCreate (sampleOrder "devs" initMinerName 1))]

/-- The refund of an order which the author cancels is missed by its owner. -/
theorem authors_refund_missed :
    ¬ ∀ (ext : External) (db after : Database) (op : Operation),
      Reachable ext db → op.validate ext = .ok () →
        db.applyOperation ext op = .ok after → HistoryComplete op db after := by
  intro complete
  have ran : (eventsBeforeRefund.foldlM (Database.step plainExternal)
      initGenesis).bind (fun db =>
        (db.applyOperation plainExternal authorsRefund).bind fun after =>
          require ((db.contentOrders.find? 0).map (·.owner) =
              some initMinerName ∧
            (db.contentOrders.find? 0).map (·.price) = some 1 ∧
              Database.usingCloseContent ≤ db.headBlockNum) "") = .ok () := by
    decide +kernel
  rcases (bind_eq_ok_iff _ _ _).1 ran with ⟨db, reached, ran⟩
  rcases (bind_eq_ok_iff _ _ _).1 ran with ⟨after, applied, ran⟩
  rcases require_eq_ok_iff.1 ran with ⟨owned, priced, late⟩
  have phases : Phases eventsBeforeRefund none none :=
    ⟨_, .beginBlock _, _, .finishBlock _, _, .operation _ _, _,
      .operation _ _, _, .operation _ _, rfl⟩
  have reachable : Reachable plainExternal db :=
    ⟨none, RunState.genesis.of_foldlM phases reached⟩
  have known := complete plainExternal db after authorsRefund reachable (by rfl)
    applied
  have own := (complete_cancelByAuthor_iff applied).1 known late
  rcases Option.map_eq_some_iff.1 owned with ⟨order, found, owner⟩
  rw [found] at priced
  rcases own order found with same | free
  · rw [owner] at same
    exact absurd same (by decide)
  · rw [Option.map_some, free] at priced
    cases priced

end BMChain.App
