import BMChain.State.Holdings
import BMChain.State.LedgerOperation

/-!
# Spending needs a signature

An operation should make no account poorer which is not among those whose
active or owner authority it requires.  What an operation adds to the holdings
of an account is read off the entries which it posts.
-/

namespace BMChain.State

open BMChain.Foundation BMChain.Protocol Std

variable {op : Operation} {before after db : Database} {entries : List Entry}
    {name : AccountName} {account : AccountObject} {fields : List Field}
    {ext : External}

variable {id : Nat} {escrow : EscrowObject} {parent : Option CommentObject}
    {comment : CommentObject}

/-! ## Spending -/

/-- An account has less BMT at its disposal, or fewer shares. -/
def Poorer (before after : AccountObject) : Prop :=
  after.balance + after.savingsBalance + after.rewardBmtBalance <
      before.balance + before.savingsBalance + before.rewardBmtBalance ∨
    after.vestingShares + after.rewardVestingBalance <
      before.vestingShares + before.rewardVestingBalance

/-- The accounts whose active or owner authority an operation requires. -/
def signers (op : Operation) : List AccountName :=
  op.requiredActive ++ op.requiredOwner

/-- Whoever becomes poorer by an operation is among its signers. -/
def SpendingSigned (op : Operation) (before after : Database) : Prop :=
  ∀ name account changed,
    before.accounts.find? name = some account →
      after.accounts.find? name = some changed → Poorer account changed →
        name ∈ signers op

/-- What entries add to the BMT of an account. -/
def netLiquid (name : AccountName) (entries : List Entry) : Int :=
  netCredit name .balance entries + netCredit name .savings entries +
    netCredit name .rewardBmt entries

/-- What entries add to the shares of an account. -/
def netStake (name : AccountName) (entries : List Entry) : Int :=
  netCredit name .shares entries + netCredit name .rewardShares entries

@[simp]
theorem netLiquid_append
    (name : AccountName)
    (first second : List Entry) :
    netLiquid name (first ++ second) =
      netLiquid name first + netLiquid name second := by
  simp only [netLiquid, netCredit_append]
  omega

@[simp]
theorem netStake_append
    (name : AccountName)
    (first second : List Entry) :
    netStake name (first ++ second) =
      netStake name first + netStake name second := by
  simp only [netStake, netCredit_append]
  omega

namespace Database

theorem ledger_holding
    (found : db.accounts.find? name = some account)
    (kind : Holding) :
    db.ledger.holding name kind = account.purse kind := by
  rw [Ledger.holding, ledger_purse_of_find? found]
  rfl

/-- The entries credit what the balances gain. -/
theorem balance_of_posts
    (posted : Posts before.ledger entries after.ledger)
    (name : AccountName) :
    after.held AccountObject.balance name =
      before.held AccountObject.balance name +
        netCredit name .balance entries := by
  have held : ∀ db : Database,
      db.ledger.holding name .balance =
        db.held AccountObject.balance name := by
    intro db
    cases found : db.accounts.find? name with
    | none =>
        have missing : db.accounts.rows[name]? = none := found
        simp [Database.held, found, Ledger.holding, ledger,
          ExtTreeMap.getElem?_map, missing]
    | some account =>
        rw [ledger_holding found, held_of_find found]
        rfl
  rw [← held, ← held, posted.holding_eq]

/-- An account becomes poorer by what the entries take from it. -/
theorem poorer_iff_of_posts
    {account changed : AccountObject}
    (posted : Posts before.ledger entries after.ledger)
    (found : before.accounts.find? name = some account)
    (left : after.accounts.find? name = some changed) :
    Poorer account changed ↔
      netLiquid name entries < 0 ∨ netStake name entries < 0 := by
  have moved : ∀ kind, changed.purse kind =
      account.purse kind + netCredit name kind entries := by
    intro kind
    rw [← ledger_holding found, ← ledger_holding left, posted.holding_eq]
  have balance : changed.balance = account.balance + _ := moved .balance
  have savings : changed.savingsBalance = account.savingsBalance + _ :=
    moved .savings
  have reward : changed.rewardBmtBalance = account.rewardBmtBalance + _ :=
    moved .rewardBmt
  have shares : changed.vestingShares = account.vestingShares + _ :=
    moved .shares
  have pending : changed.rewardVestingBalance =
      account.rewardVestingBalance + _ := moved .rewardShares
  unfold Poorer netLiquid netStake
  omega

/-- Entries which take from the signers only. -/
theorem signed_of_posts
    (posted : Posts before.ledger entries after.ledger)
    (kept : ∀ name account, name ∉ signers op →
      before.accounts.find? name = some account →
        0 ≤ netLiquid name entries ∧ 0 ≤ netStake name entries) :
    SpendingSigned op before after := by
  intro name account changed found left poorer
  by_contra unsigned
  have gains := kept name account unsigned found
  rw [poorer_iff_of_posts posted found left] at poorer
  omega

theorem signed_of_ledger_eq
    (same : after.ledger = before.ledger) :
    SpendingSigned op before after := by
  refine @signed_of_posts op before after [] ?_ ?_
  · rw [same]
    exact .nil _
  · exact fun _ _ _ _ => ⟨Int.le_refl 0, Int.le_refl 0⟩

theorem IsEmission.netLiquid_nonneg
    (emission : IsEmission entries)
    (name : AccountName) :
    0 ≤ netLiquid name entries := by
  have balance := emission.netCredit_nonneg name .balance
  have savings := emission.netCredit_nonneg name .savings
  have reward := emission.netCredit_nonneg name .rewardBmt
  unfold netLiquid
  omega

theorem IsEmission.netStake_nonneg
    (emission : IsEmission entries)
    (name : AccountName) :
    0 ≤ netStake name entries := by
  have shares := emission.netCredit_nonneg name .shares
  have pending := emission.netCredit_nonneg name .rewardShares
  unfold netStake
  omega

theorem signed_of_emits
    {result : Except Fault Database}
    (emits : Emits db result)
    (returned : result = .ok after) :
    SpendingSigned op db after := by
  rcases emits after returned with ⟨emission, emitted, posted⟩
  exact signed_of_posts posted fun name account _ _ =>
    ⟨emitted.netLiquid_nonneg name, emitted.netStake_nonneg name⟩

/-! ## Escrows hold no negative amounts -/

/-- Neither the balance nor the fee of an escrow is negative. -/
def EscrowsNonneg (db : Database) : Prop :=
  db.escrows.All fun escrow =>
    0 ≤ escrow.bmtBalance ∧ 0 ≤ escrow.pendingFee.amount

theorem EscrowsNonneg.of_agrees
    (nonneg : before.EscrowsNonneg)
    (agrees : Agrees fields before after)
    (separate : apart [.escrows] fields = true) :
    after.EscrowsNonneg := by
  have same : after.escrows = before.escrows :=
    agrees.read_eq separate (List.mem_singleton.2 rfl)
  unfold EscrowsNonneg
  rwa [same]

theorem escrows_of_adjustBalance
    {delta : Asset}
    (done : db.adjustBalance name delta = .ok after) :
    after.escrows = db.escrows :=
  touches_adjustBalance db name delta after done .escrows (by decide)

theorem find_of_getEscrow
    {escrowId : Nat}
    {entry : Nat × EscrowObject}
    (got : db.getEscrow name escrowId = .ok entry) :
    db.escrows.find? entry.1 = some entry.2 :=
  Table.find?_of_findBy (orFault_eq_ok_iff.1 got)

theorem escrowsNonneg_returnEscrow
    {sender : AccountName}
    (done : db.returnEscrow sender id escrow = .ok after)
    (nonneg : db.EscrowsNonneg) :
    after.EscrowsNonneg := by
  simp only [returnEscrow, bind_eq_ok_iff] at done
  rcases done with ⟨paid, pay, settled, settle, equal⟩
  cases equal
  unfold EscrowsNonneg
  dsimp only
  rw [escrows_of_adjustBalance settle, escrows_of_adjustBalance pay]
  exact nonneg.remove id

theorem escrowsNonneg_payAgent
    {agent : AccountName}
    (done : db.payAgent agent id escrow = .ok after)
    (balance : 0 ≤ escrow.bmtBalance)
    (nonneg : db.EscrowsNonneg) :
    after.EscrowsNonneg := by
  unfold payAgent at done
  split at done
  case isFalse =>
    cases done
    exact nonneg
  case isTrue =>
    rw [bind_eq_ok_iff] at done
    rcases done with ⟨paid, pay, equal⟩
    cases equal
    unfold EscrowsNonneg
    dsimp only
    rw [escrows_of_adjustBalance pay]
    refine Table.All.set nonneg ?_ id
    exact ⟨balance, Int.le_refl 0⟩

theorem escrowsNonneg_applyOperation
    (valid : op.validate ext = .ok ())
    (done : db.applyOperation ext op = .ok after)
    (nonneg : db.EscrowsNonneg) :
    after.EscrowsNonneg := by
  have agrees := touches_applyOperation ext db op after done
  cases op with
  | escrowTransfer op =>
      simp only [Operation.validate, EscrowTransferOperation.validate,
        bind_eq_ok_iff, require_eq_ok_iff] at valid
      rcases valid with ⟨_, -, _, -, _, -, _, fee, _, balance, -⟩
      simp only [applyOperation, escrowTransferEvaluator, createRow,
        bind_eq_ok_iff, pure_eq_ok_iff, Asset.inSymbol_eq_ok_iff] at done
      rcases done with ⟨_, -, _, -, _, -, _, -, _, -, _, ⟨-, rfl⟩, done⟩
      rcases done with ⟨_, -, _, -, _, -, debited, debit, _, ⟨_, -, rfl⟩, rfl⟩
      unfold EscrowsNonneg
      dsimp only
      rw [escrows_of_adjustBalance debit]
      exact nonneg.emplace ⟨balance, fee⟩
  | escrowApprove op =>
      simp only [applyOperation, escrowApproveEvaluator, bind_eq_ok_iff] at done
      rcases done with ⟨⟨id, escrow⟩, got, _, -, _, -, _, -, _, -, _, -, done⟩
      have held := nonneg id escrow (find_of_getEscrow got)
      split at done
      · exact escrowsNonneg_returnEscrow done nonneg
      · refine escrowsNonneg_payAgent done held.1 ?_
        refine Table.All.set nonneg ?_ id
        exact held
  | escrowDispute op =>
      simp only [applyOperation, escrowDisputeEvaluator, bind_eq_ok_iff,
        pure_eq_ok_iff] at done
      rcases done with ⟨_, -, ⟨id, escrow⟩, got, _, -, _, -, _, -, _, -, _, -, rfl⟩
      have held := nonneg id escrow (find_of_getEscrow got)
      refine Table.All.set nonneg ?_ id
      exact held
  | escrowRelease op =>
      simp only [applyOperation, escrowReleaseEvaluator, bind_eq_ok_iff,
        Asset.inSymbol_eq_ok_iff, require_eq_ok_iff, checked_eq_ok_iff] at done
      rcases done with ⟨_, -, _, -, ⟨id, escrow⟩, got, _, ⟨-, rfl⟩, done⟩
      rcases done with ⟨_, enough, _, -, _, -, _, -, _, -, _, -, done⟩
      rcases done with ⟨paid, pay, _, ⟨-, rfl⟩, done⟩
      have held := nonneg id escrow (find_of_getEscrow got)
      have same := escrows_of_adjustBalance pay
      unfold EscrowsNonneg
      split at done
      · cases done
        dsimp only
        rw [same]
        exact nonneg.remove id
      · cases done
        dsimp only
        rw [same]
        refine Table.All.set nonneg ?_ id
        exact ⟨Int.sub_nonneg_of_le enough, held.2⟩
  | _ => exact nonneg.of_agrees agrees rfl

theorem escrowsNonneg_runStep
    {header : BlockHeader}
    {step : BlockStep}
    (done : db.runStep ext header step = .ok after)
    (nonneg : db.EscrowsNonneg) :
    after.EscrowsNonneg := by
  have agrees := touches_runStep ext header db step after done
  cases step with
  | expireEscrowRatification =>
      refine drain_invariant EscrowsNonneg ?_ done nonneg
      intro entry state next _ returned before
      exact escrowsNonneg_returnEscrow returned before
  | _ => exact nonneg.of_agrees agrees rfl

end Database

theorem escrowsNonneg_reachable
    (reachable : Reachable ext db) :
    db.EscrowsNonneg := by
  refine Reachable.invariant Database.EscrowsNonneg .empty ?_ ?_ ?_ reachable
  · intro state header after begun nonneg
    exact nonneg.of_agrees
      (Database.touches_beginBlock state header after begun) rfl
  · intro state op after valid done nonneg
    exact Database.escrowsNonneg_applyOperation valid done nonneg
  · intro header state step after done nonneg
    exact Database.escrowsNonneg_runStep done nonneg

namespace Database

/-! ## What an order for content pays -/

theorem producer_of_agrees
    (agrees : Agrees fields before after)
    (separate :
      apart [.witness .identity, .props .currentWitness] fields = true) :
    after.producer = before.producer := by
  have owners : Field.read (.witness .identity) after =
      Field.read (.witness .identity) before :=
    agrees.read_eq separate (by simp)
  have current : Field.read (.props .currentWitness) after =
      Field.read (.props .currentWitness) before :=
    agrees.read_eq separate (by simp)
  have row := congrArg (Option.map Prod.snd)
    (congrFun owners before.props.currentWitness)
  simp only [Field.read, Option.map_map] at row
  change after.props.currentWitness = before.props.currentWitness at current
  rw [producer, current]
  exact row

theorem producerReward_of_agrees
    (agrees : Agrees fields before after)
    (separate :
      apart [.rewardFunds, .props .supply, .props .emission, .props .head]
        fields = true)
    (newBmt : Int) :
    after.producerReward newBmt = before.producerReward newBmt := by
  have funds : Field.read .rewardFunds after =
      Field.read .rewardFunds before := agrees.read_eq separate (by simp)
  have supply : Field.read (.props .supply) after =
      Field.read (.props .supply) before := agrees.read_eq separate (by simp)
  have emission : Field.read (.props .emission) after =
      Field.read (.props .emission) before := agrees.read_eq separate (by simp)
  have head : Field.read (.props .head) after =
      Field.read (.props .head) before := agrees.read_eq separate (by simp)
  simp only [Field.read, PropsAspect.read, Prod.mk.injEq]
    at funds supply emission head
  have stopped : after.emissionStopped = before.emissionStopped := by
    unfold emissionStopped dailyEmissionCap
    rw [supply, emission, head.1]
  unfold producerReward fundShares
  rw [stopped, funds]

/-- The emission for new content. -/
def contentEmission (op : EncryptedContentOperation) : Int :=
  if nameSize op.parentAuthor = 0 then postEmissionRate else commentEmissionRate

/-- What an account gets of the emission for encrypted content. -/
def emissionFor (db : Database) (op : EncryptedContentOperation)
    (name : AccountName) : Int :=
  if (db.findComment op.author op.permlink).isNone ∧
      db.producer = some name then
    db.producerReward (contentEmission op)
  else 0

/-- What the author of encrypted content gets of the emission for it. -/
def postReward (db : Database) (op : EncryptedContentOperation) : Int :=
  if (db.findComment op.author op.permlink).isNone ∧
      db.producer = some op.author then
    db.producerReward (contentEmission op)
  else 0

/-- A new comment has the parent which the operation names. -/
theorem parentAuthor_of_findParent
    {db state : Database}
    {op : CommentOperation}
    (found : db.findParent op = .ok parent) :
    (state.freshComment ext op parent).parentAuthor = op.parentAuthor := by
  unfold findParent at found
  split at found
  case isTrue root =>
    cases found
    exact root.symm
  case isFalse =>
    simp only [getComment, findComment, bind_eq_ok_iff, orFault_eq_ok_iff,
      pure_eq_ok_iff] at found
    rcases found with ⟨⟨id, comment⟩, searched, _, -, rfl⟩
    have test := List.find?_some searched
    simp only [decide_eq_true_eq] at test
    exact test.1

theorem parentAuthor_of_encryptComment
    {op : EncryptedContentOperation}
    {comment encrypted : CommentObject}
    (done : db.encryptComment ext op comment = .ok encrypted) :
    encrypted.parentAuthor = comment.parentAuthor := by
  simp only [encryptComment, bind_eq_ok_iff] at done
  rcases done with ⟨message, -, done⟩
  split at done
  · cases done
    rfl
  · cases done
    rfl

/-- New content credits the producer only, with its reward. -/
theorem posts_storeComment
    {op : CommentOperation}
    (done : db.storeComment op comment = .ok after) :
    ∃ emission,
      IsEmission emission ∧ Posts db.ledger emission after.ledger ∧
        ∀ name kind, netCredit name kind emission =
          if kind = .balance ∧ db.producer = some name then
            db.producerReward
              (if nameSize comment.parentAuthor = 0 then postEmissionRate
                else commentEmissionRate)
          else 0 := by
  simp only [storeComment, bind_eq_ok_iff] at done
  rcases done with ⟨_, -, _, -, comments, -, told, tell, emitted⟩
  have kept := keeps_updateParents _ _ _ _ _ told tell
  have agrees := touches_updateParents _ _ _ _ _ told tell
  rcases posts_producerReward (by split <;> decide) emitted
    with ⟨emission, is, posted, credits⟩
  refine ⟨emission, is, ?_, ?_⟩
  · rw [kept] at posted
    exact posted
  · intro name kind
    rw [credits, producer_of_agrees agrees rfl,
      producerReward_of_agrees agrees rfl]
    rfl

/-- What the part of encrypted content after the order credits. -/
theorem posts_writeContent
    {db middle after : Database}
    {op : EncryptedContentOperation}
    {author : AccountObject}
    (parented : db.findParent op.toCommentOperation = .ok parent)
    (settled : Agrees [.account .balance, .contentOrders] db middle)
    (done :
      (match db.findComment op.author op.permlink with
      | none => do
        middle.checkReplies parent
        require
          (op.applyOrder ∨ op.parentAuthor ≠ "" ∨
            minRootCommentInterval ≤
              (middle.headBlockTime : Int) - author.lastRootPost)
          "You may only post once every 5 minutes."
        let db ← middle.countPost op.toCommentOperation
        let comment ← db.encryptComment ext op
          (db.freshComment ext op.toCommentOperation parent)
        db.storeComment op.toCommentOperation comment
      | some (id, _) =>
        middle.editComment ext id op.toCommentOperation) = .ok after) :
    ∃ emission,
      IsEmission emission ∧ Posts middle.ledger emission after.ledger ∧
        (∀ name kind, netCredit name kind emission =
          if kind = .balance then db.emissionFor op name else 0) ∧
        after.contentOrders = middle.contentOrders := by
  split at done
  case h_1 new =>
    simp only [bind_eq_ok_iff] at done
    rcases done with ⟨_, -, _, -, counted, count, comment, made, stored⟩
    have kept := keeps_countPost middle _ counted count
    have agrees := trans_of (Agrees _)
      (settled.mono
        (by decide : _ ⊆ [.account .balance, .contentOrders, .account .activity]))
      ((touches_countPost middle _ counted count).mono (by decide))
    have root : comment.parentAuthor = op.parentAuthor :=
      (parentAuthor_of_encryptComment made).trans
        (parentAuthor_of_findParent parented)
    rcases posts_storeComment stored with ⟨emission, is, posted, credits⟩
    rw [kept] at posted
    rw [producer_of_agrees agrees rfl, root] at credits
    simp only [producerReward_of_agrees agrees rfl] at credits
    refine ⟨emission, is, posted, fun name kind => ?_, ?_⟩
    · rw [credits]
      by_cases balance : kind = .balance
      · simp [balance, emissionFor, new, contentEmission]
      · simp [balance]
    · exact (touches_storeComment counted _ _ after stored .contentOrders
        (by decide)).trans
          (touches_countPost middle _ counted count .contentOrders
            (by decide))
  case h_2 id comment old =>
    have kept := keeps_editComment ext middle id _ after done
    refine ⟨[], .stopped, ?_, fun name kind => ?_, ?_⟩
    · rw [kept]
      exact .nil _
    · simp [emissionFor, old]
    · exact touches_editComment ext middle id _ after done .contentOrders
        (by decide)

/-- Encrypted content credits its author with the price of its order. -/
theorem credits_encryptedContent
    {op : EncryptedContentOperation}
    (applied : db.encryptedContentEvaluator ext op = .ok after) :
    ∃ entries,
      Posts db.ledger entries after.ledger ∧
        (∀ name, netStake name entries = 0) ∧
        (∀ name, name ≠ op.author → 0 ≤ netLiquid name entries) ∧
        0 ≤ db.postReward op ∧
        (¬ (usingCloseContent ≤ db.headBlockNum ∧ op.applyOrder) ∧
            netLiquid op.author entries = db.postReward op ∨
          (usingCloseContent ≤ db.headBlockNum ∧ op.applyOrder) ∧
            ∃ order,
              db.contentOrders.find? op.orderId = some order ∧
                netLiquid op.author entries =
                  order.price + db.postReward op) := by
  simp only [encryptedContentEvaluator, checkComment, bind_eq_ok_iff,
    pure_eq_ok_iff] at applied
  rcases applied with ⟨_, ⟨_, -, account, -, _, -, parent, parented, _, -, rfl⟩,
    middle, settled, stored⟩
  split at settled
  case isTrue forOrder =>
    rcases posts_settleOrder settled with ⟨order, found, -, first⟩
    rcases posts_writeContent parented
      (touches_settleOrder db _ _ middle settled) stored
      with ⟨emission, is, posted, credits, -⟩
    have noStake : ∀ name, netStake name emission = 0 := by
      intro name
      simp [netStake, credits]
    have reward : netLiquid op.author emission = db.postReward op := by
      simp [netLiquid, credits, emissionFor, postReward]
    have paid : ∀ name, netLiquid name (settledEntries op.author op.orderId
        order) = if op.author = name then order.price else 0 := by
      intro name
      simp [netLiquid, settledEntries, Entry.credit]
    refine ⟨_, first.append posted, fun name => ?_, fun name other => ?_,
      reward ▸ is.netLiquid_nonneg op.author, .inr ⟨forOrder, order, found, ?_⟩⟩
    · rw [netStake_append, noStake]
      simp [netStake, Entry.credit]
    · change 0 ≤ netLiquid name (settledEntries op.author op.orderId order ++
        emission)
      rw [netLiquid_append, paid, if_neg other.symm, Int.zero_add]
      exact is.netLiquid_nonneg name
    · change netLiquid op.author (settledEntries op.author op.orderId order ++
        emission) = _
      rw [netLiquid_append, paid, if_pos rfl, reward]
  case isFalse unordered =>
    cases settled
    rcases posts_writeContent parented (refl_of _ db) stored
      with ⟨emission, is, posted, credits, -⟩
    have noStake : ∀ name, netStake name emission = 0 := by
      intro name
      simp [netStake, credits]
    have reward : netLiquid op.author emission = db.postReward op := by
      simp [netLiquid, credits, emissionFor, postReward]
    exact ⟨emission, posted, noStake, fun name _ => is.netLiquid_nonneg name,
      reward ▸ is.netLiquid_nonneg op.author, .inl ⟨unordered, reward⟩⟩

/-! ## The operations -/

/--
The condition on an operation: it does not settle or cancel an order for
content at the cost of an account which has not signed.
-/
def SpendsOwn (db : Database) : Operation → Prop
  | .contentOrderCancelByAuthor op =>
      usingCloseContent ≤ db.headBlockNum →
        ∀ order, db.contentOrders.find? op.orderId = some order →
          0 ≤ order.price ∨ order.owner = op.author
  | .encryptedContent op =>
      usingCloseContent ≤ db.headBlockNum → op.applyOrder = true →
        ∀ order, db.contentOrders.find? op.orderId = some order →
          0 ≤ order.price + db.postReward op
  | _ => True

/-- An account stays where its identity is not touched. -/
theorem find_of_agrees
    (agrees : Agrees fields before after)
    (separate : apart [.account .identity] fields = true)
    (found : before.accounts.find? name = some account) :
    ∃ changed, after.accounts.find? name = some changed := by
  have same : Field.read (.account .identity) after =
      Field.read (.account .identity) before :=
    agrees.read_eq separate List.mem_cons_self
  have row := congrFun same name
  simp only [Field.read, found, Option.map_some] at row
  rcases Option.map_eq_some_iff.1 row with ⟨changed, there, -⟩
  exact ⟨changed, there⟩

/--
An entry which takes from nobody but a signer; a new account has nothing to
lose.
-/
def Fair (op : Operation) (db : Database) : Entry → Prop
  | .purse name _ amount =>
      name ∈ signers op ∨ 0 ≤ amount ∨ db.accounts.find? name = none
  | _ => True

theorem signed_of_fair
    (posted : Posts before.ledger entries after.ledger)
    (fair : ∀ entry ∈ entries, Fair op before entry) :
    SpendingSigned op before after := by
  refine signed_of_posts posted fun name account unsigned found => ?_
  have gains : ∀ kind, 0 ≤ netCredit name kind entries := by
    intro kind
    refine List.sum_nonneg ?_
    intro value listed
    rcases List.mem_map.1 listed with ⟨entry, member, rfl⟩
    have just := fair entry member
    cases entry with
    | purse target holding amount =>
        simp only [Entry.credit]
        split
        case isFalse => exact Int.le_refl 0
        case isTrue same =>
          rcases just with signed | gain | absent
          · exact absurd (same.1 ▸ signed) unsigned
          · exact gain
          · rw [same.1, found] at absent
            cases absent
    | _ => exact Int.le_refl 0
  have balance := gains .balance
  have savings := gains .savings
  have reward := gains .rewardBmt
  have shares := gains .shares
  have pending := gains .rewardShares
  unfold netLiquid netStake
  omega

theorem fair_fundEntries
    (deposits : List (Nat × Int)) :
    ∀ entry ∈ fundEntries deposits, Fair op db entry := by
  intro entry member
  rcases List.mem_map.1 member with ⟨deposit, -, rfl⟩
  trivial

theorem IsEmission.fair
    (emission : IsEmission entries) :
    ∀ entry ∈ entries, Fair op db entry := by
  cases emission with
  | stopped => simp
  | paid deposits witness reward positive =>
      intro entry member
      rcases List.mem_append.1 member with fund | paid
      · exact fair_fundEntries deposits entry fund
      · simp only [List.mem_cons, List.not_mem_nil, or_false] at paid
        rcases paid with rfl | rfl
        · exact .inr (.inl positive)
        · trivial

/-- The account which an operation creates is new. -/
theorem absent_of_accountCreateWithDelegation
    {op : AccountCreateWithDelegationOperation}
    (applied : db.accountCreateWithDelegationEvaluator op = .ok after) :
    db.accounts.find? op.newAccountName = none := by
  simp only [accountCreateWithDelegationEvaluator, createNamed,
    bind_eq_ok_iff, require_eq_ok_iff, Option.isNone_iff_eq_none] at applied
  rcases applied with
    ⟨_, -, _, -, _, -, _, -, _, -, _, -, _, -, _, -, _, -, _, -,
      _, -, _, -, _, -, _, -, _, -, _, -, _, -, _, -, debited, debit,
      accounts, ⟨_, absent, -⟩, -⟩
  rcases find_modifyAccount debit with ⟨account, changed, -, -, rows⟩
  rw [rows] at absent
  split at absent
  · cases absent
  · exact absent

/-- The operations other than the two which pay orders for content. -/
theorem signed_applyOperation
    (escrows : db.EscrowsNonneg)
    (valid : op.validate ext = .ok ())
    (applied : db.applyOperation ext op = .ok after)
    (others :
      match op with
      | .contentOrderCancelByAuthor _ | .encryptedContent _ => False
      | _ => True) :
    SpendingSigned op db after := by
  by_cases idle : movesMoney op = false
  · exact signed_of_ledger_eq (keeps_applyOperation ext db op idle after applied)
  cases op with
  | vote op => exact signed_of_emits (emits_vote ext db op) applied
  | comment op => exact signed_of_emits (emits_comment ext db op) applied
  | transfer op =>
      simp only [Operation.validate, TransferOperation.validate,
        bind_eq_ok_iff, require_eq_ok_iff] at valid
      rcases valid with ⟨_, -, _, -, _, positive, -⟩
      refine signed_of_fair (posts_transfer applied) ?_
      have signed : op.fromAccount ∈ signers (.transfer op) := by
        simp only [signers, Operation.requiredActive, Operation.requiredOwner]
        split <;> simp_all
      simp [Fair, signed, positive.le]
  | transferToSavings op =>
      simp only [Operation.validate, TransferToSavingsOperation.validate,
        bind_eq_ok_iff, require_eq_ok_iff] at valid
      rcases valid with ⟨_, -, _, -, _, positive, -⟩
      refine signed_of_fair (posts_transferToSavings applied) ?_
      simp [Fair, signers, Operation.requiredActive, positive.le]
  | cancelTransferFromSavings op =>
      rcases posts_cancelTransferFromSavings applied with
        ⟨id, request, -, posted⟩
      refine signed_of_fair posted ?_
      simp [Fair, signers, Operation.requiredActive]
  | claimRewardBalance op =>
      rcases posts_claimRewardBalance applied with ⟨-, moved, -, -, -, posted⟩
      refine signed_of_posts posted fun name account _ _ => ?_
      simp only [netLiquid, netStake, netCredit_cons, netCredit_nil,
        Entry.credit]
      by_cases mine : op.account = name <;> simp [mine]
  | escrowTransfer op =>
      rcases posts_escrowTransfer valid applied with ⟨id, posted⟩
      refine signed_of_fair posted ?_
      simp [Fair, signers, Operation.requiredActive]
  | escrowApprove op =>
      rcases posts_escrowApprove applied with
        same | ⟨id, escrow, found, -, returned | paid⟩
      · exact signed_of_ledger_eq same
      · refine signed_of_fair returned ?_
        have held := escrows id escrow found
        simp [Fair, held]
      · refine signed_of_fair paid ?_
        have held := escrows id escrow found
        simp [Fair, held]
  | escrowRelease op =>
      simp only [Operation.validate, EscrowReleaseOperation.validate,
        bind_eq_ok_iff, require_eq_ok_iff] at valid
      rcases valid with ⟨_, -, _, -, _, -, _, -, _, -, _, -, _, -, _, positive, -⟩
      rcases posts_escrowRelease applied with ⟨id, escrow, -, posted⟩
      refine signed_of_fair posted ?_
      simp [Fair, positive]
  | limitOrderCreate op =>
      rcases posts_createOrder applied with ⟨id, price, -, -, posted⟩
      refine signed_of_fair posted ?_
      simp [Fair, signers, Operation.requiredActive]
  | limitOrderCreate2 op =>
      rcases posts_createOrder applied with ⟨id, price, -, -, posted⟩
      refine signed_of_fair posted ?_
      simp [Fair, signers, Operation.requiredActive]
  | limitOrderCancel op =>
      rcases posts_limitOrderCancel applied with ⟨id, order, -, posted⟩
      refine signed_of_fair posted ?_
      simp [Fair, signers, Operation.requiredActive]
  | accountCreate op =>
      rcases posts_accountCreate applied with
        ⟨deposits, emission, posted, -, emitted⟩
      refine signed_of_fair posted ?_
      intro entry member
      simp only [List.mem_append, List.mem_cons, List.not_mem_nil,
        or_false] at member
      rcases member with (rfl | rfl) | fund | paid
      · simp [Fair, signers, Operation.requiredActive]
      · trivial
      · exact fair_fundEntries deposits entry fund
      · exact emitted.fair entry paid
  | accountCreateWithDelegation op =>
      have absent := absent_of_accountCreateWithDelegation applied
      rcases posts_accountCreateWithDelegation applied with
        ⟨vested, posted, ⟨-, rfl⟩ | ⟨shares, rfl⟩⟩
      · refine signed_of_fair posted ?_
        simp [Fair, signers, Operation.requiredActive]
      · refine signed_of_fair posted ?_
        simp [Fair, signers, Operation.requiredActive, absent]
  | contentOrderCreate op =>
      rcases posts_contentOrderCreate applied with
        ⟨rfl, -⟩ | ⟨-, id, order, -, posted⟩ | ⟨-, id, order, -, -, -, posted⟩
      · exact signed_of_ledger_eq rfl
      · refine signed_of_fair posted ?_
        simp [Fair, signers, Operation.requiredActive]
      · refine signed_of_fair posted ?_
        simp [Fair, signers, Operation.requiredActive]
  | contentOrderCancel op =>
      rcases posts_contentOrderCancel applied with
        rfl | ⟨order, -, -, posted⟩
      · exact signed_of_ledger_eq rfl
      · refine signed_of_fair posted ?_
        simp [Fair, signers, Operation.requiredActive]
  | customTokenCreate op =>
      rcases posts_customTokenCreate applied with ⟨deposits, posted, -⟩
      refine signed_of_fair posted ?_
      rw [List.forall_mem_cons]
      refine ⟨?_, fair_fundEntries deposits⟩
      simp [Fair, signers, Operation.requiredOwner]
  | contentOrderCancelByAuthor op => exact others.elim
  | encryptedContent op => exact others.elim
  | _ => simp [movesMoney] at idle

/-- A canceled order is refunded to its owner, whoever signs. -/
theorem signed_cancelByAuthor_iff
    {op : ContentOrderCancelByAuthorOperation}
    (applied : db.applyOperation ext (.contentOrderCancelByAuthor op) =
      .ok after) :
    SpendingSigned (.contentOrderCancelByAuthor op) db after ↔
      SpendsOwn db (.contentOrderCancelByAuthor op) := by
  have agrees := touches_applyOperation ext db _ after applied
  rcases posts_contentOrderCancelByAuthor applied with
    ⟨early, rfl⟩ | ⟨late, order, found, -, posted⟩
  · refine iff_of_true (signed_of_ledger_eq rfl) ?_
    intro late
    exact absurd late (Nat.not_le.2 early)
  have only : SpendsOwn db (.contentOrderCancelByAuthor op) ↔
      0 ≤ order.price ∨ order.owner = op.author := by
    constructor
    · exact fun own => own late order found
    · intro own _ other again
      cases found.symm.trans again
      exact own
  rw [only]
  constructor
  · intro signed
    by_contra neither
    rw [not_or, Int.not_le] at neither
    have paid := applied
    simp only [applyOperation, contentOrderCancelByAuthorEvaluator,
      if_neg (Nat.not_lt.2 late), getContentOrderById, found, orFault,
      bind_eq_ok_iff] at paid
    rcases paid with ⟨_, same, account, owner, -⟩
    cases same
    have held := find_of_getAccount owner
    rcases find_of_agrees agrees rfl held with ⟨changed, left⟩
    have member := signed order.owner account changed held left
      ((poorer_iff_of_posts posted held left).2 (.inl (by
        simpa [netLiquid, Entry.credit] using neither.1)))
    simp only [signers, Operation.requiredActive, Operation.requiredOwner,
      List.append_nil, List.mem_singleton] at member
    exact neither.2 member
  · intro own
    refine signed_of_fair posted ?_
    rcases own with positive | same
    · simp [Fair, positive]
    · simp [Fair, signers, Operation.requiredActive, same]

/-- Encrypted content takes from its author when the order costs less than nothing. -/
theorem signed_encryptedContent_iff
    {op : EncryptedContentOperation}
    (applied : db.applyOperation ext (.encryptedContent op) = .ok after) :
    SpendingSigned (.encryptedContent op) db after ↔
      SpendsOwn db (.encryptedContent op) := by
  have agrees := touches_applyOperation ext db _ after applied
  rcases credits_encryptedContent applied
    with ⟨entries, posted, noStake, others, reward, paid⟩
  have fine : 0 ≤ netLiquid op.author entries →
      SpendingSigned (.encryptedContent op) db after := by
    intro gain
    refine signed_of_posts posted fun name account _ _ => ?_
    rw [noStake]
    refine ⟨?_, Int.le_refl 0⟩
    by_cases mine : name = op.author
    · rw [mine]
      exact gain
    · exact others name mine
  rcases paid with ⟨unordered, nothing⟩ | ⟨ordered, order, found, price⟩
  · refine iff_of_true (fine (nothing ▸ reward)) ?_
    intro late forOrder
    exact absurd ⟨late, forOrder⟩ unordered
  have only : SpendsOwn db (.encryptedContent op) ↔
      0 ≤ order.price + db.postReward op := by
    constructor
    · exact fun own => own ordered.1 ordered.2 order found
    · intro own _ _ other again
      cases found.symm.trans again
      exact own
  rw [only, ← price]
  refine ⟨fun signed => ?_, fine⟩
  by_contra negative
  have written := applied
  simp only [applyOperation, encryptedContentEvaluator, checkComment,
    bind_eq_ok_iff] at written
  rcases written with ⟨_, ⟨_, -, account, author, -⟩, -⟩
  have held := find_of_getAccount author
  rcases find_of_agrees agrees rfl held with ⟨changed, left⟩
  have member := signed op.author account changed held left
    ((poorer_iff_of_posts posted held left).2 (.inl (Int.not_le.1 negative)))
  simp [signers, Operation.requiredActive, Operation.requiredOwner] at member

end Database

/--
Exactly when an accepted operation makes nobody poorer who has not signed
it.
-/
theorem spending_signed_iff
    {ext : External}
    {db after : Database}
    {op : Operation}
    (reachable : Reachable ext db)
    (valid : op.validate ext = .ok ())
    (applied : db.applyOperation ext op = .ok after) :
    SpendingSigned op db after ↔ Database.SpendsOwn db op := by
  have escrows := escrowsNonneg_reachable reachable
  cases op with
  | contentOrderCancelByAuthor op =>
      exact Database.signed_cancelByAuthor_iff applied
  | encryptedContent op => exact Database.signed_encryptedContent_iff applied
  | _ =>
      exact iff_of_true
        (Database.signed_applyOperation escrows valid applied trivial) trivial

/-- A transfer at genesis makes only its sender poorer. -/
theorem spending_signed_transfer :
    ∃ after,
      initGenesis.applyOperation plainExternal sampleTransfer = .ok after ∧
        SpendingSigned sampleTransfer initGenesis after := by
  rcases exists_of_isOk (by decide +kernel :
    (initGenesis.applyOperation plainExternal sampleTransfer).isOk = true)
    with ⟨after, applied⟩
  exact ⟨after, applied,
    (spending_signed_iff ⟨none, .genesis⟩ (by rfl) applied).2 trivial⟩

/-! ## An order with a negative price -/

/-- The external functions on the samples, and on one encrypted byte. -/
def hexExternal : External :=
  { plainExternal with
    fromHex := fun text size =>
      if text = [48, 48] then .ok [0] else plainExternal.fromHex text size }

/-- Encrypted content which is offered for less than nothing. -/
def negativeContent : Operation :=
  .encryptedContent
    { parentAuthor := ""
      parentPermlink := [98]
      author := initMinerName
      permlink := [97]
      title := []
      body := [99]
      jsonMetadata := []
      encryptedMessage := [48, 48]
      sentTime := 0
      nonce := 0
      messageSize := 1
      checksum := 0
      price := bmt (-100)
      owner := ""
      orderId := 0
      applyOrder := false }

/-- An order for it at its price. -/
def negativeOrder : Operation :=
  .contentOrderCreate
    { author := initMinerName
      permlink := [97]
      owner := "devs"
      price := bmt (-100)
      jsonMetadata := [] }

/-- The author's cancellation of the order. -/
def authorsCancel : Operation :=
  .contentOrderCancelByAuthor
    { author := initMinerName
      orderId := 0 }

/-- The events before the cancellation. -/
def eventsBeforeCancel : List Event :=
  [.beginBlock firstHeader, .finishBlock firstHeader,
    .operation negativeContent, .operation negativeOrder]

/-- What the cancellation leaves of the BMT of the order's owner. -/
def ownersLoss : Except Fault Int := do
  let before ← eventsBeforeCancel.foldlM (Database.step hexExternal) initGenesis
  authorsCancel.validate hexExternal
  let after ← before.applyOperation hexExternal authorsCancel
  let account ← before.getAccount "devs"
  let changed ← after.getAccount "devs"
  pure (changed.balance + changed.savingsBalance + changed.rewardBmtBalance -
    (account.balance + account.savingsBalance + account.rewardBmtBalance))

/-- The author of content can take from the owner of an order without a signature. -/
theorem negative_order_takes_from_owner :
    ¬ ∀ (ext : External) (db after : Database) (op : Operation),
      Reachable ext db → op.validate ext = .ok () →
        db.applyOperation ext op = .ok after → SpendingSigned op db after := by
  intro signed
  have loss : ownersLoss = .ok (-100) := by decide +kernel
  simp only [ownersLoss, eventsBeforeCancel, List.foldlM_cons,
    List.foldlM_nil, bind_eq_ok_iff, pure_eq_ok_iff] at loss
  rcases loss with ⟨before, ⟨opened, begun, closed, finished, offered, offer,
    ordered, order, rfl⟩, ⟨⟩, valid, after, applied, account, held, changed,
    left, lost⟩
  have reachable : Reachable hexExternal ordered :=
    ⟨none,
      .step (.operation negativeOrder)
        (.step (.operation negativeContent)
          (.step (.finishBlock firstHeader)
            (.step (.beginBlock firstHeader) .genesis (.beginBlock _) trivial
              begun)
            (.finishBlock _) trivial finished)
          (.operation _ _) trivial offer)
        (.operation _ _) trivial order⟩
  have member := signed hexExternal ordered after authorsCancel reachable valid
    applied "devs" account changed (Database.find_of_getAccount held)
    (Database.find_of_getAccount left) (.inl (by omega))
  simp [signers, authorsCancel, Operation.requiredActive,
    Operation.requiredOwner, initMinerName] at member

end BMChain.State
