import BMChain.State.FootprintDatabase

/-!
# The footprints of the operations

What each evaluator can touch.
-/

namespace BMChain.State

open BMChain.Foundation BMChain.Protocol Std

variable {db after : Database}

variable {ext : External} {op : AccountCreateWithDelegationOperation}

namespace Database

/-! ## Accounts -/

/-- All aspects of the accounts. -/
def accountFields : List Field :=
  [.accountIds, .authorities] ++
    [.identity, .profile, .activity, .voting, .balance, .savings, .rewardBmt,
      .rewardShares, .rewardBacking, .shares, .delegated, .received,
      .withdrawal, .routes, .proxy, .proxied, .votedFor, .canVote].map
        Field.account

theorem mem_accountFields
    (aspect : AccountAspect) :
    Field.account aspect ∈ accountFields := by
  cases aspect <;> decide

theorem agrees_accounts
    (db : Database)
    (accounts : Register AccountObject)
    (authorities : Register AccountAuthorityObject) :
    Agrees accountFields db
      { db with accounts := accounts, authorities := authorities } := by
  intro field outside
  cases field with
  | account aspect => exact absurd (mem_accountFields aspect) outside
  | accountIds => exact absurd (by decide) outside
  | authorities => exact absurd (by decide) outside
  | _ => rfl

theorem touches_accountCreate
    (ext : External)
    (op : AccountCreateOperation)
    (db : Database) :
    Touches (accountFields ++ emissionFields) db
      (db.accountCreateEvaluator ext op) := by
  refine .read fun _ _ => .read fun _ _ => .read fun _ _ => ?_
  refine .read fun _ _ => .read fun _ _ => .read fun _ _ => ?_
  refine .read fun _ _ => .read fun _ _ => ?_
  refine .bind ((touches_addBalance db _ _).mono (by decide)) fun debited => ?_
  refine .read fun _ _ => .read fun accounts _ => ?_
  refine .read fun authorities _ => ?_
  refine .after ?_ ((agrees_accounts debited accounts authorities).mono
    (List.subset_append_left _ _))
  refine .bind ((touches_payFee _ _).mono (by decide)) fun paid => ?_
  exact (touches_processFundsBmchain paid _).mono
    (List.subset_append_right _ _)

theorem touches_accountCreateWithDelegation
    (op : AccountCreateWithDelegationOperation)
    (db : Database) :
    Touches (.delegations :: accountFields ++ vestingFields) db
      (db.accountCreateWithDelegationEvaluator op) := by
  refine .read fun _ _ => .read fun _ _ => .read fun _ _ => ?_
  refine .read fun _ _ => .read fun _ _ => .read fun _ _ => ?_
  refine .read fun _ _ => .read fun _ _ => .read fun _ _ => ?_
  refine .read fun _ _ => .read fun _ _ => .read fun _ _ => ?_
  refine .read fun _ _ => .read fun _ _ => .read fun _ _ => ?_
  refine .read fun _ _ => .read fun _ _ => .read fun _ _ => ?_
  refine .bind ((touches_modifyAccount db _ [.balance, .delegated] ?_).mono
    (by decide)) fun debited => ?_
  · intro account changed equal aspect outside
    simp only [bind_eq_ok_iff, pure_eq_ok_iff] at equal
    rcases equal with ⟨_, -, _, -, rfl⟩
    cases aspect <;> simp [AccountAspect.read] at outside ⊢
  refine .read fun accounts _ => .read fun authorities _ => ?_
  refine .read fun delegations _ => ?_
  have created : Agrees (.delegations :: accountFields ++ vestingFields)
      debited
      { debited with
        accounts := accounts
        authorities := authorities
        delegations := delegations } :=
    trans_of _
      ((agrees_accounts debited accounts authorities).mono (by decide))
      ((agrees_delegations _ delegations).mono (by decide))
  refine .after ?_ created
  split
  · refine .read ?_
    rintro ⟨final, shares⟩ vested
    exact .ok ((agrees_createVesting_shares vested).mono (by decide))
  · exact .unchanged

/-- A new account has nothing but the shares which it receives. -/
def IsOpened (id : Nat) (name : AccountName) (account : AccountObject) :
    Prop :=
  account =
    { id := id
      name := name
      memoKey := account.memoKey
      created := account.created
      lastVoteTime := account.lastVoteTime
      mined := account.mined
      recoveryAccount := account.recoveryAccount
      avatar := account.avatar
      receivedVestingShares := account.receivedVestingShares
      jsonMetadata := account.jsonMetadata }

/-- What is paid and emitted for a new account. -/
def openingFields : List Field :=
  .account .balance :: .account .delegated :: emissionFields ++ vestingFields

/-- An account is opened between payments. -/
def OpensAccount (db after : Database) (name : AccountName) : Prop :=
  ∃ (paid opened : Database) (row : Nat → AccountObject),
    (∀ id, IsOpened id name (row id)) ∧
      Agrees openingFields db paid ∧
        createNamed paid.accounts name row = .ok opened.accounts ∧
          Agrees (.delegations :: accountFields) paid opened ∧
            Agrees openingFields opened after

/-- An account which is opened now has voted last at the head time. -/
def OpensAccountNow (db after : Database) (name : AccountName) : Prop :=
  ∃ (paid opened : Database) (row : Nat → AccountObject),
    (∀ id, IsOpened id name (row id) ∧
      (row id).lastVoteTime = db.headBlockTime) ∧
      Agrees openingFields db paid ∧
        createNamed paid.accounts name row = .ok opened.accounts ∧
          Agrees (.delegations :: accountFields) paid opened ∧
            Agrees openingFields opened after

theorem OpensAccountNow.opens
    {name : AccountName}
    (opens : OpensAccountNow db after name) :
    OpensAccount db after name := by
  rcases opens with ⟨paid, opened, row, fresh, rest⟩
  exact ⟨paid, opened, row, fun id => (fresh id).1, rest⟩

/-- What does not touch the head keeps its time. -/
theorem headBlockTime_of_agrees
    {fields : List Field}
    (agrees : Agrees fields db after)
    (separate : apart [.props .head] fields = true) :
    after.headBlockTime = db.headBlockTime := by
  have head : Field.read (.props .head) after = Field.read (.props .head) db :=
    agrees.read_eq separate List.mem_cons_self
  exact congrArg (fun parts => parts.2.2.1) head

theorem opensAccountNow_accountCreate
    {op : AccountCreateOperation}
    (done : db.accountCreateEvaluator ext op = .ok after) :
    OpensAccountNow db after op.newAccountName := by
  simp only [accountCreateEvaluator, bind_eq_ok_iff] at done
  rcases done with ⟨_, -, _, -, _, -, _, -, _, -, _, -, _, -, _, -, done⟩
  rcases done with ⟨debited, debit, _, -, accounts, created, done⟩
  rcases done with ⟨authorities, -, paid, pay, emitted⟩
  have touched := touches_addBalance db _ _ debited debit
  refine ⟨debited, _, _, ?_, ?_, created,
    (agrees_accounts debited accounts authorities).mono (by decide), ?_⟩
  · exact fun _ => ⟨rfl, headBlockTime_of_agrees touched rfl⟩
  · exact Agrees.mono touched (by decide)
  · exact trans_of _
      (Agrees.mono (touches_payFee _ _ paid pay) (by decide))
      (Agrees.mono (touches_processFundsBmchain paid _ after emitted)
        (by decide))

/-- An account which is created with a delegation is opened after a payment,
and may be given shares. -/
theorem accountCreateWithDelegation_cases
    (done : db.accountCreateWithDelegationEvaluator op = .ok after) :
    ∃ (debited : Database) (accounts : Register AccountObject)
      (authorities : Register AccountAuthorityObject)
      (delegations : Table VestingDelegationObject) (delegation : Int),
      Agrees ([.balance, .delegated].map .account) db debited ∧
        createNamed debited.accounts op.newAccountName (fun id =>
          { id := id
            name := op.newAccountName
            memoKey := op.memoKey
            created := debited.props.time
            lastVoteTime := debited.props.time
            mined := false
            recoveryAccount := op.creator
            receivedVestingShares := delegation
            jsonMetadata := op.jsonMetadata }) = .ok accounts ∧
          let opened : Database := { debited with
            accounts := accounts
            authorities := authorities
            delegations := delegations }
          after = opened ∨ ∃ fee shares,
            opened.createVesting op.newAccountName fee false =
              .ok (after, shares) := by
  simp only [accountCreateWithDelegationEvaluator, bind_eq_ok_iff] at done
  rcases done with ⟨_, -, _, -, _, -, _, -, _, -, _, -, _, -, _, -, done⟩
  rcases done with ⟨_, -, _, -, _, -, _, -, _, -, _, -, _, -, _, -, done⟩
  rcases done with ⟨_, -, _, -, debited, debit, accounts, created, done⟩
  rcases done with ⟨authorities, -, delegations, -, done⟩
  refine ⟨debited, accounts, authorities, delegations, _, ?_, created, ?_⟩
  · refine touches_modifyAccount db _ [.balance, .delegated] ?_ debited debit
    intro account changed equal aspect outside
    simp only [bind_eq_ok_iff, pure_eq_ok_iff] at equal
    rcases equal with ⟨_, -, _, -, rfl⟩
    cases aspect <;> simp [AccountAspect.read] at outside ⊢
  · split at done
    case isFalse =>
      cases done
      exact .inl rfl
    case isTrue =>
      rw [bind_eq_ok_iff] at done
      rcases done with ⟨⟨vested, shares⟩, vest, equal⟩
      cases equal
      exact .inr ⟨_, shares, vest⟩

theorem opensAccountNow_accountCreateWithDelegation
    (done : db.accountCreateWithDelegationEvaluator op = .ok after) :
    OpensAccountNow db after op.newAccountName := by
  rcases accountCreateWithDelegation_cases done with ⟨debited, accounts,
    authorities, delegations, _, touched, created, vested⟩
  refine ⟨debited, { debited with
    accounts := accounts
    authorities := authorities
    delegations := delegations }, _, ?_, ?_, created, ?_, ?_⟩
  · exact fun _ => ⟨rfl, headBlockTime_of_agrees touched rfl⟩
  · exact touched.mono (by decide)
  · exact trans_of _
      ((agrees_accounts debited accounts authorities).mono (by decide))
      ((agrees_delegations _ delegations).mono (by decide))
  · rcases vested with rfl | ⟨_, _, vest⟩
    · exact refl_of _ _
    · exact (agrees_createVesting_shares vest).mono (by decide)

theorem touches_updateOwnerAuthority
    (db : Database)
    (name : AccountName)
    (owner : Authority) :
    Touches [.ownerHistory, .authorities] db
      (db.updateOwnerAuthority name owner) := by
  refine .read fun _ _ => ?_
  exact .after ((touches_modifyAuthority _ _ _).mono (by decide))
    ((agrees_ownerHistory db _).mono (by decide))

theorem touches_accountUpdate
    (ext : External)
    (op : AccountUpdateOperation)
    (db : Database) :
    Touches [.account .profile, .authorities, .ownerHistory] db
      (db.accountUpdateEvaluator ext op) := by
  refine .read fun _ _ => .read fun _ _ => .read fun _ _ => ?_
  refine .read fun authority _ => ?_
  have owner : Touches [.account .profile, .authorities, .ownerHistory] db
      (db.changeOwner op authority.lastOwnerUpdate) := by
    unfold changeOwner
    split
    · exact .unchanged
    · refine .read fun _ _ => .read fun _ _ => ?_
      exact (touches_updateOwnerAuthority db _ _).mono (by decide)
  refine .bind owner fun middle => ?_
  refine .read fun _ _ => .read fun _ _ => ?_
  refine .bind ((touches_modifyAccount middle _ [.profile] ?_).mono
    (by decide)) fun changed => ?_
  · intro account changed equal aspect outside
    simp only [bind_eq_ok_iff, pure_eq_ok_iff] at equal
    rcases equal with ⟨_, -, rfl⟩
    cases aspect <;> simp [AccountAspect.read] at outside ⊢
  split
  · exact (touches_modifyAuthority changed _ _).mono (by decide)
  · exact .unchanged

theorem touches_requestAccountRecovery
    (op : RequestAccountRecoveryOperation)
    (db : Database) :
    Touches [.recoveryRequests] db
      (db.requestAccountRecoveryEvaluator op) := by
  refine .read fun _ _ => .read fun _ _ => ?_
  dsimp only
  split
  · refine .read fun _ _ => .read fun _ _ => .read fun _ _ => ?_
    exact .ok (agrees_recoveryRequests db _)
  · split
    · exact .ok (agrees_recoveryRequests db _)
    · refine .read fun _ _ => .read fun _ _ => ?_
      exact .ok (agrees_recoveryRequests db _)

theorem touches_recoverAccount
    (op : RecoverAccountOperation)
    (db : Database) :
    Touches [.recoveryRequests, .ownerHistory, .authorities,
      .account .profile] db (db.recoverAccountEvaluator op) := by
  refine .read fun _ _ => .read fun _ _ => .read fun request _ => ?_
  refine .read fun _ _ => .read fun _ _ => ?_
  have removed := agrees_recoveryRequests db
    (db.recoveryRequests.remove request.1)
  refine .after ?_ (removed.mono (by decide))
  refine .bind ((touches_updateOwnerAuthority _ _ _).mono (by decide)) ?_
  intro owned
  refine (touches_modifyAccount_pure owned _ [.profile] ?_).mono (by decide)
  intro account aspect outside
  cases aspect <;> simp [AccountAspect.read] at outside ⊢

theorem touches_changeRecoveryAccount
    (op : ChangeRecoveryAccountOperation)
    (db : Database) :
    Touches [.changeRecoveryRequests] db
      (db.changeRecoveryAccountEvaluator op) := by
  refine .read fun _ _ => .read fun _ _ => ?_
  dsimp only
  split
  · exact .ok (agrees_changeRecoveryRequests db _)
  · split
    · exact .ok (agrees_changeRecoveryRequests db _)
    · exact .ok (agrees_changeRecoveryRequests db _)

theorem touches_declineVotingRights
    (op : DeclineVotingRightsOperation)
    (db : Database) :
    Touches [.declineRequests] db (db.declineVotingRightsEvaluator op) := by
  refine .read fun _ _ => ?_
  dsimp only
  split
  · exact .read fun _ _ => .ok (agrees_declineRequests db _)
  · exact .read fun _ _ => .ok (agrees_declineRequests db _)

/-! ## Witnesses and delegations -/

/-- All aspects of the witnesses. -/
def witnessFields : List Field :=
  [.witnessIds, .witness .identity, .witness .votes, .witness .race,
    .witness .service]

theorem agrees_witnesses
    (db : Database)
    (witnesses : Register WitnessObject) :
    Agrees witnessFields db { db with witnesses := witnesses } := by
  intro field outside
  cases field with
  | witness aspect => cases aspect <;> exact absurd (by decide) outside
  | witnessIds => exact absurd (by decide) outside
  | _ => rfl

/-- A witness is updated, or a new one has no votes and no place in the race. -/
theorem witnessUpdate_cases
    {op : WitnessUpdateOperation}
    (done : db.witnessUpdateEvaluator op = .ok after) :
    (db.modifyWitness op.owner fun witness => pure
        { witness with
          url := op.url
          signingKey := op.blockSigningKey
          props := op.props }) = .ok after ∨
      db.witnesses.find? op.owner = none ∧
        after = { db with
          witnesses := db.witnesses.emplace op.owner
            { id := db.witnesses.nextId
              owner := op.owner
              url := op.url
              signingKey := op.blockSigningKey
              created := db.headBlockTime
              props := op.props } } := by
  simp only [witnessUpdateEvaluator, bind_eq_ok_iff] at done
  rcases done with ⟨_, -, _, -, _, -, done⟩
  split at done
  case h_1 witness found =>
    left
    rw [modifyWitness, modifyNamed, found]
    exact done
  case h_2 free =>
    cases done
    exact .inr ⟨free, rfl⟩

theorem agrees_updateWitness
    {op : WitnessUpdateOperation}
    (updated : (db.modifyWitness op.owner fun witness => pure
      { witness with
        url := op.url
        signingKey := op.blockSigningKey
        props := op.props }) = .ok after) :
    Agrees [.witness .service] db after := by
  refine touches_modifyWitness_pure db op.owner [.service] ?_ after updated
  intro witness aspect outside
  cases aspect <;> simp [WitnessAspect.read] at outside ⊢

theorem touches_witnessUpdate
    (op : WitnessUpdateOperation)
    (db : Database) :
    Touches witnessFields db (db.witnessUpdateEvaluator op) := by
  refine .read fun _ _ => .read fun _ _ => .read fun _ _ => ?_
  split
  · exact .ok (agrees_witnesses db _)
  · exact .ok (agrees_witnesses db _)

/-- What a change of proxy touches. -/
def proxyFields : List Field :=
  [.account .proxied, .witness .votes, .witness .race, .witnessVotes,
    .account .votedFor, .account .proxy]

theorem touches_accountWitnessProxy
    (op : AccountWitnessProxyOperation)
    (db : Database) :
    Touches proxyFields db (db.accountWitnessProxyEvaluator op) := by
  have setProxy : ∀ state : Database, Touches proxyFields state
      (state.modifyAccount op.account fun account =>
        pure { account with proxy := op.proxy }) :=
    fun state => (touches_setProxy state _ _).mono (by decide)
  refine .read fun _ _ => .read fun _ _ => .read fun _ _ => ?_
  refine .read fun deltas _ => ?_
  refine .bind ((touches_adjustProxiedDeltasFrom _ db _ _).mono (by decide)) ?_
  intro taken
  split
  · refine .read fun _ _ => .read fun _ _ => ?_
    refine .bind ((touches_clearWitnessVotes taken _).mono (by decide)) ?_
    intro cleared
    refine .bind (setProxy cleared) fun changed => ?_
    refine .read fun _ _ => ?_
    exact (touches_adjustProxiedDeltasFrom _ changed _ _).mono (by decide)
  · exact setProxy taken

theorem touches_accountWitnessVote
    (op : AccountWitnessVoteOperation)
    (db : Database) :
    Touches [.witnessVotes, .witness .votes, .witness .race,
      .account .votedFor] db (db.accountWitnessVoteEvaluator op) := by
  refine .read fun voter _ => .read fun _ _ => .read fun _ _ => ?_
  refine .read fun witness _ => .read fun _ _ => ?_
  split
  · refine .read fun _ _ => .read fun _ _ => ?_
    have added := agrees_witnessVotes db
      (db.witnessVotes.emplace ⟨witness.id, voter.id⟩)
    refine .after ?_ (added.mono (by decide))
    refine .bind ((touches_adjustWitnessVote _ _ _).mono (by decide)) ?_
    exact fun voted =>
      (touches_countVotes voted op.account (increment 16)).mono (by decide)
  · refine .read fun _ _ => .read fun _ _ => ?_
    refine .bind ((touches_adjustWitnessVote db _ _).mono (by decide)) ?_
    intro voted
    refine .bind ((touches_countVotes voted op.account (decrement 16)).mono
      (by decide)) fun counted => ?_
    exact .ok ((agrees_witnessVotes counted _).mono (by decide))

theorem touches_addReceived
    (db : Database)
    (name : AccountName)
    (delta : Int) :
    Touches [.account .received] db (db.addReceived name delta) := by
  refine touches_modifyAccount db name [.received] ?_
  intro account changed equal aspect outside
  simp only [bind_eq_ok_iff, pure_eq_ok_iff] at equal
  rcases equal with ⟨_, -, rfl⟩
  cases aspect <;> simp [AccountAspect.read] at outside ⊢

theorem touches_addDelegated
    (db : Database)
    (name : AccountName)
    (delta : Int) :
    Touches [.account .delegated] db (db.addDelegated name delta) := by
  refine touches_modifyAccount db name [.delegated] ?_
  intro account changed equal aspect outside
  simp only [bind_eq_ok_iff, pure_eq_ok_iff] at equal
  rcases equal with ⟨_, -, rfl⟩
  cases aspect <;> simp [AccountAspect.read] at outside ⊢

/-- What a delegation touches. -/
def delegationFields : List Field :=
  [.delegations, .delegationExpirations, .account .delegated,
    .account .received]

theorem touches_delegateVestingShares
    (op : DelegateVestingSharesOperation)
    (db : Database) :
    Touches delegationFields db (db.delegateVestingSharesEvaluator op) := by
  refine .read fun _ _ => .read fun _ _ => .read fun _ _ => ?_
  refine .read fun _ _ => .read fun _ _ => .read fun _ _ => ?_
  refine .read fun shares _ => ?_
  split
  · refine .read fun _ _ => .read fun _ _ => ?_
    have added := agrees_delegations db (db.delegations.emplace
      ⟨op.delegator, op.delegatee, shares, db.headBlockTime⟩)
    refine .after ?_ (added.mono (by decide))
    refine .bind ((touches_addDelegated _ _ _).mono (by decide)) ?_
    exact fun given => (touches_addReceived given _ _).mono (by decide)
  · rename_i delegation _
    split
    · refine .read fun _ _ => .read fun _ _ => .read fun _ _ => ?_
      refine .bind ((touches_addDelegated db _ _).mono (by decide)) ?_
      intro given
      refine .bind ((touches_addReceived given _ _).mono (by decide)) ?_
      exact fun received =>
        .ok ((agrees_delegations received _).mono (by decide))
    · refine .read fun delta _ => .read fun _ _ => .read fun _ _ => ?_
      refine .read fun _ _ => ?_
      have added := agrees_delegationExpirations db
        (db.delegationExpirations.emplace
          ⟨op.delegator, delta,
            max (addSeconds db.headBlockTime cashoutWindowSeconds)
              delegation.minDelegationTime⟩)
      refine .after ?_ (added.mono (by decide))
      refine .bind ((touches_addReceived _ _ _).mono (by decide)) ?_
      intro received
      split
      · exact .ok ((agrees_delegations received _).mono (by decide))
      · exact .ok ((agrees_delegations received _).mono (by decide))

/-! ## Content -/

theorem touches_updateParents
    (change : CommentObject → CommentObject)
    (rounds : Nat)
    (db : Database)
    (author : AccountName)
    (permlink : Text) :
    Touches [.comments] db (updateParents change rounds db author permlink) := by
  induction rounds generalizing db author permlink with
  | zero => exact .error _
  | succ rounds induction =>
      unfold updateParents
      split
      · exact .unchanged
      · refine .read fun parent _ => ?_
        refine .bind (touches_modifyComment db _ _) ?_
        exact fun changed => induction changed _ _

theorem touches_deleteComment
    (op : DeleteCommentOperation)
    (db : Database) :
    Touches [.commentVotes, .comments] db (db.deleteCommentEvaluator op) := by
  refine .read fun _ _ => .read fun _ _ => .read fun entry _ => ?_
  refine .read fun _ _ => .read fun _ _ => .read fun _ _ => ?_
  have dropped := agrees_commentVotes db ((db.votesOfComment entry.1).foldl
    (fun votes vote => votes.remove vote.1) db.commentVotes)
  refine .after ?_ (dropped.mono (by decide))
  refine .bind ((touches_updateParents _ _ _ _ _).mono (by decide)) ?_
  exact fun told => .ok ((agrees_comments told _).mono (by decide))

theorem touches_commentOptions
    (op : CommentOptionsOperation)
    (db : Database) :
    Touches [.comments] db (db.commentOptionsEvaluator op) := by
  refine .read fun _ _ => .read fun _ _ => .read fun _ _ => ?_
  refine .read fun _ _ => .read fun _ _ => .read fun _ _ => ?_
  refine .read fun _ _ => .read fun _ _ => ?_
  refine .bind (touches_modifyComment db _ _) fun changed => ?_
  refine .foldlM _ fun state extension => ?_
  cases extension with
  | payoutBeneficiaries beneficiaries =>
      exact touches_modifyComment state _ _
  | curationRewardsPercent percent =>
      exact .read fun _ _ => touches_modifyComment state _ _

/-- What posting touches. -/
def commentFields : List Field :=
  .account .activity :: .comments :: emissionFields

theorem touches_countPost
    (db : Database)
    (op : CommentOperation) :
    Touches [.account .activity] db (db.countPost op) := by
  refine touches_modifyAccount_pure db _ [.activity] ?_
  intro account aspect outside
  cases aspect <;> simp [AccountAspect.read] at outside ⊢

theorem touches_storeComment
    (db : Database)
    (op : CommentOperation)
    (comment : CommentObject) :
    Touches (.comments :: emissionFields) db (db.storeComment op comment) := by
  refine .read fun _ _ => .read fun _ _ => .read fun comments _ => ?_
  refine .after ?_ ((agrees_comments db comments).mono (by decide))
  refine .bind ((touches_updateParents _ _ _ _ _).mono (by decide)) ?_
  exact fun told => (touches_processFundsBmchain told _).mono (by decide)

theorem touches_editComment
    (ext : External)
    (db : Database)
    (id : Nat)
    (op : CommentOperation) :
    Touches [.comments] db (db.editComment ext id op) :=
  touches_modifyComment db _ _

theorem touches_comment
    (ext : External)
    (op : CommentOperation)
    (db : Database) :
    Touches commentFields db (db.commentEvaluator ext op) := by
  refine .read fun _ _ => ?_
  dsimp only
  split
  · refine .read fun _ _ => .read fun _ _ => ?_
    refine .bind ((touches_countPost db _).mono (by decide)) ?_
    exact fun counted => (touches_storeComment counted _ _).mono (by decide)
  · exact (touches_editComment ext db _ _).mono (by decide)

/-- What encrypted content touches. -/
def encryptedFields : List Field :=
  .contentOrders :: commentFields

theorem touches_settleOrder
    (db : Database)
    (author : AccountName)
    (orderId : Nat) :
    Touches [.account .balance, .contentOrders] db
      (db.settleOrder author orderId) := by
  refine .read fun _ _ => .read fun _ _ => ?_
  refine .bind ((touches_addBalance db _ _).mono (by decide)) ?_
  exact fun credited =>
    (touches_modifyContentOrder credited _ _).mono (by decide)

theorem touches_encryptedContent
    (ext : External)
    (op : EncryptedContentOperation)
    (db : Database) :
    Touches encryptedFields db (db.encryptedContentEvaluator ext op) := by
  refine .read fun _ _ => ?_
  have settled : Touches encryptedFields db
      (if usingCloseContent ≤ db.headBlockNum ∧ op.applyOrder then
        db.settleOrder op.author op.orderId
      else pure db) := by
    split
    · exact (touches_settleOrder db _ _).mono (by decide)
    · exact .unchanged
  refine .bind settled fun paid => ?_
  split
  · refine .read fun _ _ => .read fun _ _ => ?_
    refine .bind ((touches_countPost paid _).mono (by decide)) ?_
    refine fun counted => .read fun comment _ => ?_
    exact (touches_storeComment counted _ _).mono (by decide)
  · exact (touches_editComment ext paid _ _).mono (by decide)

/-- What a vote touches. -/
def voteFields : List Field :=
  .account .voting :: .comments :: .commentVotes :: emissionFields

theorem touches_spendVotePower
    (db : Database)
    (voter : AccountName)
    (power : VotePower) :
    Touches [.account .voting] db (db.spendVotePower voter power) := by
  refine touches_modifyAccount_pure db _ [.voting] ?_
  intro account aspect outside
  cases aspect <;> simp [AccountAspect.read] at outside ⊢

theorem touches_addChildrenRshares
    (db : Database)
    (root : Nat)
    (absRshares : Int) :
    Touches [.comments] db (db.addChildrenRshares root absRshares) :=
  touches_modifyComment db _ _

theorem touches_castVote
    (ext : External)
    (db : Database)
    (op : VoteOperation)
    (voter : AccountObject)
    (id : Nat)
    (comment : CommentObject)
    (power : VotePower) :
    Touches voteFields db (db.castVote ext op voter id comment power) := by
  refine .read fun _ _ => .read fun _ _ => ?_
  refine .bind ((touches_spendVotePower db _ _).mono (by decide)) ?_
  refine fun spent => .read fun _ _ => .read fun _ _ => ?_
  refine .read fun net _ => .read fun abs _ => .read fun upvotes _ => ?_
  refine .after (Respects.bind
    ((touches_addChildrenRshares _ _ _).mono (by decide)) ?_)
    ((agrees_comments spent _).mono (by decide))
  refine fun counted => .read fun weights _ => ?_
  refine .after (Respects.bind
    ((touches_modifyComment _ _ _).mono (by decide)) ?_)
    ((agrees_commentVotes counted _).mono (by decide))
  exact fun weighed =>
    (touches_processFundsBmchain weighed _).mono (by decide)

theorem touches_changeVote
    (db : Database)
    (op : VoteOperation)
    (id : Nat)
    (comment : CommentObject)
    (voteId : Nat)
    (vote : CommentVoteObject)
    (power : VotePower) :
    Touches [.account .voting, .comments, .commentVotes] db
      (db.changeVote op id comment voteId vote power) := by
  refine .read fun _ _ => .read fun _ _ => ?_
  refine .bind ((touches_spendVotePower db _ _).mono (by decide)) ?_
  refine fun spent => .read fun _ _ => .read fun _ _ => ?_
  refine .read fun net _ => .read fun abs _ => ?_
  refine .after (Respects.bind
    ((touches_addChildrenRshares _ _ _).mono (by decide)) ?_)
    ((agrees_comments spent _).mono (by decide))
  intro counted
  refine .bind ((touches_modifyComment counted _ _).mono (by decide)) ?_
  exact fun weighed => .ok ((agrees_commentVotes weighed _).mono (by decide))

theorem touches_vote
    (ext : External)
    (op : VoteOperation)
    (db : Database) :
    Touches voteFields db (db.voteEvaluator ext op) := by
  refine .read fun _ _ => .read fun _ _ => .read fun _ _ => ?_
  refine .read fun _ _ => .read fun _ _ => .read fun _ _ => ?_
  split
  · exact .unchanged
  · refine .read fun _ _ => ?_
    split
    · exact touches_castVote ext db _ _ _ _ _
    · exact (touches_changeVote db _ _ _ _ _ _).mono (by decide)

/-- What an order for closed content touches. -/
def orderFields : List Field :=
  [.account .balance, .contentOrders]

theorem touches_contentOrderCreate
    (op : ContentOrderCreateOperation)
    (db : Database) :
    Touches orderFields db (db.contentOrderCreateEvaluator op) := by
  unfold contentOrderCreateEvaluator
  split
  · exact .unchanged
  · refine .read fun _ _ => .read fun _ _ => .read fun _ _ => ?_
    refine .read fun _ _ => .read fun _ _ => .read fun _ _ => ?_
    split
    · refine .bind ((touches_addBalance db _ _).mono (by decide)) ?_
      refine fun debited => .read fun orders _ => ?_
      exact .ok ((agrees_contentOrders debited orders).mono (by decide))
    · split
      · refine .read fun _ _ => ?_
        refine .bind ((touches_addBalance db _ _).mono (by decide)) ?_
        exact fun debited =>
          (touches_modifyContentOrder debited _ _).mono (by decide)
      · exact .unchanged

theorem touches_refundOrder
    (db : Database)
    (id : Nat)
    (order : ContentOrderObject)
    (name : AccountName) :
    Touches orderFields db (db.refundOrder id order name) := by
  refine .read fun _ _ => ?_
  refine .bind ((touches_addBalance db _ _).mono (by decide)) ?_
  exact fun credited =>
    (touches_modifyContentOrder credited _ _).mono (by decide)

theorem touches_contentOrderCancel
    (op : ContentOrderCancelOperation)
    (db : Database) :
    Touches orderFields db (db.contentOrderCancelEvaluator op) := by
  unfold contentOrderCancelEvaluator
  split
  · exact .unchanged
  · refine .read fun _ _ => .read fun _ _ => ?_
    exact touches_refundOrder db _ _ _

theorem touches_contentOrderCancelByAuthor
    (op : ContentOrderCancelByAuthorOperation)
    (db : Database) :
    Touches orderFields db (db.contentOrderCancelByAuthorEvaluator op) := by
  unfold contentOrderCancelByAuthorEvaluator
  split
  · exact .unchanged
  · refine .read fun _ _ => .read fun _ _ => ?_
    exact touches_refundOrder db _ _ _

/-! ## Transfers, savings and escrows -/

theorem touches_proveActive
    (db : Database)
    (name : AccountName)
    (account : AccountObject) :
    Touches [.account .profile] db (db.proveActive name account) := by
  unfold proveActive
  split
  · refine touches_modifyAccount_pure db _ [.profile] ?_
    intro account aspect outside
    cases aspect <;> simp [AccountAspect.read] at outside ⊢
  · exact .unchanged

theorem touches_transfer
    (op : TransferOperation)
    (db : Database) :
    Touches [.account .profile, .account .balance] db
      (db.transferEvaluator op) := by
  refine .read fun _ _ => .read fun _ _ => ?_
  refine .bind ((touches_proveActive db _ _).mono (by decide)) ?_
  refine fun proved => .read fun _ _ => .read fun _ _ => .read fun _ _ => ?_
  refine .bind ((touches_adjustBalance proved _ _).mono (by decide)) ?_
  exact fun debited => (touches_adjustBalance debited _ _).mono (by decide)

theorem touches_transferToSavings
    (op : TransferToSavingsOperation)
    (db : Database) :
    Touches [.account .balance, .account .savings] db
      (db.transferToSavingsEvaluator op) := by
  refine .read fun _ _ => .read fun _ _ => ?_
  refine .read fun _ _ => .read fun _ _ => .read fun _ _ => ?_
  refine .bind ((touches_adjustBalance db _ _).mono (by decide)) ?_
  exact fun debited =>
    (touches_adjustSavingsBalance debited _ _).mono (by decide)

theorem agrees_savingsWithdraws
    (db : Database)
    (savingsWithdraws : Table SavingsWithdrawObject) :
    Agrees [.savingsWithdraws] db
      { db with savingsWithdraws := savingsWithdraws } := by
  intro field outside
  cases field with
  | savingsWithdraws => exact absurd (by simp) outside
  | _ => rfl

theorem touches_cancelTransferFromSavings
    (op : CancelTransferFromSavingsOperation)
    (db : Database) :
    Touches [.account .savings, .savingsWithdraws, .account .activity] db
      (db.cancelTransferFromSavingsEvaluator op) := by
  refine .read fun _ _ => ?_
  refine .bind ((touches_adjustSavingsBalance db _ _).mono (by decide)) ?_
  intro returned
  refine .after
    ((touches_modifyAccount_pure _ op.fromAccount [.activity] ?_).mono
      (by decide))
    ((agrees_savingsWithdraws returned _).mono (by decide))
  intro account aspect outside
  cases aspect <;> simp [AccountAspect.read] at outside ⊢

theorem touches_withdrawSavings
    (op : WithdrawSavingsOperation)
    (db : Database) :
    Touches [.account .withdrawal] db (db.withdrawSavingsEvaluator op) := by
  refine .read fun _ _ => .read fun _ _ => ?_
  split
  · refine .read fun _ _ => ?_
    refine touches_modifyAccount_pure db _ [.withdrawal] ?_
    intro account aspect outside
    cases aspect <;> simp [AccountAspect.read] at outside ⊢
  · refine touches_modifyAccount db _ [.withdrawal] ?_
    intro account changed equal aspect outside
    simp only [bind_eq_ok_iff, pure_eq_ok_iff] at equal
    rcases equal with ⟨_, -, _, -, rfl⟩
    cases aspect <;> simp [AccountAspect.read] at outside ⊢

theorem touches_countRoutes
    (db : Database)
    (name : AccountName)
    (change : Nat → Nat) :
    Touches [.account .routes] db (db.modifyAccount name fun account =>
      pure { account with withdrawRoutes := change account.withdrawRoutes }) := by
  refine touches_modifyAccount_pure db _ [.routes] ?_
  intro account aspect outside
  cases aspect <;> simp [AccountAspect.read] at outside ⊢

theorem touches_setWithdrawSavingsRoute
    (op : SetWithdrawSavingsRouteOperation)
    (db : Database) :
    Touches [.withdrawRoutes, .account .routes] db
      (db.setWithdrawSavingsRouteEvaluator op) := by
  have written : ∀ account route,
      Touches [.withdrawRoutes, .account .routes] db
        (db.writeRoute op account route) := by
    intro account route
    unfold writeRoute
    split
    · refine .read fun _ _ => .read fun _ _ => ?_
      exact .after
        ((touches_countRoutes _ _ (increment 16)).mono (by decide))
        ((agrees_withdrawRoutes db _).mono (by decide))
    · split
      · exact .after
          ((touches_countRoutes _ _ (decrement 16)).mono (by decide))
          ((agrees_withdrawRoutes db _).mono (by decide))
      · exact .ok ((agrees_withdrawRoutes db _).mono (by decide))
  refine .read fun _ _ => .read fun _ _ => .bind (written _ _) ?_
  exact fun _ => .read fun _ _ => .unchanged

/-- What a claim of rewards touches. -/
def claimFields : List Field :=
  [.account .rewardBmt, .account .balance, .account .shares,
    .account .rewardShares, .account .rewardBacking, .props .vestingShares,
    .props .vestingFund, .props .pendingShares, .props .pendingBacking,
    .account .proxied, .witness .votes, .witness .race]

theorem touches_claimRewardBalance
    (op : ClaimRewardBalanceOperation)
    (db : Database) :
    Touches claimFields db (db.claimRewardBalanceEvaluator op) := by
  refine .read fun _ _ => .read fun _ _ => .read fun _ _ => ?_
  refine .read fun _ _ => .read fun _ _ => .read fun _ _ => ?_
  refine .read fun _ _ => ?_
  refine .bind ((touches_adjustRewardBalance db _ _).mono (by decide)) ?_
  intro taken
  refine .bind ((touches_adjustBalance taken _ _).mono (by decide)) ?_
  intro given
  refine .bind ((touches_modifyAccount given op.account
    [.shares, .rewardShares, .rewardBacking] ?_).mono (by decide)) ?_
  · intro account changed equal aspect outside
    simp only [bind_eq_ok_iff, pure_eq_ok_iff] at equal
    rcases equal with ⟨_, -, _, -, _, -, rfl⟩
    cases aspect <;> simp [AccountAspect.read] at outside ⊢
  refine fun moved => .read fun total _ => .read fun fund _ => ?_
  refine .read fun pendingShares _ => .read fun pendingBmt _ => ?_
  refine .after
    ((touches_adjustProxiedVotesFrom _ _ _ _).mono (by decide))
    ((agrees_props moved
      [.vestingShares, .vestingFund, .pendingShares, .pendingBacking] ?_).mono
      (by decide))
  intro aspect outside
  cases aspect <;> simp [PropsAspect.read] at outside ⊢

/-- What money in escrow touches. -/
def escrowFields : List Field :=
  [.account .balance, .escrows]

theorem touches_escrowTransfer
    (op : EscrowTransferOperation)
    (db : Database) :
    Touches escrowFields db (db.escrowTransferEvaluator op) := by
  refine .read fun _ _ => .read fun _ _ => .read fun _ _ => ?_
  refine .read fun _ _ => .read fun _ _ => .read fun _ _ => ?_
  refine .read fun _ _ => .read fun _ _ => .read fun _ _ => ?_
  refine .bind ((touches_adjustBalance db _ _).mono (by decide)) ?_
  refine fun debited => .read fun escrows _ => ?_
  exact .ok ((agrees_escrows debited escrows).mono (by decide))

theorem touches_returnEscrow
    (db : Database)
    (sender : AccountName)
    (id : Nat)
    (escrow : EscrowObject) :
    Touches escrowFields db (db.returnEscrow sender id escrow) := by
  refine .bind ((touches_adjustBalance db _ _).mono (by decide)) ?_
  intro paid
  refine .bind ((touches_adjustBalance paid _ _).mono (by decide)) ?_
  exact fun settled => .ok ((agrees_escrows settled _).mono (by decide))

theorem touches_payAgent
    (db : Database)
    (agent : AccountName)
    (id : Nat)
    (escrow : EscrowObject) :
    Touches escrowFields db (db.payAgent agent id escrow) := by
  unfold payAgent
  split
  · refine .bind ((touches_adjustBalance db _ _).mono (by decide)) ?_
    exact fun paid => .ok ((agrees_escrows paid _).mono (by decide))
  · exact .unchanged

theorem touches_escrowApprove
    (op : EscrowApproveOperation)
    (db : Database) :
    Touches escrowFields db (db.escrowApproveEvaluator op) := by
  refine .read fun _ _ => .read fun _ _ => .read fun _ _ => ?_
  refine .read fun _ _ => .read fun _ _ => .read fun _ _ => ?_
  split
  · exact touches_returnEscrow db _ _ _
  · exact .after (touches_payAgent _ _ _ _)
      ((agrees_escrows db _).mono (by decide))

theorem touches_escrowDispute
    (op : EscrowDisputeOperation)
    (db : Database) :
    Touches [.escrows] db (db.escrowDisputeEvaluator op) := by
  refine .read fun _ _ => .read fun _ _ => .read fun _ _ => ?_
  refine .read fun _ _ => .read fun _ _ => .read fun _ _ => ?_
  exact .read fun _ _ => .ok (agrees_escrows db _)

theorem touches_escrowRelease
    (op : EscrowReleaseOperation)
    (db : Database) :
    Touches escrowFields db (db.escrowReleaseEvaluator op) := by
  refine .read fun _ _ => .read fun _ _ => .read fun _ _ => ?_
  refine .read fun _ _ => .read fun _ _ => .read fun _ _ => ?_
  refine .read fun _ _ => .read fun _ _ => .read fun _ _ => ?_
  refine .read fun _ _ => ?_
  refine .bind ((touches_adjustBalance db _ _).mono (by decide)) ?_
  refine fun paid => .read fun _ _ => ?_
  split
  · exact .ok ((agrees_escrows paid _).mono (by decide))
  · exact .ok ((agrees_escrows paid _).mono (by decide))

/-! ## Limit orders and custom tokens -/

/-- What a limit order touches. -/
def marketFields : List Field :=
  [.account .balance, .limitOrders, .virtualOperations]

theorem touches_cancelOrder
    (db : Database)
    (id : Nat)
    (order : LimitOrderObject) :
    Touches [.account .balance, .limitOrders] db (db.cancelOrder id order) := by
  refine .bind ((touches_adjustBalance db _ _).mono (by decide)) ?_
  exact fun paid => .ok ((agrees_limitOrders paid _).mono (by decide))

theorem agrees_fillOrder
    {id : Nat}
    {pays receives : Asset}
    {gone : Bool}
    (done : db.fillOrder id pays receives = .ok (after, gone)) :
    Agrees marketFields db after := by
  simp only [fillOrder, bind_eq_ok_iff] at done
  rcases done with ⟨order, -, _, -, _, -, paid, pay, rest⟩
  have credited : Agrees marketFields db paid :=
    (touches_adjustBalance db _ _ paid pay).mono (by decide)
  have listed : ∀ orders, Agrees marketFields paid
      { paid with limitOrders := orders } :=
    fun orders => (agrees_limitOrders paid orders).mono (by decide)
  split at rest
  · cases rest
    exact trans_of _ credited (listed _)
  · simp only [bind_eq_ok_iff] at rest
    rcases rest with ⟨left, -, wanted, -, rest⟩
    have reduced := trans_of _ credited
      (listed (paid.limitOrders.set id { order with forSale := left }))
    split at rest
    · rw [bind_eq_ok_iff] at rest
      rcases rest with ⟨canceled, cancel, equal⟩
      rcases Prod.mk.inj (Except.ok.inj equal) with ⟨rfl, -⟩
      exact trans_of _ reduced
        ((touches_cancelOrder _ _ _ canceled cancel).mono (by decide))
    · cases rest
      exact reduced

theorem agrees_matchOrders
    {newId oldId result : Nat}
    (done : db.matchOrders newId oldId = .ok (after, result)) :
    Agrees marketFields db after := by
  simp only [matchOrders, bind_eq_ok_iff] at done
  rcases done with ⟨newOrder, -, oldOrder, -, offered, -, fits, -, done⟩
  rcases done with ⟨⟨oldReceives, newReceives⟩, -, done⟩
  rcases done with ⟨⟨first, newFilled⟩, firstFill, done⟩
  rcases done with ⟨⟨second, oldFilled⟩, secondFill, equal⟩
  cases equal
  refine trans_of _ (trans_of _ ?_ (agrees_fillOrder firstFill))
    (agrees_fillOrder secondFill)
  exact (agrees_virtualOperations db _).mono (by decide)

theorem touches_matchAll
    (newId : Nat)
    (orders : List Nat)
    (db : Database) :
    Touches marketFields db (matchAll newId orders db) := by
  induction orders generalizing db with
  | nil => exact .unchanged
  | cons oldId rest induction =>
      refine .read ?_
      rintro ⟨filled, result⟩ done
      refine .after ?_ (agrees_matchOrders done)
      dsimp only
      split
      · exact .unchanged
      · exact induction filled

theorem touches_createOrder
    (db : Database)
    (owner : AccountName)
    (orderid : Nat)
    (amountToSell : Asset)
    (getPrice : Except Fault Price)
    (fillOrKill : Bool)
    (expiration : Time) :
    Touches marketFields db
      (db.createOrder owner orderid amountToSell getPrice fillOrKill
        expiration) := by
  refine .read fun _ _ => .read fun _ _ => .read fun _ _ => ?_
  refine .read fun _ _ => .read fun _ _ => ?_
  refine .bind ((touches_adjustBalance db _ _).mono (by decide)) ?_
  refine fun debited => .read fun _ _ => .read fun orders _ => ?_
  refine .after ?_ ((agrees_limitOrders debited orders).mono (by decide))
  refine .read ?_
  rintro ⟨final, filled⟩ applied
  simp only [applyOrder, bind_eq_ok_iff] at applied
  rcases applied with ⟨_, -, _, -, matched, ran, equal⟩
  cases equal
  exact .read fun _ _ => .ok (touches_matchAll _ _ _ final ran)

theorem touches_limitOrderCancel
    (op : LimitOrderCancelOperation)
    (db : Database) :
    Touches marketFields db (db.limitOrderCancelEvaluator op) :=
  .read fun _ _ => (touches_cancelOrder db _ _).mono (by decide)

/-- What a new token touches. -/
def tokenFields : List Field :=
  [.customTokens, .accountBalances, .account .balance, .rewardFunds]

theorem touches_customTokenCreate
    (op : CustomTokenCreateOperation)
    (db : Database) :
    Touches tokenFields db (db.customTokenCreateEvaluator op) := by
  refine .read fun _ _ => .read fun _ _ => .read fun _ _ => ?_
  refine .read fun _ _ => ?_
  have created : ∀ tokens balances, Agrees tokenFields db
      { db with customTokens := tokens, accountBalances := balances } :=
    fun tokens balances => trans_of _
      ((agrees_customTokens db tokens).mono (by decide))
      ((agrees_accountBalances _ balances).mono (by decide))
  refine .after (Respects.bind
    ((touches_addBalance _ _ _).mono (by decide)) ?_) (created _ _)
  exact fun debited => (touches_payFee debited _).mono (by decide)

theorem touches_customTokenTransfer
    (op : CustomTokenTransferOperation)
    (db : Database) :
    Touches [.accountBalances] db (db.customTokenTransferEvaluator op) := by
  refine .read fun entry _ => .read fun _ _ => .read fun _ _ => ?_
  refine .read fun _ _ => .read fun left _ => ?_
  have debited := agrees_accountBalances db (db.accountBalances.set entry.1
    { entry.2 with balance := left })
  refine .after ?_ debited
  dsimp only
  split
  · exact .ok (agrees_accountBalances _ _)
  · exact .read fun _ _ => .ok (agrees_accountBalances _ _)

theorem touches_customTokenSetupEmissions
    (op : CustomTokenSetupEmissionsOperation)
    (db : Database) :
    Touches [.customTokens] db (db.customTokenSetupEmissionsEvaluator op) :=
  .read fun _ _ => .ok (agrees_customTokens db _)

theorem touches_customTokenSetSetupParameters
    (op : CustomTokenSetSetupParametersOperation)
    (db : Database) :
    Touches [.customTokens] db
      (db.customTokenSetSetupParametersEvaluator op) := by
  refine .read fun _ _ => .read fun _ _ => .read fun _ _ => ?_
  exact .ok (agrees_customTokens db _)

/-! ## Operations for plugins -/

theorem touches_custom
    (ext : External)
    (op : CustomOperation)
    (db : Database) :
    Touches [] db (db.customEvaluator ext op) :=
  .read fun _ _ => .unchanged

theorem touches_customJson
    (ext : External)
    (op : CustomJsonOperation)
    (db : Database) :
    Touches [] db (db.customJsonEvaluator ext op) :=
  .read fun _ _ => .unchanged

theorem touches_customBinary
    (ext : External)
    (op : CustomBinaryOperation)
    (db : Database) :
    Touches [] db (db.customBinaryEvaluator ext op) :=
  .read fun _ _ => .unchanged

theorem touches_privateMessage
    (ext : External)
    (op : PrivateMessageOperation)
    (db : Database) :
    Touches [] db (db.privateMessageEvaluator ext op) := by
  unfold privateMessageEvaluator
  split
  · exact .unchanged
  · refine .read fun _ _ => .read fun _ _ => .read fun _ _ => ?_
    exact .read fun _ _ => .read fun _ _ => .unchanged

/-! ## The registry -/

/-- What an operation can touch. -/
def footprint : Operation → List Field
  | .vote _ => voteFields
  | .comment _ => commentFields
  | .transfer _ => [.account .profile, .account .balance]
  | .withdrawSavings _ => [.account .withdrawal]
  | .limitOrderCreate _ | .limitOrderCreate2 _ | .limitOrderCancel _ =>
      marketFields
  | .accountCreate _ => accountFields ++ emissionFields
  | .accountUpdate _ => [.account .profile, .authorities, .ownerHistory]
  | .witnessUpdate _ => witnessFields
  | .accountWitnessVote _ =>
      [.witnessVotes, .witness .votes, .witness .race, .account .votedFor]
  | .accountWitnessProxy _ => proxyFields
  | .deleteComment _ => [.commentVotes, .comments]
  | .commentOptions _ => [.comments]
  | .setWithdrawSavingsRoute _ => [.withdrawRoutes, .account .routes]
  | .requestAccountRecovery _ => [.recoveryRequests]
  | .recoverAccount _ =>
      [.recoveryRequests, .ownerHistory, .authorities, .account .profile]
  | .changeRecoveryAccount _ => [.changeRecoveryRequests]
  | .escrowTransfer _ | .escrowApprove _ | .escrowRelease _ => escrowFields
  | .escrowDispute _ => [.escrows]
  | .transferToSavings _ => [.account .balance, .account .savings]
  | .cancelTransferFromSavings _ =>
      [.account .savings, .savingsWithdraws, .account .activity]
  | .declineVotingRights _ => [.declineRequests]
  | .claimRewardBalance _ => claimFields
  | .delegateVestingShares _ => delegationFields
  | .accountCreateWithDelegation _ =>
      .delegations :: accountFields ++ vestingFields
  | .contentOrderCreate _ | .contentOrderCancel _
  | .contentOrderCancelByAuthor _ => orderFields
  | .encryptedContent _ => encryptedFields
  | .customTokenCreate _ => tokenFields
  | .customTokenTransfer _ => [.accountBalances]
  | .customTokenSetupEmissions _ | .customTokenSetSetupParameters _ =>
      [.customTokens]
  | .transferToVesting _ | .feedPublish _ | .convert _ | .pow _ | .custom _
  | .reportOverProduction _ | .customJson _ | .challengeAuthority _
  | .proveAuthority | .pow2 _ | .transferFromSavings _ | .customBinary _
  | .resetAccount _ | .setResetAccount _ | .privateMessage _ | .virtual _ =>
      []

/-- An operation touches its footprint only. -/
theorem touches_applyOperation
    (ext : External)
    (db : Database)
    (op : Operation) :
    Touches (footprint op) db (db.applyOperation ext op) := by
  cases op with
  | vote op => exact touches_vote ext op db
  | comment op => exact touches_comment ext op db
  | transfer op => exact touches_transfer op db
  | transferToVesting op => exact .unchanged
  | withdrawSavings op => exact touches_withdrawSavings op db
  | limitOrderCreate op => exact touches_createOrder db _ _ _ _ _ _
  | limitOrderCancel op => exact touches_limitOrderCancel op db
  | feedPublish op => exact .unchanged
  | convert op => exact .unchanged
  | accountCreate op => exact touches_accountCreate ext op db
  | accountUpdate op => exact touches_accountUpdate ext op db
  | witnessUpdate op => exact touches_witnessUpdate op db
  | accountWitnessVote op => exact touches_accountWitnessVote op db
  | accountWitnessProxy op => exact touches_accountWitnessProxy op db
  | pow op => exact .unchanged
  | custom op => exact touches_custom ext op db
  | reportOverProduction op => exact .error _
  | deleteComment op => exact touches_deleteComment op db
  | customJson op => exact touches_customJson ext op db
  | commentOptions op => exact touches_commentOptions op db
  | setWithdrawSavingsRoute op =>
      exact touches_setWithdrawSavingsRoute op db
  | limitOrderCreate2 op => exact touches_createOrder db _ _ _ _ _ _
  | challengeAuthority op => exact .error _
  | proveAuthority => exact .error _
  | requestAccountRecovery op => exact touches_requestAccountRecovery op db
  | recoverAccount op => exact touches_recoverAccount op db
  | changeRecoveryAccount op => exact touches_changeRecoveryAccount op db
  | escrowTransfer op => exact touches_escrowTransfer op db
  | escrowDispute op => exact touches_escrowDispute op db
  | escrowRelease op => exact touches_escrowRelease op db
  | pow2 op => exact .error _
  | escrowApprove op => exact touches_escrowApprove op db
  | transferToSavings op => exact touches_transferToSavings op db
  | transferFromSavings op => exact .unchanged
  | cancelTransferFromSavings op =>
      exact touches_cancelTransferFromSavings op db
  | customBinary op => exact touches_customBinary ext op db
  | declineVotingRights op => exact touches_declineVotingRights op db
  | resetAccount op => exact .error _
  | setResetAccount op => exact .error _
  | claimRewardBalance op => exact touches_claimRewardBalance op db
  | delegateVestingShares op => exact touches_delegateVestingShares op db
  | accountCreateWithDelegation op =>
      exact touches_accountCreateWithDelegation op db
  | contentOrderCreate op => exact touches_contentOrderCreate op db
  | contentOrderCancel op => exact touches_contentOrderCancel op db
  | encryptedContent op => exact touches_encryptedContent ext op db
  | privateMessage op => exact touches_privateMessage ext op db
  | virtual op => exact .error _
  | contentOrderCancelByAuthor op =>
      exact touches_contentOrderCancelByAuthor op db
  | customTokenCreate op => exact touches_customTokenCreate op db
  | customTokenTransfer op => exact touches_customTokenTransfer op db
  | customTokenSetupEmissions op =>
      exact touches_customTokenSetupEmissions op db
  | customTokenSetSetupParameters op =>
      exact touches_customTokenSetSetupParameters op db

end Database

end BMChain.State
