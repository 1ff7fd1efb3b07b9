import BMChain.State.FootprintPayout
import BMChain.State.Transaction

/-!
# The footprints of the block steps

What the part of a block before its transactions, and each of the steps after
them, can touch.
-/

namespace BMChain.State

open BMChain.Foundation BMChain.Protocol Std

variable {db after : Database} {total sum : Int}

namespace Database

/-! ## The head of the chain -/

theorem touches_witnessService
    (db : Database)
    (name : AccountName)
    {change : WitnessObject → WitnessObject}
    (kept : ∀ witness aspect, aspect ≠ WitnessAspect.service →
      WitnessAspect.read aspect (change witness) =
        WitnessAspect.read aspect witness) :
    Touches [.witness .service] db
      (db.modifyWitness name fun witness => pure (change witness)) :=
  touches_modifyWitness_pure db name [.service] fun witness aspect outside =>
    kept witness aspect (by simpa using outside)

theorem touches_processExtension
    (name : AccountName)
    (db : Database)
    (extension : HeaderExtension) :
    Touches [.witness .service] db (processExtension name db extension) := by
  cases extension with
  | void => exact .unchanged
  | version reported =>
      refine touches_witnessService db name ?_
      intro witness aspect other
      cases aspect <;> simp [WitnessAspect.read] at other ⊢
  | hardforkVersionVote version time =>
      refine touches_witnessService db name ?_
      intro witness aspect other
      cases aspect <;> simp [WitnessAspect.read] at other ⊢

/-- What the part of a block before its transactions touches. -/
def beginFields : List Field :=
  [.props .currentWitness, .witness .service]

theorem touches_enterBlock
    (db : Database)
    (header : BlockHeader) :
    Touches beginFields db (db.enterBlock header) := by
  have chosen : Agrees beginFields db
      { db with
        props := { db.props with currentWitness := header.witness } } := by
    refine (agrees_props db [.currentWitness] ?_).mono (by decide)
    intro aspect outside
    cases aspect <;> simp [PropsAspect.read] at outside ⊢
  refine .after ?_ chosen
  refine .bind (Respects.foldlM _ fun state extension =>
    (touches_processExtension _ state extension).mono (by decide)) ?_
  exact fun extended => .read fun _ _ => .read fun _ _ => .unchanged

theorem touches_beginBlock
    (db : Database)
    (header : BlockHeader) :
    Touches beginFields db (db.beginBlock header) := by
  rw [beginBlock_eq]
  exact .read fun _ _ => touches_enterBlock db header

theorem touches_missSlot
    (producer : AccountName)
    (db : Database)
    (slot : Nat) :
    Touches [.witness .service, .virtualOperations] db
      (missSlot producer db slot) := by
  refine .read fun missed _ => ?_
  split
  · exact .unchanged
  · refine .bind ((touches_witnessService db _ ?_).mono (by decide)) ?_
    · intro witness aspect other
      cases aspect <;> simp [WitnessAspect.read] at other ⊢
    · intro counted
      split
      · exact .ok ((agrees_virtualOperations counted _).mono (by decide))
      · exact .unchanged

/-- What a new head touches. -/
def headFields : List Field :=
  [.witness .service, .virtualOperations, .props .head]

/-- The slots recorded at a new head are part of its description. -/
theorem read_recordSlots
    (places : List Nat)
    (props : DynamicGlobalProperties)
    {aspect : PropsAspect}
    (outside : aspect ∉ [PropsAspect.head]) :
    aspect.read
        (places.foldl (fun props place => recordSlot (place = 0) props)
          props) =
      aspect.read props := by
  induction places generalizing props with
  | nil => rfl
  | cons place rest induction =>
      rw [List.foldl_cons, induction]
      cases aspect <;> simp [PropsAspect.read, recordSlot] at outside ⊢

theorem touches_updateGlobalDynamicData
    (db : Database)
    (header : BlockHeader) :
    Touches headFields db (db.updateGlobalDynamicData header) := by
  refine .bind (Respects.foldlM _ fun state _ =>
    (touches_missSlot _ state _).mono (by decide)) fun missed => ?_
  refine .read fun _ _ => .ok ?_
  refine (agrees_props missed [.head] ?_).mono (by decide)
  intro aspect outside
  cases aspect with
  | head => exact absurd (by simp) outside
  | _ => exact read_recordSlots _ missed.props outside

theorem touches_updateSigningWitness
    (db : Database)
    (header : BlockHeader) :
    Touches [.witness .service] db (db.updateSigningWitness header) := by
  refine touches_witnessService db _ ?_
  intro witness aspect other
  cases aspect <;> simp [WitnessAspect.read] at other ⊢

theorem touches_updateLastIrreversibleBlock
    (db : Database) :
    Touches [.props .head] db db.updateLastIrreversibleBlock := by
  have moved : ∀ number, Agrees [.props .head] db
      { db with
        props := { db.props with lastIrreversibleBlockNum := number } } := by
    intro number
    refine agrees_props db [.head] ?_
    intro aspect outside
    cases aspect <;> simp [PropsAspect.read] at outside ⊢
  unfold updateLastIrreversibleBlock
  split
  · exact .ok (moved _)
  · exact .read fun _ _ => .read fun _ _ => .ok (moved _)

theorem agrees_createBlockSummary
    (db : Database)
    (header : BlockHeader) :
    Agrees [.blockSummaries] db (db.createBlockSummary header) := by
  intro field outside
  cases field with
  | blockSummaries => exact absurd (by simp) outside
  | _ => rfl

/-! ## Expired objects -/

theorem touches_clearExpiredTransactions
    (db : Database) :
    Touches [.transactions] db db.clearExpiredTransactions := by
  refine .drain _ fun entry state => .ok ?_
  intro field outside
  cases field with
  | transactions => exact absurd (by simp) outside
  | _ => rfl

theorem touches_clearExpiredOrders
    (db : Database) :
    Touches [.account .balance, .limitOrders] db db.clearExpiredOrders :=
  .drain _ fun _ state => touches_cancelOrder state _ _

/-- What the return of delegated shares touches. -/
def returnFields : List Field :=
  [.account .delegated, .virtualOperations, .delegationExpirations]

theorem touches_returnDelegation
    (entry : Nat × DelegationExpirationObject)
    (db : Database) :
    Touches returnFields db (returnDelegation entry db) := by
  refine .bind ((touches_modifyAccount db _ [.delegated] ?_).mono
    (by decide)) ?_
  · intro account changed equal aspect outside
    simp only [bind_eq_ok_iff, pure_eq_ok_iff] at equal
    rcases equal with ⟨_, -, rfl⟩
    cases aspect <;> simp [AccountAspect.read] at outside ⊢
  · intro returned
    have pushed := agrees_virtualOperations returned
      (.returnVestingDelegation entry.2.delegator
        (vests entry.2.vestingShares))
    refine .ok (trans_of _ (pushed.mono (by decide : _ ⊆ returnFields)) ?_)
    exact (agrees_delegationExpirations _ _).mono (by decide)

theorem touches_clearExpiredDelegations
    (db : Database) :
    Touches returnFields db db.clearExpiredDelegations :=
  .drain _ touches_returnDelegation

/-! ## The witness schedule -/

/-- What a new schedule touches. -/
def scheduleFields : List Field :=
  [.witness .service, .witness .race, .props .mining, .props .blockSize,
    .schedule, .hardforks]

theorem touches_markScheduled
    (place : WitnessScheduleType)
    (witnesses : List WitnessObject)
    (db : Database) :
    Touches [.witness .service] db (markScheduled place witnesses db) := by
  refine .foldlM _ fun state witness => ?_
  refine touches_witnessService state _ ?_
  intro witness aspect other
  cases aspect <;> simp [WitnessAspect.read] at other ⊢

theorem agrees_takeMiners
    {voted : List Nat}
    {limit : Nat}
    {queue selected miners : List WitnessObject}
    (done : takeMiners voted limit queue selected db = .ok (after, miners)) :
    Agrees [.witness .service, .props .mining] db after := by
  induction queue generalizing selected db with
  | nil =>
      cases done
      exact refl_of _ _
  | cons miner queue induction =>
      unfold takeMiners at done
      split at done
      · cases done
        exact refl_of _ _
      · rw [bind_eq_ok_iff] at done
        rcases done with ⟨marked, mark, rest⟩
        have service : Agrees [.witness .service] db marked := by
          refine touches_witnessService db miner.owner ?_ marked mark
          intro witness aspect other
          cases aspect <;> simp [WitnessAspect.read] at other ⊢
        refine trans_of _ (service.mono (by decide))
          (trans_of _ ?_ (induction rest))
        refine (agrees_props marked [.mining] ?_).mono (by decide)
        intro aspect outside
        cases aspect <;> simp [PropsAspect.read] at outside ⊢

theorem agrees_schedule
    (db : Database)
    (schedule : WitnessScheduleObject) :
    Agrees [.schedule] db { db with schedule := schedule } := by
  intro field outside
  cases field with
  | schedule => exact absurd (by decide) outside
  | _ => rfl

theorem touches_race
    (db : Database)
    (name : AccountName)
    {change : WitnessObject → Except Fault WitnessObject}
    (kept : ∀ witness changed, change witness = .ok changed →
      ∀ aspect, aspect ≠ WitnessAspect.race →
        WitnessAspect.read aspect changed =
          WitnessAspect.read aspect witness) :
    Touches [.witness .race] db (db.modifyWitness name change) :=
  touches_modifyWitness db name [.race] fun witness changed equal aspect
    outside => kept witness changed equal aspect (by simpa using outside)

theorem touches_resetVirtualScheduleTime
    (db : Database) :
    Touches [.witness .race, .schedule] db db.resetVirtualScheduleTime := by
  refine .after (Respects.foldlM _ fun state entry => ?_)
    ((agrees_schedule db _).mono (by decide))
  refine (touches_race state _ ?_).mono (by decide)
  intro witness changed equal aspect other
  simp only [bind_eq_ok_iff, pure_eq_ok_iff] at equal
  rcases equal with ⟨_, -, rfl⟩
  cases aspect <;> simp [WitnessAspect.read] at other ⊢

theorem agrees_startLaps
    {time : Nat}
    {witnesses : List WitnessObject}
    {overflow : Bool}
    (done : startLaps time witnesses db = .ok (after, overflow)) :
    Agrees [.witness .race] db after := by
  induction witnesses generalizing db with
  | nil =>
      cases done
      exact refl_of _ _
  | cons witness rest induction =>
      simp only [startLaps, bind_eq_ok_iff] at done
      rcases done with ⟨lap, -, done⟩
      split at done
      · cases done
        exact refl_of _ _
      · rw [bind_eq_ok_iff] at done
        rcases done with ⟨started, start, done⟩
        have race : Agrees [.witness .race] db started := by
          refine touches_race db _ ?_ started start
          intro witness changed equal aspect other
          cases equal
          cases aspect <;> simp [WitnessAspect.read] at other ⊢
        exact trans_of _ race (induction done)

theorem agrees_countHardforkVotes
    (db : Database)
    (witnesses : List WitnessObject) :
    Agrees [.hardforks] db (db.countHardforkVotes witnesses) := by
  unfold countHardforkVotes
  intro field outside
  split
  · cases field with
    | hardforks => exact absurd (by decide) outside
    | _ => rfl
  · cases field with
    | hardforks => exact absurd (by decide) outside
    | _ => rfl

theorem touches_updateMedianWitnessProps
    (db : Database) :
    Touches [.schedule, .props .blockSize] db db.updateMedianWitnessProps := by
  refine .read fun _ _ => .read fun middle _ => .read fun blockSize _ => ?_
  have scheduled := agrees_schedule db
    { db.schedule with
      medianProps := ⟨middle.props.accountCreationFee, blockSize⟩ }
  refine .ok (trans_of _ (scheduled.mono (by decide)) ?_)
  refine (agrees_props _ [.blockSize] ?_).mono (by decide)
  intro aspect outside
  cases aspect <;> simp [PropsAspect.read] at outside ⊢

theorem touches_updateWitnessSchedule
    (db : Database) :
    Touches scheduleFields db db.updateWitnessSchedule := by
  unfold updateWitnessSchedule
  split
  case isFalse => exact .unchanged
  refine .bind ((touches_markScheduled _ _ db).mono (by decide))
    fun marked => ?_
  refine .read ?_
  rintro ⟨mined, miners⟩ taken
  refine .after ?_ ((agrees_takeMiners taken).mono (by decide))
  refine .bind ((touches_markScheduled _ _ mined).mono (by decide))
    fun joined => ?_
  refine .read ?_
  rintro ⟨lapped, overflow⟩ started
  refine .after ?_ ((agrees_startLaps started).mono (by decide))
  have reset : Touches scheduleFields lapped
      (if overflow then lapped.resetVirtualScheduleTime else pure lapped) := by
    split
    · exact (touches_resetVirtualScheduleTime lapped).mono (by decide)
    · exact .unchanged
  refine .bind reset fun raced => ?_
  refine .read fun _ _ => .read fun scheduled _ => ?_
  refine .after ?_
    ((agrees_countHardforkVotes raced scheduled).mono (by decide))
  exact .after ((touches_updateMedianWitnessProps _).mono (by decide))
    ((agrees_schedule _ _).mono (by decide))

/-! ## The null account -/

theorem agrees_updateVirtualSupply
    (db : Database) :
    Agrees [.props .virtualSupply] db db.updateVirtualSupply := by
  refine agrees_props db [.virtualSupply] ?_
  intro aspect outside
  cases aspect <;> simp [PropsAspect.read] at outside ⊢

theorem agrees_burnBalance
    (done : db.burnBalance total = .ok (after, sum)) :
    Agrees [.account .balance] db after := by
  simp only [burnBalance, bind_eq_ok_iff] at done
  rcases done with ⟨account, -, done⟩
  split at done
  · simp only [bind_eq_ok_iff, pure_eq_ok_iff] at done
    rcases done with ⟨_, -, taken, take, equal⟩
    cases equal
    exact touches_adjustBalance db _ _ after take
  · cases done
    exact refl_of _ _

theorem agrees_burnSavings
    (done : db.burnSavings total = .ok (after, sum)) :
    Agrees [.account .savings] db after := by
  simp only [burnSavings, bind_eq_ok_iff] at done
  rcases done with ⟨account, -, done⟩
  split at done
  · simp only [bind_eq_ok_iff, pure_eq_ok_iff] at done
    rcases done with ⟨_, -, taken, take, equal⟩
    cases equal
    exact touches_adjustSavingsBalance db _ _ after take
  · cases done
    exact refl_of _ _

/-- What the sweep of the shares touches. -/
def burnVestingFields : List Field :=
  [.props .vestingShares, .props .vestingFund, .account .shares]

theorem agrees_burnVesting
    (done : db.burnVesting total = .ok (after, sum)) :
    Agrees burnVestingFields db after := by
  simp only [burnVesting, bind_eq_ok_iff] at done
  rcases done with ⟨account, -, done⟩
  split at done
  · simp only [bind_eq_ok_iff, pure_eq_ok_iff] at done
    rcases done with ⟨_, -, shares, -, _, -, fund, -, taken, take, _, -, equal⟩
    cases equal
    have totals : Agrees burnVestingFields db
        { db with
          props := { db.props with
            totalVestingShares := shares, totalVestingFundBmt := fund } } := by
      refine (agrees_props db [.vestingShares, .vestingFund] ?_).mono
        (by decide)
      intro aspect outside
      cases aspect <;> simp [PropsAspect.read] at outside ⊢
    refine trans_of _ totals ?_
    refine (touches_modifyAccount_pure _ _ [.shares] ?_ after take).mono
      (by decide)
    intro account aspect outside
    cases aspect <;> simp [AccountAspect.read] at outside ⊢
  · cases done
    exact refl_of _ _

theorem agrees_burnReward
    (done : db.burnReward total = .ok (after, sum)) :
    Agrees [.account .rewardBmt] db after := by
  simp only [burnReward, bind_eq_ok_iff] at done
  rcases done with ⟨account, -, done⟩
  split at done
  · simp only [bind_eq_ok_iff, pure_eq_ok_iff] at done
    rcases done with ⟨_, -, taken, take, equal⟩
    cases equal
    exact touches_adjustRewardBalance db _ _ after take
  · cases done
    exact refl_of _ _

/-- What the sweep of the shares to be claimed touches. -/
def burnRewardFields : List Field :=
  [.props .pendingShares, .props .pendingBacking, .account .rewardShares,
    .account .rewardBacking]

theorem agrees_burnRewardVesting
    (done : db.burnRewardVesting total = .ok (after, sum)) :
    Agrees burnRewardFields db after := by
  simp only [burnRewardVesting, bind_eq_ok_iff] at done
  rcases done with ⟨account, -, done⟩
  split at done
  · simp only [bind_eq_ok_iff, pure_eq_ok_iff] at done
    rcases done with ⟨_, -, shares, -, behind, -, taken, take, equal⟩
    cases equal
    have totals : Agrees burnRewardFields db
        { db with
          props := { db.props with
            pendingRewardedVestingShares := shares
            pendingRewardedVestingBmt := behind } } := by
      refine (agrees_props db [.pendingShares, .pendingBacking] ?_).mono
        (by decide)
      intro aspect outside
      cases aspect <;> simp [PropsAspect.read] at outside ⊢
    refine trans_of _ totals ?_
    refine (touches_modifyAccount_pure _ _ [.rewardShares, .rewardBacking] ?_
      after take).mono (by decide)
    intro account aspect outside
    cases aspect <;> simp [AccountAspect.read] at outside ⊢
  · cases done
    exact refl_of _ _

/-- What the sweep of the null account touches besides its shares. -/
def sweepFields : List Field :=
  [.account .balance, .account .savings, .account .rewardBmt,
    .account .rewardShares, .account .rewardBacking, .props .pendingShares,
    .props .pendingBacking, .props .supply, .props .virtualSupply]

/-- The shares of the null account are swept among its other holdings. -/
theorem clearNullAccountBalance_cases
    (done : db.clearNullAccountBalance = .ok after) :
    ∃ ready total burned sum,
      Agrees sweepFields db ready ∧
        ready.burnVesting total = .ok (burned, sum) ∧
          Agrees sweepFields burned after := by
  simp only [clearNullAccountBalance, bind_eq_ok_iff] at done
  rcases done with ⟨⟨first, _⟩, balance, ⟨second, total⟩, savings, done⟩
  rcases done with ⟨⟨burned, sum⟩, vesting, ⟨fourth, _⟩, reward, done⟩
  rcases done with ⟨⟨fifth, paid⟩, rewardVesting, done⟩
  refine ⟨second, total, burned, sum, ?_, vesting, ?_⟩
  · exact trans_of _
      ((agrees_burnBalance balance).mono (by decide : _ ⊆ sweepFields))
      ((agrees_burnSavings savings).mono (by decide))
  · refine trans_of _
      ((agrees_burnReward reward).mono (by decide : _ ⊆ sweepFields))
      (trans_of _ ((agrees_burnRewardVesting rewardVesting).mono
        (by decide : _ ⊆ sweepFields)) ?_)
    split at done
    · simp only [adjustSupply, bind_eq_ok_iff, pure_eq_ok_iff] at done
      rcases done with ⟨_, -, _, -, rfl⟩
      refine (agrees_props fifth [.supply, .virtualSupply] ?_).mono
        (by decide)
      intro aspect outside
      cases aspect <;> simp [PropsAspect.read] at outside ⊢
    · cases done
      exact refl_of _ _

/-- What the sweep of the null account touches. -/
def nullFields : List Field :=
  sweepFields ++ burnVestingFields

theorem touches_clearNullAccountBalance
    (db : Database) :
    Touches nullFields db db.clearNullAccountBalance := by
  intro after done
  have widen : sweepFields ⊆ nullFields := by decide
  rcases clearNullAccountBalance_cases done with
    ⟨ready, total, burned, sum, before, burn, kept⟩
  exact trans_of _ (before.mono widen)
    (trans_of _ ((agrees_burnVesting burn).mono (by decide))
      (kept.mono widen))

/-! ## Withdrawals and emissions -/

/-- What a withdrawal from savings touches. -/
def withdrawalFields : List Field :=
  [.account .balance, .account .savings, .account .withdrawal]

theorem touches_countWithdrawal
    (db : Database)
    (name : AccountName)
    (deposit : Int) :
    Touches withdrawalFields db
      (db.modifyAccount name (countWithdrawal deposit)) := by
  refine (touches_modifyAccount db name [.savings, .withdrawal] ?_).mono
    (by decide)
  intro account changed equal aspect outside
  simp only [countWithdrawal, bind_eq_ok_iff] at equal
  rcases equal with ⟨_, -, _, -, equal⟩
  split at equal
  · cases equal
    cases aspect <;> simp [AccountAspect.read] at outside ⊢
  · cases equal
    cases aspect <;> simp [AccountAspect.read] at outside ⊢

theorem touches_payRoute
    (name : AccountName)
    (amount : Int)
    (db : Database)
    (route : Nat × WithdrawRouteObject) :
    Touches withdrawalFields db (payRoute name amount db route) := by
  unfold payRoute
  split
  · exact .unchanged
  · refine .read fun target _ => ?_
    dsimp only
    split
    · refine .bind ((touches_addBalance db _ _).mono (by decide)) ?_
      exact fun paid => touches_countWithdrawal paid _ _
    · exact .unchanged

theorem touches_withdrawAlong
    (rounds : Nat)
    (current : Option AccountObject)
    (db : Database) :
    Touches withdrawalFields db (withdrawAlong rounds current db) := by
  induction rounds generalizing current db with
  | zero =>
      cases current with
      | none => exact .unchanged
      | some account => exact .error _
  | succ rounds induction =>
      cases current with
      | none => exact .unchanged
      | some account =>
          unfold withdrawAlong
          split
          · refine .bind (.read fun amount _ => ?_) fun drawn =>
              induction _ drawn
            exact .foldlM _ fun state route =>
              touches_payRoute _ amount state route
          · exact .unchanged

theorem touches_emitAlong
    (rounds : Nat)
    (current : Option (Nat × CustomTokenObject))
    (db : Database) :
    Touches [.customTokens] db (emitAlong rounds current db) := by
  induction rounds generalizing current db with
  | zero =>
      cases current with
      | none => exact .unchanged
      | some entry => exact .error _
  | succ rounds induction =>
      cases current with
      | none => exact .unchanged
      | some entry =>
          unfold emitAlong
          dsimp only
          split
          · refine .read fun emitted _ => ?_
            exact .after (induction _ _) (agrees_customTokens db _)
          · exact .unchanged

theorem touches_customTokensEmissions
    (db : Database) :
    Touches [.customTokens] db db.customTokensEmissions := by
  unfold customTokensEmissions
  split
  · exact .unchanged
  · exact touches_emitAlong _ _ db

/-- What the reward for savings touches. -/
def savingsFields : List Field :=
  [.account .savings, .props .supply, .props .virtualSupply,
    .props .lastSupply]

theorem touches_processSavingsReward
    (ext : External)
    (db : Database) :
    Touches savingsFields db (db.processSavingsReward ext) := by
  unfold processSavingsReward
  dsimp only
  split
  · exact .unchanged
  refine .read fun total _ => ?_
  split
  · exact .unchanged
  refine .read ?_
  rintro ⟨paid, rewards⟩ pay
  have savings : Agrees savingsFields db paid := by
    refine foldlM_invariant
      (fun state : Database × Int => Agrees savingsFields db state.1) ?_ pay
      (refl_of _ db)
    intro state entry next _ stepped before
    unfold paySavingReward at stepped
    split at stepped
    · simp only [bind_eq_ok_iff] at stepped
      rcases stepped with ⟨saved, save, _, -, equal⟩
      cases equal
      exact trans_of _ before
        ((touches_adjustSavingsBalance state.1 _ _ saved save).mono
          (by decide))
    · cases stepped
      exact before
  refine .after ?_ savings
  refine .read fun _ _ => .read fun _ _ => .ok ?_
  refine (agrees_props paid [.supply, .virtualSupply, .lastSupply] ?_).mono
    (by decide)
  intro aspect outside
  cases aspect <;> simp [PropsAspect.read] at outside ⊢

/-! ## Requests which come due -/

/-- What the recovery of accounts touches. -/
def recoveryFields : List Field :=
  [.recoveryRequests, .ownerHistory, .changeRecoveryRequests,
    .account .profile]

theorem touches_accountRecoveryProcessing
    (db : Database) :
    Touches recoveryFields db db.accountRecoveryProcessing := by
  refine .bind (.drain _ fun entry state =>
    .ok ((agrees_recoveryRequests state _).mono (by decide))) ?_
  intro expired
  refine .bind (.drain _ fun entry state =>
    .ok ((agrees_ownerHistory state _).mono (by decide))) ?_
  intro forgotten
  refine .drain _ fun entry state => ?_
  refine .bind ((touches_modifyAccount_pure state _ [.profile] ?_).mono
    (by decide)) ?_
  · intro account aspect outside
    cases aspect <;> simp [AccountAspect.read] at outside ⊢
  · exact fun changed =>
      .ok ((agrees_changeRecoveryRequests changed _).mono (by decide))

theorem touches_expireEscrowRatification
    (db : Database) :
    Touches escrowFields db db.expireEscrowRatification :=
  .drain _ fun _ state => touches_returnEscrow state _ _ _

/-- What the loss of voting rights touches. -/
def declineFields : List Field :=
  [.account .canVote, .declineRequests] ++ proxyFields

theorem touches_takeVotingRights
    (entry : Nat × DeclineVotingRightsRequestObject)
    (db : Database) :
    Touches declineFields db (takeVotingRights entry db) := by
  refine .read fun _ _ => .read fun deltas _ => ?_
  refine .bind ((touches_adjustProxiedDeltasFrom _ db _ _).mono (by decide)) ?_
  intro taken
  refine .bind ((touches_clearWitnessVotes taken _).mono (by decide)) ?_
  intro cleared
  refine .bind ((touches_modifyAccount_pure cleared _ [.canVote, .proxy]
    ?_).mono (by decide)) ?_
  · intro account aspect outside
    cases aspect <;> simp [AccountAspect.read] at outside ⊢
  · exact fun changed =>
      .ok ((agrees_declineRequests changed _).mono (by decide))

theorem touches_processDeclineVotingRights
    (db : Database) :
    Touches declineFields db db.processDeclineVotingRights :=
  .drain _ touches_takeVotingRights

/-- What the burn of the initial shares touches. -/
def burnFields : List Field :=
  [.account .shares, .props .supply, .props .vestingShares,
    .props .vestingFund]

theorem touches_processHardforks
    (db : Database) :
    Touches burnFields db db.processHardforks := by
  refine .read fun _ _ => ?_
  split
  case isFalse => exact .unchanged
  refine .bind ((touches_modifyAccount db _ [.shares] ?_).mono (by decide)) ?_
  · intro account changed equal aspect outside
    simp only [bind_eq_ok_iff, pure_eq_ok_iff] at equal
    rcases equal with ⟨_, -, rfl⟩
    cases aspect <;> simp [AccountAspect.read] at outside ⊢
  refine fun burned => .read fun _ _ => .read fun _ _ => ?_
  refine .read fun _ _ => .ok ?_
  refine (agrees_props burned [.supply, .vestingShares, .vestingFund]
    ?_).mono (by decide)
  intro aspect outside
  cases aspect <;> simp [PropsAspect.read] at outside ⊢

/-! ## The steps -/

/-- What a step of a block can touch. -/
def stepFootprint : BlockStep → List Field
  | .updateGlobalDynamicData => headFields
  | .updateSigningWitness => [.witness .service]
  | .updateLastIrreversibleBlock => [.props .head]
  | .createBlockSummary => [.blockSummaries]
  | .clearExpiredTransactions => [.transactions]
  | .clearExpiredOrders => [.account .balance, .limitOrders]
  | .clearExpiredDelegations => returnFields
  | .updateWitnessSchedule => scheduleFields
  | .updateVirtualSupply => [.props .virtualSupply]
  | .clearNullAccountBalance => nullFields
  | .processCommentCashout => roundFields
  | .processVestingWithdrawals => withdrawalFields
  | .customTokensEmissions => [.customTokens]
  | .processSavingsReward => savingsFields
  | .accountRecoveryProcessing => recoveryFields
  | .expireEscrowRatification => escrowFields
  | .processDeclineVotingRights => declineFields
  | .processHardforks => burnFields

/-- A step of a block touches its footprint only. -/
theorem touches_runStep
    (ext : External)
    (header : BlockHeader)
    (db : Database)
    (step : BlockStep) :
    Touches (stepFootprint step) db (db.runStep ext header step) := by
  cases step with
  | updateGlobalDynamicData => exact touches_updateGlobalDynamicData db header
  | updateSigningWitness => exact touches_updateSigningWitness db header
  | updateLastIrreversibleBlock =>
      exact touches_updateLastIrreversibleBlock db
  | createBlockSummary => exact .ok (agrees_createBlockSummary db header)
  | clearExpiredTransactions => exact touches_clearExpiredTransactions db
  | clearExpiredOrders => exact touches_clearExpiredOrders db
  | clearExpiredDelegations => exact touches_clearExpiredDelegations db
  | updateWitnessSchedule => exact touches_updateWitnessSchedule db
  | updateVirtualSupply => exact .ok (agrees_updateVirtualSupply db)
  | clearNullAccountBalance => exact touches_clearNullAccountBalance db
  | processCommentCashout => exact touches_processCommentCashout ext db
  | processVestingWithdrawals => exact touches_withdrawAlong _ _ db
  | customTokensEmissions => exact touches_customTokensEmissions db
  | processSavingsReward => exact touches_processSavingsReward ext db
  | accountRecoveryProcessing => exact touches_accountRecoveryProcessing db
  | expireEscrowRatification => exact touches_expireEscrowRatification db
  | processDeclineVotingRights =>
      exact touches_processDeclineVotingRights db
  | processHardforks => exact touches_processHardforks db

/-! ## Where the head is kept -/

/-- The number, the id and the time of the head block. -/
def headOf (db : Database) : Nat × BlockId HeaderContent × Time :=
  (db.props.headBlockNumber, db.props.headBlockId, db.props.time)

theorem headOf_of_agrees
    {fields : List Field}
    {before after : Database}
    (agrees : Agrees fields before after)
    (separate : apart [.props .head] fields = true) :
    after.headOf = before.headOf := by
  have same : (Field.props .head).read after = (Field.props .head).read before :=
    agrees.read_eq separate List.mem_cons_self
  simp only [Field.read, PropsAspect.read, Prod.mk.injEq] at same
  simp [headOf, same]

end Database

end BMChain.State
