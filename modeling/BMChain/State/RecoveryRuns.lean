import BMChain.State.QuietChain

/-!
# The recovery of accounts in whole runs

Recoveries and changes of recovery accounts are as the past of a run allows,
while the times of the changes fit into 32 bits.  A recovery account which is
asked for in the last thirty days before they do not is in place with the next
block.
-/

namespace BMChain.State

open BMChain.Foundation BMChain.Protocol Database

variable {id : Nat} {request : ChangeRecoveryAccountRequestObject}

/-! ## The sweep -/

namespace Database

variable {db after : Database}

/-- The last loop of the sweep finds the requests as they were. -/
theorem lastSweep
    (done : db.accountRecoveryProcessing = .ok after) :
    ∃ (ready : Database) (rounds : Nat),
      ready.changeRecoveryRequests = db.changeRecoveryRequests ∧
        ready.headBlockTime = db.headBlockTime ∧
          ready.accounts = db.accounts ∧
            drain "endless"
              (fun db : Database =>
                firstDue db.changeRecoveryRequests
                  ChangeRecoveryAccountRequestObject.effectiveOn
                  fun request => request.effectiveOn ≤ db.headBlockTime)
              applyRecoveryChange rounds ready = .ok after := by
  simp only [accountRecoveryProcessing, bind_eq_ok_iff] at done
  rcases done with ⟨expired, expire, forgotten, forget, move⟩
  have first := drain_invariant
    (fun state : Database => state.changeRecoveryRequests =
        db.changeRecoveryRequests ∧
      state.headBlockTime = db.headBlockTime ∧ state.accounts = db.accounts)
    (fun entry state next _ removed same => by cases removed; exact same)
    expire ⟨rfl, rfl, rfl⟩
  have second := drain_invariant
    (fun state : Database => state.changeRecoveryRequests =
        db.changeRecoveryRequests ∧
      state.headBlockTime = db.headBlockTime ∧ state.accounts = db.accounts)
    (fun entry state next _ removed same => by cases removed; exact same)
    forget first
  exact ⟨forgotten, _, second.1, second.2.1, second.2.2, move⟩

/-- A change is pending, or it is made and nothing is pending for its account. -/
def PartnerPlanned (id : Nat) (request : ChangeRecoveryAccountRequestObject)
    (db : Database) : Prop :=
  db.changeRecoveryRequests.find? id = some request ∨
    (db.changeRecoveryRequests.All fun other =>
      other.accountToRecover ≠ request.accountToRecover) ∧
    ∃ changed,
      db.accounts.find? request.accountToRecover = some changed ∧
        changed.recoveryAccount = request.recoveryAccount

theorem partnerPlanned_applyRecoveryChange
    {entry : Nat × ChangeRecoveryAccountRequestObject}
    (single : db.changeRecoveryRequests.Distinct
      ChangeRecoveryAccountRequestObject.accountToRecover)
    (planned : PartnerPlanned id request db)
    (found : db.changeRecoveryRequests.find? entry.1 = some entry.2)
    (done : applyRecoveryChange entry db = .ok after) :
    PartnerPlanned id request after := by
  simp only [applyRecoveryChange, bind_eq_ok_iff, pure_eq_ok_iff] at done
  rcases done with ⟨changed, change, rfl⟩
  rcases find_modifyAccount change with ⟨old, new, -, equal, rows⟩
  cases equal
  rcases accounts_of_modifyAccount change with ⟨accounts, rfl⟩
  rcases planned with pending | ⟨others, account, known, made⟩
  · by_cases own : entry.1 = id
    · subst own
      rw [found] at pending
      cases pending
      refine .inr ⟨.of_remove ?_, _, (rows _).trans (if_pos rfl), rfl⟩
      intro other row different there same
      exact different (single _ _ _ _ found there same.symm)
    · exact .inl ((Table.find?_remove _ _ _).trans
        ((if_neg own).trans pending))
  · have foreign := others entry.1 entry.2 found
    exact .inr ⟨others.remove entry.1, account,
      (rows _).trans ((if_neg foreign).trans known), made⟩

/-- A change which is due takes effect. -/
theorem partner_of_due
    (single : db.changeRecoveryRequests.Distinct
      ChangeRecoveryAccountRequestObject.accountToRecover)
    (found : db.changeRecoveryRequests.find? id = some request)
    (due : request.effectiveOn ≤ db.headBlockTime)
    (done : db.accountRecoveryProcessing = .ok after) :
    ∃ changed,
      after.accounts.find? request.accountToRecover = some changed ∧
        changed.recoveryAccount = request.recoveryAccount := by
  rcases lastSweep done with ⟨ready, rounds, same, time, -, move⟩
  have swept := drain_invariant
    (fun state : Database => state.headBlockTime = db.headBlockTime ∧
      state.changeRecoveryRequests.Distinct
        ChangeRecoveryAccountRequestObject.accountToRecover ∧
      PartnerPlanned id request state) ?_ move
    ⟨time, same ▸ single, .inl (same ▸ found)⟩
  · rcases swept with ⟨time, -, pending | made⟩
    · have nothing := drain_done move
      have later : after.headBlockTime < request.effectiveOn :=
        later_of_firstDue nothing pending
      rw [time] at later
      exact absurd due (Nat.not_le_of_lt later)
    · exact made.2
  · rintro entry state next offered acted ⟨time, distinct, planned⟩
    have planned := partnerPlanned_applyRecoveryChange distinct planned
      (find?_of_firstDue offered) acted
    simp only [applyRecoveryChange, bind_eq_ok_iff, pure_eq_ok_iff] at acted
    rcases acted with ⟨changed, change, rfl⟩
    rcases accounts_of_modifyAccount change with ⟨accounts, rfl⟩
    exact ⟨time, distinct.remove entry.1, planned⟩

/-- Without requests, the recovery accounts stay. -/
theorem partnersStay_of_idle
    (idle : db.changeRecoveryRequests = .empty)
    (done : db.accountRecoveryProcessing = .ok after) :
    PartnersStay db after ∧ after.changeRecoveryRequests = .empty := by
  rcases lastSweep done with ⟨ready, rounds, same, -, accounts, move⟩
  rw [drain_idle] at move
  · cases move
    refine ⟨?_, same.trans idle⟩
    intro name account found
    exact ⟨account, accounts ▸ found, rfl⟩
  · show firstDue ready.changeRecoveryRequests _ _ = none
    rw [same, idle]
    rfl

end Database

/-! ## Runs of quiet blocks -/

/-- A run of blocks without transactions. -/
structure QuietRun (ext : External) (past : List Moment) (number : Nat)
    (db : Database) : Prop where
  run : RecordedRun ext PartnerTimesFit [] noteMoment past none db
  quiet : Quiet db
  head : HeadAt number db
  empty : db.comments = .empty
  idle : db.changeRecoveryRequests = .empty
  partners : PartnersStay initGenesis db

section Runs

variable {ext : External} {past : List Moment} {number : Nat}
    {db : Database} {time : Time}

/-- A quiet run goes on with a block at any later time. -/
theorem QuietRun.next
    (start : QuietRun ext past number db)
    (small : number + 1 < burnInitRepBlock)
    (later : db.headBlockTime + blockInterval ≤ time)
    (early : time < maximumTime) :
    ∃ past after, QuietRun ext past (number + 1) after ∧
      after.headBlockTime = time := by
  have next : ∃ begun after, db.beginBlock (quietHeader db time) =
      .ok begun ∧ begun.finishBlock ext (quietHeader db time) = .ok after ∧
        Ready (quietHeader db time) (number + 1) NoComments after :=
    start.quiet.next_empty start.head small later early start.empty
  rcases next with ⟨begun, after, begin, finish, quiet, head, set, bare⟩
  have entered := RecordedRun.step _ start.run (.beginBlock _) trivial begin
  have run := RecordedRun.step _ entered (.finishBlock _) trivial finish
  have agrees := touches_beginBlock db _ begun begin
  have idle : begun.changeRecoveryRequests = .empty :=
    (agrees .changeRecoveryRequests (by decide)).trans start.idle
  rcases finishBlock_sweep finish with ⟨due, swept, kept, -, sweep, rest⟩
  rcases partnersStay_of_idle (kept.changes.trans idle) sweep with
    ⟨stay, empty⟩
  refine ⟨_, after, ⟨run, quiet, head, bare, rest.changes.trans empty, ?_⟩,
    set⟩
  have ready := trans_of _ (partnersStay_of_agrees agrees rfl) kept.partners
  exact trans_of _ start.partners
    (trans_of _ ready (trans_of _ stay rest.partners))

/-- The first years of blocks without transactions. -/
theorem quietRun_blocks
    (ext : External)
    {blocks : Nat}
    (small : blocks < burnInitRepBlock) :
    ∃ past db, QuietRun ext past blocks db ∧
      db.headBlockTime = genesisTime + blockInterval * blocks := by
  induction blocks with
  | zero =>
      exact ⟨[], initGenesis, ⟨.genesis, quiet_genesis, headAt_genesis, rfl,
        rfl, refl_of _ _⟩, rfl⟩
  | succ blocks induction =>
      rcases induction (Nat.lt_of_succ_lt small) with ⟨past, db, run, time⟩
      refine run.next small ?_ (quietTime_lt small)
      rw [time]
      exact Nat.le_refl _

/-! ## A new recovery account -/

/-- The first witness asks for the recovery account `devs`. -/
def samplePartner : ChangeRecoveryAccountOperation :=
  ⟨initMinerName, "devs"⟩

/-- The request is stored, and the chain stays quiet. -/
theorem QuietRun.askPartner
    (start : QuietRun ext past number db) :
    ∃ after,
      db.step ext (.operation (.changeRecoveryAccount samplePartner)) =
          .ok after ∧
        Quiet after ∧ HeadAt number after ∧
          after.headBlockTime = db.headBlockTime ∧
            after.comments = .empty ∧ after.accounts = db.accounts ∧
              after.changeRecoveryRequests = Table.empty.emplace
                ⟨initMinerName, "devs",
                  addSeconds db.headBlockTime ownerAuthRecoveryPeriod⟩ := by
  rcases start.partners "devs" _ rfl with ⟨devs, found, -⟩
  rcases start.partners initMinerName _ rfl with ⟨miner, there, -⟩
  have valid : (Operation.changeRecoveryAccount samplePartner).validate ext =
      .ok () := rfl
  have missing : db.changeRecoveryRequests.findBy (fun request =>
      request.accountToRecover = samplePartner.accountToRecover) = none := by
    rw [start.idle]
    rfl
  have done : db.changeRecoveryAccountEvaluator samplePartner = .ok { db with
      changeRecoveryRequests := db.changeRecoveryRequests.emplace
        ⟨initMinerName, "devs",
          addSeconds db.headBlockTime ownerAuthRecoveryPeriod⟩ } := by
    simp only [changeRecoveryAccountEvaluator, bind_eq_ok_iff]
    refine ⟨devs, orFault_eq_ok_iff.2 found, miner,
      orFault_eq_ok_iff.2 there, ?_⟩
    rw [missing]
    rfl
  refine ⟨_, (bind_eq_ok_iff _ _ _).2 ⟨(), valid, done⟩, ?_⟩
  refine ⟨{ start.quiet with known := ?_ }, ⟨start.head.height, start.head.id,
    start.head.irreversible, start.head.recent⟩, rfl, start.empty, rfl, ?_⟩
  · refine start.quiet.known.emplace ?_
    change db.accounts.find? initMinerName ≠ none
    rw [there]
    exact Option.some_ne_none _
  · rw [start.idle]

/--
A new recovery account is asked for after a quiet run, and the next block is
produced when the change is due.
-/
theorem QuietRun.changePartner
    (start : QuietRun ext past number db)
    (small : number + 1 < burnInitRepBlock)
    (later : db.headBlockTime + blockInterval ≤ time)
    (early : time < maximumTime)
    (due : addSeconds db.headBlockTime ownerAuthRecoveryPeriod ≤ time) :
    ∃ asked begun after,
      db.step ext (.operation (.changeRecoveryAccount samplePartner)) =
          .ok asked ∧
        asked.step ext (.beginBlock (quietHeader asked time)) = .ok begun ∧
          begun.step ext (.finishBlock (quietHeader asked time)) =
              .ok after ∧
            HeadAt number begun ∧ after.headBlockTime = time ∧
              ∃ account changed,
                begun.accounts.find? initMinerName = some account ∧
                  account.recoveryAccount = "" ∧
                    after.accounts.find? initMinerName = some changed ∧
                      changed.recoveryAccount = "devs" := by
  rcases start.askPartner with
    ⟨asked, ask, quiet, head, same, bare, accounts, changes⟩
  have next : ∃ begun after, asked.beginBlock (quietHeader asked time) =
      .ok begun ∧ begun.finishBlock ext (quietHeader asked time) =
        .ok after ∧
          Ready (quietHeader asked time) (number + 1) NoComments after :=
    quiet.next_empty head small (same ▸ later) early bare
  rcases next with ⟨begun, after, begin, finish, -, -, set, -⟩
  have agrees := touches_beginBlock asked _ begun begin
  have pending : begun.changeRecoveryRequests = Table.empty.emplace
      ⟨initMinerName, "devs",
        addSeconds db.headBlockTime ownerAuthRecoveryPeriod⟩ :=
    (agrees .changeRecoveryRequests (by decide)).trans changes
  refine ⟨asked, begun, after, ask, begin, finish,
    head.of_agrees agrees rfl, set, ?_⟩
  rcases start.partners initMinerName _ rfl with ⟨miner, there, alone⟩
  rcases partnersStay_of_agrees agrees rfl initMinerName miner
    (accounts ▸ there) with ⟨account, found, unchanged⟩
  rcases finishBlock_sweep finish with ⟨ripe, swept, kept, now, sweep, rest⟩
  have single : ripe.changeRecoveryRequests.Distinct
      ChangeRecoveryAccountRequestObject.accountToRecover := by
    rw [kept.changes, pending]
    exact Table.Distinct.empty.emplace Table.All.empty
  have stored : ripe.changeRecoveryRequests.find? 0 =
      some ⟨initMinerName, "devs",
        addSeconds db.headBlockTime ownerAuthRecoveryPeriod⟩ := by
    rw [kept.changes, pending]
    rfl
  rcases partner_of_due single stored (now ▸ due) sweep with
    ⟨changed, known, partner⟩
  rcases rest.partners initMinerName changed known with ⟨last, final, equal⟩
  exact ⟨account, last, found, unchanged.trans alone, final,
    equal.trans partner⟩

end Runs

/-! ## Safety -/

/--
Every recovery in a run was asked for within a day by who could ask, from an
owner of the last thirty days, and a recovery account changes only to one
asked for thirty days before and not changed or taken back since, as long as
no change was asked for so late that its time was wrapped.
-/
theorem account_recovery_safe
    {ext : External}
    {past : List Moment}
    {block next : Option BlockHeader}
    {db after : Database}
    {event : Event}
    (run : RecordedRun ext PartnerTimesFit [] noteMoment past block db)
    (phase : Phase event block next)
    (fits : PartnerTimesFit db event)
    (stepped : db.step ext event = .ok after) :
    RecoverySafe past db event after := by
  refine ((RecoveryBooked.of_run run).step ?_ fits stepped).2
  rintro header rfl
  exact (run.runState.ahead phase).2

/-- A recovery account asked for at genesis is in place thirty days later. -/
theorem account_recovery_safe_after_thirty_days :
    ∃ past header db after account changed time,
      RecordedRun plainExternal PartnerTimesFit [] noteMoment past
          (some header) db ∧
        db.step plainExternal (.finishBlock header) = .ok after ∧
          db.accounts.find? initMinerName = some account ∧
            after.accounts.find? initMinerName = some changed ∧
              changed.recoveryAccount ≠ account.recoveryAccount ∧
                PartnerAsked past initMinerName changed.recoveryAccount
                    time ∧
                  time + ownerAuthRecoveryPeriod ≤ after.headBlockTime := by
  have start : QuietRun plainExternal [] 0 initGenesis :=
    ⟨.genesis, quiet_genesis, headAt_genesis, rfl, rfl, refl_of _ _⟩
  have late : initGenesis.headBlockTime + blockInterval ≤
      genesisTime + ownerAuthRecoveryPeriod := by decide
  rcases start.changePartner (by decide) late (by decide) (by decide) with
    ⟨asked, begun, after, ask, begin, finish, -, -, account, changed, found,
      alone, there, partner⟩
  have fits : PartnerTimesFit initGenesis
      (.operation (.changeRecoveryAccount samplePartner)) := by
    show initGenesis.headBlockTime + ownerAuthRecoveryPeriod < 2 ^ 32
    decide
  have first := RecordedRun.step _ start.run (.operation _ none) fits ask
  have entered := RecordedRun.step _ first (.beginBlock _) trivial begin
  have safe := account_recovery_safe entered (.finishBlock _) trivial finish
  have different : changed.recoveryAccount ≠ account.recoveryAccount := by
    rw [alone, partner]
    decide
  rcases safe.partner initMinerName account changed found there different with
    ⟨time, request, passed⟩
  exact ⟨_, _, begun, after, account, changed, time, entered, finish, found,
    there, different, request, passed⟩

/--
A recovery account asked for when the time of the change is wrapped is in
place with the next block, three seconds later.
-/
theorem partner_changes_at_once :
    ∃ past header db after,
      RecordedRun plainExternal (fun _ _ => True) [] noteMoment past
          (some header) db ∧
        db.step plainExternal (.finishBlock header) = .ok after ∧
          ownerAuthHistoryTrackingStartBlockNum ≤ db.headBlockNum ∧
            ¬ RecoverySafe past db (.finishBlock header) after := by
  have few : ownerAuthHistoryTrackingStartBlockNum < burnInitRepBlock := by
    decide
  rcases quietRun_blocks plainExternal few with ⟨_, young, begin, time⟩
  have later : young.headBlockTime + blockInterval ≤ 2 ^ 32 - 1000 := by
    rw [time]
    decide
  rcases begin.next (by decide) later (by decide) with ⟨past, db, start, now⟩
  have next : db.headBlockTime + blockInterval ≤ 2 ^ 32 - 997 := by
    rw [now]
    decide
  have wrapped : addSeconds db.headBlockTime ownerAuthRecoveryPeriod ≤
      2 ^ 32 - 997 := by
    rw [now]
    decide
  rcases start.changePartner (by decide) next (by decide) wrapped with
    ⟨asked, begun, after, ask, begin, finish, head, set, account, changed,
      found, alone, there, partner⟩
  have run : RecordedRun plainExternal (fun _ _ => True) [] noteMoment past
      none db :=
    start.run.mono fun _ _ _ => trivial
  have first := RecordedRun.step _ run (.operation _ none) trivial ask
  have entered := RecordedRun.step _ first (.beginBlock _) trivial begin
  refine ⟨_, _, begun, after, entered, finish, ?_, ?_⟩
  · rw [headBlockNum, head.height]
    exact Nat.le_succ _
  · intro safe
    have different : changed.recoveryAccount ≠ account.recoveryAccount := by
      rw [alone, partner]
      decide
    rcases safe.partner initMinerName account changed found there different
      with ⟨asking, ⟨moment, request, last, -, -, when⟩, passed⟩
    -- The last request is the one of the block before.
    have same : (⟨db, .operation (.changeRecoveryAccount samplePartner)⟩ :
        Moment) = moment := Option.some.inj last
    subst same
    rw [← when, set, now] at passed
    exact absurd passed (by decide)

end BMChain.State
