import BMChain.State.Clock
import BMChain.State.Holdings

/-!
# The recovery of accounts

The recovery account of an account may ask for a new owner authority, and
`recover_account` sets it for whoever held the account lately.  The evaluators
look at no times: the end of each block removes the requests of more than a
day and the owner authorities of more than thirty days ago, and it puts the
recovery accounts in place which were asked for thirty days ago.
-/

namespace BMChain.State

open BMChain.Foundation BMChain.Protocol Database

variable {op : RecoverAccountOperation}
    {requests : Table AccountRecoveryRequestObject}

variable {fields : List Field} {account : AccountObject}
    {owners : Table OwnerAuthorityHistoryObject} {steps : List BlockStep}

/-! ## The past of a run -/

/-- An event, and the state it happens to. -/
structure Moment where
  db : Database
  event : Event

/-- The record of a run which keeps every moment, the latest first. -/
def noteMoment (past : List Moment) (db : Database) (event : Event)
    (_ : Database) : List Moment :=
  ⟨db, event⟩ :: past

/-- An event asks for the recovery of an account, or recovers it. -/
def Event.recovers (name : AccountName) : Event → Bool
  | .operation (.requestAccountRecovery op) => op.accountToRecover = name
  | .operation (.recoverAccount op) => op.accountToRecover = name
  | _ => false

/-- An event asks for a recovery account, or takes that back. -/
def Event.changesPartner (name : AccountName) : Event → Bool
  | .operation (.changeRecoveryAccount op) => op.accountToRecover = name
  | _ => false

/-- Who may ask for the recovery of an account. -/
def Database.MayRecover (db : Database) (name partner : AccountName) : Prop :=
  ∃ account, db.accounts.find? name = some account ∧
    if nameSize account.recoveryAccount ≠ 0 then account.recoveryAccount = partner
    else ∃ top, db.topWitness = some top ∧ top.owner = partner

/--
The last which happened about the recovery of an account is that one who may
do so asked for an authority, at the given time.
-/
def RecoveryAsked (past : List Moment) (name : AccountName)
    (authority : Authority) (time : Time) : Prop :=
  ∃ moment request,
    past.find? (fun moment => moment.event.recovers name) = some moment ∧
      moment.event = .operation (.requestAccountRecovery request) ∧
        request.newOwnerAuthority = authority ∧
          moment.db.MayRecover name request.recoveryAccount ∧
            moment.db.headBlockTime = time

/-- An authority was the owner authority of an account at the given time. -/
def OwnedAt (past : List Moment) (name : AccountName) (authority : Authority)
    (time : Time) : Prop :=
  ∃ moment ∈ past, ∃ held,
    moment.db.authorities.find? name = some held ∧ held.owner = authority ∧
      moment.db.headBlockTime = time

/--
The last which happened about the recovery account of an account is that the
given one was asked for, at the given time.
-/
def PartnerAsked (past : List Moment) (name partner : AccountName)
    (time : Time) : Prop :=
  ∃ moment request,
    past.find? (fun moment => moment.event.changesPartner name) =
        some moment ∧
      moment.event = .operation (.changeRecoveryAccount request) ∧
        request.newRecoveryAccount = partner ∧ moment.db.headBlockTime = time

/-- What the past says about an event which recovers or changes an account. -/
structure RecoverySafe (past : List Moment) (db : Database) (event : Event)
    (after : Database) : Prop where
  asked : ∀ op, event = .operation (.recoverAccount op) →
    ∃ time, RecoveryAsked past op.accountToRecover op.newOwnerAuthority time ∧
      db.headBlockTime ≤ time + accountRecoveryRequestExpirationPeriod
  owned : ∀ op, event = .operation (.recoverAccount op) →
    ∃ time, OwnedAt past op.accountToRecover op.recentOwnerAuthority time ∧
      db.headBlockTime ≤ time + ownerAuthRecoveryPeriod
  partner : ∀ name account changed,
    db.accounts.find? name = some account →
      after.accounts.find? name = some changed →
        changed.recoveryAccount ≠ account.recoveryAccount →
          ∃ time, PartnerAsked past name changed.recoveryAccount time ∧
            time + ownerAuthRecoveryPeriod ≤ after.headBlockTime

/-- The time at which a new recovery account takes effect is not wrapped. -/
def PartnerTimesFit (db : Database) : Event → Prop
  | .operation (.changeRecoveryAccount _) =>
      db.headBlockTime + ownerAuthRecoveryPeriod < 2 ^ 32
  | _ => True

/-! ## Recovery accounts stay -/

/-- Every account keeps its recovery account. -/
def PartnersStay (before after : Database) : Prop :=
  ∀ name account, before.accounts.find? name = some account →
    ∃ changed, after.accounts.find? name = some changed ∧
      changed.recoveryAccount = account.recoveryAccount

instance : IsPreorder Database PartnersStay where
  refl := fun _ _ account found => ⟨account, found, rfl⟩
  trans := by
    intro before middle after first second name account found
    rcases first name account found with ⟨changed, there, same⟩
    rcases second name changed there with ⟨last, found, equal⟩
    exact ⟨last, found, equal.trans same⟩

namespace Database

theorem partnersStay_of_agrees
    {before after : Database}
    (agrees : Agrees fields before after)
    (separate : apart [.account .profile] fields = true) :
    PartnersStay before after := by
  intro name account found
  have same := congrFun (agrees.read_eq separate List.mem_cons_self) name
  simp only [Field.read, found, Option.map_some, Option.map_eq_some_iff]
    at same
  rcases same with ⟨changed, there, equal⟩
  simp only [AccountAspect.read, Prod.mk.injEq] at equal
  exact ⟨changed, there, equal.2.2.2.2.2.2.2.2.2.1⟩

theorem partnersStay_modifyAccount
    {db : Database}
    {name : AccountName}
    {change : AccountObject → Except Fault AccountObject}
    (kept : ∀ account changed, change account = .ok changed →
      changed.recoveryAccount = account.recoveryAccount) :
    Respects PartnersStay db (db.modifyAccount name change) := by
  intro after done other account found
  rcases find_modifyAccount done with ⟨old, changed, there, equal, rows⟩
  rw [rows other]
  split
  case isTrue same =>
    subst same
    rw [there] at found
    cases found
    exact ⟨changed, rfl, kept _ changed equal⟩
  case isFalse => exact ⟨account, found, rfl⟩

/-- A new account changes no other. -/
theorem partnersStay_opened
    {db after : Database}
    {name : AccountName}
    (opens : OpensAccount db after name) :
    PartnersStay db after := by
  rcases opens with ⟨paid, opened, row, -, before, created, -, kept⟩
  rcases find_createNamed created with ⟨free, rows⟩
  have stayed : PartnersStay paid opened := by
    intro other account found
    rw [rows other, if_neg]
    · exact ⟨account, found, rfl⟩
    · rintro rfl
      rw [free] at found
      cases found
  exact trans_of _ (partnersStay_of_agrees before rfl)
    (trans_of _ stayed (partnersStay_of_agrees kept rfl))

theorem partnersStay_transfer
    (op : TransferOperation)
    (db : Database) :
    Respects PartnersStay db (db.transferEvaluator op) := by
  refine .read fun _ _ => .read fun _ _ => ?_
  have proved : ∀ name account,
      Respects PartnersStay db (db.proveActive name account) := by
    intro name account
    unfold proveActive
    split
    · refine partnersStay_modifyAccount ?_
      intro account changed equal
      cases equal
      rfl
    · exact .unchanged
  refine .bind (proved _ _) ?_
  refine fun proved => .read fun _ _ => .read fun _ _ => .read fun _ _ => ?_
  refine .bind (fun debited done => partnersStay_of_agrees
    (touches_adjustBalance proved _ _ debited done) rfl) ?_
  exact fun debited paid done => partnersStay_of_agrees
    (touches_adjustBalance debited _ _ paid done) rfl

theorem partnersStay_accountUpdate
    (ext : External)
    (op : AccountUpdateOperation)
    (db : Database) :
    Respects PartnersStay db (db.accountUpdateEvaluator ext op) := by
  refine .read fun _ _ => .read fun _ _ => .read fun _ _ => ?_
  refine .read fun authority _ => ?_
  refine .bind ?_ fun owned => .read fun _ _ => .read fun _ _ => ?_
  · unfold changeOwner
    split
    · exact .unchanged
    · refine .read fun _ _ => .read fun _ _ => ?_
      exact fun after done => partnersStay_of_agrees
        (touches_updateOwnerAuthority db _ _ after done) rfl
  refine .bind (partnersStay_modifyAccount ?_) fun changed => ?_
  · intro account changed equal
    simp only [bind_eq_ok_iff, pure_eq_ok_iff] at equal
    rcases equal with ⟨_, -, rfl⟩
    rfl
  split
  · exact fun after done => partnersStay_of_agrees
      (touches_modifyAuthority changed _ _ after done) rfl
  · exact .unchanged

theorem partnersStay_recoverAccount
    (op : RecoverAccountOperation)
    (db : Database) :
    Respects PartnersStay db (db.recoverAccountEvaluator op) := by
  refine .read fun _ _ => .read fun _ _ => .read fun request _ => ?_
  refine .read fun _ _ => .read fun _ _ => ?_
  have removed := partnersStay_of_agrees
    (agrees_recoveryRequests db (db.recoveryRequests.remove request.1)) rfl
  refine .after ?_ removed
  refine .bind (fun after done => partnersStay_of_agrees
    (touches_updateOwnerAuthority _ _ _ after done) rfl) ?_
  intro owned
  refine partnersStay_modifyAccount ?_
  intro account changed equal
  cases equal
  rfl

/-- No operation changes the recovery account of an account. -/
theorem partnersStay_applyOperation
    (ext : External)
    (db : Database)
    (op : Operation) :
    Respects PartnersStay db (db.applyOperation ext op) := by
  intro after done
  have agrees := touches_applyOperation ext db op after done
  cases op with
  | transfer op => exact partnersStay_transfer op db after done
  | accountCreate op =>
      exact partnersStay_opened (opensAccountNow_accountCreate done).opens
  | accountCreateWithDelegation op =>
      exact partnersStay_opened (opensAccountNow_accountCreateWithDelegation done).opens
  | accountUpdate op => exact partnersStay_accountUpdate ext op db after done
  | recoverAccount op => exact partnersStay_recoverAccount op db after done
  | _ => exact partnersStay_of_agrees agrees rfl

/-- Nor does a step of a block, but for the one which is there for it. -/
theorem partnersStay_runStep
    {ext : External}
    {header : BlockHeader}
    {db after : Database}
    {step : BlockStep}
    (other : step ≠ .accountRecoveryProcessing)
    (done : db.runStep ext header step = .ok after) :
    PartnersStay db after := by
  have agrees := touches_runStep ext header db step after done
  cases step with
  | accountRecoveryProcessing => exact absurd rfl other
  | _ => exact partnersStay_of_agrees agrees rfl

end Database

/-! ## What the operations do -/

namespace Database

variable {db after : Database}

theorem mayRecover_of_ok
    {name partner : AccountName}
    (found : db.accounts.find? name = some account)
    (checked : (if nameSize account.recoveryAccount ≠ 0 then
        require (account.recoveryAccount = partner)
          "Cannot recover an account that does not have you as there recovery partner."
      else
        require (db.topWitness.any fun top => top.owner = partner)
          "Top witness must recover an account with no recovery partner.") =
      .ok ()) :
    db.MayRecover name partner := by
  refine ⟨account, found, ?_⟩
  split at checked
  case isTrue partnered =>
    rw [if_pos partnered]
    rwa [require_eq_ok_iff] at checked
  case isFalse alone =>
    rw [if_neg alone]
    rw [require_eq_ok_iff] at checked
    cases top : db.topWitness with
    | none => simp [top] at checked
    | some witness => exact ⟨witness, rfl, by simpa [top] using checked⟩

/-- A request is made, taken back, or made anew. -/
theorem requestAccountRecovery_cases
    {op : RequestAccountRecoveryOperation}
    (done : db.requestAccountRecoveryEvaluator op = .ok after) :
    db.MayRecover op.accountToRecover op.recoveryAccount ∧
      ((db.recoveryRequests.findBy (fun request =>
            request.accountToRecover = op.accountToRecover) = none ∧
          after.recoveryRequests = db.recoveryRequests.emplace
            ⟨op.accountToRecover, op.newOwnerAuthority,
              addSeconds db.headBlockTime
                accountRecoveryRequestExpirationPeriod⟩) ∨
        ∃ id request,
          db.recoveryRequests.findBy (fun request =>
            request.accountToRecover = op.accountToRecover) =
              some (id, request) ∧
            (after.recoveryRequests = db.recoveryRequests.remove id ∨
              after.recoveryRequests = db.recoveryRequests.set id
                { request with
                  newOwnerAuthority := op.newOwnerAuthority
                  expires := addSeconds db.headBlockTime
                    accountRecoveryRequestExpirationPeriod })) := by
  simp only [requestAccountRecoveryEvaluator, bind_eq_ok_iff] at done
  rcases done with ⟨account, got, _, checked, done⟩
  refine ⟨mayRecover_of_ok (find_of_getAccount got) checked, ?_⟩
  split at done
  case h_1 missing =>
    simp only [bind_eq_ok_iff, pure_eq_ok_iff] at done
    rcases done with ⟨_, -, _, -, _, -, rfl⟩
    exact .inl ⟨missing, rfl⟩
  case h_2 id request found =>
    refine .inr ⟨id, request, found, ?_⟩
    split at done
    case isTrue =>
      cases done
      exact .inl rfl
    case isFalse =>
      simp only [bind_eq_ok_iff, pure_eq_ok_iff] at done
      rcases done with ⟨_, -, _, -, rfl⟩
      exact .inr rfl

/-- A recovery account is asked for, or a request taken back. -/
theorem changeRecoveryAccount_cases
    {op : ChangeRecoveryAccountOperation}
    (done : db.changeRecoveryAccountEvaluator op = .ok after) :
    (db.changeRecoveryRequests.findBy (fun request =>
          request.accountToRecover = op.accountToRecover) = none ∧
        after.changeRecoveryRequests = db.changeRecoveryRequests.emplace
          ⟨op.accountToRecover, op.newRecoveryAccount,
            addSeconds db.headBlockTime ownerAuthRecoveryPeriod⟩) ∨
      ∃ id request,
        db.changeRecoveryRequests.findBy (fun request =>
          request.accountToRecover = op.accountToRecover) =
            some (id, request) ∧
          (after.changeRecoveryRequests =
              db.changeRecoveryRequests.remove id ∨
            after.changeRecoveryRequests = db.changeRecoveryRequests.set id
              { request with
                recoveryAccount := op.newRecoveryAccount
                effectiveOn :=
                  addSeconds db.headBlockTime ownerAuthRecoveryPeriod }) := by
  simp only [changeRecoveryAccountEvaluator, bind_eq_ok_iff] at done
  rcases done with ⟨_, -, account, -, done⟩
  split at done
  case h_1 missing =>
    cases done
    exact .inl ⟨missing, rfl⟩
  case h_2 id request found =>
    refine .inr ⟨id, request, found, ?_⟩
    split at done
    case isTrue =>
      cases done
      exact .inr rfl
    case isFalse =>
      cases done
      exact .inl rfl

/-- The owner authorities noted so far stay, and an account's own may join. -/
def OwnerNoted (db after : Database) : Prop :=
  after.ownerHistory = db.ownerHistory ∨
    ∃ name held, db.authorities.find? name = some held ∧
      after.ownerHistory = db.ownerHistory.emplace
        ⟨name, held.owner, db.headBlockTime⟩

theorem ownerNoted_updateOwnerAuthority
    {name : AccountName}
    {owner : Authority}
    (done : db.updateOwnerAuthority name owner = .ok after) :
    OwnerNoted db after := by
  simp only [updateOwnerAuthority, bind_eq_ok_iff, getAuthority,
    orFault_eq_ok_iff] at done
  rcases done with ⟨held, found, done⟩
  have kept := touches_modifyAuthority _ _ _ after done .ownerHistory
    (by decide)
  simp only [Field.read] at kept
  unfold OwnerNoted
  rw [kept]
  split
  · exact .inr ⟨name, held, found, rfl⟩
  · exact .inl rfl

theorem ownerNoted_accountUpdate
    {ext : External}
    {op : AccountUpdateOperation}
    (done : db.accountUpdateEvaluator ext op = .ok after) :
    OwnerNoted db after := by
  simp only [accountUpdateEvaluator, bind_eq_ok_iff] at done
  rcases done with ⟨_, -, _, -, _, -, held, -, owned, own, _, -, _, -, done⟩
  rcases done with ⟨changed, change, done⟩
  have noted : OwnerNoted db owned := by
    unfold changeOwner at own
    split at own
    case h_1 =>
      cases own
      exact .inl rfl
    case h_2 =>
      simp only [bind_eq_ok_iff] at own
      rcases own with ⟨_, -, _, -, own⟩
      exact ownerNoted_updateOwnerAuthority own
  have kept : changed.ownerHistory = owned.ownerHistory := by
    rcases accounts_of_modifyAccount change with ⟨accounts, rfl⟩
    rfl
  have last : after.ownerHistory = changed.ownerHistory := by
    split at done
    case isTrue =>
      exact touches_modifyAuthority _ _ _ after done .ownerHistory (by decide)
    case isFalse =>
      cases done
      rfl
  unfold OwnerNoted
  rw [last, kept]
  exact noted

/-- What `recover_account` finds, and what it leaves. -/
theorem recoverAccount_cases
    (done : db.recoverAccountEvaluator op = .ok after) :
    ∃ id request place entry,
      db.recoveryRequests.findBy (fun request =>
          request.accountToRecover = op.accountToRecover) =
          some (id, request) ∧
        request.newOwnerAuthority = op.newOwnerAuthority ∧
          db.ownerHistory.findBy (fun history =>
            history.account = op.accountToRecover ∧
              history.previousOwnerAuthority = op.recentOwnerAuthority) =
            some (place, entry) ∧
            after.recoveryRequests = db.recoveryRequests.remove id ∧
              OwnerNoted db after := by
  simp only [recoverAccountEvaluator, bind_eq_ok_iff, require_eq_ok_iff,
    orFault_eq_ok_iff] at done
  rcases done with ⟨_, -, _, -, ⟨id, request⟩, found, _, matching, done⟩
  rcases done with ⟨_, recent, owned, own, done⟩
  rcases Option.isSome_iff_exists.1 recent with ⟨⟨place, entry⟩, there⟩
  refine ⟨id, request, place, entry, found, matching, there, ?_⟩
  rcases accounts_of_modifyAccount done with ⟨accounts, rfl⟩
  have kept := touches_updateOwnerAuthority _ _ _ owned own .recoveryRequests
    (by decide)
  have noted := ownerNoted_updateOwnerAuthority own
  exact ⟨kept, noted⟩

theorem ownerNoted_applyOperation
    {ext : External}
    {op : Operation}
    (done : db.applyOperation ext op = .ok after) :
    OwnerNoted db after := by
  have agrees := touches_applyOperation ext db op after done
  cases op with
  | accountUpdate op => exact ownerNoted_accountUpdate done
  | recoverAccount op =>
      rcases recoverAccount_cases done with ⟨_, _, _, _, -, -, -, -, noted⟩
      exact noted
  | _ => exact .inl (agrees .ownerHistory (of_decide_eq_true rfl))

end Database

/-! ## What the past says about the tables -/

section Past

variable {past : List Moment} {moment : Moment} {name : AccountName}
    {authority : Authority} {partner : AccountName} {time : Time}

theorem RecoveryAsked.note
    (asked : RecoveryAsked past name authority time)
    (other : moment.event.recovers name = false) :
    RecoveryAsked (moment :: past) name authority time := by
  rcases asked with ⟨found, request, last, rest⟩
  refine ⟨found, request, ?_, rest⟩
  rw [List.find?_cons, other]
  exact last

theorem OwnedAt.note
    (owned : OwnedAt past name authority time) :
    OwnedAt (moment :: past) name authority time := by
  rcases owned with ⟨found, member, rest⟩
  exact ⟨found, List.mem_cons_of_mem moment member, rest⟩

theorem PartnerAsked.note
    (asked : PartnerAsked past name partner time)
    (other : moment.event.changesPartner name = false) :
    PartnerAsked (moment :: past) name partner time := by
  rcases asked with ⟨found, request, last, rest⟩
  refine ⟨found, request, ?_, rest⟩
  rw [List.find?_cons, other]
  exact last

end Past

/-- Every stored request is the last one for its account, and recent. -/
structure RequestsBooked (past : List Moment) (now : Time)
    (requests : Table AccountRecoveryRequestObject) : Prop where
  each : requests.All fun request => ∃ time,
    RecoveryAsked past request.accountToRecover request.newOwnerAuthority
        time ∧
      request.expires =
          addSeconds time accountRecoveryRequestExpirationPeriod ∧
        now ≤ time + accountRecoveryRequestExpirationPeriod
  single : requests.Distinct AccountRecoveryRequestObject.accountToRecover

/-- Every stored owner authority was one lately, and they are stored in order. -/
structure OwnersBooked (past : List Moment) (now : Time)
    (owners : Table OwnerAuthorityHistoryObject) : Prop where
  each : owners.All fun entry =>
    OwnedAt past entry.account entry.previousOwnerAuthority
        entry.lastValidTime ∧
      entry.lastValidTime ≤ now ∧
        now ≤ entry.lastValidTime + ownerAuthRecoveryPeriod
  ordered : ∀ first second one two,
    owners.find? first = some one → owners.find? second = some two →
      first ≤ second → one.lastValidTime ≤ two.lastValidTime

/-- Every stored change is the last which was asked for its account. -/
structure ChangesBooked (past : List Moment)
    (changes : Table ChangeRecoveryAccountRequestObject) : Prop where
  each : changes.All fun request => ∃ time,
    PartnerAsked past request.accountToRecover request.recoveryAccount time ∧
      request.effectiveOn = time + ownerAuthRecoveryPeriod
  single : changes.Distinct ChangeRecoveryAccountRequestObject.accountToRecover

/-- The tables of recovery are as the past says. -/
structure RecoveryBooked (past : List Moment) (now : Time)
    (db : Database) : Prop where
  requests : RequestsBooked past now db.recoveryRequests
  owners : OwnersBooked past now db.ownerHistory
  changes : ChangesBooked past db.changeRecoveryRequests

section Notes

variable {past : List Moment} {moment : Moment} {now : Time}

theorem RequestsBooked.note
    (booked : RequestsBooked past now requests)
    (others : ∀ name, moment.event.recovers name = false) :
    RequestsBooked (moment :: past) now requests := by
  refine ⟨?_, booked.single⟩
  intro id request found
  rcases booked.each id request found with ⟨time, asked, rest⟩
  exact ⟨time, asked.note (others _), rest⟩

theorem ChangesBooked.note
    {changes : Table ChangeRecoveryAccountRequestObject}
    (booked : ChangesBooked past changes)
    (others : ∀ name, moment.event.changesPartner name = false) :
    ChangesBooked (moment :: past) changes := by
  refine ⟨?_, booked.single⟩
  intro id request found
  rcases booked.each id request found with ⟨time, asked, rest⟩
  exact ⟨time, asked.note (others _), rest⟩

/-- The request of an operation is stored, and those for others stay. -/
theorem RequestsBooked.requestAccountRecovery
    {db after : Database}
    {op : RequestAccountRecoveryOperation}
    (booked : RequestsBooked past db.headBlockTime db.recoveryRequests)
    (done : db.requestAccountRecoveryEvaluator op = .ok after) :
    RequestsBooked (⟨db, .operation (.requestAccountRecovery op)⟩ :: past)
      db.headBlockTime after.recoveryRequests := by
  rcases requestAccountRecovery_cases done with ⟨may, cases⟩
  have asked : RecoveryAsked
      (⟨db, .operation (.requestAccountRecovery op)⟩ :: past)
      op.accountToRecover op.newOwnerAuthority db.headBlockTime := by
    refine ⟨_, op, List.find?_cons_of_pos ?_, rfl, rfl, may, rfl⟩
    exact decide_eq_true rfl
  have kept : ∀ id request, db.recoveryRequests.find? id = some request →
      request.accountToRecover ≠ op.accountToRecover →
        ∃ time, RecoveryAsked
            (⟨db, .operation (.requestAccountRecovery op)⟩ :: past)
            request.accountToRecover request.newOwnerAuthority time ∧
          request.expires =
              addSeconds time accountRecoveryRequestExpirationPeriod ∧
            db.headBlockTime ≤
              time + accountRecoveryRequestExpirationPeriod := by
    intro id request found different
    rcases booked.each id request found with ⟨time, old, rest⟩
    exact ⟨time, old.note (decide_eq_false different.symm), rest⟩
  rcases cases with ⟨missing, equal⟩ | ⟨id, request, found, removed | written⟩
  · have free : db.recoveryRequests.All fun request =>
        request.accountToRecover ≠ op.accountToRecover :=
      fun id request there =>
        of_decide_eq_false (Table.refused_of_findBy missing there)
    rw [equal]
    constructor
    · refine Table.All.emplace ?_ ⟨_, asked, rfl, Nat.le_add_right _ _⟩
      exact fun id request there => kept id request there (free id request there)
    · exact booked.single.emplace free
  · rw [removed]
    refine ⟨.of_remove ?_, booked.single.remove id⟩
    exact fun other row different there => kept other row there
      (booked.single.others found other row different there)
  · have own : request.accountToRecover = op.accountToRecover :=
      Table.key_of_findBy found
    rw [written]
    constructor
    · refine .of_set (Table.find?_of_findBy found) ?_
        ⟨_, own ▸ asked, rfl, Nat.le_add_right _ _⟩
      exact fun other row different there => kept other row there
        (booked.single.others found other row different there)
    · exact booked.single.set (Table.find?_of_findBy found) rfl

/-- The request which a recovery uses is gone, and those for others stay. -/
theorem RequestsBooked.recoverAccount
    {db after : Database}
    (booked : RequestsBooked past db.headBlockTime db.recoveryRequests)
    (done : db.recoverAccountEvaluator op = .ok after) :
    RequestsBooked (⟨db, .operation (.recoverAccount op)⟩ :: past)
      db.headBlockTime after.recoveryRequests := by
  rcases recoverAccount_cases done with
    ⟨id, request, _, _, found, -, -, removed, -⟩
  rw [removed]
  refine ⟨.of_remove ?_, booked.single.remove id⟩
  intro other row different there
  have foreign := booked.single.others found other row different there
  rcases booked.each other row there with ⟨time, old, rest⟩
  exact ⟨time, old.note (decide_eq_false foreign.symm), rest⟩

theorem OwnersBooked.noted
    {db after : Database}
    {event : Event}
    (booked : OwnersBooked past db.headBlockTime db.ownerHistory)
    (noted : OwnerNoted db after) :
    OwnersBooked (⟨db, event⟩ :: past) db.headBlockTime
      after.ownerHistory := by
  have kept : db.ownerHistory.All fun entry =>
      OwnedAt (⟨db, event⟩ :: past) entry.account
          entry.previousOwnerAuthority entry.lastValidTime ∧
        entry.lastValidTime ≤ db.headBlockTime ∧
          db.headBlockTime ≤
            entry.lastValidTime + ownerAuthRecoveryPeriod := by
    intro id entry found
    rcases booked.each id entry found with ⟨owned, rest⟩
    exact ⟨owned.note, rest⟩
  rcases noted with same | ⟨name, held, found, joined⟩
  · rw [same]
    exact ⟨kept, booked.ordered⟩
  · rw [joined]
    constructor
    · refine kept.emplace ⟨?_, Nat.le_refl _, Nat.le_add_right _ _⟩
      exact ⟨_, List.mem_cons_self, held, found, rfl, rfl⟩
    · intro first second one two earlier later before
      rw [Table.find?_emplace] at earlier later
      split at earlier <;> split at later
      case isTrue.isTrue =>
        cases earlier
        cases later
        exact Nat.le_refl _
      case isTrue.isFalse last _ =>
        -- The new entry has the greatest id.
        have above := Table.fresh db.ownerHistory second (last ▸ before)
        rw [Table.find?, above] at later
        cases later
      case isFalse.isTrue =>
        cases later
        exact (booked.each first one earlier).2.1
      case isFalse.isFalse =>
        exact booked.ordered first second one two earlier later before

/-- A change which was asked for is stored, and those for others stay. -/
theorem ChangesBooked.changeRecoveryAccount
    {db after : Database}
    {op : ChangeRecoveryAccountOperation}
    (booked : ChangesBooked past db.changeRecoveryRequests)
    (fits : db.headBlockTime + ownerAuthRecoveryPeriod < 2 ^ 32)
    (done : db.changeRecoveryAccountEvaluator op = .ok after) :
    ChangesBooked (⟨db, .operation (.changeRecoveryAccount op)⟩ :: past)
      after.changeRecoveryRequests := by
  have asked : PartnerAsked
      (⟨db, .operation (.changeRecoveryAccount op)⟩ :: past)
      op.accountToRecover op.newRecoveryAccount db.headBlockTime := by
    refine ⟨_, op, List.find?_cons_of_pos ?_, rfl, rfl, rfl⟩
    exact decide_eq_true rfl
  have effective : addSeconds db.headBlockTime ownerAuthRecoveryPeriod =
      db.headBlockTime + ownerAuthRecoveryPeriod :=
    Nat.mod_eq_of_lt fits
  have kept : ∀ id request,
      db.changeRecoveryRequests.find? id = some request →
        request.accountToRecover ≠ op.accountToRecover →
          ∃ time, PartnerAsked
              (⟨db, .operation (.changeRecoveryAccount op)⟩ :: past)
              request.accountToRecover request.recoveryAccount time ∧
            request.effectiveOn = time + ownerAuthRecoveryPeriod := by
    intro id request found different
    rcases booked.each id request found with ⟨time, old, rest⟩
    exact ⟨time, old.note (decide_eq_false different.symm), rest⟩
  rcases changeRecoveryAccount_cases done with
    ⟨missing, equal⟩ | ⟨id, request, found, removed | written⟩
  · have free : db.changeRecoveryRequests.All fun request =>
        request.accountToRecover ≠ op.accountToRecover :=
      fun id request there =>
        of_decide_eq_false (Table.refused_of_findBy missing there)
    rw [equal]
    constructor
    · refine Table.All.emplace ?_ ⟨_, asked, effective⟩
      exact fun id request there => kept id request there (free id request there)
    · exact booked.single.emplace free
  · rw [removed]
    refine ⟨.of_remove ?_, booked.single.remove id⟩
    exact fun other row different there => kept other row there
      (booked.single.others found other row different there)
  · have own : request.accountToRecover = op.accountToRecover :=
      Table.key_of_findBy found
    rw [written]
    constructor
    · refine .of_set (Table.find?_of_findBy found) ?_
        ⟨_, own ▸ asked, effective⟩
      exact fun other row different there => kept other row there
        (booked.single.others found other row different there)
    · exact booked.single.set (Table.find?_of_findBy found) rfl

end Notes

/-! ## The end of a block -/

section Sweep

variable {past : List Moment} {now head : Time}

theorem RequestsBooked.remove
    (booked : RequestsBooked past now requests)
    (id : Nat) :
    RequestsBooked past now (requests.remove id) :=
  ⟨booked.each.remove id, booked.single.remove id⟩

/--
The requests which are not due yet are recent; one whose end was wrapped is
due too early.
-/
theorem RequestsBooked.swept
    (booked : RequestsBooked past now requests)
    (nothing : firstDue requests AccountRecoveryRequestObject.expires
      (fun request => request.expires ≤ head) = none) :
    RequestsBooked past head requests := by
  refine ⟨?_, booked.single⟩
  intro id request found
  rcases booked.each id request found with ⟨time, asked, expires, -⟩
  have later : head < request.expires := later_of_firstDue nothing found
  have wrapped : request.expires ≤
      time + accountRecoveryRequestExpirationPeriod :=
    expires ▸ Nat.mod_le _ _
  exact ⟨time, asked, expires, Nat.le_of_lt (Nat.lt_of_lt_of_le later wrapped)⟩

theorem OwnersBooked.remove
    (booked : OwnersBooked past now owners)
    (id : Nat) :
    OwnersBooked past now (owners.remove id) := by
  refine ⟨booked.each.remove id, ?_⟩
  intro first second one two earlier later before
  rw [Table.find?_remove] at earlier later
  split at earlier
  · cases earlier
  split at later
  · cases later
  exact booked.ordered first second one two earlier later before

/-- When the oldest owner authority is recent, so are the others. -/
theorem OwnersBooked.swept
    (booked : OwnersBooked past now owners)
    (forward : now ≤ head)
    (nothing : (owners.entries.head?.filter fun entry =>
      addSeconds entry.2.lastValidTime ownerAuthRecoveryPeriod < head) =
        none) :
    OwnersBooked past head owners := by
  refine ⟨?_, booked.ordered⟩
  intro id entry found
  rcases booked.each id entry found with ⟨owned, before, -⟩
  refine ⟨owned, Nat.le_trans before forward, ?_⟩
  rw [Table.head?_entries, Option.filter_eq_none_iff] at nothing
  cases search : owners.findBy fun _ => true with
  | none =>
      have refused := Table.refused_of_findBy search found
      cases refused
  | some oldest =>
      rcases oldest with ⟨place, first⟩
      rcases Table.findBy_eq_some_iff.1 search with ⟨there, -, least⟩
      have recent := nothing _ search
      rw [decide_eq_true_eq] at recent
      have order := booked.ordered place id first entry there found
        (least id entry found rfl)
      calc
        head ≤ addSeconds first.lastValidTime ownerAuthRecoveryPeriod :=
          Nat.le_of_not_lt recent
        _ ≤ first.lastValidTime + ownerAuthRecoveryPeriod := Nat.mod_le _ _
        _ ≤ entry.lastValidTime + ownerAuthRecoveryPeriod :=
          Nat.add_le_add_right order _

/--
Every account keeps its recovery account, or has the one which was asked for
long enough before the given time.
-/
def PartnersMoved (past : List Moment) (now : Time)
    (before after : Database) : Prop :=
  ∀ name account, before.accounts.find? name = some account →
    ∃ changed, after.accounts.find? name = some changed ∧
      (changed.recoveryAccount = account.recoveryAccount ∨
        ∃ time, PartnerAsked past name changed.recoveryAccount time ∧
          time + ownerAuthRecoveryPeriod ≤ now)

theorem PartnersStay.moved
    {before after : Database}
    (stay : PartnersStay before after) :
    PartnersMoved past now before after := by
  intro name account found
  rcases stay name account found with ⟨changed, there, same⟩
  exact ⟨changed, there, .inl same⟩

instance : IsPreorder Database (PartnersMoved past now) where
  refl := fun db => (refl_of PartnersStay db).moved
  trans := by
    intro before middle after first second name account found
    rcases first name account found with ⟨changed, there, moved⟩
    rcases second name changed there with ⟨last, found, same | asked⟩
    · exact ⟨last, found, same ▸ moved⟩
    · exact ⟨last, found, .inr asked⟩

namespace Database

variable {db after : Database}

theorem moved_applyRecoveryChange
    {entry : Nat × ChangeRecoveryAccountRequestObject}
    (booked : ChangesBooked past db.changeRecoveryRequests)
    (found : db.changeRecoveryRequests.find? entry.1 = some entry.2)
    (due : entry.2.effectiveOn ≤ now)
    (done : applyRecoveryChange entry db = .ok after) :
    PartnersMoved past now db after := by
  simp only [applyRecoveryChange, bind_eq_ok_iff, pure_eq_ok_iff] at done
  rcases done with ⟨changed, change, rfl⟩
  rcases find_modifyAccount change with ⟨old, new, there, equal, rows⟩
  cases equal
  rcases booked.each entry.1 entry.2 found with ⟨time, asked, effective⟩
  intro name account known
  change ∃ changed', changed.accounts.find? name = some changed' ∧ _
  rw [rows name]
  split
  case isTrue same =>
    subst same
    exact ⟨_, rfl, .inr ⟨time, asked, effective ▸ due⟩⟩
  case isFalse => exact ⟨account, known, .inl rfl⟩

/-- What the sweep at the end of a block leaves. -/
theorem swept_accountRecoveryProcessing
    (booked : RecoveryBooked past now db)
    (forward : now ≤ db.headBlockTime)
    (done : db.accountRecoveryProcessing = .ok after) :
    RecoveryBooked past db.headBlockTime after ∧
      PartnersMoved past db.headBlockTime db after := by
  simp only [accountRecoveryProcessing, bind_eq_ok_iff] at done
  rcases done with ⟨expired, expire, forgotten, forget, move⟩
  have first : ∃ requests, expired = { db with recoveryRequests := requests } ∧
      RequestsBooked past now requests := by
    refine drain_invariant
      (fun state : Database => ∃ requests,
        state = { db with recoveryRequests := requests } ∧
          RequestsBooked past now requests) ?_ expire
      ⟨_, rfl, booked.requests⟩
    rintro entry state next - removed ⟨requests, rfl, kept⟩
    cases removed
    exact ⟨_, rfl, kept.remove entry.1⟩
  rcases first with ⟨requests, rfl, recent⟩
  have current := drain_done expire
  have asked : RequestsBooked past db.headBlockTime requests :=
    recent.swept current
  have second : ∃ owners, forgotten =
      { db with recoveryRequests := requests, ownerHistory := owners } ∧
        OwnersBooked past now owners := by
    refine drain_invariant
      (fun state : Database => ∃ owners, state =
        { db with recoveryRequests := requests, ownerHistory := owners } ∧
          OwnersBooked past now owners) ?_ forget
      ⟨_, rfl, booked.owners⟩
    rintro entry state next - removed ⟨owners, rfl, kept⟩
    cases removed
    exact ⟨_, rfl, kept.remove entry.1⟩
  rcases second with ⟨owners, rfl, lately⟩
  have remembered := drain_done forget
  have owned : OwnersBooked past db.headBlockTime owners :=
    lately.swept forward remembered
  have third := drain_invariant
    (fun state : Database =>
      (state.recoveryRequests = requests ∧ state.ownerHistory = owners ∧
        state.headBlockTime = db.headBlockTime) ∧
          ChangesBooked past state.changeRecoveryRequests ∧
            PartnersMoved past db.headBlockTime db state) ?_ move
    ⟨⟨rfl, rfl, rfl⟩, booked.changes, refl_of PartnersStay db |>.moved⟩
  · rcases third with ⟨⟨sameRequests, sameOwners, -⟩, changes, moved⟩
    exact ⟨⟨sameRequests ▸ asked, sameOwners ▸ owned, changes⟩, moved⟩
  · rintro entry state next offered acted ⟨⟨first, second, time⟩, changes, moved⟩
    have found := find?_of_firstDue offered
    have due := (Option.filter_eq_some_iff.1 offered).2
    rw [decide_eq_true_eq, time] at due
    have step := moved_applyRecoveryChange changes found due acted
    simp only [applyRecoveryChange, bind_eq_ok_iff, pure_eq_ok_iff] at acted
    rcases acted with ⟨changed, change, rfl⟩
    rcases accounts_of_modifyAccount change with ⟨accounts, rfl⟩
    exact ⟨⟨first, second, time⟩,
      ⟨changes.each.remove entry.1, changes.single.remove entry.1⟩,
      trans_of _ moved step⟩

end Database

end Sweep

/-- The tables of recovery stay, and so do the recovery accounts. -/
structure RecoveryKept (before after : Database) : Prop where
  requests : after.recoveryRequests = before.recoveryRequests
  owners : after.ownerHistory = before.ownerHistory
  changes : after.changeRecoveryRequests = before.changeRecoveryRequests
  partners : PartnersStay before after

instance : IsPreorder Database RecoveryKept where
  refl := fun db => ⟨rfl, rfl, rfl, refl_of PartnersStay db⟩
  trans := fun _ _ _ first second =>
    ⟨second.requests.trans first.requests, second.owners.trans first.owners,
      second.changes.trans first.changes,
      trans_of _ first.partners second.partners⟩

section Blocks

variable {ext : External} {header : BlockHeader} {db after : Database}
    {past : List Moment} {now : Time}

theorem RecoveryBooked.of_kept
    (booked : RecoveryBooked past now db)
    (kept : RecoveryKept db after) :
    RecoveryBooked past now after :=
  ⟨kept.requests ▸ booked.requests, kept.owners ▸ booked.owners,
    kept.changes ▸ booked.changes⟩

theorem RecoveryBooked.note
    {moment : Moment}
    (booked : RecoveryBooked past moment.db.headBlockTime moment.db)
    (recovers : ∀ name, moment.event.recovers name = false)
    (changes : ∀ name, moment.event.changesPartner name = false) :
    RecoveryBooked (moment :: past) moment.db.headBlockTime moment.db :=
  ⟨booked.requests.note recovers, booked.owners.noted (.inl rfl),
    booked.changes.note changes⟩

theorem recoveryKept_of_agrees
    (agrees : Agrees fields db after)
    (separate : apart [.recoveryRequests, .ownerHistory,
      .changeRecoveryRequests] fields = true)
    (partners : PartnersStay db after) :
    RecoveryKept db after := by
  have same : ∀ field ∈ [Field.recoveryRequests, .ownerHistory,
      .changeRecoveryRequests], field.read after = field.read db :=
    fun field member => agrees.read_eq separate member
  exact ⟨same .recoveryRequests (by simp), same .ownerHistory (by simp),
    same .changeRecoveryRequests (by simp), partners⟩

namespace Database

/-- Steps without the sweep keep everything about recovery. -/
theorem recoveryKept_steps
    (others : .accountRecoveryProcessing ∉ steps)
    (ran : steps.foldlM (runStep ext header) db = .ok after) :
    RecoveryKept db after := by
  refine foldlM_invariant (RecoveryKept db) ?_ ran (refl_of _ db)
  intro state step next member stepped kept
  have other : step ≠ .accountRecoveryProcessing := by
    rintro rfl
    exact others member
  have partners := partnersStay_runStep other stepped
  have agrees := touches_runStep ext header state step next stepped
  refine trans_of _ kept ?_
  cases step with
  | accountRecoveryProcessing => exact absurd rfl other
  | _ => exact recoveryKept_of_agrees agrees rfl partners

/-- Steps after the first keep the time. -/
theorem time_steps
    (others : .updateGlobalDynamicData ∉ steps)
    (ran : steps.foldlM (runStep ext header) db = .ok after) :
    after.headBlockTime = db.headBlockTime := by
  refine foldlM_invariant
    (fun state : Database => state.headBlockTime = db.headBlockTime) ?_ ran rfl
  intro state step next member stepped same
  have later : step ≠ .updateGlobalDynamicData := by
    rintro rfl
    exact others member
  have kept := congrArg (fun head => head.2.2) (runStep_keeps later stepped).1
  exact kept.trans same

end Database

/-- What the end of a block does about recovery is the sweep at its time. -/
theorem finishBlock_sweep
    (done : db.finishBlock ext header = .ok after) :
    ∃ due swept, RecoveryKept db due ∧
      due.headBlockTime = header.timestamp ∧
        due.accountRecoveryProcessing = .ok swept ∧
          RecoveryKept swept after := by
  have order : blockSteps = .updateGlobalDynamicData ::
      ((blockSteps.drop 1).take 14 ++
        .accountRecoveryProcessing :: blockSteps.drop 16) := rfl
  rw [Database.finishBlock, order, List.foldlM_cons, bind_eq_ok_iff] at done
  rcases done with ⟨set, first, done⟩
  rw [List.foldlM_append, bind_eq_ok_iff] at done
  rcases done with ⟨due, early, done⟩
  rw [List.foldlM_cons, bind_eq_ok_iff] at done
  rcases done with ⟨swept, sweep, late⟩
  have start : RecoveryKept db set := by
    have alone : [BlockStep.updateGlobalDynamicData].foldlM
        (runStep ext header) db = .ok set := by
      rw [List.foldlM_cons, first]
      rfl
    exact recoveryKept_steps (by simp) alone
  have before : RecoveryKept set due :=
    recoveryKept_steps (by simp [blockSteps]) early
  have time : due.headBlockTime = header.timestamp := by
    have set := congrArg (fun head => head.2.2)
      (updateGlobalDynamicData_head first).1
    exact (time_steps (by simp [blockSteps]) early).trans set
  exact ⟨due, swept, trans_of _ start before, time, sweep,
    recoveryKept_steps (by simp [blockSteps]) late⟩

/-- The end of a block leaves the tables in order at its own time. -/
theorem RecoveryBooked.finishBlock
    (booked : RecoveryBooked past db.headBlockTime db)
    (forward : db.headBlockTime < header.timestamp)
    (done : db.finishBlock ext header = .ok after) :
    RecoveryBooked past header.timestamp after ∧
      PartnersMoved past header.timestamp db after := by
  rcases finishBlock_sweep done with ⟨due, swept, kept, time, sweep, rest⟩
  have ready := booked.of_kept kept
  rcases swept_accountRecoveryProcessing ready
    (time ▸ Nat.le_of_lt forward) sweep with ⟨fresh, moved⟩
  rw [time] at fresh moved
  refine ⟨fresh.of_kept rest, ?_⟩
  exact trans_of _ kept.partners.moved (trans_of _ moved rest.partners.moved)

/-! ## Runs -/

/-- What an operation leaves of the tables, with the operation noted. -/
theorem RecoveryBooked.applyOperation
    {op : Operation}
    (booked : RecoveryBooked past db.headBlockTime db)
    (fits : PartnerTimesFit db (.operation op))
    (done : db.applyOperation ext op = .ok after) :
    RecoveryBooked (⟨db, .operation op⟩ :: past) db.headBlockTime after := by
  have agrees := touches_applyOperation ext db op after done
  have owners : OwnersBooked (⟨db, .operation op⟩ :: past) db.headBlockTime
      after.ownerHistory :=
    booked.owners.noted (ownerNoted_applyOperation done)
  have requests : after.recoveryRequests = db.recoveryRequests →
      (∀ name, (Event.operation op).recovers name = false) →
        RequestsBooked (⟨db, .operation op⟩ :: past) db.headBlockTime
          after.recoveryRequests := by
    intro same others
    rw [same]
    exact booked.requests.note others
  have changes : after.changeRecoveryRequests = db.changeRecoveryRequests →
      (∀ name, (Event.operation op).changesPartner name = false) →
        ChangesBooked (⟨db, .operation op⟩ :: past)
          after.changeRecoveryRequests := by
    intro same others
    rw [same]
    exact booked.changes.note others
  cases op with
  | requestAccountRecovery op =>
      exact ⟨booked.requests.requestAccountRecovery done, owners,
        changes (agrees .changeRecoveryRequests (of_decide_eq_true rfl))
          fun _ => rfl⟩
  | recoverAccount op =>
      exact ⟨booked.requests.recoverAccount done, owners,
        changes (agrees .changeRecoveryRequests (of_decide_eq_true rfl))
          fun _ => rfl⟩
  | changeRecoveryAccount op =>
      exact ⟨requests (agrees .recoveryRequests (of_decide_eq_true rfl))
          fun _ => rfl, owners,
        booked.changes.changeRecoveryAccount fits done⟩
  | _ =>
      exact ⟨requests (agrees .recoveryRequests (of_decide_eq_true rfl))
          fun _ => rfl, owners,
        changes (agrees .changeRecoveryRequests (of_decide_eq_true rfl))
          fun _ => rfl⟩

/-- A recovery finds what the past says about the tables. -/
theorem RecoveryBooked.recoverAccount
    (booked : RecoveryBooked past db.headBlockTime db)
    (done : db.recoverAccountEvaluator op = .ok after) :
    (∃ time, RecoveryAsked past op.accountToRecover op.newOwnerAuthority
        time ∧
      db.headBlockTime ≤ time + accountRecoveryRequestExpirationPeriod) ∧
    ∃ time, OwnedAt past op.accountToRecover op.recentOwnerAuthority time ∧
      db.headBlockTime ≤ time + ownerAuthRecoveryPeriod := by
  rcases recoverAccount_cases done with
    ⟨id, request, place, entry, found, authority, recent, -, -⟩
  constructor
  · have own : request.accountToRecover = op.accountToRecover :=
      Table.key_of_findBy found
    rcases booked.requests.each id request (Table.find?_of_findBy found) with
      ⟨time, asked, -, fresh⟩
    rw [own, authority] at asked
    exact ⟨time, asked, fresh⟩
  · have passed := Table.passed_of_findBy recent
    rw [decide_eq_true_eq] at passed
    rcases booked.owners.each place entry (Table.find?_of_findBy recent) with
      ⟨owned, -, fresh⟩
    rw [passed.1, passed.2] at owned
    exact ⟨entry.lastValidTime, owned, fresh⟩

theorem PartnersMoved.asked
    (moved : PartnersMoved past now db after)
    {name : AccountName}
    {account changed : AccountObject}
    (found : db.accounts.find? name = some account)
    (there : after.accounts.find? name = some changed)
    (different : changed.recoveryAccount ≠ account.recoveryAccount) :
    ∃ time, PartnerAsked past name changed.recoveryAccount time ∧
      time + ownerAuthRecoveryPeriod ≤ now := by
  rcases moved name account found with ⟨last, also, same | asked⟩
  · rw [there] at also
    cases also
    exact absurd same different
  · rw [there] at also
    cases also
    exact asked

/-- An event without a recovery is safe when the recovery accounts allow it. -/
theorem PartnersMoved.safe
    {event : Event}
    (moved : PartnersMoved past after.headBlockTime db after)
    (other : ∀ op, event ≠ .operation (.recoverAccount op)) :
    RecoverySafe past db event after where
  asked op same := absurd same (other op)
  owned op same := absurd same (other op)
  partner _ _ _ found there different := moved.asked found there different

/-- One event keeps the tables as the past says, and is safe. -/
theorem RecoveryBooked.step
    {event : Event}
    (booked : RecoveryBooked past db.headBlockTime db)
    (forward : ∀ header, event = .finishBlock header →
      db.headBlockTime < header.timestamp)
    (fits : PartnerTimesFit db event)
    (stepped : db.step ext event = .ok after) :
    RecoveryBooked (noteMoment past db event after) after.headBlockTime
        after ∧
      RecoverySafe past db event after := by
  cases event with
  | operation op =>
      simp only [Database.step, bind_eq_ok_iff] at stepped
      rcases stepped with ⟨_, -, done⟩
      have stay : PartnersMoved past after.headBlockTime db after :=
        (partnersStay_applyOperation ext db op after done).moved
      rw [time_applyOperation done]
      refine ⟨booked.applyOperation fits done, ?_⟩
      by_cases recovers : ∃ recovery, op = .recoverAccount recovery
      · rcases recovers with ⟨recovery, rfl⟩
        rcases booked.recoverAccount done with ⟨asked, owned⟩
        refine ⟨?_, ?_, fun _ _ _ => stay.asked⟩
        · rintro _ ⟨⟩
          exact asked
        · rintro _ ⟨⟩
          exact owned
      · refine stay.safe ?_
        rintro recovery ⟨⟩
        exact recovers ⟨recovery, rfl⟩
  | beginBlock header =>
      have agrees := touches_beginBlock db header after stepped
      have stay := partnersStay_of_agrees agrees rfl
      rw [(time_beginBlock stepped).2]
      refine ⟨?_, stay.moved.safe (by simp)⟩
      have noted : RecoveryBooked (⟨db, .beginBlock header⟩ :: past)
          db.headBlockTime db :=
        booked.note (fun _ => rfl) fun _ => rfl
      exact noted.of_kept (recoveryKept_of_agrees agrees rfl stay)
  | finishBlock header =>
      have noted : RecoveryBooked (⟨db, .finishBlock header⟩ :: past)
          db.headBlockTime db :=
        booked.note (fun _ => rfl) fun _ => rfl
      have later := forward header rfl
      rw [time_finishBlock stepped]
      refine ⟨(noted.finishBlock later stepped).1, ?_⟩
      refine PartnersMoved.safe ?_ (by simp)
      rw [time_finishBlock stepped]
      exact (booked.finishBlock later stepped).2

end Blocks

theorem recoveryBooked_genesis :
    RecoveryBooked [] genesisTime initGenesis := by
  refine ⟨⟨.empty, .empty⟩, ⟨.empty, ?_⟩, ⟨.empty, .empty⟩⟩
  intro first second one two found
  cases found

/-- In every run in which the times of changes fit, the tables are in order. -/
theorem RecoveryBooked.of_run
    {ext : External}
    {past : List Moment}
    {block : Option BlockHeader}
    {db : Database}
    (run : RecordedRun ext PartnerTimesFit [] noteMoment past block db) :
    RecoveryBooked past db.headBlockTime db := by
  induction run with
  | genesis => exact recoveryBooked_genesis
  | step event before phase fits stepped booked =>
      refine (booked.step ?_ fits stepped).1
      rintro header rfl
      exact (before.runState.ahead phase).2

end BMChain.State
