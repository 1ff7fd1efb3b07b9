import BMChain.State.Holdings

/-!
# Declined voting rights

The end of a block takes the voting rights from the accounts which asked for
it a month ago.  Nothing gives them back.
-/

namespace BMChain.State

open BMChain.Foundation BMChain.Protocol Database

variable {ext : External} {name owner : AccountName} {db after : Database}
    {event : Event}

/-- An account has lost its voting rights, and nobody votes for it. -/
def Database.Declined (db : Database) (name : AccountName) : Prop :=
  ∃ account, db.accounts.find? name = some account ∧
    account.canVote = false ∧ account.proxy = ""

/-- An event is a vote of an account, or gives its votes to a proxy. -/
inductive Event.Casts (name : AccountName) : Event → Prop
  | vote (op : VoteOperation) (own : op.voter = name) :
      Casts name (.operation (.vote op))
  | approval (op : AccountWitnessVoteOperation) (own : op.account = name)
      (approves : op.approve = true) :
      Casts name (.operation (.accountWitnessVote op))
  | proxy (op : AccountWitnessProxyOperation) (own : op.account = name) :
      Casts name (.operation (.accountWitnessProxy op))

/-- An account which has lost its voting rights is still without them. -/
def DeclineStays (name : AccountName) (before after : Database) : Prop :=
  before.Declined name → after.Declined name

instance : IsPreorder Database (DeclineStays name) where
  refl := fun _ declined => declined
  trans := fun _ _ _ first second declined => second (first declined)

theorem declineStays_of_agrees
    {fields : List Field}
    (agrees : Agrees fields db after)
    (separate : apart [.account .canVote, .account .proxy] fields = true) :
    DeclineStays name db after := by
  rintro ⟨account, found, lost, alone⟩
  have rights := congrFun (agrees.read_eq separate (.head _)) name
  have proxy := congrFun (agrees.read_eq separate (.tail _ (.head _))) name
  simp only [Field.read, found, Option.map_some, Option.map_eq_some_iff]
    at rights proxy
  rcases rights with ⟨changed, there, same⟩
  rcases proxy with ⟨_, again, equal⟩
  cases there.symm.trans again
  exact ⟨changed, there, same.trans lost, equal.trans alone⟩

theorem declineStays_modifyAccount
    {change : AccountObject → Except Fault AccountObject}
    (declines : owner = name → ∀ account changed,
      change account = .ok changed →
        changed.canVote = false ∧ changed.proxy = "") :
    Respects (DeclineStays name) db (db.modifyAccount owner change) := by
  rintro after done ⟨account, found, rest⟩
  rcases find_modifyAccount done with ⟨old, changed, -, made, rows⟩
  rw [Declined, rows name]
  split
  case isTrue same => exact ⟨changed, rfl, declines same old changed made⟩
  case isFalse => exact ⟨account, found, rest⟩

theorem declineStays_opened
    (opens : OpensAccount db after owner) :
    DeclineStays name db after := by
  rcases opens with ⟨paid, opened, row, -, before, created, -, kept⟩
  rcases find_createNamed created with ⟨free, rows⟩
  have stayed : DeclineStays name paid opened := by
    rintro ⟨account, found, rest⟩
    refine ⟨account, ?_, rest⟩
    rw [rows name, if_neg, found]
    rintro rfl
    cases free.symm.trans found
  exact trans_of _ (declineStays_of_agrees before rfl)
    (trans_of _ stayed (declineStays_of_agrees kept rfl))

theorem declineStays_adjustProxied
    (remaining : Nat)
    (owner : AccountName)
    (deltas : List Int) :
    Respects (DeclineStays name) db
      (adjustProxiedDeltasFrom remaining db owner deltas) :=
  fun after done => declineStays_of_agrees
    (touches_adjustProxiedDeltasFrom _ db _ _ after done) rfl

theorem declineStays_clearWitnessVotes
    (owner : AccountName) :
    Respects (DeclineStays name) db (db.clearWitnessVotes owner) :=
  fun after done => declineStays_of_agrees
    (touches_clearWitnessVotes db _ after done) rfl

/-- An account without voting rights cannot choose a proxy. -/
theorem declineStays_accountWitnessProxy
    (op : AccountWitnessProxyOperation) :
    Respects (DeclineStays name) db (db.accountWitnessProxyEvaluator op) := by
  refine .read fun account got => .read fun _ _ => .read fun _ can => ?_
  by_cases own : op.account = name
  case pos =>
    rintro after - ⟨row, found, lost, -⟩
    subst own
    cases (find_of_getAccount got).symm.trans found
    rw [require_eq_ok_iff, lost] at can
    cases can
  case neg =>
    refine .read fun deltas _ => ?_
    refine .bind (declineStays_adjustProxied _ _ _) fun taken => ?_
    split
    · refine .read fun _ _ => .read fun _ _ => ?_
      refine .bind (declineStays_clearWitnessVotes _) fun cleared => ?_
      refine .bind (declineStays_modifyAccount fun same => absurd same own) ?_
      exact fun changed => .read fun _ _ => declineStays_adjustProxied _ _ _
    · exact declineStays_modifyAccount fun same => absurd same own

theorem declineStays_takeVotingRights
    (entry : Nat × DeclineVotingRightsRequestObject)
    (db : Database) :
    Respects (DeclineStays name) db (takeVotingRights entry db) := by
  refine .read fun _ _ => .read fun deltas _ => ?_
  refine .bind (declineStays_adjustProxied _ _ _) fun taken => ?_
  refine .bind (declineStays_clearWitnessVotes _) fun cleared => ?_
  refine .bind (declineStays_modifyAccount ?_) fun changed => .ok ?_
  · intro _ account changed equal
    cases equal
    exact ⟨rfl, rfl⟩
  · exact declineStays_of_agrees (agrees_declineRequests changed _) rfl

theorem declineStays_step
    (done : db.step ext event = .ok after) :
    DeclineStays name db after := by
  cases event with
  | beginBlock header =>
      exact declineStays_of_agrees (touches_beginBlock db header after done) rfl
  | operation op =>
      rcases (bind_eq_ok_iff _ _ _).1 done with ⟨_, -, applied⟩
      have agrees := touches_applyOperation ext db op after applied
      cases op with
      | accountCreate op =>
          exact declineStays_opened (opensAccountNow_accountCreate applied).opens
      | accountCreateWithDelegation op =>
          exact declineStays_opened
            (opensAccountNow_accountCreateWithDelegation applied).opens
      | accountWitnessProxy op =>
          exact declineStays_accountWitnessProxy op after applied
      | _ => exact declineStays_of_agrees agrees rfl
  | finishBlock header =>
      refine Respects.foldlM _ (fun state step => ?_) after done
      intro next ran
      have agrees := touches_runStep ext header state step next ran
      cases step with
      | processDeclineVotingRights =>
          exact Respects.drain _ declineStays_takeVotingRights next ran
      | _ => exact declineStays_of_agrees agrees rfl

/-- Whoever votes, or chooses a proxy, has voting rights. -/
theorem canVote_of_casts
    (casts : event.Casts name)
    (done : db.step ext event = .ok after) :
    ¬db.Declined name := by
  rintro ⟨account, found, lost, -⟩
  have refused : ∀ {voter}, db.getAccount name = .ok voter →
      ¬voter.canVote = true := by
    intro voter got can
    cases (find_of_getAccount got).symm.trans found
    cases lost.symm.trans can
  cases casts with
  | vote op own =>
      subst own
      rcases (bind_eq_ok_iff _ _ _).1 done with ⟨_, -, applied⟩
      simp only [applyOperation, voteEvaluator, bind_eq_ok_iff,
        require_eq_ok_iff] at applied
      rcases applied with ⟨_, -, voter, got, _, -, _, can, -⟩
      exact refused got can
  | approval op own approves =>
      subst own
      rcases (bind_eq_ok_iff _ _ _).1 done with ⟨_, -, applied⟩
      simp only [applyOperation, accountWitnessVoteEvaluator, bind_eq_ok_iff,
        require_eq_ok_iff] at applied
      rcases applied with ⟨voter, got, _, -, _, can, -⟩
      exact refused got (by simpa [approves] using can)
  | proxy op own =>
      subst own
      rcases (bind_eq_ok_iff _ _ _).1 done with ⟨_, -, applied⟩
      simp only [applyOperation, accountWitnessProxyEvaluator, bind_eq_ok_iff,
        require_eq_ok_iff] at applied
      rcases applied with ⟨voter, got, _, -, _, can, -⟩
      exact refused got can

/--
Once an account has lost its voting rights it never gets them back: it votes
neither on content nor for a witness, and chooses no proxy.
-/
theorem declined_rights_stay
    {events : List Event}
    (declined : db.Declined name)
    (ran : events.foldlM (Database.step ext) db = .ok after) :
    after.Declined name ∧ ∀ event ∈ events, ¬event.Casts name := by
  induction events generalizing db with
  | nil =>
      cases ran
      exact ⟨declined, nofun⟩
  | cons event rest induction =>
      rw [List.foldlM_cons, bind_eq_ok_iff] at ran
      rcases ran with ⟨middle, first, ran⟩
      rcases induction (declineStays_step first declined) ran with
        ⟨stays, silent⟩
      refine ⟨stays, List.forall_mem_cons.2 ⟨fun casts => ?_, silent⟩⟩
      exact canVote_of_casts casts first declined

/-- A state in which the account `devs` has just lost its voting rights. -/
def declinedSample : Except Fault Database :=
  { initGenesis with
    declineRequests :=
      .emplace .empty ⟨4, genesisTime⟩ }.processDeclineVotingRights

/-- The account `devs` is still without voting rights after the first block. -/
theorem declined_rights_stay_devs :
    ∃ db after, declinedSample = .ok db ∧
      [.beginBlock firstHeader, .finishBlock firstHeader].foldlM
          (Database.step plainExternal) db = .ok after ∧
        after.Declined "devs" := by
  have ran : (declinedSample.bind fun db =>
      (db.getAccount "devs").bind fun account =>
        (require (account.canVote = false ∧ account.proxy = "") "").bind fun _ =>
          [.beginBlock firstHeader, .finishBlock firstHeader].foldlM
            (Database.step plainExternal) db).isOk = true := by
    decide +kernel
  rcases exists_of_isOk ran with ⟨after, done⟩
  rcases (bind_eq_ok_iff _ _ _).1 done with ⟨db, took, done⟩
  rcases (bind_eq_ok_iff _ _ _).1 done with ⟨account, got, done⟩
  rcases (bind_eq_ok_iff _ _ _).1 done with ⟨_, checked, done⟩
  rw [require_eq_ok_iff] at checked
  exact ⟨db, after, took, done,
    (declined_rights_stay ⟨account, find_of_getAccount got, checked⟩ done).1⟩

end BMChain.State
