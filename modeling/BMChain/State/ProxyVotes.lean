import BMChain.State.Conservation
import BMChain.State.Coverage
import BMChain.State.ProxyForest

/-!
# Votes carried by proxies

Every change of shares and of proxies is sent up the chain of proxies.  The
amounts are shown to be the ones by which the forest's own sums change, for
each operation and each step of a block.
-/

namespace BMChain.State

open BMChain.Foundation BMChain.Protocol Std

variable {account : AccountObject} {op : AccountWitnessProxyOperation}
    {ext : External}

variable {amount shares : Int} {entry : Nat × DeclineVotingRightsRequestObject}

namespace Database

variable {db after : Database} {name : AccountName}

/-! ## New shares -/

/-- New shares of an account are carried by everyone above it. -/
theorem ProxiesKept.of_vesting
    {db ready after : Database}
    {delta : Int}
    (kept : db.ProxiesKept)
    (member : name ∈ db.names)
    (proxies : Field.read (.account .proxy) ready =
      Field.read (.account .proxy) db)
    (votes : Field.read (.account .proxied) ready =
      Field.read (.account .proxied) db)
    (shares : ∀ other,
      after.held AccountObject.vestingShares other =
        db.held AccountObject.vestingShares other +
          if name = other then delta else 0)
    (climbs : Climbs (ownDelta delta) 0 ready name after) :
    after.ProxiesKept := by
  have parents : after.proxyOf = db.proxyOf :=
    climbs.proxyOf_eq.trans (proxyOf_of_read_eq proxies)
  have members : after.names = db.names :=
    (names_of_read_eq (climbs.agrees (.account .proxy) (by decide))).trans
      (names_of_read_eq proxies)
  have sized := sized_of_read_eq votes kept.sized
  constructor
  case closed => rw [parents, members]; exact kept.closed
  case acyclic => rw [parents]; exact kept.acyclic
  case sized => exact climbs.sized sized
  case carried =>
    intro distance bound other
    rw [climbs.proxied_eq sized bound, Nat.sub_zero, arriving_ownDelta,
      proxied_of_read_eq votes, kept.carried distance bound,
      proxyOf_of_read_eq proxies, sharesBelow, sharesBelow, parents, members,
      Forest.carried_add member shares]
  case seated => rw [Seated, parents]; exact kept.seated

/-- What new shares touch before they are counted. -/
def vestedFields : List Field :=
  [.account .shares, .props .vestingFund, .props .vestingShares]

/-- New shares are written, and then sent up the chain of proxies. -/
theorem climbs_createVesting
    (done : db.createVesting name amount false = .ok (after, shares)) :
    ∃ ready,
      Agrees vestedFields db ready ∧ name ∈ db.names ∧
        Climbs (ownDelta shares) 0 ready name after := by
  simp only [createVesting, Bool.false_eq_true, if_false, bind_eq_ok_iff,
    pure_eq_ok_iff] at done
  rcases done with
    ⟨_, -, _, -, _, -, changed, change, fund, -, total, -, _, vote, equal⟩
  cases equal
  rcases find_modifyAccount change with ⟨_, _, found, -, -⟩
  refine ⟨_, ?_, mem_names_of_find found,
    climbs_adjustProxiedVotesFrom (Nat.le_refl _) vote⟩
  have owned : Agrees vestedFields db changed := by
    refine (touches_modifyAccount db name [.shares] ?_ changed change).mono
      (by decide)
    intro account changed equal aspect outside
    simp only [bind_eq_ok_iff, pure_eq_ok_iff] at equal
    rcases equal with ⟨_, -, rfl⟩
    cases aspect <;> simp [AccountAspect.read] at outside ⊢
  refine trans_of _ owned ((agrees_props changed
    [.vestingFund, .vestingShares] ?_).mono (by decide))
  intro aspect outside
  cases aspect <;> simp [PropsAspect.read] at outside ⊢

theorem kept_createVesting
    (done : db.createVesting name amount false = .ok (after, shares))
    (kept : db.ProxiesKept) :
    after.ProxiesKept := by
  rcases climbs_createVesting done with ⟨ready, touched, listed, climbs⟩
  exact kept.of_vesting listed (touched (.account .proxy) (by decide))
    (touched (.account .proxied) (by decide)) (held_createVesting done) climbs

/-- What a claim of rewards touches before it is counted. -/
def claimedFields : List Field :=
  [.account .rewardBmt, .account .balance, .account .shares,
    .account .rewardShares, .account .rewardBacking, .props .vestingShares,
    .props .vestingFund, .props .pendingShares, .props .pendingBacking]

/-- Claimed shares are written, and then sent up the chain of proxies. -/
theorem climbs_claimRewardBalance
    {op : ClaimRewardBalanceOperation}
    (done : db.claimRewardBalanceEvaluator op = .ok after) :
    ∃ ready,
      Agrees claimedFields db ready ∧ op.account ∈ db.names ∧
        Climbs (ownDelta op.rewardVests.amount) 0 ready op.account after := by
  simp only [claimRewardBalanceEvaluator, bind_eq_ok_iff,
    Asset.inSymbol_eq_ok_iff] at done
  rcases done with ⟨account, got, _, -, _, -, _, ⟨-, rfl⟩, _, -, _, -, done⟩
  rcases done with ⟨_, -, taken, take, given, give, moved, move, done⟩
  rcases done with ⟨_, -, _, -, _, -, _, -, tallied⟩
  refine ⟨_, ?_, mem_names_of_find (find_of_getAccount got),
    climbs_adjustProxiedVotesFrom (Nat.le_refl _) tallied⟩
  have owned : Agrees claimedFields given moved := by
    refine (touches_modifyAccount given op.account
      [.shares, .rewardShares, .rewardBacking] ?_ moved move).mono (by decide)
    intro account changed equal aspect outside
    simp only [bind_eq_ok_iff, pure_eq_ok_iff] at equal
    rcases equal with ⟨_, -, _, -, _, -, rfl⟩
    cases aspect <;> simp [AccountAspect.read] at outside ⊢
  refine trans_of _ ((touches_adjustRewardBalance db _ _ taken take).mono
    (by decide : _ ⊆ claimedFields)) (trans_of _
      ((touches_adjustBalance taken _ _ given give).mono (by decide))
      (trans_of _ owned ?_))
  refine (agrees_props moved
    [.vestingShares, .vestingFund, .pendingShares, .pendingBacking] ?_).mono
    (by decide)
  intro aspect outside
  cases aspect <;> simp [PropsAspect.read] at outside ⊢

theorem kept_claimRewardBalance
    {op : ClaimRewardBalanceOperation}
    (done : db.claimRewardBalanceEvaluator op = .ok after)
    (kept : db.ProxiesKept) :
    after.ProxiesKept := by
  rcases climbs_claimRewardBalance done with ⟨ready, touched, listed, climbs⟩
  exact kept.of_vesting listed (touched (.account .proxy) (by decide))
    (touched (.account .proxied) (by decide)) (held_claimRewardBalance done)
    climbs

/-! ## Changes of proxies -/

theorem getD_mapM_neg
    {votes negated : List Int}
    (done : votes.mapM (fun value => checked (-value)) = .ok negated)
    (place : Nat) :
    negated.getD place 0 = -votes.getD place 0 := by
  induction votes generalizing negated place with
  | nil =>
      cases done
      rfl
  | cons value rest induction =>
      rw [List.mapM_cons] at done
      simp only [bind_eq_ok_iff, pure_eq_ok_iff, checked_eq_ok_iff] at done
      rcases done with ⟨_, ⟨-, rfl⟩, tail, mapped, rfl⟩
      cases place with
      | zero => rfl
      | succ place => exact induction mapped place

/-- The votes of an account are the shares below it, its own among them. -/
theorem ProxiesKept.votes_eq
    (kept : db.ProxiesKept)
    (found : db.accounts.find? name = some account)
    {place : Nat}
    (bound : place ≤ maxProxyRecursionDepth) :
    (account.vestingShares :: account.proxiedVsfVotes).getD place 0 =
      db.sharesBelow place name := by
  cases place with
  | zero =>
      rw [sharesBelow, Forest.carried_zero (mem_names_of_find found),
        held_of_find found]
      rfl
  | succ distance =>
      rw [← kept.carried distance bound, proxied, held_of_find found]
      rfl

/-- The shares below an account which is taken off its proxy. -/
def sharesWithout (db : Database) (name : AccountName) (steps : Nat)
    (other : AccountName) : Int :=
  Forest.carried (Forest.detach db.proxyOf name)
    (db.held AccountObject.vestingShares) db.names steps other

/-- When an account withdraws its votes, everyone carries what is left. -/
theorem ProxiesKept.withdrawn
    {deltas : List Int}
    (kept : db.ProxiesKept)
    (found : db.accounts.find? name = some account)
    (taken : withdrawnVotes account = .ok deltas)
    (climbs : Climbs (fun place => deltas.getD place 0) 0 db name after)
    {distance : Nat}
    (bound : distance < maxProxyRecursionDepth)
    (other : AccountName) :
    after.proxied distance other =
      db.sharesWithout name (distance + 1) other := by
  rw [climbs.proxied_eq kept.sized bound, Nat.sub_zero,
    kept.carried distance bound]
  have taken : db.arriving (fun place => deltas.getD place 0) name other
      (distance + 1) =
    -∑ place ∈ Finset.range (distance + 1),
      Forest.share db.proxyOf
        (db.sharesWithout name (distance + 1 - 1 - place) name) (place + 1)
        name other := by
    unfold arriving
    rw [← Finset.sum_neg_distrib]
    refine Finset.sum_congr rfl fun place _ => ?_
    beta_reduce
    rw [getD_mapM_neg taken, kept.votes_eq found (by omega), Forest.share_neg,
      sharesBelow, Forest.carried_detach_self kept.acyclic]
    rfl
  rw [taken, sharesBelow, Forest.carried_detach _ _ name]
  exact Int.add_neg_cancel_right _ _

/-- The forest after a proxy is set or cleared. -/
theorem proxyOf_modifyAccount
    {name proxy : AccountName}
    {change : AccountObject → Except Fault AccountObject}
    (done : db.modifyAccount name change = .ok after)
    (sets : ∀ account changed, change account = .ok changed →
      changed.proxy = proxy) :
    after.proxyOf =
      Function.update db.proxyOf name
        (if proxy = "" then none else some proxy) := by
  rcases find_modifyAccount done with ⟨old, changed, -, made, rows⟩
  funext other
  rw [proxyOf, rows other]
  by_cases same : name = other
  · subst same
    rw [if_pos rfl, Function.update_self, Option.bind_some,
      sets old changed made]
  · rw [if_neg same, Function.update_of_ne (Ne.symm same)]
    rfl

/-- Without its proxy an account leaves the votes right. -/
theorem ProxiesKept.of_detached
    (kept : db.ProxiesKept)
    (parents : after.proxyOf = Forest.detach db.proxyOf name)
    (members : after.names = db.names)
    (shares : ∀ other,
      after.held AccountObject.vestingShares other =
        db.held AccountObject.vestingShares other)
    (sized : after.VotesSized)
    (votes : ∀ distance, distance < maxProxyRecursionDepth → ∀ other,
      after.proxied distance other =
        db.sharesWithout name (distance + 1) other) :
    after.ProxiesKept := by
  have weights : after.held AccountObject.vestingShares =
      db.held AccountObject.vestingShares :=
    funext shares
  constructor
  case closed =>
    rw [parents, members]
    exact kept.closed.detach name
  case acyclic => rw [parents]; exact kept.acyclic.detach name
  case sized => exact sized
  case carried =>
    intro distance bound other
    rw [votes distance bound, sharesBelow, parents, members, weights]
    rfl
  case seated =>
    rw [Seated, parents]
    constructor
    · by_cases same : nullAccount = name
      · rw [same, Forest.detach_self]
      · rw [Forest.detach_of_ne same]
        exact kept.seated.1
    · intro other proxy given
      by_cases same : other = name
      · rw [same, Forest.detach_self] at given
        cases given
      · rw [Forest.detach_of_ne same] at given
        exact kept.seated.2 other proxy given

/-- The check of a new proxy's chain finds nobody who is on the list. -/
theorem avoids_of_checkProxyChain
    {rounds : Nat}
    {chain : List Nat}
    {current : AccountObject}
    {place name : AccountName}
    (seated : db.Seated)
    (there : db.accounts.find? place = some current)
    (listed : ∀ account, db.accounts.find? name = some account →
      account.id ∈ chain)
    (passed : db.checkProxyChain rounds chain current = .ok ())
    (steps : Nat) :
    Forest.above db.proxyOf (steps + 1) place ≠ some name := by
  induction rounds generalizing chain current place steps with
  | zero => cases passed
  | succ rounds induction =>
      have proxy := proxyOf_of_find there
      unfold checkProxyChain at passed
      split at passed
      case isTrue root =>
        split at proxy
        case isTrue empty =>
          rw [Forest.above_of_root proxy]
          simp
        case isFalse hidden => exact absurd root (seated.2 place _ proxy)
      case isFalse proxied =>
        simp only [bind_eq_ok_iff, require_eq_ok_iff] at passed
        rcases passed with ⟨next, got, _, fresh, _, -, rest⟩
        have follows := find_of_getAccount got
        rw [if_neg fun empty => proxied (by rw [empty]; rfl)] at proxy
        rw [Forest.above_succ, proxy]
        cases steps with
        | zero =>
            intro equal
            rw [Option.bind_some, Forest.above_zero, Option.some.injEq]
              at equal
            rw [equal] at follows
            exact fresh (listed next follows)
        | succ steps =>
            refine induction follows ?_ rest steps
            exact fun account found =>
              List.mem_cons_of_mem _ (listed account found)

/-- With a new proxy an account leaves the votes right, once it has withdrawn
its votes from the old one and given them to the new one. -/
theorem ProxiesKept.of_attached
    {db ready after : Database}
    {name proxy : AccountName}
    {deltas : Nat → Int}
    (kept : db.ProxiesKept)
    (named : name ≠ nullAccount)
    (readable : nameSize proxy ≠ 0)
    (listed : proxy ∈ db.names)
    (avoids : ∀ steps, Forest.above db.proxyOf steps proxy ≠ some name)
    (parents : ready.proxyOf = Function.update db.proxyOf name (some proxy))
    (members : ready.names = db.names)
    (shares : ∀ other,
      ready.held AccountObject.vestingShares other =
        db.held AccountObject.vestingShares other)
    (sized : ready.VotesSized)
    (votes : ∀ distance, distance < maxProxyRecursionDepth → ∀ other,
      ready.proxied distance other =
        db.sharesWithout name (distance + 1) other)
    (given : ∀ place, place ≤ maxProxyRecursionDepth →
      deltas place = db.sharesBelow place name)
    (climbs : Climbs deltas 0 ready name after) :
    after.ProxiesKept := by
  have placed : ready.proxyOf name = some proxy := by
    rw [parents, Function.update_self]
  have same : Forest.detach ready.proxyOf name =
      Forest.detach db.proxyOf name := by
    rw [parents, Forest.detach, Forest.detach, Function.update_idem]
  have acyclic : Forest.Acyclic ready.proxyOf := by
    refine Forest.Acyclic.attach placed ?_ ?_
    · rw [same]
      exact kept.acyclic.detach name
    · rw [same]
      exact fun steps path => avoids steps (Forest.above_of_detach path)
  have rest := climbs.proxyOf_eq
  have touched := climbs.agrees
  have final : after.names = db.names :=
    (names_of_read_eq (touched (.account .proxy) (by decide))).trans members
  have weights : after.held AccountObject.vestingShares =
      db.held AccountObject.vestingShares := by
    funext other
    rw [held_shares_of_agrees touched (by decide), shares]
  constructor
  case closed =>
    rw [rest, final, parents]
    exact kept.closed.update listed name
  case acyclic => rw [rest]; exact acyclic
  case sized => exact climbs.sized sized
  case carried =>
    intro distance bound other
    rw [climbs.proxied_eq sized bound, Nat.sub_zero, votes distance bound,
      sharesBelow, rest, final, weights,
      Forest.carried_detach _ _ name (distance + 1), same]
    congr 1
    refine Finset.sum_congr rfl fun place _ => ?_
    rw [given _ (by omega), sharesBelow,
      Forest.carried_detach_self kept.acyclic]
  case seated =>
    rw [Seated, rest, parents, Function.update_of_ne (Ne.symm named)]
    refine ⟨kept.seated.1, fun other given place => ?_⟩
    by_cases same : other = name
    · rw [same, Function.update_self, Option.some.injEq] at place
      rwa [← place]
    · rw [Function.update_of_ne same] at place
      exact kept.seated.2 other given place

/-- The parts which a change of proxies leaves alone. -/
theorem names_of_climbs
    {deltas : Nat → Int}
    {depth : Nat}
    (climbs : Climbs deltas depth db name after) :
    after.names = db.names :=
  names_of_read_eq (climbs.agrees (.account .proxy) (by decide))

/-- A change of proxy withdraws the votes and, for a new proxy, gives them to
it after its chain is checked. -/
theorem accountWitnessProxy_cases
    (done : db.accountWitnessProxyEvaluator op = .ok after) :
    ∃ account deltas taken,
      db.accounts.find? op.account = some account ∧
        account.proxy ≠ op.proxy ∧ withdrawnVotes account = .ok deltas ∧
          Climbs (fun place => deltas.getD place 0) 0 db op.account taken ∧
            (nameSize op.proxy = 0 ∧
                (taken.modifyAccount op.account fun account =>
                  pure { account with proxy := op.proxy }) = .ok after ∨
              nameSize op.proxy ≠ 0 ∧ ∃ newProxy cleared changed restored,
                taken.accounts.find? op.proxy = some newProxy ∧
                  taken.checkProxyChain (maxProxyRecursionDepth + 1)
                      (if newProxy.id = account.id then [account.id]
                        else [newProxy.id, account.id]) newProxy = .ok () ∧
                    taken.clearWitnessVotes op.account = .ok cleared ∧
                      (cleared.modifyAccount op.account fun account =>
                        pure { account with proxy := op.proxy }) =
                          .ok changed ∧
                        deltas.mapM (fun delta => checked (-delta)) =
                          .ok restored ∧
                          Climbs (fun place => restored.getD place 0) 0 changed
                            op.account after) := by
  simp only [accountWitnessProxyEvaluator, bind_eq_ok_iff, require_eq_ok_iff]
    at done
  rcases done with
    ⟨account, got, _, change, _, -, deltas, take, taken, took, done⟩
  refine ⟨account, deltas, taken, find_of_getAccount got, change, take,
    climbs_adjustProxiedDeltasFrom (Nat.le_refl _) took, ?_⟩
  split at done
  case isTrue proxied =>
    simp only [bind_eq_ok_iff] at done
    rcases done with ⟨newProxy, new, ⟨⟩, passed, cleared, clear, done⟩
    rcases done with ⟨changed, set, restored, restore, gave⟩
    exact .inr ⟨proxied, newProxy, cleared, changed, restored,
      find_of_getAccount new, passed, clear, set, restore,
      climbs_adjustProxiedDeltasFrom (Nat.le_refl _) gave⟩
  case isFalse none => exact .inl ⟨not_not.1 none, done⟩

theorem proxy_ne_account_of_valid
    (valid : (Operation.accountWitnessProxy op).validate ext = .ok ()) :
    op.proxy ≠ op.account := by
  simp only [Operation.validate, AccountWitnessProxyOperation.validate,
    bind_eq_ok_iff] at valid
  rcases valid with ⟨_, -, valid⟩
  split at valid
  · exact require_eq_ok_iff.1 valid
  · rw [bind_eq_ok_iff] at valid
    rcases valid with ⟨_, -, valid⟩
    exact require_eq_ok_iff.1 valid

/-- Setting a proxy touches nothing else. -/
theorem updated_setProxy
    {name proxy : AccountName}
    (set : (db.modifyAccount name fun account =>
      pure { account with proxy := proxy }) = .ok after) :
    Agrees [.account .proxy] db after ∧
      after.proxyOf = Function.update db.proxyOf name
        (if proxy = "" then none else some proxy) := by
  constructor
  · exact touches_setProxy db name proxy after set
  · refine proxyOf_modifyAccount set ?_
    intro account changed equal
    cases equal
    rfl

theorem kept_accountWitnessProxy
    (named : op.account ≠ nullAccount)
    (readable : nameSize op.proxy = 0 → op.proxy = "")
    (valid : (Operation.accountWitnessProxy op).validate ext = .ok ())
    (done : db.accountWitnessProxyEvaluator op = .ok after)
    (kept : db.ProxiesKept) :
    after.ProxiesKept := by
  have different := proxy_ne_account_of_valid valid
  rcases accountWitnessProxy_cases done with
    ⟨account, deltas, taken, found, -, take, climbs, rest⟩
  have votes : ∀ distance, distance < maxProxyRecursionDepth → ∀ other,
      taken.proxied distance other =
        db.sharesWithout op.account (distance + 1) other :=
    fun distance bound => kept.withdrawn found take climbs bound
  have parents := climbs.proxyOf_eq
  have shares := held_shares_of_agrees climbs.agrees (by decide)
  rcases rest with ⟨none, set⟩ | ⟨proxied, newProxy, cleared, changed, rest⟩
  · rcases updated_setProxy set with ⟨touched, updated⟩
    rw [if_pos (readable none), parents] at updated
    refine kept.of_detached updated ?_ ?_ ?_ ?_
    · rw [names_of_read_eq (touched (.account .shares) (by decide)),
        names_of_climbs climbs]
    · intro other
      rw [held_shares_of_agrees touched (by decide), shares]
    · exact sized_of_read_eq (touched (.account .proxied) (by decide))
        (climbs.sized kept.sized)
    · intro distance bound other
      rw [proxied_of_read_eq (touched (.account .proxied) (by decide)),
        votes distance bound]
  · rcases rest with ⟨restored, new, passed, clear, set, restore, gave⟩
    have clears := touches_clearWitnessVotes taken _ cleared clear
    rcases updated_setProxy set with ⟨sets, updated⟩
    rw [if_neg fun empty => proxied (by rw [empty]; rfl),
      proxyOf_of_read_eq (clears (.account .proxy) (by decide)), parents]
      at updated
    have touched : Agrees [.witnessVotes, .account .votedFor, .account .proxy]
        taken changed :=
      trans_of _ (clears.mono (by decide)) (sets.mono (by decide))
    have listed : ∀ owner, taken.accounts.find? op.account = some owner →
        owner.id ∈ if newProxy.id = account.id then [account.id]
          else [newProxy.id, account.id] := by
      intro owner there
      have same := congrFun (climbs.agrees (.account .identity) (by decide))
        op.account
      simp only [Field.read, there, found, Option.map_some, AccountAspect.read,
        Option.some.injEq, Prod.mk.injEq] at same
      rw [same.1]
      split <;> simp
    refine kept.of_attached named proxied ?_ ?_ updated ?_ ?_ ?_ ?_ ?_ gave
    · rw [← names_of_climbs climbs]
      exact mem_names_of_find new
    · intro steps
      rw [← parents]
      cases steps with
      | zero => exact fun equal => different (Option.some.inj equal)
      | succ steps =>
          refine avoids_of_checkProxyChain ?_ new listed passed steps
          rw [Seated, parents]
          exact kept.seated
    · rw [names_of_read_eq (touched (.account .shares) (by decide)),
        names_of_climbs climbs]
    · intro other
      rw [held_shares_of_agrees touched (by decide), shares]
    · exact sized_of_read_eq (touched (.account .proxied) (by decide))
        (climbs.sized kept.sized)
    · intro distance bound other
      rw [proxied_of_read_eq (touched (.account .proxied) (by decide)),
        votes distance bound]
    · intro place bound
      rw [getD_mapM_neg restore, getD_mapM_neg take, Int.neg_neg,
        kept.votes_eq found bound]

/-- An account which loses its voting rights withdraws its votes. -/
theorem takeVotingRights_cases
    (done : takeVotingRights entry db = .ok after) :
    ∃ name account deltas taken cleared changed,
      db.accounts.find? name = some account ∧
        withdrawnVotes account = .ok deltas ∧
          Climbs (fun place => deltas.getD place 0) 0 db name taken ∧
            taken.clearWitnessVotes name = .ok cleared ∧
              (cleared.modifyAccount name fun account =>
                pure { account with canVote := false, proxy := "" }) =
                  .ok changed ∧
                Agrees [.declineRequests] changed after := by
  simp only [takeVotingRights, bind_eq_ok_iff] at done
  rcases done with ⟨⟨name, account⟩, got, deltas, take, taken, took, done⟩
  rcases done with ⟨cleared, clear, changed, set, equal⟩
  cases equal
  exact ⟨name, account, deltas, taken, cleared, changed,
    Register.find?_of_findBy (orFault_eq_ok_iff.1 got), take,
    climbs_adjustProxiedDeltasFrom (Nat.le_refl _) took, clear, set,
    agrees_declineRequests changed _⟩

theorem updated_declined
    (set : (db.modifyAccount name fun account =>
      pure { account with canVote := false, proxy := "" }) = .ok after) :
    Agrees [.account .canVote, .account .proxy] db after ∧
      after.proxyOf = Function.update db.proxyOf name none := by
  constructor
  · refine touches_modifyAccount_pure db name [.canVote, .proxy] ?_ after set
    intro account aspect outside
    cases aspect <;> simp [AccountAspect.read] at outside ⊢
  · have updated := proxyOf_modifyAccount set fun account changed equal =>
      (by cases equal; rfl : changed.proxy = "")
    rwa [if_pos rfl] at updated

theorem kept_takeVotingRights
    (done : takeVotingRights entry db = .ok after)
    (kept : db.ProxiesKept) :
    after.ProxiesKept := by
  rcases takeVotingRights_cases done with
    ⟨name, account, deltas, taken, cleared, changed, found, take, rest⟩
  rcases rest with ⟨climbs, clear, set, removed⟩
  refine ProxiesKept.of_agrees ?_ removed rfl
  have clears := touches_clearWitnessVotes taken _ cleared clear
  rcases updated_declined set with ⟨sets, updated⟩
  have touched : Agrees [.witnessVotes, .account .votedFor, .account .canVote,
      .account .proxy] taken changed :=
    trans_of _ (clears.mono (by decide)) (sets.mono (by decide))
  rw [proxyOf_of_read_eq (clears (.account .proxy) (by decide)),
    climbs.proxyOf_eq] at updated
  refine kept.of_detached updated ?_ ?_ ?_ ?_
  · rw [names_of_read_eq (touched (.account .shares) (by decide)),
      names_of_climbs climbs]
  · intro other
    rw [held_shares_of_agrees touched (by decide),
      held_shares_of_agrees climbs.agrees (by decide)]
  · exact sized_of_read_eq (touched (.account .proxied) (by decide))
      (climbs.sized kept.sized)
  · intro distance bound other
    rw [proxied_of_read_eq (touched (.account .proxied) (by decide)),
      kept.withdrawn found take climbs bound]

/-! ## New accounts and the null account -/

section Creation

variable {row : Nat → AccountObject}
    (created : createNamed db.accounts name row = .ok after.accounts)

include created

theorem proxyOf_created
    (alone : ∀ id, (row id).proxy = "") :
    after.proxyOf = db.proxyOf := by
  rcases find_createNamed created with ⟨free, rows⟩
  funext other
  rw [proxyOf, rows other]
  split
  case isTrue same => rw [← same, proxyOf, free, Option.bind_some, alone]; rfl
  case isFalse => rfl

theorem names_created :
    after.names = insert name db.names := by
  rcases find_createNamed created with ⟨free, rows⟩
  ext other
  rw [Finset.mem_insert, mem_names, mem_names, rows other]
  split
  case isTrue same => simp [same]
  case isFalse different => simp [Ne.symm different]

theorem proxied_created
    (fresh : ∀ id, (row id).proxiedVsfVotes = [0, 0, 0, 0])
    (distance : Nat)
    (other : AccountName) :
    after.proxied distance other = db.proxied distance other := by
  have zero : List.getD [0, 0, 0, 0] distance (0 : Int) = 0 := by
    rcases distance with _ | _ | _ | _ | _ <;> rfl
  refine (held_createNamed created other).trans ?_
  rw [fresh, zero, ite_self, Int.add_zero]
  rfl

end Creation

/-- A new account without shares and proxy changes no votes. -/
theorem ProxiesKept.of_created
    {row : Nat → AccountObject}
    (kept : db.ProxiesKept)
    (created : createNamed db.accounts name row = .ok after.accounts)
    (alone : ∀ id, (row id).proxy = "")
    (poor : ∀ id, (row id).vestingShares = 0)
    (fresh : ∀ id, (row id).proxiedVsfVotes = [0, 0, 0, 0]) :
    after.ProxiesKept := by
  rcases find_createNamed created with ⟨free, rows⟩
  have parents := proxyOf_created created alone
  have members := names_created created
  have weights : after.held AccountObject.vestingShares =
      db.held AccountObject.vestingShares := by
    funext other
    rw [held_createNamed created, poor, ite_self, Int.add_zero]
  constructor
  case closed =>
    rw [parents, members]
    intro other member upper step
    refine Finset.mem_insert_of_mem ?_
    rcases Finset.mem_insert.1 member with rfl | old
    · rw [proxyOf, free] at step
      cases step
    · exact kept.closed other old upper step
  case acyclic => rw [parents]; exact kept.acyclic
  case sized =>
    intro other account found
    rw [rows other] at found
    split at found
    · cases found
      rw [fresh]
      rfl
    · exact kept.sized other account found
  case carried =>
    intro distance bound other
    have light : db.held AccountObject.vestingShares name = 0 := by
      rw [held, free]
      rfl
    rw [proxied_created created fresh, kept.carried distance bound,
      sharesBelow, sharesBelow, parents, members, weights,
      Forest.carried_insert light]
  case seated => rw [Seated, parents]; exact kept.seated

theorem kept_accountCreate
    {op : AccountCreateOperation}
    (done : db.accountCreateEvaluator ext op = .ok after)
    (kept : db.ProxiesKept) :
    after.ProxiesKept := by
  simp only [accountCreateEvaluator, bind_eq_ok_iff] at done
  rcases done with ⟨_, -, _, -, _, -, _, -, _, -, _, -, _, -, _, -, done⟩
  rcases done with ⟨debited, debit, _, -, accounts, created, done⟩
  rcases done with ⟨authorities, -, paid, pay, emitted⟩
  refine ProxiesKept.of_agrees ?_
    (touches_processFundsBmchain _ _ after emitted) rfl
  refine ProxiesKept.of_agrees ?_ (touches_payFee _ _ paid pay) rfl
  have spent := kept.of_agrees (touches_addBalance db _ _ debited debit) rfl
  exact spent.of_created created (fun _ => rfl) (fun _ => rfl) fun _ => rfl

theorem kept_accountCreateWithDelegation
    {op : AccountCreateWithDelegationOperation}
    (done : db.accountCreateWithDelegationEvaluator op = .ok after)
    (kept : db.ProxiesKept) :
    after.ProxiesKept := by
  rcases accountCreateWithDelegation_cases done with
    ⟨debited, accounts, _, _, _, touched, created, vested⟩
  have opened : ∀ ready : Database, ready.accounts = accounts →
      ready.ProxiesKept := by
    rintro ready rfl
    exact (kept.of_agrees touched rfl).of_created created (fun _ => rfl)
      (fun _ => rfl) fun _ => rfl
  rcases vested with rfl | ⟨_, _, vest⟩
  · exact opened _ rfl
  · exact kept_createVesting vest (opened _ rfl)

/-- Nobody carries the shares of the null account, which has no proxy. -/
theorem kept_clearNullAccountBalance
    (done : db.clearNullAccountBalance = .ok after)
    (kept : db.ProxiesKept) :
    after.ProxiesKept := by
  have touched := touches_clearNullAccountBalance db after done
  have proxies := touched (.account .proxy) (by decide)
  have votes := touched (.account .proxied) (by decide)
  have parents := proxyOf_of_read_eq proxies
  have members := names_of_read_eq proxies
  have swept : ∀ other,
      after.held AccountObject.vestingShares other =
        db.held AccountObject.vestingShares other +
          if nullAccount = other then
            after.held AccountObject.vestingShares nullAccount -
              db.held AccountObject.vestingShares nullAccount
          else 0 := by
    intro other
    split
    case isTrue same => rw [← same]; omega
    case isFalse different =>
      rcases shares_clearNullAccountBalance done other with same | ⟨rfl, -⟩
      · omega
      · exact absurd rfl different
  have member : nullAccount ∈ db.names := by
    simp only [clearNullAccountBalance, burnBalance, bind_eq_ok_iff] at done
    rcases done with ⟨_, ⟨account, got, -⟩, -⟩
    exact mem_names_of_find (find_of_getAccount got)
  constructor
  case closed => rw [parents, members]; exact kept.closed
  case acyclic => rw [parents]; exact kept.acyclic
  case sized => exact sized_of_read_eq votes kept.sized
  case carried =>
    intro distance bound other
    rw [proxied_of_read_eq votes, kept.carried distance bound, sharesBelow,
      sharesBelow, parents, members, Forest.carried_add member swept,
      Forest.share_of_root kept.seated.1, Int.add_zero]
  case seated => rw [Seated, parents]; exact kept.seated

/-! ## Operations and steps -/

/-- The accounts which sign an operation. -/
def issuers (op : Operation) : List AccountName :=
  op.requiredActive ++ op.requiredOwner ++ op.requiredPosting

/-- The null account, whose authorities nobody satisfies, issues nothing. -/
def NullSilent (_ : Database) (op : Operation) : Prop :=
  nullAccount ∉ issuers op

/-- A proxy is the empty name or begins with a byte other than zero. -/
def ProxyReadable : Operation → Prop
  | .accountWitnessProxy op => nameSize op.proxy = 0 → op.proxy = ""
  | _ => True

/-- The null account issues nothing, and proxies can be read. -/
def VotesReadably (db : Database) (op : Operation) : Prop :=
  NullSilent db op ∧ ProxyReadable op

theorem kept_applyOperation
    {op : Operation}
    (allowed : VotesReadably db op)
    (valid : op.validate ext = .ok ())
    (done : db.applyOperation ext op = .ok after)
    (kept : db.ProxiesKept) :
    after.ProxiesKept := by
  have agrees := touches_applyOperation ext db op after done
  cases op with
  | accountCreate op => exact kept_accountCreate done kept
  | accountCreateWithDelegation op =>
      exact kept_accountCreateWithDelegation done kept
  | accountWitnessProxy op =>
      refine kept_accountWitnessProxy ?_ allowed.2 valid done kept
      rintro same
      exact allowed.1 (by simp [issuers, Operation.requiredActive, same])
  | claimRewardBalance op => exact kept_claimRewardBalance done kept
  | _ => exact kept.of_agrees agrees rfl

theorem kept_cashoutCommentHelper
    {id recentClaims : Nat}
    {rewardBalance claimed : Int}
    (done : db.cashoutCommentHelper ext id recentClaims rewardBalance =
      .ok (after, claimed))
    (kept : db.ProxiesKept) :
    after.ProxiesKept := by
  rcases cashout_cases done with paid | ⟨ready, vested, _, _, _, paid⟩
  · exact kept.of_agrees paid rfl
  · rcases paid with ⟨before, create, closed, -⟩
    exact (kept_createVesting create (kept.of_agrees before rfl)).of_agrees
      closed rfl

theorem kept_runStep
    {header : BlockHeader}
    {step : BlockStep}
    (early : BeforeBurn header db step)
    (done : db.runStep ext header step = .ok after)
    (kept : db.ProxiesKept) :
    after.ProxiesKept := by
  have agrees := touches_runStep ext header db step after done
  cases step with
  | clearNullAccountBalance => exact kept_clearNullAccountBalance done kept
  | processCommentCashout =>
      have always : EachPayout ext (fun _ _ _ _ => True) db :=
        eachPayout_of_forall (fun _ _ _ _ => trivial) db
      refine processCommentCashout_invariant ProxiesKept ?_ ?_ always done kept
      · exact fun before after paid start => start.of_agrees paid rfl
      · intro db id recentClaims rewardBalance after claimed _ cashed start
        exact kept_cashoutCommentHelper cashed start
  | processDeclineVotingRights =>
      refine drain_invariant ProxiesKept ?_ done kept
      exact fun entry state next _ taken start =>
        kept_takeVotingRights taken start
  | processHardforks =>
      simp only [runStep, processHardforks, bind_eq_ok_iff] at done
      rcases done with ⟨_, -, done⟩
      rw [if_neg early] at done
      cases done
      exact kept
  | _ => exact kept.of_agrees agrees rfl

/-! ## The votes of all accounts -/

/-- What `validate_invariants` counts of one account. -/
def countedVotes (account : AccountObject) : Except Fault Int :=
  if account.proxy = "" then account.witnessVoteWeight
  else pure (account.proxiedVsfVotes.getD (maxProxyRecursionDepth - 1) 0)

/-- The sum `total_vsf_votes` of `validate_invariants`. -/
def totalVsfVotes (db : Database) : Except Fault Int :=
  db.accounts.entries.foldlM
    (fun total entry => do
      let votes ← countedVotes entry.2
      checked (total + votes))
    0

/-- The same without the limit of 64 bits. -/
def exactVsfVotes (account : AccountObject) : Int :=
  if account.proxy = "" then
    account.vestingShares + account.proxiedVsfVotes.sum
  else account.proxiedVsfVotes.getD (maxProxyRecursionDepth - 1) 0

theorem countedVotes_eq
    {votes : Int}
    (counted : countedVotes account = .ok votes) :
    votes = exactVsfVotes account := by
  unfold countedVotes at counted
  split at counted
  case isTrue root =>
    rw [exactVsfVotes, if_pos root]
    exact sum_of_foldlM_checked counted
  case isFalse proxied =>
    cases counted
    rw [exactVsfVotes, if_neg proxied]

/-- A sum over all accounts by name. -/
theorem sumOf_accounts
    (db : Database)
    (quantity : AccountObject → Int) :
    sumOf quantity db.accounts.rows =
      ∑ name ∈ db.names, db.held quantity name := by
  have distinct : (db.accounts.entries.map Prod.fst).Nodup :=
    List.pairwise_map.2 (FiniteMap.distinct_keys db.accounts.rows)
  rw [names, List.sum_toFinset _ distinct, List.map_map, sumOf]
  refine congrArg List.sum (List.map_congr_left ?_)
  intro entry member
  have found : db.accounts.find? entry.1 = some entry.2 :=
    ExtTreeMap.mem_toList_iff_getElem?_eq_some.1 member
  exact (held_of_find found).symm

/-- An account's weight is what it owns and carries. -/
theorem ProxiesKept.sum_votes
    (kept : db.ProxiesKept)
    (found : db.accounts.find? name = some account) :
    (account.vestingShares :: account.proxiedVsfVotes).sum =
      ∑ steps ∈ Finset.range (maxProxyRecursionDepth + 1),
        db.sharesBelow steps name := by
  have whole := sum_take_eq (account.vestingShares :: account.proxiedVsfVotes)
    (maxProxyRecursionDepth + 1)
  rw [List.take_of_length_le (by simp [kept.sized name account found])] at whole
  rw [whole]
  refine Finset.sum_congr rfl fun steps below => ?_
  exact kept.votes_eq found (by have := Finset.mem_range.1 below; omega)

/-- Each share is counted once, at the root of its chain or four proxies up. -/
theorem ProxiesKept.sum_exactVsfVotes
    (kept : db.ProxiesKept) :
    sumOf exactVsfVotes db.accounts.rows =
      sumOf AccountObject.vestingShares db.accounts.rows := by
  rw [sumOf_accounts, sumOf_accounts, ← Forest.sum_settled kept.closed
    (db.held AccountObject.vestingShares) maxProxyRecursionDepth]
  refine Finset.sum_congr rfl fun name member => ?_
  rcases Option.isSome_iff_exists.1 (mem_names.1 member) with ⟨account, found⟩
  have proxy := proxyOf_of_find found
  rw [held_of_find found, Forest.settled]
  by_cases root : account.proxy = ""
  · rw [if_pos root] at proxy
    rw [if_pos proxy, exactVsfVotes, if_pos root, ← List.sum_cons,
      kept.sum_votes found]
    rfl
  · rw [if_neg root] at proxy
    rw [if_neg (by simp [proxy]), exactVsfVotes, if_neg root]
    exact kept.votes_eq found (Nat.le_refl _)

/-- The loop of `validate_invariants` finds the exact sum. -/
theorem totalVsfVotes_eq
    {total : Int}
    (counted : db.totalVsfVotes = .ok total) :
    total = sumOf exactVsfVotes db.accounts.rows := by
  have general : ∀ (entries : List (AccountName × AccountObject))
      (start : Int),
      entries.foldlM (fun total entry => do
        let votes ← countedVotes entry.2
        checked (total + votes)) start = .ok total →
          total = start +
            (entries.map fun entry => exactVsfVotes entry.2).sum := by
    intro entries
    induction entries with
    | nil =>
        intro start added
        cases added
        simp
    | cons entry rest induction =>
        intro start added
        simp only [List.foldlM_cons, bind_eq_ok_iff, checked_eq_ok_iff] at added
        rcases added with ⟨_, ⟨votes, own, -, rfl⟩, added⟩
        rw [induction _ added, countedVotes_eq own, List.map_cons,
          List.sum_cons, Int.add_assoc]
  have summed := general db.accounts.entries 0 counted
  rwa [Int.zero_add] at summed

end Database

/-! ## Runs -/

theorem kept_genesis :
    initGenesis.ProxiesKept := by
  have roots : initGenesis.proxyOf = fun _ => none := by
    funext name
    unfold Database.proxyOf
    cases found : initGenesis.accounts.find? name with
    | none => rfl
    | some account =>
        have alone := genesis_account (fun row => row.proxy = "")
          (by decide +kernel) found
        rw [Option.bind_some, alone]
        rfl
  constructor
  case closed =>
    intro name _ upper step
    rw [roots] at step
    cases step
  case acyclic =>
    intro steps name path
    rw [Forest.above_of_root (congrFun roots name)] at path
    cases path
  case sized =>
    intro name account found
    exact genesis_account
      (fun row => row.proxiedVsfVotes.length = maxProxyRecursionDepth)
      (by decide +kernel) found
  case carried =>
    intro distance bound name
    have light : initGenesis.proxied distance name = 0 := by
      unfold Database.proxied Database.held
      cases found : initGenesis.accounts.find? name with
      | none => rfl
      | some account =>
          have fresh := genesis_account
            (fun row => row.proxiedVsfVotes = [0, 0, 0, 0])
            (by decide +kernel) found
          rw [Option.map_some, fresh]
          rcases distance with _ | _ | _ | _ | _ <;> rfl
    rw [light, Database.sharesBelow, Forest.carried, Finset.sum_eq_zero]
    intro source _
    exact Forest.share_of_root (congrFun roots source) _ _ _
  case seated =>
    refine ⟨congrFun roots nullAccount, fun name proxy given => ?_⟩
    rw [roots] at given
    cases given

theorem kept_run
    {block : Option BlockHeader}
    (run : RunState ext (EventMeets ext Database.VotesReadably BeforeBurn)
      block db) :
    db.ProxiesKept := by
  refine RunState.invariant Database.ProxiesKept kept_genesis ?_ ?_ ?_ run
  · intro state header after begun kept
    exact kept.of_agrees
      (Database.touches_beginBlock state header after begun) rfl
  · intro state op after allowed valid done kept
    exact Database.kept_applyOperation allowed valid done kept
  · intro header state step after early done kept
    exact Database.kept_runStep early done kept

/--
Before the initial shares are burned and with proxies which can be read, no
chain of proxies is a cycle, every account carries at each distance the shares
of the accounts so far below it, and the votes which `validate_invariants` adds
up are all vesting shares.
-/
theorem proxied_votes_kept
    {ext : External}
    {block : Option BlockHeader}
    {db : Database}
    (run : RunState ext (EventMeets ext Database.VotesReadably BeforeBurn)
      block db) :
    Forest.Acyclic db.proxyOf ∧
      (∀ name account, db.accounts.find? name = some account →
        ∀ distance, distance < maxProxyRecursionDepth →
          account.proxiedVsfVotes[distance]? =
            some (db.sharesBelow (distance + 1) name)) ∧
        db.props.totalVestingShares =
            sumOf Database.exactVsfVotes db.accounts.rows ∧
          ∀ total, db.totalVsfVotes = .ok total →
            db.props.totalVestingShares = total := by
  have kept := kept_run run
  have totals : db.props.totalVestingShares =
      sumOf Database.exactVsfVotes db.accounts.rows := by
    rw [kept.sum_exactVsfVotes]
    refine (vesting_totals ⟨block, run.mono ?_⟩).1
    exact fun _ _ _ => trivial
  refine ⟨kept.acyclic, ?_, totals, ?_⟩
  · intro name account found distance bound
    have length := kept.sized name account found
    have carried := kept.carried distance bound name
    rw [Database.proxied, Database.held_of_find found,
      List.getD_eq_getElem?_getD] at carried
    rw [← carried, List.getElem?_eq_getElem (by omega)]
    rfl
  · intro total counted
    rw [totals, Database.totalVsfVotes_eq counted]

/-- The proxy of an account of genesis. -/
def sampleProxy : Operation :=
  .accountWitnessProxy { account := "devs", proxy := initMinerName }

/-- The votes which the first witness carries for the account `devs`. -/
theorem proxied_votes_kept_devs :
    ∃ after account,
      initGenesis.step plainExternal (.operation sampleProxy) = .ok after ∧
        after.accounts.find? initMinerName = some account ∧
          account.proxiedVsfVotes[0]? =
            some (after.sharesBelow 1 initMinerName) := by
  have ran : ((initGenesis.step plainExternal
      (.operation sampleProxy)).bind fun after =>
        after.getAccount initMinerName).isOk = true := by
    decide +kernel
  rcases exists_of_isOk ran with ⟨account, done⟩
  rcases (bind_eq_ok_iff _ _ _).1 done with ⟨after, stepped, got⟩
  have found := Database.find_of_getAccount got
  have run : RunState plainExternal
      (EventMeets plainExternal Database.VotesReadably BeforeBurn) none after :=
    .step (.operation sampleProxy) .genesis (.operation _ _)
      ⟨by unfold Database.NullSilent; decide,
        fun empty => absurd empty (by decide)⟩ stepped
  exact ⟨after, account, stepped, found,
    (proxied_votes_kept run).2.1 initMinerName account found 0 (by decide)⟩

/-- A proxy of size 0, which `account_witness_proxy_evaluator` stores. -/
def hiddenProxy : Operation :=
  .accountWitnessProxy { account := "devs", proxy := "\x00abc" }

/-- The votes of an account with such a proxy are not counted. -/
theorem proxied_votes_lost :
    ∃ after total,
      RunState plainExternal
          (EventMeets plainExternal Database.NullSilent BeforeBurn) none after ∧
        after.totalVsfVotes = .ok total ∧
          after.props.totalVestingShares ≠ total := by
  have ran : ((initGenesis.step plainExternal (.operation hiddenProxy)).bind
      fun after => do
        let total ← after.totalVsfVotes
        require (after.props.totalVestingShares ≠ total) "") = .ok () := by
    decide +kernel
  rcases (bind_eq_ok_iff _ _ _).1 ran with ⟨after, stepped, lost⟩
  rcases (bind_eq_ok_iff _ _ _).1 lost with ⟨total, counted, differ⟩
  rw [require_eq_ok_iff] at differ
  have silent : nullAccount ∉ Database.issuers hiddenProxy := by decide
  exact ⟨after, total, .step (.operation hiddenProxy) .genesis
    (.operation _ _) silent stepped, counted, differ⟩

end BMChain.State
