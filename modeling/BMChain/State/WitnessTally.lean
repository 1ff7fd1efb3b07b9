import Mathlib.Algebra.BigOperators.Ring.List
import BMChain.State.ProxyVotes

/-!
# The tally of the witnesses

A witness keeps the sum of the weights of the accounts which vote for it.  The
sum is changed where the weight of a voter changes, where a vote is given or
taken back, and where the votes of an account are cleared.  Each of these
changes is shown to be the right one.
-/

namespace BMChain.State

open BMChain.Foundation BMChain.Protocol Std

variable {id next : Nat} {fields : List Field} {delta : Int}

variable {deltas : List Int} {witness : AccountName}

/-- Numbers which belong to one name each, and are all given out already. -/
structure Numbered (ids : AccountName → Option Nat) (next : Nat) : Prop where
  below : ∀ name id, ids name = some id → id < next
  single : ∀ first second id,
    ids first = some id → ids second = some id → first = second

theorem Numbered.add
    {ids more : AccountName → Option Nat}
    {added : AccountName}
    (numbered : Numbered ids next)
    (named : ∀ name, more name = if added = name then some next else ids name) :
    Numbered more (next + 1) := by
  constructor
  case below =>
    intro name id given
    rw [named name] at given
    split at given
    · cases given
      exact Nat.lt_succ_self next
    · exact Nat.lt_succ_of_lt (numbered.below name id given)
  case single =>
    intro first second id given again
    rw [named first] at given
    rw [named second] at again
    split at given <;> split at again
    case isTrue.isTrue same other => rw [← same, ← other]
    case isTrue.isFalse =>
      cases given
      exact absurd (numbered.below second next again) (Nat.lt_irrefl next)
    case isFalse.isTrue =>
      cases again
      exact absurd (numbered.below first next given) (Nat.lt_irrefl next)
    case isFalse.isFalse => exact numbered.single first second id given again

namespace Database

variable {db before after : Database} {name : AccountName}

/-! ## Votes and weights -/

/-- The ids of the accounts by name. -/
def accountIdOf (db : Database) (name : AccountName) : Option Nat :=
  (db.accounts.find? name).map AccountObject.id

/-- The ids of the witnesses by name. -/
def witnessIdOf (db : Database) (name : AccountName) : Option Nat :=
  (db.witnesses.find? name).map WitnessObject.id

/-- The tally which a witness keeps. -/
def votesFor (db : Database) (name : AccountName) : Int :=
  ((db.witnesses.find? name).map WitnessObject.votes).getD 0

/-- The number of votes of an account for a witness, by their ids. -/
def voteCount (db : Database) (account witness : Nat) : Int :=
  sumOf
    (fun vote : WitnessVoteObject =>
      if vote.account = account ∧ vote.witness = witness then 1 else 0)
    db.witnessVotes.rows

/-- The number of votes of an account. -/
def votesCast (db : Database) (account : Nat) : Int :=
  sumOf
    (fun vote : WitnessVoteObject => if vote.account = account then 1 else 0)
    db.witnessVotes.rows

/-- An account has no votes. -/
def Voteless (db : Database) (account : Nat) : Prop :=
  db.witnessVotes.All fun vote => vote.account ≠ account

/-- The weight of an account's votes: what it owns and carries. -/
def weight (db : Database) (name : AccountName) : Int :=
  db.held AccountObject.vestingShares name +
    ∑ distance ∈ Finset.range maxProxyRecursionDepth, db.proxied distance name

/-- The votes of one account for a witness, with their weight. -/
def support (db : Database) (witness : Nat) (name : AccountName) : Int :=
  db.voteCount ((db.accountIdOf name).getD 0) witness * db.weight name

/-- The weights of the voters for a witness. -/
def tally (db : Database) (witness : Nat) : Int :=
  ∑ name ∈ db.names, db.support witness name

theorem accountIdOf_of_find
    {account : AccountObject}
    (found : db.accounts.find? name = some account) :
    db.accountIdOf name = some account.id := by
  rw [accountIdOf, found]
  rfl

theorem numbered_genesis :
    Numbered initGenesis.accountIdOf initGenesis.accounts.nextId := by
  have ids : ∀ first ∈ initGenesis.accounts.entries,
      ∀ second ∈ initGenesis.accounts.entries,
        first.2.id = second.2.id → first.1 = second.1 := by
    decide +kernel
  constructor
  case below =>
    intro name id given
    rcases Option.map_eq_some_iff.1 given with ⟨account, found, rfl⟩
    exact genesis_account
      (fun row => row.id < initGenesis.accounts.nextId)
      (by decide +kernel) found
  case single =>
    intro first second id given again
    rcases Option.map_eq_some_iff.1 given with ⟨account, found, rfl⟩
    rcases Option.map_eq_some_iff.1 again with ⟨other, there, same⟩
    exact ids (first, account)
      (ExtTreeMap.mem_toList_iff_getElem?_eq_some.2 found) (second, other)
      (ExtTreeMap.mem_toList_iff_getElem?_eq_some.2 there) same.symm

theorem Voteless.voteCount_eq
    {account : Nat}
    (none : db.Voteless account)
    (witness : Nat) :
    db.voteCount account witness = 0 := by
  refine List.sum_eq_zero ?_
  intro value member
  rcases List.mem_map.1 member with ⟨⟨id, vote⟩, listed, rfl⟩
  have other := none id vote
    (ExtTreeMap.mem_toList_iff_getElem?_eq_some.1 listed)
  exact if_neg fun both => other both.1

theorem Voteless.votesCast_eq
    {account : Nat}
    (none : db.Voteless account) :
    db.votesCast account = 0 := by
  refine List.sum_eq_zero ?_
  intro value member
  rcases List.mem_map.1 member with ⟨⟨id, vote⟩, listed, rfl⟩
  exact if_neg (none id vote
    (ExtTreeMap.mem_toList_iff_getElem?_eq_some.1 listed))

/-- No vote belongs to an account with a proxy. -/
def Rooted (db : Database) : Prop :=
  ∀ name id, db.accountIdOf name = some id → db.proxyOf name ≠ none →
    db.Voteless id

/-- The records of the votes. -/
structure VotersKept (db : Database) : Prop where
  accountIds : Numbered db.accountIdOf db.accounts.nextId
  witnessIds : Numbered db.witnessIdOf db.witnesses.nextId
  /-- The votes belong to accounts and witnesses which are there. -/
  placed : db.witnessVotes.All fun vote =>
    vote.account < db.accounts.nextId ∧ vote.witness < db.witnesses.nextId
  single : ∀ account witness, db.voteCount account witness ≤ 1
  rooted : db.Rooted
  counted : ∀ name id, db.accountIdOf name = some id →
    db.held (fun account => (account.witnessesVotedFor : Int)) name =
        db.votesCast id ∧
      db.votesCast id ≤ maxAccountWitnessVotes
  /-- The null account does not vote. -/
  null : ∀ id, db.accountIdOf nullAccount = some id → db.Voteless id

/-- The records of the votes, and the tallies which are kept of them. -/
structure TallyKept (db : Database) : Prop extends VotersKept db where
  tallied : ∀ name id, db.witnessIdOf name = some id →
    db.votesFor name = db.tally id

/-! ## What does not concern the tally -/

/-- The parts of the state which the records of the votes are read from. -/
def recordParts : List Field :=
  [.account .identity, .accountIds, .account .votedFor, .witness .identity,
    .witnessIds, .witnessVotes]

/-- The same with the proxies, which keep an account from voting. -/
def voterParts : List Field :=
  .account .proxy :: recordParts

/-- The parts of the state which the tally is read from. -/
def tallyParts : List Field :=
  [.account .shares, .account .proxied, .witness .votes] ++ voterParts

theorem accountIdOf_of_read_eq
    (same : Field.read (.account .identity) after =
      Field.read (.account .identity) before) :
    after.accountIdOf = before.accountIdOf := by
  funext name
  have row := congrArg (Option.map Prod.fst) (congrFun same name)
  simp only [Field.read, Option.map_map] at row
  exact row

theorem witnessIdOf_of_read_eq
    (same : Field.read (.witness .identity) after =
      Field.read (.witness .identity) before) :
    after.witnessIdOf = before.witnessIdOf := by
  funext name
  have row := congrArg (Option.map Prod.fst) (congrFun same name)
  simp only [Field.read, Option.map_map] at row
  exact row

theorem votesFor_of_read_eq
    (same : Field.read (.witness .votes) after =
      Field.read (.witness .votes) before) :
    after.votesFor = before.votesFor := by
  funext name
  exact congrArg (fun votes => Option.getD votes 0) (congrFun same name)

theorem weight_of_read_eq
    (shares : Field.read (.account .shares) after =
      Field.read (.account .shares) before)
    (votes : Field.read (.account .proxied) after =
      Field.read (.account .proxied) before) :
    after.weight = before.weight := by
  funext name
  have own := held_of_read_eq shares (fun count => count) name
  unfold weight
  simp only [proxied_of_read_eq votes]
  exact congrArg (fun count => count + _) own

/-- The tally depends on the votes and on the weights of their owners. -/
theorem tally_congr
    (votes : after.witnessVotes = before.witnessVotes)
    (ids : after.accountIdOf = before.accountIdOf)
    (members : after.names = before.names)
    (weights : after.weight = before.weight) :
    after.tally = before.tally := by
  funext witness
  simp only [tally, support, voteCount, votes, ids, members, weights]

/-- The records stay right when no account gets both votes and a proxy. -/
theorem VotersKept.of_rooted
    (kept : before.VotersKept)
    (agrees : Agrees fields before after)
    (separate : apart recordParts fields = true)
    (rooted : after.Rooted) :
    after.VotersKept := by
  have same : ∀ field ∈ recordParts, field.read after = field.read before :=
    fun field member => agrees.read_eq separate member
  have ids := accountIdOf_of_read_eq (same _ (by decide))
  have next := same .accountIds (by decide)
  have witnesses := witnessIdOf_of_read_eq (same _ (by decide))
  have nextWitness := same .witnessIds (by decide)
  have votes := same .witnessVotes (by decide)
  have counts : ∀ name,
      after.held (fun account => (account.witnessesVotedFor : Int)) name =
        before.held (fun account => (account.witnessesVotedFor : Int)) name :=
    held_of_read_eq (same (.account .votedFor) (by decide))
      (fun count : Nat => (count : Int))
  simp only [Field.read] at next nextWitness votes
  constructor
  case accountIds => rw [ids, next]; exact kept.accountIds
  case witnessIds => rw [witnesses, nextWitness]; exact kept.witnessIds
  case placed => rw [votes, next, nextWitness]; exact kept.placed
  case single =>
    unfold voteCount
    rw [votes]
    exact kept.single
  case rooted => exact rooted
  case counted =>
    intro name id given
    unfold votesCast
    rw [counts, votes]
    exact kept.counted name id (ids ▸ given)
  case null =>
    unfold Voteless
    rw [ids, votes]
    exact kept.null

/-- What touches no record of a vote keeps the records. -/
theorem VotersKept.of_agrees
    (kept : before.VotersKept)
    (agrees : Agrees fields before after)
    (separate : apart voterParts fields = true) :
    after.VotersKept := by
  have same : ∀ field ∈ voterParts, field.read after = field.read before :=
    fun field member => agrees.read_eq separate member
  have records : apart recordParts fields = true :=
    List.all_eq_true.2 fun field member => List.all_eq_true.1 separate field
      (List.mem_cons_of_mem _ member)
  have votes : after.witnessVotes = before.witnessVotes :=
    same .witnessVotes (by decide)
  refine kept.of_rooted agrees records ?_
  unfold Rooted Voteless
  rw [accountIdOf_of_read_eq (same _ (by decide)),
    proxyOf_of_read_eq (same _ (by decide)), votes]
  exact kept.rooted

/-- What touches no part of the tally keeps it. -/
theorem TallyKept.of_agrees
    (kept : before.TallyKept)
    (agrees : Agrees fields before after)
    (separate : apart tallyParts fields = true) :
    after.TallyKept := by
  have same : ∀ field ∈ tallyParts, field.read after = field.read before :=
    fun field member => agrees.read_eq separate member
  have records : apart voterParts fields = true :=
    List.all_eq_true.2 fun field member => List.all_eq_true.1 separate field
      (List.mem_append_right _ member)
  refine ⟨kept.toVotersKept.of_agrees agrees records, ?_⟩
  have tallies := tally_congr (same .witnessVotes (by decide))
    (accountIdOf_of_read_eq (same _ (by decide)))
    (names_of_read_eq (same (.account .proxy) (by decide)))
    (weight_of_read_eq (same _ (by decide)) (same _ (by decide)))
  rw [witnessIdOf_of_read_eq (same _ (by decide)),
    votesFor_of_read_eq (same _ (by decide)), tallies]
  exact kept.tallied

/-! ## Changes of the tallies -/

/-- Every witness gains an amount which depends on its id. -/
structure Gains (db after : Database) (gain : Nat → Int) : Prop where
  touched : Agrees [.witness .votes, .witness .race] db after
  gained : ∀ name id, db.witnessIdOf name = some id →
    after.votesFor name = db.votesFor name + gain id

theorem gains_adjustWitnessVote
    (numbered : Numbered db.witnessIdOf next)
    (named : db.witnessIdOf name = some id)
    (done : db.adjustWitnessVote name delta = .ok after) :
    Gains db after fun other => if id = other then delta else 0 := by
  refine ⟨touches_adjustWitnessVote db name delta after done, ?_⟩
  simp only [adjustWitnessVote, modifyWitness, modifyNamed, bind_eq_ok_iff,
    orFault_eq_ok_iff, pure_eq_ok_iff, checked_eq_ok_iff] at done
  rcases done with ⟨_, ⟨witness, found, changed, change, rfl⟩, rfl⟩
  rcases change with ⟨_, ⟨-, rfl⟩, _, -, _, -, rfl⟩
  intro other place there
  have row : ∀ changed, (db.witnesses.set name changed).find? other =
      if name = other then some changed else db.witnesses.find? other := by
    intro changed
    rw [Register.find?, Register.set_rows found, getElem?_place]
    rfl
  rw [votesFor, row, votesFor]
  by_cases same : name = other
  · subst same
    rw [named] at there
    cases there
    rw [if_pos rfl, if_pos rfl, found]
    rfl
  · rw [if_neg same, if_neg, Int.add_zero]
    rintro rfl
    exact same (numbered.single name other id named there)

/-- The votes of a list all give their witnesses the same amount. -/
theorem gains_foldlM
    {votes : List (Nat × WitnessVoteObject)}
    (numbered : Numbered db.witnessIdOf next)
    (done : votes.foldlM
      (fun db vote => do
        let (name, _) ← db.getWitnessById vote.2.witness
        db.adjustWitnessVote name delta) db = .ok after) :
    Gains db after fun id =>
      (votes.map fun vote =>
        if vote.2.witness = id then delta else 0).sum := by
  induction votes generalizing db with
  | nil =>
      cases done
      exact ⟨refl_of _ _, fun _ _ _ => (Int.add_zero _).symm⟩
  | cons vote rest induction =>
      rw [List.foldlM_cons] at done
      simp only [bind_eq_ok_iff] at done
      rcases done with ⟨middle, ⟨⟨name, witness⟩, got, voted⟩, done⟩
      have found := orFault_eq_ok_iff.1 got
      have passed := Register.passed_of_findBy found
      have matched : witness.id = vote.2.witness := of_decide_eq_true passed
      have named : db.witnessIdOf name = some vote.2.witness := by
        rw [witnessIdOf, Register.find?_of_findBy found, Option.map_some,
          matched]
      have first := gains_adjustWitnessVote numbered named voted
      have ids : middle.witnessIdOf = db.witnessIdOf :=
        witnessIdOf_of_read_eq (first.touched (.witness .identity) (by decide))
      have others := induction (ids ▸ numbered) done
      refine ⟨trans_of _ first.touched others.touched, ?_⟩
      intro other id there
      rw [others.gained other id (ids ▸ there), first.gained other id there,
        List.map_cons, List.sum_cons, Int.add_assoc]

theorem sum_filter_map
    {Item : Type}
    (items : List Item)
    (test : Item → Bool)
    (measure : Item → Int) :
    ((items.filter test).map measure).sum =
      (items.map fun item => if test item then measure item else 0).sum := by
  induction items with
  | nil => rfl
  | cons item rest induction =>
      by_cases passed : test item
      · rw [List.filter_cons_of_pos passed, List.map_cons, List.sum_cons,
          induction, List.map_cons, List.sum_cons, if_pos passed]
      · rw [List.filter_cons_of_neg passed, induction, List.map_cons,
          List.sum_cons, if_neg passed, Int.zero_add]

/-- The votes of an account give their witnesses the same amount each. -/
theorem gains_adjustWitnessVotes
    {account next : Nat}
    (numbered : Numbered db.witnessIdOf next)
    (done : db.adjustWitnessVotes account delta = .ok after) :
    Gains db after fun witness => db.voteCount account witness * delta := by
  have gains := gains_foldlM numbered done
  refine ⟨gains.touched, ?_⟩
  intro name id there
  rw [gains.gained name id there]
  congr 1
  have sorted := (List.perm_insertionSort
    (fun first second : Nat × WitnessVoteObject =>
      first.2.witness ≤ second.2.witness)
    (db.witnessVotes.entries.filter fun entry => entry.2.account = account))
  rw [witnessVotesOf, (sorted.map _).sum_eq, sum_filter_map, voteCount, sumOf,
    ← List.sum_map_mul_right]
  refine congrArg List.sum (List.map_congr_left ?_)
  intro entry _
  by_cases own : entry.2.account = account
  · by_cases given : entry.2.witness = id
    · simp [own, given]
    · simp [own, given]
  · simp [own]

/-! ## Changes of weights -/

/-- What a proxy carries more adds to its weight. -/
theorem Loads.weight_eq
    {proxy : AccountName}
    {delta : Nat → Int}
    (loads : Loads db proxy delta after)
    (sized : db.VotesSized)
    (name : AccountName) :
    after.weight name =
      db.weight name +
        if proxy = name then
          ∑ distance ∈ Finset.range maxProxyRecursionDepth, delta distance
        else 0 := by
  have own := held_shares_of_agrees loads.touched (by decide) name
  have carried : ∀ distance ∈ Finset.range maxProxyRecursionDepth,
      after.proxied distance name =
        db.proxied distance name + if proxy = name then delta distance else 0 :=
    fun distance below =>
      loads.grown sized distance (Finset.mem_range.1 below) name
  rw [weight, weight, own, Finset.sum_congr rfl carried,
    Finset.sum_add_distrib, Int.add_assoc]
  congr 2
  split
  · rfl
  · exact Finset.sum_const_zero

/-- The deltas which a proxy at some depth carries, added up. -/
theorem sum_loaded
    (deltas : Nat → Int)
    (depth count : Nat) :
    ∑ distance ∈ Finset.range count,
        (if depth ≤ distance then deltas (distance - depth) else 0) =
      ∑ place ∈ Finset.range (count - depth), deltas place := by
  induction count with
  | zero => simp
  | succ count induction =>
      rw [Finset.sum_range_succ, induction]
      by_cases reached : depth ≤ count
      · rw [if_pos reached, Nat.succ_sub reached, Finset.sum_range_succ]
      · rw [if_neg reached, Int.add_zero, show count - depth = 0 by omega,
          show count + 1 - depth = 0 by omega]

/-- More weight of one account counts for the witnesses it votes for. -/
theorem tally_of_weight
    (votes : after.witnessVotes = before.witnessVotes)
    (ids : after.accountIdOf = before.accountIdOf)
    (members : after.names = before.names)
    (listed : name ∈ before.names)
    (weights : ∀ other,
      after.weight other =
        before.weight other + if name = other then delta else 0)
    (witness : Nat) :
    after.tally witness =
      before.tally witness +
        before.voteCount ((before.accountIdOf name).getD 0) witness * delta := by
  have single : ∀ other ∈ before.names,
      after.support witness other =
        before.support witness other +
          if name = other then
            before.voteCount ((before.accountIdOf name).getD 0) witness * delta
          else 0 := by
    intro other _
    simp only [support, voteCount, votes, ids, weights other]
    split
    case isTrue same => rw [← same, Int.mul_add]
    case isFalse => rw [Int.add_zero, Int.add_zero]
  rw [tally, tally, members, Finset.sum_congr rfl single,
    Finset.sum_add_distrib, Finset.sum_ite_eq, if_pos listed]

theorem Rooted.voteCount_eq
    (rooted : db.Rooted)
    (listed : name ∈ db.names)
    (proxied : db.proxyOf name ≠ none)
    (witness : Nat) :
    db.voteCount ((db.accountIdOf name).getD 0) witness = 0 := by
  rcases Option.isSome_iff_exists.1 (mem_names.1 listed) with ⟨account, found⟩
  have named := accountIdOf_of_find found
  rw [named]
  exact (rooted name account.id named proxied).voteCount_eq witness

/-- What a root owes its witnesses when its own votes change. -/
def rootGain (db : Database) (deltas : Nat → Int) (depth : Nat)
    (name : AccountName) (witness : Nat) : Int :=
  if db.proxyOf name = none then
    db.voteCount ((db.accountIdOf name).getD 0) witness *
      ∑ place ∈ Finset.range (maxProxyRecursionDepth + 1 - depth), deltas place
  else 0

/-- The witnesses gain what the weights of their voters gain on the way up. -/
theorem Climbs.votesFor_eq
    {deltas : Nat → Int}
    {depth next : Nat}
    (climbs : Climbs deltas depth db name after)
    (sized : db.VotesSized)
    (rooted : db.Rooted)
    (closed : Forest.Closed db.proxyOf db.names)
    (numbered : Numbered db.witnessIdOf next)
    (there : db.witnessIdOf witness = some id) :
    after.votesFor witness =
      db.votesFor witness + (after.tally id - db.tally id) +
        db.rootGain deltas depth name id := by
  induction climbs with
  | @root depth db after name account found root tallied =>
      have proxy := proxyOf_of_find found
      rw [if_pos root] at proxy
      have gains := gains_adjustWitnessVotes numbered tallied
      have touched := gains.touched
      have same : after.tally = db.tally :=
        tally_congr (touched .witnessVotes (by decide))
          (accountIdOf_of_read_eq (touched (.account .identity) (by decide)))
          (names_of_read_eq (touched (.account .identity) (by decide)))
          (weight_of_read_eq (touched (.account .shares) (by decide))
            (touched (.account .proxied) (by decide)))
      rw [gains.gained witness id there, same, rootGain, if_pos proxy,
        accountIdOf_of_find found, Option.getD_some]
      omega
  | stopped found proxied =>
      have proxy := proxyOf_of_find found
      rw [if_neg proxied] at proxy
      rw [rootGain, if_neg (by simp [proxy])]
      omega
  | @passed depth db middle after name account found proxied loads _ induction =>
      have proxy := proxyOf_of_find found
      rw [if_neg proxied] at proxy
      have touched := loads.touched
      have votes : middle.witnessVotes = db.witnessVotes :=
        touched .witnessVotes (by decide)
      have ids := accountIdOf_of_read_eq
        (touched (.account .identity) (by decide))
      have members := names_of_read_eq (touched (.account .proxy) (by decide))
      have parents := proxyOf_of_read_eq (touched (.account .proxy) (by decide))
      have witnesses := witnessIdOf_of_read_eq
        (touched (.witness .identity) (by decide))
      have listed := closed name (mem_names_of_find found) account.proxy proxy
      have walked := induction (loads.sized sized)
        (by unfold Rooted Voteless; rw [ids, parents, votes]; exact rooted)
        (by rw [parents, members]; exact closed)
        (by rw [witnesses]; exact numbered) (by rw [witnesses]; exact there)
      rw [votesFor_of_read_eq (touched (.witness .votes) (by decide))] at walked
      have loaded := tally_of_weight votes ids members listed
        (loads.weight_eq sized) id
      rw [sum_loaded] at loaded
      have gain : middle.rootGain deltas (depth + 1) account.proxy id =
          middle.tally id - db.tally id := by
        rw [rootGain, loaded]
        split
        case isTrue =>
          simp only [voteCount, votes, ids, Nat.add_sub_add_right]
          omega
        case isFalse above =>
          rw [rooted.voteCount_eq listed (parents ▸ above)]
          omega
      rw [walked, gain, rootGain, if_neg (by simp [proxy])]
      omega

/-! ## New shares -/

/-- New shares of an account are counted wherever its votes go. -/
theorem TallyKept.of_vesting
    {db ready after : Database}
    (kept : db.TallyKept)
    (proxies : db.ProxiesKept)
    (listed : name ∈ db.names)
    (agrees : Agrees fields db ready)
    (separate : apart (.account .proxied :: .witness .votes :: voterParts)
      fields = true)
    (shares : ∀ other,
      after.held AccountObject.vestingShares other =
        db.held AccountObject.vestingShares other +
          if name = other then delta else 0)
    (climbs : Climbs (ownDelta delta) 0 ready name after) :
    after.TallyKept := by
  have same : ∀ field ∈ .account .proxied :: .witness .votes :: voterParts,
      field.read ready = field.read db :=
    fun field member => agrees.read_eq separate member
  have records : apart voterParts fields = true :=
    List.all_eq_true.2 fun field member => List.all_eq_true.1 separate field
      (List.mem_cons_of_mem _ (List.mem_cons_of_mem _ member))
  have voters := kept.toVotersKept.of_agrees agrees records
  have votes : ready.witnessVotes = db.witnessVotes :=
    same .witnessVotes (by decide)
  have ids := accountIdOf_of_read_eq (same _ (by decide))
  have members := names_of_read_eq (same (.account .proxy) (by decide))
  have parents := proxyOf_of_read_eq (same _ (by decide))
  have witnesses := witnessIdOf_of_read_eq (same _ (by decide))
  have carried := same (.account .proxied) (by decide)
  have weights : ∀ other,
      ready.weight other =
        db.weight other + if name = other then delta else 0 := by
    intro other
    have own := held_shares_of_agrees climbs.agrees (by decide) other
    rw [shares] at own
    unfold weight
    simp only [proxied_of_read_eq carried]
    omega
  refine ⟨voters.of_agrees climbs.agrees (by rfl), ?_⟩
  intro witness id there
  rw [witnessIdOf_of_read_eq (climbs.agrees (.witness .identity) (by decide))]
    at there
  have walked := climbs.votesFor_eq (sized_of_read_eq carried proxies.sized)
    voters.rooted (by rw [parents, members]; exact proxies.closed)
    voters.witnessIds there
  have raised := tally_of_weight votes ids members listed weights id
  have gain : ready.rootGain (ownDelta delta) 0 name id =
      db.voteCount ((db.accountIdOf name).getD 0) id * delta := by
    unfold rootGain
    split
    case isTrue =>
      rw [show maxProxyRecursionDepth + 1 - 0 = maxProxyRecursionDepth + 1
        from rfl, sum_ownDelta, ids]
      simp only [voteCount, votes]
    case isFalse proxied =>
      rw [kept.rooted.voteCount_eq listed (parents ▸ proxied), Int.zero_mul]
  rw [walked, votesFor_of_read_eq (same _ (by decide)),
    kept.tallied witness id (witnesses ▸ there), gain]
  omega

theorem tally_createVesting
    {amount shares : Int}
    (done : db.createVesting name amount false = .ok (after, shares))
    (proxies : db.ProxiesKept)
    (kept : db.TallyKept) :
    after.TallyKept := by
  rcases climbs_createVesting done with ⟨ready, touched, listed, climbs⟩
  exact kept.of_vesting proxies listed touched rfl (held_createVesting done)
    climbs

theorem tally_claimRewardBalance
    {op : ClaimRewardBalanceOperation}
    (done : db.claimRewardBalanceEvaluator op = .ok after)
    (proxies : db.ProxiesKept)
    (kept : db.TallyKept) :
    after.TallyKept := by
  rcases climbs_claimRewardBalance done with ⟨ready, touched, listed, climbs⟩
  exact kept.of_vesting proxies listed touched rfl
    (held_claimRewardBalance done) climbs

/-! ## Withdrawn and cleared votes -/

/-- The weight of an account is what it withdraws. -/
theorem sum_withdrawnVotes
    {account : AccountObject}
    (found : db.accounts.find? name = some account)
    (taken : withdrawnVotes account = .ok deltas) :
    ∑ place ∈ Finset.range (maxProxyRecursionDepth + 1), deltas.getD place 0 =
      -db.weight name := by
  have places : ∀ place ∈ Finset.range (maxProxyRecursionDepth + 1),
      deltas.getD place 0 =
        -(account.vestingShares :: account.proxiedVsfVotes).getD place 0 :=
    fun place _ => getD_mapM_neg taken place
  rw [Finset.sum_congr rfl places, Finset.sum_neg_distrib,
    Finset.sum_range_succ', weight, held_of_find found, Int.add_comm]
  congr 2
  refine Finset.sum_congr rfl fun distance _ => ?_
  rw [proxied, held_of_find found]
  rfl

/-- Withdrawn votes leave each witness the tally without the account. -/
theorem TallyKept.withdrawn
    {account : AccountObject}
    (kept : db.TallyKept)
    (proxies : db.ProxiesKept)
    (found : db.accounts.find? name = some account)
    (taken : withdrawnVotes account = .ok deltas)
    (climbs : Climbs (fun place => deltas.getD place 0) 0 db name after)
    (there : db.witnessIdOf witness = some id) :
    after.votesFor witness = after.tally id - after.support id name := by
  have walked := climbs.votesFor_eq proxies.sized kept.rooted proxies.closed
    kept.witnessIds there
  have touched := climbs.agrees
  have ids := accountIdOf_of_read_eq
    (touched (.account .identity) (by decide))
  have votes : after.witnessVotes = db.witnessVotes :=
    touched .witnessVotes (by decide)
  have owed : db.rootGain (fun place => deltas.getD place 0) 0 name id =
      -after.support id name := by
    unfold rootGain support voteCount
    rw [ids, votes]
    split
    case isTrue root =>
      have unmoved : after.weight name = db.weight name := by
        unfold weight
        rw [held_shares_of_agrees touched (by decide)]
        congr 1
        refine Finset.sum_congr rfl fun distance below => ?_
        rw [climbs.proxied_eq proxies.sized (Finset.mem_range.1 below),
          arriving_of_root root, Int.add_zero]
      rw [Nat.sub_zero, sum_withdrawnVotes found taken, unmoved, Int.mul_neg]
    case isFalse proxied =>
      have none := kept.rooted.voteCount_eq (mem_names_of_find found) proxied id
      unfold voteCount at none
      rw [none, Int.zero_mul]
      rfl
  rw [walked, kept.tallied witness id there, owed]
  omega

/-- The votes which an account casts are the ones found for it. -/
theorem mem_witnessVotesOf
    {account id : Nat} :
    id ∈ (db.witnessVotesOf account).map Prod.fst ↔
      ∃ vote, db.witnessVotes.find? id = some vote ∧ vote.account = account := by
  have sorted := List.perm_insertionSort
    (fun first second : Nat × WitnessVoteObject =>
      first.2.witness ≤ second.2.witness)
    (db.witnessVotes.entries.filter fun entry => entry.2.account = account)
  rw [witnessVotesOf, (sorted.map Prod.fst).mem_iff, List.mem_map]
  constructor
  · rintro ⟨⟨_, vote⟩, member, rfl⟩
    rcases List.mem_filter.1 member with ⟨listed, own⟩
    exact ⟨vote, ExtTreeMap.mem_toList_iff_getElem?_eq_some.1 listed,
      of_decide_eq_true own⟩
  · rintro ⟨vote, found, own⟩
    exact ⟨(id, vote), List.mem_filter.2
      ⟨ExtTreeMap.mem_toList_iff_getElem?_eq_some.2 found,
        decide_eq_true own⟩, rfl⟩

/-- The records after the votes of an account are cleared. -/
structure Cleared (db : Database) (name : AccountName) (account : Nat)
    (after : Database) : Prop where
  touched : Agrees [.witnessVotes, .account .votedFor] db after
  votes : ∀ id, after.witnessVotes.find? id =
    (db.witnessVotes.find? id).filter fun vote => vote.account ≠ account
  others : ∀ measure : WitnessVoteObject → Int,
    (∀ vote, vote.account = account → measure vote = 0) →
      sumOf measure after.witnessVotes.rows =
        sumOf measure db.witnessVotes.rows
  count : ∀ other,
    after.held (fun account => (account.witnessesVotedFor : Int)) other =
      if name = other then 0
      else db.held (fun account => (account.witnessesVotedFor : Int)) other

theorem cleared_clearWitnessVotes
    {account : AccountObject}
    (found : db.accounts.find? name = some account)
    (done : db.clearWitnessVotes name = .ok after) :
    Cleared db name account.id after := by
  have touched := touches_clearWitnessVotes db name after done
  simp only [clearWitnessVotes, bind_eq_ok_iff] at done
  rcases done with ⟨owner, got, done⟩
  have there := find_of_getAccount got
  rw [found] at there
  cases there
  rcases find_modifyAccount done with ⟨_, changed, _, made, rows⟩
  have kept : after.witnessVotes = (db.witnessVotesOf account.id).foldl
      (fun votes vote => votes.remove vote.1) db.witnessVotes := by
    rcases accounts_of_modifyAccount done with ⟨_, rfl⟩
    rfl
  cases made
  constructor
  case touched => exact touched
  case votes =>
    intro id
    rw [kept, Table.find?_foldl_remove]
    cases listed : db.witnessVotes.find? id with
    | none => simp
    | some vote =>
        by_cases own : vote.account = account.id
        · rw [if_pos (mem_witnessVotesOf.2 ⟨vote, listed, own⟩)]
          simp [Option.filter, own]
        · rw [if_neg]
          · simp [Option.filter, own]
          · intro member
            rcases mem_witnessVotesOf.1 member with ⟨other, there, cast⟩
            rw [listed] at there
            cases there
            exact own cast
  case others =>
    intro measure light
    rw [kept]
    refine Table.sumOf_foldl_remove measure _ ?_
    intro id vote member there
    rcases mem_witnessVotesOf.1 member with ⟨other, found, cast⟩
    rw [found] at there
    cases there
    exact light vote cast
  case count =>
    intro other
    unfold held
    rw [rows other]
    split
    · rfl
    · rfl

section Clearing

variable {account : Nat}

variable (cleared : Cleared db name account after)

include cleared

theorem Cleared.find
    {vote : WitnessVoteObject}
    (found : after.witnessVotes.find? id = some vote) :
    db.witnessVotes.find? id = some vote ∧ vote.account ≠ account := by
  rw [cleared.votes, Option.filter_eq_some_iff] at found
  exact ⟨found.1, of_decide_eq_true found.2⟩

theorem Cleared.voteless :
    after.Voteless account :=
  fun _ _ found => (cleared.find found).2

theorem Cleared.voteless_of
    {other : Nat}
    (none : db.Voteless other) :
    after.Voteless other :=
  fun id vote found => none id vote (cleared.find found).1

theorem Cleared.voteCount_eq
    (other witness : Nat) :
    after.voteCount other witness =
      if other = account then 0 else db.voteCount other witness := by
  split
  case isTrue same =>
    rw [same]
    exact cleared.voteless.voteCount_eq witness
  case isFalse different =>
    refine cleared.others _ fun vote own => if_neg ?_
    rintro ⟨cast, -⟩
    exact different (cast.symm.trans own)

theorem Cleared.votesCast_eq
    (other : Nat) :
    after.votesCast other = if other = account then 0 else db.votesCast other := by
  split
  case isTrue same =>
    rw [same]
    exact cleared.voteless.votesCast_eq
  case isFalse different =>
    refine cleared.others _ fun vote own => if_neg ?_
    exact fun cast => different (cast.symm.trans own)

/-- Cleared votes leave the records right. -/
theorem Cleared.voters
    (named : db.accountIdOf name = some account)
    (kept : db.VotersKept) :
    after.VotersKept := by
  have touched := cleared.touched
  have ids := accountIdOf_of_read_eq (touched (.account .identity) (by decide))
  have next : after.accounts.nextId = db.accounts.nextId :=
    touched .accountIds (by decide)
  have witnesses := witnessIdOf_of_read_eq
    (touched (.witness .identity) (by decide))
  have nextWitness : after.witnesses.nextId = db.witnesses.nextId :=
    touched .witnessIds (by decide)
  have proxies := proxyOf_of_read_eq (touched (.account .proxy) (by decide))
  constructor
  case accountIds => rw [ids, next]; exact kept.accountIds
  case witnessIds => rw [witnesses, nextWitness]; exact kept.witnessIds
  case placed =>
    rw [next, nextWitness]
    exact fun id vote found => kept.placed id vote (cleared.find found).1
  case single =>
    intro other witness
    rw [cleared.voteCount_eq]
    split
    · decide
    · exact kept.single other witness
  case rooted =>
    intro other id given proxied
    rw [ids] at given
    rw [proxies] at proxied
    exact cleared.voteless_of (kept.rooted other id given proxied)
  case counted =>
    intro other id given
    rw [ids] at given
    rw [cleared.count, cleared.votesCast_eq]
    by_cases same : name = other
    · subst same
      rw [named] at given
      cases given
      rw [if_pos rfl, if_pos rfl]
      exact ⟨rfl, by decide⟩
    · have different : id ≠ account := by
        rintro rfl
        exact same (kept.accountIds.single name other id named given)
      rw [if_neg same, if_neg different]
      exact kept.counted other id given
  case null =>
    intro id given
    rw [ids] at given
    exact cleared.voteless_of (kept.null id given)

/-- Cleared votes take the account out of the tally. -/
theorem Cleared.tally_eq
    (kept : db.VotersKept)
    (named : db.accountIdOf name = some account)
    (witness : Nat) :
    after.tally witness = db.tally witness - db.support witness name := by
  have touched := cleared.touched
  have ids := accountIdOf_of_read_eq (touched (.account .identity) (by decide))
  have members := names_of_read_eq (touched (.account .identity) (by decide))
  have weights := weight_of_read_eq (touched (.account .shares) (by decide))
    (touched (.account .proxied) (by decide))
  have listed : name ∈ db.names := by
    rcases Option.map_eq_some_iff.1 named with ⟨row, found, -⟩
    exact mem_names_of_find found
  have single : ∀ other ∈ db.names,
      after.support witness other =
        db.support witness other +
          if name = other then -db.support witness name else 0 := by
    intro other member
    rcases Option.isSome_iff_exists.1 (mem_names.1 member) with ⟨row, found⟩
    have given := accountIdOf_of_find found
    simp only [support, ids, weights, given, Option.getD_some,
      cleared.voteCount_eq]
    by_cases same : name = other
    · subst same
      rw [named] at given
      cases given
      simp [named]
    · have different : row.id ≠ account := by
        rintro equal
        rw [equal] at given
        exact same (kept.accountIds.single name other account named given)
      rw [if_neg different, if_neg same, Int.add_zero]
  rw [tally, tally, members, Finset.sum_congr rfl single,
    Finset.sum_add_distrib, Finset.sum_ite_eq, if_pos listed]
  rfl

end Clearing

end Database

end BMChain.State
