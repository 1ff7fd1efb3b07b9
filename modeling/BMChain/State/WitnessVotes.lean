import BMChain.State.WitnessTally

/-!
# Votes for witnesses

Votes are given and taken back, proxies set and cleared, and voting rights
declined.  Every operation and every step of a block keeps the records of the
votes and the tallies of the witnesses.
-/

namespace BMChain.State

open BMChain.Foundation BMChain.Protocol Std

variable {ext : External}

variable {fields : List Field} {block : Option BlockHeader}

namespace Database

variable {db after : Database} {name : AccountName}

/-! ## Changes of proxies -/

/-- The proxy of an account without votes does not matter to the records. -/
theorem VotersKept.of_proxy
    {before after : Database}
    {account : Nat}
    {proxy : Option AccountName}
    (kept : before.VotersKept)
    (agrees : Agrees fields before after)
    (separate : apart recordParts fields = true)
    (named : before.accountIdOf name = some account)
    (updated : after.proxyOf = Function.update before.proxyOf name proxy)
    (free : proxy = none ∨ before.Voteless account) :
    after.VotersKept := by
  have ids := accountIdOf_of_read_eq (agrees.read_eq separate
    (by decide : .account .identity ∈ recordParts))
  have votes : after.witnessVotes = before.witnessVotes :=
    agrees.read_eq separate (by decide : .witnessVotes ∈ recordParts)
  refine kept.of_rooted agrees separate ?_
  unfold Rooted Voteless
  rw [ids, votes]
  intro other id given proxied
  by_cases same : other = name
  · subst same
    rw [named] at given
    cases given
    rw [updated, Function.update_self] at proxied
    exact free.resolve_left proxied
  · rw [updated, Function.update_of_ne same] at proxied
    exact kept.rooted other id given proxied

/-- Votes which pass on from an account with a proxy are counted. -/
theorem TallyKept.of_climbs
    {deltas : Nat → Int}
    (kept : db.TallyKept)
    (sized : db.VotesSized)
    (closed : Forest.Closed db.proxyOf db.names)
    (proxied : db.proxyOf name ≠ none)
    (climbs : Climbs deltas 0 db name after) :
    after.TallyKept := by
  refine ⟨kept.toVotersKept.of_agrees climbs.agrees (by rfl), ?_⟩
  intro witness id there
  rw [witnessIdOf_of_read_eq (climbs.agrees (.witness .identity) (by decide))]
    at there
  rw [climbs.votesFor_eq sized kept.rooted closed kept.witnessIds there,
    kept.tallied witness id there, rootGain, if_neg proxied]
  omega

/-- What touches neither votes nor weights keeps the tally of the records. -/
theorem TallyKept.of_voters
    {before after : Database}
    (voters : after.VotersKept)
    (agrees : Agrees fields before after)
    (separate : apart [.account .identity, .account .shares, .account .proxied,
      .witness .identity, .witness .votes, .witnessVotes] fields = true)
    (tallied : ∀ name id, before.witnessIdOf name = some id →
      before.votesFor name = before.tally id) :
    after.TallyKept := by
  have same := fun field => @Agrees.read_eq _ _ _ _ agrees separate field
  refine ⟨voters, ?_⟩
  have tallies := tally_congr (same .witnessVotes (by decide))
    (accountIdOf_of_read_eq (same (.account .identity) (by decide)))
    (names_of_read_eq (same (.account .identity) (by decide)))
    (weight_of_read_eq (same (.account .shares) (by decide))
      (same (.account .proxied) (by decide)))
  rw [witnessIdOf_of_read_eq (same (.witness .identity) (by decide)),
    votesFor_of_read_eq (same (.witness .votes) (by decide)), tallies]
  exact tallied

/-- The votes of an account are withdrawn and cleared. -/
theorem TallyKept.cleared
    {db taken cleared : Database}
    {account : AccountObject}
    {deltas : List Int}
    (kept : db.TallyKept)
    (proxies : db.ProxiesKept)
    (found : db.accounts.find? name = some account)
    (take : withdrawnVotes account = .ok deltas)
    (climbs : Climbs (fun place => deltas.getD place 0) 0 db name taken)
    (clear : taken.clearWitnessVotes name = .ok cleared) :
    cleared.TallyKept ∧ cleared.accountIdOf name = some account.id ∧
      cleared.Voteless account.id := by
  have voters := kept.toVotersKept.of_agrees climbs.agrees (by rfl)
  have named : taken.accountIdOf name = some account.id := by
    rw [accountIdOf_of_read_eq (climbs.agrees (.account .identity) (by decide))]
    exact accountIdOf_of_find found
  rcases Option.map_eq_some_iff.1 named with ⟨owner, there, same⟩
  have clears := cleared_clearWitnessVotes there clear
  rw [same] at clears
  have touched := clears.touched
  have ids := accountIdOf_of_read_eq (touched (.account .identity) (by decide))
  refine ⟨⟨clears.voters named voters, ?_⟩, ids ▸ named, clears.voteless⟩
  intro witness id given
  rw [witnessIdOf_of_read_eq (touched (.witness .identity) (by decide)),
    witnessIdOf_of_read_eq (climbs.agrees (.witness .identity) (by decide))]
    at given
  rw [votesFor_of_read_eq (touched (.witness .votes) (by decide)),
    kept.withdrawn proxies found take climbs given,
    clears.tally_eq voters named]

theorem tally_accountWitnessProxy
    {op : AccountWitnessProxyOperation}
    (readable : nameSize op.proxy = 0 → op.proxy = "")
    (done : db.accountWitnessProxyEvaluator op = .ok after)
    (proxies : db.ProxiesKept)
    (kept : db.TallyKept) :
    after.TallyKept := by
  rcases accountWitnessProxy_cases done with
    ⟨account, deltas, taken, found, change, take, climbs, rest⟩
  rcases rest with ⟨empty, set⟩ | ⟨proxied, newProxy, cleared, changed, rest⟩
  · rcases updated_setProxy set with ⟨touched, updated⟩
    rw [if_pos (readable empty)] at updated
    have voters := kept.toVotersKept.of_agrees climbs.agrees (by rfl)
    have named : taken.accountIdOf op.account = some account.id := by
      rw [accountIdOf_of_read_eq
        (climbs.agrees (.account .identity) (by decide))]
      exact accountIdOf_of_find found
    refine TallyKept.of_voters
      (voters.of_proxy touched rfl named updated (.inl rfl)) touched rfl ?_
    intro witness id given
    rw [witnessIdOf_of_read_eq (climbs.agrees (.witness .identity) (by decide))]
      at given
    have below : taken.proxyOf op.account ≠ none := by
      rw [climbs.proxyOf_eq, proxyOf_of_find found, if_neg]
      · simp
      · exact fun alone => change (alone.trans (readable empty).symm)
    have listed : op.account ∈ taken.names := by
      rw [names_of_climbs climbs]
      exact mem_names_of_find found
    rw [kept.withdrawn proxies found take climbs given, support,
      voters.rooted.voteCount_eq listed below, Int.zero_mul, Int.sub_zero]
  · rcases rest with ⟨restored, new, -, clear, set, -, gave⟩
    rcases updated_setProxy set with ⟨touched, updated⟩
    rw [if_neg fun empty => proxied (by rw [empty]; rfl)] at updated
    rcases kept.cleared proxies found take climbs clear with
      ⟨free, named, voteless⟩
    have clears := touches_clearWitnessVotes taken _ cleared clear
    have placed : changed.TallyKept :=
      TallyKept.of_voters (free.toVotersKept.of_proxy touched rfl named updated
        (.inr voteless)) touched rfl free.tallied
    refine placed.of_climbs ?_ ?_ ?_ gave
    · refine sized_of_read_eq (touched (.account .proxied) (by decide)) ?_
      exact sized_of_read_eq (clears (.account .proxied) (by decide))
        (climbs.sized proxies.sized)
    · rw [names_of_read_eq (touched (.account .shares) (by decide)),
        names_of_read_eq (clears (.account .shares) (by decide)), updated,
        proxyOf_of_read_eq (clears (.account .proxy) (by decide)),
        climbs.proxyOf_eq]
      refine Forest.Closed.update ?_ (mem_names_of_find new) _
      rw [names_of_climbs climbs]
      exact proxies.closed
    · rw [updated, Function.update_self]
      simp

theorem tally_takeVotingRights
    {entry : Nat × DeclineVotingRightsRequestObject}
    (done : takeVotingRights entry db = .ok after)
    (proxies : db.ProxiesKept)
    (kept : db.TallyKept) :
    after.TallyKept := by
  rcases takeVotingRights_cases done with
    ⟨name, account, deltas, taken, cleared, changed, found, take, rest⟩
  rcases rest with ⟨climbs, clear, set, removed⟩
  refine TallyKept.of_agrees ?_ removed rfl
  rcases updated_declined set with ⟨touched, updated⟩
  rcases kept.cleared proxies found take climbs clear with ⟨free, named, -⟩
  exact TallyKept.of_voters (free.toVotersKept.of_proxy touched rfl named
    updated (.inl rfl)) touched rfl free.tallied

/-! ## Votes for witnesses -/

/-- A vote of an account for a witness is given (`1`) or taken back (`-1`). -/
structure Recast (db : Database) (name : AccountName) (account witness : Nat)
    (step : Int) (after : Database) : Prop where
  touched : Agrees [.witnessVotes, .witness .votes, .witness .race,
    .account .votedFor] db after
  sums : ∀ measure : WitnessVoteObject → Int,
    sumOf measure after.witnessVotes.rows =
      sumOf measure db.witnessVotes.rows + step * measure ⟨witness, account⟩
  rows : ∀ property : WitnessVoteObject → Prop,
    property ⟨witness, account⟩ → db.witnessVotes.All property →
      after.witnessVotes.All property
  votes : ∀ other id, db.witnessIdOf other = some id →
    after.votesFor other =
      db.votesFor other + if witness = id then step * db.weight name else 0
  count : ∀ other,
    after.held (fun account => (account.witnessesVotedFor : Int)) other =
      db.held (fun account => (account.witnessesVotedFor : Int)) other +
        if name = other then step else 0

section Recasting

variable {account witness : Nat}
    {step : Int}

variable (recast : Recast db name account witness step after)

include recast

theorem Recast.voteCount_eq
    (other place : Nat) :
    after.voteCount other place =
      db.voteCount other place +
        if account = other ∧ witness = place then step else 0 := by
  rw [voteCount, recast.sums, voteCount]
  congr 1
  split <;> simp

theorem Recast.votesCast_eq
    (other : Nat) :
    after.votesCast other =
      db.votesCast other + if account = other then step else 0 := by
  rw [votesCast, recast.sums, votesCast]
  congr 1
  split <;> simp

/-- The tally moves by the weight of the voter. -/
theorem Recast.tally_eq
    (kept : db.VotersKept)
    (named : db.accountIdOf name = some account)
    (place : Nat) :
    after.tally place =
      db.tally place + if witness = place then step * db.weight name else 0 := by
  have touched := recast.touched
  have ids := accountIdOf_of_read_eq (touched (.account .identity) (by decide))
  have members := names_of_read_eq (touched (.account .identity) (by decide))
  have weights := weight_of_read_eq (touched (.account .shares) (by decide))
    (touched (.account .proxied) (by decide))
  have listed : name ∈ db.names := by
    rcases Option.map_eq_some_iff.1 named with ⟨row, found, -⟩
    exact mem_names_of_find found
  have single : ∀ other ∈ db.names,
      after.support place other =
        db.support place other +
          if name = other then
            if witness = place then step * db.weight name else 0
          else 0 := by
    intro other member
    rcases Option.isSome_iff_exists.1 (mem_names.1 member) with ⟨row, found⟩
    have given := accountIdOf_of_find found
    simp only [support, ids, weights, given, Option.getD_some,
      recast.voteCount_eq]
    by_cases same : name = other
    · subst same
      rw [named] at given
      cases given
      rw [if_pos rfl, Int.add_mul]
      congr 1
      split <;> simp_all
    · have different : account ≠ row.id := by
        rintro equal
        rw [← equal] at given
        exact same (kept.accountIds.single name other account named given)
      rw [if_neg same, if_neg fun both => different both.1, Int.add_zero,
        Int.add_zero]
  rw [tally, tally, members, Finset.sum_congr rfl single,
    Finset.sum_add_distrib, Finset.sum_ite_eq, if_pos listed]

/-- A vote of a root keeps the records and the tallies. -/
theorem TallyKept.of_recast
    (kept : db.TallyKept)
    (named : db.accountIdOf name = some account)
    (root : db.proxyOf name = none)
    (voter : name ≠ nullAccount)
    (known : witness < db.witnesses.nextId)
    (few : db.voteCount account witness + step ≤ 1)
    (within : db.votesCast account + step ≤ maxAccountWitnessVotes) :
    after.TallyKept := by
  have touched := recast.touched
  have ids := accountIdOf_of_read_eq (touched (.account .identity) (by decide))
  have next : after.accounts.nextId = db.accounts.nextId :=
    touched .accountIds (by decide)
  have witnesses := witnessIdOf_of_read_eq
    (touched (.witness .identity) (by decide))
  have nextWitness : after.witnesses.nextId = db.witnesses.nextId :=
    touched .witnessIds (by decide)
  have proxies := proxyOf_of_read_eq (touched (.account .proxy) (by decide))
  have other : ∀ name' id, db.accountIdOf name' = some id → name' ≠ name →
      account ≠ id := by
    rintro name' id given different rfl
    exact different (kept.accountIds.single name' name account given named)
  constructor
  case tallied =>
    intro place id given
    rw [witnesses] at given
    rw [recast.votes place id given, recast.tally_eq kept.toVotersKept named,
      kept.tallied place id given]
  constructor
  case accountIds => rw [ids, next]; exact kept.accountIds
  case witnessIds => rw [witnesses, nextWitness]; exact kept.witnessIds
  case placed =>
    rw [next, nextWitness]
    exact recast.rows _ ⟨kept.accountIds.below name account named, known⟩
      kept.placed
  case single =>
    intro cast place
    rw [recast.voteCount_eq]
    split
    case isTrue same => rw [← same.1, ← same.2]; exact few
    case isFalse => rw [Int.add_zero]; exact kept.single cast place
  case rooted =>
    intro name' id given proxied
    rw [ids] at given
    rw [proxies] at proxied
    have different : name' ≠ name := by
      rintro rfl
      exact proxied root
    exact recast.rows _ (other name' id given different)
      (kept.rooted name' id given proxied)
  case counted =>
    intro name' id given
    rw [ids] at given
    rcases kept.counted name' id given with ⟨count, bound⟩
    rw [recast.count, recast.votesCast_eq, count]
    by_cases same : name = name'
    · subst same
      rw [named] at given
      cases given
      rw [if_pos rfl, if_pos rfl]
      exact ⟨rfl, within⟩
    · rw [if_neg same, if_neg (other name' id given (Ne.symm same)),
        Int.add_zero]
      exact ⟨rfl, bound⟩
  case null =>
    intro id given
    rw [ids] at given
    exact recast.rows _ (other nullAccount id given (Ne.symm voter))
      (kept.null id given)

end Recasting

/-- The weight which an account computes for its vote. -/
theorem weight_of_witnessVoteWeight
    {account : AccountObject}
    {total : Int}
    (sized : db.VotesSized)
    (found : db.accounts.find? name = some account)
    (summed : account.witnessVoteWeight = .ok total) :
    db.weight name = total := by
  rw [sum_of_foldlM_checked summed, weight, held_of_find found]
  congr 1
  have whole := sum_take_eq account.proxiedVsfVotes maxProxyRecursionDepth
  rw [List.take_of_length_le (sized name account found).le] at whole
  rw [whole]
  refine Finset.sum_congr rfl fun distance _ => ?_
  rw [proxied, held_of_find found]

theorem witnessIdOf_of_getWitness
    {witness : WitnessObject}
    (got : db.getWitness name = .ok witness) :
    db.witnessIdOf name = some witness.id := by
  rw [witnessIdOf, orFault_eq_ok_iff.1 got]
  rfl

/-- The number of votes changes by one step. -/
theorem held_countVotes
    {change : Nat → Nat}
    {step : Int}
    (counts : ∀ account, db.accounts.find? name = some account →
      (change account.witnessesVotedFor : Int) =
        account.witnessesVotedFor + step)
    (done : (db.modifyAccount name fun account =>
      pure { account with
        witnessesVotedFor := change account.witnessesVotedFor }) = .ok after)
    (other : AccountName) :
    after.held (fun account => (account.witnessesVotedFor : Int)) other =
      db.held (fun account => (account.witnessesVotedFor : Int)) other +
        if name = other then step else 0 := by
  refine held_modifyAccount done ?_ other
  intro account changed found made
  cases made
  exact counts account found

/-- A vote which is looked for in vain is not there. -/
theorem voteCount_of_findBy
    {account witness : Nat}
    (missing : db.witnessVotes.findBy (fun vote =>
      vote.account = account ∧ vote.witness = witness) = none) :
    db.voteCount account witness = 0 := by
  refine List.sum_eq_zero ?_
  intro value member
  rcases List.mem_map.1 member with ⟨entry, listed, rfl⟩
  have refused := List.find?_eq_none.1 missing entry listed
  exact if_neg fun cast => refused (decide_eq_true cast)

/-- A vote is recorded before or after it is tallied and counted. -/
theorem recast_of_parts
    {db listed voted counted after : Database}
    {name place : AccountName}
    {account witness : Nat}
    {step : Int}
    {change : Nat → Nat}
    (kept : db.TallyKept)
    (given : db.witnessIdOf place = some witness)
    (first : Agrees [.witnessVotes] db listed)
    (tallied : listed.adjustWitnessVote place (step * db.weight name) =
      .ok voted)
    (count : (voted.modifyAccount name fun account =>
      pure { account with
        witnessesVotedFor := change account.witnessesVotedFor }) = .ok counted)
    (counts : ∀ account, voted.accounts.find? name = some account →
      (change account.witnessesVotedFor : Int) =
        account.witnessesVotedFor + step)
    (last : Agrees [.witnessVotes] counted after)
    (sums : ∀ measure : WitnessVoteObject → Int,
      sumOf measure after.witnessVotes.rows =
        sumOf measure db.witnessVotes.rows + step * measure ⟨witness, account⟩)
    (rows : ∀ property : WitnessVoteObject → Prop,
      property ⟨witness, account⟩ → db.witnessVotes.All property →
        after.witnessVotes.All property) :
    Recast db name account witness step after := by
  have ids := witnessIdOf_of_read_eq
    (first (.witness .identity) (by decide))
  have gains := gains_adjustWitnessVote (ids ▸ kept.witnessIds) (ids ▸ given)
    tallied
  have middle := touches_countVotes _ _ _ _ count
  constructor
  case touched =>
    exact trans_of _ (first.mono (by decide)) (trans_of _
      (gains.touched.mono (by decide)) (trans_of _ (middle.mono (by decide))
        (last.mono (by decide))))
  case sums => exact sums
  case rows => exact rows
  case votes =>
    intro other id there
    rw [votesFor_of_read_eq (last (.witness .votes) (by decide)),
      votesFor_of_read_eq (middle (.witness .votes) (by decide)),
      gains.gained other id (ids ▸ there),
      votesFor_of_read_eq (first (.witness .votes) (by decide))]
  case count =>
    intro other
    have same : ∀ before after : Database,
        Field.read (.account .votedFor) after =
            Field.read (.account .votedFor) before →
          after.held (fun account => (account.witnessesVotedFor : Int)) other =
            before.held (fun account => (account.witnessesVotedFor : Int))
              other :=
      fun before after same => held_of_read_eq same
        (fun count : Nat => (count : Int)) other
    rw [same counted after (last _ (by decide)),
      held_countVotes counts count,
      same listed voted (gains.touched _ (by decide)),
      same db listed (first _ (by decide))]

/-- The number of votes of an account is where it was before the tally. -/
theorem votedFor_of_adjustWitnessVote
    {db listed voted : Database}
    {name place : AccountName}
    {account : AccountObject}
    {delta : Int}
    (found : db.accounts.find? name = some account)
    (first : Agrees [.witnessVotes] db listed)
    (tallied : listed.adjustWitnessVote place delta = .ok voted)
    {owner : AccountObject}
    (there : voted.accounts.find? name = some owner) :
    owner.witnessesVotedFor = account.witnessesVotedFor := by
  have same := congrFun
    ((touches_adjustWitnessVote listed place delta voted tallied
      (.account .votedFor) (by decide)).trans
        (first (.account .votedFor) (by decide))) name
  simp only [Field.read, there, found, Option.map_some, Option.some.injEq]
    at same
  exact same

theorem tally_accountWitnessVote
    {op : AccountWitnessVoteOperation}
    (voter : op.account ≠ nullAccount)
    (done : db.accountWitnessVoteEvaluator op = .ok after)
    (proxies : db.ProxiesKept)
    (kept : db.TallyKept) :
    after.TallyKept := by
  simp only [accountWitnessVoteEvaluator, bind_eq_ok_iff, require_eq_ok_iff]
    at done
  rcases done with ⟨account, got, _, alone, _, -, witness, known, done⟩
  rcases done with ⟨weight, weighed, done⟩
  have found := find_of_getAccount got
  have named := accountIdOf_of_find found
  have place := witnessIdOf_of_getWitness known
  have root : db.proxyOf op.account = none := by
    have given := proxyOf_of_find found
    split at given
    case isTrue => exact given
    case isFalse => exact absurd alone (proxies.seated.2 op.account _ given)
  have heavy := weight_of_witnessVoteWeight proxies.sized found weighed
  have below := kept.witnessIds.below op.witness witness.id place
  rcases kept.counted op.account account.id named with ⟨count, bound⟩
  rw [held_of_find found] at count
  split at done
  case h_1 missing =>
    simp only [bind_eq_ok_iff, require_eq_ok_iff] at done
    rcases done with ⟨_, -, _, few, voted, tallied, counted⟩
    rw [← heavy, ← Int.one_mul (db.weight op.account)] at tallied
    have first := agrees_witnessVotes db
      (db.witnessVotes.emplace ⟨witness.id, account.id⟩)
    have rows : after.witnessVotes =
        db.witnessVotes.emplace ⟨witness.id, account.id⟩ :=
      (touches_countVotes _ _ _ _ counted .witnessVotes (by decide)).trans
        (touches_adjustWitnessVote _ _ _ voted tallied .witnessVotes
          (by decide))
    have recast : Recast db op.account account.id witness.id 1 after := by
      refine recast_of_parts kept place first tallied counted ?_
        (refl_of _ after) ?_ ?_
      · intro owner there
        rw [votedFor_of_adjustWitnessVote found first tallied there, increment]
        unfold maxAccountWitnessVotes at few
        omega
      · intro measure
        rw [rows, Table.sumOf_emplace, Int.one_mul]
      · intro property holds all
        rw [rows]
        exact all.emplace holds
    refine TallyKept.of_recast recast kept named root voter below ?_ ?_
    · rw [voteCount_of_findBy missing]
      decide
    · rw [← count]
      omega
  case h_2 id vote offered =>
    simp only [bind_eq_ok_iff, checked_eq_ok_iff] at done
    rcases done with ⟨_, -, _, ⟨-, rfl⟩, voted, tallied, counted, count', equal⟩
    cases equal
    rw [← heavy, ← Int.neg_one_mul] at tallied
    have listed := Table.find?_of_findBy offered
    have passed := Table.passed_of_findBy offered
    have own : vote = ⟨witness.id, account.id⟩ := by
      cases vote
      simp only [decide_eq_true_eq] at passed
      rw [passed.1, passed.2]
    rw [own] at listed
    have rows : counted.witnessVotes = db.witnessVotes :=
      (touches_countVotes _ _ _ _ count' .witnessVotes (by decide)).trans
        (touches_adjustWitnessVote _ _ _ voted tallied .witnessVotes
          (by decide))
    have some : 1 ≤ db.votesCast account.id := by
      have rest := Table.sumOf_remove (fun vote : WitnessVoteObject =>
        if vote.account = account.id then 1 else 0) listed
      have nonneg : 0 ≤ sumOf (fun vote : WitnessVoteObject =>
          if vote.account = account.id then 1 else 0)
          (db.witnessVotes.remove id).rows :=
        sumOf_nonneg fun _ vote _ => by split <;> decide
      rw [rest, if_pos rfl] at nonneg
      unfold votesCast
      omega
    have recast : Recast db op.account account.id witness.id (-1)
        { counted with witnessVotes := counted.witnessVotes.remove id } := by
      refine recast_of_parts kept place (refl_of _ db) tallied count' ?_
        (agrees_witnessVotes counted _) ?_ ?_
      · intro owner there
        rw [votedFor_of_adjustWitnessVote found (refl_of _ db) tallied there,
          decrement]
        unfold maxAccountWitnessVotes at bound
        omega
      · intro measure
        rw [rows, Table.sumOf_remove measure listed, Int.neg_one_mul,
          Int.sub_eq_add_neg]
      · intro property _ all
        rw [rows]
        exact all.remove id
    refine TallyKept.of_recast recast kept named root voter below ?_ ?_
    · have := kept.single account.id witness.id
      omega
    · omega

/-! ## New accounts and witnesses -/

/-- A new account has no votes and no weight. -/
theorem TallyKept.of_created
    {row : Nat → AccountObject}
    (kept : db.TallyKept)
    (created : createNamed db.accounts name row = .ok after.accounts)
    (witnesses : after.witnesses = db.witnesses)
    (votes : after.witnessVotes = db.witnessVotes)
    (numbered : ∀ id, (row id).id = id)
    (alone : ∀ id, (row id).proxy = "")
    (poor : ∀ id, (row id).vestingShares = 0)
    (fresh : ∀ id, (row id).proxiedVsfVotes = [0, 0, 0, 0])
    (silent : ∀ id, (row id).witnessesVotedFor = 0) :
    after.TallyKept := by
  have next : after.accounts.nextId = db.accounts.nextId + 1 := by
    simp only [createNamed, bind_eq_ok_iff, pure_eq_ok_iff] at created
    rcases created with ⟨_, -, equal⟩
    rw [← equal]
    rfl
  rcases find_createNamed created with ⟨free, rows⟩
  have ids : ∀ other, after.accountIdOf other =
      if name = other then some db.accounts.nextId
      else db.accountIdOf other := by
    intro other
    rw [accountIdOf, rows other]
    split
    · rw [Option.map_some, numbered]
    · rfl
  have voteless : db.Voteless db.accounts.nextId :=
    fun id vote found same => absurd (kept.placed id vote found).1
      (by rw [same]; exact Nat.lt_irrefl _)
  have weights : after.weight = db.weight := by
    funext other
    unfold weight
    rw [held_createNamed created, poor, ite_self, Int.add_zero]
    simp only [proxied_created created fresh]
  have parents := proxyOf_created created alone
  have given : after.witnessIdOf = db.witnessIdOf := by
    funext other
    rw [witnessIdOf, witnesses]
    rfl
  have tallies : after.tally = db.tally := by
    funext witness
    have absent : name ∉ db.names := by
      rw [mem_names, free]
      simp
    have new : after.support witness name = 0 := by
      rw [support, ids name, if_pos rfl, Option.getD_some]
      have none := voteless.voteCount_eq witness
      unfold voteCount at none ⊢
      rw [votes, none, Int.zero_mul]
    rw [tally, names_created created, Finset.sum_insert absent, new,
      Int.zero_add]
    refine Finset.sum_congr rfl fun other member => ?_
    have different : name ≠ other := fun same => absent (same ▸ member)
    rw [support, ids other, if_neg different, weights, voteCount, votes]
    rfl
  constructor
  case tallied =>
    intro place id there
    rw [votesFor, witnesses, tallies]
    exact kept.tallied place id (given ▸ there)
  constructor
  case accountIds =>
    rw [next]
    exact kept.accountIds.add ids
  case witnessIds => rw [given, witnesses]; exact kept.witnessIds
  case placed =>
    rw [votes, next, witnesses]
    exact fun id vote found => ⟨Nat.lt_succ_of_lt (kept.placed id vote found).1,
      (kept.placed id vote found).2⟩
  case single =>
    unfold voteCount
    rw [votes]
    exact kept.single
  case rooted =>
    intro other id there proxied
    unfold Voteless
    rw [votes]
    rw [ids other] at there
    split at there
    case isTrue =>
      cases there
      exact voteless
    case isFalse => exact kept.rooted other id there (parents ▸ proxied)
  case counted =>
    intro other id there
    rw [ids other] at there
    unfold votesCast
    rw [votes]
    rw [held_createNamed created, silent]
    split at there
    case isTrue same =>
      cases there
      have none := voteless.votesCast_eq
      unfold votesCast at none
      rw [none, ← same, held, free]
      exact ⟨by simp, by decide⟩
    case isFalse =>
      rw [show ((0 : Nat) : Int) = 0 from rfl, ite_self, Int.add_zero]
      exact kept.counted other id there
  case null =>
    intro id there
    unfold Voteless
    rw [votes]
    rw [ids nullAccount] at there
    split at there
    case isTrue =>
      cases there
      exact voteless
    case isFalse => exact kept.null id there

theorem tally_accountCreate
    {op : AccountCreateOperation}
    (done : db.accountCreateEvaluator ext op = .ok after)
    (kept : db.TallyKept) :
    after.TallyKept := by
  simp only [accountCreateEvaluator, bind_eq_ok_iff] at done
  rcases done with ⟨_, -, _, -, _, -, _, -, _, -, _, -, _, -, _, -, done⟩
  rcases done with ⟨debited, debit, _, -, accounts, created, done⟩
  rcases done with ⟨authorities, -, paid, pay, emitted⟩
  refine TallyKept.of_agrees ?_
    (touches_processFundsBmchain _ _ after emitted) rfl
  refine TallyKept.of_agrees ?_ (touches_payFee _ _ paid pay) rfl
  have spent := kept.of_agrees (touches_addBalance db _ _ debited debit) rfl
  exact spent.of_created created rfl rfl (fun _ => rfl) (fun _ => rfl)
    (fun _ => rfl) (fun _ => rfl) fun _ => rfl

theorem tally_accountCreateWithDelegation
    {op : AccountCreateWithDelegationOperation}
    (done : db.accountCreateWithDelegationEvaluator op = .ok after)
    (proxies : db.ProxiesKept)
    (kept : db.TallyKept) :
    after.TallyKept := by
  rcases accountCreateWithDelegation_cases done with
    ⟨debited, accounts, _, _, _, touched, created, vested⟩
  have opened : ∀ ready : Database, ready.accounts = accounts →
      ready.witnesses = debited.witnesses →
        ready.witnessVotes = debited.witnessVotes →
          ready.ProxiesKept ∧ ready.TallyKept := by
    rintro ready rfl witnesses votes
    refine ⟨(proxies.of_agrees touched rfl).of_created created (fun _ => rfl)
      (fun _ => rfl) fun _ => rfl, ?_⟩
    exact (kept.of_agrees touched rfl).of_created created witnesses votes
      (fun _ => rfl) (fun _ => rfl) (fun _ => rfl) (fun _ => rfl) fun _ => rfl
  rcases vested with rfl | ⟨_, _, vest⟩
  · refine (opened _ ?_ ?_ ?_).2 <;> rfl
  · refine tally_createVesting vest (opened _ ?_ ?_ ?_).1
      (opened _ ?_ ?_ ?_).2 <;> rfl

/-- A new witness has no votes. -/
theorem TallyKept.of_witness
    {row : WitnessObject}
    (kept : db.TallyKept)
    (numbered : row.id = db.witnesses.nextId)
    (unvoted : row.votes = 0) :
    { db with witnesses := db.witnesses.emplace name row }.TallyKept := by
  have rows : ∀ other, (db.witnesses.emplace name row).find? other =
      if name = other then some row else db.witnesses.find? other :=
    fun other => getElem?_place db.witnesses.rows name other (some row)
  have ids : ∀ other,
      { db with witnesses := db.witnesses.emplace name row }.witnessIdOf other =
        if name = other then some db.witnesses.nextId
        else db.witnessIdOf other := by
    intro other
    rw [witnessIdOf, rows other]
    split
    · rw [Option.map_some, numbered]
    · rfl
  have uncast : db.tally db.witnesses.nextId = 0 := by
    refine Finset.sum_eq_zero fun other _ => ?_
    have none : db.voteCount ((db.accountIdOf other).getD 0)
        db.witnesses.nextId = 0 := by
      refine List.sum_eq_zero ?_
      intro value member
      rcases List.mem_map.1 member with ⟨⟨id, vote⟩, listed, rfl⟩
      have below := (kept.placed id vote
        (ExtTreeMap.mem_toList_iff_getElem?_eq_some.1 listed)).2
      exact if_neg fun cast => absurd below
        (by rw [cast.2]; exact Nat.lt_irrefl _)
    rw [support, none, Int.zero_mul]
  refine ⟨⟨kept.accountIds, kept.witnessIds.add ids, ?_, kept.single,
    kept.rooted, kept.counted, kept.null⟩, ?_⟩
  · exact fun id vote found => ⟨(kept.placed id vote found).1,
      Nat.lt_succ_of_lt (kept.placed id vote found).2⟩
  · intro other id there
    rw [ids other] at there
    rw [votesFor, rows other]
    split at there
    case isTrue same =>
      cases there
      rw [if_pos same, Option.map_some, Option.getD_some, unvoted]
      exact uncast.symm
    case isFalse different =>
      rw [if_neg different]
      exact kept.tallied other id there

/-- A witness which updates itself keeps its votes, and a new one has none. -/
theorem tally_witnessUpdate
    {op : WitnessUpdateOperation}
    (done : db.witnessUpdateEvaluator op = .ok after)
    (kept : db.TallyKept) :
    after.TallyKept := by
  rcases witnessUpdate_cases done with updated | ⟨-, rfl⟩
  · exact kept.of_agrees (agrees_updateWitness updated) rfl
  · exact kept.of_witness rfl rfl

/-- The null account does not vote, so its shares can be swept. -/
theorem tally_clearNullAccountBalance
    (done : db.clearNullAccountBalance = .ok after)
    (kept : db.TallyKept) :
    after.TallyKept := by
  have touched := touches_clearNullAccountBalance db after done
  have ids := accountIdOf_of_read_eq (touched (.account .identity) (by decide))
  have members := names_of_read_eq (touched (.account .identity) (by decide))
  have votes : after.witnessVotes = db.witnessVotes :=
    touched .witnessVotes (by decide)
  refine ⟨kept.toVotersKept.of_agrees touched (by rfl), ?_⟩
  have tallies : after.tally = db.tally := by
    funext witness
    rw [tally, tally, members]
    refine Finset.sum_congr rfl fun other member => ?_
    by_cases null : other = nullAccount
    · rcases Option.isSome_iff_exists.1 (mem_names.1 member) with
        ⟨account, found⟩
      have given := accountIdOf_of_find found
      have none := (kept.null account.id (null ▸ given)).voteCount_eq witness
      simp only [support, voteCount, votes, ids, given, Option.getD_some]
        at none ⊢
      rw [none, Int.zero_mul, Int.zero_mul]
    · have own : after.held AccountObject.vestingShares other =
          db.held AccountObject.vestingShares other :=
        (shares_clearNullAccountBalance done other).resolve_right
          fun both => null both.1
      have weights : after.weight other = db.weight other := by
        unfold weight
        rw [own]
        simp only [proxied_of_read_eq
          (touched (.account .proxied) (by decide))]
      simp only [support, voteCount, votes, ids, weights]
  rw [witnessIdOf_of_read_eq (touched (.witness .identity) (by decide)),
    votesFor_of_read_eq (touched (.witness .votes) (by decide)), tallies]
  exact kept.tallied

/-! ## Operations and steps -/

/-- The forest of the proxies and the tallies of the witnesses. -/
structure VotesKept (db : Database) : Prop where
  proxies : db.ProxiesKept
  tallies : db.TallyKept

theorem votes_applyOperation
    {op : Operation}
    (allowed : VotesReadably db op)
    (valid : op.validate ext = .ok ())
    (done : db.applyOperation ext op = .ok after)
    (kept : db.VotesKept) :
    after.VotesKept := by
  refine ⟨kept_applyOperation allowed valid done kept.proxies, ?_⟩
  have agrees := touches_applyOperation ext db op after done
  have proxies := kept.proxies
  have tallies := kept.tallies
  cases op with
  | accountCreate op => exact tally_accountCreate done tallies
  | accountCreateWithDelegation op =>
      exact tally_accountCreateWithDelegation done proxies tallies
  | accountWitnessProxy op =>
      exact tally_accountWitnessProxy allowed.2 done proxies tallies
  | accountWitnessVote op =>
      refine tally_accountWitnessVote ?_ done proxies tallies
      intro same
      exact allowed.1 (by simp [issuers, Operation.requiredActive, same])
  | witnessUpdate op => exact tally_witnessUpdate done tallies
  | claimRewardBalance op =>
      exact tally_claimRewardBalance done proxies tallies
  | _ => exact tallies.of_agrees agrees rfl

theorem votes_cashoutCommentHelper
    {id recentClaims : Nat}
    {rewardBalance claimed : Int}
    (done : db.cashoutCommentHelper ext id recentClaims rewardBalance =
      .ok (after, claimed))
    (kept : db.VotesKept) :
    after.VotesKept := by
  refine ⟨kept_cashoutCommentHelper done kept.proxies, ?_⟩
  rcases cashout_cases done with paid | ⟨ready, vested, _, _, _, paid⟩
  · exact kept.tallies.of_agrees paid rfl
  · rcases paid with ⟨before, create, closed, -⟩
    exact (tally_createVesting create (kept.proxies.of_agrees before rfl)
      (kept.tallies.of_agrees before rfl)).of_agrees closed rfl

theorem votes_runStep
    {header : BlockHeader}
    {step : BlockStep}
    (early : BeforeBurn header db step)
    (done : db.runStep ext header step = .ok after)
    (kept : db.VotesKept) :
    after.VotesKept := by
  have agrees := touches_runStep ext header db step after done
  have proxies := kept_runStep early done kept.proxies
  cases step with
  | clearNullAccountBalance =>
      exact ⟨proxies, tally_clearNullAccountBalance done kept.tallies⟩
  | processCommentCashout =>
      have always : EachPayout ext (fun _ _ _ _ => True) db :=
        eachPayout_of_forall (fun _ _ _ _ => trivial) db
      refine processCommentCashout_invariant VotesKept ?_ ?_ always done kept
      · exact fun before after paid start =>
          ⟨start.proxies.of_agrees paid rfl, start.tallies.of_agrees paid rfl⟩
      · intro db id recentClaims rewardBalance after claimed _ cashed start
        exact votes_cashoutCommentHelper cashed start
  | processDeclineVotingRights =>
      refine drain_invariant VotesKept ?_ done kept
      exact fun entry state next _ taken start =>
        ⟨kept_takeVotingRights taken start.proxies,
          tally_takeVotingRights taken start.proxies start.tallies⟩
  | processHardforks =>
      simp only [runStep, processHardforks, bind_eq_ok_iff] at done
      rcases done with ⟨_, -, done⟩
      rw [if_neg early] at done
      cases done
      exact kept
  | _ => exact ⟨proxies, kept.tallies.of_agrees agrees rfl⟩

end Database

/-! ## Runs -/

/-- The witnesses of genesis. -/
theorem genesis_witness
    {witness : WitnessObject}
    (found : initGenesis.witnesses.find? name = some witness) :
    name = initMinerName ∧ witness.id = 0 ∧ witness.votes = 0 := by
  have all : ∀ entry ∈ initGenesis.witnesses.entries,
      entry.1 = initMinerName ∧ entry.2.id = 0 ∧ entry.2.votes = 0 := by
    decide +kernel
  exact all (name, witness)
    (ExtTreeMap.mem_toList_iff_getElem?_eq_some.2 found)

theorem votes_genesis :
    initGenesis.VotesKept := by
  have voteless : ∀ id, initGenesis.Voteless id := fun _ => .empty
  refine ⟨kept_genesis, ⟨Database.numbered_genesis, ?_, .empty, ?_, ?_, ?_, ?_⟩, ?_⟩
  case refine_1 =>
    constructor
    case below =>
      intro name id given
      rcases Option.map_eq_some_iff.1 given with ⟨witness, found, rfl⟩
      rw [(genesis_witness found).2.1]
      decide
    case single =>
      intro first second id given again
      rcases Option.map_eq_some_iff.1 given with ⟨_, found, -⟩
      rcases Option.map_eq_some_iff.1 again with ⟨_, there, -⟩
      rw [(genesis_witness found).1, (genesis_witness there).1]
  case refine_2 =>
    intro account witness
    rw [(voteless account).voteCount_eq]
    decide
  case refine_3 => exact fun _ id _ _ => voteless id
  case refine_4 =>
    intro name id given
    rcases Option.map_eq_some_iff.1 given with ⟨account, found, -⟩
    have none := genesis_account (fun row => row.witnessesVotedFor = 0)
      (by decide +kernel) found
    rw [(voteless id).votesCast_eq, Database.held_of_find found, none]
    exact ⟨rfl, by decide⟩
  case refine_5 => exact fun id _ => voteless id
  case refine_6 =>
    intro name id given
    rcases Option.map_eq_some_iff.1 given with ⟨witness, found, -⟩
    have zero : initGenesis.tally id = 0 := by
      refine Finset.sum_eq_zero fun other _ => ?_
      rw [Database.support, (voteless _).voteCount_eq, Int.zero_mul]
    rw [zero, Database.votesFor, found, Option.map_some, Option.getD_some]
    exact (genesis_witness found).2.2

theorem votes_run
    (run : RunState ext (EventMeets ext Database.VotesReadably BeforeBurn)
      block db) :
    db.VotesKept := by
  refine RunState.invariant Database.VotesKept votes_genesis ?_ ?_ ?_ run
  · intro state header after begun kept
    have agrees := Database.touches_beginBlock state header after begun
    exact ⟨kept.proxies.of_agrees agrees rfl, kept.tallies.of_agrees agrees rfl⟩
  · intro state op after allowed valid done kept
    exact Database.votes_applyOperation allowed valid done kept
  · intro header state step after early done kept
    exact Database.votes_runStep early done kept

/--
Before the initial shares are burned, a witness has as many votes as its voters
own and carry.  Nobody votes twice for a witness, or with a proxy, and every
account knows the number of its votes.
-/
theorem witness_votes_tallied
    {db : Database}
    (run : RunState ext (EventMeets ext Database.VotesReadably BeforeBurn)
      block db) :
    (∀ name witness, db.witnesses.find? name = some witness →
      witness.votes = db.tally witness.id) ∧
    (∀ account witness, db.voteCount account witness ≤ 1) ∧
      ∀ name account, db.accounts.find? name = some account →
        (account.witnessesVotedFor : Int) = db.votesCast account.id ∧
          db.votesCast account.id ≤ Database.maxAccountWitnessVotes ∧
            (account.proxy ≠ "" → db.Voteless account.id) := by
  have kept := (votes_run run).tallies
  refine ⟨?_, kept.single, ?_⟩
  · intro name witness found
    have tallied := kept.tallied name witness.id (congrArg (Option.map _) found)
    rwa [Database.votesFor, found] at tallied
  · intro name account found
    have own := Database.accountIdOf_of_find found
    have counted := kept.counted name account.id own
    rw [Database.held_of_find found] at counted
    refine ⟨counted.1, counted.2, fun proxied => ?_⟩
    refine kept.rooted name account.id own ?_
    rw [Database.proxyOf_of_find found, if_neg proxied]
    intro same
    cases same

/-- The vote of an account of genesis. -/
def sampleBallot : Operation :=
  .accountWitnessVote
    { account := "devs", witness := initMinerName, approve := true }

/-- The votes of the first witness after a vote of the account `devs`. -/
theorem witness_votes_tallied_devs :
    ∃ after witness,
      initGenesis.step plainExternal (.operation sampleBallot) = .ok after ∧
        after.witnesses.find? initMinerName = some witness ∧
          witness.votes = after.tally witness.id := by
  have ran : ((initGenesis.step plainExternal
      (.operation sampleBallot)).bind fun after =>
        after.getWitness initMinerName).isOk = true := by
    decide +kernel
  rcases exists_of_isOk ran with ⟨witness, done⟩
  rcases (bind_eq_ok_iff _ _ _).1 done with ⟨after, stepped, got⟩
  have found := orFault_eq_ok_iff.1 got
  have run : RunState plainExternal
      (EventMeets plainExternal Database.VotesReadably BeforeBurn) none after :=
    .step (.operation sampleBallot) .genesis (.operation _ _)
      ⟨by unfold Database.NullSilent; decide, trivial⟩ stepped
  exact ⟨after, witness, stepped, found,
    (witness_votes_tallied run).1 initMinerName witness found⟩

end BMChain.State
