import BMChain.Foundation.Forest
import BMChain.State.Holdings

/-!
# The forest of the proxies

The proxies of the accounts form a forest, and each account keeps the shares of
the accounts below it by their distance.  Changes are sent up a chain of
proxies with one amount for each distance; both walks of the source are one
relation here.
-/

namespace BMChain.State

open BMChain.Foundation BMChain.Protocol Std

variable {account : AccountObject} {votes changed : List Int} {delta : Int}
    {remaining : Nat}

namespace Database

/-! ## The forest of the proxies -/

/-- The account which votes for another one, if any. -/
def proxyOf (db : Database) (name : AccountName) : Option AccountName :=
  (db.accounts.find? name).bind fun account =>
    if account.proxy = "" then none else some account.proxy

/-- The names of all accounts. -/
def names (db : Database) : Finset AccountName :=
  (db.accounts.entries.map Prod.fst).toFinset

/-- An entry of `proxied_vsf_votes` of the account with a name. -/
def proxied (db : Database) (distance : Nat) (name : AccountName) : Int :=
  db.held (fun account => account.proxiedVsfVotes.getD distance 0) name

/-- The shares of the accounts whose chain of proxies reaches an account in a
number of steps. -/
def sharesBelow (db : Database) (steps : Nat) (name : AccountName) : Int :=
  Forest.carried db.proxyOf (db.held AccountObject.vestingShares) db.names
    steps name

theorem mem_names
    {db : Database}
    {name : AccountName} :
    name ∈ db.names ↔ (db.accounts.find? name).isSome := by
  rw [names, List.mem_toFinset, List.mem_map, Option.isSome_iff_exists]
  constructor
  · rintro ⟨⟨_, account⟩, listed, rfl⟩
    exact ⟨account, ExtTreeMap.mem_toList_iff_getElem?_eq_some.1 listed⟩
  · rintro ⟨account, found⟩
    exact ⟨(name, account),
      ExtTreeMap.mem_toList_iff_getElem?_eq_some.2 found, rfl⟩

theorem mem_names_of_find
    {db : Database}
    {name : AccountName}
    (found : db.accounts.find? name = some account) :
    name ∈ db.names := by
  rw [mem_names, found]
  rfl

theorem proxyOf_of_find
    {db : Database}
    {name : AccountName}
    (found : db.accounts.find? name = some account) :
    db.proxyOf name =
      if account.proxy = "" then none else some account.proxy := by
  rw [proxyOf, found]
  rfl

/-- Every account keeps votes for each distance. -/
def VotesSized (db : Database) : Prop :=
  ∀ name account, db.accounts.find? name = some account →
    account.proxiedVsfVotes.length = maxProxyRecursionDepth

/-- The null account has no proxy, and no proxy begins with a zero. -/
def Seated (db : Database) : Prop :=
  db.proxyOf nullAccount = none ∧
    ∀ name proxy, db.proxyOf name = some proxy → nameSize proxy ≠ 0

/-- Proxies and shares of the accounts, with the votes kept for them. -/
structure ProxiesKept (db : Database) : Prop where
  closed : Forest.Closed db.proxyOf db.names
  acyclic : Forest.Acyclic db.proxyOf
  sized : db.VotesSized
  carried : ∀ distance, distance < maxProxyRecursionDepth →
    ∀ name, db.proxied distance name = db.sharesBelow (distance + 1) name
  /-- The null account votes for itself, and every proxy can be read. -/
  seated : db.Seated

/-! ## What does not concern the proxies -/

/-- The parts of the state which the forest is read from. -/
def forestFields : List Field :=
  [.account .proxy, .account .shares, .account .proxied]

theorem proxyOf_of_read_eq
    {before after : Database}
    (same : Field.read (.account .proxy) after =
      Field.read (.account .proxy) before) :
    after.proxyOf = before.proxyOf := by
  funext name
  have row := congrArg
    (fun entry : Option AccountName =>
      entry.bind fun proxy => if proxy = "" then none else some proxy)
    (congrFun same name)
  simp only [Field.read, Option.bind_map] at row
  exact row

theorem names_of_read_eq
    {aspect : AccountAspect}
    {before after : Database}
    (same : Field.read (.account aspect) after =
      Field.read (.account aspect) before) :
    after.names = before.names := by
  ext name
  have row := congrArg Option.isSome (congrFun same name)
  simp only [Field.read, Option.isSome_map] at row
  rw [mem_names, mem_names, row]

theorem proxied_of_read_eq
    {before after : Database}
    (same : Field.read (.account .proxied) after =
      Field.read (.account .proxied) before)
    (distance : Nat)
    (name : AccountName) :
    after.proxied distance name = before.proxied distance name :=
  held_of_read_eq same (fun votes => List.getD votes distance 0) name

theorem sized_of_read_eq
    {before after : Database}
    (same : Field.read (.account .proxied) after =
      Field.read (.account .proxied) before)
    (sized : before.VotesSized) :
    after.VotesSized := by
  intro name account found
  have row := congrFun same name
  simp only [Field.read, found, Option.map_some] at row
  rcases Option.map_eq_some_iff.1 row.symm with ⟨old, there, equal⟩
  have length := sized name old there
  simp only [AccountAspect.read] at equal
  rwa [equal] at length

/-- What touches neither proxies nor shares keeps the votes of the proxies. -/
theorem ProxiesKept.of_agrees
    {fields : List Field}
    {before after : Database}
    (kept : before.ProxiesKept)
    (agrees : Agrees fields before after)
    (separate : apart forestFields fields = true) :
    after.ProxiesKept := by
  have proxies := agrees.read_eq separate
    (by decide : .account .proxy ∈ forestFields)
  have shares := agrees.read_eq separate
    (by decide : .account .shares ∈ forestFields)
  have votes := agrees.read_eq separate
    (by decide : .account .proxied ∈ forestFields)
  have parents := proxyOf_of_read_eq proxies
  have members := names_of_read_eq proxies
  have weights : after.held AccountObject.vestingShares =
      before.held AccountObject.vestingShares :=
    funext (held_of_read_eq shares fun count => count)
  constructor
  case closed => rw [parents, members]; exact kept.closed
  case acyclic => rw [parents]; exact kept.acyclic
  case sized => exact sized_of_read_eq votes kept.sized
  case carried =>
    intro distance bound name
    rw [proxied_of_read_eq votes, sharesBelow, parents, members, weights]
    exact kept.carried distance bound name
  case seated => rw [Seated, parents]; exact kept.seated

/-! ## Votes on their way up -/

/-- One entry of the carried votes grows. -/
theorem getD_addProxied
    {place : Nat}
    (inside : place < votes.length)
    (added : addProxied votes place delta = .ok changed) :
    changed.length = votes.length ∧
      ∀ distance, changed.getD distance 0 =
        votes.getD distance 0 + if place = distance then delta else 0 := by
  simp only [addProxied, bind_eq_ok_iff, pure_eq_ok_iff, checked_eq_ok_iff]
    at added
  rcases added with ⟨_, ⟨-, rfl⟩, rfl⟩
  refine ⟨List.length_set, ?_⟩
  intro distance
  rw [List.getD_eq_getElem?_getD, List.getElem?_set]
  split
  case isTrue same =>
    subst same
    simp [inside]
  case isFalse => simp [List.getD_eq_getElem?_getD]

/-- Several entries of the carried votes grow. -/
theorem getD_foldlM_addProxied
    {depth : Nat}
    {entries : List (Int × Nat)}
    (inside : ∀ entry ∈ entries, entry.2 + depth < votes.length)
    (added : entries.foldlM
      (fun votes entry => addProxied votes (entry.2 + depth) entry.1) votes =
        .ok changed) :
    changed.length = votes.length ∧
      ∀ distance, changed.getD distance 0 =
        votes.getD distance 0 +
          (entries.map fun entry =>
            if entry.2 + depth = distance then entry.1 else 0).sum := by
  induction entries generalizing votes with
  | nil =>
      cases added
      simp
  | cons entry rest induction =>
      rw [List.foldlM_cons, bind_eq_ok_iff] at added
      rcases added with ⟨middle, first, added⟩
      rcases getD_addProxied (inside entry (by simp)) first with
        ⟨length, grown⟩
      rcases induction (fun other member => length ▸
        inside other (List.mem_cons_of_mem entry member)) added with
        ⟨total, onward⟩
      refine ⟨total.trans length, ?_⟩
      intro distance
      rw [onward, grown, List.map_cons, List.sum_cons, Int.add_assoc]

/-- An entry of a list is the sum over its places. -/
theorem sum_zipIdx_eq_getD
    (deltas : List Int)
    (place start : Nat) :
    ((deltas.zipIdx start).map fun entry =>
      if entry.2 = place + start then entry.1 else 0).sum =
        deltas.getD place 0 := by
  induction deltas generalizing place start with
  | nil => rfl
  | cons delta rest induction =>
      rw [List.zipIdx_cons, List.map_cons, List.sum_cons]
      cases place with
      | zero =>
          have none : ((rest.zipIdx (start + 1)).map fun entry =>
              if entry.2 = 0 + start then entry.1 else 0).sum = 0 := by
            refine List.sum_eq_zero ?_
            intro value member
            rcases List.mem_map.1 member with ⟨⟨_, index⟩, listed, rfl⟩
            have above := (List.mem_zipIdx listed).1
            exact if_neg (by omega)
          rw [none]
          simp
      | succ place =>
          have shifted := induction place (start + 1)
          rw [show place + (start + 1) = place + 1 + start by omega] at shifted
          rw [shifted, if_neg (by omega)]
          simp

/-- Each delta grows the entry which lies its place above the depth. -/
theorem getD_addProxiedDeltas
    {depth : Nat}
    {deltas votes changed : List Int}
    (sized : votes.length = maxProxyRecursionDepth)
    (added : addProxiedDeltas depth deltas votes = .ok changed) :
    changed.length = maxProxyRecursionDepth ∧
      ∀ distance, distance < maxProxyRecursionDepth →
        changed.getD distance 0 =
          votes.getD distance 0 +
            if depth ≤ distance then deltas.getD (distance - depth) 0
            else 0 := by
  unfold addProxiedDeltas at added
  have inside : ∀ entry ∈
      ((deltas.take (maxProxyRecursionDepth - depth)).zipIdx.reverse),
      entry.2 + depth < votes.length := by
    rintro ⟨_, index⟩ member
    have bound := (List.mem_zipIdx (List.mem_reverse.1 member)).2.1
    rw [List.length_take] at bound
    rw [sized]
    omega
  rcases getD_foldlM_addProxied inside added with ⟨length, grown⟩
  refine ⟨length.trans sized, ?_⟩
  intro distance bound
  rw [grown, List.map_reverse, List.sum_reverse]
  congr 1
  split
  case isTrue above =>
    have placed := sum_zipIdx_eq_getD
      (deltas.take (maxProxyRecursionDepth - depth)) (distance - depth) 0
    have same : ∀ index : Nat,
        index + depth = distance ↔ index = distance - depth + 0 := by
      omega
    simp only [same]
    rw [placed, List.getD_eq_getElem?_getD, List.getElem?_take,
      if_pos (by omega), List.getD_eq_getElem?_getD]
  case isFalse below =>
    refine List.sum_eq_zero ?_
    intro value member
    rcases List.mem_map.1 member with ⟨_, -, rfl⟩
    exact if_neg (by omega)

/-- One proxy carries more at some distances. -/
structure Loads (db : Database) (proxy : AccountName) (delta : Nat → Int)
    (after : Database) : Prop where
  touched : Agrees [.account .proxied] db after
  sized : db.VotesSized → after.VotesSized
  grown : db.VotesSized →
    ∀ distance, distance < maxProxyRecursionDepth → ∀ other,
      after.proxied distance other =
        db.proxied distance other +
          if proxy = other then delta distance else 0

theorem loads_modifyAccount
    {db after : Database}
    {name : AccountName}
    {delta : Nat → Int}
    (change : List Int → Except Fault (List Int))
    (grows : ∀ votes changed, votes.length = maxProxyRecursionDepth →
      change votes = .ok changed →
        changed.length = maxProxyRecursionDepth ∧
          ∀ distance, distance < maxProxyRecursionDepth →
            changed.getD distance 0 = votes.getD distance 0 + delta distance)
    (done : (db.modifyAccount name fun proxy => do
      let votes ← change proxy.proxiedVsfVotes
      pure { proxy with proxiedVsfVotes := votes }) = .ok after) :
    Loads db name delta after := by
  constructor
  case touched =>
    refine touches_modifyAccount db name [.proxied] ?_ after done
    intro account changed equal aspect outside
    simp only [bind_eq_ok_iff, pure_eq_ok_iff] at equal
    rcases equal with ⟨_, -, rfl⟩
    cases aspect <;> simp [AccountAspect.read] at outside ⊢
  case sized =>
    intro sized other account found
    rcases find_modifyAccount done with ⟨old, changed, there, made, rows⟩
    rw [rows other] at found
    split at found
    · cases found
      simp only [bind_eq_ok_iff, pure_eq_ok_iff] at made
      rcases made with ⟨votes, grown, rfl⟩
      exact (grows _ votes (sized name old there) grown).1
    · exact sized other account found
  case grown =>
    intro sized distance bound other
    refine held_modifyAccount done ?_ other
    intro account changed found made
    simp only [bind_eq_ok_iff, pure_eq_ok_iff] at made
    rcases made with ⟨votes, grown, rfl⟩
    exact (grows _ votes (sized name account found) grown).2 distance bound

/--
The way of some changes up a chain of proxies, from a depth on: a root counts
them for the witnesses it votes for, and a proxy carries each one at its
distance and passes them on, unless the chain is too long.
-/
inductive Climbs (deltas : Nat → Int) :
    Nat → Database → AccountName → Database → Prop
  | root {depth : Nat} {db after : Database} {name : AccountName}
      {account : AccountObject} :
      db.accounts.find? name = some account → account.proxy = "" →
        db.adjustWitnessVotes account.id
            (∑ place ∈ Finset.range (maxProxyRecursionDepth + 1 - depth),
              deltas place) = .ok after →
          Climbs deltas depth db name after
  | stopped {db : Database} {name : AccountName} {account : AccountObject} :
      db.accounts.find? name = some account → account.proxy ≠ "" →
        Climbs deltas maxProxyRecursionDepth db name db
  | passed {depth : Nat} {db middle after : Database} {name : AccountName}
      {account : AccountObject} :
      db.accounts.find? name = some account → account.proxy ≠ "" →
        Loads db account.proxy
            (fun distance =>
              if depth ≤ distance then deltas (distance - depth) else 0)
            middle →
          Climbs deltas (depth + 1) middle account.proxy after →
            Climbs deltas depth db name after

/-- The single change of an account's own shares. -/
def ownDelta (delta : Int) (place : Nat) : Int :=
  if place = 0 then delta else 0

theorem sum_ownDelta
    (delta : Int)
    (count : Nat) :
    ∑ place ∈ Finset.range (count + 1), ownDelta delta place = delta := by
  rw [Finset.sum_range_succ', Finset.sum_eq_zero]
  · exact Int.zero_add delta
  · exact fun place _ => rfl

/-- A sum in 64 bits which does not overflow is the sum. -/
theorem sum_of_foldlM_checked
    {values : List Int}
    {start total : Int}
    (added : values.foldlM (fun total value => checked (total + value)) start =
      .ok total) :
    total = start + values.sum := by
  induction values generalizing start with
  | nil =>
      cases added
      simp
  | cons value rest induction =>
      rw [List.foldlM_cons, bind_eq_ok_iff] at added
      rcases added with ⟨middle, first, added⟩
      rcases checked_eq_ok_iff.1 first with ⟨-, rfl⟩
      rw [induction added, List.sum_cons, Int.add_assoc]

theorem sum_take_eq
    (values : List Int)
    (count : Nat) :
    (values.take count).sum =
      ∑ place ∈ Finset.range count, values.getD place 0 := by
  induction values generalizing count with
  | nil => simp
  | cons value rest induction =>
      cases count with
      | zero => rfl
      | succ count =>
          rw [List.take_succ_cons, List.sum_cons, induction,
            Finset.sum_range_succ', Int.add_comm]
          simp

theorem climbs_adjustProxiedVotesFrom
    {db after : Database}
    {name : AccountName}
    (started : remaining ≤ maxProxyRecursionDepth)
    (done : adjustProxiedVotesFrom remaining db name delta = .ok after) :
    Climbs (ownDelta delta) (maxProxyRecursionDepth - remaining) db name
      after := by
  induction remaining generalizing db name with
  | zero =>
      unfold adjustProxiedVotesFrom at done
      rw [bind_eq_ok_iff] at done
      rcases done with ⟨account, got, done⟩
      split at done
      case isTrue root =>
        refine .root (find_of_getAccount got) root ?_
        rw [show maxProxyRecursionDepth + 1 - (maxProxyRecursionDepth - 0) =
          0 + 1 by omega, sum_ownDelta]
        exact done
      case isFalse proxied =>
        cases done
        exact .stopped (find_of_getAccount got) proxied
  | succ left induction =>
      unfold adjustProxiedVotesFrom at done
      rw [bind_eq_ok_iff] at done
      rcases done with ⟨account, got, done⟩
      split at done
      case isTrue root =>
        refine .root (find_of_getAccount got) root ?_
        rw [show maxProxyRecursionDepth + 1 -
          (maxProxyRecursionDepth - (left + 1)) = left + 1 + 1 by omega,
          sum_ownDelta]
        exact done
      case isFalse proxied =>
        rw [bind_eq_ok_iff] at done
        rcases done with ⟨middle, added, onward⟩
        have next := induction (by omega) onward
        rw [show maxProxyRecursionDepth - left =
          maxProxyRecursionDepth - (left + 1) + 1 by omega] at next
        refine .passed (find_of_getAccount got) proxied
          (loads_modifyAccount (fun votes => addProxied votes _ delta) ?_
            added) next
        intro votes changed length grown
        rcases getD_addProxied (by omega) grown with ⟨kept, grown⟩
        refine ⟨kept.trans length, ?_⟩
        intro distance _
        rw [grown, ownDelta]
        congr 1
        by_cases same : maxProxyRecursionDepth - (left + 1) = distance
        · rw [if_pos same, if_pos same.le, if_pos (by omega)]
        · rw [if_neg same]
          split
          · rw [if_neg (by omega)]
          · rfl

theorem climbs_adjustProxiedDeltasFrom
    {db after : Database}
    {name : AccountName}
    {deltas : List Int}
    (started : remaining ≤ maxProxyRecursionDepth)
    (done : adjustProxiedDeltasFrom remaining db name deltas = .ok after) :
    Climbs (fun place => deltas.getD place 0)
      (maxProxyRecursionDepth - remaining) db name after := by
  have summed : ∀ (count : Nat) (total : Int),
      (deltas.take count).reverse.foldlM
          (fun total delta => checked (total + delta)) 0 = .ok total →
        total = ∑ place ∈ Finset.range count, deltas.getD place 0 := by
    intro count total added
    rw [sum_of_foldlM_checked added, List.sum_reverse, sum_take_eq,
      Int.zero_add]
  induction remaining generalizing db name with
  | zero =>
      unfold adjustProxiedDeltasFrom at done
      rw [bind_eq_ok_iff] at done
      rcases done with ⟨account, got, done⟩
      dsimp only at done
      split at done
      case isTrue root =>
        rw [bind_eq_ok_iff] at done
        rcases done with ⟨total, added, tallied⟩
        refine .root (find_of_getAccount got) root ?_
        rw [← summed _ total added]
        exact tallied
      case isFalse proxied =>
        cases done
        exact .stopped (find_of_getAccount got) proxied
  | succ left induction =>
      unfold adjustProxiedDeltasFrom at done
      rw [bind_eq_ok_iff] at done
      rcases done with ⟨account, got, done⟩
      dsimp only at done
      split at done
      case isTrue root =>
        rw [bind_eq_ok_iff] at done
        rcases done with ⟨total, added, tallied⟩
        refine .root (find_of_getAccount got) root ?_
        rw [← summed _ total added]
        exact tallied
      case isFalse proxied =>
        rw [bind_eq_ok_iff] at done
        rcases done with ⟨middle, added, onward⟩
        have next := induction (by omega) onward
        rw [show maxProxyRecursionDepth - left =
          maxProxyRecursionDepth - (left + 1) + 1 by omega] at next
        exact .passed (find_of_getAccount got) proxied
          (loads_modifyAccount (addProxiedDeltas _ deltas)
            (fun votes changed length grown =>
              getD_addProxiedDeltas length grown) added) next

/-- The changes which reach an account from below, each at its distance. -/
def arriving (db : Database) (deltas : Nat → Int) (name other : AccountName)
    (count : Nat) : Int :=
  ∑ place ∈ Finset.range count,
    Forest.share db.proxyOf (deltas (count - 1 - place)) (place + 1) name other

theorem arriving_of_root
    {db : Database}
    {name : AccountName}
    (root : db.proxyOf name = none)
    (deltas : Nat → Int)
    (other : AccountName)
    (count : Nat) :
    db.arriving deltas name other count = 0 :=
  Finset.sum_eq_zero fun _ _ => Forest.share_of_root root _ _ _

/-- What reaches an account comes from the first proxy or passes through it. -/
theorem arriving_of_proxy
    {db : Database}
    {name proxy : AccountName}
    (next : db.proxyOf name = some proxy)
    (deltas : Nat → Int)
    (other : AccountName)
    (count : Nat) :
    db.arriving deltas name other (count + 1) =
      (if proxy = other then deltas count else 0) +
        db.arriving deltas proxy other count := by
  unfold arriving
  rw [Finset.sum_range_succ', Int.add_comm]
  simp only [Forest.share_of_parent next]
  rw [Nat.add_sub_cancel, Nat.sub_zero]
  congr 1
  · simp [Forest.share]
  · refine Finset.sum_congr rfl fun place _ => ?_
    rw [Nat.sub_sub, Nat.add_comm 1 place]

/-- A single change arrives at exactly one distance. -/
theorem arriving_ownDelta
    (db : Database)
    (delta : Int)
    (name other : AccountName)
    (count : Nat) :
    db.arriving (ownDelta delta) name other (count + 1) =
      Forest.share db.proxyOf delta (count + 1) name other := by
  unfold arriving
  rw [Finset.sum_range_succ, Nat.add_sub_cancel, Nat.sub_self,
    Finset.sum_eq_zero, Int.zero_add]
  · rfl
  · intro place below
    have positive : count - place ≠ 0 := by
      have := Finset.mem_range.1 below
      omega
    rw [ownDelta, if_neg positive, Forest.share_zero]

section Climbing

variable {deltas : Nat → Int} {depth : Nat} {db after : Database}
    {name : AccountName}

theorem Climbs.agrees
    (climbs : Climbs deltas depth db name after) :
    Agrees tallyFields db after := by
  induction climbs with
  | root _ _ tallied =>
      exact (touches_adjustWitnessVotes _ _ _ _ tallied).mono (by decide)
  | stopped => exact refl_of _ _
  | passed _ _ loads _ induction =>
      exact trans_of _ (loads.touched.mono (by decide)) induction

theorem Climbs.proxyOf_eq
    (climbs : Climbs deltas depth db name after) :
    after.proxyOf = db.proxyOf :=
  proxyOf_of_read_eq (climbs.agrees (.account .proxy) (by decide))

theorem Climbs.sized
    (climbs : Climbs deltas depth db name after)
    (sized : db.VotesSized) :
    after.VotesSized := by
  induction climbs with
  | root _ _ tallied =>
      exact sized_of_read_eq (touches_adjustWitnessVotes _ _ _ _ tallied
        (.account .proxied) (by decide)) sized
  | stopped => exact sized
  | passed _ _ loads _ induction => exact induction (loads.sized sized)

/-- Every account carries more by what reaches it from below. -/
theorem Climbs.proxied_eq
    (climbs : Climbs deltas depth db name after)
    (sized : db.VotesSized)
    {distance : Nat}
    (bound : distance < maxProxyRecursionDepth)
    (other : AccountName) :
    after.proxied distance other =
      db.proxied distance other +
        db.arriving deltas name other (distance + 1 - depth) := by
  induction climbs with
  | root found root tallied =>
      have proxy := proxyOf_of_find found
      rw [if_pos root] at proxy
      rw [proxied_of_read_eq (touches_adjustWitnessVotes _ _ _ _ tallied
        (.account .proxied) (by decide)), arriving_of_root proxy]
      exact (Int.add_zero _).symm
  | stopped =>
      rw [Nat.sub_eq_zero_of_le bound]
      exact (Int.add_zero _).symm
  | @passed depth db middle after name account found proxied loads _ induction =>
      have proxy := proxyOf_of_find found
      rw [if_neg proxied] at proxy
      have parents := proxyOf_of_read_eq
        (loads.touched (.account .proxy) (by decide))
      have arrives : middle.arriving deltas account.proxy other =
          db.arriving deltas account.proxy other := by
        funext count
        rw [arriving, arriving, parents]
      rw [induction (loads.sized sized), loads.grown sized distance bound,
        arrives, Int.add_assoc]
      congr 1
      by_cases above : depth ≤ distance
      · rw [if_pos above, show distance + 1 - depth =
          distance - depth + 1 by omega, arriving_of_proxy proxy,
          show distance + 1 - (depth + 1) = distance - depth by omega]
      · rw [if_neg above, ite_self,
          show distance + 1 - depth = 0 by omega,
          show distance + 1 - (depth + 1) = 0 by omega]
        rfl

end Climbing

end Database

end BMChain.State
