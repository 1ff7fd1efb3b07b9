import BMChain.App.SyncHandshake
import BMChain.Chain.CommonBranch

/-!
# The shape of a synopsis

A synopsis names blocks of the chain which ends in the reference point, at
growing heights, each at most half of the remaining way above the one before.
It is computed for every reference point which the node tells apart from its
own chain; above its head it may not.
-/

namespace BMChain.App

open BMChain.Protocol BMChain.Foundation BMChain.Chain

variable {Content Body Rest : Type}

variable {num : Nat} {ids : List (BlockId Content)}
    {forkDb : ForkDatabase Content Body}
    {older : List (SignedBlock Content Body)}

/-! ## Lineages -/

/-- The ids on the chain which ends in a block, the block itself in front. -/
def lineage : BlockId Content → List (BlockId Content)
  | .zero => []
  | .unknown num hash => [.unknown num hash]
  | .header content previous => .header content previous :: lineage previous

theorem lineage_headOf
    {main : List (SignedBlock Content Body)}
    (chain : IsChain main) :
    lineage (headOf main) = main.map SignedBlock.id := by
  induction main with
  | nil => rfl
  | cons block older induction =>
      rcases chain with ⟨link, -, chain⟩
      rw [List.map_cons, ← induction chain, ← link]
      rfl

/-- The ids up to a height are on the chain which ends there. -/
theorem idAt_mem_lineage
    {main older : List (SignedBlock Content Body)}
    (chain : IsChain main)
    (suffix : older <:+ main)
    (positive : 0 < num)
    (below : num ≤ older.length) :
    idAt main num ∈ lineage (headOf older) ∧ (idAt main num).num = num := by
  have olderChain := chain.suffix suffix
  rcases olderChain.exists_blockAt positive below with ⟨block, there⟩
  rcases mem_of_blockAt there with ⟨member, number⟩
  unfold idAt
  rw [chain.blockAt_suffix suffix below, there, lineage_headOf olderChain]
  exact ⟨List.mem_map_of_mem member, number⟩

theorem headOf_num
    {main : List (SignedBlock Content Body)}
    (chain : IsChain main) :
    (headOf main).num = main.length := by
  cases main with
  | nil => rfl
  | cons block older => exact chain.2.1

theorem idAt_length
    {main older : List (SignedBlock Content Body)}
    (chain : IsChain main)
    (suffix : older <:+ main)
    (filled : older ≠ []) :
    idAt main older.length = headOf older := by
  have olderChain := chain.suffix suffix
  unfold idAt
  rw [chain.blockAt_suffix suffix (Nat.le_refl _)]
  cases older with
  | nil => exact absurd rfl filled
  | cons block rest =>
      have there := olderChain.blockAt_mem List.mem_cons_self
      rw [olderChain.2.1] at there
      rw [List.length_cons, there]
      rfl

/-! ## The heights of a synopsis -/

/-- The sums which the loop computes from these heights have 32 bits. -/
structure Fits (low high after : Nat) : Prop where
  next : high + 1 < 2 ^ 32
  top : high + after < 2 ^ 32
  gap : high + after + 2 < 2 ^ 32 + low

/-- The heights which the loop of `get_blockchain_synopsis` visits. -/
def synopsisHeights (high trueHigh : Nat) : Nat → Nat → List Nat
  | 0, _ => []
  | rounds + 1, low =>
      low ::
        if nextLow trueHigh low ≤ high then
          synopsisHeights high trueHigh rounds (nextLow trueHigh low)
        else
          []

/-- Heights from `low` to at most `high`, in halving steps. -/
structure Halving (low high after : Nat) (heights : List Nat) : Prop where
  first : heights.head? = some low
  rising : heights.Pairwise (· < ·)
  inside : ∀ num ∈ heights, low ≤ num ∧ num ≤ high
  gaps : heights.IsChain fun lower upper =>
    upper - lower ≤ (high + after - lower + 1) / 2 + 1
  last : after = 0 → heights.getLast? = some high

theorem Fits.nextLow_eq
    {low high after num : Nat}
    (fits : Fits low high after)
    (above : low ≤ num)
    (below : num ≤ high) :
    nextLow (high + after) num = num + (high + after - num + 2) / 2 := by
  rcases fits with ⟨next, top, gap⟩
  unfold nextLow
  have distance : (high + after + 2 ^ 32 - num + 2) % 2 ^ 32 =
      high + after - num + 2 := by
    omega
  rw [distance]
  exact Nat.mod_eq_of_lt (by omega)

theorem halving_synopsisHeights
    {low high after num rounds : Nat}
    (fits : Fits low high after)
    (above : low ≤ num)
    (below : num ≤ high)
    (enough : high - num < rounds) :
    Halving num high after
      (synopsisHeights high (high + after) rounds num) := by
  induction rounds generalizing num with
  | zero => exact absurd enough (Nat.not_lt_zero _)
  | succ rounds induction =>
      have next := fits.nextLow_eq above below
      unfold synopsisHeights
      by_cases more : nextLow (high + after) num ≤ high
      case pos =>
        rw [if_pos more]
        have rest := induction (by omega) more (by omega)
        refine ⟨rfl, List.pairwise_cons.2 ⟨?_, rest.rising⟩, ?_, ?_, ?_⟩
        · intro other member
          have further := (rest.inside other member).1
          omega
        · rw [List.forall_mem_cons]
          refine ⟨⟨Nat.le_refl _, below⟩, fun other member => ?_⟩
          have further := rest.inside other member
          exact ⟨by omega, further.2⟩
        · cases heights : synopsisHeights high (high + after) rounds
            (nextLow (high + after) num) with
          | nil => exact .singleton num
          | cons upper others =>
              have first := rest.first
              rw [heights] at first
              have same : upper = nextLow (high + after) num :=
                Option.some.inj first
              refine .cons_cons ?_ (heights ▸ rest.gaps)
              rw [same, next]
              omega
        · intro none
          have last := rest.last none
          rw [List.getLast?_cons, last]
          rfl
      case neg =>
        rw [if_neg more]
        refine ⟨rfl, List.pairwise_singleton _ _, ?_, .singleton num, ?_⟩
        · intro other member
          rw [List.mem_singleton.1 member]
          exact ⟨Nat.le_refl _, below⟩
        · rintro rfl
          have reached : num = high := by omega
          rw [reached]
          rfl

/-! ## The ids of a synopsis -/

/-- The ids from a height up to the block `top`, as a synopsis has them. -/
structure SynopsisShape
    (low after : Nat)
    (top : BlockId Content)
    (ids : List (BlockId Content)) : Prop where
  onChain : ∀ id ∈ ids, id ∈ lineage top
  rising : ids.Pairwise fun lower upper => lower.num < upper.num
  first : ids.head?.map BlockId.num = some low
  gaps : ids.IsChain fun lower upper =>
    upper.num - lower.num ≤ (top.num + after - lower.num + 1) / 2 + 1
  last : after = 0 → ids.getLast? = some top

/-- What the ids at halving heights look like. -/
theorem Halving.shape
    {low after : Nat}
    {top : BlockId Content}
    (halving : Halving low top.num after (ids.map BlockId.num))
    (onChain : ∀ id ∈ ids, id ∈ lineage top)
    (reached : ∀ id ∈ ids, id.num = top.num → id = top) :
    SynopsisShape low after top ids := by
  rcases halving with ⟨first, rising, -, gaps, last⟩
  refine ⟨onChain, List.pairwise_map.1 rising, ?_, ?_, ?_⟩
  · rw [← List.head?_map]
    exact first
  · exact (List.isChain_map BlockId.num).1 gaps
  · intro none
    have number := last none
    rw [List.getLast?_map, Option.map_eq_some_iff] at number
    rcases number with ⟨id, isLast, number⟩
    rw [isLast, reached id (List.mem_of_getLast? isLast) number]

variable [DecidableEq Content]

section Loop

variable {db : Database Content Body (Summaries Content × Rest)}
    {range : SynopsisRange Content}

/-- The loop looks up the ids at the heights it visits. -/
theorem synopsisAlong_ok_iff
    {low after num rounds : Nat}
    (fits : Fits low range.highBlockNum after)
    (above : low ≤ num)
    (below : num ≤ range.highBlockNum)
    (enough : range.highBlockNum - num < rounds) :
    synopsisAlong db range (range.highBlockNum + after) rounds num =
        .ok ids ↔
      List.Forall₂ (fun height id => synopsisId db range height = .ok id)
        (synopsisHeights range.highBlockNum (range.highBlockNum + after)
          rounds num) ids := by
  induction rounds generalizing num ids with
  | zero => exact absurd enough (Nat.not_lt_zero _)
  | succ rounds induction =>
      have next := fits.nextLow_eq above below
      unfold synopsisAlong synopsisHeights
      rw [bind_eq_ok_iff, List.forall₂_cons_left_iff]
      by_cases more :
        nextLow (range.highBlockNum + after) num ≤ range.highBlockNum
      case pos =>
        rw [if_pos more]
        have further : low ≤ nextLow (range.highBlockNum + after) num := by
          omega
        have fewer : range.highBlockNum -
            nextLow (range.highBlockNum + after) num < rounds := by
          omega
        constructor
        · rintro ⟨id, found, produced⟩
          rw [if_pos more] at produced
          rcases (bind_eq_ok_iff _ _ _).1 produced with ⟨rest, along, done⟩
          cases done
          exact ⟨id, rest, found, (induction further more fewer).1 along, rfl⟩
        · rintro ⟨id, rest, found, along, rfl⟩
          refine ⟨id, found, ?_⟩
          rw [if_pos more, (induction further more fewer).2 along]
          rfl
      case neg =>
        rw [if_neg more]
        constructor
        · rintro ⟨id, found, produced⟩
          rw [if_neg more] at produced
          cases produced
          exact ⟨id, [], found, .nil, rfl⟩
        · rintro ⟨id, rest, found, along, rfl⟩
          cases along
          refine ⟨id, found, ?_⟩
          rw [if_neg more]
          rfl

end Loop

/-! ## Reference points -/

/-- A node whose lookups find its main chain, with a linked fork database. -/
structure MainChain
    (db : Database Content Body (Summaries Content × Rest))
    (main : List (SignedBlock Content Body)) : Prop where
  chain : IsChain main
  head : headOf main = db.chain.current.headBlockId
  height : db.chain.current.headBlockNum = main.length
  ids : ∀ num block, blockAt main num = some block →
    getBlockIdForNum db num = .ok block.id
  linked : db.forkDb.WellLinked fun _ => True
  settled : db.chain.current.lastIrreversibleBlockNum ≤ main.length

/--
A block of the fork database, on a branch which leaves the main chain above a
block that is not below the last irreversible one.
-/
structure OnFork
    (db : Database Content Body (Summaries Content × Rest))
    (main : List (SignedBlock Content Body))
    (reference : BlockId Content) : Prop where
  foreign : ¬ OnChain main reference
  meets : ∃ item headItem low mainLow,
    db.forkDb.fetchBlock reference = some item ∧
      db.forkDb.fetchBlock db.chain.current.headBlockId = some headItem ∧
        db.forkDb.OnChain item low ∧ db.forkDb.OnChain headItem mainLow ∧
          low.previousId = mainLow.previousId ∧
            db.chain.current.lastIrreversibleBlockNum ≤ low.previousId.num

/-- The reference points a peer may be at. -/
inductive ReferencePoint
    (db : Database Content Body (Summaries Content × Rest))
    (main : List (SignedBlock Content Body)) :
    BlockId Content → Prop
  | absent : ReferencePoint db main .zero
  | included
      {reference : BlockId Content}
      (on : OnChain main reference) :
      ReferencePoint db main reference
  | forked
      {reference : BlockId Content}
      (fork : OnFork db main reference) :
      ReferencePoint db main reference

/-- The block in which the chain of a synopsis ends: the head if none is given. -/
def synopsisTop
    (db : Database Content Body (Summaries Content × Rest))
    (reference : BlockId Content) :
    BlockId Content :=
  if reference = .zero then db.chain.current.headBlockId else reference

/-- The first height of a synopsis. -/
def synopsisBottom
    (db : Database Content Body (Summaries Content × Rest))
    (reference : BlockId Content) :
    Nat :=
  max 1
    (min db.chain.current.lastIrreversibleBlockNum
      (synopsisTop db reference).num)

/-- The node returns a synopsis of the right shape. -/
def Synopsized
    (db : Database Content Body (Summaries Content × Rest))
    (reference : BlockId Content)
    (after : Nat) : Prop :=
  ∃ ids, getBlockchainSynopsis db reference after = .ok ids ∧
    SynopsisShape (synopsisBottom db reference) after
      (synopsisTop db reference) ids

/--
The node tells a reference point from its own chain.  Above its head it finds
another block at that height, or it takes the point for a block of its chain
and still finds the ancestors of the point at the heights it visits.
-/
inductive ToldApart
    (db : Database Content Body (Summaries Content × Rest))
    (main : List (SignedBlock Content Body))
    (reference : BlockId Content)
    (after : Nat) : Prop
  | below (notAbove : reference.num ≤ main.length)
  | other
      {id : BlockId Content}
      (found : getBlockIdForNum db reference.num = .ok id)
      (different : id ≠ reference)
  | itself
      (found : getBlockIdForNum db reference.num = .ok reference)
      (ancestors : ∀ num ∈ synopsisHeights reference.num
          (reference.num + after) (reference.num + 1)
          (synopsisBottom db reference),
        ∃ id ∈ lineage reference, getBlockIdForNum db num = .ok id)

section Points

variable {db : Database Content Body (Summaries Content × Rest)}
    {main : List (SignedBlock Content Body)}
    {reference top : BlockId Content} {after : Nat}

/-- What is found for a number has this number. -/
theorem MainChain.found_num
    (own : MainChain db main)
    {id : BlockId Content}
    (found : getBlockIdForNum db num = .ok id) :
    id.num = num := by
  unfold getBlockIdForNum at found
  cases looked : db.findBlockIdForNum num with
  | error fault =>
      rw [looked] at found
      cases fault
      cases found
  | ok known =>
      rw [looked] at found
      dsimp only at found
      by_cases zero : known = .zero
      case pos =>
        rw [if_pos zero] at found
        cases found
      case neg =>
        rw [if_neg zero] at found
        cases found
        unfold Database.findBlockIdForNum at looked
        split at looked
        · cases looked
          exact absurd rfl zero
        · dsimp only at looked
          split at looked
          case isTrue same =>
            cases looked
            exact same
          case isFalse =>
            rcases (bind_eq_ok_iff _ _ _).1 looked with
              ⟨logged, read, looked⟩
            cases logged with
            | some block =>
                cases looked
                unfold Database.readBlockByNum at read
                split at read
                · split at read
                  · split at read
                    · rename_i same
                      cases read
                      exact same
                    · cases read
                  · cases read
                · cases read
            | none =>
                dsimp only at looked
                split at looked
                case h_1 item found =>
                  cases looked
                  exact ForkDatabase.fetchBlockOnMainBranchByNumber_num
                    own.linked found
                case h_2 =>
                  cases looked
                  exact absurd rfl zero

/-! ## Blocks of the main chain in the fork database -/

omit [DecidableEq Content] in
/-- The items behind the head are blocks of the main chain. -/
theorem onChain_suffix
    {item other : ForkItem Content Body}
    (chain : IsChain main)
    (filled : main ≠ [])
    (isHead : item.id = headOf main)
    (linked : LinkedChain (fun _ => True) item.chain)
    (onChain : forkDb.OnChain item other) :
    (∃ older, older <:+ main ∧ other.previousId = headOf older) ∧
      LinkedChain (fun _ => True) other.chain := by
  induction onChain with
  | refl =>
      cases main with
      | nil => exact absurd rfl filled
      | cons block older =>
          refine ⟨⟨older, List.suffix_cons block older, ?_⟩, linked⟩
          rw [← chain.1]
          exact SignedBlock.previous_eq_of_id_eq isHead
  | tail _ links induction =>
      rcases induction with ⟨⟨older, suffix, named⟩, linked⟩
      rcases ForkDatabase.lockPrev_linked linked links with
        ⟨further, same, -⟩
      refine ⟨?_, further⟩
      rw [named] at same
      cases older with
      | nil => cases same
      | cons block rest =>
          refine ⟨rest, (List.suffix_cons block rest).trans suffix, ?_⟩
          rw [← (chain.suffix suffix).1]
          exact (SignedBlock.previous_eq_of_id_eq same).symm

omit [DecidableEq Content] in
/-- The lineage of a path's top goes down the path and on below it. -/
theorem path_lineage
    {items : List (ForkItem Content Body)}
    {first last : ForkItem Content Body}
    (path : forkDb.Path items first last)
    (agree : forkDb.Agreeing first) :
    lineage first.id = items.map ForkItem.id ++ lineage last.previousId ∧
      (items.reverse.map ForkItem.id).map BlockId.num =
        List.range' last.num items.length ∧
        first.num + 1 = last.num + items.length := by
  induction items generalizing first with
  | nil => cases path.first
  | cons front rest induction =>
      have same : front = first := Option.some.inj path.first
      subst same
      cases rest with
      | nil =>
          have same : front = last := Option.some.inj path.last
          subst same
          exact ⟨rfl, rfl, rfl⟩
      | cons second rest =>
          have links : forkDb.Links front second :=
            (List.isChain_cons_cons.1 path.linked).1
          rcases agree.step links with ⟨named, number, older⟩
          rcases induction ⟨path.linked.tail, rfl, path.last⟩ older with
            ⟨lineages, numbers, top⟩
          have step : front.num + 1 =
              last.num + (front :: second :: rest).length := by
            rw [List.length_cons, number]
            omega
          refine ⟨?_, ?_, step⟩
          · have below : lineage front.id =
                front.id :: lineage front.previousId := rfl
            rw [below, named, lineages]
            rfl
          · have height : front.id.num = last.num + (second :: rest).length := by
              show front.num = _
              omega
            have split : List.range' last.num (second :: rest).length.succ =
                List.range' last.num (second :: rest).length ++
                  [front.id.num] := by
              rw [List.range'_concat, Nat.one_mul, height]
            rw [List.reverse_cons, List.map_append, List.map_append, numbers]
            exact split.symm

/-- What `get_block_ids_on_fork` finds, on top of the older part of the chain. -/
structure ForkRange
    (db : Database Content Body (Summaries Content × Rest))
    (main older : List (SignedBlock Content Body))
    (reference : BlockId Content)
    (branch : List (BlockId Content)) : Prop where
  ids : getBlockIdsOnFork db reference = .ok (branch, headOf older)
  suffix : older <:+ main
  settled : db.chain.current.lastIrreversibleBlockNum ≤ older.length
  first : branch.head? = some reference
  lineages : lineage reference = branch ++ lineage (headOf older)
  numbers : branch.reverse.map BlockId.num =
    List.range' (older.length + 1) branch.length
  top : reference.num = older.length + branch.length

theorem OnFork.range
    (own : MainChain db main)
    (filled : main ≠ [])
    (fork : OnFork db main reference) :
    ∃ older branch, ForkRange db main older reference branch := by
  rcases fork.meets with ⟨item, headItem, low, mainLow, foundItem, foundHead,
    chainItem, chainHead, common, settled⟩
  have agree := own.linked.pointersAgree
  rcases ForkDatabase.fetchBranchFrom_branchesMeet agree foundHead foundItem
    chainHead chainItem common.symm with
    ⟨firsts, seconds, lastFirst, lastSecond, branches, reached⟩
  rcases ForkDatabase.fetchBlock_spec foundHead with ⟨inHead, idHead⟩
  rcases ForkDatabase.fetchBlock_spec foundItem with ⟨inItem, rfl⟩
  have isHead : headItem.id = headOf main := by
    rw [idHead, own.head]
  have linkedHead := own.linked.index headItem inHead
  rcases onChain_suffix own.chain filled isHead linkedHead
    branches.firstPath.onChain with ⟨⟨older, suffix, named⟩, linkedLast⟩
  have linkedLow := (onChain_suffix own.chain filled isHead linkedHead
    chainHead).2
  have stepLast : lastFirst.num = lastFirst.previousId.num + 1 :=
    SignedBlock.blockNum_eq linkedLast.admissible.numbered
  have stepLow : mainLow.num = mainLow.previousId.num + 1 :=
    SignedBlock.blockNum_eq linkedLow.admissible.numbered
  have height := headOf_num (own.chain.suffix suffix)
  have level := ForkDatabase.num_of_previousId branches.base
  rcases path_lineage branches.secondPath (agree item inItem) with
    ⟨lineages, numbers, top⟩
  rw [named, height] at stepLast
  refine ⟨older, seconds.map ForkItem.id, ?_, suffix, ?_, ?_, ?_, ?_, ?_⟩
  · have fetched := branches.fetched
    rw [idHead] at fetched
    unfold getBlockIdsOnFork
    rw [fetched]
    dsimp only
    rw [branches.firstPath.last]
    dsimp only
    rw [named]
  · rw [common] at settled
    omega
  · rw [List.head?_map, branches.secondPath.first]
    rfl
  · rw [lineages, ← branches.base, named]
  · rw [← List.map_reverse, numbers, List.length_map, ← level, stepLast]
  · rw [List.length_map]
    show item.num = _
    omega

/-! ## The synopsis of a range -/

omit [DecidableEq Content] in
/-- Heights at which ids are found give a list of such ids. -/
theorem exists_forall₂
    {found : Nat → BlockId Content → Prop}
    {heights : List Nat}
    (each : ∀ num ∈ heights, ∃ id, found num id) :
    ∃ ids, List.Forall₂ found heights ids := by
  induction heights with
  | nil => exact ⟨[], .nil⟩
  | cons num heights induction =>
      rw [List.forall_mem_cons] at each
      rcases each with ⟨⟨id, here⟩, later⟩
      rcases induction later with ⟨ids, along⟩
      exact ⟨id :: ids, .cons here along⟩

omit [DecidableEq Content] in
theorem exists_of_forall₂
    {First Second : Type}
    {found : First → Second → Prop}
    {firsts : List First}
    {seconds : List Second}
    (along : List.Forall₂ found firsts seconds) :
    ∀ first ∈ firsts, ∃ second ∈ seconds, found first second := by
  induction along with
  | nil => exact List.forall_mem_nil _
  | cons here _ induction =>
      rw [List.forall_mem_cons]
      refine ⟨⟨_, List.mem_cons_self, here⟩, fun first member => ?_⟩
      rcases induction first member with ⟨second, isSecond, found⟩
      exact ⟨second, List.mem_cons_of_mem _ isSecond, found⟩

/-- A synopsis has its shape when every height visited finds an ancestor. -/
theorem synopsized_iff
    {range : SynopsisRange Content}
    (ranged : synopsisRange db reference = .ok (some range))
    (bottom : (if range.lowBlockNum = 0 then 1 else range.lowBlockNum) =
      synopsisBottom db reference)
    (high : range.highBlockNum = (synopsisTop db reference).num)
    (positive : 0 < (synopsisTop db reference).num)
    (fits : Fits (synopsisBottom db reference)
      (synopsisTop db reference).num after)
    (looked : ∀ num id, synopsisId db range num = .ok id →
      id.num = num ∧
        (num = (synopsisTop db reference).num →
          id = synopsisTop db reference)) :
    Synopsized db reference after ↔
      ∀ num ∈ synopsisHeights (synopsisTop db reference).num
          ((synopsisTop db reference).num + after)
          ((synopsisTop db reference).num + 1)
          (synopsisBottom db reference),
        ∃ id ∈ lineage (synopsisTop db reference),
          synopsisId db range num = .ok id := by
  have inside : synopsisBottom db reference ≤
      (synopsisTop db reference).num := by
    unfold synopsisBottom
    omega
  have unfolded : getBlockchainSynopsis db reference after =
      synopsisAlong db range (range.highBlockNum + after)
        (range.highBlockNum + 1) (synopsisBottom db reference) := by
    unfold getBlockchainSynopsis
    rw [ranged]
    dsimp only [bind, Except.bind]
    rw [bottom, high, Nat.mod_eq_of_lt fits.top]
  rw [← high] at inside fits
  have along (ids : List (BlockId Content)) :
      getBlockchainSynopsis db reference after = .ok ids ↔
        List.Forall₂ (fun height id => synopsisId db range height = .ok id)
          (synopsisHeights range.highBlockNum (range.highBlockNum + after)
            (range.highBlockNum + 1) (synopsisBottom db reference)) ids := by
    rw [unfolded]
    exact synopsisAlong_ok_iff fits (Nat.le_refl _) inside (by omega)
  have halving := halving_synopsisHeights fits (Nat.le_refl _) inside
    (Nat.lt_succ_of_le (Nat.sub_le _ _))
  unfold Synopsized
  rw [← high]
  generalize synopsisHeights range.highBlockNum (range.highBlockNum + after)
    (range.highBlockNum + 1) (synopsisBottom db reference) = heights
    at along halving
  constructor
  · rintro ⟨ids, produced, shape⟩ num member
    rcases exists_of_forall₂ ((along ids).1 produced) num member with
      ⟨id, isId, found⟩
    exact ⟨id, shape.onChain id isId, found⟩
  · intro each
    have pairs : ∀ num ∈ heights, ∃ id,
        id ∈ lineage (synopsisTop db reference) ∧
          synopsisId db range num = .ok id := each
    rcases exists_forall₂ pairs with ⟨ids, found⟩
    have back := exists_of_forall₂ found.flip
    have numbers : heights = ids.map BlockId.num := by
      rw [← List.forall₂_eq_eq_eq, List.forall₂_map_right_iff]
      exact found.imp fun num id both => (looked num id both.2).1.symm
    rw [numbers, high] at halving
    refine ⟨ids, (along ids).2 (found.imp fun _ _ both => both.2),
      halving.shape ?_ ?_⟩
    · intro id member
      rcases back id member with ⟨num, -, onChain, -⟩
      exact onChain
    · intro id member same
      rcases back id member with ⟨num, -, -, found⟩
      rcases looked num id found with ⟨number, reached⟩
      exact reached (number.symm.trans same)

/-! ## Reference points on the main chain -/

theorem MainChain.looksUp
    (own : MainChain db main)
    (positive : 0 < num)
    (below : num ≤ main.length) :
    getBlockIdForNum db num = .ok (idAt main num) := by
  rcases own.chain.exists_blockAt positive below with ⟨block, there⟩
  rw [own.ids num block there]
  unfold idAt
  rw [there]
  rfl

/-- Up to a block of the main chain the synopsis is made of its ancestors. -/
theorem MainChain.synopsized
    (own : MainChain db main)
    (low : Nat)
    (suffix : older <:+ main)
    (filled : older ≠ [])
    (isTop : synopsisTop db reference = headOf older)
    (ranged : synopsisRange db reference = .ok (some
      { lowBlockNum := low
        highBlockNum := older.length
        nonForkHighBlockNum := older.length
        forkHistory := [] }))
    (bottom : (if low = 0 then 1 else low) = synopsisBottom db reference)
    (fits : Fits (synopsisBottom db reference)
      (synopsisTop db reference).num after) :
    Synopsized db reference after := by
  have height : (synopsisTop db reference).num = older.length := by
    rw [isTop, headOf_num (own.chain.suffix suffix)]
  have positive := List.length_pos_of_ne_nil filled
  have within := suffix.length_le
  have inside : synopsisBottom db reference ≤ older.length := by
    unfold synopsisBottom
    omega
  refine (synopsized_iff ranged bottom height.symm (height ▸ positive) fits
    ?_).2 ?_
  · intro num id found
    unfold synopsisId at found
    dsimp only at found
    by_cases reached : num ≤ older.length
    case pos =>
      rw [if_pos reached] at found
      refine ⟨own.found_num found, fun same => ?_⟩
      rw [height] at same
      rw [same, own.looksUp positive within,
        idAt_length own.chain suffix filled] at found
      rw [isTop]
      exact (Except.ok.inj found).symm
    case neg =>
      rw [if_neg reached] at found
      cases found
  · intro num member
    rw [height] at member fits
    have bounds := (halving_synopsisHeights fits (Nat.le_refl _) inside
      (Nat.lt_succ_of_le (Nat.sub_le _ _))).inside num member
    have above : 0 < num := by
      have one : 1 ≤ synopsisBottom db reference := Nat.le_max_left _ _
      omega
    refine ⟨idAt main num, ?_, ?_⟩
    · rw [isTop]
      exact (idAt_mem_lineage own.chain suffix above bounds.2).1
    · unfold synopsisId
      dsimp only
      rw [if_pos bounds.2]
      exact own.looksUp above (Nat.le_trans bounds.2 within)

/-- Without a reference point the synopsis goes up to the head. -/
theorem MainChain.synopsized_absent
    (own : MainChain db main)
    (filled : main ≠ [])
    (fits : Fits (synopsisBottom db .zero)
      (synopsisTop db .zero).num after) :
    Synopsized db .zero after := by
  have isTop : synopsisTop db .zero = headOf main := by
    rw [own.head]
    exact if_pos rfl
  have positive := List.length_pos_of_ne_nil filled
  have settled := own.settled
  refine own.synopsized db.chain.current.lastIrreversibleBlockNum
    List.suffix_rfl filled isTop ?_ ?_ fits
  · unfold synopsisRange
    rw [own.height]
    dsimp only
    rw [if_neg fun different => different rfl, if_neg (by omega)]
  · unfold synopsisBottom
    rw [isTop, headOf_num own.chain]
    split <;> omega

/-- A reference point on the main chain ends the synopsis. -/
theorem MainChain.synopsized_included
    (own : MainChain db main)
    (on : OnChain main reference)
    (fits : Fits (synopsisBottom db reference)
      (synopsisTop db reference).num after) :
    Synopsized db reference after := by
  rcases List.mem_map.1 on with ⟨block, member, rfl⟩
  rcases List.append_of_mem member with ⟨newer, rest, split⟩
  have suffix : block :: rest <:+ main := ⟨newer, split.symm⟩
  have height : block.blockNum = (block :: rest).length :=
    (own.chain.suffix suffix).2.1
  have given : block.id ≠ .zero := by
    intro zero
    cases zero
  have isTop : synopsisTop db block.id = headOf (block :: rest) :=
    if_neg given
  have included : isIncludedBlock db block.id = .ok true := by
    unfold isIncludedBlock
    rw [SignedBlock.id_num, own.ids _ block (own.chain.blockAt_mem member)]
    exact congrArg Except.ok (decide_eq_true rfl)
  refine own.synopsized
    (min db.chain.current.lastIrreversibleBlockNum block.blockNum) suffix
    (List.cons_ne_nil _ _) isTop ?_ ?_ fits
  · unfold synopsisRange
    dsimp only
    rw [if_pos given, included, ← height]
    rfl
  · unfold synopsisBottom
    have positive := (own.chain.num_le member).1
    rw [isTop]
    show _ = max 1 (min _ block.blockNum)
    split <;> omega

/-! ## Reference points on forks -/

/-- A fork which is not taken for the main chain ends the synopsis. -/
theorem ForkRange.synopsized
    {branch : List (BlockId Content)}
    (forkRange : ForkRange db main older reference branch)
    (own : MainChain db main)
    (apart : isIncludedBlock db reference = .ok false)
    (fits : Fits (synopsisBottom db reference)
      (synopsisTop db reference).num after) :
    Synopsized db reference after := by
  rcases forkRange with ⟨ids, suffix, settled, first, lineages, numbers, top⟩
  have filled : 0 < branch.length := by
    cases branch with
    | nil => cases first
    | cons id rest => exact Nat.succ_pos _
  have given : reference ≠ .zero := by
    rintro rfl
    have none : 0 = older.length + branch.length := top
    omega
  have isTop : synopsisTop db reference = reference := if_neg given
  have within := suffix.length_le
  have ancestor := headOf_num (own.chain.suffix suffix)
  have ranged : synopsisRange db reference = .ok (some
      { lowBlockNum := db.chain.current.lastIrreversibleBlockNum
        highBlockNum := reference.num
        nonForkHighBlockNum := older.length
        forkHistory := branch.reverse }) := by
    have wrapped : (older.length + branch.length) % 2 ^ 32 = reference.num := by
      rw [← top]
      exact Nat.mod_eq_of_lt reference.num_lt
    unfold synopsisRange
    dsimp only
    rw [if_pos given, apart]
    dsimp only [bind, Except.bind, Bool.false_eq_true]
    rw [if_neg Bool.false_ne_true, ids]
    dsimp only
    rw [ancestor, if_neg (Nat.not_lt_of_le settled), wrapped]
    rfl
  have bottom : (if db.chain.current.lastIrreversibleBlockNum = 0 then 1
      else db.chain.current.lastIrreversibleBlockNum) =
        synopsisBottom db reference := by
    unfold synopsisBottom
    rw [isTop]
    split <;> omega
  have inside : synopsisBottom db reference ≤ reference.num := by
    unfold synopsisBottom
    rw [isTop]
    omega
  rw [isTop] at fits
  -- The ids above the ancestor are in the history, each at its number.
  have entry : ∀ place id, branch.reverse[place]? = some id →
      id.num = older.length + 1 + place ∧ id ∈ branch := by
    intro place id at_
    have number : (branch.reverse.map BlockId.num)[place]? = some id.num := by
      rw [List.getElem?_map, at_]
      rfl
    rw [numbers] at number
    rcases List.getElem?_eq_some_iff.1 number with ⟨below, same⟩
    rw [List.getElem_range', Nat.one_mul] at same
    exact ⟨same.symm, List.mem_reverse.1 (List.mem_of_getElem? at_)⟩
  refine (synopsized_iff ranged bottom (by rw [isTop]) (by rw [isTop]; omega)
    (by rw [isTop]; exact fits) ?_).2 ?_
  · intro num id found
    rw [isTop]
    unfold synopsisId at found
    dsimp only at found
    by_cases old : num ≤ older.length
    case pos =>
      rw [if_pos old] at found
      refine ⟨own.found_num found, fun same => ?_⟩
      omega
    case neg =>
      rw [if_neg old] at found
      cases at_ : branch.reverse[num - older.length - 1]? with
      | none =>
          rw [at_] at found
          cases found
      | some known =>
          rw [at_] at found
          cases found
          refine ⟨by have := (entry _ _ at_).1; omega, fun same => ?_⟩
          have place : num - older.length - 1 = branch.length - 1 := by omega
          rw [place, List.getElem?_reverse (by omega)] at at_
          have front : branch.length - 1 - (branch.length - 1) = 0 := by omega
          rw [front, ← List.head?_eq_getElem?, first] at at_
          exact (Option.some.inj at_).symm
  · rw [isTop]
    intro num member
    have bounds := (halving_synopsisHeights fits (Nat.le_refl _) inside
      (Nat.lt_succ_of_le (Nat.sub_le _ _))).inside num member
    have above : 0 < num := by
      have one : 1 ≤ synopsisBottom db reference := Nat.le_max_left _ _
      omega
    unfold synopsisId
    dsimp only
    by_cases old : num ≤ older.length
    case pos =>
      refine ⟨idAt main num, ?_, ?_⟩
      · rw [lineages]
        exact List.mem_append_right _
          (idAt_mem_lineage own.chain suffix above old).1
      · rw [if_pos old]
        exact own.looksUp above (Nat.le_trans old within)
    case neg =>
      have place : num - older.length - 1 < branch.reverse.length := by
        rw [List.length_reverse]
        omega
      have at_ := List.getElem?_eq_getElem place
      refine ⟨_, ?_, by rw [if_neg old, at_]⟩
      rw [lineages]
      exact List.mem_append_left _ (entry _ _ at_).2

/-- A fork above the head which is taken for the main chain. -/
theorem synopsized_iff_ancestors
    (own : MainChain db main)
    (given : reference ≠ .zero)
    (positive : 0 < reference.num)
    (found : getBlockIdForNum db reference.num = .ok reference)
    (fits : Fits (synopsisBottom db reference)
      (synopsisTop db reference).num after) :
    Synopsized db reference after ↔
      ∀ num ∈ synopsisHeights reference.num (reference.num + after)
          (reference.num + 1) (synopsisBottom db reference),
        ∃ id ∈ lineage reference, getBlockIdForNum db num = .ok id := by
  have isTop : synopsisTop db reference = reference := if_neg given
  have included : isIncludedBlock db reference = .ok true := by
    unfold isIncludedBlock
    rw [found]
    exact congrArg Except.ok (decide_eq_true rfl)
  have ranged : synopsisRange db reference = .ok (some
      { lowBlockNum :=
          min db.chain.current.lastIrreversibleBlockNum reference.num
        highBlockNum := reference.num
        nonForkHighBlockNum := reference.num
        forkHistory := [] }) := by
    unfold synopsisRange
    dsimp only
    rw [if_pos given, included]
    rfl
  have bottom :
      (if min db.chain.current.lastIrreversibleBlockNum reference.num = 0
        then 1
        else min db.chain.current.lastIrreversibleBlockNum reference.num) =
        synopsisBottom db reference := by
    unfold synopsisBottom
    rw [isTop]
    split <;> omega
  have inside : synopsisBottom db reference ≤ reference.num := by
    unfold synopsisBottom
    rw [isTop]
    omega
  rw [isTop] at fits
  rw [synopsized_iff ranged bottom (by rw [isTop]) (by rw [isTop]; exact positive)
    (by rw [isTop]; exact fits) ?_, isTop]
  · refine forall₂_congr fun num member => ?_
    have bounds := (halving_synopsisHeights fits (Nat.le_refl _) inside
      (Nat.lt_succ_of_le (Nat.sub_le _ _))).inside num member
    unfold synopsisId
    dsimp only
    rw [if_pos bounds.2]
  · rw [isTop]
    intro num id looked
    unfold synopsisId at looked
    dsimp only at looked
    split at looked
    case isTrue =>
      refine ⟨own.found_num looked, ?_⟩
      rintro rfl
      rw [found] at looked
      exact (Except.ok.inj looked).symm
    case isFalse => cases looked

/--
The node returns a synopsis of the right shape exactly for the reference
points which it tells from its own chain.
-/
theorem synopsis_shaped_iff
    (own : MainChain db main)
    (filled : main ≠ [])
    (point : ReferencePoint db main reference)
    (fits : Fits (synopsisBottom db reference)
      (synopsisTop db reference).num after) :
    Synopsized db reference after ↔ ToldApart db main reference after := by
  cases point with
  | absent =>
      exact ⟨fun _ => .below (Nat.zero_le _),
        fun _ => own.synopsized_absent filled fits⟩
  | included on =>
      exact ⟨fun _ => .below (on.num_le own.chain).2.1,
        fun _ => own.synopsized_included on fits⟩
  | forked fork =>
      rcases fork.range own filled with ⟨older, branch, forkRange⟩
      have positive : 0 < reference.num := by
        have top := forkRange.top
        have first := forkRange.first
        cases branch with
        | nil => cases first
        | cons id rest =>
            rw [List.length_cons] at top
            omega
      have given : reference ≠ .zero := by
        rintro rfl
        exact Nat.lt_irrefl 0 positive
      have apart : ∀ id, getBlockIdForNum db reference.num = .ok id →
          id ≠ reference → Synopsized db reference after := by
        intro id found different
        apply forkRange.synopsized own _ fits
        unfold isIncludedBlock
        rw [found]
        exact congrArg Except.ok (decide_eq_false different.symm)
      by_cases below : reference.num ≤ main.length
      case pos =>
        have found := own.looksUp positive below
        have onChain : OnChain main (idAt main reference.num) := by
          have inLineage := (idAt_mem_lineage own.chain List.suffix_rfl positive
            below).1
          rw [lineage_headOf own.chain] at inLineage
          exact inLineage
        refine ⟨fun _ => .below below, fun _ => apart _ found ?_⟩
        intro same
        rw [same] at onChain
        exact fork.foreign onChain
      case neg =>
        cases found : getBlockIdForNum db reference.num with
        | error fault =>
            have refused : ¬ Synopsized db reference after := by
              rintro ⟨ids, produced, -⟩
              unfold getBlockchainSynopsis synopsisRange isIncludedBlock
                at produced
              dsimp only at produced
              rw [if_pos given, found] at produced
              cases produced
            refine ⟨fun done => absurd done refused, ?_⟩
            rintro (notAbove | ⟨other, -⟩ | ⟨itself, -⟩)
            · exact absurd notAbove below
            · rw [found] at other
              cases other
            · rw [found] at itself
              cases itself
        | ok id =>
            by_cases same : id = reference
            case neg =>
              exact ⟨fun _ => .other found same, fun _ => apart id found same⟩
            case pos =>
              subst same
              rw [synopsized_iff_ancestors own given positive found fits]
              refine ⟨fun ancestors => .itself found ancestors, ?_⟩
              rintro (notAbove | ⟨other, different⟩ | ⟨-, ancestors⟩)
              · exact absurd notAbove below
              · rw [found] at other
                exact absurd (Except.ok.inj other).symm different
              · exact ancestors

end Points

/-! ## A fork above the head -/

instance decidableLinkedChain :
    (chain : List (Nat × SignedBlock Content Body)) →
      Decidable (LinkedChain (fun _ => True) chain)
  | [] => .isTrue trivial
  | [node] =>
      decidable_of_iff (node.2.blockNum ≠ 0)
        ⟨fun numbered => ⟨numbered, trivial⟩, Admissible.numbered⟩
  | node :: prev :: rest =>
      have := decidableLinkedChain (prev :: rest)
      decidable_of_iff
        (node.2.blockNum ≠ 0 ∧ node.2.previous = prev.2.id ∧
          LinkedChain (fun _ => True) (prev :: rest))
        ⟨fun ⟨numbered, link, older⟩ => ⟨⟨numbered, trivial⟩, link, older⟩,
          fun ⟨admissible, link, older⟩ =>
            ⟨admissible.numbered, link, older⟩⟩

/-- Three blocks on the first one. -/
def ownBlocks : List (SignedBlock Nat Bool) :=
  let second := sampleBlock firstBlock.id 1 true
  let third := sampleBlock second.id 1 true
  [second, third, sampleBlock third.id 1 true]

/-- The top of the chain of `ownBlocks`, and the block below it. -/
def ownTop : SignedBlock Nat Bool :=
  sampleBlock (sampleBlock (sampleBlock firstBlock.id 1 true).id 1 true).id 1
    true

/-- A block above the head, two blocks above the third block of the chain. -/
def aboveHead : SignedBlock Nat Bool :=
  sampleBlock (sampleBlock ownTop.previous 4 true).id 4 true

/--
After `ownBlocks`, a branch with a bad block is tried, and removed from there
on, but for a block beside it.  On this block a higher one cannot be reached
by a switch, so blocks beside it are kept above the head; a last bad block on
them resets the head of the fork database.
-/
def straySwitches : List (SignedBlock Nat Bool) :=
  let beside := sampleBlock firstBlock.id 2 true
  let bad := sampleBlock beside.id 2 false
  let orphan := sampleBlock bad.id 3 true
  let badNext := sampleBlock bad.id 2 true
  ownBlocks ++
    [beside, bad, orphan, badNext, sampleBlock badNext.id 2 true,
      sampleBlock orphan.id 3 true, sampleBlock ownTop.previous 4 true,
      aboveHead, sampleBlock aboveHead.id 4 false]

/-- The node after `straySwitches`. -/
def strayNode : Database Nat Bool (Summaries Nat × Unit) :=
  loggedOpening.toOpening.database.pushAll sampleStages.rules straySwitches

/-- The item of the node's fork database for a block. -/
def strayItem (block : SignedBlock Nat Bool) : ForkItem Nat Bool :=
  (strayNode.forkDb.fetchBlock block.id).getD ⟨0, block, []⟩

/-- The main chain of the node. -/
def strayMain : List (SignedBlock Nat Bool) :=
  ownBlocks.reverse ++ [firstBlock]

theorem mainChain_strayNode :
    MainChain strayNode strayMain := by
  have ids : ∀ block ∈ strayMain,
      getBlockIdForNum strayNode block.blockNum = .ok block.id := by
    decide +kernel
  refine ⟨?_, ?_, ?_, ?_, ⟨?_, ?_⟩, ?_⟩
  · refine ⟨?_, ?_, ?_, ?_, ?_, ?_, ?_, ?_, trivial⟩ <;> decide
  · decide +kernel
  · decide +kernel
  · intro num block there
    rcases mem_of_blockAt there with ⟨member, rfl⟩
    exact ids block member
  · decide +kernel
  · decide +kernel
  · decide +kernel

/-- The synopsis for the fork block at the height of the head. -/
theorem synopsis_shaped_beside_head :
    Synopsized strayNode (sampleBlock ownTop.previous 4 true).id 7 := by
  refine (synopsis_shaped_iff mainChain_strayNode ?_ ?_ ?_).2
    (.below (by decide +kernel))
  · exact List.cons_ne_nil _ _
  · refine .forked ⟨?_, ?_⟩
    · decide +kernel
    · exact ⟨strayItem (sampleBlock ownTop.previous 4 true), strayItem ownTop,
        strayItem (sampleBlock ownTop.previous 4 true), strayItem ownTop,
        by decide +kernel, by decide +kernel, .refl, .refl,
        by decide +kernel, by decide +kernel⟩
  · constructor <;> decide +kernel

/--
A block which the node knows, on a fork that leaves its chain one block below
the head, but with a higher number: there is no synopsis for it.
-/
theorem synopsis_misses_fork_above_head :
    MainChain strayNode strayMain ∧
      ReferencePoint strayNode strayMain aboveHead.id ∧
        isKnownBlock strayNode aboveHead.id = .ok true ∧
          getBlockchainSynopsis strayNode aboveHead.id 0 =
              .error .noSuchBlock ∧
            ¬ Synopsized strayNode aboveHead.id 0 := by
  have refused : getBlockchainSynopsis strayNode aboveHead.id 0 =
      .error .noSuchBlock := by
    decide +kernel
  have link : strayNode.forkDb.Links (strayItem aboveHead)
      (strayItem (sampleBlock ownTop.previous 4 true)) := by
    unfold ForkDatabase.Links
    decide +kernel
  refine ⟨mainChain_strayNode, .forked ⟨?_, ?_⟩, ?_, refused, ?_⟩
  · decide +kernel
  · exact ⟨strayItem aboveHead, strayItem ownTop,
      strayItem (sampleBlock ownTop.previous 4 true), strayItem ownTop,
      by decide +kernel, by decide +kernel, .single link, .refl,
      by decide +kernel, by decide +kernel⟩
  · decide +kernel
  · rintro ⟨ids, produced, -⟩
    rw [refused] at produced
    cases produced

end BMChain.App
