import BMChain.App.Synopsis
import BMChain.Chain.LookupRuns
import BMChain.Foundation.GuardedFold

/-!
# The handshake of two nodes

A node answers a synopsis with a run of its own chain, from the highest block
of the synopsis which is on its chain.  Blocks of its peer which it knows, but
has not adopted, do not mislead it as long as they are not above its head.
-/

namespace BMChain.App

open BMChain.Protocol BMChain.Foundation BMChain.Chain

variable {Content Body Rest : Type}

variable {ids synopsis : List (BlockId Content)} {limit : Nat}

variable {trueHigh low rounds : Nat} {range : SynopsisRange Content}

/-! ## Nodes with a chain -/

/-- `BMCHAIN_BLOCK_INTERVAL`. -/
def blockInterval : Nat := 3

/--
Every block of a chain is in a later slot than the block before it, as
`validate_block_header` demands; its timestamp has 32 bits.
-/
def Timed (timestamp : SignedBlock Content Body → Nat) :
    List (SignedBlock Content Body) → Prop
  | [] => True
  | block :: older =>
      timestamp block < 2 ^ 32 ∧
        (∀ last ∈ older.head?,
          timestamp last / blockInterval < timestamp block / blockInterval) ∧
        Timed timestamp older

theorem Timed.length_le
    {timestamp : SignedBlock Content Body → Nat}
    {block : SignedBlock Content Body}
    {older : List (SignedBlock Content Body)}
    (timed : Timed timestamp (block :: older)) :
    older.length ≤ timestamp block / blockInterval := by
  induction older generalizing block with
  | nil => exact Nat.zero_le _
  | cons last rest induction =>
      rcases timed with ⟨-, later, timed⟩
      have slots := later last rfl
      have below := induction timed
      rw [List.length_cons]
      exact Nat.lt_of_le_of_lt below slots

/-- A chain is shorter than the slots which the clock can count. -/
theorem Timed.short
    {timestamp : SignedBlock Content Body → Nat}
    {main : List (SignedBlock Content Body)}
    (timed : Timed timestamp main) :
    main.length < 2 ^ 31 := by
  cases main with
  | nil => exact Nat.two_pow_pos 31
  | cons block older =>
      have below := timed.length_le
      have clock := timed.1
      unfold blockInterval at below
      rw [List.length_cons]
      omega

variable [DecidableEq Content]

/--
A node with its chain: the numbers up to the head are looked up on the chain,
the numbers above the head are refused, and every block of the chain is in the
log, which holds the older part of the chain, or in the fork database.
-/
structure OwnChain
    (timestamp : SignedBlock Content Body → Nat)
    (db : Database Content Body (Summaries Content × Rest))
    (main : List (SignedBlock Content Body)) : Prop where
  chain : IsChain main
  timed : Timed timestamp main
  height : db.chain.current.headBlockNum = main.length
  ids : ∀ num block, blockAt main num = some block →
    getBlockIdForNum db num = .ok block.id
  above : ∀ num, main.length < num →
    ∃ fault, getBlockIdForNum db num = .error fault
  log : db.blockLog <:+ main
  held : ∀ block ∈ main,
    block ∈ db.blockLog ∨ ∃ item ∈ db.forkDb.index, item.data = block

/-- The id of a block of a chain. -/
def OnChain
    (main : List (SignedBlock Content Body))
    (id : BlockId Content) : Prop :=
  id ∈ main.map SignedBlock.id

instance
    (main : List (SignedBlock Content Body))
    (id : BlockId Content) :
    Decidable (OnChain main id) :=
  inferInstanceAs (Decidable (id ∈ main.map SignedBlock.id))

/-- The id at a height of a chain. -/
def idAt
    (main : List (SignedBlock Content Body))
    (num : Nat) :
    BlockId Content :=
  ((blockAt main num).map SignedBlock.id).getD .zero

section Nodes

variable {timestamp : SignedBlock Content Body → Nat}
    {db : Database Content Body (Summaries Content × Rest)}
    {main : List (SignedBlock Content Body)}
    {id : BlockId Content} {num : Nat}

/-! ## What the lookups say -/

omit [DecidableEq Content] in
theorem OnChain.num_le
    (chain : IsChain main)
    (on : OnChain main id) :
    0 < id.num ∧ id.num ≤ main.length ∧ idAt main id.num = id := by
  rcases List.mem_map.1 on with ⟨block, member, rfl⟩
  rcases chain.num_le member with ⟨positive, below⟩
  refine ⟨positive, below, ?_⟩
  unfold idAt
  rw [SignedBlock.id_num, chain.blockAt_mem member]
  rfl

theorem OwnChain.getBlockIdForNum_ok
    (own : OwnChain timestamp db main)
    (found : getBlockIdForNum db num = .ok id) :
    0 < num ∧ num ≤ main.length ∧ OnChain main id ∧ id.num = num := by
  have positive : 0 < num := by
    rcases Nat.eq_zero_or_pos num with rfl | positive
    · unfold getBlockIdForNum Database.findBlockIdForNum at found
      simp at found
    · exact positive
  have below : num ≤ main.length := by
    by_contra above
    rcases own.above num (Nat.lt_of_not_le above) with ⟨fault, refused⟩
    rw [found] at refused
    cases refused
  rcases own.chain.exists_blockAt positive below with ⟨block, there⟩
  have same := own.ids num block there
  rw [found] at same
  cases same
  rcases mem_of_blockAt there with ⟨member, number⟩
  exact ⟨positive, below, List.mem_map_of_mem member, number⟩

theorem OwnChain.getBlockIdForNum_eq
    (own : OwnChain timestamp db main)
    (positive : 0 < num)
    (below : num ≤ main.length) :
    getBlockIdForNum db num = .ok (idAt main num) := by
  rcases own.chain.exists_blockAt positive below with ⟨block, there⟩
  rw [own.ids num block there]
  unfold idAt
  rw [there]
  rfl

/-- The log is read without a fault, and finds its blocks. -/
theorem OwnChain.readBlockByNum
    (own : OwnChain timestamp db main) :
    db.readBlockByNum num =
      .ok (if 0 < num then blockAt db.blockLog num else none) := by
  have logged := own.chain.suffix own.log
  unfold Database.readBlockByNum
  rw [logged.logHeadNum]
  by_cases positive : 0 < num
  · rw [if_pos positive]
    by_cases inside : num ≤ db.blockLog.length
    · rw [if_pos ⟨positive, inside⟩, logged.getElem?_reverse positive]
      rcases logged.exists_blockAt positive inside with ⟨block, found⟩
      simp only [found]
      exact if_pos (mem_of_blockAt found).2
    · rw [if_neg fun both => inside both.2,
        logged.blockAt_above (Nat.lt_of_not_le inside)]
  · rw [if_neg positive, if_neg fun both => positive both.1]

section Own

variable (own : OwnChain timestamp db main)

include own

theorem OwnChain.isKnownBlock_total
    (id : BlockId Content) :
    ∃ known, isKnownBlock db id = .ok known := by
  unfold isKnownBlock
  rw [own.readBlockByNum]
  cases db.forkDb.fetchBlock id with
  | some item => exact ⟨true, rfl⟩
  | none =>
      cases (if 0 < id.num then blockAt db.blockLog id.num else none) with
      | none => exact ⟨false, rfl⟩
      | some block => exact ⟨_, rfl⟩

/-- A node knows the blocks of its chain. -/
theorem OwnChain.knows
    (on : OnChain main id) :
    isKnownBlock db id = .ok true := by
  rcases List.mem_map.1 on with ⟨block, member, rfl⟩
  have positive := (own.chain.num_le member).1
  unfold isKnownBlock
  cases fetched : db.forkDb.fetchBlock block.id with
  | some item => rfl
  | none =>
      rcases own.held block member with logged | ⟨item, inIndex, data⟩
      · have there := (own.chain.suffix own.log).blockAt_mem logged
        rw [own.readBlockByNum, SignedBlock.id_num, if_pos positive, there]
        exact congrArg Except.ok (decide_eq_true rfl)
      · unfold ForkDatabase.fetchBlock at fetched
        have missing := List.find?_eq_none.1 fetched item inIndex
        unfold ForkItem.id at missing
        rw [data] at missing
        simp at missing

/-- A block which is not above the head is included if it is on the chain. -/
theorem OwnChain.isIncludedBlock_eq
    (positive : 0 < id.num)
    (below : id.num ≤ main.length) :
    isIncludedBlock db id = .ok (decide (OnChain main id)) := by
  unfold isIncludedBlock
  rw [own.getBlockIdForNum_eq positive below]
  have same : id = idAt main id.num ↔ OnChain main id := by
    constructor
    · intro equal
      have found := own.getBlockIdForNum_eq positive below
      rw [equal]
      exact (own.getBlockIdForNum_ok found).2.2.1
    · intro on
      exact (on.num_le own.chain).2.2.symm
  show Except.ok (decide (id = idAt main id.num)) = _
  rw [decide_eq_decide.2 same]

/-! ## The search for the last known block -/

/-- The search stops at the first id which is on the chain. -/
theorem OwnChain.lastKnownBlockId_eq
    (positive : ∀ id ∈ ids, 0 < id.num)
    (reached : ∀ id ∈ ids, isKnownBlock db id = .ok true →
      id.num ≤ main.length) :
    lastKnownBlockId db ids =
      match ids.find? fun id => decide (OnChain main id) with
      | some id => .ok id
      | none => .error .peerIsOnAnUnreachableFork := by
  induction ids with
  | nil => rfl
  | cons id older induction =>
      rw [List.forall_mem_cons] at positive reached
      have further := induction positive.2 reached.2
      have notZero : id ≠ .zero := by
        rintro rfl
        exact Nat.lt_irrefl 0 positive.1
      rcases own.isKnownBlock_total id with ⟨known, knows⟩
      have unfolded : lastKnownBlockId db (id :: older) = (do
          let included ← if known then isIncludedBlock db id else pure false
          if included then return id else lastKnownBlockId db older) := by
        rw [lastKnownBlockId, if_neg notZero, knows]
        rfl
      rw [unfolded, List.find?_cons]
      by_cases on : OnChain main id
      · have all := own.knows on
        rw [knows] at all
        cases all
        rw [if_pos rfl, own.isIncludedBlock_eq positive.1
          (on.num_le own.chain).2.1, decide_eq_true on]
        rfl
      · rw [decide_eq_false on]
        cases known with
        | false => exact further
        | true =>
            rw [if_pos rfl, own.isIncludedBlock_eq positive.1
              (reached.1 knows), decide_eq_false on]
            exact further

/-! ## The run of ids -/

theorem OwnChain.blockIdsAlong_eq
    {rounds room : Nat}
    (positive : 0 < num)
    (top : num ≤ main.length + 1)
    (enough : room < rounds) :
    blockIdsAlong db rounds num room =
      .ok ((List.range' num (min room (main.length + 1 - num))).map
        (idAt main)) := by
  have short := own.timed.short
  induction rounds generalizing num room with
  | zero => exact absurd enough (Nat.not_lt_zero _)
  | succ rounds induction =>
      unfold blockIdsAlong
      rw [own.height]
      by_cases more : num ≤ main.length ∧ 0 < room
      · rw [if_pos more, if_pos positive,
          own.getBlockIdForNum_eq positive more.1]
        have wrapped : (num + 1) % 2 ^ 32 = num + 1 :=
          Nat.mod_eq_of_lt (by omega)
        have count : min room (main.length + 1 - num) =
            min (room - 1) (main.length + 1 - (num + 1)) + 1 := by
          omega
        rw [wrapped, count, List.range'_succ, List.map_cons]
        show (do
          let rest ← blockIdsAlong db rounds (num + 1) (room - 1)
          return idAt main num :: rest) = _
        rw [induction (Nat.succ_pos _) (by omega) (by omega)]
        rfl
      · have none : min room (main.length + 1 - num) = 0 := by
          omega
        rw [if_neg more, none]
        rfl

end Own

/-! ## The synopsis -/

/-- One round of the loop: it is the last one, or there is another. -/
theorem synopsisAlong_succ
    (produced : synopsisAlong db range trueHigh (rounds + 1) low = .ok ids) :
    ∃ id, synopsisId db range low = .ok id ∧
      (ids = [id] ∧ ¬ nextLow trueHigh low ≤ range.highBlockNum ∨
        nextLow trueHigh low ≤ range.highBlockNum ∧
          ∃ rest, ids = id :: rest ∧
            synopsisAlong db range trueHigh rounds (nextLow trueHigh low) =
              .ok rest) := by
  unfold synopsisAlong at produced
  rcases (bind_eq_ok_iff _ _ _).1 produced with ⟨id, found, produced⟩
  refine ⟨id, found, ?_⟩
  by_cases within : nextLow trueHigh low ≤ range.highBlockNum
  · rw [if_pos within] at produced
    rcases (bind_eq_ok_iff _ _ _).1 produced with ⟨rest, deeper, done⟩
    cases done
    exact .inr ⟨within, rest, rfl, deeper⟩
  · rw [if_neg within] at produced
    cases produced
    exact .inl ⟨rfl, within⟩

/-- Without progress there is no last round. -/
theorem synopsisAlong_stuck
    (stuck : nextLow trueHigh low = low)
    (below : low ≤ range.highBlockNum)
    (rounds : Nat)
    (ids : List (BlockId Content)) :
    synopsisAlong db range trueHigh rounds low ≠ .ok ids := by
  induction rounds generalizing ids with
  | zero =>
      intro done
      cases done
  | succ rounds induction =>
      intro done
      rcases synopsisAlong_succ done with
        ⟨id, -, ⟨-, last⟩ | ⟨-, rest, -, deeper⟩⟩
      · rw [stuck] at last
        exact last below
      · rw [stuck] at deeper
        exact induction rest deeper

/-- The next height is not below the last one. -/
theorem nextLow_ge
    (small : low < 2 ^ 31) :
    low ≤ nextLow trueHigh low := by
  unfold nextLow
  generalize trueHigh + 2 ^ 32 - low + 2 = gap
  have wrapped : gap % 2 ^ 32 < 2 ^ 32 := Nat.mod_lt _ (Nat.two_pow_pos 32)
  generalize gap % 2 ^ 32 = gap at wrapped
  omega

/-- A synopsis goes up along the chain. -/
theorem OwnChain.synopsisAlong_rises
    (own : OwnChain timestamp db main)
    (high : range.highBlockNum = main.length)
    (nonFork : range.nonForkHighBlockNum = main.length)
    (history : range.forkHistory = [])
    (produced : synopsisAlong db range trueHigh rounds low = .ok ids) :
    ids ≠ [] ∧
      ids.Pairwise (fun first second => first.num < second.num) ∧
      ∀ id ∈ ids, low ≤ id.num ∧ OnChain main id := by
  induction rounds generalizing low ids with
  | zero => cases produced
  | succ rounds induction =>
      rcases synopsisAlong_succ produced with ⟨id, found, next⟩
      have looked : getBlockIdForNum db low = .ok id := by
        unfold synopsisId at found
        rw [history] at found
        split at found
        case isTrue => exact found
        case isFalse => cases found
      rcases own.getBlockIdForNum_ok looked with
        ⟨positive, below, on, number⟩
      rcases next with ⟨rfl, -⟩ | ⟨within, rest, rfl, deeper⟩
      · refine ⟨List.cons_ne_nil _ _, List.pairwise_singleton _ _, ?_⟩
        intro other member
        rw [List.mem_singleton.1 member]
        exact ⟨Nat.le_of_eq number.symm, on⟩
      · have short := own.timed.short
        have ge : low ≤ nextLow trueHigh low := nextLow_ge (by omega)
        have goesUp : low < nextLow trueHigh low := by
          rcases Nat.eq_or_lt_of_le ge with same | less
          · rw [← same] at deeper
            exact absurd deeper
              (synopsisAlong_stuck same.symm (high ▸ below) rounds rest)
          · exact less
        rcases induction deeper with ⟨-, rises, later⟩
        refine ⟨List.cons_ne_nil _ _, List.pairwise_cons.2 ⟨?_, rises⟩, ?_⟩
        · intro other member
          have after := (later other member).1
          omega
        · intro other member
          rcases List.mem_cons.1 member with rfl | member
          · exact ⟨Nat.le_of_eq number.symm, on⟩
          · rcases later other member with ⟨after, onToo⟩
            exact ⟨by omega, onToo⟩

theorem OwnChain.synopsis_rises
    (own : OwnChain timestamp db main)
    (nonEmpty : main ≠ [])
    {after : Nat}
    (produced : getBlockchainSynopsis db .zero after = .ok ids) :
    ids ≠ [] ∧
      ids.Pairwise (fun first second => first.num < second.num) ∧
      ∀ id ∈ ids, OnChain main id := by
  have started : db.chain.current.headBlockNum ≠ 0 := by
    rw [own.height]
    exact fun empty => nonEmpty (List.length_eq_zero_iff.1 empty)
  unfold getBlockchainSynopsis synopsisRange at produced
  dsimp only at produced
  rw [if_neg (not_not.2 rfl), if_neg started] at produced
  rcases own.synopsisAlong_rises own.height own.height rfl produced with
    ⟨filled, rises, on⟩
  exact ⟨filled, rises, fun id member => (on id member).2⟩

/-! ## The answer -/

omit [DecidableEq Content] in
/-- The last id of a rising list which meets a condition is the highest. -/
theorem highest_of_find?_reverse
    {condition : BlockId Content → Bool}
    (rises : ids.Pairwise fun first second => first.num < second.num)
    (found : ids.reverse.find? condition = some id) :
    ∀ other ∈ ids, condition other = true → other.num ≤ id.num := by
  rcases List.find?_eq_some_iff_append.1 found with
    ⟨-, newer, older, split, skipped⟩
  have order : ids = older.reverse ++ id :: newer.reverse := by
    rw [← List.reverse_reverse ids, split]
    simp
  intro other member meets
  rw [order] at member rises
  rcases List.mem_append.1 member with before | after
  · rw [List.pairwise_append] at rises
    exact Nat.le_of_lt (rises.2.2 other before id List.mem_cons_self)
  · rcases List.mem_cons.1 after with rfl | after
    · exact Nat.le_refl _
    · have fails := skipped other (List.mem_reverse.1 after)
      rw [meets] at fails
      cases fails

omit [DecidableEq Content] in
/-- The blocks of a chain above one of its blocks. -/
theorem IsChain.length_filter_above
    (chain : IsChain main)
    (num : Nat) :
    (main.filter fun block => decide (num < block.blockNum)).length =
      main.length - num := by
  induction main with
  | nil => exact (Nat.zero_sub num).symm
  | cons block older induction =>
      rcases chain with ⟨-, number, chain⟩
      rw [List.filter_cons, List.length_cons]
      by_cases above : num < block.blockNum
      · rw [if_pos (decide_eq_true above), List.length_cons,
          induction chain]
        omega
      · rw [if_neg (by simpa using above), induction chain]
        omega

/--
An answer: a run of the chain `main`, from the highest block of the synopsis
on it, with at most `limit` ids, and the number of blocks above the run.
-/
structure Answers
    (peer main : List (SignedBlock Content Body))
    (synopsis : List (BlockId Content))
    (limit : Nat)
    (reply : List (BlockId Content) × Nat)
    (start : BlockId Content) : Prop where
  asked : start ∈ synopsis
  onPeer : OnChain peer start
  onMain : OnChain main start
  highest : ∀ other ∈ synopsis, OnChain main other → other.num ≤ start.num
  first : reply.1.head? = some start
  length : reply.1.length = min limit (main.length - start.num + 1)
  consecutive : ∀ place id, reply.1[place]? = some id →
    (blockAt main (start.num + place)).map SignedBlock.id = some id
  remaining : ∀ last ∈ reply.1.getLast?,
    reply.2 =
      (main.filter fun block => decide (last.num < block.blockNum)).length

/-- A synopsis with a first block is searched. -/
theorem getBlockIds_of_started
    (started : db.chain.current.headBlockNum ≠ 0)
    (nonEmpty : synopsis ≠ [])
    (positive : ∀ id ∈ synopsis, 0 < id.num) :
    getBlockIds db synopsis limit = (do
      let last ← lastKnownBlockId db synopsis.reverse
      let ids ← blockIdsAlong db (2 * limit + 2) last.num limit
      match ids.getLast? with
      | none => return (ids, 0)
      | some top => return (ids,
          if top.num < db.chain.current.headBlockNum then
            db.chain.current.headBlockNum - top.num else 0)) := by
  have notEmpty : ¬ (synopsis = [] ∨ synopsis = [.zero]) := by
    rintro (rfl | rfl)
    · exact nonEmpty rfl
    · exact Nat.lt_irrefl 0 (positive .zero (List.mem_singleton_self _))
  unfold getBlockIds
  dsimp only
  refine (if_neg started).trans ((if_neg notEmpty).trans ?_)
  rfl

/-- The answer from a block of the chain on. -/
theorem OwnChain.reply
    (own : OwnChain timestamp db main)
    {peer : List (SignedBlock Content Body)}
    {start : BlockId Content}
    (positive : 0 < limit)
    (numbered : ∀ id ∈ synopsis, 0 < id.num)
    (last : lastKnownBlockId db synopsis.reverse = .ok start)
    (asked : start ∈ synopsis)
    (onPeer : OnChain peer start)
    (onMain : OnChain main start)
    (highest : ∀ other ∈ synopsis, OnChain main other →
      other.num ≤ start.num) :
    ∃ reply, getBlockIds db synopsis limit = .ok reply ∧
      Answers peer main synopsis limit reply start := by
  rcases onMain.num_le own.chain with ⟨above, below, there⟩
  have started : db.chain.current.headBlockNum ≠ 0 := by
    rw [own.height]
    omega
  have ids := own.blockIdsAlong_eq above (by omega)
    (show limit < 2 * limit + 2 by omega)
  have count : min limit (main.length + 1 - start.num) =
      min limit (main.length - start.num + 1) := by
    omega
  rw [count] at ids
  have entry : ∀ place id,
      ((List.range' start.num (min limit (main.length - start.num + 1))).map
        (idAt main))[place]? = some id →
      place < min limit (main.length - start.num + 1) ∧
        (blockAt main (start.num + place)).map SignedBlock.id = some id := by
    intro place id at_
    rw [List.getElem?_map, Option.map_eq_some_iff] at at_
    rcases at_ with ⟨num, found, rfl⟩
    rcases List.getElem?_eq_some_iff.1 found with ⟨inside, number⟩
    rw [List.length_range'] at inside
    rw [List.getElem_range', Nat.one_mul] at number
    subst number
    refine ⟨inside, ?_⟩
    have within : start.num + place ≤ main.length := by omega
    rcases own.chain.exists_blockAt (Nat.add_pos_left above place) within with
      ⟨block, there⟩
    unfold idAt
    rw [there]
    rfl
  generalize runEq : (List.range' start.num
    (min limit (main.length - start.num + 1))).map (idAt main) = run
    at ids entry
  have length : run.length = min limit (main.length - start.num + 1) := by
    rw [← runEq, List.length_map, List.length_range']
  have first : run.head? = some start := by
    have more : min limit (main.length - start.num + 1) =
        min limit (main.length - start.num + 1) - 1 + 1 := by
      omega
    rw [← runEq, more, List.range'_succ, List.map_cons, there]
    rfl
  have unfolded : getBlockIds db synopsis limit = (do
      match run.getLast? with
      | none => return (run, 0)
      | some top => return (run, if top.num < main.length then
          main.length - top.num else 0)) := by
    rw [getBlockIds_of_started started (List.ne_nil_of_mem asked) numbered,
      last]
    dsimp only [bind, Except.bind]
    rw [ids, own.height]
  cases top : run.getLast? with
  | none =>
      rw [List.getLast?_eq_none_iff.1 top] at first
      cases first
  | some highestId =>
      rw [top] at unfolded
      refine ⟨_, unfolded, asked, onPeer, onMain, highest, first, length,
        fun place id at_ => (entry place id at_).2, ?_⟩
      intro last isLast
      have same : highestId = last := Option.some.inj (top.symm.trans isLast)
      rw [IsChain.length_filter_above own.chain, same]
      dsimp only
      split
      · rfl
      · omega

/--
A node answers a synopsis of its peer with a run of its chain from the highest
block of the synopsis on, or it finds none of these blocks on its chain.
-/
theorem sync_handshake
    {timestamp : SignedBlock Content Body → Nat}
    {a b : Database Content Body (Summaries Content × Rest)}
    {mainA mainB : List (SignedBlock Content Body)}
    (ownA : OwnChain timestamp a mainA)
    (ownB : OwnChain timestamp b mainB)
    (nonEmptyA : mainA ≠ [])
    (nonEmptyB : mainB ≠ [])
    (known : ∀ block ∈ mainA, isKnownBlock b block.id = .ok true →
      block.blockNum ≤ mainB.length)
    {after limit : Nat}
    {synopsis : List (BlockId Content)}
    (produced : getBlockchainSynopsis a .zero after = .ok synopsis)
    (positive : 0 < limit) :
    (getBlockIds b synopsis limit = .error .peerIsOnAnUnreachableFork ↔
      ∀ id ∈ synopsis, ¬ OnChain mainB id) ∧
    ((∃ id ∈ synopsis, OnChain mainB id) →
      ∃ reply start, getBlockIds b synopsis limit = .ok reply ∧
        Answers mainA mainB synopsis limit reply start) := by
  rcases ownA.synopsis_rises nonEmptyA produced with ⟨filled, rises, onA⟩
  have numbered : ∀ id ∈ synopsis, 0 < id.num := fun id member =>
    ((onA id member).num_le ownA.chain).1
  have started : b.chain.current.headBlockNum ≠ 0 := by
    rw [ownB.height]
    exact fun empty => nonEmptyB (List.length_eq_zero_iff.1 empty)
  have search : lastKnownBlockId b synopsis.reverse = _ :=
    ownB.lastKnownBlockId_eq
    (fun id member => numbered id (List.mem_reverse.1 member))
    (fun id member knows => by
      rcases List.mem_map.1 (onA id (List.mem_reverse.1 member)) with
        ⟨block, inA, rfl⟩
      exact known block inA knows)
  cases found : synopsis.reverse.find?
      fun id => decide (OnChain mainB id) with
  | none =>
      rw [found] at search
      have apart : ∀ id ∈ synopsis, ¬ OnChain mainB id := by
        intro id member on
        have fails := List.find?_eq_none.1 found id
          (List.mem_reverse.2 member)
        exact fails (decide_eq_true on)
      refine ⟨⟨fun _ => apart, fun _ => ?_⟩, ?_⟩
      · rw [getBlockIds_of_started started filled numbered, search]
        rfl
      · rintro ⟨id, member, on⟩
        exact absurd on (apart id member)
  | some start =>
      rw [found] at search
      have asked := List.mem_reverse.1 (List.mem_of_find?_eq_some found)
      have meets := List.find?_some found
      have on : OnChain mainB start := of_decide_eq_true meets
      rcases ownB.reply positive numbered search asked (onA start asked) on
        (fun other member onToo => highest_of_find?_reverse rises found other
          member (decide_eq_true onToo)) with ⟨reply, answered, answers⟩
      refine ⟨⟨?_, ?_⟩, fun _ => ⟨reply, start, answered, answers⟩⟩
      · intro refused
        rw [answered] at refused
        cases refused
      · intro apart
        exact absurd on (apart start asked)

/-! ## Nodes of the chain -/

/-- A database on one chain is a node with this chain. -/
theorem ownChain_of_oneChain
    (one : OneChain main db)
    (timed : Timed timestamp main) :
    OwnChain timestamp db main := by
  have looks := one.looksUp
  refine ⟨one.chain, timed, one.height, ?_, ?_, one.shelved.older, ?_⟩
  · intro num block there
    rcases mem_of_blockAt there with ⟨member, number⟩
    have positive := (one.chain.num_le member).1
    unfold getBlockIdForNum
    rw [looks.ids num (number ▸ positive), there]
    exact if_neg (by simp [SignedBlock.id])
  · intro num above
    refine ⟨.noSuchBlock, ?_⟩
    unfold getBlockIdForNum
    rw [looks.ids num (Nat.zero_lt_of_lt above),
      one.chain.blockAt_above above]
    exact if_pos rfl
  · intro block member
    have there := one.chain.blockAt_mem member
    by_cases logged : block.blockNum ≤ db.blockLog.length
    · rw [one.chain.blockAt_suffix one.shelved.older logged] at there
      exact .inl (mem_of_blockAt there).1
    · rcases one.shelved.recent block.blockNum (Nat.lt_of_not_le logged)
        (one.chain.num_le member).2 with ⟨item, single, found⟩
      rw [there] at found
      refine .inr ⟨item, ?_, (Option.some.inj found).symm⟩
      exact (mem_fetchBlockByNumber.1
        (single ▸ List.mem_singleton_self item)).1

end Nodes

/-! ## Two nodes on different blocks -/

/-- A node which has adopted a block on the first one. -/
def nodeWith (block : SignedBlock Nat Bool) :
    Database Nat Bool (Summaries Nat × Unit) :=
  (loggedOpening.toOpening.database.pushBlock sampleStages.rules block).1

/-- The timestamp of a sample block. -/
def sampleTimestamp (block : SignedBlock Nat Bool) : Nat :=
  block.content * blockInterval

theorem ownChain_nodeWith
    {block : SignedBlock Nat Bool}
    (link : block.previous = firstBlock.id)
    (adopted : (nodeWith block).chain.current.headBlockId ≠ firstBlock.id)
    (later : 0 < block.content)
    (clock : block.content < 1000) :
    OwnChain sampleTimestamp (nodeWith block) [block, firstBlock] := by
  have one : OneChain (chainAfter sampleStages.rules
      loggedOpening.toOpening.database block loggedOpening.blockLog)
      (nodeWith block) :=
    (oneChain_opening loggedOpening).push fun _ _ _ => .inl link
  have grown : chainAfter sampleStages.rules
      loggedOpening.toOpening.database block loggedOpening.blockLog =
        [block, firstBlock] := if_neg adopted
  rw [grown] at one
  refine ownChain_of_oneChain one ⟨?_, ?_, ?_, ?_, trivial⟩
  · unfold sampleTimestamp blockInterval
    omega
  · rintro last ⟨⟩
    unfold sampleTimestamp blockInterval
    show 0 * 3 / 3 < block.content * 3 / 3
    omega
  · decide
  · rintro last ⟨⟩

/-- The synopsis of one node reaches the other at the first block. -/
theorem sync_handshake_beside :
    (getBlockIds (nodeWith (sampleBlock firstBlock.id 1 true))
        [firstBlock.id, (sampleBlock firstBlock.id 2 true).id] 10 =
          .error .peerIsOnAnUnreachableFork ↔
      ∀ id ∈ [firstBlock.id, (sampleBlock firstBlock.id 2 true).id],
        ¬ OnChain [sampleBlock firstBlock.id 1 true, firstBlock] id) ∧
    ((∃ id ∈ [firstBlock.id, (sampleBlock firstBlock.id 2 true).id],
        OnChain [sampleBlock firstBlock.id 1 true, firstBlock] id) →
      ∃ reply start,
        getBlockIds (nodeWith (sampleBlock firstBlock.id 1 true))
            [firstBlock.id, (sampleBlock firstBlock.id 2 true).id] 10 =
          .ok reply ∧
        Answers [sampleBlock firstBlock.id 2 true, firstBlock]
          [sampleBlock firstBlock.id 1 true, firstBlock]
          [firstBlock.id, (sampleBlock firstBlock.id 2 true).id] 10
          reply start) := by
  have ownA : OwnChain sampleTimestamp
      (nodeWith (sampleBlock firstBlock.id 2 true)) _ :=
    ownChain_nodeWith rfl (by decide +kernel) (by decide) (by decide)
  have ownB : OwnChain sampleTimestamp
      (nodeWith (sampleBlock firstBlock.id 1 true)) _ :=
    ownChain_nodeWith rfl (by decide +kernel) (by decide) (by decide)
  have produced : getBlockchainSynopsis
      (nodeWith (sampleBlock firstBlock.id 2 true)) .zero 0 =
        .ok [firstBlock.id, (sampleBlock firstBlock.id 2 true).id] := by
    decide +kernel
  refine sync_handshake ownA ownB (List.cons_ne_nil _ _)
    (List.cons_ne_nil _ _) ?_ produced (by decide)
  intro block member _
  exact (ownA.chain.num_le member).2

end BMChain.App
