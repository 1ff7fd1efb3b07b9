import BMChain.Chain.Irreversibility
import Std.Data.ExtTreeMap

/-!
# Looking up blocks by number

A block is looked up in three places: the ring of summaries which transactions
refer to, the log of irreversible blocks, and the fork database.  The summaries
are part of the chain state, so they follow the applied blocks.  The log and
the fork database follow them as long as no two branches meet in the fork
database.
-/

namespace BMChain.Chain

open BMChain.Protocol BMChain.Foundation Std

variable {Content Body Rest : Type}

/-! ## The summaries of recent blocks -/

/-- The block summaries, by the last sixteen bits of the block number. -/
abbrev Summaries (Content : Type) :=
  ExtTreeMap Nat (BlockId Content)

/-- The id in the summary for a number, at first `block_id_type()`. -/
def summaryOf
    (summaries : Summaries Content)
    (num : Nat) :
    BlockId Content :=
  summaries[num % 2 ^ 16]?.getD .zero

/-- `create_block_summary`. -/
def createBlockSummary
    (summaries : Summaries Content)
    (block : SignedBlock Content Body) :
    Summaries Content :=
  summaries.insert (block.blockNum % 2 ^ 16) block.id

theorem summaryOf_createBlockSummary
    (summaries : Summaries Content)
    (block : SignedBlock Content Body)
    (num : Nat) :
    summaryOf (createBlockSummary summaries block) num =
      if block.blockNum % 2 ^ 16 = num % 2 ^ 16 then block.id
      else summaryOf summaries num := by
  unfold summaryOf createBlockSummary
  rw [ExtTreeMap.getElem?_insert]
  by_cases same : block.blockNum % 2 ^ 16 = num % 2 ^ 16
  · rw [if_pos same, if_pos (Std.compare_eq_iff_eq.2 same)]
    rfl
  · rw [if_neg same,
      if_neg fun equal => same (Std.compare_eq_iff_eq.1 equal)]

/-- `BMCHAIN_MAX_UNDO_HISTORY`. -/
def maxUndoHistory : Nat := 10000

/--
`_apply_block` around `update_last_irreversible_block`, without what it does to
the block summaries.  A failed part returns the state in which the exception
left it.
-/
structure Stages (Content Body Rest : Type) where
  /-- Up to `update_signing_witness`. -/
  opening :
    ChainState Content (Summaries Content × Rest) →
      SignedBlock Content Body → Except Rest Rest
  /-- `last_confirmed_block_num` of the scheduled witnesses. -/
  lastConfirmed : Rest → List Nat
  /-- From `clear_expired_transactions` on. -/
  closing :
    ChainState Content (Summaries Content × Rest) →
      SignedBlock Content Body → Except Rest Rest

/--
The rules of a chain with block summaries.  `update_global_dynamic_data`
refuses a block too far above the last irreversible one, in 32 bits.
-/
def Stages.rules
    (stages : Stages Content Body Rest) :
    Rules Content Body (Summaries Content × Rest) where
  prelude state block :=
    match stages.opening state block with
    | .error rest => .error (state.rest.1, rest)
    | .ok rest =>
        if (block.blockNum + (2 ^ 32 - state.lastIrreversibleBlockNum)) %
            2 ^ 32 < maxUndoHistory then
          .ok (state.rest.1, rest)
        else
          .error (state.rest.1, rest)
  lastConfirmed rest := stages.lastConfirmed rest.2
  maintenance state block :=
    let summaries := createBlockSummary state.rest.1 block
    match stages.closing { state with rest := (summaries, state.rest.2) }
        block with
    | .error rest => .error (summaries, rest)
    | .ok rest => .ok (summaries, rest)

/-! ## The lookups -/

/-- Why the block log refuses to read a block. -/
inductive LogFault where
  | wrongBlock
  deriving DecidableEq, Repr

namespace Database

/-- `block_log::read_block_by_num`; the log is kept with its head in front. -/
def readBlockByNum
    (db : Database Content Body Rest)
    (num : Nat) :
    Except LogFault (Option (SignedBlock Content Body)) :=
  if 0 < num ∧ num ≤ db.logHeadNum then
    match db.blockLog.reverse[num - 1]? with
    | some block =>
        if block.blockNum = num then .ok (some block) else .error .wrongBlock
    | none => .error .wrongBlock
  else
    .ok none

/-- `fetch_block_by_number`. -/
def fetchBlockByNumber
    (db : Database Content Body Rest)
    (num : Nat) :
    Except LogFault (Option (SignedBlock Content Body)) :=
  match db.forkDb.fetchBlockByNumber num with
  | [item] => .ok (some item.data)
  | _ => db.readBlockByNum num

/-- `find_block_id_for_num`. -/
def findBlockIdForNum
    (db : Database Content Body (Summaries Content × Rest))
    (num : Nat) :
    Except LogFault (BlockId Content) :=
  if num = 0 then .ok .zero
  else
    let summary := summaryOf db.chain.current.rest.1 num
    if summary.num = num then .ok summary
    else do
      match ← db.readBlockByNum num with
      | some block => return block.id
      | none =>
          match db.forkDb.fetchBlockOnMainBranchByNumber num with
          | some item => return item.id
          | none => return .zero

end Database

/-! ## Chains of blocks -/

/-- The id of the newest block of a chain. -/
def headOf : List (SignedBlock Content Body) → BlockId Content
  | [] => .zero
  | block :: _ => block.id

/-- Blocks from the first one on, the newest in front. -/
def IsChain : List (SignedBlock Content Body) → Prop
  | [] => True
  | block :: older =>
      block.previous = headOf older ∧ block.blockNum = older.length + 1 ∧
        IsChain older

/-- The block of a chain at a height. -/
def blockAt : List (SignedBlock Content Body) → Nat →
    Option (SignedBlock Content Body)
  | [], _ => none
  | block :: older, num =>
      if block.blockNum = num then some block else blockAt older num

section Chains

variable {main log : List (SignedBlock Content Body)}
    {block : SignedBlock Content Body} {num : Nat}

theorem mem_of_blockAt
    (at_ : blockAt main num = some block) :
    block ∈ main ∧ block.blockNum = num := by
  induction main with
  | nil => cases at_
  | cons newest older induction =>
      unfold blockAt at at_
      split at at_
      case isTrue same =>
        cases at_
        exact ⟨List.mem_cons_self, same⟩
      case isFalse =>
        rcases induction at_ with ⟨member, same⟩
        exact ⟨List.mem_cons_of_mem _ member, same⟩

variable (chain : IsChain main)

include chain

theorem IsChain.num_le
    (member : block ∈ main) :
    0 < block.blockNum ∧ block.blockNum ≤ main.length := by
  induction main with
  | nil => cases member
  | cons newest older induction =>
      rcases chain with ⟨-, number, chain⟩
      rcases List.mem_cons.1 member with rfl | member
      · rw [number]
        exact ⟨Nat.succ_pos _, Nat.le_refl _⟩
      · rcases induction chain member with ⟨positive, below⟩
        exact ⟨positive, Nat.le_succ_of_le below⟩

theorem IsChain.blockAt_mem
    (member : block ∈ main) :
    blockAt main block.blockNum = some block := by
  induction main with
  | nil => cases member
  | cons newest older induction =>
      rcases chain with ⟨-, number, chain⟩
      rcases List.mem_cons.1 member with rfl | member
      · exact if_pos rfl
      · have below := (chain.num_le member).2
        rw [blockAt, if_neg (by omega)]
        exact induction chain member

theorem IsChain.exists_blockAt
    (positive : 0 < num)
    (below : num ≤ main.length) :
    ∃ block, blockAt main num = some block := by
  induction main with
  | nil => exact absurd below (Nat.not_le_of_lt positive)
  | cons newest older induction =>
      rcases chain with ⟨-, number, chain⟩
      unfold blockAt
      split
      · exact ⟨newest, rfl⟩
      · rw [List.length_cons] at below
        exact induction chain (by omega)

theorem IsChain.blockAt_above
    (above : main.length < num) :
    blockAt main num = none := by
  cases found : blockAt main num with
  | none => rfl
  | some block =>
      rcases mem_of_blockAt found with ⟨member, rfl⟩
      exact absurd above (Nat.not_lt_of_le (chain.num_le member).2)

theorem IsChain.suffix
    (older : log <:+ main) :
    IsChain log := by
  induction main with
  | nil => exact List.suffix_nil.1 older ▸ trivial
  | cons newest rest induction =>
      rcases List.suffix_cons_iff.1 older with rfl | inside
      · exact chain
      · exact induction chain.2.2 inside

/-- The blocks of an older chain are where they are in the newer one. -/
theorem IsChain.blockAt_suffix
    (older : log <:+ main)
    (below : num ≤ log.length) :
    blockAt main num = blockAt log num := by
  induction main with
  | nil => rw [List.suffix_nil.1 older]
  | cons newest rest induction =>
      rcases List.suffix_cons_iff.1 older with rfl | inside
      · rfl
      · have length := inside.length_le
        rw [blockAt, if_neg (by rw [chain.2.1]; omega)]
        exact induction chain.2.2 inside

/-- The next block of the chain goes on with the log. -/
theorem IsChain.cons_suffix
    (older : log <:+ main)
    (next : blockAt main (log.length + 1) = some block) :
    block :: log <:+ main := by
  induction main with
  | nil => cases next
  | cons newest rest induction =>
      rcases List.suffix_cons_iff.1 older with rfl | inside
      · rw [chain.blockAt_above (Nat.lt_succ_self _)] at next
        cases next
      · unfold blockAt at next
        split at next
        case isTrue same =>
          cases next
          rw [chain.2.1] at same
          have whole := inside.eq_of_length (Nat.succ.inj same).symm
          exact whole ▸ List.suffix_rfl
        case isFalse =>
          exact (induction chain.2.2 inside next).trans
            (List.suffix_cons _ _)

theorem IsChain.getElem?_reverse
    (positive : 0 < num) :
    main.reverse[num - 1]? = blockAt main num := by
  induction main with
  | nil => rfl
  | cons newest rest induction =>
      rcases chain with ⟨-, number, chain⟩
      rw [List.reverse_cons, blockAt]
      split
      case isTrue same =>
        have place : num - 1 = rest.reverse.length := by
          rw [List.length_reverse]
          omega
        rw [place, List.getElem?_concat_length]
      case isFalse different =>
        rw [← induction chain]
        by_cases inside : num - 1 < rest.reverse.length
        · exact List.getElem?_append_left inside
        · rw [List.length_reverse] at inside
          rw [List.getElem?_eq_none (by simp; omega),
            List.getElem?_eq_none (by simp; omega)]

end Chains

/-! ## Where the blocks are kept -/

/--
The log is the older part of the chain.  Above it, the fork database holds at
every height the block of the chain and no other; below, it does not hold a
single block which is foreign to the chain.
-/
structure Shelved (main log : List (SignedBlock Content Body))
    (forkDb : ForkDatabase Content Body) : Prop where
  older : log <:+ main
  recent : ∀ num, log.length < num → num ≤ main.length →
    ∃ item, forkDb.fetchBlockByNumber num = [item] ∧
      blockAt main num = some item.data
  settled : ∀ num item, num ≤ log.length →
    forkDb.fetchBlockByNumber num = [item] → item.data ∈ log
  below : ∀ item ∈ forkDb.index, item.num ≤ main.length

/-- What is known of the summaries and of the last irreversible block. -/
structure Summarized (main log : List (SignedBlock Content Body))
    (state : ChainState Content (Summaries Content × Rest)) : Prop where
  follows : ∀ num, 0 < num → (summaryOf state.rest.1 num).num = num →
    (blockAt main num).map SignedBlock.id = some (summaryOf state.rest.1 num)
  recent : ∀ num, log.length < num → num ≤ main.length →
    main.length < num + 2 ^ 16 → (summaryOf state.rest.1 num).num = num
  old : ∀ num, num + 2 ^ 16 ≤ main.length → num ≤ log.length
  irreversible : min state.lastIrreversibleBlockNum main.length ≤ log.length

/-- The blocks of a chain are looked up by their numbers. -/
structure LooksUp
    (db : Database Content Body (Summaries Content × Rest))
    (main : List (SignedBlock Content Body)) : Prop where
  chain : IsChain main
  head : headOf main = db.chain.current.headBlockId
  height : main.length = db.chain.current.headBlockNum
  blocks : ∀ num, 0 < num →
    db.fetchBlockByNumber num = .ok (blockAt main num)
  ids : ∀ num, 0 < num →
    db.findBlockIdForNum num =
      .ok (((blockAt main num).map SignedBlock.id).getD .zero)

section Shelves

variable {main : List (SignedBlock Content Body)}
    {db : Database Content Body (Summaries Content × Rest)}

theorem IsChain.logHeadNum
    {db : Database Content Body Rest}
    (chain : IsChain db.blockLog) :
    db.logHeadNum = db.blockLog.length := by
  unfold Database.logHeadNum
  cases log : db.blockLog with
  | nil => rfl
  | cons newest older =>
      rw [log] at chain
      exact chain.2.1

/-- The fork database has nothing above the chain. -/
theorem Shelved.nothing_above
    {log : List (SignedBlock Content Body)}
    {forkDb : ForkDatabase Content Body}
    (shelved : Shelved main log forkDb)
    {num : Nat}
    (above : main.length < num) :
    forkDb.fetchBlockByNumber num = [] := by
  refine List.filter_eq_nil_iff.2 ?_
  intro item member same
  have bound := shelved.below item member
  rw [of_decide_eq_true same] at bound
  exact absurd above (Nat.not_lt_of_le bound)

/-- The log reads the blocks of the chain up to its head. -/
theorem Shelved.readBlockByNum
    {db : Database Content Body Rest}
    (shelved : Shelved main db.blockLog db.forkDb)
    (chain : IsChain main)
    {num : Nat}
    (positive : 0 < num) :
    db.readBlockByNum num = .ok
      (if num ≤ db.blockLog.length then blockAt main num else none) := by
  have logged := chain.suffix shelved.older
  unfold Database.readBlockByNum
  rw [logged.logHeadNum]
  by_cases inside : num ≤ db.blockLog.length
  · rw [if_pos ⟨positive, inside⟩, if_pos inside,
      logged.getElem?_reverse positive,
      chain.blockAt_suffix shelved.older inside]
    rcases logged.exists_blockAt positive inside with ⟨block, found⟩
    simp only [found]
    exact if_pos (mem_of_blockAt found).2
  · rw [if_neg fun both => inside both.2, if_neg inside]

theorem Shelved.fetchBlockByNumber
    {db : Database Content Body Rest}
    (shelved : Shelved main db.blockLog db.forkDb)
    (chain : IsChain main)
    {num : Nat}
    (positive : 0 < num) :
    db.fetchBlockByNumber num = .ok (blockAt main num) := by
  have read := shelved.readBlockByNum chain positive
  unfold Database.fetchBlockByNumber
  by_cases logged : num ≤ db.blockLog.length
  · rw [read, if_pos logged]
    split
    case h_1 item single =>
      have member := shelved.settled num item logged single
      have number : item.data.blockNum = num := by
        have listed : item ∈ db.forkDb.fetchBlockByNumber num :=
          single ▸ List.mem_singleton_self item
        exact of_decide_eq_true (List.mem_filter.1 listed).2
      rw [← number, chain.blockAt_mem (shelved.older.subset member)]
    case h_2 => rfl
  · by_cases below : num ≤ main.length
    · rcases shelved.recent num (Nat.lt_of_not_le logged) below with
        ⟨item, single, found⟩
      rw [single, found]
    · have above := Nat.lt_of_not_le below
      rw [shelved.nothing_above above, read, if_neg logged,
        chain.blockAt_above above]

theorem findBlockIdForNum_eq
    (shelved : Shelved main db.blockLog db.forkDb)
    (summarized : Summarized main db.blockLog db.chain.current)
    (chain : IsChain main)
    {num : Nat}
    (positive : 0 < num) :
    db.findBlockIdForNum num =
      .ok (((blockAt main num).map SignedBlock.id).getD .zero) := by
  unfold Database.findBlockIdForNum
  rw [if_neg (Nat.pos_iff_ne_zero.1 positive)]
  dsimp only
  split
  case isTrue same =>
    rw [summarized.follows num positive same]
    rfl
  case isFalse other =>
    rw [shelved.readBlockByNum chain positive]
    by_cases logged : num ≤ db.blockLog.length
    · rcases chain.exists_blockAt positive
        (Nat.le_trans logged shelved.older.length_le) with ⟨block, found⟩
      rw [if_pos logged, found]
      rfl
    · rw [if_neg logged]
      have above : main.length < num := by
        by_contra below
        have reached : num ≤ main.length := Nat.le_of_not_lt below
        by_cases near : main.length < num + 2 ^ 16
        · exact other (summarized.recent num (Nat.lt_of_not_le logged)
            reached near)
        · exact logged (summarized.old num (Nat.le_of_not_lt near))
      have unfound : db.forkDb.fetchBlockOnMainBranchByNumber num = none := by
        unfold ForkDatabase.fetchBlockOnMainBranchByNumber
        rw [shelved.nothing_above above]
      rw [chain.blockAt_above above]
      simp only [bind, Except.bind, unfound]
      rfl

end Shelves

end BMChain.Chain
