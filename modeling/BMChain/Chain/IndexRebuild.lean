import BMChain.Chain.StoredBlocks

/-!
# Rebuilding the index of a log

When a log is opened whose index file is missing or ends with another position
than the log, the index is written again from the log.  The loop which does so
compares the position it has read last with the position of the head, so it is
not entered for a log of one block.
-/

namespace BMChain.Chain

open BMChain.Protocol BMChain.Foundation

variable {Content Body : Type}

variable {done : List (SignedBlock Content Body)} {file index : FileStream}

section Rebuild

variable {format : BlockFormat Content Body}
    {blocks before rest : List (SignedBlock Content Body)}
    {block : SignedBlock Content Body}
    {log after : BlockLog Content Body}

/-! ## The loop -/

/-- A log has eight bytes at least for each of its blocks. -/
theorem length_le_logSize
    (format : BlockFormat Content Body)
    (blocks : List (SignedBlock Content Body)) :
    8 * blocks.length ≤ logSize format blocks := by
  induction blocks with
  | nil => exact Nat.le_refl _
  | cons block rest induction =>
      rw [logSize_cons, List.length_cons]
      omega

/-- The streams in the loop, when the index of the first blocks is written. -/
structure Indexing
    (format : BlockFormat Content Body)
    (done rest : List (SignedBlock Content Body))
    (blocks index : FileStream) : Prop where
  file : blocks.bytes = logFrom format 0 (done ++ rest)
  reading : blocks.appending = false
  position : blocks.position = logSize format done
  listed : index.bytes = indexFrom format 0 done
  writing : index.appending = true
  small : logSize format (done ++ rest) < maxFileSize

/-- One round of the loop: the next block's position goes to the index. -/
theorem Indexing.step
    (indexing : Indexing format done (block :: rest) file index) :
    ∃ parsed read written,
      streamed (file.parse format.unpack) = .ok (block, parsed) ∧
        streamed parsed.readWord = .ok (logSize format done, read) ∧
          streamed (index.write (wordBytes 8 (logSize format done))) =
              .ok written ∧
            Indexing format (done ++ [block]) rest read written := by
  rcases indexing with ⟨bytes, reading, position, listed, writing, small⟩
  have starts : (logFrom format 0 done).length = logSize format done :=
    length_logFrom 0 done
  have split : file.bytes = logFrom format 0 done ++ (format.pack block ++
      (wordBytes 8 (logSize format done) ++
        logFrom format (0 + logSize format done +
          (format.pack block).length + 8) rest)) := by
    rw [bytes, logFrom_append, Nat.zero_add]
    rfl
  have parsed := FileStream.parse_eq reading split
    (position.trans starts.symm) (format.unpack_pack block _)
  have split' : (file.seek ((logFrom format 0 done).length +
      (format.pack block).length)).bytes =
        (logFrom format 0 done ++ format.pack block) ++
          (wordBytes 8 (logSize format done) ++
            logFrom format (0 + logSize format done +
              (format.pack block).length + 8) rest) := by
    rw [List.append_assoc]
    exact split
  have reading' : (file.seek ((logFrom format 0 done).length +
      (format.pack block).length)).appending = false := reading
  have bound : logSize format done < maxFileSize := by
    rw [logSize_append] at small
    omega
  have word := FileStream.readWord_eq reading' split'
    List.length_append.symm (Nat.lt_trans bound (by decide))
  have room : index.bytes.length + (wordBytes 8 (logSize format done)).length <
      maxFileSize := by
    have few := length_le_logSize format (done ++ block :: rest)
    rw [List.length_append, List.length_cons] at few
    rw [listed, length_indexFrom, length_wordBytes]
    omega
  have written := FileStream.write_eq_some_iff.2 ⟨⟨writing, room⟩, rfl⟩
  refine ⟨_, _, _, streamed_eq_ok_iff.2 parsed, streamed_eq_ok_iff.2 word,
    streamed_eq_ok_iff.2 written, ?_, reading, ?_, ?_, writing, ?_⟩
  · show file.bytes = _
    rw [bytes, List.append_assoc]
    rfl
  · show (logFrom format 0 done ++ format.pack block).length + 8 = _
    rw [List.length_append, starts, logSize_append, logSize_cons]
    rfl
  · show index.bytes ++ _ = _
    rw [listed, indexFrom_append, Nat.zero_add]
    unfold indexFrom indexFrom
    rw [List.append_nil]
  · rw [List.append_assoc]
    exact small

/-- From a position before the head on, the loop writes the whole index. -/
theorem Indexing.run
    {pos rounds : Nat}
    (indexing : Indexing format done (block :: rest) file index)
    (before : pos < logSize format (done ++ block :: rest).dropLast)
    (enough : rest.length + 1 < rounds) :
    ∃ read written,
      BlockLog.indexAlong format
          (logSize format (done ++ block :: rest).dropLast) rounds pos file
          index = .ok (read, written) ∧
        Indexing format (done ++ block :: rest) [] read written := by
  induction rounds generalizing done block rest file index pos with
  | zero => exact absurd enough (Nat.not_lt_zero _)
  | succ rounds induction =>
      rcases indexing.step with
        ⟨parsed, read, written, parses, reads, writes, further⟩
      unfold BlockLog.indexAlong
      rw [if_pos before, parses]
      simp only [ok_bind]
      rw [reads]
      simp only [ok_bind]
      rw [writes]
      simp only [ok_bind]
      cases rest with
      | nil =>
          refine ⟨read, written, ?_, further⟩
          rw [List.dropLast_concat]
          cases rounds with
          | zero =>
              exact absurd (Nat.lt_of_succ_lt_succ enough)
                (Nat.not_lt_zero _)
          | succ rounds =>
              unfold BlockLog.indexAlong
              exact if_neg (Nat.lt_irrefl _)
      | cons next rest =>
          have same : done ++ block :: next :: rest =
              (done ++ [block]) ++ next :: rest :=
            List.append_cons done block (next :: rest)
          rw [List.length_cons] at enough
          rw [same]
          apply induction further
          · rw [List.dropLast_append_of_ne_nil (List.cons_ne_nil _ _),
              logSize_append, logSize_append, logSize_cons]
            omega
          · omega

/-! ## The index as a whole -/

theorem checkBlockRead_index (log : BlockLog Content Body) :
    log.checkBlockRead.indexStream = log.indexStream ∧
      log.checkBlockRead.indexWrite = log.indexWrite := by
  unfold BlockLog.checkBlockRead
  split <;> exact ⟨rfl, rfl⟩

/-- The loop over a whole log; for a single block it is not entered. -/
theorem indexAlong_whole
    (bytes : file.bytes = logFrom format 0 (before ++ [block]))
    (reading : file.appending = false)
    (small : logSize format (before ++ [block]) < maxFileSize) :
    ∃ read written,
      BlockLog.indexAlong format (logSize format before)
          (file.bytes.length + 1) 0 (file.seek 0) ⟨[], true, 0⟩ =
            .ok (read, written) ∧
        read.bytes = file.bytes ∧ read.appending = false ∧
          written.appending = true ∧
            written.bytes =
              if before = [] then []
              else indexFrom format 0 (before ++ [block]) := by
  cases before with
  | nil =>
      refine ⟨file.seek 0, ⟨[], true, 0⟩, ?_, rfl, reading, rfl,
        (if_pos rfl).symm⟩
      unfold BlockLog.indexAlong
      exact if_neg (Nat.lt_irrefl 0)
  | cons first others =>
      have start : Indexing format [] (first :: (others ++ [block]))
          (file.seek 0) ⟨[], true, 0⟩ :=
        ⟨bytes, reading, rfl, rfl, rfl, small⟩
      have last : ([] ++ first :: (others ++ [block])).dropLast =
          first :: others := by
        show ((first :: others) ++ [block]).dropLast = _
        rw [List.dropLast_concat]
      have positive : 0 < logSize format (first :: others) := by
        rw [logSize_cons]
        omega
      have enough : (others ++ [block]).length + 1 < file.bytes.length + 1 := by
        have few := length_le_logSize format (first :: others ++ [block])
        rw [bytes, length_logFrom]
        rw [List.cons_append, List.length_cons] at few
        rw [List.cons_append]
        omega
      rcases start.run (last.symm ▸ positive) enough with
        ⟨read, written, along, whole⟩
      rw [last] at along
      refine ⟨read, written, along, ?_, whole.reading, whole.writing, ?_⟩
      · rw [whole.file, bytes, List.append_nil]
        rfl
      · rw [if_neg (List.cons_ne_nil _ _), whole.listed]
        rfl

/-- Rebuilding the index keeps the log and its head. -/
theorem StoresLog.constructIndex
    (stores : StoresLog format (before ++ [block]) log) :
    ∃ after,
      log.constructIndex format = .ok after ∧
        StoresLog format (before ++ [block]) after ∧
          after.head = log.head ∧ after.headId = log.headId ∧
            after.indexStream.bytes =
              if before = [] then []
              else indexFrom format 0 (before ++ [block]) := by
  have fresh : StoresLog format (before ++ [block])
      { log with indexStream := ⟨[], true, 0⟩, indexWrite := true } :=
    ⟨stores.blockBytes, ⟨stores.inStep.block, rfl⟩, stores.small⟩
  rcases fresh.lastWord with ⟨blocks, word, kept⟩
  rcases (bind_eq_ok_iff _ _ _).1 word with ⟨sought, seeks, reads⟩
  have same := SameFiles.checkBlockRead
    { log with indexStream := ⟨[], true, 0⟩, indexWrite := true }
  have index := checkBlockRead_index
    { log with indexStream := ⟨[], true, 0⟩, indexWrite := true }
  have ready := same.1.storesLog fresh
  generalize opens : BlockLog.checkBlockRead
    { log with indexStream := ⟨[], true, 0⟩, indexWrite := true } = opened
    at *
  have bytes : blocks.bytes = logFrom format 0 (before ++ [block]) :=
    kept.bytes.trans ready.blockBytes
  have reading : blocks.appending = false :=
    kept.appending.trans (ready.inStep.block.trans same.2)
  rcases indexAlong_whole bytes reading stores.small with
    ⟨read, written, along, file, readingToo, writing, listed⟩
  refine ⟨{ opened with blockStream := read, indexStream := written }, ?_,
    ⟨file.trans bytes, ⟨?_, ?_⟩, stores.small⟩, same.1.head, same.1.headId,
    listed⟩
  · unfold BlockLog.constructIndex
    dsimp only
    rw [opens, seeks]
    simp only [ok_bind]
    rw [reads]
    simp only [ok_bind]
    rw [index.1, along]
    rfl
  · exact readingToo.trans same.2.symm
  · exact writing.trans index.2.symm

/-! ## Opening a log with a stale index -/

/-- The index file is missing, or its last entry is not the log's last word. -/
def StaleIndex (blockBytes indexBytes : List UInt8) : Prop :=
  indexBytes = [] ∨
    8 ≤ indexBytes.length ∧
      wordOf (indexBytes.drop (indexBytes.length - 8)) ≠
        wordOf (blockBytes.drop (blockBytes.length - 8))

instance (blockBytes indexBytes : List UInt8) :
    Decidable (StaleIndex blockBytes indexBytes) :=
  inferInstanceAs (Decidable (_ ∨ _))

theorem checkIndexRead_block (log : BlockLog Content Body) :
    log.checkIndexRead.blockStream = log.blockStream := by
  unfold BlockLog.checkIndexRead
  split <;> rfl

theorem wordOf_logFrom
    (small : logSize format (before ++ [block]) < maxFileSize) :
    wordOf ((logFrom format 0 (before ++ [block])).drop
      ((logFrom format 0 (before ++ [block])).length - 8)) =
        logSize format before := by
  have bytes : logFrom format 0 (before ++ [block]) =
      (logFrom format 0 before ++ format.pack block) ++
        wordBytes 8 (logSize format before) := by
    rw [logFrom_append, Nat.zero_add, List.append_assoc]
    unfold logFrom logFrom
    rw [List.append_nil]
  have place : (logFrom format 0 (before ++ [block])).length - 8 =
      (logFrom format 0 before ++ format.pack block).length := by
    rw [bytes, List.length_append, length_wordBytes, Nat.add_sub_cancel]
  rw [place, bytes, List.drop_left]
  apply wordOf_wordBytes
  rw [logSize_append] at small
  exact Nat.lt_trans (Nat.lt_of_le_of_lt (Nat.le_add_right _ _) small)
    (by decide)

/-- Opening the files of a log with a stale index rebuilds the index. -/
theorem openFiles_stale
    {blockBytes indexBytes : List UInt8}
    (bytes : blockBytes = logFrom format 0 (before ++ [block]))
    (small : logSize format (before ++ [block]) < maxFileSize)
    (stale : StaleIndex blockBytes indexBytes) :
    ∃ reopened,
      BlockLog.openFiles format blockBytes indexBytes = .ok reopened ∧
        StoresLog format (before ++ [block]) reopened ∧
          reopened.head = some block ∧ reopened.headId = block.id ∧
            reopened.indexStream.bytes =
              if before = [] then []
              else indexFrom format 0 (before ++ [block]) := by
  have filled : blockBytes ≠ [] := by
    intro none
    have size : (logFrom format 0 (before ++ [block])).length = _ :=
      length_logFrom 0 (before ++ [block])
    rw [← bytes, none, logSize_append, logSize_cons, List.length_nil] at size
    omega
  let opened : BlockLog Content Body :=
    ⟨⟨blockBytes, true, 0⟩, ⟨indexBytes, true, 0⟩, true, true, none, .zero⟩
  have stores : StoresLog format (before ++ [block]) opened :=
    ⟨bytes, ⟨rfl, rfl⟩, small⟩
  rcases stores.readHead with ⟨headed, head, same⟩
  have known : StoresLog format (before ++ [block])
      { headed with head := some block, headId := block.id } := by
    have further := same.storesLog stores
    exact ⟨further.blockBytes, ⟨further.inStep.block, further.inStep.index⟩,
      small⟩
  unfold BlockLog.openFiles
  dsimp only
  rw [if_pos filled, head]
  simp only [ok_bind]
  by_cases missing : indexBytes = []
  case pos =>
    rw [if_neg (fun present => present missing)]
    exact known.constructIndex
  case neg =>
    rcases stale.resolve_left missing with ⟨long, differs⟩
    rw [if_pos missing]
    -- Both streams are read at their ends.
    have files := SameFiles.checkBlockRead
      { headed with head := some block, headId := block.id }
    have modes := SameFiles.checkIndexRead (BlockLog.checkBlockRead
      { headed with head := some block, headId := block.id })
    have listed : (BlockLog.checkIndexRead (BlockLog.checkBlockRead
        { headed with head := some block, headId := block.id }
        )).indexStream.bytes = indexBytes :=
      modes.1.indexBytes.trans (files.1.indexBytes.trans same.indexBytes)
    have ready := modes.1.storesLog (files.1.storesLog known)
    have ofHead := modes.1.head.trans files.1.head
    have ofHeadId := modes.1.headId.trans files.1.headId
    rcases known.lastWord with ⟨blocks, word, kept⟩
    rw [← checkIndexRead_block] at word kept
    generalize BlockLog.checkIndexRead (BlockLog.checkBlockRead
      { headed with head := some block, headId := block.id }) = reading
      at *
    rcases (bind_eq_ok_iff _ _ _).1 word with ⟨sought, seeks, reads⟩
    rcases FileStream.lastWord_eq (ready.inStep.index.trans modes.2)
      (listed.symm ▸ long) with ⟨soughtIndex, index, seeksIndex, readsIndex⟩
    have keptIndex := (FileStream.kept_seekFromEnd seeksIndex).trans
      (FileStream.kept_readWord readsIndex)
    rw [seeks]
    simp only [ok_bind]
    rw [reads, seeksIndex]
    simp only [ok_bind, streamed]
    rw [readsIndex, listed]
    simp only [ok_bind]
    have sought : SameFiles { reading with blockStream := blocks }
        { reading with blockStream := blocks, indexStream := index } :=
      .ofIndexStream keptIndex
    have last := sought.storesLog
      ((SameFiles.ofBlockStream kept).storesLog ready)
    rcases last.constructIndex with
      ⟨reopened, rebuilt, stored, sameHead, sameId, entries⟩
    have result : ∃ reopened,
        BlockLog.constructIndex format
            { reading with blockStream := blocks, indexStream := index } =
          .ok reopened ∧
          StoresLog format (before ++ [block]) reopened ∧
            reopened.head = some block ∧ reopened.headId = block.id ∧
              reopened.indexStream.bytes =
                if before = [] then []
                else indexFrom format 0 (before ++ [block]) :=
      ⟨reopened, rebuilt, stored, sameHead.trans ofHead,
        sameId.trans ofHeadId, entries⟩
    rw [bytes, wordOf_logFrom small] at differs
    split
    · exact result
    · split
      · exact result
      · omega

/-! ## What opening achieves -/

/-- There is room for the block in both files. -/
theorem Stores.append_succeeds
    (stores : Stores format blocks log)
    (number : block.blockNum = blocks.length + 1)
    (room : logSize format (blocks ++ [block]) < maxFileSize) :
    ∃ pos after, log.append format block = .ok (pos, after) := by
  have blockMode := SameFiles.checkBlockWrite log
  have indexMode := SameFiles.checkIndexWrite log.checkBlockWrite
  have ready := (blockMode.1.trans indexMode.1).stores stores
  have blockWrite : log.checkBlockWrite.checkIndexWrite.blockWrite = true := by
    have kept : log.checkBlockWrite.checkIndexWrite.blockWrite =
        log.checkBlockWrite.blockWrite := by
      unfold BlockLog.checkIndexWrite
      split <;> rfl
    exact kept.trans blockMode.2
  have indexWrite := indexMode.2
  unfold BlockLog.append
  dsimp only
  generalize log.checkBlockWrite.checkIndexWrite = opened at *
  have few := length_le_logSize format (blocks ++ [block])
  have bound : block.blockNum < 2 ^ 32 := Nat.mod_lt _ (Nat.two_pow_pos 32)
  have place : opened.indexStream.tellp =
      8 * ((block.blockNum + (2 ^ 32 - 1)) % 2 ^ 32) := by
    have size : opened.indexStream.tellp = 8 * blocks.length := by
      unfold FileStream.tellp
      rw [ready.indexBytes, length_indexFrom]
    rw [size, number]
    rw [number] at bound
    omega
  rw [logSize_append, logSize_cons] at room few
  rw [List.length_append] at few
  have length : opened.blockStream.bytes.length = logSize format blocks := by
    rw [ready.blockBytes, length_logFrom]
  have indexLength : opened.indexStream.bytes.length = 8 * blocks.length := by
    rw [ready.indexBytes, length_indexFrom]
  have none : logSize format [] = 0 := rfl
  rw [List.length_singleton] at few
  generalize opened.blockStream.tellp = pos
  rcases FileStream.exists_write (ready.inStep.block.trans blockWrite)
    (by omega : opened.blockStream.bytes.length +
      (format.pack block).length < maxFileSize) with
    ⟨packed, packs, writing, bytes⟩
  rcases FileStream.exists_write writing
    (by
      rw [bytes, List.length_append, length_wordBytes]
      omega :
      packed.bytes.length + (wordBytes 8 pos).length < maxFileSize) with
    ⟨closed, closes, -⟩
  rcases FileStream.exists_write (ready.inStep.index.trans indexWrite)
    (by
      rw [indexLength, length_wordBytes]
      omega :
      opened.indexStream.bytes.length + (wordBytes 8 pos).length <
        maxFileSize) with ⟨listed, lists, -⟩
  rw [if_pos place, packs]
  simp only [streamed, ok_bind]
  rw [closes]
  simp only [ok_bind]
  rw [lists]
  exact ⟨_, _, rfl⟩

/--
Opening the files writes the index which appending has written; all blocks can
be read by number, and the next one can be appended where there is room.
-/
def Reconstructs
    (format : BlockFormat Content Body)
    (blocks : List (SignedBlock Content Body))
    (log : BlockLog Content Body)
    (indexBytes : List UInt8) : Prop :=
  ∃ reopened,
    BlockLog.openFiles format log.blockStream.bytes indexBytes =
        .ok reopened ∧
      reopened.indexStream.bytes = log.indexStream.bytes ∧
        (∀ place block, blocks[place]? = some block →
          ∃ after, reopened.readBlockByNum format (place + 1) =
            .ok (some block, after)) ∧
          ∀ block : SignedBlock Content Body,
            block.blockNum = blocks.length + 1 →
              logSize format (blocks ++ [block]) < maxFileSize →
                ∃ pos after,
                  reopened.append format block = .ok (pos, after)

/--
Whatever calls have written a log, its index is reconstructed if, and only if,
there are two blocks at least.
-/
theorem index_reconstructed_iff
    {calls : List (LogCall Content Body)}
    {indexBytes : List UInt8}
    (returned :
      (do
        let opened ← BlockLog.openFiles format [] []
        runCalls format opened calls) = .ok log)
    (numbered : NumberedLog (appendedBlocks calls))
    (filled : appendedBlocks calls ≠ [])
    (stale : StaleIndex log.blockStream.bytes indexBytes) :
    Reconstructs format (appendedBlocks calls) log indexBytes ↔
      2 ≤ (appendedBlocks calls).length := by
  rcases (bind_eq_ok_iff _ _ _).1 returned with ⟨opened, opens, runs⟩
  have stores := (stores_new opens).runCalls runs
  rw [List.nil_append] at stores
  generalize appendedBlocks calls = blocks at numbered stores filled
  rcases List.eq_nil_or_concat blocks with rfl | ⟨before, block, rfl⟩
  · exact absurd rfl filled
  rw [List.concat_eq_append] at *
  rcases openFiles_stale stores.blockBytes stores.small stale with
    ⟨reopened, opened, stored, head, headId, entries⟩
  cases before with
  | nil =>
      -- The loop is not entered, and the index stays empty.
      rw [if_pos rfl] at entries
      constructor
      · rintro ⟨other, openedToo, same, -⟩
        rw [opened] at openedToo
        cases openedToo
        rw [entries, stores.indexBytes] at same
        have size := congrArg List.length same
        rw [length_indexFrom] at size
        cases size
      · intro two
        rw [List.length_append, List.length_singleton] at two
        exact absurd two (Nat.not_le_of_lt (Nat.lt_succ_self 1))
  | cons first others =>
      rw [if_neg (List.cons_ne_nil _ _)] at entries
      have whole : Stores format (first :: others ++ [block]) reopened := by
        refine ⟨stored, entries, ?_, ?_⟩
        · rw [head, List.getLast?_concat]
        · rw [head, headId]
          rintro other ⟨⟩
          rfl
      refine ⟨fun _ => ?_, fun _ => ⟨reopened, opened, ?_, ?_, ?_⟩⟩
      · rw [List.length_append, List.length_cons, List.length_singleton]
        omega
      · rw [entries, stores.indexBytes]
      · intro place found at_
        rcases whole.readBlockByNum numbered (place + 1) with ⟨after, read⟩
        rw [if_neg (Nat.succ_ne_zero _), Nat.add_sub_cancel, at_] at read
        exact ⟨after, read⟩
      · exact fun next number room => whole.append_succeeds number room

end Rebuild

/-! ## Logs of two blocks and of one -/

/-- The index of two blocks is rebuilt when its last entry is another one. -/
theorem index_reconstructed_two_blocks :
    Reconstructs sampleFormat (appendedBlocks mixedCalls) mixedLog
      (wordBytes 8 5) :=
  (index_reconstructed_iff (by rfl) (by decide) (by decide) (by decide)).2
    (by decide)

/-- The first block alone. -/
def singleBlock : SignedBlock Nat Bool := ⟨.zero, 0, true⟩

/-- The log with the first block. -/
def singleLog : BlockLog Nat Bool :=
  match (do
    let opened ← BlockLog.openFiles sampleFormat [] []
    runCalls sampleFormat opened [.append singleBlock]) with
  | .ok log => log
  | .error _ => ⟨⟨[], true, 0⟩, ⟨[], true, 0⟩, true, true, none, .zero⟩

/-- The bytes of the index, and what two calls throw, after the log is opened. -/
def afterOpening :
    Option (List UInt8 × Option LogError × Option LogError) :=
  match BlockLog.openFiles sampleFormat singleLog.blockStream.bytes [] with
  | .error _ => none
  | .ok log =>
      some (log.indexStream.bytes,
        (match log.readBlockByNum sampleFormat 1 with
          | .ok _ => none
          | .error fault => some fault),
        match log.append sampleFormat ⟨singleBlock.id, 1, true⟩ with
          | .ok _ => none
          | .error fault => some fault)

/--
A log with one block whose index file is missing: the index stays empty, the
block is not read by its number, and the next block is not appended.
-/
theorem index_of_single_block_lost :
    (do
        let opened ← BlockLog.openFiles sampleFormat [] []
        runCalls sampleFormat opened [.append singleBlock]) = .ok singleLog ∧
      StaleIndex singleLog.blockStream.bytes [] ∧
        afterOpening = some ([], some .stream, some .wrongPosition) ∧
          ¬ Reconstructs sampleFormat [singleBlock] singleLog [] := by
  have stays : afterOpening = some ([], some .stream, some .wrongPosition) := by
    decide
  refine ⟨rfl, by decide, stays, ?_⟩
  rintro ⟨reopened, opened, same, -⟩
  unfold afterOpening at stays
  rw [opened] at stays
  have empty : reopened.indexStream.bytes = [] :=
    congrArg Prod.fst (Option.some.inj stays)
  rw [empty] at same
  exact absurd same (by decide)

end BMChain.Chain
