import BMChain.Chain.BlockLog
import BMChain.Foundation.GuardedFold
import Mathlib.Algebra.GroupWithZero.Nat
import Mathlib.Data.List.Chain

/-!
# The blocks of a log

The two files of a block log are functions of the blocks which were appended.
Every call keeps the streams in step with the flags, reads leave the files
alone, and each block is found at its position, by its number, and by walking
the log from its beginning.
-/

namespace BMChain.Chain

open BMChain.Protocol BMChain.Foundation

variable {Content Body : Type}

/-! ## The two files -/

/-- The log file with these blocks, from a position on. -/
def logFrom
    (format : BlockFormat Content Body) :
    Nat → List (SignedBlock Content Body) → List UInt8
  | _, [] => []
  | pos, block :: rest =>
      format.pack block ++ (wordBytes 8 pos ++
        logFrom format (pos + (format.pack block).length + 8) rest)

/-- The index file with these blocks, from a position on. -/
def indexFrom
    (format : BlockFormat Content Body) :
    Nat → List (SignedBlock Content Body) → List UInt8
  | _, [] => []
  | pos, block :: rest =>
      wordBytes 8 pos ++
        indexFrom format (pos + (format.pack block).length + 8) rest

/-- The size of the log file with these blocks. -/
def logSize
    (format : BlockFormat Content Body)
    (blocks : List (SignedBlock Content Body)) : Nat :=
  (blocks.map fun block => (format.pack block).length + 8).sum

section Files

variable {format : BlockFormat Content Body}
    {block : SignedBlock Content Body}
    {before after : List (SignedBlock Content Body)}

theorem length_logFrom
    (pos : Nat)
    (blocks : List (SignedBlock Content Body)) :
    (logFrom format pos blocks).length = logSize format blocks := by
  induction blocks generalizing pos with
  | nil => rfl
  | cons block rest induction =>
      unfold logFrom logSize
      rw [List.length_append, List.length_append, length_wordBytes,
        induction, List.map_cons, List.sum_cons]
      unfold logSize
      omega

theorem length_indexFrom
    (pos : Nat)
    (blocks : List (SignedBlock Content Body)) :
    (indexFrom format pos blocks).length = 8 * blocks.length := by
  induction blocks generalizing pos with
  | nil => rfl
  | cons block rest induction =>
      unfold indexFrom
      rw [List.length_append, length_wordBytes, induction, List.length_cons]
      omega

theorem logSize_append
    (before after : List (SignedBlock Content Body)) :
    logSize format (before ++ after) =
      logSize format before + logSize format after := by
  unfold logSize
  rw [List.map_append, List.sum_append]

theorem logSize_cons
    (block : SignedBlock Content Body)
    (after : List (SignedBlock Content Body)) :
    logSize format (block :: after) =
      (format.pack block).length + 8 + logSize format after := by
  unfold logSize
  rw [List.map_cons, List.sum_cons]

/-- Behind some blocks the files go on from the end of these. -/
theorem logFrom_append
    (pos : Nat)
    (before after : List (SignedBlock Content Body)) :
    logFrom format pos (before ++ after) =
      logFrom format pos before ++
        logFrom format (pos + logSize format before) after := by
  induction before generalizing pos with
  | nil => rfl
  | cons block rest induction =>
      have ends : pos + (format.pack block).length + 8 + logSize format rest =
          pos + logSize format (block :: rest) := by
        rw [logSize_cons]
        omega
      show format.pack block ++ (wordBytes 8 pos ++
          logFrom format _ (rest ++ after)) =
        format.pack block ++ (wordBytes 8 pos ++ logFrom format _ rest) ++ _
      rw [induction, ends, List.append_assoc, List.append_assoc]

theorem indexFrom_append
    (pos : Nat)
    (before after : List (SignedBlock Content Body)) :
    indexFrom format pos (before ++ after) =
      indexFrom format pos before ++
        indexFrom format (pos + logSize format before) after := by
  induction before generalizing pos with
  | nil => rfl
  | cons block rest induction =>
      have ends : pos + (format.pack block).length + 8 + logSize format rest =
          pos + logSize format (block :: rest) := by
        rw [logSize_cons]
        omega
      show wordBytes 8 pos ++ indexFrom format _ (rest ++ after) =
        wordBytes 8 pos ++ indexFrom format _ rest ++ _
      rw [induction, ends, List.append_assoc]

end Files

/-! ## Reads leave the files alone -/

/-- The streams are open as the flags say. -/
structure InStep (log : BlockLog Content Body) : Prop where
  block : log.blockStream.appending = log.blockWrite
  index : log.indexStream.appending = log.indexWrite

/-- The files and the head are the same; the streams stay in step. -/
structure SameFiles (log after : BlockLog Content Body) : Prop where
  blockBytes : after.blockStream.bytes = log.blockStream.bytes
  indexBytes : after.indexStream.bytes = log.indexStream.bytes
  head : after.head = log.head
  headId : after.headId = log.headId
  inStep : InStep log → InStep after

namespace SameFiles

variable {format : BlockFormat Content Body}
    {log after last : BlockLog Content Body}

theorem trans
    (first : SameFiles log after)
    (second : SameFiles after last) :
    SameFiles log last :=
  ⟨second.blockBytes.trans first.blockBytes,
    second.indexBytes.trans first.indexBytes,
    second.head.trans first.head, second.headId.trans first.headId,
    fun inStep => second.inStep (first.inStep inStep)⟩

theorem checkBlockRead (log : BlockLog Content Body) :
    SameFiles log log.checkBlockRead ∧
      log.checkBlockRead.blockWrite = false := by
  unfold BlockLog.checkBlockRead
  cases mode : log.blockWrite with
  | true => exact ⟨⟨rfl, rfl, rfl, rfl, fun inStep => ⟨rfl, inStep.index⟩⟩, rfl⟩
  | false => exact ⟨⟨rfl, rfl, rfl, rfl, fun inStep => inStep⟩, mode⟩

theorem checkIndexRead (log : BlockLog Content Body) :
    SameFiles log log.checkIndexRead ∧
      log.checkIndexRead.indexWrite = false := by
  unfold BlockLog.checkIndexRead
  cases mode : log.indexWrite with
  | true => exact ⟨⟨rfl, rfl, rfl, rfl, fun inStep => ⟨inStep.block, rfl⟩⟩, rfl⟩
  | false => exact ⟨⟨rfl, rfl, rfl, rfl, fun inStep => inStep⟩, mode⟩

theorem checkBlockWrite (log : BlockLog Content Body) :
    SameFiles log log.checkBlockWrite ∧
      log.checkBlockWrite.blockWrite = true := by
  unfold BlockLog.checkBlockWrite
  cases mode : log.blockWrite with
  | true => exact ⟨⟨rfl, rfl, rfl, rfl, fun inStep => inStep⟩, mode⟩
  | false =>
      exact ⟨⟨rfl, rfl, rfl, rfl, fun inStep => ⟨rfl, inStep.index⟩⟩, rfl⟩

theorem checkIndexWrite (log : BlockLog Content Body) :
    SameFiles log log.checkIndexWrite ∧
      log.checkIndexWrite.indexWrite = true := by
  unfold BlockLog.checkIndexWrite
  cases mode : log.indexWrite with
  | true => exact ⟨⟨rfl, rfl, rfl, rfl, fun inStep => inStep⟩, mode⟩
  | false =>
      exact ⟨⟨rfl, rfl, rfl, rfl, fun inStep => ⟨inStep.block, rfl⟩⟩, rfl⟩

/-- Another position in the log file. -/
theorem ofBlockStream
    {blocks : FileStream}
    (kept : FileStream.Kept log.blockStream blocks) :
    SameFiles log { log with blockStream := blocks } :=
  ⟨kept.bytes, rfl, rfl, rfl,
    fun inStep => ⟨kept.appending.trans inStep.block, inStep.index⟩⟩

/-- Another position in the index file. -/
theorem ofIndexStream
    {index : FileStream}
    (kept : FileStream.Kept log.indexStream index) :
    SameFiles log { log with indexStream := index } :=
  ⟨rfl, kept.bytes, rfl, rfl,
    fun inStep => ⟨inStep.block, kept.appending.trans inStep.index⟩⟩

end SameFiles

theorem streamed_eq_ok_iff
    {Value : Type}
    {found : Option Value}
    {value : Value} :
    streamed found = .ok value ↔ found = some value := by
  cases found with
  | none => exact ⟨fun impossible => (nomatch impossible),
      fun impossible => (nomatch impossible)⟩
  | some other =>
      rw [Option.some.injEq]
      exact ⟨Except.ok.inj, congrArg Except.ok⟩

namespace BlockLog

variable {format : BlockFormat Content Body}
    {log after : BlockLog Content Body}

theorem readBlock_same
    {pos : Nat}
    {found : SignedBlock Content Body × Nat}
    (returned : log.readBlock format pos = .ok (found, after)) :
    SameFiles log after := by
  unfold readBlock at returned
  rcases (bind_eq_ok_iff _ _ _).1 returned with ⟨⟨block, blocks⟩, parsed, done⟩
  cases done
  have kept := (FileStream.kept_seek pos).trans
    (FileStream.kept_parse (streamed_eq_ok_iff.1 parsed))
  exact (SameFiles.checkBlockRead log).1.trans (.ofBlockStream kept)

theorem getBlockPos_same
    {blockNum pos : Nat}
    (returned : log.getBlockPos blockNum = .ok (pos, after)) :
    SameFiles log after := by
  unfold getBlockPos at returned
  dsimp only at returned
  split at returned
  · rcases (bind_eq_ok_iff _ _ _).1 returned with ⟨⟨pos', index⟩, found, done⟩
    cases done
    have kept := (FileStream.kept_seek (8 * (blockNum - 1))).trans
      (FileStream.kept_readWord (streamed_eq_ok_iff.1 found))
    exact (SameFiles.checkIndexRead log).1.trans (.ofIndexStream kept)
  · cases returned
    exact (SameFiles.checkIndexRead log).1

theorem readBlockByNum_same
    {blockNum : Nat}
    {found : Option (SignedBlock Content Body)}
    (returned : log.readBlockByNum format blockNum = .ok (found, after)) :
    SameFiles log after := by
  unfold readBlockByNum at returned
  rcases (bind_eq_ok_iff _ _ _).1 returned with ⟨⟨pos, middle⟩, located, read⟩
  have first := getBlockPos_same located
  dsimp only at read
  split at read
  · cases read
    exact first
  · rcases (bind_eq_ok_iff _ _ _).1 read with ⟨⟨⟨block, next⟩, last⟩, read, done⟩
    dsimp only at done
    split at done
    · cases done
      exact first.trans (readBlock_same read)
    · cases done

theorem readHead_same
    {block : SignedBlock Content Body}
    (returned : log.readHead format = .ok (block, after)) :
    SameFiles log after := by
  unfold readHead at returned
  rcases (bind_eq_ok_iff _ _ _).1 returned with ⟨sought, seeks, returned⟩
  rcases (bind_eq_ok_iff _ _ _).1 returned with ⟨⟨pos, word⟩, reads, returned⟩
  rcases (bind_eq_ok_iff _ _ _).1 returned with
    ⟨⟨⟨head, next⟩, last⟩, read, done⟩
  cases done
  have kept := (FileStream.kept_seekFromEnd (streamed_eq_ok_iff.1 seeks)).trans
    (FileStream.kept_readWord (streamed_eq_ok_iff.1 reads))
  exact (SameFiles.checkBlockRead log).1.trans
    ((SameFiles.ofBlockStream kept).trans (readBlock_same read))

end BlockLog

/-! ## What the files store -/

/-- The log file with these blocks. -/
structure StoresLog
    (format : BlockFormat Content Body)
    (blocks : List (SignedBlock Content Body))
    (log : BlockLog Content Body) : Prop where
  blockBytes : log.blockStream.bytes = logFrom format 0 blocks
  inStep : InStep log
  small : logSize format blocks < maxFileSize

/-- Both files and the head with these blocks. -/
structure Stores
    (format : BlockFormat Content Body)
    (blocks : List (SignedBlock Content Body))
    (log : BlockLog Content Body) : Prop extends
    StoresLog format blocks log where
  indexBytes : log.indexStream.bytes = indexFrom format 0 blocks
  head : log.head = blocks.getLast?
  headId : ∀ block ∈ log.head, log.headId = block.id

section Stored

variable {format : BlockFormat Content Body}
    {blocks before rest : List (SignedBlock Content Body)}
    {block : SignedBlock Content Body}
    {log after : BlockLog Content Body}

theorem SameFiles.storesLog
    (same : SameFiles log after)
    (stores : StoresLog format blocks log) :
    StoresLog format blocks after :=
  ⟨same.blockBytes.trans stores.blockBytes, same.inStep stores.inStep,
    stores.small⟩

theorem SameFiles.stores
    (same : SameFiles log after)
    (stores : Stores format blocks log) :
    Stores format blocks after := by
  refine ⟨same.storesLog stores.toStoresLog,
    same.indexBytes.trans stores.indexBytes, same.head.trans stores.head, ?_⟩
  rw [same.head, same.headId]
  exact stores.headId

/-- Appending a block writes it, and its position into both files. -/
theorem Stores.append
    {pos : Nat}
    (stores : Stores format blocks log)
    (appended : log.append format block = .ok (pos, after)) :
    Stores format (blocks ++ [block]) after ∧ pos = logSize format blocks := by
  have blockMode := SameFiles.checkBlockWrite log
  have indexMode := SameFiles.checkIndexWrite log.checkBlockWrite
  have ready := (blockMode.1.trans indexMode.1).stores stores
  unfold BlockLog.append at appended
  generalize log.checkBlockWrite.checkIndexWrite = ready' at appended ready
  dsimp only at appended
  have isPos : ready'.blockStream.tellp = logSize format blocks := by
    unfold FileStream.tellp
    rw [ready.blockBytes, length_logFrom]
  split at appended
  case isFalse => cases appended
  case isTrue =>
    rcases (bind_eq_ok_iff _ _ _).1 appended with ⟨first, packs, appended⟩
    rcases (bind_eq_ok_iff _ _ _).1 appended with ⟨second, closes, appended⟩
    rcases (bind_eq_ok_iff _ _ _).1 appended with ⟨third, lists, done⟩
    rcases FileStream.write_eq_some_iff.1 (streamed_eq_ok_iff.1 packs) with
      ⟨⟨mode, -⟩, rfl⟩
    rcases FileStream.write_eq_some_iff.1 (streamed_eq_ok_iff.1 closes) with
      ⟨⟨-, fits⟩, rfl⟩
    rcases FileStream.write_eq_some_iff.1 (streamed_eq_ok_iff.1 lists) with
      ⟨-, rfl⟩
    cases done
    rw [isPos] at fits ⊢
    refine ⟨⟨⟨?_, ⟨ready.inStep.block, ready.inStep.index⟩, ?_⟩, ?_, ?_, ?_⟩,
      rfl⟩
    · show (ready'.blockStream.bytes ++ _) ++ _ = _
      rw [ready.blockBytes, logFrom_append, Nat.zero_add, List.append_assoc]
      unfold logFrom logFrom
      rw [List.append_nil]
    · dsimp only at fits
      rw [List.length_append, ready.blockBytes, length_logFrom,
        length_wordBytes] at fits
      rw [logSize_append, logSize_cons]
      exact fits
    · show ready'.indexStream.bytes ++ _ = _
      rw [ready.indexBytes, indexFrom_append, Nat.zero_add]
      unfold indexFrom indexFrom
      rw [List.append_nil]
    · exact List.getLast?_concat.symm
    · rintro other ⟨⟩
      rfl

/-- A stored block is read at its position. -/
theorem StoresLog.readBlock
    (stores : StoresLog format (before ++ block :: rest) log) :
    ∃ after,
      log.readBlock format (logSize format before) =
          .ok ((block, logSize format (before ++ [block])), after) ∧
        SameFiles log after := by
  rcases SameFiles.checkBlockRead log with ⟨same, mode⟩
  have ready := same.storesLog stores
  have bytes : (log.checkBlockRead.blockStream.seek
      (logSize format before)).bytes =
        logFrom format 0 before ++ (format.pack block ++
          (wordBytes 8 (logSize format before) ++
            logFrom format (0 + logSize format before +
              (format.pack block).length + 8) rest)) := by
    show log.checkBlockRead.blockStream.bytes = _
    rw [ready.blockBytes, logFrom_append, Nat.zero_add]
    rfl
  have reading : (log.checkBlockRead.blockStream.seek
      (logSize format before)).appending = false :=
    ready.inStep.block.trans mode
  have parsed := FileStream.parse_eq reading bytes
    (length_logFrom 0 before).symm (format.unpack_pack block _)
  have ends : (logFrom format 0 before).length +
      (format.pack block).length + 8 =
        logSize format (before ++ [block]) := by
    rw [length_logFrom, logSize_append, logSize_cons]
    rfl
  have returned : ∃ after, log.readBlock format (logSize format before) =
      .ok ((block, logSize format (before ++ [block])), after) := by
    unfold BlockLog.readBlock
    dsimp only
    rw [parsed, ← ends]
    exact ⟨_, rfl⟩
  rcases returned with ⟨after, returned⟩
  exact ⟨after, returned, BlockLog.readBlock_same returned⟩

/-! ## Numbers -/

/-- The blocks are numbered from one on. -/
def NumberedLog (blocks : List (SignedBlock Content Body)) : Prop :=
  blocks.map SignedBlock.blockNum = List.range' 1 blocks.length

instance (blocks : List (SignedBlock Content Body)) :
    Decidable (NumberedLog blocks) :=
  inferInstanceAs (Decidable (_ = _))

theorem NumberedLog.blockNum
    (numbered : NumberedLog (before ++ block :: rest)) :
    block.blockNum = before.length + 1 := by
  have place : ((before ++ block :: rest).map SignedBlock.blockNum)[
      before.length]? = some block.blockNum := by
    rw [List.getElem?_map, List.getElem?_append_right (Nat.le_refl _),
      Nat.sub_self]
    rfl
  rw [numbered] at place
  rcases List.getElem?_eq_some_iff.1 place with ⟨below, same⟩
  rw [List.getElem_range', Nat.one_mul] at same
  omega

/-- The blocks before one of them, and those behind it. -/
theorem exists_split
    {place : Nat}
    (below : place < blocks.length) :
    ∃ before block rest, blocks = before ++ block :: rest ∧
      before.length = place ∧ blocks[place]? = some block := by
  refine ⟨blocks.take place, blocks[place], blocks.drop (place + 1), ?_, ?_,
    List.getElem?_eq_getElem below⟩
  · rw [List.getElem_cons_drop, List.take_append_drop]
  · exact List.length_take_of_le (Nat.le_of_lt below)

/-- The number of the head is the number of blocks. -/
theorem Stores.headId_num
    (stores : Stores format blocks log)
    (numbered : NumberedLog blocks)
    {head : SignedBlock Content Body}
    (isHead : log.head = some head) :
    log.headId.num = blocks.length := by
  rw [stores.headId head isHead, SignedBlock.id_num]
  rw [stores.head] at isHead
  rcases List.getLast?_eq_some_iff.1 isHead with ⟨before, rfl⟩
  rw [numbered.blockNum, List.length_append]
  rfl

/-- A position in the log fits into a word. -/
theorem StoresLog.position_lt
    (stores : StoresLog format (before ++ rest) log) :
    logSize format before < maxFileSize := by
  have small := stores.small
  rw [logSize_append] at small
  omega

theorem Stores.getBlockPos
    (stores : Stores format (before ++ block :: rest) log)
    (numbered : NumberedLog (before ++ block :: rest)) :
    ∃ after,
      log.getBlockPos (before.length + 1) =
          .ok (logSize format before, after) ∧
        Stores format (before ++ block :: rest) after := by
  rcases SameFiles.checkIndexRead log with ⟨same, mode⟩
  have ready := same.stores stores
  have position : 8 * (before.length + 1 - 1) =
      (indexFrom format 0 before).length := by
    rw [length_indexFrom, Nat.add_sub_cancel]
  have bytes : (log.checkIndexRead.indexStream.seek
      (8 * (before.length + 1 - 1))).bytes =
        indexFrom format 0 before ++
          (wordBytes 8 (logSize format before) ++
            indexFrom format (0 + logSize format before +
              (format.pack block).length + 8) rest) := by
    show log.checkIndexRead.indexStream.bytes = _
    rw [ready.indexBytes, indexFrom_append, Nat.zero_add]
    rfl
  have reading : (log.checkIndexRead.indexStream.seek
      (8 * (before.length + 1 - 1))).appending = false :=
    ready.inStep.index.trans mode
  have small : logSize format before < 2 ^ 64 :=
    Nat.lt_trans stores.position_lt (by decide)
  have word := FileStream.readWord_eq reading bytes position small
  have started : log.checkIndexRead.head.isSome := by
    rw [ready.head]
    simp
  rcases Option.isSome_iff_exists.1 started with ⟨head, isHead⟩
  have height := ready.headId_num numbered isHead
  have within : before.length + 1 ≤ log.checkIndexRead.headId.num := by
    rw [height, List.length_append, List.length_cons]
    omega
  have returned : ∃ after, log.getBlockPos (before.length + 1) =
      .ok (logSize format before, after) := by
    unfold BlockLog.getBlockPos
    dsimp only
    rw [if_pos ⟨started, within, Nat.succ_pos _⟩, word]
    exact ⟨_, rfl⟩
  rcases returned with ⟨after, returned⟩
  exact ⟨after, returned, (BlockLog.getBlockPos_same returned).stores stores⟩

/-- A block is read by its number, and nothing by another number. -/
theorem Stores.readBlockByNum
    (stores : Stores format blocks log)
    (numbered : NumberedLog blocks)
    (blockNum : Nat) :
    ∃ after, log.readBlockByNum format blockNum =
      .ok (if blockNum = 0 then none else blocks[blockNum - 1]?, after) := by
  by_cases inside : 0 < blockNum ∧ blockNum - 1 < blocks.length
  case pos =>
    rcases exists_split inside.2 with ⟨before, block, rest, rfl, place, at_⟩
    have same : blockNum = before.length + 1 := by omega
    subst same
    rcases stores.getBlockPos numbered with ⟨middle, located, further⟩
    rcases further.toStoresLog.readBlock with ⟨after, read, -⟩
    have found : logSize format before ≠ BlockLog.npos := by
      have small := stores.position_lt
      unfold maxFileSize at small
      unfold BlockLog.npos
      omega
    refine ⟨after, ?_⟩
    unfold BlockLog.readBlockByNum
    rw [located]
    simp only [ok_bind]
    rw [if_neg found, read, if_neg (Nat.succ_ne_zero _), at_]
    simp only [ok_bind]
    rw [if_pos numbered.blockNum]
    rfl
  case neg =>
    rcases SameFiles.checkIndexRead log with ⟨same, -⟩
    have ready := same.stores stores
    have outside : ¬ (log.checkIndexRead.head.isSome ∧
        blockNum ≤ log.checkIndexRead.headId.num ∧ 0 < blockNum) := by
      rintro ⟨started, within, positive⟩
      rcases Option.isSome_iff_exists.1 started with ⟨head, isHead⟩
      rw [ready.headId_num numbered isHead] at within
      omega
    have nothing : (if blockNum = 0 then none else blocks[blockNum - 1]?) =
        none := by
      split
      · rfl
      · exact List.getElem?_eq_none (by omega)
    rw [nothing]
    refine ⟨log.checkIndexRead, ?_⟩
    unfold BlockLog.readBlockByNum BlockLog.getBlockPos
    dsimp only
    rw [if_neg outside]
    rfl

/-- The last word of the log file is the position of the head. -/
theorem StoresLog.lastWord
    (stores : StoresLog format (before ++ [block]) log) :
    ∃ blocks,
      (do
        let sought ← streamed (log.checkBlockRead.blockStream.seekFromEnd 8)
        streamed sought.readWord) = .ok (logSize format before, blocks) ∧
        FileStream.Kept log.checkBlockRead.blockStream blocks := by
  rcases SameFiles.checkBlockRead log with ⟨same, mode⟩
  have ready := same.storesLog stores
  have bytes : log.checkBlockRead.blockStream.bytes =
      (logFrom format 0 before ++ format.pack block) ++
        (wordBytes 8 (logSize format before)) := by
    rw [ready.blockBytes, logFrom_append, Nat.zero_add, List.append_assoc]
    unfold logFrom logFrom
    rw [List.append_nil]
  have sought := FileStream.seekFromEnd_eq bytes
  rw [length_wordBytes] at sought
  have reading : (log.checkBlockRead.blockStream.seek (logFrom format 0 before ++
      format.pack block).length).appending = false :=
    ready.inStep.block.trans mode
  have small : logSize format before < 2 ^ 64 :=
    Nat.lt_trans stores.position_lt (by decide)
  have ends : (log.checkBlockRead.blockStream.seek (logFrom format 0 before ++
      format.pack block).length).bytes =
        (logFrom format 0 before ++ format.pack block) ++
          (wordBytes 8 (logSize format before) ++ []) := by
    rw [List.append_nil]
    exact bytes
  have word := FileStream.readWord_eq reading ends rfl small
  have found : (do
      let sought ← streamed (log.checkBlockRead.blockStream.seekFromEnd 8)
      streamed sought.readWord) = streamed (some
        (logSize format before, (log.checkBlockRead.blockStream.seek
          (logFrom format 0 before ++ format.pack block).length).seek
            ((logFrom format 0 before ++ format.pack block).length + 8))) := by
    rw [sought]
    simp only [streamed, ok_bind]
    rw [word]
  exact ⟨_, found, (FileStream.kept_seek _).trans (FileStream.kept_seek _)⟩

/-- The head is found from the last word of the log. -/
theorem StoresLog.readHead
    (stores : StoresLog format (before ++ [block]) log) :
    ∃ after, log.readHead format = .ok (block, after) ∧
      SameFiles log after := by
  rcases stores.lastWord with ⟨blocks, word, kept⟩
  rcases (bind_eq_ok_iff _ _ _).1 word with ⟨sought, seeks, reads⟩
  have same := (SameFiles.checkBlockRead log).1
  have further := (SameFiles.ofBlockStream kept).storesLog
    (same.storesLog stores)
  rcases further.readBlock with ⟨after, read, -⟩
  have returned : log.readHead format = .ok (block, after) := by
    unfold BlockLog.readHead
    dsimp only
    rw [seeks]
    simp only [ok_bind]
    rw [reads]
    simp only [ok_bind]
    rw [read]
    rfl
  exact ⟨after, returned, BlockLog.readHead_same returned⟩

/-! ## The walk over the log -/

/-- From the position of a block the walk yields this block and all behind it. -/
theorem StoresLog.blocksAlong
    {rounds : Nat}
    (stores : StoresLog format blocks log)
    (numbered : NumberedLog blocks)
    (split : blocks = before ++ block :: rest)
    (enough : rest.length < rounds) :
    ∃ after,
      log.blocksAlong format blocks.length rounds (logSize format before) =
        .ok ((block :: rest, logSize format blocks), after) := by
  induction rounds generalizing before block rest log with
  | zero => exact absurd enough (Nat.not_lt_zero _)
  | succ rounds induction =>
      subst split
      rcases stores.readBlock with ⟨middle, read, same⟩
      have further := same.storesLog stores
      have number := numbered.blockNum
      unfold BlockLog.blocksAlong
      rw [read]
      simp only [ok_bind]
      cases rest with
      | nil =>
          have isLast : block.blockNum = (before ++ [block]).length := by
            rw [number, List.length_append]
            rfl
          rw [if_pos isLast]
          exact ⟨middle, rfl⟩
      | cons next rest =>
          have notLast :
              block.blockNum ≠ (before ++ block :: next :: rest).length := by
            rw [number, List.length_append]
            simp
          rw [List.length_cons] at enough
          rcases induction further
            (List.append_cons before block (next :: rest))
            (Nat.lt_of_succ_lt_succ enough) with ⟨after, along⟩
          rw [if_neg notLast, along]
          exact ⟨after, rfl⟩

end Stored

/-! ## Runs -/

/-- The blocks which calls have appended. -/
def appendedBlocks
    (calls : List (LogCall Content Body)) :
    List (SignedBlock Content Body) :=
  calls.filterMap LogCall.appended

section Runs

variable {format : BlockFormat Content Body}
    {blocks : List (SignedBlock Content Body)}
    {log after : BlockLog Content Body}

theorem exists_of_map_snd
    {Value State : Type}
    {result : Except LogError (Value × State)}
    {state : State}
    (mapped : result.map Prod.snd = .ok state) :
    ∃ value, result = .ok (value, state) := by
  cases result with
  | error fault => cases mapped
  | ok pair =>
      cases mapped
      exact ⟨pair.1, rfl⟩

/-- A call keeps what is stored, and adds the block it appends. -/
theorem Stores.run
    {call : LogCall Content Body}
    (stores : Stores format blocks log)
    (returned : call.run format log = .ok after) :
    Stores format (blocks ++ call.appended.toList) after := by
  cases call with
  | append block =>
      rcases exists_of_map_snd returned with ⟨pos, appended⟩
      exact (stores.append appended).1
  | readBlock pos =>
      rcases exists_of_map_snd returned with ⟨found, read⟩
      show Stores format (blocks ++ []) after
      rw [List.append_nil]
      exact (BlockLog.readBlock_same read).stores stores
  | readBlockByNum blockNum =>
      rcases exists_of_map_snd returned with ⟨found, read⟩
      show Stores format (blocks ++ []) after
      rw [List.append_nil]
      exact (BlockLog.readBlockByNum_same read).stores stores
  | readHead =>
      rcases exists_of_map_snd returned with ⟨found, read⟩
      show Stores format (blocks ++ []) after
      rw [List.append_nil]
      exact (BlockLog.readHead_same read).stores stores

theorem Stores.runCalls
    {calls : List (LogCall Content Body)}
    (stores : Stores format blocks log)
    (returned : runCalls format log calls = .ok after) :
    Stores format (blocks ++ appendedBlocks calls) after := by
  unfold Chain.runCalls at returned
  induction calls generalizing blocks log with
  | nil =>
      cases returned
      rw [appendedBlocks, List.filterMap_nil, List.append_nil]
      exact stores
  | cons call calls induction =>
      rw [List.foldlM_cons] at returned
      rcases (bind_eq_ok_iff _ _ _).1 returned with ⟨middle, first, later⟩
      have stored := induction (stores.run first) later
      have same : blocks ++ appendedBlocks (call :: calls) =
          blocks ++ call.appended.toList ++ appendedBlocks calls := by
        unfold appendedBlocks
        rw [List.append_assoc, List.filterMap_cons]
        cases call.appended <;> rfl
      rw [same]
      exact stored

/-- Two new files store nothing. -/
theorem stores_new
    (opened : BlockLog.openFiles format [] [] = .ok log) :
    Stores format [] log := by
  cases opened
  exact ⟨⟨rfl, ⟨rfl, rfl⟩, Nat.two_pow_pos 63⟩, rfl, rfl,
    fun _ none => (nomatch none)⟩

/--
After any calls which return, a block is read by its number and by the walk
from the beginning of the log, and the last block as the head.
-/
theorem block_log_round_trip
    {calls : List (LogCall Content Body)}
    (returned :
      (do
        let opened ← BlockLog.openFiles format [] []
        runCalls format opened calls) = .ok log)
    (numbered : NumberedLog (appendedBlocks calls)) :
    (∀ blockNum, ∃ after, log.readBlockByNum format blockNum =
      .ok (if blockNum = 0 then none
        else (appendedBlocks calls)[blockNum - 1]?, after)) ∧
      (∀ head, (appendedBlocks calls).getLast? = some head →
        ∃ after, log.readHead format = .ok (head, after)) ∧
        (appendedBlocks calls ≠ [] →
          ∀ rounds, (appendedBlocks calls).length ≤ rounds →
            ∃ after, log.blocksAlong format (appendedBlocks calls).length
                rounds 0 =
              .ok ((appendedBlocks calls, log.blockStream.bytes.length),
                after)) := by
  rcases (bind_eq_ok_iff _ _ _).1 returned with ⟨opened, opens, runs⟩
  have stores := (stores_new opens).runCalls runs
  rw [List.nil_append] at stores
  have size : log.blockStream.bytes.length =
      logSize format (appendedBlocks calls) := by
    rw [stores.blockBytes, length_logFrom]
  rw [size]
  generalize appendedBlocks calls = blocks at numbered stores
  refine ⟨stores.readBlockByNum numbered, ?_, ?_⟩
  · intro head isHead
    rcases List.getLast?_eq_some_iff.1 isHead with ⟨before, rfl⟩
    rcases stores.toStoresLog.readHead with ⟨after, read, -⟩
    exact ⟨after, read⟩
  · intro filled rounds enough
    cases blocks with
    | nil => exact absurd rfl filled
    | cons block rest =>
        have split : block :: rest = [] ++ block :: rest := rfl
        exact stores.toStoresLog.blocksAlong numbered split enough

end Runs

/-! ## A format for small blocks -/

/-- A number as ones with a zero behind them. -/
def packNat (value : Nat) : List UInt8 :=
  List.replicate value 1 ++ [0]

def unpackNat : List UInt8 → Option (Nat × List UInt8)
  | [] => none
  | byte :: rest =>
      if byte = 0 then some (0, rest)
      else do
        let (value, rest) ← unpackNat rest
        return (value + 1, rest)

theorem unpackNat_packNat
    (value : Nat)
    (rest : List UInt8) :
    unpackNat (packNat value ++ rest) = some (value, rest) := by
  induction value with
  | zero => rfl
  | succ value induction =>
      unfold packNat at induction ⊢
      rw [List.replicate_succ, List.cons_append, List.cons_append, unpackNat,
        if_neg (by decide), induction]
      rfl

/-- An id by its headers, down to the one which is no header's digest. -/
def packId : BlockId Nat → List UInt8
  | .zero => [0]
  | .unknown num hash => 1 :: (packNat num ++ packNat hash)
  | .header content previous => 2 :: (packNat content ++ packId previous)

def unpackId : Nat → List UInt8 → Option (BlockId Nat × List UInt8)
  | 0, _ => none
  | _ + 1, [] => none
  | depth + 1, byte :: rest =>
      if byte = 0 then some (.zero, rest)
      else if byte = 1 then do
        let (num, rest) ← unpackNat rest
        let (hash, rest) ← unpackNat rest
        return (.unknown num hash, rest)
      else do
        let (content, rest) ← unpackNat rest
        let (previous, rest) ← unpackId depth rest
        return (.header content previous, rest)

theorem unpackId_packId
    {id : BlockId Nat}
    {depth : Nat}
    (enough : (packId id).length ≤ depth)
    (rest : List UInt8) :
    unpackId depth (packId id ++ rest) = some (id, rest) := by
  induction id generalizing depth with
  | zero =>
      cases depth with
      | zero => cases enough
      | succ depth => rfl
  | unknown num hash =>
      cases depth with
      | zero => cases enough
      | succ depth =>
          rw [packId, List.cons_append, List.append_assoc, unpackId,
            if_neg (by decide), if_pos rfl, unpackNat_packNat]
          simp only [Option.bind_eq_bind, Option.bind_some]
          rw [unpackNat_packNat]
          rfl
  | header content previous induction =>
      rw [packId, List.length_cons, List.length_append] at enough
      cases depth with
      | zero => cases enough
      | succ depth =>
          rw [packId, List.cons_append, List.append_assoc, unpackId,
            if_neg (by decide), if_neg (by decide), unpackNat_packNat]
          simp only [Option.bind_eq_bind, Option.bind_some]
          rw [induction (by omega)]
          rfl

/-- Blocks packed as their predecessor, their content, and their body. -/
def sampleFormat : BlockFormat Nat Bool where
  pack block :=
    packId block.previous ++
      (packNat block.content ++ packNat (if block.body then 1 else 0))
  unpack bytes := do
    let (previous, rest) ← unpackId bytes.length bytes
    let (content, rest) ← unpackNat rest
    let (body, rest) ← unpackNat rest
    return (⟨previous, content, decide (body = 1)⟩, rest)
  unpack_pack block rest := by
    rcases block with ⟨previous, content, body⟩
    dsimp only
    rw [List.append_assoc, List.append_assoc, unpackId_packId (by simp)]
    simp only [Option.bind_eq_bind, Option.bind_some]
    rw [unpackNat_packNat]
    simp only [Option.bind_some]
    rw [unpackNat_packNat]
    cases body <;> rfl

/-- Two blocks appended, with reads before, between and after. -/
def mixedCalls : List (LogCall Nat Bool) :=
  let first : SignedBlock Nat Bool := ⟨.zero, 0, true⟩
  [.readBlockByNum 1, .append first, .readHead, .readBlockByNum 1,
    .append ⟨first.id, 1, false⟩, .readBlock 0]

/-- The log after `mixedCalls`. -/
def mixedLog : BlockLog Nat Bool :=
  match (do
    let opened ← BlockLog.openFiles sampleFormat [] []
    runCalls sampleFormat opened mixedCalls) with
  | .ok log => log
  | .error _ => ⟨⟨[], true, 0⟩, ⟨[], true, 0⟩, true, true, none, .zero⟩

theorem block_log_round_trip_mixed :
    (∀ blockNum, ∃ after, mixedLog.readBlockByNum sampleFormat blockNum =
      .ok (if blockNum = 0 then none
        else (appendedBlocks mixedCalls)[blockNum - 1]?, after)) ∧
      (∀ head, (appendedBlocks mixedCalls).getLast? = some head →
        ∃ after, mixedLog.readHead sampleFormat = .ok (head, after)) ∧
        (appendedBlocks mixedCalls ≠ [] →
          ∀ rounds, (appendedBlocks mixedCalls).length ≤ rounds →
            ∃ after, mixedLog.blocksAlong sampleFormat
                (appendedBlocks mixedCalls).length rounds 0 =
              .ok ((appendedBlocks mixedCalls,
                mixedLog.blockStream.bytes.length), after)) :=
  block_log_round_trip (by rfl) (by decide)

end BMChain.Chain
