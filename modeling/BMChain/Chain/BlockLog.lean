import BMChain.Foundation.FileStream
import BMChain.Protocol.Block

/-!
# The block log

The log file holds the packed blocks, each with its own position behind it; the
index file holds the positions alone.  Both files have one stream each, which
is closed and opened again whenever the log changes between reading and
appending.  A call which throws leaves a stream with its failure bit set; calls
are followed as long as they return.
-/

namespace BMChain.Chain

open BMChain.Protocol BMChain.Foundation

/-- How `fc::raw` packs blocks: unpacking takes the packed bytes, no others. -/
structure BlockFormat (Content Body : Type) where
  pack : SignedBlock Content Body → List UInt8
  unpack : List UInt8 → Option (SignedBlock Content Body × List UInt8)
  unpack_pack : ∀ block rest,
    unpack (pack block ++ rest) = some (block, rest)

/-- Why a call of the block log throws. -/
inductive LogError where
  /-- A stream fails, or a block does not unpack. -/
  | stream
  | wrongPosition
  | wrongBlock
  /-- A loop does not come to an end. -/
  | endless
  deriving DecidableEq, Repr

/-- `block_log_impl`. -/
structure BlockLog (Content Body : Type) where
  blockStream : FileStream
  indexStream : FileStream
  blockWrite : Bool
  indexWrite : Bool
  head : Option (SignedBlock Content Body)
  headId : BlockId Content

variable {Content Body : Type}
variable (format : BlockFormat Content Body)

/-- The streams have their exceptions enabled. -/
def streamed {Value : Type} : Option Value → Except LogError Value
  | none => .error .stream
  | some value => .ok value

namespace BlockLog

/-! ## Modes of the streams -/

/-- `check_block_read`. -/
def checkBlockRead (log : BlockLog Content Body) : BlockLog Content Body :=
  if log.blockWrite then
    { log with
      blockStream := log.blockStream.reopen false
      blockWrite := false }
  else
    log

/-- `check_block_write`. -/
def checkBlockWrite (log : BlockLog Content Body) : BlockLog Content Body :=
  if log.blockWrite then
    log
  else
    { log with
      blockStream := log.blockStream.reopen true
      blockWrite := true }

/-- `check_index_read`. -/
def checkIndexRead (log : BlockLog Content Body) : BlockLog Content Body :=
  if log.indexWrite then
    { log with
      indexStream := log.indexStream.reopen false
      indexWrite := false }
  else
    log

/-- `check_index_write`. -/
def checkIndexWrite (log : BlockLog Content Body) : BlockLog Content Body :=
  if log.indexWrite then
    log
  else
    { log with
      indexStream := log.indexStream.reopen true
      indexWrite := true }

/-! ## Appending and reading -/

/-- `append`; the number is decremented in 32 bits. -/
def append
    (log : BlockLog Content Body)
    (block : SignedBlock Content Body) :
    Except LogError (Nat × BlockLog Content Body) :=
  let log := log.checkBlockWrite.checkIndexWrite
  let pos := log.blockStream.tellp
  let indexPos := log.indexStream.tellp
  if indexPos = 8 * ((block.blockNum + (2 ^ 32 - 1)) % 2 ^ 32) then do
    let blocks ← streamed (log.blockStream.write (format.pack block))
    let blocks ← streamed (blocks.write (wordBytes 8 pos))
    let index ← streamed (log.indexStream.write (wordBytes 8 pos))
    return (pos,
      { log with
        blockStream := blocks
        indexStream := index
        head := some block
        headId := block.id })
  else
    .error .wrongPosition

/-- `read_block`: the block at a position, and the position behind it. -/
def readBlock
    (log : BlockLog Content Body)
    (pos : Nat) :
    Except LogError
      ((SignedBlock Content Body × Nat) × BlockLog Content Body) := do
  let log := log.checkBlockRead
  let (block, blocks) ← streamed
    ((log.blockStream.seek pos).parse format.unpack)
  return ((block, blocks.position + 8), { log with blockStream := blocks })

/-- `block_log::npos`. -/
def npos : Nat := 2 ^ 64 - 1

/-- `get_block_pos`. -/
def getBlockPos
    (log : BlockLog Content Body)
    (blockNum : Nat) :
    Except LogError (Nat × BlockLog Content Body) :=
  let log := log.checkIndexRead
  if log.head.isSome ∧ blockNum ≤ log.headId.num ∧ 0 < blockNum then do
    let (pos, index) ← streamed
      (log.indexStream.seek (8 * (blockNum - 1))).readWord
    return (pos, { log with indexStream := index })
  else
    .ok (npos, log)

/-- `read_block_by_num`. -/
def readBlockByNum
    (log : BlockLog Content Body)
    (blockNum : Nat) :
    Except LogError
      (Option (SignedBlock Content Body) × BlockLog Content Body) := do
  let (pos, log) ← log.getBlockPos blockNum
  if pos = npos then
    return (none, log)
  else
    let ((block, _), log) ← log.readBlock format pos
    if block.blockNum = blockNum then
      return (some block, log)
    else
      throw .wrongBlock

/-- `read_head`. -/
def readHead
    (log : BlockLog Content Body) :
    Except LogError (SignedBlock Content Body × BlockLog Content Body) := do
  let log := log.checkBlockRead
  let blocks ← streamed (log.blockStream.seekFromEnd 8)
  let (pos, blocks) ← streamed blocks.readWord
  let ((block, _), log) ← { log with blockStream := blocks }.readBlock format pos
  return (block, log)

/-! ## The iteration over the log -/

/--
The loop of `database::reindex` over the log, from a position on, up to the
block with the number of the head; the blocks it applies, and the position
behind the last one.
-/
def blocksAlong
    (format : BlockFormat Content Body)
    (lastBlockNum : Nat) :
    Nat → Nat → BlockLog Content Body →
      Except LogError
        ((List (SignedBlock Content Body) × Nat) × BlockLog Content Body)
  | 0, _, _ => .error .endless
  | rounds + 1, pos, log => do
      let ((block, next), log) ← log.readBlock format pos
      if block.blockNum = lastBlockNum then
        return (([block], next), log)
      else
        let ((blocks, last), log) ←
          blocksAlong format lastBlockNum rounds next log
        return ((block :: blocks, last), log)

/-! ## Opening the files -/

/-- The loop of `construct_index`, which reads positions from the log. -/
def indexAlong
    (format : BlockFormat Content Body)
    (endPos : Nat) :
    Nat → Nat → FileStream → FileStream →
      Except LogError (FileStream × FileStream)
  | 0, _, _, _ => .error .endless
  | rounds + 1, pos, blocks, index =>
      if pos < endPos then do
        let (_, blocks) ← streamed (blocks.parse format.unpack)
        let (pos, blocks) ← streamed blocks.readWord
        let index ← streamed (index.write (wordBytes 8 pos))
        indexAlong format endPos rounds pos blocks index
      else
        .ok (blocks, index)

/-- `construct_index`; every round of its loop reads a word at least. -/
def constructIndex
    (log : BlockLog Content Body) :
    Except LogError (BlockLog Content Body) := do
  let log :=
    { log with indexStream := ⟨[], true, 0⟩, indexWrite := true }.checkBlockRead
  let blocks ← streamed (log.blockStream.seekFromEnd 8)
  let (endPos, blocks) ← streamed blocks.readWord
  let (blocks, index) ← indexAlong format endPos (blocks.bytes.length + 1) 0
    (blocks.seek 0) log.indexStream
  return { log with blockStream := blocks, indexStream := index }

/-- `open`, with the bytes of both files; a missing file has none. -/
def openFiles
    (blockBytes indexBytes : List UInt8) :
    Except LogError (BlockLog Content Body) :=
  let log : BlockLog Content Body :=
    { blockStream := ⟨blockBytes, true, 0⟩
      indexStream := ⟨indexBytes, true, 0⟩
      blockWrite := true
      indexWrite := true
      head := none
      headId := .zero }
  if blockBytes ≠ [] then do
    let (block, log) ← log.readHead format
    let log := { log with head := some block, headId := block.id }
    if indexBytes ≠ [] then
      let log := log.checkBlockRead.checkIndexRead
      let blocks ← streamed (log.blockStream.seekFromEnd 8)
      let (blockPos, blocks) ← streamed blocks.readWord
      let index ← streamed (log.indexStream.seekFromEnd 8)
      let (indexPos, index) ← streamed index.readWord
      let log := { log with blockStream := blocks, indexStream := index }
      if blockPos < indexPos then
        log.constructIndex format
      else if blockPos > indexPos then
        log.constructIndex format
      else
        return log
    else
      log.constructIndex format
  else if indexBytes ≠ [] then
    .ok { log with indexStream := ⟨[], true, 0⟩, indexWrite := true }
  else
    .ok log

end BlockLog

/-! ## Runs -/

/-- The calls of a block log. -/
inductive LogCall (Content Body : Type) where
  | append (block : SignedBlock Content Body)
  | readBlock (pos : Nat)
  | readBlockByNum (blockNum : Nat)
  | readHead
  deriving DecidableEq

namespace LogCall

/-- The block a call appends. -/
def appended : LogCall Content Body → Option (SignedBlock Content Body)
  | .append block => some block
  | _ => none

/-- The log after a call which returns. -/
def run
    (log : BlockLog Content Body) :
    LogCall Content Body → Except LogError (BlockLog Content Body)
  | .append block => (log.append format block).map Prod.snd
  | .readBlock pos => (log.readBlock format pos).map Prod.snd
  | .readBlockByNum blockNum =>
      (log.readBlockByNum format blockNum).map Prod.snd
  | .readHead => (log.readHead format).map Prod.snd

end LogCall

/-- The log after calls which return, one after the other. -/
def runCalls
    (log : BlockLog Content Body)
    (calls : List (LogCall Content Body)) :
    Except LogError (BlockLog Content Body) :=
  calls.foldlM (LogCall.run format) log

end BMChain.Chain
