import HashKinetics.Foundations.Framing
import HashKinetics.Foundations.Transition
import HashKinetics.Node.Batch

/-!
# The block log on disk

A committed block is written to a file of its own.  Once a whole span of heights lies below a
snapshot, its files are packed into one segment and deleted: the segment holds the files as frames,
followed by a table with one offset per height of the span, zero for a height that had no file, and
a trailer with the position of the table.
-/

namespace HashKinetics

open Foundations

/-- How many heights a segment spans. -/
def SEGMENT_SPAN : ℕ := 1024

/-- The bytes "HKS1" at both ends of a segment. -/
def SEGMENT_MAGIC : List UInt8 := [72, 75, 83, 49]

def SEGMENT_TRAILER : ℕ := 12
def SEGMENT_INDEX_BYTES : ℕ := SEGMENT_SPAN * 8

/-- The serialisation of a block in the log. -/
class BlockCodec (H : Type) where
  encodeBlock : StoredBlock H → List UInt8
  decodeBlock : List UInt8 → Option (StoredBlock H)

/-- Serialisation of the block is lossless, and its bytes fit a 32-bit length. -/
def BlockCodec.Lossless {H : Type} [BlockCodec H] (b : StoredBlock H) : Prop :=
  BlockCodec.decodeBlock (BlockCodec.encodeBlock b) = some b ∧
    (BlockCodec.encodeBlock b : List UInt8).length < 2 ^ 32

/-- Why the log cannot be read. -/
inductive LogError where
  | truncatedSegment (id : ℕ)
  | badMagic (id : ℕ)
  | badIndexOffset (id : ℕ)
  | shortRead (id : ℕ)
  | corruptFrame (height id : ℕ)
  | wrongSlot (height id : ℕ)
  | corruptFile (height : ℕ)
  | verificationRead (id : ℕ)
  deriving DecidableEq

/-- The directory of the log: a file per height, and segments by number. -/
structure BlockLog where
  files : OrderedMap ℕ (List UInt8)
  segments : OrderedMap ℕ (List UInt8)

namespace BlockLog

/-- The empty log. -/
def new : BlockLog := ⟨∅, ∅⟩

/-! ## Reading -/

/-- A segment's bytes and the position of its table, once both ends were checked. -/
def openSegment (l : BlockLog) (id : ℕ) : Except LogError (Option (List UInt8 × ℕ)) :=
  match l.segments[id]? with
  | none => .ok none
  | some bytes =>
    if bytes.length < 4 + SEGMENT_INDEX_BYTES + SEGMENT_TRAILER then .error (.truncatedSegment id)
    else
      let trailer := bytes.drop (bytes.length - SEGMENT_TRAILER)
      if bytes.take 4 ≠ SEGMENT_MAGIC ∨ trailer.drop 8 ≠ SEGMENT_MAGIC then .error (.badMagic id)
      else
        let indexOffset := leNat (trailer.take 8)
        if indexOffset + SEGMENT_INDEX_BYTES + SEGMENT_TRAILER ≠ bytes.length then
          .error (.badIndexOffset id)
        else .ok (some (bytes, indexOffset))

/-- The offset in a slot of a segment's table. -/
def slotOffset (bytes : List UInt8) (indexOffset slot : ℕ) : ℕ :=
  leNat ((bytes.drop (indexOffset + slot * 8)).take 8)

/-- The payload of the frame at an offset of a segment. -/
def frameAt (id : ℕ) (bytes : List UInt8) (off : ℕ) : Except LogError (List UInt8) :=
  if bytes.length < off + 4 then .error (.shortRead id)
  else
    let len := leNat ((bytes.drop off).take 4)
    if bytes.length < off + 4 + len then .error (.shortRead id)
    else .ok ((bytes.drop (off + 4)).take len)

/-- The heights present in a segment, from its table. -/
def segmentHeights (l : BlockLog) (id : ℕ) : Except LogError (List ℕ) := do
  match ← l.openSegment id with
  | none => return []
  | some (bytes, indexOffset) =>
    return ((List.range SEGMENT_SPAN).filter fun i => slotOffset bytes indexOffset i ≠ 0).map
      (id * SEGMENT_SPAN + ·)

/-- All stored heights, ascending; a segment that cannot be read is skipped. -/
def blockHeights (l : BlockLog) : List ℕ :=
  let listed := l.files.keys ++ l.segments.keys.flatMap fun id =>
    match l.segmentHeights id with
    | .ok hs => hs
    | .error _ => []
  (listed.insertionSort (· ≤ ·)).dedup

variable {H : Type} [BlockCodec H]

/-- A block from its segment. -/
def loadFromSegment (l : BlockLog) (height : ℕ) : Except LogError (Option (StoredBlock H)) :=
  let id := height / SEGMENT_SPAN
  match l.openSegment id with
  | .error e => .error e
  | .ok none => .ok none
  | .ok (some (bytes, indexOffset)) =>
    let off := slotOffset bytes indexOffset (height % SEGMENT_SPAN)
    if off = 0 then .ok none
    else
      match frameAt id bytes off with
      | .error e => .error e
      | .ok payload =>
        match BlockCodec.decodeBlock payload with
        | none => .error (.corruptFrame height id)
        | some b => if b.height ≠ height then .error (.wrongSlot height id) else .ok (some b)

/-- A block by height: its own file if there still is one, its segment otherwise. -/
def loadBlock (l : BlockLog) (height : ℕ) : Except LogError (Option (StoredBlock H)) :=
  match l.files[height]? with
  | some bytes =>
    match BlockCodec.decodeBlock bytes with
    | some b => .ok (some b)
    | none => .error (.corruptFile height)
  | none => l.loadFromSegment height

/-! ## Writing -/

/-- Write a block to its own file. -/
def saveBlock (l : BlockLog) (b : StoredBlock H) : BlockLog :=
  { l with files := l.files.insert b.height (BlockCodec.encodeBlock b) }

/-- Append one file to the body of a segment and its offset to the table. -/
def packStep (get : ℕ → Option (List UInt8)) (acc : List UInt8 × List ℕ) (i : ℕ) :
    List UInt8 × List ℕ :=
  match get i with
  | some bytes => (acc.1 ++ frame bytes, acc.2 ++ [acc.1.length])
  | none => (acc.1, acc.2 ++ [0])

/-- The segment of the given files, by their place in the span. -/
def packed (get : ℕ → Option (List UInt8)) : List UInt8 :=
  let (body, index) := (List.range SEGMENT_SPAN).foldl (packStep get) (SEGMENT_MAGIC, [])
  body ++ index.flatMap (leOf 8) ++ leOf 8 body.length ++ SEGMENT_MAGIC

/-- The file at a place of a span. -/
def fileAt (l : BlockLog) (id i : ℕ) : Option (List UInt8) := l.files[id * SEGMENT_SPAN + i]?

/-- Write the segment of a span unless there is one already; whether there is one afterwards. -/
def writeSegment (H : Type) [BlockCodec H] (l : BlockLog) (id : ℕ) :
    Except LogError Bool × BlockLog :=
  if l.segments.contains id then (.ok true, l)
  else
    let present := (List.range SEGMENT_SPAN).filter fun i => (l.fileAt id i).isSome
    match present.find? fun i =>
        ((l.fileAt id i).bind (BlockCodec.decodeBlock (H := H))).isNone with
    | some i => (.error (.corruptFile (id * SEGMENT_SPAN + i)), l)
    | none =>
      match present with
      | [] => (.ok false, l)
      | first :: _ =>
        let l' := { l with segments := l.segments.insert id (packed (l.fileAt id)) }
        -- the first height is read back before anything is deleted
        match l'.loadFromSegment (H := H) (id * SEGMENT_SPAN + first) with
        | .error e => (.error e, l')
        | .ok none => (.error (.verificationRead id), l')
        | .ok (some _) => (.ok true, l')

/-- Delete the files of the first `reached` heights of a span. -/
def retire (l : BlockLog) (id reached : ℕ) : BlockLog :=
  { l with
    files := (List.range reached).foldl (fun fs i => fs.erase (id * SEGMENT_SPAN + i)) l.files }

/-- How many files of a span there are. -/
def fileCount (l : BlockLog) (id : ℕ) : ℕ :=
  ((List.range SEGMENT_SPAN).filter fun i => (l.fileAt id i).isSome).length

/-- Pack the files of a span into a segment, then delete them, and return how many there were.  A
segment that exists is trusted.  The process may end after the deletions of the first `reached`
heights; `SEGMENT_SPAN` of them are all. -/
def compactSegment (H : Type) [BlockCodec H] (l : BlockLog) (id reached : ℕ) :
    Except LogError ℕ × BlockLog :=
  match l.writeSegment H id with
  | (.error e, l') => (.error e, l')
  | (.ok false, l') => (.ok 0, l')
  | (.ok true, l') => (.ok (l.fileCount id), l'.retire id (min reached SEGMENT_SPAN))

/-- Delete whole segments that lie below the retained heights; the process may end before all of
them are gone. -/
def pruneBelow (l : BlockLog) (tip retain : ℕ) (deleted : List ℕ) : BlockLog :=
  if retain = 0 ∨ tip ≤ retain then l
  else
    { l with
      segments := l.segments.filter fun id _ =>
        ¬ (id < (tip - retain) / SEGMENT_SPAN ∧ id ∈ deleted) }

end BlockLog

end HashKinetics
