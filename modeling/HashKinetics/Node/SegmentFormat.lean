import HashKinetics.Node.Compaction

/-!
# The format of a segment

Whatever heights of a span have files, and whatever is in them, the segment they are packed into has
a slot for each height and, behind the offset in the slot, the frame of its file.  The length in
front of a frame has 32 bits.  A longer file is packed whole, but only the low bits of its length
are kept, and a reader takes that much of it.
-/

namespace HashKinetics

open Foundations

variable {H : Type} [BlockCodec H]

/-- The block is read from its bytes, and from nothing shorter. -/
structure BlockCodec.Sound (b : StoredBlock H) : Prop where
  decode : BlockCodec.decodeBlock (BlockCodec.encodeBlock b) = some b
  whole : ∀ n < (BlockCodec.encodeBlock b : List UInt8).length,
    BlockCodec.decodeBlock (H := H) ((BlockCodec.encodeBlock b).take n) = none

namespace BlockLog

variable {l : BlockLog} {id : ℕ} {get : ℕ → Option (List UInt8)}

/-- Each file of the span holds the block of its height. -/
def HoldsBlocks (H : Type) [BlockCodec H] (id : ℕ) (get : ℕ → Option (List UInt8)) : Prop :=
  ∀ i < SEGMENT_SPAN, ∀ bytes, get i = some bytes →
    ∃ b : StoredBlock H, b.height = id * SEGMENT_SPAN + i ∧ BlockCodec.Sound b ∧
      bytes = BlockCodec.encodeBlock b

/-- The segment returns for every height of its span the block of the file, and nothing where there
was none, and it lists the heights that had a file. -/
structure ReadsBack (H : Type) [BlockCodec H] (l : BlockLog) (id : ℕ)
    (get : ℕ → Option (List UInt8)) : Prop where
  load : ∀ i < SEGMENT_SPAN, l.loadFromSegment (H := H) (id * SEGMENT_SPAN + i) =
    .ok ((get i).bind BlockCodec.decodeBlock)
  heights : l.segmentHeights id =
    .ok (((List.range SEGMENT_SPAN).filter fun i => (get i).isSome).map (id * SEGMENT_SPAN + ·))

/-! ## The segment that a compaction leaves -/

/-- A compaction of a span without a segment leaves the packed files, if there are any; whether its
reading back succeeds does not matter for this. -/
lemma segments_compactSegment (hfresh : l.segments[id]? = none)
    (hblocks : HoldsBlocks H id (l.fileAt id))
    (reached : ℕ) : (l.compactSegment H id reached).2.segments[id]? =
      if ∃ i < SEGMENT_SPAN, (l.fileAt id i).isSome then some (packed (l.fileAt id)) else none := by
  have hnew : l.segments.contains id = false := by
    rw [Std.ExtTreeMap.contains_eq_isSome_getElem?, hfresh]
    rfl
  have hgood : ((List.range SEGMENT_SPAN).filter fun i => (l.fileAt id i).isSome).find? (fun i =>
      ((l.fileAt id i).bind (BlockCodec.decodeBlock (H := H))).isNone) = none := by
    rw [List.find?_eq_none]
    intro i hi
    obtain ⟨hrange, hsome⟩ := List.mem_filter.mp hi
    obtain ⟨bytes, hbytes⟩ := Option.isSome_iff_exists.mp hsome
    obtain ⟨b, -, hsound, rfl⟩ := hblocks i (List.mem_range.mp hrange) bytes hbytes
    simp [hbytes, hsound.decode]
  have hmem : ∀ i, i ∈ ((List.range SEGMENT_SPAN).filter fun i => (l.fileAt id i).isSome) ↔
      i < SEGMENT_SPAN ∧ (l.fileAt id i).isSome = true := by simp
  simp only [compactSegment, writeSegment, hnew, hgood]
  cases hpresent : (List.range SEGMENT_SPAN).filter fun i => (l.fileAt id i).isSome with
  | nil =>
    have hnone : ¬ ∃ i < SEGMENT_SPAN, (l.fileAt id i).isSome = true := by
      rintro ⟨i, hi⟩
      exact absurd ((hmem i).mpr hi) (by rw [hpresent]; exact List.not_mem_nil)
    rw [if_neg hnone]
    exact hfresh
  | cons first rest =>
    have hsome : ∃ i < SEGMENT_SPAN, (l.fileAt id i).isSome = true :=
      ⟨first, (hmem first).mp (by rw [hpresent]; exact List.mem_cons_self)⟩
    rw [if_pos hsome]
    simp only [Bool.false_eq_true, if_false]
    cases ({ l with segments := l.segments.insert id (packed (l.fileAt id)) } :
        BlockLog).loadFromSegment (H := H) (id * SEGMENT_SPAN + first) with
    | error e => simp
    | ok r => cases r <;> simp [retire]

/-! ## Reading it -/

/-- Without a segment nothing is returned and nothing listed. -/
lemma readsBack_of_none (hseg : l.segments[id]? = none)
    (hnone : ¬ ∃ i < SEGMENT_SPAN, (get i).isSome = true) : ReadsBack H l id get where
  load i hi := by
    have hget : get i = none := by
      cases hget : get i with
      | none => rfl
      | some bytes => exact absurd ⟨i, hi, by rw [hget]; rfl⟩ hnone
    rw [loadFromSegment_of_none (by rw [span_div hi]; exact hseg), hget]
    rfl
  heights := by
    have hnil : (List.range SEGMENT_SPAN).filter (fun i => (get i).isSome) = [] := by
      rw [List.filter_eq_nil_iff]
      intro i hi hsome
      exact hnone ⟨i, List.mem_range.mp hi, hsome⟩
    simp [segmentHeights, openSegment, hseg, hnil, bind, Except.bind, pure, Except.pure]

/-- A segment lists the heights that had a file. -/
lemma segmentHeights_packed (haddr : Addressable get) (hseg : l.segments[id]? = some (packed get)) :
    l.segmentHeights id =
      .ok (((List.range SEGMENT_SPAN).filter fun i =>
        (get i).isSome).map (id * SEGMENT_SPAN + ·)) := by
  have hslots : (List.range SEGMENT_SPAN).filter (fun i =>
      slotOffset (packed get) (packBody get SEGMENT_SPAN).length i ≠ 0) =
        (List.range SEGMENT_SPAN).filter fun i => (get i).isSome := by
    refine List.filter_congr fun i hi => ?_
    rw [slotOffset_packed haddr (List.mem_range.mp hi)]
    cases hget : get i with
    | none => simp [packOffset_eq_zero.mpr hget]
    | some bytes =>
      have hne : packOffset get i ≠ 0 := by
        rw [Ne, packOffset_eq_zero, hget]
        exact Option.some_ne_none bytes
      simpa using hne
  simp only [segmentHeights, openSegment_packed haddr hseg, bind, Except.bind, pure, Except.pure,
    hslots]

/-- What a segment returns for a place: what is decoded from its file, cut to 32 bits of length. -/
lemma loadFromSegment_eq (haddr : Addressable get) (hseg : l.segments[id]? = some (packed get))
    {i : ℕ}
    (hi : i < SEGMENT_SPAN) : l.loadFromSegment (H := H) (id * SEGMENT_SPAN + i) =
      match get i with
      | none => .ok none
      | some bytes =>
        match BlockCodec.decodeBlock (bytes.take (bytes.length % 2 ^ 32)) with
        | none => .error (.corruptFrame (id * SEGMENT_SPAN + i) id)
        | some b =>
          if b.height ≠ id * SEGMENT_SPAN + i then .error (.wrongSlot (id * SEGMENT_SPAN + i) id)
          else .ok (some b) := by
  have hopen := openSegment_packed haddr hseg
  have hslot := slotOffset_packed haddr hi
  simp only [loadFromSegment, span_div hi, span_mod hi, hopen, hslot]
  cases hget : get i with
  | none => rw [if_pos (packOffset_eq_zero.mpr hget)]
  | some bytes =>
    have hne : packOffset get i ≠ 0 := by
      rw [Ne, packOffset_eq_zero, hget]
      exact Option.some_ne_none bytes
    rw [if_neg hne]
    cases hdecode : BlockCodec.decodeBlock (H := H) (bytes.take (bytes.length % 2 ^ 32)) with
    | none => simp only [frameAt_packed_take get id hi hget, hdecode]
    | some b => simp only [frameAt_packed_take get id hi hget, hdecode]

/-- Files within 32 bits of length are read back. -/
lemma readsBack_of_fits (hblocks : HoldsBlocks H id get) (hfits : Fits get)
    (hseg : l.segments[id]? = some (packed get)) : ReadsBack H l id get where
  load i hi := by
    rw [loadFromSegment_eq hfits.addressable hseg hi]
    cases hget : get i with
    | none => rfl
    | some bytes =>
      obtain ⟨b, hheight, hsound, hbytes⟩ := hblocks i hi bytes hget
      have hcut : bytes.take (bytes.length % 2 ^ 32) = bytes := by
        rw [Nat.mod_eq_of_lt (hfits i hi bytes hget), List.take_length]
      have hdecode : BlockCodec.decodeBlock bytes = some b := hbytes ▸ hsound.decode
      simp only [hcut, hdecode, hheight, ne_eq, not_true_eq_false, if_false, Option.bind_some]
  heights := segmentHeights_packed hfits.addressable hseg

/-- A longer file is not: what is left of it is too short for its block. -/
lemma ReadsBack.fits (hread : ReadsBack H l id get) (hblocks : HoldsBlocks H id get)
    (haddr : Addressable get) (hseg : l.segments[id]? = some (packed get)) : Fits get := by
  intro i hi bytes hget
  by_contra hlong
  obtain ⟨b, hheight, hsound, rfl⟩ := hblocks i hi bytes hget
  have hshort : (BlockCodec.encodeBlock b : List UInt8).length % 2 ^ 32 <
      (BlockCodec.encodeBlock b : List UInt8).length :=
    (Nat.mod_lt _ (by norm_num)).trans_le (not_lt.mp hlong)
  have hload := hread.load i hi
  rw [loadFromSegment_eq haddr hseg hi, hget] at hload
  simp only [hsound.whole _ hshort, Option.bind_some, hsound.decode] at hload
  cases hload

/-- A compaction packs the files of a span so that they can be read back exactly when each of them
is shorter than what a 32-bit length can say. -/
theorem readsBack_iff (hfresh : l.segments[id]? = none) (hblocks : HoldsBlocks H id (l.fileAt id))
    (haddr : Addressable (l.fileAt id)) (reached : ℕ) :
    ReadsBack H (l.compactSegment H id reached).2 id (l.fileAt id) ↔
      ∀ i < SEGMENT_SPAN, ∀ bytes, l.fileAt id i = some bytes → bytes.length < 2 ^ 32 := by
  have hseg := segments_compactSegment hfresh hblocks reached
  split_ifs at hseg with hsome
  · exact ⟨fun hread => hread.fits hblocks haddr hseg,
      fun hfits => readsBack_of_fits hblocks hfits hseg⟩
  · refine iff_of_true (readsBack_of_none hseg hsome) fun i hi bytes hget => ?_
    exact absurd ⟨i, hi, by rw [hget]; rfl⟩ hsome

end BlockLog

namespace Concrete

/-- The log's form of a block with nothing but its height and its bytes. -/
instance : BlockCodec Bool where
  encodeBlock b := leOf 8 b.height ++ leOf 8 b.valueBytes.length ++ b.valueBytes
  decodeBlock bytes :=
    let height := leNat (bytes.take 8)
    let len := leNat ((bytes.drop 8).take 8)
    if bytes.length < 16 + len then none
    else some ⟨height, (bytes.drop 16).take len, ⟨height, some 0, false⟩, false⟩

def plainBlock (height : ℕ) (value : List UInt8) : StoredBlock Bool :=
  ⟨height, value, ⟨height, some 0, false⟩, false⟩

/-- The number in the second eight bytes. -/
lemma leNat_second {a b : List UInt8} {n : ℕ} (ha : a.length = 8) (hn : n < 256 ^ 8) :
    leNat (((a ++ leOf 8 n ++ b).drop 8).take 8) = n := by
  have hslice := take_drop_append a (leOf 8 n) b
  rw [ha, length_leOf] at hslice
  rw [hslice, leNat_leOf_of_lt hn]

lemma plainBlock_sound {height : ℕ} {value : List UInt8} (hheight : height < 256 ^ 8)
    (hvalue : value.length < 256 ^ 8) : BlockCodec.Sound (plainBlock height value) where
  decode := by
    have hfirst : (leOf 8 height ++ leOf 8 value.length ++ value).take 8 = leOf 8 height := by
      rw [List.append_assoc]
      exact List.take_left' (length_leOf 8 height)
    have hrest : (leOf 8 height ++ leOf 8 value.length ++ value).drop 16 = value :=
      List.drop_left' (by simp)
    have hsecond := leNat_second (b := value) (length_leOf 8 height) hvalue
    simp only [BlockCodec.decodeBlock, BlockCodec.encodeBlock, plainBlock, hfirst, hrest, hsecond,
      leNat_leOf_of_lt hheight, List.take_length]
    rw [if_neg (by simp only [List.length_append, length_leOf]; omega)]
  whole n hn := by
    change n < (leOf 8 height ++ leOf 8 value.length ++ value).length at hn
    have hlen : (leOf 8 height ++ leOf 8 value.length ++ value).length = 16 + value.length := by
      simp only [List.length_append, length_leOf]
    have hcut : ((leOf 8 height ++ leOf 8 value.length ++ value).take n).length = n := by
      rw [List.length_take]
      omega
    simp only [BlockCodec.decodeBlock, BlockCodec.encodeBlock, plainBlock, hcut]
    by_cases hheader : n < 16
    · rw [if_pos (by omega)]
    · obtain ⟨m, rfl⟩ : ∃ m, n = 16 + m := ⟨n - 16, by omega⟩
      have htake : (leOf 8 height ++ leOf 8 value.length ++ value).take (16 + m) =
          leOf 8 height ++ leOf 8 value.length ++ value.take m := by
        have hhead : (leOf 8 height ++ leOf 8 value.length).length = 16 := by simp
        rw [← hhead, List.take_length_add_append]
      rw [htake, leNat_second (length_leOf 8 height) hvalue, if_pos (by omega)]

/-- Two blocks in files of their own. -/
def twoBlockLog (value : List UInt8) : BlockLog :=
  (BlockLog.new.saveBlock (plainBlock 0 [])).saveBlock (plainBlock 1 value)

lemma fileAt_twoBlockLog (value : List UInt8) (i : ℕ) : (twoBlockLog value).fileAt 0 i =
    if i = 1 then some (BlockCodec.encodeBlock (plainBlock 1 value))
    else if i = 0 then some (BlockCodec.encodeBlock (plainBlock 0 [])) else none := by
  have hplace : 0 * SEGMENT_SPAN + i = i := by rw [Nat.zero_mul, Nat.zero_add]
  simp only [twoBlockLog, BlockLog.fileAt, BlockLog.saveBlock, BlockLog.new, plainBlock, hplace,
    OrderedMap.get_insert, eq_comm (b := i)]
  rfl

/-- The files hold the blocks of their heights. -/
lemma twoBlockLog_holds {value : List UInt8} (hvalue : value.length < 256 ^ 8) :
    BlockLog.HoldsBlocks Bool 0 ((twoBlockLog value).fileAt 0) := by
  intro i hi bytes hget
  rw [fileAt_twoBlockLog] at hget
  split_ifs at hget with hone hzero
  · exact ⟨plainBlock 1 value, by rw [hone]; rfl, plainBlock_sound (by norm_num) hvalue,
      (Option.some.inj hget).symm⟩
  · exact ⟨plainBlock 0 [], by rw [hzero]; rfl, plainBlock_sound (by norm_num) (by norm_num),
      (Option.some.inj hget).symm⟩

lemma twoBlockLog_length {value : List UInt8} {i : ℕ} {bytes : List UInt8}
    (hget : (twoBlockLog value).fileAt 0 i = some bytes) : bytes.length ≤ 16 + value.length := by
  rw [fileAt_twoBlockLog] at hget
  split_ifs at hget <;> obtain rfl := Option.some.inj hget <;>
    simp only [BlockCodec.encodeBlock, plainBlock, List.length_append, length_leOf,
      List.length_nil] <;>
    omega

/-- Two small blocks are read back. -/
theorem smallBlocks_readBack : BlockLog.ReadsBack Bool
    ((twoBlockLog [7]).compactSegment Bool 0 SEGMENT_SPAN).2 0 ((twoBlockLog [7]).fileAt 0) := by
  have hlen : ∀ i < SEGMENT_SPAN, ∀ bytes, (twoBlockLog [7]).fileAt 0 i = some bytes →
      bytes.length < 2 ^ 32 :=
    fun i _ bytes hget => (twoBlockLog_length hget).trans_lt (by norm_num)
  have haddr : BlockLog.Addressable ((twoBlockLog [7]).fileAt 0) :=
    BlockLog.addressable_of_le fun i hi bytes hget => (hlen i hi bytes hget).le.trans (by norm_num)
  exact (BlockLog.readsBack_iff rfl (twoBlockLog_holds (by norm_num)) haddr SEGMENT_SPAN).mpr hlen

/-- A block whose length needs a thirty-third bit is not. -/
theorem longBlock_lost :
    ¬ BlockLog.ReadsBack Bool
      ((twoBlockLog (List.replicate (2 ^ 32) 0)).compactSegment Bool 0 SEGMENT_SPAN).2 0
      ((twoBlockLog (List.replicate (2 ^ 32) 0)).fileAt 0) := by
  intro hread
  have hholds : BlockLog.HoldsBlocks Bool 0 ((twoBlockLog (List.replicate (2 ^ 32) 0)).fileAt 0) :=
    twoBlockLog_holds (by
      rw [List.length_replicate]
      norm_num)
  have haddr : BlockLog.Addressable ((twoBlockLog (List.replicate (2 ^ 32) 0)).fileAt 0) := by
    refine BlockLog.addressable_of_le fun i _ bytes hget => (twoBlockLog_length hget).trans ?_
    rw [List.length_replicate]
    norm_num
  have hone := fileAt_twoBlockLog (List.replicate (2 ^ 32) 0) 1
  rw [if_pos rfl] at hone
  have hfresh : (twoBlockLog (List.replicate (2 ^ 32) 0)).segments[0]? = none := rfl
  have hseg := BlockLog.segments_compactSegment hfresh hholds SEGMENT_SPAN
  rw [if_pos ⟨1, by decide, by rw [hone]; rfl⟩] at hseg
  have hshort := hread.fits hholds haddr hseg 1 (by decide) _ hone
  have hlong : (BlockCodec.encodeBlock (plainBlock 1 (List.replicate (2 ^ 32) 0))).length =
      16 + 2 ^ 32 := by
    simp only [BlockCodec.encodeBlock, plainBlock, List.length_append, length_leOf,
      List.length_replicate]
  omega

end Concrete

end HashKinetics
