import HashKinetics.Node.BlockLog

/-!
# What compaction keeps

A segment returns exactly the files it was packed from.  Since a segment that exists is never
rewritten, a compaction keeps everything exactly when the files it deletes are already in the
segment, which a file saved after its span was first packed is not.
-/

namespace HashKinetics

open Foundations

namespace BlockLog

/-! ## Reading a packed segment -/

section Packed

variable (get : ℕ → Option (List UInt8))

/-- The frame of a file, if there is one. -/
def frameOf (i : ℕ) : List UInt8 := ((get i).map frame).getD []

/-- The body of a segment after the first `n` places. -/
def packBody (n : ℕ) : List UInt8 := SEGMENT_MAGIC ++ (List.range n).flatMap (frameOf get)

/-- The offset of a place: where its frame starts, or zero. -/
def packOffset (i : ℕ) : ℕ := if (get i).isSome then (packBody get i).length else 0

lemma packBody_succ (n : ℕ) : packBody get (n + 1) = packBody get n ++ frameOf get n := by
  simp [packBody, List.range_succ]

/-- The loop of the packer. -/
lemma foldl_packStep (n : ℕ) :
    (List.range n).foldl (packStep get) (SEGMENT_MAGIC, []) =
      (packBody get n, (List.range n).map (packOffset get)) := by
  induction n with
  | zero => simp [packBody]
  | succ n ih =>
    rw [List.range_succ, List.foldl_append, ih, List.foldl_cons, List.foldl_nil, packBody_succ,
      List.map_append, List.map_singleton]
    cases hget : get n <;> simp [packStep, packOffset, frameOf, hget]

/-- The layout of a segment. -/
lemma packed_eq :
    packed get = packBody get SEGMENT_SPAN ++
      ((List.range SEGMENT_SPAN).map (packOffset get)).flatMap (leOf 8) ++
      leOf 8 (packBody get SEGMENT_SPAN).length ++ SEGMENT_MAGIC := by
  simp only [packed, foldl_packStep]

variable {get}

/-- Files that fit a 32-bit length. -/
def Fits (get : ℕ → Option (List UInt8)) : Prop :=
  ∀ i < SEGMENT_SPAN, ∀ bytes, get i = some bytes → bytes.length < 2 ^ 32

lemma length_packBody_le {most : ℕ}
    (h : ∀ i < SEGMENT_SPAN, ∀ bytes, get i = some bytes → bytes.length ≤ most) {n : ℕ}
    (hn : n ≤ SEGMENT_SPAN) : (packBody get n).length ≤ 4 + n * (4 + most) := by
  induction n with
  | zero => simp [packBody, SEGMENT_MAGIC]
  | succ n ih =>
    have hframe : (frameOf get n).length ≤ 4 + most := by
      unfold frameOf
      cases hget : get n with
      | none => simp
      | some bytes =>
        have hbytes := h n (by omega) bytes hget
        simp only [Option.map_some, Option.getD_some, length_frame]
        omega
    have hbody := ih (by omega)
    rw [packBody_succ, List.length_append, Nat.succ_mul]
    omega

/-- Every offset of the segment is a 64-bit number. -/
def Addressable (get : ℕ → Option (List UInt8)) : Prop :=
  (packBody get SEGMENT_SPAN).length < 256 ^ 8

/-- Files of moderate length leave every offset within 64 bits. -/
lemma addressable_of_le
    (h : ∀ i < SEGMENT_SPAN, ∀ bytes, get i = some bytes → bytes.length ≤ 2 ^ 53) :
    Addressable get := by
  have hle := length_packBody_le h (le_refl SEGMENT_SPAN)
  have hspan : SEGMENT_SPAN * (4 + 2 ^ 53) = 1024 * (4 + 2 ^ 53) := rfl
  unfold Addressable
  omega

lemma Fits.addressable (h : Fits get) : Addressable get :=
  addressable_of_le fun i hi bytes hget => (h i hi bytes hget).le.trans (by norm_num)

lemma packBody_mono {m n : ℕ} (h : m ≤ n) : packBody get m <+: packBody get n := by
  induction n, h using Nat.le_induction with
  | base => exact List.prefix_rfl
  | succ n _ ih =>
    rw [packBody_succ]
    exact ih.trans (List.prefix_append _ _)

lemma length_index_of (n : ℕ) :
    (((List.range n).map (packOffset get)).flatMap (leOf 8)).length = n * 8 := by
  induction n with
  | zero => rfl
  | succ n ih =>
    rw [List.range_succ, List.map_append, List.flatMap_append, List.length_append, ih]
    simp only [List.map_singleton, List.flatMap_singleton, length_leOf]
    omega

lemma length_index : (((List.range SEGMENT_SPAN).map (packOffset get)).flatMap (leOf 8)).length =
    SEGMENT_INDEX_BYTES :=
  length_index_of SEGMENT_SPAN

lemma length_packed : (packed get).length =
    (packBody get SEGMENT_SPAN).length + SEGMENT_INDEX_BYTES + SEGMENT_TRAILER := by
  have hmagic : SEGMENT_MAGIC.length = 4 := rfl
  rw [packed_eq]
  simp only [List.length_append, length_index, length_leOf, hmagic, SEGMENT_TRAILER]

/-- A packed segment opens, and its trailer names the end of its body. -/
lemma openSegment_packed {l : BlockLog} {id : ℕ} (h : Addressable get)
    (hseg : l.segments[id]? = some (packed get)) :
    l.openSegment id = .ok (some (packed get, (packBody get SEGMENT_SPAN).length)) := by
  have hbody : 4 ≤ (packBody get SEGMENT_SPAN).length := by
    simp [packBody, SEGMENT_MAGIC]
  have hhead : (packed get).take 4 = SEGMENT_MAGIC := by
    rw [packed_eq, packBody]
    simp only [List.append_assoc]
    exact List.take_left' rfl
  have htrailer : (packed get).drop ((packed get).length - SEGMENT_TRAILER) =
      leOf 8 (packBody get SEGMENT_SPAN).length ++ SEGMENT_MAGIC := by
    rw [length_packed, Nat.add_sub_cancel, packed_eq, List.append_assoc]
    exact List.drop_left' (by rw [List.length_append, length_index])
  have hnat : leNat (leOf 8 (packBody get SEGMENT_SPAN).length) =
      (packBody get SEGMENT_SPAN).length := leNat_leOf_of_lt h
  simp only [openSegment, hseg, htrailer, hhead]
  rw [if_neg (by rw [length_packed]; omega), if_neg (by simp [List.drop_left' (length_leOf 8 _)]),
    List.take_left' (length_leOf 8 _), hnat, if_neg (by rw [length_packed]; simp)]

/-- A slot of the table holds the offset of its place. -/
lemma slotOffset_packed (h : Addressable get) {i : ℕ} (hi : i < SEGMENT_SPAN) :
    slotOffset (packed get) (packBody get SEGMENT_SPAN).length i = packOffset get i := by
  have hentry : ((List.range SEGMENT_SPAN).map (packOffset get))[i]? = some (packOffset get i) := by
    simp [hi]
  have hlt : packOffset get i < 256 ^ 8 := by
    unfold packOffset
    split
    · exact (packBody_mono hi.le).length_le.trans_lt h
    · positivity
  rw [slotOffset, packed_eq, List.append_assoc, List.append_assoc, ← List.drop_drop,
    List.drop_left, take_drop_flatMap _ (length_leOf 8) _ hentry]
  exact leNat_leOf_of_lt hlt

/-- The frame at the offset of a place is its file, cut to what its 32-bit length says. -/
lemma frameAt_packed_take (get : ℕ → Option (List UInt8)) (id : ℕ) {i : ℕ} (hi : i < SEGMENT_SPAN)
    {bytes : List UInt8} (hget : get i = some bytes) :
    frameAt id (packed get) (packOffset get i) = .ok (bytes.take (bytes.length % 2 ^ 32)) := by
  have hframe : packBody get (i + 1) = packBody get i ++ frame bytes := by
    rw [packBody_succ, frameOf, hget]
    rfl
  obtain ⟨rest, hrest⟩ : packBody get i ++ frame bytes <+: packed get := by
    rw [← hframe, packed_eq]
    simp only [List.append_assoc]
    exact (packBody_mono hi).trans (List.prefix_append _ _)
  have hoff : packOffset get i = (packBody get i).length := by simp [packOffset, hget]
  have hnat : leNat (leOf 4 bytes.length) = bytes.length % 2 ^ 32 := leNat_leOf 4 bytes.length
  have hcut : bytes.length % 2 ^ 32 ≤ bytes.length := Nat.mod_le _ _
  have hlen : (packed get).length = (packBody get i).length + 4 + bytes.length + rest.length := by
    rw [← hrest, List.length_append, List.length_append, length_frame]
    omega
  have hsize : ((packed get).drop (packBody get i).length).take 4 = leOf 4 bytes.length := by
    have hslice := take_drop_append (packBody get i) (leOf 4 bytes.length) (bytes ++ rest)
    rw [length_leOf] at hslice
    rw [← hrest, frame]
    simpa only [List.append_assoc] using hslice
  have hpayload : ((packed get).drop ((packBody get i).length + 4)).take (bytes.length % 2 ^ 32) =
      bytes.take (bytes.length % 2 ^ 32) := by
    have hdrop : (packed get).drop ((packBody get i).length + 4) = bytes ++ rest := by
      rw [← hrest, frame, ← List.append_assoc, List.append_assoc]
      exact List.drop_left' (by rw [List.length_append, length_leOf])
    rw [hdrop, List.take_append_of_le_length hcut]
  simp only [frameAt, hoff, hsize, hnat]
  rw [if_neg (by omega), if_neg (by omega), hpayload]

/-- The frame at the offset of a place is its file. -/
lemma frameAt_packed (h : Fits get) (id : ℕ) {i : ℕ} (hi : i < SEGMENT_SPAN) {bytes : List UInt8}
    (hget : get i = some bytes) : frameAt id (packed get) (packOffset get i) = .ok bytes := by
  rw [frameAt_packed_take get id hi hget, Nat.mod_eq_of_lt (h i hi bytes hget), List.take_length]

end Packed

/-! ## Logs that hold blocks -/

variable {H : Type} [BlockCodec H]

/-- The bytes of a block of a height. -/
def Encodes (H : Type) [BlockCodec H] (height : ℕ) (bytes : List UInt8) : Prop :=
  ∃ b : StoredBlock H, b.height = height ∧ BlockCodec.Lossless b ∧ bytes = BlockCodec.encodeBlock b

/-- The files a segment of a span was packed from hold the blocks of their heights. -/
def SpanOf (H : Type) [BlockCodec H] (id : ℕ) (get : ℕ → Option (List UInt8)) : Prop :=
  ∀ i < SEGMENT_SPAN, ∀ bytes, get i = some bytes → Encodes H (id * SEGMENT_SPAN + i) bytes

/-- Every file holds the block of its height, and every segment was packed from such files. -/
structure WellFormed (H : Type) [BlockCodec H] (l : BlockLog) : Prop where
  files : ∀ height bytes, l.files[height]? = some bytes → Encodes H height bytes
  segments : ∀ (id : ℕ) (bytes : List UInt8), l.segments[id]? = some bytes →
    ∃ get, bytes = packed get ∧ SpanOf H id get

lemma Encodes.decodeBlock {height : ℕ} {bytes : List UInt8} (h : Encodes H height bytes) :
    ∃ b : StoredBlock H, BlockCodec.decodeBlock bytes = some b ∧ b.height = height := by
  obtain ⟨b, hheight, ⟨hdecode, -⟩, rfl⟩ := h
  exact ⟨b, hdecode, hheight⟩

lemma SpanOf.fits {id : ℕ} {get : ℕ → Option (List UInt8)} (h : SpanOf H id get) : Fits get := by
  intro i hi bytes hget
  obtain ⟨b, -, ⟨-, hlen⟩, rfl⟩ := h i hi bytes hget
  exact hlen

lemma four_le_length_packBody (get : ℕ → Option (List UInt8)) (n : ℕ) :
    4 ≤ (packBody get n).length := by
  simp [packBody, SEGMENT_MAGIC]

lemma packOffset_eq_zero {get : ℕ → Option (List UInt8)} {i : ℕ} :
    packOffset get i = 0 ↔ get i = none := by
  have hbody := four_le_length_packBody get i
  cases hget : get i with
  | none => simp [packOffset, hget]
  | some bytes =>
    simp only [packOffset, hget, Option.isSome_some, if_true, reduceCtorEq, iff_false]
    omega

/-- The place of a height in its span. -/
lemma height_eq_span (height : ℕ) :
    height / SEGMENT_SPAN * SEGMENT_SPAN + height % SEGMENT_SPAN = height := by
  rw [mul_comm]
  exact Nat.div_add_mod height SEGMENT_SPAN

lemma mod_lt_span (height : ℕ) : height % SEGMENT_SPAN < SEGMENT_SPAN :=
  Nat.mod_lt _ (by decide)

lemma span_div {id i : ℕ} (hi : i < SEGMENT_SPAN) :
    (id * SEGMENT_SPAN + i) / SEGMENT_SPAN = id := by
  rw [Nat.add_comm, Nat.add_mul_div_right _ _ (by decide), Nat.div_eq_of_lt hi, Nat.zero_add]

lemma span_mod {id i : ℕ} (hi : i < SEGMENT_SPAN) : (id * SEGMENT_SPAN + i) % SEGMENT_SPAN = i := by
  rw [Nat.add_comm, Nat.add_mul_mod_self_right, Nat.mod_eq_of_lt hi]

/-- What a segment returns is what it was packed from. -/
lemma loadFromSegment_packed {l : BlockLog} (height : ℕ) {get : ℕ → Option (List UInt8)}
    (hspan : SpanOf H (height / SEGMENT_SPAN) get)
    (hseg : l.segments[height / SEGMENT_SPAN]? = some (packed get)) :
    l.loadFromSegment (H := H) height =
      .ok ((get (height % SEGMENT_SPAN)).bind BlockCodec.decodeBlock) := by
  have hmod := mod_lt_span height
  have hopen := openSegment_packed hspan.fits.addressable hseg
  have hslot := slotOffset_packed hspan.fits.addressable hmod
  cases hget : get (height % SEGMENT_SPAN) with
  | none =>
    have hoff := packOffset_eq_zero.mpr hget
    simp only [loadFromSegment, hopen, hslot, hoff, if_true, Option.bind_none]
  | some bytes =>
    have hoff : packOffset get (height % SEGMENT_SPAN) ≠ 0 := by
      rw [Ne, packOffset_eq_zero, hget]
      simp
    have hframe := frameAt_packed hspan.fits (height / SEGMENT_SPAN) hmod hget
    have hencodes := hspan _ hmod bytes hget
    rw [height_eq_span] at hencodes
    obtain ⟨b, hdecode, hheight⟩ := hencodes.decodeBlock
    simp only [loadFromSegment, hopen, hslot, if_neg hoff, hframe, hdecode, hheight, ne_eq,
      not_true_eq_false, if_false, Option.bind_some]

lemma loadFromSegment_of_none {l : BlockLog} {height : ℕ}
    (hseg : l.segments[height / SEGMENT_SPAN]? = none) :
    l.loadFromSegment (H := H) height = .ok none := by
  simp [loadFromSegment, openSegment, hseg]

lemma loadBlock_of_file {l : BlockLog} {height : ℕ} (bytes : List UInt8) {b : StoredBlock H}
    (hfile : l.files[height]? = some bytes) (hdecode : BlockCodec.decodeBlock bytes = some b) :
    l.loadBlock height = .ok (some b) := by
  simp [loadBlock, hfile, hdecode]

lemma loadBlock_of_no_file {l : BlockLog} {height : ℕ} (hfile : l.files[height]? = none) :
    l.loadBlock (H := H) height = l.loadFromSegment height := by
  simp [loadBlock, hfile]

/-- Nothing in the log is damaged: every file decodes, every segment opens, and a slot that is not
empty leads to the block of its height. -/
structure Intact (H : Type) [BlockCodec H] (l : BlockLog) : Prop where
  files : ∀ (height : ℕ) (bytes : List UInt8), l.files[height]? = some bytes →
    ∃ b : StoredBlock H, BlockCodec.decodeBlock bytes = some b
  segments : ∀ (id : ℕ) (bytes : List UInt8), l.segments[id]? = some bytes →
    ∃ indexOffset, l.openSegment id = .ok (some (bytes, indexOffset)) ∧
      ∀ i < SEGMENT_SPAN, slotOffset bytes indexOffset i ≠ 0 →
        ∃ payload, frameAt id bytes (slotOffset bytes indexOffset i) = .ok payload ∧
          ∃ b : StoredBlock H, BlockCodec.decodeBlock payload = some b ∧
            b.height = id * SEGMENT_SPAN + i

namespace Intact

variable {l : BlockLog}

/-- A segment lists exactly the heights it returns. -/
lemma mem_segmentHeights (hl : l.Intact H) {id : ℕ} (height : ℕ) {bytes : List UInt8}
    (hseg : l.segments[id]? = some bytes) :
    ∃ hs, l.segmentHeights id = .ok hs ∧ (height ∈ hs ↔
      height / SEGMENT_SPAN = id ∧
        ∃ b : StoredBlock H, l.loadFromSegment height = .ok (some b)) := by
  obtain ⟨indexOffset, hopen, hslots⟩ := hl.segments id bytes hseg
  have hlist : l.segmentHeights id = .ok (((List.range SEGMENT_SPAN).filter fun i =>
      slotOffset bytes indexOffset i ≠ 0).map (id * SEGMENT_SPAN + ·)) := by
    simp only [segmentHeights, hopen, bind, Except.bind, pure, Except.pure]
  refine ⟨_, hlist, ?_⟩
  simp only [List.mem_map, List.mem_filter, List.mem_range, decide_eq_true_eq]
  constructor
  · rintro ⟨i, ⟨hi, hslot⟩, rfl⟩
    obtain ⟨payload, hframe, b, hdecode, hheight⟩ := hslots i hi hslot
    refine ⟨span_div hi, b, ?_⟩
    simp only [loadFromSegment, span_div hi, span_mod hi, hopen, if_neg hslot, hframe, hdecode,
      hheight, ne_eq, not_true_eq_false, if_false]
  · rintro ⟨rfl, b, hload⟩
    refine ⟨height % SEGMENT_SPAN, ⟨mod_lt_span height, fun hempty => ?_⟩, height_eq_span height⟩
    simp only [loadFromSegment, hopen, hempty, if_true] at hload
    cases hload

/-- The listed heights are those whose block can be loaded. -/
lemma mem_blockHeights (hl : l.Intact H) {height : ℕ} :
    height ∈ l.blockHeights ↔ ∃ b : StoredBlock H, l.loadBlock height = .ok (some b) := by
  simp only [blockHeights, List.mem_dedup, List.mem_insertionSort, List.mem_append,
    List.mem_flatMap]
  cases hfile : l.files[height]? with
  | some bytes =>
    obtain ⟨b, hdecode⟩ := hl.files height bytes hfile
    exact iff_of_true (Or.inl (OrderedMap.mem_keys.mpr ⟨bytes, hfile⟩))
      ⟨b, loadBlock_of_file _ hfile hdecode⟩
  | none =>
    have hkey : height ∉ l.files.keys := by
      rw [OrderedMap.mem_keys, hfile]
      simp
    rw [loadBlock_of_no_file hfile]
    constructor
    · rintro (hmem | ⟨id, hid, hmem⟩)
      · exact absurd hmem hkey
      · obtain ⟨bytes, hseg⟩ := OrderedMap.mem_keys.mp hid
        obtain ⟨hs, hheights, hiff⟩ := hl.mem_segmentHeights height hseg
        rw [hheights] at hmem
        exact (hiff.mp hmem).2
    · rintro ⟨b, hload⟩
      cases hseg : l.segments[height / SEGMENT_SPAN]? with
      | none =>
        rw [loadFromSegment_of_none hseg] at hload
        simp at hload
      | some bytes =>
        obtain ⟨hs, hheights, hiff⟩ := hl.mem_segmentHeights height hseg
        refine Or.inr ⟨height / SEGMENT_SPAN, OrderedMap.mem_keys.mpr ⟨bytes, hseg⟩, ?_⟩
        rw [hheights]
        exact hiff.mpr ⟨rfl, b, hload⟩

end Intact

/-- The listing is sorted. -/
lemma pairwise_le_blockHeights (l : BlockLog) : l.blockHeights.Pairwise (· ≤ ·) :=
  (List.pairwise_insertionSort _ _).sublist (List.dedup_sublist _)

/-- A log that only this node wrote to is intact. -/
lemma WellFormed.intact {l : BlockLog} (hwf : l.WellFormed H) : l.Intact H where
  files height bytes hfile := by
    obtain ⟨b, hdecode, -⟩ := (hwf.files height bytes hfile).decodeBlock
    exact ⟨b, hdecode⟩
  segments id bytes hseg := by
    obtain ⟨get, hpacked, hspan⟩ := hwf.segments id bytes hseg
    rw [hpacked] at hseg ⊢
    have hopen := openSegment_packed hspan.fits.addressable hseg
    refine ⟨(packBody get SEGMENT_SPAN).length, hopen, fun i hi hslot => ?_⟩
    rw [slotOffset_packed hspan.fits.addressable hi] at hslot ⊢
    cases hget : get i with
    | none => exact absurd (packOffset_eq_zero.mpr hget) hslot
    | some payload =>
      obtain ⟨b, hdecode, hheight⟩ := (hspan i hi payload hget).decodeBlock
      exact ⟨payload, frameAt_packed hspan.fits id hi hget, b, hdecode, hheight⟩

/-! ## One compaction -/

/-- Nothing a reader of the log sees has changed. -/
def Kept (H : Type) [BlockCodec H] (l l' : BlockLog) : Prop :=
  (∀ height, l'.loadBlock (H := H) height = l.loadBlock height) ∧ l'.blockHeights = l.blockHeights

/-- If a span has a segment, the files still there are the ones in it. -/
def Covered (H : Type) [BlockCodec H] (l : BlockLog) (id : ℕ) : Prop :=
  l.segments.contains id = true → ∀ i < SEGMENT_SPAN, (l.fileAt id i).isSome →
    l.loadFromSegment (H := H) (id * SEGMENT_SPAN + i) = l.loadBlock (id * SEGMENT_SPAN + i)

lemma loadFromSegment_congr {l l' : BlockLog} {height : ℕ}
    (h : l'.segments[height / SEGMENT_SPAN]? = l.segments[height / SEGMENT_SPAN]?) :
    l'.loadFromSegment (H := H) height = l.loadFromSegment height := by
  simp only [loadFromSegment, openSegment, h]

lemma loadBlock_congr {l l' : BlockLog} {height : ℕ} (hfile : l'.files[height]? = l.files[height]?)
    (hseg : l'.loadFromSegment (H := H) height = l.loadFromSegment height) :
    l'.loadBlock (H := H) height = l.loadBlock height := by
  simp only [loadBlock, hfile, hseg]

/-- Equal listings from equal loads: both are sorted and free of repetition. -/
lemma WellFormed.kept {l l' : BlockLog} (hwf : l.WellFormed H) (hwf' : l'.WellFormed H)
    (h : ∀ height, l'.loadBlock (H := H) height = l.loadBlock height) : Kept H l l' := by
  refine ⟨h, ?_⟩
  refine ((List.perm_ext_iff_of_nodup (List.nodup_dedup _) (List.nodup_dedup _)).mpr
    fun height => ?_).eq_of_pairwise (fun _ _ _ _ => le_antisymm) (pairwise_le_blockHeights l')
      (pairwise_le_blockHeights l)
  exact hwf'.intact.mem_blockHeights.trans ((by simp only [h height]) : _ ↔ _) |>.trans
    hwf.intact.mem_blockHeights.symm

lemma get_foldl_erase (files : OrderedMap ℕ (List UInt8)) (base n height : ℕ) :
    ((List.range n).foldl (fun fs i => fs.erase (base + i)) files)[height]? =
      if base ≤ height ∧ height < base + n then none else files[height]? := by
  induction n with
  | zero =>
    rw [if_neg (by omega)]
    rfl
  | succ n ih =>
    rw [List.range_succ, List.foldl_append, List.foldl_cons, List.foldl_nil,
      Std.ExtTreeMap.getElem?_erase, ih]
    by_cases hlast : base + n = height
    · rw [if_pos (by simp [hlast]), if_pos (by omega)]
    · rw [if_neg (by simpa using hlast)]
      exact if_congr (by omega) rfl rfl

/-- The files after a deletion of the first heights of a span. -/
lemma files_retire (l : BlockLog) (id reached height : ℕ) :
    (l.retire id reached).files[height]? =
      if id * SEGMENT_SPAN ≤ height ∧ height < id * SEGMENT_SPAN + reached then none
      else l.files[height]? :=
  get_foldl_erase l.files (id * SEGMENT_SPAN) reached height

/-- What a deletion leaves is what the segment of the deleted heights returns. -/
lemma loadBlock_retire (l : BlockLog) (id reached height : ℕ) :
    (l.retire id reached).loadBlock (H := H) height =
      if id * SEGMENT_SPAN ≤ height ∧ height < id * SEGMENT_SPAN + reached then
        l.loadFromSegment height
      else l.loadBlock height := by
  have hfiles := files_retire l id reached height
  split
  case isTrue h =>
    rw [if_pos h] at hfiles
    exact loadBlock_of_no_file hfiles
  case isFalse h =>
    rw [if_neg h] at hfiles
    exact loadBlock_congr hfiles rfl

lemma WellFormed.retire {l : BlockLog} (hwf : l.WellFormed H) (id reached : ℕ) :
    (l.retire id reached).WellFormed H := by
  refine ⟨fun height bytes hfile => ?_, hwf.segments⟩
  rw [files_retire] at hfile
  split at hfile
  · simp at hfile
  · exact hwf.files height bytes hfile

/-- The log with the segment of a span packed from its files. -/
def withSegment (l : BlockLog) (id : ℕ) : BlockLog :=
  { l with segments := l.segments.insert id (packed (l.fileAt id)) }

lemma WellFormed.spanOf_fileAt {l : BlockLog} (hwf : l.WellFormed H) (id : ℕ) :
    SpanOf H id (l.fileAt id) :=
  fun i _ bytes hfile => hwf.files (id * SEGMENT_SPAN + i) bytes hfile

lemma WellFormed.withSegment {l : BlockLog} (hwf : l.WellFormed H) (id : ℕ) :
    (l.withSegment id).WellFormed H := by
  refine ⟨hwf.files, fun id' bytes hseg => ?_⟩
  simp only [BlockLog.withSegment, OrderedMap.get_insert] at hseg
  split at hseg
  case isTrue h =>
    subst h
    exact ⟨l.fileAt id, (Option.some.inj hseg).symm, hwf.spanOf_fileAt id⟩
  case isFalse h => exact hwf.segments id' bytes hseg

/-- A new segment returns the blocks of the files it was packed from. -/
lemma WellFormed.loadFromSegment_withSegment {l : BlockLog} (hwf : l.WellFormed H) (id : ℕ)
    (hnone : l.segments[id]? = none) (height : ℕ) (hid : height / SEGMENT_SPAN = id) :
    (l.withSegment id).loadFromSegment (H := H) height = l.loadBlock height := by
  subst hid
  have hseg : (l.withSegment (height / SEGMENT_SPAN)).segments[height / SEGMENT_SPAN]? =
      some (packed (l.fileAt (height / SEGMENT_SPAN))) := by
    simp [BlockLog.withSegment]
  rw [loadFromSegment_packed _ (hwf.spanOf_fileAt _) hseg, fileAt, height_eq_span]
  cases hfile : l.files[height]? with
  | none => rw [loadBlock_of_no_file hfile, loadFromSegment_of_none hnone, Option.bind_none]
  | some bytes =>
    obtain ⟨b, hdecode, -⟩ := (hwf.files height bytes hfile).decodeBlock
    rw [loadBlock_of_file _ hfile hdecode, Option.bind_some, hdecode]

/-- A well-formed log packs without an error. -/
lemma WellFormed.writeSegment_eq {l : BlockLog} (hwf : l.WellFormed H) (id : ℕ) :
    l.writeSegment H id =
      if l.segments.contains id then (.ok true, l)
      else if ∃ i < SEGMENT_SPAN, (l.fileAt id i).isSome then (.ok true, l.withSegment id)
      else (.ok false, l) := by
  unfold writeSegment
  split
  case isTrue => rfl
  case isFalse hseg =>
    have hnone : l.segments[id]? = none := by simpa using hseg
    have hfind : ((List.range SEGMENT_SPAN).filter fun i => (l.fileAt id i).isSome).find?
        (fun i => ((l.fileAt id i).bind (BlockCodec.decodeBlock (H := H))).isNone) = none := by
      rw [List.find?_eq_none]
      intro i hi
      obtain ⟨hi, hfile⟩ := List.mem_filter.mp hi
      obtain ⟨bytes, hbytes⟩ := Option.isSome_iff_exists.mp hfile
      obtain ⟨b, hdecode, -⟩ :=
        (hwf.spanOf_fileAt id i (List.mem_range.mp hi) bytes hbytes).decodeBlock
      simp [hbytes, hdecode]
    simp only [hfind]
    cases hpresent : (List.range SEGMENT_SPAN).filter fun i => (l.fileAt id i).isSome with
    | nil =>
      rw [if_neg]
      rintro ⟨i, hi, hfile⟩
      have hmem : i ∈ (List.range SEGMENT_SPAN).filter fun i => (l.fileAt id i).isSome :=
        List.mem_filter.mpr ⟨List.mem_range.mpr hi, hfile⟩
      rw [hpresent] at hmem
      exact List.not_mem_nil hmem
    | cons first rest =>
      have hmem : first ∈ (List.range SEGMENT_SPAN).filter fun i => (l.fileAt id i).isSome := by
        rw [hpresent]
        exact List.mem_cons_self
      obtain ⟨hfirst, hfile⟩ := List.mem_filter.mp hmem
      rw [List.mem_range] at hfirst
      rw [if_pos ⟨first, hfirst, hfile⟩]
      obtain ⟨bytes, hbytes⟩ := Option.isSome_iff_exists.mp hfile
      obtain ⟨b, hdecode, -⟩ := (hwf.spanOf_fileAt id first hfirst bytes hbytes).decodeBlock
      have hread := hwf.loadFromSegment_withSegment _ hnone (id * SEGMENT_SPAN + first)
        (span_div hfirst)
      rw [loadBlock_of_file _ hbytes hdecode] at hread
      simp only [BlockLog.withSegment] at hread ⊢
      simp only [hread]

/-- What a compaction leaves: a span without files or segment is untouched, and otherwise the files
up to the point reached are deleted, after a segment was written if there was none. -/
lemma WellFormed.compactSegment_eq {l : BlockLog} (hwf : l.WellFormed H) (id reached : ℕ) :
    (l.compactSegment H id reached).2 =
      if l.segments.contains id then l.retire id (min reached SEGMENT_SPAN)
      else if ∃ i < SEGMENT_SPAN, (l.fileAt id i).isSome then
        (l.withSegment id).retire id (min reached SEGMENT_SPAN)
      else l := by
  rw [compactSegment, hwf.writeSegment_eq]
  by_cases hseg : l.segments.contains id = true
  · simp only [hseg, if_true]
  · simp only [if_neg hseg]
    by_cases hfile : ∃ i < SEGMENT_SPAN, (l.fileAt id i).isSome
    · simp only [if_pos hfile]
    · simp only [if_neg hfile]

lemma WellFormed.compactSegment {l : BlockLog} (hwf : l.WellFormed H) (id reached : ℕ) :
    ((l.compactSegment H id reached).2).WellFormed H := by
  rw [hwf.compactSegment_eq]
  split
  · exact hwf.retire id _
  · split
    · exact (hwf.withSegment id).retire id _
    · exact hwf

/-- The heights a deletion reaches are those of the span. -/
lemma div_eq_of_reached {id reached height : ℕ} (hle : id * SEGMENT_SPAN ≤ height)
    (hlt : height < id * SEGMENT_SPAN + min reached SEGMENT_SPAN) :
    height / SEGMENT_SPAN = id ∧ height - id * SEGMENT_SPAN < SEGMENT_SPAN := by
  have hplace : height - id * SEGMENT_SPAN < SEGMENT_SPAN := by omega
  refine ⟨?_, hplace⟩
  have hdiv : (id * SEGMENT_SPAN + (height - id * SEGMENT_SPAN)) / SEGMENT_SPAN = id :=
    span_div hplace
  rwa [Nat.add_sub_cancel' hle] at hdiv

/-- A compaction of a span whose files are in its segment loses nothing, whenever it stops. -/
lemma WellFormed.kept_compactSegment {l : BlockLog} (hwf : l.WellFormed H) {id : ℕ}
    (hcov : Covered H l id) (reached : ℕ) : Kept H l (l.compactSegment H id reached).2 := by
  refine hwf.kept (hwf.compactSegment id reached) fun height => ?_
  rw [hwf.compactSegment_eq]
  split
  case isTrue hseg =>
    rw [loadBlock_retire]
    split
    case isFalse => rfl
    case isTrue hreached =>
      obtain ⟨hid, hplace⟩ := div_eq_of_reached hreached.1 hreached.2
      cases hfile : l.files[height]? with
      | none => exact (loadBlock_of_no_file hfile).symm
      | some bytes =>
        have hcovered := hcov hseg _ hplace
          (by rw [fileAt, Nat.add_sub_cancel' hreached.1, hfile]; rfl)
        rwa [Nat.add_sub_cancel' hreached.1] at hcovered
  case isFalse hseg =>
    have hnone : l.segments[id]? = none := by simpa using hseg
    split
    case isFalse => rfl
    case isTrue =>
      rw [loadBlock_retire]
      split
      case isTrue hreached =>
        exact hwf.loadFromSegment_withSegment _ hnone height
          (div_eq_of_reached hreached.1 hreached.2).1
      case isFalse =>
        by_cases hid : height / SEGMENT_SPAN = id
        · cases hfile : l.files[height]? with
          | none =>
            exact (loadBlock_of_no_file (l := l.withSegment id) hfile).trans
              (hwf.loadFromSegment_withSegment _ hnone height hid)
          | some bytes =>
            simp only [loadBlock, BlockLog.withSegment, hfile]
        · refine loadBlock_congr rfl (loadFromSegment_congr ?_)
          rw [BlockLog.withSegment, OrderedMap.get_insert, if_neg (Ne.symm hid)]

/-- A compaction that loses nothing deleted only files that are in the segment. -/
lemma WellFormed.covered_of_kept {l : BlockLog} (hwf : l.WellFormed H) {id : ℕ}
    (hkept : Kept H l (l.compactSegment H id SEGMENT_SPAN).2) : Covered H l id := by
  intro hseg i hi _
  have hload := hkept.1 (id * SEGMENT_SPAN + i)
  rwa [hwf.compactSegment_eq, if_pos hseg, loadBlock_retire, min_self,
    if_pos ⟨by omega, by omega⟩] at hload

/-! ## Runs -/

/-- What happens to the log of a node. -/
inductive LogOp (H : Type) where
  | save (b : StoredBlock H)
  | prune (tip retain : ℕ) (deleted : List ℕ)
  | compact (id reached : ℕ)

/-- The block a step writes is serialised losslessly. -/
def LogOp.Lossless : LogOp H → Prop
  | .save b => BlockCodec.Lossless b
  | _ => True

/-- One step of the log. -/
def step (l : BlockLog) : LogOp H → BlockLog
  | .save b => l.saveBlock b
  | .prune tip retain deleted => l.pruneBelow tip retain deleted
  | .compact id reached => (l.compactSegment H id reached).2

/-- A run of the log. -/
def run (l : BlockLog) (ops : List (LogOp H)) : BlockLog := ops.foldl step l

/-- A step that writes a block of a span with a segment repeats the block of the segment. -/
def LogOp.Fresh (l : BlockLog) : LogOp H → Prop
  | .save b => l.segments.contains (b.height / SEGMENT_SPAN) = true →
      l.loadFromSegment b.height = .ok (some b)
  | _ => True

/-- Every step of a run is fresh. -/
def FreshSaves : BlockLog → List (LogOp H) → Prop
  | _, [] => True
  | l, op :: ops => op.Fresh l ∧ FreshSaves (l.step op) ops

lemma get_pruneBelow {l : BlockLog} {tip retain : ℕ} {deleted : List ℕ} {id : ℕ}
    {bytes : List UInt8} (h : (l.pruneBelow tip retain deleted).segments[id]? = some bytes) :
    l.segments[id]? = some bytes := by
  unfold pruneBelow at h
  split at h
  · exact h
  · rw [OrderedMap.get_filter] at h
    exact (Option.filter_eq_some_iff.mp h).1

lemma files_pruneBelow (l : BlockLog) (tip retain : ℕ) (deleted : List ℕ) :
    (l.pruneBelow tip retain deleted).files = l.files := by
  unfold pruneBelow
  split <;> rfl

lemma WellFormed.step {l : BlockLog} (hwf : l.WellFormed H) (op : LogOp H) (hop : op.Lossless) :
    (l.step op).WellFormed H := by
  cases op with
  | save b =>
    refine ⟨fun height bytes hfile => ?_, hwf.segments⟩
    simp only [BlockLog.step, saveBlock, OrderedMap.get_insert] at hfile
    split at hfile
    case isTrue h => exact ⟨b, h, hop, (Option.some.inj hfile).symm⟩
    case isFalse => exact hwf.files height bytes hfile
  | prune tip retain deleted =>
    refine ⟨fun height bytes hfile => hwf.files height bytes ?_,
      fun id bytes hseg => hwf.segments id bytes (get_pruneBelow hseg)⟩
    rwa [BlockLog.step, files_pruneBelow] at hfile
  | compact id reached => exact hwf.compactSegment id reached

lemma WellFormed.run {l : BlockLog} (hwf : l.WellFormed H) {ops : List (LogOp H)}
    (hcodec : ∀ op ∈ ops, op.Lossless) : (l.run ops).WellFormed H := by
  induction ops generalizing l with
  | nil => exact hwf
  | cons op ops ih =>
    exact ih (hwf.step op (hcodec op List.mem_cons_self))
      fun op' hop' => hcodec op' (List.mem_cons_of_mem _ hop')

lemma wellFormed_new : new.WellFormed H :=
  ⟨fun height bytes hfile => by simp [new] at hfile, fun id bytes hseg => by simp [new] at hseg⟩

lemma Covered.save {l : BlockLog} (hcov : ∀ id, Covered H l id) {b : StoredBlock H}
    (hb : BlockCodec.Lossless b) (hfresh : LogOp.Fresh l (.save b)) (id : ℕ) :
    Covered H (l.saveBlock b) id := by
  intro hseg i hi hfile
  have hload : (l.saveBlock b).loadFromSegment (H := H) (id * SEGMENT_SPAN + i) =
      l.loadFromSegment (id * SEGMENT_SPAN + i) := loadFromSegment_congr rfl
  have hget : (l.saveBlock b).files[id * SEGMENT_SPAN + i]? =
      if b.height = id * SEGMENT_SPAN + i then some (BlockCodec.encodeBlock b)
      else l.files[id * SEGMENT_SPAN + i]? := OrderedMap.get_insert _ _ _ _
  rw [hload]
  by_cases hheight : b.height = id * SEGMENT_SPAN + i
  · rw [if_pos hheight] at hget
    rw [loadBlock_of_file _ hget hb.1, ← hheight]
    apply hfresh
    rw [hheight, span_div hi]
    exact hseg
  · rw [if_neg hheight] at hget
    rw [loadBlock_congr hget hload]
    apply hcov id hseg i hi
    rwa [fileAt, hget] at hfile

lemma Covered.prune {l : BlockLog} {id : ℕ} (hcov : Covered H l id) (tip retain : ℕ)
    (deleted : List ℕ) : Covered H (l.pruneBelow tip retain deleted) id := by
  intro hseg i hi hfile
  obtain ⟨bytes, hbytes⟩ := Option.isSome_iff_exists.mp
    ((Std.ExtTreeMap.contains_eq_isSome_getElem?).symm.trans hseg)
  have hold := get_pruneBelow hbytes
  have hload : (l.pruneBelow tip retain deleted).loadFromSegment (H := H)
      (id * SEGMENT_SPAN + i) = l.loadFromSegment (id * SEGMENT_SPAN + i) :=
    loadFromSegment_congr (by rw [span_div hi, hbytes, hold])
  have hfiles := files_pruneBelow l tip retain deleted
  rw [hload, loadBlock_congr (by rw [hfiles]) hload]
  apply hcov (by rw [Std.ExtTreeMap.contains_eq_isSome_getElem?, hold]; rfl) i hi
  rwa [fileAt, hfiles] at hfile

/-- Deleting files of a span keeps every span covered. -/
lemma Covered.retire {l : BlockLog} {id : ℕ} (hcov : Covered H l id) (id' reached : ℕ) :
    Covered H (l.retire id' reached) id := by
  intro hseg i hi hfile
  have hload : (l.retire id' reached).loadFromSegment (H := H) (id * SEGMENT_SPAN + i) =
      l.loadFromSegment (id * SEGMENT_SPAN + i) := loadFromSegment_congr rfl
  rw [fileAt, files_retire] at hfile
  rw [hload, loadBlock_retire]
  split
  case isTrue => rfl
  case isFalse hout =>
    rw [if_neg hout] at hfile
    exact hcov hseg i hi hfile

lemma Covered.withSegment {l : BlockLog} (hwf : l.WellFormed H) {id id' : ℕ}
    (hcov : Covered H l id) (hnone : l.segments[id']? = none) :
    Covered H (l.withSegment id') id := by
  intro hseg i hi hfile
  obtain ⟨bytes, hbytes⟩ := Option.isSome_iff_exists.mp hfile
  obtain ⟨b, hdecode, -⟩ := (hwf.spanOf_fileAt id i hi bytes hbytes).decodeBlock
  have hblock : (l.withSegment id').loadBlock (H := H) (id * SEGMENT_SPAN + i) =
      l.loadBlock (id * SEGMENT_SPAN + i) :=
    (loadBlock_of_file (l := l.withSegment id') bytes hbytes hdecode).trans
      (loadBlock_of_file (l := l) bytes hbytes hdecode).symm
  rw [hblock]
  by_cases hid : id' = id
  · exact hwf.loadFromSegment_withSegment _ hnone _ (by rw [span_div hi, hid])
  · have hget : (l.withSegment id').segments[id]? = l.segments[id]? := by
      rw [BlockLog.withSegment, OrderedMap.get_insert, if_neg hid]
    rw [loadFromSegment_congr (l := l) (by rw [span_div hi, hget])]
    refine hcov ?_ i hi hfile
    rw [Std.ExtTreeMap.contains_eq_isSome_getElem?, ← hget,
      ← Std.ExtTreeMap.contains_eq_isSome_getElem?]
    exact hseg

/-- One step of a run whose saves are fresh keeps every span covered. -/
lemma Covered.step {l : BlockLog} (hwf : l.WellFormed H) (hcov : ∀ id, Covered H l id)
    {op : LogOp H} (hop : op.Lossless) (hfresh : op.Fresh l) (id : ℕ) :
    Covered H (l.step op) id := by
  cases op with
  | save b => exact Covered.save hcov hop hfresh id
  | prune tip retain deleted => exact (hcov id).prune tip retain deleted
  | compact id' reached =>
    rw [BlockLog.step, hwf.compactSegment_eq]
    split
    case isTrue => exact (hcov id).retire id' _
    case isFalse hseg =>
      have hnone : l.segments[id']? = none := by simpa using hseg
      split
      · exact (Covered.withSegment hwf (hcov id) hnone).retire id' _
      · exact hcov id

lemma Covered.run {l : BlockLog} (hwf : l.WellFormed H) (hcov : ∀ id, Covered H l id)
    {ops : List (LogOp H)} (hcodec : ∀ op ∈ ops, op.Lossless) (hfresh : FreshSaves l ops)
    (id : ℕ) : Covered H (l.run ops) id := by
  induction ops generalizing l with
  | nil => exact hcov id
  | cons op ops ih =>
    have hop := hcodec op List.mem_cons_self
    exact ih (hwf.step op hop) (Covered.step hwf hcov hop hfresh.1)
      (fun op' hop' => hcodec op' (List.mem_cons_of_mem _ hop')) hfresh.2

/-- A compaction of a reachable log leaves every load and the listing unchanged exactly when its
span has no segment yet or the files it deletes are those of the segment; and in a run that saves
no other block into a span once it is packed, every compaction does, also one that ends early. -/
theorem compactSegment_kept_iff (ops : List (LogOp H)) (hcodec : ∀ op ∈ ops, op.Lossless) :
    (∀ id, Kept H (new.run ops) ((new.run ops).compactSegment H id SEGMENT_SPAN).2 ↔
      Covered H (new.run ops) id) ∧
    (FreshSaves new ops → ∀ id reached,
      Kept H (new.run ops) ((new.run ops).compactSegment H id reached).2) := by
  have hwf : (new.run ops).WellFormed H := wellFormed_new.run hcodec
  refine ⟨fun id => ⟨hwf.covered_of_kept, fun hcov => hwf.kept_compactSegment hcov _⟩, ?_⟩
  intro hfresh id reached
  have hnew : ∀ id, Covered H new id := fun id hseg => by simp [new] at hseg
  exact hwf.kept_compactSegment (Covered.run wellFormed_new hnew hcodec hfresh id) reached

end BlockLog

namespace Concrete

/-- The log's form of an empty block: its height. -/
instance : BlockCodec ℕ where
  encodeBlock b := leOf 8 b.height
  decodeBlock bytes :=
    let height := leNat bytes
    some ⟨height, [], ⟨height, some 0, 0⟩, false⟩

/-- The empty block of a height. -/
def emptyBlock (height : ℕ) : StoredBlock ℕ := ⟨height, [], ⟨height, some 0, 0⟩, false⟩

lemma lossless_emptyBlock {height : ℕ} (h : height < 256 ^ 8) :
    BlockCodec.Lossless (emptyBlock height) := by
  have hnat : leNat (leOf 8 height) = height := leNat_leOf_of_lt h
  refine ⟨?_, ?_⟩
  · change some (⟨leNat (leOf 8 height), [], ⟨leNat (leOf 8 height), some 0, 0⟩, false⟩ :
      StoredBlock ℕ) = _
    rw [hnat]
    rfl
  · change (leOf 8 height).length < _
    rw [length_leOf]
    norm_num

/-- The first height is packed; then the missing second one is saved. -/
def holeFilledLater : List (BlockLog.LogOp ℕ) :=
  [.save (emptyBlock 1), .compact 0 SEGMENT_SPAN, .save (emptyBlock 2)]

lemma lossless_holeFilledLater : ∀ op ∈ holeFilledLater, op.Lossless := by
  simp only [holeFilledLater, List.mem_cons, List.not_mem_nil, or_false, forall_eq_or_imp,
    forall_eq]
  exact ⟨lossless_emptyBlock (by norm_num), trivial, lossless_emptyBlock (by norm_num)⟩

/-- The log after the first compaction, by its segment. -/
lemma run_holeFilledLater : BlockLog.new.run holeFilledLater =
    (((BlockLog.new.saveBlock (emptyBlock 1)).withSegment 0).retire 0 SEGMENT_SPAN).saveBlock
      (emptyBlock 2) := by
  have hwf : (BlockLog.new.saveBlock (emptyBlock 1)).WellFormed ℕ :=
    BlockLog.wellFormed_new.step (.save (emptyBlock 1)) (lossless_emptyBlock (by norm_num))
  have hfile : ∃ i < SEGMENT_SPAN,
      ((BlockLog.new.saveBlock (emptyBlock 1)).fileAt 0 i).isSome :=
    ⟨1, by decide, by simp [BlockLog.fileAt, BlockLog.saveBlock, emptyBlock]⟩
  have hcompact := hwf.compactSegment_eq 0 SEGMENT_SPAN
  rw [if_neg (by simp [BlockLog.saveBlock, BlockLog.new]), if_pos hfile, min_self] at hcompact
  simp only [BlockLog.run, holeFilledLater, List.foldl_cons, List.foldl_nil, BlockLog.step,
    hcompact]

/-- The second compaction deletes the second height: it was loaded before and is gone after. -/
theorem holeFilledLater_lost :
    (BlockLog.new.run holeFilledLater).loadBlock 2 = .ok (some (emptyBlock 2)) ∧
      ¬ BlockLog.Kept ℕ (BlockLog.new.run holeFilledLater)
        ((BlockLog.new.run holeFilledLater).compactSegment ℕ 0 SEGMENT_SPAN).2 := by
  have hwf : (BlockLog.new.saveBlock (emptyBlock 1)).WellFormed ℕ :=
    BlockLog.wellFormed_new.step (.save (emptyBlock 1)) (lossless_emptyBlock (by norm_num))
  have hrun := (BlockLog.wellFormed_new (H := ℕ)).run lossless_holeFilledLater
  have hblock : (BlockLog.new.run holeFilledLater).loadBlock 2 = .ok (some (emptyBlock 2)) :=
    BlockLog.loadBlock_of_file (BlockCodec.encodeBlock (emptyBlock 2))
      (by rw [run_holeFilledLater, BlockLog.saveBlock, OrderedMap.get_insert]; rfl)
      (lossless_emptyBlock (by norm_num)).1
  have hsegment : (BlockLog.new.run holeFilledLater).loadFromSegment (H := ℕ) 2 = .ok none := by
    have hload := hwf.loadFromSegment_withSegment 0 (by simp [BlockLog.saveBlock,
      BlockLog.new]) 2 rfl
    have hnone : (BlockLog.new.saveBlock (emptyBlock 1)).loadBlock (H := ℕ) 2 = .ok none := by
      rw [BlockLog.loadBlock_of_no_file (by simp [BlockLog.saveBlock, BlockLog.new, emptyBlock]),
        BlockLog.loadFromSegment_of_none (by simp [BlockLog.saveBlock, BlockLog.new])]
    rw [run_holeFilledLater, ← hnone, ← hload]
    exact BlockLog.loadFromSegment_congr rfl
  refine ⟨hblock, fun hkept => ?_⟩
  have hcov := hrun.covered_of_kept hkept
  have heq := hcov (by rw [run_holeFilledLater]; simp [BlockLog.saveBlock, BlockLog.retire,
    BlockLog.withSegment]) 2 (by decide) (by
      rw [run_holeFilledLater, BlockLog.fileAt, BlockLog.saveBlock, OrderedMap.get_insert]; rfl)
  rw [Nat.zero_mul, Nat.zero_add, hblock, hsegment] at heq
  simp at heq

/-- Packing two heights of a span loses neither. -/
theorem twoBlocks_kept :
    BlockLog.Kept ℕ (BlockLog.new.run [.save (emptyBlock 1), .save (emptyBlock 2)])
      ((BlockLog.new.run [.save (emptyBlock 1), .save (emptyBlock 2)]).compactSegment ℕ 0
        SEGMENT_SPAN).2 := by
  have hcodec : ∀ op ∈ ([.save (emptyBlock 1), .save (emptyBlock 2)] : List (BlockLog.LogOp ℕ)),
      op.Lossless := by
    simp only [List.mem_cons, List.not_mem_nil, or_false, forall_eq_or_imp, forall_eq]
    exact ⟨lossless_emptyBlock (by norm_num), lossless_emptyBlock (by norm_num)⟩
  refine (BlockLog.compactSegment_kept_iff _ hcodec).2 ?_ 0 SEGMENT_SPAN
  refine ⟨fun hseg => ?_, fun hseg => ?_, trivial⟩
  · simp [BlockLog.new] at hseg
  · simp [BlockLog.step, BlockLog.saveBlock, BlockLog.new] at hseg

end Concrete

end HashKinetics
