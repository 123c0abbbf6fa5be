import HashKinetics.State.Anchors
import HashKinetics.State.Commitment
import HashKinetics.Foundations.Decoding

/-!
# What the state commitment determines

The bytes that `stateCommitment` hashes are the sections of the state one after the other.  The
pools, the fees, the registry and the further pools carry their lengths and tags and can be read
back; the accounts, balances, mandates, channels and funding accounts carry no count, so the bytes
of ten accounts are also the bytes of nine balances.  Two states with the same bytes are equal
exactly when these five sections have the same sizes.
-/

namespace HashKinetics

open Foundations Circuit

variable {H : Type} [LinearOrder H] [HashSuite H]

/-! ## Bytes -/

/-- The bytes of a piece of a hash input. -/
def Piece.toBytes : Piece H → List UInt8
  | .digest h => (List.range 32).map (byteAt h)
  | .byte b => [b]
  | .u32 n => (leBytes n).take 4
  | .u64 n => leBytes n
  | .bytes bs => bs

/-- The byte string that the commitment of a state hashes. -/
def State.commitmentBytes [StateCodec H] (s : State H) : List UInt8 :=
  s.commitmentPieces.flatMap Piece.toBytes

/-- A digest is its thirty-two bytes. -/
def DigestBytes (H : Type) [HashSuite H] : Prop :=
  ∀ h h' : H, (∀ i < 32, byteAt h i = byteAt h' i) → h = h'

/-- The JSON forms are objects: each ends where its last brace closes, and determines its record. -/
structure JsonDelimited (H : Type) [StateCodec H] : Prop where
  mandate : SelfDelimiting (fun _ => True) (StateCodec.mandateJson (H := H))
  channel : SelfDelimiting (fun _ => True) (StateCodec.channelJson (H := H))

/-! ## What is covered -/

/-- What the commitment covers of a pool: of its tree, the number of leaves and the root. -/
structure PoolImage (H : Type) [LinearOrder H] where
  version : ℕ
  asset : Option H
  nextIndex : ℕ
  root : H
  anchors : List H
  nullifiers : OrderedSet H
  totalShielded : ℕ

def PoolState.image (p : PoolState H) : PoolImage H where
  version := p.version
  asset := p.asset
  nextIndex := p.tree.nextIndex
  root := p.tree.root
  anchors := p.anchors
  nullifiers := p.nullifiers
  totalShielded := p.totalShielded

/-- What the commitment covers of a state. -/
structure CommittedImage (H : Type) [LinearOrder H] where
  height : ℕ
  time : ℕ
  accounts : OrderedMap H (Account H)
  balances : OrderedMap (H ×ₗ H) ℕ
  mandates : MandateTree H
  channels : OrderedMap H (Channel H)
  rootFunding : OrderedMap H H
  pool : PoolImage H
  feesBurned : ℕ
  assets : OrderedMap H (AssetInfo H)
  pools : OrderedMap H (PoolImage H)

def State.committed (s : State H) : CommittedImage H where
  height := s.height
  time := s.time
  accounts := s.accounts
  balances := s.balances
  mandates := s.mandates
  channels := s.channels
  rootFunding := s.rootFunding
  pool := s.pool.image
  feesBurned := s.feesBurned
  assets := s.assets
  pools := s.pools.map fun _ p => p.image

/-- Where a pool of each state has as many leaves and the same root, it has the same tree: there is
no collision of the node hash between the two states. -/
def State.RootsBind (s t : State H) : Prop :=
  ∀ key p q, s.poolRef key = some p → t.poolRef key = some q →
    p.tree.nextIndex = q.tree.nextIndex → p.tree.root = q.tree.root → p.tree = q.tree

/-! ## Values within their types -/

/-- The fields of a pool fit their types. -/
structure PoolState.Ranged (p : PoolState H) : Prop where
  version : p.version < 256
  index : p.tree.nextIndex ≤ u64Max
  anchors : p.anchors.length ≤ u64Max
  nullifiers : p.nullifiers.toList.length ≤ u64Max
  total : p.totalShielded ≤ u128Max

/-- The fields of a registry entry fit their types, and its symbol passed registration. -/
structure AssetInfo.Ranged (info : AssetInfo H) : Prop where
  symbol : validSymbol info.symbol = true
  decimals : info.decimals < 256
  supply : info.supply ≤ u128Max
  burned : info.burned ≤ u128Max
  registeredAt : info.registeredAt ≤ u64Max
  frozen : info.frozen.toList.length ≤ u64Max

/-- The fields of a state fit their types. -/
structure State.Ranged (s : State H) : Prop where
  height : s.height ≤ u64Max
  time : s.time ≤ u64Max
  nonces : ∀ e ∈ s.accounts.toList, e.2.nonce ≤ u64Max
  balances : ∀ e ∈ s.balances.toList, e.2 ≤ u128Max
  pool : s.pool.Ranged
  feesBurned : s.feesBurned ≤ u128Max
  assets : ∀ e ∈ s.assets.toList, e.2.Ranged
  assetCount : s.assets.toList.length ≤ u64Max
  pools : ∀ e ∈ s.pools.toList, e.2.Ranged
  poolCount : s.pools.toList.length ≤ u64Max

/-- The sections that carry no count have the same sizes. -/
structure State.SameSizes (s t : State H) : Prop where
  accounts : s.accounts.size = t.accounts.size
  balances : s.balances.size = t.balances.size
  mandates : s.mandates.nodes.size = t.mandates.nodes.size
  channels : s.channels.size = t.channels.size
  rootFunding : s.rootFunding.size = t.rootFunding.size

/-! ## Fields -/

namespace Preimage

omit [LinearOrder H] in
lemma selfDelimiting_digest (hd : DigestBytes H) :
    SelfDelimiting (fun _ => True) fun h : H => (List.range 32).map (byteAt h) := by
  refine .of_length (fun h _ => by rw [List.length_map, List.length_range]) fun h h' _ _ heq => ?_
  refine hd h h' fun i hi => ?_
  exact List.map_inj_left.mp heq i (List.mem_range.mpr hi)

lemma selfDelimiting_byte : SelfDelimiting (fun _ => True) fun b : UInt8 => [b] :=
  .of_length (fun _ _ => rfl) fun _ _ _ _ h => List.singleton_inj.mp h

/-- A small number as a byte. -/
lemma selfDelimiting_u8 : SelfDelimiting (· < 256) fun n : ℕ => [UInt8.ofNat n] := by
  refine .of_length (fun _ _ => rfl) fun n m hn hm h => ?_
  have htoNat := congrArg UInt8.toNat (List.singleton_inj.mp h)
  rwa [UInt8.toNat_ofNat_of_lt' hn, UInt8.toNat_ofNat_of_lt' hm] at htoNat

lemma selfDelimiting_u64 : SelfDelimiting (· ≤ u64Max) leBytes :=
  .of_length (fun n _ => length_leBytes n) fun _ _ hn hm h => leBytes_injective hn hm h

lemma selfDelimiting_u128 :
    SelfDelimiting (· ≤ u128Max) fun n => leBytes (n % 2 ^ 64) ++ leBytes (n / 2 ^ 64) := by
  refine (selfDelimiting_u64.append selfDelimiting_u64).comap
    (f := fun n => (n % 2 ^ 64, n / 2 ^ 64)) (fun n hn => ?_) fun n m _ _ h => ?_
  · simp only [u64Max, u128Max] at hn ⊢
    omega
  · obtain ⟨hmod, hdiv⟩ := Prod.mk.inj h
    omega

omit [LinearOrder H] in
/-- A list of digests with its length in front. -/
lemma selfDelimiting_digests (hd : DigestBytes H) :
    SelfDelimiting (fun l : List H => l.length ≤ u64Max) fun l =>
      leBytes l.length ++ l.flatMap fun h => (List.range 32).map (byteAt h) := by
  refine (selfDelimiting_u64.counted (selfDelimiting_digest hd)).comap (f := fun l : List H => l)
    (fun l hl => ⟨hl, fun _ _ => trivial⟩) fun l l' _ _ h => h

omit [LinearOrder H] in
lemma selfDelimiting_option (hd : DigestBytes H) :
    SelfDelimiting (fun _ => True) fun o : Option H =>
      (match o with
        | some a => [Piece.byte 1, .digest a]
        | none => [.byte 0]).flatMap Piece.toBytes := by
  intro o o' r r' _ _ h
  cases o with
  | none =>
    cases o' with
    | none => exact ⟨rfl, List.tail_eq_of_cons_eq h⟩
    | some a' => exact absurd (List.head_eq_of_cons_eq h) (by decide)
  | some a =>
    cases o' with
    | none => exact absurd (List.head_eq_of_cons_eq h) (by decide)
    | some a' =>
      have htail : (List.range 32).map (byteAt a) ++ r = (List.range 32).map (byteAt a') ++ r' := by
        simpa only [List.flatMap_cons, List.flatMap_nil, Piece.toBytes, List.append_nil,
          List.cons_append, List.nil_append, List.cons.injEq, true_and] using h
      obtain ⟨rfl, hrest⟩ := selfDelimiting_digest hd trivial trivial htail
      exact ⟨rfl, hrest⟩

lemma bits_injective {p q : AssetPolicy} (h : p.bits = q.bits) : p = q := by
  obtain ⟨a, b, c, d⟩ := p
  obtain ⟨a', b', c', d'⟩ := q
  revert a b c d a' b' c' d'
  decide

/-! ## Records -/

omit [LinearOrder H] in
lemma selfDelimiting_account (hd : DigestBytes H) :
    SelfDelimiting (fun e : H × Account H => e.2.nonce ≤ u64Max) fun e =>
      [Piece.digest e.1, .digest e.2.authCommit, .u64 e.2.nonce].flatMap Piece.toBytes := by
  rintro ⟨id, auth, nonce⟩ ⟨id', auth', nonce'⟩ r r' hn hn' h
  simp only [List.flatMap_cons, List.flatMap_nil, Piece.toBytes, List.append_assoc,
    List.nil_append] at h
  obtain ⟨rfl, h₁⟩ := selfDelimiting_digest hd trivial trivial h
  obtain ⟨rfl, h₂⟩ := selfDelimiting_digest hd trivial trivial h₁
  obtain ⟨rfl, h₃⟩ := selfDelimiting_u64 hn hn' h₂
  exact ⟨rfl, h₃⟩

omit [LinearOrder H] in
lemma selfDelimiting_balance (hd : DigestBytes H) :
    SelfDelimiting (fun e : (H ×ₗ H) × ℕ => e.2 ≤ u128Max) fun e =>
      ([Piece.digest (ofLex e.1).1, .digest (ofLex e.1).2] ++
        u128Pieces e.2).flatMap Piece.toBytes := by
  rintro ⟨key, amount⟩ ⟨key', amount'⟩ r r' hn hn' h
  simp only [List.flatMap_append, List.flatMap_cons, List.flatMap_nil, Piece.toBytes, u128Pieces,
    List.append_assoc, List.nil_append] at h
  obtain ⟨hid, h₁⟩ := selfDelimiting_digest hd trivial trivial h
  obtain ⟨hasset, h₂⟩ := selfDelimiting_digest hd trivial trivial h₁
  rw [← List.append_assoc, ← List.append_assoc (leBytes (amount' % _))] at h₂
  obtain ⟨rfl, h₃⟩ := selfDelimiting_u128 hn hn' h₂
  obtain rfl : key = key' := ofLex.injective (Prod.ext hid hasset)
  exact ⟨rfl, h₃⟩

omit [LinearOrder H] in
/-- An id and the JSON form of its record. -/
lemma selfDelimiting_json {A : Type} {json : A → List UInt8} (hd : DigestBytes H)
    (hjson : SelfDelimiting (fun _ => True) json) :
    SelfDelimiting (fun _ => True) fun e : H × A =>
      [Piece.digest e.1, .bytes (json e.2)].flatMap Piece.toBytes := by
  rintro ⟨id, a⟩ ⟨id', a'⟩ r r' - - h
  simp only [List.flatMap_cons, List.flatMap_nil, Piece.toBytes, List.append_assoc,
    List.nil_append] at h
  obtain ⟨rfl, h₁⟩ := selfDelimiting_digest hd trivial trivial h
  obtain ⟨rfl, h₂⟩ := hjson trivial trivial h₁
  exact ⟨rfl, h₂⟩

omit [LinearOrder H] in
lemma selfDelimiting_funding (hd : DigestBytes H) :
    SelfDelimiting (fun _ => True) fun e : H × H =>
      [Piece.digest e.1, .digest e.2].flatMap Piece.toBytes := by
  rintro ⟨root, funder⟩ ⟨root', funder'⟩ r r' - - h
  simp only [List.flatMap_cons, List.flatMap_nil, Piece.toBytes, List.append_assoc,
    List.nil_append] at h
  obtain ⟨rfl, h₁⟩ := selfDelimiting_digest hd trivial trivial h
  obtain ⟨rfl, h₂⟩ := selfDelimiting_digest hd trivial trivial h₁
  exact ⟨rfl, h₂⟩

/-- The fields of what is covered of a pool fit their types. -/
structure PoolRanged (p : PoolImage H) : Prop where
  version : p.version < 256
  index : p.nextIndex ≤ u64Max
  anchors : p.anchors.length ≤ u64Max
  nullifiers : p.nullifiers.toList.length ≤ u64Max
  total : p.totalShielded ≤ u128Max

lemma poolRanged_image {p : PoolState H} (h : p.Ranged) : PoolRanged p.image :=
  ⟨h.version, h.index, h.anchors, h.nullifiers, h.total⟩

/-- The bytes of a pool, from what they cover. -/
def poolBytes (p : PoolImage H) : List UInt8 :=
  [UInt8.ofNat p.version] ++
  ((match p.asset with
    | some a => [Piece.byte 1, .digest a]
    | none => [.byte 0]).flatMap Piece.toBytes ++
  (leBytes p.nextIndex ++ ((List.range 32).map (byteAt p.root) ++
  ((leBytes p.anchors.length ++ p.anchors.flatMap fun h => (List.range 32).map (byteAt h)) ++
  ((leBytes p.nullifiers.toList.length ++
    p.nullifiers.toList.flatMap fun h => (List.range 32).map (byteAt h)) ++
  (leBytes (p.totalShielded % 2 ^ 64) ++ leBytes (p.totalShielded / 2 ^ 64)))))))

lemma flatMap_commitPoolInto (p : PoolState H) :
    (commitPoolInto p).flatMap Piece.toBytes = poolBytes p.image := by
  cases hasset : p.asset <;>
    simp only [commitPoolInto, poolBytes, PoolState.image, hasset, List.flatMap_append,
      List.flatMap_cons, List.flatMap_nil, Piece.toBytes, u128Pieces, List.flatMap_map,
      List.append_assoc, List.append_nil, Std.ExtTreeSet.length_toList]

lemma selfDelimiting_pool (hd : DigestBytes H) :
    SelfDelimiting PoolRanged (poolBytes (H := H)) := by
  intro p q r r' hp hq h
  simp only [poolBytes, List.append_assoc] at h
  obtain ⟨hversion, h₁⟩ := selfDelimiting_u8 hp.version hq.version h
  obtain ⟨hpin, h₂⟩ := selfDelimiting_option hd trivial trivial h₁
  obtain ⟨hindex, h₃⟩ := selfDelimiting_u64 hp.index hq.index h₂
  obtain ⟨hroot, h₄⟩ := selfDelimiting_digest hd trivial trivial h₃
  rw [← List.append_assoc, ← List.append_assoc (leBytes q.anchors.length)] at h₄
  obtain ⟨hanchors, h₅⟩ := selfDelimiting_digests hd hp.anchors hq.anchors h₄
  rw [← List.append_assoc, ← List.append_assoc (leBytes q.nullifiers.toList.length)] at h₅
  obtain ⟨hnfs, h₆⟩ := selfDelimiting_digests hd hp.nullifiers hq.nullifiers h₅
  rw [← List.append_assoc, ← List.append_assoc (leBytes (q.totalShielded % _))] at h₆
  obtain ⟨htotal, h₇⟩ := selfDelimiting_u128 hp.total hq.total h₆
  have hset := Std.ExtTreeSet.toList_inj.mp hnfs
  refine ⟨?_, h₇⟩
  obtain ⟨⟩ := p
  obtain ⟨⟩ := q
  simp_all only

/-- A symbol with the length of its bytes in front. -/
lemma selfDelimiting_symbol :
    SelfDelimiting (fun symbol => validSymbol symbol = true) fun symbol : String =>
      [UInt8.ofNat symbol.toUTF8.size] ++ symbol.toUTF8.toList := by
  have hshort : ∀ symbol : String, validSymbol symbol = true → symbol.toUTF8.size < 256 := by
    intro symbol h
    have hlen : symbol.toUTF8.toList.length ≤ MAX_SYMBOL_LEN := by
      unfold validSymbol at h
      simp only [Bool.and_eq_true, decide_eq_true_eq] at h
      exact h.1.1.2
    rw [toList_eq_data] at hlen
    have hsize : symbol.toUTF8.size = symbol.toUTF8.data.toList.length := rfl
    simp only [MAX_SYMBOL_LEN] at hlen
    omega
  intro a b r r' ha hb h
  rw [List.append_assoc, List.append_assoc] at h
  obtain ⟨hsize, hrest⟩ := selfDelimiting_u8 (hshort a ha) (hshort b hb) h
  rw [toList_eq_data, toList_eq_data] at hrest
  obtain ⟨hbytes, hrest⟩ := List.append_inj hrest hsize
  refine ⟨?_, hrest⟩
  have hdata : a.toUTF8 = b.toUTF8 := ByteArray.ext (Array.toList_inj.mp hbytes)
  exact String.toByteArray_inj.mp hdata

lemma selfDelimiting_asset (hd : DigestBytes H) :
    SelfDelimiting AssetInfo.Ranged fun info : AssetInfo H =>
      info.commitInto.flatMap Piece.toBytes := by
  intro p q r r' hp hq h
  simp only [AssetInfo.commitInto, List.flatMap_append, List.flatMap_cons, List.flatMap_nil,
    Piece.toBytes, u128Pieces, List.flatMap_map, List.append_assoc, List.nil_append,
    ← Std.ExtTreeSet.length_toList] at h
  obtain ⟨hissuer, h₁⟩ := selfDelimiting_digest hd trivial trivial h
  rw [← List.append_assoc, ← List.append_assoc [UInt8.ofNat q.symbol.toUTF8.size]] at h₁
  obtain ⟨hsymbol, h₂⟩ := selfDelimiting_symbol hp.symbol hq.symbol h₁
  obtain ⟨hdecimals, h₃⟩ := selfDelimiting_u8 hp.decimals hq.decimals h₂
  obtain ⟨hbits, h₄⟩ := selfDelimiting_byte trivial trivial h₃
  obtain ⟨hpaused, h₅⟩ := selfDelimiting_u8 (Bool.toNat_lt p.paused |>.trans (by decide))
    (Bool.toNat_lt q.paused |>.trans (by decide)) h₄
  rw [← List.append_assoc, ← List.append_assoc (leBytes (q.supply % _))] at h₅
  obtain ⟨hsupply, h₆⟩ := selfDelimiting_u128 hp.supply hq.supply h₅
  rw [← List.append_assoc, ← List.append_assoc (leBytes (q.burned % _))] at h₆
  obtain ⟨hburned, h₇⟩ := selfDelimiting_u128 hp.burned hq.burned h₆
  obtain ⟨hregistered, h₈⟩ := selfDelimiting_u64 hp.registeredAt hq.registeredAt h₇
  rw [← List.append_assoc, ← List.append_assoc (leBytes q.frozen.toList.length)] at h₈
  obtain ⟨hfrozen, h₉⟩ := selfDelimiting_digests hd hp.frozen hq.frozen h₈
  have hpolicy := bits_injective hbits
  have hset := Std.ExtTreeSet.toList_inj.mp hfrozen
  have hpause : p.paused = q.paused := by
    revert hpaused
    cases p.paused <;> cases q.paused <;> simp
  refine ⟨?_, h₉⟩
  obtain ⟨⟩ := p
  obtain ⟨⟩ := q
  simp_all only

/-! ## Sections -/

/-- A section without a count, against one of the same size. -/
lemma eq_of_section {K V : Type} [LinearOrder K] {P : K × V → Prop}
    {enc : K × V → List UInt8} (henc : SelfDelimiting P enc) {m m' : OrderedMap K V}
    {r r' : List UInt8} (hm : ∀ e ∈ m.toList, P e) (hm' : ∀ e ∈ m'.toList, P e)
    (hsize : m.size = m'.size) (h : m.toList.flatMap enc ++ r = m'.toList.flatMap enc ++ r') :
    m = m' ∧ r = r' := by
  obtain ⟨hlist, hrest⟩ := henc.flatMap hm hm'
    (by rw [Std.ExtTreeMap.length_toList, Std.ExtTreeMap.length_toList, hsize]) h
  exact ⟨Std.ExtTreeMap.toList_inj.mp hlist, hrest⟩

/-- A section with its count in front. -/
lemma eq_of_counted {K V : Type} [LinearOrder K] {P : K × V → Prop}
    {enc : K × V → List UInt8} (henc : SelfDelimiting P enc) {m m' : OrderedMap K V}
    {r r' : List UInt8} (hm : ∀ e ∈ m.toList, P e) (hm' : ∀ e ∈ m'.toList, P e)
    (hcount : m.toList.length ≤ u64Max) (hcount' : m'.toList.length ≤ u64Max)
    (h : leBytes m.size ++ m.toList.flatMap enc ++ r =
      leBytes m'.size ++ m'.toList.flatMap enc ++ r') : m = m' ∧ r = r' := by
  rw [← Std.ExtTreeMap.length_toList, ← Std.ExtTreeMap.length_toList] at h
  obtain ⟨hlist, hrest⟩ := selfDelimiting_u64.counted henc ⟨hcount, hm⟩ ⟨hcount', hm'⟩ h
  exact ⟨Std.ExtTreeMap.toList_inj.mp hlist, hrest⟩

omit [LinearOrder H] in
/-- A digest in front of a self-delimiting record. -/
lemma selfDelimiting_entry {A : Type} {P : A → Prop} {enc : A → List UInt8} (hd : DigestBytes H)
    (h : SelfDelimiting P enc) :
    SelfDelimiting (fun e : H × A => P e.2) fun e =>
      (List.range 32).map (byteAt e.1) ++ enc e.2 := by
  rintro ⟨id, a⟩ ⟨id', a'⟩ r r' ha ha' heq
  rw [List.append_assoc, List.append_assoc] at heq
  obtain ⟨rfl, h₁⟩ := selfDelimiting_digest hd trivial trivial heq
  obtain ⟨rfl, h₂⟩ := h ha ha' h₁
  exact ⟨rfl, h₂⟩

/-- The three sections that stay absent until they hold something. -/
def tailBytes (s : State H) : List UInt8 :=
  (if 0 < s.feesBurned then
    0xFE :: (leBytes (s.feesBurned % 2 ^ 64) ++ leBytes (s.feesBurned / 2 ^ 64)) else []) ++
  ((if s.assets.isEmpty = false then 0xA5 :: (leBytes s.assets.size ++
      s.assets.toList.flatMap fun e =>
        (List.range 32).map (byteAt e.1) ++ e.2.commitInto.flatMap Piece.toBytes)
    else []) ++
  ((if s.committed.pools.isEmpty = false then 0xB6 :: (leBytes s.committed.pools.size ++
      s.committed.pools.toList.flatMap fun e =>
        (List.range 32).map (byteAt e.1) ++ poolBytes e.2)
    else []) ++ []))

lemma tailBytes_congr {s t : State H} (hfees : s.feesBurned = t.feesBurned)
    (hassets : s.assets = t.assets) (hpools : s.pools = t.pools) : tailBytes s = tailBytes t := by
  have hcommitted : s.committed.pools = t.committed.pools := by
    simp only [State.committed, hpools]
  unfold tailBytes
  rw [hfees, hassets, hcommitted]

omit [LinearOrder H] in
/-- A section with a tag and a count in front, that stays absent while it is empty. -/
lemma flatMap_tagged {A : Type} (empty : Bool) (tag : UInt8) (count : ℕ) (l : List (H × A))
    (pieces : A → List (Piece H)) :
    (if empty = true then [] else [.byte tag, .u64 count] ++
      l.flatMap fun e => .digest e.1 :: pieces e.2).flatMap Piece.toBytes =
    if empty = false then tag :: (leBytes count ++ l.flatMap fun e =>
      (List.range 32).map (byteAt e.1) ++ (pieces e.2).flatMap Piece.toBytes) else [] := by
  cases empty with
  | true => rfl
  | false =>
    rw [if_neg Bool.false_ne_true, if_pos rfl, List.flatMap_append, List.flatMap_assoc]
    rfl

lemma flatMap_tail (s : State H) :
    ((if 0 < s.feesBurned then (.byte 0xFE :: u128Pieces s.feesBurned : List (Piece H))
      else []).flatMap Piece.toBytes ++
    ((if s.assets.isEmpty then [] else [.byte 0xA5, .u64 s.assets.size] ++
      s.assets.toList.flatMap fun e => .digest e.1 :: e.2.commitInto).flatMap Piece.toBytes ++
    (if s.pools.isEmpty then [] else [.byte 0xB6, .u64 s.pools.size] ++
      s.pools.toList.flatMap fun e => .digest e.1 :: commitPoolInto e.2).flatMap Piece.toBytes)) =
    tailBytes s := by
  have hfees : (if 0 < s.feesBurned then (.byte 0xFE :: u128Pieces s.feesBurned : List (Piece H))
      else []).flatMap Piece.toBytes = if 0 < s.feesBurned then
        0xFE :: (leBytes (s.feesBurned % 2 ^ 64) ++ leBytes (s.feesBurned / 2 ^ 64)) else [] := by
    split_ifs
    · simp only [u128Pieces, List.flatMap_cons, List.flatMap_nil, Piece.toBytes, List.append_nil]
      rfl
    · rfl
  have hempty : s.committed.pools.isEmpty = s.pools.isEmpty := by
    simp only [State.committed, ← Std.ExtTreeMap.isEmpty_toList, Std.ExtTreeMap.toList_map,
      List.isEmpty_map]
  rw [hfees, flatMap_tagged, flatMap_tagged, tailBytes, List.append_nil, hempty]
  simp only [State.committed, Std.ExtTreeMap.size_map,
    Std.ExtTreeMap.toList_map, List.flatMap_map, flatMap_commitPoolInto]

/-- The sections of the byte string. -/
lemma commitmentBytes_eq [StateCodec H] (s : State H) : s.commitmentBytes =
    leBytes s.height ++ (leBytes s.time ++
    ((s.accounts.toList.flatMap fun e =>
      [Piece.digest e.1, .digest e.2.authCommit, .u64 e.2.nonce].flatMap Piece.toBytes) ++
    ((s.balances.toList.flatMap fun e => ([Piece.digest (ofLex e.1).1, .digest (ofLex e.1).2] ++
      u128Pieces e.2).flatMap Piece.toBytes) ++
    ((s.mandates.nodes.toList.flatMap fun e =>
      [Piece.digest e.1, .bytes (StateCodec.mandateJson e.2)].flatMap Piece.toBytes) ++
    ((s.channels.toList.flatMap fun e =>
      [Piece.digest e.1, .bytes (StateCodec.channelJson e.2)].flatMap Piece.toBytes) ++
    ((s.rootFunding.toList.flatMap fun e => [Piece.digest e.1,
      .digest e.2].flatMap Piece.toBytes) ++
    (poolBytes s.pool.image ++ tailBytes s))))))) := by
  rw [← flatMap_tail, ← flatMap_commitPoolInto]
  simp only [State.commitmentBytes, State.commitmentPieces, List.flatMap_append, List.flatMap_cons,
    List.flatMap_nil, List.flatMap_assoc, List.append_assoc, List.append_nil]
  rfl

/-- Two optional sections with equal contents when present are equal. -/
lemma eq_of_isEmpty {K V : Type} [LinearOrder K] {m m' : OrderedMap K V}
    (h : m.isEmpty = false ↔ m'.isEmpty = false) (hm : ¬ m.isEmpty = false) : m = m' := by
  have hempty : m.isEmpty = true := by simpa using hm
  have hempty' : m'.isEmpty = true := by simpa using fun h' => hm (h.mpr h')
  rw [Std.ExtTreeMap.isEmpty_iff.mp hempty, Std.ExtTreeMap.isEmpty_iff.mp hempty']

/-- The later sections can be read back. -/
lemma eq_of_tailBytes (hd : DigestBytes H) {s t : State H} (hs : s.Ranged) (ht : t.Ranged)
    (h : tailBytes s = tailBytes t) :
    s.feesBurned = t.feesBurned ∧ s.assets = t.assets ∧ s.committed.pools = t.committed.pools := by
  have hnil : ∀ u : UInt8, ([] : List UInt8).head? ≠ some u := by simp
  have hpools : ∀ {u : State H}, u.Ranged → (∀ e ∈ u.committed.pools.toList, PoolRanged e.2) ∧
      u.committed.pools.toList.length ≤ u64Max := by
    intro u hu
    simp only [State.committed, Std.ExtTreeMap.toList_map, List.length_map]
    refine ⟨fun e he => ?_, hu.poolCount⟩
    obtain ⟨e', he', rfl⟩ := List.mem_map.mp he
    exact poolRanged_image (hu.pools e' he')
  -- the fees
  obtain ⟨hfees, hsome, hnone⟩ := SelfDelimiting.tagged
    (SelfDelimiting.head_tagged_ne (by decide) (SelfDelimiting.head_tagged_ne (by decide) (hnil _)))
    (SelfDelimiting.head_tagged_ne (by decide) (SelfDelimiting.head_tagged_ne (by decide) (hnil _)))
    h
  obtain ⟨hfee, hregistry⟩ : s.feesBurned = t.feesBurned ∧ _ = _ := by
    by_cases hpos : 0 < s.feesBurned
    · exact selfDelimiting_u128 hs.feesBurned ht.feesBurned (hsome hpos)
    · have hpos' : ¬ 0 < t.feesBurned := fun hp => hpos (hfees.mpr hp)
      exact ⟨by omega, hnone hpos⟩
  -- the registry
  obtain ⟨hpresent, hsome', hnone'⟩ := SelfDelimiting.tagged
    (SelfDelimiting.head_tagged_ne (by decide) (hnil _))
    (SelfDelimiting.head_tagged_ne (by decide) (hnil _)) hregistry
  obtain ⟨hassets, hlast⟩ : s.assets = t.assets ∧ _ = _ := by
    by_cases hempty : s.assets.isEmpty = false
    · exact eq_of_counted (selfDelimiting_entry hd (selfDelimiting_asset hd)) hs.assets ht.assets
        hs.assetCount ht.assetCount (hsome' hempty)
    · exact ⟨eq_of_isEmpty hpresent hempty, hnone' hempty⟩
  -- the further pools
  obtain ⟨hpresent', hsome'', -⟩ := SelfDelimiting.tagged (hnil _) (hnil _) hlast
  refine ⟨hfee, hassets, ?_⟩
  by_cases hempty : s.committed.pools.isEmpty = false
  · exact (eq_of_counted (selfDelimiting_entry hd (selfDelimiting_pool hd)) (hpools hs).1
      (hpools ht).1 (hpools hs).2 (hpools ht).2 (hsome'' hempty)).1
  · exact eq_of_isEmpty hpresent' hempty

end Preimage

/-! ## The commitment -/

namespace State

open Preimage

/-- Equal bytes and equal sizes give equal contents. -/
lemma committed_eq_of_sameSizes [StateCodec H] (hd : DigestBytes H) (hjson : JsonDelimited H)
    {s t : State H} (hs : s.Ranged) (ht : t.Ranged) (h : s.commitmentBytes = t.commitmentBytes)
    (hsizes : SameSizes s t) : s.committed = t.committed := by
  rw [commitmentBytes_eq, commitmentBytes_eq] at h
  obtain ⟨hheight, h₁⟩ := selfDelimiting_u64 hs.height ht.height h
  obtain ⟨htime, h₂⟩ := selfDelimiting_u64 hs.time ht.time h₁
  obtain ⟨haccounts, h₃⟩ := eq_of_section (selfDelimiting_account hd) hs.nonces ht.nonces
    hsizes.accounts h₂
  obtain ⟨hbalances, h₄⟩ := eq_of_section (selfDelimiting_balance hd) hs.balances ht.balances
    hsizes.balances h₃
  obtain ⟨hmandates, h₅⟩ := eq_of_section (selfDelimiting_json hd hjson.mandate)
    (fun _ _ => trivial) (fun _ _ => trivial) hsizes.mandates h₄
  obtain ⟨hchannels, h₆⟩ := eq_of_section (selfDelimiting_json hd hjson.channel)
    (fun _ _ => trivial) (fun _ _ => trivial) hsizes.channels h₅
  obtain ⟨hfunding, h₇⟩ := eq_of_section (selfDelimiting_funding hd) (fun _ _ => trivial)
    (fun _ _ => trivial) hsizes.rootFunding h₆
  obtain ⟨hpool, h₈⟩ := selfDelimiting_pool hd (poolRanged_image hs.pool) (poolRanged_image ht.pool)
    h₇
  obtain ⟨hfees, hassets, hpools⟩ := eq_of_tailBytes hd hs ht h₈
  have htree : s.mandates = t.mandates := congrArg MandateTree.mk hmandates
  simp only [committed, CommittedImage.mk.injEq]
  exact ⟨hheight, htime, haccounts, hbalances, htree, hchannels, hfunding, hpool, hfees, hassets,
    hpools⟩

/-- A pool is what is covered of it and its tree. -/
lemma pool_eq_of_image {p q : PoolState H} (himage : p.image = q.image) (htree : p.tree = q.tree) :
    p = q := by
  obtain ⟨⟩ := p
  obtain ⟨⟩ := q
  simp only [PoolState.image, PoolImage.mk.injEq] at himage
  simp_all only

/-- Without a collision of the node hash, what is covered is the whole image. -/
lemma toSnapshot_eq_of_committed {s t : State H} (h : s.committed = t.committed)
    (hroots : RootsBind s t) : s.toSnapshot = t.toSnapshot := by
  have hsame : ∀ key p q, s.poolRef key = some p → t.poolRef key = some q → p.image = q.image →
      p = q := fun key p q hp hq himage =>
    pool_eq_of_image himage (hroots key p q hp hq (congrArg PoolImage.nextIndex himage)
      (congrArg PoolImage.root himage))
  simp only [committed, CommittedImage.mk.injEq] at h
  obtain ⟨hheight, htime, haccounts, hbalances, hmandates, hchannels, hfunding, hpool, hfees,
    hassets, hpools⟩ := h
  have hmulti : s.pools = t.pools := by
    refine Std.ExtTreeMap.ext_getElem? fun a => ?_
    have hget := congrArg (fun m : OrderedMap H (PoolImage H) => m[a]?) hpools
    simp only [Std.ExtTreeMap.getElem?_map] at hget
    cases hs : s.pools[a]? with
    | none =>
      rw [hs, Option.map_none, eq_comm, Option.map_eq_none_iff] at hget
      exact hget.symm
    | some p =>
      rw [hs, Option.map_some, eq_comm, Option.map_eq_some_iff] at hget
      obtain ⟨q, hq, himage⟩ := hget
      rw [hq, hsame (.asset a) p q hs hq himage.symm]
  simp only [toSnapshot, StateSnapshot.mk.injEq]
  exact ⟨hheight, htime, haccounts, hbalances, hmandates, hfunding, hchannels,
    hsame .legacy _ _ rfl rfl hpool, hfees, hassets, hmulti⟩

/-- **What the commitment determines.**  Two states whose commitments hash the same bytes agree in
everything the commitment covers exactly when their accounts, balances, mandates, channels and
funding accounts are as many; and then, unless the node hash collides, in everything persistent. -/
theorem committed_eq_iff_sameSizes [StateCodec H] (hd : DigestBytes H) (hjson : JsonDelimited H)
    {s t : State H} (hs : s.Ranged) (ht : t.Ranged) (h : s.commitmentBytes = t.commitmentBytes) :
    (s.committed = t.committed ↔ SameSizes s t) ∧
      (RootsBind s t → (s.toSnapshot = t.toSnapshot ↔ SameSizes s t)) := by
  have hsizes : ∀ {a b : CommittedImage H}, a = b → a.accounts.size = b.accounts.size ∧
      a.balances.size = b.balances.size ∧ a.mandates.nodes.size = b.mandates.nodes.size ∧
      a.channels.size = b.channels.size ∧ a.rootFunding.size = b.rootFunding.size := by
    rintro a _ rfl
    exact ⟨rfl, rfl, rfl, rfl, rfl⟩
  have hiff : s.committed = t.committed ↔ SameSizes s t := by
    constructor
    · intro heq
      obtain ⟨h₁, h₂, h₃, h₄, h₅⟩ := hsizes heq
      exact ⟨h₁, h₂, h₃, h₄, h₅⟩
    · exact committed_eq_of_sameSizes hd hjson hs ht h
  refine ⟨hiff, fun hroots => ⟨fun himage => hiff.mp ?_, fun hsame => ?_⟩⟩
  · simp only [toSnapshot, StateSnapshot.mk.injEq] at himage
    simp only [committed, himage]
  · exact toSnapshot_eq_of_committed (hiff.mpr hsame) hroots

end State

namespace Concrete

open State

/-! ## Digests of thirty-two bytes -/

/-- A digest as the number its bytes spell, the first byte on top. -/
abbrev Word := Fin (2 ^ 256)

def wordCode : Piece Word → List ℕ
  | .digest h => [h.val]
  | .byte b => [b.toNat]
  | .u32 n => [n]
  | .u64 n => [n]
  | .bytes bs => bs.map UInt8.toNat

instance : HashSuite Word where
  shake256_32 dom parts := Fin.ofNat _ (parts.foldl (fun acc ps =>
    (ps.flatMap wordCode).foldl mixRound (mixRound acc ps.length)) dom.length)
  sha parts := Fin.ofNat _ ((parts.flatMap wordCode).foldl mixRound 7)
  fill b := Fin.ofNat _ b.toNat
  byteAt h i := UInt8.ofNat (h.val / 256 ^ (31 - i))

lemma digestBytes_word : DigestBytes Word := by
  intro h h' hbytes
  have hdigits : (List.range 32).map (fun i => h.val / 256 ^ i % 256) =
      (List.range 32).map fun i => h'.val / 256 ^ i % 256 := by
    refine List.map_congr_left fun i hi => ?_
    have hi' := List.mem_range.mp hi
    have hbyte := congrArg UInt8.toNat (hbytes (31 - i) (by omega))
    have hsub : 31 - (31 - i) = i := by omega
    change (UInt8.ofNat (h.val / 256 ^ (31 - (31 - i)))).toNat =
      (UInt8.ofNat (h'.val / 256 ^ (31 - (31 - i)))).toNat at hbyte
    rw [hsub] at hbyte
    simpa using hbyte
  have hlow := congrArg (Nat.ofDigits 256) hdigits
  rw [ofDigits_low, ofDigits_low] at hlow
  have hpow : (256 : ℕ) ^ 32 = 2 ^ 256 := by norm_num
  rw [hpow, Nat.mod_eq_of_lt h.isLt, Nat.mod_eq_of_lt h'.isLt] at hlow
  exact Fin.ext hlow

/-- A number in decimal digits. -/
def decimal (n : ℕ) : List UInt8 := (Nat.digits 10 n).map fun d => UInt8.ofNat (48 + d)

/-- The fields of a record, each followed by a comma. -/
def fieldsJson (fields : List ℕ) : List UInt8 := fields.flatMap fun n => decimal n ++ [44]

def schemeCode : SigScheme → ℕ
  | .slhDsa192s => 0
  | .slhDsa128s => 1
  | .lms => 2
  | .xmss => 3
  | .wotsPlus => 4
  | .lamportRatchetV0 => 5

def mandateFields (n : MandateNode Word) : List ℕ :=
  [n.id.val, n.parent.isSome.toNat, (n.parent.getD 0).val, n.holderKey.val, schemeCode n.scheme,
    n.asset.val, n.ratePerSec, n.bufferMax, n.perTxMax, n.expiry, n.revoked.toNat, n.buffer,
    n.lastAccrual, n.tier]

def channelFields (c : Channel Word) : List ℕ :=
  [c.state.id.val, c.state.payer.val, c.state.payee.val, c.state.asset.val, c.state.mandate.val,
    c.state.tip.val, c.state.unitPrice, c.state.maxSteps, c.state.highestStepSettled,
    c.state.expiry, c.escrowRemaining, c.refunded.toNat]

instance : StateCodec Word where
  mandateJson n := fieldsJson (mandateFields n)
  channelJson c := fieldsJson (channelFields c)

lemma selfDelimiting_decimal : SelfDelimiting (fun _ => True) fun n => decimal n ++ [44] := by
  have hdigit : ∀ n, ∀ d ∈ Nat.digits 10 n, (UInt8.ofNat (48 + d)).toNat = 48 + d := by
    intro n d hd
    have hlt : d < 10 := Nat.digits_lt_base (by decide) hd
    exact UInt8.toNat_ofNat_of_lt' (by rw [UInt8.size]; omega)
  have hread : ∀ n, (decimal n).map (fun b => b.toNat - 48) = Nat.digits 10 n := by
    intro n
    rw [decimal, List.map_map]
    conv_rhs => rw [← List.map_id (Nat.digits 10 n)]
    refine List.map_congr_left fun d hd => ?_
    simp only [Function.comp_apply, hdigit n d hd, id]
    omega
  refine .terminated (fun n _ hmem => ?_) fun n m _ _ h => ?_
  · obtain ⟨d, hd, hcomma⟩ := List.mem_map.mp hmem
    have htoNat := congrArg UInt8.toNat hcomma
    rw [hdigit n d hd] at htoNat
    have h44 : (44 : UInt8).toNat = 44 := rfl
    omega
  · apply Nat.digits.injective 10
    rw [← hread n, ← hread m, h]

lemma jsonDelimited_word : JsonDelimited Word := by
  have hfields : ∀ {l l' : List ℕ} {r r' : List UInt8}, l.length = l'.length →
      fieldsJson l ++ r = fieldsJson l' ++ r' → l = l' ∧ r = r' := fun hlen h =>
    selfDelimiting_decimal.flatMap (fun _ _ => trivial) (fun _ _ => trivial) hlen h
  refine ⟨fun n m r r' _ _ h => ?_, fun c d r r' _ _ h => ?_⟩
  · change fieldsJson (mandateFields n) ++ r = fieldsJson (mandateFields m) ++ r' at h
    have hlen : (mandateFields n).length = (mandateFields m).length := rfl
    obtain ⟨hlist, hrest⟩ := hfields hlen h
    refine ⟨?_, hrest⟩
    obtain ⟨id, parent, key, scheme, asset, rate, bufferMax, perTxMax, expiry, revoked, buffer,
      last, tier⟩ := n
    obtain ⟨id', parent', key', scheme', asset', rate', bufferMax', perTxMax', expiry', revoked',
      buffer', last', tier'⟩ := m
    simp only [mandateFields, List.cons.injEq, and_true, Fin.val_inj] at hlist
    obtain ⟨rfl, hsome, hparent, rfl, hscheme, rfl, rfl, rfl, rfl, rfl, hrevoked, rfl, rfl, rfl⟩ :=
      hlist
    obtain rfl : scheme = scheme' := by
      revert hscheme
      cases scheme <;> cases scheme' <;> simp [schemeCode]
    obtain rfl : revoked = revoked' := by
      revert hrevoked
      cases revoked <;> cases revoked' <;> simp
    obtain rfl : parent = parent' := by
      cases parent <;> cases parent' <;> simp_all
    rfl
  · change fieldsJson (channelFields c) ++ r = fieldsJson (channelFields d) ++ r' at h
    have hlen : (channelFields c).length = (channelFields d).length := rfl
    obtain ⟨hlist, hrest⟩ := hfields hlen h
    refine ⟨?_, hrest⟩
    obtain ⟨⟨id, payer, payee, asset, mandate, tip, price, steps, settled, expiry⟩, escrow,
      refunded⟩ := c
    obtain ⟨⟨id', payer', payee', asset', mandate', tip', price', steps', settled', expiry'⟩,
      escrow', refunded'⟩ := d
    simp only [channelFields, List.cons.injEq, and_true, Fin.val_inj] at hlist
    obtain ⟨rfl, rfl, rfl, rfl, rfl, rfl, rfl, rfl, rfl, rfl, rfl, hrefunded⟩ := hlist
    obtain rfl : refunded = refunded' := by
      revert hrefunded
      cases refunded <;> cases refunded' <;> simp
    rfl

/-! ## Ten accounts and nine balances -/

/-- Bytes that can be cut into ten accounts, and into nine balances. -/
def sharedBytes : List ℕ :=
  (List.range 720).map fun i => if i % 72 = 0 then i / 72 + 1 else if i % 80 = 0 then i / 80 +
    1 else 0

/-- The digest that thirty-two of the bytes spell. -/
def sharedWord (i : ℕ) : Word :=
  Fin.ofNat _ (Nat.ofDigits 256 ((sharedBytes.drop i).take 32).reverse)

/-- The little-endian number that some of the bytes spell. -/
def sharedNumber (i width : ℕ) : ℕ := Nat.ofDigits 256 ((sharedBytes.drop i).take width)

/-- A state with the bytes as its accounts. -/
def tenAccounts : State Word :=
  { State.default with
    accounts := (List.range 10).foldl (fun m i => m.insert (sharedWord (72 * i))
      ⟨sharedWord (72 * i + 32), sharedNumber (72 * i + 64) 8⟩) ∅ }

/-- A state with the bytes as its balances. -/
def nineBalances : State Word :=
  { State.default with
    balances := (List.range 9).foldl (fun m i => m.insert
      (toLex (sharedWord (80 * i), sharedWord (80 * i + 32))) (sharedNumber (80 * i + 64) 16)) ∅ }

lemma ranged_default : (State.default : State Word).Ranged where
  height := by decide
  time := by decide
  nonces := by decide +kernel
  balances := by decide +kernel
  pool := ⟨by decide, by decide, by decide, by decide +kernel, by decide⟩
  feesBurned := by decide
  assets e he := absurd (OrderedMap.mem_toList.mp he) (by simp [State.default])
  assetCount := by decide +kernel
  pools e he := absurd (OrderedMap.mem_toList.mp he) (by simp [State.default])
  poolCount := by decide +kernel

/-- A state that holds nothing but accounts and balances. -/
lemma ranged_of_ledger {s : State Word} {accounts : OrderedMap Word (Account Word)}
    {balances : OrderedMap (Word ×ₗ Word) ℕ}
    (hs : s = { State.default with accounts := accounts, balances := balances })
    (hnonces : ∀ e ∈ accounts.toList, e.2.nonce ≤ u64Max)
    (hbalances : ∀ e ∈ balances.toList, e.2 ≤ u128Max) : s.Ranged := by
  obtain ⟨hheight, htime, -, -, hpool, hfees, hassets, hcount, hpools, hcount'⟩ := ranged_default
  subst hs
  exact ⟨hheight, htime, hnonces, hbalances, hpool, hfees, hassets, hcount, hpools, hcount'⟩

lemma tenAccounts_ranged : tenAccounts.Ranged :=
  ranged_of_ledger rfl (by decide +kernel) (by decide +kernel)

lemma nineBalances_ranged : nineBalances.Ranged :=
  ranged_of_ledger rfl (by decide +kernel) (by decide +kernel)

/-- The ten accounts and the nine balances are the same bytes. -/
lemma sections_eq : (tenAccounts.accounts.toList.flatMap fun e =>
      [Piece.digest e.1, .digest e.2.authCommit, .u64 e.2.nonce].flatMap Piece.toBytes) =
    nineBalances.balances.toList.flatMap fun e =>
      ([Piece.digest (ofLex e.1).1, .digest (ofLex e.1).2] ++ u128Pieces e.2).flatMap
        Piece.toBytes := by
  decide +kernel

/-- Two states that hash the same bytes and differ in their accounts and balances. -/
theorem tenAccounts_nineBalances : tenAccounts.Ranged ∧ nineBalances.Ranged ∧
    tenAccounts.commitmentBytes = nineBalances.commitmentBytes ∧
    tenAccounts.accounts.size = 10 ∧ nineBalances.accounts.size = 0 := by
  refine ⟨tenAccounts_ranged, nineBalances_ranged, ?_, by decide +kernel, by decide +kernel⟩
  have hbalances : tenAccounts.balances.toList = [] := by decide +kernel
  have haccounts : nineBalances.accounts.toList = [] :=
    List.eq_nil_of_length_eq_zero (by decide +kernel)
  have htail : Preimage.tailBytes tenAccounts = Preimage.tailBytes nineBalances :=
    Preimage.tailBytes_congr rfl rfl rfl
  have hheight : tenAccounts.height = nineBalances.height := rfl
  have htime : tenAccounts.time = nineBalances.time := rfl
  have hmandates : tenAccounts.mandates = nineBalances.mandates := rfl
  have hchannels : tenAccounts.channels = nineBalances.channels := rfl
  have hfunding : tenAccounts.rootFunding = nineBalances.rootFunding := rfl
  have hpool : tenAccounts.pool = nineBalances.pool := rfl
  rw [Preimage.commitmentBytes_eq, Preimage.commitmentBytes_eq, sections_eq, hbalances, haccounts,
    hheight, htime, hmandates, hchannels, hfunding, hpool, htail, List.flatMap_nil,
    List.flatMap_nil, List.nil_append, List.nil_append]

/-- The configuration of a node does not enter the bytes. -/
theorem tenAccounts_configured :
    { tenAccounts with feeMicro := 5 }.committed = tenAccounts.committed := by
  have hranged : { tenAccounts with feeMicro := 5 }.Ranged := by
    obtain ⟨h₁, h₂, h₃, h₄, h₅, h₆, h₇, h₈, h₉, h₁₀⟩ := tenAccounts_ranged
    exact ⟨h₁, h₂, h₃, h₄, h₅, h₆, h₇, h₈, h₉, h₁₀⟩
  have hbytes : { tenAccounts with feeMicro := 5 }.commitmentBytes =
      tenAccounts.commitmentBytes := by
    rw [Preimage.commitmentBytes_eq, Preimage.commitmentBytes_eq]
    rfl
  exact (committed_eq_iff_sameSizes digestBytes_word jsonDelimited_word hranged tenAccounts_ranged
    hbytes).1.mpr ⟨rfl, rfl, rfl, rfl, rfl⟩

end Concrete

end HashKinetics
