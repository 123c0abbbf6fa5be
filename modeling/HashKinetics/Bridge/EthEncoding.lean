import HashKinetics.Foundations.Checked
import HashKinetics.Foundations.Rlp
import HashKinetics.Primitives

/-!
# What the attestors send to Ethereum

An attestor submits a signed fee-market transaction, written with the recursive length prefix, whose
data is a call of a contract with the arguments `(address, uint256, bytes32, bytes[])`.  The
encoders are those of the bridge; they are compared with the strict decoder of the prefix format and
with a decoder of the contract's arguments.
-/

namespace HashKinetics

open Foundations Foundations.Rlp

/-- The most bytes that an allocation can hold. -/
def isizeMax : ℕ := 9223372036854775807

/-! ## The prefix format -/

/-- The first byte that is not zero. -/
def position (be : List UInt8) : Option ℕ := be.findIdx? (· != 0)

/-- The header of a string or a list: one byte for a short one, else the length of the length
first. -/
def rlpLen (len offset : ℕ) : List UInt8 :=
  if len < 56 then [UInt8.ofNat (offset + len)]
  else
    let be := beOf 8 len
    let first := (position be).getD 7
    UInt8.ofNat (offset + 55 + (8 - first)) :: be.drop first

/-- A byte string; one small byte stands for itself. -/
def rlpBytes (b : List UInt8) : List UInt8 :=
  if b.length = 1 ∧ (b.headD 0).toNat < 128 then b else rlpLen b.length 128 ++ b

/-- A number other than zero has a byte other than zero, so the position exists. -/
def rlpUint (n : ℕ) : List UInt8 :=
  if n = 0 then [0x80]
  else
    let be := beOf 16 n
    rlpBytes (be.drop ((position be).getD 16))

/-- A list: its header and its items. -/
def rlpList (items : List (List UInt8)) : List UInt8 :=
  let payload := items.flatten
  rlpLen payload.length 192 ++ payload

/-- The bytes from the first one that is not zero. -/
def stripLeadingZeros (b : List UInt8) : List UInt8 := b.drop ((position b).getD b.length)

/-- A fee-market transaction. -/
structure Tx1559 where
  chainId : Fin (2 ^ 64)
  nonce : U128
  maxPriorityFee : U128
  maxFee : U128
  gas : U128
  recipient : List.Vector UInt8 20
  value : U128
  data : List UInt8
  /-- A vector fits an allocation. -/
  allocated : data.length ≤ isizeMax

/-- The fields of a transaction, encoded; the access list is empty. -/
def txBody (tx : Tx1559) : List (List UInt8) :=
  [rlpUint tx.chainId, rlpUint tx.nonce, rlpUint tx.maxPriorityFee, rlpUint tx.maxFee,
    rlpUint tx.gas, rlpBytes tx.recipient.toList, rlpUint tx.value, rlpBytes tx.data, rlpList []]

section Sign

variable (keccak256 : List UInt8 → List.Vector UInt8 32)
  (signTxHash : List.Vector UInt8 32 →
    Except String (UInt8 × List.Vector UInt8 32 × List.Vector UInt8 32))

/-- The bytes of the signed transaction: the fields again, with the parity and the two scalars. -/
def signTx (tx : Tx1559) : Except String (List UInt8) := do
  let body := txBody tx
  let h := keccak256 (0x02 :: rlpList body)
  let (y, r, s) ← signTxHash h
  return 0x02 :: rlpList (body ++
    [rlpUint y.toNat, rlpBytes (stripLeadingZeros r.toList), rlpBytes (stripLeadingZeros s.toList)])

end Sign

/-! ## The arguments of a call -/

/-- A number as a word of the contract. -/
def wordU (n : ℕ) : List UInt8 := List.replicate 16 0 ++ beOf 16 n

/-- An address as a word of the contract. -/
def wordAddr (a : List.Vector UInt8 20) : List UInt8 := List.replicate 12 0 ++ a.toList

/-- One offset a signature, counted from behind the length of the array. -/
def offsetWords (n : ℕ) : List UInt8 :=
  ((List.range n).foldl (fun st _ => (st.1 ++ wordU st.2, st.2 + (32 + 96))) (([] : List UInt8),
    32 * n)).1

/-- The length of a signature, and the signature padded with zeros. -/
def signatureWords (sig : List.Vector UInt8 65) : List UInt8 :=
  wordU 65 ++ (sig.toList ++ List.replicate (96 - 65) 0)

/-- The call `f(address to, uint256 amount, bytes32 id, bytes[] sigs)`.  The space for it is
allocated first, which ends the process when it is more than an allocation can hold. -/
def encodeAttestedCall (keccak256 : List UInt8 → List.Vector UInt8 32) (fnSig : List UInt8)
    (recipient : List.Vector UInt8 20) (amount : U128) (id : List.Vector UInt8 32)
    (sigs : List (List.Vector UInt8 65)) : Option (List UInt8) :=
  if isizeMax < 4 + 32 * 4 + sigs.length * 128 then none
  else some ((keccak256 fnSig).toList.take 4 ++ wordAddr recipient ++ wordU amount ++ id.toList ++
    wordU 0x80 ++ wordU sigs.length ++ offsetWords sigs.length ++ sigs.flatMap signatureWords)

/-- The word at a position. -/
def wordAt (data : List UInt8) (off : ℕ) : Option (List UInt8) :=
  if off + 32 ≤ data.length then some ((data.drop off).take 32) else none

/-- The number in the word at a position. -/
def natAt (data : List UInt8) (off : ℕ) : Option ℕ := (wordAt data off).map beNat

/-- The byte string at a position: its length, its bytes, and zeros up to a whole number of
words. -/
def bytesAt (data : List UInt8) (off : ℕ) : Option (List UInt8) := do
  let len ← natAt data off
  let padding := (32 - len % 32) % 32
  let padded := (data.drop (off + 32)).take (len + padding)
  if padded.length = len + padding ∧ padded.drop len =
    List.replicate padding 0 then some (padded.take len)
  else none

/-- The arguments of a call, as the contract reads them. -/
def decodeArguments (data : List UInt8) :
    Option (List UInt8 × ℕ × List UInt8 × List (List UInt8)) := do
  let account ← wordAt data 0
  if account.take 12 ≠ List.replicate 12 0 then none
  else do
    let amount ← natAt data 32
    let id ← wordAt data 64
    let base ← natAt data 96
    let n ← natAt data base
    let block := data.drop (base + 32)
    let sigs ← (List.range n).mapM fun i => do
      let off ← natAt block (32 * i)
      bytesAt block off
    some (account.drop 12, amount, id, sigs)

/-! ## The encoders write the canonical form -/

/-- What is left of bytes from the first that is not zero. -/
lemma drop_position (be : List UInt8) {d : ℕ} (hd : beNat be ≠ 0 ∨ be.length ≤ d) :
    be.drop ((position be).getD d) = minimalBe (beNat be) := by
  have hdrop : be.dropWhile (· == 0) = be.drop (be.findIdx fun a => !(a == 0)) :=
    List.dropWhile_eq_drop_findIdx_not
  rw [dropWhile_zero_eq_minimalBe] at hdrop
  unfold position
  cases hpos : be.findIdx? (· != 0) with
  | some i =>
    rw [Option.getD_some, hdrop]
    rw [List.findIdx?_eq_some_iff_findIdx_eq] at hpos
    rw [← hpos.2]
    rfl
  | none =>
    rw [List.findIdx?_eq_none_iff] at hpos
    have hzero : be.dropWhile (· == 0) = [] := by
      rw [List.dropWhile_eq_nil_iff]
      intro b hb
      simpa using hpos b hb
    have hnat : beNat be = 0 := by
      rw [← beNat_dropWhile_zero, hzero]
      rfl
    rw [Option.getD_none, hnat]
    exact List.drop_eq_nil_of_le (hd.resolve_left fun hne => hne hnat)

/-- The header is that of the format. -/
lemma rlpLen_eq_header {len : ℕ} (h : len < 2 ^ 64)
    (offset : ℕ) : rlpLen len offset = header offset len := by
  unfold rlpLen header
  split_ifs with hshort
  · rfl
  · have hnat : beNat (beOf 8 len) = len := beNat_beOf (h.trans_eq (by norm_num))
    have hdrop := drop_position (beOf 8 len) (d := 7) (.inl (by omega))
    rw [hnat] at hdrop
    have hlength := congrArg List.length hdrop
    rw [List.length_drop, length_beOf] at hlength
    simp only [hdrop, hlength]

/-- A byte string is written as the format says. -/
lemma rlpBytes_eq_encode {b : List UInt8} (h : b.length < 2 ^ 64) :
    rlpBytes b = encode (.bytes b) := by
  have hplain : (b.length = 1 ∧ (b.headD 0).toNat < 128) ↔ IsPlain b := by
    refine and_congr_right fun hlen => ?_
    obtain ⟨c, rfl⟩ := List.length_eq_one_iff.mp hlen
    simp
  rw [encode, rlpBytes, encodeBytes, rlpLen_eq_header h]
  simp only [hplain]

/-- A number is written as the format says. -/
lemma rlpUint_eq_encode {n : ℕ} (h : n < 2 ^ 128) : rlpUint n = encode (.bytes (minimalBe n)) := by
  unfold rlpUint
  split_ifs with hzero
  · rw [hzero]
    simp [encode, encodeBytes, IsPlain, minimalBe, header]
  · have hwidth : n < 256 ^ 16 := h.trans_eq (by norm_num)
    have hnat : beNat (beOf 16 n) = n := beNat_beOf hwidth
    have hlen := length_minimalBe_le hwidth
    simp only [drop_position (beOf 16 n) (d := 16) (.inl (by omega)), hnat]
    exact rlpBytes_eq_encode (by omega)

/-- Items are written one after the other. -/
lemma flatten_map_encode (items : List Item) : (items.map encode).flatten = encodeAll items := by
  induction items with
  | nil => rw [encodeAll]; rfl
  | cons item items ih => rw [List.map_cons, List.flatten_cons, ih, encodeAll]

/-- A list is written as the format says. -/
lemma rlpList_eq_encode {items : List Item} (h : (encodeAll items).length < 2 ^ 64) :
    rlpList (items.map encode) = encode (.list items) := by
  simp only [rlpList, flatten_map_encode, encode, rlpLen_eq_header h]

/-! ## Transactions -/

/-- A number as an item: its minimal bytes. -/
def uintItem (n : ℕ) : Item := .bytes (minimalBe n)

/-- The fields of a transaction as items. -/
def txItems (tx : Tx1559) : List Item :=
  [uintItem tx.chainId, uintItem tx.nonce, uintItem tx.maxPriorityFee, uintItem tx.maxFee,
    uintItem tx.gas, .bytes tx.recipient.toList, uintItem tx.value, .bytes tx.data, .list []]

/-- The items of a signature. -/
def signatureItems (y : UInt8) (r s : List.Vector UInt8 32) : List Item :=
  [uintItem y.toNat, uintItem (beNat r.toList), uintItem (beNat s.toList)]

/-- A header has nine bytes at most. -/
lemma length_header_le (offset : ℕ) {len : ℕ} (h : len < 2 ^ 64) :
    (header offset len).length ≤ 9 := by
  unfold header
  split_ifs with hshort
  · simp
  · have hwidth := length_minimalBe_le (n := len) (w := 8) (h.trans_eq (by norm_num))
    rw [List.length_cons]
    omega

/-- A byte string grows by its header. -/
lemma length_encode_bytes_le {b : List UInt8} (h : b.length < 2 ^ 64) :
    (encode (.bytes b)).length ≤ 9 + b.length := by
  have hheader := length_header_le 128 h
  rw [encode, encodeBytes]
  split_ifs
  · omega
  · rw [List.length_append]
    omega

/-- A number of a width grows by its header. -/
lemma length_encode_uintItem_le {n w : ℕ} (h : n < 256 ^ w) (hw : w ≤ 32) :
    (encode (uintItem n)).length ≤ 9 + w := by
  have hlen := length_minimalBe_le h
  have hbytes := length_encode_bytes_le (b := minimalBe n) (by omega)
  rw [uintItem]
  omega

/-- A number of a word fits the format. -/
lemma fits_uintItem {n w : ℕ} (h : n < 256 ^ w) (hw : w ≤ 32) : Fits (uintItem n) := by
  have hlen := length_minimalBe_le h
  rw [uintItem, Fits]
  omega

/-- A `u128` is below the width of sixteen bytes. -/
lemma u128_lt (n : U128) : n.val < 256 ^ 16 := n.isLt.trans_eq (by norm_num)

/-- A chain id is below the width of eight bytes. -/
lemma chainId_lt (tx : Tx1559) : tx.chainId.val < 256 ^ 8 := tx.chainId.isLt.trans_eq (by norm_num)

/-- Call data is far shorter than what a header can say. -/
lemma length_data_lt (tx : Tx1559) : tx.data.length < 2 ^ 63 := by
  have halloc := tx.allocated
  unfold isizeMax at halloc
  omega

/-- The bytes of two lists of items are the bytes of one after the other. -/
lemma encodeAll_append (items items' : List Item) :
    encodeAll (items ++ items') = encodeAll items ++ encodeAll items' := by
  rw [← flatten_map_encode, List.map_append, List.flatten_append, flatten_map_encode,
    flatten_map_encode]

/-- Items fit together if each of them fits. -/
lemma fitsAll_iff (items : List Item) : FitsAll items ↔ ∀ item ∈ items, Fits item := by
  induction items with
  | nil => simp [FitsAll]
  | cons item items ih => rw [FitsAll, ih, List.forall_mem_cons]

/-- The fields of a transaction are encoded one by one. -/
lemma txBody_eq (tx : Tx1559) : txBody tx = (txItems tx).map encode := by
  have hempty : (encodeAll []).length < 2 ^ 64 := by simp [encodeAll]
  have hlist : rlpList [] = encode (.list []) := rlpList_eq_encode hempty
  have hdata := length_data_lt tx
  have hrecipient : tx.recipient.toList.length < 2 ^ 64 := by
    rw [tx.recipient.toList_length]
    norm_num
  simp only [txBody, txItems, uintItem, List.map_cons, List.map_nil,
    rlpUint_eq_encode (tx.chainId.isLt.trans (by norm_num)), rlpUint_eq_encode tx.nonce.isLt,
    rlpUint_eq_encode tx.maxPriorityFee.isLt, rlpUint_eq_encode tx.maxFee.isLt,
    rlpUint_eq_encode tx.gas.isLt, rlpUint_eq_encode tx.value.isLt, hlist,
    rlpBytes_eq_encode hrecipient, rlpBytes_eq_encode (hdata.trans (by norm_num))]

/-- The fields of a transaction fit the format. -/
lemma fitsAll_txItems (tx : Tx1559) : FitsAll (txItems tx) := by
  have hdata := length_data_lt tx
  have hrecipient := tx.recipient.toList_length
  simp only [fitsAll_iff, txItems, List.forall_mem_cons, List.not_mem_nil, false_imp_iff,
    implies_true,
    and_true, fits_uintItem (chainId_lt tx) (by norm_num), fits_uintItem (u128_lt _)
    (by norm_num : 16 ≤ 32), Fits, FitsAll, encodeAll, List.length_nil, true_and]
  omega

/-- The fields of a transaction are short but for its data. -/
lemma length_encodeAll_txItems_le (tx : Tx1559) :
    (encodeAll (txItems tx)).length ≤ 200 + tx.data.length := by
  have hdata := length_data_lt tx
  have hrecipient := tx.recipient.toList_length
  have hlist : (encode (.list [])).length ≤ 9 := by
    simp only [encode, encodeAll, List.append_nil, List.length_nil]
    exact length_header_le 192 (by norm_num)
  have hchain := length_encode_uintItem_le (chainId_lt tx) (by norm_num)
  have huint := fun n : U128 => length_encode_uintItem_le (u128_lt n) (by norm_num)
  have hnonce := huint tx.nonce
  have hpriority := huint tx.maxPriorityFee
  have hfee := huint tx.maxFee
  have hgas := huint tx.gas
  have hvalue := huint tx.value
  have hto := length_encode_bytes_le (b := tx.recipient.toList) (by omega)
  have hbytes := length_encode_bytes_le (b := tx.data) (by omega)
  simp only [txItems, encodeAll, List.length_append, List.length_nil]
  omega

/-- The signed fields. -/
lemma signedBody_eq (tx : Tx1559) (y : UInt8) (r s : List.Vector UInt8 32) :
    txBody tx ++ [rlpUint y.toNat, rlpBytes (stripLeadingZeros r.toList),
      rlpBytes (stripLeadingZeros s.toList)] = (txItems tx ++ signatureItems y r s).map encode := by
  have hscalar : ∀ v : List.Vector UInt8 32,
      rlpBytes (stripLeadingZeros v.toList) = encode (uintItem (beNat v.toList)) := by
    intro v
    have hlen : (minimalBe (beNat v.toList)).length ≤ 32 := by
      refine length_minimalBe_le ((beNat_lt v.toList).trans_eq ?_)
      rw [v.toList_length]
    rw [stripLeadingZeros, drop_position v.toList (.inr le_rfl), uintItem]
    exact rlpBytes_eq_encode (by omega)
  have hy : y.toNat < 2 ^ 128 := (UInt8.toNat_lt y).trans (by norm_num)
  rw [txBody_eq, List.map_append]
  simp only [signatureItems, List.map_cons, List.map_nil, hscalar, rlpUint_eq_encode hy, uintItem]

/-- A signed transaction fits the format. -/
lemma fits_signed (tx : Tx1559) (y : UInt8) (r s : List.Vector UInt8 32) :
    Fits (.list (txItems tx ++ signatureItems y r s)) := by
  have hdata := length_data_lt tx
  have hbody := length_encodeAll_txItems_le tx
  have hy : y.toNat < 256 ^ 1 := UInt8.toNat_lt y
  have hscalar : ∀ v : List.Vector UInt8 32, beNat v.toList < 256 ^ 32 := fun v => by
    apply (beNat_lt v.toList).trans_eq
    rw [v.toList_length]
  have hlenY := length_encode_uintItem_le hy (by norm_num)
  have hlenR := length_encode_uintItem_le (hscalar r) le_rfl
  have hlenS := length_encode_uintItem_le (hscalar s) le_rfl
  rw [Fits, fitsAll_iff]
  constructor
  · intro item hitem
    rcases List.mem_append.mp hitem with hbody | hsig
    · exact (fitsAll_iff _).mp (fitsAll_txItems tx) item hbody
    · simp only [signatureItems, List.mem_cons, List.not_mem_nil, or_false] at hsig
      rcases hsig with rfl | rfl | rfl
      · exact fits_uintItem hy (by norm_num)
      · exact fits_uintItem (hscalar r) le_rfl
      · exact fits_uintItem (hscalar s) le_rfl
  · rw [encodeAll_append, List.length_append]
    simp only [signatureItems, encodeAll, List.length_append, List.length_nil]
    omega

/-- The fields can be told from the items. -/
lemma txItems_injective : Function.Injective txItems := by
  intro tx tx' h
  simp only [txItems, uintItem, List.cons.injEq, Item.bytes.injEq, and_true] at h
  obtain ⟨hchain, hnonce, hpriority, hfee, hgas, hto, hvalue, hdata⟩ := h
  cases tx
  cases tx'
  simp only at hchain hnonce hpriority hfee hgas hto hvalue hdata
  obtain rfl := Fin.val_injective (minimalBe_injective hchain)
  obtain rfl := Fin.val_injective (minimalBe_injective hnonce)
  obtain rfl := Fin.val_injective (minimalBe_injective hpriority)
  obtain rfl := Fin.val_injective (minimalBe_injective hfee)
  obtain rfl := Fin.val_injective (minimalBe_injective hgas)
  obtain rfl := Subtype.val_injective hto
  obtain rfl := Fin.val_injective (minimalBe_injective hvalue)
  subst hdata
  rfl

/-- The unsigned transaction is decoded to its fields. -/
lemma decode_txBody (tx : Tx1559) : decode (rlpList (txBody tx)) = some (.list (txItems tx)) := by
  have hdata := length_data_lt tx
  have hlen := length_encodeAll_txItems_le tx
  rw [txBody_eq, rlpList_eq_encode (by omega)]
  apply decode_encode_of_fits
  rw [Fits]
  exact ⟨fitsAll_txItems tx, by omega⟩

/-- The signed transaction is decoded to its fields and its signature. -/
lemma decode_signed (tx : Tx1559) (y : UInt8) (r s : List.Vector UInt8 32) :
    decode (rlpList (txBody tx ++ [rlpUint y.toNat, rlpBytes (stripLeadingZeros r.toList),
      rlpBytes (stripLeadingZeros s.toList)])) =
        some (.list (txItems tx ++ signatureItems y r s)) := by
  have hfits := fits_signed tx y r s
  have hlen := hfits
  rw [Fits] at hlen
  rw [signedBody_eq, rlpList_eq_encode hlen.2]
  exact decode_encode_of_fits hfits

/-! ## Calls -/

/-- A word has thirty-two bytes. -/
@[simp] lemma length_wordU (n : ℕ) : (wordU n).length = 32 := by simp [wordU]

/-- The word of an address has thirty-two bytes. -/
@[simp] lemma length_wordAddr (a : List.Vector UInt8 20) : (wordAddr a).length = 32 := by
  rw [wordAddr, List.length_append, List.length_replicate, a.toList_length]

/-- A signature takes its length and three words. -/
@[simp] lemma length_signatureWords (sig : List.Vector UInt8 65) :
    (signatureWords sig).length = 128 := by
  rw [signatureWords, List.length_append, List.length_append, length_wordU, sig.toList_length,
    List.length_replicate]

/-- A number is read back from its word. -/
lemma beNat_wordU {n : ℕ} (h : n < 2 ^ 128) : beNat (wordU n) = n := by
  rw [wordU, beNat_replicate_zero_append, beNat_beOf (h.trans_eq (by norm_num))]

/-- The offsets run over the signatures in steps of one signature's size. -/
lemma offsetWords_eq (n : ℕ) :
    offsetWords n = (List.range n).flatMap fun i => wordU (32 * n + 128 * i) := by
  have hloop : ∀ k, (List.range k).foldl (fun (st : List UInt8 × ℕ) (_ : ℕ) =>
      (st.1 ++ wordU st.2, st.2 + (32 + 96))) (([] : List UInt8), 32 * n) =
        ((List.range k).flatMap fun i => wordU (32 * n + 128 * i), 32 * n + 128 * k) := by
    intro k
    induction k with
    | zero => rfl
    | succ k ih =>
      rw [List.range_succ, List.foldl_append, ih, List.flatMap_append]
      simp only [List.foldl_cons, List.foldl_nil, List.flatMap_cons, List.flatMap_nil,
        List.append_nil, Prod.mk.injEq, true_and]
      omega
  rw [offsetWords, hloop]

/-- Every offset is a word. -/
lemma length_offsetWords (n : ℕ) : (offsetWords n).length = 32 * n := by
  rw [offsetWords_eq, List.length_flatMap]
  simp [mul_comm]

/-- A word between other bytes. -/
lemma wordAt_append {pre w : List UInt8} (hw : w.length = 32) (post : List UInt8) :
    wordAt (pre ++ (w ++ post)) pre.length = some w := by
  rw [wordAt, if_pos (by simp only [List.length_append]; omega), List.drop_left, List.take_left' hw]

/-- A signature is found where its words are. -/
lemma bytesAt_signatureWords {data : List UInt8} {off : ℕ} {sig : List.Vector UInt8 65}
    (h : (data.drop off).take 128 = signatureWords sig) : bytesAt data off = some sig.toList := by
  have hlength := congrArg List.length h
  rw [length_signatureWords, List.length_take, List.length_drop] at hlength
  have hword : wordAt data off = some (wordU 65) := by
    rw [wordAt, if_pos (by omega)]
    have htake : (data.drop off).take 32 = ((data.drop off).take 128).take 32 := by
      rw [List.take_take]
      rfl
    rw [htake, h, signatureWords, List.take_left' (length_wordU 65)]
  have hlen : natAt data off = some 65 := by
    rw [natAt, hword, Option.map_some, beNat_wordU (by norm_num)]
  have hpadded : (data.drop (off + 32)).take 96 = sig.toList ++ List.replicate 31 0 := by
    have hdrop : (data.drop (off + 32)).take 96 = ((data.drop off).take 128).drop 32 := by
      rw [List.drop_take, List.drop_drop]
    rw [hdrop, h, signatureWords, List.drop_left' (length_wordU 65)]
  have hsig := sig.toList_length
  simp only [bytesAt, hlen, Option.bind_eq_bind, Option.bind_some]
  norm_num only
  rw [hpadded, List.drop_left' hsig, List.take_left' hsig, if_pos]
  exact ⟨by simp [hsig], rfl⟩

/-- A traversal that succeeds everywhere is a map. -/
lemma mapM_eq_some_map {α β : Type} {f : α → Option β} {g : α → β} {l : List α}
    (h : ∀ a ∈ l, f a = some (g a)) : l.mapM f = some (l.map g) := by
  induction l with
  | nil => rfl
  | cons a l ih =>
    rw [List.forall_mem_cons] at h
    rw [List.mapM_cons, h.1, ih h.2]
    rfl

/-- The elements of the array, behind its length. -/
lemma mapM_signatures {sigs : List (List.Vector UInt8 65)} (hn : 160 * sigs.length < 2 ^ 128) :
    (List.range sigs.length).mapM (fun i => do
      let off ← natAt (offsetWords sigs.length ++ sigs.flatMap signatureWords) (32 * i)
      bytesAt (offsetWords sigs.length ++ sigs.flatMap signatureWords) off) =
        some (sigs.map List.Vector.toList) := by
  have hlist : (List.range sigs.length).map (fun i => ((sigs.map List.Vector.toList)[i]?).getD []) =
      sigs.map List.Vector.toList := by
    refine List.ext_getElem (by simp) fun i hi hi' => ?_
    simp only [List.getElem_map, List.getElem_range]
    rw [List.getElem?_eq_getElem (by simpa using hi'), Option.getD_some, List.getElem_map]
  rw [← hlist]
  refine mapM_eq_some_map fun i hi => ?_
  rw [List.mem_range] at hi
  have hrange : (List.range sigs.length)[i]? = some i := by simp [hi]
  have hoffset := take_drop_flatMap (fun i => wordU (32 * sigs.length + 128 * i)) (w := 32)
    (fun _ => length_wordU _) (List.range sigs.length) hrange (sigs.flatMap signatureWords)
  rw [← offsetWords_eq] at hoffset
  have hword : natAt (offsetWords sigs.length ++ sigs.flatMap signatureWords) (32 * i) =
      some (32 * sigs.length + 128 * i) := by
    rw [natAt, wordAt, if_pos, mul_comm 32 i, hoffset, Option.map_some, beNat_wordU (by omega)]
    rw [List.length_append, length_offsetWords]
    omega
  have hblock : ((offsetWords sigs.length ++ sigs.flatMap signatureWords).drop
      (32 * sigs.length + 128 * i)).take 128 = signatureWords sigs[i] := by
    have hsig := take_drop_flatMap signatureWords (w := 128) length_signatureWords sigs
      (List.getElem?_eq_getElem hi) []
    have hlength := length_offsetWords sigs.length
    rw [← hlength, ← List.drop_drop, List.drop_left, mul_comm 128 i]
    rwa [List.append_nil] at hsig
  simp only [hword, Option.bind_eq_bind, Option.bind_some]
  rw [bytesAt_signatureWords hblock, List.getElem?_map, List.getElem?_eq_getElem hi]
  rfl

/-- The contract reads the arguments that were given. -/
lemma decodeArguments_encode (recipient : List.Vector UInt8 20) (amount : U128)
    (id : List.Vector UInt8 32) {sigs : List (List.Vector UInt8 65)}
    (hn : 160 * sigs.length < 2 ^ 128) :
    decodeArguments (wordAddr recipient ++ wordU amount ++ id.toList ++ wordU 0x80 ++
      wordU sigs.length ++ offsetWords sigs.length ++ sigs.flatMap signatureWords) =
        some (recipient.toList, amount.val, id.toList, sigs.map List.Vector.toList) := by
  have hid := id.toList_length
  generalize hrest : offsetWords sigs.length ++ sigs.flatMap signatureWords = block
  have hdata : wordAddr recipient ++ wordU amount ++ id.toList ++ wordU 0x80 ++ wordU sigs.length ++
      offsetWords sigs.length ++ sigs.flatMap signatureWords =
        wordAddr recipient ++ (wordU amount ++ (id.toList ++ (wordU 0x80 ++
          (wordU sigs.length ++ block)))) := by
    rw [← hrest]
    simp only [List.append_assoc]
  have hword := fun (pre w post : List UInt8) (off : ℕ) (hpre : pre.length = off)
    (hw : w.length = 32) =>
    hpre ▸ @wordAt_append pre w hw post
  have haccount := hword [] (wordAddr recipient) (wordU amount ++ (id.toList ++ (wordU 0x80 ++
    (wordU sigs.length ++ block)))) 0 rfl (length_wordAddr _)
  have hamount := hword (wordAddr recipient) (wordU amount) (id.toList ++ (wordU 0x80 ++
    (wordU sigs.length ++ block))) 32 (by simp) (length_wordU _)
  have hidword := hword (wordAddr recipient ++ wordU amount) id.toList (wordU 0x80 ++
    (wordU sigs.length ++ block)) 64 (by simp) hid
  have hbase := hword (wordAddr recipient ++ wordU amount ++ id.toList) (wordU 0x80)
    (wordU sigs.length ++ block) 96 (by simp [hid]) (length_wordU _)
  have hcount := hword (wordAddr recipient ++ wordU amount ++ id.toList ++ wordU 0x80)
    (wordU sigs.length) block 128 (by simp [hid]) (length_wordU _)
  have hblock : (wordAddr recipient ++ wordU amount ++ id.toList ++ wordU 0x80 ++
    wordU sigs.length ++
      block).drop 160 = block := List.drop_left' (by simp [hid])
  simp only [List.append_assoc, List.nil_append] at haccount hamount hidword hbase hcount hblock
  rw [hdata]
  generalize wordAddr recipient ++ (wordU amount ++ (id.toList ++ (wordU 0x80 ++
    (wordU sigs.length ++ block)))) = data at haccount hamount hidword hbase hcount hblock ⊢
  have hcountNat : natAt data 128 = some sigs.length := by
    rw [natAt, hcount, Option.map_some, beNat_wordU (by omega)]
  have hbaseNat : natAt data 96 = some 128 := by
    rw [natAt, hbase, Option.map_some, beNat_wordU (by norm_num)]
  have hamountNat : natAt data 32 = some amount.val := by
    rw [natAt, hamount, Option.map_some, beNat_wordU amount.isLt]
  have hzeros : (wordAddr recipient).take 12 = List.replicate 12 0 := List.take_left' (by simp)
  have haddr : (wordAddr recipient).drop 12 = recipient.toList := List.drop_left' (by simp)
  have hsigs := mapM_signatures hn
  rw [hrest] at hsigs
  simp only [Option.bind_eq_bind] at hsigs
  simp only [decodeArguments, haccount, hamountNat, hidword, hbaseNat, hcountNat, hblock, hsigs,
    hzeros, haddr, Option.bind_eq_bind, Option.bind_some, ne_eq, not_true_eq_false, if_false]

/-! ## Canonical encodings -/

/-- A byte string, a number, a list and a transaction are written in the form that the strict
decoder accepts and returns them from, and no other form is accepted; different transactions are
written differently, unsigned and signed; and the contract decodes the arguments of a call to those
given. -/
theorem eth_encodings_canonical (keccak256 : List UInt8 → List.Vector UInt8 32)
    (signTxHash : List.Vector UInt8 32 →
      Except String (UInt8 × List.Vector UInt8 32 × List.Vector UInt8 32)) :
    (∀ b : List UInt8, b.length < 2 ^ 64 → ∀ bs, decode bs = some (.bytes b) ↔ bs = rlpBytes b) ∧
    (∀ (n : U128) bs, decode bs = some (uintItem n) ↔ bs = rlpUint n) ∧
    (∀ (encoded : List (List UInt8)) (items : List Item),
      List.Forall₂ (fun e item => decode e = some item) encoded items →
        encoded.flatten.length < 2 ^ 64 →
        ∀ bs, decode bs = some (.list items) ↔ bs = rlpList encoded) ∧
    (∀ tx bs, decode bs = some (.list (txItems tx)) ↔ bs = rlpList (txBody tx)) ∧
    (∀ tx raw, signTx keccak256 signTxHash tx = .ok raw →
      ∃ y r s bs, signTxHash (keccak256 (0x02 :: rlpList (txBody tx))) = .ok (y, r, s) ∧
        raw = 0x02 :: bs ∧ decode bs = some (.list (txItems tx ++ signatureItems y r s))) ∧
    (∀ tx tx', rlpList (txBody tx) = rlpList (txBody tx') → tx = tx') ∧
    (∀ tx tx' raw, signTx keccak256 signTxHash tx = .ok raw →
      signTx keccak256 signTxHash tx' = .ok raw → tx = tx') ∧
    (∀ fnSig recipient amount id sigs,
      (encodeAttestedCall keccak256 fnSig recipient amount id sigs = none ↔
        isizeMax < 4 + 32 * 4 + sigs.length * 128) ∧
      ∀ out, encodeAttestedCall keccak256 fnSig recipient amount id sigs = some out →
        out.take 4 = (keccak256 fnSig).toList.take 4 ∧
          decodeArguments (out.drop 4) =
            some (recipient.toList, amount.val, id.toList, sigs.map List.Vector.toList)) := by
  have hsigned : ∀ tx raw, signTx keccak256 signTxHash tx = .ok raw →
      ∃ y r s bs, signTxHash (keccak256 (0x02 :: rlpList (txBody tx))) = .ok (y, r, s) ∧
        raw = 0x02 :: bs ∧ decode bs = some (.list (txItems tx ++ signatureItems y r s)) := by
    intro tx raw hraw
    obtain ⟨⟨y, r, s⟩, hsig, hout⟩ := Checked.bind_eq_ok.mp hraw
    exact ⟨y, r, s, _, hsig, (Except.ok.inj hout).symm, decode_signed tx y r s⟩
  refine ⟨fun b hb bs => ?_, fun n bs => ?_, fun encoded items hitems hlen bs => ?_,
    fun tx bs => ?_,
    hsigned, fun tx tx' h => ?_, fun tx tx' raw h h' => ?_,
      fun fnSig recipient amount id sigs => ⟨?_, ?_⟩⟩
  · rw [decode_eq_some_iff, rlpBytes_eq_encode hb, Fits]
    exact and_iff_right hb
  · rw [decode_eq_some_iff, rlpUint_eq_encode n.isLt, uintItem]
    exact and_iff_right (fits_uintItem (u128_lt n) (by norm_num))
  · have hencoded : encoded = items.map encode ∧ FitsAll items := by
      rw [fitsAll_iff]
      clear hlen
      induction hitems with
      | nil => exact ⟨rfl, by simp⟩
      | cons hitem _ ih =>
        obtain ⟨hfits, rfl⟩ := encode_eq_of_decode hitem
        exact ⟨by rw [List.map_cons, ← ih.1], List.forall_mem_cons.mpr ⟨hfits, ih.2⟩⟩
    obtain ⟨rfl, hfits⟩ := hencoded
    rw [flatten_map_encode] at hlen
    rw [decode_eq_some_iff, rlpList_eq_encode hlen, Fits]
    exact and_iff_right ⟨hfits, hlen⟩
  · have hself := encode_eq_of_decode (decode_txBody tx)
    rw [decode_eq_some_iff, ← hself.2]
    exact and_iff_right hself.1
  · have hitems := decode_txBody tx
    rw [h, decode_txBody tx', Option.some.injEq, Item.list.injEq] at hitems
    exact (txItems_injective hitems).symm
  · obtain ⟨y, r, s, bs, -, rfl, hbs⟩ := hsigned tx raw h
    obtain ⟨y', r', s', bs', -, hraw, hbs'⟩ := hsigned tx' _ h'
    obtain rfl := (List.cons.inj hraw).2
    rw [hbs, Option.some.injEq, Item.list.injEq] at hbs'
    exact txItems_injective (List.append_inj_left hbs' rfl)
  · unfold encodeAttestedCall
    split_ifs with halloc <;> simp [halloc]
  · intro out hout
    unfold encodeAttestedCall at hout
    split_ifs at hout with halloc
    have hn : 160 * sigs.length < 2 ^ 128 := by
      unfold isizeMax at halloc
      omega
    have hselector : ((keccak256 fnSig).toList.take 4).length = 4 := by
      rw [List.length_take, (keccak256 fnSig).toList_length]
      rfl
    obtain rfl := Option.some.inj hout
    simp only [List.append_assoc]
    rw [List.take_left' hselector, List.drop_left' hselector]
    refine ⟨rfl, ?_⟩
    have hdecode := decodeArguments_encode recipient amount id hn
    simpa only [List.append_assoc] using hdecode

namespace Concrete

/-- A checksum in the place of the digest. -/
def checksumWord (bytes : List UInt8) : List.Vector UInt8 32 := .replicate 32 bytes.sum

/-- The first scalar of the signatures. -/
def scalarR : List.Vector UInt8 32 := .replicate 32 0x11

/-- The second one, which begins with zeros. -/
def scalarS : List.Vector UInt8 32 := ⟨List.replicate 3 0 ++ List.replicate 29 0x22, rfl⟩

/-- A transaction with some data. -/
def tokenTx : Tx1559 where
  chainId := ⟨1, by norm_num⟩
  nonce := ⟨0, by norm_num⟩
  maxPriorityFee := ⟨1000000000, by norm_num⟩
  maxFee := ⟨30000000000, by norm_num⟩
  gas := ⟨21000, by norm_num⟩
  recipient := .replicate 20 0x35
  value := ⟨10 ^ 18, by norm_num⟩
  data := [0xa9, 0x05, 0x9c, 0xbb]
  allocated := by norm_num [isizeMax]

/-- The encoding of "dog"; a signed transaction, whose second scalar is written without its zeros;
and a call with two signatures. -/
theorem dog_encoded :
    decode [0x83, 0x64, 0x6f, 0x67] = some (.bytes [0x64, 0x6f, 0x67]) ∧
    (∃ bs, signTx checksumWord (fun _ => .ok (1, scalarR, scalarS)) tokenTx = .ok (0x02 :: bs) ∧
      decode bs = some (.list (txItems tokenTx ++ signatureItems 1 scalarR scalarS))) ∧
    ∃ out, encodeAttestedCall checksumWord [0x66] (.replicate 20 0x35) ⟨500, by norm_num⟩
        (.replicate 32 0x44) [.replicate 65 0x1b, .replicate 65 0x1c] = some out ∧
      decodeArguments (out.drop 4) = some (List.replicate 20 0x35, 500, List.replicate 32 0x44,
        [List.replicate 65 0x1b, List.replicate 65 0x1c]) := by
  obtain ⟨hbytes, -, -, -, hsigned, -, -, hcall⟩ :=
    eth_encodings_canonical checksumWord fun _ => .ok (1, scalarR, scalarS)
  refine ⟨(hbytes [0x64, 0x6f, 0x67] (by norm_num) _).mpr (by decide), ?_, ?_⟩
  · obtain ⟨y, r, s, bs, hsign, hraw, hdecode⟩ := hsigned tokenTx _ rfl
    cases hsign
    exact ⟨bs, congrArg Except.ok hraw, hdecode⟩
  · obtain ⟨hnone, hsome⟩ := hcall [0x66] (.replicate 20 0x35) ⟨500, by norm_num⟩
      (.replicate 32 0x44) [.replicate 65 0x1b, .replicate 65 0x1c]
    obtain ⟨out, hout⟩ := Option.ne_none_iff_exists'.mp fun h =>
      absurd (hnone.mp h) (by norm_num [isizeMax])
    exact ⟨out, hout, (hsome out hout).2⟩

end Concrete

end HashKinetics
