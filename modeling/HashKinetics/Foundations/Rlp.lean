import HashKinetics.Foundations.BigEndian

/-!
# The recursive length prefix

An item is a byte string or a list of items.  It is written as its payload behind a prefix that
tells the two apart and gives the length of the payload, in the first byte if it is short and in
minimal big-endian bytes behind the first one if it is long; a single byte below 128 is written as
itself.  The decoder accepts no other form, so that accepting and having been written are the same
thing.
-/

namespace Foundations.Rlp

/-- What an encoding is of. -/
inductive Item where
  | bytes (bs : List UInt8)
  | list (items : List Item)

/-- The prefix of a payload; the offset is 128 for byte strings and 192 for lists. -/
def header (offset len : ℕ) : List UInt8 :=
  if len < 56 then [UInt8.ofNat (offset + len)]
  else UInt8.ofNat (offset + 55 + (minimalBe len).length) :: minimalBe len

/-- A single byte that needs no prefix. -/
def IsPlain (bs : List UInt8) : Prop := bs.length = 1 ∧ ∀ b ∈ bs, b.toNat < 128

instance (bs : List UInt8) : Decidable (IsPlain bs) := inferInstanceAs (Decidable (_ ∧ _))

def encodeBytes (bs : List UInt8) : List UInt8 := if IsPlain bs then bs else header 128 bs.length ++
    bs

mutual

/-- The canonical encoding. -/
def encode : Item → List UInt8
  | .bytes bs => encodeBytes bs
  | .list items => header 192 (encodeAll items).length ++ encodeAll items

/-- The encodings of several items, one behind the other. -/
def encodeAll : List Item → List UInt8
  | [] => []
  | item :: items => encode item ++ encodeAll items

end

mutual

/-- Every length is a 64-bit number. -/
def Fits : Item → Prop
  | .bytes bs => bs.length < 2 ^ 64
  | .list items => FitsAll items ∧ (encodeAll items).length < 2 ^ 64

def FitsAll : List Item → Prop
  | [] => True
  | item :: items => Fits item ∧ FitsAll items

end

/-! ## Decoding -/

/-- A payload of the given length and what follows it. -/
def splitPayload (len : ℕ) (bs : List UInt8) : Option (List UInt8 × List UInt8) :=
  if len ≤ bs.length then some (bs.take len, bs.drop len) else none

/-- A length that was written in `n` bytes: without leading zeros, and only if it does not fit the
first byte. -/
def readLength (n : ℕ) (bs : List UInt8) : Option ℕ :=
  if n ≤ bs.length ∧ (bs.take n).head? ≠ some 0 ∧ 56 ≤
    beNat (bs.take n) then some (beNat (bs.take n))
  else none

/-- The payload behind a first byte, and what follows it. -/
def payloadAt (offset first : ℕ) (bs : List UInt8) : Option (List UInt8 × List UInt8) :=
  if first - offset < 56 then splitPayload (first - offset) bs
  else do
    let len ← readLength (first - offset - 55) bs
    splitPayload len (bs.drop (first - offset - 55))

/-- The payload of the item in front, whether it is that of a list, and what follows the item. -/
def splitItem : List UInt8 → Option (Bool × List UInt8 × List UInt8)
  | [] => none
  | b :: bs =>
    if b.toNat < 128 then some (false, [b], bs)
    else if b.toNat < 192 then do
      let (payload, rest) ← payloadAt 128 b.toNat bs
      if IsPlain payload then none else some (false, payload, rest)
    else do
      let (payload, rest) ← payloadAt 192 b.toNat bs
      some (true, payload, rest)

mutual

/-- The item in front and what follows it. -/
def decodeItem : ℕ → List UInt8 → Option (Item × List UInt8)
  | 0, _ => none
  | fuel + 1, bs => do
    let (isList, payload, rest) ← splitItem bs
    if isList then do
      let items ← decodeItems fuel payload
      some (.list items, rest)
    else some (.bytes payload, rest)

/-- The items that the bytes are made up of. -/
def decodeItems : ℕ → List UInt8 → Option (List Item)
  | 0, _ => none
  | _ + 1, [] => some []
  | fuel + 1, b :: bs => do
    let (item, rest) ← decodeItem fuel (b :: bs)
    let items ← decodeItems fuel rest
    some (item :: items)

end

/-- The item that the bytes are the encoding of, with nothing left over. -/
def decode (bs : List UInt8) : Option Item :=
  match decodeItem (2 * bs.length) bs with
  | some (item, []) => some item
  | _ => none

/-! ## The prefix -/

lemma header_eq_cons (offset len : ℕ) : ∃ first tail, header offset len = first :: tail := by
  unfold header
  split_ifs
  · exact ⟨_, _, rfl⟩
  · exact ⟨_, _, rfl⟩

lemma splitPayload_append (payload rest : List UInt8) :
    splitPayload payload.length (payload ++ rest) = some (payload, rest) := by
  rw [splitPayload, if_pos (by simp), List.take_left, List.drop_left]

lemma splitPayload_eq_some {len : ℕ} {bs payload rest : List UInt8}
    (h : splitPayload len bs = some (payload, rest)) : bs = payload ++ rest ∧
      payload.length = len := by
  unfold splitPayload at h
  split_ifs at h with hlen
  obtain ⟨rfl, rfl⟩ := Prod.mk.inj (Option.some.inj h)
  exact ⟨(List.take_append_drop len bs).symm, by rw [List.length_take, min_eq_left hlen]⟩

/-- A length of 64 bits takes at most eight bytes. -/
lemma length_minimalBe_bounds {len : ℕ} (hlong : 56 ≤ len) (hlen : len < 2 ^ 64) :
    1 ≤ (minimalBe len).length ∧ (minimalBe len).length ≤ 8 := by
  refine ⟨List.length_pos_iff.mpr (minimalBe_ne_nil (by omega)), length_minimalBe_le ?_⟩
  exact hlen.trans_eq (by norm_num)

lemma readLength_minimalBe {len : ℕ} (hlong : 56 ≤ len) (bs : List UInt8) :
    readLength (minimalBe len).length (minimalBe len ++ bs) = some len := by
  have htake : (minimalBe len ++ bs).take (minimalBe len).length = minimalBe len := List.take_left
  rw [readLength, htake, beNat_minimalBe, if_pos]
  exact ⟨by simp, head_minimalBe len, hlong⟩

/-- The payload is found behind its prefix. -/
lemma payloadAt_header {offset : ℕ} (hoffset : offset + 64 ≤ 256) {payload : List UInt8}
    (hlen : payload.length < 2 ^ 64) (rest : List UInt8) {first : UInt8} {tail : List UInt8}
    (hheader : header offset payload.length = first :: tail) :
    (offset ≤ first.toNat ∧ first.toNat < offset + 64) ∧
      payloadAt offset first.toNat (tail ++ (payload ++ rest)) = some (payload, rest) := by
  unfold header at hheader
  split_ifs at hheader with hshort
  · obtain ⟨rfl, rfl⟩ := List.cons.inj hheader
    have hfirst : (UInt8.ofNat (offset + payload.length)).toNat = offset + payload.length :=
      UInt8.toNat_ofNat_of_lt' (by change _ < 256; omega)
    rw [hfirst]
    refine ⟨by omega, ?_⟩
    rw [payloadAt, if_pos (by omega), Nat.add_sub_cancel_left, List.nil_append]
    exact splitPayload_append payload rest
  · obtain ⟨rfl, rfl⟩ := List.cons.inj hheader
    obtain ⟨hpos, hle⟩ := length_minimalBe_bounds (not_lt.mp hshort) hlen
    have hfirst : (UInt8.ofNat (offset + 55 + (minimalBe payload.length).length)).toNat =
        offset + 55 + (minimalBe payload.length).length :=
      UInt8.toNat_ofNat_of_lt' (by change _ < 256; omega)
    have hwidth : offset + 55 + (minimalBe payload.length).length - offset - 55 =
        (minimalBe payload.length).length := by omega
    rw [hfirst]
    refine ⟨by omega, ?_⟩
    rw [payloadAt, if_neg (by omega), hwidth, readLength_minimalBe (not_lt.mp hshort),
      List.drop_left]
    exact splitPayload_append payload rest

/-- A payload that is found has the one prefix that announces it. -/
lemma header_of_payloadAt {offset : ℕ} {first : UInt8} {bs payload rest : List UInt8}
    (hlo : offset ≤ first.toNat) (hhi : first.toNat < offset + 64)
    (h : payloadAt offset first.toNat bs = some (payload, rest)) :
    first :: bs = header offset payload.length ++ payload ++ rest ∧ payload.length < 2 ^ 64 := by
  unfold payloadAt at h
  split_ifs at h with hshort
  · obtain ⟨rfl, hlen⟩ := splitPayload_eq_some h
    have hfirst : offset + payload.length = first.toNat := by omega
    refine ⟨?_, by omega⟩
    rw [header, if_pos (by omega), hfirst, UInt8.ofNat_toNat]
    simp
  · obtain ⟨len, hread, hsplit⟩ := Option.bind_eq_some_iff.mp h
    obtain ⟨hdrop, rfl⟩ := splitPayload_eq_some hsplit
    unfold readLength at hread
    split_ifs at hread with hcond
    obtain ⟨hwidth, hhead, hlong⟩ := hcond
    rw [Option.some.injEq] at hread
    rw [hread] at hlong
    have hminimal : minimalBe payload.length = bs.take (first.toNat - offset - 55) := by
      rw [← hread, minimalBe_beNat hhead]
    have hlength : (minimalBe payload.length).length = first.toNat - offset - 55 := by
      rw [hminimal, List.length_take, min_eq_left hwidth]
    have hfirst : offset + 55 + (first.toNat - offset - 55) = first.toNat := by omega
    have hbound : payload.length < 256 ^ 8 := by
      refine (hread ▸ beNat_lt _).trans_le (Nat.pow_le_pow_right (by norm_num) ?_)
      rw [List.length_take]
      omega
    refine ⟨?_, hbound.trans_eq (by norm_num)⟩
    rw [header, if_neg (by omega), hlength, hfirst, UInt8.ofNat_toNat, hminimal, List.cons_append,
      List.cons_append, List.append_assoc, ← hdrop, List.take_append_drop]

/-! ## One item -/

lemma splitItem_encodeBytes {bs : List UInt8} (hlen : bs.length < 2 ^ 64) (rest : List UInt8) :
    splitItem (encodeBytes bs ++ rest) = some (false, bs, rest) := by
  unfold encodeBytes
  split_ifs with hplain
  · obtain ⟨b, rfl⟩ := List.length_eq_one_iff.mp hplain.1
    have hb : b.toNat < 128 := hplain.2 b List.mem_cons_self
    rw [List.singleton_append, splitItem, if_pos hb]
  · obtain ⟨first, tail, hheader⟩ := header_eq_cons 128 bs.length
    obtain ⟨⟨hlo, hhi⟩, hpayload⟩ := payloadAt_header (by norm_num) hlen rest hheader
    rw [hheader, List.append_assoc, List.cons_append, splitItem, if_neg (by omega),
      if_pos (by omega), hpayload]
    exact if_neg hplain

lemma splitItem_encodeList {payload : List UInt8} (hlen : payload.length < 2 ^ 64)
    (rest : List UInt8) :
    splitItem (header 192 payload.length ++ payload ++ rest) = some (true, payload, rest) := by
  obtain ⟨first, tail, hheader⟩ := header_eq_cons 192 payload.length
  obtain ⟨⟨hlo, hhi⟩, hpayload⟩ := payloadAt_header (by norm_num) hlen rest hheader
  rw [hheader, List.append_assoc, List.cons_append, splitItem, if_neg (by omega), if_neg (by omega),
    hpayload]
  rfl

/-- What is split off was written with the one form that its payload has. -/
lemma splitItem_eq_some {bs payload rest : List UInt8} {isList : Bool}
    (h : splitItem bs = some (isList, payload, rest)) :
    payload.length < 2 ^ 64 ∧
      bs = (if isList then header 192 payload.length ++ payload else encodeBytes payload) ++
        rest := by
  cases bs with
  | nil => cases h
  | cons b bs =>
    have hb : b.toNat < 256 := UInt8.toNat_lt b
    rw [splitItem] at h
    split_ifs at h with hplain hbytes
    · obtain ⟨rfl, hpair⟩ := Prod.mk.inj (Option.some.inj h)
      obtain ⟨rfl, rfl⟩ := Prod.mk.inj hpair
      have hself : IsPlain [b] := ⟨rfl, fun c hc => by rwa [List.mem_singleton.mp hc]⟩
      exact ⟨by norm_num, by simp [encodeBytes, hself]⟩
    · obtain ⟨⟨p, r⟩, hpayload, hsome⟩ := Option.bind_eq_some_iff.mp h
      obtain ⟨hbs, hlen⟩ := header_of_payloadAt (by omega) (by omega) hpayload
      simp only at hsome
      split_ifs at hsome with hself
      obtain ⟨rfl, hpair⟩ := Prod.mk.inj (Option.some.inj hsome)
      obtain ⟨rfl, rfl⟩ := Prod.mk.inj hpair
      exact ⟨hlen, by simp [encodeBytes, hself, hbs]⟩
    · obtain ⟨⟨p, r⟩, hpayload, hsome⟩ := Option.bind_eq_some_iff.mp h
      obtain ⟨hbs, hlen⟩ := header_of_payloadAt (by omega) (by omega) hpayload
      obtain ⟨rfl, hpair⟩ := Prod.mk.inj (Option.some.inj hsome)
      obtain ⟨rfl, rfl⟩ := Prod.mk.inj hpair
      exact ⟨hlen, hbs⟩

lemma length_encode_pos (item : Item) : 1 ≤ (encode item).length := by
  cases item with
  | bytes bs =>
    rw [encode, encodeBytes]
    split_ifs with hplain
    · exact hplain.1.ge
    · obtain ⟨first, tail, hheader⟩ := header_eq_cons 128 bs.length
      rw [hheader, List.cons_append, List.length_cons]
      omega
  | list items =>
    obtain ⟨first, tail, hheader⟩ := header_eq_cons 192 (encodeAll items).length
    rw [encode, hheader, List.cons_append, List.length_cons]
    omega

/-! ## Whole encodings -/

/-- Two steps a byte are enough to decode an encoding, whatever follows it. -/
lemma decode_of_fuel (fuel : ℕ) :
    (∀ item rest, Fits item → 2 * (encode item).length ≤ fuel →
      decodeItem fuel (encode item ++ rest) = some (item, rest)) ∧
    (∀ items, FitsAll items → 2 * (encodeAll items).length + 1 ≤ fuel →
      decodeItems fuel (encodeAll items) = some items) := by
  induction fuel with
  | zero =>
    refine ⟨fun item rest _ hfuel => ?_, fun items _ hfuel => absurd hfuel (by omega)⟩
    have hpos := length_encode_pos item
    omega
  | succ fuel ih =>
    constructor
    · intro item rest hfits hfuel
      cases item with
      | bytes bs =>
        rw [Fits] at hfits
        rw [encode, decodeItem, splitItem_encodeBytes hfits]
        rfl
      | list items =>
        rw [Fits] at hfits
        obtain ⟨first, tail, hheader⟩ := header_eq_cons 192 (encodeAll items).length
        have hlength : (encode (.list items)).length = tail.length + 1 +
          (encodeAll items).length := by
          rw [encode, List.length_append, hheader, List.length_cons]
        have hitems := ih.2 items hfits.1 (by omega)
        rw [encode, decodeItem, splitItem_encodeList hfits.2]
        simp only [Option.bind_eq_bind, Option.bind_some, if_true, hitems]
    · intro items hfits hfuel
      cases items with
      | nil => rfl
      | cons item items =>
        rw [FitsAll] at hfits
        have hpos := length_encode_pos item
        rw [encodeAll, List.length_append] at hfuel
        have hitem := ih.1 item (encodeAll items) hfits.1 (by omega)
        have hitems := ih.2 items hfits.2 (by omega)
        obtain ⟨b, bs, hcons⟩ := List.exists_cons_of_ne_nil (List.length_pos_iff.mp hpos)
        rw [hcons, List.cons_append] at hitem
        rw [encodeAll, hcons, List.cons_append, decodeItems, hitem]
        simp only [Option.bind_eq_bind, Option.bind_some, hitems]

/-- What is decoded was written in the canonical form. -/
lemma encode_of_decode (fuel : ℕ) :
    (∀ bs item rest, decodeItem fuel bs = some (item, rest) → Fits item ∧
      bs = encode item ++ rest) ∧
    (∀ bs items, decodeItems fuel bs = some items → FitsAll items ∧ bs = encodeAll items) := by
  induction fuel with
  | zero =>
    constructor
    · intro bs item rest h
      cases h
    · intro bs items h
      cases h
  | succ fuel ih =>
    constructor
    · intro bs item rest h
      rw [decodeItem] at h
      obtain ⟨⟨isList, payload, r⟩, hsplit, hread⟩ := Option.bind_eq_some_iff.mp h
      obtain ⟨hlen, hbs⟩ := splitItem_eq_some hsplit
      cases isList with
      | false =>
        obtain ⟨rfl, rfl⟩ := Prod.mk.inj (Option.some.inj hread)
        exact ⟨by rwa [Fits], by rw [encode, hbs]; rfl⟩
      | true =>
        obtain ⟨items, hitems, hsome⟩ := Option.bind_eq_some_iff.mp hread
        obtain ⟨rfl, rfl⟩ := Prod.mk.inj (Option.some.inj hsome)
        obtain ⟨hfits, rfl⟩ := ih.2 payload items hitems
        exact ⟨by rw [Fits]; exact ⟨hfits, hlen⟩, by rw [encode, hbs]; rfl⟩
    · intro bs items h
      cases bs with
      | nil =>
        obtain rfl := Option.some.inj h
        exact ⟨by rw [FitsAll]; trivial, by rw [encodeAll]⟩
      | cons b bs =>
        rw [decodeItems] at h
        obtain ⟨⟨item, rest⟩, hitem, h⟩ := Option.bind_eq_some_iff.mp h
        obtain ⟨items', hitems, hsome⟩ := Option.bind_eq_some_iff.mp h
        obtain rfl := Option.some.inj hsome
        obtain ⟨hfits, hbs⟩ := ih.1 (b :: bs) item rest hitem
        obtain ⟨hfitsAll, rfl⟩ := ih.2 rest items' hitems
        exact ⟨by rw [FitsAll]; exact ⟨hfits, hfitsAll⟩, by rw [encodeAll, hbs]⟩

/-- The decoder returns the item of an encoding. -/
lemma decode_encode_of_fits {item : Item} (h : Fits item) : decode (encode item) = some item := by
  have hitem := (decode_of_fuel (2 * (encode item).length)).1 item [] h le_rfl
  rw [List.append_nil] at hitem
  rw [decode, hitem]

/-- The decoder accepts nothing else. -/
lemma encode_eq_of_decode {bs : List UInt8} {item : Item} (h : decode bs = some item) :
    Fits item ∧ bs = encode item := by
  unfold decode at h
  split at h
  · next decoded hdecode =>
    obtain rfl := Option.some.inj h
    obtain ⟨hfits, hbs⟩ := (encode_of_decode _).1 bs decoded [] hdecode
    exact ⟨hfits, by rw [hbs, List.append_nil]⟩
  · cases h

/-- An accepted encoding is the only one of its item. -/
lemma decode_eq_some_iff {bs : List UInt8} {item : Item} :
    decode bs = some item ↔ Fits item ∧ bs = encode item := by
  constructor
  · exact encode_eq_of_decode
  · rintro ⟨hfits, rfl⟩
    exact decode_encode_of_fits hfits

end Foundations.Rlp
