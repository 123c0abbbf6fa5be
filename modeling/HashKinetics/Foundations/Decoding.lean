import HashKinetics.Foundations.FixedWidth
import HashKinetics.Foundations.SelfDelimiting

/-!
# Decoders of byte formats

A decoder reads a value from the front of a list and returns what follows it.  It decodes an
encoding on a set of values when it reads back exactly these: each of them, whatever follows it, and
nothing else.  Decoders of records, of alternatives and of fields behind their length are put
together from those of their parts, and with a decoder an encoding is self-delimiting.
-/

namespace Foundations

variable {α β γ : Type*}

/-- A value read from the front of a list, with what follows it. -/
abbrev Decoder (α β : Type*) := List β → Option (α × List β)

namespace Decoder

/-- The first `n` elements. -/
def exact (n : ℕ) : Decoder (List β) β := fun b =>
  if n ≤ b.length then some (b.take n, b.drop n) else none

/-- Only the values with a property. -/
def restrict (Q : α → Prop) [DecidablePred Q] (dec : Decoder α β) : Decoder α β := fun b =>
  (dec b).filter fun p => Q p.1

/-- The values in another form. -/
def image (g : α → γ) (dec : Decoder α β) : Decoder γ β := fun b =>
  (dec b).map fun p => (g p.1, p.2)

/-- One value and then another; how the second is read may depend on the first. -/
def seq (dec : Decoder α β) (dec' : α → Decoder γ β) : Decoder (α × γ) β := fun b =>
  (dec b).bind fun p => (dec' p.1 p.2).map fun q => ((p.1, q.1), q.2)

/-- A value behind a fixed beginning. -/
def lit [DecidableEq β] (p : List β) (dec : Decoder α β) : Decoder α β := fun b =>
  if p <+: b then dec (b.drop p.length) else none

/-- One of two formats. -/
def orElse (dec dec' : Decoder α β) : Decoder α β := fun b => (dec b).or (dec' b)

end Decoder

/-- The decoder reads exactly the encodings of the values of `P`. -/
def Decodes (P : α → Prop) (enc : α → List β) (dec : Decoder α β) : Prop :=
  ∀ b a r, dec b = some (a, r) ↔ P a ∧ b = enc a ++ r

namespace Decodes

variable {P : α → Prop} {enc : α → List β} {dec : Decoder α β}

/-- The same decoder for another description of the values and of their encodings. -/
lemma congr {P' : α → Prop} {enc' : α → List β} (h : Decodes P enc dec) (hP : ∀ a, P a ↔ P' a)
    (henc : ∀ a, P a → enc a = enc' a) : Decodes P' enc' dec := by
  intro b a r
  rw [h b a r, ← hP a]
  refine and_congr_right fun ha => ?_
  rw [henc a ha]

lemma exact (n : ℕ) : Decodes (fun l : List β => l.length = n) id (Decoder.exact n) := by
  intro b a r
  simp only [Decoder.exact, id]
  constructor
  · intro h
    split at h
    next hn =>
      obtain ⟨rfl, rfl⟩ := Prod.mk.inj (Option.some.inj h)
      exact ⟨List.length_take_of_le hn, (List.take_append_drop n b).symm⟩
    next => cases h
  · rintro ⟨rfl, rfl⟩
    rw [if_pos (by simp), List.take_left, List.drop_left]

lemma restrict {Q : α → Prop} [DecidablePred Q] (h : Decodes P enc dec) :
    Decodes (fun a => P a ∧ Q a) enc (Decoder.restrict Q dec) := by
  intro b a r
  simp only [Decoder.restrict, Option.filter_eq_some_iff, h b a r, decide_eq_true_eq]
  tauto

/-- The values in another form, with the encoding that this form has. -/
lemma image (h : Decodes P enc dec) (g : α → γ) (enc' : γ → List β)
    (henc : ∀ a, P a → enc' (g a) = enc a) :
    Decodes (fun c => ∃ a, P a ∧ g a = c) enc' (Decoder.image g dec) := by
  intro b c r
  simp only [Decoder.image, Option.map_eq_some_iff, Prod.exists, Prod.mk.injEq]
  constructor
  · rintro ⟨a, r', hdec, rfl, rfl⟩
    obtain ⟨ha, rfl⟩ := (h b a r').mp hdec
    exact ⟨⟨a, ha, rfl⟩, by rw [henc a ha]⟩
  · rintro ⟨⟨a, ha, rfl⟩, rfl⟩
    exact ⟨a, r, (h _ a r).mpr ⟨ha, by rw [henc a ha]⟩, rfl, rfl⟩

lemma seq {Q : α → γ → Prop} {enc' : α → γ → List β} {dec' : α → Decoder γ β}
    (h : Decodes P enc dec) (h' : ∀ a, P a → Decodes (Q a) (enc' a) (dec' a)) :
    Decodes (fun p : α × γ => P p.1 ∧ Q p.1 p.2) (fun p => enc p.1 ++ enc' p.1 p.2)
      (Decoder.seq dec dec') := by
  rintro b ⟨a, c⟩ r
  simp only [Decoder.seq, Option.bind_eq_some_iff, Option.map_eq_some_iff, Prod.exists,
    Prod.mk.injEq]
  constructor
  · rintro ⟨a', r', hdec, c', r'', hdec', ⟨rfl, rfl⟩, rfl⟩
    obtain ⟨ha, rfl⟩ := (h b a' r').mp hdec
    obtain ⟨hc, rfl⟩ := (h' a' ha r' c' r'').mp hdec'
    exact ⟨⟨ha, hc⟩, (List.append_assoc _ _ _).symm⟩
  · rintro ⟨⟨ha, hc⟩, rfl⟩
    exact ⟨a, enc' a c ++ r, (h _ a _).mpr ⟨ha, List.append_assoc _ _ _⟩, c, r,
      (h' a ha _ c r).mpr ⟨hc, rfl⟩, ⟨rfl, rfl⟩, rfl⟩

/-- Two fields one after the other. -/
lemma append {Q : γ → Prop} {enc' : γ → List β} {dec' : Decoder γ β} (h : Decodes P enc dec)
    (h' : Decodes Q enc' dec') :
    Decodes (fun p : α × γ => P p.1 ∧ Q p.2) (fun p => enc p.1 ++ enc' p.2)
      (Decoder.seq dec fun _ => dec') :=
  h.seq fun _ _ => h'

lemma lit [DecidableEq β] (p : List β) (h : Decodes P enc dec) :
    Decodes P (fun a => p ++ enc a) (Decoder.lit p dec) := by
  intro b a r
  simp only [Decoder.lit]
  split
  next hp =>
    obtain ⟨t, rfl⟩ := hp
    rw [List.drop_left, h t a r, List.append_assoc, List.append_cancel_left_eq]
  next hp =>
    refine ⟨fun hnone => (by cases hnone), ?_⟩
    rintro ⟨-, rfl⟩
    exact absurd ⟨enc a ++ r, (List.append_assoc _ _ _).symm⟩ hp

/-- Two formats of which no list starts with both. -/
lemma orElse {Q : α → Prop} {dec' : Decoder α β} (h : Decodes P enc dec) (h' : Decodes Q enc dec')
    (hdisj : ∀ a c r r', P a → Q c → enc a ++ r ≠ enc c ++ r') :
    Decodes (fun a => P a ∨ Q a) enc (Decoder.orElse dec dec') := by
  intro b a r
  simp only [Decoder.orElse]
  cases hdec : dec b with
  | none =>
    rw [Option.none_or, h' b a r]
    refine ⟨fun hq => ⟨.inr hq.1, hq.2⟩, ?_⟩
    rintro ⟨hp | hq, rfl⟩
    · rw [(h _ a r).mpr ⟨hp, rfl⟩] at hdec
      cases hdec
    · exact ⟨hq, rfl⟩
  | some p =>
    obtain ⟨a', r'⟩ := p
    obtain ⟨hp', rfl⟩ := (h b a' r').mp hdec
    rw [Option.some_or, ← hdec, h _ a r]
    refine ⟨fun hp => ⟨.inl hp.1, hp.2⟩, ?_⟩
    rintro ⟨hp | hq, heq⟩
    · exact ⟨hp, heq⟩
    · exact absurd heq (hdisj a' a r' r hp' hq)

end Decodes

/-- The decoder reads the value back, whatever follows it. -/
def Reads (enc : α → List β) (dec : Decoder α β) (a : α) : Prop :=
  ∀ r, dec (enc a ++ r) = some (a, r)

namespace Reads

variable {enc : α → List β} {dec : Decoder α β} {a : α}

lemma of_decodes {P : α → Prop} (h : Decodes P enc dec) (ha : P a) : Reads enc dec a :=
  fun r => (h _ a r).mpr ⟨ha, rfl⟩

/-- Two fields one after the other. -/
lemma append {enc' : γ → List β} {dec' : Decoder γ β} {c : γ} (h : Reads enc dec a)
    (h' : Reads enc' dec' c) :
    Reads (fun p : α × γ => enc p.1 ++ enc' p.2) (Decoder.seq dec fun _ => dec') (a, c) := by
  intro r
  simp only [Decoder.seq, List.append_assoc, h (enc' c ++ r), Option.bind_some, h' r,
    Option.map_some]

/-- The value in another form. -/
lemma image {enc' : γ → List β} (h : Reads enc dec a) (g : α → γ) (henc : enc' (g a) = enc a) :
    Reads enc' (Decoder.image g dec) (g a) := by
  intro r
  rw [Decoder.image, henc, h r]
  rfl

end Reads

/-- Two beginnings of which neither is the start of the other. -/
lemma append_ne_append {p q : List β} (hpq : ¬ p <+: q) (hqp : ¬ q <+: p) (r r' : List β) :
    p ++ r ≠ q ++ r' := by
  intro heq
  rcases List.prefix_or_prefix_of_prefix (List.prefix_append p r)
    (heq ▸ List.prefix_append q r') with h | h
  · exact hpq h
  · exact hqp h

/-- A decoder of encodings that start with one of the given beginnings. -/
structure Format (ps : List (List β)) (P : α → Prop) (enc : α → List β) (dec : Decoder α β) :
    Prop where
  decodes : Decodes P enc dec
  starts : ∀ a, P a → ∃ p ∈ ps, p <+: enc a

namespace Format

variable {P Q : α → Prop} {enc : α → List β} {dec dec' : Decoder α β} {ps qs : List (List β)}

/-- The values of one kind, behind their beginning. -/
lemma tagged [DecidableEq β] {R : γ → Prop} {encR : γ → List β} {decR : Decoder γ β}
    (h : Decodes R encR decR) (p : List β) (g : γ → α) (enc : α → List β)
    (henc : ∀ c, R c → enc (g c) = p ++ encR c) :
    Format [p] (fun a => ∃ c, R c ∧ g c = a) enc (Decoder.image g (Decoder.lit p decR)) where
  decodes := (h.lit p).image g enc henc
  starts := by
    rintro _ ⟨c, hc, rfl⟩
    exact ⟨p, List.mem_singleton_self p, encR c, (henc c hc).symm⟩

/-- Formats with different beginnings. -/
lemma or (h : Format ps P enc dec) (h' : Format qs Q enc dec')
    (hne : ∀ p ∈ ps, ∀ q ∈ qs, ¬ p <+: q ∧ ¬ q <+: p) :
    Format (ps ++ qs) (fun a => P a ∨ Q a) enc (Decoder.orElse dec dec') where
  decodes := by
    refine h.decodes.orElse h'.decodes fun a c r r' ha hc => ?_
    obtain ⟨p, hp, x, hx⟩ := h.starts a ha
    obtain ⟨q, hq, y, hy⟩ := h'.starts c hc
    rw [← hx, ← hy, List.append_assoc, List.append_assoc]
    exact append_ne_append (hne p hp q hq).1 (hne p hp q hq).2 _ _
  starts := by
    rintro a (ha | ha)
    · obtain ⟨p, hp, hstart⟩ := h.starts a ha
      exact ⟨p, List.mem_append_left _ hp, hstart⟩
    · obtain ⟨q, hq, hstart⟩ := h'.starts a ha
      exact ⟨q, List.mem_append_right _ hq, hstart⟩

end Format

/-! ## Bytes -/

/-- The bytes of a byte array, read one after the other. -/
lemma toList_loop (bs : ByteArray) (i : ℕ) (acc : List UInt8) :
    ByteArray.toList.loop bs i acc = acc.reverse ++ bs.data.toList.drop i := by
  fun_induction ByteArray.toList.loop bs i acc with
  | case1 i acc hi ih =>
    have hi' : i < bs.data.toList.length := hi
    rw [ih, List.drop_eq_getElem_cons hi', List.reverse_cons, List.append_assoc]
    have hget : bs.get! i = bs.data.toList[i] := by
      change bs.data[i]! = _
      rw [Array.getElem_toList, getElem!_pos]
    rw [hget]
    rfl
  | case2 i acc hi =>
    have hi' : bs.data.toList.length ≤ i := not_lt.mp hi
    rw [List.drop_eq_nil_of_le hi', List.append_nil]

lemma toList_eq_data (bs : ByteArray) : bs.toList = bs.data.toList :=
  toList_loop bs 0 []

/-- Bytes that are the encoding of a string, as that string. -/
def ofUTF8 (bs : List UInt8) : String := (String.fromUTF8? ⟨bs.toArray⟩).getD ""

lemma toUTF8_ofUTF8 {bs : List UInt8} (h : ByteArray.IsValidUTF8 ⟨bs.toArray⟩) :
    (ofUTF8 bs).toUTF8.toList = bs := by
  rw [ofUTF8, String.fromUTF8?, dif_pos h, Option.getD_some, toList_eq_data]
  rfl

lemma ofUTF8_toUTF8 (s : String) :
    ByteArray.IsValidUTF8 ⟨s.toUTF8.toList.toArray⟩ ∧ ofUTF8 s.toUTF8.toList = s := by
  have hbytes : (⟨s.toUTF8.toList.toArray⟩ : ByteArray) = s.toByteArray := by
    rw [toList_eq_data]
    rfl
  have hvalid := s.isValidUTF8
  rw [← hbytes] at hvalid
  refine ⟨hvalid, String.toByteArray_inj.mp ?_⟩
  rw [ofUTF8, String.fromUTF8?, dif_pos hvalid, Option.getD_some]
  exact hbytes

/-- A number that fits the width, in little-endian bytes. -/
lemma decodes_leDigits (w : ℕ) :
    Decodes (fun n => n < 256 ^ w) (leDigits w) (Decoder.image ofLeDigits (Decoder.exact w)) := by
  have hspelled : ∀ bs : List UInt8, bs.length = w → leDigits w (ofLeDigits bs) = id bs := by
    rintro bs rfl
    exact leDigits_ofLeDigits bs
  refine ((Decodes.exact w).image ofLeDigits (leDigits w) hspelled).congr (fun n => ?_) fun _ _ =>
    rfl
  constructor
  · rintro ⟨bs, rfl, rfl⟩
    exact ofLeDigits_lt bs
  · intro hn
    exact ⟨leDigits w n, length_leDigits w n, ofLeDigits_leDigits hn⟩

end Foundations
