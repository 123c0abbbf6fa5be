import Mathlib

/-!
# Self-delimiting encodings

An encoding is self-delimiting on a set of values when, of any bytes that start with an encoding, it
can be read off which value was encoded and where its encoding ends.  Encodings of a fixed width
are, encodings of records are put together field by field, and lists are self-delimiting as soon as
their length is known: when it is written in front of them, or agreed on.
-/

namespace Foundations

variable {α β γ : Type*}

/-- The encoding of a value of `P` can be told from what follows it. -/
def SelfDelimiting (P : α → Prop) (enc : α → List β) : Prop :=
  ∀ ⦃a b : α⦄ ⦃r r' : List β⦄, P a → P b → enc a ++ r = enc b ++ r' → a = b ∧ r = r'

namespace SelfDelimiting

variable {P : α → Prop} {enc : α → List β}

/-- An injective encoding of a fixed width. -/
lemma of_length {n : ℕ} (hlen : ∀ a, P a → (enc a).length = n)
    (hinj : ∀ a b, P a → P b → enc a = enc b → a = b) : SelfDelimiting P enc := by
  intro a b r r' ha hb h
  obtain ⟨henc, hrest⟩ := List.append_inj h ((hlen a ha).trans (hlen b hb).symm)
  exact ⟨hinj a b ha hb henc, hrest⟩

/-- A body without the terminator, and the terminator. -/
lemma terminated {t : β} (hbody : ∀ a, P a → t ∉ enc a)
    (hinj : ∀ a b, P a → P b → enc a = enc b → a = b) :
    SelfDelimiting P fun a => enc a ++ [t] := by
  have hsplit : ∀ l l' r r' : List β, t ∉ l → t ∉ l' → l ++ [t] ++ r = l' ++ [t] ++ r' →
      l = l' ∧ r = r' := by
    intro l
    induction l with
    | nil =>
      intro l' r r' _ hl' h
      cases l' with
      | nil => exact ⟨rfl, by simpa using h⟩
      | cons x l' =>
        obtain ⟨rfl, -⟩ := List.cons.inj h
        simp at hl'
    | cons x l ih =>
      intro l' r r' hl hl' h
      cases l' with
      | nil =>
        obtain ⟨rfl, -⟩ := List.cons.inj h
        simp at hl
      | cons y l' =>
        obtain ⟨rfl, htail⟩ := List.cons.inj h
        obtain ⟨rfl, rfl⟩ := ih l' r r' (fun hm => hl (by simp [hm])) (fun hm => hl' (by simp [hm]))
          htail
        exact ⟨rfl, rfl⟩
  intro a b r r' ha hb h
  obtain ⟨henc, hrest⟩ := hsplit _ _ _ _ (hbody a ha) (hbody b hb) h
  exact ⟨hinj a b ha hb henc, hrest⟩

/-- Two fields one after the other. -/
lemma append {Q : γ → Prop} {enc' : γ → List β} (h : SelfDelimiting P enc)
    (h' : SelfDelimiting Q enc') :
    SelfDelimiting (fun p : α × γ => P p.1 ∧ Q p.2) fun p => enc p.1 ++ enc' p.2 := by
  rintro ⟨a, c⟩ ⟨b, d⟩ r r' ⟨ha, hc⟩ ⟨hb, hd⟩ heq
  rw [List.append_assoc, List.append_assoc] at heq
  obtain ⟨rfl, heq⟩ := h ha hb heq
  obtain ⟨rfl, rfl⟩ := h' hc hd heq
  exact ⟨rfl, rfl⟩

/-- An encoding through another form of the values. -/
lemma comap {Q : γ → Prop} {f : γ → α} (h : SelfDelimiting P enc) (hP : ∀ c, Q c → P (f c))
    (hf : ∀ c d, Q c → Q d → f c = f d → c = d) : SelfDelimiting Q fun c => enc (f c) := by
  intro c d r r' hc hd heq
  obtain ⟨hfc, hrest⟩ := h (hP c hc) (hP d hd) heq
  exact ⟨hf c d hc hd hfc, hrest⟩

/-- Lists of one length. -/
lemma flatMap (h : SelfDelimiting P enc) {l l' : List α} {r r' : List β} (hl : ∀ a ∈ l, P a)
    (hl' : ∀ a ∈ l', P a) (hlen : l.length = l'.length)
    (heq : l.flatMap enc ++ r = l'.flatMap enc ++ r') : l = l' ∧ r = r' := by
  induction l generalizing l' with
  | nil =>
    obtain rfl := List.eq_nil_of_length_eq_zero hlen.symm
    exact ⟨rfl, by simpa using heq⟩
  | cons a l ih =>
    cases l' with
    | nil => cases hlen
    | cons b l' =>
      rw [List.flatMap_cons, List.flatMap_cons, List.append_assoc, List.append_assoc] at heq
      obtain ⟨rfl, htail⟩ := h (hl a (by simp)) (hl' b (by simp)) heq
      obtain ⟨rfl, rfl⟩ := ih (fun a ha => hl a (by simp [ha])) (fun a ha => hl' a (by simp [ha]))
        (Nat.succ.inj hlen) htail
      exact ⟨rfl, rfl⟩

/-- Lists with their length in front. -/
lemma counted {Q : ℕ → Prop} {encLen : ℕ → List β} (hcount : SelfDelimiting Q encLen)
    (h : SelfDelimiting P enc) :
    SelfDelimiting (fun l : List α => Q l.length ∧ ∀ a ∈ l, P a)
      fun l => encLen l.length ++ l.flatMap enc := by
  intro l l' r r' hl hl' heq
  rw [List.append_assoc, List.append_assoc] at heq
  obtain ⟨hlen, heq⟩ := hcount hl.1 hl'.1 heq
  exact h.flatMap hl.2 hl'.2 hlen heq

/-- A tagged section does not start with another tag. -/
lemma head_tagged_ne {c : Prop} [Decidable c] {t u : β} {x r : List β} (htu : t ≠ u)
    (hr : r.head? ≠ some u) : ((if c then t :: x else []) ++ r).head? ≠ some u := by
  split_ifs
  · simpa using htu
  · simpa using hr

/-- A section that is present or not, marked by a tag that nothing after it starts with. -/
lemma tagged {c c' : Prop} [Decidable c] [Decidable c'] {t : β} {x x' r r' : List β}
    (hr : r.head? ≠ some t) (hr' : r'.head? ≠ some t)
    (heq : (if c then t :: x else []) ++ r = (if c' then t :: x' else []) ++ r') :
    (c ↔ c') ∧ (c → x ++ r = x' ++ r') ∧ (¬ c → r = r') := by
  split_ifs at heq with h h' h'
  · exact ⟨by simp [h, h'], fun _ => List.tail_eq_of_cons_eq heq, fun hn => absurd h hn⟩
  · rw [List.nil_append] at heq
    rw [← heq] at hr'
    exact absurd rfl hr'
  · rw [List.nil_append] at heq
    rw [heq] at hr
    exact absurd rfl hr
  · exact ⟨by simp [h, h'], fun hc => absurd hc h, fun _ => heq⟩

end SelfDelimiting

end Foundations
