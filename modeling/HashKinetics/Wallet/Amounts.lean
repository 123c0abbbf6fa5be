import HashKinetics.Primitives
import HashKinetics.Foundations.Text

/-!
# Amounts as texts

A user types an amount as a decimal number, with at most as many digits behind the point as the
asset has decimals, and the wallet turns it into base units by integer arithmetic alone.  Both parts
of the number are read separately, the fraction padded with zeros, and every step is checked against
128 bits.  The interface the app calls then narrows the result to 64 bits by capping it, so a number
between the two widths becomes another amount.
-/

namespace HashKinetics

open Foundations

/-! ## The functions of the account module -/

/-- The number a digit string spells, if it has 128 bits. -/
def parseU128 (s : List Char) : Option ℕ :=
  if Nat.ofDigitChars 10 s 0 ≤ u128Max then some (Nat.ofDigitChars 10 s 0) else none

/-- One part of a number, zero if it is left out. -/
def readPart (s : List Char) : Option ℕ := if s.isEmpty then some 0 else parseU128 s

/-- A decimal number with at most `d` digits behind the point, in units of which `scale` are a whole
one. -/
def parseScaled (s : List Char) (d scale : ℕ) : Option ℕ :=
  let s := trimStartMatches '$' (Foundations.trim s)
  let (int, frac) := (splitOnce '.' s).getD (s, [])
  if int.isEmpty && frac.isEmpty then none
  else if !int.all Char.isDigit || !frac.all Char.isDigit || d < frac.length then none
  else do
    let int ← readPart int
    let frac ← readPart (frac.rightpad d '0')
    checkedAdd u128Max (← checkedMul u128Max int scale) frac

/-- "0.25", "1" or ".5" in micro-units, with at most six decimals. -/
def parseAmount (s : List Char) : Option ℕ := parseScaled s 6 1000000

/-- The same for an asset with the given decimals. -/
def parseAmountDec (s : List Char) (decimals : ℕ) : Option ℕ :=
  parseScaled s (min decimals 18) (10 ^ min decimals 18)

/-- Whole units, a point, and the remainder in the given number of digits. -/
def fmtScaled (base d scale : ℕ) : List Char :=
  Nat.toDigits 10 (base / scale) ++ '.' :: (Nat.toDigits 10 (base % scale)).leftpad d '0'

def fmtAmount (micro : ℕ) : List Char := fmtScaled micro 6 1000000

def fmtAmountDec (base decimals : ℕ) : List Char :=
  if min decimals 18 = 0 then Nat.toDigits 10 base
  else fmtScaled base (min decimals 18) (10 ^ min decimals 18)

/-! ## The interface of the app -/

namespace Wallet

/-- The nearest 64-bit amount. -/
def clampU64 (a : ℕ) : ℕ := min a u64Max

def parseAmountDec (text : List Char) (decimals : ℕ) : Option ℕ :=
  (HashKinetics.parseAmountDec text decimals).map clampU64

def formatAmountDec (base decimals : ℕ) : List Char := fmtAmountDec base decimals

def parseAmount (text : List Char) : Option ℕ := (HashKinetics.parseAmount text).map clampU64

def formatAmount (micro : ℕ) : List Char := fmtAmount micro

end Wallet

/-! ## Decimal numbers -/

/-- A decimal numeral: the digits before and behind the point. -/
structure Numeral where
  int : List Char
  frac : List Char
  digits : ∀ c ∈ int ++ frac, c.isDigit = true
  nonempty : int ++ frac ≠ []

namespace Numeral

/-- The number that a numeral denotes. -/
def value (n : Numeral) : ℚ :=
  Nat.ofDigitChars 10 n.int 0 + Nat.ofDigitChars 10 n.frac 0 / 10 ^ n.frac.length

/-- The text writes the numeral; the point may be left out if nothing follows it. -/
def Written (n : Numeral) (s : List Char) : Prop :=
  s = n.int ++ '.' :: n.frac ∨ n.frac = [] ∧ s = n.int

/-- The number in units of which `10 ^ d` are a whole one. -/
def units (n : Numeral) (d : ℕ) : ℕ :=
  Nat.ofDigitChars 10 n.int 0 * 10 ^ d +
    Nat.ofDigitChars 10 n.frac 0 * 10 ^ (d - n.frac.length)

lemma value_mul_pow {n : Numeral} {d : ℕ} (h : n.frac.length ≤ d) :
    n.value * 10 ^ d = (n.units d : ℚ) := by
  have hpow : (10 : ℚ) ^ d = 10 ^ n.frac.length * 10 ^ (d - n.frac.length) := by
    rw [← pow_add, Nat.add_sub_cancel' h]
  have hne : (10 : ℚ) ^ n.frac.length ≠ 0 := by positivity
  unfold value units
  push_cast
  rw [add_mul]
  congr 1
  rw [hpow, ← mul_assoc, div_mul_cancel₀ _ hne]

end Numeral

/-- The parts of the text that the parser reads. -/
lemma Numeral.Written.split {n : Numeral} {s : List Char} (h : n.Written s) :
    (splitOnce '.' s).getD (s, []) = (n.int, n.frac) := by
  have hpoint : '.' ∉ n.int := fun hmem => by
    have hdigit := n.digits '.' (List.mem_append_left _ hmem)
    exact absurd hdigit (by decide)
  rcases h with rfl | ⟨hfrac, rfl⟩
  · rw [splitOnce_append hpoint, Option.getD_some]
  · rw [splitOnce_eq_none.mpr hpoint, Option.getD_none, hfrac]

lemma written_of_split {s a b : List Char} (h : (splitOnce '.' s).getD (s, []) = (a, b)) :
    s = a ++ '.' :: b ∨ b = [] ∧ s = a := by
  cases hsplit : splitOnce '.' s with
  | none =>
    rw [hsplit, Option.getD_none, Prod.mk.injEq] at h
    exact .inr ⟨h.2.symm, h.1⟩
  | some p =>
    rw [hsplit, Option.getD_some] at h
    rw [h] at hsplit
    exact .inl (eq_append_of_splitOnce hsplit)

/-- A text writes at most one numeral. -/
lemma Numeral.Written.inj {n m : Numeral} {s : List Char} (hn : n.Written s) (hm : m.Written s) :
    n = m := by
  have h := hn.split.symm.trans hm.split
  obtain ⟨hint, hfrac⟩ := Prod.mk.inj h
  cases n
  cases m
  simp only at hint hfrac
  subst hint hfrac
  rfl

/-! ## What is read -/

/-- What the parsers leave out of a text: the blanks around it, then the dollar signs in front. -/
def bare (s : List Char) : List Char := trimStartMatches '$' (Foundations.trim s)

/-- An empty part is read as zero, which is also what its digits spell. -/
lemma readPart_eq_some {s : List Char} {v : ℕ} :
    readPart s = some v ↔ v = Nat.ofDigitChars 10 s 0 ∧ v ≤ u128Max := by
  have hparse : parseU128 s = some v ↔ v = Nat.ofDigitChars 10 s 0 ∧ v ≤ u128Max := by
    unfold parseU128
    split_ifs with h
    · rw [Option.some.injEq]
      constructor
      · rintro rfl
        exact ⟨rfl, h⟩
      · exact fun hv => hv.1.symm
    · apply iff_of_false (by simp)
      rintro ⟨rfl, hv⟩
      exact h hv
  unfold readPart
  split_ifs with hempty
  · rw [List.isEmpty_iff.mp hempty, Nat.ofDigitChars_nil, Option.some.injEq]
    constructor
    · rintro rfl
      exact ⟨rfl, Nat.zero_le _⟩
    · exact fun hv => hv.1.symm
  · exact hparse

/-- The digits of a fraction, padded with zeros. -/
lemma ofDigitChars_rightpad (f : List Char) (d : ℕ) :
    Nat.ofDigitChars 10 (f.rightpad d '0') 0 = Nat.ofDigitChars 10 f 0 * 10 ^ (d - f.length) := by
  rw [List.rightpad, Nat.ofDigitChars_append, Nat.ofDigitChars_replicate_zero, mul_comm]

/-- The arithmetic of the two parts: the exact number of units, if it has 128 bits. -/
lemma scaled_parts_eq_some {n : Numeral} {d v : ℕ} :
    (do
      let int ← readPart n.int
      let frac ← readPart (n.frac.rightpad d '0')
      checkedAdd u128Max (← checkedMul u128Max int (10 ^ d)) frac) = some v ↔
        v = n.units d ∧ v ≤ u128Max := by
  simp only [Option.bind_eq_bind, Option.bind_eq_some_iff, readPart_eq_some,
    checkedMul_eq_some, checkedAdd_eq_some, ofDigitChars_rightpad]
  constructor
  · rintro ⟨_, ⟨rfl, -⟩, _, ⟨rfl, -⟩, _, ⟨-, rfl⟩, hle, rfl⟩
    exact ⟨rfl, hle⟩
  · rintro ⟨rfl, hle⟩
    have hpos : 1 ≤ 10 ^ d := Nat.one_le_pow d 10 (by norm_num)
    have hint : Nat.ofDigitChars 10 n.int 0 ≤ Nat.ofDigitChars 10 n.int 0 * 10 ^ d :=
      Nat.le_mul_of_pos_right _ hpos
    unfold Numeral.units at hle ⊢
    exact ⟨_, ⟨rfl, by omega⟩, _, ⟨rfl, by omega⟩, _, ⟨by omega, rfl⟩, hle, rfl⟩

/-- The parser reads exactly the numerals with few enough decimals, as the units they write. -/
lemma parseScaled_eq_some {s : List Char} {d v : ℕ} :
    parseScaled s d (10 ^ d) = some v ↔
      ∃ n : Numeral, n.Written (bare s) ∧ n.frac.length ≤ d ∧ v = n.units d ∧ v ≤ u128Max := by
  unfold parseScaled
  rw [← bare]
  obtain ⟨⟨int, frac⟩, hsplit⟩ : ∃ p, (splitOnce '.' (bare s)).getD (bare s, []) = p := ⟨_, rfl⟩
  have hparts : ∀ n : Numeral, n.Written (bare s) → n.int = int ∧ n.frac = frac := fun n hn =>
    Prod.mk.inj (hn.split.symm.trans hsplit)
  simp only [hsplit]
  split_ifs with hempty hbad
  · apply iff_of_false (by simp)
    rintro ⟨n, hn, -⟩
    obtain ⟨rfl, rfl⟩ := hparts n hn
    simp only [Bool.and_eq_true, List.isEmpty_iff] at hempty
    exact n.nonempty (by rw [hempty.1, hempty.2]; rfl)
  · apply iff_of_false (by simp)
    rintro ⟨n, hn, hlen, -⟩
    obtain ⟨rfl, rfl⟩ := hparts n hn
    have hint : n.int.all Char.isDigit = true :=
      List.all_eq_true.mpr fun c hc => n.digits c (List.mem_append_left _ hc)
    have hfrac : n.frac.all Char.isDigit = true :=
      List.all_eq_true.mpr fun c hc => n.digits c (List.mem_append_right _ hc)
    simp only [hint, hfrac, Bool.not_true, Bool.or_self, Bool.false_or, decide_eq_true_eq] at hbad
    omega
  · simp only [Bool.or_eq_true, Bool.not_eq_true', not_or, Bool.not_eq_false,
      List.all_eq_true, decide_eq_true_eq, not_lt] at hbad
    have hdigits : ∀ c ∈ int ++ frac, c.isDigit = true := fun c hc =>
      (List.mem_append.mp hc).elim (hbad.1.1 c) (hbad.1.2 c)
    have hnonempty : int ++ frac ≠ [] := fun h => by
      obtain ⟨rfl, rfl⟩ := List.append_eq_nil_iff.mp h
      exact hempty rfl
    let n : Numeral := ⟨int, frac, hdigits, hnonempty⟩
    have hn : n.Written (bare s) := written_of_split hsplit
    apply (scaled_parts_eq_some (n := n)).trans
    constructor
    · rintro ⟨hv, hle⟩
      exact ⟨n, hn, hbad.2, hv, hle⟩
    · rintro ⟨m, hm, -, hv, hle⟩
      rw [hm.inj hn] at hv
      exact ⟨hv, hle⟩

/-! ## What is written -/

/-- Digits and points are neither blank nor dollar signs. -/
lemma not_whitespace_of_digit {c : Char} (h : c.isDigit = true ∨ c = '.') :
    Foundations.isWhitespace c = false ∧ (c == '$') = false := by
  rcases h with hdigit | rfl
  · have hrange : 48 ≤ c.toNat ∧ c.toNat ≤ 57 := by
      simpa [Char.isDigit, UInt32.le_iff_toNat_le] using hdigit
    refine ⟨?_, ?_⟩
    · simp only [Foundations.isWhitespace, Bool.or_eq_false_iff, Bool.and_eq_false_iff,
        decide_eq_false_iff_not, beq_eq_false_iff_ne]
      omega
    · rw [beq_eq_false_iff_ne]
      rintro rfl
      exact absurd hrange.1 (by decide)
  · decide

/-- Nothing is left out of a text of digits and points. -/
lemma bare_of_digits {s : List Char} (h : ∀ c ∈ s, c.isDigit = true ∨ c = '.') : bare s = s := by
  have hblank : ∀ c ∈ s, ¬ Foundations.isWhitespace c = true := fun c hc => by
    simp [(not_whitespace_of_digit (h c hc)).1]
  have htrim : Foundations.trim s = s := by
    have hstart : s.dropWhile Foundations.isWhitespace = s :=
      List.dropWhile_eq_self_iff.mpr fun hl => hblank _ (List.getElem_mem hl)
    rw [Foundations.trim, hstart]
    exact List.rdropWhile_eq_self_iff.mpr fun hne => hblank _ (List.getLast_mem hne)
  rw [bare, htrim]
  refine List.dropWhile_eq_self_iff.mpr fun hl => ?_
  rw [(not_whitespace_of_digit (h _ (List.getElem_mem hl))).2]
  exact Bool.false_ne_true

lemma isDigit_toDigits {c : Char} {x : ℕ} (h : c ∈ Nat.toDigits 10 x) : c.isDigit = true :=
  Nat.isDigit_of_mem_toDigits (by norm_num) (by norm_num) h

/-- A printed amount is a numeral with exactly the decimals of the asset, of the number of units it
was printed from. -/
lemma exists_written_fmtScaled (x d : ℕ) (hd : 0 < d) :
    ∃ n : Numeral, n.Written (bare (fmtScaled x d (10 ^ d))) ∧ n.frac.length ≤ d ∧
      x = n.units d := by
  have hlen : (Nat.toDigits 10 (x % 10 ^ d)).length ≤ d :=
    (Nat.length_toDigits_le_iff (by norm_num) hd).mpr (Nat.mod_lt _ (by positivity))
  have hpad : ((Nat.toDigits 10 (x % 10 ^ d)).leftpad d '0').length = d := by
    rw [List.length_leftpad, max_eq_left hlen]
  have hzeros : ∀ c ∈ (Nat.toDigits 10 (x % 10 ^ d)).leftpad d '0', c.isDigit = true := by
    intro c hc
    rw [List.leftpad, List.mem_append, List.mem_replicate] at hc
    rcases hc with ⟨-, rfl⟩ | hc
    · decide
    · exact isDigit_toDigits hc
  have hdigits : ∀ c ∈ Nat.toDigits 10 (x / 10 ^ d) ++ (Nat.toDigits 10 (x % 10 ^ d)).leftpad d '0',
      c.isDigit = true := fun c hc => (List.mem_append.mp hc).elim isDigit_toDigits (hzeros c)
  have hbare : bare (fmtScaled x d (10 ^ d)) = fmtScaled x d (10 ^ d) := by
    refine bare_of_digits fun c hc => ?_
    rcases List.mem_append.mp hc with hint | hrest
    · exact .inl (isDigit_toDigits hint)
    · rcases List.mem_cons.mp hrest with rfl | hfrac
      · exact .inr rfl
      · exact .inl (hzeros c hfrac)
  let n : Numeral := ⟨_, _, hdigits, by simp [Nat.toDigits_ne_nil]⟩
  refine ⟨n, .inl hbare, hpad.le, ?_⟩
  have hfrac : Nat.ofDigitChars 10 ((Nat.toDigits 10 (x % 10 ^ d)).leftpad d '0') 0 =
    x % 10 ^ d := by
    rw [List.leftpad, Nat.ofDigitChars_append, Nat.ofDigitChars_replicate_zero, mul_zero,
      Nat.ofDigitChars_ten_toDigits]
  change x = Nat.ofDigitChars 10 (Nat.toDigits 10 (x / 10 ^ d)) 0 * 10 ^ d +
    Nat.ofDigitChars 10 ((Nat.toDigits 10 (x % 10 ^ d)).leftpad d '0') 0 *
      10 ^ (d - ((Nat.toDigits 10 (x % 10 ^ d)).leftpad d '0').length)
  rw [hfrac, hpad, Nat.ofDigitChars_ten_toDigits, Nat.sub_self, pow_zero, mul_one]
  exact (Nat.div_add_mod' x (10 ^ d)).symm

/-- A printed amount of an asset without decimals has no point. -/
lemma exists_written_toDigits (x : ℕ) :
    ∃ n : Numeral, n.Written (bare (Nat.toDigits 10 x)) ∧ n.frac.length ≤ 0 ∧ x = n.units 0 := by
  have hbare : bare (Nat.toDigits 10 x) = Nat.toDigits 10 x :=
    bare_of_digits fun c hc => .inl (isDigit_toDigits hc)
  let n : Numeral :=
    ⟨Nat.toDigits 10 x, [], by simpa using fun c hc => isDigit_toDigits (c := c) hc,
    by simp [Nat.toDigits_ne_nil]⟩
  refine ⟨n, .inr ⟨rfl, hbare⟩, le_rfl, ?_⟩
  simp [Numeral.units, n]

lemma parseAmountDec_eq_some {s : List Char} {d v : ℕ} (hd : d ≤ 18) :
    parseAmountDec s d = some v ↔
      ∃ n : Numeral, n.Written (bare s) ∧ n.frac.length ≤ d ∧ v = n.units d ∧ v ≤ u128Max := by
  rw [parseAmountDec, min_eq_left hd]
  exact parseScaled_eq_some

lemma parseAmount_eq (s : List Char) : parseAmount s = parseAmountDec s 6 := rfl

lemma fmtAmount_eq (x : ℕ) : fmtAmount x = fmtAmountDec x 6 := rfl

/-- What is printed is read back. -/
lemma parseAmountDec_fmtAmountDec {x d : ℕ} (hx : x ≤ u128Max) (hd : d ≤ 18) :
    parseAmountDec (fmtAmountDec x d) d = some x := by
  rw [parseAmountDec_eq_some hd, fmtAmountDec, min_eq_left hd]
  split_ifs with hzero
  · obtain ⟨n, hn, hlen, hunits⟩ := exists_written_toDigits x
    rw [hzero]
    exact ⟨n, hn, hlen, hunits, hx⟩
  · obtain ⟨n, hn, hlen, hunits⟩ := exists_written_fmtScaled x d (Nat.pos_of_ne_zero hzero)
    exact ⟨n, hn, hlen, hunits, hx⟩

/-! ## What was typed -/

/-- A result, if there is one, is the number that the text writes, in units. -/
def ReadsExactly (d : ℕ) (text : List Char) (r : Option ℕ) : Prop :=
  ∀ v, r = some v → ∃ n : Numeral, n.Written (bare text) ∧ (v : ℚ) = n.value * 10 ^ d

/-- No number with few enough decimals that 128 bits can hold needs more than 64. -/
def FitsU64 (d : ℕ) (text : List Char) : Prop :=
  ∀ n : Numeral, n.Written (bare text) → n.frac.length ≤ d → n.value * 10 ^ d ≤ u128Max →
    n.value * 10 ^ d ≤ u64Max

namespace Wallet

lemma parseAmount_eq (text : List Char) : Wallet.parseAmount text =
    Wallet.parseAmountDec text 6 := by
  rw [Wallet.parseAmount, HashKinetics.parseAmount_eq, Wallet.parseAmountDec]

lemma readsExactly_iff {text : List Char} {d : ℕ} (hd : d ≤ 18) :
    ReadsExactly d text (Wallet.parseAmountDec text d) ↔ FitsU64 d text := by
  constructor
  · intro hexact n hn hlen hmax
    rw [Numeral.value_mul_pow hlen, Nat.cast_le] at hmax ⊢
    have hparse : HashKinetics.parseAmountDec text d = some (n.units d) :=
      (parseAmountDec_eq_some hd).mpr ⟨n, hn, hlen, rfl, hmax⟩
    obtain ⟨m, hm, hvalue⟩ := hexact (clampU64 (n.units d))
      (by rw [Wallet.parseAmountDec, hparse]; rfl)
    rw [hm.inj hn, Numeral.value_mul_pow hlen, Nat.cast_inj] at hvalue
    exact min_eq_left_iff.mp hvalue
  · intro hfits v hv
    obtain ⟨w, hparse, rfl⟩ := Option.map_eq_some_iff.mp hv
    obtain ⟨n, hn, hlen, rfl, hmax⟩ := (parseAmountDec_eq_some hd).mp hparse
    have hvalue := Numeral.value_mul_pow hlen
    have hle := hfits n hn hlen (by rw [hvalue, Nat.cast_le]; exact hmax)
    rw [hvalue, Nat.cast_le] at hle
    refine ⟨n, hn, ?_⟩
    rw [hvalue, clampU64, min_eq_left hle]

/-- The app's parsers return what was typed, and nothing else, exactly for the texts whose number
does not lie between the largest 64-bit and the largest 128-bit amount; and every amount is read
back from the text it is shown as. -/
theorem amounts_exact_iff (text : List Char) (x : ℕ) :
    (∀ decimals ≤ 18,
      (ReadsExactly decimals text (Wallet.parseAmountDec text decimals) ↔ FitsU64 decimals text)) ∧
    (ReadsExactly 6 text (Wallet.parseAmount text) ↔ FitsU64 6 text) ∧
    (x ≤ u128Max → ∀ d ≤ 18,
      HashKinetics.parseAmountDec (fmtAmountDec x d) d = some x) ∧
    (x ≤ u128Max → HashKinetics.parseAmount (fmtAmount x) = some x) ∧
    (x ≤ u64Max → ∀ d ≤ 18,
      Wallet.parseAmountDec (Wallet.formatAmountDec x d) d = some x) ∧
    (x ≤ u64Max → Wallet.parseAmount (Wallet.formatAmount x) = some x) := by
  have hround : x ≤ u64Max → ∀ d ≤ 18,
      Wallet.parseAmountDec (Wallet.formatAmountDec x d) d = some x := by
    intro hx d hd
    have hwide : x ≤ u128Max := hx.trans (by decide)
    rw [Wallet.parseAmountDec, Wallet.formatAmountDec, parseAmountDec_fmtAmountDec hwide hd,
      Option.map_some, clampU64, min_eq_left hx]
  refine ⟨fun d hd => readsExactly_iff hd, ?_,
    fun hx d hd => parseAmountDec_fmtAmountDec hx hd, fun hx => ?_, hround, fun hx => ?_⟩
  · rw [Wallet.parseAmount_eq]
    exact readsExactly_iff (by norm_num)
  · rw [HashKinetics.parseAmount_eq, fmtAmount_eq]
    exact parseAmountDec_fmtAmountDec hx (by norm_num)
  · rw [Wallet.parseAmount_eq, Wallet.formatAmount, fmtAmount_eq]
    exact hround hx 6 (by norm_num)

theorem quarter_exact :
    ReadsExactly 6 " $0.25 ".toList (Wallet.parseAmountDec " $0.25 ".toList 6) ∧
      HashKinetics.parseAmountDec (fmtAmountDec 250000 6) 6 = some 250000 := by
  have hparse : HashKinetics.parseAmountDec " $0.25 ".toList 6 = some 250000 := by decide
  obtain ⟨hiff, -, hround, -⟩ := amounts_exact_iff " $0.25 ".toList 250000
  refine ⟨(hiff 6 (by norm_num)).mpr fun n hn hlen hmax => ?_,
    hround (by decide) 6 (by norm_num)⟩
  obtain ⟨m, hm, -, hunits, -⟩ := (parseAmountDec_eq_some (by norm_num)).mp hparse
  rw [Numeral.value_mul_pow hlen, hn.inj hm, ← hunits, Nat.cast_le]
  decide

/-- One unit above the largest 64-bit amount is read as the largest 64-bit amount. -/
theorem parseAmount_capped :
    Wallet.parseAmount "18446744073709.551616".toList = some u64Max ∧
      ¬ ReadsExactly 6 "18446744073709.551616".toList
        (Wallet.parseAmount "18446744073709.551616".toList) := by
  have hparse : HashKinetics.parseAmount "18446744073709.551616".toList =
    some 18446744073709551616 := by
    decide
  have hcapped : Wallet.parseAmount "18446744073709.551616".toList = some u64Max := by
    rw [Wallet.parseAmount, hparse]
    rfl
  refine ⟨hcapped, fun hexact => ?_⟩
  rw [Wallet.parseAmount_eq, readsExactly_iff (by norm_num)] at hexact
  rw [HashKinetics.parseAmount_eq, parseAmountDec_eq_some (by norm_num)] at hparse
  obtain ⟨n, hn, hlen, hunits, hmax⟩ := hparse
  have hvalue := Numeral.value_mul_pow hlen
  rw [← hunits] at hvalue
  have hle := hexact n hn hlen (by rw [hvalue, Nat.cast_le]; exact hmax)
  rw [hvalue, Nat.cast_le] at hle
  exact absurd hle (by decide)

end Wallet

end HashKinetics
