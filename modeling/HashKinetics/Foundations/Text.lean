import Mathlib

/-!
# Texts

A text is a list of characters.  White space is that of Unicode, a text is stored as its UTF-8
bytes, and the lines of a file are what lies between its newline bytes, whether or not a newline
follows the last one.
-/

namespace Foundations

/-! ## White space -/

/-- The white space of Unicode. -/
def isWhitespace (c : Char) : Bool :=
  (9 ≤ c.toNat && c.toNat ≤ 13) || c.toNat == 0x20 || c.toNat == 0x85 || c.toNat == 0xA0 ||
    c.toNat == 0x1680 || (0x2000 ≤ c.toNat && c.toNat ≤ 0x200A) || c.toNat == 0x2028 ||
    c.toNat == 0x2029 || c.toNat == 0x202F || c.toNat == 0x205F || c.toNat == 0x3000

/-- A text without the white space at its ends. -/
def trim (s : List Char) : List Char := (s.dropWhile isWhitespace).rdropWhile isWhitespace

/-- A text without the leading occurrences of a character. -/
def trimStartMatches (c : Char) (s : List Char) : List Char := s.dropWhile (· == c)

/-- A text with something other than white space in it is not blank. -/
lemma trim_ne_nil {s : List Char} {c : Char} (hc : c ∈ s) (hblank : isWhitespace c = false) :
    trim s ≠ [] := by
  intro hnil
  rw [trim, List.rdropWhile_eq_nil_iff] at hnil
  have hmem : c ∈ s.dropWhile isWhitespace := by
    have hsplit := List.takeWhile_append_dropWhile (p := isWhitespace) (l := s)
    rw [← hsplit, List.mem_append] at hc
    refine hc.resolve_left fun htake => ?_
    rw [List.mem_takeWhile_imp htake] at hblank
    cases hblank
  rw [hnil c hmem] at hblank
  cases hblank

/-! ## Separators -/

/-- The parts of a text before and after the first occurrence of a character. -/
def splitOnce (c : Char) : List Char → Option (List Char × List Char)
  | [] => none
  | x :: s => if x = c then some ([], s) else (splitOnce c s).map fun p => (x :: p.1, p.2)

lemma splitOnce_append {c : Char} {a : List Char} (ha : c ∉ a) (b : List Char) :
    splitOnce c (a ++ c :: b) = some (a, b) := by
  induction a with
  | nil => simp [splitOnce]
  | cons x a ih =>
    obtain ⟨hx, ha⟩ := not_or.mp (List.mem_cons.not.mp ha)
    rw [List.cons_append, splitOnce, if_neg (Ne.symm hx), ih ha]
    rfl

lemma splitOnce_eq_none {c : Char} {s : List Char} : splitOnce c s = none ↔ c ∉ s := by
  induction s with
  | nil => simp [splitOnce]
  | cons x s ih =>
    rw [splitOnce, List.mem_cons, not_or]
    split_ifs with hx
    · simp [hx]
    · simp [ih, Ne.symm hx]

lemma eq_append_of_splitOnce {c : Char} {s a b : List Char} (h : splitOnce c s = some (a, b)) :
    s = a ++ c :: b := by
  induction s generalizing a with
  | nil => cases h
  | cons x s ih =>
    rw [splitOnce] at h
    split_ifs at h with hx
    · obtain ⟨rfl, rfl⟩ := Prod.mk.inj (Option.some.inj h)
      rw [hx]
      rfl
    · obtain ⟨⟨a', b'⟩, hsplit, hab⟩ := Option.map_eq_some_iff.mp h
      obtain ⟨rfl, rfl⟩ := Prod.mk.inj hab
      rw [ih hsplit]
      rfl

/-! ## Bytes -/

/-- The bytes of a text. -/
def utf8 (s : List Char) : List UInt8 := s.flatMap String.utf8EncodeChar

/-- The text with the given bytes, if they are those of a text. -/
def decodeUtf8 (bs : List UInt8) : Option (List Char) := bs.toByteArray.utf8Decode?.map Array.toList

@[simp] lemma decodeUtf8_utf8 (s : List Char) : decodeUtf8 (utf8 s) = some s := by
  have hdecode : (List.utf8Encode s).utf8Decode? = some s.toArray := List.utf8Decode?_utf8Encode
  unfold List.utf8Encode at hdecode
  rw [decodeUtf8, utf8, hdecode]
  rfl

lemma utf8Encode_eq (s : List Char) : List.utf8Encode s = (utf8 s).toByteArray := rfl

lemma utf8_of_decodeUtf8 {bs : List UInt8} {s : List Char} (h : decodeUtf8 bs = some s) :
    utf8 s = bs := by
  obtain ⟨chars, hchars, rfl⟩ := Option.map_eq_some_iff.mp h
  have hencode := ByteArray.utf8Encode_get_utf8Decode? (b := bs.toByteArray)
    (h := by rw [hchars]; rfl)
  simp only [hchars, Option.get_some, utf8Encode_eq] at hencode
  have hdata := congrArg ByteArray.data hencode
  simpa using hdata

/-- A text whose bytes another one starts with starts that one. -/
lemma isPrefix_of_utf8 {s t : List Char} (h : utf8 s <+: utf8 t) : s <+: t := by
  obtain ⟨rest, hrest⟩ := h
  apply List.isPrefix_of_utf8Encode_append_eq_utf8Encode rest.toByteArray
  rw [utf8Encode_eq, utf8Encode_eq, ← hrest, List.toByteArray_append]

lemma utf8_append (s t : List Char) : utf8 (s ++ t) = utf8 s ++ utf8 t := List.flatMap_append

lemma utf8_of_ascii {c : Char} (h : c.toNat < 128) :
    String.utf8EncodeChar c = [UInt8.ofNat c.toNat] := by
  have hle : c.val.toNat ≤ 0x7f := Nat.le_of_lt_succ h
  rw [String.utf8EncodeChar, if_pos hle]
  rfl

/-- Every byte of a character other than an ASCII one has its high bit set. -/
lemma le_of_mem_utf8 {c : Char} (h : ¬ c.toNat < 128) {b : UInt8}
    (hb : b ∈ String.utf8EncodeChar c) :
    128 ≤ b.toNat := by
  have hgt : ¬ c.val.toNat ≤ 0x7f := fun hle => h (Nat.lt_succ_of_le hle)
  have hbyte : ∀ m k, 128 ≤ k → m + k < 256 → 128 ≤ (UInt8.ofNat (m + k)).toNat := by
    intro m k hk hlt
    rw [UInt8.toNat_ofNat_of_lt' hlt]
    omega
  simp only [String.utf8EncodeChar, hgt, if_false] at hb
  split_ifs at hb
  all_goals
    simp only [List.mem_cons, List.not_mem_nil, or_false] at hb
    rcases hb with rfl | rfl | rfl | rfl
  all_goals exact hbyte _ _ (by norm_num) (by omega)

/-- The newline byte is that of the newline character alone. -/
lemma newline_not_mem_utf8 {s : List Char} (h : '\n' ∉ s) : (10 : UInt8) ∉ utf8 s := by
  intro hmem
  obtain ⟨c, hc, hbyte⟩ := List.mem_flatMap.mp hmem
  by_cases hascii : c.toNat < 128
  · rw [utf8_of_ascii hascii, List.mem_singleton] at hbyte
    have hnat := congrArg UInt8.toNat hbyte
    rw [UInt8.toNat_ofNat_of_lt' (by change c.toNat < 256; omega)] at hnat
    have hnewline : c = '\n' := Char.toNat_inj.mp hnat.symm
    exact h (hnewline ▸ hc)
  · have hhigh := le_of_mem_utf8 hascii hbyte
    exact absurd hhigh (by decide)

/-! ## Lines -/

/-- A line without the carriage return in front of its newline. -/
def stripCr (line : List UInt8) : List UInt8 :=
  if line.getLast? = some 13 then line.dropLast else line

/-- The lines of a file, the first bytes of the first of which have been read. -/
def linesFrom (line : List UInt8) : List UInt8 → List (List UInt8)
  | [] => if line = [] then [] else [line]
  | b :: bs => if b = 10 then stripCr line :: linesFrom [] bs else linesFrom (line ++ [b]) bs

/-- The lines of a file. -/
def lines (file : List UInt8) : List (List UInt8) := linesFrom [] file

lemma linesFrom_append {l : List UInt8} (h : 10 ∉ l) (line rest : List UInt8) :
    linesFrom line (l ++ rest) = linesFrom (line ++ l) rest := by
  induction l generalizing line with
  | nil => rw [List.nil_append, List.append_nil]
  | cons b l ih =>
    obtain ⟨hb, hl⟩ := not_or.mp (List.mem_cons.not.mp h)
    rw [List.cons_append, linesFrom, if_neg (Ne.symm hb), ih hl, List.append_assoc]
    rfl

/-- A line with its newline, and what follows it. -/
lemma lines_cons {l : List UInt8} (h : 10 ∉ l) (rest : List UInt8) :
    lines (l ++ 10 :: rest) = stripCr l :: lines rest := by
  rw [lines, linesFrom_append h, linesFrom, if_pos rfl, List.nil_append]
  rfl

/-- A last line without its newline. -/
lemma lines_of_not_mem {l : List UInt8} (h : 10 ∉ l) (hne : l ≠ []) : lines l = [l] := by
  have happend := linesFrom_append h [] []
  rw [List.append_nil, List.nil_append] at happend
  rw [lines, happend, linesFrom, if_neg hne]

end Foundations
