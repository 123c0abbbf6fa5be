import Mathlib

/-!
# Hexadecimal texts

Bytes are written as two lower-case digits each, and read in either case.
-/

namespace Foundations

/-- The digit that is written for a value below sixteen. -/
def hexDigit (n : ℕ) : Char :=
  if n < 10 then Char.ofNat (48 + n) else Char.ofNat (87 + n)

/-- The value of a digit. -/
def hexValue (c : Char) : Option ℕ :=
  if '0' ≤ c ∧ c ≤ '9' then some (c.toNat - 48)
  else if 'a' ≤ c ∧ c ≤ 'f' then some (c.toNat - 87)
  else if 'A' ≤ c ∧ c ≤ 'F' then some (c.toNat - 55)
  else none

lemma hexValue_hexDigit : ∀ n < 16, hexValue (hexDigit n) = some n := by
  decide

/-- The digits of a byte string. -/
def hexChars : List UInt8 → List Char
  | [] => []
  | b :: bytes => hexDigit (b.toNat / 16) :: hexDigit (b.toNat % 16) :: hexChars bytes

lemma length_hexChars (bytes : List UInt8) : (hexChars bytes).length = 2 * bytes.length := by
  induction bytes with
  | nil => rfl
  | cons b bytes ih =>
    rw [hexChars, List.length_cons, List.length_cons, List.length_cons, ih]
    omega

/-- What is wrong with a character at a position. -/
def invalidHex (c : Char) (i : ℕ) : String :=
  "Invalid character '" ++ c.toString ++ "' at position " ++ toString i

/-- The bytes that the digits from a position on stand for. -/
def unhexChars (i : ℕ) : List Char → Except String (List UInt8)
  | [] => .ok []
  | [_] => .error "Odd number of digits"
  | c :: d :: s =>
    match hexValue c, hexValue d with
    | none, _ => .error (invalidHex c i)
    | _, none => .error (invalidHex d (i + 1))
    | some hi, some lo =>
      (unhexChars (i + 2) s).map fun bytes => UInt8.ofNat (16 * hi + lo) :: bytes

/-- Bytes as a text. -/
def hexEncode (bytes : List UInt8) : String := String.ofList (hexChars bytes)

/-- The bytes of a text. -/
def hexDecode (s : String) : Except String (List UInt8) :=
  if s.toList.length % 2 ≠ 0 then .error "Odd number of digits" else unhexChars 0 s.toList

lemma unhexChars_hexChars (bytes : List UInt8) (i : ℕ) :
    unhexChars i (hexChars bytes) = .ok bytes := by
  induction bytes generalizing i with
  | nil => rfl
  | cons b bytes ih =>
    have hb := b.toNat_lt
    rw [hexChars, unhexChars, hexValue_hexDigit _ (by omega), hexValue_hexDigit _ (by omega)]
    simp only [ih, Except.map, Nat.div_add_mod, UInt8.ofNat_toNat]

/-- What was written is read back. -/
lemma hexDecode_hexEncode (bytes : List UInt8) : hexDecode (hexEncode bytes) = .ok bytes := by
  rw [hexDecode, hexEncode, String.toList_ofList, length_hexChars, if_neg (by omega),
    unhexChars_hexChars]

lemma hexEncode_injective : Function.Injective hexEncode := by
  intro a b h
  have hdecode := congrArg hexDecode h
  simpa [hexDecode_hexEncode] using hdecode

end Foundations
