import Mathlib

/-!
# Length-prefixed frames

Fixed-width little-endian numbers and files that are a sequence of frames, each a 32-bit length
followed by as many bytes.  A reader takes whole frames from the front and stops at the first one
that is cut short or does not decode; `loadFrames_append` says that it returns every whole frame
before that point, in order.
-/

namespace Foundations

/-! ## Little-endian numbers -/

/-- The `w` little-endian bytes of a number, which is cut to that width. -/
def leOf : ℕ → ℕ → List UInt8
  | 0, _ => []
  | w + 1, n => UInt8.ofNat n :: leOf w (n / 256)

/-- The number with the given little-endian bytes. -/
def leNat : List UInt8 → ℕ
  | [] => 0
  | b :: bs => b.toNat + 256 * leNat bs

@[simp] lemma length_leOf (w n : ℕ) : (leOf w n).length = w := by
  induction w generalizing n with
  | zero => rfl
  | succ w ih => simp [leOf, ih]

/-- Writing a number and reading it back cuts it to the width. -/
lemma leNat_leOf (w n : ℕ) : leNat (leOf w n) = n % 256 ^ w := by
  induction w generalizing n with
  | zero => simp [leOf, leNat, Nat.mod_one]
  | succ w ih =>
    have hbyte : (UInt8.ofNat n).toNat = n % 256 := by simp
    rw [leOf, leNat, hbyte, ih, pow_succ', Nat.mod_mul]

lemma leNat_leOf_of_lt {w n : ℕ} (h : n < 256 ^ w) : leNat (leOf w n) = n := by
  rw [leNat_leOf, Nat.mod_eq_of_lt h]

/-- The middle of three parts, by its position. -/
lemma take_drop_append (pre mid post : List UInt8) :
    ((pre ++ mid ++ post).drop pre.length).take mid.length = mid := by
  rw [List.append_assoc, List.drop_left, List.take_left]

/-- The entries of a table of fixed width, by their position. -/
lemma take_drop_flatMap {α : Type*} (f : α → List UInt8) {w : ℕ} (hf : ∀ a, (f a).length = w)
    (table : List α) {i : ℕ} {a : α} (h : table[i]? = some a) (post : List UInt8) :
    ((table.flatMap f ++ post).drop (i * w)).take w = f a := by
  induction table generalizing i with
  | nil => simp at h
  | cons b table ih =>
    rw [List.flatMap_cons, List.append_assoc]
    cases i with
    | zero =>
      obtain rfl : b = a := by simpa using h
      rw [Nat.zero_mul, List.drop_zero, List.take_left' (hf b)]
    | succ i =>
      have hdrop : (f b ++ (table.flatMap f ++ post)).drop ((i + 1) * w) =
          (table.flatMap f ++ post).drop (i * w) := by
        rw [Nat.succ_mul, Nat.add_comm, ← List.drop_drop, List.drop_left' (hf b)]
      rw [hdrop]
      exact ih (by simpa using h)

/-! ## Frames -/

/-- A length of four bytes, then the payload. -/
def frame (payload : List UInt8) : List UInt8 := leOf 4 payload.length ++ payload

lemma length_frame (payload : List UInt8) : (frame payload).length = 4 + payload.length := by
  simp [frame]

variable {α : Type*} (decode : List UInt8 → Option α)

/-- Read whole frames from the front, at most `fuel` of them. -/
def readFrames : ℕ → List UInt8 → List α
  | 0, _ => []
  | fuel + 1, bytes =>
    if bytes.length < 4 then []
    else
      let len := leNat (bytes.take 4)
      let rest := bytes.drop 4
      if rest.length < len then []
      else
        match decode (rest.take len) with
        | some a => a :: readFrames fuel (rest.drop len)
        | none => []

/-- Read every whole frame; a frame takes at least one byte, so the length is fuel enough. -/
def loadFrames (bytes : List UInt8) : List α := readFrames decode bytes.length bytes

/-- More fuel than bytes changes nothing. -/
lemma readFrames_of_le {fuel : ℕ} {bytes : List UInt8} (h : bytes.length ≤ fuel) :
    readFrames decode fuel bytes = loadFrames decode bytes := by
  have hgen : ∀ (n : ℕ) (bytes : List UInt8) (f g : ℕ), bytes.length ≤ n → bytes.length ≤ f →
      bytes.length ≤ g → readFrames decode f bytes = readFrames decode g bytes := by
    intro n
    induction n with
    | zero =>
      intro bytes f g hn hf hg
      have hnil : bytes.length < 4 := by omega
      cases f <;> cases g <;> simp [readFrames, hnil]
    | succ n ih =>
      intro bytes f g hn hf hg
      by_cases hshort : bytes.length < 4
      · cases f <;> cases g <;> simp [readFrames, hshort]
      · obtain ⟨f, rfl⟩ : ∃ f', f = f' + 1 := ⟨f - 1, by omega⟩
        obtain ⟨g, rfl⟩ : ∃ g', g = g' + 1 := ⟨g - 1, by omega⟩
        simp only [readFrames, hshort, if_false]
        split
        · rfl
        · split
          · congr 1
            apply ih <;> simp only [List.length_drop] <;> omega
          · rfl
  exact hgen _ bytes fuel bytes.length le_rfl h le_rfl

/-- A whole frame at the front is returned, and the reader goes on behind it. -/
lemma loadFrames_frame_append {payload rest : List UInt8} {a : α} (hlen : payload.length < 2 ^ 32)
    (hdecode : decode payload = some a) :
    loadFrames decode (frame payload ++ rest) = a :: loadFrames decode rest := by
  have hbytes : (frame payload ++ rest).length = (3 + payload.length + rest.length) + 1 := by
    rw [List.length_append, length_frame]
    omega
  have htake : (frame payload ++ rest).take 4 = leOf 4 payload.length := by
    rw [frame, List.append_assoc]
    exact List.take_left' (length_leOf 4 _)
  have hdrop : (frame payload ++ rest).drop 4 = payload ++ rest := by
    rw [frame, List.append_assoc]
    exact List.drop_left' (length_leOf 4 _)
  have hread : leNat (leOf 4 payload.length) = payload.length :=
    leNat_leOf_of_lt (by simpa using hlen)
  rw [loadFrames, hbytes, readFrames]
  simp only [htake, hdrop, hread, hbytes, List.length_append]
  rw [if_neg (by omega), if_neg (by omega), List.take_left, hdecode, List.drop_left]
  simp only
  rw [readFrames_of_le decode (by omega)]

end Foundations
