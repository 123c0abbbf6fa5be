import Mathlib

/-!
# Encrypt, then authenticate

A plain text is covered with a key stream and followed by the tag of what came out.  Opening
compares the tag with the one expected and uncovers the rest; it returns whatever was sealed under
the same stream and the same tags.
-/

namespace Foundations

/-- Cover bytes with a key stream, position by position. -/
def xorStream (stream : ℕ → UInt8) (bs : List UInt8) : List UInt8 :=
  bs.mapIdx fun i b => b ^^^ stream i

@[simp] lemma length_xorStream (stream : ℕ → UInt8) (bs : List UInt8) :
    (xorStream stream bs).length = bs.length := by
  simp [xorStream]

/-- Covering twice uncovers. -/
@[simp] lemma xorStream_xorStream (stream : ℕ → UInt8) (bs : List UInt8) :
    xorStream stream (xorStream stream bs) = bs := by
  refine List.ext_getElem (by simp) fun i _ _ => ?_
  simp [xorStream]

/-- The differences of two tags, collected without an early exit. -/
def tagDiff (expect tag : List UInt8) : UInt8 :=
  (expect.zip tag).foldl (fun diff p => diff ||| (p.1 ^^^ p.2)) 0

@[simp] lemma tagDiff_self (tag : List UInt8) : tagDiff tag tag = 0 := by
  have hzip : ∀ diff : UInt8,
      (tag.zip tag).foldl (fun diff p => diff ||| (p.1 ^^^ p.2)) diff = diff := by
    induction tag with
    | nil => intro diff; rfl
    | cons b tag ih =>
      intro diff
      rw [List.zip_cons_cons, List.foldl_cons, UInt8.xor_self, UInt8.or_zero, ih]
  exact hzip 0

/-- The covered text, and its tag behind it. -/
def sealThenMac (stream : ℕ → UInt8) (mac : List UInt8 → List UInt8)
    (pt : List UInt8) : List UInt8 :=
  xorStream stream pt ++ mac (xorStream stream pt)

/-- Check the last `w` bytes as the tag of those before and uncover them. -/
def openChecked (w : ℕ) (stream : ℕ → UInt8) (mac : List UInt8 → List UInt8) (ct : List UInt8) :
    Option (List UInt8) :=
  if ct.length < w then none
  else
    let body := ct.take (ct.length - w)
    let tag := ct.drop (ct.length - w)
    if tagDiff (mac body) tag ≠ 0 then none else some (xorStream stream body)

/-- Opening inverts sealing. -/
lemma openChecked_sealThenMac {w : ℕ} (stream : ℕ → UInt8) {mac : List UInt8 → List UInt8}
    (hmac : ∀ bs, (mac bs).length = w) (pt : List UInt8) :
    openChecked w stream mac (sealThenMac stream mac pt) = some pt := by
  have hlen : (sealThenMac stream mac pt).length - w = (xorStream stream pt).length := by
    simp [sealThenMac, hmac]
  have hlong : ¬ (sealThenMac stream mac pt).length < w := by
    simp [sealThenMac, hmac]
  rw [openChecked, if_neg hlong]
  simp only [hlen]
  simp [sealThenMac]

end Foundations
