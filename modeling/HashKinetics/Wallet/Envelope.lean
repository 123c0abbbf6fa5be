import HashKinetics.Foundations.Hex
import HashKinetics.Foundations.Text

/-!
# Sealed files

A secret file is stored plain or as an envelope: its text under a key that is derived from a
passphrase, and from a key file when there is one, with the parameters of the derivation beside it.
A key is derived once and seals again under its salt; it opens what carries its salt, its parameters
and its key file.
-/

namespace HashKinetics

open Foundations

namespace AtRest

/-! ## The envelope -/

/-- The parameters of a derivation: kibibytes, passes and lanes. -/
structure Kdf where
  mKib : ℕ
  t : ℕ
  p : ℕ
  deriving DecidableEq

/-- The envelope as it is on disk. -/
structure Sealed where
  hke : ℕ
  kdf : String
  mKib : ℕ
  t : ℕ
  p : ℕ
  salt : String
  nonce : String
  ct : String
  kf : Option String

/-- The parameters that an envelope carries. -/
def Sealed.params (env : Sealed) : Kdf := ⟨env.mKib, env.t, env.p⟩

inductive SealError where
  | kdf (e : String)
  | cipher
  | format (e : String)
  | noKeyfile (id : String)

def SealError.text : SealError → String
  | .kdf e => "key derivation failed: " ++ e
  | .cipher => "wrong passphrase (or the file was tampered with)"
  | .format e => "sealed file is malformed: " ++ e
  | .noKeyfile id => "this file is sealed with key file " ++ id ++ " — set the *_KEYFILE path to it"

/-- The key derivation, the hash, the cipher and the text format that sealing rests on.  Keys, salts
and nonces are byte strings. -/
class SealSuite where
  argon2id : String → List UInt8 → Kdf → Except String (List UInt8)
  shake256 : String → List (List UInt8) → List UInt8
  encrypt : List UInt8 → List UInt8 → String → ByteArray → Option (List UInt8)
  decrypt : List UInt8 → List UInt8 → String → List UInt8 → Option ByteArray
  toJson : Sealed → String
  fromJson : String → Except String Sealed

export SealSuite (argon2id shake256 encrypt decrypt toJson fromJson)

/-- What every ciphertext is bound to. -/
def AAD : String := "hk/v1/sealed"

/-- The name by which a text is known to be an envelope. -/
def hkeMark : List Char := "\"hke\"".toList

/-- A text is taken for an envelope by its brace and the name of its first field. -/
def isSealed (content : String) : Bool :=
  let t := content.toList.dropWhile Foundations.isWhitespace
  t.head? = some '\x7b' && decide (hkeMark <:+: t)

/-! ## Sealing keys -/

/-- A derived key, with what it was derived from. -/
structure SealKey where
  key : List UInt8
  salt : List UInt8
  kdf : Kdf
  kf : Option String

/-- The bounds of the parameters that an envelope may carry. -/
def Kdf.InRange (kdf : Kdf) : Prop :=
  kdf.mKib ≤ 8 * 1048576 ∧ kdf.t ≤ 64 ∧ kdf.p ≤ 16 ∧ 8 * kdf.p ≤ kdf.mKib

instance (kdf : Kdf) : Decidable kdf.InRange := inferInstanceAs (Decidable (_ ∧ _))

section Keys

variable [SealSuite]

/-- The fingerprint by which an envelope names its key file. -/
def keyfileId (keyfile : List UInt8) : String :=
  hexEncode ((shake256 "hk/v1/sealed-keyfile-id" [keyfile]).take 4)

namespace SealKey

/-- Mix the key file into a derived key. -/
def finish (key salt : List UInt8) (kdf : Kdf) : Option (List UInt8) → SealKey
  | none => ⟨key, salt, kdf, none⟩
  | some kfb => ⟨shake256 "hk/v1/sealed-keyfile-mix" [key, kfb], salt, kdf, some (keyfileId kfb)⟩

/-- Derive a key and mix in the key file. -/
def derive (passphrase : String) (salt : List UInt8) (kdf : Kdf) (keyfile : Option (List UInt8)) :
    Except SealError SealKey :=
  match argon2id passphrase salt kdf with
  | .error e => .error (.kdf e)
  | .ok key => .ok (finish key salt kdf keyfile)

/-- A key under a fresh salt. -/
def new (passphrase : String) (keyfile : Option (List UInt8)) (kdf : Kdf) (salt : List UInt8) :
    Except SealError SealKey :=
  if passphrase = "" then .error (.kdf "empty passphrase")
  else derive passphrase salt kdf keyfile

/-- The key file that an envelope names has to be the one at hand. -/
def checkKeyfile (keyfile : Option (List UInt8)) : Option String → Except SealError Unit
  | none => .ok ()
  | some want =>
    match keyfile with
    | none => .error (.noKeyfile want)
    | some kfb =>
      if keyfileId kfb ≠ want then
        .error (.noKeyfile (want ++ " (the key file given is " ++ keyfileId kfb ++ ")"))
      else .ok ()

/-- The key of an existing envelope. -/
def forEnvelope (env : Sealed) (passphrase : String) (keyfile : Option (List UInt8)) :
    Except SealError SealKey :=
  if env.hke ≠ 1 ∨ env.kdf ≠ "argon2id" then
    .error (.format ("unsupported envelope hke=" ++ toString env.hke ++ " kdf=" ++ env.kdf))
  else if ¬ env.params.InRange then .error (.format "kdf parameters out of range")
  else
    match checkKeyfile keyfile env.kf with
    | .error e => .error e
    | .ok () =>
      if passphrase = "" then .error (.kdf "empty passphrase")
      else
        match hexDecode env.salt with
        | .error e => .error (.format e)
        | .ok salt =>
          if salt.length < 8 then .error (.format "salt too short")
          else derive passphrase salt env.params keyfile

def saltHex (k : SealKey) : String := hexEncode k.salt

/-- Whether a key belongs to an envelope. -/
def fits (k : SealKey) (env : Sealed) : Bool :=
  k.saltHex = env.salt && k.kdf = env.params && k.kf = env.kf

/-- The envelope of a ciphertext under a key. -/
def envelope (k : SealKey) (nonce ct : List UInt8) : Sealed :=
  { hke := 1, kdf := "argon2id", mKib := k.kdf.mKib, t := k.kdf.t, p := k.kdf.p, salt := k.saltHex
    nonce := hexEncode nonce, ct := hexEncode ct, kf := k.kf }

/-- Seal under a key with a fresh nonce. -/
def sealBytes (k : SealKey) (nonce : List UInt8) (plaintext : ByteArray) :
    Except SealError Sealed :=
  match encrypt k.key nonce AAD plaintext with
  | none => .error .cipher
  | some ct => .ok (k.envelope nonce ct)

def sealToJson (k : SealKey) (nonce : List UInt8) (plaintext : String) : Except SealError String :=
  (k.sealBytes nonce plaintext.toUTF8).map toJson

/-- Open an envelope that was sealed under a key. -/
def openSealed (k : SealKey) (env : Sealed) : Except SealError ByteArray :=
  if k.fits env = false then
    .error (.format "this key was derived for a different envelope (salt/params/key file)")
  else
    match hexDecode env.nonce, hexDecode env.ct with
    | .error e, _ => .error (.format e)
    | _, .error e => .error (.format e)
    | .ok nonce, .ok ct =>
      if nonce.length ≠ 24 then .error (.format "nonce must be 24 bytes")
      else
        match decrypt k.key nonce AAD ct with
        | none => .error .cipher
        | some bytes => .ok bytes

end SealKey

/-- What sealing relies on: an envelope reads back and is known by its text; the cipher opens what
it sealed, and no ciphertext under two keys; two passphrases derive two keys under one salt, and
stay two after the same or another key file is mixed in. -/
class LawfulSeal : Prop where
  fromJson_toJson (env : Sealed) : fromJson (toJson env) = .ok env
  isSealed_toJson (env : Sealed) : isSealed (toJson env) = true
  decrypt_encrypt {key nonce : List UInt8} {aad : String} {msg : ByteArray} {ct : List UInt8} :
    encrypt key nonce aad msg = some ct → decrypt key nonce aad ct = some msg
  wrong_key {key key' nonce : List UInt8} {aad : String} {msg msg' : ByteArray} {ct : List UInt8} :
    decrypt key nonce aad ct = some msg → decrypt key' nonce aad ct = some msg' → key = key'
  argon2id_injective {p p' : String} {salt : List UInt8} {kdf : Kdf} {key : List UInt8} :
    argon2id p salt kdf = .ok key → argon2id p' salt kdf = .ok key → p = p'
  mix_injective {key key' kfb kfb' : List UInt8} :
    shake256 "hk/v1/sealed-keyfile-mix" [key, kfb] = shake256 "hk/v1/sealed-keyfile-mix" [key',
      kfb'] →
      key = key'

end Keys

/-! ## What a key opens -/

namespace SealKey

variable {k k' : SealKey} {env : Sealed}

lemma fits_iff : k.fits env = true ↔ k.saltHex = env.salt ∧ k.kdf = env.params ∧ k.kf = env.kf := by
  simp [fits, and_assoc]

lemma fits_envelope (nonce ct : List UInt8) : k.fits (k.envelope nonce ct) = true :=
  fits_iff.mpr ⟨rfl, rfl, rfl⟩

variable [SealSuite] {p p' : String} {f f' : Option (List UInt8)} {m m' : ByteArray}

/-- A derived key carries what it was derived from. -/
lemma derive_ok {salt : List UInt8} {kdf : Kdf} (h : derive p salt kdf f = .ok k) :
    k.salt = salt ∧ k.kdf = kdf ∧ k.kf = f.map keyfileId := by
  rw [derive] at h
  split at h
  · cases h
  · cases h
    cases f <;> exact ⟨rfl, rfl, rfl⟩

lemma new_ok {kdf : Kdf} {salt : List UInt8} (h : new p f kdf salt = .ok k) :
    p ≠ "" ∧ k.salt = salt ∧ k.kdf = kdf ∧ derive p k.salt k.kdf f = .ok k := by
  rw [new] at h
  split_ifs at h with hp
  obtain ⟨rfl, rfl, -⟩ := derive_ok h
  exact ⟨hp, rfl, rfl, h⟩

lemma checkKeyfile_ok_iff {want : Option String} :
    checkKeyfile f want = .ok () ↔ ∀ id ∈ want, f.map keyfileId = some id := by
  cases want with
  | none => simp [checkKeyfile]
  | some id =>
    cases f with
    | none => simp [checkKeyfile]
    | some kfb => simp [checkKeyfile]

/-- The key of an envelope is derived with what the envelope carries. -/
lemma forEnvelope_ok (h : forEnvelope env p f = .ok k) :
    env.params.InRange ∧ p ≠ "" ∧ 8 ≤ k.salt.length ∧ hexDecode env.salt = .ok k.salt ∧
      k.kdf = env.params ∧ derive p k.salt k.kdf f = .ok k := by
  rw [forEnvelope] at h
  by_cases hhke : env.hke ≠ 1 ∨ env.kdf ≠ "argon2id"
  · rw [if_pos hhke] at h
    cases h
  by_cases hrange : env.params.InRange
  · rw [if_neg hhke, if_neg (not_not.mpr hrange)] at h
    split at h
    · cases h
    · split at h
      · cases h
      next hp =>
        split at h
        · cases h
        next salt hsalt =>
          split_ifs at h with hlen
          obtain ⟨rfl, hkdf, -⟩ := derive_ok h
          exact ⟨hrange, hp, not_lt.mp hlen, hsalt, hkdf, hkdf ▸ h⟩
  · rw [if_neg hhke, if_pos hrange] at h
    cases h

/-- An envelope that carries what a key was derived from has that key, as long as its parameters are
in range. -/
lemma forEnvelope_of_fits (hfits : k.fits env = true) (hhke : env.hke = 1)
    (hkdf : env.kdf = "argon2id")
    (hrange : k.kdf.InRange) (hp : p ≠ "") (hlen : 8 ≤ k.salt.length)
    (hk : derive p k.salt k.kdf f = .ok k) : forEnvelope env p f = .ok k := by
  obtain ⟨hsalt, hparams, hkf⟩ := fits_iff.mp hfits
  have hcheck : checkKeyfile f env.kf = .ok () := by
    rw [checkKeyfile_ok_iff, ← hkf, (derive_ok hk).2.2]
    exact fun _ h => h
  have hdecode : hexDecode env.salt = .ok k.salt := by
    rw [← hsalt, saltHex, hexDecode_hexEncode]
  rw [forEnvelope, if_neg (by simp [hhke, hkdf]), ← hparams, if_neg (not_not.mpr hrange), hcheck]
  simp only [hp, if_false, hdecode, not_lt.mpr hlen, hk]

/-- What opens has the salt, the parameters and the key file of the key. -/
lemma openSealed_ok (h : k.openSealed env = .ok m) :
    k.fits env = true ∧ ∃ nonce ct, hexDecode env.nonce = .ok nonce ∧ hexDecode env.ct = .ok ct ∧
      nonce.length = 24 ∧ decrypt k.key nonce AAD ct = some m := by
  rw [openSealed] at h
  split_ifs at h with hfits
  split at h
  · cases h
  · cases h
  · next nonce ct hnonce hct =>
    split_ifs at h with hlen
    split at h
    · cases h
    · next bytes hbytes =>
      cases h
      exact ⟨by simpa using hfits, nonce, ct, hnonce, hct, not_not.mp hlen, hbytes⟩

lemma openSealed_of_decrypt {nonce ct : List UInt8} (hfits : k.fits env = true)
    (hnonce : hexDecode env.nonce = .ok nonce) (hct : hexDecode env.ct = .ok ct)
    (hlen : nonce.length = 24) (hdec : decrypt k.key nonce AAD ct = some m) :
    k.openSealed env = .ok m := by
  rw [openSealed, if_neg (by simp [hfits])]
  simp only [hnonce, hct, hlen, ne_eq, not_true_eq_false, if_false, hdec]

/-- Another key with the same bytes opens what the key opens. -/
lemma openSealed_of_key_eq (h : k.openSealed env = .ok m) (hkey : k'.key = k.key)
    (hfits : k'.fits env = true) : k'.openSealed env = .ok m := by
  obtain ⟨-, nonce, ct, hnonce, hct, hlen, hdec⟩ := openSealed_ok h
  exact openSealed_of_decrypt hfits hnonce hct hlen (hkey ▸ hdec)

variable [LawfulSeal]

/-- A key opens what it sealed. -/
lemma openSealed_envelope {nonce ct : List UInt8} (hct : encrypt k.key nonce AAD m = some ct)
    (hlen : nonce.length = 24) : k.openSealed (k.envelope nonce ct) = .ok m :=
  openSealed_of_decrypt (fits_envelope nonce ct) (hexDecode_hexEncode nonce)
    (hexDecode_hexEncode ct) hlen
    (LawfulSeal.decrypt_encrypt hct)

/-- Two keys that open one envelope are the same bytes. -/
lemma key_eq_of_openSealed (h : k.openSealed env = .ok m) (h' : k'.openSealed env = .ok m') :
    k.key = k'.key := by
  obtain ⟨-, nonce, ct, hnonce, hct, -, hdec⟩ := openSealed_ok h
  obtain ⟨-, nonce', ct', hnonce', hct', -, hdec'⟩ := openSealed_ok h'
  cases hnonce.symm.trans hnonce'
  cases hct.symm.trans hct'
  exact LawfulSeal.wrong_key hdec hdec'

/-- An envelope has one content, whichever key opens it. -/
lemma openSealed_unique (h : k.openSealed env = .ok m) (h' : k'.openSealed env = .ok m') :
    m = m' := by
  have hsame := openSealed_of_key_eq h (key_eq_of_openSealed h h').symm (openSealed_ok h').1
  exact Except.ok.inj (hsame.symm.trans h')

/-- Keys of the same bytes, derived under one salt with one choice of a key file or none, come from
one passphrase. -/
lemma passphrase_eq_of_key_eq {salt : List UInt8} {kdf : Kdf} (h : derive p salt kdf f = .ok k)
    (h' : derive p' salt kdf f' = .ok k') (hkf : k.kf = k'.kf) (hkey : k.key = k'.key) :
    p = p' := by
  have hfs : f.map keyfileId = f'.map keyfileId := by
    rw [← (derive_ok h).2.2, ← (derive_ok h').2.2, hkf]
  rw [derive] at h h'
  split at h
  · cases h
  next key hkey₁ =>
    split at h'
    · cases h'
    next key' hkey₂ =>
      cases h
      cases h'
      refine LawfulSeal.argon2id_injective hkey₁ (hkey₂.trans (congrArg _ ?_))
      cases f with
      | none =>
        cases f' with
        | none => exact hkey.symm
        | some kfb' => simp at hfs
      | some kfb =>
        cases f' with
        | none => simp at hfs
        | some kfb' => exact (LawfulSeal.mix_injective hkey).symm

end SealKey

/-! ## A lawful suite

Keys are passphrases, a ciphertext carries its key, and an envelope is written field after field.
It hides nothing, and everything that sealing relies on holds of it. -/

namespace Concrete

section Escaping

variable {α : Type} [DecidableEq α]

/-- Every element behind a mark, and a stop after the last one. -/
def escape (mark stop : α) (l : List α) : List α := l.flatMap (fun x => [mark, x]) ++ [stop]

/-- Read an escaped list, and what follows it. -/
def unescape (mark : α) : List α → Option (List α × List α)
  | [] => none
  | [x] => if x = mark then none else some ([], [])
  | x :: y :: rest =>
    if x = mark then (unescape mark rest).map fun r => (y :: r.1, r.2) else some ([], y :: rest)

lemma unescape_escape {mark stop : α} (hstop : stop ≠ mark) (l rest : List α) :
    unescape mark (escape mark stop l ++ rest) = some (l, rest) := by
  induction l with
  | nil => cases rest <;> simp [escape, unescape, hstop]
  | cons x l ih =>
    have hsplit : escape mark stop (x :: l) ++ rest = mark :: x ::
      (escape mark stop l ++ rest) := by
      simp [escape]
    rw [hsplit, unescape, if_pos rfl, ih]
    rfl

end Escaping

/-- A field of an envelope. -/
def fieldText (s : List Char) : List Char := escape '.' ',' s

/-- A number as a field. -/
def numberText (n : ℕ) : List Char := fieldText (List.replicate n '1')

lemma unescape_fieldText (s rest : List Char) : unescape '.' (fieldText s ++ rest) = some (s,
    rest) :=
  unescape_escape (by decide) s rest

/-- The fields of an envelope one after the other. -/
def envelopeText (env : Sealed) : List Char :=
  numberText env.hke ++ (fieldText env.kdf.toList ++ (numberText env.mKib ++ (numberText env.t ++
    (numberText env.p ++ (fieldText env.salt.toList ++ (fieldText env.nonce.toList ++
      (fieldText env.ct.toList ++ fieldText (env.kf.elim [] fun id => '=' :: id.toList))))))))

/-- Read the fields of an envelope. -/
def readEnvelope (t : List Char) : Option Sealed := do
  let (hke, t) ← unescape '.' t
  let (kdf, t) ← unescape '.' t
  let (mKib, t) ← unescape '.' t
  let (passes, t) ← unescape '.' t
  let (lanes, t) ← unescape '.' t
  let (salt, t) ← unescape '.' t
  let (nonce, t) ← unescape '.' t
  let (ct, t) ← unescape '.' t
  let (kf, _) ← unescape '.' t
  pure { hke := hke.length, kdf := .ofList kdf, mKib := mKib.length, t := passes.length
         p := lanes.length, salt := .ofList salt, nonce := .ofList nonce, ct := .ofList ct
         kf := if kf = [] then none else some (.ofList kf.tail) }

lemma readEnvelope_envelopeText (env : Sealed) : readEnvelope (envelopeText env) = some env := by
  have hlast := unescape_fieldText (env.kf.elim [] fun id => '=' :: id.toList) []
  rw [List.append_nil] at hlast
  simp only [readEnvelope, envelopeText, numberText, unescape_fieldText, hlast, Option.bind_eq_bind,
    Option.bind_some, List.length_replicate, String.ofList_toList, Option.pure_def]
  obtain ⟨_, _, _, _, _, _, _, _, kf⟩ := env
  cases kf <;> simp

/-- What an envelope starts with. -/
def envelopeHead : List Char := '\x7b' :: hkeMark

/-- The suite that hides nothing. -/
instance (priority := low) openSuite : SealSuite where
  argon2id p _ _ := .ok p.toUTF8.data.toList
  shake256 _ parts := parts.flatMap (escape 1 0)
  encrypt key _ _ msg := some (escape 1 0 key ++ msg.data.toList)
  decrypt key _ _ ct :=
    match unescape 1 ct with
    | some (key', rest) => if key' = key then some ⟨rest.toArray⟩ else none
    | none => none
  toJson env := .ofList (envelopeHead ++ envelopeText env)
  fromJson s :=
    if envelopeHead <+: s.toList then
      match readEnvelope (s.toList.drop envelopeHead.length) with
      | some env => .ok env
      | none => .error "not an envelope"
    else .error "not an envelope"

lemma isSealed_of_head (t : List Char) : isSealed (.ofList (envelopeHead ++ t)) = true := by
  have hhead : ((envelopeHead ++ t).dropWhile Foundations.isWhitespace) = envelopeHead ++ t := rfl
  have hmark : hkeMark <:+: envelopeHead ++ t := ⟨['\x7b'], t, rfl⟩
  rw [isSealed, String.toList_ofList, hhead]
  exact Bool.and_eq_true_iff.mpr ⟨rfl, decide_eq_true hmark⟩

instance lawful_openSuite : @LawfulSeal openSuite where
  fromJson_toJson env := by
    change (if envelopeHead <+: (String.ofList (envelopeHead ++ envelopeText env)).toList then
      match readEnvelope ((String.ofList (envelopeHead ++ envelopeText env)).toList.drop
        envelopeHead.length) with
      | some env => .ok env
      | none => .error "not an envelope"
      else .error "not an envelope" : Except String Sealed) = .ok env
    rw [String.toList_ofList, if_pos (List.prefix_append _ _), List.drop_left,
      readEnvelope_envelopeText]
  isSealed_toJson env := isSealed_of_head (envelopeText env)
  decrypt_encrypt {key _ _ msg ct} h := by
    obtain rfl : escape 1 0 key ++ msg.data.toList = ct := Option.some.inj h
    change (match unescape 1 (escape 1 0 key ++ msg.data.toList) with
      | some (key', rest) => if key' = key then some (ByteArray.mk rest.toArray) else none
      | none => none) = some msg
    rw [unescape_escape (by decide)]
    simp
  wrong_key {key key' _ _ msg msg' ct} h h' := by
    change (match unescape 1 ct with
      | some (k, rest) => if k = key then some (ByteArray.mk rest.toArray) else none
      | none => none) = some msg at h
    change (match unescape 1 ct with
      | some (k, rest) => if k = key' then some (ByteArray.mk rest.toArray) else none
      | none => none) = some msg' at h'
    cases hct : unescape (1 : UInt8) ct with
    | none =>
      rw [hct] at h
      cases h
    | some r =>
      simp only [hct] at h h'
      split_ifs at h h' with hkey hkey'
      exact hkey.symm.trans hkey'
  argon2id_injective {p p' _ _ key} h h' := by
    have hbytes : p.toUTF8.data.toList = p'.toUTF8.data.toList :=
      (Except.ok.inj h).trans (Except.ok.inj h').symm
    exact String.toByteArray_inj.mp (ByteArray.ext (Array.toList_inj.mp hbytes))
  mix_injective {key key' kfb kfb'} h := by
    have hmix : escape 1 0 key ++ (escape 1 0 kfb ++ []) = escape 1 0 key' ++
      (escape 1 0 kfb' ++ []) := h
    have hread := congrArg (unescape (1 : UInt8)) hmix
    rw [unescape_escape (by decide), unescape_escape (by decide)] at hread
    exact (Prod.mk.inj (Option.some.inj hread)).1

end Concrete

end AtRest

end HashKinetics
