import HashKinetics.Foundations.Exec
import HashKinetics.Foundations.OrderedMap
import HashKinetics.Wallet.Envelope

/-!
# The vault of a wallet

While a passphrase is set, every secret file is written sealed, under the salt of the envelope that
it replaces or under the primary key; while none is set, files are written plain.  The keys that
were derived are kept by their salts, so the vault that a call leaves behind has seen more keys than
the one before it, whether the call went well or not.
-/

namespace HashKinetics

open Foundations

namespace AtRest

/-! ## The state -/

/-- The vault of one wallet directory. -/
structure Vault where
  passphrase : Option String
  keys : OrderedMap String SealKey
  primary : Option String
  keyfile : Option (List UInt8)
  profile : Option Kdf

def DEFAULT_M_KIB : ℕ := 524288
def DEFAULT_T : ℕ := 4
def DEFAULT_P : ℕ := 4
def MIN_M_KIB : ℕ := 65536
def MIN_T : ℕ := 3

/-- What the process takes from its environment: the two overrides of the profile, and whether a
passphrase is strong enough. -/
structure SealEnv where
  mKib : Option ℕ
  t : Option ℕ
  checkStrength : String → Except String Unit

/-- The profile of new envelopes, never below the floors. -/
def SealEnv.defaultProfile (e : SealEnv) : Kdf :=
  ⟨max (e.mKib.getD DEFAULT_M_KIB) MIN_M_KIB, max (e.t.getD DEFAULT_T) MIN_T, DEFAULT_P⟩

/-- Byte strings of one length, as the operating system draws them. -/
abbrev Bytes (n : ℕ) := { l : List UInt8 // l.length = n }

namespace Vault

/-- A vault that has seen nothing. -/
def default : Vault := ⟨none, ∅, none, none, none⟩

def profileOf (e : SealEnv) (v : Vault) : Kdf := v.profile.getD e.defaultProfile

def setKeyfile (v : Vault) (bytes : Option (List UInt8)) : Vault := { v with keyfile := bytes }

def setProfile (v : Vault) (kdf : Option Kdf) : Vault := { v with profile := kdf }

/-- Forget everything but the key file and the profile. -/
def clear (v : Vault) : Vault := { default with keyfile := v.keyfile, profile := v.profile }

def restorePassphrase (v : Vault) (p : String) : Vault := { v.clear with passphrase := some p }

/-- Keep a derived key under its salt. -/
def keep (v : Vault) (key : SealKey) : Vault := { v with keys := v.keys.insert key.saltHex key }

/-- The passphrase, the key file and the profile are those of before. -/
structure SameSession (v v' : Vault) : Prop where
  passphrase : v'.passphrase = v.passphrase
  keyfile : v'.keyfile = v.keyfile
  profile : v'.profile = v.profile

lemma SameSession.refl (v : Vault) : v.SameSession v := ⟨rfl, rfl, rfl⟩

lemma SameSession.trans {v v' v'' : Vault} (h : v.SameSession v') (h' : v'.SameSession v'') :
    v.SameSession v'' :=
  ⟨h'.passphrase.trans h.passphrase, h'.keyfile.trans h.keyfile, h'.profile.trans h.profile⟩

section Calls

variable [SealSuite]

/-- Set a new passphrase: a key under a fresh salt becomes the primary one. -/
def setNewPassphrase (e : SealEnv) (p : String) (salt : Bytes 16) : Exec Vault String Unit := do
  .ofExcept id (e.checkStrength p)
  let v ← .get
  let key ← .ofExcept SealError.text (SealKey.new p v.keyfile (v.profileOf e) salt.1)
  .modify fun v => { v.clear with passphrase := some p, primary := some key.saltHex }.keep key

/-- Have the key of an envelope among the keys. -/
def keyFor (env : Sealed) : Exec Vault String Unit := do
  let v ← .get
  .when (¬ (v.keys[env.salt]?).any fun k => k.fits env) do
    let p ← .okOr v.passphrase "locked"
    let key ← .ofExcept SealError.text (SealKey.forEnvelope env p v.keyfile)
    .modify fun v => { v with primary := v.primary.or (some key.saltHex) }.keep key

/-- Read the text of a secret file; a sealed file without a passphrase has none. -/
def read (raw : String) : Exec Vault String (Option String) :=
  if isSealed raw = false then pure (some raw)
  else do
    let v ← .get
    if v.passphrase = none then pure none
    else do
      let env ← .ofExcept id (fromJson raw)
      keyFor env
      let v ← .get
      let key ← .unwrap v.keys[env.salt]?
      let bytes ← .ofExcept SealError.text (key.openSealed env)
      let text ← .okOr (String.fromUTF8? bytes) "invalid utf-8 sequence"
      pure (some text)

/-- Try a passphrase against a file; the one that opens it is that of the session. -/
def unlock (raw candidate : String) : Exec Vault String Unit :=
  if isSealed raw = false then .modify clear
  else do
    let env ← .ofExcept id (fromJson raw)
    let v ← .get
    let key ← .ofExcept SealError.text (SealKey.forEnvelope env candidate v.keyfile)
    let _ ← .ofExcept SealError.text (key.openSealed env)
    .modify fun v => { v.clear with
      passphrase := some candidate
      primary := some key.saltHex }.keep key

/-- The salt under which a file is sealed: that of the envelope it replaces, or the primary one. -/
def sealingSalt (e : SealEnv) (p : String) (existing : Option String) (salt : Bytes 16) :
    Exec Vault String String :=
  match existing.filter isSealed with
  | some raw => do
    let env ← .ofExcept id (fromJson raw)
    keyFor env
    pure env.salt
  | none => do
    let v ← .get
    match v.primary with
    | some salt => pure salt
    | none => do
      let key ← .ofExcept SealError.text (SealKey.new p v.keyfile (v.profileOf e) salt.1)
      .modify fun v => { v with primary := some key.saltHex }.keep key
      pure key.saltHex

/-- The text to put on disk. -/
def encode (e : SealEnv) (existing : Option String) (plaintext : String) (salt : Bytes 16)
    (nonce : Bytes 24) : Exec Vault String String := do
  let v ← .get
  match v.passphrase with
  | none => pure plaintext
  | some p => do
    let salt ← sealingSalt e p existing salt
    let v ← .get
    let key ← .unwrap v.keys[salt]?
    .ofExcept SealError.text (key.sealToJson nonce.1 plaintext)

/-! ## The key of an envelope -/

/-- The key that a vault keeps for an envelope, or derives for it. -/
def keyOf (v : Vault) (env : Sealed) : Except String SealKey :=
  match (v.keys[env.salt]?).filter fun k => k.fits env with
  | some k => .ok k
  | none =>
    match v.passphrase with
    | none => .error "locked"
    | some p => (SealKey.forEnvelope env p v.keyfile).mapError SealError.text

/-- A key that is kept and fits is the key of the envelope. -/
lemma keyOf_of_kept {v : Vault} {env : Sealed} {k : SealKey} (hget : v.keys[env.salt]? = some k)
    (hfits : k.fits env = true) : v.keyOf env = .ok k := by
  rw [keyOf, Option.filter_eq_some_iff.mpr ⟨hget, hfits⟩]

/-- The vault has seen one more key, and is what it was otherwise. -/
structure Adds (v : Vault) (k : SealKey) (v' : Vault) : Prop where
  keys : v'.keys = v.keys.insert k.saltHex k
  passphrase : v'.passphrase = v.passphrase
  keyfile : v'.keyfile = v.keyfile
  profile : v'.profile = v.profile
  primary : ∀ salt ∈ v.primary, v'.primary = some salt

/-- Having the key of an envelope fails where the vault has none, and otherwise adds it. -/
lemma keyFor_run (v : Vault) (env : Sealed) :
    (∃ k v', v.keyOf env = .ok k ∧ v.Adds k v' ∧ keyFor env v = (.ok (), v')) ∨
      ∃ e, v.keyOf env = .error e ∧ keyFor env v = (.err e, v) := by
  have hrun : keyFor env v = Exec.when (¬ ((v.keys[env.salt]?).any fun k => k.fits env)) (do
      let p ← .okOr v.passphrase "locked"
      let key ← .ofExcept SealError.text (SealKey.forEnvelope env p v.keyfile)
      .modify fun v => { v with primary := v.primary.or (some key.saltHex) }.keep key) v := rfl
  rw [hrun, keyOf, Exec.when]
  cases hk : (v.keys[env.salt]?).filter fun k => k.fits env with
  | some k =>
    obtain ⟨hget, hfits⟩ := Option.filter_eq_some_iff.mp hk
    refine .inl ⟨k, v, rfl, ⟨?_, rfl, rfl, rfl, fun _ h => h⟩, ?_⟩
    · rw [OrderedMap.insert_of_get]
      rw [(SealKey.fits_iff.mp hfits).1]
      exact hget
    · rw [if_neg (by simp [hget, hfits])]
  | none =>
    have hany : ¬ ((v.keys[env.salt]?).any (fun k => k.fits env) = true) := by
      intro hany
      obtain ⟨k, hget, hfits⟩ := (Option.any_eq_true _ _).mp hany
      simp [hget, hfits] at hk
    rw [if_pos hany]
    cases hp : v.passphrase with
    | none => exact .inr ⟨_, rfl, rfl⟩
    | some p =>
      cases hf : SealKey.forEnvelope env p v.keyfile with
      | error e =>
        refine .inr ⟨e.text, by simp only [hf, Except.mapError], ?_⟩
        change Exec.bind (Exec.ofExcept SealError.text (SealKey.forEnvelope env p v.keyfile)) _ v =
          _
        rw [hf]
        rfl
      | ok k =>
        refine .inl ⟨k, { v with primary := v.primary.or (some k.saltHex) }.keep k,
          by simp only [hf, Except.mapError], ⟨rfl, rfl, rfl, rfl, fun salt hsalt => ?_⟩, ?_⟩
        · simp [Option.mem_def.mp hsalt, keep]
        · change Exec.bind (Exec.ofExcept SealError.text (SealKey.forEnvelope env p v.keyfile)) _
            v = _
          rw [hf]
          rfl

/-- A passphrase that is too weak, or that no key is derived from, changes nothing. -/
lemma setNewPassphrase_err (e : SealEnv) (v : Vault) (p : String) (salt : Bytes 16) {m : String}
    (h : e.checkStrength p = .error m ∨ e.checkStrength p = .ok () ∧
      (SealKey.new p v.keyfile (v.profileOf e) salt.1).mapError SealError.text = .error m) :
    setNewPassphrase e p salt v = (.err m, v) := by
  rw [setNewPassphrase]
  change Exec.bind (Exec.ofExcept id (e.checkStrength p)) _ v = _
  rcases h with h | ⟨h, hnew⟩
  · rw [h]
    rfl
  · rw [h]
    change Exec.bind (Exec.ofExcept SealError.text (SealKey.new p v.keyfile (v.profileOf e) salt.1))
      _ v = _
    cases hkey : SealKey.new p v.keyfile (v.profileOf e) salt.1 with
    | error m' =>
      rw [hkey] at hnew
      cases hnew
      rfl
    | ok k =>
      rw [hkey] at hnew
      cases hnew

/-- A new passphrase starts over with its key. -/
lemma setNewPassphrase_ok (e : SealEnv) (v : Vault) {p : String} {salt : Bytes 16} {k : SealKey}
    (h : e.checkStrength p = .ok ())
    (hnew : SealKey.new p v.keyfile (v.profileOf e) salt.1 = .ok k) :
    setNewPassphrase e p salt v =
      (.ok (), { v.clear with passphrase := some p, primary := some k.saltHex }.keep k) := by
  rw [setNewPassphrase]
  change Exec.bind (Exec.ofExcept id (e.checkStrength p)) _ v = _
  rw [h]
  change Exec.bind (Exec.ofExcept SealError.text (SealKey.new p v.keyfile (v.profileOf e) salt.1)) _
    v = _
  rw [hnew]
  rfl

/-! ## Keys that come from the passphrase -/

/-- Every key is kept under its salt and was derived from the passphrase, with some key file or
none. -/
def Coherent (v : Vault) : Prop :=
  ∀ salt k, v.keys[salt]? = some k → k.saltHex = salt ∧
    ∃ p f, v.passphrase = some p ∧ SealKey.derive p k.salt k.kdf f = .ok k

lemma coherent_of_empty {v : Vault} (h : v.keys = ∅) : v.Coherent := by
  intro salt k hk
  simp [h] at hk

/-- A key that was derived from the passphrase may be kept. -/
lemma Coherent.adds {v v' : Vault} {k : SealKey} (h : v.Coherent) (hadds : v.Adds k v') {p : String}
    {f : Option (List UInt8)} (hp : v.passphrase = some p)
    (hk : SealKey.derive p k.salt k.kdf f = .ok k) : v'.Coherent := by
  intro salt k' hk'
  rw [hadds.keys, OrderedMap.get_insert] at hk'
  rw [hadds.passphrase]
  split at hk'
  next hsalt =>
    cases hk'
    exact ⟨hsalt, p, f, hp, hk⟩
  next => exact h salt k' hk'

/-- The key of an envelope comes from the passphrase. -/
lemma Coherent.keyOf {v : Vault} (h : v.Coherent) {env : Sealed} {k : SealKey}
    (hk : v.keyOf env = .ok k) :
    ∃ p f, v.passphrase = some p ∧ SealKey.derive p k.salt k.kdf f = .ok k := by
  rw [Vault.keyOf] at hk
  cases hget : (v.keys[env.salt]?).filter fun k => k.fits env with
  | some k' =>
    rw [hget] at hk
    cases hk
    exact (h _ _ (Option.filter_eq_some_iff.mp hget).1).2
  | none =>
    rw [hget] at hk
    cases hp : v.passphrase with
    | none =>
      rw [hp] at hk
      cases hk
    | some p =>
      rw [hp] at hk
      cases hf : SealKey.forEnvelope env p v.keyfile with
      | error e =>
        simp only [hf, Except.mapError] at hk
        cases hk
      | ok k' =>
        simp only [hf, Except.mapError] at hk
        cases hk
        exact ⟨p, v.keyfile, rfl, (SealKey.forEnvelope_ok hf).2.2.2.2.2⟩

lemma Coherent.keyFor {v : Vault} (h : v.Coherent) (env : Sealed) : (keyFor env v).2.Coherent := by
  rcases keyFor_run v env with ⟨k, v', hk, hadds, hrun⟩ | ⟨e, -, hrun⟩
  · obtain ⟨p, f, hp, hderive⟩ := h.keyOf hk
    rw [hrun]
    exact h.adds hadds hp hderive
  · rw [hrun]
    exact h

/-! ## The vaults of a running wallet -/

/-- A vault that a wallet can come to, whatever files it is shown. -/
inductive Reached (e : SealEnv) : Vault → Prop
  | default : Reached e default
  | setKeyfile {v : Vault} (bytes : Option (List UInt8)) : Reached e v →
    Reached e (v.setKeyfile bytes)
  | setProfile {v : Vault} (kdf : Option Kdf) : Reached e v → Reached e (v.setProfile kdf)
  | clear {v : Vault} : Reached e v → Reached e v.clear
  | restorePassphrase {v : Vault} (p : String) : Reached e v → Reached e (v.restorePassphrase p)
  | setNewPassphrase {v : Vault} (p : String) (salt : Bytes 16) :
      Reached e v → Reached e (Vault.setNewPassphrase e p salt v).2
  | read {v : Vault} (raw : String) : Reached e v → Reached e (Vault.read raw v).2
  | unlock {v : Vault} (raw candidate : String) : Reached e v →
    Reached e (Vault.unlock raw candidate v).2
  | encode {v : Vault} (existing : Option String) (plaintext : String) (salt : Bytes 16)
      (nonce : Bytes 24) : Reached e v →
        Reached e (Vault.encode e existing plaintext salt nonce v).2

/-- A key of the new passphrase is all that a fresh session keeps. -/
lemma coherent_fresh (v : Vault) {p : String} {f : Option (List UInt8)} {k : SealKey}
    (hk : SealKey.derive p k.salt k.kdf f = .ok k) :
    ({ v.clear with passphrase := some p, primary := some k.saltHex }.keep k).Coherent := by
  refine Coherent.adds (v := { v.clear with passphrase := some p, primary := some k.saltHex })
    (coherent_of_empty rfl) ⟨rfl, rfl, rfl, rfl, fun _ h => h⟩ rfl hk

lemma coherent_setNewPassphrase {v : Vault} (e : SealEnv) (p : String) (salt : Bytes 16)
    (h : v.Coherent) : (setNewPassphrase e p salt v).2.Coherent := by
  refine Exec.snd_bind (by rwa [Exec.reads_ofExcept]) fun _ v₁ h₁ => ?_
  obtain ⟨-, rfl⟩ := Exec.ofExcept_eq_ok.mp h₁
  refine Exec.snd_bind (by rwa [Exec.reads_get]) fun v₂ v₃ h₂ => ?_
  obtain ⟨rfl, rfl⟩ := Exec.get_eq_ok.mp h₂
  refine Exec.snd_bind (by rwa [Exec.reads_ofExcept]) fun k v₄ h₃ => ?_
  obtain ⟨hk, rfl⟩ := Exec.ofExcept_eq_ok.mp h₃
  exact coherent_fresh v (SealKey.new_ok hk).2.2.2

/-- What `read` does with the key of an envelope leaves the vault alone. -/
lemma reads_openKept (env : Sealed) : Exec.Reads (do
    let v ← Exec.get
    let key ← .unwrap v.keys[env.salt]?
    let bytes ← .ofExcept SealError.text (key.openSealed env)
    let text ← .okOr (String.fromUTF8? bytes) "invalid utf-8 sequence"
    pure (some text) : Exec Vault String (Option String)) :=
  Exec.reads_get.bind fun _ => (Exec.reads_unwrap _).bind fun _ => (Exec.reads_ofExcept _ _).bind
    fun _ => (Exec.reads_okOr _ _).bind fun _ => Exec.reads_pure _

lemma coherent_read {v : Vault} (raw : String) (h : v.Coherent) : (read raw v).2.Coherent := by
  rw [read]
  split_ifs
  · exact h
  · refine Exec.snd_bind h fun v₁ v₂ h₁ => ?_
    obtain ⟨rfl, rfl⟩ := Exec.get_eq_ok.mp h₁
    split_ifs
    · exact h
    · refine Exec.snd_bind (by rwa [Exec.reads_ofExcept]) fun env v₃ h₂ => ?_
      obtain ⟨-, rfl⟩ := Exec.ofExcept_eq_ok.mp h₂
      refine Exec.snd_bind (h.keyFor env) fun _ v₄ h₃ => ?_
      have hkept := h.keyFor env
      rw [h₃] at hkept
      rwa [reads_openKept]

lemma coherent_unlock {v : Vault} (raw candidate : String) (h : v.Coherent) :
    (unlock raw candidate v).2.Coherent := by
  rw [unlock]
  split_ifs
  · exact coherent_of_empty rfl
  · refine Exec.snd_bind (by rwa [Exec.reads_ofExcept]) fun env v₁ h₁ => ?_
    obtain ⟨-, rfl⟩ := Exec.ofExcept_eq_ok.mp h₁
    refine Exec.snd_bind h fun v₂ v₃ h₂ => ?_
    obtain ⟨rfl, rfl⟩ := Exec.get_eq_ok.mp h₂
    refine Exec.snd_bind (by rwa [Exec.reads_ofExcept]) fun k v₄ h₃ => ?_
    obtain ⟨hk, rfl⟩ := Exec.ofExcept_eq_ok.mp h₃
    refine Exec.snd_bind (by rwa [Exec.reads_ofExcept]) fun _ v₅ h₄ => ?_
    obtain ⟨-, rfl⟩ := Exec.ofExcept_eq_ok.mp h₄
    exact coherent_fresh v (SealKey.forEnvelope_ok hk).2.2.2.2.2

lemma coherent_sealingSalt {v : Vault} (e : SealEnv) {p : String} (existing : Option String)
    (salt : Bytes 16) (hp : v.passphrase = some p) (h : v.Coherent) :
    (sealingSalt e p existing salt v).2.Coherent := by
  rw [sealingSalt]
  cases existing.filter isSealed with
  | some raw =>
    refine Exec.snd_bind (by rwa [Exec.reads_ofExcept]) fun env v₁ h₁ => ?_
    obtain ⟨-, rfl⟩ := Exec.ofExcept_eq_ok.mp h₁
    refine Exec.snd_bind (h.keyFor env) fun _ v₂ h₂ => ?_
    have hkept := h.keyFor env
    rwa [h₂] at hkept
  | none =>
    refine Exec.snd_bind h fun v₁ v₂ h₁ => ?_
    obtain ⟨rfl, rfl⟩ := Exec.get_eq_ok.mp h₁
    cases hprimary : v.primary with
    | some salt => exact h
    | none =>
      refine Exec.snd_bind (by rwa [Exec.reads_ofExcept]) fun k v₃ h₂ => ?_
      obtain ⟨hk, rfl⟩ := Exec.ofExcept_eq_ok.mp h₂
      refine Coherent.adds (v := v) (k := k) h ⟨rfl, rfl, rfl, rfl, ?_⟩ hp (SealKey.new_ok hk).2.2.2
      simp [hprimary]

lemma coherent_encode {v : Vault} (e : SealEnv) (existing : Option String) (plaintext : String)
    (salt : Bytes 16) (nonce : Bytes 24) (h : v.Coherent) :
    (encode e existing plaintext salt nonce v).2.Coherent := by
  rw [encode]
  refine Exec.snd_bind h fun v₁ v₂ h₁ => ?_
  obtain ⟨rfl, rfl⟩ := Exec.get_eq_ok.mp h₁
  cases hp : v.passphrase with
  | none => exact h
  | some p =>
    have hsalt := coherent_sealingSalt e existing salt hp h
    refine Exec.snd_bind hsalt fun s v₃ h₂ => ?_
    rw [h₂] at hsalt
    refine Exec.snd_bind hsalt fun v₄ v₅ h₃ => ?_
    obtain ⟨rfl, rfl⟩ := Exec.get_eq_ok.mp h₃
    refine Exec.snd_bind (by rwa [Exec.reads_unwrap]) fun k v₆ h₄ => ?_
    obtain ⟨-, rfl⟩ := Exec.unwrap_eq_ok.mp h₄
    rwa [Exec.reads_ofExcept]

/-- The keys of a running wallet come from its passphrase. -/
lemma Reached.coherent {e : SealEnv} {v : Vault} (h : Reached e v) : v.Coherent := by
  induction h with
  | default => exact coherent_of_empty rfl
  | setKeyfile bytes _ ih => exact ih
  | setProfile kdf _ ih => exact ih
  | clear => exact coherent_of_empty rfl
  | restorePassphrase p => exact coherent_of_empty rfl
  | setNewPassphrase p salt _ ih => exact coherent_setNewPassphrase e p salt ih
  | read raw _ ih => exact coherent_read raw ih
  | unlock raw candidate _ ih => exact coherent_unlock raw candidate ih
  | encode existing plaintext salt nonce _ ih =>
    exact coherent_encode e existing plaintext salt nonce ih

/-! ## What a vault shows of a file -/

/-- The vault reads a text out of a file. -/
def Shows (v : Vault) (raw text : String) : Prop := ∃ v', read raw v = (.ok (some text), v')

/-- A plain file is its own text. -/
lemma shows_of_plain {v : Vault} {raw text : String} (h : isSealed raw = false) :
    v.Shows raw text ↔ raw = text := by
  rw [Shows, read, if_pos h]
  simp

/-- The text of a sealed file is what the key of its envelope opens. -/
lemma shows_of_sealed {v : Vault} {raw text : String} (h : isSealed raw = true) :
    v.Shows raw text ↔ v.passphrase ≠ none ∧ ∃ env k bytes, fromJson raw = .ok env ∧
      v.keyOf env = .ok k ∧ k.openSealed env = .ok bytes ∧ String.fromUTF8? bytes = some text := by
  rw [Shows, read, if_neg (by simp [h])]
  by_cases hp : v.passphrase = none
  · simp [hp]
  constructor
  · rintro ⟨v', hread⟩
    rw [Exec.get_bind_eq_ok, if_neg hp, Exec.ofExcept_bind_eq_ok] at hread
    obtain ⟨env, henv, hread⟩ := hread
    rw [Exec.bind_eq_ok] at hread
    obtain ⟨_, v₁, hfor, hread⟩ := hread
    rw [Exec.get_bind_eq_ok, Exec.unwrap_bind_eq_ok] at hread
    obtain ⟨k', hget, hread⟩ := hread
    rw [Exec.ofExcept_bind_eq_ok] at hread
    obtain ⟨bytes, hopen, hread⟩ := hread
    rw [Exec.okOr_bind_eq_ok] at hread
    obtain ⟨t, ht, hread⟩ := hread
    obtain ⟨hsome, -⟩ := Exec.pure_eq_ok.mp hread
    cases hsome
    refine ⟨hp, env, k', bytes, henv, ?_, hopen, ht⟩
    rcases keyFor_run v env with ⟨k, v₂, hk, hadds, hrun⟩ | ⟨e, -, hrun⟩
    · obtain ⟨-, rfl⟩ := Prod.mk.inj (hrun.symm.trans hfor)
      rw [hadds.keys, OrderedMap.get_insert] at hget
      split at hget
      next =>
        cases hget
        exact hk
      next hsalt =>
        -- the key under the salt of the envelope is the one that was kept, and it fits
        obtain ⟨hfits, -⟩ := SealKey.openSealed_ok hopen
        exact keyOf_of_kept hget hfits
    · rw [hrun] at hfor
      cases hfor
  · rintro ⟨-, env, k, bytes, henv, hk, hopen, ht⟩
    rcases keyFor_run v env with ⟨k', v', hk', hadds, hrun⟩ | ⟨e, he, -⟩
    · cases hk.symm.trans hk'
      have hget : v'.keys[env.salt]? = some k := by
        rw [hadds.keys, OrderedMap.get_insert,
          if_pos (SealKey.fits_iff.mp (SealKey.openSealed_ok hopen).1).1]
      refine ⟨v', ?_⟩
      rw [Exec.get_bind_eq_ok, if_neg hp, Exec.ofExcept_bind_eq_ok]
      refine ⟨env, henv, Exec.bind_eq_ok.mpr ⟨(), v', hrun, ?_⟩⟩
      rw [Exec.get_bind_eq_ok, Exec.unwrap_bind_eq_ok]
      refine ⟨k, hget, Exec.ofExcept_bind_eq_ok.mpr ⟨bytes, hopen, ?_⟩⟩
      exact Exec.okOr_bind_eq_ok.mpr ⟨text, ht, Exec.pure_eq_ok.mpr ⟨rfl, rfl⟩⟩
    · rw [he] at hk
      cases hk

/-- A file has one text, whichever vault reads it. -/
lemma Shows.unique [LawfulSeal] {v v' : Vault} {raw text text' : String} (h : v.Shows raw text)
    (h' : v'.Shows raw text') : text = text' := by
  by_cases hsealed : isSealed raw = true
  · obtain ⟨-, env, k, bytes, henv, -, hopen, ht⟩ := (shows_of_sealed hsealed).mp h
    obtain ⟨-, env', k', bytes', henv', -, hopen', ht'⟩ := (shows_of_sealed hsealed).mp h'
    cases henv.symm.trans henv'
    cases SealKey.openSealed_unique hopen hopen'
    exact Option.some.inj (ht.symm.trans ht')
  · have hplain : isSealed raw = false := by simpa using hsealed
    rw [← (shows_of_plain hplain).mp h, ← (shows_of_plain hplain).mp h']

lemma sameSession_keyFor (v : Vault) (env : Sealed) : v.SameSession (keyFor env v).2 := by
  rcases keyFor_run v env with ⟨k, v', -, hadds, hrun⟩ | ⟨e, -, hrun⟩
  · rw [hrun]
    exact ⟨hadds.passphrase, hadds.keyfile, hadds.profile⟩
  · rw [hrun]
    exact .refl v

lemma sameSession_read (v : Vault) (raw : String) : v.SameSession (read raw v).2 := by
  rw [read]
  split_ifs
  · exact .refl v
  · refine Exec.snd_bind (.refl v) fun v₁ v₂ h₁ => ?_
    obtain ⟨rfl, rfl⟩ := Exec.get_eq_ok.mp h₁
    split_ifs
    · exact .refl v
    · refine Exec.snd_bind (by rw [Exec.reads_ofExcept]; exact .refl v) fun env v₃ h₂ => ?_
      obtain ⟨-, rfl⟩ := Exec.ofExcept_eq_ok.mp h₂
      have hkept := sameSession_keyFor v env
      refine Exec.snd_bind hkept fun _ v₄ h₃ => ?_
      rw [h₃] at hkept
      rwa [reads_openKept]

end Calls

end Vault

end AtRest

end HashKinetics
