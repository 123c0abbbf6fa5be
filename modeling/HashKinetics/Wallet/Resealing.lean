import HashKinetics.Wallet.Vault

/-!
# Sealing again under another passphrase

When a new passphrase is set the vault starts over with one key, the primary one.  A plain file is
sealed under it; a file that was sealed keeps its salt and its parameters, and its key is derived
again from the new passphrase.  The session reads all that it seals, and a vault from before reads
of it only what lies under keys that it has, or derives, itself.
-/

namespace HashKinetics

open Foundations

namespace AtRest

/-! ## Sessions of one passphrase -/

section Sessions

variable [SealSuite] {p : String} {f : Option (List UInt8)} {main k : SealKey} {v v' : Vault}
  {env : Sealed} {raw text new : String}

/-- A key of the session: the primary one, or one with which an envelope was found. -/
structure KeyOfSession (p : String) (f : Option (List UInt8)) (main k : SealKey) : Prop where
  derived : SealKey.derive p k.salt k.kdf f = .ok k
  main_or : k = main ∨ k.saltHex ≠ main.saltHex ∧ k.kdf.InRange ∧ 8 ≤ k.salt.length

/-- The vault has a passphrase with its primary key, and all its keys are of that session. -/
structure Session (p : String) (f : Option (List UInt8)) (main : SealKey) (v : Vault) : Prop where
  passphrase : v.passphrase = some p
  keyfile : v.keyfile = f
  primary : v.primary = some main.saltHex
  kept : v.keys[main.saltHex]? = some main
  keys : ∀ salt k, v.keys[salt]? = some k → k.saltHex = salt ∧ KeyOfSession p f main k

/-- The session that a new passphrase starts. -/
lemma session_fresh (v : Vault) (hmain : SealKey.derive p main.salt main.kdf f = .ok main)
    (hf : v.keyfile = f) :
    Session p f main ({ v.clear with
      passphrase := some p
      primary := some main.saltHex }.keep main) := by
  have hget : ∀ salt, ({ v.clear with passphrase := some p, primary := some main.saltHex }.keep
      main).keys[salt]? = if main.saltHex = salt then some main else none := by
    intro salt
    simp [Vault.keep, Vault.clear, Vault.default, OrderedMap.get_insert]
  refine ⟨rfl, hf, rfl, by rw [hget, if_pos rfl], fun salt k hk => ?_⟩
  rw [hget] at hk
  split at hk
  next hsalt =>
    cases hk
    exact ⟨hsalt, hmain, .inl rfl⟩
  next => cases hk

/-- A session may find one more key. -/
lemma Session.adds (h : Session p f main v) (hadds : v.Adds k v') (hk : KeyOfSession p f main k) :
    Session p f main v' := by
  refine ⟨hadds.passphrase.trans h.passphrase, hadds.keyfile.trans h.keyfile,
    hadds.primary _ h.primary, ?_, fun salt k' hk' => ?_⟩
  · rw [hadds.keys, OrderedMap.get_insert]
    rcases hk.main_or with rfl | ⟨hsalt, -⟩
    · rw [if_pos rfl]
    · rw [if_neg hsalt, h.kept]
  · rw [hadds.keys, OrderedMap.get_insert] at hk'
    split at hk'
    next hsalt =>
      cases hk'
      exact ⟨hsalt, hk⟩
    next => exact h.keys salt k' hk'

/-- Away from the primary salt, a session has for an envelope what the envelope itself gives. -/
lemma Session.keyOf_eq (h : Session p f main v) (hp : p ≠ "") (hhke : env.hke = 1)
    (hkdf : env.kdf = "argon2id") (hsalt : env.salt ≠ main.saltHex) :
    v.keyOf env = (SealKey.forEnvelope env p f).mapError SealError.text := by
  rw [Vault.keyOf]
  cases hget : (v.keys[env.salt]?).filter fun k => k.fits env with
  | none => simp only [h.passphrase, h.keyfile]
  | some k =>
    obtain ⟨hk, hfits⟩ := Option.filter_eq_some_iff.mp hget
    obtain ⟨hkey, hderived, hmain⟩ := h.keys _ _ hk
    rcases hmain with rfl | ⟨-, hrange, hlen⟩
    · exact absurd hkey.symm hsalt
    · rw [SealKey.forEnvelope_of_fits hfits hhke hkdf hrange hp hlen hderived]
      rfl

/-- A session has the key of an envelope that one of its keys sealed. -/
lemma Session.keyOf_envelope (h : Session p f main v) (hp : p ≠ "") (hk : KeyOfSession p f main k)
    (nonce ct : List UInt8) : v.keyOf (k.envelope nonce ct) = .ok k := by
  rcases hk.main_or with rfl | ⟨hsalt, hrange, hlen⟩
  · exact Vault.keyOf_of_kept h.kept (SealKey.fits_envelope nonce ct)
  · rw [h.keyOf_eq hp rfl rfl hsalt,
      SealKey.forEnvelope_of_fits (SealKey.fits_envelope nonce ct) rfl rfl hrange hp hlen
        hk.derived]
    rfl

omit [SealSuite] in
/-- Renaming the errors changes no value. -/
lemma ok_of_mapError {ε ε' α : Type} {g : ε → ε'} {x : Except ε α} {a : α}
    (h : x.mapError g = .ok a) : x = .ok a := by
  cases x with
  | error e => cases h
  | ok b => exact congrArg _ (Except.ok.inj h)

/-- The key of an envelope has its salt, where the salt is written as this program writes it. -/
lemma saltHex_of_forEnvelope {salt : List UInt8} (hk : SealKey.forEnvelope env p f = .ok k)
    (hsalt : env.salt = hexEncode salt) : k.saltHex = env.salt := by
  obtain ⟨-, -, -, hdecode, -⟩ := SealKey.forEnvelope_ok hk
  rw [hsalt, hexDecode_hexEncode] at hdecode
  rw [SealKey.saltHex, ← Except.ok.inj hdecode, ← hsalt]

/-- The key under which a file is sealed again: that of its envelope under the new passphrase, or
the primary one. -/
def rekey (p : String) (f : Option (List UInt8)) (main : SealKey) (raw : String) :
    Except String SealKey :=
  if isSealed raw then
    match fromJson raw with
    | .error e => .error e
    | .ok env => (SealKey.forEnvelope env p f).mapError SealError.text
  else .ok main

/-- An envelope as this program writes them, not under the primary salt of the session. -/
def Genuine (main : SealKey) (raw : String) : Prop :=
  isSealed raw = true → ∃ env salt, fromJson raw = .ok env ∧ env.hke = 1 ∧ env.kdf = "argon2id" ∧
    env.salt = hexEncode salt ∧ env.salt ≠ main.saltHex

/-- A file is sealed again under a key of the session. -/
lemma keyOfSession_rekey (hraw : Genuine main raw)
    (hmain : SealKey.derive p main.salt main.kdf f = .ok main) (hk : rekey p f main raw = .ok k) :
    KeyOfSession p f main k := by
  rw [rekey] at hk
  split at hk
  next hsealed =>
    obtain ⟨env, salt, henv, -, -, hsalt, hne⟩ := hraw hsealed
    rw [henv] at hk
    have hfor := ok_of_mapError hk
    obtain ⟨hrange, -, hlen, -, hkdf, hderived⟩ := SealKey.forEnvelope_ok hfor
    refine ⟨hderived, .inr ⟨?_, hkdf ▸ hrange, hlen⟩⟩
    rwa [saltHex_of_forEnvelope hfor hsalt]
  next =>
    cases hk
    exact ⟨hmain, .inl rfl⟩

/-- Without an envelope on disk, the salt is the vault's own. -/
lemma Vault.sealingSalt_of_plain {existing : Option String} (h : existing.filter isSealed = none)
    (e : SealEnv) (p : String) (salt : Bytes 16) (v : Vault) :
    Vault.sealingSalt e p existing salt v =
      (match v.primary with
        | some salt => pure salt
        | none => do
          let key ← .ofExcept SealError.text (SealKey.new p v.keyfile (v.profileOf e) salt.1)
          .modify fun v => { v with primary := some key.saltHex }.keep key
          pure key.saltHex : Exec Vault String String) v := by
  rw [Vault.sealingSalt, h]
  rfl

/-- With a passphrase, the text is sealed. -/
lemma Vault.encode_apply (e : SealEnv) (existing : Option String) (text : String) (salt : Bytes 16)
    (nonce : Bytes 24) (v : Vault) :
    Vault.encode e existing text salt nonce v =
      (match v.passphrase with
        | none => pure text
        | some p => do
          let salt ← Vault.sealingSalt e p existing salt
          let v ← Exec.get
          let key ← .unwrap v.keys[salt]?
          .ofExcept SealError.text (key.sealToJson nonce.1 text) : Exec Vault String String) v :=
  rfl

/-- The salt under which a file is sealed again, in a session. -/
lemma Session.sealingSalt_run (h : Session p f main v) (hp : p ≠ "") (hraw : Genuine main raw)
    (hmain : SealKey.derive p main.salt main.kdf f = .ok main) (e : SealEnv) (salt : Bytes 16) :
    (∃ k v', rekey p f main raw = .ok k ∧ Session p f main v' ∧ v'.keys[k.saltHex]? = some k ∧
      Vault.sealingSalt e p (some raw) salt v = (.ok k.saltHex, v')) ∨
    ∃ e', rekey p f main raw = .error e' ∧ Vault.sealingSalt e p (some raw) salt v = (.err e',
      v) := by
  by_cases hsealed : isSealed raw = true
  · obtain ⟨env, text, henv, hhke, hkdf, hsalt, hne⟩ := hraw hsealed
    have hrekey : rekey p f main raw = v.keyOf env := by
      rw [rekey, if_pos hsealed, henv, h.keyOf_eq hp hhke hkdf hne]
    have hrun : Vault.sealingSalt e p (some raw) salt v =
        (Vault.keyFor env >>= fun _ => pure env.salt) v := by
      rw [Vault.sealingSalt, Option.filter_some, if_pos hsealed]
      change Exec.bind (Exec.ofExcept id (fromJson raw)) _ v = _
      rw [henv]
      rfl
    rw [hrun, hrekey]
    rcases v.keyFor_run env with ⟨k, v', hk, hadds, hfor⟩ | ⟨e', he', hfor⟩
    · have hkey : KeyOfSession p f main k := keyOfSession_rekey hraw hmain (hrekey.trans hk)
      have hsaltk : k.saltHex = env.salt := by
        rw [h.keyOf_eq hp hhke hkdf hne] at hk
        exact saltHex_of_forEnvelope (ok_of_mapError hk) hsalt
      refine .inl ⟨k, v', hk, h.adds hadds hkey, ?_, ?_⟩
      · rw [hadds.keys, OrderedMap.get_insert, if_pos rfl]
      · change Exec.bind _ _ v = _
        rw [Exec.bind, hfor, hsaltk]
        rfl
    · refine .inr ⟨e', he', ?_⟩
      change Exec.bind _ _ v = _
      rw [Exec.bind, hfor]
  · refine .inl ⟨main, v, ?_, h, h.kept, ?_⟩
    · rw [rekey, if_neg hsealed]
    · have hplain : (some raw).filter isSealed = none := by
        rw [Option.filter_some, if_neg hsealed]
      rw [Vault.sealingSalt_of_plain hplain, h.primary]
      rfl

/-- The text of a file that is sealed again, with its key. -/
def reseal (p : String) (f : Option (List UInt8)) (main : SealKey) (raw text : String)
    (nonce : Bytes 24) : Except String (SealKey × String) :=
  match rekey p f main raw with
  | .error e => .error e
  | .ok k =>
    match k.sealToJson nonce.1 text with
    | .error e => .error e.text
    | .ok new => .ok (k, new)

/-- In a session a file is encoded as it is sealed again. -/
lemma Session.encode_run (h : Session p f main v) (hp : p ≠ "") (hraw : Genuine main raw)
    (hmain : SealKey.derive p main.salt main.kdf f = .ok main) (e : SealEnv) (text : String)
    (salt : Bytes 16) (nonce : Bytes 24) :
    ∃ v', Session p f main v' ∧ Vault.encode e (some raw) text salt nonce v =
      (match reseal p f main raw text nonce with
        | .error e => .err e
        | .ok (_, new) => .ok new, v') := by
  have hrun : Vault.encode e (some raw) text salt nonce v =
      (Vault.sealingSalt e p (some raw) salt >>= fun salt => do
        let v ← Exec.get
        let key ← .unwrap v.keys[salt]?
        .ofExcept SealError.text (key.sealToJson nonce.1 text)) v := by
    rw [Vault.encode_apply, h.passphrase]
  rw [hrun, reseal]
  change ∃ v', _ ∧ Exec.bind _ _ v = _
  rcases h.sealingSalt_run hp hraw hmain e salt with ⟨k, v', hk, hv', hkept, hsalt⟩ | ⟨e', he',
    hsalt⟩
  · refine ⟨v', hv', ?_⟩
    rw [Exec.bind, hsalt, hk]
    change Exec.bind (Exec.unwrap v'.keys[k.saltHex]?) _ v' = _
    rw [hkept]
    change Exec.ofExcept SealError.text (k.sealToJson nonce.1 text) v' = _
    dsimp only
    cases k.sealToJson nonce.1 text <;> rfl
  · refine ⟨v, h, ?_⟩
    rw [Exec.bind, hsalt, he']

/-! ## What a vault reads of a file that was sealed again -/

lemma sealToJson_ok {nonce : Bytes 24} (h : k.sealToJson nonce.1 text = .ok new) :
    ∃ ct, encrypt k.key nonce.1 AAD text.toUTF8 = some ct ∧
      new = toJson (k.envelope nonce.1 ct) := by
  rw [SealKey.sealToJson, SealKey.sealBytes] at h
  cases hct : encrypt k.key nonce.1 AAD text.toUTF8 with
  | none =>
    rw [hct] at h
    cases h
  | some ct =>
    rw [hct] at h
    cases h
    exact ⟨ct, rfl, rfl⟩

omit [SealSuite] in
lemma fromUTF8_toUTF8 (text : String) : String.fromUTF8? text.toUTF8 = some text := by
  have hvalid : text.toUTF8.IsValidUTF8 := text.isValidUTF8
  rw [String.fromUTF8?, dif_pos hvalid]
  rfl

variable [LawfulSeal]

/-- The session reads what one of its keys sealed. -/
lemma Session.shows (h : Session p f main v) (hp : p ≠ "") (hk : KeyOfSession p f main k)
    {nonce : Bytes 24} (hseal : k.sealToJson nonce.1 text = .ok new) : v.Shows new text := by
  obtain ⟨ct, hct, rfl⟩ := sealToJson_ok hseal
  rw [Vault.shows_of_sealed (LawfulSeal.isSealed_toJson _)]
  refine ⟨by rw [h.passphrase]; simp, k.envelope nonce.1 ct, k, text.toUTF8,
    LawfulSeal.fromJson_toJson _, h.keyOf_envelope hp hk nonce.1 ct, ?_, fromUTF8_toUTF8 text⟩
  exact SealKey.openSealed_envelope hct nonce.2

/-- A vault has, or derives, the bytes of a key of the passphrase `p`: it keeps them under the salt
with the same parameters and key file, or it keeps none such and the parameters are ones that it
accepts. -/
def Reopens (v : Vault) (p : String) (k : SealKey) : Prop :=
  v.passphrase = some p ∧
    ((∃ k', v.keys[k.saltHex]? = some k' ∧ k'.kdf = k.kdf ∧ k'.kf = k.kf ∧ k'.key = k.key) ∨
      (∀ k', v.keys[k.saltHex]? = some k' → ¬ (k'.kdf = k.kdf ∧ k'.kf = k.kf)) ∧ k.kdf.InRange)

/-- A vault reads what was sealed under a new passphrase exactly when it has the key already. -/
lemma shows_iff_reopens (hv : v.Coherent) (hp : p ≠ "")
    (hk : SealKey.derive p k.salt k.kdf v.keyfile = .ok k) (hlen : 8 ≤ k.salt.length)
    {nonce : Bytes 24} (hseal : k.sealToJson nonce.1 text = .ok new) :
    (∃ t, v.Shows new t) ↔ Reopens v p k := by
  obtain ⟨ct, hct, rfl⟩ := sealToJson_ok hseal
  have hopen := SealKey.openSealed_envelope hct nonce.2
  have hfits := SealKey.fits_envelope (k := k) nonce.1 ct
  simp only [Vault.shows_of_sealed (LawfulSeal.isSealed_toJson _)]
  constructor
  · rintro ⟨t, -, env, k', bytes, henv, hkey, hopen', -⟩
    obtain rfl := Except.ok.inj ((LawfulSeal.fromJson_toJson _).symm.trans henv)
    have hbytes := SealKey.key_eq_of_openSealed hopen' hopen
    obtain ⟨hsalt, hkdf, hkf⟩ := SealKey.fits_iff.mp (SealKey.openSealed_ok hopen').1
    obtain ⟨p', f', hpass, hderived⟩ := hv.keyOf hkey
    have hsame : k'.salt = k.salt := hexEncode_injective hsalt
    rw [hsame, hkdf] at hderived
    obtain rfl := SealKey.passphrase_eq_of_key_eq hderived hk hkf hbytes
    refine ⟨hpass, ?_⟩
    rw [Vault.keyOf] at hkey
    cases hget : (v.keys[(k.envelope nonce.1 ct).salt]?).filter fun k' =>
        k'.fits (k.envelope nonce.1 ct) with
    | some k₁ =>
      rw [hget] at hkey
      cases hkey
      exact .inl ⟨k', (Option.filter_eq_some_iff.mp hget).1, hkdf, hkf, hbytes⟩
    | none =>
      rw [hget, hpass] at hkey
      refine .inr ⟨fun k₂ hk₂ hparams => ?_, (SealKey.forEnvelope_ok (ok_of_mapError hkey)).1⟩
      have hfits₂ : k₂.fits (k.envelope nonce.1 ct) = true :=
        SealKey.fits_iff.mpr ⟨(hv _ _ hk₂).1, hparams.1, hparams.2⟩
      exact Option.filter_eq_none_iff.mp hget k₂ hk₂ hfits₂
  · rintro ⟨hpass, ⟨k', hget, hkdf, hkf, hbytes⟩ | ⟨hnone, hrange⟩⟩
    · have hfits' : k'.fits (k.envelope nonce.1 ct) = true :=
        SealKey.fits_iff.mpr ⟨(hv _ _ hget).1, hkdf, hkf⟩
      exact ⟨text, by simp [hpass], _, k', text.toUTF8, LawfulSeal.fromJson_toJson _,
        Vault.keyOf_of_kept hget hfits', SealKey.openSealed_of_key_eq hopen hbytes hfits',
        fromUTF8_toUTF8 text⟩
    · refine ⟨text, by simp [hpass], _, k, text.toUTF8, LawfulSeal.fromJson_toJson _, ?_, hopen,
        fromUTF8_toUTF8 text⟩
      have hget : (v.keys[(k.envelope nonce.1 ct).salt]?).filter (fun k' =>
          k'.fits (k.envelope nonce.1 ct)) = none := by
        refine Option.filter_eq_none_iff.mpr fun k' hk' hfits' => ?_
        exact hnone k' hk' (SealKey.fits_iff.mp hfits').2
      rw [Vault.keyOf, hget, hpass]
      dsimp only
      rw [SealKey.forEnvelope_of_fits hfits rfl rfl hrange hp hlen hk]
      rfl

end Sessions

end AtRest

end HashKinetics
