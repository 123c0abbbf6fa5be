import HashKinetics.Wallet.PagedScan
import HashKinetics.Wallet.Resealing

/-!
# Changing the passphrase

A wallet keeps two secret files.  To set or remove the passphrase it reads both, switches the vault,
and writes one after the other; when a write fails it puts the old passphrase back, and leaves on
disk whatever was already replaced.  So a call that fails is harmless as long as the old vault still
reads what it has replaced.
-/

namespace HashKinetics

open Foundations

namespace AtRest

/-! ## The two secret files -/

/-- How the content of a secret file is written and read. -/
class Serde (α : Type) where
  toText : α → String
  ofText : String → Except String α

export Serde (toText ofText)

/-- The vault and the two files of a wallet directory. -/
structure Wallet where
  vault : Vault
  account : Option String
  shield : Option String

/-- One of the two files. -/
inductive SecretFile where
  | account
  | shield

/-- The text of a file on disk. -/
def Wallet.file (w : Wallet) : SecretFile → Option String
  | .account => w.account
  | .shield => w.shield

/-- Replace a file. -/
def Wallet.setFile (w : Wallet) : SecretFile → String → Wallet
  | .account, raw => { w with account := some raw }
  | .shield, raw => { w with shield := some raw }

/-- What the operating system does in the write of one file: the bytes that it draws, and what
becomes of the file. -/
structure FileWrite where
  salt : Bytes 16
  nonce : Bytes 24
  outcome : SaveOutcome

section Operations

variable [SealSuite]

/-- A call on the vault of the wallet. -/
def vaultCall {α : Type} (x : Exec Vault String α) : Exec Wallet String α :=
  .zoom Wallet.vault (fun w v => { w with vault := v }) id x

def readSecret (raw : String) : Exec Wallet String (Option String) := vaultCall (Vault.read raw)

/-- Encode a text and replace its file. -/
def writeSecret (e : SealEnv) (file : SecretFile) (plaintext : String) (fw : FileWrite) :
    Exec Wallet String Unit := do
  let w ← .get
  let bytes ← vaultCall (Vault.encode e (w.file file) plaintext fw.salt fw.nonce)
  match fw.outcome with
  | .done => .modify fun w => w.setFile file bytes
  | .lost m => .reject m
  | .unsynced m => do
    .modify fun w => w.setFile file bytes
    .reject m

variable {A S : Type} [Serde A] [Serde S]

/-- Read and parse a file that is there; what a sealed file without a passphrase comes to is
`locked`. -/
def loadFile {α : Type} [Serde α] (file : SecretFile) (name : String)
    (locked : Exec Wallet String (Option α)) : Exec Wallet String (Option α) := do
  let w ← .get
  match w.file file with
  | none => pure none
  | some raw => do
    match ← readSecret raw with
    | some s => do
      let c ← .ofExcept (fun m => name ++ ": " ++ m) (ofText s)
      pure (some c)
    | none => locked

def loadAccount : Exec Wallet String (Option A) := loadFile .account "account.json" (pure none)

def loadShield : Exec Wallet String (Option S) :=
  loadFile .shield "shield.json" (.reject "shield.json is sealed — unlock the wallet first")

/-- A file that is there has to have a content. -/
def readPresent {α : Type} (present : Bool) (load : Exec Wallet String (Option α))
    (refusal : String) :
    Exec Wallet String (Option α) :=
  if present then do
    let c ← load
    let c ← .okOr c refusal
    pure (some c)
  else pure none

/-- Both secret files as they can be read now. -/
def readSecretFiles : Exec Wallet String (Option A × Option S) := do
  let w ← .get
  let a ← readPresent w.account.isSome loadAccount "could not read account.json (locked?)"
  let s ← readPresent w.shield.isSome loadShield "could not read shield.json (locked?)"
  pure (a, s)

def saveAccount (e : SealEnv) (a : A) (fw : FileWrite) : Exec Wallet String Unit :=
  writeSecret e .account (toText a) fw

def saveShield (e : SealEnv) (f : S) (fw : FileWrite) : Exec Wallet String Unit :=
  writeSecret e .shield (toText f) fw

/-- Save a content, where there is one, and count it. -/
def saveSome {α : Type} (save : α → Exec Wallet String Unit) (c : Option α) (n : ℕ) :
    Exec Wallet String ℕ :=
  match c with
  | some c => do
    save c
    pure (n + 1)
  | none => pure n

/-- Write what was read, the account first. -/
def writeSecretFiles (e : SealEnv) (files : Option A × Option S) (wa ws : FileWrite) :
    Exec Wallet String ℕ := do
  let n ← saveSome (fun a => saveAccount e a wa) files.1 0
  saveSome (fun f => saveShield e f ws) files.2 n

variable (A S)

/-- Set or change the passphrase. -/
def protect (e : SealEnv) (passphrase : String) (salt : Bytes 16) (wa ws : FileWrite) :
    Exec Wallet String ℕ := do
  let files : Option A × Option S ← readSecretFiles
  let w ← .get
  vaultCall (Vault.setNewPassphrase e passphrase salt)
  .onErr (writeSecretFiles e files wa ws) (.modify fun w' =>
    match w.vault.passphrase with
    | some p => { w' with vault := w'.vault.restorePassphrase p }
    | none => { w' with vault := w'.vault.clear })

/-- Remove the passphrase. -/
def unprotect (e : SealEnv) (wa ws : FileWrite) : Exec Wallet String ℕ := do
  let files : Option A × Option S ← readSecretFiles
  let w ← .get
  .modify fun w => { w with vault := w.vault.clear }
  .onErr (writeSecretFiles e files wa ws) (.modify fun w' =>
    match w.vault.passphrase with
    | some p => { w' with vault := w'.vault.restorePassphrase p }
    | none => w')

end Operations

/-! ## All or nothing -/

section Statement

variable [SealSuite] {A S : Type} [Serde A] [Serde S]

/-- A vault reads a content out of a file, or there is neither. -/
def Readable {α : Type} [Serde α] (v : Vault) : Option String → Option α → Prop
  | none, none => True
  | some raw, some c => ∃ text, v.Shows raw text ∧ ofText text = .ok c
  | _, _ => False

/-- A vault reads these contents out of the two files. -/
def Holds (v : Vault) (w : Wallet) (a : Option A) (s : Option S) : Prop :=
  Readable v w.account a ∧ Readable v w.shield s

/-- After an error the vault in force before the call reads both files, and after a success the one
in force now. -/
def AllOrNothing (w : Wallet) (r : Outcome String ℕ × Wallet) (a : Option A)
    (s : Option S) : Prop :=
  match r.1 with
  | .ok _ => Holds r.2.vault r.2 a s
  | .err _ => Holds w.vault r.2 a s
  | .fault => True

/-- What is written is read back, and no content of a secret file is an envelope. -/
class LawfulSerde (α : Type) [Serde α] : Prop where
  ofText_toText (a : α) : ofText (toText a) = .ok a
  not_envelope (a : α) : ∃ e, fromJson (toText a) = .error e

/-- How the write of a file ends: there is none, it stays and the call ends, it is replaced and the
call ends, or it is replaced and the call goes on. -/
inductive Fate where
  | absent
  | kept
  | replaced
  | done

/-- The call goes on. -/
def Fate.goes : Fate → Bool
  | .absent | .done => true
  | .kept | .replaced => false

/-- The file is replaced. -/
def Fate.replaces : Fate → Bool
  | .replaced | .done => true
  | .absent | .kept => false

/-- The fate of a file from what it would be encoded as. -/
def fate {ε β : Type} : Option (Except ε β) → SaveOutcome → Fate
  | none, _ => .absent
  | some (.error _), _ => .kept
  | some (.ok _), .done => .done
  | some (.ok _), .lost _ => .kept
  | some (.ok _), .unsynced _ => .replaced

/-- What has to hold of the two files: `okA` and `okS` of those that are replaced when the call ends
well, and `errA` and `errS` of those that are replaced when it does not. -/
def Settled (fA fS : Fate) (okA okS errA errS : Prop) : Prop :=
  if fA.goes && fS.goes then (fA.replaces → okA) ∧ (fS.replaces → okS)
  else (fA.replaces → errA) ∧ (fA.goes → fS.replaces → errS)

/-- What a file would be sealed again as. -/
def resealed {α : Type} [Serde α] (p : String) (f : Option (List UInt8)) (main : SealKey)
    (nonce : Bytes 24) : Option String → Option α → Option (Except String (SealKey × String))
  | some raw, some c => some (reseal p f main raw (toText c) nonce)
  | _, _ => none

end Statement

lemma settled_same {fA fS : Fate} {P Q : Prop} :
    Settled fA fS P Q P Q ↔ (fA.replaces → P) ∧ (fA.goes → fS.replaces → Q) := by
  rw [Settled]
  split
  next hgo =>
    rw [Bool.and_eq_true] at hgo
    simp only [hgo.1, forall_const]
  next => rfl

lemma settled_true {fA fS : Fate} {P Q : Prop} : Settled fA fS True True P Q ↔
    fA.goes && fS.goes ∨ (fA.replaces → P) ∧ (fA.goes → fS.replaces → Q) := by
  rw [Settled]
  split
  next hgo => simp only [hgo, implies_true, and_self, true_or]
  next hgo => simp only [hgo, Bool.false_eq_true, false_or]

lemma fate_map {ε β γ : Type} (g : β → γ) (plan : Option (Except ε β)) (o : SaveOutcome) :
    fate (plan.map fun r => r.map g) o = fate plan o := by
  match plan, o with
  | none, _ => rfl
  | some (.error _), _ => rfl
  | some (.ok _), .done => rfl
  | some (.ok _), .lost _ => rfl
  | some (.ok _), .unsynced _ => rfl

/-! ## Writing one file after the other -/

/-- A call on the vault of a wallet runs there. -/
lemma vaultCall_run {α : Type} {x : Exec Vault String α} {w : Wallet} {o : Outcome String α}
    {v : Vault}
    (h : x w.vault = (o, v)) : vaultCall x w = (o, { w with vault := v }) := by
  rw [vaultCall, Exec.zoom, h]
  cases o <;> rfl

/-- The text that a plan puts on disk. -/
def planned (plan : Option (Except String String)) : String := (plan.bind Except.toOption).getD ""

/-- A wallet after the planned write of a file. -/
def afterWrite (w : Wallet) (v : Vault) (file : SecretFile) (plan : Option (Except String String))
    (fw : FileWrite) : Wallet :=
  if (fate plan fw.outcome).replaces then { w with vault := v }.setFile file (planned plan)
  else { w with vault := v }

section AfterWrite

variable (w : Wallet) (v : Vault) (plan : Option (Except String String)) (fw : FileWrite)

@[simp] lemma afterWrite_vault (file : SecretFile) : (afterWrite w v file plan fw).vault = v := by
  rw [afterWrite]
  split <;> cases file <;> rfl

@[simp] lemma afterWrite_account : (afterWrite w v .account plan fw).account =
    if (fate plan fw.outcome).replaces then some (planned plan) else w.account := by
  rw [afterWrite]
  split <;> rfl

@[simp] lemma afterWrite_shield : (afterWrite w v .shield plan fw).shield =
    if (fate plan fw.outcome).replaces then some (planned plan) else w.shield := by
  rw [afterWrite]
  split <;> rfl

@[simp] lemma afterWrite_account_shield : (afterWrite w v .account plan fw).shield = w.shield := by
  rw [afterWrite]
  split <;> rfl

@[simp] lemma afterWrite_shield_account : (afterWrite w v .shield plan fw).account = w.account := by
  rw [afterWrite]
  split <;> rfl

end AfterWrite

/-- A replaced file holds the text of its plan. -/
lemma eq_planned_of_replaces {plan : Option (Except String String)} {o : SaveOutcome}
    (h : (fate plan o).replaces = true) : plan = some (.ok (planned plan)) := by
  match plan, o with
  | some (.ok new), _ => rfl
  | some (.error _), _ => cases h
  | none, _ => cases h

/-- Where the call goes on, a file that is there was replaced. -/
lemma replaces_of_goes {plan : Option (Except String String)} {o : SaveOutcome}
    (h : (fate plan o).goes = true) (hplan : plan ≠ none) : (fate plan o).replaces = true := by
  match plan, o with
  | some (.ok new), .done => rfl
  | some (.ok new), .lost _ => cases h
  | some (.ok new), .unsynced _ => cases h
  | some (.error _), _ => cases h
  | none, _ => exact absurd rfl hplan

section Writing

variable [SealSuite] {A S : Type} [Serde A] [Serde S] {e : SealEnv} {I : Vault → Prop}

/-- Whatever vault with `I` it meets, a file is encoded as planned. -/
def Encodes (I : Vault → Prop) (e : SealEnv) (fw : FileWrite) :
    Option String → Option String → Option (Except String String) → Prop
  | none, none, none => True
  | some raw, some text, some r => ∀ v, I v → ∃ v', I v' ∧
      Vault.encode e (some raw) text fw.salt fw.nonce v =
        (match r with
          | .error m => .err m
          | .ok new => .ok new, v')
  | _, _, _ => False

/-- The write of a planned file ends as its fate says. -/
lemma writeSecret_fate {w : Wallet} {file : SecretFile} {raw text : String} {fw : FileWrite}
    {r : Except String String} (hI : I w.vault) (hold : w.file file = some raw)
    (henc : Encodes I e fw (some raw) (some text) (some r)) :
    ∃ o v, writeSecret e file text fw w =
        (o, if (fate (some r) fw.outcome).replaces then
          { w with vault := v }.setFile file (r.toOption.getD "") else { w with vault := v }) ∧
      I v ∧ if (fate (some r) fw.outcome).goes then o = .ok () else ∃ m, o = .err m := by
  obtain ⟨v, hv, hrun⟩ := henc w.vault hI
  rw [← hold] at hrun
  have hcall := vaultCall_run hrun
  rw [writeSecret]
  change ∃ o v, Exec.bind (vaultCall _) _ w = _ ∧ _
  rw [Exec.bind, hcall]
  cases r with
  | error m => exact ⟨.err m, v, rfl, hv, m, rfl⟩
  | ok new =>
    cases hout : fw.outcome with
    | done => exact ⟨.ok (), v, rfl, hv, rfl⟩
    | lost m => exact ⟨.err m, v, rfl, hv, m, rfl⟩
    | unsynced m => exact ⟨.err m, v, rfl, hv, m, rfl⟩

/-- The write of one of the two files, where there is one, ends as its fate says. -/
lemma writeStage_fate {α : Type} [Serde α] {w : Wallet} (file : SecretFile) {c : Option α}
    {fw : FileWrite} {plan : Option (Except String String)} (hI : I w.vault)
    (henc : Encodes I e fw (w.file file) (c.map toText) plan) (n : ℕ) :
    ∃ o v, saveSome (fun a => writeSecret e file (toText a) fw) c n w =
        (o, afterWrite w v file plan fw) ∧
      I v ∧ if (fate plan fw.outcome).goes then ∃ k, o = .ok k else ∃ m, o = .err m := by
  cases c with
  | none =>
    cases hold : w.file file with
    | some raw =>
      rw [hold] at henc
      cases plan <;> exact henc.elim
    | none =>
      rw [hold] at henc
      cases plan with
      | some r => exact henc.elim
      | none => exact ⟨.ok n, w.vault, rfl, hI, n, rfl⟩
  | some a =>
    cases hold : w.file file with
    | none =>
      rw [hold] at henc
      cases plan <;> exact henc.elim
    | some raw =>
      rw [hold] at henc
      cases plan with
      | none => exact henc.elim
      | some r =>
        obtain ⟨o, v, hrun, hv, hgoes⟩ := writeSecret_fate hI hold henc
        by_cases hgo : (fate (some r) fw.outcome).goes = true
        · rw [if_pos hgo] at hgoes
          simp only [hgo, if_true]
          refine ⟨.ok (n + 1), v, ?_, hv, n + 1, rfl⟩
          change Exec.bind (writeSecret e file (toText a) fw) _ w = _
          rw [Exec.bind, hrun, hgoes]
          rfl
        · rw [if_neg hgo] at hgoes
          obtain ⟨m, hm⟩ := hgoes
          simp only [hgo]
          refine ⟨.err m, v, ?_, hv, m, rfl⟩
          change Exec.bind (writeSecret e file (toText a) fw) _ w = _
          rw [Exec.bind, hrun, hm]
          rfl

/-- The account is written first, and the other file only when that went well. -/
lemma writeSecretFiles_fates {w : Wallet} {a : Option A} {s : Option S} {wa ws : FileWrite}
    {planA planS : Option (Except String String)} (hI : I w.vault)
    (hA : Encodes I e wa w.account (a.map toText) planA)
    (hS : Encodes I e ws w.shield (s.map toText) planS) :
    ((fate planA wa.outcome).goes = true ∧ ∃ o v₁ v₂, writeSecretFiles e (a, s) wa ws w =
        (o, afterWrite (afterWrite w v₁ .account planA wa) v₂ .shield planS ws) ∧ I v₂ ∧
        if (fate planS ws.outcome).goes then ∃ k, o = .ok k else ∃ m, o = .err m) ∨
      (fate planA wa.outcome).goes = false ∧ ∃ m v₁, writeSecretFiles e (a, s) wa ws w =
        (.err m, afterWrite w v₁ .account planA wa) := by
  have hbind : ∀ o w₁, saveSome (fun a => saveAccount e a wa) a 0 w = (o, w₁) →
      writeSecretFiles e (a, s) wa ws w = match o with
        | .ok n => saveSome (fun f => saveShield e f ws) s n w₁
        | .err m => (.err m, w₁)
        | .fault => (.fault, w₁) := by
    intro o w₁ hrun
    change Exec.bind (saveSome (fun a => saveAccount e a wa) a 0) _ w = _
    rw [Exec.bind, hrun]
    cases o <;> rfl
  obtain ⟨o₁, v₁, hrun₁, hv₁, hends₁⟩ := writeStage_fate .account hI hA 0
  have hfirst := hbind o₁ _ hrun₁
  cases hgo : (fate planA wa.outcome).goes with
  | false =>
    rw [hgo] at hends₁
    obtain ⟨m, rfl⟩ := hends₁
    exact .inr ⟨rfl, m, v₁, hfirst⟩
  | true =>
    rw [hgo] at hends₁
    obtain ⟨n, rfl⟩ := hends₁
    have hS' : Encodes I e ws ((afterWrite w v₁ .account planA wa).file .shield)
      (s.map toText) planS := by
      simpa [Wallet.file] using hS
    obtain ⟨o₂, v₂, hrun₂, hv₂, hends₂⟩ := writeStage_fate .shield (by simpa using hv₁) hS' n
    exact .inl ⟨rfl, o₂, v₁, v₂, hfirst.trans hrun₂, hv₂, hends₂⟩

/-- Where the call goes on and nothing was replaced, there is nothing to read. -/
lemma Encodes.readable_of_absent {α : Type} [Serde α] {v : Vault} {fw : FileWrite}
    {old : Option String} {c : Option α} {plan : Option (Except String String)}
    (h : Encodes I e fw old (c.map toText) plan) (hgoes : (fate plan fw.outcome).goes = true)
    (hkept : (fate plan fw.outcome).replaces = false) : Readable v old c := by
  match old, c, plan with
  | none, none, none => trivial
  | some _, some _, some r =>
    rw [replaces_of_goes hgoes (by simp)] at hkept
    cases hkept

/-- A file that may have been replaced is readable as the condition about the new text says, or as
it was before. -/
lemma readable_ite {α : Type} [Serde α] {v : Vault} {old : Option String} {c : Option α}
    {new : String}
    {r : Bool} {P : Prop} (hold : r = false → Readable v old c)
    (hnew : r = true → (Readable v (some new) c ↔ P)) :
    Readable v (if r then some new else old) c ↔ (r = true → P) := by
  cases r with
  | false => simpa using hold rfl
  | true => simpa using hnew rfl

/-- A call that writes both files is all or nothing exactly when the vault that counts reads what
was replaced: the new one when both writes went well, and else the old one. -/
lemma allOrNothing_iff {w₀ w : Wallet} {a : Option A} {s : Option S} {wa ws : FileWrite}
    {planA planS : Option (Except String String)} {cleanup : Exec Wallet String Unit}
    {okA okS errA errS : Prop} (hI : I w.vault) (haccount : w.account = w₀.account)
    (hshield : w.shield = w₀.shield) (hholds : Holds w₀.vault w₀ a s)
    (hA : Encodes I e wa w.account (a.map toText) planA)
    (hS : Encodes I e ws w.shield (s.map toText) planS)
    (hcleanup : ∀ w', ∃ v, cleanup w' = (.ok (), { w' with vault := v }))
    (hokA : ∀ v new, I v → planA = some (.ok new) → (Readable v (some new) a ↔ okA))
    (hokS : ∀ v new, I v → planS = some (.ok new) → (Readable v (some new) s ↔ okS))
    (herrA : ∀ new, planA = some (.ok new) → (Readable w₀.vault (some new) a ↔ errA))
    (herrS : ∀ new, planS = some (.ok new) → (Readable w₀.vault (some new) s ↔ errS)) :
    AllOrNothing w₀ (Exec.onErr (writeSecretFiles e (a, s) wa ws) cleanup w) a s ↔
      Settled (fate planA wa.outcome) (fate planS ws.outcome) okA okS errA errS := by
  have herrA' := fun h => herrA (planned planA) (eq_planned_of_replaces (o := wa.outcome) h)
  have herrS' := fun h => herrS (planned planS) (eq_planned_of_replaces (o := ws.outcome) h)
  obtain ⟨hholdA, hholdS⟩ := hholds
  rw [← haccount] at hholdA
  rw [← hshield] at hholdS
  have hreadA : Readable w₀.vault
      (if (fate planA wa.outcome).replaces then some (planned planA) else w.account) a ↔
      ((fate planA wa.outcome).replaces = true → errA) :=
    readable_ite (fun _ => hholdA) herrA'
  rcases writeSecretFiles_fates hI hA hS with
    ⟨hgoA, o, v₁, v₂, hrun, hv₂, hends⟩ | ⟨hgoA, m, v₁, hrun⟩
  · rw [Settled, hgoA, Exec.onErr, hrun]
    cases hgoS : (fate planS ws.outcome).goes with
    | true =>
      rw [hgoS] at hends
      obtain ⟨n, rfl⟩ := hends
      have hnewA : Readable v₂ (afterWrite w v₁ .account planA wa).account a ↔
          ((fate planA wa.outcome).replaces = true → okA) := by
        rw [afterWrite_account]
        exact readable_ite (hA.readable_of_absent hgoA) fun h =>
          hokA v₂ _ hv₂ (eq_planned_of_replaces h)
      have hnewS : Readable v₂
          (if (fate planS ws.outcome).replaces then some (planned planS) else w.shield) s ↔
          ((fate planS ws.outcome).replaces = true → okS) :=
        readable_ite (hS.readable_of_absent hgoS) fun h => hokS v₂ _ hv₂ (eq_planned_of_replaces h)
      simpa [AllOrNothing, Holds] using and_congr hnewA hnewS
    | false =>
      rw [hgoS] at hends
      obtain ⟨m, rfl⟩ := hends
      obtain ⟨v, hclean⟩ :=
        hcleanup (afterWrite (afterWrite w v₁ .account planA wa) v₂ .shield planS ws)
      have hreadS : Readable w₀.vault
          (if (fate planS ws.outcome).replaces then some (planned planS) else w.shield) s ↔
          ((fate planS ws.outcome).replaces = true → errS) :=
        readable_ite (fun _ => hholdS) herrS'
      simpa [AllOrNothing, Holds, hclean] using and_congr hreadA hreadS
  · rw [Settled, hgoA, Exec.onErr, hrun]
    obtain ⟨v, hclean⟩ := hcleanup (afterWrite w v₁ .account planA wa)
    simpa [AllOrNothing, Holds, hclean, hholdS] using hreadA

end Writing

/-! ## Reading both files -/

/-- The two files are those of before, and so are the passphrase, the key file and the profile. -/
structure Wallet.SameDisk (w w' : Wallet) : Prop where
  account : w'.account = w.account
  shield : w'.shield = w.shield
  session : w.vault.SameSession w'.vault

lemma Wallet.SameDisk.refl (w : Wallet) : w.SameDisk w := ⟨rfl, rfl, .refl _⟩

lemma Wallet.SameDisk.trans {w w' w'' : Wallet} (h : w.SameDisk w') (h' : w'.SameDisk w'') :
    w.SameDisk w'' :=
  ⟨h'.account.trans h.account, h'.shield.trans h.shield, h.session.trans h'.session⟩

lemma sameDisk_readPresent {α : Type} (w : Wallet) (present : Bool)
    {load : Exec Wallet String (Option α)}
    (hload : w.SameDisk (load w).2) (refusal : String) :
    w.SameDisk (readPresent present load refusal w).2 := by
  rw [readPresent]
  split
  · refine Exec.snd_bind hload fun c w₁ h₁ => ?_
    rw [h₁] at hload
    rwa [(Exec.reads_okOr _ _).bind fun _ => Exec.reads_pure _]
  · exact .refl w

section Reading

variable [SealSuite] {A S α : Type} [Serde A] [Serde S] [Serde α]

lemma sameDisk_readSecret (w : Wallet) (raw : String) : w.SameDisk (readSecret raw w).2 := by
  have hsame := w.vault.sameSession_read raw
  have hrun := vaultCall_run (x := Vault.read raw) (w := w) rfl
  rw [readSecret, hrun]
  exact ⟨rfl, rfl, hsame⟩

lemma sameDisk_loadFile (w : Wallet) (file : SecretFile) (name : String)
    {locked : Exec Wallet String (Option α)} (hlocked : Exec.Reads locked) :
    w.SameDisk (loadFile file name locked w).2 := by
  rw [loadFile]
  refine Exec.snd_bind (.refl w) fun w₁ w₂ h₁ => ?_
  obtain ⟨rfl, rfl⟩ := Exec.get_eq_ok.mp h₁
  cases w.file file with
  | none => exact .refl w
  | some raw =>
    have hsame := sameDisk_readSecret w raw
    refine Exec.snd_bind hsame fun t w₃ h₂ => ?_
    rw [h₂] at hsame
    cases t with
    | none => rwa [hlocked]
    | some t =>
      rwa [(Exec.reads_ofExcept _ _).bind fun _ => Exec.reads_pure _]

/-- Reading both files changes neither. -/
lemma sameDisk_readSecretFiles (w : Wallet) :
    w.SameDisk ((readSecretFiles : Exec Wallet String (Option A × Option S)) w).2 := by
  rw [readSecretFiles]
  refine Exec.snd_bind (.refl w) fun w₁ w₂ h₁ => ?_
  obtain ⟨rfl, rfl⟩ := Exec.get_eq_ok.mp h₁
  have hsame :
    w.SameDisk (readPresent w.account.isSome (loadAccount : Exec Wallet String (Option A))
      "could not read account.json (locked?)" w).2 :=
    sameDisk_readPresent w _ (sameDisk_loadFile w .account "account.json" (Exec.reads_pure _)) _
  refine Exec.snd_bind hsame fun a w₃ h₂ => ?_
  rw [h₂] at hsame
  have hsame' :
    w₃.SameDisk (readPresent w.shield.isSome (loadShield : Exec Wallet String (Option S))
      "could not read shield.json (locked?)" w₃).2 :=
    sameDisk_readPresent w₃ _ (sameDisk_loadFile w₃ .shield "shield.json" (Exec.reads_reject _)) _
  refine Exec.snd_bind (hsame.trans hsame') fun s w₄ h₃ => ?_
  rw [h₃] at hsame'
  exact hsame.trans hsame'

/-- What is read of a file is what a vault reads out of it. -/
lemma content_of_readPresent [LawfulSeal] {v : Vault} {w w' : Wallet} (file : SecretFile)
    {name refusal : String} {locked : Exec Wallet String (Option α)} {c c' : Option α}
    (hlocked : ∀ w c w', locked w ≠ (.ok (some c), w')) (hread : Readable v (w.file file) c)
    (h : readPresent (w.file file).isSome (loadFile file name locked) refusal w = (.ok c', w')) :
    c' = c := by
  rw [readPresent] at h
  cases hfile : w.file file with
  | none =>
    rw [hfile] at h hread
    cases c with
    | none => exact (Exec.pure_eq_ok.mp h).1.symm
    | some c => exact hread.elim
  | some raw =>
    rw [hfile] at h hread
    cases c with
    | none => exact hread.elim
    | some c =>
      obtain ⟨text, hshows, htext⟩ := hread
      rw [Option.isSome_some, if_pos rfl, Exec.bind_eq_ok] at h
      obtain ⟨x, w₁, hload, h⟩ := h
      rw [Exec.okOr_bind_eq_ok] at h
      obtain ⟨c₁, rfl, h⟩ := h
      obtain ⟨rfl, -⟩ := Exec.pure_eq_ok.mp h
      rw [loadFile, Exec.get_bind_eq_ok, hfile] at hload
      obtain ⟨t, w₂, hsecret, hparse⟩ := Exec.bind_eq_ok.mp hload
      cases t with
      | none => exact absurd hparse (hlocked _ _ _)
      | some t =>
        obtain ⟨c₂, hof, hpure⟩ := Exec.ofExcept_bind_eq_ok.mp hparse
        obtain ⟨hc, -⟩ := Exec.pure_eq_ok.mp hpure
        rw [readSecret, vaultCall] at hsecret
        obtain ⟨v', hv', -⟩ := Exec.zoom_eq_ok.mp hsecret
        have hsame : t = text := Vault.Shows.unique ⟨v', hv'⟩ hshows
        rw [hsame, htext] at hof
        rw [← hc, Except.ok.inj hof]

/-- The contents that are read are those that the vault in force reads. -/
lemma contents_of_readSecretFiles [LawfulSeal] {w w' : Wallet} {a a' : Option A} {s s' : Option S}
    (hholds : Holds w.vault w a s) (h : readSecretFiles w = (.ok (a', s'), w')) :
    a' = a ∧ s' = s := by
  obtain ⟨hA, hS⟩ := hholds
  rw [readSecretFiles, Exec.get_bind_eq_ok, Exec.bind_eq_ok] at h
  obtain ⟨a₁, w₁, hreadA, h⟩ := h
  obtain ⟨s₁, w₂, hreadS, h⟩ := Exec.bind_eq_ok.mp h
  obtain ⟨hpair, -⟩ := Exec.pure_eq_ok.mp h
  obtain ⟨rfl, rfl⟩ := Prod.mk.inj hpair
  have hsame : w.SameDisk w₁ := by
    have hdisk :
      w.SameDisk (readPresent w.account.isSome (loadAccount : Exec Wallet String (Option A))
        "could not read account.json (locked?)" w).2 :=
      sameDisk_readPresent w _ (sameDisk_loadFile w .account "account.json" (Exec.reads_pure _)) _
    rwa [hreadA] at hdisk
  refine ⟨content_of_readPresent .account (fun w c w' hw => ?_) hA hreadA, ?_⟩
  · cases (Exec.pure_eq_ok.mp hw).1
  · have hshield : w₁.shield = w.shield := hsame.shield
    rw [← hshield] at hS hreadS
    refine content_of_readPresent .shield (fun w c w' hw => ?_) hS hreadS
    cases hw

end Reading

/-! ## When a change is all or nothing -/

section Changes

variable [SealSuite] {A S : Type} [Serde A] [Serde S]

/-- The file was written by this program, and not under this salt. -/
def Issued (salt : Bytes 16) (raw : String) : Prop :=
  isSealed raw = true → ∀ env, fromJson raw = .ok env →
    env.hke = 1 ∧ env.kdf = "argon2id" ∧ env.salt ≠ hexEncode salt.1

/-- A replaced file was sealed under a key that the vault in force has or derives. -/
def ReopensPlanned (v : Vault) (p : String)
    (plan : Option (Except String (SealKey × String))) : Prop :=
  ∀ k new, plan = some (.ok (k, new)) → Reopens v p k

/-- When `protect` reads both files and takes the passphrase, either both writes go well, or the
vault in force has, or derives, the key of every file that was replaced. -/
def ProtectSafe (e : SealEnv) (w : Wallet) (p : String) (salt : Bytes 16) (wa ws : FileWrite)
    (a : Option A) (s : Option S) : Prop :=
  ∀ w₁ main, readSecretFiles w = (.ok (a, s), w₁) → e.checkStrength p = .ok () →
    SealKey.new p w.vault.keyfile (w.vault.profileOf e) salt.1 = .ok main →
    let planA := resealed p w.vault.keyfile main wa.nonce w.account a
    let planS := resealed p w.vault.keyfile main ws.nonce w.shield s
    (fate planA wa.outcome).goes && (fate planS ws.outcome).goes ∨
      ((fate planA wa.outcome).replaces → ReopensPlanned w.vault p planA) ∧
        ((fate planA wa.outcome).goes → (fate planS ws.outcome).replaces →
          ReopensPlanned w.vault p planS)

/-- The content of a file does not look like an envelope. -/
def LooksPlain {α : Type} [Serde α] (c : Option α) : Prop := ∀ x ∈ c, isSealed (toText x) = false

/-- When `unprotect` reads both files, no file that it replaces looks like an envelope. -/
def UnprotectSafe (w : Wallet) (wa ws : FileWrite) (a : Option A) (s : Option S) : Prop :=
  ∀ w₁, readSecretFiles w = (.ok (a, s), w₁) →
    let planA : Option (Except String String) := a.map fun c => .ok (toText c)
    let planS : Option (Except String String) := s.map fun c => .ok (toText c)
    ((fate planA wa.outcome).replaces → LooksPlain a) ∧
      ((fate planA wa.outcome).goes → (fate planS ws.outcome).replaces → LooksPlain s)

end Changes

/-! ### Removing the passphrase -/

section Unprotecting

variable [SealSuite] {A S α : Type} [Serde A] [Serde S] [Serde α]

/-- Without a passphrase every file is written plain. -/
lemma encodes_plain {v : Vault} {old : Option String} {c : Option α} (hread : Readable v old c)
    (e : SealEnv) (fw : FileWrite) :
    Encodes (fun v => v.passphrase = none) e fw old (c.map toText)
      (c.map fun c => .ok (toText c)) := by
  match old, c with
  | none, none => trivial
  | some raw, some c =>
    intro v hv
    refine ⟨v, hv, ?_⟩
    change (match v.passphrase with
      | none => pure (toText c)
      | some p => _ : Exec Vault String String) v = _
    rw [hv]
    rfl

/-- A vault reads a plain content unless it looks like an envelope. -/
lemma readable_plain_iff [LawfulSerde α] (v : Vault) {c : Option α} {new : String}
    (hplan : (c.map fun c => (.ok (toText c) : Except String String)) = some (.ok new)) :
    Readable v (some new) c ↔ LooksPlain c := by
  obtain ⟨x, rfl, hx⟩ := Option.map_eq_some_iff.mp hplan
  obtain rfl := Except.ok.inj hx
  constructor
  · rintro ⟨text, hshows, -⟩ y hy
    obtain rfl := Option.some.inj hy
    by_contra hsealed
    have hsealed' : isSealed (toText x) = true := by simpa using hsealed
    obtain ⟨-, env, -, -, henv, -⟩ := (Vault.shows_of_sealed hsealed').mp hshows
    obtain ⟨m, hm⟩ := LawfulSerde.not_envelope x
    rw [hm] at henv
    cases henv
  · intro hplain
    exact ⟨toText x, (Vault.shows_of_plain (hplain x rfl)).mpr rfl, LawfulSerde.ofText_toText x⟩

/-- What a vault reads does not change while the files do not. -/
lemma Holds.of_sameDisk {v : Vault} {w w' : Wallet} {a : Option A} {s : Option S}
    (h : Holds v w a s) (hdisk : w.SameDisk w') : Holds v w' a s := by
  rw [Holds, hdisk.account, hdisk.shield]
  exact h

/-- Removing the passphrase is all or nothing exactly when nothing that it writes looks like an
envelope. -/
lemma unprotect_iff [LawfulSeal] [LawfulSerde A] [LawfulSerde S] {w : Wallet} {a : Option A}
    {s : Option S} (hholds : Holds w.vault w a s) (e : SealEnv) (wa ws : FileWrite) :
    AllOrNothing w (unprotect A S e wa ws w) a s ↔ UnprotectSafe w wa ws a s := by
  have hdisk := sameDisk_readSecretFiles (A := A) (S := S) w
  rw [unprotect]
  change AllOrNothing w (Exec.bind readSecretFiles _ w) a s ↔ _
  rw [Exec.bind]
  rcases hread : (readSecretFiles : Exec Wallet String (Option A × Option S)) w with ⟨⟨a',
    s'⟩ | m | _, w₁⟩
  · obtain ⟨rfl, rfl⟩ := contents_of_readSecretFiles hholds hread
    rw [hread] at hdisk
    have haccount : w₁.account = w.account := hdisk.account
    have hshield : w₁.shield = w.shield := hdisk.shield
    have hcall : AllOrNothing w (Exec.onErr (writeSecretFiles e (a', s') wa ws) (.modify fun w' =>
          match w₁.vault.passphrase with
          | some p => { w' with vault := w'.vault.restorePassphrase p }
          | none => w') { w₁ with vault := w₁.vault.clear }) a' s' ↔
        Settled (fate (a'.map fun c => (.ok (toText c) : Except String String)) wa.outcome)
          (fate (s'.map fun c => (.ok (toText c) : Except String String)) ws.outcome)
          (LooksPlain a') (LooksPlain s') (LooksPlain a') (LooksPlain s') := by
      refine allOrNothing_iff (I := fun v => v.passphrase = none) rfl haccount hshield hholds
        (encodes_plain (haccount ▸ hholds.1) e wa) (encodes_plain (hshield ▸ hholds.2) e ws)
        (fun w' => ?_) (fun v _ _ => readable_plain_iff v) (fun v _ _ => readable_plain_iff v)
        (fun _ => readable_plain_iff _) fun _ => readable_plain_iff _
      cases w₁.vault.passphrase with
      | some p => exact ⟨_, rfl⟩
      | none => exact ⟨w'.vault, rfl⟩
    apply hcall.trans
    rw [settled_same]
    exact ⟨fun h _ _ => h, fun h => h w₁ hread⟩
  · refine iff_of_true ?_ fun w₂ hok => ?_
    · rw [hread] at hdisk
      exact hholds.of_sameDisk hdisk
    · rw [hread] at hok
      cases hok
  · refine iff_of_true trivial fun w₂ hok => ?_
    rw [hread] at hok
    cases hok

end Unprotecting

/-! ### Setting a passphrase -/

section Protecting

variable [SealSuite] {A S α : Type} [Serde A] [Serde S] [Serde α] {p : String}
  {f : Option (List UInt8)} {main k : SealKey} {salt : Bytes 16} {v : Vault}

/-- An envelope that a vault reads is one that this program writes, under another salt than the
primary one. -/
lemma genuine_of_shows {raw text : String} (hissued : Issued salt raw) (hsalt : main.salt = salt.1)
    (hshows : v.Shows raw text) : Genuine main raw := by
  intro hsealed
  obtain ⟨-, env, k, bytes, henv, -, hopen, -⟩ := (Vault.shows_of_sealed hsealed).mp hshows
  obtain ⟨hhke, hkdf, hne⟩ := hissued hsealed env henv
  obtain ⟨hkey, -⟩ := SealKey.fits_iff.mp (SealKey.openSealed_ok hopen).1
  exact ⟨env, k.salt, henv, hhke, hkdf, hkey.symm, by rwa [SealKey.saltHex, hsalt]⟩

/-- In the session of the new passphrase every file is sealed again. -/
lemma encodes_resealed {old : Option String} {c : Option α} (hread : Readable v old c)
    (hissued : ∀ raw ∈ old, Issued salt raw) (hsalt : main.salt = salt.1) (hp : p ≠ "")
    (hmain : SealKey.derive p main.salt main.kdf f = .ok main) (e : SealEnv) (fw : FileWrite) :
    Encodes (Session p f main) e fw old (c.map toText)
      ((resealed p f main fw.nonce old c).map fun r => r.map Prod.snd) := by
  match old, c with
  | none, none => trivial
  | some raw, some c =>
    obtain ⟨text, hshows, -⟩ := hread
    intro v' hv'
    obtain ⟨v'', hv'', hrun⟩ := hv'.encode_run hp (genuine_of_shows (hissued raw rfl) hsalt hshows)
      hmain e (toText c) fw.salt fw.nonce
    refine ⟨v'', hv'', hrun.trans ?_⟩
    cases reseal p f main raw (toText c) fw.nonce <;> rfl

/-- What is known of a file that was sealed again. -/
lemma of_resealed {old : Option String} {c : Option α} {nonce : Bytes 24} {new : String}
    (hplan : ((resealed p f main nonce old c).map fun r => r.map Prod.snd) = some (.ok new)) :
    ∃ raw x k, old = some raw ∧ c = some x ∧ resealed p f main nonce old c = some (.ok (k, new)) ∧
      rekey p f main raw = .ok k ∧ k.sealToJson nonce.1 (toText x) = .ok new := by
  match old, c with
  | some raw, some x =>
    have hr : (reseal p f main raw (toText x) nonce).map Prod.snd = .ok new := Option.some.inj hplan
    rw [reseal] at hr
    cases hk : rekey p f main raw with
    | error m =>
      rw [hk] at hr
      cases hr
    | ok k =>
      rw [hk] at hr
      cases hseal : k.sealToJson nonce.1 (toText x) with
      | error m =>
        simp only [hseal] at hr
        cases hr
      | ok t =>
        simp only [hseal] at hr
        cases hr
        refine ⟨raw, x, k, rfl, rfl, ?_, hk, hseal⟩
        change some (reseal p f main raw (toText x) nonce) = _
        rw [reseal, hk]
        simp only [hseal]
  | none, _ => cases hplan
  | some _, none => cases hplan

/-- A file that was sealed again lies under a key of the session. -/
lemma keyOfSession_of_readable {raw : String} {x : α} (hread : Readable v (some raw) (some x))
    (hissued : Issued salt raw) (hsalt : main.salt = salt.1)
    (hmain : SealKey.derive p main.salt main.kdf f = .ok main) (hk : rekey p f main raw = .ok k) :
    KeyOfSession p f main k := by
  obtain ⟨text, hshows, -⟩ := hread
  exact keyOfSession_rekey (genuine_of_shows hissued hsalt hshows) hmain hk

variable [LawfulSeal] [LawfulSerde α]

/-- The new session reads what it wrote. -/
lemma readable_of_session {old : Option String} {c : Option α} {nonce : Bytes 24} {new : String}
    {v' : Vault} (hread : Readable v old c) (hissued : ∀ raw ∈ old, Issued salt raw)
    (hsalt : main.salt = salt.1) (hp : p ≠ "")
    (hmain : SealKey.derive p main.salt main.kdf f = .ok main) (hv' : Session p f main v')
    (hplan : ((resealed p f main nonce old c).map fun r => r.map Prod.snd) = some (.ok new)) :
    Readable v' (some new) c := by
  obtain ⟨raw, x, k, rfl, rfl, -, hk, hseal⟩ := of_resealed hplan
  have hkey := keyOfSession_of_readable hread (hissued raw rfl) hsalt hmain hk
  exact ⟨toText x, hv'.shows hp hkey hseal, LawfulSerde.ofText_toText x⟩

/-- The vault in force reads a file that was sealed again exactly when it has, or derives, its
key. -/
lemma readable_iff_reopens {old : Option String} {c : Option α} {nonce : Bytes 24} {new : String}
    (hv : v.Coherent) (hread : Readable v old c) (hissued : ∀ raw ∈ old, Issued salt raw)
    (hsalt : main.salt = salt.1) (hp : p ≠ "")
    (hmain : SealKey.derive p main.salt main.kdf v.keyfile = .ok main)
    (hplan : ((resealed p v.keyfile main nonce old c).map fun r => r.map Prod.snd) =
      some (.ok new)) :
    Readable v (some new) c ↔ ReopensPlanned v p (resealed p v.keyfile main nonce old c) := by
  obtain ⟨raw, x, k, rfl, rfl, hresealed, hk, hseal⟩ := of_resealed hplan
  have hkey := keyOfSession_of_readable hread (hissued raw rfl) hsalt hmain hk
  have hlen : 8 ≤ k.salt.length := by
    rcases hkey.main_or with rfl | ⟨-, -, hlen⟩
    · rw [hsalt, salt.2]
      decide
    · exact hlen
  have hshows := shows_iff_reopens hv hp hkey.derived hlen hseal
  constructor
  · rintro ⟨text, htext, -⟩ k' new' hk'
    obtain ⟨rfl, -⟩ := Prod.mk.inj (Except.ok.inj (Option.some.inj (hresealed.symm.trans hk')))
    exact hshows.mp ⟨text, htext⟩
  · intro hreopens
    obtain ⟨text, htext⟩ := hshows.mpr (hreopens k new hresealed)
    have hsession := (session_fresh v hmain rfl).shows hp hkey hseal
    rw [htext.unique hsession] at htext
    exact ⟨toText x, htext, LawfulSerde.ofText_toText x⟩

end Protecting

section ProtectingBoth

variable [SealSuite] [LawfulSeal] {A S : Type} [Serde A] [Serde S] [LawfulSerde A] [LawfulSerde S]
  {p : String} {salt : Bytes 16} {w : Wallet} {a : Option A} {s : Option S}

/-- The two writes under a new passphrase are all or nothing exactly when both go well or the vault
in force reads what was replaced. -/
lemma writes_iff {e : SealEnv} {wa ws : FileWrite} {main : SealKey} {w₁ : Wallet}
    (hv : w.vault.Coherent) (hholds : Holds w.vault w a s)
    (hissued : ∀ raw, w.account = some raw ∨ w.shield = some raw → Issued salt raw)
    (hnew : SealKey.new p w.vault.keyfile (w.vault.profileOf e) salt.1 = .ok main)
    (hdisk : w.SameDisk w₁) {cleanup : Exec Wallet String Unit}
    (hcleanup : ∀ w', ∃ v, cleanup w' = (.ok (), { w' with vault := v })) :
    let planA := resealed p w.vault.keyfile main wa.nonce w.account a
    let planS := resealed p w.vault.keyfile main ws.nonce w.shield s
    AllOrNothing w (Exec.onErr (writeSecretFiles e (a, s) wa ws) cleanup
        { w₁ with vault := { w₁.vault.clear with
            passphrase := some p, primary := some main.saltHex }.keep main }) a s ↔
      (fate planA wa.outcome).goes && (fate planS ws.outcome).goes ∨
        ((fate planA wa.outcome).replaces → ReopensPlanned w.vault p planA) ∧
          ((fate planA wa.outcome).goes → (fate planS ws.outcome).replaces →
            ReopensPlanned w.vault p planS) := by
  intro planA planS
  obtain ⟨hp, hsalt, -, hmain⟩ := SealKey.new_ok hnew
  have haccount : w₁.account = w.account := hdisk.account
  have hshield : w₁.shield = w.shield := hdisk.shield
  have hissuedA : ∀ raw ∈ w.account, Issued salt raw := fun raw h => hissued raw (.inl h)
  have hissuedS : ∀ raw ∈ w.shield, Issued salt raw := fun raw h => hissued raw (.inr h)
  rw [← settled_true, ← fate_map Prod.snd planA, ← fate_map Prod.snd planS]
  refine allOrNothing_iff (I := Session p w.vault.keyfile main)
    (session_fresh w₁.vault hmain hdisk.session.keyfile) haccount hshield hholds ?_ ?_ hcleanup
    (fun v new hv' hplan => ?_) (fun v new hv' hplan => ?_)
      (fun new hplan => ?_) fun new hplan => ?_
  · change Encodes _ e wa w₁.account _ _
    rw [haccount]
    exact encodes_resealed hholds.1 hissuedA hsalt hp hmain e wa
  · change Encodes _ e ws w₁.shield _ _
    rw [hshield]
    exact encodes_resealed hholds.2 hissuedS hsalt hp hmain e ws
  · exact iff_of_true (readable_of_session hholds.1 hissuedA hsalt hp hmain hv' hplan) trivial
  · exact iff_of_true (readable_of_session hholds.2 hissuedS hsalt hp hmain hv' hplan) trivial
  · exact readable_iff_reopens hv hholds.1 hissuedA hsalt hp hmain hplan
  · exact readable_iff_reopens hv hholds.2 hissuedS hsalt hp hmain hplan

/-- Setting a passphrase is all or nothing exactly when it is safe. -/
lemma protect_iff {e : SealEnv} {wa ws : FileWrite} (hv : w.vault.Coherent)
    (hholds : Holds w.vault w a s)
    (hissued : ∀ raw, w.account = some raw ∨ w.shield = some raw → Issued salt raw) :
    AllOrNothing w (protect A S e p salt wa ws w) a s ↔ ProtectSafe e w p salt wa ws a s := by
  have hdisk := sameDisk_readSecretFiles (A := A) (S := S) w
  rw [protect]
  change AllOrNothing w (Exec.bind readSecretFiles _ w) a s ↔ _
  rw [Exec.bind]
  rcases hread : (readSecretFiles : Exec Wallet String (Option A × Option S)) w with
    ⟨⟨a', s'⟩ | m | _, w₁⟩
  · obtain ⟨rfl, rfl⟩ := contents_of_readSecretFiles hholds hread
    rw [hread] at hdisk
    change AllOrNothing w (Exec.bind (vaultCall (Vault.setNewPassphrase e p salt)) _ w₁) a' s' ↔ _
    have hsame : SealKey.new p w₁.vault.keyfile (w₁.vault.profileOf e) salt.1 =
        SealKey.new p w.vault.keyfile (w.vault.profileOf e) salt.1 := by
      rw [Vault.profileOf, Vault.profileOf, hdisk.session.keyfile, hdisk.session.profile]
    cases hstrength : e.checkStrength p with
    | error m =>
      have hcall := vaultCall_run (w₁.vault.setNewPassphrase_err e p salt (.inl hstrength))
      rw [Exec.bind, hcall]
      refine iff_of_true (hholds.of_sameDisk ⟨hdisk.account, hdisk.shield, hdisk.session⟩) ?_
      intro w₂ main _ hok
      cases hstrength.symm.trans hok
    | ok u =>
      cases hnew : SealKey.new p w.vault.keyfile (w.vault.profileOf e) salt.1 with
      | error m =>
        have hcall := vaultCall_run (w₁.vault.setNewPassphrase_err e p salt (.inr ⟨hstrength,
          congrArg (Except.mapError SealError.text) (hsame.trans hnew)⟩))
        rw [Exec.bind, hcall]
        refine iff_of_true (hholds.of_sameDisk ⟨hdisk.account, hdisk.shield, hdisk.session⟩) ?_
        intro w₂ main _ _ hmain
        cases hnew.symm.trans hmain
      | ok main =>
        have hcall := vaultCall_run (w₁.vault.setNewPassphrase_ok e hstrength (hsame.trans hnew))
        rw [Exec.bind, hcall]
        refine (writes_iff hv hholds hissued hnew hdisk fun w' => ?_).trans ?_
        · cases w₁.vault.passphrase with
          | some p => exact ⟨_, rfl⟩
          | none => exact ⟨_, rfl⟩
        · refine ⟨fun h w₂ main' _ _ hnew' => ?_, fun h => h w₁ main hread hstrength hnew⟩
          cases hnew.symm.trans hnew'
          exact h
  · refine iff_of_true ?_ fun w₂ _ hok => ?_
    · rw [hread] at hdisk
      exact hholds.of_sameDisk hdisk
    · rw [hread] at hok
      cases hok
  · refine iff_of_true trivial fun w₂ _ hok => ?_
    rw [hread] at hok
    cases hok

/-- From any vault of a running wallet that reads both files, a change of the passphrase is all or
nothing exactly when it is safe. -/
theorem passphrase_change_iff {e : SealEnv} (hv : Vault.Reached e w.vault)
    (hholds : Holds w.vault w a s)
    (hissued : ∀ raw, w.account = some raw ∨ w.shield = some raw → Issued salt raw) (p : String)
    (wa ws : FileWrite) :
    (AllOrNothing w (protect A S e p salt wa ws w) a s ↔ ProtectSafe e w p salt wa ws a s) ∧
      (AllOrNothing w (unprotect A S e wa ws w) a s ↔ UnprotectSafe w wa ws a s) :=
  ⟨protect_iff hv.coherent hholds hissued, unprotect_iff hholds e wa ws⟩

end ProtectingBoth

/-! ## A failed write -/

namespace Concrete

/-- A content with a word in front of it. -/
structure Note where
  body : String

def noteHead : List Char := "note ".toList

instance : Serde Note where
  toText n := .ofList (noteHead ++ n.body.toList)
  ofText t :=
    if noteHead <+: t.toList then .ok ⟨.ofList (t.toList.drop noteHead.length)⟩
    else .error "missing field"

instance : LawfulSerde Note where
  ofText_toText n := by
    have hlist : (String.ofList (noteHead ++ n.body.toList)).toList = noteHead ++ n.body.toList :=
      String.toList_ofList
    change (if noteHead <+: (String.ofList (noteHead ++ n.body.toList)).toList then
      .ok ⟨.ofList ((String.ofList (noteHead ++ n.body.toList)).toList.drop noteHead.length)⟩
      else .error "missing field" : Except String Note) = .ok n
    rw [hlist, if_pos (List.prefix_append _ _), List.drop_left, String.ofList_toList]
  not_envelope n := by
    refine ⟨"not an envelope", ?_⟩
    change (if envelopeHead <+: (String.ofList (noteHead ++ n.body.toList)).toList then _ else _) =
      _
    rw [String.toList_ofList, if_neg]
    rintro ⟨t, ht⟩
    exact absurd (List.head_eq_of_cons_eq ht) (by decide)

lemma isSealed_note (n : Note) : isSealed (toText n) = false := by
  have hhead : (noteHead ++ n.body.toList).dropWhile Foundations.isWhitespace =
      noteHead ++ n.body.toList := rfl
  change isSealed (String.ofList (noteHead ++ n.body.toList)) = false
  rw [isSealed, String.toList_ofList, hhead]
  rfl

def seed : Note := ⟨"seed"⟩

def coins : Note := ⟨"coins"⟩

/-- Two plain files. -/
def plainWallet : Wallet := ⟨.default, some (toText seed), some (toText coins)⟩

def newPassphrase : String := "correct horse battery"

def anyPassphrase : SealEnv := ⟨none, none, fun _ => .ok ()⟩

def drawn (o : SaveOutcome) : FileWrite :=
  ⟨⟨List.replicate 16 1, rfl⟩, ⟨List.replicate 24 2, rfl⟩, o⟩

def freshSalt : Bytes 16 := ⟨List.replicate 16 3, rfl⟩

lemma readable_note (v : Vault) (n : Note) : Readable v (some (toText n)) (some n) :=
  ⟨toText n, (Vault.shows_of_plain (isSealed_note n)).mpr rfl, LawfulSerde.ofText_toText n⟩

lemma holds_plain : Holds plainWallet.vault plainWallet (some seed) (some coins) :=
  ⟨readable_note _ _, readable_note _ _⟩

/-- A plain file is sealed again under the primary key. -/
lemma resealed_note (p : String) (f : Option (List UInt8)) (main : SealKey) (nonce : Bytes 24)
    (n : Note) :
    ∃ new, resealed p f main nonce (some (toText n)) (some n) = some (.ok (main, new)) := by
  have hrekey : rekey p f main (toText n) = .ok main := by rw [rekey, isSealed_note]; rfl
  refine ⟨toJson (main.envelope nonce.1 (escape 1 0 main.key ++ (toText n).toUTF8.data.toList)), ?_⟩
  rw [resealed, reseal, hrekey]
  rfl

lemma issued_plain (raw : String) (h : plainWallet.account = some raw ∨
    plainWallet.shield = some raw) :
    Issued freshSalt raw := by
  intro hsealed
  rcases h with h | h <;>
  · obtain rfl := Option.some.inj h
    rw [isSealed_note] at hsealed
    cases hsealed

def oldPassphrase : String := "incorrect horse battery"

def oldSalt : Bytes 16 := ⟨List.replicate 16 4, rfl⟩

def oldNonce : Bytes 24 := ⟨List.replicate 24 5, rfl⟩

/-- The key of a passphrase under the old salt. -/
def keyUnder (p : String) : SealKey :=
  .finish p.toUTF8.data.toList oldSalt.1 (Vault.default.profileOf anyPassphrase) none

/-- The envelope of a content under the old passphrase. -/
def noteEnvelope (n : Note) : Sealed :=
  (keyUnder oldPassphrase).envelope oldNonce.1
    (escape 1 0 (keyUnder oldPassphrase).key ++ (toText n).toUTF8.data.toList)

/-- A content sealed under the old passphrase. -/
@[irreducible] def sealedNote (n : Note) : String := toJson (noteEnvelope n)

lemma sealToJson_oldKey (n : Note) :
    (keyUnder oldPassphrase).sealToJson oldNonce.1 (toText n) = .ok (sealedNote n) := by
  rw [sealedNote]
  rfl

lemma isSealed_sealedNote (n : Note) : isSealed (sealedNote n) = true := by
  rw [sealedNote, LawfulSeal.isSealed_toJson]

lemma fromJson_sealedNote (n : Note) : fromJson (sealedNote n) = .ok (noteEnvelope n) := by
  rw [sealedNote, LawfulSeal.fromJson_toJson]

/-- Two sealed files, and the vault that the old passphrase was set in. -/
def sealedWallet : Wallet :=
  ⟨(Vault.setNewPassphrase anyPassphrase oldPassphrase oldSalt .default).2, some (sealedNote seed),
    some (sealedNote coins)⟩

/-- The vault reads what is sealed under the old passphrase. -/
lemma readable_sealed (n : Note) : Readable sealedWallet.vault (some (sealedNote n)) (some n) := by
  have hderived : SealKey.derive oldPassphrase oldSalt.1 (keyUnder oldPassphrase).kdf none =
      .ok (keyUnder oldPassphrase) := rfl
  have hsession : Session oldPassphrase none (keyUnder oldPassphrase) sealedWallet.vault :=
    session_fresh .default hderived rfl
  exact ⟨toText n, hsession.shows (by decide) ⟨hderived, .inl rfl⟩ (sealToJson_oldKey n),
    LawfulSerde.ofText_toText n⟩

/-- A sealed file is sealed again under the key that the new passphrase has under its salt. -/
lemma resealed_sealed (main : SealKey) (nonce : Bytes 24) (n : Note) :
    ∃ new, resealed newPassphrase none main nonce (some (sealedNote n)) (some n) =
      some (.ok (keyUnder newPassphrase, new)) := by
  have hrekey : rekey newPassphrase none main (sealedNote n) = .ok (keyUnder newPassphrase) := by
    rw [rekey, if_pos (isSealed_sealedNote n), fromJson_sealedNote]
    exact congrArg (Except.mapError SealError.text) (SealKey.forEnvelope_of_fits
      (SealKey.fits_iff.mpr ⟨rfl, rfl, rfl⟩) rfl rfl (by decide) (by decide) (by decide) rfl)
  refine ⟨toJson ((keyUnder newPassphrase).envelope nonce.1
    (escape 1 0 (keyUnder newPassphrase).key ++ (toText n).toUTF8.data.toList)), ?_⟩
  rw [resealed, reseal, hrekey]
  rfl

lemma issued_sealed (raw : String) (h : sealedWallet.account = some raw ∨
    sealedWallet.shield = some raw) :
    Issued freshSalt raw := by
  have hissued : ∀ n, Issued freshSalt (sealedNote n) := by
    intro n _ env henv
    rw [fromJson_sealedNote, Except.ok.injEq] at henv
    subst henv
    refine ⟨rfl, rfl, fun hsalt => ?_⟩
    exact absurd (hexEncode_injective hsalt) (by decide)
  rcases h with h | h
  · cases h
    exact hissued seed
  · cases h
    exact hissued coins

/-- Where both writes go well, a sealed wallet can be read after its passphrase is changed, and
after it is removed. -/
theorem bothWritten_allOrNothing :
    AllOrNothing sealedWallet (protect Note Note anyPassphrase newPassphrase freshSalt
        (drawn .done) (drawn .done) sealedWallet) (some seed) (some coins) ∧
      AllOrNothing sealedWallet (unprotect Note Note anyPassphrase (drawn .done) (drawn .done)
        sealedWallet)
        (some seed) (some coins) := by
  have hreached : Vault.Reached anyPassphrase sealedWallet.vault :=
    .setNewPassphrase oldPassphrase oldSalt .default
  obtain ⟨hprotect, hunprotect⟩ := passphrase_change_iff hreached
    ⟨readable_sealed seed, readable_sealed coins⟩ issued_sealed newPassphrase (drawn .done)
    (drawn .done)
  constructor
  · refine hprotect.mpr fun w₁ main _ _ _ => .inl ?_
    obtain ⟨newA, hA⟩ := resealed_sealed main (drawn .done).nonce seed
    obtain ⟨newS, hS⟩ := resealed_sealed main (drawn .done).nonce coins
    have hkeyfile : sealedWallet.vault.keyfile = none := rfl
    have haccount : sealedWallet.account = some (sealedNote seed) := rfl
    have hshield : sealedWallet.shield = some (sealedNote coins) := rfl
    simp only [hkeyfile, haccount, hshield, hA, hS]
    rfl
  · refine hunprotect.mpr fun w₁ _ => ⟨fun _ => ?_, fun _ _ => ?_⟩
    · rintro x ⟨⟩
      exact isSealed_note _
    · rintro x ⟨⟩
      exact isSealed_note _

/-- A plain file is read as it is. -/
lemma loadFile_note {w : Wallet} {file : SecretFile} {n : Note} (h : w.file file = some (toText n))
    (name : String) (locked : Exec Wallet String (Option Note)) :
    loadFile file name locked w = (.ok (some n), w) := by
  have hread : Vault.read (toText n) w.vault = (.ok (some (toText n)), w.vault) := by
    rw [Vault.read, if_pos (isSealed_note n)]
    rfl
  have hcall : readSecret (toText n) w = (.ok (some (toText n)), w) := vaultCall_run hread
  rw [loadFile, Exec.get_bind_eq_ok, h]
  exact Exec.bind_eq_ok.mpr ⟨_, w, hcall, Exec.ofExcept_bind_eq_ok.mpr
    ⟨n, LawfulSerde.ofText_toText n, Exec.pure_eq_ok.mpr ⟨rfl, rfl⟩⟩⟩

/-- A file that is there is read with its content. -/
lemma readPresent_note {w : Wallet} {load : Exec Wallet String (Option Note)} {n : Note}
    (h : load w = (.ok (some n), w)) (refusal : String) :
    readPresent true load refusal w = (.ok (some n), w) := by
  rw [readPresent, if_pos rfl]
  exact Exec.bind_eq_ok.mpr ⟨_, w, h, Exec.okOr_bind_eq_ok.mpr ⟨n, rfl,
    Exec.pure_eq_ok.mpr ⟨rfl, rfl⟩⟩⟩

lemma readSecretFiles_plain :
    (readSecretFiles : Exec Wallet String (Option Note × Option Note)) plainWallet =
    (.ok (some seed, some coins), plainWallet) := by
  have hA : (loadAccount : Exec Wallet String (Option Note)) plainWallet =
      (.ok (some seed), plainWallet) := loadFile_note rfl _ _
  have hS : (loadShield : Exec Wallet String (Option Note)) plainWallet =
      (.ok (some coins), plainWallet) := loadFile_note rfl _ _
  rw [readSecretFiles, Exec.get_bind_eq_ok]
  exact Exec.bind_eq_ok.mpr ⟨_, plainWallet, readPresent_note hA _, Exec.bind_eq_ok.mpr
    ⟨_, plainWallet, readPresent_note hS _, Exec.pure_eq_ok.mpr ⟨rfl, rfl⟩⟩⟩

/-- The key of the new passphrase. -/
def newKey : SealKey :=
  .finish newPassphrase.toUTF8.data.toList freshSalt.1 (Vault.default.profileOf anyPassphrase)
    none

/-- The account is replaced and the write of the other file is lost: no passphrase is in force
again, and the account is sealed. -/
theorem lostWrite_not_allOrNothing :
    Holds plainWallet.vault plainWallet (some seed) (some coins) ∧
      ¬ AllOrNothing plainWallet (protect Note Note anyPassphrase newPassphrase freshSalt
        (drawn .done) (drawn (.lost "no space left on device")) plainWallet)
        (some seed) (some coins) := by
  refine ⟨holds_plain, fun hall => ?_⟩
  have hsafe :=
    (protect_iff (Vault.coherent_of_empty rfl) holds_plain issued_plain).mp hall plainWallet
    newKey readSecretFiles_plain rfl (by rfl)
  obtain ⟨newA, hA⟩ := resealed_note newPassphrase none newKey (drawn .done).nonce seed
  obtain ⟨newS, hS⟩ := resealed_note newPassphrase none newKey
    (drawn (.lost "no space left on device")).nonce coins
  simp only [plainWallet, Vault.default, hA, hS] at hsafe
  rcases hsafe with hgo | ⟨hreopens, -⟩
  · cases hgo
  · obtain ⟨hpass, -⟩ := hreopens rfl newKey newA rfl
    cases hpass

end Concrete

end AtRest

end HashKinetics
