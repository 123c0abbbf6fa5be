import HashKinetics.Consensus.ValidatorSet

/-!
# Operational-key rotation

A validator's root signs a certificate that binds a fresh operational key under a strictly newer
epoch.  Two signing domains exist; the commit height of the block that carries a certificate decides
which one it must be signed under, and the newer one also binds the chain and a freshness window.
-/

namespace HashKinetics

open Foundations

def DOM_ROTATION_V1 : String := "hk/v1/rotation-cert"
def DOM_ROTATION_V2 : String := "hk/v2/rotation-cert"

/-- How far behind its `validFromHeight` a certificate of the newer domain may still commit. -/
def ROTATION_FRESHNESS_HORIZON : ℕ := 100000

/-- The domain a certificate is signed under. -/
inductive RotationDomain where
  | v1
  | v2
  deriving DecidableEq

/-- The chain's rotation rule at one commit height. -/
structure RotationRules where
  height : ℕ
  chainId : String
  /-- The first height at which only the newer domain is accepted. -/
  v2From : ℕ

namespace RotationRules

/-- The domain a certificate committed at this height must be signed under. -/
def domain (rules : RotationRules) : RotationDomain :=
  if rules.v2From ≤ rules.height then .v2 else .v1

/-- The height a certificate committed here activates at. -/
def activation (rules : RotationRules) : ℕ := satAdd u64Max rules.height 1

end RotationRules

/-- A root-signed certificate for a fresh operational key. -/
structure RotationCert where
  rootPk : List UInt8
  newOpPk : List UInt8
  epoch : ℕ
  validFromHeight : ℕ
  rootSig : List UInt8
  deriving DecidableEq

namespace RotationCert

/-- The bytes the root signs. -/
def signingBytes (domain : RotationDomain) (chainId : String) (rootPk newOpPk : List UInt8)
    (epoch validFromHeight : ℕ) : List UInt8 :=
  (match domain with
    | .v1 => DOM_ROTATION_V1.toUTF8.toList ++ [0]
    | .v2 => DOM_ROTATION_V2.toUTF8.toList ++ [0] ++ putBytes chainId.toUTF8.toList) ++
  putBytes rootPk ++ putBytes newOpPk ++ leBytes epoch ++ leBytes validFromHeight

variable [RootScheme]

/-- Sign a certificate under a domain. -/
def issue (root : RootScheme.Secret) (domain : RotationDomain) (chainId : String)
    (newOpPk : List UInt8) (epoch validFromHeight : ℕ) : RotationCert :=
  let rootPk := RootScheme.publicBytes root
  { rootPk, newOpPk, epoch, validFromHeight,
    rootSig := RootScheme.sign root
      (signingBytes domain chainId rootPk newOpPk epoch validFromHeight) }

/-- Whether the root signature is authentic under a domain. -/
def verifySig (cert : RotationCert) (domain : RotationDomain) (chainId : String) : Bool :=
  cert.rootPk.length = ROOT_PK_LEN ∧ cert.rootSig.length = ROOT_SIG_LEN ∧
    rootVerify cert.rootPk
      (signingBytes domain chainId cert.rootPk cert.newOpPk cert.epoch cert.validFromHeight)
      cert.rootSig

/-- The freshness window of the newer domain. -/
def checkWindow (cert : RotationCert) (rules : RotationRules) : Except String Unit :=
  let validFrom := cert.validFromHeight
  let activation := rules.activation
  if rules.domain = .v1 then .ok ()
  else if validFrom > activation then
    .error (s!"rotation cert: valid_from_height {validFrom} is past its activation height " ++
      s!"{activation} (a certificate cannot name a future height; submit it to a node whose tip " ++
      "is at least the one it was issued against, or re-issue it at this node's tip)")
  else if satAdd u64Max validFrom ROTATION_FRESHNESS_HORIZON < activation then
    .error (s!"rotation cert: stale — valid_from_height {validFrom} is more than " ++
      s!"{ROTATION_FRESHNESS_HORIZON} blocks before its activation height {activation} " ++
      "(re-issue at the tip)")
  else .ok ()

/-- The signature part of the acceptance check, with the refusals that name the domain. -/
def checkSig (cert : RotationCert) (current : ℕ) (rules : RotationRules) : Except String Unit :=
  let epoch := cert.epoch
  let chainId := rules.chainId
  let v2From := rules.v2From
  match rules.domain with
  | .v1 =>
    if cert.verifySig .v1 "" then .ok ()
    else .error s!"rotation cert: invalid or stale (cert epoch {epoch}, current {current})"
  | .v2 =>
    if cert.verifySig .v2 chainId then .ok ()
    else if cert.verifySig .v1 "" then
      .error (s!"rotation cert: signed under the v1 domain — from height {v2From} this chain " ++
        "accepts only chain-bound v2 certificates (re-issue on a node that knows the height, or " ++
        s!"`hk-node issue-rotation <HOME> {epoch} <TIP+1> {chainId}`)")
    else
      .error (s!"rotation cert: invalid or stale (cert epoch {epoch}, current {current}; v2 " ++
        s!"domain, chain {chainId})")

/-- The acceptance check against a registered root and its last accepted epoch. -/
def verifyAgainst (cert : RotationCert) (registeredRootPk : List UInt8) (lastEpoch : Option ℕ)
    (rules : RotationRules) : Except String Unit :=
  let epoch := cert.epoch
  if cert.rootPk ≠ registeredRootPk then
    .error "rotation cert: not issued by the registered root"
  else
    match lastEpoch with
    | some prev =>
      if epoch ≤ prev then
        .error s!"rotation cert: stale (cert epoch {epoch}, current {prev})"
      else do
        cert.checkWindow rules
        cert.checkSig prev rules
    | none => do
      cert.checkWindow rules
      cert.checkSig 0 rules

/-- An accepted certificate carries a strictly newer epoch. -/
lemma lt_epoch_of_verifyAgainst {cert : RotationCert} {root : List UInt8} {prev : ℕ}
    {rules : RotationRules} (h : cert.verifyAgainst root (some prev) rules = .ok ()) :
    prev < cert.epoch := by
  by_contra hle
  have hle : cert.epoch ≤ prev := Nat.le_of_not_lt hle
  by_cases hroot : cert.rootPk = root
  · simp [verifyAgainst, hroot, hle] at h
  · simp [verifyAgainst, hroot] at h

end RotationCert

namespace HkValidatorSet

variable {H : Type} [RootScheme]

/-- Give the seats at an address a new operational key and epoch. -/
def rekey (s : HkValidatorSet H) (address : HkAddress H) (newOpPk : List UInt8) (epoch : ℕ) :
    HkValidatorSet H :=
  s.mapSeats
    (fun v => if v.address = address then { v with publicKey := newOpPk, epoch := epoch } else v)
    fun v => by split <;> exact ⟨rfl, rfl⟩

/-- Apply a rotation certificate to the seat of its root. -/
def applyRotation (s : HkValidatorSet H) (cert : RotationCert) (rules : RotationRules) :
    Except String (HkValidatorSet H) :=
  match s.findRoot cert.rootPk with
  | none => .error "rotation cert: no validator with that root identity"
  | some target => do
    cert.verifyAgainst target.rootPk (some target.epoch) rules
    return s.rekey target.address cert.newOpPk cert.epoch

/-- An applied rotation found the first seat of its root at an older epoch, and gave every seat at
that address the new key and epoch. -/
lemma applyRotation_eq_ok {s s' : HkValidatorSet H} {cert : RotationCert} {rules : RotationRules}
    (h : s.applyRotation cert rules = .ok s') :
    ∃ target, s.findRoot cert.rootPk = some target ∧ target.epoch < cert.epoch ∧
      s' = s.rekey target.address cert.newOpPk cert.epoch := by
  unfold applyRotation at h
  cases hfind : s.findRoot cert.rootPk with
  | none =>
    rw [hfind] at h
    cases h
  | some target =>
    simp only [hfind] at h
    cases hver : cert.verifyAgainst target.rootPk (some target.epoch) rules with
    | error e =>
      rw [hver] at h
      cases h
    | ok u =>
      rw [hver] at h
      cases h
      exact ⟨target, rfl, RotationCert.lt_epoch_of_verifyAgainst hver, rfl⟩

end HkValidatorSet

end HashKinetics
