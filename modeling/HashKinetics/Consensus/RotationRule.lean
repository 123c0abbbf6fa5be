import HashKinetics.Consensus.Rotation
import HashKinetics.Concrete

/-!
# The rotation rule

What an accepted rotation certificate says, at any commit height, and that a certificate issued at
the tip is accepted as long as its window is open.  The issuer counts from its own tip and the
verifier from the height of the block that carries the certificate; away from the last height the
saturating arithmetic of the window is exact.
-/

namespace HashKinetics

open Foundations

namespace RotationCert

variable {cert : RotationCert} {root : List UInt8} {prev : ℕ} {rules : RotationRules}

/-- The freshness window of a certificate at a commit height, in exact arithmetic. -/
def InWindow (cert : RotationCert) (height : ℕ) : Prop :=
  cert.validFromHeight ≤ height + 1 ∧ height + 1 ≤ cert.validFromHeight + ROTATION_FRESHNESS_HORIZON

instance (cert : RotationCert) (height : ℕ) : Decidable (cert.InWindow height) :=
  inferInstanceAs (Decidable (_ ∧ _))

lemma domain_eq_v2_iff : rules.domain = .v2 ↔ rules.v2From ≤ rules.height := by
  unfold RotationRules.domain
  split_ifs with h <;> simp [h]

/-- Below the last height the window is checked exactly, from the height of the newer domain on. -/
lemma checkWindow_eq_ok_iff (hheight : rules.height < u64Max) : cert.checkWindow rules = .ok () ↔
    (rules.v2From ≤ rules.height → cert.InWindow rules.height) := by
  have hactivation : rules.activation = rules.height + 1 := satAdd_of_le hheight
  have hfresh : satAdd u64Max cert.validFromHeight ROTATION_FRESHNESS_HORIZON < rules.height + 1 ↔
      cert.validFromHeight + ROTATION_FRESHNESS_HORIZON < rules.height + 1 := by
    unfold satAdd
    omega
  unfold checkWindow InWindow
  simp only [hactivation]
  by_cases hdomain : rules.v2From ≤ rules.height
  · have hv1 : rules.domain ≠ .v1 := by rw [domain_eq_v2_iff.mpr hdomain]; decide
    rw [if_neg hv1, forall_prop_of_true hdomain]
    split_ifs with hfuture hstale
    · simp only [false_iff]
      omega
    · rw [hfresh] at hstale
      simp only [false_iff]
      omega
    · rw [hfresh] at hstale
      simp only [true_iff]
      omega
  · have hv1 : rules.domain = .v1 := by
      unfold RotationRules.domain
      rw [if_neg hdomain]
    rw [if_pos hv1]
    exact iff_of_true rfl fun h => absurd h hdomain

variable [RootScheme]

/-- The signature check accepts what verifies under the domain of the height. -/
lemma checkSig_eq_ok_iff {current : ℕ} : cert.checkSig current rules = .ok () ↔
    cert.verifySig rules.domain rules.chainId = true := by
  unfold checkSig
  cases hdomain : rules.domain with
  | v1 =>
    have hchain : cert.verifySig .v1 rules.chainId = cert.verifySig .v1 "" := rfl
    rw [hchain]
    cases cert.verifySig .v1 "" <;> simp
  | v2 =>
    cases hv2 : cert.verifySig .v2 rules.chainId <;> cases cert.verifySig .v1 "" <;> simp [hv2]

/-- What a certificate has to meet: its root, its epoch, its window and its signature. -/
lemma verifyAgainst_eq_ok_iff : cert.verifyAgainst root (some prev) rules = .ok () ↔
    cert.rootPk = root ∧ prev < cert.epoch ∧ cert.checkWindow rules = .ok () ∧
      cert.verifySig rules.domain rules.chainId = true := by
  unfold verifyAgainst
  by_cases hroot : cert.rootPk = root
  · by_cases hepoch : cert.epoch ≤ prev
    · simp [hroot, hepoch, Nat.not_lt.mpr hepoch]
    · have hcheck : cert.checkSig prev rules = .ok () ↔ _ := checkSig_eq_ok_iff
      rw [← hcheck]
      simp only [hroot, ne_eq, not_true_eq_false, if_false, hepoch, true_and,
        Nat.lt_of_not_le hepoch]
      cases hwindow : cert.checkWindow rules with
      | ok u => exact (and_iff_right rfl).symm
      | error e => simp [bind, Except.bind]
  · simp [hroot]

/-- What the height the issuer names decides: the domain. -/
def issueFor (root : RootScheme.Secret) (chainId : String) (v2From : ℕ) (newOpPk : List UInt8)
    (epoch validFromHeight : ℕ) : RotationCert :=
  let domain := if v2From ≤ validFromHeight then .v2 else .v1
  issue root domain chainId newOpPk epoch validFromHeight

end RotationCert

/-- A root secret that works: a key and signatures of the right lengths, and every message it signs
verifies under its key. -/
structure RootScheme.Sound [RootScheme] (root : RootScheme.Secret) : Prop where
  publicBytes : (RootScheme.publicBytes root).length = ROOT_PK_LEN
  sign : ∀ msg, (RootScheme.sign root msg).length = ROOT_SIG_LEN
  verify : ∀ msg, rootVerify (RootScheme.publicBytes root) msg (RootScheme.sign root msg) = true

namespace HkValidatorSet

variable {H : Type} [RootScheme] {s : HkValidatorSet H} {cert : RotationCert}
    {rules : RotationRules}

/-- What a certificate is issued with verifies in its own domain. -/
lemma verifySig_issue {root : RootScheme.Secret} (hroot : RootScheme.Sound root)
    (domain : RotationDomain)
    (chainId : String) (newOpPk : List UInt8) (epoch validFromHeight : ℕ) :
    (RotationCert.issue root domain chainId newOpPk epoch validFromHeight).verifySig domain
      chainId =
      true := by
  unfold RotationCert.verifySig RotationCert.issue
  exact decide_eq_true ⟨hroot.publicBytes, hroot.sign _, hroot.verify _⟩

/-- A rotation is applied exactly when the seat of its root accepts the certificate. -/
lemma applyRotation_ok_iff : (∃ s', s.applyRotation cert rules = .ok s') ↔
    ∃ seat, s.findRoot cert.rootPk = some seat ∧ seat.epoch < cert.epoch ∧
      cert.checkWindow rules = .ok () ∧ cert.verifySig rules.domain rules.chainId = true := by
  unfold applyRotation
  cases hfind : s.findRoot cert.rootPk with
  | none => simp
  | some seat =>
    have hroot : cert.rootPk = seat.rootPk := (mem_of_findRoot hfind).2.symm
    have hverify : cert.verifyAgainst seat.rootPk (some seat.epoch) rules = .ok () ↔ _ :=
      RotationCert.verifyAgainst_eq_ok_iff
    rw [and_iff_right hroot] at hverify
    simp only [Option.some.injEq, exists_eq_left']
    rw [← hverify]
    cases cert.verifyAgainst seat.rootPk (some seat.epoch) rules with
    | ok u => exact iff_of_true ⟨_, rfl⟩ rfl
    | error e => simp [bind, Except.bind]

/-- An accepted rotation is newer than its seat, signed by the root of the seat in the domain of the
height, and within its window from the newer domain on; and what is issued at the tip is accepted at
every later height within its window while the root is seated at an earlier epoch. -/
theorem applyRotation_rule (s : HkValidatorSet H) {height : ℕ} (hheight : height < u64Max)
    (chainId : String) (v2From : ℕ) :
    (∀ cert s', s.applyRotation cert ⟨height, chainId, v2From⟩ = .ok s' →
      ∃ seat, s.findRoot cert.rootPk = some seat ∧ seat.epoch < cert.epoch ∧
        cert.rootSig.length = ROOT_SIG_LEN ∧
        rootVerify seat.rootPk (RotationCert.signingBytes (if v2From ≤
          height then .v2 else .v1) chainId
          seat.rootPk cert.newOpPk cert.epoch cert.validFromHeight) cert.rootSig = true ∧
        (v2From ≤ height → cert.InWindow height)) ∧
    ∀ root, RootScheme.Sound root → ∀ newOpPk epoch tip seat, v2From ≤ tip + 1 → tip < height →
      (RotationCert.issueFor root chainId v2From newOpPk epoch (tip + 1)).InWindow height →
      s.findRoot (RootScheme.publicBytes root) = some seat → seat.epoch < epoch →
      ∃ s', s.applyRotation (RotationCert.issueFor root chainId v2From newOpPk epoch (tip + 1))
        ⟨height, chainId, v2From⟩ = .ok s' := by
  have hrules : (⟨height, chainId, v2From⟩ : RotationRules).height < u64Max := hheight
  constructor
  · intro cert s' h
    obtain ⟨seat, hseat, hepoch, hwindow, hsig⟩ := applyRotation_ok_iff.mp ⟨s', h⟩
    have hroot : seat.rootPk = cert.rootPk := (mem_of_findRoot hseat).2
    obtain ⟨-, hlen, hverify⟩ := of_decide_eq_true hsig
    rw [← hroot] at hverify
    exact ⟨seat, hseat, hepoch, hlen, hverify,
      (RotationCert.checkWindow_eq_ok_iff hrules).mp hwindow⟩
  · intro root hroot newOpPk epoch tip seat hv2 hlater hwindow hseat hepoch
    refine applyRotation_ok_iff.mpr ⟨seat, hseat, hepoch, ?_, ?_⟩
    · exact (RotationCert.checkWindow_eq_ok_iff hrules).mpr fun _ => hwindow
    · have hdomain : (⟨height, chainId, v2From⟩ : RotationRules).domain = .v2 :=
        RotationCert.domain_eq_v2_iff.mpr (by change v2From ≤ height; omega)
      rw [hdomain, RotationCert.issueFor, if_pos hv2]
      exact verifySig_issue hroot .v2 chainId newOpPk epoch (tip + 1)

end HkValidatorSet

namespace Concrete

/-- Every secret of the concrete scheme works. -/
lemma rootScheme_sound (root : UInt8) : RootScheme.Sound root where
  publicBytes := List.length_replicate
  sign _ := List.length_replicate
  verify _ := decide_eq_true rfl

/-- A rotation issued at a tip of seven, and committed two blocks later. -/
theorem rotation_accepted : ∃ s', foundingSet.applyRotation
    (RotationCert.issueFor (1 : UInt8) "hashkinetics-devnet-1" 0 [2] 1 8)
      ⟨9, "hashkinetics-devnet-1", 0⟩ = .ok s' :=
  (HkValidatorSet.applyRotation_rule foundingSet (show 9 < u64Max by decide)
    "hashkinetics-devnet-1" 0).2 (1 : UInt8) (rootScheme_sound 1) [2] 1 7 _ (by decide) (by decide)
    (by decide) rfl (by decide)

end Concrete

end HashKinetics
