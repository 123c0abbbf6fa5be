import HashKinetics.Consensus.Rotation

/-!
# Validator-set changes

A certificate that seats a validator, unseats one or changes the power of one, approved by root
signatures of more than two thirds of the power that is seated when it is applied.  A certificate
carries a window of commit heights; nothing records that it was applied.
-/

namespace HashKinetics

open Foundations

def DOM_SET_CHANGE : String := "hk/v1/set-change"

/-- The ceiling on the voting power of one seat. -/
def MAX_VOTING_POWER : ℕ := 2 ^ 32

/-- What changes. -/
inductive SetChange where
  | admitSeat (rootPk publicKey : List UInt8) (votingPower : ℕ)
  | remove (rootPk : List UInt8)
  | setPower (rootPk : List UInt8) (votingPower : ℕ)
  deriving DecidableEq

/-- The root identity a change is about. -/
def SetChange.rootPk : SetChange → List UInt8
  | .admitSeat rootPk _ _ => rootPk
  | .remove rootPk => rootPk
  | .setPower rootPk _ => rootPk

/-- What every approver signs. -/
structure SetChangeBody where
  chainId : String
  change : SetChange
  /-- The earliest commit height at which the change may be applied. -/
  notBefore : ℕ
  /-- The latest one. -/
  notAfter : ℕ
  deriving DecidableEq

namespace SetChangeBody

/-- The bytes every approver signs. -/
def signingBytes (body : SetChangeBody) : List UInt8 :=
  DOM_SET_CHANGE.toUTF8.toList ++ [0] ++ putBytes body.chainId.toUTF8.toList ++
  (match body.change with
    | .admitSeat rootPk publicKey votingPower =>
      [1] ++ putBytes rootPk ++ putBytes publicKey ++ leBytes votingPower
    | .remove rootPk => [2] ++ putBytes rootPk
    | .setPower rootPk votingPower => [3] ++ putBytes rootPk ++ leBytes votingPower) ++
  leBytes body.notBefore ++ leBytes body.notAfter

/-- The checks on a root key and a power, with the refusal of a zero power. -/
def checkPower (votingPower : ℕ) (zeroPower : String) : Except String Unit :=
  if votingPower = 0 then .error zeroPower
  else if votingPower > MAX_VOTING_POWER then
    .error (s!"set change: voting_power {votingPower} exceeds MAX_VOTING_POWER " ++
      s!"{MAX_VOTING_POWER} (M-1)")
  else .ok ()

/-- The checks that need no set. -/
def checkShape (body : SetChangeBody) : Except String Unit :=
  if body.chainId.isEmpty then .error "set change: empty chain_id"
  else if body.notAfter < body.notBefore then .error "set change: not_after < not_before"
  else if body.change.rootPk.length ≠ ROOT_PK_LEN then
    .error s!"set change: root_pk must be {ROOT_PK_LEN} bytes"
  else
    match body.change with
    | .admitSeat _ publicKey votingPower =>
      if publicKey.isEmpty then .error "set change: empty operational public key"
      else checkPower votingPower "set change: voting_power must be ≥ 1"
    | .remove _ => .ok ()
    | .setPower _ votingPower =>
      checkPower votingPower "set change: voting_power must be ≥ 1 (remove the seat instead)"

end SetChangeBody

/-- One seat's approval: its root identity and its signature over the body. -/
structure Approval where
  rootPk : List UInt8
  rootSig : List UInt8
  deriving DecidableEq

/-- The certificate that rides a block. -/
structure SetChangeCert where
  body : SetChangeBody
  approvals : List Approval
  deriving DecidableEq

namespace Approval

variable [RootScheme]

/-- Sign a body with a seat's root secret. -/
def sign (root : RootScheme.Secret) (body : SetChangeBody) : Approval where
  rootPk := RootScheme.publicBytes root
  rootSig := RootScheme.sign root body.signingBytes

def verify (a : Approval) (body : SetChangeBody) : Bool :=
  a.rootPk.length = ROOT_PK_LEN ∧ a.rootSig.length = ROOT_SIG_LEN ∧
    rootVerify a.rootPk body.signingBytes a.rootSig

end Approval

namespace SetChangeCert

variable {H : Type} [RootScheme]

/-- The approving power: every approval must come from a distinct seat and be signed by it. -/
def approvingPower (set : HkValidatorSet H) (body : SetChangeBody) :
    List Approval → List (List UInt8) → ℕ → Except String ℕ
  | [], _, approving => .ok approving
  | a :: approvals, seen, approving =>
    if a.rootPk ∈ seen then .error "set change: duplicate approval from one root"
    else
      match set.findRoot a.rootPk with
      | none => .error "set change: approval from a root that is not seated"
      | some seat =>
        if a.verify body then
          approvingPower set body approvals (seen ++ [a.rootPk])
            (satAdd u64Max approving seat.votingPower)
        else .error "set change: invalid approval signature"

/-- The acceptance check against the set as it stands. -/
def verifyAgainst (cert : SetChangeCert) (set : HkValidatorSet H) (chainId : String) :
    Except String Unit := do
  let certChain := cert.body.chainId
  cert.body.checkShape
  if certChain ≠ chainId then
    throw s!"set change: for chain {certChain} — this is {chainId}"
  if cert.approvals.isEmpty then throw "set change: no approvals"
  let total := set.totalVotingPower
  let approving ← approvingPower set cert.body cert.approvals [] 0
  if satMul u64Max approving 3 ≤ satMul u64Max total 2 then
    throw s!"set change: approving power {approving} is not > 2/3 of {total}"

/-- The certificate may be committed at this height. -/
def inWindow (cert : SetChangeCert) (height : ℕ) : Bool :=
  cert.body.notBefore ≤ height ∧ height ≤ cert.body.notAfter

end SetChangeCert

namespace HkValidatorSet

variable {H : Type}

/-- The set with one more seat. -/
def push (s : HkValidatorSet H) (v : HkValidator H) : HkValidatorSet H :=
  new (s.validators ++ [v]) (by simp)

/-- The seats left when a root is removed. -/
def without (s : HkValidatorSet H) (root : List UInt8) : List (HkValidator H) :=
  s.validators.filter fun v => v.rootPk ≠ root

/-- The set with the powers of some seats changed in place. -/
def repower (s : HkValidatorSet H) (p : HkValidator H → Prop) [DecidablePred p] (power : ℕ) :
    HkValidatorSet H :=
  new (s.validators.map fun v => if p v then { v with votingPower := power } else v)
    (by simpa using s.ne_nil)

@[simp] lemma mem_push {s : HkValidatorSet H} {v w : HkValidator H} :
    w ∈ s.push v ↔ w ∈ s ∨ w = v := by
  simp [push, mem_def (s := s)]

@[simp] lemma mem_without {s : HkValidatorSet H} {root : List UInt8} {v : HkValidator H} :
    v ∈ s.without root ↔ v ∈ s ∧ v.rootPk ≠ root := by
  simp [without, mem_def]

lemma mem_repower {s : HkValidatorSet H} {p : HkValidator H → Prop} [DecidablePred p] {power : ℕ}
    {w : HkValidator H} :
    w ∈ s.repower p power ↔
      ∃ v ∈ s, (if p v then { v with votingPower := power } else v) = w := by
  simp [repower, mem_def (s := s)]

variable [HashSuite H]

/-- The admission arm: a root that is seated already is left alone. -/
def applyAdmit (set : HkValidatorSet H) (rootPk publicKey : List UInt8) (votingPower : ℕ) :
    Except String (Option (HkValidatorSet H)) :=
  let newcomer := HkValidator.new rootPk publicKey votingPower
  if set.Seated rootPk then .ok none
  else if ∃ v ∈ set.validators, v.address = newcomer.address then
    .error "set change: operational key collides with a seated address"
  else .ok (some (set.push newcomer))

/-- The removal arm: a root that is not seated is left alone, and the last seat stays. -/
def applyRemove (set : HkValidatorSet H) (rootPk : List UInt8) :
    Except String (Option (HkValidatorSet H)) :=
  if ¬ set.Seated rootPk then .ok none
  else if h : set.without rootPk = [] then .error "set change: refusing to remove the last seat"
  else .ok (some (new (set.without rootPk) h))

/-- The power arm: the first seat of the root decides whether anything changes. -/
def applySetPower (set : HkValidatorSet H) (rootPk : List UInt8) (votingPower : ℕ) :
    Except String (Option (HkValidatorSet H)) :=
  match set.findRoot rootPk with
  | none => .error "set change: set-power for a root that is not seated"
  | some seat =>
    if seat.votingPower = votingPower then .ok none
    else .ok (some (set.repower (fun v => v.rootPk = rootPk) votingPower))

/-- The bootstrap re-weight: the given roots' seats get the power, or nothing has to change. -/
def reweightRoots (set : HkValidatorSet H) (roots : List (List UInt8)) (power : ℕ) :
    Option (HkValidatorSet H) :=
  if ∃ v ∈ set.validators, v.rootPk ∈ roots ∧ v.votingPower ≠ power then
    some (set.repower (fun v => v.rootPk ∈ roots ∧ v.votingPower ≠ power) power)
  else none

/-! ## What a change does -/

/-- The change takes effect on a set and leads to another one. -/
inductive Effect (set : HkValidatorSet H) : SetChange → HkValidatorSet H → Prop
  | admitSeat {root pk : List UInt8} {power : ℕ} (hseat : ¬ set.Seated root)
      (haddr : ∀ v ∈ set, v.address ≠ HkAddress.fromPublicKey pk) :
      Effect set (.admitSeat root pk power) (set.push (.new root pk power))
  | remove {root : List UInt8} (hseat : set.Seated root) (hne : set.without root ≠ []) :
      Effect set (.remove root) (new (set.without root) hne)
  | setPower {root : List UInt8} {power : ℕ} {seat : HkValidator H}
      (hseat : set.findRoot root = some seat) (hpower : seat.votingPower ≠ power) :
      Effect set (.setPower root power) (set.repower (fun v => v.rootPk = root) power)

lemma applyAdmit_eq_some {set set' : HkValidatorSet H} {root pk : List UInt8} {power : ℕ} :
    set.applyAdmit root pk power = .ok (some set') ↔
      Effect set (.admitSeat root pk power) set' := by
  unfold applyAdmit
  constructor
  · intro h
    simp only at h
    split_ifs at h with hseat haddr
    · cases h
    · cases h
      exact .admitSeat hseat fun v hv hva => haddr ⟨v, hv, hva⟩
  · rintro ⟨hseat, haddr⟩
    have hfree : ¬ ∃ v ∈ set.validators, v.address = (HkValidator.new root pk power).address :=
      fun ⟨v, hv, hva⟩ => haddr v hv hva
    simp only [hseat, hfree, if_false]

lemma applyRemove_eq_some {set set' : HkValidatorSet H} {root : List UInt8} :
    set.applyRemove root = .ok (some set') ↔ Effect set (.remove root) set' := by
  unfold applyRemove
  constructor
  · intro h
    split_ifs at h with hseat hne
    · cases h
      exact .remove hseat hne
    · cases h
  · rintro ⟨⟩
    rename_i hne hseat
    simp only [hseat, hne, not_true_eq_false, if_false, dite_false]

lemma applySetPower_eq_some {set set' : HkValidatorSet H} {root : List UInt8} {power : ℕ} :
    set.applySetPower root power = .ok (some set') ↔ Effect set (.setPower root power) set' := by
  unfold applySetPower
  constructor
  · intro h
    cases hfind : set.findRoot root with
    | none =>
      rw [hfind] at h
      cases h
    | some seat =>
      simp only [hfind] at h
      split_ifs at h with hpower
      · cases h
      · cases h
        exact .setPower hfind hpower
  · rintro ⟨⟩
    rename_i seat hpower hseat
    simp only [hseat, hpower, if_false]

/-! ## Certificates -/

variable [RootScheme]

/-- Apply a certificate at a commit height: a new set, no change, or a refusal. -/
def applySetChange (set : HkValidatorSet H) (cert : SetChangeCert) (height : ℕ)
    (chainId : String) : Except String (Option (HkValidatorSet H)) := do
  let notBefore := cert.body.notBefore
  let notAfter := cert.body.notAfter
  cert.verifyAgainst set chainId
  if ¬ cert.inWindow height then
    throw s!"set change: height {height} outside [{notBefore}, {notAfter}]"
  match cert.body.change with
  | .admitSeat rootPk publicKey votingPower => set.applyAdmit rootPk publicKey votingPower
  | .remove rootPk => set.applyRemove rootPk
  | .setPower rootPk votingPower => set.applySetPower rootPk votingPower

/-- The checks on a certificate that do not depend on what it changes. -/
def Passes (set : HkValidatorSet H) (cert : SetChangeCert) (height : ℕ) (chainId : String) : Prop :=
  cert.verifyAgainst set chainId = .ok () ∧ cert.inWindow height = true

/-- A certificate changes the set exactly when it passes the checks and its change takes effect. -/
lemma applySetChange_eq_some {set set' : HkValidatorSet H} {cert : SetChangeCert} {height : ℕ}
    {chainId : String} :
    set.applySetChange cert height chainId = .ok (some set') ↔
      set.Passes cert height chainId ∧ Effect set cert.body.change set' := by
  unfold applySetChange Passes
  cases hver : cert.verifyAgainst set chainId with
  | error e => simp [bind, Except.bind]
  | ok u =>
    by_cases hwin : cert.inWindow height = true
    · simp only [bind, Except.bind, hwin, not_true_eq_false, if_false, and_self, true_and]
      cases cert.body.change with
      | admitSeat root pk power => exact applyAdmit_eq_some
      | remove root => exact applyRemove_eq_some
      | setPower root power => exact applySetPower_eq_some
    · simp [bind, Except.bind, hwin, throw, throwThe, MonadExceptOf.throw]

end HkValidatorSet

end HashKinetics
