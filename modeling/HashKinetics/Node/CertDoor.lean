import HashKinetics.Consensus.Replay
import HashKinetics.Consensus.RotationRule

/-!
# The certificate doors

A node takes rotation and set-change certificates from anyone and carries them to its next proposal.
A submission is judged twice by free checks (`rotationPreflight`, `setChangePreflight`), with the
signature verification between them on a snapshot of the set: what the checks saw may have moved
when it returns.  The free checks repeat the acceptance rule by hand, without the signatures; what
they say is stated once for each door, and compared with what a commit at the next height does.
-/

namespace HashKinetics

open Foundations

/-- How far ahead of the tip a set change may name its first height. -/
def SET_CHANGE_HORIZON : ℕ := 1000000

/-- What the free checks of a door lead to when they do not refuse. -/
inductive Preflight where
  | alreadyQueued
  | verify
  deriving DecidableEq

/-- The answer to a submission.  An accepted one says whether the certificate itself was queued or
an equivalent one is queued already. -/
inductive DoorAnswer where
  | refused (reason : String)
  | busy
  | accepted (queued : Bool)
  deriving DecidableEq

/-- The answer is positive. -/
def DoorAnswer.IsAccepted (answer : DoorAnswer) : Prop := ∃ queued, answer = .accepted queued

/-- Up to the verification: the answer, or nothing when the certificate verified on the snapshot. -/
def doorGate {α : Type} (preflight : Except String Preflight) (slot : Bool)
    (verify : Except String α) : Option DoorAnswer :=
  match preflight with
  | .error reason => some (.refused reason)
  | .ok .alreadyQueued => some (.accepted false)
  | .ok .verify =>
    if slot then
      match verify with
      | .error reason => some (.refused reason)
      | .ok _ => none
    else some .busy

/-- After the verification: the free checks once more, and the queue with the certificate. -/
def doorFinish {α : Type} (preflight : Except String Preflight) (queue pushed : List α) :
    DoorAnswer × List α :=
  match preflight with
  | .error reason => (.refused reason, queue)
  | .ok .alreadyQueued => (.accepted false, queue)
  | .ok .verify => (.accepted true, pushed)

/-- The rule a rotation is judged by at a door: the one at the height after the tip. -/
def SetRules.doorRules (rules : SetRules) (tip : ℕ) : RotationRules :=
  rules.rotationRules (satAdd u64Max tip 1)

section Rotations

variable {H : Type}

/-- A queued rotation answers for a submitted one: the same root at this epoch or a newer one. -/
def RotationCert.Covers (x cert : RotationCert) : Prop :=
  x.rootPk = cert.rootPk ∧ cert.epoch ≤ x.epoch

instance (x cert : RotationCert) : Decidable (x.Covers cert) := inferInstanceAs (Decidable (_ ∧ _))

/-- The free checks of a submitted rotation, in the order they refuse. -/
def rotationPreflight (set : HkValidatorSet H) (queue : List RotationCert) (rules : RotationRules)
    (cert : RotationCert) : Except String Preflight :=
  match set.findRoot cert.rootPk with
  | none => .error "rotation cert: no validator with that root identity"
  | some seat =>
    let epoch := cert.epoch
    let current := seat.epoch
    let got := cert.rootSig.length
    if epoch ≤ current then
      .error s!"rotation cert: stale (cert epoch {epoch}, current {current})"
    else do
      cert.checkWindow rules
      if got ≠ ROOT_SIG_LEN then
        throw s!"rotation cert: root_sig must be {ROOT_SIG_LEN} bytes (SLH-DSA-192s), got {got}"
      if queue.any (fun x => x.Covers cert) then return .alreadyQueued
      return .verify

/-- The queue with a verified rotation: a newer one retires the older copies of its root. -/
def pushRotation (queue : List RotationCert) (cert : RotationCert) : List RotationCert :=
  queue.filter (fun x => ¬ (x.rootPk = cert.rootPk ∧ x.epoch < cert.epoch)) ++ [cert]

variable [RootScheme]

/-- The part of a rotation's submission before and with the verification. -/
def rotationGate (set : HkValidatorSet H) (queue : List RotationCert) (slot : Bool)
    (rules : RotationRules) (cert : RotationCert) : Option DoorAnswer :=
  doorGate (rotationPreflight set queue rules cert) slot (set.applyRotation cert rules)

/-- The part after it. -/
def rotationFinish (set : HkValidatorSet H) (queue : List RotationCert) (rules : RotationRules)
    (cert : RotationCert) : DoorAnswer × List RotationCert :=
  doorFinish (rotationPreflight set queue rules cert) queue (pushRotation queue cert)

/-- A submission during which nothing moves. -/
def submitRotation (set : HkValidatorSet H) (queue : List RotationCert) (slot : Bool)
    (rules : RotationRules) (cert : RotationCert) : DoorAnswer × List RotationCert :=
  match rotationGate set queue slot rules cert with
  | some answer => (answer, queue)
  | none => rotationFinish set queue rules cert

end Rotations

section SetChanges

variable {H : Type}

/-- The approving power as the door counts it: sizes, distinct roots and seats, but no
signatures. -/
def preflightApprovals (set : HkValidatorSet H) :
    List Approval → List (List UInt8) → ℕ → Except String ℕ
  | [], _, approving => .ok approving
  | a :: approvals, seen, approving =>
    if a.rootPk.length ≠ ROOT_PK_LEN ∨ a.rootSig.length ≠ ROOT_SIG_LEN then
      .error
        (s!"set change: an approval must be a {ROOT_PK_LEN}-byte root + {ROOT_SIG_LEN}-byte " ++
        "SLH-DSA-192s signature")
    else if a.rootPk ∈ seen then .error "set change: duplicate approval from one root"
    else
      match set.findRoot a.rootPk with
      | none => .error "set change: approval from a root that is not seated"
      | some seat =>
        preflightApprovals set approvals (seen ++ [a.rootPk])
          (satAdd u64Max approving seat.votingPower)

/-- The subject of a change as a commit would judge it against the set as it stands. -/
def preflightSubject [HashSuite H] (set : HkValidatorSet H) : SetChange → Except String Unit
  | .admitSeat rootPk publicKey _ =>
    if set.Seated rootPk then .error "set change: already applied — that root is seated"
    else if ∃ v ∈ set.validators, v.address = HkAddress.fromPublicKey publicKey then
      .error "set change: operational key collides with a seated address"
    else .ok ()
  | .remove rootPk =>
    if ¬ set.Seated rootPk then .error "set change: already applied — that root is not seated"
    else if set.validators.length = 1 then .error "set change: refusing to remove the last seat"
    else .ok ()
  | .setPower rootPk votingPower =>
    match set.findRoot rootPk with
    | none => .error "set change: set-power for a root that is not seated"
    | some seat =>
      if seat.votingPower = votingPower then
        .error s!"set change: already applied — that seat already weighs {votingPower}"
      else .ok ()

/-- The free checks of a submitted set change, in the order they refuse. -/
def setChangePreflight [HashSuite H] (set : HkValidatorSet H) (queue : List SetChangeCert)
    (chainId : String) (tip : ℕ) (cert : SetChangeCert) : Except String Preflight := do
  let certChain := cert.body.chainId
  let notBefore := cert.body.notBefore
  let notAfter := cert.body.notAfter
  cert.body.checkShape
  if certChain ≠ chainId then throw s!"set change: for chain {certChain} — this is {chainId}"
  if notAfter < tip then throw s!"window closed: not_after {notAfter} < tip {tip}"
  if satAdd u64Max tip SET_CHANGE_HORIZON < notBefore then
    throw (s!"window too far ahead: not_before {notBefore} > tip {tip} + {SET_CHANGE_HORIZON} — " ++
      "assemble it closer to its window")
  if cert.approvals.isEmpty then throw "set change: no approvals"
  let total := set.totalVotingPower
  let approving ← preflightApprovals set cert.approvals [] 0
  if satMul u64Max approving 3 ≤ satMul u64Max total 2 then
    throw s!"set change: approving power {approving} is not > 2/3 of {total}"
  preflightSubject set cert.body.change
  if queue.any (fun x => x.body = cert.body) then return .alreadyQueued
  return .verify

variable [HashSuite H] [RootScheme]

/-- The part of a set change's submission before and with the verification. -/
def setChangeGate (set : HkValidatorSet H) (queue : List SetChangeCert) (slot : Bool)
    (chainId : String) (tip : ℕ) (cert : SetChangeCert) : Option DoorAnswer :=
  doorGate (setChangePreflight set queue chainId tip cert) slot (cert.verifyAgainst set chainId)

/-- The part after it. -/
def setChangeFinish (set : HkValidatorSet H) (queue : List SetChangeCert) (chainId : String)
    (tip : ℕ) (cert : SetChangeCert) : DoorAnswer × List SetChangeCert :=
  doorFinish (setChangePreflight set queue chainId tip cert) queue (queue ++ [cert])

/-- A submission during which nothing moves. -/
def submitSetChange (set : HkValidatorSet H) (queue : List SetChangeCert) (slot : Bool)
    (chainId : String) (tip : ℕ) (cert : SetChangeCert) : DoorAnswer × List SetChangeCert :=
  match setChangeGate set queue slot chainId tip cert with
  | some answer => (answer, queue)
  | none => setChangeFinish set queue chainId tip cert

end SetChanges

/-! ## What the gate and the finish say -/

section Doors

variable {α β : Type} {preflight : Except String Preflight} {queue pushed : List β} {q : Bool}

/-- Before the verification only an equivalent queued certificate makes an answer positive. -/
lemma doorGate_eq_accepted {slot : Bool} {verify : Except String α} :
    doorGate preflight slot verify = some (.accepted q) ↔
      preflight = .ok .alreadyQueued ∧ q = false := by
  unfold doorGate
  cases preflight with
  | error reason => simp
  | ok p =>
    cases p with
    | alreadyQueued => simp [eq_comm]
    | verify => cases slot <;> cases verify <;> simp

/-- The submission goes on exactly when the certificate verified on the snapshot. -/
lemma doorGate_eq_none {slot : Bool} {verify : Except String α} :
    doorGate preflight slot verify = none ↔
      preflight = .ok .verify ∧ slot = true ∧ ∃ a, verify = .ok a := by
  unfold doorGate
  cases preflight with
  | error reason => simp
  | ok p => cases p <;> cases slot <;> cases verify <;> simp

/-- The free checks ask for a verification when nothing queued answers. -/
lemma verify_eq_ite_any {p : β → Prop} [DecidablePred p] :
    (Preflight.verify = if queue.any (fun x => p x) then .alreadyQueued else .verify) ↔
      ∀ x ∈ queue, ¬ p x := by
  split_ifs with hany
  · obtain ⟨x, hx, hpx⟩ := List.any_eq_true.mp hany
    exact iff_of_false (by simp) fun h => h x hx (of_decide_eq_true hpx)
  · exact iff_of_true rfl fun x hx hpx => hany (List.any_eq_true.mpr ⟨x, hx, decide_eq_true hpx⟩)

/-- They answer at once when something queued does. -/
lemma alreadyQueued_eq_ite_any {p : β → Prop} [DecidablePred p] :
    (Preflight.alreadyQueued = if queue.any (fun x => p x) then .alreadyQueued else .verify) ↔
      ∃ x ∈ queue, p x := by
  split_ifs with hany
  · obtain ⟨x, hx, hpx⟩ := List.any_eq_true.mp hany
    exact iff_of_true rfl ⟨x, hx, of_decide_eq_true hpx⟩
  · exact iff_of_false (by simp) fun ⟨x, hx, hpx⟩ =>
      hany (List.any_eq_true.mpr ⟨x, hx, decide_eq_true hpx⟩)

end Doors

/-! ## Rotations -/

/-- What the free checks of the rotation door let through. -/
structure RotationCert.Considered {H : Type} (cert : RotationCert) (set : HkValidatorSet H)
    (rules : RotationRules) : Prop where
  seat : ∃ seat, set.findRoot cert.rootPk = some seat ∧ seat.epoch < cert.epoch
  window : cert.checkWindow rules = .ok ()
  size : cert.rootSig.length = ROOT_SIG_LEN

section Rotations

variable {H : Type} {set : HkValidatorSet H} {queue : List RotationCert} {rules : RotationRules}
  {cert : RotationCert}

lemma rotationPreflight_eq_ok {p : Preflight} : rotationPreflight set queue rules cert = .ok p ↔
    cert.Considered set rules ∧
      p = if queue.any (fun x => x.Covers cert) then .alreadyQueued else .verify := by
  have hconsidered : cert.Considered set rules ↔
      (∃ seat, set.findRoot cert.rootPk = some seat ∧ seat.epoch < cert.epoch) ∧
        cert.checkWindow rules = .ok () ∧ cert.rootSig.length = ROOT_SIG_LEN :=
    ⟨fun h => ⟨h.seat, h.window, h.size⟩, fun h => ⟨h.1, h.2.1, h.2.2⟩⟩
  rw [hconsidered]
  unfold rotationPreflight
  cases hfind : set.findRoot cert.rootPk with
  | none => simp
  | some seat =>
    by_cases hepoch : cert.epoch ≤ seat.epoch
    · simp [hepoch, Nat.not_lt.mpr hepoch]
    · cases hwindow : cert.checkWindow rules with
      | error e => simp [hepoch, bind, Except.bind]
      | ok u =>
        by_cases hsize : cert.rootSig.length = ROOT_SIG_LEN
        · simp only [hepoch, hsize, bind, Except.bind, pure, Except.pure, ne_eq, not_true_eq_false,
            if_false, Option.some.injEq, exists_eq_left', Nat.lt_of_not_le hepoch, true_and]
          split_ifs <;> simp [eq_comm]
        · simp [hepoch, hsize, bind, Except.bind, throw, throwThe, MonadExceptOf.throw]

lemma rotationPreflight_eq_verify : rotationPreflight set queue rules cert = .ok .verify ↔
    cert.Considered set rules ∧ ∀ x ∈ queue, ¬ x.Covers cert :=
  rotationPreflight_eq_ok.trans (and_congr_right fun _ => verify_eq_ite_any)

lemma rotationPreflight_eq_queued : rotationPreflight set queue rules cert = .ok .alreadyQueued ↔
    cert.Considered set rules ∧ ∃ x ∈ queue, x.Covers cert :=
  rotationPreflight_eq_ok.trans (and_congr_right fun _ => alreadyQueued_eq_ite_any)

lemma mem_pushRotation {x : RotationCert} : x ∈ pushRotation queue cert ↔
    x ∈ queue ∧ ¬ (x.rootPk = cert.rootPk ∧ x.epoch < cert.epoch) ∨ x = cert := by
  unfold pushRotation
  rw [List.mem_append, List.mem_filter, List.mem_singleton, decide_eq_true_iff]

/-- Queueing a verified rotation keeps one rotation for each root. -/
lemma pairwise_pushRotation (hqueue : queue.Pairwise fun x y => x.rootPk ≠ y.rootPk)
    (hnone : ∀ x ∈ queue, ¬ x.Covers cert) :
    (pushRotation queue cert).Pairwise fun x y => x.rootPk ≠ y.rootPk := by
  unfold pushRotation
  refine List.pairwise_append.mpr ⟨hqueue.sublist List.filter_sublist, List.pairwise_singleton _ _,
    ?_⟩
  intro x hx y hy hroot
  obtain rfl := List.mem_singleton.mp hy
  obtain ⟨hx, hkeep⟩ := List.mem_filter.mp hx
  -- an entry for the root would cover the certificate or be retired by it
  refine hnone x hx ⟨hroot, ?_⟩
  by_contra hold
  exact of_decide_eq_true hkeep ⟨hroot, not_le.mp hold⟩

variable [RootScheme]

/-- A considered rotation is applied exactly when its signature verifies. -/
lemma RotationCert.Considered.applyRotation_iff (h : cert.Considered set rules) :
    (∃ s', set.applyRotation cert rules = .ok s') ↔
      cert.verifySig rules.domain rules.chainId = true := by
  obtain ⟨seat, hseat, hepoch⟩ := h.seat
  rw [HkValidatorSet.applyRotation_ok_iff]
  constructor
  · rintro ⟨-, -, -, -, hsig⟩
    exact hsig
  · intro hsig
    exact ⟨seat, hseat, hepoch, h.window, hsig⟩

/-- What a commit applies, the free checks let through. -/
lemma RotationCert.considered_of_applyRotation {s' : HkValidatorSet H}
    (h : set.applyRotation cert rules = .ok s') : cert.Considered set rules := by
  obtain ⟨seat, hseat, hepoch, hwindow, hsig⟩ := HkValidatorSet.applyRotation_ok_iff.mp ⟨s', h⟩
  exact ⟨⟨seat, hseat, hepoch⟩, hwindow, (of_decide_eq_true hsig).2.1⟩

/-- An applied rotation changes the set: the epoch of its seat moves on. -/
lemma HkValidatorSet.ne_of_applyRotation {s' : HkValidatorSet H}
    (h : set.applyRotation cert rules = .ok s') : s' ≠ set := by
  obtain ⟨seat, hfind, hepoch, rfl⟩ := HkValidatorSet.applyRotation_eq_ok h
  intro heq
  have hmem : seat ∈ set.rekey seat.address cert.newOpPk cert.epoch := by
    rw [heq]
    exact (HkValidatorSet.mem_of_findRoot hfind).1
  obtain ⟨v, -, hv⟩ := HkValidatorSet.mem_mapSeats.mp hmem
  split_ifs at hv with haddr
  · have hsame : cert.epoch = seat.epoch := by rw [← hv]
    omega
  · exact haddr (by rw [hv])

/-- **The rotation door on an empty queue**: a rotation is accepted exactly when the rule applies it
and so changes the set. -/
lemma submitRotation_nil : (submitRotation set [] true rules cert).1.IsAccepted ↔
    ∃ s', set.applyRotation cert rules = .ok s' ∧ s' ≠ set := by
  have hchanges : (∃ s', set.applyRotation cert rules = .ok s' ∧ s' ≠ set) ↔
      ∃ s', set.applyRotation cert rules = .ok s' :=
    ⟨fun ⟨s', h, _⟩ => ⟨s', h⟩, fun ⟨s', h⟩ => ⟨s', h, HkValidatorSet.ne_of_applyRotation h⟩⟩
  rw [hchanges]
  constructor
  · rintro ⟨q, h⟩
    unfold submitRotation at h
    cases hgate : rotationGate set [] true rules cert with
    | some answer =>
      rw [hgate] at h
      subst h
      obtain ⟨-, x, hx, -⟩ := rotationPreflight_eq_queued.mp (doorGate_eq_accepted.mp hgate).1
      cases hx
    | none => exact (doorGate_eq_none.mp hgate).2.2
  · rintro ⟨s', hs'⟩
    have hpre : rotationPreflight set [] rules cert = .ok .verify :=
      rotationPreflight_eq_verify.mpr ⟨RotationCert.considered_of_applyRotation hs', by simp⟩
    have hgate : rotationGate set [] true rules cert = none :=
      doorGate_eq_none.mpr ⟨hpre, rfl, s', hs'⟩
    unfold submitRotation rotationFinish
    rw [hgate, hpre]
    exact ⟨true, rfl⟩

end Rotations

/-! ## Set changes -/

/-- The window of a body in shape is not empty. -/
lemma notBefore_le_notAfter {body : SetChangeBody} (h : body.checkShape = .ok ()) :
    body.notBefore ≤ body.notAfter := by
  unfold SetChangeBody.checkShape at h
  split_ifs at h with _ horder
  exact Nat.not_lt.mp horder

/-- The approving roots hold seats, each counted once, with more than two thirds of the power. -/
def SetChangeCert.Approved {H : Type} (cert : SetChangeCert) (set : HkValidatorSet H) : Prop :=
  ∃ approving, preflightApprovals set cert.approvals [] 0 = .ok approving ∧
    satMul u64Max set.totalVotingPower 2 < satMul u64Max approving 3

/-- Every approval is signed by its root. -/
def SetChangeCert.Signed [RootScheme] (cert : SetChangeCert) : Prop :=
  ∀ a ∈ cert.approvals, a.verify cert.body = true

/-- The parts of a set change that do not depend on the set: its shape, its chain and some
approval. -/
structure SetChangeCert.WellFormed (cert : SetChangeCert) (chainId : String) : Prop where
  shape : cert.body.checkShape = .ok ()
  chain : cert.body.chainId = chainId
  approvals : cert.approvals ≠ []

/-- What the free checks of the set-change door let through. -/
structure SetChangeCert.Considered {H : Type} [HashSuite H] (cert : SetChangeCert)
    (set : HkValidatorSet H) (chainId : String) (tip : ℕ) : Prop where
  form : cert.WellFormed chainId
  opened : tip ≤ cert.body.notAfter
  near : cert.body.notBefore ≤ satAdd u64Max tip SET_CHANGE_HORIZON
  approved : cert.Approved set
  subject : preflightSubject set cert.body.change = .ok ()

section SetChanges

variable {H : Type} {set : HkValidatorSet H} {cert : SetChangeCert} {chainId : String}

/-- The counted power is the approving power, once every approval is signed. -/
lemma approvingPower_eq_ok [RootScheme] {body : SetChangeBody} {approvals : List Approval}
    {seen : List (List UInt8)} {from_ q : ℕ} :
    SetChangeCert.approvingPower set body approvals seen from_ = .ok q ↔
      preflightApprovals set approvals seen from_ = .ok q ∧
        ∀ a ∈ approvals, a.verify body = true := by
  induction approvals generalizing seen from_ with
  | nil => simp [SetChangeCert.approvingPower, preflightApprovals]
  | cons a approvals ih =>
    rw [List.forall_mem_cons, SetChangeCert.approvingPower, preflightApprovals]
    by_cases hsig : a.verify body = true
    · -- a signature that verifies has the right size
      have hsize : ¬ (a.rootPk.length ≠ ROOT_PK_LEN ∨ a.rootSig.length ≠ ROOT_SIG_LEN) := by
        obtain ⟨hpk, hlen, -⟩ := of_decide_eq_true hsig
        simp [hpk, hlen]
      by_cases hseen : a.rootPk ∈ seen
      · simp [hseen, hsize]
      · cases hfind : set.findRoot a.rootPk with
        | none => simp [hseen, hsize]
        | some seat =>
          simp only [hseen, hsig, hsize, if_true, if_false, true_and]
          exact ih
    · refine iff_of_false (fun h => ?_) fun h => hsig h.2.1
      by_cases hseen : a.rootPk ∈ seen
      · simp [hseen] at h
      · cases hfind : set.findRoot a.rootPk with
        | none => simp [hseen, hfind] at h
        | some seat => simp [hseen, hfind, hsig] at h

/-- The acceptance check, part by part. -/
lemma verifyAgainst_eq_ok_iff [RootScheme] : cert.verifyAgainst set chainId = .ok () ↔
    cert.WellFormed chainId ∧ cert.Approved set ∧ cert.Signed := by
  have hform : cert.WellFormed chainId ↔ cert.body.checkShape = .ok () ∧
      cert.body.chainId = chainId ∧ cert.approvals ≠ [] :=
    ⟨fun h => ⟨h.shape, h.chain, h.approvals⟩, fun h => ⟨h.1, h.2.1, h.2.2⟩⟩
  have hpower : cert.Approved set ∧ cert.Signed ↔ ∃ approving,
      SetChangeCert.approvingPower set cert.body cert.approvals [] 0 = .ok approving ∧
        satMul u64Max set.totalVotingPower 2 < satMul u64Max approving 3 := by
    simp only [approvingPower_eq_ok, SetChangeCert.Approved, SetChangeCert.Signed]
    constructor
    · rintro ⟨⟨approving, hcount, hmore⟩, hsigned⟩
      exact ⟨approving, ⟨hcount, hsigned⟩, hmore⟩
    · rintro ⟨approving, ⟨hcount, hsigned⟩, hmore⟩
      exact ⟨⟨approving, hcount, hmore⟩, hsigned⟩
  rw [hform, hpower]
  unfold SetChangeCert.verifyAgainst
  cases hshape : cert.body.checkShape with
  | error e => simp [bind, Except.bind]
  | ok u =>
    by_cases hchain : cert.body.chainId = chainId
    · by_cases hsome : cert.approvals = []
      · simp [hchain, hsome, bind, Except.bind, throw, throwThe, MonadExceptOf.throw]
      · cases hpow : SetChangeCert.approvingPower set cert.body cert.approvals [] 0 with
        | error e => simp [hchain, hsome, bind, Except.bind]
        | ok approving =>
          by_cases hmore : satMul u64Max approving 3 ≤ satMul u64Max set.totalVotingPower 2
          · simp [hchain, hsome, hmore, Nat.not_lt.mpr hmore, bind, Except.bind, throw, throwThe,
              MonadExceptOf.throw]
          · simp [hchain, hsome, hmore, Nat.lt_of_not_le hmore, bind, Except.bind, pure,
              Except.pure]
    · simp [hchain, bind, Except.bind, throw, throwThe, MonadExceptOf.throw]

variable [HashSuite H] {queue : List SetChangeCert} {tip : ℕ}

lemma setChangePreflight_eq_ok {p : Preflight} : setChangePreflight set queue chainId tip cert =
    .ok p ↔
    cert.Considered set chainId tip ∧
      p = if queue.any (fun x => x.body = cert.body) then .alreadyQueued else .verify := by
  have hconsidered : cert.Considered set chainId tip ↔ cert.body.checkShape = .ok () ∧
      cert.body.chainId = chainId ∧ tip ≤ cert.body.notAfter ∧
      cert.body.notBefore ≤ satAdd u64Max tip SET_CHANGE_HORIZON ∧ cert.approvals ≠ [] ∧
      cert.Approved set ∧ preflightSubject set cert.body.change = .ok () :=
    ⟨fun h => ⟨h.form.shape, h.form.chain, h.opened, h.near, h.form.approvals, h.approved,
      h.subject⟩,
      fun h => ⟨⟨h.1, h.2.1, h.2.2.2.2.1⟩, h.2.2.1, h.2.2.2.1, h.2.2.2.2.2.1, h.2.2.2.2.2.2⟩⟩
  rw [hconsidered]
  unfold setChangePreflight SetChangeCert.Approved
  cases hshape : cert.body.checkShape with
  | error e => simp [bind, Except.bind]
  | ok u =>
    by_cases hchain : cert.body.chainId = chainId
    swap
    · simp [hchain, bind, Except.bind, throw, throwThe, MonadExceptOf.throw]
    by_cases hopen : cert.body.notAfter < tip
    · simp [hchain, hopen, Nat.not_le.mpr hopen, bind, Except.bind, throw, throwThe,
        MonadExceptOf.throw]
    by_cases hnear : satAdd u64Max tip SET_CHANGE_HORIZON < cert.body.notBefore
    · simp [hchain, hopen, hnear, Nat.not_le.mpr hnear, bind, Except.bind, throw, throwThe,
        MonadExceptOf.throw]
    by_cases hsome : cert.approvals = []
    · simp [hchain, hopen, hnear, hsome, bind, Except.bind, throw, throwThe, MonadExceptOf.throw]
    have hopen' : tip ≤ cert.body.notAfter := Nat.not_lt.mp hopen
    have hnear' := Nat.not_lt.mp hnear
    cases hcount : preflightApprovals set cert.approvals [] 0 with
    | error e => simp [hchain, hopen, hnear, hsome, bind, Except.bind]
    | ok approving =>
      by_cases hmore : satMul u64Max approving 3 ≤ satMul u64Max set.totalVotingPower 2
      · simp [hchain, hopen, hnear, hsome, hmore, Nat.not_lt.mpr hmore, bind, Except.bind, throw,
          throwThe, MonadExceptOf.throw]
      cases hsubject : preflightSubject set cert.body.change with
      | error e => simp [hchain, hopen, hnear, hsome, hmore, bind, Except.bind]
      | ok u =>
        simp only [hchain, hopen, hnear, hsome, hmore, hopen', hnear',
          Nat.lt_of_not_le hmore, bind, Except.bind, pure, Except.pure, ne_eq, not_true_eq_false,
          not_false_eq_true, if_false, List.isEmpty_iff, Except.ok.injEq, exists_eq_left', true_and]
        split_ifs <;> simp [eq_comm]

lemma setChangePreflight_eq_verify : setChangePreflight set queue chainId tip cert = .ok .verify ↔
    cert.Considered set chainId tip ∧ ∀ x ∈ queue, x.body ≠ cert.body :=
  setChangePreflight_eq_ok.trans (and_congr_right fun _ => verify_eq_ite_any)

lemma setChangePreflight_eq_queued :
    setChangePreflight set queue chainId tip cert = .ok .alreadyQueued ↔
      cert.Considered set chainId tip ∧ ∃ x ∈ queue, x.body = cert.body :=
  setChangePreflight_eq_ok.trans (and_congr_right fun _ => alreadyQueued_eq_ite_any)

/-- The change removes the root that holds every one of several seats. -/
def SetChange.RemovesLastRoot (change : SetChange) (set : HkValidatorSet H) : Prop :=
  ∃ root, change = .remove root ∧ set.validators.length ≠ 1 ∧ ∀ v ∈ set, v.rootPk = root

/-- The free checks of the subject let through what takes effect, and the removal of a root that
holds several seats: they count seats where the commit counts what is left. -/
lemma preflightSubject_eq_ok {change : SetChange} : preflightSubject set change = .ok () ↔
    (∃ s', HkValidatorSet.Effect set change s') ∨ change.RemovesLastRoot set := by
  have hother : (∀ root, change ≠ .remove root) → ¬ change.RemovesLastRoot set := by
    rintro hne ⟨root, heq, -⟩
    exact hne root heq
  cases change with
  | admitSeat root pk power =>
    rw [or_iff_left (hother (by simp)), preflightSubject]
    split_ifs with hseat haddr
    · apply iff_of_false (by simp)
      rintro ⟨s', ⟨hfree, -⟩⟩
      exact hfree hseat
    · apply iff_of_false (by simp)
      rintro ⟨s', ⟨-, hfree⟩⟩
      obtain ⟨v, hv, hva⟩ := haddr
      exact hfree v hv hva
    · exact iff_of_true rfl ⟨_, .admitSeat hseat fun v hv hva => haddr ⟨v, hv, hva⟩⟩
  | remove root =>
    rw [preflightSubject]
    split_ifs with hseat hlen
    · apply iff_of_false (by simp)
      rintro (⟨s', ⟨⟩⟩ | ⟨root', -, hne, -⟩)
      · rename_i _ hne
        -- the one seat is the root's, so nothing is left
        obtain ⟨v, hv⟩ := List.length_eq_one_iff.mp hlen
        obtain ⟨w, hw, hwr⟩ := hseat
        rw [HkValidatorSet.mem_def, hv, List.mem_singleton] at hw
        refine hne (List.filter_eq_nil_iff.mpr fun u hu => ?_)
        rw [hv, List.mem_singleton] at hu
        simp [hu, ← hw, hwr]
      · exact hne hlen
    · apply iff_of_true rfl
      by_cases hleft : set.without root = []
      · refine .inr ⟨root, rfl, hlen, fun v hv => ?_⟩
        have hnone := List.filter_eq_nil_iff.mp hleft v hv
        simpa using hnone
      · exact .inl ⟨_, .remove hseat hleft⟩
    · apply iff_of_false (by simp)
      rintro (⟨s', ⟨⟩⟩ | ⟨root', heq, -, hall⟩)
      · rename_i hseated _
        exact hseat hseated
      · cases heq
        obtain ⟨v, hv⟩ := List.exists_mem_of_ne_nil _ set.ne_nil
        exact hseat ⟨v, hv, hall v hv⟩
  | setPower root power =>
    rw [or_iff_left (hother (by simp)), preflightSubject]
    cases hfind : set.findRoot root with
    | none =>
      apply iff_of_false (by simp)
      rintro ⟨s', ⟨⟩⟩
      rename_i hseat _
      simp [hfind] at hseat
    | some seat =>
      by_cases hpower : seat.votingPower = power
      · apply iff_of_false (by simp [hpower])
        rintro ⟨s', ⟨⟩⟩
        rename_i hseat hne
        rw [hfind] at hseat
        cases hseat
        exact hne hpower
      · exact iff_of_true (by simp [hpower]) ⟨_, .setPower hfind hpower⟩

variable [RootScheme]

/-- A commit at the next height changes the set, or one at the first height of a window that opens
later within the horizon does. -/
def SetChangeCert.Takes (cert : SetChangeCert) (set : HkValidatorSet H) (chainId : String)
    (tip : ℕ) :
    Prop :=
  ∃ s' ≠ set, set.applySetChange cert (tip + 1) chainId = .ok (some s') ∨
    tip + 1 < cert.body.notBefore ∧ cert.body.notBefore ≤ tip + SET_CHANGE_HORIZON ∧
      set.applySetChange cert cert.body.notBefore chainId = .ok (some s')

/-- Where the set-change door and the commit part: the window of a certificate in order ends at the
tip, or the change removes the root that holds every one of several seats. -/
def SetChangeCert.Misses (cert : SetChangeCert) (set : HkValidatorSet H) (chainId : String)
    (tip : ℕ) :
    Prop :=
  cert.verifyAgainst set chainId = .ok () ∧ tip ≤ cert.body.notAfter ∧
    cert.body.notBefore ≤ tip + SET_CHANGE_HORIZON ∧
    (cert.body.notAfter = tip ∧ (∃ s', HkValidatorSet.Effect set cert.body.change s') ∨
      cert.body.change.RemovesLastRoot set)

lemma SetChangeCert.takes_iff : cert.Takes set chainId tip ↔
    cert.verifyAgainst set chainId = .ok () ∧
    (∃ s', HkValidatorSet.Effect set cert.body.change s') ∧
    (cert.body.notBefore ≤ tip + 1 ∧ tip + 1 ≤ cert.body.notAfter ∨
      tip + 1 < cert.body.notBefore ∧ cert.body.notBefore ≤ tip + SET_CHANGE_HORIZON) := by
  unfold SetChangeCert.Takes
  simp only [HkValidatorSet.applySetChange_eq_some, HkValidatorSet.Passes, SetChangeCert.inWindow,
    decide_eq_true_iff]
  constructor
  · rintro ⟨s', -, ⟨⟨hver, hwin⟩, heff⟩ | ⟨hlater, hnear, ⟨hver, -⟩, heff⟩⟩
    · exact ⟨hver, ⟨s', heff⟩, .inl hwin⟩
    · exact ⟨hver, ⟨s', heff⟩, .inr ⟨hlater, hnear⟩⟩
  · rintro ⟨hver, ⟨s', heff⟩, hwin | ⟨hlater, hnear⟩⟩
    · exact ⟨s', heff.ne, .inl ⟨⟨hver, hwin⟩, heff⟩⟩
    · have horder := notBefore_le_notAfter (verifyAgainst_eq_ok_iff.mp hver).1.shape
      exact ⟨s', heff.ne, .inr ⟨hlater, hnear, ⟨hver, le_rfl, horder⟩, heff⟩⟩

lemma submitSetChange_nil : (submitSetChange set [] true chainId tip cert).1.IsAccepted ↔
    cert.Considered set chainId tip ∧ cert.verifyAgainst set chainId = .ok () := by
  constructor
  · rintro ⟨q, h⟩
    unfold submitSetChange at h
    cases hgate : setChangeGate set [] true chainId tip cert with
    | some answer =>
      rw [hgate] at h
      subst h
      obtain ⟨-, x, hx, -⟩ := setChangePreflight_eq_queued.mp (doorGate_eq_accepted.mp hgate).1
      cases hx
    | none =>
      obtain ⟨hpre, -, u, hver⟩ := doorGate_eq_none.mp hgate
      exact ⟨(setChangePreflight_eq_verify.mp hpre).1, hver⟩
  · rintro ⟨hconsidered, hver⟩
    have hpre : setChangePreflight set [] chainId tip cert = .ok .verify :=
      setChangePreflight_eq_verify.mpr ⟨hconsidered, by simp⟩
    have hgate : setChangeGate set [] true chainId tip cert = none :=
      doorGate_eq_none.mpr ⟨hpre, rfl, (), hver⟩
    unfold submitSetChange setChangeFinish
    rw [hgate, hpre]
    exact ⟨true, rfl⟩

/-- **The set-change door on an empty queue**: it agrees with the commit exactly outside the
certificates in order whose window ends at the tip, or that remove the root of every one of several
seats. -/
lemma submitSetChange_nil_iff (hbefore : cert.body.notBefore ≤ u64Max) :
    ((submitSetChange set [] true chainId tip cert).1.IsAccepted ↔ cert.Takes set chainId tip) ↔
      ¬ cert.Misses set chainId tip := by
  have hnear : cert.body.notBefore ≤ satAdd u64Max tip SET_CHANGE_HORIZON ↔
      cert.body.notBefore ≤ tip + SET_CHANGE_HORIZON := by
    unfold satAdd
    omega
  have haccepted : (submitSetChange set [] true chainId tip cert).1.IsAccepted ↔
      cert.verifyAgainst set chainId = .ok () ∧ tip ≤ cert.body.notAfter ∧
        cert.body.notBefore ≤ tip + SET_CHANGE_HORIZON ∧
        ((∃ s', HkValidatorSet.Effect set cert.body.change s') ∨
          cert.body.change.RemovesLastRoot set) := by
    rw [submitSetChange_nil, ← preflightSubject_eq_ok, ← hnear]
    constructor
    · rintro ⟨hc, hver⟩
      exact ⟨hver, hc.opened, hc.near, hc.subject⟩
    · rintro ⟨hver, hopened, hnear, hsubject⟩
      obtain ⟨hform, happroved, -⟩ := verifyAgainst_eq_ok_iff.mp hver
      exact ⟨⟨hform, hopened, hnear, happroved, hsubject⟩, hver⟩
  -- a change that takes effect is not the removal of the last root
  have hexclusive : (∃ s', HkValidatorSet.Effect set cert.body.change s') →
      ¬ cert.body.change.RemovesLastRoot set := by
    rintro ⟨s', heff⟩ ⟨root, hroot, -, hall⟩
    rw [hroot] at heff
    cases heff with
    | remove hseat hne =>
      refine hne (List.filter_eq_nil_iff.mpr fun v hv => ?_)
      simp [hall v hv]
  have hhorizon : 1 ≤ SET_CHANGE_HORIZON := by decide
  rw [haccepted, SetChangeCert.takes_iff]
  unfold SetChangeCert.Misses
  by_cases heff : ∃ s', HkValidatorSet.Effect set cert.body.change s'
  · have hnot := hexclusive heff
    simp only [heff, hnot, or_false, and_true, true_and]
    by_cases hver : cert.verifyAgainst set chainId = .ok ()
    · have horder := notBefore_le_notAfter (verifyAgainst_eq_ok_iff.mp hver).1.shape
      simp only [hver, true_and]
      omega
    · simp [hver]
  · simp only [heff, false_or, false_and, and_false, iff_false]

end SetChanges

end HashKinetics
