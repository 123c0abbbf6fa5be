import HashKinetics.Node.CertDoor

/-!
# Runs of the certificate doors

Submissions arrive, are verified and queued while blocks commit, proposals are built and the node
queues rotations it has issued itself, in any order: the set, the tip and the queues may all move
between the two looks of a submission.  The queues keep what does not depend on the set
(`CertNode.Sound`); what an accepted answer rests on may have gone stale in the rest, and
`CertNode.Fresh` says for each move exactly when it has not.  An issue of the node that is older than
a queued one goes beside it, which `CertNode.TickClear` excludes.
-/

namespace HashKinetics

open Foundations

/-- A submission whose signatures are being verified, with the tip its door had read. -/
inductive Submission where
  | rotation (cert : RotationCert) (seen : ℕ)
  | setChange (cert : SetChangeCert) (seen : ℕ)
  deriving DecidableEq

/-- What the doors, the commits and the proposals of a node share. -/
structure CertNode (H : Type) where
  set : HkValidatorSet H
  tip : ℕ
  rotations : List RotationCert
  setChanges : List SetChangeCert
  verifying : List Submission

/-- The moves of a node. -/
inductive DoorMove where
  | rotation (cert : RotationCert) (seen : ℕ) (slot : Bool)
  | rotationVerified (cert : RotationCert) (seen : ℕ)
  | setChange (cert : SetChangeCert) (seen : ℕ) (slot : Bool)
  | setChangeVerified (cert : SetChangeCert) (seen : ℕ)
  | commit (batch : CertBatch)
  | propose (height : ℕ)
  /-- The rotation tick queues the certificate it has issued at the tip it read. -/
  | tick (cert : RotationCert) (seen : ℕ)

/-- The queue after a tick: the issue retires the copies of its root that are not newer. -/
def tickRotation (queue : List RotationCert) (cert : RotationCert) : List RotationCert :=
  queue.filter (fun x => ¬ (x.rootPk = cert.rootPk ∧ x.epoch ≤ cert.epoch)) ++ [cert]

lemma mem_tickRotation {queue : List RotationCert} {x cert : RotationCert} :
    x ∈ tickRotation queue cert ↔
      x ∈ queue ∧ ¬ (x.rootPk = cert.rootPk ∧ x.epoch ≤ cert.epoch) ∨ x = cert := by
  unfold tickRotation
  rw [List.mem_append, List.mem_filter, List.mem_singleton, decide_eq_true_iff]

/-- A tick keeps one rotation for each root exactly when no newer one of its root is queued. -/
lemma pairwise_tickRotation_iff {queue : List RotationCert} {cert : RotationCert}
    (hqueue : queue.Pairwise fun x y => x.rootPk ≠ y.rootPk) :
    ((tickRotation queue cert).Pairwise fun x y => x.rootPk ≠ y.rootPk) ↔
      ∀ x ∈ queue, x.rootPk = cert.rootPk → x.epoch ≤ cert.epoch := by
  constructor
  · intro h x hx hroot
    by_contra hnewer
    have hkept : x ∈ tickRotation queue cert :=
      mem_tickRotation.mpr (.inl ⟨hx, fun hretired => hnewer hretired.2⟩)
    have hcert : cert ∈ tickRotation queue cert := mem_tickRotation.mpr (.inr rfl)
    have hsame : x = cert :=
      List.inj_on_of_nodup_map (List.pairwise_map.mpr h) hkept hcert hroot
    exact hnewer (by rw [hsame])
  · intro h
    refine List.pairwise_append.mpr ⟨hqueue.sublist List.filter_sublist,
      List.pairwise_singleton _ _, ?_⟩
    intro x hx y hy hroot
    obtain rfl := List.mem_singleton.mp hy
    obtain ⟨hx, hkeep⟩ := List.mem_filter.mp hx
    exact of_decide_eq_true hkeep ⟨hroot, h x hx hroot⟩

section Commits

variable {H : Type} [HashSuite H] [RootScheme]

/-- One rotation of a committed block; when it is applied it retires the queued copies it
outdates. -/
def commitRotation (rules : SetRules) (height : ℕ) (st : HkValidatorSet H × List RotationCert)
    (cert : RotationCert) : HkValidatorSet H × List RotationCert :=
  match st.1.applyRotation cert (rules.rotationRules height) with
  | .ok s' => (s', st.2.filter fun x => ¬ (x.rootPk = cert.rootPk ∧ x.epoch ≤ cert.epoch))
  | .error _ => st

/-- One set change of a committed block; whatever happened, it retires the queued copy. -/
def commitSetChange (rules : SetRules) (height : ℕ) (st : HkValidatorSet H × List SetChangeCert)
    (cert : SetChangeCert) : HkValidatorSet H × List SetChangeCert :=
  (HkValidatorSet.change rules height st.1 cert, st.2.filter fun x => x.body ≠ cert.body)

/-- The certificates a proposal drops from the rotation queue: those the rule refuses at its
height. -/
def retainRotations (rules : SetRules) (set : HkValidatorSet H) (height : ℕ)
    (queue : List RotationCert) : List RotationCert :=
  queue.filter fun cert => (set.applyRotation cert (rules.rotationRules height)).toBool

/-- A set change stays queued until its window opens, and then as long as it would change the
set. -/
def retainSetChanges (rules : SetRules) (set : HkValidatorSet H) (height : ℕ)
    (queue : List SetChangeCert) : List SetChangeCert :=
  queue.filter fun cert =>
    if height < cert.body.notBefore then true
    else
      match set.applySetChange cert height rules.chainId with
      | .ok (some _) => true
      | _ => false

omit [HashSuite H] in
/-- Commits only drop queued rotations. -/
lemma snd_foldl_commitRotation (rules : SetRules) (height : ℕ) (certs : List RotationCert)
    (st : HkValidatorSet H × List RotationCert) :
    (certs.foldl (commitRotation rules height) st).2.Sublist st.2 := by
  refine invariant_of_foldl (I := fun t : HkValidatorSet H × List RotationCert => t.2.Sublist st.2)
    (fun t cert ht => ?_) certs (List.Sublist.refl _)
  unfold commitRotation
  split
  · exact List.filter_sublist.trans ht
  · exact ht

/-- Commits only drop queued set changes. -/
lemma snd_foldl_commitSetChange (rules : SetRules) (height : ℕ) (certs : List SetChangeCert)
    (st : HkValidatorSet H × List SetChangeCert) :
    (certs.foldl (commitSetChange rules height) st).2.Sublist st.2 :=
  invariant_of_foldl (I := fun t : HkValidatorSet H × List SetChangeCert => t.2.Sublist st.2)
    (fun _ _ ht => List.filter_sublist.trans ht) certs (List.Sublist.refl _)

end Commits

namespace CertNode

variable {H : Type} [HashSuite H] [RootScheme]

/-- Commit the next block. -/
def commit (rules : SetRules) (s : CertNode H) (batch : CertBatch) : CertNode H :=
  let height := s.tip + 1
  let rotated := batch.rotations.foldl (commitRotation rules height) (s.set, s.rotations)
  let changed := batch.setChanges.foldl (commitSetChange rules height) (rotated.1, s.setChanges)
  { s with
    set := HkValidatorSet.bootstrapAt rules height changed.1
    tip := height
    rotations := rotated.2
    setChanges := changed.2 }

/-- Build the certificates of a proposal. -/
def propose (rules : SetRules) (s : CertNode H) (height : ℕ) : CertNode H :=
  { s with
    rotations := retainRotations rules s.set height s.rotations
    setChanges := retainSetChanges rules s.set height s.setChanges }

/-- The answer a move gives, if it gives one, and what it leaves. -/
def move (rules : SetRules) (s : CertNode H) : DoorMove → Option DoorAnswer × CertNode H
  | .rotation cert seen slot =>
    match rotationGate s.set s.rotations slot (rules.doorRules seen) cert with
    | some answer => (some answer, s)
    | none => (none, { s with verifying := s.verifying ++ [.rotation cert seen] })
  | .rotationVerified cert seen =>
    let r := rotationFinish s.set s.rotations (rules.doorRules seen) cert
    (some r.1, { s with
      rotations := r.2
      verifying := s.verifying.erase (.rotation cert seen) })
  | .setChange cert seen slot =>
    match setChangeGate s.set s.setChanges slot rules.chainId seen cert with
    | some answer => (some answer, s)
    | none => (none, { s with verifying := s.verifying ++ [.setChange cert seen] })
  | .setChangeVerified cert seen =>
    let r := setChangeFinish s.set s.setChanges rules.chainId seen cert
    (some r.1, { s with
      setChanges := r.2
      verifying := s.verifying.erase (.setChange cert seen) })
  | .commit batch => (none, s.commit rules batch)
  | .propose height => (none, s.propose rules height)
  | .tick cert _ => (none, { s with rotations := tickRotation s.rotations cert })

omit [HashSuite H] in
/-- A door reads a tip at the latest when it looks at the set, and finishes what it began.  A tick
signs with a root secret that works, for the height after the tip it read. -/
def Enabled (rules : SetRules) (s : CertNode H) : DoorMove → Prop
  | .rotation _ seen _ => seen ≤ s.tip
  | .rotationVerified cert seen => .rotation cert seen ∈ s.verifying
  | .setChange _ seen _ => seen ≤ s.tip
  | .setChangeVerified cert seen => .setChange cert seen ∈ s.verifying
  | .commit _ => True
  | .propose _ => True
  | .tick cert seen => seen ≤ s.tip ∧ ∃ root newOpPk epoch, RootScheme.Sound root ∧
      cert = .issueFor root rules.chainId rules.rotationV2From newOpPk epoch (seen + 1)

/-- The steps of a node. -/
def Step (rules : SetRules) (s : CertNode H) (l : DoorMove) (s' : CertNode H) : Prop :=
  s.Enabled rules l ∧ (s.move rules l).2 = s'

/-- Nothing is queued and nothing is being verified. -/
structure Idle (s : CertNode H) : Prop where
  rotations : s.rotations = []
  setChanges : s.setChanges = []
  verifying : s.verifying = []

/-! ## What an accepted answer should leave -/

/-- A queued rotation for this root at this epoch or a newer one, which a commit at the next height
applies. -/
def HoldsRotation (rules : SetRules) (s : CertNode H) (cert : RotationCert) : Prop :=
  ∃ x ∈ s.rotations, x.Covers cert ∧
    ∃ s', s.set.applyRotation x (rules.rotationRules (s.tip + 1)) = .ok s'

/-- A queued set change with this body that verifies against the set, in its window at the next
height or before it. -/
def HoldsSetChange (rules : SetRules) (s : CertNode H) (cert : SetChangeCert) : Prop :=
  ∃ x ∈ s.setChanges, x.body = cert.body ∧ x.verifyAgainst s.set rules.chainId = .ok () ∧
    (x.inWindow (s.tip + 1) = true ∨
      s.tip + 1 < x.body.notBefore ∧ x.body.notBefore ≤ s.tip + SET_CHANGE_HORIZON)

/-- An accepted answer of this move leaves such a certificate. -/
def Leaves (rules : SetRules) (s : CertNode H) (l : DoorMove) : Prop :=
  ∀ queued, (s.move rules l).1 = some (.accepted queued) →
    match l with
    | .rotation cert _ _ => (s.move rules l).2.HoldsRotation rules cert
    | .rotationVerified cert _ => (s.move rules l).2.HoldsRotation rules cert
    | .setChange cert _ _ => (s.move rules l).2.HoldsSetChange rules cert
    | .setChangeVerified cert _ => (s.move rules l).2.HoldsSetChange rules cert
    | .commit _ => True
    | .propose _ => True
    | .tick _ _ => True

omit [HashSuite H] [RootScheme] in
/-- At most one rotation is queued for each root. -/
def SingleRotations (s : CertNode H) : Prop :=
  s.rotations.Pairwise fun x y => x.rootPk ≠ y.rootPk

omit [HashSuite H] [RootScheme] in
/-- A tick does not issue beside a newer queued rotation of its root. -/
def TickClear (s : CertNode H) : DoorMove → Prop
  | .tick cert _ => ∀ x ∈ s.rotations, x.rootPk = cert.rootPk → x.epoch ≤ cert.epoch
  | _ => True

/-! ## What the queues keep -/

/-- What holds of the queues whatever the set does: one rotation for each root, signed in the older
domain as long as that one counts, one set change for each body, well formed and signed; and what is
being verified has verified. -/
structure Sound (rules : SetRules) (s : CertNode H) : Prop where
  roots : s.rotations.Pairwise fun x y => x.rootPk ≠ y.rootPk
  older : ∀ x ∈ s.rotations, s.tip + 1 < rules.rotationV2From → x.verifySig .v1 rules.chainId = true
  bodies : s.setChanges.Pairwise fun x y => x.body ≠ y.body
  signed : ∀ x ∈ s.setChanges, x.WellFormed rules.chainId ∧ x.Signed
  rotation : ∀ cert seen, .rotation cert seen ∈ s.verifying → seen ≤ s.tip ∧
    cert.verifySig (rules.doorRules seen).domain rules.chainId = true
  setChange : ∀ cert seen, .setChange cert seen ∈ s.verifying → seen ≤ s.tip ∧ cert.Signed

omit [HashSuite H] in
lemma Idle.sound {s : CertNode H} (h : s.Idle) (rules : SetRules) : s.Sound rules := by
  refine ⟨?_, ?_, ?_, ?_, ?_, ?_⟩
  · simp [h.rotations]
  · simp [h.rotations]
  · simp [h.setChanges]
  · simp [h.setChanges]
  · simp [h.verifying]
  · simp [h.verifying]

variable {rules : SetRules} {s s' : CertNode H}

omit [HashSuite H] in
/-- Dropping queued certificates while the tip moves on keeps the queues sound. -/
lemma Sound.of_sublist (h : s.Sound rules) (htip : s.tip ≤ s'.tip)
    (hrot : s'.rotations.Sublist s.rotations) (hset : s'.setChanges.Sublist s.setChanges)
    (hver : ∀ x ∈ s'.verifying, x ∈ s.verifying) : s'.Sound rules := by
  refine ⟨h.roots.sublist hrot, fun x hx hv2 => ?_, h.bodies.sublist hset, fun x hx => ?_,
    fun cert seen hmem => ?_, fun cert seen hmem => ?_⟩
  · exact h.older x (hrot.subset hx) (by omega)
  · exact h.signed x (hset.subset hx)
  · obtain ⟨hseen, hsig⟩ := h.rotation cert seen (hver _ hmem)
    exact ⟨hseen.trans htip, hsig⟩
  · obtain ⟨hseen, hsig⟩ := h.setChange cert seen (hver _ hmem)
    exact ⟨hseen.trans htip, hsig⟩

omit [RootScheme] in
/-- A door that read a tip below the newer domain judges by the older one. -/
lemma domain_doorRules_of_lt {seen : ℕ} (h : seen + 1 < rules.rotationV2From) :
    (rules.doorRules seen).domain = .v1 := by
  have hlt : ¬ rules.rotationV2From ≤ satAdd u64Max seen 1 := by
    unfold satAdd
    omega
  exact if_neg hlt

omit [HashSuite H] in
/-- What a tick issues below the newer domain is signed in the older one. -/
lemma verifySig_v1_of_tick {cert : RotationCert} {seen : ℕ}
    (h : s.Enabled rules (.tick cert seen)) (hv2 : s.tip + 1 < rules.rotationV2From) :
    cert.verifySig .v1 rules.chainId = true := by
  obtain ⟨hseen, root, newOpPk, epoch, hroot, rfl⟩ := h
  have hdomain : ¬ rules.rotationV2From ≤ seen + 1 := by omega
  rw [RotationCert.issueFor, if_neg hdomain]
  exact HkValidatorSet.verifySig_issue hroot .v1 rules.chainId newOpPk epoch (seen + 1)

/-- Every move of a node keeps its queues sound, ticks so long as they are clear. -/
lemma Sound.step {l : DoorMove} (h : s.Sound rules) (hclear : s.TickClear l)
    (hstep : s.Step rules l s') : s'.Sound rules := by
  obtain ⟨henabled, rfl⟩ := hstep
  cases l with
  | rotation cert seen slot =>
    cases hgate : rotationGate s.set s.rotations slot (rules.doorRules seen) cert with
    | some answer =>
      simp only [move, hgate]
      exact h
    | none =>
      simp only [move, hgate]
      obtain ⟨hpre, -, hver⟩ := doorGate_eq_none.mp hgate
      have hsig := (rotationPreflight_eq_verify.mp hpre).1.applyRotation_iff.mp hver
      refine ⟨h.roots, h.older, h.bodies, h.signed, fun c n hmem => ?_, fun c n hmem => ?_⟩
      · rcases List.mem_append.mp hmem with hmem | hmem
        · exact h.rotation c n hmem
        · cases List.mem_singleton.mp hmem
          exact ⟨henabled, hsig⟩
      · rcases List.mem_append.mp hmem with hmem | hmem
        · exact h.setChange c n hmem
        · cases List.mem_singleton.mp hmem
  | rotationVerified cert seen =>
    obtain ⟨hseen, hsig⟩ := h.rotation cert seen henabled
    have hdrop : ∀ x ∈ s.verifying.erase (.rotation cert seen), x ∈ s.verifying :=
      fun x hx => List.mem_of_mem_erase hx
    simp only [move, rotationFinish, doorFinish]
    cases hpre : rotationPreflight s.set s.rotations (rules.doorRules seen) cert with
    | error reason => exact h.of_sublist le_rfl (.refl _) (.refl _) hdrop
    | ok p =>
      cases p with
      | alreadyQueued => exact h.of_sublist le_rfl (.refl _) (.refl _) hdrop
      | verify =>
        obtain ⟨-, hnone⟩ := rotationPreflight_eq_verify.mp hpre
        refine ⟨pairwise_pushRotation h.roots hnone, fun x hx hv2 => ?_, h.bodies, h.signed,
          fun c n hmem => h.rotation c n (hdrop _ hmem),
            fun c n hmem => h.setChange c n (hdrop _ hmem)⟩
        rcases mem_pushRotation.mp hx with ⟨hx, -⟩ | rfl
        · exact h.older x hx hv2
        · rwa [domain_doorRules_of_lt (by change s.tip + 1 < _ at hv2; omega)] at hsig
  | setChange cert seen slot =>
    cases hgate : setChangeGate s.set s.setChanges slot rules.chainId seen cert with
    | some answer =>
      simp only [move, hgate]
      exact h
    | none =>
      simp only [move, hgate]
      obtain ⟨-, -, u, hver⟩ := doorGate_eq_none.mp hgate
      obtain ⟨-, -, hsigned⟩ := verifyAgainst_eq_ok_iff.mp hver
      refine ⟨h.roots, h.older, h.bodies, h.signed, fun c n hmem => ?_, fun c n hmem => ?_⟩
      · rcases List.mem_append.mp hmem with hmem | hmem
        · exact h.rotation c n hmem
        · cases List.mem_singleton.mp hmem
      · rcases List.mem_append.mp hmem with hmem | hmem
        · exact h.setChange c n hmem
        · cases List.mem_singleton.mp hmem
          exact ⟨henabled, hsigned⟩
  | setChangeVerified cert seen =>
    obtain ⟨hseen, hsigned⟩ := h.setChange cert seen henabled
    have hdrop : ∀ x ∈ s.verifying.erase (.setChange cert seen), x ∈ s.verifying :=
      fun x hx => List.mem_of_mem_erase hx
    simp only [move, setChangeFinish, doorFinish]
    cases hpre : setChangePreflight s.set s.setChanges rules.chainId seen cert with
    | error reason => exact h.of_sublist le_rfl (.refl _) (.refl _) hdrop
    | ok p =>
      cases p with
      | alreadyQueued => exact h.of_sublist le_rfl (.refl _) (.refl _) hdrop
      | verify =>
        obtain ⟨hconsidered, hnone⟩ := setChangePreflight_eq_verify.mp hpre
        refine ⟨h.roots, h.older, ?_, fun x hx => ?_, fun c n hmem => h.rotation c n (hdrop _ hmem),
          fun c n hmem => h.setChange c n (hdrop _ hmem)⟩
        · refine List.pairwise_append.mpr ⟨h.bodies, List.pairwise_singleton _ _, ?_⟩
          intro x hx y hy
          rw [List.mem_singleton.mp hy]
          exact hnone x hx
        · rcases List.mem_append.mp hx with hx | hx
          · exact h.signed x hx
          · rw [List.mem_singleton.mp hx]
            exact ⟨hconsidered.form, hsigned⟩
  | commit batch =>
    exact h.of_sublist (Nat.le_succ _) (snd_foldl_commitRotation rules _ _ _)
      (snd_foldl_commitSetChange rules _ _ _) fun _ hx => hx
  | propose height =>
    exact h.of_sublist le_rfl List.filter_sublist List.filter_sublist fun _ hx => hx
  | tick cert seen =>
    refine ⟨(pairwise_tickRotation_iff h.roots).mpr hclear, fun x hx hv2 => ?_, h.bodies, h.signed,
      h.rotation, h.setChange⟩
    rcases mem_tickRotation.mp hx with ⟨hx, -⟩ | rfl
    · exact h.older x hx hv2
    · exact verifySig_v1_of_tick henabled hv2

/-! ## When an accepted answer can be relied on -/

/-- The rotation is one for the next height: once only the newer domain counts there, it is signed
in it and within its window. -/
def RotationCurrent (rules : SetRules) (tip : ℕ) (x : RotationCert) : Prop :=
  rules.rotationV2From ≤ tip + 1 → x.verifySig .v2 rules.chainId = true ∧
    x.checkWindow (rules.rotationRules (tip + 1)) = .ok ()

/-- What a positive answer would rest on has not gone stale.  A rotation that the free checks let
through rests on the queued copy that covers it, or on itself once it is verified; a set change
needs its window to reach past the tip, and the approvals of a queued copy to hold against the set
as it stands. -/
def Fresh (rules : SetRules) (s : CertNode H) : DoorMove → Prop
  | .rotation cert seen _ => cert.Considered s.set (rules.doorRules seen) →
    ∀ x ∈ s.rotations, x.Covers cert → RotationCurrent rules s.tip x
  | .rotationVerified cert seen => cert.Considered s.set (rules.doorRules seen) →
    ∀ x, (x ∈ s.rotations ∧ x.Covers cert ∨ x = cert ∧ ∀ y ∈ s.rotations, ¬ y.Covers cert) →
      RotationCurrent rules s.tip x
  | .setChange cert seen _ => cert.Considered s.set rules.chainId seen →
    ∀ x ∈ s.setChanges, x.body = cert.body → s.tip < cert.body.notAfter ∧ x.Approved s.set
  | .setChangeVerified cert seen => cert.Considered s.set rules.chainId seen →
    s.tip < cert.body.notAfter ∧ ∀ x ∈ s.setChanges, x.body = cert.body → x.Approved s.set
  | .commit _ => True
  | .propose _ => True
  | .tick _ _ => True

omit [HashSuite H] in
/-- A rotation newer than its seat is applied at the next height exactly when it is one for that
height. -/
lemma applyRotation_iff_current {tip : ℕ} {set : HkValidatorSet H} {x : RotationCert}
    (hseat : ∃ seat, set.findRoot x.rootPk = some seat ∧ seat.epoch < x.epoch)
    (holder : tip + 1 < rules.rotationV2From → x.verifySig .v1 rules.chainId = true) :
    (∃ s', set.applyRotation x (rules.rotationRules (tip + 1)) = .ok s') ↔
      RotationCurrent rules tip x := by
  obtain ⟨seat, hfind, hepoch⟩ := hseat
  rw [HkValidatorSet.applyRotation_ok_iff]
  unfold RotationCurrent
  by_cases hv2 : rules.rotationV2From ≤ tip + 1
  · have hdomain : (rules.rotationRules (tip + 1)).domain = .v2 := if_pos hv2
    rw [hdomain, forall_prop_of_true hv2]
    constructor
    · rintro ⟨-, -, -, hwindow, hsig⟩
      exact ⟨hsig, hwindow⟩
    · rintro ⟨hsig, hwindow⟩
      exact ⟨seat, hfind, hepoch, hwindow, hsig⟩
  · have hdomain : (rules.rotationRules (tip + 1)).domain = .v1 := if_neg hv2
    have hwindow : x.checkWindow (rules.rotationRules (tip + 1)) = .ok () := by
      unfold RotationCert.checkWindow
      simp only [hdomain, if_true]
    refine iff_of_true ⟨seat, hfind, hepoch, hwindow, ?_⟩ fun h => absurd h hv2
    rw [hdomain]
    exact holder (not_le.mp hv2)

omit [HashSuite H] in
/-- The one queued rotation that covers a considered one decides whether the queue holds what the
answer says. -/
lemma Sound.holdsRotation_iff (h : s.Sound rules) {x cert : RotationCert} {drules : RotationRules}
    (hx : x ∈ s.rotations) (hcov : x.Covers cert) (hconsidered : cert.Considered s.set drules) :
    s.HoldsRotation rules cert ↔ RotationCurrent rules s.tip x := by
  have hseat : ∃ seat, s.set.findRoot x.rootPk = some seat ∧ seat.epoch < x.epoch := by
    obtain ⟨seat, hfind, hepoch⟩ := hconsidered.seat
    exact ⟨seat, by rw [hcov.1, hfind], hepoch.trans_le hcov.2⟩
  rw [← applyRotation_iff_current hseat (h.older x hx)]
  constructor
  · rintro ⟨y, hy, hycov, happly⟩
    have hsame : y = x :=
      List.inj_on_of_nodup_map (List.pairwise_map.mpr h.roots) hy hx (hycov.1.trans hcov.1.symm)
    rwa [hsame] at happly
  · intro happly
    exact ⟨x, hx, hcov, happly⟩

/-- The one queued set change with a body decides whether the queue holds what the answer says. -/
lemma Sound.holdsSetChange_iff (h : s.Sound rules) {x cert : SetChangeCert} {seen : ℕ}
    (hx : x ∈ s.setChanges) (hbody : x.body = cert.body) (hseen : seen ≤ s.tip)
    (hconsidered : cert.Considered s.set rules.chainId seen) :
    s.HoldsSetChange rules cert ↔ s.tip < cert.body.notAfter ∧ x.Approved s.set := by
  have horder := notBefore_le_notAfter hconsidered.form.shape
  have hnear : cert.body.notBefore ≤ seen + SET_CHANGE_HORIZON :=
    hconsidered.near.trans (by unfold satAdd; omega)
  obtain ⟨hform, hsigned⟩ := h.signed x hx
  constructor
  · rintro ⟨y, hy, hybody, hver, hwindow⟩
    have hsame : y = x :=
      List.inj_on_of_nodup_map (List.pairwise_map.mpr h.bodies) hy hx (hybody.trans hbody.symm)
    rw [hsame, SetChangeCert.inWindow, decide_eq_true_iff, hbody] at hwindow
    rw [hsame] at hver
    refine ⟨?_, (verifyAgainst_eq_ok_iff.mp hver).2.1⟩
    rcases hwindow with ⟨-, hwin⟩ | ⟨hlater, -⟩
    · exact hwin
    · omega
  · rintro ⟨hopen, happroved⟩
    refine ⟨x, hx, hbody, verifyAgainst_eq_ok_iff.mpr ⟨hform, happroved, hsigned⟩, ?_⟩
    rw [SetChangeCert.inWindow, decide_eq_true_iff, hbody]
    omega

lemma Sound.leaves_rotation_iff (h : s.Sound rules) (cert : RotationCert) (seen : ℕ) (slot : Bool) :
    s.Leaves rules (.rotation cert seen slot) ↔ s.Fresh rules (.rotation cert seen slot) := by
  have hanswer : ∀ q, (s.move rules (.rotation cert seen slot)).1 = some (.accepted q) ↔
      rotationPreflight s.set s.rotations (rules.doorRules seen) cert = .ok .alreadyQueued ∧
        q = false := by
    intro q
    have hgate : rotationGate s.set s.rotations slot (rules.doorRules seen) cert =
        some (.accepted q) ↔ _ := doorGate_eq_accepted
    rw [← hgate]
    simp only [move]
    cases rotationGate s.set s.rotations slot (rules.doorRules seen) cert <;> simp
  have hstate : (s.move rules (.rotation cert seen slot)).1 ≠ none →
      (s.move rules (.rotation cert seen slot)).2 = s := by
    simp only [move]
    cases rotationGate s.set s.rotations slot (rules.doorRules seen) cert <;> simp
  constructor
  · intro hleaves hconsidered x hx hcov
    have hmove := (hanswer false).mpr
      ⟨rotationPreflight_eq_queued.mpr ⟨hconsidered, x, hx, hcov⟩, rfl⟩
    have hholds : (s.move rules (.rotation cert seen slot)).2.HoldsRotation rules cert :=
      hleaves false hmove
    rw [hstate (by rw [hmove]; simp)] at hholds
    exact (h.holdsRotation_iff hx hcov hconsidered).mp hholds
  · intro hfresh q hmove
    obtain ⟨hconsidered, x, hx, hcov⟩ := rotationPreflight_eq_queued.mp ((hanswer q).mp hmove).1
    change (s.move rules (.rotation cert seen slot)).2.HoldsRotation rules cert
    rw [hstate (by rw [hmove]; simp)]
    exact (h.holdsRotation_iff hx hcov hconsidered).mpr (hfresh hconsidered x hx hcov)

lemma Sound.leaves_rotationVerified_iff (h : s.Sound rules) {cert : RotationCert} {seen : ℕ}
    (hmem : .rotation cert seen ∈ s.verifying) :
    s.Leaves rules (.rotationVerified cert seen) ↔ s.Fresh rules (.rotationVerified cert seen) := by
  have hafter : (s.move rules (.rotationVerified cert seen)).2.Sound rules :=
    h.step (l := .rotationVerified cert seen) trivial ⟨hmem, rfl⟩
  have hanswer : (s.move rules (.rotationVerified cert seen)).1 = some (doorFinish
      (rotationPreflight s.set s.rotations (rules.doorRules seen) cert) s.rotations
      (pushRotation s.rotations cert)).1 := rfl
  have hqueue : (s.move rules (.rotationVerified cert seen)).2.rotations = (doorFinish
      (rotationPreflight s.set s.rotations (rules.doorRules seen) cert) s.rotations
      (pushRotation s.rotations cert)).2 := rfl
  cases hpre : rotationPreflight s.set s.rotations (rules.doorRules seen) cert with
  | error reason =>
    rw [hpre] at hanswer
    refine iff_of_true (fun q hq => ?_) fun hconsidered => ?_
    · rw [hanswer] at hq
      cases hq
    · have hok : ∃ p, rotationPreflight s.set s.rotations (rules.doorRules seen) cert = .ok p :=
        ⟨_, rotationPreflight_eq_ok.mpr ⟨hconsidered, rfl⟩⟩
      simp [hpre] at hok
  | ok p =>
    rw [hpre] at hanswer hqueue
    cases p with
    | alreadyQueued =>
      obtain ⟨hconsidered, x, hx, hcov⟩ := rotationPreflight_eq_queued.mp hpre
      have hx' : x ∈ (s.move rules (.rotationVerified cert seen)).2.rotations := by
        rw [hqueue]
        exact hx
      have hiff := hafter.holdsRotation_iff hx' hcov hconsidered
      constructor
      · rintro hleaves - y (⟨hy, hycov⟩ | ⟨-, hnone⟩)
        · rw [← List.inj_on_of_nodup_map (List.pairwise_map.mpr h.roots) hx hy
            (hcov.1.trans hycov.1.symm)]
          exact hiff.mp (hleaves false hanswer)
        · exact absurd hcov (hnone x hx)
      · intro hfresh q _
        exact hiff.mpr (hfresh hconsidered x (.inl ⟨hx, hcov⟩))
    | verify =>
      obtain ⟨hconsidered, hnone⟩ := rotationPreflight_eq_verify.mp hpre
      have hcert : cert ∈ (s.move rules (.rotationVerified cert seen)).2.rotations := by
        rw [hqueue]
        exact mem_pushRotation.mpr (.inr rfl)
      have hiff := hafter.holdsRotation_iff hcert ⟨rfl, le_rfl⟩ hconsidered
      constructor
      · rintro hleaves - y (⟨hy, hycov⟩ | ⟨rfl, -⟩)
        · exact absurd hycov (hnone y hy)
        · exact hiff.mp (hleaves true hanswer)
      · intro hfresh q _
        exact hiff.mpr (hfresh hconsidered cert (.inr ⟨rfl, hnone⟩))

lemma Sound.leaves_setChange_iff (h : s.Sound rules) {cert : SetChangeCert} {seen : ℕ} (slot : Bool)
    (hseen : seen ≤ s.tip) :
    s.Leaves rules (.setChange cert seen slot) ↔ s.Fresh rules (.setChange cert seen slot) := by
  have hanswer : ∀ q, (s.move rules (.setChange cert seen slot)).1 = some (.accepted q) ↔
      setChangePreflight s.set s.setChanges rules.chainId seen cert = .ok .alreadyQueued ∧
        q = false := by
    intro q
    have hgate : setChangeGate s.set s.setChanges slot rules.chainId seen cert =
        some (.accepted q) ↔ _ := doorGate_eq_accepted
    rw [← hgate]
    simp only [move]
    cases setChangeGate s.set s.setChanges slot rules.chainId seen cert <;> simp
  have hstate : (s.move rules (.setChange cert seen slot)).1 ≠ none →
      (s.move rules (.setChange cert seen slot)).2 = s := by
    simp only [move]
    cases setChangeGate s.set s.setChanges slot rules.chainId seen cert <;> simp
  constructor
  · intro hleaves hconsidered x hx hbody
    have hmove := (hanswer false).mpr
      ⟨setChangePreflight_eq_queued.mpr ⟨hconsidered, x, hx, hbody⟩, rfl⟩
    have hholds : (s.move rules (.setChange cert seen slot)).2.HoldsSetChange rules cert :=
      hleaves false hmove
    rw [hstate (by rw [hmove]; simp)] at hholds
    exact (h.holdsSetChange_iff hx hbody hseen hconsidered).mp hholds
  · intro hfresh q hmove
    obtain ⟨hconsidered, x, hx, hbody⟩ := setChangePreflight_eq_queued.mp ((hanswer q).mp hmove).1
    change (s.move rules (.setChange cert seen slot)).2.HoldsSetChange rules cert
    rw [hstate (by rw [hmove]; simp)]
    exact (h.holdsSetChange_iff hx hbody hseen hconsidered).mpr (hfresh hconsidered x hx hbody)

lemma Sound.leaves_setChangeVerified_iff (h : s.Sound rules) {cert : SetChangeCert} {seen : ℕ}
    (hmem : .setChange cert seen ∈ s.verifying) :
    s.Leaves rules (.setChangeVerified cert seen) ↔
      s.Fresh rules (.setChangeVerified cert seen) := by
  have hafter : (s.move rules (.setChangeVerified cert seen)).2.Sound rules :=
    h.step (l := .setChangeVerified cert seen) trivial ⟨hmem, rfl⟩
  have hseen : seen ≤ s.tip := (h.setChange cert seen hmem).1
  have hanswer : (s.move rules (.setChangeVerified cert seen)).1 = some (doorFinish
      (setChangePreflight s.set s.setChanges rules.chainId seen cert) s.setChanges
      (s.setChanges ++ [cert])).1 := rfl
  have hqueue : (s.move rules (.setChangeVerified cert seen)).2.setChanges = (doorFinish
      (setChangePreflight s.set s.setChanges rules.chainId seen cert) s.setChanges
      (s.setChanges ++ [cert])).2 := rfl
  cases hpre : setChangePreflight s.set s.setChanges rules.chainId seen cert with
  | error reason =>
    rw [hpre] at hanswer
    refine iff_of_true (fun q hq => ?_) fun hconsidered => ?_
    · rw [hanswer] at hq
      cases hq
    · have hok : ∃ p, setChangePreflight s.set s.setChanges rules.chainId seen cert = .ok p :=
        ⟨_, setChangePreflight_eq_ok.mpr ⟨hconsidered, rfl⟩⟩
      simp [hpre] at hok
  | ok p =>
    rw [hpre] at hanswer hqueue
    cases p with
    | alreadyQueued =>
      obtain ⟨hconsidered, x, hx, hbody⟩ := setChangePreflight_eq_queued.mp hpre
      have hx' : x ∈ (s.move rules (.setChangeVerified cert seen)).2.setChanges := by
        rw [hqueue]
        exact hx
      have hiff := hafter.holdsSetChange_iff hx' hbody hseen hconsidered
      constructor
      · intro hleaves _
        obtain ⟨hopen, happroved⟩ := hiff.mp (hleaves false hanswer)
        refine ⟨hopen, fun y hy hybody => ?_⟩
        rwa [← List.inj_on_of_nodup_map (List.pairwise_map.mpr h.bodies) hx hy
          (hbody.trans hybody.symm)]
      · intro hfresh q _
        obtain ⟨hopen, happroved⟩ := hfresh hconsidered
        exact hiff.mpr ⟨hopen, happroved x hx hbody⟩
    | verify =>
      obtain ⟨hconsidered, hnone⟩ := setChangePreflight_eq_verify.mp hpre
      have hcert : cert ∈ (s.move rules (.setChangeVerified cert seen)).2.setChanges := by
        rw [hqueue]
        exact List.mem_append_right _ (List.mem_singleton.mpr rfl)
      have hiff := hafter.holdsSetChange_iff hcert rfl hseen hconsidered
      constructor
      · intro hleaves _
        exact ⟨(hiff.mp (hleaves true hanswer)).1, fun y hy hybody => absurd hybody (hnone y hy)⟩
      · intro hfresh q _
        exact hiff.mpr ⟨(hfresh hconsidered).1, hconsidered.approved⟩

/-- An accepted answer leaves what it says exactly when what it rests on is fresh. -/
lemma Sound.leaves_iff_fresh (h : s.Sound rules) {l : DoorMove} (henabled : s.Enabled rules l) :
    s.Leaves rules l ↔ s.Fresh rules l := by
  cases l with
  | rotation cert seen slot => exact h.leaves_rotation_iff cert seen slot
  | rotationVerified cert seen => exact h.leaves_rotationVerified_iff henabled
  | setChange cert seen slot => exact h.leaves_setChange_iff slot henabled
  | setChangeVerified cert seen => exact h.leaves_setChangeVerified_iff henabled
  | commit batch => exact iff_of_true (fun _ _ => trivial) trivial
  | propose height => exact iff_of_true (fun _ _ => trivial) trivial
  | tick cert seen => exact iff_of_true (fun _ _ => trivial) trivial

lemma step_deterministic (rules : SetRules) (s : CertNode H) (l : DoorMove) (s₁ s₂ : CertNode H)
    (h₁ : s.Step rules l s₁) (h₂ : s.Step rules l s₂) : s₁ = s₂ :=
  h₁.2.symm.trans h₂.2

variable {s₀ : CertNode H} {ls : List DoorMove}

/-- The queues of a run from an idle node with clear ticks stay sound. -/
lemma sound_of_run (hidle : s₀.Idle) (h : Path (Step rules) s₀ ls s)
    (hclear : Path.Along (Step rules) s₀ ls TickClear) : s.Sound rules :=
  h.invariant_along (I := fun _ s => s.Sound rules) hclear (hidle.sound rules)
    fun _ _ _ _ hs hl hstep => hs.step hl hstep

/-- Along a run from an idle node with clear ticks every accepted answer leaves what it says exactly
when what every answer rests on is fresh. -/
lemma along_leaves_iff_fresh (hidle : s₀.Idle) (h : Path (Step rules) s₀ ls s)
    (hclear : Path.Along (Step rules) s₀ ls TickClear) :
    Path.Along (Step rules) s₀ ls (Leaves rules) ↔ Path.Along (Step rules) s₀ ls (Fresh rules) := by
  constructor
  · intro hleaves
    exact h.along_of_invariant (step_deterministic rules) (hclear.and hleaves) (hidle.sound rules)
      fun t l t' ht hl hs => ⟨(ht.leaves_iff_fresh hs.1).mp hl.2, ht.step hl.1 hs⟩
  · intro hfresh
    exact h.along_of_invariant (step_deterministic rules) (hclear.and hfresh) (hidle.sound rules)
      fun t l t' ht hl hs => ⟨(ht.leaves_iff_fresh hs.1).mpr hl.2, ht.step hl.1 hs⟩

/-- A tick is clear exactly when it leaves one rotation for each root. -/
lemma Sound.single_iff_tickClear {l : DoorMove} (h : s.Sound rules) (henabled : s.Enabled rules l) :
    (s.move rules l).2.SingleRotations ↔ s.TickClear l := by
  constructor
  · intro hsingle
    cases l with
    | tick cert seen => exact (pairwise_tickRotation_iff h.roots).mp hsingle
    | _ => trivial
  · intro hclear
    exact (h.step hclear ⟨henabled, rfl⟩).roots

/-- A run from an idle node has one rotation for each root after every move exactly when its ticks
are clear. -/
lemma along_single_iff_tickClear (hidle : s₀.Idle) (h : Path (Step rules) s₀ ls s) :
    Path.Along (Step rules) s₀ ls (fun s l => (s.move rules l).2.SingleRotations) ↔
      Path.Along (Step rules) s₀ ls TickClear := by
  constructor
  · intro hsingle
    refine h.along_of_invariant (step_deterministic rules) hsingle (hidle.sound rules) ?_
    intro t l t' ht hl hs
    have hclear := (ht.single_iff_tickClear hs.1).mp hl
    exact ⟨hclear, ht.step hclear hs⟩
  · intro hclear
    exact h.along_of_invariant (step_deterministic rules) hclear (hidle.sound rules)
      fun t l t' ht hl hs => ⟨(ht.single_iff_tickClear hs.1).mpr hl, ht.step hl hs⟩

/-- **The certificate doors and the commit**: on an empty queue the rotation door accepts exactly
the rotations that a commit at the next height applies, which change the set; the set-change door
agrees with the commit exactly outside `SetChangeCert.Misses`.  Along every run the queue holds one
rotation for each root exactly when no tick issues beside a newer one, and then every accepted answer
leaves a certificate that still verifies exactly when every answer rests on what is fresh. -/
theorem doors_agree_iff (rules : SetRules) :
    (∀ (set : HkValidatorSet H) (tip : ℕ) (cert : RotationCert), tip < u64Max →
      ((submitRotation set [] true (rules.doorRules tip) cert).1.IsAccepted ↔
        ∃ s', set.applyRotation cert (rules.rotationRules (tip + 1)) = .ok s' ∧ s' ≠ set)) ∧
    (∀ (set : HkValidatorSet H) (tip : ℕ) (cert : SetChangeCert), cert.body.notBefore ≤ u64Max →
      (((submitSetChange set [] true rules.chainId tip cert).1.IsAccepted ↔
        cert.Takes set rules.chainId tip) ↔ ¬ cert.Misses set rules.chainId tip)) ∧
    ∀ (s₀ s : CertNode H) (ls : List DoorMove), s₀.Idle → Path (Step rules) s₀ ls s →
      (Path.Along (Step rules) s₀ ls (fun s l => (s.move rules l).2.SingleRotations) ↔
        Path.Along (Step rules) s₀ ls TickClear) ∧
      (Path.Along (Step rules) s₀ ls TickClear →
        s.SingleRotations ∧
        (Path.Along (Step rules) s₀ ls (Leaves rules) ↔
          Path.Along (Step rules) s₀ ls (Fresh rules))) := by
  refine ⟨fun set tip cert htip => ?_, fun set tip cert hbefore => submitSetChange_nil_iff hbefore,
    fun s₀ s ls hidle h => ⟨along_single_iff_tickClear hidle h, fun hclear =>
      ⟨(sound_of_run hidle h hclear).roots, along_leaves_iff_fresh hidle h hclear⟩⟩⟩
  have hnext : rules.doorRules tip = rules.rotationRules (tip + 1) := by
    rw [SetRules.doorRules, satAdd_of_le (Nat.succ_le_of_lt htip)]
  rw [hnext]
  exact submitRotation_nil

end CertNode

namespace Concrete

/-- The founder's node with nothing queued. -/
def certNode : CertNode ℕ := ⟨foundingSet, 0, [], [], []⟩

/-- The rotation that the founder's tick issues after the first block. -/
def tickedRotation : RotationCert :=
  .issueFor (1 : UInt8) setRules.chainId setRules.rotationV2From [1, 2] 1 2

/-- Submitting the admission to it, a block without certificates, the same submission once more, and
the founder's tick. -/
def resubmissionRun : List DoorMove :=
  [.setChange admission 0 true, .setChangeVerified admission 0, .commit ⟨[], []⟩,
    .setChange admission 1 true, .tick tickedRotation 1]

/-- The node with the admission queued, after the block. -/
def queuedNode : CertNode ℕ := { certNode with tip := 1, setChanges := [admission] }

/-- The first submission is to be verified; after the block it is answered from the queue. -/
lemma admission_gates :
    setChangeGate certNode.set certNode.setChanges true setRules.chainId 0 admission = none ∧
      setChangeGate queuedNode.set queuedNode.setChanges true setRules.chainId 1 admission =
        some (.accepted false) := by
  decide +kernel

/-- One height before its window ends the door and the commit agree on the admission.  A run that
submits it before and after a block, the second time answered from the queue, and then queues the
founder's own rotation has one rotation for each root and keeps what it answered. -/
theorem admission_queued :
    ((submitSetChange foundingSet [] true setRules.chainId 99 admission).1.IsAccepted ↔
      admission.Takes foundingSet setRules.chainId 99) ∧
    (∃ s, Path (CertNode.Step setRules) certNode resubmissionRun s ∧
      s.rotations = [tickedRotation] ∧ s.setChanges = [admission] ∧ s.SingleRotations) ∧
    (queuedNode.move setRules (.setChange admission 1 true)).1 = some (.accepted false) ∧
    Path.Along (CertNode.Step setRules) certNode resubmissionRun (CertNode.Leaves setRules) := by
  obtain ⟨-, hchange, hruns⟩ := CertNode.doors_agree_iff (H := ℕ) setRules
  obtain ⟨hfirst, hagain⟩ := admission_gates
  constructor
  · apply (hchange foundingSet 99 admission (by decide)).mpr
    rintro ⟨-, -, -, ⟨hend, -⟩ | ⟨root, hroot, -⟩⟩
    · exact absurd hend (by decide)
    · cases hroot
  have hanswer : queuedNode.move setRules (.setChange admission 1 true) =
      (some (.accepted false), queuedNode) := by
    simp only [CertNode.move, hagain]
  have h₁ : CertNode.Step setRules certNode (.setChange admission 0 true)
      { certNode with verifying := [.setChange admission 0] } := by
    refine ⟨le_rfl, ?_⟩
    simp only [CertNode.move, hfirst]
    rfl
  have h₂ : CertNode.Step setRules { certNode with verifying := [.setChange admission 0] }
      (.setChangeVerified admission 0) { certNode with setChanges := [admission] } := by
    refine ⟨List.mem_singleton.mpr rfl, ?_⟩
    have hfinish : setChangeFinish certNode.set certNode.setChanges setRules.chainId 0 admission =
        (.accepted true, [admission]) := by
      unfold setChangeFinish
      rw [(doorGate_eq_none.mp hfirst).1]
      rfl
    simp only [CertNode.move, hfinish, List.erase_cons_head]
    rfl
  have h₃ : CertNode.Step setRules { certNode with setChanges := [admission] }
      (.commit ⟨[], []⟩) queuedNode := ⟨trivial, rfl⟩
  have h₄ : CertNode.Step setRules queuedNode (.setChange admission 1 true) queuedNode :=
    ⟨le_rfl, congrArg Prod.snd hanswer⟩
  have h₅ : CertNode.Step setRules queuedNode (.tick tickedRotation 1)
      { queuedNode with rotations := [tickedRotation] } :=
    ⟨⟨le_rfl, (1 : UInt8), [1, 2], 1, rootScheme_sound 1, rfl⟩, rfl⟩
  have hrun : Path (CertNode.Step setRules) certNode resubmissionRun
      { queuedNode with rotations := [tickedRotation] } :=
    .cons h₁ (.cons h₂ (.cons h₃ (.cons h₄ (.single h₅))))
  have hdet := CertNode.step_deterministic (H := ℕ) setRules
  obtain ⟨-, hticks⟩ := hruns certNode _ resubmissionRun ⟨rfl, rfl, rfl⟩ hrun
  obtain ⟨hsingle, hleaves⟩ := hticks <|
    .cons hdet h₁ trivial <| .cons hdet h₂ trivial <| .cons hdet h₃ trivial <|
      .cons hdet h₄ trivial <| .cons hdet h₅ (fun x hx => by cases hx) .nil
  refine ⟨⟨_, hrun, rfl, rfl, hsingle⟩, congrArg Prod.fst hanswer, hleaves.mpr ?_⟩
  refine .cons hdet h₁ (fun _ x hx => by cases hx) <|
    .cons hdet h₂ (fun _ => ⟨by decide, fun x hx => by cases hx⟩) <| .cons hdet h₃ trivial <|
      .cons hdet h₄ (fun hconsidered x hx _ => ⟨by decide, ?_⟩) <| .cons hdet h₅ trivial .nil
  rw [List.mem_singleton.mp hx]
  exact hconsidered.approved

/-- At the last height of its window the door still takes the admission, which no later commit
applies. -/
theorem admission_at_window_end :
    ¬ ((submitSetChange foundingSet [] true setRules.chainId 100 admission).1.IsAccepted ↔
      admission.Takes foundingSet setRules.chainId 100) := by
  intro h
  obtain ⟨-, -, ⟨-, hend⟩ | ⟨hbegin, -⟩⟩ :=
    SetChangeCert.takes_iff.mp (h.mp ⟨true, by decide +kernel⟩)
  · exact absurd hend (by decide)
  · exact absurd hbegin (by decide)

end Concrete

end HashKinetics
