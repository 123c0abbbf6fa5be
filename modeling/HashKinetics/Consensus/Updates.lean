import HashKinetics.Consensus.SetChange
import HashKinetics.Foundations.Transition

/-!
# The validator set across committed blocks

What a committed block does to the validator set: its rotations in order, then its set changes in
order, then the bootstrap re-weight if the block's height is the one the chain names.  A certificate
that is refused or has nothing to do is ignored.  Each of these is an event at a commit height, and
a run of blocks is the run of its events.
-/

namespace HashKinetics

open Foundations

/-- The genesis entry of a validator. -/
structure GenesisValidator where
  rootPk : List UInt8
  publicKey : List UInt8
  votingPower : ℕ

/-- The genesis validator set: every power in range, at least one validator. -/
def genesisValidatorSet {H : Type} [HashSuite H] (validators : List GenesisValidator) :
    Except String (HkValidatorSet H) :=
  let vals := validators.map fun v => HkValidator.new v.rootPk v.publicKey v.votingPower
  match validators.findIdx? fun v => v.votingPower = 0 ∨ v.votingPower > MAX_VOTING_POWER with
  | some i =>
    let power := (validators.map GenesisValidator.votingPower).getD i 0
    .error
      (s!"genesis validator #{i}: voting_power {power} outside 1..={MAX_VOTING_POWER} (M-1, " ++
      "2026-10-06)")
  | none =>
    if h : vals = [] then .error "genesis has no validators" else .ok (.new vals h)

/-- The bootstrap re-weight of a chain. -/
structure Bootstrap where
  height : ℕ
  foundingPower : ℕ

/-- The rules of a chain about its validator set. -/
structure SetRules where
  chainId : String
  rotationV2From : ℕ
  genesisRoots : List (List UInt8)
  bootstrap : Option Bootstrap

/-- The rotation rule at a commit height. -/
def SetRules.rotationRules (rules : SetRules) (height : ℕ) : RotationRules :=
  ⟨height, rules.chainId, rules.rotationV2From⟩

/-- The certificates of a committed block; a block that does not decode carries none. -/
structure CertBatch where
  rotations : List RotationCert
  setChanges : List SetChangeCert

/-- What can act on the validator set at a commit. -/
inductive SetEvent where
  | rotation (cert : RotationCert)
  | setChange (cert : SetChangeCert)
  | bootstrap
  deriving DecidableEq

namespace HkValidatorSet

variable {H : Type} [HashSuite H] [RootScheme]

/-- Apply a rotation, or ignore it. -/
def rotate (rules : SetRules) (height : ℕ) (s : HkValidatorSet H) (cert : RotationCert) :
    HkValidatorSet H :=
  match s.applyRotation cert (rules.rotationRules height) with
  | .ok s' => s'
  | .error _ => s

/-- Apply a set change, or ignore it. -/
def change (rules : SetRules) (height : ℕ) (s : HkValidatorSet H) (cert : SetChangeCert) :
    HkValidatorSet H :=
  match s.applySetChange cert height rules.chainId with
  | .ok (some s') => s'
  | .ok none => s
  | .error _ => s

/-- The bootstrap re-weight, if this is its height. -/
def bootstrapAt (rules : SetRules) (height : ℕ) (s : HkValidatorSet H) : HkValidatorSet H :=
  match rules.bootstrap with
  | some b =>
    if height = b.height then (s.reweightRoots rules.genesisRoots b.foundingPower).getD s else s
  | none => s

/-- Apply the rotations of a block. -/
def applyRotations (rules : SetRules) (height : ℕ) (batch : CertBatch) (s : HkValidatorSet H) :
    HkValidatorSet H :=
  batch.rotations.foldl (rotate rules height) s

/-- Apply the set changes of a block, and the bootstrap re-weight after them. -/
def applySetChanges (rules : SetRules) (height : ℕ) (batch : CertBatch) (s : HkValidatorSet H) :
    HkValidatorSet H :=
  bootstrapAt rules height (batch.setChanges.foldl (change rules height) s)

/-- Some rotation of a block is accepted, each judged against the set that the earlier ones left. -/
def rotatesAny (rules : SetRules) (height : ℕ) : List RotationCert → HkValidatorSet H → Bool
  | [], _ => false
  | cert :: certs, s =>
    (s.applyRotation cert (rules.rotationRules height)).toBool ||
      rotatesAny rules height certs (rotate rules height s cert)

/-- Some set change of a block is accepted and not yet in force. -/
def changesAny (rules : SetRules) (height : ℕ) : List SetChangeCert → HkValidatorSet H → Bool
  | [], _ => false
  | cert :: certs, s =>
    (match s.applySetChange cert height rules.chainId with
      | .ok (some _) => true
      | _ => false) ||
      changesAny rules height certs (change rules height s cert)

/-- The bootstrap re-weight is due and changes some power. -/
def reweightsAt (rules : SetRules) (height : ℕ) (s : HkValidatorSet H) : Bool :=
  match rules.bootstrap with
  | some b =>
    height = b.height && (s.reweightRoots rules.genesisRoots b.foundingPower).isSome
  | none => false

omit [HashSuite H] in
lemma rotate_eq_self {rules : SetRules} {height : ℕ} {certs : List RotationCert}
    {s : HkValidatorSet H} (h : rotatesAny rules height certs s = false) :
    certs.foldl (rotate rules height) s = s := by
  induction certs generalizing s with
  | nil => rfl
  | cons cert certs ih =>
    obtain ⟨hcert, hrest⟩ := Bool.or_eq_false_iff.mp h
    have hsame : rotate rules height s cert = s := by
      unfold rotate
      cases hrot : s.applyRotation cert (rules.rotationRules height) with
      | error e => rfl
      | ok s' => simp [hrot, Except.toBool] at hcert
    rw [List.foldl_cons, ih hrest, hsame]

lemma change_eq_self {rules : SetRules} {height : ℕ} {certs : List SetChangeCert}
    {s : HkValidatorSet H} (h : changesAny rules height certs s = false) :
    certs.foldl (change rules height) s = s := by
  induction certs generalizing s with
  | nil => rfl
  | cons cert certs ih =>
    obtain ⟨hcert, hrest⟩ := Bool.or_eq_false_iff.mp h
    have hsame : change rules height s cert = s := by
      unfold change
      split
      · next s' hch => simp [hch] at hcert
      · rfl
      · rfl
    rw [List.foldl_cons, ih hrest, hsame]

omit [HashSuite H] [RootScheme] in
lemma bootstrapAt_eq_self {rules : SetRules} {height : ℕ} {s : HkValidatorSet H}
    (h : reweightsAt rules height s = false) : bootstrapAt rules height s = s := by
  unfold reweightsAt at h
  unfold bootstrapAt
  split
  · next b hb =>
    split_ifs with hheight
    · simp only [hb, hheight, decide_true, Bool.true_and, Option.isSome_eq_false_iff,
        Option.isNone_iff_eq_none] at h
      rw [h, Option.getD_none]
    · rfl
  · rfl

/-- What a committed block does to the validator set. -/
def commitBlock (rules : SetRules) (s : HkValidatorSet H) (block : ℕ × CertBatch) :
    HkValidatorSet H :=
  applySetChanges rules block.1 block.2 (applyRotations rules block.1 block.2 s)

/-! ## Events -/

/-- The effect of one event at a commit height. -/
def applyEvent (rules : SetRules) (s : HkValidatorSet H) (l : ℕ × SetEvent) : HkValidatorSet H :=
  match l.2 with
  | .rotation cert => rotate rules l.1 s cert
  | .setChange cert => change rules l.1 s cert
  | .bootstrap => bootstrapAt rules l.1 s

/-- The events of a committed block, in the order the node applies them. -/
def blockEvents (block : ℕ × CertBatch) : List (ℕ × SetEvent) :=
  (block.2.rotations.map fun c => (block.1, .rotation c)) ++
    (block.2.setChanges.map fun c => (block.1, .setChange c)) ++ [(block.1, .bootstrap)]

/-- The set that a sequence of events leads to. -/
def runEvents (rules : SetRules) (s : HkValidatorSet H) (ls : List (ℕ × SetEvent)) :
    HkValidatorSet H :=
  ls.foldl (applyEvent rules) s

@[simp] lemma runEvents_nil (rules : SetRules) (s : HkValidatorSet H) :
    runEvents rules s [] = s := rfl

@[simp] lemma runEvents_cons (rules : SetRules) (s : HkValidatorSet H) (l : ℕ × SetEvent)
    (ls : List (ℕ × SetEvent)) :
    runEvents rules s (l :: ls) = runEvents rules (applyEvent rules s l) ls := rfl

lemma runEvents_append (rules : SetRules) (s : HkValidatorSet H) (ls ls' : List (ℕ × SetEvent)) :
    runEvents rules s (ls ++ ls') = runEvents rules (runEvents rules s ls) ls' :=
  List.foldl_append

lemma runEvents_snoc (rules : SetRules) (s : HkValidatorSet H) (ls : List (ℕ × SetEvent))
    (l : ℕ × SetEvent) :
    runEvents rules s (ls ++ [l]) = applyEvent rules (runEvents rules s ls) l := by
  simp [runEvents_append]

/-- A block is the run of its events. -/
lemma commitBlock_eq_runEvents (rules : SetRules) (s : HkValidatorSet H) (block : ℕ × CertBatch) :
    commitBlock rules s block = runEvents rules s (blockEvents block) := by
  simp [commitBlock, applySetChanges, applyRotations, blockEvents, runEvents, List.foldl_map,
    applyEvent]

/-- The set after a sequence of committed blocks. -/
def runBlocks (rules : SetRules) (s : HkValidatorSet H) (blocks : List (ℕ × CertBatch)) :
    HkValidatorSet H :=
  blocks.foldl (commitBlock rules) s

/-- A run of blocks is the run of their events. -/
lemma runBlocks_eq_runEvents (rules : SetRules) (s : HkValidatorSet H)
    (blocks : List (ℕ × CertBatch)) :
    runBlocks rules s blocks = runEvents rules s (blocks.flatMap blockEvents) := by
  induction blocks generalizing s with
  | nil => rfl
  | cons b bs ih =>
    rw [List.flatMap_cons, runEvents_append, ← commitBlock_eq_runEvents]
    exact ih (commitBlock rules s b)

/-! ## What one event can do -/

/-- Everything an event can do to the set. -/
inductive Step (rules : SetRules) (s : HkValidatorSet H) (height : ℕ) :
    SetEvent → HkValidatorSet H → Prop
  | rotation {cert : RotationCert} {target : HkValidator H}
      (hfind : s.findRoot cert.rootPk = some target) (hepoch : target.epoch < cert.epoch) :
      Step rules s height (.rotation cert) (s.rekey target.address cert.newOpPk cert.epoch)
  | change {cert : SetChangeCert} {s' : HkValidatorSet H}
      (hpass : s.Passes cert height rules.chainId) (heff : Effect s cert.body.change s') :
      Step rules s height (.setChange cert) s'
  | bootstrap {b : Bootstrap} (hb : rules.bootstrap = some b)
      (hchange : ∃ v ∈ s, v.rootPk ∈ rules.genesisRoots ∧ v.votingPower ≠ b.foundingPower) :
      Step rules s height .bootstrap (s.repower
        (fun v => v.rootPk ∈ rules.genesisRoots ∧ v.votingPower ≠ b.foundingPower) b.foundingPower)

/-- An event is ignored or does what the step relation says. -/
lemma applyEvent_cases (rules : SetRules) (s : HkValidatorSet H) (l : ℕ × SetEvent) :
    applyEvent rules s l = s ∨ Step rules s l.1 l.2 (applyEvent rules s l) := by
  obtain ⟨height, ev⟩ := l
  cases ev with
  | rotation cert =>
    simp only [applyEvent, rotate]
    cases hrot : s.applyRotation cert (rules.rotationRules height) with
    | error e => exact .inl rfl
    | ok s' =>
      obtain ⟨target, hfind, hepoch, rfl⟩ := applyRotation_eq_ok hrot
      exact .inr (.rotation hfind hepoch)
  | setChange cert =>
    simp only [applyEvent, change]
    cases hch : s.applySetChange cert height rules.chainId with
    | error e => exact .inl rfl
    | ok o =>
      cases o with
      | none => exact .inl rfl
      | some s' =>
        obtain ⟨hpass, heff⟩ := applySetChange_eq_some.mp hch
        exact .inr (.change hpass heff)
  | bootstrap =>
    simp only [applyEvent, bootstrapAt]
    cases hb : rules.bootstrap with
    | none => exact .inl rfl
    | some b =>
      by_cases hheight : height = b.height
      · simp only [hheight, if_true, reweightRoots]
        split_ifs with hchange
        · exact .inr (.bootstrap hb hchange)
        · exact .inl rfl
      · simp only [hheight, if_false]
        exact .inl trivial

end HkValidatorSet

end HashKinetics
