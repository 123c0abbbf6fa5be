import HashKinetics.Consensus.Quorum

/-!
# Voting powers

Every way into a set carries a power: the genesis file, the admission and the power certificates,
and the bootstrap re-weight.  The first three are bounded by `MAX_VOTING_POWER`.  The power of the
re-weight is a constant on one chain and comes from the environment on every other, where nothing
bounds it.
-/

namespace HashKinetics

open Foundations

/-! ## The bootstrap table -/

def G1_TESTNET1_HEIGHT : ℕ := 110000
def G1_FOUNDING_POWER : ℕ := 4

/-- The characters that `trim` removes. -/
def isWhitespace (c : Char) : Bool :=
  c.toNat ∈ [0x09, 0x0A, 0x0B, 0x0C, 0x0D, 0x20, 0x85, 0xA0, 0x1680, 0x2028, 0x2029, 0x202F, 0x205F,
    0x3000] ∨
    0x2000 ≤ c.toNat ∧ c.toNat ≤ 0x200A

def trim (s : List Char) : List Char :=
  ((s.dropWhile isWhitespace).reverse.dropWhile isWhitespace).reverse

/-- `parse::<u64>`: digits behind an optional plus sign. -/
def parseU64 (s : List Char) : Option ℕ :=
  let digits := match s with
    | '+' :: rest => rest
    | s => s
  if digits = [] ∨ ¬ digits.all Char.isDigit then none
  else
    let n := digits.foldl (fun n c => n * 10 + (c.toNat - '0'.toNat)) 0
    if n ≤ u64Max then some n else none

/-- A positive number from the environment. -/
def envNumber (s : Option String) : Option ℕ :=
  (s.bind fun s => parseU64 (trim s.toList)).filter (0 < ·)

/-- The re-weight of a chain; the environment speaks for every chain but one. -/
def bootstrapFrom (chainId : String) (envHeight envPower : Option String) : Option Bootstrap :=
  if chainId = "hashkinetics-1-4e4ea68d" then some ⟨G1_TESTNET1_HEIGHT, G1_FOUNDING_POWER⟩
  else (envNumber envHeight).map fun height => ⟨height, (envNumber envPower).getD G1_FOUNDING_POWER⟩

/-- The re-weight is never due at height zero, and never to power zero. -/
lemma bootstrapFrom_pos {chainId : String} {envHeight envPower : Option String} {b : Bootstrap}
    (h : bootstrapFrom chainId envHeight envPower = some b) : 0 < b.height ∧
      0 < b.foundingPower := by
  have hnumber : ∀ {s : Option String} {n : ℕ}, envNumber s = some n → 0 < n := by
    intro s n hs
    exact of_decide_eq_true (Option.filter_eq_some_iff.mp hs).2
  unfold bootstrapFrom at h
  split_ifs at h
  · cases h
    decide
  · obtain ⟨height, hheight, rfl⟩ := Option.map_eq_some_iff.mp h
    refine ⟨hnumber hheight, ?_⟩
    cases hpower : envNumber envPower with
    | none => exact Nat.zero_lt_succ 3
    | some power => exact hnumber hpower

/-- The rules of a chain, as its genesis file and the environment give them. -/
def chainRules (chainId : String) (rotationV2From : ℕ) (gvs : List GenesisValidator)
    (envHeight envPower : Option String) : SetRules where
  chainId := chainId
  rotationV2From := rotationV2From
  genesisRoots := gvs.map GenesisValidator.rootPk
  bootstrap := bootstrapFrom chainId envHeight envPower

/-- The blocks of a chain from height one on. -/
def atHeights (batches : List CertBatch) : List (ℕ × CertBatch) :=
  batches.mapIdx fun i batch => (i + 1, batch)

namespace HkValidatorSet

variable {H : Type}

/-- Every power is in its range; up to 2^16 seats the total is exact and can be tripled. -/
structure PowersInRange (s : HkValidatorSet H) : Prop where
  members : ∀ v ∈ s, 1 ≤ v.votingPower ∧ v.votingPower ≤ MAX_VOTING_POWER
  total : s.validators.length ≤ 2 ^ 16 →
    s.totalVotingPower = (s.validators.map HkValidator.votingPower).sum ∧
      3 * s.totalVotingPower ≤ u64Max

/-- The bound on the members gives the bound on the total. -/
lemma powersInRange_of_members {s : HkValidatorSet H}
    (h : ∀ v ∈ s, 1 ≤ v.votingPower ∧ v.votingPower ≤ MAX_VOTING_POWER) : s.PowersInRange := by
  refine ⟨h, fun hlen => ?_⟩
  have hsum : (s.validators.map HkValidator.votingPower).sum ≤
      s.validators.length * MAX_VOTING_POWER := by
    have hle := List.sum_le_card_nsmul (s.validators.map HkValidator.votingPower) MAX_VOTING_POWER
      (List.forall_mem_map.mpr fun v hv => (h v hv).2)
    simpa using hle
  have hbound : s.validators.length * MAX_VOTING_POWER ≤ 2 ^ 16 * MAX_VOTING_POWER :=
    Nat.mul_le_mul_right _ hlen
  have htotal : s.totalVotingPower = min (s.validators.map HkValidator.votingPower).sum u64Max := by
    rw [totalVotingPower, foldl_satAdd_eq_min _ _ (Nat.zero_le _), Nat.zero_add]
  have hmax : 3 * (2 ^ 16 * MAX_VOTING_POWER) ≤ u64Max := by decide
  omega

end HkValidatorSet

/-! ## The ways into a set -/

/-- The power that a change seats. -/
def SetChange.power : SetChange → Option ℕ
  | .admitSeat _ _ power => some power
  | .remove _ => none
  | .setPower _ power => some power

lemma checkPower_ok {power : ℕ} {zeroPower : String}
    (h : SetChangeBody.checkPower power zeroPower = .ok ()) :
    1 ≤ power ∧ power ≤ MAX_VOTING_POWER := by
  unfold SetChangeBody.checkPower at h
  split_ifs at h with hzero hmax
  exact ⟨Nat.pos_of_ne_zero hzero, not_lt.mp hmax⟩

/-- A body in shape carries a power in range. -/
lemma power_of_checkShape {body : SetChangeBody} (h : body.checkShape = .ok ()) {power : ℕ}
    (hpower : body.change.power = some power) : 1 ≤ power ∧ power ≤ MAX_VOTING_POWER := by
  unfold SetChangeBody.checkShape at h
  split_ifs at h
  cases hchange : body.change with
  | admitSeat root pk p =>
    rw [hchange] at h hpower
    cases hpower
    simp only at h
    split_ifs at h
    exact checkPower_ok h
  | remove root =>
    rw [hchange] at hpower
    cases hpower
  | setPower root p =>
    rw [hchange] at h hpower
    cases hpower
    exact checkPower_ok h

namespace SetChangeCert

variable {H : Type} [RootScheme]

/-- An accepted certificate is in shape. -/
lemma checkShape_of_verifyAgainst {cert : SetChangeCert} {set : HkValidatorSet H} {chainId : String}
    (h : cert.verifyAgainst set chainId = .ok ()) : cert.body.checkShape = .ok () := by
  unfold verifyAgainst at h
  cases hshape : cert.body.checkShape with
  | error e => simp [hshape, bind, Except.bind] at h
  | ok u => rfl

end SetChangeCert

namespace HkValidatorSet

variable {H : Type} [HashSuite H] [RootScheme] {rules : SetRules} {s s' : HkValidatorSet H}

omit [RootScheme] in
/-- Powers at genesis. -/
lemma power_genesis {gvs : List GenesisValidator} {genesis : HkValidatorSet H}
    (hg : genesisValidatorSet gvs = .ok genesis) {v : HkValidator H} (hv : v ∈ genesis) :
    1 ≤ v.votingPower ∧ v.votingPower ≤ MAX_VOTING_POWER := by
  unfold genesisValidatorSet at hg
  simp only at hg
  split at hg
  · cases hg
  next hnone =>
    split_ifs at hg
    cases hg
    obtain ⟨g, hmem, rfl⟩ := List.mem_map.mp (mem_new.mp hv)
    have hrange := List.findIdx?_eq_none_iff.mp hnone g hmem
    simp only [gt_iff_lt, decide_eq_false_iff_not, not_or, not_lt] at hrange
    exact ⟨Nat.pos_of_ne_zero hrange.1, hrange.2⟩

/-- A power after an event was there before, or was brought by it. -/
lemma Step.power {height : ℕ} {ev : SetEvent} (h : Step rules s height ev s') {w : HkValidator H}
    (hw : w ∈ s') : (∃ v ∈ s, v.votingPower = w.votingPower) ∨
      (∃ cert, ev = .setChange cert ∧ cert.body.checkShape = .ok () ∧
        cert.body.change.power = some w.votingPower) ∨
      ∃ b, rules.bootstrap = some b ∧ w.votingPower = b.foundingPower := by
  have hrepower : ∀ {p : HkValidator H → Prop} [DecidablePred p]
    {power : ℕ}, w ∈ s.repower p power →
      (∃ v ∈ s, v.votingPower = w.votingPower) ∨ w.votingPower = power := by
    intro p _ power hw
    obtain ⟨v, hv, rfl⟩ := mem_repower.mp hw
    split
    · exact .inr rfl
    · exact .inl ⟨v, hv, rfl⟩
  cases h with
  | rotation =>
    obtain ⟨v, hv, rfl⟩ := mem_mapSeats.mp hw
    exact .inl ⟨v, hv, by split <;> rfl⟩
  | @change cert _ hpass heff =>
    have hshape := SetChangeCert.checkShape_of_verifyAgainst hpass.1
    generalize hchange : cert.body.change = ch at heff
    cases heff with
    | @admitSeat root pk power hseat haddr =>
      rcases mem_push.mp hw with hw | rfl
      · exact .inl ⟨w, hw, rfl⟩
      · exact .inr (.inl ⟨cert, rfl, hshape, by rw [hchange]; rfl⟩)
    | remove hseat hne => exact .inl ⟨w, (mem_without.mp (mem_new.mp hw)).1, rfl⟩
    | @setPower root power =>
      rcases hrepower hw with hold | hnew
      · exact .inl hold
      · exact .inr (.inl ⟨cert, rfl, hshape, by rw [hchange, hnew]; rfl⟩)
  | @bootstrap b hb =>
    rcases hrepower hw with hold | hnew
    · exact .inl hold
    · exact .inr (.inr ⟨b, hb, hnew⟩)

/-- Under a bounded re-weight every run of events keeps the powers in range. -/
lemma powers_runEvents (hboot : ∀ b, rules.bootstrap = some b →
      1 ≤ b.foundingPower ∧ b.foundingPower ≤ MAX_VOTING_POWER)
    (hs : ∀ v ∈ s, 1 ≤ v.votingPower ∧ v.votingPower ≤ MAX_VOTING_POWER)
    (ls : List (ℕ × SetEvent)) :
    ∀ v ∈ runEvents rules s ls, 1 ≤ v.votingPower ∧ v.votingPower ≤ MAX_VOTING_POWER := by
  refine invariant_of_foldl (I := fun s : HkValidatorSet H =>
    ∀ v ∈ s, 1 ≤ v.votingPower ∧ v.votingPower ≤ MAX_VOTING_POWER) (fun s l hs => ?_) ls hs
  rcases applyEvent_cases rules s l with hsame | hstep
  · rwa [hsame]
  · intro w hw
    rcases hstep.power hw with ⟨v, hv, hpower⟩ | ⟨cert, -, hshape, hpower⟩ | ⟨b, hb, hpower⟩
    · rw [← hpower]
      exact hs v hv
    · exact power_of_checkShape hshape hpower
    · rw [hpower]
      exact hboot b hb

/-! ## The re-weight alone -/

/-- A chain of blocks without certificates. -/
def emptyChain (n : ℕ) : List CertBatch := List.replicate n ⟨[], []⟩

lemma runBlocks_emptyChain_succ (rules : SetRules) (s : HkValidatorSet H) (n : ℕ) :
    runBlocks rules s (atHeights (emptyChain (n + 1))) =
      bootstrapAt rules (n + 1) (runBlocks rules s (atHeights (emptyChain n))) := by
  simp only [emptyChain, List.replicate_succ', atHeights, List.mapIdx_concat, List.length_replicate,
    runBlocks, List.foldl_append, List.foldl_cons, List.foldl_nil]
  rfl

/-- Nothing happens before the height of the re-weight. -/
lemma runBlocks_emptyChain {b : Bootstrap} (hb : rules.bootstrap = some b) (s : HkValidatorSet H)
    {n : ℕ} (h : n < b.height) : runBlocks rules s (atHeights (emptyChain n)) = s := by
  induction n with
  | zero => rfl
  | succ n ih =>
    rw [runBlocks_emptyChain_succ, ih (Nat.lt_of_succ_lt h), bootstrapAt, hb]
    exact if_neg h.ne

/-- At its height every founding seat has the power of the re-weight. -/
lemma exists_founding_power {b : Bootstrap} (hb : rules.bootstrap = some b) (hheight : 0 < b.height)
    {v : HkValidator H} (hv : v ∈ s) (hroot : v.rootPk ∈ rules.genesisRoots) :
    ∃ w ∈ runBlocks rules s (atHeights (emptyChain b.height)), w.votingPower = b.foundingPower := by
  obtain ⟨n, hn⟩ := Nat.exists_eq_add_one_of_ne_zero hheight.ne'
  rw [hn, runBlocks_emptyChain_succ, runBlocks_emptyChain hb s (by omega), ← hn, bootstrapAt, hb]
  simp only [if_true, reweightRoots]
  split_ifs with hchange
  · refine ⟨_, mem_repower.mpr ⟨v, hv, rfl⟩, ?_⟩
    split_ifs with hpower
    · rfl
    · by_contra hne
      exact hpower ⟨hroot, hne⟩
  · refine ⟨v, hv, ?_⟩
    by_contra hne
    exact hchange ⟨v, hv, hroot, hne⟩

/-- On a chain, in an environment: from every genesis file that loads, every run of blocks keeps
every power in its range, if and only if the re-weight, where there is one, is bounded as the
certificates are. -/
theorem powersInRange_iff (chainId : String) (rotationV2From : ℕ)
    (envHeight envPower : Option String) :
    (∀ (gvs : List GenesisValidator) (genesis : HkValidatorSet H),
      genesisValidatorSet gvs = .ok genesis → ∀ batches : List CertBatch,
        (runBlocks (chainRules chainId rotationV2From gvs envHeight envPower) genesis
          (atHeights batches)).PowersInRange) ↔
      ∀ b, bootstrapFrom chainId envHeight envPower = some b →
        b.foundingPower ≤ MAX_VOTING_POWER := by
  constructor
  · intro hall b hb
    have hg : genesisValidatorSet [⟨[], [], 1⟩] =
        .ok (new [(HkValidator.new [] [] 1 : HkValidator H)] (by simp)) := rfl
    have hrange := hall _ _ hg (emptyChain b.height)
    have hb' : (chainRules chainId rotationV2From [⟨[], [], 1⟩] envHeight envPower).bootstrap =
        some b := hb
    have hfounder : HkValidator.new [] [] 1 ∈
        new [(HkValidator.new [] [] 1 : HkValidator H)] (by simp) :=
      mem_new.mpr (List.mem_singleton_self _)
    obtain ⟨w, hw, hpower⟩ := exists_founding_power hb' (bootstrapFrom_pos hb).1 hfounder
      (by simp [chainRules, HkValidator.new])
    rw [← hpower]
    exact (hrange.members w hw).2
  · intro hbound gvs genesis hg batches
    rw [runBlocks_eq_runEvents]
    refine powersInRange_of_members (powers_runEvents (fun b hb => ?_) (fun v =>
      power_genesis hg) _)
    exact ⟨(bootstrapFrom_pos hb).2, hbound b hb⟩

end HkValidatorSet

namespace Concrete

open HkValidatorSet

/-- A development chain whose environment re-weights at height one, to the largest power. -/
def loudRules : SetRules :=
  chainRules "hashkinetics-devnet-1" 0 founders (some "1") (some " 18446744073709551615")

/-- After one block without certificates the founder has that power, and three times the total does
not fit. -/
theorem loudRules_out_of_range : genesisValidatorSet founders = .ok foundingSet ∧
    (∃ v ∈ runBlocks loudRules foundingSet (atHeights [⟨[], []⟩]),
      MAX_VOTING_POWER < v.votingPower) ∧
    u64Max < 3 * (runBlocks loudRules foundingSet (atHeights [⟨[], []⟩])).totalVotingPower ∧
    ¬ (runBlocks loudRules foundingSet (atHeights [⟨[], []⟩])).PowersInRange := by
  have hpower : ∃ v ∈ (runBlocks loudRules foundingSet (atHeights [⟨[], []⟩])).validators,
      MAX_VOTING_POWER < v.votingPower := by decide +kernel
  refine ⟨genesis_founders, hpower, by decide +kernel, fun hrange => ?_⟩
  obtain ⟨v, hv, hlt⟩ := hpower
  exact absurd (hrange.members v hv).2 (not_le.mpr hlt)

end Concrete

end HashKinetics
