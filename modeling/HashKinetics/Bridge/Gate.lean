import HashKinetics.Bridge.Contracts

/-!
# The release gate

Both contracts release through the same gate: the replay guard, the signatures of the current
attestors, the daily limit.  What the gate keeps is proved here once, over the runs of any system
whose steps are steps of the gate.
-/

namespace HashKinetics.Bridge

open Foundations Foundations.Checked

@[simp] lemma addChecked_eq_ok {a b c : ℕ} :
    addChecked a b = .ok c ↔ a + b ≤ MAX_UINT256 ∧ a + b = c := by
  unfold addChecked
  cases h : checkedAdd MAX_UINT256 a b with
  | none =>
    have hlt : ¬ a + b ≤ MAX_UINT256 := by
      intro hle
      simp [checkedAdd, hle] at h
    simp [hlt]
  | some d =>
    obtain ⟨hle, rfl⟩ := checkedAdd_eq_some.mp h
    simp [hle]

/-! ## The attestor set -/

namespace AttestorSet

/-- What the constructor and every replacement leave: distinct non-zero members, known to the
mapping, and a threshold that they can reach. -/
structure Valid (s : AttestorSet) : Prop where
  nodup : s.attestors.Nodup
  ne_zero : (0 : Address) ∉ s.attestors
  agrees : ∀ a, s.isAttestor a = true ↔ a ∈ s.attestors
  one_le : 1 ≤ s.threshold
  le_length : s.threshold ≤ s.attestors.length

lemma clear_eq_true {old : List Address} {m : Address → Bool} {a : Address} :
    clear old m a = true ↔ m a = true ∧ a ∉ old := by
  induction old generalizing m with
  | nil => simp [clear]
  | cons b old ih =>
    change clear old (Function.update m b false) a = true ↔ _
    rw [ih]
    by_cases hab : a = b
    · simp [hab]
    · simp [hab]

/-- What the loop of `_setAttestors` keeps: the mapping knows exactly the members entered so far. -/
structure Enrolled (st : List Address × (Address → Bool)) : Prop where
  nodup : st.1.Nodup
  ne_zero : (0 : Address) ∉ st.1
  agrees : ∀ a, st.2 a = true ↔ a ∈ st.1

lemma Enrolled.enroll {st st' : List Address × (Address → Bool)} {a : Address} (h : Enrolled st)
    (he : enroll st a = .ok st') : Enrolled st' ∧ st'.1 = st.1 ++ [a] := by
  unfold AttestorSet.enroll at he
  split_ifs at he with hzero hdup
  cases he
  have hmem : a ∉ st.1 := fun hmem => hdup ((h.agrees a).mpr hmem)
  refine ⟨⟨?_, ?_, fun b => ?_⟩, rfl⟩
  · exact List.nodup_append.mpr ⟨h.nodup, List.nodup_singleton a, by
      rintro b hb c hc rfl
      exact hmem (List.mem_singleton.mp hc ▸ hb)⟩
  · simp [h.ne_zero, Ne.symm hzero]
  · by_cases hba : b = a
    · simp [hba]
    · simp [hba, h.agrees b]

lemma Enrolled.foldlM {st st' : List Address × (Address → Bool)} {l : List Address}
    (h : Enrolled st) (he : l.foldlM AttestorSet.enroll st = .ok st') :
    Enrolled st' ∧ st'.1 = st.1 ++ l := by
  induction l generalizing st with
  | nil =>
    rw [List.foldlM_nil] at he
    cases he
    exact ⟨h, (List.append_nil _).symm⟩
  | cons a l ih =>
    rw [List.foldlM_cons] at he
    obtain ⟨st₁, h₁, h₂⟩ := bind_eq_ok.mp he
    obtain ⟨henrolled, hlist⟩ := h.enroll h₁
    obtain ⟨hdone, hlist'⟩ := ih henrolled h₂
    exact ⟨hdone, by rw [hlist', hlist, List.append_assoc]; rfl⟩

/-- A replacement of a set whose mapping knew nobody else leaves a valid set. -/
lemma valid_of_replace {s s' : AttestorSet} {l : List Address} {t : ℕ}
    (hagrees : ∀ a, s.isAttestor a = true → a ∈ s.attestors) (h : replace l t s = .ok s') :
    s'.Valid := by
  simp only [replace, bind_eq_ok, refuseIf_eq_ok, pure_eq_ok, not_or, Nat.not_lt] at h
  obtain ⟨_, ⟨hpos, hle⟩, st, hloop, rfl⟩ := h
  have hempty : Enrolled ([], clear s.attestors s.isAttestor) := by
    refine ⟨List.nodup_nil, List.not_mem_nil, fun a => ?_⟩
    rw [clear_eq_true]
    exact ⟨fun hc => absurd (hagrees a hc.1) hc.2, fun hmem => absurd hmem List.not_mem_nil⟩
  obtain ⟨hdone, hlist⟩ := hempty.foldlM hloop
  refine ⟨hdone.nodup, hdone.ne_zero, hdone.agrees, Nat.one_le_iff_ne_zero.mpr hpos, ?_⟩
  change t ≤ st.1.length
  rw [hlist, List.nil_append]
  exact hle

lemma valid_construct {s : AttestorSet} {l : List Address} {t : ℕ} {owner : Address}
    (h : construct l t owner = .ok s) : s.Valid := by
  simp only [construct, bind_eq_ok, refuseIf_eq_ok] at h
  obtain ⟨_, -, h⟩ := h
  exact valid_of_replace (fun a ha => absurd ha Bool.false_ne_true) h

/-- A change of the pause switch or of the owner leaves the set. -/
lemma Valid.of_eq {s s' : AttestorSet} (h : s.Valid) (hlist : s'.attestors = s.attestors)
    (hmap : s'.isAttestor = s.isAttestor) (ht : s'.threshold = s.threshold) : s'.Valid where
  nodup := hlist ▸ h.nodup
  ne_zero := hlist ▸ h.ne_zero
  agrees := by rw [hlist, hmap]; exact h.agrees
  one_le := ht ▸ h.one_le
  le_length := by rw [hlist, ht]; exact h.le_length

section Attested

variable [EvmSuite]

/-- The signers of an accepted list of signatures ascend strictly from `last`, and the count is that
of the attestors among them. -/
lemma signers_of_countAttested {digest : Bytes32} {m : Address → Bool} {sigs : List (List UInt8)}
    {last : Address} {valid n : ℕ} (h : countAttested digest m sigs last valid = .ok n) :
    ∃ signers : List Address, signers.Pairwise (· < ·) ∧ (∀ a ∈ signers, last < a) ∧
      (∀ a ∈ signers, ∃ sig ∈ sigs, recover digest sig = some a) ∧
        n = valid + (signers.filter m).length := by
  induction sigs generalizing last valid with
  | nil =>
    cases h
    exact ⟨[], .nil, by simp, by simp, by simp⟩
  | cons sig sigs ih =>
    unfold countAttested at h
    cases hrec : recover digest sig with
    | none =>
      rw [hrec] at h
      cases h
    | some signer =>
      simp only [hrec] at h
      by_cases hle : signer ≤ last
      · rw [if_pos hle] at h
        cases h
      rw [if_neg hle] at h
      obtain ⟨signers, hsorted, habove, hfound, rfl⟩ := ih h
      refine ⟨signer :: signers, List.pairwise_cons.mpr ⟨habove, hsorted⟩, ?_, ?_, ?_⟩
      · intro a ha
        rcases List.mem_cons.mp ha with rfl | ha
        · exact not_le.mp hle
        · exact (not_le.mp hle).trans (habove a ha)
      · intro a ha
        rcases List.mem_cons.mp ha with rfl | ha
        · exact ⟨sig, by simp, hrec⟩
        · obtain ⟨sig', hsig', hrec'⟩ := hfound a ha
          exact ⟨sig', by simp [hsig'], hrec'⟩
      · rw [List.filter_cons]
        split
        · rw [List.length_cons]
          omega
        · rfl

/-- Nobody forges: a signature that recovers to an address was made by its key over that digest. -/
def Unforgeable (Signed : Address → Bytes32 → Prop) : Prop :=
  ∀ digest sig a, recover digest sig = some a → Signed a digest

/-- At least the threshold of distinct current attestors signed the digest. -/
def Attested (Signed : Address → Bytes32 → Prop) (s : AttestorSet) (digest : Bytes32) : Prop :=
  ∃ signers : List Address, signers.Nodup ∧ s.threshold ≤ signers.length ∧
    ∀ a ∈ signers, a ∈ s.attestors ∧ Signed a digest

lemma attested_of_requireAttested {Signed : Address → Bytes32 → Prop} (hecdsa : Unforgeable Signed)
    {s : AttestorSet} (hs : s.Valid) {domain structHash : Bytes32} {sigs : List (List UInt8)}
    {u : Unit} (h : s.requireAttested domain structHash sigs = .ok u) :
    s.Attested Signed (typedDigest domain structHash) := by
  simp only [requireAttested, bind_eq_ok, refuseIf_eq_ok, Nat.not_lt] at h
  obtain ⟨valid, hcount, hle⟩ := h
  obtain ⟨signers, hsorted, -, hfound, rfl⟩ := signers_of_countAttested hcount
  refine ⟨signers.filter s.isAttestor, (hsorted.imp fun hlt => hlt.ne).filter _, ?_, ?_⟩
  · rwa [Nat.zero_add] at hle
  · intro a ha
    obtain ⟨hmem, hatt⟩ := List.mem_filter.mp ha
    obtain ⟨sig, -, hrec⟩ := hfound a hmem
    exact ⟨(hs.agrees a).mp hatt, hecdsa _ _ _ hrec⟩

end Attested

end AttestorSet

/-! ## The gate -/

namespace Gate

/-- A call of the owner or of the brake keeps a valid set, the replay guard and what was used
today. -/
lemma admin_eq_ok {g g' : Gate} {msg : Msg} {call : AdminCall} (h : g.admin msg call = .ok g') :
    (g.toAttestorSet.Valid → g'.toAttestorSet.Valid) ∧ g'.processed = g.processed ∧
      g'.dayIndex = g.dayIndex ∧ g'.usedToday = g.usedToday := by
  cases call with
  | setDailyCap cap =>
    simp only [admin, setDailyCap, bind_eq_ok, pure_eq_ok] at h
    obtain ⟨_, -, rfl⟩ := h
    exact ⟨id, rfl, rfl, rfl⟩
  | setAttestors attestors threshold =>
    simp only [admin, onSet, AttestorSet.setAttestors, bind_eq_ok, pure_eq_ok] at h
    obtain ⟨set, ⟨_, -, hset⟩, rfl⟩ := h
    exact ⟨fun hv => AttestorSet.valid_of_replace (fun a => (hv.agrees a).mp) hset, rfl, rfl, rfl⟩
  | pause =>
    simp only [admin, onSet, AttestorSet.pause, bind_eq_ok, pure_eq_ok] at h
    obtain ⟨set, ⟨_, -, _, -, rfl⟩, rfl⟩ := h
    exact ⟨fun hv => hv.of_eq rfl rfl rfl, rfl, rfl, rfl⟩
  | unpause =>
    simp only [admin, onSet, AttestorSet.unpause, bind_eq_ok, pure_eq_ok] at h
    obtain ⟨set, ⟨_, -, _, -, rfl⟩, rfl⟩ := h
    exact ⟨fun hv => hv.of_eq rfl rfl rfl, rfl, rfl, rfl⟩
  | transferOwnership newOwner =>
    simp only [admin, onSet, AttestorSet.transferOwnership, bind_eq_ok, pure_eq_ok] at h
    obtain ⟨set, ⟨_, -, rfl⟩, rfl⟩ := h
    exact ⟨fun hv => hv.of_eq rfl rfl rfl, rfl, rfl, rfl⟩
  | acceptOwnership =>
    simp only [admin, onSet, AttestorSet.acceptOwnership, bind_eq_ok, pure_eq_ok] at h
    obtain ⟨set, ⟨_, -, rfl⟩, rfl⟩ := h
    exact ⟨fun hv => hv.of_eq rfl rfl rfl, rfl, rfl, rfl⟩
  | renounceOwnership =>
    simp only [admin, onSet, AttestorSet.renounceOwnership, bind_eq_ok, pure_eq_ok] at h
    obtain ⟨set, ⟨_, -, rfl⟩, rfl⟩ := h
    exact ⟨fun hv => hv.of_eq rfl rfl rfl, rfl, rfl, rfl⟩

end Gate

/-- What a day's release leaves of the limit: the day is the current one, what it used before is
counted on, and either nothing was released or the whole stays within the cap in force. -/
lemma DailyLimit.consume_eq_ok {l l' : DailyLimit} {day amount : ℕ}
    (h : l.consume day amount = .ok l') :
    l'.dayIndex = day ∧ l'.dailyCap = l.dailyCap ∧
      l'.usedToday = (if day = l.dayIndex then l.usedToday else 0) + amount ∧
        (amount = 0 ∨ l'.usedToday ≤ l.dailyCap) := by
  simp only [consume, bind_eq_ok, refuseIf_eq_ok, addChecked_eq_ok, pure_eq_ok, Nat.not_lt] at h
  obtain ⟨_, hle, used, ⟨-, rfl⟩, rfl⟩ := h
  by_cases hday : day = l.dayIndex
  · simp only [hday, ne_eq, not_true_eq_false, if_false, if_true] at hle ⊢
    refine ⟨trivial, trivial, trivial, ?_⟩
    split at hle <;> omega
  · simp only [hday, ne_eq, not_false_eq_true, if_true, if_false] at hle ⊢
    refine ⟨trivial, trivial, trivial, ?_⟩
    split at hle <;> omega

section Gate

variable [EvmSuite]

/-- What a release asks the gate for. -/
structure Release where
  structHash : Bytes32
  amount : ℕ
  id : Bytes32
  sigs : List (List UInt8)

/-- A transaction as the gate sees it: what it releases, if anything. -/
structure GateAct where
  msg : Msg
  release : Option Release

/-- The amount that a transaction releases on the day. -/
def GateAct.releasedOn (day : ℕ) (a : GateAct) : ℕ :=
  if a.msg.day = day then (a.release.map Release.amount).getD 0 else 0

/-- One transaction at the gate: a release through an open gate, a call of the owner or of the
brake, or something that does not touch it. -/
inductive GateStep (domain : Bytes32) : Gate × ℕ → GateAct → Gate × ℕ → Prop
  | released {g g' : Gate} {now : ℕ} {msg : Msg} {r : Release} (htime : now ≤ msg.timestamp)
      (hopen : g.paused = false)
      (h : g.release domain r.structHash msg.day r.amount r.id r.sigs = .ok g') :
      GateStep domain (g, now) ⟨msg, some r⟩ (g', msg.timestamp)
  | admin {g g' : Gate} {now : ℕ} {msg : Msg} {call : AdminCall} (htime : now ≤ msg.timestamp)
      (h : g.admin msg call = .ok g') : GateStep domain (g, now) ⟨msg, none⟩ (g', msg.timestamp)
  | idle {g : Gate} {now : ℕ} {msg : Msg} (htime : now ≤ msg.timestamp) :
      GateStep domain (g, now) ⟨msg, none⟩ (g, msg.timestamp)

/-- A release passed the replay guard, the attestations and the daily limit, and left the rest. -/
lemma Gate.release_eq_ok {g g' : Gate} {domain structHash : Bytes32} {day amount : ℕ} {id : Bytes32}
    {sigs : List (List UInt8)} (h : g.release domain structHash day amount id sigs = .ok g') :
    g.processed id = false ∧ (∃ u, g.requireAttested domain structHash sigs = .ok u) ∧
      g.toDailyLimit.consume day amount = .ok g'.toDailyLimit ∧
        g'.toAttestorSet = g.toAttestorSet ∧
          g'.processed = Function.update g.processed id true := by
  simp only [release, bind_eq_ok, refuseIf_eq_ok, pure_eq_ok, Bool.not_eq_true] at h
  obtain ⟨_, hfresh, u, hatt, limit, hlimit, rfl⟩ := h
  exact ⟨hfresh, ⟨u, hatt⟩, hlimit, rfl, rfl⟩

variable {domain : Bytes32} {g g' : Gate} {now now' : ℕ} {acts : List GateAct} {act : GateAct}

lemma GateStep.valid (hg : g.toAttestorSet.Valid) (h : GateStep domain (g, now) act (g', now')) :
    g'.toAttestorSet.Valid := by
  cases h with
  | released _ _ h =>
    obtain ⟨-, -, -, hset, -⟩ := Gate.release_eq_ok h
    exact hset ▸ hg
  | admin _ h => exact (Gate.admin_eq_ok h).1 hg
  | idle => exact hg

/-- A release is made through an open gate, and it is attested by the current attestors. -/
lemma GateStep.attested {Signed : Address → Bytes32 → Prop}
    (hecdsa : AttestorSet.Unforgeable Signed) (hg : g.toAttestorSet.Valid) {r : Release}
    (h : GateStep domain (g, now) act (g', now')) (hr : act.release = some r) :
    g.paused = false ∧
      g.toAttestorSet.Attested Signed (AttestorSet.typedDigest domain r.structHash) := by
  cases h with
  | released _ hopen h =>
    cases hr
    obtain ⟨-, ⟨_, hatt⟩, -⟩ := Gate.release_eq_ok h
    exact ⟨hopen, AttestorSet.attested_of_requireAttested hecdsa hg hatt⟩
  | admin => cases hr
  | idle => cases hr

/-! ## Replays -/

/-- The ids of the releases of a run. -/
def releasedIds (acts : List GateAct) : List Bytes32 :=
  acts.filterMap fun a => a.release.map Release.id

omit [EvmSuite] in
lemma releasedIds_snoc (pre : List GateAct) (msg : Msg) (r : Release) :
    releasedIds (pre ++ [⟨msg, some r⟩]) = releasedIds pre ++ [r.id] := by
  simp [releasedIds]

omit [EvmSuite] in
lemma releasedIds_quiet (pre : List GateAct) (msg : Msg) :
    releasedIds (pre ++ [⟨msg, none⟩]) = releasedIds pre := by
  simp [releasedIds]

/-- No id was released twice, and the guard knows every id that was. -/
def Guarded (acts : List GateAct) (g : Gate) : Prop :=
  (releasedIds acts).Nodup ∧ ∀ id ∈ releasedIds acts, g.processed id = true

lemma Guarded.step (hg : Guarded acts g) (h : GateStep domain (g, now) act (g', now')) :
    Guarded (acts ++ [act]) g' := by
  obtain ⟨hnodup, hknown⟩ := hg
  cases h with
  | @released _ _ _ msg r _ _ h =>
    obtain ⟨hfresh, -, -, -, hprocessed⟩ := Gate.release_eq_ok h
    rw [Guarded, releasedIds_snoc]
    refine ⟨List.nodup_append.mpr ⟨hnodup, List.nodup_singleton _, ?_⟩, fun id hid => ?_⟩
    · rintro id hid id' hid' rfl
      have hknown' := hknown id hid
      rw [List.mem_singleton.mp hid', hfresh] at hknown'
      cases hknown'
    · rw [hprocessed]
      rcases List.mem_append.mp hid with hid | hid
      · by_cases heq : id = r.id
        · simp [heq]
        · rw [Function.update_of_ne heq]
          exact hknown id hid
      · rw [List.mem_singleton.mp hid, Function.update_self]
  | admin _ h =>
    rw [Guarded, releasedIds_quiet, (Gate.admin_eq_ok h).2.1]
    exact ⟨hnodup, hknown⟩
  | idle =>
    rw [Guarded, releasedIds_quiet]
    exact ⟨hnodup, hknown⟩

/-! ## The daily limit -/

/-- What a run releases on a day. -/
def releasedOn (day : ℕ) (acts : List GateAct) : ℕ := (acts.map (GateAct.releasedOn day)).sum

omit [EvmSuite] in
@[simp] lemma releasedOn_snoc (day : ℕ) (pre : List GateAct) (act : GateAct) :
    releasedOn day (pre ++ [act]) = releasedOn day pre + act.releasedOn day := by
  simp [releasedOn]

/-- The books of one day: nothing was released before it began, while it lasts the counter has all
of it, and it stays within the bound. -/
structure DayBooks (day bound : ℕ) (acts : List GateAct) (g : Gate) (now : ℕ) : Prop where
  index_le : g.dayIndex ≤ now / DAY
  before : g.dayIndex < day → releasedOn day acts = 0
  during : g.dayIndex = day → releasedOn day acts = g.usedToday
  le_bound : releasedOn day acts ≤ bound

omit [EvmSuite] in
/-- A transaction that releases nothing and leaves the counter keeps the books. -/
lemma DayBooks.quiet {day bound : ℕ} {msg : Msg} (hb : DayBooks day bound acts g now)
    (htime : now ≤ msg.timestamp) (hindex : g'.dayIndex = g.dayIndex)
    (hused : g'.usedToday = g.usedToday) :
    DayBooks day bound (acts ++ [⟨msg, none⟩]) g' msg.timestamp := by
  have hsame : releasedOn day (acts ++ [⟨msg, none⟩]) = releasedOn day acts := by
    simp [GateAct.releasedOn]
  refine ⟨?_, ?_, ?_, ?_⟩
  · rw [hindex]
    exact hb.index_le.trans (Nat.div_le_div_right htime)
  · rw [hsame, hindex]
    exact hb.before
  · rw [hsame, hindex, hused]
    exact hb.during
  · rw [hsame]
    exact hb.le_bound

omit [EvmSuite] in
lemma DayBooks.release {day bound : ℕ} {msg : Msg} {r : Release}
    (hb : DayBooks day bound acts g now) (htime : now ≤ msg.timestamp)
    (hcap : msg.day = day → g.dailyCap ≤ bound)
    (h : g.toDailyLimit.consume msg.day r.amount = .ok g'.toDailyLimit) :
    DayBooks day bound (acts ++ [⟨msg, some r⟩]) g' msg.timestamp := by
  obtain ⟨hindex, -, hused, hwithin⟩ := DailyLimit.consume_eq_ok h
  have hle : g.dayIndex ≤ msg.day := hb.index_le.trans (Nat.div_le_div_right htime)
  have hadd : (⟨msg, some r⟩ : GateAct).releasedOn day = if msg.day = day then r.amount else 0 :=
    rfl
  by_cases hday : msg.day = day
  · -- a release of the day: the counter holds what the books have
    have hbefore : releasedOn day acts = if msg.day = g.dayIndex then g.usedToday else 0 := by
      split
      · next heq => exact hb.during (heq.symm.trans hday)
      · next hne => exact hb.before (hday ▸ lt_of_le_of_ne hle (Ne.symm hne))
    have hnow : releasedOn day (acts ++ [⟨msg, some r⟩]) = g'.usedToday := by
      rw [releasedOn_snoc, hadd, if_pos hday, hbefore, hused]
    refine ⟨hindex.le, fun hlt => ?_, fun _ => hnow, ?_⟩
    · rw [hindex, hday] at hlt
      exact absurd hlt (lt_irrefl _)
    · rw [hnow]
      rcases hwithin with hzero | hcapped
      · rw [hused, hzero, Nat.add_zero, ← hbefore]
        exact hb.le_bound
      · exact hcapped.trans (hcap hday)
  · have hsame : releasedOn day (acts ++ [⟨msg, some r⟩]) = releasedOn day acts := by
      rw [releasedOn_snoc, hadd, if_neg hday, Nat.add_zero]
    refine ⟨hindex.le, fun hlt => ?_, fun heq => absurd (hindex.symm.trans heq) hday, ?_⟩
    · rw [hsame]
      rw [hindex] at hlt
      exact hb.before (hle.trans_lt hlt)
    · rw [hsame]
      exact hb.le_bound

lemma DayBooks.step {day bound : ℕ} (hb : DayBooks day bound acts g now)
    (hcap : act.msg.day = day → g.dailyCap ≤ bound)
    (h : GateStep domain (g, now) act (g', now')) : DayBooks day bound (acts ++ [act]) g' now' := by
  cases h with
  | released htime _ h =>
    obtain ⟨-, -, hlimit, -, -⟩ := Gate.release_eq_ok h
    exact hb.release htime hcap hlimit
  | admin htime h =>
    obtain ⟨-, -, hindex, hused⟩ := Gate.admin_eq_ok h
    exact hb.quiet htime hindex hused
  | idle htime => exact hb.quiet htime rfl rfl

/-! ## Runs through the gate -/

/-- What the gate keeps over a run of a system that goes through it: no id is released twice; every
release is made while the gate is open, and over its digest at least the threshold of distinct
current attestors have signed; what a day releases is within every bound on the caps that were in
force at the transactions of that day; and the attestor set is valid in the end. -/
structure GateSafe {σ ℓ : Type} (Signed : Address → Bytes32 → Prop) (domain : Bytes32)
    (step : σ → ℓ → σ → Prop) (gate : σ → Gate × ℕ) (act : ℓ → GateAct) (s₀ : σ) (ls : List ℓ)
    (s : σ) : Prop where
  once : (releasedIds (ls.map act)).Nodup
  attested : Path.Along step s₀ ls fun u l => ∀ r, (act l).release = some r →
    (gate u).1.paused = false ∧
      (gate u).1.toAttestorSet.Attested Signed (AttestorSet.typedDigest domain r.structHash)
  capped : ∀ day bound,
    (Path.Along step s₀ ls fun u l => (act l).msg.day = day → (gate u).1.dailyCap ≤ bound) →
      releasedOn day (ls.map act) ≤ bound
  attestors : (gate s).1.toAttestorSet.Valid

/-- The gate is as a constructor leaves it. -/
structure Gate.Fresh (g : Gate) : Prop where
  valid : g.toAttestorSet.Valid
  dayIndex : g.dayIndex = 0
  usedToday : g.usedToday = 0

/-- Every deterministic system whose steps are steps of the gate is safe on every run. -/
theorem gateSafe_of_simulation {σ ℓ : Type} {Signed : Address → Bytes32 → Prop}
    (hecdsa : AttestorSet.Unforgeable Signed) {step : σ → ℓ → σ → Prop} {gate : σ → Gate × ℕ}
    {act : ℓ → GateAct} (hdet : ∀ s l s₁ s₂, step s l s₁ → step s l s₂ → s₁ = s₂)
    (hsim : ∀ s l s', step s l s' → GateStep domain (gate s) (act l) (gate s')) {s₀ s : σ}
    (hfresh : (gate s₀).1.Fresh) {ls : List ℓ} (h : Path step s₀ ls s) :
    GateSafe Signed domain step gate act s₀ ls s where
  once := by
    have hguarded := h.invariant_along (I := fun pre u => Guarded (pre.map act) (gate u).1)
      Path.along_mem ⟨.nil, by simp [releasedIds]⟩ fun pre l u u' hu _ hs => by
        rw [List.map_append]
        exact hu.step (hsim u l u' hs)
    exact hguarded.1
  attested := Path.along_of_invariant hdet h Path.along_mem
    (I := fun u => (gate u).1.toAttestorSet.Valid) hfresh.valid fun u l u' hu _ hs =>
      ⟨fun _ hr => (hsim u l u' hs).attested hecdsa hu hr, (hsim u l u' hs).valid hu⟩
  capped day bound hcaps := by
    have h₀ : DayBooks day bound [] (gate s₀).1 (gate s₀).2 :=
      ⟨by rw [hfresh.dayIndex]; exact Nat.zero_le _, fun _ => rfl, fun _ => hfresh.usedToday.symm,
        Nat.zero_le _⟩
    have hbooks := h.invariant_along
      (I := fun pre u => DayBooks day bound (pre.map act) (gate u).1 (gate u).2) hcaps h₀
      fun pre l u u' hu hcap hs => by
        rw [List.map_append]
        exact hu.step hcap (hsim u l u' hs)
    exact hbooks.le_bound
  attestors := h.invariant (I := fun u => (gate u).1.toAttestorSet.Valid) hfresh.valid
    fun u l u' _ hu hs => (hsim u l u' hs).valid hu

end Gate

end HashKinetics.Bridge
