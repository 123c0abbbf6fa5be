import HashKinetics.Consensus.Seats
import HashKinetics.Consensus.Replay

/-!
# Key epochs

A rotation is judged against the epoch of the seat its root holds now, and an admission seats its
root at epoch zero.  Epochs therefore grow as long as a root keeps its seat; they roll back exactly
when a root whose key had been rotated is admitted again after a removal.
-/

namespace HashKinetics

open Foundations

namespace HkValidatorSet

variable {H : Type}

/-- The epoch of the key seated for a root. -/
def epochOf (s : HkValidatorSet H) (root : List UInt8) : Option ℕ :=
  (s.findRoot root).map HkValidator.epoch

/-- One seat for each root, and one epoch for each address. -/
structure EpochSound (s : HkValidatorSet H) : Prop where
  roots : s.RootsDistinct
  addresses : ∀ v ∈ s, ∀ w ∈ s, v.address = w.address → v.epoch = w.epoch

lemma EpochSound.epochOf_eq {s : HkValidatorSet H} (hs : s.EpochSound) {v : HkValidator H}
    (hv : v ∈ s) : s.epochOf v.rootPk = some v.epoch := by
  unfold epochOf
  cases hfind : s.findRoot v.rootPk with
  | none => exact absurd ⟨v, hv, rfl⟩ (findRoot_eq_none.mp hfind)
  | some w =>
    obtain ⟨hw, hroot⟩ := mem_of_findRoot hfind
    rw [hs.roots.eq_of_root hw hv hroot]
    rfl

lemma exists_of_epochOf {s : HkValidatorSet H} {root : List UInt8} {e : ℕ}
    (h : s.epochOf root = some e) : ∃ v ∈ s, v.rootPk = root ∧ v.epoch = e := by
  obtain ⟨v, hfind, rfl⟩ := Option.map_eq_some_iff.mp h
  exact ⟨v, (mem_of_findRoot hfind).1, (mem_of_findRoot hfind).2, rfl⟩

/-- Seats that keep their root, address and epoch keep one epoch for each address. -/
lemma addresses_of_origin {s s' : HkValidatorSet H} (hs : s.EpochSound)
    (h : ∀ w ∈ s', s.Origin w) :
    ∀ v ∈ s', ∀ w ∈ s', v.address = w.address → v.epoch = w.epoch := by
  intro v hv w hw haddr
  obtain ⟨v', hv', -, hva, hve⟩ := h v hv
  obtain ⟨w', hw', -, hwa, hwe⟩ := h w hw
  rw [← hve, ← hwe]
  exact hs.addresses v' hv' w' hw' (hva.trans (haddr.trans hwa.symm))

variable [HashSuite H]

lemma epochSound_genesis {gvs : List GenesisValidator} {s : HkValidatorSet H}
    (hg : genesisValidatorSet gvs = .ok s) (hroots : (gvs.map GenesisValidator.rootPk).Nodup) :
    s.EpochSound := by
  unfold genesisValidatorSet at hg
  simp only at hg
  split at hg
  · cases hg
  · split_ifs at hg with hne
    cases hg
    refine ⟨(map_new_perm _ _ hne).nodup_iff.mpr ?_, fun v hv w hw _ => ?_⟩
    · simpa [HkValidator.new, Function.comp_def] using hroots
    · simp only [mem_new, List.mem_map] at hv hw
      obtain ⟨g, -, rfl⟩ := hv
      obtain ⟨g', -, rfl⟩ := hw
      rfl

/-! ## One event -/

section Step

variable {s s' : HkValidatorSet H} {ch : SetChange}

lemma Effect.epochSound (h : Effect s ch s') (hs : s.EpochSound) : s'.EpochSound := by
  refine ⟨h.rootsDistinct hs.roots, ?_⟩
  cases h with
  | admitSeat hseat haddr =>
    -- the newcomer's address is new, so it shares an epoch with nobody
    intro v hv w hw hvw
    rcases mem_push.mp hv with hv | rfl <;> rcases mem_push.mp hw with hw | rfl
    · exact hs.addresses v hv w hw hvw
    · exact absurd hvw (haddr v hv)
    · exact absurd hvw.symm (haddr w hw)
    · rfl
  | remove hseat hne =>
    refine addresses_of_origin hs fun w hw => ?_
    exact ⟨w, (mem_without.mp (mem_new.mp hw)).1, rfl, rfl, rfl⟩
  | setPower => exact addresses_of_origin hs fun w hw => origin_of_mem_repower hw

variable [RootScheme] {rules : SetRules} {height : ℕ} {ev : SetEvent}

lemma Step.epochSound (h : Step rules s height ev s') (hs : s.EpochSound) : s'.EpochSound := by
  refine ⟨h.rootsDistinct hs.roots, ?_⟩
  cases h with
  | rotation hfind hepoch =>
    intro v hv w hw hvw
    obtain ⟨v', hv', rfl⟩ := mem_mapSeats.mp hv
    obtain ⟨w', hw', rfl⟩ := mem_mapSeats.mp hw
    split_ifs at hvw ⊢ with hva hwa hwa
    · rfl
    · exact absurd (hvw.symm.trans hva) hwa
    · exact absurd (hvw.trans hwa) hva
    · exact hs.addresses v' hv' w' hw' hvw
  | change _ heff => exact (heff.epochSound hs).addresses
  | bootstrap => exact addresses_of_origin hs fun w hw => origin_of_mem_repower hw

/-- An event never lowers the epoch of a root that keeps its seat. -/
lemma Step.epoch_le (h : Step rules s height ev s') (hs : s.EpochSound) {v w : HkValidator H}
    (hv : v ∈ s) (hw : w ∈ s') (hroot : v.rootPk = w.rootPk) : v.epoch ≤ w.epoch := by
  have horigin : s.Origin w → v.epoch ≤ w.epoch := by
    rintro ⟨u, hu, hur, -, hue⟩
    rw [hs.roots.eq_of_root hv hu (hroot.trans hur.symm), hue]
  cases h with
  | @rotation cert target hfind hepoch =>
    obtain ⟨u, hu, rfl⟩ := mem_mapSeats.mp hw
    have huv : v = u := hs.roots.eq_of_root hv hu (by split_ifs at hroot <;> exact hroot)
    subst huv
    by_cases hva : v.address = target.address
    · rw [if_pos hva, hs.addresses v hv target (mem_of_findRoot hfind).1 hva]
      exact hepoch.le
    · rw [if_neg hva]
  | change _ heff =>
    rcases heff.origin hw with h | hnew
    · exact horigin h
    · exact absurd ⟨v, hv, hroot⟩ hnew
  | bootstrap => exact horigin (origin_of_mem_repower hw)

/-- Only an admission seats a root that was not seated, at epoch zero. -/
lemma Step.admit_of_not_seated (h : Step rules s height ev s') {w : HkValidator H} (hw : w ∈ s')
    (hns : ¬ s.Seated w.rootPk) :
    ∃ cert pk power, ev = .setChange cert ∧ cert.body.change = .admitSeat w.rootPk pk power ∧
      s.Passes cert height rules.chainId ∧ Room s cert.body.change ∧ w.epoch = 0 := by
  cases h with
  | rotation =>
    obtain ⟨u, hu, rfl⟩ := mem_mapSeats.mp hw
    exact absurd ⟨u, hu, by split <;> rfl⟩ hns
  | @change cert _ hpass heff =>
    refine ⟨cert, ?_⟩
    have hroom := heff.room
    generalize cert.body.change = ch at heff hroom
    cases heff with
    | @admitSeat root pk power hseat haddr =>
      rcases mem_push.mp hw with hw | rfl
      · exact absurd ⟨w, hw, rfl⟩ hns
      · exact ⟨pk, power, rfl, rfl, hpass, hroom, rfl⟩
    | remove hseat hne => exact absurd ⟨w, (mem_without.mp (mem_new.mp hw)).1, rfl⟩ hns
    | setPower =>
      obtain ⟨v, hv, hvr, -⟩ := origin_of_mem_repower hw
      exact absurd ⟨v, hv, hvr⟩ hns
  | bootstrap =>
    obtain ⟨v, hv, hvr, -⟩ := origin_of_mem_repower hw
    exact absurd ⟨v, hv, hvr⟩ hns

end Step

/-! ## Runs -/

variable [RootScheme] {rules : SetRules} {s₀ : HkValidatorSet H}

/-- Along the run, the epoch seated for a root is never below one seated for it before, and a
rotation certificate that was accepted is not accepted again. -/
structure EpochsKept (rules : SetRules) (s₀ : HkValidatorSet H) (ls : List (ℕ × SetEvent)) :
    Prop where
  epoch_le : ∀ earlier later, earlier <+: later → later <+: ls → ∀ root e e',
    (runEvents rules s₀ earlier).epochOf root = some e →
    (runEvents rules s₀ later).epochOf root = some e' → e ≤ e'
  rotation_once : ∀ pre height mid height' post cert s',
    ls = pre ++ (height, .rotation cert) :: mid ++ (height', .rotation cert) :: post →
    (runEvents rules s₀ pre).applyRotation cert (rules.rotationRules height) = .ok s' →
    ∃ e, (runEvents rules s₀ (pre ++ (height, .rotation cert) :: mid)).applyRotation cert
      (rules.rotationRules height') = .error e

/-- No certificate admits a root again whose key had been rotated before it was removed. -/
def NoRotatedReadmission (rules : SetRules) (s₀ : HkValidatorSet H) (ls : List (ℕ × SetEvent)) :
    Prop :=
  ∀ pre height cert post root pk power, ls = pre ++ (height, .setChange cert) :: post →
    cert.body.change = .admitSeat root pk power →
    (runEvents rules s₀ pre).Passes cert height rules.chainId →
    Room (runEvents rules s₀ pre) cert.body.change →
    ¬ (runEvents rules s₀ pre).Seated root →
    ∀ earlier, earlier <+: pre → ∀ e, (runEvents rules s₀ earlier).epochOf root = some e → e = 0

lemma NoRotatedReadmission.of_prefix {ls ls' : List (ℕ × SetEvent)}
    (h : NoRotatedReadmission rules s₀ ls) (hpre : ls' <+: ls) :
    NoRotatedReadmission rules s₀ ls' := by
  obtain ⟨t, rfl⟩ := hpre
  rintro pre height cert post root pk power rfl
  exact h pre height cert (post ++ t) root pk power (by simp)

lemma epochSound_runEvents (rules : SetRules) (hs : s₀.EpochSound) (ls : List (ℕ × SetEvent)) :
    (runEvents rules s₀ ls).EpochSound := by
  refine invariant_of_foldl (fun s l h => ?_) ls hs
  rcases applyEvent_cases rules s l with heq | hstep
  · rwa [heq]
  · exact hstep.epochSound h

/-- Without such a readmission, every epoch seated earlier in a run is at most the last one. -/
lemma epoch_le_of_prefix (hs : s₀.EpochSound) {ls : List (ℕ × SetEvent)}
    (hcond : NoRotatedReadmission rules s₀ ls) {earlier : List (ℕ × SetEvent)}
    (hpre : earlier <+: ls) {root : List UInt8} {e e' : ℕ}
    (he : (runEvents rules s₀ earlier).epochOf root = some e)
    (he' : (runEvents rules s₀ ls).epochOf root = some e') : e ≤ e' := by
  induction ls using List.reverseRecOn generalizing e' with
  | nil =>
    obtain rfl := List.prefix_nil.mp hpre
    exact (Option.some.inj (he.symm.trans he')).le
  | append_singleton ls l ih =>
    rcases List.prefix_concat_iff.mp hpre with rfl | hpre
    · exact (Option.some.inj (he.symm.trans he')).le
    have ih : ∀ e', (runEvents rules s₀ ls).epochOf root = some e' → e ≤ e' :=
      fun e' => ih (hcond.of_prefix (List.prefix_append _ _)) hpre
    rw [runEvents_snoc] at he'
    rcases applyEvent_cases rules (runEvents rules s₀ ls) l with heq | hstep
    · rw [heq] at he'
      exact ih e' he'
    · have hsound := epochSound_runEvents rules hs ls
      obtain ⟨w, hw, rfl, rfl⟩ := exists_of_epochOf he'
      by_cases hseat : (runEvents rules s₀ ls).Seated w.rootPk
      · obtain ⟨v, hv, hvr⟩ := hseat
        have hle : e ≤ v.epoch := ih v.epoch (hvr ▸ hsound.epochOf_eq hv)
        exact hle.trans (hstep.epoch_le hsound hv hw hvr)
      · -- the root comes back by an admission, which the condition allows only at epoch zero
        obtain ⟨cert, pk, power, hev, hch, hpass, hroom, -⟩ :=
          hstep.admit_of_not_seated hw hseat
        have hls : ls ++ [l] = ls ++ (l.1, .setChange cert) :: [] := by rw [← hev]
        have hzero := hcond ls l.1 cert [] w.rootPk pk power hls hch hpass hroom hseat earlier hpre
          e he
        omega

/-- An accepted rotation seats its epoch. -/
lemma epochOf_of_applyRotation {s s' : HkValidatorSet H} {cert : RotationCert} {height : ℕ}
    (hs : s.EpochSound) (h : s.applyRotation cert (rules.rotationRules height) = .ok s') :
    (applyEvent rules s (height, .rotation cert)).epochOf cert.rootPk = some cert.epoch := by
  have heq : applyEvent rules s (height, .rotation cert) = s' := by
    simp only [applyEvent, rotate, h]
  obtain ⟨target, hfind, hepoch, rfl⟩ := applyRotation_eq_ok h
  obtain ⟨hmem, hroot⟩ := mem_of_findRoot hfind
  have hstep : Step rules s height (.rotation cert)
      (s.rekey target.address cert.newOpPk cert.epoch) := .rotation hfind hepoch
  have hsound := hstep.epochSound hs
  have hseat : { target with publicKey := cert.newOpPk, epoch := cert.epoch } ∈
      s.rekey target.address cert.newOpPk cert.epoch :=
    mem_mapSeats.mpr ⟨target, hmem, by simp⟩
  rw [heq, ← hroot]
  exact hsound.epochOf_eq hseat

/-- From a genesis file that lists no root twice, epochs never roll back and no rotation is accepted
twice in a run of committed blocks if and only if no root whose key had been rotated is admitted
again after its removal. -/
theorem epochsKept_iff (rules : SetRules) {gvs : List GenesisValidator}
    (hg : genesisValidatorSet gvs = .ok s₀) (hroots : (gvs.map GenesisValidator.rootPk).Nodup)
    (blocks : List (ℕ × CertBatch)) :
    EpochsKept rules s₀ (blocks.flatMap blockEvents) ↔
      NoRotatedReadmission rules s₀ (blocks.flatMap blockEvents) := by
  have hs : s₀.EpochSound := epochSound_genesis hg hroots
  constructor
  · intro hkept pre height cert post root pk power hls hch hpass hroom hseat earlier hpre e he
    -- the admission seats the root at epoch zero
    have happly : applyEvent rules (runEvents rules s₀ pre) (height, .setChange cert) =
        (runEvents rules s₀ pre).push (.new root pk power) := by
      have heff : Effect (runEvents rules s₀ pre) cert.body.change
          ((runEvents rules s₀ pre).push (.new root pk power)) := by
        rw [hch] at hroom ⊢
        exact .admitSeat hseat hroom
      simp only [applyEvent, change, applySetChange_eq_some.mpr ⟨hpass, heff⟩]
    have hsound := epochSound_runEvents rules hs (pre ++ [(height, .setChange cert)])
    have hzero := hsound.epochOf_eq (v := HkValidator.new root pk power)
      (by rw [runEvents_snoc, happly]; exact mem_push.mpr (.inr rfl))
    have hle := hkept.epoch_le earlier (pre ++ [(height, .setChange cert)])
      (hpre.trans (List.prefix_append _ _)) ⟨post, by rw [hls]; simp⟩ root e 0 he hzero
    omega
  · intro hcond
    refine ⟨fun earlier later hpre hlater root e e' he he' => ?_, ?_⟩
    · exact epoch_le_of_prefix hs (hcond.of_prefix hlater) hpre he he'
    · intro pre height mid height' post cert s' hls hacc
      cases hagain :
        (runEvents rules s₀ (pre ++ (height, .rotation cert) :: mid)).applyRotation cert
          (rules.rotationRules height') with
      | error e => exact ⟨e, rfl⟩
      | ok s'' =>
        exfalso
        obtain ⟨target, hfind, hepoch, -⟩ := applyRotation_eq_ok hagain
        have hfirst := epochOf_of_applyRotation (epochSound_runEvents rules hs pre) hacc
        rw [← runEvents_snoc] at hfirst
        have hlater : (runEvents rules s₀ (pre ++ (height, .rotation cert) :: mid)).epochOf
            cert.rootPk = some target.epoch := by
          simp [epochOf, hfind]
        have hpre : pre ++ [(height, .rotation cert)] <+: pre ++ (height, .rotation cert) :: mid :=
          ⟨mid, by simp⟩
        have hle := epoch_le_of_prefix hs (hcond.of_prefix ⟨_, hls.symm⟩) hpre hfirst hlater
        omega

end HkValidatorSet

namespace Concrete

open HkValidatorSet

/-- The newcomer's rotation is accepted again after its readmission. -/
theorem reseating_not_epochsKept :
    ¬ EpochsKept setRules foundingSet (reseating.flatMap blockEvents) := by
  intro hkept
  have hle := hkept.epoch_le ((reseating.take 2).flatMap blockEvents)
    ((reseating.take 4).flatMap blockEvents) ⟨_, rfl⟩ ⟨_, rfl⟩ (rootOf 2) 1 0
    (by decide +kernel) (by decide +kernel)
  exact absurd hle (by decide)

/-- The newcomer is admitted once while it is seated, rotated and unseated. -/
lemma seating_noRotatedReadmission :
    NoRotatedReadmission setRules foundingSet ((reseating.take 3).flatMap blockEvents) := by
  have hevents : (reseating.take 3).flatMap blockEvents =
      [(1, .setChange admission), (1, .bootstrap), (2, .rotation firstRotation), (2, .bootstrap),
        (3, .setChange removal), (3, .bootstrap)] := rfl
  intro pre height cert post root pk power hls hch _ _ _ earlier hpre e he
  rw [hevents] at hls
  rcases pre with _ | ⟨a, _ | ⟨b, _ | ⟨c, _ | ⟨d, _ | ⟨f, pre⟩⟩⟩⟩⟩
  · obtain rfl := List.prefix_nil.mp hpre
    obtain ⟨⟨rfl, rfl⟩, -⟩ : (1 = height ∧ admission = cert) ∧ _ := by simpa using hls
    obtain rfl : rootOf 2 = root := (SetChange.admitSeat.inj hch).1
    have hnone : foundingSet.epochOf (rootOf 2) = none := by decide +kernel
    exact absurd (hnone.symm.trans he) (by simp)
  · simp at hls
  · simp at hls
  · simp at hls
  · obtain ⟨-, -, -, -, ⟨-, rfl⟩, -⟩ : _ ∧ _ ∧ _ ∧ _ ∧ (3 = height ∧ removal = cert) ∧ _ := by
      simpa using hls
    exact absurd hch (by simp [removal, approved])
  · cases pre with
    | nil => simp at hls
    | cons g pre => simp at hls

/-- Blocks that seat the newcomer, rotate its key and unseat it keep its epochs. -/
theorem seating_epochsKept :
    EpochsKept setRules foundingSet ((reseating.take 3).flatMap blockEvents) :=
  (epochsKept_iff setRules genesis_founders (by decide) (reseating.take 3)).mpr
    seating_noRotatedReadmission

end Concrete

end HashKinetics
