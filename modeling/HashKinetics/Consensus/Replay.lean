import HashKinetics.Concrete

/-!
# Replayed set changes

Nothing records that a set-change certificate was applied, so a second inclusion inside its window
is judged against the set as it then stands.  A root's seat is always as the last event on that root
that took effect left it; a replay is idle exactly when that is what the replayed body demands.
-/

namespace HashKinetics

open Foundations

/-- What a change leaves its root with: the power of its seat, or no seat. -/
def SetChange.result : SetChange → Option ℕ
  | .admitSeat _ _ power => some power
  | .remove _ => none
  | .setPower _ power => some power

/-- What a change demands of its root's seat. -/
def SetChange.Meets : SetChange → Option ℕ → Prop
  | .admitSeat _ _ _, left => left.isSome
  | .remove _, left => left = none
  | .setPower _ power, left => ∀ p ∈ left, p = power

namespace HkValidatorSet

variable {H : Type} [HashSuite H] [RootScheme]

/-! ## Taking effect -/

/-- The event changes the set. -/
def TakesEffect (rules : SetRules) (s : HkValidatorSet H) (l : ℕ × SetEvent) : Prop :=
  applyEvent rules s l ≠ s

instance [DecidableEq H] (rules : SetRules) (s : HkValidatorSet H) (l : ℕ × SetEvent) :
    Decidable (TakesEffect rules s l) :=
  inferInstanceAs (Decidable (applyEvent rules s l ≠ s))

/-- A certificate with this body has taken effect in the run. -/
def TookEffect (rules : SetRules) (s₀ : HkValidatorSet H) (ls : List (ℕ × SetEvent))
    (body : SetChangeBody) : Prop :=
  ∃ pre height cert post, ls = pre ++ (height, .setChange cert) :: post ∧ cert.body = body ∧
    TakesEffect rules (runEvents rules s₀ pre) (height, .setChange cert)

/-- Every certificate body takes effect at most once in the run: included again, it leaves the set
exactly as it was. -/
def TakeEffectOnce (rules : SetRules) (s₀ : HkValidatorSet H) (ls : List (ℕ × SetEvent)) : Prop :=
  ∀ pre height cert post, ls = pre ++ (height, .setChange cert) :: post →
    TookEffect rules s₀ pre cert.body →
    applyEvent rules (runEvents rules s₀ pre) (height, .setChange cert) = runEvents rules s₀ pre

/-! ## What the events on a root leave -/

/-- What an event that takes effect leaves a root with: the power of its seat, or no seat. -/
def leaves [DecidableEq H] (rules : SetRules) (root : List UInt8) (s : HkValidatorSet H)
    (l : ℕ × SetEvent) : Option (Option ℕ) :=
  if TakesEffect rules s l then
    match l.2 with
    | .rotation _ => none
    | .setChange cert =>
      if cert.body.change.rootPk = root then some cert.body.change.result else none
    | .bootstrap =>
      if root ∈ rules.genesisRoots ∧ s.Seated root then
        rules.bootstrap.map fun b => some b.foundingPower
      else none
  else none

/-- What the last event on a root that took effect left it with. -/
def lastLeft [DecidableEq H] (rules : SetRules) (root : List UInt8) :
    HkValidatorSet H → List (ℕ × SetEvent) → Option (Option ℕ)
  | _, [] => none
  | s, l :: ls => (lastLeft rules root (applyEvent rules s l) ls).or (leaves rules root s l)

/-- The seat of a root as described: no seat, or every seat of the root at the power. -/
def SeatIs (s : HkValidatorSet H) (root : List UInt8) : Option ℕ → Prop
  | none => ¬ s.Seated root
  | some power => s.Seated root ∧ ∀ v ∈ s, v.rootPk = root → v.votingPower = power

/-- The change does not collide with a seated address and leaves a seat. -/
def Room (s : HkValidatorSet H) : SetChange → Prop
  | .admitSeat _ publicKey _ => ∀ v ∈ s, v.address ≠ HkAddress.fromPublicKey publicKey
  | .remove root => s.without root ≠ []
  | .setPower _ _ => True

/-! ## One event -/

section Seats

omit [HashSuite H] [RootScheme]

/-- Seats with the same roots and powers are described alike. -/
lemma SeatIs.of_forall {s s' : HkValidatorSet H} {root : List UInt8} {left : Option ℕ}
    (h : SeatIs s root left)
    (hfrom : ∀ w ∈ s', w.rootPk = root → ∃ v ∈ s, v.rootPk = root ∧ v.votingPower = w.votingPower)
    (hkept : s.Seated root → s'.Seated root) : SeatIs s' root left := by
  cases left with
  | none =>
    rintro ⟨w, hw, hwr⟩
    obtain ⟨v, hv, hvr, -⟩ := hfrom w hw hwr
    exact h ⟨v, hv, hvr⟩
  | some power =>
    refine ⟨hkept h.1, fun w hw hwr => ?_⟩
    obtain ⟨v, hv, hvr, hvp⟩ := hfrom w hw hwr
    rw [← hvp]
    exact h.2 v hv hvr

lemma seated_repower {s : HkValidatorSet H} {p : HkValidator H → Prop} [DecidablePred p]
    {power : ℕ} {root : List UInt8} : (s.repower p power).Seated root ↔ s.Seated root := by
  constructor
  · rintro ⟨w, hw, rfl⟩
    obtain ⟨v, hv, rfl⟩ := mem_repower.mp hw
    exact ⟨v, hv, by split <;> rfl⟩
  · rintro ⟨v, hv, rfl⟩
    exact ⟨_, mem_repower.mpr ⟨v, hv, rfl⟩, by split <;> rfl⟩

end Seats

omit [RootScheme] in
/-- A change leaves its own root as it demands. -/
lemma Effect.seatIs {s s' : HkValidatorSet H} {ch : SetChange} (h : Effect s ch s') :
    SeatIs s' ch.rootPk ch.result := by
  cases h with
  | @admitSeat root pk power hseat haddr =>
    refine ⟨⟨_, mem_push.mpr (.inr rfl), rfl⟩, fun w hw hwr => ?_⟩
    rcases mem_push.mp hw with hw | rfl
    · exact absurd ⟨w, hw, hwr⟩ hseat
    · rfl
  | remove hseat hne =>
    rintro ⟨w, hw, hwr⟩
    exact (mem_without.mp (mem_new.mp hw)).2 hwr
  | @setPower root power seat hseat hpower =>
    refine ⟨seated_repower.mpr ⟨seat, mem_of_findRoot hseat⟩, fun w hw hwr => ?_⟩
    obtain ⟨v, hv, rfl⟩ := mem_repower.mp hw
    by_cases hv' : v.rootPk = root
    · rw [if_pos hv']
    · rw [if_neg hv'] at hwr
      exact absurd hwr hv'

omit [RootScheme] in
/-- A change leaves the seats of other roots as they were. -/
lemma Effect.seatIs_of_ne {s s' : HkValidatorSet H} {ch : SetChange} (h : Effect s ch s')
    {root : List UInt8} (hne : ch.rootPk ≠ root) {left : Option ℕ} (hleft : SeatIs s root left) :
    SeatIs s' root left := by
  cases h with
  | admitSeat hseat haddr =>
    refine hleft.of_forall (fun w hw hwr => ?_) fun ⟨v, hv, hvr⟩ => ⟨v, mem_push.mpr (.inl hv), hvr⟩
    rcases mem_push.mp hw with hw | rfl
    · exact ⟨w, hw, hwr, rfl⟩
    · exact absurd hwr hne
  | remove hseat hne' =>
    refine hleft.of_forall (fun w hw hwr => ⟨w, (mem_without.mp (mem_new.mp hw)).1, hwr, rfl⟩) ?_
    rintro ⟨v, hv, hvr⟩
    exact ⟨v, mem_new.mpr (mem_without.mpr ⟨hv, fun hvr' => hne (hvr'.symm.trans hvr)⟩), hvr⟩
  | setPower hseat hpower =>
    refine hleft.of_forall (fun w hw hwr => ?_) seated_repower.mpr
    obtain ⟨v, hv, rfl⟩ := mem_repower.mp hw
    split_ifs at hwr with hv'
    · exact absurd (hv'.symm.trans hwr) hne
    · exact ⟨v, hv, hwr, by rw [if_neg hv']⟩

omit [RootScheme] in
/-- A change that takes effect is not the identity. -/
lemma Effect.ne {s s' : HkValidatorSet H} {ch : SetChange} (h : Effect s ch s') : s' ≠ s := by
  intro heq
  have hseat : SeatIs s ch.rootPk ch.result := heq ▸ h.seatIs
  clear heq
  cases h with
  | admitSeat hns => exact hns hseat.1
  | remove hs => exact hseat hs
  | setPower hfind hpower =>
    obtain ⟨hmem, hroot⟩ := mem_of_findRoot hfind
    exact hpower (hseat.2 _ hmem hroot)

omit [RootScheme] in
/-- With room for it, a change takes effect exactly when its root's seat is not as it demands. -/
lemma exists_effect_iff {s : HkValidatorSet H} {ch : SetChange} (hroom : Room s ch)
    {left : Option ℕ} (hleft : SeatIs s ch.rootPk left) :
    (∃ s', Effect s ch s') ↔ ¬ ch.Meets left := by
  constructor
  · rintro ⟨s', h⟩ hmeets
    cases h with
    | admitSeat hns =>
      obtain ⟨power, rfl⟩ := Option.isSome_iff_exists.mp hmeets
      exact hns hleft.1
    | remove hs =>
      obtain rfl := hmeets
      exact hleft hs
    | setPower hfind hpower =>
      obtain ⟨hmem, hroot⟩ := mem_of_findRoot hfind
      cases left with
      | none => exact hleft ⟨_, hmem, hroot⟩
      | some power => exact hpower ((hleft.2 _ hmem hroot).trans (hmeets power rfl))
  · intro hmeets
    cases ch with
    | admitSeat root pk power =>
      obtain rfl : left = none := by simpa [SetChange.Meets] using hmeets
      exact ⟨_, .admitSeat hleft hroom⟩
    | remove root =>
      obtain ⟨power, rfl⟩ := Option.ne_none_iff_exists'.mp hmeets
      exact ⟨_, .remove hleft.1 hroom⟩
    | setPower root power =>
      cases left with
      | none => simp [SetChange.Meets] at hmeets
      | some p =>
        cases hfind : s.findRoot root with
        | none => exact absurd hleft.1 (findRoot_eq_none.mp hfind)
        | some seat =>
          obtain ⟨hmem, hroot⟩ := mem_of_findRoot hfind
          refine ⟨_, .setPower hfind fun hp => hmeets ?_⟩
          rintro q ⟨⟩
          exact (hleft.2 seat hmem hroot).symm.trans hp

omit [RootScheme] in
lemma Effect.room {s s' : HkValidatorSet H} {ch : SetChange} (h : Effect s ch s') : Room s ch := by
  cases h with
  | admitSeat _ haddr => exact haddr
  | remove _ hne => exact hne
  | setPower => trivial

/-- A certificate takes effect exactly when it passes the checks and its change does. -/
lemma takesEffect_iff {rules : SetRules} {s : HkValidatorSet H} {height : ℕ}
    {cert : SetChangeCert} :
    TakesEffect rules s (height, .setChange cert) ↔
      s.Passes cert height rules.chainId ∧ ∃ s', Effect s cert.body.change s' := by
  constructor
  · intro h
    have hstep := (applyEvent_cases rules s (height, .setChange cert)).resolve_left h
    generalize applyEvent rules s (height, .setChange cert) = s' at hstep
    cases hstep with
    | change hpass heff => exact ⟨hpass, s', heff⟩
  · rintro ⟨hpass, s', heff⟩
    have happly := applySetChange_eq_some.mpr ⟨hpass, heff⟩
    have heq : applyEvent rules s (height, .setChange cert) = s' := by
      simp only [applyEvent, change, happly]
    rw [TakesEffect, heq]
    exact heff.ne

variable [DecidableEq H] {rules : SetRules} {s : HkValidatorSet H}

/-- After an event, a root's seat is as the event left it, or as it was. -/
lemma seatIs_applyEvent (root : List UInt8) (l : ℕ × SetEvent) {left : Option ℕ}
    (h : leaves rules root s l = some left ∨
      leaves rules root s l = none ∧ SeatIs s root left) :
    SeatIs (applyEvent rules s l) root left := by
  by_cases heff : TakesEffect rules s l
  swap
  · -- an ignored event leaves nothing
    have hsame : applyEvent rules s l = s := not_not.mp heff
    rw [hsame]
    simpa [leaves, heff] using h
  have hstep := (applyEvent_cases rules s l).resolve_left heff
  generalize applyEvent rules s l = s' at hstep
  obtain ⟨height, ev⟩ := l
  simp only [leaves, heff, if_true] at h
  cases hstep with
  | rotation hfind hepoch =>
    obtain ⟨-, h⟩ := h.resolve_left (by simp)
    refine h.of_forall (fun w hw hwr => ?_) ?_
    · obtain ⟨v, hv, rfl⟩ := mem_mapSeats.mp hw
      refine ⟨v, hv, ?_, by split <;> rfl⟩
      split_ifs at hwr with hva
      · exact hwr
      · exact hwr
    · rintro ⟨v, hv, hvr⟩
      exact ⟨_, mem_mapSeats.mpr ⟨v, hv, rfl⟩, by split <;> exact hvr⟩
  | @change cert s' hpass hch =>
    by_cases hroot : cert.body.change.rootPk = root
    · simp only [hroot, if_true] at h
      obtain rfl : cert.body.change.result = left := by simpa using h
      exact hroot ▸ hch.seatIs
    · simp only [hroot, if_false] at h
      exact hch.seatIs_of_ne hroot (h.resolve_left (by simp)).2
  | @bootstrap b hb hchange =>
    by_cases hroot : root ∈ rules.genesisRoots ∧ s.Seated root
    · simp only [hroot, and_self, if_true, hb, Option.map_some, Option.some.injEq,
        reduceCtorEq, false_and, or_false] at h
      subst h
      refine ⟨seated_repower.mpr hroot.2, fun w hw hwr => ?_⟩
      obtain ⟨v, hv, rfl⟩ := mem_repower.mp hw
      by_cases hv' : v.rootPk ∈ rules.genesisRoots ∧ v.votingPower ≠ b.foundingPower
      · rw [if_pos hv']
      · rw [if_neg hv'] at hwr ⊢
        by_contra hp
        exact hv' ⟨hwr ▸ hroot.1, hp⟩
    · simp only [hroot, if_false, reduceCtorEq, false_or, true_and] at h
      refine h.of_forall (fun w hw hwr => ?_) seated_repower.mpr
      obtain ⟨v, hv, rfl⟩ := mem_repower.mp hw
      split_ifs at hwr with hv'
      · exact absurd ⟨hwr ▸ hv'.1, ⟨v, hv, hwr⟩⟩ hroot
      · exact ⟨v, hv, hwr, by rw [if_neg hv']⟩

/-! ## Runs -/

lemma lastLeft_append (root : List UInt8) (ls ls' : List (ℕ × SetEvent)) :
    lastLeft rules root s (ls ++ ls') =
      (lastLeft rules root (runEvents rules s ls) ls').or (lastLeft rules root s ls) := by
  induction ls generalizing s with
  | nil => simp [lastLeft]
  | cons l ls ih =>
    rw [List.cons_append, lastLeft, ih, Option.or_assoc]
    rfl

/-- A root's seat is as the last event on it left it, or as it was at the start. -/
lemma seatIs_runEvents (root : List UInt8) (ls : List (ℕ × SetEvent)) {left : Option ℕ}
    (h : lastLeft rules root s ls = some left ∨
      lastLeft rules root s ls = none ∧ SeatIs s root left) :
    SeatIs (runEvents rules s ls) root left := by
  induction ls generalizing s with
  | nil => simpa [lastLeft] using h
  | cons l ls ih =>
    rw [runEvents_cons]
    apply ih
    rw [lastLeft] at h
    cases hlast : lastLeft rules root (applyEvent rules s l) ls with
    | some left' =>
      left
      simpa [hlast] using h
    | none =>
      right
      rw [hlast, Option.none_or] at h
      exact ⟨rfl, seatIs_applyEvent root l h⟩

/-- A body that took effect left its root with something. -/
lemma exists_lastLeft_of_tookEffect {ls : List (ℕ × SetEvent)} {body : SetChangeBody}
    (h : TookEffect rules s ls body) : ∃ left, lastLeft rules body.change.rootPk s ls =
      some left := by
  obtain ⟨pre, height, cert, post, rfl, rfl, heff⟩ := h
  have hleaves : leaves rules cert.body.change.rootPk (runEvents rules s pre)
      (height, .setChange cert) = some cert.body.change.result := by
    simp [leaves, heff]
  rw [lastLeft_append, lastLeft, hleaves]
  cases lastLeft rules cert.body.change.rootPk
      (applyEvent rules (runEvents rules s pre) (height, .setChange cert)) post with
  | some left => exact ⟨left, rfl⟩
  | none => exact ⟨cert.body.change.result, rfl⟩

/-- In a run of committed blocks from any set, every certificate body takes effect at most once if
and only if no body that took effect is included again, with approvals and a window that pass and
room for its change, after the last event on its root that took effect left the root otherwise than
the body demands. -/
theorem takeEffectOnce_iff (rules : SetRules) (s₀ : HkValidatorSet H)
    (blocks : List (ℕ × CertBatch)) :
    TakeEffectOnce rules s₀ (blocks.flatMap blockEvents) ↔
      ∀ pre height cert post,
        blocks.flatMap blockEvents = pre ++ (height, .setChange cert) :: post →
        TookEffect rules s₀ pre cert.body →
        (runEvents rules s₀ pre).Passes cert height rules.chainId →
        Room (runEvents rules s₀ pre) cert.body.change →
        ∀ left, lastLeft rules cert.body.change.rootPk s₀ pre = some left →
          cert.body.change.Meets left := by
  constructor
  · intro honce pre height cert post hls htook hpass hroom left hleft
    by_contra hmeets
    have hseat : SeatIs (runEvents rules s₀ pre) cert.body.change.rootPk left :=
      seatIs_runEvents _ pre (.inl hleft)
    have heff : TakesEffect rules (runEvents rules s₀ pre) (height, .setChange cert) :=
      takesEffect_iff.mpr ⟨hpass, (exists_effect_iff hroom hseat).mpr hmeets⟩
    exact heff (honce pre height cert post hls htook)
  · intro hcond pre height cert post hls htook
    by_contra heff
    obtain ⟨hpass, s', hs'⟩ := takesEffect_iff.mp heff
    have hroom : Room (runEvents rules s₀ pre) cert.body.change := hs'.room
    obtain ⟨left, hleft⟩ := exists_lastLeft_of_tookEffect htook
    have hseat : SeatIs (runEvents rules s₀ pre) cert.body.change.rootPk left :=
      seatIs_runEvents _ pre (.inl hleft)
    exact (exists_effect_iff hroom hseat).mp ⟨s', hs'⟩
      (hcond pre height cert post hls htook hpass hroom left hleft)

end HkValidatorSet

namespace Concrete

open HkValidatorSet

/-- The events up to the second inclusion of the admission. -/
def beforeReplay : List (ℕ × SetEvent) := (reseating.take 3).flatMap blockEvents

lemma reseating_eq : reseating.flatMap blockEvents =
    beforeReplay ++ (4, .setChange admission) :: (4, .bootstrap) ::
      [(5, .rotation firstRotation), (5, .bootstrap)] := rfl

lemma admission_tookEffect : TookEffect setRules foundingSet beforeReplay admission.body :=
  ⟨[], 1, admission, _, rfl, rfl, by decide +kernel⟩

/-- The admission takes effect a second time once the newcomer has been unseated. -/
theorem reseating_not_takeEffectOnce :
    ¬ TakeEffectOnce setRules foundingSet (reseating.flatMap blockEvents) := by
  intro honce
  have hidle := honce beforeReplay 4 admission _ reseating_eq admission_tookEffect
  have heff : TakesEffect setRules (runEvents setRules foundingSet beforeReplay)
      (4, .setChange admission) := by decide +kernel
  exact heff hidle

end Concrete

end HashKinetics
