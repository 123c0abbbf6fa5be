import HashKinetics.Foundations.Quorum
import HashKinetics.Concrete

/-!
# The quorum of a set change

What the acceptance of a certificate says about the power behind it, in exact arithmetic.  The check
sums powers with saturation and compares saturated products; the seats that signed are nevertheless
a quorum of the set, since a total whose double does not fit is refused and a total whose double
fits was not cut off.
-/

namespace HashKinetics

open Foundations

namespace HkValidatorSet

variable {H : Type}

/-- A seat of the set, by its place. -/
abbrev Seat (set : HkValidatorSet H) : Type := Fin set.validators.length

/-- The root identity of a seat. -/
def rootAt (set : HkValidatorSet H) (i : set.Seat) : List UInt8 := (set.validators.get i).rootPk

/-- The power of a seat. -/
def powerAt (set : HkValidatorSet H) (i : set.Seat) : ℕ := (set.validators.get i).votingPower

/-- The seats of some roots.  A root stands for its first seat. -/
def seatsOf (set : HkValidatorSet H) (roots : List (List UInt8)) : Finset set.Seat :=
  Finset.univ.filter fun i => (∀ j < i, set.rootAt j ≠ set.rootAt i) ∧ set.rootAt i ∈ roots

/-- The root found is the one of a first seat. -/
lemma exists_seat_of_findRoot {set : HkValidatorSet H} {root : List UInt8} {v : HkValidator H}
    (h : set.findRoot root = some v) :
    ∃ i : set.Seat, set.rootAt i = root ∧ set.powerAt i = v.votingPower ∧
      ∀ j < i, set.rootAt j ≠ root := by
  obtain ⟨hroot, i, hi, rfl, hfirst⟩ := List.find?_eq_some_iff_getElem.mp h
  refine ⟨⟨i, hi⟩, by simpa [rootAt] using hroot, rfl, ?_⟩
  intro j hj
  simpa [rootAt] using hfirst j hj

/-- A further seated root adds its first seat. -/
lemma sum_seatsOf_cons {set : HkValidatorSet H} {root : List UInt8} {roots : List (List UInt8)}
    {v : HkValidator H} (hfind : set.findRoot root = some v) (hroot : root ∉ roots) :
    ∑ i ∈ set.seatsOf (root :: roots), set.powerAt i =
      v.votingPower + ∑ i ∈ set.seatsOf roots, set.powerAt i := by
  obtain ⟨i, hi, hpower, hfirst⟩ := exists_seat_of_findRoot hfind
  have hnew : i ∉ set.seatsOf roots := by
    simp [seatsOf, hi, hroot]
  have hinsert : set.seatsOf (root :: roots) = insert i (set.seatsOf roots) := by
    ext j
    simp only [seatsOf, Finset.mem_filter, Finset.mem_univ, true_and, List.mem_cons,
      Finset.mem_insert]
    constructor
    · rintro ⟨hj, hjroot | hjroot⟩
      · -- both `i` and `j` are the first seat of the root
        rcases lt_trichotomy i j with hlt | heq | hgt
        · exact absurd (hi.trans hjroot.symm) (hj i hlt)
        · exact .inl heq.symm
        · exact absurd hjroot (hfirst j hgt)
      · exact .inr ⟨hj, hjroot⟩
    · rintro (rfl | ⟨hj, hjroot⟩)
      · exact ⟨fun k hk => hi ▸ hfirst k hk, .inl hi⟩
      · exact ⟨hj, .inr hjroot⟩
  rw [hinsert, Finset.sum_insert hnew, hpower]

/-- The total of a set is its exact power, cut off at the width. -/
lemma totalVotingPower_eq (set : HkValidatorSet H) :
    set.totalVotingPower = min (∑ i, set.powerAt i) u64Max := by
  have hsum : ∑ i, set.powerAt i = (set.validators.map (·.votingPower)).sum :=
    Fin.sum_univ_fun_getElem set.validators (·.votingPower)
  rw [totalVotingPower, foldl_satAdd_eq_min _ _ (Nat.zero_le _), Nat.zero_add, hsum]

end HkValidatorSet

namespace SetChangeCert

section

variable {H : Type} [RootScheme]

/-- The seats whose root signed the body of a certificate. -/
def signers (cert : SetChangeCert) (set : HkValidatorSet H) : Finset set.Seat :=
  set.seatsOf ((cert.approvals.filter fun a => a.verify cert.body).map (·.rootPk))

/-- What the sum over the approvals has seen: distinct seated roots with valid signatures, and no
more power than their seats have. -/
lemma approvingPower_ok {set : HkValidatorSet H} {body : SetChangeBody} {approvals : List Approval}
    {seen : List (List UInt8)} {acc p : ℕ}
    (h : approvingPower set body approvals seen acc = .ok p) :
    (approvals.map (·.rootPk)).Nodup ∧
      (∀ a ∈ approvals, a.rootPk ∉ seen ∧ set.Seated a.rootPk ∧ a.verify body = true) ∧
      p ≤ acc + ∑ i ∈ set.seatsOf (approvals.map (·.rootPk)), set.powerAt i := by
  induction approvals generalizing seen acc with
  | nil =>
    cases h
    simp
  | cons a approvals ih =>
    rw [approvingPower] at h
    by_cases hseen : a.rootPk ∈ seen
    · simp [hseen] at h
    · cases hfind : set.findRoot a.rootPk with
      | none => simp [hseen, hfind] at h
      | some seat =>
        by_cases hver : a.verify body = true
        · simp only [hseen, hfind, hver, if_true, if_false] at h
          obtain ⟨hnodup, hall, hp⟩ := ih h
          have hfresh : a.rootPk ∉ approvals.map (·.rootPk) := by
            simp only [List.mem_map, not_exists, not_and]
            intro b hb hroot
            exact (hall b hb).1 (by simp [hroot])
          have hseated : set.Seated a.rootPk := by
            obtain ⟨hmem, hroot⟩ := HkValidatorSet.mem_of_findRoot hfind
            exact ⟨seat, hmem, hroot⟩
          refine ⟨List.nodup_cons.mpr ⟨hfresh, hnodup⟩, ?_, ?_⟩
          · intro b hb
            rcases List.mem_cons.mp hb with rfl | hb
            · exact ⟨hseen, hseated, hver⟩
            · obtain ⟨hbseen, hrest⟩ := hall b hb
              exact ⟨fun hmem => hbseen (List.mem_append_left _ hmem), hrest⟩
          · have hsat := satAdd_le_add u64Max acc seat.votingPower
            rw [List.map_cons, HkValidatorSet.sum_seatsOf_cons hfind hfresh]
            omega
        · simp [hseen, hfind, hver] at h

/-- What an accepted certificate has passed. -/
lemma verifyAgainst_ok {cert : SetChangeCert} {set : HkValidatorSet H} {chainId : String}
    (h : cert.verifyAgainst set chainId = .ok ()) :
    ∃ p, approvingPower set cert.body cert.approvals [] 0 = .ok p ∧
      satMul u64Max set.totalVotingPower 2 < satMul u64Max p 3 := by
  unfold verifyAgainst at h
  cases hshape : cert.body.checkShape with
  | error e => simp [hshape, bind, Except.bind] at h
  | ok u =>
    by_cases hchain : cert.body.chainId = chainId
    · by_cases hempty : cert.approvals.isEmpty = true
      · simp [hshape, hchain, hempty, bind, Except.bind, throw, throwThe, MonadExceptOf.throw] at h
      · cases hp : approvingPower set cert.body cert.approvals [] 0 with
        | error e =>
          simp [hshape, hchain, hempty, hp, bind, Except.bind] at h
        | ok p =>
          refine ⟨p, rfl, ?_⟩
          by_contra hle
          simp [hshape, hchain, hempty, hp, bind, Except.bind, throw, throwThe, MonadExceptOf.throw,
            not_lt.mp hle] at h
    · simp [hshape, hchain, bind, Except.bind, throw, throwThe, MonadExceptOf.throw] at h

/-- Every approval of an accepted certificate comes from a distinct seat and is signed by it. -/
lemma approvals_of_verifyAgainst {cert : SetChangeCert} {set : HkValidatorSet H} {chainId : String}
    (h : cert.verifyAgainst set chainId = .ok ()) :
    (cert.approvals.map (·.rootPk)).Nodup ∧
      ∀ a ∈ cert.approvals, set.Seated a.rootPk ∧ a.verify cert.body = true := by
  obtain ⟨p, hp, -⟩ := verifyAgainst_ok h
  obtain ⟨hnodup, hall, -⟩ := approvingPower_ok hp
  exact ⟨hnodup, fun a ha => (hall a ha).2⟩

/-- The seats that signed an accepted certificate are a quorum of the set, in exact arithmetic. -/
lemma isQuorum_signers {cert : SetChangeCert} {set : HkValidatorSet H} {chainId : String}
    (h : cert.verifyAgainst set chainId = .ok ()) : IsQuorum set.powerAt (cert.signers set) := by
  obtain ⟨p, hp, hline⟩ := verifyAgainst_ok h
  obtain ⟨-, hall, hle⟩ := approvingPower_ok hp
  have hsigned : cert.approvals.filter (fun a => a.verify cert.body) = cert.approvals :=
    List.filter_eq_self.mpr fun a ha => (hall a ha).2.2
  have hpower : p ≤ ∑ i ∈ cert.signers set, set.powerAt i := by
    unfold signers
    rw [hsigned]
    omega
  -- a double that is cut off at the width leaves no room above it
  have htotal := set.totalVotingPower_eq
  have hexact : ∑ i, set.powerAt i ≤ set.totalVotingPower := by
    unfold satMul at hline
    omega
  apply IsQuorum.of_le hexact hpower
  unfold satMul at hline
  omega

/-- An accepted certificate carries approvals of distinct seated roots with valid signatures only,
the seats that signed it hold more than two thirds of the exact power of the set, and they share
more than one third of it with the seats of any other certificate that the set accepts. -/
theorem verifyAgainst_quorum (set : HkValidatorSet H) (cert : SetChangeCert) (chainId : String)
    (h : cert.verifyAgainst set chainId = .ok ()) :
    2 * ∑ i, set.powerAt i < 3 * ∑ i ∈ cert.signers set, set.powerAt i ∧
      (cert.approvals.map (·.rootPk)).Nodup ∧
      (∀ a ∈ cert.approvals, set.Seated a.rootPk ∧ a.verify cert.body = true) ∧
      ∀ (cert' : SetChangeCert) (chainId' : String), cert'.verifyAgainst set chainId' = .ok () →
        ∑ i, set.powerAt i < 3 * ∑ i ∈ cert.signers set ∩ cert'.signers set, set.powerAt i := by
  obtain ⟨hnodup, hall⟩ := approvals_of_verifyAgainst h
  refine ⟨isQuorum_signers h, hnodup, hall, ?_⟩
  intro cert' chainId' h'
  exact (isQuorum_signers h).inter (isQuorum_signers h')

end

end SetChangeCert

namespace Concrete

/-- Three founders of different powers. -/
def threeFounders : List GenesisValidator :=
  [⟨rootOf 1, [1, 1], 10⟩, ⟨rootOf 3, [3, 3], 6⟩, ⟨rootOf 4, [4, 4], 5⟩]

/-- Their set. -/
def threeSeats : HkValidatorSet ℕ :=
  .new (threeFounders.map fun v => .new v.rootPk v.publicKey v.votingPower)
    (by simp [threeFounders])

/-- A set change that the roots of some secrets approve. -/
def approvedBy (roots : List UInt8) (change : SetChange) : SetChangeCert :=
  let body : SetChangeBody := ⟨setRules.chainId, change, 1, 100⟩
  ⟨body, roots.map fun root => .sign root body⟩

/-- The first two founders seat the newcomer, and the first and the last one unseat the second: both
certificates are accepted, and only the first founder signed them both. -/
theorem verifyAgainst_quorum_founders :
    2 * ∑ i, threeSeats.powerAt i <
        3 * ∑ i ∈ (approvedBy [1, 3] (.admitSeat (rootOf 2) [2, 2] 1)).signers threeSeats,
          threeSeats.powerAt i ∧
      ∑ i, threeSeats.powerAt i <
        3 * ∑ i ∈ (approvedBy [1, 3] (.admitSeat (rootOf 2) [2, 2] 1)).signers threeSeats ∩
          (approvedBy [1, 4] (.remove (rootOf 3))).signers threeSeats, threeSeats.powerAt i := by
  have haccepted : (approvedBy [1, 3] (.admitSeat (rootOf 2) [2, 2] 1)).verifyAgainst threeSeats
      setRules.chainId = .ok () ∧ (approvedBy [1, 4] (.remove (rootOf 3))).verifyAgainst threeSeats
      setRules.chainId = .ok () := by
    decide +kernel
  obtain ⟨hquorum, -, -, hshared⟩ :=
    SetChangeCert.verifyAgainst_quorum threeSeats _ _ haccepted.1
  exact ⟨hquorum, hshared _ _ haccepted.2⟩

end Concrete

end HashKinetics
