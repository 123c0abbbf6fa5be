import HashKinetics.Node.Compaction
import HashKinetics.Node.Serving

/-!
# The heights a log holds

A block can be in a file of its own, in a segment, or in both after a compaction that was
interrupted.  The listing has every height once, in ascending order, and as long as nothing in the
log is damaged it has exactly those that can be loaded.  From such a list the gap-free run at the
top is read off by walking down from the highest height.
-/

namespace HashKinetics

open Foundations

/-! ## The walk down a list -/

/-- The walk passes every number that the run could start at. -/
lemma extendSuffix_le {l : List ℕ} {top m : ℕ} (hdesc : (top :: l).Pairwise (· > ·))
    (hrun : ∀ h, m ≤ h → h ≤ top → h = top ∨ h ∈ l) : extendSuffix top l ≤ m := by
  induction l generalizing top with
  | nil =>
    rw [extendSuffix]
    by_contra hlt
    rcases hrun m le_rfl (not_le.mp hlt).le with heq | hmem
    · omega
    · cases hmem
  | cons x l ih =>
    obtain ⟨hbelow, hl⟩ := List.pairwise_cons.mp hdesc
    have hx : x < top := hbelow x List.mem_cons_self
    rw [extendSuffix]
    split_ifs with hnext
    · refine ih hl fun h hlo hhi => ?_
      rcases hrun h hlo (hhi.trans hx.le) with heq | hmem
      · omega
      · exact List.mem_cons.mp hmem
    · by_contra hlt
      -- the height just below `top` would have to be in the list, which continues further down
      rcases hrun (top - 1) (by omega) (by omega) with heq | hmem
      · omega
      · rcases List.mem_cons.mp hmem with heq | hmem
        · omega
        · have hlt' := (List.pairwise_cons.mp hl).1 (top - 1) hmem
          omega

/-- The start of the gap-free run that ends at the last of an ascending list. -/
lemma contiguousSuffixMin_isLeast {hs : List ℕ} (hasc : hs.Pairwise (· < ·)) {top : ℕ}
    (htop : hs.getLast? = some top) :
    ∃ m, contiguousSuffixMin hs = some m ∧ IsLeast {m | ∀ h, m ≤ h → h ≤ top → h ∈ hs} m := by
  cases hrev : hs.reverse with
  | nil =>
    rw [← List.head?_reverse, hrev] at htop
    cases htop
  | cons x l =>
    rw [← List.head?_reverse, hrev, List.head?_cons, Option.some.injEq] at htop
    subst htop
    have hmem : ∀ h, h ∈ hs ↔ h = x ∨ h ∈ l := fun h => by
      rw [← List.mem_reverse, hrev, List.mem_cons]
    have hdesc : (x :: l).Pairwise (· > ·) := by
      rw [← hrev, List.pairwise_reverse]
      exact hasc
    refine ⟨extendSuffix x l, by simp only [contiguousSuffixMin, hrev], ?_, ?_⟩
    · intro h hlo hhi
      exact (hmem h).mpr (mem_of_extendSuffix hlo hhi)
    · intro m hrun
      exact extendSuffix_le hdesc fun h hlo hhi => (hmem h).mp (hrun h hlo hhi)

/-! ## The listing -/

namespace BlockLog

/-- No height is listed twice, and they ascend. -/
lemma pairwise_lt_blockHeights (l : BlockLog) : l.blockHeights.Pairwise (· < ·) := by
  have hnodup : l.blockHeights.Nodup := List.nodup_dedup _
  refine (pairwise_le_blockHeights l).imp₂ ?_ hnodup
  intro a b hle hne
  exact lt_of_le_of_ne hle hne

/-- The last of an ascending list is the greatest. -/
lemma getLast_of_isGreatest {hs : List ℕ} (hasc : hs.Pairwise (· < ·)) {top : ℕ}
    (htop : IsGreatest {h | h ∈ hs} top) : hs.getLast? = some top := by
  obtain ⟨init, hlast⟩ : ∃ init, hs = init ++ [hs.getLast (List.ne_nil_of_mem htop.1)] :=
    ⟨hs.dropLast, (List.dropLast_append_getLast _).symm⟩
  generalize hs.getLast (List.ne_nil_of_mem htop.1) = x at hlast
  subst hlast
  have hx : x ≤ top := htop.2 (List.mem_append_right init List.mem_cons_self)
  rw [List.getLast?_concat]
  rcases List.mem_append.mp htop.1 with hinit | hsingle
  · have hlt := (List.pairwise_append.mp hasc).2.2 top hinit x List.mem_cons_self
    omega
  · rw [List.mem_singleton.mp hsingle]

/-- The listing of an intact log ascends and has exactly the heights that can be loaded; the walk
down an ascending list finds the least number from which every height up to the last is in it; and
what is advertised when the highest stored block is the tip is the start of the longest run that can
be loaded. -/
theorem stored_heights (H : Type) [BlockCodec H] (l : BlockLog) (hl : l.Intact H) :
    l.blockHeights.Pairwise (· < ·) ∧
      (∀ height, height ∈ l.blockHeights ↔
        ∃ b : StoredBlock H, l.loadBlock height = .ok (some b)) ∧
      (∀ hs : List ℕ, hs.Pairwise (· < ·) → ∀ top, hs.getLast? = some top →
        ∃ m, contiguousSuffixMin hs = some m ∧ IsLeast {m | ∀ h, m ≤ h → h ≤ top → h ∈ hs} m) ∧
      (∀ tip, IsGreatest {h | ∃ b : StoredBlock H, l.loadBlock h = .ok (some b)} tip →
        IsLeast {m | ∀ h, m ≤ h → h ≤ tip → ∃ b : StoredBlock H, l.loadBlock h = .ok (some b)}
          (HkApp.servableFrom l.blockHeights tip)) := by
  have hmem : ∀ height, height ∈ l.blockHeights ↔
      ∃ b : StoredBlock H, l.loadBlock height = .ok (some b) := fun _ => hl.mem_blockHeights
  refine ⟨pairwise_lt_blockHeights l, hmem, fun hs hasc top htop =>
    contiguousSuffixMin_isLeast hasc htop, fun tip htip => ?_⟩
  simp only [← hmem] at htip ⊢
  have hlast := getLast_of_isGreatest (pairwise_lt_blockHeights l) htip
  obtain ⟨m, hmin, hleast⟩ := contiguousSuffixMin_isLeast (pairwise_lt_blockHeights l) hlast
  have hfloor : HkApp.servableFrom l.blockHeights tip = m := by
    simp only [HkApp.servableFrom, hmin, hlast, Option.getD_some, if_true]
  rw [hfloor]
  exact hleast

end BlockLog

namespace Concrete

/-- A compaction that ended after deleting the first of two files: the second block is in its file
and in the segment. -/
def interruptedCompaction : List (BlockLog.LogOp ℕ) :=
  [.save (emptyBlock 1), .save (emptyBlock 2), .compact 0 2]

lemma lossless_interruptedCompaction : ∀ op ∈ interruptedCompaction, op.Lossless := by
  simp only [interruptedCompaction, List.mem_cons, List.not_mem_nil, or_false, forall_eq_or_imp,
    forall_eq]
  exact ⟨lossless_emptyBlock (by norm_num), lossless_emptyBlock (by norm_num), trivial⟩

theorem interruptedCompaction_heights :
    (BlockLog.new.run interruptedCompaction).blockHeights.Pairwise (· < ·) ∧
      ∀ height, height ∈ (BlockLog.new.run interruptedCompaction).blockHeights ↔
        ∃ b : StoredBlock ℕ, (BlockLog.new.run interruptedCompaction).loadBlock height =
          .ok (some b) := by
  have hwf : (BlockLog.new.run interruptedCompaction).WellFormed ℕ :=
    BlockLog.wellFormed_new.run lossless_interruptedCompaction
  obtain ⟨hasc, hmem, -⟩ :=
    BlockLog.stored_heights ℕ (BlockLog.new.run interruptedCompaction) hwf.intact
  exact ⟨hasc, hmem⟩

end Concrete

end HashKinetics
