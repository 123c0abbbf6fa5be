import Mathlib

/-!
# Ordered maps and their totals

Finite maps and sets over a linearly ordered key type, as extensional search trees: two maps are
equal as soon as they answer every lookup alike.  `OrderedMap.total` sums a weight over all entries
of a map; the lemmas below say how the total moves when one entry is written, which is all the
accounting arguments need to know about the underlying tree.
-/

namespace Foundations

open Std

/-- A finite map with keys in a linear order. -/
abbrev OrderedMap (K V : Type*) [LinearOrder K] := ExtTreeMap K V compare

/-- A finite set over a linear order. -/
abbrev OrderedSet (K : Type*) [LinearOrder K] := ExtTreeSet K compare

namespace OrderedMap

/-- Keys are compared transitively, pairs of keys lexicographically. -/
instance transCmp_compare {K : Type*} [LinearOrder K] : TransCmp (compare : K → K → Ordering) :=
  inferInstance

instance transCmp_compare_lex {K L : Type*} [LinearOrder K] [LinearOrder L] :
    TransCmp (compare : K ×ₗ L → K ×ₗ L → Ordering) :=
  inferInstance

variable {K V : Type*} [LinearOrder K]

/-- Lookup after a write: the new value at the written key, the old one elsewhere. -/
lemma get_insert (m : OrderedMap K V) (k a : K) (v : V) :
    (m.insert k v)[a]? = if k = a then some v else m[a]? := by
  simp [ExtTreeMap.getElem?_insert]

/-- Writing back the value a key already has changes nothing. -/
lemma insert_of_get (m : OrderedMap K V) {k : K} {v : V} (h : m[k]? = some v) :
    m.insert k v = m := by
  apply ExtTreeMap.ext_getElem?
  intro a
  rw [get_insert]
  split
  · next hk => rw [← hk, h]
  · rfl

/-- A second write at the same key overrides the first. -/
lemma insert_insert_self (m : OrderedMap K V) (k : K) (v w : V) :
    (m.insert k v).insert k w = m.insert k w := by
  apply ExtTreeMap.ext_getElem?
  intro a
  simp only [get_insert]
  split <;> rfl

/-- Lookup after a filter. -/
lemma get_filter (m : OrderedMap K V) (p : K → V → Bool) (k : K) :
    (m.filter p)[k]? = m[k]?.filter (p k) :=
  ExtTreeMap.getElem?_filter'

/-- The entries of a map are its lookups. -/
lemma mem_toList {m : OrderedMap K V} {k : K} {v : V} : (k, v) ∈ m.toList ↔ m[k]? = some v :=
  ExtTreeMap.mem_toList_iff_getElem?_eq_some

/-- The keys of a map are those with an entry. -/
lemma mem_keys {m : OrderedMap K V} {k : K} : k ∈ m.keys ↔ ∃ v, m[k]? = some v := by
  rw [ExtTreeMap.mem_keys, ExtTreeMap.mem_iff_isSome_getElem?, Option.isSome_iff_exists]

/-- The keys come in order. -/
lemma sorted_keys (m : OrderedMap K V) : m.keys.Pairwise (· < ·) :=
  (ExtTreeMap.ordered_keys).imp fun h => compare_lt_iff_lt.mp h

/-- The keys of the entries that pass a test, in order. -/
lemma map_fst_filter_sorted (m : OrderedMap K V) (p : K × V → Bool) :
    ((m.toList.filter p).map Prod.fst).Pairwise (· < ·) := by
  have hkeys : m.toList.map Prod.fst = m.keys := ExtTreeMap.map_fst_toList_eq_keys
  refine (m.sorted_keys).sublist ?_
  rw [← hkeys]
  exact List.filter_sublist.map Prod.fst

/-- The entries of one key are its lookup. -/
lemma filter_key_toList (m : OrderedMap K V) (a : K) :
    (m.toList.filter fun e => e.1 = a) = (m[a]?).toList.map fun v => (a, v) := by
  have hmem : ∀ e ∈ m.toList.filter fun e => e.1 = a, e.1 = a ∧ m[a]? = some e.2 := by
    rintro ⟨k, v⟩ he
    obtain ⟨hin, hk⟩ := List.mem_filter.mp he
    obtain rfl : k = a := by simpa using hk
    exact ⟨rfl, mem_toList.mp hin⟩
  cases hget : m[a]? with
  | none =>
    refine List.eq_nil_iff_forall_not_mem.mpr fun e he => ?_
    rw [hget] at hmem
    cases (hmem e he).2
  | some v =>
    have hall : ∀ e ∈ m.toList.filter fun e => e.1 = a, e = (a, v) := by
      rintro ⟨k, w⟩ he
      obtain ⟨rfl, hw⟩ := hmem _ he
      rw [hget] at hw
      rw [Option.some.inj hw]
    have hnodup : (m.toList.filter fun e => e.1 = a).Nodup := by
      apply List.Nodup.of_map Prod.fst
      exact (m.map_fst_filter_sorted _).imp fun h => h.ne
    have hin : (a, v) ∈ m.toList.filter fun e => e.1 = a :=
      List.mem_filter.mpr ⟨mem_toList.mpr hget, by simp⟩
    rw [List.eq_replicate_of_mem hall] at hnodup ⊢
    have hone : (m.toList.filter fun e => e.1 = a).length = 1 :=
      Nat.le_antisymm (List.nodup_replicate.mp hnodup) (List.length_pos_of_mem hin)
    rw [hone]
    rfl

/-- The first entry that passes a test is at the same key in two maps in which the same keys have
passing entries. -/
lemma firstKey_congr {m m' : OrderedMap K V} {p : V → Bool}
    (h : ∀ k : K, (∃ v, m[k]? = some v ∧ p v = true) ↔ ∃ v, m'[k]? = some v ∧ p v = true) :
    (m.toList.find? fun e => p e.2).map Prod.fst =
      (m'.toList.find? fun e => p e.2).map Prod.fst := by
  have hmem : ∀ (n : OrderedMap K V) (k : K), k ∈ (n.toList.filter fun e => p e.2).map Prod.fst ↔
      ∃ v, n[k]? = some v ∧ p v = true := by
    intro n k
    simp only [List.mem_map, List.mem_filter, Prod.exists, exists_and_right, exists_eq_right,
      mem_toList]
  have hlists : (m.toList.filter fun e => p e.2).map Prod.fst =
      (m'.toList.filter fun e => p e.2).map Prod.fst := by
    have hs := m.map_fst_filter_sorted fun e => p e.2
    have hs' := m'.map_fst_filter_sorted fun e => p e.2
    refine List.Perm.eq_of_pairwise (fun a b _ _ h₁ h₂ => absurd h₁ h₂.not_gt) hs hs' ?_
    refine (List.perm_ext_iff_of_nodup (hs.imp fun h => h.ne) (hs'.imp fun h => h.ne)).mpr fun k =>
      ?_
    rw [hmem, hmem, h k]
  rw [← List.head?_filter, ← List.head?_filter, ← List.head?_map, ← List.head?_map, hlists]

/-! ## Maps over an interval -/

/-- Ascending numbers that are exactly those of an interval. -/
lemma eq_range'_of_sorted {l : List ℕ} {base tip : ℕ} (hsorted : l.Pairwise (· < ·))
    (hmem : ∀ k, k ∈ l ↔ base < k ∧ k ≤ tip) : l = List.range' (base + 1) (tip - base) := by
  have hrange : (List.range' (base + 1) (tip - base)).Pairwise (· < ·) := List.pairwise_lt_range'
  refine List.Perm.eq_of_pairwise (fun a b _ _ h₁ h₂ => absurd h₁ h₂.not_gt) hsorted hrange ?_
  refine (List.perm_ext_iff_of_nodup (hsorted.imp fun h => h.ne) (hrange.imp fun h => h.ne)).mpr ?_
  intro k
  rw [hmem, List.mem_range'_1]
  omega

/-- The map has an entry exactly at the keys above `base`, up to `tip`. -/
def Spans (m : OrderedMap ℕ V) (base tip : ℕ) : Prop :=
  ∀ k, (∃ v, m[k]? = some v) ↔ base < k ∧ k ≤ tip

namespace Spans

variable {m : OrderedMap ℕ V} {base tip : ℕ}

lemma empty (tip : ℕ) : Spans (∅ : OrderedMap ℕ V) tip tip := by
  intro k
  simp only [ExtTreeMap.getElem?_empty, reduceCtorEq, exists_false, false_iff]
  omega

/-- One entry more at the top. -/
lemma insert (h : m.Spans base tip) (hle : base ≤ tip) (v : V) :
    Spans (m.insert (tip + 1) v) base (tip + 1) := by
  intro k
  rw [get_insert]
  split_ifs with hk
  · simp only [Option.some.injEq, exists_eq', true_iff]
    omega
  · rw [h k]
    omega

lemma keys_eq (h : m.Spans base tip) : m.keys = List.range' (base + 1) (tip - base) :=
  eq_range'_of_sorted (sorted_keys m) fun k => by rw [mem_keys, h k]

lemma size_eq (h : m.Spans base tip) : m.size = tip - base := by
  rw [← ExtTreeMap.length_keys, h.keys_eq, List.length_range']

/-- The lowest key. -/
lemma head_keys (h : m.Spans base tip) :
    m.keys.head? = if base < tip then some (base + 1) else none := by
  rw [h.keys_eq]
  split_ifs with hlt
  · obtain ⟨n, hn⟩ : ∃ n, tip - base = n + 1 := ⟨tip - base - 1, by omega⟩
    rw [hn, List.range'_succ, List.head?_cons]
  · have hn : tip - base = 0 := by omega
    rw [hn, List.range'_zero, List.head?_nil]

lemma get_eraseAll (l : List (ℕ × V)) (m : OrderedMap ℕ V) (k : ℕ) :
    (l.foldl (fun m e => m.erase e.1) m)[k]? = if k ∈ l.map Prod.fst then none else m[k]? := by
  induction l generalizing m with
  | nil => simp
  | cons e l ih =>
    rw [List.foldl_cons, ih, ExtTreeMap.getElem?_erase]
    by_cases hk : e.1 = k
    · simp [hk]
    · simp only [Std.compare_eq_iff_eq, hk, if_false, List.map_cons, List.mem_cons, Ne.symm hk,
        false_or]

/-- The lowest entries go. -/
lemma eraseFirst (h : m.Spans base tip) (n : ℕ) :
    Spans ((m.toList.take n).foldl (fun m e => m.erase e.1) m) (base + n) tip := by
  intro k
  have hmem : k ∈ (m.toList.take n).map Prod.fst ↔ base < k ∧ k ≤ tip ∧ k ≤ base + n := by
    rw [List.map_take, ExtTreeMap.map_fst_toList_eq_keys, h.keys_eq]
    rcases le_total n (tip - base) with hle | hle
    · rw [List.take_range'_of_length_ge hle, List.mem_range'_1]
      omega
    · rw [List.take_range'_of_length_le hle, List.mem_range'_1]
      omega
  rw [get_eraseAll]
  split_ifs with hk
  · have := hmem.mp hk
    simp only [exists_false, false_iff]
    omega
  · have := mt hmem.mpr hk
    rw [h k]
    omega

end Spans

/-! ## Totals -/

/-- The sum of `w k v` over all entries `(k, v)` of the map. -/
def total (m : OrderedMap K V) (w : K → V → ℕ) : ℕ :=
  (m.toList.map fun e => w e.1 e.2).sum

/-- The list of entries has no repetition. -/
lemma nodup_toList (m : OrderedMap K V) : m.toList.Nodup := by
  have h := m.distinct_keys_toList
  apply h.imp
  rintro a b hab rfl
  exact hab (by simp)

/-- The entries of a map after erasing a key are the old entries at the other keys. -/
private lemma mem_toList_erase (m : OrderedMap K V) (k : K) (e : K × V) :
    e ∈ (m.erase k).toList ↔ e ∈ m.toList ∧ e.1 ≠ k := by
  obtain ⟨a, v⟩ := e
  rw [ExtTreeMap.mem_toList_iff_getElem?_eq_some, ExtTreeMap.mem_toList_iff_getElem?_eq_some,
    ExtTreeMap.getElem?_erase]
  by_cases h : k = a
  · subst h
    simp
  · simp [h, Ne.symm h]

/-- The total of a map with a fresh entry: the entry's weight plus the rest. -/
private lemma total_insert_erase (m : OrderedMap K V) (w : K → V → ℕ) (k : K) (v : V) :
    total (m.insert k v) w = w k v + total (m.erase k) w := by
  have hperm : (m.insert k v).toList.Perm ((k, v) :: (m.erase k).toList) := by
    rw [List.perm_ext_iff_of_nodup (nodup_toList _)]
    · rintro ⟨a, u⟩
      rw [List.mem_cons, mem_toList_erase, ExtTreeMap.mem_toList_iff_getElem?_eq_some,
        ExtTreeMap.mem_toList_iff_getElem?_eq_some, get_insert]
      by_cases h : k = a
      · subst h
        simp [eq_comm]
      · simp [h, Ne.symm h]
    · refine List.nodup_cons.mpr ⟨fun hmem => ?_, nodup_toList _⟩
      exact ((mem_toList_erase m k _).mp hmem).2 rfl
  unfold total
  rw [(hperm.map _).sum_eq, List.map_cons, List.sum_cons]

/-- The weight of the entry at a key, zero when the key is absent. -/
def weightAt (m : OrderedMap K V) (w : K → V → ℕ) (k : K) : ℕ :=
  match m[k]? with
  | some v => w k v
  | none => 0

@[simp] lemma weightAt_of_get {m : OrderedMap K V} {w : K → V → ℕ} {k : K} {v : V}
    (h : m[k]? = some v) : weightAt m w k = w k v := by
  simp [weightAt, h]

@[simp] lemma weightAt_of_get_none {m : OrderedMap K V} {w : K → V → ℕ} {k : K}
    (h : m[k]? = none) : weightAt m w k = 0 := by
  simp [weightAt, h]

/-- A total splits into the weight at one key and the total without that key. -/
private lemma total_eq_weightAt_add (m : OrderedMap K V) (w : K → V → ℕ) (k : K) :
    total m w = weightAt m w k + total (m.erase k) w := by
  cases h : m[k]? with
  | some v =>
    rw [weightAt_of_get h, ← total_insert_erase, insert_of_get m h]
  | none =>
    have herase : m.erase k = m := by
      apply ExtTreeMap.ext_getElem?
      intro a
      rw [ExtTreeMap.getElem?_erase]
      by_cases hk : k = a
      · subst hk
        simp [h]
      · simp [hk]
    rw [weightAt_of_get_none h, herase, Nat.zero_add]

/-- Writing one entry replaces the weight at its key. -/
lemma total_insert (m : OrderedMap K V) (w : K → V → ℕ) (k : K) (v : V) :
    total (m.insert k v) w + weightAt m w k = total m w + w k v := by
  rw [total_insert_erase, total_eq_weightAt_add m w k]
  omega

/-- The weight at a key is part of the total. -/
lemma weightAt_le_total (m : OrderedMap K V) (w : K → V → ℕ) (k : K) :
    weightAt m w k ≤ total m w := by
  rw [total_eq_weightAt_add m w k]
  exact Nat.le_add_right _ _

/-- The empty map has total zero. -/
@[simp] lemma total_empty (w : K → V → ℕ) : total (∅ : OrderedMap K V) w = 0 := by
  have h : (∅ : OrderedMap K V).toList = [] := ExtTreeMap.toList_eq_nil_iff.mpr rfl
  simp [total, h]

end OrderedMap

end Foundations
