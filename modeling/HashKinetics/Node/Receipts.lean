import HashKinetics.Node.Apply

/-!
# The receipt log

One line per transaction id, in a log of bounded size.  The ids of the log are exactly those it has
a line for, so an export refills an empty log to the same log.
-/

namespace HashKinetics

open Foundations

namespace ReceiptLog

variable {H : Type} [LinearOrder H] {log : ReceiptLog H} {id : H} {detail : String}

/-- The order lists the ids of the map, each once, and no more of them than the log may hold. -/
structure WellFormed (log : ReceiptLog H) : Prop where
  nodup : log.order.Nodup
  mem : ∀ id, id ∈ log.order ↔ ∃ detail, log.map[id]? = some detail
  size : log.order.length ≤ log.cap

/-- A receipt is there if its text is. -/
lemma contains_iff (log : ReceiptLog H) (id : H) :
    log.map.contains id = true ↔ ∃ detail, log.map[id]? = some detail := by
  rw [Std.ExtTreeMap.contains_eq_isSome_getElem?, Option.isSome_iff_exists]

/-- A receipt is there if its id is in the order. -/
lemma WellFormed.contains_eq (h : log.WellFormed) (id : H) :
    log.map.contains id = true ↔ id ∈ log.order := by
  rw [contains_iff, h.mem]

/-- An empty log is well formed. -/
lemma wellFormed_new (cap : ℕ) : (new cap : ReceiptLog H).WellFormed :=
  ⟨List.nodup_nil, by simp [new], Nat.zero_le _⟩

/-- A new id at the end, the oldest one out if there are too many. -/
lemma insert_of_notMem (h : log.WellFormed) (hid : id ∉ log.order) (detail : String) :
    log.insert id detail =
      if log.order.length < log.cap then
        { log with map := log.map.insert id detail, order := log.order ++ [id] }
      else { log with
        map := (log.map.insert id detail).erase ((log.order ++ [id]).head (by simp))
        order := (log.order ++ [id]).tail } := by
  have hnew : log.map.contains id = false := by
    rw [← Bool.not_eq_true, h.contains_eq]
    exact hid
  unfold insert
  simp only [hnew, Bool.false_eq_true, if_false, List.length_append, List.length_singleton]
  have hsize := h.size
  by_cases hlt : log.order.length < log.cap
  · simp [hlt, Nat.not_lt.mpr (Nat.succ_le_of_lt hlt)]
  · have hover : log.cap < log.order.length + 1 := by omega
    simp only [hlt, hover, if_true, if_false]
    cases log.order with
    | nil => rfl
    | cons old rest => rfl

/-- An id that is there already gets its new line. -/
lemma insert_of_mem (h : log.WellFormed) (hid : id ∈ log.order) (detail : String) :
    log.insert id detail = { log with map := log.map.insert id detail } := by
  unfold insert
  simp [(h.contains_eq id).mpr hid]

/-- An insertion keeps the map and the order together, the eviction at the cap included. -/
lemma WellFormed.insert (h : log.WellFormed) (id : H) (detail : String) :
    (log.insert id detail).WellFormed := by
  by_cases hid : id ∈ log.order
  · rw [insert_of_mem h hid]
    refine ⟨h.nodup, fun k => ?_, h.size⟩
    rw [OrderedMap.get_insert, h.mem k]
    split_ifs with hk
    · subst hk
      simpa using (h.mem id).mp hid
    · rfl
  · rw [insert_of_notMem h hid]
    have hnodup : (log.order ++ [id]).Nodup := by
      rw [List.nodup_append]
      refine ⟨h.nodup, List.nodup_singleton _, ?_⟩
      rintro a ha b hb rfl
      exact hid (List.mem_singleton.mp hb ▸ ha)
    have hmem : ∀ k, k ∈ log.order ++ [id] ↔
        ∃ d, (log.map.insert id detail)[k]? = some d := by
      intro k
      rw [OrderedMap.get_insert, List.mem_append, List.mem_singleton, h.mem k]
      split_ifs with hk
      · simp [hk]
      · simp [Ne.symm hk]
    split_ifs with hlt
    · exact ⟨hnodup, hmem, by rw [List.length_append]; exact hlt⟩
    · obtain ⟨old, rest, hsplit⟩ : ∃ old rest, log.order ++ [id] = old :: rest :=
        List.exists_cons_of_ne_nil (by simp)
      simp only [hsplit, List.head_cons, List.tail_cons]
      rw [hsplit] at hnodup
      obtain ⟨hold, hrest⟩ := List.nodup_cons.mp hnodup
      refine ⟨hrest, fun k => ?_, ?_⟩
      · have hk := hmem k
        rw [hsplit, List.mem_cons] at hk
        simp only [Std.ExtTreeMap.getElem?_erase, Std.compare_eq_iff_eq]
        split_ifs with heq
        · subst heq
          simp [hold]
        · rw [← hk]
          simp [Ne.symm heq]
      · have hlen := congrArg List.length hsplit
        have hsize := h.size
        rw [List.length_append, List.length_singleton, List.length_cons] at hlen
        simp only
        omega

/-- An insertion leaves the cap alone. -/
@[simp] lemma cap_insert (log : ReceiptLog H) (id : H) (detail : String) :
    (log.insert id detail).cap = log.cap := by
  unfold insert
  dsimp only
  split
  · rfl
  · split
    · split <;> rfl
    · rfl

/-- What a sequence of insertions keeps. -/
lemma WellFormed.foldl_insert {α : Type} (f : α → H × String) (l : List α) (h : log.WellFormed) :
    (l.foldl (fun log e => log.insert (f e).1 (f e).2) log).WellFormed ∧
      (l.foldl (fun log e => log.insert (f e).1 (f e).2) log).cap = log.cap := by
  induction l generalizing log with
  | nil => exact ⟨h, rfl⟩
  | cons e l ih =>
    obtain ⟨hwf, hcap⟩ := ih (h.insert (f e).1 (f e).2)
    exact ⟨hwf, hcap.trans (cap_insert ..)⟩

/-! ## Export and refill -/

/-- Insertions leave the other keys alone. -/
lemma get_foldl_insert_of_notMem {es : List (H × String)} {k : H} (hk : k ∉ es.map Prod.fst)
    (m : OrderedMap H String) : (es.foldl (fun m e => m.insert e.1 e.2) m)[k]? = m[k]? := by
  induction es generalizing m with
  | nil => rfl
  | cons e es ih =>
    rw [List.map_cons, List.mem_cons, not_or] at hk
    rw [List.foldl_cons, ih hk.2, OrderedMap.get_insert, if_neg (Ne.symm hk.1)]

/-- Where the keys are distinct, each insertion is still there in the end. -/
lemma get_foldl_insert_of_mem {es : List (H × String)} (hnodup : (es.map Prod.fst).Nodup) {k : H}
    {d : String} (hk : (k, d) ∈ es) (m : OrderedMap H String) :
    (es.foldl (fun m e => m.insert e.1 e.2) m)[k]? = some d := by
  induction es generalizing m with
  | nil => cases hk
  | cons e es ih =>
    rw [List.map_cons, List.nodup_cons] at hnodup
    rw [List.foldl_cons]
    rcases List.mem_cons.mp hk with rfl | hk
    · rw [get_foldl_insert_of_notMem hnodup.1, OrderedMap.get_insert, if_pos rfl]
    · exact ih hnodup.2 hk _

/-- The entries of a log are its texts, in the order of their insertion. -/
lemma mem_entries {k : H} {d : String} :
    (k, d) ∈ log.entries ↔ k ∈ log.order ∧ log.map[k]? = some d := by
  simp only [entries, List.mem_filterMap, Option.map_eq_some_iff, Prod.mk.injEq]
  constructor
  · rintro ⟨id, hid, d', hd', rfl, rfl⟩
    exact ⟨hid, hd'⟩
  · rintro ⟨hk, hd⟩
    exact ⟨k, hk, d, hd, rfl, rfl⟩

/-- Entries with different ids fill an empty log as they come. -/
lemma restore_new (cap : ℕ) (es : List (H × String)) (hnodup : (es.map Prod.fst).Nodup)
    (hlen : es.length ≤ cap) : (new cap).restore es =
      ⟨es.foldl (fun m e => m.insert e.1 e.2) ∅, es.map Prod.fst, cap⟩ := by
  induction es using List.reverseRecOn with
  | nil => rfl
  | append_singleton es e ih =>
    rw [List.map_append, List.nodup_append] at hnodup
    rw [List.length_append, List.length_singleton] at hlen
    have hfill := ih hnodup.1 (by omega)
    have hwf : (⟨es.foldl (fun m e => m.insert e.1 e.2) ∅, es.map Prod.fst, cap⟩ :
        ReceiptLog H).WellFormed := by
      rw [← hfill, restore]
      exact ((wellFormed_new cap).foldl_insert id es).1
    have hfresh : e.1 ∉ es.map Prod.fst := fun hmem => hnodup.2.2 _ hmem e.1 (by simp) rfl
    have hsnoc : (new cap).restore (es ++ [e]) = ((new cap).restore es).insert e.1 e.2 := by
      rw [restore, List.foldl_append, List.foldl_cons, List.foldl_nil, restore]
    rw [hsnoc, hfill, insert_of_notMem hwf hfresh, if_pos (by simpa using hlen),
      List.foldl_append]
    simp

/-- An export refills an empty log to the same log. -/
lemma restore_entries (h : log.WellFormed) : (new log.cap).restore log.entries = log := by
  have hentries : log.entries.map Prod.fst = log.order := by
    have hsome : ∀ id ∈ log.order, (log.map[id]?.map fun detail => (id, detail)).map Prod.fst =
        some id := by
      intro id hid
      obtain ⟨d, hd⟩ := (h.mem id).mp hid
      simp [hd]
    rw [entries, List.map_filterMap]
    exact (List.filterMap_congr hsome).trans List.filterMap_some
  have hlen : log.entries.length ≤ log.cap := by
    rw [← List.length_map (f := Prod.fst), hentries]
    exact h.size
  rw [restore_new _ _ (hentries ▸ h.nodup) hlen, hentries]
  have hmap : log.entries.foldl (fun m e => m.insert e.1 e.2) ∅ = log.map := by
    apply Std.ExtTreeMap.ext_getElem?
    intro k
    cases hk : log.map[k]? with
    | some d =>
      have hmem : k ∈ log.order := (h.mem k).mpr ⟨d, hk⟩
      exact get_foldl_insert_of_mem (hentries ▸ h.nodup) (mem_entries.mpr ⟨hmem, hk⟩) _
    | none =>
      have hnot : k ∉ log.entries.map Prod.fst := by
        rw [hentries, h.mem k, hk]
        simp
      rw [get_foldl_insert_of_notMem hnot]
      exact Std.ExtTreeMap.getElem?_empty
  rw [hmap]

end ReceiptLog

end HashKinetics
