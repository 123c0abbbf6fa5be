import HashKinetics.Node.Streams
import HashKinetics.Foundations.Transition

/-!
# Reassembly of streamed proposals

Messages of many streams arrive in any order, some of them more than once.  What the map keeps of a
stream is decided by the first copies of its messages alone: until they are complete it buffers
them, and the arrival that completes them emits the proposal.

The completion test reads the opening part, which the emission has just taken out, so no call ever
removes an entry.  The entry of an emitted stream stays with the sequence numbers it has seen; it is
what keeps late duplicates from starting the stream again.
-/

namespace HashKinetics

open Foundations

variable {H : Type}

/-- A message and the peer it came from. -/
abbrev Arrival (H : Type) := ℕ × StreamMessage H

/-- The stream that an arrival belongs to. -/
def Arrival.key (a : Arrival H) : ℕ ×ₗ ℕ := toLex (a.1, a.2.streamId)

namespace PartStreamsMap

/-- The map after a run of arrivals. -/
def takeIn (as : List (Arrival H)) : PartStreamsMap H :=
  as.foldl (fun m a => (m.insertPart a.1 a.2).2) ∅

/-- What the next arrival of a run makes the map emit. -/
def emits (as : List (Arrival H)) (a : Arrival H) : Option (ProposalParts H) :=
  ((takeIn as).insertPart a.1 a.2).1

@[simp] lemma takeIn_nil : takeIn ([] : List (Arrival H)) = ∅ := rfl

lemma takeIn_snoc (as : List (Arrival H)) (a : Arrival H) :
    takeIn (as ++ [a]) = ((takeIn as).insertPart a.1 a.2).2 := by
  simp [takeIn]

end PartStreamsMap

/-! ## The first copies of the messages of a stream -/

/-- The messages of a stream in the order of arrival, each sequence number once. -/
def copiesOf (k : ℕ ×ₗ ℕ) (as : List (Arrival H)) : List (StreamMessage H) :=
  as.foldl (fun l a => if a.key = k ∧ a.2.sequence ∉ l.map StreamMessage.sequence then l ++ [a.2]
    else l) []

/-- The opening part among the messages. -/
def openingOf (l : List (StreamMessage H)) : Option (HkProposalInit H) :=
  l.foldl (fun info msg => if msg.isFirst then msg.content.bind HkProposalPart.asInit else info)
    none

/-- How many messages the end of the stream announces. -/
def announced (l : List (StreamMessage H)) : ℕ :=
  l.foldl (fun n msg => if msg.isFin then msg.sequence + 1 else n) 0

/-- The messages are a whole stream: an opening part, an end, and as many as the end announces. -/
def Complete (l : List (StreamMessage H)) : Prop :=
  (openingOf l).isSome = true ∧ l.any StreamMessage.isFin = true ∧ l.length = announced l

instance (l : List (StreamMessage H)) : Decidable (Complete l) :=
  inferInstanceAs (Decidable (_ ∧ _ ∧ _))

/-- The stream was complete at some point of the run. -/
def Completed (k : ℕ ×ₗ ℕ) (as : List (Arrival H)) : Prop :=
  ∃ pre, pre <+: as ∧ Complete (copiesOf k pre)

instance (k : ℕ ×ₗ ℕ) (as : List (Arrival H)) : Decidable (Completed k as) :=
  decidable_of_iff (∃ pre ∈ as.inits, Complete (copiesOf k pre)) (by simp [Completed])

section Copies

variable {k : ℕ ×ₗ ℕ} {as : List (Arrival H)} {a : Arrival H}

lemma copiesOf_snoc (k : ℕ ×ₗ ℕ) (as : List (Arrival H)) (a : Arrival H) :
    copiesOf k (as ++ [a]) =
      if a.key = k ∧ a.2.sequence ∉ (copiesOf k as).map StreamMessage.sequence then
        copiesOf k as ++ [a.2]
      else copiesOf k as := by
  simp [copiesOf]

lemma openingOf_snoc (l : List (StreamMessage H)) (msg : StreamMessage H) :
    openingOf (l ++ [msg]) =
      if msg.isFirst then msg.content.bind HkProposalPart.asInit else openingOf l := by
  simp [openingOf]

lemma announced_snoc (l : List (StreamMessage H)) (msg : StreamMessage H) :
    announced (l ++ [msg]) = if msg.isFin then msg.sequence + 1 else announced l := by
  simp [announced]

lemma not_complete_nil : ¬ Complete ([] : List (StreamMessage H)) := by
  simp [Complete, openingOf]

/-- A stream without an opening part has no message with the first sequence number. -/
lemma exists_first_of_openingOf {l : List (StreamMessage H)} (h : (openingOf l).isSome = true) :
    0 ∈ l.map StreamMessage.sequence := by
  induction l using List.reverseRecOn with
  | nil => simp [openingOf] at h
  | append_singleton l msg ih =>
    rw [openingOf_snoc] at h
    rw [List.map_append, List.mem_append]
    split_ifs at h with hfirst
    · exact .inr (by simpa [StreamMessage.isFirst, eq_comm] using hfirst)
    · exact .inl (ih h)

lemma completed_snoc : Completed k (as ++ [a]) ↔
    Completed k as ∨ Complete (copiesOf k (as ++ [a])) := by
  constructor
  · rintro ⟨pre, hpre, hcomplete⟩
    rcases List.prefix_concat_iff.mp hpre with rfl | hpre
    · exact .inr hcomplete
    · exact .inl ⟨pre, hpre, hcomplete⟩
  · rintro (⟨pre, hpre, hcomplete⟩ | hcomplete)
    · exact ⟨pre, hpre.trans (List.prefix_append as [a]), hcomplete⟩
    · exact ⟨_, List.prefix_rfl, hcomplete⟩

lemma Completed.snoc (h : Completed k as) : Completed k (as ++ [a]) := completed_snoc.mpr (.inl h)

/-- An arrival that adds no first copy completes nothing. -/
lemma completed_snoc_of_same (h : copiesOf k (as ++ [a]) = copiesOf k as) :
    Completed k (as ++ [a]) ↔ Completed k as := by
  rw [completed_snoc, h]
  exact or_iff_left_of_imp fun hcomplete => ⟨as, List.prefix_rfl, hcomplete⟩

lemma nodup_copiesOf (k : ℕ ×ₗ ℕ) (as : List (Arrival H)) :
    ((copiesOf k as).map StreamMessage.sequence).Nodup := by
  induction as using List.reverseRecOn with
  | nil => exact List.nodup_nil
  | append_singleton as a ih =>
    rw [copiesOf_snoc]
    split_ifs with h
    · rw [List.map_append, List.map_singleton]
      exact List.nodup_append.mpr ⟨ih, List.nodup_singleton _, by
        rintro i hi j hj rfl
        exact h.2 (List.mem_singleton.mp hj ▸ hi)⟩
    · exact ih

end Copies

/-! ## What the map keeps of a stream -/

/-- The state of a stream after a run of arrivals. -/
structure StreamState.Tracks (k : ℕ ×ₗ ℕ) (as : List (Arrival H)) (s : StreamState H) : Prop where
  seen : ∀ i, i ∈ s.seenSequences ↔ i ∈ (copiesOf k as).map StreamMessage.sequence
  /-- Before completion it is made of the first copies. -/
  buffering : ¬ Completed k as → s.buffer = copiesOf k as ∧ s.initInfo = openingOf (copiesOf k as) ∧
    s.finReceived = (copiesOf k as).any StreamMessage.isFin ∧
    s.totalMessages = announced (copiesOf k as)
  /-- Afterwards the opening part is gone, and none can come again. -/
  emptied : Completed k as → s.initInfo = none ∧ 0 ∈ (copiesOf k as).map StreamMessage.sequence

namespace StreamState

variable {k : ℕ ×ₗ ℕ} {as : List (Arrival H)} {a : Arrival H} {s : StreamState H}

lemma tracks_new (k : ℕ ×ₗ ℕ) : (new : StreamState H).Tracks k [] where
  seen i := by simp [new, copiesOf]
  buffering _ := ⟨rfl, rfl, rfl, rfl⟩
  emptied h := by
    obtain ⟨pre, hpre, hcomplete⟩ := h
    rw [List.prefix_nil.mp hpre] at hcomplete
    exact absurd hcomplete not_complete_nil

/-- Nothing changes with an arrival that is no first copy of the stream. -/
lemma Tracks.of_same (h : s.Tracks k as) (hsame : copiesOf k (as ++ [a]) = copiesOf k as) :
    s.Tracks k (as ++ [a]) where
  seen i := by rw [hsame]; exact h.seen i
  buffering hn := by
    rw [completed_snoc_of_same hsame] at hn
    rw [hsame]
    exact h.buffering hn
  emptied hc := by
    rw [completed_snoc_of_same hsame] at hc
    rw [hsame]
    exact h.emptied hc

/-- The state of a stream after one more message was put into it, before the completion test. -/
def put (s : StreamState H) (msg : StreamMessage H) : StreamState H where
  buffer := s.buffer ++ [msg]
  initInfo := if msg.isFirst then msg.content.bind HkProposalPart.asInit else s.initInfo
  seenSequences := s.seenSequences
  totalMessages := if msg.isFin then msg.sequence + 1 else s.totalMessages
  finReceived := if msg.isFin then true else s.finReceived

/-- One message: it is put into the state, and a complete stream is emitted and emptied. -/
lemma insert_eq (s : StreamState H) (msg : StreamMessage H) :
    s.insert msg = match (s.put msg).initInfo with
      | some info =>
        if (s.put msg).isDone then
          (some ⟨info, (s.put msg).drain⟩, { s.put msg with initInfo := none, buffer := [] })
        else (none, s.put msg)
      | none => (none, s.put msg) := by
  unfold insert put
  cases msg.isFirst <;> cases msg.isFin <;> rfl

/-- The completion test after a call always fails: what it reads was taken out if the stream was
complete. -/
lemma not_isDone_insert (s : StreamState H) (msg : StreamMessage H) :
    (s.insert msg).2.isDone = false := by
  rw [insert_eq]
  cases hinfo : (s.put msg).initInfo with
  | none => simp [isDone, hinfo]
  | some info =>
    by_cases hdone : (s.put msg).isDone = true
    · simp only [if_pos hdone]
      rfl
    · simp only [if_neg hdone]
      exact Bool.eq_false_iff.mpr hdone

/-- The proposal of a complete stream: its opening part, and all its parts in order. -/
def assembled (l : List (StreamMessage H)) : Option (ProposalParts H) :=
  (openingOf l).map fun info =>
    ⟨info, (l.insertionSort fun a b => a.sequence ≤ b.sequence).filterMap StreamMessage.content⟩

/-- A message that the stream has not seen yet: its arrival emits the proposal when it completes the
stream for the first time. -/
lemma Tracks.insert (h : s.Tracks k as) (hkey : a.key = k)
    (hnew : a.2.sequence ∉ (copiesOf k as).map StreamMessage.sequence) :
    let r := { s with seenSequences := s.seenSequences.insert a.2.sequence }.insert a.2
    r.2.Tracks k (as ++ [a]) ∧
      ((Completed k as → r.1 = none) ∧
        (¬ Completed k as → Complete (copiesOf k (as ++ [a])) →
          r.1 = assembled (copiesOf k (as ++ [a]))) ∧
        (¬ Complete (copiesOf k (as ++ [a])) → r.1 = none)) := by
  intro r
  set s₁ : StreamState H := { s with seenSequences := s.seenSequences.insert a.2.sequence } with hs₁
  have hcopies : copiesOf k (as ++ [a]) = copiesOf k as ++ [a.2] := by
    rw [copiesOf_snoc, if_pos ⟨hkey, hnew⟩]
  have hseen : ∀ i, i ∈ (s₁.put a.2).seenSequences ↔
      i ∈ (copiesOf k (as ++ [a])).map StreamMessage.sequence := by
    intro i
    rw [hcopies, List.map_append, List.mem_append, ← h.seen i]
    change i ∈ s.seenSequences.insert a.2.sequence ↔ _
    rw [Std.ExtTreeSet.mem_insert, or_comm, Std.compare_eq_iff_eq]
    simp [eq_comm]
  have hr : r = match (s₁.put a.2).initInfo with
      | some info =>
        if (s₁.put a.2).isDone then
          (some ⟨info, (s₁.put a.2).drain⟩, { s₁.put a.2 with initInfo := none, buffer := [] })
        else (none, s₁.put a.2)
      | none => (none, s₁.put a.2) := insert_eq s₁ a.2
  by_cases hdone : Completed k as
  · obtain ⟨hinfo, hfirst⟩ := h.emptied hdone
    have hput : (s₁.put a.2).initInfo = none := by
      have hne : ¬ a.2.isFirst = true := by
        intro hzero
        have hseq : a.2.sequence = 0 := by simpa [StreamMessage.isFirst] using hzero
        exact hnew (hseq ▸ hfirst)
      simp [put, hne, hs₁, hinfo]
    rw [hput] at hr
    rw [hr]
    refine ⟨⟨hseen, fun hn => absurd hdone.snoc hn, fun _ => ⟨hput, ?_⟩⟩, fun _ => rfl,
      fun hn => absurd hdone hn, fun _ => rfl⟩
    rw [hcopies, List.map_append]
    exact List.mem_append_left _ hfirst
  · obtain ⟨hbuffer, hinfo, hfin, htotal⟩ := h.buffering hdone
    have hput : (s₁.put a.2).buffer = copiesOf k (as ++ [a]) ∧
        (s₁.put a.2).initInfo = openingOf (copiesOf k (as ++ [a])) ∧
        (s₁.put a.2).finReceived = (copiesOf k (as ++ [a])).any StreamMessage.isFin ∧
        (s₁.put a.2).totalMessages = announced (copiesOf k (as ++ [a])) := by
      rw [hcopies, openingOf_snoc, announced_snoc]
      refine ⟨by simp [put, hs₁, hbuffer], by simp [put, hs₁, hinfo], ?_,
        by simp [put, hs₁, htotal]⟩
      cases hend : a.2.isFin <;> simp [put, hs₁, hfin, hend]
    have hisDone : (s₁.put a.2).isDone = true ↔ Complete (copiesOf k (as ++ [a])) := by
      simp [isDone, hput, Complete, and_assoc]
    by_cases hcomplete : Complete (copiesOf k (as ++ [a]))
    · obtain ⟨info, hopening⟩ := Option.isSome_iff_exists.mp hcomplete.1
      rw [hput.2.1, hopening] at hr
      simp only [if_pos (hisDone.mpr hcomplete)] at hr
      rw [hr]
      refine ⟨⟨hseen, fun hn => absurd (completed_snoc.mpr (.inr hcomplete)) hn,
        fun _ => ⟨rfl, exists_first_of_openingOf hcomplete.1⟩⟩, fun hc => absurd hc hdone,
        fun _ _ => ?_, fun hn => absurd hcomplete hn⟩
      simp [assembled, hopening, drain, hput.1]
    · have hnot : ¬ Completed k (as ++ [a]) := by
        rw [completed_snoc]
        exact not_or.mpr ⟨hdone, hcomplete⟩
      have hr' : r = (none, s₁.put a.2) := by
        rw [hr]
        cases hi : (s₁.put a.2).initInfo with
        | none => rfl
        | some info => simp [mt hisDone.mp hcomplete]
      rw [hr']
      exact ⟨⟨hseen, fun _ => hput, fun hc => absurd hc hnot⟩, fun _ => rfl,
        fun _ hc => absurd hc hcomplete, fun _ => rfl⟩

end StreamState

/-! ## Runs -/

namespace PartStreamsMap

variable {k : ℕ ×ₗ ℕ} {as : List (Arrival H)} {a : Arrival H}

/-- The state the map has for a stream, or a fresh one. -/
def stateOf (m : PartStreamsMap H) (k : ℕ ×ₗ ℕ) : StreamState H := m[k]?.getD StreamState.new

/-- The state that one arrival leaves for its stream; no entry is ever removed. -/
lemma insertPart_eq (m : PartStreamsMap H) (a : Arrival H) :
    m.insertPart a.1 a.2 =
      if (m.stateOf a.key).seenSequences.contains a.2.sequence then
        (none, m.insert a.key (m.stateOf a.key))
      else
        let r := { m.stateOf a.key with
          seenSequences := (m.stateOf a.key).seenSequences.insert a.2.sequence }.insert a.2
        (r.1, m.insert a.key r.2) := by
  unfold insertPart
  simp only [StreamState.not_isDone_insert]
  rfl

lemma stateOf_insert (m : PartStreamsMap H) (k k' : ℕ ×ₗ ℕ) (s : StreamState H) :
    stateOf (m.insert k s) k' = if k = k' then s else m.stateOf k' := by
  unfold stateOf
  rw [OrderedMap.get_insert]
  split_ifs <;> rfl

/-- After any run, the map knows of every stream what its first copies say. -/
lemma tracks_takeIn (k : ℕ ×ₗ ℕ) (as : List (Arrival H)) :
    ((takeIn as).stateOf k).Tracks k as := by
  induction as using List.reverseRecOn with
  | nil =>
    have hnew : (takeIn ([] : List (Arrival H))).stateOf k = StreamState.new := by
      simp [stateOf]
    rw [hnew]
    exact StreamState.tracks_new k
  | append_singleton as a ih =>
    rw [takeIn_snoc, insertPart_eq]
    by_cases hkey : a.key = k
    · subst hkey
      split_ifs with hseen
      · have hmem := (ih.seen a.2.sequence).mp hseen
        have hsame : copiesOf a.key (as ++ [a]) = copiesOf a.key as := by
          rw [copiesOf_snoc, if_neg fun h => h.2 hmem]
        rw [stateOf_insert, if_pos rfl]
        exact ih.of_same hsame
      · have hnew : a.2.sequence ∉ (copiesOf a.key as).map StreamMessage.sequence :=
          mt (ih.seen a.2.sequence).mpr hseen
        simp only [stateOf_insert, if_true]
        exact (ih.insert rfl hnew).1
    · have hsame : copiesOf k (as ++ [a]) = copiesOf k as := by
        rw [copiesOf_snoc, if_neg fun h => hkey h.1]
      have hother : stateOf (if ((takeIn as).stateOf a.key).seenSequences.contains a.2.sequence then
          ((none : Option (ProposalParts H)), (takeIn as).insert a.key ((takeIn as).stateOf a.key))
        else
          let r := { (takeIn as).stateOf a.key with
            seenSequences :=
              ((takeIn as).stateOf a.key).seenSequences.insert a.2.sequence }.insert a.2
          (r.1, (takeIn as).insert a.key r.2)).2 k = (takeIn as).stateOf k := by
        split_ifs <;> simp only [stateOf_insert, if_neg hkey]
      rw [hother]
      exact ih.of_same hsame

/-- The next arrival emits exactly when it completes its stream for the first time, and what it
emits is the proposal of the first copies. -/
lemma emits_eq (as : List (Arrival H)) (a : Arrival H) :
    emits as a = if Complete (copiesOf a.key (as ++ [a])) ∧ ¬ Completed a.key as then
      StreamState.assembled (copiesOf a.key (as ++ [a])) else none := by
  have htracks := tracks_takeIn a.key as
  unfold emits
  rw [insertPart_eq]
  by_cases hseen : ((takeIn as).stateOf a.key).seenSequences.contains a.2.sequence = true
  · have hmem := (htracks.seen a.2.sequence).mp hseen
    have hsame : copiesOf a.key (as ++ [a]) = copiesOf a.key as := by
      rw [copiesOf_snoc, if_neg fun h => h.2 hmem]
    have hnot : ¬ (Complete (copiesOf a.key (as ++ [a])) ∧ ¬ Completed a.key as) := by
      rintro ⟨hcomplete, hbefore⟩
      exact hbefore ⟨as, List.prefix_rfl, hsame ▸ hcomplete⟩
    rw [if_pos hseen, if_neg hnot]
  · have hnew : a.2.sequence ∉ (copiesOf a.key as).map StreamMessage.sequence :=
      mt (htracks.seen a.2.sequence).mpr hseen
    obtain ⟨-, hafter, hfirst, hnever⟩ := htracks.insert rfl hnew
    rw [if_neg hseen]
    split_ifs with h
    · exact hfirst h.2 h.1
    · rcases not_and_or.mp h with hcomplete | hbefore
      · exact hnever hcomplete
      · exact hafter (not_not.mp hbefore)

/-- What a run of arrivals makes the map emit for a stream, in order. -/
def emissionsOf (k : ℕ ×ₗ ℕ) : PartStreamsMap H → List (Arrival H) → List (ProposalParts H)
  | _, [] => []
  | m, a :: as =>
    let r := m.insertPart a.1 a.2
    (if a.key = k then r.1.toList else []) ++ emissionsOf k r.2 as

lemma emissionsOf_snoc (k : ℕ ×ₗ ℕ) (as : List (Arrival H)) (a : Arrival H) :
    emissionsOf k ∅ (as ++ [a]) =
      emissionsOf k ∅ as ++ if a.key = k then (emits as a).toList else [] := by
  have hfrom : ∀ m : PartStreamsMap H, emissionsOf k m (as ++ [a]) = emissionsOf k m as ++
      if a.key = k then
        ((as.foldl (fun m a => (m.insertPart a.1 a.2).2) m).insertPart a.1 a.2).1.toList
      else [] := by
    induction as with
    | nil =>
      intro m
      simp [emissionsOf]
    | cons b as ih =>
      intro m
      simp only [List.cons_append, emissionsOf, ih, List.append_assoc, List.foldl_cons]
  exact hfrom ∅

end PartStreamsMap

/-! ## Whole proposals -/

/-- A proposal as it is streamed: an opening part and the parts after it. -/
structure StreamedProposal (H : Type) where
  info : HkProposalInit H
  body : List (HkProposalPart H)

namespace StreamedProposal

def parts (p : StreamedProposal H) : List (HkProposalPart H) := .init p.info :: p.body

/-- The number of messages: one for each part, and the end of the stream. -/
def count (p : StreamedProposal H) : ℕ := p.parts.length + 1

/-- The message with a sequence number; the one after the last part ends the stream. -/
def message (p : StreamedProposal H) (streamId i : ℕ) : StreamMessage H :=
  ⟨streamId, i, p.parts[i]?⟩

/-- All messages have arrived from the peer. -/
def Arrived (p : StreamedProposal H) (peer streamId : ℕ) (as : List (Arrival H)) : Prop :=
  ∀ i < p.count, (peer, p.message streamId i) ∈ as

/-- What the peer sends on the stream are messages of the proposal, any number of times. -/
def Sent (p : StreamedProposal H) (peer streamId : ℕ) (as : List (Arrival H)) : Prop :=
  ∀ a ∈ as, a.key = toLex (peer, streamId) → ∃ i < p.count, a.2 = p.message streamId i

section Whole

variable {p : StreamedProposal H} {peer streamId : ℕ} {as pre : List (Arrival H)} {a : Arrival H}

lemma Sent.of_isPrefix (h : p.Sent peer streamId as)
    (hpre : pre <+: as) : p.Sent peer streamId pre :=
  fun a ha => h a (hpre.subset ha)

lemma Arrived.of_isPrefix (h : p.Arrived peer streamId pre) (hpre : pre <+: as) :
    p.Arrived peer streamId as :=
  fun i hi => hpre.subset (h i hi)

lemma isFin_message {i : ℕ} (h : i < p.count) :
    (p.message streamId i).isFin = true ↔ i + 1 = p.count := by
  unfold count at h ⊢
  simp only [message, StreamMessage.isFin, Option.isNone_iff_eq_none, List.getElem?_eq_none_iff]
  omega

/-- The first copies of the stream are messages of the proposal. -/
lemma Sent.copies (h : p.Sent peer streamId as) :
    ∀ msg ∈ copiesOf (toLex (peer, streamId)) as,
      msg.sequence < p.count ∧ msg = p.message streamId msg.sequence := by
  induction as using List.reverseRecOn with
  | nil => intro msg hmsg; exact absurd hmsg List.not_mem_nil
  | append_singleton as a ih =>
    have ih := ih (h.of_isPrefix (List.prefix_append as [a]))
    intro msg hmsg
    rw [copiesOf_snoc] at hmsg
    split_ifs at hmsg with hnew
    · rcases List.mem_append.mp hmsg with hmsg | hmsg
      · exact ih msg hmsg
      · obtain ⟨i, hi, hai⟩ := h a (by simp) hnew.1
        rw [List.mem_singleton.mp hmsg, hai]
        exact ⟨hi, rfl⟩
    · exact ih msg hmsg

/-- The sequence numbers of the first copies are those of the messages that have arrived. -/
lemma Sent.mem_sequences (h : p.Sent peer streamId as) (i : ℕ) :
    i ∈ (copiesOf (toLex (peer, streamId)) as).map StreamMessage.sequence ↔
      (peer, p.message streamId i) ∈ as := by
  induction as using List.reverseRecOn with
  | nil => simp [copiesOf]
  | append_singleton as a ih =>
    have ih := ih (h.of_isPrefix (List.prefix_append as [a]))
    have hlast : a.key = toLex (peer, streamId) ∧ a.2.sequence = i ↔
        a = (peer, p.message streamId i) := by
      constructor
      · rintro ⟨hkey, hseq⟩
        obtain ⟨j, -, hj⟩ := h a (by simp) hkey
        have hij : j = i := by rw [← hseq, hj]; rfl
        have hpeer : a.1 = peer := congrArg Prod.fst (toLex.injective hkey)
        exact Prod.ext hpeer (hij ▸ hj)
      · rintro rfl
        exact ⟨rfl, rfl⟩
    rw [List.mem_append, List.mem_singleton, ← ih, eq_comm (a := (peer, p.message streamId i)),
      ← hlast, copiesOf_snoc]
    split_ifs with hnew
    · rw [List.map_append, List.mem_append, List.map_singleton, List.mem_singleton]
      exact or_congr_right ⟨fun hseq => ⟨hnew.1, hseq.symm⟩, fun hseq => hseq.2.symm⟩
    · refine (or_iff_left_of_imp ?_).symm
      rintro ⟨hkey, hseq⟩
      by_contra hmem
      exact hnew ⟨hkey, hseq ▸ hmem⟩

/-- All messages have arrived exactly when the first copies have all the sequence numbers. -/
lemma Sent.arrived_iff (h : p.Sent peer streamId as) : p.Arrived peer streamId as ↔
    ((copiesOf (toLex (peer, streamId)) as).map StreamMessage.sequence).Perm
      (List.range p.count) := by
  set seqs := (copiesOf (toLex (peer, streamId)) as).map StreamMessage.sequence with hseqs
  have hlt : ∀ i ∈ seqs, i < p.count := by
    intro i hi
    obtain ⟨msg, hmsg, rfl⟩ := List.mem_map.mp hi
    exact (h.copies msg hmsg).1
  rw [List.perm_ext_iff_of_nodup (nodup_copiesOf _ _) List.nodup_range]
  constructor
  · intro harrived i
    rw [List.mem_range]
    exact ⟨hlt i, fun hi => (h.mem_sequences i).mpr (harrived i hi)⟩
  · intro hall i hi
    exact (h.mem_sequences i).mp ((hall i).mpr (List.mem_range.mpr hi))

/-- The opening part is known as soon as the first message has arrived. -/
lemma openingOf_messages {l : List (StreamMessage H)}
    (h : ∀ msg ∈ l, msg.sequence < p.count ∧ msg = p.message streamId msg.sequence) :
    openingOf l = if 0 ∈ l.map StreamMessage.sequence then some p.info else none := by
  induction l using List.reverseRecOn with
  | nil => rfl
  | append_singleton l msg ih =>
    have ih := ih fun m hm => h m (List.mem_append_left _ hm)
    have hmsg := (h msg (by simp)).2
    rw [openingOf_snoc, ih, List.map_append, List.map_singleton]
    by_cases hzero : msg.sequence = 0
    · rw [if_pos (by simp [StreamMessage.isFirst, hzero]), if_pos (by simp [hzero]), hmsg, hzero]
      rfl
    · rw [if_neg (by simp [StreamMessage.isFirst, hzero])]
      simp [Ne.symm hzero]

/-- The number of messages is known as soon as the end of the stream has arrived. -/
lemma announced_messages {l : List (StreamMessage H)}
    (h : ∀ msg ∈ l, msg.sequence < p.count ∧ msg = p.message streamId msg.sequence) :
    announced l = if l.any StreamMessage.isFin then p.count else 0 := by
  induction l using List.reverseRecOn with
  | nil => rfl
  | append_singleton l msg ih =>
    have ih := ih fun m hm => h m (List.mem_append_left _ hm)
    obtain ⟨hlt, hmsg⟩ := h msg (by simp)
    rw [announced_snoc, ih, List.any_append]
    cases hfin : msg.isFin with
    | true =>
      have hlast : msg.sequence + 1 = p.count := (isFin_message hlt).mp (hmsg ▸ hfin)
      simp [hfin, hlast]
    | false => simp [hfin]

/-- The stream is complete exactly when all its messages have arrived. -/
lemma Sent.complete_iff (h : p.Sent peer streamId as) :
    Complete (copiesOf (toLex (peer, streamId)) as) ↔ p.Arrived peer streamId as := by
  set l := copiesOf (toLex (peer, streamId)) as with hl
  have hcopies : ∀ msg ∈ l, msg.sequence < p.count ∧ msg = p.message streamId msg.sequence :=
    h.copies
  rw [h.arrived_iff]
  constructor
  · rintro ⟨-, hfin, hlen⟩
    rw [announced_messages hcopies, if_pos hfin] at hlen
    have hsub : l.map StreamMessage.sequence ⊆ List.range p.count := by
      intro i hi
      obtain ⟨msg, hmsg, rfl⟩ := List.mem_map.mp hi
      exact List.mem_range.mpr (hcopies msg hmsg).1
    exact ((nodup_copiesOf _ _).subperm hsub).perm_of_length_le (by simp [hl ▸ hlen])
  · intro hperm
    have hzero : 0 ∈ l.map StreamMessage.sequence :=
      hperm.mem_iff.mpr (List.mem_range.mpr (Nat.succ_pos _))
    have hlast : p.parts.length ∈ l.map StreamMessage.sequence :=
      hperm.mem_iff.mpr (List.mem_range.mpr (Nat.lt_succ_self _))
    have hfin : l.any StreamMessage.isFin = true := by
      obtain ⟨msg, hmsg, hseq⟩ := List.mem_map.mp hlast
      refine List.any_eq_true.mpr ⟨msg, hmsg, ?_⟩
      rw [(hcopies msg hmsg).2]
      exact (isFin_message (hcopies msg hmsg).1).mpr (by rw [hseq]; rfl)
    refine ⟨by rw [openingOf_messages hcopies, if_pos hzero]; rfl, hfin, ?_⟩
    rw [announced_messages hcopies, if_pos hfin]
    simpa using hperm.length_eq

/-- The entries of a list, read by their positions. -/
lemma filterMap_getElem_range {α : Type} (l : List α) :
    (List.range l.length).filterMap (fun i => l[i]?) = l := by
  induction l with
  | nil => rfl
  | cons x l ih =>
    rw [List.length_cons, List.range_succ_eq_map, List.filterMap_cons_some (by rfl),
      List.filterMap_map]
    exact congrArg (x :: ·) ih

/-- A stream whose messages have all arrived is assembled into the proposal. -/
lemma Sent.assembled (h : p.Sent peer streamId as) (harrived : p.Arrived peer streamId as) :
    StreamState.assembled (copiesOf (toLex (peer, streamId)) as) = some ⟨p.info, p.parts⟩ := by
  set l := copiesOf (toLex (peer, streamId)) as with hl
  have hcopies : ∀ msg ∈ l, msg.sequence < p.count ∧ msg = p.message streamId msg.sequence :=
    h.copies
  have hperm := h.arrived_iff.mp harrived
  have hmessages : l.Perm ((List.range p.count).map (p.message streamId)) := by
    have hself : (l.map StreamMessage.sequence).map (p.message streamId) = l := by
      rw [List.map_map]
      exact (List.map_congr_left fun msg hmsg => (hcopies msg hmsg).2.symm).trans (List.map_id l)
    exact hself ▸ hperm.map _
  have hsorted : l.insertionSort (fun a b => a.sequence ≤ b.sequence) =
      (List.range p.count).map (p.message streamId) := by
    refine List.Perm.eq_of_pairwise ?_ (List.pairwise_insertionSort _ _) ?_
      ((List.perm_insertionSort _ l).trans hmessages)
    · intro a b ha hb hab hba
      have ha := (hcopies a ((List.perm_insertionSort _ l).mem_iff.mp ha)).2
      obtain ⟨i, -, rfl⟩ := List.mem_map.mp hb
      have hseq : a.sequence = i := le_antisymm hab hba
      rw [ha, hseq]
    · exact List.pairwise_map.mpr (List.pairwise_le_range.imp fun h => h)
  have hparts : ((List.range p.count).map (p.message streamId)).filterMap StreamMessage.content =
      p.parts := by
    rw [List.filterMap_map, count, List.range_succ, List.filterMap_append,
      show StreamMessage.content ∘ p.message streamId = fun i => p.parts[i]? from rfl,
      filterMap_getElem_range]
    simp
  have hzero : 0 ∈ l.map StreamMessage.sequence :=
    hperm.mem_iff.mpr (List.mem_range.mpr (Nat.succ_pos _))
  unfold StreamState.assembled
  rw [openingOf_messages hcopies, if_pos hzero, hsorted, hparts]
  rfl

/-- The stream was complete at some point exactly when all its messages have arrived by now. -/
lemma Sent.completed_iff (h : p.Sent peer streamId as) :
    Completed (toLex (peer, streamId)) as ↔ p.Arrived peer streamId as := by
  constructor
  · rintro ⟨pre, hpre, hcomplete⟩
    exact ((h.of_isPrefix hpre).complete_iff.mp hcomplete).of_isPrefix hpre
  · intro harrived
    exact ⟨as, List.prefix_rfl, h.complete_iff.mpr harrived⟩

/-- An arrival of the stream emits the proposal exactly when it brings the last missing message. -/
lemma Sent.emits (h : p.Sent peer streamId (as ++ [a])) (hkey : a.key = toLex (peer, streamId)) :
    (¬ p.Arrived peer streamId as ∧ p.Arrived peer streamId (as ++ [a]) →
        PartStreamsMap.emits as a = some ⟨p.info, p.parts⟩) ∧
      (¬ (¬ p.Arrived peer streamId as ∧ p.Arrived peer streamId (as ++ [a])) →
        PartStreamsMap.emits as a = none) := by
  have hbefore := (h.of_isPrefix (List.prefix_append as [a])).completed_iff
  have hnow := h.complete_iff
  rw [PartStreamsMap.emits_eq, hkey]
  constructor
  · rintro ⟨hnot, harrived⟩
    rw [if_pos ⟨hnow.mpr harrived, mt hbefore.mp hnot⟩]
    exact h.assembled harrived
  · intro hnot
    rw [if_neg fun hboth => hnot ⟨mt hbefore.mpr hboth.2, hnow.mp hboth.1⟩]

/-- Once all messages have arrived the run has emitted the proposal once, and before that
nothing. -/
lemma Sent.emissionsOf (h : p.Sent peer streamId as) :
    (p.Arrived peer streamId as →
        PartStreamsMap.emissionsOf (toLex (peer, streamId)) ∅ as = [⟨p.info, p.parts⟩]) ∧
      (¬ p.Arrived peer streamId as →
        PartStreamsMap.emissionsOf (toLex (peer, streamId)) ∅ as = []) := by
  induction as using List.reverseRecOn with
  | nil =>
    refine ⟨fun harrived => ?_, fun _ => rfl⟩
    exact absurd (harrived 0 (Nat.succ_pos _)) List.not_mem_nil
  | append_singleton as a ih =>
    obtain ⟨hdone, hopen⟩ := ih (h.of_isPrefix (List.prefix_append as [a]))
    have hgrows : p.Arrived peer streamId as → p.Arrived peer streamId (as ++ [a]) :=
      fun harrived => harrived.of_isPrefix (List.prefix_append as [a])
    rw [PartStreamsMap.emissionsOf_snoc]
    by_cases hkey : a.key = toLex (peer, streamId)
    · obtain ⟨hlast, hother⟩ := h.emits hkey
      rw [if_pos hkey]
      by_cases hbefore : p.Arrived peer streamId as
      · rw [hdone hbefore, hother fun hboth => hboth.1 hbefore]
        exact ⟨fun _ => rfl, fun hnot => absurd (hgrows hbefore) hnot⟩
      · rw [hopen hbefore]
        constructor
        · intro harrived
          rw [hlast ⟨hbefore, harrived⟩]
          rfl
        · intro hnot
          rw [hother fun hboth => hnot hboth.2]
          rfl
    · have hsame : p.Arrived peer streamId (as ++ [a]) → p.Arrived peer streamId as := by
        intro harrived i hi
        refine (List.mem_append.mp (harrived i hi)).resolve_right fun hlast => hkey ?_
        rw [← List.mem_singleton.mp hlast]
        rfl
      rw [if_neg hkey, List.append_nil]
      exact ⟨fun harrived => hdone (hsame harrived), fun hnot => hopen (mt hgrows hnot)⟩

end Whole

end StreamedProposal

/-- Whatever else arrives in between, in whatever order and however often: the messages of a
proposal make the map emit it once, whole and in order, when the last of them that was missing comes
in. -/
theorem StreamedProposal.emitted_once {p : StreamedProposal H} {peer streamId : ℕ}
    {as : List (Arrival H)} (h : p.Sent peer streamId as) :
    (p.Arrived peer streamId as →
        PartStreamsMap.emissionsOf (toLex (peer, streamId)) ∅ as = [⟨p.info, p.parts⟩]) ∧
      (¬ p.Arrived peer streamId as →
        PartStreamsMap.emissionsOf (toLex (peer, streamId)) ∅ as = []) ∧
      ∀ pre a post, as = pre ++ a :: post → a.key = toLex (peer, streamId) →
        (¬ p.Arrived peer streamId pre ∧ p.Arrived peer streamId (pre ++ [a]) →
          PartStreamsMap.emits pre a = some ⟨p.info, p.parts⟩) ∧
        (¬ (¬ p.Arrived peer streamId pre ∧ p.Arrived peer streamId (pre ++ [a])) →
          PartStreamsMap.emits pre a = none) := by
  refine ⟨h.emissionsOf.1, h.emissionsOf.2, ?_⟩
  rintro pre a post rfl hkey
  exact (h.of_isPrefix ⟨post, by simp⟩).emits hkey

namespace Concrete

/-- A proposal of two parts, with the end of the stream and the second part arriving before the
first, another stream in between, and a duplicate of each kind. -/
def shuffledProposal : StreamedProposal ℕ := ⟨⟨1, some 0, none, ⟨0⟩⟩, [.fin 7]⟩

def shuffledArrivals : List (Arrival ℕ) :=
  [(3, shuffledProposal.message 5 2), (3, shuffledProposal.message 5 1), (4, ⟨5, 0, none⟩),
    (3, shuffledProposal.message 5 1), (3, shuffledProposal.message 5 0),
    (3, shuffledProposal.message 5 0)]

theorem shuffledProposal_emitted : PartStreamsMap.emissionsOf (toLex (3, 5)) ∅ shuffledArrivals =
    [⟨shuffledProposal.info, shuffledProposal.parts⟩] := by
  have hsent : shuffledProposal.Sent 3 5 shuffledArrivals := by
    intro a ha hkey
    simp only [shuffledArrivals, List.mem_cons, List.not_mem_nil, or_false] at ha
    rcases ha with rfl | rfl | rfl | rfl | rfl | rfl
    · exact ⟨2, by decide, rfl⟩
    · exact ⟨1, by decide, rfl⟩
    · exact absurd hkey (by decide)
    · exact ⟨1, by decide, rfl⟩
    · exact ⟨0, by decide, rfl⟩
    · exact ⟨0, by decide, rfl⟩
  refine (StreamedProposal.emitted_once hsent).1 fun i hi => ?_
  have hcases : i = 0 ∨ i = 1 ∨ i = 2 := by
    have hcount : shuffledProposal.count = 3 := rfl
    omega
  rcases hcases with rfl | rfl | rfl <;> simp [shuffledArrivals]

end Concrete

/-! ## The entries that stay -/

namespace PartStreamsMap

variable {k : ℕ ×ₗ ℕ} {as : List (Arrival H)} {a : Arrival H}

/-- The streams that have started. -/
def started (as : List (Arrival H)) : Finset (ℕ ×ₗ ℕ) := (as.map Arrival.key).toFinset

/-- The streams that have started and not been emitted. -/
def pending (as : List (Arrival H)) : Finset (ℕ ×ₗ ℕ) :=
  (started as).filter fun k => (emissionsOf k ∅ as).isEmpty

/-- Along the run, an emitted stream leaves no entry, and there are no more entries than streams
that have started and not been emitted. -/
def Released (as : List (Arrival H)) : Prop :=
  (∀ pre a, pre ++ [a] <+: as → (emits pre a).isSome = true →
    (takeIn (pre ++ [a]))[a.key]? = none) ∧
    ∀ pre, pre <+: as → (takeIn pre).size ≤ (pending pre).card

/-- Every call leaves an entry for the stream it is about. -/
lemma takeIn_snoc_eq (as : List (Arrival H)) (a : Arrival H) :
    ∃ s, takeIn (as ++ [a]) = (takeIn as).insert a.key s := by
  rw [takeIn_snoc, insertPart_eq]
  split_ifs
  · exact ⟨_, rfl⟩
  · exact ⟨_, rfl⟩

/-- There is an entry for every stream that has started. -/
lemma mem_takeIn : k ∈ takeIn as ↔ k ∈ started as := by
  induction as using List.reverseRecOn with
  | nil => simp [started]
  | append_singleton as a ih =>
    obtain ⟨s, hs⟩ := takeIn_snoc_eq as a
    rw [hs, Std.ExtTreeMap.mem_insert, compare_eq_iff_eq, ih]
    simp [started, eq_comm]

lemma size_takeIn (as : List (Arrival H)) : (takeIn as).size = (started as).card := by
  induction as using List.reverseRecOn with
  | nil => rfl
  | append_singleton as a ih =>
    obtain ⟨s, hs⟩ := takeIn_snoc_eq as a
    have hinsert : started (as ++ [a]) = insert a.key (started as) := by
      ext k
      simp [started]
    rw [hs, Std.ExtTreeMap.size_insert, hinsert, ih]
    split_ifs with hmem
    · rw [Finset.insert_eq_of_mem (mem_takeIn.mp hmem)]
    · rw [Finset.card_insert_of_notMem (mt mem_takeIn.mpr hmem)]

/-- A call emits exactly when its stream becomes complete. -/
lemma emits_isSome : (emits as a).isSome = true ↔
    Completed a.key (as ++ [a]) ∧ ¬ Completed a.key as := by
  rw [emits_eq, completed_snoc]
  split_ifs with h
  · simp [StreamState.assembled, h.1.1, h]
  · simp only [Option.isSome_none, Bool.false_eq_true, false_iff]
    rintro ⟨hdone | hcomplete, hbefore⟩
    · exact hbefore hdone
    · exact h ⟨hcomplete, hbefore⟩

/-- A stream that was complete at some point was completed by one call of the run. -/
lemma exists_emits (h : Completed k as) :
    ∃ pre a, pre ++ [a] <+: as ∧ a.key = k ∧ (emits pre a).isSome = true := by
  induction as using List.reverseRecOn with
  | nil =>
    obtain ⟨pre, hpre, hcomplete⟩ := h
    rw [List.prefix_nil.mp hpre] at hcomplete
    exact absurd hcomplete not_complete_nil
  | append_singleton as a ih =>
    by_cases hbefore : Completed k as
    · obtain ⟨pre, b, hpre, hb⟩ := ih hbefore
      exact ⟨pre, b, hpre.trans (List.prefix_append as [a]), hb⟩
    · have hkey : a.key = k := by
        by_contra hkey
        have hsame : copiesOf k (as ++ [a]) = copiesOf k as := by
          rw [copiesOf_snoc, if_neg fun hboth => hkey hboth.1]
        exact hbefore ((completed_snoc_of_same hsame).mp h)
      subst hkey
      exact ⟨as, a, List.prefix_rfl, rfl, emits_isSome.mpr ⟨h, hbefore⟩⟩

/-- A stream that never was complete has not been emitted. -/
lemma emissionsOf_of_not_completed (h : ¬ Completed k as) : emissionsOf k ∅ as = [] := by
  induction as using List.reverseRecOn with
  | nil => rfl
  | append_singleton as a ih =>
    rw [emissionsOf_snoc, ih fun hbefore => h hbefore.snoc, List.nil_append]
    split_ifs with hkey
    · subst hkey
      have hnone : emits as a = none := by
        rw [← Option.not_isSome_iff_eq_none, emits_isSome]
        exact fun hboth => h hboth.1
      rw [hnone]
      rfl
    · rfl

/-- The entry of a stream that was completed stays in the map. -/
lemma Released.not_completed (h : Released as) : ¬ Completed k as := by
  intro hcompleted
  obtain ⟨pre, a, hpre, rfl, hemits⟩ := exists_emits hcompleted
  obtain ⟨s, hs⟩ := takeIn_snoc_eq pre a
  have hnone := h.1 pre a hpre hemits
  rw [hs, OrderedMap.get_insert, if_pos rfl] at hnone
  exact absurd hnone (Option.some_ne_none s)

/-- Completed streams are released in exactly the runs that complete none: the test that decides the
removal reads the opening part after the emission has taken it out. -/
theorem released_iff (as : List (Arrival H)) : Released as ↔ ∀ k, ¬ Completed k as := by
  constructor
  · intro h k
    exact h.not_completed
  · intro hnone
    have hnever : ∀ pre, pre <+: as → ∀ k, ¬ Completed k pre := by
      rintro pre hpre k ⟨l, hl, hcomplete⟩
      exact hnone k ⟨l, hl.trans hpre, hcomplete⟩
    constructor
    · intro pre a hpre hemits
      exact absurd (emits_isSome.mp hemits).1 (hnever _ hpre a.key)
    · intro pre hpre
      have hall : pending pre = started pre := by
        refine Finset.filter_true_of_mem fun k _ => ?_
        rw [emissionsOf_of_not_completed (hnever pre hpre k)]
        rfl
      rw [size_takeIn, hall]

end PartStreamsMap

/-- A proposal with its opening part alone, then the end of its stream: two calls, and the entry
stays. -/
theorem Concrete.emptyProposal_kept : ¬ PartStreamsMap.Released
    [(3, ⟨5, 0, some (.init ⟨1, some 0, none, ⟨0⟩⟩)⟩), ((3, ⟨5, 1, none⟩) : Arrival ℕ)] :=
  fun h => h.not_completed (k := toLex (3, 5)) (by decide)

end HashKinetics
