import HashKinetics.Node.ContentBinding

/-!
# The values a node proposes again

When the engine asks twice for a value of one height and round, the node answers with the value it
built the first time: the first one under its own address in the set under vote.  Values of peers
enter the same set under whatever address they name.  So the answer is a value of the node's own
exactly as long as nothing arrives under its address before it has built a value itself.
-/

namespace HashKinetics

open Foundations

section

variable {H : Type} [LinearOrder H] [HashSuite H] [NodeCodec H] [RootScheme] [TxCodec H]
  [StateCodec H]

/-- The value that a message of a peer brings: a stream that it completes, or a synced value. -/
def AppMsg.arrival (a : HkApp H) : AppMsg H → Option (ProposedValue H)
  | .receivedProposalPart peer part => (a.streams.insertPart peer part).1.map fun parts =>
      let value : HkValue H := .new parts.batch
      ⟨parts.height, parts.round, parts.polRound, parts.proposer, value, parts.fin = some value.id⟩
  | .processSyncedValue height round proposer valueBytes =>
    (NodeCodec.decodeValue valueBytes).map fun value =>
      ⟨height, round, none, proposer, value, true⟩
  | _ => none

namespace HkApp

variable {P : NodeParams H} {a a' : HkApp H} {height : ℕ} {round : Round} {v : HkValue H}

/-- Some value under vote at a height and a round names this node as its proposer. -/
def HoldsOwn (P : NodeParams H) (a : HkApp H) (height : ℕ) (round : Round) : Prop :=
  ∃ w ∈ a.undecided[undecidedKey height round]?.getD [], w.proposer = P.address

omit [HashSuite H] [NodeCodec H] [RootScheme] [TxCodec H] [StateCodec H] in
lemma previouslyBuilt_eq_none_iff :
    a.previouslyBuilt P height round = none ↔ ¬ a.HoldsOwn P height round := by
  simp [previouslyBuilt, HoldsOwn]

omit [HashSuite H] [NodeCodec H] [RootScheme] [TxCodec H] [StateCodec H] in
lemma previouslyBuilt_congr (h : a'.undecided = a.undecided) :
    a'.previouslyBuilt P height round = a.previouslyBuilt P height round := by
  rw [previouslyBuilt, previouslyBuilt, h]

omit [RootScheme] in
lemma undecidedKey_inj {height' : ℕ} {round' : Round}
    (h : undecidedKey height round = undecidedKey height' round') :
    height = height' ∧ round = round' := by
  obtain ⟨hheight, hround⟩ := Prod.mk.inj (toLex.injective h)
  refine ⟨hheight, ?_⟩
  cases round with
  | none =>
    cases round' with
    | none => rfl
    | some r' =>
      simp only [Round.asI64] at hround
      omega
  | some r =>
    cases round' with
    | none =>
      simp only [Round.asI64] at hround
      omega
    | some r' =>
      simp only [Round.asI64, Nat.cast_inj] at hround
      rw [hround]

omit [HashSuite H] [NodeCodec H] [RootScheme] [TxCodec H] [StateCodec H] in
/-- A value that is stored changes the answer only where there was none, and only under the node's
own address. -/
lemma previouslyBuilt_storeUndecided {w : ProposedValue H}
    (h : (a.storeUndecided w).previouslyBuilt P height round = some v) :
    a.previouslyBuilt P height round = some v ∨
      ¬ a.HoldsOwn P height round ∧ w.proposer = P.address ∧ w.height = height ∧
        w.round = round ∧ w.value = v := by
  simp only [previouslyBuilt, storeUndecided, OrderedMap.get_insert] at h
  split at h
  · next hkey =>
    obtain ⟨rfl, rfl⟩ := undecidedKey_inj hkey
    rw [Option.getD_some] at h
    split at h
    · exact .inl h
    · rw [List.find?_append] at h
      cases hfind : (a.undecided[undecidedKey w.height w.round]?.getD []).find?
          fun v => v.proposer = P.address with
      | some u =>
        rw [hfind, Option.some_or] at h
        left
        rw [previouslyBuilt, hfind]
        exact h
      | none =>
        have hnone : a.previouslyBuilt P w.height w.round = none := by
          rw [previouslyBuilt, hfind, Option.map_none]
        rw [hfind, Option.none_or, List.find?_singleton] at h
        split at h
        · next hown =>
          refine .inr ⟨previouslyBuilt_eq_none_iff.mp hnone, of_decide_eq_true hown, rfl, rfl, ?_⟩
          simpa using h
        · simp at h
  · exact .inl h

omit [RootScheme] [TxCodec H] [StateCodec H] in
/-- What a peer's message does to the values under vote is to store what it brings. -/
lemma undecided_receivedProposalPart (a : HkApp H) (peer : ℕ) (part : StreamMessage H) :
    (a.receivedProposalPart peer part).undecided =
      (((AppMsg.receivedProposalPart peer part).arrival a).elim a a.storeUndecided).undecided := by
  simp only [receivedProposalPart, AppMsg.arrival]
  rcases a.streams.insertPart peer part with ⟨_ | parts, m⟩
  · rfl
  · rfl

omit [RootScheme] [TxCodec H] [StateCodec H] in
lemma undecided_processSyncedValue (a : HkApp H) (height : ℕ) (round : Round)
    (proposer : HkAddress H) (valueBytes : List UInt8) :
    (a.processSyncedValue height round proposer valueBytes).undecided =
      (((AppMsg.processSyncedValue height round proposer valueBytes).arrival a).elim a
        a.storeUndecided).undecided := by
  simp only [processSyncedValue, AppMsg.arrival]
  cases (NodeCodec.decodeValue valueBytes : Option (HkValue H)) with
  | none => rfl
  | some value => rfl

omit [HashSuite H] [NodeCodec H] [RootScheme] [TxCodec H] [StateCodec H] in
/-- A commit forgets the values of its height and below, and keeps the others. -/
lemma previouslyBuilt_settled (cert : CommitCertificate H) (value : HkValue H)
    (h : (a.settled P cert value).previouslyBuilt P height round = some v) :
    a.previouslyBuilt P height round = some v := by
  simp only [previouslyBuilt, settled, OrderedMap.get_filter] at h
  unfold previouslyBuilt
  cases hl : a.undecided[undecidedKey height round]? with
  | none => simp [hl] at h
  | some l =>
    rw [hl, Option.filter_some] at h
    split at h
    · exact h
    · simp at h

end HkApp

namespace HkNode

variable {P : NodeParams H} {boot : HkApp H} {msgs : List (AppMsg H)} {n n' : HkNode H}
  {height : ℕ} {round : Round} {v : HkValue H}

/-- Somewhere in the run the node was asked for a value of this height and round while it had none,
and built this one. -/
def Built (P : NodeParams H) (boot : HkApp H) (msgs : List (AppMsg H)) (height : ℕ) (round : Round)
    (v : HkValue H) : Prop :=
  ∃ pre n payload, pre ++ [.getValue height round payload] <+: msgs ∧ Run P boot pre n ∧
    ¬ n.app.HoldsOwn P height round ∧ v = .new payload

/-- Whatever this message of a peer brings under the address of the node, the node holds a value
under its address there already, or has built the same one before. -/
def OwnArrival (P : NodeParams H) (boot : HkApp H) (pre : List (AppMsg H)) (n : HkNode H)
    (msg : AppMsg H) : Prop :=
  ∀ w ∈ msg.arrival n.app, w.proposer = P.address →
    n.app.HoldsOwn P w.height w.round ∨ Built P boot pre w.height w.round w.value

lemma Built.append (h : Built P boot msgs height round v) (msgs' : List (AppMsg H)) :
    Built P boot (msgs ++ msgs') height round v := by
  obtain ⟨pre, n, payload, hpre, hrun, hnone, rfl⟩ := h
  exact ⟨pre, n, payload, hpre.trans (List.prefix_append _ _), hrun, hnone, rfl⟩

/-- Every answer the node would give is a value it built. -/
def AnswersBuilt (P : NodeParams H) (boot : HkApp H) (msgs : List (AppMsg H)) (n : HkNode H) :
    Prop :=
  ∀ height round v, n.app.previouslyBuilt P height round = some v →
    Built P boot msgs height round v

lemma AnswersBuilt.of_undecided (h : AnswersBuilt P boot msgs n) (msg : AppMsg H)
    (heq : n'.app.undecided = n.app.undecided) : AnswersBuilt P boot (msgs ++ [msg]) n' := by
  intro height round v hv
  rw [HkApp.previouslyBuilt_congr heq] at hv
  exact (h height round v hv).append [msg]

/-- A value that arrives from a peer. -/
lemma AnswersBuilt.arrival (h : AnswersBuilt P boot msgs n) {msg : AppMsg H}
    (hown : OwnArrival P boot msgs n msg)
    (heq : n'.app.undecided = ((msg.arrival n.app).elim n.app n.app.storeUndecided).undecided) :
    AnswersBuilt P boot (msgs ++ [msg]) n' := by
  cases harr : msg.arrival n.app with
  | none =>
    rw [harr] at heq
    exact h.of_undecided msg heq
  | some w =>
    rw [harr, Option.elim_some] at heq
    intro height round v hv
    rw [HkApp.previouslyBuilt_congr heq] at hv
    obtain hold | ⟨hnone, haddr, rfl, rfl, rfl⟩ := HkApp.previouslyBuilt_storeUndecided hv
    · exact (h height round v hold).append [msg]
    · obtain hholds | hbuilt := hown w harr haddr
      · exact absurd hholds hnone
      · exact hbuilt.append [msg]

lemma AnswersBuilt.step (h : AnswersBuilt P boot msgs n) (hrun : Run P boot msgs n)
    (hboot : boot.undecided = ∅) {msg : AppMsg H} (hown : OwnArrival P boot msgs n msg)
    (hstep : step P boot n msg = some n') : AnswersBuilt P boot (msgs ++ [msg]) n' := by
  cases msg with
  | startedRound height round =>
    cases hstep
    exact h.of_undecided _ rfl
  | getValue height round payload =>
    cases hstep
    intro height' round' v hv
    unfold HkApp.getValue at hv
    split at hv
    · exact (h height' round' v hv).append _
    · next hnone =>
      obtain hold | ⟨hnone', -, rfl, rfl, rfl⟩ := HkApp.previouslyBuilt_storeUndecided hv
      · exact (h height' round' v hold).append _
      · exact ⟨msgs, n, payload, List.prefix_rfl, hrun, hnone', rfl⟩
  | receivedProposalPart peer part =>
    cases hstep
    exact h.arrival hown (HkApp.undecided_receivedProposalPart _ _ _)
  | processSyncedValue height round proposer valueBytes =>
    cases hstep
    exact h.arrival hown (HkApp.undecided_processSyncedValue _ _ _ _ _)
  | decided cert io =>
    obtain ⟨sb, a, hcommit, rfl⟩ | ⟨e, a, hcommit, rfl⟩ := step_decided hstep
    · obtain ⟨value, a₁, -, happly, -, rfl⟩ := HkApp.commit_eq_ok.mp hcommit
      intro height round v hv
      have hsettled : HkApp.previouslyBuilt P ((a₁.withCerts P cert.height
          (NodeCodec.decodeBatch value.txs)).settled P cert value) height round = some v := by
        rw [← hv, persist_app]
        rfl
      have hcerts : a₁.previouslyBuilt P height round = some v :=
        HkApp.previouslyBuilt_settled cert value hsettled
      rw [HkApp.previouslyBuilt_congr (HkApp.undecided_applyBatchToChain happly)] at hcerts
      exact (h height round v hcerts).append _
    · apply h.of_undecided _
      obtain ⟨rfl, -⟩ | ⟨value, -, happly⟩ := HkApp.commit_eq_err hcommit
      · rfl
      · obtain ⟨-, rfl⟩ | ⟨-, -, rfl⟩ := HkApp.applyBatchToChain_eq_err happly
        · rfl
        · rfl
  | restart =>
    obtain ⟨a, hrestore, rfl⟩ := step_restart hstep
    intro height round v hv
    rw [HkApp.previouslyBuilt_congr (HkApp.undecided_restoreFromStore hrestore),
      HkApp.previouslyBuilt, hboot] at hv
    simp at hv

/-- **A node proposes its own values again.**  In every run of a node in which nothing arrives under
its address for a height and a round before it has built a value there, other than what it has built
itself, the value it answers with is one it built for this height and round. -/
theorem built_of_previouslyBuilt (P : NodeParams H) (chain : State H)
    (validators : HkValidatorSet H) {msgs : List (AppMsg H)} {n : HkNode H}
    (hrun : Run P (.fresh chain validators) msgs n)
    (hown : ∀ pre msg n₀, pre ++ [msg] <+: msgs → Run P (.fresh chain validators) pre n₀ →
      OwnArrival P (.fresh chain validators) pre n₀ msg)
    {height : ℕ} {round : Round} {v : HkValue H}
    (hv : n.app.previouslyBuilt P height round = some v) :
    Built P (.fresh chain validators) msgs height round v := by
  suffices hall : AnswersBuilt P (.fresh chain validators) msgs n from hall height round v hv
  clear hv
  induction hrun with
  | nil =>
    intro height round v hv
    rw [start_eq] at hv
    simp [HkApp.previouslyBuilt, HkApp.fresh] at hv
  | @snoc pre msg n₀ n₁ hpath hstep ih =>
    have hpre := ih fun pre' msg' n' hpre' =>
      hown pre' msg' n' (hpre'.trans (List.prefix_append _ _))
    exact hpre.step hpath rfl (hown pre msg n₀ List.prefix_rfl hpath) hstep

end HkNode

end

/-! ## A value planted by a peer -/

namespace Concrete

/-- The node after some messages, if it still runs. -/
def nodeAfter (msgs : List (AppMsg Digest)) : Option (HkNode Digest) :=
  msgs.foldlM (HkNode.step nodeParams nodeBoot) (HkNode.start nodeParams nodeBoot)

/-- A peer streams a proposal for the first height under some address. -/
def proposalStream (stream : ℕ) (proposer : HkAddress Digest) (payload : List UInt8) :
    List (AppMsg Digest) :=
  [⟨stream, 0, some (.init ⟨1, some 0, none, proposer⟩)⟩, ⟨stream, 1, some (.txBatch payload)⟩,
    ⟨stream, 2, some (.fin (HkValue.new payload : HkValue Digest).id)⟩, ⟨stream, 3, none⟩].map
      (.receivedProposalPart 7)

/-- The proposal names this node as its proposer. -/
def plantedStream : List (AppMsg Digest) := proposalStream 1 nodeParams.address [9]

/-- The node would propose the peer's value as its own although it was never asked to build one. -/
theorem plantedStream_proposed : ∃ n, HkNode.Run nodeParams nodeBoot plantedStream n ∧
    n.app.previouslyBuilt nodeParams 1 (some 0) = some (.new [9]) ∧
    ¬ HkNode.Built nodeParams nodeBoot plantedStream 1 (some 0) (.new [9]) := by
  obtain ⟨n, hn, hbuilt⟩ := (Option.any_eq_true _ _).mp (show (nodeAfter plantedStream).any
    (fun n => n.app.previouslyBuilt nodeParams 1 (some 0) = some (.new [9])) = true by
      decide +kernel)
  refine ⟨n, path_of_foldlM hn, of_decide_eq_true hbuilt, ?_⟩
  rintro ⟨pre, n', payload, hpre, -⟩
  have hmem : AppMsg.getValue 1 (some 0) payload ∈ plantedStream := hpre.subset (by simp)
  simp [plantedStream, proposalStream] at hmem

/-- A peer streams a value of its own, the node is asked for one, and the peer streams it back. -/
def relayedRun : List (AppMsg Digest) :=
  proposalStream 1 ⟨5⟩ [9] ++ .getValue 1 (some 0) emptyBatch ::
    proposalStream 2 nodeParams.address emptyBatch

/-- With a peer's value under vote as well, the node proposes what it built. -/
theorem emptyBatch_proposed : ∃ n, HkNode.Run nodeParams nodeBoot relayedRun n ∧
    (∃ w ∈ n.app.undecided[HkApp.undecidedKey 1 (some 0)]?.getD [], w.value = .new [9]) ∧
    n.app.previouslyBuilt nodeParams 1 (some 0) = some (.new emptyBatch) ∧
    HkNode.Built nodeParams nodeBoot relayedRun 1 (some 0) (.new emptyBatch) := by
  obtain ⟨n, hn, hvalues⟩ := (Option.any_eq_true _ _).mp (show (nodeAfter relayedRun).any
    (fun n => (∃ w ∈ n.app.undecided[HkApp.undecidedKey 1 (some 0)]?.getD [], w.value = .new [9]) ∧
      n.app.previouslyBuilt nodeParams 1 (some 0) = some (.new emptyBatch)) = true by
        decide +kernel)
  obtain ⟨hpeer, hvalue⟩ := of_decide_eq_true hvalues
  have hrun : HkNode.Run nodeParams nodeBoot relayedRun n := path_of_foldlM hn
  refine ⟨n, hrun, hpeer, hvalue,
    HkNode.built_of_previouslyBuilt nodeParams nodeChain nodeSet hrun ?_ hvalue⟩
  have halong : Path.Along (StepOf (HkNode.step nodeParams nodeBoot))
      (HkNode.start nodeParams nodeBoot) relayedRun fun n msg =>
        ∀ w ∈ msg.arrival n.app, w.proposer = nodeParams.address →
          ∃ u ∈ n.app.undecided[HkApp.undecidedKey w.height w.round]?.getD [],
            u.proposer = nodeParams.address := along_of_foldlM (by decide +kernel)
  intro pre msg n₀ hpre hpath w hw haddr
  exact .inl (halong pre msg n₀ hpre hpath w hw haddr)

end Concrete

end HashKinetics
