import HashKinetics.Concrete

/-!
# The signer and its seat

A node signs with the key tree of an epoch, derived from its master seed.  A rotation of its own
root moves the live signer, if the epoch is newer than the one the node has tracked; a set change
never does.  A restart rebuilds the validator set from the image and the blocks behind it, and then
adopts the epoch of the seat.  Signer and seat stay together as long as no admission seats the node
at its first key while its signer has moved on.
-/

namespace HashKinetics

open Foundations

/-- What a node knows of its own keys. -/
structure OwnKeys where
  rootPk : List UInt8
  /-- The public key of the tree of an epoch, from `op_seed`. -/
  opKey : ℕ → List UInt8

/-- A node as far as its signer goes. -/
structure SignerNode (H : Type) where
  validators : HkValidatorSet H
  /-- The epoch of the tree the live signer holds. -/
  signer : ℕ
  currentEpoch : ℕ

namespace SignerNode

variable {H : Type} [HashSuite H] [RootScheme]

/-- Apply one rotation; on replay the epoch is only tracked. -/
def applyRotation (own : OwnKeys) (rules : SetRules) (height : ℕ) (replay : Bool) (n : SignerNode H)
    (cert : RotationCert) : SignerNode H :=
  match n.validators.applyRotation cert (rules.rotationRules height) with
  | .ok newSet =>
    if cert.rootPk = own.rootPk ∧ n.currentEpoch < cert.epoch then
      if replay then { n with validators := newSet, currentEpoch := cert.epoch }
      else { validators := newSet, signer := cert.epoch, currentEpoch := cert.epoch }
    else { n with validators := newSet }
  | .error _ => n

/-- Apply the rotations of a block. -/
def applyRotations (own : OwnKeys) (rules : SetRules) (replay : Bool) (n : SignerNode H)
    (block : ℕ × CertBatch) : SignerNode H :=
  block.2.rotations.foldl (applyRotation own rules block.1 replay) n

/-- Apply the set changes of a block, and the bootstrap re-weight. -/
def applySetChanges (rules : SetRules) (n : SignerNode H) (block : ℕ × CertBatch) : SignerNode H :=
  { n with validators := HkValidatorSet.applySetChanges rules block.1 block.2 n.validators }

/-- What a block does to a node. -/
def applyBlock (own : OwnKeys) (rules : SetRules) (replay : Bool) (n : SignerNode H)
    (block : ℕ × CertBatch) : SignerNode H :=
  (n.applyRotations own rules replay block).applySetChanges rules block

/-- After a restore: adopt the epoch of the seat, if there is one.  The handle reports its first
key. -/
def adoptEpochSigner (own : OwnKeys) (n : SignerNode H) : SignerNode H :=
  match n.validators.findRoot own.rootPk with
  | none => n
  | some v =>
    if own.opKey 0 = v.publicKey then { n with currentEpoch := v.epoch }
    else if own.opKey v.epoch ≠ v.publicKey then { n with signer := v.epoch }
    else { n with signer := v.epoch, currentEpoch := v.epoch }

end SignerNode

/-- A node with its store: the set and the epoch of the last image, and the blocks behind it. -/
structure StoredSigner (H : Type) where
  live : SignerNode H
  image : HkValidatorSet H × ℕ
  log : List (ℕ × CertBatch)

/-- What happens to a node. -/
inductive SignerAct where
  | commit (block : ℕ × CertBatch)
  | snapshot
  /-- Start again; that many blocks of the log are on disk. -/
  | restart (kept : ℕ)

namespace StoredSigner

variable {H : Type} [HashSuite H] [RootScheme]

/-- A node on a genesis set, with its first key. -/
def start (genesis : HkValidatorSet H) : StoredSigner H := ⟨⟨genesis, 0, 0⟩, (genesis, 0), []⟩

def step (own : OwnKeys) (rules : SetRules) (n : StoredSigner H) : SignerAct →
    Option (StoredSigner H)
  | .commit block =>
    some { n with live := n.live.applyBlock own rules false block, log := n.log ++ [block] }
  | .snapshot => some { n with image := (n.live.validators, n.live.currentEpoch), log := [] }
  | .restart kept =>
    let onDisk := n.log.take kept
    let restored := onDisk.foldl (SignerNode.applyBlock own rules true) ⟨n.image.1, 0, n.image.2⟩
    some { n with live := restored.adoptEpochSigner own, log := onDisk }

end StoredSigner

/-! ## Certificates -/

namespace SignerNode

variable {H : Type} [HashSuite H] [RootScheme]

/-- What one certificate does to a live node. -/
def applyEvent (own : OwnKeys) (rules : SetRules) (n : SignerNode H) (l : ℕ × SetEvent) :
    SignerNode H :=
  match l.2 with
  | .rotation cert => n.applyRotation own rules l.1 false cert
  | _ => { n with validators := HkValidatorSet.applyEvent rules n.validators l }

/-- The certificate leaves the signer with its seat: an accepted rotation of the node's root is
newer than the tracked epoch, one of another root is not at the address of the node's seat, and an
admission that seats the node finds its signer at the first key. -/
def Fits (own : OwnKeys) (rules : SetRules) (n : SignerNode H) (l : ℕ × SetEvent) : Prop :=
  match l.2 with
  | .rotation cert =>
    (n.validators.applyRotation cert (rules.rotationRules l.1)).toBool = true →
      (cert.rootPk = own.rootPk → n.currentEpoch < cert.epoch) ∧
      (cert.rootPk ≠ own.rootPk → ∀ target ∈ n.validators.findRoot cert.rootPk,
        ∀ v ∈ n.validators.validators, v.rootPk = own.rootPk → v.address ≠ target.address)
  | .setChange cert => ¬ n.validators.Seated own.rootPk →
      (HkValidatorSet.change rules l.1 n.validators cert).Seated own.rootPk → n.signer = 0
  | .bootstrap => True

instance (own : OwnKeys) (rules : SetRules) (n : SignerNode H) :
    (l : ℕ × SetEvent) → Decidable (n.Fits own rules l)
  | (_, .rotation _) => inferInstanceAs (Decidable (_ = true → (_ → _) ∧ (_ → _)))
  | (_, .setChange _) => inferInstanceAs (Decidable (¬ _ → _ → _))
  | (_, .bootstrap) => .isTrue trivial

/-- Every certificate of a list does, each on the node the earlier ones left. -/
def AllFit (own : OwnKeys) (rules : SetRules) : SignerNode H → List (ℕ × SetEvent) → Prop
  | _, [] => True
  | n, l :: ls => n.Fits own rules l ∧ AllFit own rules (n.applyEvent own rules l) ls

instance decidableAllFit (own : OwnKeys) (rules : SetRules) :
    (n : SignerNode H) → (ls : List (ℕ × SetEvent)) → Decidable (n.AllFit own rules ls)
  | _, [] => .isTrue trivial
  | n, l :: ls =>
    have := decidableAllFit own rules (n.applyEvent own rules l) ls
    inferInstanceAs (Decidable (_ ∧ _))

end SignerNode

/-- A rotation of the root is issued from `op_seed`, and an admission of it names the first key. -/
def OwnKeys.Issued (own : OwnKeys) : ℕ × SetEvent → Prop
  | (_, .rotation cert) => cert.rootPk = own.rootPk → cert.newOpPk = own.opKey cert.epoch
  | (_, .setChange cert) => ∀ pk power, cert.body.change = .admitSeat own.rootPk pk power →
    pk = own.opKey 0
  | (_, .bootstrap) => True

namespace SignerNode

variable {H : Type} [HashSuite H] [RootScheme] {own : OwnKeys} {rules : SetRules} {n : SignerNode H}

/-- A block does to the set what it does on every node. -/
lemma validators_applyBlock (replay : Bool) (n : SignerNode H) (block : ℕ × CertBatch) :
    (n.applyBlock own rules replay block).validators =
      HkValidatorSet.commitBlock rules n.validators block := by
  have hrotations : ∀ (certs : List RotationCert) (n : SignerNode H),
      (certs.foldl (applyRotation own rules block.1 replay) n).validators =
        certs.foldl (HkValidatorSet.rotate rules block.1) n.validators := by
    intro certs
    induction certs with
    | nil => exact fun _ => rfl
    | cons cert certs ih =>
      intro n
      rw [List.foldl_cons, ih, List.foldl_cons]
      congr 1
      unfold applyRotation HkValidatorSet.rotate
      cases n.validators.applyRotation cert (rules.rotationRules block.1) with
      | error e => rfl
      | ok newSet => split_ifs <;> rfl
  simp only [applyBlock, applySetChanges, applyRotations, hrotations]
  rfl

/-- A block on a live node is the run of its certificates. -/
lemma applyBlock_eq_foldl (n : SignerNode H) (block : ℕ × CertBatch) :
    n.applyBlock own rules false block =
      (HkValidatorSet.blockEvents block).foldl (applyEvent own rules) n := by
  have hrest : ∀ (evs : List (ℕ × SetEvent)) (n : SignerNode H),
    (∀ l ∈ evs, ∀ cert, l.2 ≠ .rotation cert) →
      evs.foldl (applyEvent own rules) n =
        { n with validators := HkValidatorSet.runEvents rules n.validators evs } := by
    intro evs
    induction evs with
    | nil => exact fun _ _ => rfl
    | cons l evs ih =>
      intro n hno
      have hl : n.applyEvent own rules l =
          { n with validators := HkValidatorSet.applyEvent rules n.validators l } := by
        unfold applyEvent
        split
        next cert hcert => exact absurd hcert (hno l (by simp) cert)
        next => rfl
      rw [List.foldl_cons, ih _ fun l' hl' => hno l' (List.mem_cons_of_mem _ hl'), hl]
      rfl
  simp only [HkValidatorSet.blockEvents, List.append_assoc]
  rw [List.foldl_append, List.foldl_map, hrest]
  · simp only [applyBlock, applySetChanges, applyRotations, HkValidatorSet.applySetChanges,
      HkValidatorSet.runEvents, List.foldl_append, List.foldl_map, List.foldl_cons, List.foldl_nil,
      HkValidatorSet.applyEvent]
    rfl
  · intro l hl cert
    simp only [List.mem_append, List.mem_map, List.mem_singleton] at hl
    obtain ⟨c, -, rfl⟩ | rfl := hl
    · intro h
      cases h
    · intro h
      cases h

/-! ## Seats of the node -/

/-- The node's seats in a set hold the key of one epoch, at the address of its first key. -/
def OwnSeats (own : OwnKeys) (s : HkValidatorSet H) : Prop :=
  ∃ e, ∀ v ∈ s, v.rootPk = own.rootPk →
    v.epoch = e ∧ v.publicKey = own.opKey e ∧ v.address = .fromPublicKey (own.opKey 0)

/-- The node's seats hold the key of its live signer. -/
def Follows (own : OwnKeys) (n : SignerNode H) : Prop :=
  ∀ v ∈ n.validators, v.rootPk = own.rootPk → v.publicKey = own.opKey n.signer

/-- A seat after a set change or the re-weight: one that was there, with its key, or the admitted
one. -/
lemma seat_of_mem {s s' : HkValidatorSet H} {height : ℕ} {ev : SetEvent}
    (h : HkValidatorSet.Step rules s height ev s') (hno : ∀ cert, ev ≠ .rotation cert)
    {w : HkValidator H} (hw : w ∈ s') :
    (∃ v ∈ s, v.rootPk = w.rootPk ∧ v.publicKey = w.publicKey ∧ v.epoch = w.epoch ∧
      v.address = w.address) ∨
    ∃ cert pk power, ev = .setChange cert ∧ cert.body.change = .admitSeat w.rootPk pk power ∧
      ¬ s.Seated w.rootPk ∧ w = .new w.rootPk pk power := by
  have hrepower : ∀ {p : HkValidator H → Prop} [DecidablePred p]
    {power : ℕ}, w ∈ s.repower p power →
      ∃ v ∈ s, v.rootPk = w.rootPk ∧ v.publicKey = w.publicKey ∧ v.epoch = w.epoch ∧
        v.address = w.address := by
    intro p _ power hw
    obtain ⟨v, hv, rfl⟩ := HkValidatorSet.mem_repower.mp hw
    exact ⟨v, hv, by split <;> exact ⟨rfl, rfl, rfl, rfl⟩⟩
  cases h with
  | @rotation cert => exact absurd rfl (hno cert)
  | @change cert _ hpass heff =>
    generalize hchange : cert.body.change = ch at heff
    cases heff with
    | @admitSeat root pk power hseat haddr =>
      rcases HkValidatorSet.mem_push.mp hw with hw | rfl
      · exact .inl ⟨w, hw, rfl, rfl, rfl, rfl⟩
      · exact .inr ⟨cert, pk, power, rfl, hchange, hseat, rfl⟩
    | remove hseat hne =>
      have hold := HkValidatorSet.mem_without.mp (HkValidatorSet.mem_new.mp hw)
      exact .inl ⟨w, hold.1, rfl, rfl, rfl, rfl⟩
    | setPower => exact .inl (hrepower hw)
  | bootstrap => exact .inl (hrepower hw)

/-- A rotation that fits leaves the signer with its seat. -/
lemma follows_applyRotation {height : ℕ} {cert : RotationCert} (hown : OwnSeats own n.validators)
    (hn : n.Follows own) (hfits : n.Fits own rules (height, .rotation cert))
    (hissued : own.Issued (height, .rotation cert)) :
    OwnSeats own (n.applyRotation own rules height false cert).validators ∧
      (n.applyRotation own rules height false cert).Follows own := by
  unfold applyRotation
  cases happly : n.validators.applyRotation cert (rules.rotationRules height) with
  | error e => exact ⟨hown, hn⟩
  | ok newSet =>
    obtain ⟨hnewer, hforeign⟩ := hfits (by rw [happly]; rfl)
    obtain ⟨target, hfind, -, rfl⟩ := HkValidatorSet.applyRotation_eq_ok happly
    obtain ⟨htarget, hroot⟩ := HkValidatorSet.mem_of_findRoot hfind
    obtain ⟨e, hseats⟩ := hown
    -- a seat of the node after the rotation, and the one it comes from
    have hfrom : ∀ w ∈ n.validators.rekey target.address cert.newOpPk cert.epoch,
        w.rootPk = own.rootPk → ∃ v ∈ n.validators, v.rootPk = own.rootPk ∧
          (if v.address = target.address then
            { v with publicKey := cert.newOpPk, epoch := cert.epoch } else v) = w := by
      intro w hw hwroot
      obtain ⟨v, hv, rfl⟩ := HkValidatorSet.mem_mapSeats.mp hw
      exact ⟨v, hv, by rw [← hwroot]; split <;> rfl, rfl⟩
    by_cases hmine : cert.rootPk = own.rootPk
    · have hcond : cert.rootPk = own.rootPk ∧ n.currentEpoch < cert.epoch := ⟨hmine, hnewer hmine⟩
      simp only [if_pos hcond, Bool.false_eq_true, if_false]
      -- all seats of the node are at the address of the rotated one
      have hkey : ∀ w ∈ n.validators.rekey target.address cert.newOpPk cert.epoch,
          w.rootPk = own.rootPk → w.epoch = cert.epoch ∧ w.publicKey = own.opKey cert.epoch ∧
            w.address = .fromPublicKey (own.opKey 0) := by
        intro w hw hwroot
        obtain ⟨v, hv, hvroot, rfl⟩ := hfrom w hw hwroot
        have haddr : v.address = target.address :=
          (hseats v hv hvroot).2.2.trans (hseats target htarget (hroot.trans hmine)).2.2.symm
        rw [if_pos haddr]
        exact ⟨rfl, hissued hmine, (hseats v hv hvroot).2.2⟩
      exact ⟨⟨cert.epoch, hkey⟩, fun w hw hwroot => (hkey w hw hwroot).2.1⟩
    · have hcond : ¬ (cert.rootPk = own.rootPk ∧ n.currentEpoch < cert.epoch) := fun h => hmine h.1
      simp only [if_neg hcond]
      -- the seats of the node are elsewhere
      have hsame : ∀ w ∈ n.validators.rekey target.address cert.newOpPk cert.epoch,
          w.rootPk = own.rootPk → w ∈ n.validators := by
        intro w hw hwroot
        obtain ⟨v, hv, hvroot, rfl⟩ := hfrom w hw hwroot
        rw [if_neg (hforeign hmine target hfind v hv hvroot)]
        exact hv
      exact ⟨⟨e, fun w hw hwroot => hseats w (hsame w hw hwroot) hwroot⟩,
        fun w hw hwroot => hn w (hsame w hw hwroot) hwroot⟩

/-- A certificate that fits leaves the signer with its seat. -/
lemma follows_applyEvent {l : ℕ × SetEvent} (hown : OwnSeats own n.validators) (hn : n.Follows own)
    (hfits : n.Fits own rules l) (hissued : own.Issued l) :
    OwnSeats own (n.applyEvent own rules l).validators ∧
      (n.applyEvent own rules l).Follows own := by
  obtain ⟨height, ev⟩ := l
  by_cases hrot : ∃ cert, ev = .rotation cert
  · obtain ⟨cert, rfl⟩ := hrot
    exact follows_applyRotation hown hn hfits hissued
  have hno : ∀ cert, ev ≠ .rotation cert := fun cert h => hrot ⟨cert, h⟩
  have heq : n.applyEvent own rules (height, ev) =
      { n with validators := HkValidatorSet.applyEvent rules n.validators (height, ev) } := by
    unfold applyEvent
    split
    next cert hcert => exact absurd hcert (hno cert)
    next => rfl
  rw [heq]
  rcases HkValidatorSet.applyEvent_cases rules n.validators (height, ev) with hsame | hstep
  · rw [hsame]
    exact ⟨hown, hn⟩
  obtain ⟨e, hseats⟩ := hown
  by_cases hseated : n.validators.Seated own.rootPk
  · -- the seats of the node are those it had
    have hold : ∀ w ∈ HkValidatorSet.applyEvent rules n.validators (height, ev),
        w.rootPk = own.rootPk → (w.epoch = e ∧ w.publicKey = own.opKey e ∧
          w.address = .fromPublicKey (own.opKey 0)) ∧ w.publicKey = own.opKey n.signer := by
      intro w hw hwroot
      rcases seat_of_mem hstep hno hw with ⟨v, hv, hvroot, hpk, hepoch, haddr⟩ |
        ⟨_, _, _, _, _, hunseated, -⟩
      · rw [← hpk, ← hepoch, ← haddr]
        exact ⟨hseats v hv (hvroot.trans hwroot), hn v hv (hvroot.trans hwroot)⟩
      · rw [hwroot] at hunseated
        exact absurd hseated hunseated
    exact ⟨⟨e, fun w hw hwroot => (hold w hw hwroot).1⟩, fun w hw hwroot => (hold w hw hwroot).2⟩
  · -- a seat of the node is the one it is admitted to, and its signer is at the first key
    have hnew : ∀ w ∈ HkValidatorSet.applyEvent rules n.validators (height, ev),
        w.rootPk = own.rootPk → (w.epoch = 0 ∧ w.publicKey = own.opKey 0 ∧
          w.address = .fromPublicKey (own.opKey 0)) ∧ n.signer = 0 := by
      intro w hw hwroot
      rcases seat_of_mem hstep hno hw with ⟨v, hv, hvroot, -⟩ |
        ⟨cert, pk, power, rfl, hadmission, -, hnew⟩
      · exact absurd ⟨v, hv, hvroot.trans hwroot⟩ hseated
      · rw [hwroot] at hadmission hnew
        have hpk : pk = own.opKey 0 := hissued pk power hadmission
        rw [hnew, hpk]
        exact ⟨⟨rfl, rfl, rfl⟩, hfits hseated ⟨w, hw, hwroot⟩⟩
    refine ⟨⟨0, fun w hw hwroot => (hnew w hw hwroot).1⟩, fun w hw hwroot => ?_⟩
    rw [show w.publicKey = own.opKey 0 from (hnew w hw hwroot).1.2.1, (hnew w hw hwroot).2]

/-- So does a list of them. -/
lemma follows_foldl {ls : List (ℕ × SetEvent)} (hown : OwnSeats own n.validators)
    (hn : n.Follows own) (hfits : n.AllFit own rules ls) (hissued : ∀ l ∈ ls, own.Issued l) :
    OwnSeats own (ls.foldl (applyEvent own rules) n).validators ∧
      (ls.foldl (applyEvent own rules) n).Follows own := by
  induction ls generalizing n with
  | nil => exact ⟨hown, hn⟩
  | cons l ls ih =>
    obtain ⟨hown', hn'⟩ := follows_applyEvent hown hn hfits.1 (hissued l (by simp))
    exact ih hown' hn' hfits.2 fun l' hl' => hissued l' (List.mem_cons_of_mem _ hl')

omit [RootScheme] in
/-- A restart leaves the signer with its seat. -/
lemma follows_adoptEpochSigner (hown : OwnSeats own n.validators) (hzero : n.signer = 0) :
    (n.adoptEpochSigner own).Follows own := by
  obtain ⟨e, hseats⟩ := hown
  unfold adoptEpochSigner
  split
  next hnone =>
    intro v hv hroot
    exact absurd ⟨v, hv, hroot⟩ (HkValidatorSet.findRoot_eq_none.mp hnone)
  next v hfind =>
    obtain ⟨hv, hroot⟩ := HkValidatorSet.mem_of_findRoot hfind
    obtain ⟨hepoch, hkey, -⟩ := hseats v hv hroot
    split_ifs with hfirst hother
    · intro w hw hwroot
      rw [(hseats w hw hwroot).2.1, ← hkey, ← hfirst]
      exact congrArg own.opKey hzero.symm
    · exact absurd (by rw [hepoch, hkey]) hother
    · intro w hw hwroot
      rw [(hseats w hw hwroot).2.1, ← hepoch]

omit [HashSuite H] [RootScheme] in
lemma validators_adoptEpochSigner (own : OwnKeys) (n : SignerNode H) :
    (n.adoptEpochSigner own).validators = n.validators := by
  unfold adoptEpochSigner
  split
  · rfl
  · split_ifs <;> rfl

/-- A replay only tracks epochs. -/
lemma signer_applyBlock_replay (n : SignerNode H) (block : ℕ × CertBatch) :
    (n.applyBlock own rules true block).signer = n.signer := by
  have hrotations : ∀ (certs : List RotationCert) (n : SignerNode H),
      (certs.foldl (applyRotation own rules block.1 true) n).signer = n.signer := by
    intro certs
    induction certs with
    | nil => exact fun _ => rfl
    | cons cert certs ih =>
      intro n
      rw [List.foldl_cons, ih]
      unfold applyRotation
      cases n.validators.applyRotation cert (rules.rotationRules block.1) with
      | error e => rfl
      | ok newSet =>
        simp only [if_true]
        split <;> rfl
  exact hrotations block.2.rotations n

/-- A replay of the log rebuilds the set and leaves the first signer in place. -/
lemma replay_eq (own : OwnKeys) (rules : SetRules) (blocks : List (ℕ × CertBatch))
    (n : SignerNode H) :
    (blocks.foldl (applyBlock own rules true) n).validators =
        HkValidatorSet.runBlocks rules n.validators blocks ∧
      (blocks.foldl (applyBlock own rules true) n).signer = n.signer := by
  induction blocks generalizing n with
  | nil => exact ⟨rfl, rfl⟩
  | cons block blocks ih =>
    rw [List.foldl_cons, (ih _).1, (ih _).2, validators_applyBlock, signer_applyBlock_replay]
    exact ⟨rfl, rfl⟩

end SignerNode

/-! ## Runs -/

namespace StoredSigner

variable {H : Type} [HashSuite H] [RootScheme] {own : OwnKeys} {rules : SetRules}
  {n n' : StoredSigner H} {act : SignerAct}

/-- Every certificate of a block that is committed fits. -/
def Fits (own : OwnKeys) (rules : SetRules) (n : StoredSigner H) : SignerAct → Prop
  | .commit block => n.live.AllFit own rules (HkValidatorSet.blockEvents block)
  | _ => True

instance (own : OwnKeys) (rules : SetRules) (n : StoredSigner H) :
    (act : SignerAct) → Decidable (n.Fits own rules act)
  | .commit _ => inferInstanceAs (Decidable (SignerNode.AllFit ..))
  | .snapshot | .restart _ => .isTrue trivial

/-- The set is the one the store leads to, every point of the log seats the node at its own keys,
and the live signer is with its seat. -/
structure Kept (own : OwnKeys) (rules : SetRules) (n : StoredSigner H) : Prop where
  same : n.live.validators = HkValidatorSet.runBlocks rules n.image.1 n.log
  seats : ∀ k, SignerNode.OwnSeats own (HkValidatorSet.runBlocks rules n.image.1 (n.log.take k))
  follows : n.live.Follows own

lemma Kept.step (h : n.Kept own rules) (hfits : n.Fits own rules act)
    (hissued : ∀ block, act = .commit block → ∀ l ∈ HkValidatorSet.blockEvents block, own.Issued l)
    (hstep : n.step own rules act = some n') : n'.Kept own rules := by
  have hseats : SignerNode.OwnSeats own n.live.validators := by
    have hall := h.seats n.log.length
    rwa [List.take_length, ← h.same] at hall
  cases act with
  | commit block =>
    cases hstep
    obtain ⟨hown, hfollows⟩ := SignerNode.follows_foldl hseats h.follows hfits (hissued block rfl)
    rw [← SignerNode.applyBlock_eq_foldl] at hown hfollows
    have hset : (n.live.applyBlock own rules false block).validators =
        HkValidatorSet.runBlocks rules n.image.1 (n.log ++ [block]) := by
      rw [SignerNode.validators_applyBlock, h.same]
      simp [HkValidatorSet.runBlocks]
    refine ⟨hset, fun k => ?_, hfollows⟩
    simp only
    rcases Nat.lt_or_ge n.log.length k with hlt | hge
    · rw [List.take_of_length_le (by simpa using hlt), ← hset]
      exact hown
    · rw [List.take_append_of_le_length hge]
      exact h.seats k
  | snapshot =>
    cases hstep
    refine ⟨rfl, fun k => ?_, h.follows⟩
    simpa [HkValidatorSet.runBlocks] using hseats
  | restart kept =>
    cases hstep
    obtain ⟨hset, hsigner⟩ := SignerNode.replay_eq own rules (n.log.take kept)
      ⟨n.image.1, 0, n.image.2⟩
    refine ⟨?_, fun k => ?_, ?_⟩
    · simp only [SignerNode.validators_adoptEpochSigner, hset]
    · simp only [List.take_take]
      exact h.seats _
    · refine SignerNode.follows_adoptEpochSigner ?_ hsigner
      rw [hset]
      exact h.seats kept

/-- At genesis the node holds no seat, or one with its first key. -/
lemma kept_start {gvs : List GenesisValidator} {genesis : HkValidatorSet H}
    (hg : genesisValidatorSet gvs = .ok genesis)
    (hkey : ∀ g ∈ gvs, g.rootPk = own.rootPk → g.publicKey = own.opKey 0) :
    (start genesis).Kept own rules := by
  have hseats : ∀ v ∈ genesis, v.rootPk = own.rootPk →
      v.epoch = 0 ∧ v.publicKey = own.opKey 0 ∧ v.address = .fromPublicKey (own.opKey 0) := by
    intro v hv hroot
    unfold genesisValidatorSet at hg
    simp only at hg
    split at hg
    · cases hg
    · split_ifs at hg
      cases hg
      obtain ⟨g, hmem, rfl⟩ := List.mem_map.mp (HkValidatorSet.mem_new.mp hv)
      have hpk : g.publicKey = own.opKey 0 := hkey g hmem hroot
      exact ⟨rfl, hpk, congrArg HkAddress.fromPublicKey hpk⟩
  refine ⟨rfl, fun k => ⟨0, ?_⟩, fun v hv hroot => (hseats v hv hroot).2.1⟩
  simpa [start, HkValidatorSet.runBlocks] using hseats

/-- In every run of commits, images and restarts, of which each committed certificate about the
node's root is issued from its keys and none parts the signer from its seat, the live signer has the
key that is seated for the node's root. -/
theorem signer_follows_seat (own : OwnKeys) (rules : SetRules) {gvs : List GenesisValidator}
    {genesis : HkValidatorSet H} (hg : genesisValidatorSet gvs = .ok genesis)
    (hkey : ∀ g ∈ gvs, g.rootPk = own.rootPk → g.publicKey = own.opKey 0) {acts : List SignerAct}
    (hissued : ∀ block, .commit block ∈ acts → ∀ l ∈ HkValidatorSet.blockEvents block, own.Issued l)
    (hrun : Path (StepOf (step own rules)) (start genesis) acts n)
    (hfits : Path.Along (StepOf (step own rules)) (start genesis) acts (Fits own rules))
    {seat : HkValidator H} (hseat : n.live.validators.findRoot own.rootPk = some seat) :
    own.opKey n.live.signer = seat.publicKey := by
  have hcond : Path.Along (StepOf (step own rules)) (start genesis) acts fun n act =>
      act ∈ acts ∧ n.Fits own rules act :=
    fun pre act n hpre hpath => ⟨hpre.subset (by simp), hfits pre act n hpre hpath⟩
  have hkept : n.Kept own rules := by
    refine hrun.invariant_along (I := fun _ n => n.Kept own rules) hcond (kept_start hg hkey) ?_
    rintro _ act n n' hn ⟨hact, hfit⟩ hstep
    refine hn.step hfit ?_ hstep
    rintro block rfl
    exact hissued block hact
  obtain ⟨hmem, hroot⟩ := HkValidatorSet.mem_of_findRoot hseat
  exact (hkept.follows seat hmem hroot).symm

end StoredSigner

/-! ## A node that is seated again -/

namespace Concrete

/-- The keys of the newcomer. -/
def newcomerKeys : OwnKeys := ⟨rootOf 2, fun e => [2, UInt8.ofNat (2 + e)]⟩

/-- The newcomer is seated, rotates its key, is unseated and is seated again: its signer stays at
the rotated key, its seat has the first one. -/
theorem reseated_signer_apart : ∃ n seat,
    Path (StepOf (StoredSigner.step newcomerKeys setRules)) (.start foundingSet)
      ((reseating.take 4).map .commit) n ∧
    n.live.validators.findRoot newcomerKeys.rootPk = some seat ∧
    seat.publicKey = newcomerKeys.opKey 0 ∧ newcomerKeys.opKey n.live.signer =
      newcomerKeys.opKey 1 ∧
    newcomerKeys.opKey n.live.signer ≠ seat.publicKey := by
  obtain ⟨n, hn, hprop⟩ := (Option.any_eq_true _ _).mp
    (show (((reseating.take 4).map .commit).foldlM (StoredSigner.step newcomerKeys setRules)
        (.start foundingSet)).any (fun n => (n.live.validators.findRoot newcomerKeys.rootPk).any
          (fun seat => seat.publicKey = newcomerKeys.opKey 0 ∧
            newcomerKeys.opKey n.live.signer = newcomerKeys.opKey 1)) = true by decide +kernel)
  obtain ⟨seat, hseat, hkeys⟩ := (Option.any_eq_true _ _).mp hprop
  obtain ⟨hfirst, hsecond⟩ := of_decide_eq_true hkeys
  refine ⟨n, seat, path_of_foldlM hn, hseat, hfirst, hsecond, ?_⟩
  rw [hfirst, hsecond]
  decide

/-- A run in which the newcomer is seated, rotates its key and restarts twice. -/
def rotatedRun : List SignerAct :=
  [.commit (1, ⟨[], [admission]⟩), .restart 1, .commit (2, ⟨[firstRotation], []⟩), .snapshot,
    .restart 0]

lemma issued_rotatedRun : ∀ block, .commit block ∈ rotatedRun →
    ∀ l ∈ HkValidatorSet.blockEvents block, newcomerKeys.Issued l := by
  intro block hblock l hl
  simp only [rotatedRun, List.mem_cons, SignerAct.commit.injEq, reduceCtorEq, List.not_mem_nil,
    or_false, false_or] at hblock
  obtain rfl | rfl := hblock
  · simp only [HkValidatorSet.blockEvents, List.map_nil, List.map_cons, List.nil_append,
      List.cons_append, List.mem_cons, List.not_mem_nil, or_false] at hl
    obtain rfl | rfl := hl
    · intro pk power hadmission
      exact ((SetChange.admitSeat.inj hadmission).2.1).symm
    · trivial
  · simp only [HkValidatorSet.blockEvents, List.map_nil, List.map_cons, List.nil_append,
      List.cons_append, List.mem_cons, List.not_mem_nil, or_false] at hl
    obtain rfl | rfl := hl
    · exact fun _ => rfl
    · trivial

/-- Its signer follows its seat. -/
theorem rotatedRun_signer : ∃ n seat,
    Path (StepOf (StoredSigner.step newcomerKeys setRules)) (.start foundingSet) rotatedRun n ∧
    n.live.validators.findRoot newcomerKeys.rootPk = some seat ∧
    newcomerKeys.opKey n.live.signer = seat.publicKey := by
  obtain ⟨n, hn, hprop⟩ := (Option.any_eq_true _ _).mp
    (show (rotatedRun.foldlM (StoredSigner.step newcomerKeys setRules) (.start foundingSet)).any
      (fun n => (n.live.validators.findRoot newcomerKeys.rootPk).isSome) = true by decide +kernel)
  obtain ⟨seat, hseat⟩ := Option.isSome_iff_exists.mp hprop
  have hrun := path_of_foldlM hn
  have hfits : Path.Along (StepOf (StoredSigner.step newcomerKeys setRules)) (.start foundingSet)
      rotatedRun (StoredSigner.Fits newcomerKeys setRules) := along_of_foldlM (by decide +kernel)
  refine ⟨n, seat, hrun, hseat, ?_⟩
  exact StoredSigner.signer_follows_seat newcomerKeys setRules genesis_founders (by decide)
    issued_rotatedRun hrun hfits hseat

end Concrete

end HashKinetics
