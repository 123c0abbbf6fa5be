import HashKinetics.Primitives
import HashKinetics.Foundations.Transition

/-!
# The stateful consensus signer

A hash-based signature key signs once with each of its leaves, so its position has to survive every
failure.  `HashSigner.sign` writes the advanced position to a file before it releases a signature,
and `HashSigner.attachPersistenceWithFloor` resumes at the highest position it has any evidence of.

The compressed private key is the eight big-endian bytes of its leaf counter followed by its
parameters and its seed; the state file is the eight little-endian bytes of the signer's own counter
followed by the compressed key.  The signatures themselves come from the LMS library, which is a
parameter here up to its position: a session signs with the leaf its counter names and moves the
counter by one, or wipes the key after the last leaf.  Its cache of tree nodes is left out, since it
changes how fast a signature is made and not which.
-/

namespace HashKinetics

open Foundations

namespace HashSig

/-! ## The library -/

/-- What the signer takes from the LMS library: the height of the trees together, the parameters and
the seed of the key, which keys it can open, and the signatures it makes. -/
structure Lms where
  height : ℕ
  height_le : height ≤ 63
  body : List UInt8
  opens : List UInt8 → Bool
  signs : List UInt8 → List UInt8 → Option (List UInt8)

/-- The signatures that a key can make. -/
def Lms.capacity (lms : Lms) : ℕ := 2 ^ lms.height

lemma Lms.capacity_le (lms : Lms) : lms.capacity ≤ 2 ^ 63 :=
  Nat.pow_le_pow_right (by decide) lms.height_le

/-- A signature and the leaf it was made with. -/
structure Signature where
  leaf : ℕ
  bytes : List UInt8

/-- The counter of a compressed key. -/
def stateCount (state : List UInt8) : Option ℕ :=
  if 8 ≤ state.length then some (ofBeBytes (state.take 8)) else none

/-- The same key at another position. -/
def stateAt (state : List UInt8) (count : ℕ) : List UInt8 :=
  if 8 ≤ state.length then beBytes count ++ state.drop 8 else state

/-- The file: the signer's counter, then the compressed key. -/
def encodeBlob (used : ℕ) (state : List UInt8) : List UInt8 := leBytes used ++ state

/-- `HssSigningSession`: the committed key, and the key after a signature that is not committed
yet. -/
structure Session where
  rfc : List UInt8
  pending : Option (List UInt8)

namespace Session

/-- The key after one more signature; after the last leaf it is wiped. -/
def increment (lms : Lms) (state : List UInt8) (count : ℕ) : List UInt8 :=
  if lms.capacity - 1 ≤ count then List.replicate state.length 0 else stateAt state (count + 1)

/-- Sign with the leaf that the counter names. -/
def sign (lms : Lms) (msg : List UInt8) (s : Session) : Option (Signature × Session) :=
  if s.pending.isSome then none
  else
    match stateCount s.rfc, lms.signs s.rfc msg with
    | some count, some bytes =>
      some (⟨count % lms.capacity, bytes⟩, { s with pending := some (increment lms s.rfc count) })
    | _, _ => none

/-- Adopt the pending key. -/
def commit (s : Session) : Session :=
  match s.pending with
  | some next => ⟨next, none⟩
  | none => s

/-- Forget the pending key. -/
def rollback (s : Session) : Session := { s with pending := none }

end Session

/-! ## The signer -/

/-- `HashSigner`; `persist` says whether a state file is attached. -/
structure HashSigner where
  state : List UInt8
  used : ℕ
  capacity : ℕ
  persist : Bool
  session : Option Session

/-- How the atomic write of the state file ends. -/
inductive WriteOutcome where
  | notWritten
  | writtenButFailed
  | written
  deriving DecidableEq

namespace HashSigner

/-- A fresh key. -/
def generate (lms : Lms) : HashSigner := ⟨beBytes 0 ++ lms.body, 0, lms.capacity, false, none⟩

/-- Signatures left. -/
def remaining (s : HashSigner) : ℕ := s.capacity - s.used

/-- Attach the state file and resume at the highest of the file's counter, the counter inside its
key, the floor and the position in memory. -/
def attachPersistenceWithFloor (floor : ℕ) (file : Option (List UInt8)) (s : HashSigner) :
    HashSigner :=
  let attached (base : List UInt8) (resume : ℕ) : HashSigner :=
    { s with state := stateAt base resume, used := resume, session := none, persist := true }
  match file with
  | some blob =>
    if 8 ≤ blob.length then
      let state := blob.drop 8
      attached state (max (max (max s.used floor) (ofLeBytes (blob.take 8)))
        ((stateCount state).getD 0))
    else attached s.state (max s.used floor)
  | none => attached s.state (max s.used floor)

/-- The session, opened on the current key if there is none. -/
def opened (lms : Lms) (s : HashSigner) : Option Session :=
  match s.session with
  | some session => some session
  | none => if lms.opens s.state then some ⟨s.state, none⟩ else none

/-- Release the signature: the session commits and the signer adopts the advanced key. -/
def adopt (s : HashSigner) (session : Session) (next : List UInt8) : HashSigner :=
  { s with state := next, used := s.used + 1, session := some session.commit }

/-- Sign: advance the session, write the advanced position, and only then adopt it and release the
signature.  The results are the released signature, the signer, and the file. -/
def sign (lms : Lms) (msg : List UInt8) (w : WriteOutcome) (s : HashSigner)
    (file : Option (List UInt8)) : Option Signature × HashSigner × Option (List UInt8) :=
  if s.remaining = 0 then (none, s, file)
  else
    match s.opened lms with
    | none => (none, s, file)
    | some session =>
      match session.sign lms msg with
      | none => (none, { s with session := none }, file)
      | some (sig, session') =>
        match session'.pending with
        | none => (none, { s with session := some session' }, file)
        | some next =>
          if s.persist then
            match w with
            | .notWritten => (none, { s with session := some session'.rollback }, file)
            | .writtenButFailed =>
              (none, { s with session := some session'.rollback },
                some (encodeBlob (s.used + 1) next))
            | .written =>
              (some sig, s.adopt session' next, some (encodeBlob (s.used + 1) next))
          else (some sig, s.adopt session' next, file)

end HashSigner

/-! ## Runs with crashes -/

/-- The state file, the running process if there is one, and the leaves of the signatures released
to the caller so far, in order. -/
structure World where
  file : Option (List UInt8)
  signer : Option HashSigner
  released : List ℕ

/-- What can happen: the process starts and attaches the file, it attaches the file again, it signs,
it dies inside a signature before or after the write, or it dies at any other moment.  A file that
cannot be read stops the process. -/
inductive Action where
  | start (floor : ℕ)
  | attach (floor : ℕ)
  | sign (msg : List UInt8) (w : WriteOutcome)
  | crashInSign (msg : List UInt8) (w : WriteOutcome)
  | crash

inductive Step (lms : Lms) : World → Action → World → Prop
  | start {file : Option (List UInt8)} {released : List ℕ} {floor : ℕ} (hfloor : floor < 2 ^ 64) :
      Step lms ⟨file, none, released⟩ (.start floor)
        ⟨file, some ((HashSigner.generate lms).attachPersistenceWithFloor floor file), released⟩
  | attach {file : Option (List UInt8)} {s : HashSigner} {released : List ℕ} {floor : ℕ}
      (hfloor : floor < 2 ^ 64) :
      Step lms ⟨file, some s, released⟩ (.attach floor)
        ⟨file, some (s.attachPersistenceWithFloor floor file), released⟩
  | sign {file file' : Option (List UInt8)} {s s' : HashSigner} {released : List ℕ}
      {msg : List UInt8} {w : WriteOutcome} {sig : Option Signature}
      (h : s.sign lms msg w file = (sig, s', file')) :
      Step lms ⟨file, some s, released⟩ (.sign msg w)
        ⟨file', some s', released ++ (sig.map Signature.leaf).toList⟩
  | crashInSign {file file' : Option (List UInt8)} {s s' : HashSigner} {released : List ℕ}
      {msg : List UInt8} {w : WriteOutcome} {sig : Option Signature}
      (h : s.sign lms msg w file = (sig, s', file')) :
      Step lms ⟨file, some s, released⟩ (.crashInSign msg w) ⟨file', none, released⟩
  | crash {file : Option (List UInt8)} {s : Option HashSigner} {released : List ℕ} :
      Step lms ⟨file, s, released⟩ .crash ⟨file, none, released⟩

/-- No file, no process, nothing released. -/
def World.initial : World := ⟨none, none, []⟩

/-! ## No leaf is used twice -/

variable {lms : Lms} {released : List ℕ} {file file' : Option (List UInt8)} {s s' : HashSigner}

lemma length_stateAt (state : List UInt8) (count : ℕ) :
    (stateAt state count).length = state.length := by
  unfold stateAt
  split
  · simp only [List.length_append, length_beBytes, List.length_drop]
    omega
  · rfl

lemma stateCount_stateAt {state : List UInt8} {count : ℕ} (hlen : 8 ≤ state.length)
    (hcount : count < 2 ^ 64) : stateCount (stateAt state count) = some count := by
  have htake : (stateAt state count).take 8 = beBytes count := by
    rw [stateAt, if_pos hlen, List.take_append_of_le_length (by simp),
      List.take_of_length_le (by simp)]
  rw [stateCount, length_stateAt, if_pos hlen, htake, ofBeBytes_beBytes hcount]

/-- A signer that is past every released leaf, and whose key and session are at its own position. -/
structure HashSigner.Sound (lms : Lms) (released : List ℕ) (s : HashSigner) : Prop where
  persist : s.persist = true
  capacity : s.capacity = lms.capacity
  above : ∀ l ∈ released, l < s.used
  long : 8 ≤ s.state.length
  count : s.used < lms.capacity → stateCount s.state = some s.used
  session : ∀ t, s.session = some t → t.rfc = s.state ∧ t.pending = none

/-- A file that is past every released leaf. -/
def FileSound (lms : Lms) (released : List ℕ) : Option (List UInt8) → Prop
  | none => released = []
  | some blob => ∃ used state, blob = encodeBlob used state ∧ used ≤ lms.capacity ∧
    8 ≤ state.length ∧
      ∀ l ∈ released, l < used

/-- Attaching a sound file resumes past every released leaf. -/
lemma sound_attach {floor : ℕ} (hcap : s.capacity = lms.capacity) (hlong : 8 ≤ s.state.length)
    (hfile : FileSound lms released file) :
    (s.attachPersistenceWithFloor floor file).Sound lms released := by
  cases file with
  | none =>
    have hnone : released = [] := hfile
    subst hnone
    refine ⟨rfl, hcap, by simp, ?_, fun hlt => ?_, fun t ht => by cases ht⟩
    · exact (length_stateAt _ _).symm ▸ hlong
    · exact stateCount_stateAt hlong (hlt.trans_le (lms.capacity_le.trans (by decide)))
  | some blob =>
    obtain ⟨used, state, rfl, hused, hstate, hbelow⟩ := hfile
    have hlen : 8 ≤ (encodeBlob used state).length := by simp [encodeBlob]
    have hdrop : (encodeBlob used state).drop 8 = state := by
      rw [encodeBlob, List.drop_append_of_le_length (by simp), List.drop_of_length_le (by simp),
        List.nil_append]
    have htake : ofLeBytes ((encodeBlob used state).take 8) = used := by
      rw [encodeBlob, List.take_append_of_le_length (by simp), List.take_of_length_le (by simp),
        ofLeBytes_leBytes (hused.trans_lt (lms.capacity_le.trans_lt (by decide)))]
    unfold HashSigner.attachPersistenceWithFloor
    simp only [if_pos hlen, hdrop, htake]
    refine ⟨rfl, hcap, fun l hl => ?_, ?_, fun hlt => ?_, fun t ht => by cases ht⟩
    · have hl' := hbelow l hl
      change l < max (max (max s.used floor) used) ((stateCount state).getD 0)
      omega
    · exact (length_stateAt _ _).symm ▸ hstate
    · exact stateCount_stateAt hstate (hlt.trans_le (lms.capacity_le.trans (by decide)))

/-- A session that signs is on its counter's leaf and leaves the next position pending. -/
lemma Session.sign_eq_some {t t' : Session} {msg : List UInt8} {sig : Signature}
    (h : t.sign lms msg = some (sig, t')) :
    ∃ count, stateCount t.rfc = some count ∧ sig.leaf = count % lms.capacity ∧
      t' = { t with pending := some (increment lms t.rfc count) } := by
  unfold Session.sign at h
  split at h
  · cases h
  · split at h
    · next count bytes hcount hbytes =>
      cases h
      exact ⟨count, hcount, rfl, rfl⟩
    · cases h

lemma Session.length_increment (lms : Lms) (state : List UInt8) (count : ℕ) :
    (increment lms state count).length = state.length := by
  unfold increment
  split
  · exact List.length_replicate
  · exact length_stateAt _ _

lemma Session.stateCount_increment {state : List UInt8} {count : ℕ} (hlen : 8 ≤ state.length)
    (h : count + 1 < lms.capacity) : stateCount (increment lms state count) = some (count + 1) := by
  have hle := lms.capacity_le
  rw [increment, if_neg (by omega), stateCount_stateAt hlen (by omega)]

/-- What an attempt to sign can do: it releases nothing and leaves the file; or it releases nothing
and writes the next position; or it releases the leaf of its position after writing the next one. -/
lemma HashSigner.sign_cases {msg : List UInt8} {w : WriteOutcome} {sig : Option Signature}
    (hs : s.Sound lms released) (h : s.sign lms msg w file = (sig, s', file')) :
    (sig = none ∧ file' = file ∧ s'.Sound lms released) ∨
      ∃ next, 8 ≤ next.length ∧ s.used < lms.capacity ∧
        file' = some (encodeBlob (s.used + 1) next) ∧
          ((sig = none ∧ s'.Sound lms released) ∨
            (sig.map Signature.leaf = some s.used ∧ s'.Sound lms (released ++ [s.used]))) := by
  obtain ⟨hpersist, hcap, habove, hlong, hcount, hsession⟩ := hs
  unfold HashSigner.sign at h
  split at h
  · cases h
    exact .inl ⟨rfl, rfl, hpersist, hcap, habove, hlong, hcount, hsession⟩
  next hremaining =>
  have hlt : s.used < lms.capacity := by
    unfold HashSigner.remaining at hremaining
    omega
  split at h
  · cases h
    exact .inl ⟨rfl, rfl, hpersist, hcap, habove, hlong, hcount, hsession⟩
  next session hopened =>
  -- an open session stands on the signer's own key
  have hat : session.rfc = s.state ∧ session.pending = none := by
    unfold HashSigner.opened at hopened
    cases hopen : s.session with
    | some t =>
      rw [hopen] at hopened
      cases hopened
      exact hsession _ hopen
    | none =>
      simp only [hopen] at hopened
      split at hopened
      · cases hopened
        exact ⟨rfl, rfl⟩
      · cases hopened
  split at h
  · cases h
    exact .inl ⟨rfl, rfl, hpersist, hcap, habove, hlong, hcount, fun t ht => by cases ht⟩
  next sig' session' hsign =>
  obtain ⟨count, hcount', hleaf, rfl⟩ := Session.sign_eq_some hsign
  rw [hat.1, hcount hlt] at hcount'
  cases hcount'
  rw [Nat.mod_eq_of_lt hlt] at hleaf
  rw [hat.1] at h
  simp only [hpersist] at h
  have hnext : 8 ≤ (Session.increment lms s.state s.used).length :=
    (Session.length_increment lms s.state s.used).symm ▸ hlong
  have hkept : ({ s with persist := true, session := some ⟨s.state, none⟩ } :
      HashSigner).Sound lms released :=
    ⟨rfl, hcap, habove, hlong, hcount, fun t ht => by cases ht; exact ⟨rfl, rfl⟩⟩
  cases w with
  | notWritten =>
    cases h
    exact .inl ⟨rfl, rfl, hkept⟩
  | writtenButFailed =>
    cases h
    exact .inr ⟨_, hnext, hlt, rfl, .inl ⟨rfl, hkept⟩⟩
  | written =>
    cases h
    refine .inr ⟨_, hnext, hlt, rfl, .inr ⟨congrArg some hleaf, hpersist, hcap, fun l hl => ?_,
      hnext, Session.stateCount_increment hlong, fun t ht => ?_⟩⟩
    · rcases List.mem_append.mp hl with hl | hl
      · exact (habove l hl).trans (Nat.lt_succ_self _)
      · rw [List.mem_singleton.mp hl]
        exact Nat.lt_succ_self _
    · cases ht
      exact ⟨rfl, rfl⟩

/-- The file and the process are past every released leaf, and no leaf was released twice. -/
structure World.Sound (lms : Lms) (u : World) : Prop where
  file : FileSound lms u.released u.file
  signer : ∀ s, u.signer = some s → s.Sound lms u.released
  nodup : u.released.Nodup

lemma World.Sound.step {u u' : World} {a : Action} (hu : u.Sound lms) (h : Step lms u a u') :
    u'.Sound lms := by
  obtain ⟨hfile, hsigner, hnodup⟩ := hu
  cases h with
  | start =>
    refine ⟨hfile, fun s hs => ?_, hnodup⟩
    cases hs
    exact sound_attach rfl (by simp [HashSigner.generate]) hfile
  | attach =>
    have hold := hsigner _ rfl
    refine ⟨hfile, fun s hs => ?_, hnodup⟩
    cases hs
    exact sound_attach hold.capacity hold.long hfile
  | crash => exact ⟨hfile, fun s hs => (by cases hs), hnodup⟩
  | @sign file file' s s' released msg w sig h =>
    have hold : s.Sound lms released := hsigner _ rfl
    obtain ⟨rfl, rfl, hnew⟩ | ⟨next, hlong, hlt, rfl, hcase⟩ := HashSigner.sign_cases hold h
    · simp only [Option.map_none, Option.toList_none, List.append_nil]
      exact ⟨hfile, fun t ht => (by cases ht; exact hnew), hnodup⟩
    · rcases hcase with ⟨rfl, hnew⟩ | ⟨hsig, hnew⟩
      · simp only [Option.map_none, Option.toList_none, List.append_nil]
        refine ⟨⟨_, next, rfl, hlt, hlong, fun l hl => ?_⟩, fun t ht => (by cases ht; exact hnew),
          hnodup⟩
        exact (hold.above l hl).trans (Nat.lt_succ_self _)
      · rw [hsig, Option.toList_some]
        refine ⟨⟨_, next, rfl, hlt, hlong, fun l hl => ?_⟩, fun t ht => (by cases ht; exact hnew),
          ?_⟩
        · rcases List.mem_append.mp hl with hl | hl
          · exact (hold.above l hl).trans (Nat.lt_succ_self _)
          · rw [List.mem_singleton.mp hl]
            exact Nat.lt_succ_self _
        · refine List.nodup_append.mpr ⟨hnodup, List.nodup_singleton _, ?_⟩
          rintro l hl l' hl' rfl
          rw [List.mem_singleton.mp hl'] at hl
          exact absurd (hold.above _ hl) (lt_irrefl _)
  | @crashInSign file file' s s' released msg w sig h =>
    have hold : s.Sound lms released := hsigner _ rfl
    obtain ⟨-, rfl, -⟩ | ⟨next, hlong, hlt, rfl, -⟩ := HashSigner.sign_cases hold h
    · exact ⟨hfile, fun t ht => (by cases ht), hnodup⟩
    · refine ⟨⟨_, next, rfl, hlt, hlong, fun l hl => ?_⟩, fun t ht => (by cases ht), hnodup⟩
      exact (hold.above l hl).trans (Nat.lt_succ_self _)

/-- **No leaf is used twice.**  For every order of starts, attachments with any floor, signing
attempts whose write is lost, is made but reported as failed, or succeeds, and crashes at any point,
the leaves of the signatures released to the caller are distinct. -/
theorem released_nodup {u : World} {acts : List Action} (h : Path (Step lms) .initial acts u) :
    u.released.Nodup :=
  (h.invariant (I := World.Sound lms) ⟨rfl, fun _ hs => (by cases hs), .nil⟩
    fun _ _ _ _ hu hs => hu.step hs).nodup

end HashSig

namespace Concrete

open HashSig

/-- A key of four leaves. -/
def lms : Lms := ⟨2, by decide, [9, 9], fun _ => true, fun _ msg => some msg⟩

/-- The process starts again, as often as it has to. -/
def started (u : World) : World :=
  { u with signer := some ((HashSigner.generate lms).attachPersistenceWithFloor 0 u.file) }

/-- The running process signs. -/
def signedWith (msg : List UInt8) (w : WriteOutcome) (u : World) : World :=
  match u.signer with
  | none => u
  | some s =>
    let r := s.sign lms msg w u.file
    ⟨r.2.2, some r.2.1, u.released ++ (r.1.map Signature.leaf).toList⟩

lemma step_started {u : World} (h : u.signer = none) : Step lms u (.start 0) (started u) := by
  obtain ⟨file, signer, released⟩ := u
  cases h
  exact .start (by decide)

lemma step_signedWith {u : World} (msg : List UInt8) (w : WriteOutcome)
    (h : u.signer.isSome = true) : Step lms u (.sign msg w) (signedWith msg w u) := by
  obtain ⟨file, signer, released⟩ := u
  cases signer with
  | none => cases h
  | some s => exact .sign rfl

/-- A signature, one whose write is made and reported as failed, and one more. -/
def beforeCrash : World :=
  signedWith [2] .written (signedWith [2] .writtenButFailed
    (signedWith [1] .written (started .initial)))

/-- After a crash the process starts again and signs. -/
def afterCrash : World :=
  signedWith [3] .written (started { beforeCrash with signer := none })

theorem afterCrash_released : afterCrash.released = [0, 1, 2] ∧ afterCrash.released.Nodup := by
  refine ⟨by decide +kernel, ?_⟩
  have hbefore : Path (Step lms) .initial _ beforeCrash := .snoc (.snoc (.snoc
    (.single (step_started rfl)) (step_signedWith [1] .written rfl))
    (step_signedWith [2] .writtenButFailed (by decide +kernel)))
    (step_signedWith [2] .written (by decide +kernel))
  exact released_nodup (.snoc (.snoc (.snoc hbefore .crash) (step_started rfl))
    (step_signedWith [3] .written rfl))

end Concrete

end HashKinetics
