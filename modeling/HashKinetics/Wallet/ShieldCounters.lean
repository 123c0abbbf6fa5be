import HashKinetics.Foundations.OrderedMap
import HashKinetics.Foundations.Transition

/-!
# The counters of the shielded wallet

The shield file holds a master secret, two counters and what was found in the pools.  An operation
reads the file when it starts, works on its copy across slow calls, and saves the whole copy: it
creates the temporary file, whose name all operations share, writes it, and renames it into place.
A one-time index or a note tag is returned once its advanced counter is saved.  Nothing keeps two
operations apart: one may empty the file that another has written, rename the file that another is
about to write, or put its copy over counters that have moved on.  What is returned is returned once
only as long as none of this happens.
-/

namespace HashKinetics

open Foundations

/-- The leaves of the spend tree. -/
def OTS_CAPACITY : ℕ := 64

/-- The shield file; `C` are the scan caches of the pools. -/
structure ShieldFile (H C : Type) where
  master : H
  nextOtsIndex : ℕ
  nextNoteTag : ℕ
  scan : C
  deriving DecidableEq

/-- What is behind a name: nothing, a file without a readable text (empty, cut off in a write, or a
mixture of two writes), or a whole one. -/
inductive FileState (H C : Type) where
  | absent
  | torn
  | whole (f : ShieldFile H C)
  deriving DecidableEq

/-- What can be read from the file. -/
def FileState.read? {H C : Type} : FileState H C → Option (ShieldFile H C)
  | .whole f => some f
  | _ => none

/-! ## Operations -/

/-- What an operation does with its copy of the file. -/
inductive Effect where
  /-- `my_notes`: look for notes and save what was found. -/
  | rescan
  | reserveTag
  | reserveOts
  /-- `write_secret_files`: save the copy as it was read. -/
  | rewrite
  deriving DecidableEq

inductive OpKind where
  | scan
  | shield
  | unshield
  | pay
  | disclose
  | protect
  | unprotect

namespace OpKind

/-- The operation makes the file when there is none. -/
def creates : OpKind → Bool
  | scan | shield | unshield | pay => true
  | disclose | protect | unprotect => false

def effects : OpKind → List Effect
  | scan => [.rescan]
  | shield => [.reserveTag]
  | unshield => [.rescan, .reserveTag, .reserveOts]
  | pay => [.rescan, .reserveTag, .reserveOts]
  | disclose => [.rescan]
  | protect => [.rewrite]
  | unprotect => [.rewrite]

end OpKind

/-- What a save that is under way is for; a reservation has the value it will return. -/
inductive Saving where
  | created
  | rescanned
  | rewritten
  | tag (t : ℕ)
  | ots (i : ℕ)
  deriving DecidableEq

/-- How far a save has come: before the temporary file, with that file open, or past its write. -/
inductive Stage where
  | waiting
  | opened (file : ℕ)
  | written
  deriving DecidableEq

/-- The file that a save has open. -/
def Stage.file? : Stage → Option ℕ
  | .opened i => some i
  | _ => none

/-- An operation under way: its copy of the file, what it has still to do, and the save it is in. -/
structure WalletOp (H C : Type) where
  copy : ShieldFile H C
  todo : List Effect
  saving : Option (Saving × Stage)

/-- A wallet directory, the operations on it, and what they were given.  Files have numbers, since an
open file stays the same when its name is moved; `disk` and `tmp` are the files behind the two
names. -/
structure WalletDir (H C : Type) where
  files : OrderedMap ℕ (FileState H C)
  disk : Option ℕ
  tmp : Option ℕ
  ops : OrderedMap ℕ (WalletOp H C)
  otsReturned : List ℕ
  tagsReturned : List ℕ

/-- What can happen. -/
inductive WalletAct (H C : Type) where
  /-- An operation starts and reads the file; the secret is for a file that it has to make. -/
  | start (op : ℕ) (kind : OpKind) (master : H)
  /-- It comes to its next effect; for a scan with the caches it has found, if they are new. -/
  | edit (op : ℕ) (found : Option C)
  /-- It creates the temporary file, or empties the one that is there; a new one gets the number. -/
  | create (op file : ℕ)
  /-- It writes its copy to the file it has open; another operation may come in between. -/
  | write (op : ℕ) (mixed : Bool)
  /-- It stops within that write. -/
  | writeTorn (op : ℕ)
  /-- It renames the temporary file and syncs the directory; the sync may fail. -/
  | save (op : ℕ) (synced : Bool)
  /-- It returns, with or without an error. -/
  | leave (op : ℕ)
  /-- The process stops, and all operations with it. -/
  | crash

namespace WalletDir

variable {H C : Type}

/-- The copy after its next effect, and what is to be saved; `none` where the operation fails. -/
def perform (copy : ShieldFile H C) (found : Option C) : Effect →
    Option (ShieldFile H C × Option Saving)
  | .rescan =>
    match found with
    | some scan => some ({ copy with scan }, some .rescanned)
    | none => some (copy, none)
  | .reserveTag =>
    let t := copy.nextNoteTag
    some ({ copy with nextNoteTag := (t + 1) % 2 ^ 64 }, some (.tag t))
  | .reserveOts =>
    let i := copy.nextOtsIndex
    if OTS_CAPACITY ≤ i then none
    else some ({ copy with nextOtsIndex := i + 1 }, some (.ots i))
  | .rewrite => some (copy, some .rewritten)

/-- What is behind a name. -/
def fileAt (s : WalletDir H C) (name : Option ℕ) : FileState H C :=
  (name.bind fun i => s.files[i]?).getD .absent

/-- The shield file as a reader finds it. -/
def onDisk (s : WalletDir H C) : FileState H C := s.fileAt s.disk

/-- The temporary file. -/
def inTmp (s : WalletDir H C) : FileState H C := s.fileAt s.tmp

/-- The values that a finished save returns. -/
def returned (s : WalletDir H C) : Saving → WalletDir H C
  | .tag t => { s with tagsReturned := t :: s.tagsReturned }
  | .ots i => { s with otsReturned := i :: s.otsReturned }
  | _ => s

/-- One step; a step that cannot happen is `none`. -/
def step [Inhabited C] (s : WalletDir H C) : WalletAct H C → Option (WalletDir H C)
  | .start n kind master =>
    if n ∈ s.ops then none
    else
      match s.onDisk with
      | .whole f => some { s with ops := s.ops.insert n ⟨f, kind.effects, none⟩ }
      | .absent =>
        if kind.creates then
          let made : WalletOp H C :=
            ⟨⟨master, 0, 1, default⟩, kind.effects, some (.created, .waiting)⟩
          some { s with ops := s.ops.insert n made }
        else none
      | .torn => none
  | .edit n found =>
    match s.ops[n]? with
    | some ⟨copy, effect :: todo, none⟩ =>
      (perform copy found effect).map fun p =>
        { s with ops := s.ops.insert n ⟨p.1, todo, p.2.map (·, .waiting)⟩ }
    | _ => none
  | .create n file =>
    match s.ops[n]? with
    | some ⟨copy, todo, some (what, .waiting)⟩ =>
      match s.tmp with
      | some i =>
        some { s with
          files := s.files.insert i .torn
          ops := s.ops.insert n ⟨copy, todo, some (what, .opened i)⟩ }
      | none =>
        if file ∈ s.files then none
        else
          some { s with
            files := s.files.insert file .torn
            tmp := some file
            ops := s.ops.insert n ⟨copy, todo, some (what, .opened file)⟩ }
    | _ => none
  | .write n mixed =>
    match s.ops[n]? with
    | some ⟨copy, todo, some (what, .opened i)⟩ =>
      some { s with
        files := s.files.insert i (if mixed then .torn else .whole copy)
        ops := s.ops.insert n ⟨copy, todo, some (what, .written)⟩ }
    | _ => none
  | .writeTorn n =>
    match s.ops[n]? with
    | some ⟨_, _, some (_, .opened i)⟩ =>
      some { s with
        files := s.files.insert i .torn
        ops := s.ops.erase n }
    | _ => none
  | .save n synced =>
    match s.ops[n]? with
    | some ⟨copy, todo, some (what, .written)⟩ =>
      match s.tmp with
      | none => some { s with ops := s.ops.erase n }
      | some i =>
        let renamed := { s with disk := some i, tmp := none }
        if synced then
          some ({ renamed with ops := s.ops.insert n ⟨copy, todo, none⟩ }.returned what)
        else some { renamed with ops := s.ops.erase n }
    | _ => none
  | .leave n => some { s with ops := s.ops.erase n }
  | .crash => some { s with ops := ∅ }

/-- A name for a file that is there. -/
def nameOf (i : ℕ) : FileState H C → Option ℕ
  | .absent => none
  | _ => some i

/-- A directory without operations. -/
def quiet (disk tmp : FileState H C) : WalletDir H C where
  files := Std.ExtTreeMap.insert (Std.ExtTreeMap.insert ∅ 0 disk) 1 tmp
  disk := nameOf 0 disk
  tmp := nameOf 1 tmp
  ops := ∅
  otsReturned := []
  tagsReturned := []

/-! ## Saves that lose nothing -/

end WalletDir

namespace Saving

variable {H C : Type}

/-- The one-time counter that the copy had when it was last saved or read. -/
def otsBefore (copy : ShieldFile H C) : Saving → ℕ
  | .ots i => i
  | _ => copy.nextOtsIndex

/-- The tag counter that the copy had when it was last saved or read. -/
def tagBefore (copy : ShieldFile H C) : Saving → ℕ
  | .tag t => t
  | _ => copy.nextNoteTag

/-- The tag that a save reserves. -/
def tag? : Saving → Option ℕ
  | .tag t => some t
  | _ => none

end Saving

namespace WalletDir

variable {H C : Type} {s s' : WalletDir H C} {act : WalletAct H C}

/-- A write goes to a file that no rename has moved into place.  A rename moves the operation's own
text, over counters that are not ahead of those it was made from, and the tag counter does not
wrap. -/
def Current (s : WalletDir H C) : WalletAct H C → Prop
  | .write n _ | .writeTorn n => ∀ op ∈ s.ops[n]?, ∀ saving ∈ op.saving, ∀ i ∈ saving.2.file?,
      s.disk ≠ some i
  | .save n _ => ∀ op ∈ s.ops[n]?, ∀ saving ∈ op.saving, saving.2 = .written → s.tmp ≠ none →
      s.inTmp = .whole op.copy ∧
      (∀ f ∈ s.onDisk.read?, f.nextOtsIndex ≤ saving.1.otsBefore op.copy ∧
        f.nextNoteTag ≤ saving.1.tagBefore op.copy) ∧
      ∀ t ∈ saving.1.tag?, t < 2 ^ 64 - 1
  | _ => True

instance [DecidableEq H] [DecidableEq C] : Decidable (s.Current act) :=
  match act with
  | .write n _ | .writeTorn n =>
    inferInstanceAs (Decidable (∀ op ∈ s.ops[n]?, ∀ saving ∈ op.saving, ∀ i ∈ saving.2.file?,
      s.disk ≠ some i))
  | .save n _ => inferInstanceAs (Decidable (∀ op ∈ s.ops[n]?, ∀ saving ∈ op.saving, _ → _))
  | .start .. | .edit .. | .create .. | .leave .. | .crash => .isTrue trivial

/-- A reservation under way has advanced the copy by one. -/
def WalletOp.Advanced (op : WalletOp H C) : Prop :=
  ∀ what stage, op.saving = some (what, stage) →
    (∀ i, what = .ots i → op.copy.nextOtsIndex = i + 1) ∧
      ∀ t, what = .tag t → op.copy.nextNoteTag = (t + 1) % 2 ^ 64

/-- What was returned lies below the counters on disk, and none of it twice; the two names stand for
two files. -/
structure Reserved (s : WalletDir H C) : Prop where
  ots : s.otsReturned.Nodup
  tags : s.tagsReturned.Nodup
  below : ∀ f, s.onDisk = .whole f →
    (∀ i ∈ s.otsReturned, i < f.nextOtsIndex) ∧ ∀ t ∈ s.tagsReturned, t < f.nextNoteTag
  absent : s.onDisk = .absent → s.otsReturned = [] ∧ s.tagsReturned = []
  torn : s.onDisk = .torn → ∀ n : ℕ, s.ops[n]? = none
  apart : ∀ i, s.tmp = some i → s.disk ≠ some i
  present : ∀ i, s.disk = some i → i ∈ s.files
  advanced : ∀ (n : ℕ) op, s.ops[n]? = some op → WalletOp.Advanced op

lemma reserved_quiet (disk tmp : FileState H C) : (quiet disk tmp).Reserved where
  ots := List.nodup_nil
  tags := List.nodup_nil
  below _ _ := ⟨by simp [quiet], by simp [quiet]⟩
  absent _ := ⟨rfl, rfl⟩
  torn _ n := by simp [quiet]
  apart i htmp := by
    cases disk <;> cases tmp <;> simp_all [quiet, nameOf] <;> omega
  present i hdisk := by
    cases disk <;> simp_all [quiet, nameOf, Std.ExtTreeMap.mem_insert]
  advanced n op hop := by simp [quiet] at hop

/-- What a write to another file leaves of the shield file. -/
lemma onDisk_insert_of_ne {i : ℕ} (hne : s.disk ≠ some i) (content : FileState H C)
    (tmp : Option ℕ) (ops : OrderedMap ℕ (WalletOp H C)) :
    ({ s with files := s.files.insert i content, tmp, ops } : WalletDir H C).onDisk =
      s.onDisk := by
  cases hdisk : s.disk with
  | none => simp [onDisk, fileAt, hdisk]
  | some j =>
    have hij : i ≠ j := fun heq => hne (by rw [hdisk, heq])
    simp [onDisk, fileAt, hdisk, OrderedMap.get_insert, hij]

/-- The operations and the files other than the shield file say nothing about what was returned. -/
lemma Reserved.of_ops (h : s.Reserved) {files : OrderedMap ℕ (FileState H C)} {tmp : Option ℕ}
    {ops : OrderedMap ℕ (WalletOp H C)}
    (hdisk : ({ s with files, tmp, ops } : WalletDir H C).onDisk = s.onDisk)
    (hkept : ∀ i, i ∈ s.files → i ∈ files) (hapart : ∀ i, tmp = some i → s.disk ≠ some i)
    (hops : ∀ (n : ℕ) op, ops[n]? = some op → s.onDisk ≠ .torn ∧ WalletOp.Advanced op) :
    ({ s with files, tmp, ops } : WalletDir H C).Reserved where
  ots := h.ots
  tags := h.tags
  below := by
    rw [hdisk]
    exact h.below
  absent := by
    rw [hdisk]
    exact h.absent
  torn htorn n := by
    rw [hdisk] at htorn
    cases hop : ops[n]? with
    | none => rfl
    | some op => exact absurd htorn (hops n op hop).1
  apart := hapart
  present i hi := hkept i (h.present i hi)
  advanced n op hop := (hops n op hop).2

lemma Reserved.whole_of_op (h : s.Reserved) {n : ℕ} {op : WalletOp H C}
    (hop : s.ops[n]? = some op) :
    s.onDisk ≠ .torn := by
  intro htorn
  rw [h.torn htorn n] at hop
  cases hop

/-- One operation is put in the place of another or besides the others. -/
lemma Reserved.advanced_insert (h : s.Reserved) (n : ℕ) {op : WalletOp H C}
    (hread : s.onDisk ≠ .torn) (hop : WalletOp.Advanced op) :
    ∀ (m : ℕ) op', (s.ops.insert n op)[m]? = some op' →
      s.onDisk ≠ .torn ∧ WalletOp.Advanced op' := by
  intro m op' hop'
  rw [OrderedMap.get_insert] at hop'
  split at hop'
  · cases hop'
    exact ⟨hread, hop⟩
  · exact ⟨hread, h.advanced m op' hop'⟩

/-- One operation is gone. -/
lemma Reserved.advanced_erase (h : s.Reserved) (n : ℕ) :
    ∀ (m : ℕ) op, (s.ops.erase n)[m]? = some op → s.onDisk ≠ .torn ∧ WalletOp.Advanced op := by
  intro m op hop
  rw [Std.ExtTreeMap.getElem?_erase] at hop
  split at hop
  · cases hop
  · exact ⟨h.whole_of_op hop, h.advanced m op hop⟩

/-- A step that leaves the files alone. -/
lemma Reserved.of_moves (h : s.Reserved) {ops : OrderedMap ℕ (WalletOp H C)}
    (hops : ∀ (n : ℕ) op, ops[n]? = some op → s.onDisk ≠ .torn ∧ WalletOp.Advanced op) :
    ({ s with ops } : WalletDir H C).Reserved :=
  h.of_ops rfl (fun _ hi => hi) h.apart hops

/-- A step that writes a file other than the shield file. -/
lemma Reserved.of_write (h : s.Reserved) {i : ℕ} (hne : s.disk ≠ some i)
    (content : FileState H C) {tmp : Option ℕ} (hapart : ∀ i, tmp = some i → s.disk ≠ some i)
    {ops : OrderedMap ℕ (WalletOp H C)}
    (hops : ∀ (n : ℕ) op, ops[n]? = some op → s.onDisk ≠ .torn ∧ WalletOp.Advanced op) :
    ({ s with files := s.files.insert i content, tmp, ops } : WalletDir H C).Reserved :=
  h.of_ops (onDisk_insert_of_ne hne content tmp ops)
    (fun _ hi => Std.ExtTreeMap.mem_insert.mpr (.inr hi)) hapart hops

/-- The counters that an effect advances. -/
lemma advanced_perform {copy copy' : ShieldFile H C} {found : Option C} {effect : Effect}
    {saving : Option Saving} (hp : perform copy found effect = some (copy', saving))
    (todo : List Effect) : WalletOp.Advanced ⟨copy', todo, saving.map (·, .waiting)⟩ := by
  intro what stage hwhat
  cases effect with
  | rescan =>
    simp only [perform] at hp
    split at hp
    all_goals
      cases hp
      cases hwhat
    exact ⟨by rintro _ ⟨⟩, by rintro _ ⟨⟩⟩
  | reserveTag =>
    cases hp
    cases hwhat
    exact ⟨by rintro _ ⟨⟩, by rintro _ ⟨⟩; rfl⟩
  | reserveOts =>
    simp only [perform] at hp
    split at hp
    · cases hp
    · cases hp
      cases hwhat
      exact ⟨by rintro _ ⟨⟩; rfl, by rintro _ ⟨⟩⟩
  | rewrite =>
    cases hp
    cases hwhat
    exact ⟨by rintro _ ⟨⟩, by rintro _ ⟨⟩⟩

/-- A save that puts the operation's copy over counters that are not ahead of it. -/
lemma Reserved.saved (h : s.Reserved) {n i : ℕ} {copy : ShieldFile H C} {todo : List Effect}
    {what : Saving} (hop : s.ops[n]? = some ⟨copy, todo, some (what, .written)⟩)
    (htmp : s.fileAt (some i) = .whole copy)
    (hahead : ∀ f, s.onDisk = .whole f →
      f.nextOtsIndex ≤ what.otsBefore copy ∧ f.nextNoteTag ≤ what.tagBefore copy)
    (hwrap : ∀ t, what = .tag t → t < 2 ^ 64 - 1) {ops : OrderedMap ℕ (WalletOp H C)}
    (hops : ∀ (m : ℕ) op, ops[m]? = some op → WalletOp.Advanced op) :
    ({ s with disk := some i, tmp := none, ops } : WalletDir H C).Reserved ∧
      (({ s with disk := some i, tmp := none, ops } : WalletDir H C).returned what).Reserved := by
  obtain ⟨hots, htag⟩ := h.advanced n _ hop what .written rfl
  have hdisk : ({ s with disk := some i, tmp := none, ops } : WalletDir H C).onDisk =
      .whole copy := htmp
  have hfile : i ∈ s.files := by
    rw [← Std.ExtTreeMap.isSome_getElem?_iff_mem]
    by_contra hnone
    simp [fileAt, Option.not_isSome_iff_eq_none.mp hnone] at htmp
  -- what was returned lies below the counters the copy was made from
  have hbefore : (∀ i ∈ s.otsReturned, i < what.otsBefore copy) ∧
      ∀ t ∈ s.tagsReturned, t < what.tagBefore copy := by
    cases hold : s.onDisk with
    | absent => simp [(h.absent hold).1, (h.absent hold).2]
    | torn => exact absurd hold (h.whole_of_op hop)
    | whole f =>
      obtain ⟨hi, ht⟩ := h.below f hold
      obtain ⟨hi', ht'⟩ := hahead f hold
      exact ⟨fun i hmem => (hi i hmem).trans_le hi', fun t hmem => (ht t hmem).trans_le ht'⟩
  have hotsLe : what.otsBefore copy ≤ copy.nextOtsIndex := by
    cases what with
    | ots i => rw [hots i rfl]; exact Nat.le_succ i
    | _ => exact le_rfl
  have htagNext : ∀ t, what = .tag t → copy.nextNoteTag = t + 1 := by
    intro t ht
    have hlt := hwrap t ht
    rw [htag t ht]
    exact Nat.mod_eq_of_lt (by omega)
  have htagLe : what.tagBefore copy ≤ copy.nextNoteTag := by
    cases what with
    | tag t => rw [htagNext t rfl]; exact Nat.le_succ t
    | _ => exact le_rfl
  have hkept : ({ s with disk := some i, tmp := none, ops } : WalletDir H C).Reserved := by
    refine ⟨h.ots, h.tags, fun f hf => ?_, fun hnone => ?_, fun htorn => ?_, fun j hj => ?_,
      fun j hj => ?_, hops⟩
    · rw [hdisk] at hf
      cases hf
      exact ⟨fun i hi => (hbefore.1 i hi).trans_le hotsLe,
        fun t ht => (hbefore.2 t ht).trans_le htagLe⟩
    · rw [hdisk] at hnone
      cases hnone
    · rw [hdisk] at htorn
      cases htorn
    · cases hj
    · cases hj
      exact hfile
  obtain ⟨hkeptOts, hkeptTags⟩ := hkept.below copy hdisk
  refine ⟨hkept, ?_⟩
  cases what with
  | tag t =>
    have hnew : t ∉ s.tagsReturned := fun hmem => lt_irrefl t (hbefore.2 t hmem)
    refine ⟨h.ots, List.nodup_cons.mpr ⟨hnew, h.tags⟩, fun f hf => ?_, fun hnone => ?_, hkept.torn,
      hkept.apart, hkept.present, hops⟩
    · obtain rfl : copy = f := FileState.whole.inj (hdisk.symm.trans hf)
      refine ⟨hkeptOts, fun t' ht' => ?_⟩
      rcases List.mem_cons.mp ht' with rfl | ht'
      · rw [htagNext _ rfl]
        exact Nat.lt_succ_self _
      · exact hkeptTags t' ht'
    · cases hdisk.symm.trans hnone
  | ots i =>
    have hnew : i ∉ s.otsReturned := fun hmem => lt_irrefl i (hbefore.1 i hmem)
    refine ⟨List.nodup_cons.mpr ⟨hnew, h.ots⟩, h.tags, fun f hf => ?_, fun hnone => ?_, hkept.torn,
      hkept.apart, hkept.present, hops⟩
    · obtain rfl : copy = f := FileState.whole.inj (hdisk.symm.trans hf)
      refine ⟨fun i' hi' => ?_, hkeptTags⟩
      rcases List.mem_cons.mp hi' with rfl | hi'
      · rw [hots _ rfl]
        exact Nat.lt_succ_self _
      · exact hkeptOts i' hi'
    · cases hdisk.symm.trans hnone
  | created => exact hkept
  | rescanned => exact hkept
  | rewritten => exact hkept

/-- Every step whose saves lose nothing keeps what was returned below the counters. -/
lemma Reserved.step [Inhabited C] (h : s.Reserved) (hcur : s.Current act)
    (hstep : s.step act = some s') : s'.Reserved := by
  have hplain : ∀ (copy : ShieldFile H C) (todo : List Effect),
      WalletOp.Advanced ⟨copy, todo, none⟩ := by
    rintro copy todo what stage ⟨⟩
  cases act with
  | start n kind master =>
    simp only [WalletDir.step] at hstep
    split at hstep
    · cases hstep
    · split at hstep
      next f hdisk =>
        cases hstep
        exact h.of_moves (h.advanced_insert n (by rw [hdisk]; simp) (hplain f kind.effects))
      next hdisk =>
        split at hstep
        · cases hstep
          refine h.of_moves (h.advanced_insert n (by rw [hdisk]; simp) ?_)
          rintro what stage ⟨⟩
          exact ⟨by rintro _ ⟨⟩, by rintro _ ⟨⟩⟩
        · cases hstep
      next => cases hstep
  | edit n found =>
    simp only [WalletDir.step] at hstep
    split at hstep
    next copy effect todo hop =>
      obtain ⟨p, hp, rfl⟩ := Option.map_eq_some_iff.mp hstep
      exact h.of_moves (h.advanced_insert n (h.whole_of_op hop) (advanced_perform hp todo))
    next => cases hstep
  | create n file =>
    simp only [WalletDir.step] at hstep
    split at hstep
    next copy todo what hop =>
      have hadvanced : ∀ stage, WalletOp.Advanced ⟨copy, todo, some (what, stage)⟩ := by
        rintro stage what' stage' ⟨⟩
        exact h.advanced n _ hop what .waiting rfl
      split at hstep
      next i htmp =>
        cases hstep
        exact h.of_write (h.apart i htmp) .torn h.apart
          (h.advanced_insert n (h.whole_of_op hop) (hadvanced _))
      next htmp =>
        split at hstep
        · cases hstep
        next hfresh =>
          cases hstep
          have hne : s.disk ≠ some file := fun hdisk => hfresh (h.present file hdisk)
          refine h.of_write hne .torn (fun i hi => ?_)
            (h.advanced_insert n (h.whole_of_op hop) (hadvanced _))
          cases hi
          exact hne
    next => cases hstep
  | write n mixed =>
    simp only [WalletDir.step] at hstep
    split at hstep
    next copy todo what i hop =>
      cases hstep
      refine h.of_write (hcur _ hop _ rfl i rfl) _ h.apart
        (h.advanced_insert n (h.whole_of_op hop) ?_)
      rintro what' stage ⟨⟩
      exact h.advanced n _ hop what (.opened i) rfl
    next => cases hstep
  | writeTorn n =>
    simp only [WalletDir.step] at hstep
    split at hstep
    next copy todo what i hop =>
      cases hstep
      exact h.of_write (hcur _ hop _ rfl i rfl) .torn h.apart (h.advanced_erase n)
    next => cases hstep
  | save n synced =>
    simp only [WalletDir.step] at hstep
    split at hstep
    next copy todo what hop =>
      split at hstep
      · cases hstep
        exact h.of_moves (h.advanced_erase n)
      next i htmp =>
        obtain ⟨hown, hread, hwrap⟩ := hcur _ hop (what, .written) rfl rfl (by rw [htmp]; simp)
        have hfile : s.fileAt (some i) = .whole copy := by
          rw [← htmp]
          exact hown
        have hahead : ∀ f, s.onDisk = .whole f →
            f.nextOtsIndex ≤ what.otsBefore copy ∧ f.nextNoteTag ≤ what.tagBefore copy :=
          fun f hf => hread f (by rw [hf]; rfl)
        have hwrap' : ∀ t, what = .tag t → t < 2 ^ 64 - 1 := fun t ht => hwrap t (by rw [ht]; rfl)
        split at hstep
        · cases hstep
          exact (h.saved hop hfile hahead hwrap' fun m op hm =>
            (h.advanced_insert n (h.whole_of_op hop) (hplain copy todo) m op hm).2).2
        · cases hstep
          exact (h.saved hop hfile hahead hwrap' fun m op hm => (h.advanced_erase n m op hm).2).1
    next => cases hstep
  | leave n =>
    cases hstep
    exact h.of_moves (h.advanced_erase n)
  | crash =>
    cases hstep
    exact h.of_moves fun m op hm => by simp at hm

/-- In every run of wallet operations in which no write goes to a file that was moved into place,
every rename moves the operation's own copy, over counters that have not moved on since it was made,
and the tag counter does not wrap, no one-time index and no note tag is returned twice. -/
theorem reservations_nodup [Inhabited C] (disk tmp : FileState H C) {acts : List (WalletAct H C)}
    (hrun : Path (StepOf step) (quiet disk tmp) acts s)
    (hcur : Path.Along (StepOf step) (quiet disk tmp) acts Current) :
    s.otsReturned.Nodup ∧ s.tagsReturned.Nodup := by
  have hreserved : s.Reserved := by
    refine hrun.invariant_along (I := fun _ s => s.Reserved) hcur (reserved_quiet disk tmp) ?_
    intro _ act s s' hs hc hstep
    exact hs.step hc hstep
  exact ⟨hreserved.ots, hreserved.tags⟩

end WalletDir

namespace Concrete

/-- A shield file with its counters at the start. -/
def newShield : ShieldFile ℕ Unit := ⟨7, 0, 1, ()⟩

/-- What a payment does once it has read the file and found nothing new. -/
def payActs (n : ℕ) : List (WalletAct ℕ Unit) :=
  [.edit n none, .edit n none, .create n (2 * n + 2), .write n false, .save n true, .edit n none,
    .create n (2 * n + 3), .write n false, .save n true, .leave n]

/-- Two payments one after the other. -/
def paysInTurn : List (WalletAct ℕ Unit) :=
  .start 0 .pay 0 :: payActs 0 ++ .start 1 .pay 0 :: payActs 1

/-- Two payments that both read the file before either saves. -/
def paysAtOnce : List (WalletAct ℕ Unit) :=
  .start 0 .pay 0 :: .start 1 .pay 0 :: payActs 0 ++ payActs 1

/-- Both payments get the one-time index zero and the tag one. -/
theorem paysAtOnce_reuse : ∃ s : WalletDir ℕ Unit,
    Path (StepOf WalletDir.step) (.quiet (.whole newShield) .absent) paysAtOnce s ∧
      s.otsReturned = [0, 0] ∧ s.tagsReturned = [1, 1] := by
  obtain ⟨s, hs, hreturned⟩ := (Option.any_eq_true _ _).mp
    (show (paysAtOnce.foldlM WalletDir.step (.quiet (.whole newShield) .absent)).any
      (fun s => s.otsReturned = [0, 0] ∧ s.tagsReturned = [1, 1]) = true by decide +kernel)
  exact ⟨s, path_of_foldlM hs, of_decide_eq_true hreturned⟩

/-- Of two payments in turn, the second gets what the first left. -/
theorem paysInTurn_nodup : ∃ s : WalletDir ℕ Unit,
    Path (StepOf WalletDir.step) (.quiet (.whole newShield) .absent) paysInTurn s ∧
      (s.otsReturned.length = 2 ∧ s.tagsReturned.length = 2) ∧
      s.otsReturned.Nodup ∧ s.tagsReturned.Nodup := by
  obtain ⟨s, hs, hreturned⟩ := (Option.any_eq_true _ _).mp
    (show (paysInTurn.foldlM WalletDir.step (.quiet (.whole newShield) .absent)).any
      (fun s => s.otsReturned.length = 2 ∧ s.tagsReturned.length = 2) = true by decide +kernel)
  have hrun := path_of_foldlM hs
  have hcur : Path.Along (StepOf WalletDir.step) (.quiet (.whole newShield) .absent) paysInTurn
      WalletDir.Current := along_of_foldlM (by decide +kernel)
  exact ⟨s, hrun, of_decide_eq_true hreturned, WalletDir.reservations_nodup _ _ hrun hcur⟩

end Concrete

end HashKinetics
