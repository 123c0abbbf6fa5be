import HashKinetics.State.Types
import HashKinetics.Foundations.Transition

/-!
# The ledger of the attestation service

The service keeps what it knows about every lock, burn and wrapped burn in an append-only file of
lines.  A line is on disk before its content is in memory; a write that fails may still have left
its line, or a part of it, behind.  Opening the file folds its lines into records, and refuses a
file with a broken line.
-/

namespace HashKinetics.Attest

open Foundations

/-- The four flows of the service. -/
inductive Kind where
  | deposit
  | burn
  | wlock
  | wburn
  deriving DecidableEq

instance : Fintype Kind := ⟨{.deposit, .burn, .wlock, .wburn}, fun k => by cases k <;> decide⟩

/-- How far the service has come with a record. -/
inductive RecordState where
  | seen
  | heldRecipient
  | submitting
  | submitted
  | confirmed
  | rejected
  | needsReview
  | reverted
  | queuedCap
  | queuedPaused
  | unbridgeable
  deriving DecidableEq

/-- Whom a record pays: nobody yet, an account of the chain, or an address on the other side. -/
inductive Payee (H : Type) where
  | missing
  | account (id : H)
  | address (bytes : List UInt8)
  deriving DecidableEq

/-- The fields that a line of the ledger may carry.  A transaction stands for its id. -/
structure Fields (H : Type) where
  amount : Option ℕ := none
  dst : Option (Payee H) := none
  seenAt : Option ℕ := none
  hkTxid : Option (SignedTx H) := none
  attempt : Bool := false

/-- A line of the ledger: the cursor of one of the two chains, or an entry about a record. -/
inductive Line (H : Type) where
  | ethCursor (n : ℕ)
  | hkCursor (n : ℕ)
  | entry (kind : Kind) (id : H) (state : RecordState) (fields : Fields H)

/-- What the service knows about one event. -/
structure Record (H : Type) where
  kind : Kind
  id : H
  state : RecordState
  amount : ℕ
  dst : Payee H
  /-- The Ethereum block or the HashKinetics height. -/
  seenAt : ℕ
  hkTxid : Option (SignedTx H)
  attempts : ℕ
  deriving DecidableEq

/-- The record that an entry starts from when there is none. -/
def Record.blank {H : Type} (kind : Kind) (id : H) (state : RecordState) : Record H :=
  ⟨kind, id, state, 0, .missing, 0, none, 0⟩

/-- An entry overwrites the state and the fields it carries. -/
def Record.update {H : Type} (r : Record H) (state : RecordState) (f : Fields H) : Record H :=
  { r with
    state := state
    amount := f.amount.getD r.amount
    dst := f.dst.getD r.dst
    seenAt := f.seenAt.getD r.seenAt
    hkTxid := f.hkTxid.or r.hkTxid
    attempts := if f.attempt then r.attempts + 1 else r.attempts }

variable {H : Type} [LinearOrder H]

/-- The ledger in memory; the records of each flow are sorted by id. -/
structure Ledger (H : Type) [LinearOrder H] where
  records : Kind → OrderedMap H (Record H)
  ethCursor : ℕ
  hkCursor : ℕ

namespace Ledger

/-- The ledger of an empty file. -/
def init (ethFrom hkFrom : ℕ) : Ledger H := ⟨fun _ => ∅, ethFrom - 1, hkFrom - 1⟩

def get (l : Ledger H) (kind : Kind) (id : H) : Option (Record H) := (l.records kind)[id]?

def has (l : Ledger H) (kind : Kind) (id : H) : Bool := (l.get kind id).isSome

/-- The records of a flow that are in one of the given states. -/
def inStates (l : Ledger H) (kind : Kind) (states : List RecordState) : List (Record H) :=
  ((l.records kind).toList.map Prod.snd).filter fun r => states.contains r.state

/-- Take one line in. -/
def fold (l : Ledger H) : Line H → Ledger H
  | .ethCursor n => { l with ethCursor := n }
  | .hkCursor n => { l with hkCursor := n }
  | .entry kind id state fields =>
    let r := ((l.get kind id).getD (.blank kind id state)).update state fields
    { l with records := Function.update l.records kind ((l.records kind).insert id r) }

end Ledger

/-- The file: its unbroken lines, and whether a broken one follows them. -/
structure Disk (H : Type) where
  lines : List (Line H)
  torn : Bool

/-- How a write ends: the line is on disk and in memory; or the write fails, with the line on disk,
with nothing on disk, or with a part of the line on disk. -/
inductive Written where
  | synced
  | kept
  | lost
  | torn
  deriving DecidableEq

namespace Disk

/-- What is left of a write.  Nothing after a broken line can be read again. -/
def append {H : Type} (d : Disk H) (line : Line H) : Written → Disk H
  | .synced => if d.torn then d else { d with lines := d.lines ++ [line] }
  | .kept => if d.torn then d else { d with lines := d.lines ++ [line] }
  | .lost => d
  | .torn => { d with torn := true }

/-- The ledger that the unbroken lines of the file say. -/
def ledger (d : Disk H) (ethFrom hkFrom : ℕ) : Ledger H :=
  d.lines.foldl Ledger.fold (.init ethFrom hkFrom)

/-- `Ledger::open` refuses a file with a broken line. -/
def openLedger (d : Disk H) (ethFrom hkFrom : ℕ) : Option (Ledger H) :=
  if d.torn then none else some (d.ledger ethFrom hkFrom)

/-- A write leaves the file as it was, adds the line, or breaks the file. -/
lemma append_cases {H : Type} (d : Disk H) (line : Line H) (w : Written) :
    d.append line w = d ∨ (d.append line w).torn = true ∨
      d.append line w = { d with lines := d.lines ++ [line] } := by
  cases w with
  | synced =>
    unfold append
    split_ifs
    · exact .inl rfl
    · exact .inr (.inr rfl)
  | kept =>
    unfold append
    split_ifs
    · exact .inl rfl
    · exact .inr (.inr rfl)
  | lost => exact .inl rfl
  | torn => exact .inr (.inl rfl)

/-- A line whose write succeeded is on disk, unless the file was broken before. -/
lemma append_synced {H : Type} {d : Disk H} (line : Line H) (h : d.torn = false) :
    d.append line .synced = { d with lines := d.lines ++ [line] } := by
  simp [append, h]

lemma ledger_snoc (d : Disk H) (line : Line H) (ethFrom hkFrom : ℕ) :
    ({ d with lines := d.lines ++ [line] } : Disk H).ledger ethFrom hkFrom =
      (d.ledger ethFrom hkFrom).fold line := by
  simp [ledger]

end Disk

namespace Ledger

variable {l : Ledger H}

/-- A line about one record leaves every other record alone. -/
lemma get_fold_entry (l : Ledger H) (kind kind' : Kind) (id id' : H) (state : RecordState)
    (f : Fields H) : (l.fold (.entry kind id state f)).get kind' id' =
      if kind = kind' ∧ id = id' then
        some (((l.get kind id).getD (.blank kind id state)).update state f)
      else l.get kind' id' := by
  unfold get fold
  by_cases hkind : kind = kind'
  · subst hkind
    simp [OrderedMap.get_insert, get]
  · simp [hkind, Function.update_of_ne (Ne.symm hkind)]

@[simp] lemma get_fold_self (l : Ledger H) (kind : Kind) (id : H) (state : RecordState)
    (f : Fields H) : (l.fold (.entry kind id state f)).get kind id =
      some (((l.get kind id).getD (.blank kind id state)).update state f) := by
  simp [get_fold_entry]

/-- The records of a flow that are in one of the given states are records of the ledger. -/
lemma exists_of_mem_inStates {kind : Kind} {states : List RecordState} {r : Record H}
    (h : r ∈ l.inStates kind states) : ∃ id, l.get kind id = some r ∧ r.state ∈ states := by
  obtain ⟨hmem, hstate⟩ := List.mem_filter.mp h
  obtain ⟨⟨id, r'⟩, hentry, rfl⟩ := List.mem_map.mp hmem
  exact ⟨id, Std.ExtTreeMap.mem_toList_iff_getElem?_eq_some.mp hentry, by simpa using hstate⟩

/-- Every record stands under its own flow and id. -/
def Filed (l : Ledger H) : Prop := ∀ kind id r, l.get kind id = some r → r.kind = kind ∧ r.id = id

lemma filed_init (ethFrom hkFrom : ℕ) : (init ethFrom hkFrom : Ledger H).Filed := by
  intro kind id r hr
  simp [get, init] at hr

lemma Filed.fold (h : l.Filed) (line : Line H) : (l.fold line).Filed := by
  cases line with
  | ethCursor n => exact h
  | hkCursor n => exact h
  | entry kind id state f =>
    intro kind' id' r hr
    rw [get_fold_entry] at hr
    split_ifs at hr with heq
    · obtain ⟨rfl, rfl⟩ := heq
      cases hr
      cases hget : l.get kind id with
      | none => exact ⟨rfl, rfl⟩
      | some r₀ => exact h kind id r₀ hget
    · exact h kind' id' r hr

/-- The ids of the records of a flow that are in one of the given states are distinct. -/
lemma Filed.nodup_inStates (h : l.Filed) (kind : Kind) (states : List RecordState) :
    ((l.inStates kind states).map Record.id).Nodup := by
  have hkeys : ((l.records kind).toList.map Prod.fst).Nodup := by
    rw [List.nodup_iff_pairwise_ne, List.pairwise_map]
    exact (l.records kind).distinct_keys_toList.imp fun hne => by simpa using hne
  have hids : ((l.records kind).toList.map Prod.snd).map Record.id =
      (l.records kind).toList.map Prod.fst := by
    rw [List.map_map]
    apply List.map_congr_left
    rintro ⟨id, r⟩ hmem
    exact (h kind id r (Std.ExtTreeMap.mem_toList_iff_getElem?_eq_some.mp hmem)).2
  unfold inStates
  exact (List.filter_sublist.map _).nodup (hids ▸ hkeys)

end Ledger

lemma Disk.filed_ledger (d : Disk H) (ethFrom hkFrom : ℕ) : (d.ledger ethFrom hkFrom).Filed :=
  invariant_of_foldl (fun _ line h => h.fold line) d.lines (Ledger.filed_init ethFrom hkFrom)

end HashKinetics.Attest
