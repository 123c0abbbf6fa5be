import HashKinetics.Foundations.OrderedMap
import HashKinetics.Foundations.Text
import HashKinetics.Foundations.Transition
import HashKinetics.Primitives

/-!
# The file of the attestation service

The service appends every event as a line of JSON to a file and folds the lines again when it
starts.  A line that a crash cut short stays in the file: the next start refuses the file, and a
line that lacks only its newline is joined by the next one.  So the file is read back as it was
written as long as a crash leaves either all of a line or none of it.
-/

namespace HashKinetics.LedgerFile

open Foundations

/-- A line of the file; the fields are JSON values. -/
structure Event (V : Type) where
  t : ℕ
  kind : String
  id : String
  state : String
  fields : OrderedMap String V

/-- The JSON library: the numbers and texts among the values, and an event as an object. -/
class EventCodec (V : Type) where
  asU64 : V → Option ℕ
  asStr : V → Option String
  toText : Event V → List Char
  ofText : List Char → Option (Event V)

export EventCodec (asU64 asStr toText ofText)

/-- What the service knows about one event of the chains. -/
structure Record where
  kind : String
  id : String
  state : String := ""
  amount : ℕ := 0
  dst : String := ""
  seenAt : ℕ := 0
  sourceTx : String := ""
  hkTxid : Option String := none
  ethTx : Option String := none
  note : Option String := none
  updated : ℕ := 0
  attempts : ℕ := 0

structure Ledger where
  records : OrderedMap String Record
  ethCursor : ℕ
  hkCursor : ℕ

/-- Why a file is not opened: a line is not a text, or the text of a line is not an event. -/
inductive OpenError where
  | notUtf8
  | badLine (n : ℕ)
  deriving DecidableEq

/-- A decimal number of 128 bits; a plus sign may stand in front. -/
def parseU128Text (s : List Char) : Option ℕ :=
  let digits := if s.head? = some '+' then s.tail else s
  if digits.isEmpty || !digits.all Char.isDigit then none
  else if Nat.ofDigitChars 10 digits 0 ≤ u128Max then some (Nat.ofDigitChars 10 digits 0)
  else none

def key (kind id : String) : String := kind ++ ":" ++ id

variable {V : Type} [EventCodec V]

namespace Event

def textField (ev : Event V) (name : String) : Option String := (ev.fields[name]?).bind asStr

def numberField (ev : Event V) (name : String) : Option ℕ := (ev.fields[name]?).bind asU64

/-- The bytes of an event in the file. -/
def toBytes (ev : Event V) : List UInt8 := utf8 (toText ev) ++ [10]

/-- The library reads the event back from its text, which is an object on one line. -/
structure Faithful (ev : Event V) : Prop where
  roundTrip : ofText (toText ev) = some ev
  oneLine : '\n' ∉ toText ev
  opens : (toText ev).head? = some '{'
  closes : (toText ev).getLast? = some '}'

end Event

/-- An event overwrites the state, and the fields it carries. -/
def Record.update (r : Record) (ev : Event V) : Record :=
  { r with
    state := ev.state
    updated := ev.t
    amount := ((ev.textField "amount").bind fun s => parseU128Text s.toList).getD r.amount
    dst := (ev.textField "to").getD r.dst
    seenAt := (ev.numberField "at").getD r.seenAt
    sourceTx := (ev.textField "source_tx").getD r.sourceTx
    hkTxid := (ev.textField "hk_txid").or r.hkTxid
    ethTx := (ev.textField "eth_tx").or r.ethTx
    note := (ev.textField "note").or r.note
    attempts := if (ev.fields["attempt"]?).isSome then r.attempts + 1 else r.attempts }

namespace Ledger

/-- The ledger of an empty file. -/
def init (ethFrom hkFrom : ℕ) : Ledger := ⟨∅, ethFrom - 1, hkFrom - 1⟩

def fold (l : Ledger) (ev : Event V) : Ledger :=
  if ev.kind = "cursor" then
    let n := (ev.numberField "n").getD 0
    if ev.id = "eth" then { l with ethCursor := n }
    else if ev.id = "hk" then { l with hkCursor := n }
    else l
  else
    let k := key ev.kind ev.id
    let r := (l.records[k]?).getD { kind := ev.kind, id := ev.id }
    { l with records := l.records.insert k (r.update ev) }

/-- Take in one line of the file, the `n`-th from zero. -/
def readLine (V : Type) [EventCodec V] (l : Ledger) (n : ℕ)
    (line : List UInt8) : Except OpenError Ledger :=
  match decodeUtf8 line with
  | none => .error .notUtf8
  | some text =>
    if trim text = [] then .ok l
    else
      match ofText (V := V) text with
      | none => .error (.badLine (n + 1))
      | some ev => .ok (l.fold ev)

/-- Take in the lines, the first of which is the `n`-th. -/
def readLines (V : Type) [EventCodec V] (l : Ledger) (n : ℕ) : List (List UInt8) →
    Except OpenError Ledger
  | [] => .ok l
  | line :: rest => do
    let l ← l.readLine V n line
    l.readLines V (n + 1) rest

/-- Fold the lines of the file. -/
def openFile (V : Type) [EventCodec V] (file : List UInt8)
    (ethFrom hkFrom : ℕ) : Except OpenError Ledger :=
  (init ethFrom hkFrom).readLines V 0 (lines file)

end Ledger

/-! ## Runs of the service -/

/-- The file, the events whose lines were written to the end, and the ledger of the running
process. -/
structure Service (V : Type) where
  file : List UInt8
  written : List (Event V)
  memory : Option Ledger

/-- An event is written; the process ends with so many bytes of an event's line in the file; a
process starts. -/
inductive LedgerOp (V : Type) where
  | write (ev : Event V)
  | crash (ev : Event V) (kept : ℕ)
  | start

namespace Service

/-- Before the first start there is no file. -/
def fresh : Service V := ⟨[], [], none⟩

/-- The steps of the service.  The line is on disk before the event is folded. -/
inductive Step (ethFrom hkFrom : ℕ) : Service V → LedgerOp V → Service V → Prop
  | write {s : Service V} {l : Ledger} (up : s.memory = some l) (ev : Event V) :
      Step ethFrom hkFrom s (.write ev) ⟨s.file ++ ev.toBytes, s.written ++ [ev], some (l.fold ev)⟩
  | crash {s : Service V} {l : Ledger} (up : s.memory = some l) (ev : Event V) (kept : ℕ) :
      Step ethFrom hkFrom s (.crash ev kept) ⟨s.file ++ ev.toBytes.take kept,
        if ev.toBytes.length ≤ kept then s.written ++ [ev] else s.written, none⟩
  | start (s : Service V) :
      Step ethFrom hkFrom s .start
        ⟨s.file, s.written, (Ledger.openFile V s.file ethFrom hkFrom).toOption⟩

/-- What was written, folded. -/
def fold (s : Service V) (ethFrom hkFrom : ℕ) : Ledger :=
  s.written.foldl Ledger.fold (.init ethFrom hkFrom)

end Service

namespace LedgerOp

/-- The events an operation writes are read back by the library. -/
def Faithful : LedgerOp V → Prop
  | .write ev => ev.Faithful
  | .crash ev _ => ev.Faithful
  | .start => True

/-- A crash leaves the line of the event whole, or leaves nothing of it. -/
def Whole : LedgerOp V → Prop
  | .crash ev kept => kept = 0 ∨ ev.toBytes.length ≤ kept
  | _ => True

end LedgerOp

/-! ## Reading whole lines -/

namespace Event

variable {ev : Event V}

lemma Faithful.newline_not_mem (h : ev.Faithful) : (10 : UInt8) ∉ utf8 (toText ev) :=
  newline_not_mem_utf8 h.oneLine

/-- A line that ends in a brace has no carriage return to lose. -/
lemma Faithful.stripCr (h : ev.Faithful) : Foundations.stripCr (utf8 (toText ev)) =
    utf8 (toText ev) := by
  obtain ⟨init, hlast⟩ := List.getLast?_eq_some_iff.mp h.closes
  have hbytes : utf8 (toText ev) = utf8 init ++ [125] := by
    rw [hlast, utf8_append]
    rfl
  rw [Foundations.stripCr, if_neg]
  rw [hbytes, List.getLast?_concat]
  decide

lemma Faithful.not_blank (h : ev.Faithful) : trim (toText ev) ≠ [] :=
  trim_ne_nil (List.mem_of_head? h.opens) (by decide)

end Event

namespace Ledger

variable {ev : Event V}

lemma readLine_of_faithful (h : ev.Faithful) (l : Ledger) (n : ℕ) :
    l.readLine V n (utf8 (toText ev)) = .ok (l.fold ev) := by
  simp only [readLine, decodeUtf8_utf8, h.not_blank, if_false, h.roundTrip]

/-- Whole lines are folded, and what follows them is read on the ledger they lead to. -/
lemma readLines_append {events : List (Event V)} (h : ∀ ev ∈ events, ev.Faithful) (l : Ledger)
    (n : ℕ)
    (rest : List UInt8) : l.readLines V n (lines (events.flatMap Event.toBytes ++ rest)) =
      (events.foldl fold l).readLines V (n + events.length) (lines rest) := by
  induction events generalizing l n with
  | nil => rfl
  | cons ev events ih =>
    obtain ⟨hev, hevents⟩ := List.forall_mem_cons.mp h
    have hfile : (ev :: events).flatMap Event.toBytes ++ rest =
        utf8 (toText ev) ++ 10 :: (events.flatMap Event.toBytes ++ rest) := by
      rw [List.flatMap_cons, Event.toBytes, List.append_assoc, List.append_assoc,
        List.singleton_append]
    rw [hfile, lines_cons hev.newline_not_mem, hev.stripCr, readLines, readLine_of_faithful hev]
    change (l.fold ev).readLines V (n + 1) (lines (events.flatMap Event.toBytes ++ rest)) = _
    rw [ih hevents, List.length_cons, Nat.add_right_comm, Nat.add_assoc]
    rfl

/-- A file of whole lines is opened, as the fold of its events. -/
lemma openFile_of_whole {events : List (Event V)} (h : ∀ ev ∈ events, ev.Faithful)
    (ethFrom hkFrom : ℕ) :
    openFile V (events.flatMap Event.toBytes) ethFrom hkFrom =
      .ok (events.foldl fold (init ethFrom hkFrom)) := by
  have hread := readLines_append h (init ethFrom hkFrom) 0 []
  rw [List.append_nil] at hread
  rw [openFile, hread]
  rfl

end Ledger

/-! ## A line cut short -/

namespace Event

/-- No part of the text of the event is an event of its own. -/
def SelfContained (ev : Event V) : Prop :=
  ∀ t : List Char, t <+: toText ev → t ≠ toText ev → ofText (V := V) t = none

end Event

namespace Ledger

variable {ev : Event V}

/-- A part of an event's text, also one that ends inside a character, is not read. -/
lemma readLine_part (h : ev.Faithful) (hself : ev.SelfContained) {k : ℕ} (hpos : 0 < k)
    (hk : k < (utf8 (toText ev)).length) (l : Ledger) (n : ℕ) :
    ∃ e, l.readLine V n ((utf8 (toText ev)).take k) = .error e := by
  cases hdecode : decodeUtf8 ((utf8 (toText ev)).take k) with
  | none => exact ⟨.notUtf8, by simp only [readLine, hdecode]⟩
  | some t =>
    have hbytes : utf8 t = (utf8 (toText ev)).take k := utf8_of_decodeUtf8 hdecode
    have hpart : t <+: toText ev := isPrefix_of_utf8 (hbytes ▸ List.take_prefix _ _)
    have hne : t ≠ toText ev := by
      rintro rfl
      have hlength := congrArg List.length hbytes
      rw [List.length_take] at hlength
      omega
    have hstart : '{' ∈ t := by
      cases t with
      | nil =>
        have hlength := congrArg List.length hbytes
        rw [List.length_take] at hlength
        change 0 = _ at hlength
        omega
      | cons c t =>
        obtain ⟨rest, hrest⟩ := hpart
        have hopens := h.opens
        rw [← hrest, List.cons_append, List.head?_cons, Option.some.injEq] at hopens
        rw [hopens]
        exact List.mem_cons_self
    have hblank : trim t ≠ [] := trim_ne_nil hstart (by decide)
    exact ⟨.badLine (n + 1), by simp only [readLine, hdecode, hblank, if_false, hself t hpart hne]⟩

/-- After a crash that left a part of a line, the file is refused. -/
lemma openFile_of_part {events : List (Event V)} (hevents : ∀ e ∈ events, e.Faithful)
    (h : ev.Faithful)
    (hself : ev.SelfContained) {k : ℕ} (hpos : 0 < k) (hk : k < (utf8 (toText ev)).length)
    (ethFrom hkFrom : ℕ) :
    ∃ e, openFile V (events.flatMap Event.toBytes ++ ev.toBytes.take k) ethFrom hkFrom =
      .error e := by
  have htake : ev.toBytes.take k = (utf8 (toText ev)).take k := by
    rw [Event.toBytes, List.take_append_of_le_length hk.le]
  have hline : (10 : UInt8) ∉ (utf8 (toText ev)).take k := fun hmem =>
    h.newline_not_mem (List.mem_of_mem_take hmem)
  have hne : (utf8 (toText ev)).take k ≠ [] := by
    intro hnil
    have hlength := congrArg List.length hnil
    rw [List.length_take, List.length_nil] at hlength
    omega
  obtain ⟨e, he⟩ := readLine_part h hself hpos hk (events.foldl fold (init ethFrom hkFrom))
    (0 + events.length)
  refine ⟨e, ?_⟩
  rw [openFile, htake, readLines_append hevents, lines_of_not_mem hline hne, readLines, he]
  rfl

end Ledger

/-! ## Every run -/

namespace Service

variable {ethFrom hkFrom : ℕ}

/-- The file has the lines of the written events and nothing else, and the running process knows
them. -/
structure Intact (ethFrom hkFrom : ℕ) (s : Service V) : Prop where
  file : s.file = s.written.flatMap Event.toBytes
  faithful : ∀ ev ∈ s.written, ev.Faithful
  memory : ∀ l, s.memory = some l → l = s.fold ethFrom hkFrom

lemma Intact.openFile {s : Service V} (h : s.Intact ethFrom hkFrom) :
    Ledger.openFile V s.file ethFrom hkFrom = .ok (s.fold ethFrom hkFrom) := by
  rw [h.file]
  exact Ledger.openFile_of_whole h.faithful ethFrom hkFrom

lemma Intact.step {s s' : Service V} (h : s.Intact ethFrom hkFrom) {op : LedgerOp V}
    (hstep : Step ethFrom hkFrom s op s') (hop : op.Faithful) (hwhole : op.Whole) :
    s'.Intact ethFrom hkFrom := by
  cases hstep with
  | write up ev =>
    refine ⟨?_, ?_, ?_⟩
    · simp only [h.file, List.flatMap_append, List.flatMap_cons, List.flatMap_nil, List.append_nil]
    · intro e he
      rcases List.mem_append.mp he with hold | hnew
      · exact h.faithful e hold
      · rw [List.mem_singleton.mp hnew]
        exact hop
    · intro l hl
      obtain rfl := Option.some.inj hl
      rw [h.memory _ up, Service.fold, Service.fold, List.foldl_append]
      rfl
  | crash up ev kept =>
    refine ⟨?_, ?_, fun l hl => by cases hl⟩
    · rcases hwhole with rfl | hall
      · have hpos : ¬ ev.toBytes.length ≤ 0 := by simp [Event.toBytes]
        simp only [hpos, if_false, List.take_zero, List.append_nil]
        exact h.file
      · simp only [hall, if_true, List.take_of_length_le hall, h.file, List.flatMap_append,
          List.flatMap_cons, List.flatMap_nil, List.append_nil]
    · intro e he
      simp only at he
      split_ifs at he with hall
      · rcases List.mem_append.mp he with hold | hnew
        · exact h.faithful e hold
        · rw [List.mem_singleton.mp hnew]
          exact hop
      · exact h.faithful e he
  | start =>
    refine ⟨h.file, h.faithful, fun l hl => ?_⟩
    rw [h.openFile] at hl
    exact (Option.some.inj hl).symm

/-- In every run whose crashes leave each line whole or not at all, the file opens to the fold of
what was written, in every state of the run, and that is also what the running process has in
memory. -/
theorem openFile_eq_fold {ops : List (LedgerOp V)} {s : Service V}
    (hrun : Path (Step ethFrom hkFrom) .fresh ops s) (hfaithful : ∀ op ∈ ops, op.Faithful)
    (hwhole : ∀ op ∈ ops, op.Whole) :
    Ledger.openFile V s.file ethFrom hkFrom = .ok (s.fold ethFrom hkFrom) ∧
      ∀ l, s.memory = some l → l = s.fold ethFrom hkFrom := by
  have hintact : s.Intact ethFrom hkFrom := by
    refine hrun.invariant ⟨rfl, by simp [fresh], by simp [fresh]⟩ fun s op s' hop hs hstep => ?_
    exact hs.step hstep (hfaithful op hop) (hwhole op hop)
  exact ⟨hintact.openFile, hintact.memory⟩

end Service

namespace Concrete

/-- The cursor of the first chain was moved to 130. -/
def firstText : String :=
  "\x7b\"t\":1,\"kind\":\"cursor\",\"id\":\"eth\",\"state\":\"\",\"fields\":\x7b\"n\":130\x7d\x7d"

/-- And to 131. -/
def secondText : String :=
  "\x7b\"t\":2,\"kind\":\"cursor\",\"id\":\"eth\",\"state\":\"\",\"fields\":\x7b\"n\":131\x7d\x7d"

def cursorEvent (t n : ℕ) : Event (ℕ ⊕ String) :=
  ⟨t, "cursor", "eth", "", (∅ : OrderedMap String (ℕ ⊕ String)).insert "n" (.inl n)⟩

/-- The two texts and their events. -/
instance : EventCodec (ℕ ⊕ String) where
  asU64 := Sum.getLeft?
  asStr := Sum.getRight?
  toText ev := if ev.t = 1 then firstText.toList else secondText.toList
  ofText t :=
    if t = firstText.toList then some (cursorEvent 1 130)
    else if t = secondText.toList then some (cursorEvent 2 131)
    else none

lemma faithful_first : (cursorEvent 1 130).Faithful where
  roundTrip := rfl
  oneLine := by decide
  opens := by decide
  closes := by decide

lemma faithful_second : (cursorEvent 2 131).Faithful where
  roundTrip := rfl
  oneLine := by decide
  opens := by decide
  closes := by decide

/-- A shorter text is neither of the two. -/
lemma selfContained_second : (cursorEvent 2 131).SelfContained := by
  intro t hpart hne
  have hlength : t.length < secondText.toList.length := by
    refine lt_of_le_of_ne hpart.length_le fun heq => hne ?_
    exact hpart.eq_of_length heq
  have hfirst : t ≠ firstText.toList := by
    rintro rfl
    exact absurd hlength (by decide)
  have hsecond : t ≠ secondText.toList := by
    rintro rfl
    exact absurd hlength (lt_irrefl _)
  change (if t = firstText.toList then _ else if t = secondText.toList then _ else none) = none
  rw [if_neg hfirst, if_neg hsecond]

/-- An event is written, the process is killed without one of the second event's bytes in the file,
starts again and writes it. -/
def wholeRun : List (LedgerOp (ℕ ⊕ String)) :=
  [.start, .write (cursorEvent 1 130), .crash (cursorEvent 2 131) 0, .start,
    .write (cursorEvent 2 131)]

theorem wholeRun_opens : ∃ s : Service (ℕ ⊕ String), Path (Service.Step 100 5) .fresh wholeRun s ∧
    s.written = [cursorEvent 1 130, cursorEvent 2 131] ∧
      Ledger.openFile (ℕ ⊕ String) s.file 100 5 = .ok (s.fold 100 5) := by
  have hpos : ¬ (cursorEvent 2 131).toBytes.length ≤ 0 := by simp [Event.toBytes]
  have hfaithful : ∀ e ∈ [cursorEvent 1 130], e.Faithful := by simpa using faithful_first
  have hopen := Ledger.openFile_of_whole hfaithful 100 5
  have hsecond := (((@Path.nil _ _ (Service.Step 100 5) .fresh).snoc
    (Service.Step.start .fresh)).snoc (Service.Step.write (l := .init 100 5) rfl
      (cursorEvent 1 130))).snoc
    (Service.Step.crash rfl (cursorEvent 2 131) 0)
  have hrun := (hsecond.snoc (Service.Step.start _)).snoc
    (Service.Step.write (l := [cursorEvent 1 130].foldl Ledger.fold (.init 100 5)) (by
      simp only [List.take_zero, List.append_nil]
      rw [List.flatMap_cons, List.flatMap_nil, List.append_nil] at hopen
      exact congrArg Except.toOption hopen) (cursorEvent 2 131))
  refine ⟨_, hrun, ?_, ?_⟩
  · simp only [hpos, if_false]
    rfl
  · refine (Service.openFile_eq_fold hrun ?_ ?_).1
    · simp only [List.nil_append, List.cons_append, List.forall_mem_cons, List.not_mem_nil,
        false_imp_iff, implies_true, and_true]
      exact ⟨trivial, faithful_first, faithful_second, trivial, faithful_second⟩
    · simp only [List.nil_append, List.cons_append, List.forall_mem_cons, List.not_mem_nil,
        false_imp_iff, implies_true, and_true]
      exact ⟨trivial, trivial, .inl rfl, trivial, trivial⟩

/-- The process is killed in the middle of the second line: it does not start again. -/
theorem torn_refused : ∃ s : Service (ℕ ⊕ String),
    Path (Service.Step 100 5) .fresh
      [.start, .write (cursorEvent 1 130), .crash (cursorEvent 2 131) 20] s ∧
    s.written = [cursorEvent 1 130] ∧
    Ledger.openFile (ℕ ⊕ String) s.file 100 5 ≠ .ok (s.fold 100 5) := by
  have hlong : 20 < (utf8 (toText (cursorEvent 2 131))).length := by decide
  have hpart : ¬ (cursorEvent 2 131).toBytes.length ≤ 20 := by
    rw [Event.toBytes, List.length_append]
    omega
  have hrun := (((@Path.nil _ _ (Service.Step 100 5) .fresh).snoc
    (Service.Step.start .fresh)).snoc (Service.Step.write (l := .init 100 5) rfl
      (cursorEvent 1 130))).snoc
    (Service.Step.crash rfl (cursorEvent 2 131) 20)
  refine ⟨_, hrun, ?_, ?_⟩
  · simp only [hpart, if_false]
    rfl
  · have hfaithful : ∀ e ∈ [cursorEvent 1 130], e.Faithful := by simpa using faithful_first
    obtain ⟨e, he⟩ := Ledger.openFile_of_part hfaithful faithful_second selfContained_second
      (by norm_num) hlong 100 5
    rw [List.flatMap_cons, List.flatMap_nil, List.append_nil] at he
    simp only [Service.fresh, List.nil_append]
    rw [he]
    exact nofun

end Concrete

end HashKinetics.LedgerFile
