import HashKinetics.Node.Batch

/-!
# Streamed proposals

A proposal travels as a stream of parts: an opening part, chunks of the batch, and a closing part
with the declared id of the value.  A node collects the parts of every stream of every peer and
reassembles a proposal when the stream is complete.
-/

namespace HashKinetics

open Foundations

/-- The opening part of a proposal. -/
structure HkProposalInit (H : Type) where
  height : ℕ
  round : Round
  polRound : Round
  proposer : HkAddress H

/-- A part of a streamed proposal. -/
inductive HkProposalPart (H : Type) where
  | init (info : HkProposalInit H)
  | txBatch (data : List UInt8)
  | fin (valueId : H)

namespace HkProposalPart

variable {H : Type}

def asInit : HkProposalPart H → Option (HkProposalInit H)
  | init info => some info
  | _ => none

def asTxBatch : HkProposalPart H → Option (List UInt8)
  | txBatch data => some data
  | _ => none

def asFin : HkProposalPart H → Option H
  | fin valueId => some valueId
  | _ => none

end HkProposalPart

/-- A message of a stream: a part, or nothing for the end of the stream. -/
structure StreamMessage (H : Type) where
  streamId : ℕ
  sequence : ℕ
  content : Option (HkProposalPart H)

namespace StreamMessage

variable {H : Type}

def isFirst (msg : StreamMessage H) : Bool := msg.sequence = 0
def isFin (msg : StreamMessage H) : Bool := msg.content.isNone

end StreamMessage

/-- A reassembled proposal. -/
structure ProposalParts (H : Type) extends HkProposalInit H where
  parts : List (HkProposalPart H)

/-- The declared value id. -/
def ProposalParts.fin {H : Type} (p : ProposalParts H) : Option H :=
  p.parts.findSome? HkProposalPart.asFin

/-- The concatenated chunks of the batch. -/
def ProposalParts.batch {H : Type} (p : ProposalParts H) : List UInt8 :=
  p.parts.flatMap fun part => part.asTxBatch.getD []

/-- The parts collected so far of one stream of one peer. -/
structure StreamState (H : Type) where
  buffer : List (StreamMessage H)
  initInfo : Option (HkProposalInit H)
  seenSequences : OrderedSet ℕ
  totalMessages : ℕ
  finReceived : Bool

namespace StreamState

variable {H : Type}

def new : StreamState H := ⟨[], none, ∅, 0, false⟩

def isDone (s : StreamState H) : Bool :=
  s.initInfo.isSome && s.finReceived && s.buffer.length == s.totalMessages

/-- The parts in the order of their sequence numbers. -/
def drain (s : StreamState H) : List (HkProposalPart H) :=
  (s.buffer.insertionSort fun a b => a.sequence ≤ b.sequence).filterMap StreamMessage.content

/-- Take in one message of the stream. -/
def insert (s : StreamState H) (msg : StreamMessage H) : Option (ProposalParts H) × StreamState H :=
  let s := if msg.isFirst then { s with initInfo := msg.content.bind HkProposalPart.asInit } else s
  let s := if msg.isFin then
      { s with finReceived := true, totalMessages := msg.sequence + 1 } else s
  let s := { s with buffer := s.buffer ++ [msg] }
  match s.initInfo with
  | some info =>
    if s.isDone then (some ⟨info, s.drain⟩, { s with initInfo := none, buffer := [] }) else (none,
      s)
  | none => (none, s)

end StreamState

/-- The streams of all peers. -/
abbrev PartStreamsMap (H : Type) := OrderedMap (ℕ ×ₗ ℕ) (StreamState H)

/-- Take in one message of a peer; a sequence number counts only once. -/
def PartStreamsMap.insertPart {H : Type} (m : PartStreamsMap H) (peer : ℕ) (msg : StreamMessage H) :
    Option (ProposalParts H) × PartStreamsMap H :=
  let key := toLex (peer, msg.streamId)
  let s := m[key]?.getD StreamState.new
  if s.seenSequences.contains msg.sequence then (none, m.insert key s)
  else
    let (result, s) := { s with seenSequences := s.seenSequences.insert msg.sequence }.insert msg
    (result, if s.isDone then m.erase key else m.insert key s)

end HashKinetics
