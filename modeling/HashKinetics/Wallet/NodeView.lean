import HashKinetics.State.Run

/-!
# The node as its clients see it

A client asks a node for the nonce of an account, hands it a signed transaction, and asks for its
receipt.  The answer to a submission may be lost although the node took the transaction in, and it
may never have arrived.  Between any two calls the chain goes on: blocks are applied, and the
transactions they carry are committed or rejected.
-/

namespace HashKinetics

open Foundations

variable {H : Type} [LinearOrder H] [HashSuite H] [TxCodec H]

/-- The chain of a node, the transactions it holds for the next blocks, and those the chain has
definitively refused: rejected in a block that was applied. -/
structure NodeView (H : Type) [LinearOrder H] where
  state : State H
  mempool : List (SignedTx H)
  refused : List (SignedTx H)

/-- What becomes of a submission: the node takes the transaction in and says so; it takes it in and
the answer is lost; it turns it away at its own door; or the call never reaches it, or tells it
nothing new. -/
inductive Answer where
  | accepted
  | lost
  | turnedAway
  | undelivered
  deriving DecidableEq

namespace NodeView

/-- `hk_getAccount`: the nonce of an account that exists. -/
def accountNonce (c : NodeView H) (id : H) : Option ℕ := (c.state.accounts[id]?).map Account.nonce

/-- `hk_submitTx`: what the node does with the transaction, and whether the caller gets its id.  A
node that turns a transaction away speaks for itself, not for the chain: the signed bytes may come
back and be taken in. -/
def submit (c : NodeView H) (stx : SignedTx H) : Answer → Option (NodeView H × Bool)
  | .accepted => some ({ c with mempool := c.mempool ++ [stx] }, true)
  | .lost => some ({ c with mempool := c.mempool ++ [stx] }, false)
  | .turnedAway => some (c, false)
  | .undelivered => some (c, false)

/-- The transactions of a block that were rejected in it. -/
def rejected (txs : List (SignedTx H)) (receipts : List (Receipt H)) : List (SignedTx H) :=
  ((txs.zip receipts).filter fun e => !e.2.accepted).map Prod.fst

/-- The chain applies a block. -/
def applyBlock (c : NodeView H) (b : Block H) : Option (NodeView H) :=
  match State.applyBlockVerified b.height b.time b.txs b.verdicts c.state with
  | (.ok receipts, s') =>
    some ⟨s', c.mempool.filter (· ∉ b.txs), c.refused ++ rejected b.txs receipts⟩
  | _ => none

omit [HashSuite H] [TxCodec H] in
/-- Only blocks refuse: whatever a node answers, the chain has refused nothing by it. -/
lemma refused_submit {c c' : NodeView H} {stx : SignedTx H} {a : Answer} {got : Bool}
    (h : c.submit stx a = some (c', got)) : c'.refused = c.refused := by
  cases a <;>
    · cases h
      rfl

omit [HashSuite H] [TxCodec H] in
/-- A submission does not touch the chain. -/
lemma state_submit {c c' : NodeView H} {stx : SignedTx H} {a : Answer} {got : Bool}
    (h : c.submit stx a = some (c', got)) : c'.state = c.state := by
  cases a <;>
    · cases h
      rfl

/-- What the chain has refused stays refused. -/
lemma refused_subset_applyBlock {c c' : NodeView H} {b : Block H} (h : c.applyBlock b = some c') :
    c.refused ⊆ c'.refused := by
  unfold applyBlock at h
  split at h
  · cases h
    exact List.subset_append_left _ _
  · cases h

end NodeView

end HashKinetics
