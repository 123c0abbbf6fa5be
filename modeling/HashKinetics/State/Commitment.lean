import HashKinetics.State.Genesis

/-!
# Images and commitments of the chain state

What a snapshot keeps of the chain state, how a state is rebuilt from it, and the commitment that
every block names as its parent.  Neither the image nor the commitment covers what the node injects
(the proof verifier, the fee policy, the activation heights) or the coverage of the block in flight.
-/

namespace HashKinetics

open Foundations

def DOM_STATE_COMMIT : String := "hk/v1/state-commit"

/-- The JSON forms of the two records that enter the commitment as JSON. -/
class StateCodec (H : Type) where
  mandateJson : MandateNode H → List UInt8
  channelJson : Channel H → List UInt8

/-- Everything persistent of a chain state. -/
structure StateSnapshot (H : Type) [LinearOrder H] where
  height : ℕ
  time : ℕ
  accounts : OrderedMap H (Account H)
  balances : OrderedMap (H ×ₗ H) ℕ
  mandates : MandateTree H
  rootFunding : OrderedMap H H
  channels : OrderedMap H (Channel H)
  pool : PoolState H
  feesBurned : ℕ
  assets : OrderedMap H (AssetInfo H)
  pools : OrderedMap H (PoolState H)

section Pieces

variable {H : Type}

/-- The sixteen little-endian bytes of an amount. -/
def u128Pieces (n : ℕ) : List (Piece H) := [.u64 (n % 2 ^ 64), .u64 (n / 2 ^ 64)]

/-- The policy as a bit set. -/
def AssetPolicy.bits (p : AssetPolicy) : UInt8 :=
  UInt8.ofNat (p.mintable.toNat + 2 * p.freezable.toNat + 4 * p.pausable.toNat +
    8 * p.poolEligible.toNat)

variable [LinearOrder H]

/-- The layout of a registry entry in the commitment; the id is written before it. -/
def AssetInfo.commitInto (info : AssetInfo H) : List (Piece H) :=
  ([.digest info.issuer, .byte (UInt8.ofNat info.symbol.toUTF8.size),
    .bytes info.symbol.toUTF8.toList, .byte (UInt8.ofNat info.decimals), .byte info.policy.bits,
    .byte (UInt8.ofNat info.paused.toNat)] : List (Piece H)) ++
  u128Pieces info.supply ++ u128Pieces info.burned ++
  [.u64 info.registeredAt, .u64 info.frozen.size] ++ info.frozen.toList.map .digest

variable [HashSuite H]

/-- What one pool contributes to the commitment. -/
def commitPoolInto (p : PoolState H) : List (Piece H) :=
  ([.byte (UInt8.ofNat p.version)] : List (Piece H)) ++
  (match p.asset with
    | some a => [.byte 1, .digest a]
    | none => [.byte 0]) ++
  [.u64 p.tree.nextIndex, .digest p.tree.root, .u64 p.anchors.length] ++
  p.anchors.map .digest ++ [.u64 p.nullifiers.size] ++ p.nullifiers.toList.map .digest ++
  u128Pieces p.totalShielded

end Pieces

namespace State

variable {H : Type} [LinearOrder H] [HashSuite H]

/-- Export everything persistent. -/
def toSnapshot (s : State H) : StateSnapshot H where
  height := s.height
  time := s.time
  accounts := s.accounts
  balances := s.balances
  mandates := s.mandates
  rootFunding := s.rootFunding
  channels := s.channels
  pool := s.pool
  feesBurned := s.feesBurned
  assets := s.assets
  pools := s.pools

/-- Rebuild a state from its image; everything the node injects is back at its default. -/
def fromSnapshot (i : StateSnapshot H) : State H where
  height := i.height
  time := i.time
  accounts := i.accounts
  balances := i.balances
  mandates := i.mandates
  rootFunding := i.rootFunding
  channels := i.channels
  pool := i.pool
  verifier := RejectAllVerifier H
  aggCover := ∅
  feeMicro := 0
  feeFrom := u64Max
  feesBurned := i.feesBurned
  feeAsset := FEE_ASSET
  assets := i.assets
  pools := i.pools
  multiPoolFrom := u64Max
  mandateAssetFrom := u64Max
  paywordCapFrom := u64Max

/-- The state with the configuration of a running one. -/
def withConfigOf (s c : State H) : State H :=
  { s with
    verifier := c.verifier
    feeMicro := c.feeMicro
    feeFrom := c.feeFrom
    feeAsset := c.feeAsset
    multiPoolFrom := c.multiPoolFrom
    mandateAssetFrom := c.mandateAssetFrom
    paywordCapFrom := c.paywordCapFrom }

/-- The bytes the commitment hashes. -/
def commitmentPieces [StateCodec H] (s : State H) : List (Piece H) :=
  ([.u64 s.height, .u64 s.time] : List (Piece H)) ++
  (s.accounts.toList.flatMap fun e =>
    [.digest e.1, .digest e.2.authCommit, .u64 e.2.nonce] : List (Piece H)) ++
  (s.balances.toList.flatMap fun e =>
    [.digest (ofLex e.1).1, .digest (ofLex e.1).2] ++ u128Pieces e.2 : List (Piece H)) ++
  (s.mandates.nodes.toList.flatMap fun e =>
    [.digest e.1, .bytes (StateCodec.mandateJson e.2)] : List (Piece H)) ++
  (s.channels.toList.flatMap fun e =>
    [.digest e.1, .bytes (StateCodec.channelJson e.2)] : List (Piece H)) ++
  (s.rootFunding.toList.flatMap fun e => [.digest e.1, .digest e.2] : List (Piece H)) ++
  commitPoolInto s.pool ++
  -- the three later sections stay absent until they hold something
  (if 0 < s.feesBurned then .byte 0xFE :: u128Pieces s.feesBurned else []) ++
  (if s.assets.isEmpty then []
    else [.byte 0xA5, .u64 s.assets.size] ++
      s.assets.toList.flatMap fun e => .digest e.1 :: e.2.commitInto) ++
  (if s.pools.isEmpty then []
    else [.byte 0xB6, .u64 s.pools.size] ++
      s.pools.toList.flatMap fun e => .digest e.1 :: commitPoolInto e.2)

/-- The commitment to a state. -/
def stateCommitment [StateCodec H] (s : State H) : H :=
  shake256_32 DOM_STATE_COMMIT [s.commitmentPieces]

/-- Two states run under one configuration. -/
structure SameConfig (s c : State H) : Prop where
  verifier : s.verifier = c.verifier
  feeMicro : s.feeMicro = c.feeMicro
  feeFrom : s.feeFrom = c.feeFrom
  feeAsset : s.feeAsset = c.feeAsset
  multiPoolFrom : s.multiPoolFrom = c.multiPoolFrom
  mandateAssetFrom : s.mandateAssetFrom = c.mandateAssetFrom
  paywordCapFrom : s.paywordCapFrom = c.paywordCapFrom

/-- Between blocks, an image under the configuration of the running node is the whole state. -/
lemma fromSnapshot_toSnapshot {s c : State H} (hcover : s.aggCover = ∅) (hcfg : SameConfig s c) :
    (fromSnapshot s.toSnapshot).withConfigOf c = s := by
  obtain ⟨⟩ := s
  obtain ⟨⟩ := c
  obtain ⟨⟩ := hcfg
  simp_all [fromSnapshot, toSnapshot, withConfigOf]

end State

end HashKinetics
