import HashKinetics.State.Machine

/-!
# Genesis and configuration

The state a genesis file describes, the configuration a node injects into it before the first block,
and the conservation view of the ledger.
-/

namespace HashKinetics

open Foundations

structure GenesisAccount (H : Type) where
  id : H
  authCommit : H

/-- The envelope fee as a genesis fact. -/
structure GenesisFee (H : Type) where
  micro : ℕ
  fromHeight : ℕ
  asset : Option H

/-- An asset registered from block zero, under any id. -/
structure GenesisAsset (H : Type) where
  id : H
  symbol : String
  decimals : ℕ
  issuer : H
  policy : AssetPolicy

/-- One genesis allocation. -/
structure Allocation (H : Type) where
  account : H
  asset : H
  amount : ℕ

structure Genesis (H : Type) where
  time : ℕ
  accounts : List (GenesisAccount H)
  alloc : List (Allocation H)
  fee : Option (GenesisFee H)
  assets : List (GenesisAsset H)

namespace State

variable {H : Type} [LinearOrder H] [HashSuite H]

/-- Insert one genesis account. -/
def addGenesisAccount (s : State H) (ga : GenesisAccount H) : Except StateError (State H) :=
  if s.accounts.contains ga.id then .error .duplicateAccount
  else .ok (s.setAccount ga.id ⟨ga.authCommit, 0⟩)

/-- Register one genesis asset. -/
def addGenesisAsset (s : State H) (ga : GenesisAsset H) : Except StateError (State H) :=
  if validSymbol ga.symbol = false then .error .badSymbol
  else if MAX_DECIMALS < ga.decimals then .error .badDecimals
  else if s.assets.contains ga.id then .error .duplicateAsset
  else .ok (s.setAsset ga.id ⟨ga.symbol, ga.decimals, ga.issuer, ga.policy, 0, 0, false, ∅, 0⟩)

/-- Credit one allocation, counting it toward the supply of a registered asset. -/
def allocate (s : State H) (al : Allocation H) : State H :=
  let s' := s.credited al.account al.asset al.amount
  match s.assets[al.asset]? with
  | some info => s'.setAsset al.asset { info with supply := satAdd u128Max info.supply al.amount }
  | none => s'

/-- The genesis-bound fee policy. -/
def withGenesisFee (s : State H) : Option (GenesisFee H) → State H
  | some f => { s with
      feeMicro := f.micro
      feeFrom := f.fromHeight
      feeAsset := f.asset.getD s.feeAsset }
  | none => s

/-- An issuer must never be able to stop the fee path. -/
def badFeeAssetPolicy (s : State H) : Bool :=
  match s.assets[s.feeAsset]? with
  | some info => info.policy.pausable || info.policy.freezable
  | none => false

def fromGenesis (g : Genesis H) : Except StateError (State H) := do
  let s ← g.accounts.foldlM addGenesisAccount { State.default with time := g.time }
  let s ← g.assets.foldlM addGenesisAsset s
  let s := withGenesisFee (g.alloc.foldl allocate s) g.fee
  if s.badFeeAssetPolicy then .error .badFeeAssetPolicy
  else .ok { s with pool := s.pool.sealAnchor }

/-- What a node injects after loading genesis: the proof verifier, the activation heights, and a fee
policy where the genesis carries none. -/
structure NodeConfig (H : Type) where
  verifier : ProofVerifier H
  fee : Option (ℕ × ℕ)
  multiPoolFrom : ℕ
  mandateAssetFrom : ℕ
  paywordCapFrom : ℕ

/-- The state with a node's configuration installed. -/
def configured (s : State H) (c : NodeConfig H) : State H :=
  { s with
    verifier := c.verifier
    feeMicro := (c.fee.map Prod.fst).getD s.feeMicro
    feeFrom := (c.fee.map Prod.snd).getD s.feeFrom
    multiPoolFrom := c.multiPoolFrom
    mandateAssetFrom := c.mandateAssetFrom
    paywordCapFrom := c.paywordCapFrom }

/-- The states a node may start from. -/
def Initial (g : Genesis H) (s : State H) : Prop :=
  ∃ s₀ c, fromGenesis g = .ok s₀ ∧ s = s₀.configured c

/-- Registered-asset conservation: what the state machine still accounts for, and what was issued
less what was burned. -/
def assetConservation (s : State H) (asset : H) : Option (ℕ × ℕ) :=
  match s.assets[asset]? with
  | none => none
  | some info =>
    let held := s.balances.toList.foldl
      (fun held e => if (ofLex e.1).2 = asset then satAdd u128Max held e.2 else held) 0
    let held := s.channels.toList.foldl
      (fun held e => if e.2.state.asset = asset then satAdd u128Max held e.2.escrowRemaining
        else held) held
    let held := if s.pool.asset = some asset then satAdd u128Max held s.pool.totalShielded
      else held
    let held := match s.pools[asset]? with
      | some p => satAdd u128Max held p.totalShielded
      | none => held
    let issued := info.supply - info.burned
    let issued := if asset = s.feeAsset then issued - s.feesBurned else issued
    some (held, issued)

end State

end HashKinetics
