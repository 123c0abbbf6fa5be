import HashKinetics.Foundations.Checked
import HashKinetics.Foundations.FixedWidth
import HashKinetics.Foundations.Transition

/-!
# The Ethereum side of the bridge

`AttestorSet` and `DailyLimit` are the two parts that both contracts inherit, together with the
pause switch and the two-step owner; `HKVault` locks and releases one ERC-20, `HKWrapped` is itself
one and mints and burns.  A call runs on the storage it finds and either returns the new storage or
reverts, and a reverted call leaves no trace.

The signature recovery and the hash of the EVM are parameters.  The token is a standard ERC-20, with
the interface and the refusals of the reference implementation that `HKWrapped` inherits.
-/

namespace HashKinetics.Bridge

open Foundations

/-- A 20-byte address, ordered as a number. -/
abbrev Address := Fin (2 ^ 160)

/-- A 32-byte word. -/
abbrev Bytes32 := Fin (2 ^ 256)

/-- The largest value of a `uint256`. -/
def MAX_UINT256 : ℕ := 2 ^ 256 - 1

/-- The seconds of a day. -/
def DAY : ℕ := 86400

/-- The hash and the signature recovery of the EVM; a failed recovery reverts. -/
class EvmSuite where
  keccak256 : List UInt8 → Bytes32
  recover : Bytes32 → List UInt8 → Option Address

export EvmSuite (keccak256 recover)

/-- A number as a big-endian 32-byte word. -/
def wordBytes (n : ℕ) : List UInt8 :=
  (List.range 32).reverse.map fun i => UInt8.ofNat (n / 256 ^ i)

/-- `abi.encode` of static values: one word each. -/
def abiEncode (words : List ℕ) : List UInt8 := words.flatMap wordBytes

/-- Why a call reverts. -/
inductive Revert where
  | enforcedPause
  | expectedPause
  | ownableUnauthorizedAccount (caller : Address)
  | ownableInvalidOwner
  | notAttestorOrOwner (caller : Address)
  | badThreshold (threshold attestors : ℕ)
  | zeroAttestor
  | duplicateAttestor (attestor : Address)
  | ecdsaInvalidSignature
  | signaturesNotSorted
  | notEnoughAttestations (valid threshold : ℕ)
  | dailyCapExceeded (requested remaining : ℕ)
  | zeroAccount
  | zeroAddress
  | zeroAmount
  | belowMinLock (amount minLock : ℕ)
  | alreadyProcessed (id : Bytes32)
  | erc20InvalidSender
  | erc20InvalidReceiver
  | erc20InvalidSpender
  | erc20InsufficientBalance
  | erc20InsufficientAllowance
  | arithmeticOverflow
  deriving DecidableEq

/-- Checked addition of Solidity. -/
def addChecked (a b : ℕ) : Except Revert ℕ :=
  match checkedAdd MAX_UINT256 a b with
  | some c => .ok c
  | none => .error .arithmeticOverflow

/-- Who calls, and the timestamp of the block. -/
structure Msg where
  sender : Address
  timestamp : ℕ

/-- The UTC day of a call. -/
def Msg.day (m : Msg) : ℕ := m.timestamp / DAY

/-! ## The attestor set -/

/-- The storage of `AttestorSet`, with the pause switch and the two-step owner it inherits. -/
structure AttestorSet where
  attestors : List Address
  isAttestor : Address → Bool
  threshold : ℕ
  paused : Bool
  owner : Address
  pendingOwner : Address

namespace AttestorSet

/-- Forget every member of the old list. -/
def clear (old : List Address) (isAttestor : Address → Bool) : Address → Bool :=
  old.foldl (fun m a => Function.update m a false) isAttestor

/-- Enter one member of the new list. -/
def enroll (st : List Address × (Address → Bool)) (a : Address) :
    Except Revert (List Address × (Address → Bool)) :=
  if a = 0 then .error .zeroAttestor
  else if st.2 a then .error (.duplicateAttestor a)
  else .ok (st.1 ++ [a], Function.update st.2 a true)

/-- `_setAttestors`. -/
def replace (attestors : List Address) (threshold : ℕ) (s : AttestorSet) :
    Except Revert AttestorSet := do
  refuseIf (threshold = 0 ∨ attestors.length < threshold)
    (.badThreshold threshold attestors.length)
  let (list, mapping) ← attestors.foldlM enroll ([], clear s.attestors s.isAttestor)
  return { s with attestors := list, isAttestor := mapping, threshold := threshold }

/-- The constructor: the owner, then the first set. -/
def construct (attestors : List Address) (threshold : ℕ) (owner : Address) :
    Except Revert AttestorSet := do
  refuseIf (owner = 0) .ownableInvalidOwner
  replace attestors threshold ⟨[], fun _ => false, 0, false, owner, 0⟩

/-- `onlyOwner`. -/
def onlyOwner (s : AttestorSet) (msg : Msg) : Except Revert Unit :=
  refuseIf (msg.sender ≠ s.owner) (.ownableUnauthorizedAccount msg.sender)

/-- `whenNotPaused`. -/
def whenNotPaused (s : AttestorSet) : Except Revert Unit :=
  refuseIf (s.paused = true) .enforcedPause

def setAttestors (msg : Msg) (attestors : List Address) (threshold : ℕ) (s : AttestorSet) :
    Except Revert AttestorSet := do
  s.onlyOwner msg
  replace attestors threshold s

/-- Any attestor or the owner stops the contract. -/
def pause (msg : Msg) (s : AttestorSet) : Except Revert AttestorSet := do
  refuseIf (msg.sender ≠ s.owner ∧ s.isAttestor msg.sender = false)
    (.notAttestorOrOwner msg.sender)
  s.whenNotPaused
  return { s with paused := true }

/-- Only the owner resumes. -/
def unpause (msg : Msg) (s : AttestorSet) : Except Revert AttestorSet := do
  s.onlyOwner msg
  refuseIf (s.paused = false) .expectedPause
  return { s with paused := false }

def transferOwnership (msg : Msg) (newOwner : Address) (s : AttestorSet) :
    Except Revert AttestorSet := do
  s.onlyOwner msg
  return { s with pendingOwner := newOwner }

def acceptOwnership (msg : Msg) (s : AttestorSet) : Except Revert AttestorSet := do
  refuseIf (s.pendingOwner ≠ msg.sender) (.ownableUnauthorizedAccount msg.sender)
  return { s with owner := msg.sender, pendingOwner := 0 }

def renounceOwnership (msg : Msg) (s : AttestorSet) : Except Revert AttestorSet := do
  s.onlyOwner msg
  return { s with owner := 0, pendingOwner := 0 }

section Attested

variable [EvmSuite]

/-- The loop of `_requireAttested`: the signers must ascend strictly, and the attestors among them
are counted. -/
def countAttested (digest : Bytes32) (isAttestor : Address → Bool) :
    List (List UInt8) → Address → ℕ → Except Revert ℕ
  | [], _, valid => .ok valid
  | sig :: sigs, last, valid =>
    match recover digest sig with
    | none => .error .ecdsaInvalidSignature
    | some signer =>
      if signer ≤ last then .error .signaturesNotSorted
      else countAttested digest isAttestor sigs signer
        (if isAttestor signer then valid + 1 else valid)

/-- `_hashTypedDataV4`. -/
def typedDigest (domainSeparator structHash : Bytes32) : Bytes32 :=
  keccak256 ([0x19, 0x01] ++ wordBytes domainSeparator ++ wordBytes structHash)

/-- `_requireAttested`. -/
def requireAttested (domainSeparator structHash : Bytes32) (sigs : List (List UInt8))
    (s : AttestorSet) : Except Revert Unit := do
  let valid ← countAttested (typedDigest domainSeparator structHash) s.isAttestor sigs 0 0
  refuseIf (valid < s.threshold) (.notEnoughAttestations valid s.threshold)

end Attested

end AttestorSet

/-! ## The daily limit -/

/-- The storage of `DailyLimit`. -/
structure DailyLimit where
  dailyCap : ℕ
  dayIndex : ℕ
  usedToday : ℕ

namespace DailyLimit

/-- A cap on a fresh contract. -/
def init (cap : ℕ) : DailyLimit := ⟨cap, 0, 0⟩

/-- `_setDailyCap`. -/
def setCap (cap : ℕ) (l : DailyLimit) : DailyLimit := { l with dailyCap := cap }

/-- How much can still pass on the day. -/
def remainingToday (day : ℕ) (l : DailyLimit) : ℕ :=
  let used := if day = l.dayIndex then l.usedToday else 0
  if l.dailyCap ≤ used then 0 else l.dailyCap - used

/-- `_consumeDaily`. -/
def consume (day amount : ℕ) (l : DailyLimit) : Except Revert DailyLimit := do
  let rolled := if day ≠ l.dayIndex then { l with dayIndex := day, usedToday := 0 } else l
  let remaining := if rolled.dailyCap ≤ rolled.usedToday then 0
    else rolled.dailyCap - rolled.usedToday
  refuseIf (remaining < amount) (.dailyCapExceeded amount remaining)
  let used ← addChecked rolled.usedToday amount
  return { rolled with usedToday := used }

end DailyLimit

/-! ## The token -/

/-- The storage of a standard ERC-20. -/
structure Erc20 where
  balanceOf : Address → ℕ
  allowance : Address → Address → ℕ
  totalSupply : ℕ

namespace Erc20

/-- The first half of `_update`: the zero address as source mints. -/
def debit (src : Address) (value : ℕ) (t : Erc20) : Except Revert Erc20 :=
  if src = 0 then
    (fun supply => { t with totalSupply := supply }) <$> addChecked t.totalSupply value
  else if t.balanceOf src < value then .error .erc20InsufficientBalance
  else .ok { t with balanceOf := Function.update t.balanceOf src (t.balanceOf src - value) }

/-- The second half of `_update`: the zero address as destination burns. -/
def credit (dst : Address) (value : ℕ) (t : Erc20) : Erc20 :=
  if dst = 0 then { t with totalSupply := t.totalSupply - value }
  else { t with balanceOf := Function.update t.balanceOf dst (t.balanceOf dst + value) }

/-- `_update`. -/
def move (src dst : Address) (value : ℕ) (t : Erc20) : Except Revert Erc20 :=
  credit dst value <$> t.debit src value

/-- `_transfer`. -/
def transferBetween (src dst : Address) (value : ℕ) (t : Erc20) : Except Revert Erc20 := do
  refuseIf (src = 0) .erc20InvalidSender
  refuseIf (dst = 0) .erc20InvalidReceiver
  t.move src dst value

def transfer (caller dst : Address) (value : ℕ) (t : Erc20) : Except Revert Erc20 :=
  t.transferBetween caller dst value

def approve (caller spender : Address) (value : ℕ) (t : Erc20) : Except Revert Erc20 := do
  refuseIf (caller = 0) .erc20InvalidSender
  refuseIf (spender = 0) .erc20InvalidSpender
  let granted := Function.update (t.allowance caller) spender value
  return { t with allowance := Function.update t.allowance caller granted }

/-- `_spendAllowance`: an unlimited allowance is not spent. -/
def spendAllowance (holder spender : Address) (value : ℕ) (t : Erc20) : Except Revert Erc20 :=
  if MAX_UINT256 ≤ t.allowance holder spender then .ok t
  else if t.allowance holder spender < value then .error .erc20InsufficientAllowance
  else t.approve holder spender (t.allowance holder spender - value)

def transferFrom (caller src dst : Address) (value : ℕ) (t : Erc20) : Except Revert Erc20 := do
  let t₁ ← t.spendAllowance src caller value
  t₁.transferBetween src dst value

/-- `_mint`. -/
def mint (account : Address) (value : ℕ) (t : Erc20) : Except Revert Erc20 := do
  refuseIf (account = 0) .erc20InvalidReceiver
  t.move 0 account value

/-- `_burn`. -/
def burn (account : Address) (value : ℕ) (t : Erc20) : Except Revert Erc20 := do
  refuseIf (account = 0) .erc20InvalidSender
  t.move account 0 value

end Erc20

/-- A call of the token interface. -/
inductive TokenCall where
  | transfer (dst : Address) (value : ℕ)
  | approve (spender : Address) (value : ℕ)
  | transferFrom (src dst : Address) (value : ℕ)

/-- The recipient of a call of the token interface. -/
def TokenCall.recipient : TokenCall → Option Address
  | .transfer dst _ => some dst
  | .approve _ _ => none
  | .transferFrom _ dst _ => some dst

def TokenCall.exec (caller : Address) (t : Erc20) : TokenCall → Except Revert Erc20
  | .transfer dst value => t.transfer caller dst value
  | .approve spender value => t.approve caller spender value
  | .transferFrom src dst value => t.transferFrom caller src dst value

/-! ## What both contracts inherit -/

/-- The storage that both contracts share: the attestor set, the daily limit and the replay
guard. -/
structure Gate extends AttestorSet, DailyLimit where
  processed : Bytes32 → Bool

/-- The calls of the owner and of the brake. -/
inductive AdminCall where
  | setAttestors (attestors : List Address) (threshold : ℕ)
  | setDailyCap (cap : ℕ)
  | pause
  | unpause
  | transferOwnership (newOwner : Address)
  | acceptOwnership
  | renounceOwnership

namespace Gate

/-- A call on the attestor set alone. -/
def onSet (g : Gate) (f : AttestorSet → Except Revert AttestorSet) : Except Revert Gate := do
  let s ← f g.toAttestorSet
  return { g with toAttestorSet := s }

def setDailyCap (msg : Msg) (cap : ℕ) (g : Gate) : Except Revert Gate := do
  g.onlyOwner msg
  return { g with toDailyLimit := g.toDailyLimit.setCap cap }

def admin (msg : Msg) (g : Gate) : AdminCall → Except Revert Gate
  | .setAttestors attestors threshold => g.onSet (AttestorSet.setAttestors msg attestors threshold)
  | .setDailyCap cap => g.setDailyCap msg cap
  | .pause => g.onSet (AttestorSet.pause msg)
  | .unpause => g.onSet (AttestorSet.unpause msg)
  | .transferOwnership newOwner => g.onSet (AttestorSet.transferOwnership msg newOwner)
  | .acceptOwnership => g.onSet (AttestorSet.acceptOwnership msg)
  | .renounceOwnership => g.onSet (AttestorSet.renounceOwnership msg)

variable [EvmSuite]

/-- The attested part of a release: the replay guard, the signatures, the daily limit. -/
def release (domainSeparator structHash : Bytes32) (day amount : ℕ) (id : Bytes32)
    (sigs : List (List UInt8)) (g : Gate) : Except Revert Gate := do
  refuseIf (g.processed id = true) (.alreadyProcessed id)
  g.requireAttested domainSeparator structHash sigs
  let limit ← g.toDailyLimit.consume day amount
  return { g with toDailyLimit := limit, processed := Function.update g.processed id true }

end Gate

/-- Where a contract stands: its address, its chain and its EIP-712 domain. -/
structure Deployment where
  self : Address
  chainId : ℕ
  domainSeparator : Bytes32

section Contracts

variable [EvmSuite]

/-- The id of the `nonce`-th lock or burn of a contract. -/
def Deployment.eventId (d : Deployment) (nonce : ℕ) : Bytes32 :=
  keccak256 (abiEncode [d.chainId, d.self, nonce])

/-! ## `HKVault` -/

def UNLOCK_TYPEHASH : Bytes32 :=
  keccak256 "Unlock(address to,uint256 amount,bytes32 burnId)".toUTF8.toList

/-- The storage of `HKVault`. -/
structure HKVault extends Gate where
  lockNonce : ℕ
  minLock : ℕ

namespace HKVault

def construct (token : Address) (attestors : List Address) (threshold dailyCap minLock : ℕ)
    (owner : Address) : Except Revert HKVault := do
  let set ← AttestorSet.construct attestors threshold owner
  refuseIf (token = 0) .zeroAddress
  return ⟨⟨set, .init dailyCap, fun _ => false⟩, 0, minLock⟩

def unlockStructHash (dst : Address) (amount : ℕ) (burnId : Bytes32) : Bytes32 :=
  keccak256 (abiEncode [UNLOCK_TYPEHASH, dst, amount, burnId])

/-- Pull the tokens in; the result is the id of the deposit. -/
def lock (d : Deployment) (msg : Msg) (amount : ℕ) (hkAccount : Bytes32) (v : HKVault) (t : Erc20) :
    Except Revert (Bytes32 × HKVault × Erc20) := do
  v.whenNotPaused
  refuseIf (hkAccount = 0) .zeroAccount
  refuseIf (amount < v.minLock) (.belowMinLock amount v.minLock)
  let nonce ← addChecked v.lockNonce 1
  let t ← t.transferFrom d.self msg.sender d.self amount
  return (d.eventId nonce, { v with lockNonce := nonce }, t)

/-- Pay the tokens out for a burn on the other side. -/
def unlock (d : Deployment) (msg : Msg) (dst : Address) (amount : ℕ) (burnId : Bytes32)
    (sigs : List (List UInt8)) (v : HKVault) (t : Erc20) : Except Revert (HKVault × Erc20) := do
  v.whenNotPaused
  refuseIf (dst = 0) .zeroAddress
  let g ← v.toGate.release d.domainSeparator (unlockStructHash dst amount burnId) msg.day amount
    burnId sigs
  let t ← t.transfer d.self dst amount
  return ({ v with toGate := g }, t)

def setMinLock (msg : Msg) (minLock : ℕ) (v : HKVault) : Except Revert HKVault := do
  v.onlyOwner msg
  return { v with minLock := minLock }

/-- The reconciliation number. -/
def reserves (d : Deployment) (t : Erc20) : ℕ := t.balanceOf d.self

end HKVault

/-- A call to the vault, or to its token by somebody else. -/
inductive VaultCall where
  | lock (amount : ℕ) (hkAccount : Bytes32)
  | unlock (dst : Address) (amount : ℕ) (burnId : Bytes32) (sigs : List (List UInt8))
  | setMinLock (minLock : ℕ)
  | admin (call : AdminCall)
  | token (call : TokenCall)

def VaultCall.exec (d : Deployment) (msg : Msg) (w : HKVault × Erc20) :
    VaultCall → Except Revert (HKVault × Erc20)
  | .lock amount hkAccount => (·.2) <$> w.1.lock d msg amount hkAccount w.2
  | .unlock dst amount burnId sigs => w.1.unlock d msg dst amount burnId sigs w.2
  | .setMinLock minLock => (·, w.2) <$> w.1.setMinLock msg minLock
  | .admin call => (fun g => ({ w.1 with toGate := g }, w.2)) <$> w.1.toGate.admin msg call
  | .token call => (w.1, ·) <$> call.exec msg.sender w.2

/-! ## `HKWrapped` -/

def MINT_TYPEHASH : Bytes32 :=
  keccak256 "Mint(address to,uint256 amount,bytes32 mintId)".toUTF8.toList

/-- The storage of `HKWrapped`, a token of its own. -/
structure HKWrapped extends Gate, Erc20 where
  burnNonce : ℕ

namespace HKWrapped

def construct (attestors : List Address) (threshold dailyCap : ℕ) (owner : Address) :
    Except Revert HKWrapped := do
  let set ← AttestorSet.construct attestors threshold owner
  return ⟨⟨set, .init dailyCap, fun _ => false⟩, ⟨fun _ => 0, fun _ _ => 0, 0⟩, 0⟩

def mintStructHash (dst : Address) (amount : ℕ) (mintId : Bytes32) : Bytes32 :=
  keccak256 (abiEncode [MINT_TYPEHASH, dst, amount, mintId])

def mint (d : Deployment) (msg : Msg) (dst : Address) (amount : ℕ) (mintId : Bytes32)
    (sigs : List (List UInt8)) (w : HKWrapped) : Except Revert HKWrapped := do
  w.whenNotPaused
  refuseIf (dst = 0) .zeroAddress
  refuseIf (amount = 0) .zeroAmount
  let g ← w.toGate.release d.domainSeparator (mintStructHash dst amount mintId) msg.day amount
    mintId sigs
  let t ← w.toErc20.mint dst amount
  return { w with toGate := g, toErc20 := t }

/-- Burn; the result is the id of the burn. -/
def burn (d : Deployment) (msg : Msg) (amount : ℕ) (hkAccount : Bytes32) (w : HKWrapped) :
    Except Revert (Bytes32 × HKWrapped) := do
  w.whenNotPaused
  refuseIf (hkAccount = 0) .zeroAccount
  refuseIf (amount = 0) .zeroAmount
  let nonce ← addChecked w.burnNonce 1
  let t ← w.toErc20.burn msg.sender amount
  return (d.eventId nonce, { w with toErc20 := t, burnNonce := nonce })

end HKWrapped

/-- A call to the wrapped token. -/
inductive WrappedCall where
  | mint (dst : Address) (amount : ℕ) (mintId : Bytes32) (sigs : List (List UInt8))
  | burn (amount : ℕ) (hkAccount : Bytes32)
  | admin (call : AdminCall)
  | token (call : TokenCall)

def WrappedCall.exec (d : Deployment) (msg : Msg) (w : HKWrapped) :
    WrappedCall → Except Revert HKWrapped
  | .mint dst amount mintId sigs => w.mint d msg dst amount mintId sigs
  | .burn amount hkAccount => (·.2) <$> w.burn d msg amount hkAccount
  | .admin call => (fun g => { w with toGate := g }) <$> w.toGate.admin msg call
  | .token call => (fun t => { w with toErc20 := t }) <$> call.exec msg.sender w.toErc20

end Contracts

/-! ## Runs -/

/-- A transaction: who calls what and when, and whether it went through. -/
structure Transaction (C : Type) where
  msg : Msg
  call : C
  succeeds : Bool

/-- One transaction on a contract with code `exec`: a call that succeeds writes its storage, one
that reverts writes nothing; the timestamps of the chain never go back, and no contract of ours is
ever the caller. -/
inductive ChainStep {C W : Type} (self : Address) (exec : Msg → W → C → Except Revert W) :
    W × ℕ → Transaction C → W × ℕ → Prop
  | executed {w w' : W} {now : ℕ} {msg : Msg} {c : C} (htime : now ≤ msg.timestamp)
      (hcaller : msg.sender ≠ self) (h : exec msg w c = .ok w') :
      ChainStep self exec (w, now) ⟨msg, c, true⟩ (w', msg.timestamp)
  | reverted {w : W} {now : ℕ} {msg : Msg} {c : C} {e : Revert} (htime : now ≤ msg.timestamp)
      (hcaller : msg.sender ≠ self) (h : exec msg w c = .error e) :
      ChainStep self exec (w, now) ⟨msg, c, false⟩ (w, msg.timestamp)

/-- A call, executed: what the contract holds afterwards, and the transaction as it went. -/
def execute {C W : Type} (exec : Msg → W → C → Except Revert W) (u : W × ℕ) (msg : Msg) (c : C) :
    (W × ℕ) × Transaction C :=
  match exec msg u.1 c with
  | .ok w' => ((w', msg.timestamp), ⟨msg, c, true⟩)
  | .error _ => ((u.1, msg.timestamp), ⟨msg, c, false⟩)

lemma chainStep_execute {C W : Type} {self : Address} {exec : Msg → W → C → Except Revert W}
    (u : W × ℕ) {msg : Msg} (c : C) (htime : u.2 ≤ msg.timestamp) (hcaller : msg.sender ≠ self) :
    ChainStep self exec u (execute exec u msg c).2 (execute exec u msg c).1 := by
  unfold execute
  cases h : exec msg u.1 c with
  | ok w' => exact .executed htime hcaller h
  | error e => exact .reverted htime hcaller h

@[simp] lemma call_execute {C W : Type} (exec : Msg → W → C → Except Revert W) (u : W × ℕ)
    (msg : Msg) (c : C) : (execute exec u msg c).2.call = c := by
  unfold execute
  split <;> rfl

end HashKinetics.Bridge
