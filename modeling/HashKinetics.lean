import HashKinetics.Foundations.OrderedMap
import HashKinetics.Foundations.Hex
import HashKinetics.Foundations.FixedWidth
import HashKinetics.Foundations.Exec
import HashKinetics.Foundations.Faults
import HashKinetics.Foundations.Loops
import HashKinetics.Foundations.MerkleTree
import HashKinetics.Foundations.Transition
import HashKinetics.Foundations.Checked
import HashKinetics.Foundations.Framing
import HashKinetics.Foundations.SelfDelimiting
import HashKinetics.Foundations.Decoding
import HashKinetics.Foundations.Indexing
import HashKinetics.Foundations.Quorum
import HashKinetics.Foundations.Checksum
import HashKinetics.Primitives
import HashKinetics.Crypto.OneTimeKeys
import HashKinetics.Crypto.PaywordChains
import HashKinetics.Circuit.Spend
import HashKinetics.Circuit.SpendTree
import HashKinetics.Mandate.Tree
import HashKinetics.Mandate.Budget
import HashKinetics.Mandate.Asset
import HashKinetics.Mandate.Walk
import HashKinetics.Mandate.Available
import HashKinetics.State.Pool
import HashKinetics.State.Types
import HashKinetics.State.Machine
import HashKinetics.State.Effects
import HashKinetics.State.Atomicity
import HashKinetics.State.Genesis
import HashKinetics.State.Commitment
import HashKinetics.Consensus.ValidatorSet
import HashKinetics.Consensus.Rotation
import HashKinetics.Consensus.SetChange
import HashKinetics.Consensus.Updates
import HashKinetics.Concrete
import HashKinetics.Consensus.RotationRule
import HashKinetics.Circuit.SpendKeys
import HashKinetics.State.Run
import HashKinetics.State.Conservation
import HashKinetics.State.PoolMoves
import HashKinetics.State.Solvency
import HashKinetics.State.Anchors
import HashKinetics.State.Preimage
import HashKinetics.State.MandateBudget
import HashKinetics.State.MandateAsset
import HashKinetics.State.Accounts
import HashKinetics.State.Debits
import HashKinetics.State.Revocation
import HashKinetics.State.MandateWalk
import HashKinetics.State.Channels
import HashKinetics.State.NoPanic
import HashKinetics.State.Gates
import HashKinetics.State.Coverage
import HashKinetics.State.Refusals
import HashKinetics.State.TreePath
import HashKinetics.Consensus.Seats
import HashKinetics.Consensus.Replay
import HashKinetics.Consensus.Epochs
import HashKinetics.Consensus.Quorum
import HashKinetics.Consensus.SignBytes
import HashKinetics.Consensus.SignerSeat
import HashKinetics.Consensus.Powers
import HashKinetics.Crypto.HashSig
import HashKinetics.Bridge.Contracts
import HashKinetics.Bridge.Gate
import HashKinetics.Bridge.ContractSafety
import HashKinetics.Bridge.Ledger
import HashKinetics.Bridge.EthEncoding
import HashKinetics.Bridge.LedgerFile
import HashKinetics.Bridge.Attestor
import HashKinetics.Bridge.MintOnce
import HashKinetics.Bridge.FinalLocks
import HashKinetics.Bridge.Releases
import HashKinetics.Wallet.NodeView
import HashKinetics.Wallet.Senders
import HashKinetics.Wallet.Amounts
import HashKinetics.Wallet.Notes
import HashKinetics.State.Spends
import HashKinetics.Wallet.HonestSpend
import HashKinetics.Wallet.Sealing
import HashKinetics.Wallet.Disclosure
import HashKinetics.Wallet.PagedScan
import HashKinetics.Wallet.ShieldCounters
import HashKinetics.Node.Batch
import HashKinetics.Node.Streams
import HashKinetics.Node.Apply
import HashKinetics.Node.Loop
import HashKinetics.Node.ContentBinding
import HashKinetics.Node.OwnValues
import HashKinetics.Node.Serving
import HashKinetics.Node.StoredHeights
import HashKinetics.Node.SetHistory
import HashKinetics.Node.Receipts
import HashKinetics.Node.Wal
import HashKinetics.Node.BlockLog
import HashKinetics.Node.Compaction
import HashKinetics.Node.SegmentFormat
import HashKinetics.Node.Aggregates
import HashKinetics.Node.Restart
import HashKinetics.Node.Feeds
import HashKinetics.Node.Mempool
import HashKinetics.Node.MempoolIndex
import HashKinetics.Node.MempoolOrder
import HashKinetics.Node.SettleBudget
import HashKinetics.Node.Door
import HashKinetics.Node.DoorRefusals
import HashKinetics.Node.LinkBudget
import HashKinetics.Node.SearchIndex
import HashKinetics.Node.IndexRuns
import HashKinetics.Node.ReceiptTruth
import HashKinetics.Node.Reassembly
import HashKinetics.Node.BatchCodec
import HashKinetics.Node.CertDoor
import HashKinetics.Node.CertDoorRuns
import HashKinetics.Node.Faucet
import HashKinetics.Wallet.Envelope
import HashKinetics.Wallet.Vault
import HashKinetics.Wallet.Resealing
import HashKinetics.Wallet.Passphrase
