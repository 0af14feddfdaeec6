import PsobIndexer.Lib.Bytes
import PsobIndexer.Lib.KMap
import PsobIndexer.Lib.Word
import PsobIndexer.Lib.Cursor
import PsobIndexer.Lib.Fallible
import PsobIndexer.Common
import PsobIndexer.Verify
import PsobIndexer.Agreement
import PsobIndexer.Siblings
import PsobIndexer.Chain
import PsobIndexer.TxParse
import PsobIndexer.Cauxpow
import PsobIndexer.Lib.CompactSize
import PsobIndexer.Wire
import PsobIndexer.TxExact
import PsobIndexer.CauxpowExact
import PsobIndexer.Widths
import PsobIndexer.Swap
import PsobIndexer.Db
import PsobIndexer.Atomicity
import PsobIndexer.OrderBook
import PsobIndexer.Resolve
import PsobIndexer.Lib.Run
import PsobIndexer.Mutators
import PsobIndexer.Coherence
import PsobIndexer.Restart
import PsobIndexer.Transparency
import PsobIndexer.Ingest
import PsobIndexer.Lib.Track
import PsobIndexer.Walk
import PsobIndexer.Ticks
import PsobIndexer.Rows
import PsobIndexer.Tracking
import PsobIndexer.Guest
import PsobIndexer.Server
import PsobIndexer.Lib.Chase
import PsobIndexer.Reorg
import PsobIndexer.Linkage
import PsobIndexer.Race
import PsobIndexer.Legs
import PsobIndexer.Lib.BigEndian
import PsobIndexer.Work
import PsobIndexer.OrderBounds
import PsobIndexer.Isolation
import PsobIndexer.Replace
import PsobIndexer.Lib.Pages
import PsobIndexer.Groups
import PsobIndexer.Pages
import PsobIndexer.Gossip
import PsobIndexer.Announced
import PsobIndexer.Lib.Shift
import PsobIndexer.Report
import PsobIndexer.Wasm
import PsobIndexer.Honest
import PsobIndexer.Pacing
import PsobIndexer.Pruning
import PsobIndexer.Counters
import PsobIndexer.Epochs
import PsobIndexer.Window
import PsobIndexer.Varints
import PsobIndexer.Lib.MerkleTree
import PsobIndexer.Merkle
import PsobIndexer.Lookups
import PsobIndexer.Lib.Abi
import PsobIndexer.Journal
import PsobIndexer.Lib.Text
import PsobIndexer.ChainSpecs
import PsobIndexer.Lib.Checked
import PsobIndexer.ProofInput
import PsobIndexer.PathFold
import PsobIndexer.Lib.IpAddr
import PsobIndexer.Lib.FixedWindow
import PsobIndexer.RateLimit
import PsobIndexer.Blocks
import PsobIndexer.Proofs
import PsobIndexer.Cosettle
import PsobIndexer.Lib.Unwind
import PsobIndexer.Independent
import PsobIndexer.Explain
import PsobIndexer.Deposit
import PsobIndexer.Settings
import PsobIndexer.Lib.CursorPages
import PsobIndexer.Payouts
import PsobIndexer.Lib.Backoff
import PsobIndexer.Retries
import PsobIndexer.Swarm
import PsobIndexer.Steady
import PsobIndexer.Views
import PsobIndexer.Dashboards
import PsobIndexer.Metrics
import PsobIndexer.Lib.Blind
import PsobIndexer.Node
import PsobIndexer.Registry
