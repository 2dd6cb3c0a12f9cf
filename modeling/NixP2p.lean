import NixP2p.Durable.Persist
import NixP2p.Records.Convergence
import NixP2p.Base.Text
import NixP2p.Base.Utf8
import NixP2p.Base.Lines
import NixP2p.Serving.NarHashKey
import NixP2p.Serving.NixBase32
import NixP2p.Serving.Narinfo
import NixP2p.Serving.RewriteFrame
import NixP2p.Serving.NarinfoReaders
import NixP2p.Transfer.Fetch
import NixP2p.Transfer.FetchWindow
import NixP2p.Serving.Http
import NixP2p.Serving.PeerSource
import NixP2p.Serving.Fallback
import NixP2p.Serving.Daemon
import NixP2p.Announcer.SeqFloor
import NixP2p.Announcer.Machine
import NixP2p.Announcer.Durability
import NixP2p.Announcer.Publication
import NixP2p.Records.Retention
import NixP2p.Directory.FloorStore
import NixP2p.Directory.Bounded
import NixP2p.Directory.Restart
import NixP2p.Base.MerkleTree
import NixP2p.Base.Source
import NixP2p.Transfer.BoundedZstd
import NixP2p.Transfer.NarV4
import NixP2p.Transfer.Completeness
import NixP2p.Transfer.Unfinished
import NixP2p.Transfer.Integrity
import NixP2p.Transfer.Traversal
import NixP2p.Transfer.Accounting
import NixP2p.Transfer.DecoderSafety
import NixP2p.Transfer.Chunking
import NixP2p.Base.Smallest
import NixP2p.Directory.FanOut
import NixP2p.Swarm.DialAuthority
import NixP2p.Swarm.DialCap
import NixP2p.Swarm.Multiaddr
import NixP2p.Swarm.RelayHints
import NixP2p.Swarm.LanProvenance
import NixP2p.Base.Holdings
import NixP2p.Serving.ServeGate
import NixP2p.Serving.ServeSlots
import NixP2p.Base.Compaction
import NixP2p.Base.JsonText
import NixP2p.Base.Tumbling
import NixP2p.Base.Outcomes
import NixP2p.Base.SortedSet
import NixP2p.Claims.BatchHold
import NixP2p.Claims.TransportLists
import NixP2p.Claims.Reindex
import NixP2p.Claims.DuplicateKeys
import NixP2p.Derivation.Ledger
import NixP2p.Derivation.RateBound
import NixP2p.Derivation.Eviction
import NixP2p.Serving.UploadLedger
import NixP2p.Derivation.Observation
import NixP2p.Growth.AfterFetch
import NixP2p.Growth.Conservation
import NixP2p.Records.Signing
import NixP2p.Records.Collection
import NixP2p.Announcer.Retraction
import NixP2p.Records.SelfSigned
import NixP2p.Availability.SupplyCatalog
import NixP2p.Availability.Index
import NixP2p.Availability.Backing
import NixP2p.Base.Effect
import NixP2p.Publication.StateStore
import NixP2p.Publication.Publisher
import NixP2p.Publication.History
import NixP2p.Publication.Submissions
import NixP2p.Publication.RollbackAnchor
import NixP2p.Publication.Authority
import NixP2p.Publication.Visibility
import NixP2p.Publication.NodeLookup
import NixP2p.Publication.LookupReplay
import NixP2p.Iroh.ServeGate
import NixP2p.Iroh.ServeLedger
import NixP2p.Iroh.SingleFlight
import NixP2p.Iroh.NodeRecord
import NixP2p.Iroh.NodeAttributes
import NixP2p.Iroh.RecordAnswers
import NixP2p.Iroh.RecordRoundTrip
import NixP2p.Cache.NarinfoEntry
import NixP2p.Cache.Bookkeeping
import NixP2p.Cache.Eviction
import NixP2p.Cache.DiskCache
import NixP2p.Cache.Genuine
import NixP2p.Cache.Sidecar
import NixP2p.Allowlist.PublicProof
import NixP2p.Allowlist.Acceptance
import NixP2p.Allowlist.RecordFile
import NixP2p.Allowlist.Appending
import NixP2p.Allowlist.CrashSafety
import NixP2p.Allowlist.Soundness
import NixP2p.Allowlist.SigOrder
import NixP2p.Lan.Aliases
import NixP2p.Lan.Reload
import NixP2p.Lan.Turns
import NixP2p.Lan.Retention
