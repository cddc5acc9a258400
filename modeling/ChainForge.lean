import ChainForge.Lib.Machine
import ChainForge.Lib.Store
import ChainForge.Lib.Queue
import ChainForge.Lib.Text
import ChainForge.Lib.Buffer
import ChainForge.Core.Types
import ChainForge.Core.Transaction
import ChainForge.Core.Block
import ChainForge.Core.Preimage
import ChainForge.Core.BlockCache
import ChainForge.Lib.Double
import ChainForge.Mempool.Impl
import ChainForge.Mempool.Steps
import ChainForge.Mempool.Index
import ChainForge.Mempool.Moves
import ChainForge.Mempool.Limits
import ChainForge.Mempool.Callbacks
import ChainForge.Mempool.Admission
import ChainForge.Mempool.Selection
import ChainForge.Mempool.Top
import ChainForge.Mempool.Senders
import ChainForge.Lib.RwLock
import ChainForge.Mempool.Lock
import ChainForge.Rpc.HttpServer
import ChainForge.Consensus.ProofOfWork
import ChainForge.Lib.Wire
import ChainForge.Serialization.Schema
import ChainForge.Serialization.Serializer
import ChainForge.Serialization.Validator
import ChainForge.Serialization.RoundTrip
import ChainForge.Serialization.Decoding
import ChainForge.P2p.PeerExchange
import ChainForge.Core.CircuitBreaker
import ChainForge.P2p.PeerDecoding
import ChainForge.Lib.ReceiveLoop
import ChainForge.P2p.Transport
import ChainForge.P2p.TcpClient
import ChainForge.P2p.QuietClient
import ChainForge.P2p.Reconnect
import ChainForge.Lib.OrderedSet
import ChainForge.P2p.PeerDiscovery
import ChainForge.Lib.Threads
import ChainForge.P2p.TcpServer
import ChainForge.Rpc.RpcServer
import ChainForge.Lib.Chunks
import ChainForge.Rpc.Connection
import ChainForge.Lib.Json
import ChainForge.Logging.ConfigLoader
import ChainForge.Logging.Block
import ChainForge.Logging.Yaml
import ChainForge.Core.MerkleRoot
import ChainForge.Core.Gas
import ChainForge.Mempool.Refusals
import ChainForge.Mempool.Replacement
import ChainForge.Crypto.Keccak
import ChainForge.Logging.LogManager
import ChainForge.Consensus.MiningControl
import ChainForge.Lib.Merkle
import ChainForge.Core.MerkleTree
import ChainForge.Crypto.HashMany
import ChainForge.Core.TransactionObjects
import ChainForge.Core.AmountArithmetic
import ChainForge.Core.AmountText
import ChainForge.Mempool.Fees
import ChainForge.Consensus.Target
import ChainForge.Lib.Cursor
import ChainForge.Storage.MemoryDatabase
import ChainForge.Storage.Iteration
import ChainForge.Storage.LiveIterator
import ChainForge.Mempool.Eviction
import ChainForge.Mempool.Stats
import ChainForge.Lib.ExactDouble
import ChainForge.Consensus.Difficulty
import ChainForge.Consensus.DifficultyBounds
import ChainForge.Storage.WriteBatch
import ChainForge.Rpc.RequestBody
import ChainForge.Lib.Framing
import ChainForge.Rpc.HttpResponse
import ChainForge.P2p.Announcements
import ChainForge.P2p.PrivateAddresses
import ChainForge.P2p.Connection
import ChainForge.P2p.Acceptor
import ChainForge.Lib.Bindable
import ChainForge.P2p.ConnectionCallback
import ChainForge.Serialization.Primitives
import ChainForge.Core.ErrorRateLimiter
import ChainForge.Core.BreakerExceptions
import ChainForge.Core.Timestamp
import ChainForge.Lib.Pattern
import ChainForge.Lib.Calendar
import ChainForge.Core.Iso8601
import ChainForge.Lib.Hex
import ChainForge.Crypto.HexReaders
import ChainForge.Lib.Der
import ChainForge.Crypto.Signature
import ChainForge.Lib.JsonText
import ChainForge.Rpc.RequestIds
import ChainForge.Lib.Delimited
import ChainForge.Rpc.QueryString
import ChainForge.Logging.Comments
import ChainForge.Metrics.Histogram
import ChainForge.Metrics.Registry
import ChainForge.Lib.HashChain
import ChainForge.Core.Chain
import ChainForge.Lib.SharedBuffer
import ChainForge.P2p.Datagrams
import ChainForge.P2p.Network
import ChainForge.P2p.DiscoveryNode
import ChainForge.Lib.Timer
import ChainForge.P2p.DiscoveryLoop
import ChainForge.Rpc.Lifecycle
import ChainForge.Core.Retry
import ChainForge.Core.Bulkhead
import ChainForge.Lib.Writes
import ChainForge.P2p.Sends
import ChainForge.Lib.Schedule
import ChainForge.Metrics.ConcurrentHistogram
import ChainForge.Storage.Sessions
import ChainForge.Logging.Settings
import ChainForge.Rpc.BlockchainMethods
import ChainForge.Rpc.Segmentation
import ChainForge.Logging.Entries
import ChainForge.Lib.JsonPaths
