import Indigo.Lib.PrefixTree
import Indigo.Lib.BigEndian
import Indigo.Lib.TwosComplement
import Indigo.Common.Types
import Indigo.Rlp.Item
import Indigo.Rlp.Encode
import Indigo.Rlp.Raw
import Indigo.Rlp.Value
import Indigo.Rlp.Stream
import Indigo.Rlp.Decode
import Indigo.Rlp.Pool
import Indigo.Rlp.Output
import Indigo.Trie.Encoding
import Indigo.Trie.Node
import Indigo.Trie.Database
import Indigo.Trie.Trie
import Indigo.Trie.Hasher
import Indigo.Lib.Patricia
import Indigo.Trie.Spec
import Indigo.Trie.Roundtrip
import Indigo.Trie.Get
import Indigo.Trie.Insert
import Indigo.Trie.Delete
import Indigo.Trie.Writes
import Indigo.Lib.Loop
import Indigo.Trie.Commit
import Indigo.Trie.Run
import Indigo.Evm.Word
import Indigo.Evm.YellowPaper
import Indigo.Evm.Arith
import Indigo.State.StateDB
import Indigo.State.Revert
import Indigo.State.Solvent
import Indigo.Evm.Common
import Indigo.Evm.Contract
import Indigo.Evm.Analysis
import Indigo.Evm.Evm
import Indigo.Evm.Gas
import Indigo.Evm.Instructions
import Indigo.Evm.Interpreter
import Indigo.Evm.StackDiscipline
import Indigo.Evm.MemorySafety
import Indigo.Evm.UnsignedWords
import Indigo.Evm.Reverts
import Indigo.Evm.WriteProtection
import Indigo.Evm.GasAccounting
import Indigo.Clique.Snapshot
import Indigo.Clique.Voting
import Indigo.Clique.Difficulty
import Indigo.Lib.Search
import Indigo.Lib.Nearest
import Indigo.Netutil.Net
import Indigo.Discover.Node
import Indigo.Discover.Table
import Indigo.Discover.Lookup
import Indigo.Discover.Invariant
import Indigo.Trie.Iterator
import Indigo.Lib.Slice
import Indigo.Event.Feed
import Indigo.Eth.Headers
import Indigo.Rlp.Agreement
import Indigo.Rlp.Containment
import Indigo.Clique.Seal
import Indigo.Clique.Signature
import Indigo.Core.TxListRun
import Indigo.Core.Reorg
import Indigo.Core.Signing
import Indigo.Compression.Rle
import Indigo.Discover.Random
import Indigo.Lib.Radix
import Indigo.Common.Hexutil
import Indigo.Lib.ByteBits
import Indigo.Common.Bitutil
import Indigo.Lib.Heap
import Indigo.P2p.Dial
import Indigo.P2p.DialRun
import Indigo.Lib.Panic
import Indigo.Abi.Unpack
import Indigo.Abi.Panics
import Indigo.Abi.Pack
import Indigo.Lib.Layout
import Indigo.Abi.Words
import Indigo.Abi.RoundTrip
import Indigo.Lib.StreamCipher
import Indigo.P2p.Rlpx
import Indigo.Rlp.Uint
import Indigo.P2p.RlpxFrames
import Indigo.Lib.Machine
import Indigo.Lib.Channel
import Indigo.P2p.RlpxLink
import Indigo.P2p.Protocols
import Indigo.P2p.Multiplex
import Indigo.P2p.Routing
