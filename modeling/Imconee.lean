import Imconee.Lib.Memory
import Imconee.Lib.LittleEndian
import Imconee.Lib.Reader
import Imconee.Lib.Custody
import Imconee.Tools.ChunkBuffer
import Imconee.Tools.CircularBuffer
import Imconee.Tools.Spinlock
import Imconee.Botan.Aead
import Imconee.Netkit.Pipe
import Imconee.Netkit.TcpPipe
import Imconee.Netkit.PipeWaiter
import Imconee.Shadowsocks.Nonce
import Imconee.Shadowsocks.Segmentation
import Imconee.Shadowsocks.CryptoPipe
import Imconee.Shadowsocks.Authenticity
import Imconee.Shadowsocks.RoundTrip
import Imconee.Shadowsocks.Unencrypted
import Imconee.Shadowsocks.Flush
import Imconee.Shadowsocks.OverTcp
import Imconee.Handlers.Bridged
import Imconee.Handlers.Delivery
import Imconee.Handlers.Keeping
import Imconee.Handlers.Readiness
import Imconee.Handlers.ProcessingThread
import Imconee.Handlers.Connection
import Imconee.Handlers.Pass
import Imconee.Handlers.SlotTable
import Imconee.Handlers.Tick
import Imconee.Handlers.Threads
import Imconee.Lib.Lockstep
import Imconee.Tools.ByteQueue
import Imconee.Netkit.OutputQueue
import Imconee.Shadowsocks.CloseProtocol
import Imconee.Handlers.Provenance
import Imconee.Handlers.Placement
import Imconee.Handlers.Filled
import Imconee.Handlers.Stopping
import Imconee.Lib.Schedule
import Imconee.Lib.Dialogue
import Imconee.Lib.Duplex
import Imconee.Lib.Interleaving
import Imconee.Netkit.Conversation
import Imconee.Netkit.Endpoint
import Imconee.Socks.Handler
import Imconee.Socks.Gate
import Imconee.Socks.Proxy
import Imconee.Socks.Agreement
import Imconee.Shadowsocks.Request
import Imconee.Socks.Width
import Imconee.Handlers.Order
import Imconee.Handlers.Registration
import Imconee.Netkit.Arrival
import Imconee.Netkit.ExactReads
import Imconee.Netkit.BulkReads
import Imconee.Socks.Configuration
import Imconee.Socks.Encoding
import Imconee.Socks.Ownership
import Imconee.Socks.Parsing
import Imconee.Socks.Reply
import Imconee.Lib.FreeList
import Imconee.Mem.Arena
import Imconee.Mem.Threads
import Imconee.Mem.Alone
import Imconee.Mem.Facade
import Imconee.Mem.Blocks
import Imconee.Mem.Calls
import Imconee.Botan.SecureVector
import Imconee.Lib.Numeral
import Imconee.Lib.Ip6Text
import Imconee.Tools.Strings
import Imconee.Netkit.IpText
import Imconee.Netkit.Scan6
import Imconee.Netkit.IpParse
import Imconee.Netkit.Preparse
import Imconee.Conn.ValidAddr
import Imconee.Lib.Traced
import Imconee.Config.Tree
import Imconee.Config.Reader
import Imconee.Config.Bounds
import Imconee.Tools.Trim
import Imconee.Tools.Fullness
import Imconee.Tools.Assign
import Imconee.Shadowsocks.Blocks
import Imconee.Lib.Components
import Imconee.Fsys.RemoveCrap
import Imconee.Fsys.CleanUp
import Imconee.Fsys.Meaning
import Imconee.Config.Scanning
import Imconee.Tools.Replace
import Imconee.Config.Quoting
import Imconee.Config.Elements
import Imconee.Config.Store
import Imconee.Config.Layout
import Imconee.Config.StoredElements
import Imconee.Config.RoundTrip
import Imconee.Lib.Binary64
import Imconee.Tools.Stod
import Imconee.Lib.Visit
import Imconee.Config.Access
import Imconee.Startup.Loader
import Imconee.Startup.Build
import Imconee.Startup.Engine
import Imconee.Startup.Acceptance
import Imconee.Startup.Outcomes
import Imconee.Startup.AllOrNothing
import Imconee.Startup.Harmless
import Imconee.Lib.Absorb
import Imconee.Botan.AlignmentBuffer
import Imconee.Botan.Mask
import Imconee.Botan.Poly1305
import Imconee.Botan.Poly1305Limbs
import Imconee.Botan.Poly1305Tag
import Imconee.Lib.Refill
import Imconee.Botan.ChaCha
import Imconee.Botan.ChaChaLanes
import Imconee.Botan.ChaChaStream
import Imconee.Botan.ChaCha20Poly1305
import Imconee.Lifecycle.Service
import Imconee.Lib.Fairness
import Imconee.Lifecycle.Stopping
import Imconee.Lifecycle.Ending
import Imconee.Socks.Chain
import Imconee.Lib.BufferedComputation
import Imconee.Lib.MerkleDamgard
import Imconee.Botan.MdxHash
import Imconee.Lib.Hmac
import Imconee.Botan.Hmac
import Imconee.Lib.Digests
import Imconee.Botan.Md5
import Imconee.Botan.Sha1
import Imconee.Botan.Hkdf
import Imconee.Shadowsocks.Keys
import Imconee.Botan.Sha1Sse2
import Imconee.Botan.Sha1X86
import Imconee.Botan.Sha1Class
