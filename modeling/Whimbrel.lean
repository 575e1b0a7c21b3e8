import Whimbrel.Lib.Transition
import Whimbrel.Lib.Checked
import Whimbrel.Base
import Whimbrel.Checksum
import Whimbrel.Tcp.Tcb
import Whimbrel.Tcp.Handle
import Whimbrel.Tcp.Wire
import Whimbrel.Tcp.Step
import Whimbrel.Tcp.Stage
import Whimbrel.Tcp.Invariant
import Whimbrel.Tcp.Output
import Whimbrel.Tcp.Delivery
import Whimbrel.Tcp.Conn
import Whimbrel.Tcp.PeerFin
import Whimbrel.Tcp.Stream
import Whimbrel.Tcp.Eof
import Whimbrel.Lib.Asm
import Whimbrel.Tcp.Retransmit
import Whimbrel.Trap.Entry
import Whimbrel.Net.Arp
import Whimbrel.Net.Ipv4
import Whimbrel.Net.Icmp
import Whimbrel.Net.Udp
import Whimbrel.Net.Driver
import Whimbrel.Net.Rx
import Whimbrel.Layout
import Whimbrel.Syscall
import Whimbrel.Trap.Handler
import Whimbrel.Boot
import Whimbrel.Tcp.Foreign
import Whimbrel.Tcp.Mss
import Whimbrel.Net.Queues
import Whimbrel.Trap.Effect
import Whimbrel.Recv
import Whimbrel.Net.Address
import Whimbrel.Reply
import Whimbrel.Trap.Ends
import Whimbrel.Trap.Panics
import Whimbrel.Trap.Context
import Whimbrel.Lib.Radix
import Whimbrel.Page.Table
import Whimbrel.Page.Mapper
import Whimbrel.Page.Walk
import Whimbrel.Page.Build
import Whimbrel.Page.Space
import Whimbrel.Page.Access
import Whimbrel.Frame
import Whimbrel.Page.Range
import Whimbrel.Page.Verify
import Whimbrel.Heap
import Whimbrel.Frame.Recycled
import Whimbrel.Harness.Exhibits
import Whimbrel.Harness.Pcap
import Whimbrel.Harness.Phases
import Whimbrel.Harness.Utext
import Whimbrel.Lib.Ring
import Whimbrel.Net.Neighbours
import Whimbrel.Heap.Alloc
import Whimbrel.Heap.Guarantees
import Whimbrel.Lib.Virtqueue
import Whimbrel.Net.RxQueue
import Whimbrel.Net.TxQueue
import Whimbrel.Net.RoundTrip
import Whimbrel.Net.Sends
import Whimbrel.Net.Drops
import Whimbrel.Harness.Initcalls
import Whimbrel.Harness.Merge
import Whimbrel.Harness.Ranks
import Whimbrel.Tcp.Options
import Whimbrel.Trap.Nested
import Whimbrel.Lib.Tiling
import Whimbrel.Lib.Slots
import Whimbrel.Lib.Dialogue
import Whimbrel.Heap.Exhaust
import Whimbrel.Heap.Global
import Whimbrel.Timer
import Whimbrel.Stress
import Whimbrel.Page.Require
import Whimbrel.Net.Virtio
import Whimbrel.Net.Virtq
import Whimbrel.Net.Init
import Whimbrel.App
import Whimbrel.App.Http
