import Peashape.Foundation.Machine
import Peashape.Foundation.Segments
import Peashape.Foundation.Deque
import Peashape.Foundation.FiniteMap
import Peashape.Foundation.Framing
import Peashape.Foundation.Notify
import Peashape.Foundation.BoundedStack
import Peashape.Foundation.Fifo
import Peashape.Foundation.RoundRobin
import Peashape.Foundation.Drawing
import Peashape.Model.Config
import Peashape.Model.Shaper
import Peashape.Model.History
import Peashape.Model.Scheduler
import Peashape.Model.Node
import Peashape.Model.Codec
import Peashape.Model.System
import Peashape.Model.Shutdown
import Peashape.Model.Timing
import Peashape.Model.Overflow
import Peashape.Wire.Stream
import Peashape.Wire.RoundTrip
import Peashape.Shaping.TickShape
import Peashape.Shaping.PeerSelection
import Peashape.Shaping.Ledger
import Peashape.Shaping.ConstantSize
import Peashape.Shaping.Noninterference
import Peashape.Shaping.GlobalNoninterference
import Peashape.Shaping.GeneratorStream
import Peashape.Shaping.PeerLanes
import Peashape.Shaping.Interleaving
import Peashape.Shaping.Provenance
import Peashape.Shaping.Broadcast
import Peashape.Shaping.Passthrough
import Peashape.Shaping.Pruning
import Peashape.Shaping.GlobalConservation
import Peashape.Shaping.Refinement
import Peashape.Shaping.GlobalScope
import Peashape.Shaping.Priority
import Peashape.Shaping.GlobalPassthrough
import Peashape.Shaping.LanePair
import Peashape.Shaping.Submission
import Peashape.Shaping.FanOut
import Peashape.Shaping.LowLane
import Peashape.Shaping.Discipline
import Peashape.Shaping.Freshness
import Peashape.Shaping.Waiting
import Peashape.Shaping.Slots
import Peashape.Shaping.Delay
import Peashape.Shaping.SlotBound
import Peashape.Shaping.PassBound
import Peashape.Shaping.Draws
import Peashape.Shaping.Unbiased
import Peashape.Shaping.CursorOverflow
import Peashape.Lifecycle.Wakeup
import Peashape.Lifecycle.Joining
import Peashape.Lifecycle.Accepted
import Peashape.Foundation.Lagging
import Peashape.Model.Inbox
import Peashape.Delivery.Subscribers
import Peashape.Model.Connection
import Peashape.Delivery.Connections
import Peashape.Model.Network
import Peashape.Delivery.Parts
import Peashape.Delivery.Links
import Peashape.Delivery.EndToEnd
import Peashape.Model.Masquerade
import Peashape.Masquerade.Packets
import Peashape.Foundation.Counting
import Peashape.Shaping.Numbering
import Peashape.Delivery.Kept
import Peashape.Masquerade.Streams
import Peashape.Masquerade.Messages
import Peashape.Delivery.Receivers
import Peashape.Delivery.Observer
import Peashape.Shaping.Memory
