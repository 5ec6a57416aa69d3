import PacketReordering.Lib.Serial
import PacketReordering.Lib.Dll
import PacketReordering.Lib.Runs
import PacketReordering.Lib.Intervals
import PacketReordering.Lib.Tracked
import PacketReordering.Gro.Skb
import PacketReordering.Gro.Memory
import PacketReordering.Gro.Queues
import PacketReordering.Gro.Bodies
import PacketReordering.Linux41.Defs
import PacketReordering.ReorderAdvanced.Defs
import PacketReordering.ReorderAdvanced.Lists
import PacketReordering.ReorderAdvanced.Conservation
import PacketReordering.ReorderAdvanced.Waiting
import PacketReordering.ReorderAdvanced.Sequence
import PacketReordering.Gro.Refinement
import PacketReordering.Gro.Release
import PacketReordering.Gro.Walk
import PacketReordering.Gro.FreeList
import PacketReordering.Linux41.Lists
import PacketReordering.Linux41.Walk
import PacketReordering.Gro.GroList
import PacketReordering.Gro.Complete
import PacketReordering.Gro.Arrive
import PacketReordering.Linux41.NewFlow
import PacketReordering.Linux41.Complete
import PacketReordering.Linux41.Flush
import PacketReordering.Linux41.Receive
import PacketReordering.Linux41.Step
import PacketReordering.Gro.Conservation
import PacketReordering.Linux41.Conservation
import PacketReordering.OneSlot.Defs
import PacketReordering.OneSlot.Verdicts
import PacketReordering.Linux41.Wakeup
import PacketReordering.Linux41.Due
import PacketReordering.Linux41.Held
import PacketReordering.Linux41.Headers
import PacketReordering.Linux41.Geometry
import PacketReordering.Linux41.Recent
import PacketReordering.Gro.Window
import PacketReordering.Linux41.Spacing
import PacketReordering.Linux318.Defs
import PacketReordering.Linux318.Lists
import PacketReordering.Linux318.Walk
import PacketReordering.Linux318.Complete
import PacketReordering.Linux318.Flush
import PacketReordering.Linux318.NewFlow
import PacketReordering.Linux318.Receive
import PacketReordering.Linux318.Step
import PacketReordering.Linux318.Turns
import PacketReordering.Linux318.Arrivals
import PacketReordering.Linux318.Placing
import PacketReordering.Linux318.Held
import PacketReordering.Linux318.Ordering
import PacketReordering.Linux318.Holding
import PacketReordering.Linux318.Tracking
import PacketReordering.Linux318.SeqNext
import PacketReordering.Linux318.Ownership
import PacketReordering.OneSlot.DupackFilters
import PacketReordering.Linux41.Flags
import PacketReordering.Linux41.Gso
import PacketReordering.Linux41.BadHeader
import PacketReordering.Linux41.Rcu
import PacketReordering.Linux318.Buffers
import PacketReordering.Linux41.BuildUp
import PacketReordering.GroTable.Integrity
import PacketReordering.Linux41.Unlinked
import PacketReordering.Linux41.CopyLoop
import PacketReordering.Linux318.Flags
import PacketReordering.Linux41.Holes
import PacketReordering.Gro.Stream
import PacketReordering.Linux41.Placed
import PacketReordering.Linux41.Resequence
import PacketReordering.Linux41.InSequence
import PacketReordering.Lib.Precedence
import PacketReordering.Linux318.Slots
import PacketReordering.Linux318.Delivery
import PacketReordering.Gro.Bytes
import PacketReordering.Linux41.Payload
import PacketReordering.Lib.Pieces
import PacketReordering.Linux41.GsoSegment
import PacketReordering.Linux41.Ready
import PacketReordering.Linux41.GsoRoundTrip
import PacketReordering.Linux41.FewFlows
import PacketReordering.Linux41.Alike
import PacketReordering.Linux41.Isolation
import PacketReordering.Linux41.Lane
