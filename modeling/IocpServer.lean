import IocpServer.Lib.Run
import IocpServer.Lib.Outcome
import IocpServer.Lib.Window
import IocpServer.Lib.Peel
import IocpServer.Lib.Scan
import IocpServer.Lib.Chain
import IocpServer.Lib.Places
import IocpServer.Lib.TaggedNodes
import IocpServer.Lib.Threads
import IocpServer.Lib.Table
import IocpServer.RingBuffer
import IocpServer.RingBufferQueue
import IocpServer.ScatterReceive
import IocpServer.CPacket
import IocpServer.PacketStream
import IocpServer.PacketBounds
import IocpServer.Struct
import IocpServer.OnMessage
import IocpServer.Framing
import IocpServer.RecvCrash
import IocpServer.MpscQueue
import IocpServer.GetSize
import IocpServer.TlsMemoryPool
import IocpServer.LockFreeStack
import IocpServer.LockFreeQueue
import IocpServer.SendPath
import IocpServer.SendContext
import IocpServer.SendWakeup
import IocpServer.SingleSender
import IocpServer.OutgoingRefs
import IocpServer.RefBalance
import IocpServer.SessionUse
import IocpServer.Slots
import IocpServer.SlotOwnership
import IocpServer.ReleaseOnce
import IocpServer.SessionIds
import IocpServer.Orphans
import IocpServer.GameLogic.World
import IocpServer.GameLogic.Broadcast
import IocpServer.GameLogic.Handlers
import IocpServer.GameLogic.Dispatch
import IocpServer.GameLogic.Frame
import IocpServer.GameLogic.Calls
import IocpServer.GameLogic.Places
import IocpServer.GameLogic.SectorMembership
import IocpServer.GameLogic.MapBounds
import IocpServer.GameLogic.Neighbourhood
import IocpServer.GameLogic.SectorDifference
import IocpServer.GameLogic.Sightings
import IocpServer.GameLogic.ClientView
import IocpServer.GameLogic.FlushPhases
import IocpServer.GameLogic.PendingRequests
import IocpServer.GameLogic.LeaveBroadcast
import IocpServer.GameLogic.NoDangling
import IocpServer.GameLogic.PacketEffects
import IocpServer.GameLogic.HandlerStores
import IocpServer.GameLogic.OneStep
import IocpServer.GameLogic.NoTeleport
import IocpServer.GameLogic.AttackTarget
import IocpServer.GameLogic.AttackResolution
import IocpServer.GameLogic.Figures
import IocpServer.GameLogic.AttackSide
import IocpServer.GameLogic.DeathTerminal
import IocpServer.GameLogic.SelfMessages
import IocpServer.GameLogic.PacketOwnership
import IocpServer.GameLogic.ShortPayloads
import IocpServer.GameLogic.MakePacket
import IocpServer.Parser
import IocpServer.Parser.KeyLookup
import IocpServer.Parser.Items
import IocpServer.Parser.RawReading
import IocpServer.Parser.Comments
import IocpServer.RingBufferCopy
import IocpServer.GameLogic.FramePacing
import IocpServer.GameLogic.Untouched
import IocpServer.GameLogic.IdleTimeout
import IocpServer.Lib.RoundRobin
import IocpServer.GameLogic.AliveCheck
import IocpServer.GameLogic.MoveFairness
import IocpServer.Lib.Search
import IocpServer.Parser.StringSlice
import IocpServer.Parser.ValueLoop
import IocpServer.Parser.WrittenValue
import IocpServer.Parser.Spacing
import IocpServer.PacketRouting
import IocpServer.SlotBounds
import IocpServer.SessionCount
import IocpServer.Lib.Pass
import IocpServer.PoolReclaim
import IocpServer.Lib.Budget
import IocpServer.StackBudget
import IocpServer.QueueBudget
import IocpServer.QueueNodes
import IocpServer.GameLogic.Effects
import IocpServer.GameLogic.Greetings
import IocpServer.GameLogic.HpTold
import IocpServer.GameLogic.Delivery
import IocpServer.Parser.Entries
import IocpServer.Startup
import IocpServer.Lib.Rounds
import IocpServer.QueueRounds
import IocpServer.SendRounds
import IocpServer.DestroyRounds
import IocpServer.GameLogic.Receipt
import IocpServer.Lib.Replay
import IocpServer.GameLogic.Pictures
import IocpServer.GameLogic.Portrayal
import IocpServer.GameLogic.PortrayalRuns
import IocpServer.GameLogic.RoundTrip
