import BlueRdma.Math.Serial
import BlueRdma.Math.Ledger
import BlueRdma.Math.Word
import BlueRdma.Math.BitRow
import BlueRdma.Math.PartitionPoint
import BlueRdma.Math.FirstFit
import BlueRdma.Math.Framing
import BlueRdma.Math.Fifo
import BlueRdma.Math.BitField
import BlueRdma.Math.BigEndian
import BlueRdma.Math.Collect
import BlueRdma.Math.Lists
import BlueRdma.Math.SortedMap
import BlueRdma.Math.Segments
import BlueRdma.Math.Memory
import BlueRdma.Math.RoundRobin
import BlueRdma.Framework.Run
import BlueRdma.Framework.Exec
import BlueRdma.Framework.Progress
import BlueRdma.Framework.Actors
import BlueRdma.Framework.Threads
import BlueRdma.Framework.Handles
import BlueRdma.Error
import BlueRdma.Csr.Rings
import BlueRdma.Csr.Emulated
import BlueRdma.RdmaUtils.Psn
import BlueRdma.RdmaUtils.Msn
import BlueRdma.RdmaUtils.Types
import BlueRdma.RdmaUtils.Qp
import BlueRdma.Workers.Send
import BlueRdma.RdmaUtils.Fragmenter
import BlueRdma.Protocol.PsnAccounting
import BlueRdma.Protocol.SendWindow
import BlueRdma.Protocol.ChunkTiling
import BlueRdma.RdmaUtils.PsnTracker
import BlueRdma.RdmaUtils.TrackerOp
import BlueRdma.Protocol.PsnTranslation
import BlueRdma.Protocol.AckNamed
import BlueRdma.Protocol.AckReports
import BlueRdma.Workers.MetaReport.Types
import BlueRdma.Workers.Tasks
import BlueRdma.Workers.MetaReport.Worker
import BlueRdma.Protocol.AckGap
import BlueRdma.Workers.Completion
import BlueRdma.Protocol.SendOrder
import BlueRdma.Protocol.Interleaving
import BlueRdma.Workers.Retransmit
import BlueRdma.Protocol.RetransmitRange
import BlueRdma.Workers.RdmaWrite
import BlueRdma.Workers.AckResponder
import BlueRdma.Workers.AckFrame
import BlueRdma.Protocol.AckFrames
import BlueRdma.RdmaUtils.QpTable
import BlueRdma.Workers.QpTimeout
import BlueRdma.Protocol.AckTimers
import BlueRdma.Protocol.RetrySchedule
import BlueRdma.Workers.Driver
import BlueRdma.Workers.MessageOrder
import BlueRdma.Protocol.RecvOnce
import BlueRdma.Protocol.ReadOrder
import BlueRdma.Protocol.RetransmitQueue
import BlueRdma.Protocol.AckAccount
import BlueRdma.Protocol.AckCounter
import BlueRdma.RdmaUtils.Mtt
import BlueRdma.Protocol.PgtFirstFit
import BlueRdma.Cmd.Configurator
import BlueRdma.Verbs.Mr
import BlueRdma.RdmaUtils.QpManager
import BlueRdma.Net.RecvChan
import BlueRdma.Verbs.Post
import BlueRdma.Verbs.Qp
import BlueRdma.Verbs.Handles
import BlueRdma.Verbs.Cq
import BlueRdma.Protocol.HandleCalls
import BlueRdma.Protocol.ListenPorts
import BlueRdma.Protocol.WorkCompletions
import BlueRdma.Protocol.MrTable
import BlueRdma.Protocol.MrRegions
import BlueRdma.Protocol.RequestLoss
import BlueRdma.Workers.Device
import BlueRdma.Protocol.FreshQp
import BlueRdma.Protocol.PostedReceives
import BlueRdma.Protocol.RecvStream
import BlueRdma.Protocol.FailingSend
import BlueRdma.Protocol.QpContext
import BlueRdma.Protocol.PostRecvAtomic
import BlueRdma.Protocol.Delivery
import BlueRdma.Protocol.RecvFrontier
import BlueRdma.Protocol.RetransmitAll
import BlueRdma.RingBuf.DmaRb
import BlueRdma.RingBuf.Sync
import BlueRdma.RingBuf.Filled
import BlueRdma.RingBuf.Desc
import BlueRdma.Protocol.CsrRings
import BlueRdma.Protocol.CsrRpc
import BlueRdma.Descriptors.Basic
import BlueRdma.Descriptors.Send
import BlueRdma.Descriptors.MetaReport
import BlueRdma.Descriptors.SimpleNic
import BlueRdma.Descriptors.Cmd
import BlueRdma.Cmd.CmdQueue
import BlueRdma.Workers.SendWorker
import BlueRdma.Workers.SendPool
import BlueRdma.Protocol.SendRing
import BlueRdma.Protocol.SendPool
import BlueRdma.Workers.MetaReport.Queue
import BlueRdma.Protocol.CongestionMark
import BlueRdma.Mem.VirtToPhy
import BlueRdma.Protocol.PageTable
import BlueRdma.Mem.PaVaMap
import BlueRdma.Protocol.PhysLookup
import BlueRdma.Mem.Umem
import BlueRdma.Protocol.EmulatedMr
import BlueRdma.Mem.Page
import BlueRdma.Mem.DmaBuf
import BlueRdma.Net.SimpleNic
import BlueRdma.Verbs.Initialize
import BlueRdma.Protocol.Initialize
import BlueRdma.Protocol.InitializeEmulated
import BlueRdma.Protocol.FrameRing
import BlueRdma.Protocol.FrameSlots
import BlueRdma.Protocol.FrameSend
import BlueRdma.Protocol.PsnOrder
import BlueRdma.Protocol.FragmentTiling
import BlueRdma.Protocol.RequestChunks
import BlueRdma.Protocol.EventOrder
import BlueRdma.Protocol.RequestAtomic
import BlueRdma.Protocol.UnknownQp
import BlueRdma.Protocol.PathMtu
import BlueRdma.Protocol.SendSide
import BlueRdma.Protocol.IdleQp
import BlueRdma.Protocol.VirtIndex
import BlueRdma.Protocol.PinnedPages
import BlueRdma.Mem.MemoryProxy
import BlueRdma.Verbs.Mock.Thread
import BlueRdma.Verbs.Mock.Ctx
import BlueRdma.Protocol.MockRegions
import BlueRdma.Protocol.MockReceives
import BlueRdma.Protocol.MockCompletions
import BlueRdma.Protocol.MockSlots
import BlueRdma.Protocol.CmdRing
import BlueRdma.Protocol.CmdFormat
import BlueRdma.Protocol.CmdSerial
import BlueRdma.Protocol.ReportFairness
import BlueRdma.Workers.Spawner
import BlueRdma.Protocol.AbortSignals
import BlueRdma.Mem.ProxyThread
import BlueRdma.Protocol.ProxyRequests
