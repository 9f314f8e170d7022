import Barley.FrcTypes
import Barley.Interning
import Barley.SortedSlots
import Barley.RuleBitmap
import Barley.RfcTables
import Barley.RfcPhases
import Barley.RfcClassifier
import Barley.RfcLookup
import Barley.RuleStore
import Barley.RuleMap
import Barley.RuleCounters
import Barley.RuleRename
import Barley.RulePutIn
import Barley.RuleRenameLaw
import Barley.RfcCapacity
import Barley.RfcRebuild
import Barley.MachineWords
import Barley.ByteOrder
import Barley.FrcPack
import Barley.VlanCheck
import Barley.IpcHeader
import Barley.IpcReceive
import Barley.StructLayout
import Barley.CmdStructs
import Barley.Buckets
import Barley.TwoTupleTable
import Barley.TwoTupleInvariant
import Barley.MppTuple
import Barley.TwoTupleLookup
import Barley.TwoTupleAtomic
import Barley.RingWindow
import Barley.ByteRing
import Barley.ByteRingRuns
import Barley.SimpleChan
import Barley.ChanRings
import Barley.ChanProtocol
import Barley.ChanSafety
import Barley.ChanCalls
import Barley.FifoPost
import Barley.FifoWritten
import Barley.FifoRuns
import Barley.Segments
import Barley.TcpReassembly
import Barley.SsnBlocks
import Barley.SsnBlockLaw
import Barley.TcpWindow
import Barley.TcpStep
import Barley.TcpQueue
import Barley.TcpCoverage
import Barley.TcpShift
import Barley.StreamWalk
import Barley.TcpFollow
import Barley.TcpWrap
import Barley.TcpWrapLaw
import Barley.SegmentRuns
import Barley.TcpRun
import Barley.TcpRunPlaced
import Barley.TcpRunLaw
import Barley.TcpOwnership
import Barley.TcpOwnershipLaw
import Barley.TcpOwnershipRuns
import Barley.TcpErasure
import Barley.Linked
import Barley.SsnTuple
import Barley.SsnTable
import Barley.SsnTableLaw
import Barley.SsnTableSteps
import Barley.SsnCounter
import Barley.SsnProcess
import Barley.SsnProcessLaw
import Barley.SsnRuns
import Barley.Batches
import Barley.SsnFifo
import Barley.SsnPost
import Barley.SsnPosting
import Barley.CellBounds
import Barley.Ledger
import Barley.SsnAvail
import Barley.SsnAvailLaw
import Barley.CircList
import Barley.CoreCmd
import Barley.CoreCmdCalls
import Barley.CoreCmdSteps
import Barley.CoreCmdLaw
import Barley.RangeQuery
import Barley.StatQueries
import Barley.StatQueryLaw
import Barley.GuardedRuns
import Barley.SlotBucket
import Barley.IpBuckets
import Barley.IpBucketsLaw
import Barley.VlanStat
import Barley.VlanStatLaw
import Barley.VlanTable
import Barley.IpcEmit
import Barley.IpcEmitLaw
import Barley.DmaCalls
import Barley.DmaLaw
import Barley.MacTable
import Barley.EndAround
import Barley.IpChecksum
import Barley.MixedRadix
import Barley.TimestampCheck
import Barley.TimestampLaw
import Barley.ArgParser
import Barley.ArgParserLaw
import Barley.RfcExact
import Barley.SerialCrc
import Barley.Crc8
import Barley.DmaSplit
import Barley.Scatter
import Barley.DmaStructs
import Barley.SsnReader
import Barley.SsnWritten
import Barley.SsnDelivery
import Barley.HexDump
import Barley.SsnFiles
import Barley.SsnFilesLaw
import Barley.SsnSessions
import Barley.SimplePackets
import Barley.PacketFlow
import Barley.PacketFlowLaw
import Barley.ChanSetup
import Barley.ChanSetupLaw
import Barley.ChanDelivery
import Barley.RingStream
import Barley.DmaLoop
import Barley.DmaLoopLaw
import Barley.DmaLoopFinish
import Barley.RuleCommands
import Barley.RuleSnapshot
import Barley.RuleAccounts
import Barley.RuleTool
import Barley.RuleToolLaw
import Barley.NestedLoops
import Barley.RuleRanges
import Barley.Registers
import Barley.DataPath
import Barley.DataPathLaw
import Barley.CheckedWord
import Barley.OrderChecks
import Barley.Framed
import Barley.Captures
