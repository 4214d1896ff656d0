import Vice.L1Encoding.GcrBounds
import Vice.L1Encoding.GcrRoundTrip
import Vice.L1Encoding.GcrWriteBack
import Vice.L1Encoding.PetsciiUtf8
import Vice.L2Image.DxxRoundTrip
import Vice.L2Image.ErrorMap
import Vice.L2Image.SectorConfined
import Vice.L2Image.SnapshotConfined
import Vice.L2Image.SnapshotModules
import Vice.L2Image.SnapshotWalk
import Vice.L2Image.T64Sizes
import Vice.L3Drive.BamComplete
import Vice.L3Drive.BamRuns
import Vice.L3Drive.BamUnread
import Vice.L3Drive.BlockCommand
import Vice.L3Drive.ByteOffset
import Vice.L3Drive.ChainSteps
import Vice.L3Drive.CommandParse
import Vice.L3Drive.DirectAccess
import Vice.L3Drive.MemoryRoundTrip
import Vice.L3Drive.P00Rename
import Vice.L3Drive.P64Batch
import Vice.L3Drive.PackApart
import Vice.L3Drive.RelAtomic
import Vice.L3Drive.RelOpen
import Vice.L3Drive.Rename
import Vice.L3Drive.RotationBatch
import Vice.L3Drive.SimpleObserve
import Vice.L3Drive.SwitchRuns
import Vice.L4Machine.AlarmQueue
import Vice.L4Machine.AtaSectors
import Vice.L4Machine.AttachEvent
import Vice.L4Machine.CiaAlarm
import Vice.L4Machine.CiaSerialPort
import Vice.L4Machine.CiaTodTicks
import Vice.L4Machine.DatasetteIndices
import Vice.L4Machine.DatasetteRecord
import Vice.L4Machine.DatasetteRewind
import Vice.L4Machine.EventCoding
import Vice.L4Machine.EventRecording
import Vice.L4Machine.FlashCommanded
import Vice.L4Machine.InterruptLines
import Vice.L4Machine.KeyboardQueue
import Vice.L4Machine.M93c86Snapshot
import Vice.L4Machine.NetplayAgreement
import Vice.L4Machine.NetworkReceive
import Vice.L4Machine.ResourceRoundTrip
import Vice.L4Machine.ReuTransparent
import Vice.L4Machine.TapBlock
import Vice.L4Machine.TapRecovery
import Vice.L4Machine.TpiService
import Vice.L4Machine.TrapQueue
import Vice.L4Machine.ViaInterrupt
import Vice.L4Machine.ViaTimer1Ticks
import Vice.L4Machine.ViaTimer2Ticks
import Vice.L4Machine.ViaTransfer
import Vice.L5Monitor.AssemblerUndoes
import Vice.L5Monitor.BinaryOwnBytes
import Vice.L5Monitor.BreakpointRuns
import Vice.L5Monitor.CheckpointHits
import Vice.L5Monitor.IfStack
import Vice.L5Monitor.ListResponses
import Vice.L5Monitor.MemoryRanges
import Vice.L5Monitor.Playback
import Vice.L5Monitor.RegistersSet
import Vice.L5Monitor.SymbolTable
