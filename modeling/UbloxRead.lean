import UbloxRead.Lib.Run
import UbloxRead.Lib.Loop
import UbloxRead.Lib.Window
import UbloxRead.Lib.Scan
import UbloxRead.Lib.Fletcher
import UbloxRead.Lib.DList
import UbloxRead.Memory
import UbloxRead.RingBuf
import UbloxRead.RingBufTheorems
import UbloxRead.UbxFrame
import UbloxRead.UbxFrameTheorems
import UbloxRead.UbxAck
import UbloxRead.UbxAckTheorems
import UbloxRead.ScanLoop
import UbloxRead.ScanLoopTheorems
import UbloxRead.Control
import UbloxRead.ControlTheorems
import UbloxRead.StreamTheorems
import UbloxRead.LinkedList
import UbloxRead.LinkedListTheorems
import UbloxRead.ListCounters
import UbloxRead.ListOwnership
import UbloxRead.PayloadIndex
import UbloxRead.Serial
import UbloxRead.SerialTheorems
import UbloxRead.UbxPoll
import UbloxRead.UbxPollTheorems
import UbloxRead.UbxErrorDetection
import UbloxRead.Lib.BitField
import UbloxRead.Gps
import UbloxRead.GpsTheorems
import UbloxRead.UbxDispatch
import UbloxRead.UbxDispatchTheorems
import UbloxRead.UbxParse
import UbloxRead.UbxParseTheorems
import UbloxRead.Lib.Codec
import UbloxRead.UbxFormat
import UbloxRead.StoreTheorems
import UbloxRead.UbxWidths
import UbloxRead.Lib.Access
import UbloxRead.ScanBounds
import UbloxRead.ScanBoundsTheorems
import UbloxRead.Lib.Attempts
import UbloxRead.SerialLine
import UbloxRead.SerialLineTheorems
import UbloxRead.RxSilent
import UbloxRead.UbxCoverage
import UbloxRead.UbxReads
import UbloxRead.UbxReadsTheorems
import UbloxRead.UbxCommands
import UbloxRead.UbxCommandsTheorems
import UbloxRead.Lib.Simulation
import UbloxRead.Lib.Progress
import UbloxRead.Program
import UbloxRead.ProgramTheorems
import UbloxRead.ProgramProgress
import UbloxRead.ProgramRounds
import UbloxRead.Rounds
import UbloxRead.RoundsTheorems
import UbloxRead.ProgramScript
import UbloxRead.Receiver
import UbloxRead.ReceiverTheorems
import UbloxRead.Capacity
import UbloxRead.Lib.Binary
import UbloxRead.FixedPoint
import UbloxRead.UbxAssist
import UbloxRead.UbxAssistTheorems
