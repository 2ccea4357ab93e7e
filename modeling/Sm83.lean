import Sm83.Bus.Trace
import Sm83.Machine
import Sm83.Proofs.Path
import Sm83.Proofs.Program
import Sm83.Proofs.SlotCourse
import Sm83.Proofs.Steps
import Sm83.Proofs.RunEnd
import Sm83.Proofs.Run
import Sm83.Proofs.Requests
import Sm83.Proofs.EnableDelay
import Sm83.Proofs.Faults
import Sm83.Proofs.BusCalls
import Sm83.Proofs.BankFaults
import Sm83.Proofs.BusStore
import Sm83.Proofs.RomMapping
import Sm83.Proofs.ExternalRam
import Sm83.Proofs.FlatMirror
import Sm83.Proofs.RunSplit
import Sm83.Proofs.RunCourse
import Sm83.Proofs.SlotOrder
import Sm83.Proofs.ClockTicks
import Sm83.Proofs.StopLine
import Sm83.Proofs.Encoding
import Sm83.Proofs.Listing
import Sm83.Proofs.Transfers
import Sm83.Proofs.Outlines
import Sm83.Proofs.Readback
import Sm83.Proofs.Stack
import Sm83.Proofs.Servicing
import Sm83.Proofs.Footprint
import Sm83.Proofs.Columns
import Sm83.Proofs.BinaryColumns
import Sm83.Proofs.DecimalColumns
import Sm83.Proofs.LongShifts
import Sm83.Proofs.WideSums
import Sm83.Proofs.BankCount
import Sm83.Proofs.DirectSelection
import Sm83.Proofs.OperandPlaces
import Sm83.Proofs.FetchedBytes
import Sm83.Proofs.Sweep
import Sm83.Proofs.DeviceCalls
import Sm83.Proofs.Sleep
import Sm83.Proofs.RegisterStores
import Sm83.Proofs.OperationTraffic
import Sm83.Proofs.AccessCosts
import Sm83.Proofs.LogErasure
import Sm83.Proofs.Dialogues
import Sm83.Proofs.TraceLog
import Sm83.Bench
import Sm83.Proofs.Reset
