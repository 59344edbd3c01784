import PipeSim.Cycle.Refinement
import PipeSim.Library.Lru
import PipeSim.Cache.StackDistance
import PipeSim.Cycle.Occupancy
import PipeSim.Cycle.References
import PipeSim.Cycle.Forwarding
import PipeSim.Cycle.Drain
import PipeSim.Library.Conveyor
import PipeSim.Cycle.Monotone
import PipeSim.Machine.WriteHistory
import PipeSim.Machine.Traps
import PipeSim.Machine.FailedAccess
import PipeSim.Library.SignedInt
import PipeSim.Machine.SignedArithmetic
import PipeSim.Machine.RegisterDump
import PipeSim.Machine.IsaRefinement
import PipeSim.Cycle.Fetching
import PipeSim.Cycle.Granularity
import PipeSim.Cycle.StallLength
import PipeSim.Cycle.AddressBuffer
import PipeSim.Cache.Geometry
import PipeSim.Cache.Safety
import PipeSim.Cache.Independence
import PipeSim.Cache.Representation
import PipeSim.Machine.ZeroRegister
import PipeSim.Machine.DelaySlot
import PipeSim.Machine.Dependence
import PipeSim.Cycle.FalseHazards
import PipeSim.Library.Numeral
import PipeSim.Library.InStream
import PipeSim.Machine.ImageFile
import PipeSim.Machine.Loading
import PipeSim.Machine.MemoryDump
import PipeSim.Machine.Disassembler
import PipeSim.Machine.Disassembly
import PipeSim.Library.Lines
import PipeSim.Library.DecimalStream
import PipeSim.Program.Config
import PipeSim.Machine.DumpRange
import PipeSim.Program.Dumps
import PipeSim.Functional.StoreLog
import PipeSim.Machine.ImageErrors
import PipeSim.Functional.Calls
import PipeSim.Cycle.Events
import PipeSim.Program.PipeTrace
import PipeSim.Library.Footprint
import PipeSim.Program.Executables
import PipeSim.Program.Outputs
import PipeSim.Program.Agreement
import PipeSim.Program.Isolation
import PipeSim.Program.Endings
import PipeSim.Program.Endless
import PipeSim.Library.SetAssociative
import PipeSim.Cache.Inclusion
import PipeSim.Cache.WorkingSet
import PipeSim.Cycle.WiderCache
import PipeSim.Cycle.Schedule
import PipeSim.Cycle.DataSchedule
import PipeSim.Cycle.Bounds
import PipeSim.Functional.ControlFlow
import PipeSim.Functional.Untouched
import PipeSim.Program.Listing
import PipeSim.Library.TotalCorrectness
import PipeSim.Functional.ProgramText
import PipeSim.Program.Contracts
