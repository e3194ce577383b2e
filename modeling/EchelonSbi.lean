import EchelonSbi.Memalloc.Safety
import EchelonSbi.Foundation.Transition
import EchelonSbi.Sbi.HartMaskSelection
import EchelonSbi.Harts.InOrder
import EchelonSbi.Harts.LostCommands
import EchelonSbi.Harts.Management
import EchelonSbi.Harts.CallResults
import EchelonSbi.Harts.CommandLocks
import EchelonSbi.Harts.RemoteFences
import EchelonSbi.Harts.Parking
import EchelonSbi.Harts.StateChanges
import EchelonSbi.Harts.System
import EchelonSbi.Harts.Schedule
import EchelonSbi.Harts.Operations
import EchelonSbi.Memalloc.PageSafety
import EchelonSbi.Harts.SelfDeadlock
import EchelonSbi.Memalloc.PageBounds
import EchelonSbi.SoftDivision.Contract
import EchelonSbi.SoftMultiplication
import EchelonSbi.HartInit.InitProbes
import EchelonSbi.DataParse.CpioLookup
import EchelonSbi.DataParse.DeviceTreeSearch
import EchelonSbi.DataParse.CpioProgress
import EchelonSbi.Printm.Rendering
import EchelonSbi.Printm.NumberConversion
import EchelonSbi.Boot.Staging
import EchelonSbi.Memalloc.Completeness
import EchelonSbi.Memalloc.Stack
import EchelonSbi.Memalloc.Guards
import EchelonSbi.Memalloc.PageOrder
import EchelonSbi.Memalloc.PageTable
import EchelonSbi.Memalloc.PageReuse
import EchelonSbi.Memalloc.PageReturn
import EchelonSbi.Memalloc.PageRuns
import EchelonSbi.Memalloc.PageRefinement
import EchelonSbi.Riscv.Pmp
import EchelonSbi.Harts.Protection
import EchelonSbi.Boot.MemoryProtection
import EchelonSbi.Traps.PageWalk
import EchelonSbi.Traps.Timer
import EchelonSbi.Riscv.Privileged
import EchelonSbi.Traps.Context
import EchelonSbi.Traps.TrapCode
import EchelonSbi.Traps.Arrays
import EchelonSbi.Traps.Entry
import EchelonSbi.Traps.Outcomes
import EchelonSbi.Traps.KernelStart
import EchelonSbi.Harts.Blocking
import EchelonSbi.Harts.Kinit
import EchelonSbi.Harts.Settlement
import EchelonSbi.Harts.StartAgreement
import EchelonSbi.Harts.BootStart
import EchelonSbi.Memalloc.Packing
import EchelonSbi.Boot.KinitHeap
import EchelonSbi.Boot.KinitAllocations
import EchelonSbi.Boot.Payloads
import EchelonSbi.Boot.ContextRecords
