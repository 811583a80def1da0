import Lsd.Lib.Linked
import Lsd.Lib.Window
import Lsd.Memory.Pmm
import Lsd.Verif.FrameList
import Lsd.Verif.FrameWindow
import Lsd.Lib.Transition
import Lsd.Verif.FrameOwnership
import Lsd.Verif.FrameSearch
import Lsd.Verif.FrameInit
import Lsd.Lib.RadixCopy
import Lsd.Memory.Vmm
import Lsd.Verif.ThreadProtocol
import Lsd.Verif.TwoRoots
import Lsd.Verif.InputWait
import Lsd.Lib.Script
import Lsd.Verif.InterruptLocks
import Lsd.Verif.FloatIsolation
import Lsd.Lib.Riscv
import Lsd.Verif.TrapFrames
import Lsd.Verif.PrintCall
import Lsd.Verif.FreshTable
import Lsd.Verif.HeapExtension
import Lsd.Verif.ImageContent
import Lsd.Verif.LoadedProgram
import Lsd.Verif.FrameRow
import Lsd.Verif.LoadReturns
import Lsd.Verif.ProgramSpace
import Lsd.Lib.Grants
import Lsd.Boot.Kmain
import Lsd.Verif.BootRun
import Lsd.Verif.StackPointers
import Lsd.Verif.LoaderSteps
import Lsd.Verif.TaskArena
import Lsd.Verif.WalkedTables
import Lsd.Verif.Isolation
import Lsd.Verif.DropTask
import Lsd.Verif.Unmapping
import Lsd.Verif.KernelArenas
import Lsd.Verif.CoreHandoff
import Lsd.Verif.VirtqueueRings
import Lsd.Verif.Completions
import Lsd.Verif.HeapTotal
import Lsd.Verif.HeapFirstFit
import Lsd.Memory.Arena
import Lsd.Verif.FrameCount
import Lsd.Verif.ArenaAlloc
import Lsd.Verif.ArenaFree
import Lsd.Verif.Timekeeping
import Lsd.Verif.TickUnits
import Lsd.Verif.IsaString
import Lsd.Verif.CalendarDate
import Lsd.Verif.ArenaRun
