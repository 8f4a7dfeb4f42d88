import Detours.HookLib.AnyOrder
import Detours.HookLib.Failure
import Detours.HookLib.FirstFit
import Detours.HookLib.Granting
import Detours.HookLib.HookedProcess
import Detours.HookLib.Isolation
import Detours.HookLib.Leaks
import Detours.HookLib.Protection
import Detours.HookLib.ProtectionRuns
import Detours.HookLib.Registry
import Detours.HookLib.RelocatedOperands
import Detours.HookLib.Repeated
import Detours.HookLib.Restoration
import Detours.HookLib.Scans
import Detours.HookLib.SearchAround
import Detours.HookLib.Sessions
import Detours.HookLib.TransparentRuns
import Detours.HookLib.Undecodable
import Detours.HookLib.X86Transparency
import Detours.TrampolineBuilder.BranchEntry
import Detours.TrampolineBuilder.Branches
import Detours.TrampolineBuilder.IndirectBranches
import Detours.TrampolineBuilder.MemoryStores
import Detours.TrampolineBuilder.ScratchRegister
import Detours.TrampolineBuilder.Subset
