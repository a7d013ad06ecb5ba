import MiniMM.Frame.Failure
import MiniMM.Spec.Access
import MiniMM.Spec.Remap
import MiniMM.Spec.Mlock
import MiniMM.Spec.Fork
import MiniMM.Spec.Brk
import MiniMM.Access
import MiniMM.Fork
import MiniMM.MemoryApi
import MiniMM.Brk
import MiniMM.Vma.Reach
import MiniMM.Vma.Gap
import MiniMM.Binding.Reach
import MiniMM.PageTable.Reach
import MiniMM.PageTable.Counts
import MiniMM.Threads.Reach
import MiniMM.Threads.Lifetime
import MiniMM.Calls.Remap
import MiniMM.Calls.Fork
import MiniMM.Calls.Brk
import MiniMM.Rcu.Reach
import MiniMM.MsealMerge
import MiniMM.Fault.Trace
import MiniMM.PageRemap.Exact
import MiniMM.MglruReparent
import MiniMM.HugetlbReserve
import MiniMM.Capability
import MiniMM.WordRange
