import NodeKernel.Memory.PageTables
import NodeKernel.Scheduler.Tasks

/-!
# Processes and their memory

`alloc_user_cr3`, `Task::clone_shallow`, `fork_task`, the memory side of the exit calls and
`sys_mprotect`, what a process itself does to memory, and the error numbers of the calls.
-/
namespace NodeKernel

def eperm : ℤ := -1
def enoent : ℤ := -2
def ebadf : ℤ := -9
def eagain : ℤ := -11
def enomem : ℤ := -12
def efault : ℤ := -14
def einval : ℤ := -22
def emfile : ℤ := -24
def enosys : ℤ := -38

def vdsoAddr : ℕ := 0x00007FFFFFE00000
def vdsoPage : ℕ := vdsoAddr >>> 12

/-- The code bytes `B8 0F 00 00 00 0F 05` of the trampoline, `mov eax, 15; syscall`. -/
def vdsoWord : ℕ := 0x00050F0000000FB8

/-- Words of a saved interrupt frame, and those that hold the return value and the user
stack pointer. -/
def frameWords : ℕ := 160 / 8
def frameRaxWord : ℕ := 112 / 8
def frameRspWord : ℕ := 144 / 8

def PhysMem.copyKernelHalf (m : PhysMem) (src dst : ℕ) : PhysMem :=
  fun a i => if a = dst ∧ 256 ≤ i ∧ i < 512 then m src i else m a i

/-- The interrupt frame `words` at the top of the stack that ends with `page`, with the return
value cleared. -/
def PhysMem.putFrame (m : PhysMem) (page : ℕ) (words : ℕ → ℕ) : PhysMem :=
  fun a i =>
    if a = page ∧ 512 - frameWords ≤ i ∧ i < 512 then
      if i = 512 - frameWords + frameRaxWord then 0 else words (i - (512 - frameWords))
    else m a i

namespace Vm

/-- `cr3` is the value of the register. The root is lost if there is no frame for the vDSO. -/
def allocUserCr3 (vm : Vm) (mapper : PageMapper) (cr3 : ℕ) : Option ℕ × Vm :=
  match vm.allocFrame with
  | none => (none, vm)
  | some (newL4, vm) =>
    let vm := vm.withMem (vm.pmm.mem.zeroPage newL4)
    let vm := vm.withMem (vm.pmm.mem.copyKernelHalf (cr3 &&& not64 0xFFF) newL4)
    match vm.allocFrame with
    | none => (none, vm)
    | some (vdsoPhys, vm) =>
      let vm := vm.withMem (vm.pmm.mem.zeroPage vdsoPhys)
      let vm := vm.write vdsoPhys 0 vdsoWord
      (some newL4, (vm.mapPage mapper vdsoPage vdsoPhys (ptePresent ||| flagUser)).2)

/-- The address space of a child: its root, and the memory whether or not the copy is complete. -/
def forkSpace (vm : Vm) (mapper : PageMapper) (cr3 parentCr3 : ℕ) : ℕ × Vm :=
  let (root, vm) := vm.allocUserCr3 mapper cr3
  let childCr3 := root.getD (cr3 &&& not64 0xFFF)
  match vm.copyUserAddressSpace parentCr3 childCr3 with
  | .ok (vm, _) => (childCr3, vm)
  | .error (_, vm) => (childCr3, vm)

/-- The kernel stack of a child, with the parent's interrupt frame `words`. -/
def cloneStack (vm : Vm) (words : ℕ → ℕ) : Option (ℕ × Vm) :=
  match vm.pmm.allocOrder 2 with
  | none => none
  | some (stackPhys, pmm) =>
    some (stackPhys,
      { vm with pmm := { pmm with mem := pmm.mem.putFrame (stackPhys + 3 * pageSize) words } })

end Vm

/-- `self` is the parent. -/
def Task.cloneShallow (self : Task) (childPid : Pid) (stackTop : ℕ) : Task :=
  { self with
    pid := childPid
    state := .runnable
    kernelStackTop := stackTop
    savedKernelRsp := stackTop - 8 * frameWords
    parentPid := self.pid
    exitCode := none
    pendingSignals := 0
    runnableAt := 0
    schedLatencyTotalUs := 0
    schedCount := 0
    ticksRun := 0
    stackCanary := 0
    stackCanaryAddr := 0 }

structure Kernel where
  vm : Vm
  sched : Scheduler
  physOffset : ℕ

namespace Kernel

/-- `cr3` is the value of the register and `words` the interrupt frame of the parent. -/
def forkTask (k : Kernel) (mapper : PageMapper) (cr3 : ℕ) (words : ℕ → ℕ) (parentPid : Pid) : Option Pid × Kernel :=
  let childPid := k.sched.nextPid
  let sched := { k.sched with nextPid := k.sched.nextPid + 1 }
  match sched.tasks parentPid with
  | none => (none, { k with sched })
  | some parent =>
    let (childCr3, vm) := k.vm.forkSpace mapper cr3 parent.cr3
    match vm.cloneStack words with
    | none => (none, { k with vm, sched })
    | some (stackPhys, vm) =>
      let child := parent.cloneShallow childPid (k.physOffset + stackPhys + 4 * pageSize)
      let sched := { sched with
        tasks := fun q => if q = childPid then some { child with cr3 := childCr3 }
          else sched.tasks q }
      (some childPid, { k with vm, sched := sched.enqueue childPid })

/-- A thread in the address space of its parent, on a user stack of its own. -/
def spawnUserThread (k : Kernel) (words : ℕ → ℕ) (parentPid : Pid) (newStack : ℕ) : Option Pid × Kernel :=
  let childPid := k.sched.nextPid
  let sched := { k.sched with nextPid := k.sched.nextPid + 1 }
  match sched.tasks parentPid with
  | none => (none, { k with sched })
  | some parent =>
    match k.vm.cloneStack words with
    | none => (none, { k with sched })
    | some (stackPhys, vm) =>
      let child := parent.cloneShallow childPid (k.physOffset + stackPhys + 4 * pageSize)
      let vm := vm.write (stackPhys + 3 * pageSize) (512 - frameWords + frameRspWord) newStack
      let sched := { sched with
        tasks := fun q => if q = childPid then some { child with parentPid }
          else sched.tasks q }
      (some childPid, { k with vm, sched := sched.enqueue childPid })

/-- `exit_current` and `exit_current_direct`; `none` is a walk that has not ended. -/
def exitTask (k : Kernel) (pid : Pid) (code : ℤ) : Option Kernel :=
  let parentPid := k.sched.parentOf pid
  let sched := k.sched.markZombie pid code
  let taskCr3 := ((sched.tasks pid).map Task.cr3).getD 0
  let vm := if taskCr3 ≠ 0 then k.vm.releaseUserCowRefs taskCr3 else some k.vm
  vm.map (fun vm => { k with vm, sched := sched.notifyParent parentPid })

/-- `cr3` is the value of the register; `none` is a loop that has not ended. -/
def sysMprotect (k : Kernel) (cr3 addr len prot : ℕ) : Option Kernel :=
  if len = 0 then some k
  else
    let writable := decide (prot &&& 2 ≠ 0)
    let executable := decide (prot &&& 4 ≠ 0)
    (k.vm.updateUserPteFlags cr3 addr len writable executable).map (fun vm => { k with vm })

def userLoad (k : Kernel) (root addr : ℕ) : Option ℕ :=
  let e := pageTables.leaf k.vm.pmm.mem root (addr >>> 12)
  if Pte.present e then some (k.vm.pmm.mem (Pte.frame e) (addr % pageSize / 8)) else none

/-- A word that a process writes. Without a present and writable entry the write does not
happen, and the processor raises a fault. -/
def userStore (k : Kernel) (root addr w : ℕ) : Kernel :=
  let e := pageTables.leaf k.vm.pmm.mem root (addr >>> 12)
  if Pte.present e ∧ Pte.writable e then
    { k with vm := k.vm.write (Pte.frame e) (addr % pageSize / 8) w }
  else k

end Kernel
end NodeKernel
