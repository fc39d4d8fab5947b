import NodeKernel.Lib.OrdMap
import NodeKernel.Memory.PageCache
import NodeKernel.Process.Execve

/-!
# Lazy mappings

`sys_mmap`, `demand_page_vma`, `sys_munmap` and `sys_madvise` of `kernel/src/syscall/mod.rs`. The
file system is the one in memory. `none` is a kernel that stops.
-/
namespace NodeKernel

structure Vma where
  stop : ℕ
  writable : Bool
  executable : Bool

structure FileVma where
  stop : ℕ
  filePath : String
  fileOff : ℕ
  ino : ℕ
  writable : Bool

abbrev VmaKey := ℕ ×ₗ ℕ

/-- The largest start up to the page, of this process, if its area reaches to the page. -/
def findVma {β : Type} (stop : β → ℕ) (table : OrdMap VmaKey β) (pid : Pid) (page : ℕ) : Option (ℕ × β) :=
  (table.lastLE (toLex (pid, page)) (fun k => (ofLex k).1 == pid)).bind (fun e =>
    if page < stop e.2 then some ((ofLex e.1).2, e.2) else none)

structure RamFiles where
  ino : String → Option ℕ
  data : String → Option (List UInt8)

/-- What `open`, `seek` and `read` give for a page. A position behind the end is a panic. -/
def RamFiles.readPage (fs : RamFiles) (path : String) (poff : ℕ) : Option (List UInt8) :=
  match fs.data path with
  | none => some []
  | some data => if poff ≤ data.length then some ((data.drop poff).take pageSize) else none

/-- The kernel with the tables of the areas, the frames that `self_model` has in reserve for each
process, the page cache, and the next address for a mapping. -/
structure Pager where
  k : Kernel
  reserves : Pid → List ℕ
  cache : PageCache
  vmas : OrdMap VmaKey Vma
  fileVmas : OrdMap VmaKey FileVma
  mmapNext : ℕ

/-- What the predictors say at a fault: the page expected next, and the cluster of the process. -/
structure PrefetchHints where
  predictedVpn : Option ℕ
  cluster : ℕ

/-- The bytes go to the page of `addr` in the address space of `root`, if there are any. `wp` is the
write protection of the kernel itself. -/
def Vm.copyToUser (vm : Vm) (wp : Bool) (root addr : ℕ) (bytes : List UInt8) : Option Vm :=
  if bytes = [] then some vm
  else
    let e := pageTables.leaf vm.pmm.mem root (addr >>> 12)
    if Pte.present e ∧ (wp = false ∨ Pte.writable e) then
      some (vm.withMem (vm.pmm.mem.putBytes (Pte.frame e) bytes))
    else none

def Vm.munmapLoop (mapper : PageMapper) : ℕ → ℕ → Vm → Option Vm
  | 0, _, vm => some vm
  | pages + 1, virt, vm =>
    if !canonical virt then none
    else
      match vm.unmapPage mapper (virt >>> 12 &&& 0xFFFFFFFFF) with
      | (none, vm) => munmapLoop mapper pages ((virt + pageSize) % 2 ^ 64) vm
      | (some frame, vm) =>
        match vm.freeFrame frame with
        | none => none
        | some vm => munmapLoop mapper pages ((virt + pageSize) % 2 ^ 64) vm

namespace Pager

def mapFixed : ℕ := 0x10

def lenAligned (len : ℕ) : ℕ := (len + pageSize - 1) % 2 ^ 64 / pageSize * pageSize

def mmapAddr (p : Pager) (addr flags : ℕ) : ℕ :=
  if flags &&& mapFixed ≠ 0 ∧ addr ≠ 0 then addr else p.mmapNext

def vmaOf (vaddr len prot : ℕ) : Vma :=
  ⟨(vaddr + lenAligned len) % 2 ^ 64, decide (prot &&& 2 ≠ 0), decide (prot &&& 4 ≠ 0)⟩

def advance (p : Pager) (addr len flags : ℕ) : Pager :=
  if flags &&& mapFixed ≠ 0 ∧ addr ≠ 0 then p
  else { p with mmapNext := (p.mmapNext + lenAligned len + pageSize) % 2 ^ 64 }

/-- `fdPath` is the path that the descriptor was opened under, and `rlimitAs` the current limit of
the process. -/
def sysMmap (p : Pager) (fs : RamFiles) (fdPath : ℤ → Option String) (rlimitAs : ℕ) (pid : Pid)
    (addr len prot flags : ℕ) (fd : ℤ) (offset : ℕ) : Except ℤ ℕ × Pager :=
  if len = 0 then (.error einval, p)
  else
    let vaddr := p.mmapAddr addr flags
    let p := p.advance addr len flags
    if rlimitAs ≠ 2 ^ 64 - 1 ∧ len > rlimitAs then (.error enomem, p)
    else
      let vma := vmaOf vaddr len prot
      let p := { p with vmas := p.vmas.insert (toLex (pid, vaddr)) vma }
      match (if fd ≥ 0 then fdPath fd else none) with
      | none => (.ok vaddr, p)
      | some path =>
        let fileVma : FileVma := ⟨vma.stop, path, offset, (fs.ino path).getD 0, vma.writable⟩
        (.ok vaddr, { p with fileVmas := p.fileVmas.insert (toLex (pid, vaddr)) fileVma })

def execMem (p : Pager) (current : Pid) : ExecMem := ⟨p.k.vm, p.reserves current⟩

def withMem (p : Pager) (current : Pid) (m : ExecMem) : Pager :=
  { p with k := { p.k with vm := m.vm }, reserves := Function.update p.reserves current m.reserve }

def withCache (p : Pager) (vm : Vm) (cache : PageCache) : Pager :=
  { p with k := { p.k with vm }, cache }

def readBytes (p : Pager) (ino off : ℕ) (loader : ℕ → Option (List UInt8)) : Option (List UInt8 × Pager) :=
  (p.cache.readBytes p.k.vm ino off pageSize loader).map (fun (bytes, vm, c) => (bytes, p.withCache vm c))

/-- The read ahead of the pages that follow, as far as the area goes. -/
def prefetchAhead (ino : ℕ) (loader : ℕ → Option (List UInt8)) (pageFileOff limit : ℕ) : ℕ → ℕ → Pager → Option Pager
  | 0, _, p => some p
  | n + 1, i, p =>
    let aheadOff := (pageFileOff + i * pageSize) % 2 ^ 64
    if aheadOff ≥ limit then some p
    else
      match p.readBytes ino aheadOff loader with
      | none => none
      | some (_, p) => prefetchAhead ino loader pageFileOff limit n (i + 1) p

/-- The read of the page that is predicted, if it lies in the area. -/
def prefetchPredicted (p : Pager) (fv : FileVma) (vmaStart : ℕ) (loader : ℕ → Option (List UInt8)) : Option ℕ → Option Pager
  | none => some p
  | some vpn =>
    let predictedVa := vpn * pageSize % 2 ^ 64
    if predictedVa ≥ vmaStart ∧ predictedVa < fv.stop then
      (p.readBytes fv.ino ((fv.fileOff + (predictedVa - vmaStart)) % 2 ^ 64) loader).map Prod.snd
    else some p

/-- The page of a file that has just been mapped, and those that may be wanted next. -/
def fillPage (p : Pager) (fs : RamFiles) (wp : Bool) (hints : PrefetchHints) (root page vmaStart : ℕ)
    (fv : FileVma) : Option Pager :=
  let loader := fs.readPage fv.filePath
  let pageFileOff := (fv.fileOff + (page - vmaStart)) % 2 ^ 64
  match p.readBytes fv.ino pageFileOff loader with
  | none => none
  | some (bytes, p) =>
    match p.k.vm.copyToUser wp root page bytes with
    | none => none
    | some vm =>
      match prefetchPredicted (p.withCache vm p.cache) fv vmaStart loader hints.predictedVpn with
      | none => none
      | some p =>
        prefetchAhead fv.ino loader pageFileOff ((fv.stop - vmaStart + fv.fileOff) % 2 ^ 64)
          (if hints.cluster ≤ 1 then 4 else 2) 1 p

/-- `current` is the process that runs and `root` the one in the register. -/
def demandPageVma (p : Pager) (M : PageMapper) (fs : RamFiles) (wp : Bool) (hints : PrefetchHints)
    (current : Pid) (root : ℕ) (pid : Pid) (vaddr : ℕ) : Option (Bool × Pager) :=
  let page := vaddr / pageSize * pageSize
  match findVma Vma.stop p.vmas pid page with
  | none => some (false, p)
  | some (_, v) =>
    match (p.execMem current).mapUserRange M page pageSize v.writable v.executable with
    | none => none
    | some (false, m) => some (false, p.withMem current m)
    | some (true, m) =>
      let p := p.withMem current m
      match findVma FileVma.stop p.fileVmas pid page with
      | none => some (true, p)
      | some (vmaStart, fv) =>
        (p.fillPage fs wp hints root page vmaStart fv).map (fun p => (true, p))

def withVm (p : Pager) (vm : Vm) : Pager := { p with k := { p.k with vm } }

/-- The result is always 0. The tables of the areas stay as they are. -/
def sysMunmap (p : Pager) (M : PageMapper) (addr len : ℕ) : Option Pager :=
  if len = 0 then some p
  else
    (p.k.vm.munmapLoop M ((len + pageSize - 1) % 2 ^ 64 / pageSize) (addr / pageSize * pageSize)).map
      p.withVm

def madvWillneed : ℤ := 3
def madvDontneed : ℤ := 4
def madvFree : ℤ := 8

/-- `MADV_WILLNEED`: `demand_page_vma` for each page. What it returns is not looked at. -/
def willneedLoop (M : PageMapper) (fs : RamFiles) (wp : Bool) (hints : ℕ → PrefetchHints) (root : ℕ)
    (pid : Pid) : ℕ → ℕ → Pager → Option Pager
  | 0, _, p => some p
  | pages + 1, va, p =>
    match p.demandPageVma M fs wp (hints va) pid root pid va with
    | none => none
    | some (_, p) => willneedLoop M fs wp hints root pid pages ((va + pageSize) % 2 ^ 64) p

/-- The pages of `[addr, addr + len)` as `sys_madvise` counts them. -/
def madvisePages (addr len : ℕ) : ℕ :=
  ((addr + len + pageSize - 1) % 2 ^ 64 / pageSize * pageSize - addr / pageSize * pageSize) / pageSize

/-- The result is always 0. The hints about the order of accesses are not kept. -/
def sysMadvise (p : Pager) (M : PageMapper) (fs : RamFiles) (wp : Bool) (hints : ℕ → PrefetchHints)
    (root : ℕ) (pid : Pid) (addr len : ℕ) (advice : ℤ) : Option Pager :=
  if len = 0 then some p
  else if advice = madvDontneed ∨ advice = madvFree then
    (p.k.vm.munmapLoop M (madvisePages addr len) (addr / pageSize * pageSize)).map p.withVm
  else if advice = madvWillneed then
    willneedLoop M fs wp hints root pid (madvisePages addr len) (addr / pageSize * pageSize) p
  else some p

def cleanupPidVmas (p : Pager) (pid : Pid) : Pager :=
  { p with
    vmas := p.vmas.filterKeys (fun key => (ofLex key).1 ≠ pid)
    fileVmas := p.fileVmas.filterKeys (fun key => (ofLex key).1 ≠ pid) }

end Pager
end NodeKernel
