import NodeKernel.Lib.Radix
import NodeKernel.Memory.Pte

/-!
# Virtual memory manager

`kernel/src/memory/vmm.rs`: the copy-on-write walkers over the four-level tables, and the
mapping calls. The `Mapper` of the paging crate is a parameter.
-/
namespace NodeKernel

def flagUser : ℕ := 1 <<< 2

/-- The frame allocator state, `COW_REFS`, and the root that `VMM` was created on. -/
structure Vm where
  pmm : Pmm
  cowRefs : ℕ → Option ℕ
  vmmRoot : ℕ

/-- `Mapper::map_to` and `Mapper::unmap` on the tables below a root. -/
structure PageMapper where
  mapTo : Pmm → (root page frame flags : ℕ) → Bool × Pmm
  unmap : Pmm → (root page : ℕ) → Option ℕ × Pmm

namespace PhysMem

def zeroPage (m : PhysMem) (page : ℕ) : PhysMem := fun a i => if a = page then 0 else m a i

def copyPage (m : PhysMem) (src dst : ℕ) : PhysMem := fun a i => if a = dst then m src i else m a i

end PhysMem

namespace Vm

def read (vm : Vm) (t i : ℕ) : ℕ := vm.pmm.mem t i

def withMem (vm : Vm) (mem : PhysMem) : Vm := { vm with pmm := { vm.pmm with mem } }

def write (vm : Vm) (t i w : ℕ) : Vm := vm.withMem (vm.pmm.mem.write t i w)

def withRef (vm : Vm) (phys : ℕ) (rc : Option ℕ) : Vm :=
  { vm with cowRefs := Function.update vm.cowRefs phys rc }

def allocFrame (vm : Vm) : Option (ℕ × Vm) :=
  vm.pmm.allocFrame.map (fun (p, pmm) => (p, { vm with pmm }))

def freeFrame (vm : Vm) (phys : ℕ) : Option Vm :=
  (vm.pmm.freeFrame phys).map (fun pmm => { vm with pmm })

def mapPage (vm : Vm) (mapper : PageMapper) (page frame flags : ℕ) : Bool × Vm :=
  let (ok, pmm) := mapper.mapTo vm.pmm vm.vmmRoot page frame flags
  (ok, { vm with pmm })

def unmapPage (vm : Vm) (mapper : PageMapper) (page : ℕ) : Option ℕ × Vm :=
  let (frame, pmm) := mapper.unmap vm.pmm vm.vmmRoot page
  (frame, { vm with pmm })

/-- An error comes with the state it leaves behind. -/
def ensureTable (vm : Vm) (dst i srcEntry : ℕ) : Except (String × Vm) (ℕ × Vm) :=
  let existing := vm.read dst i
  if existing &&& ptePresent ≠ 0 then .ok (existing &&& pteAddrMask, vm)
  else match vm.allocFrame with
    | none => .error ("ensure_table: OOM", vm)
    | some (newPhys, vm) =>
      let vm := vm.withMem (vm.pmm.mem.zeroPage newPhys)
      .ok (newPhys, vm.write dst i (newPhys ||| (srcEntry &&& not64 pteAddrMask)))

/-- The body of the innermost loop of `copy_user_address_space`. -/
def copyEntry (srcL1 dstL1 : ℕ) (st : Vm × ℕ) (l1i : ℕ) : Vm × ℕ :=
  let (vm, pagesShared) := st
  let l1e := vm.read srcL1 l1i
  if l1e &&& ptePresent = 0 then (vm, pagesShared)
  else
    let phys := l1e &&& pteAddrMask
    if l1e &&& pteWritable ≠ 0 ∨ l1e &&& pteCow ≠ 0 then
      let cowPte := (l1e &&& not64 pteWritable) ||| pteCow
      let vm := (vm.write srcL1 l1i cowPte).write dstL1 l1i cowPte
      let rc := (vm.cowRefs phys).getD 1
      (vm.withRef phys (some (min (rc + 1) 255)), pagesShared + 1)
    else (vm.write dstL1 l1i l1e, pagesShared + 1)

def copyL1 (srcL1 dstL1 : ℕ) (st : Vm × ℕ) : Except (String × Vm) (Vm × ℕ) :=
  .ok ((List.range 512).foldl (copyEntry srcL1 dstL1) st)

/-- The body of the outer loops: an entry of the source table, with its table in the
destination. Only the level below the root skips huge entries. -/
def copySlot (skipHuge : Bool) (inner : ℕ → ℕ → Vm × ℕ → Except (String × Vm) (Vm × ℕ))
    (src dst : ℕ) (st : Vm × ℕ) (i : ℕ) : Except (String × Vm) (Vm × ℕ) :=
  let e := st.1.read src i
  if e &&& ptePresent = 0 then .ok st
  else if skipHuge ∧ e &&& pteHuge ≠ 0 then .ok st
  else match st.1.ensureTable dst i e with
    | .error err => .error err
    | .ok (dstNext, vm) => inner (e &&& pteAddrMask) dstNext (vm, st.2)

def copyTable (n : ℕ) (skipHuge : Bool) (inner : ℕ → ℕ → Vm × ℕ → Except (String × Vm) (Vm × ℕ)) (src dst : ℕ) (st : Vm × ℕ) :
    Except (String × Vm) (Vm × ℕ) :=
  (List.range n).foldlM (copySlot skipHuge inner src dst) st

def copyL2 : ℕ → ℕ → Vm × ℕ → Except (String × Vm) (Vm × ℕ) := copyTable 512 true copyL1
def copyL3 : ℕ → ℕ → Vm × ℕ → Except (String × Vm) (Vm × ℕ) := copyTable 512 true copyL2

def copyUserAddressSpace (vm : Vm) (srcCr3 dstCr3 : ℕ) : Except (String × Vm) (Vm × ℕ) :=
  copyTable 256 false copyL3 srcCr3 dstCr3 (vm, 0)

/-- The walk of `cow_page_fault` and `update_user_pte_flags` down to the last-level entry. -/
def walkTo (vm : Vm) (cr3 addr : ℕ) : Option (ℕ × ℕ) :=
  let l4e := vm.read cr3 (addr >>> 39 &&& 0x1FF)
  if l4e &&& ptePresent = 0 then none
  else
    let l3e := vm.read (l4e &&& pteAddrMask) (addr >>> 30 &&& 0x1FF)
    if l3e &&& ptePresent = 0 ∨ l3e &&& pteHuge ≠ 0 then none
    else
      let l2e := vm.read (l3e &&& pteAddrMask) (addr >>> 21 &&& 0x1FF)
      if l2e &&& ptePresent = 0 ∨ l2e &&& pteHuge ≠ 0 then none
      else some (l2e &&& pteAddrMask, addr >>> 12 &&& 0x1FF)

/-- The count left after this owner is taken off, `0` for the last one. -/
def dropRef (vm : Vm) (phys : ℕ) : ℕ × Vm :=
  match vm.cowRefs phys with
  | some rc => if rc > 1 then (rc - 1, vm.withRef phys (some (rc - 1))) else (0, vm.withRef phys none)
  | none => (0, vm.withRef phys none)

/-- `cr3` is the value of the register. -/
def cowPageFault (vm : Vm) (cr3 cr2 : ℕ) : Bool × Vm :=
  match vm.walkTo (cr3 &&& not64 0xFFF) cr2 with
  | none => (false, vm)
  | some (l1, i) =>
    let l1e := vm.read l1 i
    if l1e &&& ptePresent = 0 then (false, vm)
    else if l1e &&& pteCow = 0 then (false, vm)
    else
      let oldPhys := l1e &&& pteAddrMask
      let newFlags := (l1e &&& not64 pteAddrMask &&& not64 pteCow) ||| pteWritable
      match vm.dropRef oldPhys with
      | (0, vm) => (true, vm.write l1 i (oldPhys ||| newFlags))
      | (_ + 1, vm) =>
        match vm.allocFrame with
        | none => (false, vm)
        | some (newPhys, vm) =>
          let vm := vm.withMem (vm.pmm.mem.copyPage oldPhys newPhys)
          (true, vm.write l1 i (newPhys ||| newFlags))

/-- The body of the innermost loop of `release_user_cow_refs`. -/
def releaseEntry (l1 : ℕ) (vm : Vm) (l1i : ℕ) : Option Vm :=
  let l1e := vm.read l1 l1i
  if l1e &&& ptePresent = 0 then some vm
  else if l1e &&& pteCow = 0 then some vm
  else
    let phys := l1e &&& pteAddrMask
    match vm.cowRefs phys with
    | some rc =>
      if rc ≤ 1 then (vm.withRef phys none).freeFrame phys
      else some (vm.withRef phys (some (rc - 1)))
    | none => some vm

/-- The body of the outer loops of a walk over one address space, which carries some state
with the memory. -/
def walkSlot {σ : Type} (vmOf : σ → Vm) (skipHuge : Bool) (inner : ℕ → σ → Option σ) (table : ℕ) (st : σ) (i : ℕ) : Option σ :=
  let e := (vmOf st).read table i
  if e &&& ptePresent = 0 ∨ (skipHuge ∧ e &&& pteHuge ≠ 0) then some st
  else inner (e &&& pteAddrMask) st

def walkTable {σ : Type} (vmOf : σ → Vm) (n : ℕ) (skipHuge : Bool) (inner : ℕ → σ → Option σ) (table : ℕ) (st : σ) : Option σ :=
  (List.range n).foldlM (walkSlot vmOf skipHuge inner table) st

def releaseL1 (l1 : ℕ) (vm : Vm) : Option Vm := (List.range 512).foldlM (releaseEntry l1) vm
def releaseL2 : ℕ → Vm → Option Vm := walkTable id 512 true releaseL1
def releaseL3 : ℕ → Vm → Option Vm := walkTable id 512 true releaseL2

/-- `none` is a walk of a free list that has not ended. -/
def releaseUserCowRefs (vm : Vm) (cr3 : ℕ) : Option Vm :=
  walkTable id 256 false releaseL3 (cr3 &&& not64 0xFFF) vm

/-- The body of the innermost loop of `reclaim_file_backed_pages`. -/
def reclaimEntry (aggressiveness l1 : ℕ) (st : Vm × ℕ) (l1i : ℕ) : Option (Vm × ℕ) :=
  let (vm, reclaimedPages) := st
  let l1e := vm.read l1 l1i
  if l1e &&& ptePresent ≠ 0 then
    if l1e &&& pteAccessed = 0 ∨ aggressiveness > 3 then
      some (vm.write l1 l1i ((l1e &&& not64 ptePresent) ||| pteSwapped), reclaimedPages + 1)
    else some (vm, reclaimedPages)
  else some (vm, reclaimedPages)

def reclaimL1 (aggressiveness l1 : ℕ) (st : Vm × ℕ) : Option (Vm × ℕ) :=
  (List.range 512).foldlM (reclaimEntry aggressiveness l1) st
def reclaimL2 (aggressiveness : ℕ) : ℕ → Vm × ℕ → Option (Vm × ℕ) :=
  walkTable Prod.fst 512 true (reclaimL1 aggressiveness)
/-- Huge entries are not looked at on this level. -/
def reclaimL3 (aggressiveness : ℕ) : ℕ → Vm × ℕ → Option (Vm × ℕ) :=
  walkTable Prod.fst 512 false (reclaimL2 aggressiveness)

/-- The number of reclaimed pages; `cr3` is that of the task, if there is one. -/
def reclaimFileBackedPages (vm : Vm) (cr3 : Option ℕ) (aggressiveness : ℕ) : Option (Vm × ℕ) :=
  match cr3 with
  | some c =>
    if c ≠ 0 then walkTable Prod.fst 256 false (reclaimL3 aggressiveness) c (vm, 0)
    else some (vm, 0)
  | none => some (vm, 0)

/-- Every turn changes one entry, in the page table of `addr` if there is one. -/
def protectPage (vm : Vm) (cr3 addr : ℕ) (writable executable : Bool) : Vm :=
  match vm.walkTo cr3 addr with
  | none => vm
  | some (l1, i) =>
    let pte := vm.read l1 i
    if pte &&& ptePresent = 0 then vm
    else
      let pte := if writable then pte ||| pteWritable else pte &&& not64 pteWritable
      let pte := if !executable then pte ||| pteNx else pte &&& not64 pteNx
      vm.write l1 i pte

/-- `none` is a loop that has not ended within the fuel; `addr` wraps. -/
def protectLoop (cr3 stop : ℕ) (writable executable : Bool) : ℕ → Vm → ℕ → Option Vm
  | 0, _, _ => none
  | fuel + 1, vm, addr =>
    if addr < stop then
      protectLoop cr3 stop writable executable fuel (vm.protectPage cr3 addr writable executable)
        ((addr + pageSize) % 2 ^ 64)
    else some vm

/-- A loop that ends visits each page of the 64-bit space at most once. -/
def updateUserPteFlags (vm : Vm) (cr3 vaddr len : ℕ) (writable executable : Bool) : Option Vm :=
  protectLoop (cr3 &&& not64 0xFFF) ((vaddr + len) % 2 ^ 64) writable executable (2 ^ 52 + 1) vm
    (vaddr &&& not64 (pageSize - 1))

end Vm
end NodeKernel
