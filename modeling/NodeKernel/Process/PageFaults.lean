import NodeKernel.Memory.VmmFlags
import NodeKernel.Process.DemandPaging

/-!
# Page faults

`page_fault_handler` of `kernel/src/interrupts/mod.rs` for the faults of a process, the accesses that raise them, and the
reclaiming of pages. The entries above the last level permit what the last one does. The processor is taken to look at
the tables on every access.
-/
namespace NodeKernel
open Blocks Function

def Pte.toAccessed (e : ℕ) : ℕ := e ||| pteAccessed

def Vm.touch (vm : Vm) (root addr : ℕ) : Vm :=
  match vm.walkTo root addr with
  | none => vm
  | some (l1, i) => vm.write l1 i (Pte.toAccessed (vm.read l1 i))

inductive Access
  | load
  | store (w : ℕ)

def Access.isWrite : Access → Bool
  | .load => false
  | .store _ => true

namespace Pager

def permits (p : Pager) (root addr : ℕ) (a : Access) : Bool :=
  let e := pageTables.leaf p.k.vm.pmm.mem root (addr >>> 12)
  Pte.present e && Pte.user e && (!a.isWrite || Pte.writable e)

/-- The word that a load gives to the process, where it is permitted. -/
def userWord (p : Pager) (root addr : ℕ) : Option ℕ :=
  if p.permits root addr .load then p.k.userLoad root addr else none

/-- `none` is a fault. -/
def access (p : Pager) (root addr : ℕ) (a : Access) : Option Pager :=
  if p.permits root addr a then
    let k := { p.k with vm := p.k.vm.touch root addr }
    match a with
    | .load => some { p with k }
    | .store w => some { p with k := k.userStore root addr w }
  else none

def heapBase : ℕ := 0x4000000000
def stackBottom : ℕ := 0x7FFFF0000000
def stackTop : ℕ := 0x7FFFFFFFF000

/-- `brk` is the end of the heap of the process. -/
def inHeap (brk page : ℕ) : Bool := decide (brk > heapBase ∧ page ≥ heapBase ∧ page < brk)

def inStack (page : ℕ) : Bool := decide (page ≥ stackBottom ∧ page < stackTop)

def demandMap (p : Pager) (M : PageMapper) (pid : Pid) (page : ℕ) : Option (Bool × Pager) :=
  ((p.execMem pid).mapUserRange M page pageSize true false).map (fun (ok, m) => (ok, p.withMem pid m))

def segv (p : Pager) (pid : Pid) : Pager := { p with k := { p.k with sched := p.k.sched.sendSignal pid 11 } }

/-- The areas of `mmap` are tried where the page is no part of the heap or the stack, and also where it
is and could not be mapped. -/
def vmaFault (p : Pager) (M : PageMapper) (fs : RamFiles) (wp : Bool) (hints : PrefetchHints) (pid : Pid)
    (root cr2 : ℕ) : Option Pager :=
  (p.demandPageVma M fs wp hints pid root pid cr2).map (fun (ok, p) => if ok then p else p.segv pid)

def notPresentFault (p : Pager) (M : PageMapper) (fs : RamFiles) (wp : Bool) (hints : PrefetchHints)
    (pid : Pid) (root brk cr2 : ℕ) : Option Pager :=
  let page := cr2 &&& not64 (pageSize - 1)
  if inHeap brk page || inStack page then
    match p.demandMap M pid page with
    | none => none
    | some (true, p) => some p
    | some (false, p) => p.vmaFault M fs wp hints pid root cr2
  else p.vmaFault M fs wp hints pid root cr2

def protectionFault (p : Pager) (pid : Pid) (root cr2 : ℕ) (isWrite : Bool) : Pager :=
  if isWrite then
    match p.k.vm.cowPageFault root cr2 with
    | (true, vm) => p.withVm vm
    | (false, vm) => (p.withVm vm).segv pid
  else p.segv pid

/-- `none` is a kernel that stops. The process goes on with the same instruction. -/
def pageFaultHandler (p : Pager) (M : PageMapper) (fs : RamFiles) (wp : Bool) (hints : PrefetchHints)
    (pid : Pid) (root brk cr2 : ℕ) (isWrite : Bool) : Option Pager :=
  if Pte.present (pageTables.leaf p.k.vm.pmm.mem root (cr2 >>> 12)) then
    some (p.protectionFault pid root cr2 isWrite)
  else p.notPresentFault M fs wp hints pid root brk cr2

def attempt (p : Pager) (M : PageMapper) (fs : RamFiles) (wp : Bool) (hints : PrefetchHints) (pid : Pid)
    (root brk addr : ℕ) (a : Access) : Option Pager :=
  match p.access root addr a with
  | some p => some p
  | none => p.pageFaultHandler M fs wp hints pid root brk addr a.isWrite

def reclaimFileBackedPages (p : Pager) (pid : Pid) (aggressiveness : ℕ) : Option Pager :=
  (p.k.vm.reclaimFileBackedPages ((p.k.sched.tasks pid).map Task.cr3) aggressiveness).map
    (fun (vm, _) => p.withVm vm)

/-- Processes run, and pages of theirs are reclaimed. -/
inductive PressureEvent
  | attempt (pid : Pid) (addr : ℕ) (a : Access) (brk : ℕ) (hints : PrefetchHints)
  | reclaim (pid : Pid) (aggressiveness : ℕ)

inductive PressureStep (M : PageMapper) (fs : RamFiles) (wp : Bool) : Pager → PressureEvent → Pager → Prop
  | attempt {p p' pid root addr a brk hints} : p.k.sched.liveRoot pid = some root →
      addr >>> 12 < userPages → p.attempt M fs wp hints pid root brk addr a = some p' →
      PressureStep M fs wp p (.attempt pid addr a brk hints) p'
  | reclaim {p p' pid aggressiveness} : p.reclaimFileBackedPages pid aggressiveness = some p' →
      PressureStep M fs wp p (.reclaim pid aggressiveness) p'

def SameWord (p : Pager) (root addr root' addr' : ℕ) : Prop :=
  Pte.frame (pageTables.leaf p.k.vm.pmm.mem root (addr >>> 12)) =
    Pte.frame (pageTables.leaf p.k.vm.pmm.mem root' (addr' >>> 12)) ∧
  addr % pageSize / 8 = addr' % pageSize / 8

def Overwrites (p : Pager) (root addr : ℕ) : PressureEvent → Prop
  | .attempt pid addr' a _ _ => a.isWrite = true ∧ ∃ root', p.k.sched.liveRoot pid = some root' ∧
      p.permits root' addr' a = true ∧ p.SameWord root addr root' addr'
  | .reclaim .. => False

/-- A reclaim of the process leaves a page that has been accessed since it was mapped, unless it is
made with more than the third degree. -/
def Spares (p : Pager) (root addr : ℕ) : PressureEvent → Prop
  | .attempt .. => True
  | .reclaim pid aggressiveness => (p.k.sched.tasks pid).map Task.cr3 = some root →
      Pte.accessed (pageTables.leaf p.k.vm.pmm.mem root (addr >>> 12)) = true ∧ aggressiveness ≤ 3

/-- A load of the process comes to an end with the word `w`, at once or after page faults. -/
inductive Reads (M : PageMapper) (fs : RamFiles) (wp : Bool) (pid : Pid) (root addr w : ℕ) : Pager → Prop
  | now {p} : p.userWord root addr = some w → Reads M fs wp pid root addr w p
  | fault {p p' hints brk} : p.access root addr .load = none →
      p.pageFaultHandler M fs wp hints pid root brk addr false = some p' →
      Reads M fs wp pid root addr w p' → Reads M fs wp pid root addr w p

end Pager

namespace Space
open Pte

/-- At most one unused entry has got a page, in a frame of its own. -/
inductive Gains (E : Finset Entry) (σ : Space) : Space → Prop
  | same : Gains E σ σ
  | page {x : Entry} {f w : ℕ} {d : ℕ → ℕ → ℕ} : σ.pte x = 0 → (∀ y ∈ E, ¬ σ.Maps y f) → frame w = f →
      cow w = false → (∀ g, g ≠ f → d g = σ.data g) → Gains E σ { σ.setPte x w with data := d }

end Space

namespace Scheduler

lemma modifyTask_cr3 (s : Scheduler) (pid q : Pid) {f : Task → Task} (hf : ∀ t, (f t).cr3 = t.cr3) :
    ((s.modifyTask pid f).tasks q).map Task.cr3 = (s.tasks q).map Task.cr3 := by
  unfold modifyTask
  dsimp only
  split
  next hq =>
    rw [hq, Option.map_map]
    exact congrArg (fun g => (s.tasks pid).map g) (funext hf)
  · rfl

lemma wakePid_cr3 (s : Scheduler) (pid q : Pid) : ((s.wakePid pid).tasks q).map Task.cr3 = (s.tasks q).map Task.cr3 := by
  unfold wakePid
  split
  · exact modifyTask_cr3 s pid q (fun _ => rfl)
  · rfl

lemma sendSignal_cr3 (s : Scheduler) (pid q : Pid) (signum : ℕ) :
    ((s.sendSignal pid signum).tasks q).map Task.cr3 = (s.tasks q).map Task.cr3 := by
  unfold sendSignal
  split
  · rfl
  · dsimp only
    split
    · exact (wakePid_cr3 _ pid q).trans (modifyTask_cr3 s pid q (fun _ => rfl))
    · exact modifyTask_cr3 s pid q (fun _ => rfl)

end Scheduler

namespace Pager
variable {p p' : Pager} {M : PageMapper} {fs : RamFiles} {wp ok : Bool} {P roots : Set ℕ}
  {E : Finset Entry} {σ : Space} {C C' : Space → Prop} {pid : Pid} {root addr page brk : ℕ}
  {hints : PrefetchHints}

/-- The memory represents a space that meets `C`, and the processes have the roots that they had. -/
structure Moves (p : Pager) (P roots : Set ℕ) (E : Finset Entry) (C : Space → Prop) (p' : Pager) : Prop where
  supplied : ∃ σ', p'.Supplied P roots E σ' ∧ C σ'
  root : p'.k.vm.vmmRoot = p.k.vm.vmmRoot
  sched : p.k.sched.Keeps p'.k.sched
  cr3 : ∀ q, (p'.k.sched.tasks q).map Task.cr3 = (p.k.sched.tasks q).map Task.cr3

lemma Moves.refl (h : p.Supplied P roots E σ) (hC : C σ) : p.Moves P roots E C p :=
  ⟨⟨σ, h, hC⟩, rfl, Scheduler.Keeps.refl _, fun _ => rfl⟩

lemma Moves.mono (h : p.Moves P roots E C p') (hC : ∀ σ', C σ' → C' σ') : p.Moves P roots E C' p' := by
  obtain ⟨σ', hs, hc⟩ := h.supplied
  exact ⟨⟨σ', hs, hC σ' hc⟩, h.root, h.sched, h.cr3⟩

lemma Moves.segv (h : p.Moves P roots E C p') (pid : Pid) : p.Moves P roots E C (p'.segv pid) :=
  ⟨h.supplied, h.root, h.sched.trans (Scheduler.sendSignal_keeps _ pid 11),
    fun q => (Scheduler.sendSignal_cr3 _ pid q 11).trans (h.cr3 q)⟩

lemma Moves.withVm {vm' : Vm} {L' : FreeLists} {out' : Finset Block} {S T : Finset ℕ} {σ' : Space}
    (hb : p.cache.Backs T S) (hres : Reserved p.reserves T) (href : vm'.Refines L' out' P roots E S σ')
    (hC : C σ') (hroot : vm'.vmmRoot = p.k.vm.vmmRoot) : p.Moves P roots E C (p.withVm vm') :=
  ⟨⟨σ', ⟨T, ⟨L', out', S, href, hb⟩, hres⟩, hC⟩, hroot, Scheduler.Keeps.refl _, fun _ => rfl⟩

lemma demandMap_moves (h : p.Supplied P roots E σ) (hM : M.Lawful) (hroot : p.k.vm.vmmRoot ∈ roots)
    (hpage : page / pageSize < userPages) (pid : Pid) :
    ∃ ok p', p.demandMap M pid page = some (ok, p') ∧ p'.k.sched = p.k.sched ∧ p'.k.vm.vmmRoot = p.k.vm.vmmRoot ∧
      (ok = true ∧ p.Moves P roots E (σ.Gains E) p' ∨ ok = false ∧ p'.Supplied P roots E σ) := by
  obtain ⟨ok, m, S, hrun, _, hout⟩ := h.mapUserRange hM hroot hpage pid true false
  unfold demandMap
  rw [hrun]
  rcases hout with ⟨rfl, f, hgiven, hs⟩ | ⟨rfl, hrefused, hs⟩
  · refine ⟨true, _, rfl, rfl, hgiven.root, .inl ⟨rfl, ⟨_, hs, ?_⟩, hgiven.root, Scheduler.Keeps.refl _, fun _ => rfl⟩⟩
    exact Space.Gains.page hgiven.unused hgiven.unmapped (frame_user hgiven.isFrame)
      (cow_user hgiven.isFrame) (fun g hg => update_of_ne hg _ _)
  · exact ⟨false, _, rfl, rfl, hrefused.root, .inr ⟨rfl, hs⟩⟩

lemma fillPage_moves {f vr vmaStart : ℕ} {fv : FileVma} {flags : ℕ}
    (h : p.Supplied P roots E ((σ.setData f (fun _ => 0)).setPte (vr, page / pageSize) (f ||| flags)))
    (hun : ∀ y ∈ E, ¬ σ.Maps y f) (h0 : σ.pte (vr, page / pageSize) = 0) (hf : Pte.frame (f ||| flags) = f)
    (hcow : Pte.cow (f ||| flags) = false)
    (hx : (root, page / pageSize) ∈ E) (hn : Pte.present (σ.pte (root, page / pageSize)) = false)
    (hrun : p.fillPage fs wp hints root page vmaStart fv = some p') :
    ∃ σ', p'.Supplied P roots E σ' ∧ σ.Gains E σ' ∧ p' = p.withCache p'.k.vm p'.cache ∧ p'.k.vm.vmmRoot = p.k.vm.vmmRoot := by
  obtain ⟨T, hst, hres⟩ := h
  have hvpn : page >>> 12 = page / pageSize := Nat.shiftRight_eq_div_pow page 12
  rcases readBytes_tends hst fv.ino ((fv.fileOff + (page - vmaStart)) % 2 ^ 64) (fs.readPage fv.filePath) with
    ⟨hnone, _⟩ | ⟨bytes, p₁, hread, ht⟩
  · unfold fillPage at hrun
    dsimp only at hrun
    rw [hnone] at hrun
    cases hrun
  · rcases fillPage_of_read hread ht (hvpn.symm ▸ hx) wp hints with
      ⟨hnone, _⟩ | ⟨p₂, d, hfill, hrest, hst₂, hroot, hdata, _⟩
    · rw [hnone] at hrun
      cases hrun
    · obtain rfl := Option.mem_unique hfill hrun
      refine ⟨_, ⟨T, hst₂, ?_⟩, Space.Gains.page h0 hun hf hcow ?_, hrest, hroot⟩
      · rw [hrest]
        exact hres
      · intro g hg
        rw [hdata g ?_]
        · exact update_of_ne hg _ _
        · rw [hvpn]
          intro hm
          rcases Space.maps_of_setPte hm with hnew | hold
          · exact hg (hnew.2.2.trans hf)
          · exact Bool.false_ne_true (hn.symm.trans hold.2.1)

section Fault
variable (h : p.Supplied P roots E σ) (hM : M.Lawful) (hroot : p.k.vm.vmmRoot ∈ roots)
  (hx : (root, addr >>> 12) ∈ E)
include h hM hroot hx

variable (hn : Pte.present (σ.pte (root, addr >>> 12)) = false)
include hn

lemma demandPageVma_moves {current : Pid}
    (hrun : p.demandPageVma M fs wp hints current root pid addr = some (ok, p')) : p.Moves P roots E (σ.Gains E) p' := by
  have hvpn : addr / pageSize * pageSize / pageSize = addr >>> 12 := by
    rw [Nat.mul_div_cancel _ (by decide), Nat.shiftRight_eq_div_pow]
    rfl
  have hv : addr / pageSize * pageSize / pageSize < userPages := by
    obtain ⟨T, ⟨L, out, S, href, _⟩, _⟩ := h
    rw [hvpn]
    exact (href.entries _ hx).2
  rw [← hvpn] at hx hn
  unfold demandPageVma at hrun
  dsimp only at hrun
  generalize addr / pageSize * pageSize = page at hv hx hn hrun
  cases hfind : findVma Vma.stop p.vmas pid page with
  | none =>
    rw [hfind] at hrun
    obtain ⟨_, rfl⟩ := Prod.mk.inj (Option.some.inj hrun)
    exact Moves.refl h Space.Gains.same
  | some sv =>
    obtain ⟨start, v⟩ := sv
    obtain ⟨ok', m, S, hmap, _, hout⟩ := h.mapUserRange hM hroot hv current v.writable v.executable
    rw [hfind] at hrun
    dsimp only at hrun
    rw [hmap] at hrun
    rcases hout with ⟨rfl, f, hgiven, hs⟩ | ⟨rfl, hrefused, hs⟩
    · dsimp only at hrun
      have hf : Pte.frame (f ||| userFlags v.writable v.executable) = f := frame_user hgiven.isFrame
      have hcow : Pte.cow (f ||| userFlags v.writable v.executable) = false := cow_user hgiven.isFrame
      cases hfile : findVma FileVma.stop (p.withMem current m).fileVmas pid page with
      | none =>
        rw [hfile] at hrun
        obtain ⟨_, rfl⟩ := Prod.mk.inj (Option.some.inj hrun)
        refine ⟨⟨_, hs, ?_⟩, hgiven.root, Scheduler.Keeps.refl _, fun _ => rfl⟩
        exact Space.Gains.page hgiven.unused hgiven.unmapped hf hcow (fun g hg => update_of_ne hg _ _)
      | some sf =>
        obtain ⟨start', fv⟩ := sf
        rw [hfile] at hrun
        obtain ⟨p₁, hfill, heq⟩ := Option.map_eq_some_iff.mp hrun
        obtain ⟨_, rfl⟩ := Prod.mk.inj heq
        obtain ⟨σ', hs', hc', hrest, hroot'⟩ := fillPage_moves hs hgiven.unmapped hgiven.unused hf
          hcow hx hn hfill
        refine ⟨⟨σ', hs', hc'⟩, hroot'.trans hgiven.root, ?_, ?_⟩
        · rw [hrest]
          exact Scheduler.Keeps.refl _
        · rw [hrest]
          exact fun _ => rfl
    · obtain ⟨_, rfl⟩ := Prod.mk.inj (Option.some.inj hrun)
      exact ⟨⟨σ, hs, Space.Gains.same⟩, hrefused.root, Scheduler.Keeps.refl _, fun _ => rfl⟩

lemma vmaFault_moves (hrun : p.vmaFault M fs wp hints pid root addr = some p') : p.Moves P roots E (σ.Gains E) p' := by
  obtain ⟨⟨ok, p₁⟩, hvma, rfl⟩ := Option.map_eq_some_iff.mp hrun
  have hm := demandPageVma_moves h hM hroot hx hn hvma
  cases ok with
  | true => exact hm
  | false => exact hm.segv pid

lemma notPresentFault_moves
    (hrun : p.notPresentFault M fs wp hints pid root brk addr = some p') : p.Moves P roots E (σ.Gains E) p' := by
  have hv : addr >>> 12 < userPages := by
    obtain ⟨T, ⟨L, out, S, href, _⟩, _⟩ := h
    exact (href.entries _ hx).2
  have hpage : (addr &&& not64 (pageSize - 1)) / pageSize < userPages := by
    rw [Nat.shiftRight_eq_div_pow] at hv
    rw [and_not64_page (by unfold userPages at hv; omega)]
    exact (Nat.mul_div_cancel _ (by decide)).trans_lt hv
  unfold notPresentFault at hrun
  dsimp only at hrun
  generalize addr &&& not64 (pageSize - 1) = page at hpage hrun
  split at hrun
  · obtain ⟨ok, p₁, hmap, hsched, hroot₁, hout⟩ := demandMap_moves h hM hroot hpage pid
    rw [hmap] at hrun
    rcases hout with ⟨rfl, hm⟩ | ⟨rfl, hs⟩
    · obtain rfl := Option.some.inj hrun
      exact hm
    · obtain ⟨hsup, hroot', hkeeps, hcr3⟩ := vmaFault_moves hs hM (hroot₁ ▸ hroot) hx hn hrun
      exact ⟨hsup, hroot'.trans hroot₁, hsched ▸ hkeeps, hsched ▸ hcr3⟩
  · exact vmaFault_moves h hM hroot hx hn hrun

end Fault
end Pager
end NodeKernel
