import NodeKernel.Process.Elf
import NodeKernel.Process.ExecStack
import NodeKernel.Process.FirstProcess

/-!
# execve

The file is read in the address space of the caller, the rest of `sys_execve` happens in the new one.
`map_user_range` maps in the tables of the boot root, whatever root is loaded.
-/
namespace NodeKernel
open Blocks List Option

def canonical (addr : ℕ) : Bool := decide (addr < 2 ^ 47 ∨ 2 ^ 64 - 2 ^ 47 ≤ addr)

/-- The memory, and the frames that `alloc_frame_predictive` has in reserve for the caller. -/
structure ExecMem where
  vm : Vm
  reserve : List ℕ

namespace ExecMem

/-- The walk of the processor: the physical address, and whether it can be written. -/
def translate (m : ExecMem) (root addr : ℕ) : Option (ℕ × Bool) :=
  if !canonical addr then none
  else
    let l4e := m.vm.read root (addr >>> 39 &&& 0x1FF)
    if !Pte.present l4e then none
    else
      let l3e := m.vm.read (Pte.frame l4e) (addr >>> 30 &&& 0x1FF)
      let w := Pte.writable l4e && Pte.writable l3e
      if !Pte.present l3e then none
      else if Pte.huge l3e then some (Pte.frame l3e / 2 ^ 30 * 2 ^ 30 + addr % 2 ^ 30, w)
      else
        let l2e := m.vm.read (Pte.frame l3e) (addr >>> 21 &&& 0x1FF)
        let w := w && Pte.writable l2e
        if !Pte.present l2e then none
        else if Pte.huge l2e then some (Pte.frame l2e / 2 ^ 21 * 2 ^ 21 + addr % 2 ^ 21, w)
        else
          let l1e := m.vm.read (Pte.frame l2e) (addr >>> 12 &&& 0x1FF)
          if !Pte.present l1e then none else some (Pte.frame l1e + addr % 2 ^ 12, w && Pte.writable l1e)

def readByte (m : ExecMem) (root addr : ℕ) : Option UInt8 :=
  (m.translate root addr).map (fun t =>
    UInt8.ofNat (m.vm.read (t.1 / pageSize * pageSize) (t.1 % pageSize / 8) / 256 ^ (t.1 % 8)))

def writeByte (m : ExecMem) (root addr : ℕ) (b : UInt8) : Option ExecMem :=
  match m.translate root addr with
  | some (phys, true) =>
    let page := phys / pageSize * pageSize
    let word := m.vm.read page (phys % pageSize / 8)
    let i := phys % 8
    let word := word / 256 ^ (i + 1) * 256 ^ (i + 1) + b.toNat * 256 ^ i + word % 256 ^ i
    some { m with vm := m.vm.write page (phys % pageSize / 8) word }
  | _ => none

def writeBytes (m : ExecMem) (root : ℕ) : ℕ → List UInt8 → Option ExecMem
  | _, [] => some m
  | addr, b :: bytes =>
    match m.writeByte root addr b with
    | some m => m.writeBytes root (addr + 1) bytes
    | none => none

def allocFramePredictive (m : ExecMem) : Option (ℕ × ExecMem) :=
  match m.reserve with
  | frame :: reserve => some (frame, { m with reserve })
  | [] => m.vm.allocFrame.map (fun r => (r.1, { m with vm := r.2 }))

/-- The loop of `map_user_range`; the outer `none` is the panic of `VirtAddr::new`. -/
def mapPages (mapper : PageMapper) (flags : ℕ) : ℕ → ℕ → ExecMem → Option (Bool × ExecMem)
  | 0, _, m => some (true, m)
  | pages + 1, v, m =>
    match m.allocFramePredictive with
    | none => some (false, m)
    | some (phys, m) =>
      let vm := m.vm.withMem (m.vm.pmm.mem.zeroPage phys)
      if !canonical v then none
      else
        let (ok, vm) := vm.mapPage mapper (v >>> 12 &&& 0xFFFFFFFFF) phys flags
        if ok then mapPages mapper flags pages ((v + pageSize) % 2 ^ 64) { m with vm }
        else some (false, { m with vm })

def mapUserRange (m : ExecMem) (mapper : PageMapper) (vaddr size : ℕ) (writable executable : Bool) : Option (Bool × ExecMem) :=
  let flags := ptePresent ||| flagUser ||| (if writable then pteWritable else 0) |||
    (if !executable then pteNx else 0)
  mapPages mapper flags ((size + pageSize - 1) / pageSize) vaddr m

/-- One segment at `vaddr`: its pages are mapped, then the bytes of the file are copied and the rest
is cleared, in the address space of `root`. -/
def loadSegment (m : ExecMem) (mapper : PageMapper) (root vaddr : ℕ) (seg : LoadedSegment) : Option (Bool × ExecMem) :=
  let vaddrAligned := vaddr / pageSize * pageSize
  let totalSize := (vaddr - vaddrAligned + seg.memsz + pageSize - 1) % 2 ^ 64 / pageSize * pageSize
  match m.mapUserRange mapper vaddrAligned totalSize (seg.flags &&& 2 != 0) (seg.flags &&& 1 != 0) with
  | none => none
  | some (false, m) => some (false, m)
  | some (true, m) =>
    let bssLen := (seg.memsz + 2 ^ 64 - seg.data.length) % 2 ^ 64
    match m.writeBytes root vaddr seg.data with
    | none => none
    | some m =>
      (m.writeBytes root ((vaddr + seg.data.length) % 2 ^ 64) (List.replicate bssLen 0)).map
        (fun m => (true, m))

def loadSegments (mapper : PageMapper) (root bias : ℕ) : List LoadedSegment → ExecMem → Option (Bool × ExecMem)
  | [], m => some (true, m)
  | seg :: segs, m =>
    match m.loadSegment mapper root ((bias + seg.vaddr) % 2 ^ 64) seg with
    | some (true, m) => loadSegments mapper root bias segs m
    | r => r

def ldsoLoadBias : ℕ := 0x00007F0000000000

/-- `load_interp`: whether it fails makes no difference to its caller. -/
def loadInterp (m : ExecMem) (mapper : PageMapper) (root : ℕ) (file : Option (List UInt8)) : Option ExecMem :=
  match file with
  | none => some m
  | some data =>
    match Elf.parseDynSo data with
    | none => none
    | some none => some m
    | some (some ldso) => (loadSegments mapper root ldsoLoadBias ldso.segments m).map Prod.snd

/-- The result is whether the image is loaded; `none` is a page fault in the kernel or a panic. -/
def loadImage (m : ExecMem) (mapper : PageMapper) (root : ℕ) (interpFile : String → Option (List UInt8))
    (image : ElfImage) : Option (Bool × ExecMem) :=
  match loadSegments mapper root 0 image.segments m with
  | some (true, m) =>
    match image.interp with
    | some path => (m.loadInterp mapper root (interpFile path)).map (fun m => (true, m))
    | none => some (true, m)
  | r => r

end ExecMem

/-! ## Strings of the caller -/

/-- The bytes up to a null byte, at most `max`; `none` is a page fault. -/
def scanCstr (read : ℕ → Option UInt8) : ℕ → ℕ → Option (List UInt8)
  | 0, _ => some []
  | max + 1, addr =>
    match read addr with
    | none => none
    | some b => if b = 0 then some [] else (scanCstr read max (addr + 1)).map (fun bytes => b :: bytes)

def readCstr (read : ℕ → Option UInt8) (ptr max : ℕ) : Option (Option String) :=
  if ptr = 0 then some none
  else (scanCstr read max ptr).map (fun bytes => String.fromUTF8? bytes.toByteArray)

def readWord (read : ℕ → Option UInt8) (addr : ℕ) : Option ℕ :=
  ((List.range 8).mapM (fun i => read (addr + i))).map ofLe

def collectCstrs (read : ℕ → Option UInt8) (arr : ℕ) : ℕ → ℕ → Option (List (List UInt8))
  | _, 0 => some []
  | i, left + 1 =>
    match readWord read (wordAddr arr i) with
    | none => none
    | some ptr =>
      if ptr = 0 then some []
      else
        match readCstr read ptr 4096, collectCstrs read arr (i + 1) left with
        | some (some s), some strs => some (cString s :: strs)
        | some none, some strs => some strs
        | _, _ => none

def collectArgs (read : ℕ → Option UInt8) (path : String) (argvPtr envpPtr : ℕ) :
    Option (List (List UInt8) × List (List UInt8)) :=
  match (if argvPtr ≠ 0 then collectCstrs read argvPtr 1 256 else some []),
      (if envpPtr ≠ 0 then collectCstrs read envpPtr 0 257 else some []) with
  | some argv, some envp => some (cString path :: argv, if envp = [] then defaultEnv.map cString else envp)
  | _, _ => none

section Total
variable (m : ByteMem)

lemma scanCstr_total (max addr : ℕ) :
    scanCstr (fun a => some (m a)) max addr = some ((m.load addr max).takeWhile (fun b => b != 0)) := by
  induction max generalizing addr with
  | zero => rfl
  | succ max ih =>
    rw [ByteMem.load_succ, scanCstr]
    dsimp only
    rw [ih]
    by_cases hb : m addr = 0
    · rw [if_pos hb, takeWhile_cons_of_neg (by simp [hb])]
    · rw [if_neg hb, takeWhile_cons_of_pos (by simp [hb])]
      rfl

lemma readCstr_total (ptr max : ℕ) : readCstr (fun a => some (m a)) ptr max = some (readUserCstr m ptr max) := by
  have htake : (m.load ptr max).take (((m.load ptr max).findIdx? (fun b => b == 0)).getD max) =
      (m.load ptr max).takeWhile (fun b => b != 0) := by
    have hidx : (m.load ptr max).findIdx (fun b => b == 0) = ((m.load ptr max).findIdx? (fun b => b == 0)).getD max := by
      rw [findIdx_eq_getD_findIdx?, ByteMem.load_length]
    have hzero : (fun b : UInt8 => !(b != 0)) = fun b => b == 0 := by
      funext b
      exact Bool.not_not (b == 0)
    rw [← hidx, takeWhile_eq_take_findIdx_not, hzero]
  unfold readCstr readUserCstr
  by_cases hptr : ptr = 0
  · rw [if_pos hptr, if_pos hptr]
  · rw [if_neg hptr, if_neg hptr, scanCstr_total, map_some]
    dsimp only
    rw [htake]

lemma readWord_total (addr : ℕ) : readWord (fun a => some (m a)) addr = some (m.read64 addr) := by
  unfold readWord
  rw [show (fun i => some (m (addr + i))) = fun i => pure (m (addr + i)) from rfl, mapM_pure]
  rfl

lemma collectCstrs_total (arr i left : ℕ) :
    collectCstrs (fun a => some (m a)) arr i left = some (collectStrs m arr i left) := by
  induction left generalizing i with
  | zero => rfl
  | succ left ih =>
    rw [collectCstrs, collectStrs, readWord_total]
    dsimp only
    by_cases hptr : m.read64 (wordAddr arr i) = 0
    · rw [if_pos hptr, if_pos hptr]
    · rw [if_neg hptr, if_neg hptr, readCstr_total, ih]
      cases readUserCstr m (m.read64 (wordAddr arr i)) 4096 <;> rfl

lemma collectArgs_total (path : String) (argvPtr envpPtr : ℕ) : collectArgs (fun a => some (m a)) path argvPtr envpPtr =
      some (argvStrs m path argvPtr, envpStrs m envpPtr) := by
  unfold collectArgs argvStrs envpStrs
  rw [collectCstrs_total, collectCstrs_total]
  by_cases ha : argvPtr = 0
  · by_cases he : envpPtr = 0 <;> simp [ha, he]
  · by_cases he : envpPtr = 0 <;> simp [ha, he]

end Total

/-! ## The call -/

/-- The call returns an error, with this root in the register; or it enters the new image with this
stack; or the kernel stops in a page fault or a panic. -/
inductive ExecOutcome where
  | error (e : ℤ) (k : Kernel) (cr3 : ℕ)
  | entered (entry : ℕ) (stack : DownStack) (argv envp : List (List UInt8)) (k : Kernel) (cr3 : ℕ)
  | halted

def ExecOutcome.returned : ExecOutcome → Option (ℤ × ℕ)
  | .error e _ cr3 => some (e, cr3)
  | _ => none

namespace Kernel

def readByte (k : Kernel) (root : ℕ) : ℕ → Option UInt8 := ExecMem.readByte ⟨k.vm, []⟩ root

/-- After an error the caller is in the address space in which it was, and reads there what it
read; a new image gets the strings that the pointers denoted when the call was made. -/
def ExecAtomic (k : Kernel) (pid : Pid) (cr3 pathPtr argvPtr envpPtr : ℕ) : ExecOutcome → Prop
  | .error _ k' cr3' => cr3' = cr3 ∧ k'.sched.liveRoot pid = some cr3 ∧
      ∀ addr, addr >>> 12 < userPages → k'.userLoad cr3 addr = k.userLoad cr3 addr
  | .entered _ _ argv envp _ _ => ∃ path, readCstr (k.readByte cr3) pathPtr 4096 = some (some path) ∧
      collectArgs (k.readByte cr3) path argvPtr envpPtr = some (argv, envp)
  | .halted => True

section Atomic
variable {k : Kernel} {M : PageMapper} {S : Finset ℕ} {pid : Pid}
  {cr3 newCr3 pathPtr argvPtr envpPtr tsc : ℕ} {files : ExecFiles} {reserve : List ℕ} {path : String}
  {data : List UInt8} {vm : Vm}

end Atomic

lemma ExecAtomic.returned {k : Kernel} {pid : Pid} {cr3 pathPtr argvPtr envpPtr c : ℕ} {e : ℤ}
    {outcome : ExecOutcome} (h : k.ExecAtomic pid cr3 pathPtr argvPtr envpPtr outcome)
    (hret : outcome.returned = some (e, c)) : c = cr3 := by
  cases outcome with
  | error e' k' c' =>
    obtain ⟨_, rfl⟩ := Prod.mk.inj (Option.some.inj hret)
    exact h.1
  | entered | halted => cases hret

end Kernel
end NodeKernel
