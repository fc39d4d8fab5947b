import NodeKernel.Process.ElfParsers
import NodeKernel.Process.Execve

/-!
# Where images are loaded

`load_image` as the list of its steps, as long as none of them fails. Neither parser looks at `p_vaddr`, and the
loader maps and writes where the file says.
-/
namespace NodeKernel

open List Nat

/-- A sum or difference of 64-bit numbers with its exact value, a page that is mapped, a byte that is written, or an
address that `VirtAddr::new` refuses when a frame has been taken for it. -/
inductive LoadStep where
  | computes (exact : ℤ)
  | maps (addr flags : ℕ)
  | writes (addr : ℕ) (b : UInt8)
  | refuses
  deriving DecidableEq

namespace LoadStep

def roundUp (x : ℕ) (rest : List LoadStep) : List LoadStep :=
  .computes (x + pageSize : ℕ) :: .computes (((x + pageSize) % 2 ^ 64 : ℕ) - 1 : ℤ) :: rest

/-- The loop of `map_user_range`, from the address `x` on. -/
def mapRange (flags : ℕ) : ℕ → ℕ → List LoadStep → List LoadStep
  | 0, _, rest => rest
  | pages + 1, x, rest => .computes (x : ℕ) ::
      if canonical (x % 2 ^ 64) then .maps (x % 2 ^ 64) flags :: mapRange flags pages (x + pageSize) rest else [.refuses]

def writeRange : ℕ → List UInt8 → List LoadStep → List LoadStep
  | _, [], rest => rest
  | addr, b :: bytes, rest => .writes addr b :: writeRange (addr + 1) bytes rest

def ofSegment (bias : ℕ) (seg : LoadedSegment) (rest : List LoadStep) : List LoadStep :=
  let vaddr := (bias + seg.vaddr) % 2 ^ 64
  let pageOffset := vaddr - vaddr / pageSize * pageSize
  let totalSize := (pageOffset + seg.memsz + pageSize - 1) % 2 ^ 64 / pageSize * pageSize
  let flags := ptePresent ||| flagUser ||| (if seg.flags &&& 2 != 0 then pteWritable else 0) |||
    (if !(seg.flags &&& 1 != 0) then pteNx else 0)
  let bssLen := (seg.memsz + 2 ^ 64 - seg.data.length) % 2 ^ 64
  .computes (bias + seg.vaddr : ℕ) :: .computes (pageOffset + seg.memsz : ℕ) ::
    roundUp ((pageOffset + seg.memsz) % 2 ^ 64) (roundUp totalSize
      (mapRange flags ((totalSize + pageSize - 1) / pageSize) (vaddr / pageSize * pageSize)
        (writeRange vaddr seg.data (.computes (vaddr + seg.data.length : ℕ) ::
          .computes ((seg.memsz : ℤ) - seg.data.length) ::
            writeRange ((vaddr + seg.data.length) % 2 ^ 64) (List.replicate bssLen 0) rest))))

def ofSegments (bias : ℕ) : List LoadedSegment → List LoadStep → List LoadStep
  | [], rest => rest
  | seg :: segs, rest => ofSegment bias seg (ofSegments bias segs rest)

end LoadStep

namespace ExecMem
open LoadStep

def perform (mapper : PageMapper) (root : ℕ) : List LoadStep → ExecMem → Option (Bool × ExecMem)
  | [], m => some (true, m)
  | .computes _ :: steps, m => perform mapper root steps m
  | .maps addr flags :: steps, m =>
    match m.allocFramePredictive with
    | none => some (false, m)
    | some (phys, m) =>
      let vm := m.vm.withMem (m.vm.pmm.mem.zeroPage phys)
      let (ok, vm) := vm.mapPage mapper (addr >>> 12 &&& 0xFFFFFFFFF) phys flags
      if ok then perform mapper root steps { m with vm } else some (false, { m with vm })
  | .writes addr b :: steps, m =>
    match m.writeByte root addr b with
    | none => none
    | some m => perform mapper root steps m
  | .refuses :: _, m =>
    match m.allocFramePredictive with
    | none => some (false, m)
    | some _ => none

variable (mapper : PageMapper) (root : ℕ)

def andThen (next : ExecMem → Option (Bool × ExecMem)) : Option (Bool × ExecMem) → Option (Bool × ExecMem)
  | some (true, m) => next m
  | r => r

lemma perform_mapRange (flags pages x : ℕ) (rest : List LoadStep) (m : ExecMem) :
    perform mapper root (mapRange flags pages x rest) m =
      andThen (perform mapper root rest) (mapPages mapper flags pages (x % 2 ^ 64) m) := by
  induction pages generalizing x m with
  | zero => rfl
  | succ pages ih =>
    rw [mapRange, mapPages, perform]
    have hnext : (x + pageSize) % 2 ^ 64 = (x % 2 ^ 64 + pageSize) % 2 ^ 64 := (mod_add_mod x _ pageSize).symm
    cases hc : canonical (x % 2 ^ 64) with
    | false =>
      rw [if_neg Bool.false_ne_true, perform]
      cases m.allocFramePredictive with
      | none => rfl
      | some r => rfl
    | true =>
      rw [if_pos rfl, perform]
      cases m.allocFramePredictive with
      | none => rfl
      | some r =>
        obtain ⟨phys, m⟩ := r
        dsimp only
        rw [← hnext]
        split
        · exact ih (x + pageSize) _
        · rfl

lemma perform_writeRange (addr : ℕ) (bytes : List UInt8) (rest : List LoadStep) (m : ExecMem) :
    perform mapper root (writeRange addr bytes rest) m = (m.writeBytes root addr bytes).bind (perform mapper root rest) := by
  induction bytes generalizing addr m with
  | nil => rfl
  | cons b bytes ih =>
    rw [writeRange, perform, writeBytes]
    cases m.writeByte root addr b with
    | none => rfl
    | some m => exact ih (addr + 1) m

lemma perform_fill {flags pages al vaddr bss bssLen : ℕ} {x y : ℤ} {data : List UInt8} (rest : List LoadStep)
    (m : ExecMem) (hal : al % 2 ^ 64 = al) :
    perform mapper root (mapRange flags pages al (writeRange vaddr data (.computes x :: .computes y ::
      writeRange bss (List.replicate bssLen 0) rest))) m =
    andThen (perform mapper root rest) (match mapPages mapper flags pages al m with
      | none => none
      | some (false, m) => some (false, m)
      | some (true, m) =>
        match m.writeBytes root vaddr data with
        | none => none
        | some m => (m.writeBytes root bss (replicate bssLen 0)).map (fun m => (true, m))) := by
  rw [perform_mapRange, hal]
  rcases mapPages mapper flags pages al m with _ | ⟨_ | _, m⟩
  · rfl
  · rfl
  · simp only [andThen, perform_writeRange]
    cases m.writeBytes root vaddr data with
    | none => rfl
    | some m =>
      simp only [Option.bind_some, perform, perform_writeRange]
      cases m.writeBytes root bss (replicate bssLen 0) with
      | none => rfl
      | some m => rfl

lemma perform_ofSegment (bias : ℕ) (seg : LoadedSegment) (rest : List LoadStep) (m : ExecMem) :
    perform mapper root (ofSegment bias seg rest) m =
      andThen (perform mapper root rest) (m.loadSegment mapper root ((bias + seg.vaddr) % 2 ^ 64) seg) := by
  generalize hb : (seg.memsz + 2 ^ 64 - seg.data.length) % 2 ^ 64 = bssLen
  refine perform_fill mapper root rest m (mod_eq_of_lt ?_)
  exact (div_mul_le_self _ _).trans_lt (mod_lt _ (by decide))

lemma perform_ofSegments (bias : ℕ) (segs : List LoadedSegment) (rest : List LoadStep) (m : ExecMem) :
    perform mapper root (ofSegments bias segs rest) m =
      andThen (perform mapper root rest) (loadSegments mapper root bias segs m) := by
  induction segs generalizing m with
  | nil => rfl
  | cons seg segs ih =>
    rw [loadSegments, ofSegments, perform_ofSegment]
    rcases m.loadSegment mapper root ((bias + seg.vaddr) % 2 ^ 64) seg with _ | ⟨_ | _, m⟩
    · rfl
    · rfl
    · exact ih m

end ExecMem

namespace LoadedSegment
variable (bias : ℕ) (seg : LoadedSegment)

def low : ℕ := (bias + seg.vaddr) / pageSize * pageSize

def pages : ℕ := ((bias + seg.vaddr) % pageSize + seg.memsz + pageSize - 1) / pageSize

def Covers (addr : ℕ) : Prop :=
  (bias + seg.vaddr) / pageSize * pageSize ≤ addr ∧ addr < (bias + seg.vaddr + seg.memsz + pageSize - 1) / pageSize * pageSize

lemma high_eq : seg.low bias + seg.pages bias * pageSize =
    (bias + seg.vaddr + seg.memsz + pageSize - 1) / pageSize * pageSize := by
  have hsplit : bias + seg.vaddr + seg.memsz + pageSize - 1 =
      ((bias + seg.vaddr) % pageSize + seg.memsz + pageSize - 1) + (bias + seg.vaddr) / pageSize * pageSize := by
    have hdiv := mod_add_div' (bias + seg.vaddr) pageSize
    simp only [pageSize] at hdiv ⊢
    omega
  rw [hsplit, add_mul_div_right _ _ (by decide), add_mul, add_comm]
  rfl

lemma end_le_high : bias + seg.vaddr + seg.memsz ≤ seg.low bias + seg.pages bias * pageSize := by
  rw [high_eq]
  simp only [pageSize]
  omega

lemma memsz_le_pages : (bias + seg.vaddr) % pageSize + seg.memsz ≤ seg.pages bias * pageSize := by
  unfold pages
  simp only [pageSize]
  omega

lemma totalSize_eq (hsize : seg.pages bias * pageSize + pageSize < 2 ^ 64) :
    ((bias + seg.vaddr) % pageSize + seg.memsz + pageSize - 1) % 2 ^ 64 / pageSize * pageSize = seg.pages bias * pageSize := by
  have hsmall := seg.memsz_le_pages bias
  rw [mod_eq_of_lt (by omega)]
  rfl

lemma pageCount_eq : (seg.pages bias * pageSize + pageSize - 1) / pageSize = seg.pages bias := by
  have hpos : 0 < pageSize := by decide
  rw [Nat.add_sub_assoc hpos, Nat.mul_comm, mul_add_div hpos]
  rfl

lemma pageOffset_eq : bias + seg.vaddr - (bias + seg.vaddr) / pageSize * pageSize = (bias + seg.vaddr) % pageSize := by
  rw [mul_comm, mod_eq_sub_mul_div]

end LoadedSegment

namespace LoadStep

variable {bias : ℕ} {R : ℕ → Prop} {seg : LoadedSegment} {rest : List LoadStep}

end LoadStep

namespace ElfImage
open LoadedSegment LoadStep

def interpSegments (interpFile : String → Option (List UInt8)) (image : ElfImage) : List LoadedSegment :=
  match image.interp.bind interpFile with
  | none => []
  | some file =>
    match Elf.parseDynSo file with
    | some (some ldso) => ldso.segments
    | _ => []

def loadSteps (interpFile : String → Option (List UInt8)) (image : ElfImage) : List LoadStep :=
  ofSegments 0 image.segments (ofSegments ExecMem.ldsoLoadBias (image.interpSegments interpFile) [])

variable {data : List UInt8} {image : ElfImage}

/-- The memory after `load_image` is what the steps make of it, one after another. -/
theorem loadImage_memory (mapper : PageMapper) (root : ℕ) (interpFile : String → Option (List UInt8)) (m : ExecMem)
    (hinterp : ∀ file, image.interp.bind interpFile = some file → Elf.parseDynSo file ≠ none) :
    (m.loadImage mapper root interpFile image).map Prod.snd =
      (ExecMem.perform mapper root (image.loadSteps interpFile) m).map Prod.snd := by
  unfold ExecMem.loadImage loadSteps
  rw [ExecMem.perform_ofSegments]
  rcases ExecMem.loadSegments mapper root 0 image.segments m with _ | ⟨_ | _, m⟩
  · rfl
  · rfl
  · change _ = (ExecMem.perform mapper root (ofSegments _ _ []) m).map Prod.snd
    rw [ExecMem.perform_ofSegments]
    unfold interpSegments ExecMem.loadInterp
    cases hi : image.interp with
    | none => rfl
    | some path =>
      rw [hi] at hinterp
      simp only [Option.bind_some] at hinterp ⊢
      cases hf : interpFile path with
      | none => rfl
      | some file =>
        dsimp only
        rcases hd : Elf.parseDynSo file with _ | _ | ldso
        · exact absurd hd (hinterp file hf)
        · rfl
        · dsimp only
          rcases ExecMem.loadSegments mapper root ExecMem.ldsoLoadBias ldso.segments m with _ | ⟨_ | _, m⟩
          · rfl
          · rfl
          · rfl

theorem loadImage_memory_static : let mapper : PageMapper := ⟨fun s _ _ _ _ => (true, s), fun s _ _ => (none, s)⟩
    let m : ExecMem := ⟨⟨Pmm.new (fun _ _ => 0), fun _ => none, 0⟩, [4096]⟩
    (m.loadImage mapper 0 (fun _ => none) ⟨0, [⟨4096, 8, [1], 6⟩], none⟩).map Prod.snd =
      (ExecMem.perform mapper 0 (loadSteps (fun _ => none) ⟨0, [⟨4096, 8, [1], 6⟩], none⟩) m).map Prod.snd :=
  loadImage_memory _ _ _ _ nofun

end ElfImage
end NodeKernel
