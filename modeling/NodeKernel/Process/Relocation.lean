import NodeKernel.Lib.Checked
import NodeKernel.Lib.Recorded
import NodeKernel.Process.Elf

/-!
# Relocation of modules

`relocate_module` of `kernel/src/elf.rs` with a record of the bytes that it reads and writes. Sums wrap in
the checks in front of the raw reads, and relocation entries are read unchecked, so the memory around the input is a
part of the model.
-/
namespace NodeKernel

inductive RelocError where
  | notRelocatable
  | badSectionTable
  | missingSymbol (name : String)
  | overflow32
  | unsupportedReloc (relType : ℕ)
  | badStrtab
  deriving DecidableEq

inductive RelocStop where
  | err (e : RelocError)
  | panic
  deriving DecidableEq

/-- Bytes that are read from the input, or copied into the image, or written into the image for an entry of a section. -/
inductive ModuleAccess where
  | read (off len : ℕ)
  | copy (off : ℕ) (bytes : List UInt8)
  | patch (sec entry off : ℕ) (bytes : List UInt8)
  deriving DecidableEq

/-- The fields of a section header that are used, and the flags. -/
structure Shdr where
  shType : ℕ
  shFlags : ℕ
  shOffset : ℕ
  shSize : ℕ
  shLink : ℕ
  shInfo : ℕ
  shAddralign : ℕ
  deriving DecidableEq

structure Sym where
  stName : ℕ
  stShndx : ℕ
  stValue : ℕ
  deriving DecidableEq

structure Rela where
  rOffset : ℕ
  rInfo : ℕ
  rAddend : ℕ
  deriving DecidableEq

def Rela.symIdx (rela : Rela) : ℕ := rela.rInfo / 2 ^ 32
def Rela.relType (rela : Rela) : ℕ := rela.rInfo % 2 ^ 32

/-- A module in memory; what lies around it is found by the offset to its start, which wraps. -/
structure ModuleFile where
  data : ByteSlice
  outside : ℕ → UInt8

abbrev Relocated (α : Type) := Recorded RelocStop ModuleAccess α

namespace Relocation

open Recorded

def shdrSize : ℕ := 64
def symSize : ℕ := 24
def relaSize : ℕ := 24

def wsub (a b : ℕ) : ℕ := (a + (2 ^ 64 - b % 2 ^ 64)) % 2 ^ 64

def signed (v : ℕ) : ℤ := if v < 2 ^ 63 then v else (v : ℤ) - 2 ^ 64

def len (m : ModuleFile) : ℕ := m.data.val.length

def byteAt (m : ModuleFile) (off : ℕ) : UInt8 := m.data.val.getD (off % 2 ^ 64) (m.outside (off % 2 ^ 64))

def field (m : ModuleFile) (off n : ℕ) : ℕ := ofLe ((List.range n).map (fun i => byteAt m (off + i)))

def readShdr (m : ModuleFile) (off : ℕ) : Shdr :=
  ⟨field m (off + 4) 4, field m (off + 8) 8, field m (off + 24) 8, field m (off + 32) 8, field m (off + 40) 4,
    field m (off + 44) 4, field m (off + 48) 8⟩

def readSym (m : ModuleFile) (off : ℕ) : Sym := ⟨field m off 4, field m (off + 6) 2, field m (off + 8) 8⟩

def readRela (m : ModuleFile) (off : ℕ) : Rela := ⟨field m off 8, field m (off + 8) 8, field m (off + 16) 8⟩

def eType (m : ModuleFile) : ℕ := field m 16 2
def shOff (m : ModuleFile) : ℕ := field m 40 8
def shCount (m : ModuleFile) : ℕ := field m 60 2

def shdrOff (m : ModuleFile) (idx : ℕ) : ℕ := (shOff m + idx * shdrSize) % 2 ^ 64

def shdrAt (m : ModuleFile) (idx : ℕ) : Relocated Shdr := do
  let off := shdrOff m idx
  if len m < (off + shdrSize) % 2 ^ 64 then stop (.err .badSectionTable)
  else
    record (.read off shdrSize)
    return readShdr m off

/-- The exported functions; where they are is known to the linker of the kernel. -/
def exportNames : List String :=
  ["scheduler_uptime_ms", "scheduler_current_pid", "scheduler_send_signal", "vfs_write_file", "vfs_read_file",
    "entropy_fill", "entropy_stir"]

def resolveKernelSymbol (exportAddr : String → ℕ) (name : String) : Option ℕ :=
  if name ∈ exportNames then some (exportAddr name) else none

/-- Writes `bytes` to the range from `off` to `stop'`, which has to be a range of the image. -/
def copyTo (buf : List UInt8) (off stop' : ℕ) (bytes : List UInt8) (w : ModuleAccess) : Relocated (List UInt8) :=
  if off ≤ stop' ∧ stop' ≤ buf.length then do
    record w
    return buf.take off ++ bytes ++ buf.drop stop'
  else stop .panic

def sliceOf (m : ModuleFile) (start stop' : ℕ) : Relocated (List UInt8) :=
  if start ≤ stop' ∧ stop' ≤ len m then do
    record (.read start (stop' - start))
    return (m.data.val.take stop').drop start
  else stop .panic

structure Layout where
  sectionAddrs : List ℕ
  cursor : ℕ
  buf : List UInt8

def alignUp (cursor align : ℕ) : ℕ := ((cursor + align - 1) % 2 ^ 64) &&& (2 ^ 64 - 1 - (align - 1))

def copySection (m : ModuleFile) (loadAddr : ℕ) (shdr : Shdr) (cursor : ℕ) (buf : List UInt8) : Relocated (List UInt8) :=
  let off := shdr.shOffset
  let sz := shdr.shSize
  if (off + sz) % 2 ^ 64 ≤ len m then
    let bufOff := wsub cursor loadAddr
    if (bufOff + sz) % 2 ^ 64 ≤ buf.length then do
      let bytes ← sliceOf m off ((off + sz) % 2 ^ 64)
      copyTo buf bufOff ((bufOff + sz) % 2 ^ 64) bytes (.copy bufOff bytes)
    else return buf
  else return buf

def layoutTurn (m : ModuleFile) (loadAddr : ℕ) (s : Layout) (i : ℕ) : Relocated Layout := do
  let shdr ← shdrAt m i
  if shdr.shType = 8 ∨ shdr.shType = 0 then return { s with sectionAddrs := s.sectionAddrs ++ [s.cursor] }
  else if 0 < shdr.shSize then
    let align := max shdr.shAddralign 1
    let cursor := alignUp s.cursor align
    let buf ← copySection m loadAddr shdr cursor s.buf
    return ⟨s.sectionAddrs ++ [cursor], (cursor + shdr.shSize) % 2 ^ 64, buf⟩
  else return { s with sectionAddrs := s.sectionAddrs ++ [s.cursor] }

def symtabLoop (m : ModuleFile) : List ℕ → Relocated Shdr
  | [] => stop (.err .badSectionTable)
  | i :: l => do
      let sh ← shdrAt m i
      if sh.shType = 2 then return sh else symtabLoop m l

def findSymtab (m : ModuleFile) : Relocated (Shdr × Shdr) := do
  let symtab ← symtabLoop m (List.range (shCount m))
  let strtab ← (shdrAt m symtab.shLink).mapStop (fun _ => .err .badStrtab)
  return (symtab, strtab)

def symbolLoop (m : ModuleFile) (off : ℕ) : ℕ → ℕ → Relocated (List Sym)
  | 0, _ => return []
  | n + 1, i => do
      let p := (off + i * symSize) % 2 ^ 64
      if len m < (p + symSize) % 2 ^ 64 then return []
      else
        record (.read p symSize)
        let rest ← symbolLoop m off n (i + 1)
        return readSym m p :: rest

/-- The space for the symbols is reserved first, which panics if it has more bytes than a signed word can count. -/
def readSymbols (m : ModuleFile) (symtab : Shdr) : Relocated (List Sym) :=
  let count := symtab.shSize / symSize
  if 2 ^ 63 ≤ count * symSize then stop .panic else symbolLoop m symtab.shOffset count 0

def readStr (strtab : List UInt8) (off : ℕ) : String :=
  if strtab.length ≤ off then ""
  else (String.fromUTF8? ((strtab.drop off).takeWhile (fun b => b != 0)).toByteArray).getD ""

def findStrtab (m : ModuleFile) (strtab : Shdr) : Relocated (List UInt8) :=
  let strtabEnd := (strtab.shOffset + strtab.shSize) % 2 ^ 64
  if strtabEnd ≤ len m then sliceOf m strtab.shOffset strtabEnd else return []

def findSymbol (strtab : List UInt8) (syms : List Sym) (name : String) (sectionAddrs : List ℕ) : Option ℕ :=
  (syms.find? (fun s => readStr strtab s.stName == name && decide (s.stShndx < sectionAddrs.length))).map
    (fun s => (sectionAddrs.getD s.stShndx 0 + s.stValue) % 2 ^ 64)

/-- A patch that does not fit in the image is left out. -/
def patchAt (sec entry : ℕ) (buf : List UInt8) (off : ℕ) (bytes : List UInt8) : Relocated (List UInt8) :=
  let stop' := (off + bytes.length) % 2 ^ 64
  if buf.length < stop' then return buf else copyTo buf off stop' bytes (.patch sec entry off bytes)

/-- `apply_reloc` for entry `entry` of section `sec`. -/
def applyReloc (sec entry : ℕ) (buf : List UInt8) (off relType sym pc addend : ℕ) : Relocated (List UInt8) :=
  match relType with
  | 0 => return buf
  | 1 => patchAt sec entry buf off (toLe 8 ((sym + addend) % 2 ^ 64))
  | 2 | 4 =>
    let val := wsub (sym + addend) pc
    if 2 ^ 31 - 1 < signed val ∨ signed val < - 2 ^ 31 then stop (.err .overflow32)
    else patchAt sec entry buf off (toLe 4 val)
  | 10 =>
    let val := (sym + addend) % 2 ^ 64
    if 2 ^ 32 - 1 < val then stop (.err .overflow32) else patchAt sec entry buf off (toLe 4 val)
  | 11 =>
    let val := (sym + addend) % 2 ^ 64
    if 2 ^ 31 - 1 < signed val ∨ signed val < - 2 ^ 31 then stop (.err .overflow32)
    else patchAt sec entry buf off (toLe 4 val)
  | other => stop (.err (.unsupportedReloc other))

structure Linking where
  m : ModuleFile
  exportAddr : String → ℕ
  loadAddr : ℕ
  sectionAddrs : List ℕ
  syms : List Sym
  strtab : List UInt8

/-- The value of a symbol; without one the entry is passed over. -/
def symVal (c : Linking) (sym : Sym) : Relocated (Option ℕ) :=
  if sym.stShndx = 0 then
    let symName := readStr c.strtab sym.stName
    match resolveKernelSymbol c.exportAddr symName with
    | some addr => return some addr
    | none => stop (.err (.missingSymbol symName))
  else if sym.stShndx < shCount c.m then
    return some ((c.sectionAddrs.getD sym.stShndx 0 + sym.stValue) % 2 ^ 64)
  else return none

def relaOff (shdr : Shdr) (r : ℕ) : ℕ := (shdr.shOffset + r * relaSize) % 2 ^ 64

def relaTurn (c : Linking) (sec : ℕ) (shdr : Shdr) (buf : List UInt8) (r : ℕ) : Relocated (List UInt8) := do
  record (.read (relaOff shdr r) relaSize)
  let rela := readRela c.m (relaOff shdr r)
  match c.syms[rela.symIdx]? with
  | none => return buf
  | some sym =>
    match ← symVal c sym with
    | none => return buf
    | some val =>
      let patchVa := (c.sectionAddrs.getD shdr.shInfo 0 + rela.rOffset) % 2 ^ 64
      applyReloc sec r buf (wsub patchVa c.loadAddr) rela.relType val patchVa rela.rAddend

def relaSection (c : Linking) (buf : List UInt8) (sec : ℕ) : Relocated (List UInt8) := do
  let shdr ← shdrAt c.m sec
  if shdr.shType ≠ 4 then return buf
  else if shCount c.m ≤ shdr.shInfo then return buf
  else (List.range (shdr.shSize / relaSize)).foldlM (relaTurn c sec shdr) buf

def relocateModule (m : ModuleFile) (exportAddr : String → ℕ) (buf : ByteSlice) (loadAddr : ℕ) :
    Relocated (ℕ × List UInt8) := do
  if len m < Elf.ehdrSize then stop (.err .notRelocatable)
  else
    record (.read 0 Elf.ehdrSize)
    if m.data.val.take 4 ≠ Elf.elfMag ∨ eType m ≠ 1 then stop (.err .notRelocatable)
    else if len m < (shOff m + shCount m * shdrSize) % 2 ^ 64 then stop (.err .badSectionTable)
    else
      let layout ← (List.range (shCount m)).foldlM (layoutTurn m loadAddr) ⟨[], loadAddr, buf.val⟩
      let (symtab, strtab) ← findSymtab m
      let syms ← readSymbols m symtab
      let strtab ← findStrtab m strtab
      let c : Linking := ⟨m, exportAddr, loadAddr, layout.sectionAddrs, syms, strtab⟩
      let image ← (List.range (shCount m)).foldlM (relaSection c) layout.buf
      return ((findSymbol strtab syms "module_init" layout.sectionAddrs).getD loadAddr, image)

end Relocation

/-! ## The arithmetic of relocations -/

namespace Relocation

open Recorded Nat

structure Field where
  width : ℕ
  isSigned : Bool
  /-- The value is relative to the place. -/
  relative : Bool

def fieldOf : ℕ → Option Field
  | 1 => some ⟨8, false, false⟩
  | 2 | 4 => some ⟨4, true, true⟩
  | 10 => some ⟨4, false, false⟩
  | 11 => some ⟨4, true, false⟩
  | _ => none

namespace Field

variable (f : Field)

def read (width v : ℕ) : ℤ := if f.isSigned ∧ 256 ^ width ≤ 2 * v then v - 256 ^ width else v

def value (sym : ℕ) (addend : ℤ) (pc : ℕ) : ℤ := f.read 8 ((sym + addend - if f.relative then pc else 0) % 2 ^ 64).toNat

def Represents (z : ℤ) : Prop := ∃ v < 256 ^ f.width, f.read f.width v = z

end Field

/-- The error, and the buffer that `apply_reloc` leaves behind: it writes nothing before it returns an error. -/
def afterReloc (buf : List UInt8) (x : Relocated (List UInt8)) : Option RelocStop × List UInt8 :=
  match x with
  | .ok (patched, _) => (none, patched)
  | .error e => (some e, buf)

/-- Either the field holds the value afterwards and all other bytes are as before, or the value is not a number of the field. -/
def Exact (f : Field) (z : ℤ) (buf : List UInt8) (off : ℕ) (x : Relocated (List UInt8)) : Prop :=
  (f.Represents z ∧ ∃ bytes, bytes.length = f.width ∧ f.read f.width (ofLe bytes) = z ∧
      afterReloc buf x = (none, buf.take off ++ bytes ++ buf.drop (off + f.width))) ∨
    ¬ f.Represents z ∧ afterReloc buf x = (some (.err .overflow32), buf)

variable {f : Field} {buf : List UInt8} {off v sec entry : ℕ} {z : ℤ}

/-- The low bytes of a number are written if they read as the value. -/
lemma exact_patchAt (hbuf : buf.length < 2 ^ 63) (h : off + f.width ≤ buf.length)
    (hread : f.read f.width (v % 256 ^ f.width) = z) : Exact f z buf off (patchAt sec entry buf off (toLe f.width v)) := by
  have hlen := toLe_length f.width v
  refine .inl ⟨⟨_, mod_lt _ (Nat.pow_pos (by decide)), hread⟩, _, hlen, by rw [ofLe_toLe, hread], ?_⟩
  unfold patchAt copyTo
  rw [hlen, mod_eq_of_lt (by omega), if_neg (by omega), if_pos (by omega)]
  rfl

lemma exact_of_test {bad : Prop} [Decidable bad] (hbuf : buf.length < 2 ^ 63) (h : off + f.width ≤ buf.length)
    (hread : ¬ bad → f.read f.width (v % 256 ^ f.width) = z) (hbad : bad → ¬ f.Represents z) :
    Exact f z buf off (if bad then stop (.err .overflow32) else patchAt sec entry buf off (toLe f.width v)) := by
  by_cases hb : bad
  · rw [if_pos hb]
    exact .inr ⟨hbad hb, rfl⟩
  · rw [if_neg hb]
    exact exact_patchAt hbuf h (hread hb)

lemma exact_signed {relative : Bool} (hv : v < 2 ^ 64) (hbuf : buf.length < 2 ^ 63) (h : off + 4 ≤ buf.length) :
    Exact ⟨4, true, relative⟩ (Field.read ⟨4, true, relative⟩ 8 v) buf off (if 2 ^ 31 - 1 < signed v ∨ signed v < - 2 ^ 31
      then stop (.err .overflow32) else patchAt sec entry buf off (toLe 4 v)) := by
  have hread : Field.read ⟨4, true, relative⟩ 8 v = signed v := by
    simp only [Field.read, signed, true_and]
    split <;> split <;> omega
  rw [hread]
  refine exact_of_test hbuf h (fun hb => ?_) ?_
  · simp only [Field.read, signed, true_and] at hb ⊢
    split at hb <;> split <;> omega
  · rintro hb ⟨w, hw, hz⟩
    simp only [Field.read, true_and] at hz hw
    split at hz <;> omega

/-- Every type of relocation writes its value to its field, or reports that the field cannot hold it. -/
theorem applyReloc_exact (sec entry : ℕ) (buf : ByteSlice) {off relType : ℕ} (sym pc addend : ℕ) {f : Field}
    (hf : fieldOf relType = some f) (hoff : off + f.width ≤ buf.val.length) :
    Exact f (f.value sym (signed addend) pc) buf.val off (applyReloc sec entry buf.val off relType sym pc addend) := by
  have hvalue : f.value sym (signed addend) pc = f.read 8 (wsub (sym + addend) (if f.relative then pc else 0)) := by
    refine congrArg (f.read 8) ?_
    unfold signed wsub
    split <;> omega
  have hplain : wsub (sym + addend) 0 = (sym + addend) % 2 ^ 64 := by
    unfold wsub
    omega
  have hlt := mod_lt (sym + addend) (show 0 < 2 ^ 64 by decide)
  rw [hvalue]
  unfold fieldOf at hf
  split at hf
  · cases hf
    rw [if_neg Bool.false_ne_true, hplain]
    exact exact_patchAt buf.2 hoff (congrArg _ (mod_eq_of_lt hlt))
  · cases hf
    exact exact_signed (mod_lt _ (by decide)) buf.2 hoff
  · cases hf
    exact exact_signed (mod_lt _ (by decide)) buf.2 hoff
  · cases hf
    rw [if_neg Bool.false_ne_true, hplain]
    refine exact_of_test buf.2 hoff (fun hb => ?_) ?_
    · simp only [Field.read, Bool.false_eq_true, false_and, if_false]
      omega
    · rintro hb ⟨w, hw, hz⟩
      simp only [Field.read, Bool.false_eq_true, false_and, if_false] at hz hw
      omega
  · cases hf
    rw [if_neg Bool.false_ne_true, hplain]
    exact exact_signed hlt buf.2 hoff
  · cases hf

theorem applyReloc_exact_pc32 :
    Exact ⟨4, true, true⟩ (-8) (List.replicate 8 0) 2 (applyReloc 1 0 (List.replicate 8 0) 2 2 0x1000 0x1004 (2 ^ 64 - 4)) := by
  have hf : fieldOf 2 = some ⟨4, true, true⟩ := rfl
  have hvalue : Field.value ⟨4, true, true⟩ 0x1000 (signed (2 ^ 64 - 4)) 0x1004 = -8 := by decide
  have h := applyReloc_exact 1 0 ⟨List.replicate 8 0, by decide⟩ 0x1000 0x1004 (2 ^ 64 - 4) hf (show 2 + 4 ≤ 8 by decide)
  rwa [hvalue] at h

end Relocation

end NodeKernel
