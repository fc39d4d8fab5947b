import NodeKernel.Files.EventFd

/-!
# ELF files

`parse` and `parse_dyn_so` of `kernel/src/elf.rs`: the loadable segments, the entry point and the
interpreter of a 64-bit file.
-/
namespace NodeKernel

inductive ElfError where
  | notElf
  | badArch
  | notExecutable
  | badPhdrs
  | segmentOutOfBounds
  | truncated
  deriving DecidableEq, Repr

structure LoadedSegment where
  vaddr : ℕ
  memsz : ℕ
  data : List UInt8
  flags : ℕ
  deriving DecidableEq

structure ElfImage where
  entry : ℕ
  segments : List LoadedSegment
  interp : Option String
  deriving DecidableEq

namespace Elf

def elfMag : List UInt8 := [0x7f, 0x45, 0x4c, 0x46]

def ehdrSize : ℕ := 64
def phdrSize : ℕ := 56

def field (data : List UInt8) (off n : ℕ) : ℕ := ofLe ((data.drop off).take n)

structure Phdr where
  pType : ℕ
  pFlags : ℕ
  pOffset : ℕ
  pVaddr : ℕ
  pFilesz : ℕ
  pMemsz : ℕ

def phdrAt (data : List UInt8) (off : ℕ) : Phdr :=
  ⟨field data off 4, field data (off + 4) 4, field data (off + 8) 8, field data (off + 16) 8,
    field data (off + 32) 8, field data (off + 40) 8⟩

def slice (data : List UInt8) (start stop : ℕ) : List UInt8 := (data.take stop).drop start

def parsePhdr (data : List UInt8) (image : ElfImage) (phdr : Phdr) : Except ElfError ElfImage :=
  match phdr.pType with
  | 3 =>
    let stop := min (phdr.pOffset + phdr.pFilesz) u64Max
    if stop ≤ data.length then
      let path := (slice data phdr.pOffset stop).takeWhile (fun b => b != 0)
      match String.fromUTF8? path.toByteArray with
      | some s => .ok { image with interp := some s }
      | none => .ok image
    else .ok image
  | 1 =>
    match checkedAdd phdr.pOffset phdr.pFilesz with
    | none => .error .segmentOutOfBounds
    | some stop =>
      if data.length < stop then .error .segmentOutOfBounds
      else if phdr.pMemsz < phdr.pFilesz then .error .segmentOutOfBounds
      else .ok { image with segments := image.segments ++
        [⟨phdr.pVaddr, phdr.pMemsz, slice data phdr.pOffset stop, phdr.pFlags⟩] }
  | _ => .ok image

def parse (data : List UInt8) : Except ElfError ElfImage :=
  if data.length < ehdrSize then .error .truncated
  else if data.take 4 ≠ elfMag then .error .notElf
  else if field data 4 1 ≠ 2 then .error .notElf
  else if field data 5 1 ≠ 1 then .error .badArch
  else if field data 6 1 ≠ 1 then .error .notElf
  else if field data 18 2 ≠ 62 then .error .badArch
  else if field data 16 2 ≠ 2 ∧ field data 16 2 ≠ 3 then .error .notExecutable
  else if field data 54 2 ≠ phdrSize then .error .badPhdrs
  else
    match checkedAdd (field data 32 8) (field data 56 2 * phdrSize) with
    | none => .error .badPhdrs
    | some stop =>
      if data.length < stop then .error .badPhdrs
      else (List.range (field data 56 2)).foldlM
        (fun image i => parsePhdr data image (phdrAt data (field data 32 8 + i * phdrSize)))
        ⟨field data 24 8, [], none⟩

/-- One turn of the loop of `parse_dyn_so`; the outer `none` is a panic. -/
def parseDynPhdr (data : List UInt8) (image : ElfImage) (phdr : Phdr) : Option (Option ElfImage) :=
  if phdr.pType ≠ 1 then some (some image)
  else
    let stop := (phdr.pOffset + phdr.pFilesz) % 2 ^ 64
    if data.length < stop then some none
    else if stop < phdr.pOffset then none
    else some (some { image with segments := image.segments ++
      [⟨phdr.pVaddr, phdr.pMemsz, slice data phdr.pOffset stop, phdr.pFlags⟩] })

/-- The outer `none` is a panic, or a read outside of the file. -/
def parseDynSo (data : List UInt8) : Option (Option ElfImage) :=
  if data.length < ehdrSize ∨ data.take 4 ≠ elfMag ∨ field data 4 1 ≠ 2 ∨ field data 18 2 ≠ 62 then some none
  else
    let stop := (field data 32 8 + field data 56 2 * phdrSize) % 2 ^ 64
    if data.length < stop then some none
    -- the sum has wrapped, so that the headers lie behind the end of the file
    else if stop < field data 32 8 then none
    else (List.range (field data 56 2)).foldlM
      (fun image i => match image with
        | some image => parseDynPhdr data image (phdrAt data (field data 32 8 + i * phdrSize))
        | none => some none)
      (some ⟨field data 24 8, [], none⟩)

/-- The bytes of every segment are bytes of the file and fit in the memory that it asks for. -/
def Fits (data : List UInt8) (image : ElfImage) : Prop := ∀ seg ∈ image.segments,
  seg.data.length ≤ seg.memsz ∧ ∃ start stop, stop ≤ data.length ∧ seg.data = slice data start stop

lemma slice_length {data : List UInt8} {start stop : ℕ} (h : stop ≤ data.length) : (slice data start stop).length = stop - start := by
  unfold slice
  rw [List.length_drop, List.length_take, Nat.min_eq_left h]

end Elf
end NodeKernel
