import Mathlib.Data.Nat.Bitwise

/-!
# Physical memory manager: the buddy allocator

`kernel/src/memory/pmm.rs`. Free blocks of `2 ^ order` pages are chained through a
`FreeNode` written at the start of each free block. Physical memory is addressed by
page address and word index; the window at `phys_offset` is the identity here.
Physical addresses have at most 52 bits, so no `u64` sum below wraps.
-/
namespace NodeKernel

open Function

/-- Physical memory: the address of a page and the index of a `u64` word in it. -/
abbrev PhysMem := ℕ → ℕ → ℕ

def PhysMem.write (m : PhysMem) (page i w : ℕ) : PhysMem :=
  fun a j => if a = page ∧ j = i then w else m a j

def pageSize : ℕ := 4096
def pageShift : ℕ := 12
def maxOrder : ℕ := 11

def not64 (m : ℕ) : ℕ := 2 ^ 64 - 1 - m

/-- The allocator, with the memory that holds its free nodes. -/
structure Pmm where
  freeLists : ℕ → ℕ
  freePages : ℕ
  totalPages : ℕ
  mem : PhysMem

namespace Pmm

def new (mem : PhysMem) : Pmm :=
  { freeLists := fun _ => 0, freePages := 0, totalPages := 0, mem }

def next (s : Pmm) (addr : ℕ) : ℕ := s.mem addr 0

def pushFree (s : Pmm) (addr order : ℕ) : Pmm :=
  { s with
    mem := s.mem.write addr 0 (s.freeLists order)
    freeLists := update s.freeLists order addr }

inductive Link where
  | head (order : ℕ)
  | node (addr : ℕ)

def writeLink (s : Pmm) (v : ℕ) : Link → Pmm
  | .head order => { s with freeLists := update s.freeLists order v }
  | .node addr => { s with mem := s.mem.write addr 0 v }

/-- `none` is a walk that has not ended within the fuel. -/
def removeLoop (target : ℕ) : ℕ → Pmm → Link → ℕ → Option (Bool × Pmm)
  | 0, _, _, _ => none
  | fuel + 1, s, prevNext, cur =>
    if cur = 0 then some (false, s)
    else if cur = target then some (true, s.writeLink (s.next cur) prevNext)
    else removeLoop target fuel s (.node cur) (s.next cur)

/-- No free list holds more than `totalPages` blocks. -/
def removeFree (s : Pmm) (target order : ℕ) : Option (Bool × Pmm) :=
  removeLoop target (s.totalPages + 1) s (.head order) (s.freeLists order)

/-- The largest order at most `order` whose block is aligned at `addr` and ends by `stop`. -/
def fitOrder (addr stop : ℕ) : ℕ → ℕ
  | 0 => 0
  | order + 1 =>
    let blockSize := pageSize <<< (order + 1)
    if blockSize ≤ stop - addr ∧ addr &&& (blockSize - 1) = 0 then order + 1
    else fitOrder addr stop order

def addLoop (stop : ℕ) : ℕ → Pmm → ℕ → Pmm
  | 0, s, _ => s
  | fuel + 1, s, addr =>
    if addr + pageSize ≤ stop then
      let order := fitOrder addr stop (maxOrder - 1)
      let s := s.pushFree addr order
      addLoop stop fuel { s with totalPages := s.totalPages + 1 <<< order }
        (addr + pageSize <<< order)
    else s

def alignUp (x : ℕ) : ℕ := (x + pageSize - 1) &&& not64 (pageSize - 1)
def alignDown (x : ℕ) : ℕ := x &&& not64 (pageSize - 1)

/-- Every turn of the loop passes at least one page. -/
def addRegion (s : Pmm) (start stop : ℕ) : Pmm :=
  let addr := alignUp start
  let stop := alignDown stop
  let s := addLoop stop ((stop - addr) / pageSize) s addr
  { s with freePages := s.totalPages }

def findOrder (s : Pmm) (order : ℕ) : Option ℕ :=
  (List.range' order (maxOrder - order)).find? (fun o => s.freeLists o ≠ 0)

def splitLoop (addr order : ℕ) : ℕ → Pmm → Pmm
  | 0, s => s
  | current + 1, s =>
    if order < current + 1 then
      splitLoop addr order current (s.pushFree (addr + pageSize <<< current) current)
    else s

def allocOrder (s : Pmm) (order : ℕ) : Option (ℕ × Pmm) :=
  if maxOrder ≤ order then none
  else match s.findOrder order with
    | none => none
    | some found =>
      let addr := s.freeLists found
      let s := { s with freeLists := update s.freeLists found (s.next addr) }
      let s := splitLoop addr order found s
      some (addr, { s with freePages := s.freePages - 1 <<< order })

/-- Returns the order of the block that is finally put on a list. -/
def freeLoop : ℕ → Pmm → ℕ → ℕ → Option (Pmm × ℕ)
  | 0, _, _, _ => none
  | fuel + 1, s, addr, order =>
    if maxOrder - 1 ≤ order then some (s.pushFree addr order, order)
    else
      let buddy := addr ^^^ (pageSize <<< order)
      match s.removeFree buddy order with
      | none => none
      | some (true, s) => freeLoop fuel s (min addr buddy) (order + 1)
      | some (false, s) => some (s.pushFree addr order, order)

/-- `free_pages` is a `usize`; the release profile wraps. -/
def freeOrder (s : Pmm) (addr order : ℕ) : Option Pmm :=
  match freeLoop maxOrder s addr order with
  | none => none
  | some (s, order) =>
    some { s with freePages := (s.freePages + 1 <<< min order (maxOrder - 1)) % 2 ^ 64 }

def allocFrame (s : Pmm) : Option (ℕ × Pmm) := s.allocOrder 0
def freeFrame (s : Pmm) (addr : ℕ) : Option Pmm := s.freeOrder addr 0

end Pmm

inductive MemoryRegionKind where
  | usable
  | bootloader
  | unknownUefi (tag : ℕ)
  | unknownBios (tag : ℕ)
  deriving DecidableEq

structure MemoryRegion where
  start : ℕ
  stop : ℕ
  kind : MemoryRegionKind

/-- `pmm::init`: every usable region of the bootloader's map is added in turn. -/
def Pmm.init (mem : PhysMem) (regions : List MemoryRegion) : Pmm :=
  regions.foldl (fun s r => if r.kind = .usable then s.addRegion r.start r.stop else s)
    (Pmm.new mem)

end NodeKernel
