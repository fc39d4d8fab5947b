import Mathlib.Data.List.Forall2
import NodeKernel.Lib.DownStack
import NodeKernel.Lib.Text

/-!
# The stack of a new image

How `sys_execve` collects the arguments and the environment, and the stack that it builds from them
for the new image.
-/
namespace NodeKernel

open List Nat ByteMem

/-- `read_user_cstr`: the bytes before the first null byte, if they are UTF-8. -/
def readUserCstr (m : ByteMem) (ptr max : ℕ) : Option String :=
  if ptr = 0 then none
  else
    let bytes := m.load ptr max
    let len := (bytes.findIdx? (fun b => b == 0)).getD max
    String.fromUTF8? (bytes.take len).toByteArray

def cString (s : String) : List UInt8 := utf8 s ++ [0]

/-- The loop over an array of pointers, from the index `i`, which stops after `left` more of them. -/
def collectStrs (m : ByteMem) (arr : ℕ) : ℕ → ℕ → List (List UInt8)
  | _, 0 => []
  | i, left + 1 =>
    let ptr := m.read64 (wordAddr arr i)
    if ptr = 0 then []
    else
      match readUserCstr m ptr 4096 with
      | some s => cString s :: collectStrs m arr (i + 1) left
      | none => collectStrs m arr (i + 1) left

/-- The path stands for the argument with the index 0; the indices go up to 256. -/
def argvStrs (m : ByteMem) (path : String) (argvPtr : ℕ) : List (List UInt8) :=
  cString path :: if argvPtr ≠ 0 then collectStrs m argvPtr 1 256 else []

def defaultEnv : List String := ["PATH=/bin:/usr/bin:/sbin:/usr/sbin", "HOME=/root", "TERM=vt100"]

def envpStrs (m : ByteMem) (envpPtr : ℕ) : List (List UInt8) :=
  let strs := if envpPtr ≠ 0 then collectStrs m envpPtr 0 257 else []
  if strs = [] then defaultEnv.map cString else strs

section Decode

variable {m : ByteMem}

end Decode

/-! ## Collecting -/

def Readable (s : String) : Prop := (utf8 s).length ≤ 4096 ∧ 0 ∉ utf8 s

instance (s : String) : Decidable (Readable s) := inferInstanceAs (Decidable (_ ∧ _))

structure StrsAt (m : ByteMem) (arr : ℕ) (strs : List String) : Prop where
  ptr_ne : ∀ i < strs.length, m.read64 (wordAddr arr i) ≠ 0
  str : ∀ i (hi : i < strs.length),
    m.load (m.read64 (wordAddr arr i)) (cString strs[i]).length = cString strs[i]
  null : m.read64 (wordAddr arr strs.length) = 0

section Collect

variable {m : ByteMem} {ptr : ℕ} {s : String}

variable {arr : ℕ} {strs : List String}

end Collect

/-! ## Building -/

section Build

open DownStack

variable {base top : ℕ} {s : DownStack}

section Vectors
variable {argc entry randPtr : ℕ} {argvPtrs envpPtrs : List ℕ}

end Vectors

variable {strs argv envp : List (List UInt8)} {entry tsc randPtr : ℕ} {ptrs argvPtrs envpPtrs : List ℕ}

end Build

/-- A null pointer, or an array of at most 257 strings that can be read. -/
def Passed (m : ByteMem) (ptr : ℕ) (strs : List String) : Prop :=
  (ptr = 0 ∧ strs = []) ∨
    (ptr ≠ 0 ∧ StrsAt m ptr strs ∧ strs.length ≤ 257 ∧ ∀ s ∈ strs, Readable s)

section Image

variable {m : ByteMem} {ptr : ℕ} {path : String} {strs : List String}

lemma Passed.readable (h : Passed m ptr strs) : strs.length ≤ 257 ∧ ∀ s ∈ strs, Readable s := by
  rcases h with ⟨_, rfl⟩ | ⟨_, _, hlen, hs⟩
  · exact ⟨zero_le _, fun s hs => absurd hs not_mem_nil⟩
  · exact ⟨hlen, hs⟩

def sampleMem : ByteMem :=
  (((ByteMem.store (fun _ => 0) 0x2000 (cString "ls")).store 0x2008 (cString "-l")).write64 0x1000
    0x2000).write64 0x1008 0x2008

end Image

end NodeKernel
