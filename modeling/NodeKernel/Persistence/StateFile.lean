import NodeKernel.Lib.Checked

/-!
# The state file

A magic number, a count and sections with a tag and a length each. `save` writes it and `init` hands each section whose
tag it knows to a loader. The decoder stops where a section does not fit.
-/
namespace NodeKernel

open List Nat

structure StateSection where
  tag : UInt32
  data : List UInt8
  deriving DecidableEq

inductive Loader
  | lmMemory
  | nanoNn
  | emotionalArc
  | lmLearner
  | qualiaCount
  | phiState
  deriving DecidableEq

namespace StateFile

open Checked

def magic : List UInt8 := [0x4E, 0x4C, 0x53, 0x30]

/-- The match on the tag. The self-model (1) has a file of its own, and 7 is not used. -/
def loaderOf (tag : UInt32) : Option Loader :=
  if tag = 2 then some .lmMemory
  else if tag = 3 then some .nanoNn
  else if tag = 4 then some .emotionalArc
  else if tag = 5 then some .lmLearner
  else if tag = 6 then some .qualiaCount
  else if tag = 8 then some .phiState
  else none

/-- What the decoder does with a section: the call of its loader, if there is one. -/
def deliver (s : StateSection) : Option (Loader × List UInt8) := (loaderOf s.tag).map (fun l => (l, s.data))

def loadSections (data : List UInt8) : ℕ → ℕ → Checked (List (Loader × List UInt8))
  | 0, _ => .ok []
  | n + 1, pos => do
      let start ← add pos 8
      if start > data.length then .ok []
      else do
        let tag ← leWord data pos
        let len ← leWord data (pos + 4)
        let stop ← add start len.toNat
        if stop > data.length then .ok []
        else do
          let bytes ← slice data start stop
          let later ← loadSections data n stop
          return (deliver ⟨tag, bytes⟩).toList ++ later

def init : Option ByteSlice → Checked (List (Loader × List UInt8) × Bool)
  | none => .ok ([], true)
  | some data =>
    if data.1.length < 8 then .ok ([], false)
    else do
      let front ← slice data.1 0 4
      if front ≠ magic then .ok ([], false)
      else do
        let numSections ← leWord data.1 4
        let calls ← loadSections data.1 numSections.toNat 8
        return (calls, true)

def sectionBytes (s : StateSection) : List UInt8 := toLe 4 s.tag.toNat ++ (toLe 4 s.data.length ++ s.data)

def fileBytes (sections : List StateSection) : List UInt8 :=
  magic ++ (toLe 4 sections.length ++ sections.flatMap sectionBytes)

/-- The buffer of `save`. A vector that cannot grow ends the program. -/
def encode (sections : List StateSection) : Checked ByteSlice :=
  if h : (fileBytes sections).length < 2 ^ 63 then .ok ⟨fileBytes sections, h⟩ else .error .overflow

def save (loaded : Bool) (sections : List StateSection) : Checked (Option ByteSlice) :=
  if loaded = false ∨ sections = [] then .ok none else (encode sections).map some

variable {data front rest : List UInt8} {n : ℕ} {s : StateSection}

def FoundIn (file : List UInt8) (calls : List (Loader × List UInt8)) : Prop :=
  ∃ (front : List UInt8) (sections : List StateSection) (rest : List UInt8),
    file = front ++ (sections.flatMap sectionBytes ++ rest) ∧ calls = sections.filterMap deliver

lemma FoundIn.nil (file : List UInt8) : FoundIn file [] := ⟨file, [], [], (append_nil file).symm, rfl⟩

end StateFile
end NodeKernel
