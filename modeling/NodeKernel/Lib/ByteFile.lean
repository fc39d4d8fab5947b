import Mathlib.Algebra.Group.Int.Defs
import Mathlib.Algebra.Group.Nat.Defs
import Mathlib.Tactic.SplitIfs

/-!
# A file of bytes with a position

The calls of POSIX on a regular file through one open descriptor. An offset is a word that is read as a signed number.
-/
namespace NodeKernel

open List

structure ByteFile where
  contents : List UInt8
  pos : ℕ

inductive Whence
  | set
  | cur
  | fromEnd
  deriving DecidableEq

inductive PosixCall
  | read (len : ℕ)
  | write (bytes : List UInt8)
  | lseek (offset : BitVec 64) (whence : Whence)
  | pread (len : ℕ) (offset : BitVec 64)
  | pwrite (bytes : List UInt8) (offset : BitVec 64)
  | ftruncate (length : BitVec 64)

namespace ByteFile

def invalid : ℤ := -22

def tooBig : ℤ := -27

def overflow : ℤ := -75

def bytesAt (f : ByteFile) (off len : ℕ) : List UInt8 := (f.contents.drop off).take len

/-- A write behind the end leaves zeros in between. -/
def overwrite (contents : List UInt8) (off : ℕ) (bytes : List UInt8) : List UInt8 :=
  contents.take off ++ (List.replicate (off - contents.length) 0 ++ (bytes ++ contents.drop (off + bytes.length)))

def resize (contents : List UInt8) (len : ℕ) : List UInt8 :=
  contents.take len ++ List.replicate (len - contents.length) 0

def base (f : ByteFile) : Whence → ℕ
  | .set => 0
  | .cur => f.pos
  | .fromEnd => f.contents.length

def call (f : ByteFile) : PosixCall → (ℤ × List UInt8) × ByteFile
  | .read len =>
    let bytes := f.bytesAt f.pos len
    ((bytes.length, bytes), { f with pos := f.pos + bytes.length })
  | .write bytes =>
    if bytes = [] then ((0, []), f)
    else if 2 ^ 63 ≤ f.pos + bytes.length then ((tooBig, []), f)
    else ((bytes.length, []), ⟨overwrite f.contents f.pos bytes, f.pos + bytes.length⟩)
  | .lseek offset whence =>
    let target := f.base whence + offset.toInt
    if target < 0 then ((invalid, []), f)
    else if 2 ^ 63 ≤ target then ((overflow, []), f)
    else ((target, []), { f with pos := target.toNat })
  | .pread len offset =>
    if offset.toInt < 0 then ((invalid, []), f)
    else ((((f.bytesAt offset.toNat len).length : ℕ), f.bytesAt offset.toNat len), f)
  | .pwrite bytes offset =>
    if offset.toInt < 0 then ((invalid, []), f)
    else if bytes = [] then ((0, []), f)
    else if 2 ^ 63 ≤ offset.toNat + bytes.length then ((tooBig, []), f)
    else ((bytes.length, []), { f with contents := overwrite f.contents offset.toNat bytes })
  | .ftruncate length =>
    if length.toInt < 0 then ((invalid, []), f)
    else ((0, []), { f with contents := resize f.contents length.toNat })

structure Fits (f : ByteFile) : Prop where
  size : f.contents.length < 2 ^ 63
  pos : f.pos < 2 ^ 63

variable {f : ByteFile} {contents bytes : List UInt8} {off len : ℕ}

lemma bytesAt_length : (f.bytesAt off len).length = min len (f.contents.length - off) := by
  rw [bytesAt, length_take, length_drop]

lemma overwrite_length : (overwrite contents off bytes).length = max contents.length (off + bytes.length) := by
  simp only [overwrite, length_append, length_take, length_replicate, length_drop]
  omega

lemma resize_length : (resize contents len).length = len := by
  simp only [resize, length_append, length_take, length_replicate]
  omega

lemma toInt_cases (x : BitVec 64) : x.toNat < 2 ^ 63 ∧ x.toInt = x.toNat ∨ 2 ^ 63 ≤ x.toNat ∧ x.toInt = x.toNat - 2 ^ 64 := by
  rw [BitVec.toInt_eq_toNat_cond]
  split
  · exact .inl ⟨by omega, rfl⟩
  · exact .inr ⟨by omega, by omega⟩

lemma Fits.call (h : f.Fits) (c : PosixCall) : (f.call c).2.Fits := by
  obtain ⟨hsize, hpos⟩ := h
  cases c with
  | read len =>
    have hlen : (f.bytesAt f.pos len).length ≤ f.contents.length - f.pos := by
      rw [bytesAt_length]
      exact Nat.min_le_right _ _
    refine ⟨hsize, ?_⟩
    simp only [ByteFile.call]
    omega
  | write bytes =>
    simp only [ByteFile.call]
    split_ifs with hnil hbig
    · exact ⟨hsize, hpos⟩
    · exact ⟨hsize, hpos⟩
    · exact ⟨by rw [overwrite_length]; omega, Nat.not_le.mp hbig⟩
  | lseek offset whence =>
    simp only [ByteFile.call]
    split_ifs with hneg hbig
    · exact ⟨hsize, hpos⟩
    · exact ⟨hsize, hpos⟩
    · exact ⟨hsize, show Int.toNat _ < _ by omega⟩
  | pread len offset =>
    simp only [ByteFile.call]
    split_ifs with hneg
    · exact ⟨hsize, hpos⟩
    · exact ⟨hsize, hpos⟩
  | pwrite bytes offset =>
    simp only [ByteFile.call]
    split_ifs with hneg hnil hbig
    · exact ⟨hsize, hpos⟩
    · exact ⟨hsize, hpos⟩
    · exact ⟨hsize, hpos⟩
    · exact ⟨by rw [overwrite_length]; omega, hpos⟩
  | ftruncate length =>
    obtain ⟨hlt, -⟩ | ⟨-, hneg⟩ := toInt_cases length
    · simp only [ByteFile.call]
      split_ifs with hneg
      · exact ⟨hsize, hpos⟩
      · exact ⟨by rwa [resize_length], hpos⟩
    · simp only [ByteFile.call]
      rw [if_pos (by omega)]
      exact ⟨hsize, hpos⟩

end ByteFile
end NodeKernel
