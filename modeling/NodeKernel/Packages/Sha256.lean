import NodeKernel.Lib.Fips180
import NodeKernel.Lib.Text

/-!
# Hashes of packages

`sha256_hex` of the package manager.
-/
namespace NodeKernel

open List Nat Fips180

open Fips180 (Filled rotr)

namespace Sha256

def k : List UInt32 := [
  0x428a2f98, 0x71374491, 0xb5c0fbcf, 0xe9b5dba5, 0x3956c25b, 0x59f111f1, 0x923f82a4, 0xab1c5ed5,
  0xd807aa98, 0x12835b01, 0x243185be, 0x550c7dc3, 0x72be5d74, 0x80deb1fe, 0x9bdc06a7, 0xc19bf174,
  0xe49b69c1, 0xefbe4786, 0x0fc19dc6, 0x240ca1cc, 0x2de92c6f, 0x4a7484aa, 0x5cb0a9dc, 0x76f988da,
  0x983e5152, 0xa831c66d, 0xb00327c8, 0xbf597fc7, 0xc6e00bf3, 0xd5a79147, 0x06ca6351, 0x14292967,
  0x27b70a85, 0x2e1b2138, 0x4d2c6dfc, 0x53380d13, 0x650a7354, 0x766a0abb, 0x81c2c92e, 0x92722c85,
  0xa2bfe8a1, 0xa81a664b, 0xc24b8b70, 0xc76c51a3, 0xd192e819, 0xd6990624, 0xf40e3585, 0x106aa070,
  0x19a4c116, 0x1e376c08, 0x2748774c, 0x34b0bcb5, 0x391c0cb3, 0x4ed8aa4a, 0x5b9cca4f, 0x682e6ff3,
  0x748f82ee, 0x78a5636f, 0x84c87814, 0x8cc70208, 0x90befffa, 0xa4506ceb, 0xbef9a3f7, 0xc67178f2]

/-- `while (msg.len() % 64) != 56 { msg.push(0); }` -/
def padZeros : ℕ → List UInt8 → List UInt8
  | 0, msg => msg
  | fuel + 1, msg => if msg.length % 64 ≠ 56 then padZeros fuel (msg ++ [0]) else msg

def loadWords (chunk : List UInt8) : List UInt32 :=
  (List.range 16).foldl (fun w i => w.set i (UInt32.ofNat (ofBe
    [chunk.getD (i * 4) 0, chunk.getD (i * 4 + 1) 0, chunk.getD (i * 4 + 2) 0, chunk.getD (i * 4 + 3) 0])))
    (List.replicate 64 0)

/-- The loop over `16..64`; `i` counts from 0. -/
def extendWords (w : List UInt32) : List UInt32 :=
  (List.range 48).foldl (fun w i =>
    let w15 := w.getD (i + 1) 0
    let w2 := w.getD (i + 14) 0
    let s0 := rotr w15 7 ^^^ rotr w15 18 ^^^ (w15 >>> 3)
    let s1 := rotr w2 17 ^^^ rotr w2 19 ^^^ (w2 >>> 10)
    w.set (i + 16) (w.getD i 0 + s0 + w.getD (i + 9) 0 + s1)) w

def round (w v : List UInt32) (i : ℕ) : List UInt32 :=
  match v with
  | [a, b, c, d, e, f, g, hh] =>
    let s1 := rotr e 6 ^^^ rotr e 11 ^^^ rotr e 25
    let ch := (e &&& f) ^^^ (~~~e &&& g)
    let t1 := hh + s1 + ch + k.getD i 0 + w.getD i 0
    let s0 := rotr a 2 ^^^ rotr a 13 ^^^ rotr a 22
    let maj := (a &&& b) ^^^ (a &&& c) ^^^ (b &&& c)
    let t2 := s0 + maj
    [t1 + t2, a, b, c, d + t1, e, f, g]
  | v => v

def compress (h : List UInt32) (chunk : List UInt8) : List UInt32 :=
  List.zipWith (· + ·) h ((List.range 64).foldl (round (extendWords (loadWords chunk))) h)

/-- The last of the chunks of 64 bytes may be a shorter one. -/
def sha256Hex (data : List UInt8) : String :=
  let h : List UInt32 := [0x6a09e667, 0xbb67ae85, 0x3c6ef372, 0xa54ff53a, 0x510e527f, 0x9b05688c, 0x1f83d9ab, 0x5be0cd19]
  let bitLen := UInt64.ofNat data.length * 8
  let msg := padZeros 64 (data ++ [0x80]) ++ toBe 8 bitLen.toNat
  let h := foldBlocks compress 64 ((msg.length + 63) / 64) h msg
  String.ofList (h.flatMap (fun x => hexDigits 8 x.toNat []))

/-! ## Against the standard -/

lemma k_eq : k = Fips180.constants256 := by decide +kernel

variable {chunk : List UInt8} {w : List UInt32}

lemma extendWords_filled (hw : Filled 64 (Fips180.schedule256 chunk) 16 w) :
    Filled 64 (Fips180.schedule256 chunk) 64 (extendWords w) := by
  refine Loops.foldl_range (fun i => Filled 64 (schedule256 chunk) (i + 16)) hw ?_
  intro i hi w hw
  have hnext := hw.set (by omega)
  have hlag : ∀ j < i + 16, w.getD j 0 = schedule256 chunk j := hw.2
  rw [schedule256, if_neg (by omega), show i + 16 - 2 = i + 14 by omega, show i + 16 - 7 = i + 9 by omega,
    show i + 16 - 15 = i + 1 by omega, Nat.add_sub_cancel, ← hlag _ (by omega), ← hlag _ (by omega),
    ← hlag _ (by omega), ← hlag _ (by omega)] at hnext
  rw [show i + 1 + 16 = i + 16 + 1 by omega]
  -- the sums differ in their order only
  convert hnext using 2
  dsimp only
  ac_rfl

lemma compress_eq (hchunk : chunk.length = 64) (h : List UInt32) : compress h chunk = Fips180.compress256 h chunk := by
  have hload : Filled 64 (schedule256 chunk) 16 (loadWords chunk) :=
    filled_words hchunk (by decide) (fun t ht => by rw [schedule256, if_pos ht])
  have hw := extendWords_filled hload
  have hrounds : (List.range 64).foldl (round (extendWords (loadWords chunk))) h =
      (List.range 64).foldl (round256 chunk) h := by
    apply foldl_ext
    intro v i hi
    unfold round round256
    rw [k_eq, hw.2 i (mem_range.mp hi)]
    rfl
  rw [compress, hrounds, compress256]

lemma padZeros_eq {fuel : ℕ} {msg : List UInt8} (hf : (120 - msg.length % 64) % 64 ≤ fuel) :
    padZeros fuel msg = msg ++ List.replicate ((120 - msg.length % 64) % 64) 0 := by
  induction fuel generalizing msg with
  | zero =>
    rw [le_zero.mp hf]
    exact (append_nil msg).symm
  | succ fuel ih =>
    rw [padZeros]
    split
    · have hnext : (120 - msg.length % 64) % 64 = (120 - (msg.length + 1) % 64) % 64 + 1 := by omega
      rw [ih (by rw [length_append, length_singleton]; omega), length_append, length_singleton,
        hnext, append_assoc, replicate_succ]
      rfl
    · rw [show (120 - msg.length % 64) % 64 = 0 by omega]
      exact (append_nil msg).symm

lemma padded (data : List UInt8) :
    padZeros 64 (data ++ [0x80]) ++ toBe 8 (UInt64.ofNat data.length * 8).toNat = Fips180.pad data := by
  have hbits : toBe 8 (UInt64.ofNat data.length * 8).toNat = toBe 8 (8 * data.length) := by
    rw [UInt64.toNat_mul, UInt64.toNat_ofNat', mod_mul_mod, mul_comm, ← toBe_mod 8 (8 * data.length)]
    rfl
  rw [padZeros_eq (by omega), hbits, pad, padding, length_append, length_singleton,
    show (120 - (data.length + 1) % 64) % 64 = (119 - data.length % 64) % 64 by omega]
  simp only [append_assoc, cons_append, nil_append]

lemma pad_length (data : List UInt8) : (Fips180.pad data).length % 64 = 0 := by
  rw [pad, padding, length_append, length_cons, length_append, length_replicate, toBe_length]
  omega

lemma hexDigits_toBe (n v : ℕ) (acc : List Char) :
    hexDigits (2 * n) v acc = (toBe n v).flatMap (fun b => hexDigits 2 b.toNat []) ++ acc := by
  induction n generalizing v acc with
  | zero => rfl
  | succ n ih =>
    have hbyte : (UInt8.ofNat v).toNat = v % 256 := rfl
    have hlow : hexDigits 2 v acc = hexDigits 2 (v % 256) [] ++ acc := by
      simp only [hexDigits, cons_append, nil_append]
      rw [show v % 256 / 16 % 16 = v / 16 % 16 by omega, show v % 256 % 16 = v % 16 by omega]
    rw [toBe, toLe, reverse_cons, flatMap_append, flatMap_singleton, hbyte, append_assoc, ← hlow]
    exact (congrArg (hexDigits (2 * n) · _) (Nat.div_div_eq_div_mul v 16 16)).trans (ih (v / 256) _)

/-- The lower-case hexadecimal text of the digest. -/
theorem sha256Hex_eq (data : List UInt8) :
    sha256Hex data = String.ofList ((Fips180.sha256 data).flatMap (fun b => hexDigits 2 b.toNat [])) := by
  have hlen := pad_length data
  unfold sha256Hex sha256
  dsimp only
  rw [padded, show ((pad data).length + 63) / 64 = (pad data).length / 64 by omega,
    foldBlocks_congr (fun s b hb => compress_eq hb s) (by omega), flatMap_assoc]
  refine congrArg String.ofList (flatMap_congr (fun x _ => ?_))
  rw [hexDigits_toBe 4, append_nil]

end Sha256

end NodeKernel
