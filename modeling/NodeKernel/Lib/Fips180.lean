import Mathlib.Data.Nat.NthRoot.Defs
import NodeKernel.Lib.Bytes
import NodeKernel.Lib.Loops

/-!
# SHA-1 and SHA-256 as FIPS 180-4 states them

A state that takes a message block by block, and padding, message schedule and compression of sections 6.1 and 6.2, for
messages of whole bytes.
-/
namespace NodeKernel

section Blocks
open List Nat

variable {α σ : Type*} {compress : σ → List α → σ} {n : ℕ} {s₀ s : σ} {msg tail : List α}

def foldBlocks (compress : σ → List α → σ) (n : ℕ) : ℕ → σ → List α → σ
  | 0, s, _ => s
  | k + 1, s, msg => foldBlocks compress n k (compress s (msg.take n)) (msg.drop n)

lemma foldBlocks_snoc {k : ℕ} {front : List α} (hfront : front.length = k * n) (htail : tail.length = n) (s : σ) :
    foldBlocks compress n (k + 1) s (front ++ tail) = compress (foldBlocks compress n k s front) tail := by
  induction k generalizing s front with
  | zero =>
    have hnil : front = [] := eq_nil_of_length_eq_zero (by rw [hfront, zero_mul])
    subst hnil htail
    exact congrArg (compress s) (take_length)
  | succ k ih =>
    rw [succ_mul] at hfront
    have hdrop : (front.drop n).length = k * n := by
      rw [length_drop, hfront, Nat.add_sub_cancel]
    rw [foldBlocks, take_append_of_le_length (by omega), drop_append_of_le_length (by omega), ih hdrop]
    rfl

lemma foldBlocks_congr {compress' : σ → List α → σ} (h : ∀ s block, block.length = n → compress s block = compress' s block)
    {k : ℕ} (hlen : msg.length = k * n) (s : σ) : foldBlocks compress n k s msg = foldBlocks compress' n k s msg := by
  induction k generalizing s msg with
  | zero => rfl
  | succ k ih =>
    rw [succ_mul] at hlen
    rw [foldBlocks, foldBlocks, h _ _ (by rw [length_take]; omega), ih (by rw [length_drop]; omega)]

/-- The state took all of the message but its end. -/
def Absorbed (compress : σ → List α → σ) (n : ℕ) (s₀ : σ) (msg : List α) (s : σ) (tail : List α) : Prop :=
  ∃ k front, msg = front ++ tail ∧ front.length = k * n ∧ s = foldBlocks compress n k s₀ front

lemma Absorbed.nil : Absorbed compress n s₀ [] s₀ [] := ⟨0, [], rfl, (Nat.zero_mul n).symm, rfl⟩

lemma Absorbed.push (h : Absorbed compress n s₀ msg s tail) (piece : List α) :
    Absorbed compress n s₀ (msg ++ piece) s (tail ++ piece) := by
  obtain ⟨k, front, rfl, hlen, hs⟩ := h
  exact ⟨k, front, append_assoc _ _ _, hlen, hs⟩

lemma Absorbed.fill (h : Absorbed compress n s₀ msg s tail) (htail : tail.length = n) :
    Absorbed compress n s₀ msg (compress s tail) [] := by
  obtain ⟨k, front, rfl, hlen, rfl⟩ := h
  refine ⟨k + 1, front ++ tail, (append_nil _).symm, ?_, (foldBlocks_snoc hlen htail s₀).symm⟩
  rw [length_append, hlen, htail, succ_mul]

lemma Absorbed.length_mod (h : Absorbed compress n s₀ msg s tail) (htail : tail.length < n) : msg.length % n = tail.length := by
  obtain ⟨k, front, rfl, hlen, -⟩ := h
  rw [length_append, hlen, mul_comm, mul_add_mod, mod_eq_of_lt htail]

lemma Absorbed.done (h : Absorbed compress n s₀ msg s []) (hn : 0 < n) : s = foldBlocks compress n (msg.length / n) s₀ msg := by
  obtain ⟨k, front, rfl, hlen, rfl⟩ := h
  rw [append_nil, hlen, Nat.mul_div_cancel _ hn]

end Blocks

namespace Fips180

def rotl (x : UInt32) (n : UInt32) : UInt32 := (x <<< n) ||| (x >>> (32 - n))

@[ext] structure Five where
  a : UInt32
  b : UInt32
  c : UInt32
  d : UInt32
  e : UInt32
  deriving DecidableEq

def Five.add (x y : Five) : Five := ⟨x.a + y.a, x.b + y.b, x.c + y.c, x.d + y.d, x.e + y.e⟩

def Five.bytes (x : Five) : List UInt8 :=
  toBe 4 x.a.toNat ++ (toBe 4 x.b.toNat ++ (toBe 4 x.c.toNat ++ (toBe 4 x.d.toNat ++ toBe 4 x.e.toNat)))

def initial : Five := ⟨0x67452301, 0xEFCDAB89, 0x98BADCFE, 0x10325476, 0xC3D2E1F0⟩

def ch (x y z : UInt32) : UInt32 := (x &&& y) ^^^ (~~~x &&& z)

def parity (x y z : UInt32) : UInt32 := x ^^^ y ^^^ z

def maj (x y z : UInt32) : UInt32 := (x &&& y) ^^^ (x &&& z) ^^^ (y &&& z)

def f (t : ℕ) : UInt32 → UInt32 → UInt32 → UInt32 :=
  if t < 20 then ch else if t < 40 then parity else if t < 60 then maj else parity

def k (t : ℕ) : UInt32 :=
  if t < 20 then 0x5A827999 else if t < 40 then 0x6ED9EBA1 else if t < 60 then 0x8F1BBCDC else 0xCA62C1D6

def word (block : List UInt8) (t : ℕ) : UInt32 := UInt32.ofNat (ofBe ((block.drop (4 * t)).take 4))

def schedule (block : List UInt8) (t : ℕ) : UInt32 :=
  if t < 16 then word block t
  else rotl (schedule block (t - 3) ^^^ schedule block (t - 8) ^^^ schedule block (t - 14) ^^^ schedule block (t - 16)) 1
termination_by t

def round (block : List UInt8) (v : Five) (t : ℕ) : Five :=
  ⟨rotl v.a 5 + f t v.b v.c v.d + v.e + k t + schedule block t, v.a, rotl v.b 30, v.c, v.d⟩

def compress (h : Five) (block : List UInt8) : Five := h.add ((List.range 80).foldl (round block) h)

/-- A one bit, zeros up to 8 bytes before the end of a block, and the number of bits. -/
def padding (len : ℕ) : List UInt8 := 0x80 :: (List.replicate ((119 - len % 64) % 64) 0 ++ toBe 8 (8 * len))

def pad (msg : List UInt8) : List UInt8 := msg ++ padding msg.length

def sha1 (msg : List UInt8) : List UInt8 :=
  (foldBlocks compress 64 ((pad msg).length / 64) initial (pad msg)).bytes

/-! ## SHA-256 -/

def rotr (x : UInt32) (n : UInt32) : UInt32 := (x >>> n) ||| (x <<< (32 - n))

def primes : List ℕ := (List.range 312).filter (fun p => 1 < p ∧ ∀ d < p, 1 < d → ¬ d ∣ p)

/-- The first 32 bits of the fractional part of the `n`-th root. -/
def rootBits (n p : ℕ) : UInt32 := UInt32.ofNat (Nat.nthRoot n (p * 2 ^ (32 * n)) % 2 ^ 32)

def constants256 : List UInt32 := primes.map (rootBits 3)

def initial256 : List UInt32 := (primes.take 8).map (rootBits 2)

def schedule256 (block : List UInt8) (t : ℕ) : UInt32 :=
  if t < 16 then word block t
  else
    let sigma0 := fun x => rotr x 7 ^^^ rotr x 18 ^^^ (x >>> 3)
    let sigma1 := fun x => rotr x 17 ^^^ rotr x 19 ^^^ (x >>> 10)
    sigma1 (schedule256 block (t - 2)) + schedule256 block (t - 7) + sigma0 (schedule256 block (t - 15)) +
      schedule256 block (t - 16)
termination_by t

def round256 (block : List UInt8) (v : List UInt32) (t : ℕ) : List UInt32 :=
  match v with
  | [a, b, c, d, e, f, g, h] =>
    let t1 := h + (rotr e 6 ^^^ rotr e 11 ^^^ rotr e 25) + ch e f g + constants256.getD t 0 + schedule256 block t
    let t2 := (rotr a 2 ^^^ rotr a 13 ^^^ rotr a 22) + maj a b c
    [t1 + t2, a, b, c, d + t1, e, f, g]
  | v => v

def compress256 (h : List UInt32) (block : List UInt8) : List UInt32 :=
  List.zipWith (· + ·) h ((List.range 64).foldl (round256 block) h)

def sha256 (msg : List UInt8) : List UInt8 :=
  (foldBlocks compress256 64 ((pad msg).length / 64) initial256 (pad msg)).flatMap (fun x => toBe 4 x.toNat)

/-! ## Message schedules in an array -/

def Filled (size : ℕ) (schedule : ℕ → UInt32) (n : ℕ) (w : List UInt32) : Prop :=
  w.length = size ∧ ∀ t < n, w.getD t 0 = schedule t

lemma Filled.set {size n : ℕ} {schedule : ℕ → UInt32} {w : List UInt32} (h : Filled size schedule n w)
    (hn : n < size) : Filled size schedule (n + 1) (w.set n (schedule n)) := by
  obtain ⟨hlen, hw⟩ := h
  refine ⟨by rw [List.length_set, hlen], ?_⟩
  intro t ht
  rw [List.getD_eq_getElem?_getD, List.getElem?_set]
  split
  next heq => rw [if_pos (by omega), heq, Option.getD_some]
  next hne => rw [← List.getD_eq_getElem?_getD, hw t (by omega)]

lemma word_eq {block : List UInt8} {i : ℕ} (h : i * 4 + 4 ≤ block.length) :
    UInt32.ofNat (ofBe [block.getD (i * 4) 0, block.getD (i * 4 + 1) 0, block.getD (i * 4 + 2) 0,
      block.getD (i * 4 + 3) 0]) = word block i := by
  rw [word, mul_comm 4, drop_take_four h]

lemma filled_words {size : ℕ} {schedule : ℕ → UInt32} {block : List UInt8} (hblock : block.length = 64)
    (hsize : 16 ≤ size) (hs : ∀ t < 16, schedule t = word block t) :
    Filled size schedule 16 ((List.range 16).foldl (fun w i => w.set i (UInt32.ofNat (ofBe
      [block.getD (i * 4) 0, block.getD (i * 4 + 1) 0, block.getD (i * 4 + 2) 0, block.getD (i * 4 + 3) 0])))
      (List.replicate size 0)) := by
  refine Loops.foldl_range (Filled size schedule)
    ⟨List.length_replicate, fun t ht => absurd ht (Nat.not_lt_zero t)⟩ ?_
  intro i hi w hw
  have hnext := hw.set (by omega)
  rwa [hs i hi, ← word_eq (by omega)] at hnext

end Fips180
end NodeKernel
