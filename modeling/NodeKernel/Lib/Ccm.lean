import NodeKernel.Lib.Bytes

/-!
# CCM as RFC 3610 states it

A CBC-MAC over a first block, the additional data and the message, and a key stream of encrypted counters. The block
cipher `E` is arbitrary, `M` is the size of the tag and `L` that of the length field.
-/
namespace NodeKernel

open Nat
namespace Ccm

/-- The bytes of `l` from `off` on, filled up with zeros. -/
def blockFrom (l : List UInt8) (off : ℕ) : Vector UInt8 16 := Vector.ofFn (fun j => l.getD (off + j) 0)

def blocks (l : List UInt8) : List (Vector UInt8 16) := (List.range ((l.length + 15) / 16)).map (fun i => blockFrom l (16 * i))

def xorBlock (a b : Vector UInt8 16) : Vector UInt8 16 := Vector.zipWith (fun x y => x ^^^ y) a b

def xorBytes (a b : List UInt8) : List UInt8 := List.zipWith (fun x y => x ^^^ y) a b

variable (E : Vector UInt8 16 → Vector UInt8 16)

def cbcMac (x : Vector UInt8 16) (bs : List (Vector UInt8 16)) : Vector UInt8 16 := bs.foldl (fun x b => E (xorBlock x b)) x

def firstBlock (M L : ℕ) (nonce aad msg : List UInt8) : Vector UInt8 16 :=
  blockFrom (UInt8.ofNat ((if aad = [] then 0 else 64) + 8 * ((M - 2) / 2) + (L - 1)) :: (nonce ++ toBe L msg.length)) 0

/-- The additional data behind its length, which has two bytes below `2 ^ 16 - 2 ^ 8`. -/
def aadBytes (aad : List UInt8) : List UInt8 := if aad = [] then [] else toBe 2 aad.length ++ aad

def tag (M L : ℕ) (nonce aad msg : List UInt8) : List UInt8 :=
  (cbcMac E (E (firstBlock M L nonce aad msg)) (blocks (aadBytes aad) ++ blocks msg)).toList.take M

def counterBlock (L : ℕ) (nonce : List UInt8) (i : ℕ) : Vector UInt8 16 :=
  blockFrom (UInt8.ofNat (L - 1) :: (nonce ++ toBe L i)) 0

def keystream (L : ℕ) (nonce : List UInt8) : ℕ → ℕ → List UInt8
  | 0, _ => []
  | n + 1, i => (E (counterBlock L nonce i)).toList ++ keystream L nonce n (i + 1)

/-- The message is encrypted from counter 1 on, the tag with counter 0. -/
def encrypt (M L : ℕ) (nonce aad msg : List UInt8) : List UInt8 :=
  xorBytes msg (keystream E L nonce ((msg.length + 15) / 16) 1) ++
    xorBytes (tag E M L nonce aad msg) ((E (counterBlock L nonce 0)).toList.take M)

variable {E} {L n i : ℕ} {nonce l : List UInt8}

lemma keystream_length : (keystream E L nonce n i).length = 16 * n := by
  induction n generalizing i with
  | zero => rfl
  | succ n ih =>
    rw [keystream, List.length_append, Vector.length_toList, ih]
    omega

lemma getD_zeros (l : List UInt8) (k j : ℕ) : (l ++ List.replicate k 0).getD j 0 = l.getD j 0 := by
  simp only [List.getD_eq_getElem?_getD, List.getElem?_append, List.getElem?_replicate]
  split_ifs with h1 h2
  · rfl
  · rw [List.getElem?_eq_none (by omega)]
    rfl
  · rw [List.getElem?_eq_none (by omega)]

lemma blockFrom_zeros (l : List UInt8) (k off : ℕ) : blockFrom (l ++ List.replicate k 0) off = blockFrom l off := by
  simp only [blockFrom, getD_zeros]

lemma xorBytes_length {a b : List UInt8} (h : a.length ≤ b.length) : (xorBytes a b).length = a.length := by
  rw [xorBytes, List.length_zipWith, Nat.min_eq_left h]

lemma xorBytes_append (a s t : List UInt8) :
    xorBytes a (s ++ t) = xorBytes (a.take s.length) s ++ xorBytes (a.drop s.length) t := by
  induction s generalizing a with
  | nil => rfl
  | cons y s ih =>
    cases a with
    | nil => rfl
    | cons x a => exact congrArg (List.cons (x ^^^ y)) (ih a)

lemma xorBytes_twice {a b : List UInt8} (h : a.length ≤ b.length) : xorBytes (xorBytes a b) b = a := by
  induction a generalizing b with
  | nil => rfl
  | cons x a ih =>
    cases b with
    | nil => cases h
    | cons y b =>
      have hx : (x ^^^ y) ^^^ y = x := by rw [UInt8.xor_assoc, UInt8.xor_self, UInt8.xor_zero]
      change ((x ^^^ y) ^^^ y) :: xorBytes (xorBytes a b) b = x :: a
      rw [hx, ih (le_of_succ_le_succ h)]

lemma xorBytes_inj {a b c : List UInt8} (hb : a.length ≤ b.length) (hc : a.length ≤ c.length) :
    xorBytes a b = xorBytes a c ↔ b.take a.length = c.take a.length := by
  induction a generalizing b c with
  | nil => exact iff_of_true rfl rfl
  | cons x a ih =>
    cases b with
    | nil => cases hb
    | cons y b =>
      cases c with
      | nil => cases hc
      | cons z c =>
        have hrest := ih (le_of_succ_le_succ hb) (le_of_succ_le_succ hc)
        change (x ^^^ y) :: xorBytes a b = (x ^^^ z) :: xorBytes a c ↔ y :: b.take a.length = z :: c.take a.length
        rw [List.cons.injEq, List.cons.injEq, hrest, UInt8.xor_right_inj]

lemma keystream_take {m : ℕ} (hm : 0 < m) (hn : n ≤ 16) :
    (keystream E L nonce m i).take n = (E (counterBlock L nonce i)).toList.take n := by
  obtain ⟨m, rfl⟩ := exists_eq_succ_of_ne_zero hm.ne'
  rw [keystream, List.take_append_of_le_length (by rwa [Vector.length_toList])]

/-- Key streams whose first blocks differ agree on fewer bytes than a block, or not at all. -/
theorem keystream_agree_iff {j : ℕ} (hne : E (counterBlock L nonce i) ≠ E (counterBlock L nonce j)) :
    (keystream E L nonce ((n + 15) / 16) i).take n = (keystream E L nonce ((n + 15) / 16) j).take n ↔
      n < 16 ∧ (E (counterBlock L nonce i)).toList.take n = (E (counterBlock L nonce j)).toList.take n := by
  by_cases hzero : n = 0
  · subst hzero
    rw [List.take_zero, List.take_zero, List.take_zero, List.take_zero]
    exact iff_of_true rfl ⟨by decide, rfl⟩
  · have hm : 0 < (n + 15) / 16 := by omega
    by_cases hn : n < 16
    · rw [keystream_take hm hn.le, keystream_take hm hn.le, and_iff_right hn]
    · refine iff_of_false (fun h => hne ?_) (fun h => hn h.1)
      have hfirst := congrArg (List.take 16) h
      rw [List.take_take, List.take_take, Nat.min_eq_left (by omega), keystream_take hm le_rfl, keystream_take hm le_rfl,
        List.take_of_length_le (Nat.le_of_eq Vector.length_toList),
        List.take_of_length_le (Nat.le_of_eq Vector.length_toList)] at hfirst
      exact Vector.toList_inj.mp hfirst

end Ccm
end NodeKernel
