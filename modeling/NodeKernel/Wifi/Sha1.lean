import NodeKernel.Lib.Fips180
import Mathlib.Data.List.Basic

/-!
# SHA-1

A digest that takes its message in pieces. The bytes behind `buflen` in the buffer are old ones.
-/
namespace NodeKernel

open List Nat

open Fips180 (Five Filled rotl)

/-- `buf[off..off + bytes.len()].copy_from_slice(bytes)`. -/
def copyAt (buf : List UInt8) (off : ℕ) (bytes : List UInt8) : List UInt8 :=
  buf.take off ++ (bytes ++ buf.drop (off + bytes.length))

structure Sha1 where
  state : Five
  buf : List UInt8
  buflen : ℕ
  total : UInt64
  size : buf.length = 64
  room : buflen < 64

namespace Sha1

def loadWords (buf : List UInt8) : List UInt32 :=
  (List.range 16).foldl (fun w i => w.set i
    (UInt32.ofNat (ofBe [buf.getD (i * 4) 0, buf.getD (i * 4 + 1) 0, buf.getD (i * 4 + 2) 0, buf.getD (i * 4 + 3) 0])))
    (List.replicate 80 0)

def extendWords (w : List UInt32) : List UInt32 :=
  (List.range 64).foldl (fun w i => w.set (i + 16)
    (rotl (w.getD (i + 13) 0 ^^^ w.getD (i + 8) 0 ^^^ w.getD (i + 2) 0 ^^^ w.getD i 0) 1)) w

def round (w : List UInt32) (v : Five) (i : ℕ) : Five :=
  let (f, k) : UInt32 × UInt32 :=
    if i < 20 then ((v.b &&& v.c) ||| (~~~v.b &&& v.d), 0x5A827999)
    else if i < 40 then (v.b ^^^ v.c ^^^ v.d, 0x6ED9EBA1)
    else if i < 60 then ((v.b &&& v.c) ||| (v.b &&& v.d) ||| (v.c &&& v.d), 0x8F1BBCDC)
    else (v.b ^^^ v.c ^^^ v.d, 0xCA62C1D6)
  ⟨rotl v.a 5 + f + v.e + k + w.getD i 0, v.a, rotl v.b 30, v.c, v.d⟩

def compress (state : Five) (buf : List UInt8) : Five :=
  let v := (List.range 80).foldl (round (extendWords (loadWords buf))) state
  ⟨state.a + v.a, state.b + v.b, state.c + v.c, state.d + v.d, state.e + v.e⟩

def new : Sha1 :=
  ⟨⟨0x67452301, 0xEFCDAB89, 0x98BADCFE, 0x10325476, 0xC3D2E1F0⟩, List.replicate 64 0, 0, 0, rfl, by decide⟩

lemma copyAt_length {buf bytes : List UInt8} {off : ℕ} (h : off + bytes.length ≤ buf.length) :
    (copyAt buf off bytes).length = buf.length := by
  simp only [copyAt, length_append, length_take, length_drop]
  omega

/-- The loop of `update`: what fits into the buffer is taken, until nothing is left. -/
def absorb (h : Sha1) (data : List UInt8) : Sha1 :=
  if hdata : data = [] then h
  else
    have hpos : 0 < data.length := List.length_pos_iff.mpr hdata
    have hroom := h.room
    have hsize := h.size
    let take := min (64 - h.buflen) data.length
    let buf := copyAt h.buf h.buflen (data.take take)
    have hbuf : buf.length = 64 := by
      rw [copyAt_length (by rw [length_take]; omega), hsize]
    if hfull : h.buflen + take = 64 then
      absorb ⟨compress h.state buf, buf, 0, h.total, hbuf, by decide⟩ (data.drop take)
    else absorb ⟨h.state, buf, h.buflen + take, h.total, hbuf, by omega⟩ (data.drop take)
termination_by data.length
decreasing_by
  all_goals
    rw [length_drop]
    omega

def update (h : Sha1) (data : List UInt8) : Sha1 :=
  absorb { h with total := h.total + UInt64.ofNat data.length } data

def finalize (h : Sha1) : List UInt8 :=
  let bitLen := h.total * 8
  let buf := h.buf.set h.buflen 0x80
  let buflen := h.buflen + 1
  let (state, buf, buflen) : Five × List UInt8 × ℕ :=
    if buflen > 56 then
      let buf := copyAt buf buflen (List.replicate (64 - buflen) 0)
      (compress h.state buf, buf, 0)
    else (h.state, buf, buflen)
  let buf := copyAt buf buflen (List.replicate (56 - buflen) 0)
  let buf := copyAt buf 56 (toBe 8 bitLen.toNat)
  (compress state buf).bytes

variable {buf : List UInt8}

lemma loadWords_filled (hsize : buf.length = 64) : Filled 80 (Fips180.schedule buf) 16 (loadWords buf) :=
  Fips180.filled_words hsize (by decide) (fun t ht => by rw [Fips180.schedule, if_pos ht])

lemma extendWords_filled {w : List UInt32} (hw : Filled 80 (Fips180.schedule buf) 16 w) :
    Filled 80 (Fips180.schedule buf) 80 (extendWords w) := by
  refine Loops.foldl_range (fun i => Filled 80 (Fips180.schedule buf) (i + 16)) hw ?_
  intro i hi w hw
  have hnext := hw.set (by omega)
  have hlag : ∀ j < i + 16, w.getD j 0 = Fips180.schedule buf j := hw.2
  rw [Fips180.schedule, if_neg (by omega), ← hlag _ (by omega), ← hlag _ (by omega), ← hlag _ (by omega),
    ← hlag _ (by omega)] at hnext
  rwa [show i + 1 + 16 = i + 16 + 1 by omega]

lemma ch_eq (x y z : UInt32) : (x &&& y) ||| (~~~x &&& z) = Fips180.ch x y z := by
  apply UInt32.toBitVec_inj.mp
  apply BitVec.eq_of_getLsbD_eq
  intro i hi
  simp only [Fips180.ch, UInt32.toBitVec_or, UInt32.toBitVec_and, UInt32.toBitVec_not, UInt32.toBitVec_xor,
    BitVec.getLsbD_or, BitVec.getLsbD_and, BitVec.getLsbD_not, BitVec.getLsbD_xor, hi]
  cases x.toBitVec.getLsbD i <;> simp

lemma maj_eq (x y z : UInt32) : (x &&& y) ||| (x &&& z) ||| (y &&& z) = Fips180.maj x y z := by
  apply UInt32.toBitVec_inj.mp
  apply BitVec.eq_of_getLsbD_eq
  intro i hi
  simp only [Fips180.maj, UInt32.toBitVec_or, UInt32.toBitVec_and, UInt32.toBitVec_xor, BitVec.getLsbD_or,
    BitVec.getLsbD_and, BitVec.getLsbD_xor]
  cases x.toBitVec.getLsbD i <;> cases y.toBitVec.getLsbD i <;> simp

lemma round_eq {w : List UInt32} (hw : Filled 80 (Fips180.schedule buf) 80 w) (v : Five) {i : ℕ} (hi : i < 80) :
    round w v i = Fips180.round buf v i := by
  rw [round, Fips180.round, hw.2 i hi, Fips180.f, Fips180.k]
  split_ifs
  · rw [ch_eq]
  · rfl
  · rw [maj_eq]
  · rfl

lemma compress_eq (hsize : buf.length = 64) (state : Five) : compress state buf = Fips180.compress state buf := by
  have hw := extendWords_filled (loadWords_filled hsize)
  have hrounds : (List.range 80).foldl (round (extendWords (loadWords buf))) state =
      (List.range 80).foldl (Fips180.round buf) state := by
    apply foldl_ext
    intro v i hi
    exact round_eq hw v (mem_range.mp hi)
  rw [compress, hrounds]
  rfl

lemma copyAt_take {bytes : List UInt8} {off : ℕ} (h : off + bytes.length ≤ buf.length) :
    (copyAt buf off bytes).take (off + bytes.length) = buf.take off ++ bytes := by
  have hlen : (buf.take off ++ bytes).length = off + bytes.length := by
    rw [length_append, length_take]
    omega
  rw [copyAt, ← append_assoc, take_left' hlen]

def Took (h : Sha1) (msg : List UInt8) : Prop :=
  Absorbed Fips180.compress 64 Fips180.initial msg h.state (h.buf.take h.buflen)

lemma new_took : new.Took [] := Absorbed.nil

variable {msg : List UInt8} {h : Sha1} {state : Five}

lemma copy_absorbed {msg piece : List UInt8} {n : ℕ} (hfit : n + piece.length ≤ buf.length)
    (ha : Absorbed Fips180.compress 64 Fips180.initial msg state (buf.take n)) :
    Absorbed Fips180.compress 64 Fips180.initial (msg ++ piece) state ((copyAt buf n piece).take (n + piece.length)) := by
  rw [copyAt_take hfit]
  exact ha.push piece

lemma compress_full {msg block : List UInt8} (hblock : block.length = 64)
    (ha : Absorbed Fips180.compress 64 Fips180.initial msg state block) :
    Absorbed Fips180.compress 64 Fips180.initial msg (compress state block) [] := by
  rw [compress_eq hblock]
  exact ha.fill hblock

lemma absorb_took (ht : h.Took msg) (data : List UInt8) :
    (h.absorb data).Took (msg ++ data) ∧ (h.absorb data).total = h.total := by
  fun_induction absorb h data generalizing msg with
  | case1 h =>
    rw [append_nil]
    exact ⟨ht, rfl⟩
  | case2 h data hdata hpos hroom hsize take buf hbuf hfull =>
    rename_i ih
    have hpiece : (data.take take).length = take := by
      rw [length_take]
      omega
    have hcopy := copy_absorbed (show h.buflen + (data.take take).length ≤ h.buf.length by omega) ht
    rw [hpiece, hfull, take_of_length_le hbuf.le] at hcopy
    have hnext := ih (compress_full hbuf hcopy)
    rwa [append_assoc, take_append_drop] at hnext
  | case3 h data hdata hpos hroom hsize take buf hbuf hfull =>
    rename_i ih
    have hpiece : (data.take take).length = take := by
      rw [length_take]
      omega
    have hcopy := copy_absorbed (show h.buflen + (data.take take).length ≤ h.buf.length by omega) ht
    rw [hpiece] at hcopy
    have hnext := ih hcopy
    rwa [append_assoc, take_append_drop] at hnext

structure Digests (h : Sha1) (msg : List UInt8) : Prop where
  took : h.Took msg
  total : h.total = UInt64.ofNat msg.length

lemma Digests.update (hd : h.Digests msg) (data : List UInt8) : (h.update data).Digests (msg ++ data) := by
  obtain ⟨htook, htotal⟩ := absorb_took (h := { h with total := h.total + UInt64.ofNat data.length }) hd.took data
  refine ⟨htook, ?_⟩
  rw [Sha1.update, htotal, hd.total, length_append, UInt64.ofNat_add]

lemma Digests.updates (hd : h.Digests msg) (pieces : List (List UInt8)) :
    (pieces.foldl Sha1.update h).Digests (msg ++ pieces.flatten) := by
  induction pieces generalizing h msg with
  | nil => rwa [flatten_nil, append_nil]
  | cons piece pieces ih =>
    rw [foldl_cons, flatten_cons, ← append_assoc]
    exact ih (hd.update piece)

lemma new_digests : new.Digests [] := ⟨new_took, rfl⟩

lemma last_block {msg len : List UInt8} {n : ℕ} (hsize : buf.length = 64) (hn : n ≤ 56) (hlen : len.length = 8)
    (ha : Absorbed Fips180.compress 64 Fips180.initial msg state (buf.take n)) :
    Absorbed Fips180.compress 64 Fips180.initial (msg ++ (List.replicate (56 - n) 0 ++ len))
      (compress state (copyAt (copyAt buf n (List.replicate (56 - n) 0)) 56 len)) [] := by
  have hzeros : n + (replicate (56 - n) (0 : UInt8)).length = 56 := by
    rw [length_replicate]
    omega
  have hcopy := copy_absorbed (hzeros.trans_le (by omega)) ha
  rw [hzeros] at hcopy
  have hbuf : (copyAt buf n (replicate (56 - n) 0)).length = 64 := by
    rw [copyAt_length (by omega), hsize]
  have hfull := copy_absorbed (show 56 + len.length ≤ _ by omega) hcopy
  have hblock : (copyAt (copyAt buf n (replicate (56 - n) 0)) 56 len).length = 64 := by
    rw [copyAt_length (by omega), hbuf]
  rw [hlen, take_of_length_le hblock.le, append_assoc] at hfull
  exact compress_full hblock hfull

lemma Digests.finalize (hd : h.Digests msg) : h.finalize = Fips180.sha1 msg := by
  have hroom := h.room
  have hsize := h.size
  have htail : (h.buf.take h.buflen).length = h.buflen := by
    rw [length_take]
    omega
  have hmod := Absorbed.length_mod hd.took (htail.trans_lt hroom)
  rw [htail] at hmod
  have hbits : toBe 8 (h.total * 8).toNat = toBe 8 (8 * msg.length) := by
    have htotal : (h.total * 8).toNat = 8 * msg.length % 256 ^ 8 := by
      rw [hd.total, UInt64.toNat_mul, UInt64.toNat_ofNat', Nat.mod_mul_mod, Nat.mul_comm]
      rfl
    rw [htotal, toBe_mod]
  have hset : h.buf.set h.buflen 0x80 = copyAt h.buf h.buflen [0x80] := by
    rw [set_eq_take_append_cons_drop, if_pos (by omega)]
    rfl
  have hone := copy_absorbed (show h.buflen + [(0x80 : UInt8)].length ≤ h.buf.length from Nat.lt_of_lt_of_eq hroom hsize.symm) hd.took
  have hbuf : (copyAt h.buf h.buflen [0x80]).length = 64 := by
    rw [copyAt_length (show h.buflen + 1 ≤ h.buf.length by omega), hsize]
  suffices hall : ∃ final, h.finalize = final.bytes ∧ Absorbed Fips180.compress 64 Fips180.initial (Fips180.pad msg) final [] by
    obtain ⟨final, hfinal, hdone⟩ := hall
    rw [hfinal, hdone.done (by decide), Fips180.sha1]
  by_cases hlong : h.buflen + 1 > 56
  · -- the length does not fit behind the one bit: it goes into a block of its own
    have hzeros : h.buflen + 1 + (List.replicate (64 - (h.buflen + 1)) (0 : UInt8)).length = 64 := by
      rw [length_replicate]
      omega
    have hfirst := copy_absorbed (hzeros.trans_le (by omega)) hone
    have hblock : (copyAt (copyAt h.buf h.buflen [0x80]) (h.buflen + 1) (List.replicate (64 - (h.buflen + 1)) 0)).length = 64 := by
      rw [copyAt_length (by omega), hbuf]
    rw [hzeros, take_of_length_le hblock.le] at hfirst
    have hlast := last_block hblock (Nat.zero_le 56) (toBe_length 8 (8 * msg.length)) (compress_full hblock hfirst)
    have hpad : msg ++ [0x80] ++ List.replicate (64 - (h.buflen + 1)) 0 ++
        (List.replicate (56 - 0) 0 ++ toBe 8 (8 * msg.length)) = Fips180.pad msg := by
      rw [Fips180.pad, Fips180.padding, hmod, show (119 - h.buflen) % 64 = 64 - (h.buflen + 1) + (56 - 0) by omega,
        ← replicate_append_replicate]
      simp only [append_assoc, cons_append, nil_append]
    rw [hpad] at hlast
    refine ⟨_, ?_, hlast⟩
    rw [Sha1.finalize, hset, hbits]
    simp only [if_pos hlong]
  · have hlast := last_block hbuf (Nat.le_of_not_lt hlong) (toBe_length 8 (8 * msg.length)) hone
    have hpad : msg ++ [0x80] ++ (List.replicate (56 - (h.buflen + 1)) 0 ++ toBe 8 (8 * msg.length)) = Fips180.pad msg := by
      rw [Fips180.pad, Fips180.padding, hmod, show (119 - h.buflen) % 64 = 56 - (h.buflen + 1) by omega]
      simp only [append_assoc, cons_append, nil_append]
    rw [hpad] at hlast
    refine ⟨_, ?_, hlast⟩
    rw [Sha1.finalize, hset, hbits]
    simp only [if_neg hlong]

/-- The digest of a message, however it is cut into pieces. -/
theorem finalize_updates (pieces : List (List UInt8)) : (pieces.foldl update new).finalize = Fips180.sha1 pieces.flatten :=
  (new_digests.updates pieces).finalize

end Sha1
end NodeKernel
