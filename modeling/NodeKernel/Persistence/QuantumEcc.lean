import Mathlib.Data.List.Basic
import Mathlib.Tactic.IntervalCases

/-!
# The check bytes of the self-model

`quantum_ecc`: a byte is two nibbles, and each nibble has a check byte with a codeword of seven bits. The repair looks
at the codeword alone, and takes the syndrome for the place of the bit.
-/
namespace NodeKernel.QuantumEcc

def encodeNibble (d : UInt8) : UInt8 :=
  let d0 := (d >>> 0) &&& 1
  let d1 := (d >>> 1) &&& 1
  let d2 := (d >>> 2) &&& 1
  let d3 := (d >>> 3) &&& 1
  let p1 := d0 ^^^ d1 ^^^ d2
  let p2 := d0 ^^^ d1 ^^^ d3
  let p4 := d0 ^^^ d2 ^^^ d3
  d0 ||| (d1 <<< 1) ||| (d2 <<< 2) ||| (d3 <<< 3) ||| (p1 <<< 4) ||| (p2 <<< 5) ||| (p4 <<< 6)

def decodeCodeword (c : UInt8) : UInt8 × Bool :=
  let bit (i : UInt8) := (c >>> i) &&& 1
  let s1 := bit 0 ^^^ bit 1 ^^^ bit 2 ^^^ bit 4
  let s2 := bit 0 ^^^ bit 1 ^^^ bit 3 ^^^ bit 5
  let s4 := bit 0 ^^^ bit 2 ^^^ bit 3 ^^^ bit 6
  let syndrome := s1 ||| (s2 <<< 1) ||| (s4 <<< 2)
  let repaired := syndrome != 0
  let c := if repaired && syndrome ≤ 7 then c ^^^ (1 <<< (syndrome - 1)) else c
  (c &&& 0x0F, repaired)

def encode (data : List UInt8) : List UInt8 :=
  data.flatMap (fun byte => [encodeNibble (byte &&& 0x0F), encodeNibble ((byte >>> 4) &&& 0x0F)])

/-- The turn of the loop of `verify_and_repair` for one byte: the byte after it, whether there is an error, and how many
nibbles are repaired. -/
def repairByte (byte loCw hiCw : UInt8) : UInt8 × Bool × UInt32 :=
  let loMismatch := loCw != encodeNibble (byte &&& 0x0F)
  let hiMismatch := hiCw != encodeNibble ((byte >>> 4) &&& 0x0F)
  let (byte, repaired) : UInt8 × UInt32 :=
    if loMismatch then
      let (nibble, fixed) := decodeCodeword loCw
      if fixed then ((byte &&& 0xF0) ||| (nibble &&& 0x0F), 1) else (byte, 0)
    else (byte, 0)
  let (byte, repaired) : UInt8 × UInt32 :=
    if hiMismatch then
      let (nibble, fixed) := decodeCodeword hiCw
      if fixed then ((byte &&& 0x0F) ||| ((nibble &&& 0x0F) <<< (4 : UInt8)), repaired + 1) else (byte, repaired)
    else (byte, repaired)
  (byte, loMismatch || hiMismatch, repaired)

def repairLoop : List UInt8 → List UInt8 → List UInt8 × Bool × UInt32
  | byte :: data, loCw :: hiCw :: ecc =>
    let (byte, error, repaired) := repairByte byte loCw hiCw
    let (data, errors, repairs) := repairLoop data ecc
    (byte :: data, error || errors, repaired + repairs)
  | data, _ => (data, false, 0)

def verifyAndRepair (data ecc : List UInt8) : List UInt8 × Bool × UInt32 :=
  if ecc.length ≠ data.length * 2 then (data, false, 0) else repairLoop data ecc

/-! ## One nibble -/

def repairNibble (nibble cw : UInt8) : UInt8 :=
  if cw != encodeNibble nibble && (decodeCodeword cw).2 then (decodeCodeword cw).1 else nibble

/-- A change of at most one bit of a nibble and its check byte. -/
inductive Flip
  | none
  | data (i : Fin 4)
  | check (i : Fin 8)
  deriving DecidableEq

namespace Flip

def onNibble : Flip → UInt8
  | data i => 1 <<< UInt8.ofNat i
  | _ => 0

def onCheck : Flip → UInt8
  | check i => 1 <<< UInt8.ofNat i
  | _ => 0

/-- Nothing is changed but the top bit of the check byte, which is not used. -/
def Unused (f : Flip) : Prop := f = none ∨ f = check (Fin.last 7)

instance (f : Flip) : Decidable f.Unused := inferInstanceAs (Decidable (_ ∨ _))

end Flip

/-- A nibble is right after the repair only if it was right before, and so were the seven bits of its codeword. -/
theorem repairNibble_iff : ∀ (n : Fin 16) (f : Flip),
    repairNibble (UInt8.ofNat n ^^^ f.onNibble) (encodeNibble (UInt8.ofNat n) ^^^ f.onCheck) = UInt8.ofNat n ↔ f.Unused
  | n, .none => by revert n; decide
  | n, .data i => by revert n i; decide
  | n, .check i => by revert n i; decide

/-! ## The nibbles of a byte -/

def low (b : UInt8) : UInt8 := b &&& 0x0F

def high (b : UInt8) : UInt8 := (b >>> 4) &&& 0x0F

variable (a b m n : UInt8)

lemma eq_of_bits {a b : UInt8} (h : ∀ i < 8, a.toBitVec.getLsbD i = b.toBitVec.getLsbD i) : a = b :=
  UInt8.toBitVec_inj.mp (BitVec.eq_of_getLsbD_eq h)

lemma low_setLow : low ((a &&& 0xF0) ||| (n &&& 0x0F)) = n &&& 0x0F := by
  apply eq_of_bits
  intro i hi
  interval_cases i <;> simp [low]

lemma high_setLow : high ((a &&& 0xF0) ||| (n &&& 0x0F)) = high a := by
  apply eq_of_bits
  intro i hi
  interval_cases i <;> simp [high]

lemma low_setHigh : low ((a &&& 0x0F) ||| ((n &&& 0x0F) <<< (4 : UInt8))) = low a := by
  apply eq_of_bits
  intro i hi
  interval_cases i <;> simp [low]

lemma high_setHigh : high ((a &&& 0x0F) ||| ((n &&& 0x0F) <<< (4 : UInt8))) = n &&& 0x0F := by
  apply eq_of_bits
  intro i hi
  interval_cases i <;> simp [high]

lemma join_nibbles : low b ||| (high b <<< (4 : UInt8)) = b := by
  apply eq_of_bits
  intro i hi
  interval_cases i <;> simp [low, high]

lemma eq_iff_nibbles : a = b ↔ low a = low b ∧ high a = high b := by
  constructor
  · rintro rfl
    exact ⟨rfl, rfl⟩
  · rintro ⟨hlow, hhigh⟩
    rw [← join_nibbles a, ← join_nibbles b, hlow, hhigh]

lemma nibble_lt : (n &&& 0x0F).toNat < 16 := by
  rw [UInt8.toNat_and]
  exact Nat.lt_succ_of_le Nat.and_le_right

def corruptByte (b : UInt8) (f : Flip × Flip) : UInt8 :=
  b ^^^ ((f.1.onNibble &&& 0x0F) ||| ((f.2.onNibble &&& 0x0F) <<< (4 : UInt8)))

lemma low_xor : low (b ^^^ ((m &&& 0x0F) ||| ((n &&& 0x0F) <<< (4 : UInt8)))) = low b ^^^ (m &&& 0x0F) := by
  apply eq_of_bits
  intro i hi
  interval_cases i <;> simp [low]

lemma high_xor : high (b ^^^ ((m &&& 0x0F) ||| ((n &&& 0x0F) <<< (4 : UInt8)))) = high b ^^^ (n &&& 0x0F) := by
  apply eq_of_bits
  intro i hi
  interval_cases i <;> simp [high]

lemma Flip.onNibble_and : ∀ f : Flip, f.onNibble &&& 0x0F = f.onNibble
  | .none => rfl
  | .data i => by revert i; decide
  | .check i => by revert i; decide

lemma decodeCodeword_and (c : UInt8) : (decodeCodeword c).1 &&& 0x0F = (decodeCodeword c).1 := by
  simp only [decodeCodeword, UInt8.and_assoc]
  rfl

lemma repairByte_nibbles (byte loCw hiCw : UInt8) : low (repairByte byte loCw hiCw).1 = repairNibble (low byte) loCw ∧
    high (repairByte byte loCw hiCw).1 = repairNibble (high byte) hiCw := by
  have hlo := decodeCodeword_and loCw
  have hhi := decodeCodeword_and hiCw
  unfold repairByte repairNibble
  change low _ = (if loCw != encodeNibble (byte &&& 0x0F) && _ then _ else _) ∧
    high _ = (if hiCw != encodeNibble ((byte >>> 4) &&& 0x0F) && _ then _ else _)
  generalize decodeCodeword loCw = lo at *
  generalize decodeCodeword hiCw = hi at *
  obtain ⟨loNibble, loFixed⟩ := lo
  obtain ⟨hiNibble, hiFixed⟩ := hi
  -- a nibble is set if its check byte is not the expected one and has a syndrome
  cases loCw != encodeNibble (byte &&& 0x0F) <;> cases hiCw != encodeNibble ((byte >>> 4) &&& 0x0F) <;>
    cases loFixed <;> cases hiFixed <;> simp [low_setLow, high_setLow, low_setHigh, high_setHigh] <;> simp_all

/-- A byte is right after the repair only if nothing of it was changed but unused bits. -/
theorem repairByte_iff (b : UInt8) (f : Flip × Flip) :
    (repairByte (corruptByte b f) (encodeNibble (low b) ^^^ f.1.onCheck) (encodeNibble (high b) ^^^ f.2.onCheck)).1 = b ↔
      f.1.Unused ∧ f.2.Unused := by
  obtain ⟨hlow, hhigh⟩ := repairByte_nibbles (corruptByte b f) (encodeNibble (low b) ^^^ f.1.onCheck)
    (encodeNibble (high b) ^^^ f.2.onCheck)
  have hl : UInt8.ofNat (low b).toNat = low b := UInt8.ofNat_toNat
  have hh : UInt8.ofNat (high b).toNat = high b := UInt8.ofNat_toNat
  have hlf := repairNibble_iff ⟨(low b).toNat, nibble_lt _⟩ f.1
  have hhf := repairNibble_iff ⟨(high b).toNat, nibble_lt _⟩ f.2
  simp only [hl, hh] at hlf hhf
  rw [eq_iff_nibbles, hlow, hhigh, corruptByte, low_xor, high_xor, f.1.onNibble_and, f.2.onNibble_and, hlf, hhf]

/-! ## Buffers -/

def corruptData (data : List UInt8) (flips : List (Flip × Flip)) : List UInt8 := List.zipWith corruptByte data flips

def corruptEcc (ecc : List UInt8) (flips : List (Flip × Flip)) : List UInt8 :=
  List.zipWith (· ^^^ ·) ecc (flips.flatMap (fun f => [f.1.onCheck, f.2.onCheck]))

lemma repairLoop_iff (data : List UInt8) (flips : List (Flip × Flip)) (hlen : flips.length = data.length) :
    (repairLoop (corruptData data flips) (corruptEcc (encode data) flips)).1 = data ↔ ∀ f ∈ flips, f.1.Unused ∧ f.2.Unused := by
  induction data generalizing flips with
  | nil =>
    obtain rfl := List.eq_nil_of_length_eq_zero hlen
    exact iff_of_true rfl nofun
  | cons b data ih =>
    cases flips with
    | nil => cases hlen
    | cons f flips =>
      rw [List.forall_mem_cons, ← ih flips (Nat.succ.inj hlen), ← repairByte_iff b f]
      exact List.cons_eq_cons

/-- For every buffer and every change of at most one bit of each nibble and its check byte, the buffer is restored only
if there is nothing to restore. -/
theorem verifyAndRepair_iff (data : List UInt8) (flips : List (Flip × Flip)) (hlen : flips.length = data.length) :
    (verifyAndRepair (corruptData data flips) (corruptEcc (encode data) flips)).1 = data ↔
      ∀ f ∈ flips, f.1.Unused ∧ f.2.Unused := by
  have hcheck : (corruptEcc (encode data) flips).length = (corruptData data flips).length * 2 := by
    simp [corruptEcc, corruptData, encode, hlen]
  rw [verifyAndRepair, if_neg (not_not.mpr hcheck)]
  exact repairLoop_iff data flips hlen

theorem verifyAndRepair_iff_unused :
    (verifyAndRepair (corruptData [0xA5] [(.none, .check 7)]) (corruptEcc (encode [0xA5]) [(.none, .check 7)])).1 = [0xA5] ↔
      ∀ f ∈ [((.none, .check 7) : Flip × Flip)], f.1.Unused ∧ f.2.Unused :=
  verifyAndRepair_iff [0xA5] [(.none, .check 7)] rfl

/-- A bit of the buffer stays wrong, and a bit of the codeword makes the buffer wrong. -/
theorem flipped_bit_is_not_repaired :
    (verifyAndRepair (corruptData [0xA5] [(.data 0, .none)]) (corruptEcc (encode [0xA5]) [(.data 0, .none)])).1 = [0xA4] ∧
      (verifyAndRepair (corruptData [0xA5] [(.check 4, .none)]) (corruptEcc (encode [0xA5]) [(.check 4, .none)])).1 =
        [0xA4] := by
  decide

end NodeKernel.QuantumEcc
