import Mathlib.Data.Fintype.Basic
import Mathlib.Tactic.FinCases

/-!
# AES-128 as FIPS 197 states it

The field of 256 elements, the S-box, the transformations of the state, the key expansion and the cipher.
-/
namespace NodeKernel
namespace Fips197

/-- A polynomial over two elements is a number, with its coefficients as the bits. This is the product with `x`, modulo
`x ^ 8 + x ^ 4 + x ^ 3 + x + 1`. -/
def xtime (p : ℕ) : ℕ := if p < 128 then 2 * p else (2 * p) ^^^ 0x11B

/-- The sum of the products of `p` with the lowest `n` terms of `q`. -/
def product : ℕ → ℕ → ℕ → ℕ
  | 0, _, _ => 0
  | n + 1, p, q => (if q % 2 = 0 then 0 else p) ^^^ product n (xtime p) (q / 2)

def mul (a b : UInt8) : UInt8 := UInt8.ofNat (product 8 a.toNat b.toNat)

/-- The power with exponent `254 = 2 + 4 + ⋯ + 128`, which is the inverse of `p`; that of zero is zero. -/
def power254 (p : ℕ) : ℕ :=
  let p2 := product 8 p p
  let p4 := product 8 p2 p2
  let p8 := product 8 p4 p4
  let p16 := product 8 p8 p8
  let p32 := product 8 p16 p16
  let p64 := product 8 p32 p32
  let p128 := product 8 p64 p64
  product 8 p2 (product 8 p4 (product 8 p8 (product 8 p16 (product 8 p32 (product 8 p64 p128)))))

def inverse (b : UInt8) : UInt8 := UInt8.ofNat (power254 b.toNat)

def rotl (b : UInt8) (n : UInt8) : UInt8 := (b <<< n) ||| (b >>> (8 - n))

def affine (b : UInt8) : UInt8 := b ^^^ rotl b 1 ^^^ rotl b 2 ^^^ rotl b 3 ^^^ rotl b 4 ^^^ 0x63

def sbox (b : UInt8) : UInt8 := affine (inverse b)

abbrev State := Fin 4 → Fin 4 → UInt8

abbrev Word := Fin 4 → UInt8

def subBytes (s : State) : State := fun r c => sbox (s r c)

def shiftRows (s : State) : State := fun r c => s r (c + r)

def mixColumns (s : State) : State := fun r c => mul 2 (s r c) ^^^ mul 3 (s (r + 1) c) ^^^ s (r + 2) c ^^^ s (r + 3) c

def addRoundKey (s : State) (key : Fin 4 → Word) : State := fun r c => s r c ^^^ key c r

def rotWord (w : Word) : Word := fun i => w (i + 1)

def subWord (w : Word) : Word := fun i => sbox (w i)

def rcon (i : ℕ) : Word := fun j => if j = 0 then UInt8.ofNat (xtime^[i - 1] 1) else 0

def xor (v w : Word) : Word := fun i => v i ^^^ w i

def keyWord (key : Fin 4 → Word) (i : ℕ) : Word :=
  if h : i < 4 then key ⟨i, h⟩
  else if i % 4 = 0 then xor (keyWord key (i - 4)) (xor (subWord (rotWord (keyWord key (i - 1)))) (rcon (i / 4)))
  else xor (keyWord key (i - 4)) (keyWord key (i - 1))
termination_by i

def roundKey (key : Fin 4 → Word) (round : ℕ) : Fin 4 → Word := fun c => keyWord key (4 * round + c)

def rounds (key : Fin 4 → Word) : ℕ → State → State
  | 0, s => addRoundKey s (roundKey key 0)
  | n + 1, s => addRoundKey (mixColumns (shiftRows (subBytes (rounds key n s)))) (roundKey key (n + 1))

def cipher (key : Fin 4 → Word) (s : State) : State :=
  addRoundKey (shiftRows (subBytes (rounds key 9 s))) (roundKey key 10)

def toState (block : Vector UInt8 16) : State := fun r c => block[4 * c.val + r.val]

def ofState (s : State) : Vector UInt8 16 := Vector.ofFn (fun i => s ⟨i % 4, Nat.mod_lt _ (by decide)⟩ ⟨i / 4, by omega⟩)

def keyWords (key : Vector UInt8 16) : Fin 4 → Word := fun c r => toState key r c

def aes (key block : Vector UInt8 16) : Vector UInt8 16 := ofState (cipher (keyWords key) (toState block))

lemma ofState_toState (block : Vector UInt8 16) : ofState (toState block) = block := by
  apply Vector.ext
  intro i hi
  simp only [ofState, toState, Vector.getElem_ofFn, Nat.div_add_mod]

lemma forall_byte {P : UInt8 → Prop} (h : ∀ n : Fin 256, P (UInt8.ofNat n)) (b : UInt8) : P b := by
  have hb := h ⟨b.toNat, b.toNat_lt⟩
  rwa [UInt8.ofNat_toNat] at hb

lemma mul_two (b : UInt8) : mul 2 b = (b <<< (1 : UInt8)) ^^^ ((0x1B : UInt8) * (b >>> (7 : UInt8))) := by
  apply forall_byte (P := fun b => mul 2 b = (b <<< (1 : UInt8)) ^^^ ((0x1B : UInt8) * (b >>> (7 : UInt8))))
  decide +kernel

lemma mul_three (b : UInt8) : mul 3 b = mul 2 b ^^^ b := by
  apply forall_byte (P := fun b => mul 3 b = mul 2 b ^^^ b)
  decide +kernel

lemma top_bit (b : UInt8) : b >>> (7 : UInt8) = 0 ∨ b >>> (7 : UInt8) = 1 := by
  apply forall_byte (P := fun b => b >>> (7 : UInt8) = 0 ∨ b >>> (7 : UInt8) = 1)
  decide +kernel

lemma mul_two_xor (a b : UInt8) : mul 2 (a ^^^ b) = mul 2 a ^^^ mul 2 b := by
  have htop : (0x1B : UInt8) * ((a >>> (7 : UInt8)) ^^^ (b >>> (7 : UInt8))) =
      ((0x1B : UInt8) * (a >>> (7 : UInt8))) ^^^ ((0x1B : UInt8) * (b >>> (7 : UInt8))) := by
    obtain ha | ha := top_bit a <;> obtain hb | hb := top_bit b <;> rw [ha, hb] <;> rfl
  rw [mul_two, mul_two, mul_two, UInt8.shiftLeft_xor, UInt8.shiftRight_xor, htop]
  ac_rfl

lemma xor_xor_cancel (a b : UInt8) : a ^^^ (a ^^^ b) = b := by
  rw [← UInt8.xor_assoc, UInt8.xor_self, UInt8.zero_xor]

lemma xor_left_comm (a b c : UInt8) : a ^^^ (b ^^^ c) = b ^^^ (a ^^^ c) := by ac_rfl

/-- A byte of a mixed column, from the byte at its place and those below it. -/
def mixByte (a b c d : UInt8) : UInt8 := mul 2 a ^^^ mul 3 b ^^^ c ^^^ d

lemma mixByte_twice (a b c d : UInt8) :
    mixByte (mixByte a b c d) (mixByte b c d a) (mixByte c d a b) (mixByte d a b c) = a ^^^ mul 2 (mul 2 (a ^^^ c)) := by
  simp only [mixByte, mul_three, mul_two_xor, UInt8.xor_assoc, UInt8.xor_comm, xor_left_comm, xor_xor_cancel]

lemma mixColumns_four (s : State) : mixColumns (mixColumns (mixColumns (mixColumns s))) = s := by
  have htwice : ∀ (s : State) (r c : Fin 4), mixColumns (mixColumns s) r c = s r c ^^^ mul 2 (mul 2 (s r c ^^^ s (r + 2) c)) := by
    intro s r c
    fin_cases r
    · exact mixByte_twice (s 0 c) (s 1 c) (s 2 c) (s 3 c)
    · exact mixByte_twice (s 1 c) (s 2 c) (s 3 c) (s 0 c)
    · exact mixByte_twice (s 2 c) (s 3 c) (s 0 c) (s 1 c)
    · exact mixByte_twice (s 3 c) (s 0 c) (s 1 c) (s 2 c)
  funext r c
  have hback : r + 2 + 2 = r := by
    revert r
    decide
  rw [htwice, htwice, htwice, hback]
  simp only [mul_two_xor, UInt8.xor_comm, xor_left_comm, UInt8.xor_self, UInt8.xor_zero]

lemma mixColumns_injective : Function.Injective mixColumns := by
  intro s t hst
  rw [← mixColumns_four s, hst, mixColumns_four]

lemma shiftRows_injective : Function.Injective shiftRows := by
  intro s t hst
  funext r c
  have hback : c - r + r = c := by
    revert r c
    decide
  have hrc := congrFun (congrFun hst r) (c - r)
  rwa [shiftRows, shiftRows, hback] at hrc

lemma addRoundKey_injective (key : Fin 4 → Word) : Function.Injective (fun s => addRoundKey s key) := by
  intro s t hst
  funext r c
  exact (UInt8.xor_left_inj _).mp (congrFun (congrFun hst r) c)

lemma subBytes_injective (h : Function.Injective sbox) : Function.Injective subBytes := by
  intro s t hst
  funext r c
  exact h (congrFun (congrFun hst r) c)

end Fips197
end NodeKernel
