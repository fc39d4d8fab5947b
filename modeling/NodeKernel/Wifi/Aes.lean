import Mathlib.Data.Finite.Prod
import NodeKernel.Lib.Fips197

/-!
# AES-128

The block cipher on 16 bytes, column after column.
-/
namespace NodeKernel
namespace Aes

open Fips197 (toState keyWords)

abbrev Block := Vector UInt8 16

def sboxTable : List UInt8 := [
  0x63,0x7c,0x77,0x7b,0xf2,0x6b,0x6f,0xc5,0x30,0x01,0x67,0x2b,0xfe,0xd7,0xab,0x76,
  0xca,0x82,0xc9,0x7d,0xfa,0x59,0x47,0xf0,0xad,0xd4,0xa2,0xaf,0x9c,0xa4,0x72,0xc0,
  0xb7,0xfd,0x93,0x26,0x36,0x3f,0xf7,0xcc,0x34,0xa5,0xe5,0xf1,0x71,0xd8,0x31,0x15,
  0x04,0xc7,0x23,0xc3,0x18,0x96,0x05,0x9a,0x07,0x12,0x80,0xe2,0xeb,0x27,0xb2,0x75,
  0x09,0x83,0x2c,0x1a,0x1b,0x6e,0x5a,0xa0,0x52,0x3b,0xd6,0xb3,0x29,0xe3,0x2f,0x84,
  0x53,0xd1,0x00,0xed,0x20,0xfc,0xb1,0x5b,0x6a,0xcb,0xbe,0x39,0x4a,0x4c,0x58,0xcf,
  0xd0,0xef,0xaa,0xfb,0x43,0x4d,0x33,0x85,0x45,0xf9,0x02,0x7f,0x50,0x3c,0x9f,0xa8,
  0x51,0xa3,0x40,0x8f,0x92,0x9d,0x38,0xf5,0xbc,0xb6,0xda,0x21,0x10,0xff,0xf3,0xd2,
  0xcd,0x0c,0x13,0xec,0x5f,0x97,0x44,0x17,0xc4,0xa7,0x7e,0x3d,0x64,0x5d,0x19,0x73,
  0x60,0x81,0x4f,0xdc,0x22,0x2a,0x90,0x88,0x46,0xee,0xb8,0x14,0xde,0x5e,0x0b,0xdb,
  0xe0,0x32,0x3a,0x0a,0x49,0x06,0x24,0x5c,0xc2,0xd3,0xac,0x62,0x91,0x95,0xe4,0x79,
  0xe7,0xc8,0x37,0x6d,0x8d,0xd5,0x4e,0xa9,0x6c,0x56,0xf4,0xea,0x65,0x7a,0xae,0x08,
  0xba,0x78,0x25,0x2e,0x1c,0xa6,0xb4,0xc6,0xe8,0xdd,0x74,0x1f,0x4b,0xbd,0x8b,0x8a,
  0x70,0x3e,0xb5,0x66,0x48,0x03,0xf6,0x0e,0x61,0x35,0x57,0xb9,0x86,0xc1,0x1d,0x9e,
  0xe1,0xf8,0x98,0x11,0x69,0xd9,0x8e,0x94,0x9b,0x1e,0x87,0xe9,0xce,0x55,0x28,0xdf,
  0x8c,0xa1,0x89,0x0d,0xbf,0xe6,0x42,0x68,0x41,0x99,0x2d,0x0f,0xb0,0x54,0xbb,0x16]

def sbox (b : UInt8) : UInt8 := sboxTable.getD b.toNat 0

def rcon : List UInt8 := [0x00,0x01,0x02,0x04,0x08,0x10,0x20,0x40,0x80,0x1b,0x36]

def gmulLoop : ℕ → UInt8 → UInt8 → UInt8 → UInt8
  | 0, r, _, _ => r
  | n + 1, r, a, b =>
    let r := if b &&& 1 ≠ 0 then r ^^^ a else r
    let hi := a &&& 0x80
    let a := a <<< 1
    let a := if hi ≠ 0 then a ^^^ 0x1B else a
    gmulLoop n r a (b >>> 1)

def gmul (a b : UInt8) : UInt8 := gmulLoop 8 0 a b

def subBytes (s : Block) : Block := s.map sbox

def shiftRows (s : Block) : Block :=
  #v[s[0], s[5], s[10], s[15], s[4], s[9], s[14], s[3], s[8], s[13], s[2], s[7], s[12], s[1], s[6], s[11]]

def mixColumn (s0 s1 s2 s3 : UInt8) : Vector UInt8 4 :=
  #v[gmul 2 s0 ^^^ gmul 3 s1 ^^^ s2 ^^^ s3, s0 ^^^ gmul 2 s1 ^^^ gmul 3 s2 ^^^ s3,
    s0 ^^^ s1 ^^^ gmul 2 s2 ^^^ gmul 3 s3, gmul 3 s0 ^^^ s1 ^^^ s2 ^^^ gmul 2 s3]

lemma column_lt (i : Fin 16) : i.val / 4 < 4 := by omega

lemma row_lt (i : Fin 16) : i.val % 4 < 4 := Nat.mod_lt _ (by decide)

def ofColumns (f : Fin 4 → Vector UInt8 4) : Block :=
  Vector.ofFn (fun i => (f ⟨i / 4, column_lt i⟩).get ⟨i % 4, row_lt i⟩)

def mixColumns (s : Block) : Block :=
  ofColumns (fun c => mixColumn s[4 * c.val] s[4 * c.val + 1] s[4 * c.val + 2] s[4 * c.val + 3])

def addRoundKey (s rk : Block) : Block := Vector.zipWith (fun a b => a ^^^ b) s rk

def nextKey (prev : Block) (i : ℕ) : Block :=
  let temp : Vector UInt8 4 := #v[sbox prev[13] ^^^ rcon.getD i 0, sbox prev[14], sbox prev[15], sbox prev[12]]
  let new0 : Vector UInt8 4 := #v[prev[0] ^^^ temp[0], prev[1] ^^^ temp[1], prev[2] ^^^ temp[2], prev[3] ^^^ temp[3]]
  let new4 : Vector UInt8 4 := #v[prev[4] ^^^ new0[0], prev[5] ^^^ new0[1], prev[6] ^^^ new0[2], prev[7] ^^^ new0[3]]
  let new8 : Vector UInt8 4 := #v[prev[8] ^^^ new4[0], prev[9] ^^^ new4[1], prev[10] ^^^ new4[2], prev[11] ^^^ new4[3]]
  let new12 : Vector UInt8 4 := #v[prev[12] ^^^ new8[0], prev[13] ^^^ new8[1], prev[14] ^^^ new8[2], prev[15] ^^^ new8[3]]
  ofColumns (fun c => match c with
    | 0 => new0
    | 1 => new4
    | 2 => new8
    | 3 => new12)

/-- The blocks of the expanded key. The array has eleven. -/
def aes128KeyExpand (key : Block) : ℕ → Block
  | 0 => key
  | i + 1 => nextKey (aes128KeyExpand key i) (i + 1)

def rounds (rk : ℕ → Block) : ℕ → Block → Block
  | 0, block => addRoundKey block (rk 0)
  | n + 1, block => addRoundKey (mixColumns (shiftRows (subBytes (rounds rk n block)))) (rk (n + 1))

def aes128Encrypt (block : Block) (rk : ℕ → Block) : Block :=
  addRoundKey (shiftRows (subBytes (rounds rk 9 block))) (rk 10)

lemma sbox_eq (b : UInt8) : sbox b = Fips197.sbox b := by
  apply Fips197.forall_byte (P := fun b => sbox b = Fips197.sbox b)
  decide +kernel

lemma sbox_injective : Function.Injective sbox := by
  have hnodup : (sboxTable.map UInt8.toNat).Nodup := by decide +kernel
  intro a b hab
  have hsize : sboxTable.length = 256 := by decide +kernel
  have hlen : ∀ x : UInt8, x.toNat < sboxTable.length := fun x => hsize ▸ x.toNat_lt
  rw [sbox, sbox, List.getD_eq_getElem?_getD, List.getD_eq_getElem?_getD, List.getElem?_eq_getElem (hlen a),
    List.getElem?_eq_getElem (hlen b)] at hab
  exact UInt8.toNat_inj.mp ((hnodup.of_map _).getElem_inj_iff.mp hab)

lemma gmul_eq (b : UInt8) : gmul 2 b = Fips197.mul 2 b ∧ gmul 3 b = Fips197.mul 3 b := by
  apply Fips197.forall_byte (P := fun b => gmul 2 b = Fips197.mul 2 b ∧ gmul 3 b = Fips197.mul 3 b)
  decide +kernel

lemma toState_subBytes (s : Block) : toState (subBytes s) = Fips197.subBytes (toState s) := by
  funext r c
  simp only [toState, subBytes, Vector.getElem_map, Fips197.subBytes, sbox_eq]

lemma toState_shiftRows (s : Block) : toState (shiftRows s) = Fips197.shiftRows (toState s) := by
  funext r c
  fin_cases r <;> fin_cases c <;> rfl

lemma toState_addRoundKey (s rk : Block) : toState (addRoundKey s rk) = Fips197.addRoundKey (toState s) (fun c r => toState rk r c) := by
  funext r c
  simp only [toState, addRoundKey, Vector.getElem_zipWith, Fips197.addRoundKey]

lemma toState_ofColumns (f : Fin 4 → Vector UInt8 4) (r c : Fin 4) : toState (ofColumns f) r c = (f c).get r := by
  have hdiv : (4 * c.val + r.val) / 4 = c.val := by omega
  have hmod : (4 * c.val + r.val) % 4 = r.val := by omega
  simp only [toState, ofColumns, Vector.getElem_ofFn, hdiv, hmod]

lemma mixColumn_get (w : Fips197.Word) (r : Fin 4) : (mixColumn (w 0) (w 1) (w 2) (w 3)).get r =
    gmul 2 (w r) ^^^ gmul 3 (w (r + 1)) ^^^ w (r + 2) ^^^ w (r + 3) := by
  fin_cases r
  · rfl
  · change w 0 ^^^ gmul 2 (w 1) ^^^ gmul 3 (w 2) ^^^ w 3 = gmul 2 (w 1) ^^^ gmul 3 (w 2) ^^^ w 3 ^^^ w 0
    ac_rfl
  · change w 0 ^^^ w 1 ^^^ gmul 2 (w 2) ^^^ gmul 3 (w 3) = gmul 2 (w 2) ^^^ gmul 3 (w 3) ^^^ w 0 ^^^ w 1
    ac_rfl
  · change gmul 3 (w 0) ^^^ w 1 ^^^ w 2 ^^^ gmul 2 (w 3) = gmul 2 (w 3) ^^^ gmul 3 (w 0) ^^^ w 1 ^^^ w 2
    ac_rfl

lemma toState_mixColumns (s : Block) : toState (mixColumns s) = Fips197.mixColumns (toState s) := by
  funext r c
  rw [mixColumns, toState_ofColumns]
  simp only [Fips197.mixColumns, ← (gmul_eq _).1, ← (gmul_eq _).2]
  exact mixColumn_get (fun r => toState s r c) r

lemma nextKey_first (prev : Block) (i : ℕ) (r : Fin 4) : toState (nextKey prev i) r 0 =
    toState prev r 0 ^^^ (sbox (toState prev (r + 1) 3) ^^^ if r = 0 then rcon.getD i 0 else 0) := by
  rw [nextKey, toState_ofColumns]
  fin_cases r
  · rfl
  · exact congrArg (fun x => prev[1] ^^^ x) UInt8.xor_zero.symm
  · exact congrArg (fun x => prev[2] ^^^ x) UInt8.xor_zero.symm
  · exact congrArg (fun x => prev[3] ^^^ x) UInt8.xor_zero.symm

lemma nextKey_next (prev : Block) (i : ℕ) (r : Fin 4) {c : Fin 4} (hc : c ≠ 3) :
    toState (nextKey prev i) r (c + 1) = toState prev r (c + 1) ^^^ toState (nextKey prev i) r c := by
  rw [nextKey, toState_ofColumns, toState_ofColumns]
  fin_cases c
  · fin_cases r <;> rfl
  · fin_cases r <;> rfl
  · fin_cases r <;> rfl
  · exact absurd rfl hc

lemma rcon_eq : ∀ i < 10, rcon.getD (i + 1) 0 = UInt8.ofNat (Fips197.xtime^[i] 1) := by
  decide

lemma toState_keyExpand (key : Block) {i : ℕ} (hi : i ≤ 10) (c r : Fin 4) :
    toState (aes128KeyExpand key i) r c = Fips197.keyWord (keyWords key) (4 * i + c.val) r := by
  induction i generalizing c r with
  | zero =>
    rw [Fips197.keyWord, dif_pos (by omega)]
    simp only [Nat.mul_zero, Nat.zero_add]
    rfl
  | succ i ih =>
    have hprev := ih (by omega)
    have hfirst : ∀ r, toState (aes128KeyExpand key (i + 1)) r 0 = Fips197.keyWord (keyWords key) (4 * (i + 1)) r := by
      intro r
      have hword : Fips197.keyWord (keyWords key) (4 * (i + 1)) = Fips197.xor (Fips197.keyWord (keyWords key) (4 * i + 0))
          (Fips197.xor (Fips197.subWord (Fips197.rotWord (Fips197.keyWord (keyWords key) (4 * i + 3)))) (Fips197.rcon (i + 1))) := by
        rw [Fips197.keyWord, dif_neg (by omega), if_pos (by omega), Nat.mul_div_cancel_left _ (by decide)]
        rfl
      have hrcon : (if r = 0 then rcon.getD (i + 1) 0 else 0) = Fips197.rcon (i + 1) r := by
        rw [rcon_eq i (by omega)]
        rfl
      rw [aes128KeyExpand, nextKey_first, hprev, hprev, sbox_eq, hrcon, hword]
      rfl
    have hnext : ∀ c : Fin 4, c ≠ 3 →
        (∀ r, toState (aes128KeyExpand key (i + 1)) r c = Fips197.keyWord (keyWords key) (4 * (i + 1) + c.val) r) →
        ∀ r, toState (aes128KeyExpand key (i + 1)) r (c + 1) = Fips197.keyWord (keyWords key) (4 * (i + 1) + (c + 1).val) r := by
      intro c hc hcol r
      have hval : (c + 1).val = c.val + 1 := by
        fin_cases c
        · rfl
        · rfl
        · rfl
        · exact absurd rfl hc
      have hword : Fips197.keyWord (keyWords key) (4 * (i + 1) + (c + 1).val) =
          Fips197.xor (Fips197.keyWord (keyWords key) (4 * i + (c + 1).val)) (Fips197.keyWord (keyWords key) (4 * (i + 1) + c.val)) := by
        rw [Fips197.keyWord, dif_neg (by omega), if_neg (by omega), hval,
          show 4 * (i + 1) + (c.val + 1) - 4 = 4 * i + (c.val + 1) by omega,
          show 4 * (i + 1) + (c.val + 1) - 1 = 4 * (i + 1) + c.val by omega]
      rw [aes128KeyExpand, nextKey_next _ _ _ hc, ← aes128KeyExpand, hprev, hword, hcol]
      rfl
    have h1 := hnext 0 (by decide) hfirst
    have h2 := hnext 1 (by decide) h1
    have h3 := hnext 2 (by decide) h2
    fin_cases c
    · exact hfirst r
    · exact h1 r
    · exact h2 r
    · exact h3 r

lemma roundKey_eq (key : Block) {i : ℕ} (hi : i ≤ 10) :
    (fun c r => toState (aes128KeyExpand key i) r c) = Fips197.roundKey (keyWords key) i := by
  funext c r
  exact toState_keyExpand key hi c r

lemma toState_rounds (key block : Block) {n : ℕ} (hn : n ≤ 9) :
    toState (rounds (aes128KeyExpand key) n block) = Fips197.rounds (keyWords key) n (toState block) := by
  induction n with
  | zero => rw [rounds, toState_addRoundKey, roundKey_eq key (Nat.zero_le 10), Fips197.rounds]
  | succ n ih =>
    rw [rounds, toState_addRoundKey, toState_mixColumns, toState_shiftRows, toState_subBytes, ih (by omega),
      roundKey_eq key (by omega), Fips197.rounds]

lemma toState_aes128Encrypt (key block : Block) :
    toState (aes128Encrypt block (aes128KeyExpand key)) = Fips197.cipher (keyWords key) (toState block) := by
  rw [aes128Encrypt, toState_addRoundKey, toState_shiftRows, toState_subBytes, toState_rounds key block (Nat.le_refl 9),
    roundKey_eq key (Nat.le_refl 10), Fips197.cipher]

lemma aes128Encrypt_eq (key block : Block) : aes128Encrypt block (aes128KeyExpand key) = Fips197.aes key block := by
  rw [Fips197.aes, ← toState_aes128Encrypt, Fips197.ofState_toState]

lemma toState_injective : Function.Injective toState := Function.LeftInverse.injective Fips197.ofState_toState

lemma injective_of_toState {f : Block → Block} {g : Fips197.State → Fips197.State} (h : ∀ s, toState (f s) = g (toState s))
    (hg : Function.Injective g) : Function.Injective f := by
  intro s t hst
  apply toState_injective
  apply hg
  rw [← h, ← h, hst]

lemma addRoundKey_injective (rk : Block) : Function.Injective (fun s => addRoundKey s rk) :=
  injective_of_toState (fun s => toState_addRoundKey s rk) (Fips197.addRoundKey_injective _)

lemma subBytes_injective : Function.Injective subBytes :=
  injective_of_toState toState_subBytes (Fips197.subBytes_injective (by rw [← funext sbox_eq]; exact sbox_injective))

lemma shiftRows_injective : Function.Injective shiftRows := injective_of_toState toState_shiftRows Fips197.shiftRows_injective

lemma rounds_injective (rk : ℕ → Block) (n : ℕ) : Function.Injective (rounds rk n) := by
  induction n with
  | zero => exact addRoundKey_injective _
  | succ n ih =>
    exact (addRoundKey_injective _).comp ((injective_of_toState toState_mixColumns Fips197.mixColumns_injective).comp
      (shiftRows_injective.comp (subBytes_injective.comp ih)))

lemma aes128Encrypt_injective (rk : ℕ → Block) : Function.Injective (fun block => aes128Encrypt block rk) :=
  (addRoundKey_injective _).comp (shiftRows_injective.comp (subBytes_injective.comp (rounds_injective rk 9)))

lemma aes_injective (key : Block) : Function.Injective (Fips197.aes key) := by
  rw [← funext (aes128Encrypt_eq key)]
  exact aes128Encrypt_injective _

lemma block_finite : Finite Block := by
  have hbyte : Finite UInt8 := .of_injective UInt8.toFin (fun _ _ => UInt8.toFin_inj.mp)
  exact .of_injective toState toState_injective

/-- Whatever bytes the expanded key has, every block is the encryption of exactly one. -/
theorem aes128Encrypt_bijective (rk : ℕ → Block) : Function.Bijective (fun block => aes128Encrypt block rk) := by
  have := block_finite
  exact (aes128Encrypt_injective rk).bijective_of_finite

end Aes
end NodeKernel
