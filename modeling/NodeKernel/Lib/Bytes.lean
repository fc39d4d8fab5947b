import Mathlib.Data.Nat.Digits.Defs

/-!
# Bytes and byte memory

The bytes of a number of fixed width, least significant first, the number that a sequence of
bytes denotes, and a memory of bytes with 64-bit words in it.
-/
namespace NodeKernel

open Function List Nat

def toLe : ℕ → ℕ → List UInt8
  | 0, _ => []
  | w + 1, v => UInt8.ofNat v :: toLe w (v / 256)

def ofLe (bytes : List UInt8) : ℕ := Nat.ofDigits 256 (bytes.map UInt8.toNat)

@[simp] lemma toLe_length (w v : ℕ) : (toLe w v).length = w := by
  induction w generalizing v with
  | zero => rfl
  | succ w ih => rw [toLe, length_cons, ih]

lemma ofLe_cons (b : UInt8) (bytes : List UInt8) : ofLe (b :: bytes) = b.toNat + 256 * ofLe bytes := ofDigits_cons

lemma ofLe_lt (bytes : List UInt8) : ofLe bytes < 256 ^ bytes.length := by
  induction bytes with
  | nil => exact one_pos
  | cons b bytes ih =>
    have hb : b.toNat < 256 := b.toNat_lt
    rw [ofLe_cons, length_cons, pow_succ]
    omega

lemma ofLe_toLe (w v : ℕ) : ofLe (toLe w v) = v % 256 ^ w := by
  induction w generalizing v with
  | zero => rw [pow_zero, mod_one]; rfl
  | succ w ih =>
    rw [toLe, ofLe_cons, ih, pow_succ', mod_mul, UInt8.toNat_ofNat']

lemma ofLe_toLe_of_lt {w v : ℕ} (h : v < 256 ^ w) : ofLe (toLe w v) = v := by
  rw [ofLe_toLe, mod_eq_of_lt h]

lemma toLe_ofLe (bytes : List UInt8) : toLe bytes.length (ofLe bytes) = bytes := by
  induction bytes with
  | nil => rfl
  | cons b bytes ih =>
    have hb : b.toNat < 256 := b.toNat_lt
    have hdiv : (b.toNat + 256 * ofLe bytes) / 256 = ofLe bytes := by omega
    have hlow : UInt8.ofNat (b.toNat + 256 * ofLe bytes) = b := by
      apply UInt8.toNat_inj.mp
      rw [UInt8.toNat_ofNat', add_mul_mod_self_left, mod_eq_of_lt hb]
    rw [length_cons, ofLe_cons, toLe, hdiv, hlow, ih]

lemma toLe_mod (w v : ℕ) : toLe w (v % 256 ^ w) = toLe w v := by
  have h := toLe_ofLe (toLe w v)
  rwa [toLe_length, ofLe_toLe] at h

lemma ofLe_byte (bytes : List UInt8) (k : ℕ) : UInt8.ofNat (ofLe bytes / 256 ^ k) = (bytes[k]?).getD 0 := by
  induction bytes generalizing k with
  | nil =>
    have hzero : ofLe [] = 0 := rfl
    rw [hzero, Nat.zero_div, getElem?_nil]
    rfl
  | cons b bytes ih =>
    cases k with
    | zero =>
      rw [ofLe_cons, pow_zero, Nat.div_one, getElem?_cons_zero, Option.getD_some]
      apply UInt8.toNat_inj.mp
      rw [UInt8.toNat_ofNat', add_mul_mod_self_left, mod_eq_of_lt b.toNat_lt]
    | succ k =>
      have hdiv : (b.toNat + 256 * ofLe bytes) / 256 = ofLe bytes := by
        have hb : b.toNat < 256 := b.toNat_lt
        omega
      rw [ofLe_cons, pow_succ', ← Nat.div_div_eq_div_mul, hdiv, ih, getElem?_cons_succ]

lemma drop_take_four {l : List UInt8} {i : ℕ} (h : i + 4 ≤ l.length) :
    (l.drop i).take 4 = [l.getD i 0, l.getD (i + 1) 0, l.getD (i + 2) 0, l.getD (i + 3) 0] := by
  rw [drop_eq_getElem_cons (by omega), drop_eq_getElem_cons (by omega), drop_eq_getElem_cons (by omega),
    drop_eq_getElem_cons (by omega)]
  simp only [getD_eq_getElem?_getD, getElem?_eq_getElem (show i < l.length by omega),
    getElem?_eq_getElem (show i + 1 < l.length by omega), getElem?_eq_getElem (show i + 2 < l.length by omega),
    getElem?_eq_getElem (show i + 3 < l.length by omega), Option.getD_some]
  rfl

lemma toLe_inj {w a b : ℕ} {s t : List UInt8} (ha : a < 256 ^ w) (hb : b < 256 ^ w)
    (h : toLe w a ++ s = toLe w b ++ t) : a = b ∧ s = t := by
  obtain ⟨hab, hst⟩ := append_inj h (by rw [toLe_length, toLe_length])
  refine ⟨?_, hst⟩
  rw [← ofLe_toLe_of_lt ha, hab, ofLe_toLe_of_lt hb]

lemma flatMap_inj {α β : Type} {f : α → List β} (hf : ∀ {a b s t}, f a ++ s = f b ++ t → a = b ∧ s = t) {l₁ l₂ : List α}
    {s t : List β} (hlen : l₁.length = l₂.length) (h : l₁.flatMap f ++ s = l₂.flatMap f ++ t) : l₁ = l₂ ∧ s = t := by
  induction l₁ generalizing l₂ with
  | nil =>
    obtain rfl := length_eq_zero_iff.mp hlen.symm
    exact ⟨rfl, h⟩
  | cons a l₁ ih =>
    cases l₂ with
    | nil => cases hlen
    | cons b l₂ =>
      simp only [flatMap_cons, append_assoc] at h
      obtain ⟨rfl, htail⟩ := hf h
      exact (ih (succ_inj.mp hlen) htail).imp_left (congrArg _)

lemma flatMap_length {α β : Type} {f : α → List β} {k : ℕ} (hf : ∀ a, (f a).length = k) (l : List α) :
    (l.flatMap f).length = l.length * k := by
  simp [length_flatMap, hf, map_const']

def leAt (data : List UInt8) (off n : ℕ) : ℕ := ofLe ((data.drop off).take n)

lemma leAt_toLe {front : List UInt8} {off n : ℕ} (hfront : front.length = off) (v : ℕ) (rest : List UInt8) :
    leAt (front ++ (toLe n v ++ rest)) off n = v % 256 ^ n := by
  subst hfront
  rw [leAt, drop_left, take_append_of_le_length (toLe_length n v).ge, take_of_length_le (toLe_length n v).le, ofLe_toLe]

lemma leAt_field {front : List UInt8} {off n v : ℕ} (hfront : front.length = off) (hv : v < 256 ^ n) (rest : List UInt8) :
    leAt (front ++ (toLe n v ++ rest)) off n = v := by
  rw [leAt_toLe hfront, mod_eq_of_lt hv]

lemma leAt_first {n v : ℕ} (hv : v < 256 ^ n) (rest : List UInt8) : leAt (toLe n v ++ rest) 0 n = v :=
  leAt_field length_nil hv rest

lemma leAt_lt (data : List UInt8) (off n : ℕ) : leAt data off n < 256 ^ n :=
  (ofLe_lt _).trans_le (Nat.pow_le_pow_right (by decide) (length_take_le _ _))

lemma leAt_skip {front rest : List UInt8} {off n : ℕ} (h : front.length ≤ off) :
    leAt (front ++ rest) off n = leAt rest (off - front.length) n := by
  rw [leAt, leAt, drop_append, drop_of_length_le h, nil_append]

lemma leAt_drop (data : List UInt8) (pos off n : ℕ) : leAt (data.drop pos) off n = leAt data (pos + off) n := by
  rw [leAt, leAt, drop_drop]

lemma take_leAt {data : List UInt8} {pos w : ℕ} (h : pos + w ≤ data.length) : data.take (pos + w) = data.take pos ++ toLe w (leAt data pos w) := by
  have hback := toLe_ofLe ((data.drop pos).take w)
  rw [length_take, length_drop, min_eq_left (by omega)] at hback
  rw [take_add, leAt, hback]

def toBe (w v : ℕ) : List UInt8 := (toLe w v).reverse

def ofBe (bytes : List UInt8) : ℕ := ofLe bytes.reverse

@[simp] lemma toBe_length (w v : ℕ) : (toBe w v).length = w := by rw [toBe, length_reverse, toLe_length]

lemma toBe_mod (w v : ℕ) : toBe w (v % 256 ^ w) = toBe w v := by rw [toBe, toLe_mod, toBe]

lemma ofBe_toBe (w v : ℕ) : ofBe (toBe w v) = v % 256 ^ w := by
  unfold ofBe toBe
  rw [reverse_reverse, ofLe_toLe]

def wordByte (word i : ℕ) : UInt8 := UInt8.ofNat (word / 256 ^ i)

def setWordByte (word i : ℕ) (b : UInt8) : ℕ :=
  word / 256 ^ (i + 1) * 256 ^ (i + 1) + b.toNat * 256 ^ i + word % 256 ^ i

lemma wordByte_sum {q r i : ℕ} (b : UInt8) (hr : r < 256 ^ i) (j : ℕ) : wordByte (q * 256 ^ (i + 1) + b.toNat * 256 ^ i + r) j =
      if j < i then wordByte r j else if j = i then b else wordByte q (j - (i + 1)) := by
  have hb : b.toNat < 256 := b.toNat_lt
  unfold wordByte
  apply UInt8.toNat_inj.mp
  split
  · next hlt =>
    obtain ⟨k, rfl⟩ := Nat.exists_eq_add_of_lt hlt
    have hsplit : q * 256 ^ (j + k + 1 + 1) + b.toNat * 256 ^ (j + k + 1) + r =
        r + 256 ^ j * (256 * ((q * 256 + b.toNat) * 256 ^ k)) := by ring
    rw [UInt8.toNat_ofNat', UInt8.toNat_ofNat', hsplit, add_mul_div_left _ _ (by positivity), add_mul_mod_self_left]
  · next hge =>
    split
    · next heq =>
      subst heq
      have hsplit : q * 256 ^ (j + 1) + b.toNat * 256 ^ j + r = r + 256 ^ j * (b.toNat + 256 * q) := by ring
      rw [UInt8.toNat_ofNat', hsplit, add_mul_div_left _ _ (by positivity), div_eq_of_lt hr, Nat.zero_add,
        add_mul_mod_self_left, mod_eq_of_lt hb]
    · next hne =>
      obtain ⟨k, rfl⟩ := Nat.exists_eq_add_of_lt (show i < j by omega)
      have hlow : b.toNat * 256 ^ i + r < 256 ^ (i + 1) := by
        calc b.toNat * 256 ^ i + r < b.toNat * 256 ^ i + 256 ^ i := by omega
          _ = (b.toNat + 1) * 256 ^ i := by ring
          _ ≤ 256 * 256 ^ i := Nat.mul_le_mul_right _ hb
          _ = 256 ^ (i + 1) := by ring
      have hpow : 256 ^ (i + k + 1) = 256 ^ (i + 1) * 256 ^ k := by ring
      rw [show i + k + 1 - (i + 1) = k by omega, hpow, ← Nat.div_div_eq_div_mul, Nat.add_assoc,
        Nat.mul_comm q, mul_add_div (by positivity), div_eq_of_lt hlow, Nat.add_zero]

lemma wordByte_setWordByte (word i j : ℕ) (b : UInt8) :
    wordByte (setWordByte word i b) j = if j = i then b else wordByte word j := by
  have hlow : word % 256 ^ i < 256 ^ i := mod_lt _ (by positivity)
  have hword : word = word / 256 ^ (i + 1) * 256 ^ (i + 1) + (wordByte word i).toNat * 256 ^ i + word % 256 ^ i := by
    have hmid : (wordByte word i).toNat = word / 256 ^ i % 256 := UInt8.toNat_ofNat' ..
    rw [hmid, pow_succ, ← Nat.div_div_eq_div_mul]
    have h1 := div_add_mod' word (256 ^ i)
    have h2 := div_add_mod' (word / 256 ^ i) 256
    calc word = word / 256 ^ i * 256 ^ i + word % 256 ^ i := h1.symm
      _ = (word / 256 ^ i / 256 * 256 + word / 256 ^ i % 256) * 256 ^ i + word % 256 ^ i := by rw [h2]
      _ = _ := by ring
  have hself : wordByte word j = if j < i then wordByte (word % 256 ^ i) j
      else if j = i then wordByte word i else wordByte (word / 256 ^ (i + 1)) (j - (i + 1)) :=
    (congrArg (fun w => wordByte w j) hword).trans (wordByte_sum _ hlow j)
  unfold setWordByte
  rw [wordByte_sum b hlow, hself]
  split
  · next hlt => rw [if_neg (by omega)]
  · split
    · rfl
    · rfl

abbrev ByteMem := ℕ → UInt8

namespace ByteMem

def load (m : ByteMem) (a n : ℕ) : List UInt8 := (List.range n).map (fun i => m (a + i))

def store (m : ByteMem) (a : ℕ) (bytes : List UInt8) : ByteMem :=
  fun x => if a ≤ x then (bytes[x - a]?).getD (m x) else m x

def read64 (m : ByteMem) (a : ℕ) : ℕ := ofLe (m.load a 8)

def write64 (m : ByteMem) (a v : ℕ) : ByteMem := m.store a (toLe 8 v)

variable {m : ByteMem} {a b n v x : ℕ} {bytes : List UInt8}

@[simp] lemma load_length : (m.load a n).length = n := by
  unfold load
  rw [length_map, length_range]

lemma load_take (k : ℕ) : (m.load a n).take k = m.load a (min k n) := by
  rw [load, load, ← map_take, take_range]

lemma load_succ : m.load a (n + 1) = m a :: m.load (a + 1) n := by
  unfold load
  rw [range_succ_eq_map, map_cons, map_map]
  refine congrArg (List.cons (m a)) (map_congr_left ?_)
  intro i _
  change m (a + (i + 1)) = m (a + 1 + i)
  rw [Nat.add_assoc, Nat.add_comm 1]

lemma store_outside (h : x < a ∨ a + bytes.length ≤ x) : m.store a bytes x = m x := by
  unfold store
  split
  next hle =>
    have hnone : bytes[x - a]? = none := getElem?_eq_none (by omega)
    rw [hnone, Option.getD_none]
  · rfl

lemma store_inside {i : ℕ} (hi : i < bytes.length) : m.store a bytes (a + i) = bytes[i] := by
  unfold store
  rw [if_pos (Nat.le_add_right a i), Nat.add_sub_cancel_left, getElem?_eq_getElem hi, Option.getD_some]

lemma store_nil : m.store a [] = m := funext (fun _ => store_outside (by simp; omega))

lemma store_cons (b : UInt8) : m.store a (b :: bytes) = store (update m a b) (a + 1) bytes := by
  funext x
  unfold store
  by_cases hx : a + 1 ≤ x
  · rw [if_pos (show a ≤ x by omega), if_pos hx, show x - a = x - (a + 1) + 1 by omega, getElem?_cons_succ,
      update_of_ne (by omega)]
  · rw [if_neg hx]
    by_cases he : x = a
    · subst he
      rw [if_pos le_rfl, Nat.sub_self, update_self]
      rfl
    · rw [if_neg (by omega), update_of_ne he]

lemma getElem_load {i : ℕ} (hi : i < (m.load a n).length) : (m.load a n)[i] = m (a + i) := by
  simp [load]

lemma load_store_self : (m.store a bytes).load a bytes.length = bytes := by
  apply ext_getElem load_length
  intro i hi hi'
  rw [getElem_load hi, store_inside hi']

lemma load_store_apart (h : b + n ≤ a ∨ a + bytes.length ≤ b) : (m.store a bytes).load b n = m.load b n := by
  apply map_congr_left
  intro i hi
  rw [mem_range] at hi
  exact store_outside (by omega)

lemma read64_write64_self (h : v < 2 ^ 64) : (m.write64 a v).read64 a = v := by
  have hload : (m.store a (toLe 8 v)).load a 8 = toLe 8 v := by
    have hself : (m.store a (toLe 8 v)).load a (toLe 8 v).length = toLe 8 v := load_store_self
    rwa [toLe_length] at hself
  unfold read64 write64
  rw [hload]
  exact ofLe_toLe_of_lt h

lemma read64_write64_apart (h : b + 8 ≤ a ∨ a + 8 ≤ b) : (m.write64 a v).read64 b = m.read64 b := by
  unfold read64 write64
  rw [load_store_apart (by rw [toLe_length]; exact h)]

end ByteMem

def wordAddr (a i : ℕ) : ℕ := (a + 8 * i) % 2 ^ 64

lemma wordAddr_succ (a i : ℕ) : wordAddr a (i + 1) = wordAddr (a + 8) i := by
  unfold wordAddr
  rw [mul_succ, add_assoc, add_comm 8]

lemma wordAddr_apart {a i j : ℕ} (hi : i < 2 ^ 32) (hj : j < 2 ^ 32) (hij : i ≠ j) :
    wordAddr a i + 8 ≤ wordAddr a j ∨ wordAddr a j + 8 ≤ wordAddr a i := by
  unfold wordAddr
  omega

namespace ByteMem

def writeWords (m : ByteMem) (a : ℕ) : List ℕ → ByteMem
  | [] => m
  | w :: ws => (m.write64 (wordAddr a 0) w).writeWords (a + 8) ws

lemma read64_writeWords_apart {m : ByteMem} {a b : ℕ} {ws : List ℕ}
    (h : ∀ i < ws.length, b + 8 ≤ wordAddr a i ∨ wordAddr a i + 8 ≤ b) : (m.writeWords a ws).read64 b = m.read64 b := by
  induction ws generalizing m a with
  | nil => rfl
  | cons w ws ih =>
    rw [writeWords, ih, read64_write64_apart (h 0 (succ_pos _))]
    intro i hi
    rw [← wordAddr_succ]
    exact h (i + 1) (succ_lt_succ hi)

lemma read64_writeWords {m : ByteMem} {a i : ℕ} {ws : List ℕ}
    (hlen : ws.length < 2 ^ 32) (hi : i < ws.length) (hw : ws[i] < 2 ^ 64) :
    (m.writeWords a ws).read64 (wordAddr a i) = ws[i] := by
  induction ws generalizing m a i with
  | nil => cases hi
  | cons w ws ih =>
    rw [length_cons] at hlen hi
    cases i with
    | zero =>
      rw [writeWords, read64_writeWords_apart]
      · exact read64_write64_self hw
      · intro j hj
        rw [← wordAddr_succ]
        exact wordAddr_apart (by omega) (by omega) (by omega)
    | succ i =>
      rw [writeWords, wordAddr_succ]
      exact ih (by omega) (lt_of_succ_lt_succ hi) hw

end ByteMem

/-! ## FNV-1a -/

def fnvPrime : UInt64 := 0x100000001b3

def fnvStep (hash : UInt64) (b : UInt8) : UInt64 := (hash ^^^ b.toUInt64) * fnvPrime

def fnv1aHash (data : List UInt8) : UInt64 := data.foldl fnvStep 0xcbf29ce484222325

lemma fnvStep_injective (b : UInt8) : Function.Injective (fun hash => fnvStep hash b) := by
  intro x y h
  have hinv : fnvPrime * 0xce965057aff6957b = 1 := by decide
  have hxor : x ^^^ b.toUInt64 = y ^^^ b.toUInt64 := by
    have hmul := congrArg (· * (0xce965057aff6957b : UInt64)) h
    simpa only [fnvStep, UInt64.mul_assoc, hinv, UInt64.mul_one] using hmul
  have hcancel := congrArg (· ^^^ b.toUInt64) hxor
  simpa only [UInt64.xor_assoc, UInt64.xor_self, UInt64.xor_zero] using hcancel

lemma foldl_fnvStep_injective (data : List UInt8) : Function.Injective (fun hash => data.foldl fnvStep hash) := by
  induction data with
  | nil => exact fun _ _ h => h
  | cons b data ih => exact ih.comp (fnvStep_injective b)

lemma fnv1aHash_append_inj {a b c : List UInt8} : fnv1aHash (a ++ c) = fnv1aHash (b ++ c) ↔ fnv1aHash a = fnv1aHash b := by
  unfold fnv1aHash
  rw [foldl_append, foldl_append]
  exact (foldl_fnvStep_injective c).eq_iff

end NodeKernel
