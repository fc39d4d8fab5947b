import NodeKernel.Lib.Bytes

/-!
# Ones-complement sums

Sums of 16-bit words whose carry is added at the lower end, as the protocols of the internet have them.
-/
namespace NodeKernel.OnesComplement

open List

/-- The words of a message; an odd last byte is the upper half of a word. -/
def words : List UInt8 → List ℕ
  | [] => []
  | [a] => [ofBe [a, 0]]
  | a :: b :: rest => ofBe [a, b] :: words rest

def add (a b : ℕ) : ℕ := if a + b < 65536 then a + b else a + b - 65535

def sum (message : List UInt8) : ℕ := (words message).foldl add 0

/-- What is left of a number when its carries are added until there are none. -/
def fold (n : ℕ) : ℕ := if n = 0 then 0 else (n - 1) % 65535 + 1

lemma fold_of_lt {n : ℕ} (h : n < 65536) : fold n = n := by
  unfold fold
  split <;> omega

lemma fold_lt (n : ℕ) : fold n < 65536 := by
  unfold fold
  split <;> omega

lemma fold_carry (n : ℕ) : fold (n % 65536 + n / 65536) = fold n := by
  unfold fold
  split <;> split <;> omega

lemma add_fold (n : ℕ) {w : ℕ} (hw : w < 65536) : add (fold n) w = fold (n + w) := by
  unfold add fold
  repeat' split
  all_goals omega

lemma fold_complement (n : ℕ) : fold (n + (65535 - fold n)) = 65535 := by
  unfold fold
  repeat' split
  all_goals omega

lemma ofBe_pair (a b : UInt8) : ofBe [a, b] = a.toNat * 256 + b.toNat := by
  simp [ofBe, ofLe, Nat.ofDigits_cons]
  omega

lemma words_lt (message : List UInt8) : ∀ w ∈ words message, w < 65536 := by
  induction message using words.induct with
  | case1 => exact fun _ h => absurd h not_mem_nil
  | case2 a => simpa [words, ofBe_pair] using by have := a.toNat_lt; omega
  | case3 a b rest ih =>
    have ha := a.toNat_lt
    have hb := b.toNat_lt
    exact forall_mem_cons.mpr ⟨by rw [ofBe_pair]; omega, ih⟩

lemma sum_words_le (message : List UInt8) : (words message).sum ≤ 65535 * message.length := by
  induction message using words.induct with
  | case1 => exact Nat.le_refl _
  | case2 a => simpa [words, ofBe_pair] using by have := a.toNat_lt; omega
  | case3 a b rest ih =>
    have ha := a.toNat_lt
    have hb := b.toNat_lt
    simp only [words, sum_cons, length_cons, ofBe_pair]
    omega

lemma words_append {front : List UInt8} (h : front.length % 2 = 0) (rest : List UInt8) :
    words (front ++ rest) = words front ++ words rest := by
  induction front using words.induct with
  | case1 => rfl
  | case2 a => cases h
  | case3 a b front ih => exact congrArg _ (ih (by rw [length_cons, length_cons] at h; omega))

lemma foldl_add (l : List ℕ) (n : ℕ) (h : ∀ w ∈ l, w < 65536) : l.foldl add (fold n) = fold (n + l.sum) := by
  induction l generalizing n with
  | nil => rfl
  | cons w l ih =>
    obtain ⟨hw, hl⟩ := forall_mem_cons.mp h
    rw [foldl_cons, add_fold n hw, ih _ hl, sum_cons, Nat.add_assoc]

lemma sum_eq (message : List UInt8) : sum message = fold (words message).sum := by
  have h := foldl_add _ 0 (words_lt message)
  rwa [Nat.zero_add] at h

end NodeKernel.OnesComplement
