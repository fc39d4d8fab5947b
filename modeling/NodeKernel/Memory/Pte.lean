import NodeKernel.Memory.Pmm

/-!
# Page table entries

The bits of `kernel/src/memory/vmm.rs`, and what each rewriting of an entry does to them.
-/
namespace NodeKernel

open Nat

def ptePresent : ℕ := 1
def pteWritable : ℕ := 1 <<< 1
def pteAccessed : ℕ := 1 <<< 5
def pteHuge : ℕ := 1 <<< 7
def pteCow : ℕ := 1 <<< 9
def pteSwapped : ℕ := 1 <<< 10
def pteNx : ℕ := 1 <<< 63
def pteAddrMask : ℕ := 0x000FFFFFFFFFF000

namespace Pte

def present (e : ℕ) : Bool := e.testBit 0
def writable (e : ℕ) : Bool := e.testBit 1
def user (e : ℕ) : Bool := e.testBit 2
def accessed (e : ℕ) : Bool := e.testBit 5
def huge (e : ℕ) : Bool := e.testBit 7
def cow (e : ℕ) : Bool := e.testBit 9
def frame (e : ℕ) : ℕ := e &&& pteAddrMask

def toCow (e : ℕ) : ℕ := (e &&& not64 pteWritable) ||| pteCow

def ownedFlags (e : ℕ) : ℕ := (e &&& not64 pteAddrMask &&& not64 pteCow) ||| pteWritable

def toOwned (phys e : ℕ) : ℕ := phys ||| ownedFlags e

def toTable (phys e : ℕ) : ℕ := phys ||| (e &&& not64 pteAddrMask)

def toProtected (w x : Bool) (e : ℕ) : ℕ :=
  let e := if w then e ||| pteWritable else e &&& not64 pteWritable
  if !x then e ||| pteNx else e &&& not64 pteNx

def toSwapped (e : ℕ) : ℕ := (e &&& not64 ptePresent) ||| pteSwapped

def IsFrame (p : ℕ) : Prop := frame p = p

lemma testBit_flag (n i : ℕ) : (1 <<< n).testBit i = decide (n = i) := by
  rw [one_shiftLeft, testBit_two_pow]

lemma and_flag_eq_zero (e n : ℕ) : e &&& 1 <<< n = 0 ↔ e.testBit n = false := by
  constructor
  · intro h
    have hbit : (e &&& 1 <<< n).testBit n = false := by rw [h, zero_testBit]
    simpa [testBit_and, testBit_flag] using hbit
  · intro h
    apply eq_of_testBit_eq
    intro i
    rw [testBit_and, testBit_flag, zero_testBit]
    by_cases hi : n = i
    · subst hi
      simp [h]
    · simp [hi]

lemma and_present (e : ℕ) : e &&& ptePresent = 0 ↔ present e = false := and_flag_eq_zero e 0
lemma and_writable (e : ℕ) : e &&& pteWritable = 0 ↔ writable e = false := and_flag_eq_zero e 1
lemma and_accessed (e : ℕ) : e &&& pteAccessed = 0 ↔ accessed e = false := and_flag_eq_zero e 5
lemma and_huge (e : ℕ) : e &&& pteHuge = 0 ↔ huge e = false := and_flag_eq_zero e 7
lemma and_cow (e : ℕ) : e &&& pteCow = 0 ↔ cow e = false := and_flag_eq_zero e 9

lemma testBit_not64 {m : ℕ} (h : m < 2 ^ 64) (i : ℕ) : (not64 m).testBit i = (decide (i < 64) && !m.testBit i) := by
  unfold not64
  rw [Nat.sub_sub, Nat.add_comm 1 m]
  exact testBit_two_pow_sub_succ h i

lemma testBit_addrMask (i : ℕ) : pteAddrMask.testBit i = (decide (12 ≤ i) && decide (i < 52)) := by
  have hm : pteAddrMask = (2 ^ 40 - 1) <<< 12 := by decide
  rw [hm, testBit_shiftLeft, testBit_two_pow_sub_one]
  by_cases h : 12 ≤ i
  · have : (i - 12 < 40) ↔ (i < 52) := by omega
    simp [h, this]
  · simp [h]

lemma testBit_frame (e i : ℕ) : (frame e).testBit i = (e.testBit i && decide (12 ≤ i) && decide (i < 52)) := by
  unfold frame
  rw [testBit_and, testBit_addrMask, Bool.and_assoc]

lemma frame_congr {e e' : ℕ} (h : ∀ i, 12 ≤ i → i < 52 → e.testBit i = e'.testBit i) : frame e = frame e' := by
  apply eq_of_testBit_eq
  intro i
  rw [testBit_frame, testBit_frame]
  by_cases h1 : 12 ≤ i
  · by_cases h2 : i < 52
    · rw [h i h1 h2]
    · simp [h2]
  · simp [h1]

lemma isFrame_frame (e : ℕ) : IsFrame (frame e) := by
  apply frame_congr
  intro i h1 h2
  rw [testBit_frame]
  simp [h1, h2]

lemma isFrame_of_aligned {p : ℕ} (ha : p % 2 ^ 12 = 0) (hp : p < 2 ^ 52) : IsFrame p := by
  apply eq_of_testBit_eq
  intro i
  rw [testBit_frame]
  by_cases h1 : i < 12
  · have hlow := testBit_mod_two_pow p 12 i
    rw [ha, zero_testBit] at hlow
    simp only [h1, decide_true, Bool.true_and] at hlow
    simp [← hlow]
  · by_cases h2 : i < 52
    · simp [h2, Nat.le_of_not_lt h1]
    · have hhigh : p.testBit i = false :=
        testBit_lt_two_pow (Nat.lt_of_lt_of_le hp (Nat.pow_le_pow_right (by decide) (by omega)))
      simp [hhigh]

lemma IsFrame.testBit_low {p i : ℕ} (h : IsFrame p) (hi : i < 12 ∨ 52 ≤ i) : p.testBit i = false := by
  rw [← h, testBit_frame]
  rcases hi with hi | hi
  · simp [Nat.not_le_of_lt hi]
  · simp [Nat.not_lt_of_le hi]

lemma testBit_clear {m : ℕ} (h : m < 2 ^ 64) (e i : ℕ) :
    (e &&& not64 m).testBit i = (e.testBit i && decide (i < 64) && !m.testBit i) := by
  rw [testBit_and, testBit_not64 h, Bool.and_assoc]

lemma testBit_set (e n i : ℕ) : (e ||| 1 <<< n).testBit i = (e.testBit i || decide (n = i)) := by
  rw [testBit_or, testBit_flag]

lemma flag_lt {n : ℕ} (h : n < 64) : 1 <<< n < 2 ^ 64 := by
  rw [one_shiftLeft]
  exact Nat.pow_lt_pow_right (by decide) h

lemma testBit_clearFlag {n : ℕ} (h : n < 64) (e i : ℕ) :
    (e &&& not64 (1 <<< n)).testBit i = (e.testBit i && decide (i < 64) && !decide (n = i)) := by
  rw [testBit_clear (flag_lt h), testBit_flag]

lemma testBit_clearAddr (e i : ℕ) : (e &&& not64 pteAddrMask).testBit i =
    (e.testBit i && decide (i < 64) && !(decide (12 ≤ i) && decide (i < 52))) := by
  rw [testBit_clear (by decide), testBit_addrMask]

variable {p e : ℕ} {w x : Bool}

lemma testBit_toCow (i : ℕ) : (toCow e).testBit i = (e.testBit i && decide (i < 64) && !decide (1 = i) || decide (9 = i)) := by
  unfold toCow pteWritable pteCow
  rw [testBit_set, testBit_clearFlag (by decide)]

lemma testBit_ownedFlags (i : ℕ) : (ownedFlags e).testBit i =
    (e.testBit i && decide (i < 64) && !(decide (12 ≤ i) && decide (i < 52)) && decide (i < 64) &&
      !decide (9 = i) || decide (1 = i)) := by
  unfold ownedFlags pteWritable pteCow
  rw [testBit_set, testBit_clearFlag (by decide), testBit_clearAddr]

lemma frame_or_flags (hp : IsFrame p) {f : ℕ} (hf : ∀ i, 12 ≤ i → i < 52 → f.testBit i = false) : frame (p ||| f) = p := by
  apply eq_of_testBit_eq
  intro i
  rw [testBit_frame, testBit_or]
  by_cases h : 12 ≤ i ∧ i < 52
  · rw [hf i h.1 h.2]
    simp [h.1, h.2]
  · have hlow : p.testBit i = false := hp.testBit_low (by omega)
    rw [hlow, Bool.and_assoc, ← Bool.decide_and, decide_eq_false h, Bool.and_false]

lemma testBit_or_flags (hp : IsFrame p) {f i : ℕ} (hi : i < 12) : (p ||| f).testBit i = f.testBit i := by
  rw [testBit_or, hp.testBit_low (.inl hi), Bool.false_or]

@[simp] lemma present_toCow : present (toCow e) = present e := by
  unfold present
  rw [testBit_toCow]
  simp

@[simp] lemma writable_toCow : writable (toCow e) = false := by
  unfold writable
  rw [testBit_toCow]
  simp

@[simp] lemma cow_toCow : cow (toCow e) = true := by
  unfold cow
  rw [testBit_toCow]
  simp

@[simp] lemma user_toCow : user (toCow e) = user e := by
  unfold user
  rw [testBit_toCow]
  simp

@[simp] lemma huge_toCow : huge (toCow e) = huge e := by
  unfold huge
  rw [testBit_toCow]
  simp

@[simp] lemma frame_toCow : frame (toCow e) = frame e := by
  apply frame_congr
  intro i h1 h2
  have h3 : i < 64 := by omega
  have h4 : ¬ 1 = i := by omega
  have h5 : ¬ 9 = i := by omega
  rw [testBit_toCow]
  simp [h3, h4, h5]

lemma frame_toOwned (hp : IsFrame p) : frame (toOwned p e) = p := by
  apply frame_or_flags hp
  intro i h1 h2
  rw [testBit_ownedFlags]
  have h3 : ¬ 1 = i := by omega
  simp [h1, h2, h3]

lemma present_toOwned (hp : IsFrame p) : present (toOwned p e) = present e := by
  unfold present toOwned
  rw [testBit_or_flags hp (by decide), testBit_ownedFlags]
  simp

lemma cow_toOwned (hp : IsFrame p) : cow (toOwned p e) = false := by
  unfold cow toOwned
  rw [testBit_or_flags hp (by decide), testBit_ownedFlags]
  simp

lemma frame_toTable (hp : IsFrame p) : frame (toTable p e) = p := by
  apply frame_or_flags hp
  intro i h1 h2
  rw [testBit_clearAddr]
  simp [h1, h2]

lemma present_toTable (hp : IsFrame p) : present (toTable p e) = present e := by
  unfold present toTable
  rw [testBit_or_flags hp (by decide), testBit_clearAddr]
  simp

lemma huge_toTable (hp : IsFrame p) : huge (toTable p e) = huge e := by
  unfold huge toTable
  rw [testBit_or_flags hp (by decide), testBit_clearAddr]
  simp

lemma testBit_setOrClear {n : ℕ} (h : n < 64) (b : Bool) (e : ℕ) {i : ℕ} (hi : i < 64) :
    (if b then e ||| 1 <<< n else e &&& not64 (1 <<< n)).testBit i =
      if i = n then b else e.testBit i := by
  cases b with
  | true =>
    rw [if_pos rfl, testBit_set]
    by_cases hin : i = n
    · simp [hin]
    · have hni : ¬ n = i := fun h => hin h.symm
      simp [hin, hni]
  | false =>
    rw [if_neg Bool.false_ne_true, testBit_clearFlag h]
    by_cases hin : i = n
    · simp [hin]
    · have hni : ¬ n = i := fun h => hin h.symm
      simp [hin, hni, hi]

lemma testBit_toProtected {i : ℕ} (hi : i < 63) : (toProtected w x e).testBit i =
    if i = 1 then w else e.testBit i := by
  unfold toProtected pteWritable pteNx
  rw [testBit_setOrClear (by decide) (!x) _ (by omega), if_neg (by omega), testBit_setOrClear (by decide) w e (by omega)]

@[simp] lemma present_toProtected : present (toProtected w x e) = present e := by
  unfold present
  rw [testBit_toProtected (by decide)]
  simp

@[simp] lemma writable_toProtected : writable (toProtected w x e) = w := by
  unfold writable
  rw [testBit_toProtected (by decide)]
  simp

@[simp] lemma cow_toProtected : cow (toProtected w x e) = cow e := by
  unfold cow
  rw [testBit_toProtected (by decide)]
  simp

@[simp] lemma user_toProtected : user (toProtected w x e) = user e := by
  unfold user
  rw [testBit_toProtected (by decide)]
  simp

@[simp] lemma frame_toProtected : frame (toProtected w x e) = frame e := by
  apply frame_congr
  intro i h1 h2
  rw [testBit_toProtected (by omega), if_neg (by omega)]

lemma testBit_toSwapped (i : ℕ) : (toSwapped e).testBit i =
    (e.testBit i && decide (i < 64) && !decide (0 = i) || decide (10 = i)) := by
  unfold toSwapped pteSwapped ptePresent
  rw [testBit_set]
  have := testBit_clearFlag (n := 0) (by decide) e i
  rw [shiftLeft_zero] at this
  rw [this]

@[simp] lemma present_toSwapped : present (toSwapped e) = false := by
  unfold present
  rw [testBit_toSwapped]
  simp

lemma toSwapped_ne_zero : toSwapped e ≠ 0 := by
  intro h
  have hbit := testBit_toSwapped (e := e) 10
  rw [h, zero_testBit] at hbit
  simp at hbit

/-- What `update_user_pte_flags` makes of an entry. -/
def reprotect (w x : Bool) (e : ℕ) : ℕ := if present e then toProtected w x e else e

/-- What `reclaim_file_backed_pages` makes of an entry. -/
def reclaim (aggressiveness e : ℕ) : ℕ :=
  if present e = true ∧ (accessed e = false ∨ aggressiveness > 3) then toSwapped e else e

@[simp] lemma present_reprotect : present (reprotect w x e) = present e := by
  unfold reprotect
  split
  · exact present_toProtected
  · rfl

@[simp] lemma cow_reprotect : cow (reprotect w x e) = cow e := by
  unfold reprotect
  split
  · exact cow_toProtected
  · rfl

@[simp] lemma user_reprotect : user (reprotect w x e) = user e := by
  unfold reprotect
  split
  · exact user_toProtected
  · rfl

@[simp] lemma frame_reprotect : frame (reprotect w x e) = frame e := by
  unfold reprotect
  split
  · exact frame_toProtected
  · rfl

lemma writable_reprotect (h : present e = true) : writable (reprotect w x e) = w := by
  unfold reprotect
  rw [if_pos h]
  exact writable_toProtected

end Pte
end NodeKernel
