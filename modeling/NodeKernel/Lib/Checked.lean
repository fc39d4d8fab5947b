import NodeKernel.Lib.Bytes

/-!
# Programs that can stop

Accesses outside of a list and sums that do not fit in a word stop the program.
-/
namespace NodeKernel

open List

inductive Stop
  | outOfRange
  | overflow
  | endless
  deriving DecidableEq

abbrev Checked (α : Type) := Except Stop α

/-- The bytes that a pointer and a length can name: their number fits in a signed word. -/
abbrev ByteSlice := { l : List UInt8 // l.length < 2 ^ 63 }

namespace Checked

variable {α β : Type}

def index (l : List α) (i : ℕ) : Checked α :=
  match l[i]? with
  | some a => .ok a
  | none => .error .outOfRange

def slice (l : List α) (start stop : ℕ) : Checked (List α) :=
  if start ≤ stop ∧ stop ≤ l.length then .ok ((l.take stop).drop start) else .error .outOfRange

def sliceFrom (l : List α) (start : ℕ) : Checked (List α) := slice l start l.length

def set (l : List α) (i : ℕ) (a : α) : Checked (List α) :=
  if i < l.length then .ok (l.set i a) else .error .outOfRange

def leWord (l : List UInt8) (i : ℕ) : Checked UInt32 := do
  let a ← index l i
  let b ← index l (i + 1)
  let c ← index l (i + 2)
  let d ← index l (i + 3)
  return UInt32.ofNat (ofLe [a, b, c, d])

def add (a b : ℕ) : Checked ℕ := if a + b < 2 ^ 64 then .ok (a + b) else .error .overflow

/-- The program ends, with a result that satisfies `P`. -/
def Ensures (x : Checked α) (P : α → Prop) : Prop := ∃ a, x = .ok a ∧ P a

variable {x : Checked α} {f : α → Checked β} {P P' : α → Prop} {Q : β → Prop} {l : List α} {a : α} {i start stop : ℕ}

lemma Ensures.pure (h : P a) : Ensures (Pure.pure a) P := ⟨a, rfl, h⟩

lemma Ensures.bind (hx : Ensures x P) (hf : ∀ a, P a → Ensures (f a) Q) : Ensures (x >>= f) Q := by
  obtain ⟨a, rfl, ha⟩ := hx
  exact hf a ha

lemma Ensures.mono (hx : Ensures x P) (h : ∀ a, P a → P' a) : Ensures x P' := by
  obtain ⟨a, he, ha⟩ := hx
  exact ⟨a, he, h a ha⟩

lemma ok_bind : (.ok a : Checked α) >>= f = f a := rfl

lemma Ensures.ite {c : Prop} [Decidable c] {y : Checked α} (hx : c → Ensures x P) (hy : ¬ c → Ensures y P) :
    Ensures (if c then x else y) P := by
  split
  · exact hx ‹_›
  · exact hy ‹_›

lemma Ensures.guard {c : Prop} [Decidable c] {y : Checked α} (ha : P a) (hy : ¬ c → Ensures y P) :
    Ensures (if c then Pure.pure a else y) P := .ite (fun _ => .pure ha) hy

lemma bind_eq_ok {b : β} : x >>= f = .ok b ↔ ∃ a, x = .ok a ∧ f a = .ok b := by
  cases x with
  | error e => exact iff_of_false nofun (fun ⟨_, h, _⟩ => nomatch h)
  | ok a => exact ⟨fun h => ⟨a, rfl, h⟩, fun ⟨_, h, hb⟩ => Except.ok.inj h ▸ hb⟩

lemma index_of_lt (h : i < l.length) : index l i = .ok l[i] := by
  unfold index
  rw [getElem?_eq_getElem h]

lemma index_getD {l : List UInt8} (h : i < l.length) : index l i = .ok (l.getD i 0) := by
  rw [index, getD_eq_getElem?_getD, getElem?_eq_getElem h]
  rfl

lemma leWord_of_le {l : List UInt8} (h : i + 4 ≤ l.length) : leWord l i = .ok (UInt32.ofNat (leAt l i 4)) := by
  rw [leWord, index_getD (by omega), index_getD (by omega), index_getD (by omega), index_getD (by omega), leAt,
    drop_take_four h]
  rfl

lemma Ensures.index (h : i < l.length) (hf : ∀ a, Ensures (f a) Q) : Ensures (Checked.index l i >>= f) Q := by
  rw [index_of_lt h]
  exact hf _

lemma slice_of_le (h₁ : start ≤ stop) (h₂ : stop ≤ l.length) : slice l start stop = .ok ((l.take stop).drop start) :=
  if_pos ⟨h₁, h₂⟩

lemma Ensures.slice {f : List α → Checked β} (h₁ : start ≤ stop) (h₂ : stop ≤ l.length)
    (hf : ∀ s, s.length = stop - start → Ensures (f s) Q) : Ensures (Checked.slice l start stop >>= f) Q := by
  rw [slice_of_le h₁ h₂]
  refine hf _ ?_
  rw [length_drop, length_take, Nat.min_eq_left h₂]

lemma sliceFrom_of_le (h : start ≤ l.length) : sliceFrom l start = .ok (l.drop start) := by
  unfold sliceFrom
  rw [slice_of_le h (Nat.le_refl _), take_length]

lemma Ensures.sliceFrom {f : List α → Checked β} (h : start ≤ l.length)
    (hf : ∀ s, s.length = l.length - start → Ensures (f s) Q) : Ensures (Checked.sliceFrom l start >>= f) Q :=
  .slice h (Nat.le_refl _) hf

lemma set_of_lt (h : i < l.length) : set l i a = .ok (l.set i a) := if_pos h

lemma add_of_lt {m n : ℕ} (h : m + n < 2 ^ 64) : add m n = .ok (m + n) := if_pos h

lemma Ensures.add {f : ℕ → Checked β} {m n : ℕ} (h : m + n < 2 ^ 64) (hf : ∀ k, k = m + n → Ensures (f k) Q) :
    Ensures (Checked.add m n >>= f) Q := by
  rw [add_of_lt h]
  exact hf _ rfl

lemma ensures_add {m n : ℕ} (h : m + n < 2 ^ 64) : Ensures (add m n) (fun k => k = m + n) := ⟨_, add_of_lt h, rfl⟩

end Checked

end NodeKernel
