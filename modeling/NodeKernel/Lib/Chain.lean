import Mathlib.Data.List.Basic

/-!
# Intrusive singly linked lists

The nodes of a list are addresses, and each node stores the address of the next
one; a distinguished `null` address ends the list.
-/
namespace NodeKernel

open Function List

variable {α : Type*}

def Chain (null : α) (next : α → α) : α → List α → Prop
  | head, [] => head = null
  | head, a :: l => head = a ∧ a ≠ null ∧ Chain null next (next a) l

namespace Chain

variable {null : α} {next next' : α → α} {head : α} {l l' : List α}

@[simp] lemma nil_iff : Chain null next head [] ↔ head = null := Iff.rfl

lemma congr (h : Chain null next head l) (hn : ∀ a ∈ l, next a = next' a) : Chain null next' head l := by
  induction l generalizing head with
  | nil => exact h
  | cons a l ih =>
    obtain ⟨he, hne, hl⟩ := h
    refine ⟨he, hne, ?_⟩
    rw [← hn a mem_cons_self]
    exact ih hl (fun b hb => hn b (mem_cons_of_mem a hb))

lemma unique (h : Chain null next head l) (h' : Chain null next head l') : l = l' := by
  induction l generalizing head l' with
  | nil =>
    cases l' with
    | nil => rfl
    | cons b l' => exact absurd (h'.1.symm.trans h) h'.2.1
  | cons a l ih =>
    cases l' with
    | nil => exact absurd (h.1.symm.trans h') h.2.1
    | cons b l' =>
      have hab : a = b := h.1.symm.trans h'.1
      subst hab
      rw [ih h.2.2 h'.2.2]

lemma suffix {l₁ l₂ : List α} {a : α} (h : Chain null next head (l₁ ++ a :: l₂)) : Chain null next a (a :: l₂) := by
  induction l₁ generalizing head with
  | nil => exact ⟨rfl, h.2⟩
  | cons b l₁ ih => exact ih h.2.2

lemma nodup (h : Chain null next head l) : l.Nodup := by
  induction l generalizing head with
  | nil => exact nodup_nil
  | cons a l ih =>
    refine nodup_cons.mpr ⟨?_, ih h.2.2⟩
    intro hmem
    obtain ⟨l₁, l₂, rfl⟩ := append_of_mem hmem
    have hwhole : Chain null next a (a :: (l₁ ++ a :: l₂)) := ⟨rfl, h.2⟩
    have := congrArg List.length (hwhole.unique h.2.2.suffix)
    simp only [length_cons, length_append] at this
    omega

section Update
variable [DecidableEq α]

lemma update_of_notMem {a v : α} (h : Chain null next head l) (hnew : a ∉ l) : Chain null (update next a v) head l := by
  refine h.congr (fun b hb => ?_)
  rw [update_of_ne (fun he : b = a => hnew (he ▸ hb))]

lemma push {a : α} (h : Chain null next head l) (hne : a ≠ null) (hnew : a ∉ l) :
    Chain null (update next a head) a (a :: l) := by
  refine ⟨rfl, hne, ?_⟩
  rw [update_self]
  exact h.update_of_notMem hnew

lemma unlink {l₁ l₂ : List α} {p a : α} (h : Chain null next head (l₁ ++ p :: a :: l₂)) :
    Chain null (update next p (next a)) head (l₁ ++ p :: l₂) := by
  have hnd := h.nodup
  induction l₁ generalizing head with
  | nil =>
    obtain ⟨he, hne, _, _, hl⟩ := h
    refine ⟨he, hne, ?_⟩
    rw [update_self]
    apply hl.update_of_notMem
    intro hp
    exact (nodup_cons.mp hnd).1 (mem_cons_of_mem a hp)
  | cons b l₁ ih =>
    obtain ⟨he, hne, hl⟩ := h
    refine ⟨he, hne, ?_⟩
    have hbp : b ≠ p := by
      rintro rfl
      exact (nodup_cons.mp hnd).1 (by simp)
    rw [update_of_ne hbp]
    exact ih hl (nodup_cons.mp hnd).2

def nodes (null : α) (next : α → α) : ℕ → α → List α
  | 0, _ => []
  | fuel + 1, head => if head = null then [] else head :: nodes null next fuel (next head)

lemma nodes_eq (h : Chain null next head l) {fuel : ℕ} (hf : l.length ≤ fuel) : nodes null next fuel head = l := by
  induction l generalizing head fuel with
  | nil =>
    cases fuel with
    | zero => rfl
    | succ fuel => simp [nodes, nil_iff.mp h]
  | cons a l ih =>
    obtain ⟨rfl, hne, hl⟩ := h
    cases fuel with
    | zero => simp at hf
    | succ fuel =>
      rw [nodes, if_neg hne, ih hl (Nat.le_of_succ_le_succ hf)]

end Update
end Chain
end NodeKernel
