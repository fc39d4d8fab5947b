import NodeKernel.Memory.PmmRuns

/-!
# What the allocator can still give

How far the free memory reaches, for a caller that takes single frames and then a kernel
stack.
-/
namespace NodeKernel
open Blocks Option Nat
namespace Pmm

/-- The allocator can give `n` single frames, one after the other, and then four pages in a row. -/
def serves : ℕ → Pmm → Bool
  | 0, s => (s.allocOrder 2).isSome
  | n + 1, s =>
    match s.allocOrder 0 with
    | none => false
    | some (_, s') => serves n s'

variable {s s' s₁ s₁' : Pmm} {L L' L₁ : FreeLists} {out out' : Finset Block} {P P' : Set ℕ}
  {order addr addr₁ n : ℕ}

lemma Allocated.unique (h : Allocated s L out P order addr s₁ L₁)
    (h' : Allocated s' L out' P' order addr₁ s₁' L') : addr₁ = addr ∧ L' = L₁ := by
  obtain ⟨found, l, hle, _, hl, hmin, hL⟩ := h.lists
  obtain ⟨found', l', hle', _, hl', hmin', hL'⟩ := h'.lists
  have hfound : found' = found := by
    apply Nat.le_antisymm
    · apply Nat.le_of_not_lt
      intro hlt
      rw [hmin' found hle hlt] at hl
      cases hl
    · apply Nat.le_of_not_lt
      intro hlt
      rw [hmin found' hle' hlt] at hl'
      cases hl'
  subst hfound
  rw [hl] at hl'
  obtain ⟨rfl, rfl⟩ := List.cons.inj hl'
  exact ⟨rfl, hL'.trans hL.symm⟩

lemma Inv.allocOrder_isSome_congr (h : s.Inv L out P) (h' : s'.Inv L out' P')
    (ho : order < maxOrder) : (s.allocOrder order).isSome = (s'.allocOrder order).isSome := by
  rw [Bool.eq_iff_iff, ← not_iff_not, not_isSome_iff_eq_none, not_isSome_iff_eq_none,
    h.allocOrder_none ho, h'.allocOrder_none ho]

lemma Inv.serves_congr (h : s.Inv L out P) (h' : s'.Inv L out' P') : s.serves n = s'.serves n := by
  induction n generalizing s s' L out out' with
  | zero => exact h.allocOrder_isSome_congr h' (by decide)
  | succ n ih =>
    have hsome : (s.allocOrder 0).isSome = (s'.allocOrder 0).isSome := h.allocOrder_isSome_congr h' (by decide)
    unfold serves
    cases hr : s.allocOrder 0 with
    | none =>
      rw [hr] at hsome
      have hnone : s'.allocOrder 0 = none := by
        rw [← not_isSome_iff_eq_none, ← hsome]
        simp
      rw [hnone]
    | some q =>
      rw [hr] at hsome
      obtain ⟨q', hr'⟩ := isSome_iff_exists.mp hsome.symm
      rw [hr']
      obtain ⟨p, s₁⟩ := q
      obtain ⟨p', s₁'⟩ := q'
      obtain ⟨_, L₁, ha⟩ := h.allocOrder_some hr
      obtain ⟨_, L₁', ha'⟩ := h'.allocOrder_some hr'
      obtain ⟨_, rfl⟩ := ha.unique ha'
      exact ih ha.inv ha'.inv

lemma serves_succ (h : s.allocOrder 0 = some (addr, s')) : s.serves (n + 1) = s'.serves n := by
  rw [serves, h]

lemma Inv.serves_of_empty (h : s.Inv L out P) (hnone : s.allocOrder 0 = none) : s.serves n = false := by
  cases n with
  | zero =>
    have hempty := (h.allocOrder_none (by decide)).mp hnone
    have h2 : s.allocOrder 2 = none := (h.allocOrder_none (by decide)).mpr (fun o _ ho => hempty o (zero_le o) ho)
    unfold serves
    rw [h2]
    rfl
  | succ n => rw [serves, hnone]

lemma Inv.listedPages_add (h : s.Inv L out P) : s.listedPages + pagesOut out = s.totalPages := by
  rw [h.listedPages_eq]
  exact h.total

lemma Inv.listedPages_alloc (h : s.Inv L out P) (hrun : s.allocOrder 0 = some (addr, s')) :
    s'.listedPages + 1 = s.listedPages := by
  obtain ⟨_, L', ha⟩ := h.allocOrder_some hrun
  have hbefore := h.listedPages_add
  have hafter := ha.inv.listedPages_add
  have hpages := pagesOut_insert ha.fresh
  have htotal := ha.totalPages
  rw [blockAt_exp, Nat.add_zero, Nat.sub_self, pow_zero] at hpages
  omega

lemma Inv.le_listedPages (h : s.Inv L out P) (hs : s.serves n = true) : n ≤ s.listedPages := by
  induction n generalizing s L out with
  | zero => exact zero_le _
  | succ n ih =>
    cases hr : s.allocOrder 0 with
    | none =>
      rw [h.serves_of_empty hr] at hs
      cases hs
    | some q =>
      obtain ⟨p, s₁⟩ := q
      obtain ⟨_, L₁, ha⟩ := h.allocOrder_some hr
      rw [serves_succ hr] at hs
      have hrest := ih ha.inv hs
      have hone := h.listedPages_alloc hr
      omega

def Spent (s : Pmm) (n : ℕ) (s' : Pmm) : Prop := ∀ m, s.serves (n + m) = s'.serves m

lemma Spent.refl (s : Pmm) : Spent s 0 s := fun m => by rw [Nat.zero_add]

lemma Spent.congr (h : Spent s n s₁) (h₁ : s₁.Inv L out P) (h₁' : s₁'.Inv L out' P') :
    Spent s n s₁' := fun m => (h m).trans (h₁.serves_congr h₁')

lemma Spent.alloc (h : Spent s n s₁) (ha : s₁.allocOrder 0 = some (addr, s₁')) : Spent s (n + 1) s₁' := by
  intro m
  rw [add_right_comm, add_assoc, h (m + 1), serves_succ ha]

lemma Spent.trans {m : ℕ} (h : Spent s n s₁) (h' : Spent s₁ m s') : Spent s (n + m) s' := by
  intro k
  rw [add_assoc, h (m + k), h' k]

lemma Spent.not_serves (h : Spent s n s₁) (h₁ : s₁.Inv L out P) (hnone : s₁.allocOrder 0 = none)
    {m : ℕ} (hle : n ≤ m) : s.serves m = false := by
  obtain ⟨k, rfl⟩ := Nat.exists_eq_add_of_le hle
  rw [h k]
  exact h₁.serves_of_empty hnone

def FreeAt (s : Pmm) (a : ℕ) : Prop := ∃ b ∈ s.freeBlocks, a ∈ b

lemma Inv.freeAt_iff (h : s.Inv L out P) {a : ℕ} : s.FreeAt a ↔ ∃ b ∈ blocksOn L, a ∈ b := by
  unfold FreeAt
  simp only [h.mem_freeBlocks]

lemma Inv.not_freeAt (h : s.Inv L out P) {a : ℕ} {b : Block} (hb : b ∈ out) (hab : a ∈ b) : ¬ s.FreeAt a := by
  rw [h.freeAt_iff]
  intro hf
  obtain ⟨b', hb', hab'⟩ := hf
  have he := h.tiling.unique b' (.inl hb') b (.inr hb) a hab' hab
  exact h.apart b' hb' (he ▸ hb)

lemma Inv.freeAt_or_out (h : s.Inv L out P) {a : ℕ} (ha : a ∈ P) : s.FreeAt a ∨ ∃ b ∈ out, a ∈ b := by
  rw [h.freeAt_iff]
  obtain ⟨b, hb, hab⟩ := (h.tiling.cover a).mp ha
  rcases hb with hb | hb
  · exact .inl ⟨b, hb, hab⟩
  · exact .inr ⟨b, hb, hab⟩

lemma Inv.managed_of_freeAt (h : s.Inv L out P) {a : ℕ} (ha : s.FreeAt a) : a ∈ P := by
  obtain ⟨b, hb, hab⟩ := h.freeAt_iff.mp ha
  exact (h.tiling.cover a).mpr ⟨b, .inl hb, hab⟩

section Grown
variable (h : s.Inv L out P) (h' : s'.Inv L' out' P) (hsub : out ⊆ out')
include h h' hsub

lemma Inv.freeAt_of_subset {a : ℕ} (ha : s'.FreeAt a) : s.FreeAt a := by
  refine (h.freeAt_or_out (h'.managed_of_freeAt ha)).resolve_right (fun hout => ?_)
  obtain ⟨b, hb, hab⟩ := hout
  exact h'.not_freeAt (hsub hb) hab ha

lemma Inv.freeAt_of_new {p : ℕ} (hin : blockAt p 0 ∈ out') (hnin : blockAt p 0 ∉ out) : s.FreeAt p ∧ ¬ s'.FreeAt p := by
  have hmem : p ∈ blockAt p 0 := Block.base_mem (blockAt p 0)
  refine ⟨?_, h'.not_freeAt hin hmem⟩
  refine (h.freeAt_or_out (h'.managed_of_out hin hmem)).resolve_right (fun hout => ?_)
  obtain ⟨b, hb, hab⟩ := hout
  have he := h'.tiling.unique b (.inr (hsub hb)) _ (.inr hin) p hab hmem
  exact hnin (he ▸ hb)

end Grown

lemma Inv.not_freeAt_of_empty (h : s.Inv L out P) (hnone : s.allocOrder 0 = none) (a : ℕ) : ¬ s.FreeAt a := by
  rw [h.freeAt_iff]
  intro hf
  obtain ⟨b, ⟨order, ho, addr, ha, _⟩, _⟩ := hf
  rw [(h.allocOrder_none (by decide)).mp hnone order (zero_le _) ho] at ha
  exact List.not_mem_nil ha

end Pmm
end NodeKernel
