import Mathlib.Data.Nat.Bitwise
import Mathlib.Data.Set.Lattice
import Mathlib.Tactic.Ring

/-!
# Dyadic blocks

A dyadic block is an interval of `2 ^ exp` cells whose base is a multiple of its
length. Two such blocks are either nested or disjoint, and the base of the other half of
the parent of a block is found by flipping one bit.
-/
namespace NodeKernel.Blocks

open Nat

structure Block where
  base : ℕ
  exp : ℕ
  deriving DecidableEq

instance : Membership ℕ Block := ⟨fun b p => b.base ≤ p ∧ p < b.base + 2 ^ b.exp⟩

lemma mem_def {b : Block} {p : ℕ} : p ∈ b ↔ b.base ≤ p ∧ p < b.base + 2 ^ b.exp := Iff.rfl

namespace Block

def Aligned (b : Block) : Prop := 2 ^ b.exp ∣ b.base

lemma base_mem (b : Block) : b.base ∈ b := ⟨le_rfl, Nat.lt_add_of_pos_right (Nat.two_pow_pos _)⟩

variable {b : Block} {p : ℕ}

lemma Aligned.mem_iff (h : b.Aligned) : p ∈ b ↔ p / 2 ^ b.exp = b.base / 2 ^ b.exp := by
  obtain ⟨q, hq⟩ := h
  have hpos := Nat.two_pow_pos b.exp
  rw [mem_def, hq, Nat.mul_div_cancel_left _ hpos, Nat.div_eq_iff hpos]
  have hm : 2 ^ b.exp * q = q * 2 ^ b.exp := mul_comm _ _
  omega

lemma Aligned.subset {b c : Block} (hb : b.Aligned) (hc : c.Aligned) (hle : b.exp ≤ c.exp)
    (hpb : p ∈ b) (hpc : p ∈ c) {q : ℕ} (hq : q ∈ b) : q ∈ c := by
  rw [hb.mem_iff] at hpb hq
  rw [hc.mem_iff] at hpc ⊢
  have hsplit : ∀ x, x / 2 ^ c.exp = x / 2 ^ b.exp / 2 ^ (c.exp - b.exp) := by
    intro x
    rw [Nat.div_div_eq_div_mul, ← pow_add, Nat.add_sub_cancel' hle]
  rw [← hpc, hsplit q, hsplit p, hq, hpb]

lemma Aligned.eq_of_mem {b c : Block} (hb : b.Aligned) (hc : c.Aligned) (he : b.exp = c.exp)
    (hpb : p ∈ b) (hpc : p ∈ c) : b = c := by
  have h1 := (hb.subset hc he.le hpb hpc b.base_mem).1
  have h2 := (hc.subset hb he.ge hpc hpb c.base_mem).1
  cases b; cases c
  simp_all only [mk.injEq, and_true]
  exact le_antisymm h2 h1

def buddy (b : Block) : Block := ⟨b.base ^^^ 2 ^ b.exp, b.exp⟩

def parent (b : Block) : Block := ⟨min b.base b.buddy.base, b.exp + 1⟩

@[simp] lemma buddy_exp (b : Block) : b.buddy.exp = b.exp := rfl

lemma Aligned.buddy_cases (h : b.Aligned) : (2 ^ (b.exp + 1) ∣ b.base ∧ b.buddy.base = b.base + 2 ^ b.exp) ∨
    (2 ^ (b.exp + 1) ∣ b.buddy.base ∧ b.base = b.buddy.base + 2 ^ b.exp) := by
  obtain ⟨q, hq⟩ := h
  have hx : b.buddy.base = 2 ^ b.exp * (q ^^^ 1) := by
    have hs := @shiftLeft_xor_distrib b.exp q 1
    simp only [shiftLeft_eq, Nat.one_mul] at hs
    rw [buddy, hq, Nat.mul_comm (2 ^ b.exp) (q ^^^ 1), hs, Nat.mul_comm q]
  rcases even_or_odd q with he | ho
  · left
    rw [hx, hq, xor_one_of_even he]
    obtain ⟨r, rfl⟩ := he
    exact ⟨⟨r, by ring⟩, by ring⟩
  · right
    rw [hx, hq, xor_one_of_odd ho]
    obtain ⟨r, rfl⟩ := ho
    exact ⟨⟨r, by rw [Nat.add_sub_cancel]; ring⟩, by rw [Nat.add_sub_cancel]; ring⟩

lemma Aligned.buddy (h : b.Aligned) : b.buddy.Aligned := by
  have hd : 2 ^ b.exp ∣ 2 ^ (b.exp + 1) := ⟨2, pow_succ _ _⟩
  rcases h.buddy_cases with ⟨h1, h2⟩ | ⟨h1, h2⟩
  · change 2 ^ b.exp ∣ b.buddy.base
    rw [h2]
    exact Nat.dvd_add h (dvd_refl _)
  · exact hd.trans h1

@[simp] lemma buddy_buddy (b : Block) : b.buddy.buddy = b := by
  simp [buddy]

lemma Aligned.buddy_ne (h : b.Aligned) : b.buddy.base ≠ b.base := by
  rcases h.buddy_cases with ⟨_, h2⟩ | ⟨_, h2⟩ <;> omega

lemma Aligned.parent (h : b.Aligned) : b.parent.Aligned := by
  rcases h.buddy_cases with ⟨h1, h2⟩ | ⟨h1, h2⟩
  · have : min b.base b.buddy.base = b.base := by omega
    simpa only [Aligned, Block.parent, this] using h1
  · have : min b.base b.buddy.base = b.buddy.base := by omega
    simpa only [Aligned, Block.parent, this] using h1

lemma Aligned.mem_parent (h : b.Aligned) : p ∈ b.parent ↔ p ∈ b ∨ p ∈ b.buddy := by
  simp only [mem_def, Block.parent, buddy_exp]
  rcases h.buddy_cases with ⟨_, h2⟩ | ⟨_, h2⟩ <;> omega

def lower (b : Block) : Block := ⟨b.base, b.exp - 1⟩
def upper (b : Block) : Block := ⟨b.base + 2 ^ (b.exp - 1), b.exp - 1⟩

lemma Aligned.lower_halves (h : b.Aligned) (hpos : 0 < b.exp) :
    b.lower.Aligned ∧ b.lower.buddy = b.upper ∧ b.lower.parent = b := by
  obtain ⟨e, he⟩ : ∃ e, b.exp = e + 1 := ⟨b.exp - 1, by omega⟩
  have hal : b.lower.Aligned := by
    have hd : 2 ^ e ∣ 2 ^ (e + 1) := ⟨2, pow_succ _ _⟩
    have h' : 2 ^ (e + 1) ∣ b.base := by simpa only [Aligned, he] using h
    simpa only [Aligned, lower, he, Nat.add_sub_cancel] using hd.trans h'
  have hbud : b.lower.buddy.base = b.base + 2 ^ e := by
    have hpe := Nat.two_pow_pos e
    rcases hal.buddy_cases with ⟨_, h2⟩ | ⟨h1, h2⟩
    · simpa only [lower, he, Nat.add_sub_cancel] using h2
    · -- the base is even in units of the half length, so it cannot be the upper half
      simp only [lower, he, Nat.add_sub_cancel] at h1 h2
      simp only [Aligned, he] at h
      rw [h2] at h
      have := (Nat.dvd_add_right h1).mp h
      have := le_of_dvd hpe this
      rw [pow_succ] at this
      omega
  refine ⟨hal, ?_, ?_⟩
  · have : b.lower.buddy = ⟨b.lower.buddy.base, b.exp - 1⟩ := rfl
    rw [this, hbud, upper, he, Nat.add_sub_cancel]
  · have hm : min b.lower.base b.lower.buddy.base = b.base := by
      rw [hbud]
      exact Nat.min_eq_left (Nat.le_add_right _ _)
    have : b.lower.parent = ⟨min b.lower.base b.lower.buddy.base, b.exp - 1 + 1⟩ := rfl
    rw [this, hm, Nat.sub_add_cancel hpos]

end Block

open Block

/-- Every cell of `P` lies in exactly one block of `B`, and no other cell lies in one. -/
structure Tiling (B : Set Block) (P : Set ℕ) : Prop where
  aligned : ∀ b ∈ B, b.Aligned
  unique : ∀ b ∈ B, ∀ c ∈ B, ∀ p, p ∈ b → p ∈ c → b = c
  cover : ∀ p, p ∈ P ↔ ∃ b ∈ B, p ∈ b

namespace Tiling

variable {B : Set Block} {P : Set ℕ}

lemma empty : Tiling ∅ ∅ := ⟨by simp, by simp, by simp⟩

lemma insert (h : Tiling B P) {b : Block} (hb : b.Aligned) (hfresh : ∀ p ∈ b, p ∉ P) :
    Tiling (insert b B) (P ∪ {p | p ∈ b}) := by
  refine ⟨?_, ?_, ?_⟩
  · rintro c (rfl | hc)
    · exact hb
    · exact h.aligned c hc
  · rintro c (rfl | hc) d (rfl | hd) p hpc hpd
    · rfl
    · exact absurd ((h.cover p).mpr ⟨d, hd, hpd⟩) (hfresh p hpc)
    · exact absurd ((h.cover p).mpr ⟨c, hc, hpc⟩) (hfresh p hpd)
    · exact h.unique c hc d hd p hpc hpd
  · intro p
    simp only [Set.mem_union, Set.mem_ofPred_eq, Set.mem_insert_iff, exists_eq_or_imp, h.cover p]
    exact or_comm

lemma merge (h : Tiling B P) {b : Block} (hb : b ∈ B) (hbuddy : b.buddy ∈ B) :
    Tiling (Insert.insert b.parent (B \ {b, b.buddy})) P := by
  have hal := h.aligned b hb
  -- a block that meets the parent meets one of the two halves, so it is that half
  have hmeet : ∀ c ∈ B \ {b, b.buddy}, ∀ p, p ∈ b.parent → p ∈ c → False := by
    rintro c ⟨hc, hne⟩ p hp hpc
    rcases hal.mem_parent.mp hp with hp | hp
    · exact hne (.inl (h.unique c hc b hb p hpc hp))
    · exact hne (.inr (h.unique c hc _ hbuddy p hpc hp))
  refine ⟨?_, ?_, ?_⟩
  · rintro c (rfl | hc)
    · exact hal.parent
    · exact h.aligned c hc.1
  · rintro c (rfl | hc) d (rfl | hd) p hpc hpd
    · rfl
    · exact (hmeet d hd p hpc hpd).elim
    · exact (hmeet c hc p hpd hpc).elim
    · exact h.unique c hc.1 d hd.1 p hpc hpd
  · intro p
    rw [h.cover p]
    constructor
    · rintro ⟨c, hc, hpc⟩
      by_cases hcb : c ∈ ({b, b.buddy} : Set Block)
      · refine ⟨b.parent, .inl rfl, hal.mem_parent.mpr ?_⟩
        rcases hcb with rfl | rfl
        · exact .inl hpc
        · exact .inr hpc
      · exact ⟨c, .inr ⟨hc, hcb⟩, hpc⟩
    · rintro ⟨c, rfl | hc, hpc⟩
      · rcases hal.mem_parent.mp hpc with hp | hp
        · exact ⟨b, hb, hp⟩
        · exact ⟨_, hbuddy, hp⟩
      · exact ⟨c, hc.1, hpc⟩

lemma split (h : Tiling B P) {b : Block} (hb : b ∈ B) (hpos : 0 < b.exp) :
    Tiling (Insert.insert b.lower (Insert.insert b.upper (B \ {b}))) P := by
  obtain ⟨hlow, hup, hpar⟩ := (h.aligned b hb).lower_halves hpos
  have hmem : ∀ p, p ∈ b ↔ p ∈ b.lower ∨ p ∈ b.upper := by
    intro p
    have := hlow.mem_parent (p := p)
    rwa [hpar, hup] at this
  have hdisj : ∀ p, p ∈ b.lower → p ∈ b.upper → False := by
    intro p h1 h2
    simp only [mem_def, lower, upper] at h1 h2
    omega
  have hmeet : ∀ c ∈ B \ {b}, ∀ p, p ∈ b → p ∈ c → False := by
    rintro c ⟨hc, hne⟩ p hp hpc
    exact hne (h.unique c hc b hb p hpc hp)
  refine ⟨?_, ?_, ?_⟩
  · rintro c (rfl | rfl | hc)
    · exact hlow
    · exact hup ▸ hlow.buddy
    · exact h.aligned c hc.1
  · rintro c (rfl | rfl | hc) d (rfl | rfl | hd) p hpc hpd
    · rfl
    · exact (hdisj p hpc hpd).elim
    · exact (hmeet d hd p ((hmem p).mpr (.inl hpc)) hpd).elim
    · exact (hdisj p hpd hpc).elim
    · rfl
    · exact (hmeet d hd p ((hmem p).mpr (.inr hpc)) hpd).elim
    · exact (hmeet c hc p ((hmem p).mpr (.inl hpd)) hpc).elim
    · exact (hmeet c hc p ((hmem p).mpr (.inr hpd)) hpc).elim
    · exact h.unique c hc.1 d hd.1 p hpc hpd
  · intro p
    rw [h.cover p]
    constructor
    · rintro ⟨c, hc, hpc⟩
      by_cases hcb : c = b
      · subst hcb
        rcases (hmem p).mp hpc with hp | hp
        · exact ⟨_, .inl rfl, hp⟩
        · exact ⟨_, .inr (.inl rfl), hp⟩
      · exact ⟨c, .inr (.inr ⟨hc, hcb⟩), hpc⟩
    · rintro ⟨c, rfl | rfl | hc, hpc⟩
      · exact ⟨b, hb, (hmem p).mpr (.inl hpc)⟩
      · exact ⟨b, hb, (hmem p).mpr (.inr hpc)⟩
      · exact ⟨c, hc.1, hpc⟩

lemma exists_of_mem {F G O : Set Block} (hF : Tiling (F ∪ O) P) (hG : Tiling (G ∪ O) P) (hd : ∀ b ∈ F, b ∉ O) {r : Block}
    (hr : r ∈ F) : ∀ p ∈ r, ∃ c ∈ G, p ∈ c := by
  intro p hp
  obtain ⟨c, hc | hc, hpc⟩ := (hG.cover p).mp ((hF.cover p).mpr ⟨r, .inl hr, hp⟩)
  · exact ⟨c, hc, hpc⟩
  · exact absurd (hF.unique r (.inl hr) c (.inr hc) p hp hpc ▸ hc) (hd r hr)

end Tiling

/-- No two buddies of exponent below `top` are both in `F`. -/
def Coalesced (F : Set Block) (top : ℕ) : Prop :=
  ∀ b ∈ F, b.exp < top → b.buddy ∉ F

/-- A coalesced family that covers a whole dyadic block has one member that contains it. -/
theorem Coalesced.exists_superset {F : Set Block} {top : ℕ} (hF : Coalesced F top)
    (hal : ∀ b ∈ F, b.Aligned) {r : Block} (hr : r.Aligned) (hle : r.exp ≤ top)
    (hcov : ∀ p ∈ r, ∃ b ∈ F, p ∈ b) : ∃ b ∈ F, r.exp ≤ b.exp ∧ ∀ p ∈ r, p ∈ b := by
  obtain ⟨base, e⟩ := r
  simp only at hle
  -- induction on the exponent: a block is covered by what covers its two halves
  induction e generalizing base with
  | zero =>
    obtain ⟨b, hb, hp⟩ := hcov base (base_mem ⟨base, 0⟩)
    refine ⟨b, hb, zero_le _, ?_⟩
    intro q hq
    exact hr.subset (hal b hb) (zero_le _) (base_mem _) hp hq
  | succ e ih =>
    set r : Block := ⟨base, e + 1⟩ with hrdef
    obtain ⟨hlow, hup, hpar⟩ := hr.lower_halves (succ_pos e)
    have hmem : ∀ p, p ∈ r ↔ p ∈ r.lower ∨ p ∈ r.upper := by
      intro p
      have := hlow.mem_parent (p := p)
      rwa [hpar, hup] at this
    have hupal : r.upper.Aligned := hup ▸ hlow.buddy
    obtain ⟨b, hb, hbe, hbsub⟩ := ih base hlow (by omega)
      (fun p hp => hcov p ((hmem p).mpr (.inl hp)))
    obtain ⟨c, hc, hce, hcsub⟩ := ih (base + 2 ^ e) hupal (by omega)
      (fun p hp => hcov p ((hmem p).mpr (.inr hp)))
    by_cases hbig : e + 1 ≤ b.exp
    · refine ⟨b, hb, hbig, fun q hq => ?_⟩
      have hl := r.lower.base_mem
      exact hr.subset (hal b hb) hbig ((hmem _).mpr (.inl hl)) (hbsub _ hl) hq
    · by_cases hcig : e + 1 ≤ c.exp
      · refine ⟨c, hc, hcig, fun q hq => ?_⟩
        have hu := r.upper.base_mem
        exact hr.subset (hal c hc) hcig ((hmem _).mpr (.inr hu)) (hcsub _ hu) hq
      · -- both halves are themselves members, which a coalesced family excludes
        simp only at hbe hce
        have hbl : b = r.lower := (hal b hb).eq_of_mem hlow
          (by simp only [lower, hrdef]; omega)
          (hbsub _ r.lower.base_mem) r.lower.base_mem
        have hcu : c = r.upper := (hal c hc).eq_of_mem hupal
          (by simp only [upper, hrdef]; omega)
          (hcsub _ r.upper.base_mem) r.upper.base_mem
        refine absurd hc (hcu ▸ hup ▸ hbl ▸ hF b hb ?_)
        omega

lemma Coalesced.subset {F G O : Set Block} {P : Set ℕ} {top : ℕ} (hF : Coalesced F top) (hG : Coalesced G top)
    (htF : Tiling (F ∪ O) P) (htG : Tiling (G ∪ O) P) (hdF : ∀ b ∈ F, b ∉ O) (hdG : ∀ b ∈ G, b ∉ O)
    (hle : ∀ b ∈ F ∪ G, b.exp ≤ top) : F ⊆ G := by
  intro b hb
  have hal := fun c hc => htF.aligned c (.inl hc)
  have hal' := fun c hc => htG.aligned c (.inl hc)
  obtain ⟨c, hc, hbc, hsub⟩ := hG.exists_superset hal' (hal b hb) (hle b (.inl hb)) (htF.exists_of_mem htG hdF hb)
  obtain ⟨d, hd, hcd, hsub'⟩ := hF.exists_superset hal (hal' c hc) (hle c (.inr hc)) (htG.exists_of_mem htF hdG hc)
  -- `b` lies in `c` and `c` in the member `d` of its own family, which is `b`
  obtain rfl := htF.unique b (.inl hb) d (.inl hd) b.base b.base_mem (hsub' _ (hsub _ b.base_mem))
  exact (hal b hb).eq_of_mem (hal' c hc) (hbc.antisymm hcd) b.base_mem (hsub _ b.base_mem) ▸ hc

end NodeKernel.Blocks
