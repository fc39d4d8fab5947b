import Mathlib.Algebra.BigOperators.Group.Finset.Piecewise

/-!
# Radix trees in word memory

A table is a row of words of a memory addressed by row and column. Walking down from a root,
the word in the slot of the current depth names the next table or ends the walk; the word
in the slot of a table of the last depth is the leaf.
-/
namespace NodeKernel

open Nat

structure Radix where
  fan : ℕ
  height : ℕ
  child : ℕ → ℕ → Option ℕ
  fan_pos : 0 < fan

namespace Radix

variable (R : Radix)

/-- The part of a key that selects a table of this depth. -/
def stem (d v : ℕ) : ℕ := v / R.fan ^ (R.height + 1 - d)

def slot (d v : ℕ) : ℕ := v / R.fan ^ (R.height - d) % R.fan

def tableAt (mem : ℕ → ℕ → ℕ) (root : ℕ) : ℕ → ℕ → Option ℕ
  | 0, _ => some root
  | d + 1, v => (tableAt mem root d v).bind (fun t => R.child d (mem t (R.slot d v)))

def leaf (mem : ℕ → ℕ → ℕ) (root v : ℕ) : ℕ :=
  match R.tableAt mem root R.height v with
  | some t => mem t (R.slot R.height v)
  | none => 0

variable {R} {mem mem' : ℕ → ℕ → ℕ} {r r' d d' v v' t t' : ℕ}

lemma stem_succ (hd : d ≤ R.height) : R.stem d v = R.stem (d + 1) v / R.fan := by
  unfold stem
  rw [Nat.div_div_eq_div_mul, ← Nat.pow_succ]
  congr 2
  omega

lemma slot_eq_stem_mod (hd : d ≤ R.height) : R.slot d v = R.stem (d + 1) v % R.fan := by
  unfold slot stem
  congr 3
  omega

lemma stem_top : R.stem (R.height + 1) v = v := by
  unfold stem
  rw [Nat.sub_self, Nat.pow_zero, Nat.div_one]

lemma stem_succ_eq_iff (hd : d ≤ R.height) :
    R.stem (d + 1) v = R.stem (d + 1) v' ↔ R.stem d v = R.stem d v' ∧ R.slot d v = R.slot d v' := by
  rw [stem_succ hd, stem_succ hd, slot_eq_stem_mod hd, slot_eq_stem_mod hd]
  constructor
  · intro h
    rw [h]
    exact ⟨rfl, rfl⟩
  · intro h
    rw [← div_add_mod (R.stem (d + 1) v) R.fan, h.1, h.2, div_add_mod]

lemma stem_eq_of_le (hd : d ≤ R.height) (h : R.stem (d + 1) v = R.stem (d + 1) v') :
    R.stem d v = R.stem d v' := ((stem_succ_eq_iff hd).mp h).1

lemma tableAt_stem (hd : d ≤ R.height + 1) (h : R.stem d v = R.stem d v') : R.tableAt mem r d v = R.tableAt mem r d v' := by
  induction d with
  | zero => rfl
  | succ d ih =>
    have hd' : d ≤ R.height := le_of_succ_le_succ hd
    obtain ⟨hstem, hslot⟩ := (stem_succ_eq_iff hd').mp h
    simp only [tableAt]
    rw [ih (le_succ_of_le hd') hstem, hslot]

lemma tableAt_congr (h : ∀ e < d, ∀ t, R.tableAt mem r e v = some t →
      R.child e (mem' t (R.slot e v)) = R.child e (mem t (R.slot e v))) : R.tableAt mem' r d v = R.tableAt mem r d v := by
  induction d with
  | zero => rfl
  | succ d ih =>
    have hd := ih (fun e he => h e (lt_succ_of_lt he))
    simp only [tableAt]
    rw [hd]
    cases ht : R.tableAt mem r d v with
    | none => rfl
    | some t => exact h d (lt_succ_self d) t ht

lemma leaf_of_tableAt (h : R.tableAt mem r R.height v = some t) : R.leaf mem r v = mem t (R.slot R.height v) := by
  unfold leaf
  rw [h]

lemma leaf_of_none (h : R.tableAt mem r R.height v = none) : R.leaf mem r v = 0 := by
  unfold leaf
  rw [h]

lemma tableAt_none_of_le (hle : d ≤ d') (h : R.tableAt mem r d v = none) : R.tableAt mem r d' v = none := by
  induction hle with
  | refl => exact h
  | step _ ih =>
    simp only [tableAt]
    rw [ih]
    rfl

/-- Every table of these roots is reached in one way only, along keys below `N`. -/
structure Forest (R : Radix) (mem : ℕ → ℕ → ℕ) (roots : Set ℕ) (N : ℕ) : Prop where
  unique : ∀ r ∈ roots, ∀ r' ∈ roots, ∀ d ≤ R.height, ∀ d' ≤ R.height, ∀ v < N, ∀ v' < N, ∀ t,
    R.tableAt mem r d v = some t → R.tableAt mem r' d' v' = some t →
      r = r' ∧ d = d' ∧ R.stem d v = R.stem d v'

def IsTable (R : Radix) (mem : ℕ → ℕ → ℕ) (roots : Set ℕ) (N t : ℕ) : Prop :=
  ∃ r ∈ roots, ∃ d ≤ R.height, ∃ v < N, R.tableAt mem r d v = some t

variable {roots : Set ℕ} {N : ℕ}

lemma tableAt_of_same (hr : r ∈ roots) (hv : v < N) (hd : d ≤ R.height)
    (h : ∀ t, R.IsTable mem roots N t → ∀ i, mem' t i = mem t i) : R.tableAt mem' r d v = R.tableAt mem r d v := by
  apply tableAt_congr
  intro e he t ht
  rw [h t ⟨r, hr, e, by omega, v, hv, ht⟩]

lemma leaf_of_same (hr : r ∈ roots) (hv : v < N) (h : ∀ t, R.IsTable mem roots N t → ∀ i, mem' t i = mem t i) :
    R.leaf mem' r v = R.leaf mem r v := by
  unfold leaf
  rw [tableAt_of_same hr hv (le_refl _) h]
  cases ht : R.tableAt mem r R.height v with
  | none => rfl
  | some t => exact h t ⟨r, hr, R.height, le_refl _, v, hv, ht⟩ _

lemma isTable_congr (h : ∀ r ∈ roots, ∀ d ≤ R.height, ∀ v < N, R.tableAt mem' r d v = R.tableAt mem r d v) :
    R.IsTable mem' roots N t ↔ R.IsTable mem roots N t := by
  constructor
  · intro ht
    obtain ⟨r, hr, d, hd, v, hv, ht⟩ := ht
    exact ⟨r, hr, d, hd, v, hv, h r hr d hd v hv ▸ ht⟩
  · intro ht
    obtain ⟨r, hr, d, hd, v, hv, ht⟩ := ht
    exact ⟨r, hr, d, hd, v, hv, (h r hr d hd v hv).trans ht⟩

lemma Forest.congr (hf : R.Forest mem roots N) (h : ∀ r ∈ roots, ∀ d ≤ R.height, ∀ v < N,
      R.tableAt mem' r d v = R.tableAt mem r d v) : R.Forest mem' roots N := by
  refine ⟨?_⟩
  intro r hr r' hr' d hd d' hd' v hv v' hv' t ht ht'
  rw [h r hr d hd v hv] at ht
  rw [h r' hr' d' hd' v' hv'] at ht'
  exact hf.unique r hr r' hr' d hd d' hd' v hv v' hv' t ht ht'

/-- The tables of `mem'` are those of `mem` but for one word. -/
structure Wrote (R : Radix) (mem mem' : ℕ → ℕ → ℕ) (roots : Set ℕ) (N t i w : ℕ) : Prop where
  here : mem' t i = w
  elsewhere : ∀ t', R.IsTable mem roots N t' → ∀ j, (t' ≠ t ∨ j ≠ i) → mem' t' j = mem t' j

variable {w : ℕ}

section
variable (hf : R.Forest mem roots N) (hr : r ∈ roots) (hv : v < N) (ht : R.tableAt mem r R.height v = some t) (hw : R.Wrote mem mem' roots N t (R.slot R.height v) w) (hr' : r' ∈ roots) (hv' : v' < N)
include hf hr hv ht hw hr' hv'

lemma Forest.tableAt_writeLeaf
        (hd' : d' ≤ R.height) : R.tableAt mem' r' d' v' = R.tableAt mem r' d' v' := by
  apply tableAt_congr
  intro e he t' ht'
  have hne : t' ≠ t := by
    intro h
    subst h
    have := (hf.unique r' hr' r hr e (by omega) R.height (le_refl _) v' hv' v hv t' ht' ht).2.1
    omega
  rw [hw.elsewhere t' ⟨r', hr', e, by omega, v', hv', ht'⟩ _ (.inl hne)]

lemma Forest.leaf_writeLeaf
    :
    R.leaf mem' r' v' = if r' = r ∧ v' = v then w else R.leaf mem r' v' := by
  have htab := hf.tableAt_writeLeaf hr hv ht hw hr' hv' (le_refl _)
  by_cases hsame : r' = r ∧ v' = v
  · rw [if_pos hsame]
    obtain ⟨rfl, rfl⟩ := hsame
    rw [leaf_of_tableAt (htab.trans ht)]
    exact hw.here
  · rw [if_neg hsame]
    cases hcase : R.tableAt mem r' R.height v' with
    | none => rw [leaf_of_none (htab.trans hcase), leaf_of_none hcase]
    | some t' =>
      rw [leaf_of_tableAt (htab.trans hcase), leaf_of_tableAt hcase]
      apply hw.elsewhere t' ⟨r', hr', R.height, le_refl _, v', hv', hcase⟩
      by_cases htt : t' = t
      · subst htt
        obtain ⟨hrr, _, hstem⟩ := hf.unique r' hr' r hr R.height (le_refl _) R.height
          (le_refl _) v' hv' v hv t' hcase ht
        refine .inr (fun hslot => hsame ⟨hrr, ?_⟩)
        have := (stem_succ_eq_iff (le_refl _)).mpr ⟨hstem, hslot⟩
        rwa [stem_top, stem_top] at this
      · exact .inl htt

end

/-- A write that hangs an empty new table under an unused entry. -/
structure Linked (R : Radix) (mem mem' : ℕ → ℕ → ℕ) (roots : Set ℕ) (N r d v t t' w : ℕ) : Prop where
  root : r ∈ roots
  key : v < N
  depth : d < R.height
  table : R.tableAt mem r d v = some t
  unused : R.child d (mem t (R.slot d v)) = none
  points : R.child d w = some t'
  fresh : ¬ R.IsTable mem roots N t'
  empty : ∀ j, mem' t' j = 0
  zero : ∀ e, R.child e 0 = none
  wrote : R.Wrote mem mem' roots N t (R.slot d v) w

section
variable (hl : R.Linked mem mem' roots N r d v t t' w)
include hl

lemma Linked.ended : R.tableAt mem r (d + 1) v = none := by
  simp only [Radix.tableAt]
  rw [hl.table]
  exact hl.unused

lemma Linked.tableAt (hf : R.Forest mem roots N)
    (hr' : r' ∈ roots) (hv' : v' < N) (hd' : d' ≤ R.height) : R.tableAt mem' r' d' v' =
      if r' = r ∧ d' = d + 1 ∧ R.stem (d + 1) v' = R.stem (d + 1) v then some t'
      else R.tableAt mem r' d' v' := by
  have hdh := hl.depth
  induction d' with
  | zero => rw [if_neg (by omega)]; rfl
  | succ e ih =>
    have he := ih (by omega)
    -- below the new entry the old walk had ended
    have hended : r' = r → R.stem (d + 1) v' = R.stem (d + 1) v → R.tableAt mem r' (d + 1) v' = none := by
      intro hrr hstem
      rw [tableAt_stem (by omega) hstem, hrr, hl.ended]
    -- the table that got the new entry
    have hup : r' = r ∧ e + 1 = d + 1 ∧ R.stem (d + 1) v' = R.stem (d + 1) v → R.tableAt mem r' e v' = some t := by
      rintro ⟨hrr, hed, hstem⟩
      obtain rfl : e = d := Nat.succ.inj hed
      have hsame : R.tableAt mem r e v' = R.tableAt mem r e v :=
        tableAt_stem (le_of_lt (lt_succ_of_lt hdh)) (stem_eq_of_le (le_of_lt hdh) hstem)
      rw [hrr, hsame, hl.table]
    by_cases hnew : r' = r ∧ e = d + 1 ∧ R.stem (d + 1) v' = R.stem (d + 1) v
    · rw [if_pos hnew] at he
      rw [if_neg (by omega)]
      simp only [Radix.tableAt]
      rw [he]
      obtain ⟨hrr, hed, hstem⟩ := hnew
      have hold := hended hrr hstem
      rw [← hed] at hold
      rw [hold]
      change R.child e (mem' t' _) = none
      rw [hl.empty, hl.zero]
    · rw [if_neg hnew] at he
      simp only [Radix.tableAt]
      rw [he]
      cases ht₀ : R.tableAt mem r' e v' with
      | none =>
        rw [if_neg]
        · rfl
        · exact fun hc => nomatch ht₀.symm.trans (hup hc)
      | some t₀ =>
        have htab : R.IsTable mem roots N t₀ := ⟨r', hr', e, by omega, v', hv', ht₀⟩
        by_cases htt : t₀ = t
        · subst htt
          obtain ⟨hrr, hed, hstem⟩ := hf.unique r' hr' r hl.root e (by omega) d (by omega)
            v' hv' v hl.key t₀ ht₀ hl.table
          subst hed
          by_cases hslot : R.slot e v' = R.slot e v
          · rw [if_pos ⟨hrr, rfl, (stem_succ_eq_iff (by omega)).mpr ⟨hstem, hslot⟩⟩]
            change R.child e (mem' t₀ (R.slot e v')) = some t'
            rw [hslot, hl.wrote.here]
            exact hl.points
          · rw [if_neg (fun hc => hslot ((stem_succ_eq_iff (by omega)).mp hc.2.2).2)]
            change R.child e (mem' t₀ (R.slot e v')) = R.child e (mem t₀ (R.slot e v'))
            rw [hl.wrote.elsewhere t₀ htab _ (.inr hslot)]
        · rw [if_neg]
          · change R.child e (mem' t₀ (R.slot e v')) = R.child e (mem t₀ (R.slot e v'))
            rw [hl.wrote.elsewhere t₀ htab _ (.inl htt)]
          · exact fun hc => htt (Option.mem_unique ht₀ (hup hc))

lemma Linked.leaf (hf : R.Forest mem roots N) (hr' : r' ∈ roots) (hv' : v' < N) : R.leaf mem' r' v' = R.leaf mem r' v' := by
  have htab := hl.tableAt hf hr' hv' (le_refl _)
  have hdh := hl.depth
  by_cases hnew : r' = r ∧ R.height = d + 1 ∧ R.stem (d + 1) v' = R.stem (d + 1) v
  · rw [if_pos hnew] at htab
    rw [leaf_of_tableAt htab, hl.empty]
    have hold : R.tableAt mem r' R.height v' = none := by
      rw [hnew.2.1, tableAt_stem (by omega) hnew.2.2, hnew.1, hl.ended]
    rw [leaf_of_none hold]
  · rw [if_neg hnew] at htab
    cases ht₀ : R.tableAt mem r' R.height v' with
    | none => rw [leaf_of_none (htab.trans ht₀), leaf_of_none ht₀]
    | some t₀ =>
      rw [leaf_of_tableAt (htab.trans ht₀), leaf_of_tableAt ht₀]
      apply hl.wrote.elsewhere t₀ ⟨r', hr', R.height, le_refl _, v', hv', ht₀⟩
      refine .inl (fun htt => ?_)
      subst htt
      have := (hf.unique r' hr' r hl.root R.height (le_refl _) d (by omega) v' hv' v hl.key
        t₀ ht₀ hl.table).2.1
      omega

lemma Linked.forest (hf : R.Forest mem roots N) : R.Forest mem' roots N := by
  refine ⟨?_⟩
  intro r₁ hr₁ r₂ hr₂ d₁ hd₁ d₂ hd₂ v₁ hv₁ v₂ hv₂ t₀ ht₁ ht₂
  rw [hl.tableAt hf hr₁ hv₁ hd₁] at ht₁
  rw [hl.tableAt hf hr₂ hv₂ hd₂] at ht₂
  split at ht₁
  next h₁ =>
    split at ht₂
    next h₂ =>
      refine ⟨h₁.1.trans h₂.1.symm, h₁.2.1.trans h₂.2.1.symm, ?_⟩
      rw [h₁.2.1]
      exact h₁.2.2.trans h₂.2.2.symm
    · rw [← Option.some.inj ht₁] at ht₂
      exact absurd ⟨r₂, hr₂, d₂, hd₂, v₂, hv₂, ht₂⟩ hl.fresh
  · split at ht₂
    · rw [← Option.some.inj ht₂] at ht₁
      exact absurd ⟨r₁, hr₁, d₁, hd₁, v₁, hv₁, ht₁⟩ hl.fresh
    · exact hf.unique r₁ hr₁ r₂ hr₂ d₁ hd₁ d₂ hd₂ v₁ hv₁ v₂ hv₂ t₀ ht₁ ht₂

lemma Linked.isTable (hf : R.Forest mem roots N)
    {t₀ : ℕ} (h : R.IsTable mem' roots N t₀) : t₀ = t' ∨ R.IsTable mem roots N t₀ := by
  obtain ⟨r₁, hr₁, d₁, hd₁, v₁, hv₁, ht₁⟩ := h
  rw [hl.tableAt hf hr₁ hv₁ hd₁] at ht₁
  split at ht₁
  · exact .inl (Option.some.inj ht₁).symm
  · exact .inr ⟨r₁, hr₁, d₁, hd₁, v₁, hv₁, ht₁⟩

end

lemma tableAt_empty_root {c : ℕ} (hc : ∀ v < N, R.child 0 (mem c (R.slot 0 v)) = none) (hv : v < N) :
    R.tableAt mem c (d + 1) v = none := by
  apply tableAt_none_of_le (d := 1) (succ_le_succ (zero_le d))
  exact hc v hv

lemma stem_zero (hN : N ≤ R.fan ^ (R.height + 1)) (hv : v < N) : R.stem 0 v = 0 := div_eq_of_lt (Nat.lt_of_lt_of_le hv hN)

lemma Forest.insert_root {c : ℕ} (hf : R.Forest mem roots N) (hN : N ≤ R.fan ^ (R.height + 1))
    (hfresh : ¬ R.IsTable mem roots N c)
    (hc : ∀ v < N, R.child 0 (mem c (R.slot 0 v)) = none) : R.Forest mem (insert c roots) N := by
  have honly : ∀ d v t, v < N → R.tableAt mem c d v = some t → d = 0 ∧ t = c := by
    intro d v t hv ht
    cases d with
    | zero => exact ⟨rfl, (Option.some.inj ht).symm⟩
    | succ d =>
      rw [tableAt_empty_root hc hv] at ht
      cases ht
  refine ⟨?_⟩
  intro r hr r' hr' d hd d' hd' v hv v' hv' t ht ht'
  rcases hr with hrc | hr
  · subst hrc
    obtain ⟨rfl, rfl⟩ := honly d v t hv ht
    rcases hr' with hrc' | hr'
    · subst hrc'
      obtain ⟨rfl, _⟩ := honly d' v' _ hv' ht'
      exact ⟨rfl, rfl, (stem_zero hN hv).trans (stem_zero hN hv').symm⟩
    · exact absurd ⟨r', hr', d', hd', v', hv', ht'⟩ hfresh
  · rcases hr' with hrc' | hr'
    · subst hrc'
      obtain ⟨rfl, rfl⟩ := honly d' v' t hv' ht'
      exact absurd ⟨r, hr, d, hd, v, hv, ht⟩ hfresh
    · exact hf.unique r hr r' hr' d hd d' hd' v hv v' hv' t ht ht'

lemma isTable_insert_root {c : ℕ} (hc : ∀ v < N, R.child 0 (mem c (R.slot 0 v)) = none)
    (h : R.IsTable mem (insert c roots) N t) : t = c ∨ R.IsTable mem roots N t := by
  obtain ⟨r, hr, d, hd, v, hv, ht⟩ := h
  rcases hr with hrc | hr
  · subst hrc
    cases d with
    | zero => exact .inl (Option.some.inj ht).symm
    | succ d =>
      rw [tableAt_empty_root hc hv] at ht
      cases ht
  · exact .inr ⟨r, hr, d, hd, v, hv, ht⟩

/-- Every entry above the last depth is zero or leads to a table. -/
def Clean (R : Radix) (mem : ℕ → ℕ → ℕ) (roots : Set ℕ) (N : ℕ) : Prop :=
  ∀ r ∈ roots, ∀ d < R.height, ∀ v < N, ∀ t, R.tableAt mem r d v = some t →
    mem t (R.slot d v) = 0 ∨ R.child d (mem t (R.slot d v)) ≠ none

lemma Clean.of_same (hc : R.Clean mem roots N)
    (h : ∀ t, R.IsTable mem roots N t → ∀ i, mem' t i = mem t i) : R.Clean mem' roots N := by
  intro r hr d hd v hv t ht
  rw [tableAt_of_same hr hv (le_of_lt hd) h] at ht
  rw [h t ⟨r, hr, d, le_of_lt hd, v, hv, ht⟩]
  exact hc r hr d hd v hv t ht

lemma Forest.clean_writeLeaf (hf : R.Forest mem roots N) (hc : R.Clean mem roots N) (hr : r ∈ roots)
    (hv : v < N) (ht : R.tableAt mem r R.height v = some t)
    (hw : R.Wrote mem mem' roots N t (R.slot R.height v) w) : R.Clean mem' roots N := by
  intro r' hr' d' hd' v' hv' t' ht'
  rw [hf.tableAt_writeLeaf hr hv ht hw hr' hv' (le_of_lt hd')] at ht'
  have hne : t' ≠ t := by
    intro h
    subst h
    have := (hf.unique r' hr' r hr d' (le_of_lt hd') R.height (le_refl _) v' hv' v hv t'
      ht' ht).2.1
    omega
  rw [hw.elsewhere t' ⟨r', hr', d', le_of_lt hd', v', hv', ht'⟩ _ (.inl hne)]
  exact hc r' hr' d' hd' v' hv' t' ht'

lemma Linked.clean (hl : R.Linked mem mem' roots N r d v t t' w) (hf : R.Forest mem roots N)
    (hc : R.Clean mem roots N) : R.Clean mem' roots N := by
  intro r₁ hr₁ d₁ hd₁ v₁ hv₁ t₁ ht₁
  rw [hl.tableAt hf hr₁ hv₁ (le_of_lt hd₁)] at ht₁
  split at ht₁
  · rw [← Option.some.inj ht₁]
    exact .inl (hl.empty _)
  · have htab : R.IsTable mem roots N t₁ := ⟨r₁, hr₁, d₁, le_of_lt hd₁, v₁, hv₁, ht₁⟩
    by_cases hsame : t₁ = t ∧ R.slot d₁ v₁ = R.slot d v
    · obtain ⟨htt, hslot⟩ := hsame
      subst htt
      have hd := (hf.unique r₁ hr₁ r hl.root d₁ (le_of_lt hd₁) d (le_of_lt hl.depth)
        v₁ hv₁ v hl.key t₁ ht₁ hl.table).2.1
      subst hd
      rw [hslot, hl.wrote.here, hl.points]
      exact .inr (by simp)
    · rw [hl.wrote.elsewhere t₁ htab _ (by
        by_cases htt : t₁ = t
        · exact .inr (fun hs => hsame ⟨htt, hs⟩)
        · exact .inl htt)]
      exact hc r₁ hr₁ d₁ hd₁ v₁ hv₁ t₁ ht₁

lemma Clean.insert_root {c : ℕ} (hc : R.Clean mem roots N) (hz : ∀ e, R.child e 0 = none)
    (h0 : ∀ v < N, mem c (R.slot 0 v) = 0) : R.Clean mem (insert c roots) N := by
  intro r hr d hd v hv t ht
  rcases hr with hrc | hr
  · subst hrc
    cases d with
    | zero =>
      rw [← Option.some.inj ht]
      exact .inl (h0 v hv)
    | succ d =>
      rw [tableAt_empty_root (fun v hv => by rw [h0 v hv, hz]) hv] at ht
      cases ht
  · exact hc r hr d hd v hv t ht

def key (R : Radix) (d q : ℕ) : ℕ := q * R.fan ^ (R.height - d)

lemma stem_key (d q : ℕ) : R.stem (d + 1) (R.key d q) = q := by
  unfold stem key
  rw [Nat.add_sub_add_right]
  exact Nat.mul_div_cancel q (Nat.pow_pos R.fan_pos)

lemma stem_eq_of_mem {q : ℕ} (h1 : R.key d q ≤ v) (h2 : v < R.key d (q + 1)) : R.stem (d + 1) v = q := by
  unfold stem
  rw [Nat.add_sub_add_right]
  exact Nat.div_eq_of_lt_le h1 h2

lemma lt_key_of_stem {q : ℕ} (h : R.stem (d + 1) v < q) : v < R.key d q := by
  unfold stem at h
  rw [Nat.add_sub_add_right] at h
  exact lt_mul_of_div_lt h (Nat.pow_pos R.fan_pos)

lemma key_succ (hd : d < R.height) (q : ℕ) : R.key (d + 1) (q * R.fan) = R.key d q := by
  unfold key
  rw [mul_assoc, mul_comm R.fan, ← pow_succ]
  congr 2
  omega

lemma key_lt_key {q q' : ℕ} (h : q < q') : R.key d q < R.key d q' := Nat.mul_lt_mul_of_pos_right h (Nat.pow_pos R.fan_pos)

variable (hd : d ≤ R.height) (q : ℕ)
include hd q

lemma slot_key : R.slot d (R.key d q) = q % R.fan := by
  rw [slot_eq_stem_mod hd, stem_key]

lemma stem_key_self : R.stem d (R.key d q) = q / R.fan := by
  rw [stem_succ hd, stem_key]

lemma slot_key_add {i : ℕ} (hi : i < R.fan) : R.slot d (R.key d (q * R.fan + i)) = i := by
  rw [slot_key hd, mul_add_mod_self_right, mod_eq_of_lt hi]

lemma stem_key_add {i : ℕ} (hi : i < R.fan) : R.stem d (R.key d (q * R.fan + i)) = R.stem d (R.key d (q * R.fan)) := by
  rw [stem_key_self hd, stem_key_self hd, mul_comm, mul_add_div R.fan_pos, div_eq_of_lt hi, mul_div_right _ R.fan_pos, add_zero]

end Radix

/-! ## Counting tables -/

open Finset

namespace Radix

/-- The number of tables on the next `l` depths below entry `q` of depth `d`, for the walks
`walk`. -/
def tablesBelow (R : Radix) (walk : ℕ → ℕ → Option ℕ) : ℕ → ℕ → ℕ → ℕ
  | 0, _, _ => 0
  | l + 1, d, q =>
    if (walk (d + 1) (R.key d q)).isNone then 0
    else 1 + ∑ i ∈ Finset.range R.fan, R.tablesBelow walk l (d + 1) (q * R.fan + i)

variable {R : Radix} {walk walk' : ℕ → ℕ → Option ℕ} {mem mem' : ℕ → ℕ → ℕ} {roots : Set ℕ}
  {N d l q r t t' v w : ℕ}

lemma tablesBelow_of_none (h : walk (d + 1) (R.key d q) = none) : R.tablesBelow walk l d q = 0 := by
  cases l with
  | zero => rfl
  | succ l => rw [tablesBelow, h, Option.isNone_none, if_pos rfl]

lemma tablesBelow_of_some (h : walk (d + 1) (R.key d q) ≠ none) : R.tablesBelow walk (l + 1) d q =
      1 + ∑ i ∈ Finset.range R.fan, R.tablesBelow walk l (d + 1) (q * R.fan + i) := by
  rw [tablesBelow, if_neg]
  rwa [Option.isNone_iff_eq_none]

lemma key_child_le (hd : d < R.height) {i : ℕ} (hi : i < R.fan) : R.key (d + 1) (q * R.fan + i + 1) ≤ R.key d (q + 1) := by
  rw [← key_succ hd (q + 1), succ_mul]
  exact Nat.mul_le_mul_right _ (Nat.add_lt_add_left hi _)

lemma tablesBelow_congr (h : ∀ d ≤ R.height, ∀ v < N, walk' d v = walk d v)
    (hl : d + l ≤ R.height) (hN : R.key d (q + 1) ≤ N) : R.tablesBelow walk' l d q = R.tablesBelow walk l d q := by
  induction l generalizing d q with
  | zero => rfl
  | succ l ih =>
    have hk : R.key d q < N := lt_of_lt_of_le (key_lt_key (lt_succ_self q)) hN
    have hsame := h (d + 1) (by omega) _ hk
    by_cases hnone : walk (d + 1) (R.key d q) = none
    · rw [tablesBelow_of_none hnone, tablesBelow_of_none (hsame.trans hnone)]
    · rw [tablesBelow_of_some hnone, tablesBelow_of_some (hsame ▸ hnone)]
      congr 1
      apply sum_congr rfl
      intro i hi
      exact ih (by omega)
        (le_trans (key_child_le (by omega) (mem_range.mp hi)) hN)

lemma sum_stem_eq (hd : d + 1 ≤ R.height) : (∑ i ∈ Finset.range R.fan, if R.stem (d + 2) v = q * R.fan + i then 1 else 0) =
      if R.stem (d + 1) v = q then 1 else 0 := by
  have hdiv : R.stem (d + 1) v = R.stem (d + 2) v / R.fan := stem_succ hd
  by_cases h : R.stem (d + 1) v = q
  · rw [if_pos h]
    have heq := div_add_mod (R.stem (d + 2) v) R.fan
    rw [← hdiv, h, mul_comm] at heq
    rw [sum_eq_single (R.stem (d + 2) v % R.fan)]
    · rw [if_pos heq.symm]
    · intro i _ hi
      rw [if_neg (by omega)]
    · intro hn
      exact absurd (mem_range.mpr (mod_lt _ R.fan_pos)) hn
  · rw [if_neg h]
    apply sum_eq_zero
    intro i hi
    rw [if_neg]
    intro heq
    apply h
    rw [hdiv, heq, mul_comm, mul_add_div R.fan_pos, div_eq_of_lt (mem_range.mp hi), add_zero]

lemma Linked.tablesBelow (hl : R.Linked mem mem' roots N r d v t t' w) (hf : R.Forest mem roots N)
    {d₁ : ℕ} (hle : d₁ + l ≤ R.height) (hN : R.key d₁ (q + 1) ≤ N) :
    R.tablesBelow (R.tableAt mem' r) l d₁ q = R.tablesBelow (R.tableAt mem r) l d₁ q +
      if d₁ ≤ d ∧ d < d₁ + l ∧ R.stem (d₁ + 1) v = q then 1 else 0 := by
  induction l generalizing d₁ q with
  | zero => rw [if_neg (by omega)]; rfl
  | succ l ih =>
    have hk : R.key d₁ q < N := lt_of_lt_of_le (key_lt_key (lt_succ_self q)) hN
    have hstem : R.stem (d₁ + 1) (R.key d₁ q) = q := stem_key d₁ q
    have hwalk := hl.tableAt hf hl.root hk (show d₁ + 1 ≤ R.height by omega)
    have hsum : (∑ i ∈ Finset.range R.fan, R.tablesBelow (R.tableAt mem' r) l (d₁ + 1) (q * R.fan + i)) =
        (∑ i ∈ Finset.range R.fan, R.tablesBelow (R.tableAt mem r) l (d₁ + 1) (q * R.fan + i)) +
          if d₁ + 1 ≤ d ∧ d < d₁ + 1 + l ∧ R.stem (d₁ + 1) v = q then 1 else 0 := by
      rw [sum_congr rfl (fun i hi => ih (by omega)
        (le_trans (key_child_le (by omega) (mem_range.mp hi)) hN)), sum_add_distrib]
      simp only [ite_and, sum_ite_irrel, sum_const_zero, sum_stem_eq (show d₁ + 1 ≤ R.height by omega)]
    by_cases hnew : d₁ = d ∧ R.stem (d₁ + 1) v = q
    · obtain ⟨rfl, hq⟩ := hnew
      have hold : R.tableAt mem r (d₁ + 1) (R.key d₁ q) = none := by
        rw [tableAt_stem (by omega) (hstem.trans hq.symm), hl.ended]
      rw [if_pos ⟨rfl, rfl, hstem.trans hq.symm⟩] at hwalk
      have hzero : (∑ i ∈ Finset.range R.fan, R.tablesBelow (R.tableAt mem r) l (d₁ + 1) (q * R.fan + i)) = 0 := by
        apply sum_eq_zero
        intro i hi
        apply tablesBelow_of_none
        apply tableAt_none_of_le (le_succ (d₁ + 1))
        have hchild : R.stem (d₁ + 1) (R.key (d₁ + 1) (q * R.fan + i)) = q := by
          rw [stem_key_self (by omega), mul_comm, mul_add_div R.fan_pos, div_eq_of_lt (mem_range.mp hi), add_zero]
        rw [tableAt_stem (by omega) (hchild.trans hstem.symm)]
        exact hold
      rw [tablesBelow_of_none hold, tablesBelow_of_some (by rw [hwalk]; simp), hsum, hzero, if_neg (by omega),
        if_pos ⟨le_refl _, by omega, hq⟩]
    · rw [if_neg (fun hc => hnew ⟨by omega, by
        rw [show d₁ = d by omega, ← hc.2.2, ← show d₁ = d by omega, hstem]⟩)] at hwalk
      by_cases hnone : R.tableAt mem r (d₁ + 1) (R.key d₁ q) = none
      · rw [tablesBelow_of_none hnone, tablesBelow_of_none (hwalk.trans hnone), if_neg]
        intro hc
        have hlt : d₁ + 1 ≤ d := by omega
        rw [tableAt_stem (by omega) (hstem.trans hc.2.2.symm)] at hnone
        cases hl.table.symm.trans (tableAt_none_of_le hlt hnone)
      · have hdeep : (d₁ + 1 ≤ d ∧ d < d₁ + 1 + l ∧ R.stem (d₁ + 1) v = q) ↔
            d₁ ≤ d ∧ d < d₁ + (l + 1) ∧ R.stem (d₁ + 1) v = q := by omega
        rw [tablesBelow_of_some hnone, tablesBelow_of_some (hwalk ▸ hnone), hsum, if_congr hdeep rfl rfl, add_assoc]

end Radix
end NodeKernel
