import NodeKernel.Memory.AddressSpaces

/-!
# Forking and dropping whole address spaces

A fork shares the entries of a root page by page; an exit drops them. A fork that runs out
of memory stops after a prefix of the pages.
-/
namespace NodeKernel
namespace Space
open Pte Function Finset Option Nat

def shareAll (σ : Space) (r c : ℕ) : ℕ → Space
  | 0 => σ
  | k + 1 => (σ.shareAll r c k).share (r, k) (c, k)

def releaseAll (σ : Space) (r : ℕ) : ℕ → Space
  | 0 => σ
  | k + 1 => (σ.releaseAll r k).release (r, k)

/-- How often sharing the first `k` pages of `r` counts the frame `f`. -/
def sharesOf (σ : Space) (r k f : ℕ) : ℕ :=
  ∑ v ∈ Finset.range k, if Sharable (σ.pte (r, v)) ∧ frame (σ.pte (r, v)) = f then 1 else 0

def load (σ : Space) (x : Entry) (i : ℕ) : Option ℕ :=
  if present (σ.pte x) then some (σ.data (frame (σ.pte x)) i) else none

def store (σ : Space) (x : Entry) (i w : ℕ) : Space :=
  if present (σ.pte x) = true ∧ writable (σ.pte x) = true then
    σ.setData (frame (σ.pte x)) (update (σ.data (frame (σ.pte x))) i w)
  else σ

/-- No count would pass the largest `u8`. -/
def Room (σ : Space) (r k : ℕ) : Prop := ∀ f, (σ.refs f).getD 1 + σ.sharesOf r k f ≤ 255

variable {σ : Space} {E : Finset Entry} {r c k k' v f : ℕ} {x y z : Entry} {exact : Prop}

lemma share_data : (σ.share x y).data = σ.data := by
  by_cases hp : present (σ.pte x) = false
  · rw [share_of_absent hp]
  · by_cases hs : Sharable (σ.pte x)
    · rw [share_of_sharable hs]
      rfl
    · rw [share_of_readonly (by simpa using hp) hs]
      rfl

lemma share_pte_ne (hx : z ≠ x) (hy : z ≠ y) : (σ.share x y).pte z = σ.pte z := by
  by_cases hp : present (σ.pte x) = false
  · rw [share_of_absent hp]
  · by_cases hs : Sharable (σ.pte x)
    · rw [share_of_sharable hs]
      exact (setPte_ne hy).trans (setPte_ne hx)
    · rw [share_of_readonly (by simpa using hp) hs]
      exact setPte_ne hy

lemma share_pte_left : (σ.share x y).pte x = if Sharable (σ.pte x) then toCow (σ.pte x) else σ.pte x := by
  by_cases hs : Sharable (σ.pte x)
  · rw [if_pos hs, share_of_sharable hs]
    change ((σ.setPte x (toCow (σ.pte x))).setPte y (toCow (σ.pte x))).pte x = _
    by_cases hxy : x = y
    · rw [hxy, setPte_self]
    · rw [setPte_ne hxy, setPte_self]
  · rw [if_neg hs]
    by_cases hp : present (σ.pte x) = false
    · rw [share_of_absent hp]
    · rw [share_of_readonly (by simpa using hp) hs]
      by_cases hxy : x = y
      · rw [hxy, setPte_self]
      · rw [setPte_ne hxy]

lemma share_pte_right : (σ.share x y).pte y =
    if present (σ.pte x) = false then σ.pte y
    else if Sharable (σ.pte x) then toCow (σ.pte x) else σ.pte x := by
  by_cases hp : present (σ.pte x) = false
  · rw [if_pos hp, share_of_absent hp]
  · rw [if_neg hp]
    by_cases hs : Sharable (σ.pte x)
    · rw [if_pos hs, share_of_sharable hs]
      exact setPte_self
    · rw [if_neg hs, share_of_readonly (by simpa using hp) hs]
      exact setPte_self

lemma shareAll_data : (σ.shareAll r c k).data = σ.data := by
  induction k with
  | zero => rfl
  | succ k ih => exact share_data.trans ih

lemma shareAll_pte_of (h : (x.1 ≠ r ∧ x.1 ≠ c) ∨ k ≤ x.2) : (σ.shareAll r c k).pte x = σ.pte x := by
  induction k with
  | zero => rfl
  | succ k ih =>
    have hne : ∀ a, (a = r ∨ a = c) → x ≠ (a, k) := by
      intro a ha he
      subst he
      rcases h with h | h
      · exact ha.elim h.1 h.2
      · exact not_succ_le_self k h
    have hk : (x.1 ≠ r ∧ x.1 ≠ c) ∨ k ≤ x.2 := h.imp id le_of_succ_le
    exact (share_pte_ne (hne r (.inl rfl)) (hne c (.inr rfl))).trans (ih hk)

lemma shareAll_pte_next (a : ℕ) : (σ.shareAll r c k).pte (a, k) = σ.pte (a, k) := shareAll_pte_of (.inr (Nat.le_refl k))

lemma shareAll_parent (hv : v < k) : (σ.shareAll r c k).pte (r, v) =
    if Sharable (σ.pte (r, v)) then toCow (σ.pte (r, v)) else σ.pte (r, v) := by
  induction k with
  | zero => exact absurd hv (Nat.not_lt_zero v)
  | succ k ih =>
    rcases Nat.lt_succ_iff_lt_or_eq.mp hv with hlt | heq
    · have hne : ∀ a, (r, v) ≠ (a, k) := fun a he => (Nat.ne_of_lt hlt) (Prod.mk.inj he).2
      exact (share_pte_ne (hne r) (hne c)).trans (ih hlt)
    · subst heq
      rw [← shareAll_pte_next (σ := σ) (r := r) (c := c) (k := v) r]
      exact share_pte_left

lemma shareAll_child (hv : v < k) : (σ.shareAll r c k).pte (c, v) =
    if present (σ.pte (r, v)) = false then σ.pte (c, v)
    else if Sharable (σ.pte (r, v)) then toCow (σ.pte (r, v)) else σ.pte (r, v) := by
  induction k with
  | zero => exact absurd hv (Nat.not_lt_zero v)
  | succ k ih =>
    rcases Nat.lt_succ_iff_lt_or_eq.mp hv with hlt | heq
    · have hne : ∀ a, (c, v) ≠ (a, k) := fun a he => (Nat.ne_of_lt hlt) (Prod.mk.inj he).2
      exact (share_pte_ne (hne r) (hne c)).trans (ih hlt)
    · subst heq
      have hold := shareAll_pte_next (σ := σ) (r := r) (c := c) (k := v)
      rw [← hold r, ← hold c]
      exact share_pte_right

lemma store_pte {i w : ℕ} : (σ.store x i w).pte = σ.pte := by
  unfold store
  split
  · rfl
  · rfl

lemma store_refs {i w : ℕ} : (σ.store x i w).refs = σ.refs := by
  unfold store
  split
  · rfl
  · rfl

lemma load_store_of_maps {i w : ℕ} (hs : present (σ.pte x) = true ∧ writable (σ.pte x) = true)
    (hy : σ.Maps y (frame (σ.pte x))) : (σ.store x i w).load y i = some w := by
  unfold load
  rw [store_pte, if_pos hy.1, hy.2]
  unfold store
  rw [if_pos hs]
  change some (update σ.data _ _ _ i) = some w
  rw [update_self, update_self]

lemma Coherent.load_store (hc : σ.Coherent E) (hx : x ∈ E) (hy : y ∈ E) (hne : x ≠ y) (i w j : ℕ) :
    (σ.store x i w).load y j = σ.load y j := by
  unfold load
  rw [store_pte]
  by_cases hp : present (σ.pte y) = true
  · rw [if_pos hp, if_pos hp]
    unfold store
    split
    next hs =>
      have hframe : frame (σ.pte y) ≠ frame (σ.pte x) := by
        intro he
        have hro := (hc x hx y hy hne _ ⟨hs.1, rfl⟩ ⟨hp, he⟩).1
        rw [hs.2] at hro
        cases hro
      exact congrArg some (congrFun (update_of_ne hframe _ _) j)
    · rfl
  · rw [if_neg hp, if_neg hp]

lemma shareAll_load_parent (v i : ℕ) : (σ.shareAll r c k).load (r, v) i = σ.load (r, v) i := by
  unfold load
  rw [shareAll_data]
  by_cases hv : v < k
  · rw [shareAll_parent hv]
    split
    · rw [present_toCow, frame_toCow]
    · rfl
  · rw [shareAll_pte_of (.inr (Nat.le_of_not_lt hv))]

lemma shareAll_load_child (hv : v < k) (h0 : present (σ.pte (c, v)) = false) (i : ℕ) :
    (σ.shareAll r c k).load (c, v) i = (σ.shareAll r c k).load (r, v) i := by
  unfold load
  rw [shareAll_child hv, shareAll_parent hv]
  split
  next hp =>
    have hns : ¬ Sharable (σ.pte (r, v)) := fun hs => by
      have := hs.1
      rw [hp] at this
      cases this
    rw [if_neg hns, h0, hp]
    rfl
  · rfl

lemma shareAll_of_absent (hle : k ≤ k') (h : ∀ v, k ≤ v → v < k' → present (σ.pte (r, v)) = false) :
    σ.shareAll r c k' = σ.shareAll r c k := by
  induction hle with
  | refl => rfl
  | step hle ih =>
    rename_i m
    have hm : present ((σ.shareAll r c m).pte (r, m)) = false := by
      rw [shareAll_pte_next]
      exact h m hle (lt_succ_self m)
    exact (share_of_absent hm).trans (ih (fun v h1 h2 => h v h1 (lt_succ_of_lt h2)))

lemma share_refs_eq (f : ℕ) : (σ.share x y).refs f =
    if Sharable (σ.pte x) ∧ frame (σ.pte x) = f then some (min ((σ.refs f).getD 1 + 1) 255)
    else σ.refs f := by
  by_cases hs : Sharable (σ.pte x)
  · rw [share_refs hs]
    by_cases hf : frame (σ.pte x) = f
    · rw [if_pos ⟨hs, hf⟩, ← hf, update_self]
    · rw [if_neg (fun hc => hf hc.2), update_of_ne (fun he => hf he.symm)]
  · rw [share_refs_readonly hs, if_neg (fun hc => hs hc.1)]

lemma shareAll_refs_succ (f : ℕ) : (σ.shareAll r c (k + 1)).refs f =
    if Sharable (σ.pte (r, k)) ∧ frame (σ.pte (r, k)) = f then
      some (min (((σ.shareAll r c k).refs f).getD 1 + 1) 255)
    else (σ.shareAll r c k).refs f := by
  have hstep := share_refs_eq (σ := σ.shareAll r c k) (x := (r, k)) (y := (c, k)) f
  rw [shareAll_pte_next] at hstep
  exact hstep

lemma le_shareAll_refs (f : ℕ) : min ((σ.refs f).getD 1) 255 ≤ ((σ.shareAll r c k).refs f).getD 1 := by
  induction k with
  | zero => exact min_le_left _ _
  | succ k ih =>
    rw [shareAll_refs_succ]
    split
    · rw [getD_some]
      omega
    · exact ih

lemma shareAll_refs_of_sharable (hv : v < k) (hs : Sharable (σ.pte (r, v))) :
    ∃ n, (σ.shareAll r c k).refs (frame (σ.pte (r, v))) = some n ∧
      min ((σ.refs (frame (σ.pte (r, v)))).getD 1 + 1) 255 ≤ n := by
  induction k with
  | zero => exact absurd hv (Nat.not_lt_zero v)
  | succ k ih =>
    rw [shareAll_refs_succ]
    rcases Nat.lt_succ_iff_lt_or_eq.mp hv with hlt | heq
    · obtain ⟨n, hn, hle⟩ := ih hlt
      rw [hn]
      split
      · refine ⟨_, rfl, ?_⟩
        rw [getD_some]
        omega
      · exact ⟨n, rfl, hle⟩
    · subst heq
      rw [if_pos ⟨hs, rfl⟩]
      refine ⟨_, rfl, ?_⟩
      have := le_shareAll_refs (σ := σ) (r := r) (c := c) (k := v) (frame (σ.pte (r, v)))
      omega

lemma shareAll_refs_saturated (h : ∀ v < k, Sharable (σ.pte (r, v)) → σ.refs (frame (σ.pte (r, v))) = some 255) :
    (σ.shareAll r c k).refs = σ.refs := by
  induction k with
  | zero => rfl
  | succ k ih =>
    have ih' := ih (fun v hv => h v (lt_succ_of_lt hv))
    funext f
    rw [shareAll_refs_succ, ih']
    split
    next hs => rw [← hs.2, h k (lt_succ_self k) hs.1]; rfl
    · rfl

lemma shareAll_refs_le : ((σ.shareAll r c k).refs f).getD 1 ≤ (σ.refs f).getD 1 + σ.sharesOf r k f := by
  induction k with
  | zero => exact le_refl _
  | succ k ih =>
    have hsum : σ.sharesOf r (k + 1) f = σ.sharesOf r k f +
        if Sharable (σ.pte (r, k)) ∧ frame (σ.pte (r, k)) = f then 1 else 0 :=
      sum_range_succ ..
    rw [shareAll_refs_succ, hsum]
    split
    · rw [getD_some]
      omega
    · exact ih

lemma Room.shareAll_lt (h : σ.Room r k') (hk : k < k') (hs : Sharable (σ.pte (r, k))) :
    ((σ.shareAll r c k).refs (frame (σ.pte (r, k)))).getD 1 < 255 := by
  have hle := shareAll_refs_le (σ := σ) (r := r) (c := c) (k := k) (f := frame (σ.pte (r, k)))
  have hroom := h (frame (σ.pte (r, k)))
  have hsum : σ.sharesOf r (k + 1) (frame (σ.pte (r, k))) = σ.sharesOf r k (frame (σ.pte (r, k))) + 1 := by
    unfold sharesOf
    rw [sum_range_succ, if_pos ⟨hs, rfl⟩]
  have hmono : σ.sharesOf r (k + 1) (frame (σ.pte (r, k))) ≤ σ.sharesOf r k' (frame (σ.pte (r, k))) :=
    sum_le_sum_of_subset (range_mono hk)
  omega

section ShareAll
variable (hr : ∀ v < k, (r, v) ∈ E)
include hr

lemma Coherent.shareAll (hc : σ.Coherent E) : (σ.shareAll r c k).Coherent E := by
  induction k with
  | zero => exact hc
  | succ k ih =>
    exact (ih (fun v hv => hr v (lt_succ_of_lt hv))).share (hr k (lt_succ_self k)) (c, k)

variable (hc : ∀ v < k, (c, v) ∈ E)
include hc

lemma Booked.shareAll (h : σ.Booked exact E) (hcoh : σ.Coherent E) (h0 : c = r ∨ ∀ v < k, present (σ.pte (c, v)) = false)
    (hne : exact → c ≠ r ∨ ∀ v < k, ¬ Sharable (σ.pte (r, v))) (hroom : σ.Room r k) : (σ.shareAll r c k).Booked exact E := by
  suffices h : ∀ j ≤ k, (σ.shareAll r c j).Booked exact E from h k (le_refl k)
  intro j hj
  induction j with
  | zero => exact h
  | succ j ih =>
    have hcoh' := Coherent.shareAll (c := c)
      (fun v hv => hr v (lt_of_lt_of_le hv (le_of_succ_le hj))) hcoh
    apply (ih (le_of_succ_le hj)).share hcoh' (hr j hj) (hc j hj)
    · rcases h0 with h0 | h0
      · exact .inl (by rw [h0])
      · rw [shareAll_pte_next]
        exact .inr (h0 j hj)
    · rw [shareAll_pte_next]
      exact fun he => (hne he).imp (fun hcr heq => hcr (Prod.mk.inj heq).1) (fun hun => hun j hj)
    · rw [shareAll_pte_next]
      exact fun hs => hroom.shareAll_lt hj hs

end ShareAll

lemma releaseAll_pte : (σ.releaseAll r k).pte = σ.pte := by
  induction k with
  | zero => rfl
  | succ k ih => exact release_pte.trans ih

def without (E : Finset Entry) (r k : ℕ) : Finset Entry := E.filter (fun x => ¬ (x.1 = r ∧ x.2 < k))

lemma mem_without : x ∈ without E r k ↔ x ∈ E ∧ ¬ (x.1 = r ∧ x.2 < k) := mem_filter

lemma without_zero : without E r 0 = E := filter_true_of_mem (fun x _ h => Nat.not_lt_zero x.2 h.2)

lemma without_succ : without E r (k + 1) = (without E r k).erase (r, k) := by
  ext x
  rw [mem_erase, mem_without, mem_without]
  obtain ⟨a, v⟩ := x
  simp only [ne_eq, Prod.mk.injEq, not_and]
  constructor
  · intro h
    exact ⟨fun ha hv => h.2 ha (hv ▸ lt_succ_self v), h.1, fun ha hv => h.2 ha (lt_succ_of_lt hv)⟩
  · intro h
    refine ⟨h.2.1, fun ha hv => ?_⟩
    rcases Nat.lt_succ_iff_lt_or_eq.mp hv with hlt | heq
    · exact h.2.2 ha hlt
    · exact h.1 ha heq

lemma Coherent.releaseAll (hc : σ.Coherent E) : (σ.releaseAll r k).Coherent (without E r k) := by
  unfold Coherent Maps
  rw [releaseAll_pte]
  exact hc.mono (filter_subset _ E)

lemma Booked.releaseAll (hr : ∀ v < k, (r, v) ∈ E) (h : σ.Booked exact E) :
    (σ.releaseAll r k).Booked exact (without E r k) := by
  induction k with
  | zero =>
    rw [without_zero]
    exact h
  | succ k ih =>
    rw [without_succ]
    apply (ih (fun v hv => hr v (lt_succ_of_lt hv))).release
    exact mem_without.mpr ⟨hr k (lt_succ_self k), fun h => lt_irrefl k h.2⟩

end Space

/-! ## New roots -/

namespace Space
open Pte Finset

variable {σ σ' : Space} {E E' : Finset Entry} {r c k n v f : ℕ} {x y : Entry} {exact : Prop}

lemma refCount_congr (h : ∀ x ∈ E, hit (σ'.pte x) f = hit (σ.pte x) f) : σ'.refCount E f = σ.refCount E f := sum_congr rfl h

lemma Coherent.congr (hc : σ.Coherent E) (h : ∀ x ∈ E, σ'.pte x = σ.pte x) : σ'.Coherent E := by
  intro x hx y hy hne f hmx hmy
  unfold Maps at hmx hmy
  rw [h x hx] at hmx ⊢
  rw [h y hy] at hmy ⊢
  exact hc x hx y hy hne f hmx hmy

lemma Room.congr (hroom : σ.Room r k) (hrefs : σ'.refs = σ.refs)
    (h : ∀ v < k, (Sharable (σ'.pte (r, v)) ∨ Sharable (σ.pte (r, v))) → σ'.pte (r, v) = σ.pte (r, v)) : σ'.Room r k := by
  intro f
  have hsame : σ'.sharesOf r k f = σ.sharesOf r k f := by
    apply sum_congr rfl
    intro v hv
    by_cases hs : Sharable (σ'.pte (r, v)) ∨ Sharable (σ.pte (r, v))
    · rw [h v (mem_range.mp hv) hs]
    · rw [not_or] at hs
      rw [if_neg (fun hc => hs.1 hc.1), if_neg (fun hc => hs.2 hc.1)]
  rw [hrefs, hsame]
  exact hroom f

def withRoot (E : Finset Entry) (c n : ℕ) : Finset Entry := E ∪ {c} ×ˢ Finset.range n

lemma mem_withRoot : x ∈ withRoot E c n ↔ x ∈ E ∨ (x.1 = c ∧ x.2 < n) := by
  unfold withRoot
  rw [mem_union, mem_product, mem_singleton, mem_range]

lemma subset_withRoot : E ⊆ withRoot E c n := subset_union_left

section ClearRoot
variable (hfresh : ∀ x ∈ E, x.1 ≠ c)
include hfresh

lemma refCount_clearRoot (f : ℕ) : (σ.clearRoot c).refCount (withRoot E c n) f = σ.refCount E f := by
  have hsum : σ.refCount E f = (σ.clearRoot c).refCount E f := sum_congr rfl (fun x hx => by rw [clearRoot_ne (hfresh x hx)])
  rw [hsum]
  symm
  apply sum_subset subset_withRoot
  intro x hx hxE
  have hxc := ((mem_withRoot.mp hx).resolve_left hxE).1
  rw [clearRoot_self hxc]
  exact hit_eq_zero (by simp [present])

lemma Coherent.clearRoot (hc : σ.Coherent E) : (σ.clearRoot c).Coherent (withRoot E c n) := by
  have hmaps : ∀ x ∈ withRoot E c n, ∀ f, (σ.clearRoot c).Maps x f → x ∈ E := by
    intro x hx f hm
    refine (mem_withRoot.mp hx).resolve_right (fun hxc => ?_)
    unfold Maps at hm
    rw [clearRoot_self hxc.1] at hm
    simp [present] at hm
  intro x hx y hy hne f hmx hmy
  have hxE := hmaps x hx f hmx
  have hyE := hmaps y hy f hmy
  exact (hc.congr (fun z hz => clearRoot_ne (hfresh z hz))) x hxE y hyE hne f hmx hmy

lemma Booked.clearRoot (h : σ.Booked exact E) : (σ.clearRoot c).Booked exact (withRoot E c n) :=
  h.congr rfl (refCount_clearRoot hfresh)

end ClearRoot

lemma Room.clearRoot (hroom : σ.Room r k) (hrc : r ≠ c) : (σ.clearRoot c).Room r k :=
  hroom.congr rfl (fun _ _ _ => clearRoot_ne hrc)

/-- `σ'` is `σ`, perhaps with one more page at `x`, which is neither writable nor marked and
lies in a frame that no entry maps. -/
inductive Grows (σ : Space) (E : Finset Entry) (x : Entry) : Space → Prop
  | refl : Grows σ E x σ
  | page {g w : ℕ} {d : ℕ → ℕ} (hunused : σ.pte x = 0) (hfree : ∀ y ∈ E, ¬ σ.Maps y g)
      (hframe : frame w = g) (hw : writable w = false) (hcow : cow w = false) :
      Grows σ E x ((σ.setData g d).setPte x w)

namespace Grows
variable (h : Grows σ E x σ')
include h

lemma refs : σ'.refs = σ.refs := by
  cases h with
  | refl => rfl
  | page => rfl

lemma pte_of_present (hp : present (σ.pte y) = true) : σ'.pte y = σ.pte y := by
  cases h with
  | refl => rfl
  | page hunused =>
    apply setPte_ne
    intro he
    rw [he, hunused] at hp
    simp [present] at hp

lemma pte_of_ne (hne : y ≠ x) : σ'.pte y = σ.pte y := by
  cases h with
  | refl => rfl
  | page => exact setPte_ne hne

lemma pte_of_sharable (hs : Sharable (σ'.pte y)) : σ'.pte y = σ.pte y := by
  cases h with
  | refl => rfl
  | page _ _ _ hw hcow =>
    apply setPte_ne
    intro he
    rw [he, setPte_self] at hs
    simp [Sharable, hw, hcow] at hs

lemma hit_eq (y : Entry) (f : ℕ) : hit (σ'.pte y) f = hit (σ.pte y) f := by
  cases h with
  | refl => rfl
  | page hunused _ _ _ hcow =>
    by_cases hy : y = x
    · rw [hy, setPte_self, hunused, hit_eq_zero (by simp [hcow]), hit_eq_zero (by simp [present])]
    · rw [setPte_ne hy]
      rfl

lemma data_of_maps (hy : y ∈ E) (hm : σ.Maps y f) : σ'.data f = σ.data f := by
  cases h with
  | refl => rfl
  | page _ hfree =>
    apply Function.update_of_ne
    intro he
    exact hfree y hy (he ▸ hm)

lemma load_of_some {i w : ℕ} (hy : y ∈ E) (hl : σ.load y i = some w) : σ'.load y i = some w := by
  unfold load at hl ⊢
  split at hl
  next hp =>
    rw [h.pte_of_present hp, if_pos hp, h.data_of_maps hy ⟨hp, rfl⟩]
    exact hl
  · cases hl

lemma coherent (hc : σ.Coherent E) : σ'.Coherent E := by
  cases h with
  | refl => exact hc
  | @page g w d _ hfree hframe =>
    have hc' : (σ.setData g d).Coherent E := hc
    apply hc'.setPte_alone
    intro y hy _ _
    rw [hframe]
    exact hfree y hy

lemma booked (hb : σ.Booked exact E') : σ'.Booked exact E' :=
  hb.congr h.refs (fun f => refCount_congr (fun y _ => h.hit_eq y f))

lemma room (hroom : σ.Room r k) : σ'.Room r k := by
  apply hroom.congr h.refs
  intro v _ hs
  rcases hs with hs | hs
  · exact h.pte_of_sharable hs
  · exact h.pte_of_present hs.1

end Grows

lemma Grows.absent (hg : Grows (σ.clearRoot c) E x σ') (hx : x.1 ≠ c) (v : ℕ) : present (σ'.pte (c, v)) = false := by
  have hne : (c, v) ≠ x := fun he => hx (by rw [← he])
  have hclear : (σ.clearRoot c).pte (c, v) = 0 := clearRoot_self rfl
  rw [hg.pte_of_ne hne, hclear]
  rfl

lemma Room.mono (h : σ.Room r n) (hk : k ≤ n) : σ.Room r k :=
  fun f => (Nat.add_le_add_left (sum_le_sum_of_subset (range_mono hk)) _).trans (h f)

/-! Forking `r` into the new root `c`, of which the first `k` of `n` pages are done. -/
section Fork
variable (hfresh : ∀ y ∈ E, y.1 ≠ c) (hr : ∀ v < n, (r, v) ∈ E) (hk : k ≤ n)
  (hg : Grows (σ.clearRoot c) (withRoot E c n) x σ')
include hfresh hr hk hg

lemma Coherent.fork (hc : σ.Coherent E) : (σ'.shareAll r c k).Coherent (withRoot E c n) :=
  (hg.coherent (hc.clearRoot hfresh)).shareAll
    (fun v hv => subset_withRoot (hr v (hv.trans_le hk)))

variable (hrc : r ≠ c) (hx : x.1 ≠ c) (hc : σ.Coherent E) (hroom : σ.Room r n)
include hrc hx hc hroom

lemma Booked.fork (h : σ.Booked exact E) : (σ'.shareAll r c k).Booked exact (withRoot E c n) :=
  (hg.booked (h.clearRoot hfresh)).shareAll
    (fun v hv => subset_withRoot (hr v (hv.trans_le hk)))
    (fun _ hv => mem_withRoot.mpr (.inr ⟨rfl, hv.trans_le hk⟩)) (hg.coherent (hc.clearRoot hfresh))
    (.inr (fun v _ => hg.absent hx v)) (fun _ => .inl hrc.symm) ((hg.room (hroom.clearRoot hrc)).mono hk)

end Fork

lemma shareAll_hit_of_unsharable (h : ∀ v < k, ¬ Sharable (σ.pte (r, v)))
    (h0 : c = r ∨ ∀ v < k, present (σ.pte (c, v)) = false) (x : Entry) (f : ℕ) :
    hit ((σ.shareAll r c k).pte x) f = hit (σ.pte x) f := by
  obtain ⟨a, v⟩ := x
  by_cases hv : k ≤ v
  · rw [shareAll_pte_of (.inr hv)]
  · have hlt := Nat.lt_of_not_le hv
    by_cases har : a = r
    · rw [har, shareAll_parent hlt, if_neg (h v hlt)]
    · by_cases hac : a = c
      · have habs := (h0.resolve_left (fun he => har (hac.trans he))) v hlt
        rw [hac, shareAll_child hlt, hit_eq_zero (e := σ.pte (c, v)) (by simp [habs])]
        split
        · exact hit_eq_zero (by simp [habs])
        next hp =>
          rw [if_neg (h v hlt)]
          apply hit_eq_zero
          intro hc
          exact h v hlt ⟨hc.1, .inr hc.2.1⟩
      · rw [shareAll_pte_of (.inl ⟨har, hac⟩)]

lemma Over.room_of_unsharable (ho : σ.Over E) (h : ∀ v < k, ¬ Sharable (σ.pte (r, v))) : σ.Room r k := by
  intro f
  have hnone : σ.sharesOf r k f = 0 := sum_eq_zero (fun v hv => if_neg (fun hc => h v (mem_range.mp hv) hc.1))
  have hle := ho.getD_le f
  rw [hnone, add_zero, ho.getD_one]
  omega

end Space
end NodeKernel
