import Mathlib.Algebra.Order.BigOperators.Group.Finset
import NodeKernel.Memory.Pte

/-!
# Address spaces without page tables

The abstract view of virtual memory: an entry for each root and page number, the table of
shared frames, and the content of the frames. Sharing, resolving, dropping and
protecting an entry are single updates here.
-/
namespace NodeKernel

open Function Finset Option

abbrev Entry := ℕ × ℕ

structure Space where
  pte : Entry → ℕ
  refs : ℕ → Option ℕ
  data : ℕ → ℕ → ℕ

namespace Space
open Pte

def hit (e f : ℕ) : ℕ := if present e = true ∧ cow e = true ∧ frame e = f then 1 else 0

def refCount (σ : Space) (E : Finset Entry) (f : ℕ) : ℕ := ∑ x ∈ E, hit (σ.pte x) f

def Maps (σ : Space) (x : Entry) (f : ℕ) : Prop := present (σ.pte x) = true ∧ frame (σ.pte x) = f

def setPte (σ : Space) (x : Entry) (w : ℕ) : Space := { σ with pte := update σ.pte x w }

def setRef (σ : Space) (f : ℕ) (rc : Option ℕ) : Space :=
  { σ with refs := update σ.refs f rc }

def setData (σ : Space) (f : ℕ) (d : ℕ → ℕ) : Space := { σ with data := update σ.data f d }

def clearRoot (σ : Space) (r : ℕ) : Space :=
  { σ with pte := fun x => if x.1 = r then 0 else σ.pte x }

def share (σ : Space) (x y : Entry) : Space :=
  let e := σ.pte x
  if present e = false then σ
  else if writable e = true ∨ cow e = true then
    ((σ.setPte x (toCow e)).setPte y (toCow e)).setRef (frame e)
      (some (min ((σ.refs (frame e)).getD 1 + 1) 255))
  else σ.setPte y e

variable {σ : Space} {E E' : Finset Entry} {x y : Entry} {e f g w : ℕ}

lemma hit_eq_zero (h : ¬ (present e = true ∧ cow e = true ∧ frame e = f)) : hit e f = 0 := if_neg h

lemma hit_eq_one (hp : present e = true) (hc : cow e = true) : hit e (frame e) = 1 := if_pos ⟨hp, hc, rfl⟩

lemma hit_toCow (hp : present e = true) : hit (toCow e) f = if frame e = f then 1 else 0 := by
  unfold hit
  simp [hp]

@[simp] lemma setRef_refCount {rc : Option ℕ} : (σ.setRef g rc).refCount E f = σ.refCount E f := rfl

lemma setPte_self : (σ.setPte x w).pte x = w := update_self ..

lemma setPte_ne (h : y ≠ x) : (σ.setPte x w).pte y = σ.pte y := update_of_ne h ..

lemma refs_of_many (h : ¬ (σ.refs f).getD 0 ≤ 1) : ∃ n, σ.refs f = some (n + 1) ∧ 1 ≤ n := by
  cases hrefs : σ.refs f with
  | none =>
    rw [hrefs] at h
    exact absurd (Nat.zero_le 1) h
  | some rc =>
    rw [hrefs, getD_some] at h
    exact ⟨rc - 1, by congr 1; omega, by omega⟩

lemma maps_of_setPte (h : (σ.setPte x w).Maps y f) : (y = x ∧ present w = true ∧ f = frame w) ∨ (y ≠ x ∧ σ.Maps y f) := by
  unfold Maps at h
  by_cases hy : y = x
  · rw [hy, setPte_self] at h
    exact .inl ⟨hy, h.1, h.2.symm⟩
  · rw [setPte_ne hy] at h
    exact .inr ⟨hy, h⟩

lemma maps_of_cleared (h : (σ.setPte x 0).Maps y f) : y ≠ x ∧ σ.Maps y f := by
  rcases maps_of_setPte h with hnew | hold
  · cases hnew.2.1
  · exact hold

lemma clearRoot_self {r : ℕ} (h : x.1 = r) : (σ.clearRoot r).pte x = 0 := if_pos h

lemma clearRoot_ne {r : ℕ} (h : x.1 ≠ r) : (σ.clearRoot r).pte x = σ.pte x := if_neg h

lemma refCount_setPte (hx : x ∈ E) (w f : ℕ) : (σ.setPte x w).refCount E f + hit (σ.pte x) f = σ.refCount E f + hit w f := by
  unfold refCount
  have h1 := add_sum_erase E (fun z => hit ((σ.setPte x w).pte z) f) hx
  have h2 := add_sum_erase E (fun z => hit (σ.pte z) f) hx
  have h3 : ∑ z ∈ E.erase x, hit ((σ.setPte x w).pte z) f = ∑ z ∈ E.erase x, hit (σ.pte z) f := by
    apply sum_congr rfl
    intro z hz
    rw [setPte_ne (ne_of_mem_erase hz)]
  simp only [setPte_self] at h1
  omega

lemma refCount_erase (hx : x ∈ E) (f : ℕ) : σ.refCount (E.erase x) f + hit (σ.pte x) f = σ.refCount E f := by
  rw [Nat.add_comm]
  exact add_sum_erase E (fun z => hit (σ.pte z) f) hx

lemma refCount_mono (h : E' ⊆ E) (f : ℕ) : σ.refCount E' f ≤ σ.refCount E f := sum_le_sum_of_subset h

lemma hit_le_refCount (hx : x ∈ E) (f : ℕ) : hit (σ.pte x) f ≤ σ.refCount E f := by
  have := refCount_erase (σ := σ) hx f
  omega

lemma two_le_refCount (hx : x ∈ E) (hy : y ∈ E) (hne : x ≠ y) (h : hit (σ.pte x) f = 1)
    (h' : hit (σ.pte y) f = 1) : 2 ≤ σ.refCount E f := by
  have h1 := refCount_erase (σ := σ) hx f
  have h2 := hit_le_refCount (σ := σ) (mem_erase.mpr ⟨hne.symm, hy⟩) f
  omega

/-- Entries that map one frame are not writable, and all or none carry the mark. -/
def Coherent (σ : Space) (E : Finset Entry) : Prop :=
  ∀ x ∈ E, ∀ y ∈ E, x ≠ y → ∀ f, σ.Maps x f → σ.Maps y f →
    writable (σ.pte x) = false ∧ cow (σ.pte x) = cow (σ.pte y)

/-- No frame has a smaller count than it has sharing entries. -/
structure Over (σ : Space) (E : Finset Entry) : Prop where
  range : ∀ f n, σ.refs f = some n → 1 ≤ n ∧ n ≤ 255
  le : ∀ f, σ.refCount E f ≤ (σ.refs f).getD 0

def Counted (σ : Space) (E : Finset Entry) : Prop :=
  ∀ f, σ.refs f = if σ.refCount E f = 0 then none else some (σ.refCount E f)

lemma Coherent.mono (h : σ.Coherent E) (hsub : E' ⊆ E) : σ.Coherent E' := fun x hx y hy => h x (hsub hx) y (hsub hy)

lemma Over.mono (h : σ.Over E) (hsub : E' ⊆ E) : σ.Over E' := ⟨h.range, fun f => (refCount_mono hsub f).trans (h.le f)⟩

lemma Coherent.alone (hc : σ.Coherent E) (hx : x ∈ E) (hp : present (σ.pte x) = true)
    (hcow : cow (σ.pte x) = true) (hcount : σ.refCount E (frame (σ.pte x)) ≤ 1) (hy : y ∈ E)
    (hne : y ≠ x) : ¬ σ.Maps y (frame (σ.pte x)) := by
  intro hm
  have hyc := (hc x hx y hy hne.symm (frame (σ.pte x)) ⟨hp, rfl⟩ hm).2
  have h1 : hit (σ.pte y) (frame (σ.pte x)) = 1 := if_pos ⟨hm.1, hyc ▸ hcow, hm.2⟩
  have := two_le_refCount hx hy hne.symm (hit_eq_one hp hcow) h1
  omega

lemma Coherent.setPte_alone (hc : σ.Coherent E) (h : ∀ y ∈ E, y ≠ x → present w = true → ¬ σ.Maps y (frame w)) :
    (σ.setPte x w).Coherent E := by
  intro a ha b hb hab f hma hmb
  unfold Maps at hma hmb
  by_cases hax : a = x
  · have hbx : b ≠ x := fun hbx => hab (hax.trans hbx.symm)
    rw [hax, setPte_self] at hma
    rw [setPte_ne hbx] at hmb
    exact absurd ⟨hmb.1, hmb.2.trans hma.2.symm⟩ (h b hb hbx hma.1)
  · rw [setPte_ne hax] at hma
    by_cases hbx : b = x
    · rw [hbx, setPte_self] at hmb
      exact absurd ⟨hma.1, hma.2.trans hmb.2.symm⟩ (h a ha hax hmb.1)
    · rw [setPte_ne hbx] at hmb
      rw [setPte_ne hax, setPte_ne hbx]
      exact hc a ha b hb hab f hma hmb

lemma Coherent.setPte_like (hc : σ.Coherent E) (hw : writable w = false)
    (h : ∀ y ∈ E, y ≠ x → present w = true → σ.Maps y (frame w) →
      writable (σ.pte y) = false ∧ cow (σ.pte y) = cow w) : (σ.setPte x w).Coherent E := by
  intro a ha b hb hab f hma hmb
  unfold Maps at hma hmb
  by_cases hax : a = x
  · have hbx : b ≠ x := fun hbx => hab (hax.trans hbx.symm)
    subst hax
    rw [setPte_self] at hma
    rw [setPte_ne hbx] at hmb
    rw [setPte_self, setPte_ne hbx]
    exact ⟨hw, (h b hb hbx hma.1 ⟨hmb.1, hmb.2.trans hma.2.symm⟩).2.symm⟩
  · rw [setPte_ne hax] at hma
    rw [setPte_ne hax]
    by_cases hbx : b = x
    · subst hbx
      rw [setPte_self] at hmb
      rw [setPte_self]
      exact h a ha hax hmb.1 ⟨hma.1, hma.2.trans hmb.2.symm⟩
    · rw [setPte_ne hbx] at hmb
      rw [setPte_ne hbx]
      exact hc a ha b hb hab f hma hmb

def Sharable (e : ℕ) : Prop := present e = true ∧ (writable e = true ∨ cow e = true)

def Backed (e : ℕ) : Prop := present e = true ∧ (user e = true ∨ writable e = true ∨ cow e = true)

lemma Sharable.backed (h : Sharable e) : Backed e := ⟨h.1, .inr h.2⟩

instance : DecidablePred Sharable := fun _ => inferInstanceAs (Decidable (_ ∧ _))

lemma share_of_absent (h : present (σ.pte x) = false) : σ.share x y = σ := if_pos h

lemma share_of_sharable (h : Sharable (σ.pte x)) :
    σ.share x y = ((σ.setPte x (toCow (σ.pte x))).setPte y (toCow (σ.pte x))).setRef
      (frame (σ.pte x)) (some (min ((σ.refs (frame (σ.pte x))).getD 1 + 1) 255)) := by
  unfold share
  rw [if_neg (by rw [h.1]; simp), if_pos h.2]

lemma share_of_readonly (hp : present (σ.pte x) = true) (h : ¬ Sharable (σ.pte x)) : σ.share x y = σ.setPte y (σ.pte x) := by
  unfold share
  rw [if_neg (by rw [hp]; simp), if_neg (fun hs => h ⟨hp, hs⟩)]

lemma Coherent.others_of_sharable (hc : σ.Coherent E) (hx : x ∈ E) (hs : Sharable (σ.pte x))
    {z : Entry} (hz : z ∈ E) (hne : z ≠ x) (hm : σ.Maps z (frame (σ.pte x))) :
    writable (σ.pte z) = false ∧ cow (σ.pte z) = true ∧ cow (σ.pte x) = true := by
  have h1 := hc x hx z hz hne.symm _ ⟨hs.1, rfl⟩ hm
  have h2 := hc z hz x hx hne _ hm ⟨hs.1, rfl⟩
  have hcow : cow (σ.pte x) = true := hs.2.resolve_left (by rw [h1.1]; simp)
  exact ⟨h2.1, h2.2.trans hcow, hcow⟩

lemma Coherent.share (hc : σ.Coherent E) (hx : x ∈ E) (y : Entry) : (σ.share x y).Coherent E := by
  by_cases hp : present (σ.pte x) = false
  · rw [share_of_absent hp]
    exact hc
  · rw [Bool.not_eq_false] at hp
    by_cases hs : Sharable (σ.pte x)
    · rw [share_of_sharable hs]
      have h1 : (σ.setPte x (toCow (σ.pte x))).Coherent E := by
        apply hc.setPte_like writable_toCow
        intro z hz hne _ hm
        rw [frame_toCow] at hm
        obtain ⟨hzw, hzc, _⟩ := hc.others_of_sharable hx hs hz hne hm
        exact ⟨hzw, hzc.trans cow_toCow.symm⟩
      have h2 : ((σ.setPte x (toCow (σ.pte x))).setPte y (toCow (σ.pte x))).Coherent E := by
        apply h1.setPte_like writable_toCow
        intro z hz _ _ hm
        by_cases hzx : z = x
        · rw [hzx, setPte_self]
          exact ⟨writable_toCow, rfl⟩
        · unfold Maps at hm
          rw [setPte_ne hzx, frame_toCow] at hm
          rw [setPte_ne hzx]
          obtain ⟨hzw, hzc, _⟩ := hc.others_of_sharable hx hs hz hzx hm
          exact ⟨hzw, hzc.trans cow_toCow.symm⟩
      exact h2
    · rw [share_of_readonly hp hs]
      have hw : writable (σ.pte x) = false := by
        rw [← Bool.not_eq_true]
        exact fun h => hs ⟨hp, .inl h⟩
      apply hc.setPte_like hw
      intro z hz _ _ hm
      by_cases hzx : z = x
      · rw [hzx]
        exact ⟨hw, rfl⟩
      · exact hc z hz x hx hzx _ hm ⟨hp, rfl⟩

lemma refCount_share (hx : x ∈ E) (hy : y ∈ E) (hyp : y = x ∨ present (σ.pte y) = false) (hs : Sharable (σ.pte x)) (f : ℕ) :
    (σ.share x y).refCount E f + hit (σ.pte x) f =
      σ.refCount E f + if frame (σ.pte x) = f then if y = x then 1 else 2 else 0 := by
  rw [share_of_sharable hs, setRef_refCount]
  have h1 := refCount_setPte (σ := σ) hx (toCow (σ.pte x)) f
  have h2 := refCount_setPte (σ := σ.setPte x (toCow (σ.pte x))) hy (toCow (σ.pte x)) f
  rw [hit_toCow hs.1] at h1
  by_cases hyx : y = x
  · rw [hyx, setPte_self] at h2
    rw [if_pos hyx, hyx]
    omega
  · have h3 : hit ((σ.setPte x (toCow (σ.pte x))).pte y) f = 0 := by
      apply hit_eq_zero
      rw [setPte_ne hyx, hyp.resolve_left hyx]
      simp
    rw [hit_toCow hs.1] at h2
    rw [if_neg hyx]
    split_ifs at h1 h2 ⊢
    · omega
    · omega

lemma refCount_share_readonly (hy : y ∈ E) (hyp : y = x ∨ present (σ.pte y) = false)
    (hp : present (σ.pte x) = true) (hs : ¬ Sharable (σ.pte x)) (f : ℕ) : (σ.share x y).refCount E f = σ.refCount E f := by
  rw [share_of_readonly hp hs]
  have h1 := refCount_setPte (σ := σ) hy (σ.pte x) f
  have h2 : hit (σ.pte x) f = 0 := hit_eq_zero (fun h => hs ⟨hp, .inr h.2.1⟩)
  have h3 : hit (σ.pte y) f = 0 := by
    rcases hyp with h | h
    · rw [h]; exact h2
    · exact hit_eq_zero (by rw [h]; simp)
  omega

lemma share_refs (hs : Sharable (σ.pte x)) : (σ.share x y).refs = update σ.refs (frame (σ.pte x))
      (some (min ((σ.refs (frame (σ.pte x))).getD 1 + 1) 255)) := by
  rw [share_of_sharable hs]
  rfl

lemma share_refs_readonly (h : ¬ Sharable (σ.pte x)) : (σ.share x y).refs = σ.refs := by
  by_cases hp : present (σ.pte x) = false
  · rw [share_of_absent hp]
  · rw [share_of_readonly (by simpa using hp) h]
    rfl

lemma Coherent.refCount_of_unmarked (hc : σ.Coherent E) (hx : x ∈ E) (hs : Sharable (σ.pte x))
    (hn : cow (σ.pte x) = false) : σ.refCount E (frame (σ.pte x)) = 0 := by
  apply sum_eq_zero
  intro z hz
  apply hit_eq_zero
  intro h
  by_cases hzx : z = x
  · rw [hzx, hn] at h
    simp at h
  · have := (hc.others_of_sharable hx hs hz hzx ⟨h.1, h.2.2⟩).2.2
    rw [hn] at this
    cases this

/-- Sharing an entry makes one more of its kind, or two of one that was not shared before. -/
theorem Coherent.refCount_share (hc : σ.Coherent E) (hx : x ∈ E) (hy : y ∈ E)
    (hyp : y = x ∨ present (σ.pte y) = false) (hs : Sharable (σ.pte x)) :
    (σ.share x y).refCount E (frame (σ.pte x)) ≤ max (σ.refCount E (frame (σ.pte x))) 1 + 1 ∧
      (y ≠ x → (σ.share x y).refCount E (frame (σ.pte x)) = max (σ.refCount E (frame (σ.pte x))) 1 + 1) := by
  have hcount := Space.refCount_share hx hy hyp hs (frame (σ.pte x))
  have hle := hit_le_refCount (σ := σ) hx (frame (σ.pte x))
  have hone : σ.refCount E (frame (σ.pte x)) + 1 =
      max (σ.refCount E (frame (σ.pte x))) 1 + hit (σ.pte x) (frame (σ.pte x)) := by
    cases hcow : cow (σ.pte x) with
    | true =>
      rw [hit_eq_one hs.1 hcow] at hle ⊢
      omega
    | false =>
      have h0 := hc.refCount_of_unmarked hx hs hcow
      omega
  rw [if_pos rfl] at hcount
  split_ifs at hcount with hyx
  · exact ⟨by omega, fun hne => absurd hyx hne⟩
  · exact ⟨by omega, fun _ => by omega⟩

/-- No frame has a smaller count than it has sharing entries; if the books are `exact`, none has a larger one. -/
structure Booked (exact : Prop) (σ : Space) (E : Finset Entry) : Prop where
  atLeast : σ.Over E
  eq : exact → ∀ f, σ.refCount E f = (σ.refs f).getD 0

variable {σ' : Space} {exact : Prop} {c : Option ℕ}

lemma Over.counted_iff (ho : σ.Over E) : σ.Counted E ↔ ∀ f, σ.refCount E f = (σ.refs f).getD 0 := by
  apply forall_congr'
  intro f
  cases hr : σ.refs f with
  | none => split_ifs with h0 <;> simp [h0]
  | some n =>
    have hpos := (ho.range f n hr).1
    split_ifs with h0
    · simp only [getD_some, false_iff]
      omega
    · rw [Option.some.injEq, getD_some, eq_comm]

lemma Over.booked (ho : σ.Over E) (hk : exact → σ.Counted E) : σ.Booked exact E := ⟨ho, fun he => ho.counted_iff.mp (hk he)⟩

lemma Booked.counted (h : σ.Booked exact E) (he : exact) : σ.Counted E := h.atLeast.counted_iff.mpr (h.eq he)

lemma Booked.congr (h : σ.Booked exact E) (hrefs : σ'.refs = σ.refs)
    (hcount : ∀ f, σ'.refCount E' f = σ.refCount E f) : σ'.Booked exact E' := by
  refine ⟨⟨?_, fun f => ?_⟩, fun he f => ?_⟩
  · rw [hrefs]
    exact h.atLeast.range
  · rw [hrefs, hcount]
    exact h.atLeast.le f
  · rw [hrefs, hcount]
    exact h.eq he f

lemma Booked.mono (h : σ.Booked exact E) (hsub : E' ⊆ E)
    (hrest : exact → ∀ x ∈ E, x ∉ E' → ∀ f, hit (σ.pte x) f = 0) : σ.Booked exact E' := by
  refine ⟨h.atLeast.mono hsub, fun he f => ?_⟩
  rw [← h.eq he f]
  exact sum_subset hsub (fun x hx hn => hrest he x hx hn f)

lemma Over.getD_one (ho : σ.Over E) (f : ℕ) : (σ.refs f).getD 1 = max ((σ.refs f).getD 0) 1 := by
  cases hr : σ.refs f with
  | none => rfl
  | some n => exact (max_eq_left (ho.range f n hr).1).symm

lemma Over.getD_le (ho : σ.Over E) (f : ℕ) : (σ.refs f).getD 0 ≤ 255 := by
  cases hr : σ.refs f with
  | none => exact Nat.zero_le _
  | some n => exact (ho.range f n hr).2

lemma Booked.setRef_of (h : σ.Booked exact E) (hrefs : σ'.refs = update σ.refs f c)
    (hrange : ∀ n, c = some n → 1 ≤ n ∧ n ≤ 255) (hle : σ'.refCount E' f ≤ c.getD 0) (heq : exact → σ'.refCount E' f = c.getD 0)
    (hother : ∀ f', f' ≠ f → σ'.refCount E' f' = σ.refCount E f') : σ'.Booked exact E' := by
  refine ⟨⟨fun f' n hn => ?_, fun f' => ?_⟩, fun he f' => ?_⟩
  · rw [hrefs] at hn
    by_cases hf : f' = f
    · rw [hf, update_self] at hn
      exact hrange n hn
    · rw [update_of_ne hf] at hn
      exact h.atLeast.range f' n hn
  · rw [hrefs]
    by_cases hf : f' = f
    · rw [hf, update_self]
      exact hle
    · rw [update_of_ne hf, hother f' hf]
      exact h.atLeast.le f'
  · rw [hrefs]
    by_cases hf : f' = f
    · rw [hf, update_self]
      exact heq he
    · rw [update_of_ne hf, hother f' hf]
      exact h.eq he f'

/-- No saturation: the count of a frame about to be shared is below the largest `u8`. -/
theorem Booked.share (h : σ.Booked exact E) (hc : σ.Coherent E) (hx : x ∈ E) (hy : y ∈ E)
    (hyp : y = x ∨ present (σ.pte y) = false) (hne : exact → y ≠ x ∨ ¬ Sharable (σ.pte x))
    (hsat : Sharable (σ.pte x) → (σ.refs (frame (σ.pte x))).getD 1 < 255) : (σ.share x y).Booked exact E := by
  by_cases hp : present (σ.pte x) = false
  · rw [share_of_absent hp]
    exact h
  rw [Bool.not_eq_false] at hp
  by_cases hs : Sharable (σ.pte x)
  · have hlt := hsat hs
    have hmax := h.atLeast.getD_one (frame (σ.pte x))
    have hle := h.atLeast.le (frame (σ.pte x))
    obtain ⟨hbound, hcount⟩ := hc.refCount_share hx hy hyp hs
    apply h.setRef_of (share_refs hs)
    · intro n hn
      rw [Option.some.injEq] at hn
      omega
    · rw [getD_some]
      omega
    · intro he
      have heq := h.eq he (frame (σ.pte x))
      rw [hcount ((hne he).resolve_right (fun hns => hns hs)), getD_some]
      omega
    · intro f hf
      have hother := Space.refCount_share hx hy hyp hs f
      rw [if_neg (Ne.symm hf), hit_eq_zero (fun hh => hf hh.2.2.symm)] at hother
      exact hother
  · exact h.congr (share_refs_readonly hs) (refCount_share_readonly hy hyp hp hs)

def ownInPlace (σ : Space) (x : Entry) : Space :=
  (σ.setRef (frame (σ.pte x)) none).setPte x (toOwned (frame (σ.pte x)) (σ.pte x))

/-- One of several owners moves to a private copy in the frame `g`. -/
def ownCopy (σ : Space) (x : Entry) (g n : ℕ) : Space :=
  ((σ.setRef (frame (σ.pte x)) (some n)).setData g (σ.data (frame (σ.pte x)))).setPte x
    (toOwned g (σ.pte x))

def release (σ : Space) (x : Entry) : Space :=
  if present (σ.pte x) = true ∧ cow (σ.pte x) = true then
    match σ.refs (frame (σ.pte x)) with
    | some rc => σ.setRef (frame (σ.pte x)) (if rc ≤ 1 then none else some (rc - 1))
    | none => σ
  else σ

lemma release_owned {rc : ℕ} (hm : present (σ.pte x) = true ∧ cow (σ.pte x) = true) (hrc : σ.refs (frame (σ.pte x)) = some rc) :
    σ.release x = σ.setRef (frame (σ.pte x)) (if rc ≤ 1 then none else some (rc - 1)) := by
  rw [release, if_pos hm, hrc]

lemma release_unowned (hrc : σ.refs (frame (σ.pte x)) = none) : σ.release x = σ := by
  rw [release, hrc, ite_self]

lemma Coherent.ownInPlace (hc : σ.Coherent E) (hx : x ∈ E) (hp : present (σ.pte x) = true)
    (hcow : cow (σ.pte x) = true) (hcount : σ.refCount E (frame (σ.pte x)) ≤ 1) : (σ.ownInPlace x).Coherent E := by
  have hc' : (σ.setRef (frame (σ.pte x)) none).Coherent E := hc
  apply hc'.setPte_alone
  intro y hy hne _
  rw [frame_toOwned (isFrame_frame _)]
  exact hc.alone hx hp hcow hcount hy hne

lemma Coherent.ownCopy {n : ℕ} (hc : σ.Coherent E) (hg : IsFrame g)
    (hfree : ∀ y ∈ E, ¬ σ.Maps y g) : (σ.ownCopy x g n).Coherent E := by
  have hc' : ((σ.setRef (frame (σ.pte x)) (some n)).setData g (σ.data (frame (σ.pte x)))).Coherent E := hc
  apply hc'.setPte_alone
  intro y hy _ _
  rw [frame_toOwned hg]
  exact hfree y hy

lemma hit_toOwned (hg : IsFrame g) (f : ℕ) : hit (toOwned g e) f = 0 := by
  apply hit_eq_zero
  rw [cow_toOwned hg]
  simp

lemma refCount_unshare (hx : x ∈ E) (hp : present (σ.pte x) = true)
    (hcow : cow (σ.pte x) = true) (hw : ∀ f, hit w f = 0) (f : ℕ) :
    (σ.setPte x w).refCount E f + (if frame (σ.pte x) = f then 1 else 0) = σ.refCount E f := by
  have h1 := refCount_setPte (σ := σ) hx w f
  rw [hw] at h1
  have h2 : hit (σ.pte x) f = if frame (σ.pte x) = f then 1 else 0 := by
    unfold hit
    simp [hp, hcow]
  omega

lemma Booked.drop (h : σ.Booked exact E) (hrefs : σ'.refs = update σ.refs g c)
    (hpos : ∀ n, c = some n → 1 ≤ n) (hdec : c.getD 0 = (σ.refs g).getD 0 - 1)
    (hcount : ∀ f, σ'.refCount E' f + (if g = f then 1 else 0) = σ.refCount E f) : σ'.Booked exact E' := by
  have hg := hcount g
  have hle := h.atLeast.le g
  rw [if_pos rfl] at hg
  apply h.setRef_of hrefs
  · intro n hn
    have hbound := h.atLeast.getD_le g
    rw [hn, getD_some] at hdec
    exact ⟨hpos n hn, by omega⟩
  · omega
  · intro he
    have heq := h.eq he g
    omega
  · intro f hf
    have hother := hcount f
    rwa [if_neg (Ne.symm hf)] at hother

section Own
variable (hx : x ∈ E) (hp : present (σ.pte x) = true) (hcow : cow (σ.pte x) = true)
include hx hp hcow

lemma refCount_ownInPlace (f : ℕ) : (σ.ownInPlace x).refCount E f + (if frame (σ.pte x) = f then 1 else 0) = σ.refCount E f :=
  refCount_unshare (σ := σ.setRef (frame (σ.pte x)) none) hx hp hcow
    (hit_toOwned (isFrame_frame _)) f

lemma refCount_ownCopy {n : ℕ} (hg : IsFrame g) (f : ℕ) :
    (σ.ownCopy x g n).refCount E f + (if frame (σ.pte x) = f then 1 else 0) = σ.refCount E f :=
  refCount_unshare
    (σ := (σ.setRef (frame (σ.pte x)) (some n)).setData g (σ.data (frame (σ.pte x)))) hx hp hcow
    (hit_toOwned hg) f

lemma Booked.ownInPlace (h : σ.Booked exact E) (hlast : (σ.refs (frame (σ.pte x))).getD 0 ≤ 1) :
    (σ.ownInPlace x).Booked exact E := by
  apply h.drop (g := frame (σ.pte x)) (c := none) rfl (by simp) _ (refCount_ownInPlace hx hp hcow)
  rw [getD_none]
  omega

lemma Booked.ownCopy (h : σ.Booked exact E) {n : ℕ} (hg : IsFrame g)
    (hrefs : σ.refs (frame (σ.pte x)) = some (n + 1)) (hn : 1 ≤ n) : (σ.ownCopy x g n).Booked exact E := by
  apply h.drop (g := frame (σ.pte x)) (c := some n) rfl _ _ (refCount_ownCopy hx hp hcow hg)
  · rintro _ ⟨rfl⟩
    exact hn
  · rw [hrefs]
    rfl

end Own

lemma release_pte : (σ.release x).pte = σ.pte := by
  unfold release
  split
  · split
    · rfl
    · rfl
  · rfl

lemma release_refCount : (σ.release x).refCount E f = σ.refCount E f := by
  unfold refCount
  rw [release_pte]

lemma refCount_erase_of_unmarked (hx : x ∈ E) (h : ¬ (present (σ.pte x) = true ∧ cow (σ.pte x) = true)) :
    σ.refCount (E.erase x) f = σ.refCount E f := by
  have h1 := refCount_erase (σ := σ) hx f
  have h2 : hit (σ.pte x) f = 0 := hit_eq_zero (fun hh => h ⟨hh.1, hh.2.1⟩)
  omega

lemma Booked.release (h : σ.Booked exact E) (hx : x ∈ E) : (σ.release x).Booked exact (E.erase x) := by
  by_cases hm : present (σ.pte x) = true ∧ cow (σ.pte x) = true
  · have hcount : ∀ f, (σ.release x).refCount (E.erase x) f + (if frame (σ.pte x) = f then 1 else 0) = σ.refCount E f := by
      intro f
      rw [release_refCount, ← refCount_erase hx f, hit]
      simp [hm]
    cases hr : σ.refs (frame (σ.pte x)) with
    | none =>
      have h1 := hcount (frame (σ.pte x))
      have h2 := h.atLeast.le (frame (σ.pte x))
      rw [if_pos rfl] at h1
      rw [hr, getD_none] at h2
      omega
    | some rc =>
      apply h.drop (congrArg Space.refs (release_owned hm hr)) _ _ hcount
      · intro n hn
        split_ifs at hn
        rw [Option.some.injEq] at hn
        omega
      · rw [hr, getD_some]
        split_ifs
        · rw [getD_none]
          omega
        · rfl
  · have hsame : σ.release x = σ := if_neg hm
    rw [hsame]
    exact h.congr rfl (fun f => refCount_erase_of_unmarked hx hm)

lemma Over.setPte_unmarked (ho : σ.Over E) (hw : ∀ f, hit w f = 0) : (σ.setPte x w).Over E := by
  refine ⟨ho.range, fun f => le_trans ?_ (ho.le f)⟩
  refine sum_le_sum fun y _ => ?_
  by_cases hy : y = x
  · rw [hy, setPte_self, hw]
    exact Nat.zero_le _
  · rw [setPte_ne hy]

end Space
end NodeKernel
