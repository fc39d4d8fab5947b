import NodeKernel.Memory.VmmWalks

/-!
# Changing the flags of a range of pages

Protecting and reclaiming rewrite the entries of a range of pages one by one. For the abstract spaces that is one
update.
-/
namespace NodeKernel
namespace Space
open Pte Function

def reflag (σ : Space) (r lo : ℕ) (g : ℕ → ℕ) (n : ℕ) : Space :=
  { σ with pte := fun x => if x.1 = r ∧ lo ≤ x.2 ∧ x.2 < lo + n then g (σ.pte x) else σ.pte x }

/-- The pages may get the write permission `b`: if they are given it, they are user pages and
no other entry maps their frames. -/
def Protectable (σ : Space) (E : Finset Entry) (r lo n : ℕ) (b : Bool) : Prop :=
  b = true → ∀ v, lo ≤ v → v < lo + n → present (σ.pte (r, v)) = true →
    user (σ.pte (r, v)) = true ∧ ∀ y ∈ E, y ≠ (r, v) → ¬ σ.Maps y (frame (σ.pte (r, v)))

variable {σ : Space} {E : Finset Entry} {x : Entry} {g : ℕ → ℕ} {r lo n v f : ℕ} {b b' : Bool}

lemma reflag_zero : σ.reflag r lo g 0 = σ := by
  unfold reflag
  congr
  funext x
  exact if_neg (by omega)

lemma reflag_of_mem (h1 : lo ≤ v) (h2 : v < lo + n) : (σ.reflag r lo g n).pte (r, v) = g (σ.pte (r, v)) := if_pos ⟨rfl, h1, h2⟩

lemma reflag_next : (σ.reflag r lo g n).pte (r, lo + n) = σ.pte (r, lo + n) := if_neg (fun h => Nat.lt_irrefl _ h.2.2)

lemma reflag_succ : σ.reflag r lo g (n + 1) = (σ.reflag r lo g n).setPte (r, lo + n) (g (σ.pte (r, lo + n))) := by
  unfold reflag setPte
  congr
  funext x
  by_cases hx : x = (r, lo + n)
  · subst hx
    rw [update_self]
    exact if_pos ⟨rfl, Nat.le_add_right _ _, Nat.lt_succ_self _⟩
  · rw [update_of_ne hx]
    have hiff : (x.1 = r ∧ lo ≤ x.2 ∧ x.2 < lo + (n + 1)) ↔ (x.1 = r ∧ lo ≤ x.2 ∧ x.2 < lo + n) := by
      constructor
      · intro h
        have hne : x.2 ≠ lo + n := fun he => hx (Prod.ext h.1 he)
        exact ⟨h.1, h.2.1, by omega⟩
      · exact fun h => ⟨h.1, h.2.1, by omega⟩
    exact if_congr hiff rfl rfl

lemma reflag_skip (h : g (σ.pte (r, lo + n)) = σ.pte (r, lo + n)) : σ.reflag r lo g (n + 1) = σ.reflag r lo g n := by
  rw [reflag_succ, h]
  unfold setPte
  rw [← reflag_next (σ := σ) (g := g), update_eq_self]

section Protect

lemma protect_pte (σ : Space) (r lo n : ℕ) (b b' : Bool) (x : Entry) : (σ.reflag r lo (reprotect b b') n).pte x = σ.pte x ∨
      (σ.reflag r lo (reprotect b b') n).pte x = reprotect b b' (σ.pte x) := by
  by_cases h : x.1 = r ∧ lo ≤ x.2 ∧ x.2 < lo + n
  · exact .inr (if_pos h)
  · exact .inl (if_neg h)

lemma protect_maps : (σ.reflag r lo (reprotect b b') n).Maps x f ↔ σ.Maps x f := by
  unfold Maps
  rcases protect_pte σ r lo n b b' x with h | h
  · rw [h]
  · rw [h, present_reprotect, frame_reprotect]

lemma protect_hit : hit ((σ.reflag r lo (reprotect b b') n).pte x) f = hit (σ.pte x) f := by
  rcases protect_pte σ r lo n b b' x with h | h
  · rw [h]
  · rw [h]
    unfold hit
    rw [present_reprotect, cow_reprotect, frame_reprotect]

lemma Over.protect (ho : σ.Over E) : (σ.reflag r lo (reprotect b b') n).Over E := by
  refine ⟨ho.range, ?_⟩
  intro f
  rw [refCount_congr (fun x _ => protect_hit)]
  exact ho.le f

lemma Coherent.protect (hc : σ.Coherent E) (hp : σ.Protectable E r lo n b) : (σ.reflag r lo (reprotect b b') n).Coherent E := by
  have hcow : ∀ x, cow ((σ.reflag r lo (reprotect b b') n).pte x) = cow (σ.pte x) := by
    intro x
    rcases protect_pte σ r lo n b b' x with h | h
    · rw [h]
    · rw [h, cow_reprotect]
  intro x hx y hy hne f hmx hmy
  have hmx' := protect_maps.mp hmx
  have hmy' := protect_maps.mp hmy
  have hold := hc x hx y hy hne f hmx' hmy'
  refine ⟨?_, by rw [hcow, hcow]; exact hold.2⟩
  by_cases hin : x.1 = r ∧ lo ≤ x.2 ∧ x.2 < lo + n
  · obtain ⟨hxr, h1, h2⟩ := hin
    have hentry : x = (r, x.2) := Prod.ext hxr rfl
    rw [hentry] at hmx' hne ⊢
    rw [reflag_of_mem h1 h2, writable_reprotect hmx'.1]
    by_contra hb
    have halone := (hp (by simpa using hb) x.2 h1 h2 hmx'.1).2 y hy hne.symm
    exact halone (hmx'.2 ▸ hmy')
  · have hsame : (σ.reflag r lo (reprotect b b') n).pte x = σ.pte x := if_neg hin
    rw [hsame]
    exact hold.1

end Protect
end Space

/-! ## Walkers that change flags -/

open Blocks Loops Function Nat

lemma page_shift (v : ℕ) : (v * pageSize) >>> 12 = v := by
  rw [shiftRight_eq_div_pow]
  exact Nat.mul_div_cancel v (by decide)

def pagesIn (addr len : ℕ) : ℕ := (addr + len + pageSize - 1) / pageSize - addr / pageSize

lemma lt_pagesIn {addr len v : ℕ} (hlen : 0 < len) (hlo : addr / pageSize ≤ v) :
    v < addr / pageSize + pagesIn addr len ↔ v * pageSize < addr + len := by
  unfold pagesIn
  simp only [pageSize] at hlo ⊢
  omega

namespace Vm
variable {vm : Vm} {L : FreeLists} {out : Finset Block} {P roots : Set ℕ} {E : Finset Entry}
  {S : Finset ℕ} {σ : Space} {r v t addr f lo : ℕ} {b b' : Bool}

namespace Refines

lemma writeWord (h : vm.Refines L out P roots E S σ) (hf : Held out P f)
    (hnot : ¬ pageTables.IsTable vm.pmm.mem roots userPages f) (i w : ℕ) : (vm.write f i w).Refines L out P roots E S
      (σ.setData f (update (σ.data f) i w)) := by
  have hsame : ∀ a, a ≠ f → ∀ j, vm.pmm.mem.write f i w a j = vm.pmm.mem a j := fun a ha j => if_neg (fun hc => ha hc.1)
  refine (h.refill hf hnot hsame).congr (fun _ _ _ => rfl) rfl ?_
  intro y hy f' hm
  change update σ.data f _ f' = update σ.data f _ f'
  by_cases hff : f' = f
  · subst hff
    rw [update_self, update_self]
    funext j
    by_cases hj : j = i
    · rw [hj, update_self]
      exact (if_pos ⟨rfl, rfl⟩).symm
    · rw [update_of_ne hj, ← h.data y hy f' hm j]
      exact (if_neg (fun hc => hj hc.2)).symm
  · rw [update_of_ne hff, update_of_ne hff]

lemma protectPage (h : vm.Refines L out P roots E S σ) (hr : r ∈ roots)
    (hv : addr >>> 12 < userPages) (hE : (r, addr >>> 12) ∈ E) (huser : b = true → Pte.present (σ.pte (r, addr >>> 12)) = true →
      Pte.user (σ.pte (r, addr >>> 12)) = true) : (vm.protectPage r addr b b').Refines L out P roots E S
        (σ.setPte (r, addr >>> 12) (Pte.reprotect b b' (σ.pte (r, addr >>> 12)))) ∧
      (vm.protectPage r addr b b').vmmRoot = vm.vmmRoot := by
  by_cases hp : Pte.present (σ.pte (r, addr >>> 12)) = true
  · obtain ⟨t, ht, hread⟩ := h.table_of_present hr hv hp
    have hrun : vm.protectPage r addr b b' = vm.write t (pageTables.slot 3 (addr >>> 12))
        (Pte.reprotect b b' (σ.pte (r, addr >>> 12))) := by
      unfold Vm.protectPage Pte.reprotect
      rw [walkTo_eq, ht, if_pos hp]
      simp only [Option.map_some]
      rw [show vm.read t (pageTables.slot 3 (addr >>> 12)) = σ.pte (r, addr >>> 12) from hread,
        if_neg (by rw [Pte.and_present, hp]; simp)]
      rfl
    rw [hrun]
    refine ⟨(h.writeLeaf hr hv ht (fun _ _ => h.mappable hE hp Pte.frame_reprotect ?_)).1, rfl⟩
    intro hw
    refine ⟨hp, ?_⟩
    cases b with
    | true => exact .inl (huser rfl hp)
    | false =>
      have h2 := hw.2
      rw [Pte.user_reprotect, Pte.cow_reprotect, Pte.writable_reprotect hp] at h2
      exact h2.imp id (fun hc => .inr (hc.resolve_left Bool.false_ne_true))
  · have hsame : Pte.reprotect b b' (σ.pte (r, addr >>> 12)) = σ.pte (r, addr >>> 12) := if_neg hp
    have hrun : vm.protectPage r addr b b' = vm := by
      unfold Vm.protectPage
      rw [walkTo_eq]
      cases ht : pageTables.tableAt vm.pmm.mem r 3 (addr >>> 12) with
      | none => rfl
      | some t =>
        simp only [Option.map_some]
        rw [h.read_entry hr hv ht, if_pos ((Pte.and_present _).mpr (by simpa using hp))]
    rw [hrun, hsame]
    refine ⟨?_, rfl⟩
    have hid : σ.setPte (r, addr >>> 12) (σ.pte (r, addr >>> 12)) = σ := by
      unfold Space.setPte
      rw [update_eq_self]
    rw [hid]
    exact h

section Range
variable {n stop : ℕ} (hr : r ∈ roots) (hE : ∀ v, lo ≤ v → v < lo + n → (r, v) ∈ E)
  (hhi : lo + n ≤ userPages)
  (huser : b = true → ∀ v, lo ≤ v → v < lo + n → Pte.present (σ.pte (r, v)) = true →
    Pte.user (σ.pte (r, v)) = true)
include hr hE hhi huser

lemma protectLoop (hbelow : ∀ v, lo ≤ v → v < lo + n → v * pageSize < stop)
    (hstop : stop ≤ (lo + n) * pageSize) {m j fuel : ℕ} (hm : j + m = n) (hfuel : m < fuel)
    (h : vm.Refines L out P roots E S (σ.reflag r lo (Pte.reprotect b b') j)) :
    ∃ vm', Vm.protectLoop r stop b b' fuel vm ((lo + j) * pageSize) = some vm' ∧
      vm'.Refines L out P roots E S (σ.reflag r lo (Pte.reprotect b b') n) ∧ vm'.vmmRoot = vm.vmmRoot := by
  induction m generalizing j fuel vm with
  | zero =>
    obtain ⟨fuel, rfl⟩ := Nat.exists_eq_add_of_lt hfuel
    obtain rfl : j = n := hm
    refine ⟨vm, ?_, h, rfl⟩
    rw [Nat.zero_add, Vm.protectLoop, if_neg (Nat.not_lt.mpr hstop)]
  | succ m ih =>
    obtain ⟨fuel, rfl⟩ : ∃ k, fuel = k + 1 := ⟨fuel - 1, by omega⟩
    have hlo : lo ≤ lo + j := Nat.le_add_right _ _
    have hlt : lo + j < lo + n := by omega
    have hv : ((lo + j) * pageSize) >>> 12 < userPages := by
      rw [page_shift]
      exact hlt.trans_le hhi
    have hpage := page_shift (lo + j)
    have hmem : (r, ((lo + j) * pageSize) >>> 12) ∈ E := hpage.symm ▸ hE _ hlo hlt
    obtain ⟨hturn, hroot₁⟩ := h.protectPage hr hv hmem (by
      rw [hpage, Space.reflag_next]
      exact fun hb => huser hb _ hlo hlt)
    rw [hpage, Space.reflag_next, ← Space.reflag_succ] at hturn
    have hnext : ((lo + j) * pageSize + pageSize) % 2 ^ 64 = (lo + (j + 1)) * pageSize := by
      rw [← succ_mul]
      apply mod_eq_of_lt
      have hle : (lo + j + 1) * pageSize ≤ userPages * pageSize := Nat.mul_le_mul_right _ (hlt.trans_le hhi)
      exact hle.trans_lt (by decide)
    rw [Vm.protectLoop, if_pos (hbelow _ hlo hlt), hnext]
    obtain ⟨vm', hrun, href, hroot⟩ := ih (by omega) (lt_of_succ_lt_succ hfuel) hturn
    exact ⟨vm', hrun, href, hroot.trans hroot₁⟩

end Range

lemma updateUserPteFlags (addr len : ℕ) (b b' : Bool) (h : vm.Refines L out P roots E S σ)
    (hr : r ∈ roots) (hE : ∀ v < userPages, (r, v) ∈ E) (hlen : 0 < len) (hin : addr + len ≤ userPages * pageSize)
    (huser : b = true → ∀ v, addr / pageSize ≤ v → v < addr / pageSize + pagesIn addr len →
      Pte.present (σ.pte (r, v)) = true → Pte.user (σ.pte (r, v)) = true) :
    ∃ vm', vm.updateUserPteFlags r addr len b b' = some vm' ∧ vm'.Refines L out P roots E S
        (σ.reflag r (addr / pageSize) (Pte.reprotect b b') (pagesIn addr len)) ∧ vm'.vmmRoot = vm.vmmRoot := by
  have hmax : userPages * pageSize < 2 ^ 64 := by decide
  have hhi : addr / pageSize + pagesIn addr len ≤ userPages := by
    unfold pagesIn
    simp only [pageSize] at hin ⊢
    omega
  have hstop : addr + len ≤ (addr / pageSize + pagesIn addr len) * pageSize := by
    unfold pagesIn
    simp only [pageSize]
    omega
  have hstart : addr &&& not64 (pageSize - 1) = (addr / pageSize + 0) * pageSize := by
    rw [and_not64_page (by omega)]
    rfl
  have hfuel : pagesIn addr len < 2 ^ 52 + 1 := (le_of_add_left_le hhi).trans_lt (by decide)
  unfold Vm.updateUserPteFlags
  rw [(h.isFrame_root hr).and_not_low, mod_eq_of_lt (hin.trans_lt hmax), hstart]
  exact protectLoop hr (fun v _ hv => hE v (hv.trans_le hhi)) hhi huser
    (fun v h1 h2 => (lt_pagesIn hlen h1).mp h2) hstop (zero_add _) hfuel
    (by rw [Space.reflag_zero]; exact h)

lemma reclaimEntry (h : vm.Refines L out P roots E S σ) (hr : r ∈ roots) (hv : v < userPages)
    (ht : pageTables.tableAt vm.pmm.mem r 3 v = some t) (aggressiveness n : ℕ) :
    ∃ vm' n', Vm.reclaimEntry aggressiveness t (vm, n) (pageTables.slot 3 v) = some (vm', n') ∧
      vm'.Refines L out P roots E S (σ.setPte (r, v) (Pte.reclaim aggressiveness (σ.pte (r, v)))) ∧ vm'.vmmRoot = vm.vmmRoot ∧
      ∀ d ≤ 3, ∀ v' < userPages, pageTables.tableAt vm'.pmm.mem r d v' = pageTables.tableAt vm.pmm.mem r d v' := by
  have hstay : σ.setPte (r, v) (σ.pte (r, v)) = σ := by
    unfold Space.setPte
    rw [update_eq_self]
  unfold Vm.reclaimEntry Pte.reclaim
  dsimp only
  rw [h.read_entry hr hv ht]
  simp only [ne_eq, Pte.and_present, Pte.and_accessed, Bool.not_eq_false]
  by_cases hp : Pte.present (σ.pte (r, v)) = true
  · by_cases hold : Pte.accessed (σ.pte (r, v)) = false ∨ aggressiveness > 3
    · rw [if_pos hp, if_pos hold, if_pos ⟨hp, hold⟩]
      obtain ⟨href, hwalk⟩ := h.writeLeaf (w := Pte.toSwapped (σ.pte (r, v))) hr hv ht (fun _ hnew => by
        rw [Pte.present_toSwapped] at hnew
        cases hnew)
      exact ⟨_, _, rfl, href, rfl, hwalk r hr⟩
    · rw [if_pos hp, if_neg hold, if_neg fun hc => hold hc.2, hstay]
      exact ⟨_, _, rfl, h, rfl, fun _ _ _ _ => rfl⟩
  · rw [if_neg hp, if_neg fun hc => hp hc.1, hstay]
    exact ⟨_, _, rfl, h, rfl, fun _ _ _ _ => rfl⟩

lemma reclaimFileBackedPages (h : vm.Refines L out P roots E S σ) (hr : r ∈ roots) (hr0 : r ≠ 0) (aggressiveness : ℕ) :
    ∃ vm' n, vm.reclaimFileBackedPages (some r) aggressiveness = some (vm', n) ∧
      vm'.Refines L out P roots E S (σ.reflag r 0 (Pte.reclaim aggressiveness) userPages) ∧ vm'.vmmRoot = vm.vmmRoot := by
  let inv : ℕ → Vm × ℕ → Prop := fun k st =>
    st.1.Refines L out P roots E S (σ.reflag r 0 (Pte.reclaim aggressiveness) k) ∧
    st.1.vmmRoot = vm.vmmRoot ∧ ∀ d ≤ 3, ∀ v < userPages,
      pageTables.tableAt st.1.pmm.mem r d v = pageTables.tableAt vm.pmm.mem r d v
  have hnext : ∀ k, (σ.reflag r 0 (Pte.reclaim aggressiveness) k).pte (r, k) = σ.pte (r, k) := by
    intro k
    have hend : (σ.reflag r 0 (Pte.reclaim aggressiveness) k).pte (r, 0 + k) = σ.pte (r, 0 + k) := Space.reflag_next
    rwa [zero_add] at hend
  have hsucc : ∀ k, σ.reflag r 0 (Pte.reclaim aggressiveness) (k + 1) =
      (σ.reflag r 0 (Pte.reclaim aggressiveness) k).setPte (r, k) (Pte.reclaim aggressiveness (σ.pte (r, k))) := by
    intro k
    rw [Space.reflag_succ, zero_add]
  have hvisits : Visits Prod.fst r (pageTables.tableAt vm.pmm.mem r) inv (Vm.reclaimEntry aggressiveness) := by
    refine ⟨fun _ _ hk => hk.2.2, ?_, ?_, ?_⟩
    · intro k st hk d hd v hv t ht
      exact hk.1.tables.clean r hr d hd v hv t ((hk.2.2 d hd.le v hv).trans ht)
    · intro v hv st hk hnone
      refine ⟨?_, hk.2⟩
      have hzero : σ.pte (r, v) = 0 := by
        rw [← hnext v, ← hk.1.tables.pte r hr v hv]
        exact Radix.leaf_of_none ((hk.2.2 3 le_rfl v hv).trans hnone)
      have hsame : Pte.reclaim aggressiveness (σ.pte (r, 0 + v)) = σ.pte (r, 0 + v) := by
        rw [zero_add, hzero]
        rfl
      rw [Space.reflag_skip hsame]
      exact hk.1
    · intro v hv st t hk ht
      obtain ⟨vm', n', hrun, href, hroot, hwalk⟩ :=
        hk.1.reclaimEntry hr hv ((hk.2.2 3 le_rfl v hv).trans ht) aggressiveness st.2
      rw [hnext, ← hsucc] at href
      exact ⟨(vm', n'), hrun, href, hroot.trans hk.2.1, fun d hd v' hv' => (hwalk d hd v' hv').trans (hk.2.2 d hd v' hv')⟩
  have h0 : inv 0 (vm, 0) := by
    refine ⟨?_, rfl, fun _ _ _ _ => rfl⟩
    rw [Space.reflag_zero]
    exact h
  obtain ⟨⟨vm', n⟩, hrun, href, hroot, _⟩ := hvisits.run false true h0
  refine ⟨vm', n, ?_, href, hroot⟩
  unfold Vm.reclaimFileBackedPages
  dsimp only
  rw [if_pos hr0]
  exact hrun

end Refines
end Vm
end NodeKernel
