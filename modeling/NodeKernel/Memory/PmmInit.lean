import Mathlib.Order.CompletePartialOrder
import Mathlib.Order.Interval.Finset.Nat
import NodeKernel.Memory.PmmOps

/-!
# Initialisation from the memory map

`add_region` cuts a region greedily into the largest aligned blocks that fit. When no
two regions touch, the result is already coalesced.
-/
namespace NodeKernel
open Blocks Function Finset Nat

def MemoryRegion.bytes (r : MemoryRegion) : Set ℕ := Set.Ico r.start r.stop

def usableBytes (regions : List MemoryRegion) : Set ℕ :=
  {p | ∃ r ∈ regions, r.kind = .usable ∧ p ∈ r.bytes}

/-- The usable regions of a memory map: page aligned, pairwise disjoint, without
page 0, at physical addresses of at most 52 bits. -/
structure UsableLayout (regions : List MemoryRegion) : Prop where
  aligned : ∀ r ∈ regions, r.kind = .usable → pageSize ∣ r.start ∧ pageSize ∣ r.stop
  physical : ∀ r ∈ regions, r.kind = .usable → r.start ≤ 2 ^ 52 ∧ r.stop ≤ 2 ^ 52
  noPageZero : ∀ r ∈ regions, r.kind = .usable → 0 ∉ r.bytes
  disjoint : regions.Pairwise
    (fun r r' => r.kind = .usable → r'.kind = .usable → Disjoint r.bytes r'.bytes)

def MemoryRegion.Apart (r r' : MemoryRegion) : Prop :=
  r.start < r.stop → r'.start < r'.stop → r.stop < r'.start ∨ r'.stop < r.start

def NonTouching (regions : List MemoryRegion) : Prop :=
  regions.Pairwise (fun r r' => r.kind = .usable → r'.kind = .usable → r.Apart r')

lemma and_not64_low {x k : ℕ} (h : x < 2 ^ 64) (hk : k ≤ 64) : x &&& not64 (2 ^ k - 1) = x / 2 ^ k * 2 ^ k := by
  have hm : not64 (2 ^ k - 1) = (2 ^ (64 - k) - 1) <<< k := by
    rw [not64, shiftLeft_eq, Nat.sub_mul, ← pow_add, Nat.sub_add_cancel hk]
    have := Nat.two_pow_pos k
    omega
  rw [hm, ← shiftRight_eq_div_pow, ← shiftLeft_eq]
  apply eq_of_testBit_eq
  intro i
  by_cases hki : k ≤ i
  · by_cases h64 : i < 64
    · simp [hki, show i - k < 64 - k by omega]
    · have : x.testBit i = false := testBit_lt_two_pow
        (h.trans_le (Nat.pow_le_pow_right (by decide) (by omega)))
      simp [hki, this]
  · simp [hki]

lemma and_not64_page {x : ℕ} (h : x < 2 ^ 64) : x &&& not64 (pageSize - 1) = x / 2 ^ 12 * 2 ^ 12 :=
  and_not64_low h (by decide : 12 ≤ 64)

lemma alignDown_of_dvd {x : ℕ} (h : x < 2 ^ 64) (hd : pageSize ∣ x) : Pmm.alignDown x = x := by
  rw [Pmm.alignDown, and_not64_page h]
  exact Nat.div_mul_cancel hd

lemma alignUp_of_dvd {x : ℕ} (h : x ≤ 2 ^ 52) (hd : pageSize ∣ x) : Pmm.alignUp x = x := by
  rw [Pmm.alignUp, and_not64_page (by simp only [pageSize]; omega)]
  obtain ⟨q, rfl⟩ := hd
  simp only [pageSize]
  omega

namespace Pmm

def Fits (addr stop order : ℕ) : Prop :=
  2 ^ (pageShift + order) ≤ stop - addr ∧ 2 ^ (pageShift + order) ∣ addr

lemma fits_iff (addr stop order : ℕ) : (pageSize <<< order ≤ stop - addr ∧ addr &&& (pageSize <<< order - 1) = 0) ↔
      Fits addr stop order := by
  rw [Fits, pageSize_shiftLeft, and_two_pow_sub_one_eq_mod, dvd_iff_mod_eq_zero]

lemma fitOrder_le (addr stop top : ℕ) : fitOrder addr stop top ≤ top := by
  induction top with
  | zero => exact le_rfl
  | succ top ih =>
    rw [fitOrder]
    split
    · exact le_rfl
    · exact ih.trans (le_succ top)

lemma fits_fitOrder {addr stop : ℕ} (h : Fits addr stop 0) (top : ℕ) : Fits addr stop (fitOrder addr stop top) := by
  induction top with
  | zero => exact h
  | succ top ih =>
    rw [fitOrder]
    split
    · exact (fits_iff _ _ _).mp ‹_›
    · exact ih

lemma le_fitOrder {addr stop order : ℕ} (h : Fits addr stop order) {top : ℕ}
    (hle : order ≤ top) : order ≤ fitOrder addr stop top := by
  induction top with
  | zero => omega
  | succ top ih =>
    rw [fitOrder]
    split
    · exact hle
    · apply ih
      have hne : order ≠ top + 1 := by
        intro he
        exact absurd ((fits_iff _ _ _).mpr (he ▸ h)) ‹_›
      omega

/-- Each listed block of the region is the largest that fits at its place. -/
def Greedy (L : FreeLists) (start stop : ℕ) : Prop :=
  ∀ order < maxOrder, ∀ addr ∈ L order, start ≤ addr → addr < stop →
    fitOrder addr stop (maxOrder - 1) = order

variable {s : Pmm} {L : FreeLists} {P₀ : Set ℕ} {start stop addr : ℕ}

lemma blockAt_mem_iff {a order p : ℕ} : p ∈ blockAt a order ↔ a ≤ p ∧ p < a + 2 ^ (pageShift + order) := Iff.rfl

lemma Inv.covered {out : Finset Block} {P : Set ℕ} (h : s.Inv L out P) {b : Block}
    (hb : b ∈ blocksOn L) {p : ℕ} (hp : p ∈ b) : p ∈ P :=
  (h.tiling.cover p).mpr ⟨b, .inl hb, hp⟩

variable {regions : List MemoryRegion} {order : ℕ}

/-- The next greedy block has no listed buddy: an upper one would lie past the
blocks cut so far, and a lower one would have been cut with twice the size. -/
theorem greedy_buddy_absent (h : s.Inv L ∅ (P₀ ∪ Set.Ico start addr))
    (hle : start ≤ addr) (hfresh : ∀ p, start ≤ p → p < stop → p ∉ P₀)
    (hbelow : start - 1 ∉ P₀) (habove : stop ∉ P₀) (hgr : Greedy L start stop)
    (hstart : 0 < start) (hfit : Fits addr stop order)
    (hmax : order = fitOrder addr stop (maxOrder - 1)) (ho : order < maxOrder - 1) :
    (blockAt addr order).buddy ∉ blocksOn L := by
  intro hon
  have hal : (blockAt addr order).Aligned := hfit.2
  have hsize := Nat.two_pow_pos (pageShift + order)
  have hroom := hfit.1
  rcases hal.buddy_cases with ⟨_, hb⟩ | ⟨hd, hb⟩
  · have hcov := h.covered hon (Block.base_mem _)
    rw [hb, blockAt_base, blockAt_exp] at hcov
    rcases hcov with hp | hp
    · by_cases hlt : addr + 2 ^ (pageShift + order) < stop
      · exact hfresh _ (by omega) hlt hp
      · have he : addr + 2 ^ (pageShift + order) = stop := by omega
        exact habove (he ▸ hp)
    · have := hp.2
      omega
  · rw [blockAt_base, blockAt_exp] at hb
    rw [blockAt_exp] at hd
    set l := (blockAt addr order).buddy.base with hl
    have hin : ∀ p, l ≤ p → p < addr → p ∈ P₀ ∪ Set.Ico start addr := by
      intro p h1 h2
      refine h.covered hon ⟨h1, ?_⟩
      rw [Block.buddy_exp, blockAt_exp]
      omega
    have hls : start ≤ l := by
      by_contra hn
      rcases hin (start - 1) (by omega) (by omega) with hp | hp
      · exact hbelow hp
      · have := hp.1
        omega
    have hbl : (blockAt addr order).buddy = blockAt l order := rfl
    rw [hbl] at hon
    have hlist := blockAt_mem_blocksOn.mp hon
    have heq := hgr order hlist.1 l hlist.2 hls (by omega)
    have hbig : Fits l stop (order + 1) := by
      refine ⟨?_, hd⟩
      rw [← add_assoc, pow_succ]
      omega
    have hmore : order + 1 ≤ fitOrder l stop (maxOrder - 1) := le_fitOrder hbig (by omega)
    omega

lemma eq_of_no_page (hda : pageSize ∣ addr) (hds : pageSize ∣ stop) (hstop : addr ≤ stop)
    (hno : ¬ addr + pageSize ≤ stop) : addr = stop := by
  obtain ⟨q, rfl⟩ := hda
  obtain ⟨r, rfl⟩ := hds
  simp only [pageSize] at hno hstop ⊢
  omega

lemma union_blockAt (hle : start ≤ addr) :
    P₀ ∪ Set.Ico start addr ∪ {p | p ∈ blockAt addr order} = P₀ ∪ Set.Ico start (addr + pageSize <<< order) := by
  have hsize := Nat.two_pow_pos (pageShift + order)
  ext p
  simp only [Set.mem_union, Set.mem_Ico, Set.mem_ofPred_eq, blockAt_mem_iff, pageSize_shiftLeft]
  constructor
  · intro hp
    rcases hp with (hp | hp) | hp
    · exact .inl hp
    · exact .inr (by omega)
    · exact .inr (by omega)
  · intro hp
    rcases hp with hp | hp
    · exact .inl (.inl hp)
    · by_cases hpa : p < addr
      · exact .inl (.inr ⟨hp.1, hpa⟩)
      · exact .inr (by omega)

lemma pages_after_block (hnext : addr + pageSize <<< order ≤ stop) :
    (stop - addr) / pageSize = 2 ^ order + (stop - (addr + pageSize <<< order)) / pageSize := by
  rw [shiftLeft_eq] at hnext ⊢
  rw [← Nat.sub_sub, sub_mul_div, Nat.add_sub_cancel']
  rw [le_div_iff_mul_le (by decide), mul_comm]
  omega

lemma Greedy.push (h : Greedy L start stop) (horder : order = fitOrder addr stop (maxOrder - 1)) :
    Greedy (update L order (addr :: L order)) start stop := by
  intro o hlo a ha hsa hst
  by_cases hoo : o = order
  · subst hoo
    rw [update_self, List.mem_cons] at ha
    rcases ha with he | ha
    · rw [he, horder]
    · exact h o hlo a ha hsa hst
  · rw [update_of_ne hoo] at ha
    exact h o hlo a ha hsa hst

lemma addLoop_spec {fuel : ℕ} (h : s.Inv L ∅ (P₀ ∪ Set.Ico start addr)) (hle : start ≤ addr)
    (hstop : addr ≤ stop) (hda : pageSize ∣ addr) (hds : pageSize ∣ stop)
    (hfresh : ∀ p, start ≤ p → p < stop → p ∉ P₀) (hstart : 0 < start) (hfuel : (stop - addr) / pageSize ≤ fuel) :
    (addLoop stop fuel s addr).totalPages = s.totalPages + (stop - addr) / pageSize ∧
    ∃ L', (addLoop stop fuel s addr).Inv L' ∅ (P₀ ∪ Set.Ico start stop) ∧
      (start - 1 ∉ P₀ → stop ∉ P₀ → Greedy L start stop → L.Coalesced → L'.Coalesced) := by
  induction fuel generalizing s L addr with
  | zero =>
    obtain rfl : addr = stop := by
      refine eq_of_no_page hda hds hstop (fun hpage => ?_)
      have := Nat.div_pos (Nat.le_sub_of_add_le' hpage) (show 0 < pageSize by decide)
      omega
    exact ⟨by simp [addLoop], L, h, fun _ _ _ hco => hco⟩
  | succ fuel ih =>
    by_cases hmore : addr + pageSize ≤ stop
    · rw [addLoop, if_pos hmore]
      set order := fitOrder addr stop (maxOrder - 1) with horder
      have hfit0 : Fits addr stop 0 := by
        refine ⟨?_, hda⟩
        simp only [pageSize] at hmore
        simp only [pageShift]
        omega
      have hfit : Fits addr stop order := fits_fitOrder hfit0 _
      have hlt : order < maxOrder := by
        have := fitOrder_le addr stop (maxOrder - 1)
        simp only [maxOrder] at *
        omega
      have hroom := hfit.1
      have hnotP : ∀ p ∈ blockAt addr order, p ∉ P₀ ∪ Set.Ico start addr := by
        intro p hp hm
        rw [blockAt_mem_iff] at hp
        rcases hm with hm | hm
        · exact hfresh p (by omega) (by omega) hm
        · have := hm.2
          omega
      have hext := h.extend hlt hfit.2 hnotP
        (by rw [blockAt_mem_iff]; omega)
      have hgive := hext.give hlt (mem_insert_self _ _)
      rw [erase_insert (notMem_empty _), union_blockAt hle] at hgive
      have hnext : addr + pageSize <<< order ≤ stop := by
        rw [pageSize_shiftLeft]
        omega
      have hdn : pageSize ∣ addr + pageSize <<< order := by
        rw [shiftLeft_eq]
        exact Nat.dvd_add hda ⟨_, rfl⟩
      have hcount := pages_after_block hnext
      have hpos := Nat.two_pow_pos order
      obtain ⟨htot, L', hinv, hco⟩ := ih hgive (hle.trans (Nat.le_add_right _ _)) hnext hdn (by omega)
      refine ⟨?_, L', hinv, ?_⟩
      · rw [hcount, ← Nat.add_assoc, ← one_shiftLeft]
        exact htot
      · intro hbelow habove hgr hcoal
        have hnew := greedy_buddy_absent h hle hfresh hbelow habove hgr hstart hfit horder
        exact hco hbelow habove (hgr.push horder) (hcoal.push hlt hnew hfit.2)
    · rw [addLoop, if_neg hmore]
      obtain rfl : addr = stop := eq_of_no_page hda hds hstop hmore
      exact ⟨by simp, L, h, fun _ _ _ hco => hco⟩

lemma Inv.addRegion_spec {P : Set ℕ} (h : s.Inv L ∅ P) (hda : pageSize ∣ start)
    (hds : pageSize ∣ stop) (hpa : start ≤ 2 ^ 52) (hps : stop ≤ 2 ^ 52)
    (hzero : 0 ∉ Set.Ico start stop) (hfresh : Disjoint P (Set.Ico start stop)) :
    (s.addRegion start stop).freePages = (s.addRegion start stop).totalPages ∧
    (s.addRegion start stop).totalPages = s.totalPages + (stop - start) / pageSize ∧
    ∃ L', (s.addRegion start stop).Inv L' ∅ (P ∪ Set.Ico start stop) ∧
      ((start < stop → start - 1 ∉ P ∧ stop ∉ P) → L.Coalesced → L'.Coalesced) := by
  have hup : alignUp start = start := alignUp_of_dvd hpa hda
  have hdown : alignDown stop = stop := alignDown_of_dvd (by omega) hds
  have hout : ∀ p, start ≤ p → p < stop → p ∉ P := fun p h1 h2 hp => Set.disjoint_left.mp hfresh hp ⟨h1, h2⟩
  rw [addRegion, hup, hdown]
  refine ⟨rfl, ?_⟩
  by_cases hlt : start < stop
  · have hpos : 0 < start := by
      by_contra hn
      exact hzero ⟨by omega, by omega⟩
    have h' : s.Inv L ∅ (P ∪ Set.Ico start start) := by
      rw [Set.Ico_self, Set.union_empty]
      exact h
    obtain ⟨htot, L', hinv, hco⟩ := addLoop_spec h' le_rfl hlt.le hda hds hout hpos le_rfl
    refine ⟨htot, L', hinv.of_eq rfl rfl rfl, ?_⟩
    intro htouch hcoal
    apply hco (htouch hlt).1 (htouch hlt).2 _ hcoal
    intro o ho a ha h1 h2
    have hcov := h.covered (blockAt_mem_blocksOn.mpr ⟨ho, ha⟩) (Block.base_mem (blockAt a o))
    exact absurd hcov (hout a h1 h2)
  · have hz : (stop - start) / pageSize = 0 := by
      rw [Nat.sub_eq_zero_of_le (by omega), Nat.zero_div]
    rw [hz, Set.Ico_eq_empty (by omega), Set.union_empty]
    exact ⟨rfl, L, h.of_eq rfl rfl rfl, fun _ hco => hco⟩

lemma new_inv (mem : PhysMem) : (Pmm.new mem).Inv (fun _ => []) ∅ ∅ := by
  have hon : blocksOn (fun _ => []) = ∅ := by
    ext b
    simp [blocksOn]
  refine ⟨fun _ _ => rfl, ?_, ?_, by simp, ?_, by simp⟩
  · rw [hon, coe_empty, Set.union_empty]
    exact Tiling.empty
  · simp
  · simp [pagesOn, pagesOut, Pmm.new]

lemma nil_coalesced : FreeLists.Coalesced (fun _ => []) := by
  intro b hb
  obtain ⟨_, _, _, ha, _⟩ := hb
  simp at ha

def initStep (s : Pmm) (r : MemoryRegion) : Pmm :=
  if r.kind = .usable then s.addRegion r.start r.stop else s

def regionPages (regions : List MemoryRegion) : ℕ :=
  (regions.map (fun r => if r.kind = .usable then (r.stop - r.start) / pageSize else 0)).sum

lemma usableBytes_cons (r : MemoryRegion) (rs : List MemoryRegion) : usableBytes (r :: rs) =
      (if r.kind = .usable then r.bytes else ∅) ∪ usableBytes rs := by
  ext p
  by_cases hk : r.kind = .usable <;> simp [usableBytes, hk]

lemma Inv.foldl_spec {P : Set ℕ} (hlay : UsableLayout regions)
    (h : s.Inv L ∅ P) (hfp : s.freePages = s.totalPages) (hfresh : ∀ r ∈ regions, r.kind = .usable → Disjoint P r.bytes) :
    (regions.foldl initStep s).freePages = (regions.foldl initStep s).totalPages ∧
    (regions.foldl initStep s).totalPages = s.totalPages + regionPages regions ∧
    ∃ L', (regions.foldl initStep s).Inv L' ∅ (P ∪ usableBytes regions) ∧ (NonTouching regions →
        (∀ r ∈ regions, r.kind = .usable → r.start < r.stop → r.start - 1 ∉ P ∧ r.stop ∉ P) → L.Coalesced → L'.Coalesced) := by
  induction regions generalizing s L P with
  | nil =>
    have he : usableBytes [] = ∅ := by
      ext p
      simp [usableBytes]
    refine ⟨hfp, by simp [regionPages], L, ?_, fun _ _ hco => hco⟩
    rw [he, Set.union_empty]
    exact h
  | cons r rs ih =>
    obtain ⟨hpair, hrest⟩ := List.pairwise_cons.mp hlay.disjoint
    have hlay' : UsableLayout rs := ⟨fun x hx => hlay.aligned x (List.mem_cons_of_mem r hx),
        fun x hx => hlay.physical x (List.mem_cons_of_mem r hx),
        fun x hx => hlay.noPageZero x (List.mem_cons_of_mem r hx), hrest⟩
    rw [List.foldl_cons, usableBytes_cons]
    by_cases hk : r.kind = .usable
    · have hal := hlay.aligned r List.mem_cons_self hk
      have hph := hlay.physical r List.mem_cons_self hk
      obtain ⟨hfp₁, htot₁, L₁, hinv₁, hco₁⟩ := h.addRegion_spec hal.1 hal.2 hph.1 hph.2
        (hlay.noPageZero r List.mem_cons_self hk) (hfresh r List.mem_cons_self hk)
      have hstep : initStep s r = s.addRegion r.start r.stop := if_pos hk
      have hfresh' : ∀ x ∈ rs, x.kind = .usable → Disjoint (P ∪ Set.Ico r.start r.stop) x.bytes := by
        intro x hx hxk
        rw [Set.disjoint_union_left]
        exact ⟨hfresh x (List.mem_cons_of_mem r hx) hxk, hpair x hx hk hxk⟩
      rw [hstep]
      obtain ⟨hfp', htot', L', hinv', hco'⟩ := ih hlay' hinv₁ hfp₁ hfresh'
      refine ⟨hfp', ?_, L', ?_, ?_⟩
      · rw [htot', htot₁]
        simp only [regionPages, List.map_cons, if_pos hk, List.sum_cons]
        omega
      · rw [if_pos hk, ← Set.union_assoc]
        exact hinv'
      · intro hnt htouch hcoal
        obtain ⟨hnp, hnr⟩ := List.pairwise_cons.mp hnt
        apply hco' hnr
        · intro x hx hxk hne
          have hx' := htouch x (List.mem_cons_of_mem r hx) hxk hne
          constructor
          · intro hm
            rcases hm with hm | hm
            · exact hx'.1 hm
            · obtain ⟨h1, h2⟩ := hm
              have := hnp x hx hk hxk (by omega) hne
              omega
          · intro hm
            rcases hm with hm | hm
            · exact hx'.2 hm
            · obtain ⟨h1, h2⟩ := hm
              have := hnp x hx hk hxk (by omega) hne
              omega
        · exact hco₁ (htouch r List.mem_cons_self hk) hcoal
    · have hstep : initStep s r = s := if_neg hk
      rw [hstep, if_neg hk, Set.empty_union]
      obtain ⟨hfp', htot', L', hinv', hco'⟩ := ih hlay' h hfp
        (fun x hx => hfresh x (List.mem_cons_of_mem r hx))
      refine ⟨hfp', ?_, L', hinv', ?_⟩
      · rw [htot']
        simp [regionPages, hk]
      · intro hnt htouch hcoal
        exact hco' (List.pairwise_cons.mp hnt).2
          (fun x hx => htouch x (List.mem_cons_of_mem r hx)) hcoal

lemma init_spec (mem : PhysMem) (hlay : UsableLayout regions) :
    (init mem regions).freePages = (init mem regions).totalPages ∧ (init mem regions).totalPages = regionPages regions ∧
    ∃ L, (init mem regions).Inv L ∅ (usableBytes regions) ∧ (NonTouching regions → L.Coalesced) := by
  obtain ⟨hfp, htot, L, hinv, hco⟩ := (new_inv mem).foldl_spec hlay rfl
    (fun r _ _ => Set.empty_disjoint _)
  refine ⟨hfp, htot.trans (zero_add _), L, ?_, ?_⟩
  · rw [Set.empty_union] at hinv
    exact hinv
  · intro hnt
    exact hco hnt (fun _ _ _ _ => ⟨id, id⟩) nil_coalesced

end Pmm
end NodeKernel
