import NodeKernel.Lib.Loops
import NodeKernel.Memory.SpaceCopies
import NodeKernel.Memory.VmmRefinement

/-!
# The other walkers

Resolving a copy-on-write fault, dropping the references of a dying process, reclaiming and
protecting pages, each against the single updates of the abstract spaces.
-/
namespace NodeKernel
open Blocks Loops Finset Option Nat Pte Radix Space

lemma and_shift_eq_slot (addr : ℕ) {d s : ℕ} (hs : s = 12 + 9 * (3 - d)) :
    addr >>> s &&& 0x1FF = pageTables.slot d (addr >>> 12) := by
  have hmask : (0x1FF : ℕ) = 2 ^ 9 - 1 := by decide
  have hpow : (2 : ℕ) ^ s = 2 ^ 12 * 512 ^ (3 - d) := by
    rw [hs, Nat.pow_add, Nat.pow_mul]
  rw [hmask, and_two_pow_sub_one_eq_mod, shiftRight_eq_div_pow, shiftRight_eq_div_pow, hpow, ← Nat.div_div_eq_div_mul]
  rfl

lemma Pte.IsFrame.and_not_low {p : ℕ} (h : Pte.IsFrame p) : p &&& not64 0xFFF = p := by
  apply eq_of_testBit_eq
  intro i
  have hm : (0xFFF : ℕ) = 2 ^ 12 - 1 := by decide
  rw [testBit_clear (by decide), hm, testBit_two_pow_sub_one]
  by_cases hi : i < 12 ∨ 52 ≤ i
  · rw [h.testBit_low hi]
    rfl
  · have h1 : i < 64 := by omega
    have h2 : ¬ i < 12 := by omega
    simp [h1, h2]

namespace Vm
variable {vm vm' : Vm} {L : FreeLists} {out : Finset Block} {P roots : Set ℕ} {E : Finset Entry}
  {S : Finset ℕ} {σ : Space} {r v t addr : ℕ}

lemma walkTo_eq (vm : Vm) (root addr : ℕ) : vm.walkTo root addr = (pageTables.tableAt vm.pmm.mem root 3 (addr >>> 12)).map
      (fun t => (t, pageTables.slot 3 (addr >>> 12))) := by
  have hchild : ∀ d e, pageTables.child d e =
      if e &&& ptePresent = 0 ∨ (d ≠ 0 ∧ e &&& pteHuge ≠ 0) then none else some (e &&& pteAddrMask) :=
    fun _ _ => rfl
  unfold walkTo read
  rw [and_shift_eq_slot addr (d := 0) (s := 39) rfl, and_shift_eq_slot addr (d := 1) (s := 30) rfl,
    and_shift_eq_slot addr (d := 2) (s := 21) rfl, and_shift_eq_slot addr (d := 3) (s := 12) rfl]
  simp only [tableAt, bind_some, hchild]
  generalize vm.pmm.mem root (pageTables.slot 0 (addr >>> 12)) = l4e
  by_cases h4 : l4e &&& ptePresent = 0
  · simp [h4]
  · generalize hl3 : vm.pmm.mem (l4e &&& pteAddrMask) (pageTables.slot 1 (addr >>> 12)) = l3e
    by_cases h3 : l3e &&& ptePresent = 0 ∨ l3e &&& pteHuge ≠ 0
    · simp [h4, hl3, h3]
    · generalize hl2 : vm.pmm.mem (l3e &&& pteAddrMask) (pageTables.slot 2 (addr >>> 12)) = l2e
      by_cases h2 : l2e &&& ptePresent = 0 ∨ l2e &&& pteHuge ≠ 0
      · simp [h4, hl3, h3, hl2, h2]
      · simp [h4, hl3, h3, hl2, h2]

lemma Refines.isFrame_root (h : vm.Refines L out P roots E S σ) (hr : r ∈ roots) : Pte.IsFrame r :=
  (h.tables.tables r ⟨r, hr, 0, zero_le _, 0, by decide, rfl⟩).1

lemma Refines.table_of_present (h : vm.Refines L out P roots E S σ) (hr : r ∈ roots)
    (hv : v < userPages) (hp : Pte.present (σ.pte (r, v)) = true) : ∃ t, pageTables.tableAt vm.pmm.mem r 3 v = some t ∧
      vm.pmm.mem t (pageTables.slot 3 v) = σ.pte (r, v) := by
  have hpte := h.tables.pte r hr v hv
  cases ht : pageTables.tableAt vm.pmm.mem r 3 v with
  | none =>
    rw [leaf_of_none ht] at hpte
    rw [← hpte] at hp
    cases hp
  | some t =>
    rw [leaf_of_tableAt ht] at hpte
    exact ⟨t, rfl, hpte⟩

section Fault
variable (h : vm.Refines L out P roots E S σ) (hr : r ∈ roots) (hv : addr >>> 12 < userPages)
include h hr hv

lemma Refines.cowPageFault_other
    (hn : ¬ (Pte.present (σ.pte (r, addr >>> 12)) = true ∧ Pte.cow (σ.pte (r, addr >>> 12)) = true)) :
    vm.cowPageFault r addr = (false, vm) := by
  unfold cowPageFault
  rw [(h.isFrame_root hr).and_not_low, walkTo_eq]
  have hpte := h.tables.pte r hr _ hv
  cases ht : pageTables.tableAt vm.pmm.mem r 3 (addr >>> 12) with
  | none => rfl
  | some t =>
    rw [leaf_of_tableAt ht] at hpte
    have hread : vm.read t (pageTables.slot 3 (addr >>> 12)) = σ.pte (r, addr >>> 12) := hpte
    simp only [map_some, hread]
    by_cases hp : present (σ.pte (r, addr >>> 12)) = true
    · rw [if_neg (by rw [and_present, hp]; simp), if_pos]
      rw [and_cow]
      simpa using fun hc => hn ⟨hp, hc⟩
    · rw [if_pos ((and_present _).mpr (by simpa using hp))]

variable (hE : (r, addr >>> 12) ∈ E) (hp : Pte.present (σ.pte (r, addr >>> 12)) = true)
  (hcow : Pte.cow (σ.pte (r, addr >>> 12)) = true)
include hp hcow

lemma Refines.cowPageFault_eq : ∃ t, pageTables.tableAt vm.pmm.mem r 3 (addr >>> 12) = some t ∧
      vm.cowPageFault r addr = match vm.dropRef (Pte.frame (σ.pte (r, addr >>> 12))) with
        | (0, vm) => (true, vm.write t (pageTables.slot 3 (addr >>> 12))
            (toOwned (frame (σ.pte (r, addr >>> 12))) (σ.pte (r, addr >>> 12))))
        | (_ + 1, vm) =>
          match vm.allocFrame with
          | none => (false, vm)
          | some (newPhys, vm) =>
            (true, (vm.withMem (vm.pmm.mem.copyPage (frame (σ.pte (r, addr >>> 12))) newPhys)).write
              t (pageTables.slot 3 (addr >>> 12)) (toOwned newPhys (σ.pte (r, addr >>> 12)))) := by
  obtain ⟨t, ht, hread⟩ := h.table_of_present hr hv hp
  have hread' : vm.read t (pageTables.slot 3 (addr >>> 12)) = σ.pte (r, addr >>> 12) := hread
  refine ⟨t, ht, ?_⟩
  unfold cowPageFault
  rw [(h.isFrame_root hr).and_not_low, walkTo_eq, ht]
  simp only [map_some, hread']
  rw [if_neg (by rw [and_present, hp]; simp), if_neg (by rw [and_cow, hcow]; simp)]
  rfl

include hE

lemma Refines.cowPageFault_last (hlast : (σ.refs (Pte.frame (σ.pte (r, addr >>> 12)))).getD 0 ≤ 1) :
    ∃ vm', vm.cowPageFault r addr = (true, vm') ∧
      vm'.Refines L out P roots E S (σ.ownInPlace (r, addr >>> 12)) ∧ vm'.vmmRoot = vm.vmmRoot := by
  obtain ⟨t, ht, hrun⟩ := h.cowPageFault_eq hr hv hp hcow
  have hdrop : vm.dropRef (frame (σ.pte (r, addr >>> 12))) = (0, vm.withRef (frame (σ.pte (r, addr >>> 12))) none) := by
    unfold dropRef
    rw [h.refs]
    cases hrc : σ.refs (frame (σ.pte (r, addr >>> 12))) with
    | none => rfl
    | some rc =>
      rw [hrc] at hlast
      dsimp only
      rw [if_neg (by simpa using hlast)]
  rw [hdrop] at hrun
  have h₀ := h.setRef (frame (σ.pte (r, addr >>> 12))) none
  obtain ⟨h₁, _⟩ := h₀.writeLeaf hr hv ht
    (w := toOwned (frame (σ.pte (r, addr >>> 12))) (σ.pte (r, addr >>> 12)))
    (fun _ _ => h₀.mappable hE hp (frame_toOwned (isFrame_frame _))
      (fun _ => ⟨hp, .inr (.inr hcow)⟩))
  exact ⟨_, hrun, h₁, rfl⟩

section Several
variable {n : ℕ} (hrefs : σ.refs (Pte.frame (σ.pte (r, addr >>> 12))) = some (n + 1)) (hn : 1 ≤ n)
include hrefs hn

omit hr hv hE hp hcow in
lemma Refines.dropRef_several : vm.dropRef (Pte.frame (σ.pte (r, addr >>> 12))) =
    (n, vm.withRef (Pte.frame (σ.pte (r, addr >>> 12))) (some n)) := by
  unfold dropRef
  rw [h.refs, hrefs]
  dsimp only
  rw [if_pos (by omega)]
  rfl

omit hE in
lemma Refines.cowPageFault_oom (hnone : vm.pmm.allocOrder 0 = none) : vm.cowPageFault r addr =
        (false, vm.withRef (Pte.frame (σ.pte (r, addr >>> 12))) (some n)) ∧
      (vm.withRef (Pte.frame (σ.pte (r, addr >>> 12))) (some n)).Refines L out P roots E S
        (σ.setRef (Pte.frame (σ.pte (r, addr >>> 12))) (some n)) := by
  obtain ⟨t, ht, hrun⟩ := h.cowPageFault_eq hr hv hp hcow
  rw [h.dropRef_several hrefs hn] at hrun
  refine ⟨?_, h.setRef _ _⟩
  rw [hrun]
  have hal : (vm.withRef (frame (σ.pte (r, addr >>> 12))) (some n)).allocFrame = none := allocFrame_none.mpr hnone
  obtain ⟨k, rfl⟩ : ∃ k, n = k + 1 := ⟨n - 1, by omega⟩
  dsimp only
  rw [hal]

lemma Refines.cowPageFault_copy (hsome : vm.pmm.allocOrder 0 ≠ none) : ∃ g vm' L', vm.cowPageFault r addr = (true, vm') ∧
      vm'.Refines L' (insert (blockAt g 0) out) P roots E S (σ.ownCopy (r, addr >>> 12) g n) ∧
      vm'.vmmRoot = vm.vmmRoot ∧ Pte.IsFrame g ∧ ∀ y ∈ E, ¬ σ.Maps y g := by
  obtain ⟨t, ht, hrun⟩ := h.cowPageFault_eq hr hv hp hcow
  rw [h.dropRef_several hrefs hn] at hrun
  have h₀ := h.setRef (frame (σ.pte (r, addr >>> 12))) (some n)
  cases hal : (vm.withRef (frame (σ.pte (r, addr >>> 12))) (some n)).allocFrame with
  | none => exact absurd (allocFrame_none.mp hal) hsome
  | some q =>
    obtain ⟨g, vm₁⟩ := q
    obtain ⟨L', hn⟩ := h₀.allocFill hal
      (vm₁.pmm.mem.copyPage (frame (σ.pte (r, addr >>> 12))) g) (fun a ha i => if_neg ha)
    have hout : blockAt g 0 ∈ insert (blockAt g 0) out := mem_insert_self _ _
    have hm : σ.Maps (r, addr >>> 12) (frame (σ.pte (r, addr >>> 12))) := ⟨hp, rfl⟩
    have h₂ := hn.refines.setData hn.fresh.unmapped (σ.data (frame (σ.pte (r, addr >>> 12))))
    have hwalk := (hn.walks r hr 3 (le_refl 3) _ hv).trans ht
    have hframe := frame_toOwned (e := σ.pte (r, addr >>> 12)) hn.fresh.isFrame
    have hne : frame (σ.pte (r, addr >>> 12)) ≠ g := fun he => hn.fresh.unmapped _ hE (he ▸ hm)
    have hcopy : ∀ i, vm₁.pmm.mem.copyPage (frame (σ.pte (r, addr >>> 12))) g g i =
        σ.data (frame (σ.pte (r, addr >>> 12))) i := by
      intro i
      have hold := hn.refines.data _ hE _ hm i
      have hsrc : vm₁.pmm.mem.copyPage (frame (σ.pte (r, addr >>> 12))) g
          (frame (σ.pte (r, addr >>> 12))) i =
          vm₁.pmm.mem (frame (σ.pte (r, addr >>> 12))) i := if_neg hne
      have hdst : vm₁.pmm.mem.copyPage (frame (σ.pte (r, addr >>> 12))) g g i =
          vm₁.pmm.mem (frame (σ.pte (r, addr >>> 12))) i := if_pos rfl
      exact hdst.trans (hsrc.symm.trans hold)
    have hmap : (vm₁.withMem (vm₁.pmm.mem.copyPage (frame (σ.pte (r, addr >>> 12))) g)).Mappable
        (insert (blockAt g 0) out) P roots S ((σ.setRef (frame (σ.pte (r, addr >>> 12))) (some n)).setData
          g (σ.data (frame (σ.pte (r, addr >>> 12))))) (toOwned g (σ.pte (r, addr >>> 12))) := by
      refine ⟨?_, ?_, ?_, ?_, ?_⟩ <;> rw [hframe]
      · exact hn.fresh.noTable
      · exact .inr hout
      · exact fun _ => hout
      · exact hn.unspared
      · intro i
        exact (hcopy i).trans (congrFun (Function.update_self g _ _) i).symm
    obtain ⟨h₃, _⟩ := h₂.writeLeaf hr hv hwalk (fun _ _ => hmap)
    refine ⟨g, _, L', ?_, h₃, hn.root, hn.fresh.isFrame, hn.fresh.unmapped⟩
    rw [hrun]
    obtain ⟨k, rfl⟩ : ∃ k, n = k + 1 := ⟨n - 1, by omega⟩
    dsimp only
    rw [hal]

end Several
end Fault
/-- A walk over the address space of `r` that leaves its tables in place: `inv k` holds when
the pages below `k` are done, and `entry` does one page of a last-level table. -/
structure Visits {α : Type} (vmOf : α → Vm) (r : ℕ) (walk : ℕ → ℕ → Option ℕ) (inv : ℕ → α → Prop)
    (entry : ℕ → α → ℕ → Option α) : Prop where
  tables : ∀ k st, inv k st → ∀ d ≤ 3, ∀ v < userPages,
    pageTables.tableAt (vmOf st).pmm.mem r d v = walk d v
  clean : ∀ k st, inv k st → ∀ d < 3, ∀ v < userPages, ∀ t, walk d v = some t →
    (vmOf st).pmm.mem t (pageTables.slot d v) = 0 ∨
      childTable d ((vmOf st).pmm.mem t (pageTables.slot d v)) ≠ none
  skip : ∀ v < userPages, ∀ st, inv v st → walk 3 v = none → inv (v + 1) st
  visit : ∀ v < userPages, ∀ st t, inv v st → walk 3 v = some t →
    ∃ st', entry t st (pageTables.slot 3 v) = some st' ∧ inv (v + 1) st'

namespace Visits
variable {α : Type} {vmOf : α → Vm} {walk : ℕ → ℕ → Option ℕ} {inv : ℕ → α → Prop}
  {entry : ℕ → α → ℕ → Option α} {inner : ℕ → α → Option α} {st : α} {d i k n q : ℕ}

variable (h : Visits vmOf r walk inv entry)
include h

lemma walk_stem (hst : inv k st) (hd : d ≤ 3) (hv : v < userPages) {v' : ℕ} (hv' : v' < userPages)
    (hstem : pageTables.stem d v = pageTables.stem d v') : walk d v = walk d v' := by
  rw [← h.tables k st hst d hd v hv, ← h.tables k st hst d hd v' hv']
  exact tableAt_stem (hd.trans (le_succ 3)) hstem

lemma skipEntry (hd : d < 3) (hN : pageTables.key d (q + 1) ≤ userPages) (hst : inv (pageTables.key d q) st)
    (hnone : walk (d + 1) (pageTables.key d q) = none) : inv (pageTables.key d (q + 1)) st := by
  have hall : ∀ j, pageTables.key d q + j ≤ pageTables.key d (q + 1) → inv (pageTables.key d q + j) st := by
    intro j
    induction j with
    | zero => exact fun _ => hst
    | succ j ih =>
      intro hj
      have hprev := ih (le_of_succ_le hj)
      have hv : pageTables.key d q + j < userPages := lt_of_lt_of_le hj hN
      have hstem : pageTables.stem (d + 1) (pageTables.key d q + j) = pageTables.stem (d + 1) (pageTables.key d q) :=
        (stem_eq_of_mem (le_add_right _ j) hj).trans (stem_key d q).symm
      have hk := (key_lt_key (lt_succ_self q)).trans_le hN
      apply h.skip _ hv st hprev
      rw [← h.tables _ st hprev 3 le_rfl _ hv]
      apply tableAt_none_of_le (d := d + 1) hd
      rw [h.tables _ st hprev (d + 1) hd _ hv, h.walk_stem hprev hd hv hk hstem]
      exact hnone
  have hle : pageTables.key d q ≤ pageTables.key d (q + 1) := (key_lt_key (lt_succ_self q)).le
  have hend := hall (pageTables.key d (q + 1) - pageTables.key d q) (by omega)
  rwa [add_sub_of_le hle] at hend

lemma last {t : ℕ} (hN : pageTables.key 2 (q + 1) ≤ userPages) (hst : inv (pageTables.key 2 q) st)
    (ht : walk 3 (pageTables.key 2 q) = some t) :
    ∃ st', (List.range 512).foldlM (entry t) st = some st' ∧ inv (pageTables.key 2 (q + 1)) st' := by
  rw [key_two, succ_mul] at hN ⊢
  rw [key_two] at hst ht
  apply foldlM_option (fun i st => inv (q * 512 + i) st)
  · rw [add_zero]
    exact hst
  · intro i hi st' hst'
    have hv : q * 512 + i < userPages := (Nat.add_lt_add_left hi _).trans_le hN
    have hv0 : q * 512 < userPages := (le_add_right _ i).trans_lt hv
    have hslot := slot_three_add q hi
    have hstem := stem_three_add q hi
    have hwalk := (h.walk_stem hst' le_rfl hv hv0 hstem).trans ht
    have hvisit := h.visit _ hv st' t hst' hwalk
    rw [hslot, add_assoc] at hvisit
    exact hvisit

/-- One turn of an outer loop; which entries are skipped does not depend on the huge bit. -/
theorem slot {t : ℕ} {skipHuge : Bool} (hskip : d = 0 → skipHuge = false) (hd : d < 3)
    (hN : pageTables.key d (q + 1) ≤ userPages) (hst : inv (pageTables.key d q) st) (ht : walk d (pageTables.key d q) = some t)
    (hinner : ∀ t, walk (d + 1) (pageTables.key d q) = some t →
      ∃ st', inner t st = some st' ∧ inv (pageTables.key d (q + 1)) st') :
    ∃ st', walkSlot vmOf skipHuge inner t st (pageTables.slot d (pageTables.key d q)) = some st' ∧
      inv (pageTables.key d (q + 1)) st' := by
  have hv := (key_lt_key (lt_succ_self q)).trans_le hN
  have hnext : walk (d + 1) (pageTables.key d q) =
      childTable d ((vmOf st).pmm.mem t (pageTables.slot d (pageTables.key d q))) := by
    rw [← h.tables _ st hst (d + 1) hd _ hv]
    simp only [tableAt]
    rw [h.tables _ st hst d hd.le _ hv, ht]
    rfl
  unfold walkSlot read
  cases hchild : childTable d ((vmOf st).pmm.mem t (pageTables.slot d (pageTables.key d q))) with
  | none =>
    have hzero := (h.clean _ st hst d hd _ hv t ht).resolve_right (fun hn => hn hchild)
    rw [hzero, if_pos (.inl (zero_and _))]
    exact ⟨st, rfl, h.skipEntry hd hN hst (hnext.trans hchild)⟩
  | some t' =>
    have hne : ¬ (childTable d ((vmOf st).pmm.mem t (pageTables.slot d (pageTables.key d q))) = none) := by
      rw [hchild]
      simp
    rw [childTable_eq_none, not_or] at hne
    have hframe : (vmOf st).pmm.mem t (pageTables.slot d (pageTables.key d q)) &&& pteAddrMask = t' :=
      (childTable_some hchild).2.symm
    rw [if_neg, hframe]
    · exact hinner t' (hnext.trans hchild)
    · rw [and_present, not_or]
      refine ⟨hne.1, ?_⟩
      intro hc
      refine hne.2 ⟨?_, ?_⟩
      · intro hd0
        rw [hskip hd0] at hc
        cases hc.1
      · rw [← Bool.not_eq_false, ← and_huge]
        exact hc.2

lemma table {t : ℕ} {skipHuge : Bool} (hskip : d = 0 → skipHuge = false) (hd : d < 3) (hn : n ≤ 512)
    (hN : pageTables.key d (q * 512 + n) ≤ userPages) (hst : inv (pageTables.key d (q * 512)) st)
    (ht : walk d (pageTables.key d (q * 512)) = some t)
    (hinner : ∀ q st t, pageTables.key d (q + 1) ≤ userPages → inv (pageTables.key d q) st →
      walk (d + 1) (pageTables.key d q) = some t → ∃ st', inner t st = some st' ∧ inv (pageTables.key d (q + 1)) st') :
    ∃ st', walkTable vmOf n skipHuge inner t st = some st' ∧ inv (pageTables.key d (q * 512 + n)) st' := by
  have hmono : ∀ {x y : ℕ}, x ≤ y → pageTables.key d x ≤ pageTables.key d y := fun h => mul_le_mul_right _ h
  apply foldlM_option (fun i st => inv (pageTables.key d (q * 512 + i)) st)
  · rw [add_zero]
    exact hst
  · intro i hi st' hst'
    have hend : pageTables.key d (q * 512 + i + 1) ≤ pageTables.key d (q * 512 + n) :=
      hmono (succ_le_of_lt (Nat.add_lt_add_left hi _))
    have hv : pageTables.key d (q * 512 + i) < userPages := (key_lt_key (lt_succ_self _)).trans_le (hend.trans hN)
    have hv0 : pageTables.key d (q * 512) < userPages := (hmono (le_add_right _ i)).trans_lt hv
    have hslot : pageTables.slot d (pageTables.key d (q * 512 + i)) = i := slot_key_add hd.le q (hi.trans_le hn)
    have hstem : pageTables.stem d (pageTables.key d (q * 512 + i)) = pageTables.stem d (pageTables.key d (q * 512)) :=
      stem_key_add hd.le q (hi.trans_le hn)
    have hwalk := (h.walk_stem hst' hd.le hv hv0 hstem).trans ht
    have hturn := h.slot hskip hd (hend.trans hN) hst' hwalk
      (fun t ht => hinner _ st' t (hend.trans hN) hst' ht)
    rw [hslot, add_assoc] at hturn
    exact hturn

lemma inner_table (skipHuge : Bool) (hd : d + 1 < 3) (hinner : ∀ q st t, pageTables.key (d + 1) (q + 1) ≤ userPages →
      inv (pageTables.key (d + 1) q) st → walk (d + 1 + 1) (pageTables.key (d + 1) q) = some t →
      ∃ st', inner t st = some st' ∧ inv (pageTables.key (d + 1) (q + 1)) st') :
    ∀ q st t, pageTables.key d (q + 1) ≤ userPages → inv (pageTables.key d q) st → walk (d + 1) (pageTables.key d q) = some t →
      ∃ st', walkTable vmOf 512 skipHuge inner t st = some st' ∧ inv (pageTables.key d (q + 1)) st' := by
  intro q st t hN hst ht
  have hkey : ∀ x, pageTables.key d x = pageTables.key (d + 1) (x * 512) := fun x => (key_succ (lt_of_succ_lt hd) x).symm
  have hnext : pageTables.key d (q + 1) = pageTables.key (d + 1) (q * 512 + 512) := by
    rw [hkey, succ_mul]
  rw [hnext] at hN ⊢
  rw [hkey] at hst ht
  exact h.table (q := q) (n := 512) (fun h0 => absurd h0 (succ_ne_zero d)) hd (le_refl 512)
    hN hst ht hinner

lemma run (b b' : Bool) (hst : inv 0 st) : ∃ st', walkTable vmOf 256 false (walkTable vmOf 512 b (walkTable vmOf 512 b'
      (fun t st => (List.range 512).foldlM (entry t) st))) r st = some st' ∧ inv userPages st' := by
  have hL1 : ∀ q st t, pageTables.key 2 (q + 1) ≤ userPages → inv (pageTables.key 2 q) st →
      walk 3 (pageTables.key 2 q) = some t → ∃ st', (List.range 512).foldlM (entry t) st = some st' ∧
        inv (pageTables.key 2 (q + 1)) st' := fun q st t hN hst ht => h.last hN hst ht
  have hL2 := h.inner_table (d := 1) b' (by decide) hL1
  have hL3 := h.inner_table (d := 0) b (by decide) hL2
  have hst0 : inv (pageTables.key 0 (0 * 512)) st := by
    rw [key_zero_first]
    exact hst
  have hroot : walk 0 (pageTables.key 0 (0 * 512)) = some r := by
    rw [← h.tables 0 st hst 0 (zero_le 3) _ (by rw [key_zero_first]; decide)]
    rfl
  have hrun := h.table (q := 0) (n := 256) (fun _ => rfl) (by decide) (by decide) key_zero_half.le hst0 hroot hL3
  rw [key_zero_half] at hrun
  exact hrun

end Visits

variable (h : vm.Refines L out P roots E S σ)
include h

lemma Refines.releaseEntry_unmarked (hr : r ∈ roots) (hv : v < userPages) (ht : pageTables.tableAt vm.pmm.mem r 3 v = some t)
    (hm : ¬ (Pte.present (σ.pte (r, v)) = true ∧ Pte.cow (σ.pte (r, v)) = true)) :
    Vm.releaseEntry t vm (pageTables.slot 3 v) = some vm := by
  unfold releaseEntry
  rw [h.read_entry hr hv ht]
  by_cases hp : present (σ.pte (r, v)) = true
  · rw [if_neg (by rw [and_present, hp]; simp), if_pos]
    rw [and_cow]
    simpa using fun hc => hm ⟨hp, hc⟩
  · rw [if_pos ((and_present _).mpr (by simpa using hp))]

/-- Dropping the entry of one page. A frame goes back to the allocator with its last owner. -/
theorem Refines.releaseEntry (hcoh : σ.Coherent E) (hover : σ.Over E) (hr : r ∈ roots) (hv : v < userPages) (hE : (r, v) ∈ E)
    (ht : pageTables.tableAt vm.pmm.mem r 3 v = some t) :
    ∃ vm' L' out', releaseEntry t vm (pageTables.slot 3 v) = some vm' ∧ out' ⊆ out ∧
      vm'.Refines L' out' P roots (E.erase (r, v)) S (σ.release (r, v)) ∧ vm'.vmmRoot = vm.vmmRoot ∧
      ∀ r' ∈ roots, ∀ d ≤ 3, ∀ v' < userPages,
        pageTables.tableAt vm'.pmm.mem r' d v' = pageTables.tableAt vm.pmm.mem r' d v' := by
  have hmono := h.mono (erase_subset (r, v) E)
  by_cases hm : present (σ.pte (r, v)) = true ∧ cow (σ.pte (r, v)) = true
  · unfold Vm.releaseEntry
    dsimp only
    rw [h.read_entry hr hv ht]
    rw [if_neg (by rw [and_present, hm.1]; simp), if_neg (by rw [and_cow, hm.2]; simp)]
    have hframe : σ.pte (r, v) &&& pteAddrMask = frame (σ.pte (r, v)) := rfl
    rw [h.refs, hframe]
    cases hrc : σ.refs (frame (σ.pte (r, v))) with
    | none =>
      rw [release_unowned hrc]
      exact ⟨vm, L, out, rfl, Finset.Subset.refl out, hmono, rfl, fun _ _ _ _ _ _ => rfl⟩
    | some rc =>
      rw [release_owned hm hrc]
      dsimp only
      by_cases hle : rc ≤ 1
      · rw [if_pos hle, if_pos hle]
        have hcount : σ.refCount E (frame (σ.pte (r, v))) ≤ 1 := by
          have := hover.le (frame (σ.pte (r, v)))
          rw [hrc] at this
          exact this.trans hle
        have hun : ∀ y ∈ E.erase (r, v), ¬ σ.Maps y (frame (σ.pte (r, v))) := by
          intro y hy
          exact hcoh.alone hE hm.1 hm.2 hcount (mem_of_mem_erase hy)
            (ne_of_mem_erase hy)
        have hnot := h.apart _ hE _ ⟨hm.1, rfl⟩
        have hS : frame (σ.pte (r, v)) ∉ S := fun hf => (h.spare _ hf).2.2 _ hE ⟨hm.1, rfl⟩
        obtain ⟨vm', L', hrun, href, hroot, hsame⟩ :=
          (hmono.setRef (frame (σ.pte (r, v))) none).free (h.owned _ hE ⟨hm.1, .inr (.inr hm.2)⟩)
            hnot hun hS
        exact ⟨vm', L', _, hrun, erase_subset _ _, href, hroot, fun r' hr' d hd v' hv' => tableAt_of_same hr' hv' hd hsame⟩
      · rw [if_neg hle, if_neg hle]
        exact ⟨_, L, out, rfl, Finset.Subset.refl out, hmono.setRef _ _, rfl, fun _ _ _ _ _ _ => rfl⟩
  · have hrel : σ.release (r, v) = σ := if_neg hm
    rw [hrel]
    exact ⟨vm, L, out, h.releaseEntry_unmarked hr hv ht hm, Finset.Subset.refl out, hmono, rfl, fun _ _ _ _ _ _ => rfl⟩

lemma Refines.releaseUserCowRefs (hcoh : σ.Coherent E) (hover : σ.Over E) (hr : r ∈ roots) (hE : ∀ v < userPages, (r, v) ∈ E) :
    ∃ vm' L' out', vm.releaseUserCowRefs r = some vm' ∧ out' ⊆ out ∧
      vm'.Refines L' out' P roots (Space.without E r userPages) S (σ.releaseAll r userPages) ∧ vm'.vmmRoot = vm.vmmRoot := by
  let inv : ℕ → Vm → Prop := fun k vm' => k ≤ userPages ∧ ∃ L' out', out' ⊆ out ∧
    vm'.Refines L' out' P roots (without E r k) S (σ.releaseAll r k) ∧
    vm'.vmmRoot = vm.vmmRoot ∧ ∀ d ≤ 3, ∀ v < userPages,
      pageTables.tableAt vm'.pmm.mem r d v = pageTables.tableAt vm.pmm.mem r d v
  have hvisits : Visits id r (pageTables.tableAt vm.pmm.mem r) inv Vm.releaseEntry := by
    refine ⟨?_, ?_, ?_, ?_⟩
    · intro k vm' hk
      obtain ⟨_, L', out', _, _, _, hwalk⟩ := hk
      exact hwalk
    · intro k vm' hk d hd v hv t ht
      obtain ⟨_, L', out', _, href, _, hwalk⟩ := hk
      exact href.tables.clean r hr d hd v hv t ((hwalk d hd.le v hv).trans ht)
    · intro v hv vm' hk hnone
      obtain ⟨_, L', out', hsub, href, hroot, hwalk⟩ := hk
      have habs : present ((σ.releaseAll r v).pte (r, v)) = false := by
        rw [← href.tables.pte r hr v hv, leaf_of_none ((hwalk 3 le_rfl v hv).trans hnone)]
        rfl
      have hrel : σ.releaseAll r (v + 1) = σ.releaseAll r v := if_neg (fun hc => by rw [habs] at hc; cases hc.1)
      refine ⟨hv, L', out', hsub, ?_, hroot, hwalk⟩
      rw [hrel, without_succ]
      exact href.mono (erase_subset _ _)
    · intro v hv vm' t hk ht
      obtain ⟨_, L', out', hsub, href, hroot, hwalk⟩ := hk
      have hmem : (r, v) ∈ without E r v := mem_without.mpr ⟨hE v hv, fun hc => lt_irrefl v hc.2⟩
      have hbelow : ∀ w < v, (r, w) ∈ E := fun w hw => hE w (hw.trans hv)
      obtain ⟨vm'', L'', out'', hrun, hsub', href', hroot', hwalk'⟩ :=
        href.releaseEntry hcoh.releaseAll ((hover.booked False.elim).releaseAll hbelow).atLeast hr hv hmem
          ((hwalk 3 le_rfl v hv).trans ht)
      refine ⟨vm'', hrun, hv, L'', out'', hsub'.trans hsub, ?_, hroot'.trans hroot, ?_⟩
      · rw [without_succ]
        exact href'
      · intro d hd v' hv'
        rw [hwalk' r hr d hd v' hv']
        exact hwalk d hd v' hv'
  have h0 : inv 0 vm := by
    refine ⟨zero_le _, L, out, Finset.Subset.refl out, ?_, rfl, fun _ _ _ _ => rfl⟩
    rw [without_zero]
    exact h
  obtain ⟨vm', hrun, _, L', out', hsub, href, hroot, _⟩ := hvisits.run true true h0
  refine ⟨vm', L', out', ?_, hsub, href, hroot⟩
  unfold Vm.releaseUserCowRefs
  rw [(h.isFrame_root hr).and_not_low]
  exact hrun

lemma Refines.releaseUserCowRefs_unmarked (hr : r ∈ roots) (hun : ∀ v < userPages,
      ¬ (Pte.present (σ.pte (r, v)) = true ∧ Pte.cow (σ.pte (r, v)) = true)) : vm.releaseUserCowRefs r = some vm := by
  have hvisits : Visits id r (pageTables.tableAt vm.pmm.mem r) (fun _ st => st = vm)
      Vm.releaseEntry := by
    refine ⟨?_, ?_, fun _ _ _ hst _ => hst, ?_⟩
    · intro _ st hst d _ v _
      rw [hst]
      rfl
    · intro _ st hst d hd v hv t ht
      rw [hst]
      exact h.tables.clean r hr d hd v hv t ht
    · intro v hv st t hst ht
      rw [hst]
      exact ⟨vm, h.releaseEntry_unmarked hr hv ht (hun v hv), rfl⟩
  obtain ⟨st, hrun, hst⟩ := hvisits.run true true rfl
  unfold Vm.releaseUserCowRefs
  rw [(h.isFrame_root hr).and_not_low]
  exact hst ▸ hrun

end Vm
end NodeKernel
