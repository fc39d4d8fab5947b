import NodeKernel.Memory.AddressSpaces
import NodeKernel.Memory.PmmRuns
import NodeKernel.Memory.Vmm

/-!
# Page tables in allocated memory

The four-level tables as a radix tree, and the invariant that ties them to the allocator:
every table lies in a frame that the allocator has handed out or never managed.
-/
namespace NodeKernel
open Blocks Function Finset Radix Nat PhysMem Pte

/-- The entry leads to a table: it is present and, below the root, not huge. -/
def childTable (d e : ℕ) : Option ℕ :=
  if e &&& ptePresent = 0 ∨ (d ≠ 0 ∧ e &&& pteHuge ≠ 0) then none else some (e &&& pteAddrMask)

def pageTables : Radix := ⟨512, 3, childTable, by decide⟩

lemma key_two (q : ℕ) : pageTables.key 2 q = q * 512 := congrArg (q * ·) (Nat.pow_one 512)

lemma slot_three (v : ℕ) : pageTables.slot 3 v = v % 512 := by
  have h : pageTables.slot pageTables.height v = pageTables.stem (pageTables.height + 1) v % 512 := slot_eq_stem_mod le_rfl
  rw [stem_top] at h
  exact h

lemma stem_three (v : ℕ) : pageTables.stem 3 v = v / 512 := by
  have h : pageTables.stem pageTables.height v = pageTables.stem (pageTables.height + 1) v / 512 := stem_succ le_rfl
  rw [stem_top] at h
  exact h

lemma slot_three_add (q : ℕ) {i : ℕ} (hi : i < 512) : pageTables.slot 3 (q * 512 + i) = i := by
  rw [slot_three]
  omega

lemma stem_three_add (q : ℕ) {i : ℕ} (hi : i < 512) : pageTables.stem 3 (q * 512 + i) = pageTables.stem 3 (q * 512) := by
  rw [stem_three, stem_three]
  omega

def userPages : ℕ := 256 * 512 ^ 3

lemma userPages_pos : 0 < userPages := by decide

lemma userPages_le : userPages ≤ pageTables.fan ^ (pageTables.height + 1) := by decide

lemma slot_zero_lt {v : ℕ} (hv : v < userPages) : pageTables.slot 0 v < 256 := by
  have hdiv : v / 512 ^ 3 < 256 := Nat.div_lt_of_lt_mul (by rw [Nat.mul_comm]; exact hv)
  exact lt_of_le_of_lt (mod_le _ _) hdiv

lemma key_zero_first : pageTables.key 0 (0 * 512) = 0 := by
  rw [zero_mul]
  exact zero_mul _

lemma key_zero_half : pageTables.key 0 (0 * 512 + 256) = userPages := by
  rw [zero_mul, zero_add]
  rfl

def userTables (mem : PhysMem) (r : ℕ) : ℕ :=
  ∑ i ∈ Finset.range 256, pageTables.tablesBelow (pageTables.tableAt mem r) 3 0 i

lemma key_zero_le {i : ℕ} (hi : i < 256) : pageTables.key 0 (i + 1) ≤ userPages := Nat.mul_le_mul_right _ hi

lemma userTables_congr {mem mem' : PhysMem} {r : ℕ} (h : ∀ d ≤ 3, ∀ v < userPages,
      pageTables.tableAt mem' r d v = pageTables.tableAt mem r d v) : userTables mem' r = userTables mem r := by
  apply sum_congr rfl
  intro i hi
  exact tablesBelow_congr h (le_refl 3) (key_zero_le (mem_range.mp hi))

lemma userTables_linked {mem mem' : PhysMem} {roots : Set ℕ} {r d v t t' w : ℕ}
    (hl : pageTables.Linked mem mem' roots userPages r d v t t' w)
    (hf : pageTables.Forest mem roots userPages) : userTables mem' r = userTables mem r + 1 := by
  have hd : d < 3 := hl.depth
  have hslot : pageTables.stem 1 v < 256 := Nat.div_lt_of_lt_mul (by rw [Nat.mul_comm]; exact hl.key)
  have hterm : ∀ i ∈ Finset.range 256, pageTables.tablesBelow (pageTables.tableAt mem' r) 3 0 i =
      pageTables.tablesBelow (pageTables.tableAt mem r) 3 0 i +
        if pageTables.stem 1 v = i then 1 else 0 := by
    intro i hi
    have h := hl.tablesBelow hf (l := 3) (q := i) (le_refl 3) (key_zero_le (mem_range.mp hi))
    rw [h]
    simp [hd]
  unfold userTables
  rw [sum_congr rfl hterm, sum_add_distrib, sum_ite_eq, if_pos (mem_range.mpr hslot)]

def Held (out : Finset Block) (P : Set ℕ) (f : ℕ) : Prop := f ∉ P ∨ blockAt f 0 ∈ out

/-- The tables below `roots` hold the last-level entries `pte` and lie in held frames. -/
structure TablesInv (s : Pmm) (L : FreeLists) (out : Finset Block) (P : Set ℕ) (roots : Set ℕ)
    (pte : Entry → ℕ) : Prop where
  inv : s.Inv L out P
  bounded : ∀ a ∈ P, a < 2 ^ 52
  forest : pageTables.Forest s.mem roots userPages
  clean : pageTables.Clean s.mem roots userPages
  tables : ∀ t, pageTables.IsTable s.mem roots userPages t → Pte.IsFrame t ∧ Held out P t
  pte : ∀ r ∈ roots, ∀ v < userPages, pageTables.leaf s.mem r v = pte (r, v)

@[simp] lemma PhysMem.write_self (m : PhysMem) (p i w : ℕ) : m.write p i w p i = w := if_pos ⟨rfl, rfl⟩

lemma PhysMem.write_ne (m : PhysMem) {p i w a j : ℕ} (h : a ≠ p ∨ j ≠ i) : m.write p i w a j = m a j := by
  apply if_neg
  intro hc
  rcases h with h | h
  · exact h hc.1
  · exact h hc.2

lemma childTable_zero (d : ℕ) : childTable d 0 = none := by
  unfold childTable
  simp

lemma childTable_eq_none {d e : ℕ} : childTable d e = none ↔ Pte.present e = false ∨ (d ≠ 0 ∧ Pte.huge e = true) := by
  rw [← and_present, ← Bool.not_eq_false, ← and_huge]
  unfold childTable
  split
  next h => exact ⟨fun _ => h, fun _ => rfl⟩
  next h => exact ⟨fun hc => absurd hc (by simp), fun hc => absurd hc h⟩

lemma childTable_of_ne_none {d e : ℕ} (h : childTable d e ≠ none) : childTable d e = some (Pte.frame e) := by
  unfold childTable at h ⊢
  split at h
  · exact absurd rfl h
  next hn => exact if_neg hn

lemma childTable_some {d e t : ℕ} (h : childTable d e = some t) : Pte.present e = true ∧ t = Pte.frame e := by
  have hne : childTable d e ≠ none := by
    rw [h]
    simp
  rw [childTable_of_ne_none hne] at h
  rw [ne_eq, childTable_eq_none, not_or] at hne
  exact ⟨by simpa using hne.1, (Option.some.inj h).symm⟩

lemma childTable_toTable {d e p : ℕ} (hp : Pte.IsFrame p) (h : childTable d e ≠ none) :
    childTable d (Pte.toTable p e) = some p := by
  have hne : childTable d (toTable p e) ≠ none := by
    rw [ne_eq, childTable_eq_none] at h ⊢
    rwa [present_toTable hp, huge_toTable hp]
  rw [childTable_of_ne_none hne, frame_toTable hp]

lemma Held.mono {out out' : Finset Block} {P : Set ℕ} {f : ℕ} (hsub : out ⊆ out')
    (h : Held out P f) : Held out' P f := h.imp id (fun hb => hsub hb)

lemma Held.sameOn {out : Finset Block} {P : Set ℕ} {s s' : Pmm} {f : ℕ} (h : Held out P f)
    (hs : Pmm.SameOn out P s s') (i : ℕ) : s'.mem f i = s.mem f i :=
  hs f (h.imp id (fun hb => ⟨_, hb, Block.base_mem (blockAt f 0)⟩)) i

namespace Pmm
variable {s : Pmm} {L : FreeLists} {out : Finset Block} {P : Set ℕ}

/-- The invariant reads the link words of listed blocks only. -/
theorem Inv.remem (h : s.Inv L out P) {mem : PhysMem} (hsame : ∀ order < maxOrder, ∀ a ∈ L order, mem a 0 = s.mem a 0) :
    Inv { s with mem } L out P := by
  refine ⟨?_, h.tiling, h.apart, h.orders, h.total, h.zero⟩
  intro order ho
  exact (h.chains order ho).congr (fun a ha => (hsame order ho a ha).symm)

lemma Inv.remem_held (h : s.Inv L out P) {mem : PhysMem} {p : ℕ} (hp : Held out P p)
    (hsame : ∀ a, a ≠ p → ∀ i, mem a i = s.mem a i) : Inv { s with mem } L out P := by
  apply h.remem
  intro order ho a ha
  apply hsame
  intro hap
  subst hap
  rcases hp with hp | hp
  · exact hp (h.managed_of_listed ho ha)
  · exact h.base_notMem hp ho ha

lemma Inv.isFrame (h : s.Inv L out P) (hb : ∀ a ∈ P, a < 2 ^ 52) {f : ℕ} (hf : blockAt f 0 ∈ out) : Pte.IsFrame f := by
  apply isFrame_of_aligned
  · exact mod_eq_zero_of_dvd (h.tiling.aligned _ (.inr hf))
  · exact hb f (h.managed_of_out hf (Block.base_mem (blockAt f 0)))

end Pmm

namespace TablesInv
variable {s s' : Pmm} {L L' : FreeLists} {out out' : Finset Block} {P roots : Set ℕ}
  {pte : Entry → ℕ} {f : ℕ}

lemma remake (h : TablesInv s L out P roots pte) (hinv : s'.Inv L' out' P)
    (hheld : ∀ t, pageTables.IsTable s.mem roots userPages t → Held out' P t)
    (hsame : ∀ t, pageTables.IsTable s.mem roots userPages t → ∀ i, s'.mem t i = s.mem t i) :
    TablesInv s' L' out' P roots pte := by
  have hwalk : ∀ r ∈ roots, ∀ d ≤ pageTables.height, ∀ v < userPages,
      pageTables.tableAt s'.mem r d v = pageTables.tableAt s.mem r d v :=
    fun r hr d hd v hv => tableAt_of_same hr hv hd hsame
  refine ⟨hinv, h.bounded, h.forest.congr hwalk, h.clean.of_same hsame, ?_, ?_⟩
  · intro t ht
    have ht' := (isTable_congr hwalk).mp ht
    exact ⟨(h.tables t ht').1, hheld t ht'⟩
  · intro r hr v hv
    rw [leaf_of_same hr hv hsame]
    exact h.pte r hr v hv

lemma isTable_remake (hsame : ∀ t, pageTables.IsTable s.mem roots userPages t → ∀ i, s'.mem t i = s.mem t i) {t : ℕ} :
    pageTables.IsTable s'.mem roots userPages t ↔ pageTables.IsTable s.mem roots userPages t :=
  isTable_congr (fun _ hr _ hd _ hv => tableAt_of_same hr hv hd hsame)

variable (h : TablesInv s L out P roots pte)
include h

lemma remem (hf : Held out P f)
    (hnot : ¬ pageTables.IsTable s.mem roots userPages f) {mem : PhysMem} (hsame : ∀ a, a ≠ f → ∀ i, mem a i = s.mem a i) :
    TablesInv { s with mem } L out P roots pte := by
  apply h.remake (h.inv.remem_held hf hsame) (fun t ht => (h.tables t ht).2)
  intro t ht i
  exact hsame t (fun he => hnot (he ▸ ht)) i

lemma writeLeaf {r v t : ℕ} (hr : r ∈ roots) (hv : v < userPages) (ht : pageTables.tableAt s.mem r 3 v = some t) (w : ℕ) :
    TablesInv { s with mem := s.mem.write t (pageTables.slot 3 v) w } L out P roots
        (update pte (r, v) w) ∧
      ∀ r' ∈ roots, ∀ d ≤ 3, ∀ v' < userPages, pageTables.tableAt (s.mem.write t (pageTables.slot 3 v) w) r' d v' =
          pageTables.tableAt s.mem r' d v' := by
  have htab : pageTables.IsTable s.mem roots userPages t := ⟨r, hr, 3, le_rfl, v, hv, ht⟩
  have hw : pageTables.Wrote s.mem (s.mem.write t (pageTables.slot 3 v) w) roots userPages t
      (pageTables.slot pageTables.height v) w :=
    ⟨write_self .., fun t' _ j hj => write_ne _ hj⟩
  have hwalk : ∀ r' ∈ roots, ∀ d ≤ pageTables.height, ∀ v' < userPages,
      pageTables.tableAt (s.mem.write t (pageTables.slot 3 v) w) r' d v' = pageTables.tableAt s.mem r' d v' :=
    fun r' hr' d hd v' hv' => h.forest.tableAt_writeLeaf hr hv ht hw hr' hv' hd
  have hinv : Pmm.Inv { s with mem := s.mem.write t (pageTables.slot 3 v) w } L out P :=
    h.inv.remem_held (h.tables t htab).2 (fun a ha i => write_ne _ (.inl ha))
  refine ⟨⟨hinv, h.bounded, h.forest.congr hwalk, h.forest.clean_writeLeaf h.clean hr hv ht hw, ?_, ?_⟩, hwalk⟩
  · intro t' ht'
    exact h.tables t' ((isTable_congr hwalk).mp ht')
  · intro r' hr' v' hv'
    rw [h.forest.leaf_writeLeaf hr hv ht hw hr' hv', h.pte r' hr' v' hv']
    by_cases he : r' = r ∧ v' = v
    · rw [if_pos he, he.1, he.2, update_self]
    · rw [if_neg he, update_of_ne]
      intro hc
      exact he (Prod.mk.inj hc)

lemma link {r d v t e : ℕ} (hr : r ∈ roots) (hv : v < userPages) (hd : d < 3) (ht : pageTables.tableAt s.mem r d v = some t)
    (hunused : childTable d (s.mem t (pageTables.slot d v)) = none) (he : childTable d e ≠ none)
    (hf : blockAt f 0 ∈ out) (hfresh : ¬ pageTables.IsTable s.mem roots userPages f) (hzero : ∀ i, s.mem f i = 0) :
    TablesInv { s with mem := s.mem.write t (pageTables.slot d v) (Pte.toTable f e) } L out P
        roots pte ∧
      pageTables.Linked s.mem (s.mem.write t (pageTables.slot d v) (toTable f e)) roots
        userPages r d v t f (toTable f e) := by
  have htab : pageTables.IsTable s.mem roots userPages t := ⟨r, hr, d, le_of_lt hd, v, hv, ht⟩
  have hframe := h.inv.isFrame h.bounded hf
  have hne : f ≠ t := fun hft => hfresh (hft ▸ htab)
  have hl : pageTables.Linked s.mem (s.mem.write t (pageTables.slot d v) (toTable f e)) roots
      userPages r d v t f (toTable f e) :=
    { root := hr, key := hv, depth := hd, table := ht, unused := hunused
      points := childTable_toTable hframe he
      fresh := hfresh
      empty := fun j => (write_ne _ (.inl hne)).trans (hzero j)
      zero := childTable_zero
      wrote := ⟨write_self .., fun t' _ j hj => write_ne _ hj⟩ }
  have hinv : Pmm.Inv { s with mem := s.mem.write t (pageTables.slot d v) (toTable f e) } L out P :=
    h.inv.remem_held (h.tables t htab).2 (fun a ha i => write_ne _ (.inl ha))
  refine ⟨⟨hinv, h.bounded, hl.forest h.forest, hl.clean h.forest h.clean, ?_, ?_⟩, hl⟩
  · intro t' ht'
    rcases hl.isTable h.forest ht' with he | hold
    · exact he ▸ ⟨hframe, .inr hf⟩
    · exact h.tables t' hold
  · intro r' hr' v' hv'
    rw [hl.leaf h.forest hr' hv']
    exact h.pte r' hr' v' hv'

lemma insertRoot (hf : blockAt f 0 ∈ out) (hfresh : ¬ pageTables.IsTable s.mem roots userPages f)
    (hempty : ∀ i < 256, s.mem f i = 0) (hpte : ∀ v < userPages, pte (f, v) = 0) :
    TablesInv s L out P (insert f roots) pte := by
  have hzero : ∀ v < userPages, s.mem f (pageTables.slot 0 v) = 0 := fun v hv => hempty _ (slot_zero_lt hv)
  have hslot : ∀ v < userPages, pageTables.child 0 (s.mem f (pageTables.slot 0 v)) = none := by
    intro v hv
    rw [hzero v hv]
    exact childTable_zero 0
  refine ⟨h.inv, h.bounded, h.forest.insert_root userPages_le hfresh hslot, h.clean.insert_root childTable_zero hzero, ?_, ?_⟩
  · intro t ht
    rcases isTable_insert_root hslot ht with he | hold
    · exact he ▸ ⟨h.inv.isFrame h.bounded hf, .inr hf⟩
    · exact h.tables t hold
  · intro r hr v hv
    rcases hr with he | hr
    · subst he
      rw [hpte v hv]
      exact leaf_of_none (tableAt_empty_root (d := 2) hslot hv)
    · exact h.pte r hr v hv

end TablesInv
end NodeKernel
