import Mathlib.Algebra.Group.Action.Defs
import NodeKernel.Lib.Run
import NodeKernel.Memory.PmmInit

/-!
# Runs of matched allocator calls

A session is the allocator together with the blocks it has handed out and not taken
back. Between calls the owner of a block may store anything into it.
-/
namespace NodeKernel
open Blocks List Nat

namespace Pmm

def freeList (s : Pmm) (order : ℕ) : List ℕ :=
  Chain.nodes 0 s.next s.totalPages (s.freeLists order)

def freeBlocks (s : Pmm) : List Block :=
  (List.range maxOrder).flatMap (fun order => (s.freeList order).map (blockAt · order))

def listedPages (s : Pmm) : ℕ := (s.freeBlocks.map (fun b => 2 ^ (b.exp - pageShift))).sum

variable {s : Pmm} {L : FreeLists} {out : Finset Block} {P : Set ℕ}

variable (h : s.Inv L out P)
include h

lemma Inv.freeList_eq {order : ℕ} (ho : order < maxOrder) :
    s.freeList order = L order := (h.chains order ho).nodes_eq (h.length_le ho)

lemma Inv.mem_freeBlocks {b : Block} : b ∈ s.freeBlocks ↔ b ∈ blocksOn L := by
  simp only [freeBlocks, mem_flatMap, mem_range, mem_map]
  constructor
  · intro hb
    obtain ⟨order, ho, addr, ha, rfl⟩ := hb
    rw [h.freeList_eq ho] at ha
    exact ⟨order, ho, addr, ha, rfl⟩
  · intro hb
    obtain ⟨order, ho, addr, ha, rfl⟩ := hb
    exact ⟨order, ho, addr, by rw [h.freeList_eq ho]; exact ha, rfl⟩

lemma Inv.freeBlocks_nodup : s.freeBlocks.Nodup := by
  rw [freeBlocks, nodup_flatMap]
  constructor
  · intro order ho
    rw [mem_range] at ho
    rw [h.freeList_eq ho]
    exact (h.chains order ho).nodup.map (fun a a' he => (blockAt_injective he).1)
  · apply nodup_range.imp
    intro o o' hne b hb hb'
    obtain ⟨a, _, rfl⟩ := mem_map.mp hb
    obtain ⟨a', _, he⟩ := mem_map.mp hb'
    exact hne (blockAt_injective he).2.symm

lemma Inv.freeBlocks_disjoint : s.freeBlocks.Pairwise (fun b b' => ∀ a ∈ b, a ∉ b') := by
  apply h.freeBlocks_nodup.imp_of_mem
  intro b b' hb hb' hne a ha ha'
  exact hne (h.tiling.unique b (.inl (h.mem_freeBlocks.mp hb)) b' (.inl (h.mem_freeBlocks.mp hb')) a ha ha')

lemma Inv.listedPages_eq : s.listedPages = pagesOn L := by
  have hgen : ∀ n ≤ maxOrder, (((List.range n).flatMap
      (fun order => (s.freeList order).map (blockAt · order))).map
      (fun b => 2 ^ (b.exp - pageShift))).sum =
      ∑ order ∈ Finset.range n, (L order).length * 2 ^ order := by
    intro n hn
    induction n with
    | zero => rfl
    | succ n ih =>
      rw [range_succ, flatMap_append, map_append, sum_append_nat, ih (by omega), Finset.sum_range_succ, flatMap_singleton, map_map,
        h.freeList_eq (by omega)]
      congr 1
      rw [map_congr_left (g := fun _ => 2 ^ n), map_const', sum_replicate, smul_eq_mul]
      intro a _
      simp [blockAt_exp]
  exact hgen maxOrder le_rfl

lemma Inv.store {b : Block} (hb : b ∈ out) {page : ℕ} (hp : page ∈ b)
    (i w : ℕ) : Inv { s with mem := s.mem.write page i w } L out P := by
  refine ⟨?_, h.tiling, h.apart, h.orders, h.total, h.zero⟩
  intro order ho
  apply (h.chains order ho).congr
  intro a ha
  have hne : a ≠ page := fun he => h.disjoint_listed hb ho ha (he ▸ hp)
  simp [next, PhysMem.write, hne]

end Pmm

inductive PmmCall where
  | alloc (order : ℕ)
  | free (addr order : ℕ)
  | store (page i w : ℕ)

structure Session where
  pmm : Pmm
  out : Finset Block

namespace Session

inductive Step : Session → PmmCall → Session → Prop
  | allocated {c : Session} {order addr : ℕ} {s : Pmm} :
      c.pmm.allocOrder order = some (addr, s) →
      Step c (.alloc order) ⟨s, insert (blockAt addr order) c.out⟩
  | exhausted {c : Session} {order : ℕ} :
      c.pmm.allocOrder order = none → Step c (.alloc order) c
  | freed {c : Session} {addr order : ℕ} {s : Pmm} :
      blockAt addr order ∈ c.out → c.pmm.freeOrder addr order = some s →
      Step c (.free addr order) ⟨s, c.out.erase (blockAt addr order)⟩
  | stored {c : Session} {b : Block} {page i w : ℕ} :
      b ∈ c.out → page ∈ b →
      Step c (.store page i w) ⟨{ c.pmm with mem := c.pmm.mem.write page i w }, c.out⟩

def start (mem : PhysMem) (regions : List MemoryRegion) : Session := ⟨Pmm.init mem regions, ∅⟩

def Sound (P : Set ℕ) (c : Session) : Prop := ∃ L, c.pmm.Inv L c.out P

def SoundCoalesced (P : Set ℕ) (c : Session) : Prop := ∃ L, c.pmm.Inv L c.out P ∧ L.Coalesced

variable {P : Set ℕ} {c c' : Session} {call : PmmCall}

lemma Step.inv {L : FreeLists} (h : c.pmm.Inv L c.out P) (hs : Step c call c') :
    ∃ L', c'.pmm.Inv L' c'.out P ∧ (L.Coalesced → L'.Coalesced) := by
  cases hs with
  | allocated hrun =>
    obtain ⟨_, L', ha⟩ := h.allocOrder_some hrun
    exact ⟨L', ha.inv, ha.coalesced⟩
  | exhausted hrun => exact ⟨L, h, id⟩
  | freed hb hrun =>
    obtain ⟨s', order', L', hfree, hfr⟩ := h.freeOrder_spec hb
    rw [hfree, Option.some.injEq] at hrun
    exact ⟨L', hrun ▸ hfr.inv.of_eq rfl rfl rfl, hfr.coalesced⟩
  | stored hb hp => exact ⟨L, h.store hb hp _ _, id⟩

lemma Step.sound (h : c.Sound P) (hs : Step c call c') : c'.Sound P := by
  obtain ⟨L, hL⟩ := h
  obtain ⟨L', hL', _⟩ := hs.inv hL
  exact ⟨L', hL'⟩

lemma Step.soundCoalesced (h : c.SoundCoalesced P) (hs : Step c call c') : c'.SoundCoalesced P := by
  obtain ⟨L, hL, hco⟩ := h
  obtain ⟨L', hL', hco'⟩ := hs.inv hL
  exact ⟨L', hL', hco' hco⟩

lemma start_sound (mem : PhysMem) {regions : List MemoryRegion} (hlay : UsableLayout regions) :
    (start mem regions).Sound (usableBytes regions) := by
  obtain ⟨_, _, L, hinv, _⟩ := Pmm.init_spec mem hlay
  exact ⟨L, hinv⟩

lemma run_sound {mem : PhysMem} {regions : List MemoryRegion} (hlay : UsableLayout regions)
    {tr : List (Session × PmmCall)} (h : Run Step (start mem regions) tr c) :
    (∀ x ∈ tr, x.1.Sound (usableBytes regions)) ∧ c.Sound (usableBytes regions) :=
  h.invariant (start_sound mem hlay) (fun _ _ _ hI hs => hs.sound hI)

end Session

def Blocks.Block.HasPage (b : Block) (n : ℕ) : Prop := n * pageSize ∈ b

def MemoryRegion.HasPage (r : MemoryRegion) (n : ℕ) : Prop := n * pageSize ∈ r.bytes

namespace Session

/-- Free and outstanding blocks share out the pages of the regions. -/
structure Conserved (regions : List MemoryRegion) (c : Session) : Prop where
  ends : ∀ order < maxOrder,
    Chain 0 c.pmm.next (c.pmm.freeLists order) (c.pmm.freeList order)
  aligned : ∀ b ∈ c.pmm.freeBlocks, b.Aligned
  disjoint : c.pmm.freeBlocks.Pairwise (fun b b' => ∀ p ∈ b, p ∉ b')
  apart : ∀ b ∈ c.pmm.freeBlocks, ∀ b' ∈ c.out, ∀ p ∈ b, p ∉ b'
  pages : ∀ n, ((∃ b ∈ c.pmm.freeBlocks, b.HasPage n) ∨ ∃ b ∈ c.out, b.HasPage n) ↔
    ∃ r ∈ regions, r.kind = .usable ∧ r.HasPage n
  returns : ∀ addr order, blockAt addr order ∈ c.out → (c.pmm.freeOrder addr order).isSome

lemma Sound.conserved {regions : List MemoryRegion} {c : Session}
    (h : c.Sound (usableBytes regions)) : c.Conserved regions := by
  obtain ⟨L, hL⟩ := h
  have hfree : ∀ b, b ∈ c.pmm.freeBlocks ↔ b ∈ blocksOn L := fun b => hL.mem_freeBlocks
  constructor
  · intro order ho
    rw [hL.freeList_eq ho]
    exact hL.chains order ho
  · intro b hb
    exact hL.tiling.aligned b (.inl ((hfree b).mp hb))
  · exact hL.freeBlocks_disjoint
  · intro b hb b' hb' p hp hp'
    have hon := (hfree b).mp hb
    have he := hL.tiling.unique b (.inl hon) b' (.inr hb') p hp hp'
    exact hL.apart b hon (he ▸ hb')
  · intro n
    have hcov := hL.tiling.cover (n * pageSize)
    constructor
    · intro hn
      apply hcov.mpr
      rcases hn with hn | hn
      · obtain ⟨b, hb, hp⟩ := hn
        exact ⟨b, .inl ((hfree b).mp hb), hp⟩
      · obtain ⟨b, hb, hp⟩ := hn
        exact ⟨b, .inr hb, hp⟩
    · intro hn
      obtain ⟨b, hb, hp⟩ := hcov.mp hn
      rcases hb with hb | hb
      · exact .inl ⟨b, (hfree b).mpr hb, hp⟩
      · exact .inr ⟨b, hb, hp⟩
  · intro addr order hb
    obtain ⟨s', order', L', hfree, _⟩ := hL.freeOrder_spec hb
    rw [hfree]
    rfl

theorem run_conserved {mem : PhysMem} {regions : List MemoryRegion} (hlay : UsableLayout regions)
    {tr : List (Session × PmmCall)} {c : Session} (h : Run Step (start mem regions) tr c) :
    c.Conserved regions := (run_sound hlay h).2.conserved

def twoPages : List MemoryRegion := [⟨0x2000, 0x4000, .usable⟩]

lemma twoPages_layout : UsableLayout twoPages := by
  constructor
  · intro r hr _
    obtain rfl := mem_singleton.mp hr
    exact ⟨⟨2, rfl⟩, ⟨4, rfl⟩⟩
  · intro r hr _
    obtain rfl := mem_singleton.mp hr
    exact ⟨by decide, by decide⟩
  · intro r hr _
    obtain rfl := mem_singleton.mp hr
    simp [MemoryRegion.bytes]
  · exact pairwise_singleton _ _

lemma twoPages_run : ∃ tr c, Run Step (start (fun _ _ => 0) twoPages) tr c ∧
    tr.map Prod.snd = [.alloc 0, .free 0x2000 0] ∧ c.pmm.freePages = 3 ∧ c.pmm.listedPages = 2 := by
  refine ⟨_, _, Run.snoc (Run.snoc Run.nil (Step.allocated rfl)) (Step.freed ?_ rfl), rfl, ?_, ?_⟩
  · decide
  · decide
  · decide

theorem run_conserved_twoPages : ∃ tr c, Run Step (start (fun _ _ => 0) twoPages) tr c ∧
    tr.map Prod.snd = [.alloc 0, .free 0x2000 0] ∧ c.Conserved twoPages := by
  obtain ⟨tr, c, hrun, htr, _⟩ := twoPages_run
  exact ⟨tr, c, hrun, htr, run_conserved twoPages_layout hrun⟩

end Session

/-! ## Free-memory accounting -/

namespace Session

lemma Step.totalPages {P : Set ℕ} {c c' : Session} {call : PmmCall} (h : c.Sound P)
    (hs : Step c call c') : c'.pmm.totalPages = c.pmm.totalPages := by
  obtain ⟨L, hL⟩ := h
  cases hs with
  | allocated hrun =>
    obtain ⟨_, L', ha⟩ := hL.allocOrder_some hrun
    exact ha.totalPages
  | exhausted hrun => rfl
  | freed hb hrun =>
    obtain ⟨s₁, order', L', hfree, hfr⟩ := hL.freeOrder_spec hb
    rw [hfree, Option.some.injEq] at hrun
    rw [← hrun]
    exact hfr.totalPages
  | stored hb hp => rfl

end Session

/-! ## Full coalescing -/

namespace Session

variable {regions : List MemoryRegion} {c : Session}

lemma start_soundCoalesced (mem : PhysMem) (hlay : UsableLayout regions)
    (hnt : NonTouching regions) : (start mem regions).SoundCoalesced (usableBytes regions) := by
  obtain ⟨_, _, L, hinv, hco⟩ := Pmm.init_spec mem hlay
  exact ⟨L, hinv, hco hnt⟩

def HasFreeRun (c : Session) (order : ℕ) : Prop :=
  ∃ addr, (blockAt addr order).Aligned ∧
    ∀ n, (blockAt addr order).HasPage n → ∃ b ∈ c.pmm.freeBlocks, b.HasPage n

lemma hasPage_of_mem {b : Block} (hal : b.Aligned) (hexp : pageShift ≤ b.exp) {p : ℕ} : p ∈ b ↔ b.HasPage (p / pageSize) := by
  have hpage : (⟨p / pageSize * pageSize, pageShift⟩ : Block).Aligned := ⟨p / pageSize, mul_comm _ _⟩
  have hbase : p / pageSize * pageSize ∈ (⟨p / pageSize * pageSize, pageShift⟩ : Block) := Block.base_mem _
  have hmem : p ∈ (⟨p / pageSize * pageSize, pageShift⟩ : Block) := by
    rw [mem_def]
    simp only [pageSize, pageShift]
    omega
  constructor
  · intro hp
    exact hpage.subset hal hexp hmem hp hbase
  · intro hp
    exact hpage.subset hal hexp hbase hp hmem

lemma SoundCoalesced.allocOrder_none {P : Set ℕ} (h : c.SoundCoalesced P) {order : ℕ}
    (ho : order < maxOrder) : c.pmm.allocOrder order = none ↔ ¬ c.HasFreeRun order := by
  obtain ⟨L, hL, hco⟩ := h
  rw [hL.allocOrder_none ho]
  have hexp : ∀ b ∈ blocksOn L, pageShift ≤ b.exp := by
    intro b hb
    obtain ⟨o, _, a, _, rfl⟩ := hb
    exact le_add_right _ _
  have hal : ∀ b ∈ blocksOn L, b.Aligned := fun b hb => hL.tiling.aligned b (.inl hb)
  constructor
  · intro hempty hrun
    obtain ⟨addr, hrun, hfree⟩ := hrun
    have hcov : ∀ p ∈ blockAt addr order, ∃ b ∈ blocksOn L, p ∈ b := by
      intro p hp
      obtain ⟨b, hb, hpb⟩ := hfree _
        ((hasPage_of_mem hrun (le_add_right _ _)).mp hp)
      rw [hL.mem_freeBlocks] at hb
      exact ⟨b, hb, (hasPage_of_mem (hal b hb) (hexp b hb)).mpr hpb⟩
    obtain ⟨b, hb, hle, _⟩ := hco.exists_superset hal hrun
      (by rw [blockAt_exp]; omega) hcov
    obtain ⟨o, hlt, a, ha, rfl⟩ := hb
    rw [blockAt_exp, blockAt_exp] at hle
    rw [hempty o (by omega) hlt] at ha
    simp at ha
  · intro hno o hle hlt
    by_contra hne
    obtain ⟨a, l, hl⟩ := exists_cons_of_ne_nil hne
    have hmem : a ∈ L o := by
      rw [hl]
      exact mem_cons_self
    have hon := blockAt_mem_blocksOn.mpr ⟨hlt, hmem⟩
    have hbig := hal _ hon
    have hdvd : 2 ^ (pageShift + order) ∣ 2 ^ (pageShift + o) := pow_dvd_pow 2 (by omega)
    have hrun : (blockAt a order).Aligned := hdvd.trans hbig
    apply hno
    refine ⟨a, hrun, ?_⟩
    intro n hn
    refine ⟨blockAt a o, hL.mem_freeBlocks.mpr hon, ?_⟩
    exact hrun.subset hbig (by rw [blockAt_exp, blockAt_exp]; omega)
      (Block.base_mem (blockAt a order)) (Block.base_mem (blockAt a o)) hn

/-- The free blocks are a function of the outstanding ones, whatever the calls were. -/
theorem run_freeBlocks_perm {mem mem' : PhysMem} {c' : Session} (hlay : UsableLayout regions) (hnt : NonTouching regions)
    {tr tr' : List (Session × PmmCall)} (h : Run Step (start mem regions) tr c) (h' : Run Step (start mem' regions) tr' c')
    (hout : c.out = c'.out) : c.pmm.freeBlocks.Perm c'.pmm.freeBlocks := by
  have hsound : ∀ {mem tr c}, Run Step (start mem regions) tr c → c.SoundCoalesced (usableBytes regions) :=
    fun h => (h.invariant (start_soundCoalesced _ hlay hnt) (fun _ _ _ hI hs => hs.soundCoalesced hI)).2
  obtain ⟨L, hL, hco⟩ := hsound h
  obtain ⟨L', hL', hco'⟩ := hsound h'
  have hle : ∀ (L : FreeLists), ∀ b ∈ blocksOn L, b.exp ≤ pageShift + (maxOrder - 1) := by
    rintro L b ⟨order, ho, a, -, rfl⟩
    rw [blockAt_exp]
    omega
  rw [← hout] at hL'
  refine (perm_ext_iff_of_nodup hL.freeBlocks_nodup hL'.freeBlocks_nodup).mpr fun b => ?_
  rw [hL.mem_freeBlocks, hL'.mem_freeBlocks]
  constructor
  · exact fun hb => hco.subset hco' hL.tiling hL'.tiling hL.apart hL'.apart (fun b hb => hb.elim (hle L b) (hle L' b)) hb
  · exact fun hb => hco'.subset hco hL'.tiling hL.tiling hL'.apart hL.apart (fun b hb => hb.elim (hle L' b) (hle L b)) hb

theorem run_freeBlocks_perm_twoPages : ∃ tr c, Run Step (start (fun _ _ => 0) twoPages) tr c ∧
    tr.map Prod.snd = [.alloc 0, .free 0x2000 0] ∧
      c.pmm.freeBlocks.Perm (start (fun _ _ => 0) twoPages).pmm.freeBlocks := by
  refine ⟨_, _, Run.snoc (Run.snoc Run.nil (Step.allocated rfl)) (Step.freed (by decide) rfl), rfl, ?_⟩
  exact run_freeBlocks_perm twoPages_layout (pairwise_singleton _ _)
    (Run.snoc (Run.snoc Run.nil (Step.allocated rfl)) (Step.freed (by decide) rfl)) Run.nil (by decide)

end Session
end NodeKernel
