import Mathlib.Algebra.Order.BigOperators.Group.Finset
import NodeKernel.Lib.Blocks
import NodeKernel.Lib.Chain
import NodeKernel.Memory.Pmm

/-!
# The allocator invariant

Free blocks and blocks handed out are dyadic blocks, which together tile the managed
bytes. Each list operation moves one block between the two sides; splitting and merging
happen on the outstanding side.
-/
namespace NodeKernel
open Blocks Function Nat List Set Block

def blockAt (addr order : ℕ) : Block := ⟨addr, pageShift + order⟩

@[simp] lemma blockAt_base (addr order : ℕ) : (blockAt addr order).base = addr := rfl
@[simp] lemma blockAt_exp (addr order : ℕ) : (blockAt addr order).exp = pageShift + order := rfl

lemma blockAt_injective {a a' o o' : ℕ} (h : blockAt a o = blockAt a' o') : a = a' ∧ o = o' := by
  simp only [blockAt, mk.injEq, add_left_cancel_iff] at h
  exact h

lemma pageSize_shiftLeft (order : ℕ) : pageSize <<< order = 2 ^ (pageShift + order) := by
  rw [shiftLeft_eq, pow_add]
  rfl

lemma one_shiftLeft (order : ℕ) : 1 <<< order = 2 ^ order := by
  rw [shiftLeft_eq, one_mul]

lemma buddy_blockAt (addr order : ℕ) : (blockAt addr order).buddy = blockAt (addr ^^^ (pageSize <<< order)) order := by
  rw [pageSize_shiftLeft]
  rfl

lemma parent_blockAt (addr order : ℕ) : (blockAt addr order).parent =
      blockAt (min addr (addr ^^^ (pageSize <<< order))) (order + 1) := by
  rw [pageSize_shiftLeft]
  rfl

lemma lower_blockAt (addr order : ℕ) : (blockAt addr (order + 1)).lower = blockAt addr order := rfl

lemma upper_blockAt (addr order : ℕ) : (blockAt addr (order + 1)).upper = blockAt (addr + pageSize <<< order) order := by
  rw [pageSize_shiftLeft]
  rfl

abbrev FreeLists := ℕ → List ℕ

def blocksOn (L : FreeLists) : Set Block :=
  {b | ∃ order < maxOrder, ∃ addr ∈ L order, b = blockAt addr order}

lemma blockAt_mem_blocksOn {L : FreeLists} {addr order : ℕ} :
    blockAt addr order ∈ blocksOn L ↔ order < maxOrder ∧ addr ∈ L order := by
  constructor
  · intro h
    obtain ⟨o, ho, a, ha, he⟩ := h
    obtain ⟨rfl, rfl⟩ := blockAt_injective he
    exact ⟨ho, ha⟩
  · intro h
    exact ⟨order, h.1, addr, h.2, rfl⟩

lemma blocksOn_push (L : FreeLists) {addr order : ℕ} (ho : order < maxOrder) :
    blocksOn (update L order (addr :: L order)) = insert (blockAt addr order) (blocksOn L) := by
  ext b
  constructor
  · intro h
    obtain ⟨o, hlt, a, ha, rfl⟩ := h
    by_cases hoo : o = order
    · subst hoo
      rw [update_self, mem_cons] at ha
      rcases ha with h | h
      · exact .inl (by rw [h])
      · exact .inr ⟨o, hlt, a, h, rfl⟩
    · rw [update_of_ne hoo] at ha
      exact .inr ⟨o, hlt, a, ha, rfl⟩
  · intro h
    rcases h with h | h
    · exact ⟨order, ho, addr, by simp, h⟩
    · obtain ⟨o, hlt, a, ha, rfl⟩ := h
      refine ⟨o, hlt, a, ?_, rfl⟩
      by_cases hoo : o = order
      · subst hoo
        simp [ha]
      · rwa [update_of_ne hoo]

lemma blocksOn_erase (L : FreeLists) {addr order : ℕ} (hnd : (L order).Nodup) :
    blocksOn (update L order ((L order).erase addr)) = blocksOn L \ {blockAt addr order} := by
  ext b
  constructor
  · intro h
    obtain ⟨o, hlt, a, ha, rfl⟩ := h
    by_cases hoo : o = order
    · subst hoo
      rw [update_self, hnd.mem_erase_iff] at ha
      exact ⟨⟨o, hlt, a, ha.2, rfl⟩, fun he => ha.1 (blockAt_injective he).1⟩
    · rw [update_of_ne hoo] at ha
      exact ⟨⟨o, hlt, a, ha, rfl⟩, fun he => hoo (blockAt_injective he).2⟩
  · intro h
    obtain ⟨⟨o, hlt, a, ha, rfl⟩, hne⟩ := h
    refine ⟨o, hlt, a, ?_, rfl⟩
    by_cases hoo : o = order
    · subst hoo
      rw [update_self, hnd.mem_erase_iff]
      exact ⟨fun he => hne (by rw [he]; rfl), ha⟩
    · rwa [update_of_ne hoo]

def pagesOn (L : FreeLists) : ℕ := ∑ order ∈ Finset.range maxOrder, (L order).length * 2 ^ order

lemma pagesOn_update (L : FreeLists) {order : ℕ} (ho : order < maxOrder) (l : List ℕ) :
    pagesOn (update L order l) + (L order).length * 2 ^ order = pagesOn L + l.length * 2 ^ order := by
  have hm : order ∈ Finset.range maxOrder := Finset.mem_range.mpr ho
  have h1 := Finset.sum_erase_add (Finset.range maxOrder)
    (fun o => (update L order l o).length * 2 ^ o) hm
  have h2 := Finset.sum_erase_add (Finset.range maxOrder) (fun o => (L o).length * 2 ^ o) hm
  have h3 : ∑ o ∈ (Finset.range maxOrder).erase order, (update L order l o).length * 2 ^ o =
      ∑ o ∈ (Finset.range maxOrder).erase order, (L o).length * 2 ^ o := by
    apply Finset.sum_congr rfl
    intro o hmem
    rw [update_of_ne (Finset.ne_of_mem_erase hmem)]
  simp only [update_self] at h1
  unfold pagesOn
  omega

lemma length_le_pagesOn (L : FreeLists) {order : ℕ} (ho : order < maxOrder) : (L order).length ≤ pagesOn L := by
  have h := Finset.single_le_sum (f := fun o => (L o).length * 2 ^ o)
    (fun _ _ => zero_le _) (Finset.mem_range.mpr ho)
  exact (Nat.le_mul_of_pos_right _ (Nat.two_pow_pos order)).trans h

def pagesOut (out : Finset Block) : ℕ := ∑ b ∈ out, 2 ^ (b.exp - pageShift)

lemma pagesOut_insert {out : Finset Block} {b : Block} (h : b ∉ out) :
    pagesOut (insert b out) = 2 ^ (b.exp - pageShift) + pagesOut out := Finset.sum_insert h

lemma pagesOut_erase {out : Finset Block} {b : Block} (h : b ∈ out) :
    2 ^ (b.exp - pageShift) + pagesOut (out.erase b) = pagesOut out :=
  Finset.add_sum_erase out (fun b => 2 ^ (b.exp - pageShift)) h

namespace Pmm

/-- Listed blocks `L` and outstanding blocks `out` tile the managed bytes `P`. -/
structure Inv (s : Pmm) (L : FreeLists) (out : Finset Block) (P : Set ℕ) : Prop where
  chains : ∀ order < maxOrder, Chain 0 s.next (s.freeLists order) (L order)
  tiling : Tiling (blocksOn L ∪ ↑out) P
  apart : ∀ b ∈ blocksOn L, b ∉ out
  orders : ∀ b ∈ out, pageShift ≤ b.exp ∧ b.exp < pageShift + maxOrder
  total : pagesOn L + pagesOut out = s.totalPages
  zero : 0 ∉ P

def SameOn (out : Finset Block) (P : Set ℕ) (s s' : Pmm) : Prop :=
  ∀ a, (a ∉ P ∨ ∃ b ∈ out, a ∈ b) → ∀ i, s'.mem a i = s.mem a i

lemma SameOn.refl (out : Finset Block) (P : Set ℕ) (s : Pmm) : SameOn out P s s := fun _ _ _ => rfl

lemma SameOn.trans {out : Finset Block} {P : Set ℕ} {s s' s'' : Pmm} (h : SameOn out P s s')
    (h' : SameOn out P s' s'') : SameOn out P s s'' :=
  fun a ha i => (h' a ha i).trans (h a ha i)

lemma SameOn.mono {out out' : Finset Block} {P : Set ℕ} {s s' : Pmm} (hsub : out' ⊆ out)
    (h : SameOn out P s s') : SameOn out' P s s' :=
  fun a ha => h a (ha.imp id (fun ⟨b, hb, hab⟩ => ⟨b, hsub hb, hab⟩))

lemma next_write (s : Pmm) (addr v : ℕ) (fl : ℕ → ℕ) :
    next { s with mem := s.mem.write addr 0 v, freeLists := fl } = update s.next addr v := by
  funext a
  by_cases h : a = addr
  · subst h
    simp [next, PhysMem.write]
  · simp [next, PhysMem.write, h]

variable {s : Pmm} {L : FreeLists} {out : Finset Block} {P : Set ℕ}

lemma Inv.length_le (h : s.Inv L out P) {order : ℕ} (ho : order < maxOrder) : (L order).length ≤ s.totalPages := by
  have := length_le_pagesOn L ho
  have := h.total
  omega

variable {addr order : ℕ} {b : Block}

variable (h : s.Inv L out P)
include h

lemma Inv.base_notMem (hb : b ∈ out) {order : ℕ} (ho : order < maxOrder) : b.base ∉ L order := by
  intro hmem
  have hon := blockAt_mem_blocksOn.mpr ⟨ho, hmem⟩
  have he := h.tiling.unique _ (.inl hon) b (.inr hb) b.base
    (base_mem (blockAt b.base order)) b.base_mem
  exact h.apart _ hon (he ▸ hb)

lemma Inv.order_unique {addr o o' : ℕ} (ho : o < maxOrder)
    (ho' : o' < maxOrder) (ha : addr ∈ L o) (ha' : addr ∈ L o') : o = o' := by
  have he := h.tiling.unique _ (.inl (blockAt_mem_blocksOn.mpr ⟨ho, ha⟩)) _
    (.inl (blockAt_mem_blocksOn.mpr ⟨ho', ha'⟩)) addr
    (base_mem (blockAt addr o)) (base_mem (blockAt addr o'))
  exact (blockAt_injective he).2

lemma Inv.base_ne_zero (hb : b ∈ out) : b.base ≠ 0 := by
  intro h0
  exact h.zero ((h.tiling.cover 0).mpr ⟨b, .inr hb, h0 ▸ b.base_mem⟩)

lemma Inv.disjoint_out {b c : Block} (hb : b ∈ out) (hc : c ∈ out) (hne : b ≠ c) {a : ℕ} (hab : a ∈ b) : a ∉ c :=
  fun hac => hne (h.tiling.unique b (.inr hb) c (.inr hc) a hab hac)

lemma Inv.disjoint_listed (hb : b ∈ out) (ho : order < maxOrder) (ha : addr ∈ L order) : addr ∉ b := by
  intro hab
  have hon := blockAt_mem_blocksOn.mpr ⟨ho, ha⟩
  have he := h.tiling.unique _ (.inl hon) b (.inr hb) addr
    (base_mem (blockAt addr order)) hab
  exact h.apart _ hon (he ▸ hb)

lemma Inv.give (ho : order < maxOrder) (hb : blockAt addr order ∈ out) :
    (s.pushFree addr order).Inv (update L order (addr :: L order)) (out.erase (blockAt addr order)) P := by
  constructor
  · intro o hlt
    have hch := h.chains o hlt
    change Chain 0 (next { s with
      mem := s.mem.write addr 0 (s.freeLists order)
      freeLists := update s.freeLists order addr })
      (update s.freeLists order addr o) _
    rw [next_write]
    by_cases hoo : o = order
    · subst hoo
      rw [update_self, update_self]
      exact hch.push (h.base_ne_zero hb) (h.base_notMem hb hlt)
    · rw [update_of_ne hoo, update_of_ne hoo]
      exact hch.update_of_notMem (h.base_notMem hb hlt)
  · have hset : blocksOn (update L order (addr :: L order)) ∪
        ↑(out.erase (blockAt addr order)) = blocksOn L ∪ ↑out := by
      rw [blocksOn_push L ho, Finset.coe_erase, insert_union, ← union_insert, insert_sdiff_singleton, insert_eq_of_mem hb]
    rw [hset]
    exact h.tiling
  · intro b hbon hbo
    rw [blocksOn_push L ho] at hbon
    rcases hbon with he | hbl
    · exact Finset.ne_of_mem_erase hbo he
    · exact h.apart b hbl (Finset.mem_of_mem_erase hbo)
  · intro b hbo
    exact h.orders b (Finset.mem_of_mem_erase hbo)
  · have h1 := pagesOn_update L ho (addr :: L order)
    have h2 := pagesOut_erase hb
    have h3 := h.total
    simp only [length_cons, Nat.add_mul, Nat.one_mul] at h1
    simp only [blockAt_exp, Nat.add_sub_cancel_left] at h2
    change _ = s.totalPages
    omega
  · exact h.zero

lemma Inv.managed_of_out (hb : b ∈ out) {a : ℕ} (ha : a ∈ b) : a ∈ P := (h.tiling.cover a).mpr ⟨b, .inr hb, ha⟩

lemma Inv.managed_of_listed (ho : order < maxOrder) (ha : addr ∈ L order) : addr ∈ P := (h.tiling.cover addr).mpr
    ⟨_, .inl (blockAt_mem_blocksOn.mpr ⟨ho, ha⟩), base_mem (blockAt addr order)⟩

lemma Inv.give_sameOn (hb : blockAt addr order ∈ out) :
    SameOn (out.erase (blockAt addr order)) P s (s.pushFree addr order) := by
  intro a ha i
  have hbase := base_mem (blockAt addr order)
  have hne : a ≠ addr := by
    intro he
    subst he
    rcases ha with ha | ha
    · exact ha (h.managed_of_out hb hbase)
    · obtain ⟨b, hbo, hab⟩ := ha
      exact h.disjoint_out (Finset.mem_of_mem_erase hbo) hb (Finset.ne_of_mem_erase hbo) hab hbase
  simp [pushFree, PhysMem.write, hne]

lemma Inv.take {s' : Pmm} (ho : order < maxOrder)
    (ha : addr ∈ L order) (htot : s'.totalPages = s.totalPages) (hch : ∀ o < maxOrder, Chain 0 s'.next (s'.freeLists o)
      (update L order ((L order).erase addr) o)) :
    s'.Inv (update L order ((L order).erase addr)) (insert (blockAt addr order) out) P := by
  have hnd := (h.chains order ho).nodup
  have hon := blockAt_mem_blocksOn.mpr ⟨ho, ha⟩
  have hnew : blockAt addr order ∉ out := h.apart _ hon
  constructor
  · exact hch
  · have hset : blocksOn (update L order ((L order).erase addr)) ∪
        ↑(insert (blockAt addr order) out) = blocksOn L ∪ ↑out := by
      rw [blocksOn_erase L hnd, Finset.coe_insert, union_insert, ← insert_union, insert_sdiff_singleton, insert_eq_of_mem hon]
    rw [hset]
    exact h.tiling
  · intro b hbon hbo
    rw [blocksOn_erase L hnd] at hbon
    rcases Finset.mem_insert.mp hbo with he | hbo
    · exact hbon.2 he
    · exact h.apart b hbon.1 hbo
  · intro b hbo
    rcases Finset.mem_insert.mp hbo with he | hbo
    · rw [he, blockAt_exp]
      omega
    · exact h.orders b hbo
  · have h1 := pagesOn_update L ho ((L order).erase addr)
    have h2 := pagesOut_insert hnew
    have h3 := h.total
    obtain ⟨n, hn⟩ : ∃ n, (L order).length = n + 1 := ⟨(L order).length - 1, by have := length_pos_of_mem ha; omega⟩
    rw [length_erase_of_mem ha, hn, Nat.add_sub_cancel, Nat.add_mul, Nat.one_mul] at h1
    rw [blockAt_exp, Nat.add_sub_cancel_left] at h2
    omega
  · exact h.zero

lemma Inv.split (hb : blockAt addr (order + 1) ∈ out) :
    s.Inv L (insert (blockAt addr order) (insert (blockAt (addr + pageSize <<< order) order)
      (out.erase (blockAt addr (order + 1))))) P := by
  have hpos : 0 < (blockAt addr (order + 1)).exp := by simp [blockAt_exp]
  have ht := h.tiling.split (.inr hb) hpos
  rw [lower_blockAt, upper_blockAt] at ht
  set lo := blockAt addr order with hlo
  set hi := blockAt (addr + pageSize <<< order) order with hhi
  have hset : (insert lo (insert hi ((blocksOn L ∪ ↑out) \ {blockAt addr (order + 1)})) : Set Block)
      = blocksOn L ∪ ↑(insert lo (insert hi (out.erase (blockAt addr (order + 1))))) := by
    have hd : blocksOn L \ {blockAt addr (order + 1)} = blocksOn L := sdiff_singleton_eq_self (fun hon => h.apart _ hon hb)
    rw [Finset.coe_insert, Finset.coe_insert, Finset.coe_erase, union_sdiff_distrib, hd, union_insert, union_insert]
  rw [hset] at ht
  have hwhole : (blockAt addr (order + 1)).exp = pageShift + order + 1 := rfl
  have hne : lo ≠ hi := by
    intro he
    have h1 := congrArg base he
    have h2 := Nat.two_pow_pos (pageShift + order)
    simp only [hlo, hhi, blockAt_base, pageSize_shiftLeft] at h1
    omega
  -- a half that was present before would meet the whole block without being it
  have habsent : ∀ c, c.exp = pageShift + order → c.base ∈ blockAt addr (order + 1) → c ∉ blocksOn L ∪ ↑out := by
    intro c hexp hbase hc
    have := congrArg exp (h.tiling.unique c hc _ (.inr hb) c.base c.base_mem hbase)
    omega
  have hlobase : lo.base ∈ blockAt addr (order + 1) := base_mem (blockAt addr (order + 1))
  have hhibase : hi.base ∈ blockAt addr (order + 1) := by
    have h2 := Nat.two_pow_pos (pageShift + order)
    rw [mem_def, hwhole, hhi, blockAt_base, blockAt_base, pageSize_shiftLeft, pow_succ]
    omega
  have hlon := habsent lo rfl hlobase
  have hhin := habsent hi rfl hhibase
  constructor
  · exact h.chains
  · exact ht
  · intro b hbon hbo
    simp only [Finset.mem_insert] at hbo
    rcases hbo with rfl | rfl | hbo
    · exact hlon (.inl hbon)
    · exact hhin (.inl hbon)
    · exact h.apart b hbon (Finset.mem_of_mem_erase hbo)
  · intro b hbo
    have hord := h.orders _ hb
    simp only [Finset.mem_insert] at hbo
    rcases hbo with rfl | rfl | hbo
    · simp only [hlo, blockAt_exp]
      omega
    · simp only [hhi, blockAt_exp]
      omega
    · exact h.orders b (Finset.mem_of_mem_erase hbo)
  · have h1 : hi ∉ out.erase (blockAt addr (order + 1)) := fun hm => hhin (.inr (Finset.mem_of_mem_erase hm))
    have h2 : lo ∉ insert hi (out.erase (blockAt addr (order + 1))) := by
      intro hm
      rcases Finset.mem_insert.mp hm with he | hm
      · exact hne he
      · exact hlon (.inr (Finset.mem_of_mem_erase hm))
    have h3 := pagesOut_erase hb
    have h4 := h.total
    rw [pagesOut_insert h2, pagesOut_insert h1]
    simp only [hlo, hhi, blockAt_exp, Nat.add_sub_cancel_left] at h3 ⊢
    rw [pow_succ] at h3
    omega
  · exact h.zero

lemma Inv.merge (ho : order + 1 < maxOrder) (hb : blockAt addr order ∈ out)
    (hbuddy : blockAt (addr ^^^ (pageSize <<< order)) order ∈ out) :
    s.Inv L (insert (blockAt (min addr (addr ^^^ (pageSize <<< order))) (order + 1)) ((out.erase (blockAt addr order)).erase
        (blockAt (addr ^^^ (pageSize <<< order)) order))) P := by
  have hal := h.tiling.aligned _ (.inr hb)
  have ht := h.tiling.merge (.inr hb) (by rw [buddy_blockAt]; exact .inr hbuddy)
  have hne : blockAt (addr ^^^ (pageSize <<< order)) order ≠ blockAt addr order := by
    rw [← buddy_blockAt]
    exact fun he => hal.buddy_ne (congrArg base he)
  have hpar : ∀ p, p ∈ blockAt addr order → p ∈ (blockAt addr order).parent := fun p hp => hal.mem_parent.mpr (.inl hp)
  rw [parent_blockAt, buddy_blockAt] at ht
  rw [parent_blockAt] at hpar
  set lo := blockAt addr order with hlo
  set hi := blockAt (addr ^^^ (pageSize <<< order)) order with hhi
  set up := blockAt (min addr (addr ^^^ (pageSize <<< order))) (order + 1) with hup
  have hset : (insert up ((blocksOn L ∪ ↑out) \ {lo, hi}) : Set Block)
      = blocksOn L ∪ ↑(insert up ((out.erase lo).erase hi)) := by
    have hd : blocksOn L \ {lo, hi} = blocksOn L := by
      ext b
      constructor
      · exact fun hm => hm.1
      · intro hm
        refine ⟨hm, fun hc => ?_⟩
        rcases hc with he | he
        · exact h.apart b hm (he ▸ hb)
        · exact h.apart b hm (mem_singleton_iff.mp he ▸ hbuddy)
    rw [Finset.coe_insert, Finset.coe_erase, Finset.coe_erase, union_sdiff_distrib, hd, union_insert, sdiff_sdiff, insert_eq lo]
  rw [hset] at ht
  have hupn : up ∉ blocksOn L ∪ ↑out := by
    intro hm
    have := congrArg exp (h.tiling.unique up hm lo (.inr hb) addr
      (hpar addr (base_mem lo)) (base_mem lo))
    simp [hup, hlo, blockAt_exp] at this
  constructor
  · exact h.chains
  · exact ht
  · intro b hbon hbo
    rcases Finset.mem_insert.mp hbo with he | hbo
    · exact hupn (.inl (he ▸ hbon))
    · exact h.apart b hbon (Finset.mem_of_mem_erase (Finset.mem_of_mem_erase hbo))
  · intro b hbo
    rcases Finset.mem_insert.mp hbo with he | hbo
    · rw [he, hup, blockAt_exp]
      omega
    · exact h.orders b (Finset.mem_of_mem_erase (Finset.mem_of_mem_erase hbo))
  · have h1 : up ∉ (out.erase lo).erase hi := fun hm => hupn (.inr (Finset.mem_of_mem_erase (Finset.mem_of_mem_erase hm)))
    have h2 := pagesOut_erase (Finset.mem_erase.mpr ⟨hne, hbuddy⟩)
    have h3 := pagesOut_erase hb
    have h4 := h.total
    rw [pagesOut_insert h1]
    simp only [hlo, hhi, hup, blockAt_exp, Nat.add_sub_cancel_left, pow_succ] at h2 h3 ⊢
    omega
  · exact h.zero

lemma Inv.extend (ho : order < maxOrder)
    (hal : (blockAt addr order).Aligned) (hfresh : ∀ p ∈ blockAt addr order, p ∉ P) (hzero : 0 ∉ blockAt addr order) :
    Inv { s with totalPages := s.totalPages + 1 <<< order } L (insert (blockAt addr order) out)
      (P ∪ {p | p ∈ blockAt addr order}) := by
  have hnew : blockAt addr order ∉ blocksOn L ∪ ↑out := by
    intro hm
    exact hfresh addr (base_mem (blockAt addr order))
      ((h.tiling.cover addr).mpr ⟨_, hm, base_mem (blockAt addr order)⟩)
  have ht := h.tiling.insert hal hfresh
  rw [← union_insert, ← Finset.coe_insert] at ht
  constructor
  · exact h.chains
  · exact ht
  · intro b hbon hbo
    rcases Finset.mem_insert.mp hbo with he | hbo
    · exact hnew (.inl (he ▸ hbon))
    · exact h.apart b hbon hbo
  · intro b hbo
    rcases Finset.mem_insert.mp hbo with he | hbo
    · rw [he, blockAt_exp]
      omega
    · exact h.orders b hbo
  · have h1 : blockAt addr order ∉ out := fun hm => hnew (.inr hm)
    have h2 := h.total
    rw [pagesOut_insert h1, blockAt_exp, Nat.add_sub_cancel_left, one_shiftLeft]
    change _ = s.totalPages + 2 ^ order
    omega
  · intro hm
    rcases hm with hm | hm
    · exact h.zero hm
    · exact hzero hm

lemma Inv.of_eq {s' : Pmm} (hf : s'.freeLists = s.freeLists)
    (hm : s'.mem = s.mem) (ht : s'.totalPages = s.totalPages) : s'.Inv L out P := by
  have hn : s'.next = s.next := by
    funext a
    simp [next, hm]
  exact ⟨by rw [hn, hf]; exact h.chains, h.tiling, h.apart, h.orders, ht ▸ h.total, h.zero⟩

end Pmm
end NodeKernel
