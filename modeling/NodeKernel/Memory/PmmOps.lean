import NodeKernel.Memory.PmmInvariant

/-!
# What the allocator operations do

One specification for each function of `pmm.rs`: which block changes sides, and that the
words of the blocks that stay outstanding are not touched.
-/
namespace NodeKernel
open Blocks Function List Nat Block

def FreeLists.Coalesced (L : FreeLists) : Prop :=
  Blocks.Coalesced (blocksOn L) (pageShift + (maxOrder - 1))

lemma FreeLists.Coalesced.push {L : FreeLists} (h : L.Coalesced) {addr order : ℕ} (ho : order < maxOrder)
    (hb : order < maxOrder - 1 → (blockAt addr order).buddy ∉ blocksOn L) (hal : (blockAt addr order).Aligned) :
    FreeLists.Coalesced (update L order (addr :: L order)) := by
  unfold FreeLists.Coalesced at h ⊢
  rw [blocksOn_push L ho]
  intro b hbm hexp hbud
  rcases hbm with he | hm
  · subst he
    rw [blockAt_exp] at hexp
    rcases hbud with he | hm
    · exact hal.buddy_ne (congrArg base he)
    · exact hb (by omega) hm
  · rcases hbud with he | hm'
    · have hbb : b = (blockAt addr order).buddy := by rw [← he, buddy_buddy]
      rw [hbb, buddy_exp, blockAt_exp] at hexp
      exact hb (by omega) (hbb ▸ hm)
    · exact h b hm hexp hm'

lemma FreeLists.Coalesced.erase {L : FreeLists} (h : L.Coalesced) {addr order : ℕ} (hnd : (L order).Nodup) :
    FreeLists.Coalesced (update L order ((L order).erase addr)) := by
  unfold FreeLists.Coalesced at h ⊢
  rw [blocksOn_erase L hnd]
  intro b hb hexp hbud
  exact h b hb.1 hexp hbud.1

namespace Pmm

variable {s : Pmm} {L : FreeLists} {out rest : Finset Block} {P : Set ℕ}

lemma removeLoop_absent {target : ℕ} {l : List ℕ} {fuel cur : ℕ} (link : Link)
    (hc : Chain 0 s.next cur l) (ht : target ∉ l) (hf : l.length < fuel) :
    removeLoop target fuel s link cur = some (false, s) := by
  induction l generalizing fuel cur link with
  | nil =>
    cases fuel with
    | zero => simp at hf
    | succ fuel => rw [removeLoop, if_pos (Chain.nil_iff.mp hc)]
  | cons a l ih =>
    obtain ⟨rfl, hne, hl⟩ := hc
    simp only [mem_cons, not_or] at ht
    cases fuel with
    | zero => simp at hf
    | succ fuel =>
      rw [removeLoop, if_neg hne, if_neg (Ne.symm ht.1)]
      exact ih _ hl ht.2 (lt_of_succ_lt_succ hf)

lemma removeLoop_found {target : ℕ} {l l' : List ℕ} {fuel cur : ℕ} (link : Link)
    (hc : Chain 0 s.next cur (l ++ target :: l')) (ht : target ∉ l) (hf : l.length < fuel) : removeLoop target fuel s link cur =
      some (true, s.writeLink (s.next target) (l.getLast?.elim link Link.node)) := by
  induction l generalizing fuel cur link with
  | nil =>
    obtain ⟨rfl, hne, _⟩ := hc
    cases fuel with
    | zero => simp at hf
    | succ fuel =>
      rw [removeLoop, if_neg hne, if_pos rfl]
      rfl
  | cons a l ih =>
    obtain ⟨rfl, hne, hl⟩ := hc
    simp only [mem_cons, not_or] at ht
    cases fuel with
    | zero => simp at hf
    | succ fuel =>
      rw [removeLoop, if_neg hne, if_neg (Ne.symm ht.1), ih _ hl ht.2 (lt_of_succ_lt_succ hf), getLast?_cons]
      cases l.getLast? <;> rfl

lemma Inv.removeFree_absent (h : s.Inv L out P) {target order : ℕ} (ho : order < maxOrder)
    (ht : target ∉ L order) : s.removeFree target order = some (false, s) :=
  removeLoop_absent _ (h.chains order ho) ht (lt_succ_of_le (h.length_le ho))

lemma Inv.removeFree_found (h : s.Inv L out P) {target order : ℕ} (ho : order < maxOrder) (ht : target ∈ L order) :
    ∃ s', s.removeFree target order = some (true, s') ∧ s'.Inv (update L order ((L order).erase target))
        (insert (blockAt target order) out) P ∧
      SameOn out P s s' ∧ s'.freePages = s.freePages ∧ s'.totalPages = s.totalPages := by
  obtain ⟨l, l', hl⟩ := append_of_mem ht
  have hch := h.chains order ho
  have hnd := hch.nodup
  have htl : target ∉ l := by
    rw [hl, nodup_append] at hnd
    exact fun hm => hnd.2.2 target hm target mem_cons_self rfl
  have hers : (L order).erase target = l ++ l' := by
    rw [hl, erase_append_right _ htl, erase_cons_head]
  have hlen := h.length_le ho
  have hfuel : l.length < s.totalPages + 1 := by
    rw [hl, length_append] at hlen
    omega
  have hfound := removeLoop_found (Link.head order) (hl ▸ hch) htl hfuel
  refine ⟨_, hfound, ?_⟩
  rcases eq_nil_or_concat l with rfl | ⟨l₁, p, rfl⟩
  · refine ⟨h.take ho ht rfl ?_, ?_, rfl, rfl⟩
    · intro o hlt
      change Chain 0 s.next (update s.freeLists order (s.next target) o) _
      by_cases hoo : o = order
      · subst hoo
        rw [update_self, update_self, hers]
        exact (hl ▸ hch).2.2
      · rw [update_of_ne hoo, update_of_ne hoo]
        exact h.chains o hlt
    · exact SameOn.refl out P s
  · rw [concat_eq_append] at hl hers ⊢
    rw [getLast?_append]
    have hp : p ∈ L order := by
      rw [hl]
      simp
    refine ⟨h.take ho ht rfl ?_, ?_, rfl, rfl⟩
    · intro o hlt
      change Chain 0 (next { s with
        mem := s.mem.write p 0 (s.next target), freeLists := s.freeLists }) (s.freeLists o) _
      rw [next_write]
      by_cases hoo : o = order
      · subst hoo
        rw [update_self, hers]
        have hch' := h.chains o hlt
        rw [hl] at hch'
        simp only [append_assoc, cons_append, nil_append] at hch' ⊢
        exact hch'.unlink
      · rw [update_of_ne hoo]
        apply (h.chains o hlt).update_of_notMem
        intro hpo
        exact hoo (h.order_unique hlt ho hpo hp)
    · intro a ha i
      have hne : a ≠ p := by
        intro he
        subst he
        rcases ha with ha | ha
        · exact ha (h.managed_of_listed ho hp)
        · obtain ⟨b, hb, hab⟩ := ha
          exact h.disjoint_listed hb ho hp hab
      change (s.mem.write p 0 (s.next target)) a i = s.mem a i
      simp [PhysMem.write, hne]

/-- What a run of the merging loop leaves: the block is on a list of an order it
was merged up to, and it was merged exactly when its buddy was listed. -/
structure Freed (s : Pmm) (L : FreeLists) (rest : Finset Block) (P : Set ℕ) (addr order : ℕ)
    (s' : Pmm) (order' : ℕ) (L' : FreeLists) : Prop where
  inv : s'.Inv L' rest P
  same : SameOn rest P s s'
  freePages : s'.freePages = s.freePages
  totalPages : s'.totalPages = s.totalPages
  lower : order ≤ order'
  upper : order' < maxOrder
  coalesced : L.Coalesced → L'.Coalesced
  merged : order' = order ↔ ¬ (order < maxOrder - 1 ∧ (addr ^^^ (pageSize <<< order)) ∈ L order)

section
variable (h : s.Inv L (insert (blockAt addr order) rest) P) (hnew : blockAt addr order ∉ rest) (ho : order < maxOrder)
include h hnew ho

lemma Inv.freed_push (hstop : ¬ (order < maxOrder - 1 ∧ (addr ^^^ (pageSize <<< order)) ∈ L order)) :
    Freed s L rest P addr order (s.pushFree addr order) order (update L order (addr :: L order)) := by
  have hb : blockAt addr order ∈ insert (blockAt addr order) rest := Finset.mem_insert_self _ _
  have hinv := h.give ho hb
  have hsame := h.give_sameOn hb
  rw [Finset.erase_insert hnew] at hinv hsame
  refine ⟨hinv, hsame, rfl, rfl, le_rfl, ho, ?_, ⟨fun _ => hstop, fun _ => rfl⟩⟩
  intro hco
  apply hco.push ho
  · intro hlt
    rw [buddy_blockAt, blockAt_mem_blocksOn]
    exact fun hm => hstop ⟨hlt, hm.2⟩
  · exact h.tiling.aligned _ (.inr (Finset.mem_coe.mpr hb))

lemma Inv.freeLoop_spec
    {fuel : ℕ} (hf : maxOrder - order ≤ fuel) :
    ∃ s' order' L', freeLoop fuel s addr order = some (s', order') ∧ Freed s L rest P addr order s' order' L' := by
  induction fuel generalizing s L addr order with
  | zero => omega
  | succ fuel ih =>
    rw [freeLoop]
    by_cases htop : maxOrder - 1 ≤ order
    · rw [if_pos htop]
      exact ⟨_, _, _, rfl, h.freed_push hnew ho (fun hm => by omega)⟩
    · rw [if_neg htop]
      by_cases hm : (addr ^^^ (pageSize <<< order)) ∈ L order
      · obtain ⟨s₁, hrem, hinv, hsame, hfp, htp⟩ := h.removeFree_found ho hm
        simp only [hrem]
        set buddy := addr ^^^ (pageSize <<< order) with hbud
        have hbout : blockAt buddy order ∉ insert (blockAt addr order) rest := h.apart _ (blockAt_mem_blocksOn.mpr ⟨ho, hm⟩)
        have hheld : blockAt addr order ∈ insert (blockAt buddy order) (insert (blockAt addr order) rest) := by simp
        have hmerge := hinv.merge (by omega) hheld (by simp [hbud])
        rw [← hbud, Finset.erase_right_comm, Finset.erase_insert hbout, Finset.erase_insert hnew] at hmerge
        have hupn : blockAt (min addr buddy) (order + 1) ∉ rest := by
          intro hr
          have hmem : addr ∈ blockAt (min addr buddy) (order + 1) := by
            rw [hbud, ← parent_blockAt]
            exact (h.tiling.aligned _ (.inr (by simp))).mem_parent.mpr
              (.inl (base_mem (blockAt addr order)))
          have he := h.tiling.unique _ (.inr (by simp [hr])) (blockAt addr order)
            (.inr (by simp)) addr hmem (base_mem (blockAt addr order))
          exact absurd (blockAt_injective he).2 (by omega)
        obtain ⟨s', order', L', hrun, hfr⟩ := ih hmerge hupn (by omega) (by omega)
        refine ⟨s', order', L', hrun, hfr.inv, ?_, hfr.freePages.trans hfp,
          hfr.totalPages.trans htp, by have := hfr.lower; omega, hfr.upper, ?_, ?_⟩
        · exact (hsame.mono (Finset.subset_insert _ _)).trans hfr.same
        · intro hco
          exact hfr.coalesced (hco.erase (h.chains order ho).nodup)
        · have := hfr.lower
          exact ⟨fun he => by omega, fun hn => absurd ⟨by omega, hm⟩ hn⟩
      · simp only [h.removeFree_absent ho hm]
        exact ⟨_, _, _, rfl, h.freed_push hnew ho (fun hc => hm hc.2)⟩

end

lemma Inv.freeOrder_spec (h : s.Inv L out P) (hb : blockAt addr order ∈ out) : ∃ s' order' L', s.freeOrder addr order =
        some { s' with freePages := (s.freePages + 2 ^ order') % 2 ^ 64 } ∧
      Freed s L (out.erase (blockAt addr order)) P addr order s' order' L' := by
  have ho : order < maxOrder := by
    have := h.orders _ hb
    simp only [blockAt_exp] at this
    omega
  rw [← Finset.insert_erase hb] at h
  obtain ⟨s', order', L', hrun, hfr⟩ := h.freeLoop_spec (Finset.notMem_erase _ _) ho
    (sub_le maxOrder order)
  refine ⟨s', order', L', ?_, hfr⟩
  have hmin : min order' (maxOrder - 1) = order' := by
    have := hfr.upper
    omega
  rw [freeOrder, hrun]
  simp only [hmin, one_shiftLeft, hfr.freePages]

def splitLists (L : FreeLists) (addr order current : ℕ) : FreeLists :=
  fun c => if order ≤ c ∧ c < current then (addr + pageSize <<< c) :: L c else L c

lemma splitLists_of_le (L : FreeLists) (addr : ℕ) {order current : ℕ} (h : current ≤ order) :
    splitLists L addr order current = L := by
  funext c
  rw [splitLists, if_neg (by omega)]

lemma splitLists_succ (L : FreeLists) (addr : ℕ) {order current : ℕ} (h : order < current + 1) :
    splitLists L addr order (current + 1) = splitLists (update L current ((addr + pageSize <<< current) :: L current))
        addr order current := by
  funext c
  simp only [splitLists]
  by_cases hc : c = current
  · subst hc
    rw [if_pos (by omega), if_neg (by omega), update_self]
  · rw [update_of_ne hc]
    by_cases hlt : order ≤ c ∧ c < current
    · rw [if_pos hlt, if_pos (by omega)]
    · rw [if_neg hlt, if_neg (by omega)]

lemma Inv.splitLoop_spec (h : s.Inv L (insert (blockAt addr current) rest) P)
    (hnew : blockAt addr current ∉ rest) (hlt : current < maxOrder) (hle : order ≤ current) :
    (splitLoop addr order current s).Inv (splitLists L addr order current) (insert (blockAt addr order) rest) P ∧
      blockAt addr order ∉ rest ∧ SameOn rest P s (splitLoop addr order current s) ∧
      (splitLoop addr order current s).freePages = s.freePages ∧ (splitLoop addr order current s).totalPages = s.totalPages ∧
      (L.Coalesced → (splitLists L addr order current).Coalesced) := by
  induction current generalizing s L with
  | zero =>
    obtain rfl : order = 0 := by omega
    rw [splitLists_of_le L addr le_rfl]
    exact ⟨h, hnew, SameOn.refl _ _ _, rfl, rfl, id⟩
  | succ c ih =>
    by_cases hlo : order < c + 1
    · rw [splitLoop, if_pos hlo, splitLists_succ L addr hlo]
      have hsp := h.split (Finset.mem_insert_self _ _)
      rw [Finset.erase_insert hnew] at hsp
      set lo := blockAt addr c with hlodef
      set hi := blockAt (addr + pageSize <<< c) c with hhidef
      have hlohi : hi ≠ lo := by
        intro he
        have h1 := (blockAt_injective he).1
        have h2 := Nat.two_pow_pos (pageShift + c)
        rw [pageSize_shiftLeft] at h1
        omega
      have hlor : lo ∉ rest := by
        intro hm
        have he := h.tiling.unique lo (.inr (by simp [hm])) (blockAt addr (c + 1))
          (.inr (by simp)) addr (base_mem lo) (base_mem (blockAt addr (c + 1)))
        exact absurd (blockAt_injective he).2 (by omega)
      have hhim : hi ∈ insert lo (insert hi rest) := by simp
      have hgive := hsp.give (by omega) hhim
      have hgs := hsp.give_sameOn hhim
      have herase : (insert lo (insert hi rest)).erase hi = insert lo (rest.erase hi) := by
        rw [Finset.erase_insert_of_ne (Ne.symm hlohi), Finset.erase_insert_eq_erase]
      have hhir : hi ∉ rest := by
        intro hm
        have hbase : hi.base ∈ blockAt addr (c + 1) := by
          have h2 := Nat.two_pow_pos (pageShift + c)
          rw [mem_def, hhidef, blockAt_base, blockAt_base, blockAt_exp, pageSize_shiftLeft, ← add_assoc, pow_succ]
          omega
        have he := h.tiling.unique hi (.inr (by simp [hm])) (blockAt addr (c + 1))
          (.inr (by simp)) hi.base hi.base_mem hbase
        exact absurd (blockAt_injective he).2 (by omega)
      rw [herase, Finset.erase_eq_of_notMem hhir] at hgive hgs
      obtain ⟨hinv, hout, hsame, hfp, htp, hco⟩ := ih hgive hlor (by omega) (by omega)
      refine ⟨hinv, hout, ?_, hfp, htp, ?_⟩
      · exact (hgs.mono (Finset.subset_insert _ _)).trans hsame
      · intro hc
        apply hco
        have hal : hi.Aligned := hsp.tiling.aligned _ (.inr (Finset.mem_coe.mpr hhim))
        apply hc.push (by omega) _ hal
        intro _ hon
        have hbud : hi.buddy = lo := by
          have hw := h.tiling.aligned (blockAt addr (c + 1)) (.inr (by simp))
          obtain ⟨_, hup, _⟩ := hw.lower_halves (by rw [blockAt_exp]; omega)
          rw [lower_blockAt, upper_blockAt] at hup
          rw [hhidef, ← hup, buddy_buddy]
        rw [hbud] at hon
        exact hsp.apart lo hon (by simp)
    · obtain rfl : order = c + 1 := by omega
      rw [splitLoop, if_neg hlo, splitLists_of_le L addr le_rfl]
      exact ⟨h, hnew, SameOn.refl _ _ _, rfl, rfl, id⟩

variable (h : s.Inv L out P)
include h

lemma Inv.freeLists_eq_zero {order : ℕ} (ho : order < maxOrder) : s.freeLists order = 0 ↔ L order = [] := by
  have hch := h.chains order ho
  cases hl : L order with
  | nil => exact ⟨fun _ => rfl, fun _ => by rw [hl] at hch; exact hch⟩
  | cons a l =>
    rw [hl] at hch
    exact ⟨fun h0 => absurd (hch.1.symm.trans h0) hch.2.1, fun h0 => by simp at h0⟩

lemma Inv.findOrder_some {order found : ℕ} (ho : order < maxOrder) : s.findOrder order = some found ↔
      order ≤ found ∧ found < maxOrder ∧ L found ≠ [] ∧ ∀ o, order ≤ o → o < found → L o = [] := by
  rw [findOrder, find?_range'_eq_some]
  simp only [decide_eq_true_eq, mem_range'_1, decide_eq_false_iff_not, Bool.not_eq_true', decide_not, Bool.not_eq_false']
  constructor
  · intro hf
    obtain ⟨hne, hmem, hall⟩ := hf
    refine ⟨hmem.1, by omega, ?_, ?_⟩
    · exact fun h0 => by simp [(h.freeLists_eq_zero (by omega)).mpr h0] at hne
    · intro o h1 h2
      exact (h.freeLists_eq_zero (by omega)).mp (hall o h1 h2)
  · intro hf
    obtain ⟨h1, h2, h3, h4⟩ := hf
    refine ⟨?_, by omega, ?_⟩
    · simpa [h.freeLists_eq_zero h2] using h3
    · intro o h5 h6
      exact (h.freeLists_eq_zero (by omega)).mpr (h4 o h5 h6)

lemma Inv.findOrder_none {order : ℕ} (ho : order < maxOrder) :
    s.findOrder order = none ↔ ∀ o, order ≤ o → o < maxOrder → L o = [] := by
  rw [findOrder, find?_eq_none]
  constructor
  · intro hf o h1 h2
    have := hf o (by rw [mem_range'_1]; omega)
    exact (h.freeLists_eq_zero h2).mp (by simpa using this)
  · intro hf o hm
    rw [mem_range'_1] at hm
    have := (h.freeLists_eq_zero (by omega)).mpr (hf o hm.1 (by omega))
    simpa using this

lemma Inv.allocOrder_none {order : ℕ} (ho : order < maxOrder) :
    s.allocOrder order = none ↔ ∀ o, order ≤ o → o < maxOrder → L o = [] := by
  rw [← h.findOrder_none ho, allocOrder, if_neg (by omega)]
  cases s.findOrder order <;> simp

/-- What a successful allocation does: the first block of the smallest sufficient
list is split down, and its lower end is handed out. -/
structure Allocated (s : Pmm) (L : FreeLists) (out : Finset Block) (P : Set ℕ) (order addr : ℕ)
    (s' : Pmm) (L' : FreeLists) : Prop where
  inv : s'.Inv L' (insert (blockAt addr order) out) P
  fresh : blockAt addr order ∉ out
  same : SameOn out P s s'
  freePages : s'.freePages = s.freePages - 2 ^ order
  totalPages : s'.totalPages = s.totalPages
  coalesced : L.Coalesced → L'.Coalesced
  lists : ∃ found l, order ≤ found ∧ found < maxOrder ∧ L found = addr :: l ∧
    (∀ o, order ≤ o → o < found → L o = []) ∧
    L' = splitLists (update L found l) addr order found

lemma Inv.allocOrder_some {order addr : ℕ} {s' : Pmm} (hrun : s.allocOrder order = some (addr, s')) :
    order < maxOrder ∧ ∃ L', Allocated s L out P order addr s' L' := by
  have ho : order < maxOrder := by
    by_contra hn
    rw [allocOrder, if_pos (by omega)] at hrun
    exact absurd hrun (by simp)
  refine ⟨ho, ?_⟩
  rw [allocOrder, if_neg (by omega)] at hrun
  cases hfind : s.findOrder order with
  | none => simp [hfind] at hrun
  | some found =>
    simp only [hfind, Option.some.injEq, Prod.mk.injEq] at hrun
    obtain ⟨haddr, hs'⟩ := hrun
    obtain ⟨hle, hlt, hne, hleast⟩ := (h.findOrder_some ho).mp hfind
    obtain ⟨a, l, hl⟩ := exists_cons_of_ne_nil hne
    have hch := h.chains found hlt
    rw [hl] at hch
    have hhead : s.freeLists found = a := hch.1
    rw [hhead] at haddr hs'
    subst haddr
    have hmem : a ∈ L found := by
      rw [hl]
      exact mem_cons_self
    have herase : (L found).erase a = l := by rw [hl, erase_cons_head]
    set s₁ : Pmm := { s with freeLists := update s.freeLists found (s.next a) } with hs₁
    have hchains : ∀ o < maxOrder, Chain 0 s₁.next (s₁.freeLists o)
        (update L found ((L found).erase a) o) := by
      intro o hlo
      change Chain 0 s.next (update s.freeLists found (s.next a) o) _
      by_cases hoo : o = found
      · subst hoo
        rw [update_self, update_self, herase]
        exact hch.2.2
      · rw [update_of_ne hoo, update_of_ne hoo]
        exact h.chains o hlo
    have htake : Inv s₁ (update L found ((L found).erase a))
        (insert (blockAt a found) out) P := h.take hlt hmem rfl hchains
    have hbout : blockAt a found ∉ out := h.apart _ (blockAt_mem_blocksOn.mpr ⟨hlt, hmem⟩)
    obtain ⟨hinv, hfresh, hsame, hfp, htp, hco⟩ := htake.splitLoop_spec hbout hlt hle
    rw [herase] at hinv hco
    refine ⟨splitLists (update L found l) a order found, ?_, hfresh, ?_, ?_, ?_, ?_, found, l, hle, hlt, hl, hleast, rfl⟩
    · rw [← hs']
      exact hinv.of_eq rfl rfl rfl
    · rw [← hs']
      exact hsame
    · rw [← hs']
      rw [hfp, one_shiftLeft]
    · rw [← hs']
      exact htp
    · intro hc
      exact hco (herase ▸ hc.erase (h.chains found hlt).nodup)

end Pmm
end NodeKernel
