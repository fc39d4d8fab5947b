import NodeKernel.Memory.PageTables
import NodeKernel.Memory.PmmSupply

/-!
# The memory manager refines the address spaces

A state of the memory manager represents an abstract space for the entries in force.
-/
namespace NodeKernel

open Radix

open Space
open Blocks Function Finset

namespace Vm

/-- `vm` represents `σ` on the entries `E`. The tables of all `roots` are intact; frames that
an entry in force maps are held, are no tables, and have the content that `σ` gives them. The
frames of `S` are taken and not in use. -/
structure Refines (vm : Vm) (L : FreeLists) (out : Finset Block) (P roots : Set ℕ)
    (E : Finset Entry) (S : Finset ℕ) (σ : Space) : Prop where
  tables : TablesInv vm.pmm L out P roots σ.pte
  refs : vm.cowRefs = σ.refs
  entries : ∀ x ∈ E, x.1 ∈ roots ∧ x.2 < userPages
  apart : ∀ x ∈ E, ∀ f, σ.Maps x f → ¬ pageTables.IsTable vm.pmm.mem roots userPages f
  held : ∀ x ∈ E, ∀ f, σ.Maps x f → Held out P f
  owned : ∀ x ∈ E, Space.Backed (σ.pte x) → blockAt (Pte.frame (σ.pte x)) 0 ∈ out
  data : ∀ x ∈ E, ∀ f, σ.Maps x f → ∀ i, vm.pmm.mem f i = σ.data f i
  spare : ∀ f ∈ S, blockAt f 0 ∈ out ∧ ¬ pageTables.IsTable vm.pmm.mem roots userPages f ∧
    ∀ x ∈ E, ¬ σ.Maps x f

def InUse (vm : Vm) (roots : Set ℕ) (E : Finset Entry) (S : Finset ℕ) (σ : Space) (a : ℕ) : Prop :=
  pageTables.IsTable vm.pmm.mem roots userPages a ∨ (∃ x ∈ E, σ.Maps x a) ∨ a ∈ S

structure Fresh (vm : Vm) (out : Finset Block) (roots : Set ℕ) (E : Finset Entry) (σ : Space)
    (p : ℕ) : Prop where
  isFrame : Pte.IsFrame p
  new : blockAt p 0 ∉ out
  noTable : ¬ pageTables.IsTable vm.pmm.mem roots userPages p
  unmapped : ∀ x ∈ E, ¬ σ.Maps x p

/-- The frame `p` has been taken, and filled with something. -/
structure NewFrame (vm : Vm) (out : Finset Block) (P roots : Set ℕ) (E : Finset Entry)
    (S : Finset ℕ) (σ : Space) (p : ℕ) (vm' : Vm) (L' : FreeLists) : Prop where
  refines : vm'.Refines L' (insert (blockAt p 0) out) P roots E S σ
  fresh : Fresh vm' out roots E σ p
  unspared : p ∉ S
  nonzero : p ≠ 0
  root : vm'.vmmRoot = vm.vmmRoot
  spent : Pmm.Spent vm.pmm 1 vm'.pmm
  kept : ∀ a, Held out P a → ∀ i, vm'.pmm.mem a i = vm.pmm.mem a i
  walks : ∀ r ∈ roots, ∀ d ≤ 3, ∀ v < userPages,
    pageTables.tableAt vm'.pmm.mem r d v = pageTables.tableAt vm.pmm.mem r d v

structure Mappable (vm : Vm) (out : Finset Block) (P roots : Set ℕ) (S : Finset ℕ) (σ : Space)
    (w : ℕ) : Prop where
  noTable : ¬ pageTables.IsTable vm.pmm.mem roots userPages (Pte.frame w)
  held : Held out P (Pte.frame w)
  owned : Space.Backed w → blockAt (Pte.frame w) 0 ∈ out
  unspared : Pte.frame w ∉ S
  data : ∀ i, vm.pmm.mem (Pte.frame w) i = σ.data (Pte.frame w) i

variable {vm vm' : Vm} {L : FreeLists} {out : Finset Block} {P roots : Set ℕ} {E : Finset Entry}
  {S : Finset ℕ} {σ σ' : Space} {f p r v t w : ℕ} {x : Entry}

@[simp] lemma write_pmm_mem : (vm.write t v w).pmm.mem = vm.pmm.mem.write t v w := rfl

lemma allocFrame_some (h : vm.allocFrame = some (p, vm')) :
    vm.pmm.allocOrder 0 = some (p, vm'.pmm) ∧ vm' = { vm with pmm := vm'.pmm } := by
  unfold allocFrame Pmm.allocFrame at h
  cases ha : vm.pmm.allocOrder 0 with
  | none =>
    rw [ha] at h
    cases h
  | some q =>
    rw [ha] at h
    obtain ⟨q, s⟩ := q
    obtain ⟨rfl, rfl⟩ := h
    exact ⟨rfl, rfl⟩

lemma allocFrame_none : vm.allocFrame = none ↔ vm.pmm.allocOrder 0 = none := by
  exact Option.map_eq_none_iff

namespace Refines

section
variable (h : vm.Refines L out P roots E S σ)
include h

/-- Only the entries below the roots matter. -/
theorem congr (hpte : ∀ x, x.1 ∈ roots → x.2 < userPages → σ'.pte x = σ.pte x)
    (hrefs : σ'.refs = σ.refs) (hdata : ∀ y ∈ E, ∀ f, σ.Maps y f → σ'.data f = σ.data f) : vm.Refines L out P roots E S σ' := by
  have hmaps : ∀ y ∈ E, ∀ f, σ'.Maps y f ↔ σ.Maps y f := by
    intro y hy f
    unfold Space.Maps
    rw [hpte y (h.entries y hy).1 (h.entries y hy).2]
  refine ⟨⟨h.tables.inv, h.tables.bounded, h.tables.forest, h.tables.clean, h.tables.tables, ?_⟩,
    ?_, h.entries, ?_, ?_, ?_, ?_, ?_⟩
  · intro r hr v hv
    rw [hpte (r, v) hr hv]
    exact h.tables.pte r hr v hv
  · rw [hrefs]
    exact h.refs
  · intro y hy f hm
    exact h.apart y hy f ((hmaps y hy f).mp hm)
  · intro y hy f hm
    exact h.held y hy f ((hmaps y hy f).mp hm)
  · intro y hy hs
    rw [hpte y (h.entries y hy).1 (h.entries y hy).2] at hs ⊢
    exact h.owned y hy hs
  · intro y hy f hm i
    have hm' := (hmaps y hy f).mp hm
    rw [hdata y hy f hm']
    exact h.data y hy f hm' i
  · intro f hf
    obtain ⟨hout, hnot, hun⟩ := h.spare f hf
    exact ⟨hout, hnot, fun y hy hm => hun y hy ((hmaps y hy f).mp hm)⟩

lemma mono {E' : Finset Entry} (hsub : E' ⊆ E) : vm.Refines L out P roots E' S σ :=
  ⟨h.tables, h.refs, fun x hx => h.entries x (hsub hx), fun x hx => h.apart x (hsub hx),
    fun x hx => h.held x (hsub hx), fun x hx => h.owned x (hsub hx), fun x hx => h.data x (hsub hx),
    fun f hf => ⟨(h.spare f hf).1, (h.spare f hf).2.1, fun x hx => (h.spare f hf).2.2 x (hsub hx)⟩⟩

lemma mono_spare {S' : Finset ℕ} (hsub : S' ⊆ S) : vm.Refines L out P roots E S' σ :=
  ⟨h.tables, h.refs, h.entries, h.apart, h.held, h.owned, h.data, fun f hf => h.spare f (hsub hf)⟩

lemma insert_spare (hf : blockAt f 0 ∈ out)
    (hnot : ¬ pageTables.IsTable vm.pmm.mem roots userPages f) (hun : ∀ y ∈ E, ¬ σ.Maps y f) :
    vm.Refines L out P roots E (insert f S) σ := by
  refine ⟨h.tables, h.refs, h.entries, h.apart, h.held, h.owned, h.data, ?_⟩
  intro f' hf'
  rcases mem_insert.mp hf' with he | hf'
  · exact he ▸ ⟨hf, hnot, hun⟩
  · exact h.spare f' hf'

lemma mappable (hx : x ∈ E) (hp : Pte.present (σ.pte x) = true) (hw : Pte.frame w = Pte.frame (σ.pte x))
    (hs : Space.Backed w → Space.Backed (σ.pte x)) : vm.Mappable out P roots S σ w := by
  have hm : σ.Maps x (Pte.frame w) := ⟨hp, hw.symm⟩
  refine ⟨h.apart x hx _ hm, h.held x hx _ hm, ?_, fun hf => (h.spare _ hf).2.2 x hx hm, h.data x hx _ hm⟩
  intro hsw
  rw [hw]
  exact h.owned x hx (hs hsw)

lemma setRef (f : ℕ) (rc : Option ℕ) : (vm.withRef f rc).Refines L out P roots E S (σ.setRef f rc) := by
  refine ⟨h.tables, ?_, h.entries, h.apart, h.held, h.owned, h.data, h.spare⟩
  change update vm.cowRefs f rc = update σ.refs f rc
  rw [h.refs]

/-- The allocator has moved on; the frames that are in use have stayed where they were. -/
theorem remake {L' : FreeLists} {out' : Finset Block} (hinv : vm'.pmm.Inv L' out' P)
    (hrefs : vm'.cowRefs = vm.cowRefs) (hout : ∀ a, vm.InUse roots E S σ a → blockAt a 0 ∈ out → blockAt a 0 ∈ out')
    (hsame : ∀ a, vm.InUse roots E S σ a → Held out P a → ∀ i, vm'.pmm.mem a i = vm.pmm.mem a i) :
    vm'.Refines L' out' P roots E S σ ∧
      ∀ t, pageTables.IsTable vm'.pmm.mem roots userPages t ↔ pageTables.IsTable vm.pmm.mem roots userPages t := by
  have htab : ∀ t, pageTables.IsTable vm.pmm.mem roots userPages t → ∀ i, vm'.pmm.mem t i = vm.pmm.mem t i :=
    fun t ht => hsame t (.inl ht) (h.tables.tables t ht).2
  have hiff := fun t => TablesInv.isTable_remake (t := t) htab
  have hmaps : ∀ y ∈ E, ∀ f, σ.Maps y f → vm.InUse roots E S σ f := fun y hy f hm => .inr (.inl ⟨y, hy, hm⟩)
  refine ⟨⟨?_, hrefs.trans h.refs, h.entries, ?_, ?_, ?_, ?_, ?_⟩, hiff⟩
  · exact h.tables.remake hinv (fun t ht => (h.tables.tables t ht).2.imp id (hout t (.inl ht))) htab
  · intro y hy f hm ht
    exact h.apart y hy f hm ((hiff f).mp ht)
  · intro y hy f hm
    exact (h.held y hy f hm).imp id (hout f (hmaps y hy f hm))
  · intro y hy hs
    exact hout _ (hmaps y hy _ ⟨hs.1, rfl⟩) (h.owned y hy hs)
  · intro y hy f hm i
    rw [hsame f (hmaps y hy f hm) (h.held y hy f hm)]
    exact h.data y hy f hm i
  · intro f hf
    obtain ⟨hb, hno, hun⟩ := h.spare f hf
    exact ⟨hout f (.inr (.inr hf)) hb, fun ht => hno ((hiff f).mp ht), hun⟩

lemma alloc (hrun : vm.allocFrame = some (p, vm')) : ∃ L', Pmm.Allocated vm.pmm L out P 0 p vm'.pmm L' ∧
      vm'.Refines L' (insert (blockAt p 0) out) P roots E S σ ∧ Fresh vm' out roots E σ p := by
  obtain ⟨hpmm, hvm⟩ := allocFrame_some hrun
  obtain ⟨_, L', ha⟩ := h.tables.inv.allocOrder_some hpmm
  have hpP : p ∈ P := ha.inv.managed_of_out (mem_insert_self _ _)
    (Block.base_mem (blockAt p 0))
  have hnot : ¬ Held out P p := fun hp => hp.elim (fun hf => hf hpP) ha.fresh
  obtain ⟨h', hiff⟩ := h.remake ha.inv (by rw [hvm]) (fun _ _ hb => mem_insert_of_mem hb)
    (fun _ _ hheld i => hheld.sameOn ha.same i)
  refine ⟨L', ha, h', ⟨?_, ha.fresh, ?_, ?_⟩⟩
  · exact ha.inv.isFrame h.tables.bounded (mem_insert_self _ _)
  · exact fun ht => hnot (h.tables.tables p ((hiff p).mp ht)).2
  · exact fun y hy hm => hnot (h.held y hy p hm)

lemma allocBlock {order : ℕ} {s' : Pmm} (hrun : vm.pmm.allocOrder order = some (p, s')) (mem : PhysMem)
    (hsame : ∀ a, a ∉ blockAt p order → ∀ i, mem a i = s'.mem a i) :
    ∃ L', ({ vm with pmm := { s' with mem } } : Vm).Refines L' (insert (blockAt p order) out) P roots
        E S σ ∧
      ∀ t, pageTables.IsTable vm.pmm.mem roots userPages t → ∀ i, mem t i = vm.pmm.mem t i := by
  obtain ⟨_, L', ha⟩ := h.tables.inv.allocOrder_some hrun
  have hsub : out ⊆ insert (blockAt p order) out := subset_insert _ _
  have hself : blockAt p order ∈ insert (blockAt p order) out := mem_insert_self _ _
  have hkeep : ∀ a, Held out P a → ∀ i, mem a i = vm.pmm.mem a i := by
    intro a hheld i
    have hnot : a ∉ blockAt p order := by
      intro hmem
      rcases hheld with hP | hb
      · exact hP (ha.inv.managed_of_out hself hmem)
      · have he := ha.inv.tiling.unique _ (.inr (hsub hb)) _ (.inr hself) a
          (Block.base_mem (blockAt a 0)) hmem
        exact ha.fresh (he ▸ hb)
    rw [hsame a hnot i]
    exact hheld.sameOn ha.same i
  have hinv : Pmm.Inv { s' with mem } L' (insert (blockAt p order) out) P := by
    apply ha.inv.remem
    intro o ho a hl
    exact hsame a (ha.inv.disjoint_listed hself ho hl) 0
  refine ⟨L', And.left (h.remake hinv rfl (fun _ _ hb => hsub hb) (fun a _ => hkeep a)), ?_⟩
  exact fun t ht => hkeep t (h.tables.tables t ht).2

/-- A held page that is no table may be rewritten, with the contents of mapped pages as they are then. -/
theorem rewrite (hf : Held out P f) (hnot : ¬ pageTables.IsTable vm.pmm.mem roots userPages f) {mem : PhysMem}
    (hsame : ∀ a, a ≠ f → ∀ i, mem a i = vm.pmm.mem a i) {data : ℕ → ℕ → ℕ}
    (hdata : ∀ y ∈ E, ∀ f', σ.Maps y f' → ∀ i, mem f' i = data f' i) :
    (vm.withMem mem).Refines L out P roots E S { σ with data := data } ∧
      (pageTables.IsTable mem roots userPages = pageTables.IsTable vm.pmm.mem roots userPages) := by
  have htab : ∀ t, pageTables.IsTable vm.pmm.mem roots userPages t → ∀ i, mem t i = vm.pmm.mem t i :=
    fun t ht i => hsame t (fun he => hnot (he ▸ ht)) i
  have hiff : ∀ t, pageTables.IsTable mem roots userPages t ↔ pageTables.IsTable vm.pmm.mem roots userPages t :=
    fun t => isTable_congr (fun _ hr _ hd _ hv => tableAt_of_same hr hv hd htab)
  refine ⟨⟨h.tables.remem hf hnot hsame, h.refs, h.entries, ?_, h.held, h.owned, hdata, ?_⟩, ?_⟩
  · intro y hy f' hm ht
    exact h.apart y hy f' hm ((hiff f').mp ht)
  · intro f' hf'
    obtain ⟨hout, hno, hun⟩ := h.spare f' hf'
    exact ⟨hout, fun ht => hno ((hiff f').mp ht), hun⟩
  · funext t
    exact propext (hiff t)

lemma remem (hf : Held out P f) (hnot : ¬ pageTables.IsTable vm.pmm.mem roots userPages f) (hun : ∀ y ∈ E, ¬ σ.Maps y f)
    {mem : PhysMem} (hsame : ∀ a, a ≠ f → ∀ i, mem a i = vm.pmm.mem a i) : (vm.withMem mem).Refines L out P roots E S σ ∧
      (pageTables.IsTable mem roots userPages = pageTables.IsTable vm.pmm.mem roots userPages) := by
  refine h.rewrite hf hnot hsame (fun y hy f' hm i => ?_)
  have hne : f' ≠ f := fun he => hun y hy (he ▸ hm)
  rw [hsame f' hne]
  exact h.data y hy f' hm i

lemma refill (hf : Held out P f) (hnot : ¬ pageTables.IsTable vm.pmm.mem roots userPages f) {mem : PhysMem}
    (hsame : ∀ a, a ≠ f → ∀ i, mem a i = vm.pmm.mem a i) :
    (vm.withMem mem).Refines L out P roots E S (σ.setData f (mem f)) := by
  refine (h.rewrite hf hnot hsame (fun y hy f' hm i => ?_)).1
  by_cases hff : f' = f
  · rw [hff, update_self]
  · rw [hsame f' hff, update_of_ne hff]
    exact h.data y hy f' hm i

lemma allocFill (hrun : vm.allocFrame = some (p, vm')) (mem : PhysMem) (hsame : ∀ a, a ≠ p → ∀ i, mem a i = vm'.pmm.mem a i) :
    ∃ L', NewFrame vm out P roots E S σ p (vm'.withMem mem) L' := by
  obtain ⟨L', hal, h₁, hfresh⟩ := h.alloc hrun
  obtain ⟨hpmm, hvm⟩ := allocFrame_some hrun
  have hout : blockAt p 0 ∈ insert (blockAt p 0) out := mem_insert_self _ _
  obtain ⟨h₂, htabs⟩ := h₁.remem (.inr hout) hfresh.noTable hfresh.unmapped hsame
  have hnew : ∀ a, Held out P a → a ≠ p := by
    intro a hheld he
    subst he
    rcases hheld with hP | hb
    · exact hP (hal.inv.managed_of_out hout (Block.base_mem (blockAt a 0)))
    · exact hfresh.new hb
  have hkept : ∀ a, Held out P a → ∀ i, mem a i = vm.pmm.mem a i :=
    fun a hheld i => (hsame a (hnew a hheld) i).trans (hheld.sameOn hal.same i)
  refine ⟨L', h₂, ⟨hfresh.isFrame, hfresh.new, ?_, hfresh.unmapped⟩, ?_, ?_, ?_, ?_, hkept, ?_⟩
  · exact fun ht => hfresh.noTable (htabs ▸ ht)
  · exact fun hS => hfresh.new (h.spare p hS).1
  · exact h₂.tables.inv.base_ne_zero hout
  · rw [hvm]
    rfl
  · exact ((Pmm.Spent.refl vm.pmm).alloc hpmm).congr h₁.tables.inv h₂.tables.inv
  · intro r hr d hd v hv
    exact tableAt_of_same hr hv hd (fun t ht => hkept t (h.tables.tables t ht).2)

lemma setData (hun : ∀ y ∈ E, ¬ σ.Maps y f) (d : ℕ → ℕ) : vm.Refines L out P roots E S (σ.setData f d) := by
  refine h.congr (fun _ _ _ => rfl) rfl ?_
  intro y hy f' hm
  have hne : f' ≠ f := fun he => hun y hy (he ▸ hm)
  exact update_of_ne hne _ _

lemma read_entry (hr : r ∈ roots) (hv : v < userPages) (ht : pageTables.tableAt vm.pmm.mem r 3 v = some t) :
    vm.read t (pageTables.slot 3 v) = σ.pte (r, v) := by
  rw [← h.tables.pte r hr v hv]
  exact (leaf_of_tableAt ht).symm

lemma writeLeaf (hr : r ∈ roots) (hv : v < userPages) (ht : pageTables.tableAt vm.pmm.mem r 3 v = some t)
    (hnew : (r, v) ∈ E → Pte.present w = true → vm.Mappable out P roots S σ w) :
    (vm.write t (pageTables.slot 3 v) w).Refines L out P roots E S (σ.setPte (r, v) w) ∧
      ∀ r' ∈ roots, ∀ d ≤ 3, ∀ v' < userPages, pageTables.tableAt (vm.write t (pageTables.slot 3 v) w).pmm.mem r' d v' =
          pageTables.tableAt vm.pmm.mem r' d v' := by
  obtain ⟨htab, hwalk⟩ := h.tables.writeLeaf hr hv ht w
  have hiff : ∀ t', pageTables.IsTable (vm.write t (pageTables.slot 3 v) w).pmm.mem roots userPages t' ↔
      pageTables.IsTable vm.pmm.mem roots userPages t' :=
    fun t' => isTable_congr hwalk
  have htable : pageTables.IsTable vm.pmm.mem roots userPages t := ⟨r, hr, 3, le_rfl, v, hv, ht⟩
  have hkeep : ∀ f', ¬ pageTables.IsTable vm.pmm.mem roots userPages f' → ∀ i,
      (vm.write t (pageTables.slot 3 v) w).pmm.mem f' i = vm.pmm.mem f' i :=
    fun f' hf' i => PhysMem.write_ne _ (.inl (fun he => hf' (he ▸ htable)))
  refine ⟨⟨htab, h.refs, h.entries, ?_, ?_, ?_, ?_, ?_⟩, hwalk⟩
  · intro y hy f' hm htf
    rw [hiff] at htf
    rcases maps_of_setPte hm with hc | hc
    · exact (hnew (hc.1 ▸ hy) hc.2.1).noTable (hc.2.2 ▸ htf)
    · exact h.apart y hy f' hc.2 htf
  · intro y hy f' hm
    rcases maps_of_setPte hm with hc | hc
    · exact hc.2.2 ▸ (hnew (hc.1 ▸ hy) hc.2.1).held
    · exact h.held y hy f' hc.2
  · intro y hy hs
    by_cases hyx : y = (r, v)
    · rw [hyx, setPte_self] at hs ⊢
      exact (hnew (hyx ▸ hy) hs.1).owned hs
    · rw [setPte_ne hyx] at hs ⊢
      exact h.owned y hy hs
  · intro y hy f' hm i
    rcases maps_of_setPte hm with hc | hc
    · have hn := hnew (hc.1 ▸ hy) hc.2.1
      rw [hc.2.2, hkeep _ hn.noTable]
      exact hn.data i
    · rw [hkeep f' (h.apart y hy f' hc.2)]
      exact h.data y hy f' hc.2 i
  · intro f' hf'
    obtain ⟨hout, hno, hun⟩ := h.spare f' hf'
    refine ⟨hout, fun htf => hno ((hiff f').mp htf), ?_⟩
    intro y hy hm
    rcases maps_of_setPte hm with hc | hc
    · exact (hnew (hc.1 ▸ hy) hc.2.1).unspared (hc.2.2 ▸ hf')
    · exact hun y hy hc.2

lemma link {d e : ℕ} (hr : r ∈ roots) (hv : v < userPages) (hd : d < 3) (ht : pageTables.tableAt vm.pmm.mem r d v = some t)
    (hunused : childTable d (vm.pmm.mem t (pageTables.slot d v)) = none) (he : childTable d e ≠ none)
    (hf : blockAt f 0 ∈ out) (hfresh : ¬ pageTables.IsTable vm.pmm.mem roots userPages f)
    (hun : ∀ y ∈ E, ¬ σ.Maps y f) (hS : f ∉ S) (hzero : ∀ i, vm.pmm.mem f i = 0) :
    (vm.write t (pageTables.slot d v) (Pte.toTable f e)).Refines L out P roots E S σ ∧
      pageTables.Linked vm.pmm.mem (vm.pmm.mem.write t (pageTables.slot d v) (Pte.toTable f e)) roots
        userPages r d v t f (Pte.toTable f e) := by
  obtain ⟨htab, hl⟩ := h.tables.link hr hv hd ht hunused he hf hfresh hzero
  have htable : pageTables.IsTable vm.pmm.mem roots userPages t := ⟨r, hr, d, Nat.le_of_lt hd, v, hv, ht⟩
  refine ⟨⟨htab, h.refs, h.entries, ?_, h.held, h.owned, ?_, ?_⟩, hl⟩
  · intro y hy f' hm htf
    rcases hl.isTable h.tables.forest htf with he | hold
    · exact hun y hy (he ▸ hm)
    · exact h.apart y hy f' hm hold
  · intro y hy f' hm i
    have hne : f' ≠ t := fun he => h.apart y hy f' hm (he ▸ htable)
    rw [write_pmm_mem, PhysMem.write_ne _ (.inl hne)]
    exact h.data y hy f' hm i
  · intro f' hf'
    obtain ⟨hout, hno, hun'⟩ := h.spare f' hf'
    refine ⟨hout, fun htf => ?_, hun'⟩
    rcases hl.isTable h.tables.forest htf with he | hold
    · exact hS (he ▸ hf')
    · exact hno hold

end

lemma root_notMem (hfresh : ¬ pageTables.IsTable vm.pmm.mem roots userPages f) : f ∉ roots :=
  fun hf => hfresh ⟨f, hf, 0, Nat.zero_le _, 0, by decide, rfl⟩

lemma insertRoot (h : vm.Refines L out P roots E S σ) (hf : blockAt f 0 ∈ out)
    (hfresh : ¬ pageTables.IsTable vm.pmm.mem roots userPages f) (hun : ∀ y ∈ E, ¬ σ.Maps y f)
    (hS : f ∉ S) (hempty : ∀ i < 256, vm.pmm.mem f i = 0) {E' : Finset Entry}
    (hE : ∀ x ∈ E', x ∈ E ∨ (x.1 = f ∧ x.2 < userPages)) : vm.Refines L out P (insert f roots) E' S (σ.clearRoot f) := by
  have hnot := root_notMem hfresh
  have hclear : ∀ y ∈ E', ∀ f', (σ.clearRoot f).Maps y f' → y ∈ E ∧ σ.Maps y f' := by
    intro y hy f' hm
    rcases hE y hy with hyE | hyf
    · have hne : y.1 ≠ f := fun he => hnot (he ▸ (h.entries y hyE).1)
      unfold Space.Maps at hm
      rw [clearRoot_ne hne] at hm
      exact ⟨hyE, hm⟩
    · unfold Space.Maps at hm
      rw [clearRoot_self hyf.1] at hm
      simp [Pte.present] at hm
  have htab : TablesInv vm.pmm L out P roots (σ.clearRoot f).pte := by
    have hcong : vm.Refines L out P roots E S (σ.clearRoot f) := by
      refine h.congr ?_ rfl (fun _ _ _ _ => rfl)
      intro x hx _
      exact clearRoot_ne (fun he => hnot (he ▸ hx))
    exact hcong.tables
  have hslot : ∀ v < userPages, pageTables.child 0 (vm.pmm.mem f (pageTables.slot 0 v)) = none := by
    intro v hv
    rw [hempty _ (slot_zero_lt hv)]
    exact childTable_zero 0
  refine ⟨htab.insertRoot hf hfresh hempty (fun v _ => clearRoot_self rfl), h.refs, ?_, ?_, ?_, ?_, ?_, ?_⟩
  · intro y hy
    rcases hE y hy with hyE | hyf
    · exact ⟨Set.mem_insert_of_mem f (h.entries y hyE).1, (h.entries y hyE).2⟩
    · exact ⟨hyf.1 ▸ Set.mem_insert _ _, hyf.2⟩
  · intro y hy f' hm htf
    obtain ⟨hyE, hm'⟩ := hclear y hy f' hm
    rcases isTable_insert_root hslot htf with he | hold
    · exact hun y hyE (he ▸ hm')
    · exact h.apart y hyE f' hm' hold
  · intro y hy f' hm
    obtain ⟨hyE, hm'⟩ := hclear y hy f' hm
    exact h.held y hyE f' hm'
  · intro y hy hs
    obtain ⟨hyE, hm'⟩ := hclear y hy _ ⟨hs.1, rfl⟩
    have hne : y.1 ≠ f := fun he => hnot (he ▸ (h.entries y hyE).1)
    rw [clearRoot_ne hne] at hs ⊢
    exact h.owned y hyE hs
  · intro y hy f' hm i
    obtain ⟨hyE, hm'⟩ := hclear y hy f' hm
    exact h.data y hyE f' hm' i
  · intro f' hf'
    obtain ⟨hout, hno, hun'⟩ := h.spare f' hf'
    refine ⟨hout, fun htf => ?_, ?_⟩
    · rcases isTable_insert_root hslot htf with he | hold
      · exact hS (he ▸ hf')
      · exact hno hold
    · intro y hy hm
      obtain ⟨hyE, hm'⟩ := hclear y hy f' hm
      exact hun' y hyE hm'

lemma free (h : vm.Refines L out P roots E S σ) (hf : blockAt f 0 ∈ out)
    (hnot : ¬ pageTables.IsTable vm.pmm.mem roots userPages f) (hun : ∀ y ∈ E, ¬ σ.Maps y f)
    (hS : f ∉ S) : ∃ vm' L', vm.freeFrame f = some vm' ∧
      vm'.Refines L' (out.erase (blockAt f 0)) P roots E S σ ∧ vm'.vmmRoot = vm.vmmRoot ∧
      ∀ t, pageTables.IsTable vm.pmm.mem roots userPages t → ∀ i, vm'.pmm.mem t i = vm.pmm.mem t i := by
  obtain ⟨s', order', L', hrun, hfr⟩ := h.tables.inv.freeOrder_spec hf
  have hne : ∀ a, vm.InUse roots E S σ a → a ≠ f := by
    rintro a (ht | ⟨y, hy, hm⟩ | ha) rfl
    · exact hnot ht
    · exact hun y hy hm
    · exact hS ha
  have hout : ∀ a, a ≠ f → blockAt a 0 ∈ out → blockAt a 0 ∈ out.erase (blockAt f 0) :=
    fun a ha hb => mem_erase.mpr ⟨fun he => ha (blockAt_injective he).1, hb⟩
  have hsame : ∀ a, a ≠ f → Held out P a → ∀ i, s'.mem a i = vm.pmm.mem a i :=
    fun a ha hheld i => Held.sameOn (hheld.imp id (hout a ha)) hfr.same i
  have hvm : vm.freeFrame f = some { vm with
      pmm := { s' with freePages := (vm.pmm.freePages + 2 ^ order') % 2 ^ 64 } } := by
    unfold freeFrame Pmm.freeFrame
    rw [hrun]
    rfl
  refine ⟨_, L', hvm, And.left (h.remake (hfr.inv.of_eq rfl rfl rfl) rfl (fun a ha => hout a (hne a ha))
    (fun a ha => hsame a (hne a ha))), rfl, ?_⟩
  exact fun t ht => hsame t (hne t (.inl ht)) (h.tables.tables t ht).2

end Refines
end Vm
end NodeKernel
