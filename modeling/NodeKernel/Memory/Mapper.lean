import NodeKernel.Memory.ForkCopy

/-!
# The mapper of the paging crate

What the memory manager relies on from `Mapper::map_to` and `Mapper::unmap`, what follows for
`map_page` and `unmap_page`, and a mapper that does what is asked.
-/
namespace NodeKernel
open Blocks Function Finset Nat Space Radix

def missingTables (mem : PhysMem) (root page : ℕ) : ℕ :=
  ((Finset.range 3).filter (fun d => pageTables.tableAt mem root (d + 1) page = none)).card

/-- Entry flags that neither reach into the address field nor mark a huge page. -/
structure MapFlags (flags : ℕ) : Prop where
  present : Pte.present flags = true
  small : Pte.huge flags = false
  noAddr : ∀ i, 12 ≤ i → i < 52 → flags.testBit i = false

lemma testBit_of_lowFlags {flags i : ℕ} (h : flags < 2 ^ 12) (hi : 12 ≤ i) : flags.testBit i = false :=
  Nat.testBit_lt_two_pow (h.trans_le (Nat.pow_le_pow_right (by decide) hi))

lemma MapFlags.of_lowFlags {flags : ℕ} (hp : Pte.present flags = true) (hs : Pte.huge flags = false)
    (hlt : flags < 2 ^ 12) : MapFlags flags :=
  ⟨hp, hs, fun _ hi _ => testBit_of_lowFlags hlt hi⟩

namespace PageMapper

/-- After `map_to`: if it succeeded the entry of the page, unused before, is `w`, else the
entries are as before. A frame is taken for each missing table, until none is left. -/
structure Mapped (s : Pmm) (out : Finset Block) (P roots : Set ℕ) (pte : Entry → ℕ)
    (root page w : ℕ) (ok : Bool) (s' : Pmm) (L' : FreeLists) (out' : Finset Block) : Prop where
  tables : TablesInv s' L' out' P roots (if ok then update pte (root, page) w else pte)
  sub : out ⊆ out'
  fresh : ∀ t, pageTables.IsTable s'.mem roots userPages t →
    pageTables.IsTable s.mem roots userPages t ∨ (blockAt t 0 ∈ out' ∧ blockAt t 0 ∉ out)
  kept : ∀ a, Held out P a → ¬ pageTables.IsTable s.mem roots userPages a →
    ∀ i, s'.mem a i = s.mem a i
  unused : ok = true → pte (root, page) = 0
  taken : ∃ n ≤ missingTables s.mem root page, Pmm.Spent s n s' ∧
    userTables s'.mem root = userTables s.mem root + n ∧
    (n < missingTables s.mem root page → ok = false ∧ s'.allocOrder 0 = none) ∧
    (n = missingTables s.mem root page → pte (root, page) = 0 → ok = true)
  others : ∀ r ∈ roots, r ≠ root → ∀ d ≤ 3, ∀ v < userPages,
    pageTables.tableAt s'.mem r d v = pageTables.tableAt s.mem r d v

/-- Every new table is a frame that was taken for it, so a page held before becomes none. -/
theorem Mapped.not_table {s s' : Pmm} {L' : FreeLists} {out out' : Finset Block} {P roots : Set ℕ}
    {pte : Entry → ℕ} {root page w a : ℕ} {ok : Bool} (hm : Mapped s out P roots pte root page w ok s' L' out')
    (ha : Held out P a) (hn : ¬ pageTables.IsTable s.mem roots userPages a) :
    ¬ pageTables.IsTable s'.mem roots userPages a := by
  intro ht
  rcases hm.fresh a ht with hold | hnew
  · exact hn hold
  · rcases ha with hP | hb
    · exact hP (hm.tables.inv.managed_of_out hnew.1 (Block.base_mem (blockAt a 0)))
    · exact hnew.2 hb

/-- After `unmap`: the frame of a present entry is returned and the entry cleared. -/
structure Unmapped (s : Pmm) (L : FreeLists) (out : Finset Block) (P roots : Set ℕ)
    (pte : Entry → ℕ) (root page : ℕ) (frame : Option ℕ) (s' : Pmm) : Prop where
  result : frame = if Pte.present (pte (root, page)) = true ∧ Pte.huge (pte (root, page)) = false
    then some (Pte.frame (pte (root, page))) else none
  tables : TablesInv s' L out P roots
    (if frame.isSome then update pte (root, page) 0 else pte)
  kept : ∀ a, ¬ pageTables.IsTable s.mem roots userPages a → ∀ i, s'.mem a i = s.mem a i
  walks : ∀ r ∈ roots, ∀ d ≤ 3, ∀ v < userPages,
    pageTables.tableAt s'.mem r d v = pageTables.tableAt s.mem r d v

/-- The mapper behaves as the crate promises, on the pages of the lower half. -/
structure Lawful (M : PageMapper) : Prop where
  mapTo : ∀ {s : Pmm} {L : FreeLists} {out : Finset Block} {P roots : Set ℕ} {pte : Entry → ℕ}
    {root page frame flags : ℕ}, TablesInv s L out P roots pte → root ∈ roots → page < userPages →
    Pte.IsFrame frame → MapFlags flags → ∃ L' out', Mapped s out P roots pte root page
      (frame ||| flags) (M.mapTo s root page frame flags).1 (M.mapTo s root page frame flags).2 L' out'
  unmap : ∀ {s : Pmm} {L : FreeLists} {out : Finset Block} {P roots : Set ℕ} {pte : Entry → ℕ}
    {root page : ℕ}, TablesInv s L out P roots pte → root ∈ roots → page < userPages →
    Unmapped s L out P roots pte root page (M.unmap s root page).1 (M.unmap s root page).2

end PageMapper

namespace Vm
variable {vm vm' : Vm} {M : PageMapper} {L : FreeLists} {out : Finset Block} {P roots : Set ℕ}
  {E : Finset Entry} {S : Finset ℕ} {σ : Space} {page f flags : ℕ}

/-- What `map_page` does to the spaces: an unused entry gets the frame. -/
structure MapsPage (vm : Vm) (out : Finset Block) (P roots : Set ℕ) (E : Finset Entry)
    (S : Finset ℕ) (σ : Space) (page f flags : ℕ) (ok : Bool) (vm' : Vm) (L' : FreeLists) (out' : Finset Block) : Prop where
  refines : vm'.Refines L' out' P roots E S
    (if ok then (σ.setData f (vm.pmm.mem f)).setPte (vm.vmmRoot, page) (f ||| flags) else σ)
  sub : out ⊆ out'
  unused : ok = true → σ.pte (vm.vmmRoot, page) = 0
  root : vm'.vmmRoot = vm.vmmRoot
  taken : ∃ n ≤ missingTables vm.pmm.mem vm.vmmRoot page, Pmm.Spent vm.pmm n vm'.pmm ∧
    userTables vm'.pmm.mem vm.vmmRoot = userTables vm.pmm.mem vm.vmmRoot + n ∧
    (n < missingTables vm.pmm.mem vm.vmmRoot page → ok = false ∧ vm'.pmm.allocOrder 0 = none) ∧
    (n = missingTables vm.pmm.mem vm.vmmRoot page → σ.pte (vm.vmmRoot, page) = 0 → ok = true)
  fresh : ∀ t, pageTables.IsTable vm'.pmm.mem roots userPages t →
    pageTables.IsTable vm.pmm.mem roots userPages t ∨ (blockAt t 0 ∈ out' ∧ blockAt t 0 ∉ out)
  kept : ∀ a, Held out P a → ¬ pageTables.IsTable vm.pmm.mem roots userPages a →
    ∀ i, vm'.pmm.mem a i = vm.pmm.mem a i
  others : ∀ r ∈ roots, r ≠ vm.vmmRoot → ∀ d ≤ 3, ∀ v < userPages,
    pageTables.tableAt vm'.pmm.mem r d v = pageTables.tableAt vm.pmm.mem r d v

variable (h : vm.Refines L out P roots E S σ) (hM : M.Lawful) (hroot : vm.vmmRoot ∈ roots) (hpage : page < userPages)
include h hM hroot hpage

lemma Refines.mapPage (hf : blockAt f 0 ∈ out)
    (hnot : ¬ pageTables.IsTable vm.pmm.mem roots userPages f) (hun : ∀ y ∈ E, ¬ σ.Maps y f)
    (hS : f ∉ S) (hflags : MapFlags flags) : ∃ L' out', MapsPage vm out P roots E S σ page f flags (vm.mapPage M page f flags).1
        (vm.mapPage M page f flags).2 L' out' := by
  have hframe := h.tables.inv.isFrame h.tables.bounded hf
  obtain ⟨L', out', hm⟩ := hM.mapTo h.tables hroot hpage hframe hflags
  have hfw : Pte.frame (f ||| flags) = f := Pte.frame_or_flags hframe hflags.noAddr
  refine ⟨L', out', ?_, hm.sub, hm.unused, rfl, hm.taken, hm.fresh, hm.kept, hm.others⟩
  have htables := hm.tables
  unfold Vm.mapPage
  cases hok : (M.mapTo vm.pmm vm.vmmRoot page f flags).1 with
  | false =>
    rw [hok, if_neg Bool.false_ne_true] at htables
    rw [if_neg Bool.false_ne_true]
    refine ⟨htables, h.refs, h.entries, ?_, ?_, ?_, ?_, ?_⟩
    · intro y hy f' hmap
      exact hm.not_table (h.held y hy f' hmap) (h.apart y hy f' hmap)
    · intro y hy f' hmap
      exact (h.held y hy f' hmap).mono hm.sub
    · intro y hy hs
      exact hm.sub (h.owned y hy hs)
    · intro y hy f' hmap i
      rw [← h.data y hy f' hmap i]
      exact hm.kept f' (h.held y hy f' hmap) (h.apart y hy f' hmap) i
    · intro f' hf'
      obtain ⟨hb, hno, hun'⟩ := h.spare f' hf'
      exact ⟨hm.sub hb, hm.not_table (.inr hb) hno, hun'⟩
  | true =>
    rw [hok, if_pos rfl] at htables
    rw [if_pos rfl]
    have hmaps : ∀ y f', ((σ.setData f (vm.pmm.mem f)).setPte (vm.vmmRoot, page) (f ||| flags)).Maps y f' →
        f' = f ∨ σ.Maps y f' :=
      fun y f' hmap => (maps_of_setPte hmap).imp (fun hnew => hnew.2.2.trans hfw) And.right
    refine ⟨htables, h.refs, h.entries, ?_, ?_, ?_, ?_, ?_⟩
    · intro y hy f' hmap
      rcases hmaps y f' hmap with he | hmap
      · exact he ▸ hm.not_table (.inr hf) hnot
      · exact hm.not_table (h.held y hy f' hmap) (h.apart y hy f' hmap)
    · intro y hy f' hmap
      rcases hmaps y f' hmap with he | hmap
      · exact .inr (he ▸ hm.sub hf)
      · exact (h.held y hy f' hmap).mono hm.sub
    · intro y hy hs
      by_cases hyx : y = (vm.vmmRoot, page)
      · rw [hyx, setPte_self, hfw]
        exact hm.sub hf
      · rw [setPte_ne hyx] at hs ⊢
        exact hm.sub (h.owned y hy hs)
    · intro y hy f' hmap i
      change _ = update σ.data f (vm.pmm.mem f) f' i
      rcases hmaps y f' hmap with he | hmap
      · subst he
        rw [update_self]
        exact hm.kept f' (.inr hf) hnot i
      · have hne : f' ≠ f := fun he => hun y hy (he ▸ hmap)
        rw [update_of_ne hne, ← h.data y hy f' hmap i]
        exact hm.kept f' (h.held y hy f' hmap) (h.apart y hy f' hmap) i
    · intro f' hf'
      obtain ⟨hb, hno, hun'⟩ := h.spare f' hf'
      refine ⟨hm.sub hb, hm.not_table (.inr hb) hno, ?_⟩
      intro y hy hmap
      rcases hmaps y f' hmap with he | hmap
      · exact hS (he ▸ hf')
      · exact hun' y hy hmap

lemma Refines.unmapPage :
    (vm.unmapPage M page).1 = (if Pte.present (σ.pte (vm.vmmRoot, page)) = true ∧ Pte.huge (σ.pte (vm.vmmRoot, page)) = false
      then some (Pte.frame (σ.pte (vm.vmmRoot, page))) else none) ∧ (vm.unmapPage M page).2.Refines L out P roots E S
      (if (vm.unmapPage M page).1.isSome then σ.setPte (vm.vmmRoot, page) 0 else σ) ∧
    (vm.unmapPage M page).2.vmmRoot = vm.vmmRoot ∧ ∀ r ∈ roots, ∀ d ≤ 3, ∀ v < userPages,
      pageTables.tableAt (vm.unmapPage M page).2.pmm.mem r d v = pageTables.tableAt vm.pmm.mem r d v := by
  have hu := hM.unmap h.tables hroot hpage
  refine ⟨hu.result, ?_, rfl, hu.walks⟩
  have hiff : ∀ t, pageTables.IsTable (M.unmap vm.pmm vm.vmmRoot page).2.mem roots userPages t ↔
      pageTables.IsTable vm.pmm.mem roots userPages t := fun t => isTable_congr hu.walks
  have htables := hu.tables
  unfold Vm.unmapPage
  cases hsome : (M.unmap vm.pmm vm.vmmRoot page).1.isSome with
  | false =>
    rw [hsome, if_neg Bool.false_ne_true] at htables
    rw [if_neg Bool.false_ne_true]
    refine ⟨htables, h.refs, h.entries, ?_, h.held, h.owned, ?_, ?_⟩
    · intro y hy f' hmap ht
      exact h.apart y hy f' hmap ((hiff f').mp ht)
    · intro y hy f' hmap i
      rw [← h.data y hy f' hmap i]
      exact hu.kept f' (h.apart y hy f' hmap) i
    · intro f' hf'
      obtain ⟨hb, hno, hun⟩ := h.spare f' hf'
      exact ⟨hb, fun ht => hno ((hiff f').mp ht), hun⟩
  | true =>
    rw [hsome, if_pos rfl] at htables
    rw [if_pos rfl]
    refine ⟨htables, h.refs, h.entries, ?_, ?_, ?_, ?_, ?_⟩
    · intro y hy f' hmap ht
      exact h.apart y hy f' (maps_of_cleared hmap).2 ((hiff f').mp ht)
    · intro y hy f' hmap
      exact h.held y hy f' (maps_of_cleared hmap).2
    · intro y hy hs
      have hne := (maps_of_cleared ⟨hs.1, rfl⟩).1
      rw [setPte_ne hne] at hs ⊢
      exact h.owned y hy hs
    · intro y hy f' hmap i
      have hmap' := (maps_of_cleared hmap).2
      change _ = σ.data f' i
      rw [← h.data y hy f' hmap' i]
      exact hu.kept f' (h.apart y hy f' hmap') i
    · intro f' hf'
      obtain ⟨hb, hno, hun⟩ := h.spare f' hf'
      exact ⟨hb, fun ht => hno ((hiff f').mp ht), fun y hy hmap => hun y hy (maps_of_cleared hmap).2⟩

end Vm
namespace PageMapper

/-- The table of depth `d` on the way to the page, with the tables above it made as needed. -/
def tableFor (flags root page : ℕ) : ℕ → Vm → Except (String × Vm) (ℕ × Vm)
  | 0, vm => .ok (root, vm)
  | d + 1, vm =>
    match tableFor flags root page d vm with
    | .error err => .error err
    | .ok (t, vm) => vm.ensureTable t (pageTables.slot d page) flags

def plain : PageMapper where
  mapTo s root page frame flags :=
    match tableFor flags root page 3 ⟨s, fun _ => none, root⟩ with
    | .error (_, vm) => (false, vm.pmm)
    | .ok (t, vm) =>
      if vm.read t (pageTables.slot 3 page) = 0 then
        (true, (vm.write t (pageTables.slot 3 page) (frame ||| flags)).pmm)
      else (false, vm.pmm)
  unmap s root page :=
    match pageTables.tableAt s.mem root 3 page with
    | none => (none, s)
    | some t =>
      let e := s.mem t (pageTables.slot 3 page)
      if Pte.present e = true ∧ Pte.huge e = false then
        (some (Pte.frame e), { s with mem := s.mem.write t (pageTables.slot 3 page) 0 })
      else (none, s)

def missingAbove (mem : PhysMem) (root page d : ℕ) : ℕ :=
  ((Finset.range d).filter (fun e => pageTables.tableAt mem root (e + 1) page = none)).card

lemma missingAbove_succ (mem : PhysMem) (root page d : ℕ) : missingAbove mem root page (d + 1) = missingAbove mem root page d +
      if pageTables.tableAt mem root (d + 1) page = none then 1 else 0 := by
  unfold missingAbove
  rw [range_add_one, filter_insert]
  by_cases h : pageTables.tableAt mem root (d + 1) page = none
  · rw [if_pos h, if_pos h, card_insert_of_notMem]
    simp
  · rw [if_neg h, if_neg h, add_zero]

lemma missingAbove_le (mem : PhysMem) (root page : ℕ) {d d' : ℕ} (h : d ≤ d') :
    missingAbove mem root page d ≤ missingAbove mem root page d' :=
  card_le_card (filter_subset_filter _ (range_mono h))

section Descent
variable {vm₀ vm : Vm} {L : FreeLists} {out : Finset Block} {P roots : Set ℕ} {σ : Space}
  {root page d n t flags : ℕ}

/-- On the way down `n` tables have been made, and those below depth `d` are as before. -/
structure Descent (vm₀ : Vm) (out : Finset Block) (P roots : Set ℕ) (σ : Space)
    (root page d n : ℕ) (vm : Vm) (L' : FreeLists) (out' : Finset Block) : Prop where
  refines : vm.Refines L' out' P roots ∅ ∅ σ
  sub : out ⊆ out'
  fresh : ∀ t, pageTables.IsTable vm.pmm.mem roots userPages t →
    pageTables.IsTable vm₀.pmm.mem roots userPages t ∨ (blockAt t 0 ∈ out' ∧ blockAt t 0 ∉ out)
  kept : ∀ a, Held out P a → ¬ pageTables.IsTable vm₀.pmm.mem roots userPages a →
    ∀ i, vm.pmm.mem a i = vm₀.pmm.mem a i
  spent : Pmm.Spent vm₀.pmm n vm.pmm
  count : userTables vm.pmm.mem root = userTables vm₀.pmm.mem root + n
  others : ∀ r ∈ roots, r ≠ root → ∀ d ≤ 3, ∀ v < userPages,
    pageTables.tableAt vm.pmm.mem r d v = pageTables.tableAt vm₀.pmm.mem r d v
  below : ∀ e, d < e → e ≤ 3 →
    pageTables.tableAt vm.pmm.mem root e page = pageTables.tableAt vm₀.pmm.mem root e page

lemma Descent.notTable {L' : FreeLists} {out' : Finset Block}
    (h : Descent vm₀ out P roots σ root page d n vm L' out') {a : ℕ} (ha : Held out P a)
    (hn : ¬ pageTables.IsTable vm₀.pmm.mem roots userPages a) : ¬ pageTables.IsTable vm.pmm.mem roots userPages a := by
  intro ht
  rcases h.fresh a ht with hold | hnew
  · exact hn hold
  · rcases ha with hP | hb
    · exact hP (h.refines.tables.inv.managed_of_out hnew.1 (Block.base_mem (blockAt a 0)))
    · exact hnew.2 hb

lemma Descent.newTable {L' L'' : FreeLists} {out' : Finset Block} {vm' : Vm} {f : ℕ}
    (h : Descent vm₀ out P roots σ root page d n vm L' out')
    (hnew : Vm.NewTable vm out' P roots ∅ ∅ σ root d page f vm' L'') (hpage : page < userPages) (hroot : root ∈ roots) :
    Descent vm₀ out P roots σ root page (d + 1) (n + 1) vm' L'' (insert (blockAt f 0) out') := by
  refine ⟨hnew.refines, h.sub.trans (subset_insert _ _), ?_, ?_, h.spent.trans hnew.spent, ?_, ?_, ?_⟩
  · intro t ht
    obtain ⟨r, hr, e, he, v, hv, ht⟩ := ht
    rw [hnew.walk r hr e he v hv] at ht
    split at ht
    · cases ht
      exact .inr ⟨mem_insert_self _ _, fun hc => hnew.fresh (h.sub hc)⟩
    · refine (h.fresh t ⟨r, hr, e, he, v, hv, ht⟩).imp id (fun hc => ⟨?_, hc.2⟩)
      exact mem_insert_of_mem hc.1
  · intro a ha hn i
    rw [hnew.kept a (ha.mono h.sub) (h.notTable ha hn) i]
    exact h.kept a ha hn i
  · rw [hnew.count, h.count, add_assoc]
  · intro r hr hne e he v hv
    rw [hnew.walk r hr e he v hv, if_neg (fun hc => hne hc.1)]
    exact h.others r hr hne e he v hv
  · intro e he he3
    rw [hnew.walk root hroot e he3 page hpage, if_neg (by omega)]
    exact h.below e (by omega) he3

lemma tableFor_outcome (h : vm₀.Refines L out P roots ∅ ∅ σ) (hroot : root ∈ roots)
    (hpage : page < userPages) (hflags : MapFlags flags) (hd : d ≤ 3) : Loops.Outcome
      (fun tv => ∃ L' out', Descent vm₀ out P roots σ root page d (missingAbove vm₀.pmm.mem root page d)
        tv.2 L' out' ∧ pageTables.tableAt tv.2.pmm.mem root d page = some tv.1)
      (fun err => ∃ n L' out', n < missingAbove vm₀.pmm.mem root page 3 ∧
        Descent vm₀ out P roots σ root page 3 n err.2 L' out' ∧ err.2.pmm.allocOrder 0 = none)
      (tableFor flags root page d vm₀) := by
  have hchild : ∀ e, childTable e flags ≠ none := by
    intro e
    rw [ne_eq, childTable_eq_none, hflags.present, hflags.small]
    simp
  induction d with
  | zero =>
    have hzero : missingAbove vm₀.pmm.mem root page 0 = 0 := rfl
    rw [hzero]
    exact .ok ⟨L, out, ⟨h, Finset.Subset.refl out, fun _ => .inl, fun _ _ _ _ => rfl,
      Pmm.Spent.refl vm₀.pmm, (add_zero _).symm, fun _ _ _ _ _ _ _ => rfl,
      fun _ _ _ => rfl⟩, rfl⟩
  | succ d ih =>
    have hprev := ih (by omega)
    unfold tableFor
    generalize tableFor flags root page d vm₀ = x at hprev
    cases hprev with
    | error herr => exact .error herr
    | ok hok =>
      rename_i tv
      obtain ⟨L', out', hdesc, htab⟩ := hok
      obtain ⟨t, vm⟩ := tv
      dsimp only at hdesc htab ⊢
      rw [missingAbove_succ]
      have hbelow := hdesc.below (d + 1) (lt_succ_self d) hd
      cases hnext : pageTables.tableAt vm.pmm.mem root (d + 1) page with
      | some t' =>
        rw [Vm.ensureTable_existing htab hnext, if_neg (by rw [← hbelow, hnext]; simp)]
        refine .ok ⟨L', out', ⟨hdesc.refines, hdesc.sub, hdesc.fresh, hdesc.kept, hdesc.spent,
          hdesc.count, hdesc.others, fun e he he3 => hdesc.below e (by omega) he3⟩, hnext⟩
      | none =>
        rw [if_pos (hbelow.symm.trans hnext)]
        rcases hdesc.refines.ensureTable_new hroot hpage (by omega) htab hnext (hchild d) with herr | hok
        · obtain ⟨⟨msg, hrun⟩, hempty⟩ := herr
          rw [hrun]
          refine .error ⟨_, L', out', ?_, ⟨hdesc.refines, hdesc.sub, hdesc.fresh, hdesc.kept,
            hdesc.spent, hdesc.count, hdesc.others, fun e he he3 => by omega⟩, hempty⟩
          have hle := missingAbove_le vm₀.pmm.mem root page hd
          rw [missingAbove_succ, if_pos (hbelow.symm.trans hnext)] at hle
          omega
        · obtain ⟨f, vm', L'', hrun, hnew⟩ := hok
          rw [hrun]
          refine .ok ⟨L'', _, hdesc.newTable hnew hpage hroot, ?_⟩
          rw [hnew.walk root hroot (d + 1) hd page hpage, if_pos ⟨rfl, rfl, rfl⟩]

end Descent

lemma plain_lawful : plain.Lawful := by
  refine ⟨?_, ?_⟩
  · intro s L out P roots pte root page frame flags htab hroot hpage _ hflags
    have h₀ : (Vm.mk s (fun _ => none) root).Refines L out P roots ∅ ∅
        ⟨pte, fun _ => none, fun _ _ => 0⟩ :=
      ⟨htab, rfl, by simp, by simp, by simp, by simp, by simp, by simp⟩
    have hout := tableFor_outcome h₀ hroot hpage hflags (le_refl 3)
    unfold plain
    dsimp only
    generalize tableFor flags root page 3 (Vm.mk s (fun _ => none) root) = x at hout
    cases hout with
    | error herr =>
      obtain ⟨n, L', out', hn, hdesc, hempty⟩ := herr
      exact ⟨L', out', hdesc.refines.tables, hdesc.sub, hdesc.fresh, hdesc.kept, fun hc => absurd hc Bool.false_ne_true,
        ⟨n, hn.le, hdesc.spent, hdesc.count, fun _ => ⟨rfl, hempty⟩, fun he => absurd he (Nat.ne_of_lt hn)⟩, hdesc.others⟩
    | ok hok =>
      rename_i tv
      obtain ⟨t, vm⟩ := tv
      obtain ⟨L', out', hdesc, ht⟩ := hok
      dsimp only at hdesc ht ⊢
      have hread : vm.read t (pageTables.slot 3 page) = pte (root, page) :=
        (leaf_of_tableAt ht).symm.trans (hdesc.refines.tables.pte root hroot page hpage)
      rw [hread]
      by_cases hzero : pte (root, page) = 0
      · rw [if_pos hzero]
        obtain ⟨hw, hwalk⟩ := hdesc.refines.tables.writeLeaf hroot hpage ht (frame ||| flags)
        have htable : pageTables.IsTable vm.pmm.mem roots userPages t := ⟨root, hroot, 3, le_rfl, page, hpage, ht⟩
        refine ⟨L', out', hw, hdesc.sub, ?_, ?_, fun _ => hzero,
          ⟨missingTables s.mem root page, le_rfl, ?_, ?_, fun hc => absurd hc (lt_irrefl _), fun _ _ => rfl⟩, ?_⟩
        · intro a ha
          exact hdesc.fresh a ((isTable_congr hwalk).mp ha)
        · intro a ha hn i
          have hne : a ≠ t := fun he => hdesc.notTable ha hn (he ▸ htable)
          exact (PhysMem.write_ne _ (.inl hne)).trans (hdesc.kept a ha hn i)
        · exact hdesc.spent.congr hdesc.refines.tables.inv hw.inv
        · exact (userTables_congr (hwalk root hroot)).trans hdesc.count
        · intro r hr hne d hd v hv
          exact (hwalk r hr d hd v hv).trans (hdesc.others r hr hne d hd v hv)
      · rw [if_neg hzero]
        exact ⟨L', out', hdesc.refines.tables, hdesc.sub, hdesc.fresh, hdesc.kept, fun hc => absurd hc Bool.false_ne_true,
          ⟨missingTables s.mem root page, le_rfl, hdesc.spent, hdesc.count,
            fun hc => absurd hc (lt_irrefl _), fun _ hz => absurd hz hzero⟩, hdesc.others⟩
  · intro s L out P roots pte root page htab hroot hpage
    have hpte := htab.pte root hroot page hpage
    unfold plain
    dsimp only
    cases ht : pageTables.tableAt s.mem root 3 page with
    | none =>
      rw [leaf_of_none ht] at hpte
      refine ⟨?_, htab, fun _ _ _ => rfl, fun _ _ _ _ _ _ => rfl⟩
      rw [← hpte]
      rfl
    | some t =>
      rw [leaf_of_tableAt ht] at hpte
      have hread : s.mem t (pageTables.slot 3 page) = pte (root, page) := hpte
      dsimp only
      rw [hread]
      by_cases hc : Pte.present (pte (root, page)) = true ∧ Pte.huge (pte (root, page)) = false
      · rw [if_pos hc]
        obtain ⟨hw, hwalk⟩ := htab.writeLeaf hroot hpage ht 0
        refine ⟨(if_pos hc).symm, hw, ?_, hwalk⟩
        intro a hn i
        have hne : a ≠ t := fun he => hn (he ▸ ⟨root, hroot, 3, le_rfl, page, hpage, ht⟩)
        exact PhysMem.write_ne _ (.inl hne)
      · rw [if_neg hc]
        exact ⟨(if_neg hc).symm, htab, fun _ _ _ => rfl, fun _ _ _ _ _ _ => rfl⟩

end PageMapper
end NodeKernel
