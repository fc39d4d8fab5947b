import NodeKernel.Memory.Mapper

/-!
# Write permission on the way to a page

The processor lets a page be written only if all entries on the way to it allow it. `map_to` gives the permission of the
page to the entries above it and takes none away.
-/
namespace NodeKernel
open Blocks Option Radix Pte

/-- The tables on the way to the page are there, and their entries allow writing. -/
structure OpenWay (mem : PhysMem) (root page : ℕ) : Prop where
  arrives : pageTables.tableAt mem root 3 page ≠ none
  writable : ∀ d < 3, ∀ t, pageTables.tableAt mem root d page = some t →
    Pte.writable (mem t (pageTables.slot d page)) = true

/-- The entries that lead to tables still lead to these, with the permission that they gave. -/
def Widens (roots : Set ℕ) (mem mem' : PhysMem) : Prop :=
  ∀ r ∈ roots, ∀ d < 3, ∀ v < userPages, ∀ t, pageTables.tableAt mem r d v = some t →
    childTable d (mem t (pageTables.slot d v)) ≠ none →
    childTable d (mem' t (pageTables.slot d v)) = childTable d (mem t (pageTables.slot d v)) ∧
      (Pte.writable (mem t (pageTables.slot d v)) = true → Pte.writable (mem' t (pageTables.slot d v)) = true)

section Widens
variable {roots : Set ℕ} {mem mem' mem'' : PhysMem} {r v d t : ℕ}

lemma Widens.refl (roots : Set ℕ) (mem : PhysMem) : Widens roots mem mem := fun _ _ _ _ _ _ _ _ _ => ⟨rfl, id⟩

lemma Widens.tableAt (h : Widens roots mem mem') (hr : r ∈ roots) (hv : v < userPages) (hd : d ≤ 3)
    (ht : pageTables.tableAt mem r d v = some t) : pageTables.tableAt mem' r d v = some t := by
  induction d generalizing t with
  | zero => exact ht
  | succ d ih =>
    simp only [tableAt] at ht ⊢
    obtain ⟨t', ht', hchild⟩ := bind_eq_some_iff.mp ht
    rw [ih (by omega) ht', bind_some]
    have hne : childTable d (mem t' (pageTables.slot d v)) ≠ none := by
      intro hnone
      cases hnone.symm.trans hchild
    exact (h r hr d hd v hv t' ht' hne).1.trans hchild

lemma Widens.trans (h : Widens roots mem mem') (h' : Widens roots mem' mem'') : Widens roots mem mem'' := by
  intro r hr d hd v hv t ht hne
  obtain ⟨hchild, hw⟩ := h r hr d hd v hv t ht hne
  obtain ⟨hchild', hw'⟩ := h' r hr d hd v hv t (h.tableAt hr hv hd.le ht) (hchild.symm ▸ hne)
  exact ⟨hchild'.trans hchild, fun hwr => hw' (hw hwr)⟩

lemma widens_of_unused {i w : ℕ}
    (h : ∀ r ∈ roots, ∀ d < 3, ∀ v < userPages, pageTables.tableAt mem r d v = some t → i = pageTables.slot d v →
      childTable d (mem t i) = none) : Widens roots mem (mem.write t i w) := by
  intro r hr d hd v hv t' ht' hne
  have hsame : mem.write t i w t' (pageTables.slot d v) = mem t' (pageTables.slot d v) := by
    refine PhysMem.write_ne _ ?_
    by_contra hc
    rw [not_or, not_not, not_not] at hc
    obtain ⟨rfl, hslot⟩ := hc
    refine hne ?_
    rw [hslot]
    exact h r hr d hd v hv ht' hslot.symm
  rw [hsame]
  exact ⟨rfl, id⟩

lemma Widens.of_same (h : ∀ t, pageTables.IsTable mem roots userPages t → ∀ i, mem' t i = mem t i) : Widens roots mem mem' := by
  intro r hr d hd v hv t ht _
  rw [h t ⟨r, hr, d, hd.le, v, hv, ht⟩]
  exact ⟨rfl, id⟩

lemma OpenWay.widen (h : OpenWay mem r v) (hw : Widens roots mem mem') (hr : r ∈ roots) (hv : v < userPages) :
    OpenWay mem' r v := by
  obtain ⟨t₃, ht₃⟩ := ne_none_iff_exists'.mp h.arrives
  refine ⟨?_, ?_⟩
  · rw [hw.tableAt hr hv le_rfl ht₃]
    exact some_ne_none _
  · intro d hd t ht
    have hnext : pageTables.tableAt mem r (d + 1) v ≠ none := fun hnone => h.arrives (tableAt_none_of_le hd hnone)
    obtain ⟨t', ht'⟩ : ∃ t', pageTables.tableAt mem r d v = some t' := by
      refine ne_none_iff_exists'.mp (fun hnone => h.arrives (tableAt_none_of_le hd.le hnone))
    obtain rfl := mem_unique (hw.tableAt hr hv hd.le ht') ht
    simp only [tableAt] at hnext
    rw [ht'] at hnext
    exact (hw r hr d hd v hv t' ht' hnext).2 (h.writable d hd t' ht')

end Widens

namespace PageMapper

/-- What `map_to` does with the entries above the page, when it succeeds. -/
structure Opens (M : PageMapper) : Prop where
  mapTo : ∀ {s : Pmm} {L : FreeLists} {out : Finset Block} {P roots : Set ℕ} {pte : Entry → ℕ}
    {root page frame flags : ℕ}, TablesInv s L out P roots pte → root ∈ roots → page < userPages →
    Pte.IsFrame frame → MapFlags flags → (M.mapTo s root page frame flags).1 = true →
    (Pte.writable flags = true → OpenWay (M.mapTo s root page frame flags).2.mem root page) ∧
      ∀ v < userPages, OpenWay s.mem root v → OpenWay (M.mapTo s root page frame flags).2.mem root v

section Plain
variable {vm vm' : Vm} {L : FreeLists} {out : Finset Block} {P roots : Set ℕ} {E : Finset Entry} {S : Finset ℕ}
  {σ : Space} {root page d t t' e i flags : ℕ}

lemma ensureTable_widens (h : vm.Refines L out P roots E S σ) (hrun : vm.ensureTable t i e = .ok (t', vm')) :
    Widens roots vm.pmm.mem vm'.pmm.mem := by
  unfold Vm.ensureTable at hrun
  dsimp only at hrun
  split at hrun
  · obtain ⟨-, rfl⟩ := Prod.mk.inj (Except.ok.inj hrun)
    exact Widens.refl _ _
  · next hp =>
    cases ha : vm.allocFrame with
    | none =>
      rw [ha] at hrun
      cases hrun
    | some q =>
      obtain ⟨f, vm₁⟩ := q
      rw [ha] at hrun
      obtain ⟨-, rfl⟩ := Prod.mk.inj (Except.ok.inj hrun)
      obtain ⟨L', hn⟩ := h.allocFill ha (vm₁.pmm.mem.zeroPage f) (fun a ha i => if_neg ha)
      have hclear : Widens roots vm.pmm.mem (vm₁.pmm.mem.zeroPage f) :=
        Widens.of_same (fun t ht => hn.kept t (h.tables.tables t ht).2)
      refine hclear.trans (widens_of_unused (fun r hr d hd v hv ht hi => ?_))
      have hold := (hn.walks r hr d hd.le v hv).symm.trans ht
      rw [show vm₁.pmm.mem.zeroPage f t i = vm.pmm.mem t i from
        hn.kept t (h.tables.tables t ⟨r, hr, d, hd.le, v, hv, hold⟩).2 i]
      refine childTable_eq_none.mpr (.inl ((and_present _).mp ?_))
      exact not_not.mp hp

lemma tableFor_widens (h : vm.Refines L out P roots ∅ ∅ σ) (hroot : root ∈ roots) (hpage : page < userPages)
    (hflags : MapFlags flags) (hd : d ≤ 3) (hrun : tableFor flags root page d vm = .ok (t, vm')) :
    Widens roots vm.pmm.mem vm'.pmm.mem := by
  induction d generalizing t vm' with
  | zero =>
    obtain ⟨-, rfl⟩ := Prod.mk.inj (Except.ok.inj hrun)
    exact Widens.refl _ _
  | succ d ih =>
    have hout := tableFor_outcome h hroot hpage hflags (show d ≤ 3 by omega)
    unfold tableFor at hrun
    cases hprev : tableFor flags root page d vm with
    | error err =>
      rw [hprev] at hrun
      cases hrun
    | ok q =>
      obtain ⟨t₀, vm₀⟩ := q
      rw [hprev] at hrun hout
      cases hout with
      | ok hok =>
        obtain ⟨L', out', hdesc, -⟩ := hok
        exact (ih (by omega) hprev).trans (ensureTable_widens hdesc.refines hrun)

lemma plain_widens {s : Pmm} {pte : Entry → ℕ} (frame : ℕ) (h : TablesInv s L out P roots pte) (hroot : root ∈ roots)
    (hpage : page < userPages) (hflags : MapFlags flags) (hok : (plain.mapTo s root page frame flags).1 = true) :
    Widens roots s.mem (plain.mapTo s root page frame flags).2.mem := by
  have h₀ : (Vm.mk s (fun _ => none) root).Refines L out P roots ∅ ∅ ⟨pte, fun _ => none, fun _ _ => 0⟩ :=
    ⟨h, rfl, by simp, by simp, by simp, by simp, by simp, by simp⟩
  have hout := tableFor_outcome h₀ hroot hpage hflags (Nat.le_refl 3)
  unfold plain at hok ⊢
  dsimp only at hok ⊢
  cases hrun : tableFor flags root page 3 (Vm.mk s (fun _ => none) root) with
  | error err =>
    rw [hrun] at hok
    cases hok
  | ok q =>
    obtain ⟨t, vm⟩ := q
    rw [hrun] at hok hout
    dsimp only at hok ⊢
    have hdown : Widens roots s.mem vm.pmm.mem := tableFor_widens h₀ hroot hpage hflags le_rfl hrun
    cases hout with
    | ok hleaf =>
      obtain ⟨L', out', hdesc, ht⟩ := hleaf
      split
      · refine hdown.trans (widens_of_unused (fun r hr d hd v hv ht' _ => ?_))
        have hdepth := (hdesc.refines.tables.forest.unique r hr root hroot d hd.le 3 le_rfl v hv page hpage t ht' ht).2.1
        omega
      · exact hdown

end Plain

def openEntry (root page d : ℕ) (mem : PhysMem) : PhysMem :=
  match pageTables.tableAt mem root d page with
  | none => mem
  | some t => mem.write t (pageTables.slot d page) (mem t (pageTables.slot d page) ||| pteWritable)

def openAbove (root page flags : ℕ) (r : Bool × Pmm) : Bool × Pmm :=
  if r.1 && Pte.writable flags then
    (true, { r.2 with
      mem := openEntry root page 2 (openEntry root page 1 (openEntry root page 0 r.2.mem)) })
  else r

def opening : PageMapper where
  mapTo s root page frame flags := openAbove root page flags (plain.mapTo s root page frame flags)
  unmap := plain.unmap

lemma opening_mapTo (s : Pmm) (root page frame flags : ℕ) : opening.mapTo s root page frame flags =
    openAbove root page flags (plain.mapTo s root page frame flags) := rfl

lemma childTable_or_writable (d e : ℕ) : childTable d (e ||| pteWritable) = childTable d e := by
  have hbit : ∀ i, i ≠ 1 → (e ||| pteWritable).testBit i = e.testBit i := by
    intro i hi
    rw [pteWritable, testBit_set, decide_eq_false (Ne.symm hi), Bool.or_false]
  have hframe : frame (e ||| pteWritable) = frame e := frame_congr (fun i hi _ => hbit i (by omega))
  have hnone : childTable d (e ||| pteWritable) = none ↔ childTable d e = none := by
    rw [childTable_eq_none, childTable_eq_none]
    unfold present huge
    rw [hbit 0 (by decide), hbit 7 (by decide)]
  by_cases h : childTable d e = none
  · rw [h, hnone.mpr h]
  · rw [childTable_of_ne_none h, childTable_of_ne_none (fun hc => h (hnone.mp hc)), hframe]

section Opening
variable {s : Pmm} {L : FreeLists} {out : Finset Block} {P roots : Set ℕ} {pte : Entry → ℕ} {root page d : ℕ}

lemma openEntry_word (mem : PhysMem) (root page d a i : ℕ) : openEntry root page d mem a i = mem a i ∨
      (pageTables.tableAt mem root d page = some a ∧ i = pageTables.slot d page ∧
        openEntry root page d mem a i = mem a i ||| pteWritable) := by
  unfold openEntry
  cases ht : pageTables.tableAt mem root d page with
  | none => exact .inl rfl
  | some t =>
    by_cases h : a = t ∧ i = pageTables.slot d page
    · obtain ⟨rfl, rfl⟩ := h
      exact .inr ⟨rfl, rfl, PhysMem.write_self ..⟩
    · exact .inl (if_neg h)

lemma childTable_openEntry (mem : PhysMem) (root page d e a i : ℕ) :
    childTable e (openEntry root page d mem a i) = childTable e (mem a i) := by
  obtain h | ⟨-, -, h⟩ := openEntry_word mem root page d a i
  · rw [h]
  · rw [h, childTable_or_writable]

lemma tableAt_openEntry (mem : PhysMem) (root page d r e v : ℕ) :
    pageTables.tableAt (openEntry root page d mem) r e v = pageTables.tableAt mem r e v :=
  tableAt_congr (fun _ _ _ _ => childTable_openEntry ..)

lemma writable_openEntry {mem : PhysMem} {a i : ℕ} (root page d : ℕ) (hw : Pte.writable (mem a i) = true) :
    Pte.writable (openEntry root page d mem a i) = true := by
  obtain h | ⟨-, -, h⟩ := openEntry_word mem root page d a i
  · rw [h]
    exact hw
  · rw [h]
    unfold writable at hw ⊢
    rw [Nat.testBit_or, hw, Bool.true_or]

lemma openEntry_widens (mem : PhysMem) (root page d : ℕ) : Widens roots mem (openEntry root page d mem) :=
  fun _ _ _ _ _ _ _ _ _ => ⟨childTable_openEntry .., writable_openEntry root page d⟩

lemma openEntry_writable {mem : PhysMem} {t : ℕ} (ht : pageTables.tableAt mem root d page = some t) :
    Pte.writable (openEntry root page d mem t (pageTables.slot d page)) = true := by
  unfold openEntry
  rw [ht]
  dsimp only
  rw [PhysMem.write_self]
  unfold writable pteWritable
  rw [testBit_set, decide_eq_true rfl, Bool.or_true]

lemma leaf_openEntry (h : TablesInv s L out P roots pte) (hroot : root ∈ roots) (hpage : page < userPages) (hd : d < 3)
    {r v : ℕ} (hr : r ∈ roots) (hv : v < userPages) :
    pageTables.leaf (openEntry root page d s.mem) r v = pageTables.leaf s.mem r v := by
  unfold leaf
  rw [tableAt_openEntry]
  split
  · next t ht =>
    obtain hw | ⟨ht', -, -⟩ := openEntry_word s.mem root page d t (pageTables.slot 3 v)
    · exact hw
    · have hdepth : d = 3 := (h.forest.unique root hroot r hr d hd.le 3 le_rfl page hpage v hv t ht' ht).2.1
      omega
  · rfl

lemma tablesInv_openEntry (h : TablesInv s L out P roots pte) (hroot : root ∈ roots) (hpage : page < userPages)
    (harrives : pageTables.tableAt s.mem root 3 page ≠ none) (hd : d < 3) :
    TablesInv { s with mem := openEntry root page d s.mem } L out P roots pte := by
  have hinv : Pmm.Inv { s with mem := openEntry root page d s.mem } L out P := by
    cases ht : pageTables.tableAt s.mem root d page with
    | none =>
      unfold openEntry
      rw [ht]
      exact h.inv
    | some t =>
      refine h.inv.remem_held (h.tables t ⟨root, hroot, d, hd.le, page, hpage, ht⟩).2 (fun a ha i => ?_)
      obtain hw | ⟨ht', -, -⟩ := openEntry_word s.mem root page d a i
      · exact hw
      · exact absurd (mem_unique ht' ht) ha
  refine ⟨hinv, h.bounded, h.forest.congr (fun r _ d' _ v _ => tableAt_openEntry ..), ?_, ?_, ?_⟩
  · intro r hr e he v hv t ht
    rw [tableAt_openEntry] at ht
    change openEntry root page d s.mem t (pageTables.slot e v) = 0 ∨
      childTable e (openEntry root page d s.mem t (pageTables.slot e v)) ≠ none
    rw [childTable_openEntry]
    obtain hw | ⟨ht', hslot, -⟩ := openEntry_word s.mem root page d t (pageTables.slot e v)
    · rw [hw]
      exact h.clean r hr e he v hv t ht
    · have hdepth : e = d := (h.forest.unique r hr root hroot e (le_of_lt he) d hd.le v hv page hpage t ht ht').2.1
      subst hdepth
      refine .inr (fun hnone => harrives (tableAt_none_of_le (d := e + 1) hd ?_))
      simp only [tableAt]
      rw [ht', bind_some, ← hslot]
      exact hnone
  · intro t ht
    exact h.tables t ((isTable_congr (fun r _ d' _ v _ => tableAt_openEntry ..)).mp ht)
  · intro r hr v hv
    rw [leaf_openEntry h hroot hpage hd hr hv]
    exact h.pte r hr v hv

lemma Mapped.openEntry {s' : Pmm} {L' : FreeLists} {out' : Finset Block} {w : ℕ}
    (hm : Mapped s out P roots pte root page w true s' L' out') (hroot : root ∈ roots) (hpage : page < userPages)
    (harrives : pageTables.tableAt s'.mem root 3 page ≠ none) (hd : d < 3) :
    Mapped s out P roots pte root page w true { s' with mem := PageMapper.openEntry root page d s'.mem } L' out' := by
  have htables := tablesInv_openEntry hm.tables hroot hpage harrives hd
  obtain ⟨n, hle, hspent, hcount, hshort, hall⟩ := hm.taken
  refine ⟨htables, hm.sub, ?_, ?_, hm.unused, ⟨n, hle, ?_, ?_, fun hlt => ?_, hall⟩, ?_⟩
  · intro t ht
    exact hm.fresh t ((isTable_congr (fun r _ d' _ v _ => tableAt_openEntry ..)).mp ht)
  · intro a ha hn i
    rw [← hm.kept a ha hn i]
    obtain hw | ⟨ht, -, -⟩ := openEntry_word s'.mem root page d a i
    · exact hw
    · exact absurd ⟨root, hroot, d, hd.le, page, hpage, ht⟩ (hm.not_table ha hn)
  · exact hspent.congr hm.tables.inv htables.inv
  · rw [← hcount]
    exact userTables_congr (fun d' _ v _ => tableAt_openEntry ..)
  · cases (hshort hlt).1
  · intro r hr hne d' hd' v hv
    rw [tableAt_openEntry]
    exact hm.others r hr hne d' hd' v hv

lemma Mapped.arrives {s' : Pmm} {L' : FreeLists} {out' : Finset Block} {frame flags : ℕ}
    (hm : Mapped s out P roots pte root page (frame ||| flags) true s' L' out') (hroot : root ∈ roots)
    (hpage : page < userPages) (hframe : Pte.IsFrame frame) (hflags : MapFlags flags) :
    pageTables.tableAt s'.mem root 3 page ≠ none := by
  intro hnone
  have hpte := hm.tables.pte root hroot page hpage
  rw [leaf_of_none hnone, if_pos rfl, Function.update_self] at hpte
  have hpresent : present (frame ||| flags) = true := (testBit_or_flags hframe (by decide)).trans hflags.present
  rw [← hpte] at hpresent
  cases hpresent

lemma opening_lawful : opening.Lawful := by
  refine ⟨?_, plain_lawful.unmap⟩
  intro s L out P roots pte root page frame flags htab hroot hpage hframe hflags
  obtain ⟨L', out', hm⟩ := plain_lawful.mapTo htab hroot hpage hframe hflags
  refine ⟨L', out', ?_⟩
  rw [opening_mapTo, openAbove]
  split
  · next hok =>
    rw [(Bool.and_eq_true_iff.mp hok).1] at hm
    have harrives := hm.arrives hroot hpage hframe hflags
    have h₀ := hm.openEntry hroot hpage harrives (d := 0) (by decide)
    have h₁ := h₀.openEntry hroot hpage (by rwa [tableAt_openEntry]) (d := 1) (by decide)
    exact h₁.openEntry hroot hpage (by rwa [tableAt_openEntry, tableAt_openEntry]) (d := 2) (by decide)
  · exact hm

lemma opening_opens : opening.Opens := by
  refine ⟨?_⟩
  intro s L out P roots pte root page frame flags htab hroot hpage hframe hflags hok
  obtain ⟨L', out', hm⟩ := plain_lawful.mapTo htab hroot hpage hframe hflags
  have hplain := plain_widens frame htab hroot hpage hflags
  rw [opening_mapTo, openAbove] at hok ⊢
  split at hok
  · next hboth =>
    rw [if_pos hboth]
    obtain ⟨hdone, -⟩ := Bool.and_eq_true_iff.mp hboth
    rw [hdone] at hm
    have harrives := hm.arrives hroot hpage hframe hflags
    have hwidens := (((hplain hdone).trans (openEntry_widens _ root page 0)).trans
      (openEntry_widens _ root page 1)).trans (openEntry_widens _ root page 2)
    refine ⟨fun _ => ⟨?_, ?_⟩, fun v hv hopen => hopen.widen hwidens hroot hv⟩
    · rwa [tableAt_openEntry, tableAt_openEntry, tableAt_openEntry]
    · intro d hd t ht
      rw [tableAt_openEntry, tableAt_openEntry, tableAt_openEntry] at ht
      obtain rfl | rfl | rfl : d = 0 ∨ d = 1 ∨ d = 2 := by omega
      · exact writable_openEntry _ _ _ (writable_openEntry _ _ _ (openEntry_writable ht))
      · exact writable_openEntry _ _ _ (openEntry_writable (by rwa [tableAt_openEntry]))
      · exact openEntry_writable (by rwa [tableAt_openEntry, tableAt_openEntry])
  · next hboth =>
    rw [if_neg hboth]
    exact ⟨fun hw => absurd (Bool.and_eq_true_iff.mpr ⟨hok, hw⟩) hboth, fun v hv hopen => hopen.widen (hplain hok) hroot hv⟩

end Opening

end PageMapper
end NodeKernel
