import NodeKernel.Process.ForkSpec
import NodeKernel.Process.Live

/-!
# Steps of processes

A step is taken by a process that is alive, with its root in the register and at an address
of the lower half. What each step does to the sharing of frames.
-/
namespace NodeKernel
open Blocks Space Scheduler
namespace Kernel

/-- Sharing is sound: a frame that two entries map is written through neither, and no count is
too small. -/
structure Safe (k : Kernel) (S : Finset ℕ) : Prop where
  wf : k.WellFormed S
  coherent : k.vm.space.Coherent k.liveEntries
  overcounts : k.vm.space.Over k.liveEntries

def Counted (k : Kernel) : Prop := k.vm.space.Counted k.liveEntries

variable {k k' : Kernel} {M : PageMapper} {L : FreeLists} {out : Finset Block} {P roots : Set ℕ}
  {S : Finset ℕ} {σ : Space} {pid : Pid} {addr c r : ℕ}

section OfRefines
variable (h : k.vm.Refines L out P roots k.liveEntries S σ)
include h

lemma space_pte_of_refines : ∀ x ∈ k.liveEntries, k.vm.space.pte x = σ.pte x :=
  fun x hx => h.space_pte (h.entries x hx).1 (h.entries x hx).2

lemma refCount_of_refines (f : ℕ) : k.vm.space.refCount k.liveEntries f = σ.refCount k.liveEntries f :=
  refCount_congr (fun x hx => by rw [space_pte_of_refines h x hx])

lemma Safe.of_booked {exact : Prop} (htidy : k.sched.Tidy) (hroot : k.vm.vmmRoot ∈ roots)
    (hc : σ.Coherent k.liveEntries) (hb : σ.Booked exact k.liveEntries) : k.Safe S ∧ (exact → k.Counted) := by
  have hb' : k.vm.space.Booked exact k.liveEntries := hb.congr h.refs (refCount_of_refines h)
  exact ⟨⟨⟨⟨L, out, P, roots, hroot, h.toSpace⟩, htidy, fun f n hn => (hb'.atLeast.range f n hn).2⟩,
    hc.congr (space_pte_of_refines h), hb'.atLeast⟩, hb'.counted⟩

lemma Safe.of_refines (htidy : k.sched.Tidy) (hroot : k.vm.vmmRoot ∈ roots)
    (hc : σ.Coherent k.liveEntries) (ho : σ.Over k.liveEntries) : k.Safe S :=
  (Safe.of_booked h htidy hroot hc (ho.booked False.elim)).1

end OfRefines

/-- The fork is complete: the new process `c` shares all pages of its parent. -/
structure Forked (k : Kernel) (L : FreeLists) (out : Finset Block) (P roots : Set ℕ)
    (S : Finset ℕ) (r c : ℕ) (k' : Kernel) (L' : FreeLists) (out' : Finset Block)
    (σ' : Space) : Prop where
  sched : ∃ t : Task, k'.sched = (k.sched.addTask t).enqueue k.sched.nextPid ∧
    t.state = .runnable ∧ t.cr3 = c
  refines : k'.vm.Refines L' out' P (insert c roots) (withRoot k.liveEntries c userPages) S
    (σ'.shareAll r c userPages)
  grows : Space.Grows (k.vm.space.clearRoot c) (withRoot k.liveEntries c userPages)
    (k.vm.vmmRoot, vdsoPage) σ'
  fresh : c ∉ roots
  nonzero : c ≠ 0
  root : k'.vm.vmmRoot = k.vm.vmmRoot

/-- `fork_task` succeeds if and only if the allocator can serve it. -/
theorem forkTask_outcome (hM : M.Lawful) (hr : k.sched.liveRoot pid = some r)
    (htidy : k.sched.Tidy) (hroot : k.vm.vmmRoot ∈ roots)
    (h : k.vm.Refines L out P roots k.liveEntries S k.vm.space) (words : ℕ → ℕ) :
    (k.vm.pmm.serves (k.vm.forkNeed r) = true ∧ ∃ c k' L' out' σ',
      k.forkTask M r words pid = (some k.sched.nextPid, k') ∧ Forked k L out P roots S r c k' L' out' σ') ∨
    (k.vm.pmm.serves (k.vm.forkNeed r) = false ∧ ∃ vm', k.forkTask M r words pid = (none,
        { k with vm := vm', sched := { k.sched with nextPid := k.sched.nextPid + 1 } }) ∧
      ((∃ L' out', Vm.SharedAlone k.vm out P roots k.liveEntries S k.vm.space r vm' L' out') ∨
      ∃ c n L' out' σ', Vm.SharedInto k.vm out P roots k.liveEntries S k.vm.space r c n vm' L' out' σ')) := by
  obtain ⟨t, ht, _, hcr3⟩ := liveRoot_some hr
  have hE : ∀ v < userPages, (r, v) ∈ k.liveEntries := fun v hv => mem_liveEntries.mpr ⟨htidy.mem_liveRoots.mpr ⟨pid, hr⟩, hv⟩
  have hrr : r ∈ roots := (h.entries _ (hE 0 (by decide))).1
  unfold forkTask
  dsimp only
  rw [ht]
  dsimp only
  rw [hcr3]
  rcases h.forkSpace hrr hE hM hroot with halone | hinto
  · obtain ⟨vm₁, L₁, out₁, hrun, halone⟩ := halone
    rw [hrun]
    rcases halone.refines.cloneStack words with hnone | hsome
    · rw [hnone.1]
      exact .inr ⟨halone.few, vm₁, rfl, .inl ⟨L₁, out₁, halone⟩⟩
    · obtain ⟨_, _, _, _, _, hserves, _⟩ := hsome
      rw [halone.stuck] at hserves
      cases hserves
  · obtain ⟨c, n, vm₁, L₁, out₁, σ₁, hrun, hinto⟩ := hinto
    rw [hrun]
    rcases hinto.refines.cloneStack words with hnone | hsome
    · rw [hnone.1]
      refine .inr ⟨?_, vm₁, rfl, .inr ⟨c, n, L₁, out₁, σ₁, hinto⟩⟩
      rcases hinto.all with hall | hfew
      · rw [← hnone.2]; exact hall.2 0
      · exact hfew.1
    · obtain ⟨stack, vm₂, L₂, out₂, hstack, hserves, href, _, hvr⟩ := hsome
      rw [hstack]
      rcases hinto.all with hall | hfew
      · obtain ⟨rfl, hspent⟩ := hall
        have hserve := hspent 0
        rw [hserves] at hserve
        exact .inl ⟨hserve, c, _, L₂, out₂, σ₁, rfl, ⟨_, rfl, rfl, rfl⟩, href, hinto.grows,
          hinto.fresh, hinto.nonzero, hvr.trans hinto.root⟩
      · rw [hfew.2] at hserves
        cases hserves

namespace Forked
variable {L' : FreeLists} {out' : Finset Block} {σ' : Space}

lemma tidy (h : Forked k L out P roots S r c k' L' out' σ') (ht : k.sched.Tidy) : k'.sched.Tidy := by
  obtain ⟨t, hs, hst, hc⟩ := h.sched
  have hz : t.state ≠ .zombie := by
    rw [hst]
    decide
  rw [hs]
  exact ((Scheduler.Keeps.refl _).enqueue _).tidy (ht.addTask hz (hc ▸ h.nonzero))

lemma liveRoot (h : Forked k L out P roots S r c k' L' out' σ') (q : Pid) :
    k'.sched.liveRoot q = if q = k.sched.nextPid then some c else k.sched.liveRoot q := by
  obtain ⟨t, hs, hst, hc⟩ := h.sched
  have hz : t.state ≠ .zombie := by
    rw [hst]
    decide
  rw [hs, ← hc]
  exact addTask_liveRoot hz q

lemma liveEntries (h : Forked k L out P roots S r c k' L' out' σ') (ht : k.sched.Tidy) :
    k'.liveEntries = withRoot k.liveEntries c userPages := by
  obtain ⟨t, hs, hst, hc⟩ := h.sched
  have hz : t.state ≠ .zombie := by
    rw [hst]
    decide
  have hroots : k'.sched.liveRoots = insert c k.sched.liveRoots := by
    rw [hs, ← hc]
    exact ht.liveRoots_addTask hz (hc ▸ h.nonzero)
  ext x
  rw [mem_liveEntries, mem_withRoot, mem_liveEntries, hroots, Finset.mem_insert]
  tauto

end Forked

lemma liveEntries_of_roots (h : k'.sched.liveRoots = k.sched.liveRoots) : k'.liveEntries = k.liveEntries := by
  unfold liveEntries
  rw [h]

lemma vdsoEntry_ne (hroot : k.vm.vmmRoot ∈ roots) (hc : c ∉ roots) : (k.vm.vmmRoot, vdsoPage).1 ≠ c := fun he => hc (he ▸ hroot)

section Fork
variable (h : k.Safe S) (hM : M.Lawful) (hr : k.sched.liveRoot pid = some r) (words : ℕ → ℕ)
  (hroom : k.vm.space.Room r userPages)
include h hM hr hroom

/-- A fork keeps sharing sound, whether it succeeds or not, if no count overflows. The counts
stay exact if it succeeds or has nothing to share. -/
theorem Safe.fork : (k.forkTask M r words pid).2.Safe S ∧ (k.vm.pmm.serves (k.vm.forkNeed r) = true ∨
        (∀ v < userPages, ¬ Space.Sharable (k.vm.space.pte (r, v))) → k.Counted → (k.forkTask M r words pid).2.Counted) := by
  have hE : ∀ v < userPages, (r, v) ∈ k.liveEntries := fun v hv => h.wf.covers hr hv
  obtain ⟨⟨⟨L, out, P, roots, hroot, href⟩, htidy, _⟩, hcoh, hover⟩ := h
  have hrr : r ∈ roots := (href.entries _ (hE 0 (by decide))).1
  have hfresh : ∀ c, c ∉ roots → ∀ x ∈ k.liveEntries, x.1 ≠ c := fun c hc x hx he => hc (he ▸ (href.entries x hx).1)
  rcases forkTask_outcome hM hr htidy hroot href words with hdone | hfail
  · obtain ⟨_, c, k', L', out', σ', hrun, hf⟩ := hdone
    have hrc : r ≠ c := fun he => hf.fresh (he ▸ hrr)
    have hx := vdsoEntry_ne hroot hf.fresh
    have hroot' : k'.vm.vmmRoot ∈ insert c roots := hf.root.symm ▸ Set.mem_insert_of_mem c hroot
    have hlive := hf.liveEntries htidy
    have href' := hf.refines
    have hcoh' := hcoh.fork (hfresh c hf.fresh) hE (Nat.le_refl _) hf.grows
    have hb' := (hover.booked id).fork (hfresh c hf.fresh) hE (Nat.le_refl _) hf.grows hrc hx hcoh hroom
    rw [hrun]
    rw [← hlive] at href' hcoh' hb'
    exact (Safe.of_booked href' (hf.tidy htidy) hroot' hcoh' hb').imp_right (fun hk _ => hk)
  · obtain ⟨hserves, vm', hrun, hfail⟩ := hfail
    have hbump := keeps_nextPid (s := k.sched) (Nat.le_succ k.sched.nextPid)
    have hlive : liveEntries { k with
        vm := vm', sched := { k.sched with nextPid := k.sched.nextPid + 1 } } = k.liveEntries :=
      liveEntries_of_roots (hbump.liveRoots htidy)
    have hb := hover.booked (fun he : (∀ v < userPages, ¬ Space.Sharable (k.vm.space.pte (r, v))) ∧ k.Counted => he.2)
    rw [hrun, hserves]
    -- nothing is served, so the counts only have to be exact if nothing is shared
    suffices hend : Safe _ S ∧ ((∀ v < userPages, ¬ Space.Sharable (k.vm.space.pte (r, v))) ∧ k.Counted → Counted _) from
      hend.imp_right (fun hk hcond hcount => hk ⟨hcond.resolve_left Bool.false_ne_true, hcount⟩)
    rcases hfail with halone | hinto
    · obtain ⟨L', out', ha⟩ := halone
      have href' := ha.refines
      have hcoh' : (k.vm.space.shareAll r r userPages).Coherent k.liveEntries := hcoh.shareAll hE
      have hb' := hb.shareAll hE hE hcoh (.inl rfl) (fun he => .inr he.1) hroom
      rw [← hlive] at href' hcoh' hb'
      exact Safe.of_booked href' (hbump.tidy htidy) (ha.root.symm ▸ hroot) hcoh' hb'
    · obtain ⟨c, n, L', out', σ', hi⟩ := hinto
      have hrc : r ≠ c := fun he => hi.fresh (he ▸ hrr)
      have hx := vdsoEntry_ne hroot hi.fresh
      have hroot' : vm'.vmmRoot ∈ insert c roots := hi.root.symm ▸ Set.mem_insert_of_mem c hroot
      have hsub := subset_withRoot (E := k.liveEntries) (c := c) (n := userPages)
      have href' := hi.refines.mono hsub
      have hcoh' := (hcoh.fork (hfresh c hi.fresh) hE hi.pages hi.grows).mono hsub
      have hb' := (hb.fork (hfresh c hi.fresh) hE hi.pages hi.grows hrc hx hcoh hroom).mono hsub (fun he y hy hyn f => by
        have hun : ∀ v < n, ¬ Space.Sharable (σ'.pte (r, v)) := by
          intro v hv hs
          rw [hi.grows.pte_of_sharable hs, clearRoot_ne hrc] at hs
          exact he.1 v (hv.trans_le hi.pages) hs
        obtain ⟨hyc, -⟩ := (mem_withRoot.mp hy).resolve_left hyn
        rw [shareAll_hit_of_unsharable hun (.inr (fun v _ => hi.grows.absent hx v)), hit_eq_zero]
        rw [show y = (c, y.2) from Prod.ext hyc rfl, hi.grows.absent hx]
        simp)
      rw [← hlive] at href' hcoh' hb'
      exact Safe.of_booked href' (hbump.tidy htidy) hroot' hcoh' hb'

end Fork

/-- The fault handler will find a frame if it needs one. -/
def FaultServed (k : Kernel) (r addr : ℕ) : Prop :=
  Pte.present (k.vm.space.pte (r, addr >>> 12)) = true →
    Pte.cow (k.vm.space.pte (r, addr >>> 12)) = true →
    1 < (k.vm.cowRefs (Pte.frame (k.vm.space.pte (r, addr >>> 12)))).getD 0 →
    k.vm.pmm.allocOrder 0 ≠ none

lemma Safe.cowFault (h : k.Safe S) (hr : k.sched.liveRoot pid = some r)
    (hv : addr >>> 12 < userPages) (hserved : k.FaultServed r addr) : Safe { k with vm := (k.vm.cowPageFault r addr).2 } S ∧
      (k.Counted → Counted { k with vm := (k.vm.cowPageFault r addr).2 }) := by
  have hE := h.wf.covers hr hv
  obtain ⟨⟨⟨L, out, P, roots, hroot, href⟩, htidy, hu8⟩, hcoh, hover⟩ := h
  have hrr : r ∈ roots := (href.entries _ hE).1
  by_cases hm : Pte.present (k.vm.space.pte (r, addr >>> 12)) = true ∧ Pte.cow (k.vm.space.pte (r, addr >>> 12)) = true
  · obtain ⟨hp, hcow⟩ := hm
    by_cases hlast : (k.vm.cowRefs (Pte.frame (k.vm.space.pte (r, addr >>> 12)))).getD 0 ≤ 1
    · obtain ⟨vm', hrun, href', hvr⟩ := href.cowPageFault_last hrr hv hE hp hcow hlast
      have hcount := (hover.le _).trans hlast
      rw [hrun]
      exact Safe.of_booked href' htidy (hvr.symm ▸ hroot) (hcoh.ownInPlace hE hp hcow hcount)
        ((hover.booked id).ownInPlace hE hp hcow hlast)
    · have hmem := hserved hp hcow (Nat.lt_of_not_le hlast)
      obtain ⟨n, hrefs, hn⟩ := refs_of_many (σ := k.vm.space) hlast
      obtain ⟨g, vm', L', hrun, href', hvr, hg, hfree⟩ := href.cowPageFault_copy hrr hv hE hp hcow hrefs hn hmem
      rw [hrun]
      exact Safe.of_booked href' htidy (hvr.symm ▸ hroot) (hcoh.ownCopy hg hfree)
        ((hover.booked id).ownCopy hE hp hcow hg hrefs hn)
  · have hrun := href.cowPageFault_other hrr hv hm
    rw [hrun]
    exact ⟨⟨⟨⟨L, out, P, roots, hroot, href⟩, htidy, hu8⟩, hcoh, hover⟩, id⟩

/-- No other task runs in the address space that is given up, or nothing in it is shared. -/
def ExitAlone (k : Kernel) (pid : Pid) (r : ℕ) : Prop :=
  (∀ q, q ≠ pid → k.sched.liveRoot q ≠ some r) ∨
    ∀ v < userPages, ¬ (Pte.present (k.vm.space.pte (r, v)) = true ∧
      Pte.cow (k.vm.space.pte (r, v)) = true)

lemma exitTask_eq (hr : k.sched.liveRoot pid = some r) (h0 : r ≠ 0) (code : ℤ) :
    k.exitTask pid code = (k.vm.releaseUserCowRefs r).map (fun vm => { k with
      vm := vm, sched := (k.sched.markZombie pid code).notifyParent (k.sched.parentOf pid) }) := by
  obtain ⟨t, ht, _, hcr3⟩ := liveRoot_some hr
  have htask : (((k.sched.markZombie pid code).tasks pid).map Task.cr3).getD 0 = r := by
    unfold markZombie modifyTask
    dsimp only
    rw [if_pos rfl, ht]
    exact hcr3
  unfold exitTask
  dsimp only
  rw [htask, if_pos h0]

lemma mem_liveEntries_exit (htidy : k.sched.Tidy) (code : ℤ) (parent : Pid) (vm' : Vm) {x : Entry} : x ∈ Kernel.liveEntries
        { k with vm := vm', sched := (k.sched.markZombie pid code).notifyParent parent } ↔
      (∃ q, q ≠ pid ∧ k.sched.liveRoot q = some x.1) ∧ x.2 < userPages := by
  have hz := htidy.markZombie pid code
  have hroots := (notifyParent_keeps (k.sched.markZombie pid code) parent).liveRoots hz
  rw [mem_liveEntries, hroots, htidy.liveRoots_markZombie]

section Exit
variable (h : k.Safe S) (hr : k.sched.liveRoot pid = some r) (halone : k.ExitAlone pid r) (code : ℤ)
include h hr halone

lemma Safe.exit : ∃ k', k.exitTask pid code = some k' ∧ k'.Safe S ∧ (k.Counted → k'.Counted) := by
  have hE : ∀ v < userPages, (r, v) ∈ k.liveEntries := fun v hv => h.wf.covers hr hv
  obtain ⟨⟨⟨L, out, P, roots, hroot, href⟩, htidy, _⟩, hcoh, hover⟩ := h
  have hrr : r ∈ roots := (href.entries _ (hE 0 (by decide))).1
  have h0 : r ≠ 0 := fun he => htidy.nonzero pid (he ▸ hr)
  have hz := htidy.markZombie pid code
  have htidy' := (notifyParent_keeps (k.sched.markZombie pid code) (k.sched.parentOf pid)).tidy hz
  rw [exitTask_eq hr h0]
  rcases halone with halone | hun
  · obtain ⟨vm', L', out', hrun, _, href', hvr⟩ := href.releaseUserCowRefs hcoh hover hrr hE
    have hlive : liveEntries { k with
        vm := vm'
        sched := (k.sched.markZombie pid code).notifyParent (k.sched.parentOf pid) } =
        without k.liveEntries r userPages := by
      ext x
      rw [mem_liveEntries_exit htidy, mem_without, mem_liveEntries, htidy.mem_liveRoots]
      constructor
      · intro hx
        obtain ⟨⟨q, hq, hqr⟩, hv⟩ := hx
        exact ⟨⟨⟨q, hqr⟩, hv⟩, fun hc => halone q hq (hc.1 ▸ hqr)⟩
      · intro hx
        obtain ⟨⟨⟨q, hqr⟩, hv⟩, hne⟩ := hx
        refine ⟨⟨q, fun he => hne ⟨?_, hv⟩, hqr⟩, hv⟩
        rw [he, hr] at hqr
        exact (Option.some.inj hqr).symm
    rw [hrun]
    exact ⟨_, rfl, Safe.of_booked (hlive ▸ href') htidy' (hvr.symm ▸ hroot) (hlive ▸ hcoh.releaseAll)
      (hlive ▸ (hover.booked id).releaseAll hE)⟩
  · rw [href.releaseUserCowRefs_unmarked hrr hun]
    let k' : Kernel := { k with sched := (k.sched.markZombie pid code).notifyParent (k.sched.parentOf pid) }
    have hsub : k'.liveEntries ⊆ k.liveEntries := by
      intro x hx
      obtain ⟨⟨q, _, hqr⟩, hv⟩ := (mem_liveEntries_exit htidy code _ k.vm).mp hx
      exact mem_liveEntries.mpr ⟨htidy.mem_liveRoots.mpr ⟨q, hqr⟩, hv⟩
    have hb := (hover.booked id).mono hsub ?_
    · exact ⟨k', rfl, Safe.of_booked (k := k') (href.mono hsub) htidy' hroot (hcoh.mono hsub) hb⟩
    intro _ x hx hxn f
    -- an entry that is no longer in force belonged to the address space given up
    have hxr : x.1 = r := by
      by_contra hne
      obtain ⟨q, hqr⟩ := htidy.mem_liveRoots.mp (mem_liveEntries.mp hx).1
      refine hxn ((mem_liveEntries_exit htidy code _ k.vm).mpr ⟨⟨q, fun he => hne ?_, hqr⟩, (mem_liveEntries.mp hx).2⟩)
      rw [he, hr] at hqr
      exact (Option.some.inj hqr).symm
    apply hit_eq_zero
    intro hc
    have hentry : x = (r, x.2) := Prod.ext hxr rfl
    rw [hentry] at hc
    exact hun x.2 (mem_liveEntries.mp hx).2 ⟨hc.1, hc.2.1⟩

end Exit

inductive Event where
  | fork (pid : Pid) (words : ℕ → ℕ)
  | cowFault (pid : Pid) (addr : ℕ)
  | exit (pid : Pid) (code : ℤ)
  | mprotect (pid : Pid) (addr len prot : ℕ)
  | store (pid : Pid) (addr w : ℕ)

/-- Every step is that of a process that is alive; `r` is its root. -/
inductive Step (M : PageMapper) : Kernel → Event → Kernel → Prop
  | fork {k : Kernel} {pid : Pid} {r : ℕ} {words : ℕ → ℕ} :
      k.sched.liveRoot pid = some r → Step M k (.fork pid words) (k.forkTask M r words pid).2
  | cowFault {k : Kernel} {pid : Pid} {r addr : ℕ} :
      k.sched.liveRoot pid = some r → addr >>> 12 < userPages →
      Step M k (.cowFault pid addr) { k with vm := (k.vm.cowPageFault r addr).2 }
  | exit {k k' : Kernel} {pid : Pid} {r : ℕ} {code : ℤ} :
      k.sched.liveRoot pid = some r → k.exitTask pid code = some k' → Step M k (.exit pid code) k'
  | mprotect {k k' : Kernel} {pid : Pid} {r addr len prot : ℕ} :
      k.sched.liveRoot pid = some r → k.sysMprotect r addr len prot = some k' →
      Step M k (.mprotect pid addr len prot) k'
  | store {k : Kernel} {pid : Pid} {r addr w : ℕ} :
      k.sched.liveRoot pid = some r → addr >>> 12 < userPages →
      Step M k (.store pid addr w) (k.userStore r addr w)

end Kernel
end NodeKernel
