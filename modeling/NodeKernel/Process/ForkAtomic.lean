import NodeKernel.Process.FirstProcess

/-!
# Copy-on-write counts and failing forks

`COW_REFS` against the entries in force, over runs of forks, write faults and exits; and the forks that fail.
-/
namespace NodeKernel
open Blocks Option Space PageMapper Pte
namespace Kernel

/-- `COW_REFS` has, for every frame, the number of entries in force that share it. -/
def CountsExact (k : Kernel) : Prop := ∀ f, (k.vm.cowRefs f).getD 0 = k.cowEntries f

/-- The step loses no count. A fork is served in full and overflows no count, or has nothing
to share; a fault on a frame with several owners finds a free frame; an exit gives up an
address space that no other task uses, or in which nothing is shared. -/
def KeepsCounts (k : Kernel) : Event → Prop
  | .fork pid _ => ∀ r, k.sched.liveRoot pid = some r →
      (k.vm.pmm.serves (k.vm.forkNeed r) = true ∧ k.vm.space.Room r userPages) ∨
        ∀ v < userPages, ¬ Space.Sharable (k.vm.space.pte (r, v))
  | .cowFault pid addr => ∀ r, k.sched.liveRoot pid = some r → k.FaultServed r addr
  | .exit pid _ => ∀ r, k.sched.liveRoot pid = some r → k.ExitAlone pid r
  | .mprotect .. | .store .. => False

variable {k k₀ : Kernel} {M : PageMapper} {S : Finset ℕ} {tr : List (Kernel × Event)}

lemma Counted.exact (h : k.Counted) : k.CountsExact := by
  intro f
  have hf := h f
  change k.vm.cowRefs f = _ at hf
  rw [hf]
  unfold cowEntries
  split
  next h0 => rw [h0]; rfl
  · rfl

lemma Step.counted {k' : Kernel} {e : Event} (hM : M.Lawful) (h : k.Safe S ∧ k.Counted)
    (hcond : k.KeepsCounts e) (hstep : Step M k e k') : k'.Safe S ∧ k'.Counted := by
  obtain ⟨hsafe, hcount⟩ := h
  cases hstep with
  | fork hr =>
    rename_i pid r words
    have hroom : k.vm.space.Room r userPages := by
      rcases hcond r hr with hs | hun
      · exact hs.2
      · exact hsafe.overcounts.room_of_unsharable hun
    obtain ⟨hsafe', hcount'⟩ := hsafe.fork hM hr words hroom
    exact ⟨hsafe', hcount' ((hcond r hr).imp And.left id) hcount⟩
  | cowFault hr hv =>
    obtain ⟨hsafe', hcount'⟩ := hsafe.cowFault hr hv (hcond _ hr)
    exact ⟨hsafe', hcount' hcount⟩
  | exit hr hrun =>
    rename_i pid r code
    obtain ⟨k₁, hrun', hsafe', hcount'⟩ := hsafe.exit hr (hcond r hr) code
    obtain rfl := mem_unique hrun hrun'
    exact ⟨hsafe', hcount' hcount⟩
  | mprotect => exact hcond.elim
  | store => exact hcond.elim

/-- In a run whose steps lose no count, `COW_REFS` is exact in every state. -/
theorem run_counts_exact (hM : M.Lawful) (hsafe : k₀.Safe S) (hcount : k₀.Counted)
    (hrun : Run (Step M) k₀ tr k) (hcond : ∀ x ∈ tr, x.1.KeepsCounts x.2) : (∀ x ∈ tr, x.1.CountsExact) ∧ k.CountsExact := by
  obtain ⟨hpre, hlast⟩ := hrun.invariant_of (I := fun k => k.Safe S ∧ k.Counted)
    (C := fun k e => k.KeepsCounts e) ⟨hsafe, hcount⟩ (fun _ _ _ h hc hs => hs.counted hM h hc) hcond
  exact ⟨fun x hx => (hpre x hx).2.exact, hlast.2.exact⟩

lemma fork_alone {root w : ℕ} (h : OnePage k root 0 w) (hM : M.Lawful) (hw : Pte.writable w = true) (hcow : Pte.cow w = false)
    (hempty : k.vm.pmm.allocOrder 0 = none) (words : ℕ → ℕ) : (k.forkTask M root words 1).1 = none ∧
      (k.forkTask M root words 1).2.vm.cowRefs (Pte.frame w) = some 2 ∧
      (k.forkTask M root words 1).2.cowEntries (Pte.frame w) = 1 := by
  obtain ⟨L, out, P, roots, hroot, href⟩ := h.wf.memory
  have hword : k.vm.space.pte (root, 0) = w := h.word
  have hs : Space.Sharable (k.vm.space.pte (root, 0)) := by
    rw [hword]
    exact ⟨h.present, .inl hw⟩
  have hE : (root, 0) ∈ k.liveEntries := h.mem_liveEntries.mpr ⟨rfl, h.inRange⟩
  have hrefs : k.vm.space.refs (frame w) = none := congrFun h.refs _
  rcases forkTask_outcome hM (h.live 1) h.wf.tidy hroot href words with hdone | hfail
  · rw [href.tables.inv.serves_of_empty hempty] at hdone
    cases hdone.1
  · obtain ⟨_, vm', hrun, hfail⟩ := hfail
    cases hfail with
    | inr hinto =>
      obtain ⟨_, _, _, _, _, hinto⟩ := hinto
      exact absurd hempty hinto.served
    | inl halone =>
      obtain ⟨L', out', ha⟩ := halone
      have hlive : liveEntries { k with
          vm := vm', sched := { k.sched with nextPid := k.sched.nextPid + 1 } } = k.liveEntries :=
        liveEntries_of_roots
          ((Scheduler.keeps_nextPid (Nat.le_succ k.sched.nextPid)).liveRoots h.wf.tidy)
      have href' := ha.refines
      rw [h.shareAll_self, ← hlive] at href'
      rw [hrun]
      refine ⟨rfl, ?_, ?_⟩
      · rw [href'.refs, share_refs hs, hword, Function.update_self, hrefs]
        rfl
      · unfold cowEntries
        rw [refCount_of_refines href', hlive]
        have hcount := refCount_share hE hE (.inl rfl) hs (frame w)
        rw [h.refCount hcow, hword, if_pos rfl, if_pos rfl, hit_eq_zero (by simp [hcow])] at hcount
        exact hcount

/-- A fork that is served: the page of the only process is shared with the child. -/
theorem counts_exact_after_fork : ∃ tr k, Run (Step PageMapper.plain) (sample 0x20000 0x40000) tr k ∧
    tr.map Prod.snd = [.fork 1 (fun _ => 0)] ∧ (∀ x ∈ tr, x.1.CountsExact) ∧ k.CountsExact := by
  obtain ⟨root, w, h, _, hcow, _⟩ := sample_roomy
  have hlive : (sample 0x20000 0x40000).sched.liveRoot 1 = some root := h.live 1
  have hstep : Step plain _ (.fork 1 (fun _ => 0)) _ := Step.fork hlive
  have hrun := Run.snoc Run.nil hstep
  refine ⟨_, _, hrun, rfl, run_counts_exact plain_lawful (h.safe hcow) (h.counted hcow)
    hrun ?_⟩
  intro x hx
  rw [List.mem_singleton.mp hx]
  intro r hr
  obtain rfl := mem_unique hlive hr
  exact .inl ⟨sample_served h, h.room⟩

/-- A fork without a free frame shares the page with the process itself: it is counted twice
and mapped once. -/
theorem fork_without_memory_miscounts : ∃ tr k, (sample 0x1000 0x6000).Safe ∅ ∧ (sample 0x1000 0x6000).Counted ∧
    Run (Step PageMapper.plain) (sample 0x1000 0x6000) tr k ∧ tr.map Prod.snd = [.fork 1 (fun _ => 0)] ∧
    ∃ f, k.vm.cowRefs f = some 2 ∧ k.cowEntries f = 1 := by
  obtain ⟨root, w, h, hw, hcow, _⟩ := sample_onePage 0x1000 0x6000 ⟨1, rfl⟩ ⟨6, rfl⟩
    (by decide) (by decide) (by decide) (by decide +kernel) (by decide +kernel)
  have hlive : (sample 0x1000 0x6000).sched.liveRoot 1 = some root := h.live 1
  have hstep : Step plain _ (.fork 1 (fun _ => 0)) _ := Step.fork hlive
  refine ⟨_, _, h.safe hcow, h.counted hcow, Run.snoc Run.nil hstep, rfl, ?_⟩
  exact ⟨frame w, (fork_alone h plain_lawful hw hcow sample_empty (fun _ => 0)).2⟩

end Kernel

/-! ## All or nothing -/

namespace Kernel

/-- The process `r` reads what it read and may write where it could, and no frame and no count
has gone. -/
structure Unharmed (k k' : Kernel) (r : ℕ) : Prop where
  reads : ∀ addr, addr >>> 12 < userPages → k'.userLoad r addr = k.userLoad r addr
  writes : ∀ v < userPages, Pte.present (k.vm.space.pte (r, v)) = true →
    Pte.writable (k'.vm.space.pte (r, v)) = Pte.writable (k.vm.space.pte (r, v)) ∧
    Pte.cow (k'.vm.space.pte (r, v)) = Pte.cow (k.vm.space.pte (r, v))
  counts : k'.vm.cowRefs = k.vm.cowRefs
  frames : ∀ a, k'.vm.pmm.FreeAt a ↔ k.vm.pmm.FreeAt a

/-- The child has a root of its own and reads there what its parent reads, which is what it
read before. -/
structure Copied (k k' : Kernel) (r : ℕ) (child : Pid) : Prop where
  root : ∃ c, k'.sched.liveRoot child = some c ∧
    (∀ q, q ≠ child → k'.sched.liveRoot q ≠ some c) ∧
    ∀ addr, addr >>> 12 < userPages → k'.userLoad c addr = k'.userLoad r addr
  parent : ∀ addr w, addr >>> 12 < userPages → k.userLoad r addr = some w →
    k'.userLoad r addr = some w

def AllOrNothing (k : Kernel) (r : ℕ) (result : Option Pid × Kernel) : Prop :=
  match result.1 with
  | none => k.Unharmed result.2 r
  | some child => k.Copied result.2 r child

/-- There is no parent, or the allocator can serve the whole fork, or it is empty and a fork
would change no entry and no count. -/
def ForkWhole (k : Kernel) (pid : Pid) (r : ℕ) : Prop :=
  k.sched.tasks pid = none ∨ k.vm.pmm.serves (k.vm.forkNeed r) = true ∨
    (k.vm.pmm.allocOrder 0 = none ∧ ∀ v < userPages, Space.Sharable (k.vm.space.pte (r, v)) →
      Pte.writable (k.vm.space.pte (r, v)) = false ∧
      k.vm.cowRefs (Pte.frame (k.vm.space.pte (r, v))) = some 255)

variable {k k' : Kernel} {M : PageMapper} {L L' : FreeLists} {out out' : Finset Block}
  {P roots : Set ℕ} {S : Finset ℕ} {σ' : Space} {pid : Pid} {c r : ℕ} {vm' : Vm}

lemma Forked.copied (hf : Forked k L out P roots S r c k' L' out' σ') (htidy : k.sched.Tidy)
    (hroot : k.vm.vmmRoot ∈ roots) (href : k.vm.Refines L out P roots k.liveEntries S k.vm.space)
    (hr : k.sched.liveRoot pid = some r) : k.Copied k' r k.sched.nextPid := by
  have hE : ∀ v < userPages, (r, v) ∈ k.liveEntries := fun v hv => mem_liveEntries.mpr ⟨htidy.mem_liveRoots.mpr ⟨pid, hr⟩, hv⟩
  have hrc : r ≠ c := fun he => hf.fresh (he ▸ (href.entries _ (hE 0 (by decide))).1)
  refine ⟨⟨c, ?_, ?_, ?_⟩, ?_⟩
  · rw [hf.liveRoot, if_pos rfl]
  · intro q hq hqc
    rw [hf.liveRoot, if_neg hq] at hqc
    have hmem : (c, 0) ∈ k.liveEntries := mem_liveEntries.mpr ⟨htidy.mem_liveRoots.mpr ⟨q, hqc⟩, userPages_pos⟩
    exact hf.fresh (href.entries _ hmem).1
  · intro addr hv
    rw [userLoad_of_refines hf.refines (subset_withRoot (hE _ hv)),
      userLoad_of_refines hf.refines (mem_withRoot.mpr (.inr ⟨rfl, hv⟩))]
    exact shareAll_load_child hv (hf.grows.absent (vdsoEntry_ne hroot hf.fresh) _) _
  · intro addr w hv hload
    rw [userLoad_of_refines href (hE _ hv)] at hload
    rw [userLoad_of_refines hf.refines (subset_withRoot (hE _ hv)), shareAll_load_parent]
    apply hf.grows.load_of_some (subset_withRoot (hE _ hv))
    unfold load at hload ⊢
    rw [clearRoot_ne hrc]
    exact hload

section Failed
variable (href : k.vm.Refines L out P roots k.liveEntries S k.vm.space)
  (hE : ∀ v < userPages, (r, v) ∈ k.liveEntries)
include href hE

lemma unharmed_of_saturated (hempty : k.vm.pmm.allocOrder 0 = none)
    (hsat : ∀ v < userPages, Space.Sharable (k.vm.space.pte (r, v)) → Pte.writable (k.vm.space.pte (r, v)) = false ∧
      k.vm.cowRefs (Pte.frame (k.vm.space.pte (r, v))) = some 255)
    (ha : Vm.SharedAlone k.vm out P roots k.liveEntries S k.vm.space r vm' L' out')
    (sched : Scheduler) : k.Unharmed { k with vm := vm', sched } r := by
  have href' : Vm.Refines (mk vm' sched k.physOffset).vm L' out' P roots k.liveEntries S _ := ha.refines
  have hr : ∀ v < userPages, (r, v).1 ∈ roots := fun v hv => (href.entries _ (hE v hv)).1
  refine ⟨?_, ?_, ?_, ?_⟩
  · intro addr hv
    rw [userLoad_of_refines href (hE _ hv), userLoad_of_refines href' (hE _ hv)]
    exact shareAll_load_parent _ _
  · intro v hv _
    have hpte := href'.space_pte (hr v hv) hv
    rw [hpte, shareAll_parent hv]
    split
    next hs =>
      have hw := (hsat v hv hs).1
      have hcow := hs.2.resolve_left (by rw [hw]; exact Bool.false_ne_true)
      rw [writable_toCow, cow_toCow, hw, hcow]
      exact ⟨rfl, rfl⟩
    · exact ⟨rfl, rfl⟩
  · rw [ha.refines.refs, shareAll_refs_saturated (fun v hv hs => (hsat v hv hs).2)]
    rfl
  · intro a
    have hno := href.tables.inv.not_freeAt_of_empty hempty a
    refine ⟨fun hf => ?_, fun hf => absurd hf hno⟩
    exact href.tables.inv.freeAt_of_subset ha.refines.tables.inv ha.sub hf

lemma saturated_of_unharmed (hu8 : ∀ f n, k.vm.cowRefs f = some n → n ≤ 255)
    (ha : Vm.SharedAlone k.vm out P roots k.liveEntries S k.vm.space r vm' L' out')
    {sched : Scheduler} (hun : k.Unharmed { k with vm := vm', sched } r) :
    k.vm.pmm.allocOrder 0 = none ∧ ∀ v < userPages, Space.Sharable (k.vm.space.pte (r, v)) →
      writable (k.vm.space.pte (r, v)) = false ∧
      k.vm.cowRefs (frame (k.vm.space.pte (r, v))) = some 255 := by
  refine ⟨?_, ?_⟩
  · refine ha.lost.resolve_right (fun hlost => ?_)
    obtain ⟨p, hin, hnin⟩ := hlost
    obtain ⟨hfree, hno⟩ := href.tables.inv.freeAt_of_new ha.refines.tables.inv ha.sub hin hnin
    exact hno ((hun.frames p).mpr hfree)
  · intro v hv hs
    have hpte := ha.refines.space_pte (href.entries _ (hE v hv)).1 hv
    refine ⟨?_, ?_⟩
    · have hw := (hun.writes v hv hs.1).1
      rw [hpte, shareAll_parent hv, if_pos hs, writable_toCow] at hw
      exact hw.symm
    · obtain ⟨n, hn, hle⟩ := shareAll_refs_of_sharable (c := r) hv hs
      have hcounts : vm'.cowRefs = k.vm.cowRefs := hun.counts
      rw [← ha.refines.refs, hcounts] at hn
      have hmax := hu8 _ n hn
      change min ((k.vm.cowRefs _).getD 1 + 1) 255 ≤ n at hle
      rw [hn, getD_some] at hle
      rw [hn]
      congr 1
      omega

end Failed

/-- `fork_task` is all or nothing if and only if it finds all it needs, or nothing to do. -/
theorem fork_allOrNothing_iff (hM : M.Lawful) (h : k.WellFormed S)
    (hpid : k.sched.tasks pid = none ∨ k.sched.liveRoot pid = some r) (words : ℕ → ℕ) :
    k.AllOrNothing r (k.forkTask M r words pid) ↔ k.ForkWhole pid r := by
  rcases hpid with hnone | hr
  · have hrun : k.forkTask M r words pid = (none, { k with sched := { k.sched with nextPid := k.sched.nextPid + 1 } }) := by
      unfold forkTask
      dsimp only
      rw [hnone]
    rw [hrun]
    exact iff_of_true ⟨fun _ _ => rfl, fun _ _ _ => ⟨rfl, rfl⟩, rfl, fun _ => Iff.rfl⟩ (.inl hnone)
  · obtain ⟨⟨L, out, P, roots, hroot, href⟩, htidy, hu8⟩ := h
    have hE : ∀ v < userPages, (r, v) ∈ k.liveEntries := fun v hv => mem_liveEntries.mpr ⟨htidy.mem_liveRoots.mpr ⟨pid, hr⟩, hv⟩
    obtain ⟨t, ht, _⟩ := Scheduler.liveRoot_some hr
    rcases forkTask_outcome hM hr htidy hroot href words with hdone | hfail
    · obtain ⟨hserves, c, k', L', out', σ', hrun, hf⟩ := hdone
      rw [hrun]
      exact iff_of_true (hf.copied htidy hroot href hr) (.inr (.inl hserves))
    · obtain ⟨hserves, vm', hrun, hfail⟩ := hfail
      rw [hrun]
      have hwhole : k.ForkWhole pid r ↔ (k.vm.pmm.allocOrder 0 = none ∧
            ∀ v < userPages, Space.Sharable (k.vm.space.pte (r, v)) → writable (k.vm.space.pte (r, v)) = false ∧
              k.vm.cowRefs (frame (k.vm.space.pte (r, v))) = some 255) := by
        unfold ForkWhole
        rw [ht, hserves]
        simp
      rw [hwhole]
      rcases hfail with halone | hinto
      · obtain ⟨L', out', ha⟩ := halone
        constructor
        · exact fun hun => saturated_of_unharmed href hE hu8 ha hun
        · exact fun hsat => unharmed_of_saturated href hE hsat.1 hsat.2 ha _
      · obtain ⟨c, n, L', out', σ', hi⟩ := hinto
        refine iff_of_false (fun hun => ?_) (fun hsat => hi.served hsat.1)
        obtain ⟨hfree, hno⟩ := href.tables.inv.freeAt_of_new hi.refines.tables.inv
          ((Finset.subset_insert _ _).trans hi.sub) (hi.sub (Finset.mem_insert_self _ _)) hi.new
        exact hno ((Unharmed.frames hun c).mpr hfree)

theorem fork_allOrNothing_served : ∃ root, (sample 0x20000 0x40000).sched.liveRoot 1 = some root ∧
    (sample 0x20000 0x40000).ForkWhole 1 root ∧ (sample 0x20000 0x40000).AllOrNothing root
      ((sample 0x20000 0x40000).forkTask PageMapper.plain root (fun _ => 0) 1) := by
  obtain ⟨root, w, h, _⟩ := sample_roomy
  have hwhole : (sample 0x20000 0x40000).ForkWhole 1 root := .inr (.inl (sample_served h))
  exact ⟨root, h.live 1, hwhole, (fork_allOrNothing_iff plain_lawful h.wf
    (.inr (h.live 1)) (fun _ => 0)).mpr hwhole⟩

/-- Without memory there is no child, but the page of the parent is counted. -/
theorem failed_fork_harms_parent : ∃ root,
    (sample 0x1000 0x6000).WellFormed ∅ ∧ (sample 0x1000 0x6000).sched.liveRoot 1 = some root ∧
    ((sample 0x1000 0x6000).forkTask PageMapper.plain root (fun _ => 0) 1).1 = none ∧ ¬ (sample 0x1000 0x6000).AllOrNothing root
      ((sample 0x1000 0x6000).forkTask PageMapper.plain root (fun _ => 0) 1) := by
  obtain ⟨root, w, h, hw, hcow, _⟩ := sample_onePage 0x1000 0x6000 ⟨1, rfl⟩ ⟨6, rfl⟩
    (by decide) (by decide) (by decide) (by decide +kernel) (by decide +kernel)
  obtain ⟨hnone, hrefs, _⟩ := fork_alone h plain_lawful hw hcow sample_empty (fun _ => 0)
  refine ⟨root, h.wf, h.live 1, hnone, fun hall => ?_⟩
  unfold AllOrNothing at hall
  rw [hnone] at hall
  have hcounts := congrFun (Unharmed.counts hall) (frame w)
  rw [hrefs, h.refs] at hcounts
  cases hcounts

end Kernel
end NodeKernel
