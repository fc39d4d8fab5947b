import NodeKernel.Memory.SpaceCopies
import NodeKernel.Memory.VmmRefinement
import NodeKernel.Process.Kernel

/-!
# Address spaces in force

The address spaces in force are those of the tasks that are not zombies.
-/
namespace NodeKernel
open Blocks Option Finset
namespace Scheduler

def liveRoot (s : Scheduler) (pid : Pid) : Option ℕ :=
  match s.tasks pid with
  | some t => if t.state = .zombie then none else some t.cr3
  | none => none

def liveRoots (s : Scheduler) : Finset ℕ :=
  (Finset.range s.nextPid).biUnion (fun pid => (s.liveRoot pid).toFinset)

/-- Pids are given out in order, and a task that is alive has a root. -/
structure Tidy (s : Scheduler) : Prop where
  pids : ∀ pid, s.nextPid ≤ pid → s.tasks pid = none
  nonzero : ∀ pid, s.liveRoot pid ≠ some 0

variable {s s' : Scheduler} {pid q : Pid} {c r : ℕ}

lemma liveRoot_some (h : s.liveRoot pid = some r) : ∃ t, s.tasks pid = some t ∧ t.state ≠ .zombie ∧ t.cr3 = r := by
  unfold liveRoot at h
  split at h
  next t ht =>
    split at h
    · cases h
    next hz => exact ⟨t, ht, hz, Option.some.inj h⟩
  · cases h

lemma Tidy.lt_nextPid (h : s.Tidy) (hr : s.liveRoot pid = some r) : pid < s.nextPid := by
  apply Nat.lt_of_not_le
  intro hle
  obtain ⟨t, ht, _⟩ := liveRoot_some hr
  rw [h.pids pid hle] at ht
  cases ht

lemma Tidy.mem_liveRoots (h : s.Tidy) : r ∈ s.liveRoots ↔ ∃ pid, s.liveRoot pid = some r := by
  unfold liveRoots
  simp only [Finset.mem_biUnion, Finset.mem_range, Option.mem_toFinset, Option.mem_def]
  constructor
  · intro hr
    obtain ⟨pid, _, hpid⟩ := hr
    exact ⟨pid, hpid⟩
  · intro hr
    obtain ⟨pid, hpid⟩ := hr
    exact ⟨pid, h.lt_nextPid hpid, hpid⟩

structure Keeps (s s' : Scheduler) : Prop where
  roots : ∀ q, s'.liveRoot q = s.liveRoot q
  absent : ∀ q, s.tasks q = none → s'.tasks q = none
  next : s.nextPid ≤ s'.nextPid

lemma Keeps.refl (s : Scheduler) : s.Keeps s := ⟨fun _ => rfl, fun _ h => h, Nat.le_refl _⟩

lemma Keeps.trans {s'' : Scheduler} (h : s.Keeps s') (h' : s'.Keeps s'') : s.Keeps s'' :=
  ⟨fun q => (h'.roots q).trans (h.roots q), fun q hq => h'.absent q (h.absent q hq), h.next.trans h'.next⟩

lemma Keeps.enqueue (h : s.Keeps s') (pid : Pid) : s.Keeps (s'.enqueue pid) := ⟨h.roots, h.absent, h.next⟩

lemma Keeps.tidy (h : s.Keeps s') (ht : s.Tidy) : s'.Tidy := by
  refine ⟨fun q hq => h.absent q (ht.pids q (h.next.trans hq)), ?_⟩
  intro q
  rw [h.roots q]
  exact ht.nonzero q

lemma Keeps.liveRoots (h : s.Keeps s') (ht : s.Tidy) : s'.liveRoots = s.liveRoots := by
  ext r
  rw [ht.mem_liveRoots, (h.tidy ht).mem_liveRoots]
  simp only [h.roots]

lemma keeps_nextPid (h : s.nextPid ≤ q) : s.Keeps { s with nextPid := q } := ⟨fun _ => rfl, fun _ hq => hq, h⟩

lemma modifyTask_keeps (f : Task → Task) (hcr3 : ∀ t, (f t).cr3 = t.cr3)
    (hz : ∀ t, s.tasks pid = some t → ((f t).state = .zombie ↔ t.state = .zombie)) : s.Keeps (s.modifyTask pid f) := by
  refine ⟨?_, ?_, Nat.le_refl _⟩
  · intro q
    unfold liveRoot modifyTask
    dsimp only
    by_cases hq : q = pid
    · rw [if_pos hq, hq]
      cases ht : s.tasks pid with
      | none => rfl
      | some t =>
        simp only [map_some]
        rw [hcr3]
        simp only [hz t ht]
    · rw [if_neg hq]
  · intro q hq
    unfold modifyTask
    dsimp only
    rw [hq, map_none, ite_self]

lemma wakePid_keeps (s : Scheduler) (pid : Pid) : s.Keeps (s.wakePid pid) := by
  unfold wakePid
  split
  next hs =>
    apply Keeps.enqueue
    apply modifyTask_keeps
    · exact fun _ => rfl
    · intro t ht
      unfold stateOf at hs
      rw [ht] at hs
      have hst : t.state = .sleeping := Option.some.inj hs
      rw [hst]
      simp
  · exact Keeps.refl s

lemma sendSignal_keeps (s : Scheduler) (pid : Pid) (signum : ℕ) : s.Keeps (s.sendSignal pid signum) := by
  have hmod : s.Keeps (s.modifyTask pid
      (fun t => { t with pendingSignals := t.pendingSignals ||| 1 <<< signum })) :=
    modifyTask_keeps _ (fun _ => rfl) (fun _ _ => Iff.rfl)
  unfold sendSignal
  split
  · exact Keeps.refl s
  · dsimp only
    split
    · exact hmod.trans (wakePid_keeps _ pid)
    · exact hmod

lemma notifyParent_keeps (s : Scheduler) (parentPid : Pid) : s.Keeps (s.notifyParent parentPid) := by
  unfold notifyParent
  split
  · exact (wakePid_keeps s parentPid).trans (sendSignal_keeps _ parentPid 17)
  · exact Keeps.refl s

lemma markZombie_liveRoot (code : ℤ) (q : Pid) :
    (s.markZombie pid code).liveRoot q = if q = pid then none else s.liveRoot q := by
  unfold liveRoot markZombie modifyTask
  dsimp only
  by_cases hq : q = pid
  · rw [if_pos hq, if_pos hq, hq]
    cases s.tasks pid with
    | none => rfl
    | some t => rfl
  · rw [if_neg hq, if_neg hq]

lemma Tidy.markZombie (h : s.Tidy) (pid : Pid) (code : ℤ) : (s.markZombie pid code).Tidy := by
  refine ⟨?_, ?_⟩
  · intro q hq
    unfold Scheduler.markZombie modifyTask
    dsimp only
    rw [h.pids q hq, map_none, ite_self]
  · intro q
    rw [markZombie_liveRoot]
    split
    · exact (some_ne_none 0).symm
    · exact h.nonzero q

lemma Tidy.liveRoots_markZombie (h : s.Tidy) (code : ℤ) (r : ℕ) :
    r ∈ (s.markZombie pid code).liveRoots ↔ ∃ q, q ≠ pid ∧ s.liveRoot q = some r := by
  rw [(h.markZombie pid code).mem_liveRoots]
  constructor
  · intro hr
    obtain ⟨q, hq⟩ := hr
    rw [markZombie_liveRoot] at hq
    split at hq
    · cases hq
    next hne => exact ⟨q, hne, hq⟩
  · intro hr
    obtain ⟨q, hne, hq⟩ := hr
    refine ⟨q, ?_⟩
    rw [markZombie_liveRoot, if_neg hne]
    exact hq

def addTask (s : Scheduler) (t : Task) : Scheduler :=
  { s with
    nextPid := s.nextPid + 1
    tasks := fun q => if q = s.nextPid then some t else s.tasks q }

section AddTask
variable {t : Task} (ht : t.state ≠ .zombie)
include ht

lemma addTask_liveRoot (q : Pid) : (s.addTask t).liveRoot q = if q = s.nextPid then some t.cr3 else s.liveRoot q := by
  unfold liveRoot addTask
  dsimp only
  by_cases hq : q = s.nextPid
  · rw [if_pos hq, if_pos hq]
    simp [ht]
  · rw [if_neg hq, if_neg hq]

lemma Tidy.addTask (h : s.Tidy) (h0 : t.cr3 ≠ 0) : (s.addTask t).Tidy := by
  refine ⟨?_, ?_⟩
  · intro q hq
    have hlt : s.nextPid < q := hq
    exact (if_neg hlt.ne').trans (h.pids q hlt.le)
  · intro q
    rw [addTask_liveRoot ht]
    split
    · exact fun hc => h0 (Option.some.inj hc)
    · exact h.nonzero q

lemma Tidy.liveRoots_addTask (h : s.Tidy) (h0 : t.cr3 ≠ 0) : (s.addTask t).liveRoots = insert t.cr3 s.liveRoots := by
  ext r
  rw [(h.addTask ht h0).mem_liveRoots, mem_insert, h.mem_liveRoots]
  simp only [addTask_liveRoot ht]
  constructor
  · intro hr
    obtain ⟨q, hq⟩ := hr
    split at hq
    · exact .inl (Option.some.inj hq).symm
    · exact .inr ⟨q, hq⟩
  · intro hr
    rcases hr with hr | hr
    · exact ⟨s.nextPid, by rw [if_pos rfl, hr]⟩
    · obtain ⟨q, hq⟩ := hr
      refine ⟨q, ?_⟩
      rw [if_neg (h.lt_nextPid hq).ne]
      exact hq

end AddTask
end Scheduler

def Vm.space (vm : Vm) : Space :=
  ⟨fun x => pageTables.leaf vm.pmm.mem x.1 x.2, vm.cowRefs, vm.pmm.mem⟩

namespace Vm.Refines
variable {vm : Vm} {L : FreeLists} {out : Finset Block} {P roots : Set ℕ} {E : Finset Entry}
  {S : Finset ℕ} {σ : Space} {x : Entry}

variable (h : vm.Refines L out P roots E S σ)
include h

lemma space_pte (hx : x.1 ∈ roots) (hv : x.2 < userPages) : vm.space.pte x = σ.pte x := h.tables.pte x.1 hx x.2 hv

lemma space_maps {f : ℕ} (hx : x ∈ E) : vm.space.Maps x f ↔ σ.Maps x f := by
  unfold Space.Maps
  rw [h.space_pte (h.entries x hx).1 (h.entries x hx).2]

lemma toSpace : vm.Refines L out P roots E S vm.space := by
  refine ⟨⟨h.tables.inv, h.tables.bounded, h.tables.forest, h.tables.clean, h.tables.tables,
    fun _ _ _ _ => rfl⟩, rfl, h.entries, ?_, ?_, ?_, fun _ _ _ _ _ => rfl, ?_⟩
  · intro x hx f hm
    exact h.apart x hx f ((h.space_maps hx).mp hm)
  · intro x hx f hm
    exact h.held x hx f ((h.space_maps hx).mp hm)
  · intro x hx hs
    rw [h.space_pte (h.entries x hx).1 (h.entries x hx).2] at hs ⊢
    exact h.owned x hx hs
  · intro f hf
    obtain ⟨hout, hnot, hun⟩ := h.spare f hf
    refine ⟨hout, hnot, ?_⟩
    intro x hx hm
    exact hun x hx ((h.space_maps hx).mp hm)

end Vm.Refines

namespace Kernel

def liveEntries (k : Kernel) : Finset Entry := k.sched.liveRoots ×ˢ Finset.range userPages

def cowEntries (k : Kernel) (f : ℕ) : ℕ := k.vm.space.refCount k.liveEntries f

/-- The tables of the living are intact, and the frames they map are theirs; the frames of
`S` are set aside. -/
structure WellFormed (k : Kernel) (S : Finset ℕ) : Prop where
  memory : ∃ L out P roots, k.vm.vmmRoot ∈ roots ∧ k.vm.Refines L out P roots k.liveEntries S k.vm.space
  tidy : k.sched.Tidy
  u8 : ∀ f n, k.vm.cowRefs f = some n → n ≤ 255

variable {k : Kernel} {S : Finset ℕ} {pid : Pid} {r v : ℕ}

lemma mem_liveEntries {x : Entry} : x ∈ k.liveEntries ↔ x.1 ∈ k.sched.liveRoots ∧ x.2 < userPages := by
  unfold liveEntries
  rw [mem_product, mem_range]

lemma WellFormed.covers (h : k.WellFormed S) (hr : k.sched.liveRoot pid = some r)
    (hv : v < userPages) : (r, v) ∈ k.liveEntries :=
  mem_liveEntries.mpr ⟨h.tidy.mem_liveRoots.mpr ⟨pid, hr⟩, hv⟩

lemma userLoad_of_refines {L : FreeLists} {out : Finset Block} {P roots : Set ℕ}
    {E : Finset Entry} {σ : Space} {addr : ℕ} (h : k.vm.Refines L out P roots E S σ) (hE : (r, addr >>> 12) ∈ E) :
    k.userLoad r addr = σ.load (r, addr >>> 12) (addr % pageSize / 8) := by
  have hpte := h.space_pte (h.entries _ hE).1 (h.entries _ hE).2
  change pageTables.leaf k.vm.pmm.mem r (addr >>> 12) = _ at hpte
  unfold userLoad Space.load
  dsimp only
  rw [hpte]
  split
  next hp => rw [h.data _ hE _ ⟨hp, rfl⟩]
  · rfl

end Kernel
end NodeKernel
