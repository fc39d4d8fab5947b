import NodeKernel.Process.Kernel
import NodeKernel.Scheduler.Switching

/-!
# Queueing of tasks

Every entry point that touches the run queue, on the task table and the memory together,
and what the queue holds in every state that they reach.
-/
namespace NodeKernel
namespace Scheduler

variable {s : Scheduler}

/-- No pid is queued twice or queued while it is current, and what is queued can run. -/
structure WellQueued (s : Scheduler) : Prop where
  nodup : s.runqueue.rotation.Nodup
  ready : ∀ p ∈ s.runqueue.queue, ∃ t, s.tasks p = some t ∧ t.state ≠ .sleeping ∧ t.state ≠ .zombie

lemma Sane.wellQueued (h : s.Sane) : s.WellQueued := by
  refine ⟨h.rotation_nodup, ?_⟩
  intro p hp
  obtain ⟨t, ht, hst⟩ := Option.map_eq_some_iff.mp (h.queued p hp)
  refine ⟨t, ht, ?_, ?_⟩
  · rw [hst]; decide
  · rw [hst]; decide

lemma Sane.skipPid (h : s.Sane) : Sane { s with nextPid := s.nextPid + 1 } :=
  ⟨h.nodup, h.apart, h.queued, h.current, fun p hp => h.fresh p (Nat.le_of_succ_le hp)⟩

lemma Sane.moveToFront (h : s.Sane) (p : Pid) : Sane { s with runqueue := s.runqueue.moveToFront p } := by
  have hperm : (s.runqueue.moveToFront p).queue.Perm s.runqueue.queue := RunQueue.moveToFront_perm
  refine ⟨hperm.nodup_iff.mpr h.nodup, ?_, ?_, ?_, h.fresh⟩
  · intro q hq hmem
    exact h.apart q (RunQueue.moveToFront_currentPid ▸ hq) (hperm.mem_iff.mp hmem)
  · intro q hq
    exact h.queued q (hperm.mem_iff.mp hq)
  · intro q hq
    exact h.current q (RunQueue.moveToFront_currentPid ▸ hq)

lemma Sane.scheduleFromInterrupt (h : s.Sane) (input : TickInput) (oldRsp : ℕ) :
    (s.scheduleFromInterrupt input oldRsp).2.Sane := by
  cases hcur : s.runqueue.currentPid with
  | none =>
    rw [scheduleFromInterrupt_none hcur]
    exact h.congr rfl rfl rfl
  | some p => exact (h.scheduleFromInterrupt_some hcur input oldRsp).sane

end Scheduler

inductive QueueCall where
  | spawn (t : Task)
  | fork (mapper : PageMapper) (cr3 : ℕ) (words : ℕ → ℕ) (parentPid : Pid)
  | thread (words : ℕ → ℕ) (parentPid : Pid) (newStack : ℕ)
  | tick (input : TickInput) (oldRsp : ℕ)
  | moveToFront (pid : Pid)
  | sleep
  | wake (pid : Pid)
  | signal (pid : Pid) (signum : ℕ)
  | exit (code : ℤ)
  | exitDirect (pid : Pid) (code : ℤ)
  | reap (parentPid : Pid)
  | memory (vm : Vm)

namespace Kernel

/-- The calls of the scheduler leave the memory alone; what else happens to it is a call of
its own. -/
def serve (k : Kernel) : QueueCall → Kernel
  | .spawn t => { k with sched := k.sched.spawn t }
  | .fork mapper cr3 words parentPid => (k.forkTask mapper cr3 words parentPid).2
  | .thread words parentPid newStack => (k.spawnUserThread words parentPid newStack).2
  | .tick input oldRsp => { k with sched := (k.sched.scheduleFromInterrupt input oldRsp).2 }
  | .moveToFront pid => { k with sched := { k.sched with runqueue := k.sched.runqueue.moveToFront pid } }
  | .sleep => { k with sched := k.sched.sleepCurrent }
  | .wake pid => { k with sched := k.sched.wakePid pid }
  | .signal pid signum => { k with sched := k.sched.sendSignal pid signum }
  | .exit code => { k with sched := k.sched.exitCurrent code }
  | .exitDirect pid code => { k with sched := k.sched.exitCurrentDirect pid code }
  | .reap parentPid => { k with sched := (k.sched.reapZombieChild parentPid).2 }
  | .memory vm => { k with vm }

def Served (k : Kernel) (c : QueueCall) (k' : Kernel) : Prop := k' = k.serve c

variable {k : Kernel}

lemma forkTask_sched (k : Kernel) (mapper : PageMapper) (cr3 : ℕ) (words : ℕ → ℕ) (parentPid : Pid) :
    (k.forkTask mapper cr3 words parentPid).2.sched = { k.sched with nextPid := k.sched.nextPid + 1 } ∨
      ∃ t, (k.forkTask mapper cr3 words parentPid).2.sched = k.sched.spawn t := by
  unfold forkTask
  dsimp only
  cases k.sched.tasks parentPid with
  | none => exact .inl rfl
  | some parent =>
    dsimp only
    cases (k.vm.forkSpace mapper cr3 parent.cr3).2.cloneStack words with
    | none => exact .inl rfl
    | some st =>
      refine .inr ⟨{ parent.cloneShallow k.sched.nextPid (k.physOffset + st.1 + 4 * pageSize) with
        cr3 := (k.vm.forkSpace mapper cr3 parent.cr3).1 }, ?_⟩
      rfl

lemma spawnUserThread_sched (k : Kernel) (words : ℕ → ℕ) (parentPid : Pid) (newStack : ℕ) :
    (k.spawnUserThread words parentPid newStack).2.sched =
        { k.sched with nextPid := k.sched.nextPid + 1 } ∨
      ∃ t, (k.spawnUserThread words parentPid newStack).2.sched = k.sched.spawn t := by
  unfold spawnUserThread
  dsimp only
  cases k.sched.tasks parentPid with
  | none => exact .inl rfl
  | some parent =>
    cases k.vm.cloneStack words with
    | none => exact .inl rfl
    | some st =>
      refine .inr ⟨{ parent.cloneShallow k.sched.nextPid (k.physOffset + st.1 + 4 * pageSize) with
        parentPid }, ?_⟩
      rfl

lemma sane_of_spawned {s s' : Scheduler} (h : s.Sane)
    (hs : s' = { s with nextPid := s.nextPid + 1 } ∨ ∃ t, s' = s.spawn t) : s'.Sane := by
  rcases hs with hs | hs
  · rw [hs]
    exact h.skipPid
  · obtain ⟨t, ht⟩ := hs
    rw [ht]
    exact h.spawn t

open Scheduler in
lemma serve_sane (h : k.sched.Sane) (c : QueueCall) : (k.serve c).sched.Sane := by
  cases c with
  | spawn t => exact h.spawn t
  | fork mapper cr3 words parentPid => exact sane_of_spawned h (k.forkTask_sched mapper cr3 words parentPid)
  | thread words parentPid newStack => exact sane_of_spawned h (k.spawnUserThread_sched words parentPid newStack)
  | tick input oldRsp => exact h.scheduleFromInterrupt input oldRsp
  | moveToFront pid => exact h.moveToFront pid
  | sleep => exact sleepCurrent_calm.sane h
  | wake pid => exact wakePid_calm.sane h
  | signal pid signum => exact sendSignal_calm.sane h
  | exit code => exact exitCurrent_calm.sane h
  | exitDirect pid code => exact exitCurrentDirect_calm.sane h
  | reap parentPid => exact reapZombieChild_calm.sane h
  | memory vm => exact h

/-- The queue is well formed in every state of every run from boot. -/
theorem run_wellQueued {k₀ : Kernel} {cr3 : ℕ} (hboot : k₀.sched = Scheduler.boot cr3)
    {tr : List (Kernel × QueueCall)} (hrun : Run Served k₀ tr k) : (∀ x ∈ tr, x.1.sched.WellQueued) ∧ k.sched.WellQueued := by
  have hsane : (∀ x ∈ tr, x.1.sched.Sane) ∧ k.sched.Sane := by
    refine hrun.invariant (I := fun k => k.sched.Sane) (hboot ▸ Scheduler.boot_sane cr3) ?_
    intro k c k' hk hc
    rw [hc]
    exact serve_sane hk c
  exact ⟨fun x hx => (hsane.1 x hx).wellQueued, hsane.2.wellQueued⟩

lemma serve_slot (h : k.sched.runqueue.currentPid = none) (c : QueueCall) : (k.serve c).sched.runqueue.currentPid = none := by
  have hcalm : ∀ {s'}, Scheduler.Calm k.sched s' → s'.runqueue.currentPid = none := by
    intro s' hs
    refine Option.eq_none_iff_forall_ne_some.mpr fun p hp => ?_
    have hslot := hs.slot p hp
    rw [h] at hslot
    cases hslot
  have hspawned : ∀ {s'}, s' = { k.sched with nextPid := k.sched.nextPid + 1 } ∨ (∃ t, s' = k.sched.spawn t) →
      s'.runqueue.currentPid = none := by
    rintro s' (rfl | ⟨t, rfl⟩)
    · exact h
    · exact h
  cases c with
  | spawn | memory => exact h
  | fork mapper cr3 words parentPid => exact hspawned (k.forkTask_sched mapper cr3 words parentPid)
  | thread words parentPid newStack => exact hspawned (k.spawnUserThread_sched words parentPid newStack)
  | tick input oldRsp =>
    rw [serve, Scheduler.scheduleFromInterrupt_none h]
    exact h
  | moveToFront pid => exact RunQueue.moveToFront_currentPid.trans h
  | sleep => exact hcalm Scheduler.sleepCurrent_calm
  | wake pid => exact hcalm Scheduler.wakePid_calm
  | signal pid signum => exact hcalm Scheduler.sendSignal_calm
  | exit code => exact hcalm Scheduler.exitCurrent_calm
  | exitDirect pid code => exact hcalm Scheduler.exitCurrentDirect_calm
  | reap parentPid => exact hcalm Scheduler.reapZombieChild_calm

/-- Once the current slot is empty nothing fills it again: after any calls, a timer interrupt goes back to where it came
from, whatever is in the queue. -/
theorem slot_stays_empty (h : k.sched.runqueue.currentPid = none) (calls : List QueueCall) (input : TickInput) (oldRsp : ℕ) :
    ((calls.foldl serve k).sched.scheduleFromInterrupt input oldRsp).1 = oldRsp := by
  induction calls generalizing k with
  | nil => rw [List.foldl_nil, Scheduler.scheduleFromInterrupt_none h]
  | cons c calls ih => exact ih (serve_slot h c)

theorem slot_stays_empty_asleep : let k : Kernel := ⟨⟨Pmm.new (fun _ _ => 0), fun _ => none, 0⟩, Scheduler.boot 0x1000, 0⟩
    (([.spawn (Task.newIdle 7 0x2000), .wake idlePid].foldl serve (k.serve .sleep)).sched.scheduleFromInterrupt
      ⟨fun _ => [], none, fun _ => 0⟩ 8).1 = 8 := slot_stays_empty rfl _ _ 8

theorem run_wellQueued_woken : let k₀ : Kernel := ⟨⟨Pmm.new (fun _ _ => 0), fun _ => none, 0⟩, Scheduler.boot 0x1000, 0⟩
    let k := ((k₀.serve (.spawn (Task.newIdle 7 0x2000))).serve .sleep).serve (.wake idlePid)
    k.sched.runqueue.queue = [1, idlePid] ∧ k.sched.WellQueued := by
  refine ⟨by decide, ?_⟩
  exact (run_wellQueued rfl (((Run.nil.snoc rfl).snoc rfl).snoc rfl)).2

end Kernel
end NodeKernel
