import NodeKernel.Scheduler.Switching

/-!
# Progress and resumption

The scheduler together with the processor: the task whose kernel stack is in use, and
for each task the stack pointer at which it was last interrupted.
-/
namespace NodeKernel

open Function

structure Machine where
  sched : Scheduler
  onCpu : Pid
  frames : Pid → ℕ

inductive SchedEvent where
  | tick (input : TickInput) (oldRsp : ℕ)
  | sleepCurrent
  | wake (pid : Pid)
  | signal (pid : Pid) (signum : ℕ)
  | exitCurrent (code : ℤ)
  | exitCurrentDirect (pid : Pid) (code : ℤ)
  | reap (parent : Pid)
  | spawn (t : Task)

namespace Machine
open Scheduler

def boot (cr3 : ℕ) : Machine := ⟨Scheduler.boot cr3, idlePid, fun _ => 0⟩

/-- A timer interrupt suspends the task on the processor at `oldRsp`, and the processor
goes on with the task that is current afterwards. -/
def interrupt (m : Machine) (input : TickInput) (oldRsp : ℕ) : Machine :=
  let sched := (m.sched.scheduleFromInterrupt input oldRsp).2
  { sched
    onCpu := sched.runqueue.currentPid.getD m.onCpu
    frames := update m.frames m.onCpu oldRsp }

def apply (m : Machine) : SchedEvent → Machine
  | .tick input oldRsp => m.interrupt input oldRsp
  | .sleepCurrent => { m with sched := m.sched.sleepCurrent }
  | .wake pid => { m with sched := m.sched.wakePid pid }
  | .signal pid signum => { m with sched := m.sched.sendSignal pid signum }
  | .exitCurrent code => { m with sched := m.sched.exitCurrent code }
  | .exitCurrentDirect pid code => { m with sched := m.sched.exitCurrentDirect pid code }
  | .reap parent => { m with sched := (m.sched.reapZombieChild parent).2 }
  | .spawn t =>
    { m with
      sched := m.sched.spawn t
      frames := update m.frames m.sched.nextPid t.savedKernelRsp }

def Step (m : Machine) (e : SchedEvent) (m' : Machine) : Prop := m' = m.apply e

/-- Every task that is off the processor is saved where it was last interrupted. -/
structure Parked (m : Machine) : Prop where
  sane : m.sched.Sane
  saved : ∀ p w, m.sched.rspOf p = some w → p ≠ m.onCpu → w = m.frames p
  slot : ∀ p, m.sched.runqueue.currentPid = some p → p = m.onCpu

variable {m : Machine} {e : SchedEvent}

lemma Parked.calm (h : m.Parked) {s : Scheduler} (hs : Calm m.sched s) : Parked { m with sched := s } :=
  ⟨hs.sane h.sane, fun p w hw => h.saved p w (hs.rsp p w hw), fun p hp => h.slot p (hs.slot p hp)⟩

lemma Parked.spawn (h : m.Parked) (t : Task) : (m.apply (.spawn t)).Parked := by
  refine ⟨h.sane.spawn t, ?_, h.slot⟩
  intro p w hw hne
  change Option.map _ (if p = m.sched.nextPid then _ else m.sched.tasks p) = some w at hw
  change w = update m.frames m.sched.nextPid t.savedKernelRsp p
  by_cases hp : p = m.sched.nextPid
  · rw [if_pos hp] at hw
    rw [hp, update_self]
    exact (Option.some.inj hw).symm
  · rw [if_neg hp] at hw
    rw [update_of_ne hp]
    exact h.saved p w hw hne

/-- The returned stack pointer is the one at which the task now current was last
interrupted, this interrupt included. -/
def Resumes (m : Machine) (input : TickInput) (oldRsp : ℕ) : Prop :=
  ∀ p, (m.interrupt input oldRsp).sched.runqueue.currentPid = some p →
    (m.sched.scheduleFromInterrupt input oldRsp).1 = (m.interrupt input oldRsp).frames p

lemma Parked.interrupt (h : m.Parked) (input : TickInput) (oldRsp : ℕ) :
    (m.interrupt input oldRsp).Parked ∧ m.Resumes input oldRsp := by
  cases hcur : m.sched.runqueue.currentPid with
  | none =>
    have hrun := scheduleFromInterrupt_none hcur input oldRsp
    have hslot : (m.interrupt input oldRsp).sched.runqueue.currentPid = none := by
      unfold Machine.interrupt
      rw [hrun]
      exact hcur
    have hon : (m.interrupt input oldRsp).onCpu = m.onCpu := by
      unfold Machine.interrupt
      rw [hrun]
      change m.sched.runqueue.currentPid.getD m.onCpu = m.onCpu
      rw [hcur]
      rfl
    refine ⟨⟨?_, ?_, ?_⟩, ?_⟩
    · unfold Machine.interrupt
      rw [hrun]
      exact h.sane.congr rfl rfl rfl
    · intro p w hw hne
      rw [hon] at hne
      change w = update m.frames m.onCpu oldRsp p
      rw [update_of_ne hne]
      refine h.saved p w ?_ hne
      unfold Machine.interrupt at hw
      rwa [hrun] at hw
    · intro p hp
      rw [hslot] at hp
      cases hp
    · intro p hp
      rw [hslot] at hp
      cases hp
  | some c =>
    have hd := h.sane.scheduleFromInterrupt_some hcur input oldRsp
    have hc := h.slot c hcur
    -- after the interrupt the saved pointers agree with the frames everywhere
    have hall : ∀ p w, (m.sched.scheduleFromInterrupt input oldRsp).2.rspOf p = some w →
        w = update m.frames m.onCpu oldRsp p := by
      intro p w hw
      rcases hd.rsp p w hw with hp | hp
      · rw [hp.1, hp.2, hc, update_self]
      · rw [hc] at hp
        rw [update_of_ne hp.1]
        exact h.saved p w hp.2 hp.1
    obtain ⟨next, hnext, hrsp⟩ := hd.resumed
    refine ⟨⟨hd.sane, fun p w hw _ => hall p w hw, ?_⟩, ?_⟩
    · intro p hp
      change (m.sched.scheduleFromInterrupt input oldRsp).2.runqueue.currentPid = some p at hp
      change p = (m.sched.scheduleFromInterrupt input oldRsp).2.runqueue.currentPid.getD _
      rw [hp]
      rfl
    · intro p hp
      have hpn : next = p := Option.mem_unique hnext hp
      subst hpn
      exact hall next _ hrsp

lemma Parked.step (h : m.Parked) : (m.apply e).Parked := by
  cases e with
  | tick input oldRsp => exact (h.interrupt input oldRsp).1
  | sleepCurrent => exact h.calm sleepCurrent_calm
  | wake pid => exact h.calm wakePid_calm
  | signal pid signum => exact h.calm sendSignal_calm
  | exitCurrent code => exact h.calm exitCurrent_calm
  | exitCurrentDirect pid code => exact h.calm exitCurrentDirect_calm
  | reap parent => exact h.calm reapZombieChild_calm
  | spawn t => exact h.spawn t

lemma boot_parked (cr3 : ℕ) : (boot cr3).Parked := by
  refine ⟨boot_sane cr3, ?_, fun p hp => (Option.some.inj hp).symm⟩
  intro p w hw hne
  change Option.map _ (if p = idlePid then _ else none) = some w at hw
  change p ≠ idlePid at hne
  rw [if_neg hne] at hw
  cases hw

lemma run_parked {cr3 : ℕ} {tr : List (Machine × SchedEvent)} (hrun : Run Step (boot cr3) tr m) :
    (∀ x ∈ tr, x.1.Parked) ∧ m.Parked := by
  refine hrun.invariant (boot_parked cr3) ?_
  intro s e s' hs he
  rw [he]
  exact hs.step

def Blocked (m : Machine) : Prop := ∀ p, m.sched.runqueue.currentPid = some p →
  m.sched.stateOf p = some .sleeping ∨ m.sched.stateOf p = some .zombie

def HasRunnable (m : Machine) : Prop :=
  ∃ p ∈ m.sched.runqueue.queue, m.sched.stateOf p = some .runnable

def SavedAt (m : Machine) (rsp : ℕ) : Prop :=
  ∃ p, m.sched.stateOf p = some .runnable ∧ m.sched.rspOf p = some rsp

def Progresses (m : Machine) (input : TickInput) (oldRsp : ℕ) : Prop :=
  m.Blocked → m.HasRunnable → m.SavedAt (m.sched.scheduleFromInterrupt input oldRsp).1

def Meets (m : Machine) : SchedEvent → Prop
  | .tick input oldRsp => m.Progresses input oldRsp ∧ m.Resumes input oldRsp
  | _ => True

/-- A timer interrupt that finds the current slot empty while a task waits in the queue is
taken, by chance, at the saved stack pointer of a runnable task. -/
def SlotServed (m : Machine) : SchedEvent → Prop
  | .tick _ oldRsp => m.sched.runqueue.currentPid = none → m.HasRunnable → m.SavedAt oldRsp
  | _ => True

lemma Parked.blocked_iff (h : m.Parked) : m.Blocked ↔ m.sched.runqueue.currentPid = none := by
  constructor
  · intro hb
    cases hcur : m.sched.runqueue.currentPid with
    | none => rfl
    | some p =>
      have hst := h.sane.current p hcur
      have hbad := hb p hcur
      rcases hst with hst | hst
      · simp [hst] at hbad
      · simp [hst] at hbad
  · intro hcur p hp
    rw [hcur] at hp
    cases hp

lemma Parked.meets_iff (h : m.Parked) : m.Meets e ↔ m.SlotServed e := by
  cases e with
  | tick input oldRsp =>
    have hres := (h.interrupt input oldRsp).2
    constructor
    · intro hm hcur hq
      have hsaved := hm.1 (h.blocked_iff.mpr hcur) hq
      rwa [scheduleFromInterrupt_none hcur] at hsaved
    · intro hs
      refine ⟨?_, hres⟩
      intro hb hq
      have hcur := h.blocked_iff.mp hb
      rw [scheduleFromInterrupt_none hcur]
      exact hs hcur hq
  | _ => exact Iff.rfl

/-- Every timer interrupt of a run meets its contract exactly if none of them finds the
current slot empty while a task waits. -/
theorem run_meets_iff_slot_served {cr3 : ℕ} {tr : List (Machine × SchedEvent)} (hrun : Run Step (boot cr3) tr m) :
    (∀ x ∈ tr, x.1.Meets x.2) ↔ ∀ x ∈ tr, x.1.SlotServed x.2 := by
  have hpark := (run_parked hrun).1
  constructor
  · intro h x hx
    exact (hpark x hx).meets_iff.mp (h x hx)
  · intro h x hx
    exact (hpark x hx).meets_iff.mpr (h x hx)

def thread (rsp : ℕ) : Task := ⟨0, .runnable, rsp + 160, rsp, 0, 0, none, 0, 0, 0, 0, 0, 0, 0⟩

def quietInput : TickInput := ⟨fun _ => [], none, fun _ => 0⟩

/-- Two threads are started and the idle task uses up its time slice. -/
def twoThreads : List SchedEvent :=
  [.spawn (thread 0x1000), .spawn (thread 0x2000)] ++
    List.replicate 10 (.tick quietInput 0x9000)

theorem run_meets_twoThreads : ∃ tr m, Run Step (boot 0) tr m ∧ tr.map Prod.snd = twoThreads ∧
    m.sched.runqueue.currentPid = some 1 ∧ ∀ x ∈ tr, x.1.Meets x.2 := by
  obtain ⟨tr, hrun, hsnd, hpre⟩ := Run.of_labels apply (boot 0) twoThreads
  refine ⟨tr, _, hrun, hsnd, by decide, (run_meets_iff_slot_served hrun).mpr ?_⟩
  have hslot : ∀ k < twoThreads.length, ((twoThreads.take k).foldl apply (boot 0)).sched.runqueue.currentPid ≠ none := by decide
  intro x hx
  obtain ⟨k, hk, he⟩ := hpre x hx
  cases x.2 with
  | tick input oldRsp =>
    intro hnone
    exact absurd (he ▸ hnone) (hslot k hk)
  | _ => trivial

/-- In every state that can be reached, a timer interrupt goes on with the task that is then current where this task was
last interrupted. -/
theorem run_resumes {cr3 : ℕ} {tr : List (Machine × SchedEvent)} (hrun : Run Step (boot cr3) tr m) (input : TickInput)
    (oldRsp : ℕ) : m.Resumes input oldRsp := ((run_parked hrun).2.interrupt input oldRsp).2

theorem run_resumes_twoThreads : (twoThreads.foldl apply (boot 0)).Resumes quietInput 0x9000 := by
  obtain ⟨tr, hrun, -⟩ := Run.of_labels apply (boot 0) twoThreads
  exact run_resumes hrun quietInput 0x9000

/-- The first thread goes to sleep. The next timer interrupt finds the slot empty and
stays on its stack, although the second thread is ready. -/
theorem sleeper_keeps_processor : ∃ tr m, Run Step (boot 0) tr m ∧
    tr.map Prod.snd = twoThreads ++ [.sleepCurrent, .tick quietInput 0x1800] ∧ ¬ ∀ x ∈ tr, x.1.Meets x.2 := by
  obtain ⟨tr, hrun, hsnd, _⟩ := Run.of_labels apply (boot 0) (twoThreads ++ [SchedEvent.sleepCurrent])
  generalize hm : (twoThreads ++ [SchedEvent.sleepCurrent]).foldl apply (boot 0) = m at hrun
  refine ⟨tr ++ [(m, .tick quietInput 0x1800)], _, hrun.snoc rfl, ?_, ?_⟩
  · rw [List.map_append, hsnd]
    rfl
  · intro hall
    have hpark := (run_parked hrun).2
    have hlast := hpark.meets_iff.mp (hall (m, .tick quietInput 0x1800) (by simp))
    have hnone : m.sched.runqueue.currentPid = none := by
      subst hm
      decide
    have hready : m.HasRunnable := by
      subst hm
      exact ⟨2, by decide, by decide⟩
    obtain ⟨p, _, hp⟩ := hlast hnone hready
    have hnext : m.sched.nextPid = 3 := by
      subst hm
      decide
    have hnot : ∀ p < 3, m.sched.rspOf p ≠ some 0x1800 := by
      subst hm
      decide
    by_cases hlt : p < 3
    · exact hnot p hlt hp
    · have hfresh := hpark.sane.fresh p (hnext ▸ Nat.le_of_not_lt hlt)
      unfold rspOf at hp
      rw [hfresh] at hp
      cases hp

end Machine
end NodeKernel
