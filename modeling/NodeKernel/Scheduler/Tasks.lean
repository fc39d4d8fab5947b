import Mathlib.Algebra.Group.Nat.Defs
import Mathlib.Data.List.Basic

/-!
# Run queue, task table and timer interrupt

Round robin over the pids that are ready to run; the running pid is held apart in `currentPid`. What the prediction
modules and the stack memory answer during a timer interrupt is an argument of the interrupt.
-/
namespace NodeKernel

abbrev Pid := ℕ

def idlePid : Pid := 0

structure RunQueue where
  queue : List Pid
  timeslice : ℕ
  ticksLeft : ℕ
  currentPid : Option Pid

namespace RunQueue

def defaultTimeslice : ℕ := 10

def new : RunQueue := ⟨[], defaultTimeslice, defaultTimeslice, none⟩

def enqueue (rq : RunQueue) (pid : Pid) : RunQueue := { rq with queue := rq.queue ++ [pid] }

def moveToFront (rq : RunQueue) (pid : Pid) : RunQueue :=
  if pid ∈ rq.queue then { rq with queue := pid :: rq.queue.erase pid } else rq

def setCurrent (rq : RunQueue) (pid : Pid) : RunQueue := { rq with currentPid := some pid }

/-- The pids in the order in which they would run once the current one is put back. -/
def rotation (rq : RunQueue) : List Pid := rq.queue ++ rq.currentPid.toList

def scheduleNext (rq : RunQueue) (quantumOverride : Option ℕ) : Option Pid × RunQueue :=
  let next := rq.rotation.head?
  (next, { rq with
    queue := rq.rotation.tail
    currentPid := next
    ticksLeft := match quantumOverride with
      | some q => max 1 (min q 50)
      | none => rq.timeslice })

def tick (rq : RunQueue) (quantumOverride : Option ℕ) : Option Pid × RunQueue :=
  let rq := { rq with ticksLeft := rq.ticksLeft - 1 }
  if rq.ticksLeft = 0 then rq.scheduleNext quantumOverride else (none, rq)

def remove (rq : RunQueue) (pid : Pid) : RunQueue :=
  { rq with
    queue := rq.queue.filter (· ≠ pid)
    currentPid := if rq.currentPid = some pid then none else rq.currentPid }

variable {rq : RunQueue} {p q : Pid}

@[simp] lemma moveToFront_currentPid : (rq.moveToFront p).currentPid = rq.currentPid := by
  unfold moveToFront
  split <;> rfl

lemma moveToFront_perm : (rq.moveToFront p).queue.Perm rq.queue := by
  unfold moveToFront
  split
  next h => exact (List.perm_cons_erase h).symm
  · exact List.Perm.refl _

lemma moveToFront_rotation_perm : (rq.moveToFront p).rotation.Perm rq.rotation := by
  unfold rotation
  rw [moveToFront_currentPid]
  exact moveToFront_perm.append_right _

lemma foldl_moveToFront (l : List Pid) (rq : RunQueue) : (l.foldl moveToFront rq).currentPid = rq.currentPid ∧
      (l.foldl moveToFront rq).rotation.Perm rq.rotation := by
  induction l generalizing rq with
  | nil => exact ⟨rfl, List.Perm.refl _⟩
  | cons p l ih =>
    obtain ⟨hcur, hperm⟩ := ih (rq.moveToFront p)
    exact ⟨hcur.trans moveToFront_currentPid, hperm.trans moveToFront_rotation_perm⟩

/-- With a pid in the current slot a tick leaves some pid there, and the slot and the queue
together still hold the same pids. -/
theorem tick_some (h : rq.currentPid = some p) (quantum : Option ℕ) :
    ((rq.tick quantum).1 = none ∧ (rq.tick quantum).2.currentPid = some p ∧ (rq.tick quantum).2.queue = rq.queue) ∨
      ∃ next, (rq.tick quantum).1 = some next ∧ (rq.tick quantum).2.currentPid = some next ∧
        next :: (rq.tick quantum).2.queue = rq.rotation := by
  unfold tick
  dsimp only
  split
  · refine .inr ?_
    unfold scheduleNext
    have hrot : rq.rotation ≠ [] := by
      unfold rotation
      rw [h]
      simp
    obtain ⟨next, rest, hl⟩ := List.exists_cons_of_ne_nil hrot
    have hl' : ({ rq with ticksLeft := rq.ticksLeft - 1 } : RunQueue).rotation = next :: rest := hl
    rw [hl']
    exact ⟨next, rfl, rfl, hl.symm⟩
  · exact .inl ⟨rfl, h, rfl⟩

lemma remove_currentPid (h : (rq.remove p).currentPid = some q) : rq.currentPid = some q ∧ q ≠ p := by
  unfold remove at h
  split at h
  · cases h
  next hne =>
    refine ⟨h, ?_⟩
    intro he
    exact hne (he ▸ h)

lemma mem_remove : q ∈ (rq.remove p).queue ↔ q ∈ rq.queue ∧ q ≠ p := by
  simp [remove]

end RunQueue

inductive TaskState where
  | runnable
  | running
  | sleeping
  | zombie
  deriving DecidableEq, Repr

structure Task where
  pid : Pid
  state : TaskState
  kernelStackTop : ℕ
  savedKernelRsp : ℕ
  cr3 : ℕ
  parentPid : Pid
  exitCode : Option ℤ
  pendingSignals : ℕ
  runnableAt : ℕ
  schedLatencyTotalUs : ℕ
  schedCount : ℕ
  ticksRun : ℕ
  stackCanary : ℕ
  stackCanaryAddr : ℕ

def Task.newIdle (pid : Pid) (cr3 : ℕ) : Task :=
  ⟨pid, .running, 0, 0, cr3, 0, none, 0, 0, 0, 0, 0, 0, 0⟩

structure Scheduler where
  tasks : Pid → Option Task
  runqueue : RunQueue
  nextPid : Pid
  uptimeMs : ℕ

/-- What `schedule_from_interrupt` reads outside the task table: the predicted successors of
a pid, the predicted burst of the next task, and the words of the kernel stacks. -/
structure TickInput where
  successors : Pid → List Pid
  nextBurstTicks : Option ℕ
  stackWord : ℕ → ℕ

namespace Scheduler

def modifyTask (s : Scheduler) (pid : Pid) (f : Task → Task) : Scheduler :=
  { s with tasks := fun q => if q = pid then (s.tasks q).map f else s.tasks q }

def enqueue (s : Scheduler) (pid : Pid) : Scheduler :=
  { s with runqueue := s.runqueue.enqueue pid }

def stateOf (s : Scheduler) (pid : Pid) : Option TaskState := (s.tasks pid).map Task.state

def rspOf (s : Scheduler) (pid : Pid) : Option ℕ := (s.tasks pid).map Task.savedKernelRsp

def boot (cr3 : ℕ) : Scheduler :=
  { tasks := fun q => if q = idlePid then some (Task.newIdle idlePid cr3) else none
    runqueue := RunQueue.new.setCurrent idlePid
    nextPid := 1
    uptimeMs := 0 }

def spawn (s : Scheduler) (t : Task) : Scheduler :=
  { tasks := fun q => if q = s.nextPid then some { t with pid := s.nextPid, state := .runnable }
      else s.tasks q
    runqueue := s.runqueue.enqueue s.nextPid
    nextPid := s.nextPid + 1
    uptimeMs := s.uptimeMs }

def sleepCurrent (s : Scheduler) : Scheduler :=
  match s.runqueue.currentPid with
  | none => s
  | some pid =>
    let s := s.modifyTask pid (fun t => { t with state := .sleeping })
    { s with runqueue := s.runqueue.remove pid }

def wakePid (s : Scheduler) (pid : Pid) : Scheduler :=
  if s.stateOf pid = some .sleeping then
    (s.modifyTask pid (fun t => { t with state := .runnable, runnableAt := s.uptimeMs })).enqueue pid
  else s

def sendSignal (s : Scheduler) (pid : Pid) (signum : ℕ) : Scheduler :=
  if 64 ≤ signum then s
  else
    let shouldWake := s.stateOf pid = some .sleeping
    let s := s.modifyTask pid
      (fun t => { t with pendingSignals := t.pendingSignals ||| 1 <<< signum })
    if shouldWake then s.wakePid pid else s

def killTask (s : Scheduler) (pid : Pid) (_code : ℤ) : Scheduler := s.sendSignal pid 9

def markZombie (s : Scheduler) (pid : Pid) (code : ℤ) : Scheduler :=
  let s := s.modifyTask pid (fun t => { t with state := .zombie, exitCode := some code })
  { s with runqueue := s.runqueue.remove pid }

def notifyParent (s : Scheduler) (parentPid : Pid) : Scheduler :=
  if parentPid ≠ 0 then (s.wakePid parentPid).sendSignal parentPid 17 else s

def parentOf (s : Scheduler) (pid : Pid) : Pid := ((s.tasks pid).map Task.parentPid).getD 0

def exitCurrentDirect (s : Scheduler) (pid : Pid) (code : ℤ) : Scheduler :=
  (s.markZombie pid code).notifyParent (s.parentOf pid)

def exitCurrent (s : Scheduler) (code : ℤ) : Scheduler :=
  let pid := s.runqueue.currentPid.getD 0
  if pid ≠ 0 then (s.markZombie pid code).notifyParent (s.parentOf pid) else s

def findZombieChild (s : Scheduler) (parentPid : Pid) : Option (Pid × ℤ) :=
  (List.range s.nextPid).findSome? (fun pid =>
    match s.tasks pid with
    | some t =>
      if t.parentPid = parentPid ∧ t.state = .zombie then some (pid, t.exitCode.getD 0) else none
    | none => none)

def reapZombieChild (s : Scheduler) (parentPid : Pid) : Option (Pid × ℤ) × Scheduler :=
  match s.findZombieChild parentPid with
  | some (cpid, code) =>
    (some (cpid, code), { s with tasks := fun q => if q = cpid then none else s.tasks q })
  | none => (none, s)

def canaryMismatch (s : Scheduler) (input : TickInput) (pid : Pid) : Bool :=
  match s.tasks pid with
  | some t => t.stackCanaryAddr != 0 && input.stackWord t.stackCanaryAddr != t.stackCanary
  | none => false

def saveOutgoing (s : Scheduler) (pid : Pid) (oldRsp : ℕ) : Scheduler :=
  s.modifyTask pid (fun t =>
    { t with
      savedKernelRsp := oldRsp
      state := if t.state = .running then .runnable else t.state })

/-- A predicted successor that sleeps is made runnable ahead of its wakeup. -/
def preWake (s : Scheduler) (pid : Pid) : Scheduler :=
  if s.stateOf pid = some .sleeping then
    (s.modifyTask pid (fun t => { t with state := .runnable })).enqueue pid
  else s

def markRunning (s : Scheduler) (pid : Pid) (uptimeMs : ℕ) : Scheduler :=
  s.modifyTask pid (fun t =>
    { t with
      schedLatencyTotalUs :=
        min (t.schedLatencyTotalUs + (uptimeMs - t.runnableAt) * 1000 % 2 ^ 64) (2 ^ 64 - 1)
      schedCount := (t.schedCount + 1) % 2 ^ 64
      ticksRun := (t.ticksRun + 1) % 2 ^ 64
      state := .running })

def switchTo (s : Scheduler) (pid : Pid) (uptimeMs oldRsp : ℕ) : ℕ × Scheduler :=
  match s.tasks pid with
  | some t => (t.savedKernelRsp, s.markRunning pid uptimeMs)
  | none => (oldRsp, s)

/-- The stack pointer to continue on, and the state left behind. -/
def scheduleFromInterrupt (s : Scheduler) (input : TickInput) (oldRsp : ℕ) : ℕ × Scheduler :=
  let uptimeMs := s.uptimeMs
  let s := { s with uptimeMs := (uptimeMs + 10) % 2 ^ 64 }
  match s.runqueue.currentPid with
  | none => (oldRsp, s)
  | some pid =>
    let s := if s.canaryMismatch input pid then s.killTask pid 6 else s
    let s := s.saveOutgoing pid oldRsp
    let s := { s with
      runqueue := (input.successors pid).reverse.foldl RunQueue.moveToFront s.runqueue }
    match s.runqueue.tick input.nextBurstTicks with
    | (none, rq) => (oldRsp, { s with runqueue := rq })
    | (some nextPid, rq) =>
      let s := (input.successors nextPid).foldl preWake { s with runqueue := rq }
      s.switchTo nextPid uptimeMs oldRsp

end Scheduler
end NodeKernel
