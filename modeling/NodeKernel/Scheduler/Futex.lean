import NodeKernel.Scheduler.Switching

/-!
# Futexes

`sys_futex` as the steps between which other tasks may run, from the value check to the
sleep of `FUTEX_WAIT`, and from the drain of the queue to the last wake-up of `FUTEX_WAKE`.
-/
namespace NodeKernel

open Function List

structure FutexStats where
  avgHoldMs : ℕ
  waitStartMs : ℕ
  nWakes : ℕ

def spinThresholdMs : ℕ := 4
def spinMaxIters : ℕ := 8

/-- Where the `sys_futex` call of a task is. -/
inductive FutexPc where
  | idle
  | predict (uaddr : ℕ) (val : UInt32)
  | record (uaddr : ℕ) (val : UInt32) (predictedHold : ℕ)
  | spin (uaddr : ℕ) (val : UInt32) (iters : ℕ)
  | enqueue (uaddr : ℕ)
  | sleep (uaddr : ℕ)
  | parked (uaddr : ℕ)
  | hold (uaddr : ℕ) (pids : List Pid)
  | wake (pids : List Pid)
  deriving DecidableEq

/-- What happened to the futex of a waiter since it last compared the word with its value:
nothing, a store that changed the word, or such a store and then a `FUTEX_WAKE` for at
least as many waiters as were queued. -/
inductive WaitStage where
  | fresh
  | changed
  | covered
  deriving DecidableEq

namespace FutexPc

def futex : FutexPc → Option ℕ
  | .predict uaddr _ | .record uaddr _ _ | .spin uaddr _ _ | .enqueue uaddr | .sleep uaddr
  | .parked uaddr => some uaddr
  | .idle | .hold _ _ | .wake _ => none

def pids : FutexPc → List Pid
  | .hold _ pids | .wake pids => pids
  | _ => []

end FutexPc

structure FutexWorld where
  sched : Scheduler
  word : ℕ → UInt32
  waiters : ℕ → List Pid
  stats : ℕ → Option FutexStats
  pc : Pid → FutexPc
  stage : Pid → WaitStage

inductive FutexEvent where
  | wait (p : Pid) (uaddr : ℕ) (val : UInt32)
  | wake (p : Pid) (uaddr : ℕ) (val : UInt32)
  | requeue (p : Pid) (uaddr : ℕ) (val : UInt32)
  | advance (p : Pid)
  | store (uaddr : ℕ) (v : UInt32)
  | clock (ms : ℕ)

def Scheduler.dispatch (s : Scheduler) (pid : Pid) : Scheduler :=
  { s with runqueue := s.runqueue.setCurrent pid }

namespace Scheduler

variable {s : Scheduler} {p q : Pid}

lemma sleepCurrent_stateOf_ne (h : q ≠ p) : (s.dispatch p).sleepCurrent.stateOf q = s.stateOf q := stateOf_modifyTask_ne h

lemma wakePid_stateOf_self : (s.wakePid p).stateOf p ≠ some .sleeping := by
  unfold wakePid
  split
  next h =>
    have hrun : (s.modifyTask p (fun t =>
        { t with state := .runnable, runnableAt := s.uptimeMs })).stateOf p = some .runnable :=
      stateOf_modifyTask_self (by rw [h]; simp) (fun _ => rfl)
    intro hsl
    cases hrun.symm.trans hsl
  next h => exact h

lemma wakePid_stateOf_ne (h : q ≠ p) : (s.wakePid p).stateOf q = s.stateOf q := by
  unfold wakePid
  split
  · exact stateOf_modifyTask_ne h
  · rfl

end Scheduler

namespace FutexWorld

def goto (s : FutexWorld) (p : Pid) (pc : FutexPc) : FutexWorld :=
  { s with pc := update s.pc p pc }

/-- The value check at the start of `FUTEX_WAIT`. -/
def wait (s : FutexWorld) (p : Pid) (uaddr : ℕ) (val : UInt32) : FutexWorld :=
  if uaddr = 0 ∨ s.word uaddr ≠ val then s
  else { s.goto p (.predict uaddr val) with stage := update s.stage p .fresh }

/-- The locked part of `FUTEX_WAKE` and of the requeue calls: up to `toWake` pids leave the
queue. -/
def drain (s : FutexWorld) (p : Pid) (uaddr toWake : ℕ) (next : List Pid → FutexPc) : FutexWorld :=
  let list := s.waiters uaddr
  let n := min list.length toWake
  { s.goto p (next (list.take n)) with
    waiters := update s.waiters uaddr (list.drop n)
    stage := fun q =>
      if (s.pc q).futex = some uaddr ∧ s.stage q = .changed ∧ list.length ≤ toWake then .covered
      else s.stage q }

def store (s : FutexWorld) (uaddr : ℕ) (v : UInt32) : FutexWorld :=
  { s with
    word := update s.word uaddr v
    stage := fun q =>
      if (s.pc q).futex = some uaddr ∧ s.stage q = .fresh ∧ s.word uaddr ≠ v then .changed
      else s.stage q }

def recordStart (s : FutexWorld) (uaddr predictedHold : ℕ) : ℕ → Option FutexStats :=
  let entry := (s.stats uaddr).getD ⟨min predictedHold (spinThresholdMs - 1), 0, 0⟩
  update s.stats uaddr (some { entry with waitStartMs := s.sched.uptimeMs })

def recordHold (s : FutexWorld) (uaddr : ℕ) : ℕ → Option FutexStats :=
  update s.stats uaddr ((s.stats uaddr).map (fun e =>
    if e.waitStartMs > 0 then
      let held := s.sched.uptimeMs - e.waitStartMs
      ⟨(min (e.avgHoldMs * 7) (2 ^ 64 - 1) + held) % 2 ^ 64 / 8, 0, (e.nWakes + 1) % 2 ^ 64⟩
    else e))

def advance (s : FutexWorld) (p : Pid) : FutexWorld :=
  match s.pc p with
  | .idle => s
  | .predict uaddr val =>
    let predictedHold := ((s.stats uaddr).map FutexStats.avgHoldMs).getD (2 ^ 64 - 1)
    if predictedHold < spinThresholdMs then s.goto p (.record uaddr val predictedHold)
    else s.goto p (.enqueue uaddr)
  | .record uaddr val predictedHold =>
    { s.goto p (.spin uaddr val spinMaxIters) with stats := s.recordStart uaddr predictedHold }
  | .spin uaddr val iters =>
    if s.word uaddr ≠ val then s.goto p .idle
    else
      { s.goto p (if iters ≤ 1 then .enqueue uaddr else .spin uaddr val (iters - 1)) with
        stage := update s.stage p .fresh }
  | .enqueue uaddr =>
    { s.goto p (.sleep uaddr) with
      waiters := update s.waiters uaddr (s.waiters uaddr ++ [p]) }
  | .sleep uaddr => { s.goto p (.parked uaddr) with sched := (s.sched.dispatch p).sleepCurrent }
  | .parked _ => if s.sched.stateOf p = some .sleeping then s else s.goto p .idle
  | .hold uaddr pids => { s.goto p (.wake pids) with stats := s.recordHold uaddr }
  | .wake [] => s.goto p .idle
  | .wake (q :: rest) => { s.goto p (.wake rest) with sched := s.sched.wakePid q }

def apply (s : FutexWorld) : FutexEvent → FutexWorld
  | .wait p uaddr val => s.wait p uaddr val
  | .wake p uaddr val => s.drain p uaddr val.toNat (.hold uaddr)
  | .requeue p uaddr val => s.drain p uaddr val.toNat .wake
  | .advance p => s.advance p
  | .store uaddr v => s.store uaddr v
  | .clock ms => { s with sched := { s.sched with uptimeMs := ms } }

def Allowed (s : FutexWorld) : FutexEvent → Prop
  | .wait p _ _ | .wake p _ _ | .requeue p _ _ => s.pc p = .idle
  | _ => True

def Step (s : FutexWorld) (e : FutexEvent) (s' : FutexWorld) : Prop := s.Allowed e ∧ s' = s.apply e

/-- A call in progress is going to wake `p`. -/
def Due (s : FutexWorld) (p : Pid) : Prop := ∃ w, p ∈ (s.pc w).pids

/-- A task that sleeps on its futex, although the word has changed since it looked and all
waiters have been woken since, is about to be woken. -/
def NoneLost (s : FutexWorld) : Prop := ∀ p uaddr, s.stage p = .covered → s.pc p = .parked uaddr →
  s.sched.stateOf p = some .sleeping → s.Due p

/-- A task that has compared the word for the last time is not on the queue yet. -/
def Unqueued (s : FutexWorld) (p : Pid) (uaddr : ℕ) : Prop :=
  (∃ val, s.pc p = .predict uaddr val) ∨ s.pc p = .enqueue uaddr

/-- No waiter that missed a change of the word is off the queue when all waiters are taken, and
no waiter is still awake when it is woken. -/
def Timely (s : FutexWorld) : FutexEvent → Prop
  | .wake _ uaddr val | .requeue _ uaddr val => (s.waiters uaddr).length ≤ val.toNat →
      ∀ q, s.Unqueued q uaddr → s.stage q ≠ .changed
  | .advance p => ∀ q rest, s.pc p = .wake (q :: rest) → ∀ uaddr, s.pc q ≠ .sleep uaddr
  | _ => True

def Waiting (s : FutexWorld) (p : Pid) (uaddr : ℕ) : Prop :=
  s.pc p = .sleep uaddr ∨ s.pc p = .parked uaddr ∧ s.sched.stateOf p = some .sleeping

/-- Every waiter is on its queue or about to be woken, and those that a `FUTEX_WAKE` covered are
about to be woken. -/
structure Kept (s : FutexWorld) : Prop where
  queued : ∀ p uaddr, s.Waiting p uaddr → p ∈ s.waiters uaddr ∨ s.Due p
  due : ∀ p uaddr, s.stage p = .covered → s.Waiting p uaddr → s.Due p
  early : ∀ p uaddr, s.stage p = .covered → ¬ s.Unqueued p uaddr

lemma Kept.noneLost {s : FutexWorld} (h : s.Kept) : s.NoneLost := fun p uaddr hst hpc hsl => h.due p uaddr hst (.inr ⟨hpc, hsl⟩)

variable {s s' : FutexWorld} {p q : Pid} {uaddr : ℕ}

structure KeptAt (s : FutexWorld) (q : Pid) : Prop where
  queued : ∀ uaddr, s.Waiting q uaddr → q ∈ s.waiters uaddr ∨ s.Due q
  due : ∀ uaddr, s.stage q = .covered → s.Waiting q uaddr → s.Due q
  early : ∀ uaddr, s.stage q = .covered → ¬ s.Unqueued q uaddr

lemma Kept.at (h : s.Kept) (q : Pid) : s.KeptAt q := ⟨h.queued q, h.due q, h.early q⟩

lemma Kept.of_at (h : ∀ q, s.KeptAt q) : s.Kept := ⟨fun q => (h q).queued, fun q => (h q).due, fun q => (h q).early⟩

lemma Waiting.of_pc (h : s'.Waiting q uaddr) (hpc : s'.pc q = s.pc q)
    (hsleep : s'.sched.stateOf q = some .sleeping → s.sched.stateOf q = some .sleeping) : s.Waiting q uaddr := by
  unfold Waiting at h ⊢
  rw [hpc] at h
  exact h.imp_right (fun h => ⟨h.1, hsleep h.2⟩)

lemma Unqueued.of_pc (h : s'.Unqueued q uaddr) (hpc : s'.pc q = s.pc q) : s.Unqueued q uaddr := by
  unfold Unqueued at h ⊢
  rwa [hpc] at h

/-- For a task whose own part does not change it is enough that queues and wake-ups in
progress only grow and that it is not put to sleep. -/
theorem KeptAt.mono (h : s.KeptAt q) (hpc : s'.pc q = s.pc q) (hstage : s'.stage q = .covered → s.stage q = .covered)
    (hsleep : s'.sched.stateOf q = some .sleeping → s.sched.stateOf q = some .sleeping)
    (hqueue : ∀ uaddr, q ∈ s.waiters uaddr → q ∈ s'.waiters uaddr) (hdue : s.Due q → s'.Due q) : s'.KeptAt q := by
  have hwait : ∀ uaddr, s'.Waiting q uaddr → s.Waiting q uaddr := fun uaddr hw => hw.of_pc hpc hsleep
  refine ⟨?_, ?_, ?_⟩
  · intro uaddr hw
    exact (h.queued uaddr (hwait uaddr hw)).imp (hqueue uaddr) hdue
  · intro uaddr hst hw
    exact hdue (h.due uaddr (hstage hst) (hwait uaddr hw))
  · intro uaddr hst hun
    exact h.early uaddr (hstage hst) (hun.of_pc hpc)

lemma keptAt_of_awake (hw : ∀ uaddr, ¬ s.Waiting q uaddr) (hun : s.stage q = .covered → ∀ uaddr, ¬ s.Unqueued q uaddr) :
    s.KeptAt q :=
  ⟨fun uaddr h => absurd h (hw uaddr), fun uaddr _ h => absurd h (hw uaddr), fun uaddr hst => hun hst uaddr⟩

@[simp] lemma goto_pc_self (pc : FutexPc) : (s.goto p pc).pc p = pc := by
  change update s.pc p pc p = pc
  rw [update_self]

lemma goto_pc_ne (pc : FutexPc) (h : q ≠ p) : (s.goto p pc).pc q = s.pc q := by
  change update s.pc p pc q = s.pc q
  rw [update_of_ne h]

lemma Due.goto {pc : FutexPc} (h : s.Due q) (hpids : (s.pc p).pids ⊆ pc.pids) (hpc : s'.pc = (s.goto p pc).pc) : s'.Due q := by
  obtain ⟨w, hw⟩ := h
  refine ⟨w, ?_⟩
  rw [hpc]
  by_cases hwp : w = p
  · rw [hwp, goto_pc_self]
    exact hpids (hwp ▸ hw)
  · rw [goto_pc_ne pc hwp]
    exact hw

/-- A step of `p` that only moves its call on: what is left to show is about `p`. -/
theorem Kept.goto (h : s.Kept) {pc : FutexPc} (hpc : s'.pc = (s.goto p pc).pc) (hpids : (s.pc p).pids ⊆ pc.pids)
    (hstage : ∀ q, q ≠ p → s'.stage q = s.stage q)
    (hsleep : ∀ q, q ≠ p → s'.sched.stateOf q = some .sleeping → s.sched.stateOf q = some .sleeping)
    (hqueue : ∀ q uaddr, q ∈ s.waiters uaddr → q ∈ s'.waiters uaddr) (hp : s'.KeptAt p) : s'.Kept := by
  refine Kept.of_at (fun q => ?_)
  by_cases hqp : q = p
  · rw [hqp]
    exact hp
  · refine (h.at q).mono ?_ ?_ (hsleep q hqp) (hqueue q) (fun hdue => hdue.goto hpids hpc)
    · rw [hpc, goto_pc_ne pc hqp]
    · rw [hstage q hqp]
      exact id

/-- The same where nothing else changes but the words and the statistics. -/
theorem Kept.move (h : s.Kept) {c pc : FutexPc} (hc : s.pc p = c) (hpc : s'.pc = (s.goto p pc).pc)
    (hrest : s'.stage = s.stage ∧ s'.sched = s.sched ∧ s'.waiters = s.waiters) (hpids : c.pids ⊆ pc.pids)
    (hp : s'.KeptAt p) : s'.Kept := by
  obtain ⟨hstage, hsched, hwaiters⟩ := hrest
  refine h.goto hpc (hc ▸ hpids) (fun q _ => by rw [hstage]) (fun q _ => ?_) (fun q uaddr => ?_) hp
  · rw [hsched]
    exact id
  · rw [hwaiters]
    exact id

lemma Kept.wait (h : s.Kept) (hidle : s.pc p = .idle) (uaddr : ℕ) (val : UInt32) : (s.wait p uaddr val).Kept := by
  unfold FutexWorld.wait
  split
  · exact h
  · refine h.goto rfl (by rw [hidle]; exact nil_subset _)
      (fun q hq => update_of_ne hq _ _) (fun _ _ hst => hst) (fun _ _ hmem => hmem) ?_
    exact keptAt_of_awake (by simp [Waiting]) (by simp)

lemma Kept.store (h : s.Kept) (uaddr : ℕ) (v : UInt32) : (s.store uaddr v).Kept := by
  refine Kept.of_at (fun q => (h.at q).mono rfl ?_ id (fun _ hmem => hmem) id)
  intro hst
  unfold FutexWorld.store at hst
  dsimp only at hst
  split at hst
  · cases hst
  · exact hst

lemma Waiting.futex (h : s.Waiting q uaddr) : (s.pc q).futex = some uaddr := by
  rcases h with h | h
  · rw [h]; rfl
  · rw [h.1]; rfl

lemma Unqueued.futex (h : s.Unqueued q uaddr) : (s.pc q).futex = some uaddr := by
  rcases h with h | h
  · obtain ⟨val, h⟩ := h
    rw [h]; rfl
  · rw [h]; rfl

/-- A drain moves pids from the queue to the call, and if it takes all of them then every
waiter that it covers is among them. -/
theorem Kept.drain (h : s.Kept) (hidle : s.pc p = .idle) {toWake : ℕ} {next : List Pid → FutexPc}
    (hnext : ∀ l, (next l).pids = l ∧ (next l).futex = none)
    (htimely : (s.waiters uaddr).length ≤ toWake → ∀ q, s.Unqueued q uaddr → s.stage q ≠ .changed) :
    (s.drain p uaddr toWake next).Kept := by
  have hself : (s.drain p uaddr toWake next).pc p =
      next ((s.waiters uaddr).take (min (s.waiters uaddr).length toWake)) := goto_pc_self _
  have hother : ∀ q, q ≠ p → (s.drain p uaddr toWake next).pc q = s.pc q := fun q hq => goto_pc_ne _ hq
  have hdue : ∀ q, s.Due q → (s.drain p uaddr toWake next).Due q := fun q hq =>
    hq.goto (by rw [hidle]; exact nil_subset _) rfl
  have htaken : ∀ q ∈ (s.waiters uaddr).take (min (s.waiters uaddr).length toWake), (s.drain p uaddr toWake next).Due q := by
    intro q hq
    refine ⟨p, ?_⟩
    rw [hself, (hnext _).1]
    exact hq
  refine Kept.of_at (fun q => ?_)
  by_cases hqp : q = p
  · subst hqp
    have hnone : ((s.drain q uaddr toWake next).pc q).futex = none := by rw [hself, (hnext _).2]
    refine keptAt_of_awake (fun u hw => ?_) (fun _ u hun => ?_)
    · cases hw.futex.symm.trans hnone
    · cases hun.futex.symm.trans hnone
  · have hpc := hother q hqp
    have hwait : ∀ u, (s.drain p uaddr toWake next).Waiting q u → s.Waiting q u := fun u hw => hw.of_pc hpc id
    have hstage : (s.drain p uaddr toWake next).stage q = .covered →
        s.stage q = .covered ∨ (s.pc q).futex = some uaddr ∧ s.stage q = .changed ∧ (s.waiters uaddr).length ≤ toWake := by
      intro hst
      unfold FutexWorld.drain at hst
      dsimp only at hst
      split at hst
      next hc => exact .inr hc
      · exact .inl hst
    refine ⟨?_, ?_, ?_⟩
    · intro u hw
      cases h.queued q u (hwait u hw) with
      | inr hq => exact .inr (hdue q hq)
      | inl hq =>
        change q ∈ update s.waiters uaddr _ u ∨ _
        by_cases hu : u = uaddr
        · subst hu
          rw [update_self]
          rw [← take_append_drop (min (s.waiters u).length toWake) (s.waiters u)] at hq
          exact (mem_append.mp hq).symm.imp_right (htaken q)
        · rw [update_of_ne hu]
          exact .inl hq
    · intro u hst hw
      rcases hstage hst with hold | hnew
      · exact hdue q (h.due q u hold (hwait u hw))
      · obtain rfl : u = uaddr := Option.some.inj ((hwait u hw).futex.symm.trans hnew.1)
        cases h.queued q u (hwait u hw) with
        | inr hq => exact hdue q hq
        | inl hq =>
          refine htaken q ?_
          rw [Nat.min_eq_left hnew.2.2, take_length]
          exact hq
    · intro u hst hun
      rcases hstage hst with hold | hnew
      · exact h.early q u hold (hun.of_pc hpc)
      · obtain rfl : u = uaddr := Option.some.inj ((hun.of_pc hpc).futex.symm.trans hnew.1)
        exact htimely hnew.2.2 q (hun.of_pc hpc) hnew.2.1

/-- The single wake-up of `q` by `p`: it was asleep, so it is not lost. -/
theorem Kept.wakeOne (h : s.Kept) {rest : List Pid} (hpc : s.pc p = .wake (q :: rest))
    (hawake : ∀ uaddr, s.pc q ≠ .sleep uaddr) :
    ({ s.goto p (.wake rest) with sched := s.sched.wakePid q } : FutexWorld).Kept := by
  generalize hs' : ({ s.goto p (.wake rest) with sched := s.sched.wakePid q } : FutexWorld) = s'
  have hself : s'.pc p = .wake rest := by
    subst hs'
    exact goto_pc_self _
  have hother : ∀ r, r ≠ p → s'.pc r = s.pc r := by
    intro r hr
    subst hs'
    exact goto_pc_ne _ hr
  refine Kept.of_at (fun r => ?_)
  by_cases hrp : r = p
  · rw [hrp]
    exact keptAt_of_awake (by simp [Waiting, hself]) (by simp [Unqueued, hself])
  · by_cases hrq : r = q
    · -- the woken task does not wait any more
      subst hrq
      refine keptAt_of_awake (fun u hw => ?_) (fun hst u hun => ?_)
      · rcases hw with hw | hw
        · exact hawake u (hother r hrp ▸ hw)
        · subst hs'
          exact Scheduler.wakePid_stateOf_self hw.2
      · exact h.early r u (by subst hs'; exact hst) (hun.of_pc (hother r hrp))
    · refine (h.at r).mono (hother r hrp) ?_ ?_ ?_ ?_
      · subst hs'
        exact id
      · subst hs'
        intro hst
        rwa [Scheduler.wakePid_stateOf_ne hrq] at hst
      · subst hs'
        exact fun _ hmem => hmem
      · intro hdue
        obtain ⟨w, hw⟩ := hdue
        refine ⟨w, ?_⟩
        by_cases hwp : w = p
        · subst hwp
          rw [hpc] at hw
          rw [hself]
          exact (mem_cons.mp hw).resolve_left hrq
        · rw [hother w hwp]
          exact hw

lemma Kept.advance (h : s.Kept) (htimely : s.Timely (.advance p)) : (s.advance p).Kept := by
  unfold FutexWorld.advance
  cases hpc : s.pc p with
  | idle => exact h
  | predict uaddr val =>
    have hst : s.stage p ≠ .covered := fun hst => h.early p uaddr hst (.inl ⟨val, hpc⟩)
    dsimp only
    split
    · exact h.move hpc rfl ⟨rfl, rfl, rfl⟩ (nil_subset _) (keptAt_of_awake (by simp [Waiting]) (fun h => absurd h hst))
    · exact h.move hpc rfl ⟨rfl, rfl, rfl⟩ (nil_subset _) (keptAt_of_awake (by simp [Waiting]) (fun h => absurd h hst))
  | record uaddr val predictedHold =>
    exact h.move hpc rfl ⟨rfl, rfl, rfl⟩ (nil_subset _) (keptAt_of_awake (by simp [Waiting]) (by simp [Unqueued]))
  | spin uaddr val iters =>
    dsimp only
    split
    · exact h.move hpc rfl ⟨rfl, rfl, rfl⟩ (nil_subset _) (keptAt_of_awake (by simp [Waiting]) (by simp [Unqueued]))
    · refine h.goto rfl (by rw [hpc]; exact nil_subset _)
        (fun q hq => update_of_ne hq _ _) (fun _ _ => id) (fun _ _ => id) ?_
      refine keptAt_of_awake (fun u => ?_) (by simp)
      split <;> simp [Waiting]
  | enqueue uaddr =>
    have hst : s.stage p ≠ .covered := fun hst => h.early p uaddr hst (.inr hpc)
    refine h.goto rfl (by rw [hpc]; exact nil_subset _) (fun _ _ => rfl) (fun _ _ => id) ?_ ?_
    · intro q u hq
      change q ∈ update s.waiters uaddr _ u
      by_cases hu : u = uaddr
      · subst hu
        rw [update_self]
        exact mem_append_left _ hq
      · rw [update_of_ne hu]
        exact hq
    · refine ⟨?_, fun u hst' => absurd hst' hst, fun u hst' => absurd hst' hst⟩
      intro u hw
      have hu := hw.futex
      rw [goto_pc_self] at hu
      obtain rfl : uaddr = u := Option.some.inj hu
      refine .inl ?_
      change p ∈ update s.waiters uaddr _ uaddr
      rw [update_self]
      exact mem_append_right _ mem_cons_self
  | sleep uaddr =>
    have hdue : s.Due p → ({ s.goto p (.parked uaddr) with
        sched := (s.sched.dispatch p).sleepCurrent } : FutexWorld).Due p :=
      fun hd => hd.goto (by rw [hpc]; exact nil_subset _) rfl
    refine h.goto rfl (by rw [hpc]; exact nil_subset _) (fun _ _ => rfl) ?_ (fun _ _ => id) ?_
    · intro q hq hst
      rwa [Scheduler.sleepCurrent_stateOf_ne hq] at hst
    · have hwas : ∀ u, ({ s.goto p (.parked uaddr) with
          sched := (s.sched.dispatch p).sleepCurrent } : FutexWorld).Waiting p u → s.Waiting p u := by
        intro u hw
        have hu := hw.futex
        rw [goto_pc_self] at hu
        obtain rfl : uaddr = u := Option.some.inj hu
        exact .inl hpc
      refine ⟨fun u hw => (h.queued p u (hwas u hw)).imp_right hdue, fun u hst hw => hdue (h.due p u hst (hwas u hw)), ?_⟩
      intro u _ hun
      rcases hun with hun | hun
      · obtain ⟨val, hun⟩ := hun
        cases (goto_pc_self (s := s) (p := p) (.parked uaddr)).symm.trans hun
      · cases (goto_pc_self (s := s) (p := p) (.parked uaddr)).symm.trans hun
  | parked uaddr =>
    dsimp only
    split
    · exact h
    · exact h.move hpc rfl ⟨rfl, rfl, rfl⟩ (nil_subset _) (keptAt_of_awake (by simp [Waiting]) (by simp [Unqueued]))
  | hold uaddr pids =>
    exact h.move hpc rfl ⟨rfl, rfl, rfl⟩ (List.Subset.refl _) (keptAt_of_awake (by simp [Waiting]) (by simp [Unqueued]))
  | wake pids =>
    cases pids with
    | nil =>
      exact h.move hpc rfl ⟨rfl, rfl, rfl⟩ (nil_subset _) (keptAt_of_awake (by simp [Waiting]) (by simp [Unqueued]))
    | cons q rest => exact h.wakeOne hpc (htimely q rest hpc)

lemma Kept.step {e : FutexEvent} (h : s.Kept) (hallowed : s.Allowed e) (htimely : s.Timely e) : (s.apply e).Kept := by
  cases e with
  | wait p uaddr val => exact h.wait hallowed uaddr val
  | wake | requeue => exact h.drain hallowed (fun _ => ⟨rfl, rfl⟩) htimely
  | advance p => exact h.advance htimely
  | store uaddr v => exact h.store uaddr v
  | clock ms => exact ⟨h.queued, h.due, h.early⟩

def start (sched : Scheduler) (word : ℕ → UInt32) (stats : ℕ → Option FutexStats) : FutexWorld :=
  ⟨sched, word, fun _ => [], stats, fun _ => .idle, fun _ => .fresh⟩

lemma start_kept (sched : Scheduler) (word : ℕ → UInt32) (stats : ℕ → Option FutexStats) : (start sched word stats).Kept :=
  Kept.of_at (fun _ => keptAt_of_awake (by simp [Waiting, start]) (by simp [start]))

/-- In a run whose wake-ups are all timely, no waiter is ever lost. -/
theorem run_noneLost {sched : Scheduler} {word : ℕ → UInt32} {stats : ℕ → Option FutexStats}
    {tr : List (FutexWorld × FutexEvent)} (hrun : Run Step (start sched word stats) tr s)
    (htimely : ∀ x ∈ tr, x.1.Timely x.2) : (∀ x ∈ tr, x.1.NoneLost) ∧ s.NoneLost := by
  have hinv : (∀ x ∈ tr, x.1.Kept) ∧ s.Kept := by
    refine hrun.invariant_of (start_kept sched word stats) ?_ htimely
    intro s e s' hs hC hstep
    rw [hstep.2]
    exact hs.step hstep.1 hC
  exact ⟨fun x hx => (hinv.1 x hx).noneLost, hinv.2.noneLost⟩

def sample : FutexWorld :=
  start ((Scheduler.boot 0x1000).spawn (Task.newIdle 1 0x1000)) (fun _ => 0) (fun _ => none)

lemma sample_snoc {tr : List (FutexWorld × FutexEvent)} (hrun : Run Step sample tr s) (e : FutexEvent)
    (he : s.Allowed e) : Run Step sample (tr ++ [(s, e)]) (s.apply e) := hrun.snoc ⟨he, rfl⟩

/-- Task 1 sleeps on the word at 8 before it changes, and is woken. -/
theorem run_noneLost_woken : ∃ tr s, Run Step sample tr s ∧ s.stage 1 = .covered ∧
    s.pc 1 = .parked 8 ∧ s.sched.stateOf 1 = some .runnable ∧ s.NoneLost := by
  have hsleep := sample_snoc (sample_snoc (sample_snoc (sample_snoc Run.nil (.wait 1 8 0) rfl)
    (.advance 1) trivial) (.advance 1) trivial) (.advance 1) trivial
  have hwake := sample_snoc (sample_snoc (sample_snoc (sample_snoc hsleep (.store 8 1) trivial)
    (.wake 0 8 1) rfl) (.advance 0) trivial) (.advance 0) trivial
  refine ⟨_, _, hwake, by decide, by decide, by decide, (run_noneLost hwake ?_).2⟩
  simp only [nil_append, cons_append, forall_mem_cons]
  refine ⟨trivial, ?_, ?_, ?_, trivial, ?_, ?_, ?_, fun x hx => absurd hx not_mem_nil⟩
  · intro q rest hpc
    cases hpc
  · intro q rest hpc
    cases hpc
  · intro q rest hpc
    cases hpc
  · intro _ q hq
    match q with
    | 0 => exact hq.elim (fun ⟨_, h⟩ => by cases h) (fun h => by cases h)
    | 1 => exact hq.elim (fun ⟨_, h⟩ => by cases h) (fun h => by cases h)
    | q + 2 => exact hq.elim (fun ⟨_, h⟩ => by cases h) (fun h => by cases h)
  · intro q rest hpc
    cases hpc
  · intro q rest hpc uaddr
    obtain ⟨rfl, rfl⟩ := List.cons.inj (FutexPc.wake.inj hpc)
    intro h
    cases h

/-- Task 1 looks at the word at 8 and is preempted; the word changes and all waiters are woken;
then task 1 goes on to sleep. -/
theorem late_waiter_is_lost : ∃ tr s, Run Step sample tr s ∧ s.stage 1 = .covered ∧
    s.pc 1 = .parked 8 ∧ s.sched.stateOf 1 = some .sleeping ∧ ¬ s.Due 1 := by
  have hcheck := sample_snoc (sample_snoc Run.nil (.wait 1 8 0) rfl) (.store 8 1) trivial
  have hwake := sample_snoc (sample_snoc (sample_snoc hcheck (.wake 0 8 1000) rfl)
    (.advance 0) trivial) (.advance 0) trivial
  have hsleep := sample_snoc (sample_snoc (sample_snoc hwake (.advance 1) trivial)
    (.advance 1) trivial) (.advance 1) trivial
  refine ⟨_, _, hsleep, by decide, by decide, by decide, ?_⟩
  intro hdue
  obtain ⟨w, hw⟩ := hdue
  match w with
  | 0 => exact absurd hw (by decide)
  | 1 => exact absurd hw (by decide)
  | w + 2 => exact absurd hw not_mem_nil

end FutexWorld
end NodeKernel
