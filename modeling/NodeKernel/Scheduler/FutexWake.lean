import Mathlib.Data.Set.Card
import NodeKernel.Scheduler.Futex

/-!
# Whom a futex call wakes

`FUTEX_WAIT` and `FUTEX_WAKE` as whole calls of tasks in several address spaces. The wait queue is
found by the virtual address alone, and only `FUTEX_WAKE` takes entries off it.
-/
namespace NodeKernel

open Function List

/-- The first `n` entries of a queue that has all of `B` are served as the first `n` of `B` should be
exactly if they are different members of `B`. -/
theorem take_served_iff {α : Type*} (l : List α) (n : ℕ) {S B : Set α} (hBS : B ⊆ S) (hBl : ∀ x ∈ B, x ∈ l) :
    ({x | x ∈ S ∧ x ∈ l.take n} ⊆ B ∧ {x | x ∈ S ∧ x ∈ l.take n}.ncard = min n B.ncard ∧
        (l.take n).length = {x | x ∈ S ∧ x ∈ l.take n}.ncard) ↔ (l.take n).Nodup ∧ ∀ x ∈ l.take n, x ∈ B := by
  classical
  have hset : {x | x ∈ S ∧ x ∈ l.take n} = ↑((l.take n).toFinset.filter (· ∈ S)) := by
    ext x
    simp [and_comm]
  constructor
  · rintro ⟨hsub, -, hlen⟩
    rw [hset, Set.ncard_coe_finset] at hlen
    -- the list is no longer than the set of those of its entries that are in `S`
    have hle := Finset.card_filter_le (l.take n).toFinset (· ∈ S)
    have hle' := toFinset_card_le (l.take n)
    have hnodup : (l.take n).Nodup := by
      rw [← Multiset.coe_nodup, ← Multiset.toFinset_card_eq_card_iff_nodup]
      exact Nat.le_antisymm hle' (hlen.trans_le hle)
    have hall := Finset.card_filter_eq_iff.mp (Nat.le_antisymm hle (hle'.trans_eq hlen))
    exact ⟨hnodup, fun x hx => hsub ⟨hall x (mem_toFinset.mpr hx), hx⟩⟩
  · rintro ⟨hnodup, hall⟩
    have hwhole : (l.take n).toFinset.filter (· ∈ S) = (l.take n).toFinset :=
      Finset.filter_true_of_mem fun x hx => hBS (hall x (mem_toFinset.mp hx))
    have hfin : B.Finite := l.toFinset.finite_toSet.subset fun x hx => by simpa using hBl x hx
    have hge : (l.take n).length ≤ B.ncard := by
      rw [← toFinset_card_of_nodup hnodup, ← Set.ncard_coe_finset]
      exact Set.ncard_le_ncard (fun x hx => hall x (by simpa using hx)) hfin
    rw [hset, hwhole, Set.ncard_coe_finset, toFinset_card_of_nodup hnodup]
    refine ⟨fun x hx => hall x (by simpa using hx), ?_, rfl⟩
    obtain hn | hn := Nat.le_total n l.length
    · rw [length_take, Nat.min_eq_left hn] at hge ⊢
      exact (Nat.min_eq_left hge).symm
    · rw [take_of_length_le hn] at hge ⊢ hnodup
      have hle : B.ncard ≤ l.length := by
        refine (Set.ncard_le_ncard (t := ↑l.toFinset) (fun x hx => by simpa using hBl x hx)).trans ?_
        rw [Set.ncard_coe_finset]
        exact toFinset_card_le l
      rw [Nat.min_eq_right (hle.trans hn)]
      exact Nat.le_antisymm hge hle

namespace Scheduler

variable {s : Scheduler} {p : Pid}

def cr3Of (s : Scheduler) (pid : Pid) : Option ℕ := (s.tasks pid).map Task.cr3

def Rouses (s s' : Scheduler) : Prop := ∀ q, s'.stateOf q = some .sleeping → s.stateOf q = some .sleeping

lemma Rouses.refl (s : Scheduler) : Rouses s s := fun _ h => h

lemma Rouses.trans {s t u : Scheduler} (h : Rouses s t) (h' : Rouses t u) : Rouses s u := fun q hq => h q (h' q hq)

lemma Rouses.of_stateOf {s s' : Scheduler} (h : s'.stateOf = s.stateOf) : Rouses s s' := by
  intro q hq
  rwa [h] at hq

lemma wakePid_rouses : Rouses s (s.wakePid p) := by
  intro q hq
  by_cases hqp : q = p
  · rw [hqp] at hq
    exact absurd hq wakePid_stateOf_self
  · rwa [wakePid_stateOf_ne hqp] at hq

lemma sendSignal_rouses {signum : ℕ} : Rouses s (s.sendSignal p signum) := by
  have hset : Rouses s (s.modifyTask p
      (fun t => { t with pendingSignals := t.pendingSignals ||| 1 <<< signum })) :=
    Rouses.of_stateOf (stateOf_modifyTask_keep fun _ => rfl)
  unfold sendSignal
  dsimp only
  split_ifs
  · exact Rouses.refl s
  · exact hset.trans wakePid_rouses
  · exact hset

lemma markZombie_rouses {code : ℤ} : Rouses s (s.markZombie p code) := by
  intro q hq
  change (s.modifyTask p (fun t => { t with state := .zombie, exitCode := some code })).stateOf q = _ at hq
  by_cases hqp : q = p
  · subst hqp
    unfold stateOf at hq
    rw [modifyTask_self] at hq
    cases htask : s.tasks q with
    | none | some => rw [htask] at hq; cases hq
  · rwa [stateOf_modifyTask_ne hqp] at hq

lemma exitCurrentDirect_rouses {code : ℤ} : Rouses s (s.exitCurrentDirect p code) := by
  have hzombie : Rouses s (s.markZombie p code) := markZombie_rouses
  unfold exitCurrentDirect notifyParent
  refine hzombie.trans ?_
  split_ifs
  · exact wakePid_rouses.trans sendSignal_rouses
  · exact Rouses.refl _

lemma foldl_wakePid_sleeping (l : List Pid) (s : Scheduler) (q : Pid) :
    (l.foldl wakePid s).stateOf q = some .sleeping ↔ s.stateOf q = some .sleeping ∧ q ∉ l := by
  induction l generalizing s with
  | nil => simp
  | cons p l ih =>
    rw [foldl_cons, ih, mem_cons, not_or]
    by_cases hqp : q = p
    · subst hqp
      simp [wakePid_stateOf_self]
    · simp [wakePid_stateOf_ne hqp, hqp]

end Scheduler

/-- The tasks and the wait queues. `call` is a record of the run: the futex of the `FUTEX_WAIT` call that
a task is in. -/
structure WakeWorld where
  sched : Scheduler
  waiters : ℕ → List Pid
  call : Pid → Option ℕ

/-- `wait` is a `FUTEX_WAIT` that parks its task, whatever its timeout is, and `resume` its return. `rouse`
and `sleep` are the calls of `wake_pid` and `sleep_current` in the rest of the kernel. -/
inductive WakeEvent where
  | wait (p : Pid) (uaddr : ℕ)
  | resume (p : Pid)
  | wake (p : Pid) (uaddr : ℕ) (val : UInt32)
  | signal (p : Pid) (signum : ℕ)
  | exit (p : Pid) (code : ℤ)
  | rouse (p : Pid)
  | sleep (p : Pid)

namespace WakeWorld

def futexWait (s : WakeWorld) (p : Pid) (uaddr : ℕ) : WakeWorld :=
  { sched := (s.sched.dispatch p).sleepCurrent
    waiters := update s.waiters uaddr (s.waiters uaddr ++ [p])
    call := update s.call p (some uaddr) }

def futexWake (s : WakeWorld) (uaddr : ℕ) (val : UInt32) : WakeWorld × ℕ :=
  let list := s.waiters uaddr
  let n := min list.length val.toNat
  let pids := list.take n
  ({ s with sched := pids.foldl Scheduler.wakePid s.sched
            waiters := update s.waiters uaddr (list.drop n) }, pids.length)

def next (s : WakeWorld) : WakeEvent → WakeWorld
  | .wait p uaddr => s.futexWait p uaddr
  | .resume p => { s with call := update s.call p none }
  | .wake _ uaddr val => (s.futexWake uaddr val).1
  | .signal p signum => { s with sched := s.sched.sendSignal p signum }
  | .exit p code => { s with sched := s.sched.exitCurrentDirect p code, call := update s.call p none }
  | .rouse p => { s with sched := s.sched.wakePid p }
  | .sleep p => { s with sched := (s.sched.dispatch p).sleepCurrent }

/-- A task that sleeps does nothing, and one that is in a `FUTEX_WAIT` call makes no other. -/
def Allowed (s : WakeWorld) : WakeEvent → Prop
  | .wait p _ | .wake p _ _ | .sleep p => s.sched.stateOf p ≠ some .sleeping ∧ s.call p = none
  | .resume p | .exit p _ => s.sched.stateOf p ≠ some .sleeping
  | .signal _ _ | .rouse _ => True

def Step (s : WakeWorld) (e : WakeEvent) (s' : WakeWorld) : Prop := s.Allowed e ∧ s' = s.next e

def start (sched : Scheduler) : WakeWorld := ⟨sched, fun _ => [], fun _ => none⟩

def BlockedOn (s : WakeWorld) (uaddr : ℕ) (q : Pid) : Prop :=
  s.call q = some uaddr ∧ s.sched.stateOf q = some .sleeping

/-- The tasks of the address space of `p` that are blocked on the address. -/
def blocked (s : WakeWorld) (p : Pid) (uaddr : ℕ) : Set Pid :=
  {q | s.BlockedOn uaddr q ∧ s.sched.cr3Of q = s.sched.cr3Of p}

def woken (s s' : WakeWorld) : Set Pid :=
  {q | s.sched.stateOf q = some .sleeping ∧ s'.sched.stateOf q ≠ some .sleeping}

/-- A `FUTEX_WAKE` wakes as many blocked tasks of its own address space as it is asked to, or all of
them, and no others, and returns their number. -/
def WakesRight (s : WakeWorld) : WakeEvent → Prop
  | .wake p uaddr val =>
    woken s (s.futexWake uaddr val).1 ⊆ s.blocked p uaddr ∧
    (woken s (s.futexWake uaddr val).1).ncard = min val.toNat (s.blocked p uaddr).ncard ∧
    (s.futexWake uaddr val).2 = (woken s (s.futexWake uaddr val).1).ncard
  | _ => True

/-- The entries that a `FUTEX_WAKE` takes are different tasks, of its own address space, that are still
blocked on the address. -/
def EntriesLive (s : WakeWorld) : WakeEvent → Prop
  | .wake p uaddr val =>
    ((s.waiters uaddr).take val.toNat).Nodup ∧ ∀ q ∈ (s.waiters uaddr).take val.toNat, q ∈ s.blocked p uaddr
  | _ => True

def Queued (s : WakeWorld) : Prop := ∀ uaddr q, s.BlockedOn uaddr q → q ∈ s.waiters uaddr

/-! ## Queues -/

lemma Queued.mono {s s' : WakeWorld} (h : s.Queued) (hwait : ∀ uaddr q, s'.BlockedOn uaddr q → s.BlockedOn uaddr q)
    (hqueue : s'.waiters = s.waiters) : s'.Queued := by
  intro uaddr q hq
  rw [hqueue]
  exact h uaddr q (hwait uaddr q hq)

lemma Queued.futexWait {s : WakeWorld} (h : s.Queued) (p : Pid) (uaddr : ℕ) : (s.futexWait p uaddr).Queued := by
  intro a q ⟨hcall, hsleep⟩
  dsimp only [WakeWorld.futexWait] at hcall hsleep ⊢
  by_cases hq : q = p
  · rw [hq, update_self] at hcall
    cases hcall
    rw [update_self, hq]
    exact mem_append_right _ mem_cons_self
  · rw [update_of_ne hq] at hcall
    rw [Scheduler.sleepCurrent_stateOf_ne hq] at hsleep
    have hmem := h a q ⟨hcall, hsleep⟩
    by_cases ha : a = uaddr
    · rw [ha, update_self]
      exact mem_append_left _ (ha ▸ hmem)
    · rwa [update_of_ne ha]

lemma Queued.futexWake {s : WakeWorld} (h : s.Queued) (uaddr : ℕ) (val : UInt32) : (s.futexWake uaddr val).1.Queued := by
  intro a q ⟨hcall, hsleep⟩
  dsimp only [WakeWorld.futexWake] at hcall hsleep ⊢
  obtain ⟨hsleep, hleft⟩ := (Scheduler.foldl_wakePid_sleeping _ _ _).mp hsleep
  have hmem := h a q ⟨hcall, hsleep⟩
  by_cases ha : a = uaddr
  · subst ha
    rw [update_self]
    rw [← take_append_drop (min (s.waiters a).length val.toNat) (s.waiters a)] at hmem
    exact (mem_append.mp hmem).resolve_left hleft
  · rwa [update_of_ne ha]

lemma Queued.step {s s' : WakeWorld} {e : WakeEvent} (h : s.Queued) (hs : Step s e s') : s'.Queued := by
  obtain ⟨hallowed, rfl⟩ := hs
  have hreturn : ∀ {p : Pid} {sched : Scheduler}, s.sched.Rouses sched →
      ({ s with sched, call := update s.call p none } : WakeWorld).Queued := by
    intro p sched hrouses
    refine h.mono (fun uaddr q hq => ?_) rfl
    obtain ⟨hcall, hsleep⟩ := hq
    dsimp only at hcall
    by_cases hqp : q = p
    · rw [hqp, update_self] at hcall
      cases hcall
    · rw [update_of_ne hqp] at hcall
      exact ⟨hcall, hrouses q hsleep⟩
  have hrouse : ∀ {sched : Scheduler}, s.sched.Rouses sched → ({ s with sched } : WakeWorld).Queued :=
    fun hrouses => h.mono (fun _ q hq => ⟨hq.1, hrouses q hq.2⟩) rfl
  cases e with
  | wait p uaddr => exact h.futexWait p uaddr
  | resume p => exact hreturn (Scheduler.Rouses.refl _)
  | wake p uaddr val => exact h.futexWake uaddr val
  | signal p signum => exact hrouse Scheduler.sendSignal_rouses
  | exit p code => exact hreturn Scheduler.exitCurrentDirect_rouses
  | rouse p => exact hrouse Scheduler.wakePid_rouses
  | sleep p =>
    refine h.mono (fun uaddr q ⟨hcall, hsleep⟩ => ⟨hcall, ?_⟩) rfl
    have hne : q ≠ p := by
      rintro rfl
      cases hallowed.2.symm.trans hcall
    exact (Scheduler.sleepCurrent_stateOf_ne hne).symm.trans hsleep

lemma woken_futexWake (s : WakeWorld) (uaddr : ℕ) (val : UInt32) : woken s (s.futexWake uaddr val).1 =
      {q | s.sched.stateOf q = some .sleeping ∧ q ∈ (s.waiters uaddr).take val.toNat} := by
  ext q
  have htake : (s.waiters uaddr).take (min (s.waiters uaddr).length val.toNat) = (s.waiters uaddr).take val.toNat := by
    rw [Nat.min_comm]
    exact take_eq_take_min.symm
  change _ ∧ ¬ Scheduler.stateOf (List.foldl _ _ _) q = _ ↔ _
  rw [Scheduler.foldl_wakePid_sleeping, htake, not_and, not_not]
  exact and_congr_right fun hsleep => ⟨fun h => h hsleep, fun h _ => h⟩

lemma Queued.wakesRight_iff {s : WakeWorld} (h : s.Queued) (e : WakeEvent) : s.WakesRight e ↔ s.EntriesLive e := by
  cases e with
  | wake p uaddr val =>
    have hlen : (s.futexWake uaddr val).2 = ((s.waiters uaddr).take val.toNat).length := by
      simp [WakeWorld.futexWake, Nat.min_comm]
    unfold WakesRight EntriesLive
    dsimp only
    rw [woken_futexWake, hlen]
    exact take_served_iff _ _ (S := {q | s.sched.stateOf q = some .sleeping}) (fun q hq => hq.1.2)
      fun q hq => h uaddr q hq.1
  | _ => exact Iff.rfl

lemma queued_start (sched : Scheduler) : (start sched).Queued := by
  rintro uaddr q ⟨hcall, -⟩
  cases hcall

/-- In every run the `FUTEX_WAKE` calls wake the right number of the right tasks exactly if each takes
only live entries of its own address space. -/
theorem run_wakesRight_iff {sched : Scheduler} {tr : List (WakeWorld × WakeEvent)} {s : WakeWorld}
    (h : Run Step (start sched) tr s) : (∀ x ∈ tr, x.1.WakesRight x.2) ↔ ∀ x ∈ tr, x.1.EntriesLive x.2 :=
  h.forall_iff_of (I := Queued) (P := WakesRight) (C := EntriesLive) (queued_start sched)
    (fun _ _ _ hI _ hs => hI.step hs) fun _ e _ hI _ => hI.wakesRight_iff e

def pair : Scheduler :=
  ((Scheduler.boot 0x1000).spawn (Task.newIdle 1 0x2000)).spawn (Task.newIdle 2 0x3000)

theorem run_wakesRight_iff_pair : let tr : List (WakeWorld × WakeEvent) := [(start pair, .wait 1 8)]
    (∀ x ∈ tr, x.1.WakesRight x.2) ↔ ∀ x ∈ tr, x.1.EntriesLive x.2 :=
  run_wakesRight_iff (Run.nil.snoc (show Step (start pair) (.wait 1 8) _ from ⟨⟨by decide, rfl⟩, rfl⟩))

/-- In every state that can be reached, a `FUTEX_WAKE` for as many tasks as the queue holds leaves no task blocked on the
address. -/
theorem run_wakes_all {sched : Scheduler} {tr : List (WakeWorld × WakeEvent)} {s : WakeWorld} (h : Run Step (start sched) tr s)
    (uaddr : ℕ) (val : UInt32) (hval : (s.waiters uaddr).length ≤ val.toNat) (q : Pid) :
    ¬ (s.futexWake uaddr val).1.BlockedOn uaddr q := by
  have hqueued : s.Queued := (h.invariant (queued_start sched) (fun _ _ _ hI hs => hI.step hs)).2
  intro hq
  have hmem := hqueued.futexWake uaddr val uaddr q hq
  simp [futexWake, Nat.min_eq_left hval] at hmem

theorem run_wakes_all_pair : let s := (start pair).next (.wait 1 8)
    s.BlockedOn 8 1 ∧ ¬ (s.futexWake 8 1).1.BlockedOn 8 1 :=
  ⟨⟨rfl, by decide⟩, run_wakes_all (Run.nil.snoc (show Step (start pair) (.wait 1 8) _ from ⟨⟨by decide, rfl⟩, rfl⟩)) 8 1
    (by decide) 1⟩

theorem wake_reaches_other_space : let s := (start pair).next (.wait 1 8)
    Step (start pair) (.wait 1 8) s ∧ s.Allowed (.wake 2 8 1) ∧ s.blocked 2 8 = ∅ ∧
      (s.next (.wake 2 8 1)).sched.stateOf 1 = some .runnable ∧ ¬ s.WakesRight (.wake 2 8 1) := by
  have hblocked : ((start pair).next (.wait 1 8)).blocked 2 8 = ∅ := by
    refine Set.eq_empty_of_forall_notMem fun q ⟨⟨hcall, _⟩, hroot⟩ => ?_
    have hq : q = 1 := by
      by_contra hne
      exact absurd hcall (by simp [next, futexWait, start, update_of_ne hne])
    subst hq
    exact absurd hroot (by decide)
  refine ⟨⟨⟨by decide, rfl⟩, rfl⟩, ⟨by decide, rfl⟩, hblocked, by decide, fun hright => ?_⟩
  have hwoken : (1 : Pid) ∈ woken ((start pair).next (.wait 1 8))
      (((start pair).next (.wait 1 8)).futexWake 8 1).1 := ⟨by decide, by decide⟩
  exact absurd (hblocked ▸ hright.1 hwoken) (Set.notMem_empty _)

end WakeWorld
end NodeKernel
