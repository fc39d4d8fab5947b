import NodeKernel.Security.Limits
import NodeKernel.Security.Seccomp

/-!
# Behavioural namespaces

The isolation level of a process, which follows its anomaly score, the dispatcher up to the handlers,
and what creating a process does with the level and with the filter of its parent. What the
kernel reads off a score is an input.
-/
namespace NodeKernel

open Nat List Function SeccompTable

inductive IsoLevel where
  | normal
  | watched
  | contained
  | isolated
  | quarantine
  deriving DecidableEq

namespace IsoLevel

def rank : IsoLevel → ℕ
  | normal => 0
  | watched => 1
  | contained => 2
  | isolated => 3
  | quarantine => 4

lemma rank_injective : Function.Injective rank := by
  intro a b h
  cases a <;> cases b <;> first | rfl | cases h

instance : LinearOrder IsoLevel := LinearOrder.lift' rank rank_injective

lemma normal_le (l : IsoLevel) : normal ≤ l := Nat.zero_le l.rank

end IsoLevel

/-- What `update` reads off a score: the level of the effective score, and whether the score is well below
the threshold of a level. -/
structure Scoring where
  newLevel : IsoLevel
  dropped : IsoLevel → Bool

/-- What `hook_syscall` does: how often it scores the process, and whether it lets the call through. -/
structure PolicyHook where
  updates : List Scoring
  allows : Bool

abbrev NsTable : Type := ℕ → Option IsoLevel

namespace NsTable

def levelOf (t : NsTable) (pid : ℕ) : IsoLevel := (t pid).getD .normal

def update (t : NsTable) (pid : ℕ) (s : Scoring) : NsTable :=
  let oldLevel := t.levelOf pid
  let level :=
    if s.newLevel > oldLevel then s.newLevel
    else if s.newLevel < oldLevel ∧ s.dropped oldLevel then s.newLevel
    else oldLevel
  Function.update t pid (some level)

def netNrs : List ℕ := [41, 42, 43, 44, 45, 46, 47, 48, 49, 50]

def allowSyscall (t : NsTable) (pid nr : ℕ) (isWrite : Bool) (hook : PolicyHook) : NsTable × Bool :=
  let level := t.levelOf pid
  if level = .normal then (t, true)
  else if level = .quarantine ∧ isWrite then (t, false)
  else if level ≥ .isolated ∧ nr ∈ netNrs then (t, false)
  else (hook.updates.foldl (fun t s => t.update pid s) t, hook.allows)

def cleanupPid (t : NsTable) (pid : ℕ) : NsTable := Function.update t pid none

end NsTable

def isWriteSyscall (nr : ℕ) : Bool :=
  nr ∈ [1, 17, 20, 44, 46, 83, 85, 86, 87, 88, 90, 92] || (257 ≤ nr && nr ≤ 264)

def nrClone : ℕ := 56
def nrFork : ℕ := 57
def nrExit : ℕ := 60
def nrExitGroup : ℕ := 231
def nrClone3 : ℕ := 435

/-- A system call with what the kernel finds out on the way: the score of the process, the policy script,
whether the capability and confinement checks let it through, whether there is memory for the kernel
stack of a child, and the score that `on_spawn` gives to a thread. -/
structure ScoredCall where
  pid : ℕ
  nr : ℕ
  arg0 : ℕ
  score : Scoring
  hook : PolicyHook
  checks : Bool
  stack : Bool
  onSpawn : Option Scoring

structure ConfineWorld where
  ns : NsTable
  seccomp : SeccompTable
  tasks : List ℕ
  nextPid : ℕ

inductive ConfineEvent where
  | call (c : ScoredCall)
  | update (pid : ℕ) (s : Scoring)

namespace ConfineWorld

/-- The part of the dispatcher before the handlers, and whether the call reaches its handler. -/
def enter (w : ConfineWorld) (c : ScoredCall) : ConfineWorld × Bool :=
  let r := (w.ns.update c.pid c.score).allowSyscall c.pid c.nr (isWriteSyscall c.nr) c.hook
  let f := w.seccomp.dispatch ⟨c.pid, c.nr, c.arg0, r.2 && c.checks⟩
  ({ w with ns := r.1, seccomp := f.1 }, f.2.isNone)

def create (w : ConfineWorld) (stack : Bool) (ns : NsTable) : ConfineWorld :=
  if stack then { w with ns, tasks := w.nextPid :: w.tasks, nextPid := w.nextPid + 1 }
  else { w with nextPid := w.nextPid + 1 }

def forkTask (w : ConfineWorld) (stack : Bool) : ConfineWorld := w.create stack w.ns

def spawnUserThread (w : ConfineWorld) (stack : Bool) (onSpawn : Option Scoring) : ConfineWorld :=
  w.create stack (onSpawn.elim w.ns (w.ns.update w.nextPid))

def exitCurrent (w : ConfineWorld) (pid : ℕ) : ConfineWorld :=
  { w with ns := w.ns.cleanupPid pid, tasks := w.tasks.erase pid }

def isThread (c : ScoredCall) : Bool := c.nr = nrClone && c.arg0 &&& cloneVm != 0

def handle (w : ConfineWorld) (c : ScoredCall) : ConfineWorld :=
  if c.nr = nrFork ∨ c.nr = nrClone3 then w.forkTask c.stack
  else if c.nr = nrClone then
    if isThread c then w.spawnUserThread c.stack c.onSpawn else w.forkTask c.stack
  else if c.nr = nrExit ∨ c.nr = nrExitGroup then w.exitCurrent c.pid
  else w

def syscallDispatch (w : ConfineWorld) (c : ScoredCall) : ConfineWorld :=
  if (w.enter c).2 then (w.enter c).1.handle c else (w.enter c).1

def next (w : ConfineWorld) : ConfineEvent → ConfineWorld
  | .call c => w.syscallDispatch c
  | .update pid s => { w with ns := w.ns.update pid s }

/-- The calls come from processes, the other scores are for pids that were given out. -/
def Step (w : ConfineWorld) (e : ConfineEvent) (w' : ConfineWorld) : Prop :=
  w' = w.next e ∧ match e with
    | .call c => c.pid ∈ w.tasks
    | .update pid _ => pid < w.nextPid

def start (pid : ℕ) : ConfineWorld := ⟨fun _ => none, fun _ => none, [pid], pid + 1⟩

def Creates (w : ConfineWorld) (c : ScoredCall) : Prop :=
  (w.enter c).2 ∧ c.stack ∧ (c.nr = nrFork ∨ c.nr = nrClone3 ∨ c.nr = nrClone)

def Inherits (w : ConfineWorld) : ConfineEvent → Prop
  | .call c => w.Creates c →
      (w.syscallDispatch c).ns.levelOf c.pid ≤ (w.syscallDispatch c).ns.levelOf w.nextPid ∧
      (w.syscallDispatch c).seccomp.permitted w.nextPid ⊆ (w.syscallDispatch c).seccomp.permitted c.pid
  | .update _ _ => True

/-- The parent of a new child is not confined, or the child is a thread that gets a level of its own. -/
def ParentFree (w : ConfineWorld) : ConfineEvent → Prop
  | .call c => w.Creates c →
      (w.enter c).1.ns.levelOf c.pid = .normal ∨
      isThread c ∧ ∃ s, c.onSpawn = some s ∧ (w.enter c).1.ns.levelOf c.pid ≤ s.newLevel
  | .update _ _ => True

end ConfineWorld

namespace NsTable

lemma update_of_ne (t : NsTable) {pid q : ℕ} (h : q ≠ pid) (s : Scoring) : t.update pid s q = t q := Function.update_of_ne h _ _

lemma levelOf_update_of_none {t : NsTable} {pid : ℕ} (h : t pid = none) (s : Scoring) :
    (t.update pid s).levelOf pid = s.newLevel := by
  have hold : t.levelOf pid = .normal := by rw [levelOf, h]; rfl
  unfold update
  rw [hold, levelOf, update_self]
  split_ifs with hup hdown
  · rfl
  · rfl
  · exact le_antisymm (IsoLevel.normal_le _) (not_lt.mp hup)

lemma allowSyscall_of_ne (t : NsTable) {pid q : ℕ} (h : q ≠ pid) (nr : ℕ) (isWrite : Bool) (hook : PolicyHook) :
    (t.allowSyscall pid nr isWrite hook).1 q = t q := by
  have hupdates : ∀ (l : List Scoring) (t : NsTable), l.foldl (fun t s => t.update pid s) t q = t q := by
    intro l
    induction l with
    | nil => exact fun _ => rfl
    | cons s l ih => exact fun t => (ih _).trans (t.update_of_ne h s)
  unfold allowSyscall
  dsimp only
  split_ifs
  · rfl
  · rfl
  · rfl
  · exact hupdates _ t

end NsTable

namespace ConfineWorld

/-- Pids that were not given out have no entries, and every filter is a narrow one. -/
structure Sane (w : ConfineWorld) : Prop where
  fresh : ∀ pid, w.nextPid ≤ pid → w.ns pid = none ∧ w.seccomp pid = none
  tasks : ∀ pid ∈ w.tasks, pid < w.nextPid
  narrow : w.seccomp.Narrow

lemma sane_start (pid : ℕ) : (start pid).Sane where
  fresh _ _ := ⟨rfl, rfl⟩
  tasks q hq := by
    rw [mem_singleton.mp hq]
    exact lt_succ_self pid
  narrow := nofun

variable {w : ConfineWorld} {c : ScoredCall}

lemma Sane.enter (h : w.Sane) (hc : c.pid ∈ w.tasks) : (w.enter c).1.Sane where
  fresh q hq := by
    have hne : q ≠ c.pid := ne_of_gt (lt_of_lt_of_le (h.tasks _ hc) hq)
    obtain ⟨hns, hsec⟩ := h.fresh q hq
    exact ⟨(NsTable.allowSyscall_of_ne _ hne _ _ _).trans ((NsTable.update_of_ne _ hne _).trans hns),
      (next_of_ne _ hne).trans hsec⟩
  tasks := h.tasks
  narrow := h.narrow.next _

lemma Sane.create (h : w.Sane) (stack : Bool) {ns : NsTable}
    (hns : ∀ q ≠ w.nextPid, ns q = w.ns q) : (w.create stack ns).Sane := by
  have hlater : ∀ q, w.nextPid + 1 ≤ q → q ≠ w.nextPid ∧ w.nextPid ≤ q := fun q hq => ⟨by omega, by omega⟩
  cases stack with
  | false =>
    exact ⟨fun q hq => h.fresh q (hlater q hq).2, fun q hq => lt_succ_of_lt (h.tasks q hq), h.narrow⟩
  | true =>
    refine ⟨fun q hq => ?_, fun q hq => ?_, h.narrow⟩
    · obtain ⟨hne, hle⟩ := hlater q hq
      exact ⟨(hns q hne).trans (h.fresh q hle).1, (h.fresh q hle).2⟩
    · obtain rfl | hq := mem_cons.mp hq
      · exact lt_succ_self _
      · exact lt_succ_of_lt (h.tasks q hq)

lemma Sane.forkTask (h : w.Sane) (stack : Bool) : (w.forkTask stack).Sane := h.create stack fun _ _ => rfl

lemma Sane.spawnUserThread (h : w.Sane) (stack : Bool) (onSpawn : Option Scoring) : (w.spawnUserThread stack onSpawn).Sane := by
  refine h.create stack fun q hq => ?_
  cases onSpawn with
  | none => rfl
  | some s => exact w.ns.update_of_ne hq s

lemma Sane.exitCurrent (h : w.Sane) (pid : ℕ) : (w.exitCurrent pid).Sane where
  fresh q hq := by
    refine ⟨?_, (h.fresh q hq).2⟩
    by_cases hne : q = pid
    · rw [hne]
      exact update_self _ _ _
    · exact (update_of_ne hne _ _).trans (h.fresh q hq).1
  tasks q hq := h.tasks q (mem_of_mem_erase hq)
  narrow := h.narrow

lemma Sane.handle (h : w.Sane) (c : ScoredCall) : (w.handle c).Sane := by
  unfold ConfineWorld.handle
  split_ifs
  · exact h.forkTask _
  · exact h.spawnUserThread _ _
  · exact h.forkTask _
  · exact h.exitCurrent _
  · exact h

lemma Sane.step {w w' : ConfineWorld} {e : ConfineEvent} (h : w.Sane) (hs : Step w e w') : w'.Sane := by
  obtain ⟨rfl, hpid⟩ := hs
  cases e with
  | call c =>
    unfold next syscallDispatch
    dsimp only
    split_ifs
    · exact (h.enter hpid).handle c
    · exact h.enter hpid
  | update pid s =>
    refine ⟨fun q hq => ⟨?_, (h.fresh q hq).2⟩, h.tasks, h.narrow⟩
    exact (w.ns.update_of_ne (ne_of_gt (lt_of_lt_of_le hpid hq)) s).trans (h.fresh q hq).1

lemma levels_of_creates (h : w.Sane) (hc : c.pid ∈ w.tasks) (hcr : w.Creates c) :
    (w.syscallDispatch c).ns.levelOf c.pid = (w.enter c).1.ns.levelOf c.pid ∧ (w.syscallDispatch c).ns.levelOf w.nextPid =
      if isThread c then (c.onSpawn.elim .normal Scoring.newLevel) else .normal := by
  obtain ⟨henter, hstack, hnr⟩ := hcr
  have hne : c.pid ≠ w.nextPid := Nat.ne_of_lt (h.tasks _ hc)
  have hfresh : (w.enter c).1.ns w.nextPid = none := ((h.enter hc).fresh w.nextPid (le_refl _)).1
  have hnormal : (w.enter c).1.ns.levelOf w.nextPid = .normal := by rw [NsTable.levelOf, hfresh]; rfl
  unfold syscallDispatch
  rw [if_pos henter]
  cases hthread : isThread c with
  | false =>
    have hfork : (w.enter c).1.handle c = (w.enter c).1.forkTask c.stack := by
      unfold handle
      rw [hthread]
      split_ifs <;> first | rfl | simp_all
    rw [hfork, forkTask, create, if_pos hstack]
    exact ⟨rfl, hnormal⟩
  | true =>
    have hclone : c.nr = nrClone := by
      unfold isThread at hthread
      simp only [Bool.and_eq_true, decide_eq_true_eq] at hthread
      exact hthread.1
    have hspawn : (w.enter c).1.handle c = (w.enter c).1.spawnUserThread c.stack c.onSpawn := by
      unfold handle
      rw [hthread, if_neg (by rw [hclone]; decide), if_pos hclone, if_pos rfl]
    rw [hspawn, spawnUserThread, create, if_pos hstack]
    cases c.onSpawn with
    | none => exact ⟨rfl, hnormal⟩
    | some s =>
      refine ⟨?_, NsTable.levelOf_update_of_none hfresh s⟩
      exact congrArg (Option.getD · _) (NsTable.update_of_ne _ hne s)

lemma seccomp_of_creates (h : w.Sane) (hcr : w.Creates c) : (w.enter c).1.seccomp c.pid = none := by
  obtain ⟨henter, -, hnr⟩ := hcr
  refine h.narrow.none_of_dispatch (Option.isNone_iff_eq_none.mp henter) ?_
  obtain hnr | hnr | hnr := hnr <;> (dsimp only; rw [hnr]; decide)

lemma seccomp_syscallDispatch (w : ConfineWorld) (c : ScoredCall) : (w.syscallDispatch c).seccomp = (w.enter c).1.seccomp := by
  unfold syscallDispatch handle forkTask spawnUserThread create exitCurrent
  split_ifs <;> rfl

lemma inherits_iff (h : w.Sane) (hc : c.pid ∈ w.tasks) : w.Inherits (.call c) ↔ w.ParentFree (.call c) := by
  refine forall_congr' fun hcr => ?_
  obtain ⟨hparent, hchild⟩ := levels_of_creates h hc hcr
  have hpermitted : (w.syscallDispatch c).seccomp.permitted c.pid = Set.univ := by
    ext nr
    unfold permitted seccompCheck
    rw [seccomp_syscallDispatch, seccomp_of_creates h hcr]
    simp
  rw [hparent, hchild, hpermitted, and_iff_left (Set.subset_univ _)]
  have hnormal : ∀ l : IsoLevel, l ≤ .normal ↔ l = .normal := fun l => ⟨fun hle => le_antisymm hle l.normal_le, le_of_eq⟩
  cases isThread c with
  | false => simp [hnormal]
  | true =>
    cases c.onSpawn with
    | none => simp [hnormal]
    | some s =>
      simp only [if_true, Option.elim_some, Option.some.injEq, exists_eq_left', true_and]
      exact ⟨.inr, fun hor => hor.elim (fun heq => heq ▸ s.newLevel.normal_le) id⟩

/-- Confinement is inherited in a run exactly if no confined process creates a child, apart from threads
that get a level at least as high on their own. -/
theorem run_inherits_iff {pid : ℕ} {tr : List (ConfineWorld × ConfineEvent)} {w : ConfineWorld}
    (h : Run Step (start pid) tr w) : (∀ x ∈ tr, x.1.Inherits x.2) ↔ ∀ x ∈ tr, x.1.ParentFree x.2 := by
  refine h.forall_iff_of (I := Sane) (P := Inherits) (C := ParentFree) (sane_start pid)
    (fun _ _ _ hs _ => hs.step) ?_
  rintro w (c | _) _ hs ⟨-, hpid⟩
  · exact inherits_iff hs hpid
  · exact Iff.rfl

def plainCall (pid nr : ℕ) (level : IsoLevel) : ScoredCall :=
  ⟨pid, nr, 0, ⟨level, fun _ => false⟩, ⟨[], true⟩, true, true, none⟩

theorem run_inherits_iff_fork : let tr : List (ConfineWorld × ConfineEvent) := [(start 1, .call (plainCall 1 nrFork .normal))]
    (∀ x ∈ tr, x.1.Inherits x.2) ↔ ∀ x ∈ tr, x.1.ParentFree x.2 :=
  run_inherits_iff (Run.nil.snoc (show Step (start 1) (.call (plainCall 1 nrFork .normal)) _ from ⟨rfl, mem_cons_self⟩))

theorem contained_process_forks_free_child : let w := (start 1).syscallDispatch (plainCall 1 nrFork .contained)
    w.tasks = [2, 1] ∧ w.ns.levelOf 1 = .contained ∧ w.ns.levelOf 2 = .normal := by
  decide +kernel

end ConfineWorld
end NodeKernel
