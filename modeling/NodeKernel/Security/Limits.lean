import Mathlib.Algebra.Group.Nat.Defs
import NodeKernel.Lib.Run

/-!
# Resource limits

The table of `setrlimit` and what the ways to create a process do with it: a thread inherits the limits
of its parent, a forked process gets no entry, which counts as no limit.
-/
namespace NodeKernel

open Function

def nRlimits : ℕ := 16

def rlimInfinity : ℕ := 2 ^ 64 - 1

structure Rlimit where
  cur : ℕ
  max : ℕ
  deriving DecidableEq

def Rlimit.unlimited : Rlimit := ⟨rlimInfinity, rlimInfinity⟩

abbrev ProcLimits : Type := Fin nRlimits → Rlimit

def ProcLimits.new : ProcLimits := fun _ => Rlimit.unlimited

abbrev RlimitTable : Type := ℕ → Option ProcLimits

namespace RlimitTable

def initPid (t : RlimitTable) (pid : ℕ) (parentPid : Option ℕ) : RlimitTable :=
  match parentPid.bind t with
  | some inherited => update t pid (some inherited)
  | none => update t pid (some ((t pid).getD ProcLimits.new))

def get (t : RlimitTable) (pid resource : ℕ) : Rlimit :=
  if h : resource < nRlimits then
    match t pid with
    | some p => p ⟨resource, h⟩
    | none => Rlimit.unlimited
  else Rlimit.unlimited

/-- The table after the call and what it returns. A call that is refused still creates the entry. -/
def set (t : RlimitTable) (pid resource : ℕ) (newCur newMax : UInt64) : RlimitTable × ℤ :=
  if h : resource < nRlimits then
    let limits := (t pid).getD ProcLimits.new
    let t := update t pid (some limits)
    let currentHard := (limits ⟨resource, h⟩).max
    if newMax.toNat > currentHard ∧ currentHard ≠ rlimInfinity then (t, -1)
    else if newCur > newMax then (t, -1)
    else (update t pid (some (update limits ⟨resource, h⟩ ⟨newCur.toNat, newMax.toNat⟩)), 0)
  else (t, -1)

/-- The pointer may be null; then nothing happens. -/
def sysSetrlimit (t : RlimitTable) (pid resource : ℕ) : Option (UInt64 × UInt64) → RlimitTable × ℤ
  | none => (t, 0)
  | some (newCur, newMax) => t.set pid resource newCur newMax

end RlimitTable

namespace RlimitTable

variable {t : RlimitTable} {resource : ℕ}

lemma get_eq (t : RlimitTable) (pid : ℕ) (h : resource < nRlimits) :
    t.get pid resource = ((t pid).getD ProcLimits.new) ⟨resource, h⟩ := by
  unfold get
  rw [dif_pos h]
  cases t pid <;> rfl

lemma get_ge (t : RlimitTable) (pid : ℕ) (h : ¬ resource < nRlimits) : t.get pid resource = Rlimit.unlimited := dif_neg h

lemma get_of_none {pid : ℕ} (h : t pid = none) (resource : ℕ) : t.get pid resource = Rlimit.unlimited := by
  by_cases hr : resource < nRlimits
  · rw [get_eq t pid hr, h]
    rfl
  · exact get_ge t pid hr

lemma get_congr {t t' : RlimitTable} {pid pid' : ℕ}
    (h : (t pid).getD ProcLimits.new = (t' pid').getD ProcLimits.new) (resource : ℕ) :
    t.get pid resource = t'.get pid' resource := by
  by_cases hr : resource < nRlimits
  · rw [get_eq t pid hr, get_eq t' pid' hr, h]
  · rw [get_ge t pid hr, get_ge t' pid' hr]

lemma get_update_of_ne {pid q : ℕ} (hq : q ≠ pid) (p : Option ProcLimits) (r : ℕ) : get (update t pid p) q r = t.get q r :=
  get_congr (by rw [update_of_ne hq]) r

lemma get_orInsert (t : RlimitTable) (pid q r : ℕ) :
    get (update t pid (some ((t pid).getD ProcLimits.new))) q r = t.get q r := by
  by_cases hq : q = pid
  · refine get_congr ?_ r
    rw [hq, update_self]
    rfl
  · exact get_update_of_ne hq _ r

lemma get_store (t : RlimitTable) (pid : ℕ) (h : resource < nRlimits) (v : Rlimit) (q r : ℕ) :
    get (update t pid (some (update ((t pid).getD ProcLimits.new) ⟨resource, h⟩ v))) q r =
      if q = pid ∧ r = resource then v else t.get q r := by
  by_cases hq : q = pid
  · subst hq
    by_cases hr : r = resource
    · subst hr
      rw [if_pos ⟨rfl, rfl⟩, get_eq _ q h, update_self]
      exact update_self _ _ _
    · rw [if_neg fun hboth => hr hboth.2]
      by_cases hlt : r < nRlimits
      · rw [get_eq _ q hlt, get_eq t q hlt, update_self]
        exact update_of_ne (fun hfin => hr (congrArg Fin.val hfin)) _ _
      · rw [get_ge _ q hlt, get_ge t q hlt]
  · rw [if_neg fun hboth => hq hboth.1]
    exact get_update_of_ne hq _ r

lemma get_set (t : RlimitTable) (pid resource : ℕ) (newCur newMax : UInt64) :
    (∀ q r, (t.set pid resource newCur newMax).1.get q r = t.get q r) ∨
    newCur.toNat ≤ newMax.toNat ∧ newMax.toNat ≤ (t.get pid resource).max ∧
      ∀ q r, (t.set pid resource newCur newMax).1.get q r =
        if q = pid ∧ r = resource then ⟨newCur.toNat, newMax.toNat⟩ else t.get q r := by
  unfold set
  by_cases h : resource < nRlimits
  · rw [dif_pos h]
    dsimp only
    rw [← get_eq t pid h]
    split_ifs with hhard hcur
    · exact .inl (t.get_orInsert pid)
    · exact .inl (t.get_orInsert pid)
    · refine .inr ⟨UInt64.not_lt.mp hcur, ?_, ?_⟩
      · -- a lower hard limit cannot be exceeded, and no number exceeds the largest one
        refine Nat.not_lt.mp fun hlt => hhard ⟨hlt, fun heq => ?_⟩
        rw [heq] at hlt
        exact Nat.not_le.mpr hlt (Nat.le_of_lt_succ newMax.toNat_lt)
      · intro q r
        rw [update_idem]
        exact t.get_store pid h _ q r
  · rw [dif_neg h]
    exact .inl fun q r => rfl

lemma initPid_eq {pid : ℕ} (hnew : t pid = none) (parent : ℕ) :
    t.initPid pid (some parent) = update t pid (some ((t parent).getD ProcLimits.new)) := by
  unfold initPid
  rw [Option.bind_some, hnew]
  cases t parent <;> rfl

lemma get_initPid {pid : ℕ} (hnew : t pid = none) (parent q r : ℕ) :
    (t.initPid pid (some parent)).get q r = if q = pid then t.get parent r else t.get q r := by
  rw [initPid_eq hnew]
  by_cases hq : q = pid
  · rw [if_pos hq, hq]
    refine get_congr ?_ r
    rw [update_self]
    rfl
  · rw [if_neg hq]
    exact get_update_of_ne hq _ r

lemma sysSetrlimit_of_ne (t : RlimitTable) {pid q : ℕ} (hq : q ≠ pid) (resource : ℕ)
    (arg : Option (UInt64 × UInt64)) : (t.sysSetrlimit pid resource arg).1 q = t q := by
  cases arg with
  | none => rfl
  | some v =>
    unfold sysSetrlimit set
    dsimp only
    split_ifs <;> simp [update_of_ne hq]

lemma get_sysSetrlimit (t : RlimitTable) (pid resource : ℕ) (arg : Option (UInt64 × UInt64)) (q r : ℕ) :
    let l := (t.sysSetrlimit pid resource arg).1.get q r
    l.max ≤ (t.get q r).max ∧ ((t.get q r).cur ≤ (t.get q r).max → l.cur ≤ l.max) := by
  have hsame : ∀ {l : Rlimit}, l = t.get q r →
      l.max ≤ (t.get q r).max ∧ ((t.get q r).cur ≤ (t.get q r).max → l.cur ≤ l.max) := by
    rintro _ rfl
    exact ⟨Nat.le_refl _, id⟩
  cases arg with
  | none => exact hsame rfl
  | some v =>
    obtain heq | ⟨hcur, hmax, heq⟩ := t.get_set pid resource v.1 v.2
    · exact hsame (heq q r)
    · dsimp only [sysSetrlimit]
      rw [heq q r]
      split_ifs with hboth
      · obtain ⟨rfl, rfl⟩ := hboth
        exact ⟨hmax, fun _ => hcur⟩
      · exact hsame rfl

end RlimitTable

def cloneVm : ℕ := 0x100

/-- The processes and their limits. `ceiling` is a record of the run: the hard limits that the parent had
when the process was created. -/
structure LimitWorld where
  rlimits : RlimitTable
  tasks : List ℕ
  nextPid : ℕ
  ceiling : ℕ → Option (ℕ → ℕ)

/-- `stack` says whether there is memory for the kernel stack of the child. `clone3` is a fork. -/
inductive LimitEvent where
  | setrlimit (pid resource : ℕ) (arg : Option (UInt64 × UInt64))
  | fork (pid : ℕ) (stack : Bool)
  | clone (pid flags : ℕ) (stack : Bool)

namespace LimitWorld

def pidOf : LimitEvent → ℕ
  | .setrlimit pid _ _ => pid
  | .fork pid _ => pid
  | .clone pid _ _ => pid

/-- The part that `fork_task` and `spawn_user_thread` share: a pid, and a task if there is a stack. -/
def create (w : LimitWorld) (parent : ℕ) (stack : Bool) (rlimits : RlimitTable) : LimitWorld :=
  if stack then
    { rlimits, tasks := w.nextPid :: w.tasks, nextPid := w.nextPid + 1,
      ceiling := update w.ceiling w.nextPid (some fun r => (w.rlimits.get parent r).max) }
  else { w with nextPid := w.nextPid + 1 }

def forkTask (w : LimitWorld) (parent : ℕ) (stack : Bool) : LimitWorld := w.create parent stack w.rlimits

def spawnUserThread (w : LimitWorld) (parent : ℕ) (stack : Bool) : LimitWorld :=
  w.create parent stack (w.rlimits.initPid w.nextPid (some parent))

def next (w : LimitWorld) : LimitEvent → LimitWorld
  | .setrlimit pid resource arg => { w with rlimits := (w.rlimits.sysSetrlimit pid resource arg).1 }
  | .fork pid stack => w.forkTask pid stack
  | .clone pid flags stack =>
    if flags &&& cloneVm ≠ 0 then w.spawnUserThread pid stack else w.forkTask pid stack

def Step (w : LimitWorld) (e : LimitEvent) (w' : LimitWorld) : Prop := pidOf e ∈ w.tasks ∧ w' = w.next e

def start (pid : ℕ) : LimitWorld :=
  ⟨RlimitTable.initPid (fun _ => none) pid none, [pid], pid + 1, fun _ => none⟩

def SoftWithinHard (w : LimitWorld) : Prop :=
  ∀ pid ∈ w.tasks, ∀ r, (w.rlimits.get pid r).cur ≤ (w.rlimits.get pid r).max

def HardWithinParent (w : LimitWorld) : Prop :=
  ∀ pid c, w.ceiling pid = some c → ∀ r, (w.rlimits.get pid r).max ≤ c r

/-- A process that forks has every hard limit at its largest value. -/
def ForkUnlimited (w : LimitWorld) : LimitEvent → Prop
  | .setrlimit _ _ _ => True
  | .fork pid stack => stack → ∀ r, rlimInfinity ≤ (w.rlimits.get pid r).max
  | .clone pid flags stack => stack → flags &&& cloneVm = 0 → ∀ r, rlimInfinity ≤ (w.rlimits.get pid r).max

/-- Pids that were not given out have no entry, and every soft limit is within the hard one. -/
structure Sane (w : LimitWorld) : Prop where
  fresh : ∀ pid, w.nextPid ≤ pid → w.rlimits pid = none ∧ pid ∉ w.tasks ∧ w.ceiling pid = none
  soft : ∀ pid r, (w.rlimits.get pid r).cur ≤ (w.rlimits.get pid r).max

lemma sane_start (pid : ℕ) : (start pid).Sane where
  fresh q hq := by
    have hne : q ≠ pid := Nat.ne_of_gt hq
    refine ⟨?_, by simpa [start] using hne, rfl⟩
    exact update_of_ne hne (some ProcLimits.new) (fun _ => none)
  soft q r := by
    have hget : (start pid).rlimits.get q r = Rlimit.unlimited :=
      (RlimitTable.get_orInsert (fun _ => none) pid q r).trans (RlimitTable.get_of_none rfl r)
    rw [hget]
    exact Nat.le_refl _

variable {w : LimitWorld}

lemma Sane.setrlimit (h : w.Sane) {pid : ℕ} (hpid : pid ∈ w.tasks) (resource : ℕ)
    (arg : Option (UInt64 × UInt64)) : (w.next (.setrlimit pid resource arg)).Sane where
  fresh q hq := by
    obtain ⟨hentry, htask, hceil⟩ := h.fresh q hq
    have hne : q ≠ pid := fun heq => htask (heq ▸ hpid)
    exact ⟨(w.rlimits.sysSetrlimit_of_ne hne resource arg).trans hentry, htask, hceil⟩
  soft q r := (w.rlimits.get_sysSetrlimit pid resource arg q r).2 (h.soft q r)

lemma Sane.create (h : w.Sane) (parent : ℕ) (stack : Bool) {t : RlimitTable}
    (hentry : ∀ q ≠ w.nextPid, t q = w.rlimits q) (hsoft : ∀ q r, (t.get q r).cur ≤ (t.get q r).max) :
    (w.create parent stack t).Sane := by
  have hfresh : ∀ q, w.nextPid + 1 ≤ q → q ≠ w.nextPid ∧ w.nextPid ≤ q := fun q hq => ⟨by omega, by omega⟩
  unfold LimitWorld.create
  cases stack with
  | false =>
    rw [if_neg Bool.false_ne_true]
    exact ⟨fun q hq => h.fresh q (hfresh q hq).2, h.soft⟩
  | true =>
    rw [if_pos rfl]
    refine ⟨fun q hq => ?_, hsoft⟩
    obtain ⟨hne, hle⟩ := hfresh q hq
    obtain ⟨hnone, htask, hceil⟩ := h.fresh q hle
    exact ⟨(hentry q hne).trans hnone, fun hmem => htask ((List.mem_cons.mp hmem).resolve_left hne),
      (update_of_ne hne _ _).trans hceil⟩

lemma Sane.forkTask (h : w.Sane) (parent : ℕ) (stack : Bool) :
    (w.forkTask parent stack).Sane := h.create parent stack (fun _ _ => rfl) h.soft

lemma Sane.spawnUserThread (h : w.Sane) (parent : ℕ) (stack : Bool) : (w.spawnUserThread parent stack).Sane := by
  have hnew := (h.fresh w.nextPid (Nat.le_refl _)).1
  refine h.create parent stack ?_ ?_
  · intro q hq
    rw [RlimitTable.initPid_eq hnew, update_of_ne hq]
  · intro q r
    rw [RlimitTable.get_initPid hnew]
    split_ifs
    · exact h.soft parent r
    · exact h.soft q r

lemma Sane.step {w w' : LimitWorld} {e : LimitEvent} (h : w.Sane) (hs : Step w e w') : w'.Sane := by
  obtain ⟨hpid, rfl⟩ := hs
  cases e with
  | setrlimit pid resource arg => exact h.setrlimit hpid resource arg
  | fork pid stack => exact h.forkTask pid stack
  | clone pid flags stack =>
    unfold next
    dsimp only
    split_ifs
    · exact h.spawnUserThread pid stack
    · exact h.forkTask pid stack

section
variable (h : w.HardWithinParent)
include h

lemma HardWithinParent.setrlimit (pid resource : ℕ)
    (arg : Option (UInt64 × UInt64)) : (w.next (.setrlimit pid resource arg)).HardWithinParent := by
  intro q c hc r
  exact Nat.le_trans (w.rlimits.get_sysSetrlimit pid resource arg q r).1 (h q c hc r)

lemma hardWithinParent_create (parent : ℕ) {t : RlimitTable}
    (hget : ∀ q ≠ w.nextPid, ∀ r, t.get q r = w.rlimits.get q r) : (w.create parent true t).HardWithinParent ↔
      ∀ r, (t.get w.nextPid r).max ≤ (w.rlimits.get parent r).max := by
  unfold HardWithinParent create
  rw [if_pos rfl]
  dsimp only
  constructor
  · intro hall
    exact hall w.nextPid _ (update_self _ _ _)
  · intro hchild q c hc r
    by_cases hq : q = w.nextPid
    · rw [hq, update_self] at hc
      cases hc
      rw [hq]
      exact hchild r
    · rw [update_of_ne hq] at hc
      rw [hget q hq r]
      exact h q c hc r

lemma hardWithinParent_forkTask (hs : w.Sane) (parent : ℕ) (stack : Bool) :
    (w.forkTask parent stack).HardWithinParent ↔ (stack → ∀ r, rlimInfinity ≤ (w.rlimits.get parent r).max) := by
  cases stack with
  | false => exact ⟨fun _ => nofun, fun _ => h⟩
  | true =>
    have hchild : ∀ r, w.rlimits.get w.nextPid r = Rlimit.unlimited :=
      RlimitTable.get_of_none (hs.fresh w.nextPid (Nat.le_refl _)).1
    refine (hardWithinParent_create h parent fun _ _ _ => rfl).trans ?_
    simp only [hchild, forall_const]
    rfl

lemma hardWithinParent_spawnUserThread (hs : w.Sane) (parent : ℕ)
    (stack : Bool) : (w.spawnUserThread parent stack).HardWithinParent := by
  cases stack with
  | false => exact h
  | true =>
    have hget := RlimitTable.get_initPid (hs.fresh w.nextPid (Nat.le_refl _)).1 parent
    refine (hardWithinParent_create h parent fun q hq r => ?_).mpr fun r => ?_
    · rw [hget, if_neg hq]
    · exact Nat.le_of_eq (by rw [hget, if_pos rfl])

lemma hardWithinParent_next {e : LimitEvent} (hs : w.Sane) : (w.next e).HardWithinParent ↔ w.ForkUnlimited e := by
  cases e with
  | setrlimit pid resource arg => exact iff_of_true (h.setrlimit pid resource arg) trivial
  | fork pid stack => exact hardWithinParent_forkTask h hs pid stack
  | clone pid flags stack =>
    unfold next ForkUnlimited
    dsimp only
    split_ifs with hvm
    · exact iff_of_true (hardWithinParent_spawnUserThread h hs pid stack) fun _ hzero => absurd hzero hvm
    · rw [hardWithinParent_forkTask h hs]
      exact ⟨fun hall hstack _ => hall hstack, fun hall hstack => hall hstack (not_ne_iff.mp hvm)⟩

end

/-- In every run the soft limits are within the hard ones, and the hard limits within those of the
parents exactly if no process forks with a lowered hard limit. -/
theorem run_limits_iff {pid : ℕ} {tr : List (LimitWorld × LimitEvent)} {w : LimitWorld} (h : Run Step (start pid) tr w) :
    ((∀ x ∈ tr, x.1.SoftWithinHard) ∧ w.SoftWithinHard) ∧
    ((∀ x ∈ tr, (x.1.next x.2).HardWithinParent) ↔ ∀ x ∈ tr, x.1.ForkUnlimited x.2) := by
  have hsoft : ∀ {w : LimitWorld}, w.Sane → w.SoftWithinHard := fun hs q _ r => hs.soft q r
  obtain ⟨hpre, hlast⟩ := h.invariant (I := Sane) (sane_start pid) fun _ _ _ => Sane.step
  refine ⟨⟨fun x hx => hsoft (hpre x hx), hsoft hlast⟩, ?_⟩
  refine h.forall_iff_of (I := fun w => w.Sane ∧ w.HardWithinParent)
    (P := fun w e => (w.next e).HardWithinParent) (C := ForkUnlimited) ⟨sane_start pid, nofun⟩ ?_ ?_
  · rintro w e _ ⟨hs, hhard⟩ hC ⟨hpid, rfl⟩
    exact ⟨hs.step ⟨hpid, rfl⟩, (hardWithinParent_next hhard hs).mpr hC⟩
  · rintro w e w' ⟨hs, hhard⟩ _
    exact hardWithinParent_next hhard hs

theorem run_limits_iff_fork : let tr : List (LimitWorld × LimitEvent) := [(start 1, .fork 1 true)]
    (∀ x ∈ tr, (x.1.next x.2).HardWithinParent) ↔ ∀ x ∈ tr, x.1.ForkUnlimited x.2 :=
  (run_limits_iff (Run.nil.snoc (show Step (start 1) (.fork 1 true) _ from ⟨by decide, rfl⟩))).2

theorem forked_child_exceeds_parent : let w := (start 1).next (.setrlimit 1 7 (some (10, 10)))
    Step (start 1) (.setrlimit 1 7 (some (10, 10))) w ∧ Step w (.fork 1 true) (w.next (.fork 1 true)) ∧
      (w.rlimits.get 1 7).max = 10 ∧ ((w.next (.fork 1 true)).rlimits.get 2 7).max = rlimInfinity ∧
      ¬ (w.next (.fork 1 true)).HardWithinParent := by
  refine ⟨⟨by decide, rfl⟩, ⟨by decide, rfl⟩, by decide, by decide, fun h => ?_⟩
  exact absurd (h 2 _ rfl 7) (by decide)

end LimitWorld
end NodeKernel
