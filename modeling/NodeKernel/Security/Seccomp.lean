import NodeKernel.Process.Kernel

/-!
# System call filters

The policy table of `seccomp` and the part of the dispatcher that consults it. An entry is made by the
calls that lock it, so there is never a policy that still learns.
-/
namespace NodeKernel

open Function List

def nrSeccomp : ℕ := 317
def seccompAiLock : ℕ := 100

structure SeccompPolicy where
  allowed : Finset ℕ
  locked : Bool
  deriving DecidableEq

def strictAllowed : Finset ℕ := {0, 1, 60, 231}

abbrev SeccompTable : Type := ℕ → Option SeccompPolicy

/-- `passes` says whether the namespace, capability and confinement checks before the filter let the call
through. -/
structure SysCall where
  pid : ℕ
  nr : ℕ
  arg0 : ℕ
  passes : Bool
  deriving DecidableEq

namespace SeccompTable

def seccompObserve (t : SeccompTable) (pid nr : ℕ) : SeccompTable :=
  match t pid with
  | some pol => if pol.locked then t else update t pid (some { pol with allowed := insert nr pol.allowed })
  | none => t

def seccompCheck (t : SeccompTable) (pid nr : ℕ) : Bool :=
  match t pid with
  | some pol => if pol.locked then decide (nr ∈ pol.allowed) else true
  | none => true

def sysSeccomp (t : SeccompTable) (pid op : ℕ) : SeccompTable × ℤ :=
  if op = 0 then (update t pid (some ⟨strictAllowed, true⟩), 0)
  else if op = seccompAiLock then
    let pol := (t pid).getD ⟨∅, false⟩
    (update t pid (some { pol with locked := true }), 0)
  else (t, einval)

/-- The filter of the dispatcher: what it does to the table, and the result if the call does not reach
another handler. -/
def dispatch (t : SeccompTable) (c : SysCall) : SeccompTable × Option ℤ :=
  if !c.passes then (t, some eperm)
  else
    let t := t.seccompObserve c.pid c.nr
    if c.nr ≠ nrSeccomp ∧ !t.seccompCheck c.pid c.nr then (t, some eperm)
    else if c.nr = nrSeccomp then ((t.sysSeccomp c.pid c.arg0).1, some (t.sysSeccomp c.pid c.arg0).2)
    else (t, none)

def next (t : SeccompTable) (c : SysCall) : SeccompTable := (t.dispatch c).1

def permitted (t : SeccompTable) (pid : ℕ) : Set ℕ := {nr | nr = nrSeccomp ∨ t.seccompCheck pid nr}

def after (l : List SysCall) : SeccompTable := l.foldl next fun _ => none

end SeccompTable

namespace SysCall

def setsStrict (p : ℕ) (c : SysCall) : Bool := c.pid == p && c.passes && c.nr == nrSeccomp && c.arg0 == 0

def locks (p : ℕ) (c : SysCall) : Bool :=
  c.pid == p && c.passes && c.nr == nrSeccomp && c.arg0 == seccompAiLock

end SysCall

namespace SeccompTable

lemma seccompObserve_of_ne (t : SeccompTable) {pid p : ℕ} (h : p ≠ pid) (nr : ℕ) : t.seccompObserve pid nr p = t p := by
  unfold seccompObserve
  cases t pid with
  | none => rfl
  | some pol =>
    dsimp only
    split_ifs
    · rfl
    · exact update_of_ne h _ _

lemma sysSeccomp_of_ne (t : SeccompTable) {pid p : ℕ} (h : p ≠ pid) (op : ℕ) : (t.sysSeccomp pid op).1 p = t p := by
  unfold sysSeccomp
  split_ifs
  · exact update_of_ne h _ _
  · exact update_of_ne h _ _
  · rfl

variable {t : SeccompTable} {p : ℕ}

lemma next_of_ne (t : SeccompTable) {c : SysCall} (h : p ≠ c.pid) : t.next c p = t p := by
  have hobserve := t.seccompObserve_of_ne h c.nr
  unfold next dispatch
  dsimp only
  split_ifs
  · rfl
  · exact hobserve
  · exact (sysSeccomp_of_ne _ h _).trans hobserve
  · exact hobserve

lemma next_self (t : SeccompTable) (c : SysCall) (h : ∀ pol, t p = some pol → pol.locked) :
    t.next c p = if c.setsStrict p then some ⟨strictAllowed, true⟩
      else if c.locks p then some ⟨((t p).getD ⟨∅, false⟩).allowed, true⟩ else t p := by
  by_cases hpid : c.pid = p
  · subst hpid
    have hobserve : t.seccompObserve c.pid c.nr = t := by
      unfold seccompObserve
      cases hpol : t c.pid with
      | none => rfl
      | some pol => exact if_pos (h pol hpol)
    unfold next dispatch SysCall.setsStrict SysCall.locks
    rw [hobserve]
    cases hpasses : c.passes with
    | false => simp
    | true =>
      by_cases hnr : c.nr = nrSeccomp
      · by_cases hstrict : c.arg0 = 0
        · simp [hnr, hstrict, sysSeccomp]
        · by_cases hlock : c.arg0 = seccompAiLock
          · simp [hnr, hlock, seccompAiLock, sysSeccomp]
          · simp [hnr, hstrict, hlock, sysSeccomp]
      · by_cases hcheck : t.seccompCheck c.pid c.nr <;> simp [hnr, hcheck]
  · rw [next_of_ne t (Ne.symm hpid)]
    simp [SysCall.setsStrict, SysCall.locks, hpid]

lemma permitted_eq_of_locked {A : Finset ℕ} (h : t p = some ⟨A, true⟩) : t.permitted p = insert nrSeccomp ↑A := by
  ext nr
  unfold permitted seccompCheck
  rw [h]
  simp

/-- Every policy is locked and lets through only calls of strict mode. -/
def Narrow (t : SeccompTable) : Prop :=
  ∀ pid pol, t pid = some pol → pol.locked ∧ pol.allowed ⊆ strictAllowed

lemma Narrow.next (h : t.Narrow) (c : SysCall) : (t.next c).Narrow := by
  intro pid pol hpol
  rw [next_self t c fun pol hpol => (h pid pol hpol).1] at hpol
  split_ifs at hpol
  · cases hpol
    exact ⟨rfl, Finset.Subset.refl _⟩
  · cases hpol
    refine ⟨rfl, ?_⟩
    cases hold : t pid with
    | none => exact Finset.empty_subset _
    | some pol => exact (h pid pol hold).2
  · exact h pid pol hpol

lemma Narrow.none_of_dispatch (h : t.Narrow) {c : SysCall} (hres : (t.dispatch c).2 = none)
    (hnr : c.nr ∉ strictAllowed) : t.next c c.pid = none := by
  cases hpol : t c.pid with
  | none =>
    unfold SeccompTable.next
    unfold dispatch seccompObserve at hres ⊢
    rw [hpol] at hres ⊢
    dsimp only at hres ⊢
    split_ifs at hres ⊢
    exact hpol
  | some pol =>
    obtain ⟨hlocked, hsub⟩ := h c.pid pol hpol
    have hblocked : ∀ nr, nr ∉ strictAllowed → t.seccompCheck c.pid nr = false := by
      intro nr hnr
      unfold seccompCheck
      rw [hpol]
      simp only [hlocked, if_true, decide_eq_false_iff_not]
      exact fun hmem => hnr (hsub hmem)
    have hobserve : t.seccompObserve c.pid c.nr = t := by
      unfold seccompObserve
      rw [hpol]
      exact if_pos hlocked
    unfold dispatch at hres
    rw [hobserve] at hres
    simp only [hblocked c.nr hnr] at hres
    split_ifs at hres
    simp_all

/-! ## The learned policy -/

def policyAfter (p : ℕ) (l : List SysCall) : Option SeccompPolicy :=
  if l.any (SysCall.setsStrict p) then some ⟨strictAllowed, true⟩
  else if l.any (SysCall.locks p) then some ⟨∅, true⟩
  else none

lemma policyAfter_locked {l : List SysCall} {pol : SeccompPolicy} (h : policyAfter p l = some pol) : pol.locked := by
  unfold policyAfter at h
  split_ifs at h <;> cases h <;> rfl

lemma policyAfter_concat (p : ℕ) (l : List SysCall) (c : SysCall) :
    policyAfter p (l ++ [c]) = if c.setsStrict p then some ⟨strictAllowed, true⟩
      else if c.locks p then some ⟨((policyAfter p l).getD ⟨∅, false⟩).allowed, true⟩ else policyAfter p l := by
  unfold policyAfter
  simp only [any_append, any_cons, any_nil, Bool.or_false]
  cases l.any (SysCall.setsStrict p) <;> cases l.any (SysCall.locks p) <;>
    cases c.setsStrict p <;> cases c.locks p <;> rfl

lemma after_eq (p : ℕ) (l : List SysCall) : after l p = policyAfter p l := by
  induction l using reverseRecOn with
  | nil => rfl
  | append_singleton l c ih =>
    have hnext : after (l ++ [c]) = (after l).next c := foldl_append
    rw [hnext, next_self (after l) c fun pol hpol => policyAfter_locked (ih ▸ hpol), ih, policyAfter_concat]

/-- No history gives a process another filter than none, that of strict mode, or one that lets nothing but `seccomp`
through. -/
theorem after_permitted (l : List SysCall) (p : ℕ) : (after l).permitted p = Set.univ ∨
    (after l).permitted p = insert nrSeccomp ↑strictAllowed ∨ (after l).permitted p = {nrSeccomp} := by
  have hpol := after_eq p l
  unfold policyAfter at hpol
  split_ifs at hpol
  · exact .inr (.inl (permitted_eq_of_locked hpol))
  · exact .inr (.inr (by simp [permitted_eq_of_locked hpol]))
  · exact .inl (by simp [permitted, seccompCheck, hpol])

def issued (p : ℕ) (l : List SysCall) : List ℕ := (l.filter (fun c => c.pid == p)).map SysCall.nr

def aiLock (p : ℕ) : SysCall := ⟨p, nrSeccomp, seccompAiLock, true⟩

lemma mem_permitted_aiLock (p : ℕ) (history later : List SysCall) (nr : ℕ) :
    nr ∈ (after (history ++ aiLock p :: later)).permitted p ↔
      nr = nrSeccomp ∨ (history ++ later).any (SysCall.setsStrict p) ∧ nr ∈ strictAllowed := by
  have hlock : (aiLock p).setsStrict p = false ∧ (aiLock p).locks p = true := by
    constructor <;> simp [aiLock, SysCall.setsStrict, SysCall.locks, seccompAiLock]
  have hpolicy : after (history ++ aiLock p :: later) p =
      some ⟨if (history ++ later).any (SysCall.setsStrict p) then strictAllowed else ∅, true⟩ := by
    rw [after_eq]
    unfold policyAfter
    simp only [any_append, any_cons, hlock.1, hlock.2, Bool.false_or, Bool.true_or, Bool.or_true]
    split_ifs <;> rfl
  rw [permitted_eq_of_locked hpolicy, Set.mem_insert_iff]
  split_ifs with hstrict <;> simp [hstrict]

/-- After the lock the filter lets through what the process did before exactly if it did nothing, or
exactly the calls of strict mode and asks for strict mode, before the lock or after it. The calls of
other processes change nothing. -/
theorem learned_iff (p : ℕ) (history later : List SysCall) :
    ((∀ nr, nr ∈ (after (history ++ aiLock p :: later)).permitted p ↔ nr ∈ issued p (history ++ [aiLock p])) ↔
      ∀ nr, nr ≠ nrSeccomp → (nr ∈ issued p history ↔ (history ++ later).any (SysCall.setsStrict p) ∧ nr ∈ strictAllowed)) ∧
    ∀ (t : SeccompTable) (c : SysCall), p ≠ c.pid → t.next c p = t p := by
  have hissued : ∀ nr, nr ∈ issued p (history ++ [aiLock p]) ↔ nr = nrSeccomp ∨ nr ∈ issued p history := by
    intro nr
    simp [issued, aiLock, or_comm]
  refine ⟨forall_congr' fun nr => ?_, fun t c => t.next_of_ne⟩
  rw [mem_permitted_aiLock, hissued]
  by_cases hnr : nr = nrSeccomp
  · simp [hnr]
  · simp only [hnr, false_or, ne_eq, not_false_eq_true, true_imp_iff]
    exact iff_comm

theorem learned_iff_empty : (∀ nr, nr ∈ (after [aiLock 1]).permitted 1 ↔ nr ∈ issued 1 [aiLock 1]) ↔
      ∀ nr, nr ≠ nrSeccomp → (nr ∈ issued 1 [] ↔ ([] : List SysCall).any (SysCall.setsStrict 1) ∧ nr ∈ strictAllowed) :=
  (learned_iff 1 [] []).1

theorem locked_process_may_not_read :
    0 ∈ issued 1 [⟨1, 0, 3, true⟩] ∧ ((after [⟨1, 0, 3, true⟩, aiLock 1]).dispatch ⟨1, 0, 3, true⟩).2 = some eperm := by
  decide +kernel

/-! ## Narrowing -/

/-- An enforcing policy narrows through a run exactly if a call for strict mode is made only where the
four calls are let through already. -/
theorem run_narrows_iff {p : ℕ} {pol : SeccompPolicy} {t₀ t : SeccompTable} {tr : List (SeccompTable × SysCall)}
    (hpol : t₀ p = some pol) (hlocked : pol.locked) (h : Run (fun t c t' => t' = next t c) t₀ tr t) :
    (∀ x ∈ tr, (x.1.next x.2).permitted p ⊆ x.1.permitted p) ↔
      ∀ x ∈ tr, x.2.setsStrict p → ↑strictAllowed ⊆ x.1.permitted p := by
  have hnext : ∀ (t : SeccompTable) (c : SysCall) (A : Finset ℕ), t p = some ⟨A, true⟩ →
      t.next c p = some ⟨if c.setsStrict p then strictAllowed else A, true⟩ := by
    intro t c A hA
    rw [next_self t c (by rw [hA]; rintro _ ⟨⟩; rfl), hA]
    split_ifs <;> rfl
  refine h.forall_iff_of (I := fun t => ∃ A, t p = some ⟨A, true⟩)
    (P := fun t c => (t.next c).permitted p ⊆ t.permitted p)
    (C := fun t c => c.setsStrict p → ↑strictAllowed ⊆ t.permitted p) ?_ ?_ ?_
  · obtain ⟨A, locked⟩ := pol
    cases hlocked
    exact ⟨A, hpol⟩
  · rintro t c _ ⟨A, hA⟩ _ rfl
    exact ⟨_, hnext t c A hA⟩
  · rintro t c _ ⟨A, hA⟩ _
    rw [permitted_eq_of_locked (hnext t c A hA), permitted_eq_of_locked hA]
    split_ifs with hstrict
    · simp [hstrict, Set.insert_subset_iff]
    · simp [hstrict]

def setStrict (p : ℕ) : SysCall := ⟨p, nrSeccomp, 0, true⟩

theorem run_narrows_iff_strict : let t := after [aiLock 1]
    (∀ x ∈ [(t, setStrict 1)], (x.1.next x.2).permitted 1 ⊆ x.1.permitted 1) ↔
      ∀ x ∈ [(t, setStrict 1)], x.2.setsStrict 1 → ↑strictAllowed ⊆ x.1.permitted 1 :=
  run_narrows_iff (after_eq 1 [aiLock 1]) rfl (Run.nil.snoc rfl)

theorem strict_widens_locked : ((after [aiLock 1]).dispatch ⟨1, 1, 1, true⟩).2 = some eperm ∧
      ((after [aiLock 1, setStrict 1]).dispatch ⟨1, 1, 1, true⟩).2 = none := by
  decide +kernel

end SeccompTable
end NodeKernel
