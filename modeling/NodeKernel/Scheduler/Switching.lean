import Mathlib.Data.List.Nodup
import NodeKernel.Lib.Run
import NodeKernel.Scheduler.Tasks

/-!
# Task switching

What the queue says about the task states in every reachable state, which stack pointer
a timer interrupt returns, and when it makes progress.
-/
namespace NodeKernel

open List Option RunQueue
namespace Scheduler

variable {s : Scheduler} {p q : Pid} {f : Task → Task}

@[simp] lemma modifyTask_runqueue : (s.modifyTask p f).runqueue = s.runqueue := rfl

lemma modifyTask_self : (s.modifyTask p f).tasks p = (s.tasks p).map f := if_pos rfl

lemma modifyTask_ne (h : q ≠ p) : (s.modifyTask p f).tasks q = s.tasks q := if_neg h

lemma modifyTask_eq_none (h : s.tasks q = none) : (s.modifyTask p f).tasks q = none := by
  by_cases hqp : q = p
  · subst hqp
    rw [modifyTask_self, h]
    rfl
  · rw [modifyTask_ne hqp, h]

lemma stateOf_modifyTask_ne (h : q ≠ p) : (s.modifyTask p f).stateOf q = s.stateOf q := by
  unfold stateOf
  rw [modifyTask_ne h]

lemma stateOf_modifyTask_keep (hf : ∀ t, (f t).state = t.state) : (s.modifyTask p f).stateOf = s.stateOf := by
  funext q
  by_cases h : q = p
  · subst h
    unfold stateOf
    rw [modifyTask_self, Option.map_map]
    congr 1
    funext t
    exact hf t
  · exact stateOf_modifyTask_ne h

lemma rspOf_modifyTask_keep (hf : ∀ t, (f t).savedKernelRsp = t.savedKernelRsp) : (s.modifyTask p f).rspOf = s.rspOf := by
  funext q
  unfold rspOf
  by_cases h : q = p
  · subst h
    rw [modifyTask_self, Option.map_map]
    congr 1
    funext t
    exact hf t
  · rw [modifyTask_ne h]

lemma stateOf_modifyTask_self {st : TaskState} (hp : s.stateOf p ≠ none)
    (hf : ∀ t, (f t).state = st) : (s.modifyTask p f).stateOf p = some st := by
  unfold stateOf at hp ⊢
  rw [modifyTask_self]
  cases ht : s.tasks p with
  | none => exact absurd (by rw [ht]; rfl) hp
  | some t =>
    change some (f t).state = some st
    rw [hf]

/-- The queue holds runnable tasks, each once, and the current slot a task that is neither
asleep nor dead. -/
structure Sane (s : Scheduler) : Prop where
  nodup : s.runqueue.queue.Nodup
  apart : ∀ p, s.runqueue.currentPid = some p → p ∉ s.runqueue.queue
  queued : ∀ p ∈ s.runqueue.queue, s.stateOf p = some .runnable
  current : ∀ p, s.runqueue.currentPid = some p →
    s.stateOf p = some .running ∨ s.stateOf p = some .runnable
  fresh : ∀ p, s.nextPid ≤ p → s.tasks p = none

lemma Sane.congr (h : s.Sane) {s' : Scheduler} (hst : s'.stateOf = s.stateOf)
    (hrq : s'.runqueue = s.runqueue) (hn : s'.nextPid = s.nextPid) : s'.Sane := by
  refine ⟨?_, ?_, ?_, ?_, ?_⟩
  · rw [hrq]; exact h.nodup
  · rw [hrq]; exact h.apart
  · rw [hrq, hst]; exact h.queued
  · rw [hrq, hst]; exact h.current
  · intro p hp
    rw [hn] at hp
    have hnone : s'.stateOf p = none := by
      rw [hst]
      unfold stateOf
      rw [h.fresh p hp]
      rfl
    exact map_eq_none_iff.mp hnone

/-- A task that is neither runnable nor running is made runnable and put in the queue. -/
theorem Sane.added (h : s.Sane) {s' : Scheduler} (hp : s.stateOf p ≠ some .runnable ∧ s.stateOf p ≠ some .running)
    (hrq : s'.runqueue = s.runqueue.enqueue p) (hself : s'.stateOf p = some .runnable)
    (hother : ∀ q, q ≠ p → s'.stateOf q = s.stateOf q) (hfresh : ∀ q, s'.nextPid ≤ q → s'.tasks q = none) : s'.Sane := by
  have hcur : ∀ q, s.runqueue.currentPid = some q → q ≠ p := by
    rintro q hq rfl
    exact (h.current q hq).elim hp.2 hp.1
  refine ⟨?_, ?_, ?_, ?_, hfresh⟩ <;> rw [hrq]
  · exact h.nodup.append (nodup_singleton p) (disjoint_singleton.mpr (fun hmem => hp.1 (h.queued p hmem)))
  · intro q hq hmem
    rcases mem_append.mp hmem with hmem | hmem
    · exact h.apart q hq hmem
    · exact hcur q hq (mem_singleton.mp hmem)
  · intro q hq
    by_cases hqp : q = p
    · rw [hqp, hself]
    · rw [hother q hqp]
      exact h.queued q ((mem_append.mp hq).resolve_right (fun hmem => hqp (mem_singleton.mp hmem)))
  · intro q hq
    rw [hother q (hcur q hq)]
    exact h.current q hq

lemma Sane.rouse (h : s.Sane) (hp : s.stateOf p = some .sleeping)
    (hf : ∀ t, (f t).state = .runnable) : ((s.modifyTask p f).enqueue p).Sane :=
  h.added (by simp [hp]) rfl (stateOf_modifyTask_self (by simp [hp]) hf) (fun _ hq => stateOf_modifyTask_ne hq)
    (fun q hq => modifyTask_eq_none (h.fresh q hq))

lemma Sane.drop (h : s.Sane) : Sane { s.modifyTask p f with runqueue := s.runqueue.remove p } := by
  refine ⟨?_, ?_, ?_, ?_, ?_⟩
  · exact h.nodup.filter _
  · intro q hq hmem
    exact h.apart q (remove_currentPid hq).1 (mem_remove.mp hmem).1
  · intro q hq
    obtain ⟨hq, hne⟩ := mem_remove.mp hq
    change (s.modifyTask p f).stateOf q = _
    rw [stateOf_modifyTask_ne hne]
    exact h.queued q hq
  · intro q hq
    obtain ⟨hq, hne⟩ := remove_currentPid hq
    change (s.modifyTask p f).stateOf q = _ ∨ (s.modifyTask p f).stateOf q = _
    rw [stateOf_modifyTask_ne hne]
    exact h.current q hq
  · exact fun q hq => modifyTask_eq_none (h.fresh q hq)

/-- What every operation outside the timer interrupt does: saved stack pointers stay, and
the current slot is kept or emptied. -/
structure Calm (s s' : Scheduler) : Prop where
  sane : s.Sane → s'.Sane
  rsp : ∀ p r, s'.rspOf p = some r → s.rspOf p = some r
  slot : ∀ p, s'.runqueue.currentPid = some p → s.runqueue.currentPid = some p

lemma Calm.refl (s : Scheduler) : Calm s s := ⟨id, fun _ _ h => h, fun _ h => h⟩

lemma Calm.trans {s t u : Scheduler} (h : Calm s t) (h' : Calm t u) : Calm s u :=
  ⟨fun hs => h'.sane (h.sane hs), fun p r hr => h.rsp p r (h'.rsp p r hr), fun p hp => h.slot p (h'.slot p hp)⟩

lemma Calm.modifyTask (hst : ∀ t, (f t).state = t.state)
    (hrsp : ∀ t, (f t).savedKernelRsp = t.savedKernelRsp) : Calm s (s.modifyTask p f) := by
  refine ⟨fun h => h.congr (stateOf_modifyTask_keep hst) rfl rfl, ?_, fun _ h => h⟩
  intro q r hr
  rwa [rspOf_modifyTask_keep hrsp] at hr

lemma Calm.rouse (hp : s.stateOf p = some .sleeping) (hst : ∀ t, (f t).state = .runnable)
    (hrsp : ∀ t, (f t).savedKernelRsp = t.savedKernelRsp) : Calm s ((s.modifyTask p f).enqueue p) := by
  refine ⟨fun h => h.rouse hp hst, ?_, fun _ h => h⟩
  intro q r hr
  change (s.modifyTask p f).rspOf q = some r at hr
  rwa [rspOf_modifyTask_keep hrsp] at hr

lemma Calm.drop (hrsp : ∀ t, (f t).savedKernelRsp = t.savedKernelRsp) :
    Calm s { s.modifyTask p f with runqueue := s.runqueue.remove p } := by
  refine ⟨fun h => h.drop, ?_, fun q hq => (remove_currentPid hq).1⟩
  intro q r hr
  change (s.modifyTask p f).rspOf q = some r at hr
  rwa [rspOf_modifyTask_keep hrsp] at hr

lemma sleepCurrent_calm : Calm s s.sleepCurrent := by
  unfold sleepCurrent
  cases s.runqueue.currentPid with
  | none => exact Calm.refl s
  | some pid => exact Calm.drop (fun _ => rfl)

lemma wakePid_calm : Calm s (s.wakePid p) := by
  unfold wakePid
  split
  next h => exact Calm.rouse h (fun _ => rfl) (fun _ => rfl)
  · exact Calm.refl s

lemma preWake_calm : Calm s (s.preWake p) := by
  unfold preWake
  split
  next h => exact Calm.rouse h (fun _ => rfl) (fun _ => rfl)
  · exact Calm.refl s

lemma sendSignal_calm {signum : ℕ} : Calm s (s.sendSignal p signum) := by
  unfold sendSignal
  split
  · exact Calm.refl s
  · dsimp only
    have hset : Calm s (s.modifyTask p
        (fun t => { t with pendingSignals := t.pendingSignals ||| 1 <<< signum })) :=
      Calm.modifyTask (fun _ => rfl) (fun _ => rfl)
    split
    · exact hset.trans wakePid_calm
    · exact hset

variable {code : ℤ}

lemma markZombie_calm : Calm s (s.markZombie p code) := Calm.drop (fun _ => rfl)

lemma notifyParent_calm : Calm s (s.notifyParent p) := by
  unfold notifyParent
  split
  · exact wakePid_calm.trans sendSignal_calm
  · exact Calm.refl s

lemma exitCurrentDirect_calm : Calm s (s.exitCurrentDirect p code) := markZombie_calm.trans notifyParent_calm

lemma exitCurrent_calm : Calm s (s.exitCurrent code) := by
  unfold exitCurrent
  dsimp only
  split
  · exact markZombie_calm.trans notifyParent_calm
  · exact Calm.refl s

lemma findZombieChild_zombie {parent : Pid} (h : s.findZombieChild parent = some (p, code)) : s.stateOf p = some .zombie := by
  obtain ⟨a, _, ha⟩ := exists_of_findSome?_eq_some h
  unfold stateOf
  cases ht : s.tasks a with
  | none => simp [ht] at ha
  | some t =>
    simp only [ht] at ha
    split at ha
    next hz =>
      obtain ⟨rfl, _⟩ := Prod.mk.inj (Option.some.inj ha)
      rw [ht, map_some, hz.2]
    · cases ha

lemma reapZombieChild_calm : Calm s (s.reapZombieChild p).2 := by
  unfold reapZombieChild
  cases hz : s.findZombieChild p with
  | none => exact Calm.refl s
  | some c =>
    obtain ⟨cpid, code⟩ := c
    have hzombie := findZombieChild_zombie hz
    have hkeep : ∀ q, s.stateOf q ≠ some .zombie → (if q = cpid then none else s.tasks q) = s.tasks q := by
      intro q hq
      have hne : q ≠ cpid := fun he => hq (he ▸ hzombie)
      exact if_neg hne
    refine ⟨?_, ?_, fun _ h => h⟩
    · intro h
      refine ⟨h.nodup, h.apart, ?_, ?_, ?_⟩
      · intro q hq
        have hst := h.queued q hq
        change Option.map _ (if q = cpid then none else s.tasks q) = _
        rw [hkeep q (by rw [hst]; simp)]
        exact hst
      · intro q hq
        have hst := h.current q hq
        change Option.map _ (if q = cpid then none else s.tasks q) = _ ∨ Option.map _ (if q = cpid then none else s.tasks q) = _
        rw [hkeep q (by cases hst with | inl h' => rw [h']; simp | inr h' => rw [h']; simp)]
        exact hst
      · intro q hq
        change (if q = cpid then none else s.tasks q) = none
        split
        · rfl
        · exact h.fresh q hq
    · intro q r hr
      change Option.map _ (if q = cpid then none else s.tasks q) = some r at hr
      split at hr
      · cases hr
      · exact hr

@[simp] lemma wakePid_currentPid : (s.wakePid p).runqueue.currentPid = s.runqueue.currentPid := by
  unfold wakePid
  split <;> rfl

@[simp] lemma preWake_currentPid : (s.preWake p).runqueue.currentPid = s.runqueue.currentPid := by
  unfold preWake
  split <;> rfl

@[simp] lemma killTask_currentPid : (s.killTask p code).runqueue.currentPid = s.runqueue.currentPid := by
  unfold killTask sendSignal
  dsimp only
  split
  · rfl
  · split
    · rw [wakePid_currentPid, modifyTask_runqueue]
    · rfl

lemma foldl_preWake (l : List Pid) (s : Scheduler) : Calm s (l.foldl preWake s) ∧
    (l.foldl preWake s).runqueue.currentPid = s.runqueue.currentPid := by
  induction l generalizing s with
  | nil => exact ⟨Calm.refl s, rfl⟩
  | cons p l ih =>
    obtain ⟨hcalm, hcur⟩ := ih (s.preWake p)
    exact ⟨preWake_calm.trans hcalm, hcur.trans preWake_currentPid⟩

/-- Every pid of the queue and of the slot is runnable and occurs once. -/
structure AllReady (s : Scheduler) : Prop where
  nodup : s.runqueue.rotation.Nodup
  ready : ∀ p ∈ s.runqueue.rotation, s.stateOf p = some .runnable
  fresh : ∀ p, s.nextPid ≤ p → s.tasks p = none

lemma AllReady.sane (h : s.AllReady) : s.Sane := by
  have hnodup := h.nodup
  unfold RunQueue.rotation at hnodup
  rw [nodup_append] at hnodup
  have hmem : ∀ p, s.runqueue.currentPid = some p → p ∈ s.runqueue.currentPid.toList := by
    intro p hp
    rw [hp]
    exact mem_cons_self
  refine ⟨hnodup.1, ?_, ?_, ?_, h.fresh⟩
  · intro p hp hq
    exact hnodup.2.2 p hq p (hmem p hp) rfl
  · intro p hp
    exact h.ready p (mem_append_left _ hp)
  · intro p hp
    exact .inr (h.ready p (mem_append_right _ (hmem p hp)))

lemma AllReady.reorder (h : s.AllReady) {rq : RunQueue}
    (hperm : rq.rotation.Perm s.runqueue.rotation) : AllReady { s with runqueue := rq } :=
  ⟨hperm.nodup_iff.mpr h.nodup, fun p hp => h.ready p (hperm.mem_iff.mp hp), h.fresh⟩

lemma Sane.rotation_nodup (h : s.Sane) : s.runqueue.rotation.Nodup := by
  unfold RunQueue.rotation
  cases hcur : s.runqueue.currentPid with
  | none =>
    rw [toList_none, append_nil]
    exact h.nodup
  | some p => exact h.nodup.append (nodup_singleton p) (disjoint_singleton.mpr (h.apart p hcur))

lemma Sane.saveOutgoing (h : s.Sane) (hcur : s.runqueue.currentPid = some p) (oldRsp : ℕ) :
    (s.saveOutgoing p oldRsp).AllReady := by
  have hrot : s.runqueue.rotation = s.runqueue.queue ++ [p] := by
    unfold RunQueue.rotation
    rw [hcur]
    rfl
  have hself : (s.saveOutgoing p oldRsp).stateOf p = some .runnable := by
    have hst := h.current p hcur
    unfold stateOf at hst ⊢
    unfold Scheduler.saveOutgoing
    rw [modifyTask_self]
    cases ht : s.tasks p with
    | none => simp [ht] at hst
    | some t =>
      simp only [ht, map_some, Option.some.injEq] at hst ⊢
      split
      · rfl
      next hne => exact hst.resolve_left hne
  refine ⟨h.rotation_nodup, ?_, ?_⟩
  · intro q hq
    change q ∈ s.runqueue.rotation at hq
    rw [hrot, mem_append, mem_singleton] at hq
    by_cases hqp : q = p
    · rw [hqp]; exact hself
    · unfold Scheduler.saveOutgoing
      rw [stateOf_modifyTask_ne hqp]
      exact h.queued q (hq.resolve_right hqp)
  · exact fun q hq => modifyTask_eq_none (h.fresh q hq)

lemma rspOf_saveOutgoing {oldRsp r : ℕ} (h : (s.saveOutgoing p oldRsp).rspOf q = some r) :
    (q = p ∧ r = oldRsp) ∨ (q ≠ p ∧ s.rspOf q = some r) := by
  unfold rspOf saveOutgoing at h
  by_cases hqp : q = p
  · subst hqp
    rw [modifyTask_self, Option.map_map] at h
    obtain ⟨t, _, ht⟩ := map_eq_some_iff.mp h
    exact .inl ⟨rfl, ht.symm⟩
  · rw [modifyTask_ne hqp] at h
    exact .inr ⟨hqp, h⟩

lemma Sane.markRunning (h : s.Sane) (hcur : s.runqueue.currentPid = some p) (uptimeMs : ℕ) :
    (s.markRunning p uptimeMs).Sane := by
  have hother : ∀ q, q ≠ p → (s.markRunning p uptimeMs).stateOf q = s.stateOf q := fun q hq => stateOf_modifyTask_ne hq
  have hsome : s.stateOf p ≠ none := by
    rcases h.current p hcur with h' | h'
    · rw [h']; simp
    · rw [h']; simp
  refine ⟨h.nodup, h.apart, ?_, ?_, ?_⟩
  · intro q hq
    rw [hother q (fun he => h.apart p hcur (he ▸ hq))]
    exact h.queued q hq
  · intro q hq
    have hqp : q = p := mem_unique hq hcur
    rw [hqp]
    exact .inl (stateOf_modifyTask_self hsome (fun _ => rfl))
  · exact fun q hq => modifyTask_eq_none (h.fresh q hq)

/-- The outcome of an interrupt that found `p` in the current slot. -/
structure Dispatched (s : Scheduler) (p : Pid) (oldRsp : ℕ) (r : ℕ × Scheduler) : Prop where
  sane : r.2.Sane
  resumed : ∃ next, r.2.runqueue.currentPid = some next ∧ r.2.rspOf next = some r.1
  rsp : ∀ q w, r.2.rspOf q = some w → (q = p ∧ w = oldRsp) ∨ (q ≠ p ∧ s.rspOf q = some w)

lemma Sane.switchTo {s₀ : Scheduler} {uptimeMs oldRsp : ℕ} (h : s.Sane) (hcur : s.runqueue.currentPid = some q)
    (hrsp : ∀ a w, s.rspOf a = some w → (a = p ∧ w = oldRsp) ∨ (a ≠ p ∧ s₀.rspOf a = some w)) :
    Dispatched s₀ p oldRsp (s.switchTo q uptimeMs oldRsp) := by
  unfold Scheduler.switchTo
  cases ht : s.tasks q with
  | none =>
    have hst := h.current q hcur
    simp [stateOf, ht] at hst
  | some t =>
    have hkeep : (s.markRunning q uptimeMs).rspOf = s.rspOf := rspOf_modifyTask_keep (fun _ => rfl)
    have hq : s.rspOf q = some t.savedKernelRsp := by
      unfold rspOf
      rw [ht]
      rfl
    exact ⟨h.markRunning hcur uptimeMs, ⟨q, hcur, hkeep ▸ hq⟩, fun a w hw => hrsp a w (hkeep ▸ hw)⟩

lemma scheduleFromInterrupt_none (hcur : s.runqueue.currentPid = none) (input : TickInput)
    (oldRsp : ℕ) : s.scheduleFromInterrupt input oldRsp = (oldRsp, { s with uptimeMs := (s.uptimeMs + 10) % 2 ^ 64 }) := by
  unfold scheduleFromInterrupt
  simp only [hcur]

lemma Sane.scheduleFromInterrupt_some (h : s.Sane) (hcur : s.runqueue.currentPid = some p) (input : TickInput) (oldRsp : ℕ) :
    Dispatched s p oldRsp (s.scheduleFromInterrupt input oldRsp) := by
  unfold scheduleFromInterrupt
  simp only [hcur]
  generalize hup : ({ s with uptimeMs := (s.uptimeMs + 10) % 2 ^ 64 } : Scheduler) = s₀
  have hcalm₀ : Calm s s₀ := by
    subst hup
    exact ⟨fun h => h.congr rfl rfl rfl, fun _ _ h => h, fun _ h => h⟩
  have hcur₀ : s₀.runqueue.currentPid = some p := by
    subst hup
    exact hcur
  generalize hkill : (if s₀.canaryMismatch input p = true then s₀.killTask p 6 else s₀) = s₁
  have hcalm₁ : Calm s s₁ := by
    subst hkill
    split
    · exact hcalm₀.trans sendSignal_calm
    · exact hcalm₀
  have hcur₁ : s₁.runqueue.currentPid = some p := by
    subst hkill
    split
    · rw [killTask_currentPid, hcur₀]
    · exact hcur₀
  have hready := (hcalm₁.sane h).saveOutgoing hcur₁ oldRsp
  have hsaved : ∀ a w, (s₁.saveOutgoing p oldRsp).rspOf a = some w → (a = p ∧ w = oldRsp) ∨ (a ≠ p ∧ s.rspOf a = some w) := by
    intro a w hw
    rcases rspOf_saveOutgoing hw with hw | hw
    · exact .inl hw
    · exact .inr ⟨hw.1, hcalm₁.rsp a w hw.2⟩
  obtain ⟨hslot, hperm⟩ := foldl_moveToFront (input.successors p).reverse
    (s₁.saveOutgoing p oldRsp).runqueue
  generalize (input.successors p).reverse.foldl moveToFront
    (s₁.saveOutgoing p oldRsp).runqueue = rq at hslot hperm ⊢
  replace hslot : rq.currentPid = some p := hslot.trans hcur₁
  have hpsome : (s₁.saveOutgoing p oldRsp).rspOf p = some oldRsp := by
    have hst := hready.sane.current p hcur₁
    cases ht : (s₁.saveOutgoing p oldRsp).rspOf p with
    | none =>
      have hnone := map_eq_none_iff.mp ht
      simp [stateOf, hnone] at hst
    | some w =>
      rcases rspOf_saveOutgoing ht with hw | hw
      · rw [hw.2]
      · exact absurd rfl hw.1
  rcases tick_some hslot input.nextBurstTicks with htick | htick
  · obtain ⟨hnone, hsame, hqueue⟩ := htick
    rcases hr : rq.tick input.nextBurstTicks with ⟨next, rq'⟩
    rw [hr] at hnone hsame hqueue
    subst hnone
    have hrot : rq'.rotation.Perm (s₁.saveOutgoing p oldRsp).runqueue.rotation := by
      have he : rq'.rotation = rq.rotation := by
        unfold RunQueue.rotation
        rw [hqueue, hsame, hslot]
      rw [he]
      exact hperm
    exact ⟨(hready.reorder hrot).sane, ⟨p, hsame, hpsome⟩, hsaved⟩
  · obtain ⟨next, hsome, hcur', hrest⟩ := htick
    rcases hr : rq.tick input.nextBurstTicks with ⟨next', rq'⟩
    rw [hr] at hsome hcur' hrest
    subst hsome
    have hrot : rq'.rotation.Perm (s₁.saveOutgoing p oldRsp).runqueue.rotation := by
      have hfront : rq'.rotation.Perm (next :: rq'.queue) := by
        unfold RunQueue.rotation
        rw [hcur']
        exact perm_append_comm
      exact (hrest ▸ hfront).trans hperm
    have hsane := (hready.reorder hrot).sane
    obtain ⟨hwake, hkeep⟩ := foldl_preWake (input.successors next)
      { s₁.saveOutgoing p oldRsp with runqueue := rq' }
    exact (hwake.sane hsane).switchTo (hkeep.trans hcur')
      (fun a w hw => hsaved a w (hwake.rsp a w hw))

lemma Sane.spawn (h : s.Sane) (t : Task) : (s.spawn t).Sane := by
  have hnone : s.stateOf s.nextPid = none := by
    unfold stateOf
    rw [h.fresh _ (Nat.le_refl _)]
    rfl
  apply h.added (by simp [hnone]) rfl
  · unfold stateOf Scheduler.spawn
    dsimp only
    rw [if_pos rfl]
    rfl
  · intro q hq
    unfold stateOf Scheduler.spawn
    dsimp only
    rw [if_neg hq]
  · intro q hq
    change (if q = s.nextPid then _ else s.tasks q) = none
    rw [if_neg (Nat.ne_of_gt hq)]
    exact h.fresh q (Nat.le_of_succ_le hq)

lemma boot_sane (cr3 : ℕ) : (boot cr3).Sane := by
  have hcur : ∀ p, (boot cr3).runqueue.currentPid = some p → p = idlePid := fun p hp => (Option.some.inj hp).symm
  refine ⟨nodup_nil, fun p _ => not_mem_nil, fun p hp => absurd hp not_mem_nil, ?_, ?_⟩
  · intro p hp
    rw [hcur p hp]
    exact .inl rfl
  · intro p hp
    exact if_neg (Nat.ne_of_gt hp)

end Scheduler
end NodeKernel
