import Mathlib.Data.List.Nodup

/-!
# Queues of finished handshakes

Sessions are opened, become ready, wait in the queue of their port and are given out. Every session has a number of its
own, so that a key which is used again names another session.
-/
namespace NodeKernel

open Function List Option

inductive SessionPhase
  | opening
  | ready
  | other
  deriving DecidableEq

structure Backlog (K P : Type) where
  phase : K → Option SessionPhase
  queue : P → Option (List K)
  ident : K → ℕ
  clock : ℕ
  completed : List ℕ
  given : List ℕ

namespace Backlog

inductive Move (K P : Type)
  | listen (p : P)
  | opened (k : K)
  | completes (k : K)
  | changes (k : K) (ph : Option SessionPhase)
  | gives (p : P)
  | stays

variable {K P : Type} (port : K → P)

def WaitsAt (b : Backlog K P) (p : P) (k : K) : Prop := ∃ l, b.queue p = some l ∧ k ∈ l

def Waits (b : Backlog K P) (k : K) : Prop := ∃ p, b.WaitsAt p k

/-- Every queue holds ready sessions, each once, and every session that has become ready waits or has been given out
once. -/
structure Right (b : Backlog K P) : Prop where
  nodup : ∀ p l, b.queue p = some l → l.Nodup
  ready : ∀ k, b.Waits k → b.phase k = some .ready
  givenOnce : b.given.Nodup
  givenCompleted : ∀ i ∈ b.given, i ∈ b.completed
  waitsCompleted : ∀ k, b.Waits k → b.ident k ∈ b.completed
  waits : ∀ i ∈ b.completed, i ∈ b.given ↔ ¬ ∃ k, b.Waits k ∧ b.ident k = i

/-- What holds in every run, right or not. -/
structure Wf (b : Backlog K P) : Prop where
  ident_lt : ∀ k, (b.phase k).isSome → b.ident k < b.clock
  ident_inj : ∀ k k', (b.phase k).isSome → (b.phase k').isSome → b.ident k = b.ident k' → k = k'
  opening : ∀ k, b.phase k = some .opening → b.ident k ∉ b.completed ∧ (b.queue (port k)).isSome
  completed_lt : ∀ i ∈ b.completed, i < b.clock
  port_eq : ∀ p k, b.WaitsAt p k → port k = p

def Enabled (b : Backlog K P) : Move K P → Prop
  | .opened k => b.phase k = none ∧ (b.queue (port k)).isSome
  | .completes k => b.phase k = some .opening
  | .changes k ph => ph ≠ some .opening ∧ (ph.isSome → (b.phase k).isSome) ∧ (ph = some .ready → b.phase k ≠ some .ready)
  | .listen _ | .gives _ | .stays => True

def Spares (b : Backlog K P) : Move K P → Prop
  | .changes k _ => ¬ b.Waits k
  | .listen _ | .opened _ | .completes _ | .gives _ | .stays => True

def start : Backlog K P := ⟨fun _ => none, fun _ => none, fun _ => 0, 0, [], []⟩

variable {port} {b : Backlog K P} {m : Move K P} {k : K} {p : P} {ph : Option SessionPhase}

lemma not_waitsAt_start : ¬ (start : Backlog K P).WaitsAt p k := fun ⟨_, h, _⟩ => nomatch h

lemma start_right : (start : Backlog K P).Right where
  nodup := nofun
  ready := fun _ ⟨_, h⟩ => absurd h not_waitsAt_start
  givenOnce := nodup_nil
  givenCompleted := nofun
  waitsCompleted := fun _ ⟨_, h⟩ => absurd h not_waitsAt_start
  waits := nofun

lemma start_wf : (start : Backlog K P).Wf port where
  ident_lt := nofun
  ident_inj := nofun
  opening := nofun
  completed_lt := nofun
  port_eq := fun _ _ h => absurd h not_waitsAt_start

lemma Right.not_waits (hr : b.Right) (h : b.phase k ≠ some .ready) : ¬ b.Waits k := fun hk => h (hr.ready k hk)

lemma ne_of_waits {k' : K} (hk : ¬ b.Waits k) (hk' : b.Waits k') : k' ≠ k := by
  rintro rfl
  exact hk hk'

/-! ## The moves -/

variable [DecidableEq K] [DecidableEq P]

/-- The first of the queue is given out, and is then no longer one that has only become ready. -/
def give (b : Backlog K P) (p : P) : Backlog K P :=
  match b.queue p with
  | some (k :: rest) =>
    { b with
      queue := update b.queue p (some rest)
      phase := update b.phase k ((b.phase k).map (fun _ => .other))
      given := b.given ++ [b.ident k] }
  | _ => b

def step (port : K → P) (b : Backlog K P) : Move K P → Backlog K P
  | .listen p => { b with queue := update b.queue p (some ((b.queue p).getD [])) }
  | .opened k =>
    { b with
      phase := update b.phase k (some .opening)
      ident := update b.ident k b.clock
      clock := b.clock + 1 }
  | .completes k =>
    { b with
      phase := update b.phase k (some .ready)
      queue := update b.queue (port k) ((b.queue (port k)).map (fun l => l ++ [k]))
      completed := b.completed ++ [b.ident k] }
  | .changes k ph => { b with phase := update b.phase k ph }
  | .gives p => b.give p
  | .stays => b

/-! ## Who waits after a move -/

lemma waitsAt_listen {q : P} : (b.step port (.listen q)).WaitsAt p k ↔ b.WaitsAt p k := by
  unfold WaitsAt
  simp only [step, update_apply]
  split
  · next hp =>
    subst hp
    cases b.queue p with
    | none => simp
    | some l => simp
  · rfl

lemma waitsAt_completes {k' : K} : (b.step port (.completes k)).WaitsAt p k' ↔
    b.WaitsAt p k' ∨ p = port k ∧ k' = k ∧ (b.queue (port k)).isSome := by
  unfold WaitsAt
  simp only [step, update_apply]
  split
  · next hp =>
    subst hp
    cases b.queue (port k) with
    | none => simp
    | some l => simp
  · next hp => simp [hp]

lemma waitsAt_gives {q : P} {rest : List K} (hq : b.queue q = some (k :: rest)) {k' : K} :
    (b.step port (.gives q)).WaitsAt p k' ↔ if p = q then k' ∈ rest else b.WaitsAt p k' := by
  unfold WaitsAt
  simp only [step, give, hq, update_apply]
  split
  · simp
  · rfl

lemma gives_of_nothing (h : ∀ k rest, b.queue p ≠ some (k :: rest)) : b.step port (.gives p) = b := by
  change b.give p = b
  unfold give
  split
  · next k rest hq => exact absurd hq (h k rest)
  · rfl

/-! ## The invariant of every run -/

lemma Wf.listen (hw : b.Wf port) (p : P) : (b.step port (.listen p)).Wf port := by
  refine ⟨hw.ident_lt, hw.ident_inj, ?_, hw.completed_lt, fun q k hk => hw.port_eq q k (waitsAt_listen.mp hk)⟩
  intro k hk
  obtain ⟨hnew, hqueue⟩ := hw.opening k hk
  refine ⟨hnew, ?_⟩
  simp only [step, update_apply]
  split
  · rfl
  · exact hqueue

lemma Wf.opened (hw : b.Wf port) (he : b.Enabled port (.opened k)) : (b.step port (.opened k)).Wf port := by
  obtain ⟨hlt, hinj, hopen, hdone, hport⟩ := hw
  obtain ⟨hnone, hqueue⟩ := he
  refine ⟨?_, ?_, ?_, fun i hi => Nat.lt_succ_of_lt (hdone i hi), hport⟩
  · intro k' hk'
    simp only [step, update_apply] at hk' ⊢
    grind
  · intro k₁ k₂ h₁ h₂ heq
    simp only [step, update_apply] at h₁ h₂ heq
    grind
  · intro k' hk'
    simp only [step, update_apply] at hk' ⊢
    grind

lemma Wf.completes (hw : b.Wf port) (he : b.Enabled port (.completes k)) : (b.step port (.completes k)).Wf port := by
  obtain ⟨hlt, hinj, hopen, hdone, hport⟩ := hw
  have hphase : b.phase k = some .opening := he
  refine ⟨?_, ?_, ?_, ?_, ?_⟩
  · intro k' hk'
    simp only [step, update_apply] at hk' ⊢
    grind
  · intro k₁ k₂ h₁ h₂ heq
    simp only [step, update_apply] at h₁ h₂ heq
    grind
  · intro k' hk'
    simp only [step, update_apply] at hk' ⊢
    grind
  · intro i hi
    simp only [step] at hi ⊢
    grind
  · rintro q k' hk'
    obtain hold | ⟨rfl, rfl, -⟩ := waitsAt_completes.mp hk'
    · exact hport q k' hold
    · rfl

lemma Wf.changes (hw : b.Wf port) (he : b.Enabled port (.changes k ph)) : (b.step port (.changes k ph)).Wf port := by
  obtain ⟨hlt, hinj, hopen, hdone, hport⟩ := hw
  obtain ⟨hph, hlive, -⟩ := he
  refine ⟨?_, ?_, ?_, hdone, hport⟩
  · intro k' hk'
    simp only [step, update_apply] at hk' ⊢
    grind
  · intro k₁ k₂ h₁ h₂ heq
    simp only [step, update_apply] at h₁ h₂ heq
    grind
  · intro k' hk'
    simp only [step, update_apply] at hk' ⊢
    grind

lemma Wf.gives (hw : b.Wf port) (p : P) : (b.step port (.gives p)).Wf port := by
  by_cases hq : ∃ k rest, b.queue p = some (k :: rest)
  · obtain ⟨k, rest, hq⟩ := hq
    obtain ⟨hlt, hinj, hopen, hdone, hport⟩ := hw
    refine ⟨?_, ?_, ?_, ?_, ?_⟩
    · intro k' hk'
      simp only [step, give, hq, update_apply] at hk' ⊢
      grind
    · intro k₁ k₂ h₁ h₂ heq
      simp only [step, give, hq, update_apply] at h₁ h₂ heq
      grind
    · intro k' hk'
      simp only [step, give, hq, update_apply] at hk' ⊢
      split at hk'
      · obtain ⟨_, -, hother⟩ := map_eq_some_iff.mp hk'
        cases hother
      · obtain ⟨hnew, hqueue⟩ := hopen k' hk'
        refine ⟨hnew, ?_⟩
        split
        · rfl
        · exact hqueue
    · simpa only [step, give, hq] using hdone
    · intro q k' hk'
      rw [waitsAt_gives hq] at hk'
      split at hk'
      · next hqp => exact hqp ▸ hport p k' ⟨_, hq, mem_cons_of_mem k hk'⟩
      · exact hport q k' hk'
  · rw [gives_of_nothing (fun k rest hk => hq ⟨k, rest, hk⟩)]
    exact hw

lemma Wf.step (hw : b.Wf port) (he : b.Enabled port m) : (b.step port m).Wf port := by
  cases m with
  | listen p => exact hw.listen p
  | opened k => exact hw.opened he
  | completes k => exact hw.completes he
  | changes k ph => exact hw.changes he
  | gives p => exact hw.gives p
  | stays => exact hw

/-! ## When the queues stay right -/

lemma Right.listen (hr : b.Right) (p : P) : (b.step port (.listen p)).Right := by
  have hwaits (k : K) : (b.step port (.listen p)).Waits k ↔ b.Waits k := exists_congr (fun _ => waitsAt_listen)
  refine ⟨?_, fun k hk => hr.ready k ((hwaits k).mp hk), hr.givenOnce, hr.givenCompleted,
    fun k hk => hr.waitsCompleted k ((hwaits k).mp hk), ?_⟩
  · intro q l hl
    simp only [step, update_apply] at hl
    split at hl
    · obtain rfl := Option.some.inj hl
      cases hq : b.queue p with
      | none => exact nodup_nil
      | some l => exact hr.nodup p l hq
    · exact hr.nodup q l hl
  · intro i hi
    rw [exists_congr (fun k => and_congr_left (fun _ => hwaits k))]
    exact hr.waits i hi

lemma Right.opened (hr : b.Right) (he : b.Enabled port (.opened k)) : (b.step port (.opened k)).Right := by
  have hk : ¬ b.Waits k := hr.not_waits (by rw [he.1]; exact nofun)
  have hident : ∀ k', b.Waits k' → (b.step port (.opened k)).ident k' = b.ident k' :=
    fun k' hk' => update_of_ne (ne_of_waits hk hk') ..
  refine ⟨hr.nodup, ?_, hr.givenOnce, hr.givenCompleted, ?_, ?_⟩
  · intro k' hk'
    exact (update_of_ne (ne_of_waits hk hk') ..).trans (hr.ready k' hk')
  · intro k' hk'
    rw [hident k' hk']
    exact hr.waitsCompleted k' hk'
  · intro i hi
    have hsame : (∃ k', b.Waits k' ∧ (b.step port (.opened k)).ident k' = i) ↔ ∃ k', b.Waits k' ∧ b.ident k' = i :=
      exists_congr (fun k' => and_congr_right (fun hk' => by rw [hident k' hk']))
    exact (hr.waits i hi).trans (not_congr hsame.symm)

lemma Right.completes (hr : b.Right) (hw : b.Wf port) (he : b.Enabled port (.completes k)) :
    (b.step port (.completes k)).Right := by
  have hphase : b.phase k = some .opening := he
  obtain ⟨hnew, hqueue⟩ := hw.opening k hphase
  have hk : ¬ b.Waits k := hr.not_waits (by rw [hphase]; exact nofun)
  have hwaits (k' : K) : (b.step port (.completes k)).Waits k' ↔ b.Waits k' ∨ k' = k := by
    unfold Waits
    simp only [waitsAt_completes, exists_or, hqueue, and_true]
    simp
  refine ⟨?_, ?_, hr.givenOnce, fun i hi => mem_append_left _ (hr.givenCompleted i hi), ?_, ?_⟩
  · intro q l hl
    simp only [step, update_apply] at hl
    split at hl
    · obtain ⟨l', hl', rfl⟩ := map_eq_some_iff.mp hl
      refine nodup_append.mpr ⟨hr.nodup _ l' hl', nodup_singleton k, ?_⟩
      rintro a ha b' hb' rfl
      rw [mem_singleton] at hb'
      exact hk (hb' ▸ ⟨_, l', hl', ha⟩)
    · exact hr.nodup q l hl
  · intro k' hk'
    simp only [step, update_apply]
    split
    · rfl
    · next hne => exact hr.ready k' (((hwaits k').mp hk').resolve_right hne)
  · intro k' hk'
    obtain hold | rfl := (hwaits k').mp hk'
    · exact mem_append_left _ (hr.waitsCompleted k' hold)
    · exact mem_append_right _ (mem_singleton_self _)
  · intro i hi
    obtain hold | hlast := mem_append.mp hi
    · refine (hr.waits i hold).trans (not_congr ?_)
      refine exists_congr (fun k' => ?_)
      rw [hwaits]
      constructor
      · exact fun ⟨h, heq⟩ => ⟨.inl h, heq⟩
      · rintro ⟨h | rfl, heq⟩
        · exact ⟨h, heq⟩
        · exact absurd (heq ▸ hold) hnew
    · obtain rfl := mem_singleton.mp hlast
      refine iff_of_false (fun hg => hnew (hr.givenCompleted _ hg)) (not_not_intro ⟨k, (hwaits k).mpr (.inr rfl), rfl⟩)

lemma right_changes_iff (hr : b.Right) (he : b.Enabled port (.changes k ph)) :
    (b.step port (.changes k ph)).Right ↔ ¬ b.Waits k := by
  constructor
  · intro hafter hk
    have hready := hafter.ready k hk
    simp only [step, update_self] at hready
    exact he.2.2 hready (hr.ready k hk)
  · intro hk
    refine ⟨hr.nodup, ?_, hr.givenOnce, hr.givenCompleted, hr.waitsCompleted, hr.waits⟩
    intro k' hk'
    exact (update_of_ne (ne_of_waits hk hk') ..).trans (hr.ready k' hk')

lemma Right.gives (hr : b.Right) (hw : b.Wf port) (p : P) : (b.step port (.gives p)).Right := by
  by_cases hq : ∃ k rest, b.queue p = some (k :: rest)
  · obtain ⟨k, rest, hq⟩ := hq
    have hk : b.Waits k := ⟨p, _, hq, mem_cons_self⟩
    have hnodup := nodup_cons.mp (hr.nodup p _ hq)
    have hlive : ∀ k', b.Waits k' → (b.phase k').isSome := fun k' hk' => by rw [hr.ready k' hk']; rfl
    have hwaits (k' : K) : (b.step port (.gives p)).Waits k' ↔ b.Waits k' ∧ k' ≠ k := by
      constructor
      · rintro ⟨q, hk'⟩
        rw [waitsAt_gives hq] at hk'
        split at hk'
        · exact ⟨⟨p, _, hq, mem_cons_of_mem _ hk'⟩, fun heq => hnodup.1 (heq ▸ hk')⟩
        · next hqp =>
          refine ⟨⟨q, hk'⟩, ?_⟩
          rintro rfl
          exact hqp ((hw.port_eq q k' hk').symm.trans (hw.port_eq p k' ⟨_, hq, mem_cons_self⟩))
      · rintro ⟨⟨q, hk'⟩, hne⟩
        refine ⟨q, ?_⟩
        rw [waitsAt_gives hq]
        split
        · next hqp =>
          subst hqp
          obtain ⟨l, hl, hmem⟩ := hk'
          obtain rfl := mem_unique hq hl
          exact (mem_cons.mp hmem).resolve_left hne
        · exact hk'
    have hold : b.ident k ∈ b.completed := hr.waitsCompleted k hk
    have hfresh : b.ident k ∉ b.given := fun hg => (hr.waits _ hold).mp hg ⟨k, hk, rfl⟩
    have hgiven : (b.step port (.gives p)).given = b.given ++ [b.ident k] := by simp only [step, give, hq]
    have hsame : (b.step port (.gives p)).completed = b.completed := by simp only [step, give, hq]
    have hident : (b.step port (.gives p)).ident = b.ident := by simp only [step, give, hq]
    refine ⟨?_, ?_, ?_, ?_, ?_, ?_⟩
    · intro q l hl
      simp only [step, give, hq, update_apply] at hl
      split at hl
      · exact Option.some.inj hl ▸ hnodup.2
      · exact hr.nodup q l hl
    · intro k' hk'
      obtain ⟨hk', hne⟩ := (hwaits k').mp hk'
      simp only [step, give, hq]
      exact (update_of_ne hne ..).trans (hr.ready k' hk')
    · rw [hgiven]
      refine nodup_append.mpr ⟨hr.givenOnce, nodup_singleton _, ?_⟩
      rintro i hi j hj rfl
      exact hfresh (mem_singleton.mp hj ▸ hi)
    · rw [hgiven, hsame]
      intro i hi
      obtain hgave | hlast := mem_append.mp hi
      · exact hr.givenCompleted i hgave
      · exact mem_singleton.mp hlast ▸ hold
    · rw [hsame, hident]
      exact fun k' hk' => hr.waitsCompleted k' ((hwaits k').mp hk').1
    · rw [hsame, hident, hgiven]
      intro i hi
      rw [mem_append, mem_singleton, hr.waits i hi]
      constructor
      · rintro (hno | rfl) ⟨k', hk', heq⟩
        · exact hno ⟨k', ((hwaits k').mp hk').1, heq⟩
        · obtain ⟨hk', hne⟩ := (hwaits k').mp hk'
          exact hne (hw.ident_inj k' k (hlive k' hk') (hlive k hk) heq)
      · intro hno
        by_cases hik : i = b.ident k
        · exact .inr hik
        · refine .inl ?_
          rintro ⟨k', hk', heq⟩
          exact hno ⟨k', (hwaits k').mpr ⟨hk', fun h => hik (heq ▸ h ▸ rfl)⟩, heq⟩
  · rw [gives_of_nothing (fun k rest hk => hq ⟨k, rest, hk⟩)]
    exact hr

lemma Right.step_iff (hr : b.Right) (hw : b.Wf port) (he : b.Enabled port m) : (b.step port m).Right ↔ b.Spares m := by
  cases m with
  | listen p => exact iff_of_true (hr.listen p) trivial
  | opened k => exact iff_of_true (hr.opened he) trivial
  | completes k => exact iff_of_true (hr.completes hw he) trivial
  | changes k ph => exact right_changes_iff hr he
  | gives p => exact iff_of_true (hr.gives hw p) trivial
  | stays => exact iff_of_true hr trivial

end Backlog

end NodeKernel
