import Mathlib.Data.List.Basic

/-!
# Programs with a record

A program that records what it does on its way, and that can stop; then the record is lost.
-/
namespace NodeKernel

open List

def Recorded (ε ω α : Type) : Type := Except ε (α × List ω)

namespace Recorded

variable {ε ω α β ι σ τ : Type}

def bind (x : Recorded ε ω α) (f : α → Recorded ε ω β) : Recorded ε ω β :=
  match x with
  | .error e => .error e
  | .ok (a, before) =>
    match f a with
    | .error e => .error e
    | .ok (b, after) => .ok (b, before ++ after)

instance : Monad (Recorded ε ω) where
  pure a := .ok (a, [])
  bind := bind

def stop (e : ε) : Recorded ε ω α := .error e

def record (w : ω) : Recorded ε ω Unit := .ok ((), [w])

def mapStop (f : ε → ε) (x : Recorded ε ω α) : Recorded ε ω α := Except.mapError f x

def value (x : Recorded ε ω α) : Option α :=
  match x with
  | .ok (a, _) => some a
  | .error _ => none

def Returns (x : Recorded ε ω α) (a : α) (log : List ω) : Prop := x = .ok (a, log)

variable {x : Recorded ε ω α} {f : α → Recorded ε ω β} {a a' : α} {b : β} {w : ω} {log : List ω}

@[simp]
lemma returns_pure : Returns (pure a' : Recorded ε ω α) a log ↔ a = a' ∧ log = [] := by
  change Except.ok (a', []) = Except.ok (a, log) ↔ _
  rw [Except.ok.injEq, Prod.mk.injEq, eq_comm, @eq_comm _ _ log]

@[simp]
lemma returns_record {u : Unit} : Returns (record w : Recorded ε ω Unit) u log ↔ log = [w] := by
  change Except.ok ((), [w]) = Except.ok (u, log) ↔ _
  rw [Except.ok.injEq, Prod.mk.injEq, eq_self, true_and, eq_comm]

@[simp]
lemma not_returns_stop {e : ε} : ¬ Returns (stop e : Recorded ε ω α) a log := nofun

@[simp]
lemma returns_bind : Returns (x >>= f) b log ↔
    ∃ a before after, Returns x a before ∧ Returns (f a) b after ∧ log = before ++ after := by
  change bind x f = _ ↔ _
  cases x with
  | error e => exact iff_of_false nofun (fun ⟨_, _, _, h, _⟩ => nomatch h)
  | ok y =>
    obtain ⟨a, before⟩ := y
    constructor
    · intro h
      rw [bind] at h
      cases hf : f a with
      | error e => simp only [hf, reduceCtorEq] at h
      | ok z =>
        simp only [hf] at h
        obtain ⟨rfl, rfl⟩ := Prod.mk.inj (Except.ok.inj h)
        exact ⟨a, before, z.2, rfl, hf, rfl⟩
    · rintro ⟨a, before, after, ha, hb, rfl⟩
      obtain ⟨rfl, rfl⟩ := Prod.mk.inj (Except.ok.inj ha)
      rw [bind, show f _ = .ok (b, after) from hb]

@[simp]
lemma returns_ite {c : Prop} [Decidable c] {y : Recorded ε ω α} :
    Returns (if c then x else y) a log ↔ (c ∧ Returns x a log) ∨ (¬ c ∧ Returns y a log) := by
  by_cases hc : c <;> simp [hc]

@[simp]
lemma returns_mapStop {g : ε → ε} : Returns (x.mapStop g) a log ↔ Returns x a log := by
  cases x with
  | error e => exact iff_of_false nofun nofun
  | ok y => exact Iff.rfl

lemma Returns.value (h : Returns x a log) : x.value = some a := by
  rw [Returns] at h
  rw [h]
  rfl

/-- A record that is made of records in `Q`, at least one for each member of `l`. -/
structure Made (Q : ι → List ω → Prop) (l : List ι) (log : List ω) : Prop where
  of_mem : ∀ w ∈ log, ∃ i ∈ l, ∃ turn, Q i turn ∧ w ∈ turn
  turns : ∀ i ∈ l, ∃ turn, Q i turn ∧ turn ⊆ log

lemma Made.forall_mem {Q : ι → List ω → Prop} {l : List ι} {P : ω → Prop} (h : Made Q l log)
    (hQ : ∀ i turn, Q i turn → ∀ w ∈ turn, P w) : ∀ w ∈ log, P w := by
  intro w hw
  obtain ⟨i, -, turn, hturn, hmem⟩ := h.of_mem w hw
  exact hQ i turn hturn w hmem

lemma Made.forall_iff {Q : ι → List ω → Prop} {l : List ι} {P : ω → Prop} {q : ι → Prop} (h : Made Q l log)
    (hQ : ∀ i turn, Q i turn → ((∀ w ∈ turn, P w) ↔ q i)) : (∀ w ∈ log, P w) ↔ ∀ i ∈ l, q i := by
  constructor
  · intro hall i hi
    obtain ⟨turn, hturn, hsub⟩ := h.turns i hi
    exact (hQ i turn hturn).mp (fun w hw => hall w (hsub hw))
  · intro hall w hw
    obtain ⟨i, hi, turn, hturn, hmem⟩ := h.of_mem w hw
    exact (hQ i turn hturn).mpr (hall i hi) w hmem

section Loop

variable {l : List ι} {body : σ → ι → Recorded ε ω σ} {s s' : σ}

lemma returns_foldlM_cons {i : ι} : Returns ((i :: l).foldlM body s) s' log ↔
    ∃ t before after, Returns (body s i) t before ∧ Returns (l.foldlM body t) s' after ∧ log = before ++ after := by
  rw [foldlM_cons]
  exact returns_bind

/-- Every turn keeps `inv` and has a record in `Q`: then the record of the loop is made of such records. -/
theorem foldlM_made (inv : σ → Prop) {Q : ι → List ω → Prop} (h₀ : inv s)
    (hbody : ∀ i ∈ l, ∀ t t' turn, inv t → Returns (body t i) t' turn → inv t' ∧ Q i turn)
    (h : Returns (l.foldlM body s) s' log) : inv s' ∧ Made Q l log := by
  induction l generalizing s log with
  | nil =>
    obtain ⟨rfl, rfl⟩ := returns_pure.mp h
    exact ⟨h₀, by simp, by simp⟩
  | cons i l ih =>
    obtain ⟨t, before, after, hfirst, hrest, rfl⟩ := returns_foldlM_cons.mp h
    obtain ⟨ht, hturn⟩ := hbody i mem_cons_self s t before h₀ hfirst
    obtain ⟨hs', hmade⟩ := ih ht (fun j hj => hbody j (mem_cons_of_mem _ hj)) hrest
    refine ⟨hs', ?_, ?_⟩
    · intro w hw
      rcases mem_append.mp hw with hw | hw
      · exact ⟨i, mem_cons_self, before, hturn, hw⟩
      · obtain ⟨j, hj, turn, hq, hmem⟩ := hmade.of_mem w hw
        exact ⟨j, mem_cons_of_mem _ hj, turn, hq, hmem⟩
    · intro j hj
      rcases mem_cons.mp hj with rfl | hj
      · exact ⟨before, hturn, subset_append_left _ _⟩
      · obtain ⟨turn, hq, hsub⟩ := hmade.turns j hj
        exact ⟨turn, hq, List.Subset.trans hsub (subset_append_right _ _)⟩

lemma foldlM_part (part : σ → τ) {g : τ → ι → τ}
    (hbody : ∀ i ∈ l, ∀ t t' turn, Returns (body t i) t' turn → part t' = g (part t) i)
    (h : Returns (l.foldlM body s) s' log) : part s' = l.foldl g (part s) := by
  induction l generalizing s log with
  | nil =>
    obtain ⟨rfl, rfl⟩ := returns_pure.mp h
    rfl
  | cons i l ih =>
    obtain ⟨t, before, after, hfirst, hrest, rfl⟩ := returns_foldlM_cons.mp h
    rw [ih (fun j hj => hbody j (mem_cons_of_mem _ hj)) hrest, hbody i mem_cons_self s t before hfirst, foldl_cons]

lemma foldlM_replay (part : σ → τ) {g : τ → ω → τ}
    (hbody : ∀ i ∈ l, ∀ t t' turn, Returns (body t i) t' turn → part t' = turn.foldl g (part t))
    (h : Returns (l.foldlM body s) s' log) : part s' = log.foldl g (part s) := by
  induction l generalizing s log with
  | nil =>
    obtain ⟨rfl, rfl⟩ := returns_pure.mp h
    rfl
  | cons i l ih =>
    obtain ⟨t, before, after, hfirst, hrest, rfl⟩ := returns_foldlM_cons.mp h
    rw [foldl_append, ← hbody i mem_cons_self s t before hfirst]
    exact ih (fun j hj => hbody j (mem_cons_of_mem _ hj)) hrest

end Loop

end Recorded
end NodeKernel
