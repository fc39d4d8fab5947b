import Mathlib.Data.List.Induction

/-!
# Runs of a labelled step relation

A run records every label together with the state it was taken in, so a condition
on the steps of a run is a condition on the entries of its trace.
-/
namespace NodeKernel

open List

variable {σ ε : Type*} {step : σ → ε → σ → Prop} {s₀ : σ}

inductive Run (step : σ → ε → σ → Prop) (s₀ : σ) : List (σ × ε) → σ → Prop
  | nil : Run step s₀ [] s₀
  | snoc {tr s e s'} : Run step s₀ tr s → step s e s' → Run step s₀ (tr ++ [(s, e)]) s'

variable {tr : List (σ × ε)} {I : σ → Prop} {C : σ → ε → Prop} {s : σ}

/-- What holds initially and is kept by every step taken under `C` holds throughout a
run whose steps are all taken under `C`. -/
theorem Run.invariant_of (h0 : I s₀) (hstep : ∀ s e s', I s → C s e → step s e s' → I s')
    (h : Run step s₀ tr s) (hC : ∀ x ∈ tr, C x.1 x.2) : (∀ x ∈ tr, I x.1) ∧ I s := by
  induction h with
  | nil => exact ⟨by simp, h0⟩
  | @snoc tr s e s' hrun hs ih =>
    obtain ⟨hpre, hI⟩ := ih (fun x hx => hC x (mem_append_left _ hx))
    have hlast : C s e := hC (s, e) (mem_append_right _ mem_cons_self)
    refine ⟨?_, hstep s e s' hI hlast hs⟩
    intro x hx
    rcases mem_append.mp hx with hx | hx
    · exact hpre x hx
    · rw [mem_singleton.mp hx]
      exact hI

lemma Run.invariant (h0 : I s₀) (hstep : ∀ s e s', I s → step s e s' → I s') (h : Run step s₀ tr s) : (∀ x ∈ tr, I x.1) ∧ I s :=
  h.invariant_of (C := fun _ _ => True) h0 (fun s e s' hI _ hs => hstep s e s' hI hs)
    (fun _ _ => trivial)

/-- Where an invariant that only needs `C` makes `P` and `C` the same, a run whose steps all
satisfy one satisfies the other. -/
theorem Run.forall_iff_of {P C : σ → ε → Prop} (h0 : I s₀)
    (hstep : ∀ s e s', I s → C s e → step s e s' → I s') (hiff : ∀ s e s', I s → step s e s' → (P s e ↔ C s e))
    (h : Run step s₀ tr s) : ((∀ x ∈ tr, P x.1 x.2) ↔ ∀ x ∈ tr, C x.1 x.2) := by
  induction h with
  | nil => simp
  | @snoc tr s e s' hrun hs ih =>
    simp only [forall_mem_append, forall_mem_singleton]
    rw [ih]
    refine and_congr_right (fun hC => ?_)
    exact hiff s e s' (hrun.invariant_of h0 hstep hC).2 hs

/-- Where `C` is what a step has to satisfy for `P` to be kept, `P` holds in all states of a run exactly if all steps
are in `C`. -/
theorem Run.states_iff {I P : σ → Prop} (h0 : I s₀) (hP0 : P s₀)
    (hstep : ∀ s e s', I s → step s e s' → I s') (hiff : ∀ s e s', I s → P s → step s e s' → (P s' ↔ C s e))
    (h : Run step s₀ tr s) : ((∀ x ∈ tr, P x.1) ∧ P s ↔ ∀ x ∈ tr, C x.1 x.2) := by
  induction h with
  | nil => simp [hP0]
  | @snoc tr s e s' hrun hs ih =>
    simp only [forall_mem_append, forall_mem_singleton]
    rw [ih]
    refine and_congr_right (fun hC => ?_)
    exact hiff s e s' (hrun.invariant h0 hstep).2 (ih.mpr hC).2 hs

lemma Run.cons {s₁ s : σ} {e : ε} (hs : step s₀ e s₁) (h : Run step s₁ tr s) : Run step s₀ ((s₀, e) :: tr) s := by
  induction h with
  | nil => exact Run.nil.snoc hs
  | snoc _ hlast ih => exact ih.snoc hlast

lemma Run.trans {s₁ s : σ} {tr₁ tr₂ : List (σ × ε)} (h₁ : Run step s₀ tr₁ s₁) (h₂ : Run step s₁ tr₂ s) :
    Run step s₀ (tr₁ ++ tr₂) s := by
  induction h₂ with
  | nil => rwa [append_nil]
  | snoc _ hlast ih =>
    rw [← append_assoc]
    exact ih.snoc hlast

def traceOf (f : σ → ε → σ) : σ → List ε → List (σ × ε)
  | _, [] => []
  | s, e :: l => (s, e) :: traceOf f (f s e) l

lemma Run.traceOf (f : σ → ε → σ) (s : σ) (l : List ε) : Run (fun s e s' => s' = f s e) s (traceOf f s l) (l.foldl f s) := by
  induction l generalizing s with
  | nil => exact Run.nil
  | cons e l ih => exact Run.cons rfl (ih (f s e))

/-- A list of labels is a run of a step function, and its states are those reached after
the prefixes of the list. -/
theorem Run.of_labels (f : σ → ε → σ) (s₀ : σ) (l : List ε) :
    ∃ tr, Run (fun s e s' => s' = f s e) s₀ tr (l.foldl f s₀) ∧ tr.map Prod.snd = l ∧
      ∀ x ∈ tr, ∃ k < l.length, x.1 = (l.take k).foldl f s₀ := by
  induction l using reverseRecOn with
  | nil => exact ⟨[], Run.nil, rfl, by simp⟩
  | append_singleton l e ih =>
    obtain ⟨tr, hrun, hsnd, hpre⟩ := ih
    refine ⟨tr ++ [(l.foldl f s₀, e)], ?_, ?_, ?_⟩
    · rw [foldl_append]
      exact hrun.snoc rfl
    · rw [map_append, hsnd]
      rfl
    · intro x hx
      rw [length_append]
      rcases mem_append.mp hx with hx | hx
      · obtain ⟨k, hk, he⟩ := hpre x hx
        refine ⟨k, Nat.lt_add_right _ hk, ?_⟩
        rw [take_append_of_le_length (Nat.le_of_lt hk)]
        exact he
      · refine ⟨l.length, Nat.lt_succ_self _, ?_⟩
        rw [mem_singleton.mp hx, take_left]

/-! ## Two runs in lockstep -/

variable {σ ε ο : Type*}

def outputs (f : σ → ε → ο × σ) : σ → List ε → List ο
  | _, [] => []
  | s, e :: l => (f s e).1 :: outputs f (f s e).2 l

/-- A condition on the two states and the input, at every input of two runs. -/
def Along (f : σ → ε → ο × σ) (C : σ → σ → ε → Prop) : σ → σ → List ε → Prop
  | _, _, [] => True
  | s, t, e :: l => C s t e ∧ Along f C (f s e).2 (f t e).2 l

/-- Where the relation makes equal outputs and `C` the same, and `C` keeps the relation, the outputs of whole runs
are equal exactly if `C` holds at every input. -/
theorem outputs_eq_iff {f : σ → ε → ο × σ} {R : σ → σ → Prop} {C : σ → σ → ε → Prop} {P : ε → Prop}
    (hstep : ∀ s t e, P e → R s t → C s t e → R (f s e).2 (f t e).2)
    (hiff : ∀ s t e, P e → R s t → ((f s e).1 = (f t e).1 ↔ C s t e)) {s t : σ} {l : List ε}
    (hP : ∀ e ∈ l, P e) (h : R s t) : outputs f s l = outputs f t l ↔ Along f C s t l := by
  induction l generalizing s t with
  | nil => simp [outputs, Along]
  | cons e l ih =>
    have he : P e := hP e mem_cons_self
    unfold outputs Along
    rw [List.cons.injEq, hiff s t e he h]
    refine and_congr_right (fun hC => ?_)
    exact ih (fun e' he' => hP e' (mem_cons_of_mem _ he')) (hstep s t e he h hC)

section Follows

variable {τ : Type*} {g : σ → ε → Option (ο × σ)} {f : τ → ε → ο × τ} {view : σ → τ} {I : τ → Prop} {C : τ → ε → Prop}

/-- A machine that can stop has, at every input, the result and the next state of another one. -/
def Follows (g : σ → ε → Option (ο × σ)) (f : τ → ε → ο × τ) (view : σ → τ) : σ → List ε → Prop
  | _, [] => True
  | s, e :: l => ∃ o s', g s e = some (o, s') ∧ f (view s) e = (o, view s') ∧ Follows g f view s' l

/-- Where one step follows exactly under `C`, a run follows exactly if all its inputs come under `C`. -/
theorem follows_iff (hinv : ∀ t e, I t → I (f t e).2)
    (hiff : ∀ s e, I (view s) → ((g s e).map (Prod.map id view) = some (f (view s) e) ↔ C (view s) e)) {s : σ} (h : I (view s))
    (l : List ε) : Follows g f view s l ↔ ∀ x ∈ traceOf (fun t e => (f t e).2) (view s) l, C x.1 x.2 := by
  induction l generalizing s with
  | nil => simp [Follows, traceOf]
  | cons e l ih =>
    rw [traceOf, forall_mem_cons, ← hiff s e h, Follows]
    constructor
    · rintro ⟨o, s', hg, hf, hl⟩
      have hnext : I (view s') := by
        have h' := hinv _ e h
        rwa [hf] at h'
      rw [hg, hf]
      exact ⟨rfl, (ih hnext).mp hl⟩
    · rintro ⟨hstep, hl⟩
      obtain ⟨⟨o, s'⟩, hg, hf⟩ := Option.map_eq_some_iff.mp hstep
      have hnext : I (view s') := by
        have h' := hinv _ e h
        rwa [← hf] at h'
      rw [← hf] at hl
      exact ⟨o, s', hg, hf.symm, (ih hnext).mpr hl⟩

end Follows

end NodeKernel
