import NodeKernel.Lib.Run

/-!
# Atomic objects

An object that threads call, each call of which takes effect in one step between its start and its return. A history
of calls and returns that the object can show is explained by it; that is linearisability.
-/
namespace NodeKernel.Atomic

open Function List

variable {τ κ ρ α σ : Type*}

/-- A thread calls, takes a step inside its call, or returns. -/
inductive Label (τ κ ρ : Type*) where
  | call (t : τ) (c : κ)
  | tick (t : τ)
  | ret (t : τ) (r : ρ)

def Label.visible : Label τ κ ρ → Bool
  | .tick _ => false
  | _ => true

def history (tr : List (σ × Label τ κ ρ)) : List (Label τ κ ρ) := (tr.map Prod.snd).filter Label.visible

inductive Thread (κ ρ : Type*) where
  | idle
  | pending (c : κ)
  | done (r : ρ)

structure State (τ κ ρ α : Type*) where
  obj : α
  threads : τ → Thread κ ρ

def start (a : α) : State τ κ ρ α := ⟨a, fun _ => .idle⟩

lemma history_snoc (tr : List (σ × Label τ κ ρ)) (s : σ) (e : Label τ κ ρ) :
    history (tr ++ [(s, e)]) = history tr ++ if e.visible then [e] else [] := by
  unfold history
  cases h : e.visible <;> simp [h]

/-- Some run from one state to the other shows this history. -/
def Shows (step : σ → Label τ κ ρ → σ → Prop) (s : σ) (h : List (Label τ κ ρ)) (s' : σ) : Prop :=
  ∃ tr, Run step s tr s' ∧ history tr = h

namespace Shows
variable {step : σ → Label τ κ ρ → σ → Prop} {s s' s'' : σ} {h h' : List (Label τ κ ρ)} {e : Label τ κ ρ}

lemma of_eq (he : s = s') : Shows step s [] s' := ⟨[], he ▸ Run.nil, rfl⟩

lemma seen (hs : step s e s') (hv : e.visible = true) (hr : Shows step s' h s'') : Shows step s (e :: h) s'' := by
  obtain ⟨tr, hrun, hh⟩ := hr
  exact ⟨(s, e) :: tr, Run.cons hs hrun, by simp [history, hv, ← hh]⟩

lemma hidden (hs : step s e s') (hv : e.visible = false) (hr : Shows step s' h s'') : Shows step s h s'' := by
  obtain ⟨tr, hrun, hh⟩ := hr
  exact ⟨(s, e) :: tr, Run.cons hs hrun, by simp [history, hv, ← hh]⟩

lemma trans (h₁ : Shows step s h s') (h₂ : Shows step s' h' s'') : Shows step s (h ++ h') s'' := by
  obtain ⟨tr, hrun, hh⟩ := h₁
  obtain ⟨tr', hrun', hh'⟩ := h₂
  exact ⟨tr ++ tr', hrun.trans hrun', by simp [history, ← hh, ← hh']⟩

lemma last (hr : Shows step s (h ++ [e]) s') : ∃ s₁ s₂, Shows step s h s₁ ∧ step s₁ e s₂ ∧ Shows step s₂ [] s' := by
  obtain ⟨tr, hrun, hh⟩ := hr
  induction hrun with
  | nil => simp [history] at hh
  | @snoc tr s₁ f s' hrun hs ih =>
    rw [history_snoc] at hh
    cases hv : f.visible with
    | false =>
      obtain ⟨s₂, s₃, hpre, he, tr', hrun', hh'⟩ := ih (by simpa [hv] using hh)
      exact ⟨s₂, s₃, hpre, he, tr' ++ [(s₁, f)], hrun'.snoc hs, by simp [history_snoc, hv, hh']⟩
    | true =>
      rw [hv, if_pos rfl] at hh
      obtain ⟨rfl, hlast⟩ := append_inj' hh rfl
      obtain rfl := singleton_inj.mp hlast
      exact ⟨s₁, s', ⟨tr, hrun, rfl⟩, hs, .of_eq rfl⟩

lemma invariant {I : σ → Prop} (hr : Shows step s h s') (h0 : I s)
    (hstep : ∀ s e s', I s → (e.visible = true → e ∈ h) → step s e s' → I s') : I s' := by
  obtain ⟨tr, hrun, rfl⟩ := hr
  exact (hrun.invariant_of (C := fun _ e => e.visible = true → e ∈ history tr) h0 hstep
    (fun x hx hv => mem_filter.mpr ⟨mem_map_of_mem hx, hv⟩)).2

end Shows

section Steps
variable [DecidableEq τ] (op : κ → α → α × ρ)

inductive Step : State τ κ ρ α → Label τ κ ρ → State τ κ ρ α → Prop
  | call {s t c} : s.threads t = .idle →
      Step s (.call t c) { s with threads := update s.threads t (.pending c) }
  | effect {s t c} : s.threads t = .pending c →
      Step s (.tick t) ⟨(op c s.obj).1, update s.threads t (.done (op c s.obj).2)⟩
  | ret {s t r} : s.threads t = .done r →
      Step s (.ret t r) { s with threads := update s.threads t .idle }

/-- The object, starting from `a`, can show this history. -/
def Explained (a : α) (h : List (Label τ κ ρ)) : Prop :=
  ∃ (tr : List (State τ κ ρ α × Label τ κ ρ)) (s : State τ κ ρ α), Run (Step op) (start a) tr s ∧ history tr = h

variable {op}

variable {s s' : State τ κ ρ α} {e : Label τ κ ρ} {t : τ}

lemma Step.pending {c : κ} (h : Step op s e s') (ht : s'.threads t = .pending c) :
    s.threads t = .pending c ∨ e = .call t c := by
  cases h with
  | @call t' c' _ =>
    simp only [update_apply] at ht
    split_ifs at ht with htt
    · obtain rfl := Thread.pending.inj ht
      exact .inr (htt ▸ rfl)
    · exact .inl ht
  | effect _ | ret _ =>
    simp only [update_apply] at ht
    split_ifs at ht with htt
    exact .inl ht

lemma Step.done {r : ρ} (h : Step op s e s') (ht : s'.threads t = .done r) : s.threads t = .done r ∨
      ∃ c, s.threads t = .pending c ∧ r = (op c s.obj).2 ∧ s'.obj = (op c s.obj).1 := by
  cases h with
  | call _ | ret _ =>
    simp only [update_apply] at ht
    split_ifs at ht with htt
    exact .inl ht
  | @effect t' c hc =>
    simp only [update_apply] at ht
    split_ifs at ht with htt
    · exact .inr ⟨c, htt ▸ hc, (Thread.done.inj ht).symm, rfl⟩
    · exact .inl ht

lemma Step.obj (h : Step op s e s') : s'.obj = s.obj ∨ ∃ t c, s.threads t = .pending c ∧ s'.obj = (op c s.obj).1 := by
  cases h with
  | call _ | ret _ => exact .inl rfl
  | @effect t c hc => exact .inr ⟨t, c, hc, rfl⟩

/-- A system whose steps are steps of the object, or hidden ones that change nothing of it, shows explained
histories only. -/
theorem explained_of_simulation {step : σ → Label τ κ ρ → σ → Prop} {R : σ → State τ κ ρ α → Prop}
    {C : σ → Label τ κ ρ → Prop} {a : α} {s₀ s : σ} (h0 : R s₀ (start a)) (hsim : ∀ s e s' b, R s b → C s e → step s e s' →
      (∃ b', Step op b e b' ∧ R s' b') ∨ e.visible = false ∧ R s' b)
    {tr : List (σ × Label τ κ ρ)} (hrun : Run step s₀ tr s) (hC : ∀ x ∈ tr, C x.1 x.2) : Explained op a (history tr) := by
  suffices hend : ∃ (tr' : List (State τ κ ρ α × Label τ κ ρ)) (b : State τ κ ρ α),
      Run (Step op) (start a) tr' b ∧ history tr' = history tr ∧ R s b by
    obtain ⟨tr', b, hr, hh, -⟩ := hend
    exact ⟨tr', b, hr, hh⟩
  induction hrun with
  | nil => exact ⟨[], start a, Run.nil, rfl, h0⟩
  | @snoc tr s e s' hrun hs ih =>
    obtain ⟨hpre, hlast⟩ := forall_mem_append.mp hC
    obtain ⟨tr', b, hr, hh, hR⟩ := ih hpre
    have hCe : C s e := hlast (s, e) mem_cons_self
    obtain ⟨b', hb, hR'⟩ | ⟨hv, hR'⟩ := hsim s e s' b hR hCe hs
    · refine ⟨tr' ++ [(b, e)], b', hr.snoc hb, ?_, hR'⟩
      rw [history_snoc, history_snoc, hh]
    · refine ⟨tr', b, hr, ?_, hR'⟩
      rw [history_snoc, hh, hv]
      simp

end Steps

end NodeKernel.Atomic
