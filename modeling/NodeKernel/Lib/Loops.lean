import Mathlib.Data.Nat.Basic

/-!
# Counted loops

Invariant rules for a loop over `0, 1, …, n - 1` whose body can end it early.
-/
namespace NodeKernel

open List Nat
namespace Loops

variable {α ε : Type}

inductive Outcome (ok : α → Prop) (err : ε → Prop) : Except ε α → Prop
  | ok {a : α} (h : ok a) : Outcome ok err (.ok a)
  | error {e : ε} (h : err e) : Outcome ok err (.error e)

lemma Outcome.imp {ok ok' : α → Prop} {err err' : ε → Prop} {x : Except ε α}
    (h : Outcome ok err x) (hok : ∀ a, ok a → ok' a) (herr : ∀ e, err e → err' e) : Outcome ok' err' x := by
  cases h with
  | ok h => exact .ok (hok _ h)
  | error h => exact .error (herr _ h)

/-- The state before turn `i` satisfies `inv i`; a turn that ends the loop satisfies `err`. -/
theorem foldlM_except (inv : ℕ → α → Prop) {err : ε → Prop} {body : α → ℕ → Except ε α} {n : ℕ}
    {a : α} (h0 : inv 0 a) (hstep : ∀ i < n, ∀ b, inv i b → Outcome (inv (i + 1)) err (body b i)) :
    Outcome (inv n) err ((List.range n).foldlM body a) := by
  induction n with
  | zero => exact .ok h0
  | succ n ih =>
    have hn := ih (fun i hi => hstep i (lt_succ_of_lt hi))
    rw [range_succ, foldlM_append]
    generalize (List.range n).foldlM body a = x at hn
    cases hn with
    | error h => exact .error h
    | ok h =>
      rename_i b
      have hb := hstep n (lt_succ_self n) b h
      change Outcome _ _ ((body b n).bind pure)
      generalize body b n = y at hb
      cases hb with
      | error h => exact .error h
      | ok h => exact .ok h

lemma foldlM_option (inv : ℕ → α → Prop) {body : α → ℕ → Option α} {n : ℕ} {a : α}
    (h0 : inv 0 a) (hstep : ∀ i < n, ∀ b, inv i b → ∃ c, body b i = some c ∧ inv (i + 1) c) :
    ∃ b, (List.range n).foldlM body a = some b ∧ inv n b := by
  induction n with
  | zero => exact ⟨a, rfl, h0⟩
  | succ n ih =>
    obtain ⟨b, hrun, hb⟩ := ih (fun i hi => hstep i (lt_succ_of_lt hi))
    obtain ⟨c, hbody, hc⟩ := hstep n (lt_succ_self n) b hb
    refine ⟨c, ?_, hc⟩
    rw [range_succ, foldlM_append, hrun]
    change (body b n).bind pure = some c
    rw [hbody]
    rfl

lemma foldl_range (inv : ℕ → α → Prop) {body : α → ℕ → α} {n : ℕ} {a : α} (h0 : inv 0 a)
    (hstep : ∀ i < n, ∀ b, inv i b → inv (i + 1) (body b i)) : inv n ((List.range n).foldl body a) := by
  induction n with
  | zero => exact h0
  | succ n ih =>
    rw [range_succ, foldl_append]
    exact hstep n (lt_succ_self n) _ (ih (fun i hi => hstep i (lt_succ_of_lt hi)))

end Loops
end NodeKernel
