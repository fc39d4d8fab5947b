import NodeKernel.Lib.Run

/-!
# Compare-and-swap loops

Threads run operations on one shared cell: an operation loads the cell, works out a new value and a result, and swaps
the value in unless the cell has changed. Those that returned ran one after the other, in the order of their swaps.
-/
namespace NodeKernel.Cas

open Function

variable {τ κ α ρ ε : Type*}

inductive Thread (κ α : Type*) where
  | idle
  | loading (c : κ)
  | swapping (c : κ) (cur : α)

structure State (τ κ α ρ : Type*) where
  cell : α
  threads : τ → Thread κ α
  returned : List (κ × ρ)

inductive Event (τ κ : Type*) where
  | call (t : τ) (c : κ)
  | load (t : τ)
  | swap (t : τ)

def start (a : α) : State τ κ α ρ := ⟨a, fun _ => .idle, []⟩

section Steps
variable [DecidableEq τ] (op : κ → α → Except ε (α × ρ))

inductive Step : State τ κ α ρ → Event τ κ → State τ κ α ρ → Prop
  | call {s t c} : s.threads t = .idle →
      Step s (.call t c) { s with threads := update s.threads t (.loading c) }
  | load {s t c r} : s.threads t = .loading c → op c s.cell = .ok r →
      Step s (.load t) { s with threads := update s.threads t (.swapping c s.cell) }
  | refuse {s t c e} : s.threads t = .loading c → op c s.cell = .error e →
      Step s (.load t) { s with threads := update s.threads t .idle }
  | swap {s t c new ret} : s.threads t = .swapping c s.cell → op c s.cell = .ok (new, ret) →
      Step s (.swap t) ⟨new, update s.threads t .idle, s.returned ++ [(c, ret)]⟩
  | retry {s t c cur} : s.threads t = .swapping c cur → s.cell ≠ cur →
      Step s (.swap t) { s with threads := update s.threads t (.loading c) }

/-- The operations, run one at a time from `a`, give these results and end in `b`. -/
inductive Serial (a : α) : List (κ × ρ) → α → Prop
  | nil : Serial a [] a
  | snoc {l b c b' r} : Serial a l b → op c b = .ok (b', r) → Serial a (l ++ [(c, r)]) b'

variable {op}

lemma Step.serial {a : α} {s s' : State τ κ α ρ} {e : Event τ κ} (h : Step op s e s')
    (hs : Serial op a s.returned s.cell) : Serial op a s'.returned s'.cell := by
  cases h with
  | call | load | refuse | retry => exact hs
  | swap _ hop => exact hs.snoc hop

lemma run_serial {a : α} {tr : List (State τ κ α ρ × Event τ κ)} {s : State τ κ α ρ}
    (hrun : Run (Step op) (start a) tr s) : Serial op a s.returned s.cell := by
  have hinv := hrun.invariant (I := fun s => Serial op a s.returned s.cell) Serial.nil
    (fun s e s' hs he => he.serial hs)
  exact hinv.2

lemma Step.returns {s s' : State τ κ α ρ} {e : Event τ κ} {c : κ} {ret : ρ} (h : Step op s e s')
    (hr : s'.returned = s.returned ++ [(c, ret)]) : op c s.cell = .ok (s'.cell, ret) := by
  have hne : s.returned ≠ s.returned ++ [(c, ret)] := by simp
  cases h with
  | call | load | refuse | retry => exact absurd hr hne
  | swap _ hop =>
    obtain ⟨rfl, rfl⟩ := Prod.mk.inj (List.singleton_inj.mp (List.append_cancel_left hr))
    exact hop

end Steps
end NodeKernel.Cas
