import NodeKernel.Files.HotMap

/-!
# A value lost in the split

A thread that has seen the flag unset puts its value in the global map after the entries have been moved. No later
call looks there.
-/
namespace NodeKernel.HotMap

open List Step HotOp

open Atomic (Label State history)

section Spec
variable {K V τ : Type} [LinearOrder K] [DecidableEq τ] {k : K} {v : V} {w g : τ}
  {s s' : State τ (HotOp K V) (Option V) (K → Option V)} {e : Label τ (HotOp K V) (Option V)} {there looked : Prop}

/-- All calls insert the value or look for the key, those of `w` insert it. The value is there once `w` has inserted it,
and if it is `there`; and what `g` has `looked` for it has found. -/
structure Tracks (k : K) (v : V) (w g : τ) (there looked : Prop) (s : State τ (HotOp K V) (Option V) (K → Option V)) : Prop where
  calls : ∀ t c, s.threads t = .pending c → c = .insert k v ∨ c = .get k
  writes : ∀ c, s.threads w = .pending c → c = .insert k v
  wrote : ∀ r, s.threads w = .done r → s.obj k = some v
  there : there → s.obj k = some v
  looks : looked → ∀ c, s.threads g = .pending c → c = .get k
  found : looked → ∀ r, s.threads g = .done r → r = some v

lemma Tracks.step (h : Tracks k v w g there looked s) (hlook : looked → there)
    (hcall : ∀ t c, e = .call t c → (c = .insert k v ∨ c = .get k) ∧ (t = w → c = .insert k v) ∧ ¬ looked)
    (hs : Atomic.Step HotOp.onMap s e s') : Tracks k v w g there looked s' := by
  have hkept : s.obj k = some v → s'.obj k = some v := by
    intro hv
    obtain heq | ⟨t, c, ht, heq⟩ := hs.obj
    · rw [heq, hv]
    · rw [heq]
      obtain rfl | rfl := h.calls t c ht
      · simp [onMap, key, value]
      · simpa [onMap, key, value] using hv
  constructor
  case calls => exact fun t c ht => (hs.pending ht).elim (h.calls t c) (fun he => (hcall t c he).1)
  case writes => exact fun c ht => (hs.pending ht).elim (h.writes c) (fun he => (hcall w c he).2.1 rfl)
  case wrote =>
    intro r ht
    obtain hd | ⟨c, hp, -, hobj⟩ := hs.done ht
    · exact hkept (h.wrote r hd)
    · obtain rfl := h.writes c hp
      simp [hobj, onMap, key, value]
  case there => exact fun hthere => hkept (h.there hthere)
  case looks => exact fun hl c ht => (hs.pending ht).elim (h.looks hl c) (fun he => absurd hl (hcall g c he).2.2)
  case found =>
    intro hl r ht
    obtain hd | ⟨c, hp, hr, -⟩ := hs.done ht
    · exact h.found hl r hd
    · obtain rfl := h.looks hl c hp
      exact hr.trans (h.there (hlook hl))

lemma Tracks.hidden (h : Tracks k v w g there looked s) (hlook : looked → there)
    (hr : Atomic.Shows (Atomic.Step HotOp.onMap) s [] s') : Tracks k v w g there looked s' := by
  refine hr.invariant h (fun _ _ _ h hin hs => h.step hlook ?_ hs)
  rintro t c rfl
  cases hin rfl

/-- A value whose insertion has returned is found by the `get` that is called next, if nothing else is written. -/
theorem not_explained {h₁ : List (Label τ (HotOp K V) (Option V))} {r : Option V} (hgw : g ≠ w)
    (hcalls : ∀ t c, .call t c ∈ h₁ → (c = .insert k v ∨ c = .get k) ∧ (t = w → c = .insert k v)) :
    ¬ Atomic.Explained HotOp.onMap (fun _ => none) (h₁ ++ [.ret w r] ++ [.call g (.get k)] ++ [.ret g none]) := by
  rintro ⟨tr, s, hr⟩
  obtain ⟨s₅, _, hr, hfound, -⟩ := Atomic.Shows.last ⟨tr, hr⟩
  obtain ⟨s₃, s₄, hr, hget, hlast⟩ := hr.last
  obtain ⟨s₁, s₂, hr, hret, hbetween⟩ := hr.last
  have h₁ : Tracks k v w g False False s₁ := by
    refine hr.invariant ⟨nofun, nofun, nofun, nofun, nofun, nofun⟩ (fun _ _ _ h hin hs => h.step id ?_ hs)
    rintro t c rfl
    obtain ⟨honly, hw⟩ := hcalls t c (hin rfl)
    exact ⟨honly, hw, id⟩
  have h₂ : Tracks k v w g True False s₂ := by
    refine { h₁.step id (fun t c he => by cases he) hret with there := fun _ => ?_ }
    cases hret with
    | ret hd => exact h₁.wrote r hd
  have h₄ : Tracks k v w g True True s₄ := by
    refine { (h₂.hidden nofun hbetween).step nofun ?_ hget with looks := fun _ c ht => ?_, found := fun _ r ht => ?_ }
    · rintro t c he
      cases he
      exact ⟨.inr rfl, fun h => absurd h hgw, id⟩
    · cases hget with
      | call hidle => simpa using ht.symm
    · cases hget with
      | call hidle => simp at ht
  cases hfound with
  | ret hd => cases (h₄.hidden id hlast).found trivial none hd

end Spec

section Loss

def keyBytes (k : ℕ) : List UInt8 := [UInt8.ofNat k]

def three (a b c : HotThread ℕ ℕ) : Fin 3 → HotThread ℕ ℕ
  | 0 => a
  | 1 => b
  | 2 => c

def early (holder : Option (Fin 3)) (n : UInt64) (a b c : HotThread ℕ ℕ) : HotMap ℕ ℕ (Fin 3) :=
  ⟨OrdMap.empty, holder, false, fun _ => OrdMap.empty, n, three a b c⟩

variable {n : UInt64} {c : HotThread ℕ ℕ}

lemma eq_of_threads {m m' : HotMap ℕ ℕ (Fin 3)} (h : { m with threads := m'.threads } = m')
    (h₀ : m.threads 0 = m'.threads 0) (h₁ : m.threads 1 = m'.threads 1) (h₂ : m.threads 2 = m'.threads 2) : m = m' := by
  have ht : m.threads = m'.threads := by
    funext t
    match t with
    | 0 => exact h₀
    | 1 => exact h₁
    | 2 => exact h₂
  rw [← h, ← ht]

lemma round : Atomic.Shows (Step keyBytes) (early none n .idle .idle c)
    [.call 0 (.get 0), .call 1 (.get 0), .ret 0 none] (early none (n + 1) .idle (.checking none) c) := by
  refine .seen (call rfl) rfl ?_
  refine .hidden (e := .tick 0) (loadFlag rfl) rfl ?_
  refine .hidden (e := .tick 0) (tryLock rfl rfl) rfl ?_
  refine .seen (call rfl) rfl ?_
  refine .hidden (e := .tick 1) (loadFlag rfl) rfl ?_
  refine .hidden (e := .tick 1) (tryLockFails rfl nofun) rfl ?_
  refine .hidden (e := .tick 1) (count rfl) rfl ?_
  refine .hidden (e := .tick 0) (access rfl) rfl ?_
  refine .seen (ret rfl) rfl ?_
  refine .hidden (e := .tick 1) (lock rfl rfl) rfl ?_
  refine .hidden (e := .tick 1) (accessLate rfl) rfl ?_
  exact .of_eq (eq_of_threads rfl rfl rfl rfl)

def roundHistory : List (Label (Fin 3) (HotOp ℕ ℕ) (Option ℕ)) :=
  [.call 0 (.get 0), .call 1 (.get 0), .ret 0 none, .ret 1 none]

lemma quiet_round (hn : ¬ 1000 < n + 1) : Atomic.Shows (Step keyBytes) (early none n .idle .idle c) roundHistory
    (early none (n + 1) .idle .idle c) := by
  have hlast : Atomic.Shows (Step keyBytes) (early none (n + 1) .idle (.checking none) c) [.ret 1 none]
      (early none (n + 1) .idle .idle c) := by
    refine .hidden (e := .tick 1) (checkSplit rfl) rfl ?_
    rw [if_neg (show ¬ 1000 < (early none (n + 1) .idle (.checking none) c).contention from hn)]
    refine .seen (ret rfl) rfl ?_
    exact .of_eq (eq_of_threads rfl rfl rfl rfl)
  exact round.trans hlast

lemma quiet_rounds (i : ℕ) (hi : i ≤ 1000) :
    Atomic.Shows (Step keyBytes) (early none 0 .idle .idle .idle) (List.replicate i roundHistory).flatten
      (early none (UInt64.ofNat i) .idle .idle .idle) := by
  induction i with
  | zero => exact .of_eq rfl
  | succ i ih =>
    have hnext : ¬ 1000 < UInt64.ofNat i + 1 := by
      rw [UInt64.lt_iff_toNat_lt, UInt64.toNat_add, UInt64.toNat_ofNat']
      simp only [UInt64.reduceToNat]
      omega
    rw [replicate_succ', flatten_append, UInt64.ofNat_add]
    exact (ih (by omega)).trans (by simpa using quiet_round hnext)

def late (g : OrdMap ℕ ℕ) (a b c : HotThread ℕ ℕ) : HotMap ℕ ℕ (Fin 3) :=
  ⟨g, none, true, fun _ => OrdMap.empty, 1001, three a b c⟩

lemma split_shown : Atomic.Shows (Step keyBytes) (early none 1001 .idle (.checking none) c) [.ret 1 none]
    (late OrdMap.empty .idle .idle c) := by
  refine .hidden (e := .tick 1) (checkSplit rfl) rfl ?_
  refine .hidden (e := .tick 1) (splitLock rfl rfl) rfl ?_
  refine .hidden (e := .tick 1) (startMoving rfl rfl) rfl ?_
  refine .hidden (e := .tick 1) (storeFlag rfl) rfl ?_
  refine .hidden (e := .tick 1) (unlock rfl) rfl ?_
  refine .seen (ret rfl) rfl ?_
  exact .of_eq (eq_of_threads rfl rfl rfl rfl)

lemma late_insert_shown : Atomic.Shows (Step keyBytes) (late OrdMap.empty .idle .idle (.onGlobal (.insert 0 1)))
    [.ret 2 none] (late (OrdMap.empty.insert 0 1) .idle .idle .idle) := by
  refine .hidden (e := .tick 2) (tryLock rfl rfl) rfl ?_
  refine .hidden (e := .tick 2) (access rfl) rfl ?_
  refine .seen (ret rfl) rfl ?_
  exact .of_eq (eq_of_threads rfl rfl rfl rfl)

lemma late_get_shown (g : OrdMap ℕ ℕ) :
    ∃ m, Atomic.Shows (Step keyBytes) (late g .idle .idle .idle) [.call 0 (.get 0), .ret 0 none] m :=
  ⟨_, .seen (call rfl) rfl (.hidden (e := .tick 0) (loadFlag rfl) rfl
    (.hidden (e := .tick 0) (shard rfl) rfl (.seen (ret rfl) rfl (.of_eq rfl))))⟩

def lossHistory : List (Label (Fin 3) (HotOp ℕ ℕ) (Option ℕ)) :=
  (List.replicate 1000 roundHistory).flatten ++ .call 2 (.insert 0 1) :: roundHistory

lemma mem_lossHistory {e : Label (Fin 3) (HotOp ℕ ℕ) (Option ℕ)} (h : e ∈ lossHistory) :
    e = .call 2 (.insert 0 1) ∨ e ∈ roundHistory := by
  rcases mem_append.mp h with h | h
  · obtain ⟨l, hl, he⟩ := mem_flatten.mp h
    exact .inr ((mem_replicate.mp hl).2 ▸ he)
  · exact mem_cons.mp h

theorem value_lost_in_split : ∃ tr m, Run (Step keyBytes) (new : HotMap ℕ ℕ (Fin 3)) tr m ∧
    ¬ Atomic.Explained HotOp.onMap (fun _ => none) (history tr) := by
  have hcall : Atomic.Shows (Step keyBytes) (early none 1000 .idle .idle .idle) [.call 2 (.insert 0 1)]
      (early none 1000 .idle .idle (.onGlobal (.insert 0 1))) := by
    refine .seen (call rfl) rfl ?_
    refine .hidden (e := .tick 2) (loadFlag rfl) rfl ?_
    exact .of_eq (eq_of_threads rfl rfl rfl rfl)
  obtain ⟨m, hget⟩ := late_get_shown (OrdMap.empty.insert 0 1)
  obtain ⟨tr, hrun, hh⟩ := (quiet_rounds 1000 le_rfl).trans (hcall.trans (round.trans (split_shown.trans
    (late_insert_shown.trans hget))))
  have hnew : early none 0 .idle .idle .idle = new := eq_of_threads rfl rfl rfl rfl
  have hall : history tr = lossHistory ++ [.ret 2 none] ++ [.call 0 (.get 0)] ++ [.ret 0 none] := by
    rw [hh, lossHistory]
    simp only [append_assoc]
    rfl
  refine ⟨tr, m, hnew ▸ hrun, hall ▸ not_explained (v := 1) (by decide) ?_⟩
  intro t c he
  obtain he | he := mem_lossHistory he
  · cases he
    exact ⟨.inl rfl, fun _ => rfl⟩
  · have hget : t = 0 ∧ c = .get 0 ∨ t = 1 ∧ c = .get 0 := by simpa [roundHistory] using he
    obtain ⟨rfl, rfl⟩ | ⟨rfl, rfl⟩ := hget
    · exact ⟨.inr rfl, nofun⟩
    · exact ⟨.inr rfl, nofun⟩

end Loss

end NodeKernel.HotMap
