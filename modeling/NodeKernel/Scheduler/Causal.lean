import Mathlib.Algebra.Group.Nat.Defs
import NodeKernel.Lib.OrdMap

/-!
# The graph of wake-ups

`kernel/src/causal.rs` keeps the last wake-ups in a ring. `last_waker` and `waker_chain` tell who woke a process,
`predict_successors` whom a process wakes often.
-/
namespace NodeKernel

open List Nat OrdMap

structure WakeEdge where
  waker : ℕ
  wakee : ℕ
  uptimeMs : ℕ

structure CausalGraph where
  edges : ℕ → WakeEdge
  head : ℕ
  count : ℕ

namespace CausalGraph

def nEdges : ℕ := 512

def new : CausalGraph := ⟨fun _ => ⟨0, 0, 0⟩, 0, 0⟩

def record (g : CausalGraph) (e : WakeEdge) : CausalGraph :=
  ⟨Function.update g.edges g.head e, (g.head + 1) % nEdges, min (g.count + 1) (2 ^ 64 - 1)⟩

def edgeAt (g : CausalGraph) (i : ℕ) : WakeEdge := g.edges ((g.head + nEdges - 1 - i) % nEdges)

/-- The loop counts down, and `i` is the age of an edge: the oldest one comes first. -/
def lastWaker (g : CausalGraph) (wakee : ℕ) : Option ℕ :=
  (((List.range (min g.count nEdges)).reverse.map g.edgeAt).find? (fun e => e.wakee = wakee)).map WakeEdge.waker

def chainLoop (g : CausalGraph) : ℕ → List ℕ → ℕ → List ℕ
  | 0, chain, _ => chain
  | depth + 1, chain, cur =>
    match g.lastWaker cur with
    | some w => if w = 0 ∨ w ∈ chain then chain else g.chainLoop depth (chain ++ [w]) w
    | none => chain

def wakerChain (g : CausalGraph) (pid depth : ℕ) : List ℕ := g.chainLoop depth [pid] pid

def countEdge (waker : ℕ) (freq : OrdMap ℕ ℕ) (e : WakeEdge) : OrdMap ℕ ℕ :=
  if e.waker = waker ∧ e.wakee ≠ 0 then freq.insert e.wakee ((freq.get e.wakee).getD 0 + 1) else freq

def predictSuccessors (g : CausalGraph) (waker : ℕ) : List ℕ :=
  let freq := ((List.range (min (min g.count nEdges) 64)).map g.edgeAt).foldl (countEdge waker) OrdMap.empty
  let candidates := freq.entries.filter (fun c => 2 ≤ c.2)
  ((candidates.mergeSort (fun a b => b.2 ≤ a.2)).take 4).map Prod.fst

/-- The graph after some wake-ups, of which the most recent one is the first in the list. -/
def ofHistory (history : List WakeEdge) : CausalGraph := history.foldr (fun e g => g.record e) new

variable {history : List WakeEdge} {g : CausalGraph} {n waker : ℕ}

/-- The ring holds the history as far back as it reaches. -/
structure Keeps (g : CausalGraph) (history : List WakeEdge) : Prop where
  head : g.head < nEdges
  count : min g.count nEdges = min history.length nEdges
  edges : ∀ n ≤ nEdges, (List.range (min history.length n)).map g.edgeAt = history.take n

lemma Keeps.record (h : g.Keeps history) (e : WakeEdge) : (g.record e).Keeps (e :: history) := by
  have hhead := h.head
  have hcount := h.count
  unfold nEdges at hhead hcount
  have hold : ∀ i < 511, (g.record e).edgeAt (i + 1) = g.edgeAt i := by
    intro i hi
    change Function.update g.edges g.head e (((g.head + 1) % 512 + 512 - 1 - (i + 1)) % 512) =
      g.edges ((g.head + 512 - 1 - i) % 512)
    rw [Function.update_of_ne (by omega)]
    congr 1
    omega
  have hnew : (g.record e).edgeAt 0 = e := by
    unfold edgeAt CausalGraph.record nEdges
    dsimp only
    rw [show ((g.head + 1) % 512 + 512 - 1 - 0) % 512 = g.head by omega, Function.update_self]
  refine ⟨mod_lt _ (by decide), ?_, ?_⟩
  · rw [length_cons]
    change min (min (g.count + 1) (2 ^ 64 - 1)) 512 = min (history.length + 1) 512
    omega
  · intro n hn
    cases n with
    | zero => rfl
    | succ n =>
      rw [length_cons, Nat.add_min_add_right, range_succ_eq_map, map_cons, map_map, take_succ_cons, hnew,
        ← h.edges n (by omega)]
      refine congrArg (e :: ·) (map_congr_left fun i hi => hold i ?_)
      rw [mem_range] at hi
      unfold nEdges at hn
      omega

lemma keeps_ofHistory (history : List WakeEdge) : (ofHistory history).Keeps history := by
  induction history with
  | nil => exact ⟨by decide, rfl, fun n _ => by rw [length_nil, Nat.zero_min, take_nil]; rfl⟩
  | cons e history ih => exact ih.record e

/-- Who woke the process, by the first edge in the list that says so. -/
def wakerIn (l : List WakeEdge) (p : ℕ) : Option ℕ := (l.find? (fun e => e.wakee = p)).map WakeEdge.waker

/-- From a process to its waker, and on from there, until one comes up again. -/
def follow (next : ℕ → Option ℕ) : ℕ → List ℕ → ℕ → List ℕ
  | 0, chain, _ => chain
  | depth + 1, chain, cur =>
    match next cur with
    | some w => if w ∈ chain then chain else follow next depth (chain ++ [w]) w
    | none => chain

def BlamesLatest (history : List WakeEdge) : Prop :=
  (∀ p, (ofHistory history).lastWaker p = wakerIn (history.take nEdges) p) ∧
    ∀ p depth, (ofHistory history).wakerChain p depth = follow (wakerIn (history.take nEdges)) depth [p] p

/-- The oldest waker in the ring is the latest one too, and the process `0` wakes at most itself. -/
def SteadyWakers (history : List WakeEdge) : Prop :=
  ∀ p w, wakerIn (history.take nEdges) p = some w → wakerIn (history.take nEdges).reverse p = some w ∧ (w = 0 → p = 0)

lemma lastWaker_ofHistory (p : ℕ) : (ofHistory history).lastWaker p = wakerIn (history.take nEdges).reverse p := by
  have h := keeps_ofHistory history
  rw [lastWaker, wakerIn, map_reverse, h.count, h.edges nEdges le_rfl]

lemma wakerIn_reverse_none {l : List WakeEdge} {p : ℕ} : wakerIn l.reverse p = none ↔ wakerIn l p = none := by
  unfold wakerIn
  simp

theorem blamesLatest_iff (history : List WakeEdge) : BlamesLatest history ↔ SteadyWakers history := by
  constructor
  · rintro ⟨hlast, hchain⟩ p w hw
    refine ⟨by rw [← lastWaker_ofHistory, hlast, hw], ?_⟩
    rintro rfl
    by_contra hp
    have h := hchain p 1
    simp [wakerChain, chainLoop, follow, hlast, hw, Ne.symm hp] at h
  · intro h
    have hlast : ∀ p, (ofHistory history).lastWaker p = wakerIn (history.take nEdges) p := by
      intro p
      rw [lastWaker_ofHistory]
      cases hw : wakerIn (history.take nEdges) p with
      | none => exact wakerIn_reverse_none.mpr hw
      | some w => exact (h p w hw).1
    have hloop : ∀ depth chain cur, cur ∈ chain → (ofHistory history).chainLoop depth chain cur =
        follow (wakerIn (history.take nEdges)) depth chain cur := by
      intro depth
      induction depth with
      | zero => exact fun _ _ _ => rfl
      | succ depth ih =>
        intro chain cur hcur
        rw [chainLoop, follow, hlast]
        cases hw : wakerIn (history.take nEdges) cur with
        | none => rfl
        | some w =>
          have hzero : w = 0 → w ∈ chain := by
            rintro rfl
            exact (h cur 0 hw).2 rfl ▸ hcur
          simp only [or_iff_right_of_imp hzero, ih _ _ (mem_append_right chain (mem_singleton_self w))]
    exact ⟨hlast, fun p depth => hloop depth [p] p (mem_singleton_self p)⟩

/-- The process 3 was woken by 1 and then by 2, and the graph names 1. -/
theorem earliest_waker_is_blamed : ¬ BlamesLatest [⟨2, 3, 20⟩, ⟨1, 3, 10⟩] := by
  intro h
  exact absurd (h.1 3) (by decide)

def wakes (l : List WakeEdge) (waker p : ℕ) : ℕ := l.countP (fun e => e.waker = waker ∧ e.wakee = p)

/-- The pids that the waker has often woken, by how often, with the first four of them kept. -/
structure Foresees (l : List WakeEdge) (waker : ℕ) (out : List ℕ) : Prop where
  nodup : out.Nodup
  falling : out.Pairwise (fun p q => wakes l waker q ≤ wakes l waker p)
  short : out.length ≤ 4
  often : ∀ p ∈ out, p ≠ 0 ∧ 2 ≤ wakes l waker p
  omitted : ∀ p, p ≠ 0 → 2 ≤ wakes l waker p → p ∉ out → out.length = 4 ∧ ∀ q ∈ out, wakes l waker p ≤ wakes l waker q

lemma get_freq (waker : ℕ) (l : List WakeEdge) (freq : OrdMap ℕ ℕ) (p : ℕ) : ((l.foldl (countEdge waker) freq).get p).getD 0 =
    (freq.get p).getD 0 + if p = 0 then 0 else wakes l waker p := by
  induction l generalizing freq with
  | nil => simp [wakes]
  | cons e l ih =>
    have hstep : ((countEdge waker freq e).get p).getD 0 =
        (freq.get p).getD 0 + if p ≠ 0 ∧ e.waker = waker ∧ e.wakee = p then 1 else 0 := by
      unfold countEdge
      by_cases he : e.waker = waker ∧ e.wakee ≠ 0
      · rw [if_pos he, get_insert]
        by_cases hp : p = e.wakee
        · rw [if_pos hp, if_pos ⟨hp ▸ he.2, he.1, hp.symm⟩, hp]
          rfl
        · rw [if_neg hp, if_neg fun h => hp h.2.2.symm]
          rfl
      · have hno : ¬ (p ≠ 0 ∧ e.waker = waker ∧ e.wakee = p) := fun h => he ⟨h.2.1, h.2.2 ▸ h.1⟩
        rw [if_neg he, if_neg hno]
        rfl
    rw [foldl_cons, ih, hstep, wakes, wakes, countP_cons]
    by_cases hp : p = 0
    · simp [hp]
    · simp [hp]
      omega

theorem predictSuccessors_foresees (history : List WakeEdge) (waker : ℕ) :
    Foresees (history.take 64) waker ((ofHistory history).predictSuccessors waker) := by
  have h := keeps_ofHistory history
  unfold predictSuccessors
  rw [h.count, min_assoc, min_eq_right (show 64 ≤ nEdges by decide), h.edges 64 (by decide)]
  generalize history.take 64 = l
  dsimp only
  generalize hfreq : l.foldl (countEdge waker) empty = freq
  have hentry : ∀ c, c ∈ freq.entries.filter (fun c => 2 ≤ c.2) ↔ c.1 ≠ 0 ∧ 2 ≤ c.2 ∧ c.2 = wakes l waker c.1 := by
    intro c
    have hget := get_freq waker l empty c.1
    rw [hfreq, get_empty, Option.getD_none, zero_add] at hget
    rw [mem_filter, decide_eq_true_iff, ← get_eq_some]
    cases hg : freq.get c.1 with
    | none =>
      rw [hg, Option.getD_none] at hget
      exact iff_of_false (fun h => by cases h.1) fun h => by rw [if_neg h.1] at hget; omega
    | some v =>
      rw [hg, Option.getD_some] at hget
      split at hget <;> simp <;> omega
  generalize hs : (freq.entries.filter fun c => 2 ≤ c.2).mergeSort (fun a b => b.2 ≤ a.2) = s
  have hperm : s.Perm (freq.entries.filter fun c => 2 ≤ c.2) := hs ▸ mergeSort_perm _ _
  have hmem : ∀ c ∈ s, c.1 ≠ 0 ∧ 2 ≤ c.2 ∧ c.2 = wakes l waker c.1 := fun c hc => (hentry c).mp (hperm.mem_iff.mp hc)
  have hsorted : s.Pairwise (fun a b => decide (b.2 ≤ a.2) = true) := by
    rw [← hs]
    exact pairwise_mergeSort (by simp; omega) (by simp; omega) _
  have hnodup : (s.map Prod.fst).Nodup :=
    (hperm.map Prod.fst).nodup_iff.mpr (freq.keys_nodup.sublist (filter_sublist.map Prod.fst))
  have hfalling : (s.map Prod.fst).Pairwise (fun p q => wakes l waker q ≤ wakes l waker p) := by
    refine pairwise_map.mpr (hsorted.imp_of_mem fun ha hb hle => ?_)
    rw [← (hmem _ ha).2.2, ← (hmem _ hb).2.2]
    exact of_decide_eq_true hle
  rw [map_take]
  have hsplit := take_append_drop 4 (s.map Prod.fst)
  refine ⟨hnodup.sublist (take_sublist _ _), hfalling.sublist (take_sublist _ _), length_take_le _ _, ?_, ?_⟩
  · intro p hp
    obtain ⟨c, hc, rfl⟩ := mem_map.mp (mem_of_mem_take hp)
    exact ⟨(hmem c hc).1, (hmem c hc).2.2 ▸ (hmem c hc).2.1⟩
  · intro p hp hoften hout
    have hin : p ∈ s.map Prod.fst := mem_map.mpr ⟨(p, _), hperm.mem_iff.mpr ((hentry _).mpr ⟨hp, hoften, rfl⟩), rfl⟩
    have hdrop : p ∈ (s.map Prod.fst).drop 4 := by
      rw [← hsplit, mem_append] at hin
      exact hin.resolve_left hout
    refine ⟨?_, fun q hq => ?_⟩
    · have hpos := length_pos_of_mem hdrop
      rw [length_drop] at hpos
      rw [length_take]
      omega
    · rw [← hsplit, pairwise_append] at hfalling
      exact hfalling.2.2 q hq p hdrop

end CausalGraph
end NodeKernel
