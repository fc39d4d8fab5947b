import NodeKernel.Lib.Loops
import NodeKernel.Memory.SpaceCopies
import NodeKernel.Memory.VmmRefinement

/-!
# Copying an address space

`copy_user_address_space` shares a prefix of the pages, all of them if it succeeds. It
takes one frame for each table of the parent, and fails only when no frame is left.
-/
namespace NodeKernel
open Blocks Loops Finset Nat Pte Radix Space
namespace Vm

section EnsureTable
variable {vm : Vm} {L : FreeLists} {out : Finset Block} {P roots : Set ℕ} {E : Finset Entry}
  {S : Finset ℕ} {σ : Space} {c d e t t' v : ℕ}

lemma ensureTable_existing (ht : pageTables.tableAt vm.pmm.mem c d v = some t)
    (hchild : pageTables.tableAt vm.pmm.mem c (d + 1) v = some t') :
    vm.ensureTable t (pageTables.slot d v) e = .ok (t', vm) := by
  simp only [tableAt] at hchild
  rw [ht] at hchild
  obtain ⟨hp, rfl⟩ := childTable_some hchild
  unfold ensureTable read
  rw [if_pos]
  · rfl
  · rw [ne_eq, and_present, hp]
    simp

/-- A frame has been taken for a new table in slot `v` of depth `d` of the root `c`. -/
structure NewTable (vm : Vm) (out : Finset Block) (P roots : Set ℕ) (E : Finset Entry)
    (S : Finset ℕ) (σ : Space) (c d v f : ℕ) (vm' : Vm) (L' : FreeLists) : Prop where
  refines : vm'.Refines L' (insert (blockAt f 0) out) P roots E S σ
  fresh : blockAt f 0 ∉ out
  root : vm'.vmmRoot = vm.vmmRoot
  spent : Pmm.Spent vm.pmm 1 vm'.pmm
  kept : ∀ a, Held out P a → ¬ pageTables.IsTable vm.pmm.mem roots userPages a →
    ∀ i, vm'.pmm.mem a i = vm.pmm.mem a i
  walk : ∀ r' ∈ roots, ∀ d' ≤ 3, ∀ v' < userPages, pageTables.tableAt vm'.pmm.mem r' d' v' =
    if r' = c ∧ d' = d + 1 ∧ pageTables.stem (d + 1) v' = pageTables.stem (d + 1) v then some f
    else pageTables.tableAt vm.pmm.mem r' d' v'
  count : userTables vm'.pmm.mem c = userTables vm.pmm.mem c + 1

lemma Refines.ensureTable_new (h : vm.Refines L out P roots E S σ) (hc : c ∈ roots)
    (hv : v < userPages) (hd : d < 3) (ht : pageTables.tableAt vm.pmm.mem c d v = some t)
    (hnone : pageTables.tableAt vm.pmm.mem c (d + 1) v = none) (he : childTable d e ≠ none) :
    ((∃ msg, vm.ensureTable t (pageTables.slot d v) e = .error (msg, vm)) ∧ vm.pmm.allocOrder 0 = none) ∨
      ∃ f vm' L', vm.ensureTable t (pageTables.slot d v) e = .ok (f, vm') ∧ NewTable vm out P roots E S σ c d v f vm' L' := by
  have hchild : childTable d (vm.pmm.mem t (pageTables.slot d v)) = none := by
    simp only [tableAt] at hnone
    rw [ht] at hnone
    exact hnone
  have hzero : vm.pmm.mem t (pageTables.slot d v) = 0 :=
    (h.tables.clean c hc d hd v hv t ht).resolve_right (fun hn => hn hchild)
  have hread : vm.read t (pageTables.slot d v) = 0 := hzero
  cases ha : vm.allocFrame with
  | none =>
    refine .inl ⟨⟨"ensure_table: OOM", ?_⟩, allocFrame_none.mp ha⟩
    unfold ensureTable
    simp [hread, ha]
  | some q =>
    obtain ⟨f, vm₁⟩ := q
    -- the new frame is cleared before it is linked
    obtain ⟨L', hn⟩ := h.allocFill ha (vm₁.pmm.mem.zeroPage f) (fun a ha i => if_neg ha)
    have ht₂ := (hn.walks c hc d (le_of_lt hd) v hv).trans ht
    have hnone₂ := (hn.walks c hc (d + 1) hd v hv).trans hnone
    simp only [tableAt] at hnone₂
    rw [ht₂] at hnone₂
    obtain ⟨h₃, hl⟩ := hn.refines.link hc hv hd ht₂ hnone₂ he (mem_insert_self _ _)
      hn.fresh.noTable hn.fresh.unmapped hn.unspared (fun i => if_pos rfl)
    have htable : pageTables.IsTable vm.pmm.mem roots userPages t := ⟨c, hc, d, hd.le, v, hv, ht⟩
    refine .inr ⟨f, _, L', ?_, h₃, hn.fresh.new, hn.root, ?_, ?_, ?_, ?_⟩
    · unfold ensureTable
      simp only [hread, ha]
      rfl
    · exact hn.spent.congr hn.refines.tables.inv h₃.tables.inv
    · intro a hheld hnot i
      have hat : a ≠ t := fun he => hnot (he ▸ htable)
      exact (PhysMem.write_ne _ (.inl hat)).trans (hn.kept a hheld i)
    · intro r' hr' d' hd' v' hv'
      rw [← hn.walks r' hr' d' hd' v' hv']
      exact hl.tableAt hn.refines.tables.forest hr' hv' hd'
    · rw [← userTables_congr (hn.walks c hc)]
      exact userTables_linked hl hn.refines.tables.forest

end EnsureTable
section CopyEntry
variable {vm : Vm} {L : FreeLists} {out : Finset Block} {P roots : Set ℕ} {E : Finset Entry}
  {S : Finset ℕ} {σ : Space} {r c v t t' : ℕ}

lemma Refines.copyEntry (h : vm.Refines L out P roots E S σ) (hr : r ∈ roots) (hc : c ∈ roots)
    (hv : v < userPages) (hE : (r, v) ∈ E) (ht : pageTables.tableAt vm.pmm.mem r 3 v = some t)
    (ht' : pageTables.tableAt vm.pmm.mem c 3 v = some t') (n : ℕ) :
    (copyEntry t t' (vm, n) (pageTables.slot 3 v)).1.Refines L out P roots E S (σ.share (r, v) (c, v)) ∧
      (copyEntry t t' (vm, n) (pageTables.slot 3 v)).1.vmmRoot = vm.vmmRoot ∧ ∀ r' ∈ roots, ∀ d ≤ 3, ∀ v' < userPages,
        pageTables.tableAt (copyEntry t t' (vm, n) (pageTables.slot 3 v)).1.pmm.mem r' d v' =
          pageTables.tableAt vm.pmm.mem r' d v' := by
  have hread := h.read_entry hr hv ht
  unfold Vm.copyEntry
  dsimp only
  rw [hread]
  by_cases hp : present (σ.pte (r, v)) = false
  · rw [if_pos ((and_present _).mpr hp), share_of_absent hp]
    exact ⟨h, rfl, fun _ _ _ _ _ _ => rfl⟩
  · rw [if_neg (fun hc => hp ((and_present _).mp hc))]
    have hp' : present (σ.pte (r, v)) = true := by simpa using hp
    by_cases hs : Space.Sharable (σ.pte (r, v))
    · rw [if_pos (by
        rw [ne_eq, ne_eq, and_writable, and_cow, Bool.not_eq_false, Bool.not_eq_false]
        exact hs.2), share_of_sharable hs]
      obtain ⟨h₁, hw₁⟩ := h.writeLeaf hr hv ht (w := toCow (σ.pte (r, v)))
        (fun _ _ => h.mappable hE hp' frame_toCow (fun _ => hs.backed))
      have hmaps : (σ.setPte (r, v) (toCow (σ.pte (r, v)))).pte (r, v) = toCow (σ.pte (r, v)) := setPte_self
      have hcowp : present ((σ.setPte (r, v) (toCow (σ.pte (r, v)))).pte (r, v)) = true := by
        rw [hmaps, present_toCow]
        exact hp'
      have hcows : Space.Sharable ((σ.setPte (r, v) (toCow (σ.pte (r, v)))).pte (r, v)) := by
        rw [hmaps]
        exact ⟨present_toCow.trans hp', .inr cow_toCow⟩
      obtain ⟨h₂, hw₂⟩ := h₁.writeLeaf hc hv ((hw₁ c hc 3 le_rfl v hv).trans ht')
        (w := toCow (σ.pte (r, v)))
        (fun _ _ => h₁.mappable hE hcowp (by rw [hmaps]) (fun _ => hcows.backed))
      have hrefs : vm.cowRefs = σ.refs := h.refs
      refine ⟨?_, rfl, fun r' hr' d hd v' hv' => (hw₂ r' hr' d hd v' hv').trans (hw₁ r' hr' d hd v' hv')⟩
      have h₃ := h₂.setRef (frame (σ.pte (r, v)))
        (some (min ((σ.refs (frame (σ.pte (r, v)))).getD 1 + 1) 255))
      rw [← hrefs] at h₃ ⊢
      exact h₃
    · rw [if_neg (by
        rw [ne_eq, ne_eq, and_writable, and_cow, Bool.not_eq_false, Bool.not_eq_false]
        exact fun hc => hs ⟨hp', hc⟩), share_of_readonly hp' hs]
      obtain ⟨h₁, hw₁⟩ := h.writeLeaf hc hv ht' (w := σ.pte (r, v))
        (fun _ _ => h.mappable hE hp' rfl id)
      exact ⟨h₁, rfl, hw₁⟩

end CopyEntry

/-- One copy: the root `r` of the parent with its walks, the root `c` of the child, and the
space before. -/
structure Copy where
  P : Set ℕ
  roots : Set ℕ
  E : Finset Entry
  S : Finset ℕ
  σ : Space
  r : ℕ
  c : ℕ
  walk : ℕ → ℕ → Option ℕ
  parent : r ∈ roots
  child : c ∈ roots
  covers : ∀ v < userPages, (r, v) ∈ E

namespace Copy

/-- The pages below `k` are shared, and the tables of the parent are where they were. -/
structure At (K : Copy) (k : ℕ) (vm : Vm) (L : FreeLists) (out : Finset Block) : Prop where
  refines : vm.Refines L out K.P K.roots K.E K.S (K.σ.shareAll K.r K.c k)
  source : ∀ d ≤ 3, ∀ v < userPages, pageTables.tableAt vm.pmm.mem K.r d v = K.walk d v

/-- From `vm` the copy has gone on to `vm'`, up to page `k`, and has taken `n` frames; the
tables of the pages from `a` on are not touched. -/
structure To (K : Copy) (vm : Vm) (out : Finset Block) (k a n : ℕ) (vm' : Vm) : Prop where
  now : ∃ L' out', out ⊆ out' ∧ K.At k vm' L' out'
  grown : ∀ d ≤ 3, ∀ v < userPages, ∀ t, pageTables.tableAt vm.pmm.mem K.c d v = some t →
    pageTables.tableAt vm'.pmm.mem K.c d v = some t
  ahead : ∀ v, a ≤ v → v < userPages → ∀ d ≤ 3,
    pageTables.tableAt vm'.pmm.mem K.c d v = pageTables.tableAt vm.pmm.mem K.c d v
  spent : Pmm.Spent vm.pmm n vm'.pmm
  root : vm'.vmmRoot = vm.vmmRoot

def Stopped (K : Copy) (vm : Vm) (out : Finset Block) (total : ℕ) (err : String × Vm) : Prop :=
  ∃ k n L' out', k ≤ userPages ∧ n < total ∧ out ⊆ out' ∧ K.At k err.2 L' out' ∧
    Pmm.Spent vm.pmm n err.2.pmm ∧ err.2.vmmRoot = vm.vmmRoot ∧ err.2.pmm.allocOrder 0 = none

def cost (K : Copy) (l d q : ℕ) : ℕ :=
  if K.c = K.r then 0 else pageTables.tablesBelow K.walk l d q

/-- The destination has no tables of the next depth on these pages, unless it is the source. -/
def Vacant (K : Copy) (vm : Vm) (d k k' : ℕ) : Prop :=
  K.c = K.r ∨ ∀ v, k ≤ v → v < k' → pageTables.tableAt vm.pmm.mem K.c (d + 1) v = none

variable {K : Copy} {vm vm' vm'' : Vm} {L : FreeLists} {out : Finset Block}
  {a b d i j k l m n q t t' v : ℕ} {err : String × Vm}

lemma To.refl (h : K.At k vm L out) (a : ℕ) : K.To vm out k a 0 vm :=
  ⟨⟨L, out, Finset.Subset.refl out, h⟩, fun _ _ _ _ _ ht => ht, fun _ _ _ _ _ => rfl, Pmm.Spent.refl vm.pmm, rfl⟩

lemma To.trans (h : K.To vm out k a n vm') (h' : ∀ L' out', K.At k vm' L' out' → K.To vm' out' j b m vm'') (hab : a ≤ b) :
    K.To vm out j b (n + m) vm'' := by
  obtain ⟨L', out', hsub, hat⟩ := h.now
  have h₂ := h' L' out' hat
  obtain ⟨L'', out'', hsub', hat'⟩ := h₂.now
  refine ⟨⟨L'', out'', hsub.trans hsub', hat'⟩, ?_, ?_, h.spent.trans h₂.spent, h₂.root.trans h.root⟩
  · intro d hd v hv t ht
    exact h₂.grown d hd v hv t (h.grown d hd v hv t ht)
  · intro v hbv hv d hd
    exact (h₂.ahead v hbv hv d hd).trans (h.ahead v (hab.trans hbv) hv d hd)

lemma Stopped.mono (h : K.Stopped vm out n err) (hle : n ≤ m) : K.Stopped vm out m err := by
  obtain ⟨k, j, L', out', hk, hj, hrest⟩ := h
  exact ⟨k, j, L', out', hk, hj.trans_le hle, hrest⟩

lemma Stopped.trans (h : K.To vm out k a n vm') (h' : ∀ L' out', K.At k vm' L' out' → K.Stopped vm' out' m err) :
    K.Stopped vm out (n + m) err := by
  obtain ⟨L', out', hsub, hat⟩ := h.now
  obtain ⟨k₂, j, L₂, out₂, hk, hj, hsub₂, hat₂, hspent, hroot, hnone⟩ := h' L' out' hat
  exact ⟨k₂, n + j, L₂, out₂, hk, Nat.add_lt_add_left hj n, hsub.trans hsub₂, hat₂,
    h.spent.trans hspent, hroot.trans h.root, hnone⟩

lemma outcome_trans {x : Except (String × Vm) (Vm × ℕ)} (h : K.To vm out k a n vm') (h' : ∀ L' out', K.At k vm' L' out' →
      Outcome (fun st => K.To vm' out' j b m st.1) (K.Stopped vm' out' m) x) (hab : a ≤ b) :
    Outcome (fun st => K.To vm out j b (n + m) st.1) (K.Stopped vm out (n + m)) x := by
  cases x with
  | ok st =>
    refine .ok (h.trans ?_ hab)
    intro L' out' hat
    cases h' L' out' hat with
    | ok h => exact h
  | error err =>
    refine .error (Stopped.trans h ?_)
    intro L' out' hat
    cases h' L' out' hat with
    | error h => exact h

/-- What the loops below an entry of depth `d` do to the pages of the entry. -/
def Copies (K : Copy) (d : ℕ) (inner : ℕ → ℕ → Vm × ℕ → Except (String × Vm) (Vm × ℕ)) : Prop :=
  ∀ q vm m L out t t', pageTables.key d (q + 1) ≤ userPages → K.At (pageTables.key d q) vm L out →
    pageTables.tableAt vm.pmm.mem K.r (d + 1) (pageTables.key d q) = some t →
    pageTables.tableAt vm.pmm.mem K.c (d + 1) (pageTables.key d q) = some t' →
    (d + 1 < 3 → K.Vacant vm (d + 1) (pageTables.key d q) (pageTables.key d (q + 1))) →
    Outcome
      (fun st => K.To vm out (pageTables.key d (q + 1)) (pageTables.key d (q + 1))
        (∑ i ∈ Finset.range 512, K.cost (2 - d) (d + 1) (q * 512 + i)) st.1)
      (K.Stopped vm out (∑ i ∈ Finset.range 512, K.cost (2 - d) (d + 1) (q * 512 + i)))
      (inner t t' (vm, m))

lemma copyL1_copies : K.Copies 2 copyL1 := by
  intro q vm m L out t t' hN hat ht ht' _
  have hcost : ∑ i ∈ Finset.range 512, K.cost (2 - 2) (2 + 1) (q * 512 + i) = 0 := by
    apply sum_eq_zero
    intro i _
    unfold cost
    split
    · rfl
    · rfl
  rw [hcost]
  rw [key_two, succ_mul] at hN
  rw [key_two] at hat ht ht'
  rw [key_two, succ_mul]
  refine .ok ?_
  apply foldl_range (fun i (st : Vm × ℕ) => K.To vm out (q * 512 + i) (q * 512 + i) 0 st.1)
  · rw [add_zero]
    exact To.refl hat _
  · intro i hi st hst
    have hv : q * 512 + i < userPages := (Nat.add_lt_add_left hi _).trans_le hN
    have hslot := slot_three_add q hi
    have hstem := stem_three_add q hi
    refine hst.trans (m := 0) ?_ (le_succ _)
    intro L' out' hat'
    have hsrc : pageTables.tableAt st.1.pmm.mem K.r 3 (q * 512 + i) = some t := by
      rw [hat'.source 3 le_rfl _ hv, ← hat.source 3 le_rfl _ hv, tableAt_stem (by decide) hstem]
      exact ht
    have hdst : pageTables.tableAt st.1.pmm.mem K.c 3 (q * 512 + i) = some t' := by
      apply hst.grown 3 le_rfl _ hv
      rw [tableAt_stem (by decide) hstem]
      exact ht'
    obtain ⟨h₁, hroot, hwalk⟩ := hat'.refines.copyEntry K.parent K.child hv (K.covers _ hv) hsrc hdst st.2
    rw [hslot] at h₁ hroot hwalk
    refine ⟨⟨L', out', Finset.Subset.refl out', ⟨h₁, ?_⟩⟩, ?_, ?_, ?_, hroot⟩
    · intro d hd v hv
      rw [hwalk K.r K.parent d hd v hv]
      exact hat'.source d hd v hv
    · intro d hd v hv t ht
      rw [hwalk K.c K.child d hd v hv]
      exact ht
    · intro v _ hv d hd
      exact hwalk K.c K.child d hd v hv
    · exact (Pmm.Spent.refl _).congr hat'.refines.tables.inv h₁.tables.inv

lemma cost_of_none (h : K.walk (d + 1) (pageTables.key d q) = none) : K.cost l d q = 0 := by
  unfold cost
  split
  · rfl
  · cases l with
    | zero => rfl
    | succ l =>
      unfold tablesBelow
      rw [h]
      rfl

lemma cost_of_some (h : K.walk (d + 1) (pageTables.key d q) ≠ none) : K.cost (l + 1) d q = (if K.c = K.r then 0 else 1) +
      ∑ i ∈ Finset.range 512, K.cost l (d + 1) (q * 512 + i) := by
  unfold cost
  by_cases hcr : K.c = K.r
  · simp [hcr]
  · simp only [if_neg hcr]
    rw [tablesBelow, if_neg]
    · rfl
    · rwa [Option.isNone_iff_eq_none]

lemma At.absent (h : K.At (pageTables.key d q) vm L out) (hd : d < 3) (hN : pageTables.key d (q + 1) ≤ userPages)
    (hnone : pageTables.tableAt vm.pmm.mem K.r (d + 1) (pageTables.key d q) = none) :
    K.At (pageTables.key d (q + 1)) vm L out := by
  have hab : ∀ v, pageTables.key d q ≤ v → v < pageTables.key d (q + 1) → present (K.σ.pte (K.r, v)) = false := by
    intro v h1 h2
    have hv : v < userPages := h2.trans_le hN
    have hstem : pageTables.stem (d + 1) v = pageTables.stem (d + 1) (pageTables.key d q) :=
      (stem_eq_of_mem h1 h2).trans (stem_key d q).symm
    have htab : pageTables.tableAt vm.pmm.mem K.r 3 v = none := by
      apply tableAt_none_of_le (d := d + 1) hd
      rw [tableAt_stem (succ_le_succ (le_of_lt hd)) hstem]
      exact hnone
    have hpte := h.refines.tables.pte K.r K.parent v hv
    rw [leaf_of_none htab, shareAll_pte_of (.inr h1)] at hpte
    rw [← hpte]
    rfl
  have hall := shareAll_of_absent (c := K.c)
    (le_of_lt (key_lt_key (R := pageTables) (d := d) (lt_succ_self q))) hab
  refine ⟨?_, h.source⟩
  rw [hall]
  exact h.refines

variable {inner : ℕ → ℕ → Vm × ℕ → Except (String × Vm) (Vm × ℕ)}

lemma copySlot_skip {st : Vm × ℕ}
    (h : childTable d (st.1.read t i) = none) : copySlot (decide (d ≠ 0)) inner t t' st i = .ok st := by
  unfold copySlot
  dsimp only
  rw [childTable_eq_none] at h
  rcases h with hp | hh
  · rw [if_pos ((and_present _).mpr hp)]
  · split
    · rfl
    · rw [if_pos]
      refine ⟨decide_eq_true hh.1, ?_⟩
      rw [ne_eq, and_huge, hh.2]
      simp

lemma copySlot_descend {st : Vm × ℕ}
    {t₁ : ℕ} (h : childTable d (st.1.read t i) = some t₁) : copySlot (decide (d ≠ 0)) inner t t' st i =
      match st.1.ensureTable t' i (st.1.read t i) with
      | .error err => .error err
      | .ok (next, vm) => inner t₁ next (vm, st.2) := by
  have hne : ¬ (childTable d (st.1.read t i) = none) := by
    rw [h]
    simp
  rw [childTable_eq_none, not_or] at hne
  unfold copySlot
  rw [if_neg, if_neg, (childTable_some h).2]
  · rfl
  · intro hc
    refine hne.2 ⟨of_decide_eq_true hc.1, ?_⟩
    rw [← Bool.not_eq_false, ← and_huge]
    exact hc.2
  · rw [and_present]
    exact hne.1

lemma At.newTable (hat : K.At (pageTables.key d q) vm L out) (hd : d < 3) (hcr : K.c ≠ K.r)
    (hN : pageTables.key d (q + 1) ≤ userPages) (ht' : pageTables.tableAt vm.pmm.mem K.c d (pageTables.key d q) = some t')
    (hvac : K.Vacant vm d (pageTables.key d q) (pageTables.key d (q + 1))) {e : ℕ} (he : childTable d e ≠ none) :
    ((∃ msg, vm.ensureTable t' (pageTables.slot d (pageTables.key d q)) e = .error (msg, vm)) ∧ vm.pmm.allocOrder 0 = none) ∨
      ∃ f vm', vm.ensureTable t' (pageTables.slot d (pageTables.key d q)) e = .ok (f, vm') ∧
        K.To vm out (pageTables.key d q) (pageTables.key d (q + 1)) 1 vm' ∧
        pageTables.tableAt vm'.pmm.mem K.c (d + 1) (pageTables.key d q) = some f ∧
        (d + 1 < 3 → K.Vacant vm' (d + 1) (pageTables.key d q) (pageTables.key d (q + 1))) := by
  have hk : pageTables.key d q < pageTables.key d (q + 1) := key_lt_key (lt_succ_self q)
  have hkN := hk.trans_le hN
  have hnone := hvac.resolve_left hcr
  rcases hat.refines.ensureTable_new K.child hkN hd ht' (hnone _ le_rfl hk) he with herr | hok
  · exact .inl herr
  · obtain ⟨f, vm', L', hrun, hnew⟩ := hok
    have hwalk := hnew.walk
    refine .inr ⟨f, vm', hrun, ⟨⟨L', _, subset_insert _ _, hnew.refines, ?_⟩, ?_, ?_, hnew.spent, hnew.root⟩, ?_, ?_⟩
    · intro d' hd' v hv
      rw [hwalk K.r K.parent d' hd' v hv, if_neg (fun h => hcr h.1.symm)]
      exact hat.source d' hd' v hv
    · intro d' hd' v hv t ht
      rw [hwalk K.c K.child d' hd' v hv]
      split
      next hc =>
        -- the walk that the new table extends had ended
        exfalso
        rw [hc.2.1, tableAt_stem (succ_le_succ (le_of_lt hd)) hc.2.2, hnone _ le_rfl hk] at ht
        cases ht
      · exact ht
    · intro v hav hv d' hd'
      rw [hwalk K.c K.child d' hd' v hv, if_neg]
      intro hc
      have hlt : v < pageTables.key d (q + 1) := by
        have hstem := hc.2.2
        rw [stem_key] at hstem
        exact lt_key_of_stem (hstem ▸ lt_succ_self _)
      omega
    · rw [hwalk K.c K.child (d + 1) hd _ hkN, if_pos ⟨rfl, rfl, rfl⟩]
    · intro hd2
      refine .inr ?_
      intro v h1 h2
      rw [hwalk K.c K.child (d + 1 + 1) hd2 v (h2.trans_le hN), if_neg (by omega)]
      exact tableAt_none_of_le (le_succ (d + 1)) (hnone v h1 h2)

lemma copySlot_outcome (hd : d < 3)
    (hinner : K.Copies d inner) (hN : pageTables.key d (q + 1) ≤ userPages) (hat : K.At (pageTables.key d q) vm L out)
    (ht : pageTables.tableAt vm.pmm.mem K.r d (pageTables.key d q) = some t)
    (ht' : pageTables.tableAt vm.pmm.mem K.c d (pageTables.key d q) = some t')
    (hvac : K.Vacant vm d (pageTables.key d q) (pageTables.key d (q + 1))) : Outcome
      (fun st => K.To vm out (pageTables.key d (q + 1)) (pageTables.key d (q + 1)) (K.cost (3 - d) d q) st.1)
      (K.Stopped vm out (K.cost (3 - d) d q))
      (copySlot (decide (d ≠ 0)) inner t t' (vm, m) (pageTables.slot d (pageTables.key d q))) := by
  have hk : pageTables.key d q < pageTables.key d (q + 1) := key_lt_key (lt_succ_self q)
  have hkN := hk.trans_le hN
  have hwalk : pageTables.tableAt vm.pmm.mem K.r (d + 1) (pageTables.key d q) =
      childTable d (vm.read t (pageTables.slot d (pageTables.key d q))) := by
    simp only [tableAt]
    rw [ht]
    rfl
  have hsrc := hat.source (d + 1) hd _ hkN
  cases hchild : childTable d (vm.read t (pageTables.slot d (pageTables.key d q))) with
  | none =>
    rw [copySlot_skip hchild]
    rw [hchild] at hwalk
    rw [cost_of_none (hsrc.symm.trans hwalk)]
    have hnext := hat.absent hd hN hwalk
    exact .ok ⟨⟨L, out, Finset.Subset.refl out, hnext⟩, fun _ _ _ _ _ h => h, fun _ _ _ _ _ => rfl, Pmm.Spent.refl vm.pmm, rfl⟩
  | some t₁ =>
    rw [copySlot_descend hchild]
    rw [hchild] at hwalk
    have hne : K.walk (d + 1) (pageTables.key d q) ≠ none := by
      rw [← hsrc, hwalk]
      simp
    have hlev : 3 - d = 2 - d + 1 := by omega
    rw [hlev, cost_of_some hne]
    by_cases hcr : K.c = K.r
    · rw [if_pos hcr, zero_add]
      have hwalk' := hwalk
      rw [← hcr] at hwalk'
      rw [ensureTable_existing ht' hwalk']
      exact hinner q vm m L out t₁ t₁ hN hat hwalk hwalk' (fun _ => .inl hcr)
    · rw [if_neg hcr]
      have he : childTable d (vm.read t (pageTables.slot d (pageTables.key d q))) ≠ none := by
        rw [hchild]
        simp
      rcases hat.newTable hd hcr hN ht' hvac he with herr | hok
      · obtain ⟨⟨msg, hrun⟩, hempty⟩ := herr
        rw [hrun]
        exact .error ⟨pageTables.key d q, 0, L, out, hkN.le, by omega, Finset.Subset.refl out, hat,
          Pmm.Spent.refl vm.pmm, rfl, hempty⟩
      · obtain ⟨f, vm', hrun, hto, hchild', hvac'⟩ := hok
        rw [hrun]
        apply outcome_trans hto _ le_rfl
        intro L' out' hat'
        have hsrc' := (hat'.source (d + 1) hd _ hkN).trans (hsrc.symm.trans hwalk)
        exact hinner q vm' m L' out' t₁ f hN hat' hsrc' hchild' hvac'

lemma copyTable_outcome (hd : d < 3)
    (hinner : K.Copies d inner) (hn : n ≤ 512) (hN : pageTables.key d (q * 512 + n) ≤ userPages)
    (hat : K.At (pageTables.key d (q * 512)) vm L out)
    (ht : pageTables.tableAt vm.pmm.mem K.r d (pageTables.key d (q * 512)) = some t)
    (ht' : pageTables.tableAt vm.pmm.mem K.c d (pageTables.key d (q * 512)) = some t')
    (hvac : K.Vacant vm d (pageTables.key d (q * 512)) (pageTables.key d (q * 512 + n))) : Outcome
      (fun st => K.To vm out (pageTables.key d (q * 512 + n)) (pageTables.key d (q * 512 + n))
        (∑ i ∈ Finset.range n, K.cost (3 - d) d (q * 512 + i)) st.1)
      (K.Stopped vm out (∑ i ∈ Finset.range n, K.cost (3 - d) d (q * 512 + i)))
      (copyTable n (decide (d ≠ 0)) inner t t' (vm, m)) := by
  have hmono : ∀ {x y : ℕ}, x ≤ y → pageTables.key d x ≤ pageTables.key d y := fun h => mul_le_mul_right _ h
  apply foldlM_except (fun i (st : Vm × ℕ) => K.To vm out (pageTables.key d (q * 512 + i))
    (pageTables.key d (q * 512 + i)) (∑ j ∈ Finset.range i, K.cost (3 - d) d (q * 512 + j)) st.1)
  · rw [add_zero]
    exact To.refl hat _
  · intro i hi st hst
    have hend : pageTables.key d (q * 512 + i + 1) ≤ pageTables.key d (q * 512 + n) :=
      hmono (succ_le_of_lt (Nat.add_lt_add_left hi _))
    have hv : pageTables.key d (q * 512 + i) < userPages := (key_lt_key (lt_succ_self _)).trans_le (hend.trans hN)
    have hslot : pageTables.slot d (pageTables.key d (q * 512 + i)) = i := slot_key_add hd.le q (hi.trans_le hn)
    have hstem : pageTables.stem d (pageTables.key d (q * 512 + i)) = pageTables.stem d (pageTables.key d (q * 512)) :=
      stem_key_add hd.le q (hi.trans_le hn)
    have hsrc : ∀ L' out', K.At (pageTables.key d (q * 512 + i)) st.1 L' out' →
        pageTables.tableAt st.1.pmm.mem K.r d (pageTables.key d (q * 512 + i)) = some t := by
      intro L' out' hat'
      rw [hat'.source d hd.le _ hv, ← hat.source d hd.le _ hv, tableAt_stem (hd.le.trans (le_succ 3)) hstem]
      exact ht
    have hdst : pageTables.tableAt st.1.pmm.mem K.c d (pageTables.key d (q * 512 + i)) = some t' := by
      apply hst.grown d hd.le _ hv
      rw [tableAt_stem (hd.le.trans (le_succ 3)) hstem]
      exact ht'
    have hvac' : K.Vacant st.1 d (pageTables.key d (q * 512 + i))
        (pageTables.key d (q * 512 + i + 1)) := by
      refine hvac.imp id ?_
      intro h v h1 h2
      rw [hst.ahead v h1 (h2.trans_le (hend.trans hN)) (d + 1) hd]
      exact h v ((hmono (le_add_right _ _)).trans h1) (h2.trans_le hend)
    have hturn := outcome_trans hst (fun L' out' hat' => copySlot_outcome (m := st.2) hd hinner
      (hend.trans hN) hat' (hsrc L' out' hat') hdst hvac') (hmono (le_succ _))
    rw [hslot] at hturn
    rw [← sum_range_succ (fun j => K.cost (3 - d) d (q * 512 + j)), add_assoc] at hturn
    apply hturn.imp (fun _ h => h)
    intro err h
    exact h.mono (sum_le_sum_of_subset (range_mono hi))

lemma copyTable_copies (hd : d + 1 < 3) (hinner : K.Copies (d + 1) inner) : K.Copies d (copyTable 512 true inner) := by
  intro q vm m L out t t' hN hat ht ht' hvac
  have hkey : ∀ x, pageTables.key d x = pageTables.key (d + 1) (x * 512) := fun x => (key_succ (lt_of_succ_lt hd) x).symm
  have hnext : pageTables.key d (q + 1) = pageTables.key (d + 1) (q * 512 + 512) := by
    rw [hkey, succ_mul]
  have hvac' := hvac hd
  rw [hnext] at hN hvac' ⊢
  rw [hkey] at hat ht ht' hvac'
  have hlev : 2 - d = 3 - (d + 1) := by omega
  have hskip : true = decide (d + 1 ≠ 0) := rfl
  rw [hlev, hskip]
  exact copyTable_outcome (q := q) (n := 512) hd hinner (le_refl 512) hN hat ht ht' hvac'

def total (K : Copy) : ℕ := ∑ i ∈ Finset.range 256, K.cost 3 0 i

lemma copyUserAddressSpace_outcome (hat : K.At 0 vm L out)
    (hvac : K.c = K.r ∨ ∀ v < userPages, pageTables.tableAt vm.pmm.mem K.c 1 v = none) :
    Outcome (fun st => K.To vm out userPages userPages K.total st.1) (K.Stopped vm out K.total)
      (vm.copyUserAddressSpace K.r K.c) := by
  have hL2 : K.Copies 1 copyL2 := by
    exact copyTable_copies (by decide) copyL1_copies
  have hL3 : K.Copies 0 copyL3 := by
    exact copyTable_copies (by decide) hL2
  have hat' : K.At (pageTables.key 0 (0 * 512)) vm L out := by
    rw [key_zero_first]
    exact hat
  have hrun := copyTable_outcome (m := 0) (by decide) hL3 (by decide) key_zero_half.le hat' rfl rfl ?_
  · rw [key_zero_half] at hrun
    have htotal : ∑ i ∈ Finset.range 256, K.cost (3 - 0) 0 (0 * 512 + i) = K.total := by
      apply sum_congr rfl
      intro i _
      rw [zero_mul, zero_add]
    rw [htotal] at hrun
    exact hrun
  · rw [key_zero_first, key_zero_half]
    exact hvac.imp id (fun h v _ hv => h v hv)

end Copy
end Vm
end NodeKernel
