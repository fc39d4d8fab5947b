import NodeKernel.Process.DemandPaging
import NodeKernel.Process.Signals

/-!
# Where mappings are placed

Without `MAP_FIXED` all processes draw from one counter, which goes up by the rounded length and a page more. Neither the
rounding nor the sum is checked.
-/
namespace NodeKernel

open Pager

def mmapBase : ℕ := 0x100000000000

structure Placement where
  pid : Pid
  addr : ℕ
  len : ℕ

/-- Calls without `MAP_FIXED` that succeed. In between the kernel does anything that leaves the counter alone. -/
inductive Placements (fs : RamFiles) : ℕ → List Placement → Prop
  | nil {next : ℕ} : Placements fs next []
  | call {p p' : Pager} {pid : Pid} {fdPath : ℤ → Option String} {rlimitAs addr len prot flags vaddr : ℕ} {fd : ℤ}
      {offset : ℕ} {l : List Placement} (hflags : flags &&& Pager.mapFixed = 0)
      (hcall : p.sysMmap fs fdPath rlimitAs pid addr len prot flags fd offset = (.ok vaddr, p'))
      (hrest : Placements fs p'.mmapNext l) : Placements fs p.mmapNext (⟨pid, vaddr, len⟩ :: l)

namespace Placement

def stop (r : Placement) : ℕ := r.addr + pagesLen r.len

/-- The ranges end in the user half, and those of one process do not overlap. -/
def Proper (l : List Placement) : Prop :=
  (∀ r ∈ l, r.stop ≤ userEnd) ∧ l.Pairwise (fun r s => r.pid = s.pid → r.stop ≤ s.addr ∨ s.stop ≤ r.addr)

def taken (l : List Placement) : ℕ := (l.map (fun r => pagesLen r.len + pageSize)).sum

variable {fs : RamFiles} {next : ℕ} {l : List Placement}

lemma next_of_fits {p p' : Pager} {pid : Pid} {fdPath : ℤ → Option String} {rlimitAs addr len prot flags vaddr : ℕ} {fd : ℤ}
    {offset : ℕ} (hflags : flags &&& Pager.mapFixed = 0)
    (hcall : p.sysMmap fs fdPath rlimitAs pid addr len prot flags fd offset = (.ok vaddr, p')) :
    vaddr = p.mmapNext ∧
      (p.mmapNext + pagesLen len ≤ userEnd → p'.mmapNext = p.mmapNext + (pagesLen len + pageSize)) := by
  have hfree : ¬ (flags &&& mapFixed ≠ 0 ∧ addr ≠ 0) := fun h => h.1 hflags
  obtain ⟨-, -, hm⟩ := sysMmap_ok hcall
  refine ⟨hm.address.trans (if_neg hfree), ?_⟩
  intro hfits
  rw [hm.next, advance, if_neg hfree]
  unfold pagesLen userEnd pageSize at hfits
  unfold lenAligned pagesLen pageSize
  dsimp only
  omega

lemma fits_iff (h : Placements fs next l) (hnext : next ≤ userEnd + pageSize) :
    (∀ r ∈ l, r.stop ≤ userEnd) ↔ next + taken l ≤ userEnd + pageSize := by
  induction h with
  | nil => simpa [taken] using hnext
  | @call p p' pid _ _ _ len _ _ vaddr _ _ l hflags hcall hrest ih =>
    obtain ⟨rfl, hstep⟩ := next_of_fits hflags hcall
    have htaken : taken (⟨pid, p.mmapNext, len⟩ :: l) = pagesLen len + pageSize + taken l := List.sum_cons
    rw [List.forall_mem_cons, htaken]
    change p.mmapNext + pagesLen len ≤ userEnd ∧ _ ↔ _
    by_cases hfits : p.mmapNext + pagesLen len ≤ userEnd
    · have hp := hstep hfits
      rw [ih (by omega), hp]
      omega
    · omega

lemma ordered (h : Placements fs next l) (hsum : next + taken l ≤ userEnd + pageSize) :
    (∀ r ∈ l, next ≤ r.addr) ∧ l.Pairwise (fun r s => r.stop ≤ s.addr) := by
  induction h with
  | nil => exact ⟨nofun, .nil⟩
  | @call p p' pid _ _ _ len _ _ vaddr _ _ l hflags hcall hrest ih =>
    obtain ⟨rfl, hstep⟩ := next_of_fits hflags hcall
    have htaken : taken (⟨pid, p.mmapNext, len⟩ :: l) = pagesLen len + pageSize + taken l := List.sum_cons
    have hp := hstep (by omega)
    obtain ⟨hlow, hpair⟩ := ih (by omega)
    refine ⟨List.forall_mem_cons.mpr ⟨le_rfl, fun r hr => ?_⟩, hpair.cons fun r hr => ?_⟩
    · have := hlow r hr
      omega
    · have := hlow r hr
      change p.mmapNext + pagesLen len ≤ r.addr
      omega

/-- The ranges are as they should be if and only if the counter stays in the user half. -/
theorem proper_iff (h : Placements fs mmapBase l) : Proper l ↔ mmapBase + taken l ≤ userEnd + pageSize := by
  have hiff := fits_iff h (by decide)
  constructor
  · intro hp
    exact hiff.mp hp.1
  · intro hsum
    exact ⟨hiff.mpr hsum, (ordered h hsum).2.imp fun hrs _ => .inl hrs⟩

lemma sample_call {len : ℕ} (hlen : len ≠ 0) (hmax : len < 2 ^ 64) :
    Placements Pager.noFiles mmapBase [⟨1, mmapBase, len⟩] := by
  have hok : (sample.sysMmap noFiles (fun _ => none) (2 ^ 64 - 1) 1 0 len 3 0x22 (-1) 0).1 = .ok mmapBase := by
    rw [sysMmap, if_neg hlen, if_neg (by omega)]
    rfl
  exact .call (by decide) (Prod.ext hok rfl) .nil

theorem proper_one_page : Proper [⟨1, mmapBase, 1⟩] :=
  (proper_iff (sample_call (by decide) (by decide))).mpr (by decide)

/-- The rounded length wraps to zero. -/
theorem last_length_is_not_checked :
    Placements Pager.noFiles mmapBase [⟨1, mmapBase, 2 ^ 64 - 1⟩] ∧ ¬ Proper [⟨1, mmapBase, 2 ^ 64 - 1⟩] := by
  refine ⟨sample_call (by decide) (by decide), ?_⟩
  intro h
  exact absurd (h.1 _ (List.mem_singleton_self _)) (by decide)

end Placement
end NodeKernel
