import NodeKernel.Memory.Mapper
import NodeKernel.Memory.VmmWalks
import NodeKernel.Process.Kernel

/-!
# What a fork does to memory

The outcomes of `alloc_user_cr3` and of the copy that follows it. How many frames a fork
takes is known beforehand, and the allocator decides whether all of it is done.
-/
namespace NodeKernel
open Blocks Loops Finset Option
namespace Vm

variable {vm vm' : Vm} {M : PageMapper} {L : FreeLists} {out : Finset Block} {P roots : Set ℕ}
  {E : Finset Entry} {S : Finset ℕ} {σ : Space} {c n r : ℕ}

/-- The frames that a fork of `r` takes if none is refused: a root, the vDSO page with its
tables, and a table for each one of the parent. -/
def forkNeed (vm : Vm) (r : ℕ) : ℕ :=
  2 + missingTables vm.pmm.mem vm.vmmRoot vdsoPage +
    (userTables vm.pmm.mem r +
      if r = vm.vmmRoot then missingTables vm.pmm.mem vm.vmmRoot vdsoPage else 0)

/-- `c` is a new root without user pages; `n` tables have been made for the vDSO. -/
structure NewRoot (vm : Vm) (out : Finset Block) (P roots : Set ℕ) (E : Finset Entry)
    (S : Finset ℕ) (σ : Space) (c n : ℕ) (vm' : Vm) (L' : FreeLists) (out' : Finset Block)
    (σ' : Space) : Prop where
  refines : vm'.Refines L' out' P (insert c roots) (Space.withRoot E c userPages) S σ'
  grows : Space.Grows (σ.clearRoot c) (Space.withRoot E c userPages) (vm.vmmRoot, vdsoPage) σ'
  served : vm.pmm.allocOrder 0 ≠ none
  fresh : c ∉ roots
  nonzero : c ≠ 0
  new : blockAt c 0 ∉ out
  sub : insert (blockAt c 0) out ⊆ out'
  root : vm'.vmmRoot = vm.vmmRoot
  empty : ∀ v < userPages, pageTables.tableAt vm'.pmm.mem c 1 v = none
  spent : Pmm.Spent vm.pmm (2 + n) vm'.pmm
  count : ∀ r ∈ roots, userTables vm'.pmm.mem r =
    userTables vm.pmm.mem r + if r = vm.vmmRoot then n else 0
  le : n ≤ missingTables vm.pmm.mem vm.vmmRoot vdsoPage
  stuck : n < missingTables vm.pmm.mem vm.vmmRoot vdsoPage → vm'.pmm.allocOrder 0 = none

lemma vdsoPage_lt : vdsoPage < userPages := by decide

lemma mapFlags_vdso : MapFlags (ptePresent ||| flagUser) := .of_lowFlags (by decide) (by decide) (by decide)

lemma missingTables_congr {mem mem' : PhysMem} {root page : ℕ} (h : ∀ d ≤ 3,
    pageTables.tableAt mem' root d page = pageTables.tableAt mem root d page) :
    missingTables mem' root page = missingTables mem root page := by
  unfold missingTables
  congr 1
  apply filter_congr
  intro d hd
  rw [h (d + 1) (mem_range.mp hd)]

lemma NewFrame.insertRoot {L' : FreeLists} (hn : NewFrame vm out P roots E S σ c vm' L')
    (hempty : ∀ i < 256, vm'.pmm.mem c i = 0) :
    vm'.Refines L' (insert (blockAt c 0) out) P (insert c roots) (Space.withRoot E c userPages) S (σ.clearRoot c) :=
  hn.refines.insertRoot (mem_insert_self _ _) hn.fresh.noTable hn.fresh.unmapped hn.unspared
    hempty (fun _ hx => Space.mem_withRoot.mp hx)

/-- A frame has been taken for the vDSO page, and `n` more for its tables. -/
structure VdsoMapped (vm : Vm) (out : Finset Block) (P roots : Set ℕ) (E : Finset Entry)
    (S : Finset ℕ) (σ : Space) (n : ℕ) (vm' : Vm) (L' : FreeLists) (out' : Finset Block)
    (σ' : Space) : Prop where
  refines : vm'.Refines L' out' P roots E S σ'
  grows : Space.Grows σ E (vm.vmmRoot, vdsoPage) σ'
  sub : out ⊆ out'
  root : vm'.vmmRoot = vm.vmmRoot
  spent : Pmm.Spent vm.pmm (1 + n) vm'.pmm
  count : ∀ r ∈ roots, userTables vm'.pmm.mem r =
    userTables vm.pmm.mem r + if r = vm.vmmRoot then n else 0
  le : n ≤ missingTables vm.pmm.mem vm.vmmRoot vdsoPage
  stuck : n < missingTables vm.pmm.mem vm.vmmRoot vdsoPage → vm'.pmm.allocOrder 0 = none
  others : ∀ r ∈ roots, r ≠ vm.vmmRoot → ∀ d ≤ 3, ∀ v < userPages,
    pageTables.tableAt vm'.pmm.mem r d v = pageTables.tableAt vm.pmm.mem r d v

lemma Refines.mapVdso {vm₁ : Vm} {g : ℕ} (h : vm.Refines L out P roots E S σ) (hM : M.Lawful)
    (hroot : vm.vmmRoot ∈ roots) (ha : vm.allocFrame = some (g, vm₁)) : ∃ n L' out' σ', VdsoMapped vm out P roots E S σ n
      (((vm₁.withMem (vm₁.pmm.mem.zeroPage g)).write g 0 vdsoWord).mapPage M vdsoPage g
        (ptePresent ||| flagUser)).2 L' out' σ' := by
  obtain ⟨L₂, hn⟩ := h.allocFill ha ((vm₁.pmm.mem.zeroPage g).write g 0 vdsoWord) (by
    intro a hne i
    rw [PhysMem.write_ne _ (.inl hne)]
    exact if_neg hne)
  have hfill : (vm₁.withMem (vm₁.pmm.mem.zeroPage g)).write g 0 vdsoWord =
      vm₁.withMem ((vm₁.pmm.mem.zeroPage g).write g 0 vdsoWord) := rfl
  rw [hfill]
  generalize vm₁.withMem ((vm₁.pmm.mem.zeroPage g).write g 0 vdsoWord) = vm₂ at hn
  have hroot' := hn.root.symm ▸ hroot
  obtain ⟨L', out', hm⟩ := hn.refines.mapPage hM hroot' vdsoPage_lt (mem_insert_self _ _)
    hn.fresh.noTable hn.fresh.unmapped hn.unspared mapFlags_vdso
  obtain ⟨n, hle, hspent, hcount, hshort, _⟩ := hm.taken
  have hwalk := fun d hd => hn.walks _ hroot d hd _ vdsoPage_lt
  have hothers : ∀ r ∈ roots, r ≠ vm.vmmRoot → ∀ d ≤ 3, ∀ v < userPages,
      pageTables.tableAt (vm₂.mapPage M vdsoPage g (ptePresent ||| flagUser)).2.pmm.mem r d v =
        pageTables.tableAt vm.pmm.mem r d v :=
    fun r hr hne d hd v hv =>
      (hm.others r hr (hn.root.symm ▸ hne) d hd v hv).trans (hn.walks r hr d hd v hv)
  have hgrows : Space.Grows σ E (vm₂.vmmRoot, vdsoPage)
      (if (vm₂.mapPage M vdsoPage g (ptePresent ||| flagUser)).1 then
        (σ.setData g (vm₂.pmm.mem g)).setPte (vm₂.vmmRoot, vdsoPage) (g ||| (ptePresent ||| flagUser))
      else σ) := by
    split
    next hok =>
      have hframe := Pte.frame_or_flags hn.fresh.isFrame mapFlags_vdso.noAddr
      refine .page (hm.unused hok) hn.fresh.unmapped hframe ?_ ?_
      · exact (Pte.testBit_or_flags hn.fresh.isFrame (by decide)).trans (by decide)
      · exact (Pte.testBit_or_flags hn.fresh.isFrame (by decide)).trans (by decide)
    · exact .refl
  rw [hn.root] at hle hshort hcount hgrows
  rw [missingTables_congr hwalk] at hle hshort
  rw [userTables_congr (hn.walks _ hroot)] at hcount
  refine ⟨n, L', out', _, hm.refines, ?_, (subset_insert _ _).trans hm.sub,
    hm.root.trans hn.root, hn.spent.trans hspent, ?_, hle, fun hlt => (hshort hlt).2, hothers⟩
  · rw [hn.root]
    exact hgrows
  · intro r hr
    by_cases he : r = vm.vmmRoot
    · rw [if_pos he, he]
      exact hcount
    · rw [if_neg he, Nat.add_zero]
      exact userTables_congr (hothers r hr he)

/-- No root could be made, and no frame is left; one may have been lost. -/
structure NoRoot (vm : Vm) (out : Finset Block) (P roots : Set ℕ) (E : Finset Entry)
    (S : Finset ℕ) (σ : Space) (vm' : Vm) (L' : FreeLists) (out' : Finset Block) : Prop where
  refines : vm'.Refines L' out' P roots E S σ
  sub : out ⊆ out'
  root : vm'.vmmRoot = vm.vmmRoot
  stuck : vm'.pmm.allocOrder 0 = none
  few : ∀ m, 2 ≤ m → vm.pmm.serves m = false
  lost : vm.pmm.allocOrder 0 = none ∨ ∃ p, blockAt p 0 ∈ out' ∧ blockAt p 0 ∉ out

lemma Refines.allocUserCr3 (h : vm.Refines L out P roots E S σ) (hM : M.Lawful) (hroot : vm.vmmRoot ∈ roots) (cr3 : ℕ) :
    (∃ L' out', (vm.allocUserCr3 M cr3).1 = none ∧ NoRoot vm out P roots E S σ (vm.allocUserCr3 M cr3).2 L' out') ∨
    ∃ c n L' out' σ', (vm.allocUserCr3 M cr3).1 = some c ∧
      NewRoot vm out P roots E S σ c n (vm.allocUserCr3 M cr3).2 L' out' σ' := by
  unfold Vm.allocUserCr3
  cases ha : vm.allocFrame with
  | none =>
    have hnone := allocFrame_none.mp ha
    exact .inl ⟨L, out, rfl, h, Finset.Subset.refl out, rfl, hnone, fun m _ => h.tables.inv.serves_of_empty hnone, .inl hnone⟩
  | some q =>
    obtain ⟨c, vm₁⟩ := q
    dsimp only
    have hfill : (vm₁.withMem (vm₁.pmm.mem.zeroPage c)).withMem
        ((vm₁.withMem (vm₁.pmm.mem.zeroPage c)).pmm.mem.copyKernelHalf (cr3 &&& not64 0xFFF) c) =
        vm₁.withMem ((vm₁.pmm.mem.zeroPage c).copyKernelHalf (cr3 &&& not64 0xFFF) c) := rfl
    rw [hfill]
    obtain ⟨L₁, hn⟩ := h.allocFill ha
      ((vm₁.pmm.mem.zeroPage c).copyKernelHalf (cr3 &&& not64 0xFFF) c) (by
        intro a hne i
        exact (if_neg (fun hc => hne hc.1)).trans (if_neg hne))
    have hempty : ∀ i < 256, (vm₁.pmm.mem.zeroPage c).copyKernelHalf (cr3 &&& not64 0xFFF) c c i = 0 := by
      intro i hi
      exact (if_neg (fun hc => Nat.not_le_of_lt hi hc.2.1)).trans (if_pos rfl)
    have h₂ := hn.insertRoot hempty
    generalize hvm₂ : vm₁.withMem ((vm₁.pmm.mem.zeroPage c).copyKernelHalf (cr3 &&& not64 0xFFF) c) = vm₂ at hn h₂
    have hempty₂ : ∀ i < 256, vm₂.pmm.mem c i = 0 := by
      rw [← hvm₂]
      exact hempty
    cases hb : vm₂.allocFrame with
    | none =>
      have hnone := allocFrame_none.mp hb
      exact .inl ⟨L₁, _, rfl, hn.refines, subset_insert _ _, hn.root, hnone,
        fun m hm => hn.spent.not_serves hn.refines.tables.inv hnone (Nat.le_of_succ_le hm),
        .inr ⟨c, mem_insert_self _ _, hn.fresh.new⟩⟩
    | some q =>
      obtain ⟨g, vm₃⟩ := q
      have hroot₂ : vm₂.vmmRoot ∈ insert c roots := by
        rw [hn.root]
        exact Set.mem_insert_of_mem c hroot
      obtain ⟨n, L', out', σ', hv⟩ := h₂.mapVdso hM hroot₂ hb
      have hfresh : c ∉ roots := root_notMem
        (fun hc => hn.fresh.noTable hc)
      have hne : c ≠ vm.vmmRoot := fun he => hfresh (he ▸ hroot)
      have hmiss : missingTables vm₂.pmm.mem vm.vmmRoot vdsoPage = missingTables vm.pmm.mem vm.vmmRoot vdsoPage :=
        missingTables_congr (fun d hd => hn.walks _ hroot d hd _ vdsoPage_lt)
      have hgrows := hv.grows
      have hcount := hv.count
      have hle := hv.le
      have hstuck := hv.stuck
      have hothers := hv.others
      rw [hn.root] at hgrows hcount hle hstuck hothers
      rw [hmiss] at hle hstuck
      have hserved : vm.pmm.allocOrder 0 ≠ none := by
        rw [(allocFrame_some ha).1]
        exact some_ne_none _
      refine .inr ⟨c, n, L', out', σ', rfl, hv.refines, hgrows, hserved, hfresh, hn.nonzero, hn.fresh.new,
        hv.sub, hv.root.trans hn.root, ?_, ?_, ?_, hle, hstuck⟩
      · intro v hvlt
        rw [hothers c (Set.mem_insert c roots) hne 1 (by decide) v hvlt]
        change pageTables.child 0 (vm₂.pmm.mem c (pageTables.slot 0 v)) = none
        rw [hempty₂ _ (slot_zero_lt hvlt)]
        exact childTable_zero 0
      · have hspent := hn.spent.trans hv.spent
        rw [← Nat.add_assoc] at hspent
        exact hspent
      · intro r hr
        rw [hcount r (Set.mem_insert_of_mem c hr), userTables_congr (hn.walks r hr)]

lemma Copy.total_of_eq {K : Copy} (h : K.c = K.r) : K.total = 0 := sum_eq_zero (fun _ _ => if_pos h)

lemma Copy.total_of_ne {K : Copy} {mem : PhysMem} (h : K.c ≠ K.r)
    (hwalk : K.walk = pageTables.tableAt mem K.r) : K.total = userTables mem K.r := by
  apply sum_congr rfl
  intro i _
  unfold Copy.cost
  rw [if_neg h, hwalk]

/-- The parent's pages have been shared with itself, for want of a root. -/
structure SharedAlone (vm : Vm) (out : Finset Block) (P roots : Set ℕ) (E : Finset Entry)
    (S : Finset ℕ) (σ : Space) (r : ℕ) (vm' : Vm) (L' : FreeLists) (out' : Finset Block) : Prop where
  refines : vm'.Refines L' out' P roots E S (σ.shareAll r r userPages)
  sub : out ⊆ out'
  root : vm'.vmmRoot = vm.vmmRoot
  stuck : vm'.pmm.serves 0 = false
  few : vm.pmm.serves (vm.forkNeed r) = false
  lost : vm.pmm.allocOrder 0 = none ∨ ∃ p, blockAt p 0 ∈ out' ∧ blockAt p 0 ∉ out

/-- The first `k` pages of the parent have been shared with the new root `c`, all of them if
the allocator could serve the fork so far. -/
structure SharedInto (vm : Vm) (out : Finset Block) (P roots : Set ℕ) (E : Finset Entry)
    (S : Finset ℕ) (σ : Space) (r c k : ℕ) (vm' : Vm) (L' : FreeLists) (out' : Finset Block)
    (σ' : Space) : Prop where
  refines : vm'.Refines L' out' P (insert c roots) (Space.withRoot E c userPages) S
    (σ'.shareAll r c k)
  grows : Space.Grows (σ.clearRoot c) (Space.withRoot E c userPages) (vm.vmmRoot, vdsoPage) σ'
  served : vm.pmm.allocOrder 0 ≠ none
  fresh : c ∉ roots
  nonzero : c ≠ 0
  new : blockAt c 0 ∉ out
  sub : insert (blockAt c 0) out ⊆ out'
  root : vm'.vmmRoot = vm.vmmRoot
  pages : k ≤ userPages
  all : (k = userPages ∧ Pmm.Spent vm.pmm (vm.forkNeed r) vm'.pmm) ∨
    (vm.pmm.serves (vm.forkNeed r) = false ∧ vm'.pmm.serves 0 = false)

section ForkSpace
variable (h : vm.Refines L out P roots E S σ) (hr : r ∈ roots) (hE : ∀ v < userPages, (r, v) ∈ E)
include h hr hE

lemma Refines.copy_self (hstuck : vm.pmm.allocOrder 0 = none) :
    ∃ vm' n L' out', vm.copyUserAddressSpace r r = .ok (vm', n) ∧ out ⊆ out' ∧
      vm'.Refines L' out' P roots E S (σ.shareAll r r userPages) ∧ vm'.vmmRoot = vm.vmmRoot ∧ vm'.pmm.serves 0 = false := by
  let K : Copy := ⟨P, roots, E, S, σ, r, r, pageTables.tableAt vm.pmm.mem r, hr, hr, hE⟩
  have hrun := Copy.copyUserAddressSpace_outcome (K := K) ⟨h, fun _ _ _ _ => rfl⟩ (.inl rfl)
  rw [Copy.total_of_eq (K := K) rfl] at hrun
  cases hc : vm.copyUserAddressSpace r r with
  | error err =>
    rw [hc] at hrun
    cases hrun with
    | error herr =>
      obtain ⟨_, n, _, _, _, hn, _⟩ := herr
      exact absurd hn (Nat.not_lt_zero n)
  | ok st =>
    rw [hc] at hrun
    cases hrun with
    | ok hto =>
      obtain ⟨L', out', hsub, hat⟩ := hto.now
      refine ⟨st.1, st.2, L', out', rfl, hsub, hat.refines, hto.root, ?_⟩
      rw [← hto.spent 0]
      exact h.tables.inv.serves_of_empty hstuck

omit h in
lemma NewRoot.copy {vm₁ : Vm} {L₁ : FreeLists} {out₁ : Finset Block} {σ₁ : Space}
    (hn : NewRoot vm out P roots E S σ c n vm₁ L₁ out₁ σ₁) : ∃ vm' k L' out', (match vm₁.copyUserAddressSpace r c with
        | .ok (vm, _) => (c, vm)
        | .error (_, vm) => (c, vm)) = (c, vm') ∧
      SharedInto vm out P roots E S σ r c k vm' L' out' σ₁ := by
  have hcr : c ≠ r := fun he => hn.fresh (he ▸ hr)
  let K : Copy := ⟨P, insert c roots, Space.withRoot E c userPages, S, σ₁, r, c,
    pageTables.tableAt vm₁.pmm.mem r, Set.mem_insert_of_mem c hr, Set.mem_insert c roots,
    fun v hv => Space.subset_withRoot (hE v hv)⟩
  have hrun := Copy.copyUserAddressSpace_outcome (K := K) ⟨hn.refines, fun _ _ _ _ => rfl⟩
    (.inr hn.empty)
  have htotal : K.total = userTables vm.pmm.mem r + if r = vm.vmmRoot then n else 0 :=
    (Copy.total_of_ne hcr rfl).trans (hn.count r hr)
  rw [htotal] at hrun
  -- once the tables of the vDSO have used up the frames nothing else can be served
  have hempty : n < missingTables vm.pmm.mem vm.vmmRoot vdsoPage →
      vm.pmm.serves (vm.forkNeed r) = false ∧ ∀ m, vm₁.pmm.serves m = false := by
    intro hlt
    refine ⟨hn.spent.not_serves hn.refines.tables.inv (hn.stuck hlt) ?_, fun m =>
      hn.refines.tables.inv.serves_of_empty (hn.stuck hlt)⟩
    exact (Nat.add_le_add_left hlt.le 2).trans (Nat.le_add_right _ _)
  cases hc : vm₁.copyUserAddressSpace r c with
  | ok st =>
    rw [hc] at hrun
    cases hrun with
    | ok hto =>
      obtain ⟨L', out', hsub, hat⟩ := hto.now
      refine ⟨st.1, userPages, L', out', rfl, hat.refines, hn.grows, hn.served, hn.fresh, hn.nonzero, hn.new,
        hn.sub.trans hsub, hto.root.trans hn.root, Nat.le_refl _, ?_⟩
      rcases Nat.lt_or_eq_of_le hn.le with hlt | heq
      · refine .inr ⟨(hempty hlt).1, ?_⟩
        rw [← hto.spent 0]
        exact (hempty hlt).2 _
      · have hspent := hn.spent.trans hto.spent
        rw [heq] at hspent
        exact .inl ⟨rfl, hspent⟩
  | error err =>
    rw [hc] at hrun
    cases hrun with
    | error herr =>
      obtain ⟨k, m, L', out', hk, hm, hsub, hat, hspent, hroot, hnone⟩ := herr
      refine ⟨err.2, k, L', out', rfl, hat.refines, hn.grows, hn.served, hn.fresh, hn.nonzero, hn.new,
        hn.sub.trans hsub, hroot.trans hn.root, hk, .inr ⟨?_, ?_⟩⟩
      · apply (hn.spent.trans hspent).not_serves hat.refines.tables.inv hnone
        have hcount : (if r = vm.vmmRoot then n else 0) ≤
            if r = vm.vmmRoot then missingTables vm.pmm.mem vm.vmmRoot vdsoPage else 0 := by
          split
          · exact hn.le
          · exact Nat.le_refl 0
        exact Nat.add_le_add (Nat.add_le_add_left hn.le 2)
          (hm.le.trans (Nat.add_le_add_left hcount _))
      · exact hat.refines.tables.inv.serves_of_empty hnone

lemma Refines.forkSpace (hM : M.Lawful) (hroot : vm.vmmRoot ∈ roots) :
    (∃ vm' L' out', vm.forkSpace M r r = (r, vm') ∧ SharedAlone vm out P roots E S σ r vm' L' out') ∨
    ∃ c k vm' L' out' σ', vm.forkSpace M r r = (c, vm') ∧ SharedInto vm out P roots E S σ r c k vm' L' out' σ' := by
  unfold Vm.forkSpace
  rcases h.allocUserCr3 hM hroot r with hno | hnew
  · obtain ⟨L₁, out₁, hnone, hno⟩ := hno
    obtain ⟨vm', m, L', out', hrun, hsub, href, hvr, hstuck⟩ := hno.refines.copy_self hr hE hno.stuck
    refine .inl ⟨vm', L', out', ?_, href, hno.sub.trans hsub, hvr.trans hno.root, hstuck, hno.few _ ?_, ?_⟩
    · dsimp only
      rw [hnone, getD_none, (h.isFrame_root hr).and_not_low, hrun]
    · unfold forkNeed
      rw [Nat.add_assoc]
      exact Nat.le_add_right _ _
    · refine hno.lost.imp id ?_
      intro hp
      obtain ⟨p, hin, hnin⟩ := hp
      exact ⟨p, hsub hin, hnin⟩
  · obtain ⟨c, n, L₁, out₁, σ', hsome, hnew⟩ := hnew
    obtain ⟨vm', k, L', out', hrun, hinto⟩ := hnew.copy hr hE
    refine .inr ⟨c, k, vm', L', out', σ', ?_, hinto⟩
    dsimp only
    rw [hsome, getD_some]
    exact hrun

end ForkSpace

lemma Refines.cloneStack (h : vm.Refines L out P roots E S σ) (words : ℕ → ℕ) :
    (vm.cloneStack words = none ∧ vm.pmm.serves 0 = false) ∨
    ∃ stack vm' L' out', vm.cloneStack words = some (stack, vm') ∧ vm.pmm.serves 0 = true ∧
      vm'.Refines L' out' P roots E S σ ∧ out ⊆ out' ∧ vm'.vmmRoot = vm.vmmRoot := by
  unfold Vm.cloneStack Pmm.serves
  cases hs : vm.pmm.allocOrder 2 with
  | none => exact .inl ⟨rfl, rfl⟩
  | some q =>
    obtain ⟨p, s'⟩ := q
    have hlt : 3 * pageSize < 2 ^ (pageShift + 2) := by decide
    have hin : p + 3 * pageSize ∈ blockAt p 2 := ⟨Nat.le_add_right _ _, Nat.add_lt_add_left hlt p⟩
    obtain ⟨L', href, _⟩ := h.allocBlock hs (s'.mem.putFrame (p + 3 * pageSize) words) (by
      intro a hne i
      apply if_neg
      intro hc
      exact hne (hc.1 ▸ hin))
    exact .inr ⟨p, _, L', _, rfl, rfl, href, subset_insert _ _, rfl⟩

end Vm
end NodeKernel
