import NodeKernel.Memory.VmmFlags
import NodeKernel.Process.FirstProcess

/-!
# Isolation

Processes that share frames after a fork do not see each other's writes, over runs of
forks, write faults, exits, `mprotect` and stores.
-/
namespace NodeKernel
open Blocks List Option Pte PageMapper Space
namespace Kernel

/-- No frame that two address spaces map may be written through one of them, and no store in
one of them changes what the other reads. -/
structure Isolated (k : Kernel) : Prop where
  readOnly : ∀ r ∈ k.sched.liveRoots, ∀ r' ∈ k.sched.liveRoots, r ≠ r' →
    ∀ v < userPages, ∀ v' < userPages, ∀ f, k.vm.space.Maps (r, v) f → k.vm.space.Maps (r', v') f →
      Pte.writable (k.vm.space.pte (r, v)) = false
  stores : ∀ r ∈ k.sched.liveRoots, ∀ r' ∈ k.sched.liveRoots, r ≠ r' →
    ∀ addr w addr', addr >>> 12 < userPages → addr' >>> 12 < userPages →
      (k.userStore r addr w).userLoad r' addr' = k.userLoad r' addr'

/-- The call changes user addresses only, and gives write permission only to user pages whose
frames no other entry maps. -/
def MprotectAlone (k : Kernel) (r addr len prot : ℕ) : Prop :=
  0 < len → addr + len ≤ userPages * pageSize ∧
    k.vm.space.Protectable k.liveEntries r (addr / pageSize) (pagesIn addr len)
      (decide (prot &&& 2 ≠ 0))

/-- The step keeps processes apart. A fork overflows no count, a fault finds the frame it
needs, an exit gives up an address space of its own, `mprotect` does not make shared frames
writable. -/
def KeepsApart (k : Kernel) : Event → Prop
  | .fork pid _ => ∀ r, k.sched.liveRoot pid = some r → k.vm.space.Room r userPages
  | .cowFault pid addr => ∀ r, k.sched.liveRoot pid = some r → k.FaultServed r addr
  | .exit pid _ => ∀ r, k.sched.liveRoot pid = some r → k.ExitAlone pid r
  | .mprotect pid addr len prot => ∀ r, k.sched.liveRoot pid = some r →
      k.MprotectAlone r addr len prot
  | .store .. => True

variable {k k₀ : Kernel} {M : PageMapper} {L : FreeLists} {out : Finset Block} {P roots : Set ℕ}
  {S : Finset ℕ} {pid : Pid} {r addr : ℕ} {tr : List (Kernel × Event)}

lemma userStore_eq (w : ℕ) : k.userStore r addr w =
    if Pte.present (k.vm.space.pte (r, addr >>> 12)) = true ∧
        Pte.writable (k.vm.space.pte (r, addr >>> 12)) = true then
      { k with vm :=
          k.vm.write (frame (k.vm.space.pte (r, addr >>> 12))) (addr % pageSize / 8) w }
    else k := rfl

lemma userStore_refines (href : k.vm.Refines L out P roots k.liveEntries S k.vm.space)
    (hE : (r, addr >>> 12) ∈ k.liveEntries) (w : ℕ) :
    (k.userStore r addr w).sched = k.sched ∧ (k.userStore r addr w).vm.vmmRoot = k.vm.vmmRoot ∧
      (k.userStore r addr w).vm.Refines L out P roots k.liveEntries S
        (k.vm.space.store (r, addr >>> 12) (addr % pageSize / 8) w) := by
  rw [userStore_eq]
  unfold store
  by_cases hw : present (k.vm.space.pte (r, addr >>> 12)) = true ∧ writable (k.vm.space.pte (r, addr >>> 12)) = true
  · rw [if_pos hw, if_pos hw]
    have hm : k.vm.space.Maps (r, addr >>> 12) (frame (k.vm.space.pte (r, addr >>> 12))) := ⟨hw.1, rfl⟩
    exact ⟨rfl, rfl, href.writeWord (href.held _ hE _ hm) (href.apart _ hE _ hm) _ w⟩
  · rw [if_neg hw, if_neg hw]
    exact ⟨rfl, rfl, href⟩

lemma Safe.userStore (h : k.Safe S) (hE : (r, addr >>> 12) ∈ k.liveEntries) (w : ℕ) : (k.userStore r addr w).Safe S := by
  obtain ⟨⟨⟨L, out, P, roots, hroot, href⟩, htidy, _⟩, hcoh, hover⟩ := h
  obtain ⟨hsched, hvr, href'⟩ := userStore_refines href hE w
  have hlive : (k.userStore r addr w).liveEntries = k.liveEntries := liveEntries_of_roots (by rw [hsched])
  rw [← hlive] at href' hcoh hover
  refine Safe.of_refines href' (hsched.symm ▸ htidy) (hvr.symm ▸ hroot) (hcoh.congr ?_)
    ((hover.booked False.elim).congr store_refs ?_).atLeast
  · exact fun x _ => congrFun store_pte x
  · intro f
    unfold refCount
    rw [store_pte]

lemma sysMprotect_sched {k' : Kernel} {len prot : ℕ} (h : k.sysMprotect r addr len prot = some k') : k'.sched = k.sched := by
  unfold sysMprotect at h
  split at h
  · rw [← Option.some.inj h]
  · obtain ⟨vm', _, rfl⟩ := map_eq_some_iff.mp h
    rfl

lemma Safe.mprotect {len prot : ℕ} (h : k.Safe S) (hr : k.sched.liveRoot pid = some r)
    (halone : k.MprotectAlone r addr len prot) : ∃ k', k.sysMprotect r addr len prot = some k' ∧ k'.Safe S := by
  unfold sysMprotect
  by_cases hlen : len = 0
  · rw [if_pos hlen]
    exact ⟨k, rfl, h⟩
  · rw [if_neg hlen]
    have hE : ∀ v < userPages, (r, v) ∈ k.liveEntries := fun v hv => h.wf.covers hr hv
    obtain ⟨⟨⟨L, out, P, roots, hroot, href⟩, htidy, _⟩, hcoh, hover⟩ := h
    have hrr : r ∈ roots := (href.entries _ (hE 0 userPages_pos)).1
    obtain ⟨hin, hprot⟩ := halone (Nat.pos_of_ne_zero hlen)
    obtain ⟨vm', hrun, href', hvr⟩ := href.updateUserPteFlags addr len
      (decide (prot &&& 2 ≠ 0)) (decide (prot &&& 4 ≠ 0)) hrr hE (Nat.pos_of_ne_zero hlen) hin (fun hb v h1 h2 hp => (hprot hb v h1 h2 hp).1)
    dsimp only
    rw [hrun]
    refine ⟨_, rfl, ?_⟩
    exact Safe.of_refines (k := { k with vm := vm' }) href' htidy (hvr.symm ▸ hroot)
      (hcoh.protect hprot) hover.protect

lemma Safe.isolated (h : k.Safe S) : k.Isolated := by
  have hE : ∀ {r v}, r ∈ k.sched.liveRoots → v < userPages → (r, v) ∈ k.liveEntries := fun hr hv => mem_liveEntries.mpr ⟨hr, hv⟩
  have hne : ∀ {r r' v v' : ℕ}, r ≠ r' → (r, v) ≠ (r', v') := fun hrr he => hrr (Prod.mk.inj he).1
  refine ⟨?_, ?_⟩
  · intro r hr r' hr' hrr v hv v' hv' f hm hm'
    exact (h.coherent _ (hE hr hv) _ (hE hr' hv') (hne hrr) f hm hm').1
  · intro r hr r' hr' hrr addr w addr' hv hv'
    obtain ⟨L, out, P, roots, _, href⟩ := h.wf.memory
    obtain ⟨_, _, href'⟩ := userStore_refines href (hE hr hv) w
    rw [userLoad_of_refines href (hE hr' hv'), userLoad_of_refines href' (hE hr' hv')]
    exact h.coherent.load_store (hE hr hv) (hE hr' hv') (hne hrr) _ w _

lemma Step.safe {k' : Kernel} {e : Event} (hM : M.Lawful) (h : k.Safe S)
    (hcond : k.KeepsApart e) (hstep : Step M k e k') : k'.Safe S := by
  cases hstep with
  | fork hr => exact (h.fork hM hr _ (hcond _ hr)).1
  | cowFault hr hv => exact (h.cowFault hr hv (hcond _ hr)).1
  | exit hr hrun =>
    obtain ⟨k₁, hrun', hsafe, _⟩ := h.exit hr (hcond _ hr) _
    obtain rfl := mem_unique hrun hrun'
    exact hsafe
  | mprotect hr hrun =>
    obtain ⟨k₁, hrun', hsafe⟩ := h.mprotect hr (hcond _ hr)
    obtain rfl := mem_unique hrun hrun'
    exact hsafe
  | store hr hv => exact h.userStore (h.wf.covers hr hv) _

/-- In a run whose steps keep processes apart, they are isolated in every state. -/
theorem run_isolated (hM : M.Lawful) (hsafe : k₀.Safe S) (hrun : Run (Step M) k₀ tr k)
    (hcond : ∀ x ∈ tr, x.1.KeepsApart x.2) : (∀ x ∈ tr, x.1.Isolated) ∧ k.Isolated := by
  obtain ⟨hpre, hlast⟩ := hrun.invariant_of (I := fun k => k.Safe S)
    (C := fun k e => k.KeepsApart e) hsafe (fun _ _ _ h hc hs => hs.safe hM h hc) hcond
  exact ⟨fun x hx => (hpre x hx).isolated, hlast.isolated⟩

theorem isolated_after_fork : ∃ tr k, Run (Step PageMapper.plain) (sample 0x20000 0x40000) tr k ∧
    tr.map Prod.snd = [.fork 1 (fun _ => 0), .mprotect 2 0 4096 1, .store 2 0 7] ∧ (∀ x ∈ tr, x.1.Isolated) ∧ k.Isolated := by
  obtain ⟨root, w, h, hw, hcow, _⟩ := sample_roomy
  obtain ⟨c, k₁, hfork, ht⟩ := fork_twins h plain_lawful hw hcow (sample_served h) (fun _ => 0)
  have halone : k₁.MprotectAlone c 0 4096 1 := fun _ => ⟨by decide, fun hb => absurd hb (by decide)⟩
  obtain ⟨k₂, hrun, _⟩ := ht.safe.mprotect ht.child halone
  have hchild : k₂.sched.liveRoot 2 = some c := (sysMprotect_sched hrun).symm ▸ ht.child
  have hstore : Step plain k₂ (.store 2 0 7) (k₂.userStore c 0 7) := Step.store hchild userPages_pos
  have hsteps := ((Run.nil.snoc hfork).snoc (Step.mprotect ht.child hrun)).snoc hstore
  refine ⟨_, _, hsteps, rfl, run_isolated plain_lawful (h.safe hcow) hsteps ?_⟩
  intro x hx
  simp only [nil_append, cons_append, mem_cons, not_mem_nil, or_false] at hx
  rcases hx with rfl | rfl | rfl
  · intro r hr
    obtain rfl := mem_unique (h.live 1) hr
    exact h.room
  · intro r hr
    obtain rfl := mem_unique ht.child hr
    exact halone
  · trivial

/-- After a fork the parent gives its shared page write permission: what it writes there, the
child reads. -/
theorem mprotect_breaks_isolation : ∃ tr k root c, (sample 0x20000 0x40000).Safe ∅ ∧
    Run (Step PageMapper.plain) (sample 0x20000 0x40000) tr k ∧ tr.map Prod.snd = [.fork 1 (fun _ => 0), .mprotect 1 0 4096 3] ∧
    k.sched.liveRoot 1 = some root ∧ k.sched.liveRoot 2 = some c ∧ c ≠ root ∧
    (∀ w, (k.userStore root 0 w).userLoad c 0 = some w) ∧ ¬ k.Isolated := by
  obtain ⟨root, w, h, hw, hcow, huser⟩ := sample_roomy
  obtain ⟨c, k₁, hfork, ht⟩ := fork_twins h plain_lawful hw hcow (sample_served h) (fun _ => 0)
  obtain ⟨L, out, P, roots, hroot, href⟩ := ht.safe.wf.memory
  have hE := fun v (hv : v < userPages) => ht.safe.wf.covers ht.parent hv
  have hE' := ht.safe.wf.covers ht.child userPages_pos
  obtain ⟨vm₂, hrun, href₂, hvr⟩ := href.updateUserPteFlags 0 4096 true false
    (href.entries _ (hE 0 userPages_pos)).1 hE (by decide) (by decide) (by
      intro _ v _ hv _
      obtain rfl : v = 0 := Nat.lt_one_iff.mp hv
      rw [ht.parentWord, user_toCow]
      exact huser)
  have hcall : k₁.sysMprotect root 0 4096 3 = some { k₁ with vm := vm₂ } := by
    unfold sysMprotect
    rw [if_neg (by decide)]
    exact congrArg (Option.map (fun vm => { k₁ with vm := vm })) hrun
  have hroots := href₂.entries _ hE'
  have hparent : vm₂.space.pte (root, 0) = reprotect true false (toCow w) := by
    rw [href₂.space_pte (href.entries _ (hE 0 userPages_pos)).1 userPages_pos, ← ht.parentWord]
    exact reflag_of_mem (Nat.le_refl 0) (by decide)
  have hchild : vm₂.space.pte (c, 0) = toCow w := by
    rw [href₂.space_pte hroots.1 userPages_pos, ← ht.childWord]
    exact if_neg (fun hc => ht.ne hc.1)
  have hp : present (toCow w) = true := present_toCow.trans h.present
  have hwrite : present (vm₂.space.pte (root, 0)) = true ∧ writable (vm₂.space.pte (root, 0)) = true := by
    rw [hparent, present_reprotect, writable_reprotect hp]
    exact ⟨hp, rfl⟩
  have hmaps : vm₂.space.Maps (c, 0) (frame (vm₂.space.pte (root, 0))) := by
    unfold Space.Maps
    rw [hparent, hchild, frame_reprotect]
    exact ⟨hp, rfl⟩
  refine ⟨_, { k₁ with vm := vm₂ }, root, c, h.safe hcow,
    (Run.nil.snoc hfork).snoc (Step.mprotect ht.parent hcall), rfl, ht.parent, ht.child, ht.ne, ?_, ?_⟩
  · intro w'
    have hpage : (root, 0 >>> 12) ∈ k₁.liveEntries := hE 0 userPages_pos
    have hpage' : (c, 0 >>> 12) ∈ k₁.liveEntries := hE'
    obtain ⟨_, _, href₃⟩ := userStore_refines (k := { k₁ with vm := vm₂ }) href₂.toSpace hpage w'
    rw [userLoad_of_refines href₃ hpage']
    exact load_store_of_maps hwrite hmaps
  · intro hiso
    have hlive := fun q s (hq : k₁.sched.liveRoot q = some s) => ht.safe.wf.tidy.mem_liveRoots.mpr ⟨q, hq⟩
    have hro := hiso.readOnly root (hlive 1 root ht.parent) c (hlive 2 c ht.child) ht.ne.symm 0
      userPages_pos 0 userPages_pos _ ⟨hwrite.1, rfl⟩ hmaps
    exact Bool.false_ne_true (hro.symm.trans hwrite.2)

end Kernel
end NodeKernel
