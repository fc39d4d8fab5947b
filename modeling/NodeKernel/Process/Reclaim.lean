import NodeKernel.Process.Isolation
import NodeKernel.Process.PageFaults

/-!
# Reclaimed pages

What accesses, page faults and the reclaiming of pages do to a page that a process could read. A
reclaimed entry is not present and not unused either: nothing maps the page again.
-/
namespace NodeKernel
open Blocks Function List Option Nat PageMapper Kernel

namespace Pte
variable {e : ℕ}

lemma testBit_toAccessed (i : ℕ) : (toAccessed e).testBit i = (e.testBit i || decide (5 = i)) := testBit_set e 5 i

@[simp] lemma present_toAccessed : present (toAccessed e) = present e := by
  unfold present
  rw [testBit_toAccessed]
  simp

@[simp] lemma user_toAccessed : user (toAccessed e) = user e := by simp [user, testBit_toAccessed]

@[simp] lemma writable_toAccessed : writable (toAccessed e) = writable e := by simp [writable, testBit_toAccessed]

@[simp] lemma cow_toAccessed : cow (toAccessed e) = cow e := by simp [cow, testBit_toAccessed]

@[simp] lemma frame_toAccessed : frame (toAccessed e) = frame e := by
  apply frame_congr
  intro i h1 h2
  have h5 : ¬ 5 = i := by omega
  rw [testBit_toAccessed]
  simp [h5]

lemma user_toOwned {p : ℕ} (hp : IsFrame p) : user (toOwned p e) = user e := by
  unfold user toOwned
  rw [testBit_or_flags hp (by decide), testBit_ownedFlags]
  simp

end Pte

namespace Space
open Pte

/-- A page that was mapped is still mapped, with the same content, and an entry that was reclaimed is as
it was. -/
structure Carries (E : Finset Entry) (σ σ' : Space) : Prop where
  present : ∀ x ∈ E, Pte.present (σ.pte x) = true → Pte.present (σ'.pte x) = true
  user : ∀ x ∈ E, Pte.present (σ.pte x) = true → Pte.user (σ'.pte x) = Pte.user (σ.pte x)
  data : ∀ x ∈ E, Pte.present (σ.pte x) = true → σ'.data (frame (σ'.pte x)) = σ.data (frame (σ.pte x))
  reclaimed : ∀ x ∈ E, Pte.present (σ.pte x) = false → σ.pte x ≠ 0 → σ'.pte x = σ.pte x

variable {E : Finset Entry} {σ σ' σ'' : Space} {x : Entry} {w : ℕ}

lemma Carries.refl (E : Finset Entry) (σ : Space) : σ.Carries E σ :=
  ⟨fun _ _ hp => hp, fun _ _ _ => rfl, fun _ _ _ => rfl, fun _ _ _ _ => rfl⟩

lemma Carries.of_update (hpte : σ'.pte = update σ.pte x w)
    (hx : σ.pte x = 0 ∨ Pte.present (σ.pte x) = true ∧ Pte.present w = true ∧
      Pte.user w = Pte.user (σ.pte x) ∧ σ'.data (frame w) = σ.data (frame (σ.pte x)))
    (hd : ∀ y ∈ E, y ≠ x → ∀ f, σ.Maps y f → σ'.data f = σ.data f) : σ.Carries E σ' := by
  have hself : σ'.pte x = w := by rw [hpte, update_self]
  have hrest : ∀ y, y ≠ x → σ'.pte y = σ.pte y := fun y hy => by rw [hpte, update_of_ne hy]
  have hmapped : ∀ y ∈ E, Pte.present (σ.pte y) = true → Pte.present (σ'.pte y) = true ∧
      Pte.user (σ'.pte y) = Pte.user (σ.pte y) ∧ σ'.data (frame (σ'.pte y)) = σ.data (frame (σ.pte y)) := by
    intro y hy hp
    by_cases hyx : y = x
    · subst hyx
      rw [hself]
      exact (hx.resolve_left (fun h0 => by rw [h0] at hp; cases hp)).2
    · rw [hrest y hyx]
      exact ⟨hp, rfl, hd y hy hyx _ ⟨hp, rfl⟩⟩
  refine ⟨fun y hy hp => (hmapped y hy hp).1, fun y hy hp => (hmapped y hy hp).2.1,
    fun y hy hp => (hmapped y hy hp).2.2, fun y hy hp h0 => hrest y ?_⟩
  rintro rfl
  exact Bool.false_ne_true (hp.symm.trans (hx.resolve_left h0).1)

lemma Carries.toAccessed (E : Finset Entry) (hp : Pte.present (σ.pte x) = true) :
    σ.Carries E (σ.setPte x (Pte.toAccessed (σ.pte x))) := by
  refine Carries.of_update rfl (.inr ⟨hp, present_toAccessed.trans hp, user_toAccessed, ?_⟩)
    (fun _ _ _ _ _ => rfl)
  rw [frame_toAccessed]
  rfl

lemma Carries.ownInPlace (E : Finset Entry) (hp : Pte.present (σ.pte x) = true) : σ.Carries E (σ.ownInPlace x) := by
  have hf := isFrame_frame (σ.pte x)
  refine Carries.of_update rfl (.inr ⟨hp, (present_toOwned hf).trans hp, user_toOwned hf, ?_⟩)
    (fun _ _ _ _ _ => rfl)
  rw [frame_toOwned hf]
  rfl

lemma Carries.ownCopy {g : ℕ} (hp : Pte.present (σ.pte x) = true) (hg : IsFrame g)
    (hun : ∀ y ∈ E, ¬ σ.Maps y g) (n : ℕ) : σ.Carries E (σ.ownCopy x g n) := by
  refine Carries.of_update rfl (.inr ⟨hp, (present_toOwned hg).trans hp, user_toOwned hg, ?_⟩) ?_
  · rw [frame_toOwned hg]
    exact update_self ..
  · intro y hy _ f hm
    refine update_of_ne ?_ _ _
    rintro rfl
    exact hun y hy hm

lemma Gains.carries (h : σ.Gains E σ') : σ.Carries E σ' := by
  cases h with
  | same => exact Carries.refl E σ
  | @page x f w d h0 hun _ _ hd =>
    refine Carries.of_update rfl (.inl h0) ?_
    intro y hy _ g hm
    refine hd g ?_
    rintro rfl
    exact hun y hy hm

lemma Carries.setRef (E : Finset Entry) (σ : Space) (f : ℕ) (rc : Option ℕ) : σ.Carries E (σ.setRef f rc) :=
  ⟨fun _ _ hp => hp, fun _ _ _ => rfl, fun _ _ _ => rfl, fun _ _ _ _ => rfl⟩

end Space

namespace Vm
variable {vm vm' : Vm} {L L' : FreeLists} {out out' : Finset Block} {P roots : Set ℕ} {E : Finset Entry}
  {S S' : Finset ℕ} {σ σ' : Space} {r addr : ℕ}

variable (h : vm.Refines L out P roots E S σ)
include h

lemma Refines.touch (hE : (r, addr >>> 12) ∈ E)
    (hp : Pte.present (σ.pte (r, addr >>> 12)) = true) : (vm.touch r addr).Refines L out P roots E S
        (σ.setPte (r, addr >>> 12) (Pte.toAccessed (σ.pte (r, addr >>> 12)))) ∧ (vm.touch r addr).vmmRoot = vm.vmmRoot := by
  obtain ⟨hr, hv⟩ := h.entries _ hE
  obtain ⟨t, ht, hread⟩ := h.table_of_present hr hv hp
  have hrun : vm.touch r addr = vm.write t (pageTables.slot 3 (addr >>> 12))
      (Pte.toAccessed (σ.pte (r, addr >>> 12))) := by
    unfold Vm.touch
    rw [walkTo_eq, ht]
    simp only [map_some]
    rw [show vm.read t (pageTables.slot 3 (addr >>> 12)) = σ.pte (r, addr >>> 12) from hread]
  rw [hrun]
  refine ⟨(h.writeLeaf hr hv ht (fun _ _ => h.mappable hE hp Pte.frame_toAccessed ?_)).1, rfl⟩
  intro hb
  simpa [Space.Backed] using hb

lemma Refines.cowPageFault_carries (hE : (r, addr >>> 12) ∈ E) :
    ∃ ok vm' L' out' σ', vm.cowPageFault r addr = (ok, vm') ∧ vm'.Refines L' out' P roots E S σ' ∧
      vm'.vmmRoot = vm.vmmRoot ∧ σ.Carries E σ' := by
  obtain ⟨hr, hv⟩ := h.entries _ hE
  by_cases hcow : Pte.present (σ.pte (r, addr >>> 12)) = true ∧ Pte.cow (σ.pte (r, addr >>> 12)) = true
  · obtain ⟨hp, hc⟩ := hcow
    by_cases hlast : (σ.refs (Pte.frame (σ.pte (r, addr >>> 12)))).getD 0 ≤ 1
    · obtain ⟨vm', hrun, href, hroot⟩ := h.cowPageFault_last hr hv hE hp hc hlast
      exact ⟨true, vm', L, out, _, hrun, href, hroot, Space.Carries.ownInPlace E hp⟩
    · obtain ⟨n, hrefs, hn⟩ := Space.refs_of_many hlast
      by_cases hnone : vm.pmm.allocOrder 0 = none
      · obtain ⟨hrun, href⟩ := h.cowPageFault_oom hr hv hp hc hrefs hn hnone
        exact ⟨false, _, L, out, _, hrun, href, rfl, Space.Carries.setRef E σ _ _⟩
      · obtain ⟨g, vm', L', hrun, href, hroot, hg, hun⟩ := h.cowPageFault_copy hr hv hE hp hc hrefs hn hnone
        exact ⟨true, vm', L', _, _, hrun, href, hroot, Space.Carries.ownCopy hp hg hun n⟩
  · exact ⟨false, vm, L, out, σ, h.cowPageFault_other hr hv hcow, h, rfl, Space.Carries.refl E σ⟩

lemma Refines.space_carries (h' : vm'.Refines L' out' P roots E S' σ')
    (hc : σ.Carries E σ') : vm.space.Carries E vm'.space := by
  have hpte : ∀ x ∈ E, vm.space.pte x = σ.pte x := fun x hx => h.space_pte (h.entries x hx).1 (h.entries x hx).2
  have hpte' : ∀ x ∈ E, vm'.space.pte x = σ'.pte x := fun x hx => h'.space_pte (h'.entries x hx).1 (h'.entries x hx).2
  constructor <;> intro x hx <;> rw [hpte x hx, hpte' x hx]
  · exact hc.present x hx
  · exact hc.user x hx
  · intro hp
    calc vm'.space.data (Pte.frame (σ'.pte x)) = σ'.data (Pte.frame (σ'.pte x)) :=
          funext (h'.data x hx _ ⟨hc.present x hx hp, rfl⟩)
      _ = σ.data (Pte.frame (σ.pte x)) := hc.data x hx hp
      _ = vm.space.data (Pte.frame (σ.pte x)) := (funext (h.data x hx _ ⟨hp, rfl⟩)).symm
  · exact hc.reclaimed x hx

end Vm

namespace Pager
variable {p p' p'' : Pager} {M : PageMapper} {fs : RamFiles} {wp : Bool} {P roots : Set ℕ}
  {E : Finset Entry} {σ : Space} {pid : Pid} {root addr brk w aggressiveness : ℕ} {hints : PrefetchHints}
  {a : Access}

section Fault
variable (h : p.Supplied P roots E σ) (hM : M.Lawful) (hroot : p.k.vm.vmmRoot ∈ roots)
  (hx : (root, addr >>> 12) ∈ E)
include h hM hroot hx

omit hM hroot in
lemma protectionFault_moves (isWrite : Bool) : p.Moves P roots E (σ.Carries E) (p.protectionFault pid root addr isWrite) := by
  unfold protectionFault
  cases isWrite with
  | false => exact (Moves.refl h (Space.Carries.refl E σ)).segv pid
  | true =>
    obtain ⟨T, ⟨L, out, S, href, hb⟩, hres⟩ := h
    obtain ⟨ok, vm', L', out', σ', hrun, href', hroot', hc⟩ := href.cowPageFault_carries hx
    have hm : p.Moves P roots E (σ.Carries E) (p.withVm vm') := Moves.withVm hb hres href' hc hroot'
    rw [if_pos rfl, hrun]
    cases ok with
    | true => exact hm
    | false => exact hm.segv pid

lemma pageFaultHandler_moves {isWrite : Bool} (hrun : p.pageFaultHandler M fs wp hints pid root brk addr isWrite = some p') :
    p.Moves P roots E (σ.Carries E) p' := by
  have hleaf : pageTables.leaf p.k.vm.pmm.mem root (addr >>> 12) = σ.pte (root, addr >>> 12) := by
    obtain ⟨T, ⟨L, out, S, href, _⟩, _⟩ := h
    exact href.tables.pte root (href.entries _ hx).1 _ (href.entries _ hx).2
  unfold pageFaultHandler at hrun
  rw [hleaf] at hrun
  split at hrun
  · obtain rfl := Option.some.inj hrun
    exact protectionFault_moves h hx isWrite
  next hn =>
    exact (notPresentFault_moves h hM hroot hx (Bool.eq_false_iff.mpr hn) hrun).mono (fun _ hg => hg.carries)

end Fault

/-- The memory is in order, with the tables of every process that has some. -/
structure Sound (p : Pager) : Prop where
  memory : ∃ P roots, p.Supplied P roots p.k.liveEntries p.k.vm.space ∧ p.k.vm.vmmRoot ∈ roots ∧
    ∀ q r, (p.k.sched.tasks q).map Task.cr3 = some r → r ≠ 0 → r ∈ roots
  tidy : p.k.sched.Tidy

def Lost (p : Pager) (root addr : ℕ) : Prop :=
  Pte.present (p.k.vm.space.pte (root, addr >>> 12)) = false ∧ p.k.vm.space.pte (root, addr >>> 12) ≠ 0

lemma userWord_eq_some : p.userWord root addr = some w ↔ Pte.present (p.k.vm.space.pte (root, addr >>> 12)) = true ∧
      Pte.user (p.k.vm.space.pte (root, addr >>> 12)) = true ∧
      p.k.vm.space.data (Pte.frame (p.k.vm.space.pte (root, addr >>> 12))) (addr % pageSize / 8) = w := by
  unfold userWord permits userLoad Vm.space Access.isWrite
  dsimp only
  generalize pageTables.leaf p.k.vm.pmm.mem root (addr >>> 12) = e
  by_cases hp : Pte.present e = true
  · by_cases hu : Pte.user e = true
    · simp [hp, hu]
    · simp [hu]
  · simp [hp]

lemma Lost.userWord (h : p.Lost root addr) : p.userWord root addr ≠ some w := by
  intro hw
  exact Bool.false_ne_true (h.1.symm.trans (userWord_eq_some.mp hw).1)

section Page
variable (hc : p.k.vm.space.Carries E p'.k.vm.space) (hx : (root, addr >>> 12) ∈ E)
include hc hx

lemma userWord_of_carries (h : p.userWord root addr = some w) : p'.userWord root addr = some w := by
  obtain ⟨hp, hu, hw⟩ := userWord_eq_some.mp h
  rw [userWord_eq_some, hc.user _ hx hp, hc.data _ hx hp]
  exact ⟨hc.present _ hx hp, hu, hw⟩

lemma Lost.of_carries (h : p.Lost root addr) : p'.Lost root addr := by
  unfold Lost
  rw [hc.reclaimed _ hx h.1 h.2]
  exact h

end Page

lemma Supplied.space_carries {σ' : Space} (h : p.Supplied P roots E σ) (h' : p'.Supplied P roots E σ')
    (hc : σ.Carries E σ') : p.k.vm.space.Carries E p'.k.vm.space := by
  obtain ⟨_, ⟨_, _, _, href, _⟩, _⟩ := h
  obtain ⟨_, ⟨_, _, _, href', _⟩, _⟩ := h'
  exact href.space_carries href' hc

lemma Supplied.toSpace (h : p.Supplied P roots E σ) : p.Supplied P roots E p.k.vm.space := by
  obtain ⟨T, ⟨L, out, S, href, hb⟩, hres⟩ := h
  exact ⟨T, ⟨L, out, S, href.toSpace, hb⟩, hres⟩

/-- The processes have the address spaces that they had, and the memory is in order. -/
structure Follows (p p' : Pager) : Prop where
  sound : p'.Sound
  live : ∀ q, p'.k.sched.liveRoot q = p.k.sched.liveRoot q
  entries : p'.k.liveEntries = p.k.liveEntries

lemma Follows.of_supplied (h : p.Sound) (hkeeps : p.k.sched.Keeps p'.k.sched)
    (hcr3 : ∀ q, (p'.k.sched.tasks q).map Task.cr3 = (p.k.sched.tasks q).map Task.cr3)
    (hroot : p'.k.vm.vmmRoot = p.k.vm.vmmRoot)
    (hs : ∀ P roots, p.Supplied P roots p.k.liveEntries p.k.vm.space → p.k.vm.vmmRoot ∈ roots →
      (∀ q r, (p.k.sched.tasks q).map Task.cr3 = some r → r ≠ 0 → r ∈ roots) →
      ∃ σ', p'.Supplied P roots p.k.liveEntries σ') : p.Follows p' := by
  have hentries : p'.k.liveEntries = p.k.liveEntries := liveEntries_of_roots (hkeeps.liveRoots h.tidy)
  refine ⟨⟨?_, hkeeps.tidy h.tidy⟩, hkeeps.roots, hentries⟩
  obtain ⟨P, roots, hsup, hmem, htables⟩ := h.memory
  obtain ⟨σ', hs'⟩ := hs P roots hsup hmem htables
  refine ⟨P, roots, ?_, hroot ▸ hmem, ?_⟩
  · rw [hentries]
    exact hs'.toSpace
  · intro q r hq hr
    exact htables q r ((hcr3 q).symm.trans hq) hr

lemma Sound.of_moves (h : p.Sound) (hm : ∀ P roots, p.Supplied P roots p.k.liveEntries p.k.vm.space →
      p.k.vm.vmmRoot ∈ roots → p.Moves P roots p.k.liveEntries (p.k.vm.space.Carries p.k.liveEntries) p') :
    p.Follows p' ∧ p.k.vm.space.Carries p.k.liveEntries p'.k.vm.space := by
  obtain ⟨P, roots, hs, hroot, _⟩ := h.memory
  have hmoves := hm P roots hs hroot
  refine ⟨Follows.of_supplied h hmoves.sched hmoves.cr3 hmoves.root ?_, ?_⟩
  · intro P' roots' hs' hroot' _
    obtain ⟨σ', hsup, _⟩ := (hm P' roots' hs' hroot').supplied
    exact ⟨σ', hsup⟩
  · obtain ⟨σ', hsup, hc⟩ := hmoves.supplied
    exact hs.space_carries hsup hc

lemma Sound.covers (h : p.Sound) (hr : p.k.sched.liveRoot pid = some root) (hv : addr >>> 12 < userPages) :
    (root, addr >>> 12) ∈ p.k.liveEntries :=
  mem_liveEntries.mpr ⟨h.tidy.mem_liveRoots.mpr ⟨pid, hr⟩, hv⟩

lemma Sound.pageFaultHandler (h : p.Sound) (hM : M.Lawful) (hx : (root, addr >>> 12) ∈ p.k.liveEntries)
    {isWrite : Bool} (hrun : p.pageFaultHandler M fs wp hints pid root brk addr isWrite = some p') :
    p.Follows p' ∧ p.k.vm.space.Carries p.k.liveEntries p'.k.vm.space :=
  h.of_moves (fun _ _ hs hroot => pageFaultHandler_moves hs hM hroot hx hrun)

lemma Lost.not_reads (hl : p.Lost root addr) (h : p.Sound) (hM : M.Lawful)
    (hr : p.k.sched.liveRoot pid = some root) (hv : addr >>> 12 < userPages) : ¬ p.Reads M fs wp pid root addr w := by
  intro hreads
  induction hreads with
  | now hw => exact hl.userWord hw
  | fault _ hrun _ ih =>
    have hx := h.covers hr hv
    obtain ⟨hf, hc⟩ := h.pageFaultHandler hM hx hrun
    exact ih (hl.of_carries hc hx) hf.sound ((hf.live _).trans hr)

lemma Follows.trans (h : p.Follows p') (h' : p'.Follows p'') : p.Follows p'' :=
  ⟨h'.sound, fun q => (h'.live q).trans (h.live q), h'.entries.trans h.entries⟩

/-- What a step makes of a page: one that was reclaimed stays so, and a word that could be read can be
read as before if `C` holds. -/
structure Page (p p' : Pager) (root addr : ℕ) (C : Prop) : Prop where
  lost : p.Lost root addr → p'.Lost root addr
  kept : ∀ w, p.userWord root addr = some w → C → p'.userWord root addr = some w

lemma Page.of_carries (hc : p.k.vm.space.Carries E p'.k.vm.space) (hx : (root, addr >>> 12) ∈ E) (C : Prop) :
    p.Page p' root addr C :=
  ⟨fun hl => hl.of_carries hc hx, fun _ hw _ => userWord_of_carries hc hx hw⟩

lemma Page.trans {C C' : Prop} (h : p.Page p' root addr C) (h' : p'.Page p'' root addr C') (hC : C → C') :
    p.Page p'' root addr C :=
  ⟨fun hl => h'.lost (h.lost hl), fun w hw hc => h'.kept w (h.kept w hw hc) (hC hc)⟩

section Store
variable {root' addr' : ℕ} (h : p.Sound) (hx' : (root', addr' >>> 12) ∈ p.k.liveEntries)
include h hx'

lemma Sound.userStore (v : ℕ) : p.Follows { p with k := p.k.userStore root' addr' v } ∧
    ∀ root addr, (root, addr >>> 12) ∈ p.k.liveEntries →
      p.Page { p with k := p.k.userStore root' addr' v } root addr (¬ p.SameWord root addr root' addr') := by
  obtain ⟨_, _, ⟨_, ⟨_, _, _, href, _⟩, _⟩, _⟩ := h.memory
  obtain ⟨hsched, hroot, href'⟩ := userStore_refines href hx' v
  refine ⟨Follows.of_supplied h ?_ ?_ hroot ?_, ?_⟩
  · rw [hsched]
    exact Scheduler.Keeps.refl _
  · intro q
    rw [hsched]
  · rintro P roots ⟨T, ⟨L, out, S, href, hb⟩, hres⟩ _ _
    exact ⟨_, T, ⟨L, out, S, (userStore_refines href hx' v).2.2, hb⟩, hres⟩
  · intro root addr hx
    have hpte : (p.k.userStore root' addr' v).vm.space.pte (root, addr >>> 12) = p.k.vm.space.pte (root, addr >>> 12) := by
      rw [href'.space_pte (href'.entries _ hx).1 (href'.entries _ hx).2, Space.store_pte]
    refine ⟨?_, ?_⟩
    · unfold Lost
      rw [hpte]
      exact id
    · intro w
      rw [userWord_eq_some, userWord_eq_some]
      rw [hpte]
      rintro ⟨hp, hu, hw⟩ hne
      refine ⟨hp, hu, hw ▸ ?_⟩
      rw [userStore_eq]
      split
      · exact if_neg hne
      · rfl

lemma Sound.touch (hp : Pte.present (p.k.vm.space.pte (root', addr' >>> 12)) = true) :
    p.Follows (p.withVm (p.k.vm.touch root' addr')) ∧
      p.k.vm.space.Carries p.k.liveEntries (p.withVm (p.k.vm.touch root' addr')).k.vm.space ∧ ∀ y ∈ p.k.liveEntries,
        Pte.frame ((p.k.vm.touch root' addr').space.pte y) = Pte.frame (p.k.vm.space.pte y) := by
  have hmoves : ∀ P roots, p.Supplied P roots p.k.liveEntries p.k.vm.space → p.k.vm.vmmRoot ∈ roots →
      p.Moves P roots p.k.liveEntries (p.k.vm.space.Carries p.k.liveEntries)
        (p.withVm (p.k.vm.touch root' addr')) := by
    rintro P roots ⟨T, ⟨L, out, S, href, hb⟩, hres⟩ _
    obtain ⟨href', hroot⟩ := href.touch hx' hp
    exact Moves.withVm hb hres href' (Space.Carries.toAccessed _ hp) hroot
  obtain ⟨hf, hc⟩ := h.of_moves hmoves
  refine ⟨hf, hc, ?_⟩
  intro y hy
  obtain ⟨_, _, ⟨_, ⟨_, _, _, href, _⟩, _⟩, _⟩ := h.memory
  obtain ⟨href', _⟩ := href.touch hx' hp
  rw [href'.space_pte (href.entries y hy).1 (href.entries y hy).2]
  by_cases hy' : y = (root', addr' >>> 12)
  · rw [hy', Space.setPte_self, Pte.frame_toAccessed]
  · rw [Space.setPte_ne hy']

lemma Sound.access (hrun : p.access root' addr' a = some p') : p.permits root' addr' a = true ∧ p.Follows p' ∧
      ∀ root addr, (root, addr >>> 12) ∈ p.k.liveEntries →
        p.Page p' root addr (¬ (a.isWrite = true ∧ p.SameWord root addr root' addr')) := by
  unfold Pager.access at hrun
  split at hrun
  next hpermit =>
    have hp : Pte.present (p.k.vm.space.pte (root', addr' >>> 12)) = true := by
      unfold permits at hpermit
      simp only [Bool.and_eq_true] at hpermit
      exact hpermit.1.1
    obtain ⟨hf, hc, hframe⟩ := h.touch hx' hp
    refine ⟨hpermit, ?_⟩
    cases a with
    | load =>
      obtain rfl : p.withVm (p.k.vm.touch root' addr') = p' := Option.some.inj hrun
      exact ⟨hf, fun root addr hx => Page.of_carries hc hx _⟩
    | store v =>
      obtain rfl := Option.some.inj hrun
      obtain ⟨hf', hpage⟩ := hf.sound.userStore (hf.entries.symm ▸ hx') v
      refine ⟨hf.trans hf', ?_⟩
      intro root addr hx
      refine (Page.of_carries hc hx _).trans (hpage root addr (hf.entries.symm ▸ hx)) ?_
      intro hne hsame
      have hframes : Pte.frame (p.k.vm.space.pte (root, addr >>> 12)) = Pte.frame (p.k.vm.space.pte (root', addr' >>> 12)) := by
        rw [← hframe _ hx, ← hframe _ hx']
        exact hsame.1
      exact hne ⟨rfl, hframes, hsame.2⟩
  · cases hrun

end Store

lemma Sound.attempt {addr' : ℕ} (h : p.Sound) (hM : M.Lawful) (hr : p.k.sched.liveRoot pid = some root)
    (hv : addr' >>> 12 < userPages) (hrun : p.attempt M fs wp hints pid root brk addr' a = some p') :
    p.Follows p' ∧ ∀ root addr, (root, addr >>> 12) ∈ p.k.liveEntries →
      p.Page p' root addr (¬ p.Overwrites root addr (.attempt pid addr' a brk hints)) := by
  have hx' := h.covers hr hv
  unfold Pager.attempt at hrun
  split at hrun
  next p₁ hacc =>
    obtain rfl := Option.some.inj hrun
    obtain ⟨hpermit, hf, hpage⟩ := h.access hx' hacc
    refine ⟨hf, fun r addr hx => ?_⟩
    refine ⟨(hpage r addr hx).lost, fun w hw hne => (hpage r addr hx).kept w hw ?_⟩
    exact fun hc => hne ⟨hc.1, root, hr, hpermit, hc.2⟩
  · obtain ⟨hf, hc⟩ := h.pageFaultHandler hM hx' hrun
    exact ⟨hf, fun _ _ hx => Page.of_carries hc hx _⟩

/-- The entries of the process are reclaimed, and the words of those that remain are as before. -/
theorem Sound.reclaimFileBackedPages (h : p.Sound) (hrun : p.reclaimFileBackedPages pid aggressiveness = some p') :
    p.Follows p' ∧ ∀ x ∈ p.k.liveEntries, p'.k.vm.space.pte x = (if (p.k.sched.tasks pid).map Task.cr3 = some x.1 then
        Pte.reclaim aggressiveness (p.k.vm.space.pte x) else p.k.vm.space.pte x) ∧
      ∀ f, p'.k.vm.space.Maps x f → p'.k.vm.space.data f = p.k.vm.space.data f := by
  have hlive : ∀ x ∈ p.k.liveEntries, x.1 ≠ 0 := by
    intro x hx h0
    obtain ⟨q, hq⟩ := h.tidy.mem_liveRoots.mp (mem_liveEntries.mp hx).1
    exact h.tidy.nonzero q (h0 ▸ hq)
  obtain ⟨⟨vm', n⟩, hvm, rfl⟩ := map_eq_some_iff.mp hrun
  by_cases hcr3 : ∃ c, (p.k.sched.tasks pid).map Task.cr3 = some c ∧ c ≠ 0
  · obtain ⟨c, hc, h0⟩ := hcr3
    rw [hc] at hvm ⊢
    obtain ⟨_, roots, ⟨_, ⟨_, _, _, href, _⟩, _⟩, _, htables⟩ := h.memory
    obtain ⟨_, _, hrun₁, href₁, hroot₁⟩ := href.reclaimFileBackedPages (htables pid c hc h0) h0 aggressiveness
    obtain ⟨rfl, rfl⟩ := Prod.mk.inj (mem_unique hrun₁ hvm)
    refine ⟨Follows.of_supplied h (Scheduler.Keeps.refl _) (fun _ => rfl) hroot₁ ?_, ?_⟩
    · rintro P' roots' ⟨T, ⟨L, out, S, href, hb⟩, hres⟩ _ htables'
      obtain ⟨_, _, hrun₂, href₂, _⟩ := href.reclaimFileBackedPages (htables' pid c hc h0) h0 aggressiveness
      obtain ⟨rfl, rfl⟩ := Prod.mk.inj (mem_unique hrun₂ hvm)
      exact ⟨_, T, ⟨L, out, S, href₂, hb⟩, hres⟩
    · intro x hx
      have hpte := href₁.space_pte (href₁.entries x hx).1 (href₁.entries x hx).2
      refine ⟨hpte.trans (if_congr ?_ rfl rfl), ?_⟩
      · rw [Option.some.injEq, eq_comm, zero_add]
        exact ⟨fun hc => hc.1, fun hc => ⟨hc, zero_le _, (href₁.entries x hx).2⟩⟩
      · intro f hm
        exact funext (href₁.data x hx f ((href₁.space_maps hx).mp hm))
  · have hnot : ∀ x ∈ p.k.liveEntries, (p.k.sched.tasks pid).map Task.cr3 ≠ some x.1 :=
      fun x hx he => hcr3 ⟨x.1, he, hlive x hx⟩
    have hstill : vm' = p.k.vm := by
      unfold Vm.reclaimFileBackedPages at hvm
      cases hc : (p.k.sched.tasks pid).map Task.cr3 with
      | none =>
        rw [hc] at hvm
        exact (Prod.mk.inj (Option.some.inj hvm)).1.symm
      | some c =>
        rw [hc] at hvm
        have h0 : c = 0 := by
          by_contra h0
          exact hcr3 ⟨c, hc, h0⟩
        dsimp only at hvm
        rw [if_neg (not_not.mpr h0)] at hvm
        exact (Prod.mk.inj (Option.some.inj hvm)).1.symm
    subst hstill
    exact ⟨⟨h, fun _ => rfl, rfl⟩, fun x hx => ⟨(if_neg (hnot x hx)).symm, fun _ _ => rfl⟩⟩

section Reclaim
variable (h : p.Sound) (hx : (root, addr >>> 12) ∈ p.k.liveEntries)
  (hrun : p.reclaimFileBackedPages pid aggressiveness = some p')
include h hx hrun

lemma Lost.reclaimFileBackedPages (hl : p.Lost root addr) : p'.Lost root addr := by
  obtain ⟨_, hpage⟩ := h.reclaimFileBackedPages hrun
  have hgone : Pte.reclaim aggressiveness (p.k.vm.space.pte (root, addr >>> 12)) = p.k.vm.space.pte (root, addr >>> 12) :=
    if_neg (fun hc => Bool.false_ne_true (hl.1.symm.trans hc.1))
  unfold Lost
  rw [(hpage _ hx).1, hgone, ite_self]
  exact hl

lemma userWord_of_spares (hs : p.Spares root addr (.reclaim pid aggressiveness))
    (hw : p.userWord root addr = some w) : p'.userWord root addr = some w := by
  obtain ⟨_, hpage⟩ := h.reclaimFileBackedPages hrun
  obtain ⟨hp, hu, hd⟩ := userWord_eq_some.mp hw
  have hpte : p'.k.vm.space.pte (root, addr >>> 12) = p.k.vm.space.pte (root, addr >>> 12) := by
    rw [(hpage _ hx).1]
    split
    next hc =>
      obtain ⟨hacc, hle⟩ := hs hc
      refine if_neg (fun hr => hr.2.elim (fun hold => ?_) (fun hmore => not_lt.mpr hle hmore))
      exact Bool.false_ne_true (hold.symm.trans hacc)
    · rfl
  rw [userWord_eq_some, hpte]
  refine ⟨hp, hu, ?_⟩
  rw [(hpage _ hx).2 _ ⟨hpte.symm ▸ hp, congrArg Pte.frame hpte⟩]
  exact hd

lemma lost_of_not_spares (hs : ¬ p.Spares root addr (.reclaim pid aggressiveness))
    (hw : p.userWord root addr = some w) : p'.Lost root addr := by
  obtain ⟨_, hpage⟩ := h.reclaimFileBackedPages hrun
  obtain ⟨hp, _, _⟩ := userWord_eq_some.mp hw
  unfold Spares at hs
  rw [Classical.not_imp] at hs
  obtain ⟨hc, hnot⟩ := hs
  have hold : Pte.accessed (p.k.vm.space.pte (root, addr >>> 12)) = false ∨ aggressiveness > 3 := by
    by_contra hno
    rw [not_or, Bool.not_eq_false, not_lt] at hno
    exact hnot hno
  have hpte : p'.k.vm.space.pte (root, addr >>> 12) = Pte.toSwapped (p.k.vm.space.pte (root, addr >>> 12)) := by
    rw [(hpage _ hx).1, if_pos hc]
    exact if_pos ⟨hp, hold⟩
  unfold Lost
  rw [hpte]
  exact ⟨Pte.present_toSwapped, Pte.toSwapped_ne_zero⟩

end Reclaim

/-- A word that a process can read is there until a reclaim does not spare its page, and from then on the
page is lost. -/
theorem run_page {p₀ : Pager} {tr : List (Pager × PressureEvent)} (hM : M.Lawful) (h₀ : p₀.Sound)
    (hrun : Run (PressureStep M fs wp) p₀ tr p) (hr : p₀.k.sched.liveRoot pid = some root)
    (hv : addr >>> 12 < userPages) (hw : p₀.userWord root addr = some w) (hkept : ∀ x ∈ tr, ¬ x.1.Overwrites root addr x.2) :
    p.Sound ∧ p.k.sched.liveRoot pid = some root ∧ ((p.userWord root addr = some w ∧ ∀ x ∈ tr, x.1.Spares root addr x.2) ∨
        (p.Lost root addr ∧ ¬ ∀ x ∈ tr, x.1.Spares root addr x.2)) := by
  induction hrun with
  | nil => exact ⟨h₀, hr, .inl ⟨hw, nofun⟩⟩
  | @snoc tr p e p' hpre hs ih =>
    obtain ⟨h, hr', hpage⟩ := ih (fun x hx => hkept x (mem_append_left _ hx))
    have hx := h.covers hr' hv
    have hlast : ¬ p.Overwrites root addr e := hkept (p, e) (mem_append_right _ mem_cons_self)
    simp only [forall_mem_append, forall_mem_singleton]
    cases hs with
    | attempt hroot hvpn hstep =>
      obtain ⟨hf, hstep⟩ := h.attempt hM hroot hvpn hstep
      refine ⟨hf.sound, (hf.live pid).trans hr', ?_⟩
      rcases hpage with ⟨hw', hall⟩ | ⟨hl, hnot⟩
      · exact .inl ⟨(hstep root addr hx).kept w hw' hlast, hall, trivial⟩
      · exact .inr ⟨(hstep root addr hx).lost hl, fun hc => hnot hc.1⟩
    | @reclaim _ q aggressiveness hstep =>
      obtain ⟨hf, _⟩ := h.reclaimFileBackedPages hstep
      refine ⟨hf.sound, (hf.live pid).trans hr', ?_⟩
      rcases hpage with ⟨hw', hall⟩ | ⟨hl, hnot⟩
      · by_cases hspares : p.Spares root addr (.reclaim q aggressiveness)
        · exact .inl ⟨userWord_of_spares h hx hstep hspares hw', hall, hspares⟩
        · exact .inr ⟨lost_of_not_spares h hx hstep hspares hw', fun hc => hspares hc.2⟩
      · exact .inr ⟨hl.reclaimFileBackedPages h hx hstep, fun hc => hnot hc.1⟩

/-- In every run of accesses and reclaims, a process reads a word that it could read before and that was
not overwritten exactly if no reclaim of its pages has taken the page: each one found the page accessed
and was made with the third degree at most. -/
theorem run_readsSame_iff {p₀ : Pager} {tr : List (Pager × PressureEvent)} (hM : M.Lawful) (h₀ : p₀.Sound)
    (hrun : Run (PressureStep M fs wp) p₀ tr p) (hr : p₀.k.sched.liveRoot pid = some root)
    (hv : addr >>> 12 < userPages) (hw : p₀.userWord root addr = some w) (hkept : ∀ x ∈ tr, ¬ x.1.Overwrites root addr x.2) :
    p.Reads M fs wp pid root addr w ↔ ∀ x ∈ tr, x.1.Spares root addr x.2 := by
  obtain ⟨h, hr', hpage⟩ := run_page hM h₀ hrun hr hv hw hkept
  rcases hpage with ⟨hw', hall⟩ | ⟨hl, hnot⟩
  · exact ⟨fun _ => hall, fun _ => Reads.now hw'⟩
  · exact ⟨fun hreads => absurd hreads (hl.not_reads h hM hr' hv), fun hall => absurd hall hnot⟩

lemma Sound.reclaim_returns (h : p.Sound) (pid : Pid) (aggressiveness : ℕ) :
    ∃ p', p.reclaimFileBackedPages pid aggressiveness = some p' := by
  obtain ⟨_, _, ⟨_, ⟨_, _, _, href, _⟩, _⟩, _, htables⟩ := h.memory
  unfold Pager.reclaimFileBackedPages
  cases hc : (p.k.sched.tasks pid).map Task.cr3 with
  | none => exact ⟨_, rfl⟩
  | some c =>
    by_cases h0 : c = 0
    · exact ⟨_, by rw [h0]; rfl⟩
    · obtain ⟨_, _, hrun, _⟩ := href.reclaimFileBackedPages (htables pid c hc h0) h0 aggressiveness
      exact ⟨_, by rw [hrun]; rfl⟩

lemma sample_sound (hk : p.k = sample.k) (hr : p.reserves = sample.reserves) (hc : p.cache = sample.cache) : p.Sound := by
  obtain ⟨w, h, _⟩ := sample_onePage
  obtain ⟨P, roots, hs, hroot⟩ := sample_supplied hk hr hc
  refine ⟨⟨P, roots, hs, hroot, ?_⟩, hk ▸ h.wf.tidy⟩
  intro q r hq _
  rw [hk, h.bootRoot] at hroot
  rw [hk] at hq
  obtain ⟨t, ht, rfl⟩ := map_eq_some_iff.mp hq
  have hlive := h.live q
  split at hlive
  · obtain ⟨t', ht', _, hcr3⟩ := Scheduler.liveRoot_some hlive
    rw [ht] at ht'
    rw [Option.some.inj ht', hcr3]
    exact hroot
  next hge =>
    rw [h.wf.tidy.pids q (h.next ▸ not_lt.mp hge)] at ht
    cases ht

lemma sample_live (hk : p.k = sample.k) : p.k.sched.liveRoot 1 = some 0x40000 := by
  obtain ⟨w, h, _⟩ := sample_onePage
  rw [hk, h.live]
  rfl

def sampleLoad : PressureEvent := .attempt 1 0 .load 0 ⟨none, 0⟩

/-- The first process reads a word before and after its pages are reclaimed. -/
theorem run_readsSame_iff_touched : ∃ p₁ p₂,
    Run (PressureStep PageMapper.plain noFiles true) sample [(sample, sampleLoad), (p₁, .reclaim 1 0)] p₂ ∧
    p₂.Reads PageMapper.plain noFiles true 1 0x40000 0 0 := by
  have hsound : sample.Sound := sample_sound rfl rfl rfl
  have hlive : sample.k.sched.liveRoot 1 = some 0x40000 := sample_live rfl
  have hpermit : sample.permits 0x40000 0 .load = true := by decide +kernel
  have hword : sample.userWord 0x40000 0 = some 0 := by decide +kernel
  have hacc : sample.access 0x40000 0 .load = some (sample.withVm (sample.k.vm.touch 0x40000 0)) := if_pos hpermit
  have hattempt : sample.attempt plain noFiles true ⟨none, 0⟩ 1 0x40000 0 0 .load =
      some (sample.withVm (sample.k.vm.touch 0x40000 0)) := by
    unfold Pager.attempt
    rw [hacc]
  obtain ⟨hf, _⟩ := hsound.attempt plain_lawful hlive (by decide) hattempt
  obtain ⟨p₂, hreclaim⟩ := hf.sound.reclaim_returns 1 0
  have hrun := (Run.nil.snoc (PressureStep.attempt hlive (by decide) hattempt)).snoc (PressureStep.reclaim hreclaim)
  refine ⟨_, p₂, hrun, (run_readsSame_iff plain_lawful hsound hrun hlive (by decide) hword ?_).mpr ?_⟩
  · simp only [nil_append, cons_append, forall_mem_cons]
    exact ⟨fun hc => Bool.false_ne_true hc.1, id, nofun⟩
  · simp only [nil_append, cons_append, forall_mem_cons]
    exact ⟨trivial, fun _ => ⟨by decide +kernel, by decide⟩, nofun⟩

def oneFile : RamFiles := ⟨fun _ => some 7, fun _ => some [0x41]⟩

def fileCall : MmapCall := .mmap 1 (fun _ => some "/data") (2 ^ 64 - 1) 0 4096 3 0 3 0

def sampleFile : Pager := (sample.sysMmap oneFile (fun _ => some "/data") (2 ^ 64 - 1) 1 0 4096 3 0 3 0).2

lemma sampleFile_keeps : sample.KeepsLayout oneFile true fileCall := by
  intro _ _
  refine ⟨fun _ => dvd_zero _, by decide, by decide, nofun, nofun, nofun, ?_⟩
  intro f _
  refine ⟨.inr (by decide), by decide, ?_⟩
  rintro off ⟨c, rfl⟩ hoff
  have hc : c = 0 := by
    unfold pagesLen pageSize at hoff
    omega
  rw [hc]
  exact some_ne_none _

def fileLayout : Layout := Layout.set (fun _ _ => none) 1 0x100000000000 4096
  (fun page => some (mmapSpec oneFile (some "/data") 0x100000000000 3 0 page))

lemma sampleFile_mirrors : sampleFile.Mirrors oneFile true fileLayout := by
  have hstart : sample.Mirrors oneFile true (fun _ _ => none) := mirrors_start rfl rfl (by decide)
  have hstep : MmapStep plain oneFile (sample, fun _ _ => none) fileCall (sampleFile, fileLayout) :=
    MmapStep.mmap rfl
  exact Mirrors.step (s := (sample, fun _ _ => none)) hstart sampleFile_keeps hstep

lemma sampleFile_attempt : ∃ p₁ w,
    sampleFile.attempt PageMapper.plain oneFile true ⟨none, 0⟩ 1 0x40000 0 0x100000000000 .load = some p₁ ∧
    p₁.userWord 0x40000 0x100000000000 = some w := by
  have hready : sampleFile.Ready oneFile 0x40000 0x100000000000 := sample_ready (p := sampleFile) rfl rfl rfl
  obtain ⟨ok, p₁, hdemand, hiff, hshows⟩ := sampleFile_mirrors.served plain_lawful ⟨none, 0⟩ 1
    0x40000 1 0x100000000000 hready
  have hpage : fileLayout 1 0x100000000000 = some (mmapSpec oneFile (some "/data") 0x100000000000 3 0 0x100000000000) := by
    unfold fileLayout Layout.set
    rw [if_pos ⟨rfl, by decide⟩]
  have hok : ok = true := hiff.mpr (congrArg Option.isSome hpage)
  have hleaf : pageTables.leaf sampleFile.k.vm.pmm.mem 0x40000 (0x100000000000 >>> 12) = 0 := hready.unused
  have hnone : sampleFile.access 0x40000 0x100000000000 .load = none := by
    unfold Pager.access permits
    rw [hleaf]
    rfl
  have hfault : sampleFile.vmaFault plain oneFile true ⟨none, 0⟩ 1 0x40000 0x100000000000 = some p₁ := by
    unfold vmaFault
    rw [hdemand, hok]
    rfl
  have haccess : (Pte.present (pageTables.leaf p₁.k.vm.pmm.mem 0x40000 (0x100000000000 >>> 12)) &&
      Pte.user (pageTables.leaf p₁.k.vm.pmm.mem 0x40000 (0x100000000000 >>> 12))) = true :=
    (hshows _ hpage).accessible
  rw [Bool.and_eq_true] at haccess
  refine ⟨p₁, _, ?_, userWord_eq_some.mpr ⟨haccess.1, haccess.2, rfl⟩⟩
  unfold Pager.attempt pageFaultHandler
  rw [hnone, hleaf]
  exact hfault

/-- The process reads a page of the file, the page is reclaimed, and the process cannot read it again. -/
theorem reclaimed_file_page_is_lost : ∃ p₁ p₂ w, Run (PressureStep PageMapper.plain oneFile true) sampleFile
      [(sampleFile, .attempt 1 0x100000000000 .load 0 ⟨none, 0⟩), (p₁, .reclaim 1 4)] p₂ ∧
    p₁.userWord 0x40000 0x100000000000 = some w ∧
    ∀ w', ¬ p₂.Reads PageMapper.plain oneFile true 1 0x40000 0x100000000000 w' := by
  have hsound : sampleFile.Sound := sample_sound rfl rfl rfl
  have hlive : sampleFile.k.sched.liveRoot 1 = some 0x40000 := sample_live rfl
  have hv : 0x100000000000 >>> 12 < userPages := by decide
  obtain ⟨p₁, w, hattempt, hword⟩ := sampleFile_attempt
  obtain ⟨hf, _⟩ := hsound.attempt plain_lawful hlive hv hattempt
  have hlive₁ : p₁.k.sched.liveRoot 1 = some 0x40000 := (hf.live 1).trans hlive
  obtain ⟨p₂, hreclaim⟩ := hf.sound.reclaim_returns 1 4
  obtain ⟨hf₂, _⟩ := hf.sound.reclaimFileBackedPages hreclaim
  have hcr3 : (p₁.k.sched.tasks 1).map Task.cr3 = some 0x40000 := by
    obtain ⟨t, ht, _, hcr3⟩ := Scheduler.liveRoot_some hlive₁
    rw [ht, map_some, hcr3]
  have hlost : p₂.Lost 0x40000 0x100000000000 := by
    refine lost_of_not_spares hf.sound (hf.sound.covers hlive₁ hv) hreclaim ?_ hword
    exact fun hs => absurd (hs hcr3).2 (by decide)
  refine ⟨p₁, p₂, w, ?_, hword, fun w' => ?_⟩
  · exact (Run.nil.snoc (PressureStep.attempt hlive hv hattempt)).snoc (PressureStep.reclaim hreclaim)
  · exact hlost.not_reads hf₂.sound plain_lawful ((hf₂.live 1).trans hlive₁) hv

end Pager
end NodeKernel
