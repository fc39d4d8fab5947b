import NodeKernel.Process.PageFaults

/-!
# Frames that are given back

Which frames `munmap`, `madvise` and the exit of a process give back to the allocator; and the frames that
`self_model` takes in reserve.
-/
namespace NodeKernel
open Blocks Function Finset Nat PageMapper Pte

/-- The frame `f` is taken, and no entry of `E` maps it. -/
structure Vm.Idle (vm : Vm) (E : Finset Entry) (f : ℕ) : Prop where
  taken : ¬ vm.pmm.FreeAt f
  unmapped : ∀ y ∈ E, ¬ vm.space.Maps y f

/-- A page that is mapped in the tables of the boot root is a user page of a process that is alive, and no
other entry maps its frame. -/
def Kernel.UnmapAlone (k : Kernel) (page : ℕ) : Prop :=
  Pte.present (k.vm.space.pte (k.vm.vmmRoot, page)) = true →
    Pte.user (k.vm.space.pte (k.vm.vmmRoot, page)) = true ∧ k.vm.vmmRoot ∈ k.sched.liveRoots ∧
    ∀ y ∈ k.liveEntries, y ≠ (k.vm.vmmRoot, page) →
      ¬ k.vm.space.Maps y (Pte.frame (k.vm.space.pte (k.vm.vmmRoot, page)))

namespace Pager

def maxReservePages : ℕ := 256

def reserveLoop : ℕ → Vm → List ℕ → Vm × List ℕ
  | 0, vm, reserve => (vm, reserve)
  | n + 1, vm, reserve =>
    if reserve.length ≥ maxReservePages then (vm, reserve)
    else
      match vm.allocFrame with
      | none => (vm, reserve)
      | some (frame, vm) => reserveLoop n vm (frame :: reserve)

/-- `predictedPages` is what the model expects after the last two calls of the process. -/
def recordSyscall (p : Pager) (pid : Pid) (predictedPages : ℕ) : Pager :=
  let (vm, reserve) := reserveLoop (min predictedPages maxReservePages) p.k.vm (p.reserves pid)
  p.withMem pid ⟨vm, reserve⟩

/-- A child has none of the areas of its parent. -/
def forkTask (p : Pager) (M : PageMapper) (cr3 : ℕ) (words : ℕ → ℕ) (pid : Pid) : Pager :=
  { p with k := (p.k.forkTask M cr3 words pid).2 }

def exitTask (p : Pager) (pid : Pid) (code : ℤ) : Option Pager :=
  (p.k.exitTask pid code).map (fun k => cleanupPidVmas { p with k } pid)

inductive FrameEvent
  | fork (pid : Pid) (words : ℕ → ℕ)
  | mmap (pid : Pid) (fdPath : ℤ → Option String) (rlimitAs addr len prot flags : ℕ) (fd : ℤ) (offset : ℕ)
  | fault (pid : Pid) (addr : ℕ) (isWrite : Bool) (brk : ℕ) (hints : PrefetchHints)
  | munmap (pid : Pid) (addr len : ℕ)
  | madvise (pid : Pid) (addr len : ℕ) (advice : ℤ)
  | exit (pid : Pid) (code : ℤ)
  | recordSyscall (pid : Pid) (predictedPages : ℕ)

/-- Every step is that of a process that is alive; `r` is its root. -/
inductive FrameStep (M : PageMapper) (fs : RamFiles) (wp : Bool) : Pager → FrameEvent → Pager → Prop
  | fork {p pid r words} : p.k.sched.liveRoot pid = some r →
      FrameStep M fs wp p (.fork pid words) (p.forkTask M r words pid)
  | mmap {p pid fdPath rlimitAs addr len prot flags fd offset} :
      FrameStep M fs wp p (.mmap pid fdPath rlimitAs addr len prot flags fd offset)
        (p.sysMmap fs fdPath rlimitAs pid addr len prot flags fd offset).2
  | fault {p p' pid r addr isWrite brk hints} : p.k.sched.liveRoot pid = some r → addr >>> 12 < userPages →
      p.pageFaultHandler M fs wp hints pid r brk addr isWrite = some p' →
      FrameStep M fs wp p (.fault pid addr isWrite brk hints) p'
  | munmap {p p' pid r addr len} : p.k.sched.liveRoot pid = some r → p.sysMunmap M addr len = some p' →
      FrameStep M fs wp p (.munmap pid addr len) p'
  | madvise {p p' pid r addr len advice hints} : p.k.sched.liveRoot pid = some r →
      advice = madvDontneed ∨ advice = madvFree →
      p.sysMadvise M fs wp hints r pid addr len advice = some p' →
      FrameStep M fs wp p (.madvise pid addr len advice) p'
  | exit {p p' pid r code} : p.k.sched.liveRoot pid = some r → p.exitTask pid code = some p' →
      FrameStep M fs wp p (.exit pid code) p'
  | recordSyscall {p pid predictedPages} :
      FrameStep M fs wp p (.recordSyscall pid predictedPages) (p.recordSyscall pid predictedPages)

/-- No frame that a process, the page cache or a reserve has is free, the cache and the reserves have no
frame that a process has, and nothing is free twice. -/
structure FramesSafe (p : Pager) : Prop where
  mapped : ∀ x ∈ p.k.liveEntries, ∀ f, p.k.vm.space.Maps x f → ¬ p.k.vm.pmm.FreeAt f
  cached : ∀ key f, p.cache.entries key = some f → p.k.vm.Idle p.k.liveEntries f
  reserved : ∀ q, ∀ f ∈ p.reserves q, p.k.vm.Idle p.k.liveEntries f
  once : p.k.vm.pmm.freeBlocks.Pairwise (fun b b' => ∀ a ∈ b, a ∉ b')

/-- Whenever the loop gives back a frame, it is taken and no process has it. -/
def LoopGivesBack (p : Pager) (M : PageMapper) (pages start : ℕ) : Prop :=
  ∀ i < pages, ∀ vm f vm', p.k.vm.munmapLoop M i start = some vm →
    vm.unmapPage M (((start + i * pageSize) % 2 ^ 64) >>> 12 &&& 0xFFFFFFFFF) = (some f, vm') →
    vm'.Idle p.k.liveEntries f

def GivesBack (p : Pager) (M : PageMapper) : FrameEvent → Prop
  | .munmap _ addr len => len ≠ 0 →
      p.LoopGivesBack M ((len + pageSize - 1) % 2 ^ 64 / pageSize) (addr / pageSize * pageSize)
  | .madvise _ addr len _ => len ≠ 0 →
      p.LoopGivesBack M (madvisePages addr len) (addr / pageSize * pageSize)
  | _ => True

/-- The pages are of the lower half, and those that are mapped are not shared. -/
def UnmapsOwn (p : Pager) (first pages : ℕ) : Prop :=
  first + pages ≤ userPages ∧ ∀ v, first ≤ v → v < first + pages → p.k.UnmapAlone v

/-- The step gives back no frame that is still in use: a fork overflows no count, a write fault finds the
frame it needs, what is unmapped is not shared, and an exit gives up an address space of its own. -/
def KeepsFrames (p : Pager) : FrameEvent → Prop
  | .fork pid _ => ∀ r, p.k.sched.liveRoot pid = some r → p.k.vm.space.Room r userPages
  | .fault pid addr isWrite _ _ => isWrite = true →
      ∀ r, p.k.sched.liveRoot pid = some r → p.k.FaultServed r addr
  | .munmap _ addr len => len ≠ 0 → p.UnmapsOwn (addr / pageSize) ((len + pageSize - 1) % 2 ^ 64 / pageSize)
  | .madvise _ addr len _ => len ≠ 0 → p.UnmapsOwn (addr / pageSize) (madvisePages addr len)
  | .exit pid _ => ∀ r, p.k.sched.liveRoot pid = some r → p.k.ExitAlone pid r
  | .mmap .. => True
  | .recordSyscall .. => True

end Pager

namespace Space
variable {σ σ' : Space} {E : Finset Entry}

lemma Gains.coherent (h : σ.Gains E σ') (hc : σ.Coherent E) : σ'.Coherent E := by
  cases h with
  | same => exact hc
  | @page x f w d h0 hun hf _ _ =>
    exact hc.setPte_alone (fun y hy _ _ => hf.symm ▸ hun y hy)

lemma Gains.over (h : σ.Gains E σ') (ho : σ.Over E) : σ'.Over E := by
  cases h with
  | same => exact ho
  | @page x f w d _ _ _ hcow _ =>
    have hw := ho.setPte_unmarked (x := x) (w := w)
      (fun g => hit_eq_zero (fun hc => Bool.false_ne_true (hcow.symm.trans hc.2.1)))
    exact ⟨hw.range, hw.le⟩

end Space

lemma page_address {page : ℕ} (h : page < userPages) :
    canonical (page * pageSize) = true ∧ (page * pageSize) >>> 12 &&& 0xFFFFFFFFF = page ∧
      (page * pageSize + pageSize) % 2 ^ 64 = (page + 1) * pageSize := by
  unfold userPages at h
  unfold canonical pageSize
  refine ⟨?_, ?_, by omega⟩
  · apply decide_eq_true
    omega
  · rw [shiftRight_eq_div_pow, show 0xFFFFFFFFF = 2 ^ 36 - 1 from rfl, and_two_pow_sub_one_eq_mod]
    omega

namespace Kernel
variable {k : Kernel} {M : PageMapper} {S : Finset ℕ} {page n v : ℕ}

lemma Safe.withSched {s : Scheduler} (h : k.Safe S) (hs : k.sched.Keeps s) : Safe { k with sched := s } S := by
  have hlive : liveEntries { k with sched := s } = k.liveEntries := liveEntries_of_roots (hs.liveRoots h.wf.tidy)
  obtain ⟨⟨⟨L, out, P, roots, hroot, href⟩, htidy, hu8⟩, hcoh, hover⟩ := h
  exact ⟨⟨⟨L, out, P, roots, hroot, hlive.symm ▸ href⟩, hs.tidy htidy, hu8⟩, hlive.symm ▸ hcoh, hlive.symm ▸ hover⟩

lemma UnmapAlone.of_pte {vm' : Vm} (h : k.UnmapAlone v) (hroot : vm'.vmmRoot = k.vm.vmmRoot)
    (hsame : vm'.space.pte (k.vm.vmmRoot, v) = k.vm.space.pte (k.vm.vmmRoot, v))
    (hless : ∀ y ∈ k.liveEntries, ∀ f, vm'.space.Maps y f → k.vm.space.Maps y f) : UnmapAlone { k with vm := vm' } v := by
  unfold UnmapAlone
  rw [hroot, hsame]
  intro hp
  obtain ⟨huser, hlive, halone⟩ := h hp
  exact ⟨huser, hlive, fun y hy hne hm => halone y hy hne (hless y hy _ hm)⟩

lemma giveBack {L : FreeLists} {out : Finset Block} {P roots : Set ℕ} {E : Finset Entry} {σ : Space}
    {vm vm₁ : Vm} {f : ℕ} (h : vm.Refines L out P roots E S σ) (hM : M.Lawful) (hx : (vm.vmmRoot, page) ∈ E)
    (huser : Pte.user (σ.pte (vm.vmmRoot, page)) = true)
    (hown : ∀ y ∈ E, y ≠ (vm.vmmRoot, page) → ¬ σ.Maps y (Pte.frame (σ.pte (vm.vmmRoot, page))))
    (hun : vm.unmapPage M page = (some f, vm₁)) :
    vm₁.Idle E f ∧ ∃ vm' L', vm₁.freeFrame f = some vm' ∧ vm'.vmmRoot = vm.vmmRoot ∧
      vm'.Refines L' (out.erase (blockAt f 0)) P roots E S (σ.setPte (vm.vmmRoot, page) 0) := by
  obtain ⟨hroot, hv⟩ := h.entries _ hx
  obtain ⟨hresult, href₁, hroot₁, hwalks⟩ := h.unmapPage hM hroot hv
  rw [hun] at hresult href₁ hroot₁ hwalks
  split at hresult
  next hp =>
    have hm : σ.Maps (vm.vmmRoot, page) f := ⟨hp.1, (Option.some.inj hresult).symm⟩
    have hout : blockAt f 0 ∈ out := hm.2 ▸ h.owned _ hx ⟨hp.1, .inl huser⟩
    have hunmapped : ∀ y ∈ E, ¬ (σ.setPte (vm.vmmRoot, page) 0).Maps y f := by
      intro y hy hmap
      obtain ⟨hne, hmap⟩ := Space.maps_of_cleared hmap
      exact hown y hy hne (hm.2.symm ▸ hmap)
    obtain ⟨vm', L', hfree, href', hroot', _⟩ := href₁.free hout
      (fun ht => h.apart _ hx f hm ((Radix.isTable_congr hwalks).mp ht)) hunmapped
      (fun hS => (h.spare f hS).2.2 _ hx hm)
    refine ⟨⟨href₁.tables.inv.not_freeAt hout (Block.base_mem _), ?_⟩, vm', L', hfree, hroot'.trans hroot₁, href'⟩
    intro y hy hmap
    exact hunmapped y hy ((href₁.space_maps hy).mp hmap)
  · cases hresult

lemma munmapLoop_page (vm : Vm) (hv : page < userPages) (n : ℕ) : vm.munmapLoop M (n + 1) (page * pageSize) =
      match vm.unmapPage M page with
      | (none, vm) => vm.munmapLoop M n ((page + 1) * pageSize)
      | (some frame, vm) =>
        match vm.freeFrame frame with
        | none => none
        | some vm => vm.munmapLoop M n ((page + 1) * pageSize) := by
  obtain ⟨hcanon, hindex, hnext⟩ := page_address hv
  rw [Vm.munmapLoop, hcanon, hindex, hnext]
  rfl

section Unmap
variable (h : k.Safe S) (hM : M.Lawful) (hv : page < userPages) (halone : k.UnmapAlone page)
include h hM hv halone

lemma Safe.munmapTurn : ∃ vm', (∀ n, k.vm.munmapLoop M (n + 1) (page * pageSize) = vm'.munmapLoop M n ((page + 1) * pageSize)) ∧
    Safe { k with vm := vm' } S ∧
    (∀ v < userPages, v ≠ page → k.UnmapAlone v → UnmapAlone { k with vm := vm' } v) ∧
    ∀ f vm₁, k.vm.unmapPage M page = (some f, vm₁) → vm₁.Idle k.liveEntries f := by
  have hturn := munmapLoop_page (M := M) k.vm hv
  obtain ⟨⟨⟨L, out, P, roots, hroot, href⟩, htidy, _⟩, hcoh, hover⟩ := h
  obtain ⟨hresult, href₁, hroot₁, _⟩ := href.unmapPage hM hroot hv
  have hothers : ∀ (vm' : Vm) (L' : FreeLists) (out' : Finset Block) (σ' : Space),
      vm'.Refines L' out' P roots k.liveEntries S σ' → vm'.vmmRoot = k.vm.vmmRoot →
      (∀ y, y ≠ (k.vm.vmmRoot, page) → σ'.pte y = k.vm.space.pte y) →
      (∀ y f, σ'.Maps y f → k.vm.space.Maps y f) →
      ∀ v < userPages, v ≠ page → k.UnmapAlone v → UnmapAlone { k with vm := vm' } v := by
    intro vm' L' out' σ' href' hroot' hsame hless v hv hne hother
    refine hother.of_pte hroot' ?_ (fun y hy f hm => hless y f ((href'.space_maps hy).mp hm))
    rw [href'.space_pte hroot hv]
    exact hsame _ (fun he => hne (Prod.mk.inj he).2)
  cases hun : k.vm.unmapPage M page with
  | mk frame vm₁ =>
    rw [hun] at hresult href₁ hroot₁ hturn
    cases frame with
    | none =>
      refine ⟨vm₁, hturn, ?_, hothers vm₁ L out _ href₁ hroot₁ (fun _ _ => rfl) (fun _ _ hm => hm), nofun⟩
      exact Safe.of_refines (k := { k with vm := vm₁ }) href₁ htidy (hroot₁.symm ▸ hroot) hcoh hover
    | some f =>
      have hpresent : present (k.vm.space.pte (k.vm.vmmRoot, page)) = true := by
        by_contra hp
        rw [if_neg (fun hc => hp hc.1)] at hresult
        cases hresult
      obtain ⟨huser, hlive, hown⟩ := halone hpresent
      have hx : (k.vm.vmmRoot, page) ∈ k.liveEntries := mem_liveEntries.mpr ⟨hlive, hv⟩
      obtain ⟨hidle, vm', L', hfree, hroot', href'⟩ := giveBack href hM hx huser hown hun
      simp only [hfree] at hturn
      refine ⟨vm', hturn, ?_, hothers vm' L' _ _ href' hroot' (fun y hy => Space.setPte_ne hy)
        (fun y g hmap => (Space.maps_of_cleared hmap).2), ?_⟩
      · refine Safe.of_refines (k := { k with vm := vm' }) href' htidy (hroot'.symm ▸ hroot)
          (hcoh.setPte_alone ?_) (hover.setPte_unmarked ?_)
        · intro y _ _ hp
          cases hp
        · exact fun g => Space.hit_eq_zero (fun hc => by cases hc.1)
      · rintro _ _ ⟨⟩
        exact hidle

end Unmap

/-- The loop comes to an end, and gives back no frame that something else has. -/
theorem Safe.munmapLoop (hM : M.Lawful) (h : k.Safe S) (hn : v + n ≤ userPages)
    (halone : ∀ w, v ≤ w → w < v + n → k.UnmapAlone w) :
    (∃ vm', k.vm.munmapLoop M n (v * pageSize) = some vm' ∧ Safe { k with vm := vm' } S) ∧
    ∀ i < n, ∀ vm f vm', k.vm.munmapLoop M i (v * pageSize) = some vm →
      vm.unmapPage M (v + i) = (some f, vm') → vm'.Idle k.liveEntries f := by
  induction n generalizing k v with
  | zero => exact ⟨⟨k.vm, rfl, h⟩, fun i hi => absurd hi (not_lt_zero i)⟩
  | succ n ih =>
    obtain ⟨vm₁, hturn, hsafe, hothers, hidle⟩ := h.munmapTurn hM (by omega : v < userPages) (halone v (le_refl v) (by omega))
    obtain ⟨⟨vm', hrun, hsafe'⟩, hidle'⟩ := ih (k := { k with vm := vm₁ }) (v := v + 1) hsafe (by omega)
      (fun w hw hlt => hothers w (by omega) (by omega) (halone w (by omega) (by omega)))
    refine ⟨⟨vm', (hturn n).trans hrun, hsafe'⟩, fun i hi vm f vm₂ hloop hun => ?_⟩
    cases i with
    | zero =>
      obtain rfl := Option.some.inj hloop
      exact hidle f vm₂ hun
    | succ i =>
      rw [hturn i] at hloop
      rw [← succ_add_eq_add_succ] at hun
      exact hidle' i (by omega) vm f vm₂ hloop hun

/-- A page that is mapped elsewhere as well is unmapped: its frame is free, and still mapped. -/
theorem Safe.munmap_shared {y : Entry} (h : k.Safe S) (hM : M.Lawful) (hx : (k.vm.vmmRoot, page) ∈ k.liveEntries)
    (hp : Pte.present (k.vm.space.pte (k.vm.vmmRoot, page)) = true)
    (huser : Pte.user (k.vm.space.pte (k.vm.vmmRoot, page)) = true)
    (hhuge : Pte.huge (k.vm.space.pte (k.vm.vmmRoot, page)) = false) (hy : y ∈ k.liveEntries) (hne : y ≠ (k.vm.vmmRoot, page))
    (hm : k.vm.space.Maps y (Pte.frame (k.vm.space.pte (k.vm.vmmRoot, page)))) :
    ∃ vm', k.vm.munmapLoop M 1 (page * pageSize) = some vm' ∧
      vm'.space.Maps y (Pte.frame (k.vm.space.pte (k.vm.vmmRoot, page))) ∧
      vm'.pmm.FreeAt (Pte.frame (k.vm.space.pte (k.vm.vmmRoot, page))) := by
  obtain ⟨⟨⟨L, out, P, roots, hroot, href⟩, _, _⟩, _, _⟩ := h
  have hv : page < userPages := (href.entries _ hx).2
  obtain ⟨hresult, _⟩ := href.unmapPage hM hroot hv
  rw [if_pos ⟨hp, hhuge⟩] at hresult
  obtain ⟨_, vm', L', hfree, _, href'⟩ := giveBack (href.mono (singleton_subset_iff.mpr hx)) hM
    (mem_singleton_self _) huser (fun z hz hzx => absurd (mem_singleton.mp hz) hzx)
    (Prod.ext hresult rfl)
  refine ⟨vm', ?_, ?_, ?_⟩
  · rw [munmapLoop_page k.vm hv, show k.vm.unmapPage M page = (some _, _) from Prod.ext hresult rfl]
    dsimp only
    rw [hfree]
    rfl
  · unfold Space.Maps at hm ⊢
    rw [href'.space_pte (href.entries y hy).1 (href.entries y hy).2, Space.setPte_ne hne]
    exact hm
  · have hout := href.owned _ hx ⟨hp, .inl huser⟩
    have hmem := Block.base_mem (blockAt (frame (k.vm.space.pte (k.vm.vmmRoot, page))) 0)
    refine (href'.tables.inv.freeAt_or_out (href.tables.inv.managed_of_out hout hmem)).resolve_right ?_
    rintro ⟨b, hb, hfb⟩
    obtain ⟨hbne, hb⟩ := mem_erase.mp hb
    exact hbne (href.tables.inv.tiling.unique b (.inr hb) _ (.inr hout) _ hfb hmem)

lemma Twins.munmap {root c w : ℕ} (h : Twins k root c w) (hM : M.Lawful) (hp : Pte.present w = true)
    (huser : Pte.user w = true) (hhuge : Pte.huge w = false) :
    ∃ vm', k.vm.munmapLoop M 1 0 = some vm' ∧ vm'.space.Maps (c, 0) (Pte.frame w) ∧ vm'.pmm.FreeAt (Pte.frame w) := by
  have hword : k.vm.space.pte (k.vm.vmmRoot, 0) = toCow w := h.bootRoot.symm ▸ h.parentWord
  have hne : (c, 0) ≠ (k.vm.vmmRoot, 0) := fun he => h.ne ((Prod.mk.inj he).1.trans h.bootRoot)
  have hm : k.vm.space.Maps (c, 0) (frame (k.vm.space.pte (k.vm.vmmRoot, 0))) := by
    unfold Space.Maps
    rw [hword, h.childWord]
    exact ⟨present_toCow.trans hp, rfl⟩
  obtain ⟨vm', hloop, hmaps, hfree⟩ := h.safe.munmap_shared hM
    (h.bootRoot.symm ▸ h.safe.wf.covers h.parent userPages_pos) (hword ▸ present_toCow.trans hp)
    (hword ▸ user_toCow.trans huser) (hword ▸ huge_toCow.trans hhuge)
    (h.safe.wf.covers h.child userPages_pos) hne hm
  rw [hword, frame_toCow] at hmaps hfree
  exact ⟨vm', hloop, hmaps, hfree⟩

end Kernel

lemma Held.not_freeAt {s : Pmm} {L : FreeLists} {out : Finset Block} {P : Set ℕ} {f : ℕ} (h : Held out P f)
    (hinv : s.Inv L out P) : ¬ s.FreeAt f := by
  intro hfree
  rcases h with hP | hout
  · exact hP (hinv.managed_of_freeAt hfree)
  · exact hinv.not_freeAt hout (Block.base_mem _) hfree

lemma Reserved.push {reserves : Pid → List ℕ} {T : Finset ℕ} {f : ℕ} (h : Reserved reserves T) (hf : f ∉ T)
    (q : Pid) : Reserved (update reserves q (f :: reserves q)) (insert f T) := by
  have hnew : ∀ q', f ∉ reserves q' := fun q' hc => hf (h.mem q' f hc)
  have hold : ∀ q' g, g ∈ update reserves q (f :: reserves q) q' → q' = q ∧ g = f ∨ g ∈ reserves q' := by
    intro q' g hg
    by_cases hq : q' = q
    · subst hq
      rw [update_self] at hg
      exact (List.mem_cons.mp hg).imp (fun he => ⟨rfl, he⟩) id
    · rw [update_of_ne hq] at hg
      exact .inr hg
  refine ⟨?_, ?_, ?_⟩
  · intro q' g hg
    rcases hold q' g hg with ⟨_, rfl⟩ | hg
    · exact mem_insert_self g T
    · exact mem_insert_of_mem (h.mem q' g hg)
  · intro q'
    by_cases hq : q' = q
    · rw [hq, update_self]
      exact List.nodup_cons.mpr ⟨hnew q, h.nodup q⟩
    · rw [update_of_ne hq]
      exact h.nodup q'
  · intro q' q'' g hg hg'
    rcases hold q' g hg with ⟨hq', he⟩ | hg
    · rcases hold q'' g hg' with ⟨hq'', _⟩ | hg'
      · exact hq'.trans hq''.symm
      · exact absurd (he ▸ hg') (hnew q'')
    · rcases hold q'' g hg' with ⟨_, he⟩ | hg'
      · exact absurd (he ▸ hg) (hnew q')
      · exact h.alone q' q'' g hg hg'

namespace Pager
variable {p p' : Pager} {M : PageMapper} {fs : RamFiles} {wp : Bool} {pid : Pid} {r addr : ℕ} {e : FrameEvent}

/-- Sharing is sound, and the cache and the reserves have frames of their own. -/
def Orderly (p : Pager) : Prop := ∃ S T, p.k.Safe S ∧ p.cache.Backs T S ∧ Reserved p.reserves T

lemma Orderly.withKernel {k' : Kernel} (h : p.Orderly) (hk : ∀ S, p.k.Safe S → k'.Safe S) : Orderly { p with k := k' } := by
  obtain ⟨S, T, hsafe, hb, hres⟩ := h
  exact ⟨S, T, hk S hsafe, hb, hres⟩

lemma Orderly.segv (h : p.Orderly) (pid : Pid) : (p.segv pid).Orderly :=
  h.withKernel (fun _ hsafe => hsafe.withSched (Scheduler.sendSignal_keeps _ pid 11))

lemma Orderly.protectionFault (h : p.Orderly) (hr : p.k.sched.liveRoot pid = some r)
    (hv : addr >>> 12 < userPages) {isWrite : Bool} (hserved : isWrite = true → p.k.FaultServed r addr) :
    (p.protectionFault pid r addr isWrite).Orderly := by
  unfold Pager.protectionFault
  split
  next hw =>
    have hcow : (p.withVm (p.k.vm.cowPageFault r addr).2).Orderly :=
      h.withKernel (fun _ hsafe => (hsafe.cowFault hr hv (hserved hw)).1)
    split
    next vm heq =>
      rw [heq] at hcow
      exact hcow
    next vm heq =>
      rw [heq] at hcow
      exact hcow.segv pid
  · exact h.segv pid

lemma Orderly.notPresentFault {hints : PrefetchHints} {brk : ℕ} (h : p.Orderly) (hM : M.Lawful)
    (hr : p.k.sched.liveRoot pid = some r) (hv : addr >>> 12 < userPages)
    (hn : Pte.present (p.k.vm.space.pte (r, addr >>> 12)) = false)
    (hrun : p.notPresentFault M fs wp hints pid r brk addr = some p') : p'.Orderly := by
  obtain ⟨S, T, hsafe, hb, hres⟩ := h
  have hx := hsafe.wf.covers hr hv
  obtain ⟨⟨⟨L, out, P, roots, hroot, href⟩, htidy, _⟩, hcoh, hover⟩ := hsafe
  obtain ⟨⟨σ', ⟨T', ⟨L', out', S', href', hb'⟩, hres'⟩, hgains⟩, hroot', hkeeps, _⟩ :=
    notPresentFault_moves ⟨T, ⟨L, out, S, href, hb⟩, hres⟩ hM hroot hx hn hrun
  have hlive : p'.k.liveEntries = p.k.liveEntries := Kernel.liveEntries_of_roots (hkeeps.liveRoots htidy)
  have hcoh' := hgains.coherent hcoh
  have hover' := hgains.over hover
  rw [← hlive] at href' hcoh' hover'
  exact ⟨S', T', Kernel.Safe.of_refines href' (hkeeps.tidy htidy) (hroot'.symm ▸ hroot) hcoh' hover', hb', hres'⟩

lemma Orderly.takeReserve {f : ℕ} {vm' : Vm} (h : p.Orderly) (hrun : p.k.vm.allocFrame = some (f, vm')) (pid : Pid) :
    (p.withMem pid ⟨vm', f :: p.reserves pid⟩).Orderly := by
  obtain ⟨S, T, ⟨⟨⟨L, out, P, roots, hroot, href⟩, htidy, _⟩, hcoh, hover⟩, hb, hres⟩ := h
  obtain ⟨L', href', hf, _, hroot', _⟩ := href.takeSpare hrun vm'.pmm.mem (fun _ _ _ => rfl)
  refine ⟨insert f S, insert f T, ?_, hb.insert hf, hres.push (fun hc => hf (hb.others hc)) pid⟩
  exact Kernel.Safe.of_refines (k := { p.k with vm := vm' }) href' htidy (hroot'.symm ▸ hroot) hcoh hover

lemma withMem_self (p : Pager) (pid : Pid) : p.withMem pid ⟨p.k.vm, p.reserves pid⟩ = p := by
  unfold withMem
  rw [update_eq_self]

lemma withMem_withMem (p : Pager) (pid : Pid) (m m' : ExecMem) : (p.withMem pid m).withMem pid m' = p.withMem pid m' :=
  congrArg (fun reserves => { p with k := { p.k with vm := m'.vm }, reserves }) (update_idem ..)

lemma reserves_withMem (p : Pager) (pid : Pid) (m : ExecMem) : (p.withMem pid m).reserves pid = m.reserve := update_self ..

lemma Orderly.reserveLoop (h : p.Orderly) (pid : Pid) (n : ℕ) : (p.withMem pid ⟨(Pager.reserveLoop n p.k.vm (p.reserves pid)).1,
      (Pager.reserveLoop n p.k.vm (p.reserves pid)).2⟩).Orderly := by
  induction n generalizing p with
  | zero => exact (p.withMem_self pid).symm ▸ h
  | succ n ih =>
    rw [reserveLoop]
    split
    · exact (p.withMem_self pid).symm ▸ h
    · split
      · exact (p.withMem_self pid).symm ▸ h
      next f vm hrun =>
        have hnext := ih (h.takeReserve hrun pid)
        rw [withMem_withMem, reserves_withMem] at hnext
        exact hnext

lemma sysMmap_keeps (p : Pager) (fs : RamFiles) (fdPath : ℤ → Option String) (rlimitAs : ℕ) (pid : Pid)
    (addr len prot flags : ℕ) (fd : ℤ) (offset : ℕ) :
    ∃ vmas fileVmas mmapNext, (p.sysMmap fs fdPath rlimitAs pid addr len prot flags fd offset).2 =
      { p with vmas, fileVmas, mmapNext } := by
  unfold sysMmap advance
  repeat' split
  all_goals exact ⟨_, _, _, rfl⟩

section
variable (h : p.Orderly) (hM : M.Lawful)
include h hM

lemma Orderly.pageFaultHandler {hints : PrefetchHints} {brk : ℕ} {isWrite : Bool}
    (hr : p.k.sched.liveRoot pid = some r) (hv : addr >>> 12 < userPages) (hserved : isWrite = true → p.k.FaultServed r addr)
    (hrun : p.pageFaultHandler M fs wp hints pid r brk addr isWrite = some p') : p'.Orderly := by
  unfold Pager.pageFaultHandler at hrun
  split at hrun
  · obtain rfl := Option.some.inj hrun
    exact h.protectionFault hr hv hserved
  next hn => exact h.notPresentFault hM hr hv (Bool.not_eq_true _ ▸ hn) hrun

lemma Orderly.munmapLoop {v pages : ℕ} (hown : p.UnmapsOwn v pages) :
    (∃ vm', p.k.vm.munmapLoop M pages (v * pageSize) = some vm' ∧ (p.withVm vm').Orderly) ∧
      p.LoopGivesBack M pages (v * pageSize) := by
  obtain ⟨hn, halone⟩ := hown
  obtain ⟨S, T, hsafe, hb, hres⟩ := h
  obtain ⟨⟨vm', hrun, hsafe'⟩, hidle⟩ := hsafe.munmapLoop hM hn halone
  refine ⟨⟨vm', hrun, S, T, hsafe', hb, hres⟩, ?_⟩
  intro i hi vm f vm₁ hloop hun
  obtain ⟨_, hindex, _⟩ := page_address (by omega : v + i < userPages)
  have haddr : (v * pageSize + i * pageSize) % 2 ^ 64 = (v + i) * pageSize := by
    unfold userPages at hn
    unfold pageSize
    omega
  rw [haddr, hindex] at hun
  exact hidle i hi vm f vm₁ hloop hun

lemma Orderly.unmapCall {v pages len : ℕ} (hown : len ≠ 0 → p.UnmapsOwn v pages)
    (hrun : (if len = 0 then some p else (p.k.vm.munmapLoop M pages (v * pageSize)).map p.withVm) = some p') : p'.Orderly := by
  split at hrun
  · obtain rfl := Option.some.inj hrun
    exact h
  next hlen =>
    obtain ⟨vm', hloop, hp'⟩ := (h.munmapLoop hM (hown hlen)).1
    rw [hloop] at hrun
    exact Option.some.inj hrun ▸ hp'

lemma Orderly.givesBack (hk : p.KeepsFrames e) : p.GivesBack M e := by
  cases e with
  | munmap | madvise => exact fun hlen => (h.munmapLoop hM (hk hlen)).2
  | _ => trivial

lemma Orderly.step (hk : p.KeepsFrames e) (hs : FrameStep M fs wp p e p') : p'.Orderly := by
  cases hs with
  | fork hr => exact h.withKernel (fun _ hsafe => (hsafe.fork hM hr _ (hk _ hr)).1)
  | mmap =>
    obtain ⟨vmas, fileVmas, mmapNext, heq⟩ := p.sysMmap_keeps fs _ _ _ _ _ _ _ _ _
    rw [heq]
    exact h
  | fault hr hv hrun => exact h.pageFaultHandler hM hr hv (fun hw => hk hw _ hr) hrun
  | munmap _ hrun => exact h.unmapCall hM hk hrun
  | madvise _ hadvice hrun =>
    unfold sysMadvise at hrun
    rw [if_pos hadvice] at hrun
    exact h.unmapCall hM hk hrun
  | exit hr hrun =>
    obtain ⟨k', hk', rfl⟩ := Option.map_eq_some_iff.mp hrun
    refine h.withKernel (fun _ hsafe => ?_)
    obtain ⟨k₁, hk₁, hsafe', _⟩ := hsafe.exit hr (hk _ hr) _
    exact Option.mem_unique hk₁ hk' ▸ hsafe'
  | recordSyscall => exact h.reserveLoop _ _

end

lemma Orderly.framesSafe (h : p.Orderly) : p.FramesSafe := by
  obtain ⟨S, T, ⟨⟨⟨L, out, P, roots, _, href⟩, _, _⟩, _, _⟩, hb, hres⟩ := h
  have hidle : ∀ f ∈ S, p.k.vm.Idle p.k.liveEntries f := by
    intro f hf
    obtain ⟨hout, _, hun⟩ := href.spare f hf
    exact ⟨href.tables.inv.not_freeAt hout (Block.base_mem _), hun⟩
  refine ⟨?_, ?_, ?_, href.tables.inv.freeBlocks_disjoint⟩
  · intro x hx f hm
    exact (href.held x hx f hm).not_freeAt href.tables.inv
  · intro key f hf
    exact hidle f (hb.frames key f hf).1
  · intro q f hf
    exact hidle f (hb.others (hres.mem q f hf))

/-- No frame is given back while a process has it, and none is given back twice, in a run in which no page
that is unmapped is shared. -/
theorem run_framesSafe {p₀ : Pager} {tr : List (Pager × FrameEvent)} (hM : M.Lawful) (h₀ : p₀.Orderly)
    (hrun : Run (FrameStep M fs wp) p₀ tr p) (hkeeps : ∀ x ∈ tr, x.1.KeepsFrames x.2) :
    (∀ x ∈ tr, x.1.FramesSafe ∧ x.1.GivesBack M x.2) ∧ p.FramesSafe := by
  obtain ⟨hpre, hlast⟩ := hrun.invariant_of (I := Orderly) (C := KeepsFrames) h₀
    (fun _ _ _ hI hC hs => hI.step hM hC hs) hkeeps
  exact ⟨fun x hx => ⟨(hpre x hx).framesSafe, (hpre x hx).givesBack hM (hkeeps x hx)⟩, hlast.framesSafe⟩

lemma sysMunmap_page {vm' : Vm} (h : p.k.vm.munmapLoop M 1 0 = some vm') : p.sysMunmap M 0 4096 = some (p.withVm vm') := by
  unfold sysMunmap
  rw [if_neg (by decide)]
  exact congrArg (Option.map p.withVm) h

lemma sample_orderly : sample.Orderly := by
  obtain ⟨w, h, _⟩ := sample_onePage
  have hcow : cow (sample.k.vm.space.pte (0x40000, 0)) = false := by decide +kernel
  exact ⟨∅, ∅, h.safe (h.word ▸ hcow), ⟨Finset.Subset.refl ∅, nofun, nofun⟩, ⟨nofun, fun _ => List.nodup_nil, nofun⟩⟩

theorem run_framesSafe_alone : ∃ tr p, Run (FrameStep PageMapper.plain noFiles true) sample tr p ∧
    tr.map Prod.snd = [.munmap 1 0 4096] ∧ (∀ x ∈ tr, x.1.FramesSafe ∧ x.1.GivesBack PageMapper.plain x.2) ∧ p.FramesSafe := by
  obtain ⟨w, h, huser⟩ := sample_onePage
  have hown : sample.UnmapsOwn 0 1 := by
    refine ⟨by decide, fun v _ hv _ => ?_⟩
    obtain rfl : v = 0 := by omega
    rw [h.bootRoot, h.word]
    refine ⟨huser, h.liveRoots ▸ mem_singleton_self _, fun y hy hne hm => ?_⟩
    exact hne (h.eq_of_present hy hm.1)
  obtain ⟨vm', hloop, _⟩ := (sample_orderly.munmapLoop plain_lawful hown).1
  have hstep : FrameStep plain noFiles true sample (.munmap 1 0 4096) (sample.withVm vm') :=
    FrameStep.munmap (h.live 1) (sysMunmap_page hloop)
  have hrun := Run.nil.snoc hstep
  refine ⟨_, _, hrun, rfl, run_framesSafe plain_lawful sample_orderly hrun ?_⟩
  intro x hx
  obtain rfl := List.mem_singleton.mp hx
  exact fun _ => hown

/-- After a fork the parent unmaps the page that it shares with its child: the child still has the frame,
and the allocator may give it to anyone. -/
theorem shared_page_is_freed : ∃ tr p x f, sample.Orderly ∧ Run (FrameStep PageMapper.plain noFiles true) sample tr p ∧
    tr.map Prod.snd = [.fork 1 (fun _ => 0), .munmap 1 0 4096] ∧
    x ∈ p.k.liveEntries ∧ p.k.vm.space.Maps x f ∧ p.k.vm.pmm.FreeAt f ∧ ¬ p.FramesSafe := by
  obtain ⟨w, h, huser⟩ := sample_onePage
  have hw : writable w = true := h.word ▸ (by decide +kernel)
  have hcow : cow w = false := h.word ▸ (by decide +kernel)
  have hhuge : huge w = false := h.word ▸ (by decide +kernel)
  obtain ⟨c, k₁, hfork, ht⟩ := Kernel.fork_twins h plain_lawful hw hcow
    (Kernel.served_of_missing h (by decide +kernel) (by decide +kernel)) (fun _ => 0)
  obtain ⟨vm', hloop, hmaps, hfree⟩ := ht.munmap plain_lawful h.present huser hhuge
  have hforked : FrameStep plain noFiles true sample (.fork 1 (fun _ => 0)) { sample with k := k₁ } := by
    cases hfork with
    | fork hr => exact FrameStep.fork hr
  have hunmapped : FrameStep plain noFiles true { sample with k := k₁ } (.munmap 1 0 4096)
      (withVm { sample with k := k₁ } vm') := FrameStep.munmap ht.parent (sysMunmap_page hloop)
  have hchild := ht.safe.wf.covers ht.child userPages_pos
  exact ⟨_, _, (c, 0), frame w, sample_orderly, (Run.nil.snoc hforked).snoc hunmapped, rfl, hchild, hmaps, hfree,
    fun hsafe => hsafe.mapped (c, 0) hchild _ hmaps hfree⟩

end Pager
end NodeKernel
