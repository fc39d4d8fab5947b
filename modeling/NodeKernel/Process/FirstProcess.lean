import NodeKernel.Process.Steps

/-!
# The first process

After boot one address space exists, that of the boot root: the idle task and the first
process run in it. A page of it is mapped as `map_user_range` does it, into a zeroed frame.
-/
namespace NodeKernel
open Blocks Finset Option Nat Space

def Vm.boot (s : Pmm) : Vm :=
  match s.allocFrame with
  | none => ⟨s, fun _ => none, 0⟩
  | some (root, s) => ⟨{ s with mem := s.mem.zeroPage root }, fun _ => none, root⟩

def Vm.addPage (vm : Vm) (mapper : PageMapper) (page flags : ℕ) : Bool × Vm :=
  match vm.allocFrame with
  | none => (false, vm)
  | some (phys, vm) => (vm.withMem (vm.pmm.mem.zeroPage phys)).mapPage mapper page phys flags

def Kernel.first (vm : Vm) : Kernel :=
  ⟨vm, (Scheduler.boot vm.vmmRoot).spawn (Task.newIdle idlePid vm.vmmRoot), 0⟩

namespace Vm
variable {s : Pmm} {vm : Vm} {M : PageMapper} {L : FreeLists} {out : Finset Block} {P roots : Set ℕ}
  {E : Finset Entry} {S : Finset ℕ} {σ : Space} {page flags : ℕ}

lemma Refines.withRoot (h : vm.Refines L out P roots E S σ) (root : ℕ) :
    Vm.Refines { vm with vmmRoot := root } L out P roots E S σ :=
  ⟨h.tables, h.refs, h.entries, h.apart, h.held, h.owned, h.data, h.spare⟩

lemma refines_empty (h : s.Inv L out P) (hb : ∀ a ∈ P, a < 2 ^ 52) :
    Vm.Refines ⟨s, fun _ => none, 0⟩ L out P ∅ ∅ ∅ ⟨fun _ => 0, fun _ => none, fun _ _ => 0⟩ := by
  refine ⟨⟨h, hb, ?_, ?_, ?_, ?_⟩, rfl, ?_, ?_, ?_, ?_, ?_, ?_⟩
  · constructor
    simp
  all_goals simp [Radix.Clean, Radix.IsTable]

lemma boot_refines (h : s.Inv L out P) (hb : ∀ a ∈ P, a < 2 ^ 52) (hsome : s.allocOrder 0 ≠ none) :
    ∃ L' out', (Vm.boot s).Refines L' out' P {(Vm.boot s).vmmRoot} (Space.withRoot ∅ (Vm.boot s).vmmRoot userPages) ∅
        ⟨fun _ => 0, fun _ => none, fun _ _ => 0⟩ ∧ (Vm.boot s).vmmRoot ≠ 0 ∧
      ∀ v < userPages, pageTables.tableAt (Vm.boot s).pmm.mem (Vm.boot s).vmmRoot 1 v = none := by
  have h₀ := refines_empty h hb
  unfold Vm.boot
  cases ha : s.allocFrame with
  | none => exact absurd ha hsome
  | some q =>
    obtain ⟨root, s'⟩ := q
    have hrun : Vm.allocFrame ⟨s, fun _ => none, 0⟩ = some (root, ⟨s', fun _ => none, 0⟩) := by
      unfold Vm.allocFrame
      rw [ha]
      rfl
    obtain ⟨L', hn⟩ := h₀.allocFill hrun (s'.mem.zeroPage root) (fun a ha i => if_neg ha)
    have hempty : ∀ i < 256, s'.mem.zeroPage root root i = 0 := fun i _ => if_pos rfl
    have h₁ := (hn.insertRoot hempty).withRoot root
    refine ⟨L', insert (blockAt root 0) out, ?_, hn.nonzero, ?_⟩
    · rw [insert_empty_eq] at h₁
      have hclear : clearRoot ⟨fun _ => 0, fun _ => none, fun _ _ => 0⟩ root =
          ⟨fun _ => 0, fun _ => none, fun _ _ => 0⟩ := by
        unfold clearRoot
        simp
      rw [hclear] at h₁
      exact h₁
    · intro v hv
      change pageTables.child 0 (s'.mem.zeroPage root root (pageTables.slot 0 v)) = none
      rw [hempty _ (slot_zero_lt hv)]
      exact childTable_zero 0

lemma Refines.addPage (h : vm.Refines L out P roots E S σ) (hM : M.Lawful)
    (hroot : vm.vmmRoot ∈ roots) (hpage : page < userPages) (hflags : MapFlags flags)
    (hok : (vm.addPage M page flags).1 = true) : ∃ f d L' out', (vm.addPage M page flags).2.Refines L' out' P roots E S
        ((σ.setData f d).setPte (vm.vmmRoot, page) (f ||| flags)) ∧ Pte.IsFrame f ∧ (∀ y ∈ E, ¬ σ.Maps y f) ∧
      (vm.addPage M page flags).2.vmmRoot = vm.vmmRoot ∧ userTables (vm.addPage M page flags).2.pmm.mem vm.vmmRoot =
        userTables vm.pmm.mem vm.vmmRoot + missingTables vm.pmm.mem vm.vmmRoot page := by
  unfold Vm.addPage at hok ⊢
  cases ha : vm.allocFrame with
  | none =>
    rw [ha] at hok
    cases hok
  | some q =>
    obtain ⟨f, vm₁⟩ := q
    rw [ha] at hok
    obtain ⟨L₁, hn⟩ := h.allocFill ha (vm₁.pmm.mem.zeroPage f) (fun a ha i => if_neg ha)
    dsimp only at hok ⊢
    generalize vm₁.withMem (vm₁.pmm.mem.zeroPage f) = vm₂ at hn hok
    obtain ⟨L', out', hm⟩ := hn.refines.mapPage hM (hn.root.symm ▸ hroot) hpage
      (mem_insert_self _ _) hn.fresh.noTable hn.fresh.unmapped hn.unspared hflags
    obtain ⟨n, hle, _, hcount, hshort, _⟩ := hm.taken
    have href := hm.refines
    rw [hok, if_pos rfl, hn.root] at href
    refine ⟨f, _, L', out', href, hn.fresh.isFrame, hn.fresh.unmapped, hm.root.trans hn.root, ?_⟩
    have hall : n = missingTables vm₂.pmm.mem vm₂.vmmRoot page := by
      rcases lt_or_eq_of_le hle with hlt | heq
      · have hfalse := (hshort hlt).1
        rw [hok] at hfalse
        cases hfalse
      · exact heq
    rw [hall, hn.root, userTables_congr (hn.walks _ hroot),
      missingTables_congr (fun d hd => hn.walks _ hroot d hd _ hpage)] at hcount
    exact hcount

end Vm

/-- The idle task and the first process run on `root`, which maps the one page `page`. -/
structure OnePage (k : Kernel) (root page w : ℕ) : Prop where
  wf : k.WellFormed ∅
  live : ∀ q, k.sched.liveRoot q = if q < 2 then some root else none
  next : k.sched.nextPid = 2
  bootRoot : k.vm.vmmRoot = root
  inRange : page < userPages
  word : k.vm.space.pte (root, page) = w
  present : Pte.present w = true
  others : ∀ v < userPages, v ≠ page → k.vm.space.pte (root, v) = 0
  refs : k.vm.cowRefs = fun _ => none
  tables : userTables k.vm.pmm.mem root = 3

namespace OnePage
variable {k : Kernel} {root page w : ℕ}

section
variable (h : OnePage k root page w)
include h

lemma liveRoots : k.sched.liveRoots = {root} := by
  ext r
  rw [h.wf.tidy.mem_liveRoots, mem_singleton]
  simp only [h.live]
  constructor
  · intro hr
    obtain ⟨q, hq⟩ := hr
    split at hq
    · exact (Option.some.inj hq).symm
    · cases hq
  · intro hr
    exact ⟨0, by rw [hr]; rfl⟩

lemma mem_liveEntries {x : Entry} : x ∈ k.liveEntries ↔ x.1 = root ∧ x.2 < userPages := by
  rw [Kernel.mem_liveEntries, h.liveRoots, mem_singleton]

lemma eq_of_present {x : Entry} (hx : x ∈ k.liveEntries) (hp : Pte.present (k.vm.space.pte x) = true) : x = (root, page) := by
  obtain ⟨hr, hv⟩ := h.mem_liveEntries.mp hx
  have hentry : x = (root, x.2) := Prod.ext hr rfl
  by_contra hne
  have hv' : x.2 ≠ page := fun he => hne (by rw [hentry, he])
  rw [hentry, h.others x.2 hv hv'] at hp
  cases hp

lemma refCount (hcow : Pte.cow w = false) (f : ℕ) : k.vm.space.refCount k.liveEntries f = 0 := by
  apply sum_eq_zero
  intro x hx
  apply hit_eq_zero
  intro hc
  have he := h.eq_of_present hx hc.1
  rw [he, h.word, hcow] at hc
  cases hc.2.1

lemma safe (hcow : Pte.cow w = false) : k.Safe ∅ := by
  refine ⟨h.wf, ?_, ?_, ?_⟩
  · intro x hx y hy hne f hmx hmy
    exact absurd ((h.eq_of_present hx hmx.1).trans (h.eq_of_present hy hmy.1).symm) hne
  · intro f n hf
    change k.vm.cowRefs f = some n at hf
    rw [h.refs] at hf
    cases hf
  · intro f
    rw [h.refCount hcow]
    exact zero_le _

lemma counted (hcow : Pte.cow w = false) : k.Counted := by
  intro f
  rw [h.refCount hcow, if_pos rfl]
  change k.vm.cowRefs f = none
  rw [h.refs]

lemma room : k.vm.space.Room root userPages := by
  intro f
  have hle : k.vm.space.sharesOf root userPages f ≤ ∑ v ∈ Finset.range userPages, if v = page then 1 else 0 := by
    apply sum_le_sum
    intro v hv
    by_cases hvp : v = page
    · rw [if_pos hvp]
      split
      · exact le_refl 1
      · exact zero_le 1
    · rw [h.others v (mem_range.mp hv) hvp, if_neg]
      · exact zero_le _
      · intro hc
        cases hc.1.1
  have hrefs : k.vm.space.refs f = none := congrFun h.refs f
  rw [sum_ite_eq', if_pos (mem_range.mpr h.inRange)] at hle
  rw [hrefs, getD_none]
  omega

end

lemma shareAll_self (h : OnePage k root 0 w) :
    k.vm.space.shareAll root root userPages = k.vm.space.share (root, 0) (root, 0) := by
  have hone : k.vm.space.shareAll root root 1 = k.vm.space.share (root, 0) (root, 0) := rfl
  rw [← hone]
  apply shareAll_of_absent (by decide)
  intro v hv hlt
  rw [h.others v hlt (ne_of_gt hv)]
  rfl

end OnePage

lemma userTables_of_empty {mem : PhysMem} {r : ℕ}
    (h : ∀ v < userPages, pageTables.tableAt mem r 1 v = none) : userTables mem r = 0 := by
  apply sum_eq_zero
  intro i hi
  apply Radix.tablesBelow_of_none
  exact h _ ((Radix.key_lt_key (lt_succ_self i)).trans_le (key_zero_le (mem_range.mp hi)))

lemma missingTables_of_empty {mem : PhysMem} {r page : ℕ} (hpage : page < userPages)
    (h : ∀ v < userPages, pageTables.tableAt mem r 1 v = none) : missingTables mem r page = 3 := by
  unfold missingTables
  rw [filter_true_of_mem, card_range]
  intro d hd
  exact Radix.tableAt_none_of_le (d := 1) (succ_le_succ (zero_le d)) (h page hpage)

lemma Kernel.first_live (vm : Vm) (q : Pid) : (Kernel.first vm).sched.liveRoot q = if q < 2 then some vm.vmmRoot else none := by
  match q with
  | 0 => rfl
  | 1 => rfl
  | q + 2 => rfl

lemma Kernel.first_onePage {s : Pmm} {M : PageMapper} {L : FreeLists} {out : Finset Block}
    {P : Set ℕ} {page flags : ℕ} (h : s.Inv L out P) (hb : ∀ a ∈ P, a < 2 ^ 52) (hM : M.Lawful)
    (hsome : s.allocOrder 0 ≠ none) (hpage : page < userPages) (hflags : MapFlags flags)
    (hok : ((Vm.boot s).addPage M page flags).1 = true) :
    ∃ f, Pte.IsFrame f ∧ OnePage (Kernel.first ((Vm.boot s).addPage M page flags).2)
      (Vm.boot s).vmmRoot page (f ||| flags) := by
  obtain ⟨L₁, out₁, h₁, h0, hempty⟩ := Vm.boot_refines h hb hsome
  obtain ⟨f, d, L', out', href, hf, _, hroot, htables⟩ := h₁.addPage hM (Set.mem_singleton _) hpage hflags hok
  have hlive := Kernel.first_live ((Vm.boot s).addPage M page flags).2
  rw [hroot] at hlive
  have htidy : (Kernel.first ((Vm.boot s).addPage M page flags).2).sched.Tidy := by
    refine ⟨?_, ?_⟩
    · intro q hq
      match q, hq with
      | q + 2, _ => rfl
    · intro q
      rw [hlive]
      split
      · exact fun hc => h0 (Option.some.inj hc)
      · exact (some_ne_none 0).symm
  have hentries : Kernel.liveEntries (Kernel.first ((Vm.boot s).addPage M page flags).2) =
      withRoot ∅ (Vm.boot s).vmmRoot userPages := by
    ext x
    rw [Kernel.mem_liveEntries, htidy.mem_liveRoots, mem_withRoot]
    simp only [hlive]
    constructor
    · intro hx
      obtain ⟨⟨q, hq⟩, hv⟩ := hx
      split at hq
      · exact .inr ⟨(Option.some.inj hq).symm, hv⟩
      · cases hq
    · intro hx
      obtain ⟨hr, hv⟩ := hx.resolve_left (notMem_empty x)
      exact ⟨⟨0, by rw [hr]; rfl⟩, hv⟩
  have hpte : ∀ v < userPages, ((Vm.boot s).addPage M page flags).2.space.pte ((Vm.boot s).vmmRoot, v) =
      _ := fun v hv => href.space_pte (x := ((Vm.boot s).vmmRoot, v)) (Set.mem_singleton _) hv
  have hu8 : ∀ f n, ((Vm.boot s).addPage M page flags).2.cowRefs f = some n → n ≤ 255 := by
    intro f n hn
    rw [href.refs] at hn
    cases hn
  refine ⟨f, hf, ⟨⟨L', out', P, {(Vm.boot s).vmmRoot}, ?_, ?_⟩, htidy, hu8⟩, hlive, rfl, hroot, hpage, ?_, ?_, ?_, href.refs, ?_⟩
  · exact Set.mem_singleton_iff.mpr hroot
  · rw [hentries]
    exact href.toSpace
  · exact (hpte page hpage).trans setPte_self
  · exact (Pte.testBit_or_flags hf (by decide)).trans hflags.present
  · intro v hv hne
    exact (hpte v hv).trans (setPte_ne (fun he => hne (Prod.mk.inj he).2))
  · rw [userTables_of_empty hempty, missingTables_of_empty hpage hempty] at htables
    exact htables

def Kernel.sample (start stop : ℕ) : Kernel :=
  Kernel.first ((Vm.boot (Pmm.init (fun _ _ => 0) [⟨start, stop, .usable⟩])).addPage PageMapper.plain 0
    (ptePresent ||| pteWritable ||| flagUser)).2

lemma mapFlags_writable : MapFlags (ptePresent ||| pteWritable ||| flagUser) := .of_lowFlags (by decide) (by decide) (by decide)

lemma Kernel.sample_onePage (start stop : ℕ) (ha : pageSize ∣ start) (hz : pageSize ∣ stop)
    (h0 : 0 < start) (hb : start ≤ 2 ^ 52) (hb' : stop ≤ 2 ^ 52)
    (hsome : ((Pmm.init (fun _ _ => 0) [⟨start, stop, .usable⟩]).allocOrder 0).isSome = true)
    (hok : ((Vm.boot (Pmm.init (fun _ _ => 0) [⟨start, stop, .usable⟩])).addPage PageMapper.plain 0
      (ptePresent ||| pteWritable ||| flagUser)).1 = true) :
    ∃ root w, OnePage (Kernel.sample start stop) root 0 w ∧ Pte.writable w = true ∧ Pte.cow w = false ∧ Pte.user w = true := by
  have hlay : UsableLayout [⟨start, stop, .usable⟩] := by
    constructor
    · intro r hr _
      obtain rfl := List.mem_singleton.mp hr
      exact ⟨ha, hz⟩
    · intro r hr _
      obtain rfl := List.mem_singleton.mp hr
      exact ⟨hb, hb'⟩
    · intro r hr _ hmem
      obtain rfl := List.mem_singleton.mp hr
      exact absurd hmem.1 (Nat.not_le_of_lt h0)
    · exact List.pairwise_singleton _ _
  obtain ⟨_, _, L, hinv, _⟩ := Pmm.init_spec (fun _ _ => 0) hlay
  have hbound : ∀ a ∈ usableBytes [⟨start, stop, .usable⟩], a < 2 ^ 52 := by
    intro a hmem
    obtain ⟨r, hr, _, har⟩ := hmem
    obtain rfl := List.mem_singleton.mp hr
    exact har.2.trans_le hb'
  obtain ⟨f, hf, hone⟩ := Kernel.first_onePage hinv hbound PageMapper.plain_lawful
    (isSome_iff_ne_none.mp hsome) (by decide) mapFlags_writable hok
  have hbit : ∀ i < 12, (f ||| (ptePresent ||| pteWritable ||| flagUser)).testBit i =
      (ptePresent ||| pteWritable ||| flagUser).testBit i := fun _ hi => Pte.testBit_or_flags hf hi
  exact ⟨_, _, hone, (hbit 1 (by decide)).trans (by decide), (hbit 9 (by decide)).trans (by decide),
    (hbit 2 (by decide)).trans (by decide)⟩

namespace Kernel

lemma sample_roomy : ∃ root w, OnePage (sample 0x20000 0x40000) root 0 w ∧ Pte.writable w = true ∧ Pte.cow w = false ∧
    Pte.user w = true := by
  refine sample_onePage 0x20000 0x40000 ⟨0x20, rfl⟩ ⟨0x40, rfl⟩ (by decide) (by decide) (by decide) ?_ ?_
  · decide +kernel
  · decide +kernel

lemma served_of_missing {k : Kernel} {root w : ℕ} (h : OnePage k root 0 w)
    (hmiss : missingTables k.vm.pmm.mem k.vm.vmmRoot vdsoPage = 3) (hserves : k.vm.pmm.serves 11 = true) :
    k.vm.pmm.serves (k.vm.forkNeed root) = true := by
  have hneed : k.vm.forkNeed root = 11 := by
    unfold Vm.forkNeed
    rw [hmiss, h.tables, h.bootRoot, if_pos rfl]
  rw [hneed]
  exact hserves

lemma sample_served {root w : ℕ} (h : OnePage (sample 0x20000 0x40000) root 0 w) :
    (sample 0x20000 0x40000).vm.pmm.serves ((sample 0x20000 0x40000).vm.forkNeed root) = true :=
  served_of_missing h (by decide +kernel) (by decide +kernel)

lemma sample_empty : (sample 0x1000 0x6000).vm.pmm.allocOrder 0 = none := by
  rw [← not_isSome_iff_eq_none]
  decide +kernel

/-- The first process, on `root`, and its child, on `c`, share one page. -/
structure Twins (k : Kernel) (root c w : ℕ) : Prop where
  safe : k.Safe ∅
  parent : k.sched.liveRoot 1 = some root
  child : k.sched.liveRoot 2 = some c
  ne : c ≠ root
  bootRoot : k.vm.vmmRoot = root
  parentWord : k.vm.space.pte (root, 0) = Pte.toCow w
  childWord : k.vm.space.pte (c, 0) = Pte.toCow w

lemma fork_twins {k : Kernel} {root w : ℕ} {M : PageMapper} (h : OnePage k root 0 w)
    (hM : M.Lawful) (hw : Pte.writable w = true) (hcow : Pte.cow w = false)
    (hserves : k.vm.pmm.serves (k.vm.forkNeed root) = true) (words : ℕ → ℕ) :
    ∃ c k', Step M k (.fork 1 words) k' ∧ Twins k' root c w := by
  obtain ⟨L, out, P, roots, hroot, href⟩ := h.wf.memory
  have hr : k.sched.liveRoot 1 = some root := h.live 1
  have hsafe := ((h.safe hcow).fork hM hr words h.room).1
  cases forkTask_outcome hM hr h.wf.tidy hroot href words with
  | inr hfail =>
    rw [hserves] at hfail
    cases hfail.1
  | inl hdone =>
    obtain ⟨_, c, k', L', out', σ', hrun, hf⟩ := hdone
    have hstep : Step M k (.fork 1 words) (k.forkTask M root words 1).2 := Step.fork hr
    rw [hrun] at hsafe hstep
    have hne : c ≠ root := fun he => hf.fresh (he ▸ h.bootRoot ▸ hroot)
    have hword : σ'.pte (root, 0) = w := by
      have hold : (k.vm.space.clearRoot c).pte (root, 0) = w := (clearRoot_ne hne.symm).trans h.word
      rw [← hold]
      apply hf.grows.pte_of_present
      rw [hold]
      exact h.present
    have hs : Space.Sharable (σ'.pte (root, 0)) := by
      rw [hword]
      exact ⟨h.present, .inl hw⟩
    have hp : ¬ Pte.present (σ'.pte (root, 0)) = false := by
      rw [hs.1]
      decide
    refine ⟨c, k', hstep, hsafe, ?_, ?_, hne, hf.root.trans h.bootRoot, ?_, ?_⟩
    · rw [hf.liveRoot, if_neg (by rw [h.next]; decide)]
      exact hr
    · rw [hf.liveRoot, if_pos h.next.symm]
    · rw [hf.refines.space_pte (Set.mem_insert_of_mem c (h.bootRoot ▸ hroot)) userPages_pos,
        shareAll_parent userPages_pos, if_pos hs, hword]
    · rw [hf.refines.space_pte (Set.mem_insert c roots) userPages_pos,
        shareAll_child userPages_pos, if_neg hp, if_pos hs, hword]

end Kernel
end NodeKernel
