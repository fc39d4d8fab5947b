import NodeKernel.Process.Execve

/-!
# One page for a process

`map_user_range` for a single page: a frame in reserve, or else a new one, is cleared and mapped in the
tables of the boot root.
-/
namespace NodeKernel
open Blocks Finset Nat

def userFlags (writable executable : Bool) : ℕ :=
  ptePresent ||| flagUser ||| (if writable then pteWritable else 0) ||| (if !executable then pteNx else 0)

lemma mapFlags_user (writable executable : Bool) : MapFlags (userFlags writable executable) := by
  refine ⟨by revert writable executable; decide, by revert writable executable; decide, ?_⟩
  intro i hi hlt
  have hlow : ∀ writable : Bool, (ptePresent ||| flagUser ||| (if writable then pteWritable else 0)).testBit i = false := by
    intro writable
    refine testBit_of_lowFlags ?_ hi
    revert writable
    decide
  have hnx : (if !executable then pteNx else 0).testBit i = false := by
    cases executable with
    | true => exact zero_testBit i
    | false => exact (Pte.testBit_flag 63 i).trans (decide_eq_false (by omega))
  unfold userFlags
  rw [testBit_or, hlow, hnx]
  rfl

section Word
variable {f : ℕ} {writable executable : Bool} (hf : Pte.IsFrame f)
include hf

lemma present_user : Pte.present (f ||| userFlags writable executable) = true :=
  (Pte.testBit_or_flags hf (by decide)).trans (mapFlags_user _ _).present

lemma frame_user : Pte.frame (f ||| userFlags writable executable) = f := Pte.frame_or_flags hf (mapFlags_user _ _).noAddr

lemma user_user : Pte.user (f ||| userFlags writable executable) = true := by
  refine (Pte.testBit_or_flags hf (by decide)).trans ?_
  revert writable executable
  decide

lemma writable_user : Pte.writable (f ||| userFlags writable executable) = writable := by
  refine (Pte.testBit_or_flags hf (by decide)).trans ?_
  revert writable executable
  decide

lemma cow_user : Pte.cow (f ||| userFlags writable executable) = false := by
  refine (Pte.testBit_or_flags hf (by decide)).trans ?_
  revert writable executable
  decide

lemma nx_user : (f ||| userFlags writable executable).testBit 63 = !executable := by
  rw [testBit_or, hf.testBit_low (.inr (by decide)), Bool.false_or]
  revert writable executable
  decide

end Word

namespace Vm

/-- A frame has been taken, from a reserve or from the allocator, and cleared. -/
structure ClearFrame (vm : Vm) (P roots : Set ℕ) (E : Finset Entry) (S : Finset ℕ) (σ : Space)
    (f : ℕ) (vm' : Vm) (L' : FreeLists) (out' : Finset Block) : Prop where
  refines : vm'.Refines L' out' P roots E S σ
  held : blockAt f 0 ∈ out'
  noTable : ¬ pageTables.IsTable vm'.pmm.mem roots userPages f
  unmapped : ∀ y ∈ E, ¬ σ.Maps y f
  unspared : f ∉ S
  zero : ∀ i, vm'.pmm.mem f i = 0
  root : vm'.vmmRoot = vm.vmmRoot
  kept : ∀ a ∈ S, ∀ i, vm'.pmm.mem a i = vm.pmm.mem a i
  spent : ∃ n ≤ 1, Pmm.Spent vm.pmm n vm'.pmm
  walks : ∀ r ∈ roots, ∀ d ≤ 3, ∀ v < userPages,
    pageTables.tableAt vm'.pmm.mem r d v = pageTables.tableAt vm.pmm.mem r d v

structure PageGiven (vm : Vm) (P roots : Set ℕ) (E : Finset Entry) (S : Finset ℕ) (σ : Space)
    (page flags f : ℕ) (vm' : Vm) : Prop where
  refines : ∃ L' out', vm'.Refines L' out' P roots E S
    ((σ.setData f (fun _ => 0)).setPte (vm.vmmRoot, page) (f ||| flags))
  isFrame : Pte.IsFrame f
  unmapped : ∀ y ∈ E, ¬ σ.Maps y f
  unused : σ.pte (vm.vmmRoot, page) = 0
  root : vm'.vmmRoot = vm.vmmRoot
  kept : ∀ a ∈ S, ∀ i, vm'.pmm.mem a i = vm.pmm.mem a i
  spent : ∃ n ≤ 1, Pmm.Spent vm.pmm (n + missingTables vm.pmm.mem vm.vmmRoot page) vm'.pmm

/-- The page could not be mapped: its entry is in use, or memory has run out. -/
structure PageRefused (vm : Vm) (P roots : Set ℕ) (E : Finset Entry) (S : Finset ℕ) (σ : Space)
    (page : ℕ) (vm' : Vm) : Prop where
  refines : ∃ L' out', vm'.Refines L' out' P roots E S σ
  root : vm'.vmmRoot = vm.vmmRoot
  kept : ∀ a ∈ S, ∀ i, vm'.pmm.mem a i = vm.pmm.mem a i
  cause : σ.pte (vm.vmmRoot, page) ≠ 0 ∨ ∃ n ≤ 1 + missingTables vm.pmm.mem vm.vmmRoot page,
    Pmm.Spent vm.pmm n vm'.pmm ∧ vm'.pmm.allocOrder 0 = none

variable {vm vm' : Vm} {M : PageMapper} {L : FreeLists} {out : Finset Block} {P roots : Set ℕ}
  {E : Finset Entry} {S : Finset ℕ} {σ : Space} {page f flags : ℕ}

lemma Refines.clearSpare (h : vm.Refines L out P roots E S σ) (hf : f ∈ S) :
    ClearFrame vm P roots E (S.erase f) σ f (vm.withMem (vm.pmm.mem.zeroPage f)) L out := by
  obtain ⟨hout, hnot, hun⟩ := h.spare f hf
  have hsame : ∀ a, a ≠ f → ∀ i, vm.pmm.mem.zeroPage f a i = vm.pmm.mem a i := fun a ha i => if_neg ha
  obtain ⟨href, htabs⟩ := h.remem (.inr hout) hnot hun hsame
  refine ⟨href.mono_spare (erase_subset f S), hout, ?_, hun, notMem_erase f S,
    fun _ => if_pos rfl, rfl, ?_, ⟨0, zero_le _, ?_⟩, ?_⟩
  · exact fun ht => hnot (htabs ▸ ht)
  · exact fun a ha => hsame a (ne_of_mem_erase ha)
  · exact (Pmm.Spent.refl vm.pmm).congr h.tables.inv href.tables.inv
  · intro r hr d hd v hv
    exact Radix.tableAt_of_same hr hv hd (fun t ht => hsame t (fun he => hnot (he ▸ ht)))

lemma Refines.clearNew (h : vm.Refines L out P roots E S σ) (hrun : vm.allocFrame = some (f, vm')) :
    f ∉ S ∧ ∃ L', ClearFrame vm P roots E S σ f (vm'.withMem (vm'.pmm.mem.zeroPage f)) L' (insert (blockAt f 0) out) := by
  obtain ⟨L', hn⟩ := h.allocFill hrun (vm'.pmm.mem.zeroPage f) (fun a ha i => if_neg ha)
  refine ⟨hn.unspared, L', hn.refines, mem_insert_self _ _, hn.fresh.noTable, hn.fresh.unmapped,
    hn.unspared, fun _ => if_pos rfl, hn.root, ?_, ⟨1, le_refl 1, hn.spent⟩, hn.walks⟩
  exact fun a ha => hn.kept a (.inr (h.spare a ha).1)

lemma ClearFrame.mapPage {L' : FreeLists} {out' : Finset Block}
    (h : ClearFrame vm P roots E S σ f vm' L' out') (hM : M.Lawful) (hroot : vm.vmmRoot ∈ roots)
    (hpage : page < userPages) (hflags : MapFlags flags) : ((vm'.mapPage M page f flags).1 = true ∧
      PageGiven vm P roots E S σ page flags f (vm'.mapPage M page f flags).2) ∨ ((vm'.mapPage M page f flags).1 = false ∧
      PageRefused vm P roots E S σ page (vm'.mapPage M page f flags).2) := by
  obtain ⟨L₁, out₁, hm⟩ := h.refines.mapPage hM (h.root.symm ▸ hroot) hpage h.held h.noTable h.unmapped
    h.unspared hflags
  have hkept : ∀ a ∈ S, ∀ i, (vm'.mapPage M page f flags).2.pmm.mem a i = vm.pmm.mem a i := by
    intro a ha i
    obtain ⟨hb, hno, _⟩ := h.refines.spare a ha
    rw [hm.kept a (.inr hb) hno i]
    exact h.kept a ha i
  have hmiss : missingTables vm'.pmm.mem vm'.vmmRoot page = missingTables vm.pmm.mem vm.vmmRoot page := by
    rw [h.root]
    exact missingTables_congr (fun d hd => h.walks _ hroot d hd page hpage)
  have hzero : vm'.pmm.mem f = fun _ => 0 := funext h.zero
  obtain ⟨n, hle, hspent, _, hshort, hall⟩ := hm.taken
  obtain ⟨k, hk, hspent₀⟩ := h.spent
  have hspent' := hspent₀.trans hspent
  have href := hm.refines
  have hunused := hm.unused
  rw [hmiss] at hle hshort hall
  rw [h.root] at hall href hunused
  cases hok : (vm'.mapPage M page f flags).1 with
  | true =>
    rw [hok, if_pos rfl, hzero] at href
    have hn : n = missingTables vm.pmm.mem vm.vmmRoot page := by
      cases lt_or_eq_of_le hle with
      | inr he => exact he
      | inl hlt =>
        have hfalse := (hshort hlt).1
        rw [hok] at hfalse
        cases hfalse
    refine .inl ⟨rfl, ⟨L₁, out₁, href⟩, h.refines.tables.inv.isFrame h.refines.tables.bounded h.held,
      h.unmapped, hunused hok, hm.root.trans h.root, hkept, ⟨k, hk, ?_⟩⟩
    rw [← hn]
    exact hspent'
  | false =>
    rw [hok, if_neg Bool.false_ne_true] at href
    refine .inr ⟨rfl, ⟨L₁, out₁, href⟩, hm.root.trans h.root, hkept, ?_⟩
    rcases lt_or_eq_of_le hle with hlt | he
    · exact .inr ⟨k + n, by omega, hspent', (hshort hlt).2⟩
    · refine .inl (fun hpte => ?_)
      rw [hall he hpte] at hok
      cases hok

lemma PageRefused.not_serves (h : PageRefused vm P roots E S σ page vm') (hunused : σ.pte (vm.vmmRoot, page) = 0) {n : ℕ}
    (hn : 1 + missingTables vm.pmm.mem vm.vmmRoot page ≤ n) : vm.pmm.serves n = false := by
  obtain ⟨L', out', href⟩ := h.refines
  rcases h.cause with hused | hout
  · exact absurd hunused hused
  · obtain ⟨k, hk, hspent, hnone⟩ := hout
    exact hspent.not_serves href.tables.inv hnone (hk.trans hn)

lemma PageGiven.le_listedPages (h : PageGiven vm P roots E S σ page flags f vm') {n : ℕ}
    (hserves : vm.pmm.serves (n + 1 + missingTables vm.pmm.mem vm.vmmRoot page) = true) : n ≤ vm'.pmm.listedPages := by
  obtain ⟨L', out', href⟩ := h.refines
  obtain ⟨k, hk, hspent⟩ := h.spent
  have hleft : vm'.pmm.serves (n + (1 - k)) = true := by
    rw [← hspent, ← hserves]
    congr 1
    omega
  exact (le_add_right _ _).trans (href.tables.inv.le_listedPages hleft)

end Vm

namespace ExecMem
variable {m : ExecMem} {M : PageMapper} {L : FreeLists} {out : Finset Block} {P roots : Set ℕ}
  {E : Finset Entry} {S : Finset ℕ} {σ : Space} {page : ℕ}

/-- `f` was the first frame in reserve, or is none of those set aside. -/
def Drawn (S : Finset ℕ) (reserve : List ℕ) (f : ℕ) (reserve' : List ℕ) : Prop :=
  reserve = f :: reserve' ∨ (f ∉ S ∧ reserve' = reserve)

lemma allocFramePredictive_spec (h : m.vm.Refines L out P roots E S σ) (hres : ∀ f ∈ m.reserve, f ∈ S) :
    (m.allocFramePredictive = none ∧ m.vm.allocFrame = none) ∨
    ∃ f m' L' out', m.allocFramePredictive = some (f, m') ∧ Drawn S m.reserve f m'.reserve ∧
      m.vm.ClearFrame P roots E (S.erase f) σ f (m'.vm.withMem (m'.vm.pmm.mem.zeroPage f)) L' out' := by
  unfold allocFramePredictive
  cases hr : m.reserve with
  | cons f reserve =>
    have hf : f ∈ S := hres f (by rw [hr]; exact List.mem_cons_self)
    exact .inr ⟨f, _, L, out, rfl, .inl rfl, h.clearSpare hf⟩
  | nil =>
    cases ha : m.vm.allocFrame with
    | none => exact .inl ⟨rfl, rfl⟩
    | some q =>
      obtain ⟨f, vm'⟩ := q
      obtain ⟨hf, L', hc⟩ := h.clearNew ha
      rw [← erase_eq_of_notMem hf] at hc
      exact .inr ⟨f, ⟨vm', []⟩, L', _, rfl, .inr ⟨hf, rfl⟩, hc⟩

lemma mapUserRange_page (h : m.vm.Refines L out P roots E S σ) (hM : M.Lawful)
    (hroot : m.vm.vmmRoot ∈ roots) (hres : ∀ f ∈ m.reserve, f ∈ S)
    (hpage : page / pageSize < userPages) (writable executable : Bool) :
    ∃ f ok m', m.mapUserRange M page pageSize writable executable = some (ok, m') ∧ Drawn S m.reserve f m'.reserve ∧
      ((ok = true ∧ m.vm.PageGiven P roots E (S.erase f) σ (page / pageSize) (userFlags writable executable) f m'.vm) ∨
        (ok = false ∧ m.vm.PageRefused P roots E (S.erase f) σ (page / pageSize) m'.vm)) := by
  have hvpn : page >>> 12 &&& 0xFFFFFFFFF = page / pageSize := by
    rw [shiftRight_eq_div_pow, show 0xFFFFFFFFF = 2 ^ 36 - 1 from rfl, and_two_pow_sub_one_eq_mod]
    unfold pageSize userPages at *
    omega
  have hcanon : canonical page = true := by
    unfold canonical pageSize userPages at *
    exact decide_eq_true (.inl (by omega))
  have hone : m.mapUserRange M page pageSize writable executable = mapPages M (userFlags writable executable) 1 page m := rfl
  rw [hone, mapPages]
  rcases allocFramePredictive_spec h hres with ⟨hnone, hout⟩ | ⟨f, m', L', out', hsome, hdrawn, hc⟩
  · have hzero : 0 ∉ S := fun h0 => h.tables.inv.base_ne_zero (h.spare 0 h0).1 rfl
    rw [hnone]
    refine ⟨0, false, m, rfl, .inr ⟨hzero, rfl⟩, .inr ⟨rfl, ⟨L, out, ?_⟩, rfl, fun _ _ _ => rfl, ?_⟩⟩
    · exact h.mono_spare (erase_subset 0 S)
    · exact .inr ⟨0, zero_le _, Pmm.Spent.refl _, Vm.allocFrame_none.mp hout⟩
  · rw [hsome]
    dsimp only
    rw [hcanon, hvpn, Bool.not_true, if_neg Bool.false_ne_true]
    rcases hc.mapPage hM hroot hpage (mapFlags_user writable executable) with ⟨hok, hgiven⟩ | ⟨hok, hrefused⟩
    · rw [hok, if_pos rfl]
      exact ⟨f, true, _, rfl, hdrawn, .inl ⟨rfl, hgiven⟩⟩
    · rw [hok, if_neg Bool.false_ne_true]
      exact ⟨f, false, _, rfl, hdrawn, .inr ⟨rfl, hrefused⟩⟩

end ExecMem
end NodeKernel
