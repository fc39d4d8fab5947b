import NodeKernel.Process.ElfConfinement
import NodeKernel.Process.UserImage

/-!
# What is in memory after an image is loaded

Segments are mapped one after another, on whole pages. A page that two of them need is refused to the second, and the
kernel cannot fill a page that it has mapped for reading only or in another address space.
-/
namespace NodeKernel

open Nat PageMapper ByteMem Elf

namespace LoadedSegment
variable {here : Prop} {bias : ℕ} {seg : LoadedSegment} {segs : List LoadedSegment} {taken : Set ℕ} {i : ℕ}

def pageRange (bias : ℕ) (seg : LoadedSegment) : Set ℕ :=
  Set.Ico ((bias + seg.vaddr) / pageSize) ((bias + seg.vaddr) / pageSize + seg.pages bias)

def Writable (seg : LoadedSegment) : Prop := seg.flags &&& 2 ≠ 0

instance (seg : LoadedSegment) : Decidable seg.Writable := inferInstanceAs (Decidable (_ ≠ _))

/-- The kernel can put the bytes on the pages; `here` says that these are mapped where it writes. -/
def Fillable (here : Prop) (seg : LoadedSegment) : Prop :=
  seg.data.length ≤ seg.memsz ∧ (0 < seg.memsz → here ∧ seg.Writable)

/-- Every segment can be filled, and has its pages for itself. -/
def Loadable (here : Prop) (bias : ℕ) : Set ℕ → List LoadedSegment → Prop
  | _, [] => True
  | taken, seg :: segs => Disjoint (seg.pageRange bias) taken ∧ seg.Fillable here ∧
      Loadable here bias (taken ∪ seg.pageRange bias) segs

/-- The segments before the first that meets a page that is taken can be filled. -/
def FaultFree (here : Prop) (bias : ℕ) : Set ℕ → List LoadedSegment → Prop
  | _, [] => True
  | taken, seg :: segs => Disjoint (seg.pageRange bias) taken →
      seg.Fillable here ∧ FaultFree here bias (taken ∪ seg.pageRange bias) segs

lemma loadable_iff : Loadable here bias taken segs ↔ (∀ seg ∈ segs, Disjoint (seg.pageRange bias) taken) ∧
    segs.Pairwise (fun a b => Disjoint (a.pageRange bias) (b.pageRange bias)) ∧ ∀ seg ∈ segs, seg.Fillable here := by
  induction segs generalizing taken with
  | nil => simp [Loadable]
  | cons seg segs ih =>
    rw [Loadable, ih, List.forall_mem_cons, List.pairwise_cons, List.forall_mem_cons]
    simp only [Set.disjoint_union_right]
    constructor
    · rintro ⟨hd, hf, hrest, hpair, hfill⟩
      exact ⟨⟨hd, fun s hs => (hrest s hs).1⟩, ⟨fun s hs => (hrest s hs).2.symm, hpair⟩, hf, hfill⟩
    · rintro ⟨⟨hd, hrest⟩, ⟨hfirst, hpair⟩, hf, hfill⟩
      exact ⟨hd, hf, fun s hs => ⟨hrest s hs, (hfirst s hs).symm⟩, hpair, hfill⟩

lemma Loadable.faultFree (h : Loadable here bias taken segs) : FaultFree here bias taken segs := by
  induction segs generalizing taken with
  | nil => trivial
  | cons seg segs ih => exact fun _ => ⟨h.2.1, ih h.2.2⟩

lemma byte_mem_pageRange (hi : i < seg.memsz) : (bias + seg.vaddr + i) / pageSize ∈ seg.pageRange bias := by
  have hend := seg.end_le_high bias
  refine ⟨Nat.div_le_div_right (Nat.le_add_right _ _), Nat.div_lt_of_lt_mul ?_⟩
  rw [Nat.mul_comm, Nat.add_mul]
  exact lt_of_lt_of_le (Nat.add_lt_add_left hi _) hend

def contents (seg : LoadedSegment) : List UInt8 := seg.data ++ List.replicate (seg.memsz - seg.data.length) 0

lemma length_contents (h : seg.data.length ≤ seg.memsz) : seg.contents.length = seg.memsz := by
  unfold contents
  rw [List.length_append, List.length_replicate, Nat.add_sub_cancel' h]

lemma getElem_contents (hi : i < seg.contents.length) : seg.contents[i] = seg.data.getD i 0 := by
  unfold contents at hi ⊢
  by_cases hdata : i < seg.data.length
  · rw [List.getElem_append_left hdata, List.getD_eq_getElem _ _ hdata]
  · rw [List.getElem_append_right (not_lt.mp hdata), List.getElem_replicate, List.getD_eq_default _ _ (not_lt.mp hdata)]

end LoadedSegment

namespace UserImage
open LoadedSegment
variable {A A' B : UserImage} {here : Prop} {p n bias : ℕ} {w : Bool} {seg : LoadedSegment} {segs : List LoadedSegment}

def empty : UserImage := ⟨fun _ => none, fun _ => 0⟩

lemma taken_empty : empty.taken = ∅ := Set.eq_empty_of_forall_notMem (fun _ hv => hv rfl)

lemma taken_addPages : (A.addPages p n w).taken = A.taken ∪ Set.Ico p (p + n) := by
  ext v
  rw [Set.mem_union]
  change (A.addPages p n w).page v ≠ none ↔ A.page v ≠ none ∨ (p ≤ v ∧ v < p + n)
  by_cases hv : p ≤ v ∧ v < p + n
  · rw [addPages_page_of_lt hv.1 hv.2]
    simp [hv]
  · rw [addPages_page_of_not hv]
    simp [hv]

def loadSegment (A : UserImage) (bias : ℕ) (seg : LoadedSegment) : UserImage :=
  (A.addPages ((bias + seg.vaddr) / pageSize) (seg.pages bias) (seg.flags &&& 2 != 0)).store (bias + seg.vaddr) seg.contents

def loadSegments (A : UserImage) (bias : ℕ) (segs : List LoadedSegment) : UserImage :=
  segs.foldl (fun A seg => A.loadSegment bias seg) A

lemma taken_loadSegment : (A.loadSegment bias seg).taken = A.taken ∪ seg.pageRange bias := taken_addPages

lemma taken_loadSegments : (A.loadSegments bias segs).taken = A.taken ∪ {v | ∃ seg ∈ segs, v ∈ seg.pageRange bias} := by
  induction segs generalizing A with
  | nil => simp [loadSegments]
  | cons seg segs ih =>
    change ((A.loadSegment bias seg).loadSegments bias segs).taken = _
    rw [ih, taken_loadSegment, Set.union_assoc]
    congr 1
    ext v
    simp only [Set.mem_union, Set.mem_ofPred_eq, List.mem_cons, exists_eq_or_imp]

lemma disjoint_iff_free : Disjoint (seg.pageRange bias) A.taken ↔
    ∀ i < seg.pages bias, A.page ((bias + seg.vaddr) / pageSize + i) = none := by
  rw [Set.disjoint_left]
  constructor
  · intro hd i hi
    by_contra hne
    exact hd ⟨Nat.le_add_right _ _, Nat.add_lt_add_left hi _⟩ hne
  · rintro hfree v ⟨hlow, hhigh⟩ hused
    have hnone := hfree (v - (bias + seg.vaddr) / pageSize) (by omega)
    rw [Nat.add_sub_cancel' hlow] at hnone
    exact hused hnone

lemma extends_loadSegment (hd : Disjoint (seg.pageRange bias) A.taken) (hfits : seg.data.length ≤ seg.memsz) :
    A.Extends (A.loadSegment bias seg) := by
  have hadd := extends_addPages (w := seg.flags &&& 2 != 0) (disjoint_iff_free.mp hd)
  refine ⟨hadd.page, fun a ha => (store_outside ?_).trans (hadd.bytes a ha)⟩
  rw [length_contents hfits]
  by_contra hin
  refine Set.disjoint_left.mp hd ?_ ha
  have hbyte : (bias + seg.vaddr + (a - (bias + seg.vaddr))) / pageSize ∈ seg.pageRange bias := byte_mem_pageRange (by omega)
  rwa [Nat.add_sub_cancel' (by omega)] at hbyte

lemma extends_loadSegments (hl : Loadable here bias A.taken segs) : A.Extends (A.loadSegments bias segs) := by
  induction segs generalizing A with
  | nil => exact Extends.refl A
  | cons seg segs ih =>
    obtain ⟨hd, hf, hrest⟩ := hl
    rw [← taken_loadSegment] at hrest
    exact (extends_loadSegment hd hf.1).trans (ih hrest)

lemma loadSegments_bytes (hl : Loadable here bias A.taken segs) (hseg : seg ∈ segs) {i : ℕ} (hi : i < seg.memsz) :
    (A.loadSegments bias segs).bytes (bias + seg.vaddr + i) = seg.data.getD i 0 := by
  induction segs generalizing A with
  | nil => cases hseg
  | cons s segs ih =>
    obtain ⟨hd, hf, hrest⟩ := hl
    rw [← taken_loadSegment] at hrest
    obtain rfl | hlater := List.mem_cons.mp hseg
    · have hlen : i < seg.contents.length := by rwa [length_contents hf.1]
      have hkept := (extends_loadSegments hrest).bytes (bias + seg.vaddr + i)
        (taken_loadSegment ▸ .inr (byte_mem_pageRange hi))
      refine hkept.trans ?_
      change ByteMem.store _ _ _ _ = _
      rw [store_inside hlen, getElem_contents]
    · exact ih hrest hlater

end UserImage

namespace ExecMem
variable {m : ExecMem} {root addr : ℕ} {bytes : List UInt8}

lemma writeBytes_append (xs ys : List UInt8) : m.writeBytes root addr (xs ++ ys) =
    (m.writeBytes root addr xs).bind (fun m => m.writeBytes root (addr + xs.length) ys) := by
  induction xs generalizing addr m with
  | nil => rfl
  | cons b xs ih =>
    rw [List.cons_append, writeBytes, writeBytes]
    cases m.writeByte root addr b with
    | none => rfl
    | some m =>
      simp only
      rw [ih, List.length_cons, add_assoc, add_comm 1]

lemma writeBytes_across (hlow : addr ≤ 2 ^ 47) (hhigh : 2 ^ 47 < addr + bytes.length) :
    m.writeBytes root addr bytes = none := by
  induction bytes generalizing addr m with
  | nil =>
    rw [List.length_nil] at hhigh
    omega
  | cons b bytes ih =>
    rw [writeBytes]
    cases hw : m.writeByte root addr b with
    | none => rfl
    | some m' =>
      have hne : addr ≠ 2 ^ 47 := by
        rintro rfl
        unfold writeByte translate at hw
        rw [if_pos (by decide)] at hw
        cases hw
      rw [List.length_cons] at hhigh
      exact ih (by omega) (by omega)

def fillSegment (m : ExecMem) (root vaddr : ℕ) (seg : LoadedSegment) : Option ExecMem :=
  (m.writeBytes root vaddr seg.data).bind (fun m => m.writeBytes root ((vaddr + seg.data.length) % 2 ^ 64)
    (List.replicate ((seg.memsz + 2 ^ 64 - seg.data.length) % 2 ^ 64) 0))

variable {vaddr : ℕ} {seg : LoadedSegment}

lemma fillSegment_eq (hfits : seg.data.length ≤ seg.memsz) (huser : vaddr + seg.memsz ≤ 2 ^ 47) :
    m.fillSegment root vaddr seg = m.writeBytes root vaddr seg.contents := by
  have hlen : (seg.memsz + 2 ^ 64 - seg.data.length) % 2 ^ 64 = seg.memsz - seg.data.length := by
    rw [Nat.add_comm, Nat.add_sub_assoc hfits, add_mod_left]
    exact mod_eq_of_lt (by omega)
  unfold fillSegment LoadedSegment.contents
  rw [writeBytes_append, hlen, mod_eq_of_lt (show vaddr + seg.data.length < 2 ^ 64 by omega)]

lemma fillSegment_overfull (hover : seg.memsz < seg.data.length) (hlow : vaddr ≤ 2 ^ 47) :
    m.fillSegment root vaddr seg = none := by
  unfold fillSegment
  by_cases hacross : 2 ^ 47 < vaddr + seg.data.length
  · rw [writeBytes_across hlow hacross]
    rfl
  · rw [Option.bind_eq_none_iff]
    intro m' _
    refine writeBytes_across ?_ ?_
    · rw [mod_eq_of_lt (by omega)]
      omega
    · rw [List.length_replicate, mod_eq_of_lt (by omega), mod_eq_of_lt (by omega)]
      omega

lemma match_fill {r : Option (Bool × ExecMem)} {bss : ℕ} {data rest : List UInt8} : (match r with
      | none => none
      | some (false, m) => some (false, m)
      | some (true, m) =>
        match m.writeBytes root vaddr data with
        | none => none
        | some m => (m.writeBytes root bss rest).map (fun m => (true, m))) =
      match r with
      | none => none
      | some (false, m) => some (false, m)
      | some (true, m) =>
        ((m.writeBytes root vaddr data).bind (fun m => m.writeBytes root bss rest)).map (fun m => (true, m)) := by
  rcases r with _ | ⟨_ | _, m⟩
  · rfl
  · rfl
  · dsimp only
    cases m.writeBytes root vaddr data with
    | none => rfl
    | some m => rfl

lemma loadSegment_eq {M : PageMapper} {bias : ℕ} (huser : bias + seg.vaddr + seg.memsz ≤ 2 ^ 47) :
    m.loadSegment M root ((bias + seg.vaddr) % 2 ^ 64) seg =
      match mapPages M (userFlags (seg.flags &&& 2 != 0) (seg.flags &&& 1 != 0)) (seg.pages bias)
        ((bias + seg.vaddr) / pageSize * pageSize) m with
      | none => none
      | some (false, m) => some (false, m)
      | some (true, m) => (m.fillSegment root (bias + seg.vaddr) seg).map (fun m => (true, m)) := by
  have hsize : seg.pages bias * pageSize + pageSize < 2 ^ 64 := by
    unfold LoadedSegment.pages
    simp only [pageSize]
    omega
  unfold loadSegment mapUserRange fillSegment
  rw [mod_eq_of_lt (show bias + seg.vaddr < 2 ^ 64 by omega)]
  simp only [seg.pageOffset_eq, seg.totalSize_eq bias hsize, seg.pageCount_eq]
  exact match_fill

end ExecMem

namespace LoadSite
open LoadedSegment
variable {K : LoadSite} {m : ExecMem} {A : UserImage} {bias k : ℕ} {seg : LoadedSegment} {segs : List LoadedSegment}

lemma open_empty (m : ExecMem) : K.Open m .empty := fun _ hv => by cases hv

/-- The segments are in the user half, and the load is about their pages. -/
structure Hosts (K : LoadSite) (bias : ℕ) (segs : List LoadedSegment) : Prop where
  user : ∀ seg ∈ segs, bias + seg.vaddr + seg.memsz ≤ 2 ^ 47
  targets : ∀ seg ∈ segs, seg.pageRange bias ⊆ K.targets

lemma Hosts.tail (h : K.Hosts bias (seg :: segs)) : K.Hosts bias segs :=
  ⟨fun s hs => h.user s (List.mem_cons_of_mem _ hs), fun s hs => h.targets s (List.mem_cons_of_mem _ hs)⟩

lemma Holds.fillSegment (h : K.Holds m A) (ho : K.Open m A) (hf : seg.Fillable (K.active = K.boot))
    (huser : bias + seg.vaddr + seg.memsz ≤ 2 ^ 47)
    (hpages : ∀ v ∈ seg.pageRange bias, A.page v = some (seg.flags &&& 2 != 0)) :
    ∃ m', m.fillSegment K.active (bias + seg.vaddr) seg = some m' ∧ K.Holds m' (A.store (bias + seg.vaddr) seg.contents) ∧
      K.Open m' (A.store (bias + seg.vaddr) seg.contents) ∧ ∀ k, m'.vm.pmm.serves k = m.vm.pmm.serves k := by
  have hlen := length_contents hf.1
  rw [ExecMem.fillSegment_eq hf.1 huser]
  obtain hzero | hpos := Nat.eq_zero_or_pos seg.memsz
  · have hnil : seg.contents = [] := List.eq_nil_of_length_eq_zero (hlen.trans hzero)
    have hsame : A.store (bias + seg.vaddr) [] = A := by
      unfold UserImage.store
      rw [store_nil]
    rw [hnil, hsame]
    exact ⟨m, rfl, h, ho, fun _ => rfl⟩
  · obtain ⟨hhere, hw⟩ := hf.2 hpos
    rw [hhere]
    refine h.writeBytes ho (by rwa [hlen]) (fun i hi => ?_)
    rw [hpages _ (byte_mem_pageRange (hlen ▸ hi)), bne_iff_ne.mpr hw]

lemma Holds.fillSegment_faults (h : K.Holds m A) (hf : ¬ seg.Fillable (K.active = K.boot))
    (huser : bias + seg.vaddr + seg.memsz ≤ 2 ^ 47) (htargets : seg.pageRange bias ⊆ K.targets)
    (hpages : ∀ v ∈ seg.pageRange bias, A.page v = some (seg.flags &&& 2 != 0)) :
    m.fillSegment K.active (bias + seg.vaddr) seg = none := by
  by_cases hfits : seg.data.length ≤ seg.memsz
  · have hno : ¬ (0 < seg.memsz → K.active = K.boot ∧ seg.Writable) := fun hc => hf ⟨hfits, hc⟩
    obtain ⟨hpos, hno⟩ := Classical.not_imp.mp hno
    have hlen := length_contents hfits
    have hfirst : (bias + seg.vaddr + 0) / pageSize ∈ seg.pageRange bias := byte_mem_pageRange hpos
    rw [add_zero] at hfirst
    rw [ExecMem.fillSegment_eq hfits huser]
    cases hc : seg.contents with
    | nil =>
      rw [hc, List.length_nil] at hlen
      omega
    | cons b bytes =>
      -- already the first byte is refused
      rw [ExecMem.writeBytes, h.writeByte_faults (by omega) (htargets hfirst) (fun hhere => ?_)]
      rw [hpages _ hfirst]
      intro hw
      exact hno ⟨hhere, bne_iff_ne.mp (Option.some.inj hw)⟩
  · exact ExecMem.fillSegment_overfull (not_le.mp hfits) (by omega)

variable (hhosts : K.Hosts bias (seg :: segs))
include hhosts

/-- A segment with pages of its own is loaded, if it can be filled. -/
theorem Holds.loadSegment (h : K.Holds m A) (ho : K.Open m A) (hs : m.vm.pmm.serves k = true)
    (hk : 4 * seg.pages bias ≤ k) : K.Attempt A (A.loadSegment bias seg) k (seg.pages bias)
      (Disjoint (seg.pageRange bias) A.taken ∧ seg.Fillable (K.active = K.boot))
      (Disjoint (seg.pageRange bias) A.taken → seg.Fillable (K.active = K.boot))
      (m.loadSegment K.M K.active ((bias + seg.vaddr) % 2 ^ 64) seg) := by
  have huser := hhosts.user seg List.mem_cons_self
  have htargets := hhosts.targets seg List.mem_cons_self
  rw [ExecMem.loadSegment_eq huser]
  have hmap := h.mapPages (w := seg.flags &&& 2 != 0) (x := seg.flags &&& 1 != 0) ho
    (fun i hi => htargets ⟨Nat.le_add_right _ _, Nat.add_lt_add_left hi _⟩) hs hk
  rw [← UserImage.disjoint_iff_free] at hmap
  generalize ExecMem.mapPages K.M _ _ _ m = r at hmap ⊢
  cases hmap with
  | @done m₁ k₁ hd h₁ ho₁ hs₁ hk₁ =>
    have hpages : ∀ v ∈ seg.pageRange bias, _ = some (seg.flags &&& 2 != 0) :=
      fun v hv => UserImage.addPages_page_of_lt (A := A) hv.1 hv.2
    dsimp only
    by_cases hf : seg.Fillable (K.active = K.boot)
    · obtain ⟨m', hfill, h', ho', hs'⟩ := h₁.fillSegment ho₁ hf huser hpages
      rw [hfill]
      exact .done ⟨hd, hf⟩ h' ho' ((hs' k₁).trans hs₁) hk₁
    · rw [h₁.fillSegment_faults hf huser htargets hpages]
      exact .fault (fun hc => hf hc.2) (fun hfree => hf (hfree hd))
  | refused hd _ h' hext => exact .refused (fun hc => hd hc.1) (fun hc => absurd hc hd) h' hext
  | fault _ hfault => exact absurd trivial hfault

omit hhosts

def pageCount (bias : ℕ) (segs : List LoadedSegment) : ℕ := (segs.map (LoadedSegment.pages bias)).sum

lemma pageCount_cons : pageCount bias (seg :: segs) = seg.pages bias + pageCount bias segs := rfl

lemma Holds.loadSegments (hhosts : K.Hosts bias segs) (h : K.Holds m A) (ho : K.Open m A)
    (hs : m.vm.pmm.serves k = true) (hk : 4 * pageCount bias segs ≤ k) :
    K.Attempt A (A.loadSegments bias segs) k (pageCount bias segs) (Loadable (K.active = K.boot) bias A.taken segs)
      (FaultFree (K.active = K.boot) bias A.taken segs) (ExecMem.loadSegments K.M K.active bias segs m) := by
  induction segs generalizing m A k with
  | nil => exact .done trivial h ho hs (by omega)
  | cons seg segs ih =>
    rw [pageCount_cons] at hk ⊢
    have hseg := h.loadSegment hhosts ho hs (by omega)
    rw [ExecMem.loadSegments]
    generalize m.loadSegment K.M K.active ((bias + seg.vaddr) % 2 ^ 64) seg = r at hseg ⊢
    cases hseg with
    | done hok h₁ ho₁ hs₁ hk₁ =>
      obtain ⟨hd, hf⟩ := hok
      refine (ih hhosts.tail h₁ ho₁ hs₁ (by omega)).trans (UserImage.extends_loadSegment hd hf.1) hk₁ ?_ ?_
      · rw [UserImage.taken_loadSegment]
        exact ⟨fun hl => hl.2.2, fun hl => ⟨hd, hf, hl⟩⟩
      · rw [UserImage.taken_loadSegment]
        exact ⟨fun hl => (hl hd).2, fun hl _ => ⟨hf, hl⟩⟩
    | refused hno hfree h' hext =>
      exact .refused (fun hl => hno ⟨hl.1, hl.2.1⟩) (fun hd => absurd ⟨hd, hfree hd⟩ hno) h' hext
    | fault hno hfault => exact .fault (fun hl => hno ⟨hl.1, hl.2.1⟩) (fun hl => hfault (fun hd => (hl hd).1))

end LoadSite

namespace ElfImage
open LoadedSegment LoadSite

/-- The image is loaded, and each segment's memory reads as the bytes of the file and zeros after them. -/
def Loads (K : LoadSite) (m : ExecMem) (interpFile : String → Option (List UInt8)) (image : ElfImage) : Prop :=
  ∃ m', m.loadImage K.M K.active interpFile image = some (true, m') ∧
    ∀ seg ∈ image.segments, ∀ i < seg.memsz, m'.readByte K.active (seg.vaddr + i) = some (seg.data.getD i 0)

def imagePages (image : ElfImage) : Set ℕ := {v | ∃ seg ∈ image.segments, v ∈ seg.pageRange 0}

/-- `load_interp` neither panics nor faults. -/
structure InterpFree (here : Prop) (interpFile : String → Option (List UInt8)) (image : ElfImage) : Prop where
  parses : ∀ file, image.interp.bind interpFile = some file → Elf.parseDynSo file ≠ none
  fills : FaultFree here ExecMem.ldsoLoadBias image.imagePages (image.interpSegments interpFile)

variable {K : LoadSite} {m : ExecMem} {interpFile : String → Option (List UInt8)} {image : ElfImage} {k : ℕ} {A : UserImage}

/-- Whether or not it is loaded, the interpreter leaves what was there before, unless the kernel faults or panics. -/
theorem loadInterp_spec (hhosts : K.Hosts ExecMem.ldsoLoadBias (image.interpSegments interpFile)) (h : K.Holds m A)
    (ho : K.Open m A) (htaken : A.taken = image.imagePages) (hs : m.vm.pmm.serves k = true)
    (hk : 4 * pageCount ExecMem.ldsoLoadBias (image.interpSegments interpFile) ≤ k) :
    (m.loadInterp K.M K.active (image.interp.bind interpFile) ≠ none ↔ image.InterpFree (K.active = K.boot) interpFile) ∧
      ∀ m', m.loadInterp K.M K.active (image.interp.bind interpFile) = some m' → ∃ A', K.Holds m' A' ∧ A.Extends A' := by
  have hsame : ∀ m', some m = some m' → ∃ A', K.Holds m' A' ∧ A.Extends A' := by
    rintro _ ⟨rfl⟩
    exact ⟨A, h, .refl A⟩
  have hiff : image.InterpFree (K.active = K.boot) interpFile ↔
      (∀ file, image.interp.bind interpFile = some file → parseDynSo file ≠ none) ∧
        FaultFree (K.active = K.boot) ExecMem.ldsoLoadBias A.taken (image.interpSegments interpFile) := by
    rw [htaken]
    exact ⟨fun hc => ⟨hc.1, hc.2⟩, fun hc => ⟨hc.1, hc.2⟩⟩
  rw [hiff]
  unfold interpSegments at hhosts hk ⊢
  unfold ExecMem.loadInterp
  cases hb : image.interp.bind interpFile with
  | none => exact ⟨iff_of_true nofun ⟨nofun, trivial⟩, hsame⟩
  | some file =>
    rw [hb] at hhosts hk
    have hfile : (∀ file', some file = some file' → parseDynSo file' ≠ none) ↔ parseDynSo file ≠ none :=
      ⟨fun hc => hc file rfl, fun hc _ he => Option.some.inj he ▸ hc⟩
    rw [hfile]
    dsimp only at hhosts hk ⊢
    rcases hd : parseDynSo file with _ | _ | ldso
    · exact ⟨iff_of_false (fun hc => hc rfl) (fun hc => hc.1 rfl), nofun⟩
    · exact ⟨iff_of_true nofun ⟨nofun, trivial⟩, hsame⟩
    · rw [hd] at hhosts hk
      have hloads := h.loadSegments hhosts ho hs hk
      dsimp only
      generalize ExecMem.loadSegments K.M K.active ExecMem.ldsoLoadBias ldso.segments m = r at hloads ⊢
      cases hloads with
      | done hl h' =>
        refine ⟨iff_of_true nofun ⟨nofun, hl.faultFree⟩, ?_⟩
        rintro _ ⟨rfl⟩
        exact ⟨_, h', UserImage.extends_loadSegments hl⟩
      | refused _ hfree h' hext =>
        refine ⟨iff_of_true nofun ⟨nofun, hfree⟩, ?_⟩
        rintro _ ⟨rfl⟩
        exact ⟨_, h', hext⟩
      | fault _ hfault => exact ⟨iff_of_false (fun hc => hc rfl) (fun hc => hfault hc.2), nofun⟩

lemma loadImage_eq {M : PageMapper} {root : ℕ} : m.loadImage M root interpFile image =
    ExecMem.andThen (fun m => (m.loadInterp M root (image.interp.bind interpFile)).map (fun m => (true, m)))
      (ExecMem.loadSegments M root 0 image.segments m) := by
  unfold ExecMem.loadImage
  rcases ExecMem.loadSegments M root 0 image.segments m with _ | ⟨_ | _, m⟩
  · rfl
  · rfl
  · cases image.interp with
    | none => rfl
    | some path => rfl

/-- The segments are loadable exactly if no two of them share a page, and those with memory can be written. -/
theorem loadable_of_parse {data : List UInt8} {here : Prop} (hp : Elf.parse data = .ok image) :
    Loadable here 0 ∅ image.segments ↔ image.segments.Pairwise (fun a b => Disjoint (a.pageRange 0) (b.pageRange 0)) ∧
        ∀ seg ∈ image.segments, 0 < seg.memsz → here ∧ seg.Writable := by
  rw [loadable_iff, and_iff_right (fun _ _ => Set.disjoint_empty _)]
  exact and_congr_right (fun _ => forall₂_congr (fun seg hseg => and_iff_right (parse_fits hp seg hseg).1))

lemma taken_loaded : (UserImage.empty.loadSegments 0 image.segments).taken = image.imagePages := by
  rw [UserImage.taken_loadSegments, UserImage.taken_empty, Set.empty_union]
  rfl

variable (himage : K.Hosts 0 image.segments) (hinterp : K.Hosts ExecMem.ldsoLoadBias (image.interpSegments interpFile))
  (h : K.Holds m .empty) (hs : m.vm.pmm.serves k = true)
  (hk : 4 * (pageCount 0 image.segments + pageCount ExecMem.ldsoLoadBias (image.interpSegments interpFile)) ≤ k)
include himage hinterp h hs hk

lemma loads_iff_loadable : image.Loads K m interpFile ↔
    Loadable (K.active = K.boot) 0 ∅ image.segments ∧ image.InterpFree (K.active = K.boot) interpFile := by
  have hsegs := h.loadSegments himage (open_empty m) hs (by omega)
  rw [UserImage.taken_empty] at hsegs
  unfold Loads
  rw [loadImage_eq]
  generalize ExecMem.loadSegments K.M K.active 0 image.segments m = r at hsegs ⊢
  cases hsegs with
  | @done m₁ k₁ hl h₁ ho₁ hs₁ hk₁ =>
    obtain ⟨hiff, hkept⟩ := loadInterp_spec hinterp h₁ ho₁ taken_loaded hs₁ (by omega)
    rw [and_iff_right hl, ← hiff]
    change (∃ m', Option.map _ _ = _ ∧ _) ↔ _
    constructor
    · rintro ⟨m', hrun, -⟩ hnone
      rw [hnone] at hrun
      cases hrun
    · intro hne
      obtain ⟨m', hrun⟩ := Option.ne_none_iff_exists'.mp hne
      obtain ⟨A', h', hext⟩ := hkept m' hrun
      refine ⟨m', by rw [hrun]; rfl, fun seg hseg i hi => ?_⟩
      have hin : (0 + seg.vaddr + i) / pageSize ∈ (UserImage.empty.loadSegments 0 image.segments).taken := by
        rw [taken_loaded]
        exact ⟨seg, hseg, byte_mem_pageRange hi⟩
      have huser := himage.user seg hseg
      have hfill := (loadable_iff.mp hl).2.2 seg hseg
      rw [← UserImage.taken_empty] at hl
      have hbyte := (hext.bytes _ hin).trans (UserImage.loadSegments_bytes hl hseg hi)
      obtain ⟨w, hw⟩ := Option.ne_none_iff_exists'.mp (hext.taken_subset hin)
      rw [zero_add] at hw hbyte huser
      rw [(hfill.2 (by omega)).1, h'.readByte (by omega) hw, hbyte]
  | refused hno | fault hno =>
    refine iff_of_false ?_ (fun hc => hno hc.1)
    rintro ⟨_, hrun, -⟩
    cases hrun

/-- An accepted image in the user half is loaded, with enough memory, exactly if no two segments share a page, all
that have memory are writable and mapped in the address space that is active, and the interpreter does no harm. -/
theorem loads_iff {data : List UInt8} (hp : Elf.parse data = .ok image) : image.Loads K m interpFile ↔
    image.segments.Pairwise (fun a b => Disjoint (a.pageRange 0) (b.pageRange 0)) ∧
      (∀ seg ∈ image.segments, 0 < seg.memsz → K.active = K.boot ∧ seg.Writable) ∧
      image.InterpFree (K.active = K.boot) interpFile := by
  rw [loads_iff_loadable himage hinterp h hs hk, loadable_of_parse hp, and_assoc]

omit himage hinterp h hs hk

def twoSegments (first second : ℕ) : List UInt8 :=
  Elf.elfMag ++ [2, 1, 1] ++ List.replicate 9 0 ++ [2, 0, 62, 0] ++ List.replicate 12 0 ++ toLe 8 64 ++
    List.replicate 14 0 ++ [56, 0, 2, 0] ++ List.replicate 6 0 ++ phdr first ++ phdr second ++ [7]
where
  phdr (vaddr : ℕ) : List UInt8 := [1, 0, 0, 0, 6, 0, 0, 0] ++ toLe 8 176 ++ toLe 8 vaddr ++ toLe 8 0 ++ toLe 8 1 ++
    toLe 8 2 ++ toLe 8 4096

def twoSegmentsImage (first second : ℕ) : ElfImage := ⟨0, [⟨first, 2, [7], 6⟩, ⟨second, 2, [7], 6⟩], none⟩

def sampleMem : ExecMem := ⟨(Kernel.sample 0x20000 0x40000).vm, []⟩

lemma sampleMem_site : ∃ K : LoadSite, K.M = PageMapper.opening ∧ K.active = K.boot ∧
    K.targets = {v | 0 < v ∧ v < userPages} ∧ K.Holds sampleMem .empty := by
  obtain ⟨root, w, h, -⟩ := Kernel.sample_roomy
  obtain ⟨L, out, P, roots, hroot, href⟩ := h.wf.memory
  rw [h.bootRoot] at hroot
  refine ⟨⟨opening, P, roots, _, root, root, {v | 0 < v ∧ v < userPages}, opening_lawful,
    opening_opens, hroot, hroot, fun v hv => h.wf.covers (h.live 1) hv, fun v hv => hv.2⟩, rfl, rfl, rfl, L, out, _,
    href, List.nodup_nil, h.bootRoot, nofun, nofun, ?_, fun hne => absurd rfl hne⟩
  exact fun v hv _ => h.others v hv.2 (ne_of_gt hv.1)

lemma pageRange_subset {bias : ℕ} {seg : LoadedSegment} (hlow : pageSize ≤ bias + seg.vaddr)
    (huser : bias + seg.vaddr + seg.memsz ≤ 2 ^ 47) : seg.pageRange bias ⊆ {v | 0 < v ∧ v < userPages} := by
  rintro v ⟨hfirst, hlast⟩
  unfold LoadedSegment.pages at hlast
  change 0 < v ∧ v < userPages
  simp only [pageSize, userPages] at *
  omega

lemma twoSegments_hosts {first second : ℕ} (htargets : K.targets = {v | 0 < v ∧ v < userPages})
    (hfirst : pageSize ≤ first ∧ first + 2 ≤ 2 ^ 47) (hsecond : pageSize ≤ second ∧ second + 2 ≤ 2 ^ 47) :
    K.Hosts 0 (twoSegmentsImage first second).segments := by
  have hall : ∀ seg ∈ (twoSegmentsImage first second).segments,
      pageSize ≤ 0 + seg.vaddr ∧ 0 + seg.vaddr + seg.memsz ≤ 2 ^ 47 := by
    unfold twoSegmentsImage
    simp only [List.forall_mem_cons, zero_add]
    exact ⟨hfirst, hsecond, nofun⟩
  exact ⟨fun seg hseg => (hall seg hseg).2, fun seg hseg => htargets ▸ pageRange_subset (hall seg hseg).1 (hall seg hseg).2⟩

lemma sampleMem_serves : sampleMem.vm.pmm.serves 8 = true := by decide +kernel

theorem loads_iff_ownPages : ∃ K : LoadSite, K.Holds sampleMem .empty ∧
    (twoSegmentsImage 0x400000 0x401000).Loads K sampleMem (fun _ => none) := by
  obtain ⟨K, -, hhere, htargets, h⟩ := sampleMem_site
  have hp : parse (twoSegments 0x400000 0x401000) = .ok (twoSegmentsImage 0x400000 0x401000) := by decide +kernel
  refine ⟨K, h, (loads_iff (twoSegments_hosts htargets (by decide) (by decide)) ⟨nofun, nofun⟩ h sampleMem_serves
    (by decide) hp).mpr ⟨?_, ?_, nofun, trivial⟩⟩
  · refine List.pairwise_pair.mpr (Set.disjoint_left.mpr ?_)
    rintro v ⟨-, hlt⟩ ⟨hle, -⟩
    exact absurd (hle.trans_lt hlt) (by decide)
  · unfold twoSegmentsImage
    simp only [List.forall_mem_cons]
    exact ⟨fun _ => ⟨hhere, by decide⟩, fun _ => ⟨hhere, by decide⟩, nofun⟩

/-- The second segment begins on the page on which the first ends, and the image is refused. -/
theorem shared_page_is_refused : Elf.parse (twoSegments 0x400000 0x400800) = .ok (twoSegmentsImage 0x400000 0x400800) ∧
      (twoSegmentsImage 0x400000 0x400800).segments.Pairwise (fun a b => a.vaddr + a.memsz ≤ b.vaddr) ∧
      (∀ seg ∈ (twoSegmentsImage 0x400000 0x400800).segments, seg.vaddr + seg.memsz ≤ 2 ^ 47) ∧
      (sampleMem.loadImage PageMapper.opening sampleMem.vm.vmmRoot (fun _ => none)
        (twoSegmentsImage 0x400000 0x400800)).map Prod.fst = some false ∧
      ∃ K : LoadSite, K.M = PageMapper.opening ∧ K.active = K.boot ∧ K.Hosts 0 (twoSegmentsImage 0x400000 0x400800).segments ∧
        K.Holds sampleMem .empty ∧ ¬ (twoSegmentsImage 0x400000 0x400800).Loads K sampleMem (fun _ => none) := by
  refine ⟨by decide +kernel, by decide, by decide, by decide +kernel, ?_⟩
  obtain ⟨K, hM, hhere, htargets, h⟩ := sampleMem_site
  have hhosts : K.Hosts 0 (twoSegmentsImage 0x400000 0x400800).segments := twoSegments_hosts htargets (by decide) (by decide)
  refine ⟨K, hM, hhere, hhosts, h, ?_⟩
  rw [loads_iff_loadable hhosts ⟨nofun, nofun⟩ h sampleMem_serves (by decide)]
  rintro ⟨hl, -⟩
  have hdisjoint := List.pairwise_pair.mp (loadable_iff.mp hl).2.1
  exact Set.disjoint_left.mp hdisjoint (show 0x400 ∈ _ from ⟨by decide, by decide⟩) ⟨by decide, by decide⟩

end ElfImage
end NodeKernel
