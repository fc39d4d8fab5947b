import NodeKernel.Process.MmapLayout
import NodeKernel.Process.UserPages

/-!
# Demand paging

What `demand_page_vma` does to the memory, and what it shows to the process.
-/
namespace NodeKernel
open Blocks Function List Finset Option PhysMem PageCache Pte PageMapper

/-- The bytes reach the page, or the entry does not let the kernel write there. -/
theorem Vm.Refines.copyToUser {vm : Vm} {L : FreeLists} {out : Finset Block} {P roots : Set ℕ}
    {E : Finset Entry} {S : Finset ℕ} {σ : Space} {root addr : ℕ} (h : vm.Refines L out P roots E S σ)
    (hx : (root, addr >>> 12) ∈ E) (wp : Bool) (bytes : List UInt8) :
    (vm.copyToUser wp root addr bytes = none ∧ ¬ (Pte.present (σ.pte (root, addr >>> 12)) = true ∧
      (wp = false ∨ Pte.writable (σ.pte (root, addr >>> 12)) = true))) ∨ ∃ vm' d, vm.copyToUser wp root addr bytes = some vm' ∧
      vm'.Refines L out P roots E S { σ with data := d } ∧ vm'.vmmRoot = vm.vmmRoot ∧
      (∀ g, ¬ σ.Maps (root, addr >>> 12) g → d g = σ.data g) ∧
      (present (σ.pte (root, addr >>> 12)) = true → ∀ j, byteAt d (frame (σ.pte (root, addr >>> 12))) j =
          (bytes[j]?).getD (byteAt σ.data (frame (σ.pte (root, addr >>> 12))) j)) := by
  obtain ⟨hr, hv⟩ := h.entries _ hx
  have hleaf : pageTables.leaf vm.pmm.mem root (addr >>> 12) = σ.pte (root, addr >>> 12) := h.tables.pte root hr _ hv
  unfold Vm.copyToUser
  by_cases hempty : bytes = []
  · rw [if_pos hempty]
    refine .inr ⟨vm, σ.data, rfl, h, rfl, fun _ _ => rfl, fun _ j => ?_⟩
    rw [hempty]
    rfl
  · rw [if_neg hempty, hleaf]
    by_cases hok : present (σ.pte (root, addr >>> 12)) = true ∧
        (wp = false ∨ writable (σ.pte (root, addr >>> 12)) = true)
    · rw [if_pos hok]
      have hm : σ.Maps (root, addr >>> 12) (frame (σ.pte (root, addr >>> 12))) := ⟨hok.1, rfl⟩
      have hsame : ∀ a, a ≠ frame (σ.pte (root, addr >>> 12)) → ∀ i,
          vm.pmm.mem.putBytes (frame (σ.pte (root, addr >>> 12))) bytes a i = vm.pmm.mem a i :=
        fun a ha => putBytes_ne ha
      refine .inr ⟨_, _, rfl, h.refill (h.held _ hx _ hm) (h.apart _ hx _ hm) hsame, rfl, ?_, ?_⟩
      · intro g hg
        refine update_of_ne ?_ _ _
        rintro rfl
        exact hg hm
      · intro _ j
        rw [byteAt_congr (m := vm.pmm.mem.putBytes _ bytes)
          (fun i => by rw [update_self]), byteAt_putBytes,
          byteAt_congr (fun i => h.data _ hx _ hm i)]
    · rw [if_neg hok]
      exact .inl ⟨rfl, hok⟩

/-- The frames in reserve are among `T`, each once and for one process. -/
structure Reserved (reserves : Pid → List ℕ) (T : Finset ℕ) : Prop where
  mem : ∀ q, ∀ f ∈ reserves q, f ∈ T
  nodup : ∀ q, (reserves q).Nodup
  alone : ∀ q q' f, f ∈ reserves q → f ∈ reserves q' → q = q'

lemma Reserved.draw {reserves : Pid → List ℕ} {S T : Finset ℕ} {q : Pid} {f : ℕ} {reserve' : List ℕ}
    (h : Reserved reserves T) (hT : T ⊆ S) (hd : ExecMem.Drawn S (reserves q) f reserve') :
    Reserved (update reserves q reserve') (T.erase f) := by
  rcases hd with hd | ⟨hf, rfl⟩
  · obtain ⟨hnot, hnodup⟩ := List.nodup_cons.mp (hd ▸ h.nodup q)
    have hfirst : f ∈ reserves q := by
      rw [hd]
      exact mem_cons_self
    have hold : ∀ q' g, g ∈ update reserves q reserve' q' → g ∈ reserves q' ∧ g ≠ f := by
      intro q' g hg
      by_cases hq : q' = q
      · subst hq
        rw [update_self] at hg
        refine ⟨?_, fun he => hnot (he ▸ hg)⟩
        rw [hd]
        exact mem_cons_of_mem f hg
      · rw [update_of_ne hq] at hg
        exact ⟨hg, fun he => hq (h.alone q' q f (he ▸ hg) hfirst)⟩
    refine ⟨?_, ?_, ?_⟩
    · intro q' g hg
      exact Finset.mem_erase.mpr ⟨(hold q' g hg).2, h.mem q' g (hold q' g hg).1⟩
    · intro q'
      by_cases hq : q' = q
      · rw [hq, update_self]
        exact hnodup
      · rw [update_of_ne hq]
        exact h.nodup q'
    · intro q' q'' g hg hg'
      exact h.alone q' q'' g (hold q' g hg).1 (hold q'' g hg').1
  · rw [update_eq_self, erase_eq_of_notMem (fun hc => hf (hT hc))]
    exact h

lemma PageCache.Backs.draw {c : PageCache} {S T : Finset ℕ} {f : ℕ} (h : c.Backs T S)
    (hf : f ∈ T ∨ f ∉ S) : c.Backs (T.erase f) (S.erase f) := by
  refine ⟨erase_subset_erase f h.others, ?_, h.alone⟩
  intro key g hg
  obtain ⟨hS, hT⟩ := h.frames key g hg
  refine ⟨Finset.mem_erase.mpr ⟨?_, hS⟩, fun hc => hT (mem_of_mem_erase hc)⟩
  rintro rfl
  exact hf.elim hT (fun hn => hn hS)

namespace Pager
variable {p p' : Pager} {M : PageMapper} {fs : RamFiles} {wp : Bool} {P roots : Set ℕ}
  {E : Finset Entry} {S T : Finset ℕ} {σ : Space} {current pid : Pid} {root page vaddr ino off : ℕ}
  {loader : ℕ → Option (List UInt8)} {hints : PrefetchHints}

/-- The memory represents `σ`; beside the frames in use, the cache has its own and so have the
reserves. -/
def Supplied (p : Pager) (P roots : Set ℕ) (E : Finset Entry) (σ : Space) : Prop :=
  ∃ T, p.cache.Stocked p.k.vm P roots E T σ ∧ Reserved p.reserves T

/-- Pages have been asked for in the cache, and nothing else has changed. -/
structure Tends (p : Pager) (P roots : Set ℕ) (E : Finset Entry) (T : Finset ℕ) (σ : Space) (ino : ℕ)
    (loader : ℕ → Option (List UInt8)) (p' : Pager) : Prop where
  rest : p' = p.withCache p'.k.vm p'.cache
  tended : p.cache.Tended p.k.vm P roots E T σ ino loader p'.k.vm p'.cache

lemma Tends.refl (h : p.cache.Stocked p.k.vm P roots E T σ) : p.Tends P roots E T σ ino loader p :=
  ⟨rfl, PageCache.Tended.refl h⟩

lemma Tends.trans {p'' : Pager} (h : p.Tends P roots E T σ ino loader p')
    (h' : p'.Tends P roots E T σ ino loader p'') : p.Tends P roots E T σ ino loader p'' := by
  refine ⟨?_, h.tended.trans h'.tended⟩
  rw [h'.rest, h.rest]
  rfl

def Panics (loader : ℕ → Option (List UInt8)) (bound : ℕ) : Prop :=
  ∃ off < bound, pageSize ∣ off ∧ loader off = none

lemma readBytes_tends (h : p.cache.Stocked p.k.vm P roots E T σ) (ino off : ℕ) (loader : ℕ → Option (List UInt8)) :
    (p.readBytes ino off loader = none ∧ Panics loader (off + pageSize)) ∨
    ∃ bytes p', p.readBytes ino off loader = some (bytes, p') ∧ p.Tends P roots E T σ ino loader p' := by
  unfold readBytes PageCache.readBytes
  rcases readLoop_tended h ino loader pageSize off pageSize with
    ⟨hnone, hpanic⟩ | ⟨bytes, vm', c', hsome, ht⟩
  · rw [hnone]
    exact .inl ⟨rfl, hpanic⟩
  · rw [hsome]
    exact .inr ⟨bytes, _, rfl, rfl, ht⟩

lemma prefetchPredicted_tends (h : p.cache.Stocked p.k.vm P roots E T σ) (fv : FileVma) (vmaStart : ℕ)
    (loader : ℕ → Option (List UInt8)) (predicted : Option ℕ) :
    (p.prefetchPredicted fv vmaStart loader predicted = none ∧ ∃ va, pageSize ∣ va ∧ vmaStart ≤ va ∧
      va < fv.stop ∧ Panics loader ((fv.fileOff + (va - vmaStart)) % 2 ^ 64 + pageSize)) ∨
    ∃ p', p.prefetchPredicted fv vmaStart loader predicted = some p' ∧ p.Tends P roots E T σ fv.ino loader p' := by
  cases predicted with
  | none => exact .inr ⟨p, rfl, Tends.refl h⟩
  | some vpn =>
    unfold prefetchPredicted
    dsimp only
    have hdvd : pageSize ∣ vpn * pageSize % 2 ^ 64 := (Nat.dvd_mod_iff (by decide)).mpr (Nat.dvd_mul_left _ _)
    generalize vpn * pageSize % 2 ^ 64 = va at hdvd
    by_cases hin : va ≥ vmaStart ∧ va < fv.stop
    · rw [if_pos hin]
      rcases readBytes_tends h fv.ino ((fv.fileOff + (va - vmaStart)) % 2 ^ 64) loader with
        ⟨hnone, hpanic⟩ | ⟨bytes, p', hsome, ht⟩
      · rw [hnone]
        exact .inl ⟨rfl, va, hdvd, hin.1, hin.2, hpanic⟩
      · rw [hsome]
        exact .inr ⟨p', rfl, ht⟩
    · rw [if_neg hin]
      exact .inr ⟨p, rfl, Tends.refl h⟩

lemma prefetchAhead_tends (h : p.cache.Stocked p.k.vm P roots E T σ) (ino pageFileOff limit n i : ℕ) :
    (prefetchAhead ino loader pageFileOff limit n i p = none ∧ ∃ off < limit,
      off % pageSize = pageFileOff % pageSize ∧ Panics loader (off + pageSize)) ∨
    ∃ p', prefetchAhead ino loader pageFileOff limit n i p = some p' ∧ p.Tends P roots E T σ ino loader p' := by
  induction n generalizing p i with
  | zero => exact .inr ⟨p, rfl, Tends.refl h⟩
  | succ n ih =>
    rw [prefetchAhead]
    have hmod : (pageFileOff + i * pageSize) % 2 ^ 64 % pageSize = pageFileOff % pageSize := by
      unfold pageSize
      omega
    generalize (pageFileOff + i * pageSize) % 2 ^ 64 = ahead at hmod
    by_cases hstop : ahead ≥ limit
    · rw [if_pos hstop]
      exact .inr ⟨p, rfl, Tends.refl h⟩
    · rw [if_neg hstop]
      rcases readBytes_tends h ino ahead loader with
        ⟨hnone, hpanic⟩ | ⟨bytes, p₁, hsome, ht⟩
      · rw [hnone]
        exact .inl ⟨rfl, ahead, Nat.not_le.mp hstop, hmod, hpanic⟩
      · rw [hsome]
        rcases ih ht.tended.stocked (i + 1) with hnone | ⟨p', hrest, ht'⟩
        · exact .inl hnone
        · exact .inr ⟨p', hrest, ht.trans ht'⟩

/-- The bytes of a page cannot be written to it, or a page wanted next cannot be loaded. -/
def FillStops (fs : RamFiles) (wp : Bool) (e page vmaStart : ℕ) (fv : FileVma) : Prop :=
  ¬ (Pte.present e = true ∧ (wp = false ∨ Pte.writable e = true)) ∨
  (∃ va, pageSize ∣ va ∧ vmaStart ≤ va ∧ va < fv.stop ∧
    Panics (fs.readPage fv.filePath) ((fv.fileOff + (va - vmaStart)) % 2 ^ 64 + pageSize)) ∨
  ∃ off < (fv.stop - vmaStart + fv.fileOff) % 2 ^ 64,
    off % pageSize = (fv.fileOff + (page - vmaStart)) % 2 ^ 64 % pageSize ∧
      Panics (fs.readPage fv.filePath) (off + pageSize)

lemma fillPage_of_read {p₁ : Pager} {fv : FileVma} {vmaStart : ℕ} {bytes : List UInt8}
    (hread : p.readBytes fv.ino ((fv.fileOff + (page - vmaStart)) % 2 ^ 64) (fs.readPage fv.filePath) = some (bytes, p₁))
    (ht : p.Tends P roots E T σ fv.ino (fs.readPage fv.filePath) p₁) (hx : (root, page >>> 12) ∈ E)
    (wp : Bool) (hints : PrefetchHints) : (p.fillPage fs wp hints root page vmaStart fv = none ∧
      FillStops fs wp (σ.pte (root, page >>> 12)) page vmaStart fv) ∨
    ∃ p' d, p.fillPage fs wp hints root page vmaStart fv = some p' ∧ p' = p.withCache p'.k.vm p'.cache ∧
      p'.cache.Stocked p'.k.vm P roots E T { σ with data := d } ∧
      p'.k.vm.vmmRoot = p.k.vm.vmmRoot ∧ (∀ g, ¬ σ.Maps (root, page >>> 12) g → d g = σ.data g) ∧
      (present (σ.pte (root, page >>> 12)) = true → ∀ j, byteAt d (frame (σ.pte (root, page >>> 12))) j =
          (bytes[j]?).getD (byteAt σ.data (frame (σ.pte (root, page >>> 12))) j)) := by
  obtain ⟨L, out, S, href, hb⟩ := ht.tended.stocked
  unfold fillPage
  dsimp only
  rw [hread]
  dsimp only
  rcases href.copyToUser hx wp bytes with ⟨hnone, hw⟩ | ⟨vm₂, d, hcopy, href₂, hroot₂, hrest, hbytes⟩
  · rw [hnone]
    exact .inl ⟨rfl, .inl hw⟩
  · rw [hcopy]
    dsimp only
    have hst₂ : (p₁.withCache vm₂ p₁.cache).cache.Stocked (p₁.withCache vm₂ p₁.cache).k.vm P roots E T
        { σ with data := d } := ⟨L, out, S, href₂, hb⟩
    rcases prefetchPredicted_tends hst₂ fv vmaStart (fs.readPage fv.filePath) hints.predictedVpn with
      ⟨hnone, hva⟩ | ⟨p₃, hpred, ht₃⟩
    · rw [hnone]
      exact .inl ⟨rfl, .inr (.inl hva)⟩
    · rw [hpred]
      rcases prefetchAhead_tends ht₃.tended.stocked fv.ino _ _ _ 1 with ⟨hnone, hoff⟩ | ⟨p', hahead, ht'⟩
      · exact .inl ⟨hnone, .inr (.inr hoff)⟩
      · have hall := ht₃.trans ht'
        refine .inr ⟨p', d, hahead, ?_, ht'.tended.stocked, ?_, hrest, hbytes⟩
        · rw [hall.rest, ht.rest]
          rfl
        · exact hall.tended.root.trans (hroot₂.trans ht.tended.root)

lemma FileOk.not_fillStops {v : Vma} {fv : FileVma} {start e : ℕ} (h : FileOk fs wp start v fv)
    (hpage : pageSize ∣ page) (hle : start ≤ page) (hp : Pte.present e = true)
    (hw : Pte.writable e = v.writable) : ¬ FillStops fs wp e page start fv := by
  have hloads : ∀ bound ≤ fv.fileOff + (fv.stop - start), ¬ Panics (fs.readPage fv.filePath) bound := by
    intro bound hbound hpanic
    obtain ⟨off, hoff, hdvd, hnone⟩ := hpanic
    exact h.loads off hdvd (hoff.trans_le hbound) hnone
  obtain ⟨a, rfl⟩ := h.atStart
  obtain ⟨b, hb⟩ := h.atStop
  obtain ⟨c, rfl⟩ := hpage
  have hbound := h.bound
  rw [hb] at hbound hloads
  rintro (hnot | ⟨va, ⟨d, rfl⟩, hstart, hstop, hpanic⟩ | ⟨off, hoff, hmod, hpanic⟩)
  · exact hnot ⟨hp, hw ▸ h.writable⟩
  · rw [hb] at hstop
    refine hloads _ ?_ hpanic
    unfold pageSize at *
    omega
  · rw [hb] at hoff
    refine hloads _ ?_ hpanic
    unfold pageSize at *
    omega

/-- The page as the process finds it in the tables of `root`. -/
structure Shows (p : Pager) (root page : ℕ) (spec : PageSpec) : Prop where
  accessible : (Pte.present (pageTables.leaf p.k.vm.pmm.mem root (page / pageSize)) &&
    Pte.user (pageTables.leaf p.k.vm.pmm.mem root (page / pageSize))) = spec.accessible
  writable : Pte.writable (pageTables.leaf p.k.vm.pmm.mem root (page / pageSize)) = spec.writable
  executable : (pageTables.leaf p.k.vm.pmm.mem root (page / pageSize)).testBit 63 = !spec.executable
  bytes : ∀ j < pageSize, p.k.vm.pmm.mem.byteAt
    (Pte.frame (pageTables.leaf p.k.vm.pmm.mem root (page / pageSize))) j = spec.bytes j

lemma shows_of_stocked {f : ℕ} {w x : Bool} {bytes : ℕ → UInt8}
    (h : p.cache.Stocked p.k.vm P roots E T σ) (hx : (root, page / pageSize) ∈ E) (hf : Pte.IsFrame f)
    (hpte : σ.pte (root, page / pageSize) = f ||| userFlags w x)
    (hbytes : ∀ j < pageSize, byteAt σ.data f j = bytes j) : p.Shows root page ⟨true, w, x, bytes⟩ := by
  obtain ⟨L, out, S, href, _⟩ := h
  obtain ⟨hr, hv⟩ := href.entries _ hx
  have hleaf : pageTables.leaf p.k.vm.pmm.mem root (page / pageSize) = f ||| userFlags w x :=
    (href.tables.pte root hr _ hv).trans hpte
  have hm : σ.Maps (root, page / pageSize) f := by
    unfold Space.Maps
    rw [hpte]
    exact ⟨present_user hf, frame_user hf⟩
  constructor
  · rw [hleaf, present_user hf, user_user hf]
    rfl
  · rw [hleaf, writable_user hf]
  · rw [hleaf, nx_user hf]
  · intro j hj
    rw [hleaf, frame_user hf, byteAt_congr (fun i => href.data _ hx f hm i)]
    exact hbytes j hj

/-- The call is made for a page whose entry is unused, by a process on the boot root, with memory for
the page, its tables and two pages of the cache; and what is in the cache is what the files have. -/
structure Ready (p : Pager) (fs : RamFiles) (root page : ℕ) : Prop where
  supplied : ∃ P roots E σ, p.Supplied P roots E σ ∧ (root, page / pageSize) ∈ E
  ownTables : root = p.k.vm.vmmRoot
  unused : pageTables.leaf p.k.vm.pmm.mem root (page / pageSize) = 0
  memory : p.k.vm.pmm.serves (3 + missingTables p.k.vm.pmm.mem root (page / pageSize)) = true
  cached : ∀ pid start fv, (toLex (pid, start), fv) ∈ p.fileVmas.entries →
    p.cache.Holds p.k.vm.pmm.mem fv.ino ((fs.data fv.filePath).getD [])

/-- A page is given to the process exactly if the layout has it, and shows what the layout says. -/
def Served (p : Pager) (M : PageMapper) (fs : RamFiles) (wp : Bool) (l : Layout) : Prop :=
  ∀ hints current root pid vaddr, p.Ready fs root (vaddr / pageSize * pageSize) →
    ∃ ok p', p.demandPageVma M fs wp hints current root pid vaddr = some (ok, p') ∧
      (ok = true ↔ (l pid (vaddr / pageSize * pageSize)).isSome = true) ∧
      ∀ spec, l pid (vaddr / pageSize * pageSize) = some spec →
        p'.Shows root (vaddr / pageSize * pageSize) spec

lemma readPage_eq {path : String} {bytes : List UInt8} (h : fs.readPage path off = some bytes) :
    bytes = (((fs.data path).getD []).drop off).take pageSize := by
  unfold RamFiles.readPage at h
  cases hd : fs.data path with
  | none =>
    rw [hd] at h
    obtain rfl := Option.some.inj h
    rw [getD_none, drop_nil, take_nil]
  | some data =>
    rw [hd] at h
    dsimp only at h
    split at h
    · exact (Option.some.inj h).symm
    · cases h

lemma Supplied.mapUserRange (h : p.Supplied P roots E σ) (hM : M.Lawful)
    (hroot : p.k.vm.vmmRoot ∈ roots) (hpage : page / pageSize < userPages) (current : Pid) (w x : Bool) :
    ∃ ok m S, (p.execMem current).mapUserRange M page pageSize w x = some (ok, m) ∧
      (∀ key f, p.cache.entries key = some f → ∀ i, m.vm.pmm.mem f i = p.k.vm.pmm.mem f i) ∧
      ((ok = true ∧ ∃ f, p.k.vm.PageGiven P roots E S σ (page / pageSize) (userFlags w x) f m.vm ∧
          (p.withMem current m).Supplied P roots E ((σ.setData f (fun _ => 0)).setPte
            (p.k.vm.vmmRoot, page / pageSize) (f ||| userFlags w x))) ∨
        (ok = false ∧ p.k.vm.PageRefused P roots E S σ (page / pageSize) m.vm ∧
          (p.withMem current m).Supplied P roots E σ)) := by
  obtain ⟨T, ⟨L, out, S, href, hb⟩, hres⟩ := h
  have hreserve : ∀ f ∈ (p.execMem current).reserve, f ∈ S := fun f hf => hb.others (hres.mem current f hf)
  obtain ⟨f, ok, m, hrun, hdrawn, hout⟩ := ExecMem.mapUserRange_page (m := p.execMem current) href hM hroot hreserve hpage w x
  have hf : f ∈ T ∨ f ∉ S := by
    rcases hdrawn with hd | ⟨hf, _⟩
    · refine .inl (hres.mem current f ?_)
      change f ∈ (p.execMem current).reserve
      rw [hd]
      exact mem_cons_self
    · exact .inr hf
  have hb' := hb.draw hf
  have hres' := hres.draw hb.others hdrawn
  refine ⟨ok, m, S.erase f, hrun, ?_, ?_⟩
  · intro key g hg
    have hgS := (hb'.frames key g hg).1
    rcases hout with ⟨_, hgiven⟩ | ⟨_, hrefused⟩
    · exact hgiven.kept g hgS
    · exact hrefused.kept g hgS
  · rcases hout with ⟨hok, hgiven⟩ | ⟨hok, hrefused⟩
    · obtain ⟨L', out', href'⟩ := hgiven.refines
      exact .inl ⟨hok, f, hgiven, _, ⟨L', out', _, href', hb'⟩, hres'⟩
    · obtain ⟨L', out', href'⟩ := hrefused.refines
      exact .inr ⟨hok, hrefused, _, ⟨L', out', _, href', hb'⟩, hres'⟩

lemma fillPage_shows {v : Vma} {fv : FileVma} {start f : ℕ}
    (h : p.cache.Stocked p.k.vm P roots E T σ) (hx : (root, page / pageSize) ∈ E) (hf : Pte.IsFrame f)
    (hpte : σ.pte (root, page / pageSize) = f ||| userFlags v.writable v.executable)
    (hzero : σ.data f = fun _ => 0) (hok : FileOk fs wp start v fv) (hpage : pageSize ∣ page)
    (hle : start ≤ page) (hlt : page < fv.stop) (hlisted : 2 ≤ p.k.vm.pmm.listedPages)
    (hc : p.cache.Holds p.k.vm.pmm.mem fv.ino ((fs.data fv.filePath).getD [])) (hints : PrefetchHints) :
    ∃ p', p.fillPage fs wp hints root page start fv = some p' ∧ p'.Shows root page ⟨true, v.writable, v.executable, fun j =>
        ((((fs.data fv.filePath).getD [])[fv.fileOff + (page - start) + j]?).getD 0)⟩ := by
  have hend : fv.fileOff + (page - start) + pageSize ≤ fv.fileOff + (fv.stop - start) := by
    obtain ⟨a, ha⟩ := hpage
    obtain ⟨b, hb⟩ := hok.atStop
    unfold pageSize at *
    omega
  have hpos : (fv.fileOff + (page - start)) % 2 ^ 64 = fv.fileOff + (page - start) := by
    have hbound := hok.bound
    exact Nat.mod_eq_of_lt (by omega)
  have hpages : pagesFor (fv.fileOff + (page - start)) pageSize ≤ p.k.vm.pmm.listedPages := by
    refine le_trans ?_ hlisted
    unfold pagesFor pageSize
    omega
  obtain ⟨bytes, vm₁, c₁, hread, ht, _, hbytes⟩ := readLoop_content
    (fun _ _ => readPage_eq) (fun off hoff hdvd => hok.loads off hdvd hoff) h hc (Nat.le_refl pageSize) hend
    hok.bound (fun _ => hpages)
  have hvpn : page >>> 12 = page / pageSize := Nat.shiftRight_eq_div_pow page 12
  have hread' : p.readBytes fv.ino ((fv.fileOff + (page - start)) % 2 ^ 64) (fs.readPage fv.filePath) =
      some (bytes, p.withCache vm₁ c₁) := by
    rw [hpos]
    unfold readBytes PageCache.readBytes
    rw [hread]
    rfl
  have hpresent : present (σ.pte (root, page / pageSize)) = true := by
    rw [hpte]
    exact present_user hf
  have hwritable : writable (σ.pte (root, page / pageSize)) = v.writable := by
    rw [hpte]
    exact writable_user hf
  rcases fillPage_of_read hread' ⟨rfl, ht⟩ (hvpn.symm ▸ hx) wp hints with
    ⟨_, hstops⟩ | ⟨p', d, hfill, _, hst, _, _, hd⟩
  · rw [hvpn] at hstops
    exact absurd hstops (hok.not_fillStops hpage hle hpresent hwritable)
  · refine ⟨p', hfill, shows_of_stocked hst hx hf hpte ?_⟩
    intro j hj
    have hj' := hd (hvpn.symm ▸ hpresent) j
    rw [hvpn, hpte, frame_user hf] at hj'
    rw [hj', ← hbytes j hj, byteAt_zero hzero]

lemma Mirrors.served {l : Layout} (h : p.Mirrors fs wp l) (hM : M.Lawful) : p.Served M fs wp l := by
  intro hints current root pid vaddr hready
  have hdvd : pageSize ∣ vaddr / pageSize * pageSize := Nat.dvd_mul_left _ _
  unfold demandPageVma
  dsimp only
  generalize vaddr / pageSize * pageSize = page at hready hdvd
  have hview := h.view pid page hdvd
  unfold Pager.view at hview
  cases hv : findVma Vma.stop p.vmas pid page with
  | none =>
    rw [hv, map_none] at hview
    rw [← hview]
    exact ⟨false, p, rfl, by simp, nofun⟩
  | some sv =>
    obtain ⟨start, v⟩ := sv
    obtain ⟨P, roots, E, σ, hs, hx⟩ := hready.supplied
    obtain ⟨T, ⟨L, out, S, href, hb⟩, hres⟩ := id hs
    obtain ⟨hr, hlt⟩ := href.entries _ hx
    have hpte : σ.pte (p.k.vm.vmmRoot, page / pageSize) = 0 := by
      rw [← hready.ownTables, ← href.tables.pte root hr _ hlt]
      exact hready.unused
    have hmemory := hready.memory
    rw [hready.ownTables] at hr hx hmemory
    obtain ⟨ok, m, S', hrun, hkept, hout⟩ := hs.mapUserRange hM hr hlt current v.writable v.executable
    rcases hout with ⟨rfl, f, hgiven, T', hst, hres'⟩ | ⟨_, hrefused, _⟩
    · rw [hv, map_some] at hview
      rw [← hview]
      dsimp only
      rw [hrun]
      dsimp only
      rw [show (p.withMem current m).fileVmas = p.fileVmas from rfl]
      have hword : ((σ.setData f (fun _ => 0)).setPte (p.k.vm.vmmRoot, page / pageSize)
          (f ||| userFlags v.writable v.executable)).pte (p.k.vm.vmmRoot, page / pageSize) =
            f ||| userFlags v.writable v.executable := Space.setPte_self
      have hzero : ((σ.setData f (fun _ => 0)).setPte (p.k.vm.vmmRoot, page / pageSize)
          (f ||| userFlags v.writable v.executable)).data f = fun _ => 0 := update_self ..
      rw [hready.ownTables]
      cases hfile : findVma FileVma.stop p.fileVmas pid page with
      | none =>
        refine ⟨true, _, rfl, by simp, ?_⟩
        intro spec hspec
        obtain rfl := Option.some.inj hspec
        exact shows_of_stocked hst hx hgiven.isFrame hword (fun j _ => byteAt_zero hzero j)
      | some sf =>
        obtain ⟨start', fv⟩ := sf
        obtain ⟨rfl, hok⟩ := h.agree pid page start v start' fv hdvd hv hfile
        obtain ⟨hmem, hle, hstop, _⟩ := findVma_eq_some.mp hfile
        have hc : (p.withMem current m).cache.Holds (p.withMem current m).k.vm.pmm.mem fv.ino
            ((fs.data fv.filePath).getD []) := by
          intro off g hg j hj
          change m.vm.pmm.mem.byteAt g j = _
          rw [byteAt_congr (hkept _ g hg)]
          exact hready.cached pid _ fv hmem off g hg j hj
        obtain ⟨p', hfill, hshows⟩ := fillPage_shows hst hx hgiven.isFrame hword hzero
          hok hdvd hle hstop (hgiven.le_listedPages hmemory) hc hints
        dsimp only
        rw [hfill]
        refine ⟨true, p', rfl, by simp, ?_⟩
        intro spec hspec
        obtain rfl := Option.some.inj hspec
        exact hshows
    · rw [hrefused.not_serves hpte (Nat.add_le_add_right (by decide) _)] at hmemory
      cases hmemory

lemma mirrors_start (hv : p.vmas = OrdMap.empty) (hf : p.fileVmas = OrdMap.empty)
    (hn : pageSize ∣ p.mmapNext) : p.Mirrors fs wp (fun _ _ => none) := by
  refine ⟨hn, ?_, ?_, ?_⟩
  · intro pid page _
    unfold view
    rw [hv]
    rfl
  · intro pid start fv hmem
    rw [hf] at hmem
    cases hmem
  · intro pid page start v start' fv _ hfound
    rw [hv] at hfound
    cases hfound

end Pager

/-- In every run of mappings that do not cut into others and in which nothing mapped is unmapped, a
page is given to the process exactly if the last call that covers it is a mapping, with the protection
and the content of that mapping. -/
theorem Pager.run_servesLayout {M : PageMapper} {fs : RamFiles} {wp : Bool} {p₀ p : Pager} {l : Layout}
    {tr : List ((Pager × Layout) × MmapCall)} (hM : M.Lawful) (hv : p₀.vmas = OrdMap.empty)
    (hf : p₀.fileVmas = OrdMap.empty) (hn : pageSize ∣ p₀.mmapNext) (hrun : Run (MmapStep M fs) (p₀, fun _ _ => none) tr (p, l))
    (hkeeps : ∀ x ∈ tr, x.1.1.KeepsLayout fs wp x.2) : (∀ x ∈ tr, x.1.1.Served M fs wp x.1.2) ∧ p.Served M fs wp l := by
  obtain ⟨hpre, hlast⟩ := hrun.invariant_of (I := fun s => s.1.Mirrors fs wp s.2)
    (C := fun s c => s.1.KeepsLayout fs wp c) (mirrors_start hv hf hn)
    (fun s c s' hI hC hs => hI.step hC hs) hkeeps
  exact ⟨fun x hx => (hpre x hx).served hM, hlast.served hM⟩

namespace Pager

def sample : Pager :=
  ⟨Kernel.sample 0x20000 0x60000, fun _ => [], PageCache.empty, OrdMap.empty, OrdMap.empty, 0x100000000000⟩

def noFiles : RamFiles := ⟨fun _ => none, fun _ => none⟩

lemma sample_onePage : ∃ w, OnePage sample.k 0x40000 0 w ∧ Pte.user w = true := by
  obtain ⟨root, w, h, _, _, huser⟩ := Kernel.sample_onePage 0x20000 0x60000 ⟨0x20, rfl⟩ ⟨0x60, rfl⟩
    (by decide) (by decide) (by decide) (by decide +kernel) (by decide +kernel)
  have hroot : sample.k.vm.vmmRoot = 0x40000 := by decide +kernel
  obtain rfl : root = 0x40000 := h.bootRoot.symm.trans hroot
  exact ⟨w, h, huser⟩

section Sample
variable {p : Pager} (hk : p.k = sample.k) (hr : p.reserves = sample.reserves) (hc : p.cache = sample.cache)
include hk hr hc

lemma sample_supplied : ∃ P roots, p.Supplied P roots p.k.liveEntries p.k.vm.space ∧ p.k.vm.vmmRoot ∈ roots := by
  obtain ⟨w, h, _⟩ := sample_onePage
  obtain ⟨L, out, P, roots, hroot, href⟩ := h.wf.memory
  rw [hk]
  refine ⟨P, roots, ⟨∅, ⟨L, out, ∅, ?_, ?_⟩, ?_⟩, hroot⟩
  · rw [hk]
    exact href
  · rw [hc]
    exact ⟨Finset.Subset.refl ∅, nofun, nofun⟩
  · rw [hr]
    exact ⟨nofun, fun _ => nodup_nil, nofun⟩

lemma sample_ready {fs : RamFiles} : p.Ready fs 0x40000 0x100000000000 := by
  obtain ⟨w, h, _⟩ := sample_onePage
  obtain ⟨P, roots, hs, _⟩ := sample_supplied hk hr hc
  refine ⟨⟨P, roots, _, _, hs, ?_⟩, ?_, ?_, ?_, ?_⟩
  · rw [hk]
    exact h.mem_liveEntries.mpr ⟨rfl, by decide⟩
  · rw [hk]
    exact h.bootRoot.symm
  · rw [hk]
    decide +kernel
  · rw [hk]
    decide +kernel
  · intro _ _ _ _ off f hg
    rw [hc] at hg
    cases hg

end Sample

/-- The call of the first process for a page of zeros that it may write, and what comes of it. -/
def sampleCall : MmapCall := .mmap 1 (fun _ => none) (2 ^ 64 - 1) 0 4096 3 0 (-1) 0

def sampleMapped : Pager := (sample.sysMmap noFiles (fun _ => none) (2 ^ 64 - 1) 1 0 4096 3 0 (-1) 0).2

def sampleLayout : Layout := Layout.set (fun _ _ => none) 1 0x100000000000 4096
  (fun page => some (mmapSpec noFiles none 0x100000000000 3 0 page))

lemma sample_mmap : MmapStep PageMapper.plain noFiles (sample, fun _ _ => none) sampleCall
    (sampleMapped, sampleLayout) := MmapStep.mmap rfl

lemma sample_keeps : sample.KeepsLayout noFiles true sampleCall := by
  intro _ _
  refine ⟨fun _ => Nat.dvd_zero _, by decide, by decide, nofun, ?_, ?_, nofun⟩
  · intro page start v _ _ hfound
    cases hfound
  · intro _ page _ _ _
    rfl

theorem served_page : ∃ p', sampleMapped.demandPageVma PageMapper.plain noFiles true ⟨none, 0⟩ 1 0x40000 1
      0x100000000000 = some (true, p') ∧ p'.Shows 0x40000 0x100000000000 ⟨true, true, false, fun _ => 0⟩ := by
  have hkeeps : ∀ x ∈ [((sample, (fun _ _ => none : Layout)), sampleCall)], x.1.1.KeepsLayout noFiles true x.2 := by
    intro x hx
    obtain rfl := List.mem_singleton.mp hx
    exact sample_keeps
  have hpage : sampleLayout 1 0x100000000000 = some ⟨true, true, false, fun _ => 0⟩ := by
    unfold sampleLayout Layout.set
    rw [if_pos ⟨rfl, by decide⟩]
    rfl
  obtain ⟨_, hserved⟩ := run_servesLayout plain_lawful rfl rfl (by decide)
    (Run.nil.snoc sample_mmap) hkeeps
  obtain ⟨ok, p', hd, hiff, hshows⟩ :=
    hserved ⟨none, 0⟩ 1 0x40000 1 0x100000000000 (sample_ready (p := sampleMapped) rfl rfl rfl)
  have hok : ok = true := hiff.mpr (congrArg Option.isSome hpage)
  exact ⟨p', hok ▸ hd, hshows _ hpage⟩

lemma sample_munmap : sampleMapped.sysMunmap PageMapper.plain 0x100000000000 4096 = some sampleMapped := by
  have htable : pageTables.tableAt sampleMapped.k.vm.pmm.mem sampleMapped.k.vm.vmmRoot 3 0x100000000 = none := by
    decide +kernel
  have hunmap : sampleMapped.k.vm.unmapPage plain (0x100000000000 >>> 12 &&& 0xFFFFFFFFF) =
      (none, sampleMapped.k.vm) := by
    rw [show 0x100000000000 >>> 12 &&& 0xFFFFFFFFF = 0x100000000 by decide]
    unfold Vm.unmapPage plain
    dsimp only
    rw [htable]
  unfold sysMunmap
  rw [if_neg (by decide), show (4096 + pageSize - 1) % 2 ^ 64 / pageSize = 1 by decide,
    show 0x100000000000 / pageSize * pageSize = 0x100000000000 by decide, Vm.munmapLoop, hunmap]
  rfl

/-- After the process has unmapped the page again, it is still given to it. -/
theorem unmapped_page_is_served : ∃ tr p l, Run (MmapStep PageMapper.plain noFiles) (sample, fun _ _ => none) tr (p, l) ∧
    tr.map Prod.snd = [sampleCall, .munmap 1 0x100000000000 4096] ∧
    p.Ready noFiles 0x40000 0x100000000000 ∧ l 1 0x100000000000 = none ∧
    (p.demandPageVma PageMapper.plain noFiles true ⟨none, 0⟩ 1 0x40000 1 0x100000000000).map Prod.fst = some true := by
  refine ⟨_, sampleMapped, _, (Run.nil.snoc sample_mmap).snoc (MmapStep.munmap sample_munmap), rfl,
    sample_ready (p := sampleMapped) rfl rfl rfl, if_pos ⟨rfl, by decide⟩, by decide +kernel⟩

end Pager
end NodeKernel
