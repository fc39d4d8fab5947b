import NodeKernel.Lib.Bytes
import NodeKernel.Memory.VmmRefinement

/-!
# Page cache

`kernel/src/page_cache.rs`: pages of files in frames of the allocator, under the inode number and
the offset of the page. In all functions `none` is a kernel that stops: in a panic, or in a walk
of a free list that has not ended.
-/
namespace NodeKernel
open Blocks Function List Nat Option Finset

namespace PhysMem

def byteAt (m : PhysMem) (page j : ℕ) : UInt8 := UInt8.ofNat (m page (j / 8) / 256 ^ (j % 8))

def putBytes (m : PhysMem) (page : ℕ) (bytes : List UInt8) : PhysMem :=
  fun a i =>
    if a = page then ofLe ((List.range 8).map (fun j => (bytes[8 * i + j]?).getD (m.byteAt page (8 * i + j))))
    else m a i

end PhysMem

namespace PhysMem
variable {m : PhysMem} {page a : ℕ} {bytes : List UInt8}

lemma putBytes_ne (h : a ≠ page) (i : ℕ) : m.putBytes page bytes a i = m a i := if_neg h

lemma byteAt_putBytes (j : ℕ) : (m.putBytes page bytes).byteAt page j = (bytes[j]?).getD (m.byteAt page j) := by
  have hk : j % 8 < 8 := mod_lt j (by decide)
  have hj : 8 * (j / 8) + j % 8 = j := div_add_mod j 8
  unfold byteAt putBytes
  rw [if_pos rfl, ofLe_byte, getElem?_map, getElem?_range hk, map_some, getD_some, hj]
  rfl

lemma byteAt_zero (h : m page = fun _ => 0) (j : ℕ) : m.byteAt page j = 0 := by
  unfold byteAt
  rw [h, Nat.zero_div]
  rfl

lemma byteAt_congr {m' : PhysMem} (h : ∀ i, m' page i = m page i) (j : ℕ) : m'.byteAt page j = m.byteAt page j := by
  unfold byteAt
  rw [h]

end PhysMem

structure PageCache where
  entries : ℕ × ℕ → Option ℕ
  lru : List (ℕ × ℕ)

namespace PageCache

def maxPages : ℕ := 1024

def empty : PageCache := ⟨fun _ => none, []⟩

def evict (vm : Vm) (entries : ℕ × ℕ → Option ℕ) : List (ℕ × ℕ) → Option (Vm × PageCache)
  | [] => some (vm, ⟨entries, []⟩)
  | oldKey :: lru =>
    if lru.length + 1 < maxPages then some (vm, ⟨entries, oldKey :: lru⟩)
    else
      match entries oldKey with
      | none => evict vm entries lru
      | some phys =>
        match vm.freeFrame phys with
        | none => none
        | some vm => evict vm (update entries oldKey none) lru

def insertFrame (c : PageCache) (vm : Vm) (key : ℕ × ℕ) (phys : ℕ) : Option (Vm × PageCache) :=
  (evict vm c.entries c.lru).map (fun (vm, c) =>
    (vm, ⟨update c.entries key (some phys), c.lru ++ [key]⟩))

/-- The result is the frame of the page, `0` if there is none. `loader` gives what it has read, in a
panic nothing. -/
def getOrLoadPage (c : PageCache) (vm : Vm) (ino pageOff : ℕ) (loader : ℕ → Option (List UInt8)) :
    Option (ℕ × Vm × PageCache) :=
  match c.entries (ino, pageOff) with
  | some phys => some (phys, vm, c)
  | none =>
    match vm.allocFrame with
    | none => some (0, vm, c)
    | some (phys, vm) =>
      match loader pageOff with
      | none => none
      | some bytes =>
        let vm := vm.withMem ((vm.pmm.mem.zeroPage phys).putBytes phys bytes)
        if bytes = [] then (vm.freeFrame phys).map (fun vm => (0, vm, c))
        else (c.insertFrame vm (ino, pageOff) phys).map (fun (vm, c) => (phys, vm, c))

/-- The loop of `read_bytes`: `left` bytes are still wanted, from `pos` on. The bytes are those that
it copies. -/
def readLoop (ino : ℕ) (loader : ℕ → Option (List UInt8)) : ℕ → PageCache → Vm → ℕ → ℕ → Option (List UInt8 × Vm × PageCache)
  | 0, c, vm, _, _ => some ([], vm, c)
  | fuel + 1, c, vm, pos, left =>
    if left = 0 then some ([], vm, c)
    else
      let pageOff := pos / pageSize * pageSize
      let pageInner := pos - pageOff
      let canRead := min (pageSize - pageInner) left
      match c.getOrLoadPage vm ino pageOff loader with
      | none => none
      | some (phys, vm, c) =>
        if phys = 0 then some ([], vm, c)
        else
          let bytes := (List.range canRead).map (fun i => vm.pmm.mem.byteAt phys (pageInner + i))
          (readLoop ino loader fuel c vm ((pos + canRead) % 2 ^ 64) (left - canRead)).map
            (fun (rest, vm, c) => (bytes ++ rest, vm, c))

/-- Every turn of the loop reads at least one byte. -/
def readBytes (c : PageCache) (vm : Vm) (ino fileOffset len : ℕ) (loader : ℕ → Option (List UInt8)) :
    Option (List UInt8 × Vm × PageCache) :=
  readLoop ino loader len c vm fileOffset len

end PageCache

namespace Vm.Refines
variable {vm vm' : Vm} {L : FreeLists} {out : Finset Block} {P roots : Set ℕ} {E : Finset Entry}
  {S : Finset ℕ} {σ : Space} {f p : ℕ}

variable (h : vm.Refines L out P roots E S σ)
include h

lemma allocFrame_ne_none (hpos : 0 < vm.pmm.listedPages) : vm.allocFrame ≠ none := by
  intro hnone
  have hempty := (h.tables.inv.allocOrder_none (by decide)).mp (allocFrame_none.mp hnone)
  have hzero : pagesOn L = 0 := by
    apply Finset.sum_eq_zero
    intro order ho
    rw [hempty order (Nat.zero_le _) (Finset.mem_range.mp ho), length_nil, Nat.zero_mul]
  rw [h.tables.inv.listedPages_eq, hzero] at hpos
  exact absurd hpos (lt_irrefl 0)

lemma takeSpare (hrun : vm.allocFrame = some (p, vm')) (mem : PhysMem) (hsame : ∀ a, a ≠ p → ∀ i, mem a i = vm'.pmm.mem a i) :
    ∃ L', (vm'.withMem mem).Refines L' (insert (blockAt p 0) out) P roots E (insert p S) σ ∧
      p ∉ S ∧ p ≠ 0 ∧ vm'.vmmRoot = vm.vmmRoot ∧ (∀ a ∈ S, ∀ i, mem a i = vm.pmm.mem a i) ∧
      (vm'.withMem mem).pmm.listedPages + 1 = vm.pmm.listedPages := by
  obtain ⟨L', hn⟩ := h.allocFill hrun mem hsame
  have href := hn.refines.insert_spare (mem_insert_self _ _) hn.fresh.noTable hn.fresh.unmapped
  refine ⟨L', href, hn.unspared, hn.nonzero, hn.root, ?_, ?_⟩
  · intro a haS
    exact hn.kept a (.inr (h.spare a haS).1)
  · obtain ⟨hpmm, _⟩ := allocFrame_some hrun
    obtain ⟨L₁, hal, _⟩ := h.alloc hrun
    have hone := h.tables.inv.listedPages_alloc hpmm
    have hafter := hal.inv.listedPages_add
    have hfilled := href.tables.inv.listedPages_add
    have htotal : (vm'.withMem mem).pmm.totalPages = vm'.pmm.totalPages := rfl
    omega

lemma freeSpare (hf : f ∈ S) : ∃ vm' L', vm.freeFrame f = some vm' ∧
      vm'.Refines L' (out.erase (blockAt f 0)) P roots E (S.erase f) σ ∧ vm'.vmmRoot = vm.vmmRoot ∧
      (∀ a ∈ S, a ≠ f → ∀ i, vm'.pmm.mem a i = vm.pmm.mem a i) ∧ vm.pmm.listedPages + 1 = vm'.pmm.listedPages := by
  obtain ⟨hout, hnot, hun⟩ := h.spare f hf
  obtain ⟨vm', L', hrun, href, hroot, _⟩ := (h.mono_spare (erase_subset f S)).free hout hnot hun (notMem_erase f S)
  obtain ⟨s', order', L₁, hfree, hfr⟩ := h.tables.inv.freeOrder_spec hout
  have hpmm : vm'.pmm = { s' with freePages := (vm.pmm.freePages + 2 ^ order') % 2 ^ 64 } := by
    unfold freeFrame Pmm.freeFrame at hrun
    rw [hfree] at hrun
    cases hrun
    rfl
  refine ⟨vm', L', hrun, href, hroot, ?_, ?_⟩
  · intro a haS hne i
    have hheld : Held (out.erase (blockAt f 0)) P a :=
      .inr (mem_erase.mpr ⟨fun he => hne (blockAt_injective he).1, (h.spare a haS).1⟩)
    rw [hpmm]
    exact hheld.sameOn hfr.same i
  · have htotal : vm'.pmm.totalPages = vm.pmm.totalPages := by
      rw [hpmm]
      exact hfr.totalPages
    have hbefore := h.tables.inv.listedPages_add
    have hafter := href.tables.inv.listedPages_add
    have hpages := pagesOut_erase hout
    rw [blockAt_exp, Nat.add_zero, Nat.sub_self, pow_zero] at hpages
    omega

end Vm.Refines

namespace PageCache
variable {c : PageCache} {vm : Vm} {L : FreeLists} {out : Finset Block} {P roots : Set ℕ}
  {E : Finset Entry} {S T : Finset ℕ} {σ : Space}

/-- Of the frames `S` that are set aside, the cache has some for itself, each under one key, and
`T` are those of others. -/
structure Backs (c : PageCache) (T S : Finset ℕ) : Prop where
  others : T ⊆ S
  frames : ∀ key f, c.entries key = some f → f ∈ S ∧ f ∉ T
  alone : ∀ key key' f, c.entries key = some f → c.entries key' = some f → key = key'

lemma Backs.drop {entries : ℕ × ℕ → Option ℕ} {lru lru' : List (ℕ × ℕ)} {key : ℕ × ℕ} {f : ℕ}
    (h : Backs ⟨entries, lru⟩ T S) (hf : entries key = some f) : Backs ⟨update entries key none, lru'⟩ T (S.erase f) := by
  have hold : ∀ k g, update entries key none k = some g → k ≠ key ∧ entries k = some g := by
    intro k g hg
    by_cases hk : k = key
    · rw [hk, update_self] at hg
      cases hg
    · rw [update_of_ne hk] at hg
      exact ⟨hk, hg⟩
  refine ⟨?_, ?_, ?_⟩
  · intro g hg
    refine mem_erase.mpr ⟨?_, h.others hg⟩
    exact fun he => (h.frames key f hf).2 (he ▸ hg)
  · intro k g hg
    obtain ⟨hk, hg⟩ := hold k g hg
    refine ⟨mem_erase.mpr ⟨?_, (h.frames k g hg).1⟩, (h.frames k g hg).2⟩
    exact fun he => hk (h.alone k key f (he ▸ hg) hf)
  · intro k k' g hg hg'
    exact h.alone k k' g (hold k g hg).2 (hold k' g hg').2

lemma Backs.insert {p : ℕ} (h : c.Backs T S) (hp : p ∉ S) : c.Backs (insert p T) (insert p S) := by
  refine ⟨insert_subset_insert p h.others, ?_, h.alone⟩
  intro k f hf
  obtain ⟨hfS, hfT⟩ := h.frames k f hf
  refine ⟨mem_insert_of_mem hfS, ?_⟩
  intro hc
  rcases mem_insert.mp hc with he | hc
  · exact hp (he ▸ hfS)
  · exact hfT hc

/-- The loop returns; it has dropped some pages, and touches no frame that is still set aside. -/
theorem evict_spec {entries : ℕ × ℕ → Option ℕ} {lru : List (ℕ × ℕ)}
    (href : vm.Refines L out P roots E S σ) (hb : Backs ⟨entries, lru⟩ T S) :
    ∃ vm' c' L' out' S', evict vm entries lru = some (vm', c') ∧
      vm'.Refines L' out' P roots E S' σ ∧ c'.Backs T S' ∧ S' ⊆ S ∧ vm'.vmmRoot = vm.vmmRoot ∧
      (∀ k f, c'.entries k = some f → entries k = some f) ∧ (∀ a ∈ S', ∀ i, vm'.pmm.mem a i = vm.pmm.mem a i) ∧
      vm.pmm.listedPages ≤ vm'.pmm.listedPages := by
  induction lru generalizing vm entries L out S with
  | nil =>
    exact ⟨vm, _, L, out, S, rfl, href, hb, Finset.Subset.refl S, rfl, fun _ _ h => h, fun _ _ _ => rfl, le_refl _⟩
  | cons oldKey lru ih =>
    rw [evict]
    by_cases hlen : lru.length + 1 < maxPages
    · rw [if_pos hlen]
      exact ⟨vm, _, L, out, S, rfl, href, hb, Finset.Subset.refl S, rfl, fun _ _ h => h, fun _ _ _ => rfl, le_refl _⟩
    · rw [if_neg hlen]
      cases hold : entries oldKey with
      | none => exact ih href ⟨hb.others, hb.frames, hb.alone⟩
      | some phys =>
        obtain ⟨vm₁, L₁, hfree, href₁, hroot₁, hkept₁, hpages₁⟩ := href.freeSpare (hb.frames oldKey phys hold).1
        obtain ⟨vm', c', L', out', S', hrun, href', hb', hS, hroot', hsub, hkept', hpages'⟩ := ih href₁ (hb.drop hold)
        dsimp only
        rw [hfree]
        refine ⟨vm', c', L', out', S', hrun, href', hb', hS.trans (erase_subset phys S), hroot'.trans hroot₁, ?_, ?_, by omega⟩
        · intro k f hf
          have hk := hsub k f hf
          by_cases hke : k = oldKey
          · rw [hke, update_self] at hk
            cases hk
          · rwa [update_of_ne hke] at hk
        · intro a ha i
          obtain ⟨hne, haS⟩ := mem_erase.mp (hS ha)
          rw [hkept' a ha i, hkept₁ a haS hne i]

lemma insertFrame_spec {p : ℕ} (href : vm.Refines L out P roots E (insert p S) σ)
    (hb : c.Backs T S) (hp : p ∉ S) (key : ℕ × ℕ) : ∃ vm' c' L' out' S', c.insertFrame vm key p = some (vm', c') ∧
      vm'.Refines L' out' P roots E S' σ ∧ c'.Backs T S' ∧ vm'.vmmRoot = vm.vmmRoot ∧ c'.entries key = some p ∧
      (∀ k f, c'.entries k = some f → k = key ∨ c.entries k = some f) ∧ (∀ a ∈ S', ∀ i, vm'.pmm.mem a i = vm.pmm.mem a i) ∧
      vm.pmm.listedPages ≤ vm'.pmm.listedPages := by
  have hb₁ : Backs ⟨c.entries, c.lru⟩ (insert p T) (insert p S) := hb.insert hp
  obtain ⟨vm', c', L', out', S', hrun, href', hb', _, hroot, hsub, hkept, hpages⟩ := evict_spec href hb₁
  have hpS : p ∈ S' := hb'.others (mem_insert_self p T)
  have hpT : p ∉ T := fun hc => hp (hb.others hc)
  have hcases : ∀ k f, update c'.entries key (some p) k = some f → (k = key ∧ f = p) ∨ (k ≠ key ∧ c'.entries k = some f) := by
    intro k f hf
    by_cases hk : k = key
    · rw [hk, update_self] at hf
      exact .inl ⟨hk, (Option.some.inj hf).symm⟩
    · rw [update_of_ne hk] at hf
      exact .inr ⟨hk, hf⟩
  have hother : ∀ k, c'.entries k ≠ some p := fun k hk => (hb'.frames k p hk).2 (mem_insert_self p T)
  unfold insertFrame
  rw [hrun]
  refine ⟨vm', _, L', out', S', rfl, href', ?_, hroot, update_self .., ?_, hkept, hpages⟩
  · refine ⟨fun g hg => hb'.others (mem_insert_of_mem hg), ?_, ?_⟩
    · intro k f hf
      rcases hcases k f hf with h | h
      · exact h.2 ▸ ⟨hpS, hpT⟩
      · obtain ⟨hfS, hfT⟩ := hb'.frames k f h.2
        exact ⟨hfS, fun hc => hfT (mem_insert_of_mem hc)⟩
    · intro k k' f hf hf'
      rcases hcases k f hf with h | h
      · rcases hcases k' f hf' with h' | h'
        · exact h.1.trans h'.1.symm
        · exact absurd (h.2 ▸ h'.2) (hother k')
      · rcases hcases k' f hf' with h' | h'
        · exact absurd (h'.2 ▸ h.2) (hother k)
        · exact hb'.alone k k' f h.2 h'.2
  · intro k f hf
    rcases hcases k f hf with h | h
    · exact .inl h.1
    · exact .inr (hsub k f h.2)

/-- The memory represents `σ`, and the cache has its own frames beside those of `T`. -/
def Stocked (c : PageCache) (vm : Vm) (P roots : Set ℕ) (E : Finset Entry) (T : Finset ℕ) (σ : Space) : Prop :=
  ∃ L out S, vm.Refines L out P roots E S σ ∧ c.Backs T S

/-- What has become of the cache after pages of `ino` were asked for: the spaces are as before, and
every page in it was there before or has been loaded. -/
structure Tended (c : PageCache) (vm : Vm) (P roots : Set ℕ) (E : Finset Entry) (T : Finset ℕ)
    (σ : Space) (ino : ℕ) (loader : ℕ → Option (List UInt8)) (vm' : Vm) (c' : PageCache) : Prop where
  stocked : c'.Stocked vm' P roots E T σ
  root : vm'.vmmRoot = vm.vmmRoot
  entries : ∀ k f, c'.entries k = some f →
    (c.entries k = some f ∧ ∀ i, vm'.pmm.mem f i = vm.pmm.mem f i) ∨
      ∃ off bytes, k = (ino, off) ∧ loader off = some bytes ∧
        ∀ j, vm'.pmm.mem.byteAt f j = (bytes[j]?).getD 0

variable {ino off : ℕ} {loader : ℕ → Option (List UInt8)}

lemma Tended.refl (h : c.Stocked vm P roots E T σ) : c.Tended vm P roots E T σ ino loader vm c :=
  ⟨h, rfl, fun _ _ hf => .inl ⟨hf, fun _ => rfl⟩⟩

lemma Tended.trans {c' c'' : PageCache} {vm' vm'' : Vm} (h : c.Tended vm P roots E T σ ino loader vm' c')
    (h' : c'.Tended vm' P roots E T σ ino loader vm'' c'') : c.Tended vm P roots E T σ ino loader vm'' c'' := by
  refine ⟨h'.stocked, h'.root.trans h.root, ?_⟩
  intro k f hf
  cases h'.entries k f hf with
  | inr hnew => exact .inr hnew
  | inl hold =>
    obtain ⟨hf', hsame⟩ := hold
    refine (h.entries k f hf').imp (fun ho => ⟨ho.1, fun i => (hsame i).trans (ho.2 i)⟩) ?_
    intro hnew
    obtain ⟨off, bytes, hk, hload, hbytes⟩ := hnew
    refine ⟨off, bytes, hk, hload, fun j => ?_⟩
    rw [PhysMem.byteAt_congr hsame]
    exact hbytes j

/-- The page is there or has just been loaded, or there is none: the loader has read nothing, or no
frame is left. -/
structure Loaded (c : PageCache) (vm : Vm) (P roots : Set ℕ) (E : Finset Entry) (T : Finset ℕ)
    (σ : Space) (ino off : ℕ) (loader : ℕ → Option (List UInt8)) (phys : ℕ) (vm' : Vm)
    (c' : PageCache) : Prop where
  tended : c.Tended vm P roots E T σ ino loader vm' c'
  found : phys ≠ 0 → c'.entries (ino, off) = some phys
  missing : phys = 0 → loader off = some [] ∨ vm.pmm.listedPages = 0
  pages : vm.pmm.listedPages ≤ vm'.pmm.listedPages + 1

lemma loaded_of_alloc {p : ℕ} {vm₁ : Vm} {bytes : List UInt8}
    (href : vm.Refines L out P roots E S σ) (hb : c.Backs T S) (halloc : vm.allocFrame = some (p, vm₁))
    (hload : loader off = some bytes) : ∃ phys vm' c', (if bytes = [] then
        ((vm₁.withMem ((vm₁.pmm.mem.zeroPage p).putBytes p bytes)).freeFrame p).map (fun vm => (0, vm, c))
      else (c.insertFrame (vm₁.withMem ((vm₁.pmm.mem.zeroPage p).putBytes p bytes)) (ino, off) p).map
        (fun (vm, c) => (p, vm, c))) = some (phys, vm', c') ∧ c.Loaded vm P roots E T σ ino off loader phys vm' c' := by
  have hsame : ∀ a, a ≠ p → ∀ i, (vm₁.pmm.mem.zeroPage p).putBytes p bytes a i = vm₁.pmm.mem a i := by
    intro a ha i
    rw [PhysMem.putBytes_ne ha]
    exact if_neg ha
  obtain ⟨L₁, href₁, hpS, hp0, hroot₁, hkept₁, hpages₁⟩ := href.takeSpare halloc _ hsame
  have hroot : (vm₁.withMem ((vm₁.pmm.mem.zeroPage p).putBytes p bytes)).vmmRoot = vm.vmmRoot := hroot₁
  have hbytes : ∀ j, (vm₁.withMem ((vm₁.pmm.mem.zeroPage p).putBytes p bytes)).pmm.mem.byteAt p j = (bytes[j]?).getD 0 := by
    intro j
    have hzero : vm₁.pmm.mem.zeroPage p p = fun _ => 0 := funext (fun _ => if_pos rfl)
    change ((vm₁.pmm.mem.zeroPage p).putBytes p bytes).byteAt p j = _
    rw [PhysMem.byteAt_putBytes, PhysMem.byteAt_zero hzero]
  have hkept : ∀ a ∈ S, ∀ i, (vm₁.withMem ((vm₁.pmm.mem.zeroPage p).putBytes p bytes)).pmm.mem a i = vm.pmm.mem a i := hkept₁
  generalize vm₁.withMem ((vm₁.pmm.mem.zeroPage p).putBytes p bytes) = vm₂ at *
  by_cases hempty : bytes = []
  · obtain ⟨vm₃, L₃, hfree, href₃, hroot₃, hkept₃, hpages₃⟩ := href₁.freeSpare (mem_insert_self p S)
    rw [erase_insert hpS] at href₃
    rw [if_pos hempty, hfree]
    refine ⟨0, vm₃, c, rfl, ⟨⟨_, _, _, href₃, hb⟩, hroot₃.trans hroot, ?_⟩, fun h0 => absurd rfl h0,
      fun _ => .inl (hempty ▸ hload), by omega⟩
    intro k f hf
    refine .inl ⟨hf, fun i => ?_⟩
    have hfS := (hb.frames k f hf).1
    rw [hkept₃ f (mem_insert_of_mem hfS) (fun he => hpS (he ▸ hfS)) i]
    exact hkept f hfS i
  · obtain ⟨vm₃, c₃, L₃, out₃, S₃, hins, href₃, hb₃, hroot₃, hkey, hsub, hkept₃, hpages₃⟩ :=
      insertFrame_spec href₁ hb hpS (ino, off)
    rw [if_neg hempty, hins]
    refine ⟨p, vm₃, c₃, rfl, ⟨⟨_, _, _, href₃, hb₃⟩, hroot₃.trans hroot, ?_⟩, fun _ => hkey, fun h0 => absurd h0 hp0, by omega⟩
    intro k f hf
    have hfS₃ := hkept₃ f (hb₃.frames k f hf).1
    rcases hsub k f hf with hk | hold
    · rw [hk, hkey] at hf
      obtain rfl := Option.some.inj hf
      refine .inr ⟨off, bytes, hk, hload, fun j => ?_⟩
      rw [PhysMem.byteAt_congr hfS₃]
      exact hbytes j
    · exact .inl ⟨hold, fun i => (hfS₃ i).trans (hkept f (hb.frames k f hold).1 i)⟩

/-- Only a panic of the loader keeps the call from returning. -/
theorem getOrLoadPage_spec (h : c.Stocked vm P roots E T σ) (ino off : ℕ) (loader : ℕ → Option (List UInt8)) :
    (c.getOrLoadPage vm ino off loader = none ∧ loader off = none) ∨
    ∃ phys vm' c', c.getOrLoadPage vm ino off loader = some (phys, vm', c') ∧
      c.Loaded vm P roots E T σ ino off loader phys vm' c' := by
  have hrefl : c.Tended vm P roots E T σ ino loader vm c := Tended.refl h
  obtain ⟨L, out, S, href, hb⟩ := h
  unfold getOrLoadPage
  cases hhit : c.entries (ino, off) with
  | some phys =>
    have hne : phys ≠ 0 := href.tables.inv.base_ne_zero (href.spare phys (hb.frames _ phys hhit).1).1
    exact .inr ⟨phys, vm, c, rfl, hrefl, fun _ => hhit, fun h0 => absurd h0 hne, le_succ _⟩
  | none =>
    cases halloc : vm.allocFrame with
    | none =>
      refine .inr ⟨0, vm, c, rfl, hrefl, fun h0 => absurd rfl h0, fun _ => .inr ?_, le_succ _⟩
      by_contra hpos
      exact href.allocFrame_ne_none (pos_of_ne_zero hpos) halloc
    | some q =>
      cases hload : loader off with
      | none => exact .inl ⟨rfl, rfl⟩
      | some bytes =>
        exact .inr (loaded_of_alloc href hb halloc hload)

lemma readLoop_tended (h : c.Stocked vm P roots E T σ) (ino : ℕ) (loader : ℕ → Option (List UInt8)) (fuel pos left : ℕ) :
    (readLoop ino loader fuel c vm pos left = none ∧ ∃ off < pos + left, pageSize ∣ off ∧ loader off = none) ∨
    ∃ bytes vm' c', readLoop ino loader fuel c vm pos left = some (bytes, vm', c') ∧
      c.Tended vm P roots E T σ ino loader vm' c' := by
  induction fuel generalizing c vm pos left with
  | zero => exact .inr ⟨[], vm, c, rfl, Tended.refl h⟩
  | succ fuel ih =>
    rw [readLoop]
    by_cases hleft : left = 0
    · rw [if_pos hleft]
      exact .inr ⟨[], vm, c, rfl, Tended.refl h⟩
    · rw [if_neg hleft]
      rcases getOrLoadPage_spec h ino (pos / pageSize * pageSize) loader with
        hnone | ⟨phys, vm₁, c₁, hrun, hl⟩
      · dsimp only
        rw [hnone.1]
        have hle := div_mul_le_self pos pageSize
        exact .inl ⟨rfl, _, by omega, dvd_mul_left _ _, hnone.2⟩
      · dsimp only
        rw [hrun]
        dsimp only
        by_cases hphys : phys = 0
        · rw [if_pos hphys]
          exact .inr ⟨[], vm₁, c₁, rfl, hl.tended⟩
        · rw [if_neg hphys]
          rcases ih hl.tended.stocked _ _ with hnone | ⟨rest, vm₂, c₂, hrest, ht⟩
          · obtain ⟨hnone, off, hoff, hdvd, hpanic⟩ := hnone
            rw [hnone]
            have hcan := min_le_right (pageSize - (pos - pos / pageSize * pageSize)) left
            generalize min (pageSize - (pos - pos / pageSize * pageSize)) left = can at hoff hcan
            exact .inl ⟨rfl, off, by omega, hdvd, hpanic⟩
          · rw [hrest]
            exact .inr ⟨_, vm₂, c₂, rfl, hl.tended.trans ht⟩

/-- The pages of `ino` in the cache have the bytes of `file`, with zeros behind its end. -/
def Holds (c : PageCache) (mem : PhysMem) (ino : ℕ) (file : List UInt8) : Prop :=
  ∀ off f, c.entries (ino, off) = some f → ∀ j < pageSize, mem.byteAt f j = (file[off + j]?).getD 0

lemma Tended.holds {c' : PageCache} {vm' : Vm} {file : List UInt8}
    (h : c.Tended vm P roots E T σ ino loader vm' c') (hc : c.Holds vm.pmm.mem ino file)
    (hload : ∀ off bytes, loader off = some bytes → bytes = (file.drop off).take pageSize) : c'.Holds vm'.pmm.mem ino file := by
  intro off f hf j hj
  rcases h.entries _ f hf with hold | hnew
  · rw [PhysMem.byteAt_congr hold.2]
    exact hc off f hold.1 j hj
  · obtain ⟨off', bytes, hk, hbytes, hread⟩ := hnew
    obtain ⟨_, rfl⟩ := Prod.mk.inj hk
    rw [hread, hload off bytes hbytes, getElem?_take_of_lt hj, getElem?_drop]

def pagesFor (pos left : ℕ) : ℕ := (pos % pageSize + left + pageSize - 1) / pageSize

lemma pagesFor_next (pos left : ℕ) (h : pageSize - pos % pageSize < left) :
    pagesFor (pos + (pageSize - pos % pageSize)) (left - (pageSize - pos % pageSize)) + 1 ≤ pagesFor pos left := by
  unfold pagesFor pageSize at *
  omega

lemma length_le_of_empty_page {file : List UInt8} {off : ℕ} (h : [] = (file.drop off).take pageSize) : file.length ≤ off := by
  have hlen := congrArg List.length h
  rw [length_take, length_drop, length_nil] at hlen
  have : pageSize ≠ 0 := by decide
  omega

lemma getElem?_page_append (page : ℕ → UInt8) (rest : List UInt8) (can j : ℕ) :
    ((List.range can).map page ++ rest)[j]? = if j < can then some (page j) else rest[j - can]? := by
  split_ifs with hj
  · rw [getElem?_append_left (by simpa using hj), getElem?_map, getElem?_range hj, map_some]
  · rw [getElem?_append_right (by simpa using not_lt.mp hj), length_map, length_range]

section Content
variable {file : List UInt8} {stop : ℕ}
  (hload : ∀ off bytes, loader off = some bytes → bytes = (file.drop off).take pageSize)
  (hok : ∀ off < stop, pageSize ∣ off → loader off ≠ none)
include hload hok

lemma readLoop_content (h : c.Stocked vm P roots E T σ) (hc : c.Holds vm.pmm.mem ino file)
    {fuel pos left : ℕ} (hfuel : left ≤ fuel) (hstop : pos + left ≤ stop) (hwrap : stop ≤ 2 ^ 64)
    (hpages : 0 < left → pagesFor pos left ≤ vm.pmm.listedPages) :
    ∃ bytes vm' c', readLoop ino loader fuel c vm pos left = some (bytes, vm', c') ∧
      c.Tended vm P roots E T σ ino loader vm' c' ∧ bytes.length ≤ left ∧
      ∀ j < left, (bytes[j]?).getD 0 = (file[pos + j]?).getD 0 := by
  induction fuel generalizing c vm pos left with
  | zero =>
    obtain rfl : left = 0 := le_zero.mp hfuel
    exact ⟨[], vm, c, rfl, Tended.refl h, le_refl _, fun j hj => absurd hj (not_lt_zero j)⟩
  | succ fuel ih =>
    rw [readLoop]
    by_cases hleft : left = 0
    · rw [if_pos hleft]
      exact ⟨[], vm, c, rfl, Tended.refl h, zero_le _, fun j hj => absurd (hleft ▸ hj) (not_lt_zero j)⟩
    · rw [if_neg hleft]
      have hpos := pos_of_ne_zero hleft
      have hinner : pos - pos / pageSize * pageSize = pos % pageSize := by
        have := div_add_mod' pos pageSize
        omega
      have hsplit : pos / pageSize * pageSize + pos % pageSize = pos := div_add_mod' pos pageSize
      have hmod : pos % pageSize < pageSize := mod_lt _ (by decide)
      rcases getOrLoadPage_spec h ino (pos / pageSize * pageSize) loader with
        hnone | ⟨phys, vm₁, c₁, hrun, hl⟩
      · exact absurd hnone.2 (hok _ (by omega) (dvd_mul_left _ _))
      · dsimp only
        rw [hrun, hinner]
        dsimp only
        have hc₁ := hl.tended.holds hc hload
        have hsupply : 0 < vm.pmm.listedPages := by
          refine lt_of_lt_of_le ?_ (hpages hpos)
          exact div_pos (by omega) (by decide)
        by_cases hphys : phys = 0
        · rw [if_pos hphys]
          refine ⟨[], vm₁, c₁, rfl, hl.tended, zero_le _, ?_⟩
          intro j _
          -- the loader has read nothing: the page lies behind the end of the file
          have hempty := hload _ _ ((hl.missing hphys).resolve_right (ne_of_gt hsupply))
          have hend := length_le_of_empty_page hempty
          rw [getElem?_nil, getElem?_eq_none (by omega)]
        · rw [if_neg hphys]
          generalize hcan : min (pageSize - pos % pageSize) left = can
          have hnext : 0 < left - can → (pos + can) % 2 ^ 64 = pos + can := fun hmore => mod_eq_of_lt (by omega)
          have hpages₁ : 0 < left - can → pagesFor ((pos + can) % 2 ^ 64) (left - can) ≤ vm₁.pmm.listedPages := by
            intro hmore
            obtain rfl : can = pageSize - pos % pageSize := by omega
            have hless := pagesFor_next pos left (by omega)
            have hspent := hl.pages
            rw [hnext hmore]
            omega
          obtain ⟨rest, vm₂, c₂, hrest, ht, hlen, hbytes⟩ := ih hl.tended.stocked hc₁ (by omega) (by omega) hpages₁
          rw [hrest]
          refine ⟨_, vm₂, c₂, rfl, hl.tended.trans ht, ?_, ?_⟩
          · dsimp only
            rw [length_append, length_map, length_range]
            omega
          · intro j hj
            rw [getElem?_page_append]
            split_ifs with hjc
            · have hread := hc₁ _ phys (hl.found hphys) (pos % pageSize + j) (by omega)
              rw [getD_some, hread, ← add_assoc, hsplit]
            · have hj' : j - can < left - can := by omega
              rw [hbytes _ hj', hnext (zero_lt_of_lt hj')]
              congr 2
              omega

end Content

end PageCache
end NodeKernel
