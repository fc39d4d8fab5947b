import NodeKernel.Memory.MapperParents
import NodeKernel.Memory.VmmFlags
import NodeKernel.Process.UserPages

/-!
# Loading the pages of a process

What a loader has put below the boot root, as pages with a permission and the bytes on them. `map_user_range` adds pages
of zeros, and the copies of the kernel change bytes where the page allows it.
-/
namespace NodeKernel
open Blocks Function Finset Nat List Option Pte Space

namespace ExecMem
variable {m : ExecMem} {L : FreeLists} {out : Finset Block} {P roots : Set ℕ} {E : Finset Entry} {S : Finset ℕ}
  {σ : Space} {root addr v : ℕ}

lemma div_lt_userPages (haddr : addr < 2 ^ 47) : addr / pageSize < userPages :=
  Nat.div_lt_of_lt_mul (haddr.trans_eq (by decide))

lemma canonical_user (haddr : addr < 2 ^ 47) : canonical addr = true := decide_eq_true (.inl haddr)

lemma shift_page (addr : ℕ) : addr >>> 12 = addr / pageSize := shiftRight_eq_div_pow addr 12

lemma walk_step (h : m.vm.Refines L out P roots E S σ) (hr : root ∈ roots) (hv : v < userPages) {d t : ℕ} (hd : d < 3)
    (ht : pageTables.tableAt m.vm.pmm.mem root d v = some t) :
    (Pte.present (m.vm.pmm.mem t (pageTables.slot d v)) = false ∧ pageTables.tableAt m.vm.pmm.mem root (d + 1) v = none) ∨
      (Pte.present (m.vm.pmm.mem t (pageTables.slot d v)) = true ∧
        (d ≠ 0 → Pte.huge (m.vm.pmm.mem t (pageTables.slot d v)) = false) ∧
        pageTables.tableAt m.vm.pmm.mem root (d + 1) v = some (Pte.frame (m.vm.pmm.mem t (pageTables.slot d v)))) := by
  have hnext : pageTables.tableAt m.vm.pmm.mem root (d + 1) v = childTable d (m.vm.pmm.mem t (pageTables.slot d v)) := by
    simp only [Radix.tableAt]
    rw [ht]
    rfl
  have hclean := h.tables.clean root hr d hd v hv t ht
  rw [hnext]
  by_cases hc : childTable d (m.vm.pmm.mem t (pageTables.slot d v)) = none
  · refine .inl ⟨?_, hc⟩
    rw [hclean.resolve_right (fun hn => hn hc)]
    rfl
  · have hboth := mt childTable_eq_none.mpr hc
    rw [not_or, not_and, Bool.not_eq_false] at hboth
    exact .inr ⟨hboth.1, fun h0 => Bool.eq_false_of_not_eq_true (hboth.2 h0), childTable_of_ne_none hc⟩

lemma translate_user (h : m.vm.Refines L out P roots E S σ) (hr : root ∈ roots) (haddr : addr < 2 ^ 47) :
    (Pte.present (σ.pte (root, addr / pageSize)) = false ∧ m.translate root addr = none) ∨
      (Pte.present (σ.pte (root, addr / pageSize)) = true ∧ ∃ w, m.translate root addr =
          some (Pte.frame (σ.pte (root, addr / pageSize)) + addr % pageSize,
            w && Pte.writable (σ.pte (root, addr / pageSize))) ∧ (OpenWay m.vm.pmm.mem root (addr / pageSize) → w = true)) := by
  have hv := div_lt_userPages haddr
  have hleaf := h.tables.pte root hr _ hv
  have hended : ∀ d ≤ 3, pageTables.tableAt m.vm.pmm.mem root d (addr / pageSize) = none →
      present (σ.pte (root, addr / pageSize)) = false := by
    intro d hd hnone
    rw [← hleaf, Radix.leaf_of_none (Radix.tableAt_none_of_le hd hnone)]
    rfl
  unfold translate Vm.read
  rw [canonical_user haddr, and_shift_eq_slot addr (d := 0) (s := 39) rfl, and_shift_eq_slot addr (d := 1) (s := 30) rfl,
    and_shift_eq_slot addr (d := 2) (s := 21) rfl, and_shift_eq_slot addr (d := 3) (s := 12) rfl, shift_page]
  dsimp only
  -- each entry on the way is absent, and then so is the page, or leads on
  rcases walk_step h hr hv (show 0 < 3 by decide) rfl with ⟨hp0, hn⟩ | ⟨hp0, -, ht1⟩
  · exact .inl ⟨hended 1 (by decide) hn, by simp [hp0]⟩
  rcases walk_step h hr hv (show 1 < 3 by decide) ht1 with ⟨hp1, hn⟩ | ⟨hp1, hh1, ht2⟩
  · exact .inl ⟨hended 2 (by decide) hn, by simp [hp0, hp1]⟩
  rcases walk_step h hr hv (show 2 < 3 by decide) ht2 with ⟨hp2, hn⟩ | ⟨hp2, hh2, ht3⟩
  · exact .inl ⟨hended 3 le_rfl hn, by simp [hp0, hp1, hh1, hp2]⟩
  have hread := h.read_entry hr hv ht3
  unfold Vm.read at hread
  have hw0 := fun hopen : OpenWay m.vm.pmm.mem root (addr / pageSize) => hopen.writable 0 (by decide) _ rfl
  have hw1 := fun hopen : OpenWay m.vm.pmm.mem root (addr / pageSize) => hopen.writable 1 (by decide) _ ht1
  have hw2 := fun hopen : OpenWay m.vm.pmm.mem root (addr / pageSize) => hopen.writable 2 (by decide) _ ht2
  generalize m.vm.pmm.mem root (pageTables.slot 0 (addr / pageSize)) = l4e at *
  generalize m.vm.pmm.mem (frame l4e) (pageTables.slot 1 (addr / pageSize)) = l3e at *
  generalize m.vm.pmm.mem (frame l3e) (pageTables.slot 2 (addr / pageSize)) = l2e at *
  cases hp : present (σ.pte (root, addr / pageSize)) with
  | false => exact .inl ⟨rfl, by simp [hp0, hp1, hh1, hp2, hh2, hread, hp]⟩
  | true =>
    refine .inr ⟨rfl, writable l4e && writable l3e && writable l2e, ?_, fun hopen => ?_⟩
    · have hoff : addr % 2 ^ 12 = addr % pageSize := rfl
      simp [hp0, hp1, hh1, hp2, hh2, hread, hp, ← hoff]
    · rw [hw0 hopen, hw1 hopen, hw2 hopen]
      rfl

lemma frame_mod (e : ℕ) : Pte.frame e % pageSize = 0 := by
  apply eq_of_testBit_eq
  intro i
  rw [show pageSize = 2 ^ 12 from rfl, testBit_mod_two_pow, zero_testBit]
  by_cases hi : i < 12
  · rw [(isFrame_frame e).testBit_low (.inl hi), Bool.and_false]
  · rw [decide_eq_false hi, Bool.false_and]

lemma frame_add (e addr : ℕ) : (Pte.frame e + addr % pageSize) / pageSize * pageSize = Pte.frame e ∧
    (Pte.frame e + addr % pageSize) % pageSize = addr % pageSize ∧
    (Pte.frame e + addr % pageSize) % 8 = addr % pageSize % 8 := by
  have hmod := frame_mod e
  generalize frame e = f at *
  simp only [pageSize] at *
  omega

def setByte (m : ExecMem) (f off : ℕ) (b : UInt8) : ExecMem :=
  { m with vm := m.vm.write f (off / 8) (setWordByte (m.vm.read f (off / 8)) (off % 8) b) }

lemma allocFramePredictive_widens (h : m.vm.Refines L out P roots E S σ) (hres : ∀ f ∈ m.reserve, f ∈ S) {f : ℕ}
    {m' : ExecMem} (hsome : m.allocFramePredictive = some (f, m')) : Widens roots m.vm.pmm.mem (m'.vm.pmm.mem.zeroPage f) := by
  unfold allocFramePredictive at hsome
  cases hr : m.reserve with
  | cons f₀ reserve =>
    rw [hr] at hsome hres
    obtain ⟨rfl, rfl⟩ := Prod.mk.inj (Option.some.inj hsome)
    have hnot := (h.spare f₀ (hres f₀ mem_cons_self)).2.1
    exact Widens.of_same (fun t ht i => if_neg (fun he : t = f₀ => hnot (he ▸ ht)))
  | nil =>
    rw [hr] at hsome
    obtain ⟨⟨f₀, vm'⟩, ha, he⟩ := map_eq_some_iff.mp hsome
    obtain ⟨rfl, rfl⟩ := Prod.mk.inj he
    obtain ⟨L', hn⟩ := h.allocFill ha (vm'.pmm.mem.zeroPage f₀) (fun a ha i => if_neg ha)
    exact Widens.of_same (fun t ht => hn.kept t (h.tables.tables t ht).2)

end ExecMem

/-- What has been loaded: the pages with their permission, and the bytes on them. -/
structure UserImage where
  page : ℕ → Option Bool
  bytes : ByteMem

namespace UserImage

def addPages (A : UserImage) (p n : ℕ) (w : Bool) : UserImage where
  page v := if p ≤ v ∧ v < p + n then some w else A.page v
  bytes a := if p ≤ a / pageSize ∧ a / pageSize < p + n then 0 else A.bytes a

def store (A : UserImage) (addr : ℕ) (bytes : List UInt8) : UserImage := { A with bytes := A.bytes.store addr bytes }

variable {A A' B : UserImage} {p n v a : ℕ} {w : Bool}

lemma addPages_zero : A.addPages p 0 w = A := by
  unfold addPages
  have hno : ∀ v, ¬ (p ≤ v ∧ v < p + 0) := by omega
  simp only [hno, if_false]

lemma addPages_succ : (A.addPages p 1 w).addPages (p + 1) n w = A.addPages p (n + 1) w := by
  unfold addPages
  have hiff : ∀ v, p ≤ v ∧ v < p + (n + 1) ↔ (p + 1 ≤ v ∧ v < p + 1 + n) ∨ (p ≤ v ∧ v < p + 1) := by omega
  congr 1
  · funext v
    simp only [hiff, ite_or]
  · funext a
    simp only [hiff, ite_or]

lemma addPages_page_of_lt (hlow : p ≤ v) (hhigh : v < p + n) : (A.addPages p n w).page v = some w := if_pos ⟨hlow, hhigh⟩

lemma addPages_page_of_not (h : ¬ (p ≤ v ∧ v < p + n)) : (A.addPages p n w).page v = A.page v := if_neg h

lemma addPages_bytes_of_not (h : ¬ (p ≤ a / pageSize ∧ a / pageSize < p + n)) : (A.addPages p n w).bytes a = A.bytes a :=
  if_neg h

def taken (A : UserImage) : Set ℕ := {v | A.page v ≠ none}

structure Extends (A A' : UserImage) : Prop where
  page : ∀ v ∈ A.taken, A'.page v = A.page v
  bytes : ∀ a, a / pageSize ∈ A.taken → A'.bytes a = A.bytes a

lemma Extends.refl (A : UserImage) : A.Extends A := ⟨fun _ _ => rfl, fun _ _ => rfl⟩

lemma Extends.taken_subset (h : A.Extends A') : A.taken ⊆ A'.taken := by
  intro v hv
  change A'.page v ≠ none
  rw [h.page v hv]
  exact hv

lemma Extends.trans (h : A.Extends A') (h' : A'.Extends B) : A.Extends B where
  page v hv := (h'.page v (h.taken_subset hv)).trans (h.page v hv)
  bytes a ha := (h'.bytes a (h.taken_subset ha)).trans (h.bytes a ha)

lemma extends_addPages (hfree : ∀ i < n, A.page (p + i) = none) : A.Extends (A.addPages p n w) := by
  have hnot : ∀ v ∈ A.taken, ¬ (p ≤ v ∧ v < p + n) := by
    rintro v hv ⟨hlow, hhigh⟩
    refine hv ?_
    have hnone := hfree (v - p) (by omega)
    rwa [Nat.add_sub_cancel' hlow] at hnone
  exact ⟨fun v hv => addPages_page_of_not (hnot v hv), fun a ha => addPages_bytes_of_not (hnot _ ha)⟩

end UserImage

/-- Where something is loaded. Pages are mapped in the tables of the boot root, and bytes are written through the active
root; `targets` are the pages that the load is about. -/
structure LoadSite where
  M : PageMapper
  P : Set ℕ
  roots : Set ℕ
  E : Finset Entry
  boot : ℕ
  active : ℕ
  targets : Set ℕ
  lawful : M.Lawful
  opens : M.Opens
  boot_mem : boot ∈ roots
  active_mem : active ∈ roots
  covers : ∀ v < userPages, (boot, v) ∈ E
  targets_lt : ∀ v ∈ targets, v < userPages

namespace LoadSite
variable {K : LoadSite} {m : ExecMem} {A : UserImage} {L : FreeLists} {out : Finset Block} {σ : Space} {v addr : ℕ} {w : Bool}

/-- The page is mapped with the permission `w` and holds these bytes, in a frame that nothing else maps. -/
structure Loaded (K : LoadSite) (σ : Space) (v : ℕ) (w : Bool) (bytes : ByteMem) : Prop where
  present : Pte.present (σ.pte (K.boot, v)) = true
  writable : Pte.writable (σ.pte (K.boot, v)) = w
  alone : ∀ y ∈ K.E, y ≠ (K.boot, v) → ¬ σ.Maps y (Pte.frame (σ.pte (K.boot, v)))
  data : ∀ off < pageSize,
    wordByte (σ.data (Pte.frame (σ.pte (K.boot, v))) (off / 8)) (off % 8) = bytes (v * pageSize + off)

/-- The memory holds the image: its pages are mapped, the other targets are not. -/
structure At (K : LoadSite) (m : ExecMem) (A : UserImage) (L : FreeLists) (out : Finset Block) (σ : Space) : Prop where
  refines : m.vm.Refines L out K.P K.roots K.E m.reserve.toFinset σ
  nodup : m.reserve.Nodup
  root : m.vm.vmmRoot = K.boot
  user : ∀ v w, A.page v = some w → v < userPages
  loaded : ∀ v w, A.page v = some w → K.Loaded σ v w A.bytes
  unused : ∀ v ∈ K.targets, A.page v = none → σ.pte (K.boot, v) = 0
  away : K.active ≠ K.boot → ∀ v ∈ K.targets, Pte.present (σ.pte (K.active, v)) = false

def Holds (K : LoadSite) (m : ExecMem) (A : UserImage) : Prop := ∃ L out σ, K.At m A L out σ

def Open (K : LoadSite) (m : ExecMem) (A : UserImage) : Prop := ∀ v, A.page v = some true → OpenWay m.vm.pmm.mem K.boot v

lemma At.maps (h : K.At m A L out σ) (hv : A.page v = some w) : (K.boot, v) ∈ K.E ∧
    σ.Maps (K.boot, v) (Pte.frame (σ.pte (K.boot, v))) :=
  ⟨K.covers v (h.user v w hv), (h.loaded v w hv).present, rfl⟩

lemma At.frame_ne (h : K.At m A L out σ) {v' : ℕ} {w' : Bool} (hv : A.page v = some w) (hv' : A.page v' = some w')
    (hne : v' ≠ v) : Pte.frame (σ.pte (K.boot, v')) ≠ Pte.frame (σ.pte (K.boot, v)) := by
  intro he
  refine (h.loaded v w hv).alone (K.boot, v') (h.maps hv').1 (fun hc => hne (Prod.mk.inj hc).2) ?_
  rw [← he]
  exact (h.maps hv').2

lemma Holds.readByte (h : K.Holds m A) (haddr : addr < 2 ^ 47) (hv : A.page (addr / pageSize) = some w) :
    m.readByte K.boot addr = some (A.bytes addr) := by
  obtain ⟨L, out, σ, hat⟩ := h
  have hl := hat.loaded _ _ hv
  obtain ⟨hE, hmaps⟩ := hat.maps hv
  obtain ⟨habsent, -⟩ | ⟨-, w', htr, -⟩ := ExecMem.translate_user hat.refines K.boot_mem haddr
  · rw [hl.present] at habsent
    cases habsent
  · obtain ⟨hpage, hoff, hbyte⟩ := ExecMem.frame_add (σ.pte (K.boot, addr / pageSize)) addr
    unfold ExecMem.readByte
    rw [htr, map_some]
    rw [hpage, hoff, hbyte, show m.vm.read _ _ = σ.data _ _ from hat.refines.data _ hE _ hmaps _]
    have hdata := hl.data (addr % pageSize) (mod_lt _ (by decide))
    rw [div_add_mod'] at hdata
    exact congrArg some hdata

lemma Holds.writeByte_faults (h : K.Holds m A) (haddr : addr < 2 ^ 47) (htarget : addr / pageSize ∈ K.targets)
    (hno : K.active = K.boot → A.page (addr / pageSize) ≠ some true) (b : UInt8) : m.writeByte K.active addr b = none := by
  obtain ⟨L, out, σ, hat⟩ := h
  have hcase := ExecMem.translate_user hat.refines K.active_mem haddr
  unfold ExecMem.writeByte
  obtain ⟨-, htr⟩ | ⟨hpresent, w', htr, -⟩ := hcase
  · rw [htr]
  · by_cases hactive : K.active = K.boot
    · rw [hactive] at hpresent htr
      cases hpage : A.page (addr / pageSize) with
      | none =>
        rw [hat.unused _ htarget hpage] at hpresent
        cases hpresent
      | some w =>
        have hw : w = false := by
          cases w with
          | false => rfl
          | true => exact absurd hpage (hno hactive)
        rw [hactive, htr, (hat.loaded _ _ hpage).writable, hw, Bool.and_false]
    · rw [hat.away hactive _ htarget] at hpresent
      cases hpresent

lemma At.write (h : K.At m A L out σ) (hv : A.page v = some true) {off : ℕ} (hoff : off < pageSize) (b : UInt8) :
    K.At (m.setByte (Pte.frame (σ.pte (K.boot, v))) off b)
      { A with bytes := update A.bytes (v * pageSize + off) b } L out
      (σ.setData (frame (σ.pte (K.boot, v))) (update (σ.data (frame (σ.pte (K.boot, v)))) (off / 8)
        (setWordByte (m.vm.read (frame (σ.pte (K.boot, v))) (off / 8)) (off % 8) b))) := by
  obtain ⟨hE, hmaps⟩ := h.maps hv
  have hread : m.vm.read (frame (σ.pte (K.boot, v))) (off / 8) = σ.data (frame (σ.pte (K.boot, v))) (off / 8) :=
    h.refines.data _ hE _ hmaps _
  refine ⟨h.refines.writeWord (h.refines.held _ hE _ hmaps) (h.refines.apart _ hE _ hmaps) _ _, h.nodup, h.root, h.user, ?_,
    h.unused, h.away⟩
  intro v' w' hv'
  have hl := h.loaded v' w' hv'
  refine ⟨hl.present, hl.writable, hl.alone, fun off' hoff' => ?_⟩
  change wordByte (update σ.data _ _ (frame (σ.pte (K.boot, v'))) (off' / 8)) (off' % 8) =
    update A.bytes (v * pageSize + off) b (v' * pageSize + off')
  by_cases hvv : v' = v
  · subst hvv
    rw [update_self]
    by_cases hword : off' / 8 = off / 8
    · rw [hword, update_self, wordByte_setWordByte]
      by_cases hbyte : off' % 8 = off % 8
      · have heq : off' = off := by omega
        rw [if_pos hbyte, heq, update_self]
      · have hne : v' * pageSize + off' ≠ v' * pageSize + off := fun he => hbyte (by rw [add_left_cancel he])
        rw [if_neg hbyte, update_of_ne hne, hread, ← hword]
        exact hl.data off' hoff'
    · have hne : v' * pageSize + off' ≠ v' * pageSize + off := fun he => hword (by rw [add_left_cancel he])
      rw [update_of_ne hword, update_of_ne hne]
      exact hl.data off' hoff'
  · have hne : v' * pageSize + off' ≠ v * pageSize + off := by
      intro he
      have hdiv : (v' * pageSize + off') / pageSize = (v * pageSize + off) / pageSize := by rw [he]
      simp only [pageSize] at hdiv hoff hoff'
      omega
    rw [update_of_ne (h.frame_ne hv hv' hvv), update_of_ne hne]
    exact hl.data off' hoff'

lemma Holds.writeByte (h : K.Holds m A) (ho : K.Open m A) (haddr : addr < 2 ^ 47)
    (hv : A.page (addr / pageSize) = some true) (b : UInt8) :
    ∃ m', m.writeByte K.boot addr b = some m' ∧ K.Holds m' { A with bytes := update A.bytes addr b } ∧
      K.Open m' A ∧ ∀ k, m'.vm.pmm.serves k = m.vm.pmm.serves k := by
  obtain ⟨L, out, σ, hat⟩ := h
  have hl := hat.loaded _ _ hv
  obtain ⟨hE, hmaps⟩ := hat.maps hv
  have hw := hat.write hv (mod_lt addr (show 0 < pageSize by decide)) b
  rw [div_add_mod'] at hw
  obtain ⟨habsent, -⟩ | ⟨-, w', htr, hopen⟩ := ExecMem.translate_user hat.refines K.boot_mem haddr
  · rw [hl.present] at habsent
    cases habsent
  · obtain ⟨hpage, hoff, hbyte⟩ := ExecMem.frame_add (σ.pte (K.boot, addr / pageSize)) addr
    refine ⟨_, ?_, ⟨L, out, _, hw⟩, fun v hpv => ?_, fun k => ?_⟩
    · unfold ExecMem.writeByte
      rw [htr, hl.writable, hopen (ho _ hv), Bool.and_self]
      dsimp only
      rw [hpage, hoff, hbyte]
      rfl
    · refine (ho v hpv).widen (Widens.of_same (fun t ht i => ?_)) K.boot_mem (hat.user v _ hpv)
      exact PhysMem.write_ne _ (.inl (fun he => hat.refines.apart _ hE _ hmaps (he ▸ ht)))
    · exact hw.refines.tables.inv.serves_congr hat.refines.tables.inv

lemma reserve_of_drawn {m m' : ExecMem} {f : ℕ} (hn : m.reserve.Nodup)
    (hd : ExecMem.Drawn m.reserve.toFinset m.reserve f m'.reserve) :
    m.reserve.toFinset.erase f = m'.reserve.toFinset ∧ m'.reserve.Nodup := by
  obtain hcons | ⟨hnot, hsame⟩ := hd
  · rw [hcons] at hn ⊢
    rw [toFinset_cons, erase_insert (fun hc => (nodup_cons.mp hn).1 (mem_toFinset.mp hc))]
    exact ⟨rfl, (nodup_cons.mp hn).2⟩
  · rw [erase_eq_of_notMem hnot, hsame]
    exact ⟨rfl, hn⟩

variable {m' : ExecMem}

lemma At.given (h : K.At m A L out σ) {f : ℕ} {x : Bool} (hv : v < userPages)
    (hd : ExecMem.Drawn m.reserve.toFinset m.reserve f m'.reserve)
    (hg : m.vm.PageGiven K.P K.roots K.E (m.reserve.toFinset.erase f) σ v (userFlags w x) f m'.vm) :
    K.Holds m' (A.addPages v 1 w) := by
  obtain ⟨hres, hnodup⟩ := reserve_of_drawn h.nodup hd
  obtain ⟨L', out', href⟩ := hg.refines
  rw [hres, h.root] at href
  have hpage : ∀ v', v' ≠ v → (A.addPages v 1 w).page v' = A.page v' := fun v' hne => UserImage.addPages_page_of_not (by omega)
  have hbytes : ∀ v' off, off < pageSize → v' ≠ v →
      (A.addPages v 1 w).bytes (v' * pageSize + off) = A.bytes (v' * pageSize + off) := by
    intro v' off hoff hne
    refine UserImage.addPages_bytes_of_not ?_
    simp only [pageSize] at hoff ⊢
    omega
  have hentry : ∀ v', v' ≠ v → (K.boot, v') ≠ (K.boot, v) := fun v' hne he => hne (Prod.mk.inj he).2
  refine ⟨L', out', _, href, hnodup, hg.root.trans h.root, ?_, ?_, ?_, ?_⟩
  · intro v' w' hv'
    by_cases hvv : v' = v
    · exact hvv ▸ hv
    · rw [hpage v' hvv] at hv'
      exact h.user v' w' hv'
  · intro v' w' hv'
    by_cases hvv : v' = v
    · subst hvv
      rw [UserImage.addPages_page_of_lt le_rfl (by omega)] at hv'
      obtain rfl := Option.some.inj hv'
      have hframe : frame (f ||| userFlags w x) = f := frame_user hg.isFrame
      refine ⟨?_, ?_, ?_, ?_⟩
      · rw [setPte_self]
        exact present_user hg.isFrame
      · rw [setPte_self]
        exact writable_user hg.isFrame
      · intro y hy hne hm
        rw [setPte_self, hframe] at hm
        obtain ⟨he, -⟩ | ⟨-, hm⟩ := maps_of_setPte hm
        · exact hne he
        · exact hg.unmapped y hy hm
      · intro off hoff
        rw [setPte_self, hframe]
        change wordByte (update σ.data f _ f (off / 8)) (off % 8) = _
        rw [update_self]
        unfold UserImage.addPages wordByte
        dsimp only
        rw [if_pos (by simp only [pageSize] at hoff ⊢; omega), Nat.zero_div]
        rfl
    · rw [hpage v' hvv] at hv'
      have hl := h.loaded v' w' hv'
      have hne : frame (σ.pte (K.boot, v')) ≠ f := by
        intro he
        refine hg.unmapped _ (h.maps hv').1 ?_
        rw [← he]
        exact (h.maps hv').2
      refine ⟨?_, ?_, ?_, ?_⟩
      · rw [setPte_ne (hentry v' hvv)]
        exact hl.present
      · rw [setPte_ne (hentry v' hvv)]
        exact hl.writable
      · intro y hy hyne hm
        rw [setPte_ne (hentry v' hvv)] at hm
        obtain ⟨-, -, he⟩ | ⟨-, hm⟩ := maps_of_setPte hm
        · exact hne (he.trans (frame_user hg.isFrame))
        · exact hl.alone y hy hyne hm
      · intro off hoff
        rw [setPte_ne (hentry v' hvv), hbytes v' off hoff hvv]
        change wordByte (update σ.data f _ (frame (σ.pte (K.boot, v'))) (off / 8)) (off % 8) = _
        rw [update_of_ne hne]
        exact hl.data off hoff
  · intro v' hv' hnone
    have hvv : v' ≠ v := by
      rintro rfl
      rw [UserImage.addPages_page_of_lt le_rfl (by omega)] at hnone
      cases hnone
    rw [hpage v' hvv] at hnone
    rw [setPte_ne (hentry v' hvv)]
    exact h.unused v' hv' hnone
  · intro hactive v' hv'
    rw [setPte_ne (fun he => hactive (Prod.mk.inj he).1)]
    exact h.away hactive v' hv'

lemma At.refused (h : K.At m A L out σ) {f : ℕ} (hd : ExecMem.Drawn m.reserve.toFinset m.reserve f m'.reserve)
    (hg : m.vm.PageRefused K.P K.roots K.E (m.reserve.toFinset.erase f) σ v m'.vm) : K.Holds m' A := by
  obtain ⟨hres, hnodup⟩ := reserve_of_drawn h.nodup hd
  obtain ⟨L', out', href⟩ := hg.refines
  rw [hres] at href
  exact ⟨L', out', σ, href, hnodup, hg.root.trans h.root, h.user, h.loaded, h.unused, h.away⟩

lemma missingTables_le (mem : PhysMem) (root page : ℕ) : missingTables mem root page ≤ 3 :=
  (card_filter_le _ _).trans_eq (card_range 3)

lemma writable_userFlags : ∀ w x, Pte.writable (userFlags w x) = w := by decide

lemma mapPages_one {M : PageMapper} {flags : ℕ} (hrun : ExecMem.mapPages M flags 1 addr m = some (true, m')) :
    ∃ f m₁, m.allocFramePredictive = some (f, m₁) ∧
      ((m₁.vm.withMem (m₁.vm.pmm.mem.zeroPage f)).mapPage M (addr >>> 12 &&& 0xFFFFFFFFF) f flags).1 = true ∧
      m'.vm = ((m₁.vm.withMem (m₁.vm.pmm.mem.zeroPage f)).mapPage M (addr >>> 12 &&& 0xFFFFFFFFF) f flags).2 := by
  unfold ExecMem.mapPages at hrun
  cases ha : m.allocFramePredictive with
  | none =>
    rw [ha] at hrun
    cases hrun
  | some q =>
    obtain ⟨f, m₁⟩ := q
    rw [ha] at hrun
    dsimp only at hrun
    split at hrun
    · cases hrun
    · split at hrun
      · next hok => exact ⟨f, m₁, rfl, hok, (Prod.mk.inj (Option.some.inj hrun)).2 ▸ rfl⟩
      · cases hrun

lemma At.opened (h : K.At m A L out σ) (ho : K.Open m A) (hv : v < userPages) {x : Bool}
    (hrun : ExecMem.mapPages K.M (userFlags w x) 1 (v * pageSize) m = some (true, m')) : K.Open m' (A.addPages v 1 w) := by
  obtain ⟨f, m₁, ha, hok, hvm⟩ := mapPages_one hrun
  have hvpn : (v * pageSize) >>> 12 &&& 0xFFFFFFFFF = v := by
    rw [page_shift, show 0xFFFFFFFFF = 2 ^ 36 - 1 from rfl, and_two_pow_sub_one_eq_mod]
    exact mod_eq_of_lt (hv.trans (by decide))
  rw [hvpn] at hok hvm
  have hwidens := ExecMem.allocFramePredictive_widens h.refines (fun f hf => mem_toFinset.mpr hf) ha
  obtain ⟨hnone, -⟩ | ⟨f', m₁', L', out', hsome, -, hc⟩ := ExecMem.allocFramePredictive_spec h.refines
    (fun f hf => mem_toFinset.mpr hf)
  · rw [ha] at hnone
    cases hnone
  · obtain ⟨rfl, rfl⟩ := Prod.mk.inj (mem_unique ha hsome)
    have hframe := hc.refines.tables.inv.isFrame hc.refines.tables.bounded hc.held
    have hroot : (m₁.vm.withMem (m₁.vm.pmm.mem.zeroPage f)).vmmRoot = K.boot := hc.root.trans h.root
    unfold Vm.mapPage at hok hvm
    rw [hroot] at hok hvm
    obtain ⟨hnew, hold⟩ := K.opens.mapTo hc.refines.tables K.boot_mem hv hframe (mapFlags_user w x) hok
    intro v' hv'
    rw [hvm]
    by_cases hvv : v' = v
    · subst hvv
      rw [UserImage.addPages_page_of_lt le_rfl (by omega)] at hv'
      exact hnew ((writable_userFlags w x).trans (Option.some.inj hv'))
    · rw [UserImage.addPages_page_of_not (by omega)] at hv'
      exact hold v' (h.user v' _ hv') ((ho v' hv').widen hwidens K.boot_mem (h.user v' _ hv'))

lemma Holds.mapPage (h : K.Holds m A) (ho : K.Open m A) (hv : v ∈ K.targets) {k : ℕ}
    (hs : m.vm.pmm.serves k = true) (hk : 4 ≤ k) (w x : Bool) :
    if A.page v = none then
      ∃ m' k', ExecMem.mapPages K.M (userFlags w x) 1 (v * pageSize) m = some (true, m') ∧
        K.Holds m' (A.addPages v 1 w) ∧ K.Open m' (A.addPages v 1 w) ∧ m'.vm.pmm.serves k' = true ∧ k ≤ k' + 4
    else ∃ m', ExecMem.mapPages K.M (userFlags w x) 1 (v * pageSize) m = some (false, m') ∧ K.Holds m' A := by
  obtain ⟨L, out, σ, hat⟩ := h
  have huser := K.targets_lt v hv
  have hdiv : v * pageSize / pageSize = v := Nat.mul_div_cancel _ (by decide)
  have hmiss := missingTables_le m.vm.pmm.mem m.vm.vmmRoot v
  obtain ⟨f, ok, m', hrun, hdrawn, hres⟩ := ExecMem.mapUserRange_page hat.refines K.lawful (hat.root ▸ K.boot_mem)
    (fun f hf => List.mem_toFinset.mpr hf) (hdiv.symm ▸ huser) w x
  rw [hdiv] at hres
  split
  · next hfree =>
    have hunused : σ.pte (m.vm.vmmRoot, v) = 0 := by
      rw [hat.root]
      exact hat.unused v hv hfree
    obtain ⟨rfl, hg⟩ | ⟨-, hg⟩ := hres
    · obtain ⟨n, hn, hspent⟩ := hg.spent
      obtain ⟨k', rfl⟩ := Nat.exists_eq_add_of_le (show n + missingTables m.vm.pmm.mem m.vm.vmmRoot v ≤ k by omega)
      rw [hspent k'] at hs
      exact ⟨m', k', hrun, hat.given huser hdrawn hg, hat.opened ho huser hrun, hs, by omega⟩
    · rw [hg.not_serves hunused (show 1 + missingTables m.vm.pmm.mem m.vm.vmmRoot v ≤ k by omega)] at hs
      cases hs
  · next hused =>
    obtain ⟨w', hw'⟩ := Option.ne_none_iff_exists'.mp hused
    obtain ⟨rfl, hg⟩ | ⟨rfl, hg⟩ := hres
    · have hpresent := (hat.loaded v w' hw').present
      rw [← hat.root, hg.unused] at hpresent
      cases hpresent
    · exact ⟨m', hrun, hat.refused hdrawn hg⟩

lemma mapPages_succ {M : PageMapper} {flags n : ℕ} {ok : Bool}
    (h : ExecMem.mapPages M flags 1 addr m = some (ok, m')) : ExecMem.mapPages M flags (n + 1) addr m =
      if ok then ExecMem.mapPages M flags n ((addr + pageSize) % 2 ^ 64) m' else some (false, m') := by
  rw [ExecMem.mapPages] at h ⊢
  cases ha : m.allocFramePredictive with
  | none =>
    rw [ha] at h
    obtain ⟨rfl, rfl⟩ := Prod.mk.inj (Option.some.inj h)
    rfl
  | some q =>
    rw [ha] at h
    dsimp only at h ⊢
    split at h
    · cases h
    · next hc =>
      rw [if_neg hc]
      split at h
      · next hok =>
        obtain ⟨rfl, rfl⟩ := Prod.mk.inj (Option.some.inj h)
        rw [if_pos hok]
        rfl
      · next hok =>
        obtain ⟨rfl, rfl⟩ := Prod.mk.inj (Option.some.inj h)
        rw [if_neg hok]
        rfl

lemma next_page {p : ℕ} (hp : p < userPages) : (p * pageSize + pageSize) % 2 ^ 64 = (p + 1) * pageSize := by
  rw [succ_mul]
  refine mod_eq_of_lt ?_
  simp only [pageSize, userPages] at hp ⊢
  omega

variable {p n k : ℕ} {x : Bool}

lemma forall_next {Q : ℕ → Prop} (h : ∀ i < n + 1, Q (p + i)) : ∀ i < n, Q (p + 1 + i) := by
  intro i hi
  rw [add_assoc, add_comm 1]
  exact h (i + 1) (by omega)

/-- What is left of an attempt to get from `A` to `A'` with at most `4 * n` frames. It gets there if all is in order; if not,
what was there before is still there, unless the kernel faults. -/
inductive Attempt (K : LoadSite) (A A' : UserImage) (k n : ℕ) (inOrder faultless : Prop) : Option (Bool × ExecMem) → Prop
  | done {m' : ExecMem} {k' : ℕ} (hok : inOrder) (h : K.Holds m' A') (ho : K.Open m' A') (hs : m'.vm.pmm.serves k' = true)
      (hk : k ≤ k' + 4 * n) : Attempt K A A' k n inOrder faultless (some (true, m'))
  | refused {m' : ExecMem} {B : UserImage} (hno : ¬ inOrder) (hfree : faultless) (h : K.Holds m' B) (hext : A.Extends B) :
      Attempt K A A' k n inOrder faultless (some (false, m'))
  | fault (hno : ¬ inOrder) (hfault : ¬ faultless) : Attempt K A A' k n inOrder faultless none

lemma Attempt.trans {A' B : UserImage} {k' n' : ℕ} {ok ok' free free' : Prop} {r : Option (Bool × ExecMem)}
    (h : K.Attempt A' B k' n' ok' free' r) (hext : A.Extends A') (hk : k ≤ k' + 4 * n) (hok : ok ↔ ok')
    (hfree : free ↔ free') : K.Attempt A B k (n + n') ok free r := by
  cases h with
  | done hok' h ho hs hk' => exact .done (hok.mpr hok') h ho hs (by omega)
  | refused hno hfree' h hext' => exact .refused (mt hok.mp hno) (hfree.mpr hfree') h (hext.trans hext')
  | fault hno hfault => exact .fault (mt hok.mp hno) (mt hfree.mp hfault)

lemma Holds.mapPages (h : K.Holds m A) (ho : K.Open m A) (hv : ∀ i < n, p + i ∈ K.targets)
    (hs : m.vm.pmm.serves k = true) (hk : 4 * n ≤ k) : K.Attempt A (A.addPages p n w) k n (∀ i < n, A.page (p + i) = none) True
      (ExecMem.mapPages K.M (userFlags w x) n (p * pageSize) m) := by
  induction n generalizing p m A k with
  | zero =>
    rw [UserImage.addPages_zero]
    exact .done (fun i hi => absurd hi (not_lt_zero i)) h ho hs (by omega)
  | succ n ih =>
    have hpage := h.mapPage ho (hv 0 (by omega)) hs (by omega) w x
    rw [add_zero] at hpage
    split at hpage
    · next hfree =>
      obtain ⟨m₁, k₁, hrun, h₁, ho₁, hs₁, hk₁⟩ := hpage
      rw [mapPages_succ hrun, if_pos rfl, next_page (K.targets_lt p (hv 0 (by omega))), ← UserImage.addPages_succ, add_comm n]
      refine (ih h₁ ho₁ (forall_next hv) hs₁ (by omega)).trans (UserImage.extends_addPages ?_) hk₁ ?_ Iff.rfl
      · intro i hi
        rwa [lt_one_iff.mp hi]
      · have hsame : ∀ i, (A.addPages p 1 w).page (p + 1 + i) = A.page (p + 1 + i) :=
          fun i => UserImage.addPages_page_of_not (by omega)
        simp only [hsame]
        refine ⟨fun hall i hi => forall_next (Q := fun v => A.page v = none) (fun j hj => hall j (by omega)) i hi, ?_⟩
        rintro hrest (_ | i) hi
        · exact hfree
        · rw [add_comm i, ← add_assoc]
          exact hrest i (by omega)
    · next hused =>
      obtain ⟨m', hrun, h'⟩ := hpage
      rw [mapPages_succ hrun]
      exact .refused (fun hall => hused (hall 0 (by omega))) trivial h' (.refl A)

lemma Holds.writeBytes {bytes : List UInt8} (h : K.Holds m A) (ho : K.Open m A) (haddr : addr + bytes.length ≤ 2 ^ 47)
    (hv : ∀ i < bytes.length, A.page ((addr + i) / pageSize) = some true) :
    ∃ m', m.writeBytes K.boot addr bytes = some m' ∧ K.Holds m' (A.store addr bytes) ∧ K.Open m' (A.store addr bytes) ∧
      ∀ k, m'.vm.pmm.serves k = m.vm.pmm.serves k := by
  induction bytes generalizing addr m A with
  | nil =>
    have hnil : A.store addr [] = A := by
      unfold UserImage.store
      rw [ByteMem.store_nil]
    exact ⟨m, rfl, hnil.symm ▸ h, hnil.symm ▸ ho, fun _ => rfl⟩
  | cons b bytes ih =>
    rw [length_cons] at haddr hv
    obtain ⟨m₁, hrun, h₁, ho₁, hs₁⟩ := h.writeByte ho (show addr < 2 ^ 47 by omega) (hv 0 (by omega)) b
    have hv₁ : ∀ i < bytes.length, A.page ((addr + 1 + i) / pageSize) = some true :=
      forall_next (Q := fun a => A.page (a / pageSize) = some true) hv
    obtain ⟨m', hrest, h', ho', hs'⟩ := ih h₁ ho₁ (by omega) hv₁
    have hcons : A.store addr (b :: bytes) = UserImage.store { A with bytes := update A.bytes addr b } (addr + 1) bytes := by
      unfold UserImage.store
      rw [ByteMem.store_cons]
    rw [hcons]
    refine ⟨m', ?_, h', ho', fun k => (hs' k).trans (hs₁ k)⟩
    rw [ExecMem.writeBytes, hrun]
    exact hrest

end LoadSite
end NodeKernel
