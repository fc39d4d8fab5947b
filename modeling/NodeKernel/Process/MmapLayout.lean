import NodeKernel.Process.Mmap

/-!
# The layout of lazy mappings

What a process should find at each of its pages is decided by the last call that covers the page.
The two tables of areas against this layout, over runs of `mmap` and `munmap`.
-/
namespace NodeKernel

open OrdMap

section FindVma
variable {β : Type} {stop : β → ℕ} {table : OrdMap VmaKey β} {pid q : Pid} {page start a : ℕ} {b v : β}

/-- The start is not before the last one of the process up to the page. -/
def LastStart (table : OrdMap VmaKey β) (pid : Pid) (page start : ℕ) : Prop :=
  ∀ start' v', (toLex (pid, start'), v') ∈ table.entries → start' ≤ page → start' ≤ start

lemma toLex_le_iff : (toLex (pid, start) : VmaKey) ≤ toLex (pid, page) ↔ start ≤ page := by
  rw [Prod.Lex.toLex_le_toLex]
  simp

lemma lastLE_of_pid : table.lastLE (toLex (q, page)) (fun k => (ofLex k).1 == q) = some (toLex (q, start), v) ↔
    (toLex (q, start), v) ∈ table.entries ∧ start ≤ page ∧ LastStart table q page start := by
  rw [lastLE_eq_some, toLex_le_iff]
  constructor
  · intro h
    obtain ⟨hmem, hle, _, hmax⟩ := h
    refine ⟨hmem, hle, ?_⟩
    intro start' v' hmem' hle'
    exact toLex_le_iff.mp (hmax _ hmem' (toLex_le_iff.mpr hle') (beq_self_eq_true q))
  · intro h
    obtain ⟨hmem, hle, hmax⟩ := h
    refine ⟨hmem, hle, beq_self_eq_true q, ?_⟩
    intro e he hle' hpid
    obtain ⟨⟨pid', start'⟩, v'⟩ := e
    obtain rfl : pid' = q := eq_of_beq hpid
    exact toLex_le_iff.mpr (hmax start' v' he (toLex_le_iff.mp hle'))

lemma findVma_eq_some : findVma stop table q page = some (start, v) ↔
    (toLex (q, start), v) ∈ table.entries ∧ start ≤ page ∧ page < stop v ∧ LastStart table q page start := by
  unfold findVma
  rw [Option.bind_eq_some_iff]
  constructor
  · intro h
    obtain ⟨⟨⟨pid', start'⟩, v'⟩, hlast, hfound⟩ := h
    obtain rfl : pid' = q := eq_of_beq (lastLE_eq_some.mp hlast).2.2.1
    split at hfound
    next hstop =>
      obtain ⟨rfl, rfl⟩ := Prod.mk.inj (Option.some.inj hfound)
      obtain ⟨hmem, hle, hmax⟩ := lastLE_of_pid.mp hlast
      exact ⟨hmem, hle, hstop, hmax⟩
    · cases hfound
  · intro h
    obtain ⟨hmem, hle, hstop, hmax⟩ := h
    exact ⟨_, lastLE_of_pid.mpr ⟨hmem, hle, hmax⟩, if_pos hstop⟩

lemma findVma_insert_new (hle : a ≤ page) (hlast : LastStart table pid page a) :
    findVma stop (table.insert (toLex (pid, a)) b) pid page =
      if page < stop b then some (a, b) else none := by
  have hfound : (table.insert (toLex (pid, a)) b).lastLE (toLex (pid, page)) (fun k => (ofLex k).1 == pid) =
      some (toLex (pid, a), b) := by
    refine lastLE_of_pid.mpr ⟨mem_insert.mpr (.inl rfl), hle, ?_⟩
    intro start' v' hmem hle'
    rcases mem_insert.mp hmem with he | he
    · exact (congrArg (fun e : VmaKey × β => (ofLex e.1).2) he).le
    · exact hlast start' v' he.1 hle'
  unfold findVma
  rw [hfound]
  rfl

/-- It changes nothing for other processes, before its start, and where a later area starts. -/
theorem findVma_insert_old (h : q ≠ pid ∨ page < a ∨ ∃ start v,
      (toLex (pid, start), v) ∈ table.entries ∧ start ≤ page ∧ a < start) :
    findVma stop (table.insert (toLex (pid, a)) b) q page = findVma stop table q page := by
  unfold findVma
  rw [lastLE_insert, if_neg]
  intro hc
  obtain ⟨hle, hpid, hmax⟩ := hc
  obtain rfl : pid = q := eq_of_beq hpid
  rcases h with hne | hlt | ⟨start, v, hmem, hstart, hafter⟩
  · exact hne rfl
  · exact absurd (toLex_le_iff.mp hle) (Nat.not_le_of_lt hlt)
  · have hle' := hmax _ hmem (toLex_le_iff.mpr hstart) hpid
    exact absurd (toLex_le_iff.mp hle') (Nat.not_le_of_lt hafter)

end FindVma

/-! ## What the calls mean -/

structure PageSpec where
  accessible : Bool
  writable : Bool
  executable : Bool
  bytes : ℕ → UInt8

abbrev Layout := Pid → ℕ → Option PageSpec

def Covers (addr len page : ℕ) : Prop := page < addr + len ∧ addr < page + pageSize

instance (addr len page : ℕ) : Decidable (Covers addr len page) := instDecidableAnd

def Layout.set (l : Layout) (pid : Pid) (addr len : ℕ) (spec : ℕ → Option PageSpec) : Layout :=
  fun q page => if q = pid ∧ Covers addr len page then spec page else l q page

/-- Zeros, or the bytes of the file from `offset` on, of which the first stands at `vaddr`. -/
def backing (fs : RamFiles) (path : Option String) (vaddr offset page : ℕ) : ℕ → UInt8 :=
  match path with
  | none => fun _ => 0
  | some path => fun j =>
    if vaddr ≤ page + j then ((((fs.data path).getD [])[offset + (page + j - vaddr)]?).getD 0) else 0

def mmapSpec (fs : RamFiles) (path : Option String) (vaddr prot offset page : ℕ) : PageSpec :=
  ⟨decide (prot &&& 7 ≠ 0), decide (prot &&& 2 ≠ 0), decide (prot &&& 4 ≠ 0),
    backing fs path vaddr offset page⟩

inductive MmapCall where
  | mmap (pid : Pid) (fdPath : ℤ → Option String) (rlimitAs addr len prot flags : ℕ) (fd : ℤ)
      (offset : ℕ)
  | munmap (pid : Pid) (addr len : ℕ)
  | other

def mappedPath (fdPath : ℤ → Option String) (fd : ℤ) : Option String :=
  if fd ≥ 0 then fdPath fd else none

/-- The calls in the kernel and in the layout, side by side; in between the rest of the kernel may do
anything that leaves the tables of the areas alone. -/
inductive MmapStep (M : PageMapper) (fs : RamFiles) : Pager × Layout → MmapCall → Pager × Layout → Prop
  | mmap {p p' : Pager} {l : Layout} {pid : Pid} {fdPath : ℤ → Option String}
      {rlimitAs addr len prot flags vaddr : ℕ} {fd : ℤ} {offset : ℕ} :
      p.sysMmap fs fdPath rlimitAs pid addr len prot flags fd offset = (.ok vaddr, p') →
      MmapStep M fs (p, l) (.mmap pid fdPath rlimitAs addr len prot flags fd offset)
        (p', l.set pid vaddr len (fun page =>
          some (mmapSpec fs (mappedPath fdPath fd) vaddr prot offset page)))
  | refused {p p' : Pager} {l : Layout} {pid : Pid} {fdPath : ℤ → Option String}
      {rlimitAs addr len prot flags : ℕ} {fd : ℤ} {offset : ℕ} {e : ℤ} :
      p.sysMmap fs fdPath rlimitAs pid addr len prot flags fd offset = (.error e, p') →
      MmapStep M fs (p, l) (.mmap pid fdPath rlimitAs addr len prot flags fd offset) (p', l)
  | munmap {p p' : Pager} {l : Layout} {pid : Pid} {addr len : ℕ} :
      p.sysMunmap M addr len = some p' →
      MmapStep M fs (p, l) (.munmap pid addr len) (p', l.set pid addr len (fun _ => none))
  | other {p p' : Pager} {l : Layout} : p'.vmas = p.vmas → p'.fileVmas = p.fileVmas →
      p'.mmapNext = p.mmapNext → MmapStep M fs (p, l) .other (p', l)

def pagesLen (len : ℕ) : ℕ := (len + pageSize - 1) / pageSize * pageSize

namespace Pager

/-- The new mapping does not cut into others: no area of the process starts inside it, no page past
its end belongs to an area that starts before it, and a mapping without a file covers no page of a
mapping with one. It lets the process at its pages. With a file, the kernel itself may write to the
pages, and the mapping ends with the file. -/
structure MmapPlain (p : Pager) (fs : RamFiles) (wp : Bool) (path : Option String) (pid : Pid)
    (vaddr len prot offset : ℕ) : Prop where
  bound : vaddr + pagesLen len < 2 ^ 64
  access : prot &&& 7 ≠ 0
  inside : ∀ start v, (toLex (pid, start), v) ∈ p.vmas.entries →
    start ≤ vaddr ∨ vaddr + pagesLen len ≤ start
  past : ∀ page start v, pageSize ∣ page → vaddr + pagesLen len ≤ page →
    findVma Vma.stop p.vmas pid page = some (start, v) → vaddr < start
  fresh : path = none → ∀ page, pageSize ∣ page → vaddr ≤ page → page < vaddr + pagesLen len →
    findVma FileVma.stop p.fileVmas pid page = none
  file : ∀ f, path = some f → (wp = false ∨ prot &&& 2 ≠ 0) ∧ offset + pagesLen len ≤ 2 ^ 64 ∧
    ∀ off, pageSize ∣ off → off < offset + pagesLen len → fs.readPage f off ≠ none

/-- The call leaves the tables of the areas in step with the layout: a mapping that is not refused
does not cut into others, and starts at a page boundary; what is unmapped was not mapped. -/
def KeepsLayout (p : Pager) (fs : RamFiles) (wp : Bool) : MmapCall → Prop
  | .mmap pid fdPath rlimitAs addr len prot flags fd offset =>
    len ≠ 0 → (rlimitAs = 2 ^ 64 - 1 ∨ len ≤ rlimitAs) →
      (flags &&& mapFixed ≠ 0 → pageSize ∣ addr) ∧
      p.MmapPlain fs wp (mappedPath fdPath fd) pid (p.mmapAddr addr flags) len prot offset
  | .munmap pid addr len => ∀ page, pageSize ∣ page → Covers addr len page →
      findVma Vma.stop p.vmas pid page = none
  | .other => True

def view (p : Pager) (fs : RamFiles) (pid : Pid) (page : ℕ) : Option PageSpec :=
  (findVma Vma.stop p.vmas pid page).map (fun (_, v) =>
    ⟨true, v.writable, v.executable,
      match findVma FileVma.stop p.fileVmas pid page with
      | none => fun _ => 0
      | some (start, fv) => fun j =>
        ((((fs.data fv.filePath).getD [])[fv.fileOff + (page - start) + j]?).getD 0)⟩)

structure FileOk (fs : RamFiles) (wp : Bool) (start : ℕ) (v : Vma) (fv : FileVma) : Prop where
  atStart : pageSize ∣ start
  atStop : pageSize ∣ fv.stop
  writable : wp = false ∨ v.writable = true
  bound : fv.fileOff + (fv.stop - start) ≤ 2 ^ 64
  loads : ∀ off, pageSize ∣ off → off < fv.fileOff + (fv.stop - start) →
    fs.readPage fv.filePath off ≠ none

/-- The tables of the areas show the layout. Where they have a file for a page, it is that of the
area. -/
structure Mirrors (p : Pager) (fs : RamFiles) (wp : Bool) (l : Layout) : Prop where
  next : pageSize ∣ p.mmapNext
  view : ∀ pid page, pageSize ∣ page → p.view fs pid page = l pid page
  keys : ∀ pid start fv, (toLex (pid, start), fv) ∈ p.fileVmas.entries →
    ∃ v, (toLex (pid, start), v) ∈ p.vmas.entries
  agree : ∀ pid page start v start' fv, pageSize ∣ page →
    findVma Vma.stop p.vmas pid page = some (start, v) →
    findVma FileVma.stop p.fileVmas pid page = some (start', fv) →
    start' = start ∧ FileOk fs wp start v fv

variable {p p' : Pager} {fs : RamFiles} {wp : Bool} {l : Layout} {pid : Pid}
  {fdPath : ℤ → Option String} {rlimitAs addr len prot flags vaddr offset : ℕ} {fd : ℤ}

lemma advance_next (h : pageSize ∣ p.mmapNext) : pageSize ∣ (p.advance addr len flags).mmapNext := by
  unfold advance
  split
  · exact h
  · have hwrap : pageSize ∣ 2 ^ 64 := by decide
    refine (Nat.dvd_mod_iff hwrap).mpr ?_
    exact Nat.dvd_add (Nat.dvd_add h (Nat.dvd_mul_left _ _)) (Nat.dvd_refl _)

lemma advance_tables (p : Pager) (addr len flags : ℕ) : (p.advance addr len flags).vmas = p.vmas ∧
    (p.advance addr len flags).fileVmas = p.fileVmas := by
  unfold advance
  split <;> exact ⟨rfl, rfl⟩

lemma sysMmap_error {e : ℤ} (h : p.sysMmap fs fdPath rlimitAs pid addr len prot flags fd offset = (.error e, p')) :
    p' = p ∨ p' = p.advance addr len flags := by
  unfold sysMmap at h
  split at h
  · exact .inl (Prod.mk.inj h).2.symm
  · split at h
    · exact .inr (Prod.mk.inj h).2.symm
    · split at h <;> cases (Prod.mk.inj h).1

structure Mapped (p : Pager) (fs : RamFiles) (path : Option String) (pid : Pid)
    (addr len prot flags offset vaddr : ℕ) (p' : Pager) : Prop where
  address : vaddr = p.mmapAddr addr flags
  vmas : p'.vmas = p.vmas.insert (toLex (pid, vaddr)) (vmaOf vaddr len prot)
  next : p'.mmapNext = (p.advance addr len flags).mmapNext
  anonymous : path = none → p'.fileVmas = p.fileVmas
  file : ∀ f, path = some f → p'.fileVmas = p.fileVmas.insert (toLex (pid, vaddr))
    ⟨(vmaOf vaddr len prot).stop, f, offset, (fs.ino f).getD 0, (vmaOf vaddr len prot).writable⟩

lemma sysMmap_ok (h : p.sysMmap fs fdPath rlimitAs pid addr len prot flags fd offset = (.ok vaddr, p')) :
    len ≠ 0 ∧ (rlimitAs = 2 ^ 64 - 1 ∨ len ≤ rlimitAs) ∧
      p.Mapped fs (mappedPath fdPath fd) pid addr len prot flags offset vaddr p' := by
  obtain ⟨hvmas, hfiles⟩ := p.advance_tables addr len flags
  unfold sysMmap at h
  split at h
  · cases (Prod.mk.inj h).1
  next hlen =>
    split at h
    · cases (Prod.mk.inj h).1
    next hlimit =>
      refine ⟨hlen, by omega, ?_⟩
      unfold mappedPath
      split at h
      next hpath =>
        obtain ⟨hv, rfl⟩ := Prod.mk.inj h
        obtain rfl := Except.ok.inj hv
        rw [hpath]
        exact ⟨rfl, by rw [← hvmas], rfl, fun _ => hfiles, nofun⟩
      next path hpath =>
        obtain ⟨hv, rfl⟩ := Prod.mk.inj h
        obtain rfl := Except.ok.inj hv
        rw [hpath]
        refine ⟨rfl, by rw [← hvmas], rfl, nofun, ?_⟩
        intro f hf
        obtain rfl := Option.some.inj hf
        rw [← hfiles]

lemma stop_vmaOf (h : vaddr + pagesLen len < 2 ^ 64) : (vmaOf vaddr len prot).stop = vaddr + pagesLen len := by
  have hlen : lenAligned len = pagesLen len := by
    unfold lenAligned pagesLen pageSize at *
    omega
  change (vaddr + lenAligned len) % 2 ^ 64 = _
  rw [hlen, Nat.mod_eq_of_lt h]

lemma covers_iff {page : ℕ} (hv : pageSize ∣ vaddr) (hp : pageSize ∣ page) :
    Covers vaddr len page ↔ vaddr ≤ page ∧ page < vaddr + pagesLen len := by
  obtain ⟨a, rfl⟩ := hv
  obtain ⟨b, rfl⟩ := hp
  unfold Covers pagesLen pageSize
  omega

section Mmap
variable {path : Option String} (h : p.Mirrors fs wp l)
  (hm : p.Mapped fs path pid addr len prot flags offset vaddr p') (hv : pageSize ∣ vaddr)
  (hplain : p.MmapPlain fs wp path pid vaddr len prot offset)
include h hm hv hplain

lemma find_mmap (q : Pid) {page : ℕ} (hpage : pageSize ∣ page) : (¬ (q = pid ∧ Covers vaddr len page) ∧
      findVma Vma.stop p'.vmas q page = findVma Vma.stop p.vmas q page ∧ (findVma Vma.stop p.vmas q page = none ∨
        findVma FileVma.stop p'.fileVmas q page = findVma FileVma.stop p.fileVmas q page)) ∨
    ((q = pid ∧ Covers vaddr len page) ∧ findVma Vma.stop p'.vmas q page = some (vaddr, vmaOf vaddr len prot) ∧
      (path = none → findVma FileVma.stop p'.fileVmas q page = none) ∧
      ∀ f, path = some f → findVma FileVma.stop p'.fileVmas q page = some (vaddr,
        ⟨vaddr + pagesLen len, f, offset, (fs.ino f).getD 0, (vmaOf vaddr len prot).writable⟩)) := by
  have hstop : (vmaOf vaddr len prot).stop = vaddr + pagesLen len := stop_vmaOf hplain.bound
  rw [covers_iff hv hpage, hm.vmas]
  by_cases hout : q ≠ pid ∨ page < vaddr
  · refine .inl ⟨fun hc => hout.elim (fun hne => hne hc.1) (fun hlt => by omega),
      findVma_insert_old (hout.imp id .inl), .inr ?_⟩
    cases hpath : path with
    | none => rw [hm.anonymous hpath]
    | some f =>
      rw [hm.file f hpath]
      exact findVma_insert_old (hout.imp id .inl)
  · rw [not_or, not_not, Nat.not_lt] at hout
    obtain ⟨rfl, hle⟩ := hout
    by_cases hin : page < vaddr + pagesLen len
    · have hlast : LastStart p.vmas q page vaddr := by
        intro start v hmem hstart
        rcases hplain.inside start v hmem with hle | hge
        · exact hle
        · omega
      refine .inr ⟨⟨rfl, hle, hin⟩, ?_, ?_, ?_⟩
      · rw [findVma_insert_new hle hlast, if_pos (hstop.symm ▸ hin)]
      · intro hpath
        rw [hm.anonymous hpath]
        exact hplain.fresh hpath page hpage hle hin
      · intro f hpath
        rw [hm.file f hpath, findVma_insert_new hle, hstop, if_pos hin]
        intro start fv hmem hstart
        obtain ⟨v, hmem'⟩ := h.keys q start fv hmem
        exact hlast start v hmem' hstart
    · refine .inl ⟨by omega, ?_⟩
      -- past the end of the new area: found as before, if a later area starts in between
      by_cases hlater : ∃ start v, (toLex (q, start), v) ∈ p.vmas.entries ∧ start ≤ page ∧ vaddr < start
      · refine ⟨findVma_insert_old (.inr (.inr hlater)), ?_⟩
        cases hpath : path with
        | none => exact .inr (by rw [hm.anonymous hpath])
        | some f =>
          rw [hm.file f hpath]
          by_cases hfile : ∃ start fv, (toLex (q, start), fv) ∈ p.fileVmas.entries ∧ start ≤ page ∧ vaddr < start
          · exact .inr (findVma_insert_old (.inr (.inr hfile)))
          · have hlast : LastStart p.fileVmas q page vaddr := by
              intro start fv hmem hstart
              by_contra hgt
              exact hfile ⟨start, fv, hmem, hstart, Nat.not_le.mp hgt⟩
            rw [findVma_insert_new hle hlast, hstop, if_neg hin]
            cases hfound : findVma Vma.stop p.vmas q page with
            | none => exact .inl rfl
            | some sv =>
              refine .inr ?_
              cases hold : findVma FileVma.stop p.fileVmas q page with
              | none => rfl
              | some sf =>
                obtain ⟨start, v, hmem, hstart, hafter⟩ := hlater
                have hsame := (h.agree q page sv.1 sv.2 sf.1 sf.2 hpage hfound hold).1
                have hf := findVma_eq_some.mp hold
                have hs := (findVma_eq_some.mp hfound).2.2.2 start v hmem hstart
                have hle' := hlast sf.1 sf.2 hf.1 hf.2.1
                omega
      · have hlast : LastStart p.vmas q page vaddr := by
          intro start v hmem hstart
          by_contra hgt
          exact hlater ⟨start, v, hmem, hstart, Nat.not_le.mp hgt⟩
        have hnone : findVma Vma.stop p.vmas q page = none := by
          cases hfound : findVma Vma.stop p.vmas q page with
          | none => rfl
          | some sv =>
            have hs := findVma_eq_some.mp hfound
            have hgt := hplain.past page sv.1 sv.2 hpage (Nat.not_lt.mp hin) hfound
            exact absurd (hlast sv.1 sv.2 hs.1 hs.2.1) (Nat.not_le_of_lt hgt)
        rw [findVma_insert_new hle hlast, hstop, if_neg hin, hnone]
        exact ⟨rfl, .inl rfl⟩

lemma Mirrors.mmap : p'.Mirrors fs wp (l.set pid vaddr len (fun page => some (mmapSpec fs path vaddr prot offset page))) := by
  have hcases := find_mmap h hm hv hplain
  refine ⟨?_, ?_, ?_, ?_⟩
  · rw [hm.next]
    exact advance_next h.next
  · intro q page hpage
    unfold Layout.set
    rcases hcases q hpage with ⟨hnot, hvma, hfile⟩ | ⟨hcov, hvma, hanon, hfile⟩
    · rw [if_neg hnot, ← h.view q page hpage]
      unfold Pager.view
      rw [hvma]
      rcases hfile with hnone | hsame
      · rw [hnone]; rfl
      · rw [hsame]
    · rw [if_pos hcov]
      unfold Pager.view mmapSpec
      rw [hvma, Option.map_some, decide_eq_true hplain.access]
      obtain ⟨hle, _⟩ := (covers_iff hv hpage).mp hcov.2
      cases hpath : path with
      | none =>
        rw [hanon hpath]
        rfl
      | some f =>
        rw [hfile f hpath]
        refine congrArg some (congrArg (PageSpec.mk _ _ _) ?_)
        funext j
        unfold backing
        dsimp only
        rw [if_pos (by omega), show page + j - vaddr = page - vaddr + j by omega, Nat.add_assoc]
  · intro q start fv hmem
    rw [hm.vmas]
    have hold : (toLex (q, start), fv) ∈ p.fileVmas.entries ∨ (toLex (q, start) : VmaKey) = toLex (pid, vaddr) := by
      cases hpath : path with
      | none =>
        rw [hm.anonymous hpath] at hmem
        exact .inl hmem
      | some f =>
        rw [hm.file f hpath] at hmem
        exact (mem_insert.mp hmem).symm.imp And.left (fun he => congrArg Prod.fst he)
    by_cases hkey : (toLex (q, start) : VmaKey) = toLex (pid, vaddr)
    · exact ⟨_, mem_insert.mpr (.inl (Prod.ext hkey rfl))⟩
    · obtain ⟨v, hmem'⟩ := h.keys q start fv (hold.resolve_right hkey)
      exact ⟨v, mem_insert.mpr (.inr ⟨hmem', hkey⟩)⟩
  · intro q page start v start' fv hpage hvma' hfile'
    rcases hcases q hpage with ⟨_, hvma, hfile⟩ | ⟨_, hvma, hanon, hfile⟩
    · rw [hvma] at hvma'
      rcases hfile with hnone | hsame
      · rw [hnone] at hvma'
        cases hvma'
      · rw [hsame] at hfile'
        exact h.agree q page start v start' fv hpage hvma' hfile'
    · obtain ⟨rfl, rfl⟩ := Prod.mk.inj (Option.mem_unique hvma hvma')
      cases hpath : path with
      | none =>
        rw [hanon hpath] at hfile'
        cases hfile'
      | some f =>
        rw [hfile f hpath] at hfile'
        obtain ⟨rfl, rfl⟩ := Prod.mk.inj (Option.some.inj hfile')
        obtain ⟨hw, hbound, hloads⟩ := hplain.file f hpath
        have hlen : vaddr + pagesLen len - vaddr = pagesLen len := Nat.add_sub_cancel_left _ _
        refine ⟨rfl, hv, Nat.dvd_add hv (Nat.dvd_mul_left _ _), hw.imp id decide_eq_true, ?_, ?_⟩
        · exact hlen.symm ▸ hbound
        · exact hlen.symm ▸ hloads

end Mmap

lemma Mirrors.munmap (h : p.Mirrors fs wp l) (hv : p'.vmas = p.vmas) (hf : p'.fileVmas = p.fileVmas)
    (hn : p'.mmapNext = p.mmapNext) (hcond : ∀ page, pageSize ∣ page → Covers addr len page →
      findVma Vma.stop p.vmas pid page = none) : p'.Mirrors fs wp (l.set pid addr len (fun _ => none)) := by
  refine ⟨hn ▸ h.next, ?_, hv ▸ hf ▸ h.keys, hv ▸ hf ▸ h.agree⟩
  intro q page hpage
  have hsame : p'.view fs q page = p.view fs q page := by
    unfold Pager.view
    rw [hv, hf]
  unfold Layout.set
  rw [hsame]
  by_cases hcov : q = pid ∧ Covers addr len page
  · obtain ⟨rfl, hcov⟩ := hcov
    rw [if_pos ⟨rfl, hcov⟩]
    unfold Pager.view
    rw [hcond page hpage hcov]
    rfl
  · rw [if_neg hcov]
    exact h.view q page hpage

lemma Mirrors.congr (h : p.Mirrors fs wp l) (hv : p'.vmas = p.vmas) (hf : p'.fileVmas = p.fileVmas)
    (hn : pageSize ∣ p'.mmapNext) : p'.Mirrors fs wp l := by
  refine ⟨hn, ?_, hv ▸ hf ▸ h.keys, hv ▸ hf ▸ h.agree⟩
  intro q page hpage
  rw [← h.view q page hpage]
  unfold Pager.view
  rw [hv, hf]

lemma sysMunmap_tables {M : PageMapper} (h : p.sysMunmap M addr len = some p') :
    p'.vmas = p.vmas ∧ p'.fileVmas = p.fileVmas ∧ p'.mmapNext = p.mmapNext := by
  unfold sysMunmap at h
  split at h
  · obtain rfl := Option.some.inj h
    exact ⟨rfl, rfl, rfl⟩
  · obtain ⟨vm, _, rfl⟩ := Option.map_eq_some_iff.mp h
    exact ⟨rfl, rfl, rfl⟩

lemma Mirrors.step {M : PageMapper} {s s' : Pager × Layout} {c : MmapCall}
    (h : s.1.Mirrors fs wp s.2) (hcond : s.1.KeepsLayout fs wp c) (hstep : MmapStep M fs s c s') : s'.1.Mirrors fs wp s'.2 := by
  cases hstep with
  | mmap hrun =>
    obtain ⟨hlen, hlimit, hm⟩ := sysMmap_ok hrun
    obtain ⟨hfixed, hplain⟩ := hcond hlen hlimit
    rw [← hm.address] at hplain
    refine h.mmap hm ?_ hplain
    rw [hm.address]
    unfold mmapAddr
    split
    next hf => exact hfixed hf.1
    · exact h.next
  | refused hrun =>
    rcases sysMmap_error hrun with rfl | rfl
    · exact h
    · exact h.congr (advance_tables ..).1 (advance_tables ..).2 (advance_next h.next)
  | munmap hrun =>
    obtain ⟨hv, hf, hn⟩ := sysMunmap_tables hrun
    exact h.munmap hv hf hn hcond
  | other hv hf hn => exact h.congr hv hf (hn ▸ h.next)

end Pager
end NodeKernel
