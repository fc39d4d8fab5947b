import NodeKernel.Files.WholeFiles

/-!
# Reading back what was written

What `read_file` returns after `write_file`: the content from before, and of a new file nothing.
-/
namespace NodeKernel

open Function List

namespace VfsTree

variable {t t' : VfsTree} {parent ino y : ℕ} {name path : Path} {data : List UInt8} {owner : Owner}

def Leads (t : VfsTree) (path : Path) (parent : ℕ) (name : Path) : Prop :=
  ∃ root ns, t.place path = some (root, ns ++ [name]) ∧ t.descend (some (root, ns)) = .ok parent

lemma create_mounts {node : Node} (h : t.create parent name node = .ok t') : t'.mounts = t.mounts := by
  unfold create at h
  split at h
  · split_ifs at h
    cases h
    rfl
  all_goals cases h

lemma lookupChild_create (h : t.create parent name (.file data owner) = .ok t') (c : Path) :
    t'.lookupChild ino c = .ok y ↔ t.lookupChild ino c = .ok y ∨ ino = parent ∧ c = name ∧ y = t.nextIno := by
  obtain ⟨children, o, hp, hnone, hnodes⟩ := create_ok h
  unfold lookupChild
  rw [hnodes]
  by_cases hparent : ino = parent
  · subst hparent
    rw [update_self, hp]
    by_cases hc : c = name
    · subst hc
      have hc : children c = none := Option.not_isSome_iff_eq_none.mp (by rw [hnone]; exact Bool.false_ne_true)
      simp [hc, eq_comm]
    · simp [hc]
  · rw [update_of_ne hparent]
    by_cases hnew : ino = t.nextIno
    · subst hnew
      rw [update_self, t.fresh _ le_rfl]
      simp [hparent]
    · rw [update_of_ne hnew]
      simp [hparent]

lemma descend_concat {root : ℕ} {ns : List Path} {c : Path} :
    t.descend (some (root, ns ++ [c])) = .ok y ↔ ∃ z, t.descend (some (root, ns)) = .ok z ∧ t.lookupChild z c = .ok y := by
  unfold descend
  simp only [foldlM_append, foldlM_cons, foldlM_nil, bind_pure]
  cases ns.foldlM t.lookupChild root with
  | error e => exact ⟨nofun, fun ⟨_, hz, _⟩ => nomatch hz⟩
  | ok z => exact ⟨fun hy => ⟨z, rfl, hy⟩, fun ⟨_, hz, hy⟩ => Except.ok.inj hz ▸ hy⟩

lemma descend_create (h : t.create parent name (.file data owner) = .ok t') (root : ℕ) (ns : List Path) :
    t'.descend (some (root, ns)) = .ok y ↔ t.descend (some (root, ns)) = .ok y ∨
      y = t.nextIno ∧ ∃ ns', ns = ns' ++ [name] ∧ t.descend (some (root, ns')) = .ok parent := by
  induction ns using reverseRecOn generalizing y with
  | nil => simp [descend]
  | append_singleton ns c ih =>
    rw [descend_concat, descend_concat]
    simp only [lookupChild_create h, ih]
    constructor
    · rintro ⟨z, hz | ⟨rfl, -⟩, hy | ⟨rfl, rfl, rfl⟩⟩
      · exact .inl ⟨z, hz, hy⟩
      · exact .inr ⟨rfl, ns, rfl, hz⟩
      · -- nothing is below a number that is not in use yet
        rw [lookupChild, t.fresh _ le_rfl] at hy
        cases hy
      · obtain ⟨_, _, hp, -⟩ := create_ok h
        exact absurd (lt_nextIno hp) (lt_irrefl _)
    · rintro (⟨z, hz, hy⟩ | ⟨rfl, ns', hns, hz⟩)
      · exact ⟨z, .inl hz, .inl hy⟩
      · obtain ⟨rfl, hc⟩ := append_inj' hns rfl
        exact ⟨parent, .inl hz, .inr ⟨rfl, singleton_inj.mp hc, rfl⟩⟩

lemma lookup_create {e : VfsError} (h : t.create parent name (.file data owner) = .ok t')
    (hnot : t.lookup path = .error e) : t'.lookup path = .ok y ↔ y = t.nextIno ∧ t.Leads path parent name := by
  have hplace : t'.place path = t.place path := by
    unfold place mountOf
    rw [create_mounts h]
  rw [lookup_eq] at hnot ⊢
  unfold Leads
  rw [hplace]
  cases hp : t.place path with
  | none => exact ⟨nofun, fun ⟨_, _, _, hsome, _⟩ => nomatch hsome⟩
  | some p =>
    obtain ⟨root, ns⟩ := p
    rw [hp] at hnot
    rw [descend_create h, or_iff_right (by rw [hnot]; exact nofun)]
    refine and_congr_right (fun _ => ?_)
    constructor
    · rintro ⟨ns', rfl, hd⟩
      exact ⟨root, ns', rfl, hd⟩
    · rintro ⟨_, ns', hsome, hd⟩
      cases hsome
      exact ⟨ns', rfl, hd⟩

end VfsTree

namespace RamVfs

variable {v v' v₁ : RamVfs} {euid : Option UInt32} {parent ino : ℕ} {path name : Path} {d : List UInt8}

lemma nodeToWrite_ok (h : v.nodeToWrite euid parent path name = .ok (ino, v₁)) :
    v₁.pages = v.pages ∧ (v.tree.lookup path = .ok ino ∧ v₁.tree = v.tree ∨
      v.tree.lookup path = .error .notFound ∧ ino = v.tree.nextIno ∧
        v.tree.createFile (v.creator euid) parent name = .ok v₁.tree) := by
  unfold nodeToWrite at h
  split at h
  next ino' hlookup =>
    cases h
    exact ⟨rfl, .inl ⟨hlookup, rfl⟩⟩
  next hlookup =>
    unfold checkedCreateFile at h
    split at h
    · cases h
    · split at h
      · cases h
      next t hcreate =>
        cases h
        exact ⟨rfl, .inr ⟨hlookup, rfl, hcreate⟩⟩
  · cases h

lemma writeFile_ok (h : v.writeFile euid path d = some (.ok (), v')) :
    ∃ parent ino v₁ data owner, v.tree.lookup (parentAndName path).1 = .ok parent ∧
      v.nodeToWrite euid parent path (parentAndName path).2 = .ok (ino, v₁) ∧
      v₁.tree.nodes ino = some (.file data owner) ∧ v₁.checkedOpen euid ino false = .ok ⟨data, 0⟩ ∧
      v' = { v₁ with pages := v₁.pages.invalidate ino } := by
  unfold writeFile at h
  dsimp only at h
  split at h
  · cases h
  next parent hparent =>
    split at h
    · cases h
    next ino v₁ hnode =>
      split at h
      · cases h
      next fh hopen =>
        split_ifs at h
        cases h
        obtain ⟨data, owner, hfile, hread⟩ := checkedOpen_write hopen
        exact ⟨parent, ino, v₁, data, owner, hparent, hnode, hfile, hread, rfl⟩

def OthersKept (v v' : RamVfs) (path : Path) : Prop :=
  ∀ ino data owner, v.tree.lookup path ≠ .ok ino → v.tree.nodes ino = some (.file data owner) →
    v'.tree.nodes ino = some (.file data owner) ∧
      ∀ off, v'.pages.cache.entries.get (cacheKey ino off) = v.pages.cache.entries.get (cacheKey ino off)

lemma writeFile_othersKept (h : v.writeFile euid path d = some (.ok (), v')) : v.OthersKept v' path := by
  obtain ⟨parent, ino, v₁, -, -, -, hnode, -, -, rfl⟩ := writeFile_ok h
  intro other data owner hother hfile
  dsimp only
  obtain ⟨hpages, ⟨hlookup, htree⟩ | ⟨-, rfl, hcreate⟩⟩ := nodeToWrite_ok hnode
  · have hne : other ≠ ino := by
      rintro rfl
      exact hother hlookup
    rw [htree, hpages]
    exact ⟨hfile, v.pages.invalidate_other hne⟩
  · rw [hpages]
    exact ⟨VfsTree.create_file hcreate hfile, v.pages.invalidate_other (Nat.ne_of_lt (VfsTree.lt_nextIno hfile))⟩

/-- The bytes are those that the file has, as far as the frames suffice to read them, or there are none and the path
leads to the new file. -/
def Kept (v : RamVfs) (path : Path) (d : List UInt8) : Prop :=
  match v.tree.lookup path with
  | .ok ino => ∃ data owner, v.tree.nodes ino = some (.file data owner) ∧
      d = if data.length ≤ cachedSize then v.pages.readable ino data else data
  | .error _ => d = [] ∧ ∃ parent, v.tree.lookup (parentAndName path).1 = .ok parent ∧
      v.tree.Leads path parent (parentAndName path).2

lemma readFile_written {data : List UInt8} {owner : Owner} (hlookup : v.tree.lookup path = .ok ino)
    (hfile : v.tree.nodes ino = some (.file data owner)) (hopen : v.checkedOpen euid ino false = .ok ⟨data, 0⟩) :
    (∃ v'', { v with pages := v.pages.invalidate ino }.readFile euid path = some (.ok d, v'')) ↔
      d = if data.length ≤ cachedSize then v.pages.readable ino data else data := by
  let w : RamVfs := { v with pages := v.pages.invalidate ino }
  have hread : ∃ v'', w.readFile euid path = _ := readFile_eq hlookup hfile hopen (v.pages.invalidate_none ino)
  obtain ⟨v'', hread⟩ := hread
  rw [show w.pages.reach data = v.pages.readable ino data from v.pages.reach_invalidate ino data] at hread
  constructor
  · rintro ⟨_, hd⟩
    cases hread.symm.trans hd
    rfl
  · rintro rfl
    exact ⟨v'', hread⟩

theorem writeFile_readFile_iff (h : v.writeFile euid path d = some (.ok (), v')) :
    ((∃ v'', v'.readFile euid path = some (.ok d, v'')) ∧ v.OthersKept v' path) ↔ v.Kept path d := by
  rw [and_iff_left (writeFile_othersKept h)]
  obtain ⟨parent, ino, v₁, data, owner, hparent, hnode, hfile, hopen, rfl⟩ := writeFile_ok h
  unfold Kept
  obtain ⟨hpages, ⟨hlookup, htree⟩ | ⟨hlookup, rfl, hcreate⟩⟩ := nodeToWrite_ok hnode
  · rw [readFile_written (htree ▸ hlookup) hfile hopen, hpages, hlookup]
    rw [htree] at hfile
    constructor
    · intro hd
      exact ⟨data, owner, hfile, hd⟩
    · rintro ⟨data', owner', hfile', hd⟩
      cases hfile.symm.trans hfile'
      exact hd
  · rw [hlookup]
    have hnil : data = [] := by
      cases hfile.symm.trans (VfsTree.create_new hcreate)
      rfl
    subst hnil
    by_cases hleads : v.tree.Leads path parent (parentAndName path).2
    · have hfound := (VfsTree.lookup_create hcreate hlookup).mpr ⟨rfl, hleads⟩
      rw [readFile_written hfound hfile hopen, CachedPages.readable, take_nil, ite_self, ite_self]
      exact (and_iff_left ⟨parent, hparent, hleads⟩).symm
    · refine iff_of_false ?_ ?_
      · rintro ⟨v'', hread⟩
        cases hfound : v₁.tree.lookup path with
        | error e =>
          rw [readFile, show ({ v₁ with pages := _ } : RamVfs).tree.lookup path = .error e from hfound] at hread
          cases hread
        | ok y => exact hleads ((VfsTree.lookup_create hcreate hlookup).mp hfound).2
      · rintro ⟨-, parent', hparent', hleads'⟩
        cases hparent.symm.trans hparent'
        exact hleads hleads'

theorem writeFile_readFile_iff_same_bytes : ∃ v', oneFile.writeFile none ['/', 'a'] [1] = some (.ok (), v') ∧
      (∃ v'', v'.readFile none ['/', 'a'] = some (.ok [1], v'')) ∧ oneFile.OthersKept v' ['/', 'a'] :=
  ⟨_, rfl, (writeFile_readFile_iff rfl).mpr ⟨[1], ⟨0, 0, 0o600⟩, rfl, by decide⟩⟩

/-- The bytes that were written are not in the file. -/
theorem old_bytes_read_back : ∃ v' v'', oneFile.writeFile none ['/', 'a'] [2] = some (.ok (), v') ∧
      v'.readFile none ['/', 'a'] = some (.ok [1], v'') := by
  have hread : ∃ v'', { oneFile with pages := oneFile.pages.invalidate 2 }.readFile none ['/', 'a'] =
      some (.ok [1], v'') := (readFile_written rfl rfl rfl).mpr (by decide)
  obtain ⟨v'', hv''⟩ := hread
  exact ⟨_, v'', rfl, hv''⟩

end RamVfs

end NodeKernel
