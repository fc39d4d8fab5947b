import NodeKernel.Files.PathResolution
import NodeKernel.Memory.CachedPages
import NodeKernel.Users.Sudo

/-!
# Reading and writing whole files

`vfs::read_file` and `vfs::write_file` over a tree of `ramfs`. A file of up to 64 MiB is read through the page cache,
where only the loader of a missing page checks the permissions.
-/
namespace NodeKernel

open List Nat

structure Stat where
  ino : ℕ
  size : ℕ
  isDir : Bool
  nlink : ℕ
  uid : ℕ
  gid : ℕ
  mode : UInt16

namespace Node

def isRamfs : Node → Bool
  | file _ _ | dir _ _ | symlink _ => true
  | fixed _ | drive _ _ | device _ => false

def withOwner (f : Owner → Owner) : Node → Node
  | file data owner => .file data (f owner)
  | dir children owner => .dir children (f owner)
  | n => n

end Node

def parentAndName (path : Path) : Path × Path :=
  let name := (path.reverse.takeWhile (fun c => c ≠ '/')).reverse
  match path.reverse.dropWhile (fun c => c ≠ '/') with
  | [] | [_] => (['/'], name)
  | _ :: parent => (parent.reverse, name)

namespace RamFileHandle

lemma read_lt {h h' : RamFileHandle} {len : ℕ} {bytes : List UInt8} (hr : h.read len = some (bytes, h'))
    (hb : bytes ≠ []) : h'.data.length - h'.pos < h.data.length - h.pos := by
  unfold read at hr
  split_ifs at hr
  obtain ⟨rfl, rfl⟩ := hr
  have hlen := length_pos_iff.mpr hb
  simp only [length_take, length_drop] at hlen ⊢
  omega

/-- Reads of 4096 bytes until one returns nothing. -/
def readAll (h : RamFileHandle) : Option (List UInt8) :=
  match hr : h.read 4096 with
  | none => none
  | some (bytes, h') =>
    if hb : bytes = [] then some []
    else
      have := read_lt hr hb
      h'.readAll.map (bytes ++ ·)
termination_by h.data.length - h.pos

lemma readAll_eq {h : RamFileHandle} (hpos : h.pos ≤ h.data.length) : h.readAll = some (h.data.drop h.pos) := by
  induction hn : h.data.length - h.pos using Nat.strong_induction_on generalizing h with
  | _ left ih =>
    have hread : h.read 4096 = some ((h.data.drop h.pos).take 4096,
        { h with pos := h.pos + ((h.data.drop h.pos).take 4096).length }) := by
      unfold read
      rw [if_neg (not_lt.mpr hpos)]
    rw [readAll]
    split
    next hnone => cases hread.symm.trans hnone
    next bytes h' hsome =>
      cases hread.symm.trans hsome
      split_ifs with hb
      · rw [take_eq_nil_iff, or_iff_right (by decide)] at hb
        rw [hb]
      · have hlen := length_pos_iff.mpr hb
        rw [length_take, length_drop] at hlen
        rw [ih _ (hn ▸ read_lt hread hb) (by simp only [length_take, length_drop]; omega) rfl]
        have htake : (h.data.drop h.pos).take 4096 = (h.data.drop h.pos).take (min 4096 (h.data.drop h.pos).length) := by
          rw [take_eq_take_iff, min_assoc, min_self]
        rw [Option.map_some, ← drop_drop, length_take, htake, take_append_drop]

end RamFileHandle

/-- The file system of `ramfs` with the page cache, and who is logged in. -/
structure RamVfs where
  tree : VfsTree
  ramfs : ∀ ino n, tree.nodes ino = some n → n.isRamfs = true
  pages : CachedPages
  session : UserSession
  umask : UInt16

namespace RamVfs

def stat (v : RamVfs) (ino : ℕ) : Except VfsError Stat :=
  match v.tree.nodes ino with
  | some (.file data owner) => .ok ⟨ino, data.length, false, 1, owner.uid, owner.gid, owner.mode⟩
  | some (.dir _ owner) => .ok ⟨ino, 0, true, 2, owner.uid, owner.gid, owner.mode⟩
  | some (.symlink target) => .ok ⟨ino, (String.ofList target).utf8ByteSize, false, 1, 0, 0, 0o120777⟩
  | _ => .error .notFound

def openNode (v : RamVfs) (ino : ℕ) : Except VfsError RamFileHandle :=
  match v.tree.nodes ino with
  | some (.file data _) => .ok ⟨data, 0⟩
  | some (.dir _ _) => .error .notAFile
  | some (.symlink _) => .error .invalidArgument
  | _ => .error .notFound

def permBits (v : RamVfs) (uid : UInt32) (st : Stat) : UInt16 :=
  let gid := (v.session.db.getUser uid).elim 0xffffffff User.gid
  if uid.toNat = st.uid then st.mode >>> 6 &&& 0o7
  else if gid.toNat = st.gid then st.mode >>> 3 &&& 0o7
  else st.mode &&& 0o7

def checkPerm (v : RamVfs) (euid : Option UInt32) (ino : ℕ) (want : UInt8) : Except VfsError Unit :=
  let uid := v.session.uid euid
  if uid = 0 then .ok ()
  else
    match v.stat ino with
    | .error e => .error e
    | .ok st => if (v.permBits uid st).toUInt8 &&& want = want then .ok () else .error .permissionDenied

def checkedOpen (v : RamVfs) (euid : Option UInt32) (ino : ℕ) (write : Bool) : Except VfsError RamFileHandle :=
  match v.checkPerm euid ino (if write then 6 else 4) with
  | .error e => .error e
  | .ok () => v.openNode ino

def creator (v : RamVfs) (euid : Option UInt32) : Creator :=
  let uid := v.session.uid euid
  ⟨uid.toNat, (v.session.db.getUser uid).elim 0 (fun u => u.gid.toNat), v.umask⟩

lemma isRamfs_of_createFile {v : RamVfs} {u : Creator} {parent : ℕ} {name : Path} {t : VfsTree}
    (h : v.tree.createFile u parent name = .ok t) (ino : ℕ) (n : Node) (hn : t.nodes ino = some n) : n.isRamfs = true := by
  obtain ⟨children, owner, -, -, hnodes⟩ := VfsTree.create_ok h
  rw [hnodes, Function.update_apply, Function.update_apply] at hn
  split_ifs at hn
  · cases hn
    rfl
  · cases hn
    rfl
  · exact v.ramfs ino n hn

def checkedCreateFile (v : RamVfs) (euid : Option UInt32) (parent : ℕ) (name : Path) : Except VfsError (ℕ × RamVfs) :=
  match v.checkPerm euid parent 3 with
  | .error e => .error e
  | .ok () =>
    match h : v.tree.createFile (v.creator euid) parent name with
    | .error e => .error e
    | .ok t => .ok (v.tree.nextIno, { v with tree := t, ramfs := isRamfs_of_createFile h })

/-- What `read_file` gives the page cache: a handle of its own for every page. -/
def loader (v : RamVfs) (euid : Option UInt32) (ino pageOff : ℕ) : Option (List UInt8) :=
  match v.checkedOpen euid ino false with
  | .ok fh => ((fh.seek pageOff).read pageSize).map Prod.fst
  | .error _ => some []

def cachedSize : ℕ := 64 * 1024 * 1024

/-- `none` is a kernel that stops. -/
def readFile (v : RamVfs) (euid : Option UInt32) (path : Path) : Option (Except VfsError (List UInt8) × RamVfs) :=
  match v.tree.lookup path with
  | .error e => some (.error e, v)
  | .ok ino =>
    match v.stat ino with
    | .error e => some (.error e, v)
    | .ok st =>
      if 0 < st.size ∧ st.size ≤ cachedSize then
        (v.pages.readBytes ino (v.loader euid ino) 0 st.size).map (fun r => (.ok r.1, { v with pages := r.2 }))
      else
        match v.checkedOpen euid ino false with
        | .error e => some (.error e, v)
        | .ok fh => fh.readAll.map (fun bytes => (.ok bytes, v))

/-- The node that `write_file` opens: that of the path, or a new file. -/
def nodeToWrite (v : RamVfs) (euid : Option UInt32) (parent : ℕ) (path name : Path) : Except VfsError (ℕ × RamVfs) :=
  match v.tree.lookup path with
  | .ok ino => .ok (ino, v)
  | .error .notFound => v.checkedCreateFile euid parent name
  | .error e => .error e

/-- One `write` takes all bytes. The handle with the bytes is dropped; a file that was made for an open that fails
stays. -/
def writeFile (v : RamVfs) (euid : Option UInt32) (path : Path) (data : List UInt8) : Option (Except VfsError Unit × RamVfs) :=
  let (parentPath, name) := parentAndName path
  match v.tree.lookup parentPath with
  | .error e => some (.error e, v)
  | .ok parent =>
    match v.nodeToWrite euid parent path name with
    | .error e => some (.error e, v)
    | .ok (ino, v) =>
      match v.checkedOpen euid ino true with
      | .error e => some (.error e, v)
      | .ok fh =>
        if data ≠ [] ∧ fh.write data = none then none
        else some (.ok (), { v with pages := v.pages.invalidate ino })

variable {v v' : RamVfs} {euid : Option UInt32} {ino : ℕ} {path : Path} {data : List UInt8} {owner : Owner}

lemma stat_file (h : v.tree.nodes ino = some (.file data owner)) :
    v.stat ino = .ok ⟨ino, data.length, false, 1, owner.uid, owner.gid, owner.mode⟩ := by
  unfold stat
  rw [h]

lemma checkPerm_read (h : v.checkPerm euid ino 6 = .ok ()) : v.checkPerm euid ino 4 = .ok () := by
  have hbits : ∀ p : UInt8, p &&& 6 = 6 → p &&& 4 = 4 := by
    intro p hp
    calc p &&& 4 = p &&& 6 &&& 4 := by rw [UInt8.and_assoc]; rfl
      _ = 4 := by rw [hp]; rfl
  unfold checkPerm at h ⊢
  by_cases hroot : v.session.uid euid = 0
  · simp only [if_pos hroot]
  · simp only [if_neg hroot] at h ⊢
    cases hst : v.stat ino with
    | error e =>
      rw [hst] at h
      cases h
    | ok st =>
      simp only [hst] at h ⊢
      split_ifs at h with hperm
      rw [if_pos (hbits _ hperm)]

lemma checkedOpen_write {fh : RamFileHandle} (h : v.checkedOpen euid ino true = .ok fh) :
    ∃ data owner, v.tree.nodes ino = some (.file data owner) ∧ v.checkedOpen euid ino false = .ok ⟨data, 0⟩ := by
  unfold checkedOpen at h ⊢
  cases hperm : v.checkPerm euid ino 6 with
  | error e =>
    simp only [if_true, hperm] at h
    cases h
  | ok u =>
    simp only [if_true, hperm] at h
    simp only [Bool.false_eq_true, if_false, checkPerm_read hperm]
    unfold openNode at h ⊢
    split at h
    next data owner hnode =>
      rw [hnode]
      exact ⟨data, owner, rfl, rfl⟩
    all_goals cases h

lemma loader_eq (h : v.checkedOpen euid ino false = .ok ⟨data, 0⟩) {off : ℕ} (hoff : off ≤ data.length) :
    v.loader euid ino off = some ((data.drop off).take pageSize) := by
  unfold loader
  rw [h]
  simp [RamFileHandle.seek, RamFileHandle.read, not_lt.mpr hoff]

lemma readFile_eq (hlookup : v.tree.lookup path = .ok ino) (hnode : v.tree.nodes ino = some (.file data owner))
    (hopen : v.checkedOpen euid ino false = .ok ⟨data, 0⟩) (hnew : ∀ off, v.pages.cache.entries.get (cacheKey ino off) = none) :
    ∃ v', v.readFile euid path = some (.ok (if data.length ≤ cachedSize then v.pages.reach data else data), v') := by
  unfold readFile
  rw [hlookup]
  simp only [stat_file hnode]
  by_cases hcached : 0 < data.length ∧ data.length ≤ cachedSize
  · obtain ⟨m', hread⟩ : ∃ m', v.pages.readBytes ino (v.loader euid ino) 0 data.length = some (v.pages.reach data, m') :=
      CachedPages.readBytes_eq (fun _ hoff => loader_eq hopen hoff) rfl (fun off _ => hnew off)
    rw [if_pos hcached, if_pos hcached.2, hread]
    exact ⟨_, rfl⟩
  · have hall : (if data.length ≤ cachedSize then v.pages.reach data else data) = data := by
      split_ifs with hle
      · have hnil : data = [] := length_eq_zero_iff.mp (by omega)
        rw [hnil, CachedPages.reach_nil]
      · rfl
    have hread : (⟨data, 0⟩ : RamFileHandle).readAll = some data := RamFileHandle.readAll_eq (zero_le _)
    rw [if_neg hcached, hopen, hall]
    simp only [hread]
    exact ⟨v, rfl⟩

/-- One file `/a` of the user 0 that only this user may read and write, and nothing cached. -/
def oneFile : RamVfs where
  tree :=
    { nodes := fun ino =>
        if ino = 1 then some (.dir (fun c => if c = ['a'] then some 2 else none) ⟨0, 0, 0o755⟩)
        else if ino = 2 then some (.file [1] ⟨0, 0, 0o600⟩)
        else none
      nextIno := 3
      mounts := [(['/'], 1)]
      fresh := fun ino hino => by
        rw [if_neg, if_neg]
        · rintro rfl
          cases hino with | step h => cases h with | step h => cases h
        · rintro rfl
          cases hino with | step h => cases h }
  ramfs ino n hn := by
    dsimp only at hn
    split_ifs at hn
    · cases hn
      rfl
    · cases hn
      rfl
  pages := ⟨.empty, .empty, 8⟩
  session := ⟨⟨[⟨"root", 0, 0, "/root", "/bin/sh"⟩, ⟨"nodeai", 1000, 1000, "/home/nodeai", "/bin/sh"⟩], [], []⟩, 0, "/", 0⟩
  umask := 0o022

end RamVfs

end NodeKernel
