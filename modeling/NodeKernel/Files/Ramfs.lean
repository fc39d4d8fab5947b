import NodeKernel.Files.Pipes

/-!
# The file system in memory

The nodes by their inode numbers, path resolution, the operations of a directory, and open files. A handle works on
its own copy of the data; only `flush` puts it back, and no system call does.
-/
namespace NodeKernel

open Function

abbrev Path : Type := List Char

structure Creator where
  uid : ℕ
  gid : ℕ
  umask : UInt16

structure Owner where
  uid : ℕ
  gid : ℕ
  mode : UInt16

def Creator.owner (u : Creator) (mode : UInt16) : Owner := ⟨u.uid, u.gid, mode &&& ~~~u.umask⟩

structure Drive where
  nvme : Bool
  idx : ℕ
  deriving DecidableEq

/-- `fixed` is a directory that never changes, as those of `devfs`. The handles of a `device` keep nothing
that is in a file. -/
inductive Node where
  | file (data : List UInt8) (owner : Owner)
  | dir (children : Path → Option ℕ) (owner : Owner)
  | symlink (target : Path)
  | fixed (children : Path → Option ℕ)
  | drive (drive : Drive) (sizeBytes : ℕ)
  | device (clones : Bool)

structure VfsTree where
  nodes : ℕ → Option Node
  nextIno : ℕ
  mounts : List (Path × ℕ)
  fresh : ∀ ino, nextIno ≤ ino → nodes ino = none

namespace VfsTree

lemma lt_nextIno {t : VfsTree} {ino : ℕ} {n : Node} (h : t.nodes ino = some n) : ino < t.nextIno := by
  by_contra hge
  rw [t.fresh ino (not_lt.mp hge)] at h
  cases h

def lookupChild (t : VfsTree) (ino : ℕ) (name : Path) : Except VfsError ℕ :=
  match t.nodes ino with
  | some (.dir children _) | some (.fixed children) => (children name).elim (.error .notFound) .ok
  | some (.drive _ _) | none => .error .notFound
  | some _ => .error .notADirectory

/-- The mount with the longest path that the path starts with, the last one of them. -/
def mountOf (t : VfsTree) (path : Path) : Option (Path × ℕ) :=
  t.mounts.foldl (fun best m =>
    if m.1.isPrefixOf path ∧ best.elim 0 (fun b => b.1.length) ≤ m.1.length then some m else best) none

def walk (t : VfsTree) (ino : ℕ) (path : Path) : Except VfsError ℕ :=
  ((path.splitOn '/').filter (fun c => c ≠ [])).foldlM
    (fun ino c => if c = ['.'] ∨ c = ['.', '.'] then .ok ino else t.lookupChild ino c) ino

def lookup (t : VfsTree) (path : Path) : Except VfsError ℕ :=
  match t.mountOf path with
  | some m => t.walk m.2 (path.drop m.1.length)
  | none => .error .notFound

def attach (t : VfsTree) {parent : ℕ} {children : Path → Option ℕ} {owner : Owner}
    (h : t.nodes parent = some (.dir children owner)) (name : Path) (node : Node) : VfsTree where
  nodes := update (update t.nodes t.nextIno (some node)) parent
    (some (.dir (update children name (some t.nextIno)) owner))
  nextIno := t.nextIno + 1
  mounts := t.mounts
  fresh ino hino := by
    have hparent : ino ≠ parent := Nat.ne_of_gt (Nat.lt_trans (lt_nextIno h) hino)
    rw [update_of_ne hparent, update_of_ne (Nat.ne_of_gt hino)]
    exact t.fresh ino (Nat.le_of_lt hino)

def create (t : VfsTree) (parent : ℕ) (name : Path) (node : Node) : Except VfsError VfsTree :=
  match h : t.nodes parent with
  | some (.dir children _) => if (children name).isSome then .error .alreadyExists else .ok (t.attach h name node)
  | some (.fixed _) | some (.drive _ _) => .error .readOnly
  | some _ => .error .notADirectory
  | none => .error .notFound

def createFile (t : VfsTree) (u : Creator) (parent : ℕ) (name : Path) : Except VfsError VfsTree :=
  t.create parent name (.file [] (u.owner 0o644))

def mkdir (t : VfsTree) (u : Creator) (parent : ℕ) (name : Path) : Except VfsError VfsTree :=
  t.create parent name (.dir (fun _ => none) (u.owner 0o755))

/-- Nodes that are not directories of `ramfs` give one error for all. -/
def createSymlink (t : VfsTree) (parent : ℕ) (name target : Path) : Except VfsError VfsTree :=
  match t.create parent name (.symlink target) with
  | .error .alreadyExists => .error .alreadyExists
  | .error _ => .error .invalidArgument
  | .ok t => .ok t

def detach (t : VfsTree) {parent : ℕ} {children : Path → Option ℕ} {owner : Owner}
    (h : t.nodes parent = some (.dir children owner)) (name : Path) : VfsTree :=
  { t with
    nodes := update t.nodes parent (some (.dir (update children name none) owner))
    fresh := fun ino hino => by
      rw [update_of_ne (Nat.ne_of_gt (Nat.lt_of_lt_of_le (lt_nextIno h) hino))]
      exact t.fresh ino hino }

def unlink (t : VfsTree) (parent : ℕ) (name : Path) : Except VfsError VfsTree :=
  match h : t.nodes parent with
  | some (.dir children _) => if (children name).isSome then .ok (t.detach h name) else .error .notFound
  | some (.fixed _) | some (.drive _ _) => .error .readOnly
  | some _ => .error .notADirectory
  | none => .error .notFound

end VfsTree

def splitParent (path : Path) : Path × Path :=
  let rev := path.reverse.dropWhile (fun c => c = '/')
  let name := (rev.takeWhile (fun c => c ≠ '/')).reverse
  match rev.dropWhile (fun c => c ≠ '/') with
  | [] | [_] => (['/'], name)
  | _ :: parent => (parent.reverse, name)

/-- The same, but a slash at the end leaves an empty name, and another parent where there is no slash. -/
def splitPath (path : Path) : Path × Path :=
  let name := (path.reverse.takeWhile (fun c => c ≠ '/')).reverse
  match path.reverse.dropWhile (fun c => c ≠ '/') with
  | [] => (['.'], name)
  | [_] => (['/'], name)
  | _ :: parent => (parent.reverse, name)

structure RamFileHandle where
  data : List UInt8
  pos : ℕ

namespace RamFileHandle

/-- `none` is a slice that starts behind the end of the data, which stops the kernel. -/
def read (h : RamFileHandle) (len : ℕ) : Option (List UInt8 × RamFileHandle) :=
  if h.data.length < h.pos then none
  else
    let bytes := (h.data.drop h.pos).take len
    some (bytes, { h with pos := h.pos + bytes.length })

/-- `none` is a vector that does not fit into the kernel heap, which stops the kernel. -/
def write (h : RamFileHandle) (bytes : List UInt8) : Option RamFileHandle :=
  let stop := h.pos + bytes.length
  if kernelHeapSize < stop then none
  else
    let data := h.data ++ List.replicate (stop - h.data.length) 0
    some ⟨data.take h.pos ++ bytes ++ data.drop stop, stop⟩

def seek (h : RamFileHandle) (pos : ℕ) : RamFileHandle := { h with pos }

def truncate (h : RamFileHandle) (len : ℕ) : RamFileHandle := ⟨h.data.take len, min h.pos (h.data.take len).length⟩

end RamFileHandle

namespace VfsTree

def HasEntry (t : VfsTree) (parent : ℕ) (name : Path) : Prop :=
  ∃ children owner, t.nodes parent = some (.dir children owner) ∧ (children name).isSome

def LacksEntry (t : VfsTree) (parent : ℕ) (name : Path) : Prop :=
  ∃ children owner, t.nodes parent = some (.dir children owner) ∧ (children name).isSome = false

variable {t t' : VfsTree} {parent : ℕ} {name : Path} {node : Node}

section
variable (h : t.create parent name node = .ok t')
include h

lemma create_ok : ∃ children owner, t.nodes parent = some (.dir children owner) ∧ (children name).isSome = false ∧
      t'.nodes = update (update t.nodes t.nextIno (some node)) parent
        (some (.dir (update children name (some t.nextIno)) owner)) := by
  unfold create at h
  split at h
  next children owner hp =>
    split_ifs at h with hsome
    cases h
    exact ⟨children, owner, hp, Bool.eq_false_iff.mpr hsome, rfl⟩
  all_goals cases h

lemma create_new : t'.nodes t.nextIno = some node := by
  obtain ⟨children, owner, hp, -, hnodes⟩ := create_ok h
  rw [hnodes, update_of_ne (Nat.ne_of_gt (lt_nextIno hp)), update_self]

lemma create_file {ino : ℕ} {data : List UInt8} {owner : Owner}
    (hfile : t.nodes ino = some (.file data owner)) : t'.nodes ino = some (.file data owner) := by
  obtain ⟨children, _, hp, -, hnodes⟩ := create_ok h
  have hne : ino ≠ parent := by
    rintro rfl
    cases hfile.symm.trans hp
  rw [hnodes, update_of_ne hne, update_of_ne (Nat.ne_of_lt (lt_nextIno hfile)), hfile]

end

lemma unlink_ok (h : t.unlink parent name = .ok t') :
    ∃ children owner, t.nodes parent = some (.dir children owner) ∧ (children name).isSome ∧
      t'.nodes = update t.nodes parent (some (.dir (update children name none) owner)) := by
  unfold unlink at h
  split at h
  next children owner hp =>
    split_ifs at h with hsome
    cases h
    exact ⟨children, owner, hp, hsome, rfl⟩
  all_goals cases h

lemma unlink_file {ino : ℕ} {data : List UInt8} {owner : Owner} (h : t.unlink parent name = .ok t')
    (hfile : t.nodes ino = some (.file data owner)) : t'.nodes ino = some (.file data owner) := by
  obtain ⟨children, _, hp, -, hnodes⟩ := unlink_ok h
  have hne : ino ≠ parent := by
    rintro rfl
    cases hfile.symm.trans hp
  rw [hnodes, update_of_ne hne, hfile]

end VfsTree
end NodeKernel
