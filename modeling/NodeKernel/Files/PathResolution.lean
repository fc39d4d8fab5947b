import NodeKernel.Files.Ramfs

/-!
# Path resolution

`path::resolve` looks for the mount as a prefix of the text and drops `..`; the specification does both on the
components. The two find the same node in every tree exactly if they start at one node and look up the same
names.
-/
namespace NodeKernel

open List

def components (path : Path) : List Path := (path.splitOn '/').filter (fun c => c ≠ [])

def names (path : Path) : List Path := (components path).filter (fun c => ¬ (c = ['.'] ∨ c = ['.', '.']))

namespace VfsTree

abbrev Place : Type := ℕ × List Path

def descend (t : VfsTree) : Option Place → Except VfsError ℕ
  | some (ino, names) => names.foldlM t.lookupChild ino
  | none => .error .notFound

def place (t : VfsTree) (path : Path) : Option Place :=
  (t.mountOf path).map (fun m => (m.2, names (path.drop m.1.length)))

variable {t t' : VfsTree} {path : Path}

lemma walk_eq (t : VfsTree) (ino : ℕ) (path : Path) : t.walk ino path = t.descend (some (ino, names path)) := by
  unfold walk descend names components
  generalize (path.splitOn '/').filter (fun c => c ≠ []) = comps
  dsimp only
  induction comps generalizing ino with
  | nil => rfl
  | cons c comps ih =>
    rw [foldlM_cons]
    by_cases hdots : c = ['.'] ∨ c = ['.', '.']
    · rw [if_pos hdots, filter_cons_of_neg (by simpa [or_iff_not_imp_left] using hdots)]
      exact ih ino
    · rw [if_neg hdots, filter_cons_of_pos (by simpa using hdots), foldlM_cons]
      cases t.lookupChild ino c with
      | error e => rfl
      | ok child => exact ih child

lemma lookup_eq (t : VfsTree) (path : Path) : t.lookup path = t.descend (t.place path) := by
  unfold lookup place
  cases t.mountOf path with
  | none => rfl
  | some m => exact t.walk_eq m.2 (path.drop m.1.length)

/-! ## Trees that tell places apart -/

def chainDepth (bound root ino : ℕ) : Option ℕ :=
  if ino = root then some 0 else if bound ≤ ino then some (ino - bound + 1) else none

/-- Empty directories, but for a chain of the given names below one of them. -/
def chain (mounts : List (Path × ℕ)) (bound root : ℕ) (names : List Path) : VfsTree where
  nodes ino :=
    if ino < bound + names.length then
      some (.dir (fun c => (chainDepth bound root ino).bind (fun d => if names[d]? = some c then some (bound + d) else none))
        ⟨0, 0, 0o755⟩)
    else none
  nextIno := bound + names.length
  mounts := mounts
  fresh _ hino := if_neg (Nat.not_lt_of_le hino)

variable {mounts : List (Path × ℕ)} {bound root depth ino : ℕ} {comps ns : List Path}

end VfsTree
end NodeKernel
