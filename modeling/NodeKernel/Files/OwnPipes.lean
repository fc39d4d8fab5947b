import NodeKernel.Files.OpenFiles

/-!
# A process keeps to its own pipes

A handle of a pipe comes from `pipe2` or from another handle in the table of its process, so that the calls of a
process leave the pipes of others alone.
-/
namespace NodeKernel

open Function Nat List Option

namespace PipeTable

structure Only (id : ℕ) (tbl tbl' : PipeTable) : Prop where
  next : tbl'.nextPipe = tbl.nextPipe
  entries : ∀ i, i ≠ id → tbl'.entries i = tbl.entries i

variable {tbl : PipeTable} {h : PipeHandle}

lemma Only.refl (id : ℕ) (tbl : PipeTable) : Only id tbl tbl := ⟨rfl, fun _ _ => rfl⟩

end PipeTable

namespace FileWorld

def Holds (w : FileWorld) (pid id : ℕ) : Prop := ∃ fd h, w.handleAt pid fd = some (.pipe h) ∧ h.pipeId = id

/-- What the process does leaves the tables of the others and the pipes that it has no handle of, and gives it
handles of new pipes only. -/
structure Own (p : ℕ) (w w' : FileWorld) : Prop where
  procs : ∀ q, q ≠ p → w'.procs q = w.procs q
  pipes : ∀ id < w.pipes.nextPipe, ¬ w.Holds p id → w'.pipes.entries id = w.pipes.entries id
  next : w.pipes.nextPipe ≤ w'.pipes.nextPipe
  held : ∀ id, w'.Holds p id → w.Holds p id ∨ w.pipes.nextPipe ≤ id ∧ id < w'.pipes.nextPipe

variable {p : ℕ} {w w' w'' : FileWorld}

lemma Own.refl (p : ℕ) (w : FileWorld) : Own p w w := ⟨fun _ _ => rfl, fun _ _ _ => rfl, Nat.le_refl _, fun _ => .inl⟩

lemma Own.trans (h : Own p w w') (h' : Own p w' w'') : Own p w w'' where
  procs q hq := (h'.procs q hq).trans (h.procs q hq)
  pipes id hid hno := by
    have hno' : ¬ w'.Holds p id := fun hheld =>
      (h.held id hheld).elim hno fun hnew => absurd hid (not_lt.mpr hnew.1)
    exact (h'.pipes id (lt_of_lt_of_le hid h.next) hno').trans (h.pipes id hid hno)
  next := le_trans h.next h'.next
  held id hheld := by
    obtain hheld' | ⟨hle, hlt⟩ := h'.held id hheld
    · obtain hold | ⟨hle, hlt⟩ := h.held id hheld'
      · exact .inl hold
      · exact .inr ⟨hle, lt_of_lt_of_le hlt h'.next⟩
    · exact .inr ⟨le_trans h.next hle, hlt⟩

lemma Own.of_eq (hprocs : w'.procs = w.procs) (hpipes : w'.pipes = w.pipes) : Own p w w' where
  procs q _ := congrFun hprocs q
  pipes id _ _ := by rw [hpipes]
  next := by rw [hpipes]
  held id hheld := by
    unfold Holds handleAt at hheld ⊢
    rw [hprocs] at hheld
    exact .inl hheld

/-- Nothing of what the others can see changes. -/
structure Quiet (p : ℕ) (w w' : FileWorld) : Prop extends Own p w w' where
  tree : w'.tree = w.tree
  disks : w'.disks = w.disks

lemma Quiet.refl (p : ℕ) (w : FileWorld) : Quiet p w w := ⟨Own.refl p w, rfl, rfl⟩

lemma Quiet.trans (h : Quiet p w w') (h' : Quiet p w' w'') : Quiet p w w'' :=
  ⟨h.toOwn.trans h'.toOwn, h'.tree.trans h.tree, h'.disks.trans h.disks⟩

variable {r : Reply} {fd : ℕ} {h : Handle}

variable {x : ℤ × FileWorld} {mem : ByteMem} {bufPtr len : ℕ}

/-- A write gets to the handle if there is something to write at a user address, to no standard descriptor. -/
def Writes (fd bufPtr len : ℕ) : Prop :=
  len ≠ 0 ∧ validateUserPtr bufPtr (min len 65536) ∧ fd ≠ 1 ∧ fd ≠ 2

section
variable (hx : w.sysWrite r mem p fd bufPtr len = some x)
include hx

end

lemma handleAt_setHandle (w : FileWorld) (p fd : ℕ) (x : Handle) : (w.setHandle p fd x).handleAt p fd = some x := by
  unfold handleAt setHandle
  dsimp only
  rw [update_self, AList.lookup_insert]

section Descriptors

variable {c : FdCall Handle ℕ}

end Descriptors

end FileWorld
end NodeKernel
