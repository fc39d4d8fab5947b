import NodeKernel.Lib.Bytes
import NodeKernel.Lib.CasLoop

/-!
# Event descriptors

`EventFdHandle`: a 64-bit counter shared by all handles cloned from one another. `read` and
`write` are compare-and-swap loops on it.
-/
namespace NodeKernel

open List

inductive VfsError where
  | notFound
  | notADirectory
  | notAFile
  | permissionDenied
  | alreadyExists
  | invalidArgument
  | io
  | outOfSpace
  | readOnly
  | tooManyOpenFiles
  | wouldBlock
  deriving DecidableEq, Repr

def u64Max : ℕ := 2 ^ 64 - 1

def checkedAdd (a b : ℕ) : Option ℕ := if a + b ≤ u64Max then some (a + b) else none

lemma checkedAdd_some {a b sum : ℕ} (h : checkedAdd a b = some sum) : sum = a + b := by
  unfold checkedAdd at h
  split at h
  · exact (Option.some.inj h).symm
  · cases h

/-- The count that a `read` or `write` returns, and the bytes that it put in the buffer. -/
structure IoDone where
  count : ℕ
  filled : List UInt8
  deriving DecidableEq

namespace EventFd

inductive Call where
  | read (len : ℕ)
  | write (buf : List UInt8)

/-- What `read` makes of the value it loaded: the new counter and what it returns. -/
def read (semaphore : Bool) (len cur : ℕ) : Except VfsError (ℕ × IoDone) :=
  if len < 8 then .error .invalidArgument
  else if cur = 0 then .error .wouldBlock
  else
    let (newVal, retVal) := if semaphore then (cur - 1, 1) else (0, cur)
    .ok (newVal, ⟨8, toLe 8 retVal⟩)

def write (buf : List UInt8) (cur : ℕ) : Except VfsError (ℕ × IoDone) :=
  if buf.length < 8 then .error .invalidArgument
  else
    let val := ofLe (buf.take 8)
    if val = u64Max then .error .invalidArgument
    else
      match checkedAdd cur val with
      | some n => if n < u64Max then .ok (n, ⟨8, []⟩) else .error .wouldBlock
      | none => .error .wouldBlock

def attempt (semaphore : Bool) : Call → ℕ → Except VfsError (ℕ × IoDone)
  | .read len => read semaphore len
  | .write buf => write buf

def written : Call × IoDone → ℕ
  | (.write buf, _) => ofLe (buf.take 8)
  | (.read _, _) => 0

def taken : Call × IoDone → ℕ
  | (.read _, r) => ofLe r.filled
  | (.write _, _) => 0

variable {semaphore : Bool} {cur new len : ℕ} {r : IoDone} {buf : List UInt8}

lemma read_ok (h : read semaphore len cur = .ok (new, r)) (hcur : cur ≤ u64Max) : new + ofLe r.filled = cur := by
  unfold read at h
  split at h
  · cases h
  · split at h
    · cases h
    next hzero =>
      -- one unit or the whole counter: what is returned is what is taken off
      have hsplit : ∀ v w, v + w = cur → (Except.ok (v, ⟨8, toLe 8 w⟩) : Except VfsError (ℕ × IoDone)) = .ok (new, r) →
          new + ofLe r.filled = cur := by
        intro v w hvw he
        obtain ⟨rfl, rfl⟩ := Prod.mk.inj (Except.ok.inj he)
        have hw : w < 256 ^ 8 := by unfold u64Max at hcur; omega
        rw [ofLe_toLe_of_lt hw, hvw]
      cases semaphore with
      | true => exact hsplit (cur - 1) 1 (by omega) h
      | false => exact hsplit 0 cur (Nat.zero_add cur) h

lemma write_ok (h : write buf cur = .ok (new, r)) : new = cur + ofLe (buf.take 8) ∧ new < u64Max := by
  unfold write at h
  dsimp only at h
  split at h
  · cases h
  · split at h
    · cases h
    · split at h
      next n hn =>
        split at h
        next hlt =>
          obtain ⟨rfl, rfl⟩ := Prod.mk.inj (Except.ok.inj h)
          exact ⟨checkedAdd_some hn, hlt⟩
        · cases h
      · cases h

structure Conserved (initval : ℕ) (history : List (Call × IoDone)) (counter : ℕ) : Prop where
  fits : counter ≤ u64Max
  balance : initval + (history.map written).sum = counter + (history.map taken).sum

lemma Conserved.attempt {initval counter counter' : ℕ} {history : List (Call × IoDone)} {c : Call}
    (h : Conserved initval history counter) (hop : attempt semaphore c counter = .ok (counter', r)) :
    Conserved initval (history ++ [(c, r)]) counter' := by
  have hfits := h.fits
  have hbal := h.balance
  have hsum : ∀ f : Call × IoDone → ℕ, ((history ++ [(c, r)]).map f).sum = (history.map f).sum + f (c, r) := by
    intro f
    rw [map_append, sum_append, map_singleton, sum_singleton]
  cases c with
  | read len =>
    have hread := read_ok hop hfits
    refine ⟨by omega, ?_⟩
    rw [hsum, hsum]
    change initval + ((history.map written).sum + 0) = counter' + ((history.map taken).sum + ofLe r.filled)
    omega
  | write buf =>
    obtain ⟨hnew, hlt⟩ := write_ok hop
    refine ⟨hlt.le, ?_⟩
    rw [hsum, hsum]
    change initval + ((history.map written).sum + ofLe (buf.take 8)) = counter' + ((history.map taken).sum + 0)
    omega

lemma conserved_of_serial {initval counter : ℕ} {history : List (Call × IoDone)}
    (h : Cas.Serial (attempt semaphore) initval history counter) (hinit : initval ≤ u64Max) :
    Conserved initval history counter := by
  induction h with
  | nil => exact ⟨hinit, rfl⟩
  | snoc _ hop ih => exact ih.attempt hop

section Runs
variable {τ : Type*} [DecidableEq τ]

def create (initval : UInt64) : Cas.State τ Call ℕ IoDone := Cas.start initval.toNat

/-- Under every schedule the values written and read balance, and no write that succeeds
fills the counter. -/
theorem run_eventfd_balanced {initval : UInt64} {tr : List (Cas.State τ Call ℕ IoDone × Cas.Event τ Call)}
    {s : Cas.State τ Call ℕ IoDone} (hrun : Run (Cas.Step (attempt semaphore)) (create initval) tr s) :
    initval.toNat + (s.returned.map written).sum = s.cell + (s.returned.map taken).sum ∧
      ∀ e s' buf r, Cas.Step (attempt semaphore) s e s' → s'.returned = s.returned ++ [(.write buf, r)] → s'.cell ≠ u64Max := by
  have hinit : initval.toNat ≤ u64Max := Nat.le_pred_of_lt initval.toNat_lt
  refine ⟨(conserved_of_serial (Cas.run_serial hrun) hinit).balance, ?_⟩
  intro e s' buf r hstep hret
  exact (write_ok (hstep.returns hret)).2.ne

/-- Two writers load 5; one swaps its sum in, and the other has to start again. -/
theorem run_eventfd_balanced_raced : ∃ (tr : _) (s : Cas.State Bool Call ℕ IoDone),
      Run (Cas.Step (attempt true)) (create 5) tr s ∧ s.cell = 12 ∧
        (5 : UInt64).toNat + (s.returned.map written).sum = s.cell + (s.returned.map taken).sum := by
  have hop : ∀ cur, cur < 100 → attempt true (.write (toLe 8 7)) cur = .ok (cur + 7, ⟨8, []⟩) := by
    decide
  have hnil : Run (Cas.Step (attempt true)) (create 5 : Cas.State Bool Call ℕ IoDone) [] (create 5) := Run.nil
  have hload := (((hnil.snoc
    (.call (t := true) (c := .write (toLe 8 7)) rfl)).snoc
    (.call (t := false) (c := .write (toLe 8 7)) rfl)).snoc
    (.load (t := true) rfl (hop 5 (by decide)))).snoc
    (.load (t := false) rfl (hop 5 (by decide)))
  have hrun := (hload.snoc (.swap (t := true) rfl (hop 5 (by decide)))).snoc
    (.retry (t := false) rfl (by decide))
  exact ⟨_, _, hrun, rfl, (run_eventfd_balanced hrun).1⟩

end Runs
end EventFd
end NodeKernel
