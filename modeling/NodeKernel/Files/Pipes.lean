import Mathlib.Data.List.Basic
import NodeKernel.Files.EventFd

/-!
# Pipes

`PIPE_TABLE` and the handles that refer to it. The parts of `read` that run under the lock
of a pipe are functions of their own; a `read` that nothing interrupts is their composition.
-/
namespace NodeKernel

open Function List Nat

structure PipeState where
  buf : List UInt8
  writerCount : ℕ
  readerCount : ℕ

namespace PipeState

def new : PipeState := ⟨[], 1, 1⟩

/-- The first locked part of `read`: its result, or `none` if there are bytes to take. -/
def check (st : PipeState) : Option (Except VfsError (List UInt8)) :=
  if st.buf = [] then
    some (if st.writerCount = 0 then .ok [] else .error .wouldBlock)
  else none

def take (st : PipeState) (len : ℕ) : List UInt8 × PipeState :=
  let n := min len st.buf.length
  (st.buf.take n, { st with buf := st.buf.drop n })

def extend (st : PipeState) (bytes : List UInt8) : PipeState := { st with buf := st.buf ++ bytes }

def opened (st : PipeState) (isWrite : Bool) : PipeState :=
  if isWrite then { st with writerCount := (st.writerCount + 1) % 2 ^ 32 }
  else { st with readerCount := (st.readerCount + 1) % 2 ^ 32 }

def closed (st : PipeState) (isWrite : Bool) : PipeState :=
  if isWrite then { st with writerCount := st.writerCount - 1 }
  else { st with readerCount := st.readerCount - 1 }

def dead (st : PipeState) : Bool := st.writerCount == 0 && st.readerCount == 0

def count (st : PipeState) (isWrite : Bool) : ℕ := if isWrite then st.writerCount else st.readerCount

variable {st : PipeState} {a b : Bool}

@[simp] lemma opened_buf : (st.opened b).buf = st.buf := by
  unfold opened
  split <;> rfl

@[simp] lemma closed_buf : (st.closed b).buf = st.buf := by
  unfold closed
  split <;> rfl

lemma opened_count : (st.opened b).count a = if a = b then (st.count a + 1) % 2 ^ 32 else st.count a := by
  cases a <;> cases b <;> rfl

lemma closed_count : (st.closed b).count a = if a = b then st.count a - 1 else st.count a := by
  cases a <;> cases b <;> rfl

lemma check_ok {bytes : List UInt8} (h : st.check = some (.ok bytes)) : bytes = [] := by
  unfold check at h
  split at h
  · split at h
    · exact (Except.ok.inj (Option.some.inj h)).symm
    · cases h
  · cases h

lemma dead_iff : st.dead = true ↔ ∀ a, st.count a = 0 := by
  unfold dead
  rw [Bool.and_eq_true, beq_iff_eq, beq_iff_eq, Bool.forall_bool]
  exact and_comm

end PipeState

structure PipeHandle where
  pipeId : ℕ
  isWrite : Bool
  deriving DecidableEq

structure PipeTable where
  entries : ℕ → Option PipeState
  nextPipe : ℕ

namespace PipeTable

def set (tbl : PipeTable) (pipeId : ℕ) (entry : Option PipeState) : PipeTable :=
  { tbl with entries := update tbl.entries pipeId entry }

def pipe2 (tbl : PipeTable) : PipeHandle × PipeHandle × PipeTable :=
  let pipeId := tbl.nextPipe
  (⟨pipeId, false⟩, ⟨pipeId, true⟩, { tbl.set pipeId (some .new) with nextPipe := pipeId + 1 })

def read (tbl : PipeTable) (h : PipeHandle) (len : ℕ) : Except VfsError (List UInt8) × PipeTable :=
  if h.isWrite then (.error .permissionDenied, tbl)
  else
    match tbl.entries h.pipeId with
    | none => (.ok [], tbl)
    | some st =>
      match st.check with
      | some result => (result, tbl)
      | none => (.ok (st.take len).1, tbl.set h.pipeId (some (st.take len).2))

def write (tbl : PipeTable) (h : PipeHandle) (bytes : List UInt8) : Except VfsError ℕ × PipeTable :=
  if h.isWrite then
    match tbl.entries h.pipeId with
    | none => (.error .io, tbl)
    | some st => (.ok bytes.length, tbl.set h.pipeId (some (st.extend bytes)))
  else (.error .permissionDenied, tbl)

def cloneBox (tbl : PipeTable) (h : PipeHandle) : PipeHandle × PipeTable :=
  match tbl.entries h.pipeId with
  | some st => (⟨h.pipeId, h.isWrite⟩, tbl.set h.pipeId (some (st.opened h.isWrite)))
  | none => (⟨h.pipeId, h.isWrite⟩, tbl)

def dropHandle (tbl : PipeTable) (h : PipeHandle) : PipeTable :=
  match tbl.entries h.pipeId with
  | some st =>
    tbl.set h.pipeId (if (st.closed h.isWrite).dead then none else some (st.closed h.isWrite))
  | none => tbl

end PipeTable

def kernelHeapSize : ℕ := 128 * 1024 * 1024

/-- Bytes of a boxed `PipeHandle`: a `usize` and a `bool`, aligned to 8. -/
def pipeHandleSize : ℕ := 16

/-- As many handles as the kernel heap can hold; a box beyond that is an allocation error, which
stops the kernel. -/
def maxHandles : ℕ := kernelHeapSize / pipeHandleSize

/-- The pipes, the handles that exist, and for every pipe the bytes that its reads returned
and its writes accepted. -/
structure PipeWorld where
  table : PipeTable
  live : List PipeHandle
  taken : ℕ → List UInt8
  given : ℕ → List UInt8

inductive PipeCall where
  | pipe2
  | dup (h : PipeHandle)
  | close (h : PipeHandle)
  | read (h : PipeHandle) (len : ℕ)
  | write (h : PipeHandle) (bytes : List UInt8)

namespace PipeWorld

def empty : PipeWorld := ⟨⟨fun _ => none, 0⟩, [], fun _ => [], fun _ => []⟩

/-- Calls are made on handles that exist, and new ones need room in the heap. -/
def Allowed (w : PipeWorld) : PipeCall → Prop
  | .pipe2 => w.live.length + 2 ≤ maxHandles
  | .dup h => h ∈ w.live ∧ w.live.length + 1 ≤ maxHandles
  | .close h => h ∈ w.live
  | .read h _ => h ∈ w.live
  | .write h _ => h ∈ w.live

instance (w : PipeWorld) (c : PipeCall) : Decidable (w.Allowed c) := by
  cases c <;> unfold Allowed <;> infer_instance

def pipe2 (w : PipeWorld) : PipeWorld :=
  { w with
    table := w.table.pipe2.2.2
    live := w.table.pipe2.1 :: w.table.pipe2.2.1 :: w.live }

def dup (w : PipeWorld) (h : PipeHandle) : PipeWorld :=
  { w with table := (w.table.cloneBox h).2, live := (w.table.cloneBox h).1 :: w.live }

def close (w : PipeWorld) (h : PipeHandle) : PipeWorld :=
  { w with table := w.table.dropHandle h, live := w.live.erase h }

/-- A read or write that fails leaves the record as it is. -/
def read (w : PipeWorld) (h : PipeHandle) (len : ℕ) : PipeWorld :=
  { w with
    table := (w.table.read h len).2
    taken := match (w.table.read h len).1 with
      | .ok bytes => update w.taken h.pipeId (w.taken h.pipeId ++ bytes)
      | .error _ => w.taken }

def write (w : PipeWorld) (h : PipeHandle) (bytes : List UInt8) : PipeWorld :=
  { w with
    table := (w.table.write h bytes).2
    given := match (w.table.write h bytes).1 with
      | .ok _ => update w.given h.pipeId (w.given h.pipeId ++ bytes)
      | .error _ => w.given }

def apply (w : PipeWorld) : PipeCall → PipeWorld
  | .pipe2 => w.pipe2
  | .dup h => w.dup h
  | .close h => w.close h
  | .read h len => w.read h len
  | .write h bytes => w.write h bytes

def Step (w : PipeWorld) (c : PipeCall) (w' : PipeWorld) : Prop := w.Allowed c ∧ w' = w.apply c

def handles (w : PipeWorld) (pipeId : ℕ) (isWrite : Bool) : ℕ := w.live.count ⟨pipeId, isWrite⟩

end PipeWorld

/-- The books of one pipe: its entry, the handles of each side, and what was read and written. -/
structure PipeBooks (entry : Option PipeState) (handles : Bool → ℕ) (taken given : List UInt8) :
    Prop where
  listed : entry.isSome ↔ ∃ isWrite, handles isWrite ≠ 0
  writers : ∀ st ∈ entry, st.writerCount = handles true
  readers : ∀ st ∈ entry, st.readerCount = handles false
  bytes : ∀ st ∈ entry, taken ++ st.buf = given
  inOrder : taken <+: given

namespace PipeBooks

variable {entry : Option PipeState} {st : PipeState} {handles handles' : Bool → ℕ}
  {taken given : List UInt8} {b : Bool}

lemma counts (h : PipeBooks (some st) handles taken given) (a : Bool) : st.count a = handles a := by
  cases a with
  | true => exact h.writers st rfl
  | false => exact h.readers st rfl

lemma of_some (hopen : ∃ a, handles a ≠ 0) (hcount : ∀ a, st.count a = handles a)
    (hbytes : taken ++ st.buf = given) : PipeBooks (some st) handles taken given := by
  refine ⟨⟨fun _ => hopen, fun _ => rfl⟩, ?_, ?_, ?_, ⟨st.buf, hbytes⟩⟩
  · intro st' hst
    obtain rfl := Option.some.inj hst
    exact hcount true
  · intro st' hst
    obtain rfl := Option.some.inj hst
    exact hcount false
  · intro st' hst
    obtain rfl := Option.some.inj hst
    exact hbytes

lemma of_none (hclosed : ∀ a, handles a = 0) (horder : taken <+: given) : PipeBooks none handles taken given := by
  have hno : ∀ st : PipeState, st ∉ (none : Option PipeState) := by
    intro st hst
    cases hst
  refine ⟨⟨fun h => Bool.noConfusion h, ?_⟩, fun st hst => absurd hst (hno st),
    fun st hst => absurd hst (hno st), fun st hst => absurd hst (hno st), horder⟩
  intro h
  obtain ⟨a, ha⟩ := h
  exact absurd (hclosed a) ha

lemma exists_entry (h : PipeBooks entry handles taken given) (hb : handles b ≠ 0) :
    ∃ st, entry = some st := Option.isSome_iff_exists.mp (h.listed.mpr ⟨b, hb⟩)

variable (h : PipeBooks (some st) handles taken given)
include h

lemma opened (hroom : handles b + 1 < 2 ^ 32) (hnew : ∀ a, handles' a = if a = b then handles a + 1 else handles a) :
    PipeBooks (some (st.opened b)) handles' taken given := by
  refine of_some ⟨b, ?_⟩ ?_ ?_
  · rw [hnew, if_pos rfl]
    exact succ_ne_zero _
  · intro a
    rw [PipeState.opened_count, hnew, h.counts]
    split
    next hab => rw [hab, mod_eq_of_lt hroom]
    · rfl
  · rw [PipeState.opened_buf]
    exact h.bytes st rfl

lemma closed (hnew : ∀ a, handles' a = if a = b then handles a - 1 else handles a) :
    PipeBooks (if (st.closed b).dead then none else some (st.closed b)) handles' taken given := by
  have hcount : ∀ a, (st.closed b).count a = handles' a := by
    intro a
    rw [PipeState.closed_count, hnew, h.counts]
  split
  next hdead =>
    refine of_none (fun a => ?_) h.inOrder
    rw [← hcount]
    exact PipeState.dead_iff.mp hdead a
  next hdead =>
    refine of_some ?_ hcount ?_
    · by_contra hnone
      apply hdead
      rw [PipeState.dead_iff]
      intro a
      rw [hcount]
      by_contra ha
      exact hnone ⟨a, ha⟩
    · rw [PipeState.closed_buf]
      exact h.bytes st rfl

lemma take (len : ℕ) : PipeBooks (some (st.take len).2) handles (taken ++ (st.take len).1) given := by
  refine of_some (h.listed.mp rfl) (fun a => ?_) ?_
  · exact h.counts a
  · change taken ++ st.buf.take _ ++ st.buf.drop _ = given
    rw [append_assoc, take_append_drop]
    exact h.bytes st rfl

lemma extend (bytes : List UInt8) : PipeBooks (some (st.extend bytes)) handles taken (given ++ bytes) := by
  refine of_some (h.listed.mp rfl) (fun a => ?_) ?_
  · exact h.counts a
  · change taken ++ (st.buf ++ bytes) = given ++ bytes
    rw [← append_assoc, h.bytes st rfl]

end PipeBooks

namespace PipeWorld

variable {w : PipeWorld} {h : PipeHandle} {id : ℕ}

/-- The books of every pipe are right; ids that are not given out yet have no pipe and no
bytes; and the heap holds all handles. -/
structure Booked (w : PipeWorld) : Prop where
  books : ∀ id, PipeBooks (w.table.entries id) (w.handles id) (w.taken id) (w.given id)
  fresh : ∀ id, w.table.nextPipe ≤ id → w.table.entries id = none ∧ w.given id = []
  room : w.live.length ≤ maxHandles

lemma handles_ne_zero (hh : h ∈ w.live) : w.handles h.pipeId h.isWrite ≠ 0 := (List.count_pos_iff.mpr hh).ne'

lemma handles_lt (hroom : w.live.length ≤ maxHandles) (b : Bool) : w.handles id b + 1 < 2 ^ 32 := by
  have hle : w.handles id b ≤ w.live.length := count_le_length
  have hmax : maxHandles + 1 < 2 ^ 32 := by decide
  omega

lemma Booked.entry (hw : w.Booked) (hh : h ∈ w.live) : ∃ st, w.table.entries h.pipeId = some st :=
  (hw.books h.pipeId).exists_entry (handles_ne_zero hh)

lemma Booked.lt_nextPipe (hw : w.Booked) (hh : h ∈ w.live) : h.pipeId < w.table.nextPipe := by
  obtain ⟨st, hst⟩ := hw.entry hh
  by_contra hlt
  have hnone := (hw.fresh h.pipeId (Nat.le_of_not_lt hlt)).1
  rw [hst] at hnone
  cases hnone

lemma Booked.touch (hw : w.Booked) (hh : h ∈ w.live) {w' : PipeWorld} {entry : Option PipeState}
    {taken given : List UInt8} (htable : w'.table = w.table.set h.pipeId entry)
    (htaken : w'.taken = update w.taken h.pipeId taken) (hgiven : w'.given = update w.given h.pipeId given)
    (hroom : w'.live.length ≤ maxHandles) (hother : ∀ id, id ≠ h.pipeId → w'.handles id = w.handles id)
    (hbooks : PipeBooks entry (w'.handles h.pipeId) taken given) : w'.Booked := by
  have hlt := hw.lt_nextPipe hh
  have hentries : w'.table.entries = update w.table.entries h.pipeId entry := by
    rw [htable]
    rfl
  refine ⟨?_, ?_, hroom⟩
  · intro id
    rw [hentries, htaken, hgiven]
    by_cases hid : id = h.pipeId
    · subst hid
      rw [update_self, update_self, update_self]
      exact hbooks
    · rw [update_of_ne hid, update_of_ne hid, update_of_ne hid, hother id hid]
      exact hw.books id
  · intro id hid
    replace hid : w.table.nextPipe ≤ id := by
      rw [htable] at hid
      exact hid
    have hne : id ≠ h.pipeId := by
      intro he
      subst he
      exact absurd hlt (Nat.not_lt_of_le hid)
    rw [hentries, hgiven, update_of_ne hne, update_of_ne hne]
    exact hw.fresh id hid

lemma handle_beq {b : Bool} : (h == (⟨id, b⟩ : PipeHandle)) = true ↔ id = h.pipeId ∧ b = h.isWrite := by
  obtain ⟨id', b'⟩ := h
  rw [beq_iff_eq, PipeHandle.mk.injEq, eq_comm, @eq_comm Bool]

lemma count_cons_handle (l : List PipeHandle) (id : ℕ) (b : Bool) :
    (h :: l).count ⟨id, b⟩ = l.count ⟨id, b⟩ + if id = h.pipeId ∧ b = h.isWrite then 1 else 0 := by
  rw [count_cons, if_congr handle_beq rfl rfl]

lemma count_erase_handle (l : List PipeHandle) (id : ℕ) (b : Bool) :
    (l.erase h).count ⟨id, b⟩ = l.count ⟨id, b⟩ - if id = h.pipeId ∧ b = h.isWrite then 1 else 0 := by
  rw [count_erase, if_congr handle_beq rfl rfl]

section
variable (hw : w.Booked) (hh : h ∈ w.live)
include hw hh

lemma Booked.dup (hroom : w.live.length + 1 ≤ maxHandles) : (w.dup h).Booked := by
  obtain ⟨st, hst⟩ := hw.entry hh
  have hbooks := hw.books h.pipeId
  rw [hst] at hbooks
  have hclone : w.table.cloneBox h = (h, w.table.set h.pipeId (some (st.opened h.isWrite))) := by
    unfold PipeTable.cloneBox
    rw [hst]
  have hlive : (w.dup h).live = h :: w.live := by
    unfold PipeWorld.dup
    rw [hclone]
  have hhandles : ∀ id b, (w.dup h).handles id b = w.handles id b + if id = h.pipeId ∧ b = h.isWrite then 1 else 0 := by
    intro id b
    unfold handles
    rw [hlive, count_cons_handle]
  refine hw.touch hh (congrArg Prod.snd hclone) (update_eq_self _ _).symm
    (update_eq_self _ _).symm ?_ ?_ ?_
  · rw [hlive]
    exact hroom
  · intro id hid
    funext b
    rw [hhandles, if_neg (fun hc => hid hc.1), add_zero]
  · refine hbooks.opened (handles_lt hw.room h.isWrite) ?_
    intro b
    rw [hhandles]
    by_cases hb : b = h.isWrite
    · rw [if_pos ⟨rfl, hb⟩, if_pos hb]
    · rw [if_neg (fun hc => hb hc.2), if_neg hb, add_zero]

lemma Booked.close : (w.close h).Booked := by
  obtain ⟨st, hst⟩ := hw.entry hh
  have hbooks := hw.books h.pipeId
  rw [hst] at hbooks
  have hdrop : w.table.dropHandle h = w.table.set h.pipeId
      (if (st.closed h.isWrite).dead then none else some (st.closed h.isWrite)) := by
    unfold PipeTable.dropHandle
    rw [hst]
  have hhandles : ∀ id b, (w.close h).handles id b = w.handles id b - if id = h.pipeId ∧ b = h.isWrite then 1 else 0 :=
    fun id b => count_erase_handle w.live id b
  refine hw.touch hh hdrop (update_eq_self _ _).symm (update_eq_self _ _).symm
    ((length_erase_le).trans hw.room) ?_ (hbooks.closed ?_)
  · intro id hid
    funext b
    rw [hhandles, if_neg (fun hc => hid hc.1), Nat.sub_zero]
  · intro b
    rw [hhandles]
    by_cases hb : b = h.isWrite
    · rw [if_pos ⟨rfl, hb⟩, if_pos hb]
    · rw [if_neg (fun hc => hb hc.2), if_neg hb, Nat.sub_zero]

lemma Booked.read (len : ℕ) : (w.read h len).Booked := by
  obtain ⟨st, hst⟩ := hw.entry hh
  have hbooks := hw.books h.pipeId
  rw [hst] at hbooks
  -- a read that takes nothing changes nothing
  have hsame : ∀ taken, taken = w.taken → ({ w with taken } : PipeWorld).Booked := by
    intro taken htaken
    rw [htaken]
    exact hw
  unfold PipeWorld.read PipeTable.read
  cases h.isWrite with
  | true => exact hsame _ rfl
  | false =>
    rw [hst]
    dsimp only [Bool.false_eq_true, if_false]
    cases hcheck : st.check with
    | none =>
      exact hw.touch hh rfl rfl (update_eq_self _ _).symm hw.room (fun _ _ => rfl)
        (hbooks.take len)
    | some result =>
      cases result with
      | error e => exact hsame _ rfl
      | ok bytes =>
        refine hsame _ ?_
        change update w.taken h.pipeId (w.taken h.pipeId ++ bytes) = w.taken
        rw [PipeState.check_ok hcheck, append_nil]
        exact update_eq_self _ _

lemma Booked.write (bytes : List UInt8) : (w.write h bytes).Booked := by
  obtain ⟨st, hst⟩ := hw.entry hh
  have hbooks := hw.books h.pipeId
  rw [hst] at hbooks
  unfold PipeWorld.write PipeTable.write
  cases h.isWrite with
  | true =>
    rw [hst]
    exact hw.touch hh rfl (update_eq_self _ _).symm rfl hw.room (fun _ _ => rfl)
      (hbooks.extend bytes)
  | false => exact hw

end

lemma Booked.pipe2 (hw : w.Booked) (hroom : w.live.length + 2 ≤ maxHandles) : w.pipe2.Booked := by
  obtain ⟨hnone, hgiven⟩ := hw.fresh w.table.nextPipe (le_refl _)
  have hold := hw.books w.table.nextPipe
  rw [hnone, hgiven] at hold
  have hzero : ∀ b, w.handles w.table.nextPipe b = 0 := by
    intro b
    by_contra hb
    obtain ⟨st, hst⟩ := hold.exists_entry hb
    cases hst
  have htaken : w.taken w.table.nextPipe = [] := prefix_nil.mp hold.inOrder
  have hhandles : ∀ id b, w.pipe2.handles id b = w.handles id b + if id = w.table.nextPipe then 1 else 0 := by
    intro id b
    change ((⟨w.table.nextPipe, false⟩ : PipeHandle) :: ⟨w.table.nextPipe, true⟩ :: w.live).count _ = _
    rw [count_cons_handle, count_cons_handle]
    cases b <;> by_cases hid : id = w.table.nextPipe <;> simp [hid, handles]
  have hentries : w.pipe2.table.entries = update w.table.entries w.table.nextPipe (some .new) := rfl
  refine ⟨?_, ?_, hroom⟩
  · intro id
    rw [hentries]
    by_cases hid : id = w.table.nextPipe
    · subst hid
      rw [update_self]
      change PipeBooks _ _ (w.taken w.table.nextPipe) (w.given w.table.nextPipe)
      rw [hgiven, htaken]
      refine PipeBooks.of_some ⟨true, ?_⟩ ?_ rfl
      · rw [hhandles, if_pos rfl]
        exact succ_ne_zero _
      · intro a
        rw [hhandles, hzero, if_pos rfl]
        cases a <;> rfl
    · have hsame : w.pipe2.handles id = w.handles id := by
        funext b
        rw [hhandles, if_neg hid, add_zero]
      rw [update_of_ne hid, hsame]
      exact hw.books id
  · intro id hid
    replace hid : w.table.nextPipe < id := hid
    rw [hentries, update_of_ne hid.ne']
    exact hw.fresh id hid.le

lemma Booked.step (hw : w.Booked) {c : PipeCall} (hc : w.Allowed c) : (w.apply c).Booked := by
  cases c with
  | pipe2 => exact hw.pipe2 hc
  | dup h => exact hw.dup hc.1 hc.2
  | close h => exact hw.close hc
  | read h len => exact hw.read hc len
  | write h bytes => exact hw.write hc bytes

lemma empty_booked : empty.Booked := ⟨fun _ => PipeBooks.of_none (fun _ => rfl) prefix_rfl, fun _ _ => ⟨rfl, rfl⟩, zero_le _⟩

/-- In every state of every run the books of every pipe are right. -/
theorem run_books {tr : List (PipeWorld × PipeCall)} (hrun : Run Step empty tr w) (id : ℕ) :
    (∀ x ∈ tr, PipeBooks (x.1.table.entries id) (x.1.handles id) (x.1.taken id) (x.1.given id)) ∧
      PipeBooks (w.table.entries id) (w.handles id) (w.taken id) (w.given id) := by
  have hinv : (∀ x ∈ tr, x.1.Booked) ∧ w.Booked := by
    refine hrun.invariant empty_booked ?_
    intro w c w' hw hstep
    rw [hstep.2]
    exact hw.step hstep.1
  exact ⟨fun x hx => (hinv.1 x hx).books id, hinv.2.books id⟩

/-- Two bytes go in, the write handle is closed, and one byte is read. -/
theorem run_books_halfRead : let w := (((empty.pipe2).write ⟨0, true⟩ [1, 2]).close ⟨0, true⟩).read ⟨0, false⟩ 1
    w.taken 0 = [1] ∧ PipeBooks (w.table.entries 0) (w.handles 0) (w.taken 0) (w.given 0) := by
  refine ⟨rfl, ?_⟩
  have hcall : ∀ {tr w}, Run Step empty tr w → ∀ c, w.Allowed c →
      Run Step empty (tr ++ [(w, c)]) (w.apply c) := fun hrun c hc => hrun.snoc ⟨hc, rfl⟩
  have hrun := hcall (hcall (hcall (hcall Run.nil .pipe2 (by decide))
    (.write ⟨0, true⟩ [1, 2]) (by decide)) (.close ⟨0, true⟩) (by decide))
    (.read ⟨0, false⟩ 1) (by decide)
  exact (run_books hrun 0).2

end PipeWorld
end NodeKernel
