import NodeKernel.Lib.Bytes
import NodeKernel.Lib.Run

/-!
# Tracing

`kernel/src/ptrace.rs`. The table of the tracees has the tracer of each, but no request is checked against it, and
`PEEKDATA` takes the address for a physical one.
-/
namespace NodeKernel

open Function

structure TraceeState where
  tracerPid : ℕ
  onAnomalyOnly : Bool

inductive PtraceRequest where
  | traceme
  | attach (pid : ℕ)
  | detach (pid : ℕ)
  | cont (pid : ℕ)
  | peekdata (pid addr : ℕ)
  | onAnomaly (pid : ℕ)

inductive PtraceResult where
  | value (v : ℕ)
  | error (errno : ℕ)
  deriving DecidableEq

/-- The table, the processes with their address spaces, and who is attached to whom by the requests so far. -/
structure PtraceWorld where
  tracees : ℕ → Option TraceeState
  pidExists : ℕ → Bool
  mem : ByteMem
  space : ℕ → ℕ → Option ℕ
  signals : List (ℕ × ℕ)
  attached : ℕ → Option ℕ

namespace PtraceWorld

variable (w : PtraceWorld) (physOff : ℕ)

def sendSignal (pid sig : ℕ) : PtraceWorld := { w with signals := w.signals ++ [(pid, sig)] }

def ptraceTraceme (pid : ℕ) : PtraceResult × PtraceWorld :=
  (.value 0, { w with tracees := update w.tracees pid ((w.tracees pid).getD ⟨0, false⟩) })

def ptraceAttach (tracer tracee : ℕ) : PtraceResult × PtraceWorld :=
  if w.pidExists tracee = false then (.error 3, w)
  else (.value 0, sendSignal { w with
    tracees := update w.tracees tracee (some ⟨tracer, false⟩)
    attached := update w.attached tracee (some tracer) } tracee 19)

def ptraceDetach (tracee : ℕ) : PtraceResult × PtraceWorld :=
  if (w.tracees tracee).isSome then
    (.value 0, sendSignal { w with
      tracees := update w.tracees tracee none
      attached := update w.attached tracee none } tracee 18)
  else (.error 3, w)

def ptraceCont (tracee : ℕ) : PtraceResult × PtraceWorld :=
  if (w.tracees tracee).isSome then (.value 0, w.sendSignal tracee 18) else (.error 3, w)

/-- All of physical memory is mapped from `phys_off` on. -/
def ptracePeekdata (tracee addr : ℕ) : PtraceResult × PtraceWorld :=
  if w.pidExists tracee = false then (.error 3, w)
  else
    let virt := (physOff + addr) % 2 ^ 64
    if virt < physOff then (.error 14, w) else (.value (w.mem.read64 (virt - physOff)), w)

def ptraceOnAnomaly (tracee : ℕ) : PtraceResult × PtraceWorld :=
  match w.tracees tracee with
  | some s => (.value 0, { w with tracees := update w.tracees tracee (some { s with onAnomalyOnly := true }) })
  | none => (.error 3, w)

def sysPtrace (caller : ℕ) : PtraceRequest → PtraceResult × PtraceWorld
  | .traceme => w.ptraceTraceme caller
  | .attach pid => w.ptraceAttach caller pid
  | .detach pid => w.ptraceDetach pid
  | .cont pid => w.ptraceCont pid
  | .peekdata pid addr => w.ptracePeekdata physOff pid addr
  | .onAnomaly pid => w.ptraceOnAnomaly pid

/-- Requests of processes, and what happens between them: memory and address spaces change, processes come and go. -/
inductive Event where
  | request (caller : ℕ) (req : PtraceRequest)
  | memory (mem : ByteMem) (space : ℕ → ℕ → Option ℕ)
  | spawn (pid : ℕ)
  | exit (pid : ℕ)

inductive Step : PtraceWorld → Event → PtraceWorld → Prop
  | request {w : PtraceWorld} {caller : ℕ} {req : PtraceRequest} : caller ≠ 0 →
      Step w (.request caller req) (w.sysPtrace physOff caller req).2
  | memory {w : PtraceWorld} {mem : ByteMem} {space : ℕ → ℕ → Option ℕ} :
      Step w (.memory mem space) { w with mem, space }
  | spawn {w : PtraceWorld} {pid : ℕ} : Step w (.spawn pid) { w with pidExists := update w.pidExists pid true }
  | exit {w : PtraceWorld} {pid : ℕ} : Step w (.exit pid) { w with
      pidExists := update w.pidExists pid false
      tracees := update w.tracees pid none
      attached := update w.attached pid none }

def start (pidExists : ℕ → Bool) (mem : ByteMem) (space : ℕ → ℕ → Option ℕ) : PtraceWorld where
  tracees _ := none
  pidExists := pidExists
  mem := mem
  space := space
  signals := []
  attached _ := none

/-- The word at a virtual address of a process, if its bytes are mapped. -/
def virtualWord (pid addr : ℕ) : Option ℕ :=
  ((List.range 8).mapM (fun i => w.space pid (addr + i))).map (fun bytes => ofLe (bytes.map w.mem))

/-- A request that succeeds is one of the tracer, takes no tracee away and reads what the tracee would read. -/
def Authorised : Event → Prop
  | .request caller (.attach pid) => (w.sysPtrace physOff caller (.attach pid)).1 = .value 0 →
      ∀ q, w.attached pid = some q → w.pidExists q = true → q = caller
  | .request caller (.peekdata pid addr) => ∀ v, (w.sysPtrace physOff caller (.peekdata pid addr)).1 = .value v →
      w.attached pid = some caller ∧ w.virtualWord pid addr = some v
  | .request _ .traceme => True
  | .request caller (.detach pid) => (w.sysPtrace physOff caller (.detach pid)).1 = .value 0 → w.attached pid = some caller
  | .request caller (.cont pid) => (w.sysPtrace physOff caller (.cont pid)).1 = .value 0 → w.attached pid = some caller
  | .request caller (.onAnomaly pid) =>
      (w.sysPtrace physOff caller (.onAnomaly pid)).1 = .value 0 → w.attached pid = some caller
  | _ => True

def tracer (pid : ℕ) : Option ℕ := (w.tracees pid).bind (fun s => if s.tracerPid = 0 then none else some s.tracerPid)

/-- The caller is the tracer in the table where there is an entry, nobody attaches where the table has another process
that exists, and the word is the same at the virtual and at the physical address. -/
def Careful : Event → Prop
  | .request caller (.attach pid) => w.pidExists pid = true →
      ∀ q, w.tracer pid = some q → w.pidExists q = true → q = caller
  | .request caller (.detach pid) | .request caller (.cont pid) | .request caller (.onAnomaly pid) =>
      (w.tracees pid).isSome → w.tracer pid = some caller
  | .request caller (.peekdata pid addr) => w.pidExists pid = true → physOff ≤ (physOff + addr) % 2 ^ 64 →
      w.tracer pid = some caller ∧ w.virtualWord pid addr = some (w.mem.read64 ((physOff + addr) % 2 ^ 64 - physOff))
  | _ => True

variable {w} {w' : PtraceWorld} {physOff} {e : Event}

lemma authorised_iff (h : w.attached = w.tracer) : w.Authorised physOff e ↔ w.Careful physOff e := by
  cases e with
  | request caller req =>
    cases req with
    | traceme => exact Iff.rfl
    | attach pid =>
      simp only [Authorised, Careful, sysPtrace, ptraceAttach, h]
      cases w.pidExists pid <;> simp
    | detach pid =>
      simp only [Authorised, Careful, sysPtrace, ptraceDetach, h]
      cases w.tracees pid <;> simp
    | cont pid =>
      simp only [Authorised, Careful, sysPtrace, ptraceCont, h]
      cases w.tracees pid <;> simp
    | onAnomaly pid =>
      simp only [Authorised, Careful, sysPtrace, ptraceOnAnomaly, h]
      cases w.tracees pid <;> simp
    | peekdata pid addr =>
      simp only [Authorised, Careful, sysPtrace, ptracePeekdata, h]
      generalize (physOff + addr) % 2 ^ 64 = virt
      cases w.pidExists pid with
      | false => simp
      | true =>
        by_cases hv : virt < physOff
        · simp [hv, Nat.not_le_of_lt hv]
        · simp [hv, Nat.le_of_not_lt hv]
  | memory | spawn | exit => exact Iff.rfl

section
variable (h : w.attached = w.tracer) (pid : ℕ) (s : Option TraceeState) (hs : w'.tracees = update w.tracees pid s)
include h pid s hs

/-- An update of both sides keeps the table right about who is attached. -/
theorem attached_update
    (ha : w'.attached = update w.attached pid (s.bind (fun s => if s.tracerPid = 0 then none else some s.tracerPid))) :
    w'.attached = w'.tracer := by
  funext t
  rw [ha, h]
  unfold tracer
  rw [hs]
  by_cases ht : t = pid
  · subst ht
    rw [update_self, update_self]
  · rw [update_of_ne ht, update_of_ne ht]

lemma attached_of_same (ha : w'.attached = w.attached)
    (hsame : s.bind (fun s => if s.tracerPid = 0 then none else some s.tracerPid) = w.tracer pid) :
    w'.attached = w'.tracer := by
  refine attached_update h pid s hs ?_
  rw [ha, hsame, ← h, update_eq_self]

end

lemma Step.attached (hs : Step physOff w e w') (h : w.attached = w.tracer) : w'.attached = w'.tracer := by
  cases hs with
  | memory => exact h
  | spawn => exact h
  | exit => exact attached_update h _ none rfl rfl
  | @request caller req hne =>
    cases req with
    | peekdata pid addr =>
      unfold sysPtrace ptracePeekdata
      dsimp only
      split_ifs <;> exact h
    | traceme =>
      refine attached_of_same h caller _ rfl rfl ?_
      unfold tracer
      cases w.tracees caller <;> rfl
    | attach pid =>
      unfold sysPtrace ptraceAttach
      dsimp only
      split_ifs
      · exact h
      · refine attached_update h pid _ rfl ?_
        rw [Option.bind_some, if_neg hne]
        rfl
    | detach pid =>
      unfold sysPtrace ptraceDetach
      dsimp only
      split_ifs
      · exact attached_update h pid none rfl rfl
      · exact h
    | cont pid =>
      unfold sysPtrace ptraceCont
      dsimp only
      split_ifs <;> exact h
    | onAnomaly pid =>
      unfold sysPtrace ptraceOnAnomaly
      dsimp only
      cases hp : w.tracees pid with
      | none => exact h
      | some s =>
        refine attached_of_same h pid _ rfl rfl ?_
        rw [tracer, hp]
        rfl

/-- In a history of requests each one is authorised exactly if each one is careful. -/
theorem run_authorised_iff {pidExists : ℕ → Bool} {mem : ByteMem} {space : ℕ → ℕ → Option ℕ}
    {tr : List (PtraceWorld × Event)} (hrun : Run (Step physOff) (start pidExists mem space) tr w) :
    (∀ x ∈ tr, x.1.Authorised physOff x.2) ↔ ∀ x ∈ tr, x.1.Careful physOff x.2 :=
  hrun.forall_iff_of (I := fun w => w.attached = w.tracer) (P := fun w e => w.Authorised physOff e)
    (C := fun w e => w.Careful physOff e) rfl (fun _ _ _ h _ hs => hs.attached h)
    (fun _ _ _ h _ => authorised_iff h)

/-- Every process exists, and its memory is the physical one. -/
def flat : PtraceWorld := start (fun _ => true) (fun _ => 0) (fun _ a => some a)

theorem run_authorised_iff_attached : ∃ tr w, Run (Step 0) flat tr w ∧ w.attached 2 = some 1 ∧
    ((∀ x ∈ tr, x.1.Authorised 0 x.2) ↔ ∀ x ∈ tr, x.1.Careful 0 x.2) := by
  have hrun := Run.nil.snoc (@Step.request 0 flat 1 (.attach 2) Nat.one_ne_zero)
  exact ⟨_, _, hrun, rfl, run_authorised_iff hrun⟩

/-- The process 3 ends what the process 1 has begun. -/
theorem stranger_detaches : ¬ ∀ tr w, Run (Step 0) flat tr w → ∀ x ∈ tr, x.1.Authorised 0 x.2 := by
  intro h
  have hrun := (Run.nil.snoc (@Step.request 0 flat 1 (.attach 2) Nat.one_ne_zero)).snoc
    (@Step.request 0 _ 3 (.detach 2) (by decide))
  have hlast := h _ _ hrun _ (List.mem_append_right _ List.mem_cons_self) rfl
  exact absurd (Option.some.inj hlast) (by decide)

end PtraceWorld

end NodeKernel
