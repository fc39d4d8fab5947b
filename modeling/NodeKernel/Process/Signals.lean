import NodeKernel.Lib.Bytes
import NodeKernel.Process.Kernel

/-!
# Signals

The signal state of a task, `sys_rt_sigaction` and `sys_rt_sigprocmask`, and the delivery
of a pending signal on the way out of a system call.
-/
namespace NodeKernel

structure Signals where
  pending : BitVec 64
  mask : BitVec 64
  handlers : ℕ → ℕ

namespace Signals

def new : Signals := ⟨0, 0, fun _ => 0⟩

def deliverable (s : Signals) : BitVec 64 := s.pending &&& ~~~s.mask

/-- The signal with the lowest number among those that can be delivered, and its handler. -/
def takePendingSignal (s : Signals) : Option (ℕ × ℕ × Signals) :=
  ((List.range 64).find? (fun i => s.deliverable.getLsbD i)).map (fun signum =>
    (signum, s.handlers signum, { s with pending := s.pending &&& ~~~(1#64 <<< signum) }))

def setSignalHandler (s : Signals) (signum handler : ℕ) : Signals :=
  if signum < 64 then { s with handlers := Function.update s.handlers signum handler } else s

def maskSignals (s : Signals) (mask : BitVec 64) : Signals := { s with mask := s.mask ||| mask }

def unmaskSignals (s : Signals) (mask : BitVec 64) : Signals := { s with mask := s.mask &&& ~~~mask }

def setSignalMask (s : Signals) (mask : BitVec 64) : Signals := { s with mask }

end Signals

structure Percpu where
  userRsp : ℕ
  signalNewRip : ℕ
  signalNewRsp : ℕ
  signalNewRflags : ℕ
  signalSignum : ℕ

/-- A process at a system call: its signals, the memory that it sees, and the processor. -/
structure SigProc where
  signals : Signals
  mem : ByteMem
  cpu : Percpu

def userEnd : ℕ := 0x0000800000000000

/-- `validate_user_ptr`, with the addition saturated at 64 bits. -/
def validateUserPtr (ptr len : ℕ) : Bool := ptr != 0 && decide (min (ptr + len) (2 ^ 64 - 1) ≤ userEnd)

def sigframeSlots : ℕ := 6

/-- The stack pointer of a handler, in 64 bits: 16-byte aligned below the frame, less 8. -/
def sigframeRsp (userRsp : ℕ) : ℕ :=
  let below := (userRsp + 2 ^ 64 - 8 * sigframeSlots) % 2 ^ 64
  (below / 16 * 16 + 2 ^ 64 - 8) % 2 ^ 64

/-- What `maybe_deliver_signal` does: it returns 0, it returns the number of a signal whose
handler is about to run, it ends the process, or it faults on the user stack. -/
inductive Delivery where
  | ignored (p : SigProc)
  | entered (signum : ℕ) (p : SigProc)
  | exited (code : ℕ)
  | faulted

/-- The exit codes of the signals that end a process by default. -/
def defaultExit : ℕ → Option ℕ
  | 9 => some (128 + 9)
  | 15 => some (128 + 15)
  | 11 => some 139
  | 8 => some 136
  | 6 => some 134
  | _ => none

namespace SigProc

def sysRtSigaction (p : SigProc) (signum actPtr oldactPtr : ℕ) : SigProc :=
  let p :=
    if oldactPtr ≠ 0 ∧ validateUserPtr oldactPtr 32 then
      let mem := p.mem.store oldactPtr (List.replicate 32 0)
      { p with mem := if signum < 64 then mem.write64 oldactPtr (p.signals.handlers signum) else mem }
    else p
  if actPtr ≠ 0 ∧ signum < 64 ∧ validateUserPtr actPtr 8 then
    { p with signals := p.signals.setSignalHandler signum (p.mem.read64 actPtr) }
  else p

def sysRtSigprocmask (p : SigProc) (how set oldset : ℕ) : SigProc :=
  let p :=
    if oldset ≠ 0 ∧ validateUserPtr oldset 8 then
      { p with mem := p.mem.write64 oldset p.signals.mask.toNat }
    else p
  if set ≠ 0 ∧ how ≤ 2 ∧ validateUserPtr set 8 then
    let newBits := BitVec.ofNat 64 (p.mem.read64 set)
    { p with signals := match how with
        | 0 => p.signals.maskSignals newBits
        | 1 => p.signals.unmaskSignals newBits
        | 2 => p.signals.setSignalMask newBits
        | _ => p.signals }
  else p

def sigframe (signum savedRax userRip userRflags userRsp : ℕ) : List ℕ :=
  [vdsoAddr, signum, savedRax, userRip, userRflags, userRsp]

/-- `writable` tells which words of the user stack can be written. -/
def maybeDeliverSignal (p : SigProc) (writable : ℕ → Bool) (userRip userRflags userRsp savedRax : ℕ) : Delivery :=
  match p.signals.takePendingSignal with
  | none => .ignored p
  | some (signum, handler, signals) =>
    let p := { p with signals }
    if handler = 0 then
      match defaultExit signum with
      | some code => .exited code
      | none => .ignored p
    else
      let newRsp := sigframeRsp userRsp
      if (List.range sigframeSlots).all (fun i => writable (wordAddr newRsp i)) then
        .entered signum { p with
          mem := p.mem.writeWords newRsp (sigframe signum savedRax userRip userRflags userRsp)
          cpu := { p.cpu with
            signalNewRip := handler
            signalNewRsp := newRsp
            signalNewRflags := 0x0202
            signalSignum := signum } }
      else .faulted

end SigProc

inductive SigCall where
  | sigaction (signum actPtr oldactPtr : ℕ)
  | sigprocmask (how set oldset : ℕ)
  | store (a : ℕ) (bytes : List UInt8)

def SigProc.apply (p : SigProc) : SigCall → SigProc
  | .sigaction signum actPtr oldactPtr => p.sysRtSigaction signum actPtr oldactPtr
  | .sigprocmask how set oldset => p.sysRtSigprocmask how set oldset
  | .store a bytes => { p with mem := p.mem.store a bytes }

/-- The process is ended on its way out of the system call. -/
def SigProc.Terminated (p : SigProc) (writable : ℕ → Bool) (userRip userRflags userRsp savedRax : ℕ) :
    Prop := ∃ code, p.maybeDeliverSignal writable userRip userRflags userRsp savedRax = .exited code

/-- Of the pending signals that are not blocked, the one with the lowest number has no handler and
ends a process by default. -/
def Signals.Fatal (s : Signals) : Prop :=
  ∃ n, (defaultExit n).isSome ∧ s.handlers n = 0 ∧ s.pending.getLsbD n ∧ !s.mask.getLsbD n ∧
    ∀ m < n, s.pending.getLsbD m → s.mask.getLsbD m

namespace Signals

variable {s : Signals}

lemma deliverable_getLsbD (i : ℕ) :
    s.deliverable.getLsbD i = true ↔ i < 64 ∧ s.pending.getLsbD i = true ∧ s.mask.getLsbD i = false := by
  unfold deliverable
  rw [BitVec.getLsbD_and, BitVec.getLsbD_not, Bool.and_eq_true, Bool.and_eq_true, decide_eq_true_eq, Bool.not_eq_true']
  tauto

lemma takePendingSignal_eq_some {n handler : ℕ} {s' : Signals} : s.takePendingSignal = some (n, handler, s') ↔
      (s.pending.getLsbD n = true ∧ s.mask.getLsbD n = false ∧ ∀ m < n, s.pending.getLsbD m = true → s.mask.getLsbD m = true) ∧
      handler = s.handlers n ∧ s' = { s with pending := s.pending &&& ~~~(1#64 <<< n) } := by
  unfold takePendingSignal
  rw [Option.map_eq_some_iff]
  constructor
  · intro h
    obtain ⟨k, hk, he⟩ := h
    obtain ⟨rfl, rfl, rfl⟩ : k = n ∧ s.handlers k = handler ∧ _ = s' := by
      simpa only [Prod.mk.injEq] using he
    rw [List.find?_range_eq_some, deliverable_getLsbD] at hk
    obtain ⟨⟨_, hpend, hmask⟩, _, hlow⟩ := hk
    refine ⟨⟨hpend, hmask, ?_⟩, rfl, rfl⟩
    intro m hm hpm
    by_contra hmm
    have hno := hlow m hm
    have hyes : s.deliverable.getLsbD m = true :=
      deliverable_getLsbD m |>.mpr ⟨BitVec.lt_of_getLsbD hpm, hpm, by simpa using hmm⟩
    rw [hyes] at hno
    cases hno
  · intro h
    obtain ⟨⟨hpend, hmask, hlow⟩, rfl, rfl⟩ := h
    have hlt := BitVec.lt_of_getLsbD hpend
    refine ⟨n, ?_, rfl⟩
    rw [List.find?_range_eq_some, deliverable_getLsbD]
    refine ⟨⟨hlt, hpend, hmask⟩, List.mem_range.mpr hlt, ?_⟩
    intro m hm
    rw [Bool.not_eq_true', Bool.eq_false_iff]
    intro hyes
    obtain ⟨_, hpm, hmm⟩ := (deliverable_getLsbD m).mp hyes
    rw [hlow m hm hpm] at hmm
    cases hmm

end Signals

lemma SigProc.terminated_iff (p : SigProc) (writable : ℕ → Bool) (userRip userRflags userRsp savedRax : ℕ) :
    p.Terminated writable userRip userRflags userRsp savedRax ↔ p.signals.Fatal := by
  unfold SigProc.Terminated SigProc.maybeDeliverSignal
  constructor
  · intro h
    obtain ⟨code, h⟩ := h
    cases htake : p.signals.takePendingSignal with
    | none =>
      rw [htake] at h
      cases h
    | some taken =>
      obtain ⟨n, handler, signals⟩ := taken
      obtain ⟨⟨hpend, hmask, hlow⟩, rfl, _⟩ := Signals.takePendingSignal_eq_some.mp htake
      rw [htake] at h
      dsimp only at h
      split at h
      next hzero =>
        refine ⟨n, ?_, hzero, hpend, by rw [hmask]; rfl, hlow⟩
        split at h
        next code' hexit => rw [hexit]; rfl
        · cases h
      · split at h
        · cases h
        · cases h
  · intro h
    obtain ⟨n, hexit, hzero, hpend, hmask, hlow⟩ := h
    obtain ⟨code, hcode⟩ := Option.isSome_iff_exists.mp hexit
    have htake : p.signals.takePendingSignal = some (n, p.signals.handlers n,
        { p.signals with pending := p.signals.pending &&& ~~~(1#64 <<< n) }) :=
      Signals.takePendingSignal_eq_some.mpr ⟨⟨hpend, by simpa using hmask, hlow⟩, rfl, rfl⟩
    refine ⟨code, ?_⟩
    rw [htake]
    dsimp only
    rw [if_pos hzero, hcode]

/-- With signal 9 pending, after any calls and with any other signals pending, the next return
from a system call ends the process if and only if the signal that is its turn is fatal. -/
theorem sigkill_terminates_iff (p : SigProc) (calls : List SigCall) (others : BitVec 64)
    (writable : ℕ → Bool) (userRip userRflags userRsp savedRax : ℕ) : let q := calls.foldl SigProc.apply p
    let signals := { q.signals with pending := others ||| 1#64 <<< 9 }
    SigProc.Terminated { q with signals } writable userRip userRflags userRsp savedRax ↔ signals.Fatal :=
  SigProc.terminated_iff _ writable userRip userRflags userRsp savedRax

/-- A new process that puts the mask at 0x1000 and blocks signal 9 returns from its next system call
as if nothing was pending. -/
theorem sigkill_is_blocked : let p : SigProc := ⟨Signals.new, fun _ => 0, ⟨0, 0, 0, 0, 0⟩⟩
    let q := [SigCall.store 0x1000 (toLe 8 (2 ^ 9)), .sigprocmask 0 0x1000 0].foldl SigProc.apply p
    let r : SigProc := { q with signals := { q.signals with pending := 1#64 <<< 9 } }
    r.maybeDeliverSignal (fun _ => true) 0x400000 0x202 0x7000 0 = .ignored r := by
  intro p q r
  have hnone : (List.range 64).find? (fun i => r.signals.deliverable.getLsbD i) = none := by decide
  unfold SigProc.maybeDeliverSignal Signals.takePendingSignal
  rw [hnone]
  rfl

end NodeKernel
