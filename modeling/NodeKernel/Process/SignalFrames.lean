import NodeKernel.Process.Signals

/-!
# Signal handlers and their frames

The way out of a system call in `_syscall_entry`, `sys_rt_sigreturn`, and the context that a
process continues with once its handlers have returned.
-/
namespace NodeKernel

open List

structure UserRegs where
  rip : ℕ
  rflags : ℕ
  rsp : ℕ
  rax : ℕ
  deriving DecidableEq

/-- The context that a system call interrupts, with its result in `rax`. `rip` is the address after
a `syscall` instruction, so it is not 0. -/
structure UserCtx extends UserRegs where
  rip_ne : rip ≠ 0
  fits : rip < 2 ^ 64 ∧ rflags < 2 ^ 64 ∧ rsp < 2 ^ 64 ∧ rax < 2 ^ 64

/-- The way out ends in user code or in a handler, or it ends the process, or the kernel faults. -/
inductive Leaving where
  | user (regs : UserRegs) (inHandler : Bool) (p : SigProc)
  | exited (code : ℕ)
  | faulted

namespace SigProc

def enter (p : SigProc) (rsp : ℕ) : SigProc := { p with cpu := { p.cpu with userRsp := rsp } }

/-- The end of `_syscall_entry`. The user's `rip` and `rflags` are in `rcx` and `r11`, which the
call of `maybe_deliver_signal` does not preserve; `scratch` is what it leaves there. -/
def sysret (p : SigProc) (scratch : ℕ × ℕ) (rax : ℕ) : UserRegs × SigProc :=
  if p.cpu.signalNewRip ≠ 0 then
    (⟨p.cpu.signalNewRip, p.cpu.signalNewRflags, p.cpu.signalNewRsp, rax⟩,
      { p with cpu := { p.cpu with userRsp := p.cpu.signalNewRsp, signalNewRip := 0 } })
  else (⟨scratch.1, scratch.2, p.cpu.userRsp, rax⟩, p)

def leave (p : SigProc) (writable : ℕ → Bool) (scratch : ℕ × ℕ) (rip rflags rax : ℕ) : Leaving :=
  match p.maybeDeliverSignal writable rip rflags p.cpu.userRsp rax with
  | .ignored p => .user (p.sysret scratch rax).1 false (p.sysret scratch rax).2
  | .entered _ p => .user (p.sysret scratch rax).1 true (p.sysret scratch rax).2
  | .exited code => .exited code
  | .faulted => .faulted

def sysRtSigreturn (p : SigProc) : ℕ × SigProc :=
  let frameBase := (p.cpu.userRsp + 2 ^ 64 - 8) % 2 ^ 64
  (p.mem.read64 (wordAddr frameBase 2),
    { p with cpu := { p.cpu with
        signalNewRip := p.mem.read64 (wordAddr frameBase 3)
        signalNewRflags := p.mem.read64 (wordAddr frameBase 4)
        signalNewRsp := p.mem.read64 (wordAddr frameBase 5) } })

end SigProc

/-- What the process continues with: at once, or when the handler returns through
`rt_sigreturn` and the frame is as it was left. -/
def Leaving.continuation : Leaving → Option UserRegs
  | .user regs false _ => some regs
  | .user regs true p =>
    let (rax, p) := (p.enter (wordAddr regs.rsp 1)).sysRtSigreturn
    some ⟨p.cpu.signalNewRip, p.cpu.signalNewRflags, p.cpu.signalNewRsp, rax⟩
  | .exited _ => none
  | .faulted => none

/-- A process, and for every handler that is running, the innermost first, the context that the
process has to continue with when it is done, and the address of its frame. -/
structure SigWorld where
  proc : SigProc
  running : Bool
  frames : List (UserCtx × ℕ)

/-- User code and other system calls change the memory, signals come and go, a system call is
left, or the innermost handler has returned to the trampoline, which calls `rt_sigreturn`. -/
inductive SigEvent where
  | store (mem : ByteMem)
  | signals (signals : Signals)
  | syscall (ctx : UserCtx) (writable : ℕ → Bool) (scratch : ℕ × ℕ)
  | sigreturn (rip rflags : ℕ) (writable : ℕ → Bool) (scratch : ℕ × ℕ)

namespace SigWorld

/-- The way out of the kernel, with the context that the process has to continue with. -/
def leaving (s : SigWorld) : SigEvent → Option (UserCtx × Leaving)
  | .store _ => none
  | .signals _ => none
  | .syscall ctx writable scratch =>
    some (ctx, (s.proc.enter ctx.rsp).leave writable scratch ctx.rip ctx.rflags ctx.rax)
  | .sigreturn rip rflags writable scratch =>
    s.frames.head?.map (fun f =>
      let (rax, p) := (s.proc.enter (wordAddr f.2 1)).sysRtSigreturn
      (f.1, p.leave writable scratch rip rflags rax))

def outer (s : SigWorld) : SigEvent → List (UserCtx × ℕ)
  | .sigreturn _ _ _ _ => s.frames.tail
  | _ => s.frames

def left (s : SigWorld) (outer : List (UserCtx × ℕ)) (ctx : UserCtx) : Leaving → SigWorld
  | .user regs true proc => { s with proc, frames := (ctx, regs.rsp) :: outer }
  | .user _ false proc => { s with proc, frames := outer }
  | .exited _ => { s with running := false }
  | .faulted => { s with running := false }

def apply (s : SigWorld) : SigEvent → SigWorld
  | .store mem => { s with proc := { s.proc with mem } }
  | .signals signals => { s with proc := { s.proc with signals } }
  | e => ((s.leaving e).map (fun l => s.left (s.outer e) l.1 l.2)).getD s

def Apart (a b : ℕ) : Prop := a + 8 ≤ b ∨ b + 8 ≤ a

/-- Handlers leave the frames alone, and the stack below the pointer of a system call is free. -/
def Allowed (s : SigWorld) : SigEvent → Prop
  | .store mem => ∀ f ∈ s.frames, ∀ i < sigframeSlots,
      mem.read64 (wordAddr f.2 i) = s.proc.mem.read64 (wordAddr f.2 i)
  | .signals _ => True
  | .syscall ctx _ _ => ∀ f ∈ s.frames, ∀ i < sigframeSlots, ∀ j < sigframeSlots,
      Apart (wordAddr f.2 i) (wordAddr (sigframeRsp ctx.rsp) j)
  | .sigreturn _ _ _ _ => s.frames ≠ []

def Step (s : SigWorld) (e : SigEvent) (s' : SigWorld) : Prop :=
  s.running = true ∧ s.Allowed e ∧ s' = s.apply e

/-- A process that is not ended continues with the context that it has to continue with. -/
def Transparent (s : SigWorld) (e : SigEvent) : Prop := ∀ ctx l, s.leaving e = some (ctx, l) →
  (∃ code, l = .exited code) ∨ l.continuation = some ctx.toUserRegs

end SigWorld

inductive SigTurn where
  | nothing
  | fatal
  | handler
  deriving DecidableEq

def Signals.turn (s : Signals) : SigTurn :=
  match s.takePendingSignal with
  | none => .nothing
  | some (signum, handler, _) =>
    if handler = 0 then if (defaultExit signum).isSome then .fatal else .nothing else .handler

def frameWritable (writable : ℕ → Bool) (rsp : ℕ) : Bool :=
  (List.range sigframeSlots).all (fun i => writable (wordAddr (sigframeRsp rsp) i))

/-- A system call with nothing to deliver is left with the user's `rip` and `rflags` in the registers,
one with a handler to enter has room on the stack, and no handler is next when another one has
returned. -/
def SigWorld.Undisturbed (s : SigWorld) : SigEvent → Prop
  | .store _ => True
  | .signals _ => True
  | .syscall ctx writable scratch =>
    (s.proc.signals.turn = .nothing → scratch = (ctx.rip, ctx.rflags)) ∧
      (s.proc.signals.turn = .handler → frameWritable writable ctx.rsp)
  | .sigreturn _ _ _ _ => s.proc.signals.turn ≠ .handler

namespace SigProc

variable {p : SigProc}

inductive Left (p : SigProc) (writable : ℕ → Bool) (scratch : ℕ × ℕ) (rip rflags rax : ℕ) : SigTurn → Leaving → Prop
  | nothing (signals : Signals) : Left p writable scratch rip rflags rax .nothing
      (.user (p.sysret scratch rax).1 false { (p.sysret scratch rax).2 with signals })
  | fatal (code : ℕ) : Left p writable scratch rip rflags rax .fatal (.exited code)
  | handler (signum handler : ℕ) (signals : Signals) (hw : frameWritable writable p.cpu.userRsp = true) :
      Left p writable scratch rip rflags rax .handler
        (.user ⟨handler, 0x0202, sigframeRsp p.cpu.userRsp, rax⟩ true
          ⟨signals, p.mem.writeWords (sigframeRsp p.cpu.userRsp) (sigframe signum rax rip rflags p.cpu.userRsp),
            ⟨sigframeRsp p.cpu.userRsp, 0, sigframeRsp p.cpu.userRsp, 0x0202, signum⟩⟩)
  | faulted (hw : frameWritable writable p.cpu.userRsp = false) :
      Left p writable scratch rip rflags rax .handler .faulted

lemma sysret_signals (signals : Signals) (scratch : ℕ × ℕ) (rax : ℕ) : sysret { p with signals } scratch rax =
    ((p.sysret scratch rax).1, { (p.sysret scratch rax).2 with signals }) := by
  unfold sysret
  split <;> rfl

lemma leave_left (p : SigProc) (writable : ℕ → Bool) (scratch : ℕ × ℕ) (rip rflags rax : ℕ) :
    p.Left writable scratch rip rflags rax p.signals.turn (p.leave writable scratch rip rflags rax) := by
  have hnothing : ∀ signals, p.Left writable scratch rip rflags rax .nothing
      (.user (sysret { p with signals } scratch rax).1 false (sysret { p with signals } scratch rax).2) := by
    intro signals
    rw [sysret_signals]
    exact .nothing signals
  unfold leave maybeDeliverSignal Signals.turn
  cases p.signals.takePendingSignal with
  | none => exact hnothing p.signals
  | some taken =>
    obtain ⟨signum, handler, signals⟩ := taken
    dsimp only
    by_cases hzero : handler = 0
    · rw [if_pos hzero, if_pos hzero]
      cases defaultExit signum with
      | none => exact hnothing signals
      | some code => exact .fatal code
    · rw [if_neg hzero, if_neg hzero]
      cases hw : frameWritable writable p.cpu.userRsp with
      | false =>
        rw [frameWritable] at hw
        rw [hw]
        exact .faulted hw
      | true =>
        have hentered : p.Left writable scratch rip rflags rax .handler _ := .handler signum handler signals hw
        rw [frameWritable] at hw
        rw [hw, if_pos rfl]
        unfold sysret
        dsimp only
        rw [if_pos hzero]
        exact hentered

end SigProc

structure SavedAt (m : ByteMem) (base : ℕ) (regs : UserRegs) : Prop where
  rax : m.read64 (wordAddr base 2) = regs.rax
  rip : m.read64 (wordAddr base 3) = regs.rip
  rflags : m.read64 (wordAddr base 4) = regs.rflags
  rsp : m.read64 (wordAddr base 5) = regs.rsp

lemma SavedAt.congr {m m' : ByteMem} {base : ℕ} {regs : UserRegs} (h : SavedAt m base regs)
    (hm : ∀ i < sigframeSlots, m'.read64 (wordAddr base i) = m.read64 (wordAddr base i)) : SavedAt m' base regs :=
  ⟨(hm 2 (by decide)).trans h.rax, (hm 3 (by decide)).trans h.rip, (hm 4 (by decide)).trans h.rflags,
    (hm 5 (by decide)).trans h.rsp⟩

lemma read64_sigframe (m : ByteMem) {base signum rax rip rflags rsp i : ℕ}
    (hi : i < (SigProc.sigframe signum rax rip rflags rsp).length)
    (hw : (SigProc.sigframe signum rax rip rflags rsp)[i] < 2 ^ 64) :
    (m.writeWords base (SigProc.sigframe signum rax rip rflags rsp)).read64 (wordAddr base i) =
      (SigProc.sigframe signum rax rip rflags rsp)[i] := by
  have hlen : (SigProc.sigframe signum rax rip rflags rsp).length < 2 ^ 32 := by
    change 6 < 2 ^ 32
    decide
  exact ByteMem.read64_writeWords hlen hi hw

lemma savedAt_sigframe (m : ByteMem) (base signum : ℕ) (regs : UserRegs)
    (h : regs.rip < 2 ^ 64 ∧ regs.rflags < 2 ^ 64 ∧ regs.rsp < 2 ^ 64 ∧ regs.rax < 2 ^ 64) :
    SavedAt (m.writeWords base (SigProc.sigframe signum regs.rax regs.rip regs.rflags regs.rsp)) base regs := by
  obtain ⟨hrip, hrflags, hrsp, hrax⟩ := h
  exact ⟨read64_sigframe m (i := 2) (by simp [SigProc.sigframe]) hrax,
    read64_sigframe m (i := 3) (by simp [SigProc.sigframe]) hrip,
    read64_sigframe m (i := 4) (by simp [SigProc.sigframe]) hrflags,
    read64_sigframe m (i := 5) (by simp [SigProc.sigframe]) hrsp⟩

lemma sigframeRsp_lt (rsp : ℕ) : sigframeRsp rsp < 2 ^ 64 := Nat.mod_lt _ (by decide)

lemma wordAddr_sigframeRsp_ne {rsp : ℕ} (h : rsp < 2 ^ 64) : wordAddr (sigframeRsp rsp) 1 ≠ rsp := by
  unfold wordAddr sigframeRsp sigframeSlots
  dsimp only
  omega

lemma SigProc.sysRtSigreturn_saved {p : SigProc} {base : ℕ} {regs : UserRegs}
    (h : SavedAt p.mem base regs) (hbase : base < 2 ^ 64) : (p.enter (wordAddr base 1)).sysRtSigreturn = (regs.rax, { p with
      cpu := ⟨wordAddr base 1, regs.rip, regs.rsp, regs.rflags, p.cpu.signalSignum⟩ }) := by
  have hframe : (wordAddr base 1 + 2 ^ 64 - 8) % 2 ^ 64 = base := by
    unfold wordAddr
    omega
  unfold SigProc.sysRtSigreturn SigProc.enter
  dsimp only
  rw [hframe, h.rax, h.rip, h.rflags, h.rsp]

namespace SigWorld

/-- No override is left over, and every running handler has a frame, below the stack pointer that
it interrupted, with the context to continue with. -/
structure Intact (s : SigWorld) : Prop where
  cleared : s.proc.cpu.signalNewRip = 0
  frames : ∀ f ∈ s.frames, f.2 = sigframeRsp f.1.rsp ∧ SavedAt s.proc.mem f.2 f.1.toUserRegs

variable {s : SigWorld} {ctx : UserCtx} {base : ℕ} {rest : List (UserCtx × ℕ)}

lemma transparent_of_leaving {e : SigEvent} {l : Leaving} (h : s.leaving e = some (ctx, l)) :
    s.Transparent e ↔ (∃ code, l = .exited code) ∨ l.continuation = some ctx.toUserRegs := by
  constructor
  · intro ht
    exact ht ctx l h
  · intro hl ctx' l' h'
    obtain ⟨rfl, rfl⟩ := Prod.mk.inj (Option.mem_unique h h')
    exact hl

lemma continuation_saved {regs saved : UserRegs} {q : SigProc} (hsaved : SavedAt q.mem regs.rsp saved)
    (hrsp : regs.rsp < 2 ^ 64) : Leaving.continuation (.user regs true q) = some saved := by
  change (let r := (q.enter (wordAddr regs.rsp 1)).sysRtSigreturn
    some (⟨r.2.cpu.signalNewRip, r.2.cpu.signalNewRflags, r.2.cpu.signalNewRsp, r.1⟩ : UserRegs)) = _
  rw [SigProc.sysRtSigreturn_saved hsaved hrsp]

def entered (mem : ByteMem) (signals : Signals) (signum rip rflags rsp rax : ℕ) : SigProc :=
  ⟨signals, mem.writeWords (sigframeRsp rsp) (SigProc.sigframe signum rax rip rflags rsp),
    ⟨sigframeRsp rsp, 0, sigframeRsp rsp, 0x0202, signum⟩⟩

section Syscall
variable (writable : ℕ → Bool) (scratch : ℕ × ℕ)

lemma leaving_syscall (s : SigWorld) (ctx : UserCtx) : s.leaving (.syscall ctx writable scratch) =
      some (ctx, (s.proc.enter ctx.rsp).leave writable scratch ctx.rip ctx.rflags ctx.rax) := rfl

lemma Intact.sysret_enter (h : s.Intact) (rsp rax : ℕ) :
    (s.proc.enter rsp).sysret scratch rax = (⟨scratch.1, scratch.2, rsp, rax⟩, s.proc.enter rsp) :=
  if_neg (fun hne => hne h.cleared)

lemma entered_apart (mem : ByteMem) (signals : Signals) (signum rip rflags rsp rax : ℕ) {b : ℕ}
    (h : ∀ j < sigframeSlots, Apart b (wordAddr (sigframeRsp rsp) j)) :
    (entered mem signals signum rip rflags rsp rax).mem.read64 b = mem.read64 b := by
  unfold entered
  dsimp only
  exact ByteMem.read64_writeWords_apart h

lemma entered_saved (mem : ByteMem) (signals : Signals) (signum : ℕ) (ctx : UserCtx) :
    SavedAt (entered mem signals signum ctx.rip ctx.rflags ctx.rsp ctx.rax).mem (sigframeRsp ctx.rsp) ctx.toUserRegs := by
  unfold entered
  dsimp only
  exact savedAt_sigframe mem (sigframeRsp ctx.rsp) signum ctx.toUserRegs ctx.fits

lemma Intact.transparent_syscall (h : s.Intact) (ctx : UserCtx) :
    s.Transparent (.syscall ctx writable scratch) ↔ s.Undisturbed (.syscall ctx writable scratch) := by
  rw [transparent_of_leaving (leaving_syscall writable scratch s ctx)]
  unfold Undisturbed
  have hleft := (s.proc.enter ctx.rsp).leave_left writable scratch ctx.rip ctx.rflags ctx.rax
  change SigProc.Left _ _ _ _ _ _ s.proc.signals.turn _ at hleft
  generalize s.proc.signals.turn = turn, SigProc.leave _ _ _ _ _ _ = l at hleft ⊢
  cases hleft with
  | nothing signals =>
    have hregs : (⟨scratch.1, scratch.2, ctx.rsp, ctx.rax⟩ : UserRegs) = ctx.toUserRegs ↔ scratch = (ctx.rip, ctx.rflags) := by
      rw [UserRegs.mk.injEq, Prod.ext_iff]
      simp
    rw [h.sysret_enter]
    simp [Leaving.continuation, hregs]
  | fatal code => simp
  | faulted hw =>
    have hw' : frameWritable writable ctx.rsp = false := hw
    simp [Leaving.continuation, hw']
  | handler signum handler signals hw =>
    refine iff_of_true (.inr ?_) ⟨nofun, fun _ => hw⟩
    exact continuation_saved (entered_saved s.proc.mem signals signum ctx) (sigframeRsp_lt ctx.rsp)

end Syscall

section Sigreturn
variable (rip rflags : ℕ) (writable : ℕ → Bool) (scratch : ℕ × ℕ)

def restored (p : SigProc) (ctx : UserCtx) (base : ℕ) : SigProc :=
  { p with cpu := ⟨wordAddr base 1, ctx.rip, ctx.rsp, ctx.rflags, p.cpu.signalSignum⟩ }

lemma Intact.leaving_sigreturn (h : s.Intact) (hf : s.frames = (ctx, base) :: rest) :
    s.leaving (.sigreturn rip rflags writable scratch) =
      some (ctx, (restored s.proc ctx base).leave writable scratch rip rflags ctx.rax) := by
  obtain ⟨hbase, hsaved⟩ := h.frames (ctx, base) (by rw [hf]; exact mem_cons_self)
  have hlt : base < 2 ^ 64 := by
    rw [show base = sigframeRsp ctx.rsp from hbase]
    exact sigframeRsp_lt _
  unfold leaving
  rw [hf]
  change some (ctx, SigProc.leave ((s.proc.enter (wordAddr base 1)).sysRtSigreturn.2) writable scratch
    rip rflags (s.proc.enter (wordAddr base 1)).sysRtSigreturn.1) = _
  rw [SigProc.sysRtSigreturn_saved hsaved hlt]
  rfl

lemma sysret_restored (p : SigProc) (ctx : UserCtx) (base : ℕ) : (restored p ctx base).sysret scratch ctx.rax =
    (ctx.toUserRegs, ⟨p.signals, p.mem, ⟨ctx.rsp, 0, ctx.rsp, ctx.rflags, p.cpu.signalSignum⟩⟩) := if_pos ctx.rip_ne

lemma entered_rsp (mem : ByteMem) (signals : Signals) (signum rip rflags rsp rax : ℕ) (h : rsp < 2 ^ 64) :
    (entered mem signals signum rip rflags rsp rax).mem.read64 (wordAddr (sigframeRsp rsp) 5) = rsp := by
  unfold entered
  dsimp only
  exact read64_sigframe mem (i := 5) (by simp [SigProc.sigframe]) h

lemma continuation_rsp {regs saved : UserRegs} {q : SigProc}
    (h : Leaving.continuation (.user regs true q) = some saved) (hrsp : regs.rsp < 2 ^ 64) :
    saved.rsp = q.mem.read64 (wordAddr regs.rsp 5) := by
  have hframe : (wordAddr regs.rsp 1 + 2 ^ 64 - 8) % 2 ^ 64 = regs.rsp := by
    unfold wordAddr
    omega
  unfold Leaving.continuation SigProc.sysRtSigreturn SigProc.enter at h
  dsimp only at h
  rw [hframe] at h
  rw [← Option.some.inj h]

/-- A handler that is entered on the way out of `rt_sigreturn` gets the context of the trampoline in its
frame; the restored context is gone. -/
theorem Intact.transparent_sigreturn (h : s.Intact) (hf : s.frames = (ctx, base) :: rest) :
    s.Transparent (.sigreturn rip rflags writable scratch) ↔ s.Undisturbed (.sigreturn rip rflags writable scratch) := by
  rw [transparent_of_leaving (h.leaving_sigreturn rip rflags writable scratch hf)]
  unfold Undisturbed
  have hbase : base = sigframeRsp ctx.rsp := (h.frames (ctx, base) (by rw [hf]; exact mem_cons_self)).1
  have hleft := (restored s.proc ctx base).leave_left writable scratch rip rflags ctx.rax
  change SigProc.Left _ _ _ _ _ _ s.proc.signals.turn _ at hleft
  generalize s.proc.signals.turn = turn, SigProc.leave _ _ _ _ _ _ = l at hleft ⊢
  cases hleft with
  | nothing signals => simp [Leaving.continuation, sysret_restored]
  | fatal code => simp
  | faulted hw => simp [Leaving.continuation]
  | handler signum handler signals hw =>
    refine iff_of_false ?_ (by simp)
    rintro (⟨code, hc⟩ | hc)
    · cases hc
    · have hrsp := continuation_rsp hc (sigframeRsp_lt (wordAddr base 1))
      have hlt : wordAddr base 1 < 2 ^ 64 := Nat.mod_lt _ (by decide)
      have hsaved := hrsp.trans (entered_rsp s.proc.mem signals signum rip rflags (wordAddr base 1) ctx.rax hlt)
      rw [hbase] at hsaved
      exact wordAddr_sigframeRsp_ne ctx.fits.2.2.1 hsaved.symm

end Sigreturn

lemma Intact.transparent_iff (h : s.Intact) {e : SigEvent} (ha : s.Allowed e) : s.Transparent e ↔ s.Undisturbed e := by
  cases e with
  | store | signals => exact iff_of_true (fun ctx l hl => by cases hl) trivial
  | syscall ctx writable scratch => exact h.transparent_syscall writable scratch ctx
  | sigreturn rip rflags writable scratch =>
    obtain ⟨f, rest, hf⟩ := exists_cons_of_ne_nil ha
    exact h.transparent_sigreturn rip rflags writable scratch hf

lemma Intact.syscall (h : s.Intact) (writable : ℕ → Bool) (scratch : ℕ × ℕ)
    (ha : s.Allowed (.syscall ctx writable scratch)) : (s.apply (.syscall ctx writable scratch)).Intact := by
  change (s.left s.frames ctx
    ((s.proc.enter ctx.rsp).leave writable scratch ctx.rip ctx.rflags ctx.rax)).Intact
  have hleft := (s.proc.enter ctx.rsp).leave_left writable scratch ctx.rip ctx.rflags ctx.rax
  generalize SigProc.leave _ _ _ _ _ _ = l, Signals.turn _ = turn at hleft ⊢
  cases hleft with
  | nothing signals =>
    rw [h.sysret_enter]
    exact ⟨h.cleared, h.frames⟩
  | fatal | faulted => exact ⟨h.cleared, h.frames⟩
  | handler signum handler signals hw =>
    refine ⟨rfl, ?_⟩
    intro f hf
    rcases mem_cons.mp hf with hf | hf
    · subst hf
      exact ⟨rfl, entered_saved s.proc.mem signals signum ctx⟩
    · refine ⟨(h.frames f hf).1, (h.frames f hf).2.congr ?_⟩
      intro i hi
      exact entered_apart _ _ _ _ _ _ _ (ha f hf i hi)

lemma Intact.sigreturn (h : s.Intact) (rip rflags : ℕ) (writable : ℕ → Bool) (scratch : ℕ × ℕ)
    (hf : s.frames = (ctx, base) :: rest) (hc : s.proc.signals.turn ≠ .handler) :
    (s.apply (.sigreturn rip rflags writable scratch)).Intact := by
  have happly : s.apply (.sigreturn rip rflags writable scratch) = s.left rest ctx
      ((restored s.proc ctx base).leave writable scratch rip rflags ctx.rax) := by
    change ((s.leaving (.sigreturn rip rflags writable scratch)).map
      (fun l => s.left s.frames.tail l.1 l.2)).getD s = _
    rw [h.leaving_sigreturn rip rflags writable scratch hf, hf]
    rfl
  have hrest : ∀ f ∈ rest, f.2 = sigframeRsp f.1.rsp ∧ SavedAt s.proc.mem f.2 f.1.toUserRegs :=
    fun f hmem => h.frames f (by rw [hf]; exact mem_cons_of_mem _ hmem)
  rw [happly]
  have hleft := (restored s.proc ctx base).leave_left writable scratch rip rflags ctx.rax
  change SigProc.Left _ _ _ _ _ _ s.proc.signals.turn _ at hleft
  generalize s.proc.signals.turn = turn, SigProc.leave _ _ _ _ _ _ = l at hleft hc ⊢
  cases hleft with
  | nothing signals =>
    rw [sysret_restored]
    exact ⟨rfl, hrest⟩
  | fatal code => exact ⟨h.cleared, h.frames⟩
  | faulted hw | handler signum handler signals hw => exact absurd rfl hc

lemma Intact.step (h : s.Intact) {e : SigEvent} (ha : s.Allowed e) (hc : s.Undisturbed e) : (s.apply e).Intact := by
  cases e with
  | store mem => exact ⟨h.cleared, fun f hf => ⟨(h.frames f hf).1, (h.frames f hf).2.congr (ha f hf)⟩⟩
  | signals signals => exact ⟨h.cleared, h.frames⟩
  | syscall ctx writable scratch => exact h.syscall writable scratch ha
  | sigreturn rip rflags writable scratch =>
    obtain ⟨f, rest, hf⟩ := exists_cons_of_ne_nil ha
    exact h.sigreturn rip rflags writable scratch hf hc

def start (signals : Signals) (mem : ByteMem) (cpu : Percpu) : SigWorld :=
  ⟨⟨signals, mem, { cpu with signalNewRip := 0 }⟩, true, []⟩

/-- In a run, every way out of the kernel leads back to the context that it has to, now or after
the handler that it enters, if and only if every one of them is undisturbed. -/
theorem run_transparent_iff {signals : Signals} {mem : ByteMem} {cpu : Percpu}
    {tr : List (SigWorld × SigEvent)} (hrun : Run Step (start signals mem cpu) tr s) :
    (∀ x ∈ tr, x.1.Transparent x.2) ↔ ∀ x ∈ tr, x.1.Undisturbed x.2 := by
  have hstart : (start signals mem cpu).Intact := ⟨rfl, fun f hf => absurd hf not_mem_nil⟩
  refine hrun.forall_iff_of hstart ?_ ?_
  · intro s e s' hs hc hstep
    rw [hstep.2.2]
    exact hs.step hstep.2.1 hc
  · intro s e s' hs hstep
    exact hs.transparent_iff hstep.2.1

def sample (pending : BitVec 64) : SigWorld :=
  start ⟨pending, 0, fun _ => 0x500000⟩ (fun _ => 0) ⟨0, 0, 0, 0, 0⟩

def sampleCtx : UserCtx := ⟨⟨0x400010, 0x246, 0x7fff0000, 42⟩, by decide, by decide⟩

lemma sample_snoc {pending : BitVec 64} {tr : List (SigWorld × SigEvent)}
    (hrun : Run Step (sample pending) tr s) (e : SigEvent) (hs : s.running = true) (he : s.Allowed e) :
    Run Step (sample pending) (tr ++ [(s, e)]) (s.apply e) := hrun.snoc ⟨hs, he, rfl⟩

def sampleSyscall : SigEvent := .syscall sampleCtx (fun _ => true) (0, 0)

def sampleSigreturn : SigEvent := .sigreturn (vdsoAddr + 7) 0x202 (fun _ => true) (0, 0)

/-- One handler is entered, returns, and the process is back where it was. -/
theorem run_transparent_returned : ∃ tr s, Run Step (sample (1#64 <<< 10)) tr s ∧ tr.length = 2 ∧
    s.frames = [] ∧ ∀ x ∈ tr, x.1.Transparent x.2 := by
  have hstart : Run Step (sample (1#64 <<< 10)) [] (sample (1#64 <<< 10)) := Run.nil
  have hrun := sample_snoc (sample_snoc hstart sampleSyscall rfl (fun f hf => absurd hf not_mem_nil)) sampleSigreturn rfl (cons_ne_nil _ _)
  refine ⟨_, _, hrun, rfl, rfl, (run_transparent_iff hrun).mpr ?_⟩
  simp only [nil_append, cons_append, forall_mem_cons]
  refine ⟨⟨fun h => absurd h (by decide), fun _ => by decide⟩, ?_, fun x hx => absurd hx not_mem_nil⟩
  change Signals.turn _ ≠ .handler
  decide

/-- With signals 10 and 12 pending, the second handler is entered when the first one returns, and
when it is done as well the process continues in the trampoline. -/
theorem second_handler_loses_context : ∃ tr s, Run Step (sample (1#64 <<< 10 ||| 1#64 <<< 12)) tr s ∧
    s.proc.signals.pending = 0 ∧ (s.leaving sampleSigreturn).map (fun l => (l.1.toUserRegs, l.2.continuation)) =
      some (sampleCtx.toUserRegs, some ⟨vdsoAddr + 7, 0x202, sigframeRsp sampleCtx.rsp + 8, 42⟩) := by
  have hstart : Run Step (sample (1#64 <<< 10 ||| 1#64 <<< 12)) []
      (sample (1#64 <<< 10 ||| 1#64 <<< 12)) := Run.nil
  have hrun := sample_snoc (sample_snoc hstart sampleSyscall rfl (fun f hf => absurd hf not_mem_nil)) sampleSigreturn rfl (cons_ne_nil _ _)
  exact ⟨_, _, hrun, by decide +kernel, by decide +kernel⟩

end SigWorld
end NodeKernel
