import Mathlib.Data.List.AList
import NodeKernel.Files.EventFd
import NodeKernel.Lib.OrdMap
import NodeKernel.Process.Signals
import NodeKernel.Security.Limits

/-!
# File descriptors

The descriptor tables of one process and the system calls that hand out descriptors. All
of them take the number from one counter, which `alloc_fd` compares with `RLIMIT_NOFILE`.
-/
namespace NodeKernel

open List Nat

structure EpollInterest where
  events : ℕ
  data : ℕ
  edge : Bool
  lastReady : Bool

structure EpollInstance where
  interests : OrdMap ℤ EpollInterest

structure ConnKey where
  localPort : ℕ
  remoteIp : Fin 4 → UInt8
  remotePort : ℕ

/-- The entries of one process in the global tables, with handles in `η` and nodes in `ν`. -/
structure FdTables (η ν : Type) where
  table : AList (fun _ : ℕ => η)
  paths : AList (fun _ : ℕ => String)
  flags : AList (fun _ : ℕ => ℤ)
  epolls : AList (fun _ : ℕ => EpollInstance)
  dirNodes : AList (fun _ : ℕ => ν)
  socketPorts : AList (fun _ : ℕ => ℕ)
  socketPeername : AList (fun _ : ℕ => (Fin 4 → UInt8) × ℕ)
  nextFd : Option ℕ
  nofile : Rlimit

/-- What the handles and the file system do at the time of a call. -/
structure Vfs (η : Type) where
  cloneBox : η → Option η
  reopen : String → Option η

def oNonblock : ℤ := 0x800

def asI64 (n : ℕ) : ℤ := if n % 2 ^ 64 < 2 ^ 63 then (n % 2 ^ 64 : ℕ) else (n % 2 ^ 64 : ℕ) - 2 ^ 64

def asI32 (n : ℕ) : ℤ := if n % 2 ^ 32 < 2 ^ 31 then (n % 2 ^ 32 : ℕ) else (n % 2 ^ 32 : ℕ) - 2 ^ 32

namespace FdTables

variable {η ν : Type}

def new (nofile : Rlimit) : FdTables η ν := ⟨∅, ∅, ∅, ∅, ∅, ∅, ∅, none, nofile⟩

def next (s : FdTables η ν) : ℕ := s.nextFd.getD 3

def allocFd (s : FdTables η ν) : ℕ × FdTables η ν :=
  let fd := s.next
  if s.nofile.cur < fd ∧ s.nofile.cur ≠ u64Max then (u64Max, s)
  else (fd, { s with nextFd := some ((fd + 1) % 2 ^ 64) })

/-- The calls that make one descriptor: none of them looks at the number before it is used. -/
def create (s : FdTables η ν) (install : ℕ → FdTables η ν → FdTables η ν) : ℤ × FdTables η ν :=
  (asI64 s.allocFd.1, install s.allocFd.1 s.allocFd.2)

/-- `opened` is the error before the descriptor is made, or the handle, and the node of a
directory. -/
def sysOpen (s : FdTables η ν) (path : String) (opened : Except ℤ (η × Option ν)) : ℤ × FdTables η ν :=
  match opened with
  | .error e => (e, s)
  | .ok (handle, dir) => s.create (fun fd s => { s with
      dirNodes := match dir with
        | some node => s.dirNodes.insert fd node
        | none => s.dirNodes
      table := s.table.insert fd handle
      paths := s.paths.insert fd path })

def sysClose (s : FdTables η ν) (fd : ℕ) : ℤ × FdTables η ν :=
  (if fd ∈ s.table then 0 else ebadf,
    { s with
      dirNodes := s.dirNodes.erase fd
      paths := s.paths.erase fd
      epolls := s.epolls.erase fd
      table := s.table.erase fd })

def copyFlags (s : FdTables η ν) (oldfd newfd : ℕ) : AList (fun _ : ℕ => ℤ) :=
  match s.flags.lookup oldfd with
  | some f => s.flags.insert newfd f
  | none => s.flags

def doDup (s : FdTables η ν) (vfs : Vfs η) (oldfd newfd : ℕ) : ℤ × FdTables η ν :=
  if oldfd < 3 then (asI64 newfd, { s with flags := s.flags.erase newfd })
  else
    match (s.table.lookup oldfd).bind vfs.cloneBox with
    | some handle => (asI64 newfd, { s with
        table := s.table.insert newfd handle
        flags := s.copyFlags oldfd newfd })
    | none =>
      match (s.paths.lookup oldfd).bind (fun p => (vfs.reopen p).map (fun fh => (p, fh))) with
      | some (p, fh) => (asI64 newfd, { s with
          table := s.table.insert newfd fh
          paths := s.paths.insert newfd p
          flags := s.copyFlags oldfd newfd })
      | none => (if oldfd ∈ s.table then asI64 newfd else ebadf, s)

def sysDup (s : FdTables η ν) (vfs : Vfs η) (oldfd : ℕ) : ℤ × FdTables η ν :=
  s.allocFd.2.doDup vfs oldfd s.allocFd.1

def sysDup2 (s : FdTables η ν) (vfs : Vfs η) (oldfd newfd : ℕ) : ℤ × FdTables η ν :=
  if oldfd = newfd then (asI64 oldfd, s)
  else
    { s with
      table := s.table.erase newfd
      paths := s.paths.erase newfd
      flags := s.flags.erase newfd : FdTables η ν }.doDup vfs oldfd newfd

def sysFcntl (s : FdTables η ν) (vfs : Vfs η) (fd cmd arg : ℕ) : ℤ × FdTables η ν :=
  match cmd with
  | 1 => (1, s)
  | 2 => (0, s)
  | 3 => ((s.flags.lookup fd).getD 2, s)
  | 4 => (0, { s with flags := s.flags.insert fd (asI32 arg) })
  | 0 => s.sysDup vfs fd
  | _ => (einval, s)

def sysPipe2 (s : FdTables η ν) (fdsPtr : ℕ) (reader writer : η) : ℤ × List ℕ × FdTables η ν :=
  if validateUserPtr fdsPtr 8 then
    let (rfd, s) := s.allocFd
    let (wfd, s) := s.allocFd
    (0, [rfd % 2 ^ 32, wfd % 2 ^ 32],
      { s with table := (s.table.insert rfd reader).insert wfd writer })
  else (efault, [], s)

def sysEpollCreate1 (s : FdTables η ν) : ℤ × FdTables η ν :=
  s.create (fun fd s => { s with epolls := s.epolls.insert fd ⟨OrdMap.empty⟩ })

def sysEventfd2 (s : FdTables η ν) (handle : η) (nonblock : Bool) : ℤ × FdTables η ν :=
  s.create (fun fd s => { s with
    table := s.table.insert fd handle
    flags := if nonblock then s.flags.insert fd oNonblock else s.flags })

def sysSocket (s : FdTables η ν) (domain sockType : ℕ) (handle : η) : ℤ × FdTables η ν :=
  if domain = 2 ∧ sockType % 16 = 1 then s.create (fun fd s => { s with table := s.table.insert fd handle })
  else (enosys, s)

/-- `checked` is what the checks of the address give, `connected` the new handle if there is an answer. -/
def sysConnect (s : FdTables η ν) (sockfd : ℕ) (checked : Except ℤ Unit) (connected : Option (η × ConnKey)) :
    ℤ × FdTables η ν :=
  match checked with
  | .error e => (e, s)
  | .ok () =>
    if sockfd ∈ s.table then
      match connected with
      | none => (-110, s)
      | some (handle, key) => (0, { s with
          table := s.table.insert sockfd handle
          socketPorts := s.socketPorts.insert sockfd key.localPort
          socketPeername := s.socketPeername.insert sockfd (key.remoteIp, key.remotePort) })
    else (ebadf, s)

def sysBind (s : FdTables η ν) (sockfd : ℕ) (port : Except ℤ ℕ) : ℤ × FdTables η ν :=
  match port with
  | .error e => (e, s)
  | .ok port =>
    if sockfd ∈ s.table then (0, { s with socketPorts := s.socketPorts.insert sockfd port })
    else (ebadf, s)

/-- `accepted` tells which connection to a port is ready. -/
def sysAccept (s : FdTables η ν) (sockfd : ℕ) (accepted : ℕ → Option (η × ConnKey)) : ℤ × FdTables η ν :=
  match s.socketPorts.lookup sockfd with
  | none => (einval, s)
  | some port =>
    match accepted port with
    | none => (eagain, s)
    | some (conn, key) => s.create (fun fd s => { s with
        table := s.table.insert fd conn
        socketPorts := s.socketPorts.insert fd key.localPort
        socketPeername := s.socketPeername.insert fd (key.remoteIp, key.remotePort) })

def sysTimerfdCreate (s : FdTables η ν) (handle : η) : ℤ × FdTables η ν :=
  s.create (fun fd s => { s with table := s.table.insert fd handle })

/-- `handle` is the one with the new time, or the error of reading the time. -/
def sysTimerfdSettime (s : FdTables η ν) (fd : ℕ) (handle : Except ℤ η) : ℤ × FdTables η ν :=
  match handle with
  | .error e => (e, s)
  | .ok handle => if fd ∈ s.table then (0, { s with table := s.table.insert fd handle }) else (ebadf, s)

def sysInotifyInit1 (s : FdTables η ν) (handle : η) : ℤ × FdTables η ν :=
  s.create (fun fd s => { s with table := s.table.insert fd handle })

/-- `handle` is the one with the mask, or the error of reading the mask. -/
def sysSignalfd4 (s : FdTables η ν) (fd : ℤ) (handle : Except ℤ η) : ℤ × FdTables η ν :=
  match handle with
  | .error e => (e, s)
  | .ok handle =>
    if fd = -1 then s.create (fun fd s => { s with table := s.table.insert fd handle })
    else
      let key := (fd % 2 ^ 64).toNat
      if key ∈ s.table then (fd, { s with table := s.table.insert key handle }) else (ebadf, s)

def sysSetrlimit (s : FdTables η ν) (newCur newMax : ℕ) : ℤ × FdTables η ν :=
  if newMax > s.nofile.max ∧ s.nofile.max ≠ u64Max then (-1, s)
  else if newCur > newMax then (-1, s)
  else (0, { s with nofile := ⟨newCur, newMax⟩ })

end FdTables

inductive FdCall (η ν : Type) where
  | sysOpen (path : String) (opened : Except ℤ (η × Option ν))
  | sysClose (fd : ℕ)
  | sysDup (vfs : Vfs η) (oldfd : ℕ)
  | sysDup2 (vfs : Vfs η) (oldfd : ℕ) (newfd : Fin (2 ^ 64))
  | sysFcntl (vfs : Vfs η) (fd cmd arg : ℕ)
  | sysPipe2 (fdsPtr : ℕ) (reader writer : η)
  | sysEpollCreate1
  | sysEventfd2 (handle : η) (nonblock : Bool)
  | sysSocket (domain sockType : ℕ) (handle : η)
  | sysConnect (sockfd : ℕ) (checked : Except ℤ Unit) (connected : Option (η × ConnKey))
  | sysBind (sockfd : ℕ) (port : Except ℤ ℕ)
  | sysAccept (sockfd : ℕ) (accepted : ℕ → Option (η × ConnKey))
  | sysTimerfdCreate (handle : η)
  | sysTimerfdSettime (fd : ℕ) (handle : Except ℤ η)
  | sysInotifyInit1 (handle : η)
  | sysSignalfd4 (fd : ℤ) (handle : Except ℤ η)
  | sysSetrlimit (newCur newMax : ℕ)

def descriptor (ret : ℤ) : List ℕ := if 0 ≤ ret then [ret.toNat] else []

namespace FdTables

variable {η ν : Type}

def call (s : FdTables η ν) : FdCall η ν → ℤ × FdTables η ν
  | .sysOpen path opened => s.sysOpen path opened
  | .sysClose fd => s.sysClose fd
  | .sysDup vfs oldfd => s.sysDup vfs oldfd
  | .sysDup2 vfs oldfd newfd => s.sysDup2 vfs oldfd newfd
  | .sysFcntl vfs fd cmd arg => s.sysFcntl vfs fd cmd arg
  | .sysPipe2 fdsPtr reader writer =>
    ((s.sysPipe2 fdsPtr reader writer).1, (s.sysPipe2 fdsPtr reader writer).2.2)
  | .sysEpollCreate1 => s.sysEpollCreate1
  | .sysEventfd2 handle nonblock => s.sysEventfd2 handle nonblock
  | .sysSocket domain sockType handle => s.sysSocket domain sockType handle
  | .sysConnect sockfd checked connected => s.sysConnect sockfd checked connected
  | .sysBind sockfd port => s.sysBind sockfd port
  | .sysAccept sockfd accepted => s.sysAccept sockfd accepted
  | .sysTimerfdCreate handle => s.sysTimerfdCreate handle
  | .sysTimerfdSettime fd handle => s.sysTimerfdSettime fd handle
  | .sysInotifyInit1 handle => s.sysInotifyInit1 handle
  | .sysSignalfd4 fd handle => s.sysSignalfd4 fd handle
  | .sysSetrlimit newCur newMax => s.sysSetrlimit newCur newMax

/-- The three standard descriptors are always valid, the others have an entry. -/
def openFds (s : FdTables η ν) : Finset ℕ :=
  {0, 1, 2} ∪ s.table.keys.toFinset ∪ s.epolls.keys.toFinset

def duplicable (s : FdTables η ν) (vfs : Vfs η) (oldfd : ℕ) : Bool :=
  oldfd < 3 || decide (oldfd ∈ s.table) || ((s.paths.lookup oldfd).bind vfs.reopen).isSome

/-- How many descriptors a call makes if nothing but the limit is in the way. -/
def asks (s : FdTables η ν) : FdCall η ν → ℕ
  | .sysOpen _ opened => if opened.isOk then 1 else 0
  | .sysDup vfs oldfd => if s.duplicable vfs oldfd then 1 else 0
  | .sysFcntl vfs fd cmd _ => if cmd = 0 ∧ s.duplicable vfs fd then 1 else 0
  | .sysPipe2 fdsPtr _ _ => if validateUserPtr fdsPtr 8 then 2 else 0
  | .sysEpollCreate1 => 1
  | .sysEventfd2 _ _ => 1
  | .sysSocket domain sockType _ => if domain = 2 ∧ sockType % 16 = 1 then 1 else 0
  | .sysAccept sockfd accepted => if ((s.socketPorts.lookup sockfd).bind accepted).isSome then 1 else 0
  | .sysTimerfdCreate _ => 1
  | .sysInotifyInit1 _ => 1
  | .sysSignalfd4 fd handle => if handle.isOk ∧ fd = -1 then 1 else 0
  | _ => 0

/-- `dup2` makes a new descriptor unless its target is open, and then replaces it. -/
def fills (s : FdTables η ν) (oldfd newfd : ℕ) : Prop := oldfd ≠ newfd ∧ newfd ∉ s.openFds

instance (s : FdTables η ν) (oldfd newfd : ℕ) : Decidable (s.fills oldfd newfd) :=
  inferInstanceAs (Decidable (_ ∧ _))

def returned (s : FdTables η ν) : FdCall η ν → List ℕ
  | .sysDup2 vfs oldfd newfd =>
    if s.fills oldfd newfd then descriptor (s.sysDup2 vfs oldfd newfd).1 else []
  | .sysPipe2 fdsPtr reader writer =>
    (s.sysPipe2 fdsPtr reader writer).2.1.flatMap (fun w => descriptor (asI32 w))
  | c => if s.asks c = 1 then descriptor (s.call c).1 else []

def Fresh (s : FdTables η ν) (fd : ℕ) : Prop := fd ∉ s.openFds ∧ fd < s.nofile.cur

/-- New descriptors are fresh, a call that asks for some gets them or fails with `EMFILE` and
changes nothing, and it fails if and only if as many as the limit are open. -/
structure Sound (s : FdTables η ν) (c : FdCall η ν) : Prop where
  fresh : ∀ fd ∈ s.returned c, s.Fresh fd
  granted : s.openFds.card < s.nofile.cur → (s.returned c).length ≥ s.asks c
  emfile : s.asks c ≠ 0 →
    ((s.call c).1 = emfile ∧ (s.call c).2 = s ↔ s.nofile.cur ≤ s.openFds.card)

/-- There is room under the limit, and the numbers that the counter is at are fresh. -/
def Roomy (s : FdTables η ν) : FdCall η ν → Prop
  | .sysDup2 vfs oldfd newfd =>
    s.fills oldfd newfd → s.duplicable vfs oldfd → newfd.val < 2 ^ 63 → newfd < s.nofile.cur
  | .sysPipe2 fdsPtr _ _ => validateUserPtr fdsPtr 8 →
      s.openFds.card < s.nofile.cur ∧ (s.next + 1 ≤ s.nofile.cur ∨ s.nofile.cur = u64Max) ∧
        ∀ fd ∈ [s.next % 2 ^ 32, (s.next + 1) % 2 ^ 32], fd < 2 ^ 31 ∧ s.Fresh fd
  | c => s.asks c = 1 →
      s.openFds.card < s.nofile.cur ∧ s.next < 2 ^ 63 ∧ s.Fresh s.next

variable {s : FdTables η ν}

abbrev AtLimit (s : FdTables η ν) : Prop := s.nofile.cur < s.next ∧ s.nofile.cur ≠ u64Max

lemma allocFd_refused (h : s.AtLimit) : s.allocFd = (u64Max, s) := by
  exact if_pos h

lemma allocFd_granted (h : ¬ s.AtLimit) : s.allocFd = (s.next, { s with nextFd := some ((s.next + 1) % 2 ^ 64) }) := by
  exact if_neg h

lemma allocFd_next_lt (h : s.next < 2 ^ 64) : s.allocFd.2.next < 2 ^ 64 := by
  by_cases hr : s.AtLimit
  · rw [allocFd_refused hr]
    exact h
  · rw [allocFd_granted hr]
    exact mod_lt _ (by decide)

lemma descriptor_asI64 {n : ℕ} (h : n < 2 ^ 64) : descriptor (asI64 n) = if n < 2 ^ 63 then [n] else [] := by
  unfold descriptor asI64
  rw [mod_eq_of_lt h]
  by_cases hn : n < 2 ^ 63
  · rw [if_pos hn, if_pos hn, if_pos (Int.natCast_nonneg n), Int.toNat_natCast]
  · rw [if_neg hn, if_neg hn, if_neg (by omega)]

lemma descriptor_asI32 (n : ℕ) : descriptor (asI32 (n % 2 ^ 32)) = if n % 2 ^ 32 < 2 ^ 31 then [n % 2 ^ 32] else [] := by
  unfold descriptor asI32
  rw [mod_mod]
  by_cases hn : n % 2 ^ 32 < 2 ^ 31
  · rw [if_pos hn, if_pos hn, if_pos (Int.natCast_nonneg _), Int.toNat_natCast]
  · rw [if_neg hn, if_neg hn, if_neg (by omega)]

section DoDup
variable (vfs : Vfs η) (oldfd newfd : ℕ)

lemma doDup_nextFd : (s.doDup vfs oldfd newfd).2.nextFd = s.nextFd := by
  unfold doDup
  split
  · rfl
  · split
    · rfl
    · split <;> rfl

lemma doDup_next_lt (h : s.next < 2 ^ 64) : (s.doDup vfs oldfd newfd).2.next < 2 ^ 64 := by
  unfold next at h ⊢
  rwa [doDup_nextFd]

lemma doDup_ret : (s.doDup vfs oldfd newfd).1 = if s.duplicable vfs oldfd then asI64 newfd else ebadf := by
  unfold doDup duplicable
  by_cases hstd : oldfd < 3
  · simp [hstd]
  · cases hlook : s.table.lookup oldfd with
    | none =>
      have hmem : oldfd ∉ s.table := AList.lookup_eq_none.mp hlook
      cases hpath : s.paths.lookup oldfd with
      | none => simp [hstd, hmem]
      | some p => cases hre : vfs.reopen p <;> simp [hstd, hmem, hre]
    | some h =>
      have hmem : oldfd ∈ s.table := AList.lookup_isSome.mp (by rw [hlook]; rfl)
      cases hclone : vfs.cloneBox h with
      | some h' => simp [hstd, hmem, hclone]
      | none =>
        cases hpath : s.paths.lookup oldfd with
        | none => simp [hstd, hmem, hclone]
        | some p => cases hre : vfs.reopen p <;> simp [hstd, hmem, hclone, hre]

end DoDup

/-- A call hands out what `alloc_fd` gives. -/
structure Hands (s : FdTables η ν) (out : ℤ × FdTables η ν) : Prop where
  ret : out.1 = asI64 s.allocFd.1
  nextFd : out.2.nextFd = s.allocFd.2.nextFd

lemma sysDup_hands {vfs : Vfs η} {oldfd : ℕ} (h : s.duplicable vfs oldfd = true) : s.Hands (s.sysDup vfs oldfd) := by
  have hd : s.allocFd.2.duplicable vfs oldfd = true := by
    by_cases hr : s.AtLimit
    · rw [allocFd_refused hr]
      exact h
    · rw [allocFd_granted hr]
      exact h
  refine ⟨?_, doDup_nextFd vfs oldfd _⟩
  unfold sysDup
  rw [doDup_ret, if_pos hd]

variable {c : FdCall η ν}

lemma call_hands (h : s.asks c = 1) : s.Hands (s.call c) := by
  cases c with
  | sysOpen path opened =>
    cases opened with
    | error e => cases h
    | ok o => exact ⟨rfl, rfl⟩
  | sysClose | sysDup2 | sysConnect | sysBind | sysTimerfdSettime | sysSetrlimit => cases h
  | sysDup vfs oldfd =>
    exact sysDup_hands (by simpa [asks] using h)
  | sysFcntl vfs fd cmd arg =>
    obtain ⟨rfl, hd⟩ : cmd = 0 ∧ s.duplicable vfs fd = true := by simpa [asks] using h
    exact sysDup_hands hd
  | sysPipe2 fdsPtr reader writer =>
    simp only [asks] at h
    split at h <;> cases h
  | sysEpollCreate1 | sysEventfd2 | sysTimerfdCreate | sysInotifyInit1 => exact ⟨rfl, rfl⟩
  | sysSocket domain sockType handle =>
    have hd : domain = 2 ∧ sockType % 16 = 1 := by simpa [asks] using h
    change s.Hands (s.sysSocket domain sockType handle)
    unfold sysSocket
    rw [if_pos hd]
    exact ⟨rfl, rfl⟩
  | sysAccept sockfd accepted =>
    change s.Hands (s.sysAccept sockfd accepted)
    unfold sysAccept
    cases hport : s.socketPorts.lookup sockfd with
    | none => simp [asks, hport] at h
    | some port =>
      cases hacc : accepted port with
      | none => simp [asks, hport, hacc] at h
      | some conn =>
        dsimp only
        rw [hacc]
        exact ⟨rfl, rfl⟩
  | sysSignalfd4 fd handle =>
    cases handle with
    | error e => simp [asks, Except.isOk, Except.toBool] at h
    | ok handle =>
      have hfd : fd = -1 := by simpa [asks, Except.isOk, Except.toBool] using h
      subst hfd
      exact ⟨rfl, rfl⟩

lemma Hands.not_emfile {out : ℤ × FdTables η ν} (h : s.Hands out) : ¬ (out.1 = emfile ∧ out.2 = s) := by
  intro hout
  obtain ⟨hret, hsame⟩ := hout
  have hnext := h.nextFd
  rw [h.ret] at hret
  rw [hsame] at hnext
  by_cases hr : s.AtLimit
  · rw [allocFd_refused hr] at hret
    have hmax : asI64 u64Max ≠ emfile := by decide
    exact hmax hret
  · rw [allocFd_granted hr] at hnext
    have hmove : s.next = (s.next + 1) % 2 ^ 64 := by
      change s.nextFd.getD 3 = _
      rw [hnext]
      rfl
    omega

lemma Hands.descriptor {out : ℤ × FdTables η ν} (h : s.Hands out) (hlt : s.next < 2 ^ 64) : descriptor out.1 =
      if s.AtLimit ∨ 2 ^ 63 ≤ s.next then [] else [s.next] := by
  rw [h.ret]
  by_cases hr : s.AtLimit
  · rw [allocFd_refused hr, if_pos (.inl hr)]
    have hmax : NodeKernel.descriptor (asI64 u64Max) = [] := by decide
    exact hmax
  · rw [allocFd_granted hr, descriptor_asI64 hlt]
    by_cases hn : s.next < 2 ^ 63
    · rw [if_pos hn, if_neg (by omega)]
    · rw [if_neg hn, if_pos (.inr (by omega))]

lemma sound_iff_of_asks_one (hlt : s.next < 2 ^ 64) (h : s.asks c = 1) (hret : s.returned c = descriptor (s.call c).1) :
    s.Sound c ↔ s.openFds.card < s.nofile.cur ∧ s.next < 2 ^ 63 ∧ s.Fresh s.next := by
  have hands := call_hands h
  have hdesc := hret.trans (hands.descriptor hlt)
  constructor
  · intro hs
    have hroom : s.openFds.card < s.nofile.cur := by
      by_contra hfull
      exact hands.not_emfile ((hs.emfile (by rw [h]; decide)).mpr (Nat.le_of_not_lt hfull))
    have hlen := hs.granted hroom
    rw [hdesc, h] at hlen
    split at hlen
    · cases hlen
    next hno =>
      have hmem : s.next ∈ s.returned c := by
        rw [hdesc, if_neg hno]
        exact mem_singleton_self _
      exact ⟨hroom, by omega, hs.fresh _ hmem⟩
  · intro hc
    obtain ⟨hroom, hsmall, hfresh⟩ := hc
    have hno : ¬ (s.AtLimit ∨ 2 ^ 63 ≤ s.next) := by
      have := hfresh.2
      omega
    rw [if_neg hno] at hdesc
    refine ⟨?_, ?_, ?_⟩
    · intro fd hfd
      rw [hdesc, mem_singleton] at hfd
      rw [hfd]
      exact hfresh
    · intro _
      rw [hdesc, h]
      rfl
    · intro _
      exact iff_of_false hands.not_emfile (Nat.not_le_of_lt hroom)

lemma sound_of_asks_zero (h : s.asks c = 0) (hret : s.returned c = []) : s.Sound c := by
  refine ⟨?_, ?_, ?_⟩
  · intro fd hfd
    rw [hret] at hfd
    cases hfd
  · intro _
    rw [h]
    exact zero_le _
  · intro hne
    exact absurd h hne

section Pipe2

def word (n : ℕ) : List ℕ := if n % 2 ^ 32 < 2 ^ 31 then [n % 2 ^ 32] else []

variable {fdsPtr : ℕ} {reader writer : η}

lemma returned_pipe2 (hv : validateUserPtr fdsPtr 8 = true) :
    s.returned (.sysPipe2 fdsPtr reader writer) = word s.allocFd.1 ++ word s.allocFd.2.allocFd.1 := by
  change (s.sysPipe2 fdsPtr reader writer).2.1.flatMap (fun w => descriptor (asI32 w)) = _
  unfold sysPipe2
  rw [if_pos hv]
  change descriptor (asI32 _) ++ (descriptor (asI32 _) ++ []) = _
  rw [descriptor_asI32, descriptor_asI32, append_nil]
  rfl

lemma word_length_le (n : ℕ) : (word n).length ≤ 1 := by
  unfold word
  split
  · exact le_refl 1
  · exact zero_le 1

lemma words_length {a b : ℕ} (h : 2 ≤ (word a ++ word b).length) : a % 2 ^ 32 < 2 ^ 31 ∧ b % 2 ^ 32 < 2 ^ 31 := by
  rw [length_append] at h
  unfold word at h
  split at h
  next ha =>
    split at h
    next hb => exact ⟨ha, hb⟩
    · simp at h
  · split at h
    · simp at h
    · simp at h

lemma words_eq {a b : ℕ} (ha : a % 2 ^ 32 < 2 ^ 31) (hb : b % 2 ^ 32 < 2 ^ 31) :
    word a ++ word b = [a % 2 ^ 32, b % 2 ^ 32] := by
  unfold word
  rw [if_pos ha, if_pos hb]
  rfl

lemma word_u64Max : word u64Max = [] := by decide

lemma returned_pipe2_granted (reader writer : η) (hv : validateUserPtr fdsPtr 8 = true) (hlt : s.next < 2 ^ 64)
    (h : s.next + 1 ≤ s.nofile.cur ∨ s.nofile.cur = u64Max) :
    s.returned (.sysPipe2 fdsPtr reader writer) = word s.next ++ word (s.next + 1) := by
  have hfirst : ¬ s.AtLimit := by omega
  rw [returned_pipe2 hv, allocFd_granted hfirst]
  have hsecond : ¬ (s.nofile.cur < (s.next + 1) % 2 ^ 64 ∧ s.nofile.cur ≠ u64Max) := by omega
  rw [allocFd_granted hsecond]
  have hmod : (s.next + 1) % 2 ^ 64 % 2 ^ 32 = (s.next + 1) % 2 ^ 32 := by omega
  change word s.next ++ word ((s.next + 1) % 2 ^ 64) = _
  unfold word
  rw [hmod]

lemma returned_pipe2_refused (reader writer : η) (hv : validateUserPtr fdsPtr 8 = true) (hlt : s.next < 2 ^ 64)
    (h : ¬ (s.next + 1 ≤ s.nofile.cur ∨ s.nofile.cur = u64Max)) : (s.returned (.sysPipe2 fdsPtr reader writer)).length ≤ 1 := by
  rw [returned_pipe2 hv]
  by_cases hfirst : s.AtLimit
  · rw [allocFd_refused hfirst]
    rw [word_u64Max]
    exact word_length_le _
  · rw [allocFd_granted hfirst]
    have hsecond : s.nofile.cur < (s.next + 1) % 2 ^ 64 ∧ s.nofile.cur ≠ u64Max := by
      have hmax : u64Max = 2 ^ 64 - 1 := rfl
      omega
    rw [allocFd_refused hsecond]
    rw [word_u64Max, append_nil]
    exact word_length_le _

lemma sound_pipe2_iff (hlt : s.next < 2 ^ 64) :
    s.Sound (.sysPipe2 fdsPtr reader writer) ↔ s.Roomy (.sysPipe2 fdsPtr reader writer) := by
  cases hv : validateUserPtr fdsPtr 8 with
  | false =>
    have hzero : s.asks (.sysPipe2 fdsPtr reader writer) = 0 := by simp [asks, hv]
    have hret : s.returned (.sysPipe2 fdsPtr reader writer) = [] := by simp [returned, sysPipe2, hv]
    exact iff_of_true (sound_of_asks_zero hzero hret) (by simp [Roomy, hv])
  | true =>
    have htwo : s.asks (.sysPipe2 fdsPtr reader writer) = 2 := by simp [asks, hv]
    have hno : ¬ ((s.call (.sysPipe2 fdsPtr reader writer)).1 = emfile ∧ (s.call (.sysPipe2 fdsPtr reader writer)).2 = s) := by
      intro h
      have hzero : (s.call (.sysPipe2 fdsPtr reader writer)).1 = 0 := by simp [call, sysPipe2, hv]
      rw [hzero] at h
      exact absurd h.1 (by decide)
    constructor
    · intro hs _
      have hroom : s.openFds.card < s.nofile.cur := by
        by_contra hfull
        exact hno ((hs.emfile (by rw [htwo]; decide)).mpr (Nat.le_of_not_lt hfull))
      have hlen := hs.granted hroom
      rw [htwo] at hlen
      have hcount : s.next + 1 ≤ s.nofile.cur ∨ s.nofile.cur = u64Max := by
        by_contra hcount
        have := returned_pipe2_refused reader writer hv hlt hcount
        omega
      have hret := returned_pipe2_granted reader writer hv hlt hcount
      obtain ⟨ha, hb⟩ := words_length (hret ▸ hlen)
      rw [words_eq ha hb] at hret
      refine ⟨hroom, hcount, ?_⟩
      intro fd hfd
      refine ⟨?_, hs.fresh fd (by rw [hret]; exact hfd)⟩
      rw [mem_pair] at hfd
      rcases hfd with rfl | rfl
      · exact ha
      · exact hb
    · intro hr
      obtain ⟨hroom, hcount, hfresh⟩ := hr hv
      have hret := returned_pipe2_granted reader writer hv hlt hcount
      rw [words_eq (hfresh _ mem_cons_self).1
        (hfresh _ (mem_cons_of_mem _ mem_cons_self)).1] at hret
      refine ⟨?_, ?_, ?_⟩
      · intro fd hfd
        rw [hret] at hfd
        exact (hfresh fd hfd).2
      · intro _
        rw [hret, htwo]
        exact le_refl 2
      · intro _
        exact iff_of_false hno (Nat.not_le_of_lt hroom)

end Pipe2

section Dup2
variable {vfs : Vfs η} {oldfd : ℕ} {newfd : Fin (2 ^ 64)}

lemma sysDup2_ret (h : oldfd ≠ newfd) :
    (s.sysDup2 vfs oldfd newfd).1 = if s.duplicable vfs oldfd then asI64 newfd else ebadf := by
  unfold sysDup2
  rw [if_neg h, doDup_ret]
  have hsame : duplicable { s with
      table := s.table.erase newfd
      paths := s.paths.erase newfd
      flags := s.flags.erase newfd } vfs oldfd = s.duplicable vfs oldfd := by
    unfold duplicable
    rw [AList.lookup_erase_ne h]
    have hmem : oldfd ∈ s.table.erase newfd.val ↔ oldfd ∈ s.table := by
      rw [AList.mem_erase]
      exact and_iff_right h
    simp only [hmem]
  rw [hsame]

lemma sound_dup2_iff : s.Sound (.sysDup2 vfs oldfd newfd) ↔ s.Roomy (.sysDup2 vfs oldfd newfd) := by
  have hdesc := descriptor_asI64 newfd.isLt
  have hret : s.returned (.sysDup2 vfs oldfd newfd) =
      if s.fills oldfd newfd ∧ s.duplicable vfs oldfd = true ∧ newfd.val < 2 ^ 63 then [newfd.val] else [] := by
    change (if s.fills oldfd newfd then descriptor (s.sysDup2 vfs oldfd newfd).1 else []) = _
    by_cases hfills : s.fills oldfd newfd
    · rw [if_pos hfills, sysDup2_ret hfills.1]
      cases hd : s.duplicable vfs oldfd with
      | false =>
        rw [if_neg Bool.false_ne_true, if_neg (by simp)]
        rfl
      | true =>
        rw [if_pos rfl, hdesc]
        simp [hfills]
    · rw [if_neg hfills, if_neg (by tauto)]
  constructor
  · intro hs hfills hd hsmall
    have hmem : newfd.val ∈ s.returned (.sysDup2 vfs oldfd newfd) := by
      rw [hret, if_pos ⟨hfills, hd, hsmall⟩]
      exact mem_singleton_self _
    exact (hs.fresh _ hmem).2
  · intro hr
    refine ⟨?_, fun _ => zero_le _, fun h => absurd rfl h⟩
    intro fd hfd
    rw [hret] at hfd
    split at hfd
    next hall =>
      obtain ⟨hfills, hd, hsmall⟩ := hall
      rw [mem_singleton] at hfd
      rw [hfd]
      exact ⟨hfills.2, hr hfills hd hsmall⟩
    · cases hfd

end Dup2

lemma asks_le_one (c : FdCall η ν) (h : ∀ fdsPtr reader writer, c ≠ .sysPipe2 fdsPtr reader writer) : s.asks c ≤ 1 := by
  cases c with
  | sysPipe2 fdsPtr reader writer => exact absurd rfl (h fdsPtr reader writer)
  | _ =>
    unfold asks
    dsimp only
    first
    | exact le_refl 1
    | exact zero_le 1
    | split <;> decide

lemma sound_iff_of_single (hlt : s.next < 2 ^ 64) (hle : s.asks c ≤ 1)
    (hret : s.returned c = if s.asks c = 1 then descriptor (s.call c).1 else []) :
    s.Sound c ↔ (s.asks c = 1 → s.openFds.card < s.nofile.cur ∧ s.next < 2 ^ 63 ∧ s.Fresh s.next) := by
  by_cases hone : s.asks c = 1
  · rw [if_pos hone] at hret
    rw [sound_iff_of_asks_one hlt hone hret]
    exact ⟨fun h _ => h, fun h => h hone⟩
  · rw [if_neg hone] at hret
    exact iff_of_true (sound_of_asks_zero (by omega) hret) (fun h => absurd h hone)

lemma sound_iff (hlt : s.next < 2 ^ 64) (c : FdCall η ν) : s.Sound c ↔ s.Roomy c := by
  cases c with
  | sysDup2 vfs oldfd newfd => exact sound_dup2_iff
  | sysPipe2 fdsPtr reader writer => exact sound_pipe2_iff hlt
  | _ => exact sound_iff_of_single hlt (asks_le_one _ (fun _ _ _ h => by cases h)) rfl

lemma call_next_lt (h : s.next < 2 ^ 64) (c : FdCall η ν) : (s.call c).2.next < 2 ^ 64 := by
  have hone := allocFd_next_lt h
  cases c with
  | sysClose => exact h
  | sysEpollCreate1 | sysEventfd2 | sysTimerfdCreate | sysInotifyInit1 => exact hone
  | sysOpen path opened =>
    cases opened with
    | error e => exact h
    | ok o => exact hone
  | sysPipe2 fdsPtr reader writer =>
    dsimp only [call, sysPipe2]
    split
    · exact allocFd_next_lt hone
    · exact h
  | sysDup vfs oldfd => exact doDup_next_lt vfs oldfd _ hone
  | sysDup2 vfs oldfd newfd =>
    dsimp only [call, sysDup2]
    split
    · exact h
    · exact doDup_next_lt vfs oldfd _ h
  | sysFcntl vfs fd cmd arg =>
    dsimp only [call, sysFcntl]
    split
    case h_5 => exact doDup_next_lt vfs fd _ hone
    all_goals exact h
  | sysSocket domain sockType handle =>
    dsimp only [call, sysSocket]
    split
    · exact hone
    · exact h
  | sysAccept | sysSignalfd4 =>
    dsimp only [call, sysAccept, sysSignalfd4]
    repeat' split
    all_goals first | exact h | exact hone
  | sysConnect | sysBind | sysTimerfdSettime | sysSetrlimit =>
    dsimp only [call, sysConnect, sysBind, sysTimerfdSettime, sysSetrlimit]
    repeat' split
    all_goals exact h

def run (s : FdTables η ν) (calls : List (FdCall η ν)) : FdTables η ν :=
  calls.foldl (fun s c => (s.call c).2) s

lemma run_next_lt (calls : List (FdCall η ν)) (h : s.next < 2 ^ 64) : (s.run calls).next < 2 ^ 64 := by
  induction calls generalizing s with
  | nil => exact h
  | cons c calls ih => exact ih (call_next_lt h c)

/-- After any calls of a process under any limit, the next call hands out descriptors as it should
if and only if there is room. -/
theorem run_sound_iff (nofile : Rlimit) (calls : List (FdCall η ν)) (c : FdCall η ν) :
    ((new nofile).run calls).Sound c ↔ ((new nofile).run calls).Roomy c := by
  have hstart : (new nofile : FdTables η ν).next < 2 ^ 64 := by
    change 3 < 2 ^ 64
    decide
  exact sound_iff (run_next_lt calls hstart) c

def sampleVfs : Vfs ℕ := ⟨some, fun _ => none⟩

def sampleOpen (handle : ℕ) : FdCall ℕ Unit := .sysOpen "/etc/motd" (.ok (handle, none))

/-- `dup2` puts a copy of 3 at 5, and the second `open` after that returns 5 and replaces it. -/
theorem open_returns_open_descriptor :
    let s : FdTables ℕ Unit := (new ⟨u64Max, u64Max⟩).run [sampleOpen 7, .sysDup2 sampleVfs 3 5, sampleOpen 8]
    5 ∈ s.openFds ∧ s.returned (sampleOpen 9) = [5] ∧ (s.call (sampleOpen 9)).2.table.lookup 5 = some 9 := by
  decide

-- With a limit of 4 the fifth descriptor is 4, and the one after it is not refused with EMFILE
-- but put at the end of the table.
example :
    let s : FdTables ℕ Unit := (new ⟨4, 4⟩).run [sampleOpen 7]
    let t := (s.call (sampleOpen 8)).2
    s.openFds.card = 4 ∧ s.returned (sampleOpen 8) = [4] ∧
      (t.call (sampleOpen 9)).1 = -1 ∧ (t.call (sampleOpen 9)).2.table.lookup u64Max = some 9 := by
  decide

end FdTables
end NodeKernel
