import NodeKernel.Files.OwnPipes
import NodeKernel.Security.Namespaces

/-!
# Quarantine

The dispatcher with the file calls behind it, and what the other processes can see of the calls of a process
in quarantine. `is_write_syscall` stops those calls that it knows to write; `rmdir`, `pwrite64` and the `ioctl` that
saves the model of the system are not among them.
-/
namespace NodeKernel

open Option

namespace VfsTree

def sandbox : Path := "sandbox".toList
def quarantine : Path := "quarantine".toList
def varLog : Path := "/var/log".toList
def securityLogName : Path := "security.log".toList
def ai : Path := "/ai".toList
def selfModelName : Path := "self".toList
def selfEccName : Path := "self_ecc".toList

def ensureDir (t : VfsTree) (u : Creator) (parent name : Path) : VfsTree :=
  match t.lookup (parent ++ '/' :: name) with
  | .ok _ => t
  | .error _ =>
    match t.lookup (if parent = [] then ['/'] else parent) with
    | .error _ => t
    | .ok ino => (t.mkdir u ino name).toOption.getD t

def onPromote (t : VfsTree) (u : Creator) (pid : ℕ) (level : IsoLevel) : VfsTree :=
  let name := (toString pid).toList
  let t := (t.ensureDir u [] sandbox).ensureDir u ('/' :: sandbox) name
  if level = .quarantine then (t.ensureDir u [] quarantine).ensureDir u ('/' :: quarantine) name else t

/-- `write_file` of the kernel: a new file where there is none. The bytes themselves stay in the handle. -/
def writeFile (t : VfsTree) (u : Creator) (dir name : Path) : VfsTree :=
  match t.lookup (dir ++ '/' :: name) with
  | .error .notFound =>
    match t.lookup dir with
    | .ok ino => (t.createFile u ino name).toOption.getD t
    | .error _ => t
  | _ => t

def Settled (t : VfsTree) (dir name : Path) : Prop :=
  t.lookup (dir ++ '/' :: name) = .error .notFound → ∀ ino, t.lookup dir = .ok ino → ¬ t.LacksEntry ino name

/-- `append_file` for the security log. -/
def appendLog (t : VfsTree) (u : Creator) : VfsTree := t.writeFile u varLog securityLogName

def LogSettled (t : VfsTree) : Prop := t.Settled varLog securityLogName

def saveSelf (t : VfsTree) (u : Creator) : VfsTree := (t.writeFile u ai selfModelName).writeFile u ai selfEccName

def SelfSettled (t : VfsTree) : Prop := t.Settled ai selfModelName ∧ t.Settled ai selfEccName

end VfsTree

inductive FileOp where
  | read (fd bufPtr len : ℕ)
  | write (fd bufPtr len : ℕ)
  | readv (fd iovPtr iovcnt : ℕ)
  | writev (fd iovPtr iovcnt : ℕ)
  | pread64 (fd buf len off : ℕ)
  | pwrite64 (fd buf len off : ℕ)
  | lseek (fd offset : ℕ)
  | ftruncate (fd length : ℕ)
  | sendfile (outFd inFd count : ℕ)
  | fds (c : FdCall Handle ℕ)
  | ioctl (request : ℕ)
  | mkdir (path : Option Path)
  | rmdir (path : Option Path)
  | unlink (path : Option Path)
  | symlink (target linkpath : Option Path)
  | exit
  | other (nr : ℕ)

def FdCall.nrs : FdCall Handle ℕ → List ℕ
  | .sysOpen _ _ => [2, 85, 257]
  | .sysClose _ => [3]
  | .sysDup _ _ => [32]
  | .sysDup2 _ _ _ => [33, 292]
  | .sysFcntl _ _ _ _ => [72]
  | .sysPipe2 _ _ _ => [22, 293]
  | .sysEpollCreate1 => [291]
  | .sysEventfd2 _ _ => [290]
  | .sysSocket _ _ _ => [41]
  | .sysConnect _ _ _ => [42]
  | .sysBind _ _ => [49]
  | .sysAccept _ _ => [43, 288]
  | .sysTimerfdCreate _ => [283]
  | .sysTimerfdSettime _ _ => [286]
  | .sysInotifyInit1 _ => [294]
  | .sysSignalfd4 _ _ => [289]
  | .sysSetrlimit _ _ => [160]

def fileNrs : List ℕ :=
  [0, 1, 2, 3, 8, 16, 17, 18, 19, 20, 22, 32, 33, 40, 41, 42, 43, 44, 45, 49, nrExit, 72, 76, 77, 83, 84, 85, 87, 88,
    160, nrExitGroup, 257, 258, 263, 283, 286, 288, 289, 290, 291, 292, 293, 294]

/-- The numbers that the dispatcher sends to a handler; `recvfrom` is `read` and `sendto` is `write`. The other calls
change no file, directory or pipe: the handlers of `link` and `rename` always fail. -/
def FileOp.nrs : FileOp → List ℕ
  | .read _ _ _ => [0, 45]
  | .write _ _ _ => [1, 44]
  | .readv _ _ _ => [19]
  | .writev _ _ _ => [20]
  | .pread64 _ _ _ _ => [17]
  | .pwrite64 _ _ _ _ => [18]
  | .lseek _ _ => [8]
  | .ftruncate _ _ => [76, 77]
  | .sendfile _ _ _ => [40]
  | .fds c => c.nrs
  | .ioctl _ => [16]
  | .mkdir _ => [83, 258]
  | .rmdir _ => [84]
  | .unlink _ => [87, 263]
  | .symlink _ _ => [88]
  | .exit => [nrExit, nrExitGroup]
  | .other nr => if nr ∈ fileNrs then [] else [nr]

/-- A call with what the kernel finds on the way: the memory of the process, its own buffer, which is in the upper
half, what devices answer, the user, the score and the policy script, whether the capabilities suffice, whether the
score confines the process now and the confinement stops the call, whether the security log is on and the user may
make its file, whether there is a model of the system and the user may make its files, and whether a signal ends the
process when the call returns. -/
structure FileCall where
  pid : ℕ
  nr : ℕ
  arg0 : ℕ
  op : FileOp
  numbered : nr ∈ op.nrs
  mem : ByteMem
  kernelBuf : {a : ℕ // userEnd ≤ a}
  reply : Reply
  user : Creator
  score : Scoring
  hook : PolicyHook
  capable : Bool
  confines : Bool
  blocked : Bool
  logs : Bool
  saves : Bool
  killed : Bool

/-- The process is confined now, or locks its filter, which is a note for the security log. -/
def FileCall.Notes (c : FileCall) : Prop :=
  c.confines ∨ c.blocked = false ∧ c.nr = nrSeccomp ∧ c.arg0 = seccompAiLock

def FileCall.Logs (c : FileCall) : Prop := c.logs ∧ c.Notes

def conscSleep : ℕ := 0x434F4E04

namespace FileWorld

/-- Of the requests, `CONSC_SLEEP` alone touches files. -/
def sysIoctl (w : FileWorld) (c : FileCall) (request : ℕ) : FileWorld :=
  if request = conscSleep ∧ c.saves then { w with tree := w.tree.saveSelf c.user } else w

def handle (w : FileWorld) (c : FileCall) : Option FileWorld :=
  match c.op with
  | .read fd bufPtr len => (w.sysRead c.reply c.pid fd bufPtr len).map Prod.snd
  | .write fd bufPtr len => (w.sysWrite c.reply c.mem c.pid fd bufPtr len).map Prod.snd
  | .readv fd iovPtr iovcnt => (w.sysReadv c.reply c.mem c.pid fd iovPtr iovcnt).map Prod.snd
  | .writev fd iovPtr iovcnt => (w.sysWritev c.reply c.mem c.pid fd iovPtr iovcnt).map Prod.snd
  | .pread64 fd buf len off => (w.sysPread64 c.reply c.pid fd buf len off).map Prod.snd
  | .pwrite64 fd buf len off => (w.sysPwrite64 c.reply c.mem c.pid fd buf len off).map Prod.snd
  | .lseek fd offset => some (w.sysLseek c.reply c.pid fd offset).2
  | .ftruncate fd length => some (w.sysFtruncate c.pid fd length).2
  | .sendfile outFd inFd count =>
    (w.sysSendfile c.reply c.mem c.kernelBuf c.pid outFd inFd count).map Prod.snd
  | .fds f => some (w.callFds c.pid f).2
  | .ioctl request => some (w.sysIoctl c request)
  | .mkdir path => some (w.sysMkdir c.user path).2
  | .rmdir path => some (w.sysRmdir path).2
  | .unlink path => some (w.sysUnlink path).2
  | .symlink target linkpath => some (w.sysSymlink target linkpath).2
  | .exit => some (w.cleanupPidFds c.pid)
  | .other _ => some w

def log (w : FileWorld) (c : FileCall) : FileWorld :=
  if c.logs then { w with tree := w.tree.appendLog c.user } else w

/-- What the processes other than `p` can see: the files and directories, the drives, and what is in the pipes that
they have handles of. -/
@[ext]
structure Visible where
  nodes : ℕ → Option Node
  disks : Drive → ByteMem
  pipes : ℕ → Option (List UInt8)

open Classical in
noncomputable def visible (p : ℕ) (w : FileWorld) : Visible where
  nodes := w.tree.nodes
  disks := w.disks
  pipes id := if ∃ q, q ≠ p ∧ w.Holds q id then (w.pipes.entries id).map PipeState.buf else none

end FileWorld

structure QuarantineWorld where
  files : FileWorld
  ns : NsTable
  seccomp : SeccompTable

/-- A system call, or anything that the kernel does to files, levels and filters on its own. -/
inductive QuarantineEvent where
  | call (c : FileCall)
  | kernel (tree : VfsTree) (disks : Drive → ByteMem) (ns : NsTable) (seccomp : SeccompTable)

namespace QuarantineWorld

/-- New levels, with the directories for a process that is promoted. The policy script gives a process one and
the same score however often it does, so one promotion stands for all. -/
def setLevels (w : QuarantineWorld) (c : FileCall) (ns : NsTable) : QuarantineWorld :=
  if w.ns.levelOf c.pid < ns.levelOf c.pid then
    { w with ns, files.tree := w.files.tree.onPromote c.user c.pid (ns.levelOf c.pid) }
  else { w with ns }

def enter (w : QuarantineWorld) (c : FileCall) : QuarantineWorld × Bool :=
  let w := w.setLevels c (w.ns.update c.pid c.score)
  let r := w.ns.allowSyscall c.pid c.nr (isWriteSyscall c.nr) c.hook
  (w.setLevels c r.1, r.2 && c.capable)

def confine (w : QuarantineWorld) (c : FileCall) : QuarantineWorld × Bool :=
  let files := if c.confines then w.files.log c else w.files
  if c.blocked then ({ w with files }, false)
  else
    let f := w.seccomp.dispatch ⟨c.pid, c.nr, c.arg0, true⟩
    ({ w with
      files := if c.nr = nrSeccomp ∧ c.arg0 = seccompAiLock then files.log c else files
      seccomp := f.1 }, f.2.isNone)

def handle (w : QuarantineWorld) (c : FileCall) : Option QuarantineWorld :=
  (w.files.handle c).map fun files =>
    { w with files, ns := if c.nr = nrExit ∨ c.nr = nrExitGroup then w.ns.cleanupPid c.pid else w.ns }

def syscallDispatch (w : QuarantineWorld) (c : FileCall) : Option QuarantineWorld :=
  if (w.enter c).2 then
    if ((w.enter c).1.confine c).2 then ((w.enter c).1.confine c).1.handle c
    else some ((w.enter c).1.confine c).1
  else some (w.enter c).1

def exitCurrent (w : QuarantineWorld) (pid : ℕ) : QuarantineWorld :=
  { w with files := w.files.cleanupPidFds pid, ns := w.ns.cleanupPid pid }

def syscall (w : QuarantineWorld) (c : FileCall) : Option QuarantineWorld :=
  (w.syscallDispatch c).map fun w => if c.killed then w.exitCurrent c.pid else w

/-- The handles for a call are those that the kernel makes when it gets to the handler. -/
def Makes (w : QuarantineWorld) (c : FileCall) : Prop :=
  ∀ f, c.op = .fds f → ((w.enter c).1.confine c).1.files.Makes f

def Step (w : QuarantineWorld) : QuarantineEvent → QuarantineWorld → Prop
  | .call c, w' => w.Makes c ∧ w.syscall c = some w'
  | .kernel tree disks ns seccomp, w' => w' = ⟨{ w.files with tree, disks }, ns, seccomp⟩

def start (tree : VfsTree) (disks : Drive → ByteMem) (ns : NsTable) (seccomp : SeccompTable) (nofile : Rlimit) :
    QuarantineWorld :=
  ⟨⟨tree, disks, ⟨fun _ => none, 0⟩, fun _ => .new nofile⟩, ns, seccomp⟩

def Reaches (w : QuarantineWorld) (c : FileCall) : Prop :=
  (w.enter c).2 ∧ c.blocked = false ∧ (w.seccomp.dispatch ⟨c.pid, c.nr, c.arg0, true⟩).2 = none

/-- `rmdir` finds no entry, `pwrite64` no drive that takes other bytes than it has, and `ioctl` no file to make. -/
def HandlerHarmless (w : FileWorld) (c : FileCall) : Prop :=
  match c.op with
  | .rmdir path => ∀ text, path = some text → ∀ parent, w.tree.lookup (splitParent text).1 = .ok parent →
      ¬ w.tree.HasEntry parent (splitParent text).2
  | .pwrite64 fd buf len off => FileWorld.Writes fd buf len → ∀ d, w.handleAt c.pid fd = some (.drive d) →
      (d.seek off).Keeps (w.disks d.drive) c.reply.drive (c.mem.load buf (min len 65536))
  | .ioctl request => request = conscSleep ∧ c.saves → w.tree.SelfSettled
  | _ => True

def Harmless (w : QuarantineWorld) (c : FileCall) : Prop :=
  ((w.enter c).2 → c.Logs → w.files.tree.LogSettled) ∧ (w.Reaches c → HandlerHarmless w.files c)

end QuarantineWorld

namespace VfsTree

variable {t : VfsTree} {u : Creator}

def IsFile (t : VfsTree) (ino : ℕ) : Prop := ∃ data owner, t.nodes ino = some (.file data owner)

lemma IsFile.unlink {t' : VfsTree} {ino parent : ℕ} {name : Path} (h : t.IsFile ino)
    (hu : t.unlink parent name = .ok t') : t'.IsFile ino := by
  obtain ⟨data, owner, hfile⟩ := h
  exact ⟨data, owner, unlink_file hu hfile⟩

lemma IsFile.writeFile {ino : ℕ} (h : t.IsFile ino) (dir name : Path) : (t.writeFile u dir name).IsFile ino := by
  unfold VfsTree.writeFile
  split
  · split
    next parent _ =>
      cases hcreate : t.createFile u parent name with
      | error _ => exact h
      | ok t' =>
        obtain ⟨data, owner, hfile⟩ := h
        exact ⟨data, owner, create_file hcreate hfile⟩
    · exact h
  · exact h

end VfsTree

namespace FileWorld

variable {p : ℕ} {w w' : FileWorld} {c : FileCall}

/-- What a handler can do: change nothing that others see, take away an entry, write at a position, make the files of
the model of the system; or the call is one that the classification knows. -/
inductive Outcome (c : FileCall) (w w' : FileWorld) : Prop
  | quiet (hq : Quiet c.pid w w') (hh : QuarantineWorld.HandlerHarmless w c)
  | removes (path : Option Path) (hop : c.op = .rmdir path) (hw : w' = (w.sysRmdir path).2)
  | positions (fd buf len off : ℕ) (x : ℤ × FileWorld) (hop : c.op = .pwrite64 fd buf len off)
      (hx : w.sysPwrite64 c.reply c.mem c.pid fd buf len off = some x) (hw : w' = x.2)
  | saves (request : ℕ) (hop : c.op = .ioctl request) (hw : w' = w.sysIoctl c request)
  | known (hown : Own c.pid w w') (hnr : isWriteSyscall c.nr = true)

end FileWorld
namespace QuarantineWorld

variable {p : ℕ} {w w' : QuarantineWorld} {c : FileCall}

def oneFile : VfsTree where
  nodes ino :=
    if ino = 1 then some (.dir (fun name => if name = ['a'] then some 2 else none) ⟨0, 0, 0o755⟩)
    else if ino = 2 then some (.file [1] ⟨0, 0, 0o644⟩)
    else none
  nextIno := 3
  mounts := [(['/'], 1)]
  fresh ino h := by
    rw [if_neg (by omega), if_neg (by omega)]

end QuarantineWorld
end NodeKernel
