import NodeKernel.Files.Handles
import NodeKernel.Files.Ramfs

/-!
# Open files

The calls on descriptors and directories, over the handles of files in memory, pipes and block devices. What a
device answers is an input. A call that stops the kernel has no result.
-/
namespace NodeKernel

open Function

structure DriveHandle where
  drive : Drive
  offset : ℕ
  size : ℕ

def toSectors (bytes : List UInt8) : List UInt8 :=
  bytes ++ List.replicate ((bytes.length + 511) / 512 * 512 - bytes.length) 0

namespace DriveHandle

/-- The sectors that the driver gives may begin before the offset; too few of them stop the kernel. -/
def read (h : DriveHandle) (disk : ByteMem) (answers : Bool) (len : ℕ) : Option (Except VfsError (List UInt8) × DriveHandle) :=
  if h.size ≤ h.offset then some (.ok [], h)
  else if !answers then some (.error .io, h)
  else
    let toRead := min len (h.size - h.offset)
    let start := h.offset % 512
    let sectors := ((if h.drive.nvme then toRead else start + toRead) + 511) / 512 % 2 ^ 16
    if sectors * 512 < start then none
    else
      let bytes := disk.load h.offset (min toRead (sectors * 512 - start))
      some (.ok bytes, { h with offset := h.offset + bytes.length })

/-- The write begins at the start of the sector of the offset. The driver counts sectors in 16 bits. -/
def write (h : DriveHandle) (disk : ByteMem) (answers : Bool) (bytes : List UInt8) :
    Except VfsError ℕ × DriveHandle × ByteMem :=
  if (!h.drive.nvme && decide (h.size ≤ h.offset)) || !answers then (.error .io, h, disk)
  else
    let buf := toSectors bytes
    (.ok bytes.length, { h with offset := h.offset + bytes.length },
      disk.store (h.offset / 512 * 512) (buf.take (buf.length / 512 % 2 ^ 16 * 512)))

def seek (h : DriveHandle) (pos : ℕ) : DriveHandle := { h with offset := min pos h.size }

def Keeps (h : DriveHandle) (disk : ByteMem) (answers : Bool) (bytes : List UInt8) : Prop :=
  answers → h.drive.nvme ∨ h.offset < h.size →
    let buf := (toSectors bytes).take ((toSectors bytes).length / 512 % 2 ^ 16 * 512)
    disk.load (h.offset / 512 * 512) buf.length = buf

end DriveHandle

inductive Handle where
  | ram (h : RamFileHandle)
  | pipe (h : PipeHandle)
  | drive (h : DriveHandle)
  | device (clones : Bool)

def Handle.cloneBox : Handle → Option Handle
  | .pipe h => some (.pipe h)
  | .device true => some (.device true)
  | _ => none

/-- What the devices answer during a call: a key from the keyboard, the bytes and the results of a device,
the position that its seek returns, and whether a drive answers. -/
structure Reply where
  key : Bool
  read : Except VfsError (List UInt8)
  write : Except VfsError ℕ
  seek : ℕ
  drive : Bool

structure FileWorld where
  tree : VfsTree
  disks : Drive → ByteMem
  pipes : PipeTable
  procs : ℕ → FdTables Handle ℕ

namespace FileWorld

def handleAt (w : FileWorld) (pid fd : ℕ) : Option Handle := (w.procs pid).table.lookup fd

def setHandle (w : FileWorld) (pid fd : ℕ) (h : Handle) : FileWorld :=
  let s := w.procs pid
  { w with procs := update w.procs pid { s with table := s.table.insert fd h } }

def openPath (w : FileWorld) (path : Path) : Option Handle :=
  match w.tree.lookup path with
  | .error _ => none
  | .ok ino =>
    match w.tree.nodes ino with
    | some (.file data _) => some (.ram ⟨data, 0⟩)
    | some (.drive drive sizeBytes) => some (.drive ⟨drive, 0, sizeBytes⟩)
    | some (.device clones) => some (.device clones)
    | _ => none

def readHandle (w : FileWorld) (r : Reply) (pid fd len : ℕ) : Handle → Option (Except VfsError (List UInt8) × FileWorld)
  | .ram h => (h.read len).map fun x => (.ok x.1, w.setHandle pid fd (.ram x.2))
  | .pipe h => some ((w.pipes.read h len).1, { w with pipes := (w.pipes.read h len).2 })
  | .drive h => (h.read (w.disks h.drive) r.drive len).map fun x => (x.1, w.setHandle pid fd (.drive x.2))
  | .device _ => some (r.read.map (List.take len), w)

def writeHandle (w : FileWorld) (r : Reply) (pid fd : ℕ) (bytes : List UInt8) : Handle → Option (Except VfsError ℕ × FileWorld)
  | .ram h => (h.write bytes).map fun h => (.ok bytes.length, w.setHandle pid fd (.ram h))
  | .pipe h => some ((w.pipes.write h bytes).1, { w with pipes := (w.pipes.write h bytes).2 })
  | .drive h =>
    let x := h.write (w.disks h.drive) r.drive bytes
    some (x.1, { w with disks := update w.disks h.drive x.2.2 }.setHandle pid fd (.drive x.2.1))
  | .device _ => some (r.write, w)

def seekHandle (w : FileWorld) (r : Reply) (pid fd pos : ℕ) : Handle → ℕ × FileWorld
  | .ram h => (pos, w.setHandle pid fd (.ram (h.seek pos)))
  | .pipe _ => (0, w)
  | .drive h => ((h.seek pos).offset, w.setHandle pid fd (.drive (h.seek pos)))
  | .device _ => (r.seek, w)

def isNonblock (w : FileWorld) (pid fd : ℕ) : Bool :=
  ((w.procs pid).flags.lookup fd).getD 0 / oNonblock % 2 ≠ 0

def sysRead (w : FileWorld) (r : Reply) (pid fd bufPtr len : ℕ) : Option (ℤ × FileWorld) :=
  let safeLen := min len 65536
  if len = 0 then some (0, w)
  else if !validateUserPtr bufPtr safeLen then some (efault, w)
  else if fd = 0 then some (if r.key then 1 else 0, w)
  else
    match w.handleAt pid fd with
    | none => some (ebadf, w)
    | some h => (w.readHandle r pid fd safeLen h).map fun x =>
      (match x.1 with
        | .ok bytes => bytes.length
        | .error .wouldBlock => if w.isNonblock pid fd then eagain else 0
        | .error _ => einval, x.2)

def sysWrite (w : FileWorld) (r : Reply) (mem : ByteMem) (pid fd bufPtr len : ℕ) : Option (ℤ × FileWorld) :=
  let safeLen := min len 65536
  if len = 0 then some (0, w)
  else if !validateUserPtr bufPtr safeLen then some (efault, w)
  else if fd = 1 ∨ fd = 2 then some (safeLen, w)
  else
    match w.handleAt pid fd with
    | none => some (ebadf, w)
    | some h => (w.writeHandle r pid fd (mem.load bufPtr safeLen) h).map fun x =>
      (match x.1 with
        | .ok n => n
        | .error _ => einval, x.2)

def sysLseek (w : FileWorld) (r : Reply) (pid fd offset : ℕ) : ℤ × FileWorld :=
  match w.handleAt pid fd with
  | none => (ebadf, w)
  | some h => (asI64 (w.seekHandle r pid fd offset h).1, (w.seekHandle r pid fd offset h).2)

def sysPread64 (w : FileWorld) (r : Reply) (pid fd buf len off : ℕ) : Option (ℤ × FileWorld) :=
  (w.sysLseek r pid fd off).2.sysRead r pid fd buf len

def sysPwrite64 (w : FileWorld) (r : Reply) (mem : ByteMem) (pid fd buf len off : ℕ) : Option (ℤ × FileWorld) :=
  (w.sysLseek r pid fd off).2.sysWrite r mem pid fd buf len

/-- The loop over the entries of an I/O vector; `readv` also ends it after a short read. -/
def vectorLoop (mem : ByteMem) (iovPtr : ℕ) (call : ℕ → ℕ → FileWorld → Option (ℤ × FileWorld)) (endsShort : Bool) :
    List ℕ → ℤ → FileWorld → Option (ℤ × FileWorld)
  | [], total, w => some (total, w)
  | i :: rest, total, w =>
    let iovBase := mem.read64 (iovPtr + i * 16)
    let iovLen := mem.read64 (iovPtr + i * 16 + 8)
    if iovLen = 0 then vectorLoop mem iovPtr call endsShort rest total w
    else (call iovBase iovLen w).bind fun x =>
      if x.1 < 0 then some x
      else if endsShort ∧ x.1 < iovLen then some (total + x.1, x.2)
      else vectorLoop mem iovPtr call endsShort rest (total + x.1) x.2

def sysReadv (w : FileWorld) (r : Reply) (mem : ByteMem) (pid fd iovPtr iovcnt : ℕ) : Option (ℤ × FileWorld) :=
  vectorLoop mem iovPtr (fun base len w => w.sysRead r pid fd base len) true (List.range (min iovcnt 1024)) 0 w

def sysWritev (w : FileWorld) (r : Reply) (mem : ByteMem) (pid fd iovPtr iovcnt : ℕ) : Option (ℤ × FileWorld) :=
  vectorLoop mem iovPtr (fun base len w => w.sysWrite r mem pid fd base len) false (List.range (min iovcnt 1024)) 0 w

/-- The loop of `sendfile`, through the buffer of the kernel at `buf`. A round takes at least one byte, so there
are not more rounds than bytes. -/
def sendLoop (r : Reply) (mem : ByteMem) (buf pid outFd inFd : ℕ) : ℕ → ℕ → ℤ → FileWorld → Option (ℤ × FileWorld)
  | 0, _, total, w => some (total, w)
  | rounds + 1, remaining, total, w =>
    if remaining = 0 then some (total, w)
    else
    match w.handleAt pid inFd with
    | none => some (total, w)
    | some h => (w.readHandle r pid inFd (min remaining 4096) h).bind fun x =>
      match x.1 with
      | .error _ => some (total, x.2)
      | .ok bytes =>
        if bytes = [] then some (total, x.2)
        else (x.2.sysWrite r (mem.store buf bytes) pid outFd buf bytes.length).bind fun y =>
          if y.1 < 0 then some (total, y.2)
          else sendLoop r mem buf pid outFd inFd rounds (remaining - bytes.length) (total + bytes.length) y.2

/-- `buf` is the address of the buffer of the kernel. -/
def sysSendfile (w : FileWorld) (r : Reply) (mem : ByteMem) (buf pid outFd inFd count : ℕ) : Option (ℤ × FileWorld) :=
  sendLoop r mem buf pid outFd inFd count count 0 w

/-- `FileHandle::truncate` does nothing for other handles than those of files in memory. -/
def sysFtruncate (w : FileWorld) (pid fd length : ℕ) : ℤ × FileWorld :=
  match w.handleAt pid fd with
  | none => (ebadf, w)
  | some (.ram h) => (0, w.setHandle pid fd (.ram (h.truncate length)))
  | some _ => (0, w)

def atParent (w : FileWorld) (path : Option Path) (op : ℕ → Path → Except VfsError VfsTree) (failed : ℤ) : ℤ × FileWorld :=
  match path with
  | none => (efault, w)
  | some path =>
    match w.tree.lookup (splitParent path).1 with
    | .error _ => (enoent, w)
    | .ok parent =>
      match op parent (splitParent path).2 with
      | .ok tree => (0, { w with tree })
      | .error _ => (failed, w)

def sysMkdir (w : FileWorld) (u : Creator) (path : Option Path) : ℤ × FileWorld :=
  w.atParent path (w.tree.mkdir u) einval

def sysRmdir (w : FileWorld) (path : Option Path) : ℤ × FileWorld := w.atParent path w.tree.unlink einval

def sysUnlink (w : FileWorld) (path : Option Path) : ℤ × FileWorld := w.atParent path w.tree.unlink enoent

def sysSymlink (w : FileWorld) (target linkpath : Option Path) : ℤ × FileWorld :=
  match target, linkpath with
  | some target, some linkpath =>
    if (splitPath linkpath).2 = [] then (einval, w)
    else
      match w.tree.lookup (splitPath linkpath).1 with
      | .error _ => (enoent, w)
      | .ok dir =>
        match w.tree.createSymlink dir (splitPath linkpath).2 target with
        | .ok tree => (0, { w with tree })
        | .error .alreadyExists => (-17, w)
        | .error _ => (einval, w)
  | _, _ => (efault, w)

def pipesOf (s : FdTables Handle ℕ) : List PipeHandle :=
  s.table.entries.filterMap fun e =>
    match e.2 with
    | .pipe h => some h
    | _ => none

def madePipes : FdCall Handle ℕ → List PipeHandle
  | .sysPipe2 fdsPtr (.pipe reader) (.pipe writer) => if validateUserPtr fdsPtr 8 then [reader, writer] else []
  | _ => []

def clonedPipes (s : FdTables Handle ℕ) (c : FdCall Handle ℕ) : List PipeHandle :=
  let source := match c with
    | .sysDup _ oldfd | .sysFcntl _ oldfd 0 _ => some oldfd
    | .sysDup2 _ oldfd newfd => if oldfd = newfd then none else some oldfd
    | _ => none
  match source.bind (fun fd => if fd < 3 then none else s.table.lookup fd) with
  | some (.pipe h) => [h]
  | _ => []

/-- A call that makes or drops descriptors: a pipe is made, handles are cloned, and those that are in the table no
more are dropped. -/
def callFds (w : FileWorld) (pid : ℕ) (c : FdCall Handle ℕ) : ℤ × FileWorld :=
  let s := w.procs pid
  let s' := (s.call c).2
  let made := madePipes c
  let cloned := clonedPipes s c
  let pipes := if made = [] then w.pipes else w.pipes.pipe2.2.2
  let pipes := cloned.foldl (fun t h => (t.cloneBox h).2) pipes
  let dropped := (pipesOf s ++ made ++ cloned).diff (pipesOf s')
  ((s.call c).1, { w with
    pipes := dropped.foldl PipeTable.dropHandle pipes
    procs := update w.procs pid s' })

/-- The handles that the kernel makes for a call: of nodes that it opens, copies, the ends of the next pipe, and
handles of devices. -/
def Makes (w : FileWorld) : FdCall Handle ℕ → Prop
  | .sysOpen _ opened => ∀ h dir, opened = .ok (h, dir) → ∃ path, w.openPath path = some h
  | .sysDup vfs _ | .sysDup2 vfs _ _ | .sysFcntl vfs _ _ _ =>
    vfs = ⟨Handle.cloneBox, fun path => w.openPath path.toList⟩
  | .sysPipe2 _ reader writer => reader = .pipe w.pipes.pipe2.1 ∧ writer = .pipe w.pipes.pipe2.2.1
  | .sysEventfd2 handle _ | .sysTimerfdCreate handle | .sysInotifyInit1 handle | .sysSocket _ _ handle =>
    ∃ clones, handle = .device clones
  | .sysConnect _ _ connected => ∀ h key, connected = some (h, key) → ∃ clones, h = .device clones
  | .sysAccept _ accepted => ∀ port h key, accepted port = some (h, key) → ∃ clones, h = .device clones
  | .sysTimerfdSettime _ handle | .sysSignalfd4 _ handle => ∀ h, handle = .ok h → ∃ clones, h = .device clones
  | .sysClose _ | .sysEpollCreate1 | .sysBind _ _ | .sysSetrlimit _ _ => True

def cleanupPidFds (w : FileWorld) (pid : ℕ) : FileWorld :=
  { w with
    pipes := (pipesOf (w.procs pid)).foldl PipeTable.dropHandle w.pipes
    procs := update w.procs pid (.new (w.procs pid).nofile) }

end FileWorld
end NodeKernel
