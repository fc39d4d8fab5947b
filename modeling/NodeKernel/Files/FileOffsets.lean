import NodeKernel.Files.OwnPipes
import NodeKernel.Lib.ByteFile
import NodeKernel.Lib.Checked

/-!
# Positions in open files

The calls on a descriptor of a file in memory, next to those of POSIX. `sys_lseek` does not look at its last argument, the
positional calls are a seek and a call at the position, and `truncate` only shortens. A read behind the end stops the
kernel.
-/
namespace NodeKernel

open List ByteFile Nat Option

abbrev FdResult := (ℤ × List UInt8) × RamFileHandle

namespace RamFileHandle

def view (h : RamFileHandle) : ByteFile := ⟨h.data, h.pos⟩

@[simp] lemma view_contents (h : RamFileHandle) : h.view.contents = h.data := rfl

@[simp] lemma view_pos (h : RamFileHandle) : h.view.pos = h.pos := rfl

/-- `sys_read` with a valid buffer. Descriptor 0 is the keyboard, which may have a key. -/
def sysRead (h : RamFileHandle) (fd : ℕ) (key : Option UInt8) (len : ℕ) : Option FdResult :=
  if len = 0 then some ((0, []), h)
  else if fd = 0 then some ((key.toList.length, key.toList), h)
  else (h.read (min len 65536)).map (fun x => ((x.1.length, x.1), x.2))

/-- `sys_write` with a valid buffer. Descriptors 1 and 2 are the log. -/
def sysWrite (h : RamFileHandle) (fd : ℕ) (bytes : List UInt8) : Option FdResult :=
  if bytes = [] then some ((0, []), h)
  else if fd = 1 ∨ fd = 2 then some ((min bytes.length 65536, []), h)
  else (h.write (bytes.take 65536)).map (fun h' => (((bytes.take 65536).length, []), h'))

def sysLseek (h : RamFileHandle) (offset : BitVec 64) (_ : Whence) : FdResult :=
  ((asI64 offset.toNat, []), h.seek offset.toNat)

def sysFtruncate (h : RamFileHandle) (length : BitVec 64) : FdResult := ((0, []), h.truncate length.toNat)

def fdCall (fd : ℕ) (h : RamFileHandle) : PosixCall × Option UInt8 → Option FdResult
  | (.read len, key) => h.sysRead fd key len
  | (.write bytes, _) => h.sysWrite fd bytes
  | (.lseek offset whence, _) => some (h.sysLseek offset whence)
  | (.pread len offset, key) => (h.sysLseek offset .set).2.sysRead fd key len
  | (.pwrite bytes offset, _) => (h.sysLseek offset .set).2.sysWrite fd bytes
  | (.ftruncate length, _) => some (h.sysFtruncate length)

def Conforms (fd : ℕ) (f : ByteFile) : PosixCall × Option UInt8 → Prop
  | (.read len, key) => len = 0 ∨
      if fd = 0 then key = none ∧ f.contents.length ≤ f.pos
      else f.pos ≤ f.contents.length ∧ min len (f.contents.length - f.pos) ≤ 65536
  | (.write bytes, _) => bytes = [] ∨
      fd ≠ 1 ∧ fd ≠ 2 ∧ bytes.length ≤ 65536 ∧ f.pos + bytes.length ≤ kernelHeapSize
  | (.lseek offset whence, _) => offset.toNat < 2 ^ 63 ∧ f.base whence = 0
  | (.pread len offset, key) =>
    if len = 0 then offset.toNat = f.pos
    else if fd = 0 then offset.toNat = f.pos ∧ f.bytesAt offset.toNat len = key.toList
    else offset.toNat ≤ f.contents.length ∧ min len (f.contents.length - offset.toNat) ≤ 65536 ∧
      offset.toNat + min len (f.contents.length - offset.toNat) = f.pos
  | (.pwrite bytes offset, _) =>
    if bytes = [] then offset.toNat = f.pos
    else bytes.length ≤ 65536 ∧
      if fd = 1 ∨ fd = 2 then offset.toNat = f.pos ∧ ByteFile.overwrite f.contents offset.toNat bytes = f.contents
      else offset.toNat + bytes.length = f.pos ∧ f.pos ≤ kernelHeapSize
  | (.ftruncate length, _) => length.toNat ≤ f.contents.length ∧ f.pos ≤ length.toNat

variable {fd : ℕ} {h : RamFileHandle} {key : Option UInt8} {bytes : List UInt8} {len : ℕ} {offset length : BitVec 64}

lemma asI64_toNat (x : BitVec 64) : asI64 x.toNat = x.toInt := by
  have hlt := x.isLt
  unfold asI64
  rw [mod_eq_of_lt hlt]
  obtain ⟨hx, he⟩ | ⟨hx, he⟩ := toInt_cases x
  · rw [if_pos hx, he]
  · rw [if_neg (by omega), he]

lemma write_eq (h : RamFileHandle) (bytes : List UInt8) : h.write bytes =
    if h.pos + bytes.length ≤ kernelHeapSize then some ⟨ByteFile.overwrite h.data h.pos bytes, h.pos + bytes.length⟩
    else none := by
  have htake : (h.data ++ replicate (h.pos + bytes.length - h.data.length) 0).take h.pos =
      h.data.take h.pos ++ replicate (h.pos - h.data.length) 0 := by
    rw [take_append, take_replicate]
    congr 2
    omega
  have hdrop : (h.data ++ replicate (h.pos + bytes.length - h.data.length) 0).drop (h.pos + bytes.length) =
      h.data.drop (h.pos + bytes.length) := by
    rw [drop_append, drop_replicate, Nat.sub_self, replicate_zero, append_nil]
  rw [write]
  by_cases hheap : h.pos + bytes.length ≤ kernelHeapSize
  · rw [if_pos hheap, if_neg (by omega)]
    simp only [htake, hdrop, overwrite, append_assoc]
  · rw [if_neg hheap, if_pos (by omega)]

lemma sysRead_nonneg {x : FdResult} (hx : h.sysRead fd key len = some x) : 0 ≤ x.1.1 := by
  rw [sysRead] at hx
  split_ifs at hx
  · obtain rfl := Option.some.inj hx
    exact le_rfl
  · obtain rfl := Option.some.inj hx
    exact Int.natCast_nonneg _
  · obtain ⟨y, -, rfl⟩ := map_eq_some_iff.mp hx
    exact Int.natCast_nonneg _

lemma sysWrite_nonneg {x : FdResult} (hx : h.sysWrite fd bytes = some x) : 0 ≤ x.1.1 := by
  rw [sysWrite] at hx
  split_ifs at hx
  · obtain rfl := Option.some.inj hx
    exact le_rfl
  · obtain rfl := Option.some.inj hx
    exact le_min (Int.natCast_nonneg _) (by decide)
  · obtain ⟨y, -, rfl⟩ := map_eq_some_iff.mp hx
    exact Int.natCast_nonneg _

lemma sysRead_iff (hlen : len ≠ 0) {pos : ℕ} : (h.sysRead fd key len).map (Prod.map id view) =
    some ((((h.view.bytesAt h.pos len).length : ℤ), h.view.bytesAt h.pos len), (⟨h.data, pos⟩ : ByteFile)) ↔
      if fd = 0 then h.pos = pos ∧ h.view.bytesAt h.pos len = key.toList
      else h.pos ≤ h.data.length ∧ min len (h.data.length - h.pos) ≤ 65536 ∧ h.pos + min len (h.data.length - h.pos) = pos := by
  rw [sysRead, if_neg hlen]
  split_ifs with hfd
  · simp only [map_some, Prod.map_apply, id_eq, Option.some.injEq, Prod.mk.injEq, view, ByteFile.mk.injEq, true_and]
    constructor
    · rintro ⟨⟨-, hb⟩, hp⟩
      exact ⟨hp, hb.symm⟩
    · rintro ⟨hp, hb⟩
      rw [hb]
      exact ⟨⟨rfl, rfl⟩, hp⟩
  · rw [read]
    split_ifs with hend
    · exact iff_of_false nofun (fun hc => not_lt.mpr hc.1 hend)
    · have heq : (h.data.drop h.pos).take (min len 65536) = h.view.bytesAt h.pos len ↔
          min len (h.data.length - h.pos) ≤ 65536 := by
        rw [bytesAt, view, take_eq_take_iff, length_drop]
        omega
      have hcount : (h.view.bytesAt h.pos len).length = min len (h.data.length - h.pos) := bytesAt_length
      rw [← heq, ← hcount]
      simp only [map_some, Prod.map_apply, id_eq, Option.some.injEq, Prod.mk.injEq]
      constructor
      · rintro ⟨⟨-, hb⟩, hp⟩
        refine ⟨by omega, hb, ?_⟩
        rw [hb] at hp
        exact congrArg ByteFile.pos hp
      · rintro ⟨-, hb, hp⟩
        rw [hb, ← hp]
        exact ⟨⟨rfl, rfl⟩, rfl⟩

lemma sysWrite_iff (hbytes : bytes ≠ []) {f : ByteFile} : (h.sysWrite fd bytes).map (Prod.map id view) =
    some (((bytes.length : ℤ), []), f) ↔ bytes.length ≤ 65536 ∧
      if fd = 1 ∨ fd = 2 then h.view = f
      else h.pos + bytes.length ≤ kernelHeapSize ∧ ⟨ByteFile.overwrite h.data h.pos bytes, h.pos + bytes.length⟩ = f := by
  rw [sysWrite, if_neg hbytes]
  split_ifs with hfd
  · simp only [map_some, Prod.map_apply, id_eq, Option.some.injEq, Prod.mk.injEq, and_true]
    exact and_congr_left' (by omega)
  · by_cases hall : bytes.length ≤ 65536
    · rw [take_of_length_le hall, write_eq]
      split_ifs with hheap
      · simp only [map_some, Prod.map_apply, id_eq, Option.some.injEq, Prod.mk.injEq, true_and, hall, hheap, view]
      · exact iff_of_false nofun (fun hc => hheap hc.2.1)
    · refine iff_of_false (fun hc => hall ?_) (fun hc => hall hc.1)
      obtain ⟨x, hx, he⟩ := map_eq_some_iff.mp hc
      obtain ⟨h', -, rfl⟩ := map_eq_some_iff.mp hx
      have hlen : ((bytes.take 65536).length : ℤ) = bytes.length := congrArg (fun y => y.1.1) he
      rw [length_take] at hlen
      omega

lemma lseek_iff (hpos : h.pos < 2 ^ 63) {whence : Whence} :
    Prod.map id view (h.sysLseek offset whence) = h.view.call (.lseek offset whence) ↔
      offset.toNat < 2 ^ 63 ∧ h.view.base whence = 0 := by
  have hsys : Prod.map id view (h.sysLseek offset whence) = ((offset.toInt, []), ⟨h.data, offset.toNat⟩) := by
    rw [← asI64_toNat]
    rfl
  have hcases := toInt_cases offset
  rw [hsys, call]
  split_ifs with hneg hbig
  · refine iff_of_false (fun he => ?_) (fun hc => ?_)
    · have hp : offset.toNat = h.pos := congrArg (fun x => x.2.pos) he
      omega
    · omega
  · refine iff_of_false (fun he => ?_) (fun hc => ?_)
    · have hp : offset.toNat = h.pos := congrArg (fun x => x.2.pos) he
      have hv : offset.toInt = ByteFile.overflow := congrArg (fun x => x.1.1) he
      rw [ByteFile.overflow] at hv
      omega
    · omega
  · simp only [Prod.mk.injEq, and_true, ByteFile.mk.injEq]
    constructor
    · rintro ⟨hv, -⟩
      omega
    · rintro ⟨hlt, hbase⟩
      exact ⟨by omega, rfl, by omega⟩

lemma truncate_iff (hsize : h.data.length < 2 ^ 63) :
    Prod.map id view (h.sysFtruncate length) = h.view.call (.ftruncate length) ↔
      length.toNat ≤ h.data.length ∧ h.pos ≤ length.toNat := by
  have hsys : Prod.map id view (h.sysFtruncate length) =
      ((0, []), ⟨h.data.take length.toNat, min h.pos (h.data.take length.toNat).length⟩) := rfl
  have hcases := toInt_cases length
  rw [hsys, call]
  split_ifs with hneg
  · refine iff_of_false (fun he => ?_) (fun hc => by omega)
    have hv : 0 = ByteFile.invalid := congrArg (fun x => x.1.1) he
    cases hv
  · simp only [Prod.mk.injEq, true_and, ByteFile.mk.injEq]
    change h.data.take length.toNat = ByteFile.resize h.data length.toNat ∧ _ = h.pos ↔ _
    constructor
    · rintro ⟨hdata, hpos⟩
      have hlen := congrArg List.length hdata
      rw [resize_length, length_take] at hlen
      rw [length_take] at hpos
      omega
    · rintro ⟨hle, hp⟩
      rw [resize, Nat.sub_eq_zero_of_le hle, replicate_zero, append_nil, length_take]
      exact ⟨rfl, by omega⟩

lemma read_iff : (h.sysRead fd key len).map (Prod.map id view) = some (h.view.call (.read len)) ↔
    Conforms fd h.view (.read len, key) := by
  have hcount : (h.view.bytesAt h.pos len).length = min len (h.data.length - h.pos) := bytesAt_length
  by_cases hlen : len = 0
  · subst hlen
    refine iff_of_true ?_ (.inl rfl)
    simp [sysRead, call, bytesAt, view]
  · refine (sysRead_iff hlen).trans ?_
    rw [Conforms, or_iff_right hlen]
    simp only [view_pos, view_contents, hcount]
    split_ifs with hfd
    · -- the position stays, so no byte may be there
      constructor
      · rintro ⟨hp, hb⟩
        have hend : h.data.length ≤ h.pos := by omega
        rw [eq_nil_of_length_eq_zero (by omega : (h.view.bytesAt h.pos len).length = 0)] at hb
        exact ⟨toList_eq_nil_iff.mp hb.symm, hend⟩
      · rintro ⟨rfl, hend⟩
        exact ⟨by omega, eq_nil_of_length_eq_zero (by omega)⟩
    · exact and_congr_right' (and_iff_left trivial)

lemma write_iff : (h.sysWrite fd bytes).map (Prod.map id view) = some (h.view.call (.write bytes)) ↔
    Conforms fd h.view (.write bytes, key) := by
  by_cases hb : bytes = []
  · subst hb
    exact iff_of_true rfl (.inl rfl)
  · have hlen : bytes.length ≠ 0 := fun h0 => hb (eq_nil_of_length_eq_zero h0)
    rw [call, if_neg hb, Conforms, or_iff_right hb]
    split_ifs with hbig
    · have hheap : kernelHeapSize < 2 ^ 63 := by decide
      refine iff_of_false (fun he => ?_) (fun hc => by omega)
      obtain ⟨x, hx, hv⟩ := map_eq_some_iff.mp he
      have hneg : x.1.1 = tooBig := congrArg (fun y => y.1.1) hv
      exact absurd (sysWrite_nonneg hx) (by rw [hneg]; decide)
    · refine (sysWrite_iff hb).trans ?_
      split_ifs with hfd
      · refine iff_of_false (fun hc => ?_) (fun hc => by omega)
        have hp : h.pos = h.pos + bytes.length := congrArg ByteFile.pos hc.2
        omega
      · constructor
        · rintro ⟨hall, hheap, -⟩
          exact ⟨fun h1 => hfd (.inl h1), fun h2 => hfd (.inr h2), hall, hheap⟩
        · rintro ⟨-, -, hall, hheap⟩
          exact ⟨hall, hheap, rfl⟩

lemma pread_iff (hsize : h.data.length < 2 ^ 63) (hpos : h.pos < 2 ^ 63) :
    ((h.sysLseek offset .set).2.sysRead fd key len).map (Prod.map id view) = some (h.view.call (.pread len offset)) ↔
      Conforms fd h.view (.pread len offset, key) := by
  have hcases := toInt_cases offset
  have hseek : (h.sysLseek offset .set).2 = ⟨h.data, offset.toNat⟩ := rfl
  rw [hseek, call, Conforms]
  simp only [view_pos, view_contents]
  by_cases hneg : offset.toInt < 0
  · rw [if_pos hneg]
    refine iff_of_false (fun he => ?_) (fun hc => ?_)
    · obtain ⟨x, hx, hv⟩ := map_eq_some_iff.mp he
      have hinvalid : x.1.1 = invalid := congrArg (fun y => y.1.1) hv
      exact absurd (sysRead_nonneg hx) (by rw [hinvalid]; decide)
    · split_ifs at hc <;> omega
  · rw [if_neg hneg]
    by_cases hlen : len = 0
    · subst hlen
      simp [sysRead, bytesAt, view]
    · rw [if_neg hlen]
      exact sysRead_iff hlen

lemma pwrite_iff (hsize : h.data.length < 2 ^ 63) (hpos : h.pos < 2 ^ 63) :
    ((h.sysLseek offset .set).2.sysWrite fd bytes).map (Prod.map id view) = some (h.view.call (.pwrite bytes offset)) ↔
      Conforms fd h.view (.pwrite bytes offset, key) := by
  have hcases := toInt_cases offset
  have hseek : (h.sysLseek offset .set).2 = ⟨h.data, offset.toNat⟩ := rfl
  have hover : (ByteFile.overwrite h.data offset.toNat bytes).length = max h.data.length (offset.toNat + bytes.length) :=
    overwrite_length
  have herror : ∀ {v : ℤ} {f : ByteFile}, v < 0 →
      ¬ ((⟨h.data, offset.toNat⟩ : RamFileHandle).sysWrite fd bytes).map (Prod.map id view) = some ((v, []), f) := by
    intro v f hv he
    obtain ⟨x, hx, hxv⟩ := map_eq_some_iff.mp he
    have hvalue : x.1.1 = v := congrArg (fun y => y.1.1) hxv
    exact absurd (sysWrite_nonneg hx) (by omega)
  rw [hseek, ByteFile.call, Conforms]
  simp only [view_pos, view_contents]
  by_cases hneg : offset.toInt < 0
  · rw [if_pos hneg]
    refine iff_of_false (herror (by decide)) (fun hc => ?_)
    split_ifs at hc <;> omega
  · rw [if_neg hneg]
    by_cases hb : bytes = []
    · subst hb
      simp [sysWrite, view]
    · rw [if_neg hb, if_neg hb]
      by_cases hbig : 2 ^ 63 ≤ offset.toNat + bytes.length
      · rw [if_pos hbig]
        refine iff_of_false (herror (by decide)) (fun hc => ?_)
        split_ifs at hc
        · rw [hc.2.2] at hover
          omega
        · omega
      · rw [if_neg hbig]
        refine (sysWrite_iff hb).trans (and_congr_right' ?_)
        split_ifs with hfd
        · simp only [view, ByteFile.mk.injEq]
          rw [and_comm, eq_comm (a := h.data)]
        · simp only [ByteFile.mk.injEq, true_and]
          constructor
          · rintro ⟨hheap, hp⟩
            exact ⟨hp, hp ▸ hheap⟩
          · rintro ⟨hp, hheap⟩
            exact ⟨hp ▸ hheap, hp⟩

lemma fdCall_iff (h : RamFileHandle) (e : PosixCall × Option UInt8) (hf : h.view.Fits) :
    (h.fdCall fd e).map (Prod.map id view) = some (h.view.call e.1) ↔ Conforms fd h.view e := by
  obtain ⟨c, key⟩ := e
  cases c with
  | read len => exact read_iff
  | write bytes => exact write_iff
  | lseek offset whence => exact (some_inj).trans (lseek_iff hf.pos)
  | pread len offset => exact pread_iff hf.size hf.pos
  | pwrite bytes offset => exact pwrite_iff hf.size hf.pos
  | ftruncate length => exact (some_inj).trans (truncate_iff hf.size)

/-- The calls on a descriptor that was opened are those of POSIX, in results, contents and position, exactly as long as
each of them is under the condition. -/
theorem follows_posix_iff (fd : ℕ) (data : ByteSlice) (calls : List (PosixCall × Option UInt8)) :
    Follows (fdCall fd) (fun f e => f.call e.1) view ⟨data.1, 0⟩ calls ↔
      ∀ x ∈ traceOf (fun f e => (ByteFile.call f e.1).2) ⟨data.1, 0⟩ calls, Conforms fd x.1 x.2 :=
  follows_iff (I := ByteFile.Fits) (fun _ e hf => hf.call e.1) (fun h e hf => h.fdCall_iff e hf) ⟨data.2, Nat.two_pow_pos 63⟩ calls

/-- A read behind the end stops the kernel. A read at an offset moves the position, a seek from the position does not
start there, and no file is extended. -/
theorem posix_is_not_followed :
    (((⟨[1, 2], 0⟩ : RamFileHandle).fdCall 3 (.lseek 5 .set, none)).bind (fun x => x.2.fdCall 3 (.read 1, none)) = none ∧
      (ByteFile.call ⟨[1, 2], 5⟩ (.read 1)).1 = (0, [])) ∧
    (((⟨[1, 2], 0⟩ : RamFileHandle).fdCall 3 (.pread 1 0, none)).map (fun x => x.2.pos) = some 1 ∧
      (ByteFile.call ⟨[1, 2], 0⟩ (.pread 1 0)).2.pos = 0) ∧
    (((⟨[1, 2], 2⟩ : RamFileHandle).fdCall 3 (.lseek 0 .cur, none)).map (fun x => x.1.1) = some 0 ∧
      (ByteFile.call ⟨[1, 2], 2⟩ (.lseek 0 .cur)).1.1 = 2) ∧
    ((⟨[1, 2], 0⟩ : RamFileHandle).fdCall 3 (.ftruncate 3, none)).map (fun x => x.2.data) = some [1, 2] ∧
      (ByteFile.call ⟨[1, 2], 0⟩ (.ftruncate 3)).2.contents = [1, 2, 0] := by
  decide

end RamFileHandle

namespace FileWorld

variable {w : FileWorld} {r : Reply} {mem : ByteMem} {pid fd buf : ℕ} {h : RamFileHandle} {key : Option UInt8}

/-- The calls of the table of descriptors, with the buffer at `buf`. -/
def offsetCall (w : FileWorld) (r : Reply) (mem : ByteMem) (pid fd buf : ℕ) : PosixCall → Option (ℤ × FileWorld)
  | .read len => w.sysRead r pid fd buf len
  | .write bytes => w.sysWrite r (mem.store buf bytes) pid fd buf bytes.length
  | .lseek offset _ => some (w.sysLseek r pid fd offset.toNat)
  | .pread len offset => w.sysPread64 r pid fd buf len offset.toNat
  | .pwrite bytes offset => w.sysPwrite64 r (mem.store buf bytes) pid fd buf bytes.length offset.toNat
  | .ftruncate length => some (w.sysFtruncate pid fd length.toNat)

def BufferValid (buf : ℕ) : PosixCall → Prop
  | .read len | .pread len _ => validateUserPtr buf (min len 65536)
  | .write bytes | .pwrite bytes _ => validateUserPtr buf (min bytes.length 65536)
  | .lseek _ _ | .ftruncate _ => True

variable (hat : w.handleAt pid fd = some (.ram h))
include hat

lemma sysRead_ram (hkey : r.key = key.isSome) {len : ℕ}
    (hbuf : validateUserPtr buf (min len 65536)) : (w.sysRead r pid fd buf len).map (fun x => (x.1, x.2.handleAt pid fd)) =
      (h.sysRead fd key len).map (fun x => (x.1.1, some (.ram x.2))) := by
  rw [sysRead, RamFileHandle.sysRead]
  by_cases hlen : len = 0
  · rw [if_pos hlen, if_pos hlen, map_some, map_some, hat]
  · rw [if_neg hlen, if_neg hlen, hbuf, Bool.not_true, if_neg Bool.false_ne_true]
    by_cases hfd : fd = 0
    · rw [if_pos hfd, if_pos hfd, map_some, map_some, hat, hkey]
      cases key with
      | none => rfl
      | some b => rfl
    · rw [if_neg hfd, if_neg hfd, hat]
      simp only [readHandle, Option.map_map]
      cases h.read (min len 65536) with
      | none => rfl
      | some x => simp [handleAt_setHandle]

lemma sysWrite_ram {bytes : List UInt8} (hbuf : validateUserPtr buf (min bytes.length 65536)) :
    (w.sysWrite r (mem.store buf bytes) pid fd buf bytes.length).map (fun x => (x.1, x.2.handleAt pid fd)) =
      (h.sysWrite fd bytes).map (fun x => (x.1.1, some (.ram x.2))) := by
  have hload : (mem.store buf bytes).load buf (min bytes.length 65536) = bytes.take 65536 := by
    rw [min_comm, ← ByteMem.load_take, ByteMem.load_store_self]
  rw [sysWrite, RamFileHandle.sysWrite]
  by_cases hb : bytes = []
  · rw [if_pos (length_eq_zero_iff.mpr hb), if_pos hb, map_some, map_some, hat]
  · rw [if_neg (fun h0 => hb (length_eq_zero_iff.mp h0)), if_neg hb, hbuf, Bool.not_true, if_neg Bool.false_ne_true]
    by_cases hfd : fd = 1 ∨ fd = 2
    · rw [if_pos hfd, if_pos hfd, map_some, map_some, hat]
      simp
    · rw [if_neg hfd, if_neg hfd, hat]
      simp only [writeHandle, Option.map_map, hload]
      cases h.write (bytes.take 65536) with
      | none => rfl
      | some x => simp [handleAt_setHandle]

lemma sysLseek_ram (offset : BitVec 64) (whence : Whence) :
    (w.sysLseek r pid fd offset.toNat).1 = (h.sysLseek offset whence).1.1 ∧
      (w.sysLseek r pid fd offset.toNat).2.handleAt pid fd = some (.ram (h.sysLseek offset whence).2) := by
  rw [sysLseek, hat]
  exact ⟨rfl, handleAt_setHandle _ _ _ _⟩

/-- On a descriptor of a file in memory, the calls of the kernel are those above. -/
theorem offsetCall_ram (hkey : r.key = key.isSome) (c : PosixCall)
    (hbuf : BufferValid buf c) : (w.offsetCall r mem pid fd buf c).map (fun x => (x.1, x.2.handleAt pid fd)) =
      (h.fdCall fd (c, key)).map (fun x => (x.1.1, some (.ram x.2))) := by
  cases c with
  | read len => exact sysRead_ram hat hkey hbuf
  | write bytes => exact sysWrite_ram hat hbuf
  | lseek offset whence =>
    obtain ⟨hv, hh⟩ := sysLseek_ram (r := r) hat offset whence
    exact congrArg some (Prod.ext hv hh)
  | pread len offset => exact sysRead_ram (sysLseek_ram hat offset .set).2 hkey hbuf
  | pwrite bytes offset => exact sysWrite_ram (sysLseek_ram hat offset .set).2 hbuf
  | ftruncate length =>
    rw [offsetCall, sysFtruncate, hat]
    exact congrArg (fun x => some ((0 : ℤ), x)) (handleAt_setHandle _ _ _ _)

omit hat in
theorem offsetCall_ram_read : let h : RamFileHandle := ⟨[1, 2], 0⟩
    let w : FileWorld := ⟨⟨fun _ => none, 0, [], fun _ _ => rfl⟩, fun _ _ => 0, ⟨fun _ => none, 0⟩, fun _ => .new ⟨9, 9⟩⟩
    ((w.setHandle 1 3 (.ram h)).offsetCall ⟨false, .ok [], .ok 0, 0, false⟩ (fun _ => 0) 1 3 4096 (.read 2)).map
      (fun x => (x.1, x.2.handleAt 1 3)) = (h.fdCall 3 (.read 2, none)).map (fun x => (x.1.1, some (.ram x.2))) :=
  offsetCall_ram (handleAt_setHandle _ _ _ _) rfl (.read 2) rfl

end FileWorld
end NodeKernel
