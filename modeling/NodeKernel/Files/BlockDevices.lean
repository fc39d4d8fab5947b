import NodeKernel.Files.OpenFiles

/-!
# Block devices as arrays of bytes

A handle of a drive reads and writes whole sectors. A read takes out the bytes that were asked for; a write
begins at the start of a sector and fills the last one up with zeros.
-/
namespace NodeKernel

open List Nat

inductive DriveCall
  | seek (pos : ℕ)
  | read (answers : Bool) (len : ℕ)
  | write (answers : Bool) (bytes : List UInt8)

/-- A handle and its disk, and the flat array to compare the disk with. -/
structure DriveWorld where
  handle : DriveHandle
  disk : ByteMem
  flat : ByteMem

namespace DriveWorld

/-- A read that stops the kernel is left out. A write that fails is none of the array. -/
def call (w : DriveWorld) : DriveCall → DriveWorld
  | .seek pos => { w with handle := w.handle.seek pos }
  | .read answers len =>
    match w.handle.read w.disk answers len with
    | some (_, handle) => { w with handle }
    | none => w
  | .write answers bytes =>
    match w.handle.write w.disk answers bytes with
    | (.ok _, handle, disk) => ⟨handle, disk, w.flat.store w.handle.offset bytes⟩
    | (.error _, handle, disk) => { w with handle, disk }

/-- A read gives the bytes of the array, and a write leaves those alone that it is not about. -/
def AsArray (w : DriveWorld) : DriveCall → Prop
  | .seek _ => True
  | .read answers len => ∃ r handle, w.handle.read w.disk answers len = some (r, handle) ∧
      ∀ bytes, r = .ok bytes → bytes = w.flat.load w.handle.offset (min len (w.handle.size - w.handle.offset))
  | .write answers bytes => ∀ x, x < w.handle.offset ∨ w.handle.offset + bytes.length ≤ x →
      (w.handle.write w.disk answers bytes).2.2 x = w.disk x

/-- The sectors that a read asks for have all of its bytes, and a write is of whole sectors, fewer than the
driver can count. -/
def WholeSectors (w : DriveWorld) : DriveCall → Prop
  | .seek _ => True
  | .read answers len => answers = true → w.handle.offset < w.handle.size →
      let toRead := min len (w.handle.size - w.handle.offset)
      let start := w.handle.offset % 512
      start + toRead ≤ ((if w.handle.drive.nvme then toRead else start + toRead) + 511) / 512 % 2 ^ 16 * 512
  | .write answers bytes => answers = true → w.handle.drive.nvme = true ∨ w.handle.offset < w.handle.size →
      bytes = [] ∨ 512 ∣ w.handle.offset ∧ 512 ∣ bytes.length ∧ bytes.length / 512 < 2 ^ 16

variable {w : DriveWorld} {answers : Bool} {len : ℕ} {bytes : List UInt8}

lemma read_asArray (h : w.disk = w.flat) (hwhole : w.WholeSectors (.read answers len)) : w.AsArray (.read answers len) := by
  unfold AsArray DriveHandle.read
  dsimp only
  by_cases hend : w.handle.size ≤ w.handle.offset
  · rw [if_pos hend]
    refine ⟨_, _, rfl, ?_⟩
    rintro bytes ⟨⟩
    rw [Nat.sub_eq_zero_of_le hend, Nat.min_zero]
    rfl
  · rw [if_neg hend]
    cases answers with
    | false => exact ⟨_, _, rfl, nofun⟩
    | true =>
      have hroom := hwhole rfl (Nat.lt_of_not_le hend)
      rw [if_neg (by decide), if_neg (by omega)]
      refine ⟨_, _, rfl, ?_⟩
      rintro bytes ⟨⟩
      rw [h, min_eq_left (by omega)]

lemma toSectors_of_whole (h : 512 ∣ bytes.length) : toSectors bytes = bytes := by
  have hfull : (bytes.length + 511) / 512 * 512 - bytes.length = 0 := by omega
  unfold toSectors
  rw [hfull, replicate_zero, append_nil]

lemma store_of_whole {disk : ByteMem} {offset : ℕ}
    (h : bytes = [] ∨ 512 ∣ offset ∧ 512 ∣ bytes.length ∧ bytes.length / 512 < 2 ^ 16) :
    disk.store (offset / 512 * 512) ((toSectors bytes).take ((toSectors bytes).length / 512 % 2 ^ 16 * 512)) =
      disk.store offset bytes := by
  rcases h with rfl | ⟨hoff, hlen, hcount⟩
  · funext x
    rw [ByteMem.store_outside (by simp [toSectors]; omega), ByteMem.store_outside (by simp; omega)]
  · have htake : bytes.length ≤ bytes.length / 512 % 2 ^ 16 * 512 := by omega
    rw [toSectors_of_whole hlen, take_of_length_le htake, Nat.div_mul_cancel hoff]

lemma write_spec (hwhole : w.WholeSectors (.write answers bytes)) :
    (∃ e, w.handle.write w.disk answers bytes = (.error e, w.handle, w.disk)) ∨ w.handle.write w.disk answers bytes =
      (.ok bytes.length, { w.handle with offset := w.handle.offset + bytes.length }, w.disk.store w.handle.offset bytes) := by
  unfold DriveHandle.write
  split
  · exact .inl ⟨_, rfl⟩
  next hfails =>
    refine .inr ?_
    simp only [Bool.or_eq_true, Bool.and_eq_true, Bool.not_eq_true', decide_eq_true_eq, not_or, not_and,
      Bool.not_eq_false, not_le] at hfails
    have hplace : w.handle.drive.nvme = true ∨ w.handle.offset < w.handle.size := by
      cases hnvme : w.handle.drive.nvme with
      | true => exact .inl rfl
      | false => exact .inr (hfails.1 hnvme)
    dsimp only
    rw [store_of_whole (hwhole hfails.2 hplace)]

lemma call_flat (h : w.disk = w.flat) {c : DriveCall} (hwhole : w.WholeSectors c) : (w.call c).disk = (w.call c).flat := by
  cases c with
  | seek pos => exact h
  | read answers len =>
    unfold call
    dsimp only
    split <;> exact h
  | write answers bytes =>
    unfold call
    rcases write_spec hwhole with ⟨e, heq⟩ | heq
    · dsimp only
      rw [heq]
      exact h
    · dsimp only
      rw [heq, h]

lemma asArray_of_wholeSectors (h : w.disk = w.flat) {c : DriveCall} (hwhole : w.WholeSectors c) : w.AsArray c := by
  cases c with
  | seek pos => trivial
  | read answers len => exact read_asArray h hwhole
  | write answers bytes =>
    intro x hx
    rcases write_spec hwhole with ⟨e, heq⟩ | heq
    · rw [heq]
    · rw [heq]
      exact ByteMem.store_outside hx

/-- A handle whose writes are of whole sectors and whose reads stay within the sectors they ask for is a flat
array. -/
theorem run_asArray {w₀ : DriveWorld} {tr : List (DriveWorld × DriveCall)} (h₀ : w₀.disk = w₀.flat)
    (hrun : Run (fun w c w' => w' = w.call c) w₀ tr w) (hwhole : ∀ x ∈ tr, x.1.WholeSectors x.2) :
    ∀ x ∈ tr, x.1.AsArray x.2 := by
  obtain ⟨hflat, _⟩ := hrun.invariant_of (I := fun w => w.disk = w.flat) (C := WholeSectors) h₀
    (fun w c w' hI hC hs => hs ▸ call_flat hI hC) hwhole
  exact fun x hx => asArray_of_wholeSectors (hflat x hx) (hwhole x hx)

/-- The first drive as it is registered, with sevens on it. -/
def sevens : DriveWorld := ⟨⟨⟨false, 0⟩, 0, 64 * 1024 * 1024 * 1024⟩, fun _ => 7, fun _ => 7⟩

theorem run_asArray_sector : sevens.disk = sevens.flat ∧
      ∀ x ∈ traceOf call sevens [.write true (List.replicate 512 1), .seek 1, .read true 2], x.1.AsArray x.2 := by
  have hlen : (replicate 512 (1 : UInt8)).length = 512 := length_replicate
  refine ⟨rfl, run_asArray rfl (Run.traceOf call sevens _) ?_⟩
  simp only [traceOf, forall_mem_cons]
  refine ⟨fun _ _ => .inr ⟨dvd_zero _, dvd_of_eq hlen.symm, ?_⟩, trivial, fun _ _ => by decide +kernel, forall_mem_nil _⟩
  rw [hlen]
  decide

/-- A byte at the second place goes to the first one, and the rest of the sector is cleared. -/
theorem byte_is_written_beside : let w := [DriveCall.seek 1, .write true [1]].foldl call sevens
    w.disk 0 = 1 ∧ w.disk 1 = 0 ∧ w.disk 511 = 0 ∧ ¬ ∀ x ∈ traceOf call sevens [.seek 1, .write true [1]], x.1.AsArray x.2 := by
  refine ⟨by decide +kernel, by decide +kernel, by decide +kernel, ?_⟩
  simp only [traceOf, forall_mem_cons]
  intro hall
  have hzero := hall.2.1 0 (.inl (by decide))
  revert hzero
  decide +kernel

end DriveWorld
end NodeKernel
