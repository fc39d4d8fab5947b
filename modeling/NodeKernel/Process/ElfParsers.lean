import NodeKernel.Lib.Checked
import NodeKernel.Process.Elf

/-!
# The two parsers of ELF files

`parse_dyn_so` walks the program headers again, with sums that can wrap and without a look at the size in
memory. Both parsers are compared with the headers of the file.
-/
namespace NodeKernel

open List Nat

namespace Elf

variable {data : List UInt8} {image image' : ElfImage} {phdr : Phdr} {l : List Phdr}

lemma field_lt (data : List UInt8) (off n : ℕ) : field data off n < 256 ^ n := by
  refine (ofLe_lt _).trans_le (Nat.pow_le_pow_right (by decide) ?_)
  rw [length_take]
  exact Nat.min_le_left _ _

def Phdr.isLoad (phdr : Phdr) : Bool := phdr.pType == 1

def Phdr.fileEnd (phdr : Phdr) : ℕ := phdr.pOffset + phdr.pFilesz

def phoff (data : List UInt8) : ℕ := field data 32 8

def phnum (data : List UInt8) : ℕ := field data 56 2

def phEnd (data : List UInt8) : ℕ := phoff data + phnum data * phdrSize

def phdrs (data : List UInt8) : List Phdr :=
  (List.range (phnum data)).map (fun i => phdrAt data (phoff data + i * phdrSize))

def loads (l : List Phdr) : List Phdr := l.filter Phdr.isLoad

def segmentOf (data : List UInt8) (phdr : Phdr) : LoadedSegment :=
  ⟨phdr.pVaddr, phdr.pMemsz, slice data phdr.pOffset phdr.fileEnd, phdr.pFlags⟩

/-- The checks of `parse_dyn_so` before it looks at the program headers. -/
def DynHeader (data : List UInt8) : Prop :=
  ¬ (data.length < ehdrSize ∨ data.take 4 ≠ elfMag ∨ field data 4 1 ≠ 2 ∨ field data 18 2 ≠ 62)

instance (data : List UInt8) : Decidable (DynHeader data) := inferInstanceAs (Decidable (¬ _))

def dynTurn (data : List UInt8) (image : Option ElfImage) (phdr : Phdr) : Option (Option ElfImage) :=
  match image with
  | some image => parseDynPhdr data image phdr
  | none => some none

lemma parseDynSo_eq (data : List UInt8) : parseDynSo data =
    if ¬ DynHeader data then some none
    else if data.length < phEnd data % 2 ^ 64 then some none
    else if phEnd data % 2 ^ 64 < phoff data then none
    else (phdrs data).foldlM (dynTurn data) (some ⟨field data 24 8, [], none⟩) := by
  unfold parseDynSo DynHeader phdrs
  rw [foldlM_map]
  simp only [not_not]
  rfl

/-- The sums that the loop of `parse_dyn_so` computes, until it rejects the file. -/
def loadSums (data : List UInt8) : List Phdr → List (ℕ × ℕ)
  | [] => []
  | phdr :: l =>
    if phdr.pType ≠ 1 then loadSums data l
    else (phdr.pOffset, phdr.pFilesz) :: if data.length < phdr.fileEnd % 2 ^ 64 then [] else loadSums data l

def dynSums (data : List UInt8) : List (ℕ × ℕ) :=
  if ¬ DynHeader data then []
  else (phoff data, phnum data * phdrSize) ::
    if data.length < phEnd data % 2 ^ 64 then [] else loadSums data (phdrs data)

/-- `parse_dyn_so` neither panics nor overflows, its segments are in the file and fit in memory, and they are those
of `parse` where that accepts the file. -/
structure DynAgrees (data : List UInt8) : Prop where
  sums : ∀ s ∈ dynSums data, s.1 + s.2 < 2 ^ 64
  total : parseDynSo data ≠ none
  fits : ∀ image, parseDynSo data = some (some image) → Fits data image
  agrees : ∀ image image', parse data = .ok image → parseDynSo data = some (some image') →
    image'.segments = image.segments

/-- The loadable headers up to the first that lies behind the end of the file do not wrap, and if there is none
their bytes fit in the memory that they ask for. -/
def LoadsInRange (data : List UInt8) (l : List Phdr) : Prop :=
  (∀ l₁ phdr l₂, loads l = l₁ ++ phdr :: l₂ → (∀ p ∈ l₁, p.fileEnd ≤ data.length) → phdr.fileEnd < 2 ^ 64) ∧
    ((∀ p ∈ loads l, p.fileEnd ≤ data.length) → ∀ p ∈ loads l, p.pFilesz ≤ p.pMemsz)

/-- The table of program headers does not wrap, and if it is in the file its loadable entries are in range. -/
def DynInRange (data : List UInt8) : Prop :=
  DynHeader data → phEnd data < 2 ^ 64 ∧ (phEnd data ≤ data.length → LoadsInRange data (phdrs data))

lemma loads_cons_of_load (h : phdr.pType = 1) : loads (phdr :: l) = phdr :: loads l :=
  filter_cons_of_pos (by simp [Phdr.isLoad, h])

lemma loads_cons_of_other (h : phdr.pType ≠ 1) : loads (phdr :: l) = loads l := filter_cons_of_neg (by simp [Phdr.isLoad, h])

def withLoads (data : List UInt8) (image : ElfImage) (l : List Phdr) : ElfImage :=
  { image with segments := image.segments ++ (loads l).map (segmentOf data) }

lemma withLoads_cons : withLoads data (withLoads data image [phdr]) l = withLoads data image (phdr :: l) := by
  have happend : loads (phdr :: l) = loads [phdr] ++ loads l := filter_append [phdr] l
  unfold withLoads
  rw [happend, map_append, append_assoc]

lemma loadSums_iff : (∀ s ∈ loadSums data l, s.1 + s.2 < 2 ^ 64) ↔
    ∀ l₁ phdr l₂, loads l = l₁ ++ phdr :: l₂ → (∀ p ∈ l₁, p.fileEnd ≤ data.length) → phdr.fileEnd < 2 ^ 64 := by
  induction l with
  | nil => simp [loadSums, loads]
  | cons phdr l ih =>
    unfold loadSums
    by_cases ht : phdr.pType = 1
    · rw [if_neg (not_not_intro ht), loads_cons_of_load ht, forall_mem_cons]
      constructor
      · rintro ⟨hfirst, hrest⟩ l₁ p l₂ heq hin
        cases l₁ with
        | nil =>
          obtain ⟨rfl, -⟩ := List.cons.inj heq
          exact hfirst
        | cons q l₁ =>
          obtain ⟨rfl, heq'⟩ := List.cons.inj heq
          have hq : phdr.fileEnd ≤ data.length := hin phdr mem_cons_self
          rw [mod_eq_of_lt (show phdr.fileEnd < 2 ^ 64 from hfirst), if_neg (not_lt.mpr hq)] at hrest
          exact ih.mp hrest l₁ p l₂ heq' (fun p hp => hin p (mem_cons_of_mem _ hp))
      · intro hall
        have hfirst : phdr.fileEnd < 2 ^ 64 := hall [] phdr (loads l) rfl (fun p hp => by cases hp)
        refine ⟨hfirst, ?_⟩
        rw [mod_eq_of_lt hfirst]
        split
        · exact fun s hs => by cases hs
        · rename_i hq
          refine ih.mpr (fun l₁ p l₂ heq hin => hall (phdr :: l₁) p l₂ (by rw [heq]; rfl) ?_)
          exact forall_mem_cons.mpr ⟨not_lt.mp hq, hin⟩
    · rw [if_pos ht, loads_cons_of_other ht]
      exact ih

lemma dynTurn_of_load (ht : phdr.pType = 1) (hlt : phdr.fileEnd < 2 ^ 64) : dynTurn data (some image) phdr =
    some (if data.length < phdr.fileEnd then none else some (withLoads data image [phdr])) := by
  have hend : (phdr.pOffset + phdr.pFilesz) % 2 ^ 64 = phdr.fileEnd := mod_eq_of_lt hlt
  have hle : ¬ phdr.fileEnd < phdr.pOffset := not_lt.mpr (le_add_right _ _)
  unfold dynTurn parseDynPhdr
  dsimp only
  rw [if_neg (not_not_intro ht), hend, if_neg hle]
  split
  · rfl
  · unfold withLoads
    rw [loads_cons_of_load ht]
    rfl

lemma foldlM_dynTurn_none : l.foldlM (dynTurn data) none = some none := by
  induction l with
  | nil => rfl
  | cons phdr l ih => exact ih

lemma foldlM_dynTurn (h : ∀ s ∈ loadSums data l, s.1 + s.2 < 2 ^ 64) : l.foldlM (dynTurn data) (some image) =
    some (if ∀ p ∈ loads l, p.fileEnd ≤ data.length then some (withLoads data image l) else none) := by
  induction l generalizing image with
  | nil =>
    rw [if_pos (fun p hp => by cases hp)]
    simp [withLoads, loads]
  | cons phdr l ih =>
    rw [foldlM_cons]
    unfold loadSums at h
    by_cases ht : phdr.pType = 1
    · rw [if_neg (not_not_intro ht), forall_mem_cons] at h
      obtain ⟨hfirst, hrest⟩ := h
      have hlt : phdr.fileEnd < 2 ^ 64 := hfirst
      rw [dynTurn_of_load ht hlt, loads_cons_of_load ht]
      rw [mod_eq_of_lt hlt] at hrest
      by_cases hq : data.length < phdr.fileEnd
      · rw [if_pos hq, if_neg (fun hall => not_lt.mpr (hall phdr mem_cons_self) hq)]
        exact foldlM_dynTurn_none
      · rw [if_neg hq] at hrest ⊢
        rw [Option.bind_eq_bind, Option.bind_some, ih hrest]
        have hiff : (∀ p ∈ phdr :: loads l, p.fileEnd ≤ data.length) ↔ ∀ p ∈ loads l, p.fileEnd ≤ data.length := by
          rw [forall_mem_cons]
          exact and_iff_right (not_lt.mp hq)
        rw [if_congr hiff rfl rfl, withLoads_cons]
    · rw [if_pos ht] at h
      rw [loads_cons_of_other ht]
      have hturn : dynTurn data (some image) phdr = some (some image) := if_pos ht
      rw [hturn, Option.bind_eq_bind, Option.bind_some, ih h]
      simp [withLoads, loads_cons_of_other ht]

def Phdr.Inside (data : List UInt8) (phdr : Phdr) : Prop := phdr.fileEnd ≤ data.length ∧ phdr.pFilesz ≤ phdr.pMemsz

lemma parsePhdr_ok (h : parsePhdr data image phdr = .ok image') :
    image'.segments = image.segments ++ (loads [phdr]).map (segmentOf data) ∧ ∀ p ∈ loads [phdr], p.Inside data := by
  unfold parsePhdr at h
  split at h
  next ht =>
    rw [loads_cons_of_other (by omega)]
    dsimp only at h
    split at h
    · split at h
      · simp [← Except.ok.inj h, loads]
      · simp [← Except.ok.inj h, loads]
    · simp [← Except.ok.inj h, loads]
  next ht =>
    rw [loads_cons_of_load ht]
    split at h
    · cases h
    next stop hstop =>
      have hsum : phdr.fileEnd = stop := (checkedAdd_some hstop).symm
      split at h
      · cases h
      next hlen =>
        split at h
        · cases h
        next hsize => simp_all [← Except.ok.inj h, loads, segmentOf, Phdr.Inside]
  next ht _ =>
    rw [loads_cons_of_other ‹_›]
    simp [← Except.ok.inj h, loads]

lemma foldlM_parsePhdr (h : l.foldlM (parsePhdr data) image = .ok image') :
    image'.segments = image.segments ++ (loads l).map (segmentOf data) ∧ ∀ p ∈ loads l, p.Inside data := by
  induction l generalizing image with
  | nil => simp [← Except.ok.inj h, loads]
  | cons phdr l ih =>
    rw [foldlM_cons] at h
    cases hstep : parsePhdr data image phdr with
    | error e =>
      rw [hstep] at h
      cases h
    | ok next =>
      rw [hstep] at h
      have happend : loads (phdr :: l) = loads [phdr] ++ loads l := filter_append [phdr] l
      obtain ⟨hfirst, hin⟩ := parsePhdr_ok hstep
      obtain ⟨hrest, hins⟩ := ih h
      rw [hrest, hfirst, happend, map_append, append_assoc]
      exact ⟨rfl, forall_mem_append.mpr ⟨hin, hins⟩⟩

lemma parse_loads (h : parse data = .ok image) :
    image.segments = (loads (phdrs data)).map (segmentOf data) ∧ ∀ p ∈ loads (phdrs data), p.Inside data := by
  unfold parse at h
  repeat' split at h
  all_goals first
    | cases h
    | skip
  have hfold : (phdrs data).foldlM (parsePhdr data) ⟨field data 24 8, [], none⟩ = .ok image := by
    unfold phdrs
    rw [foldlM_map]
    exact h
  exact foldlM_parsePhdr hfold

lemma fits_withLoads (hin : ∀ p ∈ loads l, p.fileEnd ≤ data.length) {entry : ℕ} {interp : Option String} :
    Fits data (withLoads data ⟨entry, [], interp⟩ l) ↔ ∀ p ∈ loads l, p.pFilesz ≤ p.pMemsz := by
  have hlen : ∀ p ∈ loads l, (segmentOf data p).data.length = p.pFilesz := by
    intro p hp
    change (slice data p.pOffset p.fileEnd).length = p.pFilesz
    rw [slice_length (hin p hp)]
    exact Nat.add_sub_cancel_left ..
  unfold Fits withLoads
  rw [nil_append, forall_mem_map]
  refine forall₂_congr (fun p hp => ?_)
  rw [hlen p hp]
  exact and_iff_left ⟨p.pOffset, p.fileEnd, hin p hp, rfl⟩

lemma parse_fits (hp : parse data = .ok image) : Fits data image := by
  obtain ⟨hsegs, hin⟩ := parse_loads hp
  have hfits : Fits data (withLoads data ⟨0, [], none⟩ (phdrs data)) :=
    (fits_withLoads (fun p hp => (hin p hp).1)).mpr (fun p hp => (hin p hp).2)
  rwa [Fits, withLoads, ← hsegs] at hfits

section
variable (hh : DynHeader data) (hend : phEnd data < 2 ^ 64)
include hh hend

lemma parseDynSo_of_inside (hin : phEnd data ≤ data.length)
    (hsums : ∀ s ∈ loadSums data (phdrs data), s.1 + s.2 < 2 ^ 64) : parseDynSo data =
      some (if ∀ p ∈ loads (phdrs data), p.fileEnd ≤ data.length then
        some (withLoads data ⟨field data 24 8, [], none⟩ (phdrs data)) else none) := by
  have hle : ¬ phEnd data < phoff data := not_lt.mpr (le_add_right _ _)
  rw [parseDynSo_eq, if_neg (not_not_intro hh), mod_eq_of_lt hend, if_neg (not_lt.mpr hin), if_neg hle]
  exact foldlM_dynTurn hsums

lemma dynSums_of_header : (∀ s ∈ dynSums data, s.1 + s.2 < 2 ^ 64) ↔
    (phEnd data ≤ data.length → ∀ s ∈ loadSums data (phdrs data), s.1 + s.2 < 2 ^ 64) := by
  unfold dynSums
  rw [if_neg (not_not_intro hh), forall_mem_cons, mod_eq_of_lt hend]
  refine (and_iff_right hend).trans ?_
  by_cases hin : phEnd data ≤ data.length
  · rw [if_neg (not_lt.mpr hin)]
    exact ⟨fun h _ => h, fun h => h hin⟩
  · rw [if_pos (not_le.mp hin)]
    exact iff_of_true (fun s hs => by cases hs) (fun h => absurd h hin)

lemma dynAgrees_of_inside (hin : phEnd data ≤ data.length) : DynAgrees data ↔ LoadsInRange data (phdrs data) := by
  unfold LoadsInRange
  rw [← loadSums_iff]
  constructor
  · intro h
    have hsums := (dynSums_of_header hh hend).mp h.sums hin
    refine ⟨hsums, fun hall => ?_⟩
    have hfits := h.fits
    rw [parseDynSo_of_inside hh hend hin hsums, if_pos hall] at hfits
    exact (fits_withLoads hall).mp (hfits _ rfl)
  · rintro ⟨hsums, hmem⟩
    have hdyn := parseDynSo_of_inside hh hend hin hsums
    have himage : ∀ image, parseDynSo data = some (some image) → (∀ p ∈ loads (phdrs data), p.fileEnd ≤ data.length) ∧
        image = withLoads data ⟨field data 24 8, [], none⟩ (phdrs data) := by
      intro image himage
      rw [hdyn] at himage
      split at himage
      next hall => exact ⟨hall, (Option.some.inj (Option.some.inj himage)).symm⟩
      · cases himage
    refine ⟨(dynSums_of_header hh hend).mpr (fun _ => hsums), by rw [hdyn]; exact nofun, ?_, ?_⟩
    · intro image hi
      obtain ⟨hall, rfl⟩ := himage image hi
      exact (fits_withLoads hall).mpr (hmem hall)
    · intro image image' hparse hi
      obtain ⟨-, rfl⟩ := himage image' hi
      rw [(parse_loads hparse).1]
      rfl

end

lemma dynAgrees_of_rejected (hsums : ∀ s ∈ dynSums data, s.1 + s.2 < 2 ^ 64) (h : parseDynSo data = some none) :
    DynAgrees data := by
  refine ⟨hsums, by rw [h]; exact nofun, fun image hi => ?_, fun image image' _ hi => ?_⟩
  · rw [h] at hi
    cases hi
  · rw [h] at hi
    cases hi

theorem dynAgrees_iff (data : List UInt8) : DynAgrees data ↔ DynInRange data := by
  unfold DynInRange
  by_cases hh : DynHeader data
  · rw [forall_prop_of_true hh]
    by_cases hend : phEnd data < 2 ^ 64
    · rw [and_iff_right hend]
      by_cases hin : phEnd data ≤ data.length
      · rw [forall_prop_of_true hin]
        exact dynAgrees_of_inside hh hend hin
      · refine iff_of_true (dynAgrees_of_rejected ?_ ?_) (fun h => absurd h hin)
        · exact (dynSums_of_header hh hend).mpr (fun h => absurd h hin)
        · rw [parseDynSo_eq, if_neg (not_not_intro hh), mod_eq_of_lt hend, if_pos (not_le.mp hin)]
    · refine iff_of_false (fun h => hend ?_) (fun h => hend h.1)
      refine h.sums (phoff data, phnum data * phdrSize) ?_
      unfold dynSums
      rw [if_neg (not_not_intro hh)]
      exact mem_cons_self
  · refine iff_of_true (dynAgrees_of_rejected ?_ ?_) (fun h => absurd h hh)
    · unfold dynSums
      rw [if_pos hh]
      exact fun s hs => by cases hs
    · rw [parseDynSo_eq, if_pos hh]

/-- A file with one loadable header whose bytes start at the last address and end at the first. -/
def wrappingFile : List UInt8 :=
  elfMag ++ [2, 1, 1] ++ List.replicate 9 0 ++ [3, 0, 62, 0] ++ List.replicate 12 0 ++
    [64, 0, 0, 0, 0, 0, 0, 0] ++ List.replicate 14 0 ++ [56, 0, 1, 0] ++ List.replicate 6 0 ++
    [1, 0, 0, 0, 4, 0, 0, 0] ++ List.replicate 8 255 ++ List.replicate 16 0 ++
    [2, 0, 0, 0, 0, 0, 0, 0, 2, 0, 0, 0, 0, 0, 0, 0] ++ List.replicate 8 0

/-- The sum wraps, and the slice ends before its start. -/
theorem wrapped_segment_panics : ¬ DynAgrees wrappingFile := by
  intro h
  have hnone : (parseDynSo wrappingFile).isNone = true := by decide +kernel
  exact h.total (Option.isNone_iff_eq_none.mp hnone)

end Elf

/-! ## No file leads the parser out of bounds -/

open Checked

namespace Elf

def parsePhdrChecked (data : List UInt8) (image : ElfImage) (phdr : Phdr) : Checked (Except ElfError ElfImage) :=
  if phdr.pType = 3 then
    let stop := min (phdr.pOffset + phdr.pFilesz) u64Max
    if stop ≤ data.length then do
      let raw ← Checked.slice data phdr.pOffset stop
      match String.fromUTF8? (raw.takeWhile (fun b => b != 0)).toByteArray with
      | some s => return .ok { image with interp := some s }
      | none => return .ok image
    else return .ok image
  else if phdr.pType = 1 then
    match checkedAdd phdr.pOffset phdr.pFilesz with
    | none => return .error .segmentOutOfBounds
    | some stop =>
      if data.length < stop then return .error .segmentOutOfBounds
      else if phdr.pMemsz < phdr.pFilesz then return .error .segmentOutOfBounds
      else do
        let segData ← Checked.slice data phdr.pOffset stop
        return .ok { image with segments := image.segments ++ [⟨phdr.pVaddr, phdr.pMemsz, segData, phdr.pFlags⟩] }
  else return .ok image

def phdrLoop (data : List UInt8) (start : ℕ) : List ℕ → ElfImage → Checked (Except ElfError ElfImage)
  | [], image => return .ok image
  | i :: l, image => do
    let off ← add start (i * phdrSize)
    let stop ← add off phdrSize
    let phdr ← Checked.slice data off stop
    match ← parsePhdrChecked data image (phdrAt phdr 0) with
    | .error e => return .error e
    | .ok image => phdrLoop data start l image

def parseChecked (data : List UInt8) : Checked (Except ElfError ElfImage) :=
  if data.length < ehdrSize then return .error .truncated
  else do
    let ehdr ← Checked.slice data 0 ehdrSize
    if ehdr.take 4 ≠ elfMag then return .error .notElf
    else if field ehdr 4 1 ≠ 2 then return .error .notElf
    else if field ehdr 5 1 ≠ 1 then return .error .badArch
    else if field ehdr 6 1 ≠ 1 then return .error .notElf
    else if field ehdr 18 2 ≠ 62 then return .error .badArch
    else if field ehdr 16 2 ≠ 2 ∧ field ehdr 16 2 ≠ 3 then return .error .notExecutable
    else if field ehdr 54 2 ≠ phdrSize then return .error .badPhdrs
    else
      match checkedAdd (field ehdr 32 8) (field ehdr 56 2 * phdrSize) with
      | none => return .error .badPhdrs
      | some stop =>
        if data.length < stop then return .error .badPhdrs
        else phdrLoop data (field ehdr 32 8) (List.range (field ehdr 56 2)) ⟨field ehdr 24 8, [], none⟩

variable {data : List UInt8} {image : ElfImage} {phdr : Phdr}

lemma field_slice {start stop off n : ℕ} (h : start + off + n ≤ stop) :
    field ((data.take stop).drop start) off n = field data (start + off) n := by
  unfold field
  rw [drop_drop, drop_take, take_take, min_eq_left (by omega)]

lemma phdrAt_slice (data : List UInt8) (off : ℕ) : phdrAt ((data.take (off + phdrSize)).drop off) 0 = phdrAt data off := by
  unfold phdrAt phdrSize
  simp only [zero_add]
  rw [field_slice (by omega), field_slice (by omega), field_slice (by omega), field_slice (by omega), field_slice (by omega),
    field_slice (by omega), add_zero]

lemma parsePhdrChecked_eq (hoff : phdr.pOffset < 2 ^ 64) :
    parsePhdrChecked data image phdr = .ok (parsePhdr data image phdr) := by
  unfold parsePhdrChecked parsePhdr
  split
  next ht =>
    rw [ht]
    dsimp only
    split
    next hin =>
      rw [slice_of_le (by unfold u64Max; omega) hin, ok_bind]
      change _ = Except.ok (match String.fromUTF8? ((slice data _ _).takeWhile _).toByteArray with | some s => _ | none => _)
      unfold slice
      cases String.fromUTF8? _ <;> rfl
    · rfl
  next h3 =>
    split
    next ht =>
      rw [ht]
      cases hstop : checkedAdd phdr.pOffset phdr.pFilesz with
      | none => rfl
      | some stop =>
        have hsum := checkedAdd_some hstop
        dsimp only
        split
        · rfl
        next hin =>
          rw [slice_of_le (by omega) (not_lt.mp hin)]
          split <;> rfl
    next h1 =>
      split
      · exact absurd ‹_› h3
      · exact absurd ‹_› h1
      · rfl

lemma phdrLoop_eq {start : ℕ} {l : List ℕ} (hlen : data.length < 2 ^ 63) (hin : ∀ i ∈ l, start + i * phdrSize + phdrSize ≤ data.length) :
    phdrLoop data start l image =
      .ok (l.foldlM (fun image i => parsePhdr data image (phdrAt data (start + i * phdrSize))) image) := by
  induction l generalizing image with
  | nil => rfl
  | cons i l ih =>
    rw [forall_mem_cons] at hin
    rw [phdrLoop, add_of_lt (by omega), ok_bind, add_of_lt (by omega), ok_bind, slice_of_le (by omega) hin.1, ok_bind,
      phdrAt_slice, parsePhdrChecked_eq (field_lt data _ 8), ok_bind, foldlM_cons]
    cases parsePhdr data image (phdrAt data (start + i * phdrSize)) with
    | error e => rfl
    | ok image => exact ih hin.2

lemma parseChecked_eq (hlen : data.length < 2 ^ 63) : parseChecked data = .ok (parse data) := by
  unfold parseChecked parse
  split
  · rfl
  next hsize =>
    have hfield : ∀ off n, off + n ≤ ehdrSize → field ((data.take ehdrSize).drop 0) off n = field data off n := by
      intro off n h
      rw [field_slice (by omega), zero_add]
    rw [slice_of_le (zero_le _) (not_lt.mp hsize), ok_bind, hfield 4 1 (by decide), hfield 5 1 (by decide),
      hfield 6 1 (by decide), hfield 18 2 (by decide), hfield 16 2 (by decide), hfield 54 2 (by decide), hfield 32 8 (by decide),
      hfield 56 2 (by decide), hfield 24 8 (by decide), drop_zero, take_take, show min 4 ehdrSize = 4 from rfl]
    split_ifs
    any_goals rfl
    cases hstop : checkedAdd (field data 32 8) (field data 56 2 * phdrSize) with
    | none => rfl
    | some stop =>
      have hsum := checkedAdd_some hstop
      dsimp only
      split_ifs with hout
      · rfl
      · refine phdrLoop_eq hlen (fun i hi => ?_)
        have hle := mul_le_mul_right phdrSize (succ_le_of_lt (mem_range.mp hi))
        rw [succ_mul] at hle
        omega

/-- On every byte string the parser returns, and a segment that it returns is the file bytes of a loadable header. -/
theorem parse_safe (data : ByteSlice) : parseChecked data = .ok (parse data) ∧
    ∀ image, parse data = .ok image → ∀ seg ∈ image.segments, ∃ phdr ∈ phdrs data, phdr.pType = 1 ∧
      phdr.pFilesz ≤ phdr.pMemsz ∧ seg.data = (data.val.drop phdr.pOffset).take phdr.pFilesz ∧
      seg.data.length = phdr.pFilesz ∧ (seg.vaddr, seg.memsz, seg.flags) = (phdr.pVaddr, phdr.pMemsz, phdr.pFlags) := by
  refine ⟨parseChecked_eq data.property, fun image himage seg hseg => ?_⟩
  obtain ⟨hsegs, hin⟩ := parse_loads himage
  rw [hsegs] at hseg
  obtain ⟨phdr, hphdr, rfl⟩ := mem_map.mp hseg
  obtain ⟨hend, hsize⟩ := hin phdr hphdr
  obtain ⟨hmem, hload⟩ := mem_filter.mp hphdr
  refine ⟨phdr, hmem, by simpa [Phdr.isLoad] using hload, hsize, ?_, ?_, rfl⟩
  · simp [segmentOf, slice, drop_take, Phdr.fileEnd]
  · exact (slice_length hend).trans (Nat.add_sub_cancel_left ..)

end Elf

end NodeKernel
