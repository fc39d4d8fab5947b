import NodeKernel.Process.Relocation
import Mathlib.Data.Int.ModEq

/-!
# Which modules are relocated

What a relocated module should be by the standard for the processor, and the condition on a module under which
`relocate_module` does that where it reports success.
-/
namespace NodeKernel

open List Option Nat

def ModuleAccess.ReadInside (n : ℕ) : ModuleAccess → Prop
  | .read off k => off + k ≤ n
  | .copy _ _ => True
  | .patch _ _ _ _ => True

def ModuleAccess.WriteInside (size : ℕ) : ModuleAccess → Prop
  | .read _ _ => True
  | .copy off bytes => off + bytes.length ≤ size
  | .patch _ _ off bytes => off + bytes.length ≤ size

def ModuleAccess.apply (image : List UInt8) : ModuleAccess → List UInt8
  | .read _ _ => image
  | .copy off bytes => image.take off ++ bytes ++ image.drop (off + bytes.length)
  | .patch _ _ off bytes => image.take off ++ bytes ++ image.drop (off + bytes.length)

namespace Relocation

open Recorded

def signExtend (bytes : List UInt8) : ℤ := if ofLe bytes < 2 ^ 31 then ofLe bytes else (ofLe bytes : ℤ) - 2 ^ 32

/-- The bytes that a relocation at `pc` with a symbol at `val` puts in its place; extended to a word they are the value that
the standard gives for its type. -/
inductive Prescribed (val : ℕ) (addend : ℤ) (pc : ℕ) (bytes : List UInt8) : ℕ → Prop
  | abs64 (hlen : bytes.length = 8) (h : (ofLe bytes : ℤ) ≡ val + addend [ZMOD 2 ^ 64]) : Prescribed val addend pc bytes 1
  | pc32 (hlen : bytes.length = 4) (h : signExtend bytes ≡ val + (addend - pc) [ZMOD 2 ^ 64]) : Prescribed val addend pc bytes 2
  | plt32 (hlen : bytes.length = 4) (h : signExtend bytes ≡ val + (addend - pc) [ZMOD 2 ^ 64]) : Prescribed val addend pc bytes 4
  | abs32 (hlen : bytes.length = 4) (h : (ofLe bytes : ℤ) ≡ val + addend [ZMOD 2 ^ 64]) : Prescribed val addend pc bytes 10
  | abs32s (hlen : bytes.length = 4) (h : signExtend bytes ≡ val + addend [ZMOD 2 ^ 64]) : Prescribed val addend pc bytes 11

def width (relType : ℕ) : ℕ := if relType = 1 then 8 else 4

def sectionAt (m : ModuleFile) (sec : ℕ) : Shdr := readShdr m (shdrOff m sec)

def place (s : List ℕ × ℕ) (shdr : Shdr) : List ℕ × ℕ :=
  if shdr.shType = 8 ∨ shdr.shType = 0 ∨ shdr.shSize = 0 then (s.1 ++ [s.2], s.2)
  else (s.1 ++ [alignUp s.2 (max shdr.shAddralign 1)], (alignUp s.2 (max shdr.shAddralign 1) + shdr.shSize) % 2 ^ 64)

def placements (m : ModuleFile) (loadAddr : ℕ) : List ℕ :=
  ((List.range (shCount m)).foldl (fun s i => place s (sectionAt m i)) ([], loadAddr)).1

def linking (m : ModuleFile) (exportAddr : String → ℕ) (loadAddr : ℕ) : Option Linking := do
  let (symtab, strtab) ← (findSymtab m).value
  let syms ← (readSymbols m symtab).value
  let strtab ← (findStrtab m strtab).value
  return ⟨m, exportAddr, loadAddr, placements m loadAddr, syms, strtab⟩

def shnAbs : ℕ := 0xFFF1

/-- The value of a symbol by the standard: that of an export, an absolute one, or one from the start of a section. -/
def symbolValue (c : Linking) (sym : Sym) : Option ℕ :=
  if sym.stShndx = 0 then resolveKernelSymbol c.exportAddr (readStr c.strtab sym.stName)
  else if sym.stShndx = shnAbs then some sym.stValue
  else (c.sectionAddrs[sym.stShndx]?).map (fun addr => addr + sym.stValue)

def relaAt (c : Linking) (sec r : ℕ) : Rela := readRela c.m (relaOff (sectionAt c.m sec) r)

def patchVa (c : Linking) (sec r : ℕ) : ℕ :=
  (c.sectionAddrs.getD (sectionAt c.m sec).shInfo 0 + (relaAt c sec r).rOffset) % 2 ^ 64

/-- Section `sec` relocates an allocated section and has an entry `r`. -/
structure IsEntry (alloc : Shdr → Bool) (m : ModuleFile) (sec r : ℕ) : Prop where
  section_lt : sec < shCount m
  rela : (sectionAt m sec).shType = 4
  target_lt : (sectionAt m sec).shInfo < shCount m
  target : alloc (sectionAt m (sectionAt m sec).shInfo) = true
  entry_lt : r < (sectionAt m sec).shSize / relaSize

/-- The entry asks for nothing, or the bytes that it asks for were written to its place. -/
def Applied (c : Linking) (sec r : ℕ) (log : List ModuleAccess) : Prop :=
  (relaAt c sec r).relType = 0 ∨ ∃ sym val bytes, c.syms[(relaAt c sec r).symIdx]? = some sym ∧ symbolValue c sym = some val ∧
    Prescribed val (signed (relaAt c sec r).rAddend) (patchVa c sec r) bytes (relaAt c sec r).relType ∧
    .patch sec r (wsub (patchVa c sec r) c.loadAddr) bytes ∈ log

/-- What is read lies in the module, what is written in the image, and all entries for allocated sections are applied. -/
structure Sound (alloc : Shdr → Bool) (c : Linking) (size : ℕ) (log : List ModuleAccess) : Prop where
  reads : ∀ w ∈ log, w.ReadInside (len c.m)
  writes : ∀ w ∈ log, w.WriteInside size
  applied : ∀ sec r, IsEntry alloc c.m sec r → Applied c sec r log

def TableInside (off count width n : ℕ) : Prop := count = 0 ∨ off + count * width ≤ n

/-- An absolute symbol is taken for one of section `0xFFF1`, which is right only if that section is at 0. -/
def AbsAtZero (c : Linking) (sym : Sym) : Prop := sym.stShndx = shnAbs → c.sectionAddrs.getD shnAbs 0 % 2 ^ 64 = 0

/-- The symbol of the entry is there, in a section of the module or an export, and the place lies in the image. -/
def Linkable (c : Linking) (size sec r : ℕ) : Prop :=
  (relaAt c sec r).relType = 0 ∨ ∃ sym, c.syms[(relaAt c sec r).symIdx]? = some sym ∧ sym.stShndx < shCount c.m ∧
    AbsAtZero c sym ∧ wsub (patchVa c sec r) c.loadAddr + width (relaAt c sec r).relType ≤ size

/-- The tables lie in the module, and the entries for allocated sections can be applied. -/
structure Relocatable (alloc : Shdr → Bool) (c : Linking) (size : ℕ) : Prop where
  table : TableInside (shOff c.m) (shCount c.m) shdrSize (len c.m)
  symtab : ∀ tables, (findSymtab c.m).value = some tables →
    tables.1.shSize / symSize = 0 ∨ tables.1.shOffset + symSize < 2 ^ 64
  relas : ∀ sec < shCount c.m, (sectionAt c.m sec).shType = 4 → (sectionAt c.m sec).shInfo < shCount c.m →
    TableInside (sectionAt c.m sec).shOffset ((sectionAt c.m sec).shSize / relaSize) relaSize (len c.m)
  entries : ∀ sec r, IsEntry alloc c.m sec r → Linkable c size sec r

variable {m : ModuleFile} {c : Linking} {exportAddr : String → ℕ} {loadAddr sec r : ℕ} {buf buf' : List UInt8}
  {turn log : List ModuleAccess} {shdr : Shdr} {sym : Sym} {size : ℕ}

section Words

lemma field_lt (m : ModuleFile) (off n : ℕ) : field m off n < 256 ^ n := by
  have h := ofLe_lt ((List.range n).map (fun i => byteAt m (off + i)))
  rwa [length_map, length_range] at h

lemma wsub_lt (a b : ℕ) : wsub a b < 2 ^ 64 := mod_lt _ (by decide)

lemma tableInside_iff {off count width n : ℕ} (hoff : off < 2 ^ 64) (hn : n < 2 ^ 63) :
    (∀ i < count, (off + i * width) % 2 ^ 64 + width ≤ n) ↔ TableInside off count width n := by
  constructor
  · intro h
    cases count with
    | zero => exact .inl rfl
    | succ count =>
      right
      induction count with
      | zero =>
        have hfirst := h 0 (by decide)
        rw [zero_mul, add_zero, mod_eq_of_lt hoff] at hfirst
        omega
      | succ count ih =>
        have hbefore := ih (fun i hi => h i (by omega))
        have hlast := h (count + 1) (by omega)
        rw [mod_eq_of_lt (by omega)] at hlast
        rw [succ_mul]
        omega
  · rintro (rfl | h) i hi
    · omega
    · have hle : (i + 1) * width ≤ count * width := mul_le_mul_right width hi
      rw [succ_mul] at hle
      rw [mod_eq_of_lt (by omega)]
      omega

lemma prescribed_iff {relType val val' pc : ℕ} {addend : ℤ} {bytes : List UInt8}
    (h : Prescribed val addend pc bytes relType) : Prescribed val' addend pc bytes relType ↔ val ≡ val' [MOD 2 ^ 64] := by
  have hsum : ∀ x y : ℤ, x ≡ val + y [ZMOD 2 ^ 64] → (x ≡ val' + y [ZMOD 2 ^ 64] ↔ val ≡ val' [MOD 2 ^ 64]) := by
    intro x y hx
    have hcast : val ≡ val' [MOD 2 ^ 64] ↔ (val : ℤ) ≡ val' [ZMOD 2 ^ 64] := by
      rw [← Int.natCast_modEq_iff]
      norm_cast
    rw [hcast]
    exact ⟨fun hx' => (hx.symm.trans hx').add_right_cancel' y, fun hv => hx.trans (hv.add_right y)⟩
  constructor
  · intro h'
    cases h with
    | abs64 _ h | abs32 _ h | abs32s _ h | pc32 _ h | plt32 _ h =>
      cases h'
      exact (hsum _ _ h).mp (by assumption)
  · intro hv
    cases h with
    | abs64 hlen h => exact .abs64 hlen ((hsum _ _ h).mpr hv)
    | pc32 hlen h => exact .pc32 hlen ((hsum _ _ h).mpr hv)
    | plt32 hlen h => exact .plt32 hlen ((hsum _ _ h).mpr hv)
    | abs32 hlen h => exact .abs32 hlen ((hsum _ _ h).mpr hv)
    | abs32s hlen h => exact .abs32s hlen ((hsum _ _ h).mpr hv)

lemma Prescribed.length {relType val pc : ℕ} {addend : ℤ} {bytes : List UInt8}
    (h : Prescribed val addend pc bytes relType) : bytes.length = width relType := by
  cases h <;> assumption

lemma signExtend_toLe {v : ℕ} (hv : v < 2 ^ 64) (h : ¬ (2 ^ 31 - 1 < signed v ∨ signed v < - 2 ^ 31)) :
    signExtend (toLe 4 v) ≡ v [ZMOD 2 ^ 64] := by
  have hle : ofLe (toLe 4 v) = v % 2 ^ 32 := ofLe_toLe 4 v
  rw [signed] at h
  rw [signExtend, hle, Int.ModEq]
  split at h <;> split <;> omega

lemma sum_modEq (val addend : ℕ) : (((val + addend) % 2 ^ 64 : ℕ) : ℤ) ≡ val + signed addend [ZMOD 2 ^ 64] := by
  rw [signed, Int.ModEq]
  split <;> omega

lemma wsub_modEq (val addend pc : ℕ) : ((wsub (val + addend) pc : ℕ) : ℤ) ≡ val + (signed addend - pc) [ZMOD 2 ^ 64] := by
  rw [wsub, signed, Int.ModEq]
  split <;> omega

end Words

lemma returns_shdrAt {i : ℕ} : Returns (shdrAt m i) shdr log ↔
    (shdrOff m i + shdrSize) % 2 ^ 64 ≤ len m ∧ shdr = sectionAt m i ∧ log = [.read (shdrOff m i) shdrSize] := by
  simp [shdrAt, sectionAt]

lemma returns_copyTo {off stop' : ℕ} {bytes : List UInt8} {w : ModuleAccess} : Returns (copyTo buf off stop' bytes w) buf' log ↔
    (off ≤ stop' ∧ stop' ≤ buf.length) ∧ buf' = buf.take off ++ bytes ++ buf.drop stop' ∧ log = [w] := by
  simp [copyTo]

lemma returns_sliceOf {start stop' : ℕ} {bytes : List UInt8} : Returns (sliceOf m start stop') bytes log ↔
    (start ≤ stop' ∧ stop' ≤ len m) ∧ bytes = (m.data.val.take stop').drop start ∧ log = [.read start (stop' - start)] := by
  simp [sliceOf]

lemma returns_patchAt {off : ℕ} {bytes : List UInt8} (hoff : off < 2 ^ 64) (hlen : bytes.length < 2 ^ 64)
    (h : Returns (patchAt sec r buf off bytes) buf' turn) :
    if off + bytes.length ≤ buf.length then buf' = (ModuleAccess.patch sec r off bytes).apply buf ∧ turn = [.patch sec r off bytes]
    else buf' = buf ∧ turn = [] := by
  simp only [patchAt, returns_ite, returns_pure, returns_copyTo] at h
  rcases h with ⟨hbig, rfl, rfl⟩ | ⟨-, ⟨hle, hfit⟩, rfl, rfl⟩
  · rw [if_neg (by omega)]
    exact ⟨rfl, rfl⟩
  · have hstop : (off + bytes.length) % 2 ^ 64 = off + bytes.length := by omega
    rw [hstop] at hfit ⊢
    rw [if_pos hfit]
    exact ⟨rfl, rfl⟩

lemma returns_applyReloc {off relType val pc addend : ℕ} (h : Returns (applyReloc sec r buf off relType val pc addend) buf' turn) :
    (relType = 0 ∧ buf' = buf ∧ turn = []) ∨
      ∃ bytes, Prescribed val (signed addend) pc bytes relType ∧ Returns (patchAt sec r buf off bytes) buf' turn := by
  unfold applyReloc at h
  split at h
  · obtain ⟨rfl, rfl⟩ := returns_pure.mp h
    exact .inl ⟨rfl, rfl, rfl⟩
  · refine .inr ⟨_, .abs64 (toLe_length _ _) ?_, h⟩
    rw [ofLe_toLe_of_lt (show (val + addend) % 2 ^ 64 < 256 ^ 8 by omega)]
    exact sum_modEq _ _
  · simp only [returns_ite, not_returns_stop, and_false, false_or] at h
    exact .inr ⟨_, .pc32 (toLe_length _ _) ((signExtend_toLe (wsub_lt _ _) h.1).trans (wsub_modEq _ _ _)), h.2⟩
  · simp only [returns_ite, not_returns_stop, and_false, false_or] at h
    exact .inr ⟨_, .plt32 (toLe_length _ _) ((signExtend_toLe (wsub_lt _ _) h.1).trans (wsub_modEq _ _ _)), h.2⟩
  · simp only [returns_ite, not_returns_stop, and_false, false_or] at h
    refine .inr ⟨_, .abs32 (toLe_length _ _) ?_, h.2⟩
    rw [ofLe_toLe_of_lt (show _ < 256 ^ 4 by omega)]
    exact sum_modEq _ _
  · simp only [returns_ite, not_returns_stop, and_false, false_or] at h
    exact .inr ⟨_, .abs32s (toLe_length _ _) ((signExtend_toLe (mod_lt _ (by decide)) h.1).trans (sum_modEq _ _)), h.2⟩
  · exact absurd h not_returns_stop

lemma returns_symVal_none (h : Returns (symVal c sym) none turn) : turn = [] ∧ shCount c.m ≤ sym.stShndx := by
  unfold symVal at h
  split at h
  · dsimp only at h
    split at h
    · cases (returns_pure.mp h).1
    · exact absurd h not_returns_stop
  · split at h
    · cases (returns_pure.mp h).1
    · exact ⟨(returns_pure.mp h).2, by omega⟩

/-- What a part of the program does: it reads the module alone exactly if `inside` holds, it writes to the image, and it patches
for the entries in `whose` only, those of them that can be linked. -/
structure Turn (c : Linking) (size : ℕ) (inside : Prop) (whose : ℕ → ℕ → Prop) (turn : List ModuleAccess) : Prop where
  reads : (∀ w ∈ turn, w.ReadInside (len c.m)) ↔ inside
  writes : ∀ w ∈ turn, w.WriteInside size
  only : ∀ sec r off bytes, .patch sec r off bytes ∈ turn → whose sec r
  applied : ∀ sec r, whose sec r → (Applied c sec r turn ↔ Linkable c size sec r)

def noEntry (_ _ : ℕ) : Prop := False

def entryAt (sec r sec' r' : ℕ) : Prop := sec' = sec ∧ r' = r

section Turn

variable {inside inside' : Prop} {whose whose' : ℕ → ℕ → Prop}

lemma Turn.congr (h : Turn c size inside whose turn) (hin : inside ↔ inside') (hwho : ∀ sec r, whose sec r ↔ whose' sec r) :
    Turn c size inside' whose' turn :=
  ⟨h.reads.trans hin, h.writes, fun sec r off bytes hw => (hwho sec r).mp (h.only sec r off bytes hw),
    fun sec r hwhose => h.applied sec r ((hwho sec r).mpr hwhose)⟩

lemma turn_nil : Turn c size True noEntry [] := ⟨by simp, by simp, by simp, fun _ _ => False.elim⟩

lemma turn_read (c : Linking) (size off k : ℕ) : Turn c size (off + k ≤ len c.m) noEntry [.read off k] :=
  ⟨forall_mem_singleton, by simp [ModuleAccess.WriteInside], by simp, fun _ _ => False.elim⟩

lemma Applied.of_patches (h : Applied c sec r log)
    (hpatch : ∀ off bytes, .patch sec r off bytes ∈ log → .patch sec r off bytes ∈ turn) : Applied c sec r turn := by
  rcases h with hzero | ⟨sym, val, bytes, hsym, hval, hbytes, hmem⟩
  · exact .inl hzero
  · exact .inr ⟨sym, val, bytes, hsym, hval, hbytes, hpatch _ _ hmem⟩

lemma Turn.append (h : Turn c size inside noEntry log) (h' : Turn c size inside' whose turn) :
    Turn c size (inside ∧ inside') whose (log ++ turn) := by
  have hlast : ∀ sec r off bytes, .patch sec r off bytes ∈ log ++ turn → .patch sec r off bytes ∈ turn :=
    fun sec r off bytes hw => (mem_append.mp hw).resolve_left (h.only sec r off bytes)
  constructor
  case reads => rw [forall_mem_append, h.reads, h'.reads]
  case writes => exact forall_mem_append.mpr ⟨h.writes, h'.writes⟩
  case only => exact fun sec r off bytes hw => h'.only sec r off bytes (hlast sec r off bytes hw)
  case applied =>
    intro sec r hwhose
    rw [← h'.applied sec r hwhose]
    exact ⟨fun ha => ha.of_patches (hlast sec r), fun ha => ha.of_patches (fun off bytes => mem_append_right _)⟩

/-- The record of a loop whose turns are about different entries. -/
theorem turn_of_made {ι : Type} {l : List ι} {ins : ι → Prop} {who : ι → ℕ → ℕ → Prop}
    (h : Made (fun i => Turn c size (ins i) (who i)) l log) (hdisj : ∀ i j sec r, who i sec r → who j sec r → i = j) :
    Turn c size (∀ i ∈ l, ins i) (fun sec r => ∃ i ∈ l, who i sec r) log := by
  constructor
  case reads => exact h.forall_iff (fun i turn hturn => hturn.reads)
  case writes => exact h.forall_mem (fun i turn hturn => hturn.writes)
  case only =>
    intro sec r off bytes hw
    obtain ⟨i, hi, turn, hturn, hmem⟩ := h.of_mem _ hw
    exact ⟨i, hi, hturn.only sec r off bytes hmem⟩
  case applied =>
    rintro sec r ⟨i, hi, hwho⟩
    constructor
    · rintro (hzero | ⟨sym, val, bytes, hsym, hval, hbytes, hw⟩)
      · exact .inl hzero
      · obtain ⟨j, -, turn, hturn, hmem⟩ := h.of_mem _ hw
        obtain rfl := hdisj i j sec r hwho (hturn.only sec r _ _ hmem)
        exact (hturn.applied sec r hwho).mp (.inr ⟨sym, val, bytes, hsym, hval, hbytes, hmem⟩)
    · intro hlink
      obtain ⟨turn, hturn, hsub⟩ := h.turns i hi
      exact ((hturn.applied sec r hwho).mpr hlink).of_patches (fun off bytes hw => hsub hw)

end Turn

section Linked
variable (hcount : 0 < shCount c.m) (hlen : c.sectionAddrs.length = shCount c.m)

include hcount hlen in
lemma returns_symVal_some {val : ℕ} (h : Returns (symVal c sym) (some val) turn) :
    turn = [] ∧ sym.stShndx < shCount c.m ∧ ∃ val', symbolValue c sym = some val' ∧ (val ≡ val' [MOD 2 ^ 64] ↔ AbsAtZero c sym) := by
  unfold symVal at h
  split at h
  · next hundef =>
    dsimp only at h
    split at h
    · next addr haddr =>
      obtain ⟨hval, rfl⟩ := returns_pure.mp h
      obtain rfl := Option.some.inj hval
      refine ⟨rfl, by omega, val, (if_pos hundef).trans haddr, iff_of_true rfl ?_⟩
      intro habs
      rw [hundef] at habs
      cases habs
    · exact absurd h not_returns_stop
  · next hdef =>
    split at h
    · next hlt =>
      obtain ⟨hval, rfl⟩ := returns_pure.mp h
      obtain rfl := Option.some.inj hval
      refine ⟨rfl, hlt, ?_⟩
      rw [symbolValue, if_neg hdef]
      by_cases habs : sym.stShndx = shnAbs
      · refine ⟨sym.stValue, if_pos habs, ?_⟩
        rw [AbsAtZero, imp_iff_right habs, habs, Nat.ModEq]
        omega
      · rw [if_neg habs, getElem?_eq_getElem (by omega)]
        refine ⟨_, rfl, iff_of_true ?_ (fun h => absurd h habs)⟩
        rw [getD_eq_getElem?_getD, getElem?_eq_getElem (by omega)]
        exact mod_modEq _ _
    · cases (returns_pure.mp h).1

lemma turn_passed (h : (relaAt c sec r).relType ≠ 0 → ¬ Linkable c size sec r) :
    Turn c size (relaOff (sectionAt c.m sec) r + relaSize ≤ len c.m) (entryAt sec r)
      [.read (relaOff (sectionAt c.m sec) r) relaSize] := by
  have hread := turn_read c size (relaOff (sectionAt c.m sec) r) relaSize
  refine ⟨hread.reads, hread.writes, by simp, ?_⟩
  rintro sec r ⟨rfl, rfl⟩
  by_cases hzero : (relaAt c sec r).relType = 0
  · exact iff_of_true (.inl hzero) (.inl hzero)
  · refine iff_of_false ?_ (h hzero)
    rintro (hz | ⟨sym, val, bytes, -, -, -, hmem⟩)
    · exact hzero hz
    · cases mem_singleton.mp hmem

lemma Prescribed.relType_ne_zero {relType val pc : ℕ} {addend : ℤ} {bytes : List UInt8}
    (h : Prescribed val addend pc bytes relType) : relType ≠ 0 := by
  rintro rfl
  cases h

lemma turn_written {val val' : ℕ} {bytes : List UInt8} (hsym : c.syms[(relaAt c sec r).symIdx]? = some sym)
    (hlt : sym.stShndx < shCount c.m) (hval' : symbolValue c sym = some val') (habs : val ≡ val' [MOD 2 ^ 64] ↔ AbsAtZero c sym)
    (hbytes : Prescribed val (signed (relaAt c sec r).rAddend) (patchVa c sec r) bytes (relaAt c sec r).relType)
    (hfit : wsub (patchVa c sec r) c.loadAddr + bytes.length ≤ size) :
    Turn c size (relaOff (sectionAt c.m sec) r + relaSize ≤ len c.m) (entryAt sec r)
      [.read (relaOff (sectionAt c.m sec) r) relaSize, .patch sec r (wsub (patchVa c sec r) c.loadAddr) bytes] := by
  refine ⟨by simp [ModuleAccess.ReadInside], by simp [ModuleAccess.WriteInside, hfit], by simp +contextual [entryAt], ?_⟩
  rintro sec r ⟨rfl, rfl⟩
  constructor
  · rintro (hz | ⟨sym', v, bytes', hs, hv, hpres, hmem⟩)
    · exact absurd hz hbytes.relType_ne_zero
    · obtain rfl := mem_unique hsym hs
      obtain rfl := mem_unique hval' hv
      obtain rfl : bytes' = bytes := by simpa using hmem
      have hmod : val ≡ val' [MOD 2 ^ 64] := (prescribed_iff hbytes).mp hpres
      refine .inr ⟨sym, hsym, hlt, habs.mp hmod, ?_⟩
      rw [← hbytes.length]
      exact hfit
  · rintro (hz | ⟨sym', hs, -, hzero, -⟩)
    · exact .inl hz
    · obtain rfl := mem_unique hsym hs
      exact .inr ⟨sym, val', bytes, hsym, hval', (prescribed_iff hbytes).mpr (habs.mpr hzero), by simp⟩

include hcount hlen in
lemma returns_relaTurn (h : Returns (relaTurn c sec (sectionAt c.m sec) buf r) buf' turn) :
    buf' = turn.foldl ModuleAccess.apply buf ∧
      Turn c buf.length (relaOff (sectionAt c.m sec) r + relaSize ≤ len c.m) (entryAt sec r) turn := by
  rw [relaTurn, returns_bind] at h
  obtain ⟨u, before, after, hread, hrest, rfl⟩ := h
  obtain rfl := returns_record.mp hread
  rw [← show relaAt c sec r = readRela c.m (relaOff (sectionAt c.m sec) r) from rfl] at hrest
  cases hsym : c.syms[(relaAt c sec r).symIdx]? with
  | none =>
    simp only [hsym, returns_pure] at hrest
    obtain ⟨rfl, rfl⟩ := hrest
    refine ⟨rfl, turn_passed ?_⟩
    rintro hzero (hz | ⟨sym, hs, -⟩)
    · exact hzero hz
    · rw [hsym] at hs
      cases hs
  | some sym =>
    simp only [hsym, returns_bind] at hrest
    obtain ⟨value, logVal, logPatch, hval, hpatch, rfl⟩ := hrest
    cases value with
    | none =>
      obtain ⟨rfl, hbig⟩ := returns_symVal_none hval
      obtain ⟨rfl, rfl⟩ := returns_pure.mp hpatch
      refine ⟨rfl, turn_passed ?_⟩
      rintro hzero (hz | ⟨sym', hs, hlt, -⟩)
      · exact hzero hz
      · obtain rfl := mem_unique hsym hs
        omega
    | some val =>
      obtain ⟨rfl, hlt, val', hval', habs⟩ := returns_symVal_some hcount hlen hval
      rcases returns_applyReloc hpatch with ⟨hzero, rfl, rfl⟩ | ⟨bytes, hbytes, hpatch⟩
      · exact ⟨rfl, turn_passed (fun hne => absurd hzero hne)⟩
      · have hlength : bytes.length = width (relaAt c sec r).relType := hbytes.length
        have hwidth : width (relaAt c sec r).relType ≤ 8 := by
          rw [width]
          split <;> decide
        have hshort : bytes.length < 2 ^ 64 := by omega
        have hdone := returns_patchAt (wsub_lt _ _) hshort hpatch
        split at hdone
        · next hfit =>
          obtain ⟨rfl, rfl⟩ := hdone
          exact ⟨rfl, turn_written hsym hlt hval' habs hbytes hfit⟩
        · next hbig =>
          obtain ⟨rfl, rfl⟩ := hdone
          refine ⟨rfl, turn_passed ?_⟩
          rintro hzero (hz | ⟨sym', -, -, -, hfit⟩)
          · exact hzero hz
          · rw [← hlength] at hfit
            exact hbig hfit

def Relocates (m : ModuleFile) (sec : ℕ) : Prop := (sectionAt m sec).shType = 4 ∧ (sectionAt m sec).shInfo < shCount m

lemma apply_length {w : ModuleAccess} (h : w.WriteInside buf.length) : (w.apply buf).length = buf.length := by
  cases w with
  | read off k => rfl
  | copy off bytes | patch sec r off bytes =>
    rw [ModuleAccess.WriteInside] at h
    simp only [ModuleAccess.apply, length_append, length_take, length_drop]
    omega

lemma replay_length (h : ∀ w ∈ turn, w.WriteInside buf.length) : (turn.foldl ModuleAccess.apply buf).length = buf.length := by
  induction turn generalizing buf with
  | nil => rfl
  | cons w turn ih =>
    have hfirst := apply_length (h w mem_cons_self)
    rw [foldl_cons, ih (fun w' hw' => hfirst ▸ h w' (mem_cons_of_mem _ hw')), hfirst]

/-- A loop over the image: what it writes makes up the image, and its record is made of those of its turns. -/
theorem foldlM_image {σ ι : Type} {l : List ι} {body : σ → ι → Relocated σ} {s s' : σ} (image : σ → List UInt8)
    {ins : ι → Prop} {who : ι → ℕ → ℕ → Prop} (h : Returns (l.foldlM body s) s' log)
    (hbody : ∀ i t t' turn, Returns (body t i) t' turn →
      image t' = turn.foldl ModuleAccess.apply (image t) ∧ Turn c (image t).length (ins i) (who i) turn)
    (hdisj : ∀ i j sec r, who i sec r → who j sec r → i = j) : image s' = log.foldl ModuleAccess.apply (image s) ∧
      Turn c (image s).length (∀ i ∈ l, ins i) (fun sec r => ∃ i ∈ l, who i sec r) log := by
  refine ⟨foldlM_replay image (fun i _ t t' turn ht => (hbody i t t' turn ht).1) h, turn_of_made ?_ hdisj⟩
  refine (foldlM_made (fun t => (image t).length = (image s).length) rfl ?_ h).2
  intro i _ t t' turn hlength ht
  obtain ⟨hreplay, hturn⟩ := hbody i t t' turn ht
  refine ⟨?_, hlength ▸ hturn⟩
  rw [hreplay, replay_length hturn.writes, hlength]

lemma len_lt (m : ModuleFile) : len m < 2 ^ 63 := m.data.property

lemma headers_inside_iff (m : ModuleFile) :
    (∀ i < shCount m, shdrOff m i + shdrSize ≤ len m) ↔ TableInside (shOff m) (shCount m) shdrSize (len m) :=
  tableInside_iff (field_lt m _ 8) (len_lt m)

lemma shOffset_lt (m : ModuleFile) (i : ℕ) : (sectionAt m i).shOffset < 2 ^ 64 := field_lt m _ 8

def EntriesInside (m : ModuleFile) (sec : ℕ) : Prop :=
  TableInside (sectionAt m sec).shOffset ((sectionAt m sec).shSize / relaSize) relaSize (len m)

def entriesOf (m : ModuleFile) (sec sec' r : ℕ) : Prop :=
  sec' = sec ∧ Relocates m sec ∧ r < (sectionAt m sec).shSize / relaSize

include hcount hlen in
lemma returns_relaEntries (hrel : Relocates c.m sec)
    (h : Returns ((List.range ((sectionAt c.m sec).shSize / relaSize)).foldlM (relaTurn c sec (sectionAt c.m sec)) buf) buf' turn) :
    buf' = turn.foldl ModuleAccess.apply buf ∧ Turn c buf.length (EntriesInside c.m sec) (entriesOf c.m sec) turn := by
  obtain ⟨hreplay, hturn⟩ := foldlM_image id h (fun _ _ _ _ => returns_relaTurn hcount hlen)
    (fun _ _ _ _ hi hj => hi.2.symm.trans hj.2)
  refine ⟨hreplay, hturn.congr ?_ (fun sec' r => ?_)⟩
  · rw [EntriesInside, ← tableInside_iff (shOffset_lt c.m sec) (len_lt c.m)]
    simp only [mem_range]
    exact Iff.rfl
  · simp [entriesOf, entryAt, hrel]
    tauto

include hcount hlen in
lemma returns_relaSection (h : Returns (relaSection c buf sec) buf' turn) : buf' = turn.foldl ModuleAccess.apply buf ∧
      Turn c buf.length (shdrOff c.m sec + shdrSize ≤ len c.m ∧ (Relocates c.m sec → EntriesInside c.m sec))
        (entriesOf c.m sec) turn := by
  rw [relaSection, returns_bind] at h
  obtain ⟨shdr, before, after, hshdr, hrest, rfl⟩ := h
  obtain ⟨-, rfl, rfl⟩ := returns_shdrAt.mp hshdr
  suffices hafter : buf' = after.foldl ModuleAccess.apply buf ∧
      Turn c buf.length (Relocates c.m sec → EntriesInside c.m sec) (entriesOf c.m sec) after from
    ⟨hafter.1, (turn_read _ _ _ _).append hafter.2⟩
  by_cases hrel : Relocates c.m sec
  · rw [if_neg (not_not_intro hrel.1), if_neg (not_le.mpr hrel.2)] at hrest
    rw [imp_iff_right hrel]
    exact returns_relaEntries hcount hlen hrel hrest
  · have hpassed : buf' = buf ∧ after = [] := by
      split at hrest
      · exact returns_pure.mp hrest
      · next htype =>
        split at hrest
        · exact returns_pure.mp hrest
        · next hinfo => exact absurd ⟨not_not.mp htype, not_le.mp hinfo⟩ hrel
    obtain ⟨rfl, rfl⟩ := hpassed
    exact ⟨rfl, turn_nil.congr (iff_of_true trivial (fun h' => absurd h' hrel))
      (fun sec' r => iff_of_false id (fun h' => hrel h'.2.1))⟩

include hcount hlen in
lemma returns_relaSections (h : Returns ((List.range (shCount c.m)).foldlM (relaSection c) buf) buf' turn) :
    buf' = turn.foldl ModuleAccess.apply buf ∧
      Turn c buf.length (∀ sec ∈ List.range (shCount c.m), shdrOff c.m sec + shdrSize ≤ len c.m ∧
        (Relocates c.m sec → EntriesInside c.m sec)) (fun sec' r => ∃ sec ∈ List.range (shCount c.m), entriesOf c.m sec sec' r) turn :=
  foldlM_image id h (fun _ _ _ _ => returns_relaSection hcount hlen) (fun _ _ _ _ hi hj => hi.1.symm.trans hj.1)

end Linked

lemma shSize_lt (m : ModuleFile) (i : ℕ) : (sectionAt m i).shSize < 2 ^ 64 := field_lt m _ 8

lemma returns_copySection {cursor : ℕ} (hoff : shdr.shOffset < 2 ^ 64) (hsize : shdr.shSize < 2 ^ 64)
    (h : Returns (copySection c.m loadAddr shdr cursor buf) buf' turn) :
    buf' = turn.foldl ModuleAccess.apply buf ∧ Turn c buf.length True noEntry turn := by
  have hbuf := wsub_lt cursor loadAddr
  simp only [copySection, returns_ite, returns_bind, returns_pure, returns_sliceOf, returns_copyTo] at h
  rcases h with ⟨-, hcopy | ⟨-, rfl, rfl⟩⟩ | ⟨-, rfl, rfl⟩
  · obtain ⟨-, bytes, before, after, ⟨hslice, hbytes, rfl⟩, ⟨hrange, rfl, rfl⟩, rfl⟩ := hcopy
    have hstart : (shdr.shOffset + shdr.shSize) % 2 ^ 64 = shdr.shOffset + shdr.shSize := by omega
    have hplace : (wsub cursor loadAddr + shdr.shSize) % 2 ^ 64 = wsub cursor loadAddr + shdr.shSize := by omega
    rw [hstart] at hslice hbytes ⊢
    rw [hplace] at hrange ⊢
    have hlength : bytes.length = shdr.shSize := by
      rw [hbytes, length_drop, length_take, min_eq_left (show _ ≤ c.m.data.val.length from hslice.2), Nat.add_sub_cancel_left]
    rw [← hlength] at hslice hrange ⊢
    refine ⟨rfl, ?_, ?_, by simp, fun _ _ => False.elim⟩
    · simp only [cons_append, nil_append, forall_mem_cons, ModuleAccess.ReadInside, iff_true]
      exact ⟨by omega, trivial, by simp⟩
    · simp only [cons_append, nil_append, forall_mem_cons, ModuleAccess.WriteInside]
      exact ⟨trivial, hrange.2, by simp⟩
  · exact ⟨rfl, turn_nil⟩
  · exact ⟨rfl, turn_nil⟩

lemma returns_layoutTurn {s s' : Layout} {i : ℕ} (h : Returns (layoutTurn c.m loadAddr s i) s' turn) :
    (s'.sectionAddrs, s'.cursor) = place (s.sectionAddrs, s.cursor) (sectionAt c.m i) ∧
      s'.buf = turn.foldl ModuleAccess.apply s.buf ∧ Turn c s.buf.length (shdrOff c.m i + shdrSize ≤ len c.m) noEntry turn := by
  rw [layoutTurn, returns_bind] at h
  obtain ⟨shdr, before, after, hshdr, hrest, rfl⟩ := h
  obtain ⟨-, hsec, rfl⟩ := returns_shdrAt.mp hshdr
  have hheader := turn_read c s.buf.length (shdrOff c.m i) shdrSize
  have hoff : shdr.shOffset < 2 ^ 64 := hsec ▸ shOffset_lt c.m i
  have hsize : shdr.shSize < 2 ^ 64 := hsec ▸ shSize_lt c.m i
  rw [← hsec]
  simp only [returns_ite, returns_bind, returns_pure] at hrest
  rcases hrest with ⟨htype, rfl, rfl⟩ | ⟨htype, ⟨hpos, buf', before, after', hcopy, ⟨rfl, rfl⟩, rfl⟩ | ⟨hzero, rfl, rfl⟩⟩
  · exact ⟨(if_pos (by tauto)).symm, rfl, hheader⟩
  · obtain ⟨hreplay, hload⟩ := returns_copySection hoff hsize hcopy
    rw [append_nil]
    exact ⟨(if_neg (by omega)).symm, hreplay, (hheader.append hload).congr (iff_of_eq (and_true _)) (fun _ _ => Iff.rfl)⟩
  · exact ⟨(if_pos (by omega)).symm, rfl, hheader⟩

lemma returns_layout {s' : Layout}
    (h : Returns ((List.range (shCount c.m)).foldlM (layoutTurn c.m loadAddr) ⟨[], loadAddr, buf⟩) s' turn) :
    s'.sectionAddrs = placements c.m loadAddr ∧ s'.buf = turn.foldl ModuleAccess.apply buf ∧
      Turn c buf.length (TableInside (shOff c.m) (shCount c.m) shdrSize (len c.m)) noEntry turn := by
  have hplaces := foldlM_part (fun s : Layout => (s.sectionAddrs, s.cursor)) (g := fun s i => place s (sectionAt c.m i))
    (fun i _ s s' turn hs => (returns_layoutTurn hs).1) h
  obtain ⟨hreplay, hturn⟩ := foldlM_image Layout.buf h (fun i t t' turn ht => (returns_layoutTurn ht).2)
    (fun _ _ _ _ => False.elim)
  refine ⟨congrArg Prod.fst hplaces, hreplay, hturn.congr ?_ (fun sec r => ?_)⟩
  · rw [← headers_inside_iff]
    simp only [mem_range]
  · simp [noEntry]

def ReadsOnly (turn : List ModuleAccess) : Prop := ∀ w ∈ turn, ∃ off k, w = .read off k

lemma readsOnly_nil : ReadsOnly [] := by simp [ReadsOnly]

lemma readsOnly_read (off k : ℕ) : ReadsOnly [.read off k] := by simp [ReadsOnly]

lemma ReadsOnly.append {turn' : List ModuleAccess} (h : ReadsOnly turn) (h' : ReadsOnly turn') : ReadsOnly (turn ++ turn') :=
  forall_mem_append.mpr ⟨h, h'⟩

lemma ReadsOnly.toTurn {p : Prop} (h : ReadsOnly turn) (hp : (∀ w ∈ turn, w.ReadInside (len c.m)) ↔ p) :
    Turn c size p noEntry turn := by
  refine ⟨hp, ?_, ?_, fun _ _ => False.elim⟩
  · intro w hw
    obtain ⟨off, k, rfl⟩ := h w hw
    trivial
  · intro sec r off bytes hw
    obtain ⟨off', k, heq⟩ := h _ hw
    cases heq

lemma ReadsOnly.replay (h : ReadsOnly turn) : turn.foldl ModuleAccess.apply buf = buf := by
  induction turn with
  | nil => rfl
  | cons w turn ih =>
    obtain ⟨off, k, rfl⟩ := h w mem_cons_self
    exact ih (fun w' hw' => h w' (mem_cons_of_mem _ hw'))

lemma returns_symtabLoop {l : List ℕ} (h : Returns (symtabLoop m l) shdr turn) : (∃ i ∈ l, shdr = sectionAt m i) ∧
    ReadsOnly turn ∧ ((∀ i ∈ l, shdrOff m i + shdrSize ≤ len m) → ∀ w ∈ turn, w.ReadInside (len m)) := by
  induction l generalizing turn with
  | nil => exact absurd h not_returns_stop
  | cons i l ih =>
    rw [symtabLoop, returns_bind] at h
    obtain ⟨sh, before, after, hsh, hrest, rfl⟩ := h
    obtain ⟨-, rfl, rfl⟩ := returns_shdrAt.mp hsh
    have hheader := readsOnly_read (shdrOff m i) shdrSize
    rcases returns_ite.mp hrest with ⟨-, hfound⟩ | ⟨-, hrest⟩
    · obtain ⟨rfl, rfl⟩ := returns_pure.mp hfound
      exact ⟨⟨i, mem_cons_self, rfl⟩, hheader, fun hin => forall_mem_singleton.mpr (hin i mem_cons_self)⟩
    · obtain ⟨⟨j, hj, rfl⟩, hloads, hreads⟩ := ih hrest
      refine ⟨⟨j, mem_cons_of_mem _ hj, rfl⟩, hheader.append hloads, ?_⟩
      rw [forall_mem_cons]
      exact fun hin => forall_mem_append.mpr ⟨forall_mem_singleton.mpr hin.1, hreads hin.2⟩

/-- The name table may be any header behind the start of the section table, but not one outside of the module. -/
theorem returns_findSymtab {tables : Shdr × Shdr} (h : Returns (findSymtab m) tables turn) :
    0 < shCount m ∧ (∃ i, tables.1 = sectionAt m i) ∧ ReadsOnly turn ∧
      (TableInside (shOff m) (shCount m) shdrSize (len m) → ∀ w ∈ turn, w.ReadInside (len m)) := by
  simp only [findSymtab, returns_bind, returns_mapStop, returns_pure, returns_shdrAt] at h
  obtain ⟨symtab, before, after, hsymtab, ⟨strtab, before', after', ⟨hlink, rfl, rfl⟩, ⟨rfl, rfl⟩, rfl⟩, rfl⟩ := h
  obtain ⟨⟨i, hi, rfl⟩, hloads, hreads⟩ := returns_symtabLoop hsymtab
  have hcount : 0 < shCount m := zero_lt_of_lt (mem_range.mp hi)
  refine ⟨hcount, ⟨i, rfl⟩, hloads.append ((readsOnly_read _ _).append readsOnly_nil), ?_⟩
  intro htable
  have hlen := len_lt m
  have hlink32 : (sectionAt m i).shLink < 2 ^ 32 := field_lt m _ 4
  have hstart : shOff m ≤ len m := by
    rcases htable with h | h
    · omega
    · exact (le_add_right _ _).trans h
  have hinside : shdrOff m (sectionAt m i).shLink + shdrSize ≤ len m := by
    simp only [shdrOff, shdrSize] at hlink ⊢
    omega
  rw [← headers_inside_iff] at htable
  refine forall_mem_append.mpr ⟨hreads (fun j hj => htable j (mem_range.mp hj)), ?_⟩
  rw [append_nil]
  exact forall_mem_singleton.mpr hinside

section SymbolTable

variable {off i n : ℕ} {syms : List Sym}

lemma returns_symbolLoop_succ (h : Returns (symbolLoop m off (n + 1) i) syms turn) :
    (len m < ((off + i * symSize) % 2 ^ 64 + symSize) % 2 ^ 64 ∧ turn = []) ∨
      (((off + i * symSize) % 2 ^ 64 + symSize) % 2 ^ 64 ≤ len m ∧ ∃ rest after,
        Returns (symbolLoop m off n (i + 1)) rest after ∧ turn = [.read ((off + i * symSize) % 2 ^ 64) symSize] ++ after) := by
  simp only [symbolLoop, returns_ite, returns_bind, returns_pure, returns_record, not_lt] at h
  rcases h with ⟨hout, -, rfl⟩ | ⟨hin, u, before, after, rfl, ⟨rest, before', after', hrest, ⟨-, rfl⟩, rfl⟩, rfl⟩
  · exact .inl ⟨hout, rfl⟩
  · rw [append_nil]
    exact .inr ⟨hin, rest, before', hrest, rfl⟩

lemma readsOnly_symbolLoop (h : Returns (symbolLoop m off n i) syms turn) : ReadsOnly turn := by
  induction n generalizing i syms turn with
  | zero =>
    obtain ⟨-, rfl⟩ := returns_pure.mp h
    exact readsOnly_nil
  | succ n ih =>
    rcases returns_symbolLoop_succ h with ⟨-, rfl⟩ | ⟨-, rest, after, hrest, rfl⟩
    · exact readsOnly_nil
    · exact (readsOnly_read _ _).append (ih hrest)

lemma symbolLoop_inside (hfirst : off + i * symSize + symSize < 2 ^ 64) (h : Returns (symbolLoop m off n i) syms turn) :
    ∀ w ∈ turn, w.ReadInside (len m) := by
  induction n generalizing i syms turn with
  | zero =>
    obtain ⟨-, rfl⟩ := returns_pure.mp h
    simp
  | succ n ih =>
    rcases returns_symbolLoop_succ h with ⟨-, rfl⟩ | ⟨hin, rest, after, hrest, rfl⟩
    · simp
    · have hlen := len_lt m
      have hwrap : (off + i * symSize) % 2 ^ 64 = off + i * symSize := mod_eq_of_lt (by omega)
      rw [hwrap, mod_eq_of_lt hfirst] at hin
      rw [hwrap]
      refine forall_mem_append.mpr ⟨forall_mem_singleton.mpr hin, ih ?_ hrest⟩
      rw [succ_mul]
      simp only [symSize] at hin ⊢
      omega

end SymbolTable

/-- Only the end of the first symbol can wrap unseen. -/
theorem returns_readSymbols {syms : List Sym} (hheader : Elf.ehdrSize ≤ len m) (hoff : shdr.shOffset < 2 ^ 64)
    (h : Returns (readSymbols m shdr) syms turn) : ReadsOnly turn ∧
      ((∀ w ∈ turn, w.ReadInside (len m)) ↔ shdr.shSize / symSize = 0 ∨ shdr.shOffset + symSize < 2 ^ 64) := by
  simp only [readSymbols, returns_ite, not_returns_stop, and_false, false_or] at h
  obtain ⟨-, h⟩ := h
  refine ⟨readsOnly_symbolLoop h, fun hin => ?_, ?_⟩
  · by_contra hnot
    obtain ⟨hcount, hwrap⟩ := not_or.mp hnot
    obtain ⟨n, hn⟩ := exists_eq_succ_of_ne_zero hcount
    have hlen := len_lt m
    simp only [symSize, Elf.ehdrSize] at hwrap hheader
    rw [hn] at h
    rcases returns_symbolLoop_succ h with ⟨hout, -⟩ | ⟨-, rest, after, -, rfl⟩
    · simp only [symSize] at hout
      omega
    · have hfirst := hin _ (mem_append_left _ mem_cons_self)
      simp only [symSize, ModuleAccess.ReadInside] at hfirst
      omega
  · rintro (hcount | hfirst)
    · rw [hcount] at h
      obtain ⟨-, rfl⟩ := returns_pure.mp h
      simp
    · exact symbolLoop_inside (by omega) h

lemma returns_findStrtab {strtab : List UInt8} (h : Returns (findStrtab m shdr) strtab turn) :
    ReadsOnly turn ∧ ∀ w ∈ turn, w.ReadInside (len m) := by
  simp only [findStrtab, returns_ite, returns_sliceOf, returns_pure] at h
  rcases h with ⟨-, hrange, -, rfl⟩ | ⟨-, -, rfl⟩
  · refine ⟨readsOnly_read _ _, forall_mem_singleton.mpr ?_⟩
    rw [ModuleAccess.ReadInside]
    omega
  · exact ⟨readsOnly_nil, by simp⟩

lemma placements_length (m : ModuleFile) (loadAddr : ℕ) : (placements m loadAddr).length = shCount m := by
  have hplace : ∀ (l : List ℕ) (s : List ℕ × ℕ), (l.foldl (fun s i => place s (sectionAt m i)) s).1.length = s.1.length + l.length := by
    intro l
    induction l with
    | nil => exact fun s => rfl
    | cons i l ih =>
      intro s
      have hone : (place s (sectionAt m i)).1.length = s.1.length + 1 := by
        rw [place]
        split <;> exact length_append
      rw [foldl_cons, ih, hone, length_cons]
      omega
  rw [placements, hplace, length_range]
  exact zero_add _

lemma linking_file (h : linking m exportAddr loadAddr = some c) : c.m = m := by
  simp only [linking, bind_eq_bind, bind_eq_some_iff] at h
  obtain ⟨tables, -, syms, -, names, -, hc⟩ := h
  obtain rfl := Option.some.inj hc
  rfl

/-- The reads that lie in the module exactly if its tables do. -/
def TablesInside (m : ModuleFile) : Prop :=
  (TableInside (shOff m) (shCount m) shdrSize (len m) ∧ ∀ tables, (findSymtab m).value = some tables →
    tables.1.shSize / symSize = 0 ∨ tables.1.shOffset + symSize < 2 ^ 64) ∧
  ∀ sec ∈ List.range (shCount m), shdrOff m sec + shdrSize ≤ len m ∧ (Relocates m sec → EntriesInside m sec)

lemma returns_relocateModule {image : ByteSlice} {result : ℕ × List UInt8}
    (h : Returns (relocateModule m exportAddr image loadAddr) result log) :
    ∃ c, linking m exportAddr loadAddr = some c ∧ c.m = m ∧ result.2 = log.foldl ModuleAccess.apply image.val ∧
      Turn c image.val.length (TablesInside c.m)
        (fun sec' r => ∃ sec ∈ List.range (shCount c.m), entriesOf c.m sec sec' r) log := by
  rw [relocateModule] at h
  rcases returns_ite.mp h with ⟨-, hstop⟩ | ⟨hheader, hrest⟩
  · exact absurd hstop not_returns_stop
  obtain ⟨u, log₀, rest, hrecord, hrest₀, rfl⟩ := returns_bind.mp hrest
  obtain rfl := returns_record.mp hrecord
  rcases returns_ite.mp hrest₀ with ⟨-, hstop⟩ | ⟨-, hrest₁⟩
  · exact absurd hstop not_returns_stop
  rcases returns_ite.mp hrest₁ with ⟨-, hstop⟩ | ⟨-, hrest₂⟩
  · exact absurd hstop not_returns_stop
  obtain ⟨layout, log₁, rest₁, hlayout, hrest₃, rfl⟩ := returns_bind.mp hrest₂
  obtain ⟨⟨symtab, strtab⟩, log₂, rest₂, htables, hrest₄, rfl⟩ := returns_bind.mp hrest₃
  obtain ⟨syms, log₃, rest₃, hsyms, hrest₅, rfl⟩ := returns_bind.mp hrest₄
  obtain ⟨names, log₄, rest₄, hnames, hrest₆, rfl⟩ := returns_bind.mp hrest₅
  obtain ⟨done, turn, rest₅, hlink, hrest₇, rfl⟩ := returns_bind.mp hrest₆
  obtain ⟨rfl, rfl⟩ := returns_pure.mp hrest₇
  generalize hc : (⟨m, exportAddr, loadAddr, layout.sectionAddrs, syms, names⟩ : Linking) = c at hlink
  obtain rfl : c.m = m := hc ▸ rfl
  obtain ⟨hplaces, hbuf, hfront₁⟩ := returns_layout hlayout
  obtain ⟨hcount, ⟨i, hi⟩, honly₂, hreads₂⟩ := returns_findSymtab htables
  have hoff : symtab.shOffset < 2 ^ 64 := by
    rw [show symtab = _ from hi]
    exact shOffset_lt c.m i
  obtain ⟨honly₃, hreads₃⟩ := returns_readSymbols (not_lt.mp hheader) hoff hsyms
  obtain ⟨honly₄, hreads₄⟩ := returns_findStrtab hnames
  have hlen : c.sectionAddrs.length = shCount c.m := by
    rw [← hc, hplaces, placements_length]
  obtain ⟨hdone, hturn⟩ := returns_relaSections hcount hlen hlink
  rw [hbuf, replay_length hfront₁.writes] at hturn
  refine ⟨c, ?_, rfl, ?_, ?_⟩
  · rw [linking, htables.value, ← hplaces]
    simp only [bind_eq_bind, bind_some, hsyms.value, hnames.value]
    exact congrArg some hc
  · simp only [foldl_append, (readsOnly_read _ _).replay, honly₂.replay, honly₃.replay, honly₄.replay, ← hbuf, foldl_nil]
    exact hdone
  · have hlog := (turn_read c image.val.length 0 Elf.ehdrSize).append (hfront₁.append ((honly₂.toTurn Iff.rfl).append
      ((honly₃.toTurn hreads₃).append ((honly₄.toTurn (iff_of_true hreads₄ trivial)).append hturn))))
    rw [append_nil]
    refine hlog.congr ?_ (fun _ _ => Iff.rfl)
    rw [TablesInside, htables.value]
    simp only [Option.some.injEq, forall_eq', zero_add, not_lt.mp hheader]
    tauto

/-- A module that is reported as relocated is relocated as the standard says, without a read or a write outside, exactly if
its tables lie in it and the entries for allocated sections have their symbols and places. -/
theorem relocateModule_sound_iff (m : ModuleFile) (exportAddr : String → ℕ) (image : ByteSlice) (loadAddr : ℕ)
    (alloc : Shdr → Bool) {result : ℕ × List UInt8} {log : List ModuleAccess}
    (h : Returns (relocateModule m exportAddr image loadAddr) result log) : ∃ c, linking m exportAddr loadAddr = some c ∧
      (Sound alloc c image.val.length log ↔ Relocatable alloc c image.val.length) := by
  obtain ⟨c, hc, rfl, -, hturn⟩ := returns_relocateModule h
  have happlied : ∀ sec r, IsEntry alloc c.m sec r → (Applied c sec r log ↔ Linkable c image.val.length sec r) := by
    intro sec r hentry
    exact hturn.applied sec r ⟨sec, mem_range.mpr hentry.section_lt, rfl, ⟨hentry.rela, hentry.target_lt⟩, hentry.entry_lt⟩
  refine ⟨c, hc, ?_, ?_⟩
  · rintro ⟨hreads, -, hentries⟩
    obtain ⟨⟨htable, hsymtab⟩, hrelas⟩ := hturn.reads.mp hreads
    exact ⟨htable, hsymtab, fun sec hsec htype hinfo => (hrelas sec (mem_range.mpr hsec)).2 ⟨htype, hinfo⟩,
      fun sec r hentry => (happlied sec r hentry).mp (hentries sec r hentry)⟩
  · rintro ⟨htable, hsymtab, hrelas, hentries⟩
    have hheaders := (headers_inside_iff c.m).mpr htable
    refine ⟨hturn.reads.mpr ⟨⟨htable, hsymtab⟩, fun sec hsec => ?_⟩, hturn.writes,
      fun sec r hentry => (happlied sec r hentry).mpr (hentries sec r hentry)⟩
    rw [mem_range] at hsec
    exact ⟨hheaders sec hsec, fun hrel => hrelas sec hsec hrel.1 hrel.2⟩

section Sample

def ehdrBytes (shnum : ℕ) : List UInt8 :=
  [Elf.elfMag, toLe 12 0, toLe 2 1, toLe 22 0, toLe 8 64, toLe 12 0, toLe 2 shnum, toLe 2 0].flatten

def shdrBytes (shType shFlags shOffset shSize shLink shInfo : ℕ) : List UInt8 :=
  [toLe 4 0, toLe 4 shType, toLe 8 shFlags, toLe 8 0, toLe 8 shOffset, toLe 8 shSize, toLe 4 shLink, toLe 4 shInfo, toLe 8 1,
    toLe 8 0].flatten

/-- Eight bytes of code, the null symbol and one in section `shndx`, and an entry for it at the start of the code. -/
def oneEntry (shndx relaOffset : ℕ) : List UInt8 :=
  [ehdrBytes 4, shdrBytes 0 0 0 0 0 0, shdrBytes 1 2 320 8 0 0, shdrBytes 2 0 328 48 0 0, shdrBytes 4 0 relaOffset 24 2 1,
    toLe 8 0, toLe 24 0, toLe 6 0, toLe 2 shndx, toLe 8 5, toLe 8 0, toLe 8 0, toLe 8 (2 ^ 32 + 1), toLe 8 7].flatten

lemma oneEntry_length (shndx relaOffset : ℕ) : (oneEntry shndx relaOffset).length = 400 := by
  simp [oneEntry, ehdrBytes, shdrBytes, toLe_length, Elf.elfMag]

def oneEntryFile (shndx relaOffset : ℕ) : ModuleFile :=
  ⟨⟨oneEntry shndx relaOffset, by rw [oneEntry_length]; decide⟩, fun _ => 0xFF⟩

def emptyImage : ByteSlice := ⟨List.replicate 16 0, by decide⟩

def isAlloc (shdr : Shdr) : Bool := shdr.shFlags / 2 % 2 == 1

def recorded (x : Relocated (ℕ × List UInt8)) (ask : List ModuleAccess → Bool) : Bool :=
  match x with
  | .ok (_, log) => ask log
  | .error _ => false

lemma returns_of_recorded {x : Relocated (ℕ × List UInt8)} {ask : List ModuleAccess → Bool} (h : recorded x ask = true) :
    ∃ result log, Returns x result log ∧ ask log = true := by
  cases x with
  | error e => cases h
  | ok y => exact ⟨y.1, y.2, rfl, h⟩

/-- An entry for an absolute symbol is passed over, and entries behind the end of the module are read. -/
theorem entries_are_skipped_and_read_outside :
    (∃ result log c, Returns (relocateModule (oneEntryFile shnAbs 376) (fun _ => 0) emptyImage 4096) result log ∧
      linking (oneEntryFile shnAbs 376) (fun _ => 0) 4096 = some c ∧ ¬ Sound isAlloc c 16 log) ∧
    ∃ result log c, Returns (relocateModule (oneEntryFile 1 400) (fun _ => 0) emptyImage 4096) result log ∧
      linking (oneEntryFile 1 400) (fun _ => 0) 4096 = some c ∧ ¬ Sound isAlloc c 16 log := by
  constructor
  · obtain ⟨result, log, hrun, hlog⟩ : ∃ result log, Returns (relocateModule (oneEntryFile shnAbs 376) (fun _ => 0) emptyImage 4096)
        result log ∧ log.all (fun w => !(w matches .patch _ _ _ _)) = true := returns_of_recorded (by decide +kernel)
    obtain ⟨c, hc, hm, -⟩ := returns_relocateModule hrun
    refine ⟨result, log, c, hrun, hc, fun hsound => ?_⟩
    have hentry : IsEntry isAlloc (oneEntryFile shnAbs 376) 3 0 := by
      constructor <;> decide +kernel
    rcases hsound.applied 3 0 (hm ▸ hentry) with hzero | ⟨sym, val, bytes, -, -, -, hmem⟩
    · rw [relaAt, hm] at hzero
      exact absurd hzero (by decide +kernel)
    · exact absurd (all_eq_true.mp hlog _ hmem) Bool.false_ne_true
  · obtain ⟨result, log, hrun, hlog⟩ : ∃ result log, Returns (relocateModule (oneEntryFile 1 400) (fun _ => 0) emptyImage 4096)
        result log ∧ log.contains (.read 400 24) = true := returns_of_recorded (by decide +kernel)
    obtain ⟨c, hc, hm, -⟩ := returns_relocateModule hrun
    refine ⟨result, log, c, hrun, hc, fun hsound => ?_⟩
    have hread : 424 ≤ len c.m := hsound.reads _ (contains_iff_mem.mp hlog)
    have hlen : len c.m = 400 := by
      rw [hm]
      exact oneEntry_length 1 400
    omega

theorem relocateModule_sound_one : ∃ result log c, Returns (relocateModule (oneEntryFile 1 376) (fun _ => 0) emptyImage 4096) result log ∧
    linking (oneEntryFile 1 376) (fun _ => 0) 4096 = some c ∧ Sound isAlloc c 16 log := by
  obtain ⟨result, log, hrun, -⟩ : ∃ result log, Returns (relocateModule (oneEntryFile 1 376) (fun _ => 0) emptyImage 4096)
      result log ∧ !log.isEmpty = true := returns_of_recorded (by decide +kernel)
  obtain ⟨c, hc, hiff⟩ := relocateModule_sound_iff _ _ _ _ isAlloc hrun
  have hm : c.m = oneEntryFile 1 376 := linking_file hc
  have hparts : (linking (oneEntryFile 1 376) (fun _ => 0) 4096).map (fun c => (c.syms, c.sectionAddrs, c.loadAddr)) =
      some ([⟨0, 0, 0⟩, ⟨0, 1, 5⟩], [4096, 4096, 4104, 4152], 4096) := by decide +kernel
  rw [hc, map_some, Option.some.injEq, Prod.mk.injEq, Prod.mk.injEq] at hparts
  obtain ⟨hsyms, haddrs, hload⟩ := hparts
  have hcount : shCount (oneEntryFile 1 376) = 4 := by decide +kernel
  have hthird : ∀ sec < 4, (sectionAt (oneEntryFile 1 376) sec).shType = 4 → sec = 3 := by decide +kernel
  refine ⟨result, log, c, hrun, hc, hiff.mpr ⟨?_, ?_, ?_, ?_⟩⟩
  · rw [hm]
    exact .inr (by decide +kernel)
  · rw [hm]
    intro tables htables
    have hsymtab : (findSymtab (oneEntryFile 1 376)).value.map (fun tables => tables.1.shOffset) = some 328 := by decide +kernel
    rw [htables, map_some, Option.some.injEq] at hsymtab
    rw [hsymtab]
    exact .inr (by decide)
  · intro sec hsec htype _
    rw [hm] at hsec htype ⊢
    obtain rfl := hthird sec (hcount ▸ hsec) htype
    exact .inr (by decide +kernel)
  · rintro sec r ⟨hsec, htype, -, -, hr⟩
    rw [hm] at hsec htype hr
    obtain rfl := hthird sec (hcount ▸ hsec) htype
    have hsize : (sectionAt (oneEntryFile 1 376) 3).shSize / relaSize = 1 := by decide +kernel
    obtain rfl : r = 0 := by omega
    have hrela : readRela (oneEntryFile 1 376) (relaOff (sectionAt (oneEntryFile 1 376) 3) 0) = ⟨0, 2 ^ 32 + 1, 7⟩ := by
      decide +kernel
    have hinfo : (sectionAt (oneEntryFile 1 376) 3).shInfo = 1 := by decide +kernel
    refine .inr ⟨⟨0, 1, 5⟩, ?_, ?_, nofun, ?_⟩
    · rw [relaAt, hm, hrela, hsyms]
      rfl
    · rw [hm, hcount]
      decide
    · rw [patchVa, relaAt, hm, hrela, hinfo, haddrs, hload]
      decide

end Sample

end Relocation
end NodeKernel
