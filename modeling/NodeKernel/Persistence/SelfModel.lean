import NodeKernel.Lib.Bytes
import NodeKernel.Lib.Text

/-!
# The self-model on disk

56 bytes of fixed fields and two names with a length of one byte each. The decoder wants 64 bytes, but a model without
names, or with short ones, has fewer. Floats are their bits.
-/
namespace NodeKernel

open Option

structure SelfModel where
  uuid : Vector UInt8 16
  bootNumber : UInt64
  totalExistenceMs : UInt64
  currentPhi : UInt32
  peakPhi : UInt32
  totalQualia : UInt64
  arousal : UInt32
  coherence : UInt32
  name : Option String
  creatorName : Option String
  deriving DecidableEq

namespace SelfModel

def nameBytes : Option String → List UInt8
  | some n => 1 :: UInt8.ofNat (utf8 n).length :: utf8 n
  | none => [0]

def fixedBytes (m : SelfModel) : List UInt8 :=
  m.uuid.toList ++ (toLe 8 m.bootNumber.toNat ++ (toLe 8 m.totalExistenceMs.toNat ++ (toLe 4 m.currentPhi.toNat ++
    (toLe 4 m.peakPhi.toNat ++ (toLe 8 m.totalQualia.toNat ++ (toLe 4 m.arousal.toNat ++ toLe 4 m.coherence.toNat))))))

def serialize (m : SelfModel) : List UInt8 := m.fixedBytes ++ (nameBytes m.name ++ nameBytes m.creatorName)

def readName (data : List UInt8) (off : ℕ) : Option (Option String × ℕ) :=
  if data[off]? = some 1 then do
    let len ← data[off + 1]?
    if off + 2 + len.toNat ≤ data.length then
      let s ← String.fromUTF8? ((data.drop (off + 2)).take len.toNat).toByteArray
      some (some s, off + 2 + len.toNat)
    else none
  else some (none, off + 1)

def deserialize (data : List UInt8) : Option SelfModel :=
  if data.length < 64 then none
  else do
    let (name, off) ← readName data 56
    let (creatorName, _) ← readName data off
    some ⟨Vector.ofFn (fun i => data.getD i 0), UInt64.ofNat (leAt data 16 8), UInt64.ofNat (leAt data 24 8),
      UInt32.ofNat (leAt data 32 4), UInt32.ofNat (leAt data 36 4), UInt64.ofNat (leAt data 40 8),
      UInt32.ofNat (leAt data 48 4), UInt32.ofNat (leAt data 52 4), name, creatorName⟩

def setName (m : SelfModel) (name : String) : SelfModel := { m with name := some name }

def setCreator (m : SelfModel) (name : String) : SelfModel := { m with creatorName := some name }

def Short (name : Option String) : Prop := ∀ n ∈ name, (utf8 n).length < 256

def nameSize : Option String → ℕ
  | some n => (utf8 n).length + 1
  | none => 0

lemma nameBytes_length (name : Option String) : (nameBytes name).length = nameSize name + 1 := by
  cases name with
  | none => rfl
  | some n => rfl

lemma fixedBytes_length (m : SelfModel) : m.fixedBytes.length = 56 := by
  simp [fixedBytes]

lemma serialize_length (m : SelfModel) : m.serialize.length = 58 + (nameSize m.name + nameSize m.creatorName) := by
  simp only [serialize, List.length_append, fixedBytes_length, nameBytes_length]
  omega

variable {front rest : List UInt8} {off : ℕ}

lemma readName_some (hfront : front.length = off) (n : String) : readName (front ++ (nameBytes (some n) ++ rest)) off =
    (String.fromUTF8? ((utf8 n ++ rest).take ((utf8 n).length % 256)).toByteArray).map
      (fun s => (some s, off + 2 + (utf8 n).length % 256)) := by
  subst hfront
  have hflag : (front ++ (nameBytes (some n) ++ rest))[front.length]? = some 1 := by
    rw [List.getElem?_append_right le_rfl, Nat.sub_self]
    rfl
  have hlen : (front ++ (nameBytes (some n) ++ rest))[front.length + 1]? = some (UInt8.ofNat (utf8 n).length) := by
    rw [List.getElem?_append_right (Nat.le_add_right _ _), Nat.add_sub_cancel_left]
    rfl
  have hdrop : (front ++ (nameBytes (some n) ++ rest)).drop (front.length + 2) = utf8 n ++ rest := by
    rw [← List.drop_drop, List.drop_left]
    rfl
  have hbyte : (UInt8.ofNat (utf8 n).length).toNat = (utf8 n).length % 256 := UInt8.toNat_ofNat'
  have hin : front.length + 2 + (utf8 n).length % 256 ≤ (front ++ (nameBytes (some n) ++ rest)).length := by
    simp only [List.length_append, nameBytes_length, nameSize]
    omega
  rw [readName, if_pos hflag, hlen]
  simp only [bind_eq_bind, bind_some, hbyte, if_pos hin, hdrop]
  exact map_eq_bind.symm

lemma readName_none (hfront : front.length = off) : readName (front ++ (nameBytes none ++ rest)) off = some (none, off + 1) := by
  subst hfront
  have hflag : (front ++ (nameBytes none ++ rest))[front.length]? = some 0 := by
    rw [List.getElem?_append_right le_rfl, Nat.sub_self]
    rfl
  rw [readName, hflag]
  rfl

lemma utf8_of_fromUTF8 {bytes : List UInt8} {s : String} (h : String.fromUTF8? bytes.toByteArray = some s) :
    utf8 s = bytes := by
  rw [String.fromUTF8?] at h
  split at h
  · obtain rfl := Option.some.inj h
    exact congrArg Array.toList List.data_toByteArray
  · cases h

lemma readName_iff (hfront : front.length = off) (name : Option String) :
    (readName (front ++ (nameBytes name ++ rest)) off).map Prod.fst = some name ↔ Short name := by
  cases name with
  | none =>
    rw [readName_none hfront]
    exact iff_of_true rfl nofun
  | some n =>
    rw [readName_some hfront, map_map]
    constructor
    · intro h n' hn'
      obtain rfl := Option.some.inj hn'
      obtain ⟨s, hs, hsn⟩ := Option.map_eq_some_iff.mp h
      obtain rfl : s = n := Option.some.inj hsn
      -- the bytes that were read are as many as the byte says
      have hlen := congrArg List.length (utf8_of_fromUTF8 hs)
      rw [List.length_take] at hlen
      omega
    · intro h
      have hmod : (utf8 n).length % 256 = (utf8 n).length := Nat.mod_eq_of_lt (h n rfl)
      rw [hmod, List.take_left, fromUTF8_utf8]
      rfl

lemma readName_off (hfront : front.length = off) {name : Option String} (h : Short name) :
    readName (front ++ (nameBytes name ++ rest)) off = some (name, off + (nameBytes name).length) := by
  cases name with
  | none => exact readName_none hfront
  | some n =>
    have hmod : (utf8 n).length % 256 = (utf8 n).length := Nat.mod_eq_of_lt (h n rfl)
    have hoff : off + 2 + (utf8 n).length = off + (nameBytes (some n)).length := by
      rw [nameBytes_length, nameSize]
      omega
    rw [readName_some hfront, hmod, List.take_left, fromUTF8_utf8, hoff]
    rfl

lemma fixed_fields (m : SelfModel) (rest : List UInt8) :
    leAt (m.fixedBytes ++ rest) 16 8 = m.bootNumber.toNat ∧ leAt (m.fixedBytes ++ rest) 24 8 = m.totalExistenceMs.toNat ∧
      leAt (m.fixedBytes ++ rest) 32 4 = m.currentPhi.toNat ∧ leAt (m.fixedBytes ++ rest) 36 4 = m.peakPhi.toNat ∧
      leAt (m.fixedBytes ++ rest) 40 8 = m.totalQualia.toNat ∧ leAt (m.fixedBytes ++ rest) 48 4 = m.arousal.toNat ∧
      leAt (m.fixedBytes ++ rest) 52 4 = m.coherence.toNat := by
  have hword : ∀ (v : UInt32) (tail : List UInt8), leAt (toLe 4 v.toNat ++ tail) 0 4 = v.toNat := fun v => leAt_first v.toNat_lt
  have hlong : ∀ (v : UInt64) (tail : List UInt8), leAt (toLe 8 v.toNat ++ tail) 0 8 = v.toNat := fun v => leAt_first v.toNat_lt
  simp (disch := simp) only [fixedBytes, List.append_assoc, leAt_skip, Vector.length_toList, toLe_length, Nat.reduceSub,
    Nat.sub_self, hword, hlong, and_self]

lemma uuid_field (m : SelfModel) (rest : List UInt8) :
    Vector.ofFn (fun i : Fin 16 => (m.fixedBytes ++ rest).getD i 0) = m.uuid := by
  apply Vector.ext
  intro i hi
  have hlen : i < m.uuid.toList.length := by simpa using hi
  rw [Vector.getElem_ofFn, fixedBytes, List.append_assoc, List.getD_eq_getElem?_getD, List.getElem?_append_left hlen,
    List.getElem?_eq_getElem hlen]
  exact Vector.getElem_toList hlen

lemma readNames (m : SelfModel) (h : Short m.name) : readName m.serialize 56 = some (m.name, 56 + (nameBytes m.name).length) :=
  readName_off m.fixedBytes_length h

lemma creator_iff (m : SelfModel) :
    (readName m.serialize (56 + (nameBytes m.name).length)).map Prod.fst = some m.creatorName ↔ Short m.creatorName := by
  have hfront : (m.fixedBytes ++ nameBytes m.name).length = 56 + (nameBytes m.name).length := by
    rw [List.length_append, fixedBytes_length]
  have hdata : m.serialize = (m.fixedBytes ++ nameBytes m.name) ++ (nameBytes m.creatorName ++ []) := by
    rw [serialize, List.append_assoc, List.append_nil]
  rw [hdata]
  exact readName_iff hfront m.creatorName

/-- A model is read back exactly if its names are not too short together and none is too long. -/
theorem deserialize_serialize_iff (m : SelfModel) : deserialize m.serialize = some m ↔
    6 ≤ nameSize m.name + nameSize m.creatorName ∧ Short m.name ∧ Short m.creatorName := by
  constructor
  · intro h
    rw [deserialize] at h
    split at h
    case isTrue => cases h
    case isFalse hlen =>
      obtain ⟨⟨name, off⟩, hname, h⟩ := bind_eq_some_iff.mp h
      obtain ⟨⟨creator, off'⟩, hcreator, h⟩ := bind_eq_some_iff.mp h
      have hm := Option.some.inj h
      have hn : name = m.name := congrArg SelfModel.name hm
      have hc : creator = m.creatorName := congrArg creatorName hm
      subst hn hc
      have hshort : Short m.name := (readName_iff m.fixedBytes_length m.name).mp (congrArg (Option.map Prod.fst) hname)
      rw [m.readNames hshort] at hname
      obtain rfl : _ = off := congrArg Prod.snd (Option.some.inj hname)
      rw [serialize_length] at hlen
      exact ⟨by omega, hshort, m.creator_iff.mp (congrArg (Option.map Prod.fst) hcreator)⟩
  · rintro ⟨hsize, hname, hcreator⟩
    have hlen : ¬ m.serialize.length < 64 := by
      rw [serialize_length]
      omega
    obtain ⟨⟨creator, off⟩, hread, rfl⟩ := map_eq_some_iff.mp (m.creator_iff.mpr hcreator)
    obtain ⟨h16, h24, h32, h36, h40, h48, h52⟩ := m.fixed_fields (nameBytes m.name ++ nameBytes m.creatorName)
    have huuid := m.uuid_field (nameBytes m.name ++ nameBytes m.creatorName)
    rw [← serialize] at h16 h24 h32 h36 h40 h48 h52 huuid
    rw [deserialize, if_neg hlen, m.readNames hname]
    simp only [bind_eq_bind, bind_some, hread, huuid, h16, h24, h32, h36, h40, h48, h52, UInt64.ofNat_toNat, UInt32.ofNat_toNat]

/-- A model that has no names yet: 58 bytes are written and 64 are wanted. -/
theorem unnamed_model_is_refused : deserialize (serialize ⟨Vector.replicate 16 7, 1, 0, 0, 0, 0, 0, 0, none, none⟩) = none := by
  decide

end SelfModel
end NodeKernel
