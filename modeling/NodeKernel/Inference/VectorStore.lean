import NodeKernel.Lib.Checked

/-!
# The vector store

Episodic memory of the kernel, as `serialize` writes it and `deserialize` reads it back. A float is its bits.
-/
namespace NodeKernel

open Checked

def vectorDim : ℕ := 16

@[ext] structure MemoryEvent where
  vector : Vector UInt32 vectorDim
  label : UInt64
  timestamp : UInt64
  deriving DecidableEq

namespace VectorStore

def maxVectors : ℕ := 1024

def magic : List UInt8 := [0x56, 0x45, 0x43, 0x31]

def eventSize : ℕ := vectorDim * 4 + 8 + 8

def floatBytes (f : UInt32) : List UInt8 := toLe 4 f.toNat

def eventBytes (ev : MemoryEvent) : List UInt8 :=
  ev.vector.toList.flatMap floatBytes ++ (toLe 8 ev.label.toNat ++ toLe 8 ev.timestamp.toNat)

def serialize (events : List MemoryEvent) : List UInt8 := magic ++ (toLe 4 events.length ++ events.flatMap eventBytes)

def readVector (data : List UInt8) (cursor : ℕ) : (i : ℕ) → Checked (Vector UInt32 i)
  | 0 => return #v[]
  | i + 1 => do
    let vector ← readVector data cursor i
    let f ← leWord data (cursor + 4 * i)
    return vector.push f

def readEvents (data : List UInt8) : ℕ → Checked (List MemoryEvent)
  | 0 => return []
  | i + 1 => do
    let events ← readEvents data i
    let cursor := 8 + i * eventSize
    let vector ← readVector data cursor vectorDim
    let cursor := cursor + vectorDim * 4
    let labelBytes ← slice data cursor (cursor + 8)
    let tsBytes ← slice data (cursor + 8) (cursor + 8 + 8)
    return events ++ [⟨vector, UInt64.ofNat (ofLe labelBytes), UInt64.ofNat (ofLe tsBytes)⟩]

/-- The count is a `u32`, and no sum here reaches the bounds of `usize`. -/
def deserialize (events : List MemoryEvent) (data : List UInt8) : Checked (List MemoryEvent × Bool) :=
  if data.length < 8 then return (events, false)
  else do
    let head ← slice data 0 4
    if head ≠ magic then return (events, false)
    else
      let count ← leWord data 4
      if data.length < 8 + count.toNat * eventSize then return (events, false)
      else return (← readEvents data count.toNat, true)

variable {data : List UInt8} {n : ℕ}

lemma readVector_spec {cursor : ℕ} (h : cursor + 4 * n ≤ data.length) : Ensures (readVector data cursor n)
      (fun v => data.take (cursor + 4 * n) = data.take cursor ++ v.toList.flatMap floatBytes) := by
  induction n with
  | zero => exact .pure (List.append_nil _).symm
  | succ n ih =>
    refine (ih (by omega)).bind (fun v hv => ?_)
    rw [leWord_of_le (by omega)]
    refine .pure ?_
    rw [Vector.toList_push, List.flatMap_append, List.flatMap_singleton, floatBytes,
      UInt32.toNat_ofNat_of_lt' (leAt_lt _ _ 4), ← List.append_assoc, ← hv, ← take_leAt (by omega)]
    rfl

lemma slice_word {pos : ℕ} (h : pos + 8 ≤ data.length) : Ensures (slice data pos (pos + 8))
      (fun s => data.take (pos + 8) = data.take pos ++ toLe 8 (UInt64.ofNat (ofLe s)).toNat) := by
  refine ⟨_, slice_of_le (Nat.le_add_right _ _) h, ?_⟩
  rw [List.drop_take, Nat.add_sub_cancel_left, take_leAt h]
  exact congrArg (fun v => _ ++ toLe 8 v) (UInt64.toNat_ofNat_of_lt' (leAt_lt data pos 8)).symm

lemma readEvents_spec (h : 8 + n * eventSize ≤ data.length) : Ensures (readEvents data n)
      (fun events => events.length = n ∧ data.take (8 + n * eventSize) = data.take 8 ++ events.flatMap eventBytes) := by
  induction n with
  | zero => exact .pure ⟨rfl, (List.append_nil _).symm⟩
  | succ n ih =>
    change 8 + (n + 1) * 80 ≤ _ at h
    refine (ih (show 8 + n * 80 ≤ _ by omega)).bind (fun events he => ?_)
    refine (readVector_spec (show 8 + n * 80 + 64 ≤ _ by omega)).bind (fun v hv => ?_)
    refine (slice_word (show 8 + n * 80 + 64 + 8 ≤ _ by omega)).bind (fun label hl => ?_)
    refine (slice_word (show 8 + n * 80 + 64 + 8 + 8 ≤ _ by omega)).bind (fun ts ht => ?_)
    refine .pure ⟨by rw [List.length_append, he.1]; rfl, ?_⟩
    rw [List.flatMap_append, List.flatMap_singleton, eventBytes, ← List.append_assoc, ← he.2, ← List.append_assoc, ← hv,
      ← List.append_assoc]
    rw [Nat.succ_mul]
    exact ht.trans (congrArg (· ++ _) hl)

lemma eventBytes_inj {a b : MemoryEvent} {s t : List UInt8} (h : eventBytes a ++ s = eventBytes b ++ t) : a = b ∧ s = t := by
  unfold eventBytes at h
  simp only [List.append_assoc] at h
  obtain ⟨hv, h⟩ := flatMap_inj (fun h => (toLe_inj (UInt32.toNat_lt _) (UInt32.toNat_lt _) h).imp_left UInt32.toNat_inj.mp)
    (a.vector.length_toList.trans b.vector.length_toList.symm) h
  obtain ⟨hl, h⟩ := toLe_inj a.label.toNat_lt b.label.toNat_lt h
  obtain ⟨ht, h⟩ := toLe_inj a.timestamp.toNat_lt b.timestamp.toNat_lt h
  exact ⟨MemoryEvent.ext (Vector.toList_inj.mp hv) (UInt64.toNat_inj.mp hl) (UInt64.toNat_inj.mp ht), h⟩

lemma serialize_length (events : List MemoryEvent) : (serialize events).length = 8 + events.length * eventSize := by
  have hev : ∀ ev : MemoryEvent, (eventBytes ev).length = eventSize := by
    intro ev
    rw [eventBytes, List.length_append, flatMap_length (f := floatBytes) (fun f => toLe_length 4 _), Vector.length_toList]
    rfl
  rw [serialize, List.length_append, List.length_append, flatMap_length hev, toLe_length, ← Nat.add_assoc]
  rfl

theorem deserialize_serialize {events : List MemoryEvent} (hmax : events.length ≤ maxVectors) (old : List MemoryEvent)
    (data : List UInt8) :
    deserialize old (serialize events) = .ok (events, true) ∧ ∃ result, deserialize old data = .ok result := by
  constructor
  · have hlen := serialize_length events
    have hcount : leAt (serialize events) 4 4 = events.length := by
      exact leAt_field rfl (hmax.trans_lt (by decide)) _
    obtain ⟨back, hread, hback, hbytes⟩ := readEvents_spec hlen.ge
    rw [← hlen, List.take_length] at hbytes
    obtain rfl : events = back := by
      have hsame : events.flatMap eventBytes = back.flatMap eventBytes :=
        List.append_cancel_left (show (serialize events).take 8 ++ _ = _ from hbytes)
      exact (flatMap_inj eventBytes_inj hback.symm (congrArg (· ++ []) hsame)).1
    have hsmall : events.length < 2 ^ 32 := hmax.trans_lt (by decide)
    rw [deserialize, if_neg (by omega), slice_of_le (by decide) (by omega), ok_bind, if_neg (fun h => h rfl),
      leWord_of_le (by omega), ok_bind, hcount, UInt32.toNat_ofNat_of_lt' hsmall, if_neg (by omega), hread]
    rfl
  · suffices h : Ensures (deserialize old data) (fun _ => True) from h.imp (fun _ h => h.1)
    refine .guard trivial (fun h8 => ?_)
    refine .slice (by decide) (by omega) (fun head _ => ?_)
    refine .guard trivial (fun _ => ?_)
    rw [leWord_of_le (by omega), ok_bind]
    refine .guard trivial (fun hsize => ?_)
    exact (readEvents_spec (by omega)).bind (fun _ _ => .pure trivial)

theorem deserialize_serialize_one : ∃ result, deserialize [] (serialize [⟨Vector.replicate 16 7, 1, 2⟩]) = .ok result :=
  ⟨_, (deserialize_serialize (by decide) [] []).1⟩

end VectorStore
end NodeKernel
