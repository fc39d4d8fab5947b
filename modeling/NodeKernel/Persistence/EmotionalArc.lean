import NodeKernel.Lib.Bytes

/-!
# The samples of the emotional arc

`export_state` writes records of 20 bytes, and `import_state` wants 24 bytes before it reads one. Floats are their bits.
-/
namespace NodeKernel

open List

structure EmotionalSample where
  valence : UInt32
  arousal : UInt32
  phi : UInt32
  tick : UInt64
  deriving DecidableEq

structure ArcTracker where
  samples : List EmotionalSample
  lastSampleTick : UInt64
  deriving DecidableEq

namespace ArcTracker

def historyLen : ℕ := 60

def sampleBytes (s : EmotionalSample) : List UInt8 :=
  toLe 4 s.valence.toNat ++ (toLe 4 s.arousal.toNat ++ (toLe 4 s.phi.toNat ++ toLe 8 s.tick.toNat))

/-- `ARC` is `none` before `init`. -/
def exportState : Option ArcTracker → Option (List UInt8)
  | none => none
  | some arc =>
    if arc.samples.isEmpty then none
    else some (toLe 4 arc.samples.length ++ (toLe 8 arc.lastSampleTick.toNat ++ arc.samples.flatMap sampleBytes))

def sampleAt (data : List UInt8) (pos : ℕ) : EmotionalSample :=
  ⟨UInt32.ofNat (leAt data pos 4), UInt32.ofNat (leAt data (pos + 4) 4), UInt32.ofNat (leAt data (pos + 8) 4),
    UInt64.ofNat (leAt data (pos + 12) 8)⟩

def importSamples (data : List UInt8) : ℕ → ℕ → List EmotionalSample
  | 0, _ => []
  | count + 1, pos =>
    if pos + 24 > data.length then [] else sampleAt data pos :: importSamples data count (pos + 20)

def importState (arc : Option ArcTracker) (data : List UInt8) : Option ArcTracker :=
  if data.length < 12 then arc
  else
    let count := leAt data 0 4
    if count > historyLen then arc
    else arc.map (fun _ => ⟨importSamples data count 12, UInt64.ofNat (leAt data 4 8)⟩)

lemma sampleBytes_length (s : EmotionalSample) : (sampleBytes s).length = 20 := rfl

lemma sampleAt_bytes (s : EmotionalSample) (rest : List UInt8) : sampleAt (sampleBytes s ++ rest) 0 = s := by
  have hv : leAt (sampleBytes s ++ rest) 0 4 = s.valence.toNat := by
    exact leAt_first s.valence.toNat_lt _
  have ha : leAt (sampleBytes s ++ rest) 4 4 = s.arousal.toNat := by
    exact leAt_field (toLe_length 4 _) s.arousal.toNat_lt _
  have hp : leAt (sampleBytes s ++ rest) 8 4 = s.phi.toNat := by
    simp only [sampleBytes, append_assoc]
    rw [← append_assoc]
    exact leAt_field rfl s.phi.toNat_lt _
  have ht : leAt (sampleBytes s ++ rest) 12 8 = s.tick.toNat := by
    simp only [sampleBytes, append_assoc]
    rw [← append_assoc, ← append_assoc]
    exact leAt_field rfl s.tick.toNat_lt _
  simp only [sampleAt, Nat.zero_add, hv, ha, hp, ht, UInt32.ofNat_toNat, UInt64.ofNat_toNat]

lemma sampleAt_drop (data : List UInt8) (pos : ℕ) : sampleAt (data.drop pos) 0 = sampleAt data pos := by
  simp only [sampleAt, leAt_drop, Nat.zero_add, Nat.add_zero]

lemma importSamples_eq (front : List UInt8) (samples : List EmotionalSample) :
    importSamples (front ++ samples.flatMap sampleBytes) samples.length front.length = samples.dropLast := by
  induction samples generalizing front with
  | nil => rfl
  | cons s rest ih =>
    cases rest with
    | nil =>
      simp only [importSamples, length_cons, length_nil, flatMap_cons, flatMap_nil,
        append_nil, length_append, sampleBytes_length]
      rw [if_pos (by omega)]
      rfl
    | cons s' rest =>
      have hlen : ¬ front.length + 24 > (front ++ (s :: s' :: rest).flatMap sampleBytes).length := by
        simp only [flatMap_cons, length_append, sampleBytes_length]
        omega
      have hhead : sampleAt (front ++ (s :: s' :: rest).flatMap sampleBytes) front.length = s := by
        rw [← sampleAt_drop, drop_left, flatMap_cons, sampleAt_bytes]
      have htail := ih (front ++ sampleBytes s)
      rw [length_append, sampleBytes_length, append_assoc, ← flatMap_cons] at htail
      rw [length_cons, importSamples, if_neg hlen, hhead, htail]
      rfl

variable {arc fresh : ArcTracker} {bytes : List UInt8}

lemma importState_exportState (hmax : arc.samples.length ≤ historyLen) (he : exportState (some arc) = some bytes) :
    importState (some fresh) bytes = some ⟨arc.samples.dropLast, arc.lastSampleTick⟩ := by
  have hcount : arc.samples.length < 256 ^ 4 := hmax.trans_lt (by decide)
  rw [exportState] at he
  split at he
  · cases he
  · obtain rfl := Option.some.inj he
    have hn := leAt_first hcount (toLe 8 arc.lastSampleTick.toNat ++ arc.samples.flatMap sampleBytes)
    have ht := leAt_field (n := 8) (toLe_length 4 arc.samples.length) arc.lastSampleTick.toNat_lt
      (arc.samples.flatMap sampleBytes)
    have hs := importSamples_eq (toLe 4 arc.samples.length ++ toLe 8 arc.lastSampleTick.toNat) arc.samples
    rw [append_assoc] at hs
    rw [importState, if_neg (by simp only [length_append, toLe_length]; omega), hn]
    rw [if_neg (Nat.not_lt.mpr hmax), ht, UInt64.ofNat_toNat]
    exact congrArg (fun l => some (⟨l, arc.lastSampleTick⟩ : ArcTracker)) hs

/-- The exported bytes give the tracker back, whatever the importing tracker holds. -/
def Restored (arc fresh : ArcTracker) : Prop :=
  ∃ bytes, exportState (some arc) = some bytes ∧ importState (some fresh) bytes = some arc

theorem not_restored (fresh : ArcTracker) (hpos : 1 ≤ arc.samples.length) (hmax : arc.samples.length ≤ historyLen) :
    ¬ arc.Restored fresh := by
  rintro ⟨bytes, he, hr⟩
  rw [importState_exportState hmax he] at hr
  have hlen := congrArg (fun t : Option ArcTracker => (t.map (fun t => t.samples.length)).getD 0) hr
  simp only [Option.map_some, Option.getD_some, length_dropLast] at hlen
  omega

theorem not_restored_one : ¬ Restored ⟨[⟨1, 2, 3, 4⟩], 4⟩ ⟨[], 0⟩ := not_restored _ (by decide) (by decide)

theorem last_sample_is_lost :
    (exportState (some ⟨[⟨1, 2, 3, 4⟩], 4⟩)).map (importState (some ⟨[], 0⟩)) = some (some ⟨[], 4⟩) := by
  decide

end ArcTracker
end NodeKernel
