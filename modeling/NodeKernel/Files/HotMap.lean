import NodeKernel.Lib.Atomic
import NodeKernel.Lib.Bytes
import NodeKernel.Lib.OrdMap

/-!
# A map that splits its lock

`HotMap` keeps its entries under one lock until it has seen more than a thousand failed attempts to take it; then it
moves them to eight maps with a lock each. Every load and store of a flag, every attempt to take a lock and every
critical section is a step of its own; an access to a shard is one.
-/
namespace NodeKernel

open Function List OrdMap Run

variable {K V τ : Type} [LinearOrder K]

inductive HotOp (K V : Type)
  | insert (key : K) (value : V)
  | get (key : K)
  | remove (key : K)

namespace HotOp

def key : HotOp K V → K
  | insert k _ => k
  | get k => k
  | remove k => k

/-- The access to one map, under its lock. `insert` returns nothing. -/
def run : HotOp K V → OrdMap K V → OrdMap K V × Option V
  | insert k v, m => (m.insert k v, none)
  | get k, m => (m, m.get k)
  | remove k, m => (m.erase k, m.get k)

def value : HotOp K V → Option V → Option V
  | insert _ v, _ => some v
  | get _, o => o
  | remove _, _ => none

def result : HotOp K V → Option V → Option V
  | insert _ _, _ => none
  | get _, o => o
  | remove _, o => o

def isInsert : HotOp K V → Bool
  | insert _ _ => true
  | _ => false

omit [LinearOrder K] in
lemma value_none (op : HotOp K V) (h : op.isInsert = false) : op.value none = none := by
  cases op with
  | insert => cases h
  | get | remove => rfl

def onMap (op : HotOp K V) (m : K → Option V) : (K → Option V) × Option V :=
  (update m op.key (op.value (m op.key)), op.result (m op.key))

lemma run_get (op : HotOp K V) (m : OrdMap K V) (k : K) :
    (op.run m).1.get k = if k = op.key then op.value (m.get op.key) else m.get k := by
  cases op with
  | insert k' v => exact get_insert
  | get k' =>
    unfold run key value
    split_ifs with h
    · rw [h]
    · rfl
  | remove k' => exact get_erase

lemma run_result (op : HotOp K V) (m : OrdMap K V) : (op.run m).2 = op.result (m.get op.key) := by
  cases op <;> rfl

end HotOp

/-- Where a thread is in its call. A result that is known is kept until the call returns it. -/
inductive HotThread (K V : Type)
  | idle
  | called (op : HotOp K V)
  | onShard (op : HotOp K V)
  | onGlobal (op : HotOp K V)
  | holding (op : HotOp K V)
  | contended (op : HotOp K V)
  | waiting (op : HotOp K V)
  | holdingLate (op : HotOp K V)
  | checking (r : Option V)
  | splitWaiting (r : Option V)
  | splitting (r : Option V)
  | moving (r : Option V) (keysToMove : List K)
  | leaving (r : Option V)
  | done (r : Option V)

structure HotMap (K V τ : Type) [LinearOrder K] where
  globalLock : OrdMap K V
  holder : Option τ
  sharded : Bool
  shards : Fin 8 → OrdMap K V
  contention : UInt64
  threads : τ → HotThread K V

namespace HotMap

def new : HotMap K V τ := ⟨OrdMap.empty, none, false, fun _ => OrdMap.empty, 0, fun _ => .idle⟩

def shardIdx (bytes : K → List UInt8) (k : K) : Fin 8 := Fin.ofNat 8 (fnv1aHash (bytes k)).toNat

variable [DecidableEq τ]

def goto (m : HotMap K V τ) (t : τ) (p : HotThread K V) : HotMap K V τ :=
  { m with threads := update m.threads t p }

def onShards (bytes : K → List UInt8) (m : HotMap K V τ) (op : HotOp K V) : HotMap K V τ :=
  let i := shardIdx bytes op.key
  { m with shards := update m.shards i (op.run (m.shards i)).1 }

/-- One round of the loop that empties the global map. -/
def moveKey (bytes : K → List UInt8) (m : HotMap K V τ) (k : K) : HotMap K V τ :=
  match m.globalLock.get k with
  | some v => { onShards bytes m (.insert k v) with globalLock := m.globalLock.erase k }
  | none => m

open Atomic (Label)

/-- `bytes` gives the bytes of a key, from which its shard is found. -/
inductive Step (bytes : K → List UInt8) :
    HotMap K V τ → Label τ (HotOp K V) (Option V) → HotMap K V τ → Prop
  | call {m t op} : m.threads t = .idle → Step bytes m (.call t op) (m.goto t (.called op))
  | loadFlag {m t op} : m.threads t = .called op →
      Step bytes m (.tick t) (m.goto t (if m.sharded then .onShard op else .onGlobal op))
  | shard {m t op} : m.threads t = .onShard op →
      Step bytes m (.tick t)
        ((m.onShards bytes op).goto t (.done (op.run (m.shards (shardIdx bytes op.key))).2))
  | tryLock {m t op} : m.threads t = .onGlobal op → m.holder = none →
      Step bytes m (.tick t) ({ m with holder := some t }.goto t (.holding op))
  | tryLockFails {m t op} : m.threads t = .onGlobal op → m.holder ≠ none →
      Step bytes m (.tick t) (m.goto t (.contended op))
  | access {m t op} : m.threads t = .holding op →
      Step bytes m (.tick t)
        ({ m with globalLock := (op.run m.globalLock).1, holder := none }.goto t (.done (op.run m.globalLock).2))
  | count {m t op} : m.threads t = .contended op →
      Step bytes m (.tick t) ({ m with contention := m.contention + 1 }.goto t (.waiting op))
  | lock {m t op} : m.threads t = .waiting op → m.holder = none →
      Step bytes m (.tick t) ({ m with holder := some t }.goto t (.holdingLate op))
  | accessLate {m t op} : m.threads t = .holdingLate op →
      Step bytes m (.tick t)
        ({ m with globalLock := (op.run m.globalLock).1, holder := none }.goto t (.checking (op.run m.globalLock).2))
  | checkSplit {m t r} : m.threads t = .checking r →
      Step bytes m (.tick t) (m.goto t (if 1000 < m.contention then .splitWaiting r else .done r))
  | splitLock {m t r} : m.threads t = .splitWaiting r → m.holder = none →
      Step bytes m (.tick t) ({ m with holder := some t }.goto t (.splitting r))
  | alreadySplit {m t r} : m.threads t = .splitting r → m.sharded = true →
      Step bytes m (.tick t) (m.goto t (.leaving r))
  | startMoving {m t r} : m.threads t = .splitting r → m.sharded = false →
      Step bytes m (.tick t) (m.goto t (.moving r (m.globalLock.entries.map Prod.fst)))
  | move {m t r k keys} : m.threads t = .moving r (k :: keys) →
      Step bytes m (.tick t) ((m.moveKey bytes k).goto t (.moving r keys))
  | storeFlag {m t r} : m.threads t = .moving r [] →
      Step bytes m (.tick t) ({ m with sharded := true }.goto t (.leaving r))
  | unlock {m t r} : m.threads t = .leaving r →
      Step bytes m (.tick t) ({ m with holder := none }.goto t (.done r))
  | ret {m t r} : m.threads t = .done r → Step bytes m (.ret t r) (m.goto t .idle)

variable {bytes : K → List UInt8} {m : HotMap K V τ} {t : τ} {p : HotThread K V} {op : HotOp K V}

def content (bytes : K → List UInt8) (m : HotMap K V τ) (k : K) : Option V :=
  (m.globalLock.get k).or ((m.shards (shardIdx bytes k)).get k)

end HotMap

namespace HotThread

def holds : HotThread K V → Bool
  | holding _ | holdingLate _ | splitting _ | moving _ _ | leaving _ => true
  | _ => false

def isMoving : HotThread K V → Bool
  | moving _ _ => true
  | _ => false

/-- The state of the call at an atomic object: it takes effect with the access to a map. -/
def abs : HotThread K V → Atomic.Thread (HotOp K V) (Option V)
  | idle => .idle
  | called op | onShard op | onGlobal op | holding op | contended op | waiting op | holdingLate op => .pending op
  | checking r | splitWaiting r | splitting r | moving r _ | leaving r | done r => .done r

end HotThread

namespace HotMap

variable [DecidableEq τ] {bytes : K → List UInt8} {m : HotMap K V τ} {t : τ} {p q : HotThread K V} {op : HotOp K V}

/-- The lock has one holder; before the split the shards are empty, after it the global map is. -/
structure Sound (m : HotMap K V τ) : Prop where
  holder : ∀ t, (m.threads t).holds = true ↔ m.holder = some t
  flagged : ∀ t op, m.threads t = .onShard op → m.sharded = true
  moving : ∀ t r keys, m.threads t = .moving r keys →
    m.sharded = false ∧ ∀ k, (m.globalLock.get k).isSome = true → k ∈ keys
  emptied : m.sharded = true → ∀ k, m.globalLock.get k = none
  unused : m.sharded = false → (∀ t, (m.threads t).isMoving = false) → ∀ i k, (m.shards i).get k = none

omit [DecidableEq τ] in
lemma Sound.only_holder (h : m.Sound) {t' : τ} (ht : (m.threads t).holds = true) (ht' : (m.threads t').holds = true) :
    t' = t := Option.mem_unique ((h.holder t').mp ht') ((h.holder t).mp ht)

omit [DecidableEq τ] in
lemma Sound.no_moving (h : m.Sound) (ht : m.threads t = q) (hq : q.holds = true) (hno : q.isMoving = false) (t' : τ) :
    (m.threads t').isMoving = false := by
  cases hp : m.threads t' with
  | moving r keys =>
    have htt : t' = t := h.only_holder (by rw [ht, hq]) (by rw [hp]; rfl)
    rw [← ht, ← htt, hp] at hno
    cases hno
  | _ => rfl

lemma goto_threads (t' : τ) : (m.goto t p).threads t' = if t' = t then p else m.threads t' := update_apply ..

section
variable (h : m.Sound) (ht : m.threads t = q)
include h ht

lemma Sound.turn {holder : Option τ} (hown : p.holds = true ↔ holder = some t)
    (hother : ∀ t' ≠ t, m.holder = some t' ↔ holder = some t') (hflag : ∀ op, p = .onShard op → m.sharded = true)
    (hbefore : q.isMoving = false) (hafter : p.isMoving = false) : ({ m with holder := holder }.goto t p).Sound := by
  refine ⟨fun t' => ?_, fun t' op ht' => ?_, fun t' r keys ht' => ?_, h.emptied, fun hs hno => h.unused hs fun t' => ?_⟩
  · rw [goto_threads]
    split_ifs with htt
    · exact htt ▸ hown
    · exact (h.holder t').trans (hother t' htt)
  · rw [goto_threads] at ht'
    split_ifs at ht' with htt
    · exact hflag op ht'
    · exact h.flagged t' op ht'
  · rw [goto_threads] at ht'
    split_ifs at ht' with htt
    · rw [ht'] at hafter
      cases hafter
    · exact h.moving t' r keys ht'
  · have hmoves := hno t'
    rw [goto_threads] at hmoves
    split_ifs at hmoves with htt
    · rw [htt, ht, hbefore]
    · exact hmoves

lemma Sound.go (hp : p.holds = q.holds)
    (hflag : ∀ op, p = .onShard op → m.sharded = true) (hbefore : q.isMoving = false) (hafter : p.isMoving = false) :
    (m.goto t p).Sound := by
  refine h.turn ht ?_ (fun _ _ => Iff.rfl) hflag hbefore hafter
  rw [hp, ← ht]
  exact h.holder t

lemma Sound.acquire (hfree : m.holder = none) (hp : p.holds = true)
    (hbefore : q.isMoving = false) (hafter : p.isMoving = false) : ({ m with holder := some t }.goto t p).Sound := by
  refine h.turn ht (by simp [hp]) (fun t' ht' => by simp [hfree, Ne.symm ht']) ?_ hbefore hafter
  rintro op rfl
  cases hp

lemma Sound.release (hq : q.holds = true) (hp : p.holds = false)
    (hflag : ∀ op, p = .onShard op → m.sharded = true) (hbefore : q.isMoving = false) (hafter : p.isMoving = false) :
    ({ m with holder := none }.goto t p).Sound := by
  refine h.turn ht (by simp [hp]) (fun t' ht' => ?_) hflag hbefore hafter
  rw [(h.holder t).mp (by rw [ht, hq])]
  simp [Ne.symm ht']

lemma Sound.inside (hq : q.holds = true) (hp : p.holds = true) {g : OrdMap K V}
    {sh : Fin 8 → OrdMap K V} {flag : Bool} (hflag : m.sharded = true → flag = true)
    (hmov : ∀ r keys, p = .moving r keys → flag = false ∧ ∀ k, (g.get k).isSome = true → k ∈ keys)
    (hempt : flag = true → ∀ k, g.get k = none) (hun : flag = false → p.isMoving = false → ∀ i k, (sh i).get k = none) :
    ({ m with globalLock := g, shards := sh, sharded := flag }.goto t p).Sound := by
  refine ⟨fun t' => ?_, fun t' op ht' => ?_, fun t' r keys ht' => ?_, hempt, fun hf hno => hun hf ?_⟩
  · rw [goto_threads]
    split_ifs with htt
    · subst htt
      exact ⟨fun _ => (h.holder t').mp (by rw [ht, hq]), fun _ => hp⟩
    · exact h.holder t'
  · rw [goto_threads] at ht'
    split_ifs at ht' with htt
    · rw [ht'] at hp
      cases hp
    · exact hflag (h.flagged t' op ht')
  · rw [goto_threads] at ht'
    split_ifs at ht' with htt
    · exact hmov r keys ht'
    · have hholds : (m.threads t').holds = true := by
        rw [show m.threads t' = .moving r keys from ht']
        rfl
      exact absurd (h.only_holder (by rw [ht, hq]) hholds) htt
  · have := hno t
    rwa [goto_threads, if_pos rfl] at this

end

/-- The access to the global map comes before the split, or looks for or removes a key that is not in the map. -/
def InTime (bytes : K → List UInt8) (m : HotMap K V τ) (op : HotOp K V) : Prop :=
  m.sharded = true → op.isInsert = false ∧ (m.shards (shardIdx bytes op.key)).get op.key = none

section Content
omit [DecidableEq τ]

lemma content_of_unused (h : ∀ i k, (m.shards i).get k = none) (k : K) : m.content bytes k = m.globalLock.get k := by
  simp [content, h]

lemma content_of_emptied (h : ∀ k, m.globalLock.get k = none) (k : K) :
    m.content bytes k = (m.shards (shardIdx bytes k)).get k := by
  simp [content, h]

lemma access_content (h : m.Sound) (ht : m.threads t = q) (hq : q.holds = true) (hno : q.isMoving = false)
    (htime : m.InTime bytes op) : (op.run m.globalLock).2 = (op.onMap (m.content bytes)).2 ∧
      { m with globalLock := (op.run m.globalLock).1 }.content bytes = (op.onMap (m.content bytes)).1 := by
  rw [HotOp.run_result, funext_iff]
  unfold HotOp.onMap
  simp only [update_apply]
  rcases Bool.eq_false_or_eq_true m.sharded with hs | hs
  · obtain ⟨hins, hkey⟩ := htime hs
    have hgone := h.emptied hs
    have hafter : ∀ k, (op.run m.globalLock).1.get k = none := by
      intro k
      rw [op.run_get, hgone, hgone, op.value_none hins, ite_self]
    have hnone : m.content bytes op.key = none := (content_of_emptied hgone op.key).trans hkey
    rw [hgone, hnone, op.value_none hins]
    refine ⟨rfl, fun k => ?_⟩
    rw [content_of_emptied hafter k]
    split_ifs with hk
    · rw [hk]
      exact hkey
    · exact (content_of_emptied hgone k).symm
  · have hun := h.unused hs (h.no_moving ht hq hno)
    rw [content_of_unused hun]
    refine ⟨rfl, fun k => ?_⟩
    rw [content_of_unused (m := { m with globalLock := (op.run m.globalLock).1 }) hun, content_of_unused hun]
    exact op.run_get m.globalLock k

lemma onShards_content (h : ∀ k, m.globalLock.get k = none) :
    (op.run (m.shards (shardIdx bytes op.key))).2 = (op.onMap (m.content bytes)).2 ∧
      (m.onShards bytes op).content bytes = (op.onMap (m.content bytes)).1 := by
  rw [HotOp.run_result, funext_iff]
  unfold HotOp.onMap
  simp only [update_apply]
  rw [content_of_emptied h]
  refine ⟨rfl, fun k => ?_⟩
  rw [content_of_emptied (m := m.onShards bytes op) h, content_of_emptied h]
  unfold onShards
  simp only [update_apply]
  by_cases hi : shardIdx bytes k = shardIdx bytes op.key
  · rw [if_pos hi, op.run_get, hi]
  · rw [if_neg hi, if_neg]
    exact fun hk => hi (by rw [hk])

lemma moveKey_content (k : K) : (m.moveKey bytes k).content bytes = m.content bytes := by
  unfold moveKey
  cases hv : m.globalLock.get k with
  | none => rfl
  | some v =>
    funext k'
    unfold content onShards
    simp only [get_erase, update_apply, HotOp.key]
    by_cases hk : k' = k
    · subst hk
      simp [hv, HotOp.run, get_insert]
    · rw [if_neg hk]
      split_ifs with hi
      · rw [HotOp.run, get_insert, if_neg hk, hi]
      · rfl

lemma Sound.access (h : m.Sound) (ht : m.threads t = q) (hq : q.holds = true) (hno : q.isMoving = false)
    (htime : m.InTime bytes op) : { m with globalLock := (op.run m.globalLock).1 }.Sound := by
  refine ⟨h.holder, h.flagged, fun t' r keys ht' => ?_, fun hs k => ?_, h.unused⟩
  · have := h.no_moving ht hq hno t'
    rw [show m.threads t' = .moving r keys from ht'] at this
    cases this
  · have hgone := h.emptied hs
    rw [op.run_get, hgone, hgone, op.value_none (htime hs).1, ite_self]

lemma Sound.onShards (h : m.Sound) (hs : m.sharded = true) : (m.onShards bytes op).Sound := by
  refine ⟨h.holder, h.flagged, fun t' r keys ht' => ?_, h.emptied, fun hs' => ?_⟩
  · have := (h.moving t' r keys ht').1
    rw [hs] at this
    cases this
  · rw [show m.sharded = false from hs'] at hs
    cases hs

lemma moveKey_threads (k : K) : (m.moveKey bytes k).threads = m.threads := by
  unfold moveKey
  split <;> rfl

lemma moveKey_get (k k' : K) : (m.moveKey bytes k).globalLock.get k' = if k' = k then none else m.globalLock.get k' := by
  unfold moveKey
  cases hv : m.globalLock.get k with
  | none =>
    split_ifs with hk
    · rw [hk, hv]
    · rfl
  | some v => exact get_erase

lemma moveKey_eq (k : K) : m.moveKey bytes k =
      { m with globalLock := (m.moveKey bytes k).globalLock, shards := (m.moveKey bytes k).shards } := by
  unfold moveKey
  split <;> rfl

end Content

lemma Sound.startMoving {r : Option V} (h : m.Sound) (ht : m.threads t = .splitting r) (hflag : m.sharded = false) :
    (m.goto t (.moving r (m.globalLock.entries.map Prod.fst))).Sound := by
  refine h.inside ht rfl rfl id ?_ h.emptied (fun _ hno => by cases hno)
  rintro r' keys hp
  obtain ⟨-, rfl⟩ := HotThread.moving.inj hp
  refine ⟨hflag, fun k hk => ?_⟩
  obtain ⟨v, hv⟩ := Option.isSome_iff_exists.mp hk
  exact mem_map.mpr ⟨(k, v), get_eq_some.mp hv, rfl⟩

lemma Sound.move {r : Option V} {k : K} {keys : List K} (h : m.Sound) (ht : m.threads t = .moving r (k :: keys)) :
    ((m.moveKey bytes k).goto t (.moving r keys)).Sound := by
  obtain ⟨hflag, hkeys⟩ := h.moving t r (k :: keys) ht
  rw [moveKey_eq]
  refine h.inside ht rfl rfl id ?_ (fun hf => ?_) (fun _ hno => by cases hno)
  · rintro r' keys' hp
    obtain ⟨-, rfl⟩ := HotThread.moving.inj hp
    refine ⟨hflag, fun k' hk' => ?_⟩
    rw [moveKey_get] at hk'
    split_ifs at hk' with hne
    · cases hk'
    · exact (mem_cons.mp (hkeys k' hk')).resolve_left hne
  · rw [hflag] at hf
    cases hf

lemma Sound.storeFlag {r : Option V} (h : m.Sound) (ht : m.threads t = .moving r []) :
    ({ m with sharded := true }.goto t (.leaving r)).Sound := by
  obtain ⟨-, hkeys⟩ := h.moving t r [] ht
  refine h.inside ht rfl rfl (fun _ => rfl) nofun (fun _ k => ?_) nofun
  cases hk : m.globalLock.get k with
  | none => rfl
  | some v => exact absurd (hkeys k (by rw [hk]; rfl)) not_mem_nil

/-- The state of an atomic map that a state of the map refines. -/
structure Refines (bytes : K → List UInt8) (m : HotMap K V τ)
    (b : Atomic.State τ (HotOp K V) (Option V) (K → Option V)) : Prop where
  sound : m.Sound
  obj : b.obj = m.content bytes
  threads : ∀ t, b.threads t = (m.threads t).abs

variable {m' : HotMap K V τ} {b : Atomic.State τ (HotOp K V) (Option V) (K → Option V)} {r : Option V}

lemma abs_goto (ht : m'.threads = m.threads) (t' : τ) :
    ((m'.goto t p).threads t').abs = update (fun t => (m.threads t).abs) t p.abs t' := by
  rw [goto_threads, update_apply, ht]
  split_ifs <;> rfl

section
variable (h : m.Refines bytes b) (ht : m.threads t = q) (hm : m'.threads = m.threads) (hS : (m'.goto t p).Sound)
include h ht hm hS

lemma Refines.hidden (hc : m'.content bytes = m.content bytes) (hp : p.abs = q.abs) : (m'.goto t p).Refines bytes b := by
  refine ⟨hS, h.obj.trans hc.symm, fun t' => ?_⟩
  rw [abs_goto hm, hp, ← ht, update_eq_self, h.threads]

lemma Refines.effect (hbefore : q.abs = .pending op) (hafter : p.abs = .done r)
    (hacc : r = (op.onMap (m.content bytes)).2 ∧ m'.content bytes = (op.onMap (m.content bytes)).1) :
    ∃ b', Atomic.Step HotOp.onMap b (.tick t) b' ∧ (m'.goto t p).Refines bytes b' := by
  refine ⟨_, Atomic.Step.effect ((h.threads t).trans (ht ▸ hbefore)), hS, ?_, fun t' => ?_⟩
  · rw [h.obj]
    exact hacc.2.symm
  · rw [abs_goto hm, hafter, hacc.1, h.obj, funext h.threads]

end

/-- No thread that has seen the flag unset gets to the global map after the split, except to look for or remove a key
that is not in the map. -/
def Timely (bytes : K → List UInt8) (m : HotMap K V τ) (e : Atomic.Label τ (HotOp K V) (Option V)) : Prop :=
  ∀ t op, e = .tick t → m.threads t = .holding op ∨ m.threads t = .holdingLate op → m.InTime bytes op

omit [DecidableEq τ] in
lemma timely_of_unsplit {e : Atomic.Label τ (HotOp K V) (Option V)} (h : m.sharded = false) : m.Timely bytes e := by
  intro t op _ _ hs
  rw [h] at hs
  cases hs

/-- Every step is a step of the atomic map or hidden from it. -/
theorem Refines.step {e : Atomic.Label τ (HotOp K V) (Option V)} (h : m.Refines bytes b) (htime : m.Timely bytes e)
    (hs : Step bytes m e m') :
    (∃ b', Atomic.Step HotOp.onMap b e b' ∧ m'.Refines bytes b') ∨ e.visible = false ∧ m'.Refines bytes b := by
  have hS := h.sound
  cases hs with
  | @call t op ht =>
    left
    refine ⟨_, .call ((h.threads t).trans (congrArg HotThread.abs ht)), hS.go ht rfl nofun rfl rfl, h.obj, fun t' => ?_⟩
    rw [abs_goto rfl, funext h.threads]
    rfl
  | @ret t r ht =>
    left
    refine ⟨_, .ret ((h.threads t).trans (congrArg HotThread.abs ht)), hS.go ht rfl nofun rfl rfl, h.obj, fun t' => ?_⟩
    rw [abs_goto rfl, funext h.threads]
    rfl
  | @loadFlag t op ht =>
    right
    cases hf : m.sharded with
    | true => exact ⟨rfl, h.hidden ht rfl (hS.go ht rfl (fun _ _ => hf) rfl rfl) rfl rfl⟩
    | false => exact ⟨rfl, h.hidden ht rfl (hS.go ht rfl nofun rfl rfl) rfl rfl⟩
  | @shard t op ht =>
    left
    have hflag := hS.flagged t op ht
    refine h.effect ht rfl ?_ rfl rfl (onShards_content (hS.emptied hflag))
    exact (hS.onShards hflag).go ht rfl nofun rfl rfl
  | @tryLock t op ht hfree => exact .inr ⟨rfl, h.hidden ht rfl (hS.acquire ht hfree rfl rfl rfl) rfl rfl⟩
  | @tryLockFails t op ht _ => exact .inr ⟨rfl, h.hidden ht rfl (hS.go ht rfl nofun rfl rfl) rfl rfl⟩
  | @access t op ht =>
    left
    have hin := htime t op rfl (.inl ht)
    refine h.effect ht rfl ?_ rfl rfl (access_content hS ht rfl rfl hin)
    exact (hS.access ht rfl rfl hin).release ht rfl rfl nofun rfl rfl
  | @count t op ht =>
    have hS' : { m with contention := m.contention + 1 }.Sound := ⟨hS.holder, hS.flagged, hS.moving, hS.emptied, hS.unused⟩
    exact .inr ⟨rfl, h.hidden ht rfl (hS'.go ht rfl nofun rfl rfl) rfl rfl⟩
  | @lock t op ht hfree => exact .inr ⟨rfl, h.hidden ht rfl (hS.acquire ht hfree rfl rfl rfl) rfl rfl⟩
  | @accessLate t op ht =>
    left
    have hin := htime t op rfl (.inr ht)
    refine h.effect ht rfl ?_ rfl rfl (access_content hS ht rfl rfl hin)
    exact (hS.access ht rfl rfl hin).release ht rfl rfl nofun rfl rfl
  | @checkSplit t r ht =>
    right
    split
    · exact ⟨rfl, h.hidden ht rfl (hS.go ht rfl nofun rfl rfl) rfl rfl⟩
    · exact ⟨rfl, h.hidden ht rfl (hS.go ht rfl nofun rfl rfl) rfl rfl⟩
  | @splitLock t r ht hfree => exact .inr ⟨rfl, h.hidden ht rfl (hS.acquire ht hfree rfl rfl rfl) rfl rfl⟩
  | @alreadySplit t r ht _ => exact .inr ⟨rfl, h.hidden ht rfl (hS.go ht rfl nofun rfl rfl) rfl rfl⟩
  | @startMoving t r ht hflag =>
    exact .inr ⟨rfl, h.hidden ht rfl (hS.startMoving ht hflag) rfl rfl⟩
  | @move t r k keys ht =>
    exact .inr ⟨rfl, h.hidden ht (moveKey_threads k) (hS.move ht) (moveKey_content k) rfl⟩
  | @storeFlag t r ht => exact .inr ⟨rfl, h.hidden ht rfl (hS.storeFlag ht) rfl rfl⟩
  | @unlock t r ht => exact .inr ⟨rfl, h.hidden ht rfl (hS.release ht rfl rfl nofun rfl rfl) rfl rfl⟩

omit [DecidableEq τ] in
lemma refines_new : (new : HotMap K V τ).Refines bytes (Atomic.start (fun _ => none)) := by
  refine ⟨⟨fun t => ?_, nofun, nofun, nofun, fun _ _ _ _ => rfl⟩, rfl, fun _ => rfl⟩
  exact ⟨nofun, nofun⟩

theorem run_explained {m : HotMap K V τ} {tr : List (HotMap K V τ × Atomic.Label τ (HotOp K V) (Option V))}
    (hrun : Run (Step bytes) new tr m) (htime : ∀ x ∈ tr, x.1.Timely bytes x.2) :
    Atomic.Explained HotOp.onMap (fun _ => none) (Atomic.history tr) :=
  Atomic.explained_of_simulation (R := Refines bytes) refines_new (fun _ _ _ _ h hC hs => h.step hC hs) hrun htime

theorem run_explained_insert : ∃ (tr : List (HotMap ℕ ℕ ℕ × Atomic.Label ℕ (HotOp ℕ ℕ) (Option ℕ))) (m : HotMap ℕ ℕ ℕ),
      Run (Step (fun _ => [])) new tr m ∧ Atomic.history tr = [.call 0 (.insert 0 1), .ret 0 none] ∧
        Atomic.Explained HotOp.onMap (fun _ => none) (Atomic.history tr) := by
  have hrun : Run (Step (fun _ => [])) (new : HotMap ℕ ℕ ℕ) _ _ :=
    cons (e := .call 0 (.insert 0 1)) (Step.call rfl) (cons (e := .tick 0) (Step.loadFlag rfl)
      (cons (e := .tick 0) (Step.tryLock rfl rfl) (cons (e := .tick 0) (Step.access rfl)
        (cons (e := .ret 0 none) (Step.ret rfl) nil))))
  refine ⟨_, _, hrun, rfl, run_explained hrun ?_⟩
  simp only [forall_mem_cons, not_mem_nil, false_imp_iff, implies_true, and_true]
  exact ⟨timely_of_unsplit rfl, timely_of_unsplit rfl, timely_of_unsplit rfl, timely_of_unsplit rfl, timely_of_unsplit rfl⟩

end HotMap

end NodeKernel
