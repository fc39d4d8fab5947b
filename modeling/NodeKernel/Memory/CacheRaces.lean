import Mathlib.Algebra.Group.Nat.Defs
import Mathlib.Data.Finset.Basic
import NodeKernel.Lib.Run
import NodeKernel.Memory.CacheState

/-!
# The page cache under concurrency

A read or write looks a page up under the lock of the cache, and takes the lock again to insert a page that was
missing. The loader and the rest of the kernel are free in what they do.
-/
namespace NodeKernel

open List Finset Option OrdMap

variable {τ : Type}

structure CacheEntry where
  physFrame : ℕ
  dirty : Bool
  deriving DecidableEq

/-- The loop of `read_bytes` or `write_bytes`: the bytes from `pos` on, of which `left` are still to be done. -/
structure CacheJob where
  ino : ℕ
  pos : ℕ
  left : ℕ
  write : Bool

namespace CacheJob

def pageOff (j : CacheJob) : ℕ := j.pos / 4096 * 4096

def key (j : CacheJob) : CacheKey := cacheKey j.ino j.pageOff

def can (j : CacheJob) : ℕ := min (4096 - (j.pos - j.pageOff)) j.left

def next (j : CacheJob) : CacheJob := { j with pos := (j.pos + j.can) % 2 ^ 64, left := j.left - j.can }

end CacheJob

inductive CacheThread
  | idle
  | looking (j : CacheJob)
  | missed (j : CacheJob)
  | filling (j : CacheJob) (phys : ℕ)
  | inserting (j : CacheJob) (phys : ℕ)
  | marking (j : CacheJob)
  | invalidating (ino : ℕ)

/-- A thread that has got the frame of its page goes on; frame 0 stands for none. -/
def CacheThread.withFrame (j : CacheJob) (phys : ℕ) : CacheThread :=
  if phys = 0 then .idle else if j.write then .marking j else .looking j.next

def CacheThread.frame : CacheThread → Option ℕ
  | filling _ phys | inserting _ phys => some phys
  | _ => none

/-- The cache, the frames that the allocator has handed out, and a record: the frames that have left the cache, and
those of them that were given back. -/
structure CacheWorld (τ : Type) where
  cache : PageCacheState CacheEntry
  out : Finset ℕ
  gone : List ℕ
  returned : List ℕ
  threads : τ → CacheThread

namespace CacheWorld

def goto [DecidableEq τ] (w : CacheWorld τ) (t : τ) (p : CacheThread) : CacheWorld τ :=
  { w with threads := Function.update w.threads t p }

def drop (w : CacheWorld τ) (r : PageCacheState CacheEntry × List CacheEntry) : CacheWorld τ :=
  let frames := r.2.map CacheEntry.physFrame
  { w with
    cache := r.1
    out := w.out \ frames.toFinset
    gone := w.gone ++ frames
    returned := w.returned ++ frames }

/-- The entry that an insertion replaces when room has been made: its frame leaves the cache as well. -/
def replaced (c : PageCacheState CacheEntry) (key : CacheKey) : List ℕ :=
  (((PageCacheState.evict c.entries c.lru).1.entries.get key).map CacheEntry.physFrame).toList

def insertFrame (w : CacheWorld τ) (key : CacheKey) (phys : ℕ) (dirty : Bool) : CacheWorld τ :=
  { w.drop (w.cache.insertFrame key ⟨phys, dirty⟩) with
    gone := w.gone ++ (w.cache.insertFrame key ⟨phys, dirty⟩).2.map CacheEntry.physFrame ++ replaced w.cache key }

def markDirty (w : CacheWorld τ) (key : CacheKey) : CacheWorld τ :=
  { w with cache := { w.cache with entries := w.cache.entries.modify key (fun e => { e with dirty := true }) } }

def Ours (w : CacheWorld τ) (f : ℕ) : Prop :=
  (∃ k e, w.cache.entries.get k = some e ∧ e.physFrame = f) ∨ ∃ t, (w.threads t).frame = some f

/-- The steps of thread `t`, under `some t`; under `none` the rest of the kernel takes and frees frames of its own. -/
inductive Step [DecidableEq τ] : CacheWorld τ → Option τ → CacheWorld τ → Prop
  | start {w t} (j : CacheJob) : w.threads t = .idle → Step w (some t) (w.goto t (.looking j))
  | startInvalidate {w t} (ino : ℕ) : w.threads t = .idle → Step w (some t) (w.goto t (.invalidating ino))
  | finish {w t j} : w.threads t = .looking j → j.left = 0 → Step w (some t) (w.goto t .idle)
  | hit {w t j e} : w.threads t = .looking j → j.left ≠ 0 → w.cache.entries.get j.key = some e →
      Step w (some t) (w.goto t (.withFrame j e.physFrame))
  | miss {w t j} : w.threads t = .looking j → j.left ≠ 0 → w.cache.entries.get j.key = none →
      Step w (some t) (w.goto t (.missed j))
  | noFrame {w t j} : w.threads t = .missed j → Step w (some t) (w.goto t .idle)
  | allocFrame {w t j} (phys : ℕ) : w.threads t = .missed j → phys ∉ w.out →
      Step w (some t)
        ({ w with out := insert phys w.out }.goto t (if j.write then .inserting j phys else .filling j phys))
  | loaded {w t j phys} : w.threads t = .filling j phys → Step w (some t) (w.goto t (.inserting j phys))
  | eof {w t j phys} : w.threads t = .filling j phys →
      Step w (some t) ({ w with out := w.out.erase phys }.goto t .idle)
  | insertFrame {w t j phys} : w.threads t = .inserting j phys →
      Step w (some t) ((w.insertFrame j.key phys j.write).goto t (.withFrame j phys))
  | markDirty {w t j} : w.threads t = .marking j →
      Step w (some t) ((w.markDirty j.key).goto t (.looking j.next))
  | invalidate {w t ino} : w.threads t = .invalidating ino →
      Step w (some t) ((w.drop (w.cache.invalidate ino)).goto t .idle)
  | others {w} (out : Finset ℕ) : (∀ f, w.Ours f → f ∈ out) → Step w none { w with out := out }

def start (out : Finset ℕ) : CacheWorld τ := ⟨PageCacheState.empty, out, [], [], fun _ => .idle⟩

structure Consistent (w : CacheWorld τ) : Prop where
  nodup : w.cache.lru.Nodup
  listed : ∀ k, k ∈ w.cache.lru ↔ (w.cache.entries.get k).isSome = true
  bound : w.cache.entries.entries.length ≤ PageCacheState.maxPages
  frames : (w.cache.entries.entries.map (fun e => e.2.physFrame)).Nodup
  balanced : ∀ f, w.gone.count f = w.returned.count f

/-- An insertion finds its page missing, or makes it go. -/
def InsertsFresh (w : CacheWorld τ) (e : Option τ) : Prop :=
  ∀ t j phys, e = some t → w.threads t = .inserting j phys → w.cache.Fresh j.key

/-- The cache is in order, and every frame of it or of a caller has one owner and is handed out. -/
structure Tidy (w : CacheWorld τ) : Prop where
  orderly : w.cache.Orderly
  alone : ∀ k k' e e', w.cache.entries.get k = some e → w.cache.entries.get k' = some e' →
    e.physFrame = e'.physFrame → k = k'
  apart : ∀ k e t, w.cache.entries.get k = some e → (w.threads t).frame ≠ some e.physFrame
  single : ∀ t t' f, (w.threads t).frame = some f → (w.threads t').frame = some f → t = t'
  ours : ∀ f, w.Ours f → f ∈ w.out
  balanced : w.gone = w.returned

variable {w : CacheWorld τ} {t : τ} {p q : CacheThread} {f : ℕ}

lemma Tidy.start (out : Finset ℕ) : (start out : CacheWorld τ).Tidy := by
  refine ⟨.empty, fun _ _ _ _ he => ?_, fun _ _ _ he => ?_, fun _ _ _ ht => ?_, fun _ hf => ?_, rfl⟩
  · cases he
  · cases he
  · cases ht
  · obtain ⟨_, _, he, -⟩ | ⟨_, ht⟩ := hf
    · cases he
    · cases ht

lemma Tidy.drop {r : PageCacheState CacheEntry × List CacheEntry} (h : w.Tidy) (hr : w.cache.Drops r) : (w.drop r).Tidy := by
  refine ⟨hr.orderly, fun k k' e e' he he' => h.alone k k' e e' (hr.kept k e he) (hr.kept k' e' he'),
    fun k e t he => h.apart k e t (hr.kept k e he), h.single, fun f hf => ?_, by simp [CacheWorld.drop, h.balanced]⟩
  have hold : w.Ours f := hf.imp (fun ⟨k, e, he, hfe⟩ => ⟨k, e, hr.kept k e he, hfe⟩) id
  refine mem_sdiff.mpr ⟨h.ours f hold, fun hfr => ?_⟩
  -- a frame that was given back was under a key that is cached no more
  obtain ⟨a, ha, rfl⟩ := mem_map.mp (mem_toFinset.mp hfr)
  obtain ⟨k₀, hk₀, hgone⟩ := hr.dropped a ha
  obtain ⟨k, e, he, hfe⟩ | ⟨t, ht⟩ := hf
  · obtain rfl := h.alone k k₀ e a (hr.kept k e he) hk₀ hfe
    rw [show r.1.entries.get k = some e from he] at hgone
    cases hgone
  · exact h.apart k₀ a t hk₀ ht

lemma Tidy.markDirty (h : w.Tidy) (key : CacheKey) : (w.markDirty key).Tidy := by
  have hget : ∀ k e, (w.markDirty key).cache.entries.get k = some e →
      ∃ e₀, w.cache.entries.get k = some e₀ ∧ e₀.physFrame = e.physFrame := by
    intro k e he
    replace he : (w.cache.entries.modify key _).get k = some e := he
    rw [get_modify] at he
    obtain ⟨e₀, he₀, rfl⟩ := map_eq_some_iff.mp he
    refine ⟨e₀, he₀, ?_⟩
    split_ifs <;> rfl
  have hisSome : ∀ k, ((w.markDirty key).cache.entries.get k).isSome = (w.cache.entries.get k).isSome := by
    intro k
    change ((w.cache.entries.modify key _).get k).isSome = _
    rw [get_modify, isSome_map]
  refine ⟨⟨h.orderly.nodup, fun k => ?_, h.orderly.bound⟩, fun k k' e e' he he' hee => ?_, fun k e t he => ?_,
    h.single, fun f hf => h.ours f (hf.imp_left ?_), h.balanced⟩
  · rw [hisSome]
    exact h.orderly.listed k
  · obtain ⟨e₀, he₀, hf⟩ := hget k e he
    obtain ⟨e₁, he₁, hf'⟩ := hget k' e' he'
    exact h.alone k k' e₀ e₁ he₀ he₁ (hf.trans (hee.trans hf'.symm))
  · obtain ⟨e₀, he₀, hf⟩ := hget k e he
    exact hf ▸ h.apart k e₀ t he₀
  · rintro ⟨k, e, he, hfe⟩
    obtain ⟨e₀, he₀, hf⟩ := hget k e he
    exact ⟨k, e₀, he₀, hf.trans hfe⟩

lemma Tidy.consistent (h : w.Tidy) : w.Consistent := by
  refine ⟨h.orderly.nodup, h.orderly.listed, ?_, ?_, fun f => by rw [h.balanced]⟩
  · have hsub : w.cache.entries.entries.map Prod.fst ⊆ w.cache.lru := fun k hk =>
      (h.orderly.listed k).mpr (isSome_get.mpr hk)
    have hle := (w.cache.entries.keys_nodup.subperm hsub).length_le
    rw [length_map] at hle
    exact hle.trans h.orderly.bound
  · refine List.Nodup.map_on (fun e he e' he' hf => ?_) (List.Nodup.of_map _ w.cache.entries.keys_nodup)
    have hk := h.alone e.1 e'.1 e.2 e'.2 (get_eq_some.mpr he) (get_eq_some.mpr he') hf
    exact w.cache.entries.eq_of_key he he' hk

def Leaks (w : CacheWorld τ) : Prop := w.returned.length < w.gone.length

lemma Leaks.not_consistent (h : w.Leaks) : ¬ w.Consistent := by
  intro hc
  have hlen := (perm_iff_count.mpr hc.balanced).length_eq
  unfold Leaks at h
  omega

lemma withFrame_frame (j : CacheJob) (phys : ℕ) : (CacheThread.withFrame j phys).frame = none := by
  unfold CacheThread.withFrame
  split_ifs <;> rfl

variable [DecidableEq τ]

lemma goto_frame (t' : τ) : ((w.goto t p).threads t').frame = if t' = t then p.frame else (w.threads t').frame := by
  simp only [goto, Function.update_apply]
  split_ifs <;> rfl

lemma Tidy.go (h : w.Tidy) (ht : w.threads t = q) (hp : ∀ f, p.frame = some f → q.frame = some f) : (w.goto t p).Tidy := by
  have hsub : ∀ t' f, ((w.goto t p).threads t').frame = some f → (w.threads t').frame = some f := by
    intro t' f hf
    rw [goto_frame] at hf
    split_ifs at hf with htt
    · rw [htt, ht]
      exact hp f hf
    · exact hf
  refine ⟨h.orderly, h.alone, fun k e t' he hf => h.apart k e t' he (hsub t' _ hf),
    fun t₁ t₂ f h₁ h₂ => h.single t₁ t₂ f (hsub t₁ f h₁) (hsub t₂ f h₂), fun f hf => h.ours f ?_, h.balanced⟩
  obtain hc | ⟨t', ht'⟩ := hf
  · exact .inl hc
  · exact .inr ⟨t', hsub t' f ht'⟩

lemma Tidy.allocFrame (h : w.Tidy) (hf : f ∉ w.out) (hp : p.frame = some f) :
    ({ w with out := insert f w.out }.goto t p).Tidy := by
  have hnew : ¬ w.Ours f := fun ho => hf (h.ours f ho)
  have hthread : ∀ t' g, (({ w with out := insert f w.out }.goto t p).threads t').frame = some g →
      t' = t ∧ g = f ∨ t' ≠ t ∧ (w.threads t').frame = some g := by
    intro t' g hg
    rw [goto_frame] at hg
    split_ifs at hg with htt
    · exact .inl ⟨htt, mem_unique hg hp⟩
    · exact .inr ⟨htt, hg⟩
  refine ⟨h.orderly, h.alone, fun k e t' he hg => ?_, fun t₁ t₂ g h₁ h₂ => ?_, fun g hg => ?_, h.balanced⟩
  · obtain ⟨-, hfe⟩ | ⟨-, hg⟩ := hthread t' _ hg
    · exact hnew (.inl ⟨k, e, he, hfe⟩)
    · exact h.apart k e t' he hg
  · obtain ⟨h₁, hg₁⟩ | ⟨-, h₁⟩ := hthread t₁ g h₁
    · obtain ⟨h₂, -⟩ | ⟨-, h₂⟩ := hthread t₂ g h₂
      · rw [h₁, h₂]
      · exact absurd (.inr ⟨t₂, hg₁ ▸ h₂⟩) hnew
    · obtain ⟨-, hg₂⟩ | ⟨-, h₂⟩ := hthread t₂ g h₂
      · exact absurd (.inr ⟨t₁, hg₂ ▸ h₁⟩) hnew
      · exact h.single t₁ t₂ g h₁ h₂
  · obtain hc | ⟨t', hg⟩ := hg
    · exact mem_insert_of_mem (h.ours g (.inl hc))
    · obtain ⟨-, rfl⟩ | ⟨-, hg⟩ := hthread t' g hg
      · exact mem_insert_self _ _
      · exact mem_insert_of_mem (h.ours g (.inr ⟨t', hg⟩))

section
variable (h : w.Tidy) (ht : (w.threads t).frame = some f) (hp : p.frame = none)
include h ht hp

lemma Tidy.eof : ({ w with out := w.out.erase f }.goto t p).Tidy := by
  have hgo : (w.goto t p).Tidy := h.go rfl (by simp [hp])
  refine ⟨hgo.orderly, hgo.alone, hgo.apart, hgo.single, fun g hg => ?_, hgo.balanced⟩
  have hne : g ≠ f := by
    rintro rfl
    obtain ⟨k, e, he, rfl⟩ | ⟨t', ht'⟩ := hg
    · exact h.apart k e t he ht
    · rw [goto_frame] at ht'
      split_ifs at ht' with htt
      · rw [hp] at ht'
        cases ht'
      · exact htt (h.single t' t g ht' ht)
  exact mem_erase.mpr ⟨hne, hgo.ours g hg⟩

lemma Tidy.cached {key : CacheKey} {dirty : Bool} {c : PageCacheState CacheEntry} (hc : c.Orderly)
    (hget : c.entries = w.cache.entries.insert key ⟨f, dirty⟩) : ({ w with cache := c }.goto t p).Tidy := by
  have hentry : ∀ k e, c.entries.get k = some e → k = key ∧ e.physFrame = f ∨ k ≠ key ∧ w.cache.entries.get k = some e := by
    intro k e he
    rw [hget, get_insert] at he
    split_ifs at he with hk
    · cases he
      exact .inl ⟨hk, rfl⟩
    · exact .inr ⟨hk, he⟩
  have hthread : ∀ t' g, (({ w with cache := c }.goto t p).threads t').frame = some g →
      t' ≠ t ∧ (w.threads t').frame = some g := by
    intro t' g hg
    rw [goto_frame] at hg
    split_ifs at hg with htt
    · rw [hp] at hg
      cases hg
    · exact ⟨htt, hg⟩
  refine ⟨hc, fun k k' e e' he he' hee => ?_, fun k e t' he hg => ?_,
    fun t₁ t₂ g h₁ h₂ => h.single t₁ t₂ g (hthread t₁ g h₁).2 (hthread t₂ g h₂).2, fun g hg => h.ours g ?_, h.balanced⟩
  · obtain ⟨rfl, hf⟩ | ⟨-, he⟩ := hentry k e he
    · obtain ⟨rfl, -⟩ | ⟨-, he'⟩ := hentry k' e' he'
      · rfl
      · exact absurd (by rw [ht, ← hee, hf]) (h.apart k' e' t he')
    · obtain ⟨rfl, hf⟩ | ⟨-, he'⟩ := hentry k' e' he'
      · exact absurd (by rw [ht, hee, hf]) (h.apart k e t he)
      · exact h.alone k k' e e' he he' hee
  · obtain ⟨htt, hg⟩ := hthread t' _ hg
    obtain ⟨-, hf⟩ | ⟨-, he⟩ := hentry k e he
    · exact htt (h.single t' t f (hf ▸ hg) ht)
    · exact h.apart k e t' he hg
  · obtain ⟨k, e, he, hfe⟩ | ⟨t', hg⟩ := hg
    · obtain ⟨-, hf⟩ | ⟨-, he⟩ := hentry k e he
      · exact .inr ⟨t, by rw [ht, ← hfe, hf]⟩
      · exact .inl ⟨k, e, he, hfe⟩
    · exact .inr ⟨t', (hthread t' g hg).2⟩

lemma Tidy.insertFrame {key : CacheKey} {dirty : Bool}
    (hf : w.cache.Fresh key) : ((w.insertFrame key f dirty).goto t p).Tidy := by
  have hdrop := h.drop h.orderly.drops_evict
  have hreplaced : replaced w.cache key = [] := by
    unfold replaced
    rw [h.orderly.fresh_iff.mp hf]
    rfl
  have hins := hdrop.cached ht hp (h.orderly.insertFrame (a := ⟨f, dirty⟩) hf) rfl
  unfold CacheWorld.insertFrame
  rw [hreplaced, append_nil]
  exact hins

end

variable {w' : CacheWorld τ} {e : Option τ}

lemma Tidy.step (h : w.Tidy) (hf : w.InsertsFresh e) (hs : Step w e w') : w'.Tidy := by
  cases hs with
  | start j ht | startInvalidate ino ht | finish ht | miss ht | noFrame ht => exact h.go ht nofun
  | hit ht => exact h.go ht (by simp [withFrame_frame])
  | allocFrame phys ht hout => exact h.allocFrame hout (by split_ifs <;> rfl)
  | loaded ht => exact h.go ht (fun f hp => hp)
  | eof ht => exact h.eof (by rw [ht]; rfl) rfl
  | insertFrame ht => exact h.insertFrame (by rw [ht]; rfl) (withFrame_frame _ _) (hf _ _ _ rfl ht)
  | markDirty ht => exact (h.markDirty _).go ht nofun
  | invalidate ht => exact (h.drop (h.orderly.drops_invalidate _)).go ht nofun
  | others out hout => exact ⟨h.orderly, h.alone, h.apart, h.single, hout, h.balanced⟩

lemma Leaks.step (h : w.Leaks) (hs : Step w e w') : w'.Leaks := by
  cases hs with
  | insertFrame ht =>
    simp only [Leaks, goto, insertFrame, drop, length_append] at h ⊢
    omega
  | invalidate ht =>
    simp only [Leaks, goto, drop, length_append] at h ⊢
    omega
  | _ => exact h

lemma Tidy.leaks (h : w.Tidy) (hf : ¬ w.InsertsFresh e) (hs : Step w e w') : w'.Leaks := by
  unfold InsertsFresh at hf
  push Not at hf
  obtain ⟨t, j, phys, rfl, ht, hfresh⟩ := hf
  have hcached := mt h.orderly.fresh_iff.mpr hfresh
  obtain ⟨old, hold⟩ := ne_none_iff_exists'.mp hcached
  cases hs with
  | insertFrame ht' =>
    obtain ⟨rfl, rfl⟩ := CacheThread.inserting.inj (ht'.symm.trans ht)
    simp [Leaks, goto, CacheWorld.insertFrame, CacheWorld.drop, replaced, hold, h.balanced]
  | start _ ht' | startInvalidate _ ht' | finish ht' | hit ht' | miss ht' | noFrame ht' | allocFrame _ ht' | loaded ht'
  | eof ht' | markDirty ht' | invalidate ht' => exact absurd (ht'.symm.trans ht) nofun

lemma run_tidy_or_leaks {out : Finset ℕ} {tr : List (CacheWorld τ × Option τ)} (hrun : Run Step (start out) tr w) :
    ((∀ x ∈ tr, x.1.InsertsFresh x.2) ∧ w.Tidy) ∨ (¬ (∀ x ∈ tr, x.1.InsertsFresh x.2) ∧ w.Leaks) := by
  induction hrun with
  | nil => exact .inl ⟨by simp, .start out⟩
  | @snoc tr w e w' _ hs ih =>
    simp only [forall_mem_append, forall_mem_singleton]
    obtain ⟨hall, htidy⟩ | ⟨hnot, hleaks⟩ := ih
    · by_cases hf : w.InsertsFresh e
      · exact .inl ⟨⟨hall, hf⟩, htidy.step hf hs⟩
      · exact .inr ⟨fun h => hf h.2, htidy.leaks hf hs⟩
    · exact .inr ⟨fun h => hnot h.1, hleaks.step hs⟩

/-- The cache is consistent as long as no insertion meets a page that another thread has put there meanwhile. -/
theorem run_consistent_iff {out : Finset ℕ} {tr : List (CacheWorld τ × Option τ)} (hrun : Run Step (start out) tr w) :
    w.Consistent ↔ ∀ x ∈ tr, x.1.InsertsFresh x.2 := by
  obtain ⟨hall, htidy⟩ | ⟨hnot, hleaks⟩ := run_tidy_or_leaks hrun
  · exact iff_of_true htidy.consistent hall
  · exact iff_of_false hleaks.not_consistent hnot

def firstByte : CacheJob := ⟨1, 0, 1, false⟩

theorem run_consistent_iff_one_reader :
    ∃ tr, ∃ w : CacheWorld Unit, Run Step (start ∅) tr w ∧ w.threads () = .idle ∧ w.cache.lru = [firstByte.key] ∧
      (w.Consistent ↔ ∀ x ∈ tr, x.1.InsertsFresh x.2) := by
  have hrun := Run.nil.snoc (Step.start (w := (start ∅ : CacheWorld Unit)) (t := ()) firstByte rfl)
    |>.snoc (.miss (t := ()) rfl (by decide) rfl)
    |>.snoc (.allocFrame (t := ()) 4096 rfl (by decide))
    |>.snoc (.loaded (t := ()) rfl)
    |>.snoc (.insertFrame (t := ()) rfl)
    |>.snoc (.finish (t := ()) rfl rfl)
  exact ⟨_, _, hrun, rfl, rfl, run_consistent_iff hrun⟩

/-- Two threads miss the same page; both insert it. -/
theorem page_listed_twice :
    ∃ tr, ∃ w : CacheWorld Bool, Run Step (start ∅) tr w ∧ (∀ t, w.threads t = .idle) ∧ ¬ w.Consistent := by
  have hrun := Run.nil.snoc (Step.start (w := (start ∅ : CacheWorld Bool)) (t := true) firstByte rfl)
    |>.snoc (.start (t := false) firstByte rfl)
    |>.snoc (.miss (t := true) rfl (by decide) rfl)
    |>.snoc (.miss (t := false) rfl (by decide) rfl)
    |>.snoc (.allocFrame (t := true) 4096 rfl (by decide))
    |>.snoc (.allocFrame (t := false) 8192 rfl (by decide))
    |>.snoc (.loaded (t := true) rfl)
    |>.snoc (.loaded (t := false) rfl)
    |>.snoc (.insertFrame (t := true) rfl)
    |>.snoc (.insertFrame (t := false) rfl)
    |>.snoc (.finish (t := true) rfl rfl)
    |>.snoc (.finish (t := false) rfl rfl)
  refine ⟨_, _, hrun, fun t => by cases t <;> rfl, fun hc => ?_⟩
  exact absurd hc.nodup (by decide)

end CacheWorld

end NodeKernel
