import NodeKernel.Lib.OrdMap

/-!
# The tables of the page cache

The map of the cached pages and the list of their keys, oldest first. What is kept for a page is a parameter: its
frame, or its bytes.
-/
namespace NodeKernel

open List OrdMap

abbrev CacheKey := ℕ ×ₗ ℕ

def cacheKey (ino pageOff : ℕ) : CacheKey := toLex (ino, pageOff)

def CacheKey.ino (k : CacheKey) : ℕ := (ofLex k).1

structure PageCacheState (α : Type) where
  entries : OrdMap CacheKey α
  lru : List CacheKey

namespace PageCacheState

variable {α : Type}

def maxPages : ℕ := 1024

def empty : PageCacheState α := ⟨OrdMap.empty, []⟩

/-- The loop of `insert_frame` that drops the oldest pages, and what was kept for them. -/
def evict (entries : OrdMap CacheKey α) : List CacheKey → PageCacheState α × List α
  | [] => (⟨entries, []⟩, [])
  | oldKey :: lru =>
    if lru.length + 1 < maxPages then (⟨entries, oldKey :: lru⟩, [])
    else
      match entries.get oldKey with
      | none => evict entries lru
      | some old => let r := evict (entries.erase oldKey) lru; (r.1, old :: r.2)

def insertFrame (c : PageCacheState α) (key : CacheKey) (a : α) : PageCacheState α × List α :=
  let r := evict c.entries c.lru
  (⟨r.1.entries.insert key a, r.1.lru ++ [key]⟩, r.2)

def keysOf (c : PageCacheState α) (ino : ℕ) : List CacheKey :=
  (c.entries.entries.map Prod.fst).filter (fun k => k.ino = ino)

def invalidate (c : PageCacheState α) (ino : ℕ) : PageCacheState α × List α :=
  (⟨c.entries.filterKeys (fun k => k ∉ c.keysOf ino), c.lru.filter (fun k => k ∉ c.keysOf ino)⟩,
    (c.entries.entries.filter (fun e => e.1 ∈ c.keysOf ino)).map Prod.snd)

/-- The list has every cached page once, and not more than there is room for. -/
structure Orderly (c : PageCacheState α) : Prop where
  nodup : c.lru.Nodup
  listed : ∀ k, k ∈ c.lru ↔ (c.entries.get k).isSome = true
  bound : c.lru.length ≤ maxPages

variable {c : PageCacheState α} {key : CacheKey} {a : α} {ino : ℕ}

lemma Orderly.empty : (empty : PageCacheState α).Orderly := ⟨nodup_nil, fun k => by simp [PageCacheState.empty], Nat.zero_le _⟩

lemma evict_of_lt (h : c.lru.length < maxPages) : evict c.entries c.lru = (c, []) := by
  obtain ⟨entries, lru⟩ := c
  cases lru with
  | nil => rfl
  | cons old lru => exact if_pos h

lemma evict_of_full {entries : OrdMap CacheKey α} {old : CacheKey} {lru : List CacheKey}
    (hfull : lru.length + 1 = maxPages) (ha : entries.get old = some a) :
    evict entries (old :: lru) = (⟨entries.erase old, lru⟩, [a]) := by
  have hlt : (⟨entries.erase old, lru⟩ : PageCacheState α).lru.length < maxPages := by
    change lru.length < maxPages
    omega
  unfold evict
  rw [if_neg (by omega), ha]
  rw [evict_of_lt hlt]

lemma Orderly.evict (h : c.Orderly) : (c.lru.length < maxPages ∧ PageCacheState.evict c.entries c.lru = (c, [])) ∨
      ∃ old lru a, c.lru = old :: lru ∧ lru.length + 1 = maxPages ∧ c.entries.get old = some a ∧
        PageCacheState.evict c.entries c.lru = (⟨c.entries.erase old, lru⟩, [a]) := by
  obtain hlt | heq := Nat.lt_or_eq_of_le h.bound
  · exact .inl ⟨hlt, evict_of_lt hlt⟩
  · right
    cases hl : c.lru with
    | nil =>
      rw [hl] at heq
      cases heq
    | cons old lru =>
      obtain ⟨a, ha⟩ := Option.isSome_iff_exists.mp ((h.listed old).mp (hl ▸ mem_cons_self))
      have hfull : lru.length + 1 = maxPages := by rw [← heq, hl, length_cons]
      exact ⟨old, lru, a, rfl, hfull, ha, evict_of_full hfull ha⟩

lemma Orderly.evicted (h : c.Orderly) :
    (PageCacheState.evict c.entries c.lru).1.Orderly ∧ (PageCacheState.evict c.entries c.lru).1.lru.length < maxPages := by
  obtain ⟨hlt, he⟩ | ⟨old, lru, a, hl, hfull, -, he⟩ := h.evict
  · rw [he]
    exact ⟨h, hlt⟩
  · rw [he]
    have hnodup : (old :: lru).Nodup := hl ▸ h.nodup
    refine ⟨⟨hnodup.of_cons, fun k => ?_, ?_⟩, ?_⟩
    · rw [get_erase]
      split_ifs with hk
      · subst hk
        simp [(nodup_cons.mp hnodup).1]
      · rw [← h.listed k, hl, mem_cons]
        simp [hk]
    · change lru.length ≤ maxPages
      omega
    · change lru.length < maxPages
      omega

lemma Orderly.evict_get (h : c.Orderly) (k : CacheKey) :
    (PageCacheState.evict c.entries c.lru).1.entries.get k = c.entries.get k ∨
      (PageCacheState.evict c.entries c.lru).1.entries.get k = none ∧ maxPages ≤ c.lru.length ∧ c.lru.head? = some k := by
  obtain ⟨-, he⟩ | ⟨old, lru, a, hl, hfull, -, he⟩ := h.evict
  · rw [he]
    exact .inl rfl
  · rw [he, hl, get_erase]
    split_ifs with hk
    · exact .inr ⟨rfl, by rw [length_cons, hfull], by rw [hk]; rfl⟩
    · exact .inl rfl

def Fresh (c : PageCacheState α) (key : CacheKey) : Prop :=
  c.entries.get key = none ∨ maxPages ≤ c.lru.length ∧ c.lru.head? = some key

lemma Orderly.fresh_iff (h : c.Orderly) : c.Fresh key ↔ (PageCacheState.evict c.entries c.lru).1.entries.get key = none := by
  unfold Fresh
  obtain ⟨hlt, he⟩ | ⟨old, lru, a, hl, hfull, -, he⟩ := h.evict
  · rw [he]
    constructor
    · rintro (hn | ⟨hle, -⟩)
      · exact hn
      · omega
    · exact .inl
  · rw [he, hl, get_erase, length_cons, hfull]
    by_cases hk : key = old
    · subst hk
      simp
    · simp [hk, Ne.symm hk]

lemma Orderly.insertFrame (h : c.Orderly) (hf : c.Fresh key) : (c.insertFrame key a).1.Orderly := by
  obtain ⟨ho, hlt⟩ := h.evicted
  have hnone := h.fresh_iff.mp hf
  have hnew : key ∉ (PageCacheState.evict c.entries c.lru).1.lru := by
    rw [ho.listed, hnone]
    simp
  refine ⟨?_, fun k => ?_, ?_⟩
  · exact nodup_append.mpr ⟨ho.nodup, nodup_singleton key, fun x hx y hy => by
      rw [mem_singleton.mp hy]
      exact fun hxy => hnew (hxy ▸ hx)⟩
  · change k ∈ _ ++ [key] ↔ ((insert _ key a).get k).isSome = true
    rw [get_insert, mem_append, ho.listed, mem_singleton]
    split_ifs with hk
    · simp [hk]
    · simp [hk]
  · change (_ ++ [key]).length ≤ maxPages
    rw [length_append, length_singleton]
    omega

lemma mem_keysOf {k : CacheKey} : k ∈ c.keysOf ino ↔ (c.entries.get k).isSome = true ∧ k.ino = ino := by
  unfold keysOf
  rw [mem_filter, isSome_get, decide_eq_true_eq]

lemma invalidate_get (k : CacheKey) : (c.invalidate ino).1.entries.get k = if k.ino = ino then none else c.entries.get k := by
  unfold invalidate
  rw [get_filterKeys]
  simp only [decide_eq_true_eq, mem_keysOf]
  cases c.entries.get k with
  | none => simp
  | some a => by_cases hi : k.ino = ino <;> simp [hi]

lemma Orderly.invalidate (h : c.Orderly) (ino : ℕ) : (c.invalidate ino).1.Orderly := by
  refine ⟨h.nodup.filter _, fun k => ?_, (length_filter_le _ _).trans h.bound⟩
  rw [invalidate_get]
  change k ∈ c.lru.filter _ ↔ _
  rw [mem_filter, decide_eq_true_eq, mem_keysOf, h.listed]
  split_ifs with hi
  · simp [hi, Option.isSome_iff_ne_none]
  · simp [hi]

/-- The tables after some pages were dropped, and what was kept for these. -/
structure Drops (c : PageCacheState α) (r : PageCacheState α × List α) : Prop where
  orderly : r.1.Orderly
  kept : ∀ k a, r.1.entries.get k = some a → c.entries.get k = some a
  dropped : ∀ a ∈ r.2, ∃ k, c.entries.get k = some a ∧ r.1.entries.get k = none

lemma Orderly.drops_evict (h : c.Orderly) : c.Drops (PageCacheState.evict c.entries c.lru) := by
  refine ⟨h.evicted.1, fun k a hk => ?_, ?_⟩
  · obtain heq | ⟨hnone, -⟩ := h.evict_get k
    · rw [← heq, hk]
    · rw [hnone] at hk
      cases hk
  · obtain ⟨-, he⟩ | ⟨old, lru, a, -, -, ha, he⟩ := h.evict
    · rw [he]
      simp
    · rw [he]
      intro b hb
      rw [mem_singleton.mp hb]
      exact ⟨old, ha, by rw [get_erase, if_pos rfl]⟩

lemma Orderly.drops_invalidate (h : c.Orderly) (ino : ℕ) : c.Drops (c.invalidate ino) := by
  refine ⟨h.invalidate ino, fun k a hk => ?_, fun a ha => ?_⟩
  · rw [invalidate_get] at hk
    split_ifs at hk
    exact hk
  · obtain ⟨⟨k, b⟩, hb, rfl⟩ := mem_map.mp ha
    obtain ⟨hmem, hk⟩ := mem_filter.mp hb
    have hino := (mem_keysOf.mp (of_decide_eq_true hk)).2
    exact ⟨k, get_eq_some.mpr hmem, by rw [invalidate_get, if_pos hino]⟩

end PageCacheState

end NodeKernel
