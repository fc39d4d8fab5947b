import NodeKernel.Memory.CacheState
import NodeKernel.Memory.Pmm

/-!
# Reading through the page cache

`read_bytes` takes a file page by page, from the cache or through the loader of the caller. Calls come one after
another here. A page needs a frame of its own, so that a read ends early where the allocator has none left.
-/
namespace NodeKernel

open List PageCacheState

structure CachedPages where
  cache : PageCacheState (List UInt8)
  orderly : cache.Orderly
  free : ℕ

namespace CachedPages

/-- The frame of a new page is taken, those of the pages that are dropped are given back. -/
def insertFrame (m : CachedPages) {key : CacheKey} (hnew : m.cache.entries.get key = none) (page : List UInt8) :
    CachedPages where
  cache := (m.cache.insertFrame key page).1
  orderly := m.orderly.insertFrame (.inl hnew)
  free := m.free - 1 + (m.cache.insertFrame key page).2.length

def filled (loaded : List UInt8) : List UInt8 := loaded ++ List.replicate (pageSize - loaded.length) 0

/-- The bytes of the page; there are none for frame 0. A loader that gives nothing stops the kernel. -/
def getOrLoadPage (m : CachedPages) (ino pageOff : ℕ) (loader : ℕ → Option (List UInt8)) :
    Option (Option (List UInt8) × CachedPages) :=
  match h : m.cache.entries.get (cacheKey ino pageOff) with
  | some page => some (some page, m)
  | none =>
    if m.free = 0 then some (none, m)
    else
      match loader pageOff with
      | none => none
      | some loaded =>
        if loaded = [] then some (none, m)
        else some (some (filled loaded), m.insertFrame h (filled loaded))

lemma inner_lt (pos : ℕ) : pos - pos / pageSize * pageSize < pageSize := by
  have hmod := Nat.mod_lt pos (show 0 < pageSize by decide)
  have hdiv := Nat.div_add_mod' pos pageSize
  omega

/-- `left` bytes from `pos` on are still to be read. -/
def readBytes (m : CachedPages) (ino : ℕ) (loader : ℕ → Option (List UInt8)) (pos left : ℕ) :
    Option (List UInt8 × CachedPages) :=
  if left = 0 then some ([], m)
  else
    let pageOff := pos / pageSize * pageSize
    let inner := pos - pageOff
    let can := min (pageSize - inner) left
    match m.getOrLoadPage ino pageOff loader with
    | none => none
    | some (none, m) => some ([], m)
    | some (some page, m) =>
      (m.readBytes ino loader (pos + can) (left - can)).map (fun r => ((page.drop inner).take can ++ r.1, r.2))
termination_by left
decreasing_by
  have hinner := inner_lt pos
  omega

def invalidate (m : CachedPages) (ino : ℕ) : CachedPages where
  cache := (m.cache.invalidate ino).1
  orderly := m.orderly.invalidate ino
  free := m.free + (m.cache.invalidate ino).2.length

/-! ## What a read returns -/

def room (m : CachedPages) : ℕ := maxPages - m.cache.lru.length

/-- The part of some bytes that the frames suffice for, none of which is cached. -/
def reach (m : CachedPages) (bytes : List UInt8) : List UInt8 :=
  if m.room < m.free then bytes else bytes.take (pageSize * m.free)

def readable (m : CachedPages) (ino : ℕ) (bytes : List UInt8) : List UInt8 :=
  if m.room < m.free then bytes else bytes.take (pageSize * (m.free + (m.cache.keysOf ino).length))

variable {m : CachedPages} {ino pos : ℕ} {loader : ℕ → Option (List UInt8)} {data : List UInt8}

/-- A page takes a frame while there is room, and the frame of another page when there is none. -/
theorem insertFrame_free {key : CacheKey} (hnew : m.cache.entries.get key = none) (page : List UInt8) (hfree : m.free ≠ 0) :
    m.room = (m.insertFrame hnew page).room + 1 ∧ m.free = (m.insertFrame hnew page).free + 1 ∨
      m.room = 0 ∧ (m.insertFrame hnew page).room = 0 ∧ (m.insertFrame hnew page).free = m.free := by
  unfold room insertFrame PageCacheState.insertFrame
  obtain ⟨hlt, he⟩ | ⟨old, lru, a, hl, hfull, -, he⟩ := m.orderly.evict
  · left
    simp only [he, length_append, length_singleton, length_nil]
    omega
  · right
    simp only [he]
    simp only [hl, length_append, length_cons, length_nil]
    omega

lemma insertFrame_get {key k : CacheKey} (hnew : m.cache.entries.get key = none) (page : List UInt8) (hk : k ≠ key)
    (hnone : m.cache.entries.get k = none) : (m.insertFrame hnew page).cache.entries.get k = none := by
  change ((PageCacheState.evict m.cache.entries m.cache.lru).1.entries.insert key page).get k = none
  rw [OrdMap.get_insert, if_neg hk]
  obtain heq | ⟨hgone, -⟩ := m.orderly.evict_get k
  · rw [heq, hnone]
  · exact hgone

lemma reach_append {key : CacheKey} (hnew : m.cache.entries.get key = none) (page : List UInt8) (hfree : m.free ≠ 0)
    (bytes : List UInt8) : m.reach bytes = bytes.take pageSize ++ (m.insertFrame hnew page).reach (bytes.drop pageSize) := by
  unfold reach
  obtain ⟨hroom, hf⟩ | ⟨hroom, hroom', hf⟩ := insertFrame_free hnew page hfree
  · rw [hroom, hf]
    by_cases hlt : (m.insertFrame hnew page).room < (m.insertFrame hnew page).free
    · rw [if_pos (Nat.succ_lt_succ hlt), if_pos hlt, take_append_drop]
    · rw [if_neg (by omega), if_neg hlt, Nat.mul_succ, Nat.add_comm, take_add]
  · have hpos : 0 < m.free := Nat.pos_of_ne_zero hfree
    rw [hroom, hroom', hf, if_pos hpos, if_pos hpos, take_append_drop]

lemma cacheKey_inj {ino off off' : ℕ} (h : cacheKey ino off = cacheKey ino off') : off = off' :=
  (Prod.mk.inj (toLex.injective h)).2

@[simp]
lemma reach_nil : m.reach [] = [] := by
  unfold reach
  rw [take_nil, ite_self]

lemma readBytes_zero : m.readBytes ino loader pos 0 = some ([], m) := by
  rw [readBytes, if_pos rfl]

lemma getOrLoadPage_new {loaded : List UInt8} (hnew : m.cache.entries.get (cacheKey ino pos) = none)
    (hload : loader pos = some loaded) (hne : loaded ≠ []) : m.getOrLoadPage ino pos loader =
      if m.free = 0 then some (none, m)
      else some (some (filled loaded), m.insertFrame hnew (filled loaded)) := by
  unfold getOrLoadPage
  split
  next page hpage => cases hnew.symm.trans hpage
  · rw [hload]; simp only [if_neg hne]

lemma readBytes_eq (hload : ∀ off, off ≤ data.length → loader off = some ((data.drop off).take pageSize))
    (hpos : pos % pageSize = 0) (hnew : ∀ off, pos ≤ off → m.cache.entries.get (cacheKey ino off) = none) :
    ∃ m', m.readBytes ino loader pos (data.length - pos) = some (m.reach (data.drop pos), m') := by
  induction hn : data.length - pos using Nat.strong_induction_on generalizing m pos with
  | _ left ih =>
    by_cases hzero : left = 0
    · rw [hzero, readBytes_zero, drop_of_length_le (by omega), reach_nil]
      exact ⟨m, rfl⟩
    have hoff : pos / pageSize * pageSize = pos := Nat.div_mul_cancel (Nat.dvd_of_mod_eq_zero hpos)
    have hlen : ((data.drop pos).take pageSize).length = min pageSize left := by
      rw [length_take, length_drop, hn]
    have hne : (data.drop pos).take pageSize ≠ [] := by
      rw [Ne, ← length_eq_zero_iff, hlen, pageSize]
      omega
    have hpage := getOrLoadPage_new (hnew pos le_rfl) (hload pos (by omega)) hne
    rw [readBytes, if_neg hzero]
    simp only [hoff, Nat.sub_self, Nat.sub_zero, drop_zero, hpage]
    by_cases hfree : m.free = 0
    · rw [if_pos hfree]
      exact ⟨m, by simp [reach, hfree]⟩
    rw [if_neg hfree]
    generalize hm₁ : m.insertFrame (hnew pos le_rfl) _ = m₁
    -- the rest of the file, which the first page may be all of
    have hrest : ∃ m', m₁.readBytes ino loader (pos + min pageSize left) (left - min pageSize left) =
        some (m₁.reach ((data.drop pos).drop pageSize), m') := by
      by_cases hlast : left ≤ pageSize
      · rw [Nat.min_eq_right hlast, Nat.sub_self, readBytes_zero, drop_of_length_le (by simp; omega), reach_nil]
        exact ⟨m₁, rfl⟩
      · rw [Nat.min_eq_left (by omega), drop_drop]
        have hstep : 0 < pageSize := by decide
        refine ih (left - pageSize) (by omega) (by rw [Nat.add_mod_right, hpos]) (fun off hle => ?_) (by omega)
        rw [← hm₁]
        exact insertFrame_get _ _ (fun hk => by have := cacheKey_inj hk; omega) (hnew off (by omega))
    obtain ⟨m', hm'⟩ := hrest
    refine ⟨m', ?_⟩
    dsimp only
    rw [hm', Option.map_some, reach_append (hnew pos le_rfl) _ hfree, hm₁, filled, take_left' hlen]

lemma readBytes_unloaded (hload : ∀ off, loader off = some []) (left : ℕ) :
    ∃ bytes, m.readBytes ino loader pos left = some (bytes, m) := by
  induction left using Nat.strong_induction_on generalizing pos with
  | _ left ih =>
    by_cases hzero : left = 0
    · exact ⟨[], by rw [hzero, readBytes_zero]⟩
    have hpage : ∀ off, ∃ page, m.getOrLoadPage ino off loader = some (page, m) := by
      intro off
      unfold getOrLoadPage
      split
      next page _ => exact ⟨some page, rfl⟩
      · exact ⟨none, by rw [hload]; simp⟩
    rw [readBytes, if_neg hzero]
    obtain ⟨page, hpage⟩ := hpage (pos / pageSize * pageSize)
    simp only [hpage]
    cases page with
    | none => exact ⟨[], rfl⟩
    | some page =>
      have hcan : 0 < min (pageSize - (pos - pos / pageSize * pageSize)) left := by
        have hinner := inner_lt pos
        omega
      generalize min (pageSize - (pos - pos / pageSize * pageSize)) left = can at hcan ⊢
      obtain ⟨bytes, hbytes⟩ : ∃ bytes, m.readBytes ino loader (pos + can) (left - can) = some (bytes, m) :=
        ih (left - can) (by omega)
      dsimp only
      rw [hbytes]
      exact ⟨_, rfl⟩

lemma invalidate_free (m : CachedPages) (ino : ℕ) : (m.invalidate ino).free = m.free + (m.cache.keysOf ino).length := by
  have hkeys : ∀ e ∈ m.cache.entries.entries, (e.1 ∈ m.cache.keysOf ino ↔ e.1.ino = ino) := by
    intro e he
    rw [mem_keysOf, OrdMap.isSome_get]
    exact and_iff_right (mem_map_of_mem he)
  unfold invalidate PageCacheState.invalidate
  dsimp only
  rw [length_map, filter_congr (fun e he => decide_eq_decide.mpr (hkeys e he)), keysOf, filter_map, length_map]
  rfl

lemma invalidate_lru (m : CachedPages) (ino : ℕ) :
    (m.invalidate ino).cache.lru.length + (m.cache.keysOf ino).length = m.cache.lru.length := by
  have hperm : (m.cache.keysOf ino).Perm (m.cache.lru.filter (fun k => k ∈ m.cache.keysOf ino)) := by
    have hnodup : (m.cache.keysOf ino).Nodup := m.cache.entries.keys_nodup.filter _
    refine (perm_ext_iff_of_nodup hnodup (m.orderly.nodup.filter _)).mpr (fun k => ?_)
    simp only [mem_filter, decide_eq_true_eq, m.orderly.listed, mem_keysOf, and_self_left]
  have hsplit := m.cache.lru.length_eq_length_filter_add (fun k => decide (k ∈ m.cache.keysOf ino))
  rw [hsplit, ← hperm.length_eq, Nat.add_comm]
  simp [invalidate, PageCacheState.invalidate]

lemma reach_invalidate (m : CachedPages) (ino : ℕ) (bytes : List UInt8) :
    (m.invalidate ino).reach bytes = m.readable ino bytes := by
  have hlru := m.invalidate_lru ino
  have hbound := m.orderly.bound
  unfold reach readable room
  rw [invalidate_free]
  congr 1
  rw [eq_iff_iff]
  omega

lemma invalidate_none (m : CachedPages) (ino off : ℕ) : (m.invalidate ino).cache.entries.get (cacheKey ino off) = none :=
  (invalidate_get (cacheKey ino off)).trans (if_pos rfl)

lemma invalidate_other (m : CachedPages) {ino other : ℕ} (hne : other ≠ ino) (off : ℕ) :
    (m.invalidate ino).cache.entries.get (cacheKey other off) = m.cache.entries.get (cacheKey other off) :=
  (invalidate_get (cacheKey other off)).trans (if_neg hne)

end CachedPages

end NodeKernel
