import Mathlib.Data.List.Nodup
import Mathlib.Data.List.Pairwise
import Mathlib.Data.Prod.Lex

/-!
# Ordered maps

A map as the list of its entries in the order of their keys, and the search for the last entry
up to a bound.
-/
namespace NodeKernel

open List

structure OrdMap (κ β : Type) [LinearOrder κ] where
  entries : List (κ × β)
  sorted : entries.Pairwise (fun a b => a.1 < b.1)

namespace OrdMap
variable {κ β : Type} [LinearOrder κ]

def empty : OrdMap κ β := ⟨[], List.Pairwise.nil⟩

def insert (m : OrdMap κ β) (k : κ) (b : β) : OrdMap κ β where
  entries := m.entries.filter (fun e => e.1 < k) ++ (k, b) :: m.entries.filter (fun e => k < e.1)
  sorted := by
    have hlow : ∀ e ∈ m.entries.filter (fun e => e.1 < k), e.1 < k :=
      fun e he => of_decide_eq_true (List.mem_filter.mp he).2
    have hhigh : ∀ e ∈ m.entries.filter (fun e => k < e.1), k < e.1 :=
      fun e he => of_decide_eq_true (List.mem_filter.mp he).2
    refine List.pairwise_append.mpr ⟨m.sorted.filter _,
      List.pairwise_cons.mpr ⟨hhigh, m.sorted.filter _⟩, ?_⟩
    intro a ha b hb
    rcases List.mem_cons.mp hb with hb | hb
    · exact hb ▸ hlow a ha
    · exact (hlow a ha).trans (hhigh b hb)

def erase (m : OrdMap κ β) (k : κ) : OrdMap κ β := ⟨m.entries.filter (fun e => e.1 ≠ k), m.sorted.filter _⟩

def filterKeys (m : OrdMap κ β) (p : κ → Bool) : OrdMap κ β :=
  ⟨m.entries.filter (fun e => p e.1), m.sorted.filter _⟩

def modify (m : OrdMap κ β) (k : κ) (f : β → β) : OrdMap κ β where
  entries := m.entries.map (fun e => if e.1 = k then (e.1, f e.2) else e)
  sorted := by
    have hkey : ∀ e : κ × β, (if e.1 = k then (e.1, f e.2) else e).1 = e.1 := by
      intro e
      split_ifs <;> rfl
    refine List.pairwise_map.mpr (m.sorted.imp fun {a b} hlt => ?_)
    rw [hkey a, hkey b]
    exact hlt

def lastLE (m : OrdMap κ β) (k : κ) (p : κ → Bool) : Option (κ × β) :=
  (m.entries.filter (fun e => e.1 ≤ k)).reverse.find? (fun e => p e.1)

variable {m : OrdMap κ β} {k k' : κ} {b : β} {e : κ × β} {p : κ → Bool}

lemma mem_insert : e ∈ (m.insert k b).entries ↔ e = (k, b) ∨ (e ∈ m.entries ∧ e.1 ≠ k) := by
  change e ∈ m.entries.filter _ ++ (k, b) :: m.entries.filter _ ↔ _
  simp only [mem_append, mem_cons, mem_filter, decide_eq_true_eq]
  constructor
  · intro he
    rcases he with he | he | he
    · exact .inr ⟨he.1, ne_of_lt he.2⟩
    · exact .inl he
    · exact .inr ⟨he.1, (ne_of_lt he.2).symm⟩
  · intro he
    rcases he with he | he
    · exact .inr (.inl he)
    · rcases lt_or_gt_of_ne he.2 with hlt | hgt
      · exact .inl ⟨he.1, hlt⟩
      · exact .inr (.inr ⟨he.1, hgt⟩)

lemma keys_nodup (m : OrdMap κ β) : (m.entries.map Prod.fst).Nodup :=
  List.pairwise_map.mpr (m.sorted.imp fun {_ _} hlt => ne_of_lt hlt)

lemma eq_of_key (m : OrdMap κ β) {e e' : κ × β} (he : e ∈ m.entries) (he' : e' ∈ m.entries) (h : e.1 = e'.1) : e = e' := by
  exact inj_on_of_nodup_map m.keys_nodup he he' h

lemma mem_erase : e ∈ (m.erase k).entries ↔ e ∈ m.entries ∧ e.1 ≠ k := by
  change e ∈ m.entries.filter _ ↔ _
  rw [mem_filter, decide_eq_true_eq]

lemma mem_modify {f : β → β} : e ∈ (m.modify k f).entries ↔ ∃ b, (e.1, b) ∈ m.entries ∧ e.2 = if e.1 = k then f b else b := by
  change e ∈ m.entries.map _ ↔ _
  rw [mem_map]
  constructor
  · rintro ⟨⟨k', b⟩, hmem, rfl⟩
    split_ifs with hk
    · exact ⟨b, hmem, rfl⟩
    · exact ⟨b, hmem, rfl⟩
  · rintro ⟨b, hmem, hb⟩
    refine ⟨_, hmem, ?_⟩
    split_ifs at hb ⊢ <;> exact Prod.ext rfl hb.symm

lemma find?_falling {es : List (κ × β)} (h : es.Pairwise (fun a b => b.1 < a.1)) : es.find? (fun e => p e.1) = some e ↔
      e ∈ es ∧ p e.1 = true ∧ ∀ e' ∈ es, p e'.1 = true → e'.1 ≤ e.1 := by
  induction es with
  | nil => simp
  | cons a es ih =>
    obtain ⟨hlt, hes⟩ := List.pairwise_cons.mp h
    cases ha : p a.1 with
    | true =>
      rw [find?_cons, ha, Option.some.injEq]
      constructor
      · intro he
        subst he
        refine ⟨mem_cons_self, ha, ?_⟩
        intro e' he' _
        rcases List.mem_cons.mp he' with he' | he'
        · exact he' ▸ le_rfl
        · exact (hlt e' he').le
      · intro he
        obtain ⟨hmem, _, hmax⟩ := he
        rcases List.mem_cons.mp hmem with he | he
        · exact he.symm
        · exact absurd (hmax a mem_cons_self ha) (not_le_of_gt (hlt e he))
    | false =>
      rw [find?_cons, ha, ih hes]
      constructor
      · intro he
        refine ⟨mem_cons_of_mem a he.1, he.2.1, ?_⟩
        intro e' he' hp
        rcases List.mem_cons.mp he' with he' | he'
        · rw [he', ha] at hp
          cases hp
        · exact he.2.2 e' he' hp
      · intro he
        refine ⟨?_, he.2.1, fun e' he' => he.2.2 e' (mem_cons_of_mem a he')⟩
        rcases List.mem_cons.mp he.1 with hea | hmem
        · rw [hea, ha] at he
          cases he.2.1
        · exact hmem

lemma lastLE_eq_some : m.lastLE k p = some e ↔ e ∈ m.entries ∧ e.1 ≤ k ∧ p e.1 = true ∧
    ∀ e' ∈ m.entries, e'.1 ≤ k → p e'.1 = true → e'.1 ≤ e.1 := by
  have hfall : (m.entries.filter (fun e => e.1 ≤ k)).reverse.Pairwise (fun a b => b.1 < a.1) :=
    List.pairwise_reverse.mpr (m.sorted.filter _)
  unfold lastLE
  rw [find?_falling hfall]
  simp only [mem_reverse, mem_filter, decide_eq_true_eq, and_imp, and_assoc]

lemma lastLE_eq_none : m.lastLE k p = none ↔ ∀ e ∈ m.entries, e.1 ≤ k → p e.1 = false := by
  unfold lastLE
  simp only [find?_eq_none, mem_reverse, mem_filter, decide_eq_true_eq, and_imp, Bool.not_eq_true]

lemma lastLE_insert : (m.insert k' b).lastLE k p =
    if k' ≤ k ∧ p k' = true ∧ ∀ e ∈ m.entries, e.1 ≤ k → p e.1 = true → e.1 ≤ k' then some (k', b)
    else m.lastLE k p := by
  by_cases hnew : k' ≤ k ∧ p k' = true ∧ ∀ e ∈ m.entries, e.1 ≤ k → p e.1 = true → e.1 ≤ k'
  · rw [if_pos hnew]
    refine lastLE_eq_some.mpr ⟨mem_insert.mpr (.inl rfl), hnew.1, hnew.2.1, ?_⟩
    intro e he hle hp
    rcases mem_insert.mp he with he | he
    · exact he ▸ le_rfl
    · exact hnew.2.2 e he.1 hle hp
  · rw [if_neg hnew]
    cases hold : m.lastLE k p with
    | none =>
      rw [lastLE_eq_none] at hold ⊢
      intro e he hle
      cases mem_insert.mp he with
      | inr he => exact hold e he.1 hle
      | inl he =>
        subst he
        cases hp : p k' with
        | false => rfl
        | true =>
          refine absurd ⟨hle, hp, ?_⟩ hnew
          intro e' he' hle' hp'
          rw [hold e' he' hle'] at hp'
          cases hp'
    | some e =>
      obtain ⟨hmem, hle, hp, hmax⟩ := lastLE_eq_some.mp hold
      -- the entry found before is after the new one
      have hafter : k' ≤ k → p k' = true → k' < e.1 := by
        intro hle' hp'
        by_contra hnot
        refine hnew ⟨hle', hp', ?_⟩
        intro e' he' hle'' hp''
        exact (hmax e' he' hle'' hp'').trans (not_lt.mp hnot)
      refine lastLE_eq_some.mpr ⟨mem_insert.mpr (.inr ⟨hmem, ?_⟩), hle, hp, ?_⟩
      · intro he
        exact absurd (hafter (he ▸ hle) (he ▸ hp)) (by rw [he]; exact lt_irrefl k')
      · intro e' he' hle' hp'
        rcases mem_insert.mp he' with he' | he'
        · subst he'
          exact (hafter hle' hp').le
        · exact hmax e' he'.1 hle' hp'

def get (m : OrdMap κ β) (k : κ) : Option β := (m.entries.find? (fun e => e.1 = k)).map Prod.snd

lemma get_eq_some : m.get k = some b ↔ (k, b) ∈ m.entries := by
  unfold get
  constructor
  · intro h
    obtain ⟨e, he, rfl⟩ := Option.map_eq_some_iff.mp h
    have hkey : e.1 = k := by simpa using find?_some he
    exact hkey ▸ mem_of_find?_eq_some he
  · intro hmem
    cases hfind : m.entries.find? (fun e => e.1 = k) with
    | none => simpa using List.find?_eq_none.mp hfind (k, b) hmem
    | some e =>
      have hkey : e.1 = k := by simpa using find?_some hfind
      have he := m.eq_of_key (mem_of_find?_eq_some hfind) hmem hkey
      rw [he]
      rfl

lemma get_insert : (m.insert k b).get k' = if k' = k then some b else m.get k' := by
  ext c
  rw [get_eq_some, mem_insert]
  split_ifs with hk
  · simp [hk, eq_comm]
  · simp [hk, get_eq_some]

lemma get_erase : (m.erase k).get k' = if k' = k then none else m.get k' := by
  ext c
  rw [get_eq_some, mem_erase]
  split_ifs with hk
  · simp [hk]
  · simp [hk, get_eq_some]

@[simp] lemma get_empty : (empty : OrdMap κ β).get k = none := rfl

lemma get_filterKeys : (m.filterKeys p).get k = if p k = true then m.get k else none := by
  ext c
  rw [get_eq_some]
  change (k, c) ∈ m.entries.filter _ ↔ _
  rw [mem_filter, ← get_eq_some]
  split_ifs with hp
  · simp [hp]
  · simp [hp]

lemma get_modify {f : β → β} : (m.modify k f).get k' = (m.get k').map (fun b => if k' = k then f b else b) := by
  ext c
  rw [get_eq_some, mem_modify, Option.map_eq_some_iff]
  simp only [get_eq_some]
  exact exists_congr (fun b => and_congr_right (fun _ => eq_comm))

lemma isSome_get : (m.get k).isSome = true ↔ k ∈ m.entries.map Prod.fst := by
  rw [Option.isSome_iff_exists, mem_map]
  constructor
  · rintro ⟨b, hb⟩
    exact ⟨(k, b), get_eq_some.mp hb, rfl⟩
  · rintro ⟨e, he, rfl⟩
    exact ⟨e.2, get_eq_some.mpr he⟩

end OrdMap
end NodeKernel
