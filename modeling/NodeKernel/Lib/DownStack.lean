import NodeKernel.Lib.Bytes

/-!
# Stacks that grow down

A byte memory that is filled from a stack pointer down. `items` records what was pushed, the
last one first, which is the one with the lowest address.
-/
namespace NodeKernel

open List Nat

structure DownStack where
  mem : ByteMem
  sp : ℕ
  items : List (ℕ × List UInt8)

namespace DownStack

def push (s : DownStack) (bytes : List UInt8) : DownStack :=
  ⟨s.mem.store (s.sp - bytes.length) bytes, s.sp - bytes.length, (s.sp - bytes.length, bytes) :: s.items⟩

def lower (s : DownStack) (sp : ℕ) : DownStack := { s with sp }

def pushStrs (s : DownStack) : List (List UInt8) → DownStack × List ℕ
  | [] => (s, [])
  | b :: bs => (((s.push b).pushStrs bs).1, (s.push b).sp :: ((s.push b).pushStrs bs).2)

/-- What was pushed lies between the stack pointer and the top, one item above the other, and is still
there. -/
structure Wf (base top : ℕ) (s : DownStack) : Prop where
  room : base ≤ s.sp ∧ s.sp ≤ top
  inside : ∀ it ∈ s.items, s.sp ≤ it.1 ∧ it.1 + it.2.length ≤ top
  apart : s.items.Pairwise (fun a b => a.1 + a.2.length ≤ b.1)
  held : ∀ it ∈ s.items, s.mem.load it.1 it.2.length = it.2

variable {base top : ℕ} {s : DownStack}

lemma Wf.push (h : s.Wf base top) {bytes : List UInt8} (hlen : base + bytes.length ≤ s.sp) : (s.push bytes).Wf base top := by
  obtain ⟨⟨hbase, htop⟩, hinside, hapart, hheld⟩ := h
  unfold DownStack.push
  refine ⟨⟨?_, ?_⟩, ?_, ?_, ?_⟩
  · dsimp only
    omega
  · dsimp only
    omega
  · intro it hit
    rcases mem_cons.mp hit with rfl | hit
    · dsimp only
      omega
    · have := hinside it hit
      dsimp only
      omega
  · refine pairwise_cons.mpr ⟨?_, hapart⟩
    intro it hit
    have := hinside it hit
    dsimp only
    omega
  · intro it hit
    rcases mem_cons.mp hit with rfl | hit
    · exact ByteMem.load_store_self
    · have hold := hinside it hit
      rw [ByteMem.load_store_apart (by omega)]
      exact hheld it hit

lemma Wf.lower (h : s.Wf base top) (sp : ℕ) (hbase : base ≤ sp) (hsp : sp ≤ s.sp) : (s.lower sp).Wf base top := by
  refine ⟨⟨hbase, le_trans hsp h.room.2⟩, ?_, h.apart, h.held⟩
  intro it hit
  exact ⟨le_trans hsp (h.inside it hit).1, (h.inside it hit).2⟩

section Strings

def total (strs : List (List UInt8)) : ℕ := (strs.map List.length).sum

lemma total_cons (b : List UInt8) (bs : List (List UInt8)) : total (b :: bs) = b.length + total bs := rfl

lemma Wf.pushStrs (h : s.Wf base top) (strs : List (List UInt8)) (hlen : base + total strs ≤ s.sp) :
    (s.pushStrs strs).1.Wf base top ∧ (s.pushStrs strs).1.sp + total strs = s.sp := by
  induction strs generalizing s with
  | nil => exact ⟨h, rfl⟩
  | cons b bs ih =>
    rw [total_cons] at hlen ⊢
    have hsp : (s.push b).sp = s.sp - b.length := rfl
    have hb : (s.push b).Wf base top := h.push (by omega)
    obtain ⟨hwf, hsum⟩ := ih hb (by omega)
    refine ⟨hwf, ?_⟩
    change ((s.push b).pushStrs bs).1.sp + (b.length + total bs) = s.sp
    omega

end Strings

section Words

def wordItems (a : ℕ) : List ℕ → List (ℕ × List UInt8)
  | [] => []
  | w :: ws => (a, toLe 8 w) :: wordItems (a + 8) ws

def Words (m : ByteMem) : ℕ → List ℕ → Prop
  | _, [] => True
  | a, w :: ws => m.read64 a = w ∧ Words m (a + 8) ws

lemma words_append {m : ByteMem} {a : ℕ} {ws ws' : List ℕ} :
    Words m a (ws ++ ws') ↔ Words m a ws ∧ Words m (a + 8 * ws.length) ws' := by
  induction ws generalizing a with
  | nil => exact ⟨fun h => ⟨trivial, h⟩, fun h => h.2⟩
  | cons w ws ih =>
    have haddr : a + 8 + 8 * ws.length = a + 8 * (ws.length + 1) := by ring
    change m.read64 a = w ∧ Words m (a + 8) (ws ++ ws') ↔ _
    rw [ih, haddr]
    exact and_assoc.symm

lemma Wf.words (h : s.Wf base top) {a : ℕ} {ws : List ℕ} (hitems : ∀ it ∈ wordItems a ws, it ∈ s.items)
    (hlt : ∀ w ∈ ws, w < 2 ^ 64) : Words s.mem a ws := by
  induction ws generalizing a with
  | nil => trivial
  | cons w ws ih =>
    refine ⟨?_, ih (fun it hit => hitems it (mem_cons_of_mem _ hit))
      (fun w hw => hlt w (mem_cons_of_mem _ hw))⟩
    have hheld := h.held _ (hitems (a, toLe 8 w) mem_cons_self)
    rw [toLe_length] at hheld
    unfold ByteMem.read64
    rw [hheld]
    exact ofLe_toLe_of_lt (hlt w mem_cons_self)

end Words
end DownStack
end NodeKernel
