import Mathlib.Data.Finset.Card
import NodeKernel.Files.Pipes

/-!
# Readers and writers of one pipe

The locked parts of `read` and `write` as separate steps, in any order, for any number of
handles of one pipe. A handle is used by one call at a time and is not dropped during it.
-/
namespace NodeKernel

open Function List PipeState

/-- Where a call on a handle is: what it does the next time it has a lock. -/
inductive PipePc where
  | idle
  | lookup (len : ℕ)
  | check (len : ℕ)
  | take (len : ℕ)
  | lookupWrite (bytes : List UInt8)
  | extend (bytes : List UInt8)
  deriving DecidableEq

def PipePc.writes : PipePc → Option Bool
  | .idle => none
  | .lookup _ | .check _ | .take _ => some false
  | .lookupWrite _ | .extend _ => some true

/-- `listed` says whether the pipe is still in the table. `ended` is a record of the run: at
some moment since the last `read` on the handle began, the buffer was empty and no write
handle was open. -/
structure SharedPipe (η : Type*) where
  st : PipeState
  listed : Bool
  live : Finset η
  pc : η → PipePc
  ended : η → Prop

inductive PipeEvent (η : Type*) where
  | read (x : η) (len : ℕ)
  | write (x : η) (bytes : List UInt8)
  | advance (x : η)
  | dup (x y : η)
  | close (x : η)

namespace SharedPipe

section Model
variable {η : Type*} [DecidableEq η] (side : η → Bool)

def Ended (s : SharedPipe η) : Prop := s.st.buf = [] ∧ ∀ y ∈ s.live, side y = false

/-- What the call on `x` returns if its next locked part is the last one of a read. -/
def result (s : SharedPipe η) (x : η) : Option (Except VfsError (List UInt8)) :=
  match s.pc x with
  | .lookup _ => if s.listed then none else some (.ok [])
  | .check _ => s.st.check
  | .take len => some (.ok (s.st.take len).1)
  | _ => none

def goto (s : SharedPipe η) (x : η) (pc : PipePc) : SharedPipe η :=
  { s with pc := update s.pc x pc }

def advance (s : SharedPipe η) (x : η) : SharedPipe η :=
  match s.pc x with
  | .idle => s
  | .lookup len => s.goto x (if s.listed then .check len else .idle)
  | .check len => s.goto x (if s.st.check.isSome then .idle else .take len)
  | .take len => { s.goto x .idle with st := (s.st.take len).2 }
  | .lookupWrite bytes => s.goto x (if s.listed then .extend bytes else .idle)
  | .extend bytes => { s.goto x .idle with st := s.st.extend bytes }

def dup (s : SharedPipe η) (x y : η) : SharedPipe η :=
  { s with
    st := if s.listed then s.st.opened (side x) else s.st
    live := insert y s.live }

def close (s : SharedPipe η) (x : η) : SharedPipe η :=
  { s with
    st := if s.listed then s.st.closed (side x) else s.st
    listed := s.listed && !(s.st.closed (side x)).dead
    live := s.live.erase x }

def Allowed (s : SharedPipe η) : PipeEvent η → Prop
  | .read x _ => x ∈ s.live ∧ side x = false ∧ s.pc x = .idle
  | .write x _ => x ∈ s.live ∧ side x = true ∧ s.pc x = .idle
  | .advance _ => True
  | .dup x y => x ∈ s.live ∧ y ∉ s.live ∧ side y = side x ∧ s.live.card + 1 ≤ maxHandles
  | .close x => x ∈ s.live ∧ s.pc x = .idle

instance (s : SharedPipe η) (e : PipeEvent η) : Decidable (s.Allowed side e) := by
  cases e <;> unfold Allowed <;> infer_instance

def apply (s : SharedPipe η) : PipeEvent η → SharedPipe η
  | .read x len => { s.goto x (.lookup len) with ended := update s.ended x False }
  | .write x bytes => s.goto x (.lookupWrite bytes)
  | .advance x => s.advance x
  | .dup x y => s.dup side x y
  | .close x => s.close side x

def observe (s : SharedPipe η) : SharedPipe η :=
  { s with ended := fun y => s.ended y ∨ s.Ended side }

def Step (s : SharedPipe η) (e : PipeEvent η) (s' : SharedPipe η) : Prop :=
  s.Allowed side e ∧ s' = (s.apply side e).observe side

def start (r w : η) : SharedPipe η :=
  ⟨.new, true, {r, w}, fun _ => .idle, fun _ => False⟩

/-- A read that returns no bytes has seen the end of the pipe. -/
def EofSound (s : SharedPipe η) : PipeEvent η → Prop
  | .advance x => s.result x = some (.ok []) → s.ended x
  | _ => True

/-- A read that passed the check has nothing to take when it has the lock again. -/
def Drained (s : SharedPipe η) (x : η) : Prop :=
  ∃ len, s.pc x = .take len ∧ (len = 0 ∨ s.st.buf = [])

/-- A read that passed the check finds bytes to take, or the pipe has ended. -/
def Undrained (s : SharedPipe η) : PipeEvent η → Prop
  | .advance x => s.Drained x → s.Ended side
  | _ => True

def handles (s : SharedPipe η) (isWrite : Bool) : ℕ := (s.live.filter (side · = isWrite)).card

def entry (s : SharedPipe η) : Option PipeState := if s.listed then some s.st else none

structure Sound (s : SharedPipe η) : Prop where
  books : PipeBooks s.entry (s.handles side) [] s.st.buf
  room : s.live.card ≤ maxHandles
  busy : ∀ x b, (s.pc x).writes = some b → x ∈ s.live ∧ side x = b
  history : ∀ y, s.ended y ↔ s.Ended side

end Model

variable {η : Type*} {side : η → Bool} {s : SharedPipe η} {x y : η} {e : PipeEvent η}

lemma handles_ne_zero (side : η → Bool) (hx : x ∈ s.live) : s.handles side (side x) ≠ 0 := by
  have hmem : x ∈ s.live.filter (side · = side x) := Finset.mem_filter.mpr ⟨hx, rfl⟩
  exact (Finset.card_pos.mpr ⟨x, hmem⟩).ne'

lemma Sound.listed (h : s.Sound side) (hx : x ∈ s.live) : s.listed = true := by
  obtain ⟨st, hst⟩ := h.books.exists_entry (handles_ne_zero side hx)
  unfold entry at hst
  split at hst
  next hl => exact hl
  · cases hst

lemma Sound.entry (h : s.Sound side) (hx : x ∈ s.live) : PipeBooks (some s.st) (s.handles side) [] s.st.buf := by
  have hbooks := h.books
  unfold SharedPipe.entry at hbooks
  rwa [if_pos (h.listed hx)] at hbooks

lemma Sound.no_writer (h : s.Sound side) (hx : x ∈ s.live) (hzero : s.st.writerCount = 0) : ∀ y ∈ s.live, side y = false := by
  intro y hy
  have hcount := (h.entry hx).writers s.st rfl
  rw [hzero] at hcount
  rw [Bool.eq_false_iff]
  intro hw
  have hne := handles_ne_zero side hy
  rw [hw] at hne
  exact hne hcount.symm

lemma handles_le (b : Bool) : s.handles side b ≤ s.live.card := Finset.card_filter_le _ _

lemma Sound.books_buf (h : s.Sound side) (hx : x ∈ s.live) (buf : List UInt8) :
    PipeBooks (if s.listed then some { s.st with buf } else none) (s.handles side) [] buf := by
  rw [if_pos (h.listed hx)]
  exact PipeBooks.of_some ⟨side x, handles_ne_zero side hx⟩ (h.entry hx).counts rfl

lemma sound_observe (hbooks : PipeBooks s.entry (s.handles side) [] s.st.buf) (hroom : s.live.card ≤ maxHandles)
    (hbusy : ∀ x b, (s.pc x).writes = some b → x ∈ s.live ∧ side x = b)
    (hend : ∀ y, s.ended y → s.Ended side) : (s.observe side).Sound side := by
  refine ⟨hbooks, hroom, hbusy, ?_⟩
  intro y
  exact or_iff_right_of_imp (hend y)

lemma take_eq_nil (s : SharedPipe η) (len : ℕ) : (s.st.take len).1 = [] ↔ len = 0 ∨ s.st.buf = [] := by
  change s.st.buf.take (min len s.st.buf.length) = [] ↔ _
  rw [take_eq_nil_iff]
  constructor
  · intro hn
    rcases hn with hn | hn
    · rw [Nat.min_eq_zero_iff, length_eq_zero_iff] at hn
      exact hn
    · exact .inr hn
  · intro hn
    rcases hn with hn | hn
    · exact .inl (by rw [hn, Nat.zero_min])
    · exact .inr hn

/-- Of the three places where a read can return no bytes, only the second locked part can
be wrong. -/
theorem Sound.eofSound_iff (h : s.Sound side) : s.EofSound e ↔ s.Undrained side e := by
  cases e with
  | advance x =>
    change (s.result x = some (.ok []) → s.ended x) ↔ (s.Drained x → s.Ended side)
    rw [h.history]
    unfold result Drained
    cases hpc : s.pc x with
    | idle | lookupWrite | extend => simp
    | lookup len =>
      have hx := (h.busy x false (by rw [hpc]; rfl)).1
      simp [h.listed hx]
    | check len =>
      have hx := (h.busy x false (by rw [hpc]; rfl)).1
      refine iff_of_true ?_ (by simp)
      intro hcheck
      have hcheck : s.st.check = some (.ok []) := hcheck
      unfold check at hcheck
      split at hcheck
      next hbuf =>
        split at hcheck
        next hzero => exact ⟨hbuf, h.no_writer hx hzero⟩
        · cases hcheck
      · cases hcheck
    | take len => simp [take_eq_nil]
  | read | write | dup | close => exact Iff.rfl

variable [DecidableEq η]

lemma Sound.ended (h : s.Sound side) (hend : s.Ended side) (he : s.Allowed side e) : (s.apply side e).Ended side := by
  obtain ⟨hbuf, hside⟩ := hend
  cases e with
  | read | write => exact ⟨hbuf, hside⟩
  | advance x =>
    change (s.advance x).Ended side
    unfold advance
    split
    · exact ⟨hbuf, hside⟩
    · exact ⟨hbuf, hside⟩
    · exact ⟨hbuf, hside⟩
    · refine ⟨?_, hside⟩
      change s.st.buf.drop _ = []
      rw [hbuf, drop_nil]
    · exact ⟨hbuf, hside⟩
    next bytes hpc =>
      obtain ⟨hx, hwrite⟩ := h.busy x true (by rw [hpc]; rfl)
      rw [hside x hx] at hwrite
      cases hwrite
  | dup x y =>
    obtain ⟨hx, _, hsame, _⟩ := he
    refine ⟨?_, ?_⟩
    · change (if s.listed then s.st.opened (side x) else s.st).buf = []
      rw [if_pos (h.listed hx), opened_buf, hbuf]
    · intro z hz
      rcases Finset.mem_insert.mp hz with hz | hz
      · rw [hz, hsame, hside x hx]
      · exact hside z hz
  | close x =>
    refine ⟨?_, fun z hz => hside z (Finset.mem_of_mem_erase hz)⟩
    change (if s.listed then s.st.closed (side x) else s.st).buf = []
    rw [if_pos (h.listed he.1), closed_buf, hbuf]

lemma Sound.busy_goto (h : s.Sound side) {p : PipePc} (hp : ∀ b, p.writes = some b → x ∈ s.live ∧ side x = b) :
    ∀ z b, (update s.pc x p z).writes = some b → z ∈ s.live ∧ side z = b := by
  intro z b hz
  by_cases hzx : z = x
  · subst hzx
    rw [update_self] at hz
    exact hp b hz
  · rw [update_of_ne hzx] at hz
    exact h.busy z b hz

lemma Sound.advance (h : s.Sound side) (hend : ∀ y, (s.advance x).ended y → (s.advance x).Ended side) :
    ((s.advance x).observe side).Sound side := by
  have hidle : ∀ b, PipePc.idle.writes = some b → x ∈ s.live ∧ side x = b := fun b hb => by cases hb
  unfold SharedPipe.advance at hend ⊢
  split at hend
  · exact sound_observe h.books h.room h.busy hend
  next len hpc =>
    have hb := h.busy x
    rw [hpc] at hb
    refine sound_observe h.books h.room (h.busy_goto ?_) hend
    split
    · exact hb
    · exact hidle
  next len hpc =>
    have hb := h.busy x
    rw [hpc] at hb
    refine sound_observe h.books h.room (h.busy_goto ?_) hend
    split
    · exact hidle
    · exact hb
  next len hpc =>
    have hx := (h.busy x false (by rw [hpc]; rfl)).1
    exact sound_observe (h.books_buf hx _) h.room (h.busy_goto hidle) hend
  next bytes hpc =>
    have hb := h.busy x
    rw [hpc] at hb
    refine sound_observe h.books h.room (h.busy_goto ?_) hend
    split
    · exact hb
    · exact hidle
  next bytes hpc =>
    have hx := (h.busy x true (by rw [hpc]; rfl)).1
    exact sound_observe (h.books_buf hx _) h.room (h.busy_goto hidle) hend

lemma handles_insert (hy : y ∉ s.live) (hsame : side y = side x) (b : Bool) : ((insert y s.live).filter (side · = b)).card =
      if b = side x then s.handles side b + 1 else s.handles side b := by
  rw [Finset.filter_insert, hsame]
  by_cases hb : side x = b
  · rw [if_pos hb, if_pos hb.symm, Finset.card_insert_of_notMem]
    · rfl
    · exact fun hmem => hy (Finset.mem_of_mem_filter y hmem)
  · rw [if_neg hb, if_neg (fun hc => hb hc.symm)]
    rfl

lemma handles_erase (side : η → Bool) (hx : x ∈ s.live) (b : Bool) : ((s.live.erase x).filter (side · = b)).card =
      if b = side x then s.handles side b - 1 else s.handles side b := by
  rw [Finset.filter_erase]
  by_cases hb : b = side x
  · rw [if_pos hb, Finset.card_erase_of_mem (Finset.mem_filter.mpr ⟨hx, hb.symm⟩)]
    rfl
  · have hnot : x ∉ s.live.filter (side · = b) := fun hmem => hb (Finset.mem_filter.mp hmem).2.symm
    rw [if_neg hb, Finset.erase_eq_of_notMem hnot]
    rfl

lemma Sound.step (h : s.Sound side) (he : s.Allowed side e) : ((s.apply side e).observe side).Sound side := by
  have hend : ∀ y, s.ended y → (s.apply side e).Ended side := fun y hy => h.ended ((h.history y).mp hy) he
  cases e with
  | read x len =>
    refine sound_observe h.books h.room (h.busy_goto ?_) ?_
    · intro b hb
      obtain rfl := Option.some.inj hb
      exact ⟨he.1, he.2.1⟩
    · intro y hy
      change update s.ended x False y at hy
      by_cases hyx : y = x
      · subst hyx
        rw [update_self] at hy
        exact hy.elim
      · rw [update_of_ne hyx] at hy
        exact hend y hy
  | write x bytes =>
    refine sound_observe h.books h.room (h.busy_goto ?_) hend
    intro b hb
    obtain rfl := Option.some.inj hb
    exact ⟨he.1, he.2.1⟩
  | advance x =>
    refine h.advance ?_
    intro y hy
    refine hend y ?_
    have hsame : (s.advance x).ended = s.ended := by
      unfold SharedPipe.advance
      split <;> rfl
    rwa [hsame] at hy
  | dup x y =>
    obtain ⟨hx, hy, hsame, hroom⟩ := he
    have hlisted := h.listed hx
    refine sound_observe ?_ ?_ ?_ hend
    · change PipeBooks (if s.listed then some (if s.listed then s.st.opened (side x) else s.st) else none)
        (fun b => ((insert y s.live).filter (side · = b)).card) []
        (if s.listed then s.st.opened (side x) else s.st).buf
      rw [if_pos hlisted, if_pos hlisted, opened_buf]
      refine (h.entry hx).opened ?_ (handles_insert hy hsame)
      have hle : s.handles side (side x) ≤ s.live.card := handles_le _
      have hmax : maxHandles < 2 ^ 32 := by decide
      omega
    · change (insert y s.live).card ≤ maxHandles
      rw [Finset.card_insert_of_notMem hy]
      exact hroom
    · intro z b hz
      obtain ⟨hz, hb⟩ := h.busy z b hz
      exact ⟨Finset.mem_insert_of_mem hz, hb⟩
  | close x =>
    obtain ⟨hx, hidle⟩ := he
    have hlisted := h.listed hx
    refine sound_observe ?_ ?_ ?_ hend
    · have hbooks := (h.entry hx).closed (handles_erase side hx)
      change PipeBooks (if (s.listed && !(s.st.closed (side x)).dead) = true then
          some (if s.listed then s.st.closed (side x) else s.st) else none)
        (fun b => ((s.live.erase x).filter (side · = b)).card) []
        (if s.listed then s.st.closed (side x) else s.st).buf
      rw [hlisted, if_pos rfl, closed_buf, Bool.true_and]
      cases hdead : (s.st.closed (side x)).dead with
      | true | false =>
        rw [hdead] at hbooks
        exact hbooks
    · exact (Finset.card_erase_le).trans h.room
    · intro z b hz
      obtain ⟨hz', hb⟩ := h.busy z b hz
      refine ⟨Finset.mem_erase.mpr ⟨?_, hz'⟩, hb⟩
      intro hzx
      subst hzx
      change (s.pc z).writes = some b at hz
      rw [hidle] at hz
      cases hz

lemma start_sound {r w : η} (hr : side r = false) (hw : side w = true) : ((start r w).observe side).Sound side := by
  have hne : r ≠ w := by
    intro he
    rw [he, hw] at hr
    cases hr
  refine sound_observe ?_ ?_ (fun x b hx => by cases hx) (fun y hy => hy.elim)
  · have hhandles : ∀ b, (start r w).handles side b = 1 := by
      intro b
      unfold handles start
      rw [Finset.filter_insert, Finset.filter_singleton, hr, hw]
      cases b <;> rfl
    refine PipeBooks.of_some ⟨true, ?_⟩ ?_ rfl
    · rw [hhandles]
      exact Nat.one_ne_zero
    · intro b
      rw [hhandles]
      cases b <;> rfl
  · change ({r, w} : Finset η).card ≤ maxHandles
    rw [Finset.card_pair hne]
    decide

lemma run_sound {r w : η} (hr : side r = false) (hw : side w = true)
    {tr : List (SharedPipe η × PipeEvent η)} (hrun : Run (Step side) ((start r w).observe side) tr s) :
    (∀ x ∈ tr, x.1.Sound side) ∧ s.Sound side := by
  refine hrun.invariant (start_sound hr hw) ?_
  intro s e s' hs hstep
  rw [hstep.2]
  exact hs.step hstep.1

/-- In a run, the reads that return no bytes have all seen the end of the pipe if and only if
no read found the pipe drained between its two locked parts while it had not ended. -/
theorem run_eof_iff {r w : η} (hr : side r = false) (hw : side w = true)
    {tr : List (SharedPipe η × PipeEvent η)} (hrun : Run (Step side) ((start r w).observe side) tr s) :
    (∀ x ∈ tr, x.1.EofSound x.2) ↔ ∀ x ∈ tr, x.1.Undrained side x.2 :=
  forall₂_congr (fun x hx => ((run_sound hr hw hrun).1 x hx).eofSound_iff)

/-- The bytes that a read returns in this step. -/
def taken (t : SharedPipe η × PipeEvent η) : List UInt8 :=
  match t.2 with
  | .advance x => ((t.1.result x).bind Except.toOption).getD []
  | _ => []

/-- The bytes that a write puts in the pipe in this step. -/
def put (t : SharedPipe η × PipeEvent η) : List UInt8 :=
  match t.2 with
  | .advance x => match t.1.pc x with
    | .extend bytes => bytes
    | _ => []
  | _ => []

lemma step_stream {s' : SharedPipe η} (hs : Step side s e s') : s.st.buf ++ put (s, e) = taken (s, e) ++ s'.st.buf := by
  obtain ⟨-, rfl⟩ := hs
  cases e with
  | read | write => exact append_nil _
  | advance x =>
    change _ = taken (s, .advance x) ++ (s.advance x).st.buf
    unfold put taken result advance
    cases hpc : s.pc x with
    | idle | lookupWrite | extend => simp [goto, PipeState.extend, hpc]
    | lookup len => cases hl : s.listed <;> simp [goto, hl, hpc, Except.toOption]
    | check len =>
      rcases hc : s.st.check with _ | err | bytes
      · simp [goto, hpc]
      · simp [goto, hpc, Except.toOption]
      · simp [check_ok hc, goto, hpc, Except.toOption]
    | take len => simp [PipeState.take, hpc, Except.toOption]
  | dup x y =>
    change s.st.buf ++ [] = (if s.listed then s.st.opened (side x) else s.st).buf
    cases s.listed <;> simp
  | close x =>
    change s.st.buf ++ [] = (if s.listed then s.st.closed (side x) else s.st).buf
    cases s.listed <;> simp

/-- However the locked parts of reads and writes come one after another, what the reads have returned and the pipe holds
is what the writes have put in, in order. -/
theorem run_stream {s₀ : SharedPipe η} {tr : List (SharedPipe η × PipeEvent η)} (hrun : Run (Step side) s₀ tr s) :
    s₀.st.buf ++ tr.flatMap put = tr.flatMap taken ++ s.st.buf := by
  induction hrun with
  | nil => simp
  | snoc _ hs ih =>
    rw [flatMap_append, flatMap_append, flatMap_singleton, flatMap_singleton, ← append_assoc, ih, append_assoc, step_stream hs,
      append_assoc]

def sampleSide (x : ℕ) : Bool := x == 1

lemma sample_snoc {tr : List (SharedPipe ℕ × PipeEvent ℕ)} {s : SharedPipe ℕ}
    (hrun : Run (Step sampleSide) ((start 0 1).observe sampleSide) tr s) (e : PipeEvent ℕ)
    (he : s.Allowed sampleSide e) : Run (Step sampleSide) ((start 0 1).observe sampleSide)
      (tr ++ [(s, e)]) ((s.apply sampleSide e).observe sampleSide) := hrun.snoc ⟨he, rfl⟩

theorem run_stream_unread : ∃ tr s, Run (Step sampleSide) ((start 0 1).observe sampleSide) tr s ∧
    tr.flatMap put = [7] ∧ tr.flatMap put = tr.flatMap taken ++ s.st.buf := by
  have hrun := sample_snoc (sample_snoc (sample_snoc Run.nil (.write 1 [7]) (by decide)) (.advance 1) (by decide))
    (.advance 1) (by decide)
  exact ⟨_, _, hrun, rfl, run_stream hrun⟩

/-- A read that follows the close of the only write handle returns no bytes, rightly. -/
theorem run_eof_closed : ∃ tr s, Run (Step sampleSide) ((start 0 1).observe sampleSide) tr s ∧
    s.result 0 = some (.ok []) ∧ ∀ x ∈ tr, x.1.EofSound x.2 := by
  have hrun := sample_snoc (sample_snoc (sample_snoc Run.nil (.close 1) (by decide))
    (.read 0 1) (by decide)) (.advance 0) (by decide)
  refine ⟨_, _, hrun, by decide, (run_eof_iff rfl rfl hrun).mpr ?_⟩
  simp only [nil_append, cons_append, forall_mem_cons]
  refine ⟨trivial, trivial, ?_, fun x hx => absurd hx not_mem_nil⟩
  intro hdrained
  obtain ⟨len, hpc, _⟩ := hdrained
  cases hpc

/-- Handles 0 and 2 both see the one byte of the pipe; handle 2 takes it, and the read on
handle 0 then returns no bytes while the write handle is open. -/
theorem racing_read_returns_nothing : ∃ tr s, Run (Step sampleSide) ((start 0 1).observe sampleSide) tr s ∧ 1 ∈ s.live ∧
      s.result 0 = some (.ok []) ∧ ¬ s.ended 0 := by
  have hwrite := sample_snoc (sample_snoc (sample_snoc Run.nil (.write 1 [7]) (by decide))
    (.advance 1) (by decide)) (.advance 1) (by decide)
  have hcheck := sample_snoc (sample_snoc (sample_snoc hwrite (.read 0 1) (by decide))
    (.advance 0) (by decide)) (.advance 0) (by decide)
  have hdup := sample_snoc (sample_snoc hcheck (.dup 0 2) (by decide)) (.read 2 1) (by decide)
  have htake := sample_snoc (sample_snoc (sample_snoc hdup (.advance 2) (by decide))
    (.advance 2) (by decide)) (.advance 2) (by decide)
  refine ⟨_, _, htake, by decide, by decide, ?_⟩
  rw [(run_sound rfl rfl htake).2.history]
  intro hend
  have hside := hend.2 1 (by decide)
  cases hside

end SharedPipe
end NodeKernel
