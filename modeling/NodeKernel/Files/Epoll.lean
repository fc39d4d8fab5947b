import NodeKernel.Files.Descriptors

/-!
# Event polling

The interest list of one epoll instance, `sys_epoll_ctl` and the scans of `sys_epoll_wait`. An
edge-triggered interest keeps one flag for all of its event bits.
-/
namespace NodeKernel

open Function List OrdMap

def epollCtlAdd : ℤ := 1
def epollCtlDel : ℤ := 2
def epollCtlMod : ℤ := 3

def epollIn : ℕ := 0x1
def epollOut : ℕ := 0x4
def epollErr : ℕ := 0x8
def epollHup : ℕ := 0x10
def epollEt : ℕ := 1 <<< 31

abbrev Readiness : Type := ℕ → Option ℕ

def fdKey (fd : ℤ) : ℕ := (fd % 2 ^ 64).toNat

namespace EpollInterest

/-- What `epoll_ctl` makes of the words of an `epoll_event`, or of a null pointer. -/
def ofEvent : Option (ℕ × ℕ) → EpollInterest
  | some (eventsRaw, data) => ⟨eventsRaw &&& (2 ^ 32 - 1 - epollEt), data, eventsRaw &&& epollEt != 0, false⟩
  | none => ⟨0, 0, false, false⟩

/-- The event bits that are high, and whether the descriptor counts as ready. -/
def poll (i : EpollInterest) (ready : Readiness) (fd : ℤ) : ℕ × Bool :=
  if fdKey fd = 1 ∨ fdKey fd = 2 then
    let r := i.events &&& epollOut != 0
    (if r then epollOut else 0, r)
  else
    match ready (fdKey fd) with
    | some available =>
      let hasIn := i.events &&& epollIn != 0 && decide (available > 0)
      let hasOut := i.events &&& epollOut != 0
      ((if hasIn then epollIn else 0) ||| (if hasOut then epollOut else 0), hasIn || hasOut)
    | none => (epollHup ||| epollErr, true)

def shouldReport (i : EpollInterest) (revents : ℕ) (nowReady : Bool) : Bool :=
  if i.edge then nowReady && !i.lastReady else revents != 0

end EpollInterest

/-- One turn of the loop over the interests: `fired` says whether it wrote an event. -/
structure EpollVisit where
  fd : ℤ
  interest : EpollInterest
  revents : ℕ
  nowReady : Bool
  fired : Bool

namespace EpollInstance

def ctl (inst : EpollInstance) (op fd : ℤ) (event : Option (ℕ × ℕ)) : EpollInstance × ℤ :=
  if op = epollCtlAdd ∨ op = epollCtlMod then (⟨inst.interests.insert fd (.ofEvent event)⟩, 0)
  else if op = epollCtlDel then (⟨inst.interests.erase fd⟩, 0)
  else (inst, einval)

/-- The loop over the snapshot, which ends when `max` events are written. -/
def scanLoop (max : ℕ) (ready : Readiness) : ℕ → List (ℤ × EpollInterest) → List EpollVisit
  | _, [] => []
  | nReady, (fd, i) :: rest =>
    if nReady ≥ max then []
    else
      let r := i.poll ready fd
      let fired := i.shouldReport r.1 r.2 && r.1 != 0
      ⟨fd, i, r.1, r.2, fired⟩ :: scanLoop max ready (if fired then nReady + 1 else nReady) rest

def scan (inst : EpollInstance) (max : ℕ) (ready : Readiness) : List EpollVisit :=
  scanLoop max ready 0 inst.interests.entries

def persist (inst : EpollInstance) (visits : List EpollVisit) : EpollInstance :=
  visits.foldl (fun inst v =>
    if v.interest.edge then ⟨inst.interests.modify v.fd (fun i => { i with lastReady := v.nowReady })⟩
    else inst) inst

end EpollInstance

/-- An instance, and a record of the run: the event bits that were high when an interest was visited last,
none at first. -/
structure EpollWorld where
  inst : EpollInstance
  seen : ℤ → ℕ

/-- `epoll_wait` sees one state of the descriptors for each turn of its loop, the last one at the deadline. -/
inductive EpollEvent where
  | ctl (op fd : ℤ) (event : Option (ℕ × ℕ))
  | wait (max : ℕ) (turns : List Readiness)

namespace EpollWorld

def new : EpollWorld := ⟨⟨OrdMap.empty⟩, fun _ => 0⟩

def ctl (w : EpollWorld) (op fd : ℤ) (event : Option (ℕ × ℕ)) : EpollWorld :=
  ⟨(w.inst.ctl op fd event).1, if (w.inst.ctl op fd event).2 = 0 then update w.seen fd 0 else w.seen⟩

def scan (w : EpollWorld) (max : ℕ) (ready : Readiness) : EpollWorld :=
  let visits := w.inst.scan max ready
  ⟨w.inst.persist visits, visits.foldl (fun seen v => update seen v.fd v.revents) w.seen⟩

def written (w : EpollWorld) (max : ℕ) (ready : Readiness) : List (ℕ × ℕ) :=
  ((w.inst.scan max ready).filter EpollVisit.fired).map fun v => (v.revents, v.interest.data)

/-- The loop of `epoll_wait`, and what it returns in the buffer. -/
def wait (max : ℕ) : EpollWorld → List Readiness → EpollWorld × List (ℕ × ℕ)
  | w, [] => (w, [])
  | w, ready :: rest =>
    if w.written max ready ≠ [] then (w.scan max ready, w.written max ready)
    else wait max (w.scan max ready) rest

def scans (max : ℕ) : EpollWorld → List Readiness → List (EpollWorld × Readiness)
  | _, [] => []
  | w, ready :: rest =>
    (w, ready) :: if w.written max ready ≠ [] then [] else scans max (w.scan max ready) rest

def next (w : EpollWorld) : EpollEvent → EpollWorld
  | .ctl op fd event => w.ctl op fd event
  | .wait max turns => (wait max w turns).1

def reported (v : EpollVisit) : ℕ := if v.fired then v.revents else 0

/-- Every visit of an edge-triggered interest reports the bits that rose since the last one, and only
those. -/
def EdgesReported (w : EpollWorld) : EpollEvent → Prop
  | .ctl _ _ _ => True
  | .wait max turns => ∀ x ∈ scans max w turns, ∀ v ∈ x.1.inst.scan max x.2, v.interest.edge →
      ∀ bit, (reported v).testBit bit = (v.revents.testBit bit && !(x.1.seen v.fd).testBit bit)

/-- No bit rises while another bit of the interest is high. -/
def RisesFromLow (w : EpollWorld) : EpollEvent → Prop
  | .ctl _ _ _ => True
  | .wait max turns => ∀ x ∈ scans max w turns, ∀ v ∈ x.1.inst.scan max x.2, v.interest.edge →
      x.1.seen v.fd = 0 ∨ ∀ bit, v.revents.testBit bit → (x.1.seen v.fd).testBit bit

end EpollWorld

namespace EpollInterest

lemma poll_ready (i : EpollInterest) (ready : Readiness) (fd : ℤ) : (i.poll ready fd).2 = ((i.poll ready fd).1 != 0) := by
  unfold poll
  split_ifs
  · cases i.events &&& epollOut != 0 <;> rfl
  · cases ready (fdKey fd) with
    | none => rfl
    | some available =>
      dsimp only
      cases i.events &&& epollIn != 0 && decide (available > 0) <;> cases i.events &&& epollOut != 0 <;> rfl

end EpollInterest

namespace EpollInstance

lemma mem_scanLoop {max n : ℕ} {ready : Readiness} {l : List (ℤ × EpollInterest)} {v : EpollVisit}
    (h : v ∈ scanLoop max ready n l) : (v.fd, v.interest) ∈ l ∧ v.nowReady = (v.revents != 0) ∧
      v.fired = (v.interest.shouldReport v.revents v.nowReady && v.revents != 0) := by
  induction l generalizing n with
  | nil => cases h
  | cons e l ih =>
    unfold scanLoop at h
    split_ifs at h
    · cases h
    · obtain rfl | h := mem_cons.mp h
      · exact ⟨mem_cons_self, e.2.poll_ready ready e.1, rfl⟩
      · obtain ⟨hmem, hrest⟩ := ih h
        exact ⟨mem_cons_of_mem e hmem, hrest⟩

end EpollInstance

namespace EpollWorld

/-- The flag of an edge-triggered interest says whether a bit was high at the last visit. -/
def Faithful (inst : EpollInstance) (seen : ℤ → ℕ) : Prop :=
  ∀ e ∈ inst.interests.entries, e.2.edge → e.2.lastReady = (seen e.1 != 0)

def Fits (inst : EpollInstance) (v : EpollVisit) : Prop :=
  v.nowReady = (v.revents != 0) ∧ ∀ e ∈ inst.interests.entries, e.1 = v.fd → e.2.edge = v.interest.edge

lemma Faithful.persist {inst : EpollInstance} {seen : ℤ → ℕ} {visits : List EpollVisit}
    (h : Faithful inst seen) (hfits : ∀ v ∈ visits, Fits inst v) :
    Faithful (inst.persist visits) (visits.foldl (fun seen v => update seen v.fd v.revents) seen) := by
  induction visits generalizing inst seen with
  | nil => exact h
  | cons v visits ih =>
    obtain ⟨hready, hedge⟩ := hfits v mem_cons_self
    have hlater : ∀ v' ∈ visits, Fits inst v' := fun v' hv' => hfits v' (mem_cons_of_mem v hv')
    unfold EpollInstance.persist
    rw [foldl_cons, foldl_cons]
    cases hv : v.interest.edge with
    | false =>
      refine ih (fun e he hon => ?_) hlater
      have hne : e.1 ≠ v.fd := by
        intro heq
        rw [hedge e he heq, hv] at hon
        cases hon
      rw [update_of_ne hne]
      exact h e he hon
    | true =>
      refine ih (fun e he hon => ?_) fun v' hv' => ⟨(hlater v' hv').1, fun e he heq => ?_⟩
      · obtain ⟨b, hb, he⟩ := mem_modify.mp he
        by_cases hfd : e.1 = v.fd
        · rw [if_pos hfd] at he
          rw [he, hfd, update_self]
          exact hready
        · rw [if_neg hfd] at he
          rw [update_of_ne hfd, he]
          exact h _ hb (he ▸ hon)
      · obtain ⟨b, hb, he⟩ := mem_modify.mp he
        rw [← (hlater v' hv').2 _ hb heq, he]
        split_ifs <;> rfl

variable {w : EpollWorld} {ready : Readiness} {v : EpollVisit}

lemma fits_of_mem_scan {inst : EpollInstance} {max : ℕ} (hv : v ∈ inst.scan max ready) : Fits inst v := by
  obtain ⟨hmem, hready, -⟩ := EpollInstance.mem_scanLoop hv
  refine ⟨hready, fun e he heq => ?_⟩
  rw [inst.interests.eq_of_key he hmem heq]

section
variable (h : Faithful w.inst w.seen)
include h

lemma Faithful.scan (max : ℕ) (ready : Readiness) : Faithful (w.scan max ready).inst (w.scan max ready).seen :=
  h.persist fun _ => fits_of_mem_scan

lemma Faithful.ctl (op fd : ℤ) (event : Option (ℕ × ℕ)) : Faithful (w.ctl op fd event).inst (w.ctl op fd event).seen := by
  unfold EpollWorld.ctl EpollInstance.ctl
  by_cases hset : op = epollCtlAdd ∨ op = epollCtlMod
  · simp only [if_pos hset, if_true]
    intro e he hon
    obtain rfl | ⟨he, hne⟩ := mem_insert.mp he
    · rw [update_self]
      cases event <;> rfl
    · rw [update_of_ne hne]
      exact h e he hon
  · by_cases hdel : op = epollCtlDel
    · simp only [if_neg hset, if_pos hdel, if_true]
      intro e he hon
      obtain ⟨he, hne⟩ := mem_erase.mp he
      rw [update_of_ne hne]
      exact h e he hon
    · have herror : einval ≠ 0 := by decide
      simp only [if_neg hset, if_neg hdel, if_neg herror]
      exact h

lemma Faithful.wait (max : ℕ) (turns : List Readiness) :
    Faithful (EpollWorld.wait max w turns).1.inst (EpollWorld.wait max w turns).1.seen ∧
      ∀ x ∈ scans max w turns, Faithful x.1.inst x.1.seen := by
  induction turns generalizing w with
  | nil => exact ⟨h, nofun⟩
  | cons ready turns ih =>
    obtain ⟨hlast, hscans⟩ := ih (h.scan max ready)
    unfold wait scans
    split_ifs
    · exact ⟨h.scan max ready, forall_mem_singleton.mpr h⟩
    · exact ⟨hlast, forall_mem_cons.mpr ⟨h, hscans⟩⟩

/-- An edge-triggered interest reports all bits if none was high before, and nothing otherwise. -/
theorem Faithful.reported_eq {max : ℕ} (hv : v ∈ w.inst.scan max ready) (hedge : v.interest.edge) :
    reported v = if w.seen v.fd = 0 then v.revents else 0 := by
  obtain ⟨hmem, hready, hfired⟩ := EpollInstance.mem_scanLoop hv
  unfold reported
  rw [hfired, EpollInterest.shouldReport, if_pos hedge, hready, h _ hmem hedge]
  by_cases hseen : w.seen v.fd = 0 <;> by_cases hrev : v.revents = 0 <;> simp [hseen, hrev]

lemma Faithful.visit_iff {max : ℕ} (hv : v ∈ w.inst.scan max ready) (hedge : v.interest.edge) :
    (∀ bit, (reported v).testBit bit = (v.revents.testBit bit && !(w.seen v.fd).testBit bit)) ↔
      w.seen v.fd = 0 ∨ ∀ bit, v.revents.testBit bit → (w.seen v.fd).testBit bit := by
  rw [h.reported_eq hv hedge]
  by_cases hseen : w.seen v.fd = 0
  · simp [hseen]
  · rw [if_neg hseen, or_iff_right hseen]
    refine forall_congr' fun bit => ?_
    cases v.revents.testBit bit <;> cases (w.seen v.fd).testBit bit <;> simp

end

/-- In every run the bits that rise are reported once exactly if each rises when no other bit of its
interest is high. -/
theorem run_edges_iff {tr : List (EpollWorld × EpollEvent)} {w : EpollWorld} (h : Run (fun w e w' => w' = next w e) new tr w) :
    (∀ x ∈ tr, x.1.EdgesReported x.2) ↔ ∀ x ∈ tr, x.1.RisesFromLow x.2 := by
  refine h.forall_iff_of (I := fun w => Faithful w.inst w.seen) (P := EdgesReported) (C := RisesFromLow)
    (fun _ he => absurd he not_mem_nil) ?_ ?_
  · rintro w (⟨op, fd, event⟩ | ⟨max, turns⟩) _ hI _ rfl
    · exact hI.ctl op fd event
    · exact (hI.wait max turns).1
  · rintro w (⟨op, fd, event⟩ | ⟨max, turns⟩) _ hI _
    · exact Iff.rfl
    · refine forall_congr' fun x => forall_congr' fun hx => forall_congr' fun v => forall_congr' fun hv =>
        forall_congr' fun hedge => ?_
      exact ((hI.wait max turns).2 x hx).visit_iff hv hedge

def watchBoth : EpollEvent := .ctl epollCtlAdd 5 (some (epollIn ||| epollOut ||| epollEt, 7))

theorem run_edges_iff_watch : let tr := [(new, watchBoth), (new.next watchBoth, .wait 8 [fun _ => some 0])]
    (∀ x ∈ tr, x.1.EdgesReported x.2) ↔ ∀ x ∈ tr, x.1.RisesFromLow x.2 :=
  run_edges_iff ((Run.nil.snoc rfl).snoc rfl)

/-- What a visit reports in every state that can be reached: a level-triggered interest the bits that are high, an
edge-triggered one these bits if none was high at the visit before, and otherwise nothing. -/
theorem run_reported {tr : List (EpollWorld × EpollEvent)} {w : EpollWorld} (h : Run (fun w e w' => w' = next w e) new tr w)
    (max : ℕ) (turns : List Readiness) : ∀ x ∈ scans max w turns, ∀ v ∈ x.1.inst.scan max x.2,
      reported v = if v.interest.edge ∧ x.1.seen v.fd ≠ 0 then 0 else v.revents := by
  have hI : Faithful w.inst w.seen := by
    refine (h.invariant (I := fun w => Faithful w.inst w.seen) (fun _ he => absurd he not_mem_nil) ?_).2
    rintro w (⟨op, fd, event⟩ | ⟨max, turns⟩) _ hI rfl
    · exact hI.ctl op fd event
    · exact (hI.wait max turns).1
  intro x hx v hv
  cases hedge : v.interest.edge with
  | true =>
    rw [((hI.wait max turns).2 x hx).reported_eq hv hedge]
    simp only [true_and, ite_not]
  | false =>
    obtain ⟨-, -, hfired⟩ := EpollInstance.mem_scanLoop hv
    unfold reported
    rw [hfired, EpollInterest.shouldReport, hedge]
    by_cases hrev : v.revents = 0 <;> simp [hrev]

theorem run_reported_watch : ∃ v ∈ (new.next watchBoth).inst.scan 8 (fun _ => some 0),
    reported v = if v.interest.edge ∧ (new.next watchBoth).seen v.fd ≠ 0 then 0 else v.revents :=
  ⟨_, .head _, run_reported (Run.nil.snoc rfl) 8 [fun _ => some 0] (new.next watchBoth, _) mem_cons_self _ (.head _)⟩

theorem input_edge_is_lost : let empty : Readiness := fun fd => if fd = 5 then some 0 else none
    let full : Readiness := fun fd => if fd = 5 then some 3 else none
    let w := (new.next watchBoth).next (.wait 8 [empty])
    (wait 8 (new.next watchBoth) [empty]).2 = [(epollOut, 7)] ∧ w.seen 5 = epollOut ∧
      (w.inst.scan 8 full).map EpollVisit.revents = [epollIn ||| epollOut] ∧ (wait 8 w [full]).2 = [] := by
  decide +kernel

end EpollWorld
end NodeKernel
