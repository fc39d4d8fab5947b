import NodeKernel.Lib.Run
import NodeKernel.Users.Accounts

/-!
# The grace period of sudo

`sudo_auth` asks for no password within five minutes after it has verified one. The time of that is kept for
the machine, not for the user.
-/
namespace NodeKernel

open List

def sudoTimeoutMs : ℕ := 5 * 60 * 1000

structure UserSession where
  db : UserDb
  currentUid : UInt32
  cwd : String
  sudoLastAuthMs : ℕ

namespace UserSession

/-- `euid` is that of the task that runs, if one does. -/
def uid (s : UserSession) (euid : Option UInt32) : UInt32 := euid.getD s.currentUid

def currentUsername (s : UserSession) (euid : Option UInt32) : String :=
  match s.db.getUser (s.uid euid) with
  | some u => u.username
  | none => "uid" ++ toString (s.uid euid).toNat

def isRoot (s : UserSession) (euid : Option UInt32) : Bool := s.uid euid == 0

def switchUser (s : UserSession) (username : String) : Bool × UserSession :=
  match s.db.getUserByName username with
  | some user => (true, { s with currentUid := user.uid, cwd := user.home })
  | none => (false, s)

def maySudo (s : UserSession) (euid : Option UInt32) : Bool :=
  s.db.userCanSudo (s.currentUsername euid) || s.isRoot euid

def inGrace (s : UserSession) (now : ℕ) : Bool :=
  decide (now - s.sudoLastAuthMs < sudoTimeoutMs) && decide (s.sudoLastAuthMs > 0)

def sudoAuth (s : UserSession) (euid : Option UInt32) (now : ℕ) (password : String) : Bool × UserSession :=
  if !s.maySudo euid then (false, s)
  else if s.inGrace now then (true, s)
  else if s.db.authenticate (s.currentUsername euid) password then (true, { s with sudoLastAuthMs := now })
  else (false, s)

def accepts (s : UserSession) (euid : Option UInt32) (now : ℕ) (password : String) : Bool :=
  s.maySudo euid && !s.inGrace now && s.db.authenticate (s.currentUsername euid) password

end UserSession

inductive SudoCall
  | wait (ms : ℕ)
  | switchUser (username : String)
  | sudoAuth (euid : Option UInt32) (password : String)

/-- The session and the clock, and a record of the run: whose passwords `sudo_auth` has accepted and when,
the last one first. -/
structure SudoWorld where
  session : UserSession
  uptimeMs : ℕ
  accepted : List (String × ℕ)

namespace SudoWorld

def call (w : SudoWorld) : SudoCall → SudoWorld
  | .wait ms => { w with uptimeMs := w.uptimeMs + ms }
  | .switchUser username => { w with session := (w.session.switchUser username).2 }
  | .sudoAuth euid password =>
    { w with
      session := (w.session.sudoAuth euid w.uptimeMs password).2
      accepted := if w.session.accepts euid w.uptimeMs password
        then (w.session.currentUsername euid, w.uptimeMs) :: w.accepted else w.accepted }

/-- `sudo_auth` says yes to the user only for the password, or if the user has given it within five
minutes. -/
def GraceRight (w : SudoWorld) : SudoCall → Prop
  | .sudoAuth euid password => (w.session.sudoAuth euid w.uptimeMs password).1 = true →
      w.session.db.authenticate (w.session.currentUsername euid) password = true ∨
      ∃ t, (w.session.currentUsername euid, t) ∈ w.accepted ∧ w.uptimeMs < t + sudoTimeoutMs
  | _ => True

/-- In the grace period a user who may use `sudo` gives the right password, or is the one who opened it. A
password that was accepted at time zero opens none, and counts for five minutes all the same. -/
def OwnGrace (w : SudoWorld) : SudoCall → Prop
  | .sudoAuth euid password => w.session.inGrace w.uptimeMs = true → w.session.maySudo euid = true →
      w.session.db.authenticate (w.session.currentUsername euid) password = true ∨
      w.accepted.head?.map Prod.fst = some (w.session.currentUsername euid) ∨
      (w.session.currentUsername euid, 0) ∈ w.accepted ∧ w.uptimeMs < sudoTimeoutMs
  | _ => True

/-- What the record tells: two passwords are accepted within five minutes only if the first was at time
zero. -/
def Recorded (w : SudoWorld) : Prop :=
  (w.session.sudoLastAuthMs = 0 ∧ ∀ e ∈ w.accepted, e.2 = 0) ∨
  ∃ username rest, w.accepted = (username, w.session.sudoLastAuthMs) :: rest ∧ 0 < w.session.sudoLastAuthMs ∧
    w.session.sudoLastAuthMs ≤ w.uptimeMs ∧
    ∀ e ∈ rest, e.2 = 0 ∨ e.2 + sudoTimeoutMs ≤ w.session.sudoLastAuthMs

variable {w : SudoWorld} {euid : Option UInt32} {password : String}

lemma sudoAuth_accepted (h : w.session.accepts euid w.uptimeMs password = true) : w.call (.sudoAuth euid password) =
      ⟨{ w.session with sudoLastAuthMs := w.uptimeMs }, w.uptimeMs,
        (w.session.currentUsername euid, w.uptimeMs) :: w.accepted⟩ := by
  unfold call
  simp only [h, if_true]
  simp only [UserSession.accepts, Bool.and_eq_true, Bool.not_eq_true'] at h
  obtain ⟨⟨hmay, hgrace⟩, hauth⟩ := h
  simp only [UserSession.sudoAuth, hmay, hgrace, hauth, Bool.not_true, Bool.false_eq_true, if_false, if_true]

lemma sudoAuth_not_accepted (h : w.session.accepts euid w.uptimeMs password = false) :
    w.call (.sudoAuth euid password) = w := by
  unfold call
  simp only [h, Bool.false_eq_true, if_false]
  have hsame : (w.session.sudoAuth euid w.uptimeMs password).2 = w.session := by
    unfold UserSession.sudoAuth
    split_ifs with hmay hgrace hauth
    · rfl
    · rfl
    · simp [UserSession.accepts, hauth, hgrace] at h
      simp [h] at hmay
    · rfl
  rw [hsame]

lemma Recorded.sudoAuth (h : w.Recorded) (euid : Option UInt32) (password : String) :
    (w.call (.sudoAuth euid password)).Recorded := by
  cases hacc : w.session.accepts euid w.uptimeMs password with
  | false =>
    rw [sudoAuth_not_accepted hacc]
    exact h
  | true =>
    rw [sudoAuth_accepted hacc]
    have hgrace : w.session.inGrace w.uptimeMs = false := by
      simp only [UserSession.accepts, Bool.and_eq_true, Bool.not_eq_true'] at hacc
      exact hacc.1.2
    rcases h with ⟨hlast, hzero⟩ | ⟨username, rest, hacc', hpos, hle, hrest⟩
    · rcases Nat.eq_zero_or_pos w.uptimeMs with hnow | hnow
      · exact .inl ⟨hnow, forall_mem_cons.mpr ⟨hnow, hzero⟩⟩
      · exact .inr ⟨_, _, rfl, hnow, Nat.le_refl _, fun e he => .inl (hzero e he)⟩
    · have hfar : w.session.sudoLastAuthMs + sudoTimeoutMs ≤ w.uptimeMs := by
        simp only [UserSession.inGrace, Bool.and_eq_false_iff, decide_eq_false_iff_not] at hgrace
        omega
      refine .inr ⟨_, _, rfl, hpos.trans_le hle, Nat.le_refl _, ?_⟩
      rw [hacc']
      refine forall_mem_cons.mpr ⟨.inr hfar, fun e he => ?_⟩
      exact (hrest e he).imp id (fun hfirst => hfirst.trans hle)

lemma Recorded.call (h : w.Recorded) (c : SudoCall) : (w.call c).Recorded := by
  cases c with
  | wait ms =>
    refine h.imp id fun hlater => ?_
    obtain ⟨username, rest, hacc, hpos, hle, hrest⟩ := hlater
    exact ⟨username, rest, hacc, hpos, Nat.le_add_right_of_le hle, hrest⟩
  | switchUser username =>
    have hlast : (w.session.switchUser username).2.sudoLastAuthMs = w.session.sudoLastAuthMs := by
      unfold UserSession.switchUser
      split <;> rfl
    unfold Recorded SudoWorld.call
    rw [hlast]
    exact h
  | sudoAuth euid password => exact h.sudoAuth euid password

/-- In the grace period the user has given the password within five minutes exactly if it is the one who
opened it, or did so at time zero. -/
theorem Recorded.recent_iff (h : w.Recorded) (hgrace : w.session.inGrace w.uptimeMs = true) (username : String) :
    (∃ t, (username, t) ∈ w.accepted ∧ w.uptimeMs < t + sudoTimeoutMs) ↔
      w.accepted.head?.map Prod.fst = some username ∨ (username, 0) ∈ w.accepted ∧ w.uptimeMs < sudoTimeoutMs := by
  simp only [UserSession.inGrace, Bool.and_eq_true, decide_eq_true_eq] at hgrace
  rcases h with ⟨hlast, _⟩ | ⟨opener, rest, hacc, _, hle, hrest⟩
  · omega
  · rw [hacc]
    simp only [List.head?_cons, Option.map_some, Option.some.injEq]
    constructor
    · rintro ⟨t, hmem, hnear⟩
      rcases mem_cons.mp hmem with heq | hmem
      · exact .inl (Prod.mk.inj heq).1.symm
      · rcases hrest _ hmem with hzero | hfar
        · subst hzero
          exact .inr ⟨mem_cons_of_mem _ hmem, by omega⟩
        · omega
    · rintro (rfl | ⟨hmem, hnear⟩)
      · exact ⟨_, mem_cons_self, by omega⟩
      · exact ⟨0, hmem, by omega⟩

lemma Recorded.graceRight_iff (h : w.Recorded) (c : SudoCall) : w.GraceRight c ↔ w.OwnGrace c := by
  cases c with
  | wait | switchUser => exact Iff.rfl
  | sudoAuth euid password =>
    unfold GraceRight OwnGrace UserSession.sudoAuth
    dsimp only
    cases hmay : w.session.maySudo euid with
    | false => simp
    | true =>
      cases hgrace : w.session.inGrace w.uptimeMs with
      | false =>
        cases hauth : w.session.db.authenticate (w.session.currentUsername euid) password <;> simp
      | true =>
        rw [h.recent_iff hgrace]
        simp

/-- From the start on, `sudo_auth` asks every user for the own password exactly as long as nobody with a
wrong one uses the grace period of another. -/
theorem run_graceRight_iff {w₀ : SudoWorld} {tr : List (SudoWorld × SudoCall)}
    (hlast : w₀.session.sudoLastAuthMs = 0) (hacc : w₀.accepted = []) (hrun : Run (fun w c w' => w' = w.call c) w₀ tr w) :
    (∀ x ∈ tr, x.1.GraceRight x.2) ↔ ∀ x ∈ tr, x.1.OwnGrace x.2 := by
  refine hrun.forall_iff_of (I := Recorded) (.inl ⟨hlast, by simp [hacc]⟩) ?_ ?_
  · rintro w c w' h _ rfl
    exact h.call c
  · rintro w c w' h _
    exact h.graceRight_iff c

def start : SudoWorld := ⟨⟨UserDb.init, 0, "", 0⟩, 0, []⟩

/-- One of the texts that pass for the password of root. -/
def rootPassword : String := ";)'o.k#a6,),=,"

theorem run_graceRight_iff_root : ∃ tr w, Run (fun w c w' => w' = SudoWorld.call w c) start tr w ∧
    tr.map Prod.snd = [.wait 1, .sudoAuth none rootPassword, .sudoAuth none ""] ∧
    ((∀ x ∈ tr, x.1.GraceRight x.2) ↔ ∀ x ∈ tr, x.1.OwnGrace x.2) := by
  refine ⟨_, _, ((Run.nil.snoc rfl).snoc rfl).snoc rfl, rfl, ?_⟩
  exact run_graceRight_iff rfl rfl (((Run.nil.snoc rfl).snoc rfl).snoc rfl)

/-- The console after root has given a password and left it to `nodeai`. -/
def handedOver : SudoWorld := ((start.call (.wait 1)).call (.sudoAuth none rootPassword)).call (.switchUser "nodeai")

lemma handedOver_accepted : handedOver.accepted = [("root", 1)] := by decide +kernel

theorem nodeai_needs_no_password : ∃ tr w, Run (fun w c w' => w' = SudoWorld.call w c) start tr w ∧
    tr.map Prod.snd = [.wait 1, .sudoAuth none rootPassword, .switchUser "nodeai", .sudoAuth none ""] ∧
    handedOver.session.currentUsername none = "nodeai" ∧ ¬ ∀ x ∈ tr, x.1.GraceRight x.2 := by
  have hname : handedOver.session.currentUsername none = "nodeai" := by decide +kernel
  have hyes : (handedOver.session.sudoAuth none handedOver.uptimeMs "").1 = true := by decide +kernel
  have hwrong : handedOver.session.db.authenticate "nodeai" "" = false := by decide +kernel
  refine ⟨_, _, (((Run.nil.snoc rfl).snoc rfl).snoc rfl).snoc rfl, rfl, hname, fun hall => ?_⟩
  have hlast : handedOver.GraceRight (.sudoAuth none "") := hall (handedOver, _) (by simp [handedOver])
  rcases hlast hyes with hauth | ⟨t, hmem, _⟩
  · rw [hname, hwrong] at hauth
    cases hauth
  · rw [hname, handedOver_accepted] at hmem
    simp at hmem

end SudoWorld
end NodeKernel
