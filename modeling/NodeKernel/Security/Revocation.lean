import Mathlib.Data.Fin.VecNotation
import NodeKernel.Files.Handles

/-!
# Revoking capabilities

`revoke_capability` and what it leaves in the descriptor table of the process, and which of the later
calls of the process put a network socket there.
-/
namespace NodeKernel

open Option

def capNetRaw : UInt64 := 0x02
def capSetuid : UInt64 := 0x10
def capSysModule : UInt64 := 0x20
def capNetBind : UInt64 := 0x40
def capSysBoot : UInt64 := 0x80

def minConfinablePid : ℕ := 8
def revokeMask : UInt64 := capNetBind ||| capSysModule ||| capSetuid ||| capSysBoot

/-- The descriptors of one process and its entry in `SECURITY_CONTEXTS`. -/
structure CapWorld (η ν : Type) where
  fds : FdTables η ν
  caps : Option UInt64

/-- A system call, and whether the namespace, confinement and filter checks let it through; or the reaction
to an anomaly that the dispatcher finds. -/
inductive CapEvent (η ν : Type) where
  | call (passes : Bool) (c : FdCall η ν)
  | escalate

namespace CapWorld

variable {η ν : Type}

def hasCapability (w : CapWorld η ν) (pid : ℕ) (cap : UInt64) : Bool :=
  if pid = 0 ∨ pid = 1 then true
  else
    match w.caps with
    | some capabilities => capabilities &&& cap == cap
    | none => false

section
variable (net : η → Bool)

/-- Only the very mask `NET_RAW` closes sockets. -/
def invalidateHandles (w : CapWorld η ν) (capabilityRevoked : UInt64) : CapWorld η ν :=
  if capabilityRevoked = capNetRaw then
    let toClose := w.fds.table.keys.filter (fun fd => (w.fds.table.lookup fd).any net)
    { w with fds := { w.fds with table := toClose.foldl (fun t fd => t.erase fd) w.fds.table } }
  else w

def revokeCapability (w : CapWorld η ν) (cap : UInt64) : CapWorld η ν :=
  { w with caps := w.caps.map (· &&& ~~~cap) }.invalidateHandles net cap

def escalateConfinement (w : CapWorld η ν) (pid : ℕ) : CapWorld η ν :=
  if pid < minConfinablePid then w
  else
    match w.caps with
    | none => w
    | some capabilities =>
      let revoked := capabilities &&& revokeMask
      if revoked = 0 then w
      else
        let w := { w with caps := some (capabilities &&& ~~~revokeMask) }
        if revoked &&& capNetBind ≠ 0 then w.invalidateHandles net capNetRaw else w

def isSocket : FdCall η ν → Bool
  | .sysSocket _ _ _ => true
  | _ => false

/-- The dispatcher looks at the capability for `socket` alone. -/
def next (pid : ℕ) (w : CapWorld η ν) : CapEvent η ν → CapWorld η ν
  | .call passes c =>
    if !passes || isSocket c && !w.hasCapability pid capNetRaw then w else { w with fds := (w.fds.call c).2 }
  | .escalate => w.escalateConfinement net pid

/-- The handles that the kernel makes for a call: sockets for `socket`, `connect` and `accept`, for no other
call, and copies of the same kind. -/
def Kinded : FdCall η ν → Prop
  | .sysSocket _ _ handle => net handle
  | .sysConnect _ _ connected => ∀ h key, connected = some (h, key) → net h
  | .sysAccept _ accepted => ∀ port h key, accepted port = some (h, key) → net h
  | c => ∀ s : FdTables η ν, s.Supplies (fun h => net h = false) c

def Step (pid : ℕ) (w : CapWorld η ν) (e : CapEvent η ν) (w' : CapWorld η ν) : Prop :=
  w' = w.next net pid e ∧ ∀ passes c, e = .call passes c → Kinded net c

def NoSockets (w : CapWorld η ν) : Prop := w.fds.Handles (fun h => net h = false)

/-- The call makes no socket: `socket` not for a stream, `connect` not on any descriptor, `accept` not on one
with a port, or without an answer. -/
def GivesNone (w : CapWorld η ν) : FdCall η ν → Prop
  | .sysSocket domain sockType _ => ¬ (domain = 2 ∧ sockType % 16 = 1)
  | .sysConnect sockfd checked connected => checked = .ok () → sockfd ∈ w.fds.table → connected = none
  | .sysAccept sockfd accepted => (w.fds.socketPorts.lookup sockfd).bind accepted = none
  | _ => True

/-- No call that the checks let through makes a socket, where `socket` gets through for the first two
processes alone. -/
def Harmless (pid : ℕ) (w : CapWorld η ν) : CapEvent η ν → Prop
  | .call passes c => passes → (isSocket c → pid = 0 ∨ pid = 1) → w.GivesNone c
  | .escalate => True

variable {net} {pid : ℕ} {w : CapWorld η ν}

lemma lookup_foldl_erase (l : List ℕ) (t : AList fun _ : ℕ => η) (fd : ℕ) :
    (l.foldl (fun t fd => t.erase fd) t).lookup fd = if fd ∈ l then none else t.lookup fd := by
  induction l generalizing t with
  | nil => simp
  | cons a l ih =>
    rw [List.foldl_cons, ih]
    by_cases ha : fd = a
    · subst ha
      simp
    · simp [ha, AList.lookup_erase_ne ha]

lemma noSockets_invalidateHandles (w : CapWorld η ν) : NoSockets net (w.invalidateHandles net capNetRaw) := by
  unfold invalidateHandles
  rw [if_pos rfl]
  intro fd h hl
  rw [lookup_foldl_erase] at hl
  split_ifs at hl with hclose
  by_contra hnet
  refine hclose (List.mem_filter.mpr ⟨?_, ?_⟩)
  · exact AList.mem_keys.mp (AList.lookup_isSome.mp (by rw [hl]; rfl))
  · rw [hl]
    simpa using hnet

lemma noSockets_revokeCapability_iff {cap : UInt64} :
    NoSockets net (w.revokeCapability net cap) ↔ cap = capNetRaw ∨ NoSockets net w := by
  unfold revokeCapability
  by_cases hcap : cap = capNetRaw
  · subst hcap
    exact iff_of_true (noSockets_invalidateHandles _) (.inl rfl)
  · unfold invalidateHandles
    rw [if_neg hcap, or_iff_right hcap]
    rfl

def Cleared (w : CapWorld η ν) : Prop := ∀ capabilities, w.caps = some capabilities → capabilities &&& capNetRaw = 0

lemma invalidateHandles_caps (w : CapWorld η ν) (cap : UInt64) : (w.invalidateHandles net cap).caps = w.caps := by
  unfold invalidateHandles
  split_ifs <;> rfl

lemma cleared_revokeCapability {cap : UInt64} (h : cap &&& capNetRaw = capNetRaw) : (w.revokeCapability net cap).Cleared := by
  intro capabilities hcaps
  unfold revokeCapability at hcaps
  rw [invalidateHandles_caps] at hcaps
  obtain ⟨before, -, rfl⟩ := map_eq_some_iff.mp hcaps
  rw [← h, UInt64.and_assoc, ← UInt64.and_assoc (~~~cap), UInt64.not_and_self, UInt64.zero_and, UInt64.and_zero]

lemma Cleared.hasCapability (h : w.Cleared) (hpid : ¬ (pid = 0 ∨ pid = 1)) : w.hasCapability pid capNetRaw = false := by
  unfold CapWorld.hasCapability
  rw [if_neg hpid]
  cases hcaps : w.caps with
  | none => rfl
  | some capabilities =>
    dsimp only
    rw [h capabilities hcaps]
    decide

lemma Cleared.escalateConfinement (h : w.Cleared) : (w.escalateConfinement net pid).Cleared := by
  have hmask : ∀ capabilities, w.caps = some capabilities → (capabilities &&& ~~~revokeMask) &&& capNetRaw = 0 := by
    intro capabilities hcaps
    rw [UInt64.and_assoc, UInt64.and_comm (~~~revokeMask), ← UInt64.and_assoc, h capabilities hcaps, UInt64.zero_and]
  unfold CapWorld.escalateConfinement
  split_ifs
  · exact h
  · cases hcaps : w.caps with
    | none => exact h
    | some capabilities =>
      dsimp only
      split_ifs
      · exact h
      · intro caps heq
        rw [invalidateHandles_caps] at heq
        cases heq
        exact hmask capabilities hcaps
      · intro caps heq
        cases heq
        exact hmask capabilities hcaps

lemma NoSockets.escalateConfinement (h : NoSockets net w) : NoSockets net (w.escalateConfinement net pid) := by
  unfold CapWorld.escalateConfinement
  split_ifs
  · exact h
  · cases w.caps with
    | none => exact h
    | some capabilities =>
      dsimp only
      split_ifs
      · exact h
      · exact noSockets_invalidateHandles _
      · exact h

lemma next_caps_of_call (w : CapWorld η ν) (passes : Bool) (c : FdCall η ν) :
    (w.next net pid (.call passes c)).caps = w.caps := by
  unfold next
  dsimp only
  split_ifs <;> rfl

lemma Cleared.next (h : w.Cleared) (e : CapEvent η ν) : (w.next net pid e).Cleared := by
  cases e with
  | call passes c =>
    unfold Cleared
    rw [next_caps_of_call]
    exact h
  | escalate => exact h.escalateConfinement

lemma not_noSockets_of_lookup (fd : ℕ) (h : η) (hl : w.fds.table.lookup fd = some h) (hnet : net h) : ¬ NoSockets net w := by
  intro hno
  rw [hno fd h hl] at hnet
  cases hnet

lemma noSockets_call_iff (h : NoSockets net w) {c : FdCall η ν} (hk : Kinded net c) :
    NoSockets net { w with fds := (w.fds.call c).2 } ↔ w.GivesNone c := by
  cases c with
  | sysSocket domain sockType handle =>
    constructor
    · intro hno hinet
      refine not_noSockets_of_lookup w.fds.allocFd.1 handle ?_ hk hno
      change (w.fds.sysSocket domain sockType handle).2.table.lookup _ = _
      unfold FdTables.sysSocket
      rw [if_pos hinet]
      exact AList.lookup_insert _
    · exact fun hnot => FdTables.Handles.call h fun hinet => absurd hinet hnot
  | sysConnect sockfd checked connected =>
    constructor
    · rintro hno rfl hmem
      by_contra hsome
      obtain ⟨⟨handle, key⟩, rfl⟩ := ne_none_iff_exists'.mp hsome
      refine not_noSockets_of_lookup sockfd handle ?_ (hk handle key rfl) hno
      change (w.fds.sysConnect sockfd (.ok ()) (some (handle, key))).2.table.lookup _ = _
      unfold FdTables.sysConnect
      rw [if_pos hmem]
      exact AList.lookup_insert _
    · intro hnone
      refine FdTables.Handles.call h fun hok hmem handle key heq => ?_
      rw [hnone hok hmem] at heq
      cases heq
  | sysAccept sockfd accepted =>
    constructor
    · intro hno
      by_contra hsome
      obtain ⟨⟨handle, key⟩, hacc⟩ := ne_none_iff_exists'.mp hsome
      obtain ⟨port, hport, hready⟩ := bind_eq_some_iff.mp hacc
      refine not_noSockets_of_lookup w.fds.allocFd.1 handle ?_ (hk port handle key hready) hno
      change (w.fds.sysAccept sockfd accepted).2.table.lookup _ = _
      unfold FdTables.sysAccept
      rw [hport]
      dsimp only
      rw [hready]
      exact AList.lookup_insert _
    · intro hnone
      refine FdTables.Handles.call h fun handle key heq => ?_
      rw [hnone] at heq
      cases heq
  | _ => exact iff_of_true (FdTables.Handles.call h (hk w.fds)) trivial

lemma noSockets_next_iff (h : NoSockets net w) (hcl : w.Cleared) {e : CapEvent η ν} {w' : CapWorld η ν}
    (hs : Step net pid w e w') : NoSockets net (w.next net pid e) ↔ Harmless pid w e := by
  obtain ⟨-, hk⟩ := hs
  cases e with
  | escalate => exact iff_of_true h.escalateConfinement trivial
  | call passes c =>
    have hcall := noSockets_call_iff h (hk passes c rfl)
    unfold next Harmless
    dsimp only
    cases passes with
    | false => exact iff_of_true h nofun
    | true =>
      by_cases hpid : pid = 0 ∨ pid = 1
      · have hcap : w.hasCapability pid capNetRaw = true := if_pos hpid
        simpa [hcap, hpid] using hcall
      · rw [hcl.hasCapability hpid]
        cases hsock : isSocket c with
        | true => exact iff_of_true h fun _ hroot => absurd (hroot rfl) hpid
        | false => simpa using hcall

/-- After a revocation that includes `NET_RAW` the process has no socket and gets none exactly if the mask
was that capability alone or there was none to close, and no later call makes one. -/
theorem run_noSockets_iff {pid : ℕ} {cap : UInt64} (hcap : cap &&& capNetRaw = capNetRaw) (w₀ : CapWorld η ν)
    {tr : List (CapWorld η ν × CapEvent η ν)} {w : CapWorld η ν} (h : Run (Step net pid) (w₀.revokeCapability net cap) tr w) :
    (NoSockets net (w₀.revokeCapability net cap) ∧ ∀ x ∈ tr, NoSockets net (x.1.next net pid x.2)) ↔
      (cap = capNetRaw ∨ NoSockets net w₀) ∧ ∀ x ∈ tr, Harmless pid x.1 x.2 := by
  rw [← noSockets_revokeCapability_iff]
  refine and_congr_right fun hno => ?_
  refine h.forall_iff_of (I := fun w => NoSockets net w ∧ w.Cleared)
    (P := fun w e => NoSockets net (w.next net pid e)) (C := Harmless pid)
    ⟨hno, cleared_revokeCapability hcap⟩ ?_ ?_
  · rintro w e _ ⟨hno, hcl⟩ hC hs
    refine hs.1 ▸ ⟨(noSockets_next_iff hno hcl hs).mpr hC, hcl.next e⟩
  · rintro w e w' ⟨hno, hcl⟩ hs
    exact noSockets_next_iff hno hcl hs

end

/-- A process with one open descriptor, 3, where `true` stands for a socket. -/
def sample (handle : Bool) : CapWorld Bool Unit :=
  ⟨((FdTables.new ⟨rlimInfinity, rlimInfinity⟩).sysOpen "/etc/motd" (.ok (handle, none))).2, some capNetRaw⟩

def sampleConnect : CapEvent Bool Unit :=
  .call true (.sysConnect 3 (.ok ()) (some (true, ⟨49152, ![10, 0, 0, 2], 80⟩)))

theorem run_noSockets_iff_connect : let w := (sample false).revokeCapability id capNetRaw
    (NoSockets id w ∧ ∀ x ∈ [(w, sampleConnect)], NoSockets id (x.1.next id 9 x.2)) ↔
      (capNetRaw = capNetRaw ∨ NoSockets id (sample false)) ∧ ∀ x ∈ [(w, sampleConnect)], Harmless 9 x.1 x.2 :=
  run_noSockets_iff (by decide) (sample false) (Run.nil.snoc
    (show Step id 9 ((sample false).revokeCapability id capNetRaw) sampleConnect _ from
      ⟨rfl, fun _ _ heq => by cases heq; rintro _ _ ⟨⟩; rfl⟩))

theorem socket_survives_revocation : ((sample true).revokeCapability id (capNetRaw ||| 1)).fds.table.lookup 3 = some true ∧
    ((sample false).revokeCapability id capNetRaw).fds.table.lookup 3 = some false ∧
    (((sample false).revokeCapability id capNetRaw).next id 9 sampleConnect).fds.table.lookup 3 = some true := by
  decide +kernel

end CapWorld
end NodeKernel
