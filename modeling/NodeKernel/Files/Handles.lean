import NodeKernel.Files.Descriptors

/-!
# The handles in a descriptor table

A property of all handles of a process, and which handles a call has to supply with it so that the call
keeps it.
-/
namespace NodeKernel

open Option

namespace FdTables

variable {η ν : Type} {s : FdTables η ν} {P : η → Prop}

def Handles (P : η → Prop) (s : FdTables η ν) : Prop := ∀ fd h, s.table.lookup fd = some h → P h

/-- All handles that the call may put into the table have the property, those that it duplicates apart. -/
def Supplies (P : η → Prop) (s : FdTables η ν) : FdCall η ν → Prop
  | .sysOpen _ opened => ∀ h dir, opened = .ok (h, dir) → P h
  | .sysDup vfs _ | .sysDup2 vfs _ _ | .sysFcntl vfs _ _ _ =>
    (∀ h h', vfs.cloneBox h = some h' → P h → P h') ∧ ∀ p h, vfs.reopen p = some h → P h
  | .sysPipe2 _ reader writer => P reader ∧ P writer
  | .sysEventfd2 handle _ | .sysTimerfdCreate handle | .sysInotifyInit1 handle => P handle
  | .sysSocket domain sockType handle => domain = 2 ∧ sockType % 16 = 1 → P handle
  | .sysConnect sockfd checked connected =>
    checked = .ok () → sockfd ∈ s.table → ∀ h key, connected = some (h, key) → P h
  | .sysAccept sockfd accepted => ∀ h key, (s.socketPorts.lookup sockfd).bind accepted = some (h, key) → P h
  | .sysTimerfdSettime _ handle | .sysSignalfd4 _ handle => ∀ h, handle = .ok h → P h
  | .sysClose _ | .sysEpollCreate1 | .sysBind _ _ | .sysSetrlimit _ _ => True

lemma Handles.congr {s' : FdTables η ν} (h : s.Handles P) (ht : s'.table = s.table) : s'.Handles P := by
  unfold Handles
  rw [ht]
  exact h

lemma Handles.insert {s' : FdTables η ν} (h : s.Handles P) {fd : ℕ} {x : η} (hx : P x)
    (ht : s'.table = s.table.insert fd x) : s'.Handles P := by
  intro fd' h' hl
  rw [ht] at hl
  by_cases hfd : fd' = fd
  · rw [hfd, AList.lookup_insert] at hl
    cases hl
    exact hx
  · rw [AList.lookup_insert_ne hfd] at hl
    exact h fd' h' hl

lemma Handles.erase {s' : FdTables η ν} (h : s.Handles P) {fd : ℕ} (ht : s'.table = s.table.erase fd) : s'.Handles P := by
  intro fd' h' hl
  rw [ht] at hl
  by_cases hfd : fd' = fd
  · rw [hfd, AList.lookup_erase] at hl
    cases hl
  · rw [AList.lookup_erase_ne hfd] at hl
    exact h fd' h' hl

lemma allocFd_table (s : FdTables η ν) : s.allocFd.2.table = s.table := by
  unfold allocFd
  dsimp only
  split_ifs <;> rfl

lemma Handles.allocFd (h : s.Handles P) : s.allocFd.2.Handles P := h.congr s.allocFd_table

lemma Handles.doDup (h : s.Handles P) {vfs : Vfs η} (hclone : ∀ x x', vfs.cloneBox x = some x' → P x → P x')
    (hopen : ∀ p x, vfs.reopen p = some x → P x) (oldfd newfd : ℕ) : (s.doDup vfs oldfd newfd).2.Handles P := by
  unfold FdTables.doDup
  by_cases hstd : oldfd < 3
  · rw [if_pos hstd]
    exact h.congr rfl
  · rw [if_neg hstd]
    split
    next handle heq =>
      obtain ⟨x, hx, hcl⟩ := bind_eq_some_iff.mp heq
      exact h.insert (hclone x handle hcl (h oldfd x hx)) rfl
    · split
      next p fh heq =>
        obtain ⟨p', -, hmap⟩ := bind_eq_some_iff.mp heq
        obtain ⟨x, hx, hpair⟩ := map_eq_some_iff.mp hmap
        cases hpair
        exact h.insert (hopen _ _ hx) rfl
      · exact h

lemma Handles.call (h : s.Handles P) {c : FdCall η ν} (hc : s.Supplies P c) : (s.call c).2.Handles P := by
  cases c with
  | sysOpen path opened =>
    cases opened with
    | error e => exact h
    | ok r => exact h.allocFd.insert (hc r.1 r.2 rfl) rfl
  | sysClose fd => exact h.erase rfl
  | sysDup vfs oldfd => exact h.allocFd.doDup hc.1 hc.2 _ _
  | sysDup2 vfs oldfd newfd =>
    change (s.sysDup2 vfs oldfd newfd).2.Handles P
    unfold sysDup2
    split_ifs
    · exact h
    · exact Handles.doDup (h.erase rfl) hc.1 hc.2 _ _
  | sysFcntl vfs fd cmd arg =>
    change (s.sysFcntl vfs fd cmd arg).2.Handles P
    unfold sysFcntl
    split
    · exact h
    · exact h
    · exact h
    · exact h.congr rfl
    · exact h.allocFd.doDup hc.1 hc.2 _ _
    · exact h
  | sysPipe2 fdsPtr reader writer =>
    change (s.sysPipe2 fdsPtr reader writer).2.2.Handles P
    unfold sysPipe2
    split_ifs
    · exact Handles.insert (s := { s.allocFd.2.allocFd.2 with
        table := s.allocFd.2.allocFd.2.table.insert s.allocFd.1 reader })
        (h.allocFd.allocFd.insert hc.1 rfl) hc.2 rfl
    · exact h
  | sysEpollCreate1 => exact h.allocFd.congr rfl
  | sysEventfd2 | sysTimerfdCreate | sysInotifyInit1 => exact h.allocFd.insert hc rfl
  | sysSocket domain sockType handle =>
    change (s.sysSocket domain sockType handle).2.Handles P
    unfold sysSocket
    split_ifs with hinet
    · exact h.allocFd.insert (hc hinet) rfl
    · exact h
  | sysConnect sockfd checked connected =>
    change (s.sysConnect sockfd checked connected).2.Handles P
    unfold sysConnect
    split
    · exact h
    · split_ifs with hmem
      · split
        · exact h
        · exact h.insert (hc rfl hmem _ _ rfl) rfl
      · exact h
  | sysBind sockfd port =>
    change (s.sysBind sockfd port).2.Handles P
    unfold sysBind
    split
    · exact h
    · split_ifs
      · exact h.congr rfl
      · exact h
  | sysAccept sockfd accepted =>
    change (s.sysAccept sockfd accepted).2.Handles P
    unfold sysAccept
    split
    · exact h
    next port hport =>
      split
      · exact h
      next conn key hacc =>
        exact h.allocFd.insert (hc conn key (by rw [hport]; exact hacc)) rfl
  | sysTimerfdSettime fd handle =>
    change (s.sysTimerfdSettime fd handle).2.Handles P
    unfold sysTimerfdSettime
    split
    · exact h
    · split_ifs
      · exact h.insert (hc _ rfl) rfl
      · exact h
  | sysSignalfd4 fd handle =>
    change (s.sysSignalfd4 fd handle).2.Handles P
    unfold sysSignalfd4
    split
    · exact h
    · dsimp only
      split_ifs
      · exact h.allocFd.insert (hc _ rfl) rfl
      · exact h.insert (hc _ rfl) rfl
      · exact h
  | sysSetrlimit newCur newMax =>
    change (s.sysSetrlimit newCur newMax).2.Handles P
    unfold sysSetrlimit
    split_ifs
    · exact h
    · exact h
    · exact h.congr rfl

end FdTables

end NodeKernel
