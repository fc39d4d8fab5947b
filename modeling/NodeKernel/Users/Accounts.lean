import Mathlib.Data.List.Induction
import NodeKernel.Lib.Bytes
import NodeKernel.Lib.Text

/-!
# Accounts

The tables of users, groups and password hashes. A group and an account are joined by name only, so the personal group
of an account named `sudo` counts as the group that may use `sudo`. `hash_password` hashes the salt in decimal,
`verify_password` in hexadecimal.
-/
namespace NodeKernel

def passwordSalt (password : String) : UInt64 :=
  fnv1aHash [UInt8.ofNat (utf8 password).length, 0x4E, 0x41, 0x49]

def hashWithSalt (salt : UInt64) (password : String) : String :=
  let salted := toString salt.toNat ++ ":" ++ password
  hex16 salt ++ ":" ++ hex16 (fnv1aHash (utf8 salted))

def hashPassword (password : String) : String := hashWithSalt (passwordSalt password) password

/-- `stored_hash[..colon]` at the first colon. -/
def saltText (storedHash : String) : Option String :=
  if ':' ∈ storedHash.toList then some (String.ofList (storedHash.toList.takeWhile (· != ':'))) else none

def verifyPassword (password storedHash : String) : Bool :=
  match saltText storedHash with
  | some saltStr =>
    let salted := saltStr ++ ":" ++ password
    saltStr ++ ":" ++ hex16 (fnv1aHash (utf8 salted)) == storedHash
  | none => false

/-- The decimal and the hexadecimal text of the salt have one hash. -/
def SaltAgrees (salt : UInt64) : Prop :=
  fnv1aHash (utf8 (hex16 salt)) = fnv1aHash (utf8 (toString salt.toNat))

instance (salt : UInt64) : Decidable (SaltAgrees salt) := inferInstanceAs (Decidable (_ = _))

lemma saltText_append {s : String} (hs : ':' ∉ s.toList) (t : String) : saltText (s ++ ":" ++ t) = some s := by
  have hlist : (s ++ ":" ++ t).toList = s.toList ++ ':' :: t.toList := by simp
  have hbefore : ∀ c ∈ s.toList, (c != ':') = true := by
    intro c hc
    exact bne_iff_ne.mpr fun heq => hs (heq ▸ hc)
  unfold saltText
  rw [hlist, if_pos (by simp), List.takeWhile_append_of_pos hbefore]
  simp

lemma verifyPassword_hashWithSalt (salt : UInt64) (password : String) :
    verifyPassword password (hashWithSalt salt password) ↔ SaltAgrees salt := by
  unfold verifyPassword hashWithSalt
  rw [saltText_append (colon_notMem_hex16 salt)]
  rw [beq_iff_eq, String.append_right_inj, hex16_injective.eq_iff]
  simp only [utf8_append, List.append_assoc]
  exact fnv1aHash_append_inj

lemma not_saltAgrees_passwordSalt (password : String) : ¬ SaltAgrees (passwordSalt password) := by
  -- the salt depends on the length modulo 256 alone
  have hall : ∀ n < 256, ∀ salt, salt = fnv1aHash [UInt8.ofNat n, 0x4E, 0x41, 0x49] →
      fnv1aHash (asciiBytes (hexDigits 16 salt.toNat [])) ≠ fnv1aHash (asciiBytes (Nat.toDigits 10 salt.toNat)) := by
    simp only [forall_eq]
    decide +kernel
  unfold SaltAgrees
  rw [utf8_hex16, utf8_toString]
  refine hall _ (Nat.mod_lt (utf8 password).length (by decide)) _ ?_
  rw [passwordSalt, UInt8.ofNat_mod_size]

open List

structure User where
  username : String
  uid : UInt32
  gid : UInt32
  home : String
  shell : String
  deriving DecidableEq

structure Group where
  name : String
  gid : UInt32
  members : List String
  deriving DecidableEq

structure ShadowEntry where
  username : String
  hash : String
  deriving DecidableEq

structure UserDb where
  users : List User
  groups : List Group
  shadow : List ShadowEntry
  deriving DecidableEq

namespace UserDb

def init : UserDb :=
  { users := [⟨"root", 0, 0, "/root", "/bin/sh"⟩, ⟨"nodeai", 1000, 1000, "/home/nodeai", "/bin/sh"⟩,
      ⟨"nobody", 65534, 65534, "/nonexistent", "/bin/false"⟩]
    groups := [⟨"root", 0, []⟩, ⟨"nodeai", 1000, []⟩, ⟨"nobody", 65534, []⟩, ⟨"sudo", 27, ["nodeai"]⟩]
    shadow := [⟨"root", hashPassword "root"⟩, ⟨"nodeai", hashPassword "nodeai"⟩] }

def getUserByName (db : UserDb) (name : String) : Option User :=
  db.users.find? (fun u => u.username == name)

def getUser (db : UserDb) (uid : UInt32) : Option User := db.users.find? (fun u => u.uid == uid)

def userCanSudo (db : UserDb) (username : String) : Bool :=
  db.groups.any (fun g => g.name == "sudo" && g.members.contains username) ||
    match db.getUserByName username with
    | some u => u.uid == 0
    | none => false

def authenticate (db : UserDb) (username password : String) : Bool :=
  match db.shadow.find? (fun s => s.username == username) with
  | some s => verifyPassword password s.hash
  | none => false

def nextUid (db : UserDb) : UInt32 :=
  let uid := (db.users.map User.uid).max?.getD 999 + 1
  if uid < 1000 then 1000 else uid

def useradd (db : UserDb) (username : String) : Except String (UInt32 × UserDb) :=
  if db.users.any (fun u => u.username == username) then .error "user already exists"
  else
    let uid := db.nextUid
    .ok (uid,
      { users := db.users ++ [⟨username, uid, uid, "/home/" ++ username, "/bin/sh"⟩]
        groups := db.groups ++ [⟨username, uid, [username]⟩]
        shadow := db.shadow ++ [⟨username, "!"⟩] })

def userdel (db : UserDb) (username : String) : Except String UserDb :=
  if username = "root" then .error "cannot delete root"
  else
    let users := db.users.filter (fun u => u.username != username)
    if users.length = db.users.length then .error "user not found"
    else
      .ok
        { users
          groups := (db.groups.map fun g => { g with members := g.members.filter (· != username) }).filter
            (fun g => g.name != username)
          shadow := db.shadow.filter (fun s => s.username != username) }

def setHash (username hash : String) : List ShadowEntry → Option (List ShadowEntry)
  | [] => none
  | s :: rest =>
    if s.username = username then some ({ s with hash } :: rest)
    else (setHash username hash rest).map (s :: ·)

def changePassword (db : UserDb) (username newPassword : String) : Except String UserDb :=
  match setHash username (hashPassword newPassword) db.shadow with
  | some shadow => .ok { db with shadow }
  | none => .error "user not found"

/-! ## Passwords -/

lemma find?_setHash {username hash : String} {l l' : List ShadowEntry} (h : setHash username hash l = some l') :
    l'.find? (fun s => s.username == username) = some ⟨username, hash⟩ := by
  induction l generalizing l' with
  | nil => cases h
  | cons s rest ih =>
    unfold setHash at h
    by_cases hs : s.username = username
    · rw [if_pos hs] at h
      cases h
      subst hs
      exact find?_cons_of_pos (beq_self_eq_true _)
    · rw [if_neg hs] at h
      obtain ⟨rest', hrest, rfl⟩ := Option.map_eq_some_iff.mp h
      rw [find?_cons_of_neg (by simpa using hs)]
      exact ih hrest

variable {username : String} {db db' : UserDb}

lemma authenticate_changePassword {username password : String}
    (h : db.changePassword username password = .ok db') (attempt : String) :
    db'.authenticate username attempt = verifyPassword attempt (hashPassword password) := by
  unfold changePassword at h
  cases hset : setHash username (hashPassword password) db.shadow with
  | none => rw [hset] at h; cases h
  | some shadow =>
    rw [hset] at h
    cases h
    unfold authenticate
    rw [find?_setHash hset]

/-- A password that was just set is accepted where the two texts of its salt have one hash. They never
have. -/
theorem changePassword_roundTrip_iff (salt : UInt64) (password : String) :
    (verifyPassword password (hashWithSalt salt password) ↔ SaltAgrees salt) ∧
    (∀ (db db' : UserDb) (username : String), db.changePassword username password = .ok db' →
      (db'.authenticate username password ↔ SaltAgrees (passwordSalt password))) ∧ ¬ SaltAgrees (passwordSalt password) := by
  refine ⟨verifyPassword_hashWithSalt salt password, ?_, not_saltAgrees_passwordSalt password⟩
  intro db db' username h
  rw [authenticate_changePassword h]
  exact verifyPassword_hashWithSalt _ _

theorem root_password_roundTrip : ∃ db, init.changePassword "root" "root" = .ok db ∧
      (db.authenticate "root" "root" ↔ SaltAgrees (passwordSalt "root")) :=
  ⟨_, rfl, (changePassword_roundTrip_iff 0 "root").2.1 init _ _ rfl⟩

theorem root_password_rejected : ∃ db, init.changePassword "root" "root" = .ok db ∧ db.authenticate "root" "root" = false := by
  refine ⟨_, rfl, ?_⟩
  decide +kernel

/-! ## Who may use sudo -/

lemma nextUid_ne_zero (db : UserDb) : db.nextUid ≠ 0 := by
  unfold nextUid
  dsimp only
  split_ifs with hlow
  · decide
  · exact fun hzero => hlow (by rw [hzero]; decide)

lemma useradd_ok {uid : UInt32} (h : db.useradd username = .ok (uid, db')) :
    uid ≠ 0 ∧ db'.users = db.users ++ [⟨username, uid, uid, "/home/" ++ username, "/bin/sh"⟩] ∧
      db'.groups = db.groups ++ [⟨username, uid, [username]⟩] := by
  unfold useradd at h
  split_ifs at h
  cases h
  exact ⟨db.nextUid_ne_zero, rfl, rfl⟩

lemma userdel_ok (h : db.userdel username = .ok db') : username ≠ "root" ∧ (∃ u ∈ db.users, u.username = username) ∧
      db'.users = db.users.filter (fun u => u.username != username) ∧
      db'.groups = (db.groups.map fun g => { g with members := g.members.filter (· != username) }).filter
        (fun g => g.name != username) := by
  unfold userdel at h
  dsimp only at h
  split_ifs at h with hroot hlen
  cases h
  refine ⟨hroot, ?_, rfl, rfl⟩
  by_contra hnone
  push Not at hnone
  exact hlen (congrArg List.length (filter_eq_self.mpr fun u hu => bne_iff_ne.mpr (hnone u hu)))

lemma changePassword_ok {username password : String}
    (h : db.changePassword username password = .ok db') : db'.users = db.users ∧ db'.groups = db.groups := by
  unfold changePassword at h
  split at h <;> cases h
  exact ⟨rfl, rfl⟩

lemma userCanSudo_iff {db : UserDb} : db.userCanSudo username ↔ (∃ g ∈ db.groups, g.name = "sudo" ∧ username ∈ g.members) ∨
      ∃ u, db.getUserByName username = some u ∧ u.uid = 0 := by
  unfold userCanSudo
  cases db.getUserByName username <;> simp

lemma getUserByName_some {db : UserDb} {u : User} (h : db.getUserByName username = some u) :
    u ∈ db.users ∧ u.username = username :=
  ⟨mem_of_find?_eq_some h, by simpa using find?_some h⟩

end UserDb

inductive UserCall where
  | useradd (username : String)
  | userdel (username : String)
  | changePassword (username newPassword : String)
  deriving DecidableEq

/-- The tables, and a record of the run: the names of the first accounts that were not deleted since. -/
structure Accounts where
  db : UserDb
  kept : List String

namespace Accounts

def start : Accounts := ⟨UserDb.init, UserDb.init.users.map User.username⟩

/-- A call that fails changes nothing. -/
def call (a : Accounts) : UserCall → Accounts
  | .useradd username =>
    match a.db.useradd username with
    | .ok (_, db) => { a with db }
    | .error _ => a
  | .userdel username =>
    match a.db.userdel username with
    | .ok db => ⟨db, a.kept.filter (· != username)⟩
    | .error _ => a
  | .changePassword username password =>
    match a.db.changePassword username password with
    | .ok db => { a with db }
    | .error _ => a

def calls (l : List UserCall) : Accounts := l.foldl call start

/-- Only a first account that could use `sudo` at the start can, and the first `sudo` group has those of
its members that were not deleted. -/
def SudoKept (a : Accounts) : Prop :=
  (∀ username, a.db.userCanSudo username → username ∈ a.kept ∧ start.db.userCanSudo username) ∧
  ∀ g₀ ∈ start.db.groups, g₀.name = "sudo" →
    ∃ g ∈ a.db.groups, g.name = g₀.name ∧ g.gid = g₀.gid ∧ ∀ m ∈ g₀.members, m ∈ a.kept → m ∈ g.members

/-- What holds as long as there was no account `sudo`. -/
structure Ordinary (a : Accounts) : Prop where
  root : "root" ∈ a.kept
  users : ∀ u ∈ a.db.users, u.username ≠ "sudo" ∧ (u.uid = 0 → u.username = "root")
  groups : ∀ g ∈ a.db.groups, g.name = "sudo" → ∀ m ∈ g.members, m = "nodeai" ∧ "nodeai" ∈ a.kept
  sudoers : ∃ g ∈ a.db.groups, g.name = "sudo" ∧ g.gid = 27 ∧ ("nodeai" ∈ a.kept → "nodeai" ∈ g.members)

lemma ordinary_start : start.Ordinary where
  root := by decide
  users := by decide
  groups := by decide
  sudoers := ⟨⟨"sudo", 27, ["nodeai"]⟩, by decide, rfl, rfl, by decide⟩

variable {a : Accounts}

lemma Ordinary.sudoKept (h : a.Ordinary) : a.SudoKept := by
  constructor
  · intro username hsudo
    obtain ⟨g, hg, hname, hmem⟩ | ⟨u, hu, huid⟩ := UserDb.userCanSudo_iff.mp hsudo
    · obtain ⟨rfl, hkept⟩ := h.groups g hg hname username hmem
      exact ⟨hkept, by decide⟩
    · obtain ⟨hmem, rfl⟩ := UserDb.getUserByName_some hu
      rw [(h.users u hmem).2 huid]
      exact ⟨h.root, by decide⟩
  · obtain ⟨g, hg, hname, hgid, hkept⟩ := h.sudoers
    have hfirst : ∀ g₀ ∈ start.db.groups, g₀.name = "sudo" → g₀ = ⟨"sudo", 27, ["nodeai"]⟩ := by decide
    intro g₀ hg₀ hname₀
    rw [hfirst g₀ hg₀ hname₀]
    refine ⟨g, hg, hname, hgid, ?_⟩
    intro m hm
    rw [mem_singleton.mp hm]
    exact hkept

lemma Ordinary.useradd (h : a.Ordinary) {username : String} (hname : username ≠ "sudo") :
    (a.call (.useradd username)).Ordinary := by
  cases hadd : a.db.useradd username with
  | error e => simpa only [call, hadd] using h
  | ok r =>
    obtain ⟨uid, db⟩ := r
    obtain ⟨huid, husers, hgroups⟩ := UserDb.useradd_ok hadd
    simp only [call, hadd]
    refine ⟨h.root, ?_, ?_, ?_⟩
    · simp only [husers, forall_mem_append, forall_mem_singleton]
      exact ⟨h.users, hname, fun hzero => absurd hzero huid⟩
    · simp only [hgroups, forall_mem_append, forall_mem_singleton]
      exact ⟨h.groups, fun hsudo => absurd hsudo hname⟩
    · obtain ⟨g, hg, hrest⟩ := h.sudoers
      exact ⟨g, hgroups ▸ mem_append_left _ hg, hrest⟩

lemma Ordinary.userdel (h : a.Ordinary) (username : String) : (a.call (.userdel username)).Ordinary := by
  cases hdel : a.db.userdel username with
  | error e => simpa only [call, hdel] using h
  | ok db =>
    obtain ⟨hroot, ⟨u, hu, rfl⟩, husers, hgroups⟩ := UserDb.userdel_ok hdel
    have hsudo := (h.users u hu).1
    simp only [call, hdel]
    -- an account that is deleted cannot be named after the group
    refine ⟨by simp [h.root, hroot.symm], ?_, ?_, ?_⟩
    · intro v hv
      rw [husers] at hv
      exact h.users v (mem_of_mem_filter hv)
    · intro g hg hname m hm
      rw [hgroups] at hg
      obtain ⟨g', hg', rfl⟩ := mem_map.mp (mem_of_mem_filter hg)
      obtain ⟨hm', hne⟩ := mem_filter.mp hm
      obtain ⟨rfl, hkept⟩ := h.groups g' hg' hname m hm'
      exact ⟨rfl, mem_filter.mpr ⟨hkept, hne⟩⟩
    · obtain ⟨g, hg, hname, hgid, hmem⟩ := h.sudoers
      refine ⟨{ g with members := g.members.filter (· != u.username) }, ?_, hname, hgid, ?_⟩
      · rw [hgroups]
        exact mem_filter.mpr ⟨mem_map_of_mem hg, by simp [hname, hsudo.symm]⟩
      · intro hkept
        obtain ⟨hkept, hne⟩ := mem_filter.mp hkept
        exact mem_filter.mpr ⟨hmem hkept, hne⟩

lemma Ordinary.changePassword (h : a.Ordinary) (username password : String) :
    (a.call (.changePassword username password)).Ordinary := by
  cases hset : a.db.changePassword username password with
  | error e => simpa only [call, hset] using h
  | ok db =>
    obtain ⟨husers, hgroups⟩ := UserDb.changePassword_ok hset
    simp only [call, hset]
    exact ⟨h.root, husers ▸ h.users, hgroups ▸ h.groups, hgroups ▸ h.sudoers⟩

lemma Ordinary.call (h : a.Ordinary) {c : UserCall} (hc : c ≠ .useradd "sudo") : (a.call c).Ordinary := by
  cases c with
  | useradd username => exact h.useradd fun heq => hc (heq ▸ rfl)
  | userdel username => exact h.userdel username
  | changePassword username password => exact h.changePassword username password

lemma ordinary_calls {l : List UserCall} (h : UserCall.useradd "sudo" ∉ l) : (calls l).Ordinary := by
  induction l using reverseRecOn with
  | nil => exact ordinary_start
  | append_singleton l c ih =>
    unfold calls
    rw [foldl_append]
    refine (ih fun hmem => h (mem_append_left _ hmem)).call ?_
    rintro rfl
    exact h (mem_append_right _ mem_cons_self)

lemma Ordinary.not_sudoKept_useradd (h : a.Ordinary) : ¬ (a.call (.useradd "sudo")).SudoKept := by
  have hnew : a.db.users.any (fun u => u.username == "sudo") = false := by
    rw [any_eq_false]
    exact fun u hu => by simpa using (h.users u hu).1
  intro hkept
  have hsudo : (a.call (.useradd "sudo")).db.userCanSudo "sudo" := by
    rw [UserDb.userCanSudo_iff]
    refine .inl ⟨⟨"sudo", a.db.nextUid, ["sudo"]⟩, ?_, rfl, mem_cons_self⟩
    simp only [Accounts.call, UserDb.useradd, hnew, Bool.false_eq_true, if_false]
    exact mem_append_right _ mem_cons_self
  have hfirst := (hkept.1 "sudo" hsudo).2
  revert hfirst
  decide

/-- In every state of a run the first sudoers alone can use `sudo` exactly if no call adds an account
named `sudo`. -/
theorem sudoKept_iff (l : List UserCall) : (∀ k ≤ l.length, (calls (l.take k)).SudoKept) ↔ UserCall.useradd "sudo" ∉ l := by
  constructor
  · intro hkept hmem
    obtain ⟨pre, post, rfl, hpre⟩ := eq_append_cons_of_mem hmem
    have hlast := hkept (pre.length + 1) (by simp)
    have htake : (pre ++ UserCall.useradd "sudo" :: post).take (pre.length + 1) = pre ++ [.useradd "sudo"] := by
      rw [take_length_add_append]
      rfl
    rw [htake] at hlast
    unfold calls at hlast
    rw [foldl_append] at hlast
    exact (ordinary_calls hpre).not_sudoKept_useradd hlast
  · intro hnone k _
    exact (ordinary_calls fun hmem => hnone (mem_of_mem_take hmem)).sudoKept

theorem useradd_sudo_may_sudo : (calls [.useradd "sudo"]).db.userCanSudo "sudo" = true ∧ start.db.userCanSudo "sudo" = false ∧
      (calls [.useradd "sudo", .userdel "sudo"]).db.userCanSudo "nodeai" = false := by
  decide +kernel

end Accounts
end NodeKernel
