import NodeKernel.Files.WholeFiles

/-!
# Who may read a file

The permissions for a file of up to 64 MiB are checked where one of its pages is loaded, and a refusal counts
there as the end of the file. So a user who may not read the file gets what others have had loaded, and never an
error.
-/
namespace NodeKernel

open CachedPages

inductive FileEvent
  | read (euid : Option UInt32) (path : Path)
  | write (euid : Option UInt32) (path : Path) (data : List UInt8)
  | setMode (path : Path) (mode : UInt16)
  | setOwner (path : Path) (uid gid : UInt32)
  | switchUser (username : String)

namespace RamVfs

def setOwner (v : RamVfs) (ino : ℕ) (f : Owner → Owner) : RamVfs :=
  { v with
    tree :=
      { v.tree with
        nodes := fun i => if i = ino then (v.tree.nodes i).map (Node.withOwner f) else v.tree.nodes i
        fresh := fun i hi => by rw [v.tree.fresh i hi, Option.map_none, ite_self] }
    ramfs := fun i n hn => by
      dsimp only at hn
      split_ifs at hn
      · obtain ⟨n₀, hn₀, rfl⟩ := Option.map_eq_some_iff.mp hn
        have hram := v.ramfs i n₀ hn₀
        cases n₀ <;> first | rfl | exact hram
      · exact v.ramfs i n hn }

def setOwnerAt (v : RamVfs) (path : Path) (f : Owner → Owner) : RamVfs :=
  match v.tree.lookup path with
  | .ok ino => v.setOwner ino f
  | .error _ => v

def exec (v : RamVfs) : FileEvent → Option RamVfs
  | .read euid path => (v.readFile euid path).map Prod.snd
  | .write euid path data => (v.writeFile euid path data).map Prod.snd
  | .setMode path mode => some (v.setOwnerAt path (fun owner => { owner with mode }))
  | .setOwner path uid gid => some (v.setOwnerAt path (fun owner => { owner with uid := uid.toNat, gid := gid.toNat }))
  | .switchUser username => some { v with session := (v.session.switchUser username).2 }

def Step (v : RamVfs) (e : FileEvent) (v' : RamVfs) : Prop := v.exec e = some v'

/-- A file that is not empty is read by a user who may, and another one gets an error. -/
def Guarded (v : RamVfs) : FileEvent → Prop
  | .read euid path => ∀ ino data owner, v.tree.lookup path = .ok ino →
      v.tree.nodes ino = some (.file data owner) → data ≠ [] →
        v.checkPerm euid ino 4 = .ok () ∨ (v.readFile euid path).map Prod.fst = some (.error .permissionDenied)
  | _ => True

/-- A file that goes through the cache is read by a user who may. -/
def Permitted (v : RamVfs) : FileEvent → Prop
  | .read euid path => ∀ ino data owner, v.tree.lookup path = .ok ino →
      v.tree.nodes ino = some (.file data owner) → 0 < data.length → data.length ≤ cachedSize →
        v.checkPerm euid ino 4 = .ok ()
  | _ => True

variable {v v₀ : RamVfs} {euid : Option UInt32} {ino : ℕ} {path : Path} {data : List UInt8} {owner : Owner}
  {e : VfsError}

lemma checkPerm_file (hnode : v.tree.nodes ino = some (.file data owner)) {want : UInt8}
    (h : v.checkPerm euid ino want = .error e) : e = .permissionDenied := by
  unfold checkPerm at h
  simp only [stat_file hnode] at h
  split_ifs at h
  cases h
  rfl

lemma checkedOpen_denied (h : v.checkPerm euid ino 4 = .error e) : v.checkedOpen euid ino false = .error e := by
  unfold checkedOpen
  simp only [Bool.false_eq_true, if_false, h]

/-- Through the cache a refusal is no error. -/
theorem readFile_denied (hlookup : v.tree.lookup path = .ok ino) (hnode : v.tree.nodes ino = some (.file data owner))
    (hsize : 0 < data.length ∧ data.length ≤ cachedSize) (h : v.checkPerm euid ino 4 = .error e) :
    ∃ bytes, v.readFile euid path = some (.ok bytes, v) := by
  have hload : ∀ off, v.loader euid ino off = some [] := by
    intro off
    unfold loader
    rw [checkedOpen_denied h]
  obtain ⟨bytes, hbytes⟩ : ∃ bytes, v.pages.readBytes ino (v.loader euid ino) 0 data.length = some (bytes, v.pages) :=
    readBytes_unloaded hload data.length
  unfold readFile
  rw [hlookup]
  simp only [stat_file hnode, if_pos hsize, hbytes]
  exact ⟨bytes, rfl⟩

lemma readFile_refused (hlookup : v.tree.lookup path = .ok ino) (hnode : v.tree.nodes ino = some (.file data owner))
    (hsize : cachedSize < data.length) (h : v.checkPerm euid ino 4 = .error e) : v.readFile euid path = some (.error e, v) := by
  unfold readFile
  rw [hlookup]
  simp only [stat_file hnode, checkedOpen_denied h]
  exact if_neg (fun hs => not_lt.mpr hs.2 hsize)

lemma guarded_iff (v : RamVfs) (ev : FileEvent) : v.Guarded ev ↔ v.Permitted ev := by
  cases ev with
  | read euid path =>
    constructor
    · intro hg ino data owner hlookup hnode hpos hle
      cases hperm : v.checkPerm euid ino 4 with
      | ok => rfl
      | error e =>
        obtain ⟨bytes, hread⟩ := readFile_denied hlookup hnode ⟨hpos, hle⟩ hperm
        obtain hok | herr := hg ino data owner hlookup hnode (List.length_pos_iff.mp hpos)
        · exact hperm.symm.trans hok
        · rw [hread] at herr
          cases herr
    · intro hp ino data owner hlookup hnode hne
      cases hperm : v.checkPerm euid ino 4 with
      | ok => exact .inl rfl
      | error e =>
        by_cases hle : data.length ≤ cachedSize
        · exact .inl (hperm.symm.trans (hp ino data owner hlookup hnode (List.length_pos_iff.mpr hne) hle))
        · rw [readFile_refused hlookup hnode (Nat.lt_of_not_le hle) hperm, checkPerm_file hnode hperm]
          exact .inr rfl
  | write | setMode | setOwner | switchUser => exact Iff.rfl

/-- The permissions are enforced throughout a history exactly if nobody reads a file through the cache whom they
forbid to. -/
theorem run_guarded_iff {tr : List (RamVfs × FileEvent)} (hrun : Run Step v₀ tr v) :
    (∀ x ∈ tr, x.1.Guarded x.2) ↔ ∀ x ∈ tr, x.1.Permitted x.2 :=
  hrun.forall_iff_of (I := fun _ => True) trivial (fun _ _ _ _ _ _ => trivial) (fun w ev _ _ _ => w.guarded_iff ev)

def oneFileRead : RamVfs :=
  { oneFile with
    pages := oneFile.pages.insertFrame (show oneFile.pages.cache.entries.get (cacheKey 2 0) = none from rfl)
      (CachedPages.filled [1]) }

lemma readFile_oneFile : oneFile.readFile none ['/', 'a'] = some (.ok [1], oneFileRead) := by
  have hread : oneFile.pages.readBytes 2 (oneFile.loader none 2) 0 1 = some ([1], oneFileRead.pages) := by
    rw [readBytes, if_neg one_ne_zero]
    change Option.map _ (oneFileRead.pages.readBytes 2 _ 1 0) = _
    rw [readBytes_zero]
    rfl
  change Option.map _ (oneFile.pages.readBytes 2 (oneFile.loader none 2) 0 1) = _
  rw [hread]
  rfl

lemma step_oneFile : Step oneFile (.read none ['/', 'a']) oneFileRead := congrArg (Option.map Prod.snd) readFile_oneFile

theorem run_guarded_iff_owner : ∃ tr v, Run Step oneFile tr v ∧ ((∀ x ∈ tr, x.1.Guarded x.2) ↔ ∀ x ∈ tr, x.1.Permitted x.2) :=
  ⟨_, _, Run.nil.snoc step_oneFile, run_guarded_iff (Run.nil.snoc step_oneFile)⟩

/-- The user 0 has read the file; then a user logs in who may not read it. -/
theorem cached_page_read_by_others : ∃ tr v v', Run Step oneFile tr v ∧ v.tree.lookup ['/', 'a'] = .ok 2 ∧
      v.checkPerm none 2 4 = .error .permissionDenied ∧ v.readFile none ['/', 'a'] = some (.ok [1], v') := by
  let v : RamVfs := { oneFileRead with session := (oneFileRead.session.switchUser "nodeai").2 }
  have hswitch : Step oneFileRead (.switchUser "nodeai") v := rfl
  have hdenied : v.checkPerm none 2 4 = .error .permissionDenied := by
    have hbits : (v.permBits 1000 ⟨2, 1, false, 1, 0, 0, 0o600⟩).toUInt8 &&& 4 ≠ 4 := by decide
    exact if_neg hbits
  have hbytes : v.pages.readBytes 2 (v.loader none 2) 0 1 = some ([1], v.pages) := by
    rw [readBytes, if_neg one_ne_zero]
    change Option.map _ (v.pages.readBytes 2 _ 1 0) = _
    rw [readBytes_zero]
    rfl
  have hread : v.readFile none ['/', 'a'] = some (.ok [1], v) := by
    change Option.map _ (v.pages.readBytes 2 (v.loader none 2) 0 1) = _
    rw [hbytes]
    rfl
  exact ⟨_, v, v, (Run.nil.snoc step_oneFile).snoc hswitch, rfl, hdenied, hread⟩

end RamVfs

/-! ## Two permission checks -/

open Nat

namespace UserDb

def userInGroup (db : UserDb) (uid : UInt32) (gid : ℕ) : Bool :=
  match db.getUser uid with
  | some user =>
    user.gid.toNat == gid || db.groups.any (fun g => g.gid.toNat == gid && g.members.contains user.username)
  | none => false

/-- The group lists the user, and is not the primary one. -/
def Supplementary (db : UserDb) (uid : UInt32) (gid : ℕ) : Prop :=
  ∃ user, db.getUser uid = some user ∧ user.gid.toNat ≠ gid ∧ ∃ g ∈ db.groups, g.gid.toNat = gid ∧ user.username ∈ g.members

/-- There is no such user, and the group is the one that `check_perm` then takes. -/
def Unknown (db : UserDb) (uid : UInt32) (gid : ℕ) : Prop := db.getUser uid = none ∧ gid = 2 ^ 32 - 1

lemma userInGroup_iff (db : UserDb) (uid : UInt32) (gid : ℕ) :
    (((db.getUser uid).elim 0xffffffff User.gid).toNat = gid ↔ db.userInGroup uid gid = true) ↔
      ¬ (db.Supplementary uid gid ∨ db.Unknown uid gid) := by
  unfold userInGroup Supplementary Unknown
  cases db.getUser uid with
  | none =>
    have hmax : (0xffffffff : UInt32).toNat = 2 ^ 32 - 1 := rfl
    simp [hmax, eq_comm]
  | some user =>
    by_cases hprimary : user.gid.toNat = gid
    · simp [hprimary]
    · simp [hprimary]

end UserDb

namespace UserSession

/-- The three checks of the user tables, with the bits of the owner, the group and the others. -/
def can (owner group other : UInt16) (s : UserSession) (euid : Option UInt32) (fileUid fileGid : ℕ) (mode : UInt16) : Bool :=
  if s.isRoot euid then true
  else if (s.uid euid).toNat = fileUid then mode &&& owner != 0
  else if s.db.userInGroup (s.uid euid) fileGid then mode &&& group != 0
  else mode &&& other != 0

def canRead : UserSession → Option UInt32 → ℕ → ℕ → UInt16 → Bool := can 0o400 0o040 0o004
def canWrite : UserSession → Option UInt32 → ℕ → ℕ → UInt16 → Bool := can 0o200 0o020 0o002
def canExec : UserSession → Option UInt32 → ℕ → ℕ → UInt16 → Bool := can 0o100 0o010 0o001

/-- The user is root or the owner, or both checks take the same class of the mode, or the two classes have the same bit. -/
def SameBits (group other : UInt16) (s : UserSession) (euid : Option UInt32) (st : Stat) : Prop :=
  s.uid euid = 0 ∨ (s.uid euid).toNat = st.uid ∨
    ¬ (s.db.Supplementary (s.uid euid) st.gid ∨ s.db.Unknown (s.uid euid) st.gid) ∨
    (st.mode &&& group ≠ 0 ↔ st.mode &&& other ≠ 0)

end UserSession

lemma classBit_iff (mode shift : UInt16) {mask : UInt16} {want : UInt8} {i : ℕ} (hi : i < 3) (hshift : shift.toNat < 16)
    (hwant : want.toNat = 2 ^ i) (hmask : mask.toNat = 2 ^ (shift.toNat + i)) :
    (mode >>> shift &&& 0o7).toUInt8 &&& want = want ↔ mode &&& mask ≠ 0 := by
  have hseven : testBit 7 i = true := by
    rw [show 7 = 2 ^ 3 - 1 from rfl, testBit_two_pow_sub_one]
    exact decide_eq_true hi
  have hbyte : testBit ((mode >>> shift &&& 0o7).toNat % 2 ^ 8) i = mode.toNat.testBit (shift.toNat + i) := by
    rw [testBit_mod_two_pow, UInt16.toNat_and, testBit_and, UInt16.toNat_shiftRight, mod_eq_of_lt hshift,
      testBit_shiftRight, show (0o7 : UInt16).toNat = 7 from rfl, hseven, decide_eq_true (by omega)]
    simp
  rw [← UInt8.toNat_inj, Ne, ← UInt16.toNat_inj, UInt8.toNat_and, UInt16.toNat_and, UInt16.toNat_toUInt8, hwant, hmask,
    and_two_pow, and_two_pow, hbyte]
  have hpos : 2 ^ i ≠ 0 := (Nat.two_pow_pos i).ne'
  cases mode.toNat.testBit (shift.toNat + i) with
  | true => simp
  | false => simpa using hpos.symm

namespace RamVfs

lemma checkPerm_can_iff (v : RamVfs) (euid : Option UInt32) {ino : ℕ} {st : Stat} (hst : v.stat ino = .ok st)
    {want : UInt8} {owner group other : UInt16} {i : ℕ} (hi : i < 3) (hwant : want.toNat = 2 ^ i)
    (howner : owner.toNat = 2 ^ (6 + i)) (hgroup : group.toNat = 2 ^ (3 + i)) (hother : other.toNat = 2 ^ (0 + i)) :
    (v.checkPerm euid ino want = .ok () ↔ v.session.can owner group other euid st.uid st.gid st.mode = true) ↔
      v.session.SameBits group other euid st := by
  have hown₆ := classBit_iff st.mode 6 hi (by decide) hwant howner
  have hgrp₃ := classBit_iff st.mode 3 hi (by decide) hwant hgroup
  have hoth₀ := classBit_iff st.mode 0 hi (by decide) hwant hother
  rw [UInt16.shiftRight_zero] at hoth₀
  unfold checkPerm UserSession.can UserSession.SameBits UserSession.isRoot permBits
  rw [hst, ← v.session.db.userInGroup_iff (v.session.uid euid) st.gid]
  by_cases hroot : v.session.uid euid = 0
  · simp [hroot]
  · by_cases hown : (v.session.uid euid).toNat = st.uid
    · simp only [hroot, hown, if_true, if_false, hown₆]
      simp [hroot]
    · simp only [hroot, hown, if_false, beq_iff_eq, false_or]
      split_ifs with hprimary hmember hmember <;> simp_all

/-- The two checks agree on reading, writing and executing exactly if they take the same class of bits, or classes with
the same bit. -/
theorem checkPerm_agrees_iff (v : RamVfs) (euid : Option UInt32) {ino : ℕ} {st : Stat} (hst : v.stat ino = .ok st) :
    ((v.checkPerm euid ino 4 = .ok () ↔ v.session.canRead euid st.uid st.gid st.mode = true) ↔
      v.session.SameBits 0o040 0o004 euid st) ∧
    ((v.checkPerm euid ino 2 = .ok () ↔ v.session.canWrite euid st.uid st.gid st.mode = true) ↔
      v.session.SameBits 0o020 0o002 euid st) ∧
    ((v.checkPerm euid ino 1 = .ok () ↔ v.session.canExec euid st.uid st.gid st.mode = true) ↔
      v.session.SameBits 0o010 0o001 euid st) :=
  ⟨checkPerm_can_iff v euid hst (i := 2) (by decide) rfl rfl rfl rfl, checkPerm_can_iff v euid hst (i := 1) (by decide) rfl rfl rfl rfl,
    checkPerm_can_iff v euid hst (i := 0) (by decide) rfl rfl rfl rfl⟩

/-- A file of root that the members of the group `sudo` may read, and the user `nodeai`, who is one. -/
def groupFile : RamVfs where
  tree := ⟨fun ino => if ino = 1 then some (.file [] ⟨0, 27, 0o640⟩) else none, 2, [], fun _ h => if_neg (Nat.ne_of_gt h)⟩
  ramfs ino n h := by
    obtain ⟨-, hn⟩ := Option.ite_none_right_eq_some.mp h
    cases hn
    rfl
  pages := oneFile.pages
  session := ⟨UserDb.init, 1000, "/", 0⟩
  umask := 0o022

theorem group_member_refused : groupFile.stat 1 = .ok ⟨1, 0, false, 1, 0, 27, 0o640⟩ ∧
    groupFile.checkPerm none 1 4 = .error .permissionDenied ∧ groupFile.session.canRead none 0 27 0o640 = true :=
  ⟨rfl, rfl, rfl⟩

theorem checkPerm_agrees_iff_groupFile : ((groupFile.checkPerm none 1 2 = .ok () ↔
    groupFile.session.canWrite none 0 27 0o640 = true) ↔ groupFile.session.SameBits 0o020 0o002 none ⟨1, 0, false, 1, 0, 27, 0o640⟩) :=
  (checkPerm_agrees_iff groupFile none (show groupFile.stat 1 = .ok _ from rfl)).2.1

end RamVfs

end NodeKernel
