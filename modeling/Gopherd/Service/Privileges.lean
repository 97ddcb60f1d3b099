import Gopherd.Service.Credential

/-!
Which ids `resolveCredential` gives a process. The range that
`validateNumericID` accepts still has the number that is not an id: on Linux
`setuid` and `setgid` refuse it, and the start fails.
-/

namespace Gopherd

open Go

/-- `(uid_t)-1`, the one number that stands for no id. -/
def noId : UInt32 := 4294967295

def entryId (text : String) : Option Int :=
  (parseUint 10 32 text).map Int.ofNat

/-- The user that the settings name; without one it is the running user. -/
def namedUid (db : UserDatabase) (userName : String) (userID : Option Int) : Option Int :=
  match userID with
  | some id => some id
  | none =>
    if userName = "" then some db.getuid.toNat
    else (db.lookup userName).bind fun entry => entryId entry.uid

def userEntry (db : UserDatabase) (userName : String) (userID : Option Int) :
    Option UserEntry :=
  match userID with
  | some id => db.lookupId id
  | none => if userName = "" then none else db.lookup userName

/-- The group that the settings name; without one it is the primary group of the
configured user. -/
def namedGid (db : UserDatabase) (userName groupName : String)
    (userID groupID : Option Int) : Option Int :=
  match groupID with
  | some id => some id
  | none =>
    if groupName = "" then (userEntry db userName userID).bind fun entry => entryId entry.gid
    else (db.lookupGroup groupName).bind entryId

structure Dropped (db : UserDatabase) (userName groupName : String)
    (userID groupID : Option Int) (strictGroups : Bool) (credential : Credential) : Prop where
  uid : namedUid db userName userID = some (credential.uid.toNat : Int)
  gid : namedGid db userName groupName userID groupID = some (credential.gid.toNat : Int)
  uid_changes : credential.uid ≠ noId
  gid_changes : credential.gid ≠ noId
  alone : (userID = none ∧ userName = "") ∨
    (strictGroups = true ∧ (groupID ≠ none ∨ groupName ≠ "")) →
      credential.groups = [credential.gid]

theorem validateNumericID_eq_ok {id : Int} (h : validateNumericID field (some id) = .ok ()) :
    ((UInt32.ofNat id.toNat).toNat : Int) = id := by
  simp only [validateNumericID] at h
  split_ifs at h with hrange
  rw [UInt32.toNat_ofNat']
  omega

theorem parseUint_lt {id : Nat} (h : parseUint 10 32 text = some id) : id < 2 ^ 32 := by
  simp only [parseUint] at h
  split_ifs at h with hread
  cases h
  exact hread.2.2

theorem parseId_eq_ok {text : String} {id : UInt32} (h : parseId error text = .ok id) :
    entryId text = some (id.toNat : Int) := by
  unfold parseId at h
  cases hparse : parseUint 10 32 text with
  | none => rw [hparse] at h; cases h
  | some number =>
    rw [hparse] at h
    cases h
    have hnumber := parseUint_lt hparse
    rw [entryId, hparse, UInt32.toNat_ofNat', Nat.mod_eq_of_lt hnumber]
    rfl

/-- The user that `resolveUser` finds is the named one, and so is its primary
group unless a group is given. -/
theorem resolveUser_named {userID : Option Int}
    (hrange : validateNumericID "user-id" userID = .ok ())
    (h : resolveUser db userName userID explicitGroup = .ok user) :
    (userID = none ∧ userName = "" ∧ user.uid = none ∧ user.gid = none) ∨
      ((userID ≠ none ∨ userName ≠ "") ∧
        ∃ uid, user.uid = some uid ∧ namedUid db userName userID = some (uid.toNat : Int) ∧
          (explicitGroup = false → ∃ gid, user.gid = some gid ∧
            namedGid db userName "" userID none = some (gid.toNat : Int))) := by
  cases userID with
  | some id =>
    right
    have hid := validateNumericID_eq_ok hrange
    refine ⟨.inl (by simp), ?_⟩
    cases explicitGroup with
    | true =>
      cases h
      exact ⟨_, rfl, by rw [namedUid, hid], by simp⟩
    | false =>
      simp only [resolveUser, Bool.false_eq_true, if_false] at h
      cases hentry : db.lookupId id with
      | none => rw [hentry] at h; cases h
      | some entry =>
        rw [hentry] at h
        obtain ⟨gid, hgid, hpure⟩ := Except.bind_eq_ok.mp h
        cases hpure
        refine ⟨_, rfl, by rw [namedUid, hid], fun _ => ⟨gid, rfl, ?_⟩⟩
        simp [namedGid, userEntry, hentry, parseId_eq_ok hgid]
  | none =>
    by_cases hname : userName = ""
    · left
      rw [resolveUser, if_pos hname] at h
      cases h
      exact ⟨rfl, hname, rfl, rfl⟩
    · right
      refine ⟨.inr hname, ?_⟩
      rw [resolveUser, if_neg hname] at h
      cases hentry : db.lookup userName with
      | none => rw [hentry] at h; cases h
      | some entry =>
        rw [hentry] at h
        obtain ⟨uid, huid, h⟩ := Except.bind_eq_ok.mp h
        have hnamed : namedUid db userName none = some (uid.toNat : Int) := by
          simp [namedUid, hname, hentry, parseId_eq_ok huid]
        cases explicitGroup with
        | true =>
          cases h
          exact ⟨uid, rfl, hnamed, by simp⟩
        | false =>
          obtain ⟨gid, hgid, hpure⟩ := Except.bind_eq_ok.mp h
          cases hpure
          refine ⟨uid, rfl, hnamed, fun _ => ⟨gid, rfl, ?_⟩⟩
          simp [namedGid, userEntry, hname, hentry, parseId_eq_ok hgid]

/-- The group that `resolveGroup` finds is the named one, or the one that came with
the user. -/
theorem resolveGroup_named (userName : String) (userID : Option Int)
    (hrange : validateNumericID "group-id" groupID = .ok ())
    (h : resolveGroup db groupName groupID primary = .ok group) :
    (groupID = none ∧ groupName = "" ∧ group = primary) ∨
      ((groupID ≠ none ∨ groupName ≠ "") ∧ ∃ gid, group = some gid ∧
        namedGid db userName groupName userID groupID = some (gid.toNat : Int)) := by
  cases groupID with
  | some id =>
    right
    cases h
    refine ⟨.inl (by simp), _, rfl, ?_⟩
    rw [namedGid, validateNumericID_eq_ok hrange]
  | none =>
    by_cases hname : groupName = ""
    · left
      rw [resolveGroup, if_pos hname] at h
      cases h
      exact ⟨rfl, hname, rfl⟩
    · right
      rw [resolveGroup, if_neg hname] at h
      cases hentry : db.lookupGroup groupName with
      | none => rw [hentry] at h; cases h
      | some text =>
        rw [hentry] at h
        obtain ⟨gid, hgid, hpure⟩ := Except.bind_eq_ok.mp h
        cases hpure
        refine ⟨.inr hname, gid, rfl, ?_⟩
        simp [namedGid, hname, hentry, parseId_eq_ok hgid]

/-- Whatever the settings, the ids of the credential are the named ones, and the
groups are those of the user only if the settings leave them to it. -/
theorem resolveCredential_named
    (h : resolveCredential db userName groupName userID groupID strictGroups = .ok result)
    (hset : userID ≠ none ∨ userName ≠ "" ∨ groupID ≠ none ∨ groupName ≠ "") :
    ∃ credential, result = some credential ∧
      namedUid db userName userID = some (credential.uid.toNat : Int) ∧
      namedGid db userName groupName userID groupID = some (credential.gid.toNat : Int) ∧
      ((userID = none ∧ userName = "") ∨
        (strictGroups = true ∧ (groupID ≠ none ∨ groupName ≠ "")) →
          credential.groups = [credential.gid]) := by
  unfold resolveCredential at h
  obtain ⟨⟨⟩, huser, h⟩ := Except.bind_eq_ok.mp h
  obtain ⟨⟨⟩, hgroup, h⟩ := Except.bind_eq_ok.mp h
  obtain ⟨user, hresolved, h⟩ := Except.bind_eq_ok.mp h
  obtain ⟨group, hfound, h⟩ := Except.bind_eq_ok.mp h
  have hgroups := resolveGroup_named userName userID hgroup hfound
  rcases resolveUser_named huser hresolved with
    ⟨rfl, rfl, huid, hgid⟩ | ⟨hnamed, uid, huid, hnamedUid, hprimary⟩
  · rcases hgroups with ⟨rfl, rfl, -⟩ | ⟨-, gid, rfl, hnamedGid⟩
    · simp at hset
    · rw [huid] at h
      cases h
      exact ⟨_, rfl, by simp [namedUid], hnamedGid, fun _ => rfl⟩
  · have halone : ¬ (userID = none ∧ userName = "") := by
      rintro ⟨hid, hname⟩
      exact hnamed.elim (absurd hid) (absurd hname)
    rw [huid] at h
    rcases hgroups with ⟨rfl, rfl, rfl⟩ | ⟨hexplicit, gid, rfl, hnamedGid⟩
    · obtain ⟨gid, hgid, hnamedGid⟩ := hprimary (by simp)
      rw [hgid] at h
      cases h
      refine ⟨_, rfl, hnamedUid, hnamedGid, ?_⟩
      rintro (hnone | ⟨-, hexplicit⟩)
      · exact absurd hnone halone
      · simp at hexplicit
    · cases h
      refine ⟨_, rfl, hnamedUid, hnamedGid, ?_⟩
      rintro (hnone | ⟨hstrict, -⟩)
      · exact absurd hnone halone
      · have hgiven : (groupID.isSome || decide (groupName ≠ "")) = true := by
          simpa [Option.isSome_iff_ne_none] using hexplicit
        rw [hstrict, hgiven]
        rfl

/-- A process runs as exactly the named user and group, unless the number that means
"do not change" is named: `validateNumericID` lets it pass. -/
theorem privileges_dropped_iff {db : UserDatabase} {userName groupName : String}
    {userID groupID : Option Int} {strictGroups : Bool} {result : Option Credential}
    (h : resolveCredential db userName groupName userID groupID strictGroups = .ok result)
    (hset : userID ≠ none ∨ userName ≠ "" ∨ groupID ≠ none ∨ groupName ≠ "") :
    (∃ credential, result = some credential ∧
        Dropped db userName groupName userID groupID strictGroups credential) ↔
      namedUid db userName userID ≠ some 4294967295 ∧
        namedGid db userName groupName userID groupID ≠ some 4294967295 := by
  obtain ⟨credential, rfl, huid, hgid, halone⟩ := resolveCredential_named h hset
  have hkeep (id : UInt32) : some (id.toNat : Int) ≠ some 4294967295 ↔ id ≠ noId := by
    rw [Ne, Option.some_inj, Ne, ← UInt32.toNat_inj]
    exact not_congr Int.natCast_inj
  rw [huid, hgid, hkeep, hkeep]
  constructor
  · rintro ⟨_, ⟨⟩, hdropped⟩
    exact ⟨hdropped.uid_changes, hdropped.gid_changes⟩
  · rintro ⟨huser, hgroup⟩
    exact ⟨credential, rfl, huid, hgid, huser, hgroup, halone⟩

/-- A host whose user database has one user and one group. -/
def smallHost : UserDatabase where
  lookup name := if name = "web" then some ⟨"1000", "1000", some ["1000", "999"]⟩ else none
  lookupId id := if id = 1000 then some ⟨"1000", "1000", some ["1000", "999"]⟩ else none
  lookupGroup name := if name = "docker" then some "999" else none
  getuid := 0

theorem privileges_dropped_web :
    Dropped smallHost "web" "docker" none none true ⟨1000, 999, [999]⟩ := by
  have h : resolveCredential smallHost "web" "docker" none none true =
      .ok (some ⟨1000, 999, [999]⟩) := by decide +kernel
  have hnamed : namedUid smallHost "web" none ≠ some 4294967295 ∧
      namedGid smallHost "web" "docker" none none ≠ some 4294967295 := by decide +kernel
  obtain ⟨_, ⟨⟩, hdropped⟩ := (privileges_dropped_iff h (by simp)).mpr hnamed
  exact hdropped

/-- The settings name the number that stands for no user, and it gets through. -/
theorem all_ones_user_accepted :
    resolveCredential smallHost "" "" (some 4294967295) (some 1000) true =
        .ok (some ⟨noId, 1000, [1000]⟩) ∧
      ¬ Dropped smallHost "" "" (some 4294967295) (some 1000) true ⟨noId, 1000, [1000]⟩ :=
  ⟨by decide +kernel, fun hdropped => hdropped.uid_changes rfl⟩

end Gopherd
