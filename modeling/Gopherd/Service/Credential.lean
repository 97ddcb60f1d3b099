import Gopherd.Go.Strings
import Gopherd.Lib.Except

/-!
`service.ResolveCredential`: the user and the groups that a process is started
with. The user database of the host is data; its entries hold the numbers as
texts, as `os/user` returns them.
-/

namespace Gopherd

open Go

structure UserEntry where
  uid : String
  gid : String
  groupIds : Option (List String)
  deriving DecidableEq

structure UserDatabase where
  lookup : String → Option UserEntry
  lookupId : Int → Option UserEntry
  lookupGroup : String → Option String
  getuid : UInt32

structure Credential where
  uid : UInt32
  gid : UInt32
  groups : List UInt32
  deriving DecidableEq

inductive CredentialError where
  | outOfRange (field : String) (id : Int)
  | unknownUserId (id : Int)
  | unknownUser (name : String)
  | unknownGroup (name : String)
  | parseUid (name : String)
  | parseGid (name : String)
  deriving DecidableEq

def validateNumericID (field : String) (id : Option Int) : Except CredentialError Unit :=
  match id with
  | none => .ok ()
  | some id => if id < 0 ∨ 4294967295 < id then .error (.outOfRange field id) else .ok ()

def parseId (error : CredentialError) (text : String) : Except CredentialError UInt32 :=
  match parseUint 10 32 text with
  | some id => .ok (UInt32.ofNat id)
  | none => .error error

/-- The supplementary groups; one that is not a number is left out. -/
def UserEntry.groups (entry : UserEntry) : List UInt32 :=
  (entry.groupIds.getD []).filterMap fun text => (parseUint 10 32 text).map UInt32.ofNat

structure ResolvedUser where
  uid : Option UInt32
  gid : Option UInt32
  groups : List UInt32

def resolveUser (db : UserDatabase) (userName : String) (userID : Option Int)
    (explicitGroup : Bool) : Except CredentialError ResolvedUser :=
  match userID with
  | some id =>
    if explicitGroup then .ok ⟨some (UInt32.ofNat id.toNat), none, []⟩
    else
      match db.lookupId id with
      | none => .error (.unknownUserId id)
      | some entry => do
          let gid ← parseId (.parseGid (toString id)) entry.gid
          pure ⟨some (UInt32.ofNat id.toNat), some gid, entry.groups⟩
  | none =>
    if userName = "" then .ok ⟨none, none, []⟩
    else
      match db.lookup userName with
      | none => .error (.unknownUser userName)
      | some entry => do
          let uid ← parseId (.parseUid userName) entry.uid
          if explicitGroup then pure ⟨some uid, none, entry.groups⟩
          else do
            let gid ← parseId (.parseGid userName) entry.gid
            pure ⟨some uid, some gid, entry.groups⟩

/-- The given group, or else the one that came with the user. -/
def resolveGroup (db : UserDatabase) (groupName : String) (groupID : Option Int)
    (primary : Option UInt32) : Except CredentialError (Option UInt32) :=
  match groupID with
  | some id => .ok (some (UInt32.ofNat id.toNat))
  | none =>
    if groupName = "" then .ok primary
    else
      match db.lookupGroup groupName with
      | none => .error (.unknownGroup groupName)
      | some text => do
          let gid ← parseId (.parseGid groupName) text
          pure (some gid)

def resolveCredential (db : UserDatabase) (userName groupName : String)
    (userID groupID : Option Int) (strictGroups : Bool) :
    Except CredentialError (Option Credential) := do
  validateNumericID "user-id" userID
  validateNumericID "group-id" groupID
  let explicitGroup := groupID.isSome || groupName ≠ ""
  let user ← resolveUser db userName userID explicitGroup
  let group ← resolveGroup db groupName groupID user.gid
  match user.uid, group with
  | none, none => pure none
  | none, some gid => pure (some ⟨db.getuid, gid, [gid]⟩)
  | some uid, group =>
    let gid := group.getD 0
    pure (some ⟨uid, gid, if strictGroups && explicitGroup then [gid] else user.groups⟩)

end Gopherd
