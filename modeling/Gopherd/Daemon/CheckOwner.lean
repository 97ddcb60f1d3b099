import Gopherd.Service.Check
import Gopherd.Service.Credential
import Gopherd.Service.Service

/-!
The user that an exec check runs as.
-/

namespace Gopherd.Daemon

open Go

structure Visit where
  svc : Service
  failureChecks : List String

def Visit.claimReady (owners : GoMap String Service) (visit : Visit) : GoMap String Service :=
  if visit.svc.proc.readyCheck ≠ "" then owners.insert visit.svc.proc.readyCheck visit.svc
  else owners

def Visit.claimFailure (visit : Visit) (owners : GoMap String Service) (check : String) :
    GoMap String Service :=
  if (owners.lookup check).isSome then owners else owners.insert check visit.svc

def Visit.claim (owners : GoMap String Service) (visit : Visit) : GoMap String Service :=
  visit.failureChecks.foldl visit.claimFailure (visit.claimReady owners)

def checkOwners (visits : List Visit) : GoMap String Service :=
  visits.foldl Visit.claim ∅

structure Iteration (services : GoMap String Service) where
  visits : List Visit
  services_perm : (visits.map Visit.svc).Perm (services.entries.map Prod.snd)
  failures_perm : ∀ visit ∈ visits, visit.failureChecks.Perm visit.svc.onCheckFailure.keys

structure Host where
  users : UserDatabase
  path : Option String

structure Identity where
  credential : Option Credential := none
  env : Option (List String) := none
  deriving DecidableEq

def runCheckAsOwner (host : Host) (svc : Service) : Except CredentialError Identity := do
  match ← resolveCredential host.users svc.proc.user svc.proc.group svc.proc.userID
      svc.proc.groupID svc.proc.strictGroups with
  | none => pure {}
  | some credential =>
    if svc.proc.passEnv = some true then pure { credential := some credential }
    else pure ⟨some credential, some (host.path.toList.map ("PATH=" ++ ·))⟩

structure StartedCheck where
  checker : Checker
  identity : Identity
  deriving DecidableEq

/-- What `startChecks` does with one check; one that `check.New` refuses is left
out, and a credential that cannot be resolved is only logged. -/
def startCheck (host : Host) (owners : GoMap String Service) (name : String)
    (cfg : CheckConfig) : Option StartedCheck :=
  match Checker.new name cfg with
  | .error _ => none
  | .ok checker =>
    match owners.lookup name with
    | none => some ⟨checker, {}⟩
    | some svc =>
      if cfg.exec.isSome then
        match runCheckAsOwner host svc with
        | .ok identity => some ⟨checker, identity⟩
        | .error _ => some ⟨checker, {}⟩
      else some ⟨checker, {}⟩

/-- `startChecks`, with the checks in the order in which their map is iterated. -/
def startChecks (host : Host) (visits : List Visit) (checks : List (String × CheckConfig)) :
    List StartedCheck :=
  checks.filterMap fun entry => startCheck host (checkOwners visits) entry.1 entry.2

def readies (check : String) (svc : Service) : Bool :=
  svc.proc.readyCheck ≠ "" ∧ svc.proc.readyCheck = check

def handlesFailure (check : String) (svc : Service) : Bool :=
  check ∈ svc.onCheckFailure.keys

theorem claimReady_lookup (owners : GoMap String Service) (visit : Visit) (check : String) :
    (visit.claimReady owners).lookup check =
      (if readies check visit.svc then some visit.svc else none).or (owners.lookup check) := by
  unfold Visit.claimReady readies
  by_cases hset : visit.svc.proc.readyCheck = ""
  · simp [hset]
  · by_cases hcheck : visit.svc.proc.readyCheck = check
    · simp [GoMap.lookup_insert, hset, ← hcheck]
    · simp [GoMap.lookup_insert, hset, hcheck, Ne.symm hcheck]

theorem claimFailures_lookup (visit : Visit) (checks : List String)
    (owners : GoMap String Service) (check : String) :
    (checks.foldl visit.claimFailure owners).lookup check =
      (owners.lookup check).or (if check ∈ checks then some visit.svc else none) := by
  induction checks generalizing owners with
  | nil => simp
  | cons first checks ih =>
    have hclaim : (visit.claimFailure owners first).lookup check =
        (owners.lookup check).or (if check = first then some visit.svc else none) := by
      unfold Visit.claimFailure
      by_cases heq : check = first
      · subst heq
        cases howner : owners.lookup check <;> simp [GoMap.lookup_insert, howner]
      · split <;> simp [GoMap.lookup_insert, heq]
    rw [List.foldl_cons, ih, hclaim, Option.or_assoc]
    by_cases heq : check = first <;> simp [heq]

/-- What one visit does to a check. -/
theorem claim_lookup (owners : GoMap String Service) (visit : Visit) (check : String) :
    (visit.claim owners).lookup check =
      ((if readies check visit.svc then some visit.svc else none).or (owners.lookup check)).or
        (if check ∈ visit.failureChecks then some visit.svc else none) := by
  rw [Visit.claim, claimFailures_lookup, claimReady_lookup]

/-- The last service with the ready-check, or else the first that handles a
failure. -/
theorem foldl_claim_lookup (visits : List Visit) (owners : GoMap String Service)
    (check : String) (hfailures : ∀ visit ∈ visits,
      visit.failureChecks.Perm visit.svc.onCheckFailure.keys) :
    (visits.foldl Visit.claim owners).lookup check =
      (((visits.map Visit.svc).filter (readies check)).getLast?.or (owners.lookup check)).or
        ((visits.map Visit.svc).filter (handlesFailure check)).head? := by
  induction visits generalizing owners with
  | nil => simp
  | cons visit visits ih =>
    rw [List.forall_mem_cons] at hfailures
    have hhandles : (if check ∈ visit.failureChecks then some visit.svc else none) =
        if handlesFailure check visit.svc then some visit.svc else none := by
      simp only [handlesFailure, hfailures.1.mem_iff, decide_eq_true_eq]
    rw [List.foldl_cons, ih _ hfailures.2, claim_lookup, hhandles, List.map_cons,
      Perm.getLast?_filter_cons, Perm.head?_filter_cons]
    simp only [Option.or_assoc]

def candidates (services : List Service) (check : String) : List Service :=
  if services.filter (readies check) ≠ [] then services.filter (readies check)
  else services.filter (handlesFailure check)

variable {services : GoMap String Service}

theorem Iteration.lookup (order : Iteration services) (check : String) :
    (checkOwners order.visits).lookup check =
      ((order.visits.map Visit.svc).filter (readies check)).getLast?.or
        ((order.visits.map Visit.svc).filter (handlesFailure check)).head? := by
  rw [checkOwners, foldl_claim_lookup _ _ _ order.failures_perm]
  simp

def visitAll (services : List Service) : List Visit :=
  services.map fun svc => ⟨svc, svc.onCheckFailure.keys⟩

def Iteration.ofPerm {order : List Service} (hperm : order.Perm (services.entries.map Prod.snd)) :
    Iteration services where
  visits := visitAll order
  services_perm := by simpa [visitAll, Function.comp_def] using hperm
  failures_perm := by
    intro visit hvisit
    obtain ⟨svc, -, rfl⟩ := List.mem_map.mp hvisit
    exact List.Perm.refl _

/-- Every candidate owns the check in some order. -/
theorem exists_owner (h : svc ∈ candidates (services.entries.map Prod.snd) check) :
    ∃ order : Iteration services, (checkOwners order.visits).lookup check = some svc := by
  unfold candidates at h
  split at h
  · -- Visited last, a service with the ready-check takes over.
    obtain ⟨hmem, hready⟩ := List.mem_filter.mp h
    obtain ⟨rest, hperm⟩ := Perm.exists_concat hmem
    refine ⟨Iteration.ofPerm hperm, ?_⟩
    rw [Iteration.lookup]
    simp [Iteration.ofPerm, visitAll, Function.comp_def, hready]
  · -- Visited first, a service that handles the failure is not replaced.
    rename_i hnone
    obtain ⟨hmem, hhandles⟩ := List.mem_filter.mp h
    obtain ⟨rest, hperm⟩ := Perm.exists_cons hmem
    refine ⟨Iteration.ofPerm hperm, ?_⟩
    have hready : (svc :: rest).filter (readies check) = [] := by
      have hempty := hperm.filter (readies check)
      rw [not_not.mp hnone] at hempty
      exact hempty.eq_nil
    rw [Iteration.lookup]
    simp only [Iteration.ofPerm, visitAll, List.map_map, Function.comp_def, List.map_id', hready,
      List.filter_cons_of_pos hhandles]
    rfl

/-- What all candidates share does not depend on the order. -/
theorem owner_map_eq {α : Type} {f : Service → α}
    (hagree : ∀ a ∈ candidates (services.entries.map Prod.snd) check, ∀ b ∈ candidates
      (services.entries.map Prod.snd) check, f a = f b) (left right : Iteration services) :
    ((checkOwners left.visits).lookup check).map f =
      ((checkOwners right.visits).lookup check).map f := by
  have hready := fun order : Iteration services => order.services_perm.filter (readies check)
  have hhandles := fun order : Iteration services =>
    order.services_perm.filter (handlesFailure check)
  rw [Iteration.lookup, Iteration.lookup]
  by_cases hnone : (services.entries.map Prod.snd).filter (readies check) = []
  · have hcandidates : candidates (services.entries.map Prod.snd) check =
        (services.entries.map Prod.snd).filter (handlesFailure check) :=
      if_neg (not_not.mpr hnone)
    rw [hcandidates] at hagree
    have hempty : ∀ order : Iteration services,
        (order.visits.map Visit.svc).filter (readies check) = [] := by
      intro order
      exact (hnone ▸ hready order).eq_nil
    rw [hempty left, hempty right, List.getLast?_nil, Option.none_or, Option.none_or,
      Perm.head?_map (hhandles left) hagree, Perm.head?_map (hhandles right) hagree]
  · have hcandidates : candidates (services.entries.map Prod.snd) check =
        (services.entries.map Prod.snd).filter (readies check) :=
      if_pos hnone
    rw [hcandidates] at hagree
    have hsome : ∀ order : Iteration services,
        ((order.visits.map Visit.svc).filter (readies check)).getLast?.isSome := by
      intro order
      rw [List.getLast?_isSome]
      intro hempty
      exact hnone (hempty ▸ hready order).symm.eq_nil
    rw [Option.or_of_isSome (hsome left), Option.or_of_isSome (hsome right),
      Perm.getLast?_map (hready left) hagree, Perm.getLast?_map (hready right) hagree]

/-- The credential of a service; one that cannot be resolved leaves the check with
what gopherd has. -/
def ownerCredential (host : Host) (svc : Service) : Option Credential :=
  match resolveCredential host.users svc.proc.user svc.proc.group svc.proc.userID
      svc.proc.groupID svc.proc.strictGroups with
  | .ok credential => credential
  | .error _ => none

/-- Two services resolve to one credential and, if there is one, agree on whether
the environment is passed. -/
def SameAccount (host : Host) (a b : Service) : Prop :=
  ownerCredential host a = ownerCredential host b ∧
    (ownerCredential host a ≠ none →
      (a.proc.passEnv = some true ↔ b.proc.passEnv = some true))

def ownerIdentity (host : Host) (svc : Service) : Identity :=
  match runCheckAsOwner host svc with
  | .ok identity => identity
  | .error _ => {}

theorem ownerIdentity_eq (host : Host) (svc : Service) :
    ownerIdentity host svc =
      match ownerCredential host svc with
      | none => {}
      | some credential =>
        if svc.proc.passEnv = some true then { credential := some credential }
        else ⟨some credential, some (host.path.toList.map ("PATH=" ++ ·))⟩ := by
  unfold ownerIdentity ownerCredential runCheckAsOwner
  cases resolveCredential host.users svc.proc.user svc.proc.group svc.proc.userID
      svc.proc.groupID svc.proc.strictGroups with
  | error error => rfl
  | ok credential =>
    cases credential with
    | none => rfl
    | some credential =>
      by_cases hpass : svc.proc.passEnv = some true <;> simp [bind, Except.bind, hpass] <;> rfl

theorem ownerIdentity_eq_iff (host : Host) (a b : Service) :
    ownerIdentity host a = ownerIdentity host b ↔ SameAccount host a b := by
  rw [ownerIdentity_eq, ownerIdentity_eq, SameAccount]
  cases ha : ownerCredential host a <;> cases hb : ownerCredential host b <;>
    by_cases hpa : a.proc.passEnv = some true <;> by_cases hpb : b.proc.passEnv = some true <;>
    simp [hpa, hpb]

theorem startCheck_eq (host : Host) (owners : GoMap String Service) (name : String)
    (cfg : CheckConfig) :
    startCheck host owners name cfg = (Checker.new name cfg).toOption.map fun checker =>
      ⟨checker, if cfg.exec.isSome then
        ((owners.lookup name).map (ownerIdentity host)).getD {} else {}⟩ := by
  unfold startCheck ownerIdentity
  cases Checker.new name cfg with
  | error error => rfl
  | ok checker =>
    cases owners.lookup name with
    | none => cases cfg.exec <;> rfl
    | some svc =>
      cases cfg.exec with
      | none => rfl
      | some exec => cases howner : runCheckAsOwner host svc <;> simp [howner] <;> rfl

theorem new_name (h : Checker.new name cfg = .ok checker) : checker.name = name := by
  unfold Checker.new at h
  obtain ⟨_, -, h⟩ := Except.bind_eq_ok.mp h
  obtain ⟨_, -, h⟩ := Except.bind_eq_ok.mp h
  dsimp only at h
  split at h
  · cases h
  · obtain ⟨_, -, h⟩ := Except.bind_eq_ok.mp h
    obtain ⟨_, -, h⟩ := Except.bind_eq_ok.mp h
    obtain ⟨_, -, h⟩ := Except.bind_eq_ok.mp h
    rw [← Except.pure_eq_ok.mp h]

/-- A check among the started ones, and what it was started with. -/
theorem mem_startChecks {checks : GoMap String CheckConfig}
    (hentries : entries.Perm checks.entries) (hcheck : checks.lookup name = some cfg)
    (hnew : Checker.new name cfg = .ok checker) (visits : List Visit) (identity : Identity) :
    ⟨checker, identity⟩ ∈ startChecks host visits entries ↔
      startCheck host (checkOwners visits) name cfg = some ⟨checker, identity⟩ := by
  rw [startChecks, List.mem_filterMap]
  constructor
  · rintro ⟨⟨other, otherCfg⟩, hmem, hstart⟩
    have hlookup := GoMap.mem_entries.mp (hentries.subset hmem)
    have hname : other = name := by
      rw [startCheck_eq] at hstart
      obtain ⟨started, hstarted, heq⟩ := Option.map_eq_some_iff.mp hstart
      obtain rfl : started = checker := congrArg StartedCheck.checker heq
      rw [Except.toOption_eq_some] at hstarted
      exact (new_name hstarted).symm.trans (new_name hnew)
    subst hname
    rw [hcheck] at hlookup
    cases hlookup
    exact hstart
  · intro hstart
    exact ⟨(name, cfg), hentries.symm.subset (GoMap.mem_entries.mpr hcheck), hstart⟩

/-- Every exec check gets one credential and one environment, whatever the order,
exactly when the services that may own it have the same account. -/
theorem startChecks_order_iff (host : Host) (services : GoMap String Service)
    (checks : GoMap String CheckConfig) :
    (∀ (left right : Iteration services) (leftChecks rightChecks : List (String × CheckConfig)),
        leftChecks.Perm checks.entries → rightChecks.Perm checks.entries →
        (startChecks host left.visits leftChecks).Perm
          (startChecks host right.visits rightChecks)) ↔
      ∀ name cfg, checks.lookup name = some cfg → cfg.exec.isSome →
        (Checker.new name cfg).isOk →
        ∀ a ∈ candidates (services.entries.map Prod.snd) name,
          ∀ b ∈ candidates (services.entries.map Prod.snd) name, SameAccount host a b := by
  constructor
  · intro hperm name cfg hcheck hexec hok a ha b hb
    obtain ⟨left, hleft⟩ := exists_owner ha
    obtain ⟨right, hright⟩ := exists_owner hb
    obtain ⟨checker, hnew⟩ : ∃ checker, Checker.new name cfg = .ok checker := by
      cases hnew : Checker.new name cfg with
      | ok checker => exact ⟨checker, rfl⟩
      | error error => rw [hnew] at hok; cases hok
    have hstart : ∀ {order : Iteration services} {svc : Service},
        (checkOwners order.visits).lookup name = some svc →
        startCheck host (checkOwners order.visits) name cfg =
          some ⟨checker, ownerIdentity host svc⟩ := by
      intro order svc howner
      rw [startCheck_eq, hnew, howner, if_pos hexec]
      rfl
    have hmem := (mem_startChecks (List.Perm.refl _) hcheck hnew left.visits
      (ownerIdentity host a)).mpr (hstart hleft)
    have hmoved := (hperm left right _ _ (List.Perm.refl _) (List.Perm.refl _)).subset hmem
    have hsame := (mem_startChecks (List.Perm.refl _) hcheck hnew right.visits
      (ownerIdentity host a)).mp hmoved
    rw [hstart hright] at hsame
    have hidentity := congrArg StartedCheck.identity (Option.some.inj hsame)
    exact (ownerIdentity_eq_iff host a b).mp hidentity.symm
  · intro hagree left right leftChecks rightChecks hleft hright
    have hsame : ∀ entry ∈ rightChecks,
        startCheck host (checkOwners left.visits) entry.1 entry.2 =
          startCheck host (checkOwners right.visits) entry.1 entry.2 := by
      rintro ⟨name, cfg⟩ hmem
      have hlookup := GoMap.mem_entries.mp (hright.subset hmem)
      rw [startCheck_eq, startCheck_eq]
      cases hnew : Checker.new name cfg with
      | error error => rfl
      | ok checker =>
        by_cases hexec : cfg.exec.isSome
        · have hcandidates : ∀ a ∈ candidates (services.entries.map Prod.snd) name,
              ∀ b ∈ candidates (services.entries.map Prod.snd) name,
              ownerIdentity host a = ownerIdentity host b := by
            intro a ha b hb
            rw [ownerIdentity_eq_iff]
            exact hagree name cfg hlookup hexec (by rw [hnew]; rfl) a ha b hb
          rw [owner_map_eq hcandidates left right]
        · simp only [if_neg hexec]
    refine ((hleft.trans hright.symm).filterMap _).trans ?_
    exact List.Perm.of_eq (List.filterMap_congr hsame)

def bareHost : Host :=
  ⟨⟨fun _ => none, fun _ => none, fun _ => none, 0⟩, some "/bin"⟩

def waitingService (name : String) (userID groupID : Option Int) : Service :=
  { (default : Service) with
    name
    proc := { Process.empty with name, userID, groupID, readyCheck := "db" } }

def sharedCheck : CheckConfig :=
  ⟨none, none, some ⟨"pg_isready", []⟩, "", "", "", 0⟩

def appService : Service := waitingService "app" (some 1000) (some 1000)
def adminService : Service := waitingService "admin" none none

def sharedServices : GoMap String Service :=
  GoMap.ofList [("app", appService), ("admin", adminService)]

/-- The check runs as the user of one service or as gopherd, by the order. -/
theorem shared_check_order :
    ¬∀ left right : Iteration sharedServices,
      (startChecks bareHost left.visits [("db", sharedCheck)]).Perm
        (startChecks bareHost right.visits [("db", sharedCheck)]) := by
  intro h
  have hleft : [appService, adminService].Perm (sharedServices.entries.map Prod.snd) := by
    decide +kernel
  have hright : [adminService, appService].Perm (sharedServices.entries.map Prod.snd) := by
    decide +kernel
  have hsame : (startChecks bareHost (visitAll [appService, adminService])
        [("db", sharedCheck)]).Perm
      (startChecks bareHost (visitAll [adminService, appService]) [("db", sharedCheck)]) :=
    h (Iteration.ofPerm hleft) (Iteration.ofPerm hright)
  exact absurd hsame (by decide +kernel)

end Gopherd.Daemon
