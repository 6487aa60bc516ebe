import Rk8s.Xline.Auth.Store
import Rk8s.Xline.Storage.LeaseStore

namespace Rk8s.Xline.Server

open Std Storage

/-!
# The command executor

Committed commands are applied in batches.  Alarms and permissions are checked
for all commands of a batch before the first one is applied.  Then the commands
are applied in turn; what a command that fails has written by then stays in the
transaction, which is committed in any case.

A command may have been executed before it was committed.  Otherwise the batch
executes it, which for the requests of the auth and lease stores means that
their checks are run; the checks are not repeated when they are applied.

Passwords and tokens are left out, and with them the requests to authenticate
and to change a password, and so is the list of leases, which depends on the
clock.
-/

/-- Requests that go to the auth store. -/
inductive AuthCommand
  | enable
  | disable
  | status
  | userGet (name : Name)
  | userList
  | roleGet (role : Name)
  | roleList
  | change (req : AuthRequest)

inductive AuthResponse
  | done
  | status (authRevision : Int) (enabled : Bool)
  | userGet (roles : List Name)
  | userList (users : List Name)
  | roleGet (perm : List Permission)
  | roleList (roles : List Name)

inductive AlarmType
  | none
  | nospace
  | corrupt
  deriving DecidableEq

inductive AlarmAction
  | get
  | activate
  | deactivate

structure AlarmMember where
  memberId : Nat
  alarm : AlarmType
  deriving DecidableEq

inductive RequestWrapper
  | kv (req : KvRequest)
  | lease (req : LeaseRequest)
  | auth (req : AuthCommand)
  | alarm (action : AlarmAction) (member : AlarmMember)

inductive CommandResponse
  | kv (response : Response)
  | lease (response : LeaseResponse)
  | auth (response : AuthResponse)
  | alarm (alarms : List AlarmMember)

structure AuthInfo where
  username : Name
  authRevision : Int

structure Command where
  request : RequestWrapper
  authInfo : Option AuthInfo := none

/-- A committed command, and whether it is still to be executed. -/
structure AfterSyncCmd where
  cmd : Command
  toExecute : Bool

/-- The revision of an applied command, with its response if it was executed. -/
abbrev AfterSyncResult := Except ExecuteError (Int × Option CommandResponse)

/-- The auth store and the alarm store, with their tables of the database, and
the index of the last applied command. -/
structure Others where
  auth : AuthStore := { backend := {}, permissionCache := {} }
  authEnabled : Bool := false
  /-- The flag in the database. -/
  authEnableStored : Bool := false
  /-- The revision counter of the auth store. -/
  authRevision : Int := 1
  alarms : List AlarmMember := []
  alarmTable : List AlarmMember := []
  currentAlarm : AlarmType := .none
  appliedIndex : Nat := 0

/-- Operations on the tables of `Others`. -/
inductive OtherOp
  | auth (op : AuthWriteOp)
  | putAuthEnable (enabled : Bool)
  | putAlarm (alarm : AlarmMember)
  | deleteAlarm (alarm : AlarmMember)
  | putAppliedIndex (index : Nat)

def Others.write (others : Others) : OtherOp -> Others
  | .auth op => { others with auth.backend := others.auth.backend.write op }
  | .putAuthEnable enabled => { others with authEnableStored := enabled }
  | .putAlarm alarm => { others with alarmTable := others.alarmTable ++ [alarm] }
  | .deleteAlarm alarm => { others with alarmTable := others.alarmTable.filter (· ≠ alarm) }
  | .putAppliedIndex index => { others with appliedIndex := index }

structure CommandExecutor where
  kv : KvStore
  others : Others := {}

/-- A batch: the batch of the key-value store, and what the transaction and the
second revision counter hold for the other stores. -/
structure Round where
  kv : Batch
  others : Others
  ops : List OtherOp := []
  nextAuthRevision : Int

section Checks

def AuthCommand.needAdminPermission : AuthCommand -> Bool
  | .userGet _ | .roleGet _ => false
  | .enable | .disable | .status | .userList | .roleList | .change _ => true

/-- Requests that do not move the revision of the auth store. -/
def AuthCommand.skipAuthRevision : AuthCommand -> Bool
  | .enable | .status | .userGet _ | .userList | .roleGet _ | .roleList => true
  | .disable | .change _ => false

variable (others : Others)

def Others.checkAdminPermission (username : Name) : Except ExecuteError Unit :=
  if !others.authEnabled then .ok ()
  else
    (others.auth.backend.getUser username).bind fun user =>
      if user.hasRole rootRole then .ok () else .error .permissionDenied

variable (leases : LeaseCollection)

/-- The keys of a lease are checked as if they were written. -/
def checkLease (username : Name) (leaseId : Int) : Except ExecuteError Unit :=
  match leases.lookUp leaseId with
  | none => .ok ()
  | some lease =>
    lease.keysSet.toList.forM fun key => others.auth.checkOpPermission username key [] .write

def checkPutPermission (username : Name) (req : PutRequest) : Except ExecuteError Unit := do
  if req.prevKv then others.auth.checkOpPermission username req.key [] .read
  checkLease others leases username req.lease
  others.auth.checkOpPermission username req.key [] .write

def checkDeletePermission (username : Name) (req : DeleteRangeRequest) :
    Except ExecuteError Unit := do
  if req.prevKv then others.auth.checkOpPermission username req.key req.rangeEnd .read
  others.auth.checkOpPermission username req.key req.rangeEnd .write

mutual

/-- The program visits the operations level by level; all failed checks for one
user give the same error. -/
def checkOp (others : Others) (leases : LeaseCollection) (username : Name) :
    RequestOp -> Except ExecuteError Unit
  | .missing => .ok ()
  | .requestRange req => others.auth.checkOpPermission username req.key req.rangeEnd .read
  | .requestPut req => checkPutPermission others leases username req
  | .requestDeleteRange req => checkDeletePermission others username req
  | .requestTxn compares success failure => do
      compares.forM fun compare =>
        others.auth.checkOpPermission username compare.key compare.rangeEnd .read
      checkOps others leases username success
      checkOps others leases username failure

def checkOps (others : Others) (leases : LeaseCollection) (username : Name) :
    List RequestOp -> Except ExecuteError Unit
  | [] => .ok ()
  | op :: ops => do
      checkOp others leases username op
      checkOps others leases username ops

end

/-- What a user who is not asked to be an administrator needs for a request. -/
def checkRequest (username : Name) : RequestWrapper -> Except ExecuteError Unit
  | .kv (.range req) => others.auth.checkOpPermission username req.key req.rangeEnd .read
  | .kv (.put req) => checkPutPermission others leases username req
  | .kv (.deleteRange req) => checkDeletePermission others username req
  | .kv (.txn req) =>
    checkOp others leases username (.requestTxn req.compare req.success req.failure)
  | .lease (.revoke id) => checkLease others leases username id
  | .auth (.userGet name) =>
    match others.checkAdminPermission username with
    | .ok _ => .ok ()
    | .error error => if name = username then .ok () else .error error
  | .auth (.roleGet role) =>
    match others.checkAdminPermission username with
    | .ok _ => .ok ()
    | .error error =>
      (others.auth.backend.getUser username).bind fun user =>
        if user.hasRole role then .ok () else .error error
  | .kv (.compaction _) | .lease (.grant _ _) | .auth _ | .alarm _ _ => .ok ()

/-- `AuthStore::check_permission`. -/
def checkPermission (cmd : Command) : Except ExecuteError Unit :=
  if !others.authEnabled then .ok ()
  else
    match cmd.authInfo with
    | none => .error .tokenNotProvided
    | some info =>
      if info.authRevision < others.authRevision then
        .error (.tokenOldRevision info.authRevision others.authRevision)
      else
        match cmd.request with
        | .auth req =>
          if req.needAdminPermission then others.checkAdminPermission info.username
          else checkRequest others leases info.username (.auth req)
        | request => checkRequest others leases info.username request

/-- `CommandExecutor::check_alarm`. -/
def checkAlarm (alarm : AlarmType) : RequestWrapper -> Except ExecuteError Unit
  | .kv (.put _) | .kv (.txn _) | .lease (.grant _ _) =>
    match alarm with
    | .corrupt => .error .corrupt
    | .nospace => .error .nospace
    | .none => .ok ()
  | .kv (.range _) | .kv (.deleteRange _) | .lease (.revoke _) | .kv (.compaction _) =>
    match alarm with
    | .corrupt => .error .corrupt
    | .nospace | .none => .ok ()
  | .auth _ | .alarm _ _ => .ok ()

/-- The checks made for the commands of a batch before any is applied. -/
def CommandExecutor.admits (executor : CommandExecutor) (cmd : Command) : Except ExecuteError Unit :=
  do
    checkAlarm executor.others.currentAlarm cmd.request
    checkPermission executor.others executor.kv.leases cmd

end Checks

section Auth

/-- `AuthStore::execute`: the checks of a request, on the committed tables. -/
def handleAuthRequest (others : Others) : AuthCommand -> Except ExecuteError AuthResponse
  | .enable =>
    if others.authEnabled then .ok .done
    else
      (others.auth.backend.getUser rootRole).bind fun user =>
        if user.hasRole rootRole then .ok .done else .error .rootRoleNotExist
  | .disable => .ok .done
  | .status => .ok (.status others.authRevision others.authEnabled)
  | .userGet name => (others.auth.backend.getUser name).map fun user => .userGet user.roles
  | .userList => .ok (.userList (others.auth.backend.getAllUsers.map User.name))
  | .roleGet role =>
    (others.auth.backend.getRole role).map fun role =>
      if role.name = rootRole then .roleGet [{ permType := .readwrite, key := [], rangeEnd := [0] }]
      else .roleGet role.keyPermission
  | .roleList =>
    .ok (.roleList (others.auth.backend.roles.toList.map fun entry => entry.2.name))
  | .change (.userAdd name) =>
    if (others.auth.backend.getUser name).isOk then .error (.userAlreadyExists name)
    else .ok .done
  | .change (.userDelete name) =>
    if others.authEnabled ∧ name = rootRole then .error .invalidAuthManagement
    else (others.auth.backend.getUser name).map fun _ => .done
  | .change (.userGrantRole user role) =>
    (others.auth.backend.getUser user).bind fun _ =>
      if role ≠ rootRole then (others.auth.backend.getRole role).map fun _ => .done
      else .ok .done
  | .change (.userRevokeRole name role) =>
    if others.authEnabled ∧ name = rootRole ∧ role = rootRole then .error .invalidAuthManagement
    else
      (others.auth.backend.getUser name).bind fun user =>
        if user.hasRole role then .ok .done else .error (.roleNotGranted role)
  | .change (.roleAdd name) =>
    if (others.auth.backend.getRole name).isOk then .error (.roleAlreadyExists name)
    else .ok .done
  | .change (.roleDelete role) =>
    if others.authEnabled ∧ role = rootRole then .error .invalidAuthManagement
    else (others.auth.backend.getRole role).map fun _ => .done
  | .change (.roleGrantPermission name _) =>
    (others.auth.backend.getRole name).map fun _ => .done
  | .change (.roleRevokePermission role key rangeEnd) =>
    (others.auth.backend.getRole role).bind fun role =>
      match BinarySearch.binarySearchBy (Permission.order key rangeEnd) role.keyPermission with
      | .error _ => .error .permissionNotGranted
      | .ok _ => .ok .done

/-- The handler of a request in `AuthStore::after_sync`: the auth store in
memory, and the operations to write. -/
def syncAuth (others : Others) (revision : Int) :
    AuthCommand -> Except ExecuteError (Others × List OtherOp)
  | .enable =>
    if others.authEnabled then .ok (others, [])
    else
      .ok ({ others with
          authEnabled := true
          auth.permissionCache := createPermissionCache others.auth.backend },
        [.putAuthEnable true])
  | .disable =>
    if !others.authEnabled then .ok (others, [])
    else
      .ok ({ others with authEnabled := false },
        [.auth (.putAuthRevision revision), .putAuthEnable false])
  | .status | .userGet _ | .userList | .roleGet _ | .roleList => .ok (others, [])
  | .change req =>
    (others.auth.afterSync revision req).map fun synced =>
      ({ others with auth.permissionCache := synced.1 }, synced.2.map .auth)

end Auth

section Alarms

variable (others : Others)

/-- `AlarmStore::refresh_current_alarm`. -/
def Others.refreshCurrentAlarm : Others :=
  { others with
    currentAlarm :=
      if others.alarms.any (·.alarm == .corrupt) then .corrupt
      else if others.alarms.any (·.alarm == .nospace) then .nospace
      else .none }

def handleAlarm (action : AlarmAction) (member : AlarmMember) : List AlarmMember :=
  match action with
  | .get =>
    match member.alarm with
    | .none => others.alarms
    | alarm => others.alarms.filter (·.alarm == alarm)
  | .activate => [member]
  | .deactivate => others.alarms.filter (· == member)

def syncAlarm (action : AlarmAction) (member : AlarmMember) : Others × List OtherOp :=
  match action with
  | .get => (others, [])
  | .activate =>
    if member ∈ others.alarms then (others.refreshCurrentAlarm, [])
    else
      ({ others with alarms := others.alarms ++ [member] }.refreshCurrentAlarm, [.putAlarm member])
  | .deactivate =>
    if member ∈ others.alarms then
      ({ others with alarms := others.alarms.filter (· ≠ member) }.refreshCurrentAlarm,
        [.deleteAlarm member])
    else (others.refreshCurrentAlarm, [])

end Alarms

section Apply

/-- Apply a request of the key-value or lease store to its batch. -/
def Round.liftKv (round : Round) {α : Type} (effect : Exec α) : Except ExecuteError α × Round :=
  ((effect round.kv).1, { round with kv := (effect round.kv).2 })

variable (order : SetOrder)

/-- `CommandExecutor::after_sync_others` for the lease store. -/
def Round.applyLease (round : Round) (req : LeaseRequest) (toExecute : Bool) :
    AfterSyncResult × Round :=
  match if toExecute then (handleLeaseRequest round.kv.store.leases req).map some else .ok none with
  | .error error => (.error error, round)
  | .ok response =>
    let (result, round) := round.liftKv (syncLeaseRequest order req)
    (result.map fun revision => (revision, response.map .lease), round)

/-- `CommandExecutor::after_sync_others` for the auth store.  The revision is
taken before the request is handled. -/
def Round.applyAuth (round : Round) (req : AuthCommand) (toExecute : Bool) :
    AfterSyncResult × Round :=
  match if toExecute then (handleAuthRequest round.others req).map some else .ok none with
  | .error error => (.error error, round)
  | .ok response =>
    let round :=
      if req.skipAuthRevision then round
      else { round with nextAuthRevision := round.nextAuthRevision + 1 }
    match syncAuth round.others round.nextAuthRevision req with
    | .error error => (.error error, round)
    | .ok (others, ops) =>
      (.ok (round.nextAuthRevision, response.map .auth),
        { round with others, ops := round.ops ++ ops })

def Round.applyAlarm (round : Round) (action : AlarmAction) (member : AlarmMember)
    (toExecute : Bool) : AfterSyncResult × Round :=
  let response := if toExecute then some (handleAlarm round.others action member) else none
  let (others, ops) := syncAlarm round.others action member
  (.ok (round.kv.nextRevision, response.map .alarm), { round with others, ops := round.ops ++ ops })

/-- Apply one command of a batch. -/
def Round.apply (round : Round) (c : AfterSyncCmd) : AfterSyncResult × Round :=
  match c.cmd.request with
  | .kv req =>
    let (result, round) := round.liftKv (syncRequest req c.toExecute)
    (result.map fun answer => (answer.1, answer.2.map .kv), round)
  | .lease req => round.applyLease order req c.toExecute
  | .auth req => round.applyAuth req c.toExecute
  | .alarm action member => round.applyAlarm action member c.toExecute

/-- Apply the commands of a batch, unless the checks have refused them. -/
def Round.applyAll (order : SetOrder) :
    Round -> List (AfterSyncCmd × Except ExecuteError Unit) -> List AfterSyncResult × Round
  | round, [] => ([], round)
  | round, (_, .error error) :: commands =>
    let (results, round) := applyAll order round commands
    (.error error :: results, round)
  | round, (c, .ok _) :: commands =>
    let (result, round) := round.apply order c
    let (results, round) := applyAll order round commands
    (result :: results, round)

def CommandExecutor.round (executor : CommandExecutor) (highestIndex : Option Nat) : Round where
  kv := executor.kv.batch
  others := executor.others
  ops := (highestIndex.map .putAppliedIndex).toList
  nextAuthRevision := executor.others.authRevision

def Round.commit (round : Round) : CommandExecutor where
  kv := round.kv.commit
  others :=
    { round.ops.foldl Others.write round.others with authRevision := round.nextAuthRevision }

/-- `CommandExecutor::after_sync`. -/
def CommandExecutor.afterSync (executor : CommandExecutor) (cmds : List AfterSyncCmd)
    (highestIndex : Option Nat) : List AfterSyncResult × CommandExecutor :=
  if cmds = [] then ([], executor)
  else
    let (results, round) := (executor.round highestIndex).applyAll order
      (cmds.map fun c => (c, executor.admits c.cmd))
    (results, round.commit)

end Apply

end Rk8s.Xline.Server
