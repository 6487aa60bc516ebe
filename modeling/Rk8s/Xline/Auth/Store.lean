import Rk8s.Lib.BinarySearch
import Rk8s.Lib.Collections
import Rk8s.Lib.HalfOpen
import Rk8s.Xline.Api.Request

namespace Rk8s.Xline

open Std

/-!
# The auth store

Users hold roles and roles hold permissions on ranges of keys.  Both are records
of the database.  To check a request the store does not read the roles; it keeps
a cache with the ranges that each user may read and write, and each handler
updates the cache by a rule of its own.

Names are strings in the program, ordered by their bytes.  Passwords, options and
tokens are left out, and so are the handlers that only answer questions.
-/

/-! ## Ranges -/

namespace KeyRange

/-- The same range with a first key and the first key after it. -/
def halfOpen (range : KeyRange) : HalfOpen Key where
  low :=
    match range.key with
    | .included start => start
    | .excluded start => start ++ [0]
    | .unbounded => []
  high :=
    match range.rangeEnd with
    | .included stop => some (stop ++ [0])
    | .excluded stop => some stop
    | .unbounded => none

theorem contains_halfOpen (range : KeyRange) (key : Key) :
    range.halfOpen.contains key = range.containsKey key := by
  have above : ∀ start : Key, (compare (start ++ [0]) key).isLE = (compare start key).isLT := by
    intro start
    have swapped : ∀ first second : Key, compare first second = (compare second first).swap :=
      fun _ _ => OrientedCmp.eq_swap
    have step := compare_snoc_zero key start
    rw [swapped (start ++ [0]), swapped start]
    revert step
    cases compare key (start ++ [0]) <;> cases compare key start <;> simp
  have least : (compare ([] : Key) key).isLE = true := by cases key <;> rfl
  cases range with
  | mk start stop =>
    cases start <;> cases stop <;>
      simp [halfOpen, HalfOpen.contains, containsKey, compare_snoc_zero, above, least]

end KeyRange

/-- A set of keys, given by the ranges that were inserted. -/
abbrev MergedRange := List KeyRange

namespace MergedRange

variable (merged : MergedRange)

def insert (range : KeyRange) : MergedRange := merged ++ [range]

def containsRange (range : KeyRange) : Bool :=
  range.halfOpen.coveredBy (merged.map KeyRange.halfOpen)

/-- The union of the ranges contains the range. -/
theorem containsRange_iff (range : KeyRange) :
    merged.containsRange range = true ↔
      ∀ key, range.containsKey key = true -> ∃ part ∈ merged, part.containsKey key = true := by
  rw [containsRange, HalfOpen.coveredBy_iff]
  simp [KeyRange.contains_halfOpen]

end MergedRange

/-! ## Permissions -/

inductive PermType
  | read
  | write
  | readwrite
  deriving DecidableEq

structure Permission where
  permType : PermType
  key : Key
  rangeEnd : Key := []

/-- The order of the permissions of a role, relative to a range. -/
def Permission.order (key rangeEnd : Key) (permission : Permission) : Ordering :=
  match compare permission.key key with
  | .eq => compare permission.rangeEnd rangeEnd
  | .lt => .lt
  | .gt => .gt

/-- Permissions of a user. -/
structure UserPermissions where
  read : MergedRange := []
  write : MergedRange := []

def UserPermissions.insert (permissions : UserPermissions) (perm : Permission) : UserPermissions :=
  let range := KeyRange.new perm.key perm.rangeEnd
  match perm.permType with
  | .readwrite =>
    { read := permissions.read.insert range, write := permissions.write.insert range }
  | .write => { permissions with write := permissions.write.insert range }
  | .read => { permissions with read := permissions.read.insert range }

/-! ## Records -/

structure User where
  name : Name
  roles : List Name := []
  deriving DecidableEq

structure Role where
  name : Name
  keyPermission : List Permission := []

/-- The role that may do everything, called `root`. -/
def rootRole : Name := [114, 111, 111, 116]

/-- The search for a role among the sorted roles of a user. -/
def User.searchRole (user : User) (role : Name) : Except Nat Nat :=
  BinarySearch.binarySearchBy (fun held => compare held role) user.roles

def User.hasRole (user : User) (role : Name) : Bool := (user.searchRole role).isOk

/-- The tables of users and roles, and the revision of the auth store. -/
structure AuthStoreBackend where
  users : ExtTreeMap Name User := ∅
  roles : ExtTreeMap Name Role := ∅
  revision : Int := 1

inductive AuthWriteOp
  | putAuthRevision (revision : Int)
  | putUser (user : User)
  | deleteUser (name : Name)
  | putRole (role : Role)
  | deleteRole (name : Name)

namespace AuthStoreBackend

variable (backend : AuthStoreBackend)

def getUser (username : Name) : Except ExecuteError User :=
  match backend.users[username]? with
  | some user => .ok user
  | none => .error (.userNotFound username)

def getRole (rolename : Name) : Except ExecuteError Role :=
  match backend.roles[rolename]? with
  | some role => .ok role
  | none => .error (.roleNotFound rolename)

def getAllUsers : List User := backend.users.toList.map Prod.snd

/-- A record is written under the name that it carries. -/
def write : AuthWriteOp -> AuthStoreBackend
  | .putAuthRevision revision => { backend with revision }
  | .putUser user => { backend with users := backend.users.insert user.name user }
  | .deleteUser name => { backend with users := backend.users.erase name }
  | .putRole role => { backend with roles := backend.roles.insert role.name role }
  | .deleteRole name => { backend with roles := backend.roles.erase name }

def writeOps (ops : List AuthWriteOp) : AuthStoreBackend :=
  ops.foldl write backend

/-- The permissions of the roles of a user, as they are stored.  One role may be
skipped, and roles without a record are. -/
def getUserPermissions (user : User) (skipRole : Option Name) : UserPermissions :=
  user.roles.foldl
    (fun permissions roleName =>
      if skipRole = some roleName then permissions
      else
        match backend.roles[roleName]? with
        | none => permissions
        | some role => role.keyPermission.foldl UserPermissions.insert permissions)
    {}

end AuthStoreBackend

structure PermissionCache where
  userPermissions : ExtTreeMap Name UserPermissions := ∅
  roleToUsersMap : ExtTreeMap Name (List Name) := ∅

/-- Remove a user from the users of a role. -/
def removeUser (name : Name) (users : List Name) : List Name :=
  match users.idxOf? name with
  | some index => swapRemove users index
  | none => users

structure AuthStore where
  backend : AuthStoreBackend
  permissionCache : PermissionCache

/-- Add a user to the users of each of the roles. -/
def PermissionCache.pushUser (name : Name) (roles : List Name)
    (roleToUsersMap : ExtTreeMap Name (List Name)) : ExtTreeMap Name (List Name) :=
  roles.foldl (fun map role => map.alter role fun users => some (users.getD [] ++ [name]))
    roleToUsersMap

/-- The cache that enabling the auth store builds. -/
def createPermissionCache (backend : AuthStoreBackend) : PermissionCache :=
  backend.getAllUsers.foldl
    (fun cache user =>
      { roleToUsersMap := PermissionCache.pushUser user.name user.roles cache.roleToUsersMap
        userPermissions :=
          cache.userPermissions.insert user.name (backend.getUserPermissions user none) })
    {}

/-! ## Requests -/

inductive AuthRequest
  | userAdd (name : Name)
  | userDelete (name : Name)
  | userGrantRole (user role : Name)
  | userRevokeRole (name role : Name)
  | roleAdd (name : Name)
  | roleDelete (role : Name)
  | roleGrantPermission (name : Name) (perm : Option Permission)
  | roleRevokePermission (role : Name) (key rangeEnd : Key)

namespace AuthStore

/-- What syncing a request does: the new cache, and the operations to write. -/
abbrev Synced := Except ExecuteError (PermissionCache × List AuthWriteOp)

variable (store : AuthStore) (name : Name)

def syncUserAddRequest (revision : Int) : Synced :=
  .ok (store.permissionCache, [.putAuthRevision revision, .putUser { name }])

def syncUserDeleteRequest (revision : Int) : Synced :=
  let cache := store.permissionCache
  .ok
    ({ userPermissions := cache.userPermissions.erase name
       roleToUsersMap := cache.roleToUsersMap.map fun _ users => removeUser name users },
      [.putAuthRevision revision, .deleteUser name])

def syncUserGrantRoleRequest (username roleName : Name) (revision : Int) : Synced :=
  (store.backend.getUser username).bind fun user =>
    let role := store.backend.getRole roleName
    if roleName ≠ rootRole ∧ ¬ role.isOk then .error (.roleNotFound roleName)
    else
      match user.searchRole roleName with
      | .ok _ => .error (.userAlreadyHasRole username roleName)
      | .error idx =>
        let cache := store.permissionCache
        let cache :=
          match role with
          | .error _ => cache
          | .ok role =>
            { userPermissions := cache.userPermissions.alter username fun entry =>
                some (role.keyPermission.foldl UserPermissions.insert (entry.getD {}))
              roleToUsersMap := PermissionCache.pushUser username [roleName] cache.roleToUsersMap }
        .ok (cache, [.putAuthRevision revision,
          .putUser { user with roles := user.roles.insertIdx idx roleName }])

def syncUserRevokeRoleRequest (role : Name) (revision : Int) : Synced :=
  (store.backend.getUser name).bind fun user =>
    match user.searchRole role with
    | .error _ => .error (.roleNotGranted role)
    | .ok idx =>
      let user := { user with roles := user.roles.eraseIdx idx }
      let cache := store.permissionCache
      .ok
        ({ userPermissions :=
             cache.userPermissions.insert name (store.backend.getUserPermissions user none)
           roleToUsersMap := cache.roleToUsersMap.modify role (removeUser name) },
          [.putAuthRevision revision, .putUser user])

def syncRoleAddRequest (revision : Int) : Synced :=
  .ok (store.permissionCache, [.putAuthRevision revision, .putRole { name }])

/-- The user without the role, if the user holds it. -/
def withoutRole (role : Name) (user : User) : Option User :=
  match user.searchRole role with
  | .ok idx => some { user with roles := user.roles.eraseIdx idx }
  | .error _ => none

def syncRoleDeleteRequest (role : Name) (revision : Int) : Synced :=
  let users := store.backend.getAllUsers.filterMap (withoutRole role)
  let newPerms := users.map fun user => (user.name, store.backend.getUserPermissions user none)
  let cache := store.permissionCache
  .ok
    ({ userPermissions := cache.userPermissions.insertMany newPerms
       roleToUsersMap := cache.roleToUsersMap.erase role },
      .putAuthRevision revision :: .deleteRole role :: users.map .putUser)

def syncRoleGrantPermissionRequest (perm : Option Permission) (revision : Int) : Synced :=
  (store.backend.getRole name).bind fun role =>
    match perm with
    | none => .error .permissionNotGiven
    | some permission =>
      let keyPermission :=
        match BinarySearch.binarySearchBy
            (Permission.order permission.key permission.rangeEnd) role.keyPermission with
        | .ok idx => role.keyPermission.modify idx fun granted =>
          { granted with permType := permission.permType }
        | .error idx => role.keyPermission.insertIdx idx permission
      let cache := store.permissionCache
      let users := (cache.roleToUsersMap[name]?).getD []
      .ok
        ({ cache with
           userPermissions := users.foldl
             (fun permissions user => permissions.alter user fun entry =>
               some ((entry.getD {}).insert permission))
             cache.userPermissions },
          [.putAuthRevision revision, .putRole { role with keyPermission }])

def syncRoleRevokePermissionRequest (roleName : Name) (key rangeEnd : Key)
    (revision : Int) : Synced :=
  (store.backend.getRole roleName).bind fun role =>
    match BinarySearch.binarySearchBy (Permission.order key rangeEnd) role.keyPermission with
    | .error _ => .error .permissionNotGranted
    | .ok idx =>
      let cache := store.permissionCache
      let users := ((cache.roleToUsersMap[roleName]?).getD []).filterMap fun user =>
        store.backend.users[user]?
      .ok
        ({ cache with
           userPermissions := cache.userPermissions.insertMany (users.map fun user =>
             (user.name, store.backend.getUserPermissions user (some roleName))) },
          [.putAuthRevision revision,
            .putRole { role with keyPermission := role.keyPermission.eraseIdx idx }])

def afterSync (revision : Int) : AuthRequest -> Synced
  | .userAdd name => store.syncUserAddRequest name revision
  | .userDelete name => store.syncUserDeleteRequest name revision
  | .userGrantRole user role => store.syncUserGrantRoleRequest user role revision
  | .userRevokeRole name role => store.syncUserRevokeRoleRequest name role revision
  | .roleAdd name => store.syncRoleAddRequest name revision
  | .roleDelete role => store.syncRoleDeleteRequest role revision
  | .roleGrantPermission name perm => store.syncRoleGrantPermissionRequest name perm revision
  | .roleRevokePermission role key rangeEnd =>
    store.syncRoleRevokePermissionRequest role key rangeEnd revision

/-- Sync a request and commit its operations.  A request that fails changes
nothing. -/
def apply (request : AuthRequest) (revision : Int) : AuthStore :=
  match store.afterSync revision request with
  | .error _ => store
  | .ok (permissionCache, ops) => { backend := store.backend.writeOps ops, permissionCache }

/-- The access that a request asks for.  `Readwrite` is never asked for. -/
inductive Access
  | read
  | write

/-- Check permission for a kv operation. -/
def checkOpPermission (username : Name) (key rangeEnd : Key)
    (access : Access) : Except ExecuteError Unit :=
  (store.backend.getUser username).bind fun user =>
    if user.hasRole rootRole then .ok ()
    else
      let keyRange := KeyRange.new key rangeEnd
      match store.permissionCache.userPermissions[username]? with
      | none => .error .permissionDenied
      | some permissions =>
        let merged :=
          match access with
          | .read => permissions.read
          | .write => permissions.write
        if merged.containsRange keyRange then .ok () else .error .permissionDenied

end AuthStore

end Rk8s.Xline
