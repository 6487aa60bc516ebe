import Rk8s.Lib.Fallible
import Rk8s.Lib.Transition
import Rk8s.Xline.Auth.Store

namespace Rk8s.Xline

open AuthStore AuthStoreBackend PermissionCache Std Transition Fallible List UserPermissions KeyRange
open BinarySearch

/-!
# The permission cache and the stored roles

The cache is exact if it gives each user the ranges of the permissions of the
roles that are stored for the user.  Most handlers keep it exact.  Three rules do
not: granting a permission on a range that the role has already adds the new
type of access without taking away the old one, revoking a permission drops all
permissions of the role from the cache, and adding a user or role that exists
replaces the record and leaves the cache as it is.
-/

/-! ## What a user may do -/

def Permission.range (permission : Permission) : KeyRange :=
  KeyRange.new permission.key permission.rangeEnd

def PermType.allows : PermType -> AuthStore.Access -> Bool
  | .read, .read => true
  | .read, .write => false
  | .write, .read => false
  | .write, .write => true
  | .readwrite, _ => true

variable (backend : AuthStoreBackend)

/-- The permissions stored for a role; none if the role has no record. -/
def AuthStoreBackend.permissionsOf (roleName : Name) : List Permission :=
  (backend.roles[roleName]?).elim [] Role.keyPermission

/-- The range lies in the union of the ranges that the stored roles of the user
give access to. -/
def AuthStoreBackend.Permits (user : User) (access : AuthStore.Access) (range : KeyRange) : Prop :=
  forall key, range.containsKey key = true ->
    Exists fun roleName => roleName ∈ user.roles ∧
      Exists fun permission => permission ∈ backend.permissionsOf roleName ∧
        permission.permType.allows access = true ∧ permission.range.containsKey key = true

/-- The ranges that the stored roles of the user give access to. -/
def AuthStoreBackend.grantedRanges (user : User) (access : AuthStore.Access) : MergedRange :=
  ((user.roles.flatMap backend.permissionsOf).filter fun permission =>
    permission.permType.allows access).map Permission.range

variable {access : AuthStore.Access} {user : User} {range : KeyRange}

theorem AuthStoreBackend.permits_iff {backend : AuthStoreBackend} :
    backend.Permits user access range ↔
      (backend.grantedRanges user access).containsRange range = true := by
  rw [MergedRange.containsRange_iff]
  refine forall_congr' fun key => imp_congr_right fun _ => ?_
  simp only [grantedRanges, mem_map, mem_filter, mem_flatMap]
  constructor
  · rintro ⟨roleName, held, permission, stored, allowed, inside⟩
    exact ⟨_, ⟨permission, ⟨⟨roleName, held, stored⟩, allowed⟩, rfl⟩, inside⟩
  · rintro ⟨_, ⟨permission, ⟨⟨roleName, held, stored⟩, allowed⟩, rfl⟩, inside⟩
    exact ⟨roleName, held, permission, stored, allowed, inside⟩

instance (backend : AuthStoreBackend) (user : User) (access : AuthStore.Access)
    (range : KeyRange) : Decidable (backend.Permits user access range) :=
  decidable_of_iff' _ permits_iff

/-- One of the permissions gives access to just this range. -/
def Gives (permissions : List Permission) (access : AuthStore.Access) (range : KeyRange) : Prop :=
  Exists fun permission => permission ∈ permissions ∧ permission.permType.allows access = true ∧
    permission.range = range

def UserPermissions.ranges (permissions : UserPermissions) : AuthStore.Access -> MergedRange
  | .read => permissions.read
  | .write => permissions.write

/-- The collected ranges are those of the given permissions. -/
def UserPermissions.Represents (permissions : UserPermissions)
    (holds : Permission -> Prop) : Prop :=
  forall access range, range ∈ permissions.ranges access ↔
    Exists fun permission => holds permission ∧ permission.permType.allows access = true ∧
      permission.range = range

variable {permission : Permission} {role : Name} {idx : Nat}

namespace UserPermissions

variable {permissions : UserPermissions} {holds : Permission -> Prop}

theorem represents_empty : Represents {} fun _ => False := by
  intro access range
  cases access <;> simp [ranges]

theorem mem_ranges_insert :
    range ∈ (permissions.insert permission).ranges access ↔
      range ∈ permissions.ranges access ∨
        permission.permType.allows access = true ∧ permission.range = range := by
  cases kind : permission.permType <;> cases access <;>
    simp [insert, ranges, MergedRange.insert, PermType.allows, Permission.range,
      kind, eq_comm]

variable (represents : permissions.Represents holds)
include represents

theorem Represents.congr {others : Permission -> Prop}
    (same : ∀ permission, holds permission ↔ others permission) :
    permissions.Represents others := by
  have equal : holds = others := funext fun permission => propext (same permission)
  rwa [← equal]

theorem Represents.insert (permission : Permission) :
    (permissions.insert permission).Represents
      fun other => holds other ∨ other = permission := by
  intro access range
  rw [mem_ranges_insert, represents]
  constructor
  · rintro (⟨other, held, allowed⟩ | allowed)
    · exact ⟨other, .inl held, allowed⟩
    · exact ⟨permission, .inr rfl, allowed⟩
  · rintro ⟨other, held | rfl, allowed⟩
    · exact .inl ⟨other, held, allowed⟩
    · exact .inr allowed

theorem Represents.foldl_insert (added : List Permission) :
    (added.foldl UserPermissions.insert permissions).Represents
      fun other => holds other ∨ other ∈ added := by
  induction added generalizing permissions holds with
  | nil => exact represents.congr (by simp)
  | cons first added ih =>
    exact (ih (represents.insert first)).congr (by simp [or_assoc])

end UserPermissions

namespace AuthStoreBackend

variable {backend : AuthStoreBackend}

/-- The permission is stored for one of the roles, the skipped one apart. -/
def Grants (backend : AuthStoreBackend) (user : User) (skipRole : Option Name)
    (permission : Permission) : Prop :=
  Exists fun roleName => roleName ∈ user.roles ∧ skipRole ≠ some roleName ∧
    permission ∈ backend.permissionsOf roleName

theorem mem_getAllUsers :
    user ∈ backend.getAllUsers ↔ ∃ name : Name, backend.users[name]? = some user := by
  simp [getAllUsers, ExtTreeMap.mem_toList_iff_getElem?_eq_some]

theorem grants_iff_gives :
    (∃ permission, backend.Grants user none permission ∧
      permission.permType.allows access = true ∧ permission.range = range) ↔
      ∃ roleName, roleName ∈ user.roles ∧ Gives (backend.permissionsOf roleName) access range := by
  constructor
  · rintro ⟨permission, ⟨roleName, held, -, stored⟩, gives⟩
    exact ⟨roleName, held, permission, stored, gives⟩
  · rintro ⟨roleName, held, permission, stored, gives⟩
    exact ⟨permission, ⟨roleName, held, by simp, stored⟩, gives⟩

/-- One round of the loop in `getUserPermissions`. -/
private def addRole (backend : AuthStoreBackend) (skipRole : Option Name)
    (permissions : UserPermissions) (roleName : Name) : UserPermissions :=
  if skipRole = some roleName then permissions
  else
    match backend.roles[roleName]? with
    | none => permissions
    | some role => role.keyPermission.foldl UserPermissions.insert permissions

/-- Collecting the permissions of a user from the stored roles is exact. -/
theorem getUserPermissions_represents (user : User) (skipRole : Option Name) :
    (backend.getUserPermissions user skipRole).Represents (backend.Grants user skipRole) := by
  have loop : ∀ (roles : List Name) (permissions : UserPermissions)
      (holds : Permission -> Prop), permissions.Represents holds ->
      (roles.foldl (addRole backend skipRole) permissions).Represents fun permission =>
        holds permission ∨ ∃ roleName ∈ roles, skipRole ≠ some roleName ∧
          permission ∈ backend.permissionsOf roleName := by
    intro roles
    induction roles with
    | nil => intro permissions holds represents; exact represents.congr (by simp)
    | cons first roles ih =>
      intro permissions holds represents
      rw [foldl_cons, addRole]
      split_ifs with skipped
      · exact (ih permissions holds represents).congr (by simp [skipped])
      cases record : backend.roles[first]? with
      | none =>
        exact (ih permissions holds represents).congr
          (by simp [permissionsOf, record])
      | some role =>
        exact (ih _ _ (represents.foldl_insert role.keyPermission)).congr
          (by simp [permissionsOf, record, skipped, or_assoc])
  exact (loop user.roles {} _ UserPermissions.represents_empty).congr (by simp [Grants])

end AuthStoreBackend

/-! ## The roles of a user -/

/-- The roles are sorted, as the binary searches expect. -/
def User.Sorted (user : User) : Prop := SortedBy (fun role : Name => role) user.roles

section

variable (sorted : user.Sorted)
include sorted

namespace User

theorem searchRole_ok (found : user.searchRole role = .ok idx) :
    role ∈ user.roles ∧
      ∀ other, other ∈ user.roles.eraseIdx idx ↔ other ∈ user.roles ∧ other ≠ role := by
  obtain ⟨held, there, same⟩ := exists_of_binarySearchBy_ok found
  rw [LawfulEqOrd.eq_of_compare same] at there
  exact ⟨mem_of_getElem? there, fun other => sorted.mem_eraseIdx_iff there⟩

theorem searchRole_error (missing : user.searchRole role = .error idx) :
    role ∉ user.roles ∧ SortedBy (fun role : Name => role) (user.roles.insertIdx idx role) ∧
      ∀ other, other ∈ user.roles.insertIdx idx role ↔ other = role ∨ other ∈ user.roles :=
  ⟨fun member => sorted.ne_of_error missing member rfl, sorted.insertIdx missing rfl,
    fun _ => mem_insertIdx (le_length_of_binarySearchBy_error missing)⟩

theorem hasRole_iff : user.hasRole role = true ↔ role ∈ user.roles := by
  unfold hasRole
  cases searched : user.searchRole role with
  | ok idx => simpa [Except.isOk, Except.toBool] using (searchRole_ok sorted searched).1
  | error idx => simpa [Except.isOk, Except.toBool] using (searchRole_error sorted searched).1

end User

theorem AuthStore.withoutRole_eq_some {changed : User}
    (without : withoutRole role user = some changed) :
    role ∈ user.roles ∧ changed.name = user.name ∧ changed.Sorted ∧
      ∀ other, other ∈ changed.roles ↔ other ∈ user.roles ∧ other ≠ role := by
  unfold withoutRole at without
  split at without
  · next idx found =>
    cases without
    obtain ⟨held, others⟩ := User.searchRole_ok sorted found
    exact ⟨held, rfl, sorted.eraseIdx idx, others⟩
  · cases without

theorem AuthStore.exists_withoutRole (held : role ∈ user.roles) :
    ∃ changed, withoutRole role user = some changed := by
  unfold withoutRole
  split
  · exact ⟨_, rfl⟩
  · next idx missing => exact absurd held (User.searchRole_error sorted missing).1

end

/-! ## The users of a role -/

theorem removeUser_perm (name : Name) (users : List Name) :
    (removeUser name users).Perm (users.erase name) := by
  rw [erase_eq_eraseIdx]
  unfold removeUser
  cases found : users.idxOf? name with
  | none => exact Perm.refl _
  | some index => exact swapRemove_perm (by simpa using (idxOf?_eq_some_iff.mp found).1)

variable {name : Name} {users : List Name}

theorem mem_removeUser_iff {user : Name} (distinct : users.Nodup) :
    user ∈ removeUser name users ↔ user ∈ users ∧ user ≠ name := by
  rw [(removeUser_perm name users).mem_iff, distinct.mem_erase_iff, and_comm]

theorem nodup_removeUser (distinct : users.Nodup) : (removeUser name users).Nodup :=
  (removeUser_perm name users).nodup_iff.mpr (distinct.erase name)

namespace PermissionCache

/-- The users that the cache lists for a role. -/
def usersOf (cache : PermissionCache) (role : Name) : List Name :=
  (cache.roleToUsersMap[role]?).getD []

/-- The ranges that the cache gives to a user. -/
def permissionsOf (cache : PermissionCache) (user : Name) : UserPermissions :=
  (cache.userPermissions[user]?).getD {}

theorem usersOf_pushUser {roles : List Name} (distinct : roles.Nodup) {cache : PermissionCache}
    {permissions : ExtTreeMap Name UserPermissions} :
    usersOf ⟨permissions, pushUser name roles cache.roleToUsersMap⟩ role =
      cache.usersOf role ++ if role ∈ roles then [name] else [] := by
  unfold usersOf pushUser
  split_ifs with held
  · rw [getElem?_foldl_alter_of_mem distinct held]
    rfl
  · rw [getElem?_foldl_alter_of_notMem held, append_nil]

end PermissionCache

/-! ## The invariant -/

/-- The cache agrees with the record of a user.  The user may hold the root role
without being listed for it, since the root role needs no record. -/
structure Agrees (backend : AuthStoreBackend) (cache : PermissionCache) (name : Name)
    (user : User) : Prop where
  sameName : user.name = name
  sorted : user.Sorted
  held : forall role, name ∈ cache.usersOf role -> role ∈ user.roles
  listed : forall role, role ∈ user.roles -> role ≠ rootRole -> name ∈ cache.usersOf role
  cached : rootRole ∉ user.roles -> (cache.permissionsOf name).Represents (backend.Grants user none)

/-- The cache agrees with what is stored under a name. -/
def AgreesAt (backend : AuthStoreBackend) (cache : PermissionCache) (name : Name) : Prop :=
  match backend.users[name]? with
  | some user => Agrees backend cache name user
  | none => (forall role, name ∉ cache.usersOf role) ∧ cache.userPermissions[name]? = none

/-- The cache reflects the records. -/
structure Reflects (backend : AuthStoreBackend) (cache : PermissionCache) : Prop where
  role : forall (name : Name) (role : Role), backend.roles[name]? = some role -> role.name = name
  distinct : forall role, (cache.usersOf role).Nodup
  agreesAt : forall name, AgreesAt backend cache name

variable {backend next : AuthStoreBackend} {cache nextCache : PermissionCache}

theorem AgreesAt.congr (agrees : AgreesAt backend cache name)
    (users : next.users[name]? = backend.users[name]?)
    (listed : ∀ role, name ∈ nextCache.usersOf role ↔ name ∈ cache.usersOf role)
    (permissions : nextCache.userPermissions[name]? = cache.userPermissions[name]?)
    (grants : ∀ user : User, backend.users[name]? = some user -> rootRole ∉ user.roles ->
      ∀ permission, backend.Grants user none permission ↔ next.Grants user none permission) :
    AgreesAt next nextCache name := by
  rw [AgreesAt] at agrees ⊢
  rw [users]
  cases found : backend.users[name]? with
  | none =>
    rw [found] at agrees
    exact ⟨fun role member => agrees.1 role ((listed role).mp member), permissions.trans agrees.2⟩
  | some user =>
    rw [found] at agrees
    refine ⟨agrees.sameName, agrees.sorted,
      fun role member => agrees.held role ((listed role).mp member),
      fun role held notRoot => (listed role).mpr (agrees.listed role held notRoot), ?_⟩
    intro notRoot
    rw [PermissionCache.permissionsOf, permissions]
    exact (agrees.cached notRoot).congr (grants user found notRoot)

/-- A user who loses a role is no longer listed for it. -/
theorem Agrees.loseRole (agrees : Agrees backend cache name user) {changed : User}
    (sameName : changed.name = user.name) (sorted : changed.Sorted)
    (roles : ∀ other, other ∈ changed.roles ↔ other ∈ user.roles ∧ other ≠ role)
    (listed : ∀ other, name ∈ nextCache.usersOf other ↔ name ∈ cache.usersOf other ∧ other ≠ role)
    (cached : (nextCache.permissionsOf name).Represents (next.Grants changed none)) :
    Agrees next nextCache name changed := by
  refine ⟨sameName.trans agrees.sameName, sorted, fun other => ?_, fun other => ?_, fun _ => cached⟩
  · rw [listed, roles]
    exact And.imp_left (agrees.held other)
  · rw [listed, roles]
    exact fun held notRoot => held.imp_left fun held => agrees.listed other held notRoot

variable {revision : Int}

namespace Reflects

variable (reflects : Reflects backend cache)
include reflects

theorem agrees (isUser : backend.users[name]? = some user) : Agrees backend cache name user := by
  have agrees := reflects.agreesAt name
  rwa [AgreesAt, isUser] at agrees

theorem unknown (missing : backend.users[name]? = none) :
    (∀ role, name ∉ cache.usersOf role) ∧ cache.userPermissions[name]? = none := by
  have agrees := reflects.agreesAt name
  rwa [AgreesAt, missing] at agrees

theorem exists_user (listed : name ∈ cache.usersOf role) :
    ∃ user, backend.users[name]? = some user ∧ role ∈ user.roles := by
  cases found : backend.users[name]? with
  | none => exact absurd listed ((reflects.unknown found).1 role)
  | some user => exact ⟨user, rfl, (reflects.agrees found).held role listed⟩

theorem userDelete (name : Name) :
    Reflects (backend.writeOps [.putAuthRevision revision, .deleteUser name])
      { userPermissions := cache.userPermissions.erase name
        roleToUsersMap := cache.roleToUsersMap.map fun _ users => removeUser name users } := by
  have users : ∀ other : Name,
      (backend.writeOps [.putAuthRevision revision, .deleteUser name]).users[other]? =
        if name = other then none else backend.users[other]? := fun other =>
    lookup_erase backend.users name other
  have usersOf : ∀ permissions role, usersOf
      ⟨permissions, cache.roleToUsersMap.map fun _ users => removeUser name users⟩ role =
        removeUser name (cache.usersOf role) := by
    intro permissions role
    simp only [usersOf, ExtTreeMap.getElem?_map]
    cases cache.roleToUsersMap[role]? <;> rfl
  refine ⟨reflects.role, fun role => ?_, fun other => ?_⟩
  · rw [usersOf]
    exact nodup_removeUser (reflects.distinct role)
  by_cases same : name = other
  · subst same
    rw [AgreesAt, users, if_pos rfl]
    refine ⟨fun role => ?_, by rw [lookup_erase, if_pos rfl]⟩
    simp [usersOf, mem_removeUser_iff (reflects.distinct role)]
  · refine (reflects.agreesAt other).congr (by rw [users, if_neg same]) (fun role => ?_)
      (by rw [lookup_erase, if_neg same]) fun _ _ _ _ => Iff.rfl
    simp [usersOf, mem_removeUser_iff (reflects.distinct role), Ne.symm same]

/-- A handler that changes the roles of one user keeps the cache exact if it
updates the entries of that user and no others. -/
theorem changeUser (changed : User) {next : PermissionCache}
    (agrees : Agrees backend next name changed) (distinct : ∀ role, (next.usersOf role).Nodup)
    (others : ∀ other : Name, other ≠ name ->
      (∀ role, other ∈ next.usersOf role ↔ other ∈ cache.usersOf role) ∧
        next.userPermissions[other]? = cache.userPermissions[other]?) :
    Reflects (backend.writeOps [.putAuthRevision revision, .putUser changed]) next := by
  have users : ∀ other : Name,
      (backend.writeOps [.putAuthRevision revision, .putUser changed]).users[other]? =
        if name = other then some changed else backend.users[other]? := by
    intro other
    rw [← agrees.sameName]
    exact lookup_insert backend.users changed.name other _
  refine ⟨reflects.role, distinct, fun other => ?_⟩
  by_cases same : name = other
  · subst same
    rw [AgreesAt, users, if_pos rfl]
    exact { agrees with }
  · obtain ⟨listed, permissions⟩ := others other (Ne.symm same)
    exact (reflects.agreesAt other).congr (by rw [users, if_neg same]) listed permissions
      fun _ _ _ _ => Iff.rfl

theorem userAdd (fresh : backend.users[name]? = none) :
    Reflects (backend.writeOps [.putAuthRevision revision, .putUser { name }]) cache := by
  refine reflects.changeUser { name } ⟨rfl, List.Pairwise.nil,
    fun role listed => absurd listed ((reflects.unknown fresh).1 role), by simp, fun _ => ?_⟩
    reflects.distinct (fun _ _ => ⟨fun _ => Iff.rfl, rfl⟩)
  rw [PermissionCache.permissionsOf, (reflects.unknown fresh).2]
  exact represents_empty.congr (by simp [AuthStoreBackend.Grants])

theorem userGrantRole {username roleName : Name}
    (found : backend.users[username]? = some user) (missing : user.searchRole roleName = .error idx)
    (known : roleName ≠ rootRole -> ∃ role, backend.getRole roleName = .ok role) :
    Reflects
      (backend.writeOps [.putAuthRevision revision,
        .putUser { user with roles := user.roles.insertIdx idx roleName }])
      (match backend.getRole roleName with
        | .error _ => cache
        | .ok role =>
          { userPermissions := cache.userPermissions.alter username fun entry =>
              some (role.keyPermission.foldl UserPermissions.insert (entry.getD {}))
            roleToUsersMap :=
              PermissionCache.pushUser username [roleName] cache.roleToUsersMap }) := by
  have agrees := reflects.agrees found
  obtain ⟨notHeld, stillSorted, roles⟩ := User.searchRole_error agrees.sorted missing
  have notListed : username ∉ cache.usersOf roleName := fun listed =>
    notHeld (agrees.held roleName listed)
  cases record : backend.getRole roleName with
  | error failure =>
    have isRoot : roleName = rootRole := by
      by_contra other
      obtain ⟨role, isRole⟩ := known other
      rw [isRole] at record
      cases record
    refine reflects.changeUser { user with roles := user.roles.insertIdx idx roleName }
      ⟨agrees.sameName, stillSorted,
      fun role listed => (roles role).mpr (.inr (agrees.held role listed)), ?_, ?_⟩
      reflects.distinct (fun _ _ => ⟨fun _ => Iff.rfl, rfl⟩)
    · intro role held notRoot
      rcases (roles role).mp held with rfl | held
      · exact absurd isRoot notRoot
      · exact agrees.listed role held notRoot
    · intro notRoot
      exact absurd ((roles rootRole).mpr (.inl isRoot.symm)) notRoot
  | ok role =>
    have isRole : backend.roles[roleName]? = some role := by
      unfold AuthStoreBackend.getRole at record
      split at record
      · next there => cases record; exact there
      · cases record
    have listed : ∀ permissions other holder, holder ∈ PermissionCache.usersOf
        ⟨permissions, PermissionCache.pushUser username [roleName] cache.roleToUsersMap⟩ other ↔
        holder ∈ cache.usersOf other ∨ other = roleName ∧ holder = username := by
      intro permissions other holder
      rw [usersOf_pushUser (nodup_singleton _), mem_append]
      simp
    refine reflects.changeUser { user with roles := user.roles.insertIdx idx roleName }
      ⟨agrees.sameName, stillSorted, fun other => ?_, fun other held notRoot => ?_, fun notRoot => ?_⟩
      (fun other => ?_) (fun other different => ⟨fun role => ?_,
        (lookup_alter _ _ _ _).trans (if_neg different.symm)⟩)
    · rw [listed, roles]
      rintro (old | ⟨same, -⟩)
      · exact .inr (agrees.held other old)
      · exact .inl same
    · rw [listed]
      rcases (roles other).mp held with same | held
      · exact .inr ⟨same, rfl⟩
      · exact .inl (agrees.listed other held notRoot)
    · have before := agrees.cached fun held => notRoot ((roles rootRole).mpr (.inr held))
      simp only [PermissionCache.permissionsOf, lookup_alter]
      refine (before.foldl_insert role.keyPermission).congr fun permission => ?_
      simp [AuthStoreBackend.Grants, roles, AuthStoreBackend.permissionsOf, isRole, or_comm]
    · rw [usersOf_pushUser (nodup_singleton _)]
      split
      · next same =>
        rw [mem_singleton.mp same, ← concat_eq_append]
        exact (reflects.distinct roleName).concat notListed
      · rw [append_nil]
        exact reflects.distinct other
    · rw [listed]
      simp [different]

theorem userRevokeRole (isUser : backend.users[name]? = some user)
    (found : user.searchRole role = .ok idx) :
    Reflects
      (backend.writeOps [.putAuthRevision revision,
        .putUser { user with roles := user.roles.eraseIdx idx }])
      { userPermissions := cache.userPermissions.insert name
          (backend.getUserPermissions { user with roles := user.roles.eraseIdx idx } none)
        roleToUsersMap := cache.roleToUsersMap.modify role (removeUser name) } := by
  have agrees := reflects.agrees isUser
  obtain ⟨-, roles⟩ := User.searchRole_ok agrees.sorted found
  have usersOf : ∀ permissions other, PermissionCache.usersOf
      ⟨permissions, cache.roleToUsersMap.modify role (removeUser name)⟩ other =
      if role = other then removeUser name (cache.usersOf other) else cache.usersOf other := by
    intro permissions other
    simp only [PermissionCache.usersOf, lookup_modify]
    split
    · next same =>
      subst same
      cases cache.roleToUsersMap[role]? <;> rfl
    · rfl
  have listed : ∀ permissions other holder, holder ∈ PermissionCache.usersOf
      ⟨permissions, cache.roleToUsersMap.modify role (removeUser name)⟩ other ↔
      holder ∈ cache.usersOf other ∧ (holder = name -> other ≠ role) := by
    intro permissions other holder
    rw [usersOf]
    split
    · next same => simp [mem_removeUser_iff (reflects.distinct other), same]
    · next different => simp [Ne.symm different]
  refine reflects.changeUser { user with roles := user.roles.eraseIdx idx }
    (agrees.loseRole rfl (agrees.sorted.eraseIdx idx) roles (fun other => ?_) ?_) (fun other => ?_)
    (fun other different => ⟨fun held => ?_,
      (lookup_insert _ _ _ _).trans (if_neg different.symm)⟩)
  · simp [listed]
  · simp only [PermissionCache.permissionsOf, lookup_insert]
    exact getUserPermissions_represents _ none
  · rw [usersOf]
    split
    · exact nodup_removeUser (reflects.distinct other)
    · exact reflects.distinct other
  · simp [listed, different]

/-! A handler that changes the record of a role leaves the users alone. -/

omit reflects in
theorem permissionsOf_putRole (backend : AuthStoreBackend) (changed : Role) (revision : Int)
    (role : Name) :
    (backend.writeOps [.putAuthRevision revision, .putRole changed]).permissionsOf role =
      if changed.name = role then changed.keyPermission else backend.permissionsOf role := by
  have record : (backend.writeOps [.putAuthRevision revision, .putRole changed]).roles[role]? =
      if changed.name = role then some changed else backend.roles[role]? :=
    lookup_insert backend.roles changed.name role _
  rw [AuthStoreBackend.permissionsOf, record]
  split
  · rfl
  · rfl

/-- The handler has to update the entries of the users that hold the role, and no
others. -/
theorem changeRole (changed : Role) {permissions : ExtTreeMap Name UserPermissions}
    (unlisted : ∀ other : Name, other ∉ cache.usersOf changed.name ->
      permissions[other]? = cache.userPermissions[other]?)
    (cached : ∀ (other : Name) (user : User), backend.users[other]? = some user ->
      changed.name ∈ user.roles -> other ∈ cache.usersOf changed.name -> rootRole ∉ user.roles ->
        (permissionsOf { cache with userPermissions := permissions } other).Represents
          ((backend.writeOps [.putAuthRevision revision, .putRole changed]).Grants user none)) :
    Reflects (backend.writeOps [.putAuthRevision revision, .putRole changed])
      { cache with userPermissions := permissions } := by
  set after := backend.writeOps [.putAuthRevision revision, .putRole changed]
  refine ⟨fun other role isRole => ?_, reflects.distinct, fun other => ?_⟩
  · have record : after.roles[other]? =
        if changed.name = other then some changed else backend.roles[other]? :=
      lookup_insert backend.roles changed.name other _
    rw [record] at isRole
    split at isRole
    · next same =>
      cases isRole
      exact same
    · exact reflects.role other role isRole
  by_cases listed : other ∈ cache.usersOf changed.name
  · obtain ⟨user, isUser, held⟩ := reflects.exists_user listed
    have agrees := reflects.agrees isUser
    have unchanged : after.users[other]? = some user := isUser
    rw [AgreesAt, unchanged]
    exact { agrees with cached := cached other user isUser held listed }
  refine (reflects.agreesAt other).congr rfl (fun _ => Iff.rfl) (unlisted other listed) ?_
  intro user isUser notRoot permission
  have same : ∀ role ∈ user.roles, after.permissionsOf role = backend.permissionsOf role := by
    intro role held
    rw [permissionsOf_putRole, if_neg]
    rintro rfl
    refine listed ((reflects.agrees isUser).listed _ held ?_)
    rintro isRoot
    exact notRoot (isRoot ▸ held)
  refine exists_congr fun role => and_congr_right fun held => ?_
  rw [same role held]

theorem roleAdd (fresh : backend.roles[name]? = none) :
    Reflects (backend.writeOps [.putAuthRevision revision, .putRole { name }]) cache := by
  refine reflects.changeRole { name } (fun _ _ => rfl) fun other user isUser _ _ notRoot => ?_
  refine ((reflects.agrees isUser).cached notRoot).congr fun permission => ?_
  have same : ∀ role,
      (backend.writeOps [.putAuthRevision revision, .putRole { name }]).permissionsOf role =
        backend.permissionsOf role := by
    intro role
    rw [permissionsOf_putRole]
    split
    · next isRole =>
      subst isRole
      simp [AuthStoreBackend.permissionsOf, fresh]
    · rfl
  simp only [AuthStoreBackend.Grants, same]

variable {keyPermission : List Permission}

theorem roleGrantPermission {role : Role}
    (isRole : backend.roles[name]? = some role) (permission : Permission)
    (added : ∀ user ∈ backend.getAllUsers, name ∈ user.roles -> ∀ access range,
      Gives keyPermission access range ↔ Gives role.keyPermission access range ∨
        permission.permType.allows access = true ∧ permission.range = range) :
    Reflects (backend.writeOps [.putAuthRevision revision, .putRole { role with keyPermission }])
      { cache with
        userPermissions := (cache.usersOf name).foldl
          (fun permissions user => permissions.alter user fun entry =>
            some ((entry.getD {}).insert permission))
          cache.userPermissions } := by
  obtain rfl := reflects.role name role isRole
  refine reflects.changeRole { role with keyPermission }
    (fun other notListed => getElem?_foldl_alter_of_notMem notListed) ?_
  intro other user isUser held listed notRoot access range
  have added := added user (mem_getAllUsers.mpr ⟨other, isUser⟩) held
  have before := (reflects.agrees isUser).cached notRoot
  simp only [PermissionCache.permissionsOf,
    getElem?_foldl_alter_of_mem (reflects.distinct role.name) listed]
  refine mem_ranges_insert.trans ?_
  rw [show ((cache.userPermissions[other]?).getD {}) = cache.permissionsOf other from rfl,
    before access range, grants_iff_gives, grants_iff_gives]
  have own : backend.permissionsOf role.name = role.keyPermission := by
    simp [AuthStoreBackend.permissionsOf, isRole]
  have changed := permissionsOf_putRole backend { role with keyPermission } revision
  constructor
  · rintro (⟨holder, isHolder, gives⟩ | new)
    · refine ⟨holder, isHolder, ?_⟩
      rw [changed]
      split
      · next same =>
        rw [← same, own] at gives
        exact (added access range).mpr (.inl gives)
      · exact gives
    · refine ⟨role.name, held, ?_⟩
      rw [changed, if_pos rfl]
      exact (added access range).mpr (.inr new)
  · rintro ⟨holder, isHolder, gives⟩
    rw [changed] at gives
    split at gives
    · exact ((added access range).mp gives).imp_left fun old => ⟨role.name, held, by rwa [own]⟩
    · exact .inl ⟨holder, isHolder, gives⟩

theorem roleRevokePermission {role : Role} (isRole : backend.roles[name]? = some role)
    (rest : ∀ user ∈ backend.getAllUsers, name ∈ user.roles -> keyPermission = []) :
    Reflects (backend.writeOps [.putAuthRevision revision, .putRole { role with keyPermission }])
      { cache with
        userPermissions := cache.userPermissions.insertMany
          (((cache.usersOf name).filterMap fun user => backend.users[user]?).map fun user =>
            (user.name, backend.getUserPermissions user (some name))) } := by
  obtain rfl := reflects.role name role isRole
  have written : ∀ other : Name, (cache.userPermissions.insertMany
      (((cache.usersOf role.name).filterMap fun user => backend.users[user]?).map fun user =>
        (user.name, backend.getUserPermissions user (some role.name))))[other]? =
      Option.or ((if other ∈ cache.usersOf role.name then backend.users[other]? else none).map
        fun user => backend.getUserPermissions user (some role.name))
        cache.userPermissions[other]? := by
    refine getElem?_insertMany_of_function _ (fun other user => ?_) _ _
    simp only [mem_filterMap, Option.ite_none_right_eq_some]
    constructor
    · rintro ⟨⟨listed, isListed, isUser⟩, rfl⟩
      rw [(reflects.agrees isUser).sameName]
      exact ⟨isListed, isUser⟩
    · rintro ⟨isListed, isUser⟩
      exact ⟨⟨other, isListed, isUser⟩, (reflects.agrees isUser).sameName⟩
  refine reflects.changeRole { role with keyPermission } (fun other notListed => ?_) ?_
  · rw [written, if_neg notListed, Option.map_none, Option.none_or]
  intro other user isUser held listed notRoot
  have none := rest user (mem_getAllUsers.mpr ⟨other, isUser⟩) held
  simp only [PermissionCache.permissionsOf, written, if_pos listed, isUser]
  refine (getUserPermissions_represents user (some role.name)).congr
    fun permission => exists_congr fun holder => and_congr_right fun _ => ?_
  rw [permissionsOf_putRole, none]
  split
  · next same =>
    obtain rfl : role.name = holder := same
    simp
  · next different =>
    have apart : role.name ≠ holder := different
    simp [apart]

omit reflects in
/-- Deleting a role, and writing the records of several users. -/
theorem writeOps_deleteRole (revision : Int) (role : Name) (users : List User) :
    backend.writeOps (.putAuthRevision revision :: .deleteRole role :: users.map .putUser) =
      { revision, roles := backend.roles.erase role
        users := backend.users.insertMany (users.map fun user => (user.name, user)) } := by
  have loop : ∀ backend : AuthStoreBackend, backend.writeOps (users.map .putUser) =
      { backend with
        users := backend.users.insertMany (users.map fun user => (user.name, user)) } := by
    induction users with
    | nil => simp [writeOps]
    | cons user users ih =>
      intro backend
      rw [map_cons, writeOps, foldl_cons, ← writeOps,
        ih, map_cons, ExtTreeMap.insertMany_cons]
      rfl
  exact loop { backend with revision, roles := backend.roles.erase role }

omit reflects in
/-- The grants of whoever does not hold the deleted role are what they were. -/
theorem grants_erase (notHeld : role ∉ user.roles) {users : ExtTreeMap Name User}
    (permission : Permission) :
    backend.Grants user none permission ↔
      AuthStoreBackend.Grants ⟨users, backend.roles.erase role, revision⟩ user none permission := by
  refine exists_congr fun holder => and_congr_right fun isHolder => ?_
  simp only [AuthStoreBackend.permissionsOf, lookup_erase,
    if_neg fun same : role = holder => notHeld (same ▸ isHolder)]

/-- What a loop over the records that deleting a role changes writes under a name. -/
theorem lookup_withoutRole (role : Name) {Value : Type}
    (map : ExtTreeMap Name Value) (value : User -> Value) (name : Name) :
    (map.insertMany ((backend.getAllUsers.filterMap (withoutRole role)).map
      fun user => (user.name, value user)))[name]? =
      (((backend.users[name]?).bind (withoutRole role)).map value).or map[name]? := by
  refine getElem?_insertMany_of_function (fun name => (backend.users[name]?).bind (withoutRole role))
    (fun name changed => ?_) map value name
  simp only [mem_filterMap, mem_getAllUsers, Option.bind_eq_some_iff]
  constructor
  · rintro ⟨⟨user, ⟨other, isUser⟩, without⟩, rfl⟩
    have agrees := reflects.agrees isUser
    rw [(withoutRole_eq_some agrees.sorted without).2.1, agrees.sameName]
    exact ⟨user, isUser, without⟩
  · rintro ⟨user, isUser, without⟩
    have agrees := reflects.agrees isUser
    exact ⟨⟨user, ⟨name, isUser⟩, without⟩,
      (withoutRole_eq_some agrees.sorted without).2.1.trans agrees.sameName⟩

theorem roleDelete (role : Name) :
    Reflects
      (backend.writeOps (.putAuthRevision revision :: .deleteRole role ::
        (backend.getAllUsers.filterMap (withoutRole role)).map .putUser))
      { userPermissions := cache.userPermissions.insertMany
          ((backend.getAllUsers.filterMap (withoutRole role)).map fun user =>
            (user.name, backend.getUserPermissions user none))
        roleToUsersMap := cache.roleToUsersMap.erase role } := by
  have usersOf : ∀ permissions other, PermissionCache.usersOf
      ⟨permissions, cache.roleToUsersMap.erase role⟩ other =
      if role = other then [] else cache.usersOf other := by
    intro permissions other
    simp only [PermissionCache.usersOf, lookup_erase]
    split
    · rfl
    · rfl
  rw [writeOps_deleteRole]
  refine ⟨fun name record isRecord => ?_, fun other => ?_, fun name => ?_⟩
  · rw [lookup_erase] at isRecord
    split at isRecord
    · cases isRecord
    · exact reflects.role name record isRecord
  · rw [usersOf]
    split
    · exact nodup_nil
    · exact reflects.distinct other
  have users := reflects.lookup_withoutRole role backend.users (fun user => user) name
  have permissions := reflects.lookup_withoutRole role cache.userPermissions
    (fun user => backend.getUserPermissions user none) name
  by_cases holds : ∃ user, backend.users[name]? = some user ∧ role ∈ user.roles
  · obtain ⟨user, isUser, held⟩ := holds
    have agrees := reflects.agrees isUser
    obtain ⟨changed, without⟩ := exists_withoutRole agrees.sorted held
    obtain ⟨-, sameName, sorted, roles⟩ := withoutRole_eq_some agrees.sorted without
    rw [isUser, Option.bind_some, without] at users permissions
    rw [AgreesAt, users]
    refine agrees.loseRole sameName sorted roles (fun other => ?_) ?_
    · rw [usersOf]
      split
      · next same => simp [same]
      · next different => simp [Ne.symm different]
    · simp only [PermissionCache.permissionsOf, permissions]
      exact (getUserPermissions_represents changed none).congr
        (grants_erase fun held => ((roles role).mp held).2 rfl)
  have notListed : name ∉ cache.usersOf role := fun listed => holds (reflects.exists_user listed)
  have unchanged : (backend.users[name]?).bind (withoutRole role) = none := by
    refine Option.bind_eq_none_iff.mpr fun user isUser => ?_
    by_contra without
    obtain ⟨changed, without⟩ := Option.ne_none_iff_exists'.mp without
    exact holds ⟨user, isUser, (withoutRole_eq_some (reflects.agrees isUser).sorted without).1⟩
  rw [unchanged, Option.map_none, Option.none_or] at users permissions
  refine (reflects.agreesAt name).congr users (fun other => ?_) permissions
    fun user isUser _ => grants_erase fun held => holds ⟨user, isUser, held⟩
  rw [usersOf]
  split
  · next same => simp [← same, notListed]
  · exact Iff.rfl

end Reflects

/-! ## Enabling the store -/

/-- Records are stored under their names, and the roles of a user are sorted. -/
structure AuthStoreBackend.WellFormed (backend : AuthStoreBackend) : Prop where
  user : forall (name : Name) (user : User), backend.users[name]? = some user ->
    user.name = name ∧ user.Sorted
  role : forall (name : Name) (role : Role), backend.roles[name]? = some role -> role.name = name

/-- The store after it has been enabled. -/
def AuthStore.enabled (backend : AuthStoreBackend) : AuthStore where
  backend
  permissionCache := createPermissionCache backend

theorem User.Sorted.nodup (sorted : user.Sorted) : user.roles.Nodup := by
  refine List.Pairwise.imp ?_ sorted
  rintro earlier later less rfl
  simp at less

namespace AuthStoreBackend.WellFormed

theorem distinct_names (wellFormed : backend.WellFormed) :
    (backend.getAllUsers.map User.name).Nodup := by
  have keys : backend.getAllUsers.map User.name = backend.users.toList.map Prod.fst := by
    rw [getAllUsers, map_map]
    refine map_congr_left ?_
    rintro ⟨name, user⟩ member
    exact (wellFormed.user name user
      (ExtTreeMap.mem_toList_iff_getElem?_eq_some.mp member)).1
  rw [keys]
  refine pairwise_map.mpr (backend.users.distinct_keys_toList.imp ?_)
  intro earlier later different same
  exact different (by simp [same])

/-- The loop that builds the cache. -/
theorem createPermissionCache_loop (users : List User) (sorted : ∀ user ∈ users,
    user.Sorted) (cache : PermissionCache) :
    let final := users.foldl
      (fun cache user =>
        { roleToUsersMap := pushUser user.name user.roles cache.roleToUsersMap
          userPermissions :=
            cache.userPermissions.insert user.name (backend.getUserPermissions user none) })
      cache
    final.userPermissions = cache.userPermissions.insertMany
        (users.map fun user => (user.name, backend.getUserPermissions user none)) ∧
      ∀ role, final.usersOf role = cache.usersOf role ++
        (users.filter fun user => role ∈ user.roles).map User.name := by
  induction users generalizing cache with
  | nil => simp
  | cons user users ih =>
    obtain ⟨permissions, listed⟩ := ih (fun other member =>
      sorted other (mem_cons_of_mem _ member))
      { roleToUsersMap := pushUser user.name user.roles cache.roleToUsersMap
        userPermissions :=
          cache.userPermissions.insert user.name (backend.getUserPermissions user none) }
    constructor
    · rw [foldl_cons, permissions, map_cons, ExtTreeMap.insertMany_cons]
    intro role
    rw [foldl_cons, listed, usersOf_pushUser (sorted user (by simp)).nodup]
    by_cases held : role ∈ user.roles
    · simp [held]
    · simp [held]

theorem reflects (wellFormed : backend.WellFormed) :
    Reflects backend (createPermissionCache backend) := by
  have sorted : ∀ user ∈ backend.getAllUsers, user.Sorted := by
    intro user member
    obtain ⟨name, isUser⟩ := mem_getAllUsers.mp member
    exact (wellFormed.user name user isUser).2
  obtain ⟨permissions, usersOf⟩ := createPermissionCache_loop backend.getAllUsers sorted {}
  rw [← createPermissionCache] at permissions
  have isList : ∀ role, (createPermissionCache backend).usersOf role =
      (backend.getAllUsers.filter fun user => role ∈ user.roles).map User.name := by
    intro role
    rw [createPermissionCache, usersOf, PermissionCache.usersOf, ExtTreeMap.getElem?_empty]
    rfl
  have listed : ∀ role name, name ∈ (createPermissionCache backend).usersOf role ↔
      ∃ user, backend.users[name]? = some user ∧ role ∈ user.roles := by
    intro role name
    simp only [isList, mem_map, mem_filter, decide_eq_true_eq, mem_getAllUsers]
    constructor
    · rintro ⟨user, ⟨⟨other, isUser⟩, held⟩, rfl⟩
      rw [(wellFormed.user other user isUser).1]
      exact ⟨user, isUser, held⟩
    · rintro ⟨user, isUser, held⟩
      exact ⟨user, ⟨⟨name, isUser⟩, held⟩, (wellFormed.user name user isUser).1⟩
  have cached : ∀ name : Name, (createPermissionCache backend).userPermissions[name]? =
      (backend.users[name]?).map fun user => backend.getUserPermissions user none := by
    intro name
    rw [permissions, getElem?_insertMany_of_function (fun name => backend.users[name]?),
      ExtTreeMap.getElem?_empty, Option.or_none]
    intro name user
    rw [mem_getAllUsers]
    constructor
    · rintro ⟨⟨other, isUser⟩, rfl⟩
      rw [(wellFormed.user other user isUser).1]
      exact isUser
    · exact fun isUser => ⟨⟨name, isUser⟩, (wellFormed.user name user isUser).1⟩
  refine ⟨wellFormed.role, fun role => ?_, fun name => ?_⟩
  · rw [isList]
    exact wellFormed.distinct_names.sublist (filter_sublist.map User.name)
  rw [AgreesAt]
  split
  · next user isUser =>
    obtain ⟨sameName, sorted⟩ := wellFormed.user name user isUser
    refine ⟨sameName, sorted, by simp [listed, isUser], by simp_all, fun _ => ?_⟩
    simp only [PermissionCache.permissionsOf, cached, isUser]
    exact getUserPermissions_represents user none
  · next missing => simp [listed, cached, missing]

end AuthStoreBackend.WellFormed

/-! ## Runs -/

/-- Whoever has the first kind of access has the second. -/
def PermType.Within (narrow wide : PermType) : Prop := wide = .readwrite ∨ narrow = wide
deriving Decidable

theorem PermType.Within.allows {narrow wide : PermType} (within : narrow.Within wide)
    (allowed : narrow.allows access = true) : wide.allows access = true := by
  rcases within with rfl | rfl
  · rfl
  · exact allowed

theorem Permission.order_eq_iff {key rangeEnd : Key} :
    permission.order key rangeEnd = .eq ↔ permission.key = key ∧ permission.rangeEnd = rangeEnd := by
  unfold Permission.order
  cases order : compare permission.key key with
  | eq => simp [LawfulEqOrd.eq_of_compare order]
  | lt | gt =>
    simp only [reduceCtorEq, false_iff]
    rintro ⟨rfl, -⟩
    simp at order

namespace AuthStore

variable (store : AuthStore)

/-- Nobody holds the role. -/
def Unheld (role : Name) : Prop := forall user, user ∈ store.backend.getAllUsers -> role ∉ user.roles
deriving Decidable

/-- The requests that the cache follows.  A grant does not take away access to a
range that the role has, a revocation leaves the role without permissions, unless
nobody holds the role, and what is added did not exist. -/
def Careful : AuthRequest -> Prop
  | .userAdd name => store.backend.users[name]? = none
  | .roleAdd name => store.backend.roles[name]? = none
  | .roleGrantPermission name (some permission) =>
    store.Unheld name ∨ forall granted, granted ∈ store.backend.permissionsOf name ->
      granted.key = permission.key ∧ granted.rangeEnd = permission.rangeEnd ->
        granted.permType.Within permission.permType
  | .roleRevokePermission role _ _ =>
    store.Unheld role ∨ (store.backend.permissionsOf role).length ≤ 1
  | _ => True

instance (store : AuthStore) : (request : AuthRequest) -> Decidable (store.Careful request)
  | .userAdd name => inferInstanceAs (Decidable (store.backend.users[name]? = none))
  | .roleAdd name => inferInstanceAs (Decidable (store.backend.roles[name]? = none))
  | .roleGrantPermission name (some permission) =>
    inferInstanceAs (Decidable (store.Unheld name ∨
      forall granted, granted ∈ store.backend.permissionsOf name ->
        granted.key = permission.key ∧ granted.rangeEnd = permission.rangeEnd ->
          granted.permType.Within permission.permType))
  | .roleRevokePermission role _ _ => inferInstanceAs
    (Decidable (store.Unheld role ∨ (store.backend.permissionsOf role).length ≤ 1))
  | .userDelete _ => inferInstanceAs (Decidable True)
  | .userGrantRole _ _ => inferInstanceAs (Decidable True)
  | .userRevokeRole _ _ => inferInstanceAs (Decidable True)
  | .roleDelete _ => inferInstanceAs (Decidable True)
  | .roleGrantPermission _ none => inferInstanceAs (Decidable True)

/-- A request is synced and committed before the next one. -/
def step (action : AuthRequest × Int) : Option AuthStore :=
  some (store.apply action.1 action.2)

def carefulStep (action : AuthRequest × Int) : Prop := store.Careful action.1
deriving Decidable

theorem getUser_eq_ok : backend.getUser name = .ok user ↔ backend.users[name]? = some user := by
  unfold getUser
  cases backend.users[name]? <;> simp

theorem getRole_eq_ok {role : Role} :
    backend.getRole name = .ok role ↔ backend.roles[name]? = some role := by
  unfold getRole
  cases backend.roles[name]? <;> simp

/-- Replacing or inserting the permission adds its access to the role. -/
theorem keyPermission_added {permissions : List Permission}
    (wider : ∀ granted ∈ permissions,
      granted.key = permission.key ∧ granted.rangeEnd = permission.rangeEnd ->
        granted.permType.Within permission.permType) (access : Access) (range : KeyRange) :
    Gives
        (match BinarySearch.binarySearchBy
            (Permission.order permission.key permission.rangeEnd) permissions with
          | .ok idx => permissions.modify idx fun granted =>
            { granted with permType := permission.permType }
          | .error idx => permissions.insertIdx idx permission) access range ↔
      Gives permissions access range ∨
        permission.permType.allows access = true ∧ permission.range = range := by
  split
  · next idx found =>
    obtain ⟨replaced, there, same⟩ := exists_of_binarySearchBy_ok found
    obtain ⟨sameKey, sameEnd⟩ := Permission.order_eq_iff.mp same
    have wide := wider replaced (mem_of_getElem? there) ⟨sameKey, sameEnd⟩
    have sameRange : replaced.range = permission.range := by
      simp [Permission.range, sameKey, sameEnd]
    have new : { replaced with permType := permission.permType } = permission := by
      cases permission
      simp_all
    obtain ⟨left, old, right, split, place, modified⟩ := exists_of_modify
      (fun granted : Permission => { granted with permType := permission.permType })
      (List.getElem?_eq_some_iff.mp there).1
    obtain rfl : old = replaced := by simpa [split, ← place] using there
    rw [modified, new, split]
    simp only [Gives, mem_append, mem_cons]
    constructor
    · rintro ⟨granted, member | rfl | member, both⟩
      · exact .inl ⟨granted, .inl member, both⟩
      · exact .inr both
      · exact .inl ⟨granted, .inr (.inr member), both⟩
    · rintro (⟨granted, member | rfl | member, allowed, isRange⟩ | both)
      · exact ⟨granted, .inl member, allowed, isRange⟩
      · exact ⟨permission, .inr (.inl rfl), wide.allows allowed, sameRange.symm.trans isRange⟩
      · exact ⟨granted, .inr (.inr member), allowed, isRange⟩
      · exact ⟨permission, .inr (.inl rfl), both⟩
  · next idx missing =>
    simp only [Gives, mem_insertIdx (le_length_of_binarySearchBy_error missing)]
    constructor
    · rintro ⟨granted, rfl | member, both⟩
      · exact .inr both
      · exact .inl ⟨granted, member, both⟩
    · rintro (⟨granted, member, both⟩ | both)
      · exact ⟨granted, .inr member, both⟩
      · exact ⟨permission, .inl rfl, both⟩

variable {store : AuthStore}

/-- Each request keeps the cache exact if it meets the condition. -/
theorem reflects_afterSync {request : AuthRequest} {ops : List AuthWriteOp}
    (reflects : Reflects store.backend store.permissionCache) (careful : store.Careful request)
    (synced : store.afterSync revision request = .ok (cache, ops)) :
    Reflects (store.backend.writeOps ops) cache := by
  cases request with
  | userAdd name =>
    cases synced
    exact reflects.userAdd careful
  | userDelete name =>
    cases synced
    exact reflects.userDelete name
  | userGrantRole username roleName =>
    obtain ⟨user, isUser, synced⟩ := bind_eq_ok.mp synced
    simp only at synced
    split at synced
    · cases synced
    next known =>
    split at synced
    · cases synced
    next idx missing =>
    cases synced
    refine reflects.userGrantRole (getUser_eq_ok.mp isUser) missing ?_
    intro notRoot
    cases record : store.backend.getRole roleName with
    | ok role => exact ⟨role, rfl⟩
    | error failure =>
      exact absurd ⟨notRoot, by simp [record, Except.toBool]⟩ known
  | userRevokeRole name role =>
    obtain ⟨user, isUser, synced⟩ := bind_eq_ok.mp synced
    split at synced
    · cases synced
    · next idx found =>
      cases synced
      exact reflects.userRevokeRole (getUser_eq_ok.mp isUser) found
  | roleAdd name =>
    cases synced
    exact reflects.roleAdd careful
  | roleDelete role =>
    cases synced
    exact reflects.roleDelete role
  | roleGrantPermission name perm =>
    obtain ⟨role, isRole, synced⟩ := bind_eq_ok.mp synced
    cases perm with
    | none => cases synced
    | some permission =>
      cases synced
      have record := getRole_eq_ok.mp isRole
      refine reflects.roleGrantPermission record permission (fun user isUser held => ?_)
      have wider := careful.resolve_left fun unheld => unheld user isUser held
      refine keyPermission_added fun granted member => wider granted ?_
      simpa [AuthStoreBackend.permissionsOf, record] using member
  | roleRevokePermission role key rangeEnd =>
    obtain ⟨record, isRecord, synced⟩ := bind_eq_ok.mp synced
    have isRole := getRole_eq_ok.mp isRecord
    split at synced
    · cases synced
    next idx found =>
    cases synced
    refine reflects.roleRevokePermission isRole (fun user isUser held => ?_)
    have few := careful.resolve_left fun unheld => unheld user isUser held
    obtain ⟨removed, there, _⟩ := exists_of_binarySearchBy_ok found
    have inside := (List.getElem?_eq_some_iff.mp there).1
    simp only [AuthStoreBackend.permissionsOf, isRole, Option.elim_some] at few
    refine length_eq_zero_iff.mp ?_
    rw [length_eraseIdx_of_lt inside]
    omega

theorem reflects_run (wellFormed : backend.WellFormed) {actions : List (AuthRequest × Int)}
    (run : Run step carefulStep (enabled backend) actions store) :
    Reflects store.backend store.permissionCache := by
  refine run.invariant (fun store => Reflects store.backend store.permissionCache)
    wellFormed.reflects ?_
  rintro store ⟨request, revision⟩ next reflects careful taken
  cases taken
  unfold apply
  split
  · exact reflects
  · next cache ops synced => exact reflects_afterSync reflects careful synced

/-- In a run of careful requests the cache gives each user exactly what the
stored roles give. -/
theorem checkOpPermission_exact (backend : AuthStoreBackend) (wellFormed : backend.WellFormed)
    (actions : List (AuthRequest × Int)) (store : AuthStore)
    (run : Run step carefulStep (enabled backend) actions store)
    (name : Name) (user : User) (isUser : store.backend.users[name]? = some user)
    (notRoot : user.hasRole rootRole = false) (access : Access) (key rangeEnd : Key)
    (nonempty : Exists fun candidate => (KeyRange.new key rangeEnd).containsKey candidate = true) :
    store.checkOpPermission name key rangeEnd access = .ok () ↔
      store.backend.Permits user access (KeyRange.new key rangeEnd) := by
  have reflects := reflects_run wellFormed run
  have agrees := reflects.agrees isUser
  have cached := agrees.cached fun held => by
    simp [(User.hasRole_iff agrees.sorted).mpr held] at notRoot
  have checked : store.checkOpPermission name key rangeEnd access = .ok () ↔
      ((store.permissionCache.permissionsOf name).ranges access).containsRange
        (new key rangeEnd) = true := by
    simp only [checkOpPermission, getUser_eq_ok.mpr isUser, Except.bind, notRoot,
      Bool.false_eq_true, ite_false, PermissionCache.permissionsOf]
    cases entry : store.permissionCache.userPermissions[name]? with
    | none =>
      -- Nothing is contained in the empty union, except a range without keys.
      obtain ⟨candidate, inside⟩ := nonempty
      simp only [reduceCtorEq, false_iff, MergedRange.containsRange_iff]
      intro covered
      obtain ⟨part, member, _⟩ := covered candidate inside
      cases access <;> cases member
    | some permissions =>
      cases access <;> simp [UserPermissions.ranges]
  rw [checked, MergedRange.containsRange_iff]
  refine forall_congr' fun candidate => imp_congr_right fun _ => ?_
  constructor
  · rintro ⟨part, member, inside⟩
    obtain ⟨permission, ⟨roleName, held, -, stored⟩, allowed, rfl⟩ := (cached access part).mp member
    exact ⟨roleName, held, permission, stored, allowed, inside⟩
  · rintro ⟨roleName, held, permission, stored, allowed, inside⟩
    exact ⟨permission.range, (cached access _).mpr
      ⟨permission, ⟨roleName, held, by simp, stored⟩, allowed, rfl⟩, inside⟩

/-- One user, who holds one role with access to two keys. -/
def oneUser : AuthStoreBackend where
  users := ExtTreeMap.insert ∅ [1] { name := [1], roles := [[2]] }
  roles := ExtTreeMap.insert ∅ [2] { name := [2], keyPermission :=
    [{ permType := .readwrite, key := [5] }, { permType := .readwrite, key := [6] }] }

theorem oneUser_wellFormed : oneUser.WellFormed := by
  constructor
  · intro name user isUser
    rw [oneUser, lookup_insert] at isUser
    split at isUser
    · next same =>
      cases isUser
      exact ⟨same, pairwise_singleton ..⟩
    · simp at isUser
  intro name role isRole
  rw [oneUser, lookup_insert] at isRole
  split at isRole
  · next same =>
    cases isRole
    exact same
  · simp at isRole

theorem checkOpPermission_exact_new_role : Exists fun store =>
    Run step carefulStep (enabled oneUser)
      [(.roleAdd [3], 2), (.roleGrantPermission [3] (some { permType := .read, key := [7] }), 3),
        (.userGrantRole [1] [3], 4)] store ∧
      (store.checkOpPermission [1] [7] [] .read = .ok () ↔
        store.backend.Permits { name := [1], roles := [[2], [3]] } .read (KeyRange.new [7] [])) := by
  refine exists_run_of (fun store => store.backend.users[([1] : Name)]? =
    some { name := [1], roles := [[2], [3]] }) (by decide +kernel) fun store run isUser => ?_
  exact checkOpPermission_exact oneUser oneUser_wellFormed _ store run [1] _ isUser
    (by decide +kernel) .read [7] [] ⟨[7], by decide⟩

/-- A grant that narrows the access to a key leaves the old access in the cache,
and revoking one permission of a role takes the others from the cache, too. -/
theorem checkOpPermission_not_exact : Exists fun narrowed => Exists fun revoked =>
    Run step anyStep (enabled oneUser)
      [(.roleGrantPermission [2] (some { permType := .read, key := [5] }), 2)] narrowed ∧
    narrowed.backend.users[([1] : Name)]? = some { name := [1], roles := [[2]] } ∧
    narrowed.checkOpPermission [1] [5] [] .write = .ok () ∧
    ¬ narrowed.backend.Permits { name := [1], roles := [[2]] } .write (KeyRange.new [5] []) ∧
    Run step anyStep (enabled oneUser)
      [(.roleRevokePermission [2] [5] [], 2)] revoked ∧
    revoked.backend.users[([1] : Name)]? = some { name := [1], roles := [[2]] } ∧
    revoked.checkOpPermission [1] [6] [] .read = .error .permissionDenied ∧
    revoked.backend.Permits { name := [1], roles := [[2]] } .read (KeyRange.new [6] []) :=
  ⟨_, _, run_of_execute rfl, by decide +kernel, by decide +kernel, by decide +kernel,
    run_of_execute rfl, by decide +kernel, by decide +kernel, by decide +kernel⟩

end AuthStore

end Rk8s.Xline
