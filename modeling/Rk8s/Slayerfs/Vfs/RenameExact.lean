import Rk8s.Slayerfs.Vfs.RenameTree

namespace Rk8s.Slayerfs

open Option DatabaseMetaStore MetaClient

/-!
# When a rename is all or nothing

A rename that fails should leave every entry where it was, and one that succeeds
should move one entry and replace no more than the destination.  This is not so
when both paths name the same entry: the destination is removed first, and then
the client finds that nothing is to be done.  It is not so either when a path runs
through the entry that moves: the check for a directory that moves below itself
compares the texts of the paths, and a symbolic link hides what it looks for.

A rename does what it should if both directories are found without passing the
source or the destination.
-/

namespace VFS

/-! ## The property -/

/-- Before the call `old` leads where `new` leads after it, and `old` leads nowhere any
more, unless the paths are equal or led to the same inode. -/
def Leads (before after : Tables) (old new : List String) : Prop :=
  Exists fun ino =>
    resolvePath before old = .ok ino ∧ resolvePath after new = .ok ino ∧
      ((forall found, resolvePath after old ≠ .ok found) ∨ old = new ∨
        resolvePath before new = .ok ino)

/-- What a rename should do: nothing if it fails, and else move one entry. -/
def Exact (before : Tables) (oldText newText : String)
    (outcome : Except VfsError Unit × Tables) : Prop :=
  let old := components oldText
  let new := components newText
  match outcome.1 with
  | .error _ => forall parent name, outcome.2.lookup parent name = before.lookup parent name
  | .ok () =>
    Leads before outcome.2 old new ∧
      Exists fun oldParent => Exists fun newParent =>
        resolveParentInode before (splitDirFile old).1 = .ok oldParent ∧
        resolveParentInode before (splitDirFile new).1 = .ok newParent ∧
        Carried before outcome.2 (oldParent, (splitDirFile old).2)
          (newParent, (splitDirFile new).2)

/-! ## The condition -/

/-- Both directories are there, the checks pass, and `dest` is at the destination. -/
structure Accepted (tables : Tables) (old new : List String) (oldParent newParent : Int)
    (kind : FileType) (dest : Option (Int × FileType)) : Prop where
  oldDir : resolveParentInode tables (splitDirFile old).1 = .ok oldParent
  newDir : resolveParentInode tables (splitDirFile new).1 = .ok newParent
  valid : validateRenameOperation tables old new oldParent (splitDirFile old).2 newParent
    (splitDirFile new).2 = .ok kind
  found : lookupPath tables new = .ok dest

/-- The destination may be replaced: it is the entry in the new directory, both are
directories or neither is, and a directory is empty. -/
structure Replaceable (tables : Tables) (kind : FileType) (target : Key) (ino : Int)
    (destKind : FileType) : Prop where
  entry : tables.lookup target.1 target.2 = some ino
  kinds : kind = .dir ↔ destKind = .dir
  empty : destKind = .dir -> tables.readdir ino = .ok []

variable (tables : Tables)

/-- Source and destination are different entries, and both directories are found
without them.  The new name is no dot, since behind a link dots are text. -/
structure Apart (old new : List String) (source target : Key) : Prop where
  different : source ≠ target
  oldDir : resolvePath (without tables source target) (splitDirFile old).1 = .ok source.1
  newDir : resolvePath (without tables source target) (splitDirFile new).1 = .ok target.1
  name : target.2 ≠ "." ∧ target.2 ≠ ".."

/-- Whenever a call passes the checks and what is at the destination may be replaced,
the two entries are apart. -/
def Safe (oldText newText : String) : Prop :=
  let old := components oldText
  let new := components newText
  forall oldParent newParent kind dest,
    Accepted tables old new oldParent newParent kind dest ->
    validateEntryName (splitDirFile new).2 = true ->
    (forall ino destKind, dest = some (ino, destKind) ->
      Replaceable tables kind (newParent, (splitDirFile new).2) ino destKind) ->
    Apart tables old new (oldParent, (splitDirFile old).2) (newParent, (splitDirFile new).2)

/-! ## The call as a sequence of steps -/

/-- What follows once the destination is out of the way: in general the new directory is
looked for again, and made if it is not there. -/
def moveInto (oldDir newDir : List String) (source target : Key) : Except VfsError Unit × Tables :=
  match if oldDir = newDir then (.ok target.1, tables) else mkdirP tables newDir with
  | (.error error, tables) => (.error error, tables)
  | (.ok newDirIno, tables) =>
    ofMeta (MetaClient.rename tables source.1 source.2 newDirIno target.2)

/-! ## What the checks have found out -/

variable {tables : Tables} {parent : Int}

theorem resolvePath_of_parent (wellFormed : WellFormed tables) {dir : List String}
    (resolved : resolveParentInode tables dir = .ok parent) :
    resolvePath tables dir = .ok parent ∧ tables.stat parent = some .dir := by
  unfold resolveParentInode at resolved
  split at resolved
  · rename_i empty
    cases resolved
    exact ⟨by rw [resolvePath, if_pos empty], wellFormed.root⟩
  split at resolved
  · cases resolved
  · cases resolved
  rename_i ino kind looked
  split at resolved
  · rename_i directory
    cases resolved
    rw [directory] at looked
    exact resolvePath_of_lookupPath looked
  · cases resolved

theorem eq_append_of_name {path : List String} (nonempty : (splitDirFile path).2 ≠ "") :
    path = (splitDirFile path).1 ++ [(splitDirFile path).2] := by
  cases last : path.getLast? with
  | none =>
    rw [splitDirFile, last] at nonempty
    exact absurd rfl nonempty
  | some name =>
    have split := List.dropLast_append_getLast? name (mem_def.mpr last)
    rw [splitDirFile, last]
    exact split.symm

variable {ino : Int} {old new : List String} {oldParent newParent : Int} {kind : FileType}
  {dest : Option (Int × FileType)}

namespace Accepted

variable (accepted : Accepted tables old new oldParent newParent kind dest)
include accepted

theorem source :
    (∃ row, tables.content.lookup (oldParent, (splitDirFile old).2) = some row) ∧
      (splitDirFile new).2 ≠ "" := by
  have valid := accepted.valid
  unfold validateRenameOperation at valid
  split at valid
  · cases valid
  rename_i ino entered
  obtain ⟨row, found, _⟩ := map_eq_some_iff.mp entered
  split at valid
  · cases valid
  split at valid
  · cases valid
  rename_i nonempty
  split at valid
  · cases valid
  · split at valid
    · cases valid
    · cases valid
      exact ⟨⟨row, found⟩, nonempty⟩

theorem new_eq : new = (splitDirFile new).1 ++ [(splitDirFile new).2] :=
  eq_append_of_name accepted.source.2

/-- An entry in the new directory is what the new path leads to. -/
theorem dest_of_entry (wellFormed : WellFormed tables)
    (entered : tables.lookup newParent (splitDirFile new).2 = some ino) :
    ∃ destKind, dest = some (ino, destKind) ∧ tables.stat ino = some destKind := by
  obtain ⟨row, present, named⟩ := map_eq_some_iff.mp entered
  have sound := wellFormed.sound present
  obtain ⟨resolved, directory⟩ := resolvePath_of_parent wellFormed accepted.newDir
  have leads := resolvePath_append directory sound.valid.2.1 sound.valid.2.2 resolved
  rw [← accepted.new_eq, entryAt, entered] at leads
  have known := sound.kind
  rw [named] at known
  have looked := lookupPath_of_resolvePath (leads.trans rfl) known
  rw [accepted.found] at looked
  exact ⟨_, Except.ok.inj looked, known⟩

end Accepted

/-! ## Removing the destination -/

theorem childless_of_readdir (empty : tables.readdir ino = .ok []) (key : Key)
    (present : (tables.content.lookup key).isSome) : key.1 ≠ ino := by
  rintro rfl
  simp only [Tables.readdir, bind_eq_ok, pure_eq_ok] at empty
  obtain ⟨_, _, _, _, none⟩ := empty
  have member := AList.mem_keys.mp (AList.lookup_isSome.mp present)
  have skipped := List.filterMap_eq_nil_iff.mp none key member
  rw [if_pos rfl] at skipped
  cases skipped

theorem childCount_eq_zero
    (childless : ∀ key : Key, (tables.content.lookup key).isSome -> key.1 ≠ ino) :
    tables.childCount ino = 0 := by
  refine List.countP_eq_zero.mpr fun entry member => ?_
  have present := AList.mem_lookup_iff.mpr member
  simpa using childless entry.1 (isSome_of_eq_some present)

variable {row : ContentRow} {key : Key}

theorem entryType_of_stat (wellFormed : WellFormed tables)
    (found : tables.content.lookup key = some row) :
    row.entryType = .directory ↔ tables.stat row.inode = some .dir := by
  rw [(wellFormed.sound found).kind]
  cases row.entryType <;> simp

variable {destKind : FileType} {name : String}

/-- A destination that may be replaced is removed, and nothing else. -/
theorem replace_clears (wellFormed : WellFormed tables) (refusals : Refusals)
    (replaceable : Replaceable tables kind (parent, name) ino destKind)
    (known : tables.stat ino = some destKind) :
    ∃ after,
      replace tables refusals kind parent name (some (ino, destKind)) = (.ok (), after) ∧
        Cleared tables after (parent, name) := by
  obtain ⟨row, found, rfl⟩ := lookup_eq_some.mp replaceable.entry
  have sound := wellFormed.sound found
  have there := isSome_access_of_stat sound.parent
  have type := entryType_of_stat wellFormed found
  by_cases directory : destKind = .dir
  · subst directory
    have alsoDirectory := replaceable.kinds.mpr rfl
    subst alsoDirectory
    have empty := replaceable.empty rfl
    have children := childless_of_readdir empty
    obtain ⟨after, done, removed⟩ := rmdir_removes found (type.mpr known)
      (childCount_eq_zero children) there (children (parent, name) (isSome_of_eq_some found))
    refine ⟨after, ?_, wellFormed.cleared_of_removed found removed⟩
    rw [replace]
    simp only [empty, done]
    rfl
  have noDirectory : row.entryType ≠ .directory := by
    rw [ne_eq, type, known, some.injEq]
    exact directory
  have source : kind ≠ .dir := fun same => directory (replaceable.kinds.mp same)
  obtain ⟨after, done, removed⟩ := unlink_removes wellFormed found noDirectory there
  refine ⟨after, ?_, wellFormed.cleared_of_removed found removed⟩
  cases kind <;> cases destKind <;>
    first
    | exact absurd rfl source
    | exact absurd rfl directory
    | simp only [replace, done]; rfl

/-- Nothing is removed where nothing is. -/
theorem removal_fails (missing : tables.lookup parent name = none) :
    (∃ error, tables.rmdir parent name = (.error error, tables)) ∧
      ∃ error, unlink tables parent name = (.error error, tables) := by
  have absent : tables.content.lookup (parent, name) = none := map_eq_none_iff.mp missing
  constructor
  · simp [Tables.rmdir, Tables.transaction, Tables.rmdirBody, require, absent, bind, Except.bind]
  · unfold unlink
    split
    · simp [Tables.unlink, Tables.transaction, Tables.unlinkBody, require, absent, bind, Except.bind]
    · exact ⟨_, rfl⟩

/-- Any other destination is left alone. -/
theorem replace_refuses (refusals : Refusals)
    (refused : ¬ Replaceable tables kind (parent, name) ino destKind)
    (entry : ∀ child, tables.lookup parent name = some child -> child = ino) :
    ∃ error,
      replace tables refusals kind parent name (some (ino, destKind)) = (.error error, tables) := by
  have files (source : kind ≠ .dir) (file : destKind ≠ .dir) :
      ∃ error, ofMeta (unlink tables parent name) = (.error error, tables) := by
    cases entered : tables.lookup parent name with
    | none =>
      obtain ⟨error, failed⟩ := (removal_fails entered).2
      rw [failed]
      exact ⟨_, rfl⟩
    | some child =>
      have same := entry child entered
      subst same
      refine absurd ⟨entered, ?_, fun directory => absurd directory file⟩ refused
      exact ⟨fun directory => absurd directory source, fun directory => absurd directory file⟩
  cases kind with
  | dir =>
    cases destKind with
    | dir =>
      rw [replace]
      split
      · exact ⟨_, rfl⟩
      · rename_i empty
        cases entered : tables.lookup parent name with
        | none =>
          obtain ⟨error, failed⟩ := (removal_fails entered).1
          rw [failed]
          exact ⟨_, rfl⟩
        | some child =>
          have same := entry child entered
          subst same
          exact absurd ⟨entered, Iff.rfl, fun _ => empty⟩ refused
      · exact ⟨_, rfl⟩
    | file => exact ⟨_, rfl⟩
    | symlink => exact ⟨_, rfl⟩
  | file | symlink =>
    cases destKind with
    | dir => exact ⟨_, rfl⟩
    | file => exact files nofun nofun
    | symlink => exact files nofun nofun

/-! ## Moving the source -/

variable {cleared : Tables} {source target : Key}

/-- Once nothing is at a valid target, the client moves the entry. -/
theorem clientRename_moves (wellFormed : WellFormed tables) (clear : Cleared tables cleared target)
    (found : tables.content.lookup source = some row) (apart : Apart tables old new source target)
    (valid : validateEntryName target.2 = true) (directory : tables.stat target.1 = some .dir) :
    ∃ after,
      MetaClient.rename cleared source.1 source.2 target.1 target.2 = (.ok (), after) ∧
        Moved cleared after source target row := by
  have different := apart.different
  have present : cleared.content.lookup source = some row := by
    rw [clear.lookup_ne different, found]
  have entered : (tables.deleteContent target).lookup source.1 source.2 = some row.inode :=
    lookup_eq_some.mpr ⟨row, lookup_deleteContent_eq_some.mpr ⟨different, found⟩, rfl⟩
  have oldNamed := named_of_without (named_of_resolvePath apart.oldDir)
  have newNamed := named_of_without (named_of_resolvePath apart.newDir)
  have oldKind : cleared.stat source.1 = some .dir :=
    (clear.stat _ oldNamed).trans (wellFormed.sound found).parent
  have newKind : cleared.stat target.1 = some .dir := (clear.stat _ newNamed).trans directory
  have rowKind : (cleared.stat row.inode).isSome := by
    rw [clear.stat row.inode (.inr ⟨source, entered⟩), (wellFormed.sound found).kind]
    rfl
  obtain ⟨after, done, moved⟩ := rename_succeeds present clear.lookup_target
    (isSome_access_of_stat oldKind) (isSome_access_of_stat newKind) rowKind
    (clear.unlinked source row present)
  refine ⟨after, ?_, moved⟩
  have elsewhere : ¬ (source.1 = target.1 ∧ source.2 = target.2) :=
    fun both => different (Prod.ext both.1 both.2)
  have there : cleared.lookup source.1 source.2 = some row.inode :=
    lookup_eq_some.mpr ⟨row, present, rfl⟩
  have checked : validateRename cleared source.1 source.2 target.1 target.2 = .ok () := by
    simp only [validateRename, bind_eq_ok, require_eq_ok, ensure_eq_ok]
    exact ⟨row.inode, there, .dir, newKind, (), rfl, valid⟩
  rw [MetaClient.rename, if_neg elsewhere, checked]
  exact done

/-! ## The rename as a whole -/

theorem mkdirP_resolved {path : List String}
    (resolved : resolvePath tables path = .ok ino) (known : tables.stat ino = some kind) :
    mkdirP tables path = (.ok ino, tables) := by
  unfold mkdirP
  split
  · rename_i empty
    rw [resolvePath, if_pos empty] at resolved
    rw [Except.ok.inj resolved]
  · rw [lookupPath_of_resolvePath resolved known]

theorem moveInto_resolved {oldDir newDir : List String}
    (resolved : oldDir ≠ newDir -> resolvePath tables newDir = .ok target.1)
    (directory : tables.stat target.1 = some .dir) :
    moveInto tables oldDir newDir source target =
      ofMeta (MetaClient.rename tables source.1 source.2 target.1 target.2) := by
  unfold moveInto
  by_cases same : oldDir = newDir
  · rw [if_pos same]
  · rw [if_neg same, mkdirP_resolved (resolved same) directory]

/-- The client refuses a name that is not valid, and leaves everything where it is. -/
theorem clientRename_invalid (different : source ≠ target)
    (invalid : ¬ validateEntryName target.2 = true) :
    ∃ error,
      MetaClient.rename tables source.1 source.2 target.1 target.2 = (.error error, tables) := by
  have elsewhere : ¬ (source.1 = target.1 ∧ source.2 = target.2) :=
    fun both => different (Prod.ext both.1 both.2)
  rw [MetaClient.rename, if_neg elsewhere]
  cases checked : validateRename tables source.1 source.2 target.1 target.2 with
  | error error => exact ⟨error, rfl⟩
  | ok done =>
    simp only [validateRename, bind_eq_ok, ensure_eq_ok] at checked
    obtain ⟨_, _, _, _, _, _, valid⟩ := checked
    exact absurd valid invalid

section Call

variable {oldText newText : String} (oldPath : components oldText = old)
  (newPath : components newText = new)
include oldPath newPath

theorem rename_of_not_accepted
    (refused : ∀ oldParent newParent kind dest,
      ¬ Accepted tables old new oldParent newParent kind dest) :
    ∃ error, rename tables oldText newText = (.error error, tables) := by
  unfold rename
  dsimp only
  rw [oldPath, newPath]
  split_ifs with same
  · rw [renameSameDirectory]
    split
    · exact ⟨_, rfl⟩
    rename_i parent resolved
    split
    · exact ⟨_, rfl⟩
    rename_i kind valid
    split
    · exact ⟨_, rfl⟩
    · rename_i dest found
      exact absurd ⟨resolved, same ▸ resolved, valid, found⟩ (refused parent parent kind dest)
  split
  · exact ⟨_, rfl⟩
  rename_i oldParent oldDir
  split
  · exact ⟨_, rfl⟩
  rename_i newParent newDir
  split
  · exact ⟨_, rfl⟩
  rename_i kind valid
  cases found : lookupPath tables new with
  | error error => exact ⟨error, by simp only [handleDestinationReplacement, found]⟩
  | ok dest =>
    exact absurd ⟨oldDir, newDir, valid, found⟩ (refused oldParent newParent kind dest)

variable (accepted : Accepted tables old new oldParent newParent kind dest)
include accepted

theorem rename_of_accepted :
    ∃ refusals, rename tables oldText newText =
      match replace tables refusals kind newParent (splitDirFile new).2 dest with
      | (.error error, tables) => (.error error, tables)
      | (.ok (), tables) =>
        moveInto tables (splitDirFile old).1 (splitDirFile new).1
          (oldParent, (splitDirFile old).2) (newParent, (splitDirFile new).2) := by
  obtain ⟨oldDir, newDir, valid, found⟩ := accepted
  unfold rename moveInto
  dsimp only
  rw [oldPath, newPath]
  by_cases same : (splitDirFile old).1 = (splitDirFile new).1
  · have parents : oldParent = newParent := by
      rw [same, newDir] at oldDir
      cases oldDir
      rfl
    subst parents
    rw [if_pos same, renameSameDirectory, oldDir]
    dsimp only
    rw [valid]
    rw [found]
    dsimp only
    refine ⟨sameDirectoryRefusals (splitDirFile old).1 (splitDirFile old).2
      (splitDirFile new).2, ?_⟩
    rcases replace tables _ kind oldParent (splitDirFile new).2 dest with ⟨_ | _, replaced⟩
    · rfl
    · simp only [if_pos same]
  rw [if_neg same, oldDir, newDir]
  dsimp only
  rw [valid]
  dsimp only
  rw [handleDestinationReplacement, found]
  dsimp only
  refine ⟨destinationRefusals old new, ?_⟩
  rcases replace tables _ kind newParent (splitDirFile new).2 dest with ⟨_ | _, replaced⟩
  · rfl
  · rcases made : mkdirP replaced (splitDirFile new).1 with ⟨_ | _, _⟩ <;>
      simp only [if_neg same, made]

variable (wellFormed : WellFormed tables)
include wellFormed

section Cleared

variable (found : tables.content.lookup source = some row)
  (sourceKey : source = (oldParent, (splitDirFile old).2))
  (targetKey : target = (newParent, (splitDirFile new).2))
  (apart : Apart tables old new source target)
include found sourceKey targetKey apart

omit oldPath newPath in
/-- In a tree that contains all but the two entries, with the source at the target, both
paths lead where they should. -/
theorem leads_of_within {after : Tables}
    (within : Tables.Within (without tables source target) after)
    (arrived : after.lookup target.1 target.2 = some row.inode)
    (gone : after.lookup source.1 source.2 = none) : Leads tables after old new := by
  have sound := wellFormed.sound found
  have entry : tables.lookup source.1 source.2 = some row.inode :=
    lookup_eq_some.mpr ⟨row, found, rfl⟩
  obtain ⟨oldResolved, _⟩ := resolvePath_of_parent wellFormed accepted.oldDir
  have newKind := (resolvePath_of_parent wellFormed accepted.newDir).2
  have oldEq : old = (splitDirFile old).1 ++ [source.2] := by
    rw [sourceKey]
    refine eq_append_of_name fun empty => ?_
    have valid := sound.valid.1
    rw [sourceKey, empty] at valid
    cases valid
  have newEq : new = (splitDirFile new).1 ++ [target.2] := by
    rw [targetKey]
    exact accepted.new_eq
  have oldKindAfter : after.stat source.1 = some .dir :=
    (within.stat _ (named_of_resolvePath apart.oldDir)).trans sound.parent
  have newKindAfter : after.stat target.1 = some .dir := by
    rw [within.stat _ (named_of_resolvePath apart.newDir), targetKey]
    exact newKind
  refine ⟨row.inode, ?_, ?_, .inl ?_⟩
  · have resolved : resolvePath tables (splitDirFile old).1 = .ok source.1 := by
      rw [oldResolved, sourceKey]
    rw [oldEq, resolvePath_append sound.parent sound.valid.2.1 sound.valid.2.2 resolved, entryAt,
      entry]
    rfl
  · rw [newEq, resolvePath_append newKindAfter apart.name.1 apart.name.2
      (resolvePath_mono within apart.newDir), entryAt, arrived]
    rfl
  · rw [oldEq, resolvePath_append oldKindAfter sound.valid.2.1 sound.valid.2.2
      (resolvePath_mono within apart.oldDir), entryAt, gone]
    rintro _ ⟨⟩

/-- With the destination out of the way, an entry that is apart from it is moved there. -/
theorem exact_moveInto (clear : Cleared tables cleared target)
    (valid : validateEntryName target.2 = true) :
    Exact tables oldText newText
      (moveInto cleared (splitDirFile old).1 (splitDirFile new).1 source target) := by
  subst oldPath newPath
  have directory : tables.stat target.1 = some .dir := by
    rw [targetKey]
    exact (resolvePath_of_parent wellFormed accepted.newDir).2
  obtain ⟨after, done, moved⟩ := clientRename_moves wellFormed clear found apart valid directory
  have newNamed := named_of_without (named_of_resolvePath apart.newDir)
  rw [moveInto_resolved
    (fun _ => resolvePath_mono (wellFormed.within_cleared clear) apart.newDir)
    ((clear.stat _ newNamed).trans directory), done]
  have carried := carried_of_moved clear moved found apart.different
  refine ⟨?_, oldParent, newParent, accepted.oldDir, accepted.newDir, ?_⟩
  · exact leads_of_within accepted wellFormed found sourceKey targetKey apart
      (within_moved clear moved found wellFormed)
      (carried.moved.trans (lookup_eq_some.mpr ⟨row, found, rfl⟩))
      (gone_of_moved clear moved apart.different)
  · rw [← sourceKey, ← targetKey]
    exact carried

end Cleared

variable (safe : Safe tables oldText newText)
include safe

theorem exact_of_free (isFree : dest = none) :
    Exact tables oldText newText (rename tables oldText newText) := by
  obtain ⟨refusals, call⟩ := rename_of_accepted oldPath newPath accepted
  obtain ⟨⟨row, found⟩, _⟩ := accepted.source
  obtain ⟨resolved, directory⟩ := resolvePath_of_parent wellFormed accepted.newDir
  have missing : tables.content.lookup (newParent, (splitDirFile new).2) = none := by
    by_contra taken
    obtain ⟨other, present⟩ := ne_none_iff_exists'.mp taken
    have entered := lookup_eq_some.mpr ⟨other, present, rfl⟩
    obtain ⟨destKind, same, _⟩ := accepted.dest_of_entry wellFormed entered
    cases isFree.symm.trans same
  rw [call]
  subst isFree
  rw [replace]
  dsimp only
  by_cases valid : validateEntryName (splitDirFile new).2 = true
  · subst oldPath newPath
    exact exact_moveInto rfl rfl accepted wellFormed found rfl rfl
      (safe oldParent newParent kind none accepted valid nofun)
      (wellFormed.cleared_of_free missing) valid
  · have different : (oldParent, (splitDirFile old).2) ≠ (newParent, (splitDirFile new).2) := by
      intro same
      rw [same, missing] at found
      cases found
    obtain ⟨error, failed⟩ := clientRename_invalid different valid
    rw [moveInto_resolved (fun _ => resolved) directory, failed]
    exact fun _ _ => rfl

theorem exact_of_taken (taken : dest = some (ino, destKind)) :
    Exact tables oldText newText (rename tables oldText newText) := by
  obtain ⟨refusals, call⟩ := rename_of_accepted oldPath newPath accepted
  obtain ⟨⟨row, found⟩, _⟩ := accepted.source
  rw [call]
  subst taken
  have known := (resolvePath_of_lookupPath accepted.found).2
  by_cases replaceable : Replaceable tables kind (newParent, (splitDirFile new).2) ino destKind
  · obtain ⟨cleared, done, clear⟩ := replace_clears wellFormed refusals replaceable known
    obtain ⟨removed, previous, _⟩ := lookup_eq_some.mp replaceable.entry
    have valid := (wellFormed.sound previous).valid.1
    rw [done]
    subst oldPath newPath
    refine exact_moveInto rfl rfl accepted wellFormed found rfl rfl ?_ clear valid
    refine safe oldParent newParent kind _ accepted valid ?_
    rintro _ _ ⟨⟩
    exact replaceable
  · obtain ⟨error, refused⟩ := replace_refuses refusals replaceable (fun child entered => by
      obtain ⟨_, same, _⟩ := accepted.dest_of_entry wellFormed entered
      cases same
      rfl)
    rw [refused]
    exact fun _ _ => rfl

end Call

/-- The tree with the file `/a`. -/
def oneFile : Tables := (Tables.fresh.createFile 1 "a").2

theorem wellFormed_oneFile : WellFormed oneFile :=
  ⟨by decide +kernel, by decide +kernel⟩

/-- The condition holds for a rename of the file to a free name. -/
theorem safe_oneFile : Safe oneFile "/a" "/b" := by
  have parents : resolveParentInode oneFile [] = .ok 1 := rfl
  rintro oldParent newParent kind dest accepted _ _
  cases accepted.oldDir.symm.trans parents
  cases accepted.newDir.symm.trans parents
  exact ⟨by decide +kernel, by decide +kernel, by decide +kernel, by decide +kernel⟩

/-- The tree with the directories `/d` and `/d/t` and the link `/s` to `/d`. -/
def linked : Tables :=
  (((Tables.fresh.mkdir 1 "d").2.mkdir 2 "t").2.symlink 1 "s" "/d").2

end VFS
end Rk8s.Slayerfs
