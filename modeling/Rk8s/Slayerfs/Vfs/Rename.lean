import Rk8s.Slayerfs.Meta.Client

namespace Rk8s.Slayerfs

open DatabaseMetaStore MetaClient

/-!
# Renaming by path

`VFS::rename` resolves the two directories, checks the names, removes what is at
the destination and then asks the metadata client to move the entry.  Each of
these is a call of its own.  A path is the list of its components.
-/

inductive VfsError where
  | notFound (hint : Option String)
  | alreadyExists (hint : Option String)
  | notADirectory (hint : Option String)
  | isADirectory (hint : Option String)
  | directoryNotEmpty (hint : Option String)
  | circularRename (hint : Option String)
  | invalidRenameTarget (hint : Option String)
  | invalidFilename
  | invalidInput
  | unsupported
  | metadata (error : DatabaseMetaStore.MetaError)
deriving DecidableEq

/-- An error of the metadata client, without a hint at the path. -/
def VfsError.fromMeta : DatabaseMetaStore.MetaError -> VfsError
  | .notFound _ => .notFound none
  | .parentNotFound _ => .notFound none
  | .alreadyExists _ _ => .alreadyExists none
  | .notDirectory _ => .notADirectory none
  | .directoryNotEmpty _ => .directoryNotEmpty none
  | .invalidFilename => .invalidFilename
  | .tooManySymlinks => .invalidInput
  | .notSupported _ => .unsupported
  | .internal message => .metadata (.internal message)
  | .database message => .metadata (.database message)

namespace VFS

def text (path : List String) : String := "/" ++ "/".intercalate path

def splitDirFile (path : List String) : List String × String :=
  (path.dropLast, path.getLast?.getD "")

/-- A call of the metadata client. -/
def ofMeta {Result : Type} (outcome : Except DatabaseMetaStore.MetaError Result × Tables) :
    Except VfsError Result × Tables :=
  (outcome.1.mapError VfsError.fromMeta, outcome.2)

def lookupPath (tables : Tables) (path : List String) : Except VfsError (Option (Int × FileType)) :=
  (MetaClient.lookupPath tables path).mapError VfsError.fromMeta

variable (tables : Tables)

def resolveParentInode (dir : List String) : Except VfsError Int :=
  if dir = [] then .ok 1
  else
    match lookupPath tables dir with
    | .error error => .error error
    | .ok none => .error (.notFound <| some (text dir))
    | .ok (some (ino, kind)) =>
      if kind = .dir then .ok ino else .error (.notADirectory <| some (text dir))

/-- The loop of `mkdir_p`, which does not follow symbolic links. -/
def mkdirAll (path : List String) : Tables -> Int -> List String -> Except VfsError Int × Tables
  | tables, current, [] => (.ok current, tables)
  | tables, current, part :: rest =>
    match tables.lookup current part with
    | some ino =>
      match tables.stat ino with
      | none => (.error (.notFound <| some (text path)), tables)
      | some .dir => mkdirAll path tables ino rest
      | some _ => (.error (.notADirectory <| some (text path)), tables)
    | none =>
      match mkdir tables current part with
      | (.ok ino, tables) => mkdirAll path tables ino rest
      | (.error error, tables) => (.error (.fromMeta error), tables)

def mkdirP (path : List String) : Except VfsError Int × Tables :=
  if path = [] then (.ok 1, tables)
  else
    match lookupPath tables path with
    | .error error => (.error error, tables)
    | .ok (some (ino, _)) => (.ok ino, tables)
    | .ok none => mkdirAll path tables 1 path

/-- The kind of the source, if the rename is allowed so far.  A directory may not
move below its own path, nor into itself. -/
def validateRenameOperation (oldPath newPath : List String) (oldParent : Int) (oldName : String)
    (newParent : Int) (newName : String) : Except VfsError FileType :=
  match tables.lookup oldParent oldName with
  | none => .error (.notFound <| some s!"source '{text oldPath}' not found")
  | some ino =>
    match tables.stat ino with
    | none => .error (.notFound <| some s!"source '{text oldPath}' metadata not found")
    | some kind =>
      if newName = "" then .error (.invalidRenameTarget <| some "target name cannot be empty")
      else if newName.toList.contains '/' || newName.toList.contains (Char.ofNat 0) then
        .error (.invalidRenameTarget <|
          some s!"target name '{newName}' contains invalid characters")
      else if kind = .dir ∧ (oldPath.isPrefixOf newPath ∧ oldPath.length < newPath.length ∨
          newParent ≠ oldParent ∧ ino = newParent) then
        .error (.circularRename <| some (s!"cannot move directory '{text oldPath}' into " ++
          s!"its own subdirectory '{text newPath}'"))
      else .ok kind

/-- The texts of the three refusals to replace a destination. -/
structure Refusals where
  notEmpty : String
  directoryOverFile : String
  fileOverDirectory : String

/-- Remove what is at the destination: an empty directory for a directory, a file
or symbolic link for a file or symbolic link. -/
def replace (refusals : Refusals) (kind : FileType) (newParent : Int) (newName : String)
    (dest : Option (Int × FileType)) : Except VfsError Unit × Tables :=
  match dest with
  | none => (.ok (), tables)
  | some (destIno, destKind) =>
    match kind, destKind with
    | .dir, .dir =>
      match tables.readdir destIno with
      | .error error => (.error (.fromMeta error), tables)
      | .ok [] => ofMeta (tables.rmdir newParent newName)
      | .ok _ => (.error (.directoryNotEmpty <| some refusals.notEmpty), tables)
    | .dir, _ => (.error (.isADirectory <| some refusals.directoryOverFile), tables)
    | _, .dir => (.error (.isADirectory <| some refusals.fileOverDirectory), tables)
    | _, _ => ofMeta (unlink tables newParent newName)

def sameDirectoryRefusals (dir : List String) (oldName newName : String) : Refusals where
  notEmpty := s!"cannot replace non-empty directory '{text dir}/{newName}'"
  directoryOverFile := s!"cannot replace file '{text dir}/{oldName}' with directory"
  fileOverDirectory := s!"cannot replace directory '{text dir}/{newName}' with file"

def destinationRefusals (oldPath newPath : List String) : Refusals where
  notEmpty := s!"cannot replace non-empty directory '{text newPath}'"
  directoryOverFile := s!"cannot replace file '{text newPath}' with directory '{text oldPath}'"
  fileOverDirectory := s!"cannot replace directory '{text newPath}' with file '{text oldPath}'"

def renameSameDirectory (old new dir : List String) (oldName newName : String) :
    Except VfsError Unit × Tables :=
  match resolveParentInode tables dir with
  | .error error => (.error error, tables)
  | .ok parent =>
    match validateRenameOperation tables old new parent oldName parent newName with
    | .error error => (.error error, tables)
    | .ok kind =>
      match lookupPath tables new with
      | .error error => (.error error, tables)
      | .ok dest =>
        match replace tables (sameDirectoryRefusals dir oldName newName) kind parent newName
            dest with
        | (.error error, tables) => (.error error, tables)
        | (.ok (), tables) => ofMeta (MetaClient.rename tables parent oldName parent newName)

/-- `handle_destination_replacement` -/
def handleDestinationReplacement (old new : List String) (kind : FileType) (newParent : Int)
    (newName : String) : Except VfsError Unit × Tables :=
  match lookupPath tables new with
  | .error error => (.error error, tables)
  | .ok dest => replace tables (destinationRefusals old new) kind newParent newName dest

def rename (tables : Tables) (oldText newText : String) : Except VfsError Unit × Tables :=
  let old := components oldText
  let new := components newText
  let (oldDir, oldName) := splitDirFile old
  let (newDir, newName) := splitDirFile new
  if oldDir = newDir then renameSameDirectory tables old new oldDir oldName newName
  else
    match resolveParentInode tables oldDir with
    | .error error => (.error error, tables)
    | .ok oldParent =>
      match resolveParentInode tables newDir with
      | .error error => (.error error, tables)
      | .ok newParent =>
        match validateRenameOperation tables old new oldParent oldName newParent newName with
        | .error error => (.error error, tables)
        | .ok kind =>
          match handleDestinationReplacement tables old new kind newParent newName with
          | (.error error, tables) => (.error error, tables)
          | (.ok (), tables) =>
            match mkdirP tables newDir with
            | (.error error, tables) => (.error error, tables)
            | (.ok newDirIno, tables) =>
              ofMeta (MetaClient.rename tables oldParent oldName newDirIno newName)

end VFS
end Rk8s.Slayerfs
