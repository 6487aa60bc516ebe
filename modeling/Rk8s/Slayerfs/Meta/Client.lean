import Rk8s.Slayerfs.Meta.Database.Tables

namespace Rk8s.Slayerfs.DatabaseMetaStore

/-!
# The metadata client

`MetaClient` is the layer between the file system and the metadata store.  Its
caches, its options and the change of root are left out, so every question is
answered by the tables.  What remains are the checks it makes before it calls
the store, and the resolution of paths.
-/

inductive FileType where
  | file
  | dir
  | symlink
deriving DecidableEq

namespace Tables

variable (tables : Tables)

/-- The kind of an inode.  Files are looked up before directories. -/
def stat (ino : Int) : Option FileType :=
  match tables.file.lookup ino with
  | some file => some (if file.symlinkTarget.isSome then .symlink else .file)
  | none => (tables.access.lookup ino).map fun _ => .dir

def lookup (tables : Tables) (parent : Int) (name : String) : Option Int :=
  (tables.content.lookup (parent, name)).map ContentRow.inode

def readSymlink (ino : Int) : Except MetaError String := do
  let file ← require (tables.file.lookup ino) (.notFound ino)
  require file.symlinkTarget (.notSupported s!"inode {ino} is not a symbolic link")

/-- The names in a directory. -/
def readdir (ino : Int) : Except MetaError (List String) := do
  let row ← require (tables.access.lookup ino) (.notFound ino)
  ensure (isDirectory row = true) (.notDirectory ino)
  return tables.content.keys.filterMap fun key => if key.1 = ino then some key.2 else none

/-- The components of the path of a directory, from the root down.  There is none
for a directory that has lost its entry or lies below one that has.  The source
follows the entries upwards without a bound, `fuel` is one that no tree reaches. -/
def pathOf (tables : Tables) : (fuel : Nat) -> Int -> Option (List String)
  | 0, _ => none
  | fuel + 1, ino =>
    if ino = 1 then some []
    else
      (tables.entryOf ino).bind fun entry =>
        (tables.pathOf fuel entry.1).map fun path => path ++ [entry.2]

end Tables

namespace MetaClient

def nameMax : Nat := 255

def validateEntryName (name : String) : Bool :=
  name ≠ "" && name.utf8ByteSize ≤ nameMax &&
    !name.toList.contains '/' && !name.toList.contains (Char.ofNat 0)

/-- The parts of a text between slashes that are not empty. -/
def components (text : String) : List String :=
  ((text.toList.splitOn '/').map String.ofList).filter fun part => part ≠ ""

/-- Resolve `.` and `..` in a list of components. -/
def normalizePath (components : List String) : List String :=
  components.foldl (fun done part =>
    if part = "." then done
    else if part = ".." then done.dropLast
    else done ++ [part]) []

/-- The outcome of one pass over the components of a path. -/
inductive Walk where
  | found (ino : Int)
  | follow (path : List String)
  | failed (error : MetaError)

/-- One pass: look the components up one after the other, and start again with
another path at a symbolic link that is not the last component. -/
def walk (tables : Tables) : Int -> List String -> Walk
  | current, [] => .found current
  | current, segment :: rest =>
    if (tables.stat current).any (fun kind => kind ≠ .dir) then .failed (.notDirectory current)
    else
      match tables.lookup current segment with
      | none => .failed (.notFound current)
      | some child =>
        if rest ≠ [] ∧ tables.stat child = some .symlink then
          match tables.readSymlink child with
          | .error error => .failed error
          | .ok target =>
            -- A relative target starts at the directory of the link.
            let base :=
              if target.toList.head? = some '/' then []
              else (tables.pathOf (tables.content.entries.length + 1) current).getD []
            .follow (normalizePath (base ++ components target ++ rest))
        else
          walk tables child rest

/-- Follow symbolic links until a pass meets none. -/
def resolve (tables : Tables) : (budget : Nat) -> List String -> Except MetaError Int
  | 0, _ => .error .tooManySymlinks
  | budget + 1, path =>
    match walk tables 1 path with
    | .found ino => .ok ino
    | .failed error => .error error
    | .follow path => resolve tables budget path

def maxSymlinks : Nat := 40

variable (tables : Tables)

/-- The inode of a path.  A symbolic link in the last place is not followed. -/
def resolvePath (path : List String) : Except MetaError Int :=
  if path = [] then .ok 1 else resolve tables maxSymlinks path

def lookupPath (path : List String) : Except MetaError (Option (Int × FileType)) :=
  match resolvePath tables path with
  | .ok ino =>
    match tables.stat ino with
    | some kind => .ok (some (ino, kind))
    | none => .error (.notFound ino)
  | .error (.notFound _) => .ok none
  | .error error => .error error

def mkdir (tables : Tables) (parent : Int) (name : String) : Except MetaError Int × Tables :=
  if validateEntryName name then tables.mkdir parent name else (.error .invalidFilename, tables)

def unlink (tables : Tables) (parent : Int) (name : String) : Except MetaError Unit × Tables :=
  if validateEntryName name then tables.unlink parent name else (.error .invalidFilename, tables)

/-- The checks of `rename` behind its fast path. -/
def validateRename (oldParent : Int) (oldName : String) (newParent : Int)
    (newName : String) : Except MetaError Unit := do
  let _ ← require (tables.lookup oldParent oldName) (.notFound oldParent)
  let kind ← require (tables.stat newParent) (.notFound newParent)
  ensure (kind = .dir) (.notDirectory newParent)
  ensure (validateEntryName newName = true) .invalidFilename

/-- Renaming an entry to itself succeeds without a call of the store. -/
def rename (tables : Tables) (oldParent : Int) (oldName : String) (newParent : Int)
    (newName : String) : Except MetaError Unit × Tables :=
  if oldParent = newParent ∧ oldName = newName then (.ok (), tables)
  else
    match validateRename tables oldParent oldName newParent newName with
    | .error error => (.error error, tables)
    | .ok () => tables.rename oldParent oldName newParent newName

end MetaClient
end Rk8s.Slayerfs.DatabaseMetaStore
