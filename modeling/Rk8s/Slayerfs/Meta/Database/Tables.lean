import Mathlib.Data.Finset.Basic
import Mathlib.Data.Finset.Image
import Mathlib.Data.List.AList
import Mathlib.Tactic.Ring
import Rk8s.Lib.Fallible

namespace Rk8s.Slayerfs.DatabaseMetaStore

/-!
# The namespace tables of the database store

Four tables describe the directory tree.  `access_meta` has a row for each
directory, `file_meta` one for each file and symbolic link, `content_meta` one
for each directory entry, and `link_parent_meta` lists the entries of files with
several links once more.  Times, sizes and owners are left out.

Every operation is a transaction: what it has changed is undone when it returns
an error.  Only the inode that was drawn for a new entry stays drawn.
-/

inductive EntryType where
  | file
  | directory
  | symlink
deriving DecidableEq

structure AccessRow where
  mode : Nat
  nlink : Int

structure FileRow where
  nlink : Int
  parent : Int
  deleted : Bool
  symlinkTarget : Option String
deriving DecidableEq

structure ContentRow where
  inode : Int
  entryType : EntryType
deriving DecidableEq

/-- A directory and the name of an entry in it. -/
abbrev Key := Int × String

/-- The tables, each with its primary key.  Rows of `link_parent_meta` are nothing
but a primary key. -/
structure Tables where
  access : AList fun _ : Int => AccessRow
  file : AList fun _ : Int => FileRow
  content : AList fun _ : Key => ContentRow
  linkParent : Finset (Int × Key)
  nextInode : Int

inductive MetaError where
  | notFound (ino : Int)
  | parentNotFound (ino : Int)
  | alreadyExists (parent : Int) (name : String)
  | notDirectory (ino : Int)
  | directoryNotEmpty (ino : Int)
  | invalidFilename
  | tooManySymlinks
  | notSupported (message : String)
  | internal (message : String)
  | database (message : String)
deriving DecidableEq

def i32Max : Int := 2 ^ 31 - 1

def i64Max : Int := 2 ^ 63 - 1

/-! ## Steps of a transaction -/

/-- `.ok_or(error)?` -/
def require {Found : Type} (found : Option Found) (error : MetaError) : Except MetaError Found :=
  match found with
  | some value => .ok value
  | none => .error error

/-- Leave the transaction with an error unless the condition holds. -/
def ensure (condition : Prop) [Decidable condition] (error : MetaError) : Except MetaError Unit :=
  if condition then .ok () else .error error

theorem bind_eq_ok {First Second : Type} {first : Except MetaError First}
    {rest : First -> Except MetaError Second} {result : Second} :
    (first >>= rest) = .ok result ↔ ∃ value, first = .ok value ∧ rest value = .ok result :=
  Fallible.bind_eq_ok

theorem pure_eq_ok {Result : Type} {value result : Result} :
    (pure value : Except MetaError Result) = .ok result ↔ value = result := by
  simp [pure, Except.pure]

variable {error : MetaError}

theorem require_eq_ok {Found : Type} {found : Option Found} {value : Found} :
    require found error = .ok value ↔ found = some value := by
  cases found <;> simp [require]

theorem ensure_eq_ok {condition : Prop} [Decidable condition] {done : Unit} :
    ensure condition error = .ok done ↔ condition := by
  by_cases holds : condition <;> simp [ensure]

namespace Tables

/-- A fresh store: the root directory, and the next inode is two. -/
def fresh : Tables where
  access := AList.singleton 1 ⟨0o40755, 2⟩
  file := ∅
  content := ∅
  linkParent := ∅
  nextInode := 2

/-- Commit what a transaction has done, or undo it. -/
def transaction {Result : Type} (tables : Tables) (body : Except MetaError (Result × Tables)) :
    Except MetaError Result × Tables :=
  match body with
  | .ok (result, after) => (.ok result, after)
  | .error error => (.error error, tables)

def isDirectory (row : AccessRow) : Bool :=
  (row.mode / 512 * 512) &&& 0o040000 == 0o040000

variable (tables : Tables) (inode : Int)

/-- Insertions fail when the primary key is taken. -/
def insertAccess (row : AccessRow) : Except MetaError Tables := do
  ensure (tables.access.lookup inode = none) (.database "duplicate key in access_meta")
  return { tables with access := tables.access.insert inode row }

def insertFile (row : FileRow) : Except MetaError Tables := do
  ensure (tables.file.lookup inode = none) (.database "duplicate key in file_meta")
  return { tables with file := tables.file.insert inode row }

def addContent (key : Key) (row : ContentRow) : Tables :=
  { tables with content := tables.content.insert key row }

def insertContent (key : Key) (row : ContentRow) : Except MetaError Tables := do
  ensure (tables.content.lookup key = none) (.database "duplicate key in content_meta")
  return tables.addContent key row

def addLinkParent (key : Key) : Tables :=
  { tables with linkParent := insert (inode, key) tables.linkParent }

def insertLinkParent (key : Key) : Except MetaError Tables := do
  ensure ((inode, key) ∉ tables.linkParent) (.database "duplicate key in link_parent_meta")
  return tables.addLinkParent inode key

def deleteContent (key : Key) : Tables :=
  { tables with content := tables.content.erase key }

def deleteLinkParent (key : Key) : Tables :=
  { tables with linkParent := tables.linkParent.erase (inode, key) }

/-- Delete all rows of an inode from `link_parent_meta`. -/
def deleteLinkParents : Tables :=
  { tables with linkParent := tables.linkParent.filter fun row => row.1 ≠ inode }

def updateFile (row : FileRow) : Tables :=
  { tables with file := tables.file.insert inode row }

/-- Some entry of an inode. -/
def entryOf : Option Key :=
  (tables.content.entries.find? fun entry => entry.2.inode = inode).map fun entry => entry.1

def childCount : Nat :=
  tables.content.entries.countP fun entry => entry.1.1 = inode

variable (parent : Int)

/-- The update of a directory's modification time, which fails when it is gone. -/
def touch (error : MetaError) : Except MetaError Tables := do
  let _ ← require (tables.access.lookup parent) error
  return tables

def allocInode : Except MetaError (Int × Tables) := do
  ensure (tables.nextInode < i64Max)
    (.internal "counter overflow for key slayerfs:next_inode_id")
  return (tables.nextInode, { tables with nextInode := tables.nextInode + 1 })

/-! ## Operations -/

/-- Draw an inode and run a transaction with it. -/
def withInode {Result : Type} (tables : Tables)
    (body : Tables -> Int -> Except MetaError (Result × Tables)) :
    Except MetaError Result × Tables :=
  match tables.allocInode with
  | .error error => (.error error, tables)
  | .ok (inode, drawn) => drawn.transaction (body drawn inode)

def createDirectoryWith (name : String) (tables : Tables) (inode : Int) :
    Except MetaError (Int × Tables) := do
  let _ ← require (tables.access.lookup parent) (.parentNotFound parent)
  ensure (tables.content.lookup (parent, name) = none) (.alreadyExists parent name)
  let tables ← tables.insertAccess inode ⟨0o040755, 2⟩
  let tables ← tables.insertContent (parent, name) ⟨inode, .directory⟩
  return (inode, tables)

def mkdir (name : String) : Except MetaError Int × Tables :=
  tables.withInode (createDirectoryWith parent name)

def createFileWith (name : String) (tables : Tables) (inode : Int) :
    Except MetaError (Int × Tables) := do
  let _ ← require (tables.access.lookup parent) (.parentNotFound parent)
  ensure (tables.content.lookup (parent, name) = none) (.alreadyExists parent name)
  let tables ← tables.insertFile inode ⟨1, parent, false, none⟩
  let tables ← tables.insertContent (parent, name) ⟨inode, .file⟩
  return (inode, tables)

def createFile (name : String) : Except MetaError Int × Tables :=
  tables.withInode (createFileWith parent name)

def symlinkWith (name target : String) (tables : Tables) (inode : Int) :
    Except MetaError (Int × Tables) := do
  let parentDir ← require (tables.access.lookup parent) (.parentNotFound parent)
  ensure (isDirectory parentDir = true) (.notDirectory parent)
  ensure (tables.content.lookup (parent, name) = none) (.alreadyExists parent name)
  let tables ← tables.insertFile inode ⟨1, parent, false, some target⟩
  let tables ← tables.insertContent (parent, name) ⟨inode, .symlink⟩
  return (inode, tables)

def symlink (name target : String) : Except MetaError Int × Tables :=
  tables.withInode (symlinkWith parent name target)

def rmdirBody (name : String) : Except MetaError (Unit × Tables) := do
  let entry ← require (tables.content.lookup (parent, name)) (.notFound parent)
  ensure (entry.entryType = .directory) (.notFound parent)
  ensure (tables.childCount entry.inode = 0) (.directoryNotEmpty entry.inode)
  let tables := { tables with access := tables.access.erase entry.inode }
  let tables := tables.deleteContent (parent, name)
  let tables ← tables.touch parent (.parentNotFound parent)
  return ((), tables)

def rmdir (name : String) : Except MetaError Unit × Tables :=
  tables.transaction (tables.rmdirBody parent name)

/-- What `unlink` does to the file and its link rows once the entry is gone. -/
def dropLink (inode : Int) (file : FileRow) (key : Key) : Except MetaError Tables :=
  if 1 < file.nlink then
    let tables := tables.deleteLinkParent inode key
    let file := { file with nlink := file.nlink - 1, deleted := false }
    if file.nlink = 1 then do
      let remaining ← require (tables.entryOf inode)
        (.internal s!"No remaining ContentMeta found for inode {inode}")
      return (tables.deleteLinkParents inode).updateFile inode { file with parent := remaining.1 }
    else
      .ok (tables.updateFile inode file)
  else
    .ok (tables.updateFile inode { file with nlink := 0, parent := 0, deleted := true })

def unlinkBody (name : String) : Except MetaError (Unit × Tables) := do
  let entry ← require (tables.content.lookup (parent, name))
    (.internal s!"File '{name}' not found in parent {parent}")
  ensure (entry.entryType ≠ .directory) (.notDirectory entry.inode)
  let file ← require (tables.file.lookup entry.inode) (.notFound entry.inode)
  let tables := tables.deleteContent (parent, name)
  let tables ← tables.dropLink entry.inode file (parent, name)
  let tables ← tables.touch parent (.parentNotFound parent)
  return ((), tables)

def unlink (name : String) : Except MetaError Unit × Tables :=
  tables.transaction (tables.unlinkBody parent name)

/-- The link rows that a new link adds.  A file with one link has none yet, so the
row of its entry is made as well. -/
def addLinkParents (ino : Int) (file : FileRow) (original : Option Key)
    (key : Key) : Except MetaError Tables :=
  match original with
  | some entry => do
      let tables ← tables.insertLinkParent ino (file.parent, entry.2)
      tables.insertLinkParent ino key
  | none => if 1 < file.nlink then tables.insertLinkParent ino key else .ok tables

/-- The entry of a file that has one link so far, looked up before the new one is
there. -/
def originalEntry (ino : Int) (file : FileRow) : Except MetaError (Option Key) :=
  if file.nlink = 1 then
    match tables.entryOf ino with
    | some entry => .ok (some entry)
    | none => .error (.internal s!"ContentMeta entry not found for inode {ino}")
  else
    .ok none

def linkBody (ino parent : Int) (name : String) : Except MetaError (FileRow × Tables) := do
  ensure (ino ≠ 1) (.notSupported "cannot create hard links to the root inode")
  let file ← require (tables.file.lookup ino) (.notFound ino)
  ensure (file.symlinkTarget = none)
    (.notSupported "cannot create hard links to symbolic links")
  ensure (file.deleted = false ∧ 0 < file.nlink)
    (.notSupported "cannot create hard link to deleted file")
  let parentDir ← require (tables.access.lookup parent) (.parentNotFound parent)
  ensure (isDirectory parentDir = true) (.notDirectory parent)
  ensure (tables.content.lookup (parent, name) = none) (.alreadyExists parent name)
  let newNlink := min (file.nlink + 1) i32Max
  let original ← tables.originalEntry ino file
  let tables ← tables.insertContent (parent, name) ⟨ino, .file⟩
  let tables ← tables.addLinkParents ino file original (parent, name)
  let row := { file with
    nlink := newNlink, deleted := false, parent := if file.nlink = 1 then 0 else file.parent }
  return (row, tables.updateFile ino row)

def link (ino parent : Int) (name : String) : Except MetaError FileRow × Tables :=
  tables.transaction (tables.linkBody ino parent name)

/-- The link row or the parent column of an inode whose entry has moved. -/
def moveLink (inode nlink : Int) (file : Option FileRow) (source target : Key) :
    Except MetaError Tables :=
  if 1 < nlink then
    (tables.deleteLinkParent inode source).insertLinkParent inode target
  else
    match file with
    | some row =>
      if nlink = 1 then .ok (tables.updateFile inode { row with parent := target.1 })
      else .ok tables
    | none => .ok tables

/-- The link count that `rename` looks at: of the file, or else of the directory. -/
def nlinkOf : Option Int :=
  match tables.file.lookup inode with
  | some file => some file.nlink
  | none => (tables.access.lookup inode).map AccessRow.nlink

variable (oldParent : Int)

def renameBody (oldName : String) (newParent : Int)
    (newName : String) : Except MetaError (Unit × Tables) := do
  let _ ← require (tables.access.lookup newParent) (.parentNotFound newParent)
  let entry ← require (tables.content.lookup (oldParent, oldName))
    (.internal s!"Entry '{oldName}' not found in parent {oldParent} for rename")
  ensure (tables.content.lookup (newParent, newName) = none) (.alreadyExists newParent newName)
  let file := tables.file.lookup entry.inode
  let nlink ← require (tables.nlinkOf entry.inode) (.notFound entry.inode)
  let tables := tables.deleteContent (oldParent, oldName)
  let tables ← tables.insertContent (newParent, newName) entry
  let tables ← tables.moveLink entry.inode nlink file (oldParent, oldName) (newParent, newName)
  let tables ← tables.touch oldParent (.parentNotFound oldParent)
  let tables ← tables.touch newParent (.notFound newParent)
  return ((), tables)

def rename (oldName : String) (newParent : Int)
    (newName : String) : Except MetaError Unit × Tables :=
  tables.transaction (tables.renameBody oldParent oldName newParent newName)

def renameExchangeBody (oldName : String) (newParent : Int)
    (newName : String) : Except MetaError (Unit × Tables) := do
  let oldEntry ← require (tables.content.lookup (oldParent, oldName))
    (.internal s!"Entry '{oldName}' not found in parent {oldParent} for exchange")
  let newEntry ← require (tables.content.lookup (newParent, newName))
    (.internal s!"Entry '{newName}' not found in parent {newParent} for exchange")
  let oldFile ← require (tables.file.lookup oldEntry.inode) (.notFound oldEntry.inode)
  let newFile ← require (tables.file.lookup newEntry.inode) (.notFound newEntry.inode)
  let tables := tables.deleteContent (oldParent, oldName)
  let tables := tables.deleteContent (newParent, newName)
  let tables ← tables.insertContent (oldParent, oldName) newEntry
  let tables ← tables.insertContent (newParent, newName) oldEntry
  let tables ← tables.moveLink oldEntry.inode oldFile.nlink (some oldFile)
    (oldParent, oldName) (newParent, newName)
  let tables ← tables.moveLink newEntry.inode newFile.nlink (some newFile)
    (newParent, newName) (oldParent, oldName)
  let tables ← tables.touch oldParent (.parentNotFound oldParent)
  let tables ← tables.touch newParent (.notFound newParent)
  return ((), tables)

def renameExchange (oldName : String) (newParent : Int)
    (newName : String) : Except MetaError Unit × Tables :=
  tables.transaction (tables.renameExchangeBody oldParent oldName newParent newName)

end Tables
end Rk8s.Slayerfs.DatabaseMetaStore
