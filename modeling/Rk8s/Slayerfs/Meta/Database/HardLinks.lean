import Mathlib.Data.Finset.Card
import Rk8s.Lib.Collections
import Rk8s.Lib.Transition
import Rk8s.Slayerfs.Meta.Database.Tables

namespace Rk8s.Slayerfs.DatabaseMetaStore

open Except Finset Transition Int

/-!
# Hard-link bookkeeping

The link count of a file, its parent column and its rows in `link_parent_meta`
all repeat what `content_meta` says.  They agree after any sequence of calls in
which no directory is renamed.  Renaming a directory gives it a row in
`link_parent_meta`, because directories have a link count of two.

Two finite sets carry the argument: the entries of an inode, and its link rows.
Each operation adds one element to them or removes one.
-/

namespace Tables

/-- The entries that name an inode. -/
def names (tables : Tables) (inode : Int) : Finset Key :=
  tables.content.keys.toFinset.filter fun key =>
    (tables.content.lookup key).map ContentRow.inode = some inode

/-- The entries of an inode according to `link_parent_meta`. -/
def linkKeys (tables : Tables) (inode : Int) : Finset Key :=
  (tables.linkParent.filter fun row => row.1 = inode).image Prod.snd

variable {inode : Int} {tables : Tables} {key : Key} {first second : Tables}

theorem mem_names :
    key ∈ tables.names inode ↔ (tables.content.lookup key).map ContentRow.inode = some inode := by
  rw [names, mem_filter, List.mem_toFinset]
  constructor
  · exact fun both => both.2
  intro found
  refine ⟨?_, found⟩
  obtain ⟨row, present, _⟩ := Option.map_eq_some_iff.mp found
  rw [← AList.mem_keys, ← AList.lookup_isSome, present]
  rfl

theorem mem_linkKeys : key ∈ tables.linkKeys inode ↔ (inode, key) ∈ tables.linkParent := by
  rw [linkKeys, mem_image]
  constructor
  · rintro ⟨⟨owner, entry⟩, member, rfl⟩
    obtain ⟨present, same⟩ := mem_filter.mp member
    exact same ▸ present
  · intro present
    exact ⟨(inode, key), mem_filter.mpr ⟨present, rfl⟩, rfl⟩

/-! ## How the sets change -/

theorem names_congr (same : first.content = second.content)
    (inode : Int) : first.names inode = second.names inode := by
  simp only [names, same]

theorem linkKeys_congr (same : first.linkParent = second.linkParent)
    (inode : Int) : first.linkKeys inode = second.linkKeys inode := by
  simp only [linkKeys, same]

theorem names_deleteContent (tables : Tables) (key : Key) (inode : Int) :
    (tables.deleteContent key).names inode = (tables.names inode).erase key := by
  ext other
  rw [mem_erase, mem_names, mem_names, deleteContent, lookup_erase_eq_ite]
  split_ifs with same
  · simp [same]
  · exact ⟨fun found => ⟨same, found⟩, fun both => both.2⟩

variable {row : ContentRow} {file : FileRow}

theorem names_addContent (inode : Int) (free : tables.content.lookup key = none) :
    (tables.addContent key row).names inode =
      if row.inode = inode then insert key (tables.names inode) else tables.names inode := by
  ext other
  rw [mem_names, addContent, lookup_insert_eq_ite]
  by_cases named : row.inode = inode
  · by_cases same : other = key <;> simp [named, same, mem_names]
  · by_cases same : other = key <;> simp [named, same, mem_names, free]

theorem linkKeys_deleteLinkParent (tables : Tables) (owner : Int) (key : Key) (inode : Int) :
    (tables.deleteLinkParent owner key).linkKeys inode =
      if owner = inode then (tables.linkKeys inode).erase key else tables.linkKeys inode := by
  ext other
  rw [mem_linkKeys, deleteLinkParent, mem_erase]
  by_cases here : owner = inode
  · subst here
    simp [mem_linkKeys]
  · simp [here, Ne.symm here, mem_linkKeys]

theorem linkKeys_addLinkParent (tables : Tables) (owner : Int) (key : Key) (inode : Int) :
    (tables.addLinkParent owner key).linkKeys inode =
      if owner = inode then insert key (tables.linkKeys inode) else tables.linkKeys inode := by
  ext other
  rw [mem_linkKeys, addLinkParent, mem_insert]
  by_cases here : owner = inode
  · subst here
    simp [mem_linkKeys]
  · simp [here, Ne.symm here, mem_linkKeys]

theorem linkKeys_deleteLinkParents (tables : Tables) (owner inode : Int) :
    (tables.deleteLinkParents owner).linkKeys inode =
      if owner = inode then ∅ else tables.linkKeys inode := by
  ext other
  rw [mem_linkKeys, deleteLinkParents, mem_filter]
  by_cases here : owner = inode
  · subst here
    simp
  · simp [here, Ne.symm here, mem_linkKeys]

/-! ## The property -/

/-- A file row says what the entries and link rows of its inode are. -/
structure Agrees (names linkKeys : Finset Key) (file : FileRow) : Prop where
  live : file.deleted = false -> file.nlink = names.card
  single : file.deleted = false -> file.nlink = 1 ->
    (forall key, key ∈ names -> file.parent = key.1) ∧ linkKeys = ∅
  several : file.deleted = false -> 2 ≤ file.nlink -> file.parent = 0 ∧ linkKeys = names
  deleted : file.deleted = true -> file.nlink = 0 ∧ names = ∅ ∧ linkKeys = ∅

/-- All file rows agree, and nothing else has link rows. -/
structure HardLinks (tables : Tables) : Prop where
  files : forall inode file, tables.file.lookup inode = some file ->
    Agrees (tables.names inode) (tables.linkKeys inode) file
  others : forall inode, tables.file.lookup inode = none -> tables.linkKeys inode = ∅

/-! ## One file -/

namespace Agrees

variable {names linkKeys : Finset Key} {source target : Key}

/-- A new file. -/
theorem created (key : Key) (symlinkTarget : Option String) :
    Agrees {key} ∅ ⟨1, key.1, false, symlinkTarget⟩ where
  live := by simp
  single := by
    intro _ _
    refine ⟨?_, rfl⟩
    intro other member
    rw [mem_singleton.mp member]
  several := by
    intro _ many
    have impossible : (2 : Int) ≤ 1 := many
    omega
  deleted := by
    nofun

/-- A file with several links. -/
theorem shared {nlink : Int} (count : nlink = names.card) (many : 2 ≤ nlink)
    (symlinkTarget : Option String) : Agrees names names ⟨nlink, 0, false, symlinkTarget⟩ where
  live := fun _ => count
  single := by
    intro _ one
    have impossible : nlink = 1 := one
    omega
  several := fun _ _ => ⟨rfl, rfl⟩
  deleted := by
    nofun

variable (agrees : Agrees names linkKeys file)
include agrees

variable (live : file.deleted = false)
include live

/-- A file that an entry names has a link. -/
theorem nlink_pos (member : key ∈ names) : 1 ≤ file.nlink := by
  have positive : 0 < names.card := card_pos.mpr ⟨key, member⟩
  have count := agrees.live live
  omega

/-- The entry of a file with one link. -/
theorem names_eq_singleton (one : file.nlink = 1) (member : key ∈ names) : names = {key} := by
  have count : names.card = 1 := by
    have same := agrees.live live
    omega
  obtain ⟨only, rfl⟩ := card_eq_one.mp count
  rw [mem_singleton.mp member]

/-- An entry moves, and the parent column or the link row with it. -/
theorem moved (member : source ∈ names) (free : target ∉ names) :
    Agrees (insert target (names.erase source))
      (if 1 < file.nlink then insert target (linkKeys.erase source) else linkKeys)
      (if 1 < file.nlink then file else { file with parent := target.1 }) := by
  have count : (insert target (names.erase source)).card = names.card := by
    have outside : target ∉ names.erase source := fun inside => free (mem_of_mem_erase inside)
    have positive : 0 < names.card := card_pos.mpr ⟨source, member⟩
    rw [card_insert_of_notMem outside, card_erase_of_mem member]
    omega
  have nlink := agrees.live live
  rw [← count] at nlink
  split_ifs with many
  · obtain ⟨parent, same⟩ := agrees.several live many
    have moved := shared nlink many file.symlinkTarget
    rw [← live, ← parent] at moved
    rw [same]
    exact moved
  have one : file.nlink = 1 := by
    have positive := agrees.nlink_pos live member
    omega
  rw [agrees.names_eq_singleton live one member, erase_singleton, insert_empty_eq,
    (agrees.single live one).2, one, live]
  exact created target file.symlinkTarget

/-- A file gets another entry. -/
theorem linked (positive : 0 < file.nlink) (free : key ∉ names) (small : file.nlink < i32Max)
    {links : Finset Key}
    (rows : links = if file.nlink = 1 then insert key names else insert key linkKeys) :
    Agrees (insert key names) links
      { file with
        nlink := min (file.nlink + 1) i32Max, deleted := false,
        parent := if file.nlink = 1 then 0 else file.parent } := by
  have nlink := agrees.live live
  have count : min (file.nlink + 1) i32Max = (insert key names).card := by
    rw [card_insert_of_notMem free]
    push_cast
    omega
  have linked := shared count (by omega) file.symlinkTarget
  by_cases one : file.nlink = 1
  · rw [rows, if_pos one, if_pos one]
    exact linked
  · obtain ⟨parent, same⟩ := agrees.several live (by omega)
    rw [rows, if_neg one, if_neg one, same, parent]
    exact linked

/-- A file with several links loses one and keeps several. -/
theorem dropped_several (member : key ∈ names) (many : 2 < file.nlink) :
    Agrees (names.erase key) (linkKeys.erase key)
      { file with nlink := file.nlink - 1, deleted := false } := by
  have nlink := agrees.live live
  obtain ⟨parent, same⟩ := agrees.several live (by omega)
  have count : file.nlink - 1 = (names.erase key).card := by
    rw [card_erase_of_mem member]
    omega
  rw [same, parent]
  exact shared count (by omega) file.symlinkTarget

/-- A file keeps one entry of two. -/
theorem dropped_second (member : key ∈ names) (two : file.nlink = 2) {remaining : Key}
    (kept : remaining ∈ names.erase key) :
    Agrees (names.erase key) ∅
      { file with nlink := file.nlink - 1, deleted := false, parent := remaining.1 } := by
  have nlink := agrees.live live
  have count : (names.erase key).card = 1 := by
    rw [card_erase_of_mem member]
    omega
  obtain ⟨only, single⟩ := card_eq_one.mp count
  rw [single, mem_singleton] at kept
  rw [single, two, kept]
  exact created only file.symlinkTarget

/-- A file loses its last entry. -/
theorem dropped_last (member : key ∈ names) (one : file.nlink = 1) :
    Agrees (names.erase key) linkKeys { file with nlink := 0, parent := 0, deleted := true } := by
  have entry := agrees.names_eq_singleton live one member
  refine ⟨fun alive => ?_, fun alive => ?_, fun alive => ?_, fun _ => ⟨rfl, ?_, ?_⟩⟩
  · cases alive
  · cases alive
  · cases alive
  · rw [entry, erase_singleton]
  · exact (agrees.single live one).2

end Agrees

/-! ## The invariant of the tables -/

/-- What one inode has to satisfy. -/
def AgreesAt (tables : Tables) (inode : Int) : Prop :=
  match tables.file.lookup inode with
  | some file => Agrees (tables.names inode) (tables.linkKeys inode) file
  | none => tables.linkKeys inode = ∅

theorem hardLinks_of_agreesAt (all : ∀ inode, tables.AgreesAt inode) : tables.HardLinks := by
  refine ⟨fun inode file found => ?_, fun inode missing => ?_⟩
  · have here := all inode
    rwa [AgreesAt, found] at here
  · have here := all inode
    rwa [AgreesAt, missing] at here

/-- Entries name what they say: a directory, which has no row in `file_meta`, or a
file that is not deleted.  No inode has been used before it is drawn. -/
structure Inv (tables : Tables) : Prop where
  links : forall inode, tables.AgreesAt inode
  directories : forall key row, tables.content.lookup key = some row ->
    row.entryType = .directory ->
    row.inode < tables.nextInode ∧ tables.file.lookup row.inode = none
  files : forall key row, tables.content.lookup key = some row -> row.entryType ≠ .directory ->
    Exists fun file => tables.file.lookup row.inode = some file ∧ file.deleted = false
  drawn : forall inode file, tables.file.lookup inode = some file -> inode < tables.nextInode

theorem Inv.agrees (inv : Inv tables) (found : tables.file.lookup inode = some file) :
    Agrees (tables.names inode) (tables.linkKeys inode) file := by
  have here := inv.links inode
  rwa [AgreesAt, found] at here

variable {after before : Tables}

/-- An inode whose row, entries and link rows are as they were. -/
theorem AgreesAt.same (agrees : before.AgreesAt inode)
    (file : after.file.lookup inode = before.file.lookup inode)
    (names : (before.file.lookup inode).isSome -> after.names inode = before.names inode)
    (links : after.linkKeys inode = before.linkKeys inode) : after.AgreesAt inode := by
  unfold AgreesAt at *
  rw [file, links]
  cases found : before.file.lookup inode with
  | none =>
    rw [found] at agrees
    exact agrees
  | some row =>
    rw [found] at agrees names
    simp only [names rfl]
    exact agrees

theorem inv_fresh : Inv fresh := by
  refine ⟨fun inode => ?_, fun key row found => ?_, fun key row found => ?_,
    fun inode file found => ?_⟩
  · rfl
  · cases found
  · cases found
  · cases found

section

variable (inv : Inv tables) {Result : Type}
include inv

/-- An inode that has not been drawn names nothing. -/
theorem Inv.names_next (next : tables.nextInode ≤ inode) : tables.names inode = ∅ := by
  apply eq_empty_of_forall_notMem
  intro key member
  obtain ⟨row, found, rfl⟩ := Option.map_eq_some_iff.mp (mem_names.mp member)
  by_cases kind : row.entryType = .directory
  · have used := (inv.directories key row found kind).1
    omega
  · obtain ⟨file, present, _⟩ := inv.files key row found kind
    have used := inv.drawn _ file present
    omega

theorem Inv.file_next (next : tables.nextInode ≤ inode) : tables.file.lookup inode = none := by
  cases found : tables.file.lookup inode with
  | none => rfl
  | some file =>
    have used := inv.drawn inode file found
    omega

/-- Drawing an inode. -/
theorem Inv.draw : Inv { tables with nextInode := tables.nextInode + 1 } where
  links := inv.links
  directories := by
    intro key row found kind
    have old := inv.directories key row found kind
    exact ⟨lt_add_one_of_le old.1.le, old.2⟩
  files := inv.files
  drawn := by
    intro inode file found
    exact lt_add_one_of_le (le_of_lt (inv.drawn inode file found))

/-- The new entry is the only one of its inode. -/
theorem Inv.names_created (new : tables.nextInode ≤ row.inode)
    (free : tables.content.lookup key = none)
    (inserted : after.content = (tables.addContent key row).content) (inode : Int) :
    after.names inode = if row.inode = inode then {key} else tables.names inode := by
  rw [names_congr inserted, names_addContent inode free]
  split_ifs with here
  · subst here
    rw [inv.names_next new, insert_empty_eq]
  · rfl

/-! ## New entries -/

/-- A new entry.  A file or symbolic link gets a row, and a directory none. -/
theorem Inv.create {kind : EntryType} {row : Option FileRow}
    (free : tables.content.lookup key = none)
    (kinds : kind = .directory ∧ row = none ∨ kind ≠ .directory ∧
      ∃ symlinkTarget, row = some ⟨1, key.1, false, symlinkTarget⟩)
    (files : ∀ inode, after.file.lookup inode =
      if inode = tables.nextInode then row else tables.file.lookup inode)
    (content : after.content = tables.content.insert key ⟨tables.nextInode, kind⟩)
    (links : after.linkParent = tables.linkParent)
    (next : after.nextInode = tables.nextInode + 1) : Inv after := by
  have kept : ∀ inode < tables.nextInode, after.file.lookup inode = tables.file.lookup inode :=
    fun inode old => (files inode).trans (if_neg (by omega))
  refine ⟨fun inode => ?_, fun other entry found isDirectory => ?_,
    fun other entry found isFile => ?_, fun inode file found => ?_⟩
  · have named := inv.names_created le_rfl free content inode
    by_cases here : inode = tables.nextInode
    · subst here
      have none_ : tables.linkKeys tables.nextInode = ∅ := by
        have old := inv.links tables.nextInode
        rwa [AgreesAt, inv.file_next le_rfl] at old
      rw [AgreesAt, files, if_pos rfl, named, if_pos rfl, linkKeys_congr links, none_]
      rcases kinds with ⟨_, rfl⟩ | ⟨_, symlinkTarget, rfl⟩
      · rfl
      · exact Agrees.created key symlinkTarget
    · exact (inv.links inode).same ((files inode).trans (if_neg here))
        (fun _ => named.trans (if_neg (Ne.symm here))) (linkKeys_congr links inode)
  · rw [content, lookup_insert_eq_ite] at found
    rw [next]
    split_ifs at found with here
    · cases found
      rcases kinds with ⟨_, rfl⟩ | ⟨notDirectory, _⟩
      · exact ⟨lt_add_one_of_le le_rfl, (files _).trans (if_pos rfl)⟩
      · exact absurd isDirectory notDirectory
    · have old := inv.directories other entry found isDirectory
      exact ⟨lt_add_one_of_le old.1.le, (kept _ old.1).trans old.2⟩
  · rw [content, lookup_insert_eq_ite] at found
    split_ifs at found with here
    · cases found
      rcases kinds with ⟨isDirectory, _⟩ | ⟨_, symlinkTarget, rfl⟩
      · exact absurd isDirectory isFile
      · exact ⟨_, (files _).trans (if_pos rfl), rfl⟩
    · obtain ⟨old, present, live⟩ := inv.files other entry found isFile
      exact ⟨old, (kept _ (inv.drawn _ old present)).trans present, live⟩
  · rw [next]
    rw [files] at found
    split_ifs at found with here
    · omega
    · have used := inv.drawn inode file found
      omega

/-- The rule for operations that draw an inode. -/
theorem Inv.withInode
    (body : Tables -> Int -> Except MetaError (Result × Tables)) (kept : ∀ result after,
      body { tables with nextInode := tables.nextInode + 1 } tables.nextInode =
        .ok (result, after) -> Inv after) :
    Inv (tables.withInode body).2 := by
  unfold Tables.withInode allocInode
  by_cases room : tables.nextInode < i64Max
  · simp only [ensure, if_pos room, bind, Except.bind, pure, Except.pure]
    unfold transaction
    split
    next result after done => exact kept result after done
    next => exact inv.draw
  · simp only [ensure, if_neg room]
    exact inv

/-- The rule for the other operations. -/
theorem Inv.transaction {body : Except MetaError (Result × Tables)}
    (kept : ∀ result after, body = .ok (result, after) -> Inv after) :
    Inv (tables.transaction body).2 := by
  unfold Tables.transaction
  split
  next result after => exact kept result after rfl
  next => exact inv

theorem Inv.createFile_step (parent : Int) (name : String) :
    Inv (tables.createFile parent name).2 := by
  refine inv.withInode _ fun result after done => ?_
  simp only [createFileWith, insertFile, insertContent, bind_eq_ok, ensure_eq_ok,
    pure_eq_ok] at done
  obtain ⟨_, _, _, free, _, ⟨_, _, rfl⟩, _, ⟨_, _, rfl⟩, _, rfl⟩ := done
  exact Inv.create inv free (.inr ⟨by decide, _, rfl⟩) (fun _ => lookup_insert_eq_ite) rfl rfl rfl

theorem Inv.symlink_step (parent : Int)
    (name target : String) : Inv (tables.symlink parent name target).2 := by
  refine inv.withInode _ fun result after done => ?_
  simp only [symlinkWith, insertFile, insertContent, bind_eq_ok, ensure_eq_ok, pure_eq_ok] at done
  obtain ⟨_, _, _, _, _, free, _, ⟨_, _, rfl⟩, _, ⟨_, _, rfl⟩, _, rfl⟩ := done
  exact Inv.create inv free (.inr ⟨by decide, _, rfl⟩) (fun _ => lookup_insert_eq_ite) rfl rfl rfl

theorem Inv.mkdir_step (parent : Int) (name : String) : Inv (tables.mkdir parent name).2 := by
  refine inv.withInode _ fun result after done => ?_
  simp only [createDirectoryWith, insertAccess, insertContent, bind_eq_ok,
    ensure_eq_ok, pure_eq_ok] at done
  obtain ⟨_, _, _, free, _, ⟨_, _, rfl⟩, _, ⟨_, _, rfl⟩, _, rfl⟩ := done
  refine Inv.create inv free (.inl ⟨rfl, rfl⟩) (fun inode => ?_) rfl rfl rfl
  split_ifs with here
  · exact inv.file_next here.ge
  · rfl

end

/-! ## Entries that move or go -/

/-- What an operation that makes no inode may do to one: nothing that matters, or its
row changes with its entries and link rows. -/
def Settled (before after : Tables) (inode : Int) : Prop :=
  (after.file.lookup inode = before.file.lookup inode ∧
      ((before.file.lookup inode).isSome -> after.names inode = before.names inode) ∧
      after.linkKeys inode = before.linkKeys inode) ∨
    (before.file.lookup inode).isSome ∧ Exists fun file => after.file.lookup inode = some file ∧
      Agrees (after.names inode) (after.linkKeys inode) file

/-- The rule for operations that make no inode: every entry is an old one or names a
file. -/
theorem Inv.change (inv : Inv before) (inodes : ∀ inode, Settled before after inode)
    (entries : ∀ key row, after.content.lookup key = some row ->
      (∃ source, before.content.lookup source = some row) ∨
        row.entryType ≠ .directory ∧ (before.file.lookup row.inode).isSome)
    (next : after.nextInode = before.nextInode) : Inv after := by
  have agrees : ∀ inode, after.AgreesAt inode := by
    intro inode
    rcases inodes inode with ⟨file, names, links⟩ | ⟨_, file, found, agrees⟩
    · exact (inv.links inode).same file names links
    · rw [AgreesAt, found]
      exact agrees
  have rows : ∀ inode, (after.file.lookup inode).isSome = (before.file.lookup inode).isSome := by
    intro inode
    rcases inodes inode with ⟨file, _⟩ | ⟨present, file, found, _⟩
    · rw [file]
    · rw [present, found]
      rfl
  refine ⟨agrees, fun key row found isDirectory => ?_, fun key row found isFile => ?_,
    fun inode file found => ?_⟩
  · rcases entries key row found with ⟨source, old⟩ | ⟨notDirectory, _⟩
    · have kept := inv.directories source row old isDirectory
      rw [next]
      refine ⟨kept.1, ?_⟩
      have same := rows row.inode
      rw [kept.2] at same
      simpa using same
    · exact absurd isDirectory notDirectory
  · have present : (before.file.lookup row.inode).isSome := by
      rcases entries key row found with ⟨source, old⟩ | ⟨_, present⟩
      · obtain ⟨file, present, _⟩ := inv.files source row old isFile
        rw [present]
        rfl
      · exact present
    rw [← rows] at present
    obtain ⟨file, isFile⟩ := Option.isSome_iff_exists.mp present
    refine ⟨file, isFile, ?_⟩
    -- A deleted file has no entries, and this one has.
    have agree := agrees row.inode
    rw [AgreesAt, isFile] at agree
    have member : key ∈ after.names row.inode := by
      rw [mem_names, found]
      rfl
    cases gone : file.deleted with
    | false => rfl
    | true =>
      rw [(agree.deleted gone).2.1] at member
      cases member
  · have present := rows inode
    rw [found] at present
    obtain ⟨old, isOld⟩ := Option.isSome_iff_exists.mp present.symm
    rw [next]
    exact inv.drawn inode old isOld

theorem notMem_names (found : tables.content.lookup key = some row)
    (different : row.inode ≠ inode) : key ∉ tables.names inode := by
  rw [mem_names, found]
  simpa using different

theorem mem_names_self
    (found : tables.content.lookup key = some row) : key ∈ tables.names row.inode := by
  rw [mem_names, found]
  rfl

theorem Inv.rmdir_step (inv : Inv tables) (parent : Int) (name : String) :
    Inv (tables.rmdir parent name).2 := by
  refine inv.transaction fun result after done => ?_
  simp only [rmdirBody, touch, deleteContent, bind_eq_ok, require_eq_ok, ensure_eq_ok,
    pure_eq_ok] at done
  obtain ⟨entry, found, _, isDirectory, _, _, _, ⟨_, _, rfl⟩, _, rfl⟩ := done
  refine inv.change ?_ ?_ rfl
  · intro inode
    refine .inl ⟨rfl, fun present => ?_, rfl⟩
    have different : entry.inode ≠ inode := by
      rintro rfl
      rw [(inv.directories _ entry found isDirectory).2] at present
      cases present
    refine (names_deleteContent tables (parent, name) inode).trans ?_
    exact erase_eq_of_notMem (notMem_names found different)
  · intro key row kept
    rw [lookup_erase_eq_ite] at kept
    split_ifs at kept
    exact .inl ⟨key, kept⟩

theorem mem_names_of_entryOf
    (found : tables.entryOf inode = some key) : key ∈ tables.names inode := by
  obtain ⟨⟨entry, row⟩, present, rfl⟩ := Option.map_eq_some_iff.mp found
  have member := List.mem_of_find?_eq_some present
  have named := List.find?_some present
  rw [mem_names, AList.mem_lookup_iff.mpr member]
  simpa using named

/-- What `unlink` leaves of the tables once the entry is gone: only the row and the
link rows of the file change. -/
structure Relinked (tables after : Tables) (inode : Int) (row : FileRow) : Prop where
  content : after.content = tables.content
  next : after.nextInode = tables.nextInode
  file : after.file = tables.file.insert inode row
  others : forall other, other ≠ inode -> after.linkKeys other = tables.linkKeys other

theorem dropLink_spec {names linkKeys : Finset Key} (agrees : Agrees names linkKeys file)
    (live : file.deleted = false) (member : key ∈ names)
    (left : tables.names inode = names.erase key) (rows : tables.linkKeys inode = linkKeys)
    (done : tables.dropLink inode file key = .ok after) :
    ∃ row, Relinked tables after inode row ∧
      Agrees (after.names inode) (after.linkKeys inode) row := by
  have erased := linkKeys_deleteLinkParent tables inode key
  unfold dropLink at done
  by_cases many : 1 < file.nlink
  · rw [if_pos many] at done
    by_cases two : file.nlink - 1 = 1
    · simp only [if_pos two, bind_eq_ok, require_eq_ok, pure_eq_ok] at done
      obtain ⟨remaining, found, rfl⟩ := done
      have cleared := linkKeys_deleteLinkParents (tables.deleteLinkParent inode key) inode
      refine ⟨_, ⟨rfl, rfl, rfl, fun other different => ?_⟩, ?_⟩
      · refine (cleared other).trans ?_
        rw [if_neg different.symm, erased, if_neg different.symm]
      · have kept : remaining ∈ names.erase key := left ▸ mem_names_of_entryOf found
        refine (congrArg₂ (Agrees · · _) left ?_).mpr
          (agrees.dropped_second live member (by omega) kept)
        exact (cleared inode).trans (if_pos rfl)
    rw [if_neg two] at done
    cases done
    refine ⟨_, ⟨rfl, rfl, rfl, fun other different => ?_⟩, ?_⟩
    · exact (erased other).trans (if_neg different.symm)
    · refine (congrArg₂ (Agrees · · _) left ?_).mpr
        (agrees.dropped_several live member (by omega))
      refine (erased inode).trans ?_
      rw [if_pos rfl, rows]
  · rw [if_neg many] at done
    cases done
    refine ⟨_, ⟨rfl, rfl, rfl, fun other different => rfl⟩, ?_⟩
    have one : file.nlink = 1 := by
      have positive := agrees.nlink_pos live member
      omega
    exact (congrArg₂ (Agrees · · _) left rows).mpr (agrees.dropped_last live member one)

/-- An operation after which one file has a new row, and the entries that have
changed are its own. -/
theorem Inv.relinked {row old : FileRow} (inv : Inv before)
    (relinked : Relinked tables after inode row) (found : before.file.lookup inode = some old)
    (file : tables.file = before.file) (links : tables.linkParent = before.linkParent)
    (next : tables.nextInode = before.nextInode)
    (names : ∀ other ≠ inode, tables.names other = before.names other)
    (entries : ∀ key row, tables.content.lookup key = some row ->
      (∃ source, before.content.lookup source = some row) ∨
        row.entryType ≠ .directory ∧ (before.file.lookup row.inode).isSome)
    (agrees : Agrees (after.names inode) (after.linkKeys inode) row) : Inv after := by
  refine inv.change ?_ ?_ (relinked.next.trans next)
  · intro other
    by_cases here : other = inode
    · subst here
      exact .inr ⟨by rw [found]; rfl, row, by rw [relinked.file, AList.lookup_insert], agrees⟩
    · refine .inl ⟨?_, fun _ => ?_, ?_⟩
      · rw [relinked.file, AList.lookup_insert_ne here, file]
      · exact (names_congr relinked.content other).trans (names other here)
      · exact (relinked.others other here).trans (linkKeys_congr links other)
  · intro key entry present
    rw [relinked.content] at present
    exact entries key entry present

theorem Inv.file_of_entry (inv : Inv tables) {entry : ContentRow}
    (found : tables.content.lookup key = some entry)
    (present : tables.file.lookup entry.inode = some file) :
    file.deleted = false ∧ 1 ≤ file.nlink := by
  have notDirectory : entry.entryType ≠ .directory := by
    intro isDirectory
    rw [(inv.directories key entry found isDirectory).2] at present
    cases present
  have live : file.deleted = false := by
    obtain ⟨other, same, live⟩ := inv.files key entry found notDirectory
    rw [present] at same
    cases same
    exact live
  exact ⟨live, (inv.agrees present).nlink_pos live (mem_names_self found)⟩

theorem Inv.unlink_step (inv : Inv tables) (parent : Int) (name : String) :
    Inv (tables.unlink parent name).2 := by
  refine inv.transaction fun result after done => ?_
  simp only [unlinkBody, touch, bind_eq_ok, require_eq_ok, pure_eq_ok] at done
  obtain ⟨entry, found, _, _, file, present, dropped, drops, _, ⟨_, _, rfl⟩, _, rfl⟩ := done
  obtain ⟨live, _⟩ := inv.file_of_entry found present
  have erased := names_deleteContent tables (parent, name)
  obtain ⟨row, relinked, agrees⟩ := dropLink_spec (inv.agrees present) live
    (mem_names_self found) (erased entry.inode) rfl drops
  refine inv.relinked relinked present rfl rfl rfl ?_ ?_ agrees
  · intro other different
    rw [erased]
    exact erase_eq_of_notMem (notMem_names found different.symm)
  · intro key row kept
    rw [deleteContent, lookup_erase_eq_ite] at kept
    split_ifs at kept
    exact .inl ⟨key, kept⟩

/-- The link rows after a new link. -/
theorem addLinkParents_spec {ino : Int} {original : Option Key} {names linkKeys : Finset Key}
    (agrees : Agrees names linkKeys file) (live : file.deleted = false) (positive : 0 < file.nlink)
    (entry : if file.nlink = 1 then ∃ first, original = some first ∧ first ∈ names
      else original = none) (done : tables.addLinkParents ino file original key = .ok after)
    (rows : tables.linkKeys ino = linkKeys) :
    after.content = tables.content ∧ after.nextInode = tables.nextInode ∧
      after.file = tables.file ∧
      (∀ other ≠ ino, after.linkKeys other = tables.linkKeys other) ∧
      after.linkKeys ino = if file.nlink = 1 then insert key names else insert key linkKeys := by
  by_cases one : file.nlink = 1
  · rw [if_pos one] at entry
    obtain ⟨first, rfl, member⟩ := entry
    simp only [addLinkParents, insertLinkParent, bind_eq_ok, pure_eq_ok] at done
    obtain ⟨_, ⟨_, _, rfl⟩, _, _, rfl⟩ := done
    have single := agrees.single live one
    have named := agrees.names_eq_singleton live one member
    have same : (file.parent, first.2) = first := Prod.ext (single.1 first member) rfl
    have inserted : ∀ other,
        ((tables.addLinkParent ino (file.parent, first.2)).addLinkParent ino key).linkKeys other =
          if ino = other then insert key (insert first (tables.linkKeys other))
          else tables.linkKeys other := by
      intro other
      rw [linkKeys_addLinkParent, linkKeys_addLinkParent, same]
      split_ifs <;> rfl
    refine ⟨rfl, rfl, rfl, fun other different => ?_, ?_⟩
    · rw [inserted, if_neg different.symm]
    · rw [inserted, if_pos rfl, if_pos one, rows, single.2, named]
      rfl
  · rw [if_neg one] at entry
    subst entry
    have many : 1 < file.nlink := by omega
    simp only [addLinkParents, if_pos many, insertLinkParent, bind_eq_ok, pure_eq_ok] at done
    obtain ⟨_, _, rfl⟩ := done
    refine ⟨rfl, rfl, rfl, fun other different => ?_, ?_⟩
    · rw [linkKeys_addLinkParent, if_neg different.symm]
    · rw [linkKeys_addLinkParent, if_pos rfl, if_neg one, rows]

theorem Inv.link_step (inv : Inv tables) (ino parent : Int) (name : String)
    (small : ∀ file, tables.file.lookup ino = some file -> file.nlink < i32Max) :
    Inv (tables.link ino parent name).2 := by
  refine inv.transaction fun result after done => ?_
  simp only [linkBody, insertContent, bind_eq_ok, require_eq_ok, ensure_eq_ok, pure_eq_ok] at done
  obtain ⟨_, _, file, present, _, _, _, ⟨live, positive⟩, _, _, _, _, _, free, original, drawn, _,
    ⟨_, _, rfl⟩, added, adds, _, rfl⟩ := done
  have entry : if file.nlink = 1 then
      ∃ first, original = some first ∧ first ∈ tables.names ino
      else original = none := by
    by_cases one : file.nlink = 1
    swap
    · rw [originalEntry, if_neg one] at drawn
      rw [if_neg one]
      exact (Except.ok.inj drawn).symm
    rw [originalEntry, if_pos one] at drawn
    rw [if_pos one]
    cases found : tables.entryOf ino with
    | none =>
      rw [found] at drawn
      cases drawn
    | some first =>
      rw [found] at drawn
      cases drawn
      exact ⟨first, rfl, mem_names_of_entryOf found⟩
  have outside : (parent, name) ∉ tables.names ino := by
    rw [mem_names, free]
    simp
  have agrees := inv.agrees present
  obtain ⟨content, next, files, others, rows⟩ := addLinkParents_spec agrees live positive entry
    adds rfl
  have named : ∀ inode,
      (tables.addContent (parent, name) ⟨ino, .file⟩).names inode =
        if ino = inode then insert (parent, name) (tables.names inode)
        else tables.names inode := fun inode => names_addContent inode free
  have relinked : ∀ row, Relinked (tables.addContent (parent, name) ⟨ino, .file⟩)
      (added.updateFile ino row) ino row :=
    fun row => ⟨content, next, by rw [updateFile, files], others⟩
  refine inv.relinked (relinked _) present rfl rfl rfl ?_ ?_ ?_
  · intro other different
    rw [named, if_neg different.symm]
  · intro key row kept
    rw [addContent, lookup_insert_eq_ite] at kept
    split_ifs at kept
    · cases kept
      exact .inr ⟨by simp, by rw [present]; rfl⟩
    · exact .inl ⟨key, kept⟩
  have total : ∀ row, (added.updateFile ino row).names ino =
      insert (parent, name) (tables.names ino) := by
    intro row
    refine (names_congr content ino).trans ?_
    rw [named, if_pos rfl]
  refine (congrArg₂ (Agrees · · _) (total _) rows).mpr ?_
  exact agrees.linked live positive outside (small file present) rfl

/-- What moving an entry does to the file that it names. -/
theorem moveLink_spec {source target : Key} (found : tables.file.lookup inode = some file)
    (positive : 1 ≤ file.nlink)
    (done : tables.moveLink inode file.nlink (some file) source target = .ok after) :
    after.content = tables.content ∧ after.nextInode = tables.nextInode ∧
      (∀ other, after.file.lookup other =
        if other = inode then
          some (if 1 < file.nlink then file else { file with parent := target.1 })
        else tables.file.lookup other) ∧
      (∀ other, after.linkKeys other =
        if other = inode then
          if 1 < file.nlink then insert target ((tables.linkKeys other).erase source)
          else tables.linkKeys other
        else tables.linkKeys other) := by
  unfold moveLink at done
  by_cases many : 1 < file.nlink
  · simp only [if_pos many, insertLinkParent, bind_eq_ok, pure_eq_ok] at done
    obtain ⟨_, _, rfl⟩ := done
    refine ⟨rfl, rfl, fun other => ?_, fun other => ?_⟩
    · split_ifs with here
      · rw [here]
        exact found
      · rfl
    · rw [linkKeys_addLinkParent, linkKeys_deleteLinkParent]
      by_cases here : other = inode
      · subst here
        simp [many]
      · simp [here, Ne.symm here]
  · have one : file.nlink = 1 := by omega
    simp only [if_neg many, if_pos one] at done
    cases done
    refine ⟨rfl, rfl, fun other => ?_, fun other => ?_⟩
    · rw [updateFile, lookup_insert_eq_ite, if_neg many]
    · split_ifs <;> rfl

/-- Whether a `rename` moves a directory. -/
def movesDirectory (tables : Tables) (oldParent : Int) (oldName : String) (newParent : Int)
    (newName : String) : Bool :=
  (tables.content.lookup (oldParent, oldName)).any (fun entry => entry.entryType = .directory) &&
    (tables.access.lookup newParent).isSome &&
      (tables.content.lookup (newParent, newName)).isNone

theorem Inv.rename_step (inv : Inv tables) (oldParent : Int) (oldName : String) (newParent : Int)
    (newName : String)
    (regular : tables.movesDirectory oldParent oldName newParent newName = false) :
    Inv (tables.rename oldParent oldName newParent newName).2 := by
  refine inv.transaction fun result after done => ?_
  simp only [renameBody, insertContent, touch, bind_eq_ok, require_eq_ok, ensure_eq_ok,
    pure_eq_ok, Prod.mk.injEq] at done
  obtain ⟨_, parent, entry, found, _, free, nlink, counted, _, ⟨_, freed, rfl⟩, moved, moves, _,
    ⟨_, _, rfl⟩, _, ⟨_, _, rfl⟩, _, rfl⟩ := done
  have notDirectory : entry.entryType ≠ .directory := by
    intro isDirectory
    rw [movesDirectory, found, parent, free] at regular
    simp [isDirectory] at regular
  obtain ⟨file, present, live⟩ := inv.files _ entry found notDirectory
  obtain ⟨_, positive⟩ := inv.file_of_entry found present
  rw [nlinkOf, present] at counted
  cases counted
  rw [present] at moves
  obtain ⟨content, next, files, links⟩ := moveLink_spec (by exact present) positive moves
  have named : ∀ inode, moved.names inode =
      if inode = entry.inode then
        insert (newParent, newName) ((tables.names inode).erase (oldParent, oldName))
      else tables.names inode := by
    intro inode
    rw [names_congr content, names_addContent inode freed, names_deleteContent]
    by_cases here : inode = entry.inode
    · rw [if_pos here.symm, if_pos here]
    · rw [if_neg (Ne.symm here), if_neg here]
      exact erase_eq_of_notMem (notMem_names found (Ne.symm here))
  have outside : (newParent, newName) ∉ tables.names entry.inode := by
    rw [mem_names, free]
    simp
  refine inv.change ?_ ?_ next
  · intro inode
    by_cases here : inode = entry.inode
    · subst here
      refine .inr ⟨by rw [present]; rfl, _, (files _).trans (if_pos rfl), ?_⟩
      rw [named, if_pos rfl, links, if_pos rfl]
      exact (inv.agrees present).moved live (mem_names_self found) outside
    · refine .inl ⟨(files inode).trans (if_neg here), fun _ => ?_, ?_⟩
      · rw [named, if_neg here]
      · exact (links inode).trans (if_neg here)
  intro key row kept
  rw [content, addContent, lookup_insert_eq_ite, deleteContent, lookup_erase_eq_ite] at kept
  split_ifs at kept
  · cases kept
    exact .inl ⟨_, found⟩
  · exact .inl ⟨key, kept⟩

/-- An entry cannot move to where its file already has one. -/
theorem moveLink_free {source target : Key} (many : 1 < file.nlink)
    (done : tables.moveLink inode file.nlink (some file) source target = .ok after)
    (different : target ≠ source) : target ∉ tables.linkKeys inode := by
  simp only [moveLink, if_pos many, insertLinkParent, bind_eq_ok, ensure_eq_ok] at done
  obtain ⟨_, free, _⟩ := done
  intro member
  refine free (mem_erase.mpr ⟨?_, mem_linkKeys.mp member⟩)
  simpa using different

/-- What a successful exchange finds and leaves. -/
structure Exchanged (tables after : Tables) (old new : Key) (oldEntry newEntry : ContentRow)
    (oldFile newFile : FileRow) : Prop where
  oldFound : tables.content.lookup old = some oldEntry
  newFound : tables.content.lookup new = some newEntry
  oldPresent : tables.file.lookup oldEntry.inode = some oldFile
  newPresent : tables.file.lookup newEntry.inode = some newFile
  keys : old ≠ new
  inodes : oldEntry.inode ≠ newEntry.inode
  content : forall key, after.content.lookup key =
    if key = new then some oldEntry else if key = old then some newEntry
    else tables.content.lookup key
  next : after.nextInode = tables.nextInode
  files : forall other, after.file.lookup other =
    if other = newEntry.inode then
      some (if 1 < newFile.nlink then newFile else { newFile with parent := old.1 })
    else if other = oldEntry.inode then
      some (if 1 < oldFile.nlink then oldFile else { oldFile with parent := new.1 })
    else tables.file.lookup other
  links : forall other, after.linkKeys other =
    if other = newEntry.inode then
      if 1 < newFile.nlink then insert old ((tables.linkKeys other).erase new)
      else tables.linkKeys other
    else if other = oldEntry.inode then
      if 1 < oldFile.nlink then insert new ((tables.linkKeys other).erase old)
      else tables.linkKeys other
    else tables.linkKeys other

theorem Inv.exchanged (inv : Inv tables) {oldParent newParent : Int} {oldName newName : String}
    {result : Unit} (done : tables.renameExchangeBody oldParent oldName newParent newName =
      .ok (result, after)) :
    ∃ oldEntry newEntry, ∃ oldFile newFile,
      Exchanged tables after (oldParent, oldName) (newParent, newName) oldEntry newEntry
        oldFile newFile := by
  simp only [renameExchangeBody, insertContent, touch, bind_eq_ok, require_eq_ok,
    pure_eq_ok] at done
  obtain ⟨oldEntry, oldFound, newEntry, newFound, oldFile, oldPresent, newFile, newPresent, _,
    ⟨_, oldFree, rfl⟩, _, ⟨_, newFree, rfl⟩, first, firstMoves, second, secondMoves, _,
    ⟨_, _, rfl⟩, _, ⟨_, _, rfl⟩, _, rfl⟩ := done
  have keys : (oldParent, oldName) ≠ (newParent, newName) := by
    intro same
    rw [← same, addContent, AList.lookup_insert] at newFree
    cases newFree
  obtain ⟨live, oldPositive⟩ := inv.file_of_entry oldFound oldPresent
  obtain ⟨_, newPositive⟩ := inv.file_of_entry newFound newPresent
  -- Two entries of one file: its link rows already have the target.
  have inodes : oldEntry.inode ≠ newEntry.inode := by
    intro same
    have agrees := inv.agrees oldPresent
    have oldMember := mem_names_self oldFound
    have newMember := mem_names_self newFound
    rw [← same] at newMember
    have many : 1 < oldFile.nlink := by
      by_contra single
      have named := agrees.names_eq_singleton live (by omega) oldMember
      rw [named, mem_singleton] at newMember
      exact keys newMember.symm
    have absent := moveLink_free many firstMoves keys.symm
    refine absent ?_
    rw [← (agrees.several live many).2] at newMember
    exact newMember
  obtain ⟨content, next, files, links⟩ := moveLink_spec (by exact oldPresent) oldPositive firstMoves
  have newStill : first.file.lookup newEntry.inode = some newFile := by
    rw [files, if_neg inodes.symm]
    exact newPresent
  obtain ⟨content', next', files', links'⟩ := moveLink_spec newStill newPositive secondMoves
  refine ⟨oldEntry, newEntry, oldFile, newFile, oldFound, newFound, oldPresent, newPresent, keys,
    inodes, ?_, next'.trans next, ?_, ?_⟩
  · intro key
    rw [content', content]
    simp only [addContent, deleteContent, lookup_insert_eq_ite, lookup_erase_eq_ite]
    split_ifs <;> rfl
  · intro other
    rw [files']
    by_cases isNew : other = newEntry.inode
    · rw [if_pos isNew, if_pos isNew]
    · rw [if_neg isNew, if_neg isNew, files]
      rfl
  intro other
  rw [links']
  by_cases isNew : other = newEntry.inode
  · have kept : first.linkKeys other = tables.linkKeys other :=
      (links other).trans (if_neg (isNew ▸ inodes.symm))
    rw [if_pos isNew, if_pos isNew, kept]
  · rw [if_neg isNew, if_neg isNew, links]
    rfl

namespace Exchanged

variable {old new : Key} {oldEntry newEntry : ContentRow} {oldFile newFile : FileRow}

variable (exchanged : Exchanged tables after old new oldEntry newEntry oldFile newFile)
include exchanged

theorem mem_names_iff :
    key ∈ after.names inode ↔
      if key = new then oldEntry.inode = inode else if key = old then newEntry.inode = inode
      else key ∈ tables.names inode := by
  rw [mem_names, exchanged.content]
  split_ifs
  · simp
  · simp
  · rw [mem_names]

theorem names_old :
    after.names oldEntry.inode = insert new ((tables.names oldEntry.inode).erase old) := by
  ext key
  rw [exchanged.mem_names_iff, mem_insert, mem_erase]
  by_cases isNew : key = new
  · simp [isNew]
  · by_cases isOld : key = old
    · simp [isOld, exchanged.inodes.symm]
    · simp [isNew, isOld]

theorem names_new :
    after.names newEntry.inode = insert old ((tables.names newEntry.inode).erase new) := by
  ext key
  rw [exchanged.mem_names_iff, mem_insert, mem_erase]
  by_cases isNew : key = new
  · simp [isNew, exchanged.keys.symm, exchanged.inodes]
  · by_cases isOld : key = old
    · simp [isOld, exchanged.keys]
    · simp [isNew, isOld]

theorem names_other (notOld : inode ≠ oldEntry.inode) (notNew : inode ≠ newEntry.inode) :
    after.names inode = tables.names inode := by
  ext key
  rw [exchanged.mem_names_iff]
  by_cases isNew : key = new
  · simp [isNew, notOld.symm, notMem_names exchanged.newFound notNew.symm]
  · by_cases isOld : key = old
    · simp [isOld, exchanged.keys, notNew.symm, notMem_names exchanged.oldFound notOld.symm]
    · simp [isNew, isOld]

end Exchanged

theorem Inv.renameExchange_step (inv : Inv tables) (oldParent : Int) (oldName : String)
    (newParent : Int) (newName : String) :
    Inv (tables.renameExchange oldParent oldName newParent newName).2 := by
  refine inv.transaction fun result after done => ?_
  obtain ⟨oldEntry, newEntry, oldFile, newFile, exchanged⟩ := inv.exchanged done
  obtain ⟨oldLive, _⟩ := inv.file_of_entry exchanged.oldFound exchanged.oldPresent
  obtain ⟨newLive, _⟩ := inv.file_of_entry exchanged.newFound exchanged.newPresent
  refine inv.change ?_ ?_ exchanged.next
  · intro inode
    by_cases isNew : inode = newEntry.inode
    · subst isNew
      refine .inr ⟨by rw [exchanged.newPresent]; rfl, _, (exchanged.files _).trans (if_pos rfl), ?_⟩
      rw [exchanged.names_new, exchanged.links, if_pos rfl]
      exact (inv.agrees exchanged.newPresent).moved newLive (mem_names_self exchanged.newFound)
        (notMem_names exchanged.oldFound exchanged.inodes)
    by_cases isOld : inode = oldEntry.inode
    · subst isOld
      refine .inr ⟨by rw [exchanged.oldPresent]; rfl, _,
        (exchanged.files _).trans ((if_neg isNew).trans (if_pos rfl)), ?_⟩
      rw [exchanged.names_old, exchanged.links, if_neg isNew, if_pos rfl]
      exact (inv.agrees exchanged.oldPresent).moved oldLive (mem_names_self exchanged.oldFound)
        (notMem_names exchanged.newFound exchanged.inodes.symm)
    · refine .inl ⟨?_, fun _ => exchanged.names_other isOld isNew, ?_⟩
      · rw [exchanged.files, if_neg isNew, if_neg isOld]
      · rw [exchanged.links, if_neg isNew, if_neg isOld]
  · intro key row kept
    rw [exchanged.content] at kept
    split_ifs at kept
    · exact .inl ⟨_, exchanged.oldFound.trans kept⟩
    · exact .inl ⟨_, exchanged.newFound.trans kept⟩
    · exact .inl ⟨key, kept⟩

/-! ## Sequences of calls -/

inductive Call where
  | createFile (parent : Int) (name : String)
  | mkdir (parent : Int) (name : String)
  | rmdir (parent : Int) (name : String)
  | symlink (parent : Int) (name target : String)
  | link (ino parent : Int) (name : String)
  | unlink (parent : Int) (name : String)
  | rename (oldParent : Int) (oldName : String) (newParent : Int) (newName : String)
  | renameExchange (oldParent : Int) (oldName : String) (newParent : Int) (newName : String)

/-- The tables after a call, successful or not. -/
def step (tables : Tables) : Call -> Option Tables
  | .createFile parent name => some (tables.createFile parent name).2
  | .mkdir parent name => some (tables.mkdir parent name).2
  | .rmdir parent name => some (tables.rmdir parent name).2
  | .symlink parent name target => some (tables.symlink parent name target).2
  | .link ino parent name => some (tables.link ino parent name).2
  | .unlink parent name => some (tables.unlink parent name).2
  | .rename oldParent oldName newParent newName =>
    some (tables.rename oldParent oldName newParent newName).2
  | .renameExchange oldParent oldName newParent newName =>
    some (tables.renameExchange oldParent oldName newParent newName).2

/-- A call that neither moves a directory nor links a file whose link count is the
largest one. -/
def Regular (tables : Tables) : Call -> Prop
  | .link ino _ _ => (tables.file.lookup ino).all fun file => file.nlink < i32Max
  | .rename oldParent oldName newParent newName =>
    tables.movesDirectory oldParent oldName newParent newName = false
  | _ => True

instance (tables : Tables) (call : Call) : Decidable (tables.Regular call) := by
  unfold Regular
  split <;> infer_instance

theorem step_inv {call : Call} (inv : Inv tables) (regular : tables.Regular call)
    (taken : tables.step call = some after) : Inv after := by
  cases call <;> cases taken
  case createFile parent name => exact inv.createFile_step parent name
  case mkdir parent name => exact inv.mkdir_step parent name
  case rmdir parent name => exact inv.rmdir_step parent name
  case symlink parent name target => exact inv.symlink_step parent name target
  case link ino parent name =>
    refine inv.link_step ino parent name fun file found => ?_
    rw [Regular, found] at regular
    simpa using regular
  case unlink parent name => exact inv.unlink_step parent name
  case rename oldParent oldName newParent newName =>
    exact inv.rename_step oldParent oldName newParent newName regular
  case renameExchange oldParent oldName newParent newName =>
    exact inv.renameExchange_step oldParent oldName newParent newName

/-- The bookkeeping is right after every sequence of calls that do not move a
directory and do not link a file with the largest link count. -/
theorem hardLinks_of_regular {calls : List Call} {final : Tables}
    (run : Run step Regular fresh calls final) : final.HardLinks :=
  hardLinks_of_agreesAt (run.invariant Inv inv_fresh fun _ _ _ inv regular taken =>
    step_inv inv regular taken).links

/-- A file with two links is renamed, loses a link and gets it back, beside a
directory and a symbolic link. -/
theorem hardLinks_of_regular_renamed_link :
    Exists fun final : Tables =>
      ((final.file.lookup 2).map FileRow.nlink = some 2 ∧ (3, "c") ∈ final.linkKeys 2) ∧
        final.HardLinks := by
  obtain ⟨final, run, nlink, linked⟩ : ∃ final, Run step Regular fresh
      [.createFile 1 "a", .mkdir 1 "d", .symlink 1 "s" "a", .link 2 3 "b", .rename 3 "b" 3 "c",
        .unlink 1 "a", .link 2 1 "a", .renameExchange 1 "a" 1 "s", .rmdir 1 "d"] final ∧
      (final.file.lookup 2).map FileRow.nlink = some 2 ∧ (2, (3, "c")) ∈ final.linkParent :=
    exists_run (by decide +kernel)
  exact ⟨final, ⟨nlink, mem_linkKeys.mpr linked⟩, hardLinks_of_regular run⟩

/-- Renaming a directory inserts a link row for it. -/
theorem rename_links_directory :
    Exists fun final : Tables =>
      Run step anyStep fresh [.mkdir 1 "a", .rename 1 "a" 1 "b"] final ∧ ¬ final.HardLinks := by
  refine exists_run_of (fun final => final.file.lookup 2 = none ∧
    (2, (1, "b")) ∈ final.linkParent) (by decide +kernel) ?_
  rintro final run ⟨noFile, linked⟩ links
  have member : (1, "b") ∈ final.linkKeys 2 := mem_linkKeys.mpr linked
  rw [links.others 2 noFile] at member
  cases member

end Tables
end Rk8s.Slayerfs.DatabaseMetaStore
