import Rk8s.Slayerfs.Meta.Resolution
import Rk8s.Slayerfs.Vfs.Rename

namespace Rk8s.Slayerfs

open Finset Option DatabaseMetaStore MetaClient FileRow

/-!
# What the calls of a rename do to a directory tree

A rename removes the destination, makes missing directories and moves the entry,
each with a call of its own.  Each call has a lemma that says when it succeeds, and
what is left of the tree afterwards.  The tree without the source and the target is
part of the tree at every stage.
-/

namespace VFS

/-! ## Directory trees -/

/-- What an entry of a directory tree says is so. -/
@[mk_iff]
structure EntrySound (tables : Tables) (key : Key) (row : ContentRow) : Prop where
  parent : tables.stat key.1 = some .dir
  kind : tables.stat row.inode =
    some (match row.entryType with | .file => .file | .directory => .dir | .symlink => .symlink)
  valid : validateEntryName key.2 = true ∧ key.2 ≠ "." ∧ key.2 ≠ ".."
  notRoot : row.inode ≠ 1
  single : row.entryType = .directory -> tables.names row.inode = {key}
  counted : forall file, file ∈ tables.file.lookup row.inode ->
    file.nlink = (tables.names row.inode).card
  links : tables.linkKeys row.inode ⊆ tables.names row.inode

instance (tables : Tables) (key : Key) (row : ContentRow) :
    Decidable (EntrySound tables key row) :=
  decidable_of_iff _ (entrySound_iff tables key row).symm

structure WellFormed (tables : Tables) : Prop where
  root : tables.stat 1 = some .dir
  entries : forall entry, entry ∈ tables.content.entries -> EntrySound tables entry.1 entry.2

/-- The tree without the entries at `source` and `target`. -/
def without (tables : Tables) (source target : Key) : Tables :=
  (tables.deleteContent target).deleteContent source

/-- The entry at `source` is at `target`, and no other entry has changed. -/
structure Carried (before after : Tables) (source target : Key) : Prop where
  moved : after.lookup target.1 target.2 = before.lookup source.1 source.2
  left : source = target ∨ after.lookup source.1 source.2 = none ∨
    before.lookup target.1 target.2 = before.lookup source.1 source.2 ∧
      after.lookup source.1 source.2 = before.lookup source.1 source.2
  others : forall key : Key, key ≠ source -> key ≠ target ->
    after.lookup key.1 key.2 = before.lookup key.1 key.2

/-! ## What the calls of the store do to a tree -/

variable {tables : Tables} {key : Key} {row : ContentRow}

theorem WellFormed.sound (wellFormed : WellFormed tables)
    (found : tables.content.lookup key = some row) :
    EntrySound tables key row :=
  wellFormed.entries ⟨key, row⟩ (AList.mem_lookup_iff.mp found)

theorem EntrySound.isDirectory (sound : EntrySound tables key row)
    (directory : tables.stat row.inode = some .dir) : row.entryType = .directory := by
  have kind := sound.kind
  rw [directory] at kind
  cases type : row.entryType with
  | directory => rfl
  | file | symlink =>
    rw [type] at kind
    cases kind

variable {ino : Int}

theorem lookup_eq_some :
    tables.lookup key.1 key.2 = some ino ↔
      ∃ row, tables.content.lookup key = some row ∧ row.inode = ino :=
  map_eq_some_iff

theorem WellFormed.single (wellFormed : WellFormed tables) {first second : Key}
    (directory : tables.stat ino = some .dir) (found : tables.lookup first.1 first.2 = some ino)
    (also : tables.lookup second.1 second.2 = some ino) : first = second := by
  obtain ⟨row, present, rfl⟩ := lookup_eq_some.mp found
  have sound := wellFormed.sound present
  have names := sound.single (sound.isDirectory directory)
  have here : first ∈ tables.names row.inode := Tables.mem_names.mpr found
  have there : second ∈ tables.names row.inode := Tables.mem_names.mpr also
  rw [names, mem_singleton] at here there
  rw [here, there]

/-- The destination is gone, and nothing else that a path could lead to. -/
structure Removed (tables after : Tables) (target : Key) (row : ContentRow) : Prop where
  content : after.content = tables.content.erase target
  access : forall ino, row.entryType ≠ .directory ∨ ino ≠ row.inode ->
    after.access.lookup ino = tables.access.lookup ino
  file : forall ino, (after.file.lookup ino).map symlinkTarget =
    (tables.file.lookup ino).map symlinkTarget
  links : forall ino, after.linkKeys ino ⊆ tables.linkKeys ino
  freed : row.entryType ≠ .directory -> 2 ≤ (tables.names row.inode).card ->
    target ∉ after.linkKeys row.inode

variable {inode : Int}

theorem symlinkTarget_insert {file : AList fun _ : Int => FileRow} {old new : FileRow}
    (present : file.lookup inode = some old) (same : new.symlinkTarget = old.symlinkTarget)
    (ino : Int) :
    ((file.insert inode new).lookup ino).map symlinkTarget =
      (file.lookup ino).map symlinkTarget := by
  rw [lookup_insert_eq_ite]
  split_ifs with here
  · rw [here, present, map_some, map_some, same]
  · rfl

variable {parent : Int} {name : String}

theorem rmdir_removes (found : tables.content.lookup (parent, name) = some row)
    (directory : row.entryType = .directory) (empty : tables.childCount row.inode = 0)
    (there : (tables.access.lookup parent).isSome) (other : parent ≠ row.inode) :
    ∃ after, tables.rmdir parent name = (.ok (), after) ∧
      Removed tables after (parent, name) row := by
  obtain ⟨parentRow, present⟩ := isSome_iff_exists.mp there
  have kept : (tables.access.erase row.inode).lookup parent = some parentRow := by
    rw [AList.lookup_erase_ne other, present]
  refine ⟨{ tables with
    access := tables.access.erase row.inode, content := tables.content.erase (parent, name) },
    ?_, ?_⟩
  · simp [Tables.rmdir, Tables.transaction, Tables.rmdirBody, Tables.touch, Tables.deleteContent,
      require, ensure, found, directory, empty, kept, bind, Except.bind, pure, Except.pure]
  · refine ⟨rfl, ?_, fun _ => rfl, fun _ => Finset.Subset.refl _, fun no => absurd directory no⟩
    intro ino different
    exact AList.lookup_erase_ne (different.resolve_left (fun no => no directory))

/-- A link of a file with as many links as entries can be dropped. -/
theorem dropLink_removes {file : FileRow} (found : tables.content.lookup key = some row)
    (present : tables.file.lookup row.inode = some file)
    (counted : file.nlink = (tables.names row.inode).card) :
    ∃ after, (tables.deleteContent key).dropLink row.inode file key = .ok after ∧
      after.access = tables.access ∧
      (row.entryType ≠ .directory -> Removed tables after key row) := by
  have member : key ∈ tables.names row.inode := Tables.mem_names_self found
  have left := Tables.names_deleteContent tables key row.inode
  have erased := Tables.linkKeys_deleteLinkParent (tables.deleteContent key) row.inode key
  have fewer : ∀ ino,
      ((tables.deleteContent key).deleteLinkParent row.inode key).linkKeys ino ⊆
        tables.linkKeys ino := by
    intro ino
    refine (erased ino).trans_subset ?_
    split
    · exact erase_subset _ _
    · exact Finset.Subset.refl _
  unfold Tables.dropLink
  split_ifs with many
  · by_cases two : file.nlink - 1 = 1
    · rw [if_pos two]
      have remains : ((tables.deleteContent key).names row.inode).Nonempty := by
        rw [left, ← card_pos, card_erase_of_mem member]
        omega
      obtain ⟨other, named⟩ := remains
      cases entry : ((tables.deleteContent key).deleteLinkParent row.inode key).entryOf row.inode with
      | none =>
        exact absurd (Tables.mem_names.mp named)
          (Tables.lookup_ne_of_entryOf_none entry other)
      | some remaining =>
        refine ⟨_, rfl, rfl, fun noDirectory => ?_⟩
        have cleared := Tables.linkKeys_deleteLinkParents
          ((tables.deleteContent key).deleteLinkParent row.inode key) row.inode
        refine ⟨rfl, fun _ _ => rfl, symlinkTarget_insert present rfl, ?_, ?_⟩
        · intro ino
          refine (cleared ino).trans_subset ?_
          split
          · exact empty_subset _
          · exact fewer ino
        · intro _ _ there
          have none := (cleared row.inode).trans (if_pos rfl)
          exact absurd (none ▸ there : key ∈ (∅ : Finset Key)) (notMem_empty key)
    · rw [if_neg two]
      refine ⟨_, rfl, rfl, fun noDirectory => ?_⟩
      refine ⟨rfl, fun _ _ => rfl, symlinkTarget_insert present rfl, fewer, ?_⟩
      intro _ _ there
      have gone := (erased row.inode).trans (if_pos rfl)
      exact notMem_erase key _ (gone ▸ there)
  · refine ⟨_, rfl, rfl, fun noDirectory => ?_⟩
    refine ⟨rfl, fun _ _ => rfl, symlinkTarget_insert present rfl,
      fun _ => Finset.Subset.refl _, fun _ several => ?_⟩
    omega

theorem unlink_removes (wellFormed : WellFormed tables)
    (found : tables.content.lookup (parent, name) = some row)
    (noDirectory : row.entryType ≠ .directory) (there : (tables.access.lookup parent).isSome) :
    ∃ after, unlink tables parent name = (.ok (), after) ∧
      Removed tables after (parent, name) row := by
  have sound := wellFormed.sound found
  obtain ⟨file, present⟩ : ∃ file, tables.file.lookup row.inode = some file := by
    have kind := sound.kind
    unfold Tables.stat at kind
    cases rowFile : tables.file.lookup row.inode with
    | some file => exact ⟨file, rfl⟩
    | none =>
      rw [rowFile] at kind
      obtain ⟨_, _, same⟩ := map_eq_some_iff.mp kind
      exact absurd (sound.isDirectory (by rw [sound.kind, ← same])) noDirectory
  obtain ⟨after, dropped, access, removed⟩ :=
    dropLink_removes found present (sound.counted file present)
  obtain ⟨parentRow, parentPresent⟩ := isSome_iff_exists.mp there
  refine ⟨after, ?_, removed noDirectory⟩
  simp [unlink, sound.valid.1, Tables.unlink, Tables.transaction, Tables.unlinkBody,
    Tables.touch, require, ensure, found, noDirectory, present, dropped, access, parentPresent,
    bind, Except.bind, pure, Except.pure]

theorem isSome_access_of_stat (directory : tables.stat ino = some .dir) :
    (tables.access.lookup ino).isSome := by
  unfold Tables.stat at directory
  cases file : tables.file.lookup ino with
  | some row =>
    rw [file] at directory
    dsimp only at directory
    split at directory <;> cases directory
  | none =>
    rw [file] at directory
    obtain ⟨row, present, _⟩ := map_eq_some_iff.mp directory
    exact isSome_of_eq_some present

variable {after before : Tables}

section

variable (file : (after.file.lookup ino).map symlinkTarget =
  (before.file.lookup ino).map symlinkTarget)
include file

theorem stat_congr (access : after.access.lookup ino = before.access.lookup ino) :
    after.stat ino = before.stat ino := by
  unfold Tables.stat
  cases old : before.file.lookup ino <;> cases new : after.file.lookup ino <;> simp_all

theorem readSymlink_congr :
    after.readSymlink ino = before.readSymlink ino := by
  unfold Tables.readSymlink
  cases old : before.file.lookup ino <;> cases new : after.file.lookup ino <;>
    simp_all [require, bind, Except.bind]

end

/-- The entry has a new key, and its inode is what it was. -/
structure Moved (tables after : Tables) (source target : Key) (row : ContentRow) : Prop where
  content : after.content = (tables.content.erase source).insert target row
  access : after.access = tables.access
  file : forall ino, (after.file.lookup ino).map symlinkTarget =
    (tables.file.lookup ino).map symlinkTarget

variable {source target : Key}

theorem moveLink_succeeds (tables : Tables) (nlink : Int) (source : Key)
    (unlinked : target ∉ tables.linkKeys inode) :
    ∃ after, tables.moveLink inode nlink (tables.file.lookup inode) source target = .ok after ∧
      after.content = tables.content ∧ after.access = tables.access ∧
      ∀ ino, (after.file.lookup ino).map symlinkTarget =
        (tables.file.lookup ino).map symlinkTarget := by
  unfold Tables.moveLink
  split
  · have absent : (inode, target) ∉ (tables.deleteLinkParent inode source).linkParent := by
      intro member
      exact unlinked (Tables.mem_linkKeys.mpr (mem_of_mem_erase member))
    rw [Tables.insertLinkParent, ensure, if_pos absent]
    exact ⟨_, rfl, rfl, rfl, fun _ => rfl⟩
  split
  · rename_i row present
    split
    · exact ⟨_, rfl, rfl, rfl, symlinkTarget_insert present rfl⟩
    · exact ⟨_, rfl, rfl, rfl, fun _ => rfl⟩
  · exact ⟨_, rfl, rfl, rfl, fun _ => rfl⟩

/-- What a rename in the store needs in order to succeed. -/
theorem rename_succeeds (found : tables.content.lookup source = some row)
    (free : tables.content.lookup target = none)
    (oldParent : (tables.access.lookup source.1).isSome)
    (newParent : (tables.access.lookup target.1).isSome) (counted : (tables.stat row.inode).isSome)
    (unlinked : target ∉ tables.linkKeys row.inode) :
    ∃ after, tables.rename source.1 source.2 target.1 target.2 = (.ok (), after) ∧
      Moved tables after source target row := by
  obtain ⟨oldRow, oldPresent⟩ := isSome_iff_exists.mp oldParent
  obtain ⟨newRow, newPresent⟩ := isSome_iff_exists.mp newParent
  have stillFree : (tables.content.erase source).lookup target = none := by
    rw [AList.lookup_erase_ne, free]
    rintro rfl
    rw [free] at found
    cases found
  obtain ⟨nlink, links⟩ : ∃ nlink, tables.nlinkOf row.inode = some nlink := by
    unfold Tables.nlinkOf
    unfold Tables.stat at counted
    cases file : tables.file.lookup row.inode with
    | some file => exact ⟨_, rfl⟩
    | none =>
      rw [file] at counted
      obtain ⟨_, present⟩ := isSome_iff_exists.mp counted
      obtain ⟨access, there, _⟩ := map_eq_some_iff.mp present
      exact ⟨access.nlink, by rw [there]; rfl⟩
  obtain ⟨linked, done, content, access, file⟩ := moveLink_succeeds
    ((tables.deleteContent source).addContent target row) nlink source unlinked
  refine ⟨linked, ?_, content, access, file⟩
  have body : tables.renameBody source.1 source.2 target.1 target.2 = .ok ((), linked) := by
    simp only [Tables.renameBody, Tables.touch, Tables.insertContent, bind_eq_ok, require_eq_ok,
      ensure_eq_ok, pure_eq_ok, Prod.mk.injEq]
    exact ⟨newRow, newPresent, row, found, (), free, nlink, links, _, ⟨(), stillFree, rfl⟩, linked,
      done, linked, ⟨oldRow, access ▸ oldPresent, rfl⟩, linked, ⟨newRow, access ▸ newPresent, rfl⟩,
      trivial, rfl⟩
  unfold Tables.rename Tables.transaction
  rw [body]

variable {path : List String} {kind : FileType}

theorem resolvePath_of_lookupPath (looked : lookupPath tables path = .ok (some (ino, kind))) :
    resolvePath tables path = .ok ino ∧ tables.stat ino = some kind := by
  unfold lookupPath MetaClient.lookupPath at looked
  cases resolved : resolvePath tables path with
  | error error =>
    rw [resolved] at looked
    cases error <;> cases looked
  | ok found =>
    rw [resolved] at looked
    dsimp only at looked
    cases known : tables.stat found with
    | none =>
      rw [known] at looked
      cases looked
    | some foundKind =>
      rw [known] at looked
      cases looked
      exact ⟨rfl, known⟩

theorem lookupPath_of_resolvePath (resolved : resolvePath tables path = .ok ino)
    (known : tables.stat ino = some kind) : lookupPath tables path = .ok (some (ino, kind)) := by
  simp only [lookupPath, MetaClient.lookupPath, resolved, known]
  rfl

/-! ## The tree once the destination is gone -/

/-- Nothing is left at `target`, and all else that a path could lead to is as before. -/
structure Cleared (tables after : Tables) (target : Key) : Prop where
  content : forall key, after.content.lookup key = (tables.deleteContent target).content.lookup key
  stat : forall ino, (tables.deleteContent target).Named ino -> after.stat ino = tables.stat ino
  readSymlink : forall ino, (tables.deleteContent target).Named ino ->
    after.readSymlink ino = tables.readSymlink ino
  unlinked : forall key row, after.content.lookup key = some row ->
    target ∉ after.linkKeys row.inode

theorem lookup_deleteContent_eq_some :
    (tables.deleteContent target).content.lookup key = some row ↔
      key ≠ target ∧ tables.content.lookup key = some row := by
  rw [Tables.deleteContent, lookup_erase_eq_ite]
  split_ifs with here <;> simp [here]

theorem WellFormed.cleared_of_free (wellFormed : WellFormed tables)
    (free : tables.content.lookup target = none) : Cleared tables tables target where
  content key := by
    rw [Tables.deleteContent, lookup_erase_eq_ite]
    split
    · rename_i here
      rw [here, free]
    · rfl
  stat _ _ := rfl
  readSymlink _ _ := rfl
  unlinked key row found linked := by
    have named := (wellFormed.sound found).links linked
    rw [Tables.mem_names, free] at named
    cases named

theorem WellFormed.cleared_of_removed (wellFormed : WellFormed tables)
    (found : tables.content.lookup target = some row)
    (removed : Removed tables after target row) : Cleared tables after target where
  content key := by
    rw [removed.content]
    rfl
  stat ino named := by
    refine stat_congr (removed.file ino) (removed.access ino ?_)
    by_cases directory : row.entryType = .directory
    swap
    · exact .inl directory
    right
    rintro rfl
    have sound := wellFormed.sound found
    rcases named with root | ⟨key, entered⟩
    · exact sound.notRoot root
    obtain ⟨other, present, same⟩ := lookup_eq_some.mp entered
    obtain ⟨different, present⟩ := lookup_deleteContent_eq_some.mp present
    have member : key ∈ tables.names row.inode :=
      Tables.mem_names.mpr (map_eq_some_iff.mpr ⟨other, present, same⟩)
    rw [sound.single directory, mem_singleton] at member
    exact different member
  readSymlink ino _ := readSymlink_congr (removed.file ino)
  unlinked key other present linked := by
    have different : key ≠ target := by
      rintro rfl
      rw [removed.content, AList.lookup_erase] at present
      cases present
    rw [removed.content, AList.lookup_erase_ne different] at present
    have sound := wellFormed.sound found
    have named := (wellFormed.sound present).links (removed.links _ linked)
    rw [Tables.mem_names, found] at named
    have same : row.inode = other.inode := Option.some.inj named
    have here : target ∈ tables.names row.inode := Tables.mem_names_self found
    have there : key ∈ tables.names row.inode := same ▸ Tables.mem_names_self present
    -- The link row of a file with several entries is deleted with the entry.
    have noDirectory : row.entryType ≠ .directory := by
      intro directory
      rw [sound.single directory, mem_singleton] at there
      exact different there
    have several : 2 ≤ (tables.names row.inode).card :=
      one_lt_card.mpr ⟨key, there, target, here, different⟩
    exact removed.freed noDirectory several (same ▸ linked)

namespace Cleared

variable (cleared : Cleared tables after target)
include cleared

theorem lookup_target :
    after.content.lookup target = none := by
  rw [cleared.content, Tables.deleteContent, lookup_erase_eq_ite, if_pos rfl]

theorem lookup_ne (different : key ≠ target) :
    after.content.lookup key = tables.content.lookup key := by
  rw [cleared.content, Tables.deleteContent, lookup_erase_eq_ite, if_neg different]

end Cleared

/-! ## The tree without the source and the target -/

variable {cleared : Tables}

theorem lookup_without_eq_some :
    (without tables source target).content.lookup key = some row ↔
      key ≠ source ∧ key ≠ target ∧ tables.content.lookup key = some row := by
  rw [without, lookup_deleteContent_eq_some, lookup_deleteContent_eq_some]

theorem named_of_without (named : (without tables source target).Named ino) :
    (tables.deleteContent target).Named ino := by
  rcases named with root | ⟨key, entered⟩
  · exact .inl root
  · obtain ⟨row, present, same⟩ := lookup_eq_some.mp entered
    have kept := (lookup_deleteContent_eq_some.mp present).2
    exact .inr ⟨key, lookup_eq_some.mpr ⟨row, kept, same⟩⟩

/-- A tree that differs at `source` and `target` only, and has nothing there but the
source, contains the tree without them. -/
theorem WellFormed.within_of_ends (wellFormed : WellFormed tables)
    (others : ∀ key, key ≠ source -> key ≠ target ->
      after.content.lookup key = tables.content.lookup key)
    (ends : ∀ key row, key = source ∨ key = target -> after.content.lookup key = some row ->
      tables.content.lookup source = some row)
    (stat : ∀ ino, (tables.deleteContent target).Named ino -> after.stat ino = tables.stat ino)
    (readSymlink : ∀ ino, (tables.deleteContent target).Named ino ->
      after.readSymlink ino = tables.readSymlink ino) :
    Tables.Within (without tables source target) after := by
  -- Every entry was one before, at its own key or at `source`.
  have origin : ∀ (key : Key) (ino : Int), after.lookup key.1 key.2 = some ino ->
      tables.lookup source.1 source.2 = some ino ∨
        key ≠ source ∧ tables.lookup key.1 key.2 = some ino := by
    intro key ino entered
    obtain ⟨row, present, named⟩ := lookup_eq_some.mp entered
    by_cases atEnds : key = source ∨ key = target
    · exact .inl (lookup_eq_some.mpr ⟨row, ends key row atEnds present, named⟩)
    · obtain ⟨one, two⟩ := not_or.mp atEnds
      rw [others key one two] at present
      exact .inr ⟨one, lookup_eq_some.mpr ⟨row, present, named⟩⟩
  have notRoot : ∀ key : Key, tables.lookup key.1 key.2 ≠ some 1 := by
    intro key entered
    obtain ⟨row, present, named⟩ := lookup_eq_some.mp entered
    exact (wellFormed.sound present).notRoot named
  refine ⟨?_, fun ino named => stat ino (named_of_without named),
    fun ino named => readSymlink ino (named_of_without named), ?_, ?_, ?_⟩
  · intro key ino entered
    obtain ⟨row, present, named⟩ := lookup_eq_some.mp entered
    obtain ⟨one, two, present⟩ := lookup_without_eq_some.mp present
    exact lookup_eq_some.mpr ⟨row, (others key one two).trans present, named⟩
  · intro key ino entered
    obtain ⟨row, present, _⟩ := lookup_eq_some.mp entered
    exact (wellFormed.sound (lookup_without_eq_some.mp present).2.2).parent
  · intro ino first second directory entered also
    obtain ⟨row, present, named⟩ := lookup_eq_some.mp entered
    obtain ⟨one, _, present⟩ := lookup_without_eq_some.mp present
    have found := lookup_eq_some.mpr ⟨row, present, named⟩
    rcases origin second ino also with moved | ⟨_, kept⟩
    · exact absurd (wellFormed.single directory found moved) one
    · exact wellFormed.single directory found kept
  · intro key entered
    rcases origin key 1 entered with moved | ⟨_, kept⟩
    · exact notRoot source moved
    · exact notRoot key kept

theorem WellFormed.within_cleared (wellFormed : WellFormed tables)
    (clear : Cleared tables cleared target) :
    Tables.Within (without tables source target) cleared := by
  refine wellFormed.within_of_ends (fun key _ two => clear.lookup_ne two) ?_ clear.stat
    clear.readSymlink
  rintro key row atEnds present
  by_cases here : key = target
  · rw [here, clear.lookup_target] at present
    cases present
  · rw [clear.lookup_ne here] at present
    rwa [← atEnds.resolve_right here]

section Moving

variable (clear : Cleared tables cleared target) (moved : Moved cleared after source target row)
include clear moved

theorem lookup_moved (key : Key) :
    after.content.lookup key =
      if key = target then some row else if key = source then none
      else tables.content.lookup key := by
  rw [moved.content, lookup_insert_eq_ite, lookup_erase_eq_ite]
  split_ifs with here there
  · rfl
  · rfl
  · exact clear.lookup_ne here

theorem gone_of_moved (different : source ≠ target) : after.lookup source.1 source.2 = none := by
  unfold Tables.lookup
  rw [lookup_moved clear moved, if_neg different, if_pos rfl]
  rfl

variable (found : tables.content.lookup source = some row)
include found

theorem within_moved (wellFormed : WellFormed tables) :
    Tables.Within (without tables source target) after := by
  refine wellFormed.within_of_ends ?_ ?_ ?_ ?_
  · intro key one two
    rw [lookup_moved clear moved, if_neg two, if_neg one]
  · rintro key other atEnds present
    rw [lookup_moved clear moved] at present
    split at present
    · rw [found, present]
    · rename_i elsewhere
      rw [if_pos (atEnds.resolve_right elsewhere)] at present
      cases present
  · intro ino named
    exact (stat_congr (moved.file ino) (by rw [moved.access])).trans (clear.stat ino named)
  · intro ino named
    exact (readSymlink_congr (moved.file ino)).trans (clear.readSymlink ino named)

theorem carried_of_moved (different : source ≠ target) : Carried tables after source target where
  moved := by
    unfold Tables.lookup
    rw [lookup_moved clear moved, if_pos rfl, found]
  left := .inr (.inl (gone_of_moved clear moved different))
  others key one two := by
    unfold Tables.lookup
    rw [lookup_moved clear moved, if_neg two, if_neg one]

end Moving

end VFS
end Rk8s.Slayerfs
