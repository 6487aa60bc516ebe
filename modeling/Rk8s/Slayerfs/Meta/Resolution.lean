import Rk8s.Slayerfs.Meta.Client
import Rk8s.Slayerfs.Meta.Database.HardLinks

namespace Rk8s.Slayerfs.DatabaseMetaStore

open Option List

/-!
# What the resolution of a path depends on

A path that is found in a tree is found in every tree with more entries, if these
agree on the kinds and link targets of the inodes that the smaller one names.  The
path of a directory is looked for from its entry upwards, so this needs that a
directory has only one entry; then the entries on the way up are distinct, and the
search does not end too early.

The entry at the end of a path is the one in the directory that the rest of the
path leads to.  The last name may not be `.` or `..`: behind a symbolic link these
are resolved as text.
-/

variable {ino : Int} {tables small big : Tables}

namespace Tables

/-- An inode that a path may lead to. -/
def Named (tables : Tables) (ino : Int) : Prop :=
  ino = 1 ∨ Exists fun key : Key => tables.lookup key.1 key.2 = some ino

/-- What a path finds in `small` is the same in `big`, where the directories of `small`
have no other entry. -/
structure Within (small big : Tables) : Prop where
  lookup : forall (key : Key) (ino : Int), small.lookup key.1 key.2 = some ino ->
    big.lookup key.1 key.2 = some ino
  stat : forall ino, small.Named ino -> big.stat ino = small.stat ino
  readSymlink : forall ino, small.Named ino -> big.readSymlink ino = small.readSymlink ino
  parents : forall (key : Key) (ino : Int), small.lookup key.1 key.2 = some ino ->
    small.stat key.1 = some .dir
  single : forall (ino : Int) (first second : Key), small.stat ino = some .dir ->
    small.lookup first.1 first.2 = some ino -> big.lookup second.1 second.2 = some ino ->
    first = second
  root : forall key : Key, big.lookup key.1 key.2 ≠ some 1

/-- The keys on the way from an inode up to the root. -/
inductive Below (tables : Tables) : List Key -> Int -> Prop
  | root : Below tables [] 1
  | child {keys : List Key} {parent : Int} {name : String} {ino : Int} :
    Below tables keys parent -> tables.lookup parent name = some ino ->
      Below tables ((parent, name) :: keys) ino

variable {key : Key}

theorem lookup_of_entryOf
    (found : tables.entryOf ino = some key) : tables.lookup key.1 key.2 = some ino :=
  mem_names.mp (mem_names_of_entryOf found)

theorem lookup_ne_of_entryOf_none (missing : tables.entryOf ino = none)
    (key : Key) : tables.lookup key.1 key.2 ≠ some ino := by
  intro found
  obtain ⟨row, present, named⟩ := map_eq_some_iff.mp found
  have member := AList.mem_lookup_iff.mp present
  have unseen := find?_eq_none.mp (map_eq_none_iff.mp missing) _ member
  exact unseen (by simpa using named)

variable {keys others : List Key}

theorem Below.named (below : Below tables keys ino) : tables.Named ino := by
  cases below with
  | root => exact .inl rfl
  | @child _ parent name _ _ entry => exact .inr ⟨(parent, name), entry⟩

/-- The directory of a key on the way up is further up. -/
theorem Below.of_mem (below : Below tables keys ino) (member : key ∈ keys) :
    ∃ rest, Below tables rest key.1 ∧ rest.length < keys.length := by
  induction below with
  | root => cases member
  | @child keys _ _ _ above _ shorter =>
    rcases mem_cons.mp member with rfl | member
    · exact ⟨keys, above, by simp⟩
    · obtain ⟨rest, reached, fewer⟩ := shorter member
      exact ⟨rest, reached, by rw [length_cons]; omega⟩

namespace Within

variable (within : Within small big)
include within

theorem self : Within small small where
  lookup _ _ found := found
  stat _ _ := rfl
  readSymlink _ _ := rfl
  parents := within.parents
  single ino first second directory found also :=
    within.single ino first second directory found (within.lookup second ino also)
  root key found := within.root key (within.lookup key 1 found)

variable (below : Below small keys ino)
include below

theorem below_unique :
    ∀ others, small.stat ino = some .dir -> Below small others ino -> keys = others := by
  induction below with
  | root =>
    rintro others _ other
    cases other with
    | root => rfl
    | @child _ parent name _ _ entry => exact absurd entry (within.self.root (parent, name))
  | @child keys parent name ino _ entry higher =>
    rintro others directory other
    cases other with
    | root => exact absurd entry (within.self.root (parent, name))
    | @child keys' parent' name' _ above also =>
      cases within.self.single ino (parent, name) (parent', name') directory entry also
      rw [higher keys' (within.parents (parent, name) ino entry) above]

theorem nodup_of_below : keys.Nodup := by
  induction below with
  | root => exact nodup_nil
  | @child keys parent name ino above entry distinct =>
    refine nodup_cons.mpr ⟨fun member => ?_, distinct⟩
    obtain ⟨rest, reached, fewer⟩ := above.of_mem member
    rw [within.below_unique above rest (within.parents (parent, name) ino entry) reached] at fewer
    exact Nat.lt_irrefl _ fewer

theorem mem_keys_of_below (member : key ∈ keys) : key ∈ big.content.keys := by
  induction below with
  | root => cases member
  | @child _ parent name ino _ entry higher =>
    rcases mem_cons.mp member with rfl | member
    · obtain ⟨row, present, _⟩ := map_eq_some_iff.mp (within.lookup (parent, name) ino entry)
      exact AList.lookup_isSome.mp (isSome_of_eq_some present)
    · exact higher member

theorem length_le_of_below : keys.length ≤ big.content.entries.length := by
  have contained : keys ⊆ big.content.keys := fun _ member => within.mem_keys_of_below below member
  have shorter := ((within.nodup_of_below below).subperm contained).length_le
  simpa only [AList.keys, List.keys, length_map] using shorter

theorem pathOf_of_below :
    ∀ fuel, small.stat ino = some .dir -> keys.length < fuel ->
      big.pathOf fuel ino = some (keys.reverse.map Prod.snd) := by
  induction below with
  | root =>
    rintro (_ | fuel) _ enough
    · cases enough
    · rfl
  | @child keys parent name ino above entry higher =>
    rintro (_ | fuel) directory enough
    · cases enough
    have found := within.lookup (parent, name) ino entry
    have notRoot : ino ≠ 1 := by
      rintro rfl
      exact within.root (parent, name) found
    rw [pathOf, if_neg notRoot]
    cases first : big.entryOf ino with
    | none => exact absurd found (lookup_ne_of_entryOf_none first (parent, name))
    | some other =>
      cases within.single ino (parent, name) other directory entry (lookup_of_entryOf first)
      have up := higher fuel (within.parents (parent, name) ino entry)
        (Nat.lt_of_succ_lt_succ enough)
      rw [bind_some, up]
      simp

/-- A directory has the same path in both trees. -/
theorem pathOf (directory : small.stat ino = some .dir) :
    big.pathOf (big.content.entries.length + 1) ino =
      small.pathOf (small.content.entries.length + 1) ino := by
  have enough := Nat.lt_succ_of_le (within.length_le_of_below below)
  have also := Nat.lt_succ_of_le (within.self.length_le_of_below below)
  rw [within.pathOf_of_below below _ directory enough,
    within.self.pathOf_of_below below _ directory also]

end Within
end Tables

namespace MetaClient

open Tables

section

variable (within : Within small big)
include within

theorem walk_mono (path : List String) :
    ∀ keys current outcome, Below small keys current -> walk small current path = outcome ->
      (∀ error, outcome ≠ .failed error) -> walk big current path = outcome := by
  induction path with
  | nil => exact fun _ _ _ _ walked _ => walked
  | cons segment rest shorter =>
    intro keys current outcome below walked passed
    rw [walk] at walked ⊢
    rw [within.stat current below.named]
    split at walked
    · exact absurd walked.symm (passed _)
    rename_i inside
    rw [if_neg inside]
    cases entry : small.lookup current segment with
    | none =>
      rw [entry] at walked
      exact absurd walked.symm (passed _)
    | some child =>
      have under := Below.child below entry
      have directory := within.parents (current, segment) child entry
      rw [within.lookup (current, segment) child entry]
      rw [entry] at walked
      dsimp only at walked ⊢
      rw [within.stat child under.named, within.readSymlink child under.named,
        within.pathOf below directory]
      split
      · rename_i link
        rwa [if_pos link] at walked
      · rename_i plain
        rw [if_neg plain] at walked
        exact shorter _ child outcome under walked passed

theorem resolve_mono (budget : Nat) :
    ∀ path, resolve small budget path = .ok ino -> resolve big budget path = .ok ino := by
  induction budget with
  | zero => nofun
  | succ budget fewer =>
    intro path found
    have walked := walk_mono within path [] 1 (walk small 1 path) .root rfl
    rw [resolve] at found ⊢
    split at found
    · rename_i reached same
      rw [same] at walked
      rw [walked nofun]
      exact found
    · cases found
    · rename_i next same
      rw [same] at walked
      rw [walked nofun]
      exact fewer next found

/-- A path that is found in the smaller tree is found in the bigger one. -/
theorem resolvePath_mono {path : List String} (found : resolvePath small path = .ok ino) :
    resolvePath big path = .ok ino := by
  unfold resolvePath at found ⊢
  split at found
  · rename_i empty
    rw [if_pos empty, found]
  · rename_i nonempty
    rw [if_neg nonempty]
    exact resolve_mono within _ _ found

end

variable {path : List String}

theorem named_of_walk :
    ∀ current, tables.Named current -> walk tables current path = .found ino ->
      tables.Named ino := by
  induction path with
  | nil =>
    rintro current named ⟨⟩
    exact named
  | cons segment rest shorter =>
    intro current named found
    rw [walk] at found
    split at found
    · cases found
    split at found
    · cases found
    · rename_i child entry
      split at found
      · split at found <;> cases found
      · exact shorter child (.inr ⟨(current, segment), entry⟩) found

theorem named_of_resolve (budget : Nat) :
    ∀ path, resolve tables budget path = .ok ino -> tables.Named ino := by
  induction budget with
  | zero =>
    nofun
  | succ budget fewer =>
    intro path found
    rw [resolve] at found
    split at found
    · rename_i reached walked
      cases found
      exact named_of_walk 1 (.inl rfl) walked
    · cases found
    · exact fewer _ found

theorem named_of_resolvePath (found : resolvePath tables path = .ok ino) : tables.Named ino := by
  unfold resolvePath at found
  split at found
  · cases found
    exact .inl rfl
  · exact named_of_resolve _ _ found

/-! ## The last component -/

/-- The outcome of looking up the last component of a path. -/
def entryAt (tables : Tables) (parent : Int) (name : String) : Except MetaError Int :=
  require (tables.lookup parent name) (.notFound parent)

variable {name : String}

theorem normalizePath_append (path : List String) (plain : name ≠ ".")
    (down : name ≠ "..") : normalizePath (path ++ [name]) = normalizePath path ++ [name] := by
  rw [normalizePath, normalizePath, foldl_append, foldl_cons, foldl_nil, if_neg plain, if_neg down]

variable {parent : Int}

variable (directory : tables.stat parent = some .dir) (plain : name ≠ ".") (down : name ≠ "..")
include directory plain down

/-- The pass over a path with one more component ends in the directory of that
component, or starts again at the same symbolic link. -/
theorem walk_append (path : List String) :
    ∀ current,
      (walk tables current path = .found parent ->
        walk tables current (path ++ [name]) =
          match tables.lookup parent name with
          | some child => .found child
          | none => .failed (.notFound parent)) ∧
      (∀ next, walk tables current path = .follow next ->
        walk tables current (path ++ [name]) = .follow (next ++ [name])) := by
  induction path with
  | nil =>
    intro current
    refine ⟨?_, fun _ => nofun⟩
    rintro ⟨⟩
    rw [nil_append, walk, directory]
    cases tables.lookup parent name with
    | none => rfl
    | some child => simp [walk]
  | cons segment rest shorter =>
    intro current
    rw [cons_append, walk, walk]
    split
    · exact ⟨nofun, fun _ => nofun⟩
    cases entry : tables.lookup current segment with
    | none => exact ⟨nofun, fun _ => nofun⟩
    | some child =>
      dsimp only
      by_cases link : tables.stat child = some .symlink
      swap
      · rw [if_neg (fun both => link both.2), if_neg (fun both => link both.2)]
        exact shorter child
      by_cases last : rest = []
      · -- A link in the last place is where the path ends, and it is no directory.
        subst last
        refine ⟨?_, fun _ => nofun⟩
        rintro ⟨⟩
        rw [link] at directory
        cases directory
      rw [if_pos ⟨last, link⟩, if_pos ⟨by simp, link⟩]
      cases tables.readSymlink child with
      | error error =>
        exact ⟨nofun, fun _ => nofun⟩
      | ok target =>
        refine ⟨nofun, ?_⟩
        rintro next ⟨⟩
        dsimp only
        rw [← append_assoc, normalizePath_append _ plain down]

theorem resolve_append (budget : Nat) :
    ∀ path, resolve tables budget path = .ok parent ->
      resolve tables budget (path ++ [name]) = entryAt tables parent name := by
  induction budget with
  | zero =>
    nofun
  | succ budget fewer =>
    intro path found
    have appended := walk_append directory plain down path 1
    rw [resolve] at found ⊢
    split at found
    · rename_i reached walked
      cases found
      rw [appended.1 walked, entryAt]
      cases tables.lookup parent name with
      | none => rfl
      | some child => rfl
    · cases found
    · rename_i next walked
      rw [appended.2 next walked]
      exact fewer next found

/-- A path with a last name that is not a dot leads to the entry of that name in the
directory that the rest of the path leads to. -/
theorem resolvePath_append {dir : List String} (found : resolvePath tables dir = .ok parent) :
    resolvePath tables (dir ++ [name]) = entryAt tables parent name := by
  rw [resolvePath, if_neg (by simp)]
  apply resolve_append directory plain down
  rw [resolvePath] at found
  split at found
  · rename_i root
    subst root
    exact found
  · exact found

end MetaClient
end Rk8s.Slayerfs.DatabaseMetaStore
