import Mathlib.Data.List.AList
import Mathlib.Data.List.Perm.Basic
import Mathlib.Tactic.Ring

namespace Rk8s

open List

universe u v w

open Std

/-!
# Vectors and maps that loops update

`Vec::swap_remove`, and what a map holds after a loop has inserted or altered
entries.  The lemmas about loops speak of one key at a time, so that a proof
looks only at the rounds that touch the key.
-/

section Vectors

variable {α : Type u}

/-- `Vec::swap_remove`: the last element takes the place of the removed one. -/
def swapRemove (list : List α) (index : Nat) : List α :=
  match list.getLast? with
  | none => []
  | some last => (list.set index last).dropLast

theorem swapRemove_perm {list : List α} {index : Nat} (inside : index < list.length) :
    (swapRemove list index).Perm (list.eraseIdx index) := by
  rcases eq_nil_or_concat list with rfl | ⟨init, last, rfl⟩
  · exact Perm.refl _
  simp only [concat_eq_append, length_append, length_singleton] at inside ⊢
  simp only [swapRemove, getLast?_append, getLast?_singleton, Option.some_or]
  by_cases isLast : index = init.length
  · subst isLast
    simp [eraseIdx_append_of_length_le]
  · have before : index < init.length := by omega
    rw [set_append_left _ _ before, dropLast_concat, eraseIdx_append_of_lt_length before]
    exact (set_perm_cons_eraseIdx before last).trans (perm_append_singleton last _).symm

end Vectors

section Tables

variable {Name : Type u} {Row : Type v} [DecidableEq Name] {table : AList fun _ : Name => Row}
variable {name other : Name}

theorem lookup_insert_eq_ite {row : Row} :
    (table.insert name row).lookup other =
      if other = name then some row else table.lookup other := by
  split_ifs with same
  · rw [same, AList.lookup_insert]
  · exact AList.lookup_insert_ne same

theorem lookup_erase_eq_ite :
    (table.erase name).lookup other = if other = name then none else table.lookup other := by
  split_ifs with same
  · rw [same, AList.lookup_erase]
  · exact AList.lookup_erase_ne same

end Tables

section Maps

variable {Key : Type u} {Value : Type v} [Ord Key] [TransOrd Key] [LawfulEqOrd Key]

section Lookup

variable [DecidableEq Key] (map : ExtTreeMap Key Value) (key other : Key)

theorem lookup_insert (value : Value) :
    (map.insert key value)[other]? = if key = other then some value else map[other]? := by
  simp only [ExtTreeMap.getElem?_insert, Std.compare_eq_iff_eq]

theorem lookup_erase : (map.erase key)[other]? = if key = other then none else map[other]? := by
  simp only [ExtTreeMap.getElem?_erase, Std.compare_eq_iff_eq]

theorem lookup_alter (update : Option Value -> Option Value) :
    (map.alter key update)[other]? = if key = other then update map[key]? else map[other]? := by
  simp only [ExtTreeMap.getElem?_alter, Std.compare_eq_iff_eq]

theorem lookup_modify (update : Value -> Value) :
    (map.modify key update)[other]? =
      if key = other then map[key]?.map update else map[other]? := by
  simp only [ExtTreeMap.getElem?_modify, Std.compare_eq_iff_eq]

end Lookup

/-- Writing something for each item of a list, if no two items have one key. -/
theorem getElem?_insertMany_of_function {Item : Type*} {items : List Item} {keyOf : Item -> Key}
    (found : Key -> Option Item)
    (exact : ∀ key item, item ∈ items ∧ keyOf item = key ↔ found key = some item)
    (map : ExtTreeMap Key Value) (value : Item -> Value) (key : Key) :
    (map.insertMany (items.map fun item => (keyOf item, value item)))[key]? =
      ((found key).map value).or map[key]? := by
  classical
  rw [ExtTreeMap.getElem?_insertMany_list, findSomeRev?_eq_findSome?_reverse]
  congr 1
  cases result : List.findSome? _ _ with
  | none =>
    cases isFound : found key with
    | none => rfl
    | some item =>
      obtain ⟨member, rfl⟩ := (exact key item).mpr isFound
      simpa using findSome?_eq_none_iff.mp result _
        (mem_reverse.mpr (mem_map_of_mem member))
  | some written =>
    obtain ⟨entry, member, isKey⟩ := exists_of_findSome?_eq_some result
    obtain ⟨item, isItem, rfl⟩ := mem_map.mp (mem_reverse.mp member)
    simp only [Std.compare_eq_iff_eq, Option.ite_none_right_eq_some, Option.some.injEq] at isKey
    rw [(exact key item).mp ⟨isItem, isKey.1⟩, Option.map_some, isKey.2]

variable {update : Option Value -> Option Value} {keys : List Key}

/-- A loop that alters the entries of some keys leaves the others alone. -/
theorem getElem?_foldl_alter_of_notMem {map : ExtTreeMap Key Value} {key : Key}
    (absent : key ∉ keys) :
    (keys.foldl (fun map key => map.alter key update) map)[key]? = map[key]? := by
  induction keys generalizing map with
  | nil => rfl
  | cons first keys ih =>
    obtain ⟨different, absent⟩ := ne_and_not_mem_of_not_mem_cons absent
    rw [foldl_cons, ih absent, ExtTreeMap.getElem?_alter, if_neg]
    simpa using different.symm

/-- It alters each entry once, if no key is repeated. -/
theorem getElem?_foldl_alter_of_mem {map : ExtTreeMap Key Value} {key : Key}
    (distinct : keys.Nodup) (member : key ∈ keys) :
    (keys.foldl (fun map key => map.alter key update) map)[key]? = update map[key]? := by
  induction keys generalizing map with
  | nil => cases member
  | cons first keys ih =>
    obtain ⟨fresh, distinct⟩ := nodup_cons.mp distinct
    rw [foldl_cons]
    rcases mem_cons.mp member with rfl | member
    · rw [getElem?_foldl_alter_of_notMem fresh, ExtTreeMap.getElem?_alter_self]
    · rw [ih distinct member, ExtTreeMap.getElem?_alter, if_neg]
      simp only [Std.compare_eq_iff_eq]
      rintro rfl
      exact fresh member

end Maps

end Rk8s
