import Rk8s.Lib.Collections

namespace Rk8s.Totals

open List

universe u v

open Std

/-!
# Sums over the entries of a map

A counter that a program keeps beside a map is compared with the sum over the
entries.  One lemma for each way to change the map says how the sum changes.
-/

variable {Key : Type u} {Value : Type v} [Ord Key] [TransOrd Key] [LawfulEqOrd Key]

/-- The sum of an amount over all entries. -/
def total (amount : Key -> Value -> Nat) (map : ExtTreeMap Key Value) : Nat :=
  (map.toList.map fun entry => amount entry.1 entry.2).sum

/-- The part of one key in the sum. -/
def part (amount : Key -> Value -> Nat) (map : ExtTreeMap Key Value) (key : Key) : Nat :=
  (map[key]?.map (amount key)).getD 0

variable {amount : Key -> Value -> Nat} {map : ExtTreeMap Key Value} {key : Key} {value : Value}

theorem nodup_toList (map : ExtTreeMap Key Value) : map.toList.Nodup := by
  refine map.distinct_keys_toList.imp ?_
  rintro first _ different rfl
  exact different (by simp)

theorem toList_insert_perm (map : ExtTreeMap Key Value) (key : Key) (value : Value) :
    (map.insert key value).toList.Perm ((key, value) :: (map.erase key).toList) := by
  have fresh : (key, value) ∉ (map.erase key).toList := by
    simp [ExtTreeMap.mem_toList_iff_getElem?_eq_some]
  refine (perm_ext_iff_of_nodup (nodup_toList _)
    (nodup_cons.mpr ⟨fresh, nodup_toList _⟩)).mpr ?_
  rintro ⟨other, found⟩
  rw [mem_cons, ExtTreeMap.mem_toList_iff_getElem?_eq_some,
    ExtTreeMap.mem_toList_iff_getElem?_eq_some, ExtTreeMap.getElem?_insert,
    ExtTreeMap.getElem?_erase]
  by_cases same : key = other
  · subst same
    simp [eq_comm]
  · simp [same, Ne.symm same]

theorem insert_erase_of_lookup (known : map[key]? = some value) :
    (map.erase key).insert key value = map := by
  refine ExtTreeMap.ext_getElem? fun other => ?_
  rw [ExtTreeMap.getElem?_insert, ExtTreeMap.getElem?_erase]
  by_cases same : key = other
  · subst same
    simp [known]
  · simp [same]

/-- An inserted entry adds its amount to the sum over the others. -/
theorem total_insert (map : ExtTreeMap Key Value) (key : Key) (value : Value) :
    total amount (map.insert key value) = amount key value + total amount (map.erase key) := by
  unfold total
  rw [((toList_insert_perm map key value).map _).sum_nat, map_cons, sum_cons]

/-- The sum over the other entries lacks the part of the key. -/
theorem total_eq_part_add (map : ExtTreeMap Key Value) (key : Key) :
    total amount map = part amount map key + total amount (map.erase key) := by
  unfold part
  cases known : map[key]? with
  | none =>
    have same : map.erase key = map := by
      refine ExtTreeMap.ext_getElem? fun other => ?_
      rw [ExtTreeMap.getElem?_erase]
      by_cases same : key = other
      · subst same
        simp [known]
      · simp [same]
    simp [same]
  | some value =>
    have erased : (map.erase key).erase key = map.erase key := by
      refine ExtTreeMap.ext_getElem? fun other => ?_
      simp only [ExtTreeMap.getElem?_erase]
      split <;> rfl
    calc total amount map
      _ = total amount ((map.erase key).insert key value) := by
        rw [insert_erase_of_lookup known]
      _ = amount key value + total amount (map.erase key) := by rw [total_insert, erased]

/-- Amounts that agree on the entries of the map have the same sum. -/
theorem total_congr (other : Key -> Value -> Nat)
    (agree : ∀ (key : Key) (value : Value),
      map[key]? = some value -> amount key value = other key value) :
    total amount map = total other map := by
  refine congrArg List.sum (map_congr_left fun entry member => ?_)
  exact agree entry.1 entry.2 (ExtTreeMap.mem_toList_iff_getElem?_eq_some.mp member)

omit [LawfulEqOrd Key] in
theorem total_map (change : Key -> Value -> Value) :
    total amount (map.map change) = total (fun key value => amount key (change key value)) map := by
  unfold total
  rw [ExtTreeMap.toList_map, map_map]
  rfl

end Rk8s.Totals
