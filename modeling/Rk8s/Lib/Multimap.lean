import Rk8s.Lib.Collections

namespace Rk8s.Multimap

open List

universe u v

open Std ExtTreeMap

/-!
# Maps from keys to lists

A loop that collects values appends them to the lists of their keys.  What the
map holds afterwards is described key by key with `valuesOf`.
-/

variable {Key : Type u} {Value : Type v} [Ord Key] [TransOrd Key] [LawfulEqOrd Key]
  [DecidableEq Key]

variable (map : ExtTreeMap Key (List Value))

/-- The values of a key, none if the key is absent. -/
def valuesOf (key : Key) : List Value := map[key]?.getD []

/-- Append values to those of a key. -/
def extend (key : Key) (values : List Value) : ExtTreeMap Key (List Value) :=
  map.alter key fun before => some (before.getD [] ++ values)

variable {map : ExtTreeMap Key (List Value)} {key other : Key} {values : List Value}

theorem valuesOf_extend :
    valuesOf (extend map key values) other =
      if key = other then valuesOf map other ++ values else valuesOf map other := by
  unfold valuesOf extend
  rw [lookup_alter]
  split
  · next same => simp [same]
  · rfl

theorem isSome_extend :
    (extend map key values)[other]?.isSome = (decide (key = other) || map[other]?.isSome) := by
  unfold extend
  rw [lookup_alter]
  split
  · next same => simp [same]
  · next different => simp [different]

omit [DecidableEq Key] in
theorem eq_of_valuesOf {first second : ExtTreeMap Key (List Value)}
    (sameValues : ∀ key, valuesOf first key = valuesOf second key)
    (sameKeys : ∀ key : Key, first[key]?.isSome = second[key]?.isSome) : first = second := by
  refine ext_getElem? fun key => ?_
  have equal := sameValues key
  have present := sameKeys key
  unfold valuesOf at equal
  cases inFirst : first[key]? <;> cases inSecond : second[key]? <;> simp_all

omit [DecidableEq Key] in
theorem valuesOf_filter (within : Key -> Bool) :
    valuesOf (map.filter fun key _ => within key) key =
      if within key then valuesOf map key else [] := by
  unfold valuesOf
  rw [getElem?_filter']
  cases within key <;> cases map[key]? <;> simp [Option.filter]

omit [DecidableEq Key] in
theorem isSome_filter (within : Key -> Bool) :
    (map.filter fun key _ => within key)[key]?.isSome = (within key && map[key]?.isSome) := by
  rw [getElem?_filter']
  cases within key <;> cases map[key]? <;> simp [Option.filter]

section Loops

variable {entries : List (Key × List Value)}

theorem valuesOf_foldl_extend :
    valuesOf (entries.foldl (fun map entry => extend map entry.1 entry.2) map) key =
      valuesOf map key ++ (entries.filter fun entry => entry.1 = key).flatMap Prod.snd := by
  induction entries generalizing map with
  | nil => simp
  | cons entry entries ih =>
    rw [foldl_cons, ih, valuesOf_extend]
    by_cases same : entry.1 = key <;> simp [same]

theorem isSome_foldl_extend :
    (entries.foldl (fun map entry => extend map entry.1 entry.2) map)[key]?.isSome =
      (map[key]?.isSome || entries.any fun entry => entry.1 = key) := by
  induction entries generalizing map with
  | nil => simp
  | cons entry entries ih =>
    rw [foldl_cons, ih, isSome_extend]
    by_cases same : entry.1 = key <;> simp [same]

theorem flatMap_filter_toList (map : ExtTreeMap Key (List Value)) (key : Key) :
    (map.toList.filter fun entry => entry.1 = key).flatMap Prod.snd = valuesOf map key := by
  have distinct := map.distinct_keys_toList
  unfold valuesOf
  cases found : map[key]? with
  | none =>
    have absent : (map.toList.filter fun entry => entry.1 = key) = [] := by
      refine filter_eq_nil_iff.mpr fun entry member same => ?_
      have there := mem_toList_iff_getElem?_eq_some.mp member
      simp_all
    simp [absent]
  | some values =>
    obtain ⟨front, back, split⟩ := append_of_mem (mem_toList_iff_getElem?_eq_some.mpr found)
    rw [split, pairwise_append, pairwise_cons] at distinct
    obtain ⟨_, ⟨after, _⟩, before⟩ := distinct
    have inFront : (front.filter fun entry => entry.1 = key) = [] := by
      refine filter_eq_nil_iff.mpr fun entry member => ?_
      have different := before entry member (key, values) (by simp)
      simpa using different
    have inBack : (back.filter fun entry => entry.1 = key) = [] := by
      refine filter_eq_nil_iff.mpr fun entry member => ?_
      have different := after entry member
      simp only [Std.compare_eq_iff_eq] at different
      simpa using Ne.symm different
    simp [split, inFront, inBack]

theorem any_toList (map : ExtTreeMap Key (List Value)) (key : Key) :
    (map.toList.any fun entry => entry.1 = key) = map[key]?.isSome := by
  rw [Bool.eq_iff_iff]
  simp only [any_eq_true, decide_eq_true_eq, Option.isSome_iff_exists]
  constructor
  · rintro ⟨entry, member, rfl⟩
    exact ⟨entry.2, mem_toList_iff_getElem?_eq_some.mp member⟩
  · rintro ⟨values, found⟩
    exact ⟨(key, values), mem_toList_iff_getElem?_eq_some.mpr found, rfl⟩

end Loops

end Rk8s.Multimap
