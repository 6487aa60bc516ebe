import Mathlib.Data.List.TakeWhile
import Mathlib.Tactic.Ring

namespace Rk8s.BinarySearch

open List

universe u

/-!
# Binary search in a slice

The search of the standard library keeps a base and a size and halves the size
until one element is left.  It moves the base up as long as the probed element
is not above the target, so on a sorted slice the base ends at the last element
that is not above it, also where several elements compare equal.

The specification is in terms of the part of the list before the first element
above the target, `list.takeWhile`.
-/

variable {α : Type u}

/-- The loop of the search: the base after the size has been halved down to one.
`fuel` bounds the number of rounds; the initial size is always enough. -/
def narrow (probe : Nat -> Ordering) : Nat -> Nat -> Nat -> Nat
  | 0, base, _ => base
  | fuel + 1, base, size =>
    if 1 < size then
      let half := size / 2
      narrow probe fuel (if probe (base + half) = .gt then base else base + half) (size - half)
    else
      base

/-- `slice::binary_search_by`: the index of a matching element, or the index
where one could be inserted. -/
def binarySearchBy (order : α -> Ordering) (list : List α) : Except Nat Nat :=
  let base := narrow (fun index => (list[index]?.map order).getD .gt) list.length 0 list.length
  match list[base]?.map order with
  | none => .error 0
  | some .eq => .ok base
  | some .lt => .error (base + 1)
  | some .gt => .error base

/-- `slice::partition_point`: the search for the end of the leading elements
that satisfy the predicate. -/
def partitionPoint (holds : α -> Bool) (list : List α) : Nat :=
  match binarySearchBy (fun element => if holds element then .lt else .gt) list with
  | .ok index => index
  | .error index => index

/-- Where the loop ends.  `bound` counts the leading elements that are not above
the target; the base stays below it and the rest of the range reaches it. -/
theorem narrow_eq (probe : Nat -> Ordering) (bound : Nat) :
    ∀ fuel base size, size ≤ fuel -> 0 < size ->
      (∀ index < base + size, (probe index ≠ .gt ↔ index < bound)) ->
      (0 < bound -> base < bound) -> (bound = 0 -> base = 0) -> bound ≤ base + size ->
      narrow probe fuel base size = bound - 1 := by
  intro fuel
  induction fuel with
  | zero => intro base size enough nonempty; omega
  | succ fuel ih =>
    intro base size enough nonempty split above empty reach
    rw [narrow]
    by_cases more : 1 < size
    swap
    · rw [if_neg more]
      omega
    rw [if_pos more]
    have probed := split (base + size / 2) (by omega)
    by_cases gt : probe (base + size / 2) = .gt
    · have beyond : bound ≤ base + size / 2 := by
        by_contra inside
        exact probed.mpr (by omega) gt
      simp only [gt]
      exact ih base (size - size / 2) (by omega) (by omega)
        (fun index within => split index (by omega)) above empty (by omega)
    · have inside := probed.mp gt
      simp only [gt]
      exact ih (base + size / 2) (size - size / 2) (by omega) (by omega)
        (fun index within => split index (by omega)) (fun _ => inside) (by omega) (by omega)

variable {element : α} {order : α -> Ordering} {list : List α}

/-- Elements above the target come last. -/
def Ascending (order : α -> Ordering) (list : List α) : Prop :=
  list.Pairwise fun earlier later => order earlier = .gt -> order later = .gt

/-- The elements before the first one above the target. -/
def upTo (order : α -> Ordering) (list : List α) : List α :=
  list.takeWhile fun element => order element ≠ .gt

theorem order_of_mem_upTo (member : element ∈ upTo order list) : order element ≠ .gt := by
  simpa using mem_takeWhile_imp member

/-- In an ascending list the elements that are not above the target are the
leading ones. -/
theorem probe_iff (ascending : Ascending order list) (index : Nat) :
    (list[index]?.map order).getD .gt ≠ .gt ↔ index < (upTo order list).length := by
  induction list generalizing index with
  | nil => simp [upTo]
  | cons first rest ih =>
    obtain ⟨firstBelow, restAscending⟩ := pairwise_cons.mp ascending
    by_cases above : order first = .gt
    · have allAbove : ∀ position : Nat,
          (((first :: rest)[position]?).map order).getD .gt = .gt := by
        intro position
        cases position with
        | zero => simpa using above
        | succ position =>
          rw [getElem?_cons_succ]
          cases found : rest[position]? with
          | none => rfl
          | some element =>
            exact firstBelow element (mem_of_getElem? found) above
      simp [upTo, above, allAbove index]
    · have counted : (upTo order (first :: rest)).length = (upTo order rest).length + 1 := by
        simp [upTo, above]
      cases index with
      | zero => simp [counted, above]
      | succ index =>
        rw [getElem?_cons_succ, ih restAscending]
        omega

/-- The search looks at the last element that is not above the target. -/
theorem binarySearchBy_eq (ascending : Ascending order list) :
    binarySearchBy order list =
      match (upTo order list).getLast? with
      | none => .error 0
      | some last =>
        if order last = .eq then .ok ((upTo order list).length - 1)
        else .error (upTo order list).length := by
  cases list with
  | nil => rfl
  | cons first rest =>
    have ends := narrow_eq (fun index => (((first :: rest)[index]?).map order).getD .gt)
      (upTo order (first :: rest)).length (first :: rest).length 0 (first :: rest).length
      le_rfl (by simp) (fun index _ => probe_iff ascending index)
      id (fun _ => rfl)
      (by rw [zero_add]; exact ( takeWhile_prefix _).length_le)
    simp only [binarySearchBy, ends]
    cases leading : upTo order (first :: rest) with
    | nil =>
      have above : order first = .gt := by
        by_contra below
        simp [upTo, below] at leading
      simp [above]
    | cons head tail =>
      have split : upTo order (first :: rest) ++ _ = _ := takeWhile_append_dropWhile
      rw [leading] at split
      have last : (first :: rest)[(head :: tail).length - 1]? = (head :: tail).getLast? := by
        rw [← split, getElem?_append_left (by simp), getLast?_eq_getElem?]
      rw [last]
      cases found : (head :: tail).getLast? with
      | none => simp at found
      | some element =>
        have below : order element ≠ .gt := by
          have member : element ∈ upTo order (first :: rest) := by
            rw [leading]
            exact mem_of_getLast? found
          exact order_of_mem_upTo member
        cases compared : order element with
        | lt => simp [compared]
        | eq => simp [compared]
        | gt => exact absurd compared below

/-- The partition point counts the leading elements that satisfy the predicate. -/
theorem partitionPoint_eq {holds : α -> Bool}
    (ascending : list.Pairwise fun earlier later => holds later = true -> holds earlier = true) :
    partitionPoint holds list = (list.takeWhile holds).length := by
  have sorted : Ascending (fun element => if holds element then .lt else .gt) list := by
    refine ascending.imp ?_
    intro earlier later implied
    cases was : holds earlier <;> cases now : holds later <;> simp_all
  have same : upTo (fun element => if holds element then Ordering.lt else .gt) list =
      list.takeWhile holds := by
    unfold upTo
    congr 1
    funext element
    cases met : holds element <;> simp [met]
  rw [partitionPoint, binarySearchBy_eq sorted, same]
  cases found : (list.takeWhile holds).getLast? with
  | none => simp [getLast?_eq_none_iff.mp found]
  | some last =>
    have satisfied := mem_takeWhile_imp (mem_of_getLast? found)
    simp [satisfied]

section Sorted

variable {β : Type u} [Ord β]

/-- The keys of the elements ascend, so no two of them are equal. -/
def SortedBy (key : α -> β) (list : List α) : Prop :=
  list.Pairwise fun earlier later => compare (key earlier) (key later) = .lt

variable {key : α -> β} {target : β} {index : Nat}

theorem SortedBy.eraseIdx (sorted : SortedBy key list) (index : Nat) :
    SortedBy key (list.eraseIdx index) :=
  sorted.sublist (eraseIdx_sublist list index)

variable [Std.TransOrd β]

theorem SortedBy.ascending (sorted : SortedBy key list) (target : β) :
    Ascending (fun element => compare (key element) target) list := by
  refine sorted.imp ?_
  intro earlier later less above
  exact Std.OrientedCmp.gt_of_lt
    (Std.TransCmp.lt_trans (Std.OrientedCmp.lt_of_gt above) less)

theorem exists_of_binarySearchBy_ok (found : binarySearchBy order list = .ok index) :
    ∃ element, list[index]? = some element ∧ order element = .eq := by
  simp only [binarySearchBy] at found
  split at found
  · cases found
  · next probed =>
    cases found
    exact Option.map_eq_some_iff.mp probed
  · cases found
  · cases found

theorem le_length_of_binarySearchBy_error
    (missing : binarySearchBy order list = .error index) : index ≤ list.length := by
  simp only [binarySearchBy] at missing
  split at missing
  · cases missing
    exact Nat.zero_le _
  · cases missing
  · next probed =>
    cases missing
    obtain ⟨element, there, _⟩ := Option.map_eq_some_iff.mp probed
    exact (List.getElem?_eq_some_iff.mp there).1
  · next probed =>
    cases missing
    obtain ⟨element, there, _⟩ := Option.map_eq_some_iff.mp probed
    exact le_of_lt (List.getElem?_eq_some_iff.mp there).1

theorem order_of_mem_dropWhile (ascending : Ascending order list)
    (member : element ∈ list.dropWhile fun element => order element ≠ .gt) :
    order element = .gt := by
  induction list with
  | nil => cases member
  | cons first rest ih =>
    obtain ⟨above, restAscending⟩ := pairwise_cons.mp ascending
    by_cases gt : order first = .gt
    · rw [dropWhile_cons_of_neg (by simp [gt])] at member
      rcases mem_cons.mp member with rfl | member
      · exact gt
      · exact above element member gt
    · rw [dropWhile_cons_of_pos (by simp [gt])] at member
      exact ih restAscending member

variable (sorted : SortedBy key list)
include sorted

section

variable (missing : binarySearchBy (fun element => compare (key element) target) list = .error index)
include missing

/-- Where the search fails, the leading elements are below the target and the
others above it. -/
theorem SortedBy.split_of_error :
    ∃ lower upper, list = lower ++ upper ∧ lower.length = index ∧
      (∀ element ∈ lower, compare (key element) target = .lt) ∧
      ∀ element ∈ upper, compare (key element) target = .gt := by
  have ascending := sorted.ascending target
  rw [binarySearchBy_eq ascending] at missing
  refine ⟨upTo _ list, _, takeWhile_append_dropWhile.symm, ?_, ?_,
    fun element => order_of_mem_dropWhile ascending⟩
  · split at missing
    · next none =>
      cases missing
      exact congrArg List.length (getLast?_eq_none_iff.mp none)
    · split at missing
      · cases missing
      · cases missing
        rfl
  intro element member
  have notAbove := order_of_mem_upTo member
  rcases eq_nil_or_concat (upTo (fun element => compare (key element) target) list) with
    empty | ⟨earlier, last, parts⟩
  · simp [empty] at member
  simp only [parts] at missing
  have notEq : compare (key last) target ≠ .eq := by
    intro eq
    simp [eq] at missing
  have inside : (earlier ++ [last]).Sublist list := by
    rw [← concat_eq_append, ← parts]
    exact ( takeWhile_prefix _).sublist
  rw [parts, concat_eq_append, mem_append] at member
  rcases member with member | member
  · -- An equal element before the last one would put the last one above the target.
    have below := (pairwise_append.mp (sorted.sublist inside)).2.2 element member last
      (by simp)
    have lastBelow : compare (key last) target = .lt := by
      have isLast : last ∈ upTo (fun element => compare (key element) target) list := by
        simp [parts]
      have notGt := order_of_mem_upTo isLast
      cases order : compare (key last) target with
      | lt => rfl
      | eq => exact absurd order notEq
      | gt => exact absurd order notGt
    exact Std.TransCmp.lt_trans below lastBelow
  · rw [mem_singleton.mp member] at notAbove ⊢
    cases order : compare (key last) target with
    | lt => rfl
    | eq => exact absurd order notEq
    | gt => exact absurd order notAbove

theorem SortedBy.ne_of_error (member : element ∈ list) : key element ≠ target := by
  obtain ⟨lower, upper, rfl, -, below, above⟩ := sorted.split_of_error missing
  rintro rfl
  rcases mem_append.mp member with member | member
  · simpa [Std.ReflCmp.compare_self] using below element member
  · simpa [Std.ReflCmp.compare_self] using above element member

/-- Inserting at the place that the search names keeps the list sorted. -/
theorem SortedBy.insertIdx
    (same : key element = target) : SortedBy key (list.insertIdx index element) := by
  obtain ⟨lower, upper, rfl, rfl, below, above⟩ := sorted.split_of_error missing
  obtain ⟨lowerSorted, upperSorted, between⟩ := pairwise_append.mp sorted
  have placed : (lower ++ upper).insertIdx lower.length element = lower ++ element :: upper := by
    clear missing sorted below lowerSorted between
    induction lower with
    | nil => rfl
    | cons first lower ih => simp [ih]
  rw [placed]
  refine pairwise_append.mpr ⟨lowerSorted, pairwise_cons.mpr ⟨?_, upperSorted⟩, ?_⟩
  · intro later member
    rw [same]
    exact Std.OrientedCmp.lt_of_gt (above later member)
  intro earlier isEarlier later isLater
  rcases mem_cons.mp isLater with rfl | isLater
  · rw [same]
    exact below earlier isEarlier
  · exact between earlier isEarlier later isLater

end

/-- Erasing an element of a sorted list removes its key. -/
theorem SortedBy.mem_eraseIdx_iff {other : α} (there : list[index]? = some element) :
    other ∈ list.eraseIdx index ↔ other ∈ list ∧ key other ≠ key element := by
  have apart : ∀ (first second : Nat) x y, first < second -> list[first]? = some x ->
      list[second]? = some y -> compare (key x) (key y) = .lt := by
    intro first second x y before isX isY
    obtain ⟨firstInside, rfl⟩ := List.getElem?_eq_some_iff.mp isX
    obtain ⟨secondInside, rfl⟩ := List.getElem?_eq_some_iff.mp isY
    exact pairwise_iff_getElem.mp sorted first second firstInside secondInside before
  rw [mem_eraseIdx_iff_getElem?]
  constructor
  · rintro ⟨place, different, isOther⟩
    refine ⟨mem_of_getElem? isOther, fun same => ?_⟩
    rcases lt_or_gt_of_ne different with before | after
    · simpa [same, Std.ReflCmp.compare_self] using apart place index other element before isOther there
    · simpa [same, Std.ReflCmp.compare_self] using apart index place element other after there isOther
  rintro ⟨member, different⟩
  obtain ⟨place, isOther⟩ := mem_iff_getElem?.mp member
  refine ⟨place, ?_, isOther⟩
  rintro rfl
  rw [there] at isOther
  cases isOther
  exact different rfl

end Sorted

end Rk8s.BinarySearch
