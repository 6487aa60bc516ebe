import Mathlib.Data.List.Lex
import Mathlib.Tactic.Ring

namespace Rk8s.Slayerfs.Etcd

open List

/-!
# Listing the chunks in turn

`list_chunk_ids_round_robin` scans the slice keys page by page from the saved cursor on, and
then once more from the first key.  The second scan does not stop at the cursor, so a limit
that is not reached lets it list the chunks behind the cursor again.
-/

/-- The bytes of a key. -/
abbrev ScanKey := List Nat

/-- `next_scan_key` -/
def nextScanKey (key : ScanKey) : ScanKey := key ++ [0]

def sliceKeyPrefix : ScanKey := "slices/".toList.map Char.toNat

def keyForSlice (chunkId : Nat) : ScanKey :=
  sliceKeyPrefix ++ (Nat.toDigits 10 chunkId).map Char.toNat

/-- `str::parse::<u64>`, which takes a plus sign and leading zeros. -/
def parseU64 (text : ScanKey) : Option Nat :=
  let digits := if text.head? = some '+'.toNat then text.tail else text
  let number := digits.foldl (fun number digit => 10 * number + (digit - '0'.toNat)) 0
  if digits ≠ [] ∧ (digits.all fun digit => '0'.toNat ≤ digit ∧ digit ≤ '9'.toNat) ∧
    number < 2 ^ 64 then some number else none

def parseChunkIdFromSliceKey (key : ScanKey) : Option Nat :=
  (key.dropPrefix? sliceKeyPrefix).bind parseU64

def pageSize (limit : Nat) : Nat := max 64 (min limit 256)

/-- The keys that a range read finds, of all the keys in order. -/
def keysFrom (keys : List ScanKey) (startKey : Option ScanKey) : List ScanKey :=
  keys.dropWhile fun key => startKey.any (key < ·)

section Scan

variable (parse : ScanKey -> Option Nat) (keys : List ScanKey) (limit : Nat)

/-- The loop over a page.  It returns with a cursor when there are enough chunk ids. -/
def pushPage : List ScanKey -> List Nat -> List Nat × Option ScanKey
  | [], chunkIds => (chunkIds, none)
  | key :: page, chunkIds =>
    match parse key with
    | none => pushPage page chunkIds
    | some chunkId =>
      if chunkIds.length + 1 = limit then (chunkIds ++ [chunkId], some (nextScanKey key))
      else pushPage page (chunkIds ++ [chunkId])

/-- The loop over the pages, which returns the chunk ids and the cursor to save. -/
def scanPages (startedFromCursor : Bool) :
    Nat -> Option ScanKey -> List Nat -> Bool -> Option (List Nat × Option ScanKey)
  | 0, _, _, _ => none
  | fuel + 1, startKey, chunkIds, wrapped =>
    let page := (keysFrom keys startKey).take (pageSize limit)
    if page = [] then
      if wrapped ∨ startKey = none then some (chunkIds, none)
      else scanPages startedFromCursor fuel none chunkIds true
    else
      match pushPage parse limit page chunkIds with
      | (chunkIds, some cursor) => some (chunkIds, some cursor)
      | (chunkIds, none) =>
        if page.length < pageSize limit then
          if wrapped ∨ ¬ startedFromCursor then some (chunkIds, none)
          else scanPages startedFromCursor fuel none chunkIds true
        else scanPages startedFromCursor fuel (page.getLast?.map nextScanKey) chunkIds wrapped

def listChunkIdsRoundRobin (cursor : Option ScanKey) (fuel : Nat) :
    Option (List Nat × Option ScanKey) :=
  scanPages parseChunkIdFromSliceKey keys limit cursor.isSome fuel cursor [] false

end Scan

theorem lt_nextScanKey {key other : ScanKey} : other < nextScanKey key ↔ ¬ key < other := by
  unfold nextScanKey
  induction key generalizing other with
  | nil => cases other <;> simp [cons_lt_cons_iff]
  | cons byte key ih =>
    cases other with
    | nil => simp
    | cons first other =>
      rw [cons_append, cons_lt_cons_iff, cons_lt_cons_iff, ih]
      by_cases inside : key < other <;> simp [inside] <;> omega

/-- The scan goes on behind the last key of a page. -/
theorem keysFrom_next {keys page tail : List ScanKey} {startKey : Option ScanKey}
    (sorted : keys.Pairwise (· < ·)) (whole : page ++ tail = keysFrom keys startKey)
    (some_ : page ≠ []) : keysFrom keys (page.getLast?.map nextScanKey) = tail := by
  obtain ⟨front, last, rfl⟩ := (eq_nil_or_concat' page).resolve_left some_
  have split : keys = (keys.takeWhile (fun key => startKey.any (key < ·)) ++ front) ++
      ([last] ++ tail) := by
    rw [append_assoc, ← append_assoc front, whole]
    exact takeWhile_append_dropWhile.symm
  generalize keys.takeWhile _ ++ front = front at split
  obtain ⟨_, behind, before⟩ := pairwise_append.mp (split ▸ sorted)
  have first := (pairwise_cons.mp behind).1
  rw [split, getLast?_concat, keysFrom, ← append_assoc, dropWhile_append_of_pos]
  · cases tail with
    | nil => rfl
    | cons key tail => simp [lt_nextScanKey, first key (.head _)]
  intro key member
  simp only [Option.map_some, Option.any_some, lt_nextScanKey, decide_eq_true_eq]
  rcases mem_append.mp member with earlier | here
  · exact lt_asymm (before key earlier last (.head _))
  · rw [mem_singleton.mp here]
    exact lt_irrefl last

variable {parse : ScanKey -> Option Nat} {chunkOf : ScanKey -> Nat} {limit : Nat}
  {page keys : List ScanKey} {chunkIds : List Nat}

theorem pushPage_eq (named : ∀ key ∈ page, parse key = some (chunkOf key))
    (room : chunkIds.length < limit) :
    pushPage parse limit page chunkIds = ((chunkIds ++ page.map chunkOf).take limit,
      page[limit - chunkIds.length - 1]?.map nextScanKey) := by
  induction page generalizing chunkIds with
  | nil => simp [pushPage, take_of_length_le room.le]
  | cons key page ih =>
    simp only [pushPage, named key (.head _)]
    split_ifs with full
    · simp [← full, take_append, take_of_length_le]
    · have next : limit - chunkIds.length - 1 = limit - (chunkIds.length + 1) - 1 + 1 := by omega
      rw [ih (fun other member => named other (.tail _ member)) (by simp; omega), next]
      simp

theorem keysFrom_none : keysFrom keys none = keys := by
  cases keys <;> simp [keysFrom]

/-- What the loop over the pages returns. -/
theorem scanPages_eq (started wrapped : Bool) (startKey : Option ScanKey) (fuel : Nat)
    (sorted : keys.Pairwise (· < ·)) (named : ∀ key ∈ keys, parse key = some (chunkOf key))
    (room : chunkIds.length < limit)
    (enough : (keysFrom keys startKey).length + (if wrapped then 0 else keys.length + 1) < fuel) :
    ∃ listed, listed = keysFrom keys startKey ++ (if wrapped then []
        else if started ∨ pageSize limit ∣ (keysFrom keys startKey).length then keys else []) ∧
      scanPages parse keys limit started fuel startKey chunkIds wrapped =
        some ((chunkIds ++ listed.map chunkOf).take limit,
          listed[limit - chunkIds.length - 1]?.map nextScanKey) := by
  have pages : 0 < pageSize limit := by unfold pageSize; omega
  refine ⟨_, rfl, ?_⟩
  induction fuel generalizing startKey chunkIds wrapped with
  | zero => omega
  | succ fuel ih =>
    rw [scanPages]
    have again : wrapped = false -> ∀ chunkIds : List Nat, chunkIds.length < limit ->
        scanPages parse keys limit started fuel none chunkIds true =
          some ((chunkIds ++ keys.map chunkOf).take limit,
            keys[limit - chunkIds.length - 1]?.map nextScanKey) := by
      intro first chunkIds room
      rw [first] at enough
      rw [ih true none room (by rw [keysFrom_none]; simp at enough ⊢; omega), keysFrom_none]
      simp
    by_cases none : keysFrom keys startKey = []
    · simp only [none, take_nil, if_true, length_nil, dvd_zero, or_true, nil_append]
      by_cases stop : wrapped = true ∨ startKey = Option.none
      · rw [if_pos stop]
        rcases stop with wraps | starts
        · simp [wraps, take_of_length_le room.le]
        · rw [starts, keysFrom_none] at none
          simp [none, take_of_length_le room.le]
      · rw [if_neg stop]
        have first : wrapped = false := by simpa using fun wraps => stop (.inl wraps)
        rw [again first chunkIds room, first]
        simp
    have whole := take_append_drop (pageSize limit) (keysFrom keys startKey)
    have size : ((keysFrom keys startKey).take (pageSize limit)).length = pageSize limit ∨
        ((keysFrom keys startKey).take (pageSize limit)).length < pageSize limit ∧
          (keysFrom keys startKey).drop (pageSize limit) = [] := by
      rw [length_take, drop_eq_nil_iff]
      omega
    have some_ : (keysFrom keys startKey).take (pageSize limit) ≠ [] := by
      simpa [none] using ne_of_gt pages
    generalize (keysFrom keys startKey).take (pageSize limit) = page at *
    generalize (keysFrom keys startKey).drop (pageSize limit) = tail at *
    have inside : ∀ key ∈ page, key ∈ keys := fun key member =>
      (dropWhile_suffix _).subset (whole ▸ mem_append_left tail member)
    have next := keysFrom_next sorted whole some_
    have behind := length_pos_of_ne_nil some_
    rw [← whole, length_append] at enough ⊢
    rw [if_neg some_, pushPage_eq (fun key member => named key (inside key member)) room,
      append_assoc page, map_append, ← append_assoc chunkIds]
    by_cases full : limit ≤ chunkIds.length + page.length
    · have last : limit - chunkIds.length - 1 < page.length := by omega
      have front : ∀ rest, (chunkIds ++ page.map chunkOf ++ rest).take limit =
          (chunkIds ++ page.map chunkOf).take limit :=
        fun rest => take_append_of_le_length (by simpa using full)
      rw [front, getElem?_append_left last, getElem?_eq_getElem last]
      rfl
    rw [getElem?_append_right (by omega), getElem?_eq_none (by omega),
      take_of_length_le (by simp; omega)]
    have room : (chunkIds ++ page.map chunkOf).length < limit := by simpa using full
    have place : limit - (chunkIds ++ page.map chunkOf).length - 1 =
        limit - chunkIds.length - 1 - page.length := by
      rw [length_append, length_map]
      omega
    dsimp only [Option.map_none]
    rcases size with long | ⟨short, rfl⟩
    · rw [if_neg (not_lt.mpr long.ge), ih wrapped _ room (by rw [next]; omega), next, place,
        long]
      simp
    have rest : ¬ pageSize limit ∣ page.length := Nat.not_dvd_of_pos_of_lt behind short
    rw [if_pos short]
    by_cases stop : wrapped = true ∨ ¬ started = true
    · rw [if_pos stop]
      rcases stop with wraps | fresh
      · simp [wraps, take_of_length_le room.le]
      · simp [fresh, rest, take_of_length_le room.le]
    · rw [if_neg stop]
      obtain ⟨first, saved⟩ : wrapped = false ∧ started = true := by simpa using stop
      rw [again first _ room, place]
      simp [first, saved]

/-- The keys from the cursor on, and then those before it. -/
def inTurn (keys : List ScanKey) (cursor : Option ScanKey) : List ScanKey :=
  keysFrom keys cursor ++ keys.takeWhile fun key => cursor.any (key < ·)

/-- The call lists the chunks in turn, and the next one goes on behind them, exactly if it
stops before the second scan, finds no key behind the cursor, or reaches its limit among the
chunks. -/
theorem listChunkIdsRoundRobin_inTurn_iff {cursor : Option ScanKey} {fuel : Nat}
    (limited : 0 < limit) (sorted : keys.Pairwise (· < ·))
    (named : forall key, key ∈ keys -> parseChunkIdFromSliceKey key = some (chunkOf key))
    (distinct : (keys.map chunkOf).Nodup) (enough : 2 * keys.length + 1 < fuel) :
    Exists fun chunkIds => Exists fun saved =>
      listChunkIdsRoundRobin keys limit cursor fuel = some (chunkIds, saved) ∧
      ((chunkIds.length ≤ limit ∧ chunkIds.Nodup ∧
          chunkIds = ((inTurn keys cursor).map chunkOf).take limit ∧
          chunkIds.length = min limit keys.length ∧
          saved = (inTurn keys cursor)[limit - 1]?.map nextScanKey) ↔
        (cursor = none ∧ ¬ pageSize limit ∣ keys.length) ∨ keysFrom keys cursor = [] ∨
          limit ≤ keys.length) := by
  have whole : (keys.takeWhile fun key => cursor.any (key < ·)) ++ keysFrom keys cursor = keys :=
    takeWhile_append_dropWhile
  have turn : (inTurn keys cursor).Perm keys := perm_append_comm.trans (.of_eq whole)
  have rest := (dropWhile_suffix (l := keys) fun key => cursor.any (key < ·)).length_le
  obtain ⟨listed, parts, returned⟩ := scanPages_eq cursor.isSome false cursor fuel sorted named
    (show ([] : List Nat).length < limit from limited) (by simp [keysFrom] at rest ⊢; omega)
  refine ⟨_, _, returned, ?_⟩
  obtain ⟨again, isListed, stops⟩ : ∃ again, listed = inTurn keys cursor ++ again ∧
      (again = [] ↔ (cursor = none ∧ ¬ pageSize limit ∣ keys.length) ∨
        keysFrom keys cursor = []) := by
    rw [parts, inTurn]
    cases cursor with
    | none =>
      have before : keys.takeWhile (fun _ => false) = [] := by cases keys <;> rfl
      by_cases full : pageSize limit ∣ keys.length
      · exact ⟨keys, by simp [keysFrom_none, before, full], by simp [keysFrom_none, full]⟩
      · exact ⟨[], by simp [keysFrom_none, before, full], by simp [full]⟩
    | some cursor => exact ⟨keysFrom keys (some cursor), by simpa using whole.symm, by simp⟩
  rw [nil_append, isListed, ← or_assoc, ← stops, ← turn.length_eq]
  have once := (turn.map chunkOf).nodup_iff.mpr distinct
  generalize inTurn keys cursor = order at *
  constructor
  · rintro ⟨_, _, _, length, _⟩
    rw [length_take, length_map, length_append] at length
    rw [← length_eq_zero_iff]
    omega
  intro fits
  have same : (order ++ again).take limit = order.take limit ∧
      (order ++ again)[limit - 1]? = order[limit - 1]? := by
    rcases fits with rfl | full
    · rw [append_nil]
      exact ⟨rfl, rfl⟩
    · exact ⟨take_append_of_le_length full, getElem?_append_left (by omega)⟩
  rw [← map_take, same.1, map_take]
  refine ⟨length_take_le _ _, once.sublist (take_sublist _ _), rfl, by simp, ?_⟩
  rw [length_nil, Nat.sub_zero, same.2]

theorem listChunkIdsRoundRobin_two : Exists fun chunkIds => Exists fun saved =>
    listChunkIdsRoundRobin ([1, 2].map keyForSlice) 2 (some (nextScanKey (keyForSlice 1))) 6 =
        some (chunkIds, saved) ∧
      chunkIds = ((inTurn ([1, 2].map keyForSlice) (some (nextScanKey (keyForSlice 1)))).map
        fun key => (parseChunkIdFromSliceKey key).getD 0).take 2 :=
  (listChunkIdsRoundRobin_inTurn_iff (by decide) (by decide +kernel) (by decide +kernel)
    (by decide +kernel) (by decide)).imp fun _ => Exists.imp fun _ ⟨returned, fair⟩ =>
      ⟨returned, (fair.mpr (by decide +kernel)).2.2.1⟩

/-- Three chunks, the cursor behind the first and a limit of ten list two chunks twice. -/
theorem listChunkIdsRoundRobin_not_nodup :
    listChunkIdsRoundRobin ([1, 2, 3].map keyForSlice) 10 (some (nextScanKey (keyForSlice 1))) 8 =
      some ([2, 3, 1, 2, 3], none) := by
  decide +kernel

end Rk8s.Slayerfs.Etcd
