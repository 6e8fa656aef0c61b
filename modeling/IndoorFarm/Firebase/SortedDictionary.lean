import IndoorFarm.Firebase.LLRBRemove
import IndoorFarm.Firebase.TreeBuilder
import IndoorFarm.Lib.Runs

/-!
# Sorted dictionaries (`FImmutableSortedDictionary`)

Up to 25 entries a dictionary is a pair of arrays that is searched from the front; the insertion of
a further key turns it into a red-black tree, which it then stays.  An operation that raises is
`none`.

Whatever the representation, a run of insertions and removals gives the map that these operations
describe, raises nowhere, and leaves the keys in order and the tree balanced (`Valid.run`).
-/

namespace IndoorFarm

open FLLRBColor FLLRBNode SortedEntries

variable {α β : Type*}

/-! ## The array (`FArraySortedDictionary`) -/

/-- The loop of `findKey:`, which stops at a larger key; `NSNotFound` is `none`. -/
def findKey (comparator : α → α → Ordering) (key : α) : List (α × β) → Option ℕ
  | [] => none
  | (k, _) :: entries =>
    match comparator key k with
    | .eq => some 0
    | .lt => none
    | .gt => (findKey comparator key entries).map (· + 1)

/-- The loop of `findInsertPositionForKey:`. -/
def findInsertPositionForKey (comparator : α → α → Ordering) (key : α) : List (α × β) → ℕ
  | [] => 0
  | (k, _) :: entries =>
    if comparator k key = .lt then findInsertPositionForKey comparator key entries + 1 else 0

/-- How often the loop of `findKey:` compares. -/
def findKeyComparisons (comparator : α → α → Ordering) (key : α) : List (α × β) → ℕ
  | [] => 0
  | (k, _) :: entries =>
    match comparator key k with
    | .gt => findKeyComparisons comparator key entries + 1
    | _ => 1

/-- `SORTED_DICTIONARY_ARRAY_TO_RB_TREE_SIZE_THRESHOLD`. -/
def arrayToTreeThreshold : ℕ := 25

/-- The arrays `keys` and `values` are one list of entries. -/
inductive FImmutableSortedDictionary (α β : Type*) where
  | array (entries : List (α × β))
  | tree (root : FLLRBNode α β)

namespace FImmutableSortedDictionary

/-- `dictionaryWithComparator:`. -/
def dictionaryWithComparator : FImmutableSortedDictionary α β := array []

/-- `fromDictionary:withComparator:`. -/
def fromDictionary (comparator : α → α → Ordering) (dictionary : List (α × β)) :
    Option (FImmutableSortedDictionary α β) :=
  if dictionary.length ≤ arrayToTreeThreshold then
    (sortedKeyList comparator dictionary).map array
  else (treeFromDictionary comparator dictionary).map tree

/-- `insertKey:withValue:`.  The array takes the new key for an equal one, the tree keeps its
own. -/
def insertKey (comparator : α → α → Ordering) (key : α) (value : β) :
    FImmutableSortedDictionary α β → Option (FImmutableSortedDictionary α β)
  | array entries =>
    match findKey comparator key entries with
    | none =>
      if arrayToTreeThreshold ≤ entries.length then
        (treeFromDictionary comparator (entries ++ [(key, value)])).map tree
      else
        let newPos := findInsertPositionForKey comparator key entries
        some (array (entries.insertIdx newPos (key, value)))
    | some pos => some (array (entries.set pos (key, value)))
  | tree root =>
    some (tree ((root.insertKey comparator key value).copyWith none none (some BLACK) none none))

/-- `get:` and `objectForKey:`. -/
def get (comparator : α → α → Ordering) (key : α) : FImmutableSortedDictionary α β → Option β
  | array entries => (findKey comparator key entries).bind fun pos => entries[pos]?.map Prod.snd
  | tree root => root.get comparator key

/-- How often `get:` compares. -/
def comparisons (comparator : α → α → Ordering) (key : α) : FImmutableSortedDictionary α β → ℕ
  | array entries => findKeyComparisons comparator key entries
  | tree root => root.comparisons comparator key

/-- `removeKey:`. -/
def removeKey (comparator : α → α → Ordering) (key : α) :
    FImmutableSortedDictionary α β → FImmutableSortedDictionary α β
  | array entries =>
    match findKey comparator key entries with
    | none => array entries
    | some pos => array (entries.eraseIdx pos)
  | tree root =>
    if (root.get comparator key).isNone then tree root
    else tree ((root.remove key comparator).copyWith none none (some BLACK) none none)

/-- The entries in the order of `enumerateKeysAndObjectsUsingBlock:`. -/
def toList : FImmutableSortedDictionary α β → List (α × β)
  | array entries => entries
  | tree root => root.toList

/-- `isEqual:` on two dictionaries with one comparator. -/
def isEqual [DecidableEq β] (comparator : α → α → Ordering)
    (d other : FImmutableSortedDictionary α β) : Bool :=
  d.toList.length = other.toList.length &&
    d.toList.all fun (key, value) => other.get comparator key = some value

/-- One operation of a run. -/
inductive Edit (α β : Type*) where
  | insertKey (key : α) (value : β)
  | removeKey (key : α)

def edit (comparator : α → α → Ordering) (d : FImmutableSortedDictionary α β) :
    Edit α β → Option (FImmutableSortedDictionary α β)
  | .insertKey key value => d.insertKey comparator key value
  | .removeKey key => some (d.removeKey comparator key)

/-- What an operation means for the map from keys to values. -/
def Edit.describe (comparator : α → α → Ordering) (m : α → Option β) : Edit α β → α → Option β
  | .insertKey key value => fun k => if comparator k key = .eq then some value else m k
  | .removeKey key => fun k => if comparator k key = .eq then none else m k

/-- The dictionaries the class hands out. -/
inductive Reachable (cmp : α → α → Ordering) : FImmutableSortedDictionary α β → Prop
  | dictionaryWithComparator : Reachable cmp dictionaryWithComparator
  | fromDictionary {dictionary : List (α × β)} {d : FImmutableSortedDictionary α β}
      (h : FImmutableSortedDictionary.fromDictionary cmp dictionary = some d) : Reachable cmp d
  | edit {d d' : FImmutableSortedDictionary α β} {e : Edit α β} (hd : Reachable cmp d)
      (h : d.edit cmp e = some d') : Reachable cmp d'

/-- The representation is sound. -/
structure Valid (cmp : α → α → Ordering) (d : FImmutableSortedDictionary α β) : Prop where
  sorted : Sorted cmp d.toList
  short : ∀ entries, d = array entries → entries.length ≤ arrayToTreeThreshold
  balanced : ∀ root, d = tree root → ∃ h, Balanced BLACK h root

end FImmutableSortedDictionary

/-! ## Searching the array -/

section TransCmp

open Std (OrientedCmp TransCmp)

variable {cmp : α → α → Ordering} [TransCmp cmp] {entries : List (α × β)} {key : α} {value : β}

/-- A search that fails inserts a new key at the position the second search finds. -/
theorem insertIdx_of_findKey (hs : Sorted cmp entries) (h : findKey cmp key entries = none) :
    entries.insertIdx (findInsertPositionForKey cmp key entries) (key, value) =
      SortedEntries.insert cmp false key value entries := by
  induction entries with
  | nil => rfl
  | cons e entries ih =>
    obtain ⟨he, hs⟩ := List.pairwise_cons.1 hs
    rw [findKey] at h
    rw [findInsertPositionForKey, SortedEntries.insert]
    cases hcmp : cmp key e.1 with
    | lt => simp [OrientedCmp.gt_of_lt hcmp]
    | eq => simp [hcmp] at h
    | gt =>
      simp only [hcmp, Option.map_eq_none_iff] at h
      simp [OrientedCmp.lt_of_gt hcmp, ih hs h]

omit [TransCmp cmp] in
/-- A search that finds the key stands at its entry. -/
theorem findKey_eq_some {pos : ℕ} (h : findKey cmp key entries = some pos) :
    ∃ A e B, entries = A ++ e :: B ∧ A.length = pos ∧ cmp key e.1 = .eq := by
  induction entries generalizing pos with
  | nil => simp [findKey] at h
  | cons e entries ih =>
    rw [findKey] at h
    cases hcmp : cmp key e.1 with
    | lt => simp [hcmp] at h
    | eq =>
      obtain rfl : 0 = pos := by simpa [hcmp] using h
      exact ⟨[], e, entries, rfl, rfl, hcmp⟩
    | gt =>
      simp only [hcmp, Option.map_eq_some_iff] at h
      obtain ⟨pos, hpos, rfl⟩ := h
      obtain ⟨A, e', B, rfl, rfl, he'⟩ := ih hpos
      exact ⟨e :: A, e', B, rfl, rfl, he'⟩

theorem findKey_eq_none (hs : Sorted cmp entries) (h : findKey cmp key entries = none) :
    ∀ e ∈ entries, cmp key e.1 ≠ .eq := by
  induction entries with
  | nil => simp
  | cons e entries ih =>
    obtain ⟨he, hs'⟩ := List.pairwise_cons.1 hs
    rw [findKey] at h
    cases hcmp : cmp key e.1 with
    | lt =>
      refine List.forall_mem_cons.2 ⟨by simp [hcmp], fun b hb => ?_⟩
      simp [TransCmp.lt_trans hcmp (he b hb)]
    | eq => simp [hcmp] at h
    | gt =>
      simp only [hcmp, Option.map_eq_none_iff] at h
      exact List.forall_mem_cons.2 ⟨by simp [hcmp], ih hs' h⟩

/-! ## The operations -/

namespace FImmutableSortedDictionary

variable {d : FImmutableSortedDictionary α β}

omit [TransCmp cmp] in
theorem valid_array (hs : Sorted cmp entries) (hlen : entries.length ≤ arrayToTreeThreshold) :
    Valid cmp (array entries) :=
  ⟨hs, by rintro _ ⟨⟩; exact hlen, nofun⟩

omit [TransCmp cmp] in
theorem valid_tree {root : FLLRBNode α β} {h : ℕ} (hs : Sorted cmp root.toList)
    (hbalanced : Balanced BLACK h root) : Valid cmp (tree root) :=
  ⟨hs, nofun, by rintro _ ⟨⟩; exact ⟨h, hbalanced⟩⟩

omit [TransCmp cmp] in
theorem valid_dictionaryWithComparator :
    Valid cmp (dictionaryWithComparator : FImmutableSortedDictionary α β) :=
  valid_array List.Pairwise.nil (Nat.zero_le _)

theorem Valid.get_eq (hd : Valid cmp d) (key : α) : d.get cmp key = lookup cmp key d.toList := by
  have hs := hd.sorted
  cases d with
  | array entries =>
    simp only [get, toList] at hs ⊢
    cases hfind : findKey cmp key entries with
    | none => rw [lookup_eq_none (findKey_eq_none hs hfind), Option.bind_none]
    | some pos =>
      obtain ⟨A, e, B, rfl, rfl, he⟩ := findKey_eq_some hfind
      rw [hs.lookup_eq he]
      simp
  | tree root => exact get_eq_lookup key hs

theorem Valid.insertKey (hd : Valid cmp d) (key : α) (value : β) :
    ∃ d' keep, d.insertKey cmp key value = some d' ∧ Valid cmp d' ∧
      d'.toList = SortedEntries.insert cmp keep key value d.toList := by
  have hs := hd.sorted
  cases d with
  | array entries =>
    simp only [toList] at hs ⊢
    rw [FImmutableSortedDictionary.insertKey]
    cases hfind : findKey cmp key entries with
    | none =>
      have hperm : (SortedEntries.insert cmp false key value entries).Perm
          ((key, value) :: entries) :=
        perm_insert (findKey_eq_none hs hfind)
      have hs' : Sorted cmp (SortedEntries.insert cmp false key value entries) := sorted_insert hs
      by_cases hfull : arrayToTreeThreshold ≤ entries.length
      · obtain ⟨root, h, hroot, hbalanced, htoList⟩ := treeFromDictionary_spec
          ((List.perm_append_singleton _ _).trans hperm.symm) hs'
        refine ⟨tree root, false, ?_, valid_tree (htoList ▸ hs') hbalanced, htoList⟩
        simp only [if_pos hfull, hroot, Option.map_some]
      · refine ⟨array (SortedEntries.insert cmp false key value entries), false, ?_,
          valid_array hs' ?_, rfl⟩
        · simp only [if_neg hfull, insertIdx_of_findKey hs hfind]
        · rw [hperm.length_eq, List.length_cons]
          omega
    | some pos =>
      obtain ⟨A, e, B, rfl, rfl, he⟩ := findKey_eq_some hfind
      have hset : (A ++ e :: B).set A.length (key, value) =
          SortedEntries.insert cmp false key value (A ++ e :: B) := by
        rw [hs.insert_eq he]
        simp
      refine ⟨_, false, rfl, ?_, hset⟩
      rw [hset]
      refine valid_array (sorted_insert hs) ?_
      rw [← hset, List.length_set]
      exact hd.short _ rfl
  | tree root =>
    obtain ⟨h, hbalanced⟩ := hd.balanced root rfl
    obtain ⟨c, hinserted⟩ := (hbalanced.insertKey cmp key value).2 rfl
    obtain ⟨h', hpainted⟩ := hinserted.paint
    have htoList := toList_insertKey key value hs
    refine ⟨_, true, rfl, valid_tree ?_ hpainted, ?_⟩
    · rw [toList_copyWith_color, htoList]
      exact sorted_insert hs
    · rw [toList, toList_copyWith_color, htoList]
      rfl

theorem Valid.removeKey (hd : Valid cmp d) (key : α) :
    Valid cmp (d.removeKey cmp key) ∧
      (d.removeKey cmp key).toList = erase cmp key d.toList := by
  have hs := hd.sorted
  cases d with
  | array entries =>
    simp only [toList] at hs
    rw [FImmutableSortedDictionary.removeKey]
    cases hfind : findKey cmp key entries with
    | none => exact ⟨hd, (erase_eq_self (findKey_eq_none hs hfind)).symm⟩
    | some pos =>
      obtain ⟨A, e, B, rfl, rfl, he⟩ := findKey_eq_some hfind
      have herase : (A ++ e :: B).eraseIdx A.length = erase cmp key (A ++ e :: B) := by
        rw [hs.erase_eq he, List.eraseIdx_append_of_length_le le_rfl, Nat.sub_self]
        rfl
      refine ⟨?_, herase⟩
      change Valid cmp (array ((A ++ e :: B).eraseIdx A.length))
      rw [herase]
      refine valid_array (sorted_erase hs) ?_
      exact Nat.le_trans sublist_erase.length_le (hd.short _ rfl)
  | tree root =>
    rw [FImmutableSortedDictionary.removeKey]
    split_ifs with hget
    · rw [get_eq_lookup key hs, Option.isNone_iff_eq_none, lookup_eq_none_iff] at hget
      exact ⟨hd, (erase_eq_self hget).symm⟩
    · obtain ⟨h, hbalanced⟩ := hd.balanced root rfl
      obtain ⟨h', hpainted⟩ := hbalanced.remove key hs
      have htoList := toList_remove key hs hbalanced
      refine ⟨valid_tree ?_ hpainted, ?_⟩
      · rw [toList_copyWith_color, htoList]
        exact sorted_erase hs
      · rw [toList, toList_copyWith_color, htoList]
        rfl

theorem Valid.edit (hd : Valid cmp d) (e : Edit α β) :
    ∃ d', d.edit cmp e = some d' ∧ Valid cmp d' ∧
      ∀ k, d'.get cmp k = e.describe cmp (fun k => d.get cmp k) k := by
  cases e with
  | insertKey key value =>
    obtain ⟨d', keep, hd', hvalid, htoList⟩ := hd.insertKey key value
    refine ⟨d', hd', hvalid, fun k => ?_⟩
    rw [hvalid.get_eq, htoList, lookup_insert, Edit.describe]
    simp only [hd.get_eq]
  | removeKey key =>
    obtain ⟨hvalid, htoList⟩ := hd.removeKey key
    refine ⟨_, rfl, hvalid, fun k => ?_⟩
    rw [hvalid.get_eq, htoList, lookup_erase hd.sorted, Edit.describe]
    simp only [hd.get_eq]

theorem Valid.run (hd : Valid cmp d) (edits : List (Edit α β)) :
    ∃ d', Runs.run (FImmutableSortedDictionary.edit cmp) d edits = some d' ∧ Valid cmp d' ∧
      ∀ k, d'.get cmp k = edits.foldl (Edit.describe cmp) (fun k => d.get cmp k) k := by
  induction edits generalizing d with
  | nil => exact ⟨d, rfl, hd, fun k => rfl⟩
  | cons e edits ih =>
    obtain ⟨d₁, hd₁, hvalid₁, hget₁⟩ := hd.edit e
    obtain ⟨d', hrun, hvalid, hget⟩ := ih hvalid₁
    refine ⟨d', ?_, hvalid, fun k => ?_⟩
    · rw [Runs.run_cons, hd₁, Option.bind_some, hrun]
    · rw [hget, List.foldl_cons, funext hget₁]

/-- The sorted entries make an array or a balanced tree. -/
theorem exists_fromDictionary {dictionary : List (α × β)}
    (h : sortedKeyList cmp dictionary = some entries) :
    ∃ d, fromDictionary cmp dictionary = some d ∧ Valid cmp d ∧ d.toList = entries := by
  obtain ⟨hperm, hs⟩ := sortedKeyList_eq_some_iff.1 h
  rw [fromDictionary]
  split_ifs with hshort
  · rw [h, Option.map_some]
    exact ⟨_, rfl, valid_array hs (hperm.length_eq ▸ hshort), rfl⟩
  · obtain ⟨root, height, hroot, hbalanced, rfl⟩ := treeFromDictionary_spec hperm hs
    rw [hroot, Option.map_some]
    exact ⟨_, rfl, valid_tree hs hbalanced, rfl⟩

omit [TransCmp cmp] in
theorem fromDictionary_eq_none {dictionary : List (α × β)}
    (h : sortedKeyList cmp dictionary = none) : fromDictionary cmp dictionary = none := by
  rw [fromDictionary, treeFromDictionary, h]
  simp

/-- `isEqual:` tells whether two dictionaries are one map, however they are represented. -/
theorem Valid.isEqual_iff [DecidableEq β] {d' : FImmutableSortedDictionary α β}
    (hd : Valid cmp d) (hd' : Valid cmp d') :
    d.isEqual cmp d' = true ↔ ∀ k, d.get cmp k = d'.get cmp k := by
  simp only [isEqual, Bool.and_eq_true, decide_eq_true_iff, List.all_eq_true, hd.get_eq, hd'.get_eq]
  constructor
  · exact fun ⟨hlen, hall⟩ => lookup_eq_of_length hd.sorted hd'.sorted hlen hall
  · intro h
    refine ⟨length_eq_of_lookup hd.sorted hd'.sorted h, fun e he => ?_⟩
    rw [← h, lookup_of_mem hd.sorted he]

omit [TransCmp cmp] in
theorem findKeyComparisons_le (key : α) (entries : List (α × β)) :
    findKeyComparisons cmp key entries ≤ entries.length := by
  induction entries with
  | nil => exact Nat.le_refl 0
  | cons e entries ih =>
    rw [findKeyComparisons, List.length_cons]
    cases cmp key e.1 <;> dsimp only <;> omega

omit [TransCmp cmp] in
theorem Valid.comparisons_le (hd : Valid cmp d) (key : α) :
    d.comparisons cmp key ≤ Nat.max arrayToTreeThreshold (2 * Nat.log2 (d.toList.length + 1)) := by
  cases d with
  | array entries =>
    exact ((findKeyComparisons_le key entries).trans (hd.short _ rfl)).trans (Nat.le_max_left _ _)
  | tree root =>
    obtain ⟨h, hbalanced⟩ := hd.balanced root rfl
    have hlog : h ≤ Nat.log2 (root.toList.length + 1) := by
      rw [Nat.le_log2 (by omega), ← count_eq_length_toList]
      exact hbalanced.two_pow_le
    have hle := hbalanced.comparisons_le cmp key
    rw [if_neg (by decide)] at hle
    exact (hle.trans (Nat.mul_le_mul_left 2 hlog)).trans (Nat.le_max_right _ _)

theorem Reachable.valid (hd : Reachable cmp d) : Valid cmp d := by
  induction hd with
  | dictionaryWithComparator => exact valid_dictionaryWithComparator
  | @fromDictionary dictionary d h =>
    cases hsorted : sortedKeyList cmp dictionary with
    | none =>
      rw [fromDictionary_eq_none hsorted] at h
      contradiction
    | some entries =>
      obtain ⟨d', hd', hvalid, -⟩ := exists_fromDictionary hsorted
      obtain rfl := Option.some.inj (hd'.symm.trans h)
      exact hvalid
  | @edit d d' e hd h ih =>
    obtain ⟨d'', hd'', hvalid, -⟩ := ih.edit e
    obtain rfl := Option.some.inj (hd''.symm.trans h)
    exact hvalid

end FImmutableSortedDictionary

end TransCmp

end IndoorFarm
