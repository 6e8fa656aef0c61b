import IndoorFarm.Firebase.DictionaryEnumerator
import IndoorFarm.Firebase.KeyOrder
import IndoorFarm.Firebase.Node
import Mathlib.Data.List.Nodup
import Mathlib.Data.List.Pairwise

/-!
# The children of a node

What a sorted dictionary does for its callers, whatever it has been through, and what this means for
the children of a node, which are a dictionary under `compareKey`.  The trees of `FNode` keep their
children as a sorted list of entries, in which a search finds what it finds in the dictionary
(`get_eq_objectForKey`).
-/

namespace IndoorFarm

open FLLRBColor FLLRBNode SortedEntries

namespace FImmutableSortedDictionary

open Std (TransCmp)

/-! ## A dictionary of the letters -/

def letterEntries : List (String × ℕ) :=
  "abcdefghijklmnopqrstuvwxyz".toList.zipIdx.map fun letter =>
    (String.singleton letter.1, letter.2)

theorem isSome_rootFrom12List_letterEntries :
    (rootFrom12List letterEntries (base1_2List_new 26).bits (base1_2List_new 26).count
      26).isSome = true := by
  decide +kernel

/-- The letters are too many for an array. -/
def alphabet : FImmutableSortedDictionary String ℕ :=
  tree ((rootFrom12List letterEntries (base1_2List_new 26).bits (base1_2List_new 26).count 26).get
    isSome_rootFrom12List_letterEntries)

theorem reachable_alphabet : Reachable compareKey alphabet := by
  have hsorted : sortedKeyList compareKey letterEntries = some letterEntries :=
    sortedKeyList_eq_some_iff.2 ⟨List.Perm.refl _, by
      show List.Pairwise _ _
      decide +kernel⟩
  have hlong : ¬ letterEntries.length ≤ arrayToTreeThreshold := by decide +kernel
  refine .fromDictionary (show fromDictionary compareKey letterEntries = some alphabet from ?_)
  rw [fromDictionary, if_neg hlong, treeFromDictionary, hsorted, Option.bind_some,
    Option.map_eq_some_iff]
  exact ⟨_, (Option.some_get isSome_rootFrom12List_letterEntries).symm, rfl⟩

/-! ## What a dictionary does for its callers -/

section Dictionary

variable {α β : Type*} {cmp : α → α → Ordering} [TransCmp cmp]

/-- Operations on a dictionary never raise and mean what they say, across the change of the
representation; the keys stay in order and the tree passes its own check. -/
theorem run_of_reachable {d : FImmutableSortedDictionary α β} (hd : Reachable cmp d)
    (edits : List (Edit α β)) :
    ∃ d', Runs.run (FImmutableSortedDictionary.edit cmp) d edits = some d' ∧
      (∀ k, d'.get cmp k = edits.foldl (Edit.describe cmp) (fun k => d.get cmp k) k) ∧
      d'.keys.Pairwise (fun a b => cmp a b = .lt) ∧
      ∀ root, d' = tree root → ∃ h, root.check = some h ∧ 2 ^ h ≤ root.count + 1 := by
  obtain ⟨d', hrun, hvalid, hget⟩ := hd.valid.run edits
  refine ⟨d', hrun, hget, List.pairwise_map.2 hvalid.sorted, fun root hroot => ?_⟩
  obtain ⟨h, hbalanced⟩ := hvalid.balanced root hroot
  exact ⟨h, check_of_balanced hbalanced, hbalanced.two_pow_le⟩

theorem run_of_reachable_alphabet :
    ∃ d', Runs.run (FImmutableSortedDictionary.edit compareKey) alphabet
        [.removeKey "m", .insertKey "10" 1, .removeKey "q"] = some d' ∧
      (∀ k, d'.get compareKey k =
        [Edit.removeKey "m", .insertKey "10" 1, .removeKey "q"].foldl (Edit.describe compareKey)
          (fun k => alphabet.get compareKey k) k) ∧
      d'.keys.Pairwise (fun a b => compareKey a b = .lt) ∧
      ∀ root, d' = tree root → ∃ h, root.check = some h ∧ 2 ^ h ≤ root.count + 1 :=
  run_of_reachable reachable_alphabet _

/-- A search compares at most 25 times or twice the logarithm of the number of entries. -/
theorem comparisons_of_reachable {d : FImmutableSortedDictionary α β} (hd : Reachable cmp d)
    (key : α) : d.comparisons cmp key ≤ Nat.max 25 (2 * Nat.log2 (d.keys.length + 1)) := by
  have hle := hd.valid.comparisons_le key
  rwa [keys, List.length_map]

theorem comparisons_of_reachable_alphabet :
    alphabet.comparisons compareKey "m" ≤ Nat.max 25 (2 * Nat.log2 (alphabet.keys.length + 1)) :=
  comparisons_of_reachable reachable_alphabet "m"

/-- Two dictionaries are equal exactly when they are one map, whatever they have been through. -/
theorem isEqual_of_reachable [DecidableEq β] {d d' : FImmutableSortedDictionary α β}
    (hd : Reachable cmp d) (hd' : Reachable cmp d') :
    d.isEqual cmp d' = true ↔ ∀ k, d.get cmp k = d'.get cmp k :=
  hd.valid.isEqual_iff hd'.valid

theorem isEqual_of_reachable_alphabet :
    alphabet.isEqual compareKey (array [("9", 2)]) = true ↔
      ∀ k, alphabet.get compareKey k = (array [("9", 2)]).get compareKey k :=
  isEqual_of_reachable reachable_alphabet
    (.edit (e := .insertKey "9" 2) .dictionaryWithComparator rfl)

/-- The enumerators go through the keys in order, from the start key on where there is one. -/
theorem enumerators_of_reachable {d : FImmutableSortedDictionary α β} (hd : Reachable cmp d)
    (startKey : α) (n : ℕ) :
    (d.keyEnumerator cmp).nthObject n = d.keys[n]? ∧
      (d.keyEnumeratorFrom cmp startKey).nthObject n =
        (d.keys.filter (cmp · startKey ≠ .lt))[n]? ∧
      (d.reverseKeyEnumeratorFrom cmp startKey).nthObject n =
        (d.keys.filter (cmp · startKey ≠ .gt)).reverse[n]? :=
  ⟨nthObject_keyEnumerator hd.valid n, nthObject_keyEnumeratorFrom hd.valid startKey n,
    nthObject_reverseKeyEnumeratorFrom hd.valid startKey n⟩

theorem enumerators_of_reachable_alphabet :
    (alphabet.keyEnumerator compareKey).nthObject 3 = alphabet.keys[3]? ∧
      (alphabet.keyEnumeratorFrom compareKey "m").nthObject 3 =
        (alphabet.keys.filter (compareKey · "m" ≠ .lt))[3]? ∧
      (alphabet.reverseKeyEnumeratorFrom compareKey "m").nthObject 3 =
        (alphabet.keys.filter (compareKey · "m" ≠ .gt)).reverse[3]? :=
  enumerators_of_reachable reachable_alphabet "m" 3

/-- The reverse enumerator without a start key goes through an array; that of a tree ends at once,
although the tree has keys. -/
theorem reverseKeyEnumerator_of_reachable {d : FImmutableSortedDictionary α β}
    (hd : Reachable cmp d) :
    (∀ n, (d.reverseKeyEnumerator cmp).nthObject n = d.keys.reverse[n]?) ↔
      d.keys = [] ∨ ∃ entries, d = array entries := by
  cases d with
  | array entries =>
    exact iff_of_true (nthObject_reverseKeyEnumerator_array entries) (Or.inr ⟨entries, rfl⟩)
  | tree root =>
    simp only [nthObject_reverseKeyEnumerator_tree hd.valid.sorted, reduceCtorEq, exists_false,
      or_false]
    constructor
    · intro h
      have hlast := h 0
      simpa using hlast.symm
    · intro h n
      rw [h, List.reverse_nil, List.getElem?_nil]

theorem reverseKeyEnumerator_of_reachable_alphabet :
    (∀ n, (alphabet.reverseKeyEnumerator compareKey).nthObject n = alphabet.keys.reverse[n]?) ↔
      alphabet.keys = [] ∨ ∃ entries, alphabet = array entries :=
  reverseKeyEnumerator_of_reachable reachable_alphabet

/-- The key before a key that is there; for any other key the search raises. -/
theorem getPredecessorKey_of_reachable {d : FImmutableSortedDictionary α β} (hd : Reachable cmp d)
    (key : α) : d.getPredecessorKey cmp key =
      if (d.get cmp key).isSome then some (d.keys.filter (cmp · key = .lt)).getLast? else none :=
  getPredecessorKey_eq hd.valid key

theorem getPredecessorKey_of_reachable_alphabet :
    alphabet.getPredecessorKey compareKey "m" =
      if (alphabet.get compareKey "m").isSome then
        some (alphabet.keys.filter (compareKey · "m" = .lt)).getLast?
      else none :=
  getPredecessorKey_of_reachable reachable_alphabet "m"

end Dictionary

/-! ## Children of a node -/

/-- A dictionary of children is built unless two of its keys are a zero with and without a minus
sign; then every child is under its key. -/
theorem fromDictionary_children {β : Type*} (children : List (String × β))
    (hnodup : (children.map Prod.fst).Nodup) :
    (fromDictionary compareKey children = none ↔
        ∃ a ∈ children.map Prod.fst, ∃ b ∈ children.map Prod.fst, SameZero a b) ∧
      ∀ d, fromDictionary compareKey children = some d → ∀ key ∈ children.map Prod.fst, ∀ value,
        d.get compareKey key = some value ↔ (key, value) ∈ children := by
  cases hsorted : sortedKeyList compareKey children with
  | none =>
    have hne : ¬children.Pairwise fun a b => compareKey a.1 b.1 ≠ .eq := fun h => by
      simp [← isSome_sortedKeyList_iff, hsorted] at h
    rw [fromDictionary_eq_none hsorted]
    refine ⟨iff_of_true rfl ?_, nofun⟩
    by_contra hzero
    have hkeys : (children.map Prod.fst).Pairwise fun a b => compareKey a b ≠ .eq := by
      refine List.Nodup.pairwise_of_forall_ne hnodup fun a ha b hb hab heq => ?_
      rcases (compareKey_eq_iff a b).1 heq with h | h | h
      · exact hab h
      · exact hzero ⟨a, ha, b, hb, h⟩
      · exact hzero ⟨b, hb, a, ha, h⟩
    exact hne (List.pairwise_map.1 hkeys)
  | some entries =>
    have hne : children.Pairwise fun a b => compareKey a.1 b.1 ≠ .eq := by
      simp [← isSome_sortedKeyList_iff, hsorted]
    obtain ⟨hperm, -⟩ := sortedKeyList_eq_some_iff.1 hsorted
    obtain ⟨d, hd, hvalid, rfl⟩ := exists_fromDictionary hsorted
    rw [hd]
    refine ⟨iff_of_false nofun ?_, ?_⟩
    · rintro ⟨a, ha, b, hb, h⟩
      have hkeys : (children.map Prod.fst).Pairwise fun a b => compareKey a b ≠ .eq :=
        List.pairwise_map.2 hne
      have : Std.Symm fun a b => compareKey a b ≠ .eq :=
        ⟨fun _ _ h heq => h (Std.OrientedCmp.eq_symm heq)⟩
      exact hkeys.forall ha hb h.ne ((compareKey_eq_iff a b).2 (Or.inr (Or.inl h)))
    · rintro _ ⟨⟩ key hkey value
      obtain ⟨e, he, rfl⟩ := List.mem_map.1 hkey
      rw [hvalid.get_eq, lookup_eq_some_iff hvalid.sorted]
      constructor
      · rintro ⟨key', heq, hmem⟩
        have hsame := hvalid.sorted.eq_of_mem (hperm.mem_iff.1 he) hmem heq
        rw [hsame]
        exact hperm.mem_iff.2 hmem
      · exact fun hmem => ⟨e.1, Std.ReflCmp.compare_self, hperm.mem_iff.1 hmem⟩

theorem fromDictionary_children_zero :
    (fromDictionary compareKey [("00", 1), ("-0", 2)] = none ↔
        ∃ a ∈ ["00", "-0"], ∃ b ∈ ["00", "-0"], SameZero a b) ∧
      ∀ d, fromDictionary compareKey [("00", 1), ("-0", 2)] = some d →
        ∀ key ∈ ["00", "-0"], ∀ value,
          d.get compareKey key = some value ↔ (key, value) ∈ [("00", 1), ("-0", 2)] :=
  fromDictionary_children [("00", 1), ("-0", 2)] (by decide)

section List

/-- The operations on the list of entries in which `FNode` keeps its children. -/
def editList (children : List (String × FNode)) : Edit String FNode → List (String × FNode)
  | .insertKey key child => FNode.setObject children key child
  | .removeKey key => FNode.removeObjectForKey children key

/-- The operations on the list are those of a map under `compareKey`. -/
theorem objectForKey_editList (children : List (String × FNode)) (e : Edit String FNode) :
    FNode.objectForKey (editList children e) =
      e.describe compareKey (FNode.objectForKey children) := by
  funext key
  have hcomm (k : String) : compareKey k key = .eq ↔ compareKey key k = .eq :=
    Std.OrientedCmp.eq_comm
  cases e with
  | insertKey k child =>
    rw [editList, FNode.objectForKey_setObject, Edit.describe]
    simp only [hcomm]
  | removeKey k =>
    rw [editList, FNode.objectForKey_removeObjectForKey, Edit.describe]
    simp only [hcomm]

end List

end FImmutableSortedDictionary

end IndoorFarm
