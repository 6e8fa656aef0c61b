import IndoorFarm.Firebase.LLRBBalance
import Mathlib.Data.Nat.Bitwise

/-!
# Building a tree from a dictionary (`FTreeSortedDictionary`)

`fromDictionary:withComparator:` sorts the keys, writes one more than their number in base {1,2} and
hangs a pennant for each digit on the left of the one before: a node whose right child is a perfect
black tree.  A digit two gives a black pennant and a red one below it.

A dictionary is given as the list of its entries, and an access out of the bounds of the sorted
list raises (`none`).  The loop never raises and the tree is balanced (`exists_rootFrom12List`).
Counts are natural numbers; the C types hold them below `2 ^ 32 - 1` entries.
-/

namespace IndoorFarm

open FLLRBColor FLLRBNode SortedEntries

variable {α β : Type*}

/-! ## The source -/

/-- `log_base2`. -/
def log_base2 (num : ℕ) : ℕ := Nat.log2 num

structure Base1_2List where
  bits : ℕ
  count : ℕ

/-- `base1_2List_new`; `bit_mask` keeps the bits below the highest one. -/
def base1_2List_new (length : ℕ) : Base1_2List :=
  let count := log_base2 (length + 1)
  { bits := (length + 1) &&& (2 ^ count - 1), count := count }

/-- `base1_2List_next` at the bit `current`: whether the digit is a one. -/
def base1_2List_next (bits current : ℕ) : Bool := bits &&& (1 <<< current) = 0

/-- `buildBalancedTree:dictionary:subArrayStartIndex:length:`. -/
def buildBalancedTree (keys : List (α × β)) (startIndex length : ℕ) : Option (FLLRBNode α β) :=
  let bounded := Nat.min (keys.length - startIndex) length
  if bounded = 0 then some emptyNode
  else if bounded = 1 then
    keys[startIndex]?.map fun (key, value) => valueNode key value BLACK emptyNode emptyNode
  else
    let middle := bounded / 2
    (buildBalancedTree keys startIndex middle).bind fun left =>
      (buildBalancedTree keys (startIndex + middle + 1) middle).bind fun right =>
        keys[startIndex + middle]?.map fun (key, value) => valueNode key value BLACK left right
termination_by length
decreasing_by
  all_goals
    have hle : (keys.length - startIndex).min length ≤ length := Nat.min_le_right _ _
    omega

/-- The block `buildPennant`, from the end `index` of the keys that are left, with what it is going
to have on the left. -/
def buildPennant (keys : List (α × β)) (color : FLLRBColor) (chunkSize index : ℕ)
    (left : FLLRBNode α β) : Option (FLLRBNode α β) :=
  keys[index - chunkSize]?.bind fun (key, value) =>
    (buildBalancedTree keys (index - chunkSize + 1) (chunkSize - 1)).map fun childTree =>
      valueNode key value color left childTree

/-- The loop of `rootFrom12List:keyList:dictionary:` over the lowest `current` bits. -/
def rootFrom12List (keys : List (α × β)) (bits : ℕ) : ℕ → ℕ → Option (FLLRBNode α β)
  | 0, _ => some emptyNode
  | current + 1, index =>
    let chunkSize := 2 ^ current
    if base1_2List_next bits current then
      (rootFrom12List keys bits current (index - chunkSize)).bind fun rest =>
        buildPennant keys BLACK chunkSize index rest
    else
      (rootFrom12List keys bits current (index - chunkSize - chunkSize)).bind fun rest =>
        (buildPennant keys RED chunkSize (index - chunkSize) rest).bind fun red =>
          buildPennant keys BLACK chunkSize index red

/-- The test on neighbours in the sorted list of keys. -/
def keysAscend (comparator : α → α → Ordering) : List (α × β) → Bool
  | a :: b :: l => comparator a.1 b.1 = .lt && keysAscend comparator (b :: l)
  | _ => true

/-- `sortUsingComparator:` of the keys, and the exception for keys with the same ordering. -/
def sortedKeyList (comparator : α → α → Ordering) (dictionary : List (α × β)) :
    Option (List (α × β)) :=
  let sorted := dictionary.mergeSort fun a b => (comparator a.1 b.1).isLE
  if keysAscend comparator sorted then some sorted else none

/-- `fromDictionary:withComparator:` of `FTreeSortedDictionary`: the root. -/
def treeFromDictionary (comparator : α → α → Ordering) (dictionary : List (α × β)) :
    Option (FLLRBNode α β) :=
  (sortedKeyList comparator dictionary).bind fun keys =>
    let list := base1_2List_new keys.length
    rootFrom12List keys list.bits list.count keys.length

/-! ## Sorting -/

section Sorting

open Std (OrientedCmp TransCmp)

variable {cmp : α → α → Ordering} [TransCmp cmp] {l l' : List (α × β)}

theorem keysAscend_iff : keysAscend cmp l = true ↔ Sorted cmp l := by
  induction l with
  | nil => simp [keysAscend, Sorted]
  | cons a l ih =>
    cases l with
    | nil => simp [keysAscend, Sorted]
    | cons b l =>
      rw [keysAscend, Bool.and_eq_true_iff, ih, decide_eq_true_iff]
      constructor
      · rintro ⟨hab, hl⟩
        refine List.pairwise_cons.2 ⟨fun x hx => ?_, hl⟩
        rcases List.mem_cons.1 hx with rfl | hx
        · exact hab
        · exact TransCmp.lt_trans hab ((List.pairwise_cons.1 hl).1 x hx)
      · intro h
        obtain ⟨ha, hl⟩ := List.pairwise_cons.1 h
        exact ⟨ha b List.mem_cons_self, hl⟩

theorem pairwise_mergeSort (l : List (α × β)) :
    (l.mergeSort fun a b => (cmp a.1 b.1).isLE).Pairwise fun a b => (cmp a.1 b.1).isLE := by
  refine List.pairwise_mergeSort (fun a b c => TransCmp.isLE_trans) (fun a b => ?_) l
  have hswap : cmp b.1 a.1 = (cmp a.1 b.1).swap := OrientedCmp.eq_swap
  rw [Bool.or_eq_true, hswap]
  cases cmp a.1 b.1 <;> simp

theorem sortedKeyList_eq_some_iff :
    sortedKeyList cmp l = some l' ↔ l.Perm l' ∧ Sorted cmp l' := by
  have hperm := List.mergeSort_perm l fun a b => (cmp a.1 b.1).isLE
  simp only [sortedKeyList, keysAscend_iff, Option.ite_none_right_eq_some, Option.some.injEq]
  constructor
  · rintro ⟨hs, rfl⟩
    exact ⟨hperm.symm, hs⟩
  · rintro ⟨hl, hs⟩
    have heq : l.mergeSort (fun a b => (cmp a.1 b.1).isLE) = l' := by
      refine (hperm.trans hl).eq_of_pairwise (fun a b ha hb hab hba => ?_) (pairwise_mergeSort l)
        (hs.imp fun h => by simp [h])
      exact hs.eq_of_mem (hl.mem_iff.1 (hperm.mem_iff.1 ha)) hb (OrientedCmp.isLE_antisymm hab hba)
    exact ⟨heq ▸ hs, heq⟩

/-- Only keys with the same ordering raise. -/
theorem isSome_sortedKeyList_iff :
    (sortedKeyList cmp l).isSome ↔ l.Pairwise fun a b => cmp a.1 b.1 ≠ .eq := by
  have hperm := List.mergeSort_perm l fun a b => (cmp a.1 b.1).isLE
  have hsymm {a b : α × β} (h : cmp a.1 b.1 ≠ .eq) : cmp b.1 a.1 ≠ .eq :=
    fun heq => h (OrientedCmp.eq_symm heq)
  rw [Option.isSome_iff_exists]
  simp only [sortedKeyList_eq_some_iff]
  constructor
  · rintro ⟨l', hl, hs⟩
    exact (hl.pairwise_iff hsymm).2 (hs.imp fun hlt heq => by simp [hlt] at heq)
  · intro hne
    refine ⟨_, hperm.symm, ((pairwise_mergeSort l).and ((hperm.pairwise_iff hsymm).2 hne)).imp ?_⟩
    rintro a b ⟨hle, hne⟩
    cases hcmp : cmp a.1 b.1 with
    | lt => rfl
    | eq => exact absurd hcmp hne
    | gt => simp [hcmp] at hle

end Sorting

/-! ## The loop -/

variable (keys : List (α × β))

/-- A stretch of the list around one of its entries. -/
theorem take_middle (i a b : ℕ) (h : i + a < keys.length) :
    (keys.drop i).take (a + 1 + b) =
      (keys.drop i).take a ++ keys[i + a] :: (keys.drop (i + a + 1)).take b := by
  rw [Nat.add_assoc, List.take_add, List.drop_drop, List.drop_eq_getElem_cons h, Nat.add_comm 1 b,
    List.take_succ_cons]

/-- A perfect black tree of `2 ^ h - 1` keys. -/
theorem exists_buildBalancedTree (h startIndex : ℕ)
    (hlen : startIndex + (2 ^ h - 1) ≤ keys.length) :
    ∃ n, buildBalancedTree keys startIndex (2 ^ h - 1) = some n ∧ Balanced BLACK h n ∧
      n.toList = (keys.drop startIndex).take (2 ^ h - 1) := by
  induction h generalizing startIndex with
  | zero =>
    rw [buildBalancedTree]
    exact ⟨emptyNode, by simp, .emptyNode, by simp⟩
  | succ h ih =>
    have hpow : 2 ^ (h + 1) - 1 = (2 ^ h - 1) + 1 + (2 ^ h - 1) := by
      have hpos := Nat.one_le_two_pow (n := h)
      rw [Nat.pow_succ]
      omega
    have hbounded : Nat.min (keys.length - startIndex) (2 ^ (h + 1) - 1) = 2 ^ (h + 1) - 1 :=
      Nat.min_eq_right (by omega)
    have hmiddle : startIndex + (2 ^ h - 1) < keys.length := by omega
    obtain ⟨left, hleft, hleft', hl⟩ := ih startIndex (by omega)
    obtain ⟨right, hright, hright', hr⟩ := ih (startIndex + (2 ^ h - 1) + 1) (by omega)
    refine ⟨valueNode keys[startIndex + (2 ^ h - 1)].1 keys[startIndex + (2 ^ h - 1)].2 BLACK left
      right, ?_, .black hleft' hright', ?_⟩
    · rw [buildBalancedTree]
      simp only [hbounded]
      cases h with
      | zero =>
        obtain rfl := hleft'.eq_emptyNode
        obtain rfl := hright'.eq_emptyNode
        simp
      | succ h =>
        have hget := List.getElem?_eq_getElem hmiddle
        have hpos := Nat.one_le_two_pow (n := h)
        have hhalf : (2 ^ (h + 1 + 1) - 1) / 2 = 2 ^ (h + 1) - 1 := by
          rw [hpow]
          omega
        rw [if_neg (by rw [hpow]; omega), if_neg (by rw [hpow, Nat.pow_succ]; omega), hhalf, hleft,
          Option.bind_some, hright, Option.bind_some, hget]
        rfl
    · rw [toList_valueNode, hl, hr, hpow, take_middle keys _ _ _ hmiddle]

theorem exists_buildPennant (color : FLLRBColor) {left : FLLRBNode α β} {h index : ℕ}
    (hle : 2 ^ h ≤ index) (hindex : index ≤ keys.length)
    (hleft : left.toList = keys.take (index - 2 ^ h)) :
    ∃ k v right,
      buildPennant keys color (2 ^ h) index left = some (valueNode k v color left right) ∧
      Balanced BLACK h right ∧ (valueNode k v color left right).toList = keys.take index := by
  have hpos := Nat.one_le_two_pow (n := h)
  have hget : index - 2 ^ h < keys.length := by omega
  obtain ⟨right, hright, hright', hr⟩ :=
    exists_buildBalancedTree keys h (index - 2 ^ h + 1) (by omega)
  refine ⟨keys[index - 2 ^ h].1, keys[index - 2 ^ h].2, right, ?_, hright', ?_⟩
  · rw [buildPennant, List.getElem?_eq_getElem hget, Option.bind_some, hright]
    rfl
  · have hsplit := take_middle keys 0 (index - 2 ^ h) (2 ^ h - 1) (by omega)
    rw [toList_valueNode, hleft, hr]
    rw [List.drop_zero, show index - 2 ^ h + 1 + (2 ^ h - 1) = index by omega] at hsplit
    simpa using hsplit.symm

theorem base1_2List_next_iff {bits current : ℕ} :
    base1_2List_next bits current = true ↔ bits / 2 ^ current % 2 = 0 := by
  rw [base1_2List_next, decide_eq_true_iff, Nat.one_shiftLeft, Nat.and_two_pow,
    Nat.testBit_eq_decide_div_mod_eq]
  rcases Nat.mod_two_eq_zero_or_one (bits / 2 ^ current) with h | h <;> simp [h]

/-- The digits that are left number the keys that are left, and the chain of pennants over them is a
balanced tree of these. -/
theorem exists_rootFrom12List {bits : ℕ} (current index : ℕ)
    (hindex : index + 1 = 2 ^ current + bits % 2 ^ current) (hle : index ≤ keys.length) :
    ∃ n, rootFrom12List keys bits current index = some n ∧ Balanced BLACK current n ∧
      n.toList = keys.take index := by
  induction current generalizing index with
  | zero =>
    obtain rfl : index = 0 := by
      rw [Nat.pow_zero, Nat.mod_one] at hindex
      omega
    exact ⟨emptyNode, rfl, .emptyNode, by simp⟩
  | succ current ih =>
    have hmod := Nat.mod_pow_succ (x := bits) (b := 2) (k := current)
    rw [hmod, Nat.pow_succ] at hindex
    rw [rootFrom12List]
    rcases Nat.mod_two_eq_zero_or_one (bits / 2 ^ current) with hbit | hbit
    · rw [hbit, Nat.mul_zero, Nat.add_zero] at hindex
      obtain ⟨rest, hrest, hbalanced, htoList⟩ := ih (index - 2 ^ current) (by omega) (by omega)
      obtain ⟨k, v, right, hpennant, hright, hlist⟩ :=
        exists_buildPennant keys BLACK (by omega) hle htoList
      refine ⟨_, ?_, .black hbalanced hright, hlist⟩
      rw [if_pos (base1_2List_next_iff.2 hbit), hrest, Option.bind_some, hpennant]
    · rw [hbit, Nat.mul_one] at hindex
      obtain ⟨rest, hrest, hbalanced, htoList⟩ :=
        ih (index - 2 ^ current - 2 ^ current) (by omega) (by omega)
      obtain ⟨k₁, v₁, right₁, hred, hright₁, hlist₁⟩ := exists_buildPennant keys RED
        (Nat.le_sub_of_add_le (by omega)) (by omega) htoList
      obtain ⟨k₂, v₂, right₂, hblack, hright₂, hlist₂⟩ :=
        exists_buildPennant keys BLACK (by omega) hle hlist₁
      refine ⟨_, ?_, .black (.red hbalanced hright₁) hright₂, hlist₂⟩
      rw [if_neg (by rw [base1_2List_next_iff, hbit]; decide), hrest, Option.bind_some, hred,
        Option.bind_some, hblack]

theorem base1_2List_new_spec (length : ℕ) : length + 1 =
    2 ^ (base1_2List_new length).count +
      (base1_2List_new length).bits % 2 ^ (base1_2List_new length).count := by
  have hle : 2 ^ (length + 1).log2 ≤ length + 1 := Nat.log2_self_le (by omega)
  have hlt : length + 1 < 2 ^ ((length + 1).log2 + 1) := Nat.lt_log2_self
  simp only [base1_2List_new, log_base2, Nat.and_two_pow_sub_one_eq_mod, Nat.mod_mod]
  rw [Nat.pow_succ] at hlt
  rw [Nat.mod_eq_sub_mod hle, Nat.mod_eq_of_lt (by omega)]
  omega

/-- A dictionary none of whose keys have the same ordering becomes a balanced tree of its entries;
any other raises. -/
theorem treeFromDictionary_spec {cmp : α → α → Ordering} [Std.TransCmp cmp]
    {dictionary keys : List (α × β)} (hperm : dictionary.Perm keys) (hsorted : Sorted cmp keys) :
    ∃ n h, treeFromDictionary cmp dictionary = some n ∧ Balanced BLACK h n ∧ n.toList = keys := by
  obtain ⟨n, hn, hbalanced, htoList⟩ := exists_rootFrom12List keys
    (base1_2List_new keys.length).count keys.length (base1_2List_new_spec keys.length) le_rfl
  refine ⟨n, _, ?_, hbalanced, by rw [htoList, List.take_length]⟩
  rw [treeFromDictionary, sortedKeyList_eq_some_iff.2 ⟨hperm, hsorted⟩, Option.bind_some]
  exact hn

end IndoorFarm
