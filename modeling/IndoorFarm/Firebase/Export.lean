import IndoorFarm.Firebase.KeyOrder
import IndoorFarm.Firebase.SortedDictionary
import IndoorFarm.Firebase.Value
import Mathlib.Data.List.Nodup
import Mathlib.Data.List.TakeWhile

/-!
# Export and import of a tree

`internalNodeFrom` is `internalNodeFrom:priority:withValidationFrom:atDepth:path:` with its checks:
the depth of the value, the size of its strings and, through `fromDictionary`, the keys of each
dictionary; trees have no priorities, and values none of the payload keys in which an export would
keep them.  The client keeps the children of a node in the order of their keys (`WellFormed`), so a
tree that comes back comes back as the same term.

A tree comes back from its exported value exactly when it is not too deep and its strings are not
too long (`Fits`) and a node exported as an array has the numerals of the indices as its keys
(`Canonical`).  An imported tree always fits; its keys can fail to be numerals, because
`intForString` takes the decimal digits of every script and then reads the ASCII digits at the
front.  Such a child has no index in the array and is dropped.
-/

namespace IndoorFarm

open FNode SortedEntries

/-! ## What comes back -/

/-- The key is the numeral of the index it is read as. -/
def CanonicalKey (key : String) : Prop := ∃ i, integerKey key = some i ∧ toString i = key

/-- Every node that is exported as an array has numerals of indices as its keys. -/
inductive Canonical : FNode → Prop
  | leafNode (v : LeafValue) : Canonical (.leafNode v)
  | childrenNode {cs : List (String × FNode)}
      (canonical : ListedAsArray (cs.map Prod.fst) → ∀ entry ∈ cs, CanonicalKey entry.1)
      (child : ∀ entry ∈ cs, Canonical entry.2) : Canonical (.childrenNode cs)

/-- Below `depth` levels, the tree is not too deep and its strings are not too long. -/
inductive Fits : ℕ → FNode → Prop
  | leafNode {depth : ℕ} {v : LeafValue} (depth_le : depth ≤ kFirebaseMaxObjectDepth)
      (shortEnough : v.ShortEnough) : Fits depth (.leafNode v)
  | childrenNode {depth : ℕ} {cs : List (String × FNode)}
      (depth_le : depth ≤ kFirebaseMaxObjectDepth)
      (child : ∀ entry ∈ cs, Fits (depth + 1) entry.2) :
      Fits depth (.childrenNode cs)

/-- Below `depth` levels, the exported tree can be imported again without a loss. -/
def Restorable (depth : ℕ) (n : FNode) : Prop := Fits depth n ∧ Canonical n

/-! ## Numerals -/

theorem digitChar_eq_zero : ∀ i < 10, Nat.digitChar i = '0' → i = 0 := by decide

theorem head_toDigits_eq_zero {i : ℕ} (h : (Nat.toDigits 10 i).head? = some '0') : i = 0 := by
  induction i using Nat.strong_induction_on with
  | _ i ih =>
    by_cases hlt : i < 10
    · rw [Nat.toDigits_of_lt_base hlt, List.head?_cons, Option.some.injEq] at h
      exact digitChar_eq_zero i hlt h
    · rw [Nat.toDigits_of_base_le (by decide) (by omega), List.head?_append,
        Option.or_of_isSome (by simp [Nat.toDigits_ne_nil])] at h
      have hdiv := ih (i / 10) (by omega) h
      omega

theorem isDecimalDigit_of_isDigit {c : Char} (h : c.isDigit = true) : isDecimalDigit c = true := by
  have hrange : 48 ≤ c.toNat ∧ c.toNat ≤ 57 := Char.isDigit_iff_toNat.1 h
  simp only [isDecimalDigit, List.any_eq_true, Bool.and_eq_true, decide_eq_true_eq]
  exact ⟨0x30, by decide, by omega⟩

/-- The numeral of a number that fits an `NSInteger` is read as the number. -/
theorem integerKey_toString {i : ℕ} (h : i < 2 ^ 63) : integerKey (toString i) = some i := by
  have hlist : (toString i).toList = Nat.toDigits 10 i := Nat.toList_repr
  have hdigit : ∀ c ∈ Nat.toDigits 10 i, c.isDigit = true := fun c hc =>
    Nat.isDigit_of_mem_toDigits (by decide) (by decide) hc
  have hzero : ¬ ((toString i).toList.head? = some '0' ∧ 1 < (toString i).toList.length) := by
    rw [hlist]
    rintro ⟨hhead, hlength⟩
    rw [head_toDigits_eq_zero hhead] at hlength
    exact absurd hlength (by decide)
  have hall : (toString i).toList.all isDecimalDigit = true := by
    rw [hlist, List.all_eq_true]
    exact fun c hc => isDecimalDigit_of_isDigit (hdigit c hc)
  have htake : (Nat.toDigits 10 i).takeWhile Char.isDigit = Nat.toDigits 10 i :=
    List.takeWhile_eq_self_iff.2 hdigit
  have hvalue : (Nat.toDigits 10 i).foldl (fun n c => 10 * n + (c.toNat - 48)) 0 = i :=
    Nat.ofDigitChars_ten_toDigits
  rw [integerKey, if_neg hzero, intForString, if_pos hall, hlist, scanInteger, htake]
  split
  · exact absurd ‹_› Nat.toDigits_ne_nil
  · rw [hvalue, Nat.min_eq_left (by omega)]

/-! ## The imported children -/

/-- The entry that an imported value adds to the children. -/
def childFrom (depth : ℕ) (entry : String × Value) : Option (String × FNode) :=
  (internalNodeFrom depth entry.2).bind fun childNode =>
    if childNode.isEmpty then none else some (entry.1, childNode)

theorem childrenFrom_eq_some_iff {depth : ℕ} {entries : NSDictionary}
    {children : List (String × FNode)} :
    childrenFrom depth entries = some children ↔
      (∀ entry ∈ entries, isValidKey entry.1 = true ∧ (internalNodeFrom depth entry.2).isSome) ∧
        entries.filterMap (childFrom depth) = children := by
  induction entries generalizing children with
  | nil => simp [childrenFrom]
  | cons entry entries ih =>
    obtain ⟨key, value⟩ := entry
    rw [childrenFrom, List.forall_mem_cons]
    by_cases hkey : isValidKey key = true
    · cases hnode : internalNodeFrom depth value with
      | none => simp [hkey]
      | some childNode =>
        have hchild : childFrom depth (key, value) =
            if childNode.isEmpty then none else some (key, childNode) := by
          rw [childFrom, hnode, Option.bind_some]
        rw [if_pos hkey, Option.bind_some, Option.map_eq_some_iff, List.filterMap_cons, hchild]
        simp only [ih, hkey, Option.isSome_some, and_self, true_and]
        split_ifs <;> simp
    · simp [hkey]

theorem isValidKey_toString (i : ℕ) : isValidKey (toString i) = true := by
  have hlist : (toString i).toList = Nat.toDigits 10 i := Nat.toList_repr
  have hne : toString i ≠ "" := fun h => by simp [h, Nat.toDigits_ne_nil.symm] at hlist
  simp only [isValidKey, Bool.and_eq_true, decide_eq_true_eq, List.all_eq_true, hlist]
  refine ⟨hne, fun c hc hmem => ?_⟩
  have hdigit := Nat.isDigit_of_mem_toDigits (by decide) (by decide) hc
  have hnone : kInvalidKeyCharacters.all (fun c => !c.isDigit) = true := by decide
  have hnot := List.all_eq_true.1 hnone c hmem
  rw [hdigit] at hnot
  contradiction

theorem childrenFromArray_eq {depth i : ℕ} {elements : List Value} :
    childrenFromArray depth i elements =
      childrenFrom depth (elements.mapIdx fun j value => (toString (i + j), value)) := by
  induction elements generalizing i with
  | nil => rfl
  | cons value elements ih =>
    have hshift : (fun j (value : Value) => (toString (i + (j + 1)), value)) =
        fun j value => (toString (i + 1 + j), value) := by
      funext j value
      rw [Nat.add_assoc, Nat.add_comm 1 j]
    rw [childrenFromArray, List.mapIdx_cons, childrenFrom, if_pos (isValidKey_toString _), ih,
      hshift]
    rfl

/-- The children that an import keeps. -/
theorem mem_childrenFrom {depth : ℕ} {entries : NSDictionary} {key : String} {c : FNode} :
    (key, c) ∈ entries.filterMap (childFrom depth) ↔
      ∃ value, (key, value) ∈ entries ∧ internalNodeFrom depth value = some c ∧ c ≠ emptyNode := by
  rw [List.mem_filterMap]
  constructor
  · rintro ⟨⟨key', value⟩, hmem, hchild⟩
    obtain ⟨node, hnode, hkept⟩ := Option.bind_eq_some_iff.1 hchild
    rw [Option.ite_none_left_eq_some, Option.some.injEq, Prod.mk.injEq] at hkept
    obtain ⟨hempty, rfl, rfl⟩ := hkept
    exact ⟨value, hmem, hnode, fun h => hempty ((isEmpty_iff _).2 h)⟩
  · rintro ⟨value, hmem, hnode, hne⟩
    refine ⟨(key, value), hmem, ?_⟩
    rw [childFrom, hnode, Option.bind_some, if_neg fun h => hne ((isEmpty_iff c).1 h)]

theorem nodup_childrenFrom {depth : ℕ} {entries : NSDictionary}
    (h : (entries.map Prod.fst).Nodup) : (entries.filterMap (childFrom depth)).Nodup := by
  refine List.Nodup.of_map Prod.fst (h.sublist ?_)
  induction entries with
  | nil => exact List.Sublist.refl _
  | cons entry entries ih =>
    rw [List.map_cons, List.nodup_cons] at h
    rw [List.filterMap_cons]
    cases hchild : childFrom depth entry with
    | none => exact (ih h.2).cons _
    | some child =>
      obtain ⟨node, -, hkept⟩ := Option.bind_eq_some_iff.1 hchild
      rw [Option.ite_none_left_eq_some, Option.some.injEq] at hkept
      rw [← hkept.2]
      exact (ih h.2).cons_cons _

/-- The entries are imported as the node when each of them can be imported and what they come to are
the children of the node. -/
theorem bind_childrenFrom_eq_some_iff {depth : ℕ} {entries : NSDictionary}
    {cs : List (String × FNode)} (hentries : (entries.map Prod.fst).Nodup)
    (hs : Sorted compareKey cs) :
    (childrenFrom depth entries).bind childrenNodeFrom = some (.childrenNode cs) ↔
      (∀ entry ∈ entries, isValidKey entry.1 = true ∧ (internalNodeFrom depth entry.2).isSome) ∧
      ∀ key c, (∃ value, (key, value) ∈ entries ∧ internalNodeFrom depth value = some c ∧
        c ≠ emptyNode) ↔ (key, c) ∈ cs := by
  have hcs : cs.Nodup := List.Nodup.of_map Prod.fst (nodup_keys_of_sorted hs)
  simp only [Option.bind_eq_some_iff, childrenFrom_eq_some_iff, ← mem_childrenFrom]
  constructor
  · rintro ⟨children, ⟨hall, rfl⟩, hnode⟩
    refine ⟨hall, fun key c => ?_⟩
    exact ((childrenNodeFrom_eq_some_iff hs).1 hnode).mem_iff
  · rintro ⟨hall, hmem⟩
    refine ⟨_, ⟨hall, rfl⟩, (childrenNodeFrom_eq_some_iff hs).2 ?_⟩
    exact (List.perm_ext_iff_of_nodup (nodup_childrenFrom hentries) hcs).2 fun e => hmem e.1 e.2

/-! ## What an import makes -/

/-- The children an import keeps are trees of the client under valid keys, and they fit. -/
def ImportedChildren (depth : ℕ) (children : List (String × FNode)) : Prop :=
  ∀ entry ∈ children, isValidKey entry.1 = true ∧ entry.2 ≠ emptyNode ∧ WellFormed entry.2 ∧
    Fits depth entry.2

theorem imported_childrenNodeFrom {depth : ℕ} {children : List (String × FNode)} {n : FNode}
    (hdepth : depth ≤ kFirebaseMaxObjectDepth) (h : ImportedChildren (depth + 1) children)
    (hn : childrenNodeFrom children = some n) : WellFormed n ∧ Fits depth n := by
  rw [childrenNodeFrom] at hn
  split_ifs at hn
  · obtain rfl := Option.some.inj hn
    exact ⟨wellFormed_emptyNode, .childrenNode hdepth (by simp)⟩
  · obtain ⟨d, hd, rfl⟩ := Option.map_eq_some_iff.1 hn
    cases hsorted : sortedKeyList compareKey children with
    | none =>
      rw [FImmutableSortedDictionary.fromDictionary_eq_none hsorted] at hd
      contradiction
    | some entries =>
      obtain ⟨d', hd', -, htoList⟩ := FImmutableSortedDictionary.exists_fromDictionary hsorted
      obtain rfl := Option.some.inj (hd'.symm.trans hd)
      obtain ⟨hperm, hs⟩ := sortedKeyList_eq_some_iff.1 hsorted
      have hentries : ImportedChildren (depth + 1) entries := fun entry hentry =>
        h entry (hperm.mem_iff.2 hentry)
      rw [htoList]
      exact ⟨.childrenNode entries hs (fun entry hentry => (hentries entry hentry).1)
          (fun entry hentry => (hentries entry hentry).2.1)
          fun entry hentry => (hentries entry hentry).2.2.1,
        .childrenNode hdepth fun entry hentry => (hentries entry hentry).2.2.2⟩

theorem importedChildren_cons {depth : ℕ} {key : String} {childNode : FNode}
    {rest : List (String × FNode)} (hkey : isValidKey key = true)
    (hchild : WellFormed childNode ∧ Fits depth childNode) (hrest : ImportedChildren depth rest) :
    ImportedChildren depth (if childNode.isEmpty then rest else (key, childNode) :: rest) := by
  split_ifs with hempty
  · exact hrest
  · exact List.forall_mem_cons.2
      ⟨⟨hkey, fun h => hempty ((isEmpty_iff childNode).2 h), hchild⟩, hrest⟩

mutual

/-- Whatever is imported is a tree of the client that fits. -/
theorem imported_internalNodeFrom (depth : ℕ) (value : Value) {n : FNode}
    (h : internalNodeFrom depth value = some n) : WellFormed n ∧ Fits depth n := by
  cases value with
  | null =>
    rw [internalNodeFrom, Option.ite_none_left_eq_some, not_lt] at h
    obtain rfl := Option.some.inj h.2
    exact ⟨wellFormed_emptyNode, .childrenNode h.1 (by simp)⟩
  | number number =>
    rw [internalNodeFrom, Option.ite_none_left_eq_some, not_lt] at h
    obtain rfl := Option.some.inj h.2
    exact ⟨.leafNode _, .leafNode h.1 trivial⟩
  | string text =>
    rw [internalNodeFrom, Option.ite_none_left_eq_some, not_lt,
      Option.ite_none_right_eq_some] at h
    obtain rfl := Option.some.inj h.2.2
    exact ⟨.leafNode _, .leafNode h.1 h.2.1⟩
  | array elements =>
    rw [internalNodeFrom, Option.ite_none_left_eq_some, not_lt, Option.bind_eq_some_iff] at h
    obtain ⟨hdepth, children, hchildren, hn⟩ := h
    exact imported_childrenNodeFrom hdepth
      (imported_childrenFromArray (depth + 1) 0 elements hchildren) hn
  | dictionary entries =>
    rw [internalNodeFrom, Option.ite_none_left_eq_some, not_lt, Option.bind_eq_some_iff] at h
    obtain ⟨hdepth, children, hchildren, hn⟩ := h
    exact imported_childrenNodeFrom hdepth
      (imported_childrenFrom (depth + 1) entries hchildren) hn

theorem imported_childrenFrom (depth : ℕ) (entries : NSDictionary)
    {children : List (String × FNode)} (h : childrenFrom depth entries = some children) :
    ImportedChildren depth children := by
  match entries with
  | [] =>
    obtain rfl := Option.some.inj h
    exact fun _ hentry => absurd hentry List.not_mem_nil
  | (key, value) :: entries =>
    rw [childrenFrom, Option.ite_none_right_eq_some, Option.bind_eq_some_iff] at h
    obtain ⟨hkey, childNode, hchild, h⟩ := h
    obtain ⟨rest, hrest, rfl⟩ := Option.map_eq_some_iff.1 h
    exact importedChildren_cons hkey (imported_internalNodeFrom depth value hchild)
      (imported_childrenFrom depth entries hrest)

theorem imported_childrenFromArray (depth i : ℕ) (elements : List Value)
    {children : List (String × FNode)} (h : childrenFromArray depth i elements = some children) :
    ImportedChildren depth children := by
  match elements with
  | [] =>
    obtain rfl := Option.some.inj h
    exact fun _ hentry => absurd hentry List.not_mem_nil
  | value :: elements =>
    rw [childrenFromArray, Option.bind_eq_some_iff] at h
    obtain ⟨childNode, hchild, h⟩ := h
    obtain ⟨rest, hrest, rfl⟩ := Option.map_eq_some_iff.1 h
    exact importedChildren_cons (isValidKey_toString i)
      (imported_internalNodeFrom depth value hchild)
      (imported_childrenFromArray depth (i + 1) elements hrest)

end

/-! ## The exported children -/

theorem mem_valChildren {cs : List (String × FNode)} {key : String} {value : Value} :
    (key, value) ∈ valChildren cs ↔ ∃ c, (key, c) ∈ cs ∧ c.val = value := by
  induction cs with
  | nil => simp [valChildren]
  | cons entry cs ih =>
    obtain ⟨k, c⟩ := entry
    rw [valChildren, List.mem_cons, ih, Prod.mk.injEq]
    constructor
    · rintro (⟨rfl, rfl⟩ | ⟨c', hmem, rfl⟩)
      · exact ⟨c, List.mem_cons_self, rfl⟩
      · exact ⟨c', List.mem_cons_of_mem _ hmem, rfl⟩
    · rintro ⟨c', hmem, rfl⟩
      rcases List.mem_cons.1 hmem with heq | hmem
      · rw [Prod.mk.injEq] at heq
        exact Or.inl ⟨heq.1, by rw [heq.2]⟩
      · exact Or.inr ⟨c', hmem, rfl⟩

theorem integerKey_lt {key : String} {i : ℕ} (h : integerKey key = some i) : i < 2 ^ 63 := by
  rw [integerKey, Option.ite_none_left_eq_some, intForString, Option.ite_none_right_eq_some,
    scanInteger] at h
  obtain ⟨-, -, h⟩ := h
  split at h
  · contradiction
  · rw [Option.some.injEq] at h
    omega

/-- The largest index of a node that is exported as an array. -/
theorem maxKey_of_listedAsArray {keys : List String} (h : ListedAsArray keys) :
    (scanKeys keys).maxKey < 2 ^ 63 ∧
      ∀ key ∈ keys, ∀ i, integerKey key = some i → i ≤ (scanKeys keys).maxKey := by
  have hall : (scanKeys keys).allIntegerKeys = true :=
    ((foldl_visit_lt_iff keys {} (2 * keys.length + 1)).2 ⟨⟨rfl, Nat.succ_pos _⟩, fun key hkey =>
      (h key hkey).imp fun i hi => ⟨hi.1, Nat.lt_succ_of_lt hi.2⟩⟩).1
  constructor
  · refine ((foldl_visit_lt_iff keys {} (2 ^ 63)).2 ⟨⟨rfl, by decide⟩, fun key hkey => ?_⟩).2
    obtain ⟨i, hi, -⟩ := h key hkey
    exact ⟨i, hi, integerKey_lt hi⟩
  · intro key hkey i hi
    obtain ⟨j, hj, hlt⟩ := ((foldl_visit_lt_iff keys {} ((scanKeys keys).maxKey + 1)).1
      ⟨hall, Nat.lt_succ_self _⟩).2 key hkey
    obtain rfl := Option.some.inj (hi.symm.trans hj)
    omega

/-- The entries an array of children is imported as. -/
def arrayEntries (cs : List (String × FNode)) : NSDictionary :=
  (List.range ((scanKeys (cs.map Prod.fst)).maxKey + 1)).map fun i =>
    (toString i, ((valChildren cs).lookup (toString i)).getD .null)

theorem val_of_listedAsArray {cs : List (String × FNode)} (hne : cs ≠ [])
    (hkeys : ListedAsArray (cs.map Prod.fst)) :
    (FNode.childrenNode cs).val = .array ((arrayEntries cs).map Prod.snd) := by
  have hkne : cs.map Prod.fst ≠ [] := by simpa using hne
  have hobj : valChildren cs ≠ [] := fun e => by simp [← keys_valChildren, e] at hkne
  rw [FNode.val, exportChildren, if_neg (by simpa using hobj), keys_valChildren]
  dsimp only
  rw [if_pos ((scanKeys_iff_listedAsArray hkne).2 hkeys), arrayEntries, List.map_map]
  rfl

theorem childrenFromArray_arrayEntries (depth : ℕ) (cs : List (String × FNode)) :
    childrenFromArray depth 0 ((arrayEntries cs).map Prod.snd) =
      childrenFrom depth (arrayEntries cs) := by
  rw [childrenFromArray_eq]
  congr 1
  refine List.ext_getElem (by simp) fun i hi hi' => ?_
  simp [arrayEntries]

theorem nodup_keys_arrayEntries (cs : List (String × FNode)) :
    ((arrayEntries cs).map Prod.fst).Nodup := by
  rw [arrayEntries, List.map_map]
  refine List.Nodup.map (fun i j hij => ?_) List.nodup_range
  have hlist := congrArg String.toList (show toString i = toString j from hij)
  have hi : (toString i).toList = Nat.toDigits 10 i := Nat.toList_repr
  have hj : (toString j).toList = Nat.toDigits 10 j := Nat.toList_repr
  rw [hi, hj] at hlist
  rw [← Nat.ofDigitChars_ten_toDigits (n := i), hlist, Nat.ofDigitChars_ten_toDigits]

theorem mem_arrayEntries {cs : List (String × FNode)} {key : String} {value : Value} :
    (key, value) ∈ arrayEntries cs ↔ ∃ i ≤ (scanKeys (cs.map Prod.fst)).maxKey,
      toString i = key ∧ ((cs.lookup key).map FNode.val).getD .null = value := by
  simp only [arrayEntries, List.mem_map, List.mem_range, Nat.lt_succ_iff, Prod.mk.injEq,
    lookup_valChildren]
  constructor
  · rintro ⟨i, hi, rfl, rfl⟩
    exact ⟨i, hi, rfl, rfl⟩
  · rintro ⟨i, hi, rfl, rfl⟩
    exact ⟨i, hi, rfl, rfl⟩

/-! ## The round trip -/

theorem Restorable.depth_le {depth : ℕ} {n : FNode} (h : Restorable depth n) :
    depth ≤ kFirebaseMaxObjectDepth := by
  cases h.1 <;> assumption

theorem restorable_leafNode_iff {depth : ℕ} {v : LeafValue} :
    Restorable depth (.leafNode v) ↔ depth ≤ kFirebaseMaxObjectDepth ∧ v.ShortEnough := by
  constructor
  · rintro ⟨⟨depth_le, shortEnough⟩ | _, -⟩
    exact ⟨depth_le, shortEnough⟩
  · rintro ⟨depth_le, shortEnough⟩
    exact ⟨.leafNode depth_le shortEnough, .leafNode v⟩

theorem restorable_childrenNode_iff {depth : ℕ} {cs : List (String × FNode)} :
    Restorable depth (.childrenNode cs) ↔ depth ≤ kFirebaseMaxObjectDepth ∧
      (ListedAsArray (cs.map Prod.fst) → ∀ entry ∈ cs, CanonicalKey entry.1) ∧
      ∀ entry ∈ cs, Restorable (depth + 1) entry.2 := by
  constructor
  · rintro ⟨_ | ⟨depth_le, hfits⟩, _ | ⟨canonical, hcanonical⟩⟩
    exact ⟨depth_le, canonical, fun entry hentry => ⟨hfits entry hentry, hcanonical entry hentry⟩⟩
  · rintro ⟨depth_le, canonical, hchild⟩
    exact ⟨.childrenNode depth_le fun entry hentry => (hchild entry hentry).1,
      .childrenNode canonical fun entry hentry => (hchild entry hentry).2⟩

section Children

variable {cs : List (String × FNode)} {depth : ℕ} (hs : Sorted compareKey cs)
  (hne : ∀ entry ∈ cs, entry.2 ≠ emptyNode)
  (hchild : ∀ entry ∈ cs,
    internalNodeFrom depth entry.2.val = some entry.2 ↔ Restorable depth entry.2)
include hs hne hchild

/-- A dictionary of children comes back when every child does. -/
theorem bind_childrenFrom_valChildren (hkey : ∀ entry ∈ cs, isValidKey entry.1 = true) :
    (childrenFrom depth (valChildren cs)).bind childrenNodeFrom = some (.childrenNode cs) ↔
      ∀ entry ∈ cs, Restorable depth entry.2 := by
  have hnodup := nodup_keys_of_sorted hs
  rw [bind_childrenFrom_eq_some_iff (by rwa [keys_valChildren]) hs]
  constructor
  · rintro ⟨-, hmem⟩ ⟨key, c⟩ hc
    obtain ⟨value, hvalue, hnode, -⟩ := (hmem key c).2 hc
    obtain ⟨c', hc', rfl⟩ := mem_valChildren.1 hvalue
    have hfound := (lookup_eq_some_iff_mem hnodup).2 hc'
    obtain rfl := Option.some.inj (hfound.symm.trans ((lookup_eq_some_iff_mem hnodup).2 hc))
    exact (hchild _ hc).1 hnode
  · intro hrest
    have himport {key : String} {value : Value} (hvalue : (key, value) ∈ valChildren cs) :
        ∃ c, (key, c) ∈ cs ∧ internalNodeFrom depth value = some c := by
      obtain ⟨c, hc, rfl⟩ := mem_valChildren.1 hvalue
      exact ⟨c, hc, (hchild _ hc).2 (hrest _ hc)⟩
    refine ⟨fun entry hentry => ?_, fun key c => ⟨?_, fun hc => ?_⟩⟩
    · obtain ⟨c, hc, hnode⟩ := himport hentry
      exact ⟨hkey _ hc, by rw [hnode, Option.isSome_some]⟩
    · rintro ⟨value, hvalue, hnode, -⟩
      obtain ⟨c', hc', hnode'⟩ := himport hvalue
      obtain rfl := Option.some.inj (hnode.symm.trans hnode')
      exact hc'
    · exact ⟨c.val, mem_valChildren.2 ⟨c, hc, rfl⟩, (hchild _ hc).2 (hrest _ hc), hne _ hc⟩

/-- An array of children comes back when every child does and has the numeral of an index as its
key. -/
theorem bind_childrenFrom_arrayEntries (hcs : cs ≠ []) (hlisted : ListedAsArray (cs.map Prod.fst)) :
    (childrenFrom depth (arrayEntries cs)).bind childrenNodeFrom = some (.childrenNode cs) ↔
      (∀ entry ∈ cs, CanonicalKey entry.1) ∧ ∀ entry ∈ cs, Restorable depth entry.2 := by
  have hnodup := nodup_keys_of_sorted hs
  obtain ⟨hmax, hle⟩ := maxKey_of_listedAsArray hlisted
  rw [bind_childrenFrom_eq_some_iff (nodup_keys_arrayEntries cs) hs]
  constructor
  · rintro ⟨-, hmem⟩
    have hboth : ∀ entry ∈ cs, CanonicalKey entry.1 ∧ Restorable depth entry.2 := by
      rintro ⟨key, c⟩ hc
      obtain ⟨value, hvalue, hnode, -⟩ := (hmem key c).2 hc
      obtain ⟨i, hi, rfl, rfl⟩ := mem_arrayEntries.1 hvalue
      rw [(lookup_eq_some_iff_mem hnodup).2 hc, Option.map_some, Option.getD_some] at hnode
      exact ⟨⟨i, integerKey_toString (by omega), rfl⟩, (hchild _ hc).1 hnode⟩
    exact ⟨fun entry hentry => (hboth entry hentry).1, fun entry hentry => (hboth entry hentry).2⟩
  · rintro ⟨hcanonical, hrest⟩
    have hdepth : depth ≤ kFirebaseMaxObjectDepth := by
      obtain ⟨entry, hentry⟩ := List.exists_mem_of_ne_nil cs hcs
      exact (hrest entry hentry).depth_le
    refine ⟨fun entry hentry => ?_, fun key c => ⟨?_, fun hc => ?_⟩⟩
    · obtain ⟨i, -, hkey', hvalue⟩ := mem_arrayEntries.1 hentry
      rw [← hkey', ← hvalue]
      refine ⟨isValidKey_toString i, ?_⟩
      cases hobj : cs.lookup entry.1 with
      | none =>
        rw [Option.map_none, Option.getD_none, internalNodeFrom, if_neg (by omega)]
        rfl
      | some c =>
        have hc := (lookup_eq_some_iff_mem hnodup).1 hobj
        rw [Option.map_some, Option.getD_some, (hchild _ hc).2 (hrest _ hc)]
        rfl
    · rintro ⟨value, hvalue, hnode, hempty⟩
      obtain ⟨i, -, -, rfl⟩ := mem_arrayEntries.1 hvalue
      cases hobj : cs.lookup key with
      | none =>
        rw [hobj, Option.map_none, Option.getD_none, internalNodeFrom, if_neg (by omega)] at hnode
        exact absurd (Option.some.inj hnode).symm hempty
      | some c' =>
        have hc' := (lookup_eq_some_iff_mem hnodup).1 hobj
        rw [hobj, Option.map_some, Option.getD_some, (hchild _ hc').2 (hrest _ hc')] at hnode
        rwa [← Option.some.inj hnode]
    · obtain ⟨i, hi, rfl⟩ := hcanonical _ hc
      refine ⟨c.val, mem_arrayEntries.2 ⟨i, hle _ (List.mem_map_of_mem hc) i hi, rfl, ?_⟩,
        (hchild _ hc).2 (hrest _ hc), hne _ hc⟩
      rw [(lookup_eq_some_iff_mem hnodup).2 hc, Option.map_some, Option.getD_some]

end Children

/-- Import after export, by induction on the tree. -/
theorem internalNodeFrom_val_iff {n : FNode} (h : WellFormed n) (depth : ℕ) :
    internalNodeFrom depth n.val = some n ↔ Restorable depth n := by
  induction h generalizing depth with
  | leafNode v =>
    rw [restorable_leafNode_iff, FNode.val]
    cases v with
    | number n =>
      rw [LeafValue.val, internalNodeFrom, Option.ite_none_left_eq_some, not_lt]
      simp [LeafValue.ShortEnough]
    | string s =>
      rw [LeafValue.val, internalNodeFrom, Option.ite_none_left_eq_some, not_lt,
        Option.ite_none_right_eq_some]
      simp
  | childrenNode cs sorted key nonempty child ih =>
    have hchild := fun entry hentry => ih entry hentry (depth + 1)
    rw [restorable_childrenNode_iff]
    by_cases hcs : cs = []
    · subst hcs
      rw [show (FNode.childrenNode []).val = .null from rfl, internalNodeFrom,
        Option.ite_none_left_eq_some, not_lt]
      simp [emptyNode]
    · by_cases hlisted : ListedAsArray (cs.map Prod.fst)
      · rw [val_of_listedAsArray hcs hlisted, internalNodeFrom, childrenFromArray_arrayEntries,
          Option.ite_none_left_eq_some, not_lt,
          bind_childrenFrom_arrayEntries sorted nonempty hchild hcs hlisted,
          forall_prop_of_true hlisted]
      · rw [val_childrenNode hcs hlisted, internalNodeFrom, Option.ite_none_left_eq_some, not_lt,
          bind_childrenFrom_valChildren sorted nonempty hchild key, forall_prop_of_false hlisted,
          true_and]

/-- A tree of the client, without priorities, comes back from its exported value exactly when it is
not too deep, its strings are not too long, and the keys of its arrays are numerals of indices. -/
theorem exported_tree_comes_back_iff {n : FNode} (h : WellFormed n) :
    internalNodeFrom 0 n.val = some n ↔ Fits 0 n ∧ Canonical n :=
  internalNodeFrom_val_iff h 0

/-- A value without payload keys that `setValue` accepts makes a tree of the client within the
bounds, which comes back from its exported value exactly when the keys of its arrays are numerals of
indices. -/
theorem imported_tree_comes_back_iff {value : Value} {n : FNode}
    (h : internalNodeFrom 0 value = some n) :
    WellFormed n ∧ Fits 0 n ∧ (internalNodeFrom 0 n.val = some n ↔ Canonical n) := by
  obtain ⟨hwf, hfits⟩ := imported_internalNodeFrom 0 value h
  exact ⟨hwf, hfits, (internalNodeFrom_val_iff hwf 0).trans (and_iff_right hfits)⟩

/-- A tree whose key, an ASCII digit before an Arabic one, is read as the index one. -/
def mixedDigits : FNode := .childrenNode [("1٣", .leafNode (.string "basil"))]

theorem wellFormed_mixedDigits : WellFormed mixedDigits :=
  .childrenNode _ (List.pairwise_singleton _ _) (by decide) (by simp [emptyNode])
    (by simpa using .leafNode _)

theorem exported_tree_comes_back_iff_mixedDigits :
    internalNodeFrom 0 mixedDigits.val = some mixedDigits ↔ Fits 0 mixedDigits ∧
      Canonical mixedDigits :=
  exported_tree_comes_back_iff wellFormed_mixedDigits

theorem imported_tree_comes_back_iff_mixedDigits :
    WellFormed mixedDigits ∧ Fits 0 mixedDigits ∧
      (internalNodeFrom 0 mixedDigits.val = some mixedDigits ↔ Canonical mixedDigits) := by
  have himport : internalNodeFrom 0 (.dictionary [("1٣", .string "basil")]) = some mixedDigits :=
    (childrenNodeFrom_eq_some_iff (List.pairwise_singleton _ _)).2 (List.Perm.refl _)
  exact imported_tree_comes_back_iff himport

/-- The leaf is lost: it is at neither of the two places of the array. -/
example : internalNodeFrom 0 mixedDigits.val = some emptyNode := by rfl

end IndoorFarm
