import IndoorFarm.Firebase.Node
import IndoorFarm.Firebase.SortedDictionary
import Mathlib.Data.List.Perm.Basic
import Mathlib.Algebra.Ring.Rat
import Mathlib.Order.Lattice
import Mathlib.Tactic.SplitIfs

/-!
# Values of a snapshot

`snapshot.value` is the value exported from a node (`val`): null for the empty node, the leaf's own
value, and for a node with children a dictionary, unless every key is an integer and the largest is
below twice the number of keys, when it is an array (`val_childrenNode`, `ListedAsArray`).

The app reads the value through the conditional casts `as? NSDictionary`, `as? Int`, `as? Double`
and `as? String`, and through key paths (`valueForKeyPath`).  `nodeFrom` goes the other way, with
the checks of `setValue`: the depth of the value, the size of its strings, its keys and, through
`fromDictionary`, that the order of the keys tells them apart.
-/

namespace IndoorFarm

open SortedEntries (Sorted)

/-- The objects a snapshot's value is made of. -/
inductive Value where
  | null
  | number (n : NSNumber)
  | string (s : String)
  | array (elements : List Value)
  | dictionary (entries : List (String × Value))

abbrev NSDictionary := List (String × Value)

/-! ## Integer keys -/

/-- The zeros of the blocks of ten that make up `decimalDigitCharacterSet` (the general category
`Nd`). -/
def decimalZeros : List ℕ :=
  [0x30, 0x660, 0x6F0, 0x7C0, 0x966, 0x9E6, 0xA66, 0xAE6, 0xB66, 0xBE6, 0xC66, 0xCE6, 0xD66, 0xDE6,
    0xE50, 0xED0, 0xF20, 0x1040, 0x1090, 0x17E0, 0x1810, 0x1946, 0x19D0, 0x1A80, 0x1A90, 0x1B50,
    0x1BB0, 0x1C40, 0x1C50, 0xA620, 0xA8D0, 0xA900, 0xA9D0, 0xA9F0, 0xAA50, 0xABF0, 0xFF10, 0x104A0,
    0x11066, 0x110F0, 0x11136, 0x111D0, 0x112F0, 0x11450, 0x114D0, 0x11650, 0x116C0, 0x11730,
    0x118E0, 0x11C50, 0x11D50, 0x16A60, 0x16B50, 0x1D7CE, 0x1D7D8, 0x1D7E2, 0x1D7EC, 0x1D7F6,
    0x1E950]

def isDecimalDigit (c : Char) : Bool := decimalZeros.any fun z => z ≤ c.toNat && c.toNat < z + 10

/-- `scanInteger:` of a text of decimal digits: it reads the ASCII digits at the front, fails when
there are none, and stops at the largest `NSInteger`. -/
def scanInteger (text : List Char) : Option ℕ :=
  match text.takeWhile Char.isDigit with
  | [] => none
  | digits => some (min (digits.foldl (fun n c => 10 * n + (c.toNat - 48)) 0) (2 ^ 63 - 1))

/-- `[FUtilities intForString:]`. -/
def intForString (string : String) : Option ℕ :=
  if string.toList.all isDecimalDigit then scanInteger string.toList else none

/-- The integer a key is read as by `valForExport:`; a leading zero makes the key a string. -/
def integerKey (key : String) : Option ℕ :=
  if key.toList.head? = some '0' ∧ 1 < key.toList.length then none else intForString key

/-- What `valForExport:` keeps count of while it enumerates the children. -/
structure KeyScan where
  numKeys : ℕ := 0
  maxKey : ℕ := 0
  allIntegerKeys : Bool := true

/-- The part of the enumeration block that looks at the key. -/
def KeyScan.visit (scan : KeyScan) (key : String) : KeyScan :=
  let counted := { scan with numKeys := scan.numKeys + 1 }
  if ¬ scan.allIntegerKeys then counted
  else match integerKey key with
    | some keyAsInt => { counted with maxKey := max scan.maxKey keyAsInt }
    | none => { counted with allIntegerKeys := false }

def scanKeys (keys : List String) : KeyScan := keys.foldl KeyScan.visit {}

/-- The keys of a node that is exported as an array. -/
def ListedAsArray (keys : List String) : Prop :=
  ∀ key ∈ keys, ∃ i, integerKey key = some i ∧ i < 2 * keys.length

theorem numKeys_foldl_visit (keys : List String) (scan : KeyScan) :
    (keys.foldl KeyScan.visit scan).numKeys = scan.numKeys + keys.length := by
  induction keys generalizing scan with
  | nil => rfl
  | cons key keys ih =>
    rw [List.foldl_cons, ih, List.length_cons, KeyScan.visit]
    cases integerKey key <;> dsimp only <;> split_ifs <;> dsimp only <;> omega

/-- All keys were integers, and the largest, counted with the initial one, is below `bound`. -/
theorem foldl_visit_lt_iff (keys : List String) (scan : KeyScan) (bound : ℕ) :
    (keys.foldl KeyScan.visit scan).allIntegerKeys = true ∧
        (keys.foldl KeyScan.visit scan).maxKey < bound ↔
      (scan.allIntegerKeys = true ∧ scan.maxKey < bound) ∧
        ∀ key ∈ keys, ∃ i, integerKey key = some i ∧ i < bound := by
  induction keys generalizing scan with
  | nil => simp
  | cons key keys ih =>
    rw [List.foldl_cons, List.forall_mem_cons, ih, KeyScan.visit]
    by_cases hs : scan.allIntegerKeys = true
    · cases hk : integerKey key with
      | none => simp [hs]
      | some i => simp only [hs, not_true_eq_false, if_false, true_and, max_lt_iff, and_assoc,
          Option.some.injEq, exists_eq_left']
    · simp [hs]

theorem scanKeys_iff_listedAsArray {keys : List String} (h : keys ≠ []) :
    (scanKeys keys).allIntegerKeys = true ∧ (scanKeys keys).maxKey < 2 * (scanKeys keys).numKeys ↔
      ListedAsArray keys := by
  have hpos : 0 < keys.length := List.length_pos_iff.2 h
  have hinit : ({} : KeyScan).maxKey < 2 * keys.length := Nat.mul_pos Nat.two_pos hpos
  rw [scanKeys, numKeys_foldl_visit, Nat.zero_add, foldl_visit_lt_iff]
  exact and_iff_right ⟨rfl, hinit⟩

instance (keys : List String) : Decidable (ListedAsArray keys) :=
  decidable_of_iff (∀ key ∈ keys, (integerKey key).any (· < 2 * keys.length))
    (by simp only [ListedAsArray, Option.any_eq_true, decide_eq_true_eq])

/-! ## Export -/

def LeafValue.val : LeafValue → Value
  | .number n => .number n
  | .string s => .string s

/-- The end of `valForExport:`, from the exported children to null, an array or the dictionary. -/
def exportChildren (obj : NSDictionary) : Value :=
  if obj.isEmpty then .null
  else
    let scan := scanKeys (obj.map Prod.fst)
    if scan.allIntegerKeys ∧ scan.maxKey < 2 * scan.numKeys then
      .array ((List.range (scan.maxKey + 1)).map fun i => (obj.lookup (toString i)).getD .null)
    else .dictionary obj

mutual

/-- `[node val]`. -/
def FNode.val : FNode → Value
  | .leafNode value => value.val
  | .childrenNode children => exportChildren (valChildren children)

def valChildren : List (String × FNode) → NSDictionary
  | [] => []
  | (key, childNode) :: children => (key, childNode.val) :: valChildren children

end

theorem keys_valChildren (cs : List (String × FNode)) :
    (valChildren cs).map Prod.fst = cs.map Prod.fst := by
  induction cs with
  | nil => rfl
  | cons entry cs ih => rw [valChildren, List.map_cons, List.map_cons, ih]

theorem lookup_valChildren (cs : List (String × FNode)) (key : String) :
    (valChildren cs).lookup key = (cs.lookup key).map FNode.val := by
  induction cs with
  | nil => rfl
  | cons entry cs ih =>
    rw [valChildren, List.lookup_cons, List.lookup_cons, ih]
    cases key == entry.1 <;> rfl

theorem val_emptyNode : FNode.emptyNode.val = .null := rfl

/-- A node with children is exported as a dictionary unless its keys list an array. -/
theorem val_childrenNode {cs : List (String × FNode)} (hne : cs ≠ [])
    (hkeys : ¬ ListedAsArray (cs.map Prod.fst)) :
    (FNode.childrenNode cs).val = .dictionary (valChildren cs) := by
  have hkne : cs.map Prod.fst ≠ [] := by simpa using hne
  have hobj : valChildren cs ≠ [] := fun e => by simp [← keys_valChildren, e] at hkne
  rw [FNode.val, exportChildren, if_neg (by simpa using hobj), keys_valChildren]
  exact if_neg fun h => hkeys ((scanKeys_iff_listedAsArray hkne).1 h)

/-! ## Casts -/

/-- `value as? NSDictionary`. -/
def Value.asNSDictionary : Value → Option NSDictionary
  | .dictionary entries => some entries
  | _ => none

/-- `value as? Int`: an integral number in the range of `Int`. -/
def Value.asInt : Value → Option ℤ
  | .number (.int n) => some n
  | .number (.double q) => if q.den = 1 ∧ -2 ^ 63 ≤ q.num ∧ q.num < 2 ^ 63 then some q.num else none
  | .number (.bool b) => some (if b then 1 else 0)
  | _ => none

/-- A 64-bit integer that a double, with its 53 significant bits, represents exactly. -/
def representsExactly (n : ℤ) : Bool :=
  (List.range 11).any fun e => n.natAbs % 2 ^ e = 0 && n.natAbs / 2 ^ e ≤ 2 ^ 53

/-- `value as? Double`. -/
def Value.asDouble : Value → Option ℚ
  | .number (.int n) => if representsExactly n then some n else none
  | .number (.double q) => some q
  | .number (.bool b) => some (if b then 1 else 0)
  | _ => none

/-- `value as? String`. -/
def Value.asString : Value → Option String
  | .string s => some s
  | _ => none

/-- The value read at a node is a dictionary exactly when it has children that do not list an
array, and it is then the dictionary of the exported children. -/
theorem asNSDictionary_val_childrenNode (cs : List (String × FNode)) :
    (FNode.childrenNode cs).val.asNSDictionary =
      if cs = [] ∨ ListedAsArray (cs.map Prod.fst) then none else some (valChildren cs) := by
  split_ifs with h
  · by_cases hne : cs = []
    · subst hne; rfl
    · have hkne : cs.map Prod.fst ≠ [] := by simpa using hne
      have hobj : valChildren cs ≠ [] := fun e => by simp [← keys_valChildren, e] at hkne
      have hscan := (scanKeys_iff_listedAsArray hkne).2 (h.resolve_left hne)
      rw [FNode.val, exportChildren, if_neg (by simpa using hobj), keys_valChildren]
      simp only [hscan, and_self, if_true, Value.asNSDictionary]
  · rw [not_or] at h
    rw [val_childrenNode h.1 h.2, Value.asNSDictionary]

/-- A node with a child whose name is no integer is read as a dictionary, in which every child is
found under its name. -/
theorem asNSDictionary_of_child {n : FNode} {key : String} (hkey : integerKey key = none)
    (hchild : n.namedChild key ≠ FNode.emptyNode) :
    ∃ entries, n.val.asNSDictionary = some entries ∧
      ∀ k, n.namedChild k ≠ FNode.emptyNode → entries.lookup k = some (n.namedChild k).val := by
  cases n with
  | leafNode v => exact absurd rfl hchild
  | childrenNode cs =>
    have hmem : key ∈ cs.map Prod.fst := FNode.mem_keys_of_namedChild hchild
    refine ⟨valChildren cs, ?_, fun k hk => ?_⟩
    · rw [asNSDictionary_val_childrenNode, if_neg (not_or.2 ⟨?_, fun hlisted => ?_⟩)]
      · rintro rfl
        exact absurd hmem List.not_mem_nil
      · obtain ⟨i, hi, -⟩ := hlisted key hmem
        rw [hkey] at hi
        contradiction
    · rw [FNode.namedChild] at hk ⊢
      rw [lookup_valChildren]
      cases hfound : cs.lookup k with
      | none => simp [hfound] at hk
      | some c => rfl

/-- `[dictionary allKeys]`, which lists the keys in an order of its own: `order` is taken when it is
an order of the keys. -/
def NSDictionary.allKeys (dictionary : NSDictionary) (order : List String) : List String :=
  if order.Perm (dictionary.map Prod.fst) then order else dictionary.map Prod.fst

theorem NSDictionary.allKeys_perm (dictionary : NSDictionary) (order : List String) :
    (NSDictionary.allKeys dictionary order).Perm (dictionary.map Prod.fst) := by
  rw [NSDictionary.allKeys]
  split_ifs with h
  · exact h
  · exact List.Perm.refl _

/-- `[value valueForKey:key]`, `none` when it answers nil or raises.  A dictionary sends a key that
begins with `@` to `NSObject`, whose accessors hold no plant; numbers and strings have no such keys,
and an array answers with an array, which the casts of the app refuse. -/
def Value.valueForKey : Value → String → Option Value
  | .dictionary entries, key => if key.toList.head? = some '@' then none else entries.lookup key
  | _, _ => none

/-- `[value valueForKeyPath:keyPath]`: the keys between the dots, one after the other. -/
def Value.valueForKeyPath (value : Value) (keyPath : String) : Option Value :=
  (componentsSeparatedByString keyPath '.').foldlM Value.valueForKey value

theorem valueForKeyPath_append {d : NSDictionary} {key field : String}
    (hkey : '.' ∉ key.toList) (hat : key.toList.head? ≠ some '@') (hfield : '.' ∉ field.toList) :
    (Value.dictionary d).valueForKeyPath (key ++ "." ++ field) =
      (d.lookup key).bind fun v => v.valueForKey field := by
  have hsplit : (key ++ "." ++ field).toList.splitOn '.' = [key.toList, field.toList] := by
    rw [String.toList_append, String.toList_append, List.append_assoc]
    show (key.toList ++ '.' :: field.toList).splitOn '.' = _
    rw [List.splitOn_append_cons_self_of_not_mem hkey, List.splitOn_eq_singleton hfield]
  rw [Value.valueForKeyPath, componentsSeparatedByString, hsplit, List.map_cons, List.map_singleton,
    String.ofList_toList, String.ofList_toList, List.foldlM_cons, Value.valueForKey, if_neg hat]
  simp only [List.foldlM_cons, List.foldlM_nil, Option.bind_eq_bind, Option.pure_def]
  exact Option.bind_congr fun v _ => Option.bind_fun_some (v.valueForKey field)

/-! ## Import -/

def kFirebaseMaxObjectDepth : ℕ := 1000

def kFirebaseMaxLeafSize : ℕ := 1024 * 1024 * 10

/-- `isValidLeafValue:` does not raise. -/
def LeafValue.ShortEnough : LeafValue → Prop
  | .number _ => True
  | .string s => s.utf8ByteSize ≤ kFirebaseMaxLeafSize

instance : DecidablePred LeafValue.ShortEnough := fun v => by
  cases v <;> unfold LeafValue.ShortEnough <;> infer_instance

/-- The node with the children that are kept; `fromDictionary` raises when the order of the keys
does not tell two of them apart. -/
def childrenNodeFrom (children : List (String × FNode)) : Option FNode :=
  if children.isEmpty then some FNode.emptyNode
  else (FImmutableSortedDictionary.fromDictionary compareKey children).map fun childrenDict =>
    .childrenNode childrenDict.toList

/-- The dictionary of the kept children is the sorted list of the same entries. -/
theorem childrenNodeFrom_eq_some_iff {children cs : List (String × FNode)}
    (hs : Sorted compareKey cs) :
    childrenNodeFrom children = some (.childrenNode cs) ↔ children.Perm cs := by
  cases children with
  | nil => simp [childrenNodeFrom, FNode.emptyNode, List.nil_perm, eq_comm]
  | cons child children =>
    rw [childrenNodeFrom, if_neg (by simp), Option.map_eq_some_iff]
    constructor
    · rintro ⟨d, hd, heq⟩
      rw [FNode.childrenNode.injEq] at heq
      cases hsorted : sortedKeyList compareKey (child :: children) with
      | none =>
        rw [FImmutableSortedDictionary.fromDictionary_eq_none hsorted] at hd
        contradiction
      | some entries =>
        obtain ⟨d', hd', -, htoList⟩ := FImmutableSortedDictionary.exists_fromDictionary hsorted
        obtain rfl := Option.some.inj (hd'.symm.trans hd)
        rw [← heq, htoList]
        exact (sortedKeyList_eq_some_iff.1 hsorted).1
    · intro hperm
      obtain ⟨d, hd, -, htoList⟩ := FImmutableSortedDictionary.exists_fromDictionary
        (sortedKeyList_eq_some_iff.2 ⟨hperm, hs⟩)
      exact ⟨d, hd, by rw [htoList]⟩

mutual

/-- `internalNodeFrom:priority:withValidationFrom:atDepth:path:` on a value without the payload keys
`.value`, `.priority` and `.sv`, `none` when it raises.  Null makes the empty node, and children
that are empty are dropped. -/
def internalNodeFrom (depth : ℕ) : Value → Option FNode
  | .null => if kFirebaseMaxObjectDepth < depth then none else some FNode.emptyNode
  | .number n =>
    if kFirebaseMaxObjectDepth < depth then none else some (.leafNode (.number n))
  | .string s =>
    if kFirebaseMaxObjectDepth < depth then none
    else if (LeafValue.string s).ShortEnough then some (.leafNode (.string s)) else none
  | .array elements =>
    if kFirebaseMaxObjectDepth < depth then none
    else (childrenFromArray (depth + 1) 0 elements).bind childrenNodeFrom
  | .dictionary entries =>
    if kFirebaseMaxObjectDepth < depth then none
    else (childrenFrom (depth + 1) entries).bind childrenNodeFrom

def childrenFrom (depth : ℕ) : NSDictionary → Option (List (String × FNode))
  | [] => some []
  | (key, value) :: entries =>
    if isValidKey key then
      (internalNodeFrom depth value).bind fun childNode =>
        (childrenFrom depth entries).map fun rest =>
          if childNode.isEmpty then rest else (key, childNode) :: rest
    else none

def childrenFromArray (depth i : ℕ) : List Value → Option (List (String × FNode))
  | [] => some []
  | value :: elements =>
    (internalNodeFrom depth value).bind fun childNode =>
      (childrenFromArray depth (i + 1) elements).map fun rest =>
        if childNode.isEmpty then rest else (toString i, childNode) :: rest

end

/-- `[FSnapshotUtilities nodeFrom:]`. -/
def nodeFrom (value : Value) : Option FNode := internalNodeFrom 0 value

end IndoorFarm
