import IndoorFarm.Lib.PathLens
import IndoorFarm.Firebase.KeyOrder
import IndoorFarm.Firebase.SortedDictionary
import Mathlib.Data.Rat.Defs

/-!
# Database trees (`FLeafNode`, `FChildrenNode`, `FEmptyNode`)

A node is a leaf with a value or a dictionary of named children; the empty node is the one without
children.  `updateChild` replaces the node at a path and prunes what becomes empty.  Node priorities
are left out: nothing in the app sets one, and a name with a dot (`.priority`) never gets past
`child(_:)`.

The dictionary is sorted and searched by `compareKey`, which takes a zero with and without a minus
sign for one key.  `getImmediateChild` is such a search, `namedChild` is the child stored under the
very text of a name.  The two agree, and an update is one of the named children, where no other
stored name is taken for the key (`Separates`).

Nodes have the lens of `PathLens` at every path: `getChild` and `updateChild` are its `get` and
`put` (`getChild_eq_get`, `updateChild_eq_put`), so its laws are the laws of reading and writing the
tree.
-/

namespace IndoorFarm

open SortedEntries
open Std (TransCmp)

/-- The numbers a leaf can hold.  A finite double is a rational. -/
inductive NSNumber where
  | int (n : ℤ)
  | double (q : ℚ)
  | bool (b : Bool)
  deriving DecidableEq

/-- The value of a leaf. -/
inductive LeafValue where
  | number (n : NSNumber)
  | string (s : String)
  deriving DecidableEq

inductive FNode where
  | leafNode (value : LeafValue)
  | childrenNode (children : List (String × FNode))

namespace FNode

/-- `[FEmptyNode emptyNode]`. -/
def emptyNode : FNode := childrenNode []

instance : EmptyCollection FNode := ⟨emptyNode⟩

def isEmpty : FNode → Bool
  | leafNode _ => false
  | childrenNode children => children.isEmpty

theorem isEmpty_iff (n : FNode) : n.isEmpty = true ↔ n = emptyNode := by
  cases n with
  | leafNode v => simp [isEmpty, emptyNode]
  | childrenNode cs => simp [isEmpty, emptyNode]

@[simp] theorem isEmpty_emptyNode : emptyNode.isEmpty = true := rfl

/-! ## The dictionary of children -/

/-- `objectForKey:` of the children. -/
def objectForKey (cs : List (String × FNode)) (key : String) : Option FNode :=
  lookup compareKey key cs

/-- `setObject:forKey:` of the children.  For a key that is there, an array takes the new text of
the key and a tree keeps its own; a tree is taken to have more entries than an array can hold, since
a list does not tell a tree that has lost entries. -/
def setObject (cs : List (String × FNode)) (key : String) (c : FNode) : List (String × FNode) :=
  insert compareKey (arrayToTreeThreshold < cs.length) key c cs

/-- `removeObjectForKey:` of the children. -/
def removeObjectForKey (cs : List (String × FNode)) (key : String) : List (String × FNode) :=
  cs.filter fun entry => compareKey key entry.1 ≠ .eq

theorem objectForKey_setObject (cs : List (String × FNode)) (key k : String) (c : FNode) :
    objectForKey (setObject cs key c) k =
      if compareKey key k = .eq then some c else objectForKey cs k := by
  rw [objectForKey, setObject, lookup_insert]
  exact ite_congr (propext Std.OrientedCmp.eq_comm) (fun _ => rfl) fun _ => rfl

theorem objectForKey_removeObjectForKey (cs : List (String × FNode)) (key k : String) :
    objectForKey (removeObjectForKey cs key) k =
      if compareKey key k = .eq then none else objectForKey cs k := by
  induction cs with
  | nil => simp [removeObjectForKey, objectForKey]
  | cons entry cs ih =>
    rw [removeObjectForKey, objectForKey] at ih ⊢
    by_cases h : compareKey key entry.1 = .eq
    · rw [List.filter_cons_of_neg (by simp [h]), ih]
      split_ifs with hk
      · rfl
      · have hne : compareKey k entry.1 ≠ .eq := fun e =>
          hk (TransCmp.eq_trans h (Std.OrientedCmp.eq_symm e))
        rw [objectForKey, objectForKey, lookup, if_neg hne]
    · rw [List.filter_cons_of_pos (by simp [h]), objectForKey, lookup, lookup, ih]
      split_ifs with hk hk'
      · exact absurd (TransCmp.eq_trans hk' hk) h
      all_goals rfl

theorem objectForKey_congr (cs : List (String × FNode)) {k k' : String}
    (h : compareKey k k' = .eq) : objectForKey cs k = objectForKey cs k' := lookup_congr h

theorem mem_of_objectForKey {cs : List (String × FNode)} {key : String} {c : FNode}
    (h : objectForKey cs key = some c) : ∃ k, compareKey key k = .eq ∧ (k, c) ∈ cs := by
  induction cs with
  | nil => simp [objectForKey] at h
  | cons entry cs ih =>
    rw [objectForKey, lookup] at h
    split_ifs at h with hk
    · obtain rfl := Option.some.inj h
      exact ⟨entry.1, hk, List.mem_cons_self⟩
    · obtain ⟨k, hkey, hmem⟩ := ih h
      exact ⟨k, hkey, List.mem_cons_of_mem entry hmem⟩

theorem objectForKey_eq_none_iff (cs : List (String × FNode)) (key : String) :
    objectForKey cs key = none ↔ ∀ entry ∈ cs, compareKey key entry.1 ≠ .eq := lookup_eq_none_iff

/-! ## Reading and updating -/

def getImmediateChild : FNode → String → FNode
  | leafNode _, _ => emptyNode
  | childrenNode cs, childName => (objectForKey cs childName).getD emptyNode

def getChild : FNode → FPath → FNode
  | n, [] => n
  | leafNode _, _ :: _ => emptyNode
  | n@(childrenNode _), front :: path => (n.getImmediateChild front).getChild path

/-- A leaf ignores an empty child and becomes a dictionary for any other; a dictionary that loses
its last child becomes the empty node. -/
def updateImmediateChild : FNode → String → FNode → FNode
  | leafNode v, childName, newChild =>
    if newChild.isEmpty then leafNode v else childrenNode [(childName, newChild)]
  | childrenNode cs, childName, newChild =>
    let newChildren :=
      if newChild.isEmpty then removeObjectForKey cs childName else setObject cs childName newChild
    if newChildren.isEmpty then emptyNode else childrenNode newChildren

def updateChild : FNode → FPath → FNode → FNode
  | _, [], newChild => newChild
  | n@(leafNode _), front :: path, newChild =>
    if newChild.isEmpty then n
    else n.updateImmediateChild front (emptyNode.updateChild path newChild)
  | n@(childrenNode _), front :: path, newChild =>
    n.updateImmediateChild front ((n.getImmediateChild front).updateChild path newChild)

@[simp] theorem getImmediateChild_emptyNode (k : String) :
    emptyNode.getImmediateChild k = emptyNode := rfl

theorem updateImmediateChild_childrenNode (cs : List (String × FNode)) (k : String) (c : FNode) :
    (childrenNode cs).updateImmediateChild k c =
      childrenNode (if c.isEmpty then removeObjectForKey cs k else setObject cs k c) := by
  rw [updateImmediateChild]
  generalize (if c.isEmpty then removeObjectForKey cs k else setObject cs k c) = l
  cases l with
  | nil => rfl
  | cons _ _ => rfl

theorem getImmediateChild_congr (n : FNode) {k k' : String} (h : compareKey k k' = .eq) :
    n.getImmediateChild k = n.getImmediateChild k' := by
  cases n with
  | leafNode v => rfl
  | childrenNode cs => rw [getImmediateChild, getImmediateChild, objectForKey_congr cs h]

theorem getImmediateChild_updateImmediateChild (n : FNode) (k k' : String) (c : FNode) :
    (n.updateImmediateChild k c).getImmediateChild k' =
      if compareKey k k' = .eq then c else n.getImmediateChild k' := by
  by_cases hc : c.isEmpty
  · obtain rfl := (isEmpty_iff c).1 hc
    cases n with
    | leafNode v => simp [updateImmediateChild, getImmediateChild]
    | childrenNode cs =>
      rw [updateImmediateChild_childrenNode, if_pos hc, getImmediateChild,
        objectForKey_removeObjectForKey]
      split_ifs <;> rfl
  · cases n with
    | leafNode v =>
      have hset := objectForKey_setObject [] k k' c
      rw [updateImmediateChild, if_neg hc]
      show (objectForKey (setObject [] k c) k').getD emptyNode = _
      rw [hset]
      split_ifs <;> rfl
    | childrenNode cs =>
      rw [updateImmediateChild_childrenNode, if_neg hc, getImmediateChild, objectForKey_setObject]
      split_ifs <;> rfl

instance : PathLens.ChildLens FNode String where
  same k k' := compareKey k k' = .eq
  child := getImmediateChild
  setChild := updateImmediateChild
  same_refl _ := Std.ReflCmp.compare_self
  child_empty := getImmediateChild_emptyNode
  child_congr := getImmediateChild_congr
  child_setChild_of_same n k k' c h := by rw [getImmediateChild_updateImmediateChild, if_pos h]
  child_setChild_of_not_same n k k' c h := by rw [getImmediateChild_updateImmediateChild, if_neg h]

theorem getChild_eq_get (n : FNode) (path : FPath) : n.getChild path = PathLens.get n path := by
  induction path generalizing n with
  | nil => cases n <;> rfl
  | cons k path ih =>
    cases n with
    | leafNode v => exact (PathLens.get_empty (N := FNode) path).symm
    | childrenNode cs => exact ih _

theorem updateChild_emptyNode_emptyNode (path : FPath) :
    emptyNode.updateChild path emptyNode = emptyNode := by
  induction path with
  | nil => rfl
  | cons k path ih =>
    show emptyNode.updateImmediateChild k (emptyNode.updateChild path emptyNode) = emptyNode
    rw [ih]
    rfl

/-- The shortcut of a leaf for an empty new node agrees with the general update. -/
theorem updateChild_eq_put (n : FNode) (path : FPath) (c : FNode) :
    n.updateChild path c = PathLens.put n path c := by
  induction path generalizing n with
  | nil => cases n <;> rfl
  | cons k path ih =>
    cases n with
    | childrenNode cs => exact congrArg ((childrenNode cs).updateImmediateChild k) (ih _)
    | leafNode v =>
      rw [updateChild]
      split_ifs with hc
      · obtain rfl := (isEmpty_iff c).1 hc
        show leafNode v =
          (leafNode v).updateImmediateChild k (PathLens.put emptyNode path emptyNode)
        rw [← ih, updateChild_emptyNode_emptyNode]
        rfl
      · exact congrArg ((leafNode v).updateImmediateChild k) (ih _)

/-! ## The laws of paths -/

theorem getChild_nil (n : FNode) : n.getChild [] = n := by
  cases n <;> rfl

theorem getChild_cons (n : FNode) (k : String) (path : FPath) :
    n.getChild (k :: path) = (n.getImmediateChild k).getChild path := by
  simp only [getChild_eq_get]
  rfl

theorem getChild_updateChild_above (n c : FNode) (p q : FPath) :
    (n.updateChild (p ++ q) c).getChild p = (n.getChild p).updateChild q c := by
  simp only [getChild_eq_get, updateChild_eq_put, PathLens.get_put_above]

theorem getChild_updateChild_self (n c : FNode) (p : FPath) :
    (n.updateChild p c).getChild p = c := by
  simp only [getChild_eq_get, updateChild_eq_put, PathLens.get_put_self]

/-- A write beside a path whose keys are told apart from all others does not change what is
there. -/
theorem getChild_updateChild_of_incomparable (n c : FNode) {p q : FPath}
    (hq : ∀ k ∈ q, Distinctive k) (hpq : ¬ p <+: q) (hqp : ¬ q <+: p) :
    (n.updateChild p c).getChild q = n.getChild q := by
  rw [getChild_eq_get, getChild_eq_get, updateChild_eq_put]
  refine PathLens.get_put_of_apart n c (PathLens.apart_of_incomparable ?_ hpq hqp)
  exact fun k hk k' h => ((hq k hk).compareKey_iff k').1 h

theorem updateChild_singleton (n c : FNode) (k : String) :
    n.updateChild [k] c = n.updateImmediateChild k c := by
  rw [updateChild_eq_put]
  rfl

theorem updateChild_cons (n c : FNode) (k : String) (path : FPath) :
    n.updateChild (k :: path) c =
      n.updateImmediateChild k ((n.getImmediateChild k).updateChild path c) := by
  rw [updateChild_eq_put, PathLens.put_cons, updateChild_eq_put]
  rfl

theorem getImmediateChild_updateChild_cons (n c : FNode) (k k' : String) (path : FPath) :
    (n.updateChild (k :: path) c).getImmediateChild k' =
      if compareKey k k' = .eq then (n.getImmediateChild k).updateChild path c
      else n.getImmediateChild k' := by
  rw [updateChild_cons, getImmediateChild_updateImmediateChild]

/-! ## Well-formed trees -/

/-- A tree as the client keeps it: the children of a node are in the order of their keys, the keys
are valid, and no child is empty. -/
inductive WellFormed : FNode → Prop
  | leafNode (v : LeafValue) : WellFormed (leafNode v)
  | childrenNode (cs : List (String × FNode)) (sorted : Sorted compareKey cs)
      (key : ∀ entry ∈ cs, isValidKey entry.1 = true) (nonempty : ∀ entry ∈ cs, entry.2 ≠ emptyNode)
      (child : ∀ entry ∈ cs, WellFormed entry.2) : WellFormed (childrenNode cs)

theorem wellFormed_emptyNode : emptyNode.WellFormed :=
  .childrenNode [] List.Pairwise.nil (by simp) (by simp) (by simp)

theorem nodup_keys_of_sorted {cs : List (String × FNode)} (h : Sorted compareKey cs) :
    (cs.map Prod.fst).Nodup := by
  rw [List.nodup_iff_pairwise_ne, List.pairwise_map]
  refine h.imp fun hlt heq => ?_
  rw [heq, (Std.ReflCmp.compare_self : compareKey _ _ = .eq)] at hlt
  contradiction

theorem WellFormed.getImmediateChild {n : FNode} (h : n.WellFormed) (k : String) :
    (n.getImmediateChild k).WellFormed := by
  cases h with
  | leafNode v => exact wellFormed_emptyNode
  | childrenNode cs sorted key nonempty child =>
    rw [FNode.getImmediateChild]
    cases hk : objectForKey cs k with
    | none => exact wellFormed_emptyNode
    | some c =>
      obtain ⟨k', -, hmem⟩ := mem_of_objectForKey hk
      exact child (k', c) hmem

theorem WellFormed.getChild {n : FNode} (h : n.WellFormed) (path : FPath) :
    (n.getChild path).WellFormed := by
  induction path generalizing n with
  | nil => cases n <;> exact h
  | cons k path ih =>
    rw [getChild_cons]
    exact ih (h.getImmediateChild k)

theorem WellFormed.updateImmediateChild {n c : FNode} {k : String} (h : n.WellFormed)
    (hc : c.WellFormed) (hk : isValidKey k = true) : (n.updateImmediateChild k c).WellFormed := by
  by_cases he : c.isEmpty
  · cases h with
    | leafNode v =>
      rw [FNode.updateImmediateChild, if_pos he]
      exact .leafNode v
    | childrenNode cs sorted key nonempty child =>
      rw [updateImmediateChild_childrenNode, if_pos he]
      have hsub : (removeObjectForKey cs k).Sublist cs := List.filter_sublist
      exact .childrenNode _ (sorted.sublist hsub) (fun e h => key e (hsub.subset h))
        (fun e h => nonempty e (hsub.subset h)) fun e h => child e (hsub.subset h)
  · have hne : c ≠ emptyNode := fun e => he ((isEmpty_iff c).2 e)
    cases h with
    | leafNode v =>
      rw [FNode.updateImmediateChild, if_neg he]
      refine .childrenNode _ (List.pairwise_singleton _ _) ?_ ?_ ?_ <;> rintro entry hentry <;>
        obtain rfl := List.mem_singleton.1 hentry
      exacts [hk, hne, hc]
    | childrenNode cs sorted key nonempty child =>
      rw [updateImmediateChild_childrenNode, if_neg he]
      refine .childrenNode _ (sorted_insert sorted) ?_ ?_ ?_ <;> rintro entry hentry <;>
        obtain hmem | rfl | ⟨a, ha, -, rfl⟩ := mem_insert hentry
      exacts [key entry hmem, hk, by split_ifs <;> [exact key a ha; exact hk],
        nonempty entry hmem, hne, hne, child entry hmem, hc, hc]

theorem WellFormed.updateChild {n c : FNode} {path : FPath} (h : n.WellFormed) (hc : c.WellFormed)
    (hpath : ∀ k ∈ path, isValidKey k = true) : (n.updateChild path c).WellFormed := by
  rw [updateChild_eq_put]
  induction path generalizing n with
  | nil => exact hc
  | cons k path ih =>
    exact h.updateImmediateChild
      (ih (h.getImmediateChild k) fun k' hk' => hpath k' (List.mem_cons_of_mem k hk'))
      (hpath k List.mem_cons_self)

/-! ## Children by name -/

/-- The names under which children are stored. -/
def keys : FNode → List String
  | leafNode _ => []
  | childrenNode cs => cs.map Prod.fst

/-- The child stored under the text `name`. -/
def namedChild : FNode → String → FNode
  | leafNode _, _ => emptyNode
  | childrenNode cs, name => (cs.lookup name).getD emptyNode

/-- No other name of a child is taken for the key. -/
def Separates (n : FNode) (key : String) : Prop :=
  ∀ name ∈ n.keys, compareKey key name = .eq → name = key

instance (n : FNode) (key : String) : Decidable (n.Separates key) :=
  inferInstanceAs (Decidable (∀ name ∈ n.keys, compareKey key name = .eq → name = key))

/-- On the way down the path, no other name of a child is taken for the next key. -/
def SeparatesPath : FNode → FPath → Prop
  | _, [] => True
  | n, key :: path => n.Separates key ∧ (n.getImmediateChild key).SeparatesPath path

theorem separates_of_distinctive {key : String} (h : Distinctive key) (n : FNode) :
    n.Separates key := fun name _ heq =>
  (h.compareKey_iff name).1 (Std.OrientedCmp.eq_symm heq)

theorem separatesPath_of_distinctive {path : FPath} (h : ∀ k ∈ path, Distinctive k) (n : FNode) :
    n.SeparatesPath path := by
  induction path generalizing n with
  | nil => trivial
  | cons k path ih =>
    obtain ⟨hk, hpath⟩ := List.forall_mem_cons.1 h
    exact ⟨separates_of_distinctive hk n, ih hpath _⟩

@[simp] theorem namedChild_emptyNode (name : String) : emptyNode.namedChild name = emptyNode := rfl

/-- Where the key is told apart, a search finds the child of that name. -/
theorem Separates.namedChild_eq {n : FNode} {key : String} (h : n.Separates key) :
    n.namedChild key = n.getImmediateChild key := by
  cases n with
  | leafNode v => rfl
  | childrenNode cs =>
    rw [namedChild, getImmediateChild]
    congr 1
    induction cs with
    | nil => rfl
    | cons entry cs ih =>
      obtain ⟨hentry, hcs⟩ := List.forall_mem_cons.1 h
      rw [List.lookup_cons, objectForKey, lookup]
      by_cases heq : compareKey key entry.1 = .eq
      · simp [hentry heq, Std.ReflCmp.compare_self]
      · have hne : key ≠ entry.1 := fun e => heq (e ▸ Std.ReflCmp.compare_self)
        rw [beq_eq_false_iff_ne.2 hne, if_neg heq]
        exact ih hcs

theorem mem_of_lookup {cs : List (String × FNode)} {name : String} {c : FNode}
    (h : cs.lookup name = some c) : (name, c) ∈ cs := by
  obtain ⟨A, B, rfl, -⟩ := List.lookup_eq_some_iff.1 h
  exact List.mem_append_right A List.mem_cons_self

theorem lookup_eq_some_iff_mem {cs : List (String × FNode)} (h : (cs.map Prod.fst).Nodup)
    {name : String} {c : FNode} : cs.lookup name = some c ↔ (name, c) ∈ cs := by
  refine ⟨mem_of_lookup, fun hmem => ?_⟩
  obtain ⟨A, B, rfl⟩ := List.append_of_mem hmem
  refine List.lookup_eq_some_iff.2 ⟨A, B, rfl, fun entry hentry => bne_iff_ne.2 fun heq => ?_⟩
  rw [List.map_append, List.nodup_append] at h
  exact h.2.2 _ (List.mem_map_of_mem hentry) _ List.mem_cons_self heq.symm

theorem mem_of_namedChild {cs : List (String × FNode)} {name : String}
    (h : (childrenNode cs).namedChild name ≠ emptyNode) :
    (name, (childrenNode cs).namedChild name) ∈ cs := by
  rw [namedChild] at h ⊢
  cases hc : cs.lookup name with
  | none => simp [hc] at h
  | some c => exact mem_of_lookup hc

theorem lookup_eq_none_iff_keys (cs : List (String × FNode)) (name : String) :
    cs.lookup name = none ↔ name ∉ cs.map Prod.fst := by
  simp only [List.lookup_eq_none_iff, bne_iff_ne, List.mem_map, not_exists, not_and, ne_comm]

theorem mem_keys_of_namedChild {n : FNode} {name : String} (h : n.namedChild name ≠ emptyNode) :
    name ∈ n.keys := by
  cases n with
  | leafNode v => exact absurd rfl h
  | childrenNode cs =>
    by_contra hmem
    refine h ?_
    rw [namedChild, (lookup_eq_none_iff_keys cs name).2 hmem, Option.getD_none]

/-- A name under which something is stored is a valid key. -/
theorem WellFormed.isValidKey_of_mem_keys {n : FNode} (h : n.WellFormed) {name : String}
    (hname : name ∈ n.keys) : isValidKey name = true := by
  cases h with
  | leafNode v => exact absurd hname List.not_mem_nil
  | childrenNode cs sorted key nonempty child =>
    obtain ⟨entry, hentry, rfl⟩ := List.mem_map.1 hname
    exact key entry hentry

section Update

variable {cs : List (String × FNode)} {key : String} {c : FNode}

theorem lookup_cons_eq_ite (name : String) (entry : String × FNode) (cs : List (String × FNode)) :
    (entry :: cs).lookup name = if name = entry.1 then some entry.2 else cs.lookup name := by
  rw [List.lookup_cons]
  by_cases h : name = entry.1
  · rw [if_pos h, beq_iff_eq.2 h]
  · rw [if_neg h, beq_eq_false_iff_ne.2 h]

theorem ne_of_compareKey {name : String} (h : compareKey key name ≠ .eq) : name ≠ key := by
  rintro rfl
  exact h Std.ReflCmp.compare_self

theorem lookup_setObject (h : (childrenNode cs).Separates key) (name : String) :
    (setObject cs key c).lookup name = if name = key then some c else cs.lookup name := by
  unfold setObject
  generalize decide (arrayToTreeThreshold < cs.length) = keep
  induction cs with
  | nil => exact lookup_cons_eq_ite name (key, c) []
  | cons entry cs ih =>
    obtain ⟨hentry, hcs⟩ := List.forall_mem_cons.1 h
    rw [SortedEntries.insert]
    cases hcmp : compareKey key entry.1 with
    | lt => exact lookup_cons_eq_ite name (key, c) _
    | eq =>
      have heq : entry.1 = key := hentry hcmp
      simp only [heq, ite_self, lookup_cons_eq_ite]
      split_ifs <;> rfl
    | gt =>
      have hne : entry.1 ≠ key := ne_of_compareKey (by simp [hcmp])
      simp only [lookup_cons_eq_ite, ih hcs]
      split_ifs with hname hkey
      · exact absurd (hname.symm.trans hkey) hne
      all_goals rfl

theorem lookup_removeObjectForKey (h : (childrenNode cs).Separates key) (name : String) :
    (removeObjectForKey cs key).lookup name = if name = key then none else cs.lookup name := by
  induction cs with
  | nil => simp [removeObjectForKey]
  | cons entry cs ih =>
    obtain ⟨hentry, hcs⟩ := List.forall_mem_cons.1 h
    have ih := ih hcs
    rw [removeObjectForKey] at ih ⊢
    by_cases hcmp : compareKey key entry.1 = .eq
    · have heq : entry.1 = key := hentry hcmp
      rw [List.filter_cons_of_neg (by simp [hcmp]), ih, lookup_cons_eq_ite, heq]
      split_ifs <;> rfl
    · have hne : entry.1 ≠ key := ne_of_compareKey hcmp
      rw [List.filter_cons_of_pos (by simp [hcmp]), lookup_cons_eq_ite, lookup_cons_eq_ite, ih]
      split_ifs with hname hkey
      · exact absurd (hname.symm.trans hkey) hne
      all_goals rfl

end Update

/-- Where the key is told apart, an update is one of the child of that name. -/
theorem Separates.namedChild_updateImmediateChild {n : FNode} {key : String} (h : n.Separates key)
    (c : FNode) (name : String) :
    (n.updateImmediateChild key c).namedChild name =
      if name = key then c else n.namedChild name := by
  by_cases hc : c.isEmpty
  · obtain rfl := (isEmpty_iff c).1 hc
    cases n with
    | leafNode v => simp [updateImmediateChild, namedChild]
    | childrenNode cs =>
      rw [updateImmediateChild_childrenNode, if_pos hc, namedChild, lookup_removeObjectForKey h]
      split_ifs <;> rfl
  · cases n with
    | leafNode v =>
      have hempty : (childrenNode []).Separates key := h
      have hset := lookup_setObject (c := c) hempty name
      rw [updateImmediateChild, if_neg hc]
      show ((setObject [] key c).lookup name).getD emptyNode = _
      rw [hset]
      split_ifs <;> rfl
    | childrenNode cs =>
      rw [updateImmediateChild_childrenNode, if_neg hc, namedChild, lookup_setObject h]
      split_ifs <;> rfl

/-- Whatever names the key is taken for, a child after an update is one that was there or the new
one under the key. -/
theorem WellFormed.namedChild_updateImmediateChild {n : FNode} (h : n.WellFormed) {key : String}
    (c : FNode) {name : String}
    (hne : (n.updateImmediateChild key c).namedChild name ≠ emptyNode) :
    (n.updateImmediateChild key c).namedChild name = n.namedChild name ∨
      (n.updateImmediateChild key c).namedChild name = c ∧ compareKey key name = .eq := by
  by_cases hc : c.isEmpty
  · cases h with
    | leafNode v => exact absurd (by rw [FNode.updateImmediateChild, if_pos hc, namedChild]) hne
    | childrenNode cs sorted _ _ _ =>
      rw [updateImmediateChild_childrenNode, if_pos hc] at hne ⊢
      have hmem := List.mem_of_mem_filter (mem_of_namedChild hne)
      refine Or.inl ?_
      conv_rhs => rw [namedChild, (lookup_eq_some_iff_mem (nodup_keys_of_sorted sorted)).2 hmem]
      rfl
  · cases h with
    | leafNode v =>
      rw [FNode.updateImmediateChild, if_neg hc] at hne ⊢
      have hmem := List.mem_singleton.1 (mem_of_namedChild hne)
      rw [Prod.mk.injEq] at hmem
      exact Or.inr ⟨hmem.2, hmem.1 ▸ Std.ReflCmp.compare_self⟩
    | childrenNode cs sorted _ _ _ =>
      rw [updateImmediateChild_childrenNode, if_neg hc] at hne ⊢
      rcases mem_insert (mem_of_namedChild hne) with hmem | hmem | ⟨a, -, ha, hmem⟩
      · refine Or.inl ?_
        conv_rhs => rw [namedChild, (lookup_eq_some_iff_mem (nodup_keys_of_sorted sorted)).2 hmem]
        rfl
      · rw [Prod.mk.injEq] at hmem
        exact Or.inr ⟨hmem.2, hmem.1 ▸ Std.ReflCmp.compare_self⟩
      · rw [Prod.mk.injEq] at hmem
        refine Or.inr ⟨hmem.2, hmem.1 ▸ ?_⟩
        split_ifs
        exacts [ha, Std.ReflCmp.compare_self]

/-! ## Writes that change nothing -/

/-- Writing back the child that is there changes nothing. -/
theorem WellFormed.updateImmediateChild_self {n : FNode} (h : n.WellFormed) {k : String}
    (hk : n.Separates k) : n.updateImmediateChild k (n.getImmediateChild k) = n := by
  cases h with
  | leafNode v => rfl
  | childrenNode cs sorted key nonempty child =>
    rw [updateImmediateChild_childrenNode, FNode.getImmediateChild]
    cases hc : objectForKey cs k with
    | none =>
      rw [Option.getD_none, if_pos isEmpty_emptyNode, removeObjectForKey, List.filter_eq_self.2]
      simpa using (objectForKey_eq_none_iff cs k).1 hc
    | some c =>
      obtain ⟨k', hcmp, hmem⟩ := mem_of_objectForKey hc
      obtain rfl := hk k' (List.mem_map_of_mem hmem) hcmp
      have hne : ¬ c.isEmpty := fun e => nonempty _ hmem ((isEmpty_iff c).1 e)
      obtain ⟨A, B, rfl⟩ := List.append_of_mem hmem
      rw [Option.getD_some, if_neg hne, setObject, sorted.insert_eq hcmp, ite_self]

/-- Removing a path under which nothing is stored changes nothing. -/
theorem WellFormed.updateChild_emptyNode {n : FNode} {path : FPath} (h : n.WellFormed)
    (hsep : n.SeparatesPath path) (hp : n.getChild path = emptyNode) :
    n.updateChild path emptyNode = n := by
  induction path generalizing n with
  | nil => cases n <;> exact hp.symm
  | cons k path ih =>
    rw [getChild_cons] at hp
    rw [updateChild_cons, ih (h.getImmediateChild k) hsep.2 hp, h.updateImmediateChild_self hsep.1]

end FNode

/-- A database: a tree that is well formed. -/
structure Database where
  root : FNode
  wellFormed : root.WellFormed

end IndoorFarm
