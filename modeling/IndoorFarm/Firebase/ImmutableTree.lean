import IndoorFarm.Lib.Covers
import IndoorFarm.Lib.SortedEntries
import IndoorFarm.Firebase.KeyOrder

/-!
# Trees with values at some paths (`FImmutableTree`)

A node has a value or none and a sorted dictionary of children, under keys that the comparators tell
apart (`TreeKey`).  The trees that hold pending writes are `Normal`: nothing is below a value and no
child is empty.  Such a tree is determined by the values it gives to the paths (`cover_injective`),
where the root-most value on a path decides.

`setTree`, `setValue` and `subtreeAtPath` are described by what they do to the cover of the tree,
and `forEach` lists writes that make up the cover (`layer_forEach`).
-/

namespace IndoorFarm

open PathLens SortedEntries
open Std (TransCmp LawfulEqCmp)

/-! ## The keys in play -/

/-- The keys in play.  `[FUtilities stringComparator]` is `compare:` of Foundation, which takes
canonically equivalent texts for one, and the dictionaries of nodes take a zero with and without a
minus sign for one.  The keys in play are told apart by both, and none of them is `.priority`. -/
class TreeKey (κ : Type*) where
  decEq : DecidableEq κ
  text : κ → String
  stringComparator : κ → κ → Ordering
  transCmp : TransCmp stringComparator
  eq_of_stringComparator {k k' : κ} (h : stringComparator k k' = .eq) : k = k'
  eq_of_compareKey {k k' : κ} (h : compareKey (text k) (text k') = .eq) : k = k'
  ne_priority (k : κ) : text k ≠ ".priority"

namespace TreeKey

variable {κ : Type*} [TreeKey κ]

instance : DecidableEq κ := decEq

instance : TransCmp (stringComparator : κ → κ → Ordering) := transCmp

instance : LawfulEqCmp (stringComparator : κ → κ → Ordering) where
  eq_of_compare := eq_of_stringComparator

end TreeKey

/-! ## The source -/

open TreeKey (stringComparator)

inductive FImmutableTree (κ α : Type*) where
  | node (value : Option α) (children : List (κ × FImmutableTree κ α))

namespace FImmutableTree

variable {κ α : Type*}

section Source

variable [TreeKey κ]

def value : FImmutableTree κ α → Option α
  | node value _ => value

def children : FImmutableTree κ α → List (κ × FImmutableTree κ α)
  | node _ children => children

/-- `initWithValue:` of a value. -/
def initWithValue (aValue : α) : FImmutableTree κ α := node (some aValue) []

/-- `[FImmutableTree empty]`. -/
def empty : FImmutableTree κ α := node none []

def isEmpty (t : FImmutableTree κ α) : Bool := t.value.isNone && t.children.isEmpty

/-- The path and the value of the first node on the path whose value meets the predicate. -/
def findRootMostMatchingPath (predicate : α → Bool) :
    FImmutableTree κ α → List κ → Option (List κ × α)
  | node value children, relativePath =>
    match value.filter predicate, relativePath with
    | some v, _ => some ([], v)
    | none, [] => none
    | none, front :: path =>
      (lookup stringComparator front children).bind fun child =>
        (child.findRootMostMatchingPath predicate path).map fun found =>
          (front :: found.1, found.2)

def findRootMostValueAndPath : FImmutableTree κ α → List κ → Option (List κ × α) :=
  findRootMostMatchingPath fun _ => true

def subtreeAtPath : FImmutableTree κ α → List κ → FImmutableTree κ α
  | t, [] => t
  | t, front :: path =>
    match lookup stringComparator front t.children with
    | some childTree => childTree.subtreeAtPath path
    | none => empty

/-- `setValue:atPath:`. -/
def setValue (newValue : Option α) : FImmutableTree κ α → List κ → FImmutableTree κ α
  | t, [] => node newValue t.children
  | t, front :: path =>
    let child := (lookup stringComparator front t.children).getD empty
    node t.value (insert stringComparator true front (child.setValue newValue path) t.children)

/-- The new children of `setTree:atPath:`, without the child when it is empty. -/
def newChildren (children : List (κ × FImmutableTree κ α)) (front : κ)
    (newChild : FImmutableTree κ α) : List (κ × FImmutableTree κ α) :=
  if newChild.isEmpty then erase stringComparator front children
  else insert stringComparator true front newChild children

/-- `setTree:atPath:`. -/
def setTree : FImmutableTree κ α → FImmutableTree κ α → List κ → FImmutableTree κ α
  | _, newTree, [] => newTree
  | t, newTree, front :: path =>
    let child := (lookup stringComparator front t.children).getD empty
    node t.value (newChildren t.children front (child.setTree newTree path))

mutual

/-- The paths and values `forEach:` visits, in its order. -/
def forEachPathSoFar : FImmutableTree κ α → List κ → List (List κ × α)
  | node value children, pathSoFar =>
    forEachChildPathSoFar children pathSoFar ++ (value.map fun v => (pathSoFar, v)).toList

def forEachChildPathSoFar : List (κ × FImmutableTree κ α) → List κ → List (List κ × α)
  | [], _ => []
  | (childKey, childTree) :: children, pathSoFar =>
    childTree.forEachPathSoFar (pathSoFar ++ [childKey]) ++ forEachChildPathSoFar children pathSoFar

end

def forEach (t : FImmutableTree κ α) : List (List κ × α) := t.forEachPathSoFar []

end Source

@[simp] theorem value_node (v : Option α) (cs : List (κ × FImmutableTree κ α)) :
    (node v cs).value = v := rfl

@[simp] theorem children_node (v : Option α) (cs : List (κ × FImmutableTree κ α)) :
    (node v cs).children = cs := rfl

@[simp] theorem isEmpty_empty : (empty : FImmutableTree κ α).isEmpty = true := rfl

theorem isEmpty_iff {t : FImmutableTree κ α} : t.isEmpty = true ↔ t = empty := by
  obtain ⟨v, cs⟩ := t
  simp [isEmpty, empty, Option.isNone_iff_eq_none]

mutual

theorem forEachPathSoFar_append : ∀ (t : FImmutableTree κ α) (p q : List κ),
    t.forEachPathSoFar (p ++ q) = (t.forEachPathSoFar q).map fun w => (p ++ w.1, w.2)
  | node v cs, p, q => by
    rw [forEachPathSoFar, forEachPathSoFar, forEachChildPathSoFar_append cs p q, List.map_append]
    cases v <;> rfl

theorem forEachChildPathSoFar_append : ∀ (cs : List (κ × FImmutableTree κ α)) (p q : List κ),
    forEachChildPathSoFar cs (p ++ q) =
      (forEachChildPathSoFar cs q).map fun w => (p ++ w.1, w.2)
  | [], _, _ => rfl
  | (k, t) :: cs, p, q => by
    rw [forEachChildPathSoFar, forEachChildPathSoFar, List.append_assoc,
      forEachPathSoFar_append t p (q ++ [k]), forEachChildPathSoFar_append cs p q, List.map_append]

end

theorem forEach_initWithValue (v : α) :
    (initWithValue v : FImmutableTree κ α).forEach = [([], v)] := rfl

theorem forEach_node_none (cs : List (κ × FImmutableTree κ α)) :
    (node none cs).forEach =
      cs.flatMap fun entry => entry.2.forEach.map fun w => (entry.1 :: w.1, w.2) := by
  unfold forEach
  rw [forEachPathSoFar, Option.map_none, Option.toList_none, List.append_nil]
  induction cs with
  | nil => rfl
  | cons entry cs ih =>
    obtain ⟨k, t⟩ := entry
    have happend := forEachPathSoFar_append t [k] []
    rw [List.append_nil] at happend
    rw [forEachChildPathSoFar, List.nil_append, ih, List.flatMap_cons, happend]
    rfl

variable [TreeKey κ]

@[simp] theorem findRootMostValueAndPath_value (v : α) (cs : List (κ × FImmutableTree κ α))
    (path : List κ) : (node (some v) cs).findRootMostValueAndPath path = some ([], v) := by
  cases path <;> rfl

@[simp] theorem findRootMostValueAndPath_nil (cs : List (κ × FImmutableTree κ α)) :
    (node none cs).findRootMostValueAndPath [] = none := rfl

theorem findRootMostValueAndPath_cons (cs : List (κ × FImmutableTree κ α)) (k : κ)
    (path : List κ) : (node none cs).findRootMostValueAndPath (k :: path) =
      (lookup stringComparator k cs).bind fun child =>
        (child.findRootMostValueAndPath path).map fun found => (k :: found.1, found.2) := rfl

@[simp] theorem isEmpty_setValue (v : α) (t : FImmutableTree κ α) (path : List κ) :
    (t.setValue (some v) path).isEmpty = false := by
  cases path with
  | nil => rfl
  | cons front path =>
    have hne (child : FImmutableTree κ α) :
        insert stringComparator true front child t.children ≠ [] := by
      intro h
      have hlookup : lookup stringComparator front
          (insert stringComparator true front child t.children) = some child := by
        rw [lookup_insert, if_pos Std.ReflCmp.compare_self]
      rw [h] at hlookup
      exact nomatch hlookup
    simp [setValue, isEmpty, hne]

/-! ## Normal trees -/

/-- Nothing is below a value, and no child is empty. -/
inductive Normal : FImmutableTree κ α → Prop
  | initWithValue (v : α) : Normal (initWithValue v)
  | children {cs : List (κ × FImmutableTree κ α)} (sorted : Sorted stringComparator cs)
      (nonempty : ∀ entry ∈ cs, entry.2.isEmpty = false) (child : ∀ entry ∈ cs, Normal entry.2) :
      Normal (node none cs)

theorem normal_empty : Normal (empty : FImmutableTree κ α) :=
  .children List.Pairwise.nil (by simp) (by simp)

theorem mem_of_lookup {cs : List (κ × FImmutableTree κ α)} {k : κ} {t : FImmutableTree κ α}
    (h : Sorted stringComparator cs) (hk : lookup stringComparator k cs = some t) :
    (k, t) ∈ cs := by
  obtain ⟨k', heq, hmem⟩ := (lookup_eq_some_iff h).1 hk
  rwa [LawfulEqCmp.eq_of_compare heq]

/-- The child, or the empty tree that takes its place. -/
theorem normal_getD {cs : List (κ × FImmutableTree κ α)} (h : Normal (node none cs))
    (k : κ) : Normal ((lookup stringComparator k cs).getD empty) := by
  cases h with
  | children sorted nonempty child =>
    cases hk : lookup stringComparator k cs with
    | none => exact normal_empty
    | some t => exact child _ (mem_of_lookup sorted hk)

theorem normal_insert {cs : List (κ × FImmutableTree κ α)} (h : Normal (node none cs))
    (k : κ) {t : FImmutableTree κ α} (ht : Normal t) (hne : t.isEmpty = false) :
    Normal (node none (insert stringComparator true k t cs)) := by
  cases h with
  | children sorted nonempty child =>
    refine .children (sorted_insert sorted) ?_ ?_ <;> rintro entry hentry <;>
      rcases mem_insert hentry with hmem | rfl | ⟨entry', -, -, rfl⟩
    exacts [nonempty entry hmem, hne, hne, child entry hmem, ht, ht]

theorem normal_erase {cs : List (κ × FImmutableTree κ α)} (h : Normal (node none cs))
    (k : κ) : Normal (node none (erase stringComparator k cs)) := by
  cases h with
  | children sorted nonempty child =>
    exact .children (sorted_erase sorted) (fun entry h => nonempty entry (mem_of_mem_erase h))
      fun entry h => child entry (mem_of_mem_erase h)

theorem normal_newChildren {cs : List (κ × FImmutableTree κ α)} (h : Normal (node none cs))
    (k : κ) {t : FImmutableTree κ α} (ht : Normal t) :
    Normal (node none (newChildren cs k t)) := by
  unfold newChildren
  split_ifs with hempty
  · exact normal_erase h k
  · exact normal_insert h k ht (Bool.eq_false_iff.2 hempty)

theorem Normal.subtreeAtPath {t : FImmutableTree κ α} (ht : Normal t) (p : List κ) :
    Normal (t.subtreeAtPath p) := by
  induction p generalizing t with
  | nil => cases t; exact ht
  | cons k p ih =>
    rw [FImmutableTree.subtreeAtPath]
    cases hk : lookup stringComparator k t.children with
    | none => exact normal_empty
    | some child =>
      cases ht with
      | initWithValue v => exact nomatch hk
      | children sorted nonempty hchild => exact ih (hchild _ (mem_of_lookup sorted hk))

/-! ## The cover of a tree -/

section Cover

variable {N : Type*} [EmptyCollection N] [ChildLens N κ]

/-- What the root-most value on a path says about the node at the path. -/
def cover (t : FImmutableTree κ N) : Cover N κ := fun path =>
  (t.findRootMostValueAndPath path).map fun found => get found.2 (path.drop found.1.length)

@[simp] theorem cover_value (v : N) (cs : List (κ × FImmutableTree κ N)) (path : List κ) :
    cover (node (some v) cs) path = some (get v path) := by
  cases path <;> rfl

@[simp] theorem cover_initWithValue (v : N) (path : List κ) :
    cover (initWithValue v) path = some (get v path) := cover_value v [] path

@[simp] theorem cover_nil (cs : List (κ × FImmutableTree κ N)) :
    cover (node none cs) [] = none := rfl

@[simp] theorem cover_cons (cs : List (κ × FImmutableTree κ N)) (k : κ) (path : List κ) :
    cover (node none cs) (k :: path) =
      (lookup stringComparator k cs).bind fun child => cover child path := by
  rw [cover, findRootMostValueAndPath_cons]
  cases lookup stringComparator k cs with
  | none => rfl
  | some child =>
    rw [Option.bind_some, Option.bind_some, cover, Option.map_map]
    rfl

@[simp] theorem cover_empty : cover (empty : FImmutableTree κ N) = fun _ => none := by
  funext path
  cases path with
  | nil => rfl
  | cons k path => rw [empty, cover_cons, lookup_nil, Option.bind_none]

theorem cover_append {t : FImmutableTree κ N} {p : List κ} {c : N} (h : cover t p = some c)
    (q : List κ) : cover t (p ++ q) = some (get c q) := by
  induction p generalizing t with
  | nil =>
    obtain ⟨v, cs⟩ := t
    cases v with
    | none => exact nomatch h
    | some v =>
      rw [cover_value, get_nil, Option.some.injEq] at h
      rw [List.nil_append, cover_value, h]
  | cons k p ih =>
    obtain ⟨v, cs⟩ := t
    cases v with
    | none =>
      rw [cover_cons, Option.bind_eq_some_iff] at h
      obtain ⟨child, hk, hchild⟩ := h
      rw [List.cons_append, cover_cons, hk, Option.bind_some, ih hchild]
    | some v =>
      rw [cover_value, Option.some.injEq] at h
      rw [cover_value, get_append, h]

/-- A child that is there covers something. -/
theorem exists_cover {t : FImmutableTree κ N} (ht : Normal t) (hne : t.isEmpty = false) :
    ∃ path c, cover t path = some c := by
  induction ht with
  | initWithValue v => exact ⟨[], v, cover_value v [] []⟩
  | @children cs sorted nonempty child ih =>
    cases cs with
    | nil => exact nomatch hne
    | cons entry cs =>
      obtain ⟨path, c, hc⟩ := ih entry List.mem_cons_self (nonempty entry List.mem_cons_self)
      refine ⟨entry.1 :: path, c, ?_⟩
      rw [cover_cons, lookup_of_mem sorted List.mem_cons_self, Option.bind_some, hc]

/-- Normal trees with one cover are the same. -/
theorem cover_injective {t t' : FImmutableTree κ N} (ht : Normal t) (ht' : Normal t')
    (h : cover t = cover t') : t = t' := by
  induction ht generalizing t' with
  | initWithValue v =>
    have hroot := congrFun h []
    cases ht' with
    | initWithValue v' =>
      rw [cover_initWithValue, cover_initWithValue, Option.some.injEq] at hroot
      exact congrArg initWithValue hroot
    | children => exact nomatch hroot
  | @children cs sorted nonempty child ih =>
    cases ht' with
    | initWithValue v' => exact nomatch congrFun h []
    | @children cs' sorted' nonempty' child' =>
      have hchild (k : κ) : lookup stringComparator k cs = lookup stringComparator k cs' := by
        have hcover (path : List κ) : ((lookup stringComparator k cs).bind fun t => cover t path) =
            (lookup stringComparator k cs').bind fun t => cover t path := by
          rw [← cover_cons, ← cover_cons, h]
        cases hk : lookup stringComparator k cs with
        | none =>
          cases hk' : lookup stringComparator k cs' with
          | none => rfl
          | some t' =>
            have hmem := mem_of_lookup sorted' hk'
            obtain ⟨path, c, hc⟩ := exists_cover (child' _ hmem) (nonempty' _ hmem)
            have hpath := hcover path
            rw [hk, hk', Option.bind_some, hc] at hpath
            exact nomatch hpath
        | some t =>
          have hmem := mem_of_lookup sorted hk
          cases hk' : lookup stringComparator k cs' with
          | none =>
            obtain ⟨path, c, hc⟩ := exists_cover (child _ hmem) (nonempty _ hmem)
            have hpath := hcover path
            rw [hk, hk', Option.bind_some, hc] at hpath
            exact nomatch hpath
          | some t' =>
            refine congrArg some (ih _ hmem (child' _ (mem_of_lookup sorted' hk')) ?_)
            funext path
            have hpath := hcover path
            rwa [hk, hk'] at hpath
      rw [sorted.eq_of_lookup sorted' hchild]

/-! ## Updates -/

variable {t new : FImmutableTree κ N} {p q : List κ}

theorem cover_getD (cs : List (κ × FImmutableTree κ N)) (k : κ) (path : List κ) :
    cover ((lookup stringComparator k cs).getD empty) path = cover (node none cs) (k :: path) := by
  rw [cover_cons]
  cases lookup stringComparator k cs with
  | none => rw [Option.getD_none, cover_empty, Option.bind_none]
  | some child => rfl

theorem cover_newChildren {cs : List (κ × FImmutableTree κ N)}
    (hs : Sorted stringComparator cs) (k k' : κ) (t : FImmutableTree κ N) (path : List κ) :
    cover (node none (newChildren cs k t)) (k' :: path) =
      if k' = k then cover t path else cover (node none cs) (k' :: path) := by
  have hkey : stringComparator k' k = .eq ↔ k' = k :=
    ⟨LawfulEqCmp.eq_of_compare, fun h => h ▸ Std.ReflCmp.compare_self⟩
  rw [cover_cons, cover_cons, newChildren]
  by_cases ht : t.isEmpty = true
  · rw [if_pos ht, lookup_erase hs, isEmpty_iff.1 ht, cover_empty]
    simp only [hkey]
    split_ifs <;> rfl
  · rw [if_neg ht, lookup_insert]
    simp only [hkey]
    split_ifs <;> rfl

/-- A tree without a value above the path. -/
def Bare (t : FImmutableTree κ N) (p : List κ) : Prop := ∀ q, q <+: p → q ≠ p → cover t q = none

theorem bare_of_cover_eq_none (h : cover t p = none) : Bare t p := by
  rintro q ⟨r, rfl⟩ -
  cases hq : cover t q with
  | none => rfl
  | some c => rw [cover_append hq] at h; exact nomatch h

theorem Bare.exists_children {k : κ} (h : Bare t (k :: p)) : ∃ cs, t = node none cs := by
  obtain ⟨v, cs⟩ := t
  cases v with
  | none => exact ⟨cs, rfl⟩
  | some v => exact absurd (h [] List.nil_prefix (List.cons_ne_nil k p).symm) (by simp)

theorem Bare.child {cs : List (κ × FImmutableTree κ N)} {k : κ}
    (h : Bare (node none cs) (k :: p)) : Bare ((lookup stringComparator k cs).getD empty) p := by
  intro q hq hne
  rw [cover_getD]
  exact h (k :: q) (List.cons_prefix_cons.2 ⟨rfl, hq⟩) fun e => hne (List.cons_inj_right k |>.1 e)

theorem Normal.setTree (ht : Normal t) (hnew : Normal new) (h : Bare t p) :
    Normal (t.setTree new p) := by
  induction p generalizing t with
  | nil => cases t; exact hnew
  | cons k p ih =>
    obtain ⟨cs, rfl⟩ := h.exists_children
    exact normal_newChildren ht k (ih (normal_getD ht k) h.child)

theorem cover_setTree (ht : Normal t) (h : Bare t p) (q : List κ) : cover (t.setTree new p) q =
    if p <+: q then cover new (q.drop p.length) else cover t q := by
  induction p generalizing t q with
  | nil => cases t; simp [FImmutableTree.setTree]
  | cons k p ih =>
    obtain ⟨cs, rfl⟩ := h.exists_children
    cases q with
    | nil => rfl
    | cons k' q =>
      have hs : Sorted stringComparator cs := by cases ht; assumption
      rw [FImmutableTree.setTree, value_node, children_node, cover_newChildren hs,
        ih (normal_getD ht k) h.child, cover_getD]
      by_cases hk : k' = k
      · subst hk
        simp [List.cons_prefix_cons]
      · rw [if_neg hk, if_neg fun hp => hk (List.cons_prefix_cons.1 hp).1.symm]

/-- Putting back the child that is there changes nothing. -/
theorem newChildren_self {cs : List (κ × FImmutableTree κ N)} {k : κ}
    (h : Normal (node none cs)) (hk : (lookup stringComparator k cs).getD empty = t) :
    node none (newChildren cs k t) = node none cs := by
  have ht : Normal t := hk ▸ normal_getD h k
  refine cover_injective (normal_newChildren h k ht) h ?_
  funext q
  cases q with
  | nil => rfl
  | cons k' q =>
    have hs : Sorted stringComparator cs := by cases h; assumption
    rw [cover_newChildren hs]
    split_ifs with hkey
    · rw [← hk, cover_getD, hkey]
    · rfl

/-- Removing what is below a value changes nothing. -/
theorem setTree_empty_of_not_bare (ht : Normal t) (h : ¬ Bare t p) : t.setTree empty p = t := by
  induction ht generalizing p with
  | initWithValue v =>
    cases p with
    | nil => exact absurd (fun q hq hne => absurd (List.prefix_nil.1 hq) hne) h
    | cons k p =>
      have hempty : (empty : FImmutableTree κ N).setTree empty p = empty := by
        refine cover_injective (normal_empty.setTree normal_empty ?_) normal_empty ?_
        · exact fun q _ _ => congrFun cover_empty q
        · funext q
          rw [cover_setTree normal_empty (fun q _ _ => congrFun cover_empty q), cover_empty]
          simp
      rw [FImmutableTree.setTree, initWithValue, children_node, lookup_nil, Option.getD_none,
        hempty, newChildren, if_pos isEmpty_empty]
      rfl
  | @children cs sorted nonempty child ih =>
    cases p with
    | nil => exact absurd (fun q hq hne => absurd (List.prefix_nil.1 hq) hne) h
    | cons k p =>
      have hcs : Normal (node none cs) := .children sorted nonempty child
      have hbare : ¬ Bare ((lookup stringComparator k cs).getD empty) p := by
        intro hbare
        apply h
        intro q hq hne
        cases q with
        | nil => rfl
        | cons k' q =>
          obtain ⟨rfl, hqp⟩ := List.cons_prefix_cons.1 hq
          rw [← cover_getD]
          exact hbare q hqp fun e => hne (e ▸ rfl)
      cases hk : lookup stringComparator k cs with
      | none =>
        rw [hk, Option.getD_none] at hbare
        exact absurd (fun q _ _ => congrFun cover_empty q) hbare
      | some t =>
        have hmem := mem_of_lookup sorted hk
        rw [hk, Option.getD_some] at hbare
        rw [FImmutableTree.setTree, children_node, hk, Option.getD_some, ih _ hmem hbare]
        exact newChildren_self hcs (by rw [hk, Option.getD_some])

theorem Normal.setTree_empty (ht : Normal t) (p : List κ) : Normal (t.setTree empty p) := by
  by_cases h : Bare t p
  · exact ht.setTree normal_empty h
  · rwa [setTree_empty_of_not_bare ht h]

/-- The root-most value on a path is at a path above which there is no value. -/
theorem findRootMostValueAndPath_spec {v : N} (h : t.findRootMostValueAndPath q = some (p, v)) :
    p <+: q ∧ Bare t p ∧ cover t p = some v := by
  induction q generalizing t p with
  | nil =>
    obtain ⟨w, cs⟩ := t
    cases w with
    | none => exact nomatch h
    | some w =>
      rw [findRootMostValueAndPath_value, Option.some.injEq, Prod.mk.injEq] at h
      obtain ⟨rfl, rfl⟩ := h
      exact ⟨List.nil_prefix, fun q hq hne => absurd (List.prefix_nil.1 hq) hne,
        cover_value w cs []⟩
  | cons k q ih =>
    obtain ⟨w, cs⟩ := t
    cases w with
    | none =>
      rw [findRootMostValueAndPath_cons, Option.bind_eq_some_iff] at h
      obtain ⟨child, hk, h⟩ := h
      obtain ⟨found, hfound, hp⟩ := Option.map_eq_some_iff.1 h
      obtain ⟨p', v'⟩ := found
      rw [Prod.mk.injEq] at hp
      obtain ⟨rfl, rfl⟩ := hp
      obtain ⟨hpre, hbare, hcover⟩ := ih hfound
      refine ⟨List.cons_prefix_cons.2 ⟨rfl, hpre⟩, fun r hr hne => ?_, ?_⟩
      · cases r with
        | nil => rfl
        | cons k' r =>
          obtain ⟨rfl, hrp⟩ := List.cons_prefix_cons.1 hr
          rw [cover_cons, hk, Option.bind_some]
          exact hbare r hrp fun e => hne (e ▸ rfl)
      · rw [cover_cons, hk, Option.bind_some, hcover]
    | some w =>
      rw [findRootMostValueAndPath_value, Option.some.injEq, Prod.mk.injEq] at h
      obtain ⟨rfl, rfl⟩ := h
      exact ⟨List.nil_prefix, fun q hq hne => absurd (List.prefix_nil.1 hq) hne,
        cover_value w cs []⟩

theorem findRootMostValueAndPath_eq_none (h : t.findRootMostValueAndPath q = none) :
    cover t q = none := by
  rw [cover, h]
  rfl

/-- Replacing a value is replacing its tree. -/
theorem setValue_eq_setTree {v : N} (ht : Normal t) (hbare : Bare t p) (hv : cover t p = some v)
    (v' : N) : t.setValue (some v') p = t.setTree (initWithValue v') p := by
  induction p generalizing t with
  | nil =>
    cases ht with
    | initWithValue w => rfl
    | children => exact nomatch hv
  | cons k p ih =>
    obtain ⟨cs, rfl⟩ := hbare.exists_children
    have hchild := ih (normal_getD ht k) hbare.child (by rw [cover_getD, hv])
    rw [FImmutableTree.setTree, children_node, ← hchild, newChildren,
      if_neg (Bool.eq_false_iff.1 (isEmpty_setValue ..))]
    rfl

/-- Replacing the root-most value on a path. -/
theorem Normal.setValue {found : List κ × N} (ht : Normal t)
    (h : t.findRootMostValueAndPath q = some found) (v' : N) :
    Normal (t.setValue (some v') found.1) := by
  obtain ⟨-, hbare, hv⟩ := findRootMostValueAndPath_spec h
  rw [setValue_eq_setTree ht hbare hv]
  exact ht.setTree (.initWithValue v') hbare

theorem cover_subtreeAtPath (h : cover t p = none) (q : List κ) :
    cover (t.subtreeAtPath p) q = cover t (p ++ q) := by
  induction p generalizing t with
  | nil => cases t; rfl
  | cons k p ih =>
    obtain ⟨cs, rfl⟩ := (bare_of_cover_eq_none h).exists_children
    rw [cover_cons] at h
    rw [FImmutableTree.subtreeAtPath, children_node, List.cons_append, cover_cons]
    cases hk : lookup stringComparator k cs with
    | none => simp
    | some child =>
      rw [hk, Option.bind_some] at h
      rw [Option.bind_some, ih h]

/-! ## The writes of a tree -/

theorem cover_eq_some_iff {c : N} (ht : Normal t) :
    cover t q = some c ↔ ∃ w ∈ t.forEach, ∃ r, q = w.1 ++ r ∧ c = get w.2 r := by
  induction ht generalizing q with
  | initWithValue v =>
    rw [cover_initWithValue, forEach_initWithValue, Option.some.injEq]
    simp [eq_comm]
  | @children cs sorted nonempty child ih =>
    rw [forEach_node_none]
    cases q with
    | nil => simp
    | cons k q =>
      rw [cover_cons, Option.bind_eq_some_iff]
      constructor
      · rintro ⟨t, hk, hc⟩
        have hmem := mem_of_lookup sorted hk
        obtain ⟨w, hw, r, rfl, rfl⟩ := (ih _ hmem).1 hc
        refine ⟨(k :: w.1, w.2), ?_, r, rfl, rfl⟩
        exact List.mem_flatMap.2 ⟨(k, t), hmem, List.mem_map_of_mem hw⟩
      · rintro ⟨w, hw, r, hq, rfl⟩
        obtain ⟨entry, hentry, hw⟩ := List.mem_flatMap.1 hw
        obtain ⟨w', hw', rfl⟩ := List.mem_map.1 hw
        rw [List.cons_append, List.cons.injEq] at hq
        obtain ⟨rfl, rfl⟩ := hq
        exact ⟨entry.2, lookup_of_mem sorted hentry, (ih entry hentry).2 ⟨w', hw', r, rfl, rfl⟩⟩

omit [EmptyCollection N] [ChildLens N κ] in
theorem pairwise_forEach (ht : Normal t) : t.forEach.Pairwise fun a b => ¬ Meets a.1 b.1 := by
  induction ht with
  | initWithValue v => exact List.pairwise_singleton _ _
  | @children cs sorted nonempty child ih =>
    rw [forEach_node_none, List.pairwise_flatMap]
    constructor
    · intro entry hentry
      refine List.pairwise_map.2 ((ih entry hentry).imp fun hne hmeets => hne ?_)
      simpa [Meets, List.cons_prefix_cons] using hmeets
    · refine sorted.imp fun {a b} hab w hw w' hw' hmeets => ?_
      obtain ⟨u, -, rfl⟩ := List.mem_map.1 hw
      obtain ⟨u', -, rfl⟩ := List.mem_map.1 hw'
      have hkey : a.1 = b.1 := by
        rcases hmeets with hm | hm
        · exact (List.cons_prefix_cons.1 hm).1
        · exact (List.cons_prefix_cons.1 hm).1.symm
      have hself : stringComparator b.1 b.1 = .eq := Std.ReflCmp.compare_self
      rw [hkey, hself] at hab
      contradiction

theorem layer_forEach (ht : Normal t) : layer t.forEach = cover t := by
  funext q
  refine Option.ext fun c => ?_
  rw [Cover.layer_eq_some_iff (pairwise_forEach ht), cover_eq_some_iff ht]

omit [EmptyCollection N] [ChildLens N κ] in
theorem below_cons_map (k k' : κ) (p : List κ) (ws : List (List κ × N)) :
    below (k :: p) (ws.map fun w => (k' :: w.1, w.2)) = if k = k' then below p ws else [] := by
  induction ws with
  | nil => simp [below]
  | cons w ws ih =>
    rw [below, List.map_cons, List.filterMap_cons, ← below, ih]
    by_cases hk : k = k'
    · subst hk
      simp only [List.cons_prefix_cons, true_and, if_true, List.length_cons, List.drop_succ_cons,
        below, List.filterMap_cons]
    · simp [List.cons_prefix_cons, hk]

omit [EmptyCollection N] [ChildLens N κ] in
/-- Of the children of a node, one is on the path. -/
theorem below_forEach_node {cs : List (κ × FImmutableTree κ N)}
    (hs : Sorted stringComparator cs) (k : κ) (p : List κ) :
    below (k :: p) (node none cs).forEach =
      match lookup stringComparator k cs with
      | some child => below p child.forEach
      | none => [] := by
  rw [forEach_node_none, below_flatMap]
  simp only [below_cons_map]
  induction cs with
  | nil => rfl
  | cons entry cs ih =>
    obtain ⟨hentry, hs⟩ := List.pairwise_cons.1 hs
    rw [List.flatMap_cons, lookup]
    by_cases hk : k = entry.1
    · subst hk
      have hrest :
          (cs.flatMap fun e => if entry.1 = e.1 then below p e.2.forEach else []) = [] := by
        refine List.flatMap_eq_nil_iff.2 fun e he => if_neg fun heq => ?_
        have hself : stringComparator e.1 e.1 = .eq := Std.ReflCmp.compare_self
        have hlt := hentry e he
        rw [heq, hself] at hlt
        contradiction
      rw [if_pos rfl, if_pos Std.ReflCmp.compare_self, hrest, List.append_nil]
    · rw [if_neg hk, if_neg fun heq => hk (LawfulEqCmp.eq_of_compare heq), List.nil_append, ih hs]

/-- The writes of a subtree are the writes below its path. -/
theorem forEach_subtreeAtPath (ht : Normal t) (h : cover t p = none) :
    (t.subtreeAtPath p).forEach = below p t.forEach := by
  induction p generalizing t with
  | nil =>
    cases t
    simp [FImmutableTree.subtreeAtPath, below]
  | cons k p ih =>
    obtain ⟨cs, rfl⟩ := (bare_of_cover_eq_none h).exists_children
    cases ht with
    | children sorted nonempty child =>
      rw [cover_cons] at h
      rw [FImmutableTree.subtreeAtPath, children_node, below_forEach_node sorted]
      cases hk : lookup stringComparator k cs with
      | none => rfl
      | some t =>
        rw [hk, Option.bind_some] at h
        exact ih (child _ (mem_of_lookup sorted hk)) h

end Cover

end FImmutableTree

end IndoorFarm
