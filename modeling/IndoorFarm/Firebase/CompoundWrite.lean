import IndoorFarm.Firebase.ImmutableTree
import IndoorFarm.Firebase.Node

/-!
# Compound writes (`FCompoundWrite`)

A compound write is a normal tree of nodes: at every path with a value the node is written.  Its
cover says which nodes it determines (`completeNodeAtPath`), and determines it (`ext_cover`), so
every operation is described by its cover.  `applyToNode` makes the writes of the tree one after the
other (`applyToNode_eq_putAll`); they do not meet, so the order does not matter for the cover.
-/

namespace IndoorFarm

open PathLens

/-! ## Nodes at paths of keys in play -/

namespace TreeKey

variable {κ : Type*} [TreeKey κ]

/-- The path as a node takes it. -/
def texts (path : List κ) : FPath := path.map text

instance : ChildLens FNode κ where
  same k k' := compareKey (text k) (text k') = .eq
  child n k := n.getImmediateChild (text k)
  setChild n k c := n.updateImmediateChild (text k) c
  same_refl _ := Std.ReflCmp.compare_self
  child_empty k := FNode.getImmediateChild_emptyNode (text k)
  child_congr n _ _ h := n.getImmediateChild_congr h
  child_setChild_of_same n k k' c h := by
    rw [FNode.getImmediateChild_updateImmediateChild, if_pos h]
  child_setChild_of_not_same n k k' c h := by
    rw [FNode.getImmediateChild_updateImmediateChild, if_neg h]

instance : LawfulNames FNode κ where
  eq_of_same := eq_of_compareKey

@[simp] theorem texts_nil : texts ([] : List κ) = [] := rfl

theorem getChild_texts (n : FNode) (path : List κ) : n.getChild (texts path) = get n path := by
  induction path generalizing n with
  | nil => exact FNode.getChild_nil n
  | cons k path ih =>
    rw [texts, List.map_cons, FNode.getChild_cons]
    exact ih _

theorem updateChild_texts (n : FNode) (path : List κ) (c : FNode) :
    n.updateChild (texts path) c = put n path c := by
  induction path generalizing n with
  | nil => cases n <;> rfl
  | cons k path ih =>
    rw [texts, List.map_cons, FNode.updateChild_cons]
    exact congrArg (n.updateImmediateChild (text k)) (ih _)

end TreeKey

open TreeKey

variable {κ : Type*}

/-- `[FPath relativePathFrom:outer to:inner]`.  The source raises unless `inner` is within `outer`;
it is asked for such paths only. -/
def FPath.relativePathFrom (outer inner : List κ) : List κ := inner.drop outer.length

variable [TreeKey κ]

variable (κ) in
structure FCompoundWrite where
  writeTree : FImmutableTree κ FNode
  normal : writeTree.Normal

namespace FCompoundWrite

open FImmutableTree hiding node

/-! ## The source -/

def emptyWrite : FCompoundWrite κ := ⟨.empty, normal_empty⟩

/-- `addWrite:atPath:`. -/
def addWrite (self : FCompoundWrite κ) (node : FNode) (path : List κ) : FCompoundWrite κ :=
  if path = [] then ⟨.initWithValue node, .initWithValue node⟩
  else
    match h : self.writeTree.findRootMostValueAndPath path with
    | some rootMost =>
      let relativePath := FPath.relativePathFrom rootMost.1 path
      let value := rootMost.2.updateChild (texts relativePath) node
      ⟨self.writeTree.setValue (some value) rootMost.1, self.normal.setValue h value⟩
    | none =>
      ⟨self.writeTree.setTree (.initWithValue node) path,
        self.normal.setTree (.initWithValue node)
          (bare_of_cover_eq_none (findRootMostValueAndPath_eq_none h))⟩

/-- `addCompoundWrite:atPath:`. -/
def addCompoundWrite (self compoundWrite : FCompoundWrite κ) (path : List κ) : FCompoundWrite κ :=
  compoundWrite.writeTree.forEach.foldl
    (fun newWrite entry => newWrite.addWrite entry.2 (path ++ entry.1)) self

/-- `removeWriteAtPath:`. -/
def removeWriteAtPath (self : FCompoundWrite κ) (path : List κ) : FCompoundWrite κ :=
  if path = [] then emptyWrite
  else ⟨self.writeTree.setTree .empty path, self.normal.setTree_empty path⟩

def completeNodeAtPath (self : FCompoundWrite κ) (path : List κ) : Option FNode :=
  (self.writeTree.findRootMostValueAndPath path).map fun rootMost =>
    rootMost.2.getChild (texts (FPath.relativePathFrom rootMost.1 path))

def hasCompleteWriteAtPath (self : FCompoundWrite κ) (path : List κ) : Bool :=
  (self.completeNodeAtPath path).isSome

def childCompoundWriteAtPath (self : FCompoundWrite κ) (path : List κ) : FCompoundWrite κ :=
  if path = [] then self
  else
    match self.completeNodeAtPath path with
    | some shadowingNode => ⟨.initWithValue shadowingNode, .initWithValue shadowingNode⟩
    | none => ⟨self.writeTree.subtreeAtPath path, self.normal.subtreeAtPath path⟩

mutual

/-- `applySubtreeWrite:atPath:toNode:`.  No key in play is `.priority`, for which the source has a
branch of its own. -/
def applySubtreeWrite : FImmutableTree κ FNode → List κ → FNode → FNode
  | .node (some value) _, relativePath, node => node.updateChild (texts relativePath) value
  | .node none children, relativePath, node => applyChildWrites children relativePath node

def applyChildWrites : List (κ × FImmutableTree κ FNode) → List κ → FNode → FNode
  | [], _, node => node
  | (childKey, childTree) :: children, relativePath, node =>
    applyChildWrites children relativePath
      (applySubtreeWrite childTree (relativePath ++ [childKey]) node)

end

def applyToNode (self : FCompoundWrite κ) (node : FNode) : FNode :=
  applySubtreeWrite self.writeTree [] node

def isEmpty (self : FCompoundWrite κ) : Bool := self.writeTree.isEmpty

/-! ## Covers -/

variable {W W' M : FCompoundWrite κ} {n c : FNode} {p q : List κ}

/-- The nodes that the write determines. -/
def cover (W : FCompoundWrite κ) : Cover FNode κ := W.writeTree.cover

theorem completeNodeAtPath_eq_cover (W : FCompoundWrite κ) (path : List κ) :
    W.completeNodeAtPath path = W.cover path := by
  unfold completeNodeAtPath cover FImmutableTree.cover FPath.relativePathFrom
  simp only [getChild_texts]

theorem ext_cover (h : W.cover = W'.cover) : W = W' := by
  obtain ⟨t, ht⟩ := W
  obtain ⟨t', ht'⟩ := W'
  obtain rfl : t = t' := cover_injective ht ht' h
  rfl

@[simp] theorem cover_emptyWrite : (emptyWrite : FCompoundWrite κ).cover = fun _ => none :=
  cover_empty

theorem cover_addWrite (W : FCompoundWrite κ) (node : FNode) (path : List κ) :
    (W.addWrite node path).cover = W.cover.write path node := by
  funext q
  unfold addWrite
  split_ifs with hpath
  · subst hpath
    rw [cover, cover_initWithValue]
    exact (Cover.write_append W.cover [] q node).symm
  split
  next rootMost h =>
    obtain ⟨p, v⟩ := rootMost
    obtain ⟨⟨s, rfl⟩, hbare, hv⟩ := findRootMostValueAndPath_spec h
    show (W.writeTree.setValue
      (some (v.updateChild (texts ((p ++ s).drop p.length)) node)) p).cover q = _
    rw [setValue_eq_setTree W.normal hbare hv, cover_setTree W.normal hbare, cover_initWithValue,
      List.drop_left, updateChild_texts]
    exact (Cover.write_of_covered hbare (fun r => cover_append hv r) s q).symm
  next h =>
    have hbare := bare_of_cover_eq_none (findRootMostValueAndPath_eq_none h)
    rw [cover, cover_setTree W.normal hbare, cover_initWithValue]
    exact (Cover.write_of_bare hbare q).symm

theorem cover_addCompoundWrite (W M : FCompoundWrite κ) (path : List κ) :
    (W.addCompoundWrite M path).cover =
      W.cover.writeAll (M.writeTree.forEach.map fun entry => (path ++ entry.1, entry.2)) := by
  unfold addCompoundWrite
  induction M.writeTree.forEach generalizing W with
  | nil => rfl
  | cons entry entries ih =>
    rw [List.foldl_cons, ih, cover_addWrite, List.map_cons, Cover.writeAll_cons]

/-- Unless a value is above the path. -/
theorem cover_removeWriteAtPath (h : ∀ q, q <+: p → q ≠ p → W.cover q = none) :
    (W.removeWriteAtPath p).cover = W.cover.eraseAll [p] := by
  funext q
  unfold removeWriteAtPath
  rw [Cover.eraseAll]
  split_ifs with hp hq hq
  · rw [cover_emptyWrite]
  · exact absurd ⟨p, List.mem_singleton_self p, hp ▸ List.nil_prefix⟩ hq
  · obtain ⟨p', hp', hq⟩ := hq
    obtain rfl := List.mem_singleton.1 hp'
    rw [cover, cover_setTree W.normal h, if_pos hq, cover_empty]
  · rw [cover, cover_setTree W.normal h, if_neg fun hpq => hq ⟨p, List.mem_singleton_self p, hpq⟩]
    rfl

theorem cover_childCompoundWriteAtPath (W : FCompoundWrite κ) (path : List κ) :
    (W.childCompoundWriteAtPath path).cover = W.cover.restrict path := by
  funext q
  unfold childCompoundWriteAtPath
  split_ifs with hpath
  · subst hpath
    rfl
  · rw [completeNodeAtPath_eq_cover]
    cases h : W.cover path with
    | none => exact cover_subtreeAtPath h q
    | some c => exact (cover_initWithValue c q).trans (cover_append h q).symm

/-! ## The tree after the writes -/

theorem applyChildWrites_eq_foldl (cs : List (κ × FImmutableTree κ FNode)) (path : List κ)
    (n : FNode) : applyChildWrites cs path n =
      cs.foldl (fun n entry => applySubtreeWrite entry.2 (path ++ [entry.1]) n) n := by
  induction cs generalizing n with
  | nil => rfl
  | cons entry cs ih => exact ih _

theorem applySubtreeWrite_eq_putAll {t : FImmutableTree κ FNode} (ht : t.Normal) (path : List κ)
    (n : FNode) : applySubtreeWrite t path n =
      putAll n (t.forEach.map fun entry => (path ++ entry.1, entry.2)) := by
  induction ht generalizing path n with
  | initWithValue v =>
    rw [forEach_initWithValue, initWithValue, applySubtreeWrite, updateChild_texts,
      List.map_singleton, List.append_nil]
    rfl
  | @children cs sorted nonempty child ih =>
    rw [applySubtreeWrite, applyChildWrites_eq_foldl, forEach_node_none]
    clear sorted nonempty child
    induction cs generalizing n with
    | nil => rfl
    | cons entry cs ihcs =>
      rw [List.foldl_cons, ihcs fun e he => ih e (List.mem_cons_of_mem entry he),
        ih entry List.mem_cons_self, List.flatMap_cons, List.map_append, putAll_append]
      simp only [List.map_map, Function.comp_def, List.append_assoc, List.singleton_append]

theorem applyToNode_eq_putAll (W : FCompoundWrite κ) (n : FNode) :
    W.applyToNode n = putAll n W.writeTree.forEach := by
  rw [applyToNode, applySubtreeWrite_eq_putAll W.normal]
  simp

@[simp] theorem applyToNode_emptyWrite (n : FNode) :
    (emptyWrite : FCompoundWrite κ).applyToNode n = n := rfl

theorem eq_emptyWrite_iff : W = emptyWrite ↔ ∀ q, W.cover q = none := by
  refine ⟨fun h => h ▸ congrFun cover_emptyWrite, fun h => ext_cover ?_⟩
  rw [cover_emptyWrite]
  exact funext h

theorem isEmpty_iff_eq_emptyWrite : W.isEmpty = true ↔ W = emptyWrite := by
  refine FImmutableTree.isEmpty_iff.trans ⟨fun h => ?_, fun h => h ▸ rfl⟩
  obtain ⟨t, ht⟩ := W
  obtain rfl : t = .empty := h
  rfl

theorem applyToNode_of_cover_nil (h : W.cover [] = some c) (n : FNode) : W.applyToNode n = c := by
  rw [applyToNode_eq_putAll]
  exact get_putAll_of_layer n ((congrFun (layer_forEach W.normal) []).trans h)

@[simp] theorem childCompoundWriteAtPath_nil (W : FCompoundWrite κ) :
    W.childCompoundWriteAtPath [] = W := rfl

/-- The subtree at a path, of the tree after the writes. -/
theorem getChild_applyToNode (W : FCompoundWrite κ) (n : FNode) (p : List κ) :
    (W.applyToNode n).getChild (texts p) =
      (W.childCompoundWriteAtPath p).applyToNode (n.getChild (texts p)) := by
  have hlayer := layer_forEach W.normal
  unfold childCompoundWriteAtPath
  split_ifs with hp
  · rw [hp, texts_nil, FNode.getChild_nil, FNode.getChild_nil]
  rw [completeNodeAtPath_eq_cover, applyToNode_eq_putAll, getChild_texts]
  cases h : W.cover p with
  | some c =>
    rw [get_putAll_of_layer n ((congrFun hlayer p).trans h)]
    exact (updateChild_texts (n.getChild (texts p)) ([] : List κ) c).symm
  | none =>
    have habove : ∀ w ∈ W.writeTree.forEach, Meets w.1 p → p <+: w.1 := by
      rintro w hw (⟨r, rfl⟩ | hm)
      · have hsome := (cover_eq_some_iff W.normal).2 ⟨w, hw, r, rfl, rfl⟩
        exact nomatch h.symm.trans hsome
      · exact hm
    rw [get_putAll_above n habove, applyToNode_eq_putAll,
      forEach_subtreeAtPath W.normal h, getChild_texts]

end FCompoundWrite

end IndoorFarm
