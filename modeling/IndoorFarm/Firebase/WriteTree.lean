import IndoorFarm.Firebase.CompoundWrite
import IndoorFarm.Lib.Runs
import Mathlib.Data.List.Pairwise

/-!
# Pending writes (`FWriteTree`)

A client shows its own writes before the server has confirmed them: `allWrites` are the writes that
are pending, `visibleWrites` is the compound write of the visible ones.  An added write is added to
both; when a write is confirmed or refused, `removeWriteId` repairs `visibleWrites` with as little
work as it can.
-/

namespace IndoorFarm

open PathLens TreeKey

variable {κ : Type*} [TreeKey κ]

/-- `[self contains:other]`: the pieces of `self` are the first pieces of `other`, as texts. -/
def FPath.contains (self other : List κ) : Bool := decide (self <+: other)

/-! ## The source -/

/-- A pending write.  A merge is always visible. -/
inductive FWriteRecord (κ : Type*) [TreeKey κ] where
  | overwrite (path : List κ) (overwrite : FNode) (writeId : ℤ) (visible : Bool)
  | merge (path : List κ) (merge : FCompoundWrite κ) (writeId : ℤ)

namespace FWriteRecord

def path : FWriteRecord κ → List κ
  | overwrite path _ _ _ => path
  | merge path _ _ => path

def writeId : FWriteRecord κ → ℤ
  | overwrite _ _ writeId _ => writeId
  | merge _ _ writeId => writeId

def visible : FWriteRecord κ → Bool
  | overwrite _ _ _ visible => visible
  | merge _ _ _ => true

/-- The single writes of a record. -/
def writes : FWriteRecord κ → List (List κ × FNode)
  | overwrite path newData _ _ => [(path, newData)]
  | merge path children _ => children.writeTree.forEach.map fun entry => (path ++ entry.1, entry.2)

/-- `record:containsPath:`. -/
def containsPath (path : List κ) : FWriteRecord κ → Bool
  | overwrite recordPath _ _ _ => FPath.contains recordPath path
  | merge recordPath children _ =>
    children.writeTree.forEach.any fun entry => FPath.contains (recordPath ++ entry.1) path

end FWriteRecord

structure FWriteTree (κ : Type*) [TreeKey κ] where
  visibleWrites : FCompoundWrite κ := .emptyWrite
  allWrites : List (FWriteRecord κ) := []
  lastWriteId : ℤ := -1

namespace FWriteTree

/-- `addOverwriteAtPath:newData:writeId:isVisible:`, `none` when its assertion fails. -/
def addOverwriteAtPath (self : FWriteTree κ) (path : List κ) (newData : FNode) (writeId : ℤ)
    (visible : Bool) : Option (FWriteTree κ) :=
  if self.lastWriteId < writeId then
    some
      { visibleWrites :=
          if visible then self.visibleWrites.addWrite newData path else self.visibleWrites
        allWrites := self.allWrites ++ [.overwrite path newData writeId visible]
        lastWriteId := writeId }
  else none

/-- `addMergeAtPath:changedChildren:writeId:`, `none` when its assertion fails. -/
def addMergeAtPath (self : FWriteTree κ) (path : List κ) (changedChildren : FCompoundWrite κ)
    (writeId : ℤ) : Option (FWriteTree κ) :=
  if self.lastWriteId < writeId then
    some
      { visibleWrites := self.visibleWrites.addCompoundWrite changedChildren path
        allWrites := self.allWrites ++ [.merge path changedChildren writeId]
        lastWriteId := writeId }
  else none

/-- One record of `layerTreeFromWrites:filter:treeRoot:`. -/
def layerRecord (treeRoot : List κ) (compoundWrite : FCompoundWrite κ) :
    FWriteRecord κ → FCompoundWrite κ
  | .overwrite writePath overwrite _ _ =>
    if FPath.contains treeRoot writePath then
      compoundWrite.addWrite overwrite (FPath.relativePathFrom treeRoot writePath)
    else if FPath.contains writePath treeRoot then
      compoundWrite.addWrite
        (overwrite.getChild (texts (FPath.relativePathFrom writePath treeRoot))) []
    else compoundWrite
  | .merge writePath merge _ =>
    if FPath.contains treeRoot writePath then
      compoundWrite.addCompoundWrite merge (FPath.relativePathFrom treeRoot writePath)
    else if FPath.contains writePath treeRoot then
      let relativePath := FPath.relativePathFrom writePath treeRoot
      if relativePath = [] then compoundWrite.addCompoundWrite merge []
      else
        match merge.completeNodeAtPath relativePath with
        | some child => compoundWrite.addWrite (child.getChild (texts relativePath.tail)) []
        | none => compoundWrite
    else compoundWrite

def layerTreeFromWrites (writes : List (FWriteRecord κ)) (filter : FWriteRecord κ → Bool)
    (treeRoot : List κ) : FCompoundWrite κ :=
  writes.foldl
    (fun compoundWrite record =>
      if filter record then layerRecord treeRoot compoundWrite record else compoundWrite)
    .emptyWrite

/-- The source says that this keeps everything visible; it keeps everything. -/
def defaultFilter : FWriteRecord κ → Bool := fun _ => true

def resetTree (self : FWriteTree κ) : FWriteTree κ :=
  { self with
    visibleWrites := layerTreeFromWrites self.allWrites defaultFilter []
    lastWriteId := (self.allWrites.getLast?.map FWriteRecord.writeId).getD (-1) }

/-- The loop of `removeWriteId:` over the records that remain and their indices, from the last one
on: whether the removed write was visible, and whether it overlaps with others. -/
def removalLoop (writeToRemove : FWriteRecord κ) (index : ℕ) :
    List (FWriteRecord κ × ℕ) → Bool → Bool → Bool × Bool
  | [], wasVisible, overlaps => (wasVisible, overlaps)
  | (currentWrite, i) :: rest, wasVisible, overlaps =>
    if wasVisible then
      if currentWrite.visible then
        if index ≤ i ∧ currentWrite.containsPath writeToRemove.path then
          removalLoop writeToRemove index rest false overlaps
        else if FPath.contains writeToRemove.path currentWrite.path then
          removalLoop writeToRemove index rest wasVisible true
        else removalLoop writeToRemove index rest wasVisible overlaps
      else removalLoop writeToRemove index rest wasVisible overlaps
    else (wasVisible, overlaps)

/-- The end of `removeWriteId:`, where no other write overlaps. -/
def removeRecord (visibleWrites : FCompoundWrite κ) : FWriteRecord κ → FCompoundWrite κ
  | .overwrite path _ _ _ => visibleWrites.removeWriteAtPath path
  | .merge path merge _ =>
    merge.writeTree.forEach.foldl
      (fun visibleWrites entry => visibleWrites.removeWriteAtPath (path ++ entry.1)) visibleWrites

/-- `removeWriteId:` and what it returns, `none` when its assertion fails. -/
def removeWriteId (self : FWriteTree κ) (writeId : ℤ) : Option (Bool × FWriteTree κ) :=
  (self.allWrites.findIdx? fun record => record.writeId = writeId).bind fun index =>
    self.allWrites[index]?.map fun writeToRemove =>
      let self := { self with allWrites := self.allWrites.eraseIdx index }
      let flags :=
        removalLoop writeToRemove index self.allWrites.zipIdx.reverse writeToRemove.visible false
      if !flags.1 then (false, self)
      else if flags.2 then (true, self.resetTree)
      else (true, { self with visibleWrites := removeRecord self.visibleWrites writeToRemove })

/-- `calculateCompleteEventCacheAtPath:completeServerCache:excludeWriteIds:includeHiddenWrites:`. -/
def calculateCompleteEventCacheAtPath (self : FWriteTree κ) (treePath : List κ)
    (completeServerCache : Option FNode) (writeIdsToExclude : Option (List ℤ))
    (includeHiddenWrites : Bool) : Option FNode :=
  if writeIdsToExclude = none ∧ !includeHiddenWrites then
    match self.visibleWrites.completeNodeAtPath treePath with
    | some shadowingNode => some shadowingNode
    | none =>
      let subMerge := self.visibleWrites.childCompoundWriteAtPath treePath
      if subMerge.isEmpty then completeServerCache
      else if completeServerCache = none ∧ !subMerge.hasCompleteWriteAtPath [] then none
      else some (subMerge.applyToNode (completeServerCache.getD .emptyNode))
  else
    let merge := self.visibleWrites.childCompoundWriteAtPath treePath
    if !includeHiddenWrites && merge.isEmpty then completeServerCache
    else if !includeHiddenWrites ∧ completeServerCache = none ∧ !merge.hasCompleteWriteAtPath []
    then none
    else
      let filter := fun record : FWriteRecord κ =>
        (record.visible || includeHiddenWrites) &&
          (writeIdsToExclude.all fun ids => record.writeId ∉ ids) &&
          (FPath.contains record.path treePath || FPath.contains treePath record.path)
      let mergeAtPath := layerTreeFromWrites self.allWrites filter treePath
      some (mergeAtPath.applyToNode (completeServerCache.getD .emptyNode))

end FWriteTree

/-! ## The writes of a record -/

theorem FPath.contains_iff {p q : List κ} : FPath.contains p q = true ↔ p <+: q :=
  decide_eq_true_iff

namespace FWriteRecord

variable {w v : FWriteRecord κ} {p root : List κ}

theorem exists_path_of_mem_writes {u : List κ × FNode} (h : u ∈ w.writes) :
    ∃ s, u.1 = w.path ++ s := by
  cases w with
  | overwrite path newData writeId visible =>
    obtain rfl := List.mem_singleton.1 h
    exact ⟨[], (List.append_nil path).symm⟩
  | merge path children writeId =>
    obtain ⟨entry, -, rfl⟩ := List.mem_map.1 h
    exact ⟨entry.1, rfl⟩

theorem containsPath_iff : w.containsPath p = true ↔ ∃ u ∈ w.writes, u.1 <+: p := by
  cases w with
  | overwrite path newData writeId visible => simp [containsPath, writes, FPath.contains_iff]
  | merge path children writeId =>
    rw [containsPath, writes, List.any_eq_true]
    simp only [FPath.contains_iff]
    constructor
    · rintro ⟨entry, hentry, h⟩
      exact ⟨_, List.mem_map_of_mem hentry, h⟩
    · rintro ⟨u, hu, h⟩
      obtain ⟨entry, hentry, rfl⟩ := List.mem_map.1 hu
      exact ⟨entry, hentry, h⟩

/-- The record writes at its path or at children of it, as `setValue:` does and as
`updateChildValues:` does for keys. -/
def Shallow (w : FWriteRecord κ) : Prop := ∀ u ∈ w.writes, u.1.length ≤ w.path.length + 1

theorem shallow_overwrite (path : List κ) (newData : FNode) (writeId : ℤ) (visible : Bool) :
    (overwrite path newData writeId visible).Shallow := by
  intro u hu
  obtain rfl := List.mem_singleton.1 hu
  exact Nat.le_succ _

/-- Records that write at their paths and at children see each other when one is removed. -/
theorem containsPath_or_contains (hw : w.Shallow) (hv : v.Shallow) {u u' : List κ × FNode}
    (hu : u ∈ w.writes) (hu' : u' ∈ v.writes) (h : Meets u'.1 u.1) :
    v.containsPath w.path = true ∨ FPath.contains w.path v.path = true := by
  have hlen := hw u hu
  have hlen' := hv u' hu'
  obtain ⟨s, hs⟩ := exists_path_of_mem_writes hu
  obtain ⟨s', hs'⟩ := exists_path_of_mem_writes hu'
  rw [hs, List.length_append] at hlen
  rw [hs', List.length_append] at hlen'
  rw [containsPath_iff, FPath.contains_iff]
  rcases h with h | h
  · rw [hs] at h
    rcases prefix_append_short h (by omega) with h | h
    · exact Or.inl ⟨u', hu', h⟩
    · have hmeets : w.path <+: v.path ++ s' := ⟨s, (hs'.symm.trans h).symm⟩
      rcases prefix_append_short hmeets (by omega) with hpath | hpath
      · exact Or.inr hpath
      · exact Or.inl ⟨u', hu', hs'.trans hpath.symm ▸ List.prefix_refl _⟩
  · have hmeets : w.path <+: v.path ++ s' := hs' ▸ (hs ▸ List.prefix_append w.path s).trans h
    rcases prefix_append_short hmeets (by omega) with hpath | hpath
    · exact Or.inr hpath
    · exact Or.inl ⟨u', hu', hs'.trans hpath.symm ▸ List.prefix_refl _⟩

/-- A merge strictly above the path. -/
def MergedAbove (root : List κ) : FWriteRecord κ → Prop
  | overwrite _ _ _ _ => False
  | merge path _ _ => path <+: root ∧ path ≠ root

theorem not_mergedAbove_nil (w : FWriteRecord κ) : ¬ w.MergedAbove [] := by
  cases w with
  | overwrite => exact id
  | merge path children writeId => exact fun h => h.2 (List.prefix_nil.1 h.1)

end FWriteRecord

namespace FWriteTree

open FWriteRecord FCompoundWrite

variable {self t t' : FWriteTree κ} {w : FWriteRecord κ} {W : FCompoundWrite κ}
  {f : Cover FNode κ} {root : List κ}

/-! ## Layers -/

/-- A record is layered as its writes, if it is not a merge above the root. -/
theorem cover_layerRecord (hW : W.cover = f.restrict root) (hw : ¬ w.MergedAbove root) :
    (layerRecord root W w).cover = (f.writeAll w.writes).restrict root := by
  cases w with
  | overwrite path newData writeId visible =>
    show (layerRecord root W _).cover = (f.write path newData).restrict root
    unfold layerRecord FPath.relativePathFrom
    simp only [FPath.contains_iff]
    split_ifs with hroot hpath
    · obtain ⟨s, rfl⟩ := hroot
      rw [List.drop_left, cover_addWrite, hW, Cover.restrict_write_append]
    · obtain ⟨s, rfl⟩ := hpath
      rw [List.drop_left, cover_addWrite, hW, Cover.restrict_write_within,
        getChild_texts]
    · rw [hW, Cover.restrict_write_of_not_meets (not_or.2 ⟨hpath, hroot⟩)]
  | merge path children writeId =>
    unfold layerRecord FPath.relativePathFrom
    simp only [FPath.contains_iff]
    split_ifs with hroot hpath hrelative
    · obtain ⟨s, rfl⟩ := hroot
      rw [List.drop_left, cover_addCompoundWrite, hW, ← Cover.restrict_writeAll_append, writes]
      simp only [List.map_map, Function.comp_def, List.append_assoc]
    · exact absurd ⟨hpath, fun e => hroot (e ▸ List.prefix_refl path)⟩ hw
    · exact absurd ⟨hpath, fun e => hroot (e ▸ List.prefix_refl path)⟩ hw
    · have hmeets : ¬ Meets path root := not_or.2 ⟨hpath, hroot⟩
      rw [hW, Cover.restrict_writeAll_of_not_meets]
      intro u hu
      obtain ⟨s, hs⟩ := exists_path_of_mem_writes hu
      exact hs ▸ meets_append hmeets

/-- A record that has nothing to do with the root is not layered. -/
theorem layerRecord_of_not_meets (h : ¬ Meets w.path root) : layerRecord root W w = W := by
  obtain ⟨hpath, hroot⟩ := not_or.1 h
  have hpath' := FPath.contains_iff.not.2 hpath
  have hroot' := FPath.contains_iff.not.2 hroot
  cases w with
  | overwrite path newData writeId visible => exact (if_neg hroot').trans (if_neg hpath')
  | merge path children writeId => exact (if_neg hroot').trans (if_neg hpath')

theorem cover_layerTreeFromWrites {ws : List (FWriteRecord κ)} {filter : FWriteRecord κ → Bool}
    (h : ∀ w ∈ ws, filter w = true → ¬ w.MergedAbove root) :
    (layerTreeFromWrites ws filter root).cover =
      (layer ((ws.filter filter).flatMap writes)).restrict root := by
  suffices hfold : ∀ (W : FCompoundWrite κ) (f : Cover FNode κ), W.cover = f.restrict root →
      (ws.foldl (fun W w => if filter w then layerRecord root W w else W) W).cover =
        (f.writeAll ((ws.filter filter).flatMap writes)).restrict root from
    hfold .emptyWrite (fun _ => none) cover_emptyWrite
  induction ws with
  | nil => exact fun W f hW => hW
  | cons w ws ih =>
    intro W f hW
    obtain ⟨hw, hws⟩ := List.forall_mem_cons.1 h
    rw [List.foldl_cons]
    by_cases hfilter : filter w = true
    · rw [if_pos hfilter, List.filter_cons_of_pos hfilter, List.flatMap_cons, Cover.writeAll_append]
      exact ih hws _ _ (cover_layerRecord hW (hw hfilter))
    · rw [if_neg hfilter, List.filter_cons_of_neg hfilter]
      exact ih hws W f hW

/-- The layer from the root of the tree on. -/
theorem cover_layerTreeFromWrites_nil (ws : List (FWriteRecord κ))
    (filter : FWriteRecord κ → Bool) :
    (layerTreeFromWrites ws filter []).cover = layer ((ws.filter filter).flatMap writes) :=
  cover_layerTreeFromWrites fun w _ _ => not_mergedAbove_nil w

/-- The layer at a path is what the layer from the root on has there. -/
theorem layerTreeFromWrites_eq_childCompoundWriteAtPath {ws : List (FWriteRecord κ)}
    {filter : FWriteRecord κ → Bool} (h : ∀ w ∈ ws, filter w = true → ¬ w.MergedAbove root) :
    layerTreeFromWrites ws filter root =
      (layerTreeFromWrites ws filter []).childCompoundWriteAtPath root := by
  apply ext_cover
  rw [cover_layerTreeFromWrites h, cover_childCompoundWriteAtPath, cover_layerTreeFromWrites_nil]

theorem layerTreeFromWrites_congr {ws : List (FWriteRecord κ)}
    {filter filter' : FWriteRecord κ → Bool}
    (h : ∀ w ∈ ws, filter w = filter' w) :
    layerTreeFromWrites ws filter root = layerTreeFromWrites ws filter' root := by
  unfold layerTreeFromWrites
  refine List.foldl_ext _ _ _ fun W w hw => ?_
  rw [h w hw]

theorem layerTreeFromWrites_related (ws : List (FWriteRecord κ)) (filter : FWriteRecord κ → Bool)
    (root : List κ) : layerTreeFromWrites ws
      (fun w => filter w && (FPath.contains w.path root || FPath.contains root w.path)) root =
        layerTreeFromWrites ws filter root := by
  unfold layerTreeFromWrites
  congr
  funext W w
  beta_reduce
  by_cases hmeets : Meets w.path root
  · have hrelated : (FPath.contains w.path root || FPath.contains root w.path) = true := by
      rw [Bool.or_eq_true, FPath.contains_iff, FPath.contains_iff]
      exact hmeets
    rw [hrelated, Bool.and_true]
  · rw [layerRecord_of_not_meets hmeets, ite_self, ite_self]

/-! ## What a removal does -/

section Removal

variable {index : ℕ} {l : List (FWriteRecord κ × ℕ)} {overlaps : Bool}

theorem removalLoop_false (w : FWriteRecord κ) (index : ℕ) (l : List (FWriteRecord κ × ℕ))
    (overlaps : Bool) : removalLoop w index l false overlaps = (false, overlaps) := by
  cases l <;> rfl

/-- The removed write stays visible unless a later visible write contains its path. -/
theorem removalLoop_fst_iff : (removalLoop w index l true overlaps).1 = true ↔
    ∀ entry ∈ l, entry.1.visible = true → index ≤ entry.2 →
      entry.1.containsPath w.path = false := by
  induction l generalizing overlaps with
  | nil => simp [removalLoop]
  | cons entry l ih =>
    obtain ⟨v, i⟩ := entry
    rw [List.forall_mem_cons, removalLoop, if_pos rfl]
    split_ifs with hvisible hshadowed hcontains
    · rw [removalLoop_false]
      refine iff_of_false Bool.false_ne_true fun h => ?_
      exact Bool.false_ne_true ((h.1 hvisible hshadowed.1).symm.trans hshadowed.2)
    · rw [ih]
      refine (and_iff_right fun _ hi => ?_).symm
      exact Bool.eq_false_iff.2 fun hpath => hshadowed ⟨hi, hpath⟩
    · rw [ih]
      refine (and_iff_right fun _ hi => ?_).symm
      exact Bool.eq_false_iff.2 fun hpath => hshadowed ⟨hi, hpath⟩
    · rw [ih]
      exact (and_iff_right fun h => absurd h hvisible).symm

/-- It overlaps with the visible writes at its path and below. -/
theorem removalLoop_snd_iff (h : (removalLoop w index l true overlaps).1 = true) :
    (removalLoop w index l true overlaps).2 = true ↔ overlaps = true ∨
      ∃ entry ∈ l, entry.1.visible = true ∧ FPath.contains w.path entry.1.path = true := by
  induction l generalizing overlaps with
  | nil => simp [removalLoop]
  | cons entry l ih =>
    obtain ⟨v, i⟩ := entry
    rw [List.exists_mem_cons_iff]
    rw [removalLoop, if_pos rfl] at h ⊢
    split_ifs at h ⊢ with hvisible hshadowed hcontains
    · rw [removalLoop_false] at h
      exact nomatch h
    · rw [ih h]
      simp [hvisible, hcontains]
    · rw [ih h]
      simp [hcontains]
    · rw [ih h]
      simp [hvisible]

/-- The loop runs over the writes before and after the removed one. -/
theorem removalLoop_zipIdx_fst_iff {before after : List (FWriteRecord κ)} :
    (removalLoop w before.length (before ++ after).zipIdx.reverse true overlaps).1 = true ↔
      ∀ v ∈ after, v.visible = true → v.containsPath w.path = false := by
  rw [removalLoop_fst_iff]
  simp only [List.mem_reverse, Prod.forall, List.mk_mem_zipIdx_iff_getElem?]
  constructor
  · intro h v hv hvisible
    obtain ⟨i, hi⟩ := List.mem_iff_getElem?.1 hv
    refine h v (before.length + i) ?_ hvisible (Nat.le_add_right _ _)
    rw [List.getElem?_append_right (Nat.le_add_right _ _), Nat.add_sub_cancel_left, hi]
  · intro h v i hv hvisible hi
    rw [List.getElem?_append_right hi] at hv
    exact h v (List.mem_of_getElem? hv) hvisible

theorem removalLoop_zipIdx_snd_iff {before after : List (FWriteRecord κ)}
    (h : (removalLoop w before.length (before ++ after).zipIdx.reverse true false).1 = true) :
    (removalLoop w before.length (before ++ after).zipIdx.reverse true false).2 = true ↔
      ∃ v ∈ before ++ after, v.visible = true ∧ FPath.contains w.path v.path = true := by
  rw [removalLoop_snd_iff h]
  simp only [List.mem_reverse, Prod.exists, List.mk_mem_zipIdx_iff_getElem?, Bool.false_eq_true,
    false_or]
  constructor
  · rintro ⟨v, i, hi, hv⟩
    exact ⟨v, List.mem_of_getElem? hi, hv⟩
  · rintro ⟨v, hv, h⟩
    obtain ⟨i, hi⟩ := List.mem_iff_getElem?.1 hv
    exact ⟨v, i, hi, h⟩

end Removal

/-- What the removal of `w` does, and what it returns, when the pending writes are `before`, `w` and
`after`. -/
inductive Removal (self : FWriteTree κ) (before : List (FWriteRecord κ)) (w : FWriteRecord κ)
    (after : List (FWriteRecord κ)) : Bool × FWriteTree κ → Prop
  | hidden (hw : w.visible = false) :
    Removal self before w after (false, { self with allWrites := before ++ after })
  | shadowed (hw : w.visible = true) {v : FWriteRecord κ} (hv : v ∈ after)
      (hvisible : v.visible = true) (hcontains : v.containsPath w.path = true) :
    Removal self before w after (false, { self with allWrites := before ++ after })
  | overlapping (hw : w.visible = true) {v : FWriteRecord κ} (hv : v ∈ before ++ after)
      (hvisible : v.visible = true) (hcontains : FPath.contains w.path v.path = true) :
    Removal self before w after
      (true, FWriteTree.resetTree { self with allWrites := before ++ after })
  | apart (hw : w.visible = true)
      (hshadow : ∀ v ∈ after, v.visible = true → v.containsPath w.path = false)
      (hoverlap : ∀ v ∈ before ++ after, v.visible = true → FPath.contains w.path v.path = false) :
    Removal self before w after
      (true,
        { self with
          allWrites := before ++ after
          visibleWrites := removeRecord self.visibleWrites w })

theorem removeWriteId_cases {writeId : ℤ} {result : Bool × FWriteTree κ}
    (h : self.removeWriteId writeId = some result) :
    ∃ before w after, self.allWrites = before ++ w :: after ∧ w.writeId = writeId ∧
      (∀ v ∈ before, v.writeId ≠ writeId) ∧ Removal self before w after result := by
  unfold removeWriteId at h
  obtain ⟨index, hindex, h⟩ := Option.bind_eq_some_iff.1 h
  obtain ⟨w, hw, h⟩ := Option.map_eq_some_iff.1 h
  obtain ⟨hlt, hid, hbefore⟩ := List.findIdx?_eq_some_iff_getElem.1 hindex
  obtain ⟨before, after, hall, hlen⟩ : ∃ before after, self.allWrites = before ++ w :: after ∧
      before.length = index := by
    refine ⟨self.allWrites.take index, self.allWrites.drop (index + 1), ?_, ?_⟩
    · obtain ⟨hlt, rfl⟩ := List.getElem?_eq_some_iff.1 hw
      rw [List.getElem_cons_drop, List.take_append_drop]
    · rw [List.length_take, min_eq_left hlt.le]
  subst hlen
  have herase : self.allWrites.eraseIdx before.length = before ++ after := by
    rw [hall, List.eraseIdx_append_of_length_le le_rfl, Nat.sub_self]
    rfl
  refine ⟨before, w, after, hall, ?_, ?_, ?_⟩
  · simpa [hall] using hid
  · intro v hv
    obtain ⟨i, hi, rfl⟩ := List.getElem_of_mem hv
    simpa [hall, List.getElem_append_left hi] using hbefore i hi
  simp only [herase] at h
  cases hvisible : w.visible with
  | false =>
    rw [hvisible, removalLoop_false] at h
    exact h ▸ .hidden hvisible
  | true =>
    rw [hvisible] at h
    have hfst : (removalLoop w before.length (before ++ after).zipIdx.reverse true false).1 = true ↔
        ∀ v ∈ after, v.visible = true → v.containsPath w.path = false :=
      removalLoop_zipIdx_fst_iff
    split_ifs at h with hflag hoverlap
    · rw [Bool.not_eq_true', ← Bool.not_eq_true, hfst] at hflag
      push Not at hflag
      obtain ⟨v, hv, hvis, hpath⟩ := hflag
      exact h ▸ .shadowed hvisible hv hvis (Bool.eq_true_of_not_eq_false hpath)
    · rw [Bool.not_eq_true', ← Bool.not_eq_true, not_not] at hflag
      obtain ⟨v, hv, hvis, hpath⟩ := (removalLoop_zipIdx_snd_iff hflag).1 hoverlap
      exact h ▸ .overlapping hvisible hv hvis hpath
    · rw [Bool.not_eq_true', ← Bool.not_eq_true, not_not] at hflag
      have hnone := (removalLoop_zipIdx_snd_iff hflag).not.1 hoverlap
      push Not at hnone
      refine h ▸ .apart hvisible (hfst.1 hflag) fun v hv hvis => ?_
      exact Bool.eq_false_iff.2 (hnone v hv hvis)

/-! ## The visible writes are the layer of the pending ones -/

/-- The pending writes are visible, their ids increase, and the visible writes are their layer. -/
structure Layered (t : FWriteTree κ) : Prop where
  visible : ∀ w ∈ t.allWrites, w.visible = true
  shallow : ∀ w ∈ t.allWrites, w.Shallow
  ids : t.allWrites.Pairwise fun v w => v.writeId < w.writeId
  last : ∀ w ∈ t.allWrites, w.writeId ≤ t.lastWriteId
  layered : t.visibleWrites = layerTreeFromWrites t.allWrites defaultFilter []

/-- The single writes that are pending. -/
def pendingWrites (t : FWriteTree κ) : List (List κ × FNode) := t.allWrites.flatMap writes

theorem cover_layer_defaultFilter (ws : List (FWriteRecord κ)) :
    (layerTreeFromWrites ws defaultFilter []).cover = layer (ws.flatMap writes) := by
  rw [cover_layerTreeFromWrites_nil]
  unfold defaultFilter
  rw [List.filter_true]

theorem Layered.cover (h : t.Layered) : t.visibleWrites.cover = layer t.pendingWrites := by
  rw [h.layered, cover_layer_defaultFilter]
  rfl

theorem layered_empty : ({} : FWriteTree κ).Layered where
  visible := by simp
  shallow := by simp
  ids := List.Pairwise.nil
  last := by simp
  layered := rfl

theorem Layered.concat (h : t.Layered) {W : FCompoundWrite κ} (hvisible : w.visible = true)
    (hw : w.Shallow) (hid : t.lastWriteId < w.writeId)
    (hW : W.cover = t.visibleWrites.cover.writeAll w.writes) :
    Layered ⟨W, t.allWrites ++ [w], w.writeId⟩ where
  visible v hv := by
    rcases List.mem_append.1 hv with hv | hv
    · exact h.visible v hv
    · rwa [List.mem_singleton.1 hv]
  shallow v hv := by
    rcases List.mem_append.1 hv with hv | hv
    · exact h.shallow v hv
    · rwa [List.mem_singleton.1 hv]
  ids := by
    refine List.pairwise_append.2 ⟨h.ids, List.pairwise_singleton _ _, fun v hv u hu => ?_⟩
    rw [List.mem_singleton.1 hu]
    exact (h.last v hv).trans_lt hid
  last v hv := by
    rcases List.mem_append.1 hv with hv | hv
    · exact ((h.last v hv).trans_lt hid).le
    · rw [List.mem_singleton.1 hv]
  layered := by
    apply ext_cover
    rw [cover_layer_defaultFilter, hW, h.cover, List.flatMap_append, List.flatMap_singleton,
      Cover.layer_append]
    rfl

theorem Layered.addOverwriteAtPath {path : List κ} {newData : FNode} {writeId : ℤ} (h : t.Layered)
    (hadd : t.addOverwriteAtPath path newData writeId true = some t') : t'.Layered := by
  unfold FWriteTree.addOverwriteAtPath at hadd
  rw [if_pos rfl] at hadd
  split_ifs at hadd with hid
  obtain rfl := Option.some.inj hadd
  exact h.concat (w := .overwrite path newData writeId true) rfl
    (shallow_overwrite path newData writeId true) hid (cover_addWrite ..)

theorem Layered.addMergeAtPath {path : List κ} {changedChildren : FCompoundWrite κ} {writeId : ℤ}
    (h : t.Layered) (hshallow : (merge path changedChildren writeId).Shallow)
    (hadd : t.addMergeAtPath path changedChildren writeId = some t') : t'.Layered := by
  unfold FWriteTree.addMergeAtPath at hadd
  split_ifs at hadd with hid
  obtain rfl := Option.some.inj hadd
  exact h.concat (w := .merge path changedChildren writeId) rfl hshallow hid
    (cover_addCompoundWrite ..)

/-! ### Removal -/

theorem pairwise_writes (w : FWriteRecord κ) : w.writes.Pairwise fun a b => ¬ Meets a.1 b.1 := by
  cases w with
  | overwrite => exact List.pairwise_singleton _ _
  | merge path children writeId =>
    refine List.pairwise_map.2 ((FImmutableTree.pairwise_forEach children.normal).imp ?_)
    intro a b hab hmeets
    exact hab (by simpa [Meets] using hmeets)

theorem eq_of_mem_writes_of_meets {u x : List κ × FNode} (hu : u ∈ w.writes) (hx : x ∈ w.writes)
    (h : Meets x.1 u.1) : x = u := by
  by_contra hne
  have hsymm : Std.Symm fun a b : List κ × FNode => ¬ Meets a.1 b.1 :=
    ⟨fun a b hab hba => hab hba.symm⟩
  exact (pairwise_writes w).forall hx hu hne h

/-- Where nothing is above the writes of the record. -/
theorem cover_removeRecord (h : ∀ u ∈ w.writes, ∀ q, q <+: u.1 → q ≠ u.1 → W.cover q = none) :
    (removeRecord W w).cover = W.cover.eraseAll (w.writes.map Prod.fst) := by
  cases w with
  | overwrite path newData writeId visible =>
    exact cover_removeWriteAtPath (h _ (List.mem_singleton_self _))
  | merge path children writeId =>
    rw [writes] at h ⊢
    rw [removeRecord]
    generalize children.writeTree.forEach = entries at h ⊢
    induction entries generalizing W with
    | nil =>
      funext q
      simp [Cover.eraseAll]
    | cons entry entries ih =>
      rw [List.map_cons, List.forall_mem_cons] at h
      obtain ⟨hentry, hentries⟩ := h
      have hcover := cover_removeWriteAtPath hentry
      rw [List.foldl_cons, ih, hcover, Cover.eraseAll_eraseAll]
      · rfl
      · intro u hu q hq hne
        rw [hcover, Cover.eraseAll, hentries u hu q hq hne, ite_self]

/-- When a write goes that meets no older pending one, the layer of the others stays. -/
theorem Layered.removal {before after : List (FWriteRecord κ)} {result : Bool × FWriteTree κ}
    (h : t.Layered) (hall : t.allWrites = before ++ w :: after)
    (hbefore : ∀ v ∈ before, ∀ u ∈ w.writes, ∀ u' ∈ v.writes, ¬ Meets u'.1 u.1)
    (hremoval : Removal t before w after result) :
    result.2.visibleWrites = layerTreeFromWrites (before ++ after) defaultFilter [] := by
  have hmem : ∀ v ∈ before ++ after, v ∈ t.allWrites := by
    intro v hv
    rw [hall]
    rcases List.mem_append.1 hv with hv | hv
    · exact List.mem_append_left _ hv
    · exact List.mem_append_right _ (List.mem_cons_of_mem w hv)
  have hmemw : w ∈ t.allWrites := hall ▸ List.mem_append_right _ List.mem_cons_self
  have hcover : t.visibleWrites.cover =
      layer (before.flatMap writes ++ w.writes ++ after.flatMap writes) := by
    rw [h.cover, pendingWrites, hall, List.flatMap_append, List.flatMap_cons, List.append_assoc]
  have hbefore' : ∀ u ∈ w.writes, ∀ x ∈ before.flatMap writes, ¬ Meets x.1 u.1 := by
    intro u hu x hx
    obtain ⟨v, hv, hx⟩ := List.mem_flatMap.1 hx
    exact hbefore v hv u hu x hx
  apply ext_cover
  rw [cover_layer_defaultFilter, List.flatMap_append]
  cases hremoval with
  | hidden hw => exact nomatch (h.visible w hmemw).symm.trans hw
  | @shadowed hw v hv hvisible hcontains =>
    obtain ⟨x, hx, hxw⟩ := containsPath_iff.1 hcontains
    show t.visibleWrites.cover = _
    rw [hcover]
    refine Cover.layer_of_shadowed (p := w.path) (fun u hu => ?_) hbefore'
      (List.mem_flatMap.2 ⟨v, hv, hx⟩) hxw
    obtain ⟨s, hs⟩ := exists_path_of_mem_writes hu
    exact hs ▸ List.prefix_append w.path s
  | overlapping =>
    show (layerTreeFromWrites (before ++ after) defaultFilter []).cover = _
    rw [cover_layer_defaultFilter, List.flatMap_append]
  | apart hw hshadow hoverlap =>
    have hothers : ∀ u ∈ w.writes, ∀ x ∈ before.flatMap writes ++ after.flatMap writes,
        ¬ Meets x.1 u.1 := by
      intro u hu x hx hmeets
      rcases List.mem_append.1 hx with hx | hx
      · exact hbefore' u hu x hx hmeets
      · obtain ⟨v, hv, hx⟩ := List.mem_flatMap.1 hx
        have hv' : v ∈ before ++ after := List.mem_append_right before hv
        have hvisible := h.visible v (hmem v hv')
        rcases containsPath_or_contains (h.shallow w hmemw) (h.shallow v (hmem v hv')) hu hx hmeets
          with hpath | hpath
        · exact nomatch (hshadow v hv hvisible).symm.trans hpath
        · exact nomatch (hoverlap v hv' hvisible).symm.trans hpath
    show (removeRecord t.visibleWrites w).cover = _
    rw [cover_removeRecord, hcover, Cover.eraseAll_layer hothers]
    intro u hu q hq hne
    rw [hcover]
    refine Cover.writeAll_eq_none_iff.2 ⟨rfl, fun x hx hxq => ?_⟩
    have hxu : Meets x.1 u.1 := Or.inl (hxq.trans hq)
    rw [List.mem_append, List.mem_append] at hx
    rcases hx with (hx | hx) | hx
    · exact hothers u hu x (List.mem_append_left _ hx) hxu
    · obtain rfl := eq_of_mem_writes_of_meets hu hx hxu
      exact hne (hq.eq_of_length_le hxq.length_le)
    · exact hothers u hu x (List.mem_append_right _ hx) hxu

theorem Removal.allWrites {before after : List (FWriteRecord κ)} {result : Bool × FWriteTree κ}
    (h : Removal t before w after result) : result.2.allWrites = before ++ after := by
  cases h <;> rfl

theorem last_of_resetTree (hids : t.allWrites.Pairwise fun v w => v.writeId < w.writeId) :
    ∀ v ∈ t.allWrites, v.writeId ≤ t.resetTree.lastWriteId := by
  intro v hv
  rcases List.eq_nil_or_concat' t.allWrites with hnil | ⟨ws, x, hws⟩
  · exact absurd (hnil ▸ hv) List.not_mem_nil
  · have hlast : t.resetTree.lastWriteId = x.writeId := by
      unfold resetTree
      rw [hws, List.getLast?_concat]
      rfl
    rw [hws] at hids hv
    rw [hlast]
    rcases List.mem_append.1 hv with hv | hv
    · exact ((List.pairwise_append.1 hids).2.2 v hv x (List.mem_singleton_self x)).le
    · rw [List.mem_singleton.1 hv]

/-! ## Runs -/

inductive WriteEvent (κ : Type*) [TreeKey κ]
  | addOverwrite (path : List κ) (newData : FNode) (writeId : ℤ) (visible : Bool)
  | addMerge (path : List κ) (changedChildren : FCompoundWrite κ) (writeId : ℤ)
  | remove (writeId : ℤ)

def step (self : FWriteTree κ) : WriteEvent κ → Option (FWriteTree κ)
  | .addOverwrite path newData writeId visible =>
    self.addOverwriteAtPath path newData writeId visible
  | .addMerge path changedChildren writeId => self.addMergeAtPath path changedChildren writeId
  | .remove writeId => (self.removeWriteId writeId).map Prod.snd

/-- The added writes are visible and shallow, and a write that is removed meets no older one that is
pending.  A client whose writes are answered in their order only removes the oldest one. -/
def Orderly (t : FWriteTree κ) : WriteEvent κ → Prop
  | .addOverwrite _ _ _ visible => visible = true
  | .addMerge path changedChildren writeId => (merge path changedChildren writeId).Shallow
  | .remove writeId => ∀ before w after, t.allWrites = before ++ w :: after → w.writeId = writeId →
    ∀ v ∈ before, ∀ u ∈ w.writes, ∀ u' ∈ v.writes, ¬ Meets u'.1 u.1

theorem Layered.removeWriteId {result : Bool × FWriteTree κ} {writeId : ℤ} (h : t.Layered)
    (horderly : t.Orderly (.remove writeId)) (hremove : t.removeWriteId writeId = some result) :
    result.2.Layered := by
  obtain ⟨before, w, after, hall, hid, -, hremoval⟩ := removeWriteId_cases hremove
  have hsub : List.Sublist (before ++ after) t.allWrites := by
    rw [hall]
    exact (List.Sublist.refl before).append (List.sublist_cons_self w after)
  have hall' := hremoval.allWrites
  refine ⟨?_, ?_, ?_, ?_, ?_⟩
  · rw [hall']
    exact fun v hv => h.visible v (hsub.subset hv)
  · rw [hall']
    exact fun v hv => h.shallow v (hsub.subset hv)
  · rw [hall']
    exact h.ids.sublist hsub
  · cases hremoval with
    | overlapping => exact last_of_resetTree (h.ids.sublist hsub)
    | _ => exact fun v hv => h.last v (hsub.subset hv)
  · rw [hall']
    exact h.removal hall (horderly before w after hall hid) hremoval

theorem Layered.step (e : WriteEvent κ) (h : t.Layered) (horderly : t.Orderly e)
    (hstep : t.step e = some t') : t'.Layered := by
  cases e with
  | addOverwrite path newData writeId visible =>
    obtain rfl : visible = true := horderly
    exact h.addOverwriteAtPath hstep
  | addMerge path changedChildren writeId => exact h.addMergeAtPath horderly hstep
  | remove writeId =>
    obtain ⟨result, hremove, rfl⟩ := Option.map_eq_some_iff.1 hstep
    exact h.removeWriteId horderly hremove

theorem layered_of_run {es : List (WriteEvent κ)} (hrun : Runs.run step {} es = some t)
    (horderly : Runs.Along step Orderly {} es) : t.Layered :=
  Runs.run_invariant_of_along (fun _ e _ h ho hstep => Layered.step e h ho hstep) layered_empty
    horderly hrun

/-- However the writes have been added and removed, the visible writes are those that are computed
from the pending writes from scratch. -/
theorem visibleWrites_of_run (es : List (WriteEvent κ)) (hrun : Runs.run step {} es = some t)
    (horderly : Runs.Along step Orderly {} es) :
    t.visibleWrites = layerTreeFromWrites t.allWrites defaultFilter [] :=
  (layered_of_run hrun horderly).layered

/-- A key of lower-case letters. -/
structure LetterKey where
  text : String
  nonempty : text ≠ ""
  lower : text.toList.all Char.isLower = true
  deriving DecidableEq

theorem LetterKey.distinctive (k : LetterKey) : Distinctive k.text := by
  obtain ⟨c, hc⟩ := List.exists_mem_of_ne_nil k.text.toList
    fun h => k.nonempty (String.toList_eq_nil_iff.1 h)
  have hlower := List.all_eq_true.1 k.lower c hc
  refine ⟨c, hc, ?_, ?_⟩ <;> rintro rfl <;> exact absurd hlower (by decide)

theorem LetterKey.ext_text {k k' : LetterKey} (h : k.text = k'.text) : k = k' := by
  cases k
  cases k'
  obtain rfl := h
  rfl

/-- On such texts `compare:` goes by the characters. -/
instance : TreeKey LetterKey where
  decEq := inferInstance
  text := LetterKey.text
  stringComparator k k' := compare (characters k.text) (characters k'.text)
  transCmp := inferInstanceAs (Std.TransCmp (compareOn fun k : LetterKey => characters k.text))
  eq_of_stringComparator h :=
    LetterKey.ext_text (characters_injective (Std.LawfulEqOrd.eq_of_compare h))
  eq_of_compareKey {k k'} h := LetterKey.ext_text ((k'.distinctive.compareKey_iff k.text).1 h)
  ne_priority k h := absurd (h ▸ k.lower) (by decide)

def farm : LetterKey := ⟨"farm", by decide, by decide⟩

def light : LetterKey := ⟨"light", by decide, by decide⟩

/-- A farm is written, one of its values is written, and the first write is answered. -/
def farmEvents : List (WriteEvent LetterKey) :=
  [.addOverwrite [farm] (.childrenNode [("light", .leafNode (.string "on"))]) 0 true,
    .addOverwrite [farm, light] (.leafNode (.string "off")) 1 true,
    .remove 0]

theorem orderly_farmEvents : Runs.Along step Orderly {} farmEvents := by
  refine ⟨rfl, fun t ht => ?_⟩
  obtain rfl := Option.some.inj ht
  refine ⟨rfl, fun t ht => ?_⟩
  obtain rfl := Option.some.inj ht
  refine ⟨?_, fun t ht => trivial⟩
  intro before w after hall hid
  cases before with
  | nil => simp
  | cons u before =>
    cases before with
    | nil =>
      obtain rfl := (List.cons.inj (List.cons.inj hall).2).1
      exact nomatch hid
    | cons u before => simp at hall

theorem visibleWrites_of_run_farmEvents : ∃ t, Runs.run step {} farmEvents = some t ∧
    t.visibleWrites = layerTreeFromWrites t.allWrites defaultFilter [] :=
  ⟨_, rfl, visibleWrites_of_run farmEvents rfl orderly_farmEvents⟩

/-! ## What the pending writes make of the server's tree -/

theorem calculateCompleteEventCacheAtPath_eq (t : FWriteTree κ) (p : List κ) (n : FNode) :
    t.calculateCompleteEventCacheAtPath p (some n) none false =
      some ((t.visibleWrites.childCompoundWriteAtPath p).applyToNode n) := by
  unfold calculateCompleteEventCacheAtPath
  rw [if_pos ⟨rfl, rfl⟩, completeNodeAtPath_eq_cover]
  cases h : t.visibleWrites.cover p with
  | some c =>
    have hc : (t.visibleWrites.childCompoundWriteAtPath p).cover [] = some c := by
      rw [cover_childCompoundWriteAtPath, Cover.restrict, List.append_nil, h]
    rw [applyToNode_of_cover_nil hc]
  | none =>
    by_cases hempty : (t.visibleWrites.childCompoundWriteAtPath p).isEmpty = true
    · rw [isEmpty_iff_eq_emptyWrite] at hempty
      simp [hempty]
    · simp [hempty]

/-- The tree that is shown at a path is the subtree of the tree that is shown at the root. -/
theorem calculateCompleteEventCacheAtPath_getChild (t : FWriteTree κ) (n : FNode) (p : List κ) :
    t.calculateCompleteEventCacheAtPath p (some (n.getChild (texts p))) none false =
      (t.calculateCompleteEventCacheAtPath [] (some n) none false).map (·.getChild (texts p)) := by
  rw [calculateCompleteEventCacheAtPath_eq, calculateCompleteEventCacheAtPath_eq, Option.map_some,
    childCompoundWriteAtPath_nil, getChild_applyToNode]

/-- What is computed from the pending writes that are not excluded. -/
theorem Layered.calculate_excluding {p : List κ} (h : t.Layered)
    (hp : ∀ w ∈ t.allWrites, ¬ w.MergedAbove p) (ids : List ℤ) (n : FNode) :
    t.calculateCompleteEventCacheAtPath p (some n) (some ids) false =
      some ((layerTreeFromWrites t.allWrites (fun w => w.writeId ∉ ids) p).applyToNode n) := by
  have hroot : ∀ w ∈ t.allWrites, decide (w.writeId ∉ ids) = true → ¬ w.MergedAbove p :=
    fun w hw _ => hp w hw
  unfold calculateCompleteEventCacheAtPath
  rw [if_neg (by simp)]
  by_cases hempty : (t.visibleWrites.childCompoundWriteAtPath p).isEmpty = true
  · have hnone : layerTreeFromWrites t.allWrites (fun w => w.writeId ∉ ids) p = emptyWrite := by
      rw [isEmpty_iff_eq_emptyWrite, eq_emptyWrite_iff, cover_childCompoundWriteAtPath,
        h.cover] at hempty
      rw [eq_emptyWrite_iff, cover_layerTreeFromWrites hroot]
      intro q
      refine Cover.writeAll_eq_none_iff.2 ⟨rfl, fun u hu => ?_⟩
      obtain ⟨w, hw, hu⟩ := List.mem_flatMap.1 hu
      have hpending := (Cover.writeAll_eq_none_iff.1 (hempty q)).2
      exact hpending u (List.mem_flatMap.2 ⟨w, List.mem_of_mem_filter hw, hu⟩)
    simp only [hempty, hnone, applyToNode_emptyWrite, Bool.not_false, Bool.true_and, if_true]
  · have hfilter : layerTreeFromWrites t.allWrites
        (fun w => (w.visible || false) && ((some ids).all fun ids => w.writeId ∉ ids) &&
          (FPath.contains w.path p || FPath.contains p w.path)) p =
        layerTreeFromWrites t.allWrites (fun w => w.writeId ∉ ids) p := by
      rw [← layerTreeFromWrites_related t.allWrites (fun w => w.writeId ∉ ids) p]
      refine layerTreeFromWrites_congr fun w hw => ?_
      rw [h.visible w hw]
      rfl
    simp only [hempty, hfilter]
    simp

/-- What is shown at a path with some writes excluded is what is shown when these writes are not
there: they have been removed, or have never been made. -/
theorem calculate_excluding_eq (es es' : List (WriteEvent κ)) {p : List κ} {ids : List ℤ}
    (hrun : Runs.run step {} es = some t) (horderly : Runs.Along step Orderly {} es)
    (hrun' : Runs.run step {} es' = some t') (horderly' : Runs.Along step Orderly {} es')
    (hall : t'.allWrites = t.allWrites.filter fun w => w.writeId ∉ ids)
    (hp : ∀ w ∈ t.allWrites, ¬ w.MergedAbove p) (n : FNode) :
    t.calculateCompleteEventCacheAtPath p (some n) (some ids) false =
      t'.calculateCompleteEventCacheAtPath p (some n) none false := by
  have ht' := layered_of_run hrun' horderly'
  rw [(layered_of_run hrun horderly).calculate_excluding hp, calculateCompleteEventCacheAtPath_eq]
  congr 2
  apply ext_cover
  rw [cover_layerTreeFromWrites fun w hw _ => hp w hw, cover_childCompoundWriteAtPath, ht'.cover,
    pendingWrites, hall]

/-- The write of the farm can be left out before it has been answered. -/
theorem calculate_excluding_eq_farmEvents : ∃ t t',
    Runs.run step {} (farmEvents.take 2) = some t ∧ Runs.run step {} farmEvents = some t' ∧
    t.calculateCompleteEventCacheAtPath [farm] (some .emptyNode) (some [0]) false =
      t'.calculateCompleteEventCacheAtPath [farm] (some .emptyNode) none false := by
  have horderly : Runs.Along step Orderly {} (farmEvents.take 2 ++ farmEvents.drop 2) :=
    orderly_farmEvents
  refine ⟨_, _, rfl, rfl, calculate_excluding_eq (farmEvents.take 2) farmEvents rfl
    (Runs.along_append.1 horderly).1 rfl orderly_farmEvents rfl (fun w hw => ?_) .emptyNode⟩
  rcases List.mem_cons.1 hw with rfl | hw
  · exact id
  · obtain rfl := List.mem_singleton.1 hw
    exact id

theorem Layered.orderly_remove_oldest {ws : List (FWriteRecord κ)} (h : t.Layered)
    (hall : t.allWrites = w :: ws) : t.Orderly (.remove w.writeId) := by
  intro before v after hall' hid
  cases before with
  | nil => simp
  | cons u before =>
    have hids := h.ids
    rw [hall'] at hids
    obtain rfl : w = u := (List.cons.inj (hall.symm.trans hall')).1
    have hlt := (List.pairwise_cons.1 hids).1 v (List.mem_append_right _ List.mem_cons_self)
    omega

end FWriteTree

end IndoorFarm
