import IndoorFarm.DataModel
import IndoorFarm.Lib.Runs
import Mathlib.Logic.Function.Basic

/-!
# The plant store

The plants of a user are meant to be a map from names to settings: Create binds one name, Delete
unbinds one.  `storedMap` reads this map off the node `users/<uid>`, `PlantCall.apply` is the meant
effect of a call, and `MapLaw` says that a call has it.

The name is spliced into a path, so the law depends on its text.  A name without a slash is one key
and obeys the law as long as the order of the keys does not take it for another plant.  A Create
whose name has a slash never does, and a Delete does only when nothing is stored at the path the
name spells (`mapLaw_of_onePlant`, `onePlant_of_mapLaw`).
-/

namespace IndoorFarm

open DataModel

/-- The four fields of a plant record. -/
structure PlantSettings where
  growLightMaxtimer : ℤ
  growLightMaxsleep : ℤ
  growLightMaxtemp : ℤ
  plantTrait : String
  deriving DecidableEq

namespace PlantSettings

/-- The node `write_plant_settings_firebaseDB` stores for these settings. -/
def node (settings : PlantSettings) : FNode :=
  plantNode settings.growLightMaxtimer settings.growLightMaxsleep settings.growLightMaxtemp
    settings.plantTrait

/-- The settings a node records, when it is a complete record. -/
def ofNode (n : FNode) : Option PlantSettings := do
  let timer ← (n.getImmediateChild "Grow_Light_Maxtimer").val.asInt
  let sleep ← (n.getImmediateChild "Grow_Light_Maxsleep").val.asInt
  let temp ← (n.getImmediateChild "Grow_Light_Maxtemp").val.asInt
  let trait ← (n.getImmediateChild "Plant_Trait").val.asString
  return ⟨timer, sleep, temp, trait⟩

@[simp] theorem ofNode_node (settings : PlantSettings) : ofNode settings.node = some settings := rfl

@[simp] theorem ofNode_emptyNode : ofNode FNode.emptyNode = none := rfl

theorem isEmpty_node (settings : PlantSettings) : settings.node.isEmpty = false := rfl

theorem wellFormed_node (settings : PlantSettings) : settings.node.WellFormed := by
  refine .childrenNode _ ?_ ?_ ?_ ?_
  · simp only [SortedEntries.Sorted, List.pairwise_cons, List.forall_mem_cons]
    decide
  · simp only [List.forall_mem_cons]
    decide
  · simp [FNode.emptyNode]
  · simp only [List.forall_mem_cons]
    exact ⟨.leafNode _, .leafNode _, .leafNode _, .leafNode _, by simp⟩

end PlantSettings

/-! ## The map a user's node stores -/

/-- The node of a user's plants. -/
def plantsOf (user : Uid) (db : FNode) : FNode := db.getChild (userPath user)

/-- The settings stored under each name. -/
def storedMap (plants : FNode) (name : String) : Option PlantSettings :=
  PlantSettings.ofNode (plants.namedChild name)

/-- The node is empty or a map, and everything in it is a complete record. -/
structure StoreOk (plants : FNode) : Prop where
  map : ∀ value, plants ≠ .leafNode value
  complete : ∀ name, plants.namedChild name ≠ FNode.emptyNode → (storedMap plants name).isSome

/-- The text of a plant name that the guards of Create and Delete let through and on which
`child(_:)` does not raise. -/
structure PlantName where
  text : String
  guard : text ≠ "Plant Select"
  valid : isValidPathString text = true

/-- The keys a name adds to the path of the user. -/
def PlantName.pieces (name : PlantName) : FPath := pathPieces name.text

/-- The calls the Create and Delete buttons make. -/
inductive PlantCall where
  | create (name : PlantName) (settings : PlantSettings)
  | delete (name : PlantName)

namespace PlantCall

def name : PlantCall → PlantName
  | create name _ => name
  | delete name => name

/-- The library does not raise on what the call writes. -/
def Accepted : PlantCall → Prop
  | create _ settings => (LeafValue.string settings.plantTrait).ShortEnough
  | delete _ => True

/-- The node written at the path of the name. -/
def written : PlantCall → FNode
  | create _ settings => settings.node
  | delete _ => FNode.emptyNode

/-- What the call does to the tree, with `user` signed in. -/
def perform (user : Uid) (db : FNode) : PlantCall → Option FNode
  | create name settings =>
    writePlantSettingsFirebaseDB (some user) name.text settings.growLightMaxtimer
      settings.growLightMaxsleep settings.growLightMaxtemp settings.plantTrait db
  | delete name => deletePlantSettingsFirebaseDB (some user) name.text db

/-- What the call is meant to do to the map. -/
def apply (map : String → Option PlantSettings) : PlantCall → String → Option PlantSettings
  | create name settings => Function.update map name.text (some settings)
  | delete name => Function.update map name.text none

theorem perform_eq (user : Uid) (db : FNode) {call : PlantCall} (h : call.Accepted) :
    call.perform user db =
      some (db.updateChild (userPath user ++ call.name.pieces) call.written) := by
  cases call with
  | create name settings => exact writePlantSettingsFirebaseDB_eq user name.valid _ _ _ h db
  | delete name => exact deletePlantSettingsFirebaseDB_eq user name.valid db

theorem perform_eq_some_iff {user : Uid} {db db' : FNode} {call : PlantCall} :
    call.perform user db = some db' ↔ call.Accepted ∧
      db.updateChild (userPath user ++ call.name.pieces) call.written = db' := by
  by_cases h : call.Accepted
  · rw [perform_eq user db h, Option.some.injEq, and_iff_right h]
  · refine iff_of_false (fun hdb => ?_) fun hdb => h hdb.1
    cases call with
    | create name settings =>
      rw [perform, writePlantSettingsFirebaseDB_eq_none user _ _ _ fun hc => h hc.2] at hdb
      contradiction
    | delete name => exact h trivial

theorem apply_eq (map : String → Option PlantSettings) (call : PlantCall) :
    call.apply map = Function.update map call.name.text (PlantSettings.ofNode call.written) := by
  cases call <;> rfl

theorem wellFormed_written (call : PlantCall) : call.written.WellFormed := by
  cases call with
  | create name settings => exact settings.wellFormed_node
  | delete name => exact FNode.wellFormed_emptyNode

theorem isValidKey_of_mem_pieces (call : PlantCall) : ∀ k ∈ call.name.pieces, isValidKey k = true :=
  fun _ => isValidKey_of_mem_pathPieces call.name.valid

theorem wellFormed_perform {user : Uid} {db db' : FNode} {call : PlantCall} (h : db.WellFormed)
    (hdb : call.perform user db = some db') : db'.WellFormed := by
  obtain ⟨-, rfl⟩ := perform_eq_some_iff.1 hdb
  refine h.updateChild call.wellFormed_written fun k hk => ?_
  rcases List.mem_append.1 hk with hk | hk
  · rw [userPath, List.mem_cons, List.mem_singleton] at hk
    rcases hk with rfl | rfl
    exacts [by decide, user.valid]
  · exact call.isValidKey_of_mem_pieces k hk

/-- A call is seen from the user's node as a write at the pieces of the name. -/
theorem plantsOf_perform {user : Uid} {db db' : FNode} {call : PlantCall}
    (hdb : call.perform user db = some db') :
    plantsOf user db' = (plantsOf user db).updateChild call.name.pieces call.written := by
  obtain ⟨-, rfl⟩ := perform_eq_some_iff.1 hdb
  exact FNode.getChild_updateChild_above ..

end PlantCall

/-- The call returns and has exactly the meant effect: it binds or unbinds its own name, every other
child stays as it was, and the node is still a map of complete records. -/
def MapLaw (user : Uid) (db : FNode) (call : PlantCall) : Prop :=
  ∃ db', call.perform user db = some db' ∧
    storedMap (plantsOf user db') = call.apply (storedMap (plantsOf user db)) ∧
    (∀ name ≠ call.name.text,
      (plantsOf user db').namedChild name = (plantsOf user db).namedChild name) ∧
    StoreOk (plantsOf user db')

/-- A Create has a name without a slash and a trait that is not too long; the name of a Delete has
no slash, or nothing is stored at the path it spells. -/
def OnePlant (user : Uid) (db : FNode) : PlantCall → Prop
  | .create name settings =>
    '/' ∉ name.text.toList ∧ (LeafValue.string settings.plantTrait).ShortEnough
  | .delete name =>
    '/' ∉ name.text.toList ∨ (plantsOf user db).getChild name.pieces = FNode.emptyNode

/-- On the path the name spells, the order of the keys takes no other stored name for the next
key. -/
def ToldApart (user : Uid) (db : FNode) (call : PlantCall) : Prop :=
  (plantsOf user db).SeparatesPath call.name.pieces

/-! ## Which calls obey the law -/

/-- A key under which a child is stored is told apart from the other keys. -/
theorem separates_of_mem_keys {plants : FNode} (h : plants.WellFormed) {name : String}
    (hname : name ∈ plants.keys) : plants.Separates name := by
  cases h with
  | leafNode value => exact absurd hname List.not_mem_nil
  | childrenNode cs sorted key nonempty child =>
    intro other hother heq
    obtain ⟨entry, hentry, rfl⟩ := List.mem_map.1 hname
    obtain ⟨entry', hentry', rfl⟩ := List.mem_map.1 hother
    rw [sorted.eq_of_mem hentry hentry' heq]

theorem namedChild_ne_of_mem_keys {plants : FNode} (h : plants.WellFormed) {name : String}
    (hname : name ∈ plants.keys) : plants.namedChild name ≠ FNode.emptyNode := by
  cases h with
  | leafNode value => exact absurd hname List.not_mem_nil
  | childrenNode cs sorted key nonempty child =>
    obtain ⟨entry, hentry, rfl⟩ := List.mem_map.1 hname
    have hfound : cs.lookup entry.1 = some entry.2 :=
      (FNode.lookup_eq_some_iff_mem (FNode.nodup_keys_of_sorted sorted)).2 hentry
    rw [FNode.namedChild, hfound, Option.getD_some]
    exact nonempty entry hentry

/-- A key that finds a child is taken for its name. -/
theorem exists_mem_keys_of_child {plants : FNode} {key : String}
    (h : plants.getImmediateChild key ≠ FNode.emptyNode) :
    ∃ name ∈ plants.keys, compareKey key name = .eq := by
  cases plants with
  | leafNode value => exact absurd rfl h
  | childrenNode cs =>
    rw [FNode.getImmediateChild] at h
    cases hc : FNode.objectForKey cs key with
    | none => simp [hc] at h
    | some c =>
      obtain ⟨name, hname, hmem⟩ := FNode.mem_of_objectForKey hc
      exact ⟨name, List.mem_map_of_mem hmem, hname⟩

/-- What a key finds is determined by the named children. -/
theorem getImmediateChild_eq_of_namedChild {plants plants' : FNode} (h : plants.WellFormed)
    (h' : plants'.WellFormed) {key : String}
    (hkey : plants.getImmediateChild key ≠ FNode.emptyNode)
    (hsame : ∀ name ∈ plants.keys, plants'.namedChild name = plants.namedChild name) :
    plants'.getImmediateChild key = plants.getImmediateChild key := by
  obtain ⟨name, hname, heq⟩ := exists_mem_keys_of_child hkey
  have hne := namedChild_ne_of_mem_keys h hname
  rw [← hsame name hname] at hne
  have hname' := FNode.mem_keys_of_namedChild hne
  rw [FNode.getImmediateChild_congr _ heq, FNode.getImmediateChild_congr _ heq,
    ← (separates_of_mem_keys h hname).namedChild_eq,
    ← (separates_of_mem_keys h' hname').namedChild_eq, hsame name hname]

/-- An empty tree is the only map without children. -/
theorem eq_emptyNode_of_keys {plants : FNode} (hmap : ∀ value, plants ≠ .leafNode value)
    (hkeys : plants.keys = []) : plants = FNode.emptyNode := by
  cases plants with
  | leafNode value => exact absurd rfl (hmap value)
  | childrenNode cs =>
    obtain rfl : cs = [] := List.map_eq_nil_iff.1 hkeys
    rfl

/-- A write of one child of a map leaves a map. -/
theorem updateImmediateChild_ne_leafNode {plants : FNode} (hmap : ∀ value, plants ≠ .leafNode value)
    (key : String) (c : FNode) (value : LeafValue) :
    plants.updateImmediateChild key c ≠ .leafNode value := by
  cases plants with
  | leafNode v => exact absurd rfl (hmap v)
  | childrenNode cs =>
    rw [FNode.updateImmediateChild_childrenNode]
    exact FNode.noConfusion

section Law

variable {user : Uid} {db : FNode} {name : PlantName} {call : PlantCall}

theorem PlantName.pieces_of_not_slash (h : '/' ∉ name.text.toList) : name.pieces = [name.text] :=
  pathPieces_of_isValidKey ((isValidKey_iff_isValidPathString _).2 ⟨name.valid, h⟩)

theorem toldApart_iff_separates (h : '/' ∉ call.name.text.toList) :
    ToldApart user db call ↔ (plantsOf user db).Separates call.name.text := by
  rw [ToldApart, PlantName.pieces_of_not_slash h]
  exact and_iff_left trivial

/-- Nothing can be stored under a name with a slash. -/
theorem namedChild_eq_emptyNode_of_slash (hwf : db.WellFormed) (h : '/' ∈ name.text.toList) :
    (plantsOf user db).namedChild name.text = FNode.emptyNode := by
  by_contra hne
  have hkey := (hwf.getChild _).isValidKey_of_mem_keys (FNode.mem_keys_of_namedChild hne)
  exact ((isValidKey_iff_isValidPathString _).1 hkey).2 h

/-- A call whose name is a key writes one child of the user's node. -/
theorem plantsOf_perform_of_not_slash (h : '/' ∉ call.name.text.toList) {db' : FNode}
    (hdb : call.perform user db = some db') :
    plantsOf user db' = (plantsOf user db).updateImmediateChild call.name.text call.written := by
  rw [PlantCall.plantsOf_perform hdb, PlantName.pieces_of_not_slash h, FNode.updateChild_singleton]

theorem mapLaw_of_not_slash (hstore : StoreOk (plantsOf user db)) (haccepted : call.Accepted)
    (h : '/' ∉ call.name.text.toList) (hsep : ToldApart user db call) : MapLaw user db call := by
  have hsep := (toldApart_iff_separates h).1 hsep
  obtain ⟨db', hdb⟩ : ∃ db', call.perform user db = some db' :=
    ⟨_, PlantCall.perform_eq user db haccepted⟩
  have hplants := plantsOf_perform_of_not_slash h hdb
  have hchild : ∀ key, (plantsOf user db').namedChild key =
      if key = call.name.text then call.written else (plantsOf user db).namedChild key :=
    fun key => by rw [hplants, hsep.namedChild_updateImmediateChild]
  have hother : ∀ key ≠ call.name.text,
      (plantsOf user db').namedChild key = (plantsOf user db).namedChild key :=
    fun key hkey => by rw [hchild, if_neg hkey]
  refine ⟨db', hdb, ?_, hother, fun value => ?_, fun key hkey => ?_⟩
  · funext key
    rw [PlantCall.apply_eq, Function.update_apply]
    split_ifs with hn
    · rw [storedMap, hchild, if_pos hn]
    · rw [storedMap, hother key hn, storedMap]
  · rw [hplants]
    exact updateImmediateChild_ne_leafNode hstore.map _ _ value
  · by_cases hn : key = call.name.text
    · rw [storedMap, hchild, if_pos hn]
      rw [hchild, if_pos hn] at hkey
      cases call with
      | create name settings => rfl
      | delete name => exact absurd rfl hkey
    · rw [hother key hn] at hkey
      rw [storedMap, hother key hn]
      exact hstore.complete key hkey

theorem mapLaw_delete_of_nothing_stored (hwf : db.WellFormed) (hstore : StoreOk (plantsOf user db))
    (hslash : '/' ∈ name.text.toList)
    (h : (plantsOf user db).getChild name.pieces = FNode.emptyNode)
    (hsep : ToldApart user db (.delete name)) : MapLaw user db (.delete name) := by
  obtain ⟨db', hdb⟩ : ∃ db', (PlantCall.delete name).perform user db = some db' :=
    ⟨_, PlantCall.perform_eq user db trivial⟩
  have hplants : plantsOf user db' = plantsOf user db := by
    rw [PlantCall.plantsOf_perform hdb]
    exact (hwf.getChild _).updateChild_emptyNode hsep h
  have hnone : storedMap (plantsOf user db) name.text = none := by
    rw [storedMap, namedChild_eq_emptyNode_of_slash hwf hslash, PlantSettings.ofNode_emptyNode]
  refine ⟨db', hdb, ?_⟩
  rw [hplants, PlantCall.apply, ← hnone, Function.update_eq_self]
  exact ⟨rfl, fun _ _ => rfl, hstore⟩

/-- A call that reaches one plant, told apart from the others, obeys the law. -/
theorem mapLaw_of_onePlant (hwf : db.WellFormed) (hstore : StoreOk (plantsOf user db))
    (hone : OnePlant user db call) (hsep : ToldApart user db call) : MapLaw user db call := by
  cases call with
  | create name settings => exact mapLaw_of_not_slash hstore hone.2 hone.1 hsep
  | delete name =>
    by_cases hslash : '/' ∈ name.text.toList
    · exact mapLaw_delete_of_nothing_stored hwf hstore hslash
        (hone.resolve_left (not_not_intro hslash)) hsep
    · exact mapLaw_of_not_slash hstore trivial hslash hsep

/-! ### What the law needs -/

/-- A Create that obeys the law has a name without a slash: the law binds the name. -/
theorem not_slash_of_mapLaw_create (hwf : db.WellFormed) {settings : PlantSettings}
    (h : MapLaw user db (.create name settings)) : '/' ∉ name.text.toList := by
  intro hslash
  obtain ⟨db', hdb, hmap, -⟩ := h
  have hbound : storedMap (plantsOf user db') name.text = some settings := by
    rw [hmap, PlantCall.apply, Function.update_self]
  rw [storedMap, namedChild_eq_emptyNode_of_slash (PlantCall.wellFormed_perform hwf hdb) hslash,
    PlantSettings.ofNode_emptyNode] at hbound
  contradiction

/-- A Delete of a name with a slash that obeys the law has nothing to delete. -/
theorem getChild_pieces_of_mapLaw_delete (hwf : db.WellFormed) (hstore : StoreOk (plantsOf user db))
    (hslash : '/' ∈ name.text.toList) (h : MapLaw user db (.delete name)) :
    (plantsOf user db).getChild name.pieces = FNode.emptyNode := by
  obtain ⟨db', hdb, -, hother, -⟩ := h
  have hplants := PlantCall.plantsOf_perform hdb
  simp only [PlantCall.name, PlantCall.written] at hplants
  have hwf' : (plantsOf user db').WellFormed := (PlantCall.wellFormed_perform hwf hdb).getChild _
  have hwf₀ : (plantsOf user db).WellFormed := hwf.getChild _
  -- no child changes: the name itself, having a slash, is no key before or after the call
  have hsame : ∀ key,
      (plantsOf user db').namedChild key = (plantsOf user db).namedChild key := by
    intro key
    by_cases hn : key = name.text
    · rw [hn, namedChild_eq_emptyNode_of_slash (PlantCall.wellFormed_perform hwf hdb) hslash,
        namedChild_eq_emptyNode_of_slash hwf hslash]
    · exact hother key hn
  cases hpieces : name.pieces with
  | nil =>
    rw [FNode.getChild_nil]
    refine eq_emptyNode_of_keys hstore.map (List.eq_nil_iff_forall_not_mem.2 fun key hkey => ?_)
    refine namedChild_ne_of_mem_keys hwf₀ hkey ?_
    rw [← hsame, hplants, hpieces]
    rfl
  | cons key path =>
    have hempty : ((plantsOf user db').getImmediateChild key).getChild path = FNode.emptyNode := by
      rw [← FNode.getChild_cons, hplants, hpieces, FNode.getChild_updateChild_self]
    rw [FNode.getChild_cons]
    by_cases hkey : (plantsOf user db).getImmediateChild key = FNode.emptyNode
    · rw [hkey, FNode.getChild_eq_get]
      exact PathLens.get_empty (N := FNode) path
    · rwa [← getImmediateChild_eq_of_namedChild hwf₀ hwf' hkey fun name _ => hsame name]

/-- A call that obeys the law and whose name has no slash has a name that is told apart from the
other plants: the law keeps these and, for a Create, binds the name beside them. -/
theorem toldApart_of_mapLaw (hwf : db.WellFormed) (hslash : '/' ∉ call.name.text.toList)
    (h : MapLaw user db call) : ToldApart user db call := by
  obtain ⟨db', hdb, hmap, hother, -⟩ := h
  have hwf₀ : (plantsOf user db).WellFormed := hwf.getChild _
  have hwf' : (plantsOf user db').WellFormed := (PlantCall.wellFormed_perform hwf hdb).getChild _
  refine (toldApart_iff_separates hslash).2 fun other hmem heq => ?_
  by_contra hne
  have hkept := hother other hne
  have hother' : (plantsOf user db').namedChild other ≠ FNode.emptyNode := by
    rw [hkept]
    exact namedChild_ne_of_mem_keys hwf₀ hmem
  have hmem' := FNode.mem_keys_of_namedChild hother'
  have hsep' := separates_of_mem_keys hwf' hmem'
  cases call with
  | create name settings =>
    have hbound : storedMap (plantsOf user db') name.text = some settings := by
      rw [hmap, PlantCall.apply, Function.update_self]
    have hname : (plantsOf user db').namedChild name.text ≠ FNode.emptyNode := fun e => by
      rw [storedMap, e, PlantSettings.ofNode_emptyNode] at hbound
      contradiction
    exact hne (hsep' _ (FNode.mem_keys_of_namedChild hname) (Std.OrientedCmp.eq_symm heq)).symm
  | delete name =>
    refine hother' ?_
    rw [hsep'.namedChild_eq, ← FNode.getImmediateChild_congr _ heq,
      plantsOf_perform_of_not_slash hslash hdb, FNode.getImmediateChild_updateImmediateChild,
      if_pos Std.ReflCmp.compare_self]
    rfl

/-- A call that obeys the law reaches one plant. -/
theorem onePlant_of_mapLaw (hwf : db.WellFormed) (hstore : StoreOk (plantsOf user db))
    (h : MapLaw user db call) : OnePlant user db call := by
  cases call with
  | create name settings =>
    obtain ⟨db', hdb, -⟩ := id h
    exact ⟨not_slash_of_mapLaw_create hwf h, (PlantCall.perform_eq_some_iff.1 hdb).1⟩
  | delete name =>
    by_cases hslash : '/' ∈ name.text.toList
    · exact Or.inr (getChild_pieces_of_mapLaw_delete hwf hstore hslash h)
    · exact Or.inl hslash

end Law

/-! ## Runs -/

/-- One call, as a step of the tree. -/
def plantStep (user : Uid) (db : FNode) (call : PlantCall) : Option FNode := call.perform user db

/-- The tree is well formed and the user's node a map of complete records, after every call that
obeys the law. -/
theorem storeOk_of_mapLaw {user : Uid} {root root' : FNode} {call : PlantCall}
    (hwf : root.WellFormed) (hlaw : MapLaw user root call)
    (hroot : plantStep user root call = some root') :
    root'.WellFormed ∧ StoreOk (plantsOf user root') := by
  obtain ⟨db', hdb, -, -, hstore⟩ := hlaw
  obtain rfl := Option.some.inj (hdb.symm.trans hroot)
  exact ⟨PlantCall.wellFormed_perform hwf hdb, hstore⟩

/-- The plants of a user behave as a map along a run whose calls each reach one plant, told apart
from the others; and along a run in which they do, each call reaches one plant, told apart from the
others where its name has no slash. -/
theorem plant_store_is_map (user : Uid) (db : Database) (calls : List PlantCall)
    (hstore : StoreOk (plantsOf user db.root)) :
    (Runs.Along (plantStep user) (fun db call => OnePlant user db call ∧ ToldApart user db call)
        db.root calls → Runs.Along (plantStep user) (MapLaw user) db.root calls) ∧
      (Runs.Along (plantStep user) (MapLaw user) db.root calls →
        Runs.Along (plantStep user) (fun db call => OnePlant user db call ∧
          ('/' ∉ call.name.text.toList → ToldApart user db call)) db.root calls) := by
  constructor
  · refine Runs.along_of_invariant
      (I := fun root => root.WellFormed ∧ StoreOk (plantsOf user root)) ?_ ?_
      ⟨db.wellFormed, hstore⟩
    · rintro root call root' ⟨hwf, hstore⟩ ⟨hone, hsep⟩ hroot
      exact storeOk_of_mapLaw hwf (mapLaw_of_onePlant hwf hstore hone hsep) hroot
    · rintro root call ⟨hwf, hstore⟩ ⟨hone, hsep⟩
      exact mapLaw_of_onePlant hwf hstore hone hsep
  · refine Runs.along_of_invariant
      (I := fun root => root.WellFormed ∧ StoreOk (plantsOf user root)) ?_ ?_
      ⟨db.wellFormed, hstore⟩
    · rintro root call root' ⟨hwf, -⟩ hlaw hroot
      exact storeOk_of_mapLaw hwf hlaw hroot
    · rintro root call ⟨hwf, hstore⟩ hlaw
      exact ⟨onePlant_of_mapLaw hwf hstore hlaw, fun hslash => toldApart_of_mapLaw hwf hslash hlaw⟩

/-! ### A store with one plant -/

def gardener : Uid := ⟨"gardener", by decide, by decide⟩

def rose : PlantSettings := ⟨360, 60, 80, "climber"⟩

/-- The database after the gardener has saved one plant. -/
def roseDatabase : Database where
  root := FNode.emptyNode.updateChild (userPath gardener ++ ["rose"]) rose.node
  wellFormed := FNode.wellFormed_emptyNode.updateChild rose.wellFormed_node (by decide)

def createRose : PlantCall := .create ⟨"rose", by decide, by decide⟩ rose

theorem createRose_accepted : createRose.Accepted := by
  show (LeafValue.string rose.plantTrait).ShortEnough
  decide

theorem storeOk_roseDatabase : StoreOk (plantsOf gardener roseDatabase.root) := by
  have hempty : StoreOk (plantsOf gardener FNode.emptyNode) :=
    ⟨fun _ h => FNode.noConfusion h, fun _ h => absurd rfl h⟩
  have hslash : '/' ∉ createRose.name.text.toList := by decide
  have hlaw : MapLaw gardener FNode.emptyNode createRose := by
    refine mapLaw_of_not_slash hempty createRose_accepted hslash ?_
    exact (toldApart_iff_separates hslash).2 (FNode.separates_of_distinctive (by decide) _)
  have hpieces : createRose.name.pieces = ["rose"] := PlantName.pieces_of_not_slash hslash
  refine (storeOk_of_mapLaw FNode.wellFormed_emptyNode hlaw ?_).2
  rw [plantStep, PlantCall.perform_eq _ _ createRose_accepted, hpieces]
  rfl

/-- Deletes of a path below the rose at which nothing is stored, and of the rose. -/
def roseCalls : List PlantCall :=
  [.delete ⟨"rose/Color", by decide, by decide⟩, .delete ⟨"rose", by decide, by decide⟩]

theorem plant_store_is_map_rose :
    Runs.Along (plantStep gardener) (MapLaw gardener) roseDatabase.root roseCalls := by
  refine (plant_store_is_map gardener roseDatabase roseCalls storeOk_roseDatabase).1 ?_
  have hcolor : ((plantsOf gardener roseDatabase.root).getChild (pathPieces "rose/Color")).isEmpty =
      true := by decide +kernel
  refine ⟨⟨Or.inr ((FNode.isEmpty_iff _).1 hcolor), ?_⟩, fun db _ => ⟨⟨Or.inl ?_, ?_⟩, ?_⟩⟩
  · exact FNode.separatesPath_of_distinctive (by decide) _
  · decide
  · exact FNode.separatesPath_of_distinctive (by decide) _
  · exact fun _ _ => trivial

theorem storedMap_roseDatabase :
    storedMap (plantsOf gardener roseDatabase.root) "rose" = some rose := by
  decide +kernel

/-- A Create of the plant `/` replaces all the plants of the user by one record. -/
theorem create_slash_not_map :
    StoreOk (plantsOf gardener roseDatabase.root) ∧
    ¬ Runs.Along (plantStep gardener) (MapLaw gardener) roseDatabase.root
      [.create ⟨"/", by decide, by decide⟩ rose] := by
  refine ⟨storeOk_roseDatabase, fun h => ?_⟩
  obtain ⟨db', hdb, -, hother, -⟩ := h.1
  obtain ⟨-, rfl⟩ := PlantCall.perform_eq_some_iff.1 hdb
  have hkept := congrArg PlantSettings.ofNode (hother "rose" (by decide))
  have hlost := hkept.trans storedMap_roseDatabase
  revert hlost
  decide +kernel

end IndoorFarm
