import IndoorFarm.PlantStore
import IndoorFarm.SettingsScreen

/-!
# What a refresh shows

A plants read exports the node `users/<uid>`, casts the value to a dictionary and keeps it as
`plant_names`; `viewDidLoad` and the completions of Create and Delete then list its keys.

When the cast succeeds, the getters of the data model read the stored records
(`DataModel.plantSettings_storePlantNames`).  It fails when the user has no plant, and when the
names of the plants are the numerals of an array, and then `plant_names` is nil and all three places
trap (`refresh_shows_plants_iff`).
-/

namespace IndoorFarm

open DataModel

/-! ## Key paths into a snapshot -/

/-- A cast of the child under a field name, reached through the exported value. -/
theorem bind_valueForKey_val {α : Type*} (n : FNode) {field : String} {cast : Value → Option α}
    (hfield : integerKey field = none) (hat : field.toList.head? ≠ some '@')
    (hcast : cast .null = none) :
    (n.val.valueForKey field).bind cast = cast (n.namedChild field).val := by
  cases n with
  | leafNode v =>
    rw [FNode.namedChild, val_emptyNode, hcast, FNode.val]
    cases v <;> rfl
  | childrenNode cs =>
    rw [FNode.namedChild]
    by_cases hdict : cs = [] ∨ ListedAsArray (cs.map Prod.fst)
    · have hnot : cs.lookup field = none := by
        rw [FNode.lookup_eq_none_iff_keys]
        rcases hdict with rfl | hlisted
        · exact List.not_mem_nil
        · intro hmem
          obtain ⟨i, hi, -⟩ := hlisted field hmem
          rw [hfield] at hi
          contradiction
      have hval := asNSDictionary_val_childrenNode cs
      rw [if_pos hdict] at hval
      have hnone : (FNode.childrenNode cs).val.valueForKey field = none := by
        revert hval
        cases (FNode.childrenNode cs).val <;> simp [Value.asNSDictionary, Value.valueForKey]
      rw [hnot, hnone, Option.bind_none, Option.getD_none, val_emptyNode, hcast]
    · rw [val_childrenNode (not_or.1 hdict).1 (not_or.1 hdict).2, Value.valueForKey, if_neg hat,
        lookup_valChildren]
      cases cs.lookup field with
      | none => rw [Option.map_none, Option.bind_none, Option.getD_none, val_emptyNode, hcast]
      | some c => rw [Option.map_some, Option.bind_some, Option.getD_some]

/-- The snapshot behind a dictionary. -/
theorem exists_of_asNSDictionary_val {n : FNode} {names : NSDictionary}
    (h : n.val.asNSDictionary = some names) :
    ∃ cs, n = .childrenNode cs ∧ names = valChildren cs := by
  cases n with
  | leafNode v => cases v <;> simp [FNode.val, LeafValue.val, Value.asNSDictionary] at h
  | childrenNode cs =>
    rw [asNSDictionary_val_childrenNode] at h
    split_ifs at h
    exact ⟨cs, rfl, (Option.some.inj h).symm⟩

/-- The record the four getters read for a plant. -/
def DataModel.plantSettings (model : DataModel) (plantType : String) : Option PlantSettings := do
  let timer ← model.getPlantSettingGrowLightMaxtimer plantType
  let sleep ← model.getPlantSettingGrowLightMaxsleep plantType
  let temp ← model.getPlantSettingGrowLightMaxtemp plantType
  let trait ← model.getPlantSettingPlantTrait plantType
  return ⟨timer, sleep, temp, trait⟩

/-- A name the key path of a getter leads to: without a dot, and not sent to `NSObject`. -/
def KeyPathName (name : String) : Prop := '.' ∉ name.toList ∧ name.toList.head? ≠ some '@'

theorem bind_plantSetting {α : Type*} (model : DataModel) {snapshot : FNode} {names : NSDictionary}
    (hnames : snapshot.val.asNSDictionary = some names) {name field : String}
    (hname : KeyPathName name) {cast : Value → Option α} (hfield : integerKey field = none)
    (hdot : '.' ∉ field.toList) (hat : field.toList.head? ≠ some '@')
    (hdistinctive : Distinctive field) (hcast : cast .null = none) :
    ((model.storePlantNames snapshot).plantSetting name field).bind cast =
      cast ((snapshot.namedChild name).getImmediateChild field).val := by
  obtain ⟨cs, rfl, rfl⟩ := exists_of_asNSDictionary_val hnames
  rw [plantSetting, storePlantNames, hnames, Option.bind_some,
    valueForKeyPath_append hname.1 hname.2 hdot, lookup_valChildren, FNode.namedChild]
  cases cs.lookup name with
  | none => simp [FNode.getImmediateChild_emptyNode, val_emptyNode, hcast]
  | some c =>
    rw [Option.map_some, Option.bind_some, Option.getD_some,
      bind_valueForKey_val c hfield hat hcast,
      (FNode.separates_of_distinctive hdistinctive c).namedChild_eq]

/-- After a read that gave a dictionary, the getters read the stored records. -/
theorem DataModel.plantSettings_storePlantNames (model : DataModel) {snapshot : FNode}
    {names : NSDictionary} (hnames : snapshot.val.asNSDictionary = some names) {name : String}
    (hname : KeyPathName name) :
    (model.storePlantNames snapshot).plantSettings name = storedMap snapshot name := by
  have hsetting {α : Type} (field : String) (cast : Value → Option α)
      (hfield : integerKey field = none ∧ '.' ∉ field.toList ∧ field.toList.head? ≠ some '@' ∧
        Distinctive field) (hcast : cast .null = none) :=
    bind_plantSetting model hnames hname hfield.1 hfield.2.1 hfield.2.2.1 hfield.2.2.2 hcast
  rw [plantSettings, getPlantSettingGrowLightMaxtimer, getPlantSettingGrowLightMaxsleep,
    getPlantSettingGrowLightMaxtemp, getPlantSettingPlantTrait,
    hsetting "Grow_Light_Maxtimer" Value.asInt (by decide) rfl,
    hsetting "Grow_Light_Maxsleep" Value.asInt (by decide) rfl,
    hsetting "Grow_Light_Maxtemp" Value.asInt (by decide) rfl,
    hsetting "Plant_Trait" Value.asString (by decide) rfl]
  rfl

/-! ## The plants of a user -/

/-- A stored record is exported as the dictionary that was written, its fields in the order of their
keys. -/
theorem PlantSettings.val_node (settings : PlantSettings) :
    ∃ record, settings.node.val = .dictionary record ∧
      record.Perm (plantRecord settings.growLightMaxtimer settings.growLightMaxsleep
        settings.growLightMaxtemp settings.plantTrait) := by
  refine ⟨_, ?_, (List.Perm.swap ..).cons _ |>.trans (List.Perm.swap ..)⟩
  rw [node, plantNode, val_childrenNode (by simp)]
  · rfl
  · simp only [List.map_cons, List.map_nil]
    decide

/-- The plants stored for a user: names that are keys, each with its record. -/
structure PlantTable where
  entries : List (String × PlantSettings)
  nodup : (entries.map Prod.fst).Nodup
  valid : ∀ entry ∈ entries, isValidKey entry.1 = true

namespace PlantTable

def names (table : PlantTable) : List String := table.entries.map Prod.fst

/-- The node that stores the plants. -/
def node (table : PlantTable) : FNode :=
  .childrenNode (table.entries.map fun entry => (entry.1, entry.2.node))

/-- The dictionary has the names of the plants, and under each the fields of its record. -/
def IsPlantNames (table : PlantTable) (names : NSDictionary) : Prop :=
  (names.map Prod.fst).Perm table.names ∧
  ∀ entry ∈ table.entries, ∃ record, names.lookup entry.1 = some (.dictionary record) ∧
    record.Perm (plantRecord entry.2.growLightMaxtimer entry.2.growLightMaxsleep
      entry.2.growLightMaxtemp entry.2.plantTrait)

/-- A read that succeeds keeps exactly the plants, and `viewDidLoad` and the completions of Create
and Delete then list every name once. -/
def RefreshShows (table : PlantTable) (user : Uid) (db : FNode) : Prop :=
  ∃ ref, getAllPlantSettingsFirebaseDB (some user) = some ref ∧ ∀ order,
    (∀ model : DataModel,
      (∃ names, (model.storePlantNames (ref.snapshot db)).plantNames = some names ∧
        table.IsPlantNames names) ∧
      ∃ screen, ControlWindow1.viewDidLoad (model.storePlantNames (ref.snapshot db)) order =
        some screen ∧ screen.plantDropdown.options.Perm table.names) ∧
    ∀ screen : ControlWindow1, ∃ screen',
      screen.plantsReadCompleted (ref.snapshot db) order = some screen' ∧
        (∃ names, screen'.dataModel.plantNames = some names ∧ table.IsPlantNames names) ∧
        screen'.plantDropdown.options.Perm table.names

variable (table : PlantTable)

theorem asNSDictionary_val_node :
    table.node.val.asNSDictionary =
      if table.entries = [] ∨ ListedAsArray table.names then none
      else some (valChildren (table.entries.map fun entry => (entry.1, entry.2.node))) := by
  rw [node, asNSDictionary_val_childrenNode, List.map_map, names]
  simp only [List.map_eq_nil_iff]
  rfl

theorem isPlantNames_valChildren :
    table.IsPlantNames (valChildren (table.entries.map fun entry => (entry.1, entry.2.node))) := by
  have hkeys : (table.entries.map fun entry => (entry.1, entry.2.node)).map Prod.fst =
      table.names := List.map_map
  refine ⟨?_, fun entry hentry => ?_⟩
  · rw [keys_valChildren, hkeys]
  · have hmem := List.mem_map_of_mem (f := fun entry => (entry.1, entry.2.node)) hentry
    obtain ⟨record, hrecord, hperm⟩ := entry.2.val_node
    refine ⟨record, ?_, hperm⟩
    rw [lookup_valChildren, (FNode.lookup_eq_some_iff_mem (hkeys ▸ table.nodup)).2 hmem,
      Option.map_some, hrecord]

end PlantTable

/-- A refresh shows exactly the stored plants when there is one and their names are not the numerals
of an array, and only then. -/
theorem refresh_shows_plants_iff (user : Uid) (table : PlantTable) (db : FNode)
    (hdb : plantsOf user db = table.node) :
    table.RefreshShows user db ↔ table.entries ≠ [] ∧ ¬ ListedAsArray table.names := by
  have href := getAllPlantSettingsFirebaseDB_some user
  have hsnapshot : DatabaseReference.snapshot ⟨userPath user⟩ db = table.node := hdb
  have hval := table.asNSDictionary_val_node
  constructor
  · rintro ⟨ref, hsome, h⟩
    obtain rfl := Option.some.inj (href.symm.trans hsome)
    obtain ⟨⟨names, hnames, -⟩, -⟩ := (h []).1 {}
    rw [hsnapshot, storePlantNames, hval] at hnames
    split_ifs at hnames with hnil
    exact not_or.1 hnil
  · intro h
    rw [if_neg (not_or.2 h)] at hval
    have hnames := table.isPlantNames_valChildren
    have hkeys := fun order => (NSDictionary.allKeys_perm _ order).trans hnames.1
    refine ⟨_, href, fun order => ⟨fun model => ⟨⟨_, ?_, hnames⟩, ?_⟩, fun screen => ?_⟩⟩
    · rw [hsnapshot, storePlantNames, hval]
    · rw [hsnapshot, storePlantNames, hval]
      exact ⟨_, rfl, hkeys order⟩
    · rw [hsnapshot, ControlWindow1.plantsReadCompleted, storePlantNames, hval]
      exact ⟨_, rfl, ⟨_, rfl, hnames⟩, hkeys order⟩

def roseTable : PlantTable := ⟨[("rose", rose)], by decide, by decide⟩

theorem refresh_shows_plants_iff_rose :
    roseTable.RefreshShows gardener roseDatabase.root ↔
      roseTable.entries ≠ [] ∧ ¬ ListedAsArray roseTable.names :=
  refresh_shows_plants_iff gardener roseTable roseDatabase.root rfl

/-- A user without plants: the read succeeds, and `viewDidLoad` traps. -/
theorem refresh_of_no_plants_traps :
    plantsOf gardener FNode.emptyNode = PlantTable.node ⟨[], by decide, by decide⟩ ∧
    (∀ (model : DataModel) (order : List String), ControlWindow1.viewDidLoad
      (model.storePlantNames (plantsOf gardener FNode.emptyNode)) order = none) ∧
    ¬ PlantTable.RefreshShows ⟨[], by decide, by decide⟩ gardener FNode.emptyNode := by
  refine ⟨rfl, fun _ _ => rfl, ?_⟩
  rintro ⟨ref, href, h⟩
  rw [getAllPlantSettingsFirebaseDB_some] at href
  obtain rfl := Option.some.inj href
  obtain ⟨⟨names, hnames, -⟩, -⟩ := (h []).1 {}
  have hnil : (none : Option NSDictionary) = some names := hnames
  contradiction

end IndoorFarm
