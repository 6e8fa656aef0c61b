import IndoorFarm.Firebase.Reference

/-!
# The data model (`internal_model.swift`)

The requests `DataModel` makes to the database and the values it keeps from the last reads.

A write is a function of the tree, `none` when the library raises.  A read is split in two: the
request, which says what is observed, and the completion, which stores the snapshot.  A getter is
`none` where the source unwraps nil, fails a forced cast or sends a key to a value that has none.
`currentUser` is `Auth.auth().currentUser`.
-/

namespace IndoorFarm

/-- A user id as Firebase Auth hands it out: one database key, of letters and digits, which the
order of the keys tells apart from every other. -/
structure Uid where
  text : String
  valid : isValidKey text = true
  distinctive : Distinctive text
  deriving DecidableEq

theorem Uid.ext_iff_text {u v : Uid} : u = v ↔ u.text = v.text := by
  cases u; cases v; simp

structure DataModel where
  firebaseValues : Option NSDictionary := none
  plantNames : Option NSDictionary := none

namespace DataModel

def conditionRef : DatabaseReference := .root

/-! ## Plant settings -/

/-- `conditionRef.child("users").child(user.uid)`. -/
def userRef (user : Uid) : Option DatabaseReference :=
  (conditionRef.child "users").bind fun users => users.child user.text

/-- The reference `get_all_plant_settings_firebaseDB` observes; nothing is observed when no user is
logged in. -/
def getAllPlantSettingsFirebaseDB (currentUser : Option Uid) : Option DatabaseReference :=
  currentUser.bind userRef

/-- The closure `get_all_plant_settings_firebaseDB` passes to `observeSingleEvent`, up to the call
of the completion. -/
def storePlantNames (model : DataModel) (snapshot : FNode) : DataModel :=
  { model with plantNames := snapshot.val.asNSDictionary }

/-- The dictionary `write_plant_settings_firebaseDB` stores. -/
def plantRecord (growLightMaxtimer growLightMaxsleep growLightMaxtemp : ℤ) (plantTrait : String) :
    NSDictionary :=
  [("Grow_Light_Maxtimer", .number (.int growLightMaxtimer)),
    ("Grow_Light_Maxsleep", .number (.int growLightMaxsleep)),
    ("Grow_Light_Maxtemp", .number (.int growLightMaxtemp)),
    ("Plant_Trait", .string plantTrait)]

def writePlantSettingsFirebaseDB (currentUser : Option Uid) (plant : String)
    (growLightMaxtimer growLightMaxsleep growLightMaxtemp : ℤ) (plantTrait : String) (db : FNode) :
    Option FNode :=
  match currentUser with
  | none => some db
  | some user =>
    (userRef user).bind fun ref => (ref.child plant).bind fun ref =>
      ref.setValue (.dictionary
        (plantRecord growLightMaxtimer growLightMaxsleep growLightMaxtemp plantTrait)) db

def deletePlantSettingsFirebaseDB (currentUser : Option Uid) (plant : String) (db : FNode) :
    Option FNode :=
  match currentUser with
  | none => some db
  | some user =>
    (userRef user).bind fun ref => (ref.child plant).bind fun ref => ref.removeValue db

/-- `self.plant_names!.value(forKeyPath: plant_type + "." + field)`. -/
def plantSetting (model : DataModel) (plantType field : String) : Option Value :=
  model.plantNames.bind fun names =>
    (Value.dictionary names).valueForKeyPath (plantType ++ "." ++ field)

def getPlantSettingGrowLightMaxtimer (model : DataModel) (plantType : String) : Option ℤ :=
  (model.plantSetting plantType "Grow_Light_Maxtimer").bind Value.asInt

def getPlantSettingGrowLightMaxsleep (model : DataModel) (plantType : String) : Option ℤ :=
  (model.plantSetting plantType "Grow_Light_Maxsleep").bind Value.asInt

def getPlantSettingGrowLightMaxtemp (model : DataModel) (plantType : String) : Option ℤ :=
  (model.plantSetting plantType "Grow_Light_Maxtemp").bind Value.asInt

def getPlantSettingPlantTrait (model : DataModel) (plantType : String) : Option String :=
  (model.plantSetting plantType "Plant_Trait").bind Value.asString

/-! ## The indoor farm -/

/-- The reference `readDatabase` observes. -/
def readDatabase : DatabaseReference := conditionRef

/-- The closure `readDatabase` passes to `observeSingleEvent`, up to the call of the completion. -/
def storeFirebaseValues (model : DataModel) (snapshot : FNode) : DataModel :=
  { model with firebaseValues := snapshot.val.asNSDictionary }

/-- `self.conditionRef.child(key).setValue(value)`. -/
def setFarmValue (key : String) (value : ℤ) (db : FNode) : Option FNode :=
  (conditionRef.child key).bind fun ref => ref.setValue (.number (.int value)) db

/-- The three `setValue` calls of `write_automated_settings_to_indoor_farm`, in their order. -/
def automatedWrites (growLightMaxtimer growLightMaxsleep growLightMaxtemp : ℤ) :
    List (String × ℤ) :=
  [("Grow_Light_Maxtimer", growLightMaxtimer), ("Grow_Light_Maxsleep", growLightMaxsleep),
    ("Grow_Light_Maxtemp", growLightMaxtemp)]

def writeAutomatedSettingsToIndoorFarm (growLightMaxtimer growLightMaxsleep growLightMaxtemp : ℤ)
    (db : FNode) : Option FNode :=
  (automatedWrites growLightMaxtimer growLightMaxsleep growLightMaxtemp).foldlM
    (fun db write => setFarmValue write.1 write.2 db) db

def setGrowLightOn : FNode → Option FNode := setFarmValue "Grow_Light" 1

def setGrowLightOff : FNode → Option FNode := setFarmValue "Grow_Light" 0

def setWaterPumpOn : FNode → Option FNode := setFarmValue "Water_Pump" 1

def setWaterPumpOff : FNode → Option FNode := setFarmValue "Water_Pump" 0

def setDrainPumpOn : FNode → Option FNode := setFarmValue "Drain_Pump" 1

def setDrainPumpOff : FNode → Option FNode := setFarmValue "Drain_Pump" 0

def setWaterPurifierOn : FNode → Option FNode := setFarmValue "Water_Purifier" 1

def setWaterPurifierOff : FNode → Option FNode := setFarmValue "Water_Purifier" 0

/-- Any other number leaves the database alone. -/
def setServoMode (number : ℤ) (db : FNode) : Option FNode :=
  if number = 0 then setFarmValue "Servo_Mode" 0 db
  else if number = 1 then setFarmValue "Servo_Mode" 1 db
  else some db

def setServoReset : FNode → Option FNode := setFarmValue "Servo_Reset" 1

def setGrowLightMaxsleep (minutesCycle : ℤ) : FNode → Option FNode :=
  setFarmValue "Grow_Light_Maxsleep" minutesCycle

def setGrowLightMaxtimer (minutesCycle : ℤ) : FNode → Option FNode :=
  setFarmValue "Grow_Light_Maxtimer" minutesCycle

/-- `self.firebase_values?[key] as? Int`, unwrapped. -/
def farmInt (model : DataModel) (key : String) : Option ℤ :=
  (model.firebaseValues.bind fun values => values.lookup key).bind Value.asInt

/-- `self.firebase_values?[key] as? Double`, unwrapped. -/
def farmDouble (model : DataModel) (key : String) : Option ℚ :=
  (model.firebaseValues.bind fun values => values.lookup key).bind Value.asDouble

def getTemperature (model : DataModel) : Option ℚ := model.farmDouble "Temperature"

def getWaterLevel (model : DataModel) : Option ℤ := model.farmInt "Water_Level"

def getGrowLight (model : DataModel) : Option ℤ := model.farmInt "Grow_Light"

def getWaterPump (model : DataModel) : Option ℤ := model.farmInt "Water_Pump"

def getDrainPump (model : DataModel) : Option ℤ := model.farmInt "Drain_Pump"

def getWaterPurifier (model : DataModel) : Option ℤ := model.farmInt "Water_Purifier"

def getServoMode (model : DataModel) : Option ℤ := model.farmInt "Servo_Mode"

def getGrowLightMaxsleep (model : DataModel) : Option ℚ := model.farmDouble "Grow_Light_Maxsleep"

def getGrowLightMaxtemp (model : DataModel) : Option ℚ := model.farmDouble "Grow_Light_Maxtemp"

def getGrowLightMaxtimer (model : DataModel) : Option ℚ := model.farmDouble "Grow_Light_Maxtimer"

/-! ## Reads that succeed -/

/-- The data model after a read of the plants of `user` that finds the tree `db`. -/
def afterPlantsRead (model : DataModel) (user : Uid) (db : FNode) : Option DataModel :=
  (getAllPlantSettingsFirebaseDB (some user)).map fun ref => model.storePlantNames (ref.snapshot db)

/-- The data model after a read of the root that finds the tree `db`. -/
def afterDatabaseRead (model : DataModel) (db : FNode) : DataModel :=
  model.storeFirebaseValues (readDatabase.snapshot db)

theorem afterDatabaseRead_firebaseValues (model : DataModel) (db : FNode) :
    (model.afterDatabaseRead db).firebaseValues = db.val.asNSDictionary := by
  rw [afterDatabaseRead, storeFirebaseValues, DatabaseReference.snapshot, readDatabase,
    conditionRef,
    DatabaseReference.root, FNode.getChild_nil]

/-! ## What the writes do to the tree -/

/-- The path of a user's plants. -/
def userPath (user : Uid) : FPath := ["users", user.text]

/-- The node `write_plant_settings_firebaseDB` stores. -/
def plantNode (growLightMaxtimer growLightMaxsleep growLightMaxtemp : ℤ) (plantTrait : String) :
    FNode :=
  .childrenNode [("Grow_Light_Maxsleep", .leafNode (.number (.int growLightMaxsleep))),
    ("Grow_Light_Maxtemp", .leafNode (.number (.int growLightMaxtemp))),
    ("Grow_Light_Maxtimer", .leafNode (.number (.int growLightMaxtimer))),
    ("Plant_Trait", .leafNode (.string plantTrait))]

theorem nodeFrom_plantRecord (timer sleep temp : ℤ) {trait : String}
    (h : (LeafValue.string trait).ShortEnough) :
    nodeFrom (.dictionary (plantRecord timer sleep temp trait)) =
      some (plantNode timer sleep temp trait) := by
  have htimer : isValidKey "Grow_Light_Maxtimer" = true := by decide
  have hsleep : isValidKey "Grow_Light_Maxsleep" = true := by decide
  have htemp : isValidKey "Grow_Light_Maxtemp" = true := by decide
  have htrait : isValidKey "Plant_Trait" = true := by decide
  have hchildren : childrenFrom 1 (plantRecord timer sleep temp trait) = some
      [("Grow_Light_Maxtimer", .leafNode (.number (.int timer))),
        ("Grow_Light_Maxsleep", .leafNode (.number (.int sleep))),
        ("Grow_Light_Maxtemp", .leafNode (.number (.int temp))),
        ("Plant_Trait", .leafNode (.string trait))] := by
    simp [childrenFrom, internalNodeFrom, plantRecord, kFirebaseMaxObjectDepth, h, htimer, hsleep,
      htemp, htrait, FNode.isEmpty]
  have hsorted : SortedEntries.Sorted compareKey
      [("Grow_Light_Maxsleep", FNode.leafNode (.number (.int sleep))),
        ("Grow_Light_Maxtemp", .leafNode (.number (.int temp))),
        ("Grow_Light_Maxtimer", .leafNode (.number (.int timer))),
        ("Plant_Trait", .leafNode (.string trait))] := by
    simp only [SortedEntries.Sorted, List.pairwise_cons, List.forall_mem_cons]
    decide
  rw [nodeFrom, internalNodeFrom, if_neg (by decide), hchildren, Option.bind_some, plantNode]
  refine (childrenNodeFrom_eq_some_iff hsorted).2 ?_
  exact (List.Perm.swap ..).trans ((List.Perm.swap ..).cons _)

theorem nodeFrom_plantRecord_eq_none (timer sleep temp : ℤ) {trait : String}
    (h : ¬ (LeafValue.string trait).ShortEnough) :
    nodeFrom (.dictionary (plantRecord timer sleep temp trait)) = none := by
  simp [nodeFrom, childrenFrom, internalNodeFrom, plantRecord, h]

theorem userRef_eq (user : Uid) : userRef user = some ⟨userPath user⟩ := by
  rw [userRef, conditionRef, DatabaseReference.root_child_of_isValidKey (by decide),
    Option.bind_some, DatabaseReference.child_of_ne_nil (by simp)
      (isValidPathString_of_isValidKey user.valid), pathPieces_of_isValidKey user.valid]
  rfl

theorem getAllPlantSettingsFirebaseDB_some (user : Uid) :
    getAllPlantSettingsFirebaseDB (some user) = some ⟨userPath user⟩ := userRef_eq user

theorem afterPlantsRead_eq (model : DataModel) (user : Uid) (db : FNode) :
    model.afterPlantsRead user db =
      some (model.storePlantNames (db.getChild (userPath user))) := by
  rw [afterPlantsRead, getAllPlantSettingsFirebaseDB_some]
  rfl

section Plants

variable (user : Uid) {plant : String}

theorem writePlantSettingsFirebaseDB_eq (h : isValidPathString plant = true) (timer sleep temp : ℤ)
    {trait : String} (htrait : (LeafValue.string trait).ShortEnough) (db : FNode) :
    writePlantSettingsFirebaseDB (some user) plant timer sleep temp trait db =
      some (db.updateChild (userPath user ++ pathPieces plant)
        (plantNode timer sleep temp trait)) := by
  simp only [writePlantSettingsFirebaseDB, userRef_eq, Option.bind_some]
  rw [DatabaseReference.child_of_ne_nil (by simp [userPath]) h, Option.bind_some,
    DatabaseReference.setValue_of_nodeFrom (by simp [userPath])
      (nodeFrom_plantRecord timer sleep temp htrait)]

theorem deletePlantSettingsFirebaseDB_eq (h : isValidPathString plant = true) (db : FNode) :
    deletePlantSettingsFirebaseDB (some user) plant db =
      some (db.updateChild (userPath user ++ pathPieces plant) FNode.emptyNode) := by
  simp only [deletePlantSettingsFirebaseDB, userRef_eq, Option.bind_some]
  rw [DatabaseReference.child_of_ne_nil (by simp [userPath]) h, Option.bind_some,
    DatabaseReference.removeValue_eq (by simp [userPath])]

/-- The library raises on the name or on the trait. -/
theorem writePlantSettingsFirebaseDB_eq_none {trait : String} (timer sleep temp : ℤ)
    (h : ¬ (isValidPathString plant = true ∧ (LeafValue.string trait).ShortEnough)) (db : FNode) :
    writePlantSettingsFirebaseDB (some user) plant timer sleep temp trait db = none := by
  simp only [writePlantSettingsFirebaseDB, userRef_eq, Option.bind_some]
  by_cases hplant : isValidPathString plant = true
  · rw [DatabaseReference.child_of_ne_nil (by simp [userPath]) hplant, Option.bind_some,
      DatabaseReference.setValue, DatabaseReference.setValueInternal,
      nodeFrom_plantRecord_eq_none _ _ _ fun htrait => h ⟨hplant, htrait⟩, Option.map_none,
      ite_self]
  · rw [DatabaseReference.child_eq_none_of_ne_nil (by simp [userPath]) (Bool.eq_false_iff.2 hplant),
      Option.bind_none]

theorem deletePlantSettingsFirebaseDB_eq_none (h : isValidPathString plant = false) (db : FNode) :
    deletePlantSettingsFirebaseDB (some user) plant db = none := by
  simp only [deletePlantSettingsFirebaseDB, userRef_eq, Option.bind_some]
  rw [DatabaseReference.child_eq_none_of_ne_nil (by simp [userPath]) h, Option.bind_none]

end Plants

theorem setFarmValue_eq {key : String} (h : isValidKey key = true) (value : ℤ) (db : FNode) :
    setFarmValue key value db =
      some (db.updateChild [key] (.leafNode (.number (.int value)))) := by
  have hinfo : key ≠ ".info" := by
    rintro rfl
    exact absurd h (by decide)
  rw [setFarmValue, conditionRef, DatabaseReference.root_child_of_isValidKey h, Option.bind_some]
  exact DatabaseReference.setValue_of_nodeFrom (by simpa using hinfo) rfl db

end DataModel

end IndoorFarm
