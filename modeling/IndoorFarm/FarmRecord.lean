import IndoorFarm.Operations

/-!
# The farm record

The Info and the Manual screen read ten keys under the root and unwrap each of them.  `farmSchema`
lists the keys with the type their getter expects, and `FarmRecord` says that the root holds them
so.  Every operation of every client whose numbers a double represents exactly keeps the record
(`FarmRecord.step`): a plant call writes under `users` whatever its text, and a farm call writes
integers that fit the schema.  Then no read of the root makes a getter unwrap nil
(`read_outs_never_trap`).  The getters of the three limits unwrap `as? Double`, so a number that a
double does not represent does trap them (`read_out_of_large_timer_traps`).
-/

namespace IndoorFarm

open DataModel

/-! ## The read-outs of the two screens -/

/-- What `get_from_dataModel` sets in the Info screen. -/
structure ControlWindow0 where
  temperatureValue : ℚ
  waterLevelValue : Bool
  growLightValue : Bool
  waterPumpValue : Bool
  drainPumpValue : Bool
  waterPurifierValue : Bool
  platformModeValue : Bool
  growLightMaxtimerValue : ℚ
  growLightMaxsleepValue : ℚ
  growLightMaxtempValue : ℚ

def ControlWindow0.getFromDataModel (model : DataModel) : Option ControlWindow0 := do
  let temperature ← model.getTemperature
  let waterLevel ← model.getWaterLevel
  let growLight ← model.getGrowLight
  let waterPump ← model.getWaterPump
  let drainPump ← model.getDrainPump
  let waterPurifier ← model.getWaterPurifier
  let servoMode ← model.getServoMode
  let growLightMaxtimer ← model.getGrowLightMaxtimer
  let growLightMaxsleep ← model.getGrowLightMaxsleep
  let growLightMaxtemp ← model.getGrowLightMaxtemp
  return {
    temperatureValue := temperature
    waterLevelValue := waterLevel = 1
    growLightValue := growLight = 1
    waterPumpValue := waterPump = 1
    drainPumpValue := drainPump = 1
    waterPurifierValue := waterPurifier = 1
    platformModeValue := servoMode = 1
    growLightMaxtimerValue := growLightMaxtimer
    growLightMaxsleepValue := growLightMaxsleep
    growLightMaxtempValue := growLightMaxtemp }

/-- What `update_manaul_settings_page_values` sets in the Manual screen. -/
structure ControlWindow2 where
  growLightValue : Bool
  waterPumpValue : Bool
  drainPumpValue : Bool
  waterPurifierValue : Bool
  platformModeValue : ℤ

def ControlWindow2.updateManaulSettingsPageValues (model : DataModel) : Option ControlWindow2 := do
  let growLight ← model.getGrowLight
  let waterPump ← model.getWaterPump
  let drainPump ← model.getDrainPump
  let waterPurifier ← model.getWaterPurifier
  let servoMode ← model.getServoMode
  return {
    growLightValue := growLight = 1
    waterPumpValue := waterPump = 1
    drainPumpValue := drainPump = 1
    waterPurifierValue := waterPurifier = 1
    platformModeValue := servoMode }

/-- The items of the platform control. -/
def resetPlatformitems : List String := ["Mode 0", "Mode 1"]

/-! ## The schema -/

/-- What the getter of a key expects. -/
inductive FarmType where
  | number
  | integer
  | mode

def FarmType.Holds : FarmType → FNode → Prop
  | number, n => (Value.asDouble n.val).isSome
  | integer, n => (Value.asInt n.val).isSome
  | mode, n => Value.asInt n.val = some 0 ∨ Value.asInt n.val = some 1

def farmSchema : List (String × FarmType) :=
  [("Temperature", .number), ("Water_Level", .integer), ("Grow_Light", .integer),
    ("Water_Pump", .integer), ("Drain_Pump", .integer), ("Water_Purifier", .integer),
    ("Servo_Mode", .mode), ("Grow_Light_Maxsleep", .number), ("Grow_Light_Maxtemp", .number),
    ("Grow_Light_Maxtimer", .number)]

/-- The root holds every key of the schema with its type. -/
def FarmRecord (root : FNode) : Prop :=
  ∀ entry ∈ farmSchema, entry.2.Holds (root.getImmediateChild entry.1)

instance (type : FarmType) (n : FNode) : Decidable (type.Holds n) :=
  match type with
  | .number => inferInstanceAs (Decidable ((Value.asDouble n.val).isSome = true))
  | .integer => inferInstanceAs (Decidable ((Value.asInt n.val).isSome = true))
  | .mode => inferInstanceAs (Decidable (Value.asInt n.val = some 0 ∨ Value.asInt n.val = some 1))

instance (root : FNode) : Decidable (FarmRecord root) :=
  inferInstanceAs (Decidable (∀ entry ∈ farmSchema, entry.2.Holds (root.getImmediateChild entry.1)))

theorem distinctive_of_mem_farmSchema : ∀ entry ∈ farmSchema, Distinctive entry.1 := by decide

theorem FarmType.not_holds_emptyNode (type : FarmType) : ¬ type.Holds FNode.emptyNode := by
  cases type <;> simp [Holds, val_emptyNode, Value.asDouble, Value.asInt]

/-! ## Writes that keep the record -/

/-- The numbers of the call are ones a double represents exactly. -/
def FarmCall.Representable (call : FarmCall) : Prop :=
  ∀ write ∈ call.writes, representsExactly write.2 = true

def Operation.Representable : Operation → Prop
  | create _ _ _ => True
  | delete _ _ => True
  | farm _ call => call.Representable

/-- The node has the type of the key wherever the schema has the key. -/
def FitsSchema (key : String) (n : FNode) : Prop :=
  ∀ entry ∈ farmSchema, entry.1 = key → entry.2.Holds n

theorem servoMode_of_mem_writes {call : FarmCall} {write : String × ℤ} (h : write ∈ call.writes)
    (hkey : write.1 = "Servo_Mode") : write.2 = 0 ∨ write.2 = 1 := by
  cases call with
  | setServoMode number =>
    rw [FarmCall.writes] at h
    split_ifs at h with hn
    · obtain rfl := List.mem_singleton.1 h
      exact hn
    · exact absurd h List.not_mem_nil
  | writeAutomatedSettings timer sleep temp =>
    simp only [FarmCall.writes, automatedWrites, List.mem_cons, List.not_mem_nil, or_false] at h
    rcases h with rfl | rfl | rfl <;> simp at hkey
  | _ =>
    obtain rfl := List.mem_singleton.1 h
    simp at hkey

theorem mode_keys_of_farmSchema :
    ∀ entry ∈ farmSchema, entry.2 = .mode → entry.1 = "Servo_Mode" := by
  simp [farmSchema]

theorem FarmCall.fitsSchema {call : FarmCall} (h : call.Representable) {write : String × ℤ}
    (hwrite : write ∈ call.writes) :
    FitsSchema write.1 (.leafNode (.number (.int write.2))) := by
  rintro ⟨key, type⟩ hentry rfl
  cases type with
  | number => simp [FarmType.Holds, FNode.val, LeafValue.val, Value.asDouble, h write hwrite]
  | integer => simp [FarmType.Holds, FNode.val, LeafValue.val, Value.asInt]
  | mode =>
    have hkey := mode_keys_of_farmSchema _ hentry rfl
    simpa [FarmType.Holds, FNode.val, LeafValue.val, Value.asInt] using
      servoMode_of_mem_writes hwrite hkey

/-! ## Runs of the clients and the farm -/

/-- A step of the shared tree: an operation of a client, one `setValue` of a farm call applied by
itself, or a reading of the farm that keeps the type of its key. -/
inductive FarmEvent where
  | operation (op : Operation)
  | setValue (call : FarmCall) (write : String × ℤ) (mem : write ∈ call.writes)
  | temperature (n : NSNumber) (double : (Value.asDouble (.number n)).isSome)
  | waterLevel (n : NSNumber) (int : (Value.asInt (.number n)).isSome)

namespace FarmEvent

def step (root : FNode) : FarmEvent → FNode
  | operation op => op.step root
  | setValue _ write _ => writeFarmValue root write
  | temperature n _ => root.updateChild ["Temperature"] (.leafNode (.number n))
  | waterLevel n _ => root.updateChild ["Water_Level"] (.leafNode (.number n))

/-- The numbers that a client writes are ones a double represents exactly. -/
def Representable : FarmEvent → Prop
  | operation op => op.Representable
  | setValue call _ _ => call.Representable
  | temperature _ _ => True
  | waterLevel _ _ => True

end FarmEvent

namespace FarmRecord

variable {root : FNode}

theorem updateChild_key (h : FarmRecord root) {key : String} {n : FNode}
    (hfits : FitsSchema key n) :
    FarmRecord (root.updateChild [key] n) := by
  intro entry hentry
  rw [FNode.updateChild_singleton, FNode.getImmediateChild_updateImmediateChild]
  split_ifs with hkey
  · exact hfits entry hentry
      (((distinctive_of_mem_farmSchema entry hentry).compareKey_iff key).1 hkey).symm
  · exact h entry hentry

theorem updateChild_users (h : FarmRecord root) (path : FPath) (c : FNode) :
    FarmRecord (root.updateChild ("users" :: path) c) := by
  intro entry hentry
  have hkey : "users" ≠ entry.1 := by
    revert entry
    simp [farmSchema]
  have hdistinctive := distinctive_of_mem_farmSchema entry hentry
  rw [FNode.getImmediateChild_updateChild_cons,
    if_neg fun heq => hkey ((hdistinctive.compareKey_iff "users").1 heq)]
  exact h entry hentry

theorem operation (h : FarmRecord root) {op : Operation} (hop : op.Representable) :
    FarmRecord (op.step root) := by
  cases op with
  | create user plant settings =>
    rw [Operation.step_create]
    split_ifs
    exacts [h.updateChild_users _ _, h]
  | delete user plant =>
    rw [Operation.step_delete]
    split_ifs
    exacts [h.updateChild_users _ _, h]
  | farm user call =>
    rw [Operation.step_farm]
    exact List.foldlRecOn call.writes writeFarmValue h fun root h write hwrite =>
      h.updateChild_key (FarmCall.fitsSchema hop hwrite)

/-- Every step whose numbers a double represents keeps the record. -/
theorem step (h : FarmRecord root) {event : FarmEvent} (hevent : event.Representable) :
    FarmRecord (event.step root) := by
  cases event with
  | operation op => exact h.operation hevent
  | setValue call write mem => exact h.updateChild_key (FarmCall.fitsSchema hevent mem)
  | temperature n double =>
    refine h.updateChild_key fun entry hentry hkey => ?_
    have htype : entry.2 = .number := by
      revert entry
      simp [farmSchema]
    rw [htype]
    exact double
  | waterLevel n int =>
    refine h.updateChild_key fun entry hentry hkey => ?_
    have htype : entry.2 = .integer := by
      revert entry
      simp [farmSchema]
    rw [htype]
    exact int

theorem foldl_step (h : FarmRecord root) {events : List FarmEvent}
    (hevents : ∀ event ∈ events, event.Representable) :
    FarmRecord (events.foldl FarmEvent.step root) :=
  List.foldlRecOn events FarmEvent.step h fun _ h event hmem => h.step (hevents event hmem)

/-! ## Reading the record -/

/-- A read of the root finds every key of the schema. -/
theorem lookup (h : FarmRecord root) (model : DataModel) :
    ∀ entry ∈ farmSchema,
      ((model.afterDatabaseRead root).firebaseValues.bind fun values => values.lookup entry.1) =
        some (root.getImmediateChild entry.1).val := by
  have hnamed : ∀ entry ∈ farmSchema, root.namedChild entry.1 = root.getImmediateChild entry.1 :=
    fun entry hentry => (FNode.separates_of_distinctive
      (distinctive_of_mem_farmSchema entry hentry) root).namedChild_eq
  have hne : ∀ entry ∈ farmSchema, root.namedChild entry.1 ≠ FNode.emptyNode :=
    fun entry hentry e => entry.2.not_holds_emptyNode (e ▸ hnamed entry hentry ▸ h entry hentry)
  have hkey : integerKey "Temperature" = none := by decide
  obtain ⟨values, hvalues, hlookup⟩ :=
    asNSDictionary_of_child hkey (hne ("Temperature", .number) (by simp [farmSchema]))
  intro entry hentry
  rw [afterDatabaseRead_firebaseValues, hvalues, Option.bind_some, ← hnamed entry hentry]
  exact hlookup entry.1 (hne entry hentry)

theorem farmDouble_isSome (h : FarmRecord root) (model : DataModel) {key : String}
    (hkey : (key, .number) ∈ farmSchema) :
    ((model.afterDatabaseRead root).farmDouble key).isSome := by
  rw [farmDouble, h.lookup model _ hkey]
  exact h _ hkey

theorem farmInt_isSome (h : FarmRecord root) (model : DataModel) {key : String}
    (hkey : (key, .integer) ∈ farmSchema) :
    ((model.afterDatabaseRead root).farmInt key).isSome := by
  rw [farmInt, h.lookup model _ hkey]
  exact h _ hkey

theorem getServoMode (h : FarmRecord root) (model : DataModel) :
    ∃ mode, (model.afterDatabaseRead root).getServoMode = some mode ∧
      0 ≤ mode ∧ mode < resetPlatformitems.length := by
  have hkey : ("Servo_Mode", .mode) ∈ farmSchema := by simp [farmSchema]
  rw [DataModel.getServoMode, farmInt, h.lookup model _ hkey, Option.bind_some]
  rcases h _ hkey with h0 | h1
  · exact ⟨0, h0, by decide⟩
  · exact ⟨1, h1, by decide⟩

end FarmRecord

/-- The Info screen gets all its values from a read of a record. -/
theorem FarmRecord.getFromDataModel {root : FNode} (h : FarmRecord root) (model : DataModel) :
    ∃ values, ControlWindow0.getFromDataModel (model.afterDatabaseRead root) = some values := by
  have number (key : String) (hkey : (key, .number) ∈ farmSchema) :=
    Option.isSome_iff_exists.1 (h.farmDouble_isSome model hkey)
  have integer (key : String) (hkey : (key, .integer) ∈ farmSchema) :=
    Option.isSome_iff_exists.1 (h.farmInt_isSome model hkey)
  obtain ⟨temperature, htemperature⟩ := number "Temperature" (by simp [farmSchema])
  obtain ⟨timer, htimer⟩ := number "Grow_Light_Maxtimer" (by simp [farmSchema])
  obtain ⟨sleep, hsleep⟩ := number "Grow_Light_Maxsleep" (by simp [farmSchema])
  obtain ⟨temp, htemp⟩ := number "Grow_Light_Maxtemp" (by simp [farmSchema])
  obtain ⟨level, hlevel⟩ := integer "Water_Level" (by simp [farmSchema])
  obtain ⟨light, hlight⟩ := integer "Grow_Light" (by simp [farmSchema])
  obtain ⟨pump, hpump⟩ := integer "Water_Pump" (by simp [farmSchema])
  obtain ⟨drain, hdrain⟩ := integer "Drain_Pump" (by simp [farmSchema])
  obtain ⟨purifier, hpurifier⟩ := integer "Water_Purifier" (by simp [farmSchema])
  obtain ⟨mode, hmode, -⟩ := h.getServoMode model
  rw [ControlWindow0.getFromDataModel, getTemperature, htemperature, getWaterLevel, hlevel,
    getGrowLight, hlight, getWaterPump, hpump, getDrainPump, hdrain, getWaterPurifier, hpurifier,
    hmode, getGrowLightMaxtimer, htimer, getGrowLightMaxsleep, hsleep, getGrowLightMaxtemp, htemp]
  exact ⟨_, rfl⟩

/-- The Manual screen gets all its values from a read of a record, and a mode its control has. -/
theorem FarmRecord.updateManaulSettingsPageValues {root : FNode} (h : FarmRecord root)
    (model : DataModel) :
    ∃ values,
      ControlWindow2.updateManaulSettingsPageValues (model.afterDatabaseRead root) = some values ∧
        0 ≤ values.platformModeValue ∧ values.platformModeValue < resetPlatformitems.length := by
  have integer (key : String) (hkey : (key, .integer) ∈ farmSchema) :=
    Option.isSome_iff_exists.1 (h.farmInt_isSome model hkey)
  obtain ⟨light, hlight⟩ := integer "Grow_Light" (by simp [farmSchema])
  obtain ⟨pump, hpump⟩ := integer "Water_Pump" (by simp [farmSchema])
  obtain ⟨drain, hdrain⟩ := integer "Drain_Pump" (by simp [farmSchema])
  obtain ⟨purifier, hpurifier⟩ := integer "Water_Purifier" (by simp [farmSchema])
  obtain ⟨mode, hmode, hrange⟩ := h.getServoMode model
  rw [ControlWindow2.updateManaulSettingsPageValues, getGrowLight, hlight, getWaterPump, hpump,
    getDrainPump, hdrain, getWaterPurifier, hpurifier, hmode]
  exact ⟨_, rfl, hrange⟩

/-- Whatever the clients and the farm do to a well typed record with numbers a double represents, a
read of the root gives both screens all their values, and the mode of the platform is an item of its
control. -/
theorem read_outs_never_trap (root : FNode) (h : FarmRecord root) (events : List FarmEvent)
    (hevents : ∀ event ∈ events, event.Representable) (model : DataModel) :
    (∃ values, ControlWindow0.getFromDataModel
      (model.afterDatabaseRead (events.foldl FarmEvent.step root)) = some values) ∧
    ∃ values, ControlWindow2.updateManaulSettingsPageValues
        (model.afterDatabaseRead (events.foldl FarmEvent.step root)) = some values ∧
      0 ≤ values.platformModeValue ∧ values.platformModeValue < resetPlatformitems.length :=
  ⟨(h.foldl_step hevents).getFromDataModel model,
    (h.foldl_step hevents).updateManaulSettingsPageValues model⟩

/-- A root with the ten keys. -/
def newFarm : FNode :=
  .childrenNode [("Drain_Pump", .leafNode (.number (.int 0))),
    ("Grow_Light", .leafNode (.number (.int 0))),
    ("Grow_Light_Maxsleep", .leafNode (.number (.int 60))),
    ("Grow_Light_Maxtemp", .leafNode (.number (.int 80))),
    ("Grow_Light_Maxtimer", .leafNode (.number (.int 360))),
    ("Servo_Mode", .leafNode (.number (.int 0))),
    ("Temperature", .leafNode (.number (.double (143 / 2)))),
    ("Water_Level", .leafNode (.number (.int 1))), ("Water_Pump", .leafNode (.number (.int 0))),
    ("Water_Purifier", .leafNode (.number (.int 1)))]

theorem farmRecord_newFarm : FarmRecord newFarm := by decide

/-- A plant whose name begins like a farm key, and a start. -/
def busyFarm : List FarmEvent :=
  [.operation (.create gardener "Temperature/" rose),
    .operation (.farm gardener (.writeAutomatedSettings 360 60 80))]

theorem read_outs_never_trap_newFarm :
    (∃ values, ControlWindow0.getFromDataModel (DataModel.afterDatabaseRead {}
      (busyFarm.foldl FarmEvent.step newFarm)) = some values) ∧
    ∃ values, ControlWindow2.updateManaulSettingsPageValues (DataModel.afterDatabaseRead {}
        (busyFarm.foldl FarmEvent.step newFarm)) = some values ∧
      0 ≤ values.platformModeValue ∧ values.platformModeValue < resetPlatformitems.length := by
  refine read_outs_never_trap newFarm farmRecord_newFarm busyFarm ?_ {}
  rw [busyFarm, List.forall_mem_cons, List.forall_mem_singleton]
  refine ⟨trivial, ?_⟩
  show ∀ write ∈ automatedWrites 360 60 80, representsExactly write.2 = true
  decide

/-- The farm is started with an on-cycle of more than 53 significant bits, and the Info screen
unwraps nil. -/
theorem read_out_of_large_timer_traps :
    FarmRecord newFarm ∧
    ¬ ∃ values, ControlWindow0.getFromDataModel (DataModel.afterDatabaseRead {}
      ([FarmEvent.operation (.farm gardener (.writeAutomatedSettings (2 ^ 53 + 1) 60 80))].foldl
        FarmEvent.step newFarm)) = some values := by
  refine ⟨farmRecord_newFarm, ?_⟩
  rw [← Option.isSome_iff_exists]
  decide +kernel

end IndoorFarm
