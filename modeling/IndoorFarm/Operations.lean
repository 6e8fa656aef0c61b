import IndoorFarm.PlantStore

/-!
# The operations of the clients

Every call by which a client changes the database: the two plant calls, of a signed-in user and with
any text as the name, and the calls on the farm (`FarmCall`).  A call that raises stops the app that
made it and writes nothing, so on the shared tree it is a step that changes nothing
(`Operation.step`).

What an operation can do is said once: a farm call is a list of writes of integers at farm keys
(`FarmCall.perform_eq`, `FarmCall.mem_farmKeys`), a plant call is one write below its own user
(`Operation.step_create`, `Operation.step_delete`).
-/

namespace IndoorFarm

open DataModel

/-! ## Calls on the farm -/

inductive FarmCall where
  | writeAutomatedSettings (growLightMaxtimer growLightMaxsleep growLightMaxtemp : ℤ)
  | setGrowLightOn
  | setGrowLightOff
  | setWaterPumpOn
  | setWaterPumpOff
  | setDrainPumpOn
  | setDrainPumpOff
  | setWaterPurifierOn
  | setWaterPurifierOff
  | setServoMode (number : ℤ)
  | setServoReset
  | setGrowLightMaxsleep (minutesCycle : ℤ)
  | setGrowLightMaxtimer (minutesCycle : ℤ)

namespace FarmCall

def perform (db : FNode) : FarmCall → Option FNode
  | writeAutomatedSettings growLightMaxtimer growLightMaxsleep growLightMaxtemp =>
    writeAutomatedSettingsToIndoorFarm growLightMaxtimer growLightMaxsleep growLightMaxtemp db
  | setGrowLightOn => DataModel.setGrowLightOn db
  | setGrowLightOff => DataModel.setGrowLightOff db
  | setWaterPumpOn => DataModel.setWaterPumpOn db
  | setWaterPumpOff => DataModel.setWaterPumpOff db
  | setDrainPumpOn => DataModel.setDrainPumpOn db
  | setDrainPumpOff => DataModel.setDrainPumpOff db
  | setWaterPurifierOn => DataModel.setWaterPurifierOn db
  | setWaterPurifierOff => DataModel.setWaterPurifierOff db
  | setServoMode number => DataModel.setServoMode number db
  | setServoReset => DataModel.setServoReset db
  | setGrowLightMaxsleep minutesCycle => DataModel.setGrowLightMaxsleep minutesCycle db
  | setGrowLightMaxtimer minutesCycle => DataModel.setGrowLightMaxtimer minutesCycle db

/-- The numbers a call writes and the farm keys it writes them at, in order. -/
def writes : FarmCall → List (String × ℤ)
  | writeAutomatedSettings growLightMaxtimer growLightMaxsleep growLightMaxtemp =>
    automatedWrites growLightMaxtimer growLightMaxsleep growLightMaxtemp
  | setGrowLightOn => [("Grow_Light", 1)]
  | setGrowLightOff => [("Grow_Light", 0)]
  | setWaterPumpOn => [("Water_Pump", 1)]
  | setWaterPumpOff => [("Water_Pump", 0)]
  | setDrainPumpOn => [("Drain_Pump", 1)]
  | setDrainPumpOff => [("Drain_Pump", 0)]
  | setWaterPurifierOn => [("Water_Purifier", 1)]
  | setWaterPurifierOff => [("Water_Purifier", 0)]
  | setServoMode number => if number = 0 ∨ number = 1 then [("Servo_Mode", number)] else []
  | setServoReset => [("Servo_Reset", 1)]
  | setGrowLightMaxsleep minutesCycle => [("Grow_Light_Maxsleep", minutesCycle)]
  | setGrowLightMaxtimer minutesCycle => [("Grow_Light_Maxtimer", minutesCycle)]

end FarmCall

/-- The keys under the root that the farm calls write. -/
def farmKeys : List String :=
  ["Grow_Light_Maxtimer", "Grow_Light_Maxsleep", "Grow_Light_Maxtemp", "Grow_Light", "Water_Pump",
    "Drain_Pump", "Water_Purifier", "Servo_Mode", "Servo_Reset"]

theorem isValidKey_of_mem_farmKeys : ∀ key ∈ farmKeys, isValidKey key = true := by decide

theorem distinctive_of_mem_farmKeys : ∀ key ∈ farmKeys, Distinctive key := by decide

theorem users_not_mem_farmKeys : "users" ∉ farmKeys := by decide

/-- One write of a number under the root. -/
def writeFarmValue (db : FNode) (write : String × ℤ) : FNode :=
  db.updateChild [write.1] (.leafNode (.number (.int write.2)))

theorem getImmediateChild_writeFarmValue (db : FNode) {write : String × ℤ} (h : write.1 ∈ farmKeys)
    (key : String) :
    (writeFarmValue db write).getImmediateChild key =
      if write.1 = key then .leafNode (.number (.int write.2)) else db.getImmediateChild key := by
  have hsame : compareKey write.1 key = .eq ↔ write.1 = key :=
    Std.OrientedCmp.eq_comm.trans
      (((distinctive_of_mem_farmKeys _ h).compareKey_iff key).trans eq_comm)
  rw [writeFarmValue, FNode.updateChild_singleton, FNode.getImmediateChild_updateImmediateChild]
  simp only [hsame]

theorem namedChild_writeFarmValue (db : FNode) {write : String × ℤ} (h : write.1 ∈ farmKeys)
    (name : String) :
    (writeFarmValue db write).namedChild name =
      if name = write.1 then .leafNode (.number (.int write.2)) else db.namedChild name := by
  rw [writeFarmValue, FNode.updateChild_singleton]
  exact (FNode.separates_of_distinctive
    (distinctive_of_mem_farmKeys _ h) db).namedChild_updateImmediateChild _ name

theorem setFarmValue_of_mem {key : String} (h : key ∈ farmKeys) (value : ℤ) (db : FNode) :
    setFarmValue key value db = some (writeFarmValue db (key, value)) :=
  setFarmValue_eq (isValidKey_of_mem_farmKeys key h) value db

namespace FarmCall

theorem mem_farmKeys (call : FarmCall) : ∀ write ∈ call.writes, write.1 ∈ farmKeys := by
  cases call with
  | setServoMode number =>
    rw [writes]
    split_ifs <;> simp [farmKeys]
  | _ => simp [writes, automatedWrites, farmKeys]

/-- Every farm call sends its writes one after the other. -/
theorem perform_eq_foldlM (call : FarmCall) (db : FNode) :
    call.perform db =
      call.writes.foldlM (fun db write => setFarmValue write.1 write.2 db) db := by
  cases call with
  | writeAutomatedSettings timer sleep temp => rfl
  | setServoMode number =>
    rw [perform, DataModel.setServoMode, writes]
    by_cases h0 : number = 0
    · simp [h0]
    · by_cases h1 : number = 1
      · simp [h1]
      · simp [h0, h1]
  | _ =>
    simp only [writes, List.foldlM_cons, List.foldlM_nil, bind_pure]
    rfl

theorem foldlM_setFarmValue (writes : List (String × ℤ)) (db : FNode)
    (h : ∀ write ∈ writes, write.1 ∈ farmKeys) :
    writes.foldlM (fun db write => setFarmValue write.1 write.2 db) db =
      some (writes.foldl writeFarmValue db) := by
  induction writes generalizing db with
  | nil => rfl
  | cons write writes ih =>
    rw [List.foldlM_cons, setFarmValue_of_mem (h write List.mem_cons_self)]
    exact ih _ fun w hw => h w (List.mem_cons_of_mem write hw)

theorem perform_eq (call : FarmCall) (db : FNode) :
    call.perform db = some (call.writes.foldl writeFarmValue db) := by
  rw [perform_eq_foldlM, foldlM_setFarmValue _ db call.mem_farmKeys]

end FarmCall

/-- The root has the three numbers at their keys, and every other child is as it was. -/
structure Started (db db' : FNode) (growLightMaxtimer growLightMaxsleep growLightMaxtemp : ℤ) :
    Prop where
  timer : db'.namedChild "Grow_Light_Maxtimer" = .leafNode (.number (.int growLightMaxtimer))
  sleep : db'.namedChild "Grow_Light_Maxsleep" = .leafNode (.number (.int growLightMaxsleep))
  temp : db'.namedChild "Grow_Light_Maxtemp" = .leafNode (.number (.int growLightMaxtemp))
  others : ∀ name, name ≠ "Grow_Light_Maxtimer" → name ≠ "Grow_Light_Maxsleep" →
    name ≠ "Grow_Light_Maxtemp" → db'.namedChild name = db.namedChild name

theorem started_automatedWrites (db : FNode) (timer sleep temp : ℤ) :
    Started db ((automatedWrites timer sleep temp).foldl writeFarmValue db) timer sleep temp := by
  have hchild (name : String) :
      ((automatedWrites timer sleep temp).foldl writeFarmValue db).namedChild name =
        if name = "Grow_Light_Maxtemp" then .leafNode (.number (.int temp))
        else if name = "Grow_Light_Maxsleep" then .leafNode (.number (.int sleep))
        else if name = "Grow_Light_Maxtimer" then .leafNode (.number (.int timer))
        else db.namedChild name := by
    simp only [automatedWrites, List.foldl_cons, List.foldl_nil]
    rw [namedChild_writeFarmValue _ (by simp [farmKeys]),
      namedChild_writeFarmValue _ (by simp [farmKeys]),
      namedChild_writeFarmValue _ (by simp [farmKeys])]
  refine ⟨?_, ?_, ?_, fun name htimer hsleep htemp => ?_⟩
  · rw [hchild, if_neg (by decide), if_neg (by decide), if_pos rfl]
  · rw [hchild, if_neg (by decide), if_pos rfl]
  · rw [hchild, if_pos rfl]
  · rw [hchild, if_neg htemp, if_neg hsleep, if_neg htimer]

/-! ## Operations -/

inductive Operation where
  | create (user : Uid) (plant : String) (settings : PlantSettings)
  | delete (user : Uid) (plant : String)
  | farm (user : Uid) (call : FarmCall)

namespace Operation

/-- What the operation does to the tree, `none` when it raises. -/
def perform (db : FNode) : Operation → Option FNode
  | create user plant settings =>
    writePlantSettingsFirebaseDB (some user) plant settings.growLightMaxtimer
      settings.growLightMaxsleep settings.growLightMaxtemp settings.plantTrait db
  | delete user plant => deletePlantSettingsFirebaseDB (some user) plant db
  | farm _ call => call.perform db

/-- The step of the shared tree. -/
def step (db : FNode) (op : Operation) : FNode := (op.perform db).getD db

theorem step_create (db : FNode) (user : Uid) (plant : String) (settings : PlantSettings) :
    step db (create user plant settings) =
      if isValidPathString plant ∧ (LeafValue.string settings.plantTrait).ShortEnough then
        db.updateChild (userPath user ++ pathPieces plant) settings.node
      else db := by
  rw [step, perform]
  split_ifs with h
  · rw [writePlantSettingsFirebaseDB_eq user h.1 _ _ _ h.2, Option.getD_some, PlantSettings.node]
  · rw [writePlantSettingsFirebaseDB_eq_none user _ _ _ h, Option.getD_none]

theorem step_delete (db : FNode) (user : Uid) (plant : String) :
    step db (delete user plant) =
      if isValidPathString plant then
        db.updateChild (userPath user ++ pathPieces plant) FNode.emptyNode
      else db := by
  rw [step, perform]
  split_ifs with h
  · rw [deletePlantSettingsFirebaseDB_eq user h, Option.getD_some]
  · rw [deletePlantSettingsFirebaseDB_eq_none user (by simpa using h), Option.getD_none]

theorem step_farm (db : FNode) (user : Uid) (call : FarmCall) :
    step db (farm user call) = call.writes.foldl writeFarmValue db := by
  rw [step, perform, FarmCall.perform_eq, Option.getD_some]

end Operation

end IndoorFarm
