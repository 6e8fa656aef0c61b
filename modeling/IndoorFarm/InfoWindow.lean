import IndoorFarm.FarmRecord
import IndoorFarm.WrittenSettings

/-!
# What the Info window shows

`write_to_ui` of `controlWindow_0` puts the read-outs into ten fields: a number by its description,
a state by one of two words, most of them on green or red, and a cycle of zero minutes by a word of
its own.

That word is `Always On` for the timer and `Always Off` for the sleep, while both cycle drop-downs
of the settings screen offer zero minutes as `Always On`.  `started_farm_is_shown` follows a Start
from the labels on the settings screen to the fields of the Info window: the three automation fields
show what the labels say but for this label of the sleep, and the other fields do not change.
-/

namespace IndoorFarm

open DataModel

/-! ## The fields -/

/-- The text of a field: a literal, or `String(number)`. -/
inductive FieldText where
  | literal (text : String)
  | description (number : ℚ)
  deriving DecidableEq

inductive UIColor where
  | green
  | red
  deriving DecidableEq

structure UITextField where
  text : FieldText
  backgroundColor : Option UIColor := none
  deriving DecidableEq

/-- The fields of the Info window that `write_to_ui` sets. -/
structure InfoFields where
  tempVal : UITextField
  waterVal : UITextField
  lightVal : UITextField
  pumpVal : UITextField
  drainVal : UITextField
  purifierVal : UITextField
  platformModeVal : UITextField
  growLightMaxtimerVal : UITextField
  growLightMaxsleepVal : UITextField
  growLightMaxtempVal : UITextField
  deriving DecidableEq

def numberField (number : ℚ) : UITextField := { text := .description number }

/-- A state, on green when it holds and on red when it does not. -/
def stateField (value : Bool) (on off : String) : UITextField :=
  if value then { text := .literal on, backgroundColor := some .green }
  else { text := .literal off, backgroundColor := some .red }

/-- A cycle in minutes, with a word for zero minutes. -/
def cycleField (minutes : ℚ) (always : String) : UITextField :=
  if minutes = 0 then { text := .literal always } else numberField minutes

def ControlWindow0.writeToUi (values : ControlWindow0) : InfoFields where
  tempVal := numberField values.temperatureValue
  waterVal := stateField values.waterLevelValue "High" "Low"
  lightVal := stateField values.growLightValue "On" "Off"
  pumpVal := stateField values.waterPumpValue "On" "Off"
  drainVal := stateField values.drainPumpValue "On" "Off"
  purifierVal := stateField values.waterPurifierValue "On" "Off"
  platformModeVal := { text := .literal (if values.platformModeValue then "Mode 1" else "Mode 0") }
  growLightMaxtimerVal := cycleField values.growLightMaxtimerValue "Always On"
  growLightMaxsleepVal := cycleField values.growLightMaxsleepValue "Always Off"
  growLightMaxtempVal := numberField values.growLightMaxtempValue

/-- `update_ui_from_local_dataModel`, `none` when a getter unwraps nil. -/
def ControlWindow0.updateUiFromLocalDataModel (model : DataModel) : Option InfoFields :=
  (ControlWindow0.getFromDataModel model).map writeToUi

/-! ## The values of a record -/

/-- The integer stored at a key of the root. -/
def FNode.farmInt (root : FNode) (key : String) : Option ℤ :=
  Value.asInt (root.getImmediateChild key).val

/-- The double stored at a key of the root. -/
def FNode.farmDouble (root : FNode) (key : String) : Option ℚ :=
  Value.asDouble (root.getImmediateChild key).val

section Values

variable {root : FNode} (model : DataModel)

theorem farmInt_writeFarmValue (root : FNode) {write : String × ℤ} (h : write.1 ∈ farmKeys)
    (key : String) :
    (writeFarmValue root write).farmInt key =
      if write.1 = key then some write.2 else root.farmInt key := by
  rw [FNode.farmInt, getImmediateChild_writeFarmValue root h]
  split_ifs <;> rfl

theorem FarmRecord.farmInt_afterDatabaseRead (h : FarmRecord root) {key : String}
    (hkey : key ∈ farmSchema.map Prod.fst) :
    (model.afterDatabaseRead root).farmInt key = root.farmInt key := by
  obtain ⟨entry, hentry, rfl⟩ := List.mem_map.1 hkey
  rw [DataModel.farmInt, h.lookup model entry hentry, Option.bind_some, FNode.farmInt]

theorem FarmRecord.farmDouble_afterDatabaseRead (h : FarmRecord root) {key : String}
    (hkey : key ∈ farmSchema.map Prod.fst) :
    (model.afterDatabaseRead root).farmDouble key = root.farmDouble key := by
  obtain ⟨entry, hentry, rfl⟩ := List.mem_map.1 hkey
  rw [DataModel.farmDouble, h.lookup model entry hentry, Option.bind_some, FNode.farmDouble]

/-- The values the Info window reads off a record. -/
theorem FarmRecord.getFromDataModel_eq (h : FarmRecord root) :
    ControlWindow0.getFromDataModel (model.afterDatabaseRead root) = do
      let temperature ← root.farmDouble "Temperature"
      let waterLevel ← root.farmInt "Water_Level"
      let growLight ← root.farmInt "Grow_Light"
      let waterPump ← root.farmInt "Water_Pump"
      let drainPump ← root.farmInt "Drain_Pump"
      let waterPurifier ← root.farmInt "Water_Purifier"
      let servoMode ← root.farmInt "Servo_Mode"
      let growLightMaxtimer ← root.farmDouble "Grow_Light_Maxtimer"
      let growLightMaxsleep ← root.farmDouble "Grow_Light_Maxsleep"
      let growLightMaxtemp ← root.farmDouble "Grow_Light_Maxtemp"
      return ⟨temperature, waterLevel = 1, growLight = 1, waterPump = 1, drainPump = 1,
        waterPurifier = 1, servoMode = 1, growLightMaxtimer, growLightMaxsleep,
        growLightMaxtemp⟩ := by
  unfold ControlWindow0.getFromDataModel getTemperature getWaterLevel getGrowLight getWaterPump
    getDrainPump getWaterPurifier DataModel.getServoMode getGrowLightMaxtimer getGrowLightMaxsleep
    getGrowLightMaxtemp
  repeat rw [h.farmInt_afterDatabaseRead model (by decide)]
  repeat rw [h.farmDouble_afterDatabaseRead model (by decide)]

end Values

/-! ## A record after the writes of Start -/

section Started

variable {root : FNode} (model : DataModel) {timer sleep temp : ℤ}

theorem FarmRecord.automatedWrites (h : FarmRecord root)
    (hrep : (FarmCall.writeAutomatedSettings timer sleep temp).Representable) :
    FarmRecord ((DataModel.automatedWrites timer sleep temp).foldl writeFarmValue root) :=
  List.foldlRecOn _ writeFarmValue h fun _ h _ hwrite =>
    h.updateChild_key (FarmCall.fitsSchema hrep hwrite)

/-- The other keys of the schema keep their children. -/
theorem getImmediateChild_of_started {db db' : FNode} (h : Started db db' timer sleep temp) :
    ∀ key ∈ ["Temperature", "Water_Level", "Grow_Light", "Water_Pump", "Drain_Pump",
      "Water_Purifier", "Servo_Mode"], db'.getImmediateChild key = db.getImmediateChild key := by
  intro key hkey
  have hdistinctive : Distinctive key := by
    revert key
    decide
  have hne : key ≠ "Grow_Light_Maxtimer" ∧ key ≠ "Grow_Light_Maxsleep" ∧
      key ≠ "Grow_Light_Maxtemp" := by
    revert key
    decide
  rw [← (FNode.separates_of_distinctive hdistinctive db').namedChild_eq,
    ← (FNode.separates_of_distinctive hdistinctive db).namedChild_eq]
  exact h.others key hne.1 hne.2.1 hne.2.2

/-- The number at a key of Start is read back. -/
theorem farmDouble_of_namedChild {db : FNode} {key : String} {n : ℤ} (hkey : Distinctive key)
    (hn : representsExactly n = true) (h : db.namedChild key = .leafNode (.number (.int n))) :
    db.farmDouble key = some (n : ℚ) := by
  rw [FNode.farmDouble, ← (FNode.separates_of_distinctive hkey db).namedChild_eq, h]
  exact if_pos hn

/-- After the writes of Start a read gives the three numbers, and the other values it gave
before. -/
theorem FarmRecord.getFromDataModel_automatedWrites (h : FarmRecord root)
    (hrep : (FarmCall.writeAutomatedSettings timer sleep temp).Representable)
    {values : ControlWindow0}
    (hvalues : ControlWindow0.getFromDataModel (model.afterDatabaseRead root) = some values) :
    ControlWindow0.getFromDataModel (model.afterDatabaseRead
        ((DataModel.automatedWrites timer sleep temp).foldl writeFarmValue root)) =
      some { values with
        growLightMaxtimerValue := timer
        growLightMaxsleepValue := sleep
        growLightMaxtempValue := temp } := by
  have hstarted := started_automatedWrites root timer sleep temp
  have hkept := getImmediateChild_of_started hstarted
  have hexact := hrep
  simp only [FarmCall.Representable, FarmCall.writes, DataModel.automatedWrites,
    List.forall_mem_cons] at hexact
  have htimer := farmDouble_of_namedChild (by decide) hexact.1 hstarted.timer
  have hsleep := farmDouble_of_namedChild (by decide) hexact.2.1 hstarted.sleep
  have htemp := farmDouble_of_namedChild (by decide) hexact.2.2.1 hstarted.temp
  rw [h.getFromDataModel_eq] at hvalues
  rw [(h.automatedWrites hrep).getFromDataModel_eq, htimer, hsleep, htemp]
  simp only [FNode.farmInt, FNode.farmDouble] at hvalues ⊢
  rw [hkept "Temperature" (by decide), hkept "Water_Level" (by decide),
    hkept "Grow_Light" (by decide), hkept "Water_Pump" (by decide), hkept "Drain_Pump" (by decide),
    hkept "Water_Purifier" (by decide), hkept "Servo_Mode" (by decide)]
  simp only [Option.bind_eq_bind, Option.bind_eq_some_iff] at hvalues
  obtain ⟨temperature, htemperature, level, hlevel, light, hlight, pump, hpump, drain, hdrain,
    purifier, hpurifier, mode, hmode, _, -, _, -, _, -, hvalues⟩ := hvalues
  obtain rfl := Option.some.inj hvalues
  rw [htemperature, hlevel, hlight, hpump, hdrain, hpurifier, hmode]
  rfl

end Started

/-! ## From the labels to the fields -/

namespace Dropdown

theorem representsExactly_numberOfIndex (which : Dropdown) (hne : which ≠ .plant) :
    ∀ index < which.settingOptions.length,
      representsExactly (which.numberOfIndex index) = true := by
  cases which with
  | plant => exact absurd rfl hne
  | growLightMaxTimer | growLightMaxSleep | growLightMaxTemp => decide +kernel

theorem cycleOptions_eq_always_iff :
    ∀ index < cycleOptions.length, cycleOptions[index]? = some "Always On" ↔ index = 0 := by
  decide

/-- The field of the number that a cycle label stands for. -/
theorem cycleField_of_option {index : ℕ} {label : String} (h : cycleOptions[index]? = some label)
    (always : String) :
    cycleField ((index * 30 : ℤ) : ℚ) always =
      if label = "Always On" then { text := .literal always }
      else numberField ((index * 30 : ℤ) : ℚ) := by
  have hlt := (List.getElem?_eq_some_iff.1 h).1
  have hzero : label = "Always On" ↔ index = 0 := by
    rw [← cycleOptions_eq_always_iff index hlt, h, Option.some.injEq]
  rw [cycleField]
  refine if_congr ?_ rfl rfl
  rw [hzero]
  norm_cast
  omega

end Dropdown

namespace SettingsSession

variable {s s₀ s' : SettingsSession} {events : List SettingsEvent} {call : SettingsCall}

/-- What a setting drop-down shows when Create or Start comes to a call: the label of an index of
its options, and the call writes the number of the index. -/
theorem JustLoaded.label_of_call (h : s₀.JustLoaded) (hrun : Runs.run step s₀ events = some s)
    {event : SettingsEvent} (hevent : event = .create ∨ event = .start)
    (hcall : s.call event = some call) (which : Dropdown) (hne : which ≠ .plant) :
    ∃ index < which.settingOptions.length,
      which.settingOptions[index]? = some (s.screen.dropdown which).title ∧
      which.denotes (s.screen.dropdown which).title = some (which.numberOfIndex index) ∧
      call.number which = some (which.numberOfIndex index) := by
  have hcoupled : s.Coupled :=
    Runs.run_invariant (fun _ _ _ ht hnext => coupled_step ht hnext) h.coupled hrun
  obtain ⟨hlabel, index, hindex, hnumber⟩ := number_of_call hevent hcall hne
  obtain ⟨index', hshows⟩ := (hcoupled.labelled which hne).label.resolve_left hlabel
  obtain rfl : index' = index := Option.some.inj (hshows.selectedIndex.symm.trans hindex)
  obtain ⟨h0, hoption⟩ := (UIDropDown.option_eq_some_iff ..).1 hshows.option
  rw [(hcoupled.loaded.setting which hne).options_eq, ← hshows.title] at hoption
  have hdenotes := Dropdown.denotes_of_option h0 hoption
  lift index' to ℕ using h0
  exact ⟨index', (List.getElem?_eq_some_iff.1 hoption).1, hoption, hdenotes, hnumber⟩

/-- In every run of the settings screen from its loading on, a Start on a farm record is followed by
an Info window that shows the labels of the three drop-downs: a number as the label denotes it, and
zero minutes, which both cycle labels call `Always On`, as `Always On` for the timer and
`Always Off` for the sleep.  The other fields show what they would have shown before. -/
theorem started_farm_is_shown (h : s₀.JustLoaded) (hrun : Runs.run step s₀ events = some s)
    (hcall : s.call .start = some call) (hstep : s.step .start = some s') (hfarm : FarmRecord s.db)
    (model : DataModel) :
    ∃ fields timer sleep temp,
      ControlWindow0.updateUiFromLocalDataModel (model.afterDatabaseRead s.db) = some fields ∧
      minutesOfLabel s.screen.growLightMaxTimerDropdown.title = some timer ∧
      minutesOfLabel s.screen.growLightMaxSleepDropdown.title = some sleep ∧
      degreesOfLabel s.screen.growLightMaxTempDropdown.title = some temp ∧
      ControlWindow0.updateUiFromLocalDataModel (model.afterDatabaseRead s'.db) = some { fields with
        growLightMaxtimerVal :=
          if s.screen.growLightMaxTimerDropdown.title = "Always On" then
            { text := .literal "Always On" }
          else numberField timer
        growLightMaxsleepVal :=
          if s.screen.growLightMaxSleepDropdown.title = "Always On" then
            { text := .literal "Always Off" }
          else numberField sleep
        growLightMaxtempVal := numberField temp } := by
  obtain ⟨i, hi, hlabeli, htimer, hnumberi⟩ :=
    h.label_of_call hrun (Or.inr rfl) hcall .growLightMaxTimer Dropdown.noConfusion
  obtain ⟨j, hj, hlabelj, hsleep, hnumberj⟩ :=
    h.label_of_call hrun (Or.inr rfl) hcall .growLightMaxSleep Dropdown.noConfusion
  obtain ⟨k, hk, -, htemp, hnumberk⟩ :=
    h.label_of_call hrun (Or.inr rfl) hcall .growLightMaxTemp Dropdown.noConfusion
  rw [step_of_call hcall, Option.map_eq_some_iff] at hstep
  obtain ⟨db, hdb, rfl⟩ := hstep
  obtain ⟨-, timer, sleep, temp, -, rfl⟩ := call_start_eq_some_iff.1 hcall
  obtain ⟨-, rfl⟩ := SettingsCall.perform_eq_some_iff.1 hdb
  obtain rfl : timer = i * 30 := Option.some.inj hnumberi
  obtain rfl : sleep = j * 30 := Option.some.inj hnumberj
  obtain rfl : temp = (k + 1) * 20 := Option.some.inj hnumberk
  have hrep : (FarmCall.writeAutomatedSettings (i * 30) (j * 30) ((k + 1) * 20)).Representable := by
    simp only [FarmCall.Representable, FarmCall.writes, automatedWrites, List.forall_mem_cons,
      List.not_mem_nil, false_imp_iff, implies_true, and_true]
    exact ⟨Dropdown.representsExactly_numberOfIndex .growLightMaxTimer Dropdown.noConfusion i hi,
      Dropdown.representsExactly_numberOfIndex .growLightMaxSleep Dropdown.noConfusion j hj,
      Dropdown.representsExactly_numberOfIndex .growLightMaxTemp Dropdown.noConfusion k hk⟩
  obtain ⟨values, hvalues⟩ := hfarm.getFromDataModel model
  refine ⟨values.writeToUi, i * 30, j * 30, (k + 1) * 20, ?_, htimer, hsleep, htemp, ?_⟩
  · rw [ControlWindow0.updateUiFromLocalDataModel, hvalues, Option.map_some]
  · have hafter := hfarm.getFromDataModel_automatedWrites model hrep hvalues
    rw [ControlWindow0.updateUiFromLocalDataModel, SettingsCall.written, hafter, Option.map_some]
    simp only [ControlWindow0.writeToUi, Dropdown.cycleField_of_option hlabeli,
      Dropdown.cycleField_of_option hlabelj]
    rfl

/-- The gardener opens the settings screen on a new farm. -/
def newFarmSession : SettingsSession := { herbSession with db := newFarm }

theorem justLoaded_newFarmSession : newFarmSession.JustLoaded :=
  ⟨_, _, (Option.some_get isSome_viewDidLoad_herbs).symm⟩

/-- Basil sleeps for an hour; the gardener starts the farm with the lights always on. -/
theorem started_farm_is_shown_always :
    ∃ s s' : SettingsSession, Runs.run step newFarmSession [.touch .plant, .tapRow .plant 0,
        .touch .growLightMaxSleep, .tapRow .growLightMaxSleep 0] = some s ∧
      s.step .start = some s' ∧ ∃ fields timer sleep temp,
        ControlWindow0.updateUiFromLocalDataModel (DataModel.afterDatabaseRead {} s.db) =
          some fields ∧
        minutesOfLabel s.screen.growLightMaxTimerDropdown.title = some timer ∧
        minutesOfLabel s.screen.growLightMaxSleepDropdown.title = some sleep ∧
        degreesOfLabel s.screen.growLightMaxTempDropdown.title = some temp ∧
        ControlWindow0.updateUiFromLocalDataModel (DataModel.afterDatabaseRead {} s'.db) =
          some { fields with
            growLightMaxtimerVal :=
              if s.screen.growLightMaxTimerDropdown.title = "Always On" then
                { text := .literal "Always On" }
              else numberField timer
            growLightMaxsleepVal :=
              if s.screen.growLightMaxSleepDropdown.title = "Always On" then
                { text := .literal "Always Off" }
              else numberField sleep
            growLightMaxtempVal := numberField temp } := by
  have hpicked : (Runs.run step newFarmSession [.touch .plant, .tapRow .plant 0,
      .touch .growLightMaxSleep, .tapRow .growLightMaxSleep 0]).map (fun s =>
        ((s.call .start).isSome, (s.step .start).isSome, decide (FarmRecord s.db))) =
      some (true, true, true) := by decide +kernel
  obtain ⟨s, hrun, hview⟩ := Option.map_eq_some_iff.1 hpicked
  simp only [Prod.mk.injEq, Option.isSome_iff_exists, decide_eq_true_eq] at hview
  obtain ⟨⟨call, hcall⟩, ⟨s', hstep⟩, hfarm⟩ := hview
  exact ⟨s, s', hrun, hstep,
    started_farm_is_shown justLoaded_newFarmSession hrun hcall hstep hfarm {}⟩

end SettingsSession

end IndoorFarm
