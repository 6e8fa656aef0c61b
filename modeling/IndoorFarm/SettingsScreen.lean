import IndoorFarm.DataModel
import IndoorFarm.UIDropDown

/-!
# The settings screen (`controlWindow_1`)

The screen has a plant drop-down, two text fields and three setting drop-downs, and the buttons
Create, Delete and Start.  `viewDidLoad`, the `didSelect` closures, the three branches of
`buttonAction` and the completions of the plants reads are functions of the screen; `none` is a trap
or an exception raised by the library.

A session is the screen with the tree, the signed-in user and the plants reads that are under way.
Its events are what the user does, what the server and the other clients do, and the delivery of a
read; an event that cannot happen (a tap on a row that is not shown, a delivery of a read that has
no answer) changes nothing.
-/

namespace IndoorFarm

/-! ## The texts of the screen -/

def plantSelectTitle : String := "Plant Select"

def growLightMaxTimerTitle : String := "Grow Light: Power On Cycle"

def growLightMaxSleepTitle : String := "Grow Light: Power Off Cycle"

def growLightMaxTempTitle : String := "Grow Light: Max Temperature"

/-- The options of the two cycle drop-downs, one for every half hour. -/
def cycleOptions : List String :=
  ["Always On", "30 min", "1 hour", "1.5 hours", "2 hours", "2.5 hours", "3 hours", "3.5 hours",
    "4 hours", "4.5 hours", "5 hours", "5.5 hours", "6 hours", "6.5 hours", "7 hours", "7.5 hours",
    "8 hours", "8.5 hours", "9 hours", "9.5 hours", "10 hours", "10.5 hours", "11 hours",
    "11.5 hours", "12 hours"]

/-- The options of the temperature drop-down, one for every twenty degrees. -/
def tempOptions : List String :=
  ["20 Degrees F", "40 Degrees F", "60 Degrees F", "80 Degrees F", "100 Degrees F", "120 Degrees F",
    "140 Degrees F", "160 Degrees F", "180 Degrees F", "200 Degrees F", "220 Degrees F",
    "240 Degrees F", "260 Degrees F", "280 Degrees F", "300 Degrees F"]

/-! ## The screen -/

structure ControlWindow1 where
  dataModel : DataModel
  plantDropdown : UIDropDown
  plantNameView : String
  plantTraitView : String
  growLightMaxTimerDropdown : UIDropDown
  growLightMaxSleepDropdown : UIDropDown
  growLightMaxTempDropdown : UIDropDown

/-- `self.dataModel.plant_names?.allKeys as! [String]`, with the keys in the order `order`. -/
def plantNamesAllKeys (model : DataModel) (order : List String) : Option (List String) :=
  model.plantNames.map fun names => NSDictionary.allKeys names order

namespace ControlWindow1

def viewDidLoad (model : DataModel) (order : List String) : Option ControlWindow1 := do
  let plantDropdown := ({} : UIDropDown).setPlaceholder plantSelectTitle
  let options ← plantNamesAllKeys model order
  return {
    dataModel := model
    plantDropdown := { plantDropdown with options := options }
    plantNameView := ""
    plantTraitView := ""
    growLightMaxTimerDropdown :=
      ({ options := cycleOptions } : UIDropDown).setPlaceholder growLightMaxTimerTitle
    growLightMaxSleepDropdown :=
      ({ options := cycleOptions } : UIDropDown).setPlaceholder growLightMaxSleepTitle
    growLightMaxTempDropdown :=
      ({ options := tempOptions } : UIDropDown).setPlaceholder growLightMaxTempTitle }

/-- The `didSelect` closure of the plant drop-down. -/
def plantDropdownDidSelect (screen : ControlWindow1) (option : String) (index : ℕ) :
    Option ControlWindow1 := do
  let plantDropdown ← screen.plantDropdown.showOption index
  let plantTrait ← screen.dataModel.getPlantSettingPlantTrait option
  let growLightMaxtimer ← screen.dataModel.getPlantSettingGrowLightMaxtimer option
  let growLightMaxsleep ← screen.dataModel.getPlantSettingGrowLightMaxsleep option
  let growLightMaxtemp ← screen.dataModel.getPlantSettingGrowLightMaxtemp option
  let timerDropdown ← screen.growLightMaxTimerDropdown.select (growLightMaxtimer.tdiv 30)
  let sleepDropdown ← screen.growLightMaxSleepDropdown.select (growLightMaxsleep.tdiv 30)
  let tempDropdown ← screen.growLightMaxTempDropdown.select (growLightMaxtemp.tdiv 20 - 1)
  return { screen with
    plantDropdown := plantDropdown
    plantNameView := option
    plantTraitView := plantTrait
    growLightMaxTimerDropdown := timerDropdown
    growLightMaxSleepDropdown := sleepDropdown
    growLightMaxTempDropdown := tempDropdown }

/-- No field shows its pre-set title: the test of the three buttons. -/
def NoPresetTitles (screen : ControlWindow1) : Prop :=
  screen.plantNameView ≠ plantSelectTitle ∧
  screen.growLightMaxTimerDropdown.placeholder ≠ growLightMaxTimerTitle ∧
  screen.growLightMaxSleepDropdown.placeholder ≠ growLightMaxSleepTitle ∧
  screen.growLightMaxTempDropdown.placeholder ≠ growLightMaxTempTitle

instance (screen : ControlWindow1) : Decidable screen.NoPresetTitles :=
  inferInstanceAs (Decidable (_ ∧ _ ∧ _ ∧ _))

/-- `selectedIndex!*30`, `selectedIndex!*30` and `(selectedIndex!+1)*20`. -/
def currentSettings (screen : ControlWindow1) : Option (ℤ × ℤ × ℤ) := do
  let timerIndex ← screen.growLightMaxTimerDropdown.selectedIndex
  let sleepIndex ← screen.growLightMaxSleepDropdown.selectedIndex
  let tempIndex ← screen.growLightMaxTempDropdown.selectedIndex
  return (timerIndex * 30, sleepIndex * 30, (tempIndex + 1) * 20)

/-- What a press leaves: the screen, the tree and the reference of the plants read it has issued. -/
structure Pressed where
  screen : ControlWindow1
  db : FNode
  read : Option DatabaseReference

/-- The Create branch of `buttonAction`; the indices are unwrapped before the test. -/
def createPressed (screen : ControlWindow1) (currentUser : Option Uid) (db : FNode) :
    Option Pressed := do
  let (growLightMaxtimer, growLightMaxsleep, growLightMaxtemp) ← screen.currentSettings
  if screen.NoPresetTitles then
    let db ← DataModel.writePlantSettingsFirebaseDB currentUser screen.plantNameView
      growLightMaxtimer growLightMaxsleep growLightMaxtemp screen.plantTraitView db
    return ⟨screen, db, DataModel.getAllPlantSettingsFirebaseDB currentUser⟩
  else return ⟨screen, db, none⟩

/-- What Delete resets: the texts, not the chosen indices. -/
def resetViews (screen : ControlWindow1) : ControlWindow1 :=
  { screen with
    plantDropdown := screen.plantDropdown.setPlaceholder plantSelectTitle
    plantNameView := ""
    plantTraitView := ""
    growLightMaxTimerDropdown :=
      screen.growLightMaxTimerDropdown.setPlaceholder growLightMaxTimerTitle
    growLightMaxSleepDropdown :=
      screen.growLightMaxSleepDropdown.setPlaceholder growLightMaxSleepTitle
    growLightMaxTempDropdown :=
      screen.growLightMaxTempDropdown.setPlaceholder growLightMaxTempTitle }

/-- The Delete branch of `buttonAction`. -/
def deletePressed (screen : ControlWindow1) (currentUser : Option Uid) (db : FNode) :
    Option Pressed := do
  if screen.NoPresetTitles then
    let db ← DataModel.deletePlantSettingsFirebaseDB currentUser screen.plantNameView db
    return ⟨screen.resetViews, db, DataModel.getAllPlantSettingsFirebaseDB currentUser⟩
  else return ⟨screen, db, none⟩

/-- The Start branch of `buttonAction`; the indices are unwrapped after the test. -/
def startPressed (screen : ControlWindow1) (db : FNode) : Option Pressed := do
  if screen.NoPresetTitles then
    let (growLightMaxtimer, growLightMaxsleep, growLightMaxtemp) ← screen.currentSettings
    let db ← DataModel.writeAutomatedSettingsToIndoorFarm growLightMaxtimer growLightMaxsleep
      growLightMaxtemp db
    return ⟨screen, db, none⟩
  else return ⟨screen, db, none⟩

/-- A plants read that succeeds: the data model keeps the snapshot, and the completion, which is the
same for Create and for Delete, replaces the options of the plant drop-down. -/
def plantsReadCompleted (screen : ControlWindow1) (snapshot : FNode) (order : List String) :
    Option ControlWindow1 := do
  let dataModel := screen.dataModel.storePlantNames snapshot
  let options ← plantNamesAllKeys dataModel order
  return { screen with
    dataModel := dataModel
    plantDropdown := { screen.plantDropdown with options := options } }

end ControlWindow1

/-! ## Sessions -/

/-- A plants read under way, with the snapshot once the server has taken it. -/
structure PlantsRead where
  ref : DatabaseReference
  snapshot : Option FNode := none

structure SettingsSession where
  screen : ControlWindow1
  db : FNode
  currentUser : Option Uid
  reads : List PlantsRead := []

inductive Dropdown where
  | plant
  | growLightMaxTimer
  | growLightMaxSleep
  | growLightMaxTemp
  deriving DecidableEq

inductive SettingsEvent where
  | touch (dropdown : Dropdown)
  | tapRow (dropdown : Dropdown) (row : ℕ)
  | editName (text : String)
  | editTrait (text : String)
  | create
  | delete
  | start
  /-- The server takes the snapshot of a read. -/
  | answer (read : ℕ)
  /-- The completion of an answered read runs, `allKeys` listing the keys in the order `order`. -/
  | deliver (read : ℕ) (order : List String)
  /-- A read fails; its completion is never called. -/
  | cancel (read : ℕ)
  /-- Another client or the farm writes. -/
  | remote (path : FPath) (node : FNode)
  | authChange (user : Option Uid)

namespace ControlWindow1

def dropdown (screen : ControlWindow1) : Dropdown → UIDropDown
  | .plant => screen.plantDropdown
  | .growLightMaxTimer => screen.growLightMaxTimerDropdown
  | .growLightMaxSleep => screen.growLightMaxSleepDropdown
  | .growLightMaxTemp => screen.growLightMaxTempDropdown

def setDropdown (screen : ControlWindow1) (d : UIDropDown) : Dropdown → ControlWindow1
  | .plant => { screen with plantDropdown := d }
  | .growLightMaxTimer => { screen with growLightMaxTimerDropdown := d }
  | .growLightMaxSleep => { screen with growLightMaxSleepDropdown := d }
  | .growLightMaxTemp => { screen with growLightMaxTempDropdown := d }

/-- The closure a drop-down calls with the text and the index of the row. -/
def didSelect (screen : ControlWindow1) (option : String) (index : ℕ) :
    Dropdown → Option ControlWindow1
  | .plant => screen.plantDropdownDidSelect option index
  | d => ((screen.dropdown d).showOption index).map fun d' => screen.setDropdown d' d

def tapRow (screen : ControlWindow1) (which : Dropdown) (row : ℕ) : Option ControlWindow1 := do
  let (d, option) ← (screen.dropdown which).didSelectRowAt row
  (screen.setDropdown d which).didSelect option row which

end ControlWindow1

namespace SettingsSession

/-- A press, as a step of the session. -/
def afterPress (session : SettingsSession) (pressed : ControlWindow1.Pressed) : SettingsSession :=
  { session with
    screen := pressed.screen
    db := pressed.db
    reads := session.reads ++ (pressed.read.map fun ref => { ref := ref }).toList }

/-- The row is one the open list of the drop-down shows. -/
def Shows (session : SettingsSession) (which : Dropdown) (row : ℕ) : Prop :=
  (session.screen.dropdown which).isSelected = true ∧
    row < (session.screen.dropdown which).rows.length

instance (session : SettingsSession) (which : Dropdown) (row : ℕ) :
    Decidable (session.Shows which row) :=
  inferInstanceAs (Decidable (_ ∧ _))

def step (session : SettingsSession) : SettingsEvent → Option SettingsSession
  | .touch which => some { session with
      screen := session.screen.setDropdown (session.screen.dropdown which).touch which }
  | .tapRow which row =>
    if session.Shows which row then
      (session.screen.tapRow which row).map fun screen => { session with screen := screen }
    else some session
  | .editName text => some { session with screen.plantNameView := text }
  | .editTrait text => some { session with screen.plantTraitView := text }
  | .create =>
    (session.screen.createPressed session.currentUser session.db).map session.afterPress
  | .delete =>
    (session.screen.deletePressed session.currentUser session.db).map session.afterPress
  | .start => (session.screen.startPressed session.db).map session.afterPress
  | .answer read => some { session with
      reads := session.reads.modify read fun r =>
        { r with snapshot := some (r.ref.snapshot session.db) } }
  | .deliver read order =>
    match session.reads[read]?.bind PlantsRead.snapshot with
    | none => some session
    | some snapshot =>
      (session.screen.plantsReadCompleted snapshot order).map fun screen => { session with
        screen := screen
        reads := session.reads.eraseIdx read }
  | .cancel read => some { session with reads := session.reads.eraseIdx read }
  | .remote path node => some { session with db := session.db.updateChild path node }
  | .authChange user => some { session with currentUser := user }

end SettingsSession

end IndoorFarm
