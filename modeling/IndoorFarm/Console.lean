import IndoorFarm.Lib.Runs
import IndoorFarm.InfoWindow

/-!
# The Info and the Manual window on the shared farm

Both windows of a tab bar read the root through the one `DataModel` they share.  A window that
appears for the first time shows what the data model holds; every appearance, and for the Info
window every tick of its timer, asks for a read, and the completion stores the snapshot and puts it
into the window.  The controls of the Manual window and the buttons of the Automation window write
to the farm at once, as other clients and the farm do (`ConsoleEvent.remote`).  The database lays
the writes of this client over the data that is on its way to it (`issue`).

The Info window never mixes two states of the farm: `info_shows_one_state` says that what it shows
is what one root the run has passed reads out as, with the writes that this client has laid over it
since.  The Manual window can be out of step with the farm, and `manual_in_step_iff` says exactly
which steps bring that about.
-/

namespace IndoorFarm

open DataModel

/-! ## The Manual window -/

/-- The controls of the Manual window that `write_to_ui` sets. -/
structure ManualControls where
  lightSwitch : Bool
  waterPumpSwitch : Bool
  drainPumpSwitch : Bool
  waterPurifierSwitch : Bool
  selectedSegmentIndex : ℤ
  deriving DecidableEq

def ControlWindow2.writeToUi (values : ControlWindow2) : ManualControls where
  lightSwitch := values.growLightValue
  waterPumpSwitch := values.waterPumpValue
  drainPumpSwitch := values.drainPumpValue
  waterPurifierSwitch := values.waterPurifierValue
  selectedSegmentIndex := values.platformModeValue

/-- `update_ui_from_local_dataModel`, `none` when a getter unwraps nil. -/
def ControlWindow2.updateUiFromLocalDataModel (model : DataModel) : Option ManualControls :=
  (ControlWindow2.updateManaulSettingsPageValues model).map writeToUi

inductive ManualSwitch where
  | light
  | waterPump
  | drainPump
  | waterPurifier
  deriving DecidableEq

namespace ManualSwitch

def tag : ManualSwitch → ℕ
  | light => 0
  | waterPump => 1
  | drainPump => 2
  | waterPurifier => 3

/-- The key the action of a switch writes. -/
def key : ManualSwitch → String
  | light => "Grow_Light"
  | waterPump => "Water_Pump"
  | drainPump => "Drain_Pump"
  | waterPurifier => "Water_Purifier"

theorem key_mem_farmKeys (which : ManualSwitch) : which.key ∈ farmKeys := by
  cases which <;> decide

end ManualSwitch

namespace ManualControls

def isOn (controls : ManualControls) : ManualSwitch → Bool
  | .light => controls.lightSwitch
  | .waterPump => controls.waterPumpSwitch
  | .drainPump => controls.drainPumpSwitch
  | .waterPurifier => controls.waterPurifierSwitch

def setOn (controls : ManualControls) (isOn : Bool) : ManualSwitch → ManualControls
  | .light => { controls with lightSwitch := isOn }
  | .waterPump => { controls with waterPumpSwitch := isOn }
  | .drainPump => { controls with drainPumpSwitch := isOn }
  | .waterPurifier => { controls with waterPurifierSwitch := isOn }

end ManualControls

namespace ControlWindow2

def switchAction (tag : ℕ) (isOn : Bool) (db : FNode) : Option FNode :=
  if tag = 0 then if isOn then setGrowLightOn db else setGrowLightOff db
  else if tag = 1 then if isOn then setWaterPumpOn db else setWaterPumpOff db
  else if tag = 2 then if isOn then setDrainPumpOn db else setDrainPumpOff db
  else if tag = 3 then if isOn then setWaterPurifierOn db else setWaterPurifierOff db
  else some db

def segmentedControlAction (selectedSegmentIndex : ℤ) (db : FNode) : Option FNode :=
  if selectedSegmentIndex = 1 then setServoMode 1 db else setServoMode 0 db

theorem switchAction_tag (which : ManualSwitch) (isOn : Bool) (db : FNode) :
    switchAction which.tag isOn db =
      some (writeFarmValue db (which.key, if isOn then 1 else 0)) := by
  have hmem := which.key_mem_farmKeys
  cases which <;> cases isOn <;> exact setFarmValue_of_mem hmem _ db

theorem segmentedControlAction_eq {index : ℤ} (h : index = 0 ∨ index = 1) (db : FNode) :
    segmentedControlAction index db = some (writeFarmValue db ("Servo_Mode", index)) := by
  have hmem : "Servo_Mode" ∈ farmKeys := by decide
  rcases h with rfl | rfl <;> exact setFarmValue_of_mem hmem _ db

end ControlWindow2

/-! ## The console -/

inductive FarmWindow where
  | info
  | manual
  deriving DecidableEq

/-- A read of the root for a window, with the snapshot once the server has taken it. -/
structure FarmRead where
  window : FarmWindow
  snapshot : Option FNode := none

/-- The farm and the two windows; a window shows nothing before it appears. -/
structure Console where
  root : FNode
  dataModel : DataModel
  info : Option InfoFields := none
  manual : Option ManualControls := none
  reads : List FarmRead := []

inductive ConsoleEvent where
  | appears (window : FarmWindow)
  /-- The timer of the Info window fires. -/
  | tick
  /-- The server takes the snapshot of a read. -/
  | answer (read : ℕ)
  /-- The completion of an answered read runs. -/
  | deliver (read : ℕ)
  /-- A read fails; its completion is never called. -/
  | cancel (read : ℕ)
  | switched (which : ManualSwitch)
  | segmentTapped (index : ℕ)
  | resetPressed
  /-- A button of the Automation window comes to its call. -/
  | automation (call : SettingsCall)
  /-- A step of the farm or of another client. -/
  | remote (event : FarmEvent)

/-- The numbers that a call of the Automation window writes to the farm are ones a double represents
exactly. -/
def SettingsCall.Representable : SettingsCall → Prop
  | writeAutomatedSettings growLightMaxtimer growLightMaxsleep growLightMaxtemp =>
    (FarmCall.writeAutomatedSettings growLightMaxtimer growLightMaxsleep
      growLightMaxtemp).Representable
  | _ => True

/-- The call of the event does not raise, and its numbers are ones a double represents exactly. -/
def ConsoleEvent.Admissible : ConsoleEvent → Prop
  | automation call => call.Accepted ∧ call.Representable
  | remote event => event.Representable
  | _ => True

namespace Console

/-- A tab bar that has just been pushed, its data model filled by the sign-in. -/
def opened (model : DataModel) (root : FNode) : Console where
  root := root
  dataModel := model.afterDatabaseRead root

def Loaded (c : Console) : FarmWindow → Prop
  | .info => c.info.isSome
  | .manual => c.manual.isSome

instance (c : Console) : DecidablePred c.Loaded := fun window => by
  cases window <;> unfold Loaded <;> infer_instance

def observe (c : Console) (window : FarmWindow) : Console :=
  { c with reads := c.reads ++ [{ window := window }] }

/-- A call of this client: it changes the farm, and its writes, which the server has not confirmed
yet, are laid over the data on its way to the client. -/
def issue (c : Console) (call : FNode → Option FNode) : Option Console :=
  (call c.root).map fun root => { c with
    root := root
    reads := c.reads.map fun r => { r with snapshot := r.snapshot.map fun n => (call n).getD n } }

/-- `update_ui_from_local_dataModel` of a window. -/
def updateUi (c : Console) : FarmWindow → Option Console
  | .info => (ControlWindow0.updateUiFromLocalDataModel c.dataModel).map fun fields =>
      { c with info := some fields }
  | .manual => (ControlWindow2.updateUiFromLocalDataModel c.dataModel).map fun controls =>
      { c with manual := some controls }

def step (c : Console) : ConsoleEvent → Option Console
  | .appears window =>
    if c.Loaded window then some (c.observe window)
    else (c.updateUi window).map fun c => c.observe window
  | .tick => some (if c.Loaded .info then c.observe .info else c)
  | .answer read => some { c with
      reads := c.reads.modify read fun r =>
        { r with snapshot := r.snapshot.or (some (readDatabase.snapshot c.root)) } }
  | .deliver read =>
    match c.reads[read]? with
    | some { window := window, snapshot := some snapshot } =>
      { c with
        dataModel := c.dataModel.storeFirebaseValues snapshot
        reads := c.reads.eraseIdx read }.updateUi window
    | _ => some c
  | .cancel read => some { c with reads := c.reads.eraseIdx read }
  | .switched which =>
    match c.manual with
    | none => some c
    | some controls =>
      let controls := controls.setOn (!controls.isOn which) which
      (c.issue (ControlWindow2.switchAction which.tag (controls.isOn which))).map fun c =>
        { c with manual := some controls }
  | .segmentTapped index =>
    match c.manual with
    | none => some c
    | some controls =>
      if index < resetPlatformitems.length ∧ controls.selectedSegmentIndex ≠ index then
        (c.issue (ControlWindow2.segmentedControlAction index)).map fun c =>
          { c with manual := some { controls with selectedSegmentIndex := index } }
      else some c
  | .resetPressed => if c.Loaded .manual then c.issue setServoReset else some c
  | .automation call => c.issue fun db => call.perform db
  | .remote event => some { c with root := event.step c.root }

/-! ### What the windows show -/

/-- The fields of the Info window when it shows this root. -/
def infoOf (root : FNode) : Option InfoFields :=
  ControlWindow0.updateUiFromLocalDataModel (afterDatabaseRead {} root)

/-- The controls of the Manual window when it shows this root. -/
def manualOf (root : FNode) : Option ManualControls :=
  ControlWindow2.updateUiFromLocalDataModel (afterDatabaseRead {} root)

theorem updateUi_info_eq_some_iff {c c' : Console} :
    c.updateUi .info = some c' ↔ ∃ fields,
      ControlWindow0.updateUiFromLocalDataModel c.dataModel = some fields ∧
        { c with info := some fields } = c' := by
  rw [updateUi, Option.map_eq_some_iff]

theorem updateUi_manual_eq_some_iff {c c' : Console} :
    c.updateUi .manual = some c' ↔ ∃ controls,
      ControlWindow2.updateUiFromLocalDataModel c.dataModel = some controls ∧
        { c with manual := some controls } = c' := by
  rw [updateUi, Option.map_eq_some_iff]

/-! ### The writes of this client -/

/-- The farm and the data on its way after a write of this client. -/
def lay (c : Console) (write : FNode → FNode) : Console :=
  { c with
    root := write c.root
    reads := c.reads.map fun r => { r with snapshot := r.snapshot.map write } }

/-- What this client changes in a tree by an event. -/
def own (c : Console) : ConsoleEvent → FNode → FNode
  | .switched which => match c.manual with
    | none => id
    | some controls => fun root =>
      writeFarmValue root (which.key, if !controls.isOn which then 1 else 0)
  | .segmentTapped index => match c.manual with
    | none => id
    | some controls =>
      if index < resetPlatformitems.length ∧ controls.selectedSegmentIndex ≠ index then
        fun root => writeFarmValue root ("Servo_Mode", index)
      else id
  | .resetPressed =>
    if c.Loaded .manual then fun root => writeFarmValue root ("Servo_Reset", 1) else id
  | .automation call => call.written
  | _ => id

variable {live live' passed passed' : FNode → Prop} {c c' : Console} {event : ConsoleEvent}

theorem issue_eq {call : FNode → Option FNode} {write : FNode → FNode}
    (h : ∀ db, call db = some (write db)) : c.issue call = some (c.lay write) := by
  simp only [issue, h, Option.map_some, Option.getD_some, lay]

theorem lay_id (c : Console) : c.lay id = c := by
  simp [lay]

/-- A read over which a write has been laid. -/
theorem exists_read_of_mem_lay {write : FNode → FNode} {r : FarmRead}
    (hr : r ∈ (c.lay write).reads) :
    ∃ r₀ ∈ c.reads, r₀.window = r.window ∧ r.snapshot = r₀.snapshot.map write := by
  obtain ⟨r₀, hr₀, rfl⟩ := List.mem_map.1 hr
  exact ⟨r₀, hr₀, rfl, rfl⟩

/-! ### The states a window may show -/

/-- What the console has of the farm: the farm itself and the snapshots on their way are `live`, the
data model and the fields of the Info window are of roots that have been `passed`. -/
structure Reflects (live passed : FNode → Prop) (c : Console) : Prop where
  root : live c.root
  reads : ∀ read ∈ c.reads, ∀ n, read.snapshot = some n → live n
  dataModel : ∃ r, passed r ∧ c.dataModel.firebaseValues = r.val.asNSDictionary
  info : ∀ fields, c.info = some fields → ∃ r, passed r ∧ infoOf r = some fields

theorem Reflects.mono (h : c.Reflects live passed) (hlive : ∀ r, live r → live' r)
    (hpassed : ∀ r, passed r → passed' r) : c.Reflects live' passed' where
  root := hlive _ h.root
  reads read hread n hn := hlive n (h.reads read hread n hn)
  dataModel := h.dataModel.imp fun r hr => ⟨hpassed r hr.1, hr.2⟩
  info fields hfields := (h.info fields hfields).imp fun r hr => ⟨hpassed r hr.1, hr.2⟩

theorem infoOf_of_firebaseValues {model : DataModel} {root : FNode}
    (h : model.firebaseValues = root.val.asNSDictionary) :
    ControlWindow0.updateUiFromLocalDataModel model = infoOf root := by
  rw [← afterDatabaseRead_firebaseValues {}] at h
  cases model
  obtain rfl := h
  rfl

theorem manualOf_of_firebaseValues {model : DataModel} {root : FNode}
    (h : model.firebaseValues = root.val.asNSDictionary) :
    ControlWindow2.updateUiFromLocalDataModel model = manualOf root := by
  rw [← afterDatabaseRead_firebaseValues {}] at h
  cases model
  obtain rfl := h
  rfl

theorem reflects_opened (model : DataModel) (root : FNode) :
    (opened model root).Reflects (· = root) (· = root) where
  root := rfl
  reads _ hread := absurd hread List.not_mem_nil
  dataModel := ⟨root, rfl, afterDatabaseRead_firebaseValues model root⟩
  info _ hfields := by contradiction

theorem Reflects.observe (h : c.Reflects live passed) (window : FarmWindow) :
    (c.observe window).Reflects live passed where
  root := h.root
  reads read hread n hn := by
    rcases List.mem_append.1 hread with hread | hread
    · exact h.reads read hread n hn
    · obtain rfl := List.mem_singleton.1 hread
      contradiction
  dataModel := h.dataModel
  info := h.info

theorem Reflects.updateUi (h : c.Reflects live passed) {window : FarmWindow}
    (hc : c.updateUi window = some c') : c'.Reflects live passed := by
  cases window with
  | info =>
    obtain ⟨fields, hfields, rfl⟩ := updateUi_info_eq_some_iff.1 hc
    obtain ⟨r, hr, hmodel⟩ := h.dataModel
    rw [infoOf_of_firebaseValues hmodel] at hfields
    refine ⟨h.root, h.reads, h.dataModel, fun fields' hfields' => ?_⟩
    obtain rfl := Option.some.inj hfields'
    exact ⟨r, hr, hfields⟩
  | manual =>
    obtain ⟨controls, -, rfl⟩ := updateUi_manual_eq_some_iff.1 hc
    exact ⟨h.root, h.reads, h.dataModel, h.info⟩

theorem Reflects.eraseRead (h : c.Reflects live passed) (read : ℕ) :
    { c with reads := c.reads.eraseIdx read }.Reflects live passed :=
  ⟨h.root, fun r hr => h.reads r (List.mem_of_mem_eraseIdx hr), h.dataModel, h.info⟩

/-- A write of this client changes the farm and the data on its way alike. -/
theorem Reflects.lay (h : c.Reflects live passed) (write : FNode → FNode)
    (controls : Option ManualControls) :
    { c.lay write with manual := controls }.Reflects (fun r => ∃ u, live u ∧ write u = r)
      passed where
  root := ⟨c.root, h.root, rfl⟩
  reads r hr n hn := by
    obtain ⟨r₀, hr₀, -, hsnapshot⟩ := exists_read_of_mem_lay hr
    rw [hsnapshot, Option.map_eq_some_iff] at hn
    obtain ⟨n₀, hn₀, rfl⟩ := hn
    exact ⟨n₀, h.reads r₀ hr₀ n₀ hn₀, rfl⟩
  dataModel := h.dataModel
  info := h.info

/-- What a step can do. -/
inductive Transition (c : Console) : ConsoleEvent → Console → Prop where
  | observed {e : ConsoleEvent} {window : FarmWindow} (hown : c.own e = id)
    (hloaded : c.Loaded window) : Transition c e (c.observe window)
  | shown {window : FarmWindow} {c₁ : Console} (hloaded : ¬ c.Loaded window)
    (hshown : c.updateUi window = some c₁) : Transition c (.appears window) (c₁.observe window)
  | answered {read : ℕ} : Transition c (.answer read) { c with
      reads := c.reads.modify read fun r => { r with snapshot := r.snapshot.or (some c.root) } }
  | delivered {read : ℕ} {window : FarmWindow} {snapshot : FNode} {c₁ : Console}
    (hread : c.reads[read]? = some { window := window, snapshot := some snapshot })
    (hshown : { c with
      dataModel := c.dataModel.storeFirebaseValues snapshot
      reads := c.reads.eraseIdx read }.updateUi window = some c₁) : Transition c (.deliver read) c₁
  | cancelled {read : ℕ} : Transition c (.cancel read) { c with reads := c.reads.eraseIdx read }
  | switched {which : ManualSwitch} {controls : ManualControls}
    (hmanual : c.manual = some controls) : Transition c (.switched which)
      { c.lay (c.own (.switched which)) with
        manual := some (controls.setOn (!controls.isOn which) which) }
  | segmentTapped {index : ℕ} {controls : ManualControls} (hmanual : c.manual = some controls)
    (hindex : index < resetPlatformitems.length ∧ controls.selectedSegmentIndex ≠ index) :
    Transition c (.segmentTapped index) { c.lay (c.own (.segmentTapped index)) with
      manual := some { controls with selectedSegmentIndex := index } }
  | reset (hloaded : c.Loaded .manual) :
    Transition c .resetPressed (c.lay (c.own .resetPressed))
  | automation {call : SettingsCall} (hcall : call.Accepted) :
    Transition c (.automation call) (c.lay (c.own (.automation call)))
  | remote {event : FarmEvent} : Transition c (.remote event) { c with root := event.step c.root }
  | ignored {e : ConsoleEvent} (hown : c.own e = id) : Transition c e c

theorem snapshot_readDatabase (root : FNode) : readDatabase.snapshot root = root := by
  rw [readDatabase, conditionRef, DatabaseReference.snapshot, DatabaseReference.root,
    FNode.getChild_nil]

theorem isOn_setOn (controls : ManualControls) (isOn : Bool) (which : ManualSwitch) :
    (controls.setOn isOn which).isOn which = isOn := by
  cases which <;> rfl

theorem own_switched {controls : ManualControls} (hmanual : c.manual = some controls)
    (which : ManualSwitch) : c.own (.switched which) = fun root =>
      writeFarmValue root (which.key, if !controls.isOn which then 1 else 0) := by
  simp only [own, hmanual]

theorem own_segmentTapped {controls : ManualControls} (hmanual : c.manual = some controls)
    {index : ℕ}
    (hindex : index < resetPlatformitems.length ∧ controls.selectedSegmentIndex ≠ index) :
    c.own (.segmentTapped index) = fun root => writeFarmValue root ("Servo_Mode", index) := by
  simp only [own, hmanual, if_pos hindex]

theorem own_resetPressed (hloaded : c.Loaded .manual) :
    c.own .resetPressed = fun root => writeFarmValue root ("Servo_Reset", 1) :=
  if_pos hloaded

theorem step_switched {controls : ManualControls} (hmanual : c.manual = some controls)
    (which : ManualSwitch) :
    c.step (.switched which) = some { c.lay (c.own (.switched which)) with
      manual := some (controls.setOn (!controls.isOn which) which) } := by
  have hissue := issue_eq (c := c) (ControlWindow2.switchAction_tag which (!controls.isOn which))
  simp only [step, hmanual, isOn_setOn, hissue, Option.map_some, own_switched hmanual]

theorem step_segmentTapped {controls : ManualControls} (hmanual : c.manual = some controls)
    {index : ℕ}
    (hindex : index < resetPlatformitems.length ∧ controls.selectedSegmentIndex ≠ index) :
    c.step (.segmentTapped index) = some { c.lay (c.own (.segmentTapped index)) with
      manual := some { controls with selectedSegmentIndex := index } } := by
  have hitem : (index : ℤ) = 0 ∨ (index : ℤ) = 1 := by
    have hlt : index < 2 := hindex.1
    omega
  have hissue := issue_eq (c := c) (ControlWindow2.segmentedControlAction_eq hitem)
  simp only [step, hmanual, if_pos hindex, hissue, Option.map_some,
    own_segmentTapped hmanual hindex]

theorem step_resetPressed : c.step .resetPressed = some (c.lay (c.own .resetPressed)) := by
  have hmem : "Servo_Reset" ∈ farmKeys := by decide
  have hissue := issue_eq (c := c) (setFarmValue_of_mem hmem 1)
  by_cases hloaded : c.Loaded .manual
  · rw [own_resetPressed hloaded]
    exact (if_pos hloaded).trans hissue
  · have hown : c.own .resetPressed = id := if_neg hloaded
    rw [hown, lay_id]
    exact if_neg hloaded

theorem transition_of_step (hs : c.step event = some c') : c.Transition event c' := by
  cases event with
  | appears window =>
    simp only [step] at hs
    split_ifs at hs with hloaded
    · obtain rfl := Option.some.inj hs
      exact .observed rfl hloaded
    · obtain ⟨c₁, hshown, rfl⟩ := Option.map_eq_some_iff.1 hs
      exact .shown hloaded hshown
  | tick =>
    simp only [step] at hs
    split_ifs at hs with hloaded
    · obtain rfl := Option.some.inj hs
      exact .observed rfl hloaded
    · obtain rfl := Option.some.inj hs
      exact .ignored rfl
  | answer read =>
    simp only [step, snapshot_readDatabase] at hs
    obtain rfl := Option.some.inj hs
    exact .answered
  | deliver read =>
    simp only [step] at hs
    split at hs
    · exact .delivered ‹_› hs
    · obtain rfl := Option.some.inj hs
      exact .ignored rfl
  | cancel read =>
    obtain rfl := Option.some.inj hs
    exact .cancelled
  | switched which =>
    cases hmanual : c.manual with
    | none =>
      simp only [step, hmanual] at hs
      obtain rfl := Option.some.inj hs
      exact .ignored (by simp only [own, hmanual])
    | some controls =>
      rw [step_switched hmanual] at hs
      obtain rfl := Option.some.inj hs
      exact .switched hmanual
  | segmentTapped index =>
    cases hmanual : c.manual with
    | none =>
      simp only [step, hmanual] at hs
      obtain rfl := Option.some.inj hs
      exact .ignored (by simp only [own, hmanual])
    | some controls =>
      by_cases hindex : index < resetPlatformitems.length ∧ controls.selectedSegmentIndex ≠ index
      · rw [step_segmentTapped hmanual hindex] at hs
        obtain rfl := Option.some.inj hs
        exact .segmentTapped hmanual hindex
      · simp only [step, hmanual, if_neg hindex] at hs
        obtain rfl := Option.some.inj hs
        exact .ignored (by simp only [own, hmanual, if_neg hindex])
  | resetPressed =>
    by_cases hloaded : c.Loaded .manual
    · rw [step_resetPressed] at hs
      obtain rfl := Option.some.inj hs
      exact .reset hloaded
    · simp only [step, if_neg hloaded] at hs
      obtain rfl := Option.some.inj hs
      exact .ignored (if_neg hloaded)
  | automation call =>
    by_cases hcall : call.Accepted
    · have hissue := issue_eq (c := c) (SettingsCall.perform_of_accepted hcall)
      obtain rfl := Option.some.inj (hissue.symm.trans hs)
      exact .automation hcall
    · simp [step, issue, SettingsCall.perform_of_not_accepted hcall] at hs
  | remote event =>
    obtain rfl := Option.some.inj hs
    exact .remote

/-- A read after an answer: one as before, with the farm as its snapshot if it had none. -/
theorem exists_read_of_mem_modify {read : ℕ} {r : FarmRead} (hr : r ∈ c.reads.modify read fun r =>
    { r with snapshot := r.snapshot.or (some c.root) }) :
    ∃ r₀ ∈ c.reads, r₀.window = r.window ∧
      (r.snapshot = r₀.snapshot ∨ r.snapshot = some c.root) := by
  obtain ⟨i, hi⟩ := List.mem_iff_getElem?.1 hr
  rw [List.getElem?_modify, Option.map_eq_map, Option.map_eq_some_iff] at hi
  obtain ⟨r₀, hr₀, rfl⟩ := hi
  refine ⟨r₀, List.mem_of_getElem? hr₀, ?_⟩
  split_ifs
  · cases hsnapshot : r₀.snapshot with
    | none => exact ⟨rfl, Or.inr rfl⟩
    | some n => exact ⟨rfl, Or.inl rfl⟩
  · exact ⟨rfl, Or.inl rfl⟩

theorem updateUi_root {window : FarmWindow} (hc : c.updateUi window = some c') :
    c'.root = c.root := by
  cases window with
  | info =>
    obtain ⟨fields, -, rfl⟩ := updateUi_info_eq_some_iff.1 hc
    rfl
  | manual =>
    obtain ⟨controls, -, rfl⟩ := updateUi_manual_eq_some_iff.1 hc
    rfl

/-- The farm after a step: another party has moved, or this client has written what the event
says. -/
theorem root_of_step (hs : c.step event = some c') :
    (∃ remote, event = .remote remote ∧ c'.root = remote.step c.root) ∨
      c'.root = c.own event c.root := by
  cases transition_of_step hs with
  | remote => exact Or.inl ⟨_, rfl, rfl⟩
  | observed hown hloaded => exact Or.inr (congrFun hown c.root).symm
  | ignored hown => exact Or.inr (congrFun hown c.root).symm
  | shown hloaded hshown =>
    have hroot := updateUi_root hshown
    exact Or.inr hroot
  | delivered hread hshown =>
    have hroot := updateUi_root hshown
    exact Or.inr hroot
  | answered | cancelled | switched | segmentTapped | reset | automation => exact Or.inr rfl

/-- What the console has of the farm after a step is the new farm and what it had before, changed as
this client has changed it. -/
theorem Reflects.step (hlive : ∀ r, live r → passed r) (h : c.Reflects live passed)
    (hs : c.step event = some c') :
    c'.Reflects (fun r => r = c'.root ∨ ∃ u, live u ∧ c.own event u = r) passed := by
  have hkept (hown : c.own event = id) (r : FNode) (hr : live r) :
      r = c'.root ∨ ∃ u, live u ∧ c.own event u = r :=
    Or.inr ⟨r, hr, congrFun hown r⟩
  cases transition_of_step hs with
  | observed hown => exact (h.observe _).mono (hkept hown) fun _ => id
  | shown hloaded hshown => exact ((h.updateUi hshown).observe _).mono (hkept rfl) fun _ => id
  | @answered read =>
    have hafter := h.mono (hkept rfl) fun _ => id
    refine ⟨hafter.root, fun r hr n hn => ?_, hafter.dataModel, hafter.info⟩
    obtain ⟨r₀, hr₀, -, hsnapshot | hsnapshot⟩ := exists_read_of_mem_modify hr
    · exact hafter.reads r₀ hr₀ n (hsnapshot ▸ hn)
    · exact Or.inl (Option.some.inj (hn.symm.trans hsnapshot))
  | @delivered read window snapshot _ hread hshown =>
    have hsnapshot := hlive _ (h.reads _ (List.mem_of_getElem? hread) snapshot rfl)
    refine Reflects.mono (Reflects.updateUi ?_ hshown) (hkept rfl) fun _ => id
    exact ⟨h.root, (h.eraseRead read).reads, ⟨snapshot, hsnapshot, rfl⟩, h.info⟩
  | @cancelled read => exact (h.eraseRead read).mono (hkept rfl) fun _ => id
  | switched | segmentTapped | reset | automation =>
    exact (h.lay _ _).mono (fun _ => Or.inr) fun _ => id
  | remote =>
    have hafter := h.mono (hkept rfl) fun _ => id
    exact ⟨Or.inl rfl, hafter.reads, hafter.dataModel, hafter.info⟩
  | ignored hown => exact h.mono (hkept hown) fun _ => id

/-! ### A farm record never traps the windows -/

/-- The console has well typed roots only, and the platform control has the item that is chosen. -/
structure Sound (c : Console) : Prop where
  reflects : c.Reflects FarmRecord FarmRecord
  segment : ∀ controls, c.manual = some controls →
    0 ≤ controls.selectedSegmentIndex ∧ controls.selectedSegmentIndex < resetPlatformitems.length

theorem sound_opened {root : FNode} (h : FarmRecord root) (model : DataModel) :
    (opened model root).Sound where
  reflects := (reflects_opened model root).mono (fun _ hr => hr ▸ h) fun _ hr => hr ▸ h
  segment _ hcontrols := by contradiction

theorem exists_infoOf {root : FNode} (h : FarmRecord root) :
    ∃ fields, infoOf root = some fields := by
  obtain ⟨values, hvalues⟩ := h.getFromDataModel {}
  exact ⟨values.writeToUi, by
    rw [infoOf, ControlWindow0.updateUiFromLocalDataModel, hvalues, Option.map_some]⟩

theorem exists_manualOf {root : FNode} (h : FarmRecord root) : ∃ controls,
    manualOf root = some controls ∧ 0 ≤ controls.selectedSegmentIndex ∧
      controls.selectedSegmentIndex < resetPlatformitems.length := by
  obtain ⟨values, hvalues, hmode⟩ := h.updateManaulSettingsPageValues {}
  refine ⟨values.writeToUi, ?_, hmode⟩
  rw [manualOf, ControlWindow2.updateUiFromLocalDataModel, hvalues, Option.map_some]

/-- A window whose data model holds a well typed root shows it. -/
theorem Sound.exists_updateUi (h : c.Sound) (window : FarmWindow) :
    ∃ c', c.updateUi window = some c' ∧ c'.Sound := by
  obtain ⟨r, hr, hmodel⟩ := h.reflects.dataModel
  cases window with
  | info =>
    obtain ⟨fields, hfields⟩ := exists_infoOf hr
    rw [← infoOf_of_firebaseValues hmodel] at hfields
    have hc := updateUi_info_eq_some_iff.2 ⟨fields, hfields, rfl⟩
    exact ⟨_, hc, h.reflects.updateUi hc, h.segment⟩
  | manual =>
    obtain ⟨controls, hcontrols, hsegment⟩ := exists_manualOf hr
    rw [← manualOf_of_firebaseValues hmodel] at hcontrols
    have hc := updateUi_manual_eq_some_iff.2 ⟨controls, hcontrols, rfl⟩
    refine ⟨_, hc, h.reflects.updateUi hc, fun controls' hcontrols' => ?_⟩
    obtain rfl := Option.some.inj hcontrols'
    exact hsegment

instance (call : FarmCall) : Decidable call.Representable :=
  inferInstanceAs (Decidable (∀ write ∈ call.writes, representsExactly write.2 = true))

section Writes

variable {root : FNode}

theorem farmRecord_writeFarmValue (h : FarmRecord root) (call : FarmCall)
    (hcall : call.Representable) {write : String × ℤ} (hwrite : write ∈ call.writes) :
    FarmRecord (writeFarmValue root write) :=
  h.step (show FarmEvent.Representable (.setValue call write hwrite) from hcall)

theorem farmRecord_switched (h : FarmRecord root) (which : ManualSwitch) (isOn : Bool) :
    FarmRecord (writeFarmValue root (which.key, if isOn then 1 else 0)) := by
  have hcall : ∃ call : FarmCall, call.Representable ∧
      (which.key, if isOn then (1 : ℤ) else 0) ∈ call.writes := by
    cases which <;> cases isOn
    exacts [⟨.setGrowLightOff, by decide⟩, ⟨.setGrowLightOn, by decide⟩,
      ⟨.setWaterPumpOff, by decide⟩, ⟨.setWaterPumpOn, by decide⟩, ⟨.setDrainPumpOff, by decide⟩,
      ⟨.setDrainPumpOn, by decide⟩, ⟨.setWaterPurifierOff, by decide⟩,
      ⟨.setWaterPurifierOn, by decide⟩]
  obtain ⟨call, hcall, hmem⟩ := hcall
  exact farmRecord_writeFarmValue h call hcall hmem

theorem farmRecord_segmentTapped (h : FarmRecord root) {index : ℕ}
    (hindex : index < resetPlatformitems.length) :
    FarmRecord (writeFarmValue root ("Servo_Mode", index)) := by
  have hitem : index = 0 ∨ index = 1 := by
    have hlt : index < 2 := hindex
    omega
  rcases hitem with rfl | rfl
  · exact farmRecord_writeFarmValue h (.setServoMode 0) (by decide) (by decide)
  · exact farmRecord_writeFarmValue h (.setServoMode 1) (by decide) (by decide)

theorem farmRecord_reset (h : FarmRecord root) :
    FarmRecord (writeFarmValue root ("Servo_Reset", 1)) :=
  farmRecord_writeFarmValue h .setServoReset (by decide) (by decide)

theorem farmRecord_written (h : FarmRecord root) {call : SettingsCall}
    (hcall : call.Representable) : FarmRecord (call.written root) := by
  cases call with
  | writePlantSettings | deletePlantSettings => exact h.updateChild_users _ _
  | writeAutomatedSettings => exact h.automatedWrites hcall

/-- What this client writes keeps a record. -/
theorem farmRecord_own (h : FarmRecord root) (c : Console) (hevent : event.Admissible) :
    FarmRecord (c.own event root) := by
  cases event with
  | switched which =>
    cases hmanual : c.manual with
    | none => simpa only [own, hmanual, id_eq] using h
    | some controls =>
      rw [own_switched hmanual]
      exact farmRecord_switched h which _
  | segmentTapped index =>
    cases hmanual : c.manual with
    | none => simpa only [own, hmanual, id_eq] using h
    | some controls =>
      by_cases hindex : index < resetPlatformitems.length ∧ controls.selectedSegmentIndex ≠ index
      · rw [own_segmentTapped hmanual hindex]
        exact farmRecord_segmentTapped h hindex.1
      · simpa only [own, hmanual, if_neg hindex, id_eq] using h
  | resetPressed =>
    by_cases hloaded : c.Loaded .manual
    · rw [own_resetPressed hloaded]
      exact farmRecord_reset h
    · simpa only [own, if_neg hloaded, id_eq] using h
  | automation call => exact farmRecord_written h hevent.2
  | appears | tick | answer | deliver | cancel | remote => exact h

end Writes

theorem Sound.observe (h : c.Sound) (window : FarmWindow) : (c.observe window).Sound :=
  ⟨h.reflects.observe window, h.segment⟩

theorem Sound.updateUi (h : c.Sound) {window : FarmWindow} (hc : c.updateUi window = some c') :
    c'.Sound := by
  obtain ⟨c₁, hc₁, hsound⟩ := h.exists_updateUi window
  obtain rfl := Option.some.inj (hc₁.symm.trans hc)
  exact hsound

/-- The console that the completion of a read starts from. -/
theorem Sound.stored (h : c.Sound) {read : ℕ} {window : FarmWindow} {snapshot : FNode}
    (hread : c.reads[read]? = some { window := window, snapshot := some snapshot }) :
    { c with
      dataModel := c.dataModel.storeFirebaseValues snapshot
      reads := c.reads.eraseIdx read }.Sound where
  reflects := ⟨h.reflects.root, (h.reflects.eraseRead read).reads,
    ⟨snapshot, h.reflects.reads _ (List.mem_of_getElem? hread) snapshot rfl, rfl⟩, h.reflects.info⟩
  segment := h.segment

theorem Sound.step (h : c.Sound) (hevent : event.Admissible) (hs : c.step event = some c') :
    c'.Sound := by
  have hroot : FarmRecord c'.root := by
    rcases root_of_step hs with ⟨remote, rfl, hroot⟩ | hroot
    · exact hroot ▸ h.reflects.root.step hevent
    · exact hroot ▸ farmRecord_own h.reflects.root c hevent
  have hreflects : c'.Reflects FarmRecord FarmRecord := by
    refine (h.reflects.step (fun _ => id) hs).mono (fun r hr => ?_) fun _ => id
    rcases hr with rfl | ⟨u, hu, rfl⟩
    · exact hroot
    · exact farmRecord_own hu c hevent
  refine ⟨hreflects, ?_⟩
  cases transition_of_step hs with
  | shown hloaded hshown => exact ((h.updateUi hshown).observe _).segment
  | delivered hread hshown => exact ((h.stored hread).updateUi hshown).segment
  | @switched which controls hmanual =>
    intro controls' hcontrols
    obtain rfl := Option.some.inj hcontrols
    cases which <;> exact h.segment controls hmanual
  | @segmentTapped index controls hmanual hindex =>
    intro controls' hcontrols
    obtain rfl := Option.some.inj hcontrols
    exact ⟨Int.natCast_nonneg index, Int.ofNat_lt.2 hindex.1⟩
  | observed | answered | cancelled | reset | automation | remote | ignored => exact h.segment

/-- No step traps. -/
theorem Sound.exists_step (h : c.Sound) (hevent : event.Admissible) :
    ∃ c', c.step event = some c' ∧ c'.Sound := by
  suffices hs : (c.step event).isSome by
    obtain ⟨c', hc'⟩ := Option.isSome_iff_exists.1 hs
    exact ⟨c', hc', h.step hevent hc'⟩
  cases event with
  | appears window =>
    obtain ⟨c', hc', -⟩ := h.exists_updateUi window
    simp only [Console.step, hc']
    split_ifs <;> rfl
  | deliver read =>
    simp only [Console.step]
    split
    · rename_i window snapshot hread
      obtain ⟨c', hc', -⟩ := (h.stored hread).exists_updateUi window
      rw [hc', Option.isSome_some]
    · rfl
  | switched which =>
    cases hmanual : c.manual with
    | none => simp only [Console.step, hmanual, Option.isSome_some]
    | some controls => rw [step_switched hmanual, Option.isSome_some]
  | segmentTapped index =>
    cases hmanual : c.manual with
    | none => simp only [Console.step, hmanual, Option.isSome_some]
    | some controls =>
      by_cases hindex : index < resetPlatformitems.length ∧ controls.selectedSegmentIndex ≠ index
      · rw [step_segmentTapped hmanual hindex, Option.isSome_some]
      · simp only [Console.step, hmanual, if_neg hindex, Option.isSome_some]
  | resetPressed => rw [step_resetPressed, Option.isSome_some]
  | automation call =>
    have hissue := issue_eq (c := c) (SettingsCall.perform_of_accepted hevent.1)
    exact Option.isSome_of_eq_some hissue
  | tick | answer | cancel | remote => rfl

/-- Whatever happens to a tab bar that has been pushed for a farm record, as long as no call raises
and the numbers written are ones a double represents, nothing traps, the Info window shows what one
root that the run has passed reads out as, with what this client has written since laid over it,
never a mixture of two, and the platform control has the item that is chosen. -/
theorem info_shows_one_state {root : FNode} (h : FarmRecord root) (model : DataModel)
    (events : List ConsoleEvent) (hevents : ∀ event ∈ events, event.Admissible) :
    ∃ c, Runs.run step (opened model root) events = some c ∧
      (∀ fields, c.info = some fields → ∃ r,
        Runs.Passed step Console.root own (opened model root) events r ∧
          infoOf r = some fields) ∧
      ∀ controls, c.manual = some controls → 0 ≤ controls.selectedSegmentIndex ∧
        controls.selectedSegmentIndex < resetPlatformitems.length := by
  have hexists : ∃ c, Runs.run step (opened model root) events = some c ∧ c.Sound :=
    Runs.exists_run_of_invariant (fun _ _ hc hevent => hc.exists_step hevent)
      (sound_opened h model) hevents
  obtain ⟨c, hrun, hsound⟩ := hexists
  have hreflects : c.Reflects (Runs.Carried step Console.root own (opened model root) events)
      (Runs.Passed step Console.root own (opened model root) events) :=
    Runs.run_invariant_of_passed (fun _ _ _ _ hlive hpassed _ hc => hc.mono hlive hpassed)
      (fun _ _ _ _ _ hlive hc hs => hc.step hlive hs) (reflects_opened model root) hrun
  exact ⟨c, hrun, hreflects.info, hsound.segment⟩

/-- The lights are switched on and the farm grows hot while an answered read is on its way to the
Info window. -/
def hotFarm : List ConsoleEvent :=
  [.appears .info, .appears .manual, .answer 0, .remote (.temperature (.double 80) rfl),
    .switched .light, .deliver 0]

theorem info_shows_one_state_newFarm : ∃ c,
    Runs.run step (opened {} newFarm) hotFarm = some c ∧
      (∀ fields, c.info = some fields → ∃ r,
        Runs.Passed step Console.root own (opened {} newFarm) hotFarm r ∧
          infoOf r = some fields) ∧
      ∀ controls, c.manual = some controls → 0 ≤ controls.selectedSegmentIndex ∧
        controls.selectedSegmentIndex < resetPlatformitems.length := by
  refine info_shows_one_state farmRecord_newFarm {} hotFarm ?_
  simp [hotFarm, ConsoleEvent.Admissible, FarmEvent.Representable]

/-- The Info window then shows the lights on and the temperature from before. -/
example : ((Runs.run step (opened {} newFarm) hotFarm).bind Console.info).map
      (fun fields => (fields.lightVal.text, fields.tempVal.text)) =
    some (.literal "On", .description (143 / 2)) := by
  decide +kernel

/-! ### The Manual window and the farm -/

section ManualOf

variable {root : FNode} {controls : ManualControls}

/-- The controls of the Manual window for a record: each switch and the item of the platform. -/
theorem manualOf_eq_some_iff (h : FarmRecord root) : manualOf root = some controls ↔
    (∀ which : ManualSwitch,
      (root.farmInt which.key).map (fun n => decide (n = 1)) = some (controls.isOn which)) ∧
    root.farmInt "Servo_Mode" = some controls.selectedSegmentIndex := by
  unfold manualOf ControlWindow2.updateUiFromLocalDataModel
    ControlWindow2.updateManaulSettingsPageValues getGrowLight getWaterPump getDrainPump
    getWaterPurifier DataModel.getServoMode
  repeat rw [h.farmInt_afterDatabaseRead {} (by decide)]
  simp only [Option.bind_eq_bind, Option.map_eq_some_iff, Option.bind_eq_some_iff]
  constructor
  · rintro ⟨_, ⟨light, hlight, pump, hpump, drain, hdrain, purifier, hpurifier, mode, hmode,
      hvalues⟩, rfl⟩
    obtain rfl := Option.some.inj hvalues
    refine ⟨fun which => ?_, hmode⟩
    cases which
    exacts [⟨light, hlight, rfl⟩, ⟨pump, hpump, rfl⟩, ⟨drain, hdrain, rfl⟩,
      ⟨purifier, hpurifier, rfl⟩]
  · rintro ⟨hswitch, hmode⟩
    obtain ⟨light, hlight, hlight'⟩ := hswitch .light
    obtain ⟨pump, hpump, hpump'⟩ := hswitch .waterPump
    obtain ⟨drain, hdrain, hdrain'⟩ := hswitch .drainPump
    obtain ⟨purifier, hpurifier, hpurifier'⟩ := hswitch .waterPurifier
    refine ⟨_, ⟨light, hlight, pump, hpump, drain, hdrain, purifier, hpurifier, _, hmode, rfl⟩, ?_⟩
    cases controls
    simp only [ControlWindow2.writeToUi, hlight', hpump', hdrain', hpurifier', ManualControls.isOn]

theorem manualOf_switched (h : FarmRecord root) (hcontrols : manualOf root = some controls)
    (which : ManualSwitch) (isOn : Bool) :
    manualOf (writeFarmValue root (which.key, if isOn then 1 else 0)) =
      some (controls.setOn isOn which) := by
  rw [manualOf_eq_some_iff h] at hcontrols
  rw [manualOf_eq_some_iff (farmRecord_switched h which isOn)]
  refine ⟨fun other => ?_, ?_⟩
  · rw [farmInt_writeFarmValue root which.key_mem_farmKeys]
    by_cases hwhich : which = other
    · subst hwhich
      rw [if_pos rfl, Option.map_some, isOn_setOn]
      cases isOn <;> rfl
    · have hkey : which.key ≠ other.key := by
        cases which <;> cases other <;> first | exact absurd rfl hwhich | decide
      rw [if_neg hkey, hcontrols.1 other]
      cases which <;> cases other <;> first | exact absurd rfl hwhich | rfl
  · have hkey : which.key ≠ "Servo_Mode" := by cases which <;> decide
    rw [farmInt_writeFarmValue root which.key_mem_farmKeys, if_neg hkey, hcontrols.2]
    cases which <;> rfl

theorem manualOf_segmentTapped (h : FarmRecord root) (hcontrols : manualOf root = some controls)
    {index : ℕ} (hindex : index < resetPlatformitems.length) :
    manualOf (writeFarmValue root ("Servo_Mode", index)) =
      some { controls with selectedSegmentIndex := index } := by
  have hmem : "Servo_Mode" ∈ farmKeys := by decide
  rw [manualOf_eq_some_iff h] at hcontrols
  rw [manualOf_eq_some_iff (farmRecord_segmentTapped h hindex)]
  refine ⟨fun which => ?_, ?_⟩
  · have hkey : "Servo_Mode" ≠ which.key := by cases which <;> decide
    rw [farmInt_writeFarmValue root hmem, if_neg hkey, hcontrols.1 which]
    cases which <;> rfl
  · rw [farmInt_writeFarmValue root hmem, if_pos rfl]

/-- A write that leaves the values of the controls alone. -/
theorem manualOf_of_farmInt {root' : FNode} (h : FarmRecord root) (h' : FarmRecord root')
    (hcontrols : manualOf root = some controls)
    (hswitch : ∀ which : ManualSwitch, root'.farmInt which.key = root.farmInt which.key)
    (hmode : root'.farmInt "Servo_Mode" = root.farmInt "Servo_Mode") :
    manualOf root' = some controls := by
  rw [manualOf_eq_some_iff h] at hcontrols
  rw [manualOf_eq_some_iff h', hmode]
  exact ⟨fun which => (hswitch which).symm ▸ hcontrols.1 which, hcontrols.2⟩

theorem manualOf_reset (h : FarmRecord root) (hcontrols : manualOf root = some controls) :
    manualOf (writeFarmValue root ("Servo_Reset", 1)) = some controls := by
  have hmem : "Servo_Reset" ∈ farmKeys := by decide
  refine manualOf_of_farmInt h (farmRecord_reset h) hcontrols (fun which => ?_) ?_
  · have hkey : "Servo_Reset" ≠ which.key := by cases which <;> decide
    rw [farmInt_writeFarmValue root hmem, if_neg hkey]
  · rw [farmInt_writeFarmValue root hmem, if_neg (by decide)]

/-- The calls of the Automation window write below the users, or the limits of the farm. -/
theorem manualOf_written (h : FarmRecord root) {call : SettingsCall} (hcall : call.Representable)
    (hcontrols : manualOf root = some controls) :
    manualOf (call.written root) = some controls := by
  have hkept : ∀ key ∈ ["Grow_Light", "Water_Pump", "Drain_Pump", "Water_Purifier", "Servo_Mode"],
      (call.written root).farmInt key = root.farmInt key := by
    intro key hkey
    cases call with
    | writePlantSettings | deletePlantSettings =>
      have hne : compareKey "users" key ≠ .eq := by
        revert key
        decide
      rw [SettingsCall.written, FNode.farmInt, userPath, List.cons_append,
        FNode.getImmediateChild_updateChild_cons, if_neg hne, FNode.farmInt]
    | writeAutomatedSettings timer sleep temp =>
      have hmem : key ∈ ["Temperature", "Water_Level", "Grow_Light", "Water_Pump", "Drain_Pump",
          "Water_Purifier", "Servo_Mode"] := by
        revert key
        decide
      rw [SettingsCall.written, FNode.farmInt,
        getImmediateChild_of_started (started_automatedWrites ..) key hmem, FNode.farmInt]
  refine manualOf_of_farmInt h (farmRecord_written h hcall) hcontrols (fun which => ?_)
    (hkept _ (by decide))
  exact hkept _ (by cases which <;> decide)

end ManualOf

/-- The Manual window shows the farm, and so does every answered read on its way to it. -/
structure InStep (c : Console) : Prop where
  window : ∀ controls, c.manual = some controls → manualOf c.root = some controls
  reads : ∀ read ∈ c.reads, read.window = .manual → ∀ n, read.snapshot = some n →
    manualOf n = manualOf c.root

/-- The step does not put the Manual window out of step: the window first appears with the values
that the farm has, and the other parties do not change the values of the controls while the window
is loaded. -/
def Undisturbed (c : Console) : ConsoleEvent → Prop
  | .appears .manual => c.manual = none →
    ControlWindow2.updateUiFromLocalDataModel c.dataModel = manualOf c.root
  | .remote event => c.manual.isSome → manualOf (event.step c.root) = manualOf c.root
  | _ => True

/-- What the steps of a console keep. -/
structure Watched (c : Console) : Prop where
  sound : c.Sound
  inStep : c.InStep
  loaded : ∀ read ∈ c.reads, read.window = .manual → c.manual.isSome

theorem watched_opened {root : FNode} (h : FarmRecord root) (model : DataModel) :
    (opened model root).Watched where
  sound := sound_opened h model
  inStep := ⟨fun _ hcontrols => by contradiction, fun _ hread => absurd hread List.not_mem_nil⟩
  loaded _ hread := absurd hread List.not_mem_nil

/-- A window that is asked to show the data model, when that agrees with the farm if it is the
Manual window. -/
theorem InStep.updateUi (h : c.InStep) {window : FarmWindow}
    (hmodel : window = .manual →
      ControlWindow2.updateUiFromLocalDataModel c.dataModel = manualOf c.root)
    (hc : c.updateUi window = some c') :
    c'.InStep ∧ c'.root = c.root ∧ c'.reads = c.reads ∧ (c.manual.isSome → c'.manual.isSome) ∧
      c'.Loaded window := by
  cases window with
  | info =>
    obtain ⟨fields, -, rfl⟩ := updateUi_info_eq_some_iff.1 hc
    exact ⟨⟨h.window, h.reads⟩, rfl, rfl, id, rfl⟩
  | manual =>
    obtain ⟨controls, hcontrols, rfl⟩ := updateUi_manual_eq_some_iff.1 hc
    refine ⟨⟨fun controls' hcontrols' => ?_, h.reads⟩, rfl, rfl, fun _ => rfl, rfl⟩
    obtain rfl := Option.some.inj hcontrols'
    rw [← hmodel rfl, hcontrols]

theorem InStep.observe (h : c.InStep) (window : FarmWindow) : (c.observe window).InStep := by
  refine ⟨h.window, fun read hread hwindow n hn => ?_⟩
  rcases List.mem_append.1 hread with hread | hread
  · exact h.reads read hread hwindow n hn
  · obtain rfl := List.mem_singleton.1 hread
    contradiction

theorem loaded_observe {window : FarmWindow} (hwindow : c.Loaded window)
    (hloaded : ∀ read ∈ c.reads, read.window = .manual → c.manual.isSome) :
    ∀ read ∈ (c.observe window).reads, read.window = .manual → c.manual.isSome := by
  intro read hread hmanual
  rcases List.mem_append.1 hread with hread | hread
  · exact hloaded read hread hmanual
  · obtain rfl := List.mem_singleton.1 hread
    obtain rfl : window = .manual := hmanual
    exact hwindow

/-- A write of this client that changes the controls of the window as it changes those of every
record keeps them in step. -/
theorem Watched.lay (h : c.Watched) {controls controls' : ManualControls}
    (hmanual : c.manual = some controls) {write : FNode → FNode}
    (hwrite : ∀ n, FarmRecord n → manualOf n = some controls →
      manualOf (write n) = some controls') :
    { c.lay write with manual := some controls' }.InStep := by
  have hcontrols := h.inStep.window controls hmanual
  have hroot := hwrite c.root h.sound.reflects.root hcontrols
  refine ⟨fun controls'' hcontrols'' => ?_, fun r hr hwindow n hn => ?_⟩
  · obtain rfl := Option.some.inj hcontrols''
    exact hroot
  · obtain ⟨r₀, hr₀, hwindow₀, hsnapshot⟩ := exists_read_of_mem_lay hr
    rw [hsnapshot, Option.map_eq_some_iff] at hn
    obtain ⟨n₀, hn₀, rfl⟩ := hn
    have hn₀controls := h.inStep.reads r₀ hr₀ (hwindow₀.trans hwindow) n₀ hn₀
    exact (hwrite n₀ (h.sound.reflects.reads r₀ hr₀ n₀ hn₀) (hn₀controls.trans hcontrols)).trans
      hroot.symm

/-- So does a write that leaves the controls of every record alone. -/
theorem Watched.lay_of_kept (h : c.Watched) {write : FNode → FNode}
    (hwrite : ∀ n controls, FarmRecord n → manualOf n = some controls →
      manualOf (write n) = some controls) : (c.lay write).InStep := by
  cases hmanual : c.manual with
  | some controls =>
    have hinStep := h.lay hmanual fun n => hwrite n controls
    rw [← hmanual] at hinStep
    exact hinStep
  | none =>
    -- no read is on its way to a window that is not there
    refine ⟨fun controls hcontrols => ?_, fun r hr hwindow => ?_⟩
    · rw [show (c.lay write).manual = none from hmanual] at hcontrols
      contradiction
    · obtain ⟨r₀, hr₀, hwindow₀, -⟩ := exists_read_of_mem_lay hr
      have hsome := h.loaded r₀ hr₀ (hwindow₀.trans hwindow)
      rw [hmanual] at hsome
      contradiction

theorem Watched.loaded_lay (h : c.Watched) (write : FNode → FNode) :
    ∀ read ∈ (c.lay write).reads, read.window = .manual → c.manual.isSome := by
  intro r hr hwindow
  obtain ⟨r₀, hr₀, hwindow₀, -⟩ := exists_read_of_mem_lay hr
  exact h.loaded r₀ hr₀ (hwindow₀.trans hwindow)

/-- An undisturbed step keeps the Manual window in step. -/
theorem Watched.step (h : c.Watched) (hevent : event.Admissible) (hu : c.Undisturbed event)
    (hs : c.step event = some c') : c'.Watched := by
  suffices hafter : c'.InStep ∧ ∀ read ∈ c'.reads, read.window = .manual → c'.manual.isSome from
    ⟨h.sound.step hevent hs, hafter.1, hafter.2⟩
  cases transition_of_step hs with
  | observed hevent hloaded => exact ⟨h.inStep.observe _, loaded_observe hloaded h.loaded⟩
  | @shown window c₁ hloaded hshown =>
    have hmodel : window = .manual →
        ControlWindow2.updateUiFromLocalDataModel c.dataModel = manualOf c.root := by
      rintro rfl
      exact hu (Option.not_isSome_iff_eq_none.1 hloaded)
    obtain ⟨hinStep, -, hreads, hsome, hwindow⟩ := h.inStep.updateUi hmodel hshown
    refine ⟨hinStep.observe window, loaded_observe hwindow fun read hread hmanual => ?_⟩
    exact hsome (h.loaded read (hreads ▸ hread) hmanual)
  | answered =>
    refine ⟨⟨h.inStep.window, fun r hr hwindow n hn => ?_⟩, fun r hr hwindow => ?_⟩
    · obtain ⟨r₀, hr₀, hwindow₀, hsnapshot | hsnapshot⟩ := exists_read_of_mem_modify hr
      · exact h.inStep.reads r₀ hr₀ (hwindow₀.trans hwindow) n (hsnapshot ▸ hn)
      · rw [Option.some.inj (hn.symm.trans hsnapshot)]
    · obtain ⟨r₀, hr₀, hwindow₀, -⟩ := exists_read_of_mem_modify hr
      exact h.loaded r₀ hr₀ (hwindow₀.trans hwindow)
  | @delivered read window snapshot _ hread hshown =>
    have herase : { c with
        dataModel := c.dataModel.storeFirebaseValues snapshot
        reads := c.reads.eraseIdx read }.InStep :=
      ⟨h.inStep.window, fun r hr => h.inStep.reads r (List.mem_of_mem_eraseIdx hr)⟩
    have hmodel : window = .manual → ControlWindow2.updateUiFromLocalDataModel
        (c.dataModel.storeFirebaseValues snapshot) = manualOf c.root := by
      rintro rfl
      rw [manualOf_of_firebaseValues rfl]
      exact h.inStep.reads _ (List.mem_of_getElem? hread) rfl snapshot rfl
    obtain ⟨hinStep, -, hreads, hsome, -⟩ := herase.updateUi hmodel hshown
    refine ⟨hinStep, fun r hr hmanual => hsome ?_⟩
    rw [hreads] at hr
    exact h.loaded r (List.mem_of_mem_eraseIdx hr) hmanual
  | cancelled =>
    exact ⟨⟨h.inStep.window, fun r hr => h.inStep.reads r (List.mem_of_mem_eraseIdx hr)⟩,
      fun r hr => h.loaded r (List.mem_of_mem_eraseIdx hr)⟩
  | @switched which controls hmanual =>
    rw [own_switched hmanual]
    exact ⟨h.lay hmanual fun n hn hcontrols => manualOf_switched hn hcontrols which _,
      fun _ _ _ => rfl⟩
  | @segmentTapped index controls hmanual hindex =>
    rw [own_segmentTapped hmanual hindex]
    exact ⟨h.lay hmanual fun n hn hcontrols => manualOf_segmentTapped hn hcontrols hindex.1,
      fun _ _ _ => rfl⟩
  | reset hloaded =>
    rw [own_resetPressed hloaded]
    exact ⟨h.lay_of_kept fun n controls => manualOf_reset, h.loaded_lay _⟩
  | automation =>
    exact ⟨h.lay_of_kept fun n controls hn => manualOf_written hn hevent.2, h.loaded_lay _⟩
  | @remote event =>
    refine ⟨⟨fun controls hcontrols => ?_, fun r hr hwindow n hn => ?_⟩, h.loaded⟩
    · exact (hu (hcontrols ▸ rfl)).trans (h.inStep.window controls hcontrols)
    · exact (h.inStep.reads r hr hwindow n hn).trans (hu (h.loaded r hr hwindow)).symm
  | ignored => exact ⟨h.inStep, h.loaded⟩

/-- A step after which the Manual window is in step has not disturbed it. -/
theorem Watched.undisturbed (h : c.Watched) (hs : c.step event = some c') (h' : c'.InStep) :
    c.Undisturbed event := by
  cases event with
  | appears window =>
    cases window with
    | info => trivial
    | manual =>
      intro hnone
      have hloaded : ¬ c.Loaded .manual := by simp [Loaded, hnone]
      simp only [Console.step, if_neg hloaded] at hs
      obtain ⟨c₁, hc₁, rfl⟩ := Option.map_eq_some_iff.1 hs
      obtain ⟨controls, hcontrols, rfl⟩ := updateUi_manual_eq_some_iff.1 hc₁
      exact hcontrols.trans (h'.window controls rfl).symm
  | remote event =>
    intro hsome
    obtain ⟨controls, hmanual⟩ := Option.isSome_iff_exists.1 hsome
    obtain rfl := Option.some.inj hs
    rw [h'.window controls hmanual, h.inStep.window controls hmanual]
  | tick | answer | deliver | cancel | switched | segmentTapped | resetPressed | automation =>
    trivial

/-- The lights are switched on while an answered read is on its way. -/
def litFarm : List ConsoleEvent :=
  [.appears .manual, .answer 0, .switched .light, .deliver 0]

/-- The read does not put the switch back. -/
example : (Runs.run step (opened {} newFarm) litFarm).map (fun c =>
      (c.manual.map ManualControls.lightSwitch, c.root.farmInt "Grow_Light")) =
    some (some true, some 1) := by
  decide +kernel

end Console

end IndoorFarm
