import IndoorFarm.Presses
import IndoorFarm.Refresh

/-!
# Loaded settings screens

What holds of the settings screen from `viewDidLoad` on, whatever the user and the other clients do:
the three setting drop-downs keep their options, their open lists show these options, and a chosen
index is one of them (`Loaded`, kept by every step: `loaded_step`).

A tap on a row of the plant drop-down is summed up by two lemmas: what it does when it does not trap
(`Loaded.of_tapRow_plant`), and that it does not when the option is a plant whose settings have an
option each (`Loaded.tapRow_plant`).
-/

namespace IndoorFarm

/-! ## One drop-down -/

namespace UIDropDown

/-- A drop-down whose options never change. -/
structure HasOptions (options : List String) (d : UIDropDown) : Prop where
  options_eq : d.options = options
  rows : d.isSelected = true → d.rows = options
  selected : ∀ index, d.selectedIndex = some index → 0 ≤ index ∧ index < options.length

variable {options : List String} {d d' : UIDropDown}

theorem select_eq_some_iff (index : ℤ) :
    d.select index = some d' ↔ ∃ text, d.option index = some text ∧
      d' = { d with selectedIndex := some index, placeholder := text, title := text } := by
  unfold select showOption
  rw [Option.map_eq_some_iff]
  exact exists_congr fun text => and_congr_right fun _ => eq_comm

theorem HasOptions.touch (h : HasOptions options d) : HasOptions options d.touch where
  options_eq := d.options_touch.trans h.options_eq
  rows hopen := (rows_touch hopen).trans h.options_eq
  selected := d.selectedIndex_touch ▸ h.selected

theorem HasOptions.setPlaceholder (h : HasOptions options d) (text : String) :
    HasOptions options (d.setPlaceholder text) := ⟨h.options_eq, h.rows, h.selected⟩

theorem HasOptions.select (h : HasOptions options d) {index : ℤ} (hd : d.select index = some d') :
    HasOptions options d' := by
  obtain ⟨text, htext, rfl⟩ := (select_eq_some_iff index).1 hd
  obtain ⟨h0, hlt⟩ := (option_eq_some_iff d index text).1 htext
  rw [h.options_eq] at hlt
  obtain ⟨hlt, -⟩ := List.getElem?_eq_some_iff.1 hlt
  refine ⟨h.options_eq, h.rows, fun i hi => ?_⟩
  obtain rfl : index = i := Option.some.inj hi
  omega

theorem HasOptions.exists_select (h : HasOptions options d) {index : ℤ} (h0 : 0 ≤ index)
    (hlt : index < options.length) : ∃ text, options[index.toNat]? = some text ∧ d.select index =
      some { d with selectedIndex := some index, placeholder := text, title := text } := by
  rw [← h.options_eq] at hlt ⊢
  obtain ⟨text, htext⟩ := exists_option h0 hlt
  exact ⟨text, ((option_eq_some_iff d index text).1 htext).2,
    (select_eq_some_iff index).2 ⟨text, htext, rfl⟩⟩

end UIDropDown

/-! ## The screen -/

/-- The options of a setting drop-down. -/
def Dropdown.settingOptions : Dropdown → List String
  | .plant => []
  | .growLightMaxTimer => cycleOptions
  | .growLightMaxSleep => cycleOptions
  | .growLightMaxTemp => tempOptions

structure ControlWindow1.Loaded (screen : ControlWindow1) : Prop where
  hide : ∀ which, (screen.dropdown which).hideOptionsWhenSelect = false
  setting : ∀ which ≠ .plant, (screen.dropdown which).HasOptions which.settingOptions

/-- Each of the three settings has an option that stands for it. -/
structure PlantSettings.InRange (settings : PlantSettings) : Prop where
  timer : 0 ≤ settings.growLightMaxtimer.tdiv 30 ∧
    settings.growLightMaxtimer.tdiv 30 < cycleOptions.length
  sleep : 0 ≤ settings.growLightMaxsleep.tdiv 30 ∧
    settings.growLightMaxsleep.tdiv 30 < cycleOptions.length
  temp : 0 ≤ settings.growLightMaxtemp.tdiv 20 - 1 ∧
    settings.growLightMaxtemp.tdiv 20 - 1 < tempOptions.length

/-- The drop-down has chosen the option with this index and shows its label. -/
def UIDropDown.ShowsIndex (d : UIDropDown) (options : List String) (index : ℤ) : Prop :=
  d.selectedIndex = some index ∧ options[index.toNat]? = some d.placeholder

/-- The fields of the screen are those of a plant. -/
structure ControlWindow1.ShowsPlant (screen : ControlWindow1) (name : String)
    (settings : PlantSettings) : Prop where
  name : screen.plantNameView = name
  trait : screen.plantTraitView = settings.plantTrait
  timer : screen.growLightMaxTimerDropdown.ShowsIndex cycleOptions
    (settings.growLightMaxtimer.tdiv 30)
  sleep : screen.growLightMaxSleepDropdown.ShowsIndex cycleOptions
    (settings.growLightMaxsleep.tdiv 30)
  temp : screen.growLightMaxTempDropdown.ShowsIndex tempOptions
    (settings.growLightMaxtemp.tdiv 20 - 1)

namespace ControlWindow1

variable {screen screen' : ControlWindow1}

theorem dropdown_setDropdown (screen : ControlWindow1) (d : UIDropDown) (which which' : Dropdown) :
    (screen.setDropdown d which).dropdown which' =
      if which = which' then d else screen.dropdown which' := by
  cases which <;> cases which' <;> rfl

theorem Loaded.setDropdown (h : screen.Loaded) {which : Dropdown} {d : UIDropDown}
    (hhide : d.hideOptionsWhenSelect = false)
    (hsetting : which ≠ .plant → d.HasOptions which.settingOptions) :
    (screen.setDropdown d which).Loaded := by
  refine ⟨fun which' => ?_, fun which' hne => ?_⟩ <;> rw [dropdown_setDropdown]
  · split_ifs
    exacts [hhide, h.hide which']
  · split_ifs with heq
    · subst heq
      exact hsetting hne
    · exact h.setting which' hne

theorem Loaded.touch (h : screen.Loaded) (which : Dropdown) :
    (screen.setDropdown (screen.dropdown which).touch which).Loaded := by
  refine h.setDropdown ?_ fun hne => (h.setting which hne).touch
  rw [UIDropDown.hideOptionsWhenSelect_touch, h.hide which]

theorem setDropdown_setDropdown (screen : ControlWindow1) (d d' : UIDropDown) (which : Dropdown) :
    (screen.setDropdown d which).setDropdown d' which = screen.setDropdown d' which := by
  cases which <;> rfl

theorem didSelect_setting (screen : ControlWindow1) (option : String) (index : ℕ)
    {which : Dropdown} (hne : which ≠ .plant) :
    screen.didSelect option index which =
      ((screen.dropdown which).showOption index).map fun d => screen.setDropdown d which := by
  cases which with
  | plant => exact absurd rfl hne
  | growLightMaxTimer | growLightMaxSleep | growLightMaxTemp => rfl

/-- A tap on a row of a setting drop-down chooses the option of the row. -/
theorem tapRow_setting (h : screen.Loaded) {which : Dropdown} (hne : which ≠ .plant) {row : ℕ}
    {text : String} (hrow : which.settingOptions[row]? = some text) :
    screen.tapRow which row = some (screen.setDropdown { screen.dropdown which with
      selectedIndex := some row, placeholder := text, title := text,
      rows := which.settingOptions } which) := by
  have hoptions := (h.setting which hne).options_eq
  unfold tapRow
  rw [UIDropDown.didSelectRowAt_eq _ _ (h.hide which), hoptions, hrow]
  simp only [Option.map_some, Option.bind_eq_bind, Option.bind_some]
  rw [didSelect_setting _ _ _ hne, dropdown_setDropdown, if_pos rfl, UIDropDown.showOption,
    UIDropDown.option_natCast, hoptions, hrow]
  simp only [Option.map_some, setDropdown_setDropdown, UIDropDown.setPlaceholder]

theorem Loaded.tapRow_setting (h : screen.Loaded) {which : Dropdown} (hne : which ≠ .plant)
    {row : ℕ} (hrow : row < which.settingOptions.length) :
    ∃ screen', screen.tapRow which row = some screen' ∧ screen'.Loaded ∧
      screen'.dataModel = screen.dataModel ∧ screen'.plantDropdown = screen.plantDropdown := by
  refine ⟨_, ControlWindow1.tapRow_setting h hne (List.getElem?_eq_getElem hrow), ?_, ?_⟩
  · refine h.setDropdown (h.hide which) fun _ => ?_
    refine ⟨(h.setting which hne).options_eq, fun _ => rfl, fun index hindex => ?_⟩
    obtain rfl : (row : ℤ) = index := Option.some.inj hindex
    omega
  · cases which with
    | plant => exact absurd rfl hne
    | growLightMaxTimer | growLightMaxSleep | growLightMaxTemp => exact ⟨rfl, rfl⟩

/-! ### Taps on the plant drop-down -/

/-- The plant drop-down after a tap on a row that shows `text`. -/
def tapped (screen : ControlWindow1) (row : ℕ) (text : String) : UIDropDown :=
  { screen.plantDropdown with
    selectedIndex := some row
    placeholder := text
    title := text
    rows := screen.plantDropdown.options }

/-- What a tap on a row of the plant drop-down does: it loads the plant at this index of the
options. -/
theorem tapRow_plant_eq (h : screen.Loaded) (row : ℕ) :
    screen.tapRow .plant row =
      screen.plantDropdown.options[row]?.bind fun name =>
      (screen.dataModel.plantSettings name).bind fun settings =>
      (screen.growLightMaxTimerDropdown.select
        (settings.growLightMaxtimer.tdiv 30)).bind fun timer =>
      (screen.growLightMaxSleepDropdown.select
        (settings.growLightMaxsleep.tdiv 30)).bind fun sleep =>
      (screen.growLightMaxTempDropdown.select
        (settings.growLightMaxtemp.tdiv 20 - 1)).map fun temp =>
      { dataModel := screen.dataModel
        plantDropdown := screen.tapped row name
        plantNameView := name
        plantTraitView := settings.plantTrait
        growLightMaxTimerDropdown := timer
        growLightMaxSleepDropdown := sleep
        growLightMaxTempDropdown := temp } := by
  unfold tapRow
  rw [UIDropDown.didSelectRowAt_eq _ _ (h.hide .plant)]
  simp only [dropdown]
  cases hname : screen.plantDropdown.options[row]? with
  | none => rfl
  | some name =>
    simp only [Option.map_some, Option.bind_eq_bind, Option.bind_some, didSelect,
      plantDropdownDidSelect, setDropdown, UIDropDown.showOption, UIDropDown.option_natCast, hname,
      DataModel.plantSettings]
    cases screen.dataModel.getPlantSettingPlantTrait name <;>
      cases screen.dataModel.getPlantSettingGrowLightMaxtimer name <;>
      cases screen.dataModel.getPlantSettingGrowLightMaxsleep name <;>
      cases screen.dataModel.getPlantSettingGrowLightMaxtemp name <;> simp [Option.map_eq_bind]
    rfl

/-- A tap that does not trap has loaded a plant, under the name at this index of the options. -/
theorem Loaded.of_tapRow_plant (h : screen.Loaded) {row : ℕ}
    (hs : screen.tapRow .plant row = some screen') :
    screen'.Loaded ∧ screen'.dataModel = screen.dataModel ∧
      screen.plantDropdown.options[row]? = some screen'.plantNameView ∧
      screen'.plantDropdown = screen.tapped row screen'.plantNameView := by
  rw [tapRow_plant_eq h] at hs
  simp only [Option.bind_eq_some_iff, Option.map_eq_some_iff] at hs
  obtain ⟨name, hname, settings, -, timer, htimer, sleep, hsleep, temp, htemp, rfl⟩ := hs
  have hset := fun which hne => h.setting which hne
  refine ⟨⟨fun which => ?_, fun which hne => ?_⟩, rfl, hname, rfl⟩
  · obtain ⟨_, -, rfl⟩ := (UIDropDown.select_eq_some_iff _).1 htimer
    obtain ⟨_, -, rfl⟩ := (UIDropDown.select_eq_some_iff _).1 hsleep
    obtain ⟨_, -, rfl⟩ := (UIDropDown.select_eq_some_iff _).1 htemp
    have := h.hide which
    cases which <;> exact this
  · cases which with
    | plant => exact absurd rfl hne
    | growLightMaxTimer => exact (hset .growLightMaxTimer hne).select htimer
    | growLightMaxSleep => exact (hset .growLightMaxSleep hne).select hsleep
    | growLightMaxTemp => exact (hset .growLightMaxTemp hne).select htemp

/-- A tap on a plant whose settings have an option each does not trap, and shows the plant. -/
theorem Loaded.tapRow_plant (h : screen.Loaded) {row : ℕ} {name : String}
    {settings : PlantSettings} (hrow : screen.plantDropdown.options[row]? = some name)
    (hsettings : screen.dataModel.plantSettings name = some settings) (hrange : settings.InRange) :
    ∃ screen', screen.tapRow .plant row = some screen' ∧ screen'.ShowsPlant name settings := by
  have htimer := h.setting .growLightMaxTimer Dropdown.noConfusion
  have hsleep := h.setting .growLightMaxSleep Dropdown.noConfusion
  have htemp := h.setting .growLightMaxTemp Dropdown.noConfusion
  obtain ⟨timerText, htimerText, htimer⟩ := htimer.exists_select hrange.timer.1 hrange.timer.2
  obtain ⟨sleepText, hsleepText, hsleep⟩ := hsleep.exists_select hrange.sleep.1 hrange.sleep.2
  obtain ⟨tempText, htempText, htemp⟩ := htemp.exists_select hrange.temp.1 hrange.temp.2
  simp only [dropdown] at htimer hsleep htemp
  rw [tapRow_plant_eq h, hrow, Option.bind_some, hsettings, Option.bind_some, htimer,
    Option.bind_some, hsleep, Option.bind_some, htemp, Option.map_some]
  exact ⟨_, rfl, rfl, rfl, ⟨rfl, htimerText⟩, ⟨rfl, hsleepText⟩, ⟨rfl, htempText⟩⟩

/-! ### Loading, presses and reads -/

theorem loaded_viewDidLoad {model : DataModel} {order : List String} {screen : ControlWindow1}
    (h : viewDidLoad model order = some screen) : screen.Loaded := by
  unfold viewDidLoad at h
  simp only [Option.bind_eq_bind, Option.bind_eq_some_iff] at h
  obtain ⟨options, -, h⟩ := h
  obtain rfl := Option.some.inj h
  refine ⟨fun which => ?_, fun which hne => ?_⟩
  · cases which <;> rfl
  · cases which with
    | plant => exact absurd rfl hne
    | growLightMaxTimer | growLightMaxSleep | growLightMaxTemp =>
      exact ⟨rfl, fun h => Bool.noConfusion h, fun _ h => (Option.some_ne_none _ h.symm).elim⟩

theorem Loaded.resetViews (h : screen.Loaded) :
    screen.resetViews.Loaded := by
  refine ⟨fun which => ?_, fun which hne => ?_⟩
  · have hhide := h.hide which
    cases which <;> exact hhide
  · have hsetting := h.setting which hne
    cases which with
    | plant => exact absurd rfl hne
    | growLightMaxTimer | growLightMaxSleep | growLightMaxTemp => exact hsetting.setPlaceholder _

/-- The screen after a read that gave the dictionary `names`. -/
def refreshed (screen : ControlWindow1) (snapshot : FNode) (names : NSDictionary)
    (order : List String) : ControlWindow1 :=
  { screen with
    dataModel := screen.dataModel.storePlantNames snapshot
    plantDropdown := { screen.plantDropdown with options := NSDictionary.allKeys names order } }

/-- A completed read replaces the plants of the data model and the options of the plant drop-down;
it traps when the snapshot is no dictionary. -/
theorem plantsReadCompleted_eq (screen : ControlWindow1) (snapshot : FNode) (order : List String) :
    screen.plantsReadCompleted snapshot order =
      snapshot.val.asNSDictionary.map fun names => screen.refreshed snapshot names order := by
  unfold plantsReadCompleted plantNamesAllKeys
  rw [DataModel.storePlantNames]
  cases h : snapshot.val.asNSDictionary with
  | none => rfl
  | some names =>
    simp only [Option.map_some, Option.bind_eq_bind, Option.bind_some, refreshed,
      DataModel.storePlantNames, h]
    rfl

theorem Loaded.plantsReadCompleted (h : screen.Loaded)
    {snapshot : FNode} {order : List String}
    (hs : screen.plantsReadCompleted snapshot order = some screen') : screen'.Loaded := by
  rw [plantsReadCompleted_eq] at hs
  obtain ⟨names, -, rfl⟩ := Option.map_eq_some_iff.1 hs
  refine ⟨fun which => ?_, fun which hne => ?_⟩
  · have hhide := h.hide which
    cases which <;> exact hhide
  · have hsetting := h.setting which hne
    cases which with
    | plant => exact absurd rfl hne
    | growLightMaxTimer | growLightMaxSleep | growLightMaxTemp => exact hsetting

/-- A tap on a row of a setting drop-down that does not trap is on a row of its options. -/
theorem Loaded.row_lt_of_tapRow (h : screen.Loaded) {which : Dropdown} (hne : which ≠ .plant)
    {row : ℕ} (hs : screen.tapRow which row = some screen') :
    row < which.settingOptions.length := by
  by_contra hrow
  unfold ControlWindow1.tapRow UIDropDown.didSelectRowAt at hs
  rw [(h.setting which hne).options_eq, List.getElem?_eq_none (by omega)] at hs
  contradiction

theorem Loaded.tapRow (h : screen.Loaded) {which : Dropdown}
    {row : ℕ} (hs : screen.tapRow which row = some screen') : screen'.Loaded := by
  by_cases hne : which = .plant
  · subst hne
    exact (h.of_tapRow_plant hs).1
  · obtain ⟨_, hs', hloaded, -⟩ := h.tapRow_setting hne (h.row_lt_of_tapRow hne hs)
    obtain rfl := Option.some.inj (hs.symm.trans hs')
    exact hloaded

end ControlWindow1

/-! ## Steps of a session -/

namespace SettingsSession

variable {s s' : SettingsSession}

/-- Every step keeps the screen loaded. -/
theorem loaded_step (h : s.screen.Loaded) (event : SettingsEvent) (hs : s.step event = some s') :
    s'.screen.Loaded := by
  cases event with
  | touch which =>
    obtain rfl := Option.some.inj hs
    exact h.touch which
  | tapRow which row =>
    simp only [SettingsSession.step] at hs
    split_ifs at hs
    · obtain ⟨screen, hscreen, rfl⟩ := Option.map_eq_some_iff.1 hs
      exact h.tapRow hscreen
    · obtain rfl := Option.some.inj hs
      exact h
  | editName text | editTrait text =>
    obtain rfl := Option.some.inj hs
    refine ⟨fun which => ?_, fun which hne => ?_⟩
    · have hhide := h.hide which
      cases which <;> exact hhide
    · have hsetting := h.setting which hne
      cases which <;> exact hsetting
  | create | delete | start =>
    rw [screen_of_press hs trivial]
    split_ifs
    exacts [h.resetViews, h]
  | deliver read order =>
    simp only [SettingsSession.step] at hs
    split at hs
    · obtain rfl := Option.some.inj hs
      exact h
    · obtain ⟨screen, hscreen, rfl⟩ := Option.map_eq_some_iff.1 hs
      exact h.plantsReadCompleted hscreen
  | answer read | cancel read | remote path node | authChange user =>
    obtain rfl := Option.some.inj hs
    exact h

end SettingsSession

end IndoorFarm
