import IndoorFarm.Lib.Runs
import IndoorFarm.Selection

/-!
# What the settings screen shows is what it writes

The buttons test the labels of the three setting drop-downs and send numbers made from their chosen
indices, and a reset puts back the labels alone.  `Labelled` couples the two: a drop-down shows its
prompt, or the label of the index it has chosen.  Every step keeps it, because a step does one of
three things to a setting drop-down (`dropdown_of_step`): it picks an option, it is the reset of a
Delete, or it leaves the choice as it was.

`SettingsCall` is the call of the data model that a press comes to, and `denotes` is what a label
says in minutes or degrees, read off its text.  `written_settings_are_shown` joins them: a number
that Create or Start writes is the number of the label on the screen, which was picked after the
last reset.
-/

namespace IndoorFarm

open DataModel ControlWindow1

/-! ## What the labels say -/

/-- The number a row of decimal digits spells. -/
def numeral (digits : List Char) : Option ℤ :=
  if digits ≠ [] ∧ digits.all Char.isDigit then
    some (digits.foldl (fun n digit => 10 * n + (digit.toNat - '0'.toNat : ℕ)) 0)
  else none

/-- The minutes of a number of hours with at most one decimal. -/
def minutesOfHours (hours : List Char) : Option ℤ :=
  match hours.splitOn '.' with
  | [whole] => (numeral whole).map (60 * ·)
  | [whole, [tenth]] => do return 60 * (← numeral whole) + 6 * (← numeral [tenth])
  | _ => none

/-- The minutes of a cycle: `Always On`, or a number of minutes or hours. -/
def minutesOfLabel (label : String) : Option ℤ :=
  if label = "Always On" then some 0
  else match label.toList.splitOn ' ' with
    | [number, unit] =>
      if unit = "min".toList then numeral number
      else if unit = "hour".toList ∨ unit = "hours".toList then minutesOfHours number
      else none
    | _ => none

/-- The degrees of a temperature. -/
def degreesOfLabel (label : String) : Option ℤ :=
  match label.toList.splitOn ' ' with
  | [number, degrees, scale] =>
    if degrees = "Degrees".toList ∧ scale = "F".toList then numeral number else none
  | _ => none

namespace Dropdown

/-- The number a label of a setting drop-down denotes. -/
def denotes : Dropdown → String → Option ℤ
  | .plant, _ => none
  | .growLightMaxTimer, label => minutesOfLabel label
  | .growLightMaxSleep, label => minutesOfLabel label
  | .growLightMaxTemp, label => degreesOfLabel label

/-- The number the buttons make of a chosen index. -/
def numberOfIndex : Dropdown → ℤ → ℤ
  | .growLightMaxTemp, index => (index + 1) * 20
  | _, index => index * 30

/-- The text a drop-down shows before a choice. -/
def prompt : Dropdown → String
  | .plant => plantSelectTitle
  | .growLightMaxTimer => growLightMaxTimerTitle
  | .growLightMaxSleep => growLightMaxSleepTitle
  | .growLightMaxTemp => growLightMaxTempTitle

/-- The labels denote, in their order, the numbers the buttons make of the indices. -/
theorem map_denotes_settingOptions (which : Dropdown) :
    which.settingOptions.map which.denotes = (List.range which.settingOptions.length).map
      fun index : ℕ => some (which.numberOfIndex index) := by
  cases which <;> decide +kernel

example : minutesOfLabel "1.5 hours" = some 90 := by decide +kernel

theorem denotes_of_option {which : Dropdown} {index : ℤ} (h0 : 0 ≤ index) {label : String}
    (h : which.settingOptions[index.toNat]? = some label) :
    which.denotes label = some (which.numberOfIndex index) := by
  have hlt := (List.getElem?_eq_some_iff.1 h).1
  have hlabel : (which.settingOptions.map which.denotes)[index.toNat]? =
      some (which.denotes label) := by
    rw [List.getElem?_map, h, Option.map_some]
  rw [map_denotes_settingOptions, List.getElem?_map, List.getElem?_range hlt, Option.map_some,
    Int.toNat_of_nonneg h0] at hlabel
  exact (Option.some.inj hlabel).symm

end Dropdown

/-! ## The choice of a drop-down -/

namespace UIDropDown

/-- The option with this index is chosen and its label is on the screen. -/
structure ShowsLabel (d : UIDropDown) (index : ℤ) (label : String) : Prop where
  selectedIndex : d.selectedIndex = some index
  option : d.option index = some label
  placeholder : d.placeholder = label
  title : d.title = label

/-- The choice and the labels are the same; the list may have been opened or closed. -/
structure SameChoice (d d' : UIDropDown) : Prop where
  selectedIndex : d'.selectedIndex = d.selectedIndex
  options : d'.options = d.options
  placeholder : d'.placeholder = d.placeholder
  title : d'.title = d.title

variable {d d' : UIDropDown} {index : ℤ} {label : String}

theorem SameChoice.refl (d : UIDropDown) : SameChoice d d := ⟨rfl, rfl, rfl, rfl⟩

theorem sameChoice_touch (d : UIDropDown) : SameChoice d d.touch := by
  unfold touch
  split_ifs <;> exact ⟨rfl, rfl, rfl, rfl⟩

theorem ShowsLabel.sameChoice (h : d.ShowsLabel index label) (hd : SameChoice d d') :
    d'.ShowsLabel index label where
  selectedIndex := hd.selectedIndex.trans h.selectedIndex
  option := by
    have hoption := h.option
    unfold UIDropDown.option at hoption ⊢
    rw [hd.options]
    exact hoption
  placeholder := hd.placeholder.trans h.placeholder
  title := hd.title.trans h.title

theorem showsLabel_of_select (h : d.select index = some d') :
    ∃ label, d'.ShowsLabel index label := by
  obtain ⟨label, hlabel, rfl⟩ := (select_eq_some_iff index).1 h
  exact ⟨label, rfl, hlabel, rfl, rfl⟩

end UIDropDown

/-- A setting drop-down shows its prompt or the label of the index it has chosen. -/
structure Dropdown.Labelled (which : Dropdown) (d : UIDropDown) : Prop where
  title : d.title = d.placeholder
  label : d.placeholder = which.prompt ∨ ∃ index, d.ShowsLabel index d.placeholder

theorem Dropdown.labelled_of_showsLabel {which : Dropdown} {d : UIDropDown} {index : ℤ}
    {label : String} (h : d.ShowsLabel index label) : which.Labelled d := by
  obtain rfl := h.placeholder
  exact ⟨h.title, Or.inr ⟨index, h⟩⟩

theorem Dropdown.Labelled.sameChoice {which : Dropdown} {d d' : UIDropDown} (h : which.Labelled d)
    (hd : d.SameChoice d') : which.Labelled d' := by
  refine ⟨(hd.title.trans h.title).trans hd.placeholder.symm, ?_⟩
  rw [hd.placeholder]
  exact h.label.imp_right fun ⟨index, hindex⟩ => ⟨index, hindex.sameChoice hd⟩

namespace ControlWindow1

variable {screen screen' : ControlWindow1} {which : Dropdown}

theorem noPresetTitles_iff (screen : ControlWindow1) :
    screen.NoPresetTitles ↔ screen.plantNameView ≠ plantSelectTitle ∧
      ∀ which ≠ .plant, (screen.dropdown which).placeholder ≠ which.prompt := by
  refine and_congr_right fun _ => ⟨fun h which hne => ?_, fun h => ?_⟩
  · cases which with
    | plant => exact absurd rfl hne
    | growLightMaxTimer => exact h.1
    | growLightMaxSleep => exact h.2.1
    | growLightMaxTemp => exact h.2.2
  · exact ⟨h .growLightMaxTimer Dropdown.noConfusion, h .growLightMaxSleep Dropdown.noConfusion,
      h .growLightMaxTemp Dropdown.noConfusion⟩

/-- A tap on a plant puts an option into each setting drop-down. -/
theorem Loaded.showsLabel_of_tapRow_plant (h : screen.Loaded) (hne : which ≠ .plant) {row : ℕ}
    (hs : screen.tapRow .plant row = some screen') :
    ∃ index label, (screen'.dropdown which).ShowsLabel index label := by
  rw [tapRow_plant_eq h] at hs
  simp only [Option.bind_eq_some_iff, Option.map_eq_some_iff] at hs
  obtain ⟨name, -, settings, -, timer, htimer, sleep, hsleep, temp, htemp, rfl⟩ := hs
  cases which with
  | plant => exact absurd rfl hne
  | growLightMaxTimer => exact ⟨_, UIDropDown.showsLabel_of_select htimer⟩
  | growLightMaxSleep => exact ⟨_, UIDropDown.showsLabel_of_select hsleep⟩
  | growLightMaxTemp => exact ⟨_, UIDropDown.showsLabel_of_select htemp⟩

/-- A tap on a row of a setting drop-down chooses its option and leaves the others. -/
theorem Loaded.dropdown_of_tapRow_setting (h : screen.Loaded) {tapped : Dropdown}
    (htapped : tapped ≠ .plant) {row : ℕ} (hs : screen.tapRow tapped row = some screen') :
    (∃ label, (screen'.dropdown tapped).ShowsLabel row label) ∧
      ∀ which ≠ tapped, screen'.dropdown which = screen.dropdown which := by
  obtain ⟨label, hrow⟩ : ∃ label, tapped.settingOptions[row]? = some label :=
    ⟨_, List.getElem?_eq_getElem (h.row_lt_of_tapRow htapped hs)⟩
  rw [ControlWindow1.tapRow_setting h htapped hrow] at hs
  obtain rfl := Option.some.inj hs
  refine ⟨⟨label, ?_⟩, fun which hne => ?_⟩ <;> rw [dropdown_setDropdown]
  · rw [if_pos rfl]
    refine ⟨rfl, ?_, rfl, rfl⟩
    rw [UIDropDown.option_natCast, (h.setting tapped htapped).options_eq, hrow]
  · rw [if_neg hne.symm]

end ControlWindow1

namespace SettingsSession

/-- The tap picks an option for the setting drop-down: on a row of its own list or of the plants. -/
def Picks (s : SettingsSession) (which : Dropdown) : SettingsEvent → Prop
  | .tapRow tapped row => (tapped = which ∨ tapped = .plant) ∧ s.Shows tapped row
  | _ => False

variable {s s' : SettingsSession} {event : SettingsEvent} {which : Dropdown}

theorem dropdown_resetViews (screen : ControlWindow1) (which : Dropdown) :
    screen.resetViews.dropdown which = (screen.dropdown which).setPlaceholder which.prompt := by
  cases which <;> rfl

/-- What a step does to a setting drop-down: it picks an option, it resets the label, or it leaves
the choice as it was. -/
theorem dropdown_of_step (h : s.screen.Loaded) (hne : which ≠ .plant)
    (hs : s.step event = some s') :
    (s.Picks which event ∧ ∃ index label, (s'.screen.dropdown which).ShowsLabel index label) ∨
    (s.Resets event ∧ s'.screen.dropdown which =
      (s.screen.dropdown which).setPlaceholder which.prompt) ∨
    (¬ s.Picks which event ∧ ¬ s.Resets event ∧
      (s.screen.dropdown which).SameChoice (s'.screen.dropdown which)) := by
  cases event with
  | tapRow tapped row =>
    simp only [step] at hs
    split_ifs at hs with hshows
    · obtain ⟨screen, hscreen, rfl⟩ := Option.map_eq_some_iff.1 hs
      by_cases hplant : tapped = .plant
      · subst hplant
        exact Or.inl ⟨⟨Or.inr rfl, hshows⟩, h.showsLabel_of_tapRow_plant hne hscreen⟩
      · obtain ⟨⟨label, hlabel⟩, hother⟩ := h.dropdown_of_tapRow_setting hplant hscreen
        by_cases htapped : tapped = which
        · subst htapped
          exact Or.inl ⟨⟨Or.inl rfl, hshows⟩, row, label, hlabel⟩
        · refine Or.inr (Or.inr ⟨fun hpick => hpick.1.elim htapped hplant, id, ?_⟩)
          rw [hother which (Ne.symm htapped)]
          exact .refl _
    · obtain rfl := Option.some.inj hs
      exact Or.inr (Or.inr ⟨fun hpick => hshows hpick.2, id, .refl _⟩)
  | create | delete | start =>
    rw [screen_of_press hs trivial]
    split_ifs with hreset
    · exact Or.inr (Or.inl ⟨hreset, dropdown_resetViews s.screen which⟩)
    · exact Or.inr (Or.inr ⟨id, hreset, .refl _⟩)
  | touch tapped =>
    obtain rfl := Option.some.inj hs
    refine Or.inr (Or.inr ⟨id, id, ?_⟩)
    rw [dropdown_setDropdown]
    split_ifs with htapped
    · exact htapped ▸ UIDropDown.sameChoice_touch _
    · exact .refl _
  | deliver read order =>
    refine Or.inr (Or.inr ⟨id, id, ?_⟩)
    simp only [step] at hs
    split at hs
    · obtain rfl := Option.some.inj hs
      exact .refl _
    · obtain ⟨screen, hscreen, rfl⟩ := Option.map_eq_some_iff.1 hs
      rw [plantsReadCompleted_eq] at hscreen
      obtain ⟨names, -, rfl⟩ := Option.map_eq_some_iff.1 hscreen
      cases which with
      | plant => exact absurd rfl hne
      | growLightMaxTimer | growLightMaxSleep | growLightMaxTemp => exact .refl _
  | editName text | editTrait text =>
    obtain rfl := Option.some.inj hs
    refine Or.inr (Or.inr ⟨id, id, ?_⟩)
    cases which <;> exact .refl _
  | answer read | cancel read | remote path node | authChange user =>
    obtain rfl := Option.some.inj hs
    exact Or.inr (Or.inr ⟨id, id, .refl _⟩)

/-- The screen has just been loaded; anything may be stored and on its way. -/
def JustLoaded (s : SettingsSession) : Prop :=
  ∃ model order, viewDidLoad model order = some s.screen

/-- Each setting drop-down shows its prompt or the label of the index it has chosen. -/
structure Coupled (s : SettingsSession) : Prop where
  loaded : s.screen.Loaded
  labelled : ∀ which ≠ Dropdown.plant, which.Labelled (s.screen.dropdown which)

theorem JustLoaded.dropdown_eq (h : s.JustLoaded) (hne : which ≠ .plant) :
    s.screen.dropdown which =
      ({ options := which.settingOptions } : UIDropDown).setPlaceholder which.prompt := by
  obtain ⟨model, order, h⟩ := h
  unfold viewDidLoad at h
  simp only [Option.bind_eq_bind, Option.bind_eq_some_iff] at h
  obtain ⟨options, -, h⟩ := h
  obtain h := Option.some.inj h
  rw [← h]
  cases which with
  | plant => exact absurd rfl hne
  | growLightMaxTimer | growLightMaxSleep | growLightMaxTemp => rfl

theorem JustLoaded.coupled (h : s.JustLoaded) : s.Coupled where
  loaded := by
    obtain ⟨model, order, h⟩ := h
    exact loaded_viewDidLoad h
  labelled which hne := by
    rw [h.dropdown_eq hne]
    exact ⟨rfl, Or.inl rfl⟩

theorem coupled_step (h : s.Coupled) (hs : s.step event = some s') : s'.Coupled := by
  refine ⟨loaded_step h.loaded event hs, fun which hne => ?_⟩
  obtain ⟨-, index, label, hpicked⟩ | ⟨-, hreset⟩ | ⟨-, -, hsame⟩ :=
    dropdown_of_step h.loaded hne hs
  · exact Dropdown.labelled_of_showsLabel hpicked
  · rw [hreset]
    exact ⟨rfl, Or.inl rfl⟩
  · exact (h.labelled which hne).sameChoice hsame

/-! ## Where a label comes from -/

/-- The step picks the option with this label. -/
def Puts (which : Dropdown) (label : String) (s : SettingsSession) (event : SettingsEvent) : Prop :=
  s.Picks which event ∧
    ∃ s' index, s.step event = some s' ∧ (s'.screen.dropdown which).ShowsLabel index label

/-- The step is neither a pick for the drop-down nor a reset. -/
def Keeps (which : Dropdown) (s : SettingsSession) (event : SettingsEvent) : Prop :=
  ¬ s.Picks which event ∧ ¬ s.Resets event

/-- A label that is not the prompt was picked, and nothing has been picked or reset since. -/
theorem since_puts {events : List SettingsEvent} (h : s.JustLoaded) (hne : which ≠ .plant)
    (hrun : Runs.run step s events = some s')
    (hlabel : (s'.screen.dropdown which).placeholder ≠ which.prompt) :
    Runs.Since step (Puts which (s'.screen.dropdown which).placeholder) (Keeps which) s events := by
  generalize hput : (s'.screen.dropdown which).placeholder = label at hlabel ⊢
  refine Runs.since_of_run (I := Coupled)
    (J := fun t => (t.screen.dropdown which).placeholder = label)
    (fun t e t' ht hstep => coupled_step ht hstep) (fun t e t' ht hstep hJ => ?_) h.coupled ?_ hrun
    hput
  · obtain ⟨hpick, index, label', hpicked⟩ | ⟨-, hreset⟩ | ⟨hpick, hreset, hsame⟩ :=
      dropdown_of_step ht.loaded hne hstep
    · obtain rfl : label' = label := hpicked.placeholder.symm.trans hJ
      exact Or.inl ⟨hpick, t', index, hstep, hpicked⟩
    · rw [hreset] at hJ
      exact absurd hJ.symm hlabel
    · exact Or.inr ⟨hsame.placeholder.symm.trans hJ, hpick, hreset⟩
  · rw [h.dropdown_eq hne]
    exact fun heq => hlabel heq.symm

end SettingsSession

/-! ## The numbers of a call -/

/-- The number among the three that belongs to a setting drop-down. -/
def Dropdown.ofSettings (growLightMaxtimer growLightMaxsleep growLightMaxtemp : ℤ) :
    Dropdown → Option ℤ
  | .plant => none
  | .growLightMaxTimer => some growLightMaxtimer
  | .growLightMaxSleep => some growLightMaxsleep
  | .growLightMaxTemp => some growLightMaxtemp

/-- The numbers the buttons send are those of the chosen indices. -/
theorem ControlWindow1.ofSettings_of_currentSettings {screen : ControlWindow1}
    {timer sleep temp : ℤ} (h : screen.currentSettings = some (timer, sleep, temp))
    {which : Dropdown} (hne : which ≠ .plant) :
    ∃ index, (screen.dropdown which).selectedIndex = some index ∧
      which.ofSettings timer sleep temp = some (which.numberOfIndex index) := by
  unfold currentSettings at h
  simp only [Option.bind_eq_bind, Option.bind_eq_some_iff] at h
  obtain ⟨i, hi, j, hj, k, hk, h⟩ := h
  obtain ⟨rfl, rfl, rfl⟩ := Prod.mk.inj (Option.some.inj h)
  cases which with
  | plant => exact absurd rfl hne
  | growLightMaxTimer => exact ⟨i, hi, rfl⟩
  | growLightMaxSleep => exact ⟨j, hj, rfl⟩
  | growLightMaxTemp => exact ⟨k, hk, rfl⟩

/-- The number the call writes for a setting. -/
def SettingsCall.number : SettingsCall → Dropdown → Option ℤ
  | writePlantSettings _ _ settings => Dropdown.ofSettings settings.growLightMaxtimer
      settings.growLightMaxsleep settings.growLightMaxtemp
  | deletePlantSettings _ _ => fun _ => none
  | writeAutomatedSettings growLightMaxtimer growLightMaxsleep growLightMaxtemp =>
    Dropdown.ofSettings growLightMaxtimer growLightMaxsleep growLightMaxtemp

namespace SettingsSession

variable {s s₀ s' : SettingsSession} {event : SettingsEvent} {call : SettingsCall}

/-- Create and Start write the numbers of the chosen indices, and no drop-down shows its prompt. -/
theorem number_of_call (hevent : event = .create ∨ event = .start)
    (hcall : s.call event = some call) {which : Dropdown} (hne : which ≠ .plant) :
    (s.screen.dropdown which).placeholder ≠ which.prompt ∧
      ∃ index, (s.screen.dropdown which).selectedIndex = some index ∧
        call.number which = some (which.numberOfIndex index) := by
  rcases hevent with rfl | rfl
  · obtain ⟨hpreset, user, timer, sleep, temp, -, hsettings, rfl⟩ :=
      call_create_eq_some_iff.1 hcall
    exact ⟨((noPresetTitles_iff s.screen).1 hpreset).2 which hne,
      ofSettings_of_currentSettings hsettings hne⟩
  · obtain ⟨hpreset, timer, sleep, temp, hsettings, rfl⟩ := call_start_eq_some_iff.1 hcall
    exact ⟨((noPresetTitles_iff s.screen).1 hpreset).2 which hne,
      ofSettings_of_currentSettings hsettings hne⟩

/-- What the call writes for each setting drop-down is what the screen shows: the drop-down shows
the label of the index it has chosen, the number is the one the label denotes, and the label was
picked after the last reset of the screen. -/
theorem shown_of_call {events : List SettingsEvent} (h : s₀.JustLoaded)
    (hrun : Runs.run step s₀ events = some s) (hevent : event = .create ∨ event = .start)
    (hcall : s.call event = some call) {which : Dropdown} (hne : which ≠ .plant) :
    ∃ index label number, (s.screen.dropdown which).ShowsLabel index label ∧
      call.number which = some number ∧ which.denotes label = some number ∧
      Runs.Since step (Puts which label) (Keeps which) s₀ events := by
  have hcoupled : s.Coupled :=
    Runs.run_invariant (fun _ _ _ ht hnext => coupled_step ht hnext) h.coupled hrun
  obtain ⟨hlabel, index, hindex, hnumber⟩ := number_of_call hevent hcall hne
  obtain ⟨index', hshows⟩ := (hcoupled.labelled which hne).label.resolve_left hlabel
  obtain rfl : index' = index := Option.some.inj (hshows.selectedIndex.symm.trans hindex)
  obtain ⟨h0, hoption⟩ := (UIDropDown.option_eq_some_iff ..).1 hshows.option
  rw [(hcoupled.loaded.setting which hne).options_eq] at hoption
  exact ⟨index', _, _, hshows, hnumber, Dropdown.denotes_of_option h0 hoption,
    since_puts h hne hrun hlabel⟩

/-- In every run of the screen from its loading on, a press of Create or Start leaves the database
alone, or it carries out one call, and what this call writes for each setting is what the screen
shows. -/
theorem written_settings_are_shown {events : List SettingsEvent} (h : s₀.JustLoaded)
    (hrun : Runs.run step s₀ events = some s) (hevent : event = .create ∨ event = .start)
    (hstep : s.step event = some s') :
    (s.call event = none ∧ s'.db = s.db) ∨
    ∃ call, s.call event = some call ∧ call.perform s.db = some s'.db ∧
      ∀ which ≠ .plant, ∃ index label number,
        (s.screen.dropdown which).ShowsLabel index label ∧
        call.number which = some number ∧ which.denotes label = some number ∧
        Runs.Since step (Puts which label) (Keeps which) s₀ events := by
  have hpress : event.IsPress := by rcases hevent with rfl | rfl <;> trivial
  cases hcall : s.call event with
  | none =>
    refine Or.inl ⟨rfl, (db_of_press hstep hpress).resolve_right ?_⟩
    rintro ⟨call, hsome, -⟩
    exact nomatch hcall.symm.trans hsome
  | some call =>
    refine Or.inr ⟨call, rfl, ?_, fun which hne => shown_of_call h hrun hevent hcall hne⟩
    rw [step_of_call hcall, Option.map_eq_some_iff] at hstep
    obtain ⟨db, hdb, rfl⟩ := hstep
    exact hdb

theorem justLoaded_herbSession : herbSession.JustLoaded :=
  ⟨_, _, (Option.some_get isSome_viewDidLoad_herbs).symm⟩

/-- The gardener selects basil and starts the farm with its settings. -/
theorem written_settings_are_shown_herbs :
    ∃ (s s' : SettingsSession) (call : SettingsCall),
      Runs.run step herbSession [.touch .plant, .tapRow .plant 0] = some s ∧
      s.step .start = some s' ∧ call.number .growLightMaxTimer = some 360 ∧
      call.perform s.db = some s'.db ∧
      ∀ which ≠ .plant, ∃ index label number,
        (s.screen.dropdown which).ShowsLabel index label ∧
        call.number which = some number ∧ which.denotes label = some number ∧
        Runs.Since step (Puts which label) (Keeps which) herbSession
          [.touch .plant, .tapRow .plant 0] := by
  have hpicked : (Runs.run step herbSession [.touch .plant, .tapRow .plant 0]).map (fun s =>
      ((s.call .start).bind fun call => call.number .growLightMaxTimer, (s.step .start).isSome)) =
      some (some 360, true) := by decide +kernel
  obtain ⟨s, hrun, hview⟩ := Option.map_eq_some_iff.1 hpicked
  simp only [Prod.mk.injEq, Option.bind_eq_some_iff, Option.isSome_iff_exists] at hview
  obtain ⟨⟨call, hcall, hnumber⟩, s', hstep⟩ := hview
  obtain ⟨hnone, -⟩ | ⟨call', hcall', hperform, hshown⟩ :=
    written_settings_are_shown justLoaded_herbSession hrun (Or.inr rfl) hstep
  · exact nomatch hcall.symm.trans hnone
  · obtain rfl := Option.some.inj (hcall.symm.trans hcall')
    exact ⟨s, s', call, hrun, hstep, hnumber, hperform, hshown⟩

end SettingsSession

end IndoorFarm
