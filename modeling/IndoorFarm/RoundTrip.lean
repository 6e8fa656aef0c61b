import IndoorFarm.Isolation
import IndoorFarm.LoadedScreen

/-!
# Saving a plant and selecting it again

Create turns the chosen indices into minutes and degrees and writes them under the name; a tap on
the name in a refreshed list divides them back into indices.  The two halves meet at `Offers`: the
screen lists the name, its data model has the saved settings under it, and the tree stores them.
Create and the delivery of its read lead there (`offers_of_refresh`), edits of the other fields stay
there (`Offers.edits`), and from there a tap shows the plant (`Offers.tap`) and Start sends its
numbers (`step_start`).
-/

namespace IndoorFarm

open DataModel ControlWindow1

/-! ## What the user and the others do meanwhile -/

/-- A pick in a setting drop-down or an edit of a text field. -/
def IsEdit : SettingsEvent → Prop
  | .touch which => which ≠ .plant
  | .tapRow which _ => which ≠ .plant
  | .editName _ => True
  | .editTrait _ => True
  | _ => False

/-- An edit, or a write of another client that is not to the plants of `user`. -/
def IsQuiet (user : Uid) : SettingsEvent → Prop
  | .remote path _ => ¬ path <+: userPath user ∧ ¬ userPath user <+: path
  | event => IsEdit event

/-- From `s` to `s'`, nothing has changed but fields of the screen and things that are not the
plants of `user`. -/
structure SameList (user : Uid) (s s' : SettingsSession) : Prop where
  loaded : s'.screen.Loaded
  dataModel : s'.screen.dataModel = s.screen.dataModel
  plantDropdown : s'.screen.plantDropdown = s.screen.plantDropdown
  reads : s'.reads = s.reads
  plants : plantsOf user s'.db = plantsOf user s.db

theorem SameList.refl {user : Uid} {s : SettingsSession} (h : s.screen.Loaded) :
    SameList user s s := ⟨h, rfl, rfl, rfl, rfl⟩

theorem SameList.trans {user : Uid} {s s' s'' : SettingsSession} (h : SameList user s s')
    (h' : SameList user s' s'') : SameList user s s'' where
  loaded := h'.loaded
  dataModel := h'.dataModel.trans h.dataModel
  plantDropdown := h'.plantDropdown.trans h.plantDropdown
  reads := h'.reads.trans h.reads
  plants := h'.plants.trans h.plants

section Quiet

variable {user : Uid} {s : SettingsSession}

theorem step_of_isEdit (h : s.screen.Loaded) {event : SettingsEvent} (he : IsEdit event) :
    ∃ s', s.step event = some s' ∧ SameList user s s' := by
  cases event with
  | touch which =>
    have hloaded := h.touch which
    refine ⟨_, rfl, hloaded, ?_, ?_, rfl, rfl⟩ <;> cases which <;> first | rfl | exact absurd rfl he
  | tapRow which row =>
    by_cases hshows : s.Shows which row
    · have hrows := (h.setting which he).rows hshows.1
      have hlt := hshows.2
      rw [hrows] at hlt
      obtain ⟨screen, hscreen, hloaded, hmodel, hplant⟩ := h.tapRow_setting he hlt
      refine ⟨{ s with screen := screen }, ?_, hloaded, hmodel, hplant, rfl, rfl⟩
      simp only [SettingsSession.step, if_pos hshows, hscreen, Option.map_some]
    · exact ⟨s, if_neg hshows, SameList.refl h⟩
  | editName text =>
    exact ⟨_, rfl, SettingsSession.loaded_step h (.editName text) rfl, rfl, rfl, rfl, rfl⟩
  | editTrait text =>
    exact ⟨_, rfl, SettingsSession.loaded_step h (.editTrait text) rfl, rfl, rfl, rfl, rfl⟩
  | _ => exact he.elim

theorem step_of_isQuiet (h : s.screen.Loaded) {event : SettingsEvent} (he : IsQuiet user event) :
    ∃ s', s.step event = some s' ∧ SameList user s s' := by
  cases event with
  | remote path node =>
    refine ⟨_, rfl, h, rfl, rfl, rfl, ?_⟩
    exact plantsOf_updateChild_of_incomparable user s.db node he.1 he.2
  | _ => exact step_of_isEdit h he

theorem run_of_isQuiet (h : s.screen.Loaded) {events : List SettingsEvent}
    (he : ∀ event ∈ events, IsQuiet user event) :
    ∃ s', Runs.run SettingsSession.step s events = some s' ∧ SameList user s s' := by
  refine Runs.exists_run_of_invariant (I := SameList user s) (C := IsQuiet user) ?_ (.refl h) he
  intro s₁ event hs₁ hevent
  obtain ⟨s₂, hstep, hs₂⟩ := step_of_isQuiet hs₁.loaded hevent
  exact ⟨s₂, hstep, hs₁.trans hs₂⟩

theorem isQuiet_of_isEdit {event : SettingsEvent} (he : IsEdit event) : IsQuiet user event := by
  cases event with
  | remote path node => exact he.elim
  | _ => exact he

end Quiet

/-! ## Saving -/

/-- A user is signed in, the three settings are chosen with their labels showing, and the name is
one key that `valForExport:` does not count with and a key path leads to. -/
structure ReadyToSave (s : SettingsSession) (user : Uid) (i j k : ℕ) : Prop where
  loaded : s.screen.Loaded
  signedIn : s.currentUser = some user
  timer : s.screen.growLightMaxTimerDropdown.ShowsIndex cycleOptions i
  sleep : s.screen.growLightMaxSleepDropdown.ShowsIndex cycleOptions j
  temp : s.screen.growLightMaxTempDropdown.ShowsIndex tempOptions k
  key : isValidKey s.screen.plantNameView = true
  notAt : s.screen.plantNameView.toList.head? ≠ some '@'
  notDigits : ¬ s.screen.plantNameView.toList.all isDecimalDigit
  notPreset : s.screen.plantNameView ≠ plantSelectTitle

/-- The settings Create stores for these indices. -/
def settingsOfIndices (i j k : ℕ) (trait : String) : PlantSettings :=
  ⟨30 * i, 30 * j, 20 * (k + 1), trait⟩

theorem UIDropDown.ShowsIndex.placeholder_ne {d : UIDropDown} {options : List String} {index : ℤ}
    (h : d.ShowsIndex options index) {title : String} (htitle : title ∉ options) :
    d.placeholder ≠ title := by
  rintro rfl
  exact htitle (List.mem_of_getElem? h.2)

theorem UIDropDown.ShowsIndex.lt_length {d : UIDropDown} {options : List String} {i : ℕ}
    (h : d.ShowsIndex options i) : i < options.length := by
  obtain ⟨hlt, -⟩ := List.getElem?_eq_some_iff.1 h.2
  omega

theorem tdiv_minutes (i : ℕ) : (30 * (i : ℤ)).tdiv 30 = i := Int.mul_tdiv_cancel_left _ (by decide)

theorem tdiv_degrees (k : ℕ) : (20 * ((k : ℤ) + 1)).tdiv 20 - 1 = k := by
  rw [Int.mul_tdiv_cancel_left _ (by decide)]
  omega

theorem settingsOfIndices_inRange {i j k : ℕ} (hi : i < cycleOptions.length)
    (hj : j < cycleOptions.length) (hk : k < tempOptions.length) (trait : String) :
    (settingsOfIndices i j k trait).InRange := by
  refine ⟨?_, ?_, ?_⟩ <;> simp only [settingsOfIndices, tdiv_minutes, tdiv_degrees] <;> omega

theorem integerKey_of_not_digits {name : String} (h : ¬ name.toList.all isDecimalDigit) :
    integerKey name = none := by
  unfold integerKey intForString
  rw [if_neg h, ite_self]

section Shows

variable {screen : ControlWindow1} {i j k : ℕ}

/-- A screen whose three settings show chosen options passes the test of the buttons and gives their
numbers. -/
theorem noPresetTitles_of_showsIndex (hname : screen.plantNameView ≠ plantSelectTitle)
    (htimer : screen.growLightMaxTimerDropdown.ShowsIndex cycleOptions i)
    (hsleep : screen.growLightMaxSleepDropdown.ShowsIndex cycleOptions j)
    (htemp : screen.growLightMaxTempDropdown.ShowsIndex tempOptions k) :
    screen.NoPresetTitles ∧
      screen.currentSettings = some (30 * (i : ℤ), 30 * (j : ℤ), 20 * ((k : ℤ) + 1)) := by
  refine ⟨⟨hname, htimer.placeholder_ne (by decide), hsleep.placeholder_ne (by decide),
    htemp.placeholder_ne (by decide)⟩, ?_⟩
  unfold currentSettings
  rw [htimer.1, hsleep.1, htemp.1]
  simp only [Option.bind_eq_bind, Option.bind_some, mul_comm]
  rfl

end Shows

section Save

variable {user : Uid} {s : SettingsSession} {i j k : ℕ}

theorem ReadyToSave.call_create (h : ReadyToSave s user i j k) :
    s.call .create = some (.writePlantSettings user s.screen.plantNameView
      (settingsOfIndices i j k s.screen.plantTraitView)) := by
  obtain ⟨hpreset, hcurrent⟩ :=
    noPresetTitles_of_showsIndex h.notPreset h.timer h.sleep h.temp
  exact SettingsSession.call_create_eq_some_iff.2
    ⟨hpreset, user, _, _, _, h.signedIn, hcurrent, rfl⟩

/-- Create stores the settings under the name and issues a read of the plants. -/
theorem step_create (h : ReadyToSave s user i j k)
    (hshort : (LeafValue.string s.screen.plantTraitView).ShortEnough)
    (hsep : (plantsOf user s.db).Separates s.screen.plantNameView) :
    ∃ saved, s.step .create = some saved ∧ saved.screen = s.screen ∧
      saved.reads = s.reads ++ [{ ref := ⟨userPath user⟩ }] ∧
      (plantsOf user saved.db).namedChild s.screen.plantNameView =
        (settingsOfIndices i j k s.screen.plantTraitView).node := by
  have haccepted : (SettingsCall.writePlantSettings user s.screen.plantNameView
      (settingsOfIndices i j k s.screen.plantTraitView)).Accepted :=
    ⟨isValidPathString_of_isValidKey h.key, hshort⟩
  refine ⟨_, SettingsSession.step_of_accepted h.call_create haccepted, rfl, rfl, ?_⟩
  rw [SettingsCall.written, plantsOf_updateChild_self, pathPieces_of_isValidKey h.key,
    FNode.updateChild_singleton, hsep.namedChild_updateImmediateChild, if_pos rfl]

end Save

/-! ## Refreshing -/

/-- The screen lists the plant, its data model has the settings under the name, and they are stored
for the user. -/
structure Offers (user : Uid) (name : String) (settings : PlantSettings) (s : SettingsSession) :
    Prop where
  loaded : s.screen.Loaded
  listed : name ∈ s.screen.plantDropdown.options
  kept : s.screen.dataModel.plantSettings name = some settings
  stored : storedMap (plantsOf user s.db) name = some settings

section Refresh

variable {user : Uid} {s : SettingsSession} {name : String} {settings : PlantSettings}

theorem Offers.sameList (h : Offers user name settings s) {s' : SettingsSession}
    (hs : SameList user s s') : Offers user name settings s' where
  loaded := hs.loaded
  listed := hs.plantDropdown ▸ h.listed
  kept := hs.dataModel ▸ h.kept
  stored := hs.plants ▸ h.stored

theorem mem_keys_of_child {n : FNode} {names : NSDictionary}
    (hnames : n.val.asNSDictionary = some names)
    (hchild : n.namedChild name ≠ FNode.emptyNode) : name ∈ names.map Prod.fst := by
  obtain ⟨cs, rfl, rfl⟩ := exists_of_asNSDictionary_val hnames
  rw [keys_valChildren]
  exact FNode.mem_keys_of_namedChild hchild

theorem step_answer {read : ℕ} {ref : DatabaseReference}
    (h : s.reads[read]? = some { ref := ref }) :
    ∃ s', s.step (.answer read) = some s' ∧ s'.screen = s.screen ∧ s'.db = s.db ∧
      s'.reads[read]? = some ⟨ref, some (ref.snapshot s.db)⟩ := by
  refine ⟨_, rfl, rfl, rfl, ?_⟩
  rw [List.getElem?_modify_eq, h]
  rfl

/-- The delivery of a snapshot that has the settings under the name. -/
theorem offers_of_deliver (h : s.screen.Loaded) {read : ℕ} {ref : DatabaseReference}
    {snapshot : FNode} (hread : s.reads[read]? = some ⟨ref, some snapshot⟩)
    (hkey : integerKey name = none) (hname : KeyPathName name)
    (hsnapshot : snapshot.namedChild name = settings.node)
    (hstored : (plantsOf user s.db).namedChild name = settings.node) (order : List String) :
    ∃ s', s.step (.deliver read order) = some s' ∧ Offers user name settings s' ∧
      s'.screen.plantDropdown.isSelected = s.screen.plantDropdown.isSelected := by
  have hchild : snapshot.namedChild name ≠ FNode.emptyNode := by
    rw [hsnapshot]
    exact fun e => by simpa [e] using settings.isEmpty_node
  obtain ⟨names, hnames, -⟩ := asNSDictionary_of_child hkey hchild
  have hscreen := plantsReadCompleted_eq s.screen snapshot order
  rw [hnames, Option.map_some] at hscreen
  refine ⟨{ s with
    screen := s.screen.refreshed snapshot names order
    reads := s.reads.eraseIdx read }, ?_, ⟨h.plantsReadCompleted hscreen, ?_, ?_, ?_⟩, rfl⟩
  · simp only [SettingsSession.step, hread, Option.bind_some, hscreen, Option.map_some]
  · exact (NSDictionary.allKeys_perm names order).mem_iff.2 (mem_keys_of_child hnames hchild)
  · have hkept := plantSettings_storePlantNames s.screen.dataModel hnames hname
    rw [storedMap, hsnapshot, PlantSettings.ofNode_node] at hkept
    exact hkept
  · rw [storedMap, hstored, PlantSettings.ofNode_node]

/-- A read of the stored settings, answered and delivered with quiet events around. -/
theorem offers_of_refresh (h : s.screen.Loaded) {read : ℕ}
    (hread : s.reads[read]? = some { ref := ⟨userPath user⟩ }) (hkey : integerKey name = none)
    (hname : KeyPathName name)
    (hstored : (plantsOf user s.db).namedChild name = settings.node)
    {before after : List SettingsEvent} (hbefore : ∀ event ∈ before, IsQuiet user event)
    (hafter : ∀ event ∈ after, IsQuiet user event) (order : List String) :
    ∃ s', Runs.run SettingsSession.step s
        (before ++ [.answer read] ++ after ++ [.deliver read order]) = some s' ∧
      Offers user name settings s' ∧
      s'.screen.plantDropdown.isSelected = s.screen.plantDropdown.isSelected := by
  obtain ⟨s₁, hrun₁, hs₁⟩ := run_of_isQuiet h hbefore
  obtain ⟨s₂, hstep₂, hscreen₂, hdb₂, hread₂⟩ := step_answer (hs₁.reads ▸ hread)
  obtain ⟨s₃, hrun₃, hs₃⟩ := run_of_isQuiet (hscreen₂ ▸ hs₁.loaded) hafter
  have hplants₂ : plantsOf user s₂.db = plantsOf user s.db := by rw [hdb₂, hs₁.plants]
  have hsnapshot : (DatabaseReference.snapshot ⟨userPath user⟩ s₁.db).namedChild name =
      settings.node := by
    show (plantsOf user s₁.db).namedChild name = settings.node
    rw [hs₁.plants, hstored]
  obtain ⟨s₄, hstep₄, hoffers, hopen⟩ :=
    offers_of_deliver hs₃.loaded (hs₃.reads ▸ hread₂) hkey hname
    hsnapshot (by rw [hs₃.plants, hplants₂, hstored]) order
  have hanswer : Runs.run SettingsSession.step s₁ [.answer read] = some s₂ :=
    (Runs.run_singleton ..).trans hstep₂
  have hdeliver : Runs.run SettingsSession.step s₃ [.deliver read order] = some s₄ :=
    (Runs.run_singleton ..).trans hstep₄
  refine ⟨s₄, ?_, hoffers, ?_⟩
  · have hanswered := Runs.run_append_of_run hrun₁ hanswer
    exact Runs.run_append_of_run (Runs.run_append_of_run hanswered hrun₃) hdeliver
  · rw [hopen, hs₃.plantDropdown, hscreen₂, hs₁.plantDropdown]

end Refresh

/-! ## Selecting the plant -/

/-- The touches that open the list of the plant drop-down anew. -/
def openPlantList (isOpen : Bool) : List SettingsEvent :=
  if isOpen then [.touch .plant, .touch .plant] else [.touch .plant]

section Select

variable {user : Uid} {s : SettingsSession} {name : String} {settings : PlantSettings}

theorem run_openPlantList (s : SettingsSession) :
    Runs.run SettingsSession.step s (openPlantList s.screen.plantDropdown.isSelected) =
      some { s with screen.plantDropdown := s.screen.plantDropdown.showTable } := by
  unfold openPlantList
  split_ifs with hopen
  · simp [Runs.run_cons, SettingsSession.step, setDropdown, dropdown, UIDropDown.touch, hopen,
      UIDropDown.hideTable, UIDropDown.showTable, UIDropDown.loadTable]
  · simp [Runs.run_cons, SettingsSession.step, setDropdown, dropdown, UIDropDown.touch, hopen]

theorem Offers.openPlantList (h : Offers user name settings s) :
    ∃ s', Runs.run SettingsSession.step s
        (IndoorFarm.openPlantList s.screen.plantDropdown.isSelected) = some s' ∧
      Offers user name settings s' ∧ s'.screen.plantDropdown.isSelected = true ∧
      s'.screen.plantDropdown.rows = s'.screen.plantDropdown.options := by
  have hloaded : (s.screen.setDropdown s.screen.plantDropdown.showTable .plant).Loaded :=
    h.loaded.setDropdown (h.loaded.hide .plant) (absurd rfl)
  exact ⟨_, run_openPlantList s, ⟨hloaded, h.listed, h.kept, h.stored⟩, rfl, rfl⟩

/-- A tap on a row that shows the plant loads it. -/
theorem Offers.tap (h : Offers user name settings s) (hrange : settings.InRange)
    (hopen : s.screen.plantDropdown.isSelected = true)
    (hrows : s.screen.plantDropdown.rows = s.screen.plantDropdown.options) {row : ℕ}
    (hrow : s.screen.plantDropdown.rows[row]? = some name) :
    ∃ s', s.step (.tapRow .plant row) = some s' ∧ s'.screen.ShowsPlant name settings ∧
      s'.db = s.db := by
  have hshows : s.Shows .plant row := ⟨hopen, (List.getElem?_eq_some_iff.1 hrow).1⟩
  obtain ⟨screen, hscreen, hplant⟩ := h.loaded.tapRow_plant (hrows ▸ hrow) h.kept hrange
  refine ⟨{ s with screen := screen }, ?_, hplant, rfl⟩
  simp only [SettingsSession.step, if_pos hshows, hscreen, Option.map_some]

end Select

/-- Start on a screen whose settings show chosen options writes their numbers to the farm. -/
theorem step_start {s : SettingsSession} {i j k : ℕ}
    (hname : s.screen.plantNameView ≠ plantSelectTitle)
    (htimer : s.screen.growLightMaxTimerDropdown.ShowsIndex cycleOptions i)
    (hsleep : s.screen.growLightMaxSleepDropdown.ShowsIndex cycleOptions j)
    (htemp : s.screen.growLightMaxTempDropdown.ShowsIndex tempOptions k) :
    ∃ s', s.step .start = some s' ∧ Started s.db s'.db (30 * i) (30 * j) (20 * (k + 1)) := by
  obtain ⟨hpreset, hcurrent⟩ := noPresetTitles_of_showsIndex hname htimer hsleep htemp
  have hcall := SettingsSession.call_start_eq_some_iff.2 ⟨hpreset, _, _, _, hcurrent, rfl⟩
  exact ⟨_, SettingsSession.step_of_accepted hcall trivial, started_automatedWrites ..⟩

/-! ## The round trip -/

/-- The plant is selected: the fields, the indices and their labels are those it was saved with. -/
structure Restored (screen : ControlWindow1) (name trait : String) (i j k : ℕ) : Prop where
  name : screen.plantNameView = name
  trait : screen.plantTraitView = trait
  timer : screen.growLightMaxTimerDropdown.ShowsIndex cycleOptions i
  sleep : screen.growLightMaxSleepDropdown.ShowsIndex cycleOptions j
  temp : screen.growLightMaxTempDropdown.ShowsIndex tempOptions k

theorem restored_of_showsPlant {screen : ControlWindow1} {name trait : String} {i j k : ℕ}
    (h : screen.ShowsPlant name (settingsOfIndices i j k trait)) :
    Restored screen name trait i j k := by
  obtain ⟨hname, htrait, htimer, hsleep, htemp⟩ := h
  simp only [settingsOfIndices, tdiv_minutes, tdiv_degrees] at htrait htimer hsleep htemp
  exact ⟨hname, htrait, htimer, hsleep, htemp⟩

/-- Create, its refresh, edits of the other fields and a tap on the name in the list give back the
saved plant, and Start then leaves the farm with the numbers that are stored for it. -/
theorem saved_plant_is_restored {user : Uid} {s : SettingsSession} {i j k : ℕ}
    (h : ReadyToSave s user i j k)
    (hshort : (LeafValue.string s.screen.plantTraitView).ShortEnough)
    (hsep : (plantsOf user s.db).Separates s.screen.plantNameView)
    {before after edits : List SettingsEvent}
    (hbefore : ∀ event ∈ before, IsQuiet user event) (hafter : ∀ event ∈ after, IsQuiet user event)
    (hedits : ∀ event ∈ edits, IsEdit event) (order : List String) :
    ∃ opened, Runs.run SettingsSession.step s
        ([.create] ++ (before ++ [.answer s.reads.length] ++ after ++
          [.deliver s.reads.length order]) ++ edits ++
          openPlantList s.screen.plantDropdown.isSelected) = some opened ∧
      s.screen.plantNameView ∈ opened.screen.plantDropdown.rows ∧
      ∀ row, opened.screen.plantDropdown.rows[row]? = some s.screen.plantNameView →
        ∃ picked, opened.step (.tapRow .plant row) = some picked ∧
          Restored picked.screen s.screen.plantNameView s.screen.plantTraitView i j k ∧
          storedMap (plantsOf user picked.db) s.screen.plantNameView =
            some ⟨30 * i, 30 * j, 20 * (k + 1), s.screen.plantTraitView⟩ ∧
          ∃ started, picked.step .start = some started ∧
            Started picked.db started.db (30 * i) (30 * j) (20 * (k + 1)) := by
  obtain ⟨saved, hsaved, hscreen, hreads, hstored⟩ := step_create h hshort hsep
  have hread : saved.reads[s.reads.length]? = some { ref := ⟨userPath user⟩ } := by
    rw [hreads, List.getElem?_concat_length]
  have hname : KeyPathName s.screen.plantNameView :=
    ⟨fun hdot => ((isValidKey_iff _).1 h.key).2 _ hdot (by decide), h.notAt⟩
  obtain ⟨fresh, hfresh, hoffers, hopen⟩ := offers_of_refresh (hscreen ▸ h.loaded) hread
    (integerKey_of_not_digits h.notDigits) hname hstored hbefore hafter order
  have hquiet : ∀ event ∈ edits, IsQuiet user event :=
    fun event he => isQuiet_of_isEdit (hedits event he)
  obtain ⟨edited, hedited, hsame⟩ := run_of_isQuiet hoffers.loaded hquiet
  obtain ⟨opened, hopened, hoffers', hselected, hrows⟩ := (hoffers.sameList hsame).openPlantList
  rw [hsame.plantDropdown, hopen, hscreen] at hopened
  have hcreate : Runs.run SettingsSession.step s [.create] = some saved :=
    (Runs.run_singleton ..).trans hsaved
  refine ⟨opened, ?_, hrows ▸ hoffers'.listed, fun row hrow => ?_⟩
  · have hshown := Runs.run_append_of_run hcreate hfresh
    exact Runs.run_append_of_run (Runs.run_append_of_run hshown hedited) hopened
  · have hrange := settingsOfIndices_inRange h.timer.lt_length h.sleep.lt_length h.temp.lt_length
      s.screen.plantTraitView
    obtain ⟨picked, hpicked, hplant, hdb⟩ := hoffers'.tap hrange hselected hrows hrow
    have hrestored := restored_of_showsPlant hplant
    refine ⟨picked, hpicked, hrestored, hdb ▸ hoffers'.stored, ?_⟩
    exact step_start (hrestored.name ▸ h.notPreset) hrestored.timer hrestored.sleep hrestored.temp

/-- The gardener is about to save a second plant. -/
def basilSession : SettingsSession where
  screen := {
    dataModel := {}
    plantDropdown := {}
    plantNameView := "basil"
    plantTraitView := "sweet"
    growLightMaxTimerDropdown :=
      { options := cycleOptions, selectedIndex := some 12, placeholder := "6 hours" }
    growLightMaxSleepDropdown :=
      { options := cycleOptions, selectedIndex := some 2, placeholder := "1 hour" }
    growLightMaxTempDropdown :=
      { options := tempOptions, selectedIndex := some 3, placeholder := "80 Degrees F" } }
  db := roseDatabase.root
  currentUser := some gardener

theorem readyToSave_basilSession : ReadyToSave basilSession gardener 12 2 3 where
  loaded := by
    refine ⟨fun which => by cases which <;> rfl, fun which hne => ?_⟩
    cases which with
    | plant => exact absurd rfl hne
    | growLightMaxTimer | growLightMaxSleep | growLightMaxTemp =>
      refine ⟨rfl, fun hopen => Bool.noConfusion hopen, fun index hindex => ?_⟩
      obtain rfl := Option.some.inj hindex
      decide
  signedIn := rfl
  timer := ⟨rfl, rfl⟩
  sleep := ⟨rfl, rfl⟩
  temp := ⟨rfl, rfl⟩
  key := by decide
  notAt := by decide
  notDigits := by decide
  notPreset := by decide

/-- Basil is saved, the screen edited, and basil tapped and started. -/
theorem saved_plant_is_restored_basil :
    ∃ opened row picked started, Runs.run SettingsSession.step basilSession
        ([.create] ++ ([.remote ["Temperature"] FNode.emptyNode] ++ [.answer 0] ++ [] ++
          [.deliver 0 []]) ++ [.editName "mint"] ++ openPlantList false) = some opened ∧
      opened.screen.plantDropdown.rows[row]? = some "basil" ∧
      opened.step (.tapRow .plant row) = some picked ∧
      Restored picked.screen "basil" "sweet" 12 2 3 ∧
      storedMap (plantsOf gardener picked.db) "basil" = some ⟨360, 60, 80, "sweet"⟩ ∧
      picked.step .start = some started ∧ Started picked.db started.db 360 60 80 := by
  have hshort : (LeafValue.string basilSession.screen.plantTraitView).ShortEnough := by decide
  have hsep : (plantsOf gardener basilSession.db).Separates basilSession.screen.plantNameView :=
    FNode.separates_of_distinctive (by decide) _
  have hbefore : ∀ event ∈ [SettingsEvent.remote ["Temperature"] FNode.emptyNode],
      IsQuiet gardener event := by simp [IsQuiet, userPath]
  have hafter : ∀ event ∈ ([] : List SettingsEvent), IsQuiet gardener event := by simp
  have hedits : ∀ event ∈ [SettingsEvent.editName "mint"], IsEdit event := by simp [IsEdit]
  obtain ⟨opened, hrun, hlisted, htap⟩ :=
    saved_plant_is_restored readyToSave_basilSession hshort hsep hbefore hafter hedits []
  obtain ⟨row, hrow⟩ := List.mem_iff_getElem?.1 hlisted
  obtain ⟨picked, hpicked, hrestored, hstored, started, hstarted, hfarm⟩ := htap row hrow
  exact ⟨opened, row, picked, started, hrun, hrow, hpicked, hrestored, hstored, hstarted, hfarm⟩

/-- A text of `n` letters. -/
def letters : ℕ → String
  | 0 => ""
  | n + 1 => "a" ++ letters n

theorem utf8ByteSize_letters (n : ℕ) : (letters n).utf8ByteSize = n := by
  induction n with
  | zero => rfl
  | succ n ih =>
    rw [letters, String.utf8ByteSize_append, ih, Nat.add_comm]
    rfl

/-- The gardener has written a trait of more than ten megabytes. -/
def wordySession : SettingsSession :=
  { basilSession with screen.plantTraitView := letters (kFirebaseMaxLeafSize + 1) }

theorem readyToSave_wordySession : ReadyToSave wordySession gardener 12 2 3 :=
  { readyToSave_basilSession with
    loaded := SettingsSession.loaded_step readyToSave_basilSession.loaded (.editTrait _) rfl }

/-- Everything is ready, and Create traps. -/
theorem create_of_long_trait_traps :
    ReadyToSave wordySession gardener 12 2 3 ∧ wordySession.step .create = none := by
  refine ⟨readyToSave_wordySession, ?_⟩
  have hlong : ¬ (LeafValue.string wordySession.screen.plantTraitView).ShortEnough := by
    show ¬ (letters (kFirebaseMaxLeafSize + 1)).utf8ByteSize ≤ kFirebaseMaxLeafSize
    rw [utf8ByteSize_letters]
    exact Nat.not_succ_le_self _
  have hrejected : ¬ (SettingsCall.writePlantSettings gardener wordySession.screen.plantNameView
      (settingsOfIndices 12 2 3 wordySession.screen.plantTraitView)).Accepted := fun h => hlong h.2
  rw [SettingsSession.step_of_call readyToSave_wordySession.call_create,
    SettingsCall.perform_of_not_accepted hrejected, Option.map_none]

end IndoorFarm
