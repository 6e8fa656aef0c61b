import IndoorFarm.Isolation
import IndoorFarm.LoadedScreen

/-!
# Which plant a tap selects

A tap on a row loads the plant at this index of the options, and the row shows what the options were
when the list was loaded.  The two agree as long as the rows are a prefix of the options
(`Selectable.rows`), and only a refresh that arrives behind an open list can break this
(`refresh_behind_open_list`).

The other way a tap can go wrong is a plant that has no complete record with an option for each
setting.  `Stocked` says that a user has no such plant; Create and Delete keep it when the name they
work on is one key, whatever plants the order of the keys takes this key for (`Stocked.create`,
`Stocked.delete`).
-/

namespace IndoorFarm

open DataModel ControlWindow1

/-! ## Plants that can be selected -/

/-- Every plant has a complete record with an option for each setting. -/
structure Stocked (plants : FNode) : Prop where
  wellFormed : plants.WellFormed
  plant : ∀ name, plants.namedChild name ≠ FNode.emptyNode →
    ∃ settings, storedMap plants name = some settings ∧ settings.InRange

/-- Only the value of a leaf passes a cast that refuses null, arrays and dictionaries. -/
theorem exists_leafNode_of_cast {α : Type*} {cast : Value → Option α} (hnull : cast .null = none)
    (harray : ∀ elements, cast (.array elements) = none)
    (hdictionary : ∀ entries, cast (.dictionary entries) = none) {n : FNode} {a : α}
    (h : cast n.val = some a) : ∃ v, n = .leafNode v := by
  cases n with
  | leafNode v => exact ⟨v, rfl⟩
  | childrenNode cs =>
    rw [FNode.val, exportChildren] at h
    dsimp only at h
    split_ifs at h
    · rw [hnull] at h
      contradiction
    · rw [harray] at h
      contradiction
    · rw [hdictionary] at h
      contradiction

theorem exists_leafNode_of_asInt {n : FNode} {i : ℤ} (h : n.val.asInt = some i) :
    ∃ v, n = .leafNode v := exists_leafNode_of_cast rfl (fun _ => rfl) (fun _ => rfl) h

theorem exists_leafNode_of_asString {n : FNode} {s : String} (h : n.val.asString = some s) :
    ∃ v, n = .leafNode v := exists_leafNode_of_cast rfl (fun _ => rfl) (fun _ => rfl) h

/-- Removing what is not there leaves a field of a record as it is. -/
theorem getImmediateChild_updateChild_of_leafNode {record : FNode} {field : String}
    (hfield : Distinctive field) (hleaf : ∃ v, record.getImmediateChild field = .leafNode v)
    {key : String} {path : FPath} (hp : record.getChild (key :: path) = FNode.emptyNode) :
    (record.updateChild (key :: path) FNode.emptyNode).getImmediateChild field =
      record.getImmediateChild field := by
  rw [FNode.getImmediateChild_updateChild_cons]
  split_ifs with hkey
  · obtain rfl := (hfield.compareKey_iff key).1 hkey
    obtain ⟨v, hv⟩ := hleaf
    rw [FNode.getChild_cons, hv] at hp
    rw [hv]
    cases path with
    | nil => exact FNode.noConfusion hp
    | cons front path => rfl
  · rfl

/-- Removing what is not there leaves a complete record complete. -/
theorem ofNode_updateChild_emptyNode {record : FNode} {settings : PlantSettings}
    (h : PlantSettings.ofNode record = some settings) {path : FPath}
    (hp : record.getChild path = FNode.emptyNode) :
    PlantSettings.ofNode (record.updateChild path FNode.emptyNode) = some settings := by
  cases path with
  | nil =>
    rw [FNode.getChild_nil] at hp
    rw [hp, PlantSettings.ofNode_emptyNode] at h
    contradiction
  | cons key path =>
    have hfields := h
    simp only [PlantSettings.ofNode, Option.bind_eq_bind, Option.bind_eq_some_iff] at hfields
    obtain ⟨timer, htimer, sleep, hsleep, temp, htemp, trait, htrait, -⟩ := hfields
    rw [PlantSettings.ofNode,
      getImmediateChild_updateChild_of_leafNode (by decide) (exists_leafNode_of_asInt htimer) hp,
      getImmediateChild_updateChild_of_leafNode (by decide) (exists_leafNode_of_asInt hsleep) hp,
      getImmediateChild_updateChild_of_leafNode (by decide) (exists_leafNode_of_asInt htemp) hp,
      getImmediateChild_updateChild_of_leafNode (by decide)
        (exists_leafNode_of_asString htrait) hp]
    exact h

section Stocked

variable {plants : FNode}

theorem stocked_emptyNode : Stocked FNode.emptyNode :=
  ⟨FNode.wellFormed_emptyNode, fun _ h => absurd rfl h⟩

theorem Stocked.updateImmediateChild (h : Stocked plants) {key : String} {c : FNode}
    (hc : c.WellFormed) (hkey : isValidKey key = true)
    (hsettings : c ≠ FNode.emptyNode → ∃ settings, PlantSettings.ofNode c = some settings ∧
      settings.InRange) :
    Stocked (plants.updateImmediateChild key c) := by
  refine ⟨h.wellFormed.updateImmediateChild hc hkey, fun name hchild => ?_⟩
  unfold storedMap
  obtain heq | ⟨heq, -⟩ := h.wellFormed.namedChild_updateImmediateChild c hchild <;>
    rw [heq] at hchild ⊢
  exacts [h.plant name hchild, hsettings hchild]

theorem Stocked.create (h : Stocked plants) {name : String} (hkey : isValidKey name = true)
    {settings : PlantSettings} (hrange : settings.InRange) :
    Stocked (plants.updateChild [name] settings.node) := by
  rw [FNode.updateChild_singleton]
  exact h.updateImmediateChild settings.wellFormed_node hkey
    fun _ => ⟨settings, settings.ofNode_node, hrange⟩

theorem Stocked.delete (h : Stocked plants) {path : FPath}
    (hvalid : ∀ k ∈ path, isValidKey k = true)
    (hpath : path.length ≤ 1 ∨ plants.getChild path = FNode.emptyNode) :
    Stocked (plants.updateChild path FNode.emptyNode) := by
  cases path with
  | nil =>
    rw [FNode.updateChild_eq_put]
    exact stocked_emptyNode
  | cons key path =>
    obtain ⟨hkey, hrest⟩ := List.forall_mem_cons.1 hvalid
    rw [FNode.updateChild_cons]
    have hchild := h.wellFormed.getImmediateChild key
    refine h.updateImmediateChild (hchild.updateChild FNode.wellFormed_emptyNode hrest) hkey ?_
    intro hne
    have hempty : (plants.getImmediateChild key).getChild path = FNode.emptyNode := by
      rcases hpath with hlength | hempty
      · obtain rfl : path = [] := List.length_eq_zero_iff.1 (by simpa using hlength)
        exact absurd (FNode.updateChild_eq_put _ [] _) hne
      · rwa [← FNode.getChild_cons]
    -- what is stored under the key is a record, since something is left of it
    have hstored : plants.getImmediateChild key ≠ FNode.emptyNode := fun e => hne (by
      rw [e, FNode.updateChild_emptyNode_emptyNode])
    obtain ⟨name, hname, heq⟩ := exists_mem_keys_of_child hstored
    have hnamed : plants.namedChild name = plants.getImmediateChild key := by
      rw [(separates_of_mem_keys h.wellFormed hname).namedChild_eq,
        FNode.getImmediateChild_congr plants heq]
    obtain ⟨settings, hsettings, hrange⟩ := h.plant name (hnamed ▸ hstored)
    rw [storedMap, hnamed] at hsettings
    exact ⟨settings, ofNode_updateChild_emptyNode hsettings hempty, hrange⟩
/-- After a read of stocked plants, the getters find the settings of every name that is listed and
that a key path leads to. -/
theorem Stocked.plantSettings (h : Stocked plants) (model : DataModel) {names : NSDictionary}
    (hnames : plants.val.asNSDictionary = some names) {order : List String} {name : String}
    (hmem : name ∈ NSDictionary.allKeys names order) (hat : name.toList.head? ≠ some '@') :
    ∃ settings, (model.storePlantNames plants).plantSettings name = some settings ∧
      settings.InRange := by
  have hkeys : name ∈ plants.keys := by
    have hlisted := (NSDictionary.allKeys_perm names order).mem_iff.1 hmem
    obtain ⟨cs, rfl, rfl⟩ := exists_of_asNSDictionary_val hnames
    rwa [keys_valChildren] at hlisted
  obtain ⟨settings, hstored, hrange⟩ :=
    h.plant name (namedChild_ne_of_mem_keys h.wellFormed hkeys)
  have hvalid := (isValidKey_iff name).1 (h.wellFormed.isValidKey_of_mem_keys hkeys)
  have hname : KeyPathName name := ⟨fun hdot => hvalid.2 _ hdot (by decide), hat⟩
  exact ⟨settings, (plantSettings_storePlantNames model hnames hname).trans hstored, hrange⟩

end Stocked

/-- The settings of a loaded screen have an option each. -/
theorem ControlWindow1.Loaded.inRange_currentSettings {screen : ControlWindow1} (h : screen.Loaded)
    {timer sleep temp : ℤ} (hs : screen.currentSettings = some (timer, sleep, temp))
    (trait : String) : (⟨timer, sleep, temp, trait⟩ : PlantSettings).InRange := by
  unfold currentSettings at hs
  simp only [Option.bind_eq_bind, Option.bind_eq_some_iff] at hs
  obtain ⟨i, hi, j, hj, k, hk, hs⟩ := hs
  have htimer := (h.setting .growLightMaxTimer Dropdown.noConfusion).selected i hi
  have hsleep := (h.setting .growLightMaxSleep Dropdown.noConfusion).selected j hj
  have htemp := (h.setting .growLightMaxTemp Dropdown.noConfusion).selected k hk
  have heq := Option.some.inj hs
  simp only [Prod.mk.injEq] at heq
  obtain ⟨rfl, rfl, rfl⟩ := heq
  refine ⟨?_, ?_, ?_⟩ <;> simp only [Int.mul_tdiv_cancel _ (show (30 : ℤ) ≠ 0 by decide),
    Int.mul_tdiv_cancel _ (show (20 : ℤ) ≠ 0 by decide), add_sub_cancel_right]
  exacts [htimer, hsleep, htemp]

/-! ## The invariant of a session -/

namespace SettingsSession

/-- The options of the plant drop-down that a key path leads to have settings in the data model, an
open list shows a prefix of the options, and the plants that are stored or on their way from the
server are stocked. -/
structure Selectable (s : SettingsSession) : Prop where
  loaded : s.screen.Loaded
  settings : ∀ name ∈ s.screen.plantDropdown.options, name.toList.head? ≠ some '@' → ∃ settings,
    s.screen.dataModel.plantSettings name = some settings ∧ settings.InRange
  rows : s.screen.plantDropdown.isSelected = true →
    s.screen.plantDropdown.rows <+: s.screen.plantDropdown.options
  stored : ∀ user, s.currentUser = some user → Stocked (plantsOf user s.db)
  ref : ∀ read ∈ s.reads, ∃ user, s.currentUser = some user ∧ read.ref = ⟨userPath user⟩
  snapshot : ∀ read ∈ s.reads, ∀ snapshot, read.snapshot = some snapshot → Stocked snapshot

/-- The screen has just been loaded with the plants of a read, and the user's plants are stocked. -/
structure Fresh (s : SettingsSession) : Prop where
  loaded : ∃ (model : DataModel) (plants : FNode) (order : List String), Stocked plants ∧
    viewDidLoad (model.storePlantNames plants) order = some s.screen
  stored : ∀ user, s.currentUser = some user → Stocked (plantsOf user s.db)
  reads : s.reads = []

/-- An event of the screen after which an open plant list still shows what its rows select: a Create
that is carried out works on one key, a Delete on one key or on nothing that is stored, a refresh
that arrives behind the open list adds options at the end of the rows it shows; and no row is tapped
whose name begins with `@`. -/
def KeepsRows (s : SettingsSession) : SettingsEvent → Prop
  | .create => s.screen.NoPresetTitles → s.currentUser ≠ none →
    isValidPathString s.screen.plantNameView = true →
    (LeafValue.string s.screen.plantTraitView).ShortEnough →
    ∃ key, pathPieces s.screen.plantNameView = [key]
  | .delete => s.screen.NoPresetTitles →
    (pathPieces s.screen.plantNameView).length ≤ 1 ∨
    ∀ user, s.currentUser = some user →
      (plantsOf user s.db).getChild (pathPieces s.screen.plantNameView) = FNode.emptyNode
  | .deliver read order => s.screen.plantDropdown.isSelected = true →
    ∀ snapshot names, s.reads[read]?.bind PlantsRead.snapshot = some snapshot →
      snapshot.val.asNSDictionary = some names →
      s.screen.plantDropdown.rows <+: NSDictionary.allKeys names order
  | .tapRow .plant row => s.screen.plantDropdown.isSelected = true →
    ∀ name, s.screen.plantDropdown.rows[row]? = some name → name.toList.head? ≠ some '@'
  | .remote _ _ => False
  | .authChange _ => False
  | _ => True

/-- A tap on a row that is shown finds every index it uses, and a tap on a row of the plant
drop-down loads the plant whose name the row shows. -/
def SelectsRow (s : SettingsSession) : SettingsEvent → Prop
  | .tapRow .plant row => s.screen.plantDropdown.isSelected = true →
    ∀ name, s.screen.plantDropdown.rows[row]? = some name →
      ∃ s' settings, s.step (.tapRow .plant row) = some s' ∧
        s.screen.dataModel.plantSettings name = some settings ∧ s'.screen.ShowsPlant name settings
  | .tapRow which row => (s.step (.tapRow which row)).isSome
  | _ => True

variable {s s' : SettingsSession}

theorem Fresh.selectable (h : s.Fresh) : s.Selectable := by
  obtain ⟨⟨model, plants, order, hplants, hload⟩, hstored, hreads⟩ := h
  have hloaded := loaded_viewDidLoad hload
  unfold viewDidLoad plantNamesAllKeys at hload
  simp only [Option.bind_eq_bind, Option.bind_eq_some_iff, Option.map_eq_some_iff] at hload
  obtain ⟨options, ⟨names, hnames, rfl⟩, hscreen⟩ := hload
  have hscreen := Option.some.inj hscreen
  refine ⟨hloaded, ?_, ?_, hstored, ?_, ?_⟩
  · rw [← hscreen]
    exact fun name hname => hplants.plantSettings model hnames hname
  · rw [← hscreen]
    exact fun hfalse => Bool.noConfusion hfalse
  · rw [hreads]
    exact fun _ hread => absurd hread List.not_mem_nil
  · rw [hreads]
    exact fun _ hread => absurd hread List.not_mem_nil

/-! ### Steps that keep the invariant -/

/-- A screen with the same data model and options, in a session that is otherwise the same. -/
theorem Selectable.withScreen (h : s.Selectable) {screen : ControlWindow1} (hloaded : screen.Loaded)
    (hmodel : screen.dataModel = s.screen.dataModel)
    (hoptions : screen.plantDropdown.options = s.screen.plantDropdown.options)
    (hrows : screen.plantDropdown.isSelected = true →
      screen.plantDropdown.rows <+: screen.plantDropdown.options) :
    Selectable { s with screen := screen } where
  loaded := hloaded
  settings name hname := by
    simp only [hoptions] at hname
    simp only [hmodel]
    exact h.settings name hname
  rows := hrows
  stored := h.stored
  ref := h.ref
  snapshot := h.snapshot

/-- A press that keeps the user's plants stocked, with the read it has issued. -/
theorem Selectable.press (h : s.Selectable) {event : SettingsEvent}
    (hs : s.step event = some s') (hpress : event.IsPress)
    (hstored : ∀ call, s.call event = some call → call.Accepted → ∀ user,
      s.currentUser = some user → Stocked (plantsOf user (call.written s.db))) :
    s'.Selectable := by
  have huser' := currentUser_of_press hs hpress
  have hreset : s'.screen.Loaded ∧ s'.screen.dataModel = s.screen.dataModel ∧
      s'.screen.plantDropdown.options = s.screen.plantDropdown.options ∧
      s'.screen.plantDropdown.rows = s.screen.plantDropdown.rows ∧
      s'.screen.plantDropdown.isSelected = s.screen.plantDropdown.isSelected := by
    rw [screen_of_press hs hpress]
    split_ifs
    exacts [⟨h.loaded.resetViews, rfl, rfl, rfl, rfl⟩, ⟨h.loaded, rfl, rfl, rfl, rfl⟩]
  obtain ⟨hloaded, hmodel, hoptions, hrows, hopen⟩ := hreset
  refine ⟨hloaded, ?_, ?_, fun user huser => ?_, fun read hread => ?_,
    fun read hread snapshot hsnapshot => ?_⟩
  · rw [hoptions, hmodel]
    exact h.settings
  · rw [hopen, hrows, hoptions]
    exact h.rows
  · rw [huser'] at huser
    obtain hdb | ⟨call, hcall, haccepted, hdb⟩ := db_of_press hs hpress <;> rw [hdb]
    exacts [h.stored user huser, hstored call hcall haccepted user huser]
  · rw [huser']
    obtain hread | ⟨user, huser, rfl⟩ := mem_reads_of_press hs hpress hread
    exacts [h.ref read hread, ⟨user, huser, rfl⟩]
  · obtain hread | ⟨user, huser, rfl⟩ := mem_reads_of_press hs hpress hread
    exacts [h.snapshot read hread snapshot hsnapshot, by contradiction]

theorem Selectable.create (h : s.Selectable) (hc : s.KeepsRows .create)
    (hs : s.step .create = some s') : s'.Selectable := by
  refine h.press hs trivial fun call hcall haccepted user huser => ?_
  obtain ⟨hpreset, user', timer, sleep, temp, huser', hsettings, rfl⟩ :=
    call_create_eq_some_iff.1 hcall
  obtain rfl := Option.some.inj (huser'.symm.trans huser)
  obtain ⟨key, hkey⟩ := hc hpreset (by simp [huser']) haccepted.1 haccepted.2
  have hmem : key ∈ pathPieces s.screen.plantNameView := hkey ▸ List.mem_singleton_self key
  have hvalidKey := isValidKey_of_mem_pathPieces haccepted.1 hmem
  have hrange := h.loaded.inRange_currentSettings hsettings s.screen.plantTraitView
  rw [SettingsCall.written, plantsOf_updateChild_self, hkey]
  exact (h.stored user' huser).create hvalidKey hrange

theorem Selectable.delete (h : s.Selectable) (hc : s.KeepsRows .delete)
    (hs : s.step .delete = some s') : s'.Selectable := by
  refine h.press hs trivial fun call hcall haccepted user huser => ?_
  obtain ⟨hpreset, user', huser', rfl⟩ := call_delete_eq_some_iff.1 hcall
  obtain rfl := Option.some.inj (huser'.symm.trans huser)
  have hpath := (hc hpreset).imp_right fun hempty => hempty user' huser
  rw [SettingsCall.written, plantsOf_updateChild_self]
  exact (h.stored user' huser).delete (fun k hk => isValidKey_of_mem_pathPieces haccepted hk) hpath

theorem Selectable.start (h : s.Selectable) (hs : s.step .start = some s') : s'.Selectable := by
  refine h.press hs trivial fun call hcall _ user huser => ?_
  obtain ⟨-, timer, sleep, temp, -, rfl⟩ := call_start_eq_some_iff.1 hcall
  have hplants := plantsOf_farmCall user s.db (.writeAutomatedSettings timer sleep temp)
  rw [SettingsCall.written]
  exact hplants.symm ▸ h.stored user huser

theorem Selectable.tapRow (h : s.Selectable) {which : Dropdown} {row : ℕ}
    (hs : s.step (.tapRow which row) = some s') : s'.Selectable := by
  simp only [step] at hs
  split_ifs at hs with hshows
  · obtain ⟨screen, hscreen, rfl⟩ := Option.map_eq_some_iff.1 hs
    have hloaded := h.loaded.tapRow hscreen
    by_cases hne : which = .plant
    · subst hne
      obtain ⟨-, hmodel, -, hdropdown⟩ := h.loaded.of_tapRow_plant hscreen
      refine h.withScreen hloaded hmodel ?_ ?_ <;> rw [hdropdown]
      · rfl
      · exact fun _ => List.prefix_rfl
    · have hrow := hshows.2
      rw [(h.loaded.setting which hne).rows hshows.1] at hrow
      obtain ⟨_, hscreen', -, hmodel, hdropdown⟩ := h.loaded.tapRow_setting hne hrow
      obtain rfl := Option.some.inj (hscreen.symm.trans hscreen')
      refine h.withScreen hloaded hmodel ?_ ?_ <;> rw [hdropdown]
      exact h.rows
  · obtain rfl := Option.some.inj hs
    exact h

theorem Selectable.touch (h : s.Selectable) {which : Dropdown}
    (hs : s.step (.touch which) = some s') : s'.Selectable := by
  obtain rfl := Option.some.inj hs
  refine h.withScreen (h.loaded.touch which) ?_ ?_ ?_
  · cases which <;> rfl
  · cases which with
    | plant => exact s.screen.plantDropdown.options_touch
    | growLightMaxTimer | growLightMaxSleep | growLightMaxTemp => rfl
  · cases which with
    | plant =>
      intro hopen
      have hrows := (UIDropDown.rows_touch hopen).trans s.screen.plantDropdown.options_touch.symm
      exact hrows ▸ List.prefix_rfl
    | growLightMaxTimer | growLightMaxSleep | growLightMaxTemp => exact h.rows

theorem Selectable.answer (h : s.Selectable) {read : ℕ} (hs : s.step (.answer read) = some s') :
    s'.Selectable := by
  obtain rfl := Option.some.inj hs
  have hmem : ∀ r ∈ s.reads.modify read fun r => { r with snapshot := some (r.ref.snapshot s.db) },
      r ∈ s.reads ∨ ∃ r' ∈ s.reads, r = ⟨r'.ref, some (r'.ref.snapshot s.db)⟩ := by
    intro r hr
    obtain ⟨i, hi⟩ := List.mem_iff_getElem?.1 hr
    rw [List.getElem?_modify] at hi
    obtain ⟨r', hr', heq⟩ := Option.map_eq_some_iff.1 hi
    split_ifs at heq
    exacts [Or.inr ⟨r', List.mem_of_getElem? hr', heq.symm⟩,
      Or.inl (heq ▸ List.mem_of_getElem? hr')]
  refine ⟨h.loaded, h.settings, h.rows, h.stored, fun r hr => ?_, fun r hr snapshot hsnapshot => ?_⟩
  · obtain hr | ⟨r', hr', rfl⟩ := hmem r hr
    exacts [h.ref r hr, h.ref r' hr']
  · obtain hr | ⟨r', hr', rfl⟩ := hmem r hr
    · exact h.snapshot r hr snapshot hsnapshot
    · obtain ⟨user, huser, href⟩ := h.ref r' hr'
      obtain rfl := Option.some.inj hsnapshot
      rw [href]
      exact h.stored user huser

theorem Selectable.deliver (h : s.Selectable) {read : ℕ} {order : List String}
    (hc : s.KeepsRows (.deliver read order)) (hs : s.step (.deliver read order) = some s') :
    s'.Selectable := by
  simp only [step] at hs
  split at hs
  · obtain rfl := Option.some.inj hs
    exact h
  · rename_i snapshot hsnapshot
    obtain ⟨r, hr, hsnap⟩ := Option.bind_eq_some_iff.1 hsnapshot
    have hstocked := h.snapshot r (List.mem_of_getElem? hr) snapshot hsnap
    obtain ⟨screen, hscreen, rfl⟩ := Option.map_eq_some_iff.1 hs
    have hloaded := h.loaded.plantsReadCompleted hscreen
    rw [plantsReadCompleted_eq] at hscreen
    obtain ⟨names, hnames, rfl⟩ := Option.map_eq_some_iff.1 hscreen
    refine ⟨hloaded, fun name hname => ?_, fun hopen => ?_, h.stored, fun r hr => ?_,
      fun r hr => ?_⟩
    · exact hstocked.plantSettings s.screen.dataModel hnames hname
    · exact hc hopen snapshot names hsnapshot hnames
    · exact h.ref r (List.mem_of_mem_eraseIdx hr)
    · exact h.snapshot r (List.mem_of_mem_eraseIdx hr)

theorem selectable_step (h : s.Selectable) {event : SettingsEvent} (hc : s.KeepsRows event)
    (hs : s.step event = some s') : s'.Selectable := by
  cases event with
  | touch which => exact h.touch hs
  | tapRow which row => exact h.tapRow hs
  | editName text | editTrait text =>
    have hloaded := loaded_step h.loaded _ hs
    obtain rfl := Option.some.inj hs
    exact h.withScreen hloaded rfl rfl h.rows
  | create => exact h.create hc hs
  | delete => exact h.delete hc hs
  | start => exact h.start hs
  | answer read => exact h.answer hs
  | deliver read order => exact h.deliver hc hs
  | cancel read =>
    obtain rfl := Option.some.inj hs
    exact ⟨h.loaded, h.settings, h.rows, h.stored,
      fun r hr => h.ref r (List.mem_of_mem_eraseIdx hr),
      fun r hr => h.snapshot r (List.mem_of_mem_eraseIdx hr)⟩
  | remote path node | authChange user => exact hc.elim

/-! ### What a tap selects -/

theorem Selectable.selectsRow (h : s.Selectable) {event : SettingsEvent} (hc : s.KeepsRows event) :
    s.SelectsRow event := by
  cases event with
  | tapRow which row =>
    cases which with
    | plant =>
      intro hopen name hname
      have hoption := List.prefix_iff_getElem?.1 (h.rows hopen) row
        (List.getElem?_eq_some_iff.1 hname).1
      rw [(List.getElem?_eq_some_iff.1 hname).2] at hoption
      obtain ⟨settings, hsettings, hrange⟩ :=
        h.settings name (List.mem_of_getElem? hoption) (hc hopen name hname)
      obtain ⟨screen, hscreen, hplant⟩ := h.loaded.tapRow_plant hoption hsettings hrange
      have hshows : s.Shows .plant row := ⟨hopen, (List.getElem?_eq_some_iff.1 hname).1⟩
      refine ⟨{ s with screen := screen }, settings, ?_, hsettings, hplant⟩
      simp only [step, if_pos hshows, hscreen, Option.map_some]
    | growLightMaxTimer | growLightMaxSleep | growLightMaxTemp =>
      simp only [SelectsRow, step]
      split_ifs with hshows
      · have hrow := hshows.2
        rw [(h.loaded.setting _ Dropdown.noConfusion).rows hshows.1] at hrow
        obtain ⟨screen, hscreen, -⟩ := h.loaded.tapRow_setting Dropdown.noConfusion hrow
        rw [hscreen, Option.map_some, Option.isSome_some]
      · rfl
  | _ => trivial

/-- A refresh behind an open list that does not leave the rows where they are has a row whose tap
does not select the plant it shows. -/
theorem refresh_behind_open_list (h : s.screen.Loaded) {read : ℕ} {order : List String}
    (hs : s.step (.deliver read order) = some s')
    (hopen : s'.screen.plantDropdown.isSelected = true)
    (hrows : ¬ s'.screen.plantDropdown.rows <+: s'.screen.plantDropdown.options) :
    ∃ row, ¬ s'.SelectsRow (.tapRow .plant row) := by
  have hloaded := loaded_step h _ hs
  by_contra hall
  push Not at hall
  refine hrows (List.prefix_iff_getElem?.2 fun row hrow => ?_)
  obtain ⟨s'', settings, hstep, -, hplant⟩ := hall row hopen _ (List.getElem?_eq_getElem hrow)
  have hshows : s'.Shows .plant row := ⟨hopen, hrow⟩
  simp only [step, if_pos hshows] at hstep
  obtain ⟨screen, hscreen, rfl⟩ := Option.map_eq_some_iff.1 hstep
  rw [(hloaded.of_tapRow_plant hscreen).2.2.1, hplant.name]

/-- From a fresh screen on, every tap selects the plant its row shows, in every run whose refreshes
leave the rows of an open list where they are and whose saved and deleted names are one key. -/
theorem tap_selects_its_row (h : s.Fresh) {events : List SettingsEvent}
    (hc : Runs.Along step KeepsRows s events) : Runs.Along step SelectsRow s events :=
  Runs.along_of_invariant (I := Selectable) (fun _ _ _ hs hc hstep => selectable_step hs hc hstep)
    (fun _ _ hs hc => hs.selectsRow hc) h.selectable hc

/-! ### A garden with two plants -/

/-- Basil and mint. -/
def herbs : FNode :=
  (FNode.emptyNode.updateChild ["basil"] (PlantSettings.node ⟨360, 60, 80, "sweet"⟩)).updateChild
    ["mint"] (PlantSettings.node ⟨720, 30, 60, "fresh"⟩)

theorem stocked_herbs : Stocked herbs := by
  refine (stocked_emptyNode.create ?_ ⟨?_, ?_, ?_⟩).create ?_ ⟨?_, ?_, ?_⟩ <;> decide

theorem isSome_viewDidLoad_herbs :
    (viewDidLoad (({} : DataModel).storePlantNames herbs) []).isSome = true := by
  decide +kernel

/-- The gardener has just opened the settings screen. -/
def herbSession : SettingsSession where
  screen := (viewDidLoad (({} : DataModel).storePlantNames herbs) []).get isSome_viewDidLoad_herbs
  db := FNode.emptyNode.updateChild (userPath gardener) herbs
  currentUser := some gardener

theorem fresh_herbSession : herbSession.Fresh where
  loaded := ⟨{}, herbs, [], stocked_herbs, (Option.some_get isSome_viewDidLoad_herbs).symm⟩
  stored := by
    intro user huser
    obtain rfl := Option.some.inj huser
    unfold herbSession plantsOf
    rw [FNode.getChild_updateChild_self]
    exact stocked_herbs
  reads := rfl

theorem tap_selects_its_row_herbs :
    Runs.Along step SelectsRow herbSession
      [.touch .plant, .tapRow .plant 1, .editTrait "cool", .tapRow .plant 0] := by
  apply tap_selects_its_row fresh_herbSession
  have hat {s : SettingsSession} (hrows : s.screen.plantDropdown.rows = ["basil", "mint"])
      (row : ℕ) : s.KeepsRows (.tapRow .plant row) := by
    intro _ name hname
    have hmem := List.mem_of_getElem? hname
    rw [hrows, List.mem_pair] at hmem
    rcases hmem with rfl | rfl <;> decide
  have hrows {s : SettingsSession} {events : List SettingsEvent}
      (hevents : (Runs.run step herbSession events).map (fun s => s.screen.plantDropdown.rows) =
        some ["basil", "mint"]) (hs : Runs.run step herbSession events = some s) :
      s.screen.plantDropdown.rows = ["basil", "mint"] := by
    rw [hs] at hevents
    exact Option.some.inj hevents
  show Runs.Along step KeepsRows herbSession
    (([.touch .plant] ++ [.tapRow .plant 1, .editTrait "cool"]) ++ [.tapRow .plant 0])
  refine Runs.along_append.2 ⟨?_, fun s hs => ⟨hat (hrows ?_ hs) 0, fun _ _ => trivial⟩⟩
  · refine Runs.along_append.2
      ⟨⟨trivial, fun _ _ => trivial⟩, fun s hs => ⟨hat (hrows ?_ hs) 1, ?_⟩⟩
    · decide +kernel
    · exact fun _ _ => ⟨trivial, fun _ _ => trivial⟩
  · decide +kernel

/-- Opening the list, selecting basil and deleting it, with the refresh arriving behind the list. -/
def deleteBasil : List SettingsEvent :=
  [.touch .plant, .tapRow .plant 0, .delete, .answer 0, .deliver 0 []]

/-- The list still shows basil and mint: the row of basil now loads mint, and the row of mint is out
of range. -/
theorem stale_row_loads_other_plant :
    herbSession.Fresh ∧ ∃ shown, Runs.run step herbSession deleteBasil = some shown ∧
      shown.screen.plantDropdown.isSelected = true ∧
      shown.screen.plantDropdown.rows = ["basil", "mint"] ∧
      (∃ tapped, shown.step (.tapRow .plant 0) = some tapped ∧
        tapped.screen.plantNameView = "mint") ∧
      shown.step (.tapRow .plant 1) = none ∧
      ¬ Runs.Along step SelectsRow herbSession (deleteBasil ++ [.tapRow .plant 0]) := by
  have hrun : (Runs.run step herbSession deleteBasil).map (fun s =>
      (s.screen.plantDropdown.isSelected, s.screen.plantDropdown.rows,
        (s.step (.tapRow .plant 0)).map fun s => s.screen.plantNameView,
        (s.step (.tapRow .plant 1)).isNone)) =
      some (true, ["basil", "mint"], some "mint", true) := by decide +kernel
  obtain ⟨shown, hshown, hview⟩ := Option.map_eq_some_iff.1 hrun
  simp only [Prod.mk.injEq, Option.map_eq_some_iff, Option.isNone_iff_eq_none] at hview
  obtain ⟨hopen, hrows, hbasil, hmint⟩ := hview
  refine ⟨fresh_herbSession, shown, hshown, hopen, hrows, hbasil, hmint, fun h => ?_⟩
  obtain ⟨tapped, htapped, hname⟩ := hbasil
  obtain ⟨s', settings, hs', -, hplant⟩ :=
    ((Runs.along_append.1 h).2 shown hshown).1 hopen "basil" (by rw [hrows]; rfl)
  obtain rfl := Option.some.inj (htapped.symm.trans hs')
  have hother := hname.symm.trans hplant.name
  contradiction

end SettingsSession

end IndoorFarm
