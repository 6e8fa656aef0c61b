import IndoorFarm.Operations
import IndoorFarm.SettingsScreen

/-!
# What a press of Create, Delete or Start does

A press that passes its tests comes to one call of the data model (`SettingsSession.call`).  It then
does what the call does to the tree, asks for a refresh and, for a Delete, resets the screen
(`step_of_call`); a press that comes to no call has its own lemma for each button.  The frame lemmas
at the end put the two together: what a press can do to the tree, to the screen and to the reads.
The branches of `buttonAction` are not taken apart anywhere else.
-/

namespace IndoorFarm

open DataModel ControlWindow1

/-- The presses of the three buttons. -/
def SettingsEvent.IsPress : SettingsEvent → Prop
  | create | delete | start => True
  | _ => False

/-! ## Calls -/

/-- The calls of the data model by which the three buttons change the database, past the check that
a user is signed in. -/
inductive SettingsCall where
  | writePlantSettings (user : Uid) (plant : String) (settings : PlantSettings)
  | deletePlantSettings (user : Uid) (plant : String)
  | writeAutomatedSettings (growLightMaxtimer growLightMaxsleep growLightMaxtemp : ℤ)

namespace SettingsCall

/-- What the call does to the tree, `none` when it raises. -/
def perform (db : FNode) : SettingsCall → Option FNode
  | writePlantSettings user plant settings =>
    DataModel.writePlantSettingsFirebaseDB (some user) plant settings.growLightMaxtimer
      settings.growLightMaxsleep settings.growLightMaxtemp settings.plantTrait db
  | deletePlantSettings user plant => DataModel.deletePlantSettingsFirebaseDB (some user) plant db
  | writeAutomatedSettings growLightMaxtimer growLightMaxsleep growLightMaxtemp =>
    DataModel.writeAutomatedSettingsToIndoorFarm growLightMaxtimer growLightMaxsleep
      growLightMaxtemp db

/-- The refresh that is asked for with the call. -/
def reads : SettingsCall → List PlantsRead
  | writePlantSettings user _ _ => [{ ref := ⟨userPath user⟩ }]
  | deletePlantSettings user _ => [{ ref := ⟨userPath user⟩ }]
  | writeAutomatedSettings _ _ _ => []

/-- What the press makes of the screen at once. -/
def screen (screen : ControlWindow1) : SettingsCall → ControlWindow1
  | deletePlantSettings _ _ => screen.resetViews
  | _ => screen

/-- The call names its plant by a text that `child` takes, and its trait is not too long. -/
def Accepted : SettingsCall → Prop
  | writePlantSettings _ plant settings =>
    isValidPathString plant = true ∧ (LeafValue.string settings.plantTrait).ShortEnough
  | deletePlantSettings _ plant => isValidPathString plant = true
  | writeAutomatedSettings _ _ _ => True

/-- The tree after a call that does not raise. -/
def written (db : FNode) : SettingsCall → FNode
  | writePlantSettings user plant settings =>
    db.updateChild (userPath user ++ pathPieces plant) settings.node
  | deletePlantSettings user plant =>
    db.updateChild (userPath user ++ pathPieces plant) FNode.emptyNode
  | writeAutomatedSettings growLightMaxtimer growLightMaxsleep growLightMaxtemp =>
    (automatedWrites growLightMaxtimer growLightMaxsleep growLightMaxtemp).foldl writeFarmValue db

theorem perform_of_accepted {call : SettingsCall} (h : call.Accepted) (db : FNode) :
    call.perform db = some (call.written db) := by
  cases call with
  | writePlantSettings user plant settings =>
    exact writePlantSettingsFirebaseDB_eq user h.1 _ _ _ h.2 db
  | deletePlantSettings user plant => exact deletePlantSettingsFirebaseDB_eq user h db
  | writeAutomatedSettings timer sleep temp =>
    exact FarmCall.perform_eq (.writeAutomatedSettings timer sleep temp) db

theorem perform_of_not_accepted {call : SettingsCall} (h : ¬ call.Accepted) (db : FNode) :
    call.perform db = none := by
  cases call with
  | writePlantSettings user plant settings =>
    exact writePlantSettingsFirebaseDB_eq_none user _ _ _ h db
  | deletePlantSettings user plant =>
    exact deletePlantSettingsFirebaseDB_eq_none user (Bool.eq_false_iff.2 h) db
  | writeAutomatedSettings timer sleep temp => exact absurd trivial h

theorem perform_eq_some_iff {call : SettingsCall} {db db' : FNode} :
    call.perform db = some db' ↔ call.Accepted ∧ call.written db = db' := by
  by_cases h : call.Accepted
  · rw [perform_of_accepted h, Option.some.injEq, and_iff_right h]
  · rw [perform_of_not_accepted h]
    exact iff_of_false (Option.some_ne_none db').symm fun hdb => h hdb.1

end SettingsCall

/-! ## A press that comes to a call -/

namespace SettingsSession

/-- The call a press comes to: no drop-down shows its prompt, and for a plant a user is signed
in. -/
def call (s : SettingsSession) : SettingsEvent → Option SettingsCall
  | .create => if s.screen.NoPresetTitles then do
      let user ← s.currentUser
      let (growLightMaxtimer, growLightMaxsleep, growLightMaxtemp) ← s.screen.currentSettings
      return .writePlantSettings user s.screen.plantNameView
        ⟨growLightMaxtimer, growLightMaxsleep, growLightMaxtemp, s.screen.plantTraitView⟩
    else none
  | .delete => if s.screen.NoPresetTitles then do
      let user ← s.currentUser
      return .deletePlantSettings user s.screen.plantNameView
    else none
  | .start => if s.screen.NoPresetTitles then do
      let (growLightMaxtimer, growLightMaxsleep, growLightMaxtemp) ← s.screen.currentSettings
      return .writeAutomatedSettings growLightMaxtimer growLightMaxsleep growLightMaxtemp
    else none
  | _ => none

/-- The press is a Delete that resets the screen. -/
def Resets (s : SettingsSession) : SettingsEvent → Prop
  | .delete => s.screen.NoPresetTitles
  | _ => False

instance (s : SettingsSession) : DecidablePred s.Resets := fun event => by
  cases event <;> unfold Resets <;> infer_instance

variable {s s' : SettingsSession} {event : SettingsEvent} {call : SettingsCall}

theorem call_create_eq_some_iff :
    s.call .create = some call ↔ s.screen.NoPresetTitles ∧ ∃ user timer sleep temp,
      s.currentUser = some user ∧ s.screen.currentSettings = some (timer, sleep, temp) ∧
      .writePlantSettings user s.screen.plantNameView
        ⟨timer, sleep, temp, s.screen.plantTraitView⟩ = call := by
  unfold SettingsSession.call
  split_ifs with hpreset <;> simp [hpreset, Option.bind_eq_some_iff]

theorem call_delete_eq_some_iff :
    s.call .delete = some call ↔ s.screen.NoPresetTitles ∧ ∃ user,
      s.currentUser = some user ∧ .deletePlantSettings user s.screen.plantNameView = call := by
  unfold SettingsSession.call
  split_ifs with hpreset <;> simp [hpreset, Option.bind_eq_some_iff]

theorem call_start_eq_some_iff :
    s.call .start = some call ↔ s.screen.NoPresetTitles ∧ ∃ timer sleep temp,
      s.screen.currentSettings = some (timer, sleep, temp) ∧
      .writeAutomatedSettings timer sleep temp = call := by
  unfold SettingsSession.call
  split_ifs with hpreset <;> simp [hpreset, Option.bind_eq_some_iff]

theorem isPress_of_call (h : s.call event = some call) : event.IsPress := by
  cases event with
  | create | delete | start => trivial
  | _ => exact absurd h (by simp [SettingsSession.call])

theorem noPresetTitles_of_call (h : s.call event = some call) : s.screen.NoPresetTitles := by
  cases event with
  | create => exact (call_create_eq_some_iff.1 h).1
  | delete => exact (call_delete_eq_some_iff.1 h).1
  | start => exact (call_start_eq_some_iff.1 h).1
  | _ => exact (isPress_of_call h).elim

/-- The plant calls are those of a signed-in user. -/
theorem currentUser_of_call (h : s.call event = some call) (hne : event ≠ .start) :
    s.currentUser ≠ none := by
  cases event with
  | create =>
    obtain ⟨-, user, timer, sleep, temp, huser, -⟩ := call_create_eq_some_iff.1 h
    simp [huser]
  | delete =>
    obtain ⟨-, user, huser, -⟩ := call_delete_eq_some_iff.1 h
    simp [huser]
  | start => exact absurd rfl hne
  | _ => exact (isPress_of_call h).elim

/-- A press that comes to a call does what the call does, and traps when the call raises. -/
theorem step_of_call (h : s.call event = some call) :
    s.step event = (call.perform s.db).map fun db =>
      { s with screen := call.screen s.screen, db := db, reads := s.reads ++ call.reads } := by
  cases event with
  | create =>
    obtain ⟨hpreset, user, timer, sleep, temp, huser, hsettings, rfl⟩ :=
      call_create_eq_some_iff.1 h
    have hpressed : s.screen.createPressed s.currentUser s.db =
        (DataModel.writePlantSettingsFirebaseDB (some user) s.screen.plantNameView timer sleep temp
          s.screen.plantTraitView s.db).map fun db => ⟨s.screen, db, some ⟨userPath user⟩⟩ := by
      unfold createPressed
      rw [hsettings, huser]
      simp only [Option.bind_eq_bind, Option.bind_some, if_pos hpreset,
        getAllPlantSettingsFirebaseDB_some, Option.map_eq_bind]
      rfl
    simp only [step, hpressed, Option.map_map]
    rfl
  | delete =>
    obtain ⟨hpreset, user, huser, rfl⟩ := call_delete_eq_some_iff.1 h
    have hpressed : s.screen.deletePressed s.currentUser s.db =
        (DataModel.deletePlantSettingsFirebaseDB (some user) s.screen.plantNameView s.db).map
          fun db => ⟨s.screen.resetViews, db, some ⟨userPath user⟩⟩ := by
      unfold deletePressed
      rw [huser]
      simp only [Option.bind_eq_bind, if_pos hpreset, getAllPlantSettingsFirebaseDB_some,
        Option.map_eq_bind]
      rfl
    simp only [step, hpressed, Option.map_map]
    rfl
  | start =>
    obtain ⟨hpreset, timer, sleep, temp, hsettings, rfl⟩ := call_start_eq_some_iff.1 h
    have hpressed : s.screen.startPressed s.db =
        (DataModel.writeAutomatedSettingsToIndoorFarm timer sleep temp s.db).map
          fun db => ⟨s.screen, db, none⟩ := by
      unfold startPressed
      rw [hsettings]
      simp only [Option.bind_eq_bind, Option.bind_some, if_pos hpreset, Option.map_eq_bind]
      rfl
    simp only [step, hpressed, Option.map_map]
    rfl
  | _ => exact (isPress_of_call h).elim

theorem step_of_accepted (hcall : s.call event = some call) (h : call.Accepted) :
    s.step event = some { s with
      screen := call.screen s.screen
      db := call.written s.db
      reads := s.reads ++ call.reads } := by
  rw [step_of_call hcall, SettingsCall.perform_of_accepted h, Option.map_some]

/-! ## A press that comes to no call -/

theorem currentUser_of_no_create (h : s.call .create = none) (hpreset : s.screen.NoPresetTitles)
    (hsettings : s.screen.currentSettings.isSome) : s.currentUser = none := by
  by_contra hne
  obtain ⟨user, huser⟩ := Option.ne_none_iff_exists'.1 hne
  obtain ⟨⟨timer, sleep, temp⟩, hsettings⟩ := Option.isSome_iff_exists.1 hsettings
  have hcall := call_create_eq_some_iff.2 ⟨hpreset, user, timer, sleep, temp, huser, hsettings, rfl⟩
  exact Option.some_ne_none _ (hcall.symm.trans h)

theorem currentUser_of_no_delete (h : s.call .delete = none) (hpreset : s.screen.NoPresetTitles) :
    s.currentUser = none := by
  by_contra hne
  obtain ⟨user, huser⟩ := Option.ne_none_iff_exists'.1 hne
  have hcall := call_delete_eq_some_iff.2 ⟨hpreset, user, huser, rfl⟩
  exact Option.some_ne_none _ (hcall.symm.trans h)

theorem currentSettings_of_no_start (h : s.call .start = none)
    (hpreset : s.screen.NoPresetTitles) : s.screen.currentSettings = none := by
  by_contra hne
  obtain ⟨⟨timer, sleep, temp⟩, hsettings⟩ := Option.ne_none_iff_exists'.1 hne
  have hcall := call_start_eq_some_iff.2 ⟨hpreset, timer, sleep, temp, hsettings, rfl⟩
  exact Option.some_ne_none _ (hcall.symm.trans h)

/-- A Create that comes to no call unwraps the indices and does nothing. -/
theorem step_create_of_no_call (h : s.call .create = none) :
    s.step .create = s.screen.currentSettings.map fun _ => s := by
  simp only [step, createPressed]
  cases hsettings : s.screen.currentSettings with
  | none => rfl
  | some settings =>
    by_cases hpreset : s.screen.NoPresetTitles
    · have huser := currentUser_of_no_create h hpreset (by rw [hsettings, Option.isSome_some])
      simp only [Option.bind_eq_bind, Option.bind_some, if_pos hpreset, huser,
        writePlantSettingsFirebaseDB, getAllPlantSettingsFirebaseDB]
      simp [afterPress]
    · simp [if_neg hpreset, afterPress]

/-- A Delete that comes to no call does nothing, or resets the screen when no user is signed in. -/
theorem step_delete_of_no_call (h : s.call .delete = none) :
    s.step .delete =
      some (if s.screen.NoPresetTitles then { s with screen := s.screen.resetViews } else s) := by
  simp only [step, deletePressed]
  split_ifs with hpreset
  · have huser := currentUser_of_no_delete h hpreset
    simp [huser, deletePlantSettingsFirebaseDB, getAllPlantSettingsFirebaseDB, afterPress]
  · simp [afterPress]

/-- A Start that comes to no call does nothing, or unwraps an index that is nil. -/
theorem step_start_of_no_call (h : s.call .start = none) :
    s.step .start = if s.screen.NoPresetTitles then none else some s := by
  simp only [step, startPressed]
  split_ifs with hpreset
  · rw [currentSettings_of_no_start h hpreset]
    rfl
  · simp [afterPress]

/-! ## What a press leaves behind -/

/-- A press that does not trap has done what its call does, or has come to no call and done nothing
but the reset of a Delete. -/
theorem press_cases (hs : s.step event = some s') (hpress : event.IsPress) :
    (∃ call, s.call event = some call ∧ call.Accepted ∧ s' = { s with
      screen := call.screen s.screen, db := call.written s.db, reads := s.reads ++ call.reads }) ∨
    (s.call event = none ∧
      s' = { s with screen := if s.Resets event then s.screen.resetViews else s.screen }) := by
  cases hcall : s.call event with
  | some call =>
    rw [step_of_call hcall, Option.map_eq_some_iff] at hs
    obtain ⟨db, hdb, rfl⟩ := hs
    obtain ⟨haccepted, rfl⟩ := SettingsCall.perform_eq_some_iff.1 hdb
    exact Or.inl ⟨call, rfl, haccepted, rfl⟩
  | none =>
    refine Or.inr ⟨rfl, ?_⟩
    cases event with
    | create =>
      rw [step_create_of_no_call hcall, Option.map_eq_some_iff] at hs
      obtain ⟨settings, -, rfl⟩ := hs
      rfl
    | delete =>
      rw [step_delete_of_no_call hcall] at hs
      obtain rfl := Option.some.inj hs
      by_cases hpreset : s.screen.NoPresetTitles
      · rw [if_pos hpreset, if_pos (show s.Resets .delete from hpreset)]
      · rw [if_neg hpreset, if_neg (show ¬ s.Resets .delete from hpreset)]
    | start =>
      rw [step_start_of_no_call hcall] at hs
      split_ifs at hs
      obtain rfl := Option.some.inj hs
      rfl
    | _ => exact hpress.elim

theorem screen_of_call (hcall : s.call event = some call) :
    call.screen s.screen = if s.Resets event then s.screen.resetViews else s.screen := by
  cases event with
  | create =>
    obtain ⟨-, user, timer, sleep, temp, -, -, rfl⟩ := call_create_eq_some_iff.1 hcall
    rfl
  | delete =>
    obtain ⟨hpreset, user, -, rfl⟩ := call_delete_eq_some_iff.1 hcall
    rw [if_pos (show s.Resets .delete from hpreset)]
    rfl
  | start =>
    obtain ⟨-, timer, sleep, temp, -, rfl⟩ := call_start_eq_some_iff.1 hcall
    rfl
  | _ => exact (isPress_of_call hcall).elim

theorem screen_of_press (hs : s.step event = some s') (hpress : event.IsPress) :
    s'.screen = if s.Resets event then s.screen.resetViews else s.screen := by
  obtain ⟨call, hcall, -, rfl⟩ | ⟨-, rfl⟩ := press_cases hs hpress
  · exact screen_of_call hcall
  · rfl

theorem currentUser_of_press (hs : s.step event = some s') (hpress : event.IsPress) :
    s'.currentUser = s.currentUser := by
  obtain ⟨call, -, -, rfl⟩ | ⟨-, rfl⟩ := press_cases hs hpress <;> rfl

theorem db_of_press (hs : s.step event = some s') (hpress : event.IsPress) :
    s'.db = s.db ∨
      ∃ call, s.call event = some call ∧ call.Accepted ∧ s'.db = call.written s.db := by
  obtain ⟨call, hcall, haccepted, rfl⟩ | ⟨-, rfl⟩ := press_cases hs hpress
  · exact Or.inr ⟨call, hcall, haccepted, rfl⟩
  · exact Or.inl rfl

/-- The refreshes are of the plants of the signed-in user. -/
theorem mem_reads_of_press (hs : s.step event = some s') (hpress : event.IsPress)
    {read : PlantsRead} (hmem : read ∈ s'.reads) :
    read ∈ s.reads ∨ ∃ user, s.currentUser = some user ∧ read = { ref := ⟨userPath user⟩ } := by
  obtain ⟨call, hcall, -, rfl⟩ | ⟨-, rfl⟩ := press_cases hs hpress
  · refine (List.mem_append.1 hmem).imp_right fun hread => ?_
    cases event with
    | create =>
      obtain ⟨-, user, timer, sleep, temp, huser, -, rfl⟩ := call_create_eq_some_iff.1 hcall
      exact ⟨user, huser, List.mem_singleton.1 hread⟩
    | delete =>
      obtain ⟨-, user, huser, rfl⟩ := call_delete_eq_some_iff.1 hcall
      exact ⟨user, huser, List.mem_singleton.1 hread⟩
    | start =>
      obtain ⟨-, timer, sleep, temp, -, rfl⟩ := call_start_eq_some_iff.1 hcall
      exact absurd hread List.not_mem_nil
    | _ => exact hpress.elim
  · exact Or.inl hmem

end SettingsSession

end IndoorFarm
