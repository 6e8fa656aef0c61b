import IndoorFarm.WrittenSettings

/-!
# Create, Delete and Start, all or nothing

A press is meant to do all its work, the change of the database and what goes with it on the screen,
or to leave both alone; and it is never meant to trap.  The test of the labels, the check of the
model that a user is signed in and the key test of the library are made in different places, so this
fails in three ways: Create unwraps the indices before it tests the labels, Delete resets the screen
whether the model has refused or not, and a name that `child` does not take and a trait that is too
long raise.

`allOrNothing_iff_prepared` says that these are all: Start never fails, because a drop-down without
its prompt has an index (`Coupled`).
-/

namespace IndoorFarm

open DataModel ControlWindow1

/-- A setting drop-down shows its prompt. -/
def ControlWindow1.ShowsPrompt (screen : ControlWindow1) : Prop :=
  ∃ which ≠ Dropdown.plant, (screen.dropdown which).title = which.prompt

namespace SettingsSession

/-! ## What a press may do -/

/-- The call has been carried out, with the refresh and the changes of the screen that belong to
it. -/
structure Completed (s : SettingsSession) (call : SettingsCall) (s' : SettingsSession) : Prop where
  db : call.perform s.db = some s'.db
  screen : s'.screen = call.screen s.screen
  reads : s'.reads = s.reads ++ call.reads

/-- The database and the screen are as they were. -/
structure Untouched (s s' : SettingsSession) : Prop where
  db : s'.db = s.db
  screen : s'.screen = s.screen

/-- A press does not trap and does all or nothing: nothing while a prompt is shown, and nothing on
the screen when the model refuses a plant call because no user is signed in. -/
def AllOrNothing (s : SettingsSession) (event : SettingsEvent) : Prop :=
  event.IsPress → ∃ s', s.step event = some s' ∧
    ((∃ call, s.call event = some call ∧ s.Completed call s') ∨ s.Untouched s') ∧
    (s.screen.ShowsPrompt → s.Untouched s') ∧
    (s.currentUser = none → event ≠ .start → s'.screen = s.screen)

/-- What a press needs.  Create: an index in each setting drop-down, and, when the labels pass and a
user is signed in, a name that `child` takes and a trait that is not too long.  Delete: when the
labels pass, a signed-in user and such a name. -/
def Prepared (s : SettingsSession) : SettingsEvent → Prop
  | .create => (∀ which ≠ Dropdown.plant, (s.screen.dropdown which).selectedIndex ≠ none) ∧
      (s.screen.NoPresetTitles → s.currentUser ≠ none →
        isValidPathString s.screen.plantNameView = true ∧
          (LeafValue.string s.screen.plantTraitView).ShortEnough)
  | .delete => s.screen.NoPresetTitles →
      s.currentUser ≠ none ∧ isValidPathString s.screen.plantNameView = true
  | _ => True

end SettingsSession

/-! ## When the indices can be unwrapped -/

theorem isSome_currentSettings_iff (screen : ControlWindow1) :
    screen.currentSettings.isSome ↔
      ∀ which ≠ Dropdown.plant, (screen.dropdown which).selectedIndex ≠ none := by
  constructor
  · intro h which hne
    obtain ⟨⟨timer, sleep, temp⟩, hsettings⟩ := Option.isSome_iff_exists.1 h
    obtain ⟨index, hindex, -⟩ := ofSettings_of_currentSettings hsettings hne
    rw [hindex]
    exact Option.some_ne_none index
  · intro h
    obtain ⟨i, hi⟩ := Option.ne_none_iff_exists'.1 (h .growLightMaxTimer Dropdown.noConfusion)
    obtain ⟨j, hj⟩ := Option.ne_none_iff_exists'.1 (h .growLightMaxSleep Dropdown.noConfusion)
    obtain ⟨k, hk⟩ := Option.ne_none_iff_exists'.1 (h .growLightMaxTemp Dropdown.noConfusion)
    simp only [dropdown] at hi hj hk
    simp only [currentSettings, hi, hj, hk, Option.bind_eq_bind, Option.bind_some]
    rfl

namespace SettingsSession

variable {s s' : SettingsSession} {event : SettingsEvent} {call : SettingsCall}

/-! ## Which presses are all or nothing -/

theorem Coupled.not_showsPrompt (h : s.Coupled) (hpreset : s.screen.NoPresetTitles) :
    ¬ s.screen.ShowsPrompt := by
  rintro ⟨which, hne, htitle⟩
  have hlabel := ((noPresetTitles_iff s.screen).1 hpreset).2 which hne
  exact hlabel ((h.labelled which hne).title.symm.trans htitle)

/-- Labels that pass the test of the buttons are labels of indices. -/
theorem Coupled.isSome_currentSettings (h : s.Coupled) (hpreset : s.screen.NoPresetTitles) :
    s.screen.currentSettings.isSome := by
  refine (isSome_currentSettings_iff s.screen).2 fun which hne => ?_
  have hlabel := ((noPresetTitles_iff s.screen).1 hpreset).2 which hne
  obtain ⟨index, hshows⟩ := (h.labelled which hne).label.resolve_left hlabel
  rw [hshows.selectedIndex]
  exact Option.some_ne_none index

/-- A press that comes to a call is all or nothing unless the call raises. -/
theorem Coupled.allOrNothing_iff_accepted (h : s.Coupled) (hcall : s.call event = some call) :
    s.AllOrNothing event ↔ call.Accepted := by
  constructor
  · intro hall
    obtain ⟨s', hs, -⟩ := hall (isPress_of_call hcall)
    rw [step_of_call hcall, Option.map_eq_some_iff] at hs
    obtain ⟨db, hdb, -⟩ := hs
    exact (SettingsCall.perform_eq_some_iff.1 hdb).1
  · rintro haccepted -
    have hdb := SettingsCall.perform_of_accepted haccepted s.db
    refine ⟨_, step_of_accepted hcall haccepted, Or.inl ⟨call, hcall, hdb, rfl, rfl⟩,
      fun hprompt => ?_, fun huser hne => ?_⟩
    · exact absurd hprompt (h.not_showsPrompt (noPresetTitles_of_call hcall))
    · exact absurd huser (currentUser_of_call hcall hne)

theorem allOrNothing_of_step_self (h : s.step event = some s) : s.AllOrNothing event :=
  fun _ => ⟨s, h, Or.inr ⟨rfl, rfl⟩, fun _ => ⟨rfl, rfl⟩, fun _ _ => rfl⟩

theorem allOrNothing_create_iff_of_no_call (hcall : s.call .create = none) :
    s.AllOrNothing .create ↔ s.screen.currentSettings.isSome := by
  constructor
  · intro hall
    obtain ⟨s', hs, -⟩ := hall trivial
    rw [step_create_of_no_call hcall, Option.map_eq_some_iff] at hs
    obtain ⟨settings, hsettings, -⟩ := hs
    rw [hsettings, Option.isSome_some]
  · intro h
    obtain ⟨settings, hsettings⟩ := Option.isSome_iff_exists.1 h
    refine allOrNothing_of_step_self ?_
    rw [step_create_of_no_call hcall, hsettings, Option.map_some]

/-- The reset of a Delete that the model has refused is neither all nor nothing. -/
theorem allOrNothing_delete_iff_of_no_call (hcall : s.call .delete = none) :
    s.AllOrNothing .delete ↔ ¬ s.screen.NoPresetTitles := by
  have hstep := step_delete_of_no_call hcall
  constructor
  · intro hall hpreset
    rw [if_pos hpreset] at hstep
    obtain ⟨s', hs, hdone, -⟩ := hall trivial
    obtain rfl := Option.some.inj (hstep.symm.trans hs)
    rcases hdone with ⟨call, hcall', -⟩ | huntouched
    · exact Option.some_ne_none call (hcall'.symm.trans hcall)
    · have hlabel := congrArg (fun screen => screen.growLightMaxTimerDropdown.placeholder)
        huntouched.screen
      exact hpreset.2.1 hlabel.symm
  · intro hpreset
    rw [if_neg hpreset] at hstep
    exact allOrNothing_of_step_self hstep

theorem Coupled.allOrNothing_start (h : s.Coupled) : s.AllOrNothing .start := by
  cases hcall : s.call .start with
  | some call =>
    refine (h.allOrNothing_iff_accepted hcall).2 ?_
    obtain ⟨-, timer, sleep, temp, -, rfl⟩ := call_start_eq_some_iff.1 hcall
    trivial
  | none =>
    have hstep := step_start_of_no_call hcall
    have hpreset : ¬ s.screen.NoPresetTitles := fun hpreset => by
      have hsettings := h.isSome_currentSettings hpreset
      rw [currentSettings_of_no_start hcall hpreset] at hsettings
      contradiction
    rw [if_neg hpreset] at hstep
    exact allOrNothing_of_step_self hstep

theorem Coupled.allOrNothing_iff_prepared (h : s.Coupled) (event : SettingsEvent) :
    s.AllOrNothing event ↔ s.Prepared event := by
  cases event with
  | create =>
    cases hcall : s.call .create with
    | some call =>
      rw [h.allOrNothing_iff_accepted hcall]
      have huser := currentUser_of_call hcall SettingsEvent.noConfusion
      obtain ⟨hpreset, user, timer, sleep, temp, -, hsettings, rfl⟩ :=
        call_create_eq_some_iff.1 hcall
      have hindices :=
        (isSome_currentSettings_iff s.screen).1 (by rw [hsettings, Option.isSome_some])
      exact ⟨fun hvalid => ⟨hindices, fun _ _ => hvalid⟩, fun hp => hp.2 hpreset huser⟩
    | none =>
      rw [allOrNothing_create_iff_of_no_call hcall]
      refine ⟨fun hsettings => ⟨(isSome_currentSettings_iff s.screen).1 hsettings, ?_⟩,
        fun hp => (isSome_currentSettings_iff s.screen).2 hp.1⟩
      exact fun hpreset huser => absurd (currentUser_of_no_create hcall hpreset hsettings) huser
  | delete =>
    cases hcall : s.call .delete with
    | some call =>
      rw [h.allOrNothing_iff_accepted hcall]
      have huser := currentUser_of_call hcall SettingsEvent.noConfusion
      obtain ⟨hpreset, user, -, rfl⟩ := call_delete_eq_some_iff.1 hcall
      exact ⟨fun hvalid _ => ⟨huser, hvalid⟩, fun hp => (hp hpreset).2⟩
    | none =>
      rw [allOrNothing_delete_iff_of_no_call hcall]
      refine ⟨fun hnot hpreset => absurd hpreset hnot, fun hp hpreset => ?_⟩
      exact (hp hpreset).1 (currentUser_of_no_delete hcall hpreset)
  | start => exact iff_of_true h.allOrNothing_start trivial
  | _ => exact iff_of_true (fun hpress => hpress.elim) trivial

/-- From the loading of the screen on, every press does all or nothing and none traps in exactly the
runs in which every press is prepared. -/
theorem presses_all_or_nothing_iff (h : s.JustLoaded) (events : List SettingsEvent) :
    Runs.Along step AllOrNothing s events ↔ Runs.Along step Prepared s events :=
  Runs.along_iff_of_invariant (I := Coupled) (fun _ _ _ ht _ hnext => coupled_step ht hnext)
    (fun _ event ht => ht.allOrNothing_iff_prepared event) h.coupled

/-! ### Presses that are not prepared -/

/-- The gardener selects basil. -/
def selectBasil : List SettingsEvent := [.touch .plant, .tapRow .plant 0]

theorem presses_all_or_nothing_herbs :
    Runs.Along step AllOrNothing herbSession (selectBasil ++ [.create]) := by
  apply (presses_all_or_nothing_iff justLoaded_herbSession _).2
  have hselected : (Runs.run step herbSession selectBasil).map (fun s =>
      (s.screen.currentSettings.isSome, decide (isValidPathString s.screen.plantNameView = true ∧
        (LeafValue.string s.screen.plantTraitView).ShortEnough))) =
      some (true, true) := by decide +kernel
  refine Runs.along_append.2 ⟨⟨trivial, fun _ _ => ⟨trivial, fun _ _ => trivial⟩⟩, fun s hs => ?_⟩
  rw [hs] at hselected
  obtain ⟨hsettings, hvalid⟩ := Prod.mk.inj (Option.some.inj hselected)
  exact ⟨⟨(isSome_currentSettings_iff s.screen).1 hsettings, fun _ _ => of_decide_eq_true hvalid⟩,
    fun _ _ => trivial⟩

/-- Create on a screen that has just been loaded traps, Delete after a sign-out resets the screen
and deletes nothing, and Create without a name traps. -/
theorem presses_not_all_or_nothing :
    herbSession.JustLoaded ∧
    ¬ Runs.Along step AllOrNothing herbSession [.create] ∧
    ¬ Runs.Along step AllOrNothing herbSession (selectBasil ++ [.authChange none, .delete]) ∧
    ¬ Runs.Along step AllOrNothing herbSession (selectBasil ++ [.editName "", .create]) := by
  have hselected : (Runs.run step herbSession selectBasil).map (fun s =>
      (decide s.screen.NoPresetTitles,
        ({ s with screen.plantNameView := "" }.step .create).isNone)) = some (true, true) := by
    decide +kernel
  obtain ⟨s, hs, hview⟩ := Option.map_eq_some_iff.1 hselected
  obtain ⟨hpreset, hunnamed⟩ := Prod.mk.inj hview
  refine ⟨justLoaded_herbSession, fun h => ?_, fun h => ?_, fun h => ?_⟩
  · have htrap : (herbSession.step .create).isNone = true := by decide +kernel
    obtain ⟨s', hs', -⟩ := h.1 trivial
    rw [hs'] at htrap
    contradiction
  · have hdelete : AllOrNothing { s with currentUser := none } .delete :=
      (((Runs.along_append.1 h).2 s hs).2 _ rfl).1
    have hcall : ({ s with currentUser := none } : SettingsSession).call .delete = none := by
      simp [SettingsSession.call]
    exact (allOrNothing_delete_iff_of_no_call hcall).1 hdelete (of_decide_eq_true hpreset)
  · obtain ⟨s', hs', -⟩ := (((Runs.along_append.1 h).2 s hs).2 _ rfl).1 trivial
    rw [hs'] at hunnamed
    contradiction

end SettingsSession

end IndoorFarm
