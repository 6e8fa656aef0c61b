import IndoorFarm.SignIn

/-!
# Signing out

The windows of a tab bar are on the stack only while a user is signed in (`SignedIn`): Logout pops
them, and a tab bar is pushed only for a window that has waited on the stack since its plants were
asked for.  So what a window asks of the database on a press or when it appears is asked for a user.

Three things are not tied to the stack: a timer, which nothing stops; the closure of a login, which
is called after Firebase has signed the user in and may find that user signed out again; and the
Info window of another tab bar, which schedules a timer of its own.  `signed_out_is_quiet_iff` says
that these are all.
-/

namespace IndoorFarm

namespace App

variable {app app' : App} {event : AppEvent} {outputs : List Output}

/-! ## The windows of a signed-in user -/

/-- A tab bar on the stack, and plants on their way for a window on the stack, mean that a user is
signed in. -/
structure SignedIn (app : App) : Prop where
  tabBar : ∀ bar, .tabBar bar ∈ app.stack → app.currentUser.isSome
  plants : ∀ signIn user, .signInPlants signIn user ∈ app.reads →
    app.HasNavigationController signIn.path → app.currentUser.isSome

theorem signedIn_launched (user : Option Uid) : (launched user).SignedIn where
  tabBar _ hmem := absurd hmem List.not_mem_nil
  plants _ _ hmem := absurd hmem List.not_mem_nil

theorem SignedIn.transition (h : app.SignedIn) (hrecorded : app.Recorded)
    (ht : app.Transition event outputs app') : app'.SignedIn := by
  constructor
  · intro bar hmem
    have huser : app.currentUser.isSome := by
      rcases ht.mem_stack hmem with hold | ⟨signIn, user, hread, hcontroller⟩
      · exact h.tabBar bar hold
      · exact h.plants signIn user hread hcontroller
    rcases ht.isSome_currentUser huser with huser | hnil
    · exact huser
    · rw [hnil] at hmem
      exact absurd hmem List.not_mem_nil
  · intro signIn user hmem hcontroller
    rcases ht.mem_reads hmem with hold | hnew
    · obtain ⟨⟨window, hlt, hpath⟩, -⟩ := hrecorded.reads _ hold
      rw [hpath] at hcontroller
      have hbefore := ht.hasNavigationController hlt hcontroller
      rcases ht.isSome_currentUser (h.plants signIn user hold (hpath ▸ hbefore)) with huser | hnil
      · exact huser
      · unfold HasNavigationController at hcontroller
        rw [hnil] at hcontroller
        exact absurd hcontroller List.not_mem_nil
    · obtain ⟨-, -, -, huser⟩ := ht.issued hnew
      rw [huser, Option.isSome_some]

/-! ## What is asked of the database -/

/-- A step that issues a request does so for a signed-in user, and leaves at most one timer. -/
def QuietWhenSignedOut (app : App) (event : AppEvent) : Prop :=
  match app.respond event with
  | .error _ => True
  | .ok (app', outputs) =>
    ((∃ output ∈ outputs, output.IsRequest) → app.currentUser.isSome) ∧ app'.timers.length ≤ 1

/-- A timer fires, and the closure of a login that has succeeded is called, only while a user is
signed in; the Info window of a tab bar is first opened only when there is no timer yet. -/
def KeepsSession (app : App) : AppEvent → Prop
  | .tick timer => timer < app.timers.length → app.currentUser.isSome
  | .authReports request => ∀ number window user,
    app.auths[request]? =
        some { signIn := ⟨number, .emailLoginWindow window⟩, report := some (some user) } →
      app.currentUser.isSome
  | .visit .info => ∀ bar stack, app.stack = .tabBar bar :: stack →
    (app.tabBars bar).selected ≠ .info → (app.tabBars bar).infoLoaded = false →
    (app.getFromDataModel bar).isSome → app.timers = []
  | _ => True

theorem SignedIn.isSome_of_request (h : app.SignedIn) (hc : app.KeepsSession event)
    (ht : app.Transition event outputs app') (hrequest : ∃ output ∈ outputs, output.IsRequest) :
    app.currentUser.isSome := by
  obtain ⟨output, hmem, hrequest⟩ := hrequest
  cases ht with
  | @loggedIn request window signIn user hauth hpath =>
    obtain ⟨number, path⟩ := signIn
    obtain rfl : path = .emailLoginWindow window := hpath
    exact hc number window user hauth
  | plantsRequested hread huser | plantCalled huser => rw [huser, Option.isSome_some]
  | appeared hstack hwindow => exact h.tabBar _ hstack
  | farmCalled hstack => exact h.tabBar _ hstack
  | infoLoaded hstack hselected hloaded hvalues =>
    exact h.tabBar _ (hstack ▸ List.mem_cons_self)
  | ticked htimer => exact hc (List.getElem?_eq_some_iff.1 htimer).1
  | pushed =>
    obtain rfl := List.mem_singleton.1 hmem
    exact hrequest.elim
  | _ => exact absurd hmem List.not_mem_nil

theorem Transition.length_timers (ht : app.Transition event outputs app')
    (hc : app.KeepsSession event) (h : app.timers.length ≤ 1) : app'.timers.length ≤ 1 := by
  cases ht with
  | infoLoaded hstack hselected hloaded hvalues =>
    have hnil := hc _ _ hstack hselected hloaded hvalues
    rw [hnil]
    exact le_rfl
  | _ => exact h

/-- The first visit to an Info window schedules a timer. -/
theorem visit_info_of_not_loaded {bar : ℕ} (hselected : (app.tabBars bar).selected ≠ .info)
    (hloaded : (app.tabBars bar).infoLoaded = false) (hvalues : (app.getFromDataModel bar).isSome) :
    ∃ tabBars, app.visit bar .info = .ok ({ app with
      tabBars := tabBars
      timers := app.timers ++ [bar]
      reads := app.reads ++ [.info bar] }, [.read (.info bar)]) := by
  have hnot : ¬ ((app.setTabBar bar { app.tabBars bar with
      selected := .info }).tabBars bar).infoLoaded = true := by
    simpa [setTabBar] using hloaded
  unfold visit infoAppears
  simp only
  rw [if_neg hselected, if_neg hnot, getFromDataModel_setTabBar_selected, if_pos hvalues]
  exact ⟨_, rfl⟩

theorem keepsSession_of_quiet (h : app.QuietWhenSignedOut event) : app.KeepsSession event := by
  cases event with
  | tick timer =>
    intro hlt
    simp only [QuietWhenSignedOut, respond, List.getElem?_eq_getElem hlt, readDatabase,
      observe] at h
    exact h.1 ⟨_, List.mem_cons_self, trivial⟩
  | authReports request =>
    intro number window user hrequest
    simp only [QuietWhenSignedOut, respond, hrequest, authReported, log, readDatabase, observe,
      SignInPath.dataModel] at h
    exact h.1 ⟨_, List.mem_cons_self, trivial⟩
  | visit tab =>
    cases tab with
    | automation | manual => trivial
    | info =>
      intro bar stack hstack hselected hloaded hvalues
      obtain ⟨tabBars, hvisit⟩ := visit_info_of_not_loaded hselected hloaded hvalues
      simp only [QuietWhenSignedOut, respond, hstack, hvisit] at h
      have hlength := h.2
      rw [List.length_append, List.length_singleton] at hlength
      exact List.length_eq_zero_iff.1 (by omega)
  | _ => trivial

/-- After a sign-out the app asks nothing of the database, and at most one timer is live, in exactly
the runs in which no timer fires and no successful login is reported while no user is signed in, and
no Info window is opened for the first time when there is a timer. -/
theorem signed_out_is_quiet_iff (user : Option Uid) (events : List AppEvent) :
    Runs.Along next QuietWhenSignedOut (launched user) events ↔
      Runs.Along next KeepsSession (launched user) events := by
  refine Runs.along_iff_of_invariant
    (I := fun app => app.Recorded ∧ app.SignedIn ∧ app.timers.length ≤ 1) ?_ ?_ ?_
  · rintro app event app' ⟨hrecorded, hsigned, hlength⟩ hc hnext
    obtain ⟨outputs, hresponse⟩ := respond_of_next hnext
    have ht := transition_of_respond hresponse
    exact ⟨hrecorded.transition ht, hsigned.transition hrecorded ht, ht.length_timers hc hlength⟩
  · rintro app event ⟨-, hsigned, hlength⟩
    refine ⟨keepsSession_of_quiet, fun hc => ?_⟩
    unfold QuietWhenSignedOut
    split
    · trivial
    · rename_i app' outputs hresponse
      have ht := transition_of_respond hresponse
      exact ⟨hsigned.isSome_of_request hc ht, ht.length_timers hc hlength⟩
  · exact ⟨recorded_launched user, signedIn_launched user, Nat.zero_le 1⟩

/-! ### A timer that nobody stops -/

/-- The gardener looks at the Info window and logs out. -/
def gardenerLogout : List AppEvent :=
  gardenerLogin ++ [.visit .info, .visit .manual, .logout true]

/-- The timer of the Info window goes on reading the database. -/
theorem tick_after_logout_reads :
    ¬ Runs.Along next QuietWhenSignedOut (launched none) (gardenerLogout ++ [.tick 0]) := by
  have hrun : (Runs.run next (launched none) gardenerLogout).map
      (fun app => (app.currentUser, app.timers)) = some (none, [0]) := by
    decide +kernel
  obtain ⟨app, happ, hview⟩ := Option.map_eq_some_iff.1 hrun
  simp only [Prod.mk.injEq] at hview
  obtain ⟨huser, htimers⟩ := hview
  intro h
  have hquiet : app.QuietWhenSignedOut (.tick 0) := ((Runs.along_append.1 h).2 app happ).1
  simp only [QuietWhenSignedOut, respond, htimers, List.getElem?_cons_zero, readDatabase, observe,
    huser] at hquiet
  have hsigned := hquiet.1 ⟨_, List.mem_cons_self, trivial⟩
  contradiction

end App

end IndoorFarm
