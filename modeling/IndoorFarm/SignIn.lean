import IndoorFarm.Lib.Runs
import IndoorFarm.Transitions

/-!
# Signing in

Three objects run the same chain of closures, each in its own copy of the code.  What is known of a
chain that waits for a read is `Completion.Recorded`: it was started by a login window, whose number
is taken, and what it has waited for has succeeded.

* `sign_in_is_gated_iff`: every path waits for its authentication and for both reads, and no step
  needs a data model that does not exist, in exactly the runs in which the setup window and the
  Google delegate never get as far as `self.dataModel`.
* `push_shows_own_plants`: the tab bar is pushed with the plants of the signed-in user as long as no
  sign-in of another user ends while the plants of the former are on their way.
-/

namespace IndoorFarm

/-! ## What the pending closures know -/

/-- What is known of a closure that waits for a read, after `windows` login windows have been
opened. -/
def Completion.Recorded (windows : ℕ) (succeeded : List (ℕ × Stage)) : Completion → Prop
  | signInDatabase signIn =>
    (∃ window < windows, signIn.path = .emailLoginWindow window) ∧
      (signIn.number, Stage.authenticated) ∈ succeeded
  | signInPlants signIn _ =>
    (∃ window < windows, signIn.path = .emailLoginWindow window) ∧
      (signIn.number, Stage.authenticated) ∈ succeeded ∧
      (signIn.number, Stage.databaseRead) ∈ succeeded
  | _ => True

theorem Completion.Recorded.mono {windows windows' : ℕ} {succeeded succeeded' : List (ℕ × Stage)}
    {completion : Completion} (h : completion.Recorded windows succeeded)
    (hwindows : windows ≤ windows')
    (hsucceeded : ∀ entry ∈ succeeded, entry ∈ succeeded') :
    completion.Recorded windows' succeeded' := by
  cases completion with
  | signInDatabase signIn =>
    obtain ⟨⟨window, hlt, hpath⟩, hauth⟩ := h
    exact ⟨⟨window, by omega, hpath⟩, hsucceeded _ hauth⟩
  | signInPlants signIn user =>
    obtain ⟨⟨window, hlt, hpath⟩, hauth, hdatabase⟩ := h
    exact ⟨⟨window, by omega, hpath⟩, hsucceeded _ hauth, hsucceeded _ hdatabase⟩
  | info bar | manual bar | automation bar user => trivial

/-- The sign-in behind a request has succeeded as far as it must. -/
def Output.IsGated (app : App) : Output → Prop
  | read (.signInDatabase signIn) => (signIn.number, Stage.authenticated) ∈ app.succeeded
  | read (.signInPlants signIn _) => (signIn.number, Stage.authenticated) ∈ app.succeeded
  | push signIn _ => (signIn.number, Stage.databaseRead) ∈ app.succeeded ∧
      (signIn.number, Stage.plantsRead) ∈ app.succeeded
  | _ => True

/-- A press of Create Account with two different passwords. -/
def AppEvent.PasswordsDiffer : AppEvent → Prop
  | createAccount _ password0 password1 => password0 ≠ password1
  | _ => False

namespace App

/-- The numbers of the login windows are taken, and the pending reads are recorded. -/
structure Recorded (app : App) : Prop where
  stack : ∀ window, .emailLogin window ∈ app.stack → window < app.loginWindows
  auths : ∀ request ∈ app.auths, ∀ window, request.signIn.path = .emailLoginWindow window →
    window < app.loginWindows
  reads : ∀ completion ∈ app.reads, completion.Recorded app.loginWindows app.succeeded

variable {app app' : App} {event : AppEvent} {outputs : List Output}

theorem recorded_launched (user : Option Uid) : (launched user).Recorded where
  stack _ hmem := absurd hmem List.not_mem_nil
  auths _ hmem := absurd hmem List.not_mem_nil
  reads _ hmem := absurd hmem List.not_mem_nil

/-- A read that a step issues is recorded after it. -/
theorem Recorded.issued (h : app.Recorded) (ht : app.Transition event outputs app')
    {completion : Completion} (hread : .read completion ∈ outputs) :
    completion.Recorded app'.loginWindows app'.succeeded := by
  have hissued := ht.issued hread
  have hle := ht.loginWindows_le
  cases completion with
  | signInDatabase signIn =>
    obtain ⟨⟨request, hmem, rfl⟩, ⟨window, hpath⟩, hauth⟩ := hissued
    have hlt := h.auths request hmem window hpath
    exact ⟨⟨window, by omega, hpath⟩, hauth⟩
  | signInPlants signIn user =>
    obtain ⟨hmem, hdatabase, -, -⟩ := hissued
    obtain ⟨⟨window, hlt, hpath⟩, hauth⟩ := h.reads _ hmem
    exact ⟨⟨window, by omega, hpath⟩, ht.mem_succeeded hauth, hdatabase⟩
  | info bar | manual bar | automation bar user => trivial

theorem Recorded.transition (h : app.Recorded) (ht : app.Transition event outputs app') :
    app'.Recorded := by
  have hle := ht.loginWindows_le
  refine ⟨fun window hmem => ?_, fun request hmem window hpath => ?_, fun completion hmem => ?_⟩
  · rcases ht.mem_stack hmem with hold | ⟨heq, hnext⟩
    · have hlt := h.stack window hold
      omega
    · omega
  · rcases ht.mem_auths hmem with ⟨old, hold, heq⟩ | hstack
    · have hlt := h.auths old hold window (heq ▸ hpath)
      omega
    · have hlt := h.stack window (hstack window hpath)
      omega
  · rcases ht.mem_reads hmem with hold | hnew
    · exact (h.reads completion hold).mono hle fun _ => ht.mem_succeeded
    · exact h.issued ht hnew

theorem Recorded.next (h : app.Recorded) (hnext : app.next event = some app') : app'.Recorded := by
  obtain ⟨outputs, hresponse⟩ := respond_of_next hnext
  exact h.transition (transition_of_respond hresponse)

/-! ## Every path waits for its own authentication -/

/-- The step needs no data model that does not exist, its requests are gated, and different
passwords lead to none. -/
def Gated (app : App) (event : AppEvent) : Prop :=
  match app.respond event with
  | .error trap => trap ≠ .nilDataModel
  | .ok (app', outputs) =>
    (∀ output ∈ outputs, output.IsGated app') ∧ (event.PasswordsDiffer → outputs = [])

/-- The event does not get to `self.dataModel` of the setup window or of the delegate: Create
Account with all three fields filled in, and a success of the Google authentication. -/
def AvoidsNilModel (app : App) : AppEvent → Prop
  | .createAccount email password0 password1 =>
    (∃ window stack, app.stack = .emailSetup window :: stack) →
      email = "" ∨ password0 = "" ∨ password1 = ""
  | .authReports request => ∀ number user,
    app.auths[request]? ≠ some { signIn := ⟨number, .appDelegate⟩, report := some (some user) }
  | _ => True

theorem Recorded.isGated (h : app.Recorded) (ht : app.Transition event outputs app')
    {output : Output} (hmem : output ∈ outputs) : output.IsGated app' := by
  cases output with
  | read completion =>
    have hrecorded := h.issued ht hmem
    cases completion with
    | signInDatabase signIn => exact hrecorded.2
    | signInPlants signIn user => exact hrecorded.2.1
    | info bar | manual bar | automation bar user => trivial
  | push signIn object =>
    obtain ⟨user, hread, -, -, -, hplants⟩ := ht.of_push hmem
    obtain ⟨-, -, hdatabase⟩ := h.reads _ hread
    exact ⟨ht.mem_succeeded hdatabase, hplants⟩
  | plantWrite user call | farmWrite call => trivial

/-- Create Account never issues a request: it traps before. -/
theorem outputs_of_createAccount {email password0 password1 : String}
    (ht : app.Transition (.createAccount email password0 password1) outputs app') :
    outputs = [] := by
  cases ht <;> rfl

theorem readCompleted_ne_nilDataModel {windows : ℕ} {succeeded : List (ℕ × Stage)}
    {completion : Completion} (h : completion.Recorded windows succeeded) (app : App)
    (snapshot : FNode) : app.readCompleted snapshot completion ≠ .error .nilDataModel := by
  cases completion with
  | signInDatabase signIn =>
    obtain ⟨⟨window, -, hpath⟩, -⟩ := h
    simp only [readCompleted, hpath, SignInPath.dataModel, getAllPlantSettings]
    split <;> simp [done, observe]
  | signInPlants signIn user =>
    obtain ⟨⟨window, -, hpath⟩, -⟩ := h
    simp only [readCompleted, hpath, SignInPath.dataModel, pushTabBar]
    split_ifs
    · split <;> simp
    · simp
  | info bar | manual bar | automation bar user =>
    simp only [readCompleted]
    split_ifs <;> simp [done]

theorem visit_ne_nilDataModel (app : App) (bar : ℕ) (tab : Tab) :
    app.visit bar tab ≠ .error .nilDataModel := by
  unfold visit
  split_ifs
  · simp [done]
  · cases tab with
    | automation => simp [done]
    | info =>
      simp only [infoAppears, readDatabase, observe]
      split_ifs <;> simp
    | manual =>
      simp only [manualAppears, readDatabase, observe]
      split_ifs <;> simp

/-- Which events need a data model that does not exist. -/
theorem Recorded.respond_eq_nilDataModel_iff (h : app.Recorded) (event : AppEvent) :
    app.respond event = .error .nilDataModel ↔ ¬ app.AvoidsNilModel event := by
  cases event with
  | createAccount email password0 password1 =>
    simp only [respond, AvoidsNilModel]
    split
    · rename_i window stack hstack
      have hexists : ∃ window' stack', app.stack = .emailSetup window' :: stack' :=
        ⟨window, stack, hstack⟩
      unfold createAccountPressed
      split_ifs with hempty
      · simp [done, hempty]
      all_goals simp [readDatabase, SignInPath.dataModel, hexists, hempty]
    · rename_i hstack
      have hnot : ¬ ∃ window stack, app.stack = .emailSetup window :: stack := by
        rintro ⟨window, stack, heq⟩
        exact hstack window stack heq
      simp [done, hnot]
  | authReports request =>
    simp only [respond, AvoidsNilModel]
    cases hrequest : app.auths[request]? with
    | none => simp [done]
    | some auth =>
      obtain ⟨⟨number, path⟩, report⟩ := auth
      cases report with
      | none => simp [done]
      | some result =>
        cases result with
        | none => simp [authReported, done]
        | some user =>
          cases path with
          | appDelegate => simp [authReported, readDatabase, SignInPath.dataModel]
          | emailLoginWindow window | emailSetupWindow window =>
            simp [authReported, readDatabase, SignInPath.dataModel, observe, done]
  | readSucceeds read snapshot =>
    simp only [respond, AvoidsNilModel, not_true_eq_false, iff_false]
    split
    · simp [done]
    · rename_i completion hread
      have hrecorded := h.reads completion (List.mem_of_getElem? hread)
      exact readCompleted_ne_nilDataModel hrecorded _ snapshot
  | visit tab =>
    simp only [respond, AvoidsNilModel, not_true_eq_false, iff_false]
    split
    · exact app.visit_ne_nilDataModel _ tab
    · simp [done]
  | signInWithEmail | register | back | login | didSignInFor =>
    simp only [respond, AvoidsNilModel, not_true_eq_false, iff_false]
    split <;> simp [done]
  | authCompletes | readFails =>
    simp [respond, AvoidsNilModel, done]
  | tick timer =>
    simp only [respond, AvoidsNilModel, not_true_eq_false, iff_false]
    split <;> simp [done, readDatabase, observe]
  | plantCall call =>
    simp only [respond, AvoidsNilModel, not_true_eq_false, iff_false, plantCalled]
    split
    · split_ifs
      · split <;> simp [done]
      · simp [done]
    · simp [done]
  | farmCall | logout =>
    simp only [respond, AvoidsNilModel, not_true_eq_false, iff_false]
    split
    · split_ifs <;> simp [done]
    · simp [done]

theorem Recorded.gated_iff (h : app.Recorded) (event : AppEvent) :
    app.Gated event ↔ app.AvoidsNilModel event := by
  have htrap := h.respond_eq_nilDataModel_iff event
  unfold Gated
  cases hresponse : app.respond event with
  | error trap =>
    rw [hresponse, Except.error.injEq] at htrap
    exact not_iff_comm.1 htrap.symm
  | ok response =>
    obtain ⟨app', outputs⟩ := response
    rw [hresponse] at htrap
    have ht := transition_of_respond hresponse
    have havoids : app.AvoidsNilModel event := by
      by_contra hnot
      have := htrap.2 hnot
      contradiction
    refine iff_of_true ⟨fun _ hmem => h.isGated ht hmem, fun hdiffer => ?_⟩ havoids
    cases event with
    | createAccount email password0 password1 => exact outputs_of_createAccount ht
    | _ => exact hdiffer.elim

/-- Every sign-in waits for its own authentication and for both of its reads, and no step needs a
data model that was never created, in a run of the app exactly when the setup window and the Google
delegate never get as far as `self.dataModel`. -/
theorem sign_in_is_gated_iff (user : Option Uid) (events : List AppEvent) :
    Runs.Along next Gated (launched user) events ↔
      Runs.Along next AvoidsNilModel (launched user) events :=
  Runs.along_iff_of_invariant (I := Recorded) (fun _ _ _ h _ hnext => h.next hnext)
    (fun _ event h => h.gated_iff event) (recorded_launched user)

/-- Registering with two different passwords needs the data model of the setup window. -/
theorem different_passwords_need_nil_model :
    ¬ Runs.Along next Gated (launched none)
      [.signInWithEmail, .register, .createAccount "gardener@farm" "basil" "mint"] := by
  intro h
  have hgated := ((h.2 _ rfl).2 _ rfl).1
  exact hgated rfl

/-! ## Whose plants the tab bar shows -/

/-- A plants read of a sign-in whose window is on the stack is a read of the signed-in user. -/
def Owned (app : App) : Prop :=
  ∀ signIn user, .signInPlants signIn user ∈ app.reads →
    app.HasNavigationController signIn.path → app.currentUser = some user

/-- When the step pushes a tab bar, the plants in its data model were read from the node of the user
who is signed in. -/
def PushesOwnPlants (app : App) (event : AppEvent) : Prop :=
  match app.respond event with
  | .error _ => True
  | .ok (app', outputs) => ∀ signIn object, .push signIn object ∈ outputs →
    ∃ user, app'.currentUser = some user ∧ object.plantNamesOf = some user

/-- When Firebase Auth signs a user in, no window on the stack waits for the plants of another. -/
def NoCrossing (app : App) : AppEvent → Prop
  | .authCompletes request (some user) =>
    (∃ signIn, app.auths[request]? = some { signIn := signIn }) →
    ∀ signIn user', .signInPlants signIn user' ∈ app.reads →
      app.HasNavigationController signIn.path → user' = user
  | _ => True

/-- A window whose number is taken does not come back to the stack. -/
theorem Transition.hasNavigationController (ht : app.Transition event outputs app') {window : ℕ}
    (hlt : window < app.loginWindows)
    (h : app'.HasNavigationController (.emailLoginWindow window)) :
    app.HasNavigationController (.emailLoginWindow window) := by
  rcases ht.mem_stack h with hold | ⟨heq, -⟩
  · exact hold
  · omega

theorem Owned.transition (h : app.Owned) (hrecorded : app.Recorded) (hc : app.NoCrossing event)
    (ht : app.Transition event outputs app') : app'.Owned := by
  intro signIn user hmem hcontroller
  rcases ht.mem_reads hmem with hold | hnew
  · obtain ⟨⟨window, hlt, hpath⟩, -⟩ := hrecorded.reads _ hold
    rw [hpath] at hcontroller
    have hbefore := ht.hasNavigationController hlt hcontroller
    have huser := h signIn user hold (hpath ▸ hbefore)
    cases ht with
    | @authCompleted request signIn' result hrequest =>
      cases result with
      | none => exact huser
      | some user' =>
        have heq := hc ⟨signIn', hrequest⟩ signIn user hold (hpath ▸ hbefore)
        exact congrArg some heq.symm
    | loggedOut => exact absurd hcontroller List.not_mem_nil
    | _ => exact huser
  · obtain ⟨-, -, -, huser⟩ := ht.issued hnew
    exact huser

theorem Owned.pushesOwnPlants (h : app.Owned) (event : AppEvent) : app.PushesOwnPlants event := by
  unfold PushesOwnPlants
  split
  · trivial
  · rename_i app' outputs hresponse
    intro signIn object hpush
    obtain ⟨user, hread, hcontroller, hobject, hsame, -⟩ :=
      (transition_of_respond hresponse).of_push hpush
    exact ⟨user, hsame.trans (h signIn user hread hcontroller), hobject⟩

/-- No login shows a user the plants of another, in every run in which no user is signed in while a
window on the stack waits for the plants of another. -/
theorem push_shows_own_plants (user : Option Uid) {events : List AppEvent}
    (hc : Runs.Along next NoCrossing (launched user) events) :
    Runs.Along next PushesOwnPlants (launched user) events := by
  refine Runs.along_of_invariant (I := fun app => app.Recorded ∧ app.Owned) ?_ ?_ ?_ hc
  · rintro app event app' ⟨hrecorded, howned⟩ hc hnext
    obtain ⟨outputs, hresponse⟩ := respond_of_next hnext
    have ht := transition_of_respond hresponse
    exact ⟨hrecorded.transition ht, howned.transition hrecorded hc ht⟩
  · rintro app event ⟨-, howned⟩ -
    exact howned.pushesOwnPlants event
  · exact ⟨recorded_launched user, fun _ _ hmem => absurd hmem List.not_mem_nil⟩

/-- When another user is signed in while a window on the stack waits for plants, the arrival of the
plants pushes them for the wrong user. -/
theorem crossing_pushes_others {request read window number : ℕ} {signIn : SignIn} {user user' : Uid}
    {snapshot : FNode} (hrequest : app.auths[request]? = some { signIn := signIn })
    (hread : app.reads[read]? = some (.signInPlants ⟨number, .emailLoginWindow window⟩ user'))
    (hstack : .emailLogin window ∈ app.stack) (hne : user' ≠ user)
    (hsnapshot : snapshot.val.asNSDictionary.isSome) :
    ¬ (app.authCompleted request (some user)).PushesOwnPlants (.readSucceeds read snapshot) := by
  obtain ⟨names, hnames⟩ := Option.isSome_iff_exists.1 hsnapshot
  intro h
  simp only [PushesOwnPlants, authCompleted, hrequest, respond, hread, readCompleted,
    SignInPath.dataModel, pushTabBar, HasNavigationController, log, storePlantNames, setDataModel,
    if_pos hstack, Function.update_self, DataModel.storePlantNames, hnames,
    ControlWindow1.viewDidLoad, plantNamesAllKeys, Option.map_some, Option.bind_eq_bind,
    Option.bind_some] at h
  obtain ⟨user'', hcurrent, hnamesOf⟩ := h _ _ List.mem_cons_self
  have heq := (Option.some.inj hnamesOf).trans (Option.some.inj hcurrent).symm
  exact hne heq

/-! ### Two presses of Login -/

def neighbour : Uid := ⟨"neighbour", by decide, by decide⟩

/-- The snapshot of the gardener's plants. -/
def roseSnapshot : FNode := .childrenNode [("rose", rose.node)]

/-- A login of the gardener, up to the arrival of the plants. -/
def gardenerLogin : List AppEvent :=
  [.signInWithEmail, .login "gardener@farm" "basil", .authCompletes 0 (some gardener),
    .authReports 0, .readSucceeds 0 newFarm, .readSucceeds 0 roseSnapshot]

theorem push_shows_own_plants_gardener :
    Runs.Along next PushesOwnPlants (launched none) gardenerLogin := by
  apply push_shows_own_plants
  refine ⟨trivial, fun app₁ h₁ => ⟨trivial, fun app₂ h₂ => ⟨?_, fun app₃ _ => ⟨trivial,
    fun app₄ _ => ⟨trivial, fun app₅ _ => ⟨trivial, fun _ _ => trivial⟩⟩⟩⟩⟩⟩
  have hreads : app₂.reads = [] := by
    obtain rfl := Option.some.inj h₁
    obtain rfl := Option.some.inj h₂
    rfl
  intro _ signIn user hmem
  rw [hreads] at hmem
  exact absurd hmem List.not_mem_nil

/-- Two presses of Login: the plants of the first user are on their way when the second is about to
be signed in. -/
def crossingLogins : List AppEvent :=
  [.signInWithEmail, .login "gardener@farm" "basil", .login "neighbour@farm" "mint",
    .authCompletes 0 (some gardener), .authReports 0, .readSucceeds 0 newFarm]

theorem crossing_logins_push_others :
    ¬ Runs.Along next PushesOwnPlants (launched none)
      (crossingLogins ++ [.authCompletes 0 (some neighbour), .readSucceeds 0 roseSnapshot]) := by
  have hrun : (Runs.run next (launched none) crossingLogins).map
      (fun app => (app.auths, app.reads, app.stack)) =
      some ([{ signIn := ⟨1, .emailLoginWindow 0⟩ }],
        [.signInPlants ⟨0, .emailLoginWindow 0⟩ gardener], [.emailLogin 0]) := by
    decide +kernel
  obtain ⟨app, happ, hview⟩ := Option.map_eq_some_iff.1 hrun
  simp only [Prod.mk.injEq] at hview
  obtain ⟨hauths, hreads, hstack⟩ := hview
  have hauth : app.auths[0]? = some { signIn := ⟨1, .emailLoginWindow 0⟩ } := by rw [hauths]; rfl
  have hread : app.reads[0]? = some (.signInPlants ⟨0, .emailLoginWindow 0⟩ gardener) := by
    rw [hreads]
    rfl
  have hwindow : .emailLogin 0 ∈ app.stack := by
    rw [hstack]
    exact List.mem_cons_self
  intro h
  have hpush : (app.authCompleted 0 (some neighbour)).PushesOwnPlants
      (.readSucceeds 0 roseSnapshot) := (((Runs.along_append.1 h).2 app happ).2 _ rfl).1
  exact crossing_pushes_others hauth hread hwindow (by decide) (by decide) hpush

end App

end IndoorFarm
