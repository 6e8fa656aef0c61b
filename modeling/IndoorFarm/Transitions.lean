import IndoorFarm.App

/-!
# What a step of the app can do

`Transition` lists the ways in which the app can answer an event without a trap: the requests it
issues, the fields that change, and what held before.  `transition_of_respond` is the only place
where the definition of `respond` is taken apart for a step that succeeds.  The lemmas of the second
part say what a transition leaves and what it adds to each field, and every invariant of the app is
proved from them.
-/

namespace IndoorFarm

/-- The closures of the windows of a tab bar. -/
def Completion.IsWindow : Completion → Prop
  | signInDatabase _ => False
  | signInPlants _ _ => False
  | _ => True

/-- How a window comes to the stack. -/
def Window.IsPushed (app app' : App) : Window → Prop
  | emailLogin window => window = app.loginWindows ∧ app'.loginWindows = app.loginWindows + 1
  | emailSetup _ => True
  | tabBar _ => ∃ signIn user, .signInPlants signIn user ∈ app.reads ∧
      app.HasNavigationController signIn.path

/-- How a read comes to be issued: for a sign-in by the closure before it in its chain. -/
def Completion.Issued (app app' : App) : Completion → Prop
  | signInDatabase signIn => (∃ request ∈ app.auths, request.signIn = signIn) ∧
      (∃ window, signIn.path = .emailLoginWindow window) ∧
      (signIn.number, Stage.authenticated) ∈ app'.succeeded
  | signInPlants signIn user => .signInDatabase signIn ∈ app.reads ∧
      (signIn.number, Stage.databaseRead) ∈ app'.succeeded ∧
      app.currentUser = some user ∧ app'.currentUser = some user
  | _ => True

theorem Completion.IsWindow.issued {app app' : App} {completion : Completion}
    (h : completion.IsWindow) : completion.Issued app app' := by
  cases completion with
  | signInDatabase signIn | signInPlants signIn user => exact h.elim
  | info bar | manual bar | automation bar user => trivial

namespace App

/-- The steps that do not trap, with their outputs. -/
inductive Transition (app : App) : AppEvent → List Output → App → Prop
  | idle {event : AppEvent} : Transition app event [] app
  | loginOpened (hstack : app.stack = []) : Transition app .signInWithEmail [] { app with
      stack := [.emailLogin app.loginWindows]
      loginWindows := app.loginWindows + 1
      dataModels := Function.update app.dataModels app.loginWindows {} }
  | setupOpened {event : AppEvent} : Transition app event [] { app with
      stack := .emailSetup app.setupWindows :: app.stack
      setupWindows := app.setupWindows + 1 }
  | back {event : AppEvent} {window : Window} {stack : List Window}
      (hstack : app.stack = window :: stack) : Transition app event [] { app with stack := stack }
  | authRequested {event : AppEvent} {path : SignInPath}
      (hpath : ∀ window, path = .emailLoginWindow window → .emailLogin window ∈ app.stack) :
      Transition app event [] (app.authenticate path)
  | authCompleted {request : ℕ} {signIn : SignIn} (result : Option Uid)
      (hrequest : app.auths[request]? = some { signIn := signIn }) :
      Transition app (.authCompletes request result) [] { app with
        currentUser := result.or app.currentUser
        auths := app.auths.set request { signIn := signIn, report := some result } }
  | authFailed {request : ℕ} : Transition app (.authReports request) [] { app with
      auths := app.auths.eraseIdx request }
  | accountCreated {request : ℕ} {signIn : SignIn} :
      Transition app (.authReports request) [] { app with
        auths := app.auths.eraseIdx request
        succeeded := (signIn.number, .authenticated) :: app.succeeded }
  | loggedIn {request window : ℕ} {signIn : SignIn} {user : Uid}
      (hrequest : app.auths[request]? = some { signIn := signIn, report := some (some user) })
      (hpath : signIn.path = .emailLoginWindow window) :
      Transition app (.authReports request) [.read (.signInDatabase signIn)] { app with
        auths := app.auths.eraseIdx request
        succeeded := (signIn.number, .authenticated) :: app.succeeded
        reads := app.reads ++ [.signInDatabase signIn] }
  | readFailed {read : ℕ} : Transition app (.readFails read) [] { app with
      reads := app.reads.eraseIdx read }
  | databaseRead {read : ℕ} {signIn : SignIn} {snapshot : FNode} {dataModels : ℕ → DataModelObject}
      (hread : app.reads[read]? = some (.signInDatabase signIn)) (huser : app.currentUser = none) :
      Transition app (.readSucceeds read snapshot) [] { app with
        reads := app.reads.eraseIdx read
        dataModels := dataModels
        succeeded := (signIn.number, .databaseRead) :: app.succeeded }
  | plantsRequested {read : ℕ} {signIn : SignIn} {user : Uid} {snapshot : FNode}
      {dataModels : ℕ → DataModelObject} (hread : app.reads[read]? = some (.signInDatabase signIn))
      (huser : app.currentUser = some user) :
      Transition app (.readSucceeds read snapshot) [.read (.signInPlants signIn user)] { app with
        reads := app.reads.eraseIdx read ++ [.signInPlants signIn user]
        dataModels := dataModels
        succeeded := (signIn.number, .databaseRead) :: app.succeeded }
  | pushed {read : ℕ} {signIn : SignIn} {user : Uid} {snapshot : FNode} {object : DataModelObject}
      {dataModels : ℕ → DataModelObject} {tabBars : ℕ → TabBarController}
      (hread : app.reads[read]? = some (.signInPlants signIn user))
      (hcontroller : app.HasNavigationController signIn.path)
      (hobject : object.plantNamesOf = some user) :
      Transition app (.readSucceeds read snapshot) [.push signIn object] { app with
        reads := app.reads.eraseIdx read
        dataModels := dataModels
        succeeded := (signIn.number, .plantsRead) :: app.succeeded
        stack := .tabBar app.tabBarCount :: app.stack
        tabBarCount := app.tabBarCount + 1
        tabBars := tabBars }
  | windowRead {read : ℕ} {snapshot : FNode} {dataModels : ℕ → DataModelObject} :
      Transition app (.readSucceeds read snapshot) [] { app with
        reads := app.reads.eraseIdx read
        dataModels := dataModels }
  | selected {tab : Tab} {tabBars : ℕ → TabBarController} :
      Transition app (.visit tab) [] { app with tabBars := tabBars }
  | appeared {tab : Tab} {bar : ℕ} {tabBars : ℕ → TabBarController} {completion : Completion}
      (hstack : .tabBar bar ∈ app.stack) (hwindow : completion.IsWindow) :
      Transition app (.visit tab) [.read completion] { app with
        tabBars := tabBars
        reads := app.reads ++ [completion] }
  | infoLoaded {bar : ℕ} {stack : List Window} {tabBars : ℕ → TabBarController}
      (hstack : app.stack = .tabBar bar :: stack) (hselected : (app.tabBars bar).selected ≠ .info)
      (hloaded : (app.tabBars bar).infoLoaded = false)
      (hvalues : (app.getFromDataModel bar).isSome) :
      Transition app (.visit .info) [.read (.info bar)] { app with
        tabBars := tabBars
        timers := app.timers ++ [bar]
        reads := app.reads ++ [.info bar] }
  | ticked {timer bar : ℕ} (htimer : app.timers[timer]? = some bar) :
      Transition app (.tick timer) [.read (.info bar)] { app with
        reads := app.reads ++ [.info bar] }
  | plantCalled {bar : ℕ} {user : Uid} {call : PlantCall} (huser : app.currentUser = some user) :
      Transition app (.plantCall call)
        [.plantWrite user call, .read (.automation bar user)] { app with
          reads := app.reads ++ [.automation bar user] }
  | farmCalled {bar : ℕ} {call : FarmCall} (hstack : .tabBar bar ∈ app.stack) :
      Transition app (.farmCall call) [.farmWrite call] app
  | loggedOut {signsOut : Bool} : Transition app (.logout signsOut) [] { app with
      currentUser := none
      stack := [] }

variable {app app' : App} {event : AppEvent} {outputs : List Output}

theorem emailLoginWindow_of_dataModel {path : SignInPath} {dataModel : ℕ}
    (h : path.dataModel = some dataModel) : path = .emailLoginWindow dataModel := by
  cases path with
  | emailLoginWindow window => exact congrArg _ (Option.some.inj h)
  | emailSetupWindow window | appDelegate => contradiction

theorem getAllPlantSettings_of_none (huser : app.currentUser = none) (dataModel : ℕ)
    (completion : Uid → Completion) :
    app.getAllPlantSettings (some dataModel) completion = app.done := by
  simp only [getAllPlantSettings, huser]

theorem getAllPlantSettings_of_some (user : Uid) (huser : app.currentUser = some user)
    (dataModel : ℕ) (completion : Uid → Completion) :
    app.getAllPlantSettings (some dataModel) completion = app.observe (completion user) := by
  simp only [getAllPlantSettings, huser]

theorem getFromDataModel_setTabBar_selected (bar : ℕ) (tab : Tab) :
    (app.setTabBar bar { app.tabBars bar with selected := tab }).getFromDataModel bar =
      app.getFromDataModel bar := by
  simp [getFromDataModel, setTabBar]

theorem transition_of_readCompleted {read : ℕ} {snapshot : FNode} {completion : Completion}
    (hread : app.reads[read]? = some completion)
    (h : { app with reads := app.reads.eraseIdx read }.readCompleted snapshot completion =
      .ok (app', outputs)) :
    app.Transition (.readSucceeds read snapshot) outputs app' := by
  cases completion with
  | signInDatabase signIn =>
    simp only [readCompleted] at h
    cases hmodel : signIn.path.dataModel with
    | none =>
      rw [hmodel] at h
      contradiction
    | some dataModel =>
      simp only [hmodel] at h
      cases huser : app.currentUser with
      | none =>
        rw [getAllPlantSettings_of_none] at h
        · cases h
          exact .databaseRead hread huser
        · exact huser
      | some user =>
        rw [getAllPlantSettings_of_some user] at h
        · cases h
          exact .plantsRequested hread huser
        · exact huser
  | signInPlants signIn user =>
    simp only [readCompleted] at h
    cases hmodel : signIn.path.dataModel with
    | none =>
      rw [hmodel] at h
      contradiction
    | some dataModel =>
      rw [hmodel] at h
      simp only [pushTabBar] at h
      split_ifs at h with hcontroller
      split at h
      · contradiction
      · cases h
        refine .pushed hread ?_ ?_
        · rw [emailLoginWindow_of_dataModel hmodel] at hcontroller ⊢
          exact hcontroller
        · simp [log, storePlantNames, setDataModel]
  | info bar | manual bar | automation bar user =>
    simp only [readCompleted] at h
    split_ifs at h
    cases h
    exact .windowRead

theorem transition_of_visit {bar : ℕ} {stack : List Window} {tab : Tab}
    (hstack : app.stack = .tabBar bar :: stack) (h : app.visit bar tab = .ok (app', outputs)) :
    app.Transition (.visit tab) outputs app' := by
  have hmem : .tabBar bar ∈ app.stack := by
    rw [hstack]
    exact List.mem_cons_self
  unfold visit at h
  split_ifs at h with hselected
  · cases h
    exact .idle
  · cases tab with
    | automation =>
      cases h
      exact .selected
    | manual =>
      simp only [manualAppears] at h
      split_ifs at h
      cases h
      exact .appeared hmem trivial
    | info =>
      simp only [infoAppears, getFromDataModel_setTabBar_selected] at h
      split_ifs at h with hloaded hvalues
      · cases h
        exact .appeared hmem trivial
      · cases h
        refine .infoLoaded hstack hselected ?_ hvalues
        simpa [setTabBar] using hloaded

/-- A step that does not trap is one of the transitions. -/
theorem transition_of_respond (h : app.respond event = .ok (app', outputs)) :
    app.Transition event outputs app' := by
  cases event with
  | signInWithEmail =>
    simp only [respond] at h
    split at h <;> cases h
    exacts [.loginOpened ‹_›, .idle]
  | register =>
    simp only [respond] at h
    split at h <;> cases h
    exacts [.setupOpened, .idle]
  | back =>
    simp only [respond] at h
    split at h <;> cases h
    exacts [.back ‹_›, .back ‹_›, .idle]
  | login email password =>
    simp only [respond, loginPressed] at h
    split at h
    · rename_i window stack hstack
      cases h
      split_ifs
      · exact .idle
      · refine .authRequested fun window' hpath => ?_
        cases hpath
        rw [hstack]
        exact List.mem_cons_self
    · cases h
      exact .idle
  | createAccount email password0 password1 =>
    simp only [respond, createAccountPressed] at h
    split at h
    · split_ifs at h
      all_goals first | contradiction | (cases h; exact .idle)
    · cases h
      exact .idle
  | didSignInFor authentication =>
    simp only [respond] at h
    split_ifs at h <;> cases h
    exacts [.authRequested fun _ hpath => by contradiction, .idle]
  | authCompletes request result =>
    simp only [respond, authCompleted] at h
    cases h
    split
    exacts [.authCompleted result ‹_›, .idle]
  | authReports request =>
    simp only [respond] at h
    split at h
    · rename_i signIn result hrequest
      cases result with
      | none =>
        cases h
        exact .authFailed
      | some user =>
        obtain ⟨number, path⟩ := signIn
        cases path with
        | emailLoginWindow window =>
          cases h
          exact .loggedIn hrequest rfl
        | emailSetupWindow window =>
          cases h
          exact .accountCreated
        | appDelegate => contradiction
    · cases h
      exact .idle
  | readSucceeds read snapshot =>
    simp only [respond] at h
    split at h
    · cases h
      exact .idle
    · exact transition_of_readCompleted ‹_› h
  | readFails read =>
    cases h
    exact .readFailed
  | visit tab =>
    simp only [respond] at h
    split at h
    · exact transition_of_visit ‹_› h
    · cases h
      exact .idle
  | tick timer =>
    simp only [respond] at h
    split at h <;> cases h
    exacts [.idle, .ticked ‹_›]
  | plantCall call =>
    simp only [respond, App.plantCalled] at h
    split at h
    · split_ifs at h
      · split at h <;> cases h
        exacts [.idle, .plantCalled ‹_›]
      · cases h
        exact .idle
    · cases h
      exact .idle
  | farmCall call =>
    simp only [respond] at h
    split at h
    · rename_i bar stack hstack
      have hmem : .tabBar bar ∈ app.stack := by
        rw [hstack]
        exact List.mem_cons_self
      split_ifs at h <;> cases h
      exacts [.farmCalled hmem, .idle]
    · cases h
      exact .idle
  | logout signsOut =>
    simp only [respond, logoutPressed] at h
    split at h
    · split_ifs at h <;> cases h
      exacts [.loggedOut, .idle, .idle]
    · cases h
      exact .idle

/-! ## What a transition leaves and what it adds -/

namespace Transition

theorem loginWindows_le (ht : app.Transition event outputs app') :
    app.loginWindows ≤ app'.loginWindows := by
  cases ht with
  | loginOpened => exact Nat.le_succ _
  | _ => exact le_rfl

theorem mem_succeeded (ht : app.Transition event outputs app') {entry : ℕ × Stage}
    (h : entry ∈ app.succeeded) : entry ∈ app'.succeeded := by
  cases ht with
  | accountCreated | loggedIn | databaseRead | plantsRequested | pushed =>
    exact List.mem_cons_of_mem _ h
  | _ => exact h

/-- A request is pending, was pending before, or comes from a window on the stack. -/
theorem mem_auths (ht : app.Transition event outputs app') {request : AuthRequest}
    (h : request ∈ app'.auths) : (∃ old ∈ app.auths, request.signIn = old.signIn) ∨
      ∀ window, request.signIn.path = .emailLoginWindow window →
        .emailLogin window ∈ app.stack := by
  cases ht with
  | authRequested hpath =>
    rcases List.mem_append.1 h with h | h
    · exact Or.inl ⟨request, h, rfl⟩
    · obtain rfl := List.mem_singleton.1 h
      exact Or.inr hpath
  | authCompleted result hrequest =>
    rcases List.mem_or_eq_of_mem_set h with h | rfl
    · exact Or.inl ⟨request, h, rfl⟩
    · exact Or.inl ⟨_, List.mem_of_getElem? hrequest, rfl⟩
  | authFailed | accountCreated | loggedIn =>
    exact Or.inl ⟨request, List.mem_of_mem_eraseIdx h, rfl⟩
  | _ => exact Or.inl ⟨request, h, rfl⟩

/-- The windows that come to the stack: a login window with the next number, a setup window, and a
tab bar for a window on the stack whose plants have arrived. -/
theorem mem_stack (ht : app.Transition event outputs app') {window : Window}
    (h : window ∈ app'.stack) : window ∈ app.stack ∨ window.IsPushed app app' := by
  cases ht with
  | loginOpened hstack =>
    obtain rfl := List.mem_singleton.1 h
    exact Or.inr ⟨rfl, rfl⟩
  | setupOpened =>
    rcases List.mem_cons.1 h with rfl | h
    · exact Or.inr trivial
    · exact Or.inl h
  | back hstack =>
    rw [hstack]
    exact Or.inl (List.mem_cons_of_mem _ h)
  | pushed hread hcontroller hobject =>
    rcases List.mem_cons.1 h with rfl | h
    · exact Or.inr ⟨_, _, List.mem_of_getElem? hread, hcontroller⟩
    · exact Or.inl h
  | loggedOut => exact absurd h List.not_mem_nil
  | _ => exact Or.inl h

/-- A pending read was pending before or is among the outputs. -/
theorem mem_reads (ht : app.Transition event outputs app') {completion : Completion}
    (h : completion ∈ app'.reads) : completion ∈ app.reads ∨ .read completion ∈ outputs := by
  cases ht with
  | plantsRequested hread huser =>
    rcases List.mem_append.1 h with h | h
    · exact Or.inl (List.mem_of_mem_eraseIdx h)
    · exact Or.inr (List.mem_singleton.2 (congrArg Output.read (List.mem_singleton.1 h)))
  | loggedIn | appeared | infoLoaded | ticked =>
    rcases List.mem_append.1 h with h | h
    · exact Or.inl h
    · exact Or.inr (List.mem_singleton.2 (congrArg Output.read (List.mem_singleton.1 h)))
  | plantCalled =>
    rcases List.mem_append.1 h with h | h
    · exact Or.inl h
    · obtain rfl := List.mem_singleton.1 h
      exact Or.inr (List.mem_cons_of_mem _ List.mem_cons_self)
  | readFailed | databaseRead | pushed | windowRead => exact Or.inl (List.mem_of_mem_eraseIdx h)
  | _ => exact Or.inl h

/-- Where a read among the outputs comes from. -/
theorem issued (ht : app.Transition event outputs app') {completion : Completion}
    (h : .read completion ∈ outputs) : completion.Issued app app' := by
  cases ht with
  | loggedIn hrequest hpath =>
    obtain rfl := Output.read.inj (List.mem_singleton.1 h)
    exact ⟨⟨_, List.mem_of_getElem? hrequest, rfl⟩, ⟨_, hpath⟩, List.mem_cons_self⟩
  | plantsRequested hread huser =>
    obtain rfl := Output.read.inj (List.mem_singleton.1 h)
    exact ⟨List.mem_of_getElem? hread, List.mem_cons_self, huser, huser⟩
  | appeared hstack hwindow =>
    obtain rfl := Output.read.inj (List.mem_singleton.1 h)
    exact hwindow.issued
  | infoLoaded | ticked =>
    obtain rfl := Output.read.inj (List.mem_singleton.1 h)
    trivial
  | plantCalled =>
    rcases List.mem_cons.1 h with h | h
    · contradiction
    · obtain rfl := Output.read.inj (List.mem_singleton.1 h)
      trivial
  | pushed | farmCalled =>
    have heq := List.mem_singleton.1 h
    contradiction
  | _ => exact absurd h List.not_mem_nil

/-- Where a tab bar among the outputs comes from. -/
theorem of_push (ht : app.Transition event outputs app') {signIn : SignIn}
    {object : DataModelObject} (h : .push signIn object ∈ outputs) :
    ∃ user, .signInPlants signIn user ∈ app.reads ∧ app.HasNavigationController signIn.path ∧
      object.plantNamesOf = some user ∧ app'.currentUser = app.currentUser ∧
      (signIn.number, .plantsRead) ∈ app'.succeeded := by
  cases ht with
  | pushed hread hcontroller hobject =>
    obtain ⟨rfl, rfl⟩ := Output.push.inj (List.mem_singleton.1 h)
    exact ⟨_, List.mem_of_getElem? hread, hcontroller, hobject, rfl, List.mem_cons_self⟩
  | plantCalled =>
    rcases List.mem_cons.1 h with h | h
    · contradiction
    · have heq := List.mem_singleton.1 h
      contradiction
  | loggedIn | plantsRequested | appeared | infoLoaded | ticked | farmCalled =>
    have heq := List.mem_singleton.1 h
    contradiction
  | _ => exact absurd h List.not_mem_nil

/-- Only Logout takes the signed-in user away, and it empties the stack. -/
theorem isSome_currentUser (ht : app.Transition event outputs app')
    (h : app.currentUser.isSome) : app'.currentUser.isSome ∨ app'.stack = [] := by
  cases ht with
  | authCompleted result hrequest =>
    cases result with
    | none => exact Or.inl h
    | some user => exact Or.inl rfl
  | loggedOut => exact Or.inr rfl
  | _ => exact Or.inl h

end Transition

theorem respond_of_next (h : app.next event = some app') :
    ∃ outputs, app.respond event = .ok (app', outputs) := by
  unfold next at h
  cases hresponse : app.respond event with
  | error trap =>
    rw [hresponse] at h
    contradiction
  | ok response =>
    rw [hresponse] at h
    obtain rfl := Option.some.inj h
    exact ⟨response.2, rfl⟩

end App

end IndoorFarm
