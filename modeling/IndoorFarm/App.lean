import IndoorFarm.FarmRecord
import IndoorFarm.PlantStore
import IndoorFarm.SettingsScreen

/-!
# The app

The windows on the navigation stack, the sign-ins that are under way, the reads whose completions
have not run and the timers.  A sign-in is a chain of closures: the one passed to Firebase Auth, the
one passed to `readDatabase` and the one passed to `get_all_plant_settings_firebaseDB`, which pushes
the tab bar.  Each closure captures the object it was written in (`SignInPath`), and what it does
when it is called is a function of the app.

An event is something the user does, the end of a request to Firebase, or a timer that fires.
`App.respond` gives the app after the event and the requests it has issued, or the trap that ends
the app; an event that cannot happen changes nothing.  A window of a tab bar loads when it first
appears, Automation when the tab bar is pushed.  The Facebook button of the main menu and the look
of the windows are left out.
-/

namespace IndoorFarm

/-! ## Objects -/

/-- A `DataModel`, with the user under whose uid its `plant_names` were read. -/
structure DataModelObject where
  values : DataModel := {}
  plantNamesOf : Option Uid := none

/-- The objects with the code of a sign-in. -/
inductive SignInPath where
  | emailLoginWindow (window : ℕ)
  | emailSetupWindow (window : ℕ)
  | appDelegate
  deriving DecidableEq

/-- `self.dataModel`.  Each login window makes its own in `viewDidLoad`; nothing assigns the other
two. -/
def SignInPath.dataModel : SignInPath → Option ℕ
  | emailLoginWindow window => some window
  | emailSetupWindow _ => none
  | appDelegate => none

/-- A press of a sign-in button; the number tells the presses apart. -/
structure SignIn where
  number : ℕ
  path : SignInPath
  deriving DecidableEq

/-- What can be said of a sign-in so far. -/
inductive Stage where
  | authenticated
  | databaseRead
  | plantsRead
  deriving DecidableEq

inductive Tab where
  | info
  | automation
  | manual
  deriving DecidableEq

structure TabBarController where
  dataModel : ℕ
  selected : Tab := .automation
  infoLoaded : Bool := false
  manualLoaded : Bool := false

/-- The windows above the main menu. -/
inductive Window where
  | emailLogin (window : ℕ)
  | emailSetup (window : ℕ)
  | tabBar (bar : ℕ)
  deriving DecidableEq

/-- A call of Firebase Auth, with the user or the error once it has ended and its closure waits to
be called. -/
structure AuthRequest where
  signIn : SignIn
  report : Option (Option Uid) := none
  deriving DecidableEq

/-- The closure passed to a read.  A plants read is of the user who was signed in when it was
issued. -/
inductive Completion where
  | signInDatabase (signIn : SignIn)
  | signInPlants (signIn : SignIn) (user : Uid)
  | info (bar : ℕ)
  | manual (bar : ℕ)
  | automation (bar : ℕ) (user : Uid)
  deriving DecidableEq

structure App where
  currentUser : Option Uid
  /-- The navigation stack above the main menu, its top first. -/
  stack : List Window := []
  loginWindows : ℕ := 0
  setupWindows : ℕ := 0
  dataModels : ℕ → DataModelObject := fun _ => {}
  tabBarCount : ℕ := 0
  tabBars : ℕ → TabBarController := fun _ => { dataModel := 0 }
  signIns : ℕ := 0
  auths : List AuthRequest := []
  reads : List Completion := []
  /-- The tab bars whose Info window has scheduled a timer. -/
  timers : List ℕ := []
  /-- What has succeeded, of every sign-in. -/
  succeeded : List (ℕ × Stage) := []

/-- The app after `application(_:didFinishLaunchingWithOptions:)`; Firebase may have kept a user. -/
def launched (user : Option Uid) : App := { currentUser := user }

inductive Trap where
  | nilDataModel
  | nilNavigationController
  | nilPlantNames
  | nilFarmValue
  deriving DecidableEq

/-- What the app asks of the database, and what it shows. -/
inductive Output where
  | read (completion : Completion)
  | plantWrite (user : Uid) (call : PlantCall)
  | farmWrite (call : FarmCall)
  | push (signIn : SignIn) (dataModel : DataModelObject)

/-- A request of a `DataModel`. -/
def Output.IsRequest : Output → Prop
  | push _ _ => False
  | _ => True

abbrev Response : Type := Except Trap (App × List Output)

namespace App

def done (app : App) : Response := .ok (app, [])

/-! ## Reads -/

/-- `observeSingleEvent`. -/
def observe (app : App) (completion : Completion) : Response :=
  .ok ({ app with reads := app.reads ++ [completion] }, [.read completion])

/-- `self.dataModel.readDatabase`. -/
def readDatabase (app : App) (dataModel : Option ℕ) (completion : Completion) : Response :=
  match dataModel with
  | none => .error .nilDataModel
  | some _ => app.observe completion

/-- `self.dataModel.get_all_plant_settings_firebaseDB`. -/
def getAllPlantSettings (app : App) (dataModel : Option ℕ) (completion : Uid → Completion) :
    Response :=
  match dataModel with
  | none => .error .nilDataModel
  | some _ =>
    match app.currentUser with
    | none => app.done
    | some user => app.observe (completion user)

def setDataModel (app : App) (dataModel : ℕ) (object : DataModelObject) : App :=
  { app with dataModels := Function.update app.dataModels dataModel object }

def storeFirebaseValues (app : App) (dataModel : ℕ) (snapshot : FNode) : App :=
  app.setDataModel dataModel { app.dataModels dataModel with
    values := (app.dataModels dataModel).values.storeFirebaseValues snapshot }

def storePlantNames (app : App) (dataModel : ℕ) (user : Uid) (snapshot : FNode) : App :=
  app.setDataModel dataModel {
    values := (app.dataModels dataModel).values.storePlantNames snapshot
    plantNamesOf := some user }

/-! ## Sign-ins -/

def log (app : App) (signIn : SignIn) (stage : Stage) : App :=
  { app with succeeded := (signIn.number, stage) :: app.succeeded }

/-- `Auth.auth().signIn`. -/
def authenticate (app : App) (path : SignInPath) : App :=
  { app with
    signIns := app.signIns + 1
    auths := app.auths ++ [{ signIn := ⟨app.signIns, path⟩ }] }

/-- The Login branch of `buttonAction`. -/
def loginPressed (app : App) (window : ℕ) (email password : String) : App :=
  if email = "" ∨ password = "" then app else app.authenticate (.emailLoginWindow window)

/-- `buttonAction` of the setup window: the read does not wait for `createUser`, whose closure only
prints. -/
def createAccountPressed (app : App) (window : ℕ) (email password0 password1 : String) : Response :=
  if email = "" ∨ password0 = "" ∨ password1 = "" then app.done
  else
    let signIn : SignIn := ⟨app.signIns, .emailSetupWindow window⟩
    let app :=
      if password0 = password1 then app.authenticate (.emailSetupWindow window)
      else { app with signIns := app.signIns + 1 }
    app.readDatabase signIn.path.dataModel (.signInDatabase signIn)

/-- Firebase Auth ends a request: a success makes the user the current one and then queues the
closure. -/
def authCompleted (app : App) (request : ℕ) (result : Option Uid) : App :=
  match app.auths[request]? with
  | some { signIn := signIn, report := none } =>
    { app with
      currentUser := result.or app.currentUser
      auths := app.auths.set request { signIn := signIn, report := some result } }
  | _ => app

/-- The closures passed to Firebase Auth. -/
def authReported (app : App) (signIn : SignIn) : Option Uid → Response
  | none => app.done
  | some _ =>
    let app := app.log signIn .authenticated
    match signIn.path with
    | .emailSetupWindow _ => app.done
    | path => app.readDatabase path.dataModel (.signInDatabase signIn)

/-- `self.navigationController` of a window, `navController_farm_ios` of the delegate. -/
def HasNavigationController (app : App) : SignInPath → Prop
  | .emailLoginWindow window => .emailLogin window ∈ app.stack
  | .emailSetupWindow window => .emailSetup window ∈ app.stack
  | .appDelegate => True

instance (app : App) : DecidablePred app.HasNavigationController := fun path => by
  cases path <;> unfold HasNavigationController <;> infer_instance

/-- `Util.setupTabBarController` and the push, which loads the Automation window. -/
def pushTabBar (app : App) (signIn : SignIn) (dataModel : ℕ) : Response :=
  if app.HasNavigationController signIn.path then
    match ControlWindow1.viewDidLoad (app.dataModels dataModel).values [] with
    | none => .error .nilPlantNames
    | some _ =>
      .ok ({ app with
        stack := .tabBar app.tabBarCount :: app.stack
        tabBarCount := app.tabBarCount + 1
        tabBars := Function.update app.tabBars app.tabBarCount { dataModel := dataModel } },
        [.push signIn (app.dataModels dataModel)])
  else .error .nilNavigationController

/-! ## Completions of reads -/

/-- `get_from_dataModel` of the Info window. -/
def getFromDataModel (app : App) (bar : ℕ) : Option ControlWindow0 :=
  ControlWindow0.getFromDataModel (app.dataModels (app.tabBars bar).dataModel).values

/-- `update_manaul_settings_page_values` of the Manual window. -/
def updateManaulSettingsPageValues (app : App) (bar : ℕ) : Option ControlWindow2 :=
  ControlWindow2.updateManaulSettingsPageValues (app.dataModels (app.tabBars bar).dataModel).values

/-- The closures passed to `readDatabase` and to `get_all_plant_settings_firebaseDB`, after the data
model has stored the snapshot. -/
def readCompleted (app : App) (snapshot : FNode) : Completion → Response
  | .signInDatabase signIn =>
    match signIn.path.dataModel with
    | none => .error .nilDataModel
    | some dataModel =>
      ((app.storeFirebaseValues dataModel snapshot).log signIn .databaseRead).getAllPlantSettings
        signIn.path.dataModel (.signInPlants signIn)
  | .signInPlants signIn user =>
    match signIn.path.dataModel with
    | none => .error .nilDataModel
    | some dataModel =>
      ((app.storePlantNames dataModel user snapshot).log signIn .plantsRead).pushTabBar signIn
        dataModel
  | .info bar =>
    let app := app.storeFirebaseValues (app.tabBars bar).dataModel snapshot
    if (app.getFromDataModel bar).isSome then app.done else .error .nilFarmValue
  | .manual bar =>
    let app := app.storeFirebaseValues (app.tabBars bar).dataModel snapshot
    if (app.updateManaulSettingsPageValues bar).isSome then app.done else .error .nilFarmValue
  | .automation bar user =>
    let app := app.storePlantNames (app.tabBars bar).dataModel user snapshot
    if (app.dataModels (app.tabBars bar).dataModel).values.plantNames.isSome then app.done
    else .error .nilPlantNames

/-! ## The tab bar -/

def setTabBar (app : App) (bar : ℕ) (tabBar : TabBarController) : App :=
  { app with tabBars := Function.update app.tabBars bar tabBar }

/-- The Info window appears: `viewDidLoad` the first time, which schedules the timer, and
`viewWillAppear`. -/
def infoAppears (app : App) (bar : ℕ) : Response :=
  let tabBar := app.tabBars bar
  if tabBar.infoLoaded then app.readDatabase (some tabBar.dataModel) (.info bar)
  else if (app.getFromDataModel bar).isSome then
    let app := app.setTabBar bar { tabBar with infoLoaded := true }
    { app with timers := app.timers ++ [bar] }.readDatabase (some tabBar.dataModel) (.info bar)
  else .error .nilFarmValue

/-- The Manual window appears. -/
def manualAppears (app : App) (bar : ℕ) : Response :=
  let tabBar := app.tabBars bar
  if tabBar.manualLoaded ∨ (app.updateManaulSettingsPageValues bar).isSome then
    (app.setTabBar bar { tabBar with manualLoaded := true }).readDatabase (some tabBar.dataModel)
      (.manual bar)
  else .error .nilFarmValue

/-- A tap on an item of the tab bar. -/
def visit (app : App) (bar : ℕ) (tab : Tab) : Response :=
  if (app.tabBars bar).selected = tab then app.done
  else
    let app := app.setTabBar bar { app.tabBars bar with selected := tab }
    match tab with
    | .info => app.infoAppears bar
    | .automation => app.done
    | .manual => app.manualAppears bar

/-- Create or Delete in the Automation window, when its checks are passed. -/
def plantCalled (app : App) (bar : ℕ) (call : PlantCall) : Response :=
  match app.currentUser with
  | none => app.done
  | some user =>
    .ok ({ app with reads := app.reads ++ [.automation bar user] },
      [.plantWrite user call, .read (.automation bar user)])

/-- The Logout branch of `buttonAction`: `popToRootViewController` only when `signOut` has not
thrown. -/
def logoutPressed (app : App) (signsOut : Bool) : App :=
  if signsOut then { app with currentUser := none, stack := [] } else app

end App

/-! ## Steps -/

/-- The tab with the control that makes a call. -/
def FarmCall.tab : FarmCall → Tab
  | .writeAutomatedSettings _ _ _ => .automation
  | _ => .manual

inductive AppEvent where
  /-- The mail button of the main menu. -/
  | signInWithEmail
  | register
  | back
  | login (email password : String)
  | createAccount (email password0 password1 : String)
  /-- `sign(_:didSignInFor:withError:)`, with or without an authentication. -/
  | didSignInFor (authentication : Bool)
  | authCompletes (request : ℕ) (result : Option Uid)
  /-- The closure of an authentication that has ended is called. -/
  | authReports (request : ℕ)
  | readSucceeds (read : ℕ) (snapshot : FNode)
  | readFails (read : ℕ)
  | visit (tab : Tab)
  /-- A timer fires: `readTimerCode`. -/
  | tick (timer : ℕ)
  | plantCall (call : PlantCall)
  | farmCall (call : FarmCall)
  | logout (signsOut : Bool)

namespace App

def respond (app : App) : AppEvent → Response
  | .signInWithEmail =>
    match app.stack with
    | [] => done { app with
        stack := [.emailLogin app.loginWindows]
        loginWindows := app.loginWindows + 1
        dataModels := Function.update app.dataModels app.loginWindows {} }
    | _ => app.done
  | .register =>
    match app.stack with
    | .emailLogin _ :: _ => done { app with
        stack := .emailSetup app.setupWindows :: app.stack
        setupWindows := app.setupWindows + 1 }
    | _ => app.done
  | .back =>
    match app.stack with
    | .emailLogin _ :: stack => done { app with stack := stack }
    | .emailSetup _ :: stack => done { app with stack := stack }
    | _ => app.done
  | .login email password =>
    match app.stack with
    | .emailLogin window :: _ => (app.loginPressed window email password).done
    | _ => app.done
  | .createAccount email password0 password1 =>
    match app.stack with
    | .emailSetup window :: _ => app.createAccountPressed window email password0 password1
    | _ => app.done
  | .didSignInFor authentication =>
    if authentication then (app.authenticate .appDelegate).done else app.done
  | .authCompletes request result => (app.authCompleted request result).done
  | .authReports request =>
    match app.auths[request]? with
    | some { signIn := signIn, report := some result } =>
      { app with auths := app.auths.eraseIdx request }.authReported signIn result
    | _ => app.done
  | .readSucceeds read snapshot =>
    match app.reads[read]? with
    | none => app.done
    | some completion =>
      { app with reads := app.reads.eraseIdx read }.readCompleted snapshot completion
  | .readFails read => done { app with reads := app.reads.eraseIdx read }
  | .visit tab =>
    match app.stack with
    | .tabBar bar :: _ => app.visit bar tab
    | _ => app.done
  | .tick timer =>
    match app.timers[timer]? with
    | none => app.done
    | some bar => app.readDatabase (some (app.tabBars bar).dataModel) (.info bar)
  | .plantCall call =>
    match app.stack with
    | .tabBar bar :: _ =>
      if (app.tabBars bar).selected = .automation then app.plantCalled bar call else app.done
    | _ => app.done
  | .farmCall call =>
    match app.stack with
    | .tabBar bar :: _ =>
      if (app.tabBars bar).selected = call.tab then .ok (app, [.farmWrite call]) else app.done
    | _ => app.done
  | .logout signsOut =>
    match app.stack with
    | .tabBar bar :: _ =>
      if (app.tabBars bar).selected = .manual then (app.logoutPressed signsOut).done else app.done
    | _ => app.done

/-- The app after an event, `none` when it has trapped. -/
def next (app : App) (event : AppEvent) : Option App := (app.respond event).toOption.map Prod.fst

end App

end IndoorFarm
