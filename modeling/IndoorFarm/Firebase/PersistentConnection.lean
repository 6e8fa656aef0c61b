import IndoorFarm.Lib.Runs
import IndoorFarm.Firebase.WriteTree
import Mathlib.Data.List.Sort

/-!
# The client's end of the connection (`FRepo`, `FPersistentConnection`)

A client writes whether or not it is connected: a write is pending in `pendingWriteTree` and
outstanding in `outstandingPuts` until the server has answered it.  When the connection is lost,
the client forgets the requests that wait for a response; when it is there again, it listens again
and sends all outstanding puts again, in their order.  While a listen waits for its response, the
answers to puts are put off.

What arrives from the server is arbitrary here, and so is when the sync tree starts and stops its
listens.
-/

namespace IndoorFarm

variable {κ π : Type*}

/-! ## Dictionaries -/

namespace NSMutableDictionary

variable {α β : Type*} [DecidableEq α]

def objectForKey (d : List (α × β)) (key : α) : Option β :=
  (d.find? fun entry => entry.1 = key).map Prod.snd

def removeObjectForKey (d : List (α × β)) (key : α) : List (α × β) :=
  d.filter fun entry => entry.1 ≠ key

def setObject (d : List (α × β)) (value : β) (key : α) : List (α × β) :=
  removeObjectForKey d key ++ [(key, value)]

end NSMutableDictionary

open NSMutableDictionary

/-! ## The objects of a connection -/

/-- A path, and the parameters of a query. -/
structure FQuerySpec (κ π : Type*) where
  path : List κ
  params : π
  deriving DecidableEq

/-- What the blocks that belong to a put have captured: the path, the data and the write id. -/
structure FOutstandingPut (κ : Type*) where
  path : List κ
  data : FNode
  writeId : ℤ

inductive ConnectionState
  | disconnected
  | gettingToken
  | connecting
  | authenticating
  | connected
  deriving DecidableEq

inductive FAction (κ π : Type*)
  | stats
  | auth (credential : String)
  | unauth
  | listen (query : FQuerySpec κ π)
  | unlisten (query : FQuerySpec κ π)
  | put (path : List κ) (data : FNode)

/-- What is done with the response to a request.  A listen is known by the number of the object
that `listen:` has made for it. -/
inductive FCallback (κ π : Type*)
  | stats
  | auth (restoreStateAfterComplete : Bool)
  | listen (query : FQuerySpec κ π) (listenSpec : ℕ)
  | put (index : ℕ) (put : FOutstandingPut κ)

structure FRequest (κ π : Type*) where
  requestNumber : ℕ
  action : FAction κ π

/-- The messages of the server.  `dataPush` stands for all that are handed on to the sync tree or to
the log. -/
inductive FServerMessage (κ : Type*)
  | response (requestNumber : ℕ) (status : String)
  | error (reason : String)
  | dataPush
  | authRevoked
  | listenRevoked (path : List κ)
  | shutdown

/-- An `FConnection` that has not been closed, and the requests that have been sent on it. -/
structure FConnection (κ π : Type*) where
  isConnected : Bool := false
  sent : List (FRequest κ π) := []

/-- `sendRequest:sensitive:`, `none` when it raises. -/
def FConnection.sendRequest (self : FConnection κ π) (request : FRequest κ π) :
    Option (FConnection κ π) :=
  if self.isConnected then some { self with sent := self.sent ++ [request] } else none

def kFWPResponseForActionStatusOk : String := "ok"

def kFErrorWriteCanceled : String := "write_canceled"

def kFInterruptReasonServerKill : String := "server_kill"

def kFInterruptReasonWaitingForOpen : String := "waiting_for_open"

/-- `FRepo` with its `FPersistentConnection`, without the views of its sync tree. -/
structure FRepo (κ π : Type*) [TreeKey κ] where
  writeIdCounter : ℤ := 0
  pendingWriteTree : FWriteTree κ := {}
  /-- The puts whose completion blocks have been called, and with which status. -/
  completed : List (FOutstandingPut κ × String) := []
  connectionState : ConnectionState := .disconnected
  firstConnection : Bool := true
  interruptReasons : List String := [kFInterruptReasonWaitingForOpen]
  /-- `retryHelper` has a task that has not been cancelled. -/
  scheduledRetry : Bool := false
  currentFetchTokenAttempt : ℕ := 0
  /-- The attempts whose callbacks have not been called. -/
  fetches : List ℕ := []
  authToken : Option String := none
  realtime : Option (FConnection κ π) := none
  listens : List (FQuerySpec κ π × ℕ) := []
  /-- How many objects `listen:` has made. -/
  listenSpecs : ℕ := 0
  putCounter : ℕ := 1
  outstandingPuts : List (ℕ × FOutstandingPut κ) := []
  requestNumber : ℕ := 1
  requestCBHash : List (ℕ × FCallback κ π) := []
  unackedListensCount : ℕ := 0
  /-- The puts whose completion blocks are to be called, and with which status. -/
  putsToAck : List (FOutstandingPut κ × String) := []

namespace FRepo

variable [TreeKey κ]

def isConnected (self : FRepo κ π) : Bool :=
  self.connectionState = .authenticating || self.connectionState = .connected

def canSendWrites (self : FRepo κ π) : Bool := self.connectionState = .connected

def shouldReconnect (self : FRepo κ π) : Bool := self.interruptReasons.isEmpty

/-! ### Requests -/

/-- `sendAction:body:sensitive:callback:`. -/
def sendAction (self : FRepo κ π) (action : FAction κ π) (onMessage : Option (FCallback κ π)) :
    Option (FRepo κ π) :=
  (match self.realtime with
  | none => some none
  | some realtime => (realtime.sendRequest ⟨self.requestNumber, action⟩).map some).map fun realtime =>
    { self with
      requestNumber := self.requestNumber + 1
      realtime
      requestCBHash := onMessage.elim self.requestCBHash fun callback =>
        setObject self.requestCBHash callback self.requestNumber }

/-- `none` when an assertion fails. -/
def sendAuthAndRestoreStateAfterComplete (self : FRepo κ π) (restoreStateAfterComplete : Bool) :
    Option (FRepo κ π) :=
  if self.isConnected then
    self.authToken.bind fun authToken =>
      self.sendAction (.auth authToken) (some (.auth restoreStateAfterComplete))
  else none

/-- `none` when an assertion fails. -/
def sendPut (self : FRepo κ π) (index : ℕ) : Option (FRepo κ π) :=
  if self.canSendWrites then
    (objectForKey self.outstandingPuts index).bind fun put =>
      self.sendAction (.put put.path put.data) (some (.put index put))
  else none

def sendListen (self : FRepo κ π) (query : FQuerySpec κ π) (listenSpec : ℕ) : Option (FRepo κ π) :=
  (self.sendAction (.listen query) (some (.listen query listenSpec))).map fun self =>
    { self with unackedListensCount := self.unackedListensCount + 1 }

/-- `putInternal:forAction:forPath:withHash:withCallback:`. -/
def putInternal (self : FRepo κ π) (put : FOutstandingPut κ) : Option (FRepo κ π) :=
  let index := self.putCounter
  let self :=
    { self with
      putCounter := index + 1
      outstandingPuts := setObject self.outstandingPuts put index }
  if self.canSendWrites then self.sendPut index else some self

/-- `set:withNode:withCallback:`. -/
def set (self : FRepo κ π) (path : List κ) (node : FNode) : Option (FRepo κ π) :=
  let writeId := self.writeIdCounter
  (self.pendingWriteTree.addOverwriteAtPath path node writeId true).bind fun pendingWriteTree =>
    { self with writeIdCounter := writeId + 1, pendingWriteTree }.putInternal ⟨path, node, writeId⟩

section

variable [DecidableEq π]

/-- `listen:tagId:hash:onComplete:`, `none` when an assertion fails. -/
def listen (self : FRepo κ π) (query : FQuerySpec κ π) : Option (FRepo κ π) :=
  if objectForKey self.listens query = none then
    let listenSpec := self.listenSpecs
    let self :=
      { self with
        listenSpecs := listenSpec + 1
        listens := setObject self.listens listenSpec query }
    if self.isConnected then self.sendListen query listenSpec else some self
  else none

def removeListen (self : FRepo κ π) (query : FQuerySpec κ π) : FRepo κ π :=
  { self with listens := removeObjectForKey self.listens query }

/-- `unlisten:tagId:`. -/
def unlisten (self : FRepo κ π) (query : FQuerySpec κ π) : Option (FRepo κ π) :=
  let outstanding := objectForKey self.listens query
  let self := self.removeListen query
  if outstanding ≠ none ∧ self.isConnected then self.sendAction (.unlisten query) none
  else some self

end

def refreshAuthToken (self : FRepo κ π) (token : Option String) : Option (FRepo κ π) :=
  let self := { self with authToken := token }
  if self.isConnected then
    if token ≠ none then self.sendAuthAndRestoreStateAfterComplete false
    else self.sendAction .unauth none
  else some self

/-! ### Connecting -/

/-- `none` when an assertion fails. -/
def restoreState (self : FRepo κ π) : Option (FRepo κ π) :=
  if self.connectionState = .connected then do
    let self ← self.listens.foldlM
      (fun self outstandingListen => self.sendListen outstandingListen.1 outstandingListen.2) self
    let keys := (self.outstandingPuts.map Prod.fst).insertionSort (· ≤ ·)
    keys.foldlM
      (fun self key =>
        if objectForKey self.outstandingPuts key = none then some self else self.sendPut key)
      self
  else none

/-- `none` when an assertion fails. -/
def restoreAuth (self : FRepo κ π) : Option (FRepo κ π) :=
  if self.connectionState = .connecting then
    if self.authToken = none then { self with connectionState := .connected }.restoreState
    else { self with connectionState := .authenticating }.sendAuthAndRestoreStateAfterComplete true
  else none

def sendConnectStats (self : FRepo κ π) : Option (FRepo κ π) :=
  self.sendAction .stats (some .stats)

/-- `onHandshake:` and `onReady:atTime:sessionID:`. -/
def onReady (self : FRepo κ π) : Option (FRepo κ π) :=
  match self.realtime with
  | some ⟨false, sent⟩ =>
    let self := { self with realtime := some ⟨true, sent⟩ }
    ((if self.firstConnection then self.sendConnectStats else some self).bind restoreAuth).map
      fun self => { self with firstConnection := false }
  | _ => some self

/-- `none` when an assertion fails. -/
def tryScheduleReconnect (self : FRepo κ π) : Option (FRepo κ π) :=
  if self.shouldReconnect then
    if self.connectionState = .disconnected then some { self with scheduledRetry := true } else none
  else some self

/-- The block that `tryScheduleReconnect` hands to `retryHelper`. -/
def retry (self : FRepo κ π) : Option (FRepo κ π) :=
  if self.scheduledRetry then
    if self.connectionState = .disconnected then
      let attempt := self.currentFetchTokenAttempt + 1
      some
        { self with
          scheduledRetry := false
          connectionState := .gettingToken
          currentFetchTokenAttempt := attempt
          fetches := self.fetches ++ [attempt] }
    else none
  else some self

/-- `none` when an assertion fails. -/
def openNetworkConnectionWithToken (self : FRepo κ π) (token : Option String) :
    Option (FRepo κ π) :=
  if self.connectionState = .gettingToken then
    some { self with authToken := token, connectionState := .connecting, realtime := some {} }
  else none

/-- The callback of `fetchTokenForcingRefresh:withCallback:`.  There is no token to fetch when no
user is signed in, and `none` is an error. -/
def tokenFetched (self : FRepo κ π) (attempt : ℕ) (result : Option (Option String)) :
    Option (FRepo κ π) :=
  if attempt ∈ self.fetches then
    let self := { self with fetches := self.fetches.filter (· ≠ attempt) }
    if attempt = self.currentFetchTokenAttempt then
      match result with
      | none => { self with connectionState := .disconnected }.tryScheduleReconnect
      | some token =>
        if self.connectionState = .gettingToken then self.openNetworkConnectionWithToken token
        else if self.connectionState = .disconnected then some self
        else none
    else some self
  else some self

/-- `onDisconnect:withReason:`. -/
def onDisconnect (self : FRepo κ π) : Option (FRepo κ π) :=
  tryScheduleReconnect
    { self with
      connectionState := .disconnected
      realtime := none
      requestCBHash := []
      unackedListensCount := 0 }

/-- `[self.realtime close]`. -/
def close (self : FRepo κ π) : Option (FRepo κ π) :=
  if self.realtime.isSome then self.onDisconnect else some self

def interruptForReason (self : FRepo κ π) (reason : String) : Option (FRepo κ π) :=
  let self :=
    { self with interruptReasons := reason :: self.interruptReasons.filter (· ≠ reason) }
  if self.realtime.isSome then self.close
  else some { self with scheduledRetry := false, connectionState := .disconnected }

def resumeForReason (self : FRepo κ π) (reason : String) : Option (FRepo κ π) :=
  let self := { self with interruptReasons := self.interruptReasons.filter (· ≠ reason) }
  if self.shouldReconnect ∧ self.connectionState = .disconnected then self.tryScheduleReconnect
  else some self

/-- `reachabilityCallback` and `enteringForeground`. -/
def becameReachable (self : FRepo κ π) : Option (FRepo κ π) :=
  if self.connectionState = .disconnected then self.tryScheduleReconnect else some self

/-! ### Messages -/

/-- The completion block of a put: `ackWrite:rerunTransactionsAtPath:status:` and the user's
completion block.  `none` when an assertion of `removeWriteId:` fails. -/
def onComplete (self : FRepo κ π) (put : FOutstandingPut κ) (status : String) :
    Option (FRepo κ π) :=
  let self := { self with completed := self.completed ++ [(put, status)] }
  if status = kFErrorWriteCanceled then some self
  else
    (self.pendingWriteTree.removeWriteId put.writeId).map fun removal =>
      { self with pendingWriteTree := removal.2 }

def ackPuts (self : FRepo κ π) : Option (FRepo κ π) :=
  (self.putsToAck.foldlM
    (fun (self : FRepo κ π) putToAck => self.onComplete putToAck.1 putToAck.2) self).map
      fun self => { self with putsToAck := [] }

section

variable [DecidableEq π]

/-- The blocks in `sendAuthAndRestoreStateAfterComplete:`, `sendListen:` and `sendPut:`.  A put is
the outstanding one when it has the same completion block, and `started` are the listens that the
sync tree starts when it is told that the listen has failed. -/
def callback (self : FRepo κ π) (status : String) (started : List (FQuerySpec κ π)) :
    FCallback κ π → Option (FRepo κ π)
  | .stats => some self
  | .auth restoreStateAfterComplete =>
    let self := { self with connectionState := .connected }
    if status = kFWPResponseForActionStatusOk then
      if restoreStateAfterComplete then self.restoreState else some self
    else { self with authToken := none }.close
  | .listen query listenSpec =>
    (if objectForKey self.listens query = some listenSpec ∧
        status ≠ kFWPResponseForActionStatusOk then
      started.foldlM listen (self.removeListen query)
    else some self).bind fun self =>
      match self.unackedListensCount with
      -- the count is unsigned in the source: it would wrap round where the model stops
      | 0 => none
      | 1 => ackPuts { self with unackedListensCount := 0 }
      | n + 2 => some { self with unackedListensCount := n + 1 }
  | .put index put =>
    if (objectForKey self.outstandingPuts index).map FOutstandingPut.writeId = some put.writeId then
      let self := { self with outstandingPuts := removeObjectForKey self.outstandingPuts index }
      if self.unackedListensCount = 0 then self.onComplete put status
      else some { self with putsToAck := self.putsToAck ++ [(put, status)] }
    else some self

/-- `onDataMessage:withMessage:`, `onDataPushWithAction:andBody:` and
`onConnectionShutdownWithReason:`, `none` when an assertion fails or an exception is raised. -/
def onDataMessage (self : FRepo κ π) (started : List (FQuerySpec κ π)) :
    FServerMessage κ → Option (FRepo κ π)
  | .response requestNumber status =>
    match objectForKey self.requestCBHash requestNumber with
    | none => some self
    | some callback =>
      FRepo.callback
        { self with requestCBHash := removeObjectForKey self.requestCBHash requestNumber }
        status started callback
  | .error _ => none
  | .dataPush => some self
  | .authRevoked => { self with authToken := none }.close
  | .listenRevoked path =>
    let revoked := self.listens.filter fun listen => listen.1.path = path
    let self := { self with listens := self.listens.filter fun listen => listen.1.path ≠ path }
    if revoked = [] then some self else started.foldlM listen self
  | .shutdown => self.interruptForReason kFInterruptReasonServerKill

/-! ### Runs -/

/-- What is asked of the client, and what happens to its connection. -/
inductive Call (κ π : Type*)
  | set (path : List κ) (node : FNode)
  | listen (query : FQuerySpec κ π)
  | unlisten (query : FQuerySpec κ π)
  | refreshAuthToken (token : Option String)
  | interrupt (reason : String)
  | resume (reason : String)
  | reachable
  | retry
  | tokenFetched (attempt : ℕ) (result : Option (Option String))
  | ready
  | close

inductive Event (κ π : Type*)
  | call (call : Call κ π)
  | message (message : FServerMessage κ) (started : List (FQuerySpec κ π))

def perform (self : FRepo κ π) : Call κ π → Option (FRepo κ π)
  | .set path node => self.set path node
  | .listen query => self.listen query
  | .unlisten query => self.unlisten query
  | .refreshAuthToken token => self.refreshAuthToken token
  | .interrupt reason => self.interruptForReason reason
  | .resume reason => self.resumeForReason reason
  | .reachable => self.becameReachable
  | .retry => self.retry
  | .tokenFetched attempt result => self.tokenFetched attempt result
  | .ready => self.onReady
  | .close => self.close

/-- A message comes on a connection that has not been closed. -/
def step (self : FRepo κ π) : Event κ π → Option (FRepo κ π)
  | .call call => self.perform call
  | .message message started =>
    if self.realtime.isSome then self.onDataMessage started message else some self

/-- The listens that a message leaves, before the sync tree starts new ones. -/
def listensAfter (self : FRepo κ π) : FServerMessage κ → List (FQuerySpec κ π × ℕ)
  | .response requestNumber _ =>
    match objectForKey self.requestCBHash requestNumber with
    | some (.listen query _) => removeObjectForKey self.listens query
    | _ => self.listens
  | .listenRevoked path => self.listens.filter fun listen => listen.1.path ≠ path
  | _ => self.listens

end

end FRepo

/-! ## Dictionaries that are filled in the order of a counter -/

namespace NSMutableDictionary

variable {β : Type*} {d d' : List (ℕ × β)} {k next : ℕ} {v : β} {entry : ℕ × β}

/-- The keys increase, and the next one is the number. -/
structure Numbered (d : List (ℕ × β)) (next : ℕ) : Prop where
  pairwise : d.Pairwise fun a b => a.1 < b.1
  lt : ∀ entry ∈ d, entry.1 < next

theorem numbered_nil (next : ℕ) : Numbered ([] : List (ℕ × β)) next := ⟨.nil, by simp⟩

theorem Numbered.of_cons (h : Numbered (entry :: d) next) : Numbered d next :=
  ⟨(List.pairwise_cons.1 h.pairwise).2, fun e he => h.lt e (List.mem_cons_of_mem entry he)⟩

theorem Numbered.concat (h : Numbered d next) (v : β) : Numbered (d ++ [(next, v)]) (next + 1) where
  pairwise := by
    refine List.pairwise_append.2 ⟨h.pairwise, List.pairwise_singleton _ _, fun e he e' he' => ?_⟩
    rw [List.mem_singleton.1 he']
    exact h.lt e he
  lt e he := by
    rcases List.mem_append.1 he with he | he
    · exact (h.lt e he).trans (Nat.lt_succ_self next)
    · rw [List.mem_singleton.1 he]
      exact Nat.lt_succ_self next

theorem removeObjectForKey_of_ne (h : ∀ entry ∈ d, entry.1 ≠ k) : removeObjectForKey d k = d :=
  List.filter_eq_self.2 fun entry hentry => decide_eq_true (h entry hentry)

theorem Numbered.setObject (h : Numbered d next) (v : β) :
    setObject d v next = d ++ [(next, v)] := by
  unfold NSMutableDictionary.setObject
  rw [removeObjectForKey_of_ne fun entry hentry => (h.lt entry hentry).ne]

theorem Numbered.removeObjectForKey (h : Numbered d next) (k : ℕ) :
    Numbered (removeObjectForKey d k) next :=
  ⟨h.pairwise.sublist List.filter_sublist, fun e he => h.lt e (List.mem_of_mem_filter he)⟩

/-- The oldest entry is removed. -/
theorem Numbered.removeObjectForKey_cons (h : Numbered ((k, v) :: d) next) :
    NSMutableDictionary.removeObjectForKey ((k, v) :: d) k = d := by
  have hd : NSMutableDictionary.removeObjectForKey d k = d := removeObjectForKey_of_ne
    fun entry hentry => ((List.pairwise_cons.1 h.pairwise).1 entry hentry).ne'
  unfold NSMutableDictionary.removeObjectForKey at hd ⊢
  rw [List.filter_cons_of_neg (by simp), hd]

theorem objectForKey_cons_self : objectForKey ((k, v) :: d) k = some v := by
  unfold objectForKey
  rw [List.find?_cons_of_pos (by simp)]
  rfl

theorem objectForKey_cons_of_ne (h : entry.1 ≠ k) :
    objectForKey (entry :: d) k = objectForKey d k := by
  unfold objectForKey
  rw [List.find?_cons_of_neg (by simpa using h)]

theorem mem_of_objectForKey (h : objectForKey d k = some v) : (k, v) ∈ d := by
  obtain ⟨entry, hentry, rfl⟩ := Option.map_eq_some_iff.1 h
  obtain rfl : entry.1 = k := by simpa using List.find?_some hentry
  exact List.mem_of_find?_eq_some hentry

theorem Numbered.objectForKey (h : Numbered d next) (hv : (k, v) ∈ d) :
    objectForKey d k = some v := by
  induction d with
  | nil => exact nomatch hv
  | cons entry d ih =>
    rcases List.mem_cons.1 hv with rfl | hv
    · exact objectForKey_cons_self
    · rw [objectForKey_cons_of_ne ((List.pairwise_cons.1 h.pairwise).1 (k, v) hv).ne]
      exact ih h.of_cons hv

/-- The entry of a key, and the others. -/
theorem Numbered.perm (h : Numbered d next) (hv : NSMutableDictionary.objectForKey d k = some v) :
    d.Perm ((k, v) :: NSMutableDictionary.removeObjectForKey d k) := by
  induction d with
  | nil => exact nomatch hv
  | cons entry d ih =>
    by_cases hk : entry.1 = k
    · obtain ⟨k', v'⟩ := entry
      obtain rfl : k' = k := hk
      rw [objectForKey_cons_self] at hv
      obtain rfl := Option.some.inj hv
      rw [h.removeObjectForKey_cons]
    · rw [objectForKey_cons_of_ne hk] at hv
      have hremove : NSMutableDictionary.removeObjectForKey (entry :: d) k =
          entry :: NSMutableDictionary.removeObjectForKey d k :=
        List.filter_cons_of_pos (by simpa using hk)
      rw [hremove]
      exact ((ih h.of_cons hv).cons entry).trans (List.Perm.swap ..)

section

variable {α : Type*} [DecidableEq α] {d : List (α × β)} {key key' : α}

theorem objectForKey_eq_none_iff :
    objectForKey d key = none ↔ ∀ entry ∈ d, entry.1 ≠ key := by
  unfold objectForKey
  rw [Option.map_eq_none_iff, List.find?_eq_none]
  simp

theorem objectForKey_setObject_of_ne (h : objectForKey d key' = none) (hne : key' ≠ key) :
    objectForKey (setObject d v key) key' = none := by
  rw [objectForKey_eq_none_iff] at h ⊢
  intro entry hentry
  rcases List.mem_append.1 hentry with hentry | hentry
  · exact h entry (List.mem_of_mem_filter hentry)
  · rw [List.mem_singleton.1 hentry]
    exact hne.symm

theorem objectForKey_filter (h : objectForKey d key = none) (p : α × β → Bool) :
    objectForKey (d.filter p) key = none := by
  rw [objectForKey_eq_none_iff] at h ⊢
  exact fun entry hentry => h entry (List.mem_of_mem_filter hentry)

end

theorem Numbered.insertionSort (h : Numbered d next) :
    (d.map Prod.fst).insertionSort (· ≤ ·) = d.map Prod.fst :=
  List.Pairwise.insertionSort_eq (List.pairwise_map.2 (h.pairwise.imp le_of_lt))

end NSMutableDictionary

/-! ## What the client sends -/

def FAction.put? : FAction κ π → Option (List κ × FNode)
  | .put path data => some (path, data)
  | _ => none

def FRequest.put? (request : FRequest κ π) : Option (List κ × FNode) := request.action.put?

def FOutstandingPut.request (put : FOutstandingPut κ) : List κ × FNode := (put.path, put.data)

namespace FCallback

def isListen : FCallback κ π → Bool
  | .listen _ _ => true
  | _ => false

def put? : FCallback κ π → Option (ℕ × FOutstandingPut κ)
  | .put index outstanding => some (index, outstanding)
  | _ => none

def auth? : FCallback κ π → Option Bool
  | .auth restoreStateAfterComplete => some restoreStateAfterComplete
  | _ => none

/-- The callback belongs to a request for the action. -/
def Fits (callback : FCallback κ π) (action : FAction κ π) : Prop :=
  action.put? = callback.put?.map fun entry => entry.2.request

end FCallback

/-- The puts that wait for a response. -/
def sentPuts (callbacks : List (ℕ × FCallback κ π)) : List (ℕ × FOutstandingPut κ) :=
  callbacks.filterMap fun entry => entry.2.put?

/-- How many listens wait for a response. -/
def sentListens (callbacks : List (ℕ × FCallback κ π)) : ℕ :=
  callbacks.countP fun entry => entry.2.isListen

/-- Requests with consecutive numbers, from the first one to the second one, and the callbacks that
wait for their responses. -/
inductive Asks : ℕ → ℕ → List (ℕ × FCallback κ π) → List (FRequest κ π) → Prop
  | nil (n : ℕ) : Asks n n [] []
  | silent {n m : ℕ} {callbacks requests} {action : FAction κ π} (haction : action.put? = none)
    (h : Asks (n + 1) m callbacks requests) : Asks n m callbacks (⟨n, action⟩ :: requests)
  | asked {n m : ℕ} {callbacks requests} {callback : FCallback κ π} {action : FAction κ π}
    (hfits : callback.Fits action) (h : Asks (n + 1) m callbacks requests) :
    Asks n m ((n, callback) :: callbacks) (⟨n, action⟩ :: requests)

section Asks

variable {lo mid hi : ℕ} {callbacks callbacks' d : List (ℕ × FCallback κ π)}
  {requests requests' : List (FRequest κ π)}

theorem sentPuts_cons_of_none {entry : ℕ × FCallback κ π} (h : entry.2.put? = none) :
    sentPuts (entry :: callbacks) = sentPuts callbacks :=
  List.filterMap_cons_none h

theorem sentPuts_cons_of_some {entry : ℕ × FCallback κ π} {put : ℕ × FOutstandingPut κ}
    (h : entry.2.put? = some put) : sentPuts (entry :: callbacks) = put :: sentPuts callbacks :=
  List.filterMap_cons_some h

theorem sentPuts_append :
    sentPuts (callbacks ++ callbacks') = sentPuts callbacks ++ sentPuts callbacks' :=
  List.filterMap_append

theorem sentPuts_eq_nil (h : ∀ entry ∈ callbacks, entry.2.isListen = true) :
    sentPuts callbacks = [] := by
  refine List.filterMap_eq_nil_iff.2 fun entry hentry => ?_
  have hlisten := h entry hentry
  cases hcallback : entry.2 <;> simp_all [FCallback.isListen, FCallback.put?]

theorem auth?_of_isListen (h : ∀ entry ∈ callbacks, entry.2.isListen = true) :
    ∀ entry ∈ callbacks, entry.2.auth? ≠ some true := by
  intro entry hentry
  have hlisten := h entry hentry
  cases hcallback : entry.2 <;> simp_all [FCallback.isListen, FCallback.auth?]

theorem sentListens_append :
    sentListens (callbacks ++ callbacks') = sentListens callbacks + sentListens callbacks' :=
  List.countP_append

theorem sentListens_removeObjectForKey {n next : ℕ} {callback : FCallback κ π}
    (h : Numbered d next) (hcallback : objectForKey d n = some callback) :
    sentListens d = sentListens (removeObjectForKey d n) + if callback.isListen then 1 else 0 :=
  ((h.perm hcallback).countP_eq _).trans (List.countP_cons ..)

theorem Asks.append (h : Asks lo mid callbacks requests) (h' : Asks mid hi callbacks' requests') :
    Asks lo hi (callbacks ++ callbacks') (requests ++ requests') := by
  induction h with
  | nil => exact h'
  | silent haction _ ih => exact .silent haction (ih h')
  | asked hfits _ ih => exact .asked hfits (ih h')

theorem Asks.eq_of_nil (h : Asks lo hi callbacks []) : callbacks = [] ∧ lo = hi := by
  cases h
  exact ⟨rfl, rfl⟩

/-- The callbacks go after those that have been there before. -/
theorem Asks.numbered (h : Asks lo hi callbacks requests) (hd : Numbered d lo) :
    Numbered (d ++ callbacks) hi := by
  induction h generalizing d with
  | nil => rwa [List.append_nil]
  | silent _ _ ih => exact ih ⟨hd.pairwise, fun e he => (hd.lt e he).trans (Nat.lt_succ_self _)⟩
  | @asked n m _ _ callback _ hfits _ ih =>
    rw [← List.singleton_append, ← List.append_assoc]
    exact ih (hd.concat callback)

/-- The puts on their way are those that wait for a response. -/
theorem Asks.put? (h : Asks lo hi callbacks requests) :
    requests.filterMap FRequest.put? = (sentPuts callbacks).map fun entry => entry.2.request := by
  induction h with
  | nil => rfl
  | @silent n _ _ _ action haction _ ih =>
    have hput : FRequest.put? ⟨n, action⟩ = none := haction
    rw [List.filterMap_cons_none hput, ih]
  | @asked n m callbacks _ callback action hfits _ ih =>
    have hput : FRequest.put? ⟨n, action⟩ = callback.put?.map fun entry => entry.2.request := hfits
    cases hcallback : callback.put? with
    | none =>
      rw [hcallback] at hput
      rw [List.filterMap_cons_none hput, sentPuts_cons_of_none hcallback, ih]
    | some entry =>
      rw [hcallback] at hput
      rw [List.filterMap_cons_some hput, sentPuts_cons_of_some hcallback, ih, List.map_cons]

end Asks

namespace FRepo

variable [TreeKey κ] {c c' c'' : FRepo κ π}
  {callbacks callbacks' : List (ℕ × FCallback κ π)}

/-- Requests can be sent. -/
def IsOpen (c : FRepo κ π) : Prop := ∃ sent, c.realtime = some ⟨true, sent⟩

/-- The requests are sent on the connection, if there are any. -/
inductive Carries :
    Option (FConnection κ π) → List (FRequest κ π) → Option (FConnection κ π) → Prop
  | nothing (realtime : Option (FConnection κ π)) : Carries realtime [] realtime
  | sent (sent requests : List (FRequest κ π)) :
    Carries (some ⟨true, sent⟩) requests (some ⟨true, sent ++ requests⟩)

/-- The client does nothing but send requests, wait for their responses and change its listens. -/
def Sends (c : FRepo κ π) (callbacks : List (ℕ × FCallback κ π)) (c' : FRepo κ π) : Prop :=
  ∃ requests realtime n listens listenSpecs, Carries c.realtime requests realtime ∧
    Asks c.requestNumber n callbacks requests ∧
    c' =
      { c with
        realtime, listens, listenSpecs
        requestNumber := n
        requestCBHash := c.requestCBHash ++ callbacks
        unackedListensCount := c.unackedListensCount + sentListens callbacks }

theorem sends_listens (c : FRepo κ π) (listens : List (FQuerySpec κ π × ℕ)) (listenSpecs : ℕ) :
    c.Sends [] { c with listens, listenSpecs } :=
  ⟨[], c.realtime, c.requestNumber, listens, listenSpecs, .nothing _, .nil _, by simp [sentListens]⟩

theorem sends_refl (c : FRepo κ π) : c.Sends [] c := c.sends_listens _ _

theorem Sends.trans (h : c.Sends callbacks c') (h' : c'.Sends callbacks' c'') :
    c.Sends (callbacks ++ callbacks') c'' := by
  obtain ⟨requests, realtime, n, listens, listenSpecs, hcarries, hasks, rfl⟩ := h
  obtain ⟨requests', realtime', n', listens', listenSpecs', hcarries', hasks', rfl⟩ := h'
  refine ⟨requests ++ requests', realtime', n', listens', listenSpecs', ?_, hasks.append hasks', ?_⟩
  · generalize hreal : c.realtime = realtime₀ at hcarries
    cases hcarries with
    | nothing => exact hcarries'
    | sent sent =>
      dsimp only at hcarries'
      cases hcarries' with
      | nothing => rw [List.append_nil]; exact .sent sent requests
      | sent => rw [List.append_assoc]; exact .sent sent (requests ++ requests')
  · simp only [List.append_assoc, sentListens_append, Nat.add_assoc]

theorem Sends.numbered (h : c.Sends callbacks c')
    (hnumbered : Numbered c.requestCBHash c.requestNumber) :
    Numbered c'.requestCBHash c'.requestNumber := by
  obtain ⟨requests, realtime, n, listens, listenSpecs, -, hasks, rfl⟩ := h
  exact hasks.numbered hnumbered

theorem Sends.isOpen (h : c.Sends callbacks c') (hopen : c.IsOpen) : c'.IsOpen := by
  obtain ⟨requests, realtime, n, listens, listenSpecs, hcarries, -, rfl⟩ := h
  obtain ⟨sent, hsent⟩ := hopen
  rw [hsent] at hcarries
  cases hcarries with
  | nothing => exact ⟨sent, rfl⟩
  | sent _ requests => exact ⟨sent ++ requests, rfl⟩

theorem Sends.connectionState (h : c.Sends callbacks c') :
    c'.connectionState = c.connectionState := by
  obtain ⟨requests, realtime, n, listens, listenSpecs, -, -, rfl⟩ := h
  rfl

theorem Sends.outstandingPuts (h : c.Sends callbacks c') :
    c'.outstandingPuts = c.outstandingPuts := by
  obtain ⟨requests, realtime, n, listens, listenSpecs, -, -, rfl⟩ := h
  rfl

/-! ### Requests -/

theorem sends_of_asks {sent requests : List (FRequest κ π)} {n : ℕ}
    (hsent : c.realtime = some ⟨true, sent⟩)
    (hasks : Asks c.requestNumber n callbacks requests) :
    c.Sends callbacks
      { c with
        requestNumber := n
        realtime := some ⟨true, sent ++ requests⟩
        requestCBHash := c.requestCBHash ++ callbacks
        unackedListensCount := c.unackedListensCount + sentListens callbacks } := by
  refine ⟨requests, _, n, c.listens, c.listenSpecs, ?_, hasks, rfl⟩
  rw [hsent]
  exact .sent sent requests

theorem sendAction_of_open {sent : List (FRequest κ π)} (hsent : c.realtime = some ⟨true, sent⟩)
    (hnumbered : Numbered c.requestCBHash c.requestNumber) (action : FAction κ π)
    (callback : FCallback κ π) : c.sendAction action (some callback) = some
      { c with
        requestNumber := c.requestNumber + 1
        realtime := some ⟨true, sent ++ [⟨c.requestNumber, action⟩]⟩
        requestCBHash := c.requestCBHash ++ [(c.requestNumber, callback)] } := by
  unfold sendAction
  rw [hsent, Option.elim_some, hnumbered.setObject]
  rfl

theorem sends_sendAction (hopen : c.IsOpen)
    (hnumbered : Numbered c.requestCBHash c.requestNumber) (action : FAction κ π)
    (callback : FCallback κ π) (hfits : callback.Fits action) (hlisten : callback.isListen = false) :
    ∃ c', c.sendAction action (some callback) = some c' ∧
      c.Sends [(c.requestNumber, callback)] c' := by
  obtain ⟨sent, hsent⟩ := hopen
  have hcount : sentListens [(c.requestNumber, callback)] = 0 := by
    simp [sentListens, hlisten]
  have hsends := sends_of_asks hsent (.asked hfits (.nil (c.requestNumber + 1)))
  rw [hcount] at hsends
  exact ⟨_, sendAction_of_open hsent hnumbered action callback, hsends⟩

theorem sends_silently (hopen : c.IsOpen) (action : FAction κ π) (haction : action.put? = none) :
    ∃ c', c.sendAction action none = some c' ∧ c.Sends [] c' := by
  obtain ⟨sent, hsent⟩ := hopen
  have hsends := sends_of_asks hsent (.silent haction (.nil (c.requestNumber + 1)))
  refine ⟨_, ?_, hsends⟩
  unfold sendAction
  rw [hsent, List.append_nil]
  rfl

theorem sends_sendListen (hopen : c.IsOpen)
    (hnumbered : Numbered c.requestCBHash c.requestNumber) (query : FQuerySpec κ π)
    (listenSpec : ℕ) : ∃ c', c.sendListen query listenSpec = some c' ∧
      c.Sends [(c.requestNumber, .listen query listenSpec)] c' := by
  obtain ⟨sent, hsent⟩ := hopen
  have hfits : (FCallback.listen query listenSpec).Fits (.listen query) := rfl
  have hsends := sends_of_asks hsent (.asked hfits (.nil (c.requestNumber + 1)))
  refine ⟨_, ?_, hsends⟩
  unfold sendListen
  rw [sendAction_of_open hsent hnumbered]
  rfl

theorem sends_sendPut (hopen : c.IsOpen)
    (hnumbered : Numbered c.requestCBHash c.requestNumber)
    (hconnected : c.connectionState = .connected) {index : ℕ} {put : FOutstandingPut κ}
    (hput : objectForKey c.outstandingPuts index = some put) :
    ∃ c', c.sendPut index = some c' ∧
      c.Sends [(c.requestNumber, .put index put)] c' := by
  obtain ⟨c', hsend, hsends⟩ := sends_sendAction hopen hnumbered
    (.put put.path put.data) (.put index put) rfl rfl
  refine ⟨c', ?_, hsends⟩
  unfold sendPut canSendWrites
  rw [if_pos (decide_eq_true hconnected), hput]
  exact hsend

theorem sends_sendAuth (hopen : c.IsOpen)
    (hnumbered : Numbered c.requestCBHash c.requestNumber) (hconnected : c.isConnected)
    {authToken : String} (htoken : c.authToken = some authToken) (restore : Bool) :
    ∃ c', c.sendAuthAndRestoreStateAfterComplete restore = some c' ∧
      c.Sends [(c.requestNumber, .auth restore)] c' := by
  obtain ⟨c', hsend, hsends⟩ := sends_sendAction hopen hnumbered
    (.auth authToken) (.auth restore) rfl rfl
  refine ⟨c', ?_, hsends⟩
  unfold sendAuthAndRestoreStateAfterComplete
  rw [if_pos hconnected, htoken]
  exact hsend

/-! ### Listens, and the state of a new connection -/

/-- All listens are sent again. -/
theorem sends_listens_again (c : FRepo κ π) (hopen : c.IsOpen)
    (hnumbered : Numbered c.requestCBHash c.requestNumber)
    (listens : List (FQuerySpec κ π × ℕ)) :
    ∃ c' callbacks,
      listens.foldlM (fun (c : FRepo κ π) listen => c.sendListen listen.1 listen.2) c =
        some c' ∧
      c.Sends callbacks c' ∧ ∀ entry ∈ callbacks, entry.2.isListen = true := by
  induction listens generalizing c with
  | nil => exact ⟨c, [], rfl, sends_refl c, by simp⟩
  | cons listen listens ih =>
    obtain ⟨c₁, hsend, hsends⟩ := sends_sendListen hopen hnumbered listen.1 listen.2
    obtain ⟨c', callbacks, hfold, hsends', hlistens⟩ :=
      ih c₁ (hsends.isOpen hopen) (hsends.numbered hnumbered)
    refine ⟨c', _, ?_, hsends.trans hsends', ?_⟩
    · rw [List.foldlM_cons, hsend]
      exact hfold
    · simpa [FCallback.isListen] using hlistens

/-- All outstanding puts are sent again in the order of their indices. -/
theorem sends_puts_again (c : FRepo κ π) (hopen : c.IsOpen)
    (hnumbered : Numbered c.requestCBHash c.requestNumber)
    (hconnected : c.connectionState = .connected) (puts : List (ℕ × FOutstandingPut κ))
    (hputs : ∀ entry ∈ puts, objectForKey c.outstandingPuts entry.1 = some entry.2) :
    ∃ c' callbacks,
      (puts.map Prod.fst).foldlM
        (fun (c : FRepo κ π) key =>
          if objectForKey c.outstandingPuts key = none then some c else c.sendPut key)
        c = some c' ∧
      c.Sends callbacks c' ∧ sentPuts callbacks = puts ∧
      ∀ entry ∈ callbacks, entry.2.put?.isSome := by
  induction puts generalizing c with
  | nil => exact ⟨c, [], rfl, sends_refl c, rfl, by simp⟩
  | cons entry puts ih =>
    obtain ⟨hentry, hputs⟩ := List.forall_mem_cons.1 hputs
    obtain ⟨c₁, hsend, hsends⟩ := sends_sendPut hopen hnumbered hconnected hentry
    obtain ⟨c', callbacks, hfold, hsends', hcallbacks, hall⟩ :=
      ih c₁ (hsends.isOpen hopen) (hsends.numbered hnumbered)
        (hsends.connectionState.trans hconnected) fun e he => by
          rw [hsends.outstandingPuts]
          exact hputs e he
    refine ⟨c', _, ?_, hsends.trans hsends', ?_, ?_⟩
    · rw [List.map_cons, List.foldlM_cons, hentry, if_neg (Option.some_ne_none _), hsend]
      exact hfold
    · rw [List.singleton_append, sentPuts_cons_of_some rfl, hcallbacks]
    · simpa [FCallback.put?] using hall

/-- What a client sends that begins to be connected: its listens, and then its outstanding puts. -/
theorem sends_restoreState (hopen : c.IsOpen)
    (hnumbered : Numbered c.requestCBHash c.requestNumber)
    (hconnected : c.connectionState = .connected)
    (hputs : Numbered c.outstandingPuts c.putCounter) :
    ∃ c' callbacks, c.restoreState = some c' ∧ c.Sends callbacks c' ∧
      sentPuts callbacks = c.outstandingPuts ∧ ∀ entry ∈ callbacks, entry.2.auth? = none := by
  obtain ⟨c₁, callbacks, hlisten, hsends, hlistens⟩ :=
    sends_listens_again c hopen hnumbered c.listens
  obtain ⟨c', callbacks', hputs', hsends', hsent, hall⟩ :=
    sends_puts_again c₁ (hsends.isOpen hopen) (hsends.numbered hnumbered)
      (hsends.connectionState.trans hconnected) c.outstandingPuts fun entry hentry => by
        rw [hsends.outstandingPuts]
        exact hputs.objectForKey hentry
  refine ⟨c', callbacks ++ callbacks', ?_, hsends.trans hsends', ?_, ?_⟩
  · unfold restoreState
    rw [if_pos hconnected, hlisten]
    dsimp only [Option.bind_eq_bind, Option.bind_some]
    rw [hsends.outstandingPuts, hputs.insertionSort]
    exact hputs'
  · rw [sentPuts_append, sentPuts_eq_nil hlistens, hsent, List.nil_append]
  · intro entry hentry
    rcases List.mem_append.1 hentry with hentry | hentry
    · have hlisten := hlistens entry hentry
      cases hcallback : entry.2 <;> simp_all [FCallback.isListen, FCallback.auth?]
    · have hput := hall entry hentry
      cases hcallback : entry.2 <;> simp_all [FCallback.put?, FCallback.auth?]

theorem sends_refreshAuthToken (hopen : c.isConnected → c.IsOpen)
    (hnumbered : Numbered c.requestCBHash c.requestNumber) (token : Option String) :
    ∃ c' callbacks, c.refreshAuthToken token = some c' ∧
      Sends { c with authToken := token } callbacks c' ∧
      ∀ entry ∈ callbacks, entry.2 = .auth false := by
  unfold refreshAuthToken
  by_cases hconnected : c.isConnected
  · rw [if_pos (show FRepo.isConnected { c with authToken := token } = true from hconnected)]
    cases token with
    | none =>
      obtain ⟨c', hsend, hsends⟩ := sends_silently (c := { c with authToken := none })
        (hopen hconnected) .unauth rfl
      exact ⟨c', [], hsend, hsends, by simp⟩
    | some token =>
      obtain ⟨c', hsend, hsends⟩ := sends_sendAuth (c := { c with authToken := some token })
        (hopen hconnected) hnumbered hconnected rfl false
      exact ⟨c', _, hsend, hsends, by simp⟩
  · rw [if_neg (show ¬ FRepo.isConnected { c with authToken := token } = true from hconnected)]
    exact ⟨_, [], rfl, sends_refl _, by simp⟩

section

variable [DecidableEq π]

theorem sends_listen (hopen : c.isConnected → c.IsOpen)
    (hnumbered : Numbered c.requestCBHash c.requestNumber) {query : FQuerySpec κ π}
    (hquery : objectForKey c.listens query = none) :
    ∃ c' callbacks, c.listen query = some c' ∧ c.Sends callbacks c' ∧
      (∀ entry ∈ callbacks, entry.2.isListen = true) ∧
      ∃ listenSpec, c'.listens = setObject c.listens listenSpec query := by
  let c₁ : FRepo κ π :=
    { c with
      listenSpecs := c.listenSpecs + 1
      listens := setObject c.listens c.listenSpecs query }
  have hlisten : c.listen query = if c₁.isConnected then
      c₁.sendListen query c.listenSpecs else some c₁ := if_pos hquery
  have hsends₁ : c.Sends [] c₁ := c.sends_listens _ _
  rw [hlisten]
  by_cases hconnected : c.isConnected
  · obtain ⟨sent, hsent⟩ := hopen hconnected
    have hsend : c₁.sendListen query c.listenSpecs = _ :=
      congrArg (Option.map _) (sendAction_of_open (c := c₁) hsent hnumbered _ _)
    obtain ⟨c', hsend', hsends⟩ := sends_sendListen (hsends₁.isOpen ⟨sent, hsent⟩)
      (hsends₁.numbered hnumbered) query c.listenSpecs
    obtain rfl := Option.some.inj (hsend.symm.trans hsend')
    refine ⟨_, _, (if_pos hconnected).trans hsend, hsends₁.trans hsends, ?_, c.listenSpecs, rfl⟩
    simp [FCallback.isListen]
  · exact ⟨c₁, [], if_neg hconnected, hsends₁, by simp, c.listenSpecs, rfl⟩

theorem sends_unlisten (hopen : c.isConnected → c.IsOpen) (query : FQuerySpec κ π) :
    ∃ c', c.unlisten query = some c' ∧ c.Sends [] c' := by
  have hsends : c.Sends [] (c.removeListen query) := c.sends_listens _ _
  unfold unlisten
  dsimp only
  split_ifs with h
  · obtain ⟨c', hsend, hsends'⟩ :=
      sends_silently (hsends.isOpen (hopen h.2)) (.unlisten query) rfl
    exact ⟨c', hsend, hsends.trans hsends'⟩
  · exact ⟨_, rfl, hsends⟩

end

end FRepo

end IndoorFarm
