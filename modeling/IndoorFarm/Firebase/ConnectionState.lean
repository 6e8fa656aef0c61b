import IndoorFarm.Firebase.PersistentConnection

/-!
# The states of a connection

`Wired` says what holds of a client's connection in each of its states, and `Moves` what a call does
that issues no put: requests are sent, the connection is given up, or it becomes ready and
everything is sent that waits for it.

* `exists_onReady`, `exists_tokenFetched`, …: no assertion of the call fails, and `Wired` holds
  after it.
-/

namespace IndoorFarm

open NSMutableDictionary

variable {κ π : Type*}

namespace FRepo

variable [TreeKey κ] {c c' c₁ : FRepo κ π} {callbacks : List (ℕ × FCallback κ π)} {due : ℕ}

/-- The connection that the client has in each of its states. -/
def OpenAs : ConnectionState → Option (FConnection κ π) → Prop
  | .disconnected, realtime => realtime = none
  | .gettingToken, realtime => realtime = none
  | .connecting, realtime => realtime = some {}
  | .authenticating, realtime => ∃ sent, realtime = some ⟨true, sent⟩
  | .connected, realtime => ∃ sent, realtime = some ⟨true, sent⟩

/-- What holds of the connection; the responses to some listens are being dealt with. -/
structure Wired (c : FRepo κ π) (due : ℕ) : Prop where
  realtime : OpenAs c.connectionState c.realtime
  scheduled : c.scheduledRetry = true → c.connectionState = .disconnected
  fetches : ∀ attempt ∈ c.fetches, attempt ≤ c.currentFetchTokenAttempt
  fetching : c.currentFetchTokenAttempt ∈ c.fetches → c.realtime = none
  idle : c.isConnected = false → c.requestCBHash = []
  numbered : Numbered c.requestCBHash c.requestNumber
  unacked : c.unackedListensCount = sentListens c.requestCBHash + due

/-- The puts are the same. -/
structure SamePuts (c c' : FRepo κ π) : Prop where
  writeIdCounter : c'.writeIdCounter = c.writeIdCounter
  pendingWriteTree : c'.pendingWriteTree = c.pendingWriteTree
  completed : c'.completed = c.completed
  putCounter : c'.putCounter = c.putCounter
  outstandingPuts : c'.outstandingPuts = c.outstandingPuts
  putsToAck : c'.putsToAck = c.putsToAck

theorem samePuts_refl (c : FRepo κ π) : SamePuts c c := ⟨rfl, rfl, rfl, rfl, rfl, rfl⟩

theorem SamePuts.trans {c'' : FRepo κ π} (h : SamePuts c c') (h' : SamePuts c' c'') :
    SamePuts c c'' :=
  ⟨h'.writeIdCounter.trans h.writeIdCounter, h'.pendingWriteTree.trans h.pendingWriteTree,
    h'.completed.trans h.completed, h'.putCounter.trans h.putCounter,
    h'.outstandingPuts.trans h.outstandingPuts, h'.putsToAck.trans h.putsToAck⟩

theorem Sends.samePuts (h : c.Sends callbacks c') : SamePuts c c' := by
  obtain ⟨requests, realtime, n, listens, listenSpecs, -, -, rfl⟩ := h
  exact ⟨rfl, rfl, rfl, rfl, rfl, rfl⟩

theorem isConnected_iff :
    c.isConnected = true ↔
      c.connectionState = .authenticating ∨ c.connectionState = .connected := by
  simp [isConnected]

theorem Wired.isOpen (h : c.Wired due) (hconnected : c.isConnected = true) : c.IsOpen := by
  have hreal := h.realtime
  rcases isConnected_iff.1 hconnected with hstate | hstate <;> rw [hstate] at hreal <;> exact hreal

theorem Wired.isConnected_of_isOpen (h : c.Wired due) (hopen : c.IsOpen) :
    c.isConnected = true := by
  obtain ⟨sent, hsent⟩ := hopen
  have hreal := h.realtime
  rw [hsent] at hreal
  cases hstate : c.connectionState <;> rw [hstate] at hreal
  · exact nomatch hreal
  · exact nomatch hreal
  · exact nomatch hreal
  · exact isConnected_iff.2 (Or.inl hstate)
  · exact isConnected_iff.2 (Or.inr hstate)

theorem Wired.isConnected_of_mem (h : c.Wired due) {entry : ℕ × FCallback κ π}
    (hentry : entry ∈ c.requestCBHash) : c.isConnected = true := by
  by_contra hconnected
  rw [h.idle (Bool.eq_false_iff.2 hconnected)] at hentry
  exact nomatch hentry

theorem Wired.sends (h : c.Wired due) (hsends : c.Sends callbacks c') :
    c'.Wired due := by
  have hnumbered := hsends.numbered h.numbered
  obtain ⟨requests, realtime, n, listens, listenSpecs, hcarries, hasks, rfl⟩ := hsends
  generalize hreal : c.realtime = realtime₀ at hcarries
  have hunacked : c.unackedListensCount + sentListens callbacks =
      sentListens (c.requestCBHash ++ callbacks) + due := by
    rw [sentListens_append, h.unacked]
    omega
  cases hcarries with
  | nothing =>
    obtain ⟨rfl, -⟩ := hasks.eq_of_nil
    subst hreal
    refine ⟨h.realtime, h.scheduled, h.fetches, h.fetching, fun hoff => ?_, hnumbered, hunacked⟩
    exact (List.append_nil _).trans (h.idle hoff)
  | sent sent =>
    have hconnected := h.isConnected_of_isOpen ⟨sent, hreal⟩
    refine ⟨?_, h.scheduled, h.fetches, fun hfetching => ?_, fun hoff => ?_, hnumbered, hunacked⟩
    · rcases isConnected_iff.1 hconnected with hstate | hstate <;> dsimp only <;> rw [hstate] <;>
        exact ⟨_, rfl⟩
    · exact nomatch hreal.symm.trans (h.fetching hfetching)
    · exact absurd (hconnected.symm.trans hoff) nofun

theorem Wired.not_isConnected (h : c.Wired due) (hreal : c.realtime = none) :
    c.isConnected = false := by
  by_contra hconnected
  obtain ⟨sent, hsent⟩ := h.isOpen (Bool.not_eq_false _ ▸ hconnected)
  exact nomatch hreal.symm.trans hsent

/-! ### Calls -/

/-- The connection is the same, and what waits for a response on it. -/
structure SameWires (c c' : FRepo κ π) : Prop extends SamePuts c c' where
  connectionState : c'.connectionState = c.connectionState
  realtime : c'.realtime = c.realtime
  requestCBHash : c'.requestCBHash = c.requestCBHash
  requestNumber : c'.requestNumber = c.requestNumber
  unackedListensCount : c'.unackedListensCount = c.unackedListensCount

/-- What a client sends that has just been connected: its credential, or else all that waits for an
answer. -/
def Starts (c : FRepo κ π) (callbacks : List (ℕ × FCallback κ π)) : Prop :=
  (c.connectionState = .authenticating ∧ sentPuts callbacks = [] ∧
      callbacks.filterMap (fun entry => entry.2.auth?) = [true]) ∨
    (c.connectionState = .connected ∧ sentPuts callbacks = c.outstandingPuts ∧
      callbacks.filterMap (fun entry => entry.2.auth?) = [])

/-- What a call does that issues no put. -/
inductive Moves (c : FRepo κ π) : FRepo κ π → Prop
  | off {c' : FRepo κ π} (hoff : c'.isConnected = false) (hputs : SamePuts c c') : Moves c c'
  | sends {c₁ c' : FRepo κ π} {callbacks : List (ℕ × FCallback κ π)} (hsame : SameWires c c₁)
    (hsends : c₁.Sends callbacks c') (hputs : sentPuts callbacks = [])
    (hauth : ∀ entry ∈ callbacks, entry.2.auth? ≠ some true) : Moves c c'
  | starts {c₁ c' : FRepo κ π} {callbacks : List (ℕ × FCallback κ π)}
    (hstate : c.connectionState = .connecting) (hputs : SamePuts c c₁)
    (hrealtime : c₁.realtime = some ⟨true, []⟩) (hhash : c₁.requestCBHash = [])
    (hnumber : c₁.requestNumber = c.requestNumber) (hsends : c₁.Sends callbacks c')
    (hstarts : c₁.Starts callbacks) : Moves c c'

theorem SameWires.moves (h : SameWires c c') : c.Moves c' :=
  .sends h (sends_refl c') rfl (by simp)

theorem exists_tryScheduleReconnect (hstate : c.connectionState = .disconnected) :
    ∃ scheduledRetry, c.tryScheduleReconnect = some { c with scheduledRetry } := by
  unfold tryScheduleReconnect
  split_ifs
  · exact ⟨true, rfl⟩
  · exact ⟨c.scheduledRetry, rfl⟩

theorem exists_onDisconnect (h : c.Wired due) :
    ∃ c', c.onDisconnect = some c' ∧ c'.Wired 0 ∧ c'.isConnected = false ∧
      SamePuts c c' := by
  obtain ⟨scheduledRetry, hschedule⟩ := exists_tryScheduleReconnect (c :=
    { c with
      connectionState := .disconnected
      realtime := none
      requestCBHash := []
      unackedListensCount := 0 }) rfl
  refine ⟨_, hschedule, ?_, rfl, rfl, rfl, rfl, rfl, rfl, rfl⟩
  exact ⟨rfl, fun _ => rfl, h.fetches, fun _ => rfl, fun _ => rfl, numbered_nil _, rfl⟩

theorem exists_close (h : c.Wired due) :
    ∃ c', c.close = some c' ∧ c'.isConnected = false ∧ SamePuts c c' ∧
      (c.Wired 0 → c'.Wired 0) ∧ (c.realtime.isSome → c'.Wired 0) := by
  unfold close
  by_cases hreal : c.realtime.isSome
  · obtain ⟨c', hdisconnect, hwired, hoff, hputs⟩ := exists_onDisconnect h
    exact ⟨c', (if_pos hreal).trans hdisconnect, hoff, hputs, fun _ => hwired, fun _ => hwired⟩
  · refine ⟨c, if_neg hreal, h.not_isConnected ?_, samePuts_refl c, id, fun h => absurd h hreal⟩
    simpa using hreal

theorem exists_interruptForReason (h : c.Wired 0) (reason : String) :
    ∃ c', c.interruptForReason reason = some c' ∧ c'.Wired 0 ∧ c.Moves c' := by
  let c₁ : FRepo κ π :=
    { c with interruptReasons := reason :: c.interruptReasons.filter (· ≠ reason) }
  have h₁ : c₁.Wired 0 := { h with }
  unfold interruptForReason
  by_cases hreal : c.realtime.isSome
  · obtain ⟨c', hclose, hoff, hputs, hwired, -⟩ := exists_close h₁
    have hputs' : SamePuts c c' := ⟨hputs.1, hputs.2, hputs.3, hputs.4, hputs.5, hputs.6⟩
    exact ⟨c', (if_pos hreal).trans hclose, hwired h₁, .off hoff hputs'⟩
  · have hnone : c.realtime = none := by simpa using hreal
    refine ⟨_, if_neg hreal, ?_, .off rfl ⟨rfl, rfl, rfl, rfl, rfl, rfl⟩⟩
    exact ⟨hnone, nofun, h.fetches, fun _ => hnone, fun _ => h.idle (h.not_isConnected hnone),
      h.numbered, h.unacked⟩

theorem Wired.schedule (h : c.Wired due) (hstate : c.connectionState = .disconnected)
    (scheduledRetry : Bool) : Wired { c with scheduledRetry } due :=
  { h with scheduled := fun _ => hstate }

theorem exists_resumeForReason (h : c.Wired 0) (reason : String) :
    ∃ c', c.resumeForReason reason = some c' ∧ c'.Wired 0 ∧ c.Moves c' := by
  let c₁ : FRepo κ π :=
    { c with interruptReasons := c.interruptReasons.filter (· ≠ reason) }
  have h₁ : c₁.Wired 0 := { h with }
  unfold resumeForReason
  by_cases hresume : c₁.shouldReconnect = true ∧ c₁.connectionState = .disconnected
  · obtain ⟨scheduledRetry, hschedule⟩ := exists_tryScheduleReconnect hresume.2
    refine ⟨_, (if_pos hresume).trans hschedule, h₁.schedule hresume.2 _, ?_⟩
    exact SameWires.moves ⟨⟨rfl, rfl, rfl, rfl, rfl, rfl⟩, rfl, rfl, rfl, rfl, rfl⟩
  · refine ⟨_, if_neg hresume, h₁, ?_⟩
    exact SameWires.moves ⟨⟨rfl, rfl, rfl, rfl, rfl, rfl⟩, rfl, rfl, rfl, rfl, rfl⟩

theorem sameWires_refl (c : FRepo κ π) : SameWires c c :=
  ⟨samePuts_refl c, rfl, rfl, rfl, rfl, rfl⟩

theorem exists_becameReachable (h : c.Wired 0) :
    ∃ c', c.becameReachable = some c' ∧ c'.Wired 0 ∧ c.Moves c' := by
  unfold becameReachable
  by_cases hstate : c.connectionState = .disconnected
  · obtain ⟨scheduledRetry, hschedule⟩ := exists_tryScheduleReconnect hstate
    refine ⟨_, (if_pos hstate).trans hschedule, h.schedule hstate _, ?_⟩
    exact SameWires.moves ⟨⟨rfl, rfl, rfl, rfl, rfl, rfl⟩, rfl, rfl, rfl, rfl, rfl⟩
  · exact ⟨c, if_neg hstate, h, (sameWires_refl c).moves⟩

theorem exists_retry (h : c.Wired 0) :
    ∃ c', c.retry = some c' ∧ c'.Wired 0 ∧ c.Moves c' := by
  unfold retry
  by_cases hscheduled : c.scheduledRetry = true
  · have hstate := h.scheduled hscheduled
    have hreal : c.realtime = none := by
      have hreal := h.realtime
      rwa [hstate] at hreal
    rw [if_pos hscheduled, if_pos hstate]
    refine ⟨_, rfl, ?_, .off rfl ⟨rfl, rfl, rfl, rfl, rfl, rfl⟩⟩
    refine ⟨hreal, nofun, fun attempt hattempt => ?_, fun _ => hreal,
      fun _ => h.idle (h.not_isConnected hreal), h.numbered, h.unacked⟩
    rcases List.mem_append.1 hattempt with hattempt | hattempt
    · exact (h.fetches attempt hattempt).trans (Nat.le_succ _)
    · exact (List.mem_singleton.1 hattempt).le
  · exact ⟨c, if_neg hscheduled, h, (sameWires_refl c).moves⟩

theorem exists_tokenFetched (h : c.Wired 0) (attempt : ℕ) (result : Option (Option String)) :
    ∃ c', c.tokenFetched attempt result = some c' ∧ c'.Wired 0 ∧ c.Moves c' := by
  unfold tokenFetched
  by_cases hfetch : attempt ∈ c.fetches
  swap
  · exact ⟨c, if_neg hfetch, h, (sameWires_refl c).moves⟩
  rw [if_pos hfetch]
  have hrest : ∀ attempt' ∈ c.fetches.filter (· ≠ attempt),
      attempt' ≤ c.currentFetchTokenAttempt := fun attempt' hattempt' =>
    h.fetches attempt' (List.mem_of_mem_filter hattempt')
  let c₁ : FRepo κ π := { c with fetches := c.fetches.filter (· ≠ attempt) }
  have h₁ : c₁.Wired 0 :=
    { h with
      fetches := hrest
      fetching := fun hmem => h.fetching (List.mem_of_mem_filter hmem) }
  have hmoves₁ : c.Moves c₁ :=
    SameWires.moves ⟨⟨rfl, rfl, rfl, rfl, rfl, rfl⟩, rfl, rfl, rfl, rfl, rfl⟩
  by_cases hcurrent : attempt = c.currentFetchTokenAttempt
  swap
  · exact ⟨c₁, if_neg hcurrent, h₁, hmoves₁⟩
  have hreal : c.realtime = none := h.fetching (hcurrent ▸ hfetch)
  have hidle := h.idle (h.not_isConnected hreal)
  have hdone : c.currentFetchTokenAttempt ∉ c.fetches.filter (· ≠ attempt) := by
    simp [hcurrent]
  rw [if_pos (show attempt = c₁.currentFetchTokenAttempt from hcurrent)]
  cases result with
  | none =>
    obtain ⟨scheduledRetry, hschedule⟩ := exists_tryScheduleReconnect
      (c := { c₁ with connectionState := .disconnected }) rfl
    refine ⟨_, hschedule, ?_, .off rfl ⟨rfl, rfl, rfl, rfl, rfl, rfl⟩⟩
    exact ⟨hreal, fun _ => rfl, hrest, fun _ => hreal, fun _ => hidle, h.numbered, h.unacked⟩
  | some token =>
    dsimp only
    by_cases htoken : c₁.connectionState = .gettingToken
    · refine ⟨_, (if_pos htoken).trans (if_pos htoken), ?_, .off rfl ⟨rfl, rfl, rfl, rfl, rfl, rfl⟩⟩
      refine ⟨rfl, fun hscheduled => ?_, hrest, fun hmem => absurd hmem hdone, fun _ => hidle,
        h.numbered, h.unacked⟩
      exact nomatch htoken.symm.trans (h.scheduled hscheduled)
    · have hstate : c₁.connectionState = .disconnected := by
        have hopen := h₁.realtime
        rw [show c₁.realtime = none from hreal] at hopen
        cases hstate : c₁.connectionState with
        | disconnected => rfl
        | gettingToken => exact absurd hstate htoken
        | connecting => rw [hstate] at hopen; exact nomatch hopen
        | authenticating => rw [hstate] at hopen; obtain ⟨sent, hopen⟩ := hopen; exact nomatch hopen
        | connected => rw [hstate] at hopen; obtain ⟨sent, hopen⟩ := hopen; exact nomatch hopen
      exact ⟨c₁, (if_neg htoken).trans (if_pos hstate), h₁, hmoves₁⟩

theorem Sends.state (h : c.Sends callbacks c') (connectionState : ConnectionState) :
    Sends { c with connectionState } callbacks { c' with connectionState } := by
  obtain ⟨requests, realtime, n, listens, listenSpecs, hcarries, hasks, rfl⟩ := h
  exact ⟨requests, realtime, n, listens, listenSpecs, hcarries, hasks, rfl⟩

theorem Sends.firstConnection (h : c.Sends callbacks c') (firstConnection : Bool) :
    Sends { c with firstConnection } callbacks { c' with firstConnection } := by
  obtain ⟨requests, realtime, n, listens, listenSpecs, hcarries, hasks, rfl⟩ := h
  exact ⟨requests, realtime, n, listens, listenSpecs, hcarries, hasks, rfl⟩

theorem Wired.start (h : c.Wired 0) (hstate : c.connectionState = .connecting)
    (hc₁ : c₁ =
      { c with
        realtime := some ⟨true, []⟩
        connectionState := c₁.connectionState
        firstConnection := false })
    (hconnected : c₁.isConnected = true) : c₁.Wired 0 := by
  have hreal := h.realtime
  rw [hstate] at hreal
  have hidle : c.requestCBHash = [] := h.idle (by simp [isConnected, hstate])
  rcases isConnected_iff.1 hconnected with hstate₁ | hstate₁ <;> rw [hstate₁] at hc₁ <;>
    subst hc₁
  all_goals
    refine ⟨⟨[], rfl⟩, fun hscheduled => ?_, h.fetches, fun hfetching => ?_,
      fun hoff => absurd (hconnected.symm.trans hoff) nofun, h.numbered, h.unacked⟩
    · exact nomatch hstate.symm.trans (h.scheduled hscheduled)
    · exact nomatch hreal.symm.trans (h.fetching hfetching)

/-- The statistics of the first connection. -/
theorem sends_stats (hopen : c.IsOpen)
    (hnumbered : Numbered c.requestCBHash c.requestNumber) :
    ∃ c' callbacks,
      (if c.firstConnection then c.sendConnectStats else some c) =
        some c' ∧
      c.Sends callbacks c' ∧ sentPuts callbacks = [] ∧
      callbacks.filterMap (fun entry => entry.2.auth?) = [] := by
  cases c.firstConnection with
  | true =>
    obtain ⟨c', hsend, hsends⟩ := sends_sendAction hopen hnumbered .stats .stats rfl rfl
    exact ⟨c', _, hsend, hsends, rfl, rfl⟩
  | false => exact ⟨c, [], rfl, sends_refl c, rfl, rfl⟩

theorem exists_restoreAuth (hstate : c.connectionState = .connecting) (hopen : c.IsOpen)
    (hnumbered : Numbered c.requestCBHash c.requestNumber)
    (hputs : Numbered c.outstandingPuts c.putCounter) :
    ∃ c' callbacks connectionState, c.restoreAuth = some c' ∧
      Sends { c with connectionState } callbacks c' ∧
      Starts { c with connectionState } callbacks := by
  unfold restoreAuth
  rw [if_pos hstate]
  by_cases htoken : c.authToken = none
  · rw [if_pos htoken]
    obtain ⟨c', callbacks, hrestore, hsends, hsent, hauth⟩ := sends_restoreState
      (c := { c with connectionState := .connected }) hopen hnumbered rfl hputs
    refine ⟨c', callbacks, .connected, hrestore, hsends, Or.inr ⟨rfl, hsent, ?_⟩⟩
    exact List.filterMap_eq_nil_iff.2 hauth
  · rw [if_neg htoken]
    obtain ⟨token, htoken⟩ := Option.ne_none_iff_exists'.1 htoken
    obtain ⟨c', hsend, hsends⟩ := sends_sendAuth
      (c := { c with connectionState := .authenticating }) hopen hnumbered rfl htoken true
    exact ⟨c', _, .authenticating, hsend, hsends, Or.inl ⟨rfl, rfl, rfl⟩⟩

theorem Starts.isConnected (h : c.Starts callbacks) : c.isConnected = true :=
  isConnected_iff.2 (h.imp And.left And.left)

theorem exists_onReady (h : c.Wired 0) (hputs : Numbered c.outstandingPuts c.putCounter) :
    ∃ c', c.onReady = some c' ∧ c'.Wired 0 ∧ c.Moves c' := by
  by_cases hstate : c.connectionState = .connecting
  swap
  · refine ⟨c, ?_, h, (sameWires_refl c).moves⟩
    have hreal := h.realtime
    unfold onReady
    cases hstate' : c.connectionState <;> rw [hstate'] at hreal
    · rw [show c.realtime = none from hreal]
    · rw [show c.realtime = none from hreal]
    · exact absurd hstate' hstate
    · obtain ⟨sent, hreal⟩ := hreal
      rw [hreal]
    · obtain ⟨sent, hreal⟩ := hreal
      rw [hreal]
  have hreal : c.realtime = some {} := by
    have hreal := h.realtime
    rwa [hstate] at hreal
  have hhash : c.requestCBHash = [] := h.idle (by simp [isConnected, hstate])
  let c₀ : FRepo κ π := { c with realtime := some ⟨true, []⟩ }
  obtain ⟨c₁, callbacks, hstats, hsends, hputs₁, hauth₁⟩ :=
    sends_stats (c := c₀) ⟨[], rfl⟩ h.numbered
  have hsame := hsends.samePuts
  obtain ⟨c₂, callbacks', connectionState, hrestore, hsends', hstarts⟩ :=
    exists_restoreAuth (hsends.connectionState.trans hstate) (hsends.isOpen ⟨[], rfl⟩)
      (hsends.numbered h.numbered) (by rw [hsame.outstandingPuts, hsame.putCounter]; exact hputs)
  let start : FRepo κ π := { c₀ with connectionState, firstConnection := false }
  have hall : start.Sends (callbacks ++ callbacks') { c₂ with firstConnection := false } :=
    ((hsends.state connectionState).firstConnection false).trans (hsends'.firstConnection false)
  have hstart : start.Starts (callbacks ++ callbacks') := by
    rcases hstarts with ⟨hauthenticating, hnone, hauth⟩ | ⟨hconnected, hsent, hauth⟩
    · refine Or.inl ⟨hauthenticating, ?_, ?_⟩
      · rw [sentPuts_append, hputs₁, hnone, List.nil_append]
      · rw [List.filterMap_append, hauth₁, hauth, List.nil_append]
    · refine Or.inr ⟨hconnected, ?_, ?_⟩
      · rw [sentPuts_append, hputs₁, hsent, List.nil_append]
        exact hsame.outstandingPuts
      · rw [List.filterMap_append, hauth₁, hauth, List.nil_append]
  have hsame₀ : SamePuts c start := ⟨rfl, rfl, rfl, rfl, rfl, rfl⟩
  refine ⟨{ c₂ with firstConnection := false }, ?_, ?_, ?_⟩
  · unfold onReady
    rw [hreal]
    dsimp only
    rw [hstats, Option.bind_some, hrestore, Option.map_some]
  · exact (h.start hstate rfl hstart.isConnected).sends hall
  · exact .starts hstate hsame₀ rfl hhash rfl hall hstart

theorem exists_authRevoked (h : c.Wired 0) :
    ∃ c', FRepo.close { c with authToken := none } = some c' ∧ c'.Wired 0 ∧ c.Moves c' := by
  have h₁ : Wired { c with authToken := none } 0 := { h with }
  obtain ⟨c', hclose, hoff, hputs, hwired, -⟩ := exists_close h₁
  exact ⟨c', hclose, hwired h₁, .off hoff ⟨hputs.1, hputs.2, hputs.3, hputs.4, hputs.5, hputs.6⟩⟩

end FRepo

end IndoorFarm
