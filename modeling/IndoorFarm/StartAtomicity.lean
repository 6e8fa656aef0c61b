import IndoorFarm.Operations
import IndoorFarm.Lib.Runs

/-!
# Starting the farm

`write_automated_settings_to_indoor_farm` sends its three numbers as three `setValue` calls.  The
server applies the calls of one client in the order they were sent, and those of different clients
in any order, so the three numbers at the root can come from different starts.

`Unmixed` says that they do not.  It holds at every read when no start is disturbed (`Undisturbed`):
while a start is part-way through its three writes, the server applies no write of another client
and no snapshot is taken.  What carries the run is that the root has the writes of a start that is
part-way (`Underway`), and that it is unmixed whenever none is.
-/

namespace IndoorFarm

open DataModel

/-- The arguments of one `write_automated_settings_to_indoor_farm`. -/
structure StartCall where
  growLightMaxtimer : ℤ
  growLightMaxsleep : ℤ
  growLightMaxtemp : ℤ
  deriving DecidableEq

def StartCall.writes (call : StartCall) : List (String × ℤ) :=
  automatedWrites call.growLightMaxtimer call.growLightMaxsleep call.growLightMaxtemp

def automatedKeys : List String :=
  ["Grow_Light_Maxtimer", "Grow_Light_Maxsleep", "Grow_Light_Maxtemp"]

theorem automatedKeys_subset_farmKeys : ∀ key ∈ automatedKeys, key ∈ farmKeys := by decide

namespace StartCall

theorem keys_writes (call : StartCall) : call.writes.map Prod.fst = automatedKeys := rfl

theorem nodup_keys_writes (call : StartCall) : (call.writes.map Prod.fst).Nodup := by
  rw [keys_writes]
  decide

theorem mem_automatedKeys {call : StartCall} {write : String × ℤ} (h : write ∈ call.writes) :
    write.1 ∈ automatedKeys := by
  rw [← call.keys_writes]
  exact List.mem_map_of_mem h

/-- Only the first write of a start is at this key. -/
theorem fst_ne_of_append {call : StartCall} {applied rest : List (String × ℤ)}
    (h : call.writes = applied ++ rest) (hne : applied ≠ []) :
    ∀ write ∈ rest, write.1 ≠ "Grow_Light_Maxtimer" := by
  obtain ⟨first, applied, rfl⟩ := List.exists_cons_of_ne_nil hne
  have hnodup := call.nodup_keys_writes
  have hfirst : first.1 = "Grow_Light_Maxtimer" := by
    rw [writes, automatedWrites, List.cons_append, List.cons.injEq] at h
    rw [← h.1]
  rw [h, List.cons_append, List.map_cons, List.nodup_cons, hfirst] at hnodup
  exact fun write hwrite heq =>
    hnodup.1 (heq ▸ List.mem_map_of_mem (List.mem_append_right _ hwrite))

end StartCall

/-! ## The server -/

/-- The root, the `setValue` calls every client has sent and the server has not applied, and the
starts so far. -/
structure FarmServer (Client : Type*) where
  root : FNode
  sent : Client → List (String × ℤ)
  starts : List StartCall

inductive ServerEvent (Client : Type*) where
  | start (client : Client) (call : StartCall)
  | apply (client : Client)
  | snapshot (client : Client)

namespace FarmServer

variable {Client : Type*} [DecidableEq Client]

def initial (root : FNode) : FarmServer Client := ⟨root, fun _ => [], []⟩

def step (s : FarmServer Client) : ServerEvent Client → Option (FarmServer Client)
  | .start client call => some { s with
      sent := Function.update s.sent client (s.sent client ++ call.writes)
      starts := s.starts ++ [call] }
  | .apply client =>
    match s.sent client with
    | [] => some s
    | write :: rest => (setFarmValue write.1 write.2 s.root).map fun root => { s with
        root := root
        sent := Function.update s.sent client rest }
  | .snapshot _ => some s

/-- The node a start leaves at a key. -/
def numberNode (value : ℤ) : FNode := .leafNode (.number (.int value))

/-- What a start writes is at the root. -/
def Holds (root : FNode) (writes : List (String × ℤ)) : Prop :=
  ∀ write ∈ writes, root.getImmediateChild write.1 = numberNode write.2

/-- The three keys hold what they held initially, or what one of the starts writes. -/
def Unmixed (root : FNode) (s : FarmServer Client) : Prop :=
  (∀ key ∈ automatedKeys, s.root.getImmediateChild key = root.getImmediateChild key) ∨
  ∃ call ∈ s.starts, Holds s.root call.writes

/-- The next `setValue` of the client is not the first one of a start. -/
def PartWay (s : FarmServer Client) (client : Client) : Prop :=
  ∃ write ∈ (s.sent client).head?, write.1 ≠ "Grow_Light_Maxtimer"

/-- While a start is part-way, no write of another client is applied and no snapshot is taken. -/
def Undisturbed (s : FarmServer Client) : ServerEvent Client → Prop
  | .start _ _ => True
  | .apply client => ∀ other, s.PartWay other → other = client
  | .snapshot _ => ∀ client, ¬ s.PartWay client

/-- `X` holds whenever a snapshot is taken, and in the end when everything sent has been applied. -/
def AtReads (X : FarmServer Client → Prop) (s : FarmServer Client)
    (events : List (ServerEvent Client)) : Prop :=
  Runs.Along step (fun s event => (∃ client, event = .snapshot client) → X s) s events ∧
  ∀ s', Runs.run step s events = some s' → (∀ client, s'.sent client = []) → X s'

/-! ## Starts that are not disturbed -/

/-- What a client has left to send of a start whose other writes are at the root. -/
def Underway (starts : List StartCall) (root : FNode) (part : List (String × ℤ)) : Prop :=
  part ≠ [] ∧ ∃ call ∈ starts, ∃ applied ≠ [], call.writes = applied ++ part ∧ Holds root applied

/-- What a client has left to send is the rest of one start and whole starts; when no start is
part-way, the root is not mixed. -/
structure Whole (root : FNode) (s : FarmServer Client) : Prop where
  sent : ∀ client, ∃ (part : List (String × ℤ)) (calls : List StartCall),
    s.sent client = part ++ calls.flatMap StartCall.writes ∧ (∀ call ∈ calls, call ∈ s.starts) ∧
    (part = [] ∨ Underway s.starts s.root part)
  unmixed : (∀ client, ¬ s.PartWay client) → s.Unmixed root

omit [DecidableEq Client] in
theorem whole_initial (root : FNode) : Whole root (initial root : FarmServer Client) where
  sent _ := ⟨[], [], rfl, by simp, Or.inl rfl⟩
  unmixed _ := Or.inl fun _ _ => rfl

variable {root : FNode} {s s' : FarmServer Client} {client : Client}

section PartWay

omit [DecidableEq Client]

theorem not_partWay_of_sent_nil (h : s.sent client = []) : ¬ s.PartWay client := by
  rintro ⟨write, hwrite, -⟩
  simp [h] at hwrite

theorem partWay_of_underway {part rest : List (String × ℤ)} (h : Underway s.starts s.root part)
    (hsent : s.sent client = part ++ rest) : s.PartWay client := by
  obtain ⟨hpart, call, -, applied, happlied, hwrites, -⟩ := h
  obtain ⟨write, part, rfl⟩ := List.exists_cons_of_ne_nil hpart
  exact ⟨write, by rw [hsent]; rfl,
    StartCall.fst_ne_of_append hwrites happlied write List.mem_cons_self⟩

/-- A client that is not part-way has whole starts left. -/
theorem Whole.sent_of_not_partWay (h : Whole root s) (hclient : ¬ s.PartWay client) :
    ∃ calls : List StartCall, s.sent client = calls.flatMap StartCall.writes ∧
      ∀ call ∈ calls, call ∈ s.starts := by
  obtain ⟨part, calls, hsent, hcalls, rfl | hpart⟩ := h.sent client
  · exact ⟨calls, hsent, hcalls⟩
  · exact absurd (partWay_of_underway hpart hsent) hclient

theorem holds_writeFarmValue {write : String × ℤ} {writes : List (String × ℤ)}
    (h : Holds s.root writes) (hkey : write.1 ∈ automatedKeys)
    (hne : write.1 ∉ writes.map Prod.fst) :
    Holds (writeFarmValue s.root write) (writes ++ [write]) := by
  intro write' hmem
  rw [getImmediateChild_writeFarmValue _ (automatedKeys_subset_farmKeys _ hkey)]
  rcases List.mem_append.1 hmem with hmem | hmem
  · rw [if_neg fun heq => hne (List.mem_map.2 ⟨write', hmem, heq.symm⟩), h write' hmem]
  · obtain rfl := List.mem_singleton.1 hmem
    rw [if_pos rfl, numberNode]

end PartWay

theorem Whole.start (h : Whole root s) (client : Client) (call : StartCall)
    (hs : s.step (.start client call) = some s') : Whole root s' := by
  obtain rfl := Option.some.inj hs
  refine ⟨fun client' => ?_, fun hnone => ?_⟩
  · obtain ⟨part, calls, hsent, hcalls, hpart⟩ := h.sent client'
    have hpart' : part = [] ∨ Underway (s.starts ++ [call]) s.root part :=
      hpart.imp_right fun ⟨hne, call', hmem, hrest⟩ =>
        ⟨hne, call', List.mem_append_left [call] hmem, hrest⟩
    by_cases hc : client' = client
    · subst hc
      refine ⟨part, calls ++ [call], ?_, fun call' hcall' => ?_, hpart'⟩
      · simp [hsent]
      · exact (List.mem_append.1 hcall').elim (fun h => List.mem_append_left _ (hcalls call' h))
          (List.mem_append_right _)
    · exact ⟨part, calls, by simp [Function.update_of_ne hc, hsent],
        fun call' hcall' => List.mem_append_left _ (hcalls call' hcall'), hpart'⟩
  · -- a client that is part-way in `s` still is after the start, which it sends behind
    have hold : ∀ client', ¬ s.PartWay client' := by
      rintro client' ⟨write, hwrite, hkey⟩
      refine hnone client' ⟨write, ?_, hkey⟩
      by_cases hc : client' = client
      · subst hc
        simp only [Function.update_self, List.head?_append, Option.mem_def] at hwrite ⊢
        rw [hwrite, Option.some_or]
      · simpa [Function.update_of_ne hc] using hwrite
    exact (h.unmixed hold).imp_right fun ⟨call', hcall', hholds⟩ =>
      ⟨call', List.mem_append_left _ hcall', hholds⟩

/-- The state after the first of a client's writes has been applied. -/
def applied (s : FarmServer Client) (client : Client) (write : String × ℤ)
    (rest : List (String × ℤ)) : FarmServer Client where
  root := writeFarmValue s.root write
  sent := Function.update s.sent client rest
  starts := s.starts

theorem applied_sent_self (write : String × ℤ) (rest : List (String × ℤ)) :
    (s.applied client write rest).sent client = rest := Function.update_self ..

/-- The client whose write is applied has the rest of its start left, which is at the root as far as
it has been applied. -/
theorem Whole.applied (h : Whole root s) {client : Client} {write : String × ℤ}
    {rest : List (String × ℤ)} (hother : ∀ other, s.PartWay other → other = client)
    (hsent : s.sent client = write :: rest) : Whole root (s.applied client write rest) := by
  obtain ⟨part, calls, happend, hcalls, hpart⟩ := h.sent client
  -- the start that the write is of, split before and after it
  obtain ⟨call, hcall, done, left, calls', hwrites, hdone, hrest, hcalls'⟩ :
      ∃ call ∈ s.starts, ∃ done left calls', call.writes = done ++ write :: left ∧
        Holds s.root done ∧ rest = left ++ List.flatMap StartCall.writes calls' ∧
        ∀ call ∈ calls', call ∈ s.starts := by
    rw [hsent] at happend
    rcases hpart with rfl | ⟨hne, call, hcall, done, -, hwrites, hdone⟩
    · cases calls with
      | nil => exact absurd happend (List.cons_ne_nil _ _)
      | cons call calls =>
        obtain ⟨hcall, hcalls⟩ := List.forall_mem_cons.1 hcalls
        rw [List.nil_append, List.flatMap_cons] at happend
        refine ⟨call, hcall, [], call.writes.tail, calls, ?_, by simp [Holds], ?_, hcalls⟩
        · exact congrArg (· :: call.writes.tail) (List.cons.inj happend).1.symm
        · exact (List.cons.inj happend).2
    · obtain ⟨first, part, rfl⟩ := List.exists_cons_of_ne_nil hne
      obtain ⟨rfl, hrest⟩ := List.cons.inj happend
      exact ⟨call, hcall, done, part, calls, hwrites, hdone, hrest, hcalls⟩
  have hdone' : Holds (s.applied client write rest).root (done ++ [write]) := by
    have hmem : write ∈ call.writes := hwrites ▸ List.mem_append_right done List.mem_cons_self
    refine holds_writeFarmValue hdone (StartCall.mem_automatedKeys hmem) fun hmem => ?_
    have hnodup := call.nodup_keys_writes
    rw [hwrites, List.map_append, List.map_cons, List.nodup_append] at hnodup
    exact hnodup.2.2 _ hmem _ List.mem_cons_self rfl
  have hleft : call.writes = (done ++ [write]) ++ left := by simp [hwrites]
  have hunderway : left = [] ∨ Underway s.starts (s.applied client write rest).root left :=
    (em (left = [])).imp_right fun hne =>
      ⟨hne, call, hcall, done ++ [write], by simp, hleft, hdone'⟩
  refine ⟨fun client' => ?_, fun hnone => Or.inr ⟨call, hcall, ?_⟩⟩
  · by_cases hc : client' = client
    · subst hc
      exact ⟨left, calls', (applied_sent_self write rest).trans hrest, hcalls', hunderway⟩
    · obtain ⟨calls, hclient', hcalls⟩ :=
        h.sent_of_not_partWay fun hpart => hc (hother client' hpart)
      exact ⟨[], calls, (Function.update_of_ne hc ..).trans hclient', hcalls, Or.inl rfl⟩
  · -- no client is part-way, so the start is complete
    rcases hunderway with rfl | hunderway
    · rwa [hleft, List.append_nil]
    · exact absurd (partWay_of_underway hunderway ((applied_sent_self write rest).trans hrest))
        (hnone client)

theorem Whole.step (h : Whole root s) (event : ServerEvent Client) (hevent : s.Undisturbed event)
    (hs : s.step event = some s') : Whole root s' := by
  cases event with
  | start client call => exact h.start client call hs
  | apply client =>
    rw [FarmServer.step] at hs
    split at hs
    · obtain rfl := Option.some.inj hs
      exact h
    · next write rest hsent =>
      have hkey : write.1 ∈ automatedKeys := by
        obtain ⟨part, calls, happend, -, hpart⟩ := h.sent client
        have hmem : write ∈ part ++ calls.flatMap StartCall.writes := by
          rw [← happend, hsent]
          exact List.mem_cons_self
        rcases List.mem_append.1 hmem with hmem | hmem
        · rcases hpart with rfl | ⟨-, call, -, done, -, hwrites, -⟩
          · exact absurd hmem List.not_mem_nil
          · exact StartCall.mem_automatedKeys (hwrites ▸ List.mem_append_right done hmem)
        · obtain ⟨call, -, hmem⟩ := List.mem_flatMap.1 hmem
          exact StartCall.mem_automatedKeys hmem
      rw [setFarmValue_of_mem (automatedKeys_subset_farmKeys _ hkey), Option.map_some] at hs
      obtain rfl := Option.some.inj hs
      exact h.applied hevent hsent
  | snapshot client =>
    obtain rfl := Option.some.inj hs
    exact h

end FarmServer

/-! ## Runs -/

section Runs

variable {Client : Type*} [DecidableEq Client]

open FarmServer

/-- Starting the farm is atomic in every run in which no start is disturbed. -/
theorem start_atomic_of_undisturbed (root : FNode) (events : List (ServerEvent Client))
    (h : Runs.Along step Undisturbed (initial root) events) :
    AtReads (Unmixed root) (initial root) events := by
  have hstep : ∀ (s : FarmServer Client) event s', Whole root s → s.Undisturbed event →
      s.step event = some s' → Whole root s' := fun s event s' hs hevent => hs.step event hevent
  constructor
  · refine Runs.along_of_invariant hstep ?_ (whole_initial root) h
    rintro s event hs hevent ⟨client, rfl⟩
    exact hs.unmixed hevent
  · intro s' hrun hsent
    have hs' := Runs.run_invariant_of_along hstep (whole_initial root) h hrun
    exact hs'.unmixed fun client => not_partWay_of_sent_nil (hsent client)

/-- A snapshot between the starts of two clients. -/
def startsInTurn : List (ServerEvent Bool) :=
  [.start false ⟨720, 30, 300⟩, .start true ⟨30, 720, 60⟩, .apply true, .apply true, .apply true,
    .snapshot false, .apply false, .apply false, .apply false]

theorem start_atomic_of_undisturbed_inTurn :
    AtReads (Unmixed FNode.emptyNode) (initial FNode.emptyNode) startsInTurn :=
  start_atomic_of_undisturbed FNode.emptyNode startsInTurn (by
    simp [startsInTurn, Runs.Along, step, Undisturbed, initial, PartWay, StartCall.writes,
      automatedWrites])

end Runs

/-- Two clients start the farm, and their writes cross. -/
def crossingStarts : List (ServerEvent Bool) :=
  [.start false ⟨720, 30, 300⟩, .start true ⟨30, 720, 60⟩, .apply false, .apply true, .apply true,
    .apply false, .apply false, .apply true]

/-- The farm is left with the off-cycle of one start and the on-cycle of the other. -/
theorem crossing_starts_mix :
    ¬ FarmServer.AtReads (FarmServer.Unmixed FNode.emptyNode) (FarmServer.initial FNode.emptyNode)
      crossingStarts := by
  intro h
  rcases h.2 _ rfl (by decide) with hread | ⟨call, hcall, hread⟩
  · have htimer := congrArg (fun n => Value.asInt n.val) (hread "Grow_Light_Maxtimer" (by decide))
    revert htimer
    decide
  · have hread : ∀ write ∈ call.writes, _ = some write.2 := fun write hwrite =>
      congrArg (fun n => Value.asInt n.val) (hread write hwrite)
    have htimer := hread ("Grow_Light_Maxtimer", call.growLightMaxtimer)
      (by simp [StartCall.writes, automatedWrites])
    have hsleep := hread ("Grow_Light_Maxsleep", call.growLightMaxsleep)
      (by simp [StartCall.writes, automatedWrites])
    rcases List.mem_cons.1 hcall with rfl | hcall
    · revert htimer
      decide
    · obtain rfl := List.mem_singleton.1 hcall
      revert hsleep
      decide

end IndoorFarm
