import IndoorFarm.Firebase.ConnectionState

/-!
# Outstanding puts

Whatever the server sends, and whenever connections are opened, lost and closed, the client keeps
account of its puts.  `Pending` says what holds of them, and `Issues` and `Receives` what a `set:`
and a message do.

* `Sound.step`: no assertion of the client fails;
* `exists_run_accounted`: each put is either completed once or pending once.
-/

namespace IndoorFarm

open NSMutableDictionary

variable {κ π : Type*}

/-! ## The puts of a run -/

namespace FRepo

def Call.write? : Call κ π → Option (List κ × FNode)
  | .set path node => some (path, node)
  | _ => none

def Event.write? : Event κ π → Option (List κ × FNode)
  | .call performed => performed.write?
  | .message _ _ => none

/-- The puts of a run: the write ids count them. -/
def puts (es : List (Event κ π)) : List (FOutstandingPut κ) :=
  (es.filterMap Event.write?).mapIdx fun writeId write => ⟨write.1, write.2, writeId⟩

theorem puts_concat_of_none {es : List (Event κ π)} {e : Event κ π} (h : e.write? = none) :
    puts (es ++ [e]) = puts es := by
  unfold puts
  rw [List.filterMap_append, List.filterMap_cons_none h, List.filterMap_nil, List.append_nil]

theorem puts_concat_set (es : List (Event κ π)) (path : List κ) (node : FNode) :
    puts (es ++ [.call (.set path node)]) =
      puts es ++ [⟨path, node, ((puts es).length : ℤ)⟩] := by
  unfold puts
  rw [List.filterMap_append, List.length_mapIdx]
  exact List.mapIdx_concat

end FRepo

/-! ## The puts that are not completed -/

/-- The pending write of a put. -/
def FOutstandingPut.record [TreeKey κ] (put : FOutstandingPut κ) : FWriteRecord κ :=
  .overwrite put.path put.data put.writeId true

/-- Each put that has been issued is completed or waits for it, and the pending writes are those of
the puts that are not completed. -/
structure Pending [TreeKey κ] (tree : FWriteTree κ) (writeIdCounter : ℤ)
    (completed waiting issued : List (FOutstandingPut κ)) : Prop where
  perm : (completed ++ waiting).Perm issued
  allWrites : tree.allWrites =
    (issued.filter fun put => put.writeId ∉ completed.map FOutstandingPut.writeId).map
      FOutstandingPut.record
  ids : issued.Pairwise fun put put' => put.writeId < put'.writeId
  lt : ∀ put ∈ issued, put.writeId < writeIdCounter
  last : tree.lastWriteId < writeIdCounter
  count : writeIdCounter = issued.length

namespace Pending

variable [TreeKey κ] {tree : FWriteTree κ} {writeIdCounter : ℤ} {put : FOutstandingPut κ}
  {completed waiting waiting' issued : List (FOutstandingPut κ)}

theorem of_perm (h : Pending tree writeIdCounter completed waiting issued)
    (hperm : waiting'.Perm waiting) : Pending tree writeIdCounter completed waiting' issued :=
  { h with perm := (hperm.append_left completed).trans h.perm }

theorem lt_of_completed (h : Pending tree writeIdCounter completed waiting issued) {id : ℤ}
    (hid : id ∈ completed.map FOutstandingPut.writeId) : id < writeIdCounter := by
  obtain ⟨put, hput, rfl⟩ := List.mem_map.1 hid
  exact h.lt put (h.perm.subset (List.mem_append_left _ hput))

theorem add (h : Pending tree writeIdCounter completed waiting issued) (path : List κ)
    (node : FNode) :
    ∃ tree', tree.addOverwriteAtPath path node writeIdCounter true = some tree' ∧
      Pending tree' (writeIdCounter + 1) completed (waiting ++ [⟨path, node, writeIdCounter⟩])
        (issued ++ [⟨path, node, writeIdCounter⟩]) := by
  have hadd : tree.addOverwriteAtPath path node writeIdCounter true = some _ := if_pos h.last
  have hnew : writeIdCounter ∉ completed.map FOutstandingPut.writeId := fun hid =>
    lt_irrefl _ (h.lt_of_completed hid)
  refine ⟨_, hadd, ?_, ?_, ?_, fun put hput => ?_, lt_add_one _, ?_⟩
  · rw [← List.append_assoc]
    exact h.perm.append_right _
  · rw [List.filter_append, List.map_append, ← h.allWrites, List.filter_eq_self.2]
    · rfl
    · simpa using hnew
  · refine List.pairwise_append.2 ⟨h.ids, List.pairwise_singleton _ _, fun put hput put' hput' => ?_⟩
    rw [List.mem_singleton.1 hput']
    exact h.lt put hput
  · rcases List.mem_append.1 hput with hput | hput
    · exact (h.lt put hput).trans (lt_add_one _)
    · rw [List.mem_singleton.1 hput]
      exact lt_add_one writeIdCounter
  · rw [h.count, List.length_append, List.length_singleton, Nat.cast_succ]

theorem nodup (h : Pending tree writeIdCounter completed waiting issued) :
    ((completed ++ waiting).map FOutstandingPut.writeId).Nodup := by
  refine (h.perm.map _).nodup_iff.2 ?_
  exact (List.pairwise_map.2 h.ids).imp ne_of_lt

theorem eq_of_writeId (h : Pending tree writeIdCounter completed waiting issued)
    {put put' : FOutstandingPut κ} (hput : put ∈ issued) (hput' : put' ∈ issued)
    (hid : put.writeId = put'.writeId) : put = put' := by
  have hnodup : (issued.map FOutstandingPut.writeId).Nodup :=
    List.pairwise_map.2 (h.ids.imp ne_of_lt)
  exact List.inj_on_of_nodup_map hnodup hput hput' hid

theorem not_mem_completed (h : Pending tree writeIdCounter completed (put :: waiting) issued) :
    put.writeId ∉ completed.map FOutstandingPut.writeId := by
  have hnodup := h.nodup
  rw [List.map_append, List.nodup_append] at hnodup
  exact fun hid => hnodup.2.2 _ hid _ List.mem_cons_self rfl

theorem lastWriteId_lt (h : Pending tree writeIdCounter completed waiting issued)
    {before after : List (FWriteRecord κ)} {w : FWriteRecord κ} {result : Bool × FWriteTree κ}
    (hremoval : FWriteTree.Removal tree before w after result)
    (hall : tree.allWrites = before ++ w :: after) : result.2.lastWriteId < writeIdCounter := by
  cases hremoval with
  | overlapping =>
    show ((before ++ after).getLast?.map FWriteRecord.writeId).getD (-1) < writeIdCounter
    cases hgetLast : (before ++ after).getLast? with
    | none =>
      rw [h.count]
      exact neg_one_lt_zero.trans_le (Int.natCast_nonneg _)
    | some v =>
      have hv : v ∈ tree.allWrites := by
        rw [hall]
        rcases List.mem_append.1 (List.mem_of_getLast? hgetLast) with hv | hv
        · exact List.mem_append_left _ hv
        · exact List.mem_append_right _ (List.mem_cons_of_mem w hv)
      rw [h.allWrites] at hv
      obtain ⟨put, hput, rfl⟩ := List.mem_map.1 hv
      exact h.lt put (List.mem_of_mem_filter hput)
  | _ => exact h.last

/-- A put is completed that has not been completed before. -/
theorem remove (h : Pending tree writeIdCounter completed (put :: waiting) issued) :
    ∃ result, tree.removeWriteId put.writeId = some result ∧
      Pending result.2 writeIdCounter (completed ++ [put]) waiting issued := by
  have hput : put.record ∈ tree.allWrites := by
    rw [h.allWrites]
    refine List.mem_map_of_mem (List.mem_filter.2 ⟨?_, decide_eq_true h.not_mem_completed⟩)
    exact h.perm.subset (List.mem_append_right _ List.mem_cons_self)
  obtain ⟨result, hresult⟩ : ∃ result, tree.removeWriteId put.writeId = some result := by
    have hfind : (tree.allWrites.findIdx? fun record => record.writeId = put.writeId).isSome := by
      rw [List.findIdx?_isSome]
      exact List.any_eq_true.2 ⟨put.record, hput, decide_eq_true rfl⟩
    obtain ⟨index, hindex⟩ := Option.isSome_iff_exists.1 hfind
    obtain ⟨hlt, -⟩ := List.findIdx?_eq_some_iff_getElem.1 hindex
    unfold FWriteTree.removeWriteId
    rw [hindex, Option.bind_some, List.getElem?_eq_getElem hlt]
    exact ⟨_, rfl⟩
  refine ⟨result, hresult, ?_, ?_, h.ids, h.lt, ?_, h.count⟩
  · rw [List.append_assoc]
    exact h.perm
  · obtain ⟨before, w, after, hall, hid, hbefore, hremoval⟩ := FWriteTree.removeWriteId_cases hresult
    have hids : tree.allWrites.Pairwise fun v v' => v.writeId < v'.writeId := by
      rw [h.allWrites]
      exact List.pairwise_map.2 (h.ids.sublist List.filter_sublist)
    rw [hall] at hids
    have hafter : ∀ v ∈ after, v.writeId ≠ put.writeId := fun v hv => by
      rw [← hid]
      exact ((List.pairwise_cons.1 (List.pairwise_append.1 hids).2.1).1 v hv).ne'
    have hfilter : tree.allWrites.filter (fun v => v.writeId ≠ put.writeId) = before ++ after := by
      rw [hall, List.filter_append, List.filter_cons_of_neg (by simp [hid]),
        List.filter_eq_self.2 fun v hv => decide_eq_true (hbefore v hv),
        List.filter_eq_self.2 fun v hv => decide_eq_true (hafter v hv)]
    rw [hremoval.allWrites, ← hfilter, h.allWrites, List.filter_map, List.filter_filter]
    congr 1
    refine List.filter_congr fun put' _ => ?_
    rw [Bool.eq_iff_iff, Bool.and_eq_true, Function.comp, decide_eq_true_iff, decide_eq_true_iff,
      decide_eq_true_iff, List.map_append, List.mem_append, not_or, List.map_singleton,
      List.mem_singleton]
    exact and_comm
  · obtain ⟨before, w, after, hall, -, -, hremoval⟩ := FWriteTree.removeWriteId_cases hresult
    exact h.lastWriteId_lt hremoval hall

end Pending

/-! ## The accounts of a client -/

/-- The server reports no error, and does not answer that a write has been canceled. -/
def FServerMessage.Proper : FServerMessage κ → Prop
  | .response _ status => status ≠ kFErrorWriteCanceled
  | .error _ => False
  | _ => True

namespace FRepo

variable [TreeKey κ] {c c' c₁ : FRepo κ π} {callbacks : List (ℕ × FCallback κ π)} {due : ℕ}

variable {issued : List (FOutstandingPut κ)} {put : FOutstandingPut κ} {status : String}

/-- The puts whose completion blocks have not been called. -/
def waiting (self : FRepo κ π) : List (FOutstandingPut κ) :=
  self.putsToAck.map Prod.fst ++ self.outstandingPuts.map Prod.snd

/-- What holds of the puts. -/
structure Accounts (c : FRepo κ π) (issued : List (FOutstandingPut κ)) : Prop where
  numbered : Numbered c.outstandingPuts c.putCounter
  pending : Pending c.pendingWriteTree c.writeIdCounter (c.completed.map Prod.fst) c.waiting issued
  acks : ∀ putToAck ∈ c.putsToAck, putToAck.2 ≠ kFErrorWriteCanceled
  sent : ∀ entry ∈ sentPuts c.requestCBHash, entry.2 ∈ issued

theorem Accounts.mem_issued (h : c.Accounts issued) {entry : ℕ × FOutstandingPut κ}
    (hentry : entry ∈ c.outstandingPuts) : entry.2 ∈ issued := by
  refine h.pending.perm.subset (List.mem_append_right _ (List.mem_append_right _ ?_))
  exact List.mem_map_of_mem hentry

theorem Accounts.of_samePuts (h : c.Accounts issued) (hsame : SamePuts c c')
    (hsent : ∀ entry ∈ sentPuts c'.requestCBHash, entry.2 ∈ issued) : c'.Accounts issued := by
  refine ⟨?_, ?_, ?_, hsent⟩
  · rw [hsame.outstandingPuts, hsame.putCounter]
    exact h.numbered
  · unfold waiting
    rw [hsame.pendingWriteTree, hsame.writeIdCounter, hsame.completed, hsame.putsToAck,
      hsame.outstandingPuts]
    exact h.pending
  · rw [hsame.putsToAck]
    exact h.acks

theorem Sends.requestCBHash (h : c.Sends callbacks c') :
    c'.requestCBHash = c.requestCBHash ++ callbacks := by
  obtain ⟨requests, realtime, n, listens, listenSpecs, -, -, rfl⟩ := h
  rfl

theorem Accounts.sends (h : c.Accounts issued) (hsends : c.Sends callbacks c')
    (hputs : sentPuts callbacks ⊆ c.outstandingPuts) : c'.Accounts issued := by
  refine h.of_samePuts hsends.samePuts fun entry hentry => ?_
  rw [hsends.requestCBHash, sentPuts_append] at hentry
  rcases List.mem_append.1 hentry with hentry | hentry
  · exact h.sent entry hentry
  · exact h.mem_issued (hputs hentry)

theorem Accounts.moves (h : c.Accounts issued) (hwired : c'.Wired 0) (hmoves : c.Moves c') :
    c'.Accounts issued := by
  cases hmoves with
  | off hoff hputs =>
    refine h.of_samePuts hputs ?_
    rw [hwired.idle hoff]
    exact nofun
  | sends hsame hsends hputs =>
    have h₁ := h.of_samePuts hsame.toSamePuts fun entry hentry => h.sent entry <| by
      rwa [hsame.requestCBHash] at hentry
    refine h₁.sends hsends ?_
    rw [hputs]
    exact List.nil_subset _
  | starts hstate hputs hrealtime hhash hnumber hsends hstarts =>
    have h₁ := h.of_samePuts hputs <| by
      rw [hhash]
      exact nofun
    refine h₁.sends hsends ?_
    rcases hstarts with ⟨-, hnone, -⟩ | ⟨-, hsent, -⟩
    · rw [hnone]
      exact List.nil_subset _
    · rw [hsent]
      exact List.Subset.refl _

theorem exists_onComplete {waiting : List (FOutstandingPut κ)}
    (h : Pending c.pendingWriteTree c.writeIdCounter (c.completed.map Prod.fst) (put :: waiting)
      issued) (hstatus : status ≠ kFErrorWriteCanceled) :
    ∃ pendingWriteTree, c.onComplete put status = some
        { c with completed := c.completed ++ [(put, status)], pendingWriteTree } ∧
      Pending pendingWriteTree c.writeIdCounter ((c.completed ++ [(put, status)]).map Prod.fst)
        waiting issued := by
  obtain ⟨result, hremove, hpending⟩ := h.remove
  refine ⟨result.2, ?_, ?_⟩
  · unfold onComplete
    rw [if_neg hstatus, hremove, Option.map_some]
  · rw [List.map_append]
    exact hpending

theorem exists_ackPuts {waiting : List (FOutstandingPut κ)}
    (h : Pending c.pendingWriteTree c.writeIdCounter (c.completed.map Prod.fst)
      (c.putsToAck.map Prod.fst ++ waiting) issued)
    (hacks : ∀ putToAck ∈ c.putsToAck, putToAck.2 ≠ kFErrorWriteCanceled) :
    ∃ pendingWriteTree, c.ackPuts = some
        { c with completed := c.completed ++ c.putsToAck, pendingWriteTree, putsToAck := [] } ∧
      Pending pendingWriteTree c.writeIdCounter ((c.completed ++ c.putsToAck).map Prod.fst) waiting
        issued := by
  suffices hfold : ∀ (acks : List (FOutstandingPut κ × String)) (c : FRepo κ π),
      Pending c.pendingWriteTree c.writeIdCounter (c.completed.map Prod.fst)
        (acks.map Prod.fst ++ waiting) issued →
      (∀ putToAck ∈ acks, putToAck.2 ≠ kFErrorWriteCanceled) →
      ∃ pendingWriteTree,
        acks.foldlM (fun (c : FRepo κ π) putToAck => c.onComplete putToAck.1 putToAck.2) c = some
          { c with completed := c.completed ++ acks, pendingWriteTree } ∧
        Pending pendingWriteTree c.writeIdCounter ((c.completed ++ acks).map Prod.fst) waiting
          issued by
    obtain ⟨pendingWriteTree, hall, hpending⟩ := hfold c.putsToAck c h hacks
    refine ⟨pendingWriteTree, ?_, hpending⟩
    unfold ackPuts
    rw [hall, Option.map_some]
  intro acks
  induction acks with
  | nil => exact fun c h _ => ⟨c.pendingWriteTree, by simp, by simpa using h⟩
  | cons entry acks ih =>
    intro c h hacks
    obtain ⟨hentry, hacks⟩ := List.forall_mem_cons.1 hacks
    obtain ⟨tree, hcomplete, htree⟩ := exists_onComplete h hentry
    obtain ⟨tree', hall, htree'⟩ := ih
      { c with completed := c.completed ++ [(entry.1, entry.2)], pendingWriteTree := tree } htree
      hacks
    refine ⟨tree', ?_, ?_⟩
    · rw [List.foldlM_cons, hcomplete]
      refine hall.trans ?_
      simp
    · simpa using htree'

/-! ### Writing -/

/-- What a `set:` does. -/
inductive Issues (c : FRepo κ π) (put : FOutstandingPut κ) : FRepo κ π → Prop
  | waits (pendingWriteTree : FWriteTree κ) (hstate : c.connectionState ≠ .connected) :
    Issues c put
      { c with
        writeIdCounter := c.writeIdCounter + 1
        pendingWriteTree
        putCounter := c.putCounter + 1
        outstandingPuts := c.outstandingPuts ++ [(c.putCounter, put)] }
  | sends (pendingWriteTree : FWriteTree κ) {c' : FRepo κ π} (hstate : c.connectionState = .connected)
    (hsends : Sends
      { c with
        writeIdCounter := c.writeIdCounter + 1
        pendingWriteTree
        putCounter := c.putCounter + 1
        outstandingPuts := c.outstandingPuts ++ [(c.putCounter, put)] }
      [(c.requestNumber, .put c.putCounter put)] c') : Issues c put c'

theorem exists_set (h : c.Wired 0) (haccounts : c.Accounts issued) (path : List κ)
    (node : FNode) :
    ∃ c', c.set path node = some c' ∧ c'.Wired 0 ∧
      c'.Accounts (issued ++ [⟨path, node, c.writeIdCounter⟩]) ∧
      c.Issues ⟨path, node, c.writeIdCounter⟩ c' := by
  obtain ⟨tree, hadd, hpending⟩ := haccounts.pending.add path node
  let put : FOutstandingPut κ := ⟨path, node, c.writeIdCounter⟩
  let c₁ : FRepo κ π :=
    { c with
      writeIdCounter := c.writeIdCounter + 1
      pendingWriteTree := tree
      putCounter := c.putCounter + 1
      outstandingPuts := c.outstandingPuts ++ [(c.putCounter, put)] }
  have hnumbered := haccounts.numbered.concat put
  have h₁ : c₁.Wired 0 := { h with }
  have haccounts₁ : c₁.Accounts (issued ++ [put]) := by
    refine ⟨hnumbered, ?_, haccounts.acks, fun entry hentry => ?_⟩
    · refine hpending.of_perm (List.Perm.of_eq ?_)
      show c.putsToAck.map Prod.fst ++ (c.outstandingPuts ++ [(c.putCounter, put)]).map Prod.snd =
        c.putsToAck.map Prod.fst ++ c.outstandingPuts.map Prod.snd ++ [put]
      rw [List.map_append, List.append_assoc, List.map_singleton]
    · exact List.mem_append_left _ (haccounts.sent entry hentry)
  have hset : c.set path node = if c₁.canSendWrites then c₁.sendPut c.putCounter else some c₁ := by
    unfold set
    dsimp only
    rw [hadd, Option.bind_some]
    unfold putInternal
    dsimp only
    rw [haccounts.numbered.setObject]
  rw [hset]
  by_cases hstate : c.connectionState = .connected
  · have hobject : objectForKey c₁.outstandingPuts c.putCounter = some put :=
      hnumbered.objectForKey (List.mem_append_right _ List.mem_cons_self)
    obtain ⟨c', hsend, hsends⟩ :=
      sends_sendPut (h₁.isOpen (isConnected_iff.2 (Or.inr hstate))) h₁.numbered hstate hobject
    refine ⟨c', (if_pos (decide_eq_true hstate)).trans hsend, h₁.sends hsends,
      haccounts₁.sends hsends ?_, .sends tree hstate hsends⟩
    exact List.cons_subset.2 ⟨List.mem_append_right _ List.mem_cons_self, List.nil_subset _⟩
  · exact ⟨c₁, if_neg fun hsend => hstate (of_decide_eq_true hsend), h₁, haccounts₁,
      .waits tree hstate⟩

/-- What holds of a client that has issued the puts. -/
structure Sound (c : FRepo κ π) (issued : List (FOutstandingPut κ)) : Prop where
  wired : c.Wired 0
  accounts : c.Accounts issued

theorem sound_init : Sound ({} : FRepo κ π) [] where
  wired := ⟨rfl, nofun, nofun, nofun, fun _ => rfl, numbered_nil _, rfl⟩
  accounts :=
    ⟨numbered_nil _, ⟨List.Perm.nil, rfl, .nil, nofun, neg_one_lt_zero, rfl⟩, nofun, nofun⟩

/-! ### Messages -/

/-- What the response to a request does, when its callback has been forgotten. -/
inductive Responds (c : FRepo κ π) (status : String) : FCallback κ π → FRepo κ π → Prop
  | stats : Responds c status .stats c
  | auth (hok : status = kFWPResponseForActionStatusOk) :
    Responds c status (.auth false) { c with connectionState := .connected }
  | restore {c' : FRepo κ π} {callbacks : List (ℕ × FCallback κ π)}
    (hok : status = kFWPResponseForActionStatusOk)
    (hsends : Sends { c with connectionState := .connected } callbacks c')
    (hputs : sentPuts callbacks = c.outstandingPuts)
    (hauth : ∀ entry ∈ callbacks, entry.2.auth? = none) : Responds c status (.auth true) c'
  | refused {c' : FRepo κ π} (restore : Bool) (hoff : c'.isConnected = false)
    (hputs : SamePuts c c') : Responds c status (.auth restore) c'
  | listen {c' : FRepo κ π} {callbacks : List (ℕ × FCallback κ π)} {n : ℕ}
    (query : FQuerySpec κ π) (listenSpec : ℕ) (hsends : c.Sends callbacks c')
    (hlistens : ∀ entry ∈ callbacks, entry.2.isListen = true)
    (hdue : c'.unackedListensCount = n + 2) :
    Responds c status (.listen query listenSpec) { c' with unackedListensCount := n + 1 }
  | lastListen {c' : FRepo κ π} {callbacks : List (ℕ × FCallback κ π)} (query : FQuerySpec κ π)
    (listenSpec : ℕ) (hsends : c.Sends callbacks c')
    (hlistens : ∀ entry ∈ callbacks, entry.2.isListen = true) (hdue : c'.unackedListensCount = 1)
    (pendingWriteTree : FWriteTree κ) :
    Responds c status (.listen query listenSpec)
      { c' with
        unackedListensCount := 0
        completed := c.completed ++ c.putsToAck
        pendingWriteTree
        putsToAck := [] }
  | stale (index : ℕ) (put : FOutstandingPut κ)
    (hstale : objectForKey c.outstandingPuts index ≠ some put) : Responds c status (.put index put) c
  | complete {index : ℕ} {put : FOutstandingPut κ}
    (hput : objectForKey c.outstandingPuts index = some put) (hdue : c.unackedListensCount = 0)
    (pendingWriteTree : FWriteTree κ) :
    Responds c status (.put index put)
      { c with
        outstandingPuts := removeObjectForKey c.outstandingPuts index
        completed := c.completed ++ [(put, status)]
        pendingWriteTree }
  | defer {index : ℕ} {put : FOutstandingPut κ}
    (hput : objectForKey c.outstandingPuts index = some put) (hdue : c.unackedListensCount ≠ 0) :
    Responds c status (.put index put)
      { c with
        outstandingPuts := removeObjectForKey c.outstandingPuts index
        putsToAck := c.putsToAck ++ [(put, status)] }

theorem Wired.connect (h : c.Wired due) (hconnected : c.isConnected = true) :
    Wired { c with connectionState := .connected } due := by
  obtain ⟨sent, hsent⟩ := h.isOpen hconnected
  refine ⟨⟨sent, hsent⟩, fun hscheduled => ?_, h.fetches, h.fetching, nofun, h.numbered, h.unacked⟩
  have hstate := h.scheduled hscheduled
  simp [isConnected, hstate] at hconnected

/-- The callback of a request is forgotten. -/
theorem Wired.forget (h : c.Wired 0) {n : ℕ} {callback : FCallback κ π}
    (hcallback : objectForKey c.requestCBHash n = some callback) :
    Wired { c with requestCBHash := removeObjectForKey c.requestCBHash n }
      (if callback.isListen then 1 else 0) := by
  have hconnected := h.isConnected_of_mem (mem_of_objectForKey hcallback)
  refine ⟨h.realtime, h.scheduled, h.fetches, h.fetching,
    fun hoff => absurd (hconnected.symm.trans hoff) nofun, h.numbered.removeObjectForKey n, ?_⟩
  exact h.unacked.trans (sentListens_removeObjectForKey h.numbered hcallback)

section

variable [DecidableEq π]

/-- The listens that the sync tree starts. -/
theorem sends_started (c : FRepo κ π) (h : c.Wired due) (started : List (FQuerySpec κ π))
    (hnodup : started.Nodup) (hnew : ∀ query ∈ started, objectForKey c.listens query = none) :
    ∃ c' callbacks, started.foldlM listen c = some c' ∧ c.Sends callbacks c' ∧
      ∀ entry ∈ callbacks, entry.2.isListen = true := by
  induction started generalizing c with
  | nil => exact ⟨c, [], rfl, sends_refl c, by simp⟩
  | cons query started ih =>
    obtain ⟨hquery, hnew⟩ := List.forall_mem_cons.1 hnew
    obtain ⟨hnotin, hnodup⟩ := List.nodup_cons.1 hnodup
    obtain ⟨c₁, callbacks, hlisten, hsends, hlistens, listenSpec, hset⟩ :=
      sends_listen h.isOpen h.numbered hquery
    obtain ⟨c', callbacks', hfold, hsends', hlistens'⟩ := ih c₁ (h.sends hsends) hnodup
      fun query' hquery' => by
        rw [hset]
        exact objectForKey_setObject_of_ne (hnew query' hquery') (ne_of_mem_of_not_mem hquery' hnotin)
    refine ⟨c', callbacks ++ callbacks', ?_, hsends.trans hsends', fun entry hentry => ?_⟩
    · rw [List.foldlM_cons, hlisten]
      exact hfold
    · exact (List.mem_append.1 hentry).elim (hlistens entry) (hlistens' entry)

theorem exists_callback_auth (h : c.Wired 0) (haccounts : c.Accounts issued)
    (hconnected : c.isConnected = true) (restore : Bool) (started : List (FQuerySpec κ π)) :
    ∃ c', c.callback status started (.auth restore) = some c' ∧ c'.Wired 0 ∧
      c'.Accounts issued ∧ c.Responds status (.auth restore) c' := by
  have hwired := h.connect hconnected
  have haccounts₁ : Accounts { c with connectionState := .connected } issued := { haccounts with }
  unfold callback
  dsimp only
  by_cases hok : status = kFWPResponseForActionStatusOk
  · rw [if_pos hok]
    cases restore with
    | true =>
      obtain ⟨c', callbacks, hrestore, hsends, hputs, hauth⟩ := sends_restoreState
        (c := { c with connectionState := .connected }) (hwired.isOpen rfl) h.numbered rfl
        haccounts.numbered
      refine ⟨c', hrestore, hwired.sends hsends, ?_, .restore hok hsends hputs hauth⟩
      exact haccounts₁.sends hsends (by rw [hputs]; exact List.Subset.refl _)
    | false => exact ⟨_, rfl, hwired, haccounts₁, .auth hok⟩
  · rw [if_neg hok]
    have hwired₁ : Wired { c with connectionState := .connected, authToken := none } 0 :=
      { hwired with }
    obtain ⟨c', hclose, hoff, hputs, hwired', -⟩ := exists_close hwired₁
    have hsame : SamePuts c c' := ⟨hputs.1, hputs.2, hputs.3, hputs.4, hputs.5, hputs.6⟩
    refine ⟨c', hclose, hwired' hwired₁, haccounts.of_samePuts hsame ?_, .refused restore hoff hsame⟩
    rw [(hwired' hwired₁).idle hoff]
    exact nofun

theorem exists_callback_listen (h : c.Wired 1) (haccounts : c.Accounts issued)
    (query : FQuerySpec κ π) (listenSpec : ℕ) {started : List (FQuerySpec κ π)}
    (hnodup : started.Nodup)
    (hnew : ∀ query' ∈ started, objectForKey (removeObjectForKey c.listens query) query' = none) :
    ∃ c', c.callback status started (.listen query listenSpec) = some c' ∧ c'.Wired 0 ∧
      c'.Accounts issued ∧ c.Responds status (.listen query listenSpec) c' := by
  obtain ⟨c₁, callbacks, hstart, hsends, hlistens⟩ : ∃ c₁ callbacks,
      (if objectForKey c.listens query = some listenSpec ∧ status ≠ kFWPResponseForActionStatusOk
        then started.foldlM listen (c.removeListen query) else some c) = some c₁ ∧
      c.Sends callbacks c₁ ∧ ∀ entry ∈ callbacks, entry.2.isListen = true := by
    split_ifs
    · have hremove : c.Sends [] (c.removeListen query) := c.sends_listens _ _
      obtain ⟨c₁, callbacks, hfold, hsends, hlistens⟩ :=
        sends_started (c.removeListen query) (h.sends hremove) started hnodup hnew
      exact ⟨c₁, callbacks, hfold, hremove.trans hsends, hlistens⟩
    · exact ⟨c, [], rfl, sends_refl c, by simp⟩
  have h₁ : c₁.Wired 1 := h.sends hsends
  have haccounts₁ : c₁.Accounts issued := haccounts.sends hsends <| by
    rw [sentPuts_eq_nil hlistens]
    exact List.nil_subset _
  have hunacked := h₁.unacked
  unfold callback
  dsimp only
  rw [hstart, Option.bind_some]
  cases hcount : sentListens c₁.requestCBHash with
  | zero =>
    rw [hcount, Nat.zero_add] at hunacked
    rw [hunacked]
    obtain ⟨tree, hack, htree⟩ :=
      exists_ackPuts (c := { c₁ with unackedListensCount := 0 }) haccounts₁.pending haccounts₁.acks
    refine ⟨_, hack, { h₁ with unacked := hcount.symm }, ?_, ?_⟩
    · exact { haccounts₁ with pending := htree, acks := by simp }
    · have hsame := hsends.samePuts
      have hresponds : c.Responds status (.listen query listenSpec) _ :=
        .lastListen query listenSpec hsends hlistens hunacked tree
      rw [← hsame.completed, ← hsame.putsToAck] at hresponds
      exact hresponds
  | succ n =>
    rw [hcount] at hunacked
    rw [hunacked]
    refine ⟨_, rfl, { h₁ with unacked := hcount.symm }, { haccounts₁ with }, ?_⟩
    exact .listen query listenSpec hsends hlistens hunacked

theorem exists_callback_put (h : c.Wired 0) (haccounts : c.Accounts issued) (index : ℕ)
    (hissued : put ∈ issued) (hstatus : status ≠ kFErrorWriteCanceled)
    (started : List (FQuerySpec κ π)) :
    ∃ c', c.callback status started (.put index put) = some c' ∧ c'.Wired 0 ∧
      c'.Accounts issued ∧ c.Responds status (.put index put) c' := by
  unfold callback
  dsimp only
  by_cases hput : objectForKey c.outstandingPuts index = some put
  · have hwaiting : (c.waiting).Perm
        (put :: (c.putsToAck.map Prod.fst ++
          (removeObjectForKey c.outstandingPuts index).map Prod.snd)) :=
      (((haccounts.numbered.perm hput).map Prod.snd).append_left _).trans List.perm_middle
    have hremoved := haccounts.numbered.removeObjectForKey index
    rw [hput, Option.map_some, if_pos rfl]
    by_cases hdue : c.unackedListensCount = 0
    · obtain ⟨tree, hcomplete, htree⟩ := exists_onComplete
        (c := { c with outstandingPuts := removeObjectForKey c.outstandingPuts index })
        (haccounts.pending.of_perm hwaiting.symm) hstatus
      refine ⟨_, (if_pos hdue).trans hcomplete, { h with }, ?_, .complete hput hdue tree⟩
      exact { haccounts with numbered := hremoved, pending := htree }
    · refine ⟨_, if_neg hdue, { h with }, ?_, .defer hput hdue⟩
      refine { haccounts with numbered := hremoved, pending := ?_, acks := ?_ }
      · refine haccounts.pending.of_perm (List.Perm.trans ?_ hwaiting.symm)
        unfold waiting
        rw [List.map_append, List.append_assoc]
        exact List.perm_middle
      · intro putToAck hack
        rcases List.mem_append.1 hack with hack | hack
        · exact haccounts.acks putToAck hack
        · rwa [List.mem_singleton.1 hack]
  · refine ⟨c, if_neg fun hid => hput ?_, h, haccounts, .stale index put hput⟩
    obtain ⟨put', hput', hid⟩ := Option.map_eq_some_iff.1 hid
    have hissued' : put' ∈ issued := haccounts.mem_issued (mem_of_objectForKey hput')
    rw [hput', haccounts.pending.eq_of_writeId hissued' hissued hid]

theorem exists_response (h : c.Wired 0) (haccounts : c.Accounts issued) {n : ℕ}
    {callback : FCallback κ π} (hcallback : objectForKey c.requestCBHash n = some callback)
    (hstatus : status ≠ kFErrorWriteCanceled) {started : List (FQuerySpec κ π)}
    (hnodup : started.Nodup)
    (hnew : ∀ query ∈ started, objectForKey (c.listensAfter (.response n status)) query = none) :
    ∃ c', c.onDataMessage started (.response n status) = some c' ∧ c'.Wired 0 ∧
      c'.Accounts issued ∧
      Responds { c with requestCBHash := removeObjectForKey c.requestCBHash n } status callback
        c' := by
  have hmem := mem_of_objectForKey hcallback
  have hwired := h.forget hcallback
  have haccounts₀ :
      Accounts { c with requestCBHash := removeObjectForKey c.requestCBHash n } issued :=
    haccounts.of_samePuts ⟨rfl, rfl, rfl, rfl, rfl, rfl⟩ fun entry hentry =>
      haccounts.sent entry ((List.filter_sublist.filterMap _).subset hentry)
  unfold onDataMessage
  dsimp only
  rw [hcallback]
  dsimp only
  cases callback with
  | stats => exact ⟨_, rfl, hwired, haccounts₀, .stats⟩
  | auth restore =>
    exact exists_callback_auth hwired haccounts₀ (h.isConnected_of_mem hmem) restore started
  | listen query listenSpec =>
    unfold listensAfter at hnew
    simp only [hcallback] at hnew
    exact exists_callback_listen hwired haccounts₀ query listenSpec hnodup hnew
  | put index put =>
    have hissued : put ∈ issued :=
      haccounts.sent (index, put) (List.mem_filterMap.2 ⟨_, hmem, rfl⟩)
    exact exists_callback_put hwired haccounts₀ index hissued hstatus started

/-- What a message does. -/
inductive Receives (c : FRepo κ π) : FServerMessage κ → FRepo κ π → Prop
  | response {n : ℕ} {status : String} {callback : FCallback κ π} {c' : FRepo κ π}
    (hcallback : objectForKey c.requestCBHash n = some callback)
    (hresponds : Responds { c with requestCBHash := removeObjectForKey c.requestCBHash n } status
      callback c') : Receives c (.response n status) c'
  | unexpected {n : ℕ} (status : String) (hcallback : objectForKey c.requestCBHash n = none) :
    Receives c (.response n status) c
  | other {message : FServerMessage κ} {c' : FRepo κ π}
    (hmessage : ∀ n status, message ≠ .response n status) (hmoves : c.Moves c') :
    Receives c message c'

theorem exists_listenRevoked (h : c.Wired 0) (path : List κ) {started : List (FQuerySpec κ π)}
    (hnodup : started.Nodup)
    (hnew : ∀ query ∈ started, objectForKey (c.listensAfter (.listenRevoked path)) query = none) :
    ∃ c', c.onDataMessage started (.listenRevoked path) = some c' ∧ c'.Wired 0 ∧ c.Moves c' := by
  let c₁ : FRepo κ π :=
    { c with listens := c.listens.filter fun listen => listen.1.path ≠ path }
  have h₁ : c₁.Wired 0 := { h with }
  have hsame : SameWires c c₁ := ⟨⟨rfl, rfl, rfl, rfl, rfl, rfl⟩, rfl, rfl, rfl, rfl, rfl⟩
  obtain ⟨c', callbacks, hfold, hsends, hlistens⟩ := sends_started c₁ h₁ started hnodup hnew
  unfold onDataMessage
  dsimp only
  split_ifs
  · exact ⟨c₁, rfl, h₁, hsame.moves⟩
  · exact ⟨c', hfold, h₁.sends hsends,
      .sends hsame hsends (sentPuts_eq_nil hlistens) (auth?_of_isListen hlistens)⟩

theorem exists_onDataMessage (h : c.Wired 0) (haccounts : c.Accounts issued)
    {message : FServerMessage κ} {started : List (FQuerySpec κ π)} (hmessage : message.Proper)
    (hnodup : started.Nodup)
    (hnew : ∀ query ∈ started, objectForKey (c.listensAfter message) query = none) :
    ∃ c', c.onDataMessage started message = some c' ∧ c'.Wired 0 ∧ c'.Accounts issued ∧
      c.Receives message c' := by
  have hother {c' : FRepo κ π} (hmessage : ∀ n status, message ≠ .response n status)
      (hstep : c.onDataMessage started message = some c') (hwired : c'.Wired 0)
      (hmoves : c.Moves c') :
      ∃ c', c.onDataMessage started message = some c' ∧ c'.Wired 0 ∧ c'.Accounts issued ∧
        c.Receives message c' :=
    ⟨c', hstep, hwired, haccounts.moves hwired hmoves, .other hmessage hmoves⟩
  cases message with
  | response n status =>
    cases hcallback : objectForKey c.requestCBHash n with
    | none =>
      refine ⟨c, ?_, h, haccounts, .unexpected status hcallback⟩
      unfold onDataMessage
      dsimp only
      rw [hcallback]
    | some callback =>
      obtain ⟨c', hstep, hwired, haccounts', hresponds⟩ :=
        exists_response h haccounts hcallback hmessage hnodup hnew
      exact ⟨c', hstep, hwired, haccounts', .response hcallback hresponds⟩
  | error reason => exact hmessage.elim
  | dataPush => exact hother nofun rfl h (sameWires_refl c).moves
  | authRevoked =>
    obtain ⟨c', hclose, hwired, hmoves⟩ := exists_authRevoked h
    exact hother nofun hclose hwired hmoves
  | listenRevoked path =>
    obtain ⟨c', hstep, hwired, hmoves⟩ := exists_listenRevoked h path hnodup hnew
    exact hother nofun hstep hwired hmoves
  | shutdown =>
    obtain ⟨c', hinterrupt, hwired, hmoves⟩ := exists_interruptForReason h kFInterruptReasonServerKill
    exact hother nofun hinterrupt hwired hmoves

/-! ### Runs -/

/-- A listen is started only when there is none for its query. -/
def Call.Proper (c : FRepo κ π) : Call κ π → Prop
  | .listen query => objectForKey c.listens query = none
  | _ => True

theorem exists_perform (h : c.Wired 0) (hputs : Numbered c.outstandingPuts c.putCounter)
    {call : Call κ π} (hcall : call.Proper c) (hwrite : call.write? = none) :
    ∃ c', c.perform call = some c' ∧ c'.Wired 0 ∧ c.Moves c' := by
  cases call with
  | set path node => exact nomatch hwrite
  | listen query =>
    obtain ⟨c', callbacks, hlisten, hsends, hlistens, -⟩ := sends_listen h.isOpen h.numbered hcall
    exact ⟨c', hlisten, h.sends hsends, .sends (sameWires_refl c) hsends (sentPuts_eq_nil hlistens)
      (auth?_of_isListen hlistens)⟩
  | unlisten query =>
    obtain ⟨c', hunlisten, hsends⟩ := sends_unlisten h.isOpen query
    exact ⟨c', hunlisten, h.sends hsends, .sends (sameWires_refl c) hsends rfl (by simp)⟩
  | refreshAuthToken token =>
    obtain ⟨c', callbacks, hrefresh, hsends, hauth⟩ :=
      sends_refreshAuthToken h.isOpen h.numbered token
    have h₁ : Wired { c with authToken := token } 0 := { h with }
    have hsame : SameWires c { c with authToken := token } :=
      ⟨⟨rfl, rfl, rfl, rfl, rfl, rfl⟩, rfl, rfl, rfl, rfl, rfl⟩
    refine ⟨c', hrefresh, h₁.sends hsends, .sends hsame hsends ?_ fun entry hentry => ?_⟩
    · refine List.filterMap_eq_nil_iff.2 fun entry hentry => ?_
      rw [hauth entry hentry]
      rfl
    · rw [hauth entry hentry]
      exact nofun
  | interrupt reason => exact exists_interruptForReason h reason
  | resume reason => exact exists_resumeForReason h reason
  | reachable => exact exists_becameReachable h
  | retry => exact exists_retry h
  | tokenFetched attempt result => exact exists_tokenFetched h attempt result
  | ready => exact exists_onReady h hputs
  | close =>
    obtain ⟨c', hclose, hoff, hsame, hwired, -⟩ := exists_close h
    exact ⟨c', hclose, hwired h, .off hoff hsame⟩

/-- The calls and messages that do not fail: the sync tree starts no listen that the client has. -/
def Takes (c : FRepo κ π) : Event κ π → Prop
  | .call call => call.Proper c
  | .message message started =>
    message.Proper ∧ started.Nodup ∧
      ∀ query ∈ started, objectForKey (c.listensAfter message) query = none

theorem Sound.step {es : List (Event κ π)} (h : c.Sound (puts es)) {e : Event κ π}
    (he : c.Takes e) : ∃ c', c.step e = some c' ∧ c'.Sound (puts (es ++ [e])) := by
  have hkeep {c' : FRepo κ π} (hwrite : e.write? = none) (hwired : c'.Wired 0)
      (haccounts : c'.Accounts (puts es)) : c'.Sound (puts (es ++ [e])) := by
    rw [puts_concat_of_none hwrite]
    exact ⟨hwired, haccounts⟩
  cases e with
  | call call =>
    cases hwrite : call.write? with
    | none =>
      obtain ⟨c', hperform, hwired, hmoves⟩ := exists_perform h.wired h.accounts.numbered he hwrite
      exact ⟨c', hperform, hkeep hwrite hwired (h.accounts.moves hwired hmoves)⟩
    | some write =>
      obtain ⟨path, node, rfl⟩ : ∃ path node, call = .set path node := by
        cases call with
        | set path node => exact ⟨path, node, rfl⟩
        | _ => exact nomatch hwrite
      obtain ⟨c', hset, hwired, haccounts, -⟩ := exists_set h.wired h.accounts path node
      rw [h.accounts.pending.count] at haccounts
      rw [puts_concat_set]
      exact ⟨c', hset, hwired, haccounts⟩
  | message message started =>
    obtain ⟨hmessage, hnodup, hnew⟩ := he
    by_cases hreal : c.realtime.isSome
    · obtain ⟨c', hstep, hwired, haccounts, -⟩ :=
        exists_onDataMessage h.wired h.accounts hmessage hnodup hnew
      exact ⟨c', (if_pos hreal).trans hstep, hkeep rfl hwired haccounts⟩
    · exact ⟨c, if_neg hreal, hkeep rfl h.wired h.accounts⟩

/-- Whatever happens to the connection, no assertion fails, and each put is completed once or waits
for it once, with its write pending. -/
theorem exists_run_accounted {es : List (Event κ π)}
    (hes : Runs.Along step Takes ({} : FRepo κ π) es) :
    ∃ c', Runs.run step {} es = some c' ∧
      (c'.completed.map Prod.fst ++ c'.waiting).Perm (puts es) ∧
      c'.pendingWriteTree.allWrites =
        ((puts es).filter fun put =>
          put.writeId ∉ (c'.completed.map Prod.fst).map FOutstandingPut.writeId).map
          FOutstandingPut.record := by
  obtain ⟨c', hrun, hsound⟩ := Runs.exists_run_of_along (I := fun es c => Sound c (puts es))
    (fun es c e hc he => hc.step he) sound_init hes
  exact ⟨c', hrun, hsound.accounts.pending.perm, hsound.accounts.pending.allWrites⟩

end

section Witness

open FWriteTree

/-- The answer to a put is put off, since a listen waits for its response.  The connection is lost
with another put on it, which is sent again and refused on the next one. -/
def resentEvents : List (Event LetterKey Unit) :=
  [.call (.listen ⟨[farm], ()⟩), .call (.resume kFInterruptReasonWaitingForOpen), .call .retry,
    .call (.tokenFetched 1 (some none)), .call .ready,
    .call (.set [farm, light] (.leafNode (.string "on"))), .message (.response 3 "ok") [],
    .call (.set [farm] .emptyNode), .call .close, .call .retry,
    .call (.tokenFetched 2 (some none)), .call .ready, .message (.response 6 "denied") [],
    .message (.response 5 "ok") []]

theorem takes_resentEvents : Runs.Along step Takes ({} : FRepo LetterKey Unit) resentEvents := by
  have hmessage (n : ℕ) {status : String} (hstatus : status ≠ kFErrorWriteCanceled)
      (c : FRepo LetterKey Unit) : c.Takes (.message (.response n status) []) :=
    ⟨hstatus, List.nodup_nil, by simp⟩
  refine ⟨rfl, fun c _ => Runs.along_of_forall ?_ c⟩
  simp only [List.forall_mem_cons]
  exact ⟨fun _ => trivial, fun _ => trivial, fun _ => trivial, fun _ => trivial, fun _ => trivial,
    hmessage 3 (by decide), fun _ => trivial, fun _ => trivial, fun _ => trivial, fun _ => trivial,
    fun _ => trivial, hmessage 6 (by decide), hmessage 5 (by decide), by simp⟩

theorem exists_run_accounted_resentEvents :
    ∃ c', Runs.run step ({} : FRepo LetterKey Unit) resentEvents = some c' ∧
      (c'.completed.map Prod.fst ++ c'.waiting).Perm (puts resentEvents) ∧
      c'.pendingWriteTree.allWrites =
        ((puts resentEvents).filter fun put =>
          put.writeId ∉ (c'.completed.map Prod.fst).map FOutstandingPut.writeId).map
          FOutstandingPut.record :=
  exists_run_accounted takes_resentEvents

end Witness

end FRepo

end IndoorFarm
