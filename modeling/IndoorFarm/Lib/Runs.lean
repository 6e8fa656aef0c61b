import Mathlib.Data.List.Basic
import Mathlib.Data.List.Induction

/-!
# Runs of a step function

A system is a step function `next : σ → ε → Option σ`: from a state and an event to the next state,
or to `none` when the event stops the system.  `run` folds it over a list of events, and
`Along next P s es` says that `P` holds of every state and event met on the way, up to the event
that stops the run.

`Along` is what a property of every step of every run is stated with.  It is established from an
invariant (`along_of_invariant`) and, when the property holds of a step exactly under a condition,
transferred to the condition (`along_iff_of_invariant`).

`Since next P Q s es` says that `P` has held of a step of the run and `Q` of every step after it:
what the end of a run owes to its past.  `since_of_run` establishes it of a fact that cannot hold in
a state unless a `P` step has just made it or it held before and the step was a `Q` step.

`Passed next view act s es v` says that `v` is what a state of the run was seen as, changed as `act`
says at each step from there to some later point.  `run_invariant_of_passed` establishes what the
end of a run owes to the states passed.

For a total step, `view_foldl_filter` reduces what an observer sees to the events that are its own.
-/

namespace Runs

section Partial

variable {σ ε : Type*} (next : σ → ε → Option σ)

/-- The state after a list of events, `none` when one of them stops the system. -/
def run : σ → List ε → Option σ
  | s, [] => some s
  | s, e :: es => (next s e).bind fun s' => run s' es

/-- `P` holds at every step of the run of `es` from `s`. -/
def Along (P : σ → ε → Prop) : σ → List ε → Prop
  | _, [] => True
  | s, e :: es => P s e ∧ ∀ s', next s e = some s' → Along P s' es

/-- `P` holds at a step of the run of `es` from `s`, and `Q` at every step after it. -/
def Since (P Q : σ → ε → Prop) : σ → List ε → Prop
  | _, [] => False
  | s, e :: es => ∃ s', next s e = some s' ∧ (P s e ∧ Along next Q s' es ∨ Since P Q s' es)

variable {next}

@[simp] theorem run_nil (s : σ) : run next s [] = some s := rfl

theorem run_cons (s : σ) (e : ε) (es : List ε) :
    run next s (e :: es) = (next s e).bind fun s' => run next s' es := rfl

theorem run_append (s : σ) (es es' : List ε) :
    run next s (es ++ es') = (run next s es).bind fun s' => run next s' es' := by
  induction es generalizing s with
  | nil => rfl
  | cons e es ih =>
    rw [List.cons_append, run_cons, run_cons, Option.bind_assoc]
    simp only [ih]

/-- An invariant of the steps holds in the state a run ends in. -/
theorem run_invariant {I : σ → Prop} (hstep : ∀ s e s', I s → next s e = some s' → I s')
    {s s' : σ} {es : List ε} (hs : I s) (h : run next s es = some s') : I s' := by
  induction es generalizing s with
  | nil =>
    obtain rfl := Option.some.inj h
    exact hs
  | cons e es ih =>
    rw [run_cons, Option.bind_eq_some_iff] at h
    obtain ⟨t, ht, h⟩ := h
    exact ih (hstep s e t hs ht) h

/-- So does an invariant of the steps that meet a condition, if all steps of the run meet it. -/
theorem run_invariant_of_along {I : σ → Prop} {C : σ → ε → Prop}
    (hstep : ∀ s e s', I s → C s e → next s e = some s' → I s') {s s' : σ} {es : List ε} (hs : I s)
    (hC : Along next C s es) (h : run next s es = some s') : I s' := by
  induction es generalizing s with
  | nil =>
    obtain rfl := Option.some.inj h
    exact hs
  | cons e es ih =>
    rw [run_cons, Option.bind_eq_some_iff] at h
    obtain ⟨t, ht, h⟩ := h
    exact ih (hstep s e t hs hC.1 ht) (hC.2 t ht) h

/-- Events none of which stops the system, and which keep an invariant, have a run that keeps it. -/
theorem exists_run_of_invariant {I : σ → Prop} {C : ε → Prop}
    (hstep : ∀ s e, I s → C e → ∃ s', next s e = some s' ∧ I s') {s : σ} {es : List ε} (hs : I s)
    (hes : ∀ e ∈ es, C e) : ∃ s', run next s es = some s' ∧ I s' := by
  induction es generalizing s with
  | nil => exact ⟨s, rfl, hs⟩
  | cons e es ih =>
    obtain ⟨s₁, hnext, hs₁⟩ := hstep s e hs (hes e List.mem_cons_self)
    obtain ⟨s', hrun, hs'⟩ := ih hs₁ fun e' he' => hes e' (List.mem_cons_of_mem e he')
    refine ⟨s', ?_, hs'⟩
    rw [run_cons, hnext, Option.bind_some, hrun]

/-- Two runs one after the other. -/
theorem run_append_of_run {s s' s'' : σ} {es es' : List ε} (h : run next s es = some s')
    (h' : run next s' es' = some s'') : run next s (es ++ es') = some s'' := by
  rw [run_append, h, Option.bind_some, h']

theorem run_singleton (s : σ) (e : ε) : run next s [e] = next s e :=
  Option.bind_fun_some (next s e)

@[simp] theorem along_nil (P : σ → ε → Prop) (s : σ) : Along next P s [] := trivial

theorem along_cons {P : σ → ε → Prop} {s : σ} {e : ε} {es : List ε} :
    Along next P s (e :: es) ↔ P s e ∧ ∀ s', next s e = some s' → Along next P s' es := Iff.rfl

theorem along_append {P : σ → ε → Prop} {s : σ} {es es' : List ε} :
    Along next P s (es ++ es') ↔
      Along next P s es ∧ ∀ s', run next s es = some s' → Along next P s' es' := by
  induction es generalizing s with
  | nil => simp
  | cons e es ih =>
    simp only [List.cons_append, along_cons, ih, run_cons, Option.bind_eq_some_iff]
    constructor
    · rintro ⟨hP, h⟩
      exact ⟨⟨hP, fun s₁ hs₁ => (h s₁ hs₁).1⟩, fun s' ⟨s₁, hs₁, hrun⟩ => (h s₁ hs₁).2 s' hrun⟩
    · rintro ⟨⟨hP, h⟩, h'⟩
      exact ⟨hP, fun s₁ hs₁ => ⟨h s₁ hs₁, fun s' hrun => h' s' ⟨s₁, hs₁, hrun⟩⟩⟩

theorem along_and {P Q : σ → ε → Prop} {s : σ} {es : List ε} (hP : Along next P s es)
    (hQ : Along next Q s es) : Along next (fun s e => P s e ∧ Q s e) s es := by
  induction es generalizing s with
  | nil => trivial
  | cons e es ih => exact ⟨⟨hP.1, hQ.1⟩, fun s' hs' => ih (hP.2 s' hs') (hQ.2 s' hs')⟩

theorem along_and_iff_of_forall {P : σ → ε → Prop} {Q : ε → Prop} {s : σ} {es : List ε}
    (hQ : ∀ e ∈ es, Q e) :
    Along next (fun s e => P s e ∧ Q e) s es ↔ Along next P s es := by
  induction es generalizing s with
  | nil => exact Iff.rfl
  | cons e es ih =>
    obtain ⟨he, hes⟩ := List.forall_mem_cons.1 hQ
    simp only [along_cons, and_iff_left he, ih hes]

theorem along_of_forall {P : σ → ε → Prop} {es : List ε} (h : ∀ e ∈ es, ∀ s, P s e) (s : σ) :
    Along next P s es := by
  induction es generalizing s with
  | nil => trivial
  | cons e es ih =>
    obtain ⟨he, hes⟩ := List.forall_mem_cons.1 h
    exact ⟨he s, fun s' _ => ih hes s'⟩

theorem Along.imp {P Q : σ → ε → Prop} {s : σ} {es : List ε} (h : Along next P s es)
    (hPQ : ∀ s e, P s e → Q s e) : Along next Q s es := by
  induction es generalizing s with
  | nil => trivial
  | cons e es ih => exact ⟨hPQ s e h.1, fun s' hs' => ih (h.2 s' hs')⟩

/-- Events none of which stops the system have a run, and it keeps an invariant that speaks of the
events so far. -/
theorem exists_run_of_along {I : List ε → σ → Prop} {C : σ → ε → Prop}
    (hstep : ∀ es s e, I es s → C s e → ∃ s', next s e = some s' ∧ I (es ++ [e]) s') {s : σ}
    {es : List ε} (hs : I [] s) (hC : Along next C s es) :
    ∃ s', run next s es = some s' ∧ I es s' := by
  induction es using List.reverseRecOn with
  | nil => exact ⟨s, rfl, hs⟩
  | append_singleton es e ih =>
    obtain ⟨hC, hlast⟩ := along_append.1 hC
    obtain ⟨s₁, hrun, hs₁⟩ := ih hC
    obtain ⟨s', hnext, hs'⟩ := hstep es s₁ e hs₁ (hlast s₁ hrun).1
    exact ⟨s', run_append_of_run hrun ((run_singleton ..).trans hnext), hs'⟩

/-- A property that follows, at each step, from an invariant and a condition on the step holds along
every run whose steps meet the condition. -/
theorem along_of_invariant {I : σ → Prop} {C P : σ → ε → Prop}
    (hstep : ∀ s e s', I s → C s e → next s e = some s' → I s') (hP : ∀ s e, I s → C s e → P s e)
    {s : σ} {es : List ε} (hs : I s) (h : Along next C s es) : Along next P s es := by
  induction es generalizing s with
  | nil => trivial
  | cons e es ih =>
    exact ⟨hP s e hs h.1, fun s' hs' => ih (hstep s e s' hs h.1 hs') (h.2 s' hs')⟩

/-- A property that holds of a step exactly when the condition does holds along a run exactly when
all its steps meet the condition. -/
theorem along_iff_of_invariant {I : σ → Prop} {C P : σ → ε → Prop}
    (hstep : ∀ s e s', I s → C s e → next s e = some s' → I s') (hP : ∀ s e, I s → (P s e ↔ C s e))
    {s : σ} {es : List ε} (hs : I s) : Along next P s es ↔ Along next C s es := by
  refine ⟨fun h => ?_, along_of_invariant hstep (fun s e hi => (hP s e hi).2) hs⟩
  refine along_of_invariant (I := I) (fun s e s' hi hp => hstep s e s' hi ((hP s e hi).1 hp))
    (fun s e hi => (hP s e hi).1) hs h

/-- What holds at the end of a run held all the time, or has been brought about by a `P` step after
which all steps were `Q` steps. -/
theorem along_or_since_of_run {I J : σ → Prop} {P Q : σ → ε → Prop}
    (hinv : ∀ s e s', I s → next s e = some s' → I s')
    (hstep : ∀ s e s', I s → next s e = some s' → J s' → P s e ∨ J s ∧ Q s e) {s s' : σ}
    {es : List ε} (hs : I s) (hrun : run next s es = some s') (hJ : J s') :
    (J s ∧ Along next Q s es) ∨ Since next P Q s es := by
  induction es generalizing s with
  | nil =>
    obtain rfl := Option.some.inj hrun
    exact Or.inl ⟨hJ, trivial⟩
  | cons e es ih =>
    rw [run_cons, Option.bind_eq_some_iff] at hrun
    obtain ⟨t, ht, hrun⟩ := hrun
    rcases ih (hinv s e t hs ht) hrun with ⟨hJt, halong⟩ | hsince
    · rcases hstep s e t hs ht hJt with hP | ⟨hJs, hQ⟩
      · exact Or.inr ⟨t, ht, Or.inl ⟨hP, halong⟩⟩
      · refine Or.inl ⟨hJs, hQ, fun t' ht' => ?_⟩
        obtain rfl := Option.some.inj (ht.symm.trans ht')
        exact halong
    · exact Or.inr ⟨t, ht, Or.inr hsince⟩

/-- What does not hold at the start of a run and holds at its end. -/
theorem since_of_run {I J : σ → Prop} {P Q : σ → ε → Prop}
    (hinv : ∀ s e s', I s → next s e = some s' → I s')
    (hstep : ∀ s e s', I s → next s e = some s' → J s' → P s e ∨ J s ∧ Q s e) {s s' : σ}
    {es : List ε} (hs : I s) (h0 : ¬ J s) (hrun : run next s es = some s') (hJ : J s') :
    Since next P Q s es :=
  (along_or_since_of_run hinv hstep hs hrun hJ).resolve_left fun h => h0 h.1

/-! ### What a run has passed -/

section Passed

variable {τ : Type*}

variable (next) in
/-- A value taken along the run of `es` from `s`, changed at each step as `act` says. -/
def carry (act : σ → ε → τ → τ) : σ → List ε → τ → τ
  | _, [], v => v
  | s, e :: es, v => (next s e).elim v fun s' => carry act s' es (act s e v)

variable (next) in
/-- The view of a state that the run of `es` from `s` passes, taken along to the end of the run. -/
def Carried (view : σ → τ) (act : σ → ε → τ → τ) (s : σ) (es : List ε) (v : τ) : Prop :=
  ∃ before mid t, es = before ++ mid ∧ run next s before = some t ∧
    carry next act t mid (view t) = v

variable (next) in
/-- The view of a state that the run of `es` from `s` passes, taken along for a while. -/
def Passed (view : σ → τ) (act : σ → ε → τ → τ) (s : σ) (es : List ε) (v : τ) : Prop :=
  ∃ before after, es = before ++ after ∧ Carried next view act s before v

variable {view : σ → τ} {act : σ → ε → τ → τ} {s s₁ s' t : σ} {e : ε} {es mid : List ε} {v : τ}

theorem carry_concat (hrun : run next t mid = some s₁) (hnext : next s₁ e = some s') (v : τ) :
    carry next act t (mid ++ [e]) v = act s₁ e (carry next act t mid v) := by
  induction mid generalizing t v with
  | nil =>
    obtain rfl := Option.some.inj hrun
    simp only [List.nil_append, carry, hnext, Option.elim_some]
  | cons e' mid ih =>
    rw [run_cons, Option.bind_eq_some_iff] at hrun
    obtain ⟨t', ht', hrun⟩ := hrun
    rw [List.cons_append, carry, carry, ht']
    exact ih hrun _

theorem carried_self (hrun : run next s es = some s') : Carried next view act s es (view s') :=
  ⟨es, [], s', (List.append_nil es).symm, hrun, rfl⟩

theorem Carried.concat (h : Carried next view act s es v) (hrun : run next s es = some s₁)
    (hnext : next s₁ e = some s') : Carried next view act s (es ++ [e]) (act s₁ e v) := by
  obtain ⟨before, mid, t, rfl, hbefore, rfl⟩ := h
  rw [run_append, hbefore, Option.bind_some] at hrun
  exact ⟨before, mid ++ [e], t, List.append_assoc .., hbefore, carry_concat hrun hnext _⟩

theorem Carried.passed (h : Carried next view act s es v) : Passed next view act s es v :=
  ⟨es, [], (List.append_nil es).symm, h⟩

theorem Passed.concat (h : Passed next view act s es v) (e : ε) :
    Passed next view act s (es ++ [e]) v := by
  obtain ⟨before, after, rfl, h⟩ := h
  exact ⟨before, after ++ [e], List.append_assoc .., h⟩

/-- An invariant that speaks of what is taken along (`live`) and of what has ever been (`passed`),
and which each step keeps when it changes the one as `act` says and adds its own view, holds at the
end of a run of what the run has carried and passed. -/
theorem run_invariant_of_passed {I : (τ → Prop) → (τ → Prop) → σ → Prop}
    (hmono : ∀ live live' passed passed' : τ → Prop, (∀ v, live v → live' v) →
      (∀ v, passed v → passed' v) → ∀ s, I live passed s → I live' passed' s)
    (hstep : ∀ live passed s e s', (∀ v, live v → passed v) → I live passed s →
      next s e = some s' → I (fun v => v = view s' ∨ ∃ u, live u ∧ act s e u = v) passed s')
    (hs : I (· = view s) (· = view s) s) (h : run next s es = some s') :
    I (Carried next view act s es) (Passed next view act s es) s' := by
  induction es using List.reverseRecOn generalizing s' with
  | nil =>
    obtain rfl := Option.some.inj h
    have hself : Carried next view act s [] (view s) := carried_self rfl
    exact hmono _ _ _ _ (fun v hv => hv ▸ hself) (fun v hv => hv ▸ hself.passed) _ hs
  | append_singleton es e ih =>
    rw [run_append, Option.bind_eq_some_iff] at h
    obtain ⟨s₁, hrun, h⟩ := h
    rw [run_singleton] at h
    refine hmono _ _ _ _ (fun v hv => ?_) (fun v hv => hv.concat e) _
      (hstep _ _ _ _ _ (fun v => Carried.passed) (ih hrun) h)
    rcases hv with rfl | ⟨u, hu, rfl⟩
    · exact carried_self (run_append_of_run hrun ((run_singleton ..).trans h))
    · exact hu.concat hrun h

end Passed

end Partial

section Total

variable {σ τ ε : Type*}

/-- An observer whose view is changed only by its own events sees a run as its own events alone. -/
theorem view_foldl_filter (view : σ → τ) (own : ε → Prop) [DecidablePred own] {f : σ → ε → σ}
    {g : τ → ε → τ} (hown : ∀ s e, own e → view (f s e) = g (view s) e)
    (hother : ∀ s e, ¬ own e → view (f s e) = view s) (es : List ε) (s : σ) :
    view (es.foldl f s) = (es.filter own).foldl g (view s) := by
  induction es generalizing s with
  | nil => rfl
  | cons e es ih =>
    rw [List.foldl_cons, ih]
    by_cases h : own e
    · rw [List.filter_cons_of_pos (by simpa using h), List.foldl_cons, hown s e h]
    · rw [List.filter_cons_of_neg (by simpa using h), hother s e h]

/-- Deleting the events that are not the observer's own does not change what it sees. -/
theorem view_purge (view : σ → τ) (own : ε → Prop) [DecidablePred own] {f : σ → ε → σ}
    {g : τ → ε → τ} (hown : ∀ s e, own e → view (f s e) = g (view s) e)
    (hother : ∀ s e, ¬ own e → view (f s e) = view s) (es : List ε) (s : σ) :
    view (es.foldl f s) = view ((es.filter own).foldl f s) := by
  rw [view_foldl_filter view own hown hother, view_foldl_filter view own hown hother,
    List.filter_filter]
  simp

end Total

end Runs
