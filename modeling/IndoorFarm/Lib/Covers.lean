import IndoorFarm.Lib.PathLens

/-!
# Writes to a tree that is not known

Writes at paths determine the nodes at the paths they cover, whatever tree they are made to.  A
cover is the partial map of these nodes: `Cover.write` adds a write to it, `layer` is the cover of a
list of writes, the oldest first, and `putAll` makes the writes to a tree.

* `get_putAll_of_layer`: after the writes every tree reads as their cover says;
* `get_putAll_of_not_meets`, `get_putAll_above`: and as before where no write meets the path, or as
  the writes below the path say;
* `AgreeOff.writeAll_eq`: covers that differ only below the path of a write are the same after it,
  which is why a write that a later one covers can be forgotten;
* `restrict_write`: the cover below a path has the writes below the path.
-/

namespace PathLens

open ChildLens

variable {N K : Type*} [EmptyCollection N] [ChildLens N K]

theorem get_append (n : N) (p q : List K) : get n (p ++ q) = get (get n p) q := by
  induction p generalizing n with
  | nil => rfl
  | cons k p ih => rw [List.cons_append, get_cons, ih, get_cons]

/-- One of the paths is above the other, or they are the same. -/
def Meets (p q : List K) : Prop := p <+: q ∨ q <+: p

theorem Meets.symm {p q : List K} (h : Meets p q) : Meets q p := Or.symm h

theorem meets_of_common {p q r : List K} (hp : p <+: r) (hq : q <+: r) : Meets p q :=
  List.prefix_or_prefix_of_prefix hp hq

theorem meets_append {p q s : List K} (h : ¬ Meets p q) : ¬ Meets (p ++ s) q := by
  rintro (hm | hm)
  · exact h (Or.inl ((List.prefix_append p s).trans hm))
  · exact h (meets_of_common (List.prefix_append p s) hm)

theorem prefix_append_short {p q s : List K} (h : p <+: q ++ s) (hs : s.length ≤ 1) :
    p <+: q ∨ p = q ++ s := by
  by_cases hlen : p.length ≤ q.length
  · exact Or.inl (List.prefix_of_prefix_length_le h (List.prefix_append q s) hlen)
  · have hle : (q ++ s).length ≤ p.length := by
      rw [List.length_append]
      omega
    exact Or.inr (h.eq_of_length_le hle)

/-- What writes determine of a tree: the nodes at some of its paths. -/
abbrev Cover (N K : Type*) := List K → Option N

variable [DecidableEq K]

/-- The cover with the node at the path `p` replaced by `c`. -/
def Cover.write (f : Cover N K) (p : List K) (c : N) : Cover N K := fun q =>
  if p <+: q then some (get c (q.drop p.length))
  else (f q).map fun n => if q <+: p then put n (p.drop q.length) c else n

/-- The cover after the writes, the first one first. -/
def Cover.writeAll (f : Cover N K) (ws : List (List K × N)) : Cover N K :=
  ws.foldl (fun f w => f.write w.1 w.2) f

/-- The cover of a list of writes. -/
def layer (ws : List (List K × N)) : Cover N K := Cover.writeAll (fun _ => none) ws

omit [DecidableEq K] in
/-- The tree after the writes, the first one first. -/
def putAll (n : N) (ws : List (List K × N)) : N := ws.foldl (fun n w => put n w.1 w.2) n

namespace Cover

variable {f f' : Cover N K} {p q : List K} {c : N} {ws us : List (List K × N)}

/-! ## One write -/

@[simp] theorem write_append (f : Cover N K) (p q : List K) (c : N) :
    f.write p c (p ++ q) = some (get c q) := by
  rw [Cover.write, if_pos (List.prefix_append p q), List.drop_left]

theorem write_of_not_meets (h : ¬ Meets p q) : f.write p c q = f q := by
  obtain ⟨hpq, hqp⟩ := not_or.1 h
  rw [Cover.write, if_neg hpq]
  simp only [if_neg hqp, Option.map_id']

theorem write_eq_none_iff : f.write p c q = none ↔ f q = none ∧ ¬ p <+: q := by
  rw [Cover.write]
  by_cases h : p <+: q
  · simp [h]
  · simp [h]

/-! ## Lists of writes -/

@[simp] theorem writeAll_nil (f : Cover N K) : f.writeAll [] = f := rfl

@[simp] theorem writeAll_cons (f : Cover N K) (w : List K × N) (ws : List (List K × N)) :
    f.writeAll (w :: ws) = (f.write w.1 w.2).writeAll ws := rfl

theorem writeAll_append (f : Cover N K) (us ws : List (List K × N)) :
    f.writeAll (us ++ ws) = (f.writeAll us).writeAll ws := List.foldl_append

theorem layer_append (us ws : List (List K × N)) : layer (us ++ ws) = (layer us).writeAll ws :=
  writeAll_append _ us ws

theorem writeAll_eq_none_iff :
    f.writeAll ws q = none ↔ f q = none ∧ ∀ w ∈ ws, ¬ w.1 <+: q := by
  induction ws generalizing f with
  | nil => simp
  | cons w ws ih => rw [writeAll_cons, ih, write_eq_none_iff, List.forall_mem_cons, and_assoc]

theorem writeAll_of_not_meets (h : ∀ w ∈ ws, ¬ Meets w.1 q) : f.writeAll ws q = f q := by
  induction ws generalizing f with
  | nil => rfl
  | cons w ws ih =>
    obtain ⟨hw, hws⟩ := List.forall_mem_cons.1 h
    rw [writeAll_cons, ih hws, write_of_not_meets hw]

/-- Writes that do not meet each other are all there in the end. -/
theorem layer_eq_some_iff (h : ws.Pairwise fun a b => ¬ Meets a.1 b.1) :
    layer ws q = some c ↔ ∃ w ∈ ws, ∃ r, q = w.1 ++ r ∧ c = get w.2 r := by
  have hlayer : ∀ w ∈ ws, ∀ r, layer ws (w.1 ++ r) = some (get w.2 r) := by
    intro w hw r
    obtain ⟨before, after, rfl⟩ := List.append_of_mem hw
    have hafter : ∀ w' ∈ after, ¬ Meets w'.1 (w.1 ++ r) := by
      intro w' hw' hmeets
      have hne := (List.pairwise_cons.1 (List.pairwise_append.1 h).2.1).1 w' hw'
      rcases hmeets with hm | hm
      · exact hne (meets_of_common (List.prefix_append w.1 r) hm)
      · exact hne (Or.inl ((List.prefix_append w.1 r).trans hm))
    rw [layer, writeAll_append, writeAll_cons, writeAll_of_not_meets hafter, write_append]
  constructor
  · intro hq
    have hne : ¬ ∀ w ∈ ws, ¬ w.1 <+: q := fun hall => by
      rw [layer, writeAll_eq_none_iff.2 ⟨rfl, hall⟩] at hq
      exact nomatch hq
    push Not at hne
    obtain ⟨w, hw, r, rfl⟩ := hne
    rw [hlayer w hw r, Option.some.injEq] at hq
    exact ⟨w, hw, r, rfl, hq.symm⟩
  · rintro ⟨w, hw, r, rfl, rfl⟩
    exact hlayer w hw r

/-! ## Covers that agree off a set of paths -/

/-- The covers differ in `S` only. -/
def AgreeOff (S : List K → Prop) (f f' : Cover N K) : Prop := ∀ q, ¬ S q → f q = f' q

variable {S : List K → Prop}

theorem AgreeOff.write (h : AgreeOff S f f') (p : List K) (c : N) :
    AgreeOff S (f.write p c) (f'.write p c) := by
  intro q hq
  rw [Cover.write, Cover.write, h q hq]

theorem AgreeOff.writeAll (h : AgreeOff S f f') (ws : List (List K × N)) :
    AgreeOff S (f.writeAll ws) (f'.writeAll ws) := by
  induction ws generalizing f f' with
  | nil => exact h
  | cons w ws ih => exact ih (h.write w.1 w.2)

/-- A write above all paths in question settles them. -/
theorem AgreeOff.write_eq (h : AgreeOff S f f') (hp : ∀ q, S q → p <+: q) (c : N) :
    f.write p c = f'.write p c := by
  funext q
  by_cases hq : p <+: q
  · rw [Cover.write, Cover.write, if_pos hq, if_pos hq]
  · rw [Cover.write, Cover.write, h q fun hS => hq (hp q hS)]

/-- So does a list of writes with one above all paths in question. -/
theorem AgreeOff.writeAll_eq (h : AgreeOff S f f') {w : List K × N} (hw : w ∈ ws)
    (hp : ∀ q, S q → w.1 <+: q) : f.writeAll ws = f'.writeAll ws := by
  obtain ⟨before, after, rfl⟩ := List.append_of_mem hw
  rw [writeAll_append, writeAll_append, writeAll_cons, writeAll_cons,
    (h.writeAll before).write_eq hp]

/-- Writes that reach all of `S` change nothing else of a cover without a node above them. -/
theorem agreeOff_writeAll (hbelow : ∀ u ∈ us, ∀ q, u.1 <+: q → S q)
    (habove : ∀ u ∈ us, ∀ q, q <+: u.1 → ¬ S q → f q = none) : AgreeOff S (f.writeAll us) f := by
  induction us using List.reverseRecOn with
  | nil => exact fun q _ => rfl
  | append_singleton us u ih =>
    have hf := ih (fun u hu => hbelow u (List.mem_append_left _ hu))
      fun u hu => habove u (List.mem_append_left _ hu)
    have hu : u ∈ us ++ [u] := List.mem_append_right _ (List.mem_singleton_self u)
    intro q hq
    rw [writeAll_append, writeAll_cons, writeAll_nil, Cover.write,
      if_neg fun h => hq (hbelow u hu q h), hf q hq]
    by_cases hqu : q <+: u.1
    · rw [habove u hu q hqu hq, Option.map_none]
    · simp only [if_neg hqu, Option.map_id']

/-- Writes that a later write covers can be forgotten, if they meet no earlier one. -/
theorem layer_of_shadowed {before us after : List (List K × N)} (hp : ∀ u ∈ us, p <+: u.1)
    (hbefore : ∀ u ∈ us, ∀ w ∈ before, ¬ Meets w.1 u.1) {w : List K × N} (hw : w ∈ after)
    (hwp : w.1 <+: p) : layer (before ++ us ++ after) = layer (before ++ after) := by
  have hagree : AgreeOff (fun q => p <+: q) ((layer before).writeAll us) (layer before) := by
    refine agreeOff_writeAll (fun u hu q hq => (hp u hu).trans hq) fun u hu q hq _ => ?_
    exact writeAll_eq_none_iff.2 ⟨rfl, fun b hb hbq => hbefore u hu b hb (Or.inl (hbq.trans hq))⟩
  rw [layer_append, layer_append, layer_append]
  exact hagree.writeAll_eq hw fun q hq => hwp.trans hq

/-- The cover without what is at the paths of the writes and below. -/
def eraseAll (f : Cover N K) (ps : List (List K)) : Cover N K := fun q =>
  if ∃ p ∈ ps, p <+: q then none else f q

omit [EmptyCollection N] [ChildLens N K] in
theorem eraseAll_eraseAll (f : Cover N K) (ps qs : List (List K)) :
    (f.eraseAll ps).eraseAll qs = f.eraseAll (ps ++ qs) := by
  funext q
  unfold eraseAll
  by_cases hp : ∃ p ∈ ps, p <+: q
  · rw [if_pos hp, ite_self]
    obtain ⟨p, hmem, hpq⟩ := hp
    exact (if_pos ⟨p, List.mem_append_left qs hmem, hpq⟩).symm
  · rw [if_neg hp]
    refine if_congr ⟨fun ⟨p, hmem, h⟩ => ⟨p, List.mem_append_right ps hmem, h⟩, ?_⟩ rfl rfl
    rintro ⟨p, hmem, h⟩
    rcases List.mem_append.1 hmem with hmem | hmem
    · exact absurd ⟨p, hmem, h⟩ hp
    · exact ⟨p, hmem, h⟩

/-- Writes that meet no other write can be erased again. -/
theorem eraseAll_layer {before us after : List (List K × N)}
    (h : ∀ u ∈ us, ∀ w ∈ before ++ after, ¬ Meets w.1 u.1) :
    (layer (before ++ us ++ after)).eraseAll (us.map Prod.fst) = layer (before ++ after) := by
  have hlayer : ∀ u ∈ us, ∀ q, (q <+: u.1 ∨ u.1 <+: q) → layer (before ++ after) q = none := by
    intro u hu q hq
    refine writeAll_eq_none_iff.2 ⟨rfl, fun w hw hwq => h u hu w hw ?_⟩
    rcases hq with hq | hq
    · exact Or.inl (hwq.trans hq)
    · exact meets_of_common hwq hq
  have hbefore : ∀ u ∈ us, ∀ q, q <+: u.1 → layer before q = none := by
    intro u hu q hq
    refine writeAll_eq_none_iff.2 ⟨rfl, fun w hw hwq => ?_⟩
    exact h u hu w (List.mem_append_left _ hw) (Or.inl (hwq.trans hq))
  funext q
  rw [eraseAll]
  split_ifs with hq
  · obtain ⟨p, hp, hpq⟩ := hq
    obtain ⟨u, hu, rfl⟩ := List.mem_map.1 hp
    exact (hlayer u hu q (Or.inr hpq)).symm
  · have hagree : AgreeOff (fun q => ∃ p ∈ us.map Prod.fst, p <+: q)
        ((layer before).writeAll us) (layer before) :=
      agreeOff_writeAll (fun u hu q hq => ⟨u.1, List.mem_map_of_mem hu, hq⟩)
        fun u hu q hq _ => hbefore u hu q hq
    have heq := hagree.writeAll after q hq
    rwa [layer_append, layer_append, layer_append]

end Cover

/-! ## The tree after the writes -/

section PutAll

variable {n : N} {p q : List K} {c : N} {ws : List (List K × N)}

omit [DecidableEq K] in
@[simp] theorem putAll_nil (n : N) : putAll n ([] : List (List K × N)) = n := rfl

omit [DecidableEq K] in
@[simp] theorem putAll_cons (n : N) (w : List K × N) (ws : List (List K × N)) :
    putAll n (w :: ws) = putAll (put n w.1 w.2) ws := rfl

omit [DecidableEq K] in
theorem putAll_append (n : N) (us ws : List (List K × N)) :
    putAll n (us ++ ws) = putAll (putAll n us) ws := List.foldl_append

/-- A tree that reads as a cover says still does so after a write to both. -/
theorem get_put_of_cover [LawfulNames N K] {f : Cover N K}
    (h : ∀ q c, f q = some c → get n q = c) {c' : N} (hq : f.write p c q = some c') :
    get (put n p c) q = c' := by
  rw [Cover.write] at hq
  by_cases hpq : p <+: q
  · obtain ⟨t, rfl⟩ := hpq
    rw [if_pos (List.prefix_append p t), List.drop_left, Option.some.injEq] at hq
    rw [get_append, get_put_self, hq]
  · rw [if_neg hpq] at hq
    obtain ⟨d, hd, rfl⟩ := Option.map_eq_some_iff.1 hq
    by_cases hqp : q <+: p
    · obtain ⟨t, rfl⟩ := hqp
      rw [if_pos (List.prefix_append q t), get_put_above, List.drop_left, h q d hd]
    · rw [if_neg hqp, get_put_of_incomparable n c hpq hqp, h q d hd]

theorem get_putAll_of_cover [LawfulNames N K] {f : Cover N K}
    (h : ∀ q c, f q = some c → get n q = c) (hq : f.writeAll ws q = some c) :
    get (putAll n ws) q = c := by
  induction ws generalizing n f with
  | nil => exact h q c hq
  | cons w ws ih => exact ih (fun q' c' => get_put_of_cover h) hq

/-- After the writes, every tree reads as their cover says. -/
theorem get_putAll_of_layer [LawfulNames N K] (n : N) (hq : layer ws q = some c) :
    get (putAll n ws) q = c :=
  get_putAll_of_cover (f := fun _ => none) (by simp) hq

omit [DecidableEq K] in
/-- At a path that no write meets, the tree reads as before. -/
theorem get_putAll_of_not_meets [LawfulNames N K] (n : N) (h : ∀ w ∈ ws, ¬ Meets w.1 q) :
    get (putAll n ws) q = get n q := by
  induction ws generalizing n with
  | nil => rfl
  | cons w ws ih =>
    obtain ⟨hw, hws⟩ := List.forall_mem_cons.1 h
    obtain ⟨hpq, hqp⟩ := not_or.1 hw
    rw [putAll_cons, ih _ hws, get_put_of_incomparable n w.2 hpq hqp]

/-- The writes to the subtree at the path `p`. -/
def below (p : List K) (ws : List (List K × N)) : List (List K × N) :=
  ws.filterMap fun w => if p <+: w.1 then some (w.1.drop p.length, w.2) else none

omit [EmptyCollection N] [ChildLens N K] in
theorem below_flatMap {γ : Type*} (p : List K) (l : List γ) (f : γ → List (List K × N)) :
    below p (l.flatMap f) = l.flatMap fun a => below p (f a) := List.filterMap_flatMap

/-- Where no write is above the path, the subtree after the writes is the subtree after the writes
below the path. -/
theorem get_putAll_above [LawfulNames N K] (n : N) (h : ∀ w ∈ ws, Meets w.1 p → p <+: w.1) :
    get (putAll n ws) p = putAll (get n p) (below p ws) := by
  induction ws generalizing n with
  | nil => rfl
  | cons w ws ih =>
    obtain ⟨hw, hws⟩ := List.forall_mem_cons.1 h
    obtain ⟨path, c⟩ := w
    rw [putAll_cons, ih _ hws, below, below, List.filterMap_cons]
    by_cases hp : p <+: path
    · obtain ⟨t, rfl⟩ := hp
      simp only [if_pos (List.prefix_append p t), List.drop_left, putAll_cons, get_put_above]
    · have hmeets : ¬ Meets path p := fun hm => hp (hw hm)
      obtain ⟨hpq, hqp⟩ := not_or.1 hmeets
      simp only [if_neg hp, get_put_of_incomparable n c hpq hqp]

end PutAll

/-! ## Below a path -/

namespace Cover

variable {f : Cover N K} {p r : List K} {c d : N}

omit [DecidableEq K] [EmptyCollection N] [ChildLens N K] in
/-- The cover of the subtree at the path `r`. -/
def restrict (f : Cover N K) (r : List K) : Cover N K := fun q => f (r ++ q)

theorem restrict_write_append (f : Cover N K) (r s : List K) (c : N) :
    (f.write (r ++ s) c).restrict r = (f.restrict r).write s c := by
  funext q
  simp only [restrict, Cover.write, List.prefix_append_right_inj, List.length_append,
    List.drop_length_add_append]

/-- A write with nothing above it. -/
theorem write_of_bare (h : ∀ q, q <+: p → q ≠ p → f q = none) (q : List K) :
    f.write p c q = if p <+: q then some (get c (q.drop p.length)) else f q := by
  rw [Cover.write]
  by_cases hpq : p <+: q
  · rw [if_pos hpq, if_pos hpq]
  · rw [if_neg hpq, if_neg hpq]
    by_cases hqp : q <+: p
    · rw [h q hqp fun e => hpq (e ▸ List.prefix_refl q), Option.map_none]
    · simp only [if_neg hqp, Option.map_id']

/-- A write to a node that is there. -/
theorem write_of_covered [LawfulNames N K] (h : ∀ q, q <+: p → q ≠ p → f q = none)
    (hd : ∀ r, f (p ++ r) = some (get d r)) (s q : List K) :
    f.write (p ++ s) c q = if p <+: q then some (get (put d s c) (q.drop p.length)) else f q := by
  by_cases hpq : p <+: q
  · obtain ⟨r, rfl⟩ := hpq
    rw [if_pos (List.prefix_append p r), List.drop_left]
    cases hr : f.write (p ++ s) c (p ++ r) with
    | none =>
      rw [write_eq_none_iff, hd r] at hr
      exact nomatch hr.1
    | some c' =>
      have hwrite : (f.restrict p).write s c r = some c' := by
        rw [← hr, ← restrict_write_append]
        rfl
      have hread : ∀ q e, f.restrict p q = some e → get d q = e := fun q e he =>
        Option.some.inj ((hd q).symm.trans he)
      rw [get_put_of_cover hread hwrite]
  · rw [if_neg hpq, Cover.write, if_neg fun h => hpq ((List.prefix_append p s).trans h)]
    by_cases hqp : q <+: p ++ s
    · have hq : q <+: p :=
        (meets_of_common (List.prefix_append p s) hqp).resolve_left hpq
      rw [h q hq fun e => hpq (e ▸ List.prefix_refl q), Option.map_none]
    · simp only [if_neg hqp, Option.map_id']

/-- A write above the path is a write of the whole subtree. -/
theorem restrict_write_within (f : Cover N K) (p s : List K) (c : N) :
    (f.write p c).restrict (p ++ s) = (f.restrict (p ++ s)).write [] (get c s) := by
  funext q
  rw [restrict, List.append_assoc, write_append]
  exact (write_append (f.restrict (p ++ s)) [] q (get c s)).symm ▸ by rw [get_append]

theorem restrict_write_of_not_meets (h : ¬ Meets p r) (c : N) :
    (f.write p c).restrict r = f.restrict r := by
  funext q
  refine write_of_not_meets fun hm => h ?_
  rcases hm with hm | hm
  · exact meets_of_common hm (List.prefix_append r q)
  · exact Or.inr ((List.prefix_append r q).trans hm)

theorem restrict_writeAll_append (f : Cover N K) (r : List K) (ws : List (List K × N)) :
    (f.writeAll (ws.map fun w => (r ++ w.1, w.2))).restrict r = (f.restrict r).writeAll ws := by
  induction ws generalizing f with
  | nil => rfl
  | cons w ws ih => rw [List.map_cons, writeAll_cons, writeAll_cons, ih, restrict_write_append]

theorem restrict_writeAll_of_not_meets {ws : List (List K × N)} (h : ∀ w ∈ ws, ¬ Meets w.1 r) :
    (f.writeAll ws).restrict r = f.restrict r := by
  induction ws generalizing f with
  | nil => rfl
  | cons w ws ih =>
    obtain ⟨hw, hws⟩ := List.forall_mem_cons.1 h
    rw [writeAll_cons, ih hws, restrict_write_of_not_meets hw]

end Cover

end PathLens
