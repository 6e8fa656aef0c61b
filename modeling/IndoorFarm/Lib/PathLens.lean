import Mathlib.Data.List.Infix
import Mathlib.Data.List.Forall2

/-!
# Path lenses

A node type whose immediate children can be read and replaced (`ChildLens`) has a lens at every
path.  `get n p` reads the node below `n` at the path `p`, `put n p c` replaces it by `c`.  Several
names may be names of one child (`same`).

The three laws of one level (a replaced child is the one read back, the other children stay, the
empty node has only empty children) give the laws of paths:

* at the written path, `get` reads the new node (`get_put_self`);
* above the written path, `get` sees the same write one level down (`get_put_above`);
* at a path that parts from the written one, `get` is unchanged (`get_put_of_apart`).

Where every child has one name (`LawfulNames`), paths part when neither is a prefix of the other
(`get_put_of_incomparable`).
-/

namespace PathLens

/-- Nodes with named children: every name has a child, the empty node when there is none. -/
class ChildLens (N K : Type*) [EmptyCollection N] where
  /-- The two names are names of one child. -/
  same : K → K → Prop
  /-- The child called `k`. -/
  child : N → K → N
  /-- The node with its child called `k` replaced. -/
  setChild : N → K → N → N
  same_refl (k : K) : same k k
  child_empty (k : K) : child ∅ k = ∅
  child_congr (n : N) {k k' : K} (h : same k k') : child n k = child n k'
  child_setChild_of_same (n : N) {k k' : K} (c : N) (h : same k k') : child (setChild n k c) k' = c
  child_setChild_of_not_same (n : N) {k k' : K} (c : N) (h : ¬ same k k') :
    child (setChild n k c) k' = child n k'

/-- Every child has one name. -/
class LawfulNames (N K : Type*) [EmptyCollection N] [ChildLens N K] : Prop where
  eq_of_same {k k' : K} (h : ChildLens.same N k k') : k = k'

open ChildLens

variable {N K : Type*} [EmptyCollection N] [ChildLens N K]

/-- The node at the path `p` below `n`. -/
def get : N → List K → N
  | n, [] => n
  | n, k :: p => get (child n k) p

/-- The node `n` with the node at the path `p` replaced by `c`. -/
def put : N → List K → N → N
  | _, [], c => c
  | n, k :: p, c => setChild n k (put (child n k) p c)

variable (N) in
/-- The paths lead to different children of a node. -/
def Apart : List K → List K → Prop
  | k :: p, k' :: q => ¬ same N k k' ∨ Apart p q
  | _, _ => False

@[simp] theorem get_nil (n : N) : get n ([] : List K) = n := rfl

@[simp] theorem get_cons (n : N) (k : K) (p : List K) : get n (k :: p) = get (child n k) p := rfl

@[simp] theorem put_nil (n c : N) : put n ([] : List K) c = c := rfl

theorem put_cons (n : N) (k : K) (p : List K) (c : N) :
    put n (k :: p) c = setChild n k (put (child n k) p c) := rfl

theorem child_setChild_self (n : N) (k : K) (c : N) : child (setChild n k c) k = c :=
  child_setChild_of_same n c (same_refl k)

@[simp] theorem get_empty (p : List K) : get (∅ : N) p = ∅ := by
  induction p with
  | nil => rfl
  | cons k p ih => rw [get_cons, child_empty, ih]

theorem get_congr (n : N) {p q : List K} (h : List.Forall₂ (same N) p q) : get n p = get n q := by
  induction h generalizing n with
  | nil => rfl
  | cons hk _ ih => rw [get_cons, get_cons, child_congr n hk, ih]

/-- A write seen from above is the same write one level down. -/
theorem get_put_above (n c : N) (p q : List K) : get (put n (p ++ q) c) p = put (get n p) q c := by
  induction p generalizing n with
  | nil => rfl
  | cons k p ih =>
    rw [List.cons_append, put_cons, get_cons, child_setChild_self, ih, get_cons]

theorem get_put_self (n c : N) (p : List K) : get (put n p c) p = c := by
  simpa using get_put_above n c p []

/-- A write at a path that parts from `q` does not change what `q` reads. -/
theorem get_put_of_apart (n c : N) {p q : List K} (h : Apart N p q) :
    get (put n p c) q = get n q := by
  induction p generalizing n q with
  | nil => exact h.elim
  | cons k p ih =>
    cases q with
    | nil => exact h.elim
    | cons k' q =>
      rw [put_cons, get_cons, get_cons]
      by_cases hk : same N k k'
      · rw [child_setChild_of_same n _ hk, ih _ (h.resolve_left (not_not_intro hk)),
          child_congr n hk]
      · rw [child_setChild_of_not_same n _ hk]

/-- Paths part when neither is a prefix of the other and no name of one of them is the name of a
child with other names. -/
theorem apart_of_incomparable {p q : List K} (hq : ∀ k ∈ q, ∀ k', same N k' k → k' = k)
    (hpq : ¬ p <+: q) (hqp : ¬ q <+: p) : Apart N p q := by
  induction p generalizing q with
  | nil => exact absurd List.nil_prefix hpq
  | cons k p ih =>
    cases q with
    | nil => exact absurd List.nil_prefix hqp
    | cons k' q =>
      obtain ⟨hk', hrest⟩ := List.forall_mem_cons.1 hq
      by_cases hk : same N k k'
      · obtain rfl := hk' k hk
        rw [List.cons_prefix_cons] at hpq hqp
        exact Or.inr (ih hrest (fun h => hpq ⟨rfl, h⟩) fun h => hqp ⟨rfl, h⟩)
      · exact Or.inl hk

section Lawful

variable [LawfulNames N K]

theorem child_setChild_of_ne (n : N) {k k' : K} (c : N) (h : k' ≠ k) :
    child (setChild n k c) k' = child n k' :=
  child_setChild_of_not_same n c fun hk => h (LawfulNames.eq_of_same hk).symm

/-- A write at a path that is neither above nor below `q` does not change what `q` reads. -/
theorem get_put_of_incomparable (n c : N) {p q : List K} (hpq : ¬ p <+: q) (hqp : ¬ q <+: p) :
    get (put n p c) q = get n q :=
  get_put_of_apart n c
    (apart_of_incomparable (fun _ _ _ => LawfulNames.eq_of_same (N := N)) hpq hqp)

end Lawful

end PathLens
