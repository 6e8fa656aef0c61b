import IndoorFarm.Firebase.LLRBNode
import Mathlib.Algebra.Group.Nat.Defs

/-!
# Balance of the red-black trees

`Balanced c h n`: the root of `n` has the color `c`, every way down passes `h` black nodes, no red
node has a red child and no right child is red.  These are the trees that pass the library's own
`check` (`check_eq_some_iff`).

Insertion keeps them balanced except for a red root with a red left child (`RedRed`), which the
parent repairs or the dictionary paints black.  A removal first makes the child it goes down to
fit to lose a node; what the moves lead to is said once for the left side (`LeftReady`) and once for
the right side (`RightReady`), and each recursion is a case analysis of these.
-/

namespace IndoorFarm

namespace FLLRBNode

open FLLRBColor SortedEntries

variable {α β : Type*}

inductive Balanced : FLLRBColor → ℕ → FLLRBNode α β → Prop
  | emptyNode : Balanced BLACK 0 emptyNode
  | red {k : α} {v : β} {h : ℕ} {l r : FLLRBNode α β} (left : Balanced BLACK h l)
      (right : Balanced BLACK h r) : Balanced RED h (valueNode k v RED l r)
  | black {k : α} {v : β} {c : FLLRBColor} {h : ℕ} {l r : FLLRBNode α β} (left : Balanced c h l)
      (right : Balanced BLACK h r) : Balanced BLACK (h + 1) (valueNode k v BLACK l r)

/-- A red node whose left child is red. -/
inductive RedRed (h : ℕ) : FLLRBNode α β → Prop
  | mk {k : α} {v : β} {l r : FLLRBNode α β} (left : Balanced RED h l)
      (right : Balanced BLACK h r) : RedRed h (valueNode k v RED l r)

/-- A black node whose left child is red. -/
inductive Leaning : ℕ → FLLRBNode α β → Prop
  | mk {k : α} {v : β} {h : ℕ} {l r : FLLRBNode α β} (left : Balanced RED h l)
      (right : Balanced BLACK h r) : Leaning (h + 1) (valueNode k v BLACK l r)

/-- A black node whose right child is red, as it comes up on the way of a removal. -/
inductive RightLeaning : ℕ → FLLRBNode α β → Prop
  | mk {k : α} {v : β} {h : ℕ} {l r : FLLRBNode α β} (left : Balanced BLACK h l)
      (right : Balanced RED h r) : RightLeaning (h + 1) (valueNode k v BLACK l r)

variable {k : α} {v : β} {c c' : FLLRBColor} {h : ℕ} {n l r : FLLRBNode α β}

theorem Balanced.color_eq (hn : Balanced c h n) : n.color = c := by
  cases hn <;> rfl

theorem Balanced.isRed_eq (hn : Balanced c h n) : n.isRed = decide (c = RED) := by
  rw [isRed, hn.color_eq]

theorem Balanced.not_isRed (hn : Balanced BLACK h n) : n.isRed = false := hn.isRed_eq

theorem Balanced.isRed (hn : Balanced RED h n) : n.isRed = true := hn.isRed_eq

theorem Leaning.balanced (hn : Leaning h n) : Balanced BLACK h n := by
  cases hn with
  | mk left right => exact .black left right

theorem Balanced.eq_emptyNode (hn : Balanced BLACK 0 n) : n = .emptyNode := by
  cases hn
  rfl

/-! ## The library's check -/

theorem check_of_balanced (hn : Balanced c h n) : n.check = some h := by
  induction hn with
  | emptyNode => rfl
  | red left right ihl ihr => simp [check, left.not_isRed, right.not_isRed, ihl, ihr]
  | black left right ihl ihr => simp [check, right.not_isRed, ihl, ihr]

theorem color_eq_black (hn : n.isRed = false) : n.color = BLACK := by
  cases hc : n.color with
  | RED => simp [isRed, hc] at hn
  | BLACK => rfl

theorem balanced_of_check (hn : n.check = some h) : Balanced n.color h n := by
  induction n generalizing h with
  | emptyNode =>
    obtain rfl := Option.some.inj hn
    exact .emptyNode
  | valueNode k v c l r ihl ihr =>
    have hright : r.isRed = false := by
      by_contra hright
      simp [check, hright] at hn
    obtain ⟨hl, hr, hh⟩ : l.check = some (h - if c = RED then 0 else 1) ∧
        r.check = some (h - if c = RED then 0 else 1) ∧ (if c = RED then 0 else 1) ≤ h := by
      simp only [check, hright, Bool.false_eq_true, if_false, Option.ite_none_left_eq_some,
        Option.bind_eq_some_iff] at hn
      obtain ⟨-, depth, hl, rightDepth, hr, hdepth, hsome⟩ := hn
      obtain rfl : depth = rightDepth := not_not.1 hdepth
      cases c <;> simp at hsome <;> subst hsome <;> simp [hl, hr]
    have hbr := color_eq_black hright ▸ ihr hr
    cases c with
    | RED =>
      have hleft : l.isRed = false := by
        by_contra hleft
        simp [check, hleft] at hn
      exact .red (color_eq_black hleft ▸ ihl hl) hbr
    | BLACK =>
      obtain ⟨h, rfl⟩ : ∃ h', h = h' + 1 := ⟨h - 1, by simp at hh; omega⟩
      exact .black (ihl hl) hbr

/-- The trees that pass the check are the balanced ones. -/
theorem check_eq_some_iff : n.check = some h ↔ ∃ c, Balanced c h n :=
  ⟨fun hn => ⟨n.color, balanced_of_check hn⟩, fun ⟨_, hn⟩ => check_of_balanced hn⟩

/-- The test of `checkMaxDepth`. -/
theorem Balanced.two_pow_le (hn : Balanced c h n) : 2 ^ h ≤ n.count + 1 := by
  induction hn with
  | emptyNode => exact Nat.le_refl 1
  | red left right ihl ihr =>
    rw [count_valueNode]
    omega
  | black left right ihl ihr =>
    rw [count_valueNode, Nat.pow_succ]
    omega

theorem Balanced.comparisons_le (cmp : α → α → Ordering) (k : α) (hn : Balanced c h n) :
    n.comparisons cmp k ≤ 2 * h + if c = RED then 1 else 0 := by
  induction hn with
  | emptyNode => exact Nat.le_refl 0
  | @red k' v h l r left right ihl ihr =>
    rw [if_neg (by decide)] at ihl ihr
    rw [if_pos rfl, FLLRBNode.comparisons]
    cases cmp k k' <;> dsimp only <;> omega
  | @black k' v c h l r left right ihl ihr =>
    rw [if_neg (by decide)] at ihr ⊢
    rw [FLLRBNode.comparisons]
    split_ifs at ihl <;> cases cmp k k' <;> dsimp only <;> omega

/-! ## Repairs -/

theorem fixUp_eq_self (hl : l.isRed = true → l.left.isRed = false) (hr : r.isRed = false) :
    (valueNode k v c l r).fixUp = valueNode k v c l r := by
  unfold fixUp
  cases hred : l.isRed <;> simp_all

theorem fixUp_rotateLeft {k' : α} {v' : β} {l' r' : FLLRBNode α β} (hl : l.isRed = false)
    (hr' : r'.isRed = false) : (valueNode k v c l (valueNode k' v' RED l' r')).fixUp =
      valueNode k' v' c (valueNode k v RED l l') r' := by
  simp [fixUp, hl, hr']

theorem fixUp_colorFlip {k₁ k₂ : α} {v₁ v₂ : β} {l₁ l₂ r₁ r₂ : FLLRBNode α β}
    (h : l₁.isRed = false) :
    (valueNode k v c (valueNode k₁ v₁ RED l₁ r₁) (valueNode k₂ v₂ RED l₂ r₂)).fixUp =
      valueNode k v c.flip (valueNode k₁ v₁ BLACK l₁ r₁) (valueNode k₂ v₂ BLACK l₂ r₂) := by
  simp [fixUp, h, colorFlip, FLLRBColor.flip]

theorem fixUp_rotateRight {k₁ k₂ : α} {v₁ v₂ : β} {l₂ r₁ r₂ : FLLRBNode α β}
    (hr : r.isRed = false) :
    (valueNode k v c (valueNode k₁ v₁ RED (valueNode k₂ v₂ RED l₂ r₂) r₁) r).fixUp =
      valueNode k₁ v₁ c.flip (valueNode k₂ v₂ BLACK l₂ r₂) (valueNode k v BLACK r₁ r) := by
  simp [fixUp, hr, colorFlip, FLLRBColor.flip]

theorem fixUp_red (hl : Balanced BLACK h l) (hr : Balanced BLACK h r) :
    Balanced RED h (valueNode k v RED l r).fixUp := by
  rw [fixUp_eq_self (fun hred => absurd (hl.not_isRed.symm.trans hred) (by decide)) hr.not_isRed]
  exact .red hl hr

theorem fixUp_black_right (hl : Balanced c h l) (hr : Balanced BLACK h r) :
    Balanced BLACK (h + 1) (valueNode k v BLACK l r).fixUp := by
  rw [fixUp_eq_self (fun hred => ?_) hr.not_isRed]
  · exact .black hl hr
  · cases hl with
    | emptyNode => rfl
    | red left right => exact left.not_isRed
    | black left right => simp at hred

theorem fixUp_black_left (hl : Balanced BLACK h l) (hr : Balanced c h r) :
    Balanced BLACK (h + 1) (valueNode k v BLACK l r).fixUp := by
  cases c with
  | BLACK => exact fixUp_black_right hl hr
  | RED =>
    cases hr with
    | red left right =>
      rw [fixUp_rotateLeft hl.not_isRed right.not_isRed]
      exact .black (.red hl left) right

theorem fixUp_red_red (hl : Balanced RED h l) (hr : Balanced RED h r) :
    Balanced c.flip (if c = RED then h + 1 + 1 else h + 1) (valueNode k v c l r).fixUp := by
  cases hl with
  | red left₁ right₁ =>
    cases hr with
    | red left₂ right₂ =>
      rw [fixUp_colorFlip left₁.not_isRed]
      cases c with
      | RED => exact .black (.black left₁ right₁) (.black left₂ right₂)
      | BLACK => exact .red (.black left₁ right₁) (.black left₂ right₂)

theorem fixUp_black (hl : Balanced c h l) (hr : Balanced c' h r) :
    ∃ c'', Balanced c'' (h + 1) (valueNode k v BLACK l r).fixUp := by
  cases c with
  | BLACK => exact ⟨BLACK, fixUp_black_left hl hr⟩
  | RED =>
    cases c' with
    | BLACK => exact ⟨BLACK, fixUp_black_right hl hr⟩
    | RED => exact ⟨RED, fixUp_red_red (c := BLACK) hl hr⟩

theorem fixUp_redRed_right (hl : Balanced BLACK h l) (hr : Balanced RED h r) :
    RedRed h (valueNode k v RED l r).fixUp := by
  cases hr with
  | red left right =>
    rw [fixUp_rotateLeft hl.not_isRed right.not_isRed]
    exact ⟨.red hl left, right⟩

theorem fixUp_redRed_left (hl : Balanced RED h l) (hr : Balanced BLACK h r) :
    RedRed h (valueNode k v RED l r).fixUp := by
  rw [fixUp_eq_self (fun _ => ?_) hr.not_isRed]
  · exact ⟨hl, hr⟩
  · cases hl with
    | red left right => exact left.not_isRed

theorem fixUp_black_redRed (hl : RedRed h l) (hr : Balanced BLACK h r) :
    Balanced RED (h + 1) (valueNode k v BLACK l r).fixUp := by
  obtain ⟨left, right⟩ := hl
  cases left with
  | red left₂ right₂ =>
    rw [fixUp_rotateRight hr.not_isRed]
    exact .red (.black left₂ right₂) (.black right hr)

/-! ## Insertion -/

theorem Balanced.insertKey (cmp : α → α → Ordering) (k : α) (v : β) (hn : Balanced c h n) :
    (c = RED → Balanced RED h (n.insertKey cmp k v) ∨ RedRed h (n.insertKey cmp k v)) ∧
      (c = BLACK → ∃ c', Balanced c' h (n.insertKey cmp k v)) := by
  induction hn with
  | emptyNode => exact ⟨fun e => by contradiction, fun _ => ⟨RED, .red .emptyNode .emptyNode⟩⟩
  | @red k' v' h l r left right ihl ihr =>
    refine ⟨fun _ => ?_, fun e => by contradiction⟩
    rw [FLLRBNode.insertKey]
    cases cmp k k' with
    | lt =>
      obtain ⟨c', hl⟩ := ihl.2 rfl
      cases c' with
      | RED => exact Or.inr (fixUp_redRed_left hl right)
      | BLACK => exact Or.inl (fixUp_red hl right)
    | eq => exact Or.inl (fixUp_red left right)
    | gt =>
      obtain ⟨c', hr⟩ := ihr.2 rfl
      cases c' with
      | RED => exact Or.inr (fixUp_redRed_right left hr)
      | BLACK => exact Or.inl (fixUp_red left hr)
  | @black k' v' c h l r left right ihl ihr =>
    refine ⟨fun e => by contradiction, fun _ => ?_⟩
    rw [FLLRBNode.insertKey]
    cases cmp k k' with
    | lt =>
      cases c with
      | RED =>
        rcases ihl.1 rfl with hl | hl
        · exact fixUp_black hl right
        · exact ⟨RED, fixUp_black_redRed hl right⟩
      | BLACK =>
        obtain ⟨c', hl⟩ := ihl.2 rfl
        exact fixUp_black hl right
    | eq => exact fixUp_black left right
    | gt =>
      obtain ⟨c', hr⟩ := ihr.2 rfl
      exact fixUp_black left hr

/-- A root painted black. -/
theorem Balanced.paint (hn : Balanced c h n) :
    ∃ h', Balanced BLACK h' (n.copyWith none none (some BLACK) none none) := by
  cases hn with
  | emptyNode => exact ⟨0, .emptyNode⟩
  | red left right => exact ⟨_, .black left right⟩
  | black left right => exact ⟨_, .black left right⟩

theorem RedRed.paint (hn : RedRed h n) :
    ∃ h', Balanced BLACK h' (n.copyWith none none (some BLACK) none none) := by
  obtain ⟨left, right⟩ := hn
  exact ⟨_, .black left right⟩

section Contents

open Std (OrientedCmp TransCmp)

variable {cmp : α → α → Ordering} [TransCmp cmp]

theorem toList_insertKey (k : α) (v : β) (hn : Sorted cmp n.toList) :
    (n.insertKey cmp k v).toList = SortedEntries.insert cmp true k v n.toList := by
  induction n with
  | emptyNode => rfl
  | valueNode k' v' c l r ihl ihr =>
    rw [toList_valueNode] at hn ⊢
    obtain ⟨hl, hr, -⟩ := sorted_middle_iff.1 hn
    rw [FLLRBNode.insertKey]
    cases hcmp : cmp k k' with
    | lt => simp [hn.insert_lt hcmp, ihl hl]
    | eq => simp [hn.insert_eq hcmp]
    | gt => simp [hn.insert_gt hcmp, ihr hr]

theorem get_eq_lookup (k : α) (hn : Sorted cmp n.toList) :
    n.get cmp k = lookup cmp k n.toList := by
  induction n with
  | emptyNode => rfl
  | valueNode k' v' c l r ihl ihr =>
    rw [toList_valueNode] at hn ⊢
    obtain ⟨hl, hr, -⟩ := sorted_middle_iff.1 hn
    rw [FLLRBNode.get]
    cases hcmp : cmp k k' with
    | lt => rw [hn.lookup_lt hcmp, ihl hl]
    | eq => rw [hn.lookup_eq hcmp]
    | gt => rw [hn.lookup_gt hcmp, ihr hr]

end Contents

end FLLRBNode

end IndoorFarm
