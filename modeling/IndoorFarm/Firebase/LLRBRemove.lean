import IndoorFarm.Firebase.LLRBBalance

/-!
# Removal from the red-black trees

A removal goes down to a child only after that child has been made red or leaning, so that it can
lose a node (`Loses`).  `leftReady_prepareLeft` and `rightReady_prepareRight` say what the moves
lead to; from there `removeMin_loses` and `remove_spec` follow the recursion of the source.

After the smallest entry on the right has taken the place of the removed one, the source removes the
key once more from the right subtree, in which it no longer is.  That second removal goes along the
left edge and changes no color and no height (`remove_of_lt`).
-/

namespace IndoorFarm

namespace FLLRBNode

open FLLRBColor SortedEntries

variable {α β : Type*} {k key : α} {v : β} {c c' : FLLRBColor} {h : ℕ}
  {n n' m l l' r r' : FLLRBNode α β}

/-! ## The way to the left -/

/-- The node under which a removal goes to the left, from a node with the key `key` and the color
`c` over children of height `h`. -/
inductive LeftReady (key : α) : FLLRBColor → ℕ → FLLRBNode α β → Prop
  | lean {k : α} {v : β} {c : FLLRBColor} {h : ℕ} {l r : FLLRBNode α β}
      (hk : k = key ∨ l.key = some key) (left : Leaning h l) (right : Balanced BLACK h r) :
      LeftReady key c h (valueNode k v c l r)
  | red {v : β} {h : ℕ} {l r : FLLRBNode α β} (left : Balanced RED h l)
      (right : Balanced BLACK h r) : LeftReady key BLACK h (valueNode key v BLACK l r)
  | flipped {v : β} {c : FLLRBColor} {h : ℕ} {l r : FLLRBNode α β} (left : Balanced RED h l)
      (right : Balanced RED h r) : LeftReady key c (h + 1) (valueNode key v c.flip l r)
  | empty {v : β} {c : FLLRBColor} : LeftReady key c 0 (valueNode key v c emptyNode emptyNode)

theorem moveRedLeft_flipped {k₁ k₂ : α} {v₁ v₂ : β} {l₁ l₂ r₁ r₂ : FLLRBNode α β}
    (h : l₂.isRed = false) :
    (valueNode k v c (valueNode k₁ v₁ BLACK l₁ r₁) (valueNode k₂ v₂ BLACK l₂ r₂)).moveRedLeft =
      valueNode k v c.flip (valueNode k₁ v₁ RED l₁ r₁) (valueNode k₂ v₂ RED l₂ r₂) := by
  simp [moveRedLeft, colorFlip, FLLRBColor.flip, h]

theorem moveRedLeft_lean {k₁ k₂ k₃ : α} {v₁ v₂ v₃ : β} {l₁ r₁ l₃ r₃ r₂ : FLLRBNode α β} :
    (valueNode k v c (valueNode k₁ v₁ BLACK l₁ r₁)
        (valueNode k₂ v₂ BLACK (valueNode k₃ v₃ RED l₃ r₃) r₂)).moveRedLeft =
      valueNode k₃ v₃ c (valueNode k v BLACK (valueNode k₁ v₁ RED l₁ r₁) l₃)
        (valueNode k₂ v₂ BLACK r₃ r₂) := by
  cases c <;> simp [moveRedLeft, colorFlip, FLLRBColor.flip]

theorem leftReady_prepareLeft (hc : c = RED → c' = BLACK) (hl : Balanced c' h l)
    (hr : Balanced BLACK h r) : LeftReady k c h (valueNode k v c l r).prepareLeft := by
  unfold prepareLeft
  cases hl with
  | emptyNode =>
    obtain rfl := hr.eq_emptyNode
    exact .empty
  | red left right =>
    cases c with
    | RED => exact absurd (hc rfl) FLLRBColor.noConfusion
    | BLACK => exact .red (.red left right) hr
  | @black _ _ c₁ h _ _ left right =>
    cases c₁ with
    | RED =>
      rw [if_neg (by simp [left.isRed])]
      exact .lean (Or.inl rfl) ⟨left, right⟩ hr
    | BLACK =>
      rw [if_pos (by simp [left.not_isRed])]
      cases hr with
      | @black _ _ c₂ _ _ _ left₂ right₂ =>
        cases c₂ with
        | BLACK =>
          rw [moveRedLeft_flipped left₂.not_isRed]
          exact .flipped (.red left right) (.red left₂ right₂)
        | RED =>
          cases left₂ with
          | red left₃ right₃ =>
            rw [moveRedLeft_lean]
            exact .lean (Or.inr rfl) ⟨.red left right, left₃⟩ (.black right₃ right₂)

/-- What takes the place of a subtree that has lost a node. -/
structure Loses (n n' : FLLRBNode α β) : Prop where
  red : ∀ h, Balanced RED h n → ∃ c, Balanced c h n'
  leaning : ∀ h, Leaning h n → Balanced BLACK h n'

/-- What takes the place of a node of the color `c` over children of height `h` that has lost a
node: only a black node may come back lower, and then it is red. -/
def Shrunk (n' : FLLRBNode α β) : FLLRBColor → ℕ → Prop
  | RED, h => ∃ c, Balanced c h n'
  | BLACK, h => Balanced BLACK (h + 1) n' ∨ ∃ h', RedRed h' n'

theorem shrunk_flipped (hl : Balanced RED h l) (hr : Balanced c' h r) :
    Shrunk (valueNode k v c.flip l r).fixUp c (h + 1) := by
  cases c with
  | RED => exact fixUp_black hl hr
  | BLACK =>
    cases c' with
    | RED => exact Or.inl (fixUp_red_red (c := RED) hl hr)
    | BLACK => exact Or.inr ⟨h, fixUp_redRed_left hl hr⟩

theorem shrunk_flipped' (hl : Balanced c' h l) (hr : Balanced RED h r) :
    Shrunk (valueNode k v c.flip l r).fixUp c (h + 1) := by
  cases c with
  | RED => exact fixUp_black hl hr
  | BLACK =>
    cases c' with
    | RED => exact Or.inl (fixUp_red_red (c := RED) hl hr)
    | BLACK => exact Or.inr ⟨h, fixUp_redRed_right hl hr⟩

theorem shrunk_black (hl : Balanced BLACK h l) (hr : Balanced BLACK h r) :
    Shrunk (valueNode k v c l r).fixUp c h := by
  cases c with
  | RED => exact ⟨RED, fixUp_red hl hr⟩
  | BLACK => exact Or.inl (fixUp_black_left hl hr)

theorem LeftReady.shrunk (hm : LeftReady key c h m) (hl : Loses m.left l')
    (hempty : m.left = emptyNode → l' = emptyNode) :
    Shrunk (m.copyWith none none none (some l') none).fixUp c h := by
  cases hm with
  | lean hk left right => exact shrunk_black (hl.leaning _ left) right
  | red left right =>
    obtain ⟨c, hc⟩ := hl.red _ left
    exact Or.inl (fixUp_black_right hc right)
  | flipped left right =>
    obtain ⟨c', hc'⟩ := hl.red _ left
    exact shrunk_flipped' hc' right
  | empty =>
    obtain rfl := hempty rfl
    exact shrunk_black .emptyNode .emptyNode

theorem removeMin_of_isEmpty (hn : n.left.isEmpty = true) : n.removeMin = emptyNode := by
  rw [removeMin, if_pos hn]

/-- `removeMin` makes the moves of `remove:` to the left. -/
theorem removeMin_of_not_isEmpty (hn : n.left.isEmpty = false) :
    n.removeMin =
      (n.prepareLeft.copyWith none none none (some n.prepareLeft.left.removeMin) none).fixUp := by
  have hm : (if !n.left.isRed && !n.left.left.isRed then n.moveRedLeft else n) = n.prepareLeft := by
    simp [prepareLeft, hn]
  rw [removeMin, if_neg (by simp [hn])]
  simp only [hm]

theorem toList_eq_nil_iff : n.toList = [] ↔ n = emptyNode := by
  cases n <;> simp

/-- The first entry is the one of the node `min` finds. -/
theorem exists_min (hn : n.isEmpty = false) :
    ∃ k v tail, n.toList = (k, v) :: tail ∧ n.min.key = some k ∧ n.min.value = some v := by
  induction n with
  | emptyNode => simp at hn
  | valueNode k v c l r ihl ihr =>
    rw [FLLRBNode.min]
    cases hl : l.isEmpty with
    | true =>
      cases l with
      | emptyNode => exact ⟨k, v, r.toList, rfl, rfl, rfl⟩
      | valueNode => simp at hl
    | false =>
      obtain ⟨k', v', tail, htail, hkey, hvalue⟩ := ihl hl
      refine ⟨k', v', tail ++ (k, v) :: r.toList, ?_, ?_, ?_⟩
      · rw [toList_valueNode, htail, List.cons_append]
      · simpa using hkey
      · simpa using hvalue

theorem removeMin_loses (n : FLLRBNode α β) : Loses n n.removeMin := by
  induction hcount : n.count using Nat.strongRecOn generalizing n with
  | ind count ih =>
    cases n with
    | emptyNode => exact ⟨fun h hn => (nomatch hn), fun h hn => (nomatch hn)⟩
    | valueNode k v c l r =>
      have hlt := count_left_prepareLeft_lt k v c l r
      have hloses := ih _ (hcount ▸ hlt) (valueNode k v c l r).prepareLeft.left rfl
      cases l with
      | emptyNode =>
        rw [removeMin_of_isEmpty rfl]
        refine ⟨fun h hn => ?_, fun h hn => ?_⟩
        · cases hn with
          | red left right =>
            cases left
            exact ⟨BLACK, .emptyNode⟩
        · cases hn with
          | mk left right => cases left
      | valueNode k₁ v₁ c₁ l₁ r₁ =>
        rw [removeMin_of_not_isEmpty rfl]
        refine ⟨fun h hn => ?_, fun h hn => ?_⟩
        · cases hn with
          | red left right =>
            refine (leftReady_prepareLeft (fun _ => rfl) left right).shrunk hloses fun e => ?_
            rw [e, removeMin_of_isEmpty rfl]
        · cases hn with
          | @mk _ _ h _ _ left right =>
            have hself : (valueNode k v BLACK (valueNode k₁ v₁ c₁ l₁ r₁) r).prepareLeft =
                valueNode k v BLACK (valueNode k₁ v₁ c₁ l₁ r₁) r := by
              simp [prepareLeft, left.isRed]
            rw [hself] at hloses ⊢
            obtain ⟨c', hc'⟩ := hloses.red _ left
            exact fixUp_black_right hc' right

/-- A node that can lose one below it. -/
def Fit (n : FLLRBNode α β) : Prop := ∃ h, Balanced RED h n ∨ Leaning h n

theorem Fit.exists_balanced (hn : Fit n) : ∃ c h, Balanced c h n := by
  obtain ⟨h, hn | hn⟩ := hn
  · exact ⟨RED, h, hn⟩
  · exact ⟨BLACK, h, hn.balanced⟩

theorem LeftReady.fit_left (hm : LeftReady key c h m) (hempty : m.left ≠ emptyNode) :
    Fit m.left := by
  cases hm with
  | lean hk left right => exact ⟨_, Or.inr left⟩
  | red left right => exact ⟨_, Or.inl left⟩
  | flipped left right => exact ⟨_, Or.inl left⟩
  | empty => exact absurd rfl hempty

/-- The children of a balanced node. -/
theorem Balanced.children (hn : Balanced c' h (valueNode k v c l r)) :
    ∃ c₁ h, Balanced c₁ h l ∧ Balanced BLACK h r ∧ (c = RED → c₁ = BLACK) := by
  cases hn with
  | red left right => exact ⟨_, _, left, right, fun _ => rfl⟩
  | black left right => exact ⟨_, _, left, right, fun e => nomatch e⟩

theorem toList_withLeft (hn : n.isEmpty = false) (l' : FLLRBNode α β) :
    ∃ e, n.toList = n.left.toList ++ e :: n.right.toList ∧
      (n.copyWith none none none (some l') none).fixUp.toList =
        l'.toList ++ e :: n.right.toList := by
  obtain ⟨k, v, c, l, r, rfl⟩ := eq_valueNode hn
  exact ⟨(k, v), rfl, by simp⟩

theorem LeftReady.isEmpty (hm : LeftReady key c h m) : m.isEmpty = false := by
  cases hm <;> rfl

theorem LeftReady.length_toList (hm : LeftReady key c h m) (hempty : m.left = emptyNode) :
    m.toList.length = 1 := by
  cases hm with
  | lean hk left right =>
    cases left
    contradiction
  | red left right | flipped left right =>
    cases left
    contradiction
  | empty => rfl

theorem toList_removeMin (hn : Fit n) : n.removeMin.toList = n.toList.tail := by
  induction hcount : n.count using Nat.strongRecOn generalizing n with
  | ind count ih =>
    obtain ⟨c', h, hb⟩ := hn.exists_balanced
    cases n with
    | emptyNode => rw [removeMin_of_isEmpty rfl]; rfl
    | valueNode k v c l r =>
      obtain ⟨c₁, h₁, hl, hr, hc⟩ := hb.children
      have hready := leftReady_prepareLeft (k := k) (v := v) hc hl hr
      cases l with
      | emptyNode =>
        obtain rfl : r = emptyNode := by
          cases hl
          exact hr.eq_emptyNode
        rw [removeMin_of_isEmpty rfl]
        rfl
      | valueNode k₁ v₁ c₁ l₁ r₁ =>
        have hlength : 1 < (valueNode k v c (valueNode k₁ v₁ c₁ l₁ r₁) r).toList.length := by
          simp
          omega
        have htoList := toList_prepareLeft (valueNode k v c (valueNode k₁ v₁ c₁ l₁ r₁) r)
        rw [removeMin_of_not_isEmpty rfl]
        rw [← htoList] at hlength ⊢
        have hlt := count_left_prepareLeft_lt k v c (valueNode k₁ v₁ c₁ l₁ r₁) r
        generalize (valueNode k v c (valueNode k₁ v₁ c₁ l₁ r₁) r).prepareLeft = m at *
        have hne : m.left ≠ emptyNode := fun e => by
          rw [hready.length_toList e] at hlength
          exact Nat.lt_irrefl 1 hlength
        obtain ⟨e, hm, hm'⟩ := toList_withLeft hready.isEmpty m.left.removeMin
        rw [hm', hm, ih _ (hcount ▸ hlt) (hready.fit_left hne) rfl]
        exact (List.tail_append_of_ne_nil (toList_eq_nil_iff.not.2 hne)).symm

theorem remove_emptyNode (cmp : α → α → Ordering) :
    (emptyNode : FLLRBNode α β).remove key cmp = emptyNode := by
  rw [remove]

theorem remove_lt {cmp : α → α → Ordering} (hk : cmp key k = .lt) :
    (valueNode k v c l r).remove key cmp =
      ((valueNode k v c l r).prepareLeft.copyWith none none none
        (some ((valueNode k v c l r).prepareLeft.left.remove key cmp)) none).fixUp := by
  rw [remove, if_pos hk]

/-- A node of the color `c` over children of height `h`, as before. -/
theorem LeftReady.kept (hm : LeftReady key c h m)
    (hl : ∀ c h, Balanced c h m.left → Balanced c h l') :
    Balanced c (if c = RED then h else h + 1)
      (m.copyWith none none none (some l') none).fixUp := by
  have hblack {k : α} {v : β} {h : ℕ} {l r : FLLRBNode α β} (left : Balanced BLACK h l)
      (right : Balanced BLACK h r) :
      Balanced c (if c = RED then h else h + 1) (valueNode k v c l r).fixUp := by
    cases c with
    | RED => exact fixUp_red left right
    | BLACK => exact fixUp_black_left left right
  cases hm with
  | lean hk left right => exact hblack (hl _ _ left.balanced) right
  | red left right => exact fixUp_black_right (hl _ _ left) right
  | @flipped v c h l r left right =>
    have hflip := fixUp_red_red (k := key) (v := v) (c := c.flip) (hl _ _ left) right
    cases c <;> exact hflip
  | empty => exact hblack (hl _ _ .emptyNode) .emptyNode

/-- The removal of a key that is smaller than every key of the tree. -/
theorem remove_of_lt {cmp : α → α → Ordering} (hn : ∀ e ∈ n.toList, cmp key e.1 = .lt) :
    (n.remove key cmp).toList = n.toList ∧
      ∀ c h, Balanced c h n → Balanced c h (n.remove key cmp) := by
  induction hcount : n.count using Nat.strongRecOn generalizing n with
  | ind count ih =>
    cases n with
    | emptyNode =>
      rw [remove_emptyNode]
      exact ⟨rfl, fun c h hb => hb⟩
    | valueNode k v c l r =>
      have hready {c' : FLLRBColor} {h : ℕ} :=
        @leftReady_prepareLeft α β k v c c' h l r
      have hlt := count_left_prepareLeft_lt k v c l r
      have htoList := toList_prepareLeft (valueNode k v c l r)
      have hempty : (valueNode k v c l r).prepareLeft.isEmpty = false := by
        cases hm : (valueNode k v c l r).prepareLeft with
        | emptyNode => simp [hm] at htoList
        | valueNode => rfl
      rw [remove_lt (hn (k, v) (by simp))]
      rw [← htoList] at hn ⊢
      generalize (valueNode k v c l r).prepareLeft = m at *
      obtain ⟨e, hm, hm'⟩ := toList_withLeft hempty (m.left.remove key cmp)
      obtain ⟨hleft, hkept⟩ :=
        ih _ (hcount ▸ hlt) (n := m.left) (fun e he => hn e (by simp [hm, he])) rfl
      refine ⟨by rw [hm', hm, hleft], fun c' h hb => ?_⟩
      cases hb with
      | red left right => exact (hready (fun _ => rfl) left right).kept hkept
      | black left right => exact (hready (fun e => nomatch e) left right).kept hkept

/-! ## The way to the right -/

/-- The node under which a removal goes to the right, from a node with the key `key` and the color
`c` over children of height `h`. -/
inductive RightReady (key : α) : FLLRBColor → ℕ → FLLRBNode α β → Prop
  | lean {v : β} {c : FLLRBColor} {h : ℕ} {l r : FLLRBNode α β} (left : Balanced BLACK h l)
      (right : Leaning h r) : RightReady key c h (valueNode key v c l r)
  | flipped {v : β} {c : FLLRBColor} {h : ℕ} {l r : FLLRBNode α β} (left : Balanced RED h l)
      (right : Balanced RED h r) : RightReady key c (h + 1) (valueNode key v c.flip l r)
  | empty {v : β} {c : FLLRBColor} : RightReady key c 0 (valueNode key v c emptyNode emptyNode)
  | rotated {k : α} {v : β} {h : ℕ} {l r : FLLRBNode α β} (hk : k = key ∨ r.key = some key)
      (left : Balanced BLACK h l) (right : Balanced RED h r) :
      RightReady key BLACK h (valueNode k v BLACK l r)
  | turned {k : α} {v : β} {c : FLLRBColor} {h : ℕ} {l r : FLLRBNode α β}
      (hk : r.key = some key) (left : Balanced BLACK h l) (right : RightLeaning h r) :
      RightReady key c h (valueNode k v c l r)

theorem moveRedRight_flipped {k₁ k₂ : α} {v₁ v₂ : β} {l₁ l₂ r₁ r₂ : FLLRBNode α β}
    (h : l₁.isRed = false) :
    (valueNode k v c (valueNode k₁ v₁ BLACK l₁ r₁) (valueNode k₂ v₂ BLACK l₂ r₂)).moveRedRight =
      valueNode k v c.flip (valueNode k₁ v₁ RED l₁ r₁) (valueNode k₂ v₂ RED l₂ r₂) := by
  simp [moveRedRight, colorFlip, FLLRBColor.flip, h]

theorem moveRedRight_turned {k₁ k₂ k₃ : α} {v₁ v₂ v₃ : β} {l₂ l₃ r₁ r₂ r₃ : FLLRBNode α β} :
    (valueNode k v c (valueNode k₁ v₁ BLACK (valueNode k₃ v₃ RED l₃ r₃) r₁)
        (valueNode k₂ v₂ BLACK l₂ r₂)).moveRedRight =
      valueNode k₁ v₁ c (valueNode k₃ v₃ BLACK l₃ r₃)
        (valueNode k v BLACK r₁ (valueNode k₂ v₂ RED l₂ r₂)) := by
  cases c <;> simp [moveRedRight, colorFlip, FLLRBColor.flip]

theorem rightReady_prepareRight (hc : c = RED → c' = BLACK) (hl : Balanced c' h l)
    (hr : Balanced BLACK h r) : RightReady k c h (valueNode k v c l r).prepareRight := by
  unfold prepareRight
  cases hl with
  | emptyNode =>
    obtain rfl := hr.eq_emptyNode
    exact .empty
  | red left right =>
    cases c with
    | RED => exact absurd (hc rfl) FLLRBColor.noConfusion
    | BLACK => exact .rotated (Or.inr rfl) left (.red right hr)
  | @black _ _ c₁ h _ _ left right =>
    cases hr with
    | @black _ _ c₂ _ _ _ left₂ right₂ =>
      cases c₂ with
      | RED =>
        simp only [left_valueNode, isRed_black, right_valueNode, left₂.isRed, Bool.false_eq_true,
          if_false, Bool.not_true, Bool.and_false]
        exact .lean (.black left right) ⟨left₂, right₂⟩
      | BLACK =>
        simp only [left_valueNode, isRed_black, right_valueNode, left₂.not_isRed,
          isEmpty_valueNode, Bool.false_eq_true, if_false, Bool.not_false, Bool.and_self, if_true]
        cases c₁ with
        | BLACK =>
          rw [moveRedRight_flipped left.not_isRed]
          exact .flipped (.red left right) (.red left₂ right₂)
        | RED =>
          cases left with
          | red left₃ right₃ =>
            rw [moveRedRight_turned]
            exact .turned rfl (.black left₃ right₃) ⟨right, .red left₂ right₂⟩

theorem prepareRight_rightLeaning (hl : Balanced BLACK h l) (hr : Balanced RED h r) :
    (valueNode k v c l r).prepareRight = valueNode k v c l r := by
  simp [prepareRight, hl.not_isRed, hr.isRed]

theorem RightReady.shrunk (hm : RightReady key c h m) (hr : Loses m.right r')
    (hright : ∀ h, RightLeaning h m.right → Balanced BLACK h r')
    (hempty : m.right = emptyNode → r' = emptyNode) (k : α) (v : β) :
    Shrunk (valueNode k v m.color m.left r').fixUp c h := by
  cases hm with
  | lean left right => exact shrunk_black left (hr.leaning _ right)
  | flipped left right =>
    obtain ⟨c', hc'⟩ := hr.red _ right
    exact shrunk_flipped left hc'
  | empty =>
    obtain rfl := hempty rfl
    exact shrunk_black .emptyNode .emptyNode
  | rotated hk left right =>
    obtain ⟨c', hc'⟩ := hr.red _ right
    exact Or.inl (fixUp_black_left left hc')
  | turned hk left right => exact shrunk_black left (hright _ right)

/-- What `remove:` does after the moves to the right. -/
def removeRight (aKey : α) (comparator : α → α → Ordering) (m : FLLRBNode α β) : FLLRBNode α β :=
  if m.key.any fun key => comparator aKey key = .eq then
    if m.right.isEmpty then emptyNode
    else
      (m.takeSmallest.copyWith none none none none
        (some (m.takeSmallest.right.remove aKey comparator))).fixUp
  else (m.copyWith none none none none (some (m.right.remove aKey comparator))).fixUp

theorem remove_not_lt {cmp : α → α → Ordering} (hk : cmp key k ≠ .lt) :
    (valueNode k v c l r).remove key cmp =
      (valueNode k v c l r).prepareRight.removeRight key cmp := by
  rw [remove, if_neg hk]
  rfl

/-! ## The removal -/

/-- What takes the place of a subtree after the removal of `a`. -/
structure Removed (cmp : α → α → Ordering) (a : α) (n n' : FLLRBNode α β) : Prop
    extends Loses n n' where
  rightLeaning : ∀ h, RightLeaning h n → (∀ k ∈ n.key, cmp a k ≠ .lt) → Balanced BLACK h n'
  root : ∀ h, Balanced BLACK h n → (∃ h', Balanced BLACK h' n') ∨ ∃ h', RedRed h' n'
  toList : ((∃ c h, Balanced c h n) ∨ ∃ h, RightLeaning h n ∧ ∀ k ∈ n.key, cmp a k ≠ .lt) →
    n'.toList = erase cmp a n.toList

theorem removed_emptyNode (cmp : α → α → Ordering) (a : α) :
    Removed cmp a (emptyNode : FLLRBNode α β) emptyNode where
  red _ hn := nomatch hn
  leaning _ hn := nomatch hn
  rightLeaning _ hn := nomatch hn
  root _ _ := Or.inl ⟨0, .emptyNode⟩
  toList _ := rfl

theorem LeftReady.balanced_left (hm : LeftReady key c h m) : ∃ c h, Balanced c h m.left := by
  by_cases hempty : m.left = emptyNode
  · exact ⟨BLACK, 0, hempty ▸ .emptyNode⟩
  · exact (hm.fit_left hempty).exists_balanced

theorem sublist_left (n : FLLRBNode α β) : n.left.toList.Sublist n.toList := by
  cases n with
  | emptyNode => exact List.Sublist.refl []
  | valueNode k v c l r => exact List.sublist_append_left _ _

theorem sublist_right (n : FLLRBNode α β) : n.right.toList.Sublist n.toList := by
  cases n with
  | emptyNode => exact List.Sublist.refl []
  | valueNode k v c l r =>
    exact (List.sublist_cons_self _ _).trans (List.sublist_append_right _ _)

section TransCmp

open Std (OrientedCmp TransCmp)

variable {cmp : α → α → Ordering} [TransCmp cmp] {a : α}

omit [TransCmp cmp] in
theorem exists_mem_toList (hn : n.key = some k) : ∃ v, (k, v) ∈ n.toList := by
  cases n with
  | emptyNode => simp [FLLRBNode.key] at hn
  | valueNode k' v c l r =>
    obtain rfl := Option.some.inj hn
    exact ⟨v, by simp⟩

/-- A removal that goes to the left stays on the left of the entry that is now at the root. -/
theorem LeftReady.toList_remove (hm : LeftReady key c h m) (hs : Sorted cmp m.toList)
    (hk : cmp a key = .lt) (hl : l'.toList = erase cmp a m.left.toList) :
    (m.copyWith none none none (some l') none).fixUp.toList = erase cmp a m.toList := by
  have hroot : ∃ k v c l r, m = valueNode k v c l r ∧ (k = key ∨ l.key = some key) := by
    cases hm with
    | lean hk left right => exact ⟨_, _, _, _, _, rfl, hk⟩
    | red left right | flipped left right => exact ⟨_, _, _, _, _, rfl, Or.inl rfl⟩
    | empty => exact ⟨_, _, _, _, _, rfl, Or.inl rfl⟩
  obtain ⟨k, v, c, l, r, rfl, hkey⟩ := hroot
  rw [toList_valueNode] at hs ⊢
  have hlt : cmp a k = .lt := by
    rcases hkey with rfl | hkey
    · exact hk
    · obtain ⟨v', hmem⟩ := exists_mem_toList hkey
      exact TransCmp.lt_trans hk ((sorted_middle_iff.1 hs).2.2.1 _ hmem)
  rw [hs.erase_lt hlt]
  simpa using hl

theorem removed_left (hs : Sorted cmp (valueNode k v c l r).toList) (hk : cmp a k = .lt)
    (ih : Removed cmp a (valueNode k v c l r).prepareLeft.left
      ((valueNode k v c l r).prepareLeft.left.remove a cmp)) :
    Removed cmp a (valueNode k v c l r) ((valueNode k v c l r).remove a cmp) := by
  have hready {c' : FLLRBColor} {h : ℕ} := @leftReady_prepareLeft α β k v c c' h l r
  have hshrunk {h : ℕ} (hm : LeftReady k c h (valueNode k v c l r).prepareLeft) :=
    hm.shrunk ih.toLoses fun e => by rw [e, remove_emptyNode]
  rw [remove_lt hk]
  refine ⟨⟨fun h hn => ?_, fun h hn => ?_⟩, fun h hn hge => ?_, fun h hn => ?_, fun hn => ?_⟩
  · cases hn with
    | red left right => exact hshrunk (hready (fun _ => rfl) left right)
  · cases hn with
    | mk left right =>
      have hself : (valueNode k v BLACK l r).prepareLeft = valueNode k v BLACK l r := by
        simp [prepareLeft, left.isRed]
      rw [hself] at ih ⊢
      obtain ⟨c', hc'⟩ := ih.red _ left
      exact fixUp_black_right hc' right
  · exact absurd hk (hge k rfl)
  · cases hn with
    | black left right =>
      exact (hshrunk (hready (fun e => nomatch e) left right)).imp_left fun hb => ⟨_, hb⟩
  · obtain ⟨c', h, hb⟩ : ∃ c' h, Balanced c' h (valueNode k v c l r) := by
      rcases hn with hn | ⟨h, -, hge⟩
      · exact hn
      · exact absurd hk (hge k rfl)
    obtain ⟨c₁, h₁, hl, hr, hc⟩ := hb.children
    have hm := hready hc hl hr
    have htoList := toList_prepareLeft (valueNode k v c l r)
    rw [← htoList] at hs ⊢
    exact hm.toList_remove hs hk (ih.toList (Or.inl hm.balanced_left))

omit [TransCmp cmp] in
/-- The smallest entry on the right has taken the place of the root's, and the removal has gone to
the right once more. -/
theorem takeSmallest_remove (hr : Fit r) (hlt : ∀ e ∈ r.toList, cmp a e.1 = .lt) :
    ∃ k' v' r', (valueNode k v c l r).takeSmallest.copyWith none none none none
        (some ((valueNode k v c l r).takeSmallest.right.remove a cmp)) = valueNode k' v' c l r' ∧
      Loses r r' ∧ (k', v') :: r'.toList = r.toList := by
  have hempty : r.isEmpty = false := by
    obtain ⟨h, hr | hr⟩ := hr <;> cases hr <;> rfl
  obtain ⟨k', v', tail, htail, hkey, hvalue⟩ := exists_min hempty
  have htoList : r.removeMin.toList = tail := by rw [toList_removeMin hr, htail, List.tail_cons]
  have hlt' : ∀ e ∈ r.removeMin.toList, cmp a e.1 = .lt := fun e he =>
    hlt e (by rw [htail]; exact List.mem_cons_of_mem _ (htoList ▸ he))
  obtain ⟨hsame, hkept⟩ := remove_of_lt hlt'
  have hloses := removeMin_loses r
  refine ⟨k', v', r.removeMin.remove a cmp, ?_, ⟨fun h hn => ?_, fun h hn => ?_⟩, ?_⟩
  · simp [takeSmallest, hkey, hvalue]
  · obtain ⟨c, hc⟩ := hloses.red h hn
    exact ⟨c, hkept c h hc⟩
  · exact hkept BLACK h (hloses.leaning h hn)
  · rw [hsame, htoList, htail]

/-- Where the removed key is not the root's, it is on the right. -/
theorem RightReady.lt_root (hm : RightReady key c h m) (hs : Sorted cmp m.toList)
    (hk : cmp a key ≠ .lt) : ∃ k v c l r, m = valueNode k v c l r ∧
      (k = key ∨ cmp a k = .gt ∧ r.key = some key) := by
  have hright {k : α} {v : β} {c : FLLRBColor} {l r : FLLRBNode α β}
      (hs : Sorted cmp (valueNode k v c l r).toList) (hkey : r.key = some key) :
      cmp a k = .gt := by
    obtain ⟨v', hmem⟩ := exists_mem_toList hkey
    have hgt := OrientedCmp.gt_of_lt ((sorted_middle_iff.1 hs).2.2.2 _ hmem)
    cases hcmp : cmp a key with
    | lt => exact absurd hcmp hk
    | eq => exact TransCmp.gt_of_eq_of_gt hcmp hgt
    | gt => exact TransCmp.gt_trans hcmp hgt
  cases hm with
  | lean left right | flipped left right => exact ⟨_, _, _, _, _, rfl, Or.inl rfl⟩
  | empty => exact ⟨_, _, _, _, _, rfl, Or.inl rfl⟩
  | rotated hkey left right =>
    exact ⟨_, _, _, _, _, rfl, hkey.imp_right fun hkey => ⟨hright hs hkey, hkey⟩⟩
  | turned hkey left right => exact ⟨_, _, _, _, _, rfl, Or.inr ⟨hright hs hkey, hkey⟩⟩

theorem RightReady.fit_right (hm : RightReady key c h m) :
    (m.right = emptyNode ∧ m.left = emptyNode ∧ h = 0) ∨ Fit m.right ∨
      ∃ h, RightLeaning h m.right ∧ m.right.key = some key := by
  cases hm with
  | lean left right => exact Or.inr (Or.inl ⟨_, Or.inr right⟩)
  | flipped left right | rotated hk left right => exact Or.inr (Or.inl ⟨_, Or.inl right⟩)
  | empty => exact Or.inl ⟨rfl, rfl, rfl⟩
  | turned hk left right => exact Or.inr (Or.inr ⟨_, right, hk⟩)

omit [TransCmp cmp] in
theorem Fit.not_rightLeaning (hn : Fit n) : ¬RightLeaning h n := by
  intro hr
  obtain ⟨h', hn | hn⟩ := hn
  · cases hn with
    | red left right => cases hr
  · cases hn with
    | mk left right =>
      cases hr with
      | mk left' right' => exact absurd (left.color_eq.symm.trans left'.color_eq) (by decide)

/-- Either the node was a leaf and is gone, or its right subtree has lost an entry. -/
theorem RightReady.remove (hm : RightReady key c h m) (hs : Sorted cmp m.toList)
    (hk : cmp a key ≠ .lt) (ih : Removed cmp a m.right (m.right.remove a cmp)) :
    (m.removeRight a cmp = emptyNode ∧ m.right = emptyNode ∧ h = 0 ∧
        erase cmp a m.toList = []) ∨
      ∃ k v r', m.removeRight a cmp = (valueNode k v m.color m.left r').fixUp ∧
        Loses m.right r' ∧ (∀ h, RightLeaning h m.right → Balanced BLACK h r') ∧
        (m.right = emptyNode → r' = emptyNode) ∧
        m.left.toList ++ (k, v) :: r'.toList = erase cmp a m.toList := by
  have hfit := hm.fit_right
  obtain ⟨k, v, c', l, r, rfl, hkey⟩ := hm.lt_root hs hk
  simp only [left_valueNode, right_valueNode, color_valueNode, toList_valueNode] at hfit hs ih ⊢
  by_cases heq : cmp a k = .eq
  · have hlt : ∀ e ∈ r.toList, cmp a e.1 = .lt := fun e he =>
      TransCmp.lt_of_eq_of_lt heq ((sorted_middle_iff.1 hs).2.2.2 e he)
    rw [hs.erase_eq heq]
    rcases hfit with ⟨rfl, rfl, rfl⟩ | hr | ⟨h', -, hrkey⟩
    · exact Or.inl ⟨by simp [removeRight, heq], rfl, rfl, rfl⟩
    · obtain ⟨k', v', r', hr', hloses, htoList⟩ := takeSmallest_remove (k := k) (v := v) (c := c')
        (l := l) hr hlt
      have hempty : r.isEmpty = false := by
        cases r with
        | emptyNode => simp at htoList
        | valueNode => rfl
      refine Or.inr ⟨k', v', r', ?_, hloses, fun h' hr' => absurd hr' hr.not_rightLeaning,
        fun e => ?_, by rw [htoList]⟩
      · rw [← hr']
        simp [removeRight, heq, hempty]
      · rw [e] at hempty
        contradiction
    · obtain ⟨v', hmem⟩ := exists_mem_toList hrkey
      exact absurd (hlt _ hmem) hk
  · have hgt : cmp a k = .gt := by
      rcases hkey with rfl | ⟨hgt, -⟩
      · cases hcmp : cmp a k with
        | lt => exact absurd hcmp hk
        | eq => exact absurd hcmp heq
        | gt => rfl
      · exact hgt
    have hge {h' : ℕ} (hr : RightLeaning h' r) : ∀ k ∈ r.key, cmp a k ≠ .lt := by
      rcases hfit with ⟨rfl, -⟩ | hr' | ⟨h', -, hrkey⟩
      · cases hr
      · exact absurd hr hr'.not_rightLeaning
      · rw [hrkey]
        rintro _ ⟨⟩
        exact hk
    have htoList : (r.remove a cmp).toList = erase cmp a r.toList := by
      refine ih.toList ?_
      rcases hfit with ⟨rfl, -⟩ | hr | ⟨h', hr, -⟩
      · exact Or.inl ⟨BLACK, 0, .emptyNode⟩
      · exact Or.inl hr.exists_balanced
      · exact Or.inr ⟨h', hr, hge hr⟩
    rw [hs.erase_gt hgt]
    refine Or.inr ⟨k, v, r.remove a cmp, ?_, ih.toLoses,
      fun h' hr => ih.rightLeaning h' hr (hge hr),
      fun e => by rw [e, remove_emptyNode], by rw [htoList]⟩
    simp [removeRight, heq]

theorem RightReady.shrunk_remove (hm : RightReady key c h m) (hs : Sorted cmp m.toList)
    (hk : cmp a key ≠ .lt) (ih : Removed cmp a m.right (m.right.remove a cmp)) :
    Shrunk (m.removeRight a cmp) c h ∨ m.removeRight a cmp = emptyNode ∧ h = 0 := by
  rcases hm.remove hs hk ih with ⟨hm', -, rfl, -⟩ | ⟨k, v, r', hm', hloses, hright, hempty, -⟩
  · exact Or.inr ⟨hm', rfl⟩
  · rw [hm']
    exact Or.inl (hm.shrunk hloses hright hempty k v)

theorem RightReady.toList_remove (hm : RightReady key c h m) (hs : Sorted cmp m.toList)
    (hk : cmp a key ≠ .lt) (ih : Removed cmp a m.right (m.right.remove a cmp)) :
    (m.removeRight a cmp).toList = erase cmp a m.toList := by
  rcases hm.remove hs hk ih with ⟨hm', -, -, herase⟩ | ⟨k, v, r', hm', -, -, -, htoList⟩
  · rw [hm', herase, toList_emptyNode]
  · rw [hm', toList_fixUp, toList_valueNode, htoList]

/-- A black node whose right child is red loses nothing of its height. -/
theorem RightReady.remove_rotated (hm : RightReady key BLACK h m) (hs : Sorted cmp m.toList)
    (hk : cmp a key ≠ .lt) (ih : Removed cmp a m.right (m.right.remove a cmp))
    (hcolor : m.color = BLACK) (left : Balanced BLACK h m.left) (right : Balanced RED h m.right) :
    Balanced BLACK (h + 1) (m.removeRight a cmp) := by
  rcases hm.remove hs hk ih with ⟨-, hempty, -⟩ | ⟨k, v, r', hm', hloses, -⟩
  · rw [hempty] at right
    nomatch right
  · obtain ⟨c', hc'⟩ := hloses.red _ right
    rw [hm', hcolor]
    exact fixUp_black_left left hc'

theorem removed_right (hs : Sorted cmp (valueNode k v c l r).toList) (hk : cmp a k ≠ .lt)
    (ih : Removed cmp a (valueNode k v c l r).prepareRight.right
      ((valueNode k v c l r).prepareRight.right.remove a cmp)) :
    Removed cmp a (valueNode k v c l r) ((valueNode k v c l r).remove a cmp) := by
  have hready {c' : FLLRBColor} {h : ℕ} := @rightReady_prepareRight α β k v c c' h l r
  have hs' := toList_prepareRight (valueNode k v c l r) ▸ hs
  rw [remove_not_lt hk]
  refine ⟨⟨fun h hn => ?_, fun h hn => ?_⟩, fun h hn _ => ?_, fun h hn => ?_, fun hn => ?_⟩
  · cases hn with
    | red left right =>
      rcases (hready (fun _ => rfl) left right).shrunk_remove hs' hk ih with hm | ⟨hm, rfl⟩
      · exact hm
      · exact ⟨BLACK, hm ▸ .emptyNode⟩
  · cases hn with
    | mk left right =>
      have hm := hready (fun e => nomatch e) left right
      cases left with
      | red left₁ right₁ => exact hm.remove_rotated hs' hk ih rfl left₁ (.red right₁ right)
  · cases hn with
    | mk left right =>
      have hm : RightReady k BLACK _ (valueNode k v BLACK l r) := .rotated (Or.inl rfl) left right
      rw [prepareRight_rightLeaning left right] at hs' ih ⊢
      exact hm.remove_rotated hs' hk ih rfl left right
  · cases hn with
    | black left right =>
      rcases (hready (fun e => nomatch e) left right).shrunk_remove hs' hk ih with hm | ⟨hm, -⟩
      · exact hm.imp_left fun hb => ⟨_, hb⟩
      · exact Or.inl ⟨0, hm ▸ .emptyNode⟩
  · rw [← toList_prepareRight (valueNode k v c l r)]
    rcases hn with ⟨c', h, hb⟩ | ⟨h, hn, -⟩
    · obtain ⟨c₁, h₁, hl, hr, hc⟩ := hb.children
      exact (hready hc hl hr).toList_remove hs' hk ih
    · cases hn with
      | mk left right =>
        have hm : RightReady k BLACK _ (valueNode k v BLACK l r) := .rotated (Or.inl rfl) left right
        rw [prepareRight_rightLeaning left right] at hs' ih ⊢
        exact hm.toList_remove hs' hk ih

theorem removed (a : α) (hs : Sorted cmp n.toList) : Removed cmp a n (n.remove a cmp) := by
  induction hcount : n.count using Nat.strongRecOn generalizing n with
  | ind count ih =>
    cases n with
    | emptyNode =>
      rw [remove_emptyNode]
      exact removed_emptyNode cmp a
    | valueNode k v c l r =>
      by_cases hk : cmp a k = .lt
      · refine removed_left hs hk (ih _ (hcount ▸ count_left_prepareLeft_lt k v c l r) ?_ rfl)
        have hsub := sublist_left (valueNode k v c l r).prepareLeft
        exact hs.sublist (toList_prepareLeft (valueNode k v c l r) ▸ hsub)
      · refine removed_right hs hk (ih _ (hcount ▸ count_right_prepareRight_lt k v c l r) ?_ rfl)
        have hsub := sublist_right (valueNode k v c l r).prepareRight
        exact hs.sublist (toList_prepareRight (valueNode k v c l r) ▸ hsub)

/-- The dictionary after a removal: its root is painted black. -/
theorem Balanced.remove (a : α) (hs : Sorted cmp n.toList) (hn : Balanced BLACK h n) :
    ∃ h', Balanced BLACK h' ((n.remove a cmp).copyWith none none (some BLACK) none none) := by
  rcases (removed a hs).root h hn with ⟨h', hb⟩ | ⟨h', hb⟩
  · exact hb.paint
  · exact hb.paint

theorem toList_remove (a : α) (hs : Sorted cmp n.toList) (hn : Balanced c h n) :
    (n.remove a cmp).toList = erase cmp a n.toList :=
  (removed a hs).toList (Or.inl ⟨c, h, hn⟩)

end TransCmp

end FLLRBNode

end IndoorFarm
