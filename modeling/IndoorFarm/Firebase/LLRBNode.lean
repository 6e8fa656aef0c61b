import IndoorFarm.Lib.SortedEntries

/-!
# Left-leaning red-black trees (`FLLRBValueNode`, `FLLRBEmptyNode`)

The nodes of the search trees in which the library keeps the children of large nodes.  A message to
nil answers NO, 0 or nil, as the empty node does, so `left` and `right` of the empty node are the
empty node.

The contents of a tree is its list of entries in order (`toList`); a rotation and a color flip leave
it alone (`toList_moveRedLeft`, `toList_moveRedRight`, `toList_fixUp`).
-/

namespace IndoorFarm

open SortedEntries

inductive FLLRBColor where
  | RED
  | BLACK
  deriving DecidableEq

/-- `[NSNumber numberWithBool:![color boolValue]]`. -/
def FLLRBColor.flip : FLLRBColor → FLLRBColor
  | RED => BLACK
  | BLACK => RED

inductive FLLRBNode (α β : Type*) where
  | emptyNode
  | valueNode (key : α) (value : β) (color : FLLRBColor) (left right : FLLRBNode α β)

namespace FLLRBNode

open FLLRBColor

variable {α β : Type*}

/-! ## The fields -/

def key : FLLRBNode α β → Option α
  | emptyNode => none
  | valueNode key _ _ _ _ => some key

def value : FLLRBNode α β → Option β
  | emptyNode => none
  | valueNode _ value _ _ _ => some value

/-- The color of the empty node is nil, which counts as black. -/
def color : FLLRBNode α β → FLLRBColor
  | emptyNode => BLACK
  | valueNode _ _ color _ _ => color

def left : FLLRBNode α β → FLLRBNode α β
  | emptyNode => emptyNode
  | valueNode _ _ _ left _ => left

def right : FLLRBNode α β → FLLRBNode α β
  | emptyNode => emptyNode
  | valueNode _ _ _ _ right => right

def isEmpty : FLLRBNode α β → Bool
  | emptyNode => true
  | valueNode _ _ _ _ _ => false

def isRed (n : FLLRBNode α β) : Bool := n.color = RED

def count : FLLRBNode α β → ℕ
  | emptyNode => 0
  | valueNode _ _ _ left right => left.count + 1 + right.count

/-- `copyWith:withValue:withColor:withLeft:withRight:`; nil keeps what the node has. -/
def copyWith (n : FLLRBNode α β) (aKey : Option α) (aValue : Option β) (aColor : Option FLLRBColor)
    (aLeft aRight : Option (FLLRBNode α β)) : FLLRBNode α β :=
  match n with
  | emptyNode => emptyNode
  | valueNode key value color left right =>
    valueNode (aKey.getD key) (aValue.getD value) (aColor.getD color) (aLeft.getD left)
      (aRight.getD right)

/-- The entries in the order of `inorderTraversal:`. -/
def toList : FLLRBNode α β → List (α × β)
  | emptyNode => []
  | valueNode key value _ left right => left.toList ++ (key, value) :: right.toList

section Fields

variable (k : α) (v : β) (c : FLLRBColor) (l r : FLLRBNode α β)

@[simp] theorem key_valueNode : (valueNode k v c l r).key = some k := rfl

@[simp] theorem value_valueNode : (valueNode k v c l r).value = some v := rfl

@[simp] theorem color_valueNode : (valueNode k v c l r).color = c := rfl

@[simp] theorem left_valueNode : (valueNode k v c l r).left = l := rfl

@[simp] theorem right_valueNode : (valueNode k v c l r).right = r := rfl

@[simp] theorem isEmpty_valueNode : (valueNode k v c l r).isEmpty = false := rfl

@[simp] theorem isEmpty_emptyNode : (emptyNode : FLLRBNode α β).isEmpty = true := rfl

@[simp] theorem isRed_emptyNode : (emptyNode : FLLRBNode α β).isRed = false := rfl

@[simp] theorem isRed_red : (valueNode k v RED l r).isRed = true := rfl

@[simp] theorem isRed_black : (valueNode k v BLACK l r).isRed = false := rfl

@[simp] theorem left_emptyNode : (emptyNode : FLLRBNode α β).left = emptyNode := rfl

@[simp] theorem right_emptyNode : (emptyNode : FLLRBNode α β).right = emptyNode := rfl

@[simp] theorem count_emptyNode : (emptyNode : FLLRBNode α β).count = 0 := rfl

@[simp] theorem count_valueNode : (valueNode k v c l r).count = l.count + 1 + r.count := rfl

theorem count_pos : 0 < (valueNode k v c l r).count := by
  rw [count_valueNode]
  omega

@[simp] theorem toList_emptyNode : (emptyNode : FLLRBNode α β).toList = [] := rfl

@[simp] theorem toList_valueNode :
    (valueNode k v c l r).toList = l.toList ++ (k, v) :: r.toList := rfl

@[simp] theorem copyWith_emptyNode (aKey : Option α) (aValue : Option β)
    (aColor : Option FLLRBColor) (aLeft aRight : Option (FLLRBNode α β)) :
    emptyNode.copyWith aKey aValue aColor aLeft aRight = emptyNode := rfl

@[simp] theorem copyWith_valueNode (aKey : Option α) (aValue : Option β)
    (aColor : Option FLLRBColor) (aLeft aRight : Option (FLLRBNode α β)) :
    (valueNode k v c l r).copyWith aKey aValue aColor aLeft aRight =
      valueNode (aKey.getD k) (aValue.getD v) (aColor.getD c) (aLeft.getD l) (aRight.getD r) := rfl

end Fields

theorem isEmpty_of_isRed {n : FLLRBNode α β} (h : n.isRed = true) : n.isEmpty = false := by
  cases n with
  | emptyNode => simp at h
  | valueNode k v c l r => rfl

theorem eq_valueNode {n : FLLRBNode α β} (h : n.isEmpty = false) :
    ∃ k v c l r, n = valueNode k v c l r := by
  cases n with
  | emptyNode => simp at h
  | valueNode k v c l r => exact ⟨k, v, c, l, r, rfl⟩

theorem count_eq_length_toList (n : FLLRBNode α β) : n.count = n.toList.length := by
  induction n with
  | emptyNode => rfl
  | valueNode k v c l r ihl ihr =>
    rw [count_valueNode, toList_valueNode, ihl, ihr, List.length_append, List.length_cons]
    omega

/-! ## Rotations -/

def rotateLeft (n : FLLRBNode α β) : FLLRBNode α β :=
  let nl := n.copyWith none none (some RED) none (some n.right.left)
  n.right.copyWith none none (some n.color) (some nl) none

def rotateRight (n : FLLRBNode α β) : FLLRBNode α β :=
  let nr := n.copyWith none none (some RED) (some n.left.right) none
  n.left.copyWith none none (some n.color) none (some nr)

def colorFlip (n : FLLRBNode α β) : FLLRBNode α β :=
  let nleft := n.left.copyWith none none (some n.left.color.flip) none none
  let nright := n.right.copyWith none none (some n.right.color.flip) none none
  n.copyWith none none (some n.color.flip) (some nleft) (some nright)

def fixUp (n : FLLRBNode α β) : FLLRBNode α β :=
  let n := if n.right.isRed && !n.left.isRed then n.rotateLeft else n
  let n := if n.left.isRed && n.left.left.isRed then n.rotateRight else n
  if n.left.isRed && n.right.isRed then n.colorFlip else n

def moveRedLeft (n : FLLRBNode α β) : FLLRBNode α β :=
  let n := n.colorFlip
  if n.right.left.isRed then
    let n := n.copyWith none none none none (some n.right.rotateRight)
    let n := n.rotateLeft
    n.colorFlip
  else n

def moveRedRight (n : FLLRBNode α β) : FLLRBNode α β :=
  let n := n.colorFlip
  if n.left.left.isRed then
    let n := n.rotateRight
    n.colorFlip
  else n

@[simp] theorem rotateLeft_valueNode (k k' : α) (v v' : β) (c c' : FLLRBColor)
    (l l' r' : FLLRBNode α β) :
    (valueNode k v c l (valueNode k' v' c' l' r')).rotateLeft =
      valueNode k' v' c (valueNode k v RED l l') r' := rfl

@[simp] theorem rotateRight_valueNode (k k' : α) (v v' : β) (c c' : FLLRBColor)
    (l' r r' : FLLRBNode α β) :
    (valueNode k v c (valueNode k' v' c' l' r') r).rotateRight =
      valueNode k' v' c l' (valueNode k v RED r' r) := rfl

@[simp] theorem toList_copyWith_color (n : FLLRBNode α β) (c : FLLRBColor) :
    (n.copyWith none none (some c) none none).toList = n.toList := by
  cases n <;> rfl

@[simp] theorem toList_colorFlip (n : FLLRBNode α β) : n.colorFlip.toList = n.toList := by
  cases n with
  | emptyNode => rfl
  | valueNode k v c l r => simp [colorFlip]

theorem toList_rotateLeft {n : FLLRBNode α β} (h : n.right.isEmpty = false) :
    n.rotateLeft.toList = n.toList := by
  cases n with
  | emptyNode => simp at h
  | valueNode k v c l r =>
    obtain ⟨k', v', c', l', r', rfl⟩ := eq_valueNode h
    simp

theorem toList_rotateRight {n : FLLRBNode α β} (h : n.left.isEmpty = false) :
    n.rotateRight.toList = n.toList := by
  cases n with
  | emptyNode => simp at h
  | valueNode k v c l r =>
    obtain ⟨k', v', c', l', r', rfl⟩ := eq_valueNode h
    simp

@[simp] theorem toList_fixUp (n : FLLRBNode α β) : n.fixUp.toList = n.toList := by
  have hleft (n : FLLRBNode α β) :
      (if n.right.isRed && !n.left.isRed then n.rotateLeft else n).toList = n.toList := by
    split_ifs with h
    · exact toList_rotateLeft (isEmpty_of_isRed (Bool.and_eq_true_iff.1 h).1)
    · rfl
  have hright (n : FLLRBNode α β) :
      (if n.left.isRed && n.left.left.isRed then n.rotateRight else n).toList = n.toList := by
    split_ifs with h
    · exact toList_rotateRight (isEmpty_of_isRed (Bool.and_eq_true_iff.1 h).1)
    · rfl
  have hflip (n : FLLRBNode α β) :
      (if n.left.isRed && n.right.isRed then n.colorFlip else n).toList = n.toList := by
    split_ifs
    · exact toList_colorFlip n
    · rfl
  exact (hflip _).trans ((hright _).trans (hleft n))

@[simp] theorem toList_moveRedLeft (n : FLLRBNode α β) : n.moveRedLeft.toList = n.toList := by
  unfold moveRedLeft
  rw [← toList_colorFlip n]
  generalize n.colorFlip = n
  dsimp only
  split_ifs with h
  · cases n with
    | emptyNode => simp at h
    | valueNode k v c l r =>
      have hl := isEmpty_of_isRed h
      cases r with
      | emptyNode => simp at hl
      | valueNode k' v' c' l' r' =>
        obtain ⟨k'', v'', c'', l'', r'', rfl⟩ := eq_valueNode hl
        simp
  · rfl

@[simp] theorem toList_moveRedRight (n : FLLRBNode α β) : n.moveRedRight.toList = n.toList := by
  unfold moveRedRight
  rw [← toList_colorFlip n]
  generalize n.colorFlip = n
  dsimp only
  split_ifs with h
  · have hl : n.left.isEmpty = false := by
      have h' := isEmpty_of_isRed h
      cases hn : n.left with
      | emptyNode => simp [hn] at h'
      | valueNode => rfl
    rw [toList_colorFlip, toList_rotateRight hl]
  · rfl

/-! ## Insertion and removal -/

/-- `insertKey:forValue:withComparator:`.  An equal key stays as it is stored. -/
def insertKey (aComparator : α → α → Ordering) (aKey : α) (aValue : β) :
    FLLRBNode α β → FLLRBNode α β
  | emptyNode => valueNode aKey aValue RED emptyNode emptyNode
  | valueNode key value color left right =>
    let n := valueNode key value color left right
    match aComparator aKey key with
    | .lt =>
      (n.copyWith none none none (some (insertKey aComparator aKey aValue left)) none).fixUp
    | .eq => (n.copyWith none (some aValue) none none none).fixUp
    | .gt =>
      (n.copyWith none none none none (some (insertKey aComparator aKey aValue right))).fixUp

def min : FLLRBNode α β → FLLRBNode α β
  | emptyNode => emptyNode
  | valueNode key value color left right =>
    if left.isEmpty then valueNode key value color left right else left.min

theorem count_moveRedLeft (n : FLLRBNode α β) : n.moveRedLeft.count = n.count := by
  rw [count_eq_length_toList, toList_moveRedLeft, count_eq_length_toList]

theorem count_left_lt {n : FLLRBNode α β} (h : 0 < n.count) : n.left.count < n.count := by
  cases n with
  | emptyNode => exact absurd h (Nat.lt_irrefl 0)
  | valueNode k v c l r =>
    rw [left_valueNode, count_valueNode]
    omega

theorem count_right_lt {n : FLLRBNode α β} (h : 0 < n.count) : n.right.count < n.count := by
  cases n with
  | emptyNode => exact absurd h (Nat.lt_irrefl 0)
  | valueNode k v c l r =>
    rw [right_valueNode, count_valueNode]
    omega

theorem count_withLeft_le (n l : FLLRBNode α β) (h : l.count ≤ n.left.count) :
    (n.copyWith none none none (some l) none).fixUp.count ≤ n.count := by
  rw [count_eq_length_toList, toList_fixUp, ← count_eq_length_toList]
  cases n with
  | emptyNode => exact Nat.le_refl 0
  | valueNode k v c l' r =>
    rw [left_valueNode] at h
    rw [copyWith_valueNode, count_valueNode, count_valueNode]
    simp only [Option.getD_some, Option.getD_none]
    omega

def removeMin (n : FLLRBNode α β) : FLLRBNode α β :=
  if n.left.isEmpty then emptyNode
  else
    let m := if !n.left.isRed && !n.left.left.isRed then n.moveRedLeft else n
    (m.copyWith none none none (some m.left.removeMin) none).fixUp
termination_by n.count
decreasing_by
  rename_i h
  have hpos : 0 < n.count := by
    cases n with
    | emptyNode => simp at h
    | valueNode k v c l r => rw [count_valueNode]; omega
  have hcount : (if !n.left.isRed && !n.left.left.isRed then n.moveRedLeft else n).count =
      n.count := by
    split_ifs
    · exact count_moveRedLeft n
    · rfl
  exact hcount ▸ count_left_lt (hcount.symm ▸ hpos)

theorem count_removeMin_le (n : FLLRBNode α β) : n.removeMin.count ≤ n.count := by
  induction n using removeMin.induct with
  | case1 n h =>
    rw [removeMin, if_pos h]
    exact Nat.zero_le _
  | case2 n h m ih =>
    rw [removeMin, if_neg h]
    refine Nat.le_trans (count_withLeft_le m _ ih) (Nat.le_of_eq ?_)
    simp only [m]
    split_ifs
    · exact count_moveRedLeft n
    · rfl

/-- What `remove:` does before it goes to the left. -/
def prepareLeft (n : FLLRBNode α β) : FLLRBNode α β :=
  if !n.left.isEmpty && !n.left.isRed && !n.left.left.isRed then n.moveRedLeft else n

/-- What `remove:` does before it compares with the key and goes to the right. -/
def prepareRight (n : FLLRBNode α β) : FLLRBNode α β :=
  let n := if n.left.isRed then n.rotateRight else n
  if !n.right.isEmpty && !n.right.isRed && !n.right.left.isRed then n.moveRedRight else n

/-- The smallest entry on the right takes the place of the entry that is removed. -/
def takeSmallest (n : FLLRBNode α β) : FLLRBNode α β :=
  let smallest := n.right.min
  n.copyWith smallest.key smallest.value none none (some n.right.removeMin)

@[simp] theorem toList_prepareLeft (n : FLLRBNode α β) : n.prepareLeft.toList = n.toList := by
  unfold prepareLeft
  split_ifs
  · exact toList_moveRedLeft n
  · rfl

@[simp] theorem toList_prepareRight (n : FLLRBNode α β) : n.prepareRight.toList = n.toList := by
  have hrotate : (if n.left.isRed then n.rotateRight else n).toList = n.toList := by
    split_ifs with h
    · exact toList_rotateRight (isEmpty_of_isRed h)
    · rfl
  unfold prepareRight
  dsimp only
  split_ifs at hrotate ⊢ <;> simp [hrotate]

theorem count_left_prepareLeft_lt (k : α) (v : β) (c : FLLRBColor) (l r : FLLRBNode α β) :
    (valueNode k v c l r).prepareLeft.left.count < (valueNode k v c l r).count := by
  have hcount : (valueNode k v c l r).prepareLeft.count = (valueNode k v c l r).count := by
    rw [count_eq_length_toList, toList_prepareLeft, count_eq_length_toList]
  rw [← hcount]
  exact count_left_lt (hcount ▸ count_pos k v c l r)

theorem count_right_prepareRight_lt (k : α) (v : β) (c : FLLRBColor) (l r : FLLRBNode α β) :
    (valueNode k v c l r).prepareRight.right.count < (valueNode k v c l r).count := by
  have hcount : (valueNode k v c l r).prepareRight.count = (valueNode k v c l r).count := by
    rw [count_eq_length_toList, toList_prepareRight, count_eq_length_toList]
  rw [← hcount]
  exact count_right_lt (hcount ▸ count_pos k v c l r)

theorem count_right_takeSmallest_le (n : FLLRBNode α β) :
    n.takeSmallest.right.count ≤ n.right.count := by
  cases n with
  | emptyNode => exact Nat.le_refl 0
  | valueNode k v c l r => exact count_removeMin_le r

/-- `remove:withComparator:`. -/
def remove (aKey : α) (comparator : α → α → Ordering) (n : FLLRBNode α β) : FLLRBNode α β :=
  match n with
  | emptyNode => emptyNode
  | valueNode key value color left right =>
    if comparator aKey key = .lt then
      let n := (valueNode key value color left right).prepareLeft
      (n.copyWith none none none (some (n.left.remove aKey comparator)) none).fixUp
    else
      let n := (valueNode key value color left right).prepareRight
      if n.key.any fun key => comparator aKey key = .eq then
        if n.right.isEmpty then emptyNode
        else
          let n := n.takeSmallest
          (n.copyWith none none none none (some (n.right.remove aKey comparator))).fixUp
      else (n.copyWith none none none none (some (n.right.remove aKey comparator))).fixUp
termination_by n.count
decreasing_by
  · exact count_left_prepareLeft_lt key value color left right
  · exact Nat.lt_of_le_of_lt (count_right_takeSmallest_le _)
      (count_right_prepareRight_lt key value color left right)
  · exact count_right_prepareRight_lt key value color left right

/-- The loop of `get:`. -/
def get (comparator : α → α → Ordering) (key : α) : FLLRBNode α β → Option β
  | emptyNode => none
  | valueNode k v _ l r =>
    match comparator key k with
    | .eq => some v
    | .lt => get comparator key l
    | .gt => get comparator key r

/-- How often the loop of `get:` compares. -/
def comparisons (comparator : α → α → Ordering) (key : α) : FLLRBNode α β → ℕ
  | emptyNode => 0
  | valueNode k _ _ l r =>
    match comparator key k with
    | .eq => 1
    | .lt => comparisons comparator key l + 1
    | .gt => comparisons comparator key r + 1

/-- `check`, `none` where it raises: the number of black nodes on every way down. -/
def check : FLLRBNode α β → Option ℕ
  | emptyNode => some 0
  | valueNode k v c l r =>
    if (valueNode k v c l r).isRed && l.isRed then none
    else if r.isRed then none
    else l.check.bind fun blackDepth => r.check.bind fun rightDepth =>
      if blackDepth ≠ rightDepth then none
      else some (blackDepth + if (valueNode k v c l r).isRed then 0 else 1)

end FLLRBNode

end IndoorFarm
