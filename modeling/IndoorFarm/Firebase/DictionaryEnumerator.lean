import IndoorFarm.Firebase.SortedDictionary

/-!
# Enumerating a sorted dictionary (`FTreeSortedDictionaryEnumerator`)

An enumerator of a tree keeps a stack of the nodes whose key is still to come; an enumerator of an
array keeps a position.  `pending` is the list of the keys a stack stands for: repeated calls of
`nextObject` return them one after the other (`nthObject_tree`), and at the start it is the part of
the keys from the start key on (`pending_pushFrom`), so that both representations enumerate the same
keys in the same order.

Without a start key the source compares as 1 and flips this in reverse, so that every node counts as
passed: the reverse enumerator of a tree is empty from the start.
-/

namespace IndoorFarm

open FLLRBColor FLLRBNode SortedEntries

variable {α β : Type*}

/-! ## The source -/

/-- The subtree of the keys that come after the one of the node. -/
def ahead (isReverse : Bool) (n : FLLRBNode α β) : FLLRBNode α β :=
  if isReverse then n.left else n.right

/-- The comparison of a key with the start key, flipped in reverse. -/
def startOrdering (comparator : α → α → Ordering) (startKey : Option α) (isReverse : Bool)
    (key : α) : Ordering :=
  let cmp := match startKey with
    | some startKey => comparator key startKey
    | none => .gt
  if isReverse then cmp.swap else cmp

/-- The loop of `initWithImmutableSortedDictionary:startKey:isReverse:`, with the order of a key
relative to the start. -/
def pushFrom (order : α → Ordering) (isReverse : Bool) :
    FLLRBNode α β → List (FLLRBNode α β) → List (FLLRBNode α β)
  | emptyNode, stack => stack
  | valueNode key value color left right, stack =>
    let node := valueNode key value color left right
    match order key with
    | .lt =>
      if isReverse then pushFrom order isReverse left stack
      else pushFrom order isReverse right stack
    | .eq => node :: stack
    | .gt =>
      if isReverse then pushFrom order isReverse right (node :: stack)
      else pushFrom order isReverse left (node :: stack)

/-- The loops of `nextObject`. -/
def pushAll (isReverse : Bool) :
    FLLRBNode α β → List (FLLRBNode α β) → List (FLLRBNode α β)
  | emptyNode, stack => stack
  | valueNode key value color left right, stack =>
    let node := valueNode key value color left right
    if isReverse then pushAll isReverse right (node :: stack)
    else pushAll isReverse left (node :: stack)

/-- The enumerators; the top of the stack is the head of the list. -/
inductive KeyEnumerator (α β : Type*) where
  | array (keys : List α) (pos : ℤ) (reverse : Bool)
  | tree (stack : List (FLLRBNode α β)) (isReverse : Bool)

namespace KeyEnumerator

/-- `nextObject`, with what the enumerator is afterwards. -/
def nextObject : KeyEnumerator α β → Option α × KeyEnumerator α β
  | array keys pos reverse =>
    if 0 ≤ pos ∧ pos < keys.length then
      (keys[pos.toNat]?, array keys (if reverse then pos - 1 else pos + 1) reverse)
    else (none, array keys pos reverse)
  | tree [] isReverse => (none, tree [] isReverse)
  | tree (node :: stack) isReverse =>
    (node.key, tree (pushAll isReverse (ahead isReverse node) stack) isReverse)

/-- What the call of `nextObject` after `n` others returns. -/
def nthObject (e : KeyEnumerator α β) : ℕ → Option α
  | 0 => e.nextObject.1
  | n + 1 => e.nextObject.2.nthObject n

end KeyEnumerator

namespace FImmutableSortedDictionary

/-- The keys of the entries, in order. -/
def keys (d : FImmutableSortedDictionary α β) : List α := d.toList.map Prod.fst

def keyEnumerator (comparator : α → α → Ordering) :
    FImmutableSortedDictionary α β → KeyEnumerator α β
  | array entries => .array (entries.map Prod.fst) 0 false
  | tree root => .tree (pushFrom (startOrdering comparator none false) false root []) false

def keyEnumeratorFrom (comparator : α → α → Ordering) (startKey : α) :
    FImmutableSortedDictionary α β → KeyEnumerator α β
  | array entries =>
    .array (entries.map Prod.fst) (findInsertPositionForKey comparator startKey entries) false
  | tree root =>
    .tree (pushFrom (startOrdering comparator (some startKey) false) false root []) false

def reverseKeyEnumerator (comparator : α → α → Ordering) :
    FImmutableSortedDictionary α β → KeyEnumerator α β
  | array entries => .array (entries.map Prod.fst) (entries.length - 1) true
  | tree root => .tree (pushFrom (startOrdering comparator none true) true root []) true

def reverseKeyEnumeratorFrom (comparator : α → α → Ordering) (startKey : α) :
    FImmutableSortedDictionary α β → KeyEnumerator α β
  | array entries =>
    let startPos := findInsertPositionForKey comparator startKey entries
    let startPos : ℤ := match entries[startPos]? with
      | some (key, _) => if comparator key startKey = .eq then startPos else startPos - 1
      | none => startPos - 1
    .array (entries.map Prod.fst) startPos true
  | tree root =>
    .tree (pushFrom (startOrdering comparator (some startKey) true) true root []) true

end FImmutableSortedDictionary

/-- `maxKey` of a node. -/
def FLLRBNode.maxKey : FLLRBNode α β → Option α
  | emptyNode => none
  | valueNode key _ _ _ right => if right.isEmpty then some key else right.maxKey

/-- The loop of `getPredecessorKey:` over a tree, `none` where it raises. -/
def predecessorLoop (comparator : α → α → Ordering) (key : α) :
    FLLRBNode α β → Option α → Option (Option α)
  | emptyNode, _ => none
  | valueNode k _ _ left right, rightParent =>
    match comparator key k with
    | .eq => some (if left.isEmpty then rightParent else left.maxKey)
    | .lt => predecessorLoop comparator key left rightParent
    | .gt => predecessorLoop comparator key right (some k)

namespace FImmutableSortedDictionary

def getPredecessorKey (comparator : α → α → Ordering) (key : α) :
    FImmutableSortedDictionary α β → Option (Option α)
  | array entries =>
    match findKey comparator key entries with
    | none => none
    | some 0 => some none
    | some (pos + 1) => some (entries[pos]?.map Prod.fst)
  | tree root => predecessorLoop comparator key root none

end FImmutableSortedDictionary

/-! ## The stack -/

/-- The keys of a tree in the direction of the enumeration. -/
def keysToward (isReverse : Bool) (n : FLLRBNode α β) : List α :=
  if isReverse then (n.toList.map Prod.fst).reverse else n.toList.map Prod.fst

/-- The keys that are still to come. -/
def pending (isReverse : Bool) (stack : List (FLLRBNode α β)) : List α :=
  stack.flatMap fun node => node.key.toList ++ keysToward isReverse (ahead isReverse node)

@[simp] theorem keysToward_emptyNode (isReverse : Bool) :
    keysToward isReverse (emptyNode : FLLRBNode α β) = [] := by
  cases isReverse <;> rfl

theorem pending_cons (isReverse : Bool) (k : α) (v : β) (c : FLLRBColor) (l r : FLLRBNode α β)
    (stack : List (FLLRBNode α β)) : pending isReverse (valueNode k v c l r :: stack) =
      k :: keysToward isReverse (if isReverse then l else r) ++ pending isReverse stack := by
  cases isReverse <;> rfl

theorem keysToward_valueNode (isReverse : Bool) (k : α) (v : β) (c : FLLRBColor)
    (l r : FLLRBNode α β) : keysToward isReverse (valueNode k v c l r) =
      keysToward isReverse (if isReverse then r else l) ++
        k :: keysToward isReverse (if isReverse then l else r) := by
  cases isReverse <;> simp [keysToward]

theorem pending_pushAll (isReverse : Bool) (n : FLLRBNode α β) (stack : List (FLLRBNode α β)) :
    pending isReverse (pushAll isReverse n stack) =
      keysToward isReverse n ++ pending isReverse stack := by
  induction n generalizing stack with
  | emptyNode => simp [pushAll]
  | valueNode k v c l r ihl ihr =>
    rw [pushAll, keysToward_valueNode]
    cases isReverse
    · simp only [Bool.false_eq_true, if_false, ihl, pending_cons, List.append_assoc]
    · simp only [if_true, ihr, pending_cons, List.append_assoc]

theorem isEmpty_of_mem_pushAll {isReverse : Bool} {n : FLLRBNode α β}
    {stack : List (FLLRBNode α β)} (hstack : ∀ node ∈ stack, node.isEmpty = false) :
    ∀ node ∈ pushAll isReverse n stack, node.isEmpty = false := by
  induction n generalizing stack with
  | emptyNode => exact hstack
  | valueNode k v c l r ihl ihr =>
    have hcons : ∀ node ∈ valueNode k v c l r :: stack, node.isEmpty = false :=
      List.forall_mem_cons.2 ⟨rfl, hstack⟩
    cases isReverse
    · exact ihl hcons
    · exact ihr hcons

/-- The `n`-th call returns the `n`-th key that is still to come. -/
theorem nthObject_tree (isReverse : Bool) (n : ℕ) (stack : List (FLLRBNode α β))
    (hstack : ∀ node ∈ stack, node.isEmpty = false) :
    (KeyEnumerator.tree stack isReverse).nthObject n = (pending isReverse stack)[n]? := by
  induction n generalizing stack with
  | zero =>
    cases stack with
    | nil => rfl
    | cons node stack =>
      obtain ⟨k, v, c, l, r, rfl⟩ := eq_valueNode (hstack node List.mem_cons_self)
      rw [pending_cons]
      rfl
  | succ n ih =>
    cases stack with
    | nil =>
      rw [KeyEnumerator.nthObject]
      exact ih [] hstack
    | cons node stack =>
      obtain ⟨k, v, c, l, r, rfl⟩ := eq_valueNode (hstack node List.mem_cons_self)
      rw [KeyEnumerator.nthObject, KeyEnumerator.nextObject,
        ih _ (isEmpty_of_mem_pushAll fun node h => hstack node (List.mem_cons_of_mem _ h)),
        pending_pushAll, pending_cons, List.cons_append, List.getElem?_cons_succ]
      rfl

/-- Once the order lets a key pass, all the keys after it are beyond the start. -/
def Directed (order : α → Ordering) (keys : List α) : Prop :=
  keys.Pairwise fun a b => order a ≠ .lt → order b = .gt

theorem filter_directed {order : α → Ordering} {A B : List α} {k : α}
    (h : Directed order (A ++ k :: B)) :
    (A ++ k :: B).filter (order · ≠ .lt) =
      match order k with
      | .lt => B.filter (order · ≠ .lt)
      | .eq => k :: B
      | .gt => A.filter (order · ≠ .lt) ++ k :: B := by
  obtain ⟨-, hkB, hAk⟩ := List.pairwise_append.1 h
  have hB (hk : order k ≠ .lt) : B.filter (order · ≠ .lt) = B :=
    List.filter_eq_self.2 fun b hb => by simp [(List.pairwise_cons.1 hkB).1 b hb hk]
  have hA (hk : order k ≠ .gt) : A.filter (order · ≠ .lt) = [] :=
    List.filter_eq_nil_iff.2 fun a ha => by
      have := fun hne => hk (hAk a ha k List.mem_cons_self hne)
      simpa using this
  rw [List.filter_append, List.filter_cons]
  cases hcmp : order k with
  | lt => rw [hA (by simp [hcmp]), if_neg (by simp), List.nil_append]
  | eq => rw [hA (by simp [hcmp]), hB (by simp [hcmp]), if_pos (by simp), List.nil_append]
  | gt => rw [hB (by simp [hcmp]), if_pos (by simp)]

theorem pending_pushFrom {order : α → Ordering} (isReverse : Bool) (n : FLLRBNode α β)
    (stack : List (FLLRBNode α β)) (hn : Directed order (keysToward isReverse n)) :
    pending isReverse (pushFrom order isReverse n stack) =
      (keysToward isReverse n).filter (order · ≠ .lt) ++ pending isReverse stack := by
  induction n generalizing stack with
  | emptyNode => simp [pushFrom]
  | valueNode k v c l r ihl ihr =>
    rw [keysToward_valueNode] at hn ⊢
    rw [filter_directed hn, pushFrom]
    obtain ⟨hbehind, hahead, -⟩ := List.pairwise_append.1 hn
    have hahead := (List.pairwise_cons.1 hahead).2
    cases hcmp : order k with
    | lt =>
      cases isReverse
      · exact ihr stack hahead
      · exact ihl stack hahead
    | eq => rw [pending_cons]
    | gt =>
      cases isReverse
      · simpa [pending_cons] using ihl (valueNode k v c l r :: stack) hbehind
      · simpa [pending_cons] using ihr (valueNode k v c l r :: stack) hbehind

theorem isEmpty_of_mem_pushFrom {order : α → Ordering} {isReverse : Bool} {n : FLLRBNode α β}
    {stack : List (FLLRBNode α β)} (hstack : ∀ node ∈ stack, node.isEmpty = false) :
    ∀ node ∈ pushFrom order isReverse n stack, node.isEmpty = false := by
  induction n generalizing stack with
  | emptyNode => exact hstack
  | valueNode k v c l r ihl ihr =>
    have hcons : ∀ node ∈ valueNode k v c l r :: stack, node.isEmpty = false :=
      List.forall_mem_cons.2 ⟨rfl, hstack⟩
    rw [pushFrom]
    cases order k with
    | lt =>
      cases isReverse
      · exact ihr hstack
      · exact ihl hstack
    | eq => exact hcons
    | gt =>
      cases isReverse
      · exact ihl hcons
      · exact ihr hcons

/-! ## The position -/

theorem nextObject_array {keys : List α} {pos : ℕ} (h : pos < keys.length) (reverse : Bool) :
    (KeyEnumerator.array keys pos reverse : KeyEnumerator α β).nextObject =
      (some keys[pos], .array keys (if reverse then (pos : ℤ) - 1 else pos + 1) reverse) := by
  rw [KeyEnumerator.nextObject, if_pos (by omega), Int.toNat_natCast, List.getElem?_eq_getElem h]

theorem nthObject_array_of_out {keys : List α} {pos : ℤ} {reverse : Bool}
    (h : ¬(0 ≤ pos ∧ pos < keys.length)) (n : ℕ) :
    (KeyEnumerator.array keys pos reverse : KeyEnumerator α β).nthObject n = none := by
  have hnext : (KeyEnumerator.array keys pos reverse : KeyEnumerator α β).nextObject =
      (none, .array keys pos reverse) := by rw [KeyEnumerator.nextObject, if_neg h]
  induction n with
  | zero => rw [KeyEnumerator.nthObject, hnext]
  | succ n ih => rw [KeyEnumerator.nthObject, hnext, ih]

theorem nthObject_array_forward (keys : List α) (pos n : ℕ) :
    (KeyEnumerator.array keys pos false : KeyEnumerator α β).nthObject n = (keys.drop pos)[n]? := by
  induction n generalizing pos with
  | zero =>
    by_cases h : pos < keys.length
    · rw [KeyEnumerator.nthObject, nextObject_array h, List.drop_eq_getElem_cons h]
      rfl
    · rw [nthObject_array_of_out (by omega), List.drop_eq_nil_of_le (by omega), List.getElem?_nil]
  | succ n ih =>
    by_cases h : pos < keys.length
    · rw [KeyEnumerator.nthObject, nextObject_array h, List.drop_eq_getElem_cons h,
        List.getElem?_cons_succ]
      exact ih (pos + 1)
    · rw [nthObject_array_of_out (by omega), List.drop_eq_nil_of_le (by omega), List.getElem?_nil]

/-- In reverse from the last of the first `count` keys. -/
theorem nthObject_array_reverse (keys : List α) (count n : ℕ) (hcount : count ≤ keys.length) :
    (KeyEnumerator.array keys (count - 1) true : KeyEnumerator α β).nthObject n =
      (keys.take count).reverse[n]? := by
  induction n generalizing count with
  | zero =>
    cases count with
    | zero => exact nthObject_array_of_out (by omega) 0
    | succ count =>
      rw [show ((count + 1 : ℕ) : ℤ) - 1 = count by omega, KeyEnumerator.nthObject,
        nextObject_array hcount, List.take_succ_eq_append_getElem hcount, List.reverse_concat]
      rfl
  | succ n ih =>
    cases count with
    | zero => exact nthObject_array_of_out (by omega) (n + 1)
    | succ count =>
      rw [show ((count + 1 : ℕ) : ℤ) - 1 = count by omega, KeyEnumerator.nthObject,
        nextObject_array hcount, List.take_succ_eq_append_getElem hcount, List.reverse_concat,
        List.getElem?_cons_succ]
      exact ih count (Nat.le_of_succ_le hcount)

/-! ## The enumerators of a dictionary -/

section TransCmp

open Std (OrientedCmp TransCmp)

variable {cmp : α → α → Ordering} [TransCmp cmp] {entries : List (α × β)}

/-- The position for a key is behind the smaller keys. -/
theorem findInsertPositionForKey_spec (hs : Sorted cmp entries) (key : α) :
    ∃ A B, entries = A ++ B ∧ A.length = findInsertPositionForKey cmp key entries ∧
      (∀ a ∈ A, cmp a.1 key = .lt) ∧ ∀ b ∈ B, cmp b.1 key ≠ .lt := by
  induction entries with
  | nil => exact ⟨[], [], rfl, rfl, by simp, by simp⟩
  | cons e entries ih =>
    obtain ⟨he, hs'⟩ := List.pairwise_cons.1 hs
    rw [findInsertPositionForKey]
    split_ifs with hlt
    · obtain ⟨A, B, rfl, hlen, hA, hB⟩ := ih hs'
      exact ⟨e :: A, B, rfl, by rw [List.length_cons, hlen], List.forall_mem_cons.2 ⟨hlt, hA⟩, hB⟩
    · refine ⟨[], e :: entries, rfl, rfl, by simp,
        List.forall_mem_cons.2 ⟨hlt, fun b hb hblt => ?_⟩⟩
      exact hlt (TransCmp.lt_trans (he b hb) hblt)

namespace FImmutableSortedDictionary

variable {d : FImmutableSortedDictionary α β}

theorem directed_startOrdering (startKey : Option α) (isReverse : Bool) {n : FLLRBNode α β}
    (hs : Sorted cmp n.toList) :
    Directed (startOrdering cmp startKey isReverse) (keysToward isReverse n) := by
  have hkeys : (n.toList.map Prod.fst).Pairwise fun a b => cmp a b = .lt := List.pairwise_map.2 hs
  cases startKey with
  | none =>
    cases isReverse
    · exact hkeys.imp fun _ _ => rfl
    · exact (List.pairwise_reverse.2 hkeys).imp fun _ h => absurd rfl h
  | some s =>
    cases isReverse
    · refine hkeys.imp fun {a b} hlt hne => ?_
      change cmp a s ≠ .lt at hne
      change cmp b s = .gt
      cases ha : cmp a s with
      | lt => exact absurd ha hne
      | eq => exact TransCmp.gt_of_gt_of_eq (OrientedCmp.gt_of_lt hlt) ha
      | gt => exact TransCmp.gt_trans (OrientedCmp.gt_of_lt hlt) ha
    · refine (List.pairwise_reverse.2 hkeys).imp fun {a b} hlt hne => ?_
      change (cmp a s).swap ≠ .lt at hne
      change (cmp b s).swap = .gt
      rw [Ordering.swap_eq_gt]
      cases ha : cmp a s with
      | lt => exact TransCmp.lt_trans hlt ha
      | eq => exact TransCmp.lt_of_lt_of_eq hlt ha
      | gt => exact absurd (by rw [ha]; rfl) hne

theorem nthObject_pushFrom (startKey : Option α) (isReverse : Bool) {root : FLLRBNode α β}
    (hs : Sorted cmp root.toList) (n : ℕ) :
    (KeyEnumerator.tree (pushFrom (startOrdering cmp startKey isReverse) isReverse root [])
      isReverse).nthObject n =
        ((keysToward isReverse root).filter
          (startOrdering cmp startKey isReverse · ≠ .lt))[n]? := by
  rw [nthObject_tree _ _ _ (isEmpty_of_mem_pushFrom (by simp)),
    pending_pushFrom _ _ _ (directed_startOrdering startKey isReverse hs)]
  simp [pending]

theorem nthObject_keyEnumerator (hd : Valid cmp d) (n : ℕ) :
    (d.keyEnumerator cmp).nthObject n = d.keys[n]? := by
  cases d with
  | array entries => exact nthObject_array_forward _ 0 n
  | tree root =>
    have hall : (keysToward false root).filter (startOrdering cmp none false · ≠ .lt) =
        keysToward false root := List.filter_eq_self.2 fun _ _ => rfl
    rw [keyEnumerator, nthObject_pushFrom none false hd.sorted, hall]
    rfl

theorem nthObject_keyEnumeratorFrom (hd : Valid cmp d) (startKey : α) (n : ℕ) :
    (d.keyEnumeratorFrom cmp startKey).nthObject n =
      (d.keys.filter (cmp · startKey ≠ .lt))[n]? := by
  cases d with
  | array entries =>
    have hs : Sorted cmp entries := hd.sorted
    obtain ⟨A, B, rfl, hlen, hA, hB⟩ := findInsertPositionForKey_spec hs startKey
    have hA' : (A.map Prod.fst).filter (cmp · startKey ≠ .lt) = [] :=
      List.filter_eq_nil_iff.2 fun a ha => by
        obtain ⟨e, he, rfl⟩ := List.mem_map.1 ha
        simp [hA e he]
    have hB' : (B.map Prod.fst).filter (cmp · startKey ≠ .lt) = B.map Prod.fst :=
      List.filter_eq_self.2 fun b hb => by
        obtain ⟨e, he, rfl⟩ := List.mem_map.1 hb
        simpa using hB e he
    rw [keyEnumeratorFrom, nthObject_array_forward, ← hlen, keys, toList, List.map_append,
      List.filter_append, hA', hB', List.nil_append, List.drop_left' (List.length_map _)]
  | tree root =>
    rw [keyEnumeratorFrom, nthObject_pushFrom _ false hd.sorted]
    rfl

theorem nthObject_reverseKeyEnumeratorFrom (hd : Valid cmp d) (startKey : α) (n : ℕ) :
    (d.reverseKeyEnumeratorFrom cmp startKey).nthObject n =
      (d.keys.filter (cmp · startKey ≠ .gt)).reverse[n]? := by
  cases d with
  | array entries =>
    have hs : Sorted cmp entries := hd.sorted
    obtain ⟨A, B, rfl, hlen, hA, hB⟩ := findInsertPositionForKey_spec hs startKey
    have hA' : (A.map Prod.fst).filter (cmp · startKey ≠ .gt) = A.map Prod.fst :=
      List.filter_eq_self.2 fun a ha => by
        obtain ⟨e, he, rfl⟩ := List.mem_map.1 ha
        simp [hA e he]
    have hcount {C : List α} (hle : C <+: (A ++ B).map Prod.fst) :
        (KeyEnumerator.array ((A ++ B).map Prod.fst) (C.length - 1) true :
          KeyEnumerator α β).nthObject n = C.reverse[n]? := by
      rw [nthObject_array_reverse _ _ _ hle.length_le, ← List.prefix_iff_eq_take.1 hle]
    rw [reverseKeyEnumeratorFrom, ← hlen, keys, toList, List.map_append, List.filter_append, hA']
    simp only [List.getElem?_append_right le_rfl, Nat.sub_self]
    cases B with
    | nil =>
      have hall := hcount (C := A.map Prod.fst) (by simp)
      simpa using hall
    | cons b B =>
      have hB' : (B.map Prod.fst).filter (cmp · startKey ≠ .gt) = [] :=
        List.filter_eq_nil_iff.2 fun k hk => by
          obtain ⟨e, he, rfl⟩ := List.mem_map.1 hk
          have hgt := OrientedCmp.gt_of_lt ((sorted_middle_iff.1 hs).2.2.2 e he)
          cases hb : cmp b.1 startKey with
          | lt => exact absurd hb (hB b List.mem_cons_self)
          | eq => simp [TransCmp.gt_of_gt_of_eq hgt hb]
          | gt => simp [TransCmp.gt_trans hgt hb]
      rw [List.map_cons, List.filter_cons, hB']
      cases hb : cmp b.1 startKey with
      | lt => exact absurd hb (hB b List.mem_cons_self)
      | eq =>
        have hall := hcount (C := A.map Prod.fst ++ [b.1]) (by simp)
        simpa [hb] using hall
      | gt =>
        have hall := hcount (C := A.map Prod.fst) (by simp)
        simpa [hb] using hall
  | tree root =>
    rw [reverseKeyEnumeratorFrom, nthObject_pushFrom _ true hd.sorted, keysToward, if_pos rfl,
      List.filter_reverse]
    have horder : (fun k => decide (startOrdering cmp (some startKey) true k ≠ .lt)) =
        fun k => decide (cmp k startKey ≠ .gt) := by
      funext k
      simp [startOrdering]
    rw [horder]
    rfl

omit [TransCmp cmp] in
theorem nthObject_reverseKeyEnumerator_array (entries : List (α × β)) (n : ℕ) :
    ((array entries).reverseKeyEnumerator cmp).nthObject n =
      (array entries).keys.reverse[n]? := by
  have h := nthObject_array_reverse (β := β) (entries.map Prod.fst) entries.length n (by simp)
  rw [List.take_of_length_le (by simp)] at h
  exact h

theorem nthObject_reverseKeyEnumerator_tree {root : FLLRBNode α β} (hs : Sorted cmp root.toList)
    (n : ℕ) : ((tree root).reverseKeyEnumerator cmp).nthObject n = none := by
  have hnone : (keysToward true root).filter (startOrdering cmp none true · ≠ .lt) = [] :=
    List.filter_eq_nil_iff.2 fun _ _ => by simp [startOrdering]
  rw [reverseKeyEnumerator, nthObject_pushFrom none true hs, hnone, List.getElem?_nil]

/-! ## The key before -/

omit [TransCmp cmp] in
theorem maxKey_eq (n : FLLRBNode α β) : n.maxKey = (n.toList.map Prod.fst).getLast? := by
  induction n with
  | emptyNode => rfl
  | valueNode k v c l r ihl ihr =>
    rw [FLLRBNode.maxKey, toList_valueNode, List.map_append, List.map_cons]
    cases r with
    | emptyNode => simp
    | valueNode => simp [ihr, List.getLast?_cons]

/-- The keys below an entry in the middle. -/
theorem filter_lt_middle {A B : List (α × β)} {e : α × β} {key : α}
    (hs : Sorted cmp (A ++ e :: B)) :
    ((A ++ e :: B).map Prod.fst).filter (cmp · key = .lt) =
      match cmp key e.1 with
      | .lt => (A.map Prod.fst).filter (cmp · key = .lt)
      | .eq => A.map Prod.fst
      | .gt => A.map Prod.fst ++ e.1 :: (B.map Prod.fst).filter (cmp · key = .lt) := by
  have hA (hk : cmp key e.1 ≠ .lt) : (A.map Prod.fst).filter (cmp · key = .lt) = A.map Prod.fst :=
    List.filter_eq_self.2 fun k hk' => by
      obtain ⟨a, ha, rfl⟩ := List.mem_map.1 hk'
      simp [OrientedCmp.lt_of_gt (hs.gt_left hk a ha)]
  have hB (hk : cmp key e.1 ≠ .gt) : (B.map Prod.fst).filter (cmp · key = .lt) = [] :=
    List.filter_eq_nil_iff.2 fun k hk' => by
      obtain ⟨b, hb, rfl⟩ := List.mem_map.1 hk'
      have hlt := (sorted_middle_iff.1 hs).2.2.2 b hb
      have hkb : cmp key b.1 = .lt := by
        cases hcmp : cmp key e.1 with
        | lt => exact TransCmp.lt_trans hcmp hlt
        | eq => exact TransCmp.lt_of_eq_of_lt hcmp hlt
        | gt => exact absurd hcmp hk
      simp [OrientedCmp.gt_of_lt hkb]
  rw [List.map_append, List.map_cons, List.filter_append, List.filter_cons]
  cases hcmp : cmp key e.1 with
  | lt => rw [hB (by simp [hcmp]), if_neg (by simp [OrientedCmp.gt_of_lt hcmp]), List.append_nil]
  | eq =>
    rw [hA (by simp [hcmp]), hB (by simp [hcmp]), if_neg (by simp [OrientedCmp.eq_symm hcmp]),
      List.append_nil]
  | gt => rw [hA (by simp [hcmp]), if_pos (by simp [OrientedCmp.lt_of_gt hcmp])]

theorem predecessorLoop_eq {n : FLLRBNode α β} (hs : Sorted cmp n.toList) (key : α)
    (rightParent : Option α) :
    predecessorLoop cmp key n rightParent =
      if (lookup cmp key n.toList).isSome then
        some (((n.toList.map Prod.fst).filter (cmp · key = .lt)).getLast?.or rightParent)
      else none := by
  induction n generalizing rightParent with
  | emptyNode => rfl
  | valueNode k v c l r ihl ihr =>
    rw [toList_valueNode] at hs ⊢
    obtain ⟨hl, hr, -⟩ := sorted_middle_iff.1 hs
    rw [predecessorLoop, filter_lt_middle hs]
    cases hcmp : cmp key k with
    | lt =>
      rw [hs.lookup_lt hcmp]
      exact ihl hl rightParent
    | eq =>
      rw [hs.lookup_eq hcmp, Option.isSome_some, if_pos rfl]
      cases l with
      | emptyNode => simp
      | valueNode k' v' c' l' r' =>
        rw [isEmpty_valueNode, if_neg Bool.false_ne_true, maxKey_eq]
        simp [List.getLast?_cons]
    | gt =>
      rw [hs.lookup_gt hcmp]
      simp only [ihr hr]
      split_ifs
      · rw [List.getLast?_append, List.getLast?_cons]
        cases ((r.toList.map Prod.fst).filter (cmp · key = .lt)).getLast? <;> rfl
      · rfl

theorem getPredecessorKey_eq (hd : Valid cmp d) (key : α) :
    d.getPredecessorKey cmp key =
      if (d.get cmp key).isSome then some (d.keys.filter (cmp · key = .lt)).getLast? else none := by
  cases d with
  | array entries =>
    have hs : Sorted cmp entries := hd.sorted
    rw [hd.get_eq, getPredecessorKey, keys, toList]
    cases hfind : findKey cmp key entries with
    | none => simp [lookup_eq_none (findKey_eq_none hs hfind)]
    | some pos =>
      obtain ⟨A, e, B, rfl, rfl, he⟩ := findKey_eq_some hfind
      rw [hs.lookup_eq he, filter_lt_middle hs, he, Option.isSome_some, if_pos rfl]
      rcases List.eq_nil_or_concat A with rfl | ⟨A, a, rfl⟩
      · rfl
      · simp
  | tree root =>
    rw [getPredecessorKey, predecessorLoop_eq hd.sorted, hd.get_eq]
    simp [keys, toList]

end FImmutableSortedDictionary

end TransCmp

end IndoorFarm
