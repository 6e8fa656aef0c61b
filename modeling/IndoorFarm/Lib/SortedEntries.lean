import Mathlib.Data.List.Perm.Basic
import Mathlib.Tactic.SplitIfs

/-!
# Sorted lists of entries as maps

A finite map over keys with a comparator is a list of entries whose keys increase strictly.  Keys
that the comparator does not tell apart are one key; `insert` keeps the stored one or takes the new
one, as `keep` says, which no lookup can see.

* `lookup_insert`, `lookup_erase`: the operations are those of a map;
* `Sorted.insert_gt`, `Sorted.erase_lt`, `Sorted.lookup_eq` and so on: around an entry in the middle
  of the list they work on one side of it only, which is what a search tree relies on;
* `Sorted.eq_of_perm`: the list is determined by its entries.
-/

namespace SortedEntries

variable {α β : Type*} (cmp : α → α → Ordering)

/-- The keys increase strictly. -/
def Sorted (l : List (α × β)) : Prop := l.Pairwise fun a b => cmp a.1 b.1 = .lt

/-- The value of the first entry under `k`. -/
def lookup (k : α) : List (α × β) → Option β
  | [] => none
  | (k', v) :: l => if cmp k k' = .eq then some v else lookup k l

/-- The list with `v` under `k`. -/
def insert (keep : Bool) (k : α) (v : β) : List (α × β) → List (α × β)
  | [] => [(k, v)]
  | (k', v') :: l =>
    match cmp k k' with
    | .lt => (k, v) :: (k', v') :: l
    | .eq => (if keep then k' else k, v) :: l
    | .gt => (k', v') :: insert keep k v l

/-- The list without the first entry under `k`. -/
def erase (k : α) : List (α × β) → List (α × β)
  | [] => []
  | (k', v') :: l => if cmp k k' = .eq then l else (k', v') :: erase k l

variable {cmp} {keep : Bool} {k k' : α} {v v' : β} {A B l l' : List (α × β)} {e : α × β}

@[simp] theorem lookup_nil : lookup cmp k ([] : List (α × β)) = none := rfl

@[simp] theorem erase_nil : erase cmp k ([] : List (α × β)) = [] := rfl

theorem lookup_append_of_ne (h : ∀ a ∈ A, cmp k a.1 ≠ .eq) :
    lookup cmp k (A ++ B) = lookup cmp k B := by
  induction A with
  | nil => rfl
  | cons a A ih =>
    obtain ⟨ha, hA⟩ := List.forall_mem_cons.1 h
    rw [List.cons_append, lookup, if_neg ha, ih hA]

theorem lookup_eq_none (h : ∀ a ∈ l, cmp k a.1 ≠ .eq) : lookup cmp k l = none := by
  simpa using lookup_append_of_ne (B := []) h

theorem erase_append_of_ne (h : ∀ a ∈ A, cmp k a.1 ≠ .eq) :
    erase cmp k (A ++ B) = A ++ erase cmp k B := by
  induction A with
  | nil => rfl
  | cons a A ih =>
    obtain ⟨ha, hA⟩ := List.forall_mem_cons.1 h
    rw [List.cons_append, erase, if_neg ha, ih hA, List.cons_append]

theorem erase_eq_self (h : ∀ a ∈ l, cmp k a.1 ≠ .eq) : erase cmp k l = l := by
  simpa using erase_append_of_ne (B := []) h

theorem insert_append_of_gt (h : ∀ a ∈ A, cmp k a.1 = .gt) :
    insert cmp keep k v (A ++ B) = A ++ insert cmp keep k v B := by
  induction A with
  | nil => rfl
  | cons a A ih =>
    obtain ⟨ha, hA⟩ := List.forall_mem_cons.1 h
    rw [List.cons_append, insert, ha]
    simp only [ih hA, List.cons_append]

/-! ## Around an entry in the middle -/

theorem insert_middle_lt (h : cmp k e.1 = .lt) :
    insert cmp keep k v (A ++ e :: B) = insert cmp keep k v A ++ e :: B := by
  induction A with
  | nil => simp [insert, h]
  | cons a A ih =>
    rw [List.cons_append, insert, insert]
    cases cmp k a.1 with
    | lt | eq => rfl
    | gt => simp only [ih, List.cons_append]

theorem insert_middle_eq (hA : ∀ a ∈ A, cmp k a.1 = .gt) (h : cmp k e.1 = .eq) :
    insert cmp keep k v (A ++ e :: B) = A ++ (if keep then e.1 else k, v) :: B := by
  rw [insert_append_of_gt hA, insert, h]

theorem insert_middle_gt (hA : ∀ a ∈ A, cmp k a.1 = .gt) (h : cmp k e.1 = .gt) :
    insert cmp keep k v (A ++ e :: B) = A ++ e :: insert cmp keep k v B := by
  rw [insert_append_of_gt hA, insert, h]

theorem erase_middle_eq (hA : ∀ a ∈ A, cmp k a.1 ≠ .eq) (h : cmp k e.1 = .eq) :
    erase cmp k (A ++ e :: B) = A ++ B := by
  rw [erase_append_of_ne hA, erase, if_pos h]

theorem erase_middle_gt (hA : ∀ a ∈ A, cmp k a.1 ≠ .eq) (h : cmp k e.1 ≠ .eq) :
    erase cmp k (A ++ e :: B) = A ++ e :: erase cmp k B := by
  rw [erase_append_of_ne hA, erase, if_neg h]

theorem erase_middle_lt (hB : ∀ b ∈ B, cmp k b.1 ≠ .eq) (h : cmp k e.1 ≠ .eq) :
    erase cmp k (A ++ e :: B) = erase cmp k A ++ e :: B := by
  induction A with
  | nil => simp [erase, h, erase_eq_self hB]
  | cons a A ih =>
    rw [List.cons_append, erase, erase]
    split_ifs
    · rfl
    · rw [ih, List.cons_append]

theorem lookup_middle_lt (hB : ∀ b ∈ B, cmp k b.1 ≠ .eq) (h : cmp k e.1 ≠ .eq) :
    lookup cmp k (A ++ e :: B) = lookup cmp k A := by
  induction A with
  | nil => simp [lookup, h, lookup_eq_none hB]
  | cons a A ih => rw [List.cons_append, lookup, lookup, ih]

theorem lookup_middle_eq (hA : ∀ a ∈ A, cmp k a.1 ≠ .eq) (h : cmp k e.1 = .eq) :
    lookup cmp k (A ++ e :: B) = some e.2 := by
  rw [lookup_append_of_ne hA, lookup, if_pos h]

theorem lookup_middle_gt (hA : ∀ a ∈ A, cmp k a.1 ≠ .eq) (h : cmp k e.1 ≠ .eq) :
    lookup cmp k (A ++ e :: B) = lookup cmp k B := by
  rw [lookup_append_of_ne hA, lookup, if_neg h]

/-! ## Sorted lists -/

open Std (LawfulEqCmp OrientedCmp TransCmp)

theorem mem_insert (h : e ∈ insert cmp keep k v l) :
    e ∈ l ∨ e = (k, v) ∨ ∃ a ∈ l, cmp k a.1 = .eq ∧ e = (if keep then a.1 else k, v) := by
  induction l with
  | nil => exact Or.inr (Or.inl (List.mem_singleton.1 h))
  | cons a l ih =>
    rw [insert] at h
    cases hcmp : cmp k a.1 with
    | lt =>
      rw [hcmp] at h
      exact (List.mem_cons.1 h).elim (fun he => Or.inr (Or.inl he)) Or.inl
    | eq =>
      rw [hcmp] at h
      rcases List.mem_cons.1 h with he | he
      · exact Or.inr (Or.inr ⟨a, List.mem_cons_self, hcmp, he⟩)
      · exact Or.inl (List.mem_cons_of_mem a he)
    | gt =>
      rw [hcmp] at h
      rcases List.mem_cons.1 h with rfl | he
      · exact Or.inl List.mem_cons_self
      · rcases ih he with he | he | ⟨b, hb, he⟩
        exacts [Or.inl (List.mem_cons_of_mem a he), Or.inr (Or.inl he),
          Or.inr (Or.inr ⟨b, List.mem_cons_of_mem a hb, he⟩)]

theorem mem_of_mem_erase (h : e ∈ erase cmp k l) : e ∈ l := by
  induction l with
  | nil => exact h
  | cons a l ih =>
    rw [erase] at h
    split_ifs at h
    · exact List.mem_cons_of_mem a h
    · exact (List.mem_cons.1 h).elim (fun he => he ▸ List.mem_cons_self)
        fun he => List.mem_cons_of_mem a (ih he)

section TransCmp

variable [TransCmp cmp]

/-- The key of an entry of the inserted list is `k`, up to the comparator, or a key of the list. -/
theorem cmp_of_mem_insert (h : e ∈ insert cmp keep k v l) : e ∈ l ∨ cmp e.1 k = .eq := by
  rcases mem_insert h with h | rfl | ⟨a, -, ha, rfl⟩
  · exact Or.inl h
  · exact Or.inr Std.ReflCmp.compare_self
  · cases keep
    · exact Or.inr Std.ReflCmp.compare_self
    · exact Or.inr (OrientedCmp.eq_symm ha)

theorem sorted_middle_iff :
    Sorted cmp (A ++ e :: B) ↔ Sorted cmp A ∧ Sorted cmp B ∧ (∀ a ∈ A, cmp a.1 e.1 = .lt) ∧
      ∀ b ∈ B, cmp e.1 b.1 = .lt := by
  simp only [Sorted, List.pairwise_append, List.pairwise_cons, List.forall_mem_cons]
  constructor
  · exact fun ⟨hA, ⟨heB, hB⟩, hAB⟩ => ⟨hA, hB, fun a ha => (hAB a ha).1, heB⟩
  · exact fun ⟨hA, hB, hAe, heB⟩ => ⟨hA, ⟨heB, hB⟩, fun a ha => ⟨hAe a ha, fun b hb =>
      TransCmp.lt_trans (hAe a ha) (heB b hb)⟩⟩

theorem sorted_insert (h : Sorted cmp l) : Sorted cmp (insert cmp keep k v l) := by
  induction l with
  | nil => exact List.pairwise_singleton _ _
  | cons a l ih =>
    obtain ⟨ha, hl⟩ := List.pairwise_cons.1 h
    rw [insert]
    cases hcmp : cmp k a.1 with
    | lt =>
      refine List.pairwise_cons.2 ⟨fun b hb => ?_, h⟩
      rcases List.mem_cons.1 hb with rfl | hb
      · exact hcmp
      · exact TransCmp.lt_trans hcmp (ha b hb)
    | eq =>
      refine List.pairwise_cons.2 ⟨fun b hb => ?_, hl⟩
      cases keep
      · exact TransCmp.lt_of_eq_of_lt hcmp (ha b hb)
      · exact ha b hb
    | gt =>
      refine List.pairwise_cons.2 ⟨fun b hb => ?_, ih hl⟩
      rcases cmp_of_mem_insert hb with hb | hb
      · exact ha b hb
      · exact TransCmp.lt_of_lt_of_eq (OrientedCmp.lt_of_gt hcmp) (OrientedCmp.eq_symm hb)

omit [TransCmp cmp] in
theorem sublist_erase : (erase cmp k l).Sublist l := by
  induction l with
  | nil => exact List.Sublist.refl []
  | cons a l ih =>
    rw [erase]
    split_ifs
    · exact List.sublist_cons_self a l
    · exact ih.cons_cons a

omit [TransCmp cmp] in
theorem sorted_erase (h : Sorted cmp l) : Sorted cmp (erase cmp k l) := h.sublist sublist_erase

theorem lookup_insert (k' : α) :
    lookup cmp k' (insert cmp keep k v l) = if cmp k' k = .eq then some v else lookup cmp k' l := by
  induction l with
  | nil => rfl
  | cons a l ih =>
    rw [insert]
    cases hcmp : cmp k a.1 with
    | lt => rfl
    | eq =>
      have hkey : cmp k' (if keep then a.1 else k) = cmp k' k := by
        cases keep
        · rfl
        · exact (TransCmp.congr_right hcmp).symm
      simp only [lookup, hkey]
      split_ifs with hk ha
      · rfl
      · exact absurd (TransCmp.eq_trans ha (OrientedCmp.eq_symm hcmp)) hk
      · rfl
    | gt =>
      simp only [lookup, ih]
      split_ifs with ha hk
      · rw [TransCmp.congr_left (OrientedCmp.eq_symm hk), ha] at hcmp
        contradiction
      all_goals rfl

theorem lookup_erase (h : Sorted cmp l) (k' : α) :
    lookup cmp k' (erase cmp k l) = if cmp k' k = .eq then none else lookup cmp k' l := by
  induction l with
  | nil => simp
  | cons a l ih =>
    obtain ⟨ha, hl⟩ := List.pairwise_cons.1 h
    rw [erase, lookup]
    by_cases hk : cmp k a.1 = .eq
    · rw [if_pos hk]
      by_cases hk' : cmp k' k = .eq
      · rw [if_pos hk']
        refine lookup_eq_none fun b hb heq => ?_
        have hlt := TransCmp.lt_of_eq_of_lt hk (ha b hb)
        rw [TransCmp.congr_left (OrientedCmp.eq_symm hk'), heq] at hlt
        contradiction
      · rw [if_neg hk', if_neg fun h => hk' (TransCmp.eq_trans h (OrientedCmp.eq_symm hk))]
    · rw [if_neg hk, lookup, ih hl]
      by_cases hk'a : cmp k' a.1 = .eq
      · rw [if_pos hk'a, if_pos hk'a,
          if_neg fun h => hk (TransCmp.eq_trans (OrientedCmp.eq_symm h) hk'a)]
      · rw [if_neg hk'a, if_neg hk'a]

theorem lookup_congr (h : cmp k k' = .eq) : lookup cmp k l = lookup cmp k' l := by
  induction l with
  | nil => rfl
  | cons a l ih => rw [lookup, lookup, TransCmp.congr_left h, ih]

theorem lookup_of_mem (h : Sorted cmp l) (he : e ∈ l) : lookup cmp e.1 l = some e.2 := by
  obtain ⟨A, B, rfl⟩ := List.append_of_mem he
  refine lookup_middle_eq (fun a ha heq => ?_) Std.ReflCmp.compare_self
  have hlt := (sorted_middle_iff.1 h).2.2.1 a ha
  rw [OrientedCmp.eq_symm heq] at hlt
  contradiction

omit [TransCmp cmp] in
theorem lookup_eq_none_iff : lookup cmp k l = none ↔ ∀ a ∈ l, cmp k a.1 ≠ .eq := by
  refine ⟨fun h => ?_, lookup_eq_none⟩
  induction l with
  | nil => simp
  | cons a l ih =>
    rw [lookup] at h
    split_ifs at h with hk
    exact List.forall_mem_cons.2 ⟨hk, ih h⟩

theorem lookup_eq_some_iff (h : Sorted cmp l) :
    lookup cmp k l = some v ↔ ∃ k', cmp k k' = .eq ∧ (k', v) ∈ l := by
  constructor
  · intro hv
    clear h
    induction l with
    | nil => simp at hv
    | cons a l ih =>
      rw [lookup] at hv
      split_ifs at hv with hk
      · obtain rfl := Option.some.inj hv
        exact ⟨a.1, hk, List.mem_cons_self⟩
      · obtain ⟨k', hk', hmem⟩ := ih hv
        exact ⟨k', hk', List.mem_cons_of_mem a hmem⟩
  · rintro ⟨k', hk', hmem⟩
    rw [lookup_congr hk']
    exact lookup_of_mem h hmem

/-- An entry is determined by its key. -/
theorem Sorted.eq_of_mem {e' : α × β} (h : Sorted cmp l) (he : e ∈ l) (he' : e' ∈ l)
    (hcmp : cmp e.1 e'.1 = .eq) : e = e' := by
  obtain ⟨A, B, rfl⟩ := List.append_of_mem he
  obtain ⟨-, -, hA, hB⟩ := sorted_middle_iff.1 h
  rcases List.mem_append.1 he' with hmem | hmem
  · rw [OrientedCmp.gt_of_lt (hA _ hmem)] at hcmp
    contradiction
  · rcases List.mem_cons.1 hmem with heq | hmem
    · exact heq.symm
    · rw [hB _ hmem] at hcmp
      contradiction

/-- Two sorted lists with the same entries are equal. -/
theorem Sorted.eq_of_perm (h : Sorted cmp l) (h' : Sorted cmp l') (hp : l.Perm l') : l = l' := by
  refine hp.eq_of_pairwise (fun a b _ _ hab hba => ?_) h h'
  rw [OrientedCmp.gt_of_lt hab] at hba
  contradiction

omit [TransCmp cmp] in
theorem length_erase (h : lookup cmp k l = some v) : (erase cmp k l).length + 1 = l.length := by
  induction l with
  | nil => simp at h
  | cons a l ih =>
    rw [lookup] at h
    rw [erase]
    split_ifs at h ⊢ with hk
    · rfl
    · rw [List.length_cons, List.length_cons, ih h]

/-- A sorted list is a map: `l` is contained in a list of the same length only if they are one
map. -/
theorem lookup_eq_of_length (h : Sorted cmp l) (h' : Sorted cmp l') (hlen : l.length = l'.length)
    (hl : ∀ e ∈ l, lookup cmp e.1 l' = some e.2) (k : α) : lookup cmp k l = lookup cmp k l' := by
  induction l generalizing l' with
  | nil =>
    obtain rfl := List.length_eq_zero_iff.1 hlen.symm
    rfl
  | cons a l ih =>
    obtain ⟨ha, hs⟩ := List.pairwise_cons.1 h
    obtain ⟨hla, hl⟩ := List.forall_mem_cons.1 hl
    have hlen' := length_erase hla
    have htail := ih hs (sorted_erase (k := a.1) h') (by simp at hlen; omega) fun e he => by
      rw [lookup_erase h', OrientedCmp.gt_of_lt (ha e he), if_neg (by decide), hl e he]
    rw [lookup, htail, lookup_erase h']
    split_ifs with hk
    · rw [lookup_congr hk, hla]
    · rfl

/-- Lists that are one map have one length. -/
theorem length_eq_of_lookup (h : Sorted cmp l) (h' : Sorted cmp l')
    (hl : ∀ k, lookup cmp k l = lookup cmp k l') : l.length = l'.length := by
  induction l generalizing l' with
  | nil =>
    cases l' with
    | nil => rfl
    | cons a l' =>
      have hnone := lookup_eq_none_iff.1 (hl a.1).symm a List.mem_cons_self
      exact absurd Std.ReflCmp.compare_self hnone
  | cons a l ih =>
    obtain ⟨ha, hs⟩ := List.pairwise_cons.1 h
    have hla : lookup cmp a.1 l' = some a.2 := by
      rw [← hl, lookup_of_mem h List.mem_cons_self]
    have htail := ih hs (sorted_erase (k := a.1) h') fun k => by
      rw [lookup_erase h', ← hl, lookup]
      split_ifs with hk
      · exact lookup_eq_none fun e he heq => by
          rw [TransCmp.lt_of_eq_of_lt hk (ha e he)] at heq
          contradiction
      · rfl
    rw [List.length_cons, htail, length_erase hla]

/-- Where the comparator tells all keys apart, sorted lists that are one map are equal. -/
theorem Sorted.eq_of_lookup [LawfulEqCmp cmp] (h : Sorted cmp l) (h' : Sorted cmp l')
    (hl : ∀ k, lookup cmp k l = lookup cmp k l') : l = l' := by
  have hnodup {m : List (α × β)} (hm : Sorted cmp m) : m.Nodup := by
    refine hm.imp fun {a b} hab heq => ?_
    have hself : cmp b.1 b.1 = .eq := Std.ReflCmp.compare_self
    rw [heq, hself] at hab
    contradiction
  have hmem {m : List (α × β)} (hm : Sorted cmp m) (e : α × β) :
      e ∈ m ↔ lookup cmp e.1 m = some e.2 := by
    refine ⟨lookup_of_mem hm, fun he => ?_⟩
    obtain ⟨k', heq, hk'⟩ := (lookup_eq_some_iff hm).1 he
    rwa [← LawfulEqCmp.eq_of_compare heq] at hk'
  refine h.eq_of_perm h' ((List.perm_ext_iff_of_nodup (hnodup h) (hnodup h')).2 fun e => ?_)
  rw [hmem h, hmem h', hl]

omit [TransCmp cmp] in
/-- A new key makes one more entry, wherever it lands. -/
theorem perm_insert (h : ∀ a ∈ l, cmp k a.1 ≠ .eq) :
    (insert cmp keep k v l).Perm ((k, v) :: l) := by
  induction l with
  | nil => exact List.Perm.refl _
  | cons a l ih =>
    obtain ⟨ha, hl⟩ := List.forall_mem_cons.1 h
    rw [insert]
    cases hcmp : cmp k a.1 with
    | lt => exact List.Perm.refl _
    | eq => exact absurd hcmp ha
    | gt => exact ((ih hl).cons a).trans (List.Perm.swap (k, v) a l)

/-! ## Around an entry of a sorted list -/

theorem Sorted.lt_right (h : Sorted cmp (A ++ e :: B)) (hk : cmp k e.1 = .lt) :
    ∀ b ∈ B, cmp k b.1 = .lt := fun b hb =>
  TransCmp.lt_trans hk ((sorted_middle_iff.1 h).2.2.2 b hb)

theorem Sorted.gt_left (h : Sorted cmp (A ++ e :: B)) (hk : cmp k e.1 ≠ .lt) :
    ∀ a ∈ A, cmp k a.1 = .gt := fun a ha => by
  have hlt := (sorted_middle_iff.1 h).2.2.1 a ha
  cases hcmp : cmp k e.1 with
  | lt => exact absurd hcmp hk
  | eq => exact TransCmp.gt_of_eq_of_gt hcmp (OrientedCmp.gt_of_lt hlt)
  | gt => exact TransCmp.gt_trans hcmp (OrientedCmp.gt_of_lt hlt)

theorem Sorted.ne_left (h : Sorted cmp (A ++ e :: B)) (hk : cmp k e.1 ≠ .lt) :
    ∀ a ∈ A, cmp k a.1 ≠ .eq := fun a ha => by simp [h.gt_left hk a ha]

theorem Sorted.ne_right (h : Sorted cmp (A ++ e :: B)) (hk : cmp k e.1 = .lt) :
    ∀ b ∈ B, cmp k b.1 ≠ .eq := fun b hb => by simp [h.lt_right hk b hb]

omit [TransCmp cmp] in
theorem Sorted.insert_lt (_ : Sorted cmp (A ++ e :: B)) (hk : cmp k e.1 = .lt) :
    insert cmp keep k v (A ++ e :: B) = insert cmp keep k v A ++ e :: B :=
  insert_middle_lt hk

theorem Sorted.insert_eq (h : Sorted cmp (A ++ e :: B)) (hk : cmp k e.1 = .eq) :
    insert cmp keep k v (A ++ e :: B) = A ++ (if keep then e.1 else k, v) :: B :=
  insert_middle_eq (h.gt_left (by simp [hk])) hk

theorem Sorted.insert_gt (h : Sorted cmp (A ++ e :: B)) (hk : cmp k e.1 = .gt) :
    insert cmp keep k v (A ++ e :: B) = A ++ e :: insert cmp keep k v B :=
  insert_middle_gt (h.gt_left (by simp [hk])) hk

theorem Sorted.erase_lt (h : Sorted cmp (A ++ e :: B)) (hk : cmp k e.1 = .lt) :
    erase cmp k (A ++ e :: B) = erase cmp k A ++ e :: B :=
  erase_middle_lt (h.ne_right hk) (by simp [hk])

theorem Sorted.erase_eq (h : Sorted cmp (A ++ e :: B)) (hk : cmp k e.1 = .eq) :
    erase cmp k (A ++ e :: B) = A ++ B :=
  erase_middle_eq (h.ne_left (by simp [hk])) hk

theorem Sorted.erase_gt (h : Sorted cmp (A ++ e :: B)) (hk : cmp k e.1 = .gt) :
    erase cmp k (A ++ e :: B) = A ++ e :: erase cmp k B :=
  erase_middle_gt (h.ne_left (by simp [hk])) (by simp [hk])

theorem Sorted.lookup_lt (h : Sorted cmp (A ++ e :: B)) (hk : cmp k e.1 = .lt) :
    lookup cmp k (A ++ e :: B) = lookup cmp k A :=
  lookup_middle_lt (h.ne_right hk) (by simp [hk])

theorem Sorted.lookup_eq (h : Sorted cmp (A ++ e :: B)) (hk : cmp k e.1 = .eq) :
    lookup cmp k (A ++ e :: B) = some e.2 :=
  lookup_middle_eq (h.ne_left (by simp [hk])) hk

theorem Sorted.lookup_gt (h : Sorted cmp (A ++ e :: B)) (hk : cmp k e.1 = .gt) :
    lookup cmp k (A ++ e :: B) = lookup cmp k B :=
  lookup_middle_gt (h.ne_left (by simp [hk])) (by simp [hk])

end TransCmp

end SortedEntries
