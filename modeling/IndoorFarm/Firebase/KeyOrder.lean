import IndoorFarm.Firebase.Path
import Mathlib.Tactic.SplitIfs
import Mathlib.Tactic.Ring
import Mathlib.Data.Int.Basic

/-!
# The order of keys (`FUtilities`)

The children of a node are sorted by `compareKey:toKey:`: integers of 32 bits before other texts,
integers by value and then by length, texts by their UTF-16 units.  `compareKey` is this order on
texts, `compareName` the whole of it, with the two sentinels of the source.

The order is a total preorder, since it compares a tuple of ranks (`compareKey_eq_compareRank`), but
it is not one of keys: a key of zeros and the key with a minus sign for its first zero have the same
ordering, and no other two keys have (`compareKey_eq_iff`).  A key with another character in it is
told apart from all others (`Distinctive`).
-/

namespace IndoorFarm

open Std (TransCmp TransOrd LawfulEqOrd ReflOrd)

/-! ## Characters of an `NSString` -/

def utf16CodeUnits (c : Char) : List ℕ :=
  if c.toNat < 0x10000 then [c.toNat]
  else [0xD800 + (c.toNat - 0x10000) / 0x400, 0xDC00 + (c.toNat - 0x10000) % 0x400]

/-- What `characterAtIndex:` goes through, as many as `length`. -/
def characters (str : String) : List ℕ := str.toList.flatMap utf16CodeUnits

/-! ## The source -/

def INTEGER_32_MIN : ℤ := -2147483648

def INTEGER_32_MAX : ℤ := 2147483647

/-- The loop of `tryParseStringToInt`. -/
def digitsValue (value : ℕ) : List ℕ → Option ℕ
  | [] => some value
  | c :: cs => if c < 48 ∨ 57 < c then none else digitsValue (value * 10 + (c - 48)) cs

/-- `tryParseStringToInt`, `none` for NO.  A minus sign is the character 45. -/
def tryParseStringToInt (str : String) : Option ℤ :=
  let length := (characters str).length
  if 11 < length ∨ length = 0 then none
  else
    let negative := (characters str).head? = some 45
    if negative ∧ length = 1 then none
    else
      (digitsValue 0 (if negative then (characters str).tail else characters str)).bind fun value =>
        let value : ℤ := if negative then -value else value
        if value < INTEGER_32_MIN ∨ INTEGER_32_MAX < value then none else some value

/-- `compareKey:toKey:` of two texts. -/
def compareKey (a b : String) : Ordering :=
  match tryParseStringToInt a, tryParseStringToInt b with
  | some aAsInt, some bAsInt =>
    if aAsInt > bAsInt then .gt
    else if aAsInt < bAsInt then .lt
    else if (characters a).length > (characters b).length then .gt
    else if (characters a).length < (characters b).length then .lt
    else .eq
  | some _, none => .lt
  | none, some _ => .gt
  | none, none => compare (characters a) (characters b)

/-- What `compareKey:toKey:` is given: a text, or one of the two sentinels, which are known by their
address and not by a text. -/
inductive FName where
  | minName
  | text (key : String)
  | maxName
  deriving DecidableEq

/-- `compareKey:toKey:`. -/
def compareName : FName → FName → Ordering
  | .minName, .minName => .eq
  | .maxName, .maxName => .eq
  | .minName, _ => .lt
  | _, .maxName => .lt
  | _, .minName => .gt
  | .maxName, _ => .gt
  | .text a, .text b => compareKey a b

/-! ## Ranks -/

/-- Integers before texts. -/
def rankClass (key : String) : ℕ := if (tryParseStringToInt key).isSome then 0 else 1

/-- What is compared within a class: value and length of an integer, the characters of a text. -/
def rankValue (key : String) : ℤ := (tryParseStringToInt key).getD 0

def rankLength (key : String) : ℕ :=
  if (tryParseStringToInt key).isSome then (characters key).length else 0

def rankText (key : String) : List ℕ :=
  if (tryParseStringToInt key).isSome then [] else characters key

def compareRank : String → String → Ordering :=
  compareLex (compareOn rankClass)
    (compareLex (compareOn rankValue) (compareLex (compareOn rankLength) (compareOn rankText)))

instance : TransCmp compareRank := inferInstanceAs (TransCmp (compareLex _ _))

theorem compareKey_eq_compareRank (a b : String) : compareKey a b = compareRank a b := by
  unfold compareKey compareRank
  simp only [compareLex, compareOn, rankClass, rankValue, rankLength, rankText]
  cases ha : tryParseStringToInt a with
  | none =>
    cases hb : tryParseStringToInt b with
    | none => simp
    | some w => rfl
  | some v =>
    cases hb : tryParseStringToInt b with
    | none => rfl
    | some w =>
      simp only [Option.isSome_some, if_true, Option.getD_some, Int.compare_eq_ite_lt,
        Nat.compare_eq_ite_lt]
      rcases Int.lt_trichotomy v w with h | rfl | h
      · simp [h, Int.lt_asymm h]
      · rcases Nat.lt_trichotomy (characters a).length (characters b).length with h | h | h
        · simp [h, Nat.lt_asymm h]
        · simp [h]
        · simp [h, Nat.lt_asymm h]
      · simp [h, Int.lt_asymm h]

instance : TransCmp compareKey := by
  have h : compareKey = compareRank := funext fun a => funext fun b => compareKey_eq_compareRank a b
  rw [h]
  infer_instance

/-! ## Keys with the same ordering -/

theorem utf16CodeUnits_append_inj {c d : Char} {l m : List ℕ}
    (h : utf16CodeUnits c ++ l = utf16CodeUnits d ++ m) : c = d ∧ l = m := by
  have hvalid (c : Char) : c.toNat < 0xD800 ∨ 0xDFFF < c.toNat ∧ c.toNat < 0x110000 := c.valid
  have hc := hvalid c
  have hd := hvalid d
  rw [utf16CodeUnits, utf16CodeUnits] at h
  split_ifs at h with hc' hd' hd'
  · obtain ⟨heq, hl⟩ := List.cons.inj h
    exact ⟨Char.toNat_inj.1 heq, hl⟩
  · obtain ⟨heq, -⟩ := List.cons.inj h
    omega
  · obtain ⟨heq, -⟩ := List.cons.inj h
    omega
  · obtain ⟨heq, hl⟩ := List.cons.inj h
    obtain ⟨heq', hl⟩ := List.cons.inj hl
    exact ⟨Char.toNat_inj.1 (by omega), hl⟩

theorem utf16CodeUnits_ne_nil (c : Char) : utf16CodeUnits c ≠ [] := by
  rw [utf16CodeUnits]
  split_ifs <;> exact List.cons_ne_nil _ _

theorem flatMap_utf16CodeUnits_injective {l m : List Char}
    (h : l.flatMap utf16CodeUnits = m.flatMap utf16CodeUnits) : l = m := by
  induction l generalizing m with
  | nil =>
    cases m with
    | nil => rfl
    | cons d m => exact absurd (List.append_eq_nil_iff.1 h.symm).1 (utf16CodeUnits_ne_nil d)
  | cons c l ih =>
    cases m with
    | nil => exact absurd (List.append_eq_nil_iff.1 h).1 (utf16CodeUnits_ne_nil c)
    | cons d m =>
      obtain ⟨rfl, hlm⟩ := utf16CodeUnits_append_inj h
      rw [ih hlm]

/-- A text is determined by its UTF-16 units. -/
theorem characters_injective {a b : String} (h : characters a = characters b) : a = b :=
  String.toList_inj.1 (flatMap_utf16CodeUnits_injective h)

theorem digitsValue_cons {value v c : ℕ} {l : List ℕ} :
    digitsValue value (c :: l) = some v ↔
      ∃ digit < 10, c = 48 + digit ∧ digitsValue (value * 10 + digit) l = some v := by
  rw [digitsValue]
  split_ifs with hc
  · constructor
    · exact nofun
    · rintro ⟨digit, hlt, rfl, -⟩
      omega
  · constructor
    · exact fun h => ⟨c - 48, by omega, by omega, h⟩
    · rintro ⟨digit, hlt, rfl, h⟩
      rwa [Nat.add_sub_cancel_left]

theorem digitsValue_bounds {value v : ℕ} {l : List ℕ} (h : digitsValue value l = some v) :
    value * 10 ^ l.length ≤ v ∧ v < (value + 1) * 10 ^ l.length := by
  induction l generalizing value with
  | nil =>
    obtain rfl := Option.some.inj h
    simp
  | cons c l ih =>
    obtain ⟨digit, hdigit, -, h⟩ := digitsValue_cons.1 h
    obtain ⟨hle, hlt⟩ := ih h
    rw [List.length_cons, Nat.pow_succ']
    constructor
    · calc value * (10 * 10 ^ l.length) = (value * 10) * 10 ^ l.length := (Nat.mul_assoc ..).symm
        _ ≤ (value * 10 + digit) * 10 ^ l.length := Nat.mul_le_mul_right _ (Nat.le_add_right _ _)
        _ ≤ v := hle
    · calc v < (value * 10 + digit + 1) * 10 ^ l.length := hlt
        _ ≤ ((value + 1) * 10) * 10 ^ l.length := Nat.mul_le_mul_right _ (by omega)
        _ = (value + 1) * (10 * 10 ^ l.length) := Nat.mul_assoc ..

/-- Numerals of one length are determined by their value. -/
theorem digitsValue_injective {value v : ℕ} {l m : List ℕ} (hlen : l.length = m.length)
    (hl : digitsValue value l = some v) (hm : digitsValue value m = some v) : l = m := by
  induction l generalizing value m with
  | nil => exact (List.length_eq_zero_iff.1 hlen.symm).symm
  | cons c l ih =>
    cases m with
    | nil => simp at hlen
    | cons d m =>
      obtain ⟨digit, -, rfl, hl'⟩ := digitsValue_cons.1 hl
      obtain ⟨digit', -, rfl, hm'⟩ := digitsValue_cons.1 hm
      obtain ⟨hle, hlt⟩ := digitsValue_bounds hl'
      obtain ⟨hle', hlt'⟩ := digitsValue_bounds hm'
      have hlength : m.length = l.length := (Nat.succ_inj.1 hlen).symm
      rw [hlength] at hle' hlt'
      have hpos : 0 < 10 ^ l.length := Nat.pow_pos (by decide)
      have hdigit : value * 10 + digit = value * 10 + digit' :=
        (Nat.div_eq_of_lt_le hle hlt).symm.trans (Nat.div_eq_of_lt_le hle' hlt')
      obtain rfl := Nat.add_left_cancel hdigit
      rw [ih hlength.symm hl' hm']

theorem digitsValue_replicate (n : ℕ) : digitsValue 0 (List.replicate n 48) = some 0 := by
  induction n with
  | zero => rfl
  | succ n ih => exact digitsValue_cons.2 ⟨0, by decide, rfl, ih⟩

theorem bind_range_eq_some_iff {o : Option ℕ} {f : ℕ → ℤ} {v : ℤ} :
    (o.bind fun value =>
        if f value < INTEGER_32_MIN ∨ INTEGER_32_MAX < f value then none else some (f value)) =
      some v ↔ INTEGER_32_MIN ≤ v ∧ v ≤ INTEGER_32_MAX ∧ ∃ value, o = some value ∧ v = f value := by
  rw [Option.bind_eq_some_iff]
  constructor
  · rintro ⟨value, ho, h⟩
    split_ifs at h with hrange
    obtain rfl := Option.some.inj h
    obtain ⟨hmin, hmax⟩ := not_or.1 hrange
    exact ⟨Int.not_lt.1 hmin, Int.not_lt.1 hmax, value, ho, rfl⟩
  · rintro ⟨hmin, hmax, value, ho, rfl⟩
    exact ⟨value, ho, if_neg (not_or.2 ⟨Int.not_lt.2 hmin, Int.not_lt.2 hmax⟩)⟩

theorem tryParseStringToInt_negative {str : String} {digits : List ℕ}
    (hstr : characters str = 45 :: digits) {v : ℤ} :
    tryParseStringToInt str = some v ↔ digits.length ≤ 10 ∧ digits ≠ [] ∧
      INTEGER_32_MIN ≤ v ∧ v ≤ INTEGER_32_MAX ∧
        ∃ value, digitsValue 0 digits = some value ∧ v = -value := by
  simp only [tryParseStringToInt, hstr, List.length_cons, List.head?_cons, List.tail_cons, true_and,
    if_true]
  rw [← List.length_pos_iff]
  by_cases hlong : 11 < digits.length + 1 ∨ digits.length + 1 = 0
  · rw [if_pos hlong]
    exact iff_of_false nofun fun h => by omega
  rw [if_neg hlong]
  by_cases hone : digits.length + 1 = 1
  · rw [if_pos hone]
    exact iff_of_false nofun fun h => by omega
  · rw [if_neg hone, bind_range_eq_some_iff (f := fun value => -(value : ℤ))]
    exact ⟨fun h => ⟨by omega, by omega, h⟩, fun h => h.2.2⟩

theorem tryParseStringToInt_positive {str : String} (hstr : (characters str).head? ≠ some 45)
    {v : ℤ} : tryParseStringToInt str = some v ↔ (characters str).length ≤ 11 ∧
      characters str ≠ [] ∧ INTEGER_32_MIN ≤ v ∧ v ≤ INTEGER_32_MAX ∧
        ∃ value, digitsValue 0 (characters str) = some value ∧ v = (value : ℤ) := by
  simp only [tryParseStringToInt, hstr, false_and, if_false]
  rw [← List.length_pos_iff]
  split_ifs with hlong
  · exact iff_of_false nofun fun h => by omega
  · rw [bind_range_eq_some_iff (f := fun value => (value : ℤ))]
    exact ⟨fun h => ⟨by omega, by omega, h⟩, fun h => h.2.2⟩

/-- `-0…0` and a key of as many characters, all of them zeros. -/
def SameZero (a b : String) : Prop :=
  ∃ n, 1 ≤ n ∧ n ≤ 10 ∧ a.toList = '-' :: List.replicate n '0' ∧
    b.toList = List.replicate (n + 1) '0'

theorem SameZero.ne {a b : String} (h : SameZero a b) : a ≠ b := by
  rintro rfl
  obtain ⟨n, -, -, ha, hb⟩ := h
  rw [hb, List.replicate_succ] at ha
  simp at ha

theorem flatMap_utf16CodeUnits {l : List Char} (hl : ∀ c ∈ l, c.toNat < 0x10000) :
    l.flatMap utf16CodeUnits = l.map Char.toNat := by
  induction l with
  | nil => rfl
  | cons c l ih =>
    rw [List.flatMap_cons, ih fun d hd => hl d (List.mem_cons_of_mem c hd), utf16CodeUnits,
      if_pos (hl c List.mem_cons_self), List.map_cons, List.singleton_append]

theorem toList_eq_iff_characters {str : String} {l : List Char} (hl : ∀ c ∈ l, c.toNat < 0x10000) :
    str.toList = l ↔ characters str = l.map Char.toNat := by
  rw [characters, ← flatMap_utf16CodeUnits hl]
  exact ⟨fun h => by rw [h], flatMap_utf16CodeUnits_injective⟩

theorem sameZero_iff {a b : String} : SameZero a b ↔ ∃ n, 1 ≤ n ∧ n ≤ 10 ∧
    characters a = 45 :: List.replicate n 48 ∧ characters b = List.replicate (n + 1) 48 := by
  have ha (n : ℕ) : a.toList = '-' :: List.replicate n '0' ↔
      characters a = 45 :: List.replicate n 48 := by
    rw [toList_eq_iff_characters (by simp), List.map_cons, List.map_replicate]
    rfl
  have hb (n : ℕ) : b.toList = List.replicate (n + 1) '0' ↔
      characters b = List.replicate (n + 1) 48 := by
    rw [toList_eq_iff_characters (by simp), List.map_replicate]
    rfl
  simp only [SameZero, ha, hb]

theorem SameZero.tryParse {a b : String} (h : SameZero a b) : tryParseStringToInt a = some 0 ∧
    tryParseStringToInt b = some 0 ∧ (characters a).length = (characters b).length := by
  obtain ⟨n, hpos, hle, ha, hb⟩ := sameZero_iff.1 h
  refine ⟨?_, ?_, by simp [ha, hb]⟩
  · refine (tryParseStringToInt_negative ha).2 ⟨by simpa using hle, ?_, by decide, by decide, 0,
      digitsValue_replicate n, by simp⟩
    rw [← List.length_pos_iff, List.length_replicate]
    omega
  · refine (tryParseStringToInt_positive (by simp [hb, List.replicate_succ])).2 ⟨?_,
      by simp [hb], by decide, by decide, 0,
      hb ▸ digitsValue_replicate (n + 1), rfl⟩
    rw [hb, List.length_replicate]
    omega

theorem compareKey_of_parsed {a b : String} {v w : ℤ} (ha : tryParseStringToInt a = some v)
    (hb : tryParseStringToInt b = some w) : compareKey a b = .eq ↔
      v = w ∧ (characters a).length = (characters b).length := by
  simp only [compareKey, ha, hb]
  split_ifs <;> simp <;> omega

/-- A minus sign makes the difference of two texts of one length only before zeros. -/
theorem sameZero_of_parsed {a b : String} {v : ℤ} {digits : List ℕ}
    (hneg : characters a = 45 :: digits) (hpos : (characters b).head? ≠ some 45)
    (ha : tryParseStringToInt a = some v) (hb : tryParseStringToInt b = some v)
    (hlen : (characters a).length = (characters b).length) : SameZero a b := by
  obtain ⟨hle, hne, -, -, value, hvalue, rfl⟩ := (tryParseStringToInt_negative hneg).1 ha
  obtain ⟨-, -, -, -, value', hvalue', heq⟩ := (tryParseStringToInt_positive hpos).1 hb
  obtain ⟨rfl, rfl⟩ : value = 0 ∧ value' = 0 := by omega
  rw [hneg, List.length_cons] at hlen
  refine sameZero_iff.2 ⟨digits.length, List.length_pos_iff.2 hne, hle, ?_, ?_⟩
  · rw [hneg, digitsValue_injective (by simp) hvalue (digitsValue_replicate digits.length),
      List.length_replicate]
  · exact digitsValue_injective (by simp [hlen]) hvalue' (digitsValue_replicate _)

theorem parsed_eq_or_sameZero {a b : String} {v : ℤ} (ha : tryParseStringToInt a = some v)
    (hb : tryParseStringToInt b = some v)
    (hlen : (characters a).length = (characters b).length) :
    a = b ∨ SameZero a b ∨ SameZero b a := by
  by_cases hna : (characters a).head? = some 45
  · obtain ⟨da, hda⟩ := List.head?_eq_some_iff.1 hna
    by_cases hnb : (characters b).head? = some 45
    · obtain ⟨db, hdb⟩ := List.head?_eq_some_iff.1 hnb
      obtain ⟨-, -, -, -, value, hvalue, rfl⟩ := (tryParseStringToInt_negative hda).1 ha
      obtain ⟨-, -, -, -, value', hvalue', heq⟩ := (tryParseStringToInt_negative hdb).1 hb
      obtain rfl : value = value' := by omega
      rw [hda, hdb, List.length_cons, List.length_cons, Nat.add_right_cancel_iff] at hlen
      refine Or.inl (characters_injective ?_)
      rw [hda, hdb, digitsValue_injective hlen hvalue hvalue']
    · exact Or.inr (Or.inl (sameZero_of_parsed hda hnb ha hb hlen))
  · by_cases hnb : (characters b).head? = some 45
    · obtain ⟨db, hdb⟩ := List.head?_eq_some_iff.1 hnb
      exact Or.inr (Or.inr (sameZero_of_parsed hdb hna hb ha hlen.symm))
    · obtain ⟨-, -, -, -, value, hvalue, rfl⟩ := (tryParseStringToInt_positive hna).1 ha
      obtain ⟨-, -, -, -, value', hvalue', heq⟩ := (tryParseStringToInt_positive hnb).1 hb
      obtain rfl : value = value' := by omega
      exact Or.inl (characters_injective (digitsValue_injective hlen hvalue hvalue'))

/-- The order tells all keys apart but a zero with and without a minus sign. -/
theorem compareKey_eq_iff (a b : String) :
    compareKey a b = .eq ↔ a = b ∨ SameZero a b ∨ SameZero b a := by
  constructor
  · intro h
    have hkey := h
    rw [compareKey] at hkey
    cases ha : tryParseStringToInt a with
    | none =>
      cases hb : tryParseStringToInt b with
      | none =>
        simp only [ha, hb] at hkey
        exact Or.inl (characters_injective (LawfulEqOrd.eq_of_compare hkey))
      | some w =>
        simp only [ha, hb] at hkey
        contradiction
    | some v =>
      cases hb : tryParseStringToInt b with
      | none =>
        simp only [ha, hb] at hkey
        contradiction
      | some w =>
        obtain ⟨rfl, hlen⟩ := (compareKey_of_parsed ha hb).1 h
        exact parsed_eq_or_sameZero ha hb hlen
  · rintro (rfl | h | h)
    · exact Std.ReflCmp.compare_self
    · obtain ⟨ha, hb, hlen⟩ := h.tryParse
      exact (compareKey_of_parsed ha hb).2 ⟨rfl, hlen⟩
    · obtain ⟨hb, ha, hlen⟩ := h.tryParse
      exact (compareKey_of_parsed ha hb).2 ⟨rfl, hlen.symm⟩

/-- The key has a character other than zero and minus. -/
def Distinctive (key : String) : Prop := ∃ c ∈ key.toList, c ≠ '0' ∧ c ≠ '-'

instance : DecidablePred Distinctive := fun key =>
  List.decidableBEx (fun c => c ≠ '0' ∧ c ≠ '-') key.toList

theorem SameZero.not_distinctive {a b : String} (h : SameZero a b) :
    ¬ Distinctive a ∧ ¬ Distinctive b := by
  obtain ⟨n, -, -, ha, hb⟩ := h
  constructor
  · rintro ⟨c, hc, hzero, hminus⟩
    rw [ha] at hc
    exact (List.mem_cons.1 hc).elim hminus fun hc => hzero (List.eq_of_mem_replicate hc)
  · rintro ⟨c, hc, hzero, -⟩
    rw [hb] at hc
    exact hzero (List.eq_of_mem_replicate hc)

theorem Distinctive.compareKey_iff {b : String} (h : Distinctive b) (a : String) :
    compareKey a b = .eq ↔ a = b := by
  rw [compareKey_eq_iff]
  refine ⟨fun hab => hab.resolve_right ?_, Or.inl⟩
  rintro (hzero | hzero)
  exacts [hzero.not_distinctive.2 h, hzero.not_distinctive.1 h]

/-! ## The order on all names -/

theorem compareName_swap (a b : FName) : compareName b a = (compareName a b).swap := by
  have htext (key key' : String) : compareKey key' key = (compareKey key key').swap :=
    Std.OrientedCmp.eq_swap
  cases a <;> cases b <;> first | rfl | exact htext _ _

theorem isLE_compareName_trans {a b c : FName} (hab : (compareName a b).isLE)
    (hbc : (compareName b c).isLE) : (compareName a c).isLE := by
  have htext {k k' k'' : String} (h : (compareKey k k').isLE) (h' : (compareKey k' k'').isLE) :
      (compareKey k k'').isLE := TransCmp.isLE_trans h h'
  cases a <;> cases b <;> cases c <;> first | rfl | contradiction | exact htext hab hbc

/-- The order of names is a total preorder, which tells all names apart but a zero with and without
a minus sign. -/
theorem compareName_order (a b c : FName) :
    compareName b a = (compareName a b).swap ∧
      ((compareName a b).isLE → (compareName b c).isLE → (compareName a c).isLE) ∧
      (compareName a b = .eq ↔ a = b ∨ ∃ k k', (a = .text k ∧ b = .text k') ∧
        (SameZero k k' ∨ SameZero k' k)) := by
  refine ⟨compareName_swap a b, isLE_compareName_trans, ?_⟩
  cases a <;> cases b <;> simp [compareName, compareKey_eq_iff]

end IndoorFarm
