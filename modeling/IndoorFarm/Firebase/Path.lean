import Mathlib.Data.List.Infix

/-!
# Paths and keys (`FPath`, `FValidation`)

A path is the list of its pieces.  `child(_:)` appends to it the nonempty pieces of a text split at
`'/'` (`childFromString`), after `FValidation` has let the text through.  The text of a plant name
takes this way, so the facts proved here are about arbitrary texts:

* the pieces of a valid path text are valid keys (`isValidKey_of_mem_pathPieces`);
* the pieces of a valid key are the key itself (`pathPieces_of_isValidKey`).
-/

namespace IndoorFarm

/-! ## Splitting -/

/-- The pieces of a path from `pieceNum` on; `getFront` is the head and `popFront` the tail. -/
abbrev FPath := List String

/-- `componentsSeparatedByString:` for a separator of one character. -/
def componentsSeparatedByString (text : String) (separator : Char) : List String :=
  (text.toList.splitOn separator).map String.ofList

/-- The pieces `initWith:` and `childFromString:` keep: the components that are not empty. -/
def pathPieces (text : String) : FPath :=
  (componentsSeparatedByString text '/').filter fun piece => piece ≠ ""

/-- `[path childFromString:childPath]`. -/
def FPath.childFromString (path : FPath) (childPath : String) : FPath :=
  path ++ pathPieces childPath

theorem not_mem_of_mem_splitOn {α : Type*} [BEq α] [LawfulBEq α] {a : α} {l piece : List α}
    (h : piece ∈ l.splitOn a) : a ∉ piece := by
  induction l generalizing piece with
  | nil =>
    rw [List.splitOn_nil, List.mem_singleton] at h
    simp [h]
  | cons x l ih =>
    obtain ⟨p, ps, hps⟩ := List.exists_cons_of_ne_nil (List.splitOn_ne_nil a l)
    rw [List.splitOn_cons_eq_if_modifyHead] at h
    split_ifs at h with hx
    · rcases List.mem_cons.1 h with rfl | h
      · exact List.not_mem_nil
      · exact ih h
    · rw [hps, List.modifyHead_cons] at h
      rcases List.mem_cons.1 h with rfl | h
      · have hp : a ∉ p := ih (by rw [hps]; exact List.mem_cons_self)
        exact fun ha => (List.mem_cons.1 ha).elim (fun e => hx (by simp [e])) hp
      · exact ih (by rw [hps]; exact List.mem_cons_of_mem p h)

theorem mem_of_mem_splitOn {α : Type*} [BEq α] [LawfulBEq α] {a c : α} {l piece : List α}
    (h : piece ∈ l.splitOn a) (hc : c ∈ piece) : c ∈ l := by
  have hne : c ≠ a := fun e => not_mem_of_mem_splitOn h (e ▸ hc)
  induction l generalizing piece with
  | nil =>
    rw [List.splitOn_nil, List.mem_singleton] at h
    simp [h] at hc
  | cons x l ih =>
    obtain ⟨p, ps, hps⟩ := List.exists_cons_of_ne_nil (List.splitOn_ne_nil a l)
    rw [List.splitOn_cons_eq_if_modifyHead] at h
    split_ifs at h with hx
    · rcases List.mem_cons.1 h with rfl | h
      · exact absurd hc List.not_mem_nil
      · exact List.mem_cons_of_mem x (ih h hc)
    · rw [hps, List.modifyHead_cons] at h
      rcases List.mem_cons.1 h with rfl | h
      · rcases List.mem_cons.1 hc with rfl | hc
        · exact List.mem_cons_self
        · have hp : p ∈ l.splitOn a := by rw [hps]; exact List.mem_cons_self
          exact List.mem_cons_of_mem x (ih hp hc)
      · exact List.mem_cons_of_mem x (ih (by rw [hps]; exact List.mem_cons_of_mem p h) hc)

/-! ## Validation -/

def kInvalidPathCharacters : List Char := ['[', ']', '.', '#', '$']

def kInvalidKeyCharacters : List Char := ['[', ']', '.', '#', '$', '/']

/-- `[FValidation isValidPathString:]`. -/
def isValidPathString (pathString : String) : Bool :=
  pathString ≠ "" && pathString.toList.all fun c => c ∉ kInvalidPathCharacters

/-- `[FValidation isValidKey:]`. -/
def isValidKey (key : String) : Bool :=
  key ≠ "" && key.toList.all fun c => c ∉ kInvalidKeyCharacters

/-- The text `validRootPathString:` checks: a leading `.info`, after any slashes and up to a slash
or the end, is replaced by a slash. -/
def replaceDotInfo (pathString : String) : String :=
  let text := pathString.toList.dropWhile (· = '/')
  if ".info".toList <+: text ∧ (text.drop 5).head?.all (· = '/') then
    String.ofList ('/' :: (text.drop 5).tail)
  else pathString

/-- The check of `[FValidation validateFrom:validRootPathString:]`. -/
def isValidRootPathString (pathString : String) : Bool :=
  isValidPathString (replaceDotInfo pathString)

theorem isValidPathString_iff (s : String) :
    isValidPathString s = true ↔ s ≠ "" ∧ ∀ c ∈ s.toList, c ∉ kInvalidPathCharacters := by
  simp [isValidPathString]

theorem isValidKey_iff (s : String) :
    isValidKey s = true ↔ s ≠ "" ∧ ∀ c ∈ s.toList, c ∉ kInvalidKeyCharacters := by
  simp [isValidKey]

theorem mem_kInvalidKeyCharacters_iff (c : Char) :
    c ∈ kInvalidKeyCharacters ↔ c ∈ kInvalidPathCharacters ∨ c = '/' := by
  simp [kInvalidKeyCharacters, kInvalidPathCharacters, or_assoc]

/-- A key is a path text without a slash. -/
theorem isValidKey_iff_isValidPathString (s : String) :
    isValidKey s = true ↔ isValidPathString s = true ∧ '/' ∉ s.toList := by
  rw [isValidKey_iff, isValidPathString_iff, and_assoc]
  refine and_congr_right fun _ => ?_
  simp only [mem_kInvalidKeyCharacters_iff, not_or]
  constructor
  · exact fun h => ⟨fun c hc => (h c hc).1, fun hs => (h _ hs).2 rfl⟩
  · rintro ⟨h, hs⟩ c hc
    exact ⟨h c hc, fun e => hs (e ▸ hc)⟩

theorem isValidPathString_of_isValidKey {s : String} (h : isValidKey s = true) :
    isValidPathString s = true := ((isValidKey_iff_isValidPathString s).1 h).1

theorem ne_empty_of_isValidKey {s : String} (h : isValidKey s = true) : s ≠ "" :=
  ((isValidKey_iff s).1 h).1

/-! ## The pieces of a text -/

theorem mem_pathPieces_iff (s piece : String) :
    piece ∈ pathPieces s ↔ piece.toList ∈ s.toList.splitOn '/' ∧ piece ≠ "" := by
  rw [pathPieces, List.mem_filter, componentsSeparatedByString, List.mem_map]
  refine and_congr ⟨?_, fun h => ⟨_, h, String.ofList_toList⟩⟩ (by simp)
  rintro ⟨l, hl, rfl⟩
  rwa [String.toList_ofList]

theorem isValidKey_of_mem_pathPieces {s piece : String} (hs : isValidPathString s = true)
    (h : piece ∈ pathPieces s) : isValidKey piece = true := by
  obtain ⟨hmem, hne⟩ := (mem_pathPieces_iff s piece).1 h
  rw [isValidKey_iff_isValidPathString, isValidPathString_iff]
  refine ⟨⟨hne, fun c hc => ?_⟩, not_mem_of_mem_splitOn hmem⟩
  exact ((isValidPathString_iff s).1 hs).2 c (mem_of_mem_splitOn hmem hc)

theorem pathPieces_of_isValidKey {s : String} (h : isValidKey s = true) : pathPieces s = [s] := by
  have hslash : '/' ∉ s.toList := ((isValidKey_iff_isValidPathString s).1 h).2
  rw [pathPieces, componentsSeparatedByString, List.splitOn_eq_singleton hslash, List.map_singleton,
    String.ofList_toList, List.filter_singleton]
  simp [ne_empty_of_isValidKey h]

example : pathPieces "a//b/" = ["a", "b"] := by decide

end IndoorFarm
