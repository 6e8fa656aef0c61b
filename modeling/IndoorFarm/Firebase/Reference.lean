import IndoorFarm.Firebase.Value

/-!
# Database references (`FIRDatabaseReference`)

`child` and `setValue` are the calls the app makes, applied to the tree they write.  Both are `none`
where the library raises: `child` on a text that is not a valid path, `setValue` under `.info` and
on a value that `nodeFrom` does not take.
-/

namespace IndoorFarm

structure DatabaseReference where
  path : FPath

namespace DatabaseReference

/-- `Database.database().reference()`. -/
def root : DatabaseReference := ⟨[]⟩

/-- `child(_:)`. -/
def child (ref : DatabaseReference) (pathString : String) : Option DatabaseReference :=
  let valid := if ref.path = [] then isValidRootPathString pathString
    else isValidPathString pathString
  if valid then some ⟨ref.path.childFromString pathString⟩ else none

/-- `setValueInternal:`, on the tree `db`. -/
def setValueInternal (ref : DatabaseReference) (value : Value) (db : FNode) : Option FNode :=
  if ref.path.head? = some ".info" then none
  else (nodeFrom value).map fun newNode => db.updateChild ref.path newNode

def setValue (ref : DatabaseReference) (value : Value) (db : FNode) : Option FNode :=
  ref.setValueInternal value db

def removeValue (ref : DatabaseReference) (db : FNode) : Option FNode :=
  ref.setValueInternal .null db

/-- The snapshot `observeSingleEvent` delivers when it reads the tree `db`. -/
def snapshot (ref : DatabaseReference) (db : FNode) : FNode := db.getChild ref.path

end DatabaseReference

theorem replaceDotInfo_of_not_mem {s : String} (h : '.' ∉ s.toList) : replaceDotInfo s = s := by
  rw [replaceDotInfo]
  refine if_neg fun ⟨hinfo, _⟩ => h ?_
  exact (List.dropWhile_suffix _).subset (hinfo.subset (by decide))

theorem isValidRootPathString_of_isValidKey {key : String} (h : isValidKey key = true) :
    isValidRootPathString key = true := by
  have hdot : '.' ∉ key.toList := fun hd => ((isValidKey_iff key).1 h).2 '.' hd (by decide)
  rw [isValidRootPathString, replaceDotInfo_of_not_mem hdot]
  exact isValidPathString_of_isValidKey h

namespace DatabaseReference

theorem root_child_of_isValidKey {key : String} (h : isValidKey key = true) :
    root.child key = some ⟨[key]⟩ := by
  rw [child, root]
  simp only [if_true, isValidRootPathString_of_isValidKey h, FPath.childFromString, List.nil_append,
    pathPieces_of_isValidKey h]

theorem child_of_ne_nil {ref : DatabaseReference} (hne : ref.path ≠ []) {text : String}
    (h : isValidPathString text = true) : ref.child text = some ⟨ref.path ++ pathPieces text⟩ := by
  rw [child]
  simp only [if_neg hne, h, if_true, FPath.childFromString]

theorem child_eq_none_of_ne_nil {ref : DatabaseReference} (hne : ref.path ≠ []) {text : String}
    (h : isValidPathString text = false) : ref.child text = none := by
  rw [child]
  simp [if_neg hne, h]

theorem setValue_of_nodeFrom {ref : DatabaseReference} {value : Value} {n : FNode}
    (hinfo : ref.path.head? ≠ some ".info") (hn : nodeFrom value = some n) (db : FNode) :
    ref.setValue value db = some (db.updateChild ref.path n) := by
  rw [setValue, setValueInternal, if_neg hinfo, hn, Option.map_some]

theorem removeValue_eq {ref : DatabaseReference} (hinfo : ref.path.head? ≠ some ".info")
    (db : FNode) : ref.removeValue db = some (db.updateChild ref.path FNode.emptyNode) :=
  setValue_of_nodeFrom hinfo rfl db

end DatabaseReference

end IndoorFarm
