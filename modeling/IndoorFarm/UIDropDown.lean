import Mathlib.Data.Int.Basic
import Mathlib.Data.List.Basic

/-!
# The drop-down (`UIDropDown`)

A drop-down keeps an array of options and, while its list is open, a table that shows the rows of
its last load.  Opening the list and a tap load the table from the options; assigning `options` does
not.  `none` is an index out of range.  The animations and the look of the control are left out, and
an open table keeps the rows of its last load until it is loaded again.
-/

namespace IndoorFarm

structure UIDropDown where
  selectedIndex : Option ℤ := none
  options : List String := []
  hideOptionsWhenSelect : Bool := false
  /-- `placeholder`, read by the app only after `viewDidLoad` has set it. -/
  placeholder : String := ""
  /-- The text of the title label. -/
  title : String := ""
  /-- Whether the list is open. -/
  isSelected : Bool := false
  /-- The rows the table shows. -/
  rows : List String := []

namespace UIDropDown

/-- The `didSet` of `placeholder` copies it to the title. -/
def setPlaceholder (d : UIDropDown) (text : String) : UIDropDown :=
  { d with placeholder := text, title := text }

/-- `table.reloadData`, and the first load of a new table. -/
def loadTable (d : UIDropDown) : UIDropDown := { d with rows := d.options }

def showTable (d : UIDropDown) : UIDropDown := { d with isSelected := true }.loadTable

def hideTable (d : UIDropDown) : UIDropDown := { d with isSelected := false }

def touch (d : UIDropDown) : UIDropDown := if d.isSelected then d.hideTable else d.showTable

/-- `options[index]`. -/
def option (d : UIDropDown) (index : ℤ) : Option String :=
  if 0 ≤ index then d.options[index.toNat]? else none

/-- `tableView(_:didSelectRowAt:)` up to the call of the closure, with the text the closure gets. -/
def didSelectRowAt (d : UIDropDown) (row : ℕ) : Option (UIDropDown × String) := do
  let text ← d.options[row]?
  let d := { d with selectedIndex := some row, title := text }.loadTable
  let d := if d.hideOptionsWhenSelect then d.hideTable else d
  return (d, text)

/-- The closure of the three setting drop-downs: `placeholder = options[index]`. -/
def showOption (d : UIDropDown) (index : ℤ) : Option UIDropDown :=
  (d.option index).map d.setPlaceholder

/-- `selectedIndex = index; placeholder = options[index]`, as the plant drop-down does to the three
setting drop-downs. -/
def select (d : UIDropDown) (index : ℤ) : Option UIDropDown :=
  { d with selectedIndex := some index }.showOption index

@[simp] theorem options_touch (d : UIDropDown) : d.touch.options = d.options := by
  unfold touch
  split_ifs <;> rfl

@[simp] theorem hideOptionsWhenSelect_touch (d : UIDropDown) :
    d.touch.hideOptionsWhenSelect = d.hideOptionsWhenSelect := by
  unfold touch
  split_ifs <;> rfl

@[simp] theorem selectedIndex_touch (d : UIDropDown) : d.touch.selectedIndex = d.selectedIndex := by
  unfold touch
  split_ifs <;> rfl

/-- A touch that opens the list loads it. -/
theorem rows_touch {d : UIDropDown} (h : d.touch.isSelected = true) : d.touch.rows = d.options := by
  unfold touch at h ⊢
  split_ifs at h ⊢
  · contradiction
  · rfl

theorem option_natCast (d : UIDropDown) (row : ℕ) : d.option row = d.options[row]? := by
  simp [option]

theorem option_eq_some_iff (d : UIDropDown) (index : ℤ) (text : String) :
    d.option index = some text ↔ 0 ≤ index ∧ d.options[index.toNat]? = some text := by
  rw [option]
  split_ifs with h <;> simp [h]

theorem exists_option {d : UIDropDown} {index : ℤ} (h0 : 0 ≤ index)
    (hlt : index < d.options.length) : ∃ text, d.option index = some text := by
  have hnat : index.toNat < d.options.length := by omega
  exact ⟨d.options[index.toNat], (d.option_eq_some_iff ..).2 ⟨h0, List.getElem?_eq_getElem hnat⟩⟩

theorem didSelectRowAt_eq (d : UIDropDown) (row : ℕ) (hhide : d.hideOptionsWhenSelect = false) :
    d.didSelectRowAt row = d.options[row]?.map fun text =>
      ({ d with selectedIndex := some row, title := text, rows := d.options }, text) := by
  rw [didSelectRowAt]
  cases d.options[row]? with
  | none => rfl
  | some text => simp [loadTable, hhide]

end UIDropDown

end IndoorFarm
