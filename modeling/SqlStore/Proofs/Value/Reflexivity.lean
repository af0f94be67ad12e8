import SqlStore.Table.Definition

/-!
# What is the same as itself

Table definitions are compared part by part, down to the values of defaults, and there floating-point
numbers are compared as numbers. What is not a number equals nothing, so a definition is the same as
itself just if no default holds such a code.
-/

namespace SqlStore

theorem Binary64.equal_self (x : Binary64) : x.equal x = !x.isNaN := by
  simp [equal]

theorem Binary32.equal_self (x : Binary32) : x.equal x = !x.isNaN := by
  simp [equal]

theorem Numeric.equal_self (d : Numeric) : d.equal d = true := by
  simp [equal, compareValue]

/-- Whether a number of a document is a code that is not a number. -/
def JsonNumber.isNaN : JsonNumber → Bool
  | int _ => false
  | float x => x.isNaN

theorem JsonNumber.same_self (n : JsonNumber) : n.same n = !n.isNaN := by
  cases n with
  | int n => simp [same, isNaN]
  | float x => exact Binary64.equal_self x

namespace Json

mutual

/-- Whether a document holds a code that is not a number. -/
def hasNaN : Json → Bool
  | number n => n.isNaN
  | array items => itemsHaveNaN items
  | object entries => entriesHaveNaN entries
  | _ => false

/-- Whether one of the items holds a code that is not a number. -/
def itemsHaveNaN : List Json → Bool
  | [] => false
  | a :: as => hasNaN a || itemsHaveNaN as

/-- Whether one of the entries holds a code that is not a number. -/
def entriesHaveNaN : List (String × Json) → Bool
  | [] => false
  | (_, a) :: as => hasNaN a || entriesHaveNaN as

end

mutual

theorem same_self (j : Json) : j.same j = !j.hasNaN := by
  cases j with
  | null => simp [same, hasNaN]
  | bool b => simp [same, hasNaN]
  | string s => simp [same, hasNaN]
  | number n =>
    unfold same hasNaN
    exact JsonNumber.same_self n
  | array items =>
    unfold same hasNaN
    exact sameItems_self items
  | object entries =>
    unfold same hasNaN
    exact sameEntries_self entries

theorem sameItems_self (items : List Json) : sameItems items items = !itemsHaveNaN items := by
  cases items with
  | nil => simp [sameItems, itemsHaveNaN]
  | cons a as =>
    unfold sameItems itemsHaveNaN
    rw [same_self a, sameItems_self as, Bool.not_or]

theorem sameEntries_self (entries : List (String × Json)) :
    sameEntries entries entries = !entriesHaveNaN entries := by
  rcases entries with _ | ⟨⟨k, a⟩, as⟩
  · simp [sameEntries, entriesHaveNaN]
  · unfold sameEntries entriesHaveNaN
    rw [same_self a, sameEntries_self as, beq_self_eq_true, Bool.true_and, Bool.not_or]

end

end Json

/-- Whether a value is or holds a code that is not a number. -/
def Value.hasNaN : Value → Bool
  | real x => x.isNaN
  | double x => x.isNaN
  | json j => j.hasNaN
  | _ => false

theorem Value.same_self (v : Value) : v.same v = !v.hasNaN := by
  cases v with
  | numeric d => exact Numeric.equal_self d
  | real x => exact Binary32.equal_self x
  | double x => exact Binary64.equal_self x
  | json j => exact Json.same_self j
  | null => rfl
  | _ => exact beq_self_eq_true _

/-- Whether the default of a column holds a code that is not a number. -/
def Column.hasNaNDefault (c : Column) : Bool := c.default.any Value.hasNaN

theorem Column.same_self (c : Column) : c.same c = !c.hasNaNDefault := by
  unfold same hasNaNDefault
  cases c.default with
  | none => simp
  | some v =>
    have hv : (v == v) = !v.hasNaN := Value.same_self v
    simp [hv]

/-- Whether the default of some column holds a code that is not a number. -/
def TableDefinition.hasNaNDefault (d : TableDefinition) : Bool :=
  d.columns.any Column.hasNaNDefault

/-- A definition is the same as itself unless a default is not a number. -/
theorem TableDefinition.same_self (d : TableDefinition) : d.same d = !d.hasNaNDefault := by
  have hzip : d.columns.zip d.columns = d.columns.map fun c => (c, c) := by
    rw [List.zip_eq_zipWith, List.zipWith_self]
  unfold same hasNaNDefault
  rw [hzip, List.all_map, List.not_any_eq_all_not]
  simp only [beq_self_eq_true, Bool.true_and]
  congr 1
  funext c
  exact Column.same_self c

end SqlStore
