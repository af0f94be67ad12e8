import SqlStore.Operator.Arithmetic
import SqlStore.Proofs.Value.Form

/-!
# The integers of a type

There are three integer types, which differ in the range of the integers they hold. A value of such a
type is made of an integer by `Arithmetic.wordOf?`, which gives one exactly for the integers of the range.
-/

namespace SqlStore

/-- The value is the integer `n` of the type `t`. -/
inductive Value.IsInteger : Value → DataType → Int → Prop where
  | smallInt (w : Int16) : IsInteger (.smallInt w) .smallInt w.toInt
  | integer (w : Int32) : IsInteger (.integer w) .integer w.toInt
  | bigInt (w : Int64) : IsInteger (.bigInt w) .bigInt w.toInt

namespace DataType

/-- The integer types. -/
def integers : List DataType := [smallInt, integer, bigInt]

/-- Whether an integer lies in the range of an integer type. -/
def holds : DataType → Int → Bool
  | smallInt, n => -2 ^ 15 ≤ n && n < 2 ^ 15
  | integer, n => -2 ^ 31 ≤ n && n < 2 ^ 31
  | bigInt, n => -2 ^ 63 ≤ n && n < 2 ^ 63
  | _, _ => false

/-- The wider of two integer types. -/
def wider : DataType → DataType → DataType
  | smallInt, t => t
  | integer, bigInt => bigInt
  | t, _ => t

theorem holds_smallInt {n : Int} : smallInt.holds n = true ↔ -32768 ≤ n ∧ n < 32768 :=
  Bool.and_eq_true_iff.trans (and_congr decide_eq_true_iff decide_eq_true_iff)

theorem holds_integer {n : Int} : integer.holds n = true ↔ -2147483648 ≤ n ∧ n < 2147483648 :=
  Bool.and_eq_true_iff.trans (and_congr decide_eq_true_iff decide_eq_true_iff)

theorem holds_bigInt {n : Int} :
    bigInt.holds n = true ↔ -9223372036854775808 ≤ n ∧ n < 9223372036854775808 :=
  Bool.and_eq_true_iff.trans (and_congr decide_eq_true_iff decide_eq_true_iff)

/-- What an integer type holds, the widest one holds too. -/
theorem holds_bigInt_of_holds {t : DataType} {n : Int} (h : t.holds n = true) : bigInt.holds n = true := by
  cases t with
  | smallInt =>
    have hrange := holds_smallInt.mp h
    exact holds_bigInt.mpr (by omega)
  | integer =>
    have hrange := holds_integer.mp h
    exact holds_bigInt.mpr (by omega)
  | bigInt => exact h
  | _ => cases h

end DataType

/-! ## Words -/

theorem int16?_eq {n : Int} :
    int16? n = if DataType.smallInt.holds n then some (Int16.ofInt n) else none :=
  if_congr DataType.holds_smallInt.symm rfl rfl

theorem int32?_eq {n : Int} :
    int32? n = if DataType.integer.holds n then some (Int32.ofInt n) else none :=
  if_congr DataType.holds_integer.symm rfl rfl

theorem int64?_eq {n : Int} :
    int64? n = if DataType.bigInt.holds n then some (Int64.ofInt n) else none :=
  if_congr DataType.holds_bigInt.symm rfl rfl

namespace Value

variable {v : Value} {t : DataType} {n : Int}

theorem IsInteger.mem_integers (h : v.IsInteger t n) : t ∈ DataType.integers := by
  cases h <;> decide

theorem IsInteger.holds (h : v.IsInteger t n) : t.holds n = true := by
  cases h with
  | smallInt w => exact DataType.holds_smallInt.mpr ⟨w.le_toInt, w.toInt_lt⟩
  | integer w => exact DataType.holds_integer.mpr ⟨w.le_toInt, w.toInt_lt⟩
  | bigInt w => exact DataType.holds_bigInt.mpr ⟨w.le_toInt, w.toInt_lt⟩

end Value

namespace Arithmetic

variable {t : DataType} {n : Int}

/-- An integer in the range of a type is a value of the type. -/
theorem exists_wordOf? (ht : t ∈ DataType.integers) (h : t.holds n = true) :
    ∃ v, wordOf? t n = some v ∧ v.IsInteger t n := by
  simp only [DataType.integers, List.mem_cons, List.not_mem_nil, or_false] at ht
  rcases ht with rfl | rfl | rfl
  · have hw : int16? n = some (Int16.ofInt n) := by rw [int16?_eq, if_pos h]
    refine ⟨.smallInt (Int16.ofInt n), congrArg (Option.map Value.smallInt) hw, ?_⟩
    simpa only [toInt_of_int16? hw] using Value.IsInteger.smallInt (Int16.ofInt n)
  · have hw : int32? n = some (Int32.ofInt n) := by rw [int32?_eq, if_pos h]
    refine ⟨.integer (Int32.ofInt n), congrArg (Option.map Value.integer) hw, ?_⟩
    simpa only [toInt_of_int32? hw] using Value.IsInteger.integer (Int32.ofInt n)
  · have hw : int64? n = some (Int64.ofInt n) := by rw [int64?_eq, if_pos h]
    refine ⟨.bigInt (Int64.ofInt n), congrArg (Option.map Value.bigInt) hw, ?_⟩
    simpa only [toInt_of_int64? hw] using Value.IsInteger.bigInt (Int64.ofInt n)

/-- Any other integer is none. -/
theorem wordOf?_eq_none (ht : t ∈ DataType.integers) (h : t.holds n = false) : wordOf? t n = none := by
  simp only [DataType.integers, List.mem_cons, List.not_mem_nil, or_false] at ht
  rcases ht with rfl | rfl | rfl
  · simp [wordOf?, int16?_eq, h]
  · simp [wordOf?, int32?_eq, h]
  · simp [wordOf?, int64?_eq, h]

end Arithmetic

end SqlStore
