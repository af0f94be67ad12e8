/-!
# Checked machine integers

The values of the integer types are machine words. Arithmetic happens on integers; a result goes
back into a word only if the word holds it.
-/

namespace SqlStore

/-- The 16-bit word of an integer, if it holds it. -/
def int16? (n : Int) : Option Int16 :=
  if -32768 ≤ n ∧ n < 32768 then some (Int16.ofInt n) else none

/-- The 32-bit word of an integer, if it holds it. -/
def int32? (n : Int) : Option Int32 :=
  if -2147483648 ≤ n ∧ n < 2147483648 then some (Int32.ofInt n) else none

/-- The 64-bit word of an integer, if it holds it. -/
def int64? (n : Int) : Option Int64 :=
  if -9223372036854775808 ≤ n ∧ n < 9223372036854775808 then some (Int64.ofInt n) else none

theorem toInt_of_int16? {n : Int} {w : Int16} (h : int16? n = some w) : w.toInt = n := by
  unfold int16? at h
  split at h
  · next hr => cases h; exact Int16.toInt_ofInt_of_le (by omega) (by omega)
  · cases h

theorem toInt_of_int32? {n : Int} {w : Int32} (h : int32? n = some w) : w.toInt = n := by
  unfold int32? at h
  split at h
  · next hr => cases h; exact Int32.toInt_ofInt_of_le (by omega) (by omega)
  · cases h

theorem toInt_of_int64? {n : Int} {w : Int64} (h : int64? n = some w) : w.toInt = n := by
  unfold int64? at h
  split at h
  · next hr => cases h; exact Int64.toInt_ofInt_of_le (by omega) (by omega)
  · cases h

end SqlStore
