import SqlStore.Proofs.Value.Integers

/-!
# Arithmetic on integers

Operands of the integer types are computed among all integers, and the result is a value of the wider
type, or out of its range. A remainder is an exception: it also needs a quotient of 64 bits. Only the
least of all integers, divided by minus one, has none, so this one remainder is out of range although it
is zero.
-/

namespace SqlStore

namespace Arithmetic

/-- The result among all integers: quotients are cut toward zero, and a remainder has the sign of the
dividend. -/
def result : Arithmetic → Int → Int → Int
  | add, a, b => a + b
  | subtract, a, b => a - b
  | multiply, a, b => a * b
  | divide, a, b => a.tdiv b
  | remainder, a, b => a.tmod b

/-- The answer is the result as a value of the type, or fails because there is none: a divisor is zero,
or the type does not hold the result. -/
def Exact (op : Arithmetic) (t : DataType) (a b : Int) (r : Except Error Value) : Prop :=
  if op.divides = true ∧ b = 0 then r = .error divisionByZero
  else if t.holds (op.result a b) = true then ∃ v, r = .ok v ∧ v.IsInteger t (op.result a b)
  else r = .error (outOfRange t)

section

variable {x y : Value} {s t : DataType} {a b : Int}

/-! ## The operands -/

theorem apply_integers (op : Arithmetic) (hx : x.IsInteger s a) (hy : y.IsInteger t b) :
    op.apply x y = op.onIntegers x y a b := by
  cases hx <;> cases hy <;> rfl

theorem widerType_integers (hx : x.IsInteger s a) (hy : y.IsInteger t b) : widerType x y = s.wider t := by
  cases hx <;> cases hy <;> rfl

theorem wider_mem_integers (hs : s ∈ DataType.integers) (ht : t ∈ DataType.integers) :
    s.wider t ∈ DataType.integers := by
  simp only [DataType.integers, List.mem_cons, List.not_mem_nil, or_false] at hs ht
  rcases hs with rfl | rfl | rfl <;> rcases ht with rfl | rfl | rfl <;> decide

/-! ## Quotients -/

/-- A quotient by one or minus one is the dividend up to its sign, and any other is at most half as large.
So it has 64 bits if the dividend has, with one exception. -/
theorem holds_tdiv (ha : DataType.bigInt.holds a = true) (hb : b ≠ 0)
    (hleast : ¬ (a = -2 ^ 63 ∧ b = -1)) : DataType.bigInt.holds (a.tdiv b) = true := by
  rw [DataType.holds_bigInt] at ha ⊢
  by_cases hunit : b.natAbs = 1
  · rcases (show b = 1 ∨ b = -1 by omega) with rfl | rfl
    · rw [Int.tdiv_one]
      exact ha
    · rw [Int.tdiv_neg, Int.tdiv_one]
      omega
  · have hhalf : (a.tdiv b).natAbs ≤ a.natAbs / 2 := by
      rw [Int.natAbs_tdiv]
      exact Nat.div_le_div_left (by omega) (by decide)
    omega

/-- The result is there, but for the remainder whose quotient has more than 64 bits. -/
theorem exactResult?_eq {op : Arithmetic} (ha : DataType.bigInt.holds a = true)
    (hb : ¬ (op.divides = true ∧ b = 0)) :
    op.exactResult? a b =
      if op = .remainder ∧ a = -2 ^ 63 ∧ b = -1 then none else some (op.result a b) := by
  cases op with
  | add | subtract | multiply | divide => rfl
  | remainder =>
    have hb0 : b ≠ 0 := fun h => hb ⟨rfl, h⟩
    by_cases hleast : a = -2 ^ 63 ∧ b = -1
    · rw [if_pos ⟨rfl, hleast⟩, hleast.1, hleast.2]
      decide
    · have hword := holds_tdiv ha hb0 hleast
      rw [if_neg (fun h => hleast h.2), exactResult?, int64?_eq, if_pos hword]
      rfl

/-! ## The answers -/

theorem onIntegers_eq (op : Arithmetic) (hx : x.IsInteger s a) (hy : y.IsInteger t b) :
    op.apply x y = if op.divides && b == 0 then .error divisionByZero
      else DataType.orFail (outOfRange (s.wider t)) ((op.exactResult? a b).bind (wordOf? (s.wider t))) := by
  rw [apply_integers op hx hy, onIntegers, widerType_integers hx hy]

/-- Wherever there is a result, the answer is exact. -/
theorem exact_apply {op : Arithmetic} (hx : x.IsInteger s a) (hy : y.IsInteger t b)
    (hleast : ¬ (op = .remainder ∧ a = -2 ^ 63 ∧ b = -1)) : op.Exact (s.wider t) a b (op.apply x y) := by
  have hwider := wider_mem_integers hx.mem_integers hy.mem_integers
  rw [onIntegers_eq op hx hy]
  unfold Exact
  by_cases hzero : op.divides = true ∧ b = 0
  · rw [if_pos hzero, if_pos (by simp [hzero])]
  · have hresult := exactResult?_eq (DataType.holds_bigInt_of_holds hx.holds) hzero
    have hdivisor : ¬ (op.divides && b == 0) = true := by simpa using hzero
    rw [if_neg hleast] at hresult
    rw [if_neg hzero, if_neg hdivisor, hresult, Option.bind_some]
    by_cases hholds : (s.wider t).holds (op.result a b) = true
    · obtain ⟨v, hword, hv⟩ := exists_wordOf? hwider hholds
      rw [if_pos hholds, hword]
      exact ⟨v, rfl, hv⟩
    · rw [if_neg hholds, wordOf?_eq_none hwider (by simpa using hholds)]
      rfl

/-- The remainder of the least of all integers and minus one is zero, which is not out of range. -/
theorem not_exact_remainder_least :
    ¬ remainder.Exact .bigInt (-2 ^ 63) (-1) (.error (outOfRange .bigInt)) := by
  unfold Exact
  rw [if_neg (by decide), if_pos (by decide)]
  rintro ⟨v, hv, -⟩
  cases hv

/-- Only the widest type has the least of all integers, so its remainder is answered in this type. -/
theorem remainder_least (hx : x.IsInteger s (-2 ^ 63)) (hy : y.IsInteger t (-1)) :
    s.wider t = .bigInt ∧ remainder.apply x y = .error (outOfRange .bigInt) := by
  have hwider : s.wider t = .bigInt := by
    have hs := hx.holds
    have ht := hy.mem_integers
    simp only [DataType.integers, List.mem_cons, List.not_mem_nil, or_false] at ht
    unfold DataType.holds at hs
    split at hs
    · exact absurd hs (by decide)
    · exact absurd hs (by decide)
    · rcases ht with rfl | rfl | rfl <;> rfl
    · cases hs
  have hresult : remainder.exactResult? (-2 ^ 63) (-1) = none := by decide
  refine ⟨hwider, ?_⟩
  rw [onIntegers_eq _ hx hy, hwider, hresult]
  rfl

end

end Arithmetic

open Arithmetic in
/-- On integers an operation is exact in the wider type of its operands, but for the remainder of the least
of all integers and minus one, which is zero and is answered as out of range. -/
theorem integers_computed_exactly_iff (op : Arithmetic) {x y : Value} {s t : DataType} {a b : Int}
    (hx : x.IsInteger s a) (hy : y.IsInteger t b) :
    (op.Exact (s.wider t) a b (op.apply x y) ↔ ¬ (op = .remainder ∧ a = -2 ^ 63 ∧ b = -1)) ∧
      (op = .remainder → a = -2 ^ 63 → b = -1 → op.apply x y = .error (outOfRange .bigInt)) := by
  refine ⟨⟨?_, exact_apply hx hy⟩, ?_⟩
  · rintro hexact ⟨rfl, rfl, rfl⟩
    obtain ⟨hwider, hanswer⟩ := remainder_least hx hy
    rw [hwider, hanswer] at hexact
    exact not_exact_remainder_least hexact
  · rintro rfl rfl rfl
    exact (remainder_least hx hy).2

namespace Sample

/-- The least number of 32 bits has a remainder by minus one, and the quotient does not fit its type. -/
theorem least_integer_computed :
    Arithmetic.remainder.Exact .integer (-2147483648) (-1)
        (Arithmetic.remainder.apply (.integer (-2147483648)) (.smallInt (-1))) ∧
      Arithmetic.divide.Exact .integer (-2147483648) (-1)
        (Arithmetic.divide.apply (.integer (-2147483648)) (.smallInt (-1))) ∧
      Arithmetic.divide.apply (.integer (-2147483648)) (.smallInt (-1)) =
        .error (.execution "integer out of range") := by
  have hleast : (Value.integer (-2147483648)).IsInteger .integer (-2147483648) := .integer _
  have hone : (Value.smallInt (-1)).IsInteger .smallInt (-1) := .smallInt _
  exact ⟨(integers_computed_exactly_iff .remainder hleast hone).1.mpr (by decide),
    (integers_computed_exactly_iff .divide hleast hone).1.mpr (by decide), rfl⟩

/-- The least number of 64 bits has one too, but is answered as out of range. -/
theorem least_bigInt_refused :
    (Value.bigInt (-9223372036854775808)).IsInteger .bigInt (-9223372036854775808) ∧
      (Value.integer (-1)).IsInteger .integer (-1) ∧
      Arithmetic.remainder.result (-9223372036854775808) (-1) = 0 ∧ DataType.bigInt.holds 0 = true ∧
      Arithmetic.remainder.apply (.bigInt (-9223372036854775808)) (.integer (-1)) =
        .error (.execution "bigint out of range") ∧
      ¬ Arithmetic.remainder.Exact .bigInt (-9223372036854775808) (-1)
        (Arithmetic.remainder.apply (.bigInt (-9223372036854775808)) (.integer (-1))) := by
  have hleast : (Value.bigInt (-9223372036854775808)).IsInteger .bigInt (-9223372036854775808) := .bigInt _
  have hone : (Value.integer (-1)).IsInteger .integer (-1) := .integer _
  obtain ⟨-, hanswer⟩ := Arithmetic.remainder_least hleast hone
  refine ⟨hleast, hone, rfl, rfl, hanswer, ?_⟩
  rw [hanswer]
  exact Arithmetic.not_exact_remainder_least

end Sample

end SqlStore
