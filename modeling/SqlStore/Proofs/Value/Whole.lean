import SqlStore.Proofs.Binary.Value
import SqlStore.Proofs.Value.Integers

/-!
# Conversion to the integer types

A number is converted to an integer type by rounding it to the nearest whole number, which the type may
hold or not. Three ways lead there, for integers, decimals and floating-point numbers, and they agree but
at one number: the bound that is compared with a floating-point number is itself rounded up to it.
-/

namespace SqlStore

namespace Numeric

/-- The number that a decimal stands for. -/
def toRat (d : Numeric) : ℚ := (d.signed : ℚ) / (pow10 d.scale : Nat)

theorem toRat_eq (d : Numeric) :
    d.toRat = if d.negative then -((d.mantissa : ℚ) / (pow10 d.scale : Nat))
      else (d.mantissa : ℚ) / (pow10 d.scale : Nat) := by
  unfold toRat signed
  split
  · push_cast
    ring
  · push_cast
    rfl

/-- Rounding half of a unit up is rounding to the nearest unit. -/
theorem add_half_div (m k : Nat) :
    (m + 5 * pow10 k) / pow10 (k + 1) = (2 * m + pow10 (k + 1)) / (2 * pow10 (k + 1)) := by
  have hdouble : 2 * m + pow10 (k + 1) = 2 * (m + 5 * pow10 k) := by
    rw [pow10_succ]
    ring
  rw [hdouble, Nat.mul_div_mul_left _ _ (by decide)]

/-- Zero has the same value with a sign. -/
theorem signed_nonzero (negative : Bool) (m : Nat) :
    (if negative && m != 0 then -(m : Int) else m) = if negative then -(m : Int) else m := by
  by_cases hzero : m = 0
  · simp [hzero]
  · simp [hzero]

/-- Without places a decimal is the nearest whole number. -/
theorem truncate_round_zero (d : Numeric) : (d.round 0).truncate = nearestInteger d.toRat := by
  unfold round
  split
  · next hscale =>
    have hunit : pow10 d.scale = 1 := by rw [Nat.le_zero.mp hscale]; rfl
    unfold truncate toRat
    rw [hunit, Nat.cast_one, Int.tdiv_one, Nat.cast_one, div_one, nearestInteger_intCast]
  · next hscale =>
    obtain ⟨k, hk⟩ : ∃ k, d.scale = k + 1 := ⟨d.scale - 1, by omega⟩
    have hmantissa : nearestInteger ((d.mantissa : ℚ) / (pow10 d.scale : Nat)) =
        ((d.mantissa + 5 * pow10 (d.scale - 0 - 1)) / pow10 (d.scale - 0) : Nat) := by
      rw [nearestInteger_div (pow10_pos _), hk]
      exact congrArg Nat.cast (add_half_div d.mantissa k).symm
    rw [toRat_eq]
    unfold truncate signed
    dsimp only
    rw [show pow10 0 = 1 from rfl, Nat.cast_one, Int.tdiv_one, signed_nonzero, ← hmantissa]
    split
    · rw [nearestInteger_neg]
    · rfl

end Numeric

namespace Value

/-- The number that a value stands for. What is infinite or not a number stands for none. -/
def rational? : Value → Option ℚ
  | numeric d => some d.toRat
  | real x => if x.isFinite then some x.toRat else none
  | double x => if x.isFinite then some x.toRat else none
  | v => v.int?.map (fun n => (n : ℚ))

variable {v : Value} {n : Int} {q : ℚ}

/-- In double precision a floating-point number is the same. -/
theorem rational?_of_isFloat (h : v.isFloat = true) :
    v.rational? = if v.toBinary64.isFinite then some v.toBinary64.toRat else none := by
  cases v with
  | double x => rfl
  | real x =>
    show (if x.isFinite then some x.toRat else none) =
      if x.widen.isFinite then some x.widen.toRat else none
    rw [Binary32.isFinite_widen]
    split
    · next hfinite => rw [Binary32.toRat_widen hfinite]
    · rfl
  | _ => cases h

end Value

namespace Binary64

/-- Only the bound itself is rounded to it, as larger numbers have no places. -/
theorem toRat_of_nearestInteger {x : Binary64} (h : nearestInteger x.toRat = 2 ^ 63) : x.toRat = 2 ^ 63 := by
  rw [toRat_eq_signed] at h ⊢
  have hlt : x.signed.1.natAbs < 2 ^ 53 := by
    have hsignificand := (BinaryFormat.normal_decode (f := .double) x.code).lt
    unfold signed
    dsimp only
    split
    · rw [Int.natAbs_neg]
      exact hsignificand
    · exact hsignificand
  generalize x.signed = parts at *
  obtain ⟨m, q⟩ := parts
  dsimp only at *
  by_cases hq : q < 0
  · -- with places the number is less than its significand
    exfalso
    have hsmall : |(m : ℚ) * 2 ^ q| ≤ 2 ^ 53 := by
      have hm : |(m : ℚ)| ≤ 2 ^ 53 := by
        rw [← Int.cast_abs, Int.abs_eq_natAbs]
        exact_mod_cast hlt.le
      have hpower : (2 : ℚ) ^ q ≤ 1 := zpow_le_one_of_nonpos₀ (by norm_num) hq.le
      rw [abs_mul, abs_of_pos (a := (2 : ℚ) ^ q) (by positivity)]
      exact (mul_le_of_le_one_right (abs_nonneg _) hpower).trans hm
    have hnear : |(m : ℚ) * 2 ^ q - (2 ^ 63 : ℤ)| ≤ 1 / 2 := by
      rcases nearestInteger_eq_iff.mp h with hlt' | ⟨heq, -⟩
      · exact hlt'.le
      · exact heq.le
    have hupper := (abs_le.mp hsmall).2
    have hlower := (abs_le.mp hnear).1
    push_cast at hlower
    norm_num at hlower hupper
    linarith
  · obtain ⟨k, rfl⟩ : ∃ k : Nat, q = (k : Int) := ⟨q.natAbs, by omega⟩
    have hwhole : (m : ℚ) * 2 ^ (k : Int) = ((m * 2 ^ k : Int) : ℚ) := by
      rw [zpow_natCast]
      push_cast
      rfl
    rw [hwhole, nearestInteger_intCast] at h
    rw [hwhole, h]
    norm_num

end Binary64

namespace DataType

/-- The answer is the nearest whole number as a value of the type, or fails the validation because the type
does not hold it or there is none. -/
def ConvertsNumber (t : DataType) (v : Value) (r : Except Error Value) : Prop :=
  match v.rational? with
  | some q =>
    if t.holds (nearestInteger q) = true then ∃ w, r = .ok w ∧ w.IsInteger t (nearestInteger q)
    else ∃ cause, r = .error (.validation cause)
  | none => ∃ cause, r = .error (.validation cause)

section

variable {t : DataType} {v : Value}

/-- The three types differ in the last step only. -/
theorem convert_of_integerOf {r : Except Error Int} (ht : t ∈ integers) (hnull : v.isNull = false)
    (h : integerOf v = some r) :
    t.convert v = r >>= fun n =>
      orFail (.rule ("value out of range for type " ++ t.name)) (Arithmetic.wordOf? t n) := by
  have hword {α : Type} (word? : Int → Option α) (f : α → Value) :
      (toWord t word? v).map f =
        r >>= fun n => orFail (.rule ("value out of range for type " ++ t.name)) ((word? n).map f) := by
    unfold toWord
    rw [h]
    cases r with
    | error e => rfl
    | ok n =>
      show (orFail _ (word? n)).map f = orFail _ ((word? n).map f)
      cases word? n <;> rfl
  unfold convert
  rw [if_neg (by simp [hnull])]
  simp only [integers, List.mem_cons, List.not_mem_nil, or_false] at ht
  rcases ht with rfl | rfl | rfl
  · exact hword int16? .smallInt
  · exact hword int32? .integer
  · exact hword int64? .bigInt

theorem integerOf_of_isFloat (h : v.isFloat = true) :
    integerOf v = some (
      if v.toBinary64.isFinite && (-9223372036854775808 ≤ v.toBinary64.roundAway &&
          v.toBinary64.roundAway ≤ 9223372036854775808) then
        .ok (min v.toBinary64.roundAway 9223372036854775807)
      else .error (.rule "integer out of range")) := by
  cases v with
  | double x => rfl
  | real x => rfl
  | _ => cases h

/-- The integer of a number is the nearest one of 64 bits, or, for the bound of a floating-point number, the
largest one. -/
theorem integerOf_number (hv : v.isNumber = true) :
    integerOf v = some (match v.rational? with
      | none => .error (.rule "integer out of range")
      | some q =>
        if bigInt.holds (nearestInteger q) then .ok (nearestInteger q)
        else if v.isFloat && nearestInteger q == 2 ^ 63 then .ok (2 ^ 63 - 1)
        else .error (.rule "integer out of range")) := by
  by_cases hfloat : v.isFloat = true
  · rw [integerOf_of_isFloat hfloat, Value.rational?_of_isFloat hfloat, hfloat]
    by_cases hfinite : v.toBinary64.isFinite = true
    · rw [if_pos hfinite, hfinite, Binary64.roundAway_eq]
      dsimp only
      -- what is left is about one integer and the bounds of 64 bits
      generalize nearestInteger v.toBinary64.toRat = n
      by_cases hholds : bigInt.holds n = true
      · have hbounds := holds_bigInt.mp hholds
        rw [if_pos hholds, if_pos (by simpa using by omega), min_eq_left (by omega)]
      · have hbounds := mt holds_bigInt.mpr hholds
        rw [if_neg hholds]
        by_cases hbound : n = 2 ^ 63
        · rw [hbound]
          rfl
        · rw [if_neg (by simp; omega), if_neg (by simpa using hbound)]
    · rw [if_neg hfinite, if_neg (by simp [hfinite])]
  · have hinteger {s : DataType} {n : Int} (hn : v.IsInteger s n) (hof : integerOf v = some (.ok n)) :
        integerOf v = some (if bigInt.holds (nearestInteger n) then .ok (nearestInteger n)
          else if v.isFloat && nearestInteger n == 2 ^ 63 then .ok (2 ^ 63 - 1)
          else .error (.rule "integer out of range")) := by
      rw [hof, nearestInteger_intCast, if_pos (holds_bigInt_of_holds hn.holds)]
    cases v with
    | smallInt w => exact hinteger (.smallInt w) rfl
    | integer w => exact hinteger (.integer w) rfl
    | bigInt w => exact hinteger (.bigInt w) rfl
    | numeric d =>
      show some (orFail _ ((int64? (d.round 0).truncate).map (·.toInt))) = some (if _ then _ else _)
      rw [Numeric.truncate_round_zero]
      by_cases hholds : bigInt.holds (nearestInteger d.toRat) = true
      · obtain hword : int64? (nearestInteger d.toRat) = some (Int64.ofInt (nearestInteger d.toRat)) := by
          rw [int64?_eq, if_pos hholds]
        rw [if_pos hholds, hword]
        exact congrArg (fun n => some (Except.ok n)) (toInt_of_int64? hword)
      · rw [int64?_eq, if_neg hholds, if_neg hholds]
        rfl
    | real x => exact absurd rfl hfloat
    | double x => exact absurd rfl hfloat
    | _ => cases hv

/-- An integer in the range of the type is a value of the type, and any other fails. -/
theorem converts_integer {n : Int} (ht : t ∈ integers) (hnull : v.isNull = false)
    (h : integerOf v = some (.ok n)) :
    if t.holds n = true then ∃ w, t.convert v = .ok w ∧ w.IsInteger t n
    else ∃ cause, t.convert v = .error (.validation cause) := by
  have hconvert : t.convert v =
      orFail (.rule ("value out of range for type " ++ t.name)) (Arithmetic.wordOf? t n) :=
    convert_of_integerOf ht hnull h
  split
  · next hholds =>
    obtain ⟨w, hword, hw⟩ := Arithmetic.exists_wordOf? ht hholds
    exact ⟨w, by rw [hconvert, hword]; rfl, hw⟩
  · next hholds =>
    have hword := Arithmetic.wordOf?_eq_none ht (by simpa using hholds)
    exact ⟨_, by rw [hconvert, hword]; rfl⟩

/-- What has no integer of 64 bits fails. -/
theorem convert_fails {e : Error} (ht : t ∈ integers) (hnull : v.isNull = false)
    (h : integerOf v = some (.error e)) : t.convert v = .error e :=
  convert_of_integerOf ht hnull h

/-- What is rounded to the bound is the bound. -/
theorem rational?_of_bound {q : ℚ} (hfloat : v.isFloat = true) (hq : v.rational? = some q)
    (hbound : nearestInteger q = 2 ^ 63) : v.rational? = some (2 ^ 63) := by
  rw [Value.rational?_of_isFloat hfloat] at hq ⊢
  split at hq
  · next hfinite =>
    obtain rfl := Option.some.inj hq
    rw [if_pos hfinite, Binary64.toRat_of_nearestInteger hbound]
  · cases hq

theorem nearestInteger_bound : nearestInteger (2 ^ 63 : ℚ) = 2 ^ 63 := by
  rw [nearestInteger_eq_iff]
  norm_num

/-- The conversion of the bound gives the largest integer. -/
theorem integerOf_bound (hfloat : v.isFloat = true) (hq : v.rational? = some (2 ^ 63)) :
    integerOf v = some (.ok (2 ^ 63 - 1)) := by
  have hv : v.isNumber = true := by
    cases v <;> first | rfl | cases hfloat
  rw [integerOf_number hv, hq, hfloat]
  dsimp only
  rw [nearestInteger_bound]
  rfl

theorem isNull_of_isNumber (hv : v.isNumber = true) : v.isNull = false := by
  cases v <;> first | rfl | cases hv

/-- Every other number is converted exactly. -/
theorem convertsNumber_convert (ht : t ∈ integers) (hv : v.isNumber = true)
    (hbound : ¬ (t = .bigInt ∧ v.isFloat = true ∧ v.rational? = some (2 ^ 63))) :
    t.ConvertsNumber v (t.convert v) := by
  have hnull := isNull_of_isNumber hv
  have hinteger := integerOf_number hv
  unfold ConvertsNumber
  cases hq : v.rational? with
  | none =>
    rw [hq] at hinteger
    exact ⟨_, convert_fails ht hnull hinteger⟩
  | some q =>
    rw [hq] at hinteger
    dsimp only at hinteger ⊢
    by_cases hwide : bigInt.holds (nearestInteger q) = true
    · rw [if_pos hwide] at hinteger
      exact converts_integer ht hnull hinteger
    · have hnarrow : ¬ t.holds (nearestInteger q) = true := mt holds_bigInt_of_holds hwide
      rw [if_neg hwide] at hinteger
      rw [if_neg hnarrow]
      split at hinteger
      · next hedge =>
        -- the largest integer of 64 bits is out of range of the narrower types
        obtain ⟨hfloat, hedge⟩ : v.isFloat = true ∧ nearestInteger q = 2 ^ 63 := by simpa using hedge
        have ht' : t ≠ .bigInt := fun h => hbound ⟨h, hfloat, rational?_of_bound hfloat hq hedge⟩
        have hholds : ¬ t.holds (2 ^ 63 - 1) = true := by
          simp only [integers, List.mem_cons, List.not_mem_nil, or_false] at ht
          rcases ht with rfl | rfl | rfl
          · decide
          · decide
          · exact absurd rfl ht'
        have hanswer := converts_integer ht hnull hinteger
        rwa [if_neg hholds] at hanswer
      · exact ⟨_, convert_fails ht hnull hinteger⟩

end

end DataType

open DataType in
/-- A number is converted to an integer type by rounding it to the nearest whole number, or fails if the type
does not hold this number or there is none. The one exception is the floating-point number `2^63`, which is
converted to the largest `bigint`. -/
theorem number_converted_exactly_iff {t : DataType} {v : Value} (ht : t ∈ integers) (hv : v.isNumber = true) :
    (t.ConvertsNumber v (t.convert v) ↔
        ¬ (t = .bigInt ∧ v.isFloat = true ∧ v.rational? = some (2 ^ 63))) ∧
      (t = .bigInt → v.isFloat = true → v.rational? = some (2 ^ 63) →
        t.convert v = .ok (.bigInt 9223372036854775807)) := by
  have hbound (hfloat : v.isFloat = true) (hq : v.rational? = some (2 ^ 63)) :
      DataType.bigInt.convert v = .ok (.bigInt 9223372036854775807) :=
    convert_of_integerOf (by decide) (isNull_of_isNumber hv) (integerOf_bound hfloat hq)
  refine ⟨⟨?_, convertsNumber_convert ht hv⟩, ?_⟩
  · rintro hexact ⟨rfl, hfloat, hq⟩
    unfold ConvertsNumber at hexact
    rw [hq] at hexact
    dsimp only at hexact
    rw [nearestInteger_bound, if_neg (by decide), hbound hfloat hq] at hexact
    obtain ⟨cause, hcause⟩ := hexact
    cases hcause
  · rintro rfl hfloat hq
    exact hbound hfloat hq

namespace Sample

/-- Half of a unit is rounded away from zero. -/
def half : Numeric := ⟨true, 25, 1, by decide⟩

/-- The double-precision number `2^63`. -/
def bound : Binary64 := .ofBinary false 1 63

/-- A half is rounded away from zero, the bound is out of range of an `integer`, and infinity of every type. -/
theorem numbers_converted :
    DataType.smallInt.ConvertsNumber (.numeric half) (DataType.smallInt.convert (.numeric half)) ∧
      DataType.smallInt.convert (.numeric half) = .ok (.smallInt (-3)) ∧
      DataType.integer.ConvertsNumber (.double bound) (DataType.integer.convert (.double bound)) ∧
      DataType.integer.convert (.double bound) = .error (.rule "value out of range for type integer") ∧
      DataType.bigInt.ConvertsNumber (.double .infinity) (DataType.bigInt.convert (.double .infinity)) ∧
      DataType.bigInt.convert (.double .infinity) = .error (.rule "integer out of range") :=
  ⟨(number_converted_exactly_iff (by decide) rfl).1.mpr (by rintro ⟨h, -⟩; cases h), rfl,
    (number_converted_exactly_iff (by decide) rfl).1.mpr (by rintro ⟨h, -⟩; cases h), rfl,
    (number_converted_exactly_iff (by decide) rfl).1.mpr (by rintro ⟨-, -, h⟩; cases h), rfl⟩

/-- The number `2^63` is out of range of a `bigint` and is converted to the largest one. -/
theorem bound_converted_to_largest :
    (Value.double bound).rational? = some (2 ^ 63) ∧ DataType.bigInt.holds (2 ^ 63) = false ∧
      DataType.bigInt.convert (.double bound) = .ok (.bigInt 9223372036854775807) ∧
      ¬ DataType.bigInt.ConvertsNumber (.double bound) (DataType.bigInt.convert (.double bound)) := by
  have hnumber : (Value.double bound).rational? = some (2 ^ 63) := by with_unfolding_all rfl
  have hanswer : DataType.bigInt.convert (.double bound) = .ok (.bigInt 9223372036854775807) := rfl
  refine ⟨hnumber, by decide, hanswer, ?_⟩
  unfold DataType.ConvertsNumber
  rw [hnumber, hanswer]
  dsimp only
  rw [DataType.nearestInteger_bound, if_neg (by decide)]
  rintro ⟨cause, hcause⟩
  cases hcause

end Sample

end SqlStore
