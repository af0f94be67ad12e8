import SqlStore.Proofs.Numeric.Rounding

/-!
# Conversion to a declared precision

A `numeric` type with precision `p` and scale `s` holds the numbers with `p - s` digits in front of the
point. Conversion rounds to the scale first and compares with the limit then. Below the limit the mantissa
is never too long for the scale, so padding does not stop early. No comparison is made for 28 digits in
front of the point, although some numbers have one more.
-/

namespace SqlStore

namespace Numeric

variable {d : Numeric} {p s : Nat}

/-! ## The declared scale -/

theorem le_of_full (h : d.Full) : mantissaBound ≤ d.mantissa * 10 := by
  unfold Full ofParts? at h
  split at h
  · cases h
  · next hlong => exact not_lt.mp hlong

/-- A number short enough for the declared scale has it. -/
theorem scale_withScale (hs : s ≤ maxScale) (hshort : |(d.withScale s).toRat| * 10 ^ s < mantissaBound) :
    (d.withScale s).scale = s := by
  have hround := scale_round_le d s
  by_cases hzero : (d.round s).isZero = true
  · rw [withScale_of_isZero hzero]
    show min s (max _ maxScale) = s
    omega
  · have hpadded := withScale_of_not_isZero hzero
    rcases padPlaces_exact_or_full (d.round s) (s - (d.round s).scale) with hexact | hfull
    · rw [hpadded, hexact]
      omega
    · -- one more place would make the mantissa too long, so there is none to add
      rw [← hpadded] at hfull
      have hle := scale_withScale_le d s
      generalize d.withScale s = e at *
      by_contra hne
      obtain ⟨k, rfl⟩ : ∃ k, s = e.scale + (k + 1) := ⟨s - e.scale - 1, by omega⟩
      have hmantissa : |e.toRat| * 10 ^ (e.scale + (k + 1)) = (e.mantissa * 10 * 10 ^ k : Nat) := by
        rw [abs_toRat, magnitude, pow_add, pow_succ]
        push_cast
        field_simp
      rw [hmantissa] at hshort
      have hlong : e.mantissa * 10 ≤ e.mantissa * 10 * 10 ^ k := Nat.le_mul_of_pos_right _ (by positivity)
      have hlt : e.mantissa * 10 * 10 ^ k < mantissaBound := by exact_mod_cast hshort
      have hfill := le_of_full hfull
      omega

/-! ## The limit -/

theorem digitLimit_eq (n : Nat) : digitLimit n = 10 ^ n := by
  unfold digitLimit
  rw [← pow10_add, show min n 18 + (n - 18) = n by omega]
  rfl

/-- The limit on the mantissa is a limit on the number. -/
theorem digitLimit_le_iff (d : Numeric) (n : Nat) :
    digitLimit n * pow10 d.scale ≤ d.mantissa ↔ 10 ^ n ≤ |d.toRat| := by
  have hpower : (0 : ℚ) < 10 ^ d.scale := by positivity
  rw [abs_toRat, magnitude, le_div_iff₀ hpower, digitLimit_eq, ← cast_pow10 d.scale]
  exact_mod_cast Iff.rfl

/-- A number below a power of ten has at most as many digits in front of the point. -/
theorem natAbs_truncate_lt {n : Nat} (h : |d.toRat| < 10 ^ n) : d.truncate.natAbs < 10 ^ n := by
  have hpart : d.truncate.natAbs = d.mantissa / pow10 d.scale := by
    unfold truncate
    rw [Int.natAbs_tdiv, natAbs_signed, Int.natAbs_natCast]
    rfl
  have hlimit : ¬ digitLimit n * pow10 d.scale ≤ d.mantissa :=
    fun hle => absurd ((digitLimit_le_iff d n).mp hle) (not_le.mpr h)
  rw [hpart, Nat.div_lt_iff_lt_mul (pow10_pos _), ← digitLimit_eq]
  exact not_le.mp hlimit

/-- The failure of a number that does not fit. -/
def unfitting (p s : Nat) (d : Numeric) : Error :=
  .rule ("numeric field overflow: " ++ d.text ++ " does not fit numeric(" ++ Text.showInt p ++ "," ++
    Text.showInt s ++ ")")

theorem declared_eq (d : Numeric) (p s : Nat) :
    d.declared (some p) (some s) =
      if p - s < 28 ∧ 10 ^ (p - s) ≤ |nearestMultiple s d.toRat| then
        .error (unfitting p s (d.withScale s))
      else .ok (d.withScale s) := by
  unfold declared
  simp only [Option.getD_some, Bool.and_eq_true, decide_eq_true_eq, digitLimit_le_iff, toRat_withScale]
  rfl

end Numeric

namespace DataType

open Numeric

/-- The answer is the number rounded to the scale, with as many places, or fails because it has more digits
in front of the point than the precision leaves. -/
def ConvertsDecimal (p s : Nat) (q : ℚ) (r : Except Error Value) : Prop :=
  if |nearestMultiple s q| < 10 ^ (p - s) then
    ∃ d, r = .ok (.numeric d) ∧ d.toRat = nearestMultiple s q ∧ d.scale = s ∧
      d.truncate.natAbs < 10 ^ (p - s)
  else ∃ d, d.toRat = nearestMultiple s q ∧ r = .error (unfitting p s d)

variable {v : Value} {d : Numeric} {p s : Nat}

theorem convert_numeric (hv : v.numeric? = some d) (p s : Option Nat) :
    (DataType.numeric p s).convert v = (d.declared p s).map .numeric := by
  obtain ⟨hnull, hdecimal⟩ : v.isNull = false ∧ decimalOf (DataType.numeric p s) v = .ok d := by
    cases v with
    | null => cases hv
    | text => cases hv
    | real => cases hv
    | double => cases hv
    | numeric => exact ⟨rfl, congrArg Except.ok (Option.some.inj hv)⟩
    | _ => exact ⟨rfl, congrArg (orFail _) hv⟩
  unfold convert
  rw [if_neg (by simp [hnull])]
  dsimp only
  rw [hdecimal]
  show (d.declared p s >>= fun e => .ok (Value.numeric e)) = _
  cases d.declared p s <;> rfl

theorem convert_eq (hv : v.numeric? = some d) (p s : Nat) :
    (DataType.numeric (some p) (some s)).convert v =
      if p - s < 28 ∧ 10 ^ (p - s) ≤ |nearestMultiple s d.toRat| then
        .error (unfitting p s (d.withScale s))
      else .ok (.numeric (d.withScale s)) := by
  rw [convert_numeric hv, declared_eq]
  split <;> rfl

/-- All is converted as declared as far as the limit is compared with. -/
theorem convertsDecimal_convert (hs : s ≤ p) (hp : p ≤ 28) (hv : v.numeric? = some d)
    (hlimit : p - s < 28 ∨ |nearestMultiple s d.toRat| < 10 ^ (p - s)) :
    ConvertsDecimal p s d.toRat ((DataType.numeric (some p) (some s)).convert v) := by
  have hvalue := toRat_withScale d s
  unfold ConvertsDecimal
  rw [convert_eq hv]
  split
  · next hfits =>
    have hshort : |(d.withScale s).toRat| * 10 ^ s < mantissaBound := by
      have hpower : (0 : ℚ) < 10 ^ s := by positivity
      calc |(d.withScale s).toRat| * 10 ^ s
          < 10 ^ (p - s) * 10 ^ s := mul_lt_mul_of_pos_right (hvalue ▸ hfits) hpower
        _ = 10 ^ p := by rw [← pow_add, Nat.sub_add_cancel hs]
        _ ≤ 10 ^ 28 := pow_le_pow_right₀ (by norm_num) hp
        _ < mantissaBound := by norm_num [mantissaBound]
    rw [if_neg (fun h => absurd hfits (not_lt.mpr h.2))]
    exact ⟨_, rfl, hvalue, scale_withScale (hs.trans hp) hshort, natAbs_truncate_lt (hvalue ▸ hfits)⟩
  · next hlong =>
    rw [if_pos ⟨hlimit.resolve_right hlong, not_lt.mp hlong⟩]
    exact ⟨_, hvalue, rfl⟩

end DataType

open DataType Numeric in
/-- A number is converted to a declared precision and scale by rounding it, and fails if the precision does
not leave enough digits in front of the point. The one exception is `numeric(28,0)`, to which every number is
converted. -/
theorem decimal_converted_exactly_iff {p s : Nat} {v : Value} {d : Numeric} (hs : s ≤ p) (hp : p ≤ 28)
    (hv : v.numeric? = some d) :
    (ConvertsDecimal p s d.toRat ((DataType.numeric (some p) (some s)).convert v) ↔
        ¬ (p = 28 ∧ s = 0 ∧ 10 ^ 28 ≤ |nearestMultiple 0 d.toRat|)) ∧
      (p = 28 → s = 0 → ∃ e, (DataType.numeric (some p) (some s)).convert v = .ok (.numeric e) ∧
        e.toRat = nearestMultiple 0 d.toRat ∧ e.scale = 0) := by
  have hunlimited : (DataType.numeric (some 28) (some 0)).convert v = .ok (.numeric (d.withScale 0)) := by
    rw [convert_eq hv, if_neg (by omega)]
  have hvalue := toRat_withScale d 0
  refine ⟨⟨?_, fun h => convertsDecimal_convert hs hp hv ?_⟩, ?_⟩
  · rintro hconverts ⟨rfl, rfl, hlong⟩
    have hlimit : ¬ |nearestMultiple (0 : Nat) d.toRat| < 10 ^ (28 - 0) := not_lt.mpr hlong
    unfold ConvertsDecimal at hconverts
    rw [hunlimited, if_neg hlimit] at hconverts
    obtain ⟨e, -, he⟩ := hconverts
    cases he
  · by_cases hdigits : p - s < 28
    · exact .inl hdigits
    · obtain ⟨rfl, rfl⟩ : p = 28 ∧ s = 0 := by omega
      exact .inr (not_le.mp fun hlong => h ⟨rfl, rfl, hlong⟩)
  · rintro rfl rfl
    exact ⟨_, hunlimited, hvalue, Nat.le_zero.mp (scale_withScale_le d 0)⟩

namespace Sample

/-- A number with a half of a hundredth. -/
def pointed : Numeric := ⟨true, 999985, 3, by decide⟩

/-- The least number with 29 digits. -/
def longest : Numeric := ⟨false, 10000000000000000000000000000, 0, by decide⟩

/-- A number as a decimal with five digits. -/
def withFiveDigits (s : Nat) (d : Numeric) : Except Error Value :=
  (DataType.numeric (some 5) (some s)).convert (.numeric d)

/-- A half is rounded away from zero, and with one place more there are too few digits in front of the point. -/
theorem pointed_converted :
    2 ≤ 5 ∧ 3 ≤ 5 ∧ 5 ≤ 28 ∧ (Value.numeric pointed).numeric? = some pointed ∧
      DataType.ConvertsDecimal 5 2 pointed.toRat (withFiveDigits 2 pointed) ∧
      withFiveDigits 2 pointed = .ok (.numeric ⟨true, 99999, 2, by decide⟩) ∧
      DataType.ConvertsDecimal 5 3 pointed.toRat (withFiveDigits 3 pointed) ∧
      withFiveDigits 3 pointed =
        .error (.rule "numeric field overflow: -999.985 does not fit numeric(5,3)") :=
  ⟨by decide, by decide, by decide, rfl,
    (decimal_converted_exactly_iff (by decide) (by decide) rfl).1.mpr (by rintro ⟨h, -⟩; cases h), rfl,
    (decimal_converted_exactly_iff (by decide) (by decide) rfl).1.mpr (by rintro ⟨h, -⟩; cases h), rfl⟩

/-- The type of 28 digits takes a number with 29. -/
theorem longest_converted :
    (DataType.numeric (some 28) (some 0)).convert (.numeric longest) = .ok (.numeric longest) ∧
      longest.truncate.natAbs = 10 ^ 28 ∧
      ¬ DataType.ConvertsDecimal 28 0 longest.toRat
        ((DataType.numeric (some 28) (some 0)).convert (.numeric longest)) := by
  have hanswer : (DataType.numeric (some 28) (some 0)).convert (.numeric longest) =
      .ok (.numeric longest) := rfl
  have hlimit : ¬ |nearestMultiple (0 : Nat) longest.toRat| < 10 ^ (28 - 0) := by decide +kernel
  refine ⟨hanswer, by decide, ?_⟩
  unfold DataType.ConvertsDecimal
  rw [hanswer, if_neg hlimit]
  rintro ⟨d, -, hfails⟩
  cases hfails

end Sample

end SqlStore
