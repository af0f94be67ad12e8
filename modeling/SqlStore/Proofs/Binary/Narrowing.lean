import SqlStore.Binary.Basic
import SqlStore.Proofs.Binary.Exactness

/-!
# Numbers that double precision has exactly

Double precision has every number of single precision exactly, so widening and narrowing again gives
the number back. Of what is not a number only the sign is kept on both ways, and narrowing has one code
for it. Double precision also has the integers of 53 bits exactly, and they stand in the total order as they
do among the integers. The code of such an integer is written down from its highest bit.
-/

namespace SqlStore

open BinaryFormat

namespace Binary32

theorem toNat_ofParts {n : Bool} {c : Nat} (hc : c < signBit) :
    (ofParts n c).bits.toNat = (if n then signBit else 0) + c := by
  show ((if n then signBit else 0) + c) % 2 ^ 32 = _
  refine Nat.mod_eq_of_lt ?_
  unfold signBit at *
  split <;> omega

theorem code_ofParts (n : Bool) {c : Nat} (hc : c < signBit) : (ofParts n c).code = c := by
  unfold code
  rw [toNat_ofParts hc]
  cases n with
  | false => simpa using Nat.mod_eq_of_lt hc
  | true =>
    show (signBit + c) % signBit = c
    rw [Nat.add_mod_left, Nat.mod_eq_of_lt hc]

/-- A number is its sign and its magnitude. -/
theorem ofParts_negative_code (x : Binary32) : ofParts x.negative x.code = x := by
  have hlt : x.bits.toNat < 2 ^ 32 := x.bits.toNat_lt
  have hsum : (if x.negative then signBit else 0) + x.code = x.bits.toNat := by
    unfold negative code signBit
    split
    · next h =>
      have hge : x.bits.toNat ≥ 2147483648 := by simpa using h
      omega
    · next h =>
      have hlow : x.bits.toNat < 2147483648 := by simpa using h
      omega
  unfold ofParts
  rw [hsum]
  exact congrArg Binary32.mk (UInt32.ofNat_toNat)

end Binary32

namespace Binary64

theorem toNat_ofParts {n : Bool} {c : Nat} (hc : c < signBit) :
    (ofParts n c).bits.toNat = (if n then signBit else 0) + c := by
  show ((if n then signBit else 0) + c) % 2 ^ 64 = _
  refine Nat.mod_eq_of_lt ?_
  unfold signBit at *
  split <;> omega

theorem negative_ofParts (n : Bool) {c : Nat} (hc : c < signBit) :
    (ofParts n c).negative = n := by
  unfold negative
  rw [toNat_ofParts hc]
  cases n with
  | false => simpa using hc
  | true => simp

theorem code_ofParts (n : Bool) {c : Nat} (hc : c < signBit) : (ofParts n c).code = c := by
  unfold code
  rw [toNat_ofParts hc]
  cases n with
  | false => simpa using Nat.mod_eq_of_lt hc
  | true =>
    show (signBit + c) % signBit = c
    rw [Nat.add_mod_left, Nat.mod_eq_of_lt hc]

end Binary64

/-- A natural number of 53 bits, shifted until its highest bit is in front. -/
theorem significand_bounds {k : Nat} (hk : k ≠ 0) (hlt : k < 2 ^ 53) :
    2 ^ 52 ≤ k * 2 ^ (52 - k.log2) ∧ k * 2 ^ (52 - k.log2) < 2 ^ 53 := by
  have hlog : k.log2 < 53 := (Nat.log2_lt hk).mpr hlt
  have hself := Nat.log2_self_le hk
  have hnext : k < 2 ^ (k.log2 + 1) := Nat.lt_log2_self
  have hsum : k.log2 + (52 - k.log2) = 52 := by omega
  constructor
  · calc 2 ^ 52 = 2 ^ k.log2 * 2 ^ (52 - k.log2) := by rw [← Nat.pow_add, hsum]
      _ ≤ k * 2 ^ (52 - k.log2) := Nat.mul_le_mul_right _ hself
  · calc k * 2 ^ (52 - k.log2) < 2 ^ (k.log2 + 1) * 2 ^ (52 - k.log2) :=
        Nat.mul_lt_mul_of_pos_right hnext (Nat.two_pow_pos _)
      _ = 2 ^ 53 := by rw [← Nat.pow_add, Nat.add_right_comm, hsum]

/-- Double precision has a finite number of single precision with a full significand. -/
theorem exists_double_of_single {code : Nat} (hfinite : code < single.infinity)
    (hzero : (single.decode code).1 ≠ 0) :
    ∃ m q, double.Normal m q ∧ pow2 double.fractionBits ≤ m ∧
      double.encode m q < double.infinity ∧
      ((single.decode code).1 : ℚ) * 2 ^ (single.decode code).2 = m * 2 ^ q := by
  have hnormal := normal_decode (f := single) code
  have hcode := encode_decode (f := single) code
  generalize (single.decode code).1 = n at *
  generalize (single.decode code).2 = p at *
  have hleast : single.leastExponent = -149 := by decide
  have hleast' : double.leastExponent = -1074 := by decide
  have hlow : -149 ≤ p := hleast ▸ hnormal.least_le
  have hn : n < 2 ^ 24 := hnormal.lt
  -- a finite code bounds the exponent
  have hhigh : p ≤ 105 := by
    have hbelow : (p - -149).toNat * 8388608 + n < 255 * 8388608 := by
      have hlt := hcode.trans_lt hfinite
      unfold encode at hlt
      rw [hleast] at hlt
      exact hlt
    omega
  have hlog : n.log2 < 24 := (Nat.log2_lt hzero).mpr hn
  -- shifting the highest bit to the front fills the significand
  let shift : Nat := 52 - n.log2
  have hm : 2 ^ 52 ≤ n * 2 ^ shift ∧ n * 2 ^ shift < 2 ^ 53 :=
    significand_bounds hzero (hn.trans (by decide))
  have hq : double.leastExponent ≤ p - shift := by
    rw [hleast']
    omega
  refine ⟨n * 2 ^ shift, p - shift, ⟨hq, hm.2, Or.inl hm.1⟩, hm.1, ?_, ?_⟩
  · have hplace : (p - shift - double.leastExponent).toNat ≤ 1179 := by
      rw [hleast']
      omega
    calc double.encode (n * 2 ^ shift) (p - shift)
        = (p - shift - double.leastExponent).toNat * 2 ^ 52 + n * 2 ^ shift := rfl
      _ < 1179 * 2 ^ 52 + 2 ^ 53 :=
          Nat.add_lt_add_of_le_of_lt (Nat.mul_le_mul_right _ hplace) hm.2
      _ < double.infinity := by decide
  · rw [zpow_sub₀ (by norm_num), zpow_natCast, Nat.cast_mul, Nat.cast_pow, Nat.cast_ofNat]
    field_simp

/-! ## Magnitudes -/

theorem nearestBinary_le (f : BinaryFormat) (m : Nat) (q : Int) :
    f.nearestBinary m q ≤ f.infinity := by
  unfold nearestBinary nearest
  split <;> split <;> first
    | exact Nat.zero_le _
    | exact min_le_left _ _

/-- What widening does to the code of a magnitude. -/
def widenCode (code : Nat) : Nat :=
  if single.infinity < code then double.nan
  else if code < single.infinity then
    double.nearestBinary (single.decode code).1 (single.decode code).2
  else double.infinity

/-- What narrowing does to the code of a magnitude. -/
def narrowCode (code : Nat) : Nat :=
  if double.infinity < code then single.nan
  else if code < double.infinity then
    single.nearestBinary (double.decode code).1 (double.decode code).2
  else single.infinity

theorem Binary32.widen_eq (x : Binary32) :
    x.widen = Binary64.ofParts x.negative (widenCode x.code) := by
  unfold widen widenCode isNaN isFinite
  simp only [decide_eq_true_eq]
  split
  · rfl
  · split <;> rfl

theorem Binary64.narrow_eq (x : Binary64) :
    x.narrow = Binary32.ofParts x.negative (narrowCode x.code) := by
  unfold narrow narrowCode isNaN isFinite
  simp only [decide_eq_true_eq]
  split
  · rfl
  · split <;> rfl

theorem widenCode_lt (code : Nat) : widenCode code < Binary64.signBit := by
  have hle := nearestBinary_le double (single.decode code).1 (single.decode code).2
  have hinfinity : double.infinity < Binary64.signBit := by decide
  unfold widenCode
  split
  · decide
  · split
    · exact hle.trans_lt hinfinity
    · exact hinfinity

/-- Narrowing has one code for what is not a number. -/
theorem narrowCode_le_or_eq (code : Nat) :
    narrowCode code ≤ single.infinity ∨ narrowCode code = single.nan := by
  unfold narrowCode
  split
  · exact Or.inr rfl
  · split
    · exact Or.inl (nearestBinary_le ..)
    · exact Or.inl le_rfl

theorem narrowCode_lt (code : Nat) : narrowCode code < Binary32.signBit := by
  have hinfinity : single.infinity < Binary32.signBit := by decide
  rcases narrowCode_le_or_eq code with hle | heq
  · exact hle.trans_lt hinfinity
  · rw [heq]
    decide

/-- A code whose significand is zero is zero. -/
theorem eq_zero_of_decode {code : Nat} (h : (single.decode code).1 = 0) : code = 0 := by
  have hnormal := normal_decode (f := single) code
  have hcode := encode_decode (f := single) code
  rw [h] at hnormal hcode
  rcases hnormal.short with hfull | hleast
  · exact absurd hfull (Nat.not_le.mpr (pow2_pos _))
  · rw [← hcode, hleast]
    unfold encode
    simp

/-- A finite magnitude comes back: double precision has it exactly. -/
theorem narrowCode_widenCode_of_finite {code : Nat} (h : code < single.infinity) :
    narrowCode (widenCode code) = code := by
  unfold widenCode
  rw [if_neg h.not_gt, if_pos h]
  by_cases hzero : (single.decode code).1 = 0
  · rw [hzero, nearestBinary_zero, eq_zero_of_decode hzero]
    decide
  · obtain ⟨m, q, hdouble, hfull, hlt, hvalue⟩ := exists_double_of_single h hzero
    have hm : m ≠ 0 := by
      rintro rfl
      exact absurd hfull (Nat.not_le.mpr (pow2_pos _))
    rw [nearestBinary_of_normal hzero hvalue hdouble, min_eq_right hlt.le]
    unfold narrowCode
    rw [if_neg hlt.not_gt, if_pos hlt, decode_encode hdouble hfull]
    have hback := nearestBinary_of_normal hm hvalue.symm (normal_decode (f := single) code)
    rw [encode_decode, min_eq_right h.le] at hback
    exact hback

theorem narrowCode_widenCode {code : Nat} (h : code ≤ single.infinity ∨ code = single.nan) :
    narrowCode (widenCode code) = code := by
  rcases h with hle | rfl
  · rcases hle.lt_or_eq with hlt | rfl
    · exact narrowCode_widenCode_of_finite hlt
    · decide
  · decide

/-- A number that was narrowed once is its own narrowing from then on. -/
theorem narrow_widen_narrow (x : Binary64) : x.narrow.widen.narrow = x.narrow := by
  rw [Binary64.narrow_eq x.narrow.widen, Binary32.widen_eq, Binary64.negative_ofParts _ (widenCode_lt _),
    Binary64.code_ofParts _ (widenCode_lt _), narrowCode_widenCode, Binary32.ofParts_negative_code]
  rw [Binary64.narrow_eq, Binary32.code_ofParts _ (narrowCode_lt _)]
  exact narrowCode_le_or_eq _

/-! ## Integers -/

/-- The normal form of a natural number of 53 bits. -/
theorem normal_natural {k : Nat} (hk : k ≠ 0) (hlt : k < 2 ^ 53) :
    double.Normal (k * 2 ^ (52 - k.log2)) ((k.log2 : Int) - 52) ∧
      (k : ℚ) = (k * 2 ^ (52 - k.log2) : Nat) * 2 ^ ((k.log2 : Int) - 52) := by
  obtain ⟨hfull, hfits⟩ := significand_bounds hk hlt
  have hlog : k.log2 < 53 := (Nat.log2_lt hk).mpr hlt
  have hleast : double.leastExponent = -1074 := by decide
  have hexponent : (k.log2 : Int) - 52 = -((52 - k.log2 : Nat) : Int) := by omega
  refine ⟨⟨by rw [hleast]; omega, hfits, .inl hfull⟩, ?_⟩
  rw [hexponent, zpow_neg, zpow_natCast, Nat.cast_mul, Nat.cast_pow, Nat.cast_ofNat]
  field_simp

/-- The code of the normal form. -/
theorem encode_natural {k : Nat} (hk : k ≠ 0) (hlt : k < 2 ^ 53) :
    double.encode (k * 2 ^ (52 - k.log2)) ((k.log2 : Int) - 52) =
        (k.log2 + 1022) * 2 ^ 52 + k * 2 ^ (52 - k.log2) ∧
      (k.log2 + 1022) * 2 ^ 52 + k * 2 ^ (52 - k.log2) < double.infinity := by
  obtain ⟨-, hfits⟩ := significand_bounds hk hlt
  have hlog : k.log2 < 53 := (Nat.log2_lt hk).mpr hlt
  have hleast : double.leastExponent = -1074 := by decide
  have hplace : (((k.log2 : Int) - 52) - double.leastExponent).toNat = k.log2 + 1022 := by
    rw [hleast]
    omega
  constructor
  · unfold encode
    rw [hplace]
    rfl
  · calc (k.log2 + 1022) * 2 ^ 52 + k * 2 ^ (52 - k.log2) < 1074 * 2 ^ 52 + 2 ^ 53 :=
          Nat.add_lt_add_of_le_of_lt (Nat.mul_le_mul_right _ (by omega)) hfits
      _ ≤ double.infinity := by decide

/-- The code of a natural number of 53 bits. -/
theorem nearestBinary_natural {k : Nat} (hk : k ≠ 0) (hlt : k < 2 ^ 53) :
    double.nearestBinary k 0 = (k.log2 + 1022) * 2 ^ 52 + k * 2 ^ (52 - k.log2) := by
  obtain ⟨hnormal, hvalue⟩ := normal_natural hk hlt
  obtain ⟨hencode, hfinite⟩ := encode_natural hk hlt
  rw [nearestBinary_of_normal hk (by rw [zpow_zero, mul_one]; exact hvalue) hnormal, hencode,
    min_eq_right hfinite.le]

/-- A greater natural number has a greater code. -/
theorem nearestBinary_lt {k l : Nat} (h : k < l) (hl : l < 2 ^ 53) :
    double.nearestBinary k 0 < double.nearestBinary l 0 := by
  have hl0 : l ≠ 0 := Nat.ne_of_gt (Nat.zero_lt_of_lt h)
  obtain ⟨hfull, -⟩ := significand_bounds hl0 hl
  rw [nearestBinary_natural hl0 hl]
  by_cases hk0 : k = 0
  · rw [hk0, nearestBinary_zero]
    omega
  · obtain ⟨-, hfits⟩ := significand_bounds hk0 (h.trans hl)
    rw [nearestBinary_natural hk0 (h.trans hl)]
    have hle : k.log2 ≤ l.log2 := (Nat.le_log2 hl0).mpr ((Nat.log2_self_le hk0).trans h.le)
    rcases hle.lt_or_eq with hlt | heq
    · -- the higher place of the first bit counts for more than all bits below
      calc (k.log2 + 1022) * 2 ^ 52 + k * 2 ^ (52 - k.log2) < (k.log2 + 1022) * 2 ^ 52 + 2 ^ 53 :=
            Nat.add_lt_add_left hfits _
        _ = (k.log2 + 1 + 1022) * 2 ^ 52 + 2 ^ 52 := by omega
        _ ≤ (l.log2 + 1022) * 2 ^ 52 + l * 2 ^ (52 - l.log2) :=
            Nat.add_le_add (Nat.mul_le_mul_right _ (by omega)) hfull
    · rw [heq]
      exact Nat.add_lt_add_left (Nat.mul_lt_mul_of_pos_right h (Nat.two_pow_pos _)) _

namespace Binary64

theorem rank_ofInt (n : Int) : (ofInt n).rank =
    if n < 0 then -(double.nearestBinary n.natAbs 0 : Int) - 1
    else (double.nearestBinary n.natAbs 0 : Int) := by
  have hinfinity : double.infinity < signBit := by decide
  have hcode := (nearestBinary_le double n.natAbs 0).trans_lt hinfinity
  unfold rank ofInt ofBinary
  rw [negative_ofParts _ hcode, code_ofParts _ hcode]
  simp only [decide_eq_true_eq]

/-- Integers of 53 bits stand in the total order as they do among the integers. -/
theorem rank_ofInt_lt {m n : Int} (h : m < n) (hm : m.natAbs < 2 ^ 53) (hn : n.natAbs < 2 ^ 53) :
    (ofInt m).rank < (ofInt n).rank := by
  rw [rank_ofInt, rank_ofInt]
  by_cases hneg : n < 0
  · have hcode := nearestBinary_lt (k := n.natAbs) (l := m.natAbs) (by omega) hm
    rw [if_pos hneg, if_pos (h.trans hneg)]
    omega
  · rw [if_neg hneg]
    split
    · omega
    · have hcode := nearestBinary_lt (k := m.natAbs) (l := n.natAbs) (by omega) hn
      omega

theorem totalCompare_ofInt {m n : Int} (hm : m.natAbs < 2 ^ 53) (hn : n.natAbs < 2 ^ 53) :
    (ofInt m).totalCompare (ofInt n) = compare m n := by
  unfold totalCompare
  rcases lt_trichotomy m n with hlt | rfl | hgt
  · rw [compare_lt_iff_lt.mpr hlt, compare_lt_iff_lt.mpr (rank_ofInt_lt hlt hm hn)]
  · rw [compare_eq_iff_eq.mpr rfl, compare_eq_iff_eq.mpr rfl]
  · rw [compare_gt_iff_gt.mpr hgt, compare_gt_iff_gt.mpr (rank_ofInt_lt hgt hn hm)]

end Binary64

end SqlStore
