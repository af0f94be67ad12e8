import Mathlib.Algebra.Order.Field.Power
import Mathlib.Tactic.FieldSimp
import Mathlib.Tactic.Linarith
import Mathlib.Tactic.Ring
import SqlStore.Binary.Format

/-!
# Numbers that a format has exactly

Every code stands for one pair of a significand and an exponent in normal form
(`BinaryFormat.Normal`), and rounding a rational that has such a pair gives back its code. So rounding
changes nothing that a format can represent.
-/

namespace SqlStore

theorem cast_pow2 (n : Nat) : ((pow2 n : Nat) : ℚ) = 2 ^ n := by
  show ((2 ^ n : Nat) : ℚ) = 2 ^ n
  push_cast
  rfl

theorem roundHalfEven_mul {m d : Nat} (hd : 0 < d) : roundHalfEven (m * d) d = m := by
  unfold roundHalfEven
  rw [Nat.mul_div_cancel m hd, Nat.mul_mod_left]
  have hpositive : ¬ (0 = d) := by omega
  simp [hpositive]

namespace BinaryFormat

variable {f : BinaryFormat}

/-- A significand and an exponent as a code of the format has them: the significand fits, and it is
short only at the least exponent. -/
structure Normal (f : BinaryFormat) (m : Nat) (q : Int) : Prop where
  least_le : f.leastExponent ≤ q
  lt : m < pow2 (f.fractionBits + 1)
  short : pow2 f.fractionBits ≤ m ∨ q = f.leastExponent

/-- The code of a significand and an exponent. -/
def encode (f : BinaryFormat) (m : Nat) (q : Int) : Nat :=
  (q - f.leastExponent).toNat * pow2 f.fractionBits + m

theorem normal_decode (code : Nat) : f.Normal (f.decode code).1 (f.decode code).2 := by
  have hpos := pow2_pos f.fractionBits
  have hlt := Nat.mod_lt code hpos
  have hsucc := pow2_succ f.fractionBits
  unfold decode
  dsimp only
  split
  · exact ⟨le_rfl, by dsimp only; omega, Or.inr rfl⟩
  · next h =>
    have hexponent : code / pow2 f.fractionBits ≠ 0 := by simpa using h
    obtain ⟨e, he⟩ := Nat.exists_eq_succ_of_ne_zero hexponent
    rw [he]
    refine ⟨by dsimp only; omega, by dsimp only; omega, Or.inl ?_⟩
    exact Nat.le_add_left _ _

theorem encode_decode (code : Nat) : f.encode (f.decode code).1 (f.decode code).2 = code := by
  have hdiv := Nat.div_add_mod code (pow2 f.fractionBits)
  unfold encode decode
  dsimp only
  split
  · next h =>
    have hexponent : code / pow2 f.fractionBits = 0 := by simpa using h
    rw [hexponent, Nat.mul_zero] at hdiv
    simpa using hdiv
  · next h =>
    have hexponent : code / pow2 f.fractionBits ≠ 0 := by simpa using h
    have hplace : (f.leastExponent + ((code / pow2 f.fractionBits : Nat) : Int) - 1 -
        f.leastExponent).toNat = code / pow2 f.fractionBits - 1 := by omega
    dsimp only
    rw [hplace]
    obtain ⟨e, he⟩ := Nat.exists_eq_succ_of_ne_zero hexponent
    rw [he] at hdiv ⊢
    rw [Nat.succ_sub_one, Nat.mul_comm, ← Nat.add_assoc, Nat.add_right_comm, ← Nat.mul_succ]
    exact hdiv

/-- A full significand comes back from its code. -/
theorem decode_encode {m : Nat} {q : Int} (h : f.Normal m q) (hfull : pow2 f.fractionBits ≤ m) :
    f.decode (f.encode m q) = (m, q) := by
  have hpos := pow2_pos f.fractionBits
  obtain ⟨r, rfl⟩ := Nat.exists_eq_add_of_le hfull
  have hr : r < pow2 f.fractionBits := by
    have hlt := h.lt
    rw [pow2_succ] at hlt
    omega
  obtain ⟨e, he⟩ := Int.eq_ofNat_of_zero_le (Int.sub_nonneg_of_le h.least_le)
  have hcode : f.encode (pow2 f.fractionBits + r) q = r + pow2 f.fractionBits * (e + 1) := by
    unfold encode
    rw [he, Int.toNat_natCast, Nat.mul_succ, Nat.mul_comm]
    omega
  unfold decode
  rw [hcode, Nat.add_mul_div_left _ _ hpos, Nat.div_eq_of_lt hr, Nat.add_mul_mod_self_left,
    Nat.mod_eq_of_lt hr]
  dsimp only
  rw [if_neg (by simp)]
  refine Prod.ext (Nat.add_comm _ _) ?_
  dsimp only
  omega

/-! ## Rounding -/

section

variable {num den : Nat}

/-- Scaling divides by a power of two. -/
theorem scaled_ratio (hden : 0 < den) (q : Int) :
    0 < (scaled num den q).2 ∧
      ((scaled num den q).1 : ℚ) / (scaled num den q).2 = num / den * (2 : ℚ) ^ (-q) := by
  have htwo : (2 : ℚ) ≠ 0 := by norm_num
  have hden' : (den : ℚ) ≠ 0 := by
    have := hden.ne'
    exact_mod_cast this
  unfold scaled
  split
  · next h =>
    refine ⟨hden, ?_⟩
    have hq : -q = (q.natAbs : Int) := by omega
    dsimp only
    rw [hq, zpow_natCast, Nat.cast_mul, cast_pow2]
    ring
  · next h =>
    refine ⟨Nat.mul_pos hden (pow2_pos _), ?_⟩
    have hq : q = (q.natAbs : Int) := by omega
    have hneg : (2 : ℚ) ^ (-q) = ((2 : ℚ) ^ q.natAbs)⁻¹ := by
      rw [zpow_neg]
      congr 1
      conv_lhs => rw [hq]
      rw [zpow_natCast]
    dsimp only
    rw [hneg, Nat.cast_mul, cast_pow2]
    field_simp

/-- The quotient of naturals is below a power of two just if the rational is. -/
theorem div_lt_pow2_iff {n d k : Nat} (hd : 0 < d) :
    n / d < pow2 k ↔ (n : ℚ) / d < 2 ^ k := by
  have hd' : (0 : ℚ) < d := by exact_mod_cast hd
  rw [Nat.div_lt_iff_lt_mul hd, div_lt_iff₀ hd', ← cast_pow2]
  exact_mod_cast Iff.rfl

/-- The logarithms of numerator and denominator tell the exponent of the quotient up to one. -/
theorem log2_ratio (hnum : num ≠ 0) (hden : 0 < den) :
    (2 : ℚ) ^ ((num.log2 : Int) - den.log2 - 1) < num / den ∧
      (num : ℚ) / den < 2 ^ ((num.log2 : Int) - den.log2 + 1) := by
  have htwo : (2 : ℚ) ≠ 0 := by norm_num
  have hden' : (0 : ℚ) < den := by exact_mod_cast hden
  have hnlow : (2 : ℚ) ^ num.log2 ≤ num := by exact_mod_cast Nat.log2_self_le hnum
  have hnhigh : (num : ℚ) < 2 ^ (num.log2 + 1) := by exact_mod_cast Nat.lt_log2_self
  have hdlow : (2 : ℚ) ^ den.log2 ≤ den := by exact_mod_cast Nat.log2_self_le hden.ne'
  have hdhigh : (den : ℚ) < 2 ^ (den.log2 + 1) := by exact_mod_cast Nat.lt_log2_self
  constructor
  · rw [lt_div_iff₀ hden', sub_sub, zpow_sub₀ htwo, zpow_natCast]
    have hpow : (2 : ℚ) ^ ((den.log2 : Int) + 1) = 2 ^ (den.log2 + 1) := by
      exact_mod_cast rfl
    rw [hpow, div_mul_eq_mul_div, div_lt_iff₀ (by positivity)]
    calc (2 : ℚ) ^ num.log2 * den < 2 ^ num.log2 * 2 ^ (den.log2 + 1) := by gcongr
      _ ≤ num * 2 ^ (den.log2 + 1) := by gcongr
  · rw [div_lt_iff₀ hden', sub_add_eq_add_sub, zpow_sub₀ htwo, zpow_natCast]
    have hpow : (2 : ℚ) ^ ((num.log2 : Int) + 1) = 2 ^ (num.log2 + 1) := by
      exact_mod_cast rfl
    rw [hpow, div_mul_eq_mul_div, lt_div_iff₀ (by positivity)]
    calc (num : ℚ) * 2 ^ den.log2 < 2 ^ (num.log2 + 1) * 2 ^ den.log2 := by gcongr
      _ ≤ 2 ^ (num.log2 + 1) * den := by gcongr

/-- The exponent that rounding tries first. -/
def firstGuess (f : BinaryFormat) (num den : Nat) : Int :=
  max ((num.log2 : Int) - den.log2 - 1 - f.fractionBits) f.leastExponent

section

variable {m : Nat} {q : Int}

/-- The first guess at the exponent of a number in normal form is right, or too small by one. -/
theorem firstGuess_of_normal (hnum : num ≠ 0) (hden : 0 < den)
    (hvalue : (num : ℚ) / den = m * 2 ^ q) (h : f.Normal m q) :
    q = f.firstGuess num den ∨ q = f.firstGuess num den + 1 ∧ pow2 f.fractionBits ≤ m := by
  have htwo : (1 : ℚ) < 2 := by norm_num
  obtain ⟨hlow, hhigh⟩ := log2_ratio hnum hden
  have hle : f.firstGuess num den ≤ q := by
    have hbelow : (num : ℚ) / den < 2 ^ ((f.fractionBits : Int) + 1 + q) := by
      have hm : (m : ℚ) < 2 ^ (f.fractionBits + 1) := by
        rw [← cast_pow2]
        exact_mod_cast h.lt
      rw [hvalue, zpow_add₀ (by norm_num)]
      have hcast : (2 : ℚ) ^ ((f.fractionBits : Int) + 1) = 2 ^ (f.fractionBits + 1) := by
        exact_mod_cast rfl
      rw [hcast]
      gcongr
    have hexponents := (zpow_lt_zpow_iff_right₀ htwo).mp (hlow.trans hbelow)
    have hleast := h.least_le
    unfold firstGuess
    omega
  unfold firstGuess at *
  rcases h.short with hfull | hleast
  · -- a full significand bounds the ratio from below as well
    have habove : (2 : ℚ) ^ ((f.fractionBits : Int) + q) ≤ num / den := by
      have hm : (2 : ℚ) ^ f.fractionBits ≤ m := by
        rw [← cast_pow2]
        exact_mod_cast hfull
      rw [hvalue, zpow_add₀ (by norm_num), zpow_natCast]
      gcongr
    have hexponents := (zpow_lt_zpow_iff_right₀ htwo).mp (habove.trans_lt hhigh)
    omega
  · left
    omega

/-- Scaled by a power of two, the ratio of a number in normal form is its significand times the
power of two that is left. -/
theorem scaled_ratio_of_normal (hden : 0 < den) (hvalue : (num : ℚ) / den = m * 2 ^ q) (p : Int) :
    ((scaled num den p).1 : ℚ) / (scaled num den p).2 = m * 2 ^ (q - p) := by
  rw [(scaled_ratio hden p).2, hvalue, mul_assoc, ← zpow_add₀ (by norm_num), sub_eq_add_neg]

/-- The second look at the exponent finds it. -/
theorem exponent_of_normal (hnum : num ≠ 0) (hden : 0 < den)
    (hvalue : (num : ℚ) / den = m * 2 ^ q) (h : f.Normal m q) :
    (if (scaled num den (f.firstGuess num den)).1 / (scaled num den (f.firstGuess num den)).2 <
      pow2 (f.fractionBits + 1) then f.firstGuess num den else f.firstGuess num den + 1) = q := by
  have hnext := firstGuess_of_normal hnum hden hvalue h
  generalize f.firstGuess num den = guess at *
  have hratio := scaled_ratio_of_normal hden hvalue guess
  have hpos : 0 < (scaled num den guess).2 := (scaled_ratio hden guess).1
  rcases hnext with heq | ⟨heq, hfull⟩
  · have hfits : (scaled num den guess).1 / (scaled num den guess).2 <
        pow2 (f.fractionBits + 1) := by
      rw [div_lt_pow2_iff hpos, hratio, heq, sub_self, zpow_zero, mul_one, ← cast_pow2]
      exact_mod_cast h.lt
    rw [if_pos hfits, heq]
  · have hover : ¬ (scaled num den guess).1 / (scaled num den guess).2 <
        pow2 (f.fractionBits + 1) := by
      have hone : q - guess = 1 := by omega
      have hdouble : 2 * pow2 f.fractionBits ≤ m * 2 := by omega
      rw [div_lt_pow2_iff hpos, hratio, hone, zpow_one, ← cast_pow2, pow2_succ]
      exact not_lt.mpr (by exact_mod_cast hdouble)
    rw [if_neg hover, heq]

/-- At the right exponent nothing is rounded away. -/
theorem round_of_normal (hden : 0 < den) (hvalue : (num : ℚ) / den = m * 2 ^ q) :
    roundHalfEven (scaled num den q).1 (scaled num den q).2 = m := by
  have hpos : 0 < (scaled num den q).2 := (scaled_ratio hden q).1
  have hpos' : ((scaled num den q).2 : ℚ) ≠ 0 := by exact_mod_cast hpos.ne'
  have heq := scaled_ratio_of_normal hden hvalue q
  rw [sub_self, zpow_zero, mul_one, div_eq_iff hpos'] at heq
  have hnat : (scaled num den q).1 = m * (scaled num den q).2 := by exact_mod_cast heq
  rw [hnat]
  exact roundHalfEven_mul hpos

/-- Rounding a number in normal form gives its code, or infinity where that is less. -/
theorem nearest_of_normal (hnum : num ≠ 0) (hden : 0 < den)
    (hvalue : (num : ℚ) / den = m * 2 ^ q) (h : f.Normal m q) :
    f.nearest num den = min f.infinity (f.encode m q) := by
  have hexponent := exponent_of_normal hnum hden hvalue h
  unfold firstGuess at hexponent
  unfold nearest encode
  rw [if_neg (by simpa using hnum)]
  dsimp only
  rw [hexponent, round_of_normal hden hvalue]

end

theorem nearestBinary_of_normal {n m : Nat} {p q : Int} (hn : n ≠ 0)
    (hvalue : (n : ℚ) * 2 ^ p = m * 2 ^ q) (h : f.Normal m q) :
    f.nearestBinary n p = min f.infinity (f.encode m q) := by
  unfold nearestBinary
  split
  · refine nearest_of_normal hn (pow2_pos _) ?_ h
    rw [← hvalue, cast_pow2, div_eq_mul_inv]
    congr 1
    have hp : p = -(p.natAbs : Int) := by omega
    conv_rhs => rw [hp]
    rw [zpow_neg, zpow_natCast]
  · have hpow := pow2_pos p.natAbs
    refine nearest_of_normal (Nat.mul_ne_zero hn hpow.ne') Nat.one_pos ?_ h
    rw [← hvalue, Nat.cast_one, div_one, Nat.cast_mul, cast_pow2]
    congr 1
    have hp : p = (p.natAbs : Int) := by omega
    conv_rhs => rw [hp]
    rw [zpow_natCast]

theorem nearestBinary_zero (p : Int) : f.nearestBinary 0 p = 0 := by
  unfold nearestBinary nearest
  split <;> simp

end

end BinaryFormat

end SqlStore
