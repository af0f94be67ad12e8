import SqlStore.Binary.Text
import SqlStore.Proofs.Binary.Error
import SqlStore.Proofs.Numeric.Text

/-!
# Reading floating-point numbers

Digits with an optional point are read as the floating-point number nearest to what they spell. So an
integer of 53 bits is read exactly, and any other number with an error that is known.
-/

namespace SqlStore

open Text

theorem cast_pow10 (n : Nat) : ((pow10 n : Nat) : ℚ) = 10 ^ n := by
  show ((10 ^ n : Nat) : ℚ) = 10 ^ n
  push_cast
  rfl

/-- The digits behind a point, which is only there in front of some. -/
def pointed (places : List Char) : List Char := if places = [] then [] else '.' :: places

/-- Digits are read up to the last one. -/
theorem Numeral.read?_pointed {whole places : List Char} (hne : whole ≠ [])
    (hwhole : whole.all Char.isDigit = true) (hplaces : places.all Char.isDigit = true) :
    Numeral.read? (whole ++ pointed places) = some ⟨natOfDigits (whole ++ places),
      (whole ++ places).length, -(places.length : Int)⟩ := by
  have hwhole' := List.all_eq_true.mp hwhole
  have hplaces' := List.all_eq_true.mp hplaces
  have hstop : (pointed places).takeWhile Char.isDigit = [] ∧
      (pointed places).dropWhile Char.isDigit = pointed places := by
    unfold pointed
    split <;> exact ⟨rfl, rfl⟩
  have htake : (whole ++ pointed places).takeWhile Char.isDigit = whole := by
    rw [List.takeWhile_append_of_pos hwhole', hstop.1, List.append_nil]
  have hdrop : (whole ++ pointed places).dropWhile Char.isDigit = pointed places := by
    rw [List.dropWhile_append_of_pos hwhole', hstop.2]
  unfold Numeral.read?
  rw [htake, hdrop]
  unfold pointed
  by_cases hnone : places = []
  · rw [if_pos hnone, hnone]
    simp [hne]
  · have hself := List.takeWhile_eq_self_iff.mpr hplaces'
    have hnil := List.dropWhile_eq_nil_iff.mpr hplaces'
    rw [if_neg hnone]
    simp [hself, hnil, hne]

/-- A numeral of a few places is rounded once. -/
theorem BinaryFormat.exists_nearestDecimal_eq (f : BinaryFormat) (m : Nat) {width places : Nat}
    (h : places ≤ width) : ∃ num den, 0 < den ∧
      f.nearestDecimal m width (-(places : Int)) = f.nearest num den ∧
      (num : ℚ) / den = m / 10 ^ places := by
  by_cases hm : m = 0
  · refine ⟨0, 1, Nat.one_pos, ?_, by rw [hm, Nat.cast_zero, zero_div, zero_div]⟩
    rw [hm]
    rfl
  · unfold nearestDecimal
    rw [if_neg (by simpa using hm), if_neg (by omega), if_neg (by omega), Int.natAbs_neg,
      Int.natAbs_natCast, ← cast_pow10]
    split
    · exact ⟨m, _, pow10_pos _, rfl, rfl⟩
    · next hplaces =>
      obtain rfl : places = 0 := by omega
      exact ⟨m * pow10 0, 1, Nat.one_pos, rfl, by simp [pow10]⟩

namespace Binary64

open BinaryFormat

theorem toLower_of_isDigit {c : Char} (h : c.isDigit = true) : c.toLower = c := by
  have hle : c.val.toNat ≤ 57 := by
    simp only [Char.isDigit, Bool.and_eq_true, decide_eq_true_eq] at h
    exact h.2
  have hsmall : ¬ (c.val ≥ 'A'.val ∧ c.val ≤ 'Z'.val) := fun hcapital => by
    have hge : 65 ≤ c.val.toNat := hcapital.1
    omega
  unfold Char.toLower
  rw [dif_neg hsmall]

/-- What begins with a digit is not a word. -/
theorem magnitude?_of_digit {c : Char} {cs : List Char} (hc : c.isDigit = true) :
    magnitude? (c :: cs) = (Numeral.read? (c :: cs)).map fun n =>
      double.nearestDecimal n.mantissa n.width n.exponent := by
  have hword {d : Char} {ds : List Char} (hd : d.isDigit = false) :
      String.ofList (c :: cs) ≠ String.ofList (d :: ds) := by
    intro heq
    obtain ⟨rfl, -⟩ := List.cons.inj (String.ofList_injective heq)
    rw [hc] at hd
    cases hd
  unfold magnitude?
  split
  · next heq => exact absurd heq (hword (by decide))
  · next heq => exact absurd heq (hword (by decide))
  · next heq => exact absurd heq (hword (by decide))
  · rfl

/-- Digits with an optional point and an optional sign are read as the number nearest to what they spell. -/
theorem parse?_pointed (negative : Bool) {whole places : List Char} (hne : whole ≠ [])
    (hwhole : whole.all Char.isDigit = true) (hplaces : places.all Char.isDigit = true) :
    ∃ num den, 0 < den ∧
      parse? (String.ofList (Numeric.sign negative ++ (whole ++ pointed places))) =
        some (ofParts negative (double.nearest num den)) ∧
      (num : ℚ) / den = (natOfDigits (whole ++ places) : Nat) / 10 ^ places.length := by
  obtain ⟨num, den, hden, hnearest, hvalue⟩ := exists_nearestDecimal_eq double
    (natOfDigits (whole ++ places)) (show places.length ≤ (whole ++ places).length by simp)
  refine ⟨num, den, hden, ?_, hvalue⟩
  have hlower : (whole ++ pointed places).map Char.toLower = whole ++ pointed places := by
    refine (List.map_congr_left fun c hc => ?_).trans (List.map_id _)
    rcases List.mem_append.mp hc with hc | hc
    · exact toLower_of_isDigit (List.all_eq_true.mp hwhole c hc)
    · unfold pointed at hc
      split at hc
      · cases hc
      · rcases List.mem_cons.mp hc with rfl | hc
        · rfl
        · exact toLower_of_isDigit (List.all_eq_true.mp hplaces c hc)
  have hread := Numeral.read?_pointed hne hwhole hplaces
  obtain ⟨c, cs, rfl⟩ := List.exists_cons_of_ne_nil hne
  have hc := List.all_eq_true.mp hwhole c List.mem_cons_self
  have hmagnitude : magnitude? (c :: cs ++ pointed places) = some (double.nearest num den) := by
    rw [List.cons_append, magnitude?_of_digit hc, ← List.cons_append, hread, Option.map_some, hnearest]
  unfold parse?
  rw [String.toList_ofList, List.map_append, hlower]
  cases negative with
  | true => exact congrArg (Option.map (ofParts true)) hmagnitude
  | false =>
    have hunsigned : (Numeric.sign false).map Char.toLower ++ (c :: cs ++ pointed places) =
        c :: (cs ++ pointed places) := rfl
    rw [hunsigned]
    -- a digit is neither of the signs
    split
    · next heq =>
      obtain ⟨rfl, -⟩ := List.cons.inj heq
      cases hc
    · next heq =>
      obtain ⟨rfl, -⟩ := List.cons.inj heq
      cases hc
    · exact congrArg (Option.map (ofParts false)) hmagnitude

/-- An integer of 53 bits is read exactly. -/
theorem parse?_showInt {n : Int} (hn : n.natAbs < 2 ^ 53) :
    ∃ x, parse? (showInt n) = some x ∧ x.isFinite = true ∧ x.toRat = n := by
  have htext : showInt n =
      String.ofList (Numeric.sign (decide (n < 0)) ++ (digits n.natAbs ++ pointed [])) := by
    rw [← String.ofList_toList (s := showInt n), toList_showInt, show pointed [] = [] from rfl,
      List.append_nil]
  obtain ⟨num, den, hden, hparse, hvalue⟩ := parse?_pointed (decide (n < 0)) (digits_ne_nil n.natAbs)
    (all_digits n.natAbs) (show ([] : List Char).all Char.isDigit = true from rfl)
  rw [List.append_nil, natOfDigits_digits, List.length_nil, pow_zero, div_one] at hvalue
  obtain ⟨hfinite, hexact⟩ := ofNearest_natural (decide (n < 0)) hden hn hvalue
  exact ⟨_, by rw [htext, hparse], hfinite, hexact.trans (signedValue_self n)⟩

end Binary64

end SqlStore
