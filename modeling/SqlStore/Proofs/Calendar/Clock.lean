import SqlStore.Calendar.Interval
import SqlStore.Proofs.Binary.Numerals
import SqlStore.Proofs.Calendar.Reading
import SqlStore.Proofs.Hexadecimal
import SqlStore.Proofs.Value.Integers

/-!
# The clock form of intervals

Hours, minutes and seconds are read back from the clock form that they are written in. The seconds are read
as a floating-point number and multiplied: two roundings, which together are too small to reach another
number of microseconds. The sign is read last, so that the time of the other sign has to fit as well.
-/

namespace SqlStore

open Text Binary64

namespace Interval

/-! ## Places -/

/-- The decimal places of a number of microseconds below one second, without zeros at the end. -/
def places (n : Nat) : List Char := ((padded 6 n).reverse.dropWhile (· == '0')).reverse

/-- Only zeros are left out. -/
theorem padded_eq_places (n : Nat) : ∃ k, padded 6 n = places n ++ List.replicate k '0' := by
  have hsplit := List.takeWhile_append_dropWhile (p := (· == '0')) (l := (padded 6 n).reverse)
  have hzeros : ∀ c ∈ (padded 6 n).reverse.takeWhile (· == '0'), c = '0' := fun c hc => by
    simpa using List.mem_takeWhile_imp (p := (· == '0')) hc
  generalize (padded 6 n).reverse.takeWhile (· == '0') = zeros at hsplit hzeros
  refine ⟨zeros.length, ?_⟩
  calc padded 6 n = (zeros ++ (padded 6 n).reverse.dropWhile (· == '0')).reverse := by
        rw [hsplit, List.reverse_reverse]
    _ = places n ++ zeros.reverse := List.reverse_append
    _ = places n ++ List.replicate zeros.length '0' := by
        rw [List.eq_replicate_of_mem hzeros, List.reverse_replicate, List.length_replicate]

theorem all_places (n : Nat) : (places n).all Char.isDigit = true := by
  obtain ⟨k, hk⟩ := padded_eq_places n
  have hall := all_padded 6 n
  rw [hk, List.all_append, Bool.and_eq_true] at hall
  exact hall.1

theorem spelled_replicate (n k : Nat) : spelled n (List.replicate k '0') = n * pow10 k := by
  induction k generalizing n with
  | zero => exact (Nat.mul_one n).symm
  | succ k ih =>
    have hzero : digitValue '0' = 0 := by decide
    rw [List.replicate_succ, spelled_cons, ih, hzero, pow10_succ]
    ring

/-- The places stand for the number of microseconds as a part of a second. -/
theorem spelled_places {n : Nat} (hn : n < 1000000) :
    (spelled 0 (places n) : ℚ) / 10 ^ (places n).length = n / 1000000 := by
  obtain ⟨k, hk⟩ := padded_eq_places n
  have hlength : (places n).length + k = 6 := by
    have hsix := length_padded (show 0 < 6 by decide) hn
    rw [hk, List.length_append, List.length_replicate] at hsix
    exact hsix
  have hspelled : n = spelled 0 (places n) * pow10 k := by
    conv_lhs => rw [← natOfDigits_padded 6 n, hk, natOfDigits_eq, spelled_append, spelled_replicate]
  have hpower : (10 : ℚ) ^ (places n).length * 10 ^ k = 1000000 := by
    rw [← pow_add, hlength]
    norm_num
  have hspelled' : (n : ℚ) = spelled 0 (places n) * 10 ^ k := by
    rw [← cast_pow10]
    exact_mod_cast hspelled
  rw [hspelled', ← hpower]
  field_simp

/-- There are places unless the number is zero. -/
theorem places_eq_nil_iff {n : Nat} (hn : n < 1000000) : places n = [] ↔ n = 0 := by
  constructor
  · intro hnil
    have hvalue := spelled_places hn
    rw [hnil, show spelled 0 [] = 0 from rfl, Nat.cast_zero, zero_div, eq_comm,
      div_eq_zero_iff] at hvalue
    exact_mod_cast hvalue.resolve_right (by norm_num)
  · rintro rfl
    rfl

/-! ## Seconds -/

theorem whole?_of_toRat {x : Binary64} {n : Int} (hfinite : x.isFinite = true) (h : x.toRat = n) :
    whole? x = some n := by
  unfold whole?
  rw [if_pos hfinite, truncate_of_toRat h]

/-- Seconds with places are read with a small error. -/
theorem exists_parse?_seconds {s n : Nat} (hs : s < 60) (hn : n < 1000000) :
    ∃ x, parse? (String.ofList (padded 2 s ++ pointed (places n))) = some x ∧ x.isFinite = true ∧
      |x.toRat - ((s * 1000000 + n : Nat) : ℚ) / 1000000| ≤ 2 ^ (-48 : Int) := by
  obtain ⟨num, den, hden, hparse, hvalue⟩ := parse?_pointed false (padded_ne_nil 2 s) (all_padded 2 s)
    (all_places n)
  have hdigits : (num : ℚ) / den = ((s * 1000000 + n : Nat) : ℚ) / 1000000 := by
    rw [hvalue, natOfDigits_eq, spelled_append, ← natOfDigits_eq, natOfDigits_padded, spelled_eq,
      Nat.cast_add, Nat.cast_mul, cast_pow10, add_div, mul_div_cancel_right₀ _ (by positivity),
      spelled_places hn]
    push_cast
    ring
  have hlt : (num : ℚ) / den < 2 ^ (6 : Int) := by
    have hsmall : ((s * 1000000 + n : Nat) : ℚ) < 60000000 := by exact_mod_cast (by omega)
    rw [hdigits, div_lt_iff₀ (by norm_num)]
    exact hsmall.trans (by norm_num)
  obtain ⟨hfinite, herror⟩ := ofNearest_error false hden (by decide) (by decide) hlt
  exact ⟨_, hparse, hfinite, hdigits ▸ herror⟩

/-- Multiplied, they are rounded to the number of microseconds. -/
theorem whole?_seconds {x : Binary64} {k : Nat} (hk : k < 60000000) (hfinite : x.isFinite = true)
    (herror : |x.toRat - (k : ℚ) / 1000000| ≤ 2 ^ (-48 : Int)) :
    whole? (mul x (ofInt microsPerSecond)).round = some (k : Int) := by
  obtain ⟨hunit, hvalue⟩ := ofInt_exact (n := microsPerSecond) (by decide)
  have hk' : (k : ℚ) < 60000000 := by exact_mod_cast hk
  have hk0 : (0 : ℚ) ≤ k := by positivity
  have hproduct : |x.toRat * (ofInt microsPerSecond).toRat - k| ≤ 1000000 * 2 ^ (-48 : Int) := by
    have hscale : x.toRat * (ofInt microsPerSecond).toRat - k =
        1000000 * (x.toRat - (k : ℚ) / 1000000) := by
      rw [hvalue, show ((microsPerSecond : Int) : ℚ) = 1000000 by norm_num [microsPerSecond]]
      ring
    rw [hscale, abs_mul, abs_of_pos (by norm_num)]
    gcongr
  have hbound : |x.toRat * (ofInt microsPerSecond).toRat| < 2 ^ (26 : Int) := by
    obtain ⟨hlow, hhigh⟩ := abs_le.mp hproduct
    rw [abs_lt]
    norm_num at hlow hhigh ⊢
    constructor <;> linarith
  obtain ⟨hmul, hrounding⟩ := mul_error hfinite hunit (e := 26) (by decide) (by decide) hbound
  have hnear : |(mul x (ofInt microsPerSecond)).toRat - ((k : Int) : ℚ)| < 1 / 2 := by
    have htriangle := abs_sub_le (mul x (ofInt microsPerSecond)).toRat
      (x.toRat * (ofInt microsPerSecond).toRat) k
    rw [Int.cast_natCast]
    norm_num at hrounding hproduct ⊢
    linarith
  obtain ⟨hround, hinteger⟩ := round_exact hmul (by omega) (nearestInteger_eq_iff.mpr (.inl hnear))
  exact whole?_of_toRat hround hinteger

/-! ## The clock form -/

/-- The text with its parts named. -/
theorem toList_clockText (n : Int) : (clockText n).toList = Numeric.sign (decide (n < 0)) ++
    (padded 2 (n.natAbs / 1000000 / 3600) ++ ':' :: (padded 2 (n.natAbs / 1000000 / 60 % 60) ++
      ':' :: (padded 2 (n.natAbs / 1000000 % 60) ++ pointed (places (n.natAbs % 1000000))))) := by
  have hplaces : pointed (places (n.natAbs % 1000000)) =
      if n.natAbs % 1000000 == 0 then [] else '.' :: places (n.natAbs % 1000000) := by
    have hnil := places_eq_nil_iff (Nat.mod_lt n.natAbs (by decide : 0 < 1000000))
    unfold pointed
    by_cases hzero : n.natAbs % 1000000 = 0
    · rw [if_pos (hnil.mpr hzero), if_pos (by simpa using hzero)]
    · rw [if_neg (mt hnil.mp hzero), if_neg (by simpa using hzero)]
  rw [hplaces]
  unfold clockText Numeric.sign
  rw [String.toList_ofList]
  simp only [List.append_assoc, List.cons_append, decide_eq_true_eq]
  rfl

theorem colon_notMem {ds : List Char} (h : ds.all Char.isDigit = true) : ':' ∉ ds := fun hmem =>
  absurd (List.all_eq_true.mp h _ hmem) (by decide)

theorem exists_int64? {n : Int} (h : DataType.bigInt.holds n = true) :
    ∃ w, int64? n = some w ∧ w.toInt = n := by
  have hword : int64? n = some (Int64.ofInt n) := by rw [int64?_eq, if_pos h]
  exact ⟨_, hword, toInt_of_int64? hword⟩

theorem mem_pointed {ds : List Char} {c : Char} (h : c ∈ pointed ds) : c = '.' ∨ c ∈ ds := by
  unfold pointed at h
  split at h
  · cases h
  · exact List.mem_cons.mp h

/-- There are digits and three marks in the text. -/
theorem mem_clockText {n : Int} {c : Char} (h : c ∈ (clockText n).toList) :
    c ∈ ['-', ':', '.'] ∨ c.isDigit = true := by
  have hpadded {width k : Nat} (hc : c ∈ padded width k) : c.isDigit = true :=
    List.all_eq_true.mp (all_padded _ _) c hc
  rw [toList_clockText] at h
  simp only [List.mem_append, List.mem_cons] at h
  rcases h with hsign | hhours | rfl | hminutes | rfl | hseconds | hplaces
  · unfold Numeric.sign at hsign
    split at hsign
    · obtain rfl := List.mem_singleton.mp hsign
      exact .inl (by decide)
    · cases hsign
  · exact .inr (hpadded hhours)
  · exact .inl (by decide)
  · exact .inr (hpadded hminutes)
  · exact .inl (by decide)
  · exact .inr (hpadded hseconds)
  · rcases mem_pointed hplaces with rfl | hdigit
    · exact .inl (by decide)
    · exact .inr (List.all_eq_true.mp (all_places _) c hdigit)

/-- A field of the clock is read as it was written. -/
theorem read_clockField {n : Nat} (hn : n < 9223372036854775808) :
    ((Text.int? (padded 2 n)).bind fun n => (int64? n).map (·.toInt)) = some (n : Int) := by
  obtain ⟨w, hw, hvalue⟩ := exists_int64? (n := n) (DataType.holds_bigInt.mpr (by omega))
  rw [int?_of_digits (padded_ne_nil 2 n) (all_padded 2 n), natOfDigits_padded, Option.bind_some, hw,
    Option.map_some, hvalue]

/-- The sign is taken off a text that goes on with a digit. -/
theorem unsigned_sign (negative : Bool) {c : Char} (hc : c.isDigit = true) (cs : List Char) :
    (match Numeric.sign negative ++ c :: cs with
      | '-' :: r => (true, r)
      | r => (false, r)) = (negative, c :: cs) := by
  cases negative with
  | true => rfl
  | false =>
    show (match c :: cs with
      | '-' :: r => (true, r)
      | r => (false, r)) = (false, c :: cs)
    split
    · next heq =>
      obtain ⟨rfl, -⟩ := List.cons.inj heq
      cases hc
    · rfl

/-- The sum of words whose first two fit: only the whole of it is left to fit, with its sign. -/
theorem sum_of_words (negative : Bool) {a b k : Int} (ha : DataType.bigInt.holds a = true)
    (hb : DataType.bigInt.holds b = true) (hk : DataType.bigInt.holds k = true)
    (hab : DataType.bigInt.holds (a + b) = true) :
    (do
      let h ← int64? a
      let m ← int64? b
      let hm ← int64? (h.toInt + m.toInt)
      let s ← (some k).bind int64?
      let all ← int64? (hm.toInt + s.toInt)
      int64? (if negative then -all.toInt else all.toInt)) =
    (int64? (a + b + k)).bind fun all => int64? (if negative then -all.toInt else all.toInt) := by
  obtain ⟨wa, hwa, hva⟩ := exists_int64? ha
  obtain ⟨wb, hwb, hvb⟩ := exists_int64? hb
  obtain ⟨wk, hwk, hvk⟩ := exists_int64? hk
  obtain ⟨wab, hwab, hvab⟩ := exists_int64? hab
  simp only [Option.bind_eq_bind, hwa, hwb, hva, hvb, hwab, hvab, hwk, hvk, Option.bind_some]

/-- Hours, minutes and seconds are added up, and the sign is put in front of the sum. -/
theorem readClock_fields (negative : Bool) {h m k : Nat} {s : List Char} {x : Binary64} (hs : ':' ∉ s)
    (hparse : parse? (String.ofList s) = some x)
    (hwhole : whole? (mul x (ofInt microsPerSecond)).round = some (k : Int))
    (hle : h * 3600000000 + m * 60000000 + k ≤ 9223372036854775808) (hk : k < 60000000) :
    readClock (Numeric.sign negative ++ (padded 2 h ++ ':' :: (padded 2 m ++ ':' :: s))) =
      if h * 3600000000 + m * 60000000 + k = 9223372036854775808 then .error .outOfRange
      else .ok (if negative then -((h * 3600000000 + m * 60000000 + k : Nat) : Int)
        else (h * 3600000000 + m * 60000000 + k : Nat)) := by
  have hsplit : split ':' (padded 2 h ++ ':' :: (padded 2 m ++ ':' :: s)) = [padded 2 h, padded 2 m, s] := by
    rw [split_append (colon_notMem (all_padded 2 h)), split_append (colon_notMem (all_padded 2 m)),
      split_self hs]
  have hhours := read_clockField (n := h) (by omega)
  have hmins := read_clockField (n := m) (by omega)
  obtain ⟨c, cs, hcs⟩ := List.exists_cons_of_ne_nil (padded_ne_nil 2 h)
  have hc : c.isDigit = true := List.all_eq_true.mp (all_padded 2 h) c (hcs ▸ List.mem_cons_self)
  have hsign := unsigned_sign negative hc (cs ++ ':' :: (padded 2 m ++ ':' :: s))
  rw [← List.cons_append, ← hcs] at hsign
  unfold readClock
  split
  next negative' body heq =>
  obtain ⟨rfl, rfl⟩ := Prod.mk.inj (heq.symm.trans hsign)
  dsimp only
  rw [hsplit]
  dsimp only
  -- the fields are not put in place, because the kernel would then compute with the bounds of a word
  split
  · next hours minutes seconds hhours' hmins' hparse' =>
    obtain rfl := Option.some.inj (hhours'.symm.trans hhours)
    obtain rfl := Option.some.inj (hmins'.symm.trans hmins)
    obtain rfl := Option.some.inj (hparse'.symm.trans hparse)
    have hpart : (h : Int) * microsPerHour = (h * 3600000000 : Nat) ∧
        (m : Int) * microsPerMinute = (m * 60000000 : Nat) := by
      simp only [microsPerHour, microsPerMinute, microsPerSecond]
      omega
    rw [hwhole, sum_of_words negative' (DataType.holds_bigInt.mpr (by omega))
      (DataType.holds_bigInt.mpr (by omega)) (DataType.holds_bigInt.mpr (by omega))
      (DataType.holds_bigInt.mpr (by omega)), hpart.1, hpart.2]
    have hsum : ((h * 3600000000 : Nat) : Int) + (m * 60000000 : Nat) + k =
        (h * 3600000000 + m * 60000000 + k : Nat) := by omega
    rw [hsum]
    generalize h * 3600000000 + m * 60000000 + k = total at hle
    by_cases hmost : total = 9223372036854775808
    · have hnone : int64? (total : Int) = none := if_neg (by omega)
      rw [if_pos hmost, hnone]
      rfl
    · obtain ⟨w, hw, hvalue⟩ := exists_int64? (n := total) (DataType.holds_bigInt.mpr (by omega))
      obtain ⟨v, hv, hsigned⟩ := exists_int64? (n := if negative' then -(total : Int) else total)
        (DataType.holds_bigInt.mpr (by split <;> omega))
      rw [if_neg hmost, hw, Option.bind_some, hvalue, hv]
      exact congrArg Except.ok hsigned
  · next hnone => exact absurd hparse (hnone _ _ _ hhours hmins)

/-- The clock form of the numbers of 64 bits is read back, but for the least one, which has no opposite. -/
theorem readClock_clockText {n : Int} (hn : DataType.bigInt.holds n = true) :
    readClock (clockText n).toList = if n = -2 ^ 63 then .error .outOfRange else .ok n := by
  rw [DataType.holds_bigInt] at hn
  have hplaces : n.natAbs % 1000000 < 1000000 := Nat.mod_lt _ (by decide)
  have hseconds : n.natAbs / 1000000 % 60 < 60 := Nat.mod_lt _ (by decide)
  obtain ⟨x, hparse, hfinite, herror⟩ := exists_parse?_seconds hseconds hplaces
  have hwhole := whole?_seconds (by omega) hfinite herror
  have hcolon : ':' ∉ padded 2 (n.natAbs / 1000000 % 60) ++ pointed (places (n.natAbs % 1000000)) := by
    rw [List.mem_append, not_or]
    refine ⟨colon_notMem (all_padded _ _), fun hmem => ?_⟩
    rcases mem_pointed hmem with heq | hplace
    · exact absurd heq (by decide)
    · exact colon_notMem (all_places _) hplace
  have hsum : n.natAbs / 1000000 / 3600 * 3600000000 + n.natAbs / 1000000 / 60 % 60 * 60000000 +
      (n.natAbs / 1000000 % 60 * 1000000 + n.natAbs % 1000000) = n.natAbs := by omega
  rw [toList_clockText, readClock_fields _ hcolon hparse hwhole (by omega) (by omega), hsum]
  by_cases hmost : n = -2 ^ 63
  · rw [if_pos (by omega), if_pos hmost]
  · have hsigned : (if decide (n < 0) then -(n.natAbs : Int) else n.natAbs) = n := by
      by_cases hneg : n < 0
      · rw [if_pos (decide_eq_true hneg)]
        omega
      · rw [if_neg (by simpa using hneg)]
        omega
    rw [if_neg (by omega), if_neg hmost, hsigned]

end Interval

end SqlStore
