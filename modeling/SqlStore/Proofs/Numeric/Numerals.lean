import Mathlib.Data.List.TakeWhile
import SqlStore.Proofs.Value.Form
import SqlStore.Syntax.ExprReading

/-!
# Writing and reading numerals

The digits of a number spell it, and the text of a decimal without a sign is read as that decimal. What
is read from digits with a point has places, unless its mantissa is too large for any other type of number.
-/

namespace SqlStore

namespace Text

/-- The number that digits spell behind the digits of another. -/
def spelled (n : Nat) (cs : List Char) : Nat := cs.foldl (fun n c => 10 * n + digitValue c) n

theorem natOfDigits_eq (cs : List Char) : natOfDigits cs = spelled 0 cs := rfl

theorem spelled_cons (n : Nat) (c : Char) (cs : List Char) :
    spelled n (c :: cs) = spelled (10 * n + digitValue c) cs := by
  rw [spelled, List.foldl_cons, spelled]

theorem spelled_append (n : Nat) (cs ds : List Char) :
    spelled n (cs ++ ds) = spelled (spelled n cs) ds := List.foldl_append

theorem le_spelled (n : Nat) (cs : List Char) : n ≤ spelled n cs := by
  induction cs generalizing n with
  | nil => exact Nat.le_refl n
  | cons c cs ih =>
    have := ih (10 * n + digitValue c)
    rw [spelled_cons]
    omega

/-- The digit of a number below ten. -/
def digit (n : Nat) : Char := Char.ofNat ('0'.toNat + n)

theorem digitValue_digit : ∀ {n : Nat}, n < 10 → digitValue (digit n) = n := by decide

theorem isDigit_digit : ∀ {n : Nat}, n < 10 → (digit n).isDigit = true := by decide

theorem digitValue_le {c : Char} (h : c.isDigit = true) : digitValue c ≤ 9 := by
  simp only [Char.isDigit, Bool.and_eq_true, decide_eq_true_eq] at h
  have h9 : c.toNat ≤ 57 := h.2
  simp only [digitValue, Char.reduceToNat]
  omega

theorem digitsOnto_succ (fuel n : Nat) (tail : List Char) :
    digitsOnto (fuel + 1) n tail =
      if n < 10 then digit (n % 10) :: tail else digitsOnto fuel (n / 10) (digit (n % 10) :: tail) :=
  rfl

theorem digitsOnto_eq_append (fuel n : Nat) (tail : List Char) :
    digitsOnto fuel n tail = digitsOnto fuel n [] ++ tail := by
  induction fuel generalizing n tail with
  | zero => rfl
  | succ fuel ih =>
    rw [digitsOnto_succ, digitsOnto_succ]
    split
    · rfl
    · rw [ih _ (_ :: tail), ih _ [_], List.append_assoc]
      rfl

theorem all_digitsOnto (fuel n : Nat) : (digitsOnto fuel n []).all Char.isDigit = true := by
  induction fuel generalizing n with
  | zero => rfl
  | succ fuel ih =>
    have hdigit := isDigit_digit (Nat.mod_lt n (by decide : 0 < 10))
    rw [digitsOnto_succ]
    split
    · rw [List.all_cons, hdigit, List.all_nil, Bool.and_self]
    · rw [digitsOnto_eq_append, List.all_append, ih, List.all_cons, hdigit, List.all_nil]
      rfl

theorem spelled_digitsOnto {fuel n : Nat} (h : n < 10 ^ fuel) : spelled 0 (digitsOnto fuel n []) = n := by
  induction fuel generalizing n with
  | zero =>
    rw [Nat.pow_zero] at h
    obtain rfl : n = 0 := by omega
    rfl
  | succ fuel ih =>
    have hdigit := digitValue_digit (Nat.mod_lt n (by decide : 0 < 10))
    rw [digitsOnto_succ]
    split
    · rw [spelled_cons, hdigit]
      simp only [spelled, List.foldl_nil]
      omega
    · have hlt : n / 10 < 10 ^ fuel := by
        rw [Nat.div_lt_iff_lt_mul (by decide), ← Nat.pow_succ]
        exact h
      rw [digitsOnto_eq_append, spelled_append, ih hlt, spelled_cons, hdigit]
      simp only [spelled, List.foldl_nil]
      omega

theorem all_digits (n : Nat) : (digits n).all Char.isDigit = true := all_digitsOnto _ n

theorem natOfDigits_digits (n : Nat) : natOfDigits (digits n) = n :=
  spelled_digitsOnto (Nat.lt_of_lt_of_le Nat.lt_log2_self (Nat.pow_le_pow_left (by decide) _))

theorem digits_ne_nil (n : Nat) : digits n ≠ [] := by
  unfold digits
  rw [digitsOnto_succ]
  split
  · exact List.cons_ne_nil _ _
  · rw [digitsOnto_eq_append]
    exact List.append_ne_nil_of_right_ne_nil _ (List.cons_ne_nil _ _)

theorem nat?_of_digits {cs : List Char} (hne : cs ≠ []) (h : cs.all Char.isDigit = true) :
    nat? cs = some (natOfDigits cs) := by
  unfold nat?
  rw [h, List.isEmpty_eq_false_iff.mpr hne]
  rfl

theorem nat?_digits (n : Nat) : nat? (digits n) = some n := by
  rw [nat?_of_digits (digits_ne_nil n) (all_digits n), natOfDigits_digits]

theorem showInt_natCast (n : Nat) : showInt n = String.ofList (digits n) := by
  unfold showInt
  rw [if_neg (by omega), Int.natAbs_natCast]

theorem spelled_zeros (k n : Nat) : spelled 0 (List.replicate k '0' ++ digits n) = n := by
  induction k with
  | zero => exact natOfDigits_digits n
  | succ k ih =>
    rw [List.replicate_succ, List.cons_append, spelled_cons]
    exact ih

theorem natOfDigits_padded (width n : Nat) : natOfDigits (padded width n) = n := spelled_zeros _ n

theorem all_padded (width n : Nat) : (padded width n).all Char.isDigit = true := by
  unfold padded
  rw [List.all_append, all_digits, List.all_replicate]
  split <;> rfl

theorem le_length_padded (width n : Nat) : width ≤ (padded width n).length := by
  unfold padded
  rw [List.length_append, List.length_replicate]
  omega

end Text

namespace Numeric

open Text

theorem ofMagnitude?_false {m s : Nat} (h : m < mantissaBound) :
    ofMagnitude? false m s = some ⟨false, m, s, h⟩ := by
  unfold ofMagnitude? ofParts?
  rw [dif_pos h, Bool.false_and]

theorem of_ofMagnitude?_false {m s : Nat} {d : Numeric} (h : ofMagnitude? false m s = some d) :
    d.negative = false ∧ d.mantissa = m ∧ d.scale = s := by
  unfold ofMagnitude? ofParts? at h
  split at h
  · cases h
    exact ⟨rfl, rfl, rfl⟩
  · cases h

/-! ## Reading digits -/

section

variable {negative : Bool} {m s : Nat} {hasDigit : Bool} {cs rest : List Char} {d : Numeric}

theorem readFrom_nil (point : Bool) :
    readFrom negative m s point hasDigit [] = if hasDigit then ofMagnitude? negative m s else none := by
  rw [readFrom]

theorem readFrom_whole_cons {c : Char} (hc : c.isDigit = true) :
    readFrom negative m 0 false hasDigit (c :: cs) =
      if mantissaBound ≤ 10 * m + digitValue c then none
      else readFrom negative (10 * m + digitValue c) 0 false true cs := by
  rw [readFrom, if_pos hc, Nat.mul_comm]
  rfl

theorem readFrom_point : readFrom negative m s false hasDigit ('.' :: cs) =
    readFrom negative m s true hasDigit cs := by
  rw [readFrom]
  rfl

/-- What is read of the characters behind the last place. -/
def readRest (negative : Bool) (m s : Nat) : List Char → Option Numeric
  | [] => ofMagnitude? negative m s
  | next :: _ => roundOff negative m s next

theorem readFrom_place_cons {c : Char} (hc : c.isDigit = true) :
    readFrom negative m s true hasDigit (c :: cs) =
      if mantissaBound ≤ 10 * m + digitValue c then roundOff negative m s c
      else if maxScale ≤ s + 1 then readRest negative (10 * m + digitValue c) (s + 1) cs
      else readFrom negative (10 * m + digitValue c) (s + 1) true true cs := by
  rw [readFrom, if_pos hc, Nat.mul_comm]
  simp only [ge_iff_le, if_true, Bool.true_and, decide_eq_true_eq]
  cases cs <;> rfl

/-- Digits in front of the point that fit are read to the number that they spell. -/
theorem readFrom_whole (h : cs.all Char.isDigit = true) (hlt : spelled m cs < mantissaBound) :
    readFrom negative m 0 false hasDigit (cs ++ rest) =
      readFrom negative (spelled m cs) 0 false (hasDigit || !cs.isEmpty) rest := by
  induction cs generalizing m hasDigit with
  | nil => simp [spelled]
  | cons c cs ih =>
    rw [List.all_cons, Bool.and_eq_true] at h
    rw [spelled_cons] at hlt ⊢
    have := le_spelled (10 * m + digitValue c) cs
    rw [List.cons_append, readFrom_whole_cons h.1, if_neg (by omega), ih h.2 hlt]
    simp

/-- Digits in front of the point that do not fit are not read at all. -/
theorem lt_of_readFrom_whole (h : cs.all Char.isDigit = true) (hm : m < mantissaBound)
    (hread : readFrom negative m 0 false hasDigit (cs ++ rest) = some d) :
    spelled m cs < mantissaBound := by
  induction cs generalizing m hasDigit with
  | nil => exact hm
  | cons c cs ih =>
    rw [List.all_cons, Bool.and_eq_true] at h
    rw [List.cons_append, readFrom_whole_cons h.1] at hread
    rw [spelled_cons]
    split at hread
    · cases hread
    · exact ih h.2 (by omega) hread

/-- Digits behind the point that fit are read to the number that they spell. -/
theorem readFrom_places (h : cs.all Char.isDigit = true) (hlt : spelled m cs < mantissaBound)
    (hscale : s + cs.length ≤ maxScale) (hdigit : hasDigit = true ∨ cs ≠ []) :
    readFrom negative m s true hasDigit cs = ofMagnitude? negative (spelled m cs) (s + cs.length) := by
  induction cs generalizing m s hasDigit with
  | nil =>
    rw [readFrom_nil, hdigit.resolve_right (fun hne => hne rfl)]
    rfl
  | cons c cs ih =>
    rw [List.all_cons, Bool.and_eq_true] at h
    rw [spelled_cons] at hlt ⊢
    rw [List.length_cons] at hscale ⊢
    have := le_spelled (10 * m + digitValue c) cs
    rw [readFrom_place_cons h.1, if_neg (by omega)]
    split
    · -- the last place is taken, so no digit follows
      obtain rfl : cs = [] := List.eq_nil_of_length_eq_zero (by omega)
      rfl
    · rw [ih h.2 hlt (by omega) (.inl rfl), show s + 1 + cs.length = s + (cs.length + 1) by omega]

end

/-! ## Literals -/

/-- Decimals that a numeral without a sign gives: without places only those that no integer type holds. -/
structure Legible (d : Numeric) : Prop where
  negative : d.negative = false
  scale_le : d.scale ≤ maxScale
  large : d.scale = 0 → 9223372036854775808 ≤ d.mantissa

section

variable {m s : Nat} {hasDigit : Bool} {cs : List Char} {d : Numeric}

theorem legible_of_ofMagnitude? (hs : s ≤ maxScale) (hlarge : s = 0 → 9223372036854775808 ≤ m)
    (h : ofMagnitude? false m s = some d) : d.Legible := by
  obtain ⟨hnegative, rfl, rfl⟩ := of_ofMagnitude?_false h
  exact ⟨hnegative, hs, hlarge⟩

theorem legible_of_roundOff {c : Char} (hs : s ≤ maxScale)
    (hlarge : s = 0 → 9223372036854775808 ≤ m) (h : roundOff false m s c = some d) : d.Legible := by
  unfold roundOff at h
  split at h
  · cases h
  · dsimp only at h
    generalize hup : (if (c.isDigit && decide (digitValue c ≥ 5)) = true then m + 1 else m) = m' at h
    have hm : m ≤ m' := by split at hup <;> omega
    split at h
    · next d' hd =>
      cases h
      exact legible_of_ofMagnitude? hs (fun hzero => Nat.le_trans (hlarge hzero) hm) hd
    · next hnone =>
      split at h
      · cases h
      · -- the mantissa did not fit, so it stays large without its last digit
        have hfull : mantissaBound ≤ m' := Nat.le_of_not_lt fun hlt => by
          rw [ofMagnitude?_false hlt] at hnone
          cases hnone
        unfold mantissaBound at hfull
        exact legible_of_ofMagnitude? (by omega) (fun _ => by omega) h

theorem legible_of_readFrom (h : cs.all Char.isDigit = true) (hs : s < maxScale)
    (hplaces : 0 < s ∨ cs ≠ []) (hread : readFrom false m s true hasDigit cs = some d) :
    d.Legible := by
  induction cs generalizing m s hasDigit with
  | nil =>
    have := hplaces.resolve_right fun hne => hne rfl
    rw [readFrom_nil] at hread
    split at hread
    · exact legible_of_ofMagnitude? (Nat.le_of_lt hs) (by omega) hread
    · cases hread
  | cons c cs ih =>
    rw [List.all_cons, Bool.and_eq_true] at h
    rw [readFrom_place_cons h.1] at hread
    split at hread
    · next hfull =>
      have hc := digitValue_le h.1
      unfold mantissaBound at hfull
      exact legible_of_roundOff (Nat.le_of_lt hs) (fun _ => by omega) hread
    · split at hread
      · cases cs with
        | nil => exact legible_of_ofMagnitude? hs (by omega) hread
        | cons next cs => exact legible_of_roundOff hs (by omega) hread
      · exact ih h.2 (by omega) (.inl (Nat.succ_pos s)) hread

end

/-! ## Whole texts -/

/-- Whether a character begins an exponent. -/
def isExponentMark (c : Char) : Bool := c == 'e' || c == 'E'

theorem not_of_isDigit {p : Char → Bool} {c : Char} (hc : c.isDigit = true)
    (hp : ("0123456789".toList.any p) = false) : p c = false := by
  have hmem : c ∈ "0123456789".toList := by
    simp only [Char.isDigit, Bool.and_eq_true, decide_eq_true_eq] at hc
    have hlow : 48 ≤ c.toNat := hc.1
    have hhigh : c.toNat ≤ 57 := hc.2
    have hdigit : c = digit (c.toNat - 48) := by
      show c = Char.ofNat (48 + (c.toNat - 48))
      rw [Nat.add_sub_cancel' hlow, Char.ofNat_toNat]
    rw [hdigit]
    have hlt : c.toNat - 48 < 10 := by omega
    revert hlt
    generalize c.toNat - 48 = n
    revert n
    decide
  rw [List.any_eq_false] at hp
  exact Bool.eq_false_iff.mpr (hp c hmem)

theorem any_eq_false_of_digits {p : Char → Bool} {cs : List Char} (h : cs.all Char.isDigit = true)
    (hp : ("0123456789".toList.any p) = false) : cs.any p = false := by
  rw [List.any_eq_false]
  intro c hc
  rw [not_of_isDigit (List.all_eq_true.mp h c hc) hp]
  exact Bool.false_ne_true

/-- The sign of a number as it is written. -/
def sign (negative : Bool) : List Char := if negative then ['-'] else []

/-- A text that begins with a digit behind its sign and has no exponent. -/
theorem parse?_signed (negative : Bool) {c : Char} {cs : List Char} (hc : c.isDigit = true)
    (hmark : (c :: cs).any isExponentMark = false) :
    parse? (String.ofList (sign negative ++ c :: cs)) = readFrom negative 0 0 false false (c :: cs) := by
  have hplain : plain? (sign negative ++ c :: cs) = readFrom negative 0 0 false false (c :: cs) := by
    cases negative with
    | true => rfl
    | false =>
      show plain? (c :: cs) = _
      unfold plain?
      split
      · next heq =>
        obtain ⟨rfl, -⟩ := List.cons.inj heq
        cases hc
      · next heq =>
        obtain ⟨rfl, -⟩ := List.cons.inj heq
        cases hc
      · rfl
  have hscientific : scientific? (sign negative ++ c :: cs) = none := by
    unfold scientific?
    have hdrop : (sign negative ++ c :: cs).dropWhile (fun c => c != 'e' && c != 'E') = [] := by
      rw [List.dropWhile_eq_nil_iff]
      intro d hd
      rcases List.mem_append.mp hd with hd | hd
      · cases negative <;> cases hd
        · rfl
        · next h => cases h
      · have := List.any_eq_false.mp hmark d hd
        simpa [isExponentMark] using this
    dsimp only
    rw [hdrop]
  rw [parse?, String.toList_ofList, hplain, hscientific]
  cases readFrom negative 0 0 false false (c :: cs) <;> rfl

/-- A text that begins with a digit and has no exponent. -/
theorem parse?_of_digit {c : Char} {cs : List Char} (hc : c.isDigit = true)
    (hmark : (c :: cs).any isExponentMark = false) :
    parse? (String.ofList (c :: cs)) = readFrom false 0 0 false false (c :: cs) :=
  parse?_signed false hc hmark

/-- Digits are a decimal if it holds them. -/
theorem parse?_whole {cs : List Char} (hne : cs ≠ []) (h : cs.all Char.isDigit = true) :
    parse? (String.ofList cs) = ofMagnitude? false (natOfDigits cs) 0 := by
  have hmark : cs.any isExponentMark = false := any_eq_false_of_digits h (by decide)
  obtain ⟨c, cs, rfl⟩ := List.exists_cons_of_ne_nil hne
  have hc := List.all_eq_true.mp h c List.mem_cons_self
  rw [parse?_of_digit hc hmark, natOfDigits_eq]
  by_cases hlt : spelled 0 (c :: cs) < mantissaBound
  · have hread : readFrom false 0 0 false false ((c :: cs) ++ []) = _ := readFrom_whole h hlt
    rw [List.append_nil] at hread
    rw [hread, readFrom_nil]
    simp
  · have hnone : ofMagnitude? false (spelled 0 (c :: cs)) 0 = none := by
      unfold ofMagnitude? ofParts?
      rw [dif_neg hlt]
    rw [hnone]
    cases hread : readFrom false 0 0 false false (c :: cs) with
    | none => rfl
    | some d =>
      rw [← List.append_nil (c :: cs)] at hread
      exact absurd (lt_of_readFrom_whole h (by decide) hread) hlt

/-- Digits with a point, some on each side. -/
theorem parse?_places {whole places : List Char} (hne : whole ≠ [])
    (hwhole : whole.all Char.isDigit = true) (hplaces : places.all Char.isDigit = true) :
    parse? (String.ofList (whole ++ '.' :: places)) =
      readFrom false (spelled 0 whole) 0 true true places ∨
    parse? (String.ofList (whole ++ '.' :: places)) = none ∧ mantissaBound ≤ spelled 0 whole := by
  have hmark : (whole ++ '.' :: places).any isExponentMark = false := by
    rw [List.any_append, List.any_cons, any_eq_false_of_digits hwhole (by decide),
      any_eq_false_of_digits hplaces (by decide)]
    rfl
  obtain ⟨c, cs, rfl⟩ := List.exists_cons_of_ne_nil hne
  have hc := List.all_eq_true.mp hwhole c List.mem_cons_self
  have hparse : parse? (String.ofList (c :: cs ++ '.' :: places)) =
      readFrom false 0 0 false false (c :: cs ++ '.' :: places) := parse?_of_digit hc hmark
  rw [hparse]
  by_cases hlt : spelled 0 (c :: cs) < mantissaBound
  · rw [readFrom_whole hwhole hlt, readFrom_point]
    exact .inl rfl
  · cases hread : readFrom false 0 0 false false ((c :: cs) ++ '.' :: places) with
    | none => exact .inr ⟨rfl, Nat.le_of_not_lt hlt⟩
    | some d => exact absurd (lt_of_readFrom_whole hwhole (by decide) hread) hlt

/-- The text of a decimal: its sign and its digits, with a point in front of the places. -/
theorem exists_text (d : Numeric) :
    ∃ whole places, whole ≠ [] ∧ whole.all Char.isDigit = true ∧ places.all Char.isDigit = true ∧
      places.length = d.scale ∧ spelled 0 (whole ++ places) = d.mantissa ∧
      d.text = String.ofList (sign d.negative ++
        (whole ++ if d.scale = 0 then [] else '.' :: places)) := by
  have hall := all_padded (d.scale + 1) d.mantissa
  have hlength := le_length_padded (d.scale + 1) d.mantissa
  have hspelled := natOfDigits_padded (d.scale + 1) d.mantissa
  unfold text
  generalize padded (d.scale + 1) d.mantissa = ds at hall hlength hspelled
  rw [← List.take_append_drop (ds.length - d.scale) ds, List.all_append, Bool.and_eq_true] at hall
  refine ⟨_, _, ?_, hall.1, hall.2, ?_, ?_, ?_⟩
  · intro hnil
    have := congrArg List.length hnil
    rw [List.length_take, List.length_nil] at this
    omega
  · rw [List.length_drop]
    omega
  · rw [List.take_append_drop]
    exact hspelled
  · rw [← List.append_assoc]
    simp [sign]

end Numeric

namespace Parser

open Text Numeric

/-- The value of the narrowest type, of those that hold a number. -/
def narrowest? : Option Int32 → Option Int64 → Option Numeric → Option Value
  | some n, _, _ => some (.integer n)
  | none, some n, _ => some (.bigInt n)
  | none, none, d => d.map .numeric

/-- Digits are a number of the narrowest type that holds it. The bounds of the types are too large to be
computed with, so what holds the number is named first. -/
theorem numberValue?_whole {cs : List Char} {small : Option Int32} {large : Option Int64}
    {decimal : Option Numeric} (hne : cs ≠ []) (h : cs.all Char.isDigit = true)
    (hsmall : int32? (natOfDigits cs) = small) (hlarge : int64? (natOfDigits cs) = large)
    (hdecimal : ofMagnitude? false (natOfDigits cs) 0 = decimal) :
    numberValue? (String.ofList cs) = narrowest? small large decimal := by
  have hmark : cs.any (fun c => c == 'e' || c == 'E') = false := any_eq_false_of_digits h (by decide)
  have hpoint : cs.contains '.' = false := by
    rw [List.contains_eq_any_beq]
    exact any_eq_false_of_digits h (by decide)
  unfold numberValue?
  rw [String.toList_ofList, parse?_whole hne h]
  dsimp only
  rw [hmark, hpoint, nat?_of_digits hne h]
  rw [if_neg Bool.false_ne_true, if_neg Bool.false_ne_true, Option.bind_some, Option.bind_some,
    hsmall, hlarge, hdecimal]
  cases small with
  | some n => rfl
  | none => cases large <;> rfl

/-- Digits with a point are a decimal; where there are none on one side, they count as zero. -/
theorem numberValue?_places {whole places : List Char} (hwhole : whole.all Char.isDigit = true)
    (hplaces : places.all Char.isDigit = true) :
    numberValue? (String.ofList (whole ++ '.' :: places)) =
      (Numeric.parse? (String.ofList ((if whole = [] then ['0'] else whole) ++
        '.' :: (if places = [] then ['0'] else places)))).map .numeric := by
  have hmark : (whole ++ '.' :: places).any (fun c => c == 'e' || c == 'E') = false := by
    rw [List.any_append, List.any_cons, any_eq_false_of_digits hwhole (by decide),
      any_eq_false_of_digits hplaces (by decide)]
    rfl
  have hpoint : (whole ++ '.' :: places).contains '.' = true := by simp
  have hfront : ((whole ++ '.' :: places).head? == some '.') = decide (whole = []) := by
    cases whole with
    | nil => rfl
    | cons c whole =>
      have hc := List.all_eq_true.mp hwhole c List.mem_cons_self
      have := not_of_isDigit (p := (· == '.')) hc (by decide)
      simpa using this
  have hback : ((whole ++ '.' :: places).getLast? == some '.') = decide (places = []) := by
    rcases List.eq_nil_or_concat places with rfl | ⟨front, c, rfl⟩
    · simp
    · have hc := List.all_eq_true.mp hplaces c (by simp)
      have := not_of_isDigit (p := (· == '.')) hc (by decide)
      simpa [List.getLast?_append, List.getLast?_cons] using this
  have htext : (if whole = [] then ['0'] else []) ++ (whole ++ '.' :: places) ++
      (if places = [] then ['0'] else []) =
      (if whole = [] then ['0'] else whole) ++ '.' :: (if places = [] then ['0'] else places) := by
    by_cases hw : whole = [] <;> by_cases hp : places = [] <;> simp [hw, hp]
  unfold numberValue?
  rw [String.toList_ofList]
  dsimp only
  rw [hmark, hpoint, hfront, hback, if_neg Bool.false_ne_true, if_pos rfl]
  simp only [decide_eq_true_eq]
  rw [htext]

end Parser

/-! ## Literals -/

/-- Values that literals have. -/
def Value.Legible : Value → Prop
  | null | boolean _ | text _ | double _ => True
  | integer n => 0 ≤ n.toInt
  | bigInt n => 2147483648 ≤ n.toInt
  | numeric d => d.Legible
  | _ => False

/-- Digits with an optional point and at least one digit, or anything with an exponent. -/
inductive IsNumeral : List Char → Prop
  | whole {cs : List Char} (hne : cs ≠ []) (hdigits : cs.all Char.isDigit = true) : IsNumeral cs
  | places {whole places : List Char} (hne : whole ++ places ≠ [])
      (hwhole : whole.all Char.isDigit = true) (hplaces : places.all Char.isDigit = true) :
      IsNumeral (whole ++ '.' :: places)
  | exponent {cs : List Char} (h : cs.any (fun c => c == 'e' || c == 'E') = true) : IsNumeral cs

namespace Parser

open Text Numeric

theorem le_of_int32?_eq_none {n : Nat} (h : int32? n = none) : 2147483648 ≤ n := by
  unfold int32? at h
  split at h
  · cases h
  · omega

theorem le_of_int64?_eq_none {n : Nat} (h : int64? n = none) : 9223372036854775808 ≤ n := by
  unfold int64? at h
  split at h
  · cases h
  · omega

theorem legible_of_whole {cs : List Char} {v : Value} (hne : cs ≠ [])
    (h : cs.all Char.isDigit = true) (hv : numberValue? (String.ofList cs) = some v) :
    v.Legible := by
  generalize hdecimal : ofMagnitude? false (natOfDigits cs) 0 = decimal
  generalize hsmall : int32? (natOfDigits cs) = small
  generalize hlarge : int64? (natOfDigits cs) = large
  rw [numberValue?_whole hne h hsmall hlarge hdecimal] at hv
  cases small with
  | some n =>
    cases hv
    have := toInt_of_int32? hsmall
    simp only [Value.Legible]
    omega
  | none =>
    have hsmall := le_of_int32?_eq_none hsmall
    cases large with
    | some n =>
      cases hv
      have := toInt_of_int64? hlarge
      simp only [Value.Legible]
      omega
    | none =>
      obtain ⟨d, rfl, rfl⟩ := Option.map_eq_some_iff.mp hv
      exact legible_of_ofMagnitude? (Nat.zero_le _) (fun _ => le_of_int64?_eq_none hlarge) hdecimal

theorem legible_of_places {whole places : List Char} {v : Value}
    (hwhole : whole.all Char.isDigit = true) (hplaces : places.all Char.isDigit = true)
    (hv : numberValue? (String.ofList (whole ++ '.' :: places)) = some v) : v.Legible := by
  rw [numberValue?_places hwhole hplaces] at hv
  obtain ⟨d, hd, rfl⟩ := Option.map_eq_some_iff.mp hv
  have hwhole' : (if whole = [] then ['0'] else whole).all Char.isDigit = true := by
    split
    · rfl
    · exact hwhole
  have hplaces' : (if places = [] then ['0'] else places).all Char.isDigit = true := by
    split
    · rfl
    · exact hplaces
  have hne : (if whole = [] then ['0'] else whole) ≠ [] := by
    split
    · exact List.cons_ne_nil _ _
    · assumption
  have hne' : (if places = [] then ['0'] else places) ≠ [] := by
    split
    · exact List.cons_ne_nil _ _
    · assumption
  rcases parse?_places hne hwhole' hplaces' with hread | ⟨hnone, -⟩
  · rw [hread] at hd
    exact legible_of_readFrom hplaces' (by decide) (.inr hne') hd
  · rw [hnone] at hd
    cases hd

/-- What reading makes sure of a number. -/
theorem legible_of_numberValue? {digits : String} {v : Value} (h : IsNumeral digits.toList)
    (hv : numberValue? digits = some v) : v.Legible := by
  generalize hcs : digits.toList = cs at h
  obtain rfl : digits = String.ofList cs := by rw [← hcs, String.ofList_toList]
  cases h with
  | whole hne hdigits => exact legible_of_whole hne hdigits hv
  | places hne hwhole hplaces => exact legible_of_places hwhole hplaces hv
  | exponent hmark =>
    unfold numberValue? at hv
    rw [String.toList_ofList] at hv
    dsimp only at hv
    rw [if_pos hmark] at hv
    obtain ⟨x, -, rfl⟩ := Option.map_eq_some_iff.mp hv
    trivial

/-! ## The text of a number -/

theorem numberValue?_text {d : Numeric} (h : d.Legible) :
    numberValue? d.text = some (.numeric d) := by
  obtain ⟨whole, places, hne, hwhole, hplaces, hlength, hspelled, htext⟩ := exists_text d
  have hlt := d.mantissa_lt
  rw [htext, h.negative]
  show numberValue? (String.ofList (whole ++ if d.scale = 0 then [] else '.' :: places)) = _
  by_cases hscale : d.scale = 0
  · obtain rfl : places = [] := List.eq_nil_of_length_eq_zero (hlength.trans hscale)
    rw [List.append_nil] at hspelled
    -- without places the digits are too many for an integer, so they are read as a decimal
    have hlarge := h.large hscale
    have hsmall : int32? (natOfDigits whole) = none := by
      rw [natOfDigits_eq, hspelled]
      exact if_neg (by omega)
    have hbig : int64? (natOfDigits whole) = none := by
      rw [natOfDigits_eq, hspelled]
      exact if_neg (by omega)
    have hdecimal : ofMagnitude? false (natOfDigits whole) 0 = some d := by
      rw [natOfDigits_eq, hspelled, ofMagnitude?_false hlt, ← hscale, ← h.negative]
    rw [if_pos hscale, List.append_nil, numberValue?_whole hne hwhole hsmall hbig hdecimal]
    rfl
  · have hplacesNe : places ≠ [] := by
      rintro rfl
      exact hscale hlength.symm
    rw [spelled_append] at hspelled
    have hwholeLt : spelled 0 whole < mantissaBound :=
      Nat.lt_of_le_of_lt (le_spelled _ places) (hspelled ▸ hlt)
    rw [if_neg hscale, numberValue?_places hwhole hplaces, if_neg hne, if_neg hplacesNe]
    -- the digits before the point fill no mantissa, as all the digits together do not
    rcases parse?_places hne hwhole hplaces with hread | ⟨-, hfull⟩
    · rw [hread, readFrom_places hplaces (hspelled ▸ hlt)
        (by rw [Nat.zero_add, hlength]; exact h.scale_le) (.inl rfl), hspelled, Nat.zero_add, hlength,
        ofMagnitude?_false hlt, ← h.negative]
      rfl
    · omega

theorem numberValue?_integer {i : Int32} (h : 0 ≤ i.toInt) :
    numberValue? (showInt i.toInt) = some (.integer i) := by
  have hsmall := int32?_toInt i
  generalize i.toInt = k at h hsmall
  obtain ⟨n, rfl⟩ := Int.eq_ofNat_of_zero_le h
  have hspelled := natOfDigits_digits n
  rw [showInt_natCast, numberValue?_whole (digits_ne_nil n) (all_digits n) (by rw [hspelled, hsmall]) rfl rfl]
  rfl

theorem numberValue?_bigInt {i : Int64} (h : 2147483648 ≤ i.toInt) :
    numberValue? (showInt i.toInt) = some (.bigInt i) := by
  have hlarge := int64?_toInt i
  generalize i.toInt = k at h hlarge
  obtain ⟨n, rfl⟩ := Int.eq_ofNat_of_zero_le (a := k) (by omega)
  have hspelled := natOfDigits_digits n
  have hsmall : int32? (natOfDigits (digits n)) = none := by
    rw [hspelled]
    exact if_neg (by omega)
  rw [showInt_natCast, numberValue?_whole (digits_ne_nil n) (all_digits n) hsmall (by rw [hspelled, hlarge]) rfl]
  rfl

end Parser

end SqlStore
