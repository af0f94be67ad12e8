import SqlStore.Numeric.Conversion
import SqlStore.Proofs.Check
import SqlStore.Proofs.Numeric.Numerals
import SqlStore.Proofs.Numeric.Scale

/-!
# Numbers as text

The text of an integer is read as the integer, and the text of a decimal as an equal decimal, as far as
reading goes: it takes no more than `maxScale` places, and what stands behind them has to be zeros. Zero
loses its sign.
-/

namespace SqlStore

namespace Text

/-! ## Trimming -/

/-- A text without blanks at its ends is trimmed already. -/
theorem trim_ofList {cs : List Char} (hfirst : ∀ c ∈ cs.head?, isBlank c = false)
    (hlast : ∀ c ∈ cs.getLast?, isBlank c = false) : trim (String.ofList cs) = String.ofList cs := by
  have hdrop : ∀ ds : List Char, (∀ c ∈ ds.head?, isBlank c = false) → ds.dropWhile isBlank = ds := by
    intro ds h
    cases ds with
    | nil => rfl
    | cons d ds => rw [List.dropWhile_cons, h d rfl, if_neg Bool.false_ne_true]
  unfold trim trimLeft trimRight
  rw [String.toList_ofList, hdrop cs hfirst, hdrop cs.reverse, List.reverse_reverse]
  rwa [List.head?_reverse]

theorem trim_of_all {cs : List Char} (h : ∀ c ∈ cs, isBlank c = false) :
    trim (String.ofList cs) = String.ofList cs :=
  trim_ofList (fun c hc => h c (List.mem_of_mem_head? hc)) fun c hc => h c (List.mem_of_getLast? hc)

theorem not_isBlank_of_isDigit {c : Char} (h : c.isDigit = true) : isBlank c = false :=
  Numeric.not_of_isDigit h (by decide)

/-! ## Integers -/

theorem toList_showInt (n : Int) :
    (showInt n).toList = Numeric.sign (decide (n < 0)) ++ digits n.natAbs := by
  unfold showInt Numeric.sign
  rw [String.toList_ofList]
  by_cases h : n < 0
  · rw [if_pos h, if_pos (decide_eq_true h)]
    rfl
  · rw [if_neg h, if_neg (by simpa using h)]
    rfl

theorem mem_showInt {n : Int} {c : Char} (h : c ∈ (showInt n).toList) : c = '-' ∨ c.isDigit = true := by
  rw [toList_showInt] at h
  rcases List.mem_append.mp h with hsign | hdigit
  · unfold Numeric.sign at hsign
    split at hsign
    · exact .inl (List.mem_singleton.mp hsign)
    · cases hsign
  · exact .inr (List.all_eq_true.mp (all_digits _) c hdigit)

theorem not_isBlank_showInt {n : Int} {c : Char} (h : c ∈ (showInt n).toList) : isBlank c = false := by
  rcases mem_showInt h with rfl | hdigit
  · decide
  · exact not_isBlank_of_isDigit hdigit

theorem trim_showInt (n : Int) : trim (showInt n) = showInt n := by
  have htrim : trim (String.ofList (showInt n).toList) = String.ofList (showInt n).toList :=
    trim_of_all fun c => not_isBlank_showInt
  rwa [String.ofList_toList] at htrim

/-- Digits without a sign are read as the number that they spell. -/
theorem int?_of_digits {cs : List Char} (hne : cs ≠ []) (h : cs.all Char.isDigit = true) :
    int? cs = some (natOfDigits cs : Int) := by
  obtain ⟨c, cs, rfl⟩ := List.exists_cons_of_ne_nil hne
  have hc : c.isDigit = true := List.all_eq_true.mp h c List.mem_cons_self
  unfold int?
  split
  · next heq =>
    obtain ⟨rfl, -⟩ := List.cons.inj heq
    cases hc
  · next heq =>
    obtain ⟨rfl, -⟩ := List.cons.inj heq
    cases hc
  · exact congrArg (Option.map Int.ofNat) (nat?_of_digits hne h)

/-- The text of an integer is read as the integer. -/
theorem int?_showInt (n : Int) : int? (showInt n).toList = some n := by
  unfold showInt
  rw [String.toList_ofList]
  split
  · rw [int?, nat?_digits]
    exact congrArg some (show -(n.natAbs : Int) = n by omega)
  · rw [int?_of_digits (digits_ne_nil _) (all_digits _), natOfDigits_digits]
    exact congrArg some (show (n.natAbs : Int) = n by omega)

/-! ## What digits spell -/

/-- Digits behind a number multiply it and add what they spell themselves. -/
theorem spelled_eq (n : Nat) (cs : List Char) :
    spelled n cs = n * pow10 cs.length + spelled 0 cs := by
  induction cs generalizing n with
  | nil => simp [spelled, pow10]
  | cons c cs ih =>
    rw [spelled_cons, spelled_cons, ih, ih (10 * 0 + digitValue c), List.length_cons, pow10_succ]
    ring

theorem spelled_lt {cs : List Char} (h : cs.all Char.isDigit = true) : spelled 0 cs < pow10 cs.length := by
  induction cs with
  | nil => exact Nat.one_pos
  | cons c cs ih =>
    rw [List.all_cons, Bool.and_eq_true] at h
    have hc := digitValue_le h.1
    have hlt := ih h.2
    rw [spelled_cons, spelled_eq, List.length_cons, pow10_succ]
    have hle : (10 * 0 + digitValue c) * pow10 cs.length ≤ 9 * pow10 cs.length := Nat.mul_le_mul_right _ (by omega)
    omega

end Text

namespace Numeric

open Text

theorem equal_iff {a b : Numeric} :
    a.equal b = true ↔ a.signed * pow10 b.scale = b.signed * pow10 a.scale := by
  unfold equal compareValue
  rw [beq_iff_eq, Int.compare_eq_eq]

theorem ofMagnitude?_eq {negative : Bool} {m s : Nat} (h : m < mantissaBound) :
    ofMagnitude? negative m s = some ⟨negative && m != 0, m, s, h⟩ := by
  unfold ofMagnitude? ofParts?
  rw [dif_pos h]

/-! ## Reading places -/

section

variable {negative hasDigit : Bool} {m s : Nat} {cs : List Char}

/-- Digits that take all places: what follows them only rounds. -/
theorem readFrom_filled (h : cs.all Char.isDigit = true) (hlt : spelled m cs < mantissaBound)
    (hscale : s + cs.length = maxScale) (hne : cs ≠ []) (rest : List Char) :
    readFrom negative m s true hasDigit (cs ++ rest) = readRest negative (spelled m cs) maxScale rest := by
  induction cs generalizing m s hasDigit with
  | nil => exact absurd rfl hne
  | cons c cs ih =>
    rw [List.all_cons, Bool.and_eq_true] at h
    rw [spelled_cons] at hlt ⊢
    rw [List.length_cons] at hscale
    have := le_spelled (10 * m + digitValue c) cs
    rw [List.cons_append, readFrom_place_cons h.1, if_neg (by omega)]
    split
    · obtain rfl : cs = [] := List.eq_nil_of_length_eq_zero (by omega)
      rw [show s + 1 = maxScale by simpa using hscale]
      rfl
    · exact ih h.2 hlt (by omega) (by rintro rfl; simp at hscale; omega)

/-- A zero behind the last place changes nothing. -/
theorem roundOff_zero {c : Char} (hc : c.isDigit = true) (hzero : digitValue c = 0)
    (hm : m < mantissaBound) : roundOff negative m s c = ofMagnitude? negative m s := by
  simp [roundOff, hc, hzero, ofMagnitude?_eq hm]

end

theorem trim_text (d : Numeric) : trim d.text = d.text := by
  obtain ⟨whole, places, -, hwhole, hplaces, -, -, htext⟩ := d.exists_text
  rw [htext]
  refine trim_of_all fun c hc => ?_
  have hdigit : ∀ cs : List Char, cs.all Char.isDigit = true → c ∈ cs → isBlank c = false :=
    fun cs h hmem => not_isBlank_of_isDigit (List.all_eq_true.mp h c hmem)
  rcases List.mem_append.mp hc with hc | hc
  · unfold sign at hc
    split at hc
    · cases List.mem_singleton.mp hc
      decide
    · cases hc
  rcases List.mem_append.mp hc with hc | hc
  · exact hdigit whole hwhole hc
  · split at hc
    · cases hc
    · rcases List.mem_cons.mp hc with rfl | hc
      · decide
      · exact hdigit places hplaces hc

/-- Reading the text of a decimal is reading its digits. -/
theorem parse?_text_eq (d : Numeric) {whole places : List Char} (hne : whole ≠ [])
    (hwhole : whole.all Char.isDigit = true) (hplaces : places.all Char.isDigit = true)
    (htext : d.text = String.ofList (sign d.negative ++
      (whole ++ if d.scale = 0 then [] else '.' :: places))) :
    parse? d.text = readFrom d.negative 0 0 false false
      (whole ++ if d.scale = 0 then [] else '.' :: places) := by
  have hmark : (whole ++ if d.scale = 0 then [] else '.' :: places).any isExponentMark = false := by
    rw [List.any_append, any_eq_false_of_digits hwhole (by decide)]
    split
    · rfl
    · rw [List.any_cons, any_eq_false_of_digits hplaces (by decide)]
      rfl
  rw [htext]
  obtain ⟨c, cs, rfl⟩ := List.exists_cons_of_ne_nil hne
  exact parse?_signed d.negative (List.all_eq_true.mp hwhole c List.mem_cons_self) hmark

/-- The text of a decimal with no more places than reading takes. -/
theorem parse?_text_of_le {d : Numeric} (h : d.scale ≤ maxScale) :
    parse? d.text = ofMagnitude? d.negative d.mantissa d.scale := by
  obtain ⟨whole, places, hne, hwhole, hplaces, hlength, hspelled, htext⟩ := d.exists_text
  rw [spelled_append] at hspelled
  have hlt : spelled (spelled 0 whole) places < mantissaBound := hspelled ▸ d.mantissa_lt
  have hwholeLt := (le_spelled (spelled 0 whole) places).trans_lt hlt
  rw [d.parse?_text_eq hne hwhole hplaces htext, readFrom_whole hwhole hwholeLt]
  split
  · next hscale =>
    obtain rfl : places = [] := List.eq_nil_of_length_eq_zero (hlength.trans hscale)
    rw [readFrom_nil, List.isEmpty_eq_false_iff.mpr hne, hscale]
    exact congrArg (ofMagnitude? d.negative · 0) hspelled
  · next hscale =>
    rw [readFrom_point, readFrom_places hplaces hlt (by omega)
      (Or.inr fun hnil => hscale (by rw [← hlength, hnil]; rfl)), hspelled, Nat.zero_add, hlength]

/-- All places that reading does not take are zeros. -/
def Regular (d : Numeric) : Prop := pow10 (d.scale - maxScale) ∣ d.mantissa

theorem regular_of_scale_le {d : Numeric} (h : d.scale ≤ maxScale) : d.Regular := by
  unfold Regular
  rw [Nat.sub_eq_zero_of_le h]
  exact one_dvd _

/-- The text of a decimal with more places than reading takes, all of them zeros. -/
theorem parse?_text_of_gt {d : Numeric} (hregular : d.Regular) (h : maxScale < d.scale) :
    parse? d.text = ofMagnitude? d.negative (d.mantissa / pow10 (d.scale - maxScale)) maxScale := by
  obtain ⟨whole, places, hne, hwhole, hplaces, hlength, hspelled, htext⟩ := d.exists_text
  have hsplit := List.take_append_drop maxScale places
  have htaken : (places.take maxScale).length = maxScale := by
    rw [List.length_take]
    omega
  have hdropped : (places.drop maxScale).length = d.scale - maxScale := by
    rw [List.length_drop, hlength]
  generalize places.take maxScale = taken at hsplit htaken
  generalize places.drop maxScale = dropped at hsplit hdropped
  subst hsplit
  rw [List.all_append, Bool.and_eq_true] at hplaces
  rw [← List.append_assoc, spelled_append, spelled_append, spelled_eq, hdropped] at hspelled
  -- what is divided by the weight of the places behind leaves nothing there
  have hpos := pow10_pos (d.scale - maxScale)
  have hlow : spelled 0 dropped = 0 := by
    have hdvd : pow10 (d.scale - maxScale) ∣ spelled 0 dropped := by
      have hmantissa : pow10 (d.scale - maxScale) ∣ d.mantissa := hregular
      rw [← hspelled] at hmantissa
      exact (Nat.dvd_add_right (Dvd.intro_left _ rfl)).mp hmantissa
    exact Nat.eq_zero_of_dvd_of_lt hdvd (hdropped ▸ spelled_lt hplaces.2)
  have hhigh : d.mantissa / pow10 (d.scale - maxScale) = spelled (spelled 0 whole) taken := by
    rw [← hspelled, hlow, Nat.add_zero, Nat.mul_div_cancel _ hpos]
  have hlt : spelled (spelled 0 whole) taken < mantissaBound :=
    hhigh ▸ (Nat.div_le_self _ _).trans_lt d.mantissa_lt
  have hwholeLt := (le_spelled (spelled 0 whole) taken).trans_lt hlt
  obtain ⟨c, cs, rfl⟩ := List.exists_cons_of_ne_nil (l := dropped) (by
    rintro rfl
    simp only [List.length_nil] at hdropped
    omega)
  rw [List.all_cons, Bool.and_eq_true] at hplaces
  have hzero : digitValue c = 0 := by
    rw [spelled_cons] at hlow
    have := le_spelled (10 * 0 + digitValue c) cs
    omega
  rw [d.parse?_text_eq hne hwhole (by simp [hplaces]) htext, readFrom_whole hwhole hwholeLt,
    if_neg (by omega), readFrom_point, readFrom_filled hplaces.1 hlt (by rw [Nat.zero_add, htaken])
      (by rintro rfl; simp [maxScale] at htaken), hhigh]
  exact roundOff_zero hplaces.2.1 hzero hlt

/-- The text of a decimal is read as an equal decimal if all places behind the last one that is read are
zeros. -/
theorem exists_parse?_text {d : Numeric} (h : d.Regular) :
    ∃ e, parse? d.text = some e ∧ e.equal d = true := by
  have hsigned : ∀ {m : Nat} {negative : Bool}, (if (negative && m != 0) = true then -(m : Int) else m) =
      if negative = true then -(m : Int) else m := by
    intro m negative
    cases m <;> cases negative <;> simp
  by_cases hscale : d.scale ≤ maxScale
  · refine ⟨_, (parse?_text_of_le hscale).trans (ofMagnitude?_eq d.mantissa_lt), equal_iff.mpr ?_⟩
    unfold signed
    rw [hsigned]
  · have hlt : d.mantissa / pow10 (d.scale - maxScale) < mantissaBound :=
      (Nat.div_le_self _ _).trans_lt d.mantissa_lt
    refine ⟨_, (parse?_text_of_gt h (not_le.mp hscale)).trans (ofMagnitude?_eq hlt), equal_iff.mpr ?_⟩
    have hmul : d.mantissa / pow10 (d.scale - maxScale) * pow10 (d.scale - maxScale) = d.mantissa :=
      Nat.div_mul_cancel h
    have hpow : pow10 d.scale = pow10 (d.scale - maxScale) * pow10 maxScale := by
      rw [← pow10_add, Nat.sub_add_cancel (not_le.mp hscale).le]
    unfold signed
    rw [hsigned, hpow]
    have hcast : ((d.mantissa / pow10 (d.scale - maxScale) : Nat) : Int) * pow10 (d.scale - maxScale) =
        d.mantissa := by exact_mod_cast hmul
    rw [Nat.cast_mul, ← mul_assoc]
    split
    · rw [neg_mul, hcast]
    · rw [hcast]

end Numeric

/-! ## Regular decimals

Decimals that are read or computed have at most `maxScale` places. Bringing them to a declared scale may
add places beyond, but only zeros, so that they stay regular. -/

namespace Numeric

/-! ## Declared scales -/

variable {d e : Numeric}

theorem regular_round (h : d.Regular) (places : Nat) : (d.round places).Regular := by
  unfold round
  split
  · exact h
  · next hlt =>
    by_cases hplaces : places ≤ maxScale
    · exact regular_of_scale_le hplaces
    -- the places that are cut off are zeros, so nothing is rounded
    have hdvd : pow10 (d.scale - maxScale) ∣ d.mantissa := h
    obtain ⟨m, hm⟩ := hdvd
    obtain ⟨k, hk⟩ : ∃ k, d.scale - places = k + 1 := ⟨d.scale - places - 1, by omega⟩
    have hscale : d.scale - maxScale = k + 1 + (places - maxScale) := by omega
    have hpos := pow10_pos k
    have hcut : (d.mantissa + 5 * pow10 (d.scale - places - 1)) / pow10 (d.scale - places) =
        pow10 (places - maxScale) * m := by
      rw [hm, hscale, hk, Nat.add_sub_cancel, pow10_add, pow10_succ]
      generalize pow10 k = unit at *
      rw [Nat.mul_assoc (10 * unit), Nat.add_comm, Nat.add_mul_div_left _ _ (by omega),
        Nat.div_eq_of_lt (by omega), Nat.zero_add]
    show pow10 (places - maxScale) ∣ _
    exact Dvd.intro m hcut.symm

theorem regular_padPlaces (h : d.Regular) (n : Nat) : (d.padPlaces n).Regular := by
  induction n generalizing d with
  | zero => exact h
  | succ n ih =>
    unfold padPlaces
    split
    · next wider hwider =>
      refine ih ?_
      obtain ⟨hmantissa, hscale⟩ := ofParts?_eq_some hwider
      unfold Regular at h ⊢
      rw [hmantissa, hscale]
      by_cases hle : maxScale ≤ d.scale
      · rw [Nat.sub_add_comm hle, pow10_succ, Nat.mul_comm d.mantissa]
        exact Nat.mul_dvd_mul_left 10 h
      · rw [Nat.sub_eq_zero_of_le (by omega)]
        exact one_dvd _
    · exact h

theorem regular_withScale (h : d.Regular) (places : Nat) : (d.withScale places).Regular := by
  by_cases hzero : (d.round places).isZero = true
  · rw [withScale_of_isZero hzero]
    have hmantissa : (d.round places).mantissa = 0 := eq_of_beq hzero
    show _ ∣ (d.round places).mantissa
    rw [hmantissa]
    exact dvd_zero _
  · rw [withScale_of_not_isZero hzero]
    exact regular_padPlaces (regular_round h places) _

theorem regular_declared (hd : d.Regular) {p s : Option Nat} (h : d.declared p s = .ok e) : e.Regular := by
  rw [eq_of_declared h]
  cases s with
  | none => exact hd
  | some s => exact regular_withScale hd s

/-! ## Reading -/

theorem scale_of_ofMagnitude? {negative : Bool} {m s : Nat} (h : ofMagnitude? negative m s = some d) :
    d.scale = s := (ofParts?_eq_some h).2

theorem scale_of_roundOff {negative : Bool} {m s : Nat} {c : Char}
    (h : roundOff negative m s c = some d) : d.scale ≤ s := by
  unfold roundOff at h
  split at h
  · cases h
  dsimp only at h
  split at h
  · next hfits =>
    cases h
    exact (scale_of_ofMagnitude? hfits).le
  · split at h
    · cases h
    · rw [scale_of_ofMagnitude? h]
      exact Nat.sub_le s 1

theorem scale_of_readFrom {negative point hasDigit : Bool} {m s : Nat} {cs : List Char} (hs : s < maxScale)
    (h : readFrom negative m s point hasDigit cs = some d) : d.scale ≤ maxScale := by
  induction cs generalizing m s point hasDigit with
  | nil =>
    rw [readFrom] at h
    split at h
    · rw [scale_of_ofMagnitude? h]
      exact hs.le
    · cases h
  | cons c cs ih =>
    rw [readFrom.eq_def] at h
    dsimp only at h
    by_cases hc : c.isDigit = true
    · rw [if_pos hc] at h
      -- digits before the point keep the scale at zero, those behind it count until no more are kept
      cases point with
      | false =>
        simp only [Bool.false_and, Bool.false_eq_true, if_false] at h
        split at h
        · cases h
        · exact ih (by decide) h
      | true =>
        simp only [Bool.true_and, decide_eq_true_eq, if_true] at h
        split at h
        · exact (scale_of_roundOff h).trans hs.le
        · split at h
          · split at h
            · rw [scale_of_ofMagnitude? h]
              exact hs
            · exact (scale_of_roundOff h).trans hs
          · exact ih (by omega) h
    · rw [if_neg hc] at h
      split at h
      · exact ih hs h
      · split at h
        · exact ih hs h
        · cases h

theorem scale_of_plain? {cs : List Char} (h : plain? cs = some d) : d.scale ≤ maxScale := by
  unfold plain? at h
  split at h
  all_goals exact scale_of_readFrom (by decide) h

theorem scale_of_shiftRight {places : Nat} (hd : d.scale ≤ maxScale) (h : d.shiftRight places = some e) :
    e.scale ≤ maxScale := by
  unfold shiftRight at h
  split at h
  · cases h
    exact (Nat.sub_le _ _).trans hd
  · split at h
    · cases h
    · rw [(ofParts?_eq_some h).2]
      exact Nat.zero_le _

theorem scale_of_shiftLeft {places : Nat} (h : d.shiftLeft places = some e) : e.scale ≤ maxScale := by
  unfold shiftLeft at h
  split at h
  · cases h
  · cases h
    show d.scale + places ≤ maxScale
    omega

theorem scale_of_scientific? {cs : List Char} (h : scientific? cs = some d) : d.scale ≤ maxScale := by
  unfold scientific? at h
  dsimp only at h
  split at h
  · cases h
  · obtain ⟨base, hbase, h⟩ := Option.bind_eq_some_iff.mp h
    split at h
    · obtain ⟨places, -, h⟩ := Option.bind_eq_some_iff.mp h
      exact scale_of_shiftLeft h
    · obtain ⟨places, -, h⟩ := Option.bind_eq_some_iff.mp h
      exact scale_of_shiftRight (scale_of_plain? hbase) h

/-- Reading takes no more than `maxScale` places. -/
theorem scale_of_parse? {s : String} (h : parse? s = some d) : d.scale ≤ maxScale := by
  unfold parse? at h
  cases hplain : plain? s.toList with
  | none =>
    rw [hplain] at h
    exact scale_of_scientific? h
  | some e =>
    rw [hplain] at h
    cases h
    exact scale_of_plain? hplain

/-! ## Floating-point numbers -/

theorem scale_of_lower (n m scale : Nat) : (lower n m scale).2 ≤ scale - n := by
  induction n generalizing m scale with
  | zero => exact le_rfl
  | succ n ih =>
    unfold lower
    split
    · exact Nat.zero_le _
    · have hle := ih (tenth m) (scale - 1)
      omega

theorem scale_of_cut (m scale : Nat) : (cut m scale).2 ≤ scale := by
  induction scale generalizing m with
  | zero => exact le_rfl
  | succ scale ih =>
    unfold cut
    split
    · exact (ih _).trans (Nat.le_succ _)
    · exact le_rfl

theorem scale_of_dropZeros (m scale : Nat) : (dropZeros m scale).2 ≤ scale := by
  induction scale generalizing m with
  | zero => exact le_rfl
  | succ scale ih =>
    unfold dropZeros
    split
    · exact (ih _).trans (Nat.le_succ _)
    · exact le_rfl

/-- The decimal of a floating-point number has no more than `maxScale` places. -/
theorem scale_of_ofBinary64? {x : Binary64} (h : ofBinary64? x = some d) : d.scale ≤ maxScale := by
  unfold ofBinary64? at h
  split at h
  · cases h
  split at h
  · rw [(ofParts?_eq_some h).2]
    exact Nat.zero_le _
  generalize BinaryFormat.double.decode x.code = parts at h
  obtain ⟨m, q⟩ := parts
  dsimp only at h
  generalize (if q < 0 then takeHalves q.natAbs m q else takeDoubles q.natAbs m q) = expanded at h
  obtain ⟨m, e⟩ := expanded
  dsimp only at h
  split at h
  · obtain ⟨m, -, h⟩ := Option.bind_eq_some_iff.mp h
    rw [scale_of_ofMagnitude? h]
    exact Nat.zero_le _
  · rw [scale_of_ofMagnitude? h]
    refine (scale_of_dropZeros _ _).trans ((scale_of_cut _ _).trans ((scale_of_lower _ _ _).trans ?_))
    omega

end Numeric

end SqlStore
