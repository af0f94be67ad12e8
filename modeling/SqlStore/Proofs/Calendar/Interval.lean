import SqlStore.Proofs.Calendar.Clock
import SqlStore.Proofs.Calendar.Difference

/-!
# Intervals and their texts

The text of an interval is a row of words, and each word, or pair of an amount and a unit, adds its part to
the sum of those in front of it. No sum on the way leaves its field, so the interval is read back, unless
its clock form is the one that is not read.
-/

namespace SqlStore

namespace Text

/-! ## Words -/

/-- A blank ends a word. -/
theorem wordsFrom_append (word cs ds : List Char) :
    wordsFrom word (cs ++ ' ' :: ds) = wordsFrom word cs ++ wordsFrom [] ds := by
  have hblank : isBlank ' ' = true := by decide
  induction cs generalizing word with
  | nil =>
    have hstep : wordsFrom word (' ' :: ds) =
        if word.isEmpty then wordsFrom [] ds else word.reverse :: wordsFrom [] ds := if_pos hblank
    rw [List.nil_append, hstep, wordsFrom]
    split <;> rfl
  | cons c cs ih =>
    rw [List.cons_append, wordsFrom, wordsFrom]
    split
    · split
      · exact ih []
      · rw [ih [], List.cons_append]
    · exact ih (c :: word)

theorem words_append (s t : String) : words (s ++ " " ++ t) = words s ++ words t := by
  have htext : (s ++ " " ++ t).toList = s.toList ++ ' ' :: t.toList := by
    simp
  unfold words
  rw [htext, wordsFrom_append, List.map_append]

/-- Texts that are joined by blanks have the words of each. -/
theorem words_intercalate (ps : List String) : words (" ".intercalate ps) = ps.flatMap words := by
  induction ps with
  | nil => rfl
  | cons p ps ih =>
    cases ps with
    | nil => simp
    | cons q ps => rw [String.intercalate_cons_cons, words_append, ih, List.flatMap_cons (x := p)]

theorem wordsFrom_of_all {cs : List Char} (h : ∀ c ∈ cs, isBlank c = false) (word : List Char) :
    wordsFrom word cs = if word = [] ∧ cs = [] then [] else [word.reverse ++ cs] := by
  induction cs generalizing word with
  | nil =>
    rw [wordsFrom]
    cases word with
    | nil => rfl
    | cons c word => simp
  | cons c cs ih =>
    rw [wordsFrom, if_neg (by rw [h c List.mem_cons_self]; exact Bool.false_ne_true),
      ih fun d hd => h d (List.mem_cons_of_mem _ hd)]
    simp

/-- Text without blanks is a word. -/
theorem words_of_all {s : String} (hne : s.toList ≠ []) (h : ∀ c ∈ s.toList, isBlank c = false) :
    words s = [s] := by
  unfold words
  rw [wordsFrom_of_all h, if_neg fun hnil => hne hnil.2]
  simp

end Text

open Text Binary64

namespace Interval

/-! ## Amounts -/

/-- A sum is found if it fits. -/
theorem add?_of_sum {a b c : Interval} (hmonths : c.months.toInt = a.months.toInt + b.months.toInt)
    (hdays : c.days.toInt = a.days.toInt + b.days.toInt)
    (hmicros : c.micros.toInt = a.micros.toInt + b.micros.toInt) : a.add? b = some c := by
  unfold add? ofFields?
  rw [← hmonths, ← hdays, ← hmicros, int32?_toInt, int32?_toInt, int64?_toInt]
  rfl

/-- An amount whose fields are integers. -/
theorem ofAmount_of_fields {x m d u : Binary64} {unit : String} {i : Interval}
    (hunit : unitFields? unit x = some (m, d, u)) (hm : whole? m = some i.months.toInt)
    (hd : whole? d = some i.days.toInt) (hu : whole? u = some i.micros.toInt) : ofAmount x unit = .ok i := by
  unfold ofAmount
  rw [hunit]
  dsimp only
  rw [hm, hd, hu, Option.bind_some, Option.bind_some, Option.bind_some, int32?_toInt, int32?_toInt,
    int64?_toInt]

/-- The unit stands for so many months and days. -/
def Means (unit : String) (months days : Int) : Prop :=
  ∀ (x : Binary64) (n : Int), x.isFinite = true → x.toRat = n → n.natAbs ≤ 2 ^ 31 →
    ∃ m d u, unitFields? (unitName unit) x = some (m, d, u) ∧ whole? m = some (n * months) ∧
      whole? d = some (n * days) ∧ whole? u = some 0

theorem whole?_zero : whole? Binary64.zero = some 0 := by decide +kernel

theorem means_year {unit : String} (h : unitName unit = "year" ∨ unitName unit = "years") :
    Means unit 12 0 := by
  intro x n hx hn hle
  obtain ⟨htwelve, hvalue⟩ := ofInt_exact (n := 12) (by decide)
  have hproduct : x.toRat * (ofInt 12).toRat = ((n * 12 : Int) : ℚ) := by
    rw [hn, hvalue]
    push_cast
    rfl
  obtain ⟨hfinite, hexact⟩ := mul_exact hx htwelve (by omega) hproduct
  refine ⟨mul x (ofInt 12), Binary64.zero, Binary64.zero, ?_, whole?_of_toRat hfinite hexact, ?_,
    whole?_zero⟩
  · unfold unitFields?
    rcases h with h | h <;> rw [h] <;> rfl
  · rw [mul_zero]
    exact whole?_zero

theorem means_month {unit : String} (h : unitName unit = "mon" ∨ unitName unit = "mons") :
    Means unit 1 0 := by
  intro x n hx hn hle
  refine ⟨x, Binary64.zero, Binary64.zero, ?_, ?_, ?_, whole?_zero⟩
  · unfold unitFields?
    rcases h with h | h <;> rw [h] <;> rfl
  · rw [mul_one]
    exact whole?_of_toRat hx hn
  · rw [mul_zero]
    exact whole?_zero

theorem means_day {unit : String} (h : unitName unit = "day" ∨ unitName unit = "days") :
    Means unit 0 1 := by
  intro x n hx hn hle
  refine ⟨Binary64.zero, x, Binary64.zero, ?_, ?_, ?_, whole?_zero⟩
  · unfold unitFields?
    rcases h with h | h <;> rw [h] <;> rfl
  · rw [mul_zero]
    exact whole?_zero
  · rw [mul_one]
    exact whole?_of_toRat hx hn

/-! ## Steps of the sum -/

/-- The words add months, days and microseconds to any sum with a result. -/
def Adds (ws : List String) (months days micros : Int) : Prop :=
  ∀ (a b : Interval) (rest : List String), b.months.toInt = a.months.toInt + months →
    b.days.toInt = a.days.toInt + days → b.micros.toInt = a.micros.toInt + micros →
      readWords a (ws ++ rest) = readWords b rest

theorem eq_of_fields {a b : Interval} (hmonths : a.months.toInt = b.months.toInt)
    (hdays : a.days.toInt = b.days.toInt) (hmicros : a.micros.toInt = b.micros.toInt) : a = b := by
  obtain ⟨m, d, u⟩ := a
  obtain ⟨m', d', u'⟩ := b
  obtain rfl := Int32.toInt_inj.mp hmonths
  obtain rfl := Int32.toInt_inj.mp hdays
  obtain rfl := Int64.toInt_inj.mp hmicros
  rfl

theorem adds_nil : Adds [] 0 0 0 := by
  intro a b rest hmonths hdays hmicros
  rw [List.nil_append, eq_of_fields (a := b) (b := a) (by omega) (by omega) (by omega)]

/-- A word without a colon is an amount, and its unit follows. -/
theorem adds_amount {n months days : Int} {unit : String} (hunit : Means unit months days)
    (hn : n.natAbs ≤ 2 ^ 31) (hmonths : DataType.integer.holds (n * months) = true)
    (hdays : DataType.integer.holds (n * days) = true) :
    Adds [showInt n, unit] (n * months) (n * days) 0 := by
  intro a b rest hbmonths hbdays hbmicros
  have hcolon : ¬ (showInt n).contains ':' = true := by
    rw [String.contains_char_eq, decide_eq_true_eq]
    intro hmem
    exact absurd (mem_showInt hmem) (by decide)
  obtain ⟨x, hparse, hfinite, hvalue⟩ := parse?_showInt (n := n) (by omega)
  obtain ⟨m, d, u, hfields, hm, hd, hu⟩ := hunit x n hfinite hvalue hn
  have hnone : DataType.bigInt.holds 0 = true := by decide
  obtain ⟨term, -, htm, htd, htu⟩ := exists_ofFields? hmonths hdays hnone
  have hterm : ofAmount x (unitName unit) = .ok term :=
    ofAmount_of_fields hfields (htm ▸ hm) (htd ▸ hd) (htu ▸ hu)
  have hsum : a.add? term = some b := add?_of_sum (by omega) (by omega) (by omega)
  show readWords a (showInt n :: unit :: rest) = _
  conv_lhs => unfold readWords
  rw [if_neg hcolon, hparse, Option.filter_some, if_pos hfinite]
  dsimp only
  rw [hterm]
  dsimp only
  rw [hsum]

/-- The clock form is one word, which may fail. -/
theorem readWords_of_fault (a : Interval) {word : String} {fault : IntervalFault} (rest : List String)
    (hcolon : word.contains ':' = true) (h : readClock word.toList = .error fault) :
    readWords a (word :: rest) = .error fault := by
  conv_lhs => unfold readWords
  simp only [if_pos hcolon, h]

theorem readWords_of_clock {a b : Interval} {word : String} {n : Int} (rest : List String)
    (hcolon : word.contains ':' = true) (h : readClock word.toList = .ok n)
    (hsum : (ofFields? 0 0 n).bind a.add? = some b) : readWords a (word :: rest) = readWords b rest := by
  conv_lhs => unfold readWords
  simp only [if_pos hcolon, h, hsum]

theorem contains_clockText (n : Int) : (clockText n).contains ':' = true := by
  rw [String.contains_char_eq, decide_eq_true_eq, toList_clockText]
  simp

theorem adds_clockText {n : Int} (hn : DataType.bigInt.holds n = true) (hleast : n ≠ -2 ^ 63) :
    Adds [clockText n] 0 0 n := by
  intro a b rest hmonths hdays hmicros
  have hread : readClock (clockText n).toList = .ok n := by rw [readClock_clockText hn, if_neg hleast]
  have hnone : DataType.integer.holds 0 = true := by decide
  obtain ⟨term, hterm, htm, htd, htu⟩ := exists_ofFields? hnone hnone hn
  have hsum : a.add? term = some b := add?_of_sum (by omega) (by omega) (by omega)
  exact readWords_of_clock rest (contains_clockText n) hread (by rw [hterm, Option.bind_some, hsum])

/-! ## Parts of the text -/

/-- The part of a field, which is left out if it is zero. -/
def part (n : Int) (unit : String) : List String := if n == 0 then [] else [counted n unit]

theorem words_counted (n : Int) {unit : String}
    (hunit : ∀ s ∈ ["", "s"], words (unit ++ s) = [unit ++ s]) :
    ∃ s ∈ ["", "s"], words (counted n unit) = [showInt n, unit ++ s] := by
  have hnumber : words (showInt n) = [showInt n] := by
    refine words_of_all ?_ fun c => not_isBlank_showInt
    rw [toList_showInt]
    exact List.append_ne_nil_of_right_ne_nil _ (digits_ne_nil _)
  have hplural : (if n.natAbs == 1 then "" else "s") ∈ ["", "s"] := by
    split <;> decide
  refine ⟨_, hplural, ?_⟩
  unfold counted
  rw [String.append_assoc, words_append, hnumber, hunit _ hplural]
  rfl

theorem words_of_mem_part {n : Int} {unit p : String}
    (hunit : ∀ s ∈ ["", "s"], words (unit ++ s) = [unit ++ s]) (hp : p ∈ part n unit) :
    words p ≠ [] := by
  obtain ⟨s, -, hwords⟩ := words_counted n hunit
  unfold part at hp
  split at hp
  · cases hp
  · rw [List.mem_singleton.mp hp, hwords]
    exact List.cons_ne_nil _ _

/-- A part adds its field, also where it is left out. -/
theorem adds_part {n months days : Int} {unit : String}
    (hunit : ∀ s ∈ ["", "s"], words (unit ++ s) = [unit ++ s] ∧ Means (unit ++ s) months days)
    (hn : n.natAbs ≤ 2 ^ 31) (hmonths : DataType.integer.holds (n * months) = true)
    (hdays : DataType.integer.holds (n * days) = true) :
    Adds ((part n unit).flatMap words) (n * months) (n * days) 0 := by
  unfold part
  by_cases hzero : n = 0
  · rw [hzero, zero_mul, zero_mul]
    exact adds_nil
  · obtain ⟨s, hs, hwords⟩ := words_counted n fun s hs => (hunit s hs).1
    rw [if_neg (by simpa using hzero), List.flatMap_singleton, hwords]
    exact adds_amount (hunit s hs).2 hn hmonths hdays

theorem words_clockText (n : Int) : words (clockText n) = [clockText n] := by
  refine words_of_all ?_ fun c hc => ?_
  · rw [toList_clockText]
    exact List.append_ne_nil_of_right_ne_nil _ (List.append_ne_nil_of_left_ne_nil (padded_ne_nil _ _) _)
  · rcases mem_clockText hc with hmark | hdigit
    · simp only [List.mem_cons, List.not_mem_nil, or_false] at hmark
      rcases hmark with rfl | rfl | rfl <;> rfl
    · exact not_isBlank_of_isDigit hdigit

variable (i : Interval)

/-- The parts of the text in front of the clock form. -/
def calendarParts : List String :=
  part (i.months.toInt.tdiv 12) "year" ++ part (i.months.toInt.tmod 12) "mon" ++ part i.days.toInt "day"

/-- The clock form, where there is one. -/
def clockParts : List String :=
  if i.micros.toInt != 0 || i.calendarParts.isEmpty then [clockText i.micros.toInt] else []

/-- The words of the units. Only the two forms that are written are read here. -/
theorem unit_words : ∀ s ∈ ["", "s"],
    (words ("year" ++ s) = ["year" ++ s] ∧ Means ("year" ++ s) 12 0) ∧
      (words ("mon" ++ s) = ["mon" ++ s] ∧ Means ("mon" ++ s) 1 0) ∧
      words ("day" ++ s) = ["day" ++ s] ∧ Means ("day" ++ s) 0 1 := by
  intro s hs
  rcases List.mem_pair.mp hs with rfl | rfl
  · exact ⟨⟨rfl, means_year (.inl rfl)⟩, ⟨rfl, means_month (.inl rfl)⟩, rfl, means_day (.inl rfl)⟩
  · exact ⟨⟨rfl, means_year (.inr rfl)⟩, ⟨rfl, means_month (.inr rfl)⟩, rfl, means_day (.inr rfl)⟩

/-- The years and the months that are left, which have the sign of the years. -/
theorem months_split : i.months.toInt.tdiv 12 * 12 + i.months.toInt.tmod 12 = i.months.toInt ∧
    (i.months.toInt.tdiv 12).natAbs = i.months.toInt.natAbs / 12 ∧
      (i.months.toInt.tmod 12).natAbs < 12 := by
  refine ⟨Int.tdiv_mul_add_tmod _ _, Int.natAbs_tdiv _ _, ?_⟩
  rw [Int.natAbs_tmod]
  exact Nat.mod_lt _ (by decide)

/-- The parts in front of the clock form add up to the months and the days. -/
theorem readWords_calendarParts (rest : List String) :
    readWords zero (i.calendarParts.flatMap words ++ rest) = readWords ⟨i.months, i.days, 0⟩ rest := by
  have hlow := i.months.le_toInt
  have hhigh := i.months.toInt_lt
  have hdlow := i.days.le_toInt
  have hdhigh := i.days.toInt_lt
  obtain ⟨hsum, hyears, hmonths⟩ := i.months_split
  have hfits : DataType.integer.holds (i.months.toInt.tdiv 12 * 12) = true :=
    DataType.holds_integer.mpr (by omega)
  have hyear := adds_part (fun s hs => (unit_words s hs).1) (by omega) hfits (by rw [mul_zero]; decide)
  have hmon := adds_part (n := i.months.toInt.tmod 12) (fun s hs => (unit_words s hs).2.1) (by omega)
    (DataType.holds_integer.mpr (by omega)) (by rw [mul_zero]; decide)
  have hday := adds_part (n := i.days.toInt) (fun s hs => (unit_words s hs).2.2) (by omega)
    (by rw [mul_zero]; decide) (DataType.holds_integer.mpr (by omega))
  have hnodays : DataType.integer.holds 0 = true := by decide
  have hnomicros : DataType.bigInt.holds 0 = true := by decide
  obtain ⟨years, -, hym, hyd, hyu⟩ := exists_ofFields? hfits hnodays hnomicros
  have hzero : zero.months.toInt = 0 ∧ zero.days.toInt = 0 ∧ zero.micros.toInt = 0 := ⟨rfl, rfl, rfl⟩
  have hnone : (0 : Int32).toInt = 0 ∧ (0 : Int64).toInt = 0 := ⟨rfl, rfl⟩
  unfold calendarParts
  rw [List.flatMap_append, List.flatMap_append, List.append_assoc, List.append_assoc,
    hyear zero years _ (by omega) (by omega) (by omega),
    hmon years ⟨i.months, 0, 0⟩ _ (by dsimp only; omega) (by dsimp only; omega) (by dsimp only; omega),
    hday ⟨i.months, 0, 0⟩ ⟨i.months, i.days, 0⟩ _ (by dsimp only; omega) (by dsimp only; omega) rfl]

theorem text_eq : i.text = " ".intercalate (i.calendarParts ++ i.clockParts) := rfl

theorem words_text : words i.text = i.calendarParts.flatMap words ++ i.clockParts := by
  have hclock : i.clockParts.flatMap words = i.clockParts := by
    unfold clockParts
    split
    · rw [List.flatMap_singleton, words_clockText]
    · rfl
  rw [text_eq, words_intercalate, List.flatMap_append, hclock]

/-- The text has a word. -/
theorem words_text_ne_nil : words i.text ≠ [] := by
  rw [words_text]
  by_cases hnone : i.calendarParts = []
  · have hclock : i.clockParts = [clockText i.micros.toInt] := if_pos (by simp [hnone])
    rw [hclock]
    exact List.append_ne_nil_of_right_ne_nil _ (List.cons_ne_nil _ _)
  · obtain ⟨p, hp⟩ := List.exists_mem_of_ne_nil _ hnone
    have hwords : words p ≠ [] := by
      unfold calendarParts at hp
      rcases List.mem_append.mp hp with hp | hday
      · rcases List.mem_append.mp hp with hyear | hmon
        · exact words_of_mem_part (fun s hs => (unit_words s hs).1.1) hyear
        · exact words_of_mem_part (fun s hs => (unit_words s hs).2.1.1) hmon
      · exact words_of_mem_part (fun s hs => (unit_words s hs).2.2.1) hday
    intro hnil
    exact hwords (List.flatMap_eq_nil_iff.mp (List.append_eq_nil_iff.mp hnil).1 p hp)

/-- Only the clock form is left to be read. -/
theorem parse_text_eq : parse i.text = readWords ⟨i.months, i.days, 0⟩ i.clockParts := by
  rw [← readWords_calendarParts, ← words_text]
  unfold parse
  split
  · next hnil => exact absurd hnil i.words_text_ne_nil
  · rfl

/-- An interval is read back from its text, unless its time is the least number of 64 bits: the clock form is
read without its sign, and the opposite number does not fit. -/
theorem text_read_back : parse i.text =
    if i.micros.toInt = -2 ^ 63 then .error .outOfRange else .ok i := by
  have hmicros : DataType.bigInt.holds i.micros.toInt = true := (Value.IsInteger.bigInt i.micros).holds
  rw [parse_text_eq]
  by_cases hclock : i.micros.toInt ≠ 0 ∨ i.calendarParts = []
  · have hparts : i.clockParts = [clockText i.micros.toInt] := if_pos (by simpa using hclock)
    rw [hparts]
    by_cases hleast : i.micros.toInt = -2 ^ 63
    · have hfault := readClock_clockText hmicros
      rw [if_pos hleast] at hfault ⊢
      exact readWords_of_fault _ [] (contains_clockText _) hfault
    · have hadds := adds_clockText hmicros hleast ⟨i.months, i.days, 0⟩ i [] (Int.add_zero _).symm
        (Int.add_zero _).symm (Int.zero_add _).symm
      rw [List.append_nil] at hadds
      rw [hadds, if_neg hleast]
      rfl
  · obtain ⟨hzero, -⟩ := not_or.mp hclock
    have hparts : i.clockParts = [] := if_neg (by simpa using hclock)
    have hself : (⟨i.months, i.days, 0⟩ : Interval) = i :=
      eq_of_fields rfl rfl (show (0 : Int) = i.micros.toInt by omega)
    rw [hparts, hself, if_neg (by omega)]
    rfl

end Interval

namespace Sample

/-- The longest time back. -/
def longestBack : Interval := ⟨0, 0, Int64.minValue⟩

/-- The clock form of the longest time back is not read, although the same number of microseconds is. -/
theorem longestBack_not_read :
    longestBack.text = "-2562047788:00:54.775808" ∧
      Interval.parse longestBack.text = .error .outOfRange ∧
      Interval.parse longestBack.text ≠ .ok longestBack ∧
      Interval.parse "-9223372036854775808 microseconds" = .ok longestBack := by
  have htext : longestBack.text = "-2562047788:00:54.775808" := by decide +kernel
  have hfault : Interval.parse longestBack.text = .error .outOfRange := by
    have hwords : words "-2562047788:00:54.775808" = ["-2562047788:00:54.775808"] := by decide +kernel
    rw [htext]
    unfold Interval.parse
    rw [hwords]
    dsimp only
    unfold Interval.readWords
    rw [String.contains_char_eq]
    decide +kernel
  have hread : Interval.parse "-9223372036854775808 microseconds" = .ok longestBack := by
    have hwords : words "-9223372036854775808 microseconds" = ["-9223372036854775808", "microseconds"] := by
      decide +kernel
    unfold Interval.parse
    rw [hwords]
    dsimp only
    unfold Interval.readWords
    rw [String.contains_char_eq]
    decide +kernel
  refine ⟨htext, hfault, ?_, hread⟩
  rw [hfault]
  exact fun heq => nomatch heq

end Sample

end SqlStore
