import SqlStore.Calendar.Reading
import SqlStore.Proofs.Calendar.Civil
import SqlStore.Proofs.Numeric.Text

/-!
# Dates and times from their texts

The layouts read what dates, times of day and timestamps are written as. Each field takes the digits that
it was written with, whatever comes after it, and the fields together give back the date or the time. An
instant is written with an offset of hours alone, which internet timestamps do not have, so it is read by
the layout that ends in an offset.
-/

namespace SqlStore

namespace Text

theorem length_digitsOnto_le {fuel n width : Nat} (hwidth : 0 < width) (hn : n < pow10 width) :
    (digitsOnto fuel n []).length ≤ width := by
  induction fuel generalizing n width with
  | zero => exact Nat.zero_le _
  | succ fuel ih =>
    rw [digitsOnto_succ]
    split
    · exact hwidth
    · next hten =>
      obtain ⟨width, rfl⟩ : ∃ k, width = k + 1 := ⟨width - 1, by omega⟩
      have hpos : 0 < width := by
        rcases Nat.eq_zero_or_pos width with rfl | hpos
        · exact absurd hn hten
        · exact hpos
      have hle := ih hpos (n := n / 10) (by rw [pow10_succ] at hn; omega)
      rw [digitsOnto_eq_append, List.length_append]
      exact Nat.succ_le_succ hle

theorem length_padded {width n : Nat} (hwidth : 0 < width) (hn : n < pow10 width) :
    (padded width n).length = width := by
  have hle : (digits n).length ≤ width := length_digitsOnto_le hwidth hn
  unfold padded
  rw [List.length_append, List.length_replicate]
  omega

theorem trimLeft_cons {c : Char} (hc : isBlank c = false) (cs : List Char) :
    trimLeft (c :: cs) = c :: cs := by
  unfold trimLeft
  rw [List.dropWhile_cons, if_neg (by rw [hc]; decide)]

theorem exists_padded_cons (width n : Nat) :
    ∃ c cs, padded width n = c :: cs ∧ c.isDigit = true := by
  have hall := all_padded width n
  cases hpadded : padded width n with
  | nil =>
    have hdigits : digits n = [] := (List.append_eq_nil_iff.mp hpadded).2
    exact absurd hdigits (digits_ne_nil n)
  | cons c cs =>
    rw [hpadded, List.all_cons, Bool.and_eq_true] at hall
    exact ⟨c, cs, rfl, hall.1⟩

theorem trimLeft_padded (width n : Nat) (rest : List Char) :
    trimLeft (padded width n ++ rest) = padded width n ++ rest := by
  obtain ⟨c, cs, hpadded, hc⟩ := exists_padded_cons width n
  rw [hpadded]
  exact trimLeft_cons (not_isBlank_of_isDigit hc) (cs ++ rest)

end Text

namespace Calendar

open Text

variable {f : Fields} {p : Piece} {n : Nat} {rest : List Char}

/-! ## Fields -/

/-- A number takes the digits in front, where it may not take more or there are no more. -/
theorem number_of_digits {least most : Nat} {ds : List Char} (h : ds.all Char.isDigit = true)
    (hleast : least ≤ ds.length) (hmost : ds.length ≤ most)
    (hrest : ds.length = most ∨ ∀ c ∈ rest.head?, c.isDigit = false) (hlt : natOfDigits ds < pow2 63) :
    number least most (ds ++ rest) = .ok (natOfDigits ds, rest) := by
  have hnone : (rest.take (most - ds.length)).takeWhile Char.isDigit = [] := by
    rcases hrest with hfull | hparted
    · rw [hfull, Nat.sub_self]
      rfl
    · cases rest with
      | nil => simp
      | cons c cs =>
        have hc : c.isDigit = false := hparted c rfl
        cases most - ds.length with
        | zero => rfl
        | succ k => rw [List.take_succ_cons, List.takeWhile_cons, if_neg (by rw [hc]; decide)]
  have hdigits : ((ds ++ rest).take most).takeWhile Char.isDigit = ds := by
    rw [List.take_append, List.take_of_length_le hmost,
      List.takeWhile_append_of_pos (List.all_eq_true.mp h), hnone, List.append_nil]
  unfold number
  dsimp only
  rw [hdigits, if_neg (by omega), if_neg (by omega), List.drop_left]

theorem number_padded {least most width : Nat} (hwidth : 0 < width) (hn : n < pow10 width)
    (hleast : least ≤ width) (hmost : width ≤ most)
    (hrest : width = most ∨ ∀ c ∈ rest.head?, c.isDigit = false) (hlt : n < pow2 63) :
    number least most (padded width n ++ rest) = .ok (n, rest) := by
  have hlength := length_padded hwidth hn
  have hnumber := natOfDigits_padded width n
  have h : number least most (padded width n ++ rest) = .ok (natOfDigits (padded width n), rest) :=
    number_of_digits (all_padded width n) (by omega) (by omega) (by rwa [hlength]) (by omega)
  rwa [hnumber] at h

theorem number_field (hn : n < 100) (rest : List Char) :
    number 1 2 (trimLeft (padded 2 n ++ rest)) = .ok (n, rest) := by
  rw [trimLeft_padded]
  exact number_padded (by decide) hn (by decide) le_rfl (.inl rfl) (Nat.lt_trans hn (by decide))

theorem within_of_le {low high : Nat} (hlow : low ≤ n) (hhigh : n ≤ high) :
    within low high n = .ok n := by
  unfold within
  rw [if_pos (by simp [hlow, hhigh])]

/-- The year of a date as it is written. -/
def yearText (year : Int) : List Char :=
  if 0 ≤ year && year ≤ 9999 then padded 4 year.natAbs
  else (if year < 0 then '-' else '+') :: padded 4 year.natAbs

theorem signedYear_of_digit {c : Char} (hc : c.isDigit = true) (cs : List Char) :
    signedYear (c :: cs) = (number 1 4 (c :: cs)).map fun r => ((r.1 : Int), r.2) := by
  unfold signedYear
  split
  · next heq =>
    cases heq
    exact absurd hc (by decide)
  · next heq =>
    cases heq
    exact absurd hc (by decide)
  · rfl

/-- A sign may be followed by any number of digits. -/
theorem number_signed (hn : n < pow2 63) {c : Char} (hc : c.isDigit = false) (cs : List Char) :
    number 1 (padded 4 n ++ c :: cs).length (padded 4 n ++ c :: cs) = .ok (n, c :: cs) := by
  have hle := le_length_padded 4 n
  have hnumber := natOfDigits_padded 4 n
  have h : number 1 (padded 4 n ++ c :: cs).length (padded 4 n ++ c :: cs) =
      .ok (natOfDigits (padded 4 n), c :: cs) :=
    number_of_digits (all_padded 4 n) (by omega) (by simp) (.inr (by simpa using hc)) (by omega)
  rwa [hnumber] at h

theorem signedYear_yearText {year : Int} (hyear : year.natAbs < pow2 31) {c : Char}
    (hc : c.isDigit = false) (cs : List Char) :
    signedYear (yearText year ++ c :: cs) = .ok (year, c :: cs) := by
  have hlt : year.natAbs < pow2 63 := Nat.lt_trans hyear (by decide)
  unfold yearText
  split
  · next hplain =>
    simp only [Bool.and_eq_true, decide_eq_true_eq] at hplain
    obtain ⟨d, ds, hpadded, hd⟩ := exists_padded_cons 4 year.natAbs
    have hnumber : number 1 4 (padded 4 year.natAbs ++ c :: cs) = .ok (year.natAbs, c :: cs) :=
      number_padded (by decide) (show year.natAbs < 10000 by omega) (by decide) le_rfl (.inl rfl) hlt
    rw [hpadded, List.cons_append] at hnumber ⊢
    rw [signedYear_of_digit hd, hnumber]
    exact congrArg (fun y : Int => Except.ok (y, c :: cs)) (by omega)
  · split
    · rw [List.cons_append, signedYear, number_signed hlt hc]
      exact congrArg (fun y : Int => Except.ok (y, c :: cs)) (by omega)
    · next hlarge hnegative =>
      rw [List.cons_append, signedYear, number_signed hlt hc]
      exact congrArg (fun y : Int => Except.ok (y, c :: cs)) (by omega)

theorem trimLeft_yearText (year : Int) (cs : List Char) :
    trimLeft (yearText year ++ cs) = yearText year ++ cs := by
  unfold yearText
  split
  · exact trimLeft_padded 4 _ cs
  · split
    · exact trimLeft_cons (by decide) _
    · exact trimLeft_cons (by decide) _

/-- The digits of a fraction count from the point. -/
theorem nanoseconds_padded {width : Nat} (hwidth : 0 < width) (hle : width ≤ 9) (hn : n < pow10 width)
    (hrest : ∀ c ∈ rest.head?, c.isDigit = false) :
    nanoseconds (padded width n ++ rest) = .ok (n * pow10 (9 - width), rest) := by
  have hbound : pow10 width ≤ pow10 9 := by interval_cases width <;> decide
  have hnumber : number 1 9 (padded width n ++ rest) = .ok (n, rest) :=
    number_padded hwidth hn hwidth hle (.inr hrest)
      (Nat.lt_trans (Nat.lt_of_lt_of_le hn hbound) (by decide))
  have hlength := length_padded hwidth hn
  have hdrop : rest.dropWhile Char.isDigit = rest := by
    cases rest with
    | nil => rfl
    | cons c cs => rw [List.dropWhile_cons, if_neg (by rw [hrest c rfl]; decide)]
  unfold nanoseconds
  rw [hnumber]
  show Except.ok (n * pow10 (9 - ((padded width n ++ rest).length - rest.length)),
    rest.dropWhile Char.isDigit) = _
  rw [hdrop, List.length_append, hlength, Nat.add_sub_cancel]

/-- A fraction is read where no digit and no point follows. -/
theorem read_fraction (hf : f.nanos = 0) (hn : n < nanosPerSecond)
    (hrest : ∀ c ∈ rest.head?, c.isDigit = false ∧ c ≠ '.') :
    Piece.fraction.read f (Time.fractionText n ++ rest) = .ok ({ f with nanos := n }, rest) := by
  have hdigit : ∀ c ∈ rest.head?, c.isDigit = false := fun c hc => (hrest c hc).1
  have hread : ∀ {width m : Nat}, 0 < width → width ≤ 9 → m < pow10 width →
      m * pow10 (9 - width) = n →
      Piece.fraction.read f ('.' :: padded width m ++ rest) = .ok ({ f with nanos := n }, rest) := by
    intro width m hwidth hle hm heq
    show (nanoseconds (padded width m ++ rest)).bind
      (fun r => .ok (({ f with nanos := r.1 } : Fields), r.2)) = _
    rw [nanoseconds_padded hwidth hle hm hdigit, heq]
    rfl
  unfold Time.fractionText
  unfold nanosPerSecond at hn
  split_ifs with hzero hmillis hmicros
  · -- nothing is written, and the second goes on to what follows, which is no point
    obtain rfl : n = 0 := by simpa using hzero
    have hkeep : ({ f with nanos := 0 } : Fields) = f := by rw [← hf]
    rw [hkeep, List.nil_append]
    cases rest with
    | nil => rfl
    | cons c cs =>
      rw [Piece.read]
      · rfl
      · rintro cs' heq
        cases heq
        exact (hrest '.' rfl).2 rfl
  · rw [beq_iff_eq] at hmillis
    exact hread (by decide) (by decide) (show n / 1000000 < 1000 by omega)
      (show n / 1000000 * 1000000 = n by omega)
  · rw [beq_iff_eq] at hmicros
    exact hread (by decide) (by decide) (show n / 1000 < 1000000 by omega)
      (show n / 1000 * 1000 = n by omega)
  · exact hread (by decide) (by decide) hn (Nat.mul_one n)

/-! ## Layouts -/

theorem readPieces_cons {ps : List Piece} {g : Fields} {cs : List Char}
    (h : p.read f cs = .ok (g, rest)) : readPieces (p :: ps) f cs = readPieces ps g rest := by
  rw [readPieces, h]

theorem read_mark (f : Fields) (c : Char) (cs : List Char) :
    (Piece.mark c).read f (c :: cs) = .ok (f, cs) := by
  unfold Piece.read mark
  dsimp only
  rw [if_pos (beq_self_eq_true c)]
  rfl

theorem read_year {year : Int} (hyear : year.natAbs < pow2 31) {c : Char} (hc : c.isDigit = false)
    (cs : List Char) :
    Piece.year.read f (yearText year ++ c :: cs) = .ok ({ f with year := year }, c :: cs) := by
  unfold Piece.read
  dsimp only
  rw [trimLeft_yearText, signedYear_yearText hyear hc]
  exact if_neg (show ¬ pow2 31 ≤ year.natAbs by omega)

/-- A field of at most two digits that is checked against a range. -/
theorem read_field {low high : Nat} (set : Nat → Fields) (hlow : low ≤ n) (hhigh : n ≤ high)
    (hbound : high < 100)
    (hread : ∀ cs, p.read f cs = (number 1 2 (trimLeft cs)).bind fun r =>
      (within low high r.1).bind fun m => .ok (set m, r.2))
    (rest : List Char) : p.read f (padded 2 n ++ rest) = .ok (set n, rest) := by
  rw [hread, number_field (by omega)]
  show (within low high n).bind (fun m => .ok (set m, rest)) = _
  rw [within_of_le hlow hhigh]
  rfl

theorem toList_dateText (d : Date) : d.text.toList = yearText d.civil.year ++
    '-' :: (padded 2 d.civil.month ++ '-' :: padded 2 d.civil.day) := by
  unfold Date.text
  rw [String.toList_ofList]
  simp [yearText]

/-- The fields with those of a date. -/
def Fields.withDate (f : Fields) (d : Date) : Fields :=
  { f with year := d.civil.year, month := d.civil.month, day := d.civil.day }

theorem readPieces_date (d : Date) (f : Fields) (ps : List Piece) (rest : List Char) :
    readPieces (dateLayout ++ ps) f (d.text.toList ++ rest) = readPieces ps (f.withDate d) rest := by
  obtain ⟨hmonth, hmonth', hday, hlast⟩ := d.civil_valid
  have hday' : d.civil.day ≤ 31 := Nat.le_trans hlast (Date.daysInMonth_le _ _)
  have hyear : d.civil.year.natAbs < pow2 31 := Nat.lt_trans d.natAbs_civil_lt (by decide)
  rw [toList_dateText]
  simp only [List.append_assoc, List.cons_append]
  show readPieces (.year :: .mark '-' :: .month :: .mark '-' :: .day :: ps) _ _ = _
  rw [readPieces_cons (read_year hyear rfl _), readPieces_cons (read_mark _ _ _),
    readPieces_cons (read_field (fun m => { f with year := d.civil.year, month := m }) hmonth hmonth'
      (by decide) (fun _ => rfl) _),
    readPieces_cons (read_mark _ _ _),
    readPieces_cons (read_field
      (fun m => { f with year := d.civil.year, month := d.civil.month, day := m }) hday hday'
      (by decide) (fun _ => rfl) _)]
  rfl

theorem toList_timeText (t : Time) : t.text.toList = padded 2 (t.second / 3600) ++
    ':' :: (padded 2 (t.second / 60 % 60) ++ ':' :: (padded 2 (t.second % 60 + t.nanos / nanosPerSecond) ++
      Time.fractionText (t.nanos % nanosPerSecond))) := by
  unfold Time.text
  rw [String.toList_ofList]
  simp

/-- The fields with those of a time of day. -/
def Fields.withTime (f : Fields) (t : Time) : Fields :=
  { f with
    hour := t.second / 3600
    minute := t.second / 60 % 60
    second := t.second % 60 + t.nanos / nanosPerSecond
    nanos := t.nanos % nanosPerSecond }

theorem readPieces_time (t : Time) (hf : f.nanos = 0) (ps : List Piece)
    (hrest : ∀ c ∈ rest.head?, c.isDigit = false ∧ c ≠ '.') :
    readPieces (secondLayout ++ ps) f (t.text.toList ++ rest) = readPieces ps (f.withTime t) rest := by
  have hsecond := t.second_lt
  have hleap : t.nanos / nanosPerSecond < 2 := Nat.div_lt_of_lt_mul (by
    rw [Nat.mul_comm]
    exact t.nanos_lt)
  rw [toList_timeText]
  simp only [List.append_assoc, List.cons_append]
  show readPieces (.hour :: .mark ':' :: .minute :: .mark ':' :: .second :: .fraction :: ps) _ _ = _
  rw [readPieces_cons (read_field (fun h => { f with hour := h }) (Nat.zero_le _) (by omega) (by decide)
      (fun _ => rfl) _),
    readPieces_cons (read_mark _ _ _),
    readPieces_cons (read_field (fun m => { f with hour := t.second / 3600, minute := m }) (Nat.zero_le _)
      (by omega) (by decide) (fun _ => rfl) _),
    readPieces_cons (read_mark _ _ _),
    readPieces_cons (read_field
      (fun s => { f with hour := t.second / 3600, minute := t.second / 60 % 60, second := s })
      (Nat.zero_le _) (by omega) (by decide) (fun _ => rfl) _),
    readPieces_cons (read_fraction (by exact hf) (Nat.mod_lt _ (by decide)) hrest)]
  rfl

theorem readLayout_of {layout : List Piece} {s : String} (h : readPieces layout {} s.toList = .ok (f, [])) :
    readLayout layout s = .ok f := by
  rw [readLayout, h]

theorem date_withDate (f : Fields) (d : Date) : (f.withDate d).date = .ok d := by
  unfold Fields.date
  rw [show Date.ofCivil? (f.withDate d).year (f.withDate d).month (f.withDate d).day = some d from
    d.ofCivil?_civil]

end Calendar

open Calendar

/-! ## Dates and times of day -/

/-- The text of a date is read as the date. -/
theorem Date.parse_text (d : Date) : Date.parse d.text = .ok d := by
  have hlayout : readPieces (dateLayout ++ []) {} (d.text.toList ++ []) = .ok (({} : Fields).withDate d, []) :=
    readPieces_date d {} [] []
  rw [List.append_nil, List.append_nil] at hlayout
  unfold Date.parse
  rw [readLayout_of hlayout]
  exact date_withDate {} d

namespace Time

variable {t : Time}

/-- A leap second is the last one of its minute. -/
def Regular (t : Time) : Prop := t.isLeap = true → t.second % 60 = 59

theorem ofParts?_self (t : Time) : ofParts? t.second t.nanos = some t :=
  dif_pos ⟨t.second_lt, t.nanos_lt⟩

/-- A time of day is the one that its clock shows. -/
theorem ofClock?_of_regular (h : t.Regular) :
    ofClock? (t.second / 3600) (t.second / 60 % 60) (t.second % 60 + t.nanos / nanosPerSecond)
      (t.nanos % nanosPerSecond) = some t := by
  have hsecond := t.second_lt
  have hself := t.ofParts?_self
  have hhour : t.second / 3600 = t.second / 60 / 60 := (Nat.div_div_eq_div_mul _ 60 60).symm
  have hfraction : t.nanos % nanosPerSecond < nanosPerSecond := Nat.mod_lt _ (by decide)
  have hparts : t.nanos / nanosPerSecond = 0 ∧ t.nanos % nanosPerSecond = t.nanos ∨
      t.nanos / nanosPerSecond = 1 ∧ t.nanos % nanosPerSecond + nanosPerSecond = t.nanos ∧
        t.second % 60 = 59 := by
    have hnanos := t.nanos_lt
    have hleap : nanosPerSecond ≤ t.nanos → t.second % 60 = 59 := fun hle => h (decide_eq_true hle)
    unfold nanosPerSecond at *
    omega
  generalize t.nanos / nanosPerSecond = extra at *
  generalize t.nanos % nanosPerSecond = fraction at *
  unfold ofClock?
  rw [if_pos (by simp only [Bool.and_eq_true, decide_eq_true_eq]; omega)]
  obtain ⟨rfl, rfl⟩ | ⟨rfl, hnanos, hlast⟩ := hparts
  · rw [if_neg (by rw [beq_iff_eq]; omega), show t.second / 3600 * 3600 + t.second / 60 % 60 * 60 +
      (t.second % 60 + 0) = t.second by omega]
    exact hself
  · rw [if_pos (by rw [beq_iff_eq]; omega), hnanos, show t.second / 3600 * 3600 +
      t.second / 60 % 60 * 60 + 59 = t.second by omega]
    exact hself

end Time

namespace Calendar

theorem time_withTime {t : Time} (h : t.Regular) (f : Fields) : (f.withTime t).time = .ok t := by
  unfold Fields.time
  rw [show Time.ofClock? (f.withTime t).hour (f.withTime t).minute (f.withTime t).second
    (f.withTime t).nanos = some t from Time.ofClock?_of_regular h]

end Calendar

/-- The text of a time of day is read as the time. -/
theorem Time.parse?_text {t : Time} (h : t.Regular) : Time.parse? t.text = some t := by
  have hlayout : readPieces (secondLayout ++ []) {} (t.text.toList ++ []) =
      .ok (({} : Fields).withTime t, []) := readPieces_time t rfl [] (by simp)
  rw [List.append_nil, List.append_nil] at hlayout
  unfold Time.parse?
  dsimp only
  rw [readLayout_of hlayout]
  show ((({} : Fields).withTime t).time.toOption.orElse _) = _
  rw [time_withTime h]
  rfl

/-! ## Timestamps -/

namespace Timestamp

variable {t : Timestamp}

theorem toList_text (t : Timestamp) (zone : String) :
    (t.text ++ zone).toList = t.date.text.toList ++ ' ' :: (t.time.text.toList ++ zone.toList) := by
  unfold text
  simp

/-- The layout of a date, a blank and a time reads the text of a timestamp, whatever stands after it. -/
theorem readPieces_text (t : Timestamp) (ps : List Piece) (zone : String)
    (hzone : ∀ c ∈ zone.toList.head?, c.isDigit = false ∧ c ≠ '.') :
    readPieces (dateLayout ++ .blank :: (secondLayout ++ ps)) {} (t.text ++ zone).toList =
      readPieces ps ((({} : Fields).withDate t.date).withTime t.time) zone.toList := by
  rw [toList_text, readPieces_date]
  have hblank : Piece.blank.read (({} : Fields).withDate t.date) (' ' :: (t.time.text.toList ++ zone.toList)) =
      .ok (({} : Fields).withDate t.date, t.time.text.toList ++ zone.toList) := by
    have htrim : Text.trimLeft (t.time.text.toList ++ zone.toList) = t.time.text.toList ++ zone.toList := by
      rw [toList_timeText, List.append_assoc, Text.trimLeft_padded]
    have hskip : Text.trimLeft (' ' :: (t.time.text.toList ++ zone.toList)) =
        Text.trimLeft (t.time.text.toList ++ zone.toList) := List.dropWhile_cons_of_pos (by decide)
    rw [Piece.read, hskip, htrim]
    rfl
  rw [readPieces_cons hblank, readPieces_time t.time rfl ps hzone]

theorem timestamp_of_regular (h : t.time.Regular) :
    ((({} : Fields).withDate t.date).withTime t.time).timestamp = .ok t := by
  have hdate : ((({} : Fields).withDate t.date).withTime t.time).date = .ok t.date :=
    date_withDate {} t.date
  unfold Fields.timestamp
  rw [hdate, time_withTime h]
  rfl

/-- The text of a timestamp is read as the timestamp. -/
theorem parse?_text (h : t.time.Regular) : Timestamp.parse? t.text = some t := by
  have hlayout := readPieces_text t [] "" (by simp)
  rw [List.append_nil, String.append_empty] at hlayout
  have hread : ((readLayout (dateLayout ++ .blank :: secondLayout) t.text).bind (·.timestamp)).toOption =
      some t := by
    rw [readLayout_of hlayout]
    exact congrArg Except.toOption (timestamp_of_regular h)
  unfold Timestamp.parse?
  dsimp only
  rw [timestampLayouts, List.findSome?_cons, hread]
  rfl

/-- Where full seconds wrap to. -/
theorem wrap_seconds (x : Int) : (Time.wrap (x * nanosPerSecond)).1.second = (x % 86400).toNat ∧
    (Time.wrap (x * nanosPerSecond)).2 = x / 86400 := by
  have hunit : (nanosPerSecond : Int) ≠ 0 := by
    unfold nanosPerSecond
    omega
  simp only [Time.wrap]
  rw [Int.mul_ediv_cancel _ hunit]
  exact ⟨rfl, rfl⟩

/-- Going back by no seconds stays, in a leap second too. -/
theorem subSeconds?_of_zero (t : Timestamp) {n : Int} (hn : n = 0) : t.subSeconds? n = some t := by
  have hsecond := t.time.second_lt
  have hwrap := wrap_seconds (t.time.second - n)
  have hdate : t.date.addDays? 0 = some t.date := by
    unfold Date.addDays? Date.ofDay?
    rw [Int.add_zero, dif_pos ⟨t.date.from_first, t.date.to_last⟩]
  rw [show (((t.time.second : Int) - n) % 86400).toNat = t.time.second by omega,
    show ((t.time.second : Int) - n) / 86400 = 0 by omega] at hwrap
  -- the wrapped time is kept closed, since the unit that it counts in is large
  unfold subSeconds?
  generalize Time.wrap _ = w at *
  obtain ⟨time, days⟩ := w
  obtain ⟨htime, rfl⟩ := hwrap
  dsimp only at htime ⊢
  rw [htime, Time.ofParts?_self, hdate]

end Timestamp

namespace Calendar

/-! ## Internet timestamps -/

/-- Whatever the reader reads, it leaves an end of the text. -/
def Shortens {α : Type} (r : Reader α) : Prop := ∀ cs a rest, r cs = .ok (a, rest) → rest <:+ cs

theorem shortens_number (least most : Nat) : Shortens (number least most) := by
  intro cs n rest h
  unfold number at h
  dsimp only at h
  split at h
  · cases h
  · split at h
    · cases h
    · cases h
      exact List.drop_suffix _ _

theorem eq_cons_of_mark {c : Char} {cs : List Char} {u : Unit} (h : mark c cs = .ok (u, rest)) :
    cs = c :: rest := by
  cases cs with
  | nil => cases h
  | cons d cs =>
    rw [mark] at h
    split at h
    · next heq =>
      cases h
      rw [eq_of_beq heq]
    · cases h

theorem shortens_mark (c : Char) : Shortens (mark c) := by
  intro cs u rest h
  rw [eq_cons_of_mark h]
  exact List.suffix_cons c rest

theorem shortens_nanoseconds : Shortens nanoseconds := by
  intro cs n rest h
  unfold nanoseconds at h
  obtain ⟨r, hnumber, h⟩ := Except.exists_of_map_eq_ok h
  cases h
  exact (List.dropWhile_suffix _).trans (shortens_number 1 9 cs r.1 r.2 hnumber)

/-- An offset with minutes is a letter, or has a colon before its last two characters. -/
theorem offset_ends {cs : List Char} {n : Int}
    (h : offset (fun r => (mark ':' r).map Prod.snd) true cs = .ok (n, [])) :
    cs = ['Z'] ∨ cs = ['z'] ∨ ∃ front m₁ m₂, cs = front ++ [':', m₁, m₂] := by
  unfold offset at h
  split at h
  · cases h
    exact .inl rfl
  · cases h
    exact .inr (.inl rfl)
  · cases h
  · next sign cs _ _ =>
    refine .inr (.inr ?_)
    split at h
    · cases h
    rcases cs with _ | ⟨h₁, _ | ⟨h₂, cs⟩⟩
    · cases h
    · cases h
    dsimp only at h
    split at h
    · cases h
    obtain ⟨minutes, hmark, h⟩ := Except.exists_of_bind_eq_ok h
    obtain ⟨r, hcolon, hminutes⟩ := Except.exists_of_map_eq_ok hmark
    have hcs : cs = ':' :: minutes := by
      rw [← hminutes]
      exact eq_cons_of_mark hcolon
    rcases minutes with _ | ⟨m₁, _ | ⟨m₂, minutes⟩⟩
    · cases h
    · cases h
    dsimp only at h
    split at h
    · cases h
    split at h
    · cases h
    cases h
    exact ⟨[sign, h₁, h₂], m₁, m₂, by rw [hcs]; rfl⟩

/-- An internet timestamp ends in its offset. -/
theorem exists_offset_of_readInternet {s : String} {f : Fields} (h : readInternet s = .ok f) :
    ∃ zone, zone <:+ s.toList ∧
      offset (fun r => (mark ':' r).map Prod.snd) true zone = .ok (f.offset, []) := by
  unfold readInternet at h
  obtain ⟨⟨year, cs₁⟩, hyear, h⟩ := Except.exists_of_bind_eq_ok h
  obtain ⟨⟨⟨⟩, cs₂⟩, hdash, h⟩ := Except.exists_of_bind_eq_ok h
  obtain ⟨⟨month, cs₃⟩, hmonth, h⟩ := Except.exists_of_bind_eq_ok h
  obtain ⟨_, -, h⟩ := Except.exists_of_bind_eq_ok h
  obtain ⟨⟨⟨⟩, cs₄⟩, hdash', h⟩ := Except.exists_of_bind_eq_ok h
  obtain ⟨⟨day, cs₅⟩, hday, h⟩ := Except.exists_of_bind_eq_ok h
  obtain ⟨_, -, h⟩ := Except.exists_of_bind_eq_ok h
  dsimp only at h
  split at h
  swap
  · cases h
  split at h
  swap
  · cases h
  next c cs₆ _ _ =>
    obtain ⟨⟨hour, cs₇⟩, hhour, h⟩ := Except.exists_of_bind_eq_ok
      (show (number 2 2 cs₆ >>= _) = Except.ok f from h)
    obtain ⟨_, -, h⟩ := Except.exists_of_bind_eq_ok h
    obtain ⟨⟨⟨⟩, cs₈⟩, hcolon, h⟩ := Except.exists_of_bind_eq_ok h
    obtain ⟨⟨minute, cs₉⟩, hminute, h⟩ := Except.exists_of_bind_eq_ok h
    obtain ⟨_, -, h⟩ := Except.exists_of_bind_eq_ok h
    obtain ⟨⟨⟨⟩, cs₁₀⟩, hcolon', h⟩ := Except.exists_of_bind_eq_ok h
    obtain ⟨⟨second, cs₁₁⟩, hsecond, h⟩ := Except.exists_of_bind_eq_ok h
    obtain ⟨_, -, h⟩ := Except.exists_of_bind_eq_ok h
    have hdate : c :: cs₆ <:+ s.toList :=
      (shortens_number 2 2 _ _ _ hday).trans <| (shortens_mark '-' _ _ _ hdash').trans <|
        (shortens_number 2 2 _ _ _ hmonth).trans <| (shortens_mark '-' _ _ _ hdash).trans <|
        shortens_number 4 4 _ _ _ hyear
    have hclock : cs₁₁ <:+ cs₆ :=
      (shortens_number 2 2 _ _ _ hsecond).trans <| (shortens_mark ':' _ _ _ hcolon').trans <|
        (shortens_number 2 2 _ _ _ hminute).trans <| (shortens_mark ':' _ _ _ hcolon).trans <|
        shortens_number 2 2 _ _ _ hhour
    have hfront := (hclock.trans (List.suffix_cons c cs₆)).trans hdate
    dsimp only at h
    -- the offset stands behind the fraction of the second, or behind the second
    split at h
    · obtain ⟨⟨nanos, zone⟩, hfraction, h⟩ := Except.exists_of_bind_eq_ok h
      obtain ⟨⟨n, rest⟩, hoffset, h⟩ := Except.exists_of_bind_eq_ok h
      rcases rest with _ | ⟨d, rest⟩
      · have hzone := (shortens_nanoseconds _ _ _ hfraction).trans (List.suffix_cons '.' _)
        cases h
        exact ⟨zone, hzone.trans hfront, hoffset⟩
      · cases h
    · obtain ⟨_, hfraction, h⟩ := Except.exists_of_bind_eq_ok h
      cases hfraction
      obtain ⟨⟨n, rest⟩, hoffset, h⟩ := Except.exists_of_bind_eq_ok h
      rcases rest with _ | ⟨d, rest⟩
      · cases h
        exact ⟨_, hfront, hoffset⟩
      · cases h

/-- An offset of hours alone ends no internet timestamp. -/
theorem readInternet_hours (s : String) : ∃ fault, readInternet (s ++ "+00") = .error fault := by
  cases h : readInternet (s ++ "+00") with
  | error fault => exact ⟨fault, rfl⟩
  | ok f =>
    exfalso
    obtain ⟨zone, hzone, hoffset⟩ := exists_offset_of_readInternet h
    rw [String.toList_append] at hzone
    have hends' : zone.reverse <+: '0' :: '0' :: '+' :: s.toList.reverse := by
      have hreverse := List.reverse_prefix.mpr hzone
      rwa [List.reverse_append] at hreverse
    obtain rfl | rfl | ⟨front, m₁, m₂, rfl⟩ := offset_ends hoffset
    · simp at hends'
    · simp at hends'
    · simp at hends'

end Calendar

/-! ## Instants -/

namespace Timestamp

variable {t : Timestamp}

/-- Without an offset the instant is what the clock shows. -/
theorem instant_of_universal {f : Fields} (h : f.timestamp = .ok t) (hoffset : f.offset = 0) :
    f.instant = .ok t := by
  have hsmall : ¬ f.offset.natAbs ≥ 86400 := by omega
  unfold Fields.instant
  rw [h]
  refine (if_neg hsmall).trans ?_
  rw [t.subSeconds?_of_zero hoffset]
  rfl

/-- The text of an instant is read as the instant. -/
theorem parseInstant?_text (h : t.time.Regular) :
    Timestamp.parseInstant? (t.text ++ "+00") = some t := by
  have hoffset : Piece.offset.read ((({} : Fields).withDate t.date).withTime t.time) "+00".toList =
      .ok ((({} : Fields).withDate t.date).withTime t.time, []) := rfl
  have hlayout := readPieces_text t [.offset] "+00" (by simp)
  rw [readPieces_cons hoffset] at hlayout
  have hread : ((readLayout zonedLayout (t.text ++ "+00")).bind (·.instant)).toOption = some t := by
    have hfields : readLayout zonedLayout (t.text ++ "+00") =
        .ok ((({} : Fields).withDate t.date).withTime t.time) := readLayout_of hlayout
    rw [hfields]
    exact congrArg Except.toOption (instant_of_universal (timestamp_of_regular h) rfl)
  obtain ⟨fault, hinternet⟩ := readInternet_hours t.text
  unfold Timestamp.parseInstant?
  rw [hinternet, hread]
  rfl

end Timestamp

/-! ## Blanks around -/

namespace Text

theorem trim_of_ends {s : String} (hfront : trimLeft s.toList = s.toList)
    (hback : trimRight s.toList = s.toList) : trim s = s := by
  unfold trim
  rw [hfront, hback, String.ofList_toList]

theorem trimRight_of_all {ds : List Char} (h : ∀ c ∈ ds, isBlank c = false) : trimRight ds = ds := by
  have hkeep : ds.reverse.dropWhile isBlank = ds.reverse := by
    cases hds : ds.reverse with
    | nil => rfl
    | cons c cs =>
      have hc := h c (List.mem_reverse.mp (by rw [hds]; exact List.mem_cons_self))
      rw [List.dropWhile_cons, if_neg (by rw [hc]; decide)]
  unfold trimRight
  rw [hkeep, List.reverse_reverse]

/-- Only the end of a text decides whether blanks stand behind it. -/
theorem trimRight_append {ds : List Char} (hne : ds ≠ []) (h : trimRight ds = ds) (cs : List Char) :
    trimRight (cs ++ ds) = cs ++ ds := by
  have hkeep : ds.reverse.dropWhile isBlank = ds.reverse := List.reverse_inj.mp (by
    rw [List.reverse_reverse]
    exact h)
  unfold trimRight
  rw [List.reverse_append, List.dropWhile_append, hkeep, if_neg (by simpa using hne), List.reverse_append,
    List.reverse_reverse, List.reverse_reverse]

theorem not_isBlank_padded {width n : Nat} {c : Char} (h : c ∈ padded width n) : isBlank c = false :=
  not_isBlank_of_isDigit (List.all_eq_true.mp (all_padded width n) c h)

theorem padded_ne_nil (width n : Nat) : padded width n ≠ [] := by
  obtain ⟨c, cs, hpadded, -⟩ := exists_padded_cons width n
  rw [hpadded]
  exact List.cons_ne_nil c cs

end Text

open Text

theorem Date.trimLeft_text (d : Date) (rest : List Char) :
    trimLeft (d.text.toList ++ rest) = d.text.toList ++ rest := by
  rw [toList_dateText, List.append_assoc, trimLeft_yearText]

theorem Date.trim_text (d : Date) : trim d.text = d.text := by
  have hfront := d.trimLeft_text []
  rw [List.append_nil] at hfront
  have hback : trimRight d.text.toList = d.text.toList := by
    have hday := trimRight_append (padded_ne_nil 2 d.civil.day) (trimRight_of_all fun _ => not_isBlank_padded)
      (yearText d.civil.year ++ '-' :: padded 2 d.civil.month ++ ['-'])
    rw [toList_dateText]
    simpa using hday
  exact trim_of_ends hfront hback

namespace Time

theorem not_isBlank_fractionText {n : Nat} {c : Char} (h : c ∈ fractionText n) : isBlank c = false := by
  have hdigits : ∀ {width m : Nat}, c ∈ '.' :: padded width m → isBlank c = false := by
    intro width m h
    rcases List.mem_cons.mp h with rfl | h
    · decide
    · exact not_isBlank_padded h
  unfold fractionText at h
  split_ifs at h
  · cases h
  · exact hdigits h
  · exact hdigits h
  · exact hdigits h

theorem text_ne_nil (t : Time) : t.text.toList ≠ [] := by
  rw [toList_timeText]
  exact List.append_ne_nil_of_left_ne_nil (padded_ne_nil 2 _) _

theorem trimRight_text (t : Time) : trimRight t.text.toList = t.text.toList := by
  refine trimRight_of_all fun c hc => ?_
  rw [toList_timeText] at hc
  rcases List.mem_append.mp hc with hc | hc
  · exact not_isBlank_padded hc
  rcases List.mem_cons.mp hc with rfl | hc
  · decide
  rcases List.mem_append.mp hc with hc | hc
  · exact not_isBlank_padded hc
  rcases List.mem_cons.mp hc with rfl | hc
  · decide
  rcases List.mem_append.mp hc with hc | hc
  · exact not_isBlank_padded hc
  · exact not_isBlank_fractionText hc

theorem trim_text (t : Time) : trim t.text = t.text := by
  have hfront : trimLeft t.text.toList = t.text.toList := by
    rw [toList_timeText, trimLeft_padded]
  exact trim_of_ends hfront t.trimRight_text

end Time

namespace Timestamp

theorem trim_text (t : Timestamp) : trim t.text = t.text := by
  have htext := t.toList_text ""
  rw [String.append_empty, String.toList_empty, List.append_nil] at htext
  refine trim_of_ends ?_ ?_
  · rw [htext, Date.trimLeft_text]
  · have htime := trimRight_append t.time.text_ne_nil t.time.trimRight_text (t.date.text.toList ++ [' '])
    rw [htext]
    simpa using htime

theorem trim_instant (t : Timestamp) : trim (t.text ++ "+00") = t.text ++ "+00" := by
  refine trim_of_ends ?_ ?_
  · rw [toList_text, Date.trimLeft_text]
  · rw [String.toList_append]
    exact trimRight_append (by decide) (by decide) _

end Timestamp

end SqlStore
