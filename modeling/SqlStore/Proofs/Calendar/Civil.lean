import Mathlib.Tactic.IntervalCases
import SqlStore.Calendar.Timestamp

/-!
# Days and civil dates

The civil form of a date names the day that it is the form of. Both ways go through years that begin in
March, so that the day a leap year has more is the last one of its year, and through eras of 400 years,
which all have the same number of days.
-/

namespace SqlStore

/-- A day of an era but the last one: the era is taken apart into centuries, spans of four years, and years. -/
theorem exists_yearOfEra {n : Int} (h0 : 0 ≤ n) (h1 : n < 146096) :
    ∃ century span year rest : Int, 0 ≤ century ∧ century < 4 ∧ 0 ≤ span ∧ span < 25 ∧ 0 ≤ year ∧
      year < 4 ∧ 0 ≤ rest ∧ rest < 366 ∧ (rest = 365 → year = 3 ∧ span < 24) ∧
      n = 36524 * century + 1461 * span + 365 * year + rest ∧
      (n - n / 1460 + n / 36524 - n / 146096) / 365 = 100 * century + 4 * span + year := by
  have hcentury : 0 ≤ n / 36524 ∧ n / 36524 < 4 ∧ n = 36524 * (n / 36524) + n % 36524 := by omega
  have hrest : 0 ≤ n % 36524 ∧ n % 36524 < 36524 := by omega
  have hlast : n / 146096 = 0 := by omega
  generalize n / 36524 = c at *
  generalize n % 36524 = r at *
  have hspan : 0 ≤ r / 1461 ∧ r / 1461 < 25 ∧ r = 1461 * (r / 1461) + r % 1461 := by omega
  have hday : 0 ≤ r % 1461 ∧ r % 1461 < 1461 ∧ (r / 1461 = 24 → r % 1461 < 1460) := by omega
  generalize r / 1461 = s at *
  generalize r % 1461 = q at *
  -- what is taken off for leap years is one more only in the last year of a span
  have hleap : n / 1460 = 25 * c + s + (24 * c + s + q) / 1460 := by omega
  have hextra : (24 * c + s + q) / 1460 = 0 ∧ q < 1460 ∨ (24 * c + s + q) / 1460 = 1 ∧ 1364 ≤ q := by
    omega
  rw [hlast, hleap]
  generalize (24 * c + s + q) / 1460 = extra at *
  clear hleap
  by_cases hfull : q = 1460
  · exact ⟨c, s, 3, 365, by omega, by omega, by omega, by omega, by omega, by omega, by omega, by omega,
      fun _ => ⟨rfl, by omega⟩, by omega, by omega⟩
  · exact ⟨c, s, q / 365, q % 365, by omega, by omega, by omega, by omega, by omega, by omega, by omega,
      by omega, fun h => by omega, by omega, by omega⟩

/-- The year of a day of an era and the day of that year, the 366th only where the next year is a leap
year. -/
theorem yearOfEra_spec {n : Int} (h0 : 0 ≤ n) (h1 : n < 146097) :
    ∃ year day : Int, (n - n / 1460 + n / 36524 - n / 146096) / 365 = year ∧
      n - (365 * year + year / 4 - year / 100) = day ∧ 0 ≤ year ∧ year < 400 ∧ 0 ≤ day ∧ day < 366 ∧
      (day = 365 → (year + 1) % 4 = 0 ∧ ((year + 1) % 100 ≠ 0 ∨ year = 399)) := by
  by_cases hlast : n = 146096
  · subst hlast
    exact ⟨399, 365, rfl, rfl, by omega, by omega, by omega, by omega, fun _ => ⟨rfl, .inr rfl⟩⟩
  · obtain ⟨c, s, y, rest, hc, hc', hs, hs', hy, hy', hrest, hrest', hleap, hn, hyear⟩ :=
      exists_yearOfEra h0 (by omega)
    refine ⟨_, rest, hyear, ?_⟩
    clear hyear h0 h1 hlast
    have hfour : (100 * c + 4 * s + y) / 4 = 25 * c + s := by omega
    have hhundred : (100 * c + 4 * s + y) / 100 = c := by omega
    rw [hfour, hhundred]
    refine ⟨by omega, by omega, by omega, hrest, hrest', fun h => ?_⟩
    obtain ⟨rfl, hs'⟩ := hleap h
    exact ⟨by omega, .inl (by omega)⟩

namespace Date

/-- What the parts of a civil date are, with the months counted from March. -/
structure Parts (d : Date) (era year shifted day : Int) : Prop where
  year_nonneg : 0 ≤ year
  year_lt : year < 400
  shifted_nonneg : 0 ≤ shifted
  shifted_lt : shifted < 12
  day_nonneg : 0 ≤ day
  day_lt : (153 * shifted + 2) / 5 + day < (153 * (shifted + 1) + 2) / 5
  /-- The year is over, and its last day is there only in a leap year. -/
  last : (153 * shifted + 2) / 5 + day < 366 ∧ ((153 * shifted + 2) / 5 + day = 365 →
    (year + 1) % 4 = 0 ∧ ((year + 1) % 100 ≠ 0 ∨ year = 399))
  day_eq : d.day + epochShift =
    era * 146097 + (year * 365 + year / 4 - year / 100) + (153 * shifted + 2) / 5 + day
  civil_eq : d.civil = ⟨year + era * 400 + (if shifted < 10 then 0 else 1),
    (if shifted < 10 then shifted + 3 else shifted - 9).toNat, (day + 1).toNat⟩

theorem exists_parts (d : Date) : ∃ era year shifted day, d.Parts era year shifted day := by
  have hera : 0 ≤ d.day + epochShift - (d.day + epochShift) / 146097 * 146097 ∧
      d.day + epochShift - (d.day + epochShift) / 146097 * 146097 < 146097 := by omega
  obtain ⟨year, day, hyear, hday, hy0, hy1, hd0, hd1, hleap⟩ := yearOfEra_spec hera.1 hera.2
  have hshifted : 0 ≤ (5 * day + 2) / 153 ∧ (5 * day + 2) / 153 < 12 := by omega
  refine ⟨(d.day + epochShift) / 146097, year, (5 * day + 2) / 153,
    day - (153 * ((5 * day + 2) / 153) + 2) / 5, hy0, hy1, hshifted.1, hshifted.2, by omega, by omega,
    ⟨by omega, fun h => hleap (by omega)⟩, by omega, ?_⟩
  unfold civil
  dsimp only
  rw [hyear, hday]
  generalize (5 * day + 2) / 153 = s at *
  by_cases hs : s < 10
  · rw [if_pos hs, if_pos hs, if_neg (by omega)]
  · rw [if_neg hs, if_neg hs, if_pos (by omega)]

/-- The civil form of a date names its day. -/
theorem dayNumber_civil (d : Date) : dayNumber d.civil.year d.civil.month d.civil.day = d.day := by
  obtain ⟨era, year, s, day, h⟩ := d.exists_parts
  obtain ⟨hy0, hy1, hs0, hs1, hd0, -, -, hday, hcivil⟩ := h
  rw [hcivil]
  have hmonth : ((if s < 10 then s + 3 else s - 9).toNat + 9) % 12 = s.toNat := by
    split <;> omega
  have hyear : (if (if s < 10 then s + 3 else s - 9).toNat ≤ 2
      then year + era * 400 + (if s < 10 then 0 else 1) - 1
      else year + era * 400 + (if s < 10 then 0 else 1)) = year + era * 400 := by
    split_ifs <;> omega
  unfold dayNumber
  dsimp only
  rw [hyear, hmonth]
  have hera : (year + era * 400) / 400 = era := by omega
  rw [hera]
  omega

theorem daysInMonth_le (year : Int) (month : Nat) : daysInMonth year month ≤ 31 := by
  unfold daysInMonth
  split
  · split <;> decide
  all_goals decide

/-- The months of a year that begins in March are as long as in the calendar; the last one may lack its
29th day. -/
theorem le_daysInMonth {year s day : Int} (hs0 : 0 ≤ s) (hs1 : s < 12) (hd0 : 0 ≤ day)
    (hd1 : (153 * s + 2) / 5 + day < (153 * (s + 1) + 2) / 5)
    (hlast : (153 * s + 2) / 5 + day < 366)
    (hleap : (153 * s + 2) / 5 + day = 365 → isLeapYear year = true) :
    (day + 1).toNat ≤ daysInMonth year (if s < 10 then s + 3 else s - 9).toNat := by
  by_cases hfebruary : s = 11
  · subst hfebruary
    show (day + 1).toNat ≤ if isLeapYear year then 29 else 28
    split
    · omega
    · next hno =>
      have hshort : day ≠ 28 := by
        rintro rfl
        exact hno (hleap rfl)
      omega
  · clear hleap
    interval_cases s
    all_goals
      simp [daysInMonth]
      omega

/-- The civil form of a date is a day of the calendar. -/
theorem civil_valid (d : Date) : 1 ≤ d.civil.month ∧ d.civil.month ≤ 12 ∧ 1 ≤ d.civil.day ∧
    d.civil.day ≤ daysInMonth d.civil.year d.civil.month := by
  obtain ⟨era, year, s, day, h⟩ := d.exists_parts
  obtain ⟨hy0, hy1, hs0, hs1, hd0, hd1, ⟨hlast, hleap⟩, -, hcivil⟩ := h
  rw [hcivil]
  dsimp only
  refine ⟨by split <;> omega, by split <;> omega, by omega,
    le_daysInMonth hs0 hs1 hd0 hd1 hlast fun hday => ?_⟩
  obtain ⟨h4, h100⟩ := hleap hday
  have hs : ¬ s < 10 := by omega
  rw [if_neg hs]
  simp only [isLeapYear, Bool.and_eq_true, Bool.or_eq_true, beq_iff_eq, bne_iff_ne]
  omega

theorem natAbs_civil_lt (d : Date) : d.civil.year.natAbs < 1000000 := by
  obtain ⟨era, year, s, day, h⟩ := d.exists_parts
  obtain ⟨hy0, hy1, hs0, hs1, hd0, hd1, ⟨hlast, -⟩, hday, hcivil⟩ := h
  have hfirst := d.from_first
  have hend := d.to_last
  rw [show dayNumber (-262143) 1 1 = -96465292 by decide] at hfirst
  rw [show dayNumber 262142 12 31 = 95026236 by decide] at hend
  unfold epochShift at hday
  rw [hcivil]
  dsimp only
  split <;> omega

/-- A date is the date of its civil form. -/
theorem ofCivil?_civil (d : Date) : ofCivil? d.civil.year d.civil.month d.civil.day = some d := by
  obtain ⟨h1, h12, hday, hlast⟩ := d.civil_valid
  unfold ofCivil? ofDay?
  rw [if_pos (by simp [h1, h12, hday, hlast]), dayNumber_civil, dif_pos ⟨d.from_first, d.to_last⟩]

end Date

end SqlStore
