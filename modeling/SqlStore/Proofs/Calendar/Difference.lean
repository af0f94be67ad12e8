import SqlStore.Operator.Arithmetic
import SqlStore.Proofs.Value.Integers

/-!
# Differences of timestamps

Outside of leap seconds a timestamp is a number of nanoseconds since 1970, and adding a span adds to this
number. The difference of two timestamps of whole microseconds is taken apart into days and the time that
is left, both with its sign. So the days lead from the earlier timestamp to one that lies between the two,
and no step of the addition leaves the calendar.
-/

namespace SqlStore

/-- Nanoseconds outside of leap seconds come back as the time of day and the days that they are made of. -/
theorem Time.wrap_eq {u : Time} (hu : u.nanos < 1000000000) (days : Int) :
    wrap (days * 86400000000000 + u.second * 1000000000 + u.nanos) = (u, days) := by
  have hsecond := u.second_lt
  obtain ⟨second, nanos, _, _⟩ := u
  dsimp only at hu hsecond ⊢
  have hseconds : (days * 86400000000000 + (second : Int) * 1000000000 + nanos) / (nanosPerSecond : Int) =
      days * 86400 + second := by
    unfold nanosPerSecond
    omega
  have hnanos : (days * 86400000000000 + (second : Int) * 1000000000 + nanos) % (nanosPerSecond : Int) =
      nanos := by
    unfold nanosPerSecond
    omega
  simp only [wrap, hseconds, hnanos]
  refine Prod.ext ?_ (show (days * 86400 + (second : Int)) / 86400 = days by omega)
  rw [Time.mk.injEq]
  exact ⟨by omega, by omega⟩

namespace Timestamp

/-- The number of nanoseconds since 1970, outside of leap seconds. -/
def instant (t : Timestamp) : Int :=
  t.date.day * 86400000000000 + t.time.second * 1000000000 + t.time.nanos

/-- The number of microseconds since 1970, outside of leap seconds. -/
def micros (t : Timestamp) : Int := t.instant / 1000

/-- The timestamp lies in no leap second and is a number of whole microseconds. -/
structure WholeMicros (t : Timestamp) : Prop where
  not_leap : t.time.nanos < 1000000000
  whole : t.time.nanos % 1000 = 0

variable {t u e l : Timestamp}

theorem WholeMicros.instant_eq (h : t.WholeMicros) : t.instant = t.micros * 1000 := by
  have hwhole := h.whole
  unfold micros instant
  omega

/-- The span between two timestamps is the difference of their numbers. -/
theorem nanosBetween_eq (hl : l.WholeMicros) (he : e.WholeMicros) :
    l.nanosBetween e = (l.micros - e.micros) * 1000 := by
  have hleap : ∀ {t : Timestamp}, t.WholeMicros → t.time.isLeap = false := by
    intro t ht
    have := ht.not_leap
    unfold Time.isLeap nanosPerSecond
    simpa using this
  have hspan : l.nanosBetween e = l.instant - e.instant := by
    unfold nanosBetween Time.nanosBetween instant
    rw [hleap hl, hleap he]
    simp only [Bool.false_eq_true, if_false, ite_self, nanosPerSecond]
    omega
  rw [hspan, hl.instant_eq, he.instant_eq]
  omega

/-- Adding a span adds to the number of nanoseconds. -/
theorem addNanos?_of_instant {span : Int} (ht : t.time.nanos < 1000000000)
    (hu : u.time.nanos < 1000000000) (h : u.instant = t.instant + span) : t.addNanos? span = some u := by
  have hplain : t.time.isLeap = false := by
    unfold Time.isLeap nanosPerSecond
    simpa using ht
  have hbase : (t.time.second : Int) * (nanosPerSecond : Int) + t.time.nanos + span =
      (u.date.day - t.date.day) * 86400000000000 + u.time.second * 1000000000 + u.time.nanos := by
    unfold instant at h
    unfold nanosPerSecond
    omega
  have htime : t.time.addNanos span = (u.time, u.date.day - t.date.day) := by
    unfold Time.addNanos
    rw [hplain, if_neg Bool.false_ne_true, hbase, Time.wrap_eq hu]
  have hdate : t.date.addDays? (u.date.day - t.date.day) = some u.date := by
    unfold Date.addDays? Date.ofDay?
    have hday : t.date.day + (u.date.day - t.date.day) = u.date.day := by omega
    rw [hday, dif_pos ⟨u.date.from_first, u.date.to_last⟩]
  unfold addNanos?
  rw [htime]
  dsimp only
  rw [hdate]
  rfl

end Timestamp

open Timestamp

namespace Interval

variable {e l : Timestamp}

/-- The fields of an interval that fit their words come back from it. -/
theorem exists_ofFields? {months days micros : Int} (hmonths : DataType.integer.holds months = true)
    (hdays : DataType.integer.holds days = true) (hmicros : DataType.bigInt.holds micros = true) :
    ∃ i, ofFields? months days micros = some i ∧ i.months.toInt = months ∧ i.days.toInt = days ∧
      i.micros.toInt = micros := by
  have hm : int32? months = some (Int32.ofInt months) := by rw [int32?_eq, if_pos hmonths]
  have hd : int32? days = some (Int32.ofInt days) := by rw [int32?_eq, if_pos hdays]
  have hu : int64? micros = some (Int64.ofInt micros) := by rw [int64?_eq, if_pos hmicros]
  refine ⟨⟨Int32.ofInt months, Int32.ofInt days, Int64.ofInt micros⟩, ?_, toInt_of_int32? hm,
    toInt_of_int32? hd, toInt_of_int64? hu⟩
  unfold ofFields?
  rw [hm, hd, hu]
  rfl

/-- A number of microseconds is taken apart into days and a rest of less than a day, of one sign. -/
theorem days_and_rest (d : Int) :
    d.tdiv microsPerDay * 86400000000 + d.tmod microsPerDay = d ∧
      (0 ≤ d → 0 ≤ d.tdiv microsPerDay ∧ 0 ≤ d.tmod microsPerDay ∧
        d.tmod microsPerDay < 86400000000) ∧
      (d ≤ 0 → d.tdiv microsPerDay ≤ 0 ∧ d.tmod microsPerDay ≤ 0 ∧
        -86400000000 < d.tmod microsPerDay) := by
  have hday : microsPerDay = 86400000000 := by decide
  have hsum := Int.tdiv_mul_add_tmod d 86400000000
  rw [hday]
  refine ⟨hsum, fun h => ?_, fun h => ?_⟩
  · have hquotient := Int.tdiv_nonneg h (by decide : (0 : Int) ≤ 86400000000)
    have hrest := Int.tmod_nonneg 86400000000 h
    have hlt := Int.tmod_lt_of_pos d (by decide : (0 : Int) < 86400000000)
    exact ⟨hquotient, hrest, hlt⟩
  · obtain ⟨m, rfl⟩ : ∃ m, d = -m := ⟨-d, by omega⟩
    have hquotient := Int.tdiv_nonneg (by omega : 0 ≤ m) (by decide : (0 : Int) ≤ 86400000000)
    have hrest := Int.tmod_nonneg 86400000000 (by omega : 0 ≤ m)
    have hlt := Int.tmod_lt_of_pos m (by decide : (0 : Int) < 86400000000)
    rw [Int.neg_tdiv, Int.neg_tmod]
    omega

/-- The difference of two timestamps, as far as its microseconds fit 64 bits. -/
theorem exists_between? (hl : l.WholeMicros) (he : e.WholeMicros)
    (hfits : DataType.bigInt.holds (l.micros - e.micros) = true) :
    ∃ i, between? l e = some i ∧ i.months.toInt = 0 ∧
      i.days.toInt = (l.micros - e.micros).tdiv microsPerDay ∧
      i.micros.toInt = (l.micros - e.micros).tmod microsPerDay := by
  obtain ⟨hsum, hlater, hearlier⟩ := days_and_rest (l.micros - e.micros)
  have hspan := nanosBetween_eq hl he
  generalize l.micros - e.micros = d at *
  have hrange := DataType.holds_bigInt.mp hfits
  have hdays : DataType.integer.holds (d.tdiv microsPerDay) = true := by
    simp only [DataType.holds, Bool.and_eq_true, decide_eq_true_eq]
    omega
  have hrest : DataType.bigInt.holds (d.tmod microsPerDay) = true := by
    rw [DataType.holds_bigInt]
    omega
  have hmicros : (d * 1000).tdiv 1000 = d := Int.mul_tdiv_cancel d (by decide)
  have hword : int64? d = some (Int64.ofInt d) := by rw [int64?_eq, if_pos hfits]
  obtain ⟨i, hi, hfields⟩ := exists_ofFields? (by decide : DataType.integer.holds 0 = true) hdays hrest
  refine ⟨i, ?_, hfields⟩
  unfold between?
  rw [hspan, hmicros, hword]
  show ofFields? 0 ((Int64.ofInt d).toInt.tdiv microsPerDay) ((Int64.ofInt d).toInt.tmod microsPerDay) = _
  rw [toInt_of_int64? hword, hi]

/-- Adding days and then the rest leads from one timestamp over one between the two to the other. -/
theorem addTo?_of_days {i : Interval} (hl : l.WholeMicros) (he : e.WholeMicros) (hmonths : i.months.toInt = 0)
    (hsum : i.days.toInt * 86400000000 + i.micros.toInt = l.micros - e.micros)
    (hsigns : 0 ≤ i.days.toInt ∧ 0 ≤ i.micros.toInt ∨ i.days.toInt ≤ 0 ∧ i.micros.toInt ≤ 0) :
    i.addTo? e = some l := by
  have hle := hl.instant_eq
  have hee := he.instant_eq
  have hspan : i.days.toInt * 86400000000000 + i.micros.toInt * 1000 = l.instant - e.instant := by omega
  have hseconds := e.time.second_lt
  have hseconds' := l.time.second_lt
  have hnanos := he.not_leap
  have hnanos' := hl.not_leap
  -- the day between the two days is one of the calendar
  have hday : dayNumber (-262143) 1 1 ≤ e.date.day + i.days.toInt ∧
      e.date.day + i.days.toInt ≤ dayNumber 262142 12 31 := by
    have hfirst := e.date.from_first
    have hlast := e.date.to_last
    have hfirst' := l.date.from_first
    have hlast' := l.date.to_last
    unfold instant at hspan
    omega
  obtain ⟨m, hdate, htime⟩ :
      ∃ m : Timestamp, m.date.day = e.date.day + i.days.toInt ∧ m.time = e.time :=
    ⟨⟨⟨_, hday.1, hday.2⟩, e.time⟩, rfl, rfl⟩
  have hm : m.instant = e.instant + i.days.toInt * 86400000000000 := by
    unfold instant
    rw [hdate, htime]
    omega
  have hfirst : e.addMonths? 0 = some e := rfl
  have hdays : e.addNanos? (i.days.toInt * 86400 * nanosPerSecond) = some m := by
    refine addNanos?_of_instant hnanos (by rwa [htime]) ?_
    rw [hm]
    unfold nanosPerSecond
    omega
  have hrest : m.addNanos? (i.micros.toInt * 1000) = some l :=
    addNanos?_of_instant (by rwa [htime]) hnanos' (by omega)
  unfold addTo?
  rw [hmonths, hfirst]
  show (e.addNanos? _).bind _ = _
  rw [hdays]
  exact hrest

end Interval

/-- The difference of two timestamps of whole microseconds is made of days and less than a day, of one sign,
and added to the earlier one it gives the later one, as long as its microseconds fit 64 bits. The operators
on timestamps give the same. -/
theorem difference_added_back {e l : Timestamp} (he : e.WholeMicros) (hl : l.WholeMicros)
    (hfits : DataType.bigInt.holds (l.micros - e.micros) = true) :
    ∃ i, Interval.between? l e = some i ∧ i.months.toInt = 0 ∧
      (i.micros.toInt.natAbs : Int) < microsPerDay ∧
      (0 ≤ i.days.toInt ∧ 0 ≤ i.micros.toInt ∨ i.days.toInt ≤ 0 ∧ i.micros.toInt ≤ 0) ∧
      i.addTo? e = some l ∧
      Arithmetic.subtract.apply (.timestamp l) (.timestamp e) = .ok (.interval i) ∧
      Arithmetic.add.apply (.timestamp e) (.interval i) = .ok (.timestamp l) := by
  obtain ⟨i, hbetween, hmonths, hdays, hmicros⟩ := Interval.exists_between? hl he hfits
  obtain ⟨hsum, hlater, hearlier⟩ := Interval.days_and_rest (l.micros - e.micros)
  rw [← hdays, ← hmicros] at hsum hlater hearlier
  have hsigns : 0 ≤ i.days.toInt ∧ 0 ≤ i.micros.toInt ∨ i.days.toInt ≤ 0 ∧ i.micros.toInt ≤ 0 := by omega
  have hday : microsPerDay = 86400000000 := by decide
  have hadd : i.addTo? e = some l := Interval.addTo?_of_days hl he hmonths hsum hsigns
  have hdifference : Arithmetic.subtract.apply (.timestamp l) (.timestamp e) =
      Arithmetic.intervalOr (Interval.between? l e) := rfl
  have hshift : Arithmetic.add.apply (.timestamp e) (.interval i) =
      (Arithmetic.shiftTimestamp e i).map .timestamp := rfl
  refine ⟨i, hbetween, hmonths, by omega, hsigns, hadd, ?_, ?_⟩
  · rw [hdifference, hbetween]
    rfl
  · rw [hshift, Arithmetic.shiftTimestamp, hadd]
    rfl

namespace Sample

/-- A moment on the last day of the calendar. -/
def lastDay : Timestamp :=
  ⟨⟨95026236, by decide, by decide⟩, ⟨43217, 654321000, by decide, by decide⟩⟩

/-- The timestamp as long before it as 64 bits of microseconds reach. -/
def longBefore : Timestamp :=
  ⟨⟨-11725755, by decide, by decide⟩, ⟨28762, 878514000, by decide, by decide⟩⟩

/-- The way back from the last day of the calendar and the way there. -/
theorem longBefore_reached :
    (∃ i, Interval.between? longBefore lastDay = some i ∧
        i.addTo? lastDay = some longBefore) ∧
      (∃ i, Interval.between? lastDay longBefore = some i ∧
        i.addTo? longBefore = some lastDay) := by
  have hlast : lastDay.WholeMicros := ⟨by decide, by decide⟩
  have hbefore : longBefore.WholeMicros := ⟨by decide, by decide⟩
  obtain ⟨i, hbetween, -, -, -, hadd, -⟩ := difference_added_back hlast hbefore (by decide)
  obtain ⟨j, hbetween', -, -, -, hadd', -⟩ := difference_added_back hbefore hlast (by decide)
  exact ⟨⟨i, hbetween, hadd⟩, ⟨j, hbetween', hadd'⟩⟩

end Sample

end SqlStore
