import SqlStore.Proofs.Calendar.Reading

/-!
# Leap seconds in what is read

Whatever text a time of day is read from, a leap second is the last one of its minute: clocks show it as
second 60, and offsets from universal time are full minutes, so it stays at the end of its minute when an
offset is taken off.
-/

namespace SqlStore

open Calendar

theorem Except.exists_of_toOption_bind {ε α β : Type} {r : Except ε α} {f : α → Except ε β} {b : β}
    (h : (r.bind f).toOption = some b) : ∃ a, r = .ok a ∧ f a = .ok b := by
  cases r with
  | error e => cases h
  | ok a =>
    cases hf : f a with
    | error e =>
      have hnone : (f a).toOption = some b := h
      rw [hf] at hnone
      cases hnone
    | ok c =>
      have hsome : (f a).toOption = some b := h
      rw [hf] at hsome
      cases hsome
      exact ⟨a, rfl, hf⟩

theorem Option.eq_some_of_orElse {α : Type} {o : Option α} {f : Unit → Option α} {a : α}
    (h : o.orElse f = some a) : o = some a ∨ f () = some a := by
  cases o with
  | none => exact .inr h
  | some b => exact .inl h

/-! ## Clocks -/

namespace Time

theorem regular_of_nanos_lt {t : Time} (h : t.nanos < nanosPerSecond) : t.Regular := by
  intro hleap
  have hle : nanosPerSecond ≤ t.nanos := of_decide_eq_true hleap
  omega

theorem ofParts?_eq_some {second nanos : Nat} {t : Time} (h : ofParts? second nanos = some t) :
    t.second = second ∧ t.nanos = nanos := by
  unfold ofParts? at h
  split at h
  · cases h
    exact ⟨rfl, rfl⟩
  · cases h

theorem regular_of_ofClock? {hour minute second nanos : Nat} {t : Time}
    (h : ofClock? hour minute second nanos = some t) : t.Regular := by
  unfold ofClock? at h
  split at h
  · next hranges =>
    simp only [Bool.and_eq_true, decide_eq_true_eq] at hranges
    split at h
    · intro _
      rw [(ofParts?_eq_some h).1]
      omega
    · refine regular_of_nanos_lt ?_
      rw [(ofParts?_eq_some h).2]
      exact hranges.2
  · cases h

end Time

namespace Calendar

theorem regular_of_time {f : Fields} {t : Time} (h : f.time = .ok t) : t.Regular := by
  unfold Fields.time at h
  split at h
  · next hclock =>
    cases h
    exact Time.regular_of_ofClock? hclock
  · cases h

theorem regular_of_timestamp {f : Fields} {t : Timestamp} (h : f.timestamp = .ok t) : t.time.Regular := by
  obtain ⟨d, -, h⟩ := Except.exists_of_bind_eq_ok h
  obtain ⟨time, htime, h⟩ := Except.exists_of_bind_eq_ok h
  cases h
  exact regular_of_time htime

end Calendar

theorem Time.regular_of_parse? {s : String} {t : Time} (h : Time.parse? s = some t) : t.Regular := by
  have hread : ∀ layout, ((readLayout layout s).bind (·.time)).toOption = some t → t.Regular := by
    intro layout h
    obtain ⟨f, -, htime⟩ := Except.exists_of_toOption_bind h
    exact regular_of_time htime
  rcases Option.eq_some_of_orElse h with h | h
  · exact hread _ h
  · exact hread _ h

/-! ## Offsets -/

namespace Calendar

/-- The offset of the fields is a number of full minutes. -/
def Fields.WholeMinutes (f : Fields) : Prop := f.offset % 60 = 0

theorem offset_wholeMinutes {separator : List Char → Except CalendarFault (List Char)} {needed : Bool}
    {cs rest : List Char} {n : Int} (h : offset separator needed cs = .ok (n, rest)) : n % 60 = 0 := by
  have hseconds : ∀ (c : Char) (h m : Nat),
      (if c == '+' then (h * 3600 + m * 60 : Int) else -(h * 3600 + m * 60 : Int)) % 60 = 0 := by
    intro c h m
    split <;> omega
  unfold offset at h
  split at h
  · cases h
    rfl
  · cases h
    rfl
  · cases h
  · next sign cs _ _ =>
    split at h
    · cases h
    rcases cs with _ | ⟨h₁, _ | ⟨h₂, cs⟩⟩
    · cases h
    · cases h
    dsimp only at h
    split at h
    · cases h
    obtain ⟨minutes, -, h⟩ := Except.exists_of_bind_eq_ok h
    -- the minutes may be left out
    rcases minutes with _ | ⟨m₁, _ | ⟨m₂, minutes⟩⟩
    · dsimp only at h
      split at h
      · cases h
      · cases h
        exact hseconds sign _ 0
    · cases h
    dsimp only at h
    split at h
    · cases h
    split at h
    · cases h
    cases h
    exact hseconds sign _ _

theorem wholeMinutes_read {p : Piece} {f g : Fields} {cs rest : List Char} (hf : f.WholeMinutes)
    (h : p.read f cs = .ok (g, rest)) : g.WholeMinutes := by
  cases p with
  | offset =>
    obtain ⟨⟨n, cs⟩, hoffset, h⟩ := Except.exists_of_bind_eq_ok h
    cases h
    exact offset_wholeMinutes hoffset
  | blank =>
    cases h
    exact hf
  | mark c =>
    obtain ⟨⟨⟨⟩, _⟩, -, h⟩ := Except.exists_of_bind_eq_ok h
    cases h
    exact hf
  | fraction =>
    unfold Piece.read at h
    dsimp only at h
    split at h
    · obtain ⟨⟨n, _⟩, -, h⟩ := Except.exists_of_bind_eq_ok h
      cases h
      exact hf
    · cases h
      exact hf
  | year =>
    obtain ⟨⟨n, _⟩, -, h⟩ := Except.exists_of_bind_eq_ok h
    dsimp only at h
    split at h
    · cases h
    · cases h
      exact hf
  | month | day | hour | minute | second =>
    obtain ⟨⟨n, _⟩, -, h⟩ := Except.exists_of_bind_eq_ok h
    obtain ⟨_, -, h⟩ := Except.exists_of_bind_eq_ok h
    cases h
    exact hf

theorem wholeMinutes_readPieces {ps : List Piece} {f g : Fields} {cs rest : List Char}
    (hf : f.WholeMinutes) (h : readPieces ps f cs = .ok (g, rest)) : g.WholeMinutes := by
  induction ps generalizing f cs with
  | nil =>
    cases h
    exact hf
  | cons p ps ih =>
    rw [readPieces] at h
    split at h
    · next hread => exact ih (wholeMinutes_read hf hread) h
    · cases h

theorem wholeMinutes_readLayout {layout : List Piece} {s : String} {f : Fields}
    (h : readLayout layout s = .ok f) : f.WholeMinutes := by
  unfold readLayout at h
  split at h
  · next hpieces =>
    cases h
    exact wholeMinutes_readPieces (f := {}) rfl hpieces
  · cases h
  · cases h

theorem wholeMinutes_readInternet {s : String} {f : Fields} (h : readInternet s = .ok f) :
    f.WholeMinutes := by
  obtain ⟨zone, -, hoffset⟩ := exists_offset_of_readInternet h
  exact offset_wholeMinutes hoffset

end Calendar

theorem Timestamp.subSeconds?_eq_some {t u : Timestamp} {n : Int} (h : t.subSeconds? n = some u) :
    (u.time.second : Int) = (t.time.second - n) % 86400 ∧ u.time.nanos = t.time.nanos := by
  have hwrap := wrap_seconds (t.time.second - n)
  unfold subSeconds? at h
  generalize Time.wrap _ = w at *
  obtain ⟨time, days⟩ := w
  obtain ⟨htime, -⟩ := hwrap
  dsimp only at htime h
  split at h
  · next hparts _ =>
    cases h
    obtain ⟨hsecond, hnanos⟩ := Time.ofParts?_eq_some hparts
    exact ⟨by rw [hsecond, htime]; omega, hnanos⟩
  · cases h

namespace Calendar

/-- Taking off an offset of full minutes moves no leap second within its minute. -/
theorem regular_of_instant {f : Fields} {t : Timestamp} (hf : f.WholeMinutes) (h : f.instant = .ok t) :
    t.time.Regular := by
  obtain ⟨u, htimestamp, h⟩ := Except.exists_of_bind_eq_ok h
  have hu := regular_of_timestamp htimestamp
  dsimp only at h
  split at h
  · cases h
  · split at h
    · next hsub =>
      cases h
      obtain ⟨hsecond, hnanos⟩ := Timestamp.subSeconds?_eq_some hsub
      have hoffset : f.offset % 60 = 0 := hf
      intro hleap
      have hlast : u.time.second % 60 = 59 := hu (by
        unfold Time.isLeap at hleap ⊢
        rwa [hnanos] at hleap)
      omega
    · cases h

end Calendar

namespace Timestamp

theorem regular_of_parse? {s : String} {t : Timestamp} (h : Timestamp.parse? s = some t) :
    t.time.Regular := by
  rcases Option.eq_some_of_orElse h with h | h
  · obtain ⟨layout, -, h⟩ := List.exists_of_findSome?_eq_some h
    obtain ⟨f, -, htimestamp⟩ := Except.exists_of_toOption_bind h
    exact regular_of_timestamp htimestamp
  rcases Option.eq_some_of_orElse h with h | h
  · obtain ⟨f, -, h⟩ := Except.exists_of_toOption_bind h
    obtain ⟨_, -, htimestamp⟩ := Except.exists_of_bind_eq_ok h
    exact regular_of_timestamp htimestamp
  · obtain ⟨d, -, rfl⟩ := Option.map_eq_some_iff.mp h
    exact Time.regular_of_nanos_lt (t := Time.midnight) (by decide)

theorem regular_of_parseInstant? {s : String} {t : Timestamp} (h : Timestamp.parseInstant? s = some t) :
    t.time.Regular := by
  rcases Option.eq_some_of_orElse h with h | h
  · obtain ⟨f, hread, hinstant⟩ := Except.exists_of_toOption_bind h
    exact regular_of_instant (wholeMinutes_readInternet hread) hinstant
  rcases Option.eq_some_of_orElse h with h | h
  · obtain ⟨f, hread, hinstant⟩ := Except.exists_of_toOption_bind h
    exact regular_of_instant (wholeMinutes_readLayout hread) hinstant
  · exact regular_of_parse? h

end Timestamp

end SqlStore
