import SqlStore.Proofs.Calendar.Regular
import SqlStore.Proofs.Hexadecimal
import SqlStore.Proofs.Numeric.Text
import SqlStore.Proofs.Value.Canonical
import SqlStore.Proofs.Value.Kind

/-!
# Values from their texts

What the values of a kind are written as, their type reads back. A decimal comes back equal in value and
every other value as it was. The values are regular: leap seconds end their minutes, and places that
reading does not take are zeros; conversions give no others.
-/

namespace SqlStore

namespace Value

/-- What holds of all values that conversions give. -/
def Regular : Value → Prop
  | numeric d => d.Regular
  | time t => t.Regular
  | timestamp t => t.time.Regular
  | timestampTz t => t.time.Regular
  | _ => True

end Value

namespace DataType

/-- The types that read back what their values are written as. -/
def written : List DataType :=
  [smallInt, integer, bigInt, numeric none none, boolean, text, uuid, bytea, date, time, timestamp, timestampTz]

/-! ## Each kind from its text -/

theorem integerOf_showInt {n : Int} (hlow : -9223372036854775808 ≤ n) (hhigh : n < 9223372036854775808) :
    integerOf (.text (Text.showInt n)) = some (.ok n) := by
  have hword : (int64? n).map (·.toInt) = some n := by
    cases h : int64? n with
    | none =>
      unfold int64? at h
      rw [if_pos ⟨hlow, hhigh⟩] at h
      cases h
    | some w => exact congrArg some (toInt_of_int64? h)
  unfold integerOf
  dsimp only
  rw [Text.trim_showInt, Text.int?_showInt, Option.bind_some, hword]
  rfl

theorem toWord_showInt {α : Type} {word? : Int → Option α} {i : α} {n : Int} (type : DataType)
    (hlow : -9223372036854775808 ≤ n) (hhigh : n < 9223372036854775808) (hword : word? n = some i) :
    toWord type word? (.text (Text.showInt n)) = .ok i := by
  unfold toWord
  rw [integerOf_showInt hlow hhigh]
  show orFail _ (word? n) = _
  rw [hword]
  rfl

theorem convert_smallInt_text (n : Int16) :
    smallInt.convert (.text (Value.smallInt n).toText) = .ok (.smallInt n) := by
  have hlow := n.le_toInt
  have hhigh := n.toInt_lt
  have hword := toWord_showInt smallInt (by omega) (by omega) (int16?_toInt n)
  rw [show (Value.smallInt n).toText = Text.showInt n.toInt from rfl]
  unfold convert
  dsimp only
  rw [hword]
  rfl

theorem convert_integer_text (n : Int32) :
    integer.convert (.text (Value.integer n).toText) = .ok (.integer n) := by
  have hlow := n.le_toInt
  have hhigh := n.toInt_lt
  have hword := toWord_showInt integer (by omega) (by omega) (int32?_toInt n)
  rw [show (Value.integer n).toText = Text.showInt n.toInt from rfl]
  unfold convert
  dsimp only
  rw [hword]
  rfl

theorem convert_bigInt_text (n : Int64) :
    bigInt.convert (.text (Value.bigInt n).toText) = .ok (.bigInt n) := by
  have hword := toWord_showInt bigInt n.le_toInt n.toInt_lt (int64?_toInt n)
  rw [show (Value.bigInt n).toText = Text.showInt n.toInt from rfl]
  unfold convert
  dsimp only
  rw [hword]
  rfl

theorem convert_numeric_text {d : Numeric} (h : d.Regular) :
    ∃ e, (numeric none none).convert (.text (Value.numeric d).toText) = .ok (.numeric e) ∧
      e.equal d = true := by
  obtain ⟨e, hparse, hequal⟩ := Numeric.exists_parse?_text h
  have hdecimal : decimalOf (numeric none none) (.text d.text) = .ok e := by
    unfold decimalOf
    dsimp only
    rw [Numeric.trim_text, hparse]
    rfl
  refine ⟨e, ?_, hequal⟩
  rw [show (Value.numeric d).toText = d.text from rfl]
  unfold convert
  dsimp only
  rw [hdecimal]
  rfl

theorem convert_boolean_text (b : Bool) :
    boolean.convert (.text (Value.boolean b).toText) = .ok (.boolean b) := by
  have hread : readBoolean (Value.boolean b).toText = some b := by
    cases b <;> decide +kernel
  unfold convert
  dsimp only
  rw [hread]
  rfl

theorem convert_uuid_text (u : Uuid) : uuid.convert (.text (Value.uuid u).toText) = .ok (.uuid u) := by
  have hparse : Uuid.parse (Text.trim (Value.uuid u).toText) = .ok u := by
    rw [show (Value.uuid u).toText = u.text from rfl, Uuid.trim_text, Uuid.parse_text]
  unfold convert
  dsimp only
  rw [hparse]
  rfl

theorem convert_bytea_text (bytes : List UInt8) :
    bytea.convert (.text (Value.bytea bytes).toText) = .ok (.bytea bytes) := by
  have hchars : (Value.bytea bytes).toText.toList = '\\' :: 'x' :: Bytes.hex bytes := String.toList_ofList
  unfold convert
  dsimp only
  rw [hchars]
  refine (if_neg Bool.false_ne_true).trans ?_
  split
  · next digits heq =>
    cases heq
    rw [Bytes.ofHex_hex]
  · next hother => exact absurd rfl (hother _)

theorem convert_date_text (d : Date) : date.convert (.text (Value.date d).toText) = .ok (.date d) := by
  have hparse : Date.parse (Text.trim (Value.date d).toText) = .ok d := by
    rw [show (Value.date d).toText = d.text from rfl, Date.trim_text, Date.parse_text]
  unfold convert
  dsimp only
  rw [hparse]
  rfl

theorem convert_time_text {t : Time} (h : t.Regular) :
    time.convert (.text (Value.time t).toText) = .ok (.time t) := by
  have hparse : Time.parse? (Text.trim (Value.time t).toText) = some t := by
    rw [show (Value.time t).toText = t.text from rfl, Time.trim_text, Time.parse?_text h]
  unfold convert
  dsimp only
  rw [hparse]
  rfl

theorem convert_timestamp_text {t : Timestamp} (h : t.time.Regular) :
    timestamp.convert (.text (Value.timestamp t).toText) = .ok (.timestamp t) := by
  have hparse : Timestamp.parse? (Text.trim (Value.timestamp t).toText) = some t := by
    rw [show (Value.timestamp t).toText = t.text from rfl, Timestamp.trim_text, Timestamp.parse?_text h]
  unfold convert
  dsimp only
  rw [hparse]
  rfl

theorem convert_timestampTz_text {t : Timestamp} (h : t.time.Regular) :
    timestampTz.convert (.text (Value.timestampTz t).toText) = .ok (.timestampTz t) := by
  have hparse : Timestamp.parseInstant? (Text.trim (Value.timestampTz t).toText) = some t := by
    rw [show (Value.timestampTz t).toText = t.text ++ "+00" from rfl, Timestamp.trim_instant,
      Timestamp.parseInstant?_text h]
  unfold convert
  dsimp only
  rw [hparse]
  rfl

/-- A value of one of the kinds is read back from its text. -/
theorem exists_convert_toText {t : DataType} {v : Value} (hv : v.Regular) (hkind : v.datatype = some t)
    (ht : t ∈ written) : ∃ w, t.convert (.text v.toText) = .ok w ∧ w.Coincides v := by
  cases v <;> cases hkind
  case smallInt n => exact ⟨_, convert_smallInt_text n, rfl⟩
  case integer n => exact ⟨_, convert_integer_text n, rfl⟩
  case bigInt n => exact ⟨_, convert_bigInt_text n, rfl⟩
  case numeric d =>
    obtain ⟨e, hconvert, hequal⟩ := convert_numeric_text (d := d) hv
    exact ⟨_, hconvert, hequal⟩
  case boolean b => exact ⟨_, convert_boolean_text b, rfl⟩
  case text s => exact ⟨.text s, rfl, rfl⟩
  case uuid u => exact ⟨_, convert_uuid_text u, rfl⟩
  case bytea bytes => exact ⟨_, convert_bytea_text bytes, rfl⟩
  case date d => exact ⟨_, convert_date_text d, rfl⟩
  case time u => exact ⟨_, convert_time_text (t := u) hv, rfl⟩
  case timestamp u => exact ⟨_, convert_timestamp_text (t := u) hv, rfl⟩
  case timestampTz u => exact ⟨_, convert_timestampTz_text (t := u) hv, rfl⟩
  all_goals simp [written] at ht

/-! ## What conversions give -/

theorem regular_numericOfFloat {x : Binary64} {d : Numeric} (h : Value.numericOfFloat x = .ok d) :
    d.Regular := by
  unfold Value.numericOfFloat at h
  split at h
  · next hexact =>
    cases h
    exact Numeric.regular_of_scale_le (Numeric.scale_of_ofBinary64? hexact)
  · cases h

theorem regular_decimalOf {t : DataType} {v : Value} {d : Numeric} (hv : v.Regular)
    (h : decimalOf t v = .ok d) : d.Regular := by
  have hword : ∀ {n : Int} {err : Error}, orFail err (Numeric.ofInt? n) = .ok d → d.Regular := by
    intro n err h
    refine Numeric.regular_of_scale_le ?_
    rw [(Numeric.ofParts?_eq_some (orFail_eq_ok.mp h)).2]
    exact Nat.zero_le _
  cases v
  case numeric e =>
    cases h
    exact hv
  case text s => exact Numeric.regular_of_scale_le (Numeric.scale_of_parse? (orFail_eq_ok.mp h))
  case real x => exact regular_numericOfFloat h
  case double x => exact regular_numericOfFloat h
  case smallInt n => exact hword h
  case integer n => exact hword h
  case bigInt n => exact hword h
  all_goals cases h

/-- Conversions of regular values give regular values. -/
theorem regular_convert {t : DataType} {v w : Value} (hv : v.Regular) (h : t.convert v = .ok w) :
    w.Regular := by
  by_cases hnull : v = .null
  · subst hnull
    cases h
    trivial
  have hw := formed_convert hnull h
  unfold convert at h
  rw [if_neg (by simpa using hnull)] at h
  -- only decimals and times of day can be irregular; the form of a value of another type says enough
  cases t <;> dsimp only at h
  case numeric p s =>
    obtain ⟨d, hd, h⟩ := Except.exists_of_bind_eq_ok h
    obtain ⟨e, he, h⟩ := Except.exists_of_bind_eq_ok h
    cases h
    exact Numeric.regular_declared (regular_decimalOf hv hd) he
  -- a value keeps its time of day, a date is at midnight, and a text is read
  case time =>
    split at h
    · cases h
      exact hv
    · cases h
      exact hv
    · obtain ⟨t, hread, h⟩ := Except.exists_of_bind_eq_ok h
      cases h
      exact Time.regular_of_parse? (orFail_eq_ok.mp hread)
    · cases h
  case timestamp =>
    split at h
    · cases h
      exact hv
    · cases h
      exact Time.regular_of_nanos_lt (t := Time.midnight) (by decide)
    · cases h
      exact hv
    · obtain ⟨t, hread, h⟩ := Except.exists_of_bind_eq_ok h
      cases h
      exact Timestamp.regular_of_parse? (orFail_eq_ok.mp hread)
    · cases h
  case timestampTz =>
    split at h
    · cases h
      exact hv
    · cases h
      exact hv
    · cases h
      exact Time.regular_of_nanos_lt (t := Time.midnight) (by decide)
    · obtain ⟨t, hread, h⟩ := Except.exists_of_bind_eq_ok h
      cases h
      exact Timestamp.regular_of_parseInstant? (orFail_eq_ok.mp hread)
    · cases h
  all_goals cases w <;> trivial

end DataType

/-- The text of a value is converted back to the value, and no conversion gives a value of which this would
not hold. -/
theorem text_conversion_inverts :
    (∀ (t : DataType) (v : Value), v.Regular → v.datatype = some t → t ∈ DataType.written →
      ∃ w, t.convert (.text v.toText) = .ok w ∧ w.Coincides v) ∧
    (∀ (t : DataType) (v w : Value), v.Regular → t.convert v = .ok w → w.Regular) :=
  ⟨fun _ _ => DataType.exists_convert_toText, fun _ _ _ => DataType.regular_convert⟩

namespace Sample

/-- The last nanosecond of a leap second, long before year zero. -/
def ancient : Timestamp := ⟨⟨-4000000, by decide, by decide⟩, ⟨86399, 1999999999, by decide, by decide⟩⟩

/-- A timestamp in a leap second comes back from its text, and a decimal with many places from its own. -/
theorem ancient_reread :
    (∃ w, DataType.timestampTz.convert (.text (Value.timestampTz ancient).toText) = .ok w ∧
        w.Coincides (.timestampTz ancient)) ∧
      (∃ w, (DataType.numeric none none).convert (.text (Value.numeric ⟨true, 150, 2, by decide⟩).toText) =
          .ok w ∧ w.Coincides (.numeric ⟨true, 150, 2, by decide⟩)) ∧
      (Value.time ancient.time).Regular := by
  have hregular : (Value.timestampTz ancient).Regular := fun _ => by decide
  refine ⟨text_conversion_inverts.1 _ _ hregular rfl (by decide),
    text_conversion_inverts.1 _ _ (Numeric.regular_of_scale_le (by decide)) rfl (by decide),
    text_conversion_inverts.2 .time (.timestamp ancient) _ hregular rfl⟩

end Sample

end SqlStore
