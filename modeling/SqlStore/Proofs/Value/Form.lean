import SqlStore.Proofs.Binary.Narrowing
import SqlStore.Proofs.Check
import SqlStore.Proofs.Numeric.Scale

/-!
# The form that a type gives its values

`DataType.Formed` says which values a conversion to a type can give. A converted value has that form,
and a value of that form is its own conversion, so converting twice is converting once.
-/

namespace SqlStore

theorem int16?_toInt (n : Int16) : int16? n.toInt = some n := by
  unfold int16?
  rw [if_pos ⟨n.le_toInt, n.toInt_lt⟩, Int16.ofInt_toInt]

theorem int32?_toInt (n : Int32) : int32? n.toInt = some n := by
  unfold int32?
  rw [if_pos ⟨n.le_toInt, n.toInt_lt⟩, Int32.ofInt_toInt]

theorem int64?_toInt (n : Int64) : int64? n.toInt = some n := by
  unfold int64?
  rw [if_pos ⟨n.le_toInt, n.toInt_lt⟩, Int64.ofInt_toInt]

namespace DataType

/-- The type without its arguments, as a value has it. -/
def kind : DataType → DataType
  | numeric _ _ => .numeric none none
  | varchar => .text
  | char => .text
  | t => t

/-- The value has the form that the type gives its values; NULL has none. -/
def Formed : DataType → Value → Prop
  | smallInt, .smallInt _ => True
  | integer, .integer _ => True
  | bigInt, .bigInt _ => True
  | numeric p s, .numeric d => d.declared p s = .ok d
  | real, .real x => x.widen.narrow = x
  | double, .double _ => True
  | varchar, .text _ => True
  | char, .text _ => True
  | text, .text _ => True
  | boolean, .boolean _ => True
  | date, .date _ => True
  | time, .time _ => True
  | timestamp, .timestamp _ => True
  | timestampTz, .timestampTz _ => True
  | interval, .interval _ => True
  | uuid, .uuid _ => True
  | jsonb, .json _ => True
  | bytea, .bytea _ => True
  | _, _ => False

theorem not_formed_null (t : DataType) : ¬ t.Formed .null := by
  cases t <;> exact id

theorem datatype_of_formed {t : DataType} {v : Value} (h : t.Formed v) :
    v.datatype = some t.kind := by
  cases v <;> cases t <;> first
    | rfl
    | exact h.elim

theorem kind_of_datatype {v : Value} {t : DataType} (h : v.datatype = some t) : t.kind = t := by
  cases v <;> cases h <;> rfl

theorem formed_text {t : DataType} {s : String} (h : t.Formed (.text s)) (r : String) :
    t.Formed (.text r) := by
  cases t <;> trivial

theorem toWord_of_int {α : Type} {word? : Int → Option α} {n : α} {i : Int} {v : Value}
    (type : DataType) (hv : v.int? = some i) (hword : word? i = some n) :
    toWord type word? v = .ok n := by
  have hint : integerOf v = some (.ok i) := by
    cases v <;> cases hv <;> rfl
  unfold toWord
  rw [hint]
  show orFail _ (word? i) = _
  rw [hword]
  rfl

/-- A value in the form of the type is its own conversion. -/
theorem convert_of_formed {t : DataType} {v : Value} (h : t.Formed v) : t.convert v = .ok v := by
  -- of all pairs of a type and a kind only those of one form are left
  cases v <;> cases t <;> try exact h.elim
  case smallInt.smallInt n =>
    exact congrArg (Except.map Value.smallInt) (toWord_of_int _ rfl (int16?_toInt n))
  case integer.integer n =>
    exact congrArg (Except.map Value.integer) (toWord_of_int _ rfl (int32?_toInt n))
  case bigInt.bigInt n =>
    exact congrArg (Except.map Value.bigInt) (toWord_of_int _ rfl (int64?_toInt n))
  case numeric.numeric d p s =>
    have hd : d.declared p s = .ok d := h
    show (d.declared p s >>= fun e => Except.ok (Value.numeric e)) = Except.ok (Value.numeric d)
    rw [hd]
    rfl
  case real.real x =>
    have hx : x.widen.narrow = x := h
    show Except.ok (Value.real x.widen.narrow) = _
    rw [hx]
  all_goals rfl

/-- A converted value has the form of the type. -/
theorem formed_convert {t : DataType} {v u : Value} (hv : v ≠ .null)
    (h : t.convert v = .ok u) : t.Formed u := by
  unfold convert at h
  rw [if_neg (by simpa using hv)] at h
  cases t <;> dsimp only at h
  case smallInt =>
    obtain ⟨n, -, rfl⟩ := Except.exists_of_map_eq_ok h
    trivial
  case integer =>
    obtain ⟨n, -, rfl⟩ := Except.exists_of_map_eq_ok h
    trivial
  case bigInt =>
    obtain ⟨n, -, rfl⟩ := Except.exists_of_map_eq_ok h
    trivial
  case jsonb =>
    obtain ⟨j, -, rfl⟩ := Except.exists_of_map_eq_ok h
    trivial
  case numeric p s =>
    obtain ⟨d, -, h⟩ := Except.exists_of_bind_eq_ok h
    obtain ⟨e, he, h⟩ := Except.exists_of_bind_eq_ok h
    cases h
    exact Numeric.declared_of_declared he
  case real =>
    obtain ⟨x, -, h⟩ := Except.exists_of_bind_eq_ok h
    cases h
    exact narrow_widen_narrow x
  case double =>
    obtain ⟨x, -, h⟩ := Except.exists_of_bind_eq_ok h
    cases h
    trivial
  case varchar | char | text =>
    cases h
    trivial
  -- the readers of these types end in a value of the type or in a failure
  case date | interval | uuid | bytea =>
    repeat' split at h
    all_goals cases h <;> trivial
  case boolean | time | timestamp | timestampTz =>
    split at h
    all_goals first
      | obtain ⟨a, -, h⟩ := Except.exists_of_bind_eq_ok h
        cases h
        trivial
      | cases h <;> trivial

end DataType

end SqlStore
