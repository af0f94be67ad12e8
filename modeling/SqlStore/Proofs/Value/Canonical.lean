import SqlStore.Proofs.Table.Form
import SqlStore.Proofs.Value.Reflexivity

/-!
# Canonical values

Converting a value ends in a canonical one: the type admits it, and converting it again leaves it as it
is. A value that the type admits is equal to its conversion, though its form may change: a decimal takes
the places of its type, and what is not a number takes the one code that narrowing has for it.
-/

namespace SqlStore

/-- Equality of values: decimals by value whatever their scales, what is not a number equal to what is
not a number, everything else alike. -/
def Value.Coincides : Value → Value → Prop
  | numeric d, numeric e => d.equal e = true
  | real x, real y => x = y ∨ x.isNaN = true ∧ y.isNaN = true
  | v, w => v = w

namespace Value

theorem coincides_self (v : Value) : v.Coincides v := by
  cases v with
  | numeric d => exact Numeric.equal_self d
  | real x => exact Or.inl rfl
  | _ => rfl

end Value

namespace Binary32

theorem isNaN_eq (x : Binary32) : x.isNaN = decide (BinaryFormat.single.infinity < x.code) := rfl

/-- Double precision and back gives the number, or some code for what is not a number. -/
theorem narrow_widen (x : Binary32) :
    x.widen.narrow = x ∨ x.widen.narrow.isNaN = true ∧ x.isNaN = true := by
  have hback : x.widen.narrow = ofParts x.negative (narrowCode (widenCode x.code)) := by
    rw [Binary64.narrow_eq, widen_eq, Binary64.negative_ofParts _ (widenCode_lt _),
      Binary64.code_ofParts _ (widenCode_lt _)]
  by_cases hnan : BinaryFormat.single.infinity < x.code
  · refine Or.inr ⟨?_, by rw [isNaN_eq]; exact decide_eq_true hnan⟩
    have hcode : narrowCode (widenCode x.code) = BinaryFormat.single.nan := by
      unfold widenCode
      rw [if_pos hnan]
      decide
    rw [isNaN_eq, hback, hcode, code_ofParts _ (by decide)]
    decide
  · left
    rw [hback, narrowCode_widenCode (Or.inl (not_lt.mp hnan)), ofParts_negative_code]

end Binary32

namespace DataType

variable {t : DataType} {v w : Value}

theorem admits_numeric {p s : Option Nat} {d : Numeric} :
    (numeric p s).admits (.numeric d) = true ↔ ∃ fitted, d.declared p s = .ok fitted ∧ fitted.equal d := by
  cases hd : d.declared p s <;> simp [admits, hd]

/-- The type admits the values that have its form. -/
theorem admits_of_formed (h : t.Formed v) : t.admits v = true := by
  cases v <;> cases t <;> try exact h.elim
  case numeric.numeric d p s => exact admits_numeric.mpr ⟨d, h, Numeric.equal_self d⟩
  all_goals rfl

/-- What a value is converted to is admitted and converted to itself. -/
theorem canonical_convert (h : t.convert v = .ok w) : t.admits w = true ∧ t.convert w = .ok w := by
  by_cases hv : v = .null
  · subst hv
    cases h
    exact ⟨by cases t <;> rfl, rfl⟩
  · have hw := formed_convert hv h
    exact ⟨admits_of_formed hw, convert_of_formed hw⟩

/-- Besides decimals and single precision, whatever the type admits has its form. -/
theorem formed_of_admits (hv : v ≠ .null) (hnumeric : ∀ d, v ≠ .numeric d) (hreal : ∀ x, v ≠ .real x)
    (h : t.admits v = true) : t.Formed v := by
  cases v with
  | null => exact absurd rfl hv
  | numeric d => exact absurd rfl (hnumeric d)
  | real x => exact absurd rfl (hreal x)
  | _ => cases t <;> trivial

/-- An admitted value is converted to an equal one. -/
theorem exists_coincides_of_admits (h : t.admits v = true) :
    ∃ w, t.convert v = .ok w ∧ w.Coincides v := by
  cases v with
  | null => exact ⟨.null, rfl, rfl⟩
  | numeric d =>
    cases t <;> try cases h
    case numeric p s =>
      obtain ⟨fitted, hd, hfit⟩ := admits_numeric.mp h
      refine ⟨.numeric fitted, ?_, hfit⟩
      show (d.declared p s >>= fun e => Except.ok (Value.numeric e)) = _
      rw [hd]
      rfl
  | real x =>
    cases t <;> try cases h
    case real => exact ⟨.real x.widen.narrow, rfl, x.narrow_widen⟩
  | _ =>
    exact ⟨_, convert_of_formed (formed_of_admits (by simp) (by simp) (by simp) h), Value.coincides_self _⟩

end DataType

namespace Column

/-- A value that a column has accepted is accepted as it stands. -/
theorem accept_accept {c : Column} {v w : Value} (h : c.accept v = .ok w) : c.accept w = .ok w :=
  accept_of_formed (formed_accept h)

end Column

/-- Conversion gives canonical values and changes no admitted value, and what a column accepts it leaves
as it is when it accepts it again. -/
theorem conversion_canonical :
    (∀ (t : DataType) (v w : Value), t.convert v = .ok w → t.admits w = true ∧ t.convert w = .ok w) ∧
    (∀ (t : DataType) (v : Value), t.admits v = true →
      ∃ w, t.convert v = .ok w ∧ w.Coincides v) ∧
    (∀ (c : Column) (v w : Value), c.accept v = .ok w → c.accept w = .ok w) :=
  ⟨fun _ _ _ => DataType.canonical_convert, fun _ _ => DataType.exists_coincides_of_admits,
    fun _ _ _ => Column.accept_accept⟩

/-- A text is rounded to a decimal, a decimal takes a place that it lacks, and a text is filled with
spaces. -/
theorem conversion_canonical_sample :
    (DataType.numeric (some 4) (some 2)).convert (.numeric ⟨false, 101, 2, by decide⟩) =
        .ok (.numeric ⟨false, 101, 2, by decide⟩) ∧
      (∃ w, (DataType.numeric (some 4) (some 2)).convert (.numeric ⟨true, 15, 1, by decide⟩) = .ok w ∧
        w.Coincides (.numeric ⟨true, 15, 1, by decide⟩)) ∧
      ({ Column.plain "c" .char with maxLength := some 3 } : Column).accept (.text "7  ") =
        .ok (.text "7  ") := by
  have hround : (DataType.numeric (some 4) (some 2)).convert (.text "1.005") =
      .ok (.numeric ⟨false, 101, 2, by decide⟩) := by rfl
  have hadmits : (DataType.numeric (some 4) (some 2)).admits (.numeric ⟨true, 15, 1, by decide⟩) =
      true := by rfl
  have hfill : ({ Column.plain "c" .char with maxLength := some 3 } : Column).accept (.integer 7) =
      .ok (.text "7  ") := by rfl
  exact ⟨(conversion_canonical.1 _ _ _ hround).2, conversion_canonical.2.1 _ _ hadmits,
    conversion_canonical.2.2 _ _ _ hfill⟩

end SqlStore
