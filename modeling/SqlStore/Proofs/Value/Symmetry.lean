import SqlStore.Value.Comparison

/-!
# Comparison from the other side

The order of two values is the reverse of the order of the two taken the other way round, for all kinds
that have a common order. So it is for the comparison of any two values, unknown and failed comparisons
included: `compare_mirrored`.
-/

namespace SqlStore

open Std

theorem compare_swap {α : Type} [Ord α] [OrientedOrd α] (a b : α) :
    (compare a b).swap = compare b a := OrientedCmp.eq_swap.symm

theorem compare_then_swap {α β : Type} [Ord α] [Ord β] [OrientedOrd α] [OrientedOrd β] (a b : α)
    (c d : β) : ((compare a b).then (compare c d)).swap = (compare b a).then (compare d c) := by
  rw [Ordering.swap_then, compare_swap, compare_swap]

theorem Binary64.totalCompare_swap (x y : Binary64) :
    (x.totalCompare y).swap = y.totalCompare x := compare_swap ..

theorem Binary64.equal_comm (x y : Binary64) : x.equal y = y.equal x := by
  unfold equal
  rw [Bool.and_comm (!x.isNaN), BEq.comm (a := x.bits), Bool.and_comm x.isZero]

theorem Numeric.compareValue_swap (a b : Numeric) :
    (a.compareValue b).swap = b.compareValue a := compare_swap ..

theorem Time.compareTime_swap (a b : Time) : (a.compareTime b).swap = b.compareTime a :=
  compare_then_swap ..

theorem Timestamp.compareTimestamp_swap (a b : Timestamp) :
    (a.compareTimestamp b).swap = b.compareTimestamp a := by
  unfold compareTimestamp
  rw [Ordering.swap_then, Time.compareTime_swap, compare_swap]

theorem Uuid.compareUuid_swap (a b : Uuid) : (a.compareUuid b).swap = b.compareUuid a :=
  compare_swap ..

theorem Bytes.compareBytes_swap (as bs : List UInt8) :
    (compareBytes as bs).swap = compareBytes bs as := by
  induction as generalizing bs with
  | nil => cases bs <;> rfl
  | cons a as ih =>
    cases bs with
    | nil => rfl
    | cons b bs =>
      unfold compareBytes
      rw [Ordering.swap_then, ih, compare_swap]

theorem JsonNumber.same_comm (a b : JsonNumber) : a.same b = b.same a := by
  cases a <;> cases b
  · exact BEq.comm
  · rfl
  · rfl
  · exact Binary64.equal_comm _ _

namespace Json

mutual

theorem same_comm (a b : Json) : a.same b = b.same a := by
  cases a <;> cases b <;> unfold same <;> try rfl
  · exact BEq.comm
  · exact JsonNumber.same_comm _ _
  · exact BEq.comm
  · exact sameItems_comm _ _
  · exact sameEntries_comm _ _

theorem sameItems_comm (as bs : List Json) : sameItems as bs = sameItems bs as := by
  cases as <;> cases bs <;> unfold sameItems <;> try rfl
  rw [same_comm, sameItems_comm]

theorem sameEntries_comm (as bs : List (String × Json)) :
    sameEntries as bs = sameEntries bs as := by
  cases as <;> cases bs <;> unfold sameEntries <;> try rfl
  rw [same_comm, sameEntries_comm, BEq.comm]

end

end Json

namespace Value

theorem compareNumbers_swap (a b : Value) :
    (compareNumbers a b).swap = compareNumbers b a := by
  unfold compareNumbers
  rw [Bool.or_comm b.isFloat]
  split
  · exact Binary64.totalCompare_swap _ _
  · split <;> simp_all [Numeric.compareValue_swap]

/-- The order of two values is the reverse of the one taken the other way round. -/
theorem compareKinds_swap (a b : Value) :
    (compareKinds a b).map Ordering.swap = compareKinds b a := by
  -- most pairs of kinds have no order, from either side
  cases a <;> cases b <;> try rfl
  case boolean.boolean | text.text | date.date | interval.interval =>
    exact congrArg some (compare_swap ..)
  case time.time => exact congrArg some (Time.compareTime_swap ..)
  case timestamp.timestamp | timestamp.timestampTz | timestampTz.timestamp |
      timestampTz.timestampTz | date.timestamp | timestamp.date =>
    exact congrArg some (Timestamp.compareTimestamp_swap ..)
  case uuid.uuid => exact congrArg some (Uuid.compareUuid_swap ..)
  case bytea.bytea => exact congrArg some (Bytes.compareBytes_swap ..)
  case json.json a b =>
    show some (Ordering.swap (if a.same b then .eq else Ord.compare a.text b.text)) =
      some (if b.same a then .eq else Ord.compare b.text a.text)
    rw [apply_ite Ordering.swap, compare_swap, Json.same_comm]
    rfl
  case smallInt.smallInt | smallInt.integer | smallInt.bigInt | integer.smallInt |
      integer.integer | integer.bigInt | bigInt.smallInt | bigInt.integer | bigInt.bigInt =>
    exact congrArg some (compare_swap ..)
  -- what is left are numbers of which one is not an integer
  all_goals exact congrArg some (compareNumbers_swap ..)

/-! ## Comparison -/

/-- Whether the value is text. -/
def isText : Value → Bool
  | text _ => true
  | _ => false

theorem exists_text {a : Value} (h : a.isText = true) : ∃ s, a = text s := by
  cases a <;> first
    | exact ⟨_, rfl⟩
    | cases h

theorem isNull_of_datatype {a : Value} {t : DataType} (h : a.datatype = some t) : a.isNull = false := by
  cases a <;> cases h <;> rfl

theorem eq_null_of_datatype {a : Value} (h : a.datatype = none) : a = null := by
  cases a <;> cases h
  rfl

theorem null_compare (a : Value) : null.compare a = .ok none := rfl

theorem compare_null (a : Value) : a.compare null = .ok none := by
  cases a <;> rfl

/-- Text in front is read as the type of the value behind it. -/
theorem text_compare {b : Value} {t : DataType} (s : String) (hb : b.datatype = some t) :
    (text s).compare b = (t.convert (text s)).bind fun a => compareRead a b := by
  cases b <;> cases hb <;> rfl

/-- Text behind is read as the type of the value in front of it. -/
theorem compare_text {a : Value} {t : DataType} (s : String) (ha : a.datatype = some t) :
    a.compare (text s) = (t.convert (text s)).bind fun b => compareRead a b := by
  cases a <;> cases ha <;> rfl

/-- Values of one type are compared as they are. -/
theorem compare_of_datatype {a b : Value} {t : DataType} (ha : a.datatype = some t)
    (hb : b.datatype = some t) : a.compare b = compareRead a b := by
  cases a <;> cases ha <;> cases b <;> cases hb <;> rfl

/-- Values are compared as they are where none is text. -/
theorem compare_of_not_text {a b : Value} (ha : a.isNull = false) (hb : b.isNull = false)
    (hta : a.isText = false) (htb : b.isText = false) : a.compare b = compareRead a b := by
  unfold compare
  rw [ha, hb, Bool.or_self, if_neg Bool.false_ne_true]
  split
  · cases hta
  · cases hta
  · cases htb
  · rfl

/-- Two values are compared in one of three ways: not at all beside NULL, with a text read as the type of
the other side, or as they are. -/
@[elab_as_elim]
theorem compare_cases {motive : Value → Value → Prop} (nullFirst : ∀ b, motive null b)
    (nullSecond : ∀ a, motive a null)
    (textFirst : ∀ s b type, b.datatype = some type → motive (text s) b)
    (textSecond : ∀ s a type, a.datatype = some type → motive a (text s))
    (plain : ∀ a b, a.compare b = compareRead a b → b.compare a = compareRead b a → motive a b)
    (a b : Value) : motive a b := by
  cases hta : a.datatype with
  | none =>
    rw [eq_null_of_datatype hta]
    exact nullFirst b
  | some t =>
    cases htb : b.datatype with
    | none =>
      rw [eq_null_of_datatype htb]
      exact nullSecond a
    | some u =>
      cases hxa : a.isText with
      | true =>
        obtain ⟨s, rfl⟩ := exists_text hxa
        exact textFirst s b u htb
      | false =>
        cases hxb : b.isText with
        | true =>
          obtain ⟨s, rfl⟩ := exists_text hxb
          exact textSecond s a t hta
        | false =>
          have ha := isNull_of_datatype hta
          have hb := isNull_of_datatype htb
          exact plain a b (compare_of_not_text ha hb hxa hxb) (compare_of_not_text hb ha hxb hxa)

/-- What comparing two values gives from the one side and from the other: unknown twice, an order and its
reverse, one failure to read a text, or a failure that names two kinds in the order in which they stand. -/
inductive Mirrored : Except Error (Option Ordering) → Except Error (Option Ordering) → Prop where
  | unknown : Mirrored (.ok none) (.ok none)
  | ordered (o : Ordering) : Mirrored (.ok (some o)) (.ok (some o.swap))
  | unreadable (e : Error) : Mirrored (.error e) (.error e)
  | incomparable (a b : Value) : Mirrored (.error (incomparable a b)) (.error (incomparable b a))

namespace Mirrored

variable {r r' : Except Error (Option Ordering)}

theorem symm (h : Mirrored r r') : Mirrored r' r := by
  cases h with
  | unknown => exact unknown
  | ordered o =>
    have hback := ordered o.swap
    rwa [Ordering.swap_swap] at hback
  | unreadable e => exact unreadable e
  | incomparable a b => exact incomparable b a

theorem fails (h : Mirrored r r') (hr : ∃ e, r = .error e) : ∃ e, r' = .error e := by
  obtain ⟨e, rfl⟩ := hr
  cases h with
  | unreadable => exact ⟨e, rfl⟩
  | incomparable a b => exact ⟨Value.incomparable b a, rfl⟩

theorem eq_unknown (h : Mirrored r r') (hr : r = .ok none) : r' = .ok none := by
  subst hr
  cases h
  rfl

theorem eq_ordered {o : Ordering} (h : Mirrored r r') (hr : r = .ok (some o)) :
    r' = .ok (some o.swap) := by
  subst hr
  cases h
  rfl

theorem order_swap (h : Mirrored r r') : r.toOption.join.map Ordering.swap = r'.toOption.join := by
  cases h <;> rfl

end Mirrored

theorem mirrored_compareRead (a b : Value) : Mirrored (compareRead a b) (compareRead b a) := by
  unfold compareRead
  rw [← compareKinds_swap a b]
  cases compareKinds a b with
  | none => exact .incomparable a b
  | some o => exact .ordered o

/-- One text is read as the same value from both sides, or not at all. -/
theorem mirrored_text {b : Value} (s : String) {t : DataType} (hb : b.datatype = some t) :
    Mirrored ((text s).compare b) (b.compare (text s)) := by
  rw [text_compare s hb, compare_text s hb]
  cases t.convert (text s) with
  | error e => exact .unreadable e
  | ok a => exact mirrored_compareRead a b

/-- Comparing two values gives the mirror image of comparing them the other way round. -/
theorem compare_mirrored (a b : Value) : Mirrored (a.compare b) (b.compare a) := by
  induction a, b using compare_cases with
  | nullFirst b =>
    rw [null_compare, compare_null]
    exact .unknown
  | nullSecond a =>
    rw [null_compare, compare_null]
    exact .unknown
  | textFirst s b type hb => exact mirrored_text s hb
  | textSecond s a type ha => exact (mirrored_text s ha).symm
  | plain a b hab hba =>
    rw [hab, hba]
    exact mirrored_compareRead a b

/-- Equality of values, whichever is asked. -/
theorem compare_eq_symm {a b : Value} (h : a.compare b = .ok (some .eq)) : b.compare a = .ok (some .eq) :=
  (compare_mirrored a b).eq_ordered h

end Value

end SqlStore
