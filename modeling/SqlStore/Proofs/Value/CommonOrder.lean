import SqlStore.Proofs.Value.Preorder
import SqlStore.Proofs.Value.Whole

/-!
# Which order two values have

The kinds of values have rules by which they are ordered, among themselves and beside each other: exact
numbers stand as the numbers they are, and beside a floating-point number as in double precision, points of
time as on one clock, intervals as they are long, and text as the value it is read as. `OrderedAs` gives
the rules, each for both sides alike and none before another. Comparison finds the order that they give,
whichever side it starts from, and fails from both sides or from none: `compare_antisymmetric`.
-/

namespace SqlStore

/-- The order of decimals is that of the numbers they stand for. -/
theorem Numeric.compareValue_eq (a b : Numeric) : a.compareValue b = Ord.compare a.toRat b.toRat := by
  have ha : (0 : ℚ) < (pow10 a.scale : Nat) := by exact_mod_cast pow10_pos a.scale
  have hb : (0 : ℚ) < (pow10 b.scale : Nat) := by exact_mod_cast pow10_pos b.scale
  -- both over one denominator
  let fraction (n : ℤ) : ℚ := n / ((pow10 a.scale : Nat) * (pow10 b.scale : Nat))
  have hmono : StrictMono fraction :=
    fun m n hlt => div_lt_div_of_pos_right (by exact_mod_cast hlt) (mul_pos ha hb)
  have hfirst : fraction (a.signed * pow10 b.scale) = a.toRat := by
    unfold fraction toRat
    push_cast
    rw [mul_div_mul_right _ _ hb.ne']
  have hsecond : fraction (b.signed * pow10 a.scale) = b.toRat := by
    unfold fraction toRat
    push_cast
    rw [mul_comm (b.signed : ℚ), mul_div_mul_left _ _ ha.ne']
  calc a.compareValue b = cmp (a.signed * pow10 b.scale) (b.signed * pow10 a.scale) :=
        (cmp_eq_compare _ _).symm
    _ = cmp (fraction (a.signed * pow10 b.scale)) (fraction (b.signed * pow10 a.scale)) :=
        (hmono.cmp_map_eq _ _).symm
    _ = Ord.compare a.toRat b.toRat := by rw [cmp_eq_compare, hfirst, hsecond]

namespace Value

variable {a b : Value} {o : Ordering}

/-! ## The rules -/

/-- The time on a calendar without a zone; a date stands for the midnight that it begins with. -/
def localTime? : Value → Option Timestamp
  | date d => some (.ofDate d)
  | timestamp t => some t
  | _ => none

/-- The time in UTC; a timestamp without a zone is taken to be one. -/
def universalTime? : Value → Option Timestamp
  | timestamp t => some t
  | timestampTz t => some t
  | _ => none

/-- The rules of comparison: by one of them the order of the first value against the second. -/
inductive OrderedAs : Value → Value → Ordering → Prop where
  | truth (a b : Bool) : OrderedAs (boolean a) (boolean b) (Ord.compare a b)
  | exact {a b : Value} {p q : ℚ} : a.isFloat = false → b.isFloat = false → a.rational? = some p →
      b.rational? = some q → OrderedAs a b (Ord.compare p q)
  | floating {a b : Value} : a.isNumber = true → b.isNumber = true → (a.isFloat || b.isFloat) = true →
      OrderedAs a b (a.toBinary64.totalCompare b.toBinary64)
  | texts (s r : String) : OrderedAs (text s) (text r) (Ord.compare s r)
  | localTimes {a b : Value} {t u : Timestamp} : a.localTime? = some t → b.localTime? = some u →
      OrderedAs a b (t.compareTimestamp u)
  | universalTimes {a b : Value} {t u : Timestamp} : a.universalTime? = some t →
      b.universalTime? = some u → OrderedAs a b (t.compareTimestamp u)
  | times (a b : Time) : OrderedAs (time a) (time b) (a.compareTime b)
  | lengths (i j : Interval) : OrderedAs (interval i) (interval j) (Ord.compare i.totalMicros j.totalMicros)
  | identifiers (u v : Uuid) : OrderedAs (uuid u) (uuid v) (u.compareUuid v)
  | bytes (as bs : List UInt8) : OrderedAs (bytea as) (bytea bs) (Bytes.compareBytes as bs)
  | equalDocuments {i j : Json} : i.same j = true → OrderedAs (json i) (json j) .eq
  | documents {i j : Json} : i.same j = false → OrderedAs (json i) (json j) (Ord.compare i.text j.text)
  | readFirst {s : String} {a b : Value} {type : DataType} {o : Ordering} : b.datatype = some type →
      type.convert (text s) = .ok a → OrderedAs a b o → OrderedAs (text s) b o
  | readSecond {s : String} {a b : Value} {type : DataType} {o : Ordering} : a.datatype = some type →
      type.convert (text s) = .ok b → OrderedAs a b o → OrderedAs a (text s) o

/-! ## Values as they are -/

theorem rational?_of_numeric? {x : Numeric} (h : a.numeric? = some x) : a.rational? = some x.toRat := by
  cases hn : a.int? with
  | none =>
    cases a <;> cases hn <;> cases h
    rfl
  | some n =>
    obtain ⟨x', hx', hint⟩ := exists_numeric? (isNumber_of_int? hn) (by cases a <;> cases hn <;> rfl)
    cases h.symm.trans hx'
    obtain ⟨hsigned, hscale⟩ := hint n hn
    have hrational : a.rational? = some (n : ℚ) := by
      cases a <;> cases hn <;> rfl
    have hunit : ((pow10 0 : Nat) : ℚ) = 1 := Nat.cast_one
    rw [hrational, Numeric.toRat, hsigned, hscale, hunit, div_one]

theorem isNumber_of_rational? {q : ℚ} (h : a.rational? = some q) : a.isNumber = true := by
  cases a <;> first
    | rfl
    | cases h

theorem compareKinds_of_rational? {p q : ℚ} (ha : a.isFloat = false) (hb : b.isFloat = false)
    (hp : a.rational? = some p) (hq : b.rational? = some q) :
    compareKinds a b = some (Ord.compare p q) := by
  obtain ⟨x, hx, -⟩ := exists_numeric? (isNumber_of_rational? hp) ha
  obtain ⟨y, hy, -⟩ := exists_numeric? (isNumber_of_rational? hq) hb
  cases hp.symm.trans (rational?_of_numeric? hx)
  cases hq.symm.trans (rational?_of_numeric? hy)
  rw [compareKinds_of_exact (isNumber_of_rational? hp) (isNumber_of_rational? hq) ha hb hx hy,
    Numeric.compareValue_eq]

theorem compareKinds_of_floating (ha : a.isNumber = true) (hb : b.isNumber = true)
    (h : (a.isFloat || b.isFloat) = true) :
    compareKinds a b = some (a.toBinary64.totalCompare b.toBinary64) := by
  have hnumbers : compareNumbers a b = a.toBinary64.totalCompare b.toBinary64 := if_pos h
  rw [compareKinds_of_isNumber ha hb, ← hnumbers]
  -- no floating-point number is an integer
  cases a <;> cases ha <;> cases b <;> cases hb <;> first
    | rfl
    | cases h

theorem compareKinds_of_localTime? {t u : Timestamp} (ht : a.localTime? = some t)
    (hu : b.localTime? = some u) : compareKinds a b = some (t.compareTimestamp u) := by
  cases a with
  | date d =>
    cases ht
    cases b with
    | date e =>
      cases hu
      exact congrArg some (compareTimestamp_ofDate d e).symm
    | timestamp => cases hu; rfl
    | _ => cases hu
  | timestamp =>
    cases ht
    cases b <;> cases hu <;> rfl
  | _ => cases ht

theorem compareKinds_of_universalTime? {t u : Timestamp} (ht : a.universalTime? = some t)
    (hu : b.universalTime? = some u) : compareKinds a b = some (t.compareTimestamp u) := by
  cases a <;> cases ht <;> cases b <;> cases hu <;> rfl

theorem compare_toNat (a b : Bool) : Ord.compare a.toNat b.toNat = Ord.compare a b := by
  cases a <;> cases b <;> rfl

theorem orderedAs_of_isNumber (ha : a.isNumber = true) (hb : b.isNumber = true)
    (h : compareKinds a b = some o) : a.OrderedAs b o := by
  cases hfloat : a.isFloat || b.isFloat with
  | true =>
    cases h.symm.trans (compareKinds_of_floating ha hb hfloat)
    exact .floating ha hb hfloat
  | false =>
    obtain ⟨hea, heb⟩ := Bool.or_eq_false_iff.mp hfloat
    obtain ⟨x, hx, -⟩ := exists_numeric? ha hea
    obtain ⟨y, hy, -⟩ := exists_numeric? hb heb
    have hp := rational?_of_numeric? hx
    have hq := rational?_of_numeric? hy
    cases h.symm.trans (compareKinds_of_rational? hea heb hp hq)
    exact .exact hea heb hp hq

/-- Values of kinds that have an order are ordered by a rule. -/
theorem orderedAs_of_compareKinds (h : compareKinds a b = some o) : a.OrderedAs b o := by
  have hnumbers (ha : a.isNumber = true) (hb : b.isNumber = true) := orderedAs_of_isNumber ha hb h
  unfold compareKinds at h
  -- one case for each line of the comparison
  split at h
  · next x y =>
    cases h
    rw [compare_toNat]
    exact .truth x y
  · cases h
    exact .texts _ _
  · next d e =>
    cases h
    rw [← compareTimestamp_ofDate]
    exact .localTimes rfl rfl
  · cases h
    exact .times _ _
  · cases h
    exact .localTimes rfl rfl
  · cases h
    exact .universalTimes rfl rfl
  · cases h
    exact .localTimes rfl rfl
  · cases h
    exact .localTimes rfl rfl
  · cases h
    exact .universalTimes rfl rfl
  · cases h
    exact .universalTimes rfl rfl
  · cases h
    exact .lengths _ _
  · cases h
    exact .identifiers _ _
  · cases h
    exact .bytes _ _
  · next i j =>
    cases h
    split
    · next hsame => exact .equalDocuments hsame
    · next hsame => exact .documents (Bool.not_eq_true _ ▸ hsame)
  · -- what is left are numbers
    split at h
    · next hm hn => exact hnumbers (isNumber_of_int? hm) (isNumber_of_int? hn)
    · split at h
      · next hboth => exact hnumbers (Bool.and_eq_true_iff.mp hboth).1 (Bool.and_eq_true_iff.mp hboth).2
      · cases h

/-! ## All values -/

theorem compareRead_eq_ordered : compareRead a b = .ok (some o) ↔ compareKinds a b = some o := by
  unfold compareRead
  cases compareKinds a b <;> simp

theorem compareRead_ne_unknown : compareRead a b ≠ .ok none := by
  unfold compareRead
  cases compareKinds a b <;> simp

theorem isText_of_compareKinds {s : String} (h : compareKinds (text s) b = some o) : b.isText = true := by
  cases b with
  | text => rfl
  | _ => cases h

/-- Values of kinds that have an order are not read first. -/
theorem compare_of_compareKinds (h : compareKinds a b = some o) : a.compare b = .ok (some o) := by
  induction a, b using compare_cases with
  | nullFirst b => cases b <;> cases h
  | nullSecond a => cases a <;> cases h
  | textFirst s b type hb =>
    obtain ⟨r, rfl⟩ := exists_text (isText_of_compareKinds h)
    exact compareRead_eq_ordered.mpr h
  | textSecond s a type ha =>
    have hback : compareKinds (text s) a = some o.swap := by
      rw [← compareKinds_swap, h]
      rfl
    obtain ⟨r, rfl⟩ := exists_text (isText_of_compareKinds hback)
    exact compareRead_eq_ordered.mpr h
  | plain a b hread => rw [hread, compareRead_eq_ordered, h]

/-- The value that text is read as has the type of the other side. -/
theorem datatype_of_convert {s : String} {type : DataType} (hb : b.datatype = some type)
    (hread : type.convert (text s) = .ok a) : a.datatype = some type := by
  have hformed := DataType.formed_convert (v := text s) nofun hread
  rw [DataType.datatype_of_formed hformed, DataType.kind_of_datatype hb]

/-- Comparison finds the order that the rules give. -/
theorem compare_of_orderedAs (h : a.OrderedAs b o) : a.compare b = .ok (some o) := by
  induction h with
  | truth a b => exact compare_of_compareKinds (congrArg some (compare_toNat a b))
  | exact ha hb hp hq => exact compare_of_compareKinds (compareKinds_of_rational? ha hb hp hq)
  | floating ha hb hfloat => exact compare_of_compareKinds (compareKinds_of_floating ha hb hfloat)
  | localTimes ht hu => exact compare_of_compareKinds (compareKinds_of_localTime? ht hu)
  | universalTimes ht hu => exact compare_of_compareKinds (compareKinds_of_universalTime? ht hu)
  | texts | times | lengths | identifiers | bytes => exact compare_of_compareKinds rfl
  | equalDocuments hsame => exact compare_of_compareKinds (congrArg some (if_pos hsame))
  | documents hdiffer => exact compare_of_compareKinds (congrArg some (if_neg (by simp [hdiffer])))
  | readFirst hb hread _ ih =>
    rw [text_compare _ hb, hread]
    exact (compare_of_datatype (datatype_of_convert hb hread) hb).symm.trans ih
  | readSecond ha hread _ ih =>
    rw [compare_text _ ha, hread]
    exact (compare_of_datatype ha (datatype_of_convert ha hread)).symm.trans ih

/-- An order that comparison finds is one by the rules. -/
theorem orderedAs_of_compare (h : a.compare b = .ok (some o)) : a.OrderedAs b o := by
  induction a, b using compare_cases with
  | nullFirst b =>
    rw [null_compare] at h
    cases h
  | nullSecond a =>
    rw [compare_null] at h
    cases h
  | textFirst s b type hb =>
    rw [text_compare s hb] at h
    obtain ⟨a, hread, h⟩ := Except.exists_of_bind_eq_ok h
    exact .readFirst hb hread (orderedAs_of_compareKinds (compareRead_eq_ordered.mp h))
  | textSecond s a type ha =>
    rw [compare_text s ha] at h
    obtain ⟨b, hread, h⟩ := Except.exists_of_bind_eq_ok h
    exact .readSecond ha hread (orderedAs_of_compareKinds (compareRead_eq_ordered.mp h))
  | plain a b hread =>
    rw [hread] at h
    exact orderedAs_of_compareKinds (compareRead_eq_ordered.mp h)

/-- Only beside NULL a comparison is unknown. -/
theorem eq_null_of_compare (h : a.compare b = .ok none) : a = null ∨ b = null := by
  induction a, b using compare_cases with
  | nullFirst b => exact .inl rfl
  | nullSecond a => exact .inr rfl
  | textFirst s b type hb =>
    rw [text_compare s hb] at h
    obtain ⟨a, -, h⟩ := Except.exists_of_bind_eq_ok h
    exact absurd h compareRead_ne_unknown
  | textSecond s a type ha =>
    rw [compare_text s ha] at h
    obtain ⟨b, -, h⟩ := Except.exists_of_bind_eq_ok h
    exact absurd h compareRead_ne_unknown
  | plain a b hread =>
    rw [hread] at h
    exact absurd h compareRead_ne_unknown

theorem compare_of_eq_null (h : a = null ∨ b = null) : a.compare b = .ok none := by
  rcases h with rfl | rfl
  · exact null_compare b
  · exact compare_null a

/-- Comparison is antisymmetric: from the other side it fails exactly if it fails, is unknown exactly if it
is, and finds the reverse of the order that it finds. It is unknown beside NULL only, and the order is that of
the rules. -/
theorem compare_antisymmetric (a b : Value) :
    ((∃ e, a.compare b = .error e) ↔ ∃ e, b.compare a = .error e) ∧
    (a.compare b = .ok none ↔ b.compare a = .ok none) ∧
    (∀ o, a.compare b = .ok (some o) ↔ b.compare a = .ok (some o.swap)) ∧
    (a.compare b = .ok none ↔ a = null ∨ b = null) ∧
    (∀ o, a.compare b = .ok (some o) ↔ a.OrderedAs b o) := by
  have h := compare_mirrored a b
  have hreverse (o : Ordering) : a.compare b = .ok (some o) ↔ b.compare a = .ok (some o.swap) := by
    refine ⟨h.eq_ordered, fun hback => ?_⟩
    rw [h.symm.eq_ordered hback, Ordering.swap_swap]
  exact ⟨⟨h.fails, h.symm.fails⟩, ⟨h.eq_unknown, h.symm.eq_unknown⟩, hreverse,
    ⟨eq_null_of_compare, compare_of_eq_null⟩, fun o => ⟨orderedAs_of_compare, compare_of_orderedAs⟩⟩

example : (text " 2 ").compare (smallInt 10) = .ok (some .lt) ∧
    (smallInt 10).compare (text " 2 ") = .ok (some .gt) := by decide +kernel

end Value

end SqlStore
