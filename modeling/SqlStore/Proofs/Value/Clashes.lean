import SqlStore.Proofs.Session.Sample
import SqlStore.Proofs.Value.Kind
import SqlStore.Proofs.Value.Preorder

/-!
# Where the order of values breaks

The order of all values is total in both directions, and transitive on values and rows that go together.
Each of the clashes breaks it: of the kinds of two values that clash, three values can be found that go
round in a circle.
-/

namespace SqlStore

/-! ## Intervals as text

Whether a word is a clock is not found out by computation, since the search in a string is not a recursion
on its characters. -/

theorem Interval.parse_day : parse "1 day" = .ok ⟨0, 1, 0⟩ := by
  have hwords : Text.words "1 day" = ["1", "day"] := by decide +kernel
  unfold parse
  rw [hwords]
  dsimp only
  unfold readWords
  rw [String.contains_char_eq]
  decide +kernel

theorem Interval.parse_tilde : parse "~" = .error .malformed := by
  have hwords : Text.words "~" = ["~"] := by decide +kernel
  unfold parse
  rw [hwords]
  dsimp only
  unfold readWords
  rw [String.contains_char_eq]
  decide +kernel

namespace Value

/-- Text beside an interval is read as one, and stands in front where it cannot be. -/
theorem totalCompare_interval (s : String) (i : Interval) :
    (text s).totalCompare (interval i) = match Interval.parse s with
      | .ok j => Ord.compare j.totalMicros i.totalMicros
      | .error _ => .lt := by
  unfold totalCompare
  rw [text_compare s (b := interval i) rfl]
  unfold DataType.convert
  dsimp only [isNull]
  cases Interval.parse s with
  | ok j => rfl
  | error fault => cases fault <;> rfl

/-! ## Rows -/

theorem totalCompare_eq_of_isLE {a b : Value} (hab : (a.totalCompare b).isLE)
    (hba : (b.totalCompare a).isLE) : a.totalCompare b = .eq := by
  rw [← totalCompare_swap] at hba
  revert hab hba
  cases a.totalCompare b <;> decide

/-- What stands between two equal values is equal to both. -/
theorem totalCompare_eq_of_between {a b c : Value} (hTab : a.Together b) (hTbc : b.Together c)
    (hTac : a.Together c) (hab : (a.totalCompare b).isLE) (hbc : (b.totalCompare c).isLE)
    (hac : a.totalCompare c = .eq) : a.totalCompare b = .eq ∧ b.totalCompare c = .eq := by
  have hca : (c.totalCompare a).isLE := by
    rw [← totalCompare_swap, hac]
    rfl
  exact ⟨totalCompare_eq_of_isLE hab (totalCompare_trans hTbc hTac.symm hTab.symm hbc hca),
    totalCompare_eq_of_isLE hbc (totalCompare_trans hTac.symm hTab hTbc.symm hca hab)⟩

/-- The rows go together in each column that both have. -/
def TogetherTuples (as bs : Tuple) : Prop := ∀ p ∈ as.zip bs, p.1.Together p.2

theorem togetherTuples_cons {a b : Value} {as bs : Tuple} :
    TogetherTuples (a :: as) (b :: bs) ↔ a.Together b ∧ TogetherTuples as bs :=
  List.forall_mem_cons

theorem compareTuples_swap (as bs : Tuple) : (compareTuples as bs).swap = compareTuples bs as := by
  induction as generalizing bs with
  | nil => cases bs <;> rfl
  | cons a as ih =>
    cases bs with
    | nil => rfl
    | cons b bs =>
      unfold compareTuples
      rw [Ordering.swap_then, totalCompare_swap, ih]

/-- The order of rows is transitive on rows that go together. -/
theorem compareTuples_trans {as bs cs : Tuple} (hTab : TogetherTuples as bs)
    (hTbc : TogetherTuples bs cs) (hTac : TogetherTuples as cs) (hab : (compareTuples as bs).isLE)
    (hbc : (compareTuples bs cs).isLE) : (compareTuples as cs).isLE := by
  induction as generalizing bs cs with
  | nil => cases cs <;> rfl
  | cons a as ih =>
    cases bs with
    | nil => cases hab
    | cons b bs =>
      cases cs with
      | nil => cases hbc
      | cons c cs =>
        obtain ⟨hTab, hTabs⟩ := togetherTuples_cons.mp hTab
        obtain ⟨hTbc, hTbcs⟩ := togetherTuples_cons.mp hTbc
        obtain ⟨hTac, hTacs⟩ := togetherTuples_cons.mp hTac
        unfold compareTuples at hab hbc ⊢
        have hheadab := Ordering.isLE_left_of_isLE_then hab
        have hheadbc := Ordering.isLE_left_of_isLE_then hbc
        have hheadac := totalCompare_trans hTab hTbc hTac hheadab hheadbc
        cases hcompare : a.totalCompare c with
        | lt => rfl
        | gt =>
          rw [hcompare] at hheadac
          cases hheadac
        | eq =>
          obtain ⟨heqab, heqbc⟩ := totalCompare_eq_of_between hTab hTbc hTac hheadab hheadbc hcompare
          rw [heqab] at hab
          rw [heqbc] at hbc
          exact ih hTabs hTbcs hTacs hab hbc

/-! ## Circles -/

/-- The order does not lead from the first value to the third, though from each to the next. -/
def Breaks (x y z : Value) : Prop :=
  (x.totalCompare y).isLE ∧ (y.totalCompare z).isLE ∧ ¬ (x.totalCompare z).isLE

instance (x y z : Value) : Decidable (Breaks x y z) := inferInstanceAs (Decidable (_ ∧ _ ∧ _))

/-- The order breaks among values of two types. -/
def BreaksAmong (t u : Option DataType) : Prop :=
  ∃ x y z : Value, Breaks x y z ∧ ∀ v ∈ [x, y, z], v.datatype = t ∨ v.datatype = u

/-- An integer that double precision has, while it does not have the next one. -/
def wide : Int64 := 2 ^ 53

/-- The integer in double precision. -/
def wideDouble : Binary64 := .ofInt wide.toInt

/-- The integer as a decimal, or the next one. -/
def wideNumeric (next : Bool) : Value :=
  numeric ⟨false, 2 ^ 53 + next.toNat, 0, by cases next <;> decide⟩

/-- The array of one floating-point number. -/
def arrayOf (x : Binary64) : Value := json (.array [.number (.float x)])

theorem breaksAmong_text {s : String} {b : Value} (h : (text s).clash b = true) :
    BreaksAmong (some .text) b.datatype := by
  cases b with
  | null => cases h
  | text => cases h
  -- the empty text has no reading and stands behind truth values and numbers, but is the first of the texts
  | boolean =>
    show BreaksAmong (some .text) (some .boolean)
    exact ⟨text "true", boolean true, text "", by decide +kernel, by decide⟩
  | smallInt =>
    show BreaksAmong (some .text) (some .smallInt)
    exact ⟨text "1", smallInt 1, text "", by decide +kernel, by decide⟩
  | integer =>
    show BreaksAmong (some .text) (some .integer)
    exact ⟨text "1", integer 1, text "", by decide +kernel, by decide⟩
  | bigInt =>
    show BreaksAmong (some .text) (some .bigInt)
    exact ⟨text "1", bigInt 1, text "", by decide +kernel, by decide⟩
  | numeric =>
    show BreaksAmong (some .text) (some (.numeric none none))
    exact ⟨text "0", numeric .zero, text "", by decide +kernel, by decide⟩
  | real =>
    show BreaksAmong (some .text) (some .real)
    exact ⟨text "0", real Binary64.zero.narrow, text "", by decide +kernel, by decide⟩
  | double =>
    show BreaksAmong (some .text) (some .double)
    exact ⟨text "0", double .zero, text "", by decide +kernel, by decide⟩
  -- a tilde has no reading and stands before the other kinds, but behind all texts that have one
  | date =>
    show BreaksAmong (some .text) (some .date)
    exact ⟨text "~", date .epoch, text "1970-01-01", by decide +kernel, by decide⟩
  | timestamp =>
    show BreaksAmong (some .text) (some .timestamp)
    exact ⟨text "~", timestamp (.ofDate .epoch), text "1970-01-01", by decide +kernel, by decide⟩
  | timestampTz =>
    show BreaksAmong (some .text) (some .timestampTz)
    exact ⟨text "~", timestampTz (.ofDate .epoch), text "1970-01-01", by decide +kernel, by decide⟩
  | time =>
    show BreaksAmong (some .text) (some .time)
    exact ⟨text "~", time .midnight, text "00:00:00", by decide +kernel, by decide⟩
  | interval =>
    show BreaksAmong (some .text) (some .interval)
    refine ⟨text "~", interval ⟨0, 1, 0⟩, text "1 day", ?_, by decide⟩
    unfold Breaks
    rw [← totalCompare_swap (text "1 day"), totalCompare_interval, totalCompare_interval,
      Interval.parse_tilde, Interval.parse_day]
    decide +kernel
  | uuid =>
    show BreaksAmong (some .text) (some .uuid)
    exact ⟨text "~", uuid ⟨0⟩, text "00000000-0000-0000-0000-000000000000",
      by decide +kernel, by decide⟩
  | json =>
    show BreaksAmong (some .text) (some .jsonb)
    exact ⟨text "~", json .null, text "null", by decide +kernel, by decide⟩
  -- every text has a reading as bytes; these two have the same one
  | bytea =>
    show BreaksAmong (some .text) (some .bytea)
    exact ⟨text "a", bytea [97], text "\\x61", by decide +kernel, by decide⟩

/-- The two zeros are equal, and the text of `[-1.0]` stands between theirs. -/
theorem breaksAmong_documents : BreaksAmong (some .jsonb) (some .jsonb) :=
  ⟨arrayOf .zero, arrayOf Binary64.zero.neg, arrayOf (.ofInt (-1)), by decide +kernel, by decide⟩

/-- Of the types of two values that clash, three values break the order. -/
theorem breaksAmong_of_clash {a b : Value} (h : a.clash b = true) :
    BreaksAmong a.datatype b.datatype := by
  cases a with
  | text => exact breaksAmong_text h
  | real =>
    cases b with
    | bigInt =>
      show BreaksAmong (some .real) (some .bigInt)
      exact ⟨bigInt (wide + 1), real wideDouble.narrow, bigInt wide, by decide +kernel, by decide⟩
    | numeric =>
      show BreaksAmong (some .real) (some (.numeric none none))
      exact ⟨wideNumeric true, real wideDouble.narrow, wideNumeric false, by decide +kernel, by decide⟩
    | _ => cases h
  | double =>
    cases b with
    | bigInt =>
      show BreaksAmong (some .double) (some .bigInt)
      exact ⟨bigInt (wide + 1), double wideDouble, bigInt wide, by decide +kernel, by decide⟩
    | numeric =>
      show BreaksAmong (some .double) (some (.numeric none none))
      exact ⟨wideNumeric true, double wideDouble, wideNumeric false, by decide +kernel, by decide⟩
    | _ => cases h
  | date =>
    cases b with
    | timestampTz =>
      -- dates and instants count as equal, whatever they are
      show BreaksAmong (some .date) (some .timestampTz)
      exact ⟨date ⟨1, by decide, by decide⟩, timestampTz (.ofDate .epoch), date .epoch,
        by decide +kernel, by decide⟩
    | _ => cases h
  | json =>
    cases b with
    | json => exact breaksAmong_documents
    | _ => cases h
  | _ => cases h

/-! ## Types on which the order is transitive -/

/-- The order is transitive on the values of the types, and NULL. -/
def TransitiveAmong (types : List DataType) : Prop :=
  ∀ x y z : Value, x.Among types → y.Among types → z.Among types →
    (x.totalCompare y).isLE → (y.totalCompare z).isLE → (x.totalCompare z).isLE

theorem not_transitiveAmong {types : List DataType} {a b : Value} (ha : a.Among types) (hb : b.Among types)
    (h : BreaksAmong a.datatype b.datatype) : ¬ TransitiveAmong types := by
  obtain ⟨x, y, z, ⟨hxy, hyz, hxz⟩, hkinds⟩ := h
  have hamong : ∀ v ∈ [x, y, z], v.Among types := by
    intro v hv t ht
    rcases hkinds v hv with heq | heq
    · exact ha t (heq ▸ ht)
    · exact hb t (heq ▸ ht)
  exact fun htrans => hxz (htrans x y z (hamong x (by simp)) (hamong y (by simp)) (hamong z (by simp))
    hxy hyz)

/-- The order is transitive on some types exactly if none of their values clash. -/
theorem transitiveAmong_iff (types : List DataType) : TransitiveAmong types ↔
    ∀ a b : Value, a.Among types → b.Among types → a.clash b = false := by
  constructor
  · intro htrans a b ha hb
    by_contra hclash
    rw [Bool.not_eq_false] at hclash
    exact not_transitiveAmong ha hb (breaksAmong_of_clash hclash) htrans
  · intro hclash x y z hx hy hz
    exact totalCompare_trans ⟨hclash x y hx hy, hclash y x hy hx⟩ ⟨hclash y z hy hz, hclash z y hz hy⟩
      ⟨hclash x z hx hz, hclash z x hz hx⟩

/-- In a column of one type the order is transitive, unless the type is that of documents. -/
theorem transitiveAmong_singleton (type : DataType) : TransitiveAmong [type] ↔ type ≠ .jsonb := by
  constructor
  · rintro htrans rfl
    have hzero : (arrayOf .zero).Among [.jsonb] := among_of_datatype rfl (List.mem_singleton_self _)
    exact not_transitiveAmong hzero hzero breaksAmong_documents htrans
  · intro htype
    rw [transitiveAmong_iff]
    intro a b ha hb
    cases hta : a.datatype with
    | none =>
      rw [eq_null_of_datatype hta]
      rfl
    | some t =>
      cases htb : b.datatype with
      | none =>
        rw [eq_null_of_datatype htb]
        exact clash_null a
      | some u =>
        cases List.mem_singleton.mp (ha t hta)
        cases List.mem_singleton.mp (hb u htb)
        exact (together_of_datatype hta htb htype).1

/-- The order of all values, and of rows, is the same from both sides. It is transitive on values and rows
that go together, and on all values of some types exactly if none of these clash. -/
theorem totalCompare_preorder (a b c : Value) (as bs cs : Tuple) (types : List DataType) :
    (a.totalCompare b).swap = b.totalCompare a ∧
    (a.Together b → b.Together c → a.Together c →
      (a.totalCompare b).isLE → (b.totalCompare c).isLE → (a.totalCompare c).isLE) ∧
    (compareTuples as bs).swap = compareTuples bs as ∧
    (TogetherTuples as bs → TogetherTuples bs cs → TogetherTuples as cs →
      (compareTuples as bs).isLE → (compareTuples bs cs).isLE → (compareTuples as cs).isLE) ∧
    (TransitiveAmong types ↔ ∀ x y : Value, x.Among types → y.Among types → x.clash y = false) :=
  ⟨totalCompare_swap a b, totalCompare_trans, compareTuples_swap as bs, compareTuples_trans,
    transitiveAmong_iff types⟩

end Value

namespace Sample

open Value

/-- A row with an integer and a text. -/
def lowRow : Tuple := [integer 1, text "b"]

/-- A row with the same number in double precision and no text. -/
def midRow : Tuple := [double (.ofInt 1), null]

/-- A row with a greater number. -/
def highRow : Tuple := [smallInt 2, text "a"]

/-- Rows of mixed numbers, with and without text, are in order, and so are the values in them. Dates go with
timestamps, but not with instants. -/
theorem rows_in_order :
    ((integer 1).Together (double (.ofInt 1)) ∧ (double (.ofInt 1)).Together null ∧
      (integer 1).Together null ∧ ((integer 1).totalCompare (double (.ofInt 1))).isLE ∧
      ((double (.ofInt 1)).totalCompare null).isLE ∧ ((integer 1).totalCompare null).isLE) ∧
    (TogetherTuples lowRow midRow ∧ TogetherTuples midRow highRow ∧ TogetherTuples lowRow highRow ∧
      (compareTuples lowRow midRow).isLE ∧ (compareTuples midRow highRow).isLE ∧
      (compareTuples lowRow highRow).isLE) ∧
    TransitiveAmong [.date, .timestamp] ∧ ¬ TransitiveAmong [.date, .timestampTz] := by
  obtain ⟨-, hvalues, -, hrows, hdates⟩ :=
    totalCompare_preorder (integer 1) (double (.ofInt 1)) null lowRow midRow highRow [.date, .timestamp]
  obtain ⟨-, -, -, -, hinstants⟩ :=
    totalCompare_preorder null null null [] [] [] [.date, .timestampTz]
  obtain ⟨hlow, hhigh, hboth⟩ : TogetherTuples lowRow midRow ∧ TogetherTuples midRow highRow ∧
      TogetherTuples lowRow highRow := by
    unfold TogetherTuples
    decide +kernel
  have hlowle : (compareTuples lowRow midRow).isLE := by decide +kernel
  have hhighle : (compareTuples midRow highRow).isLE := by decide +kernel
  have hnumbers : (integer 1).Together (double (.ofInt 1)) := by decide +kernel
  have hnull : (double (.ofInt 1)).Together null ∧ (integer 1).Together null := by decide +kernel
  have hle : ((integer 1).totalCompare (double (.ofInt 1))).isLE := by decide +kernel
  have hnullle : ((double (.ofInt 1)).totalCompare null).isLE := by decide +kernel
  refine ⟨⟨hnumbers, hnull.1, hnull.2, hle, hnullle, hvalues hnumbers hnull.1 hnull.2 hle hnullle⟩,
    ⟨hlow, hhigh, hboth, hlowle, hhighle, hrows hlow hhigh hboth hlowle hhighle⟩, hdates.mpr ?_, ?_⟩
  · intro x y hx hy
    cases x <;> first
      | exact absurd (hx _ rfl) (by decide)
      | rfl
      | skip
    cases y <;> first
      | exact absurd (hy _ rfl) (by decide)
      | rfl
  · intro htrans
    have hclash := hinstants.mp htrans (date .epoch) (timestampTz midnight)
      (among_of_datatype rfl (by decide)) (among_of_datatype rfl (by decide))
    cases hclash

/-- The documents `[0.0]`, `[-0.0]` and `[-1.0]` are not in order. -/
theorem documents_out_of_order : ¬ ∀ a b c : Value, (a.totalCompare b).isLE → (b.totalCompare c).isLE →
    (a.totalCompare c).isLE := by
  intro h
  have hle := h (arrayOf .zero) (arrayOf Binary64.zero.neg) (arrayOf (.ofInt (-1))) (by decide +kernel)
    (by decide +kernel)
  have hnot : ¬ ((arrayOf .zero).totalCompare (arrayOf (.ofInt (-1)))).isLE := by decide +kernel
  exact hnot hle

end Sample

end SqlStore
