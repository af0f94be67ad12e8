import SqlStore.Proofs.Binary.Narrowing
import SqlStore.Proofs.Value.Symmetry

/-!
# The order of all values

Sorting, grouping and removing duplicates compare values of all kinds. Two values have a common order if their
kinds have one, after text was read as the kind of the other side, and stand in the order of kinds otherwise.
The order of any two values is the same from both sides. It is transitive where no two of the values clash:
then the kinds come one after the other, and within a kind values stand as their keys do. Numbers have two
keys, their exact value among exact numbers and their reading in double precision among narrow ones; dates
and timestamps share one.
-/

namespace SqlStore

open Std

/-! ## Orders of the parts of values -/

instance : TransCmp Binary64.totalCompare := inferInstanceAs (TransCmp (compareOn Binary64.rank))

instance : TransCmp Time.compareTime :=
  inferInstanceAs (TransCmp (compareLex (compareOn Time.second) (compareOn Time.nanos)))

instance : TransCmp fun a b : Timestamp => a.time.compareTime b.time where
  eq_swap := (Time.compareTime_swap _ _).symm
  isLE_trans {a b c} := @TransCmp.isLE_trans Time Time.compareTime _ a.time b.time c.time

instance : TransCmp Timestamp.compareTimestamp :=
  inferInstanceAs (TransCmp (compareLex (compareOn fun t : Timestamp => t.date.day)
    fun a b : Timestamp => a.time.compareTime b.time))

theorem Bytes.compareBytes_eq (as bs : List UInt8) :
    compareBytes as bs = List.compareLex (fun a b => compare a.toNat b.toNat) as bs := by
  induction as generalizing bs with
  | nil => cases bs <;> rfl
  | cons a as ih =>
    cases bs with
    | nil => rfl
    | cons b bs =>
      unfold compareBytes List.compareLex
      rw [ih]
      cases compare a.toNat b.toNat <;> rfl

instance : TransCmp Bytes.compareBytes := by
  have heq : Bytes.compareBytes = List.compareLex (compareOn UInt8.toNat) :=
    funext fun as => funext fun bs => Bytes.compareBytes_eq as bs
  rw [heq]
  infer_instance

theorem Numeric.compareValue_isLE {a b : Numeric} :
    (a.compareValue b).isLE ↔ a.signed * pow10 b.scale ≤ b.signed * pow10 a.scale := by
  rw [← Ordering.ne_gt_iff_isLE]
  exact compare_le_iff_le

instance : TransCmp Numeric.compareValue where
  eq_swap := (Numeric.compareValue_swap _ _).symm
  isLE_trans {a b c} hab hbc := by
    rw [Numeric.compareValue_isLE] at hab hbc ⊢
    have ha : (0 : Int) ≤ pow10 a.scale := Int.natCast_nonneg _
    have hb : (0 : Int) < pow10 b.scale := by exact_mod_cast pow10_pos b.scale
    have hc : (0 : Int) ≤ pow10 c.scale := Int.natCast_nonneg _
    refine le_of_mul_le_mul_right ?_ hb
    calc a.signed * pow10 c.scale * pow10 b.scale
        = a.signed * pow10 b.scale * pow10 c.scale := by ring
      _ ≤ b.signed * pow10 a.scale * pow10 c.scale := mul_le_mul_of_nonneg_right hab hc
      _ = b.signed * pow10 c.scale * pow10 a.scale := by ring
      _ ≤ c.signed * pow10 b.scale * pow10 a.scale := mul_le_mul_of_nonneg_right hbc ha
      _ = c.signed * pow10 a.scale * pow10 b.scale := by ring

namespace Value

/-! ## Comparison -/

/-- The common order of two values, if they have one. -/
def common (a b : Value) : Option Ordering := (a.compare b).toOption.join

theorem totalCompare_of_not_null {a b : Value} (ha : a.isNull = false) (hb : b.isNull = false) :
    a.totalCompare b = (a.common b).getD (Ord.compare a.kindRank b.kindRank) := by
  unfold totalCompare common
  rw [ha, hb]
  rcases a.compare b with e | _ | o <;> rfl

theorem toOption_compareRead (a b : Value) : (compareRead a b).toOption.join = compareKinds a b := by
  unfold compareRead
  cases compareKinds a b <;> rfl

/-- Values are compared as they are where none is text. -/
theorem common_of_not_text {a b : Value} (ha : a.isNull = false) (hb : b.isNull = false)
    (hta : a.isText = false) (htb : b.isText = false) : a.common b = compareKinds a b := by
  unfold common
  rw [compare_of_not_text ha hb hta htb, toOption_compareRead]

theorem common_swap (a b : Value) : (a.common b).map Ordering.swap = b.common a :=
  (compare_mirrored a b).order_swap

/-- The order of any two values is the reverse of the order of the two taken the other way round. -/
theorem totalCompare_swap (a b : Value) : (a.totalCompare b).swap = b.totalCompare a := by
  cases ha : a.isNull with
  | true =>
    unfold totalCompare
    rw [ha]
    cases b.isNull <;> rfl
  | false =>
    cases hb : b.isNull with
    | true =>
      unfold totalCompare
      rw [ha, hb]
      rfl
    | false =>
      rw [totalCompare_of_not_null ha hb, totalCompare_of_not_null hb ha, ← common_swap a b]
      cases a.common b with
      | none => exact compare_swap _ _
      | some o => rfl

/-! ## Kinds that clash -/

/-- Whether the order does not bring the two values together, because of their kinds or, of documents,
because of their texts: text beside anything else, floating-point numbers beside wide exact ones, dates
beside instants, and equal documents with different texts. -/
def clash : Value → Value → Bool
  | text _, b => !b.isText && !b.isNull
  | real _, bigInt _ | real _, numeric _ | double _, bigInt _ | double _, numeric _ => true
  | date _, timestampTz _ => true
  | json a, json b => a.same b && a.text != b.text
  | _, _ => false

/-- Neither of two values clashes with the other. -/
def Together (a b : Value) : Prop := a.clash b = false ∧ b.clash a = false

instance (a b : Value) : Decidable (a.Together b) := inferInstanceAs (Decidable (_ ∧ _))

theorem Together.symm {a b : Value} (h : a.Together b) : b.Together a := ⟨h.2, h.1⟩

theorem clash_null (a : Value) : a.clash null = false := by
  cases a <;> rfl

/-- Values of one type go together, unless they are documents. -/
theorem together_of_datatype {a b : Value} {type : DataType} (ha : a.datatype = some type)
    (hb : b.datatype = some type) (htype : type ≠ .jsonb) : a.Together b := by
  cases a <;> cases ha <;> cases b <;> cases hb <;> first
    | exact ⟨rfl, rfl⟩
    | exact absurd rfl htype

/-! ## Values of different kinds -/

/-- The order is transitive on values that stand as their keys do. -/
theorem isLE_trans_of_key {κ : Type} (cmp : κ → κ → Ordering) [TransCmp cmp] {a b c : Value}
    {x y z : κ} (hxy : a.totalCompare b = cmp x y) (hyz : b.totalCompare c = cmp y z)
    (hxz : a.totalCompare c = cmp x z) (hab : (a.totalCompare b).isLE) (hbc : (b.totalCompare c).isLE) :
    (a.totalCompare c).isLE := by
  rw [hxy] at hab
  rw [hyz] at hbc
  rw [hxz]
  exact TransCmp.isLE_trans hab hbc

theorem kindRank_of_isNumber {a : Value} (h : a.isNumber = true) : a.kindRank = 1 := by
  cases a <;> first
    | rfl
    | cases h

theorem isNumber_of_int? {a : Value} {n : Int} (h : a.int? = some n) : a.isNumber = true := by
  cases a <;> first
    | rfl
    | cases h

/-- Values with a common order have the same place among the kinds. -/
theorem kindRank_eq_of_compareKinds {a b : Value} {o : Ordering} (h : compareKinds a b = some o) :
    a.kindRank = b.kindRank := by
  unfold compareKinds at h
  split at h <;> try rfl
  -- what is left are numbers
  have hnumbers : a.isNumber = true ∧ b.isNumber = true := by
    split at h
    · next hm hn => exact ⟨isNumber_of_int? hm, isNumber_of_int? hn⟩
    · split at h
      · next hboth => exact Bool.and_eq_true_iff.mp hboth
      · cases h
  rw [kindRank_of_isNumber hnumbers.1, kindRank_of_isNumber hnumbers.2]

theorem kindRank_of_isText {a : Value} (h : a.isText = true) : a.kindRank = 2 := by
  obtain ⟨s, rfl⟩ := exists_text h
  rfl

/-- Text goes together with text only. -/
theorem Together.isText_eq {a b : Value} (h : a.Together b) (ha : a.isNull = false)
    (hb : b.isNull = false) : a.isText = b.isText := by
  cases hta : a.isText with
  | true =>
    obtain ⟨s, rfl⟩ := exists_text hta
    cases htb : b.isText with
    | true => rfl
    | false =>
      have hclash : (text s).clash b = (!b.isText && !b.isNull) := rfl
      rw [h.1, htb, hb] at hclash
      cases hclash
  | false =>
    cases htb : b.isText with
    | true =>
      obtain ⟨s, rfl⟩ := exists_text htb
      have hclash : (text s).clash a = (!a.isText && !a.isNull) := rfl
      rw [h.2, hta, ha] at hclash
      cases hclash
    | false => rfl

/-- Values of different kinds that go together are in the order of kinds. -/
theorem totalCompare_of_rank_ne {a b : Value} (h : a.Together b) (ha : a.isNull = false)
    (hb : b.isNull = false) (hrank : a.kindRank ≠ b.kindRank) :
    a.totalCompare b = Ord.compare a.kindRank b.kindRank := by
  have htext := h.isText_eq ha hb
  have hta : a.isText = false := by
    by_contra hta
    rw [Bool.not_eq_false] at hta
    rw [hta] at htext
    exact hrank ((kindRank_of_isText hta).trans (kindRank_of_isText htext.symm).symm)
  have hnone : compareKinds a b = none := by
    by_contra hne
    obtain ⟨o, ho⟩ := Option.ne_none_iff_exists'.mp hne
    exact hrank (kindRank_eq_of_compareKinds ho)
  rw [totalCompare_of_not_null ha hb, common_of_not_text ha hb hta (htext ▸ hta), hnone]
  rfl

/-! ## Points of time -/

/-- The point of time of a date or timestamp. -/
def instant? : Value → Option Timestamp
  | date d => some (.ofDate d)
  | timestamp t | timestampTz t => some t
  | _ => none

theorem exists_instant {a : Value} (h : a.kindRank = 3) : ∃ t, a.instant? = some t := by
  cases a <;> first
    | exact ⟨_, rfl⟩
    | cases h

/-- A date is the midnight that it begins with. -/
theorem compareTimestamp_ofDate (d e : Date) :
    (Timestamp.ofDate d).compareTimestamp (Timestamp.ofDate e) = Ord.compare d.day e.day :=
  Ordering.then_eq

theorem totalCompare_of_instant {a b : Value} (h : a.Together b) {x y : Timestamp}
    (hx : a.instant? = some x) (hy : b.instant? = some y) :
    a.totalCompare b = x.compareTimestamp y := by
  cases a <;> cases b <;> cases hx <;> cases hy
  case date.date d e => exact (compareTimestamp_ofDate d e).symm
  case date.timestampTz => cases h.1
  case timestampTz.date => cases h.2
  all_goals rfl

/-! ## Numbers -/

theorem compareKinds_of_isNumber {a b : Value} (ha : a.isNumber = true) (hb : b.isNumber = true) :
    compareKinds a b = some (match a.int?, b.int? with
      | some m, some n => Ord.compare m n
      | _, _ => compareNumbers a b) := by
  cases a <;> cases ha <;> cases b <;> cases hb <;> rfl

theorem isNull_of_isNumber {a : Value} (h : a.isNumber = true) : a.isNull = false := by
  cases a <;> first
    | rfl
    | cases h

theorem isText_of_isNumber {a : Value} (h : a.isNumber = true) : a.isText = false := by
  cases a <;> first
    | rfl
    | cases h

theorem totalCompare_of_isNumber {a b : Value} (ha : a.isNumber = true) (hb : b.isNumber = true) :
    a.totalCompare b = match a.int?, b.int? with
      | some m, some n => Ord.compare m n
      | _, _ => compareNumbers a b := by
  rw [totalCompare_of_not_null (isNull_of_isNumber ha) (isNull_of_isNumber hb),
    common_of_not_text (isNull_of_isNumber ha) (isNull_of_isNumber hb) (isText_of_isNumber ha)
      (isText_of_isNumber hb), compareKinds_of_isNumber ha hb]
  rfl

theorem natAbs_le_of_int? {a : Value} {n : Int} (h : a.int? = some n) : n.natAbs ≤ 2 ^ 63 := by
  cases a with
  | smallInt n | integer n | bigInt n =>
    cases h
    have hlow := n.le_toInt
    have hhigh := n.toInt_lt
    omega
  | _ => cases h

/-- An exact number is an integer or a decimal. -/
theorem exists_numeric? {a : Value} (h : a.isNumber = true) (hexact : a.isFloat = false) :
    ∃ x, a.numeric? = some x ∧ ∀ n, a.int? = some n → x.signed = n ∧ x.scale = 0 := by
  cases hn : a.int? with
  | none =>
    cases a <;> cases h <;> cases hexact <;> cases hn
    exact ⟨_, rfl, fun n hn => nomatch hn⟩
  | some n =>
    have hfits : n.natAbs < Numeric.mantissaBound :=
      (natAbs_le_of_int? hn).trans_lt (by decide)
    have hnumeric : a.numeric? = some ⟨decide (n < 0), n.natAbs, 0, hfits⟩ := by
      cases a <;> cases hn <;> exact dif_pos hfits
    refine ⟨_, hnumeric, fun m hm => ?_⟩
    cases hm
    refine ⟨?_, rfl⟩
    unfold Numeric.signed
    dsimp only
    by_cases hneg : n < 0
    · rw [if_pos (decide_eq_true hneg)]
      omega
    · rw [if_neg (by simpa using hneg)]
      omega

/-- Exact numbers are compared by value. -/
theorem compareKinds_of_exact {a b : Value} (ha : a.isNumber = true) (hb : b.isNumber = true)
    (hea : a.isFloat = false) (heb : b.isFloat = false) {x y : Numeric} (hx : a.numeric? = some x)
    (hy : b.numeric? = some y) : compareKinds a b = some (x.compareValue y) := by
  rw [compareKinds_of_isNumber ha hb]
  have hnumbers : compareNumbers a b = x.compareValue y := by
    unfold compareNumbers
    rw [hea, heb, hx, hy]
    rfl
  cases hm : a.int? with
  | none => exact congrArg some hnumbers
  | some m =>
    cases hn : b.int? with
    | none => exact congrArg some hnumbers
    | some n =>
      obtain ⟨x', hx', hxint⟩ := exists_numeric? ha hea
      obtain ⟨y', hy', hyint⟩ := exists_numeric? hb heb
      cases hx.symm.trans hx'
      cases hy.symm.trans hy'
      obtain ⟨hxm, hxs⟩ := hxint m hm
      obtain ⟨hyn, hys⟩ := hyint n hn
      unfold Numeric.compareValue
      rw [hxm, hyn, hxs, hys]
      exact congrArg some (congrArg₂ Ord.compare (mul_one m).symm (mul_one n).symm)

theorem totalCompare_of_exact {a b : Value} (ha : a.isNumber = true) (hb : b.isNumber = true)
    (hea : a.isFloat = false) (heb : b.isFloat = false) {x y : Numeric} (hx : a.numeric? = some x)
    (hy : b.numeric? = some y) : a.totalCompare b = x.compareValue y := by
  rw [totalCompare_of_not_null (isNull_of_isNumber ha) (isNull_of_isNumber hb),
    common_of_not_text (isNull_of_isNumber ha) (isNull_of_isNumber hb) (isText_of_isNumber ha)
      (isText_of_isNumber hb), compareKinds_of_exact ha hb hea heb hx hy]
  rfl

/-- The numbers that double precision has exactly: floating-point numbers and integers of at most 32
bits. -/
def isNarrow : Value → Bool
  | smallInt _ | integer _ | real _ | double _ => true
  | _ => false

theorem isNumber_of_isNarrow {a : Value} (h : a.isNarrow = true) : a.isNumber = true := by
  cases a <;> first
    | rfl
    | cases h

theorem isFloat_of_isNarrow {a : Value} (h : a.isNarrow = true) (hint : a.int? = none) :
    a.isFloat = true := by
  cases a with
  | real | double => rfl
  | smallInt | integer => cases hint
  | _ => cases h

theorem natAbs_lt_of_isNarrow {a : Value} {n : Int} (h : a.isNarrow = true) (hint : a.int? = some n) :
    n.natAbs < 2 ^ 53 := by
  cases a with
  | smallInt n | integer n =>
    cases hint
    have hlow := n.le_toInt
    have hhigh := n.toInt_lt
    omega
  | bigInt => cases h
  | _ => cases hint

theorem toBinary64_of_int? {a : Value} {n : Int} (h : a.int? = some n) :
    a.toBinary64 = Binary64.ofInt n := by
  cases a <;> cases h <;> rfl

/-- Narrow numbers stand among each other as their readings in double precision do. -/
theorem totalCompare_of_narrow {a b : Value} (ha : a.isNarrow = true) (hb : b.isNarrow = true) :
    a.totalCompare b = a.toBinary64.totalCompare b.toBinary64 := by
  rw [totalCompare_of_isNumber (isNumber_of_isNarrow ha) (isNumber_of_isNarrow hb)]
  have hnumbers (h : (a.isFloat || b.isFloat) = true) :
      compareNumbers a b = a.toBinary64.totalCompare b.toBinary64 := if_pos h
  cases hm : a.int? with
  | none => exact hnumbers (Bool.or_eq_true_iff.mpr (.inl (isFloat_of_isNarrow ha hm)))
  | some m =>
    cases hn : b.int? with
    | none => exact hnumbers (Bool.or_eq_true_iff.mpr (.inr (isFloat_of_isNarrow hb hn)))
    | some n =>
      rw [toBinary64_of_int? hm, toBinary64_of_int? hn]
      exact (Binary64.totalCompare_ofInt (natAbs_lt_of_isNarrow ha hm)
        (natAbs_lt_of_isNarrow hb hn)).symm

/-- Beside a floating-point number numbers are narrow. -/
theorem Together.isNarrow {a b : Value} (h : a.Together b) (ha : a.isFloat = true)
    (hb : b.isNumber = true) : b.isNarrow = true := by
  cases a <;> cases ha <;> cases b <;> cases hb <;> first
    | rfl
    | cases h.1

theorem totalCompare_trans_of_isNumber {a b c : Value} (hTab : a.Together b) (hTbc : b.Together c)
    (hTac : a.Together c) (ha : a.isNumber = true) (hb : b.isNumber = true) (hc : c.isNumber = true)
    (hab : (a.totalCompare b).isLE) (hbc : (b.totalCompare c).isLE) : (a.totalCompare c).isLE := by
  -- one floating-point number makes all three narrow, itself included
  have hnarrow {f x y : Value} (hf : f.isFloat = true) (hx : f.Together x) (hy : f.Together y)
      (hnx : x.isNumber = true) (hny : y.isNumber = true) :
      f.isNarrow = true ∧ x.isNarrow = true ∧ y.isNarrow = true := by
    refine ⟨?_, hx.isNarrow hf hnx, hy.isNarrow hf hny⟩
    cases f <;> cases hf <;> rfl
  have hfloats (h : a.isNarrow = true ∧ b.isNarrow = true ∧ c.isNarrow = true) :
      (a.totalCompare c).isLE := by
    obtain ⟨hna, hnb, hnc⟩ := h
    exact isLE_trans_of_key Binary64.totalCompare (totalCompare_of_narrow hna hnb)
      (totalCompare_of_narrow hnb hnc) (totalCompare_of_narrow hna hnc) hab hbc
  cases hfa : a.isFloat with
  | true => exact hfloats (hnarrow hfa hTab hTac hb hc)
  | false =>
    cases hfb : b.isFloat with
    | true =>
      obtain ⟨hnb, hna, hnc⟩ := hnarrow hfb hTab.symm hTbc ha hc
      exact hfloats ⟨hna, hnb, hnc⟩
    | false =>
      cases hfc : c.isFloat with
      | true =>
        obtain ⟨hnc, hna, hnb⟩ := hnarrow hfc hTac.symm hTbc.symm ha hb
        exact hfloats ⟨hna, hnb, hnc⟩
      | false =>
        obtain ⟨x, hx, -⟩ := exists_numeric? ha hfa
        obtain ⟨y, hy, -⟩ := exists_numeric? hb hfb
        obtain ⟨z, hz, -⟩ := exists_numeric? hc hfc
        exact isLE_trans_of_key Numeric.compareValue (totalCompare_of_exact ha hb hfa hfb hx hy)
          (totalCompare_of_exact hb hc hfb hfc hy hz) (totalCompare_of_exact ha hc hfa hfc hx hz) hab hbc

/-! ## Values of one kind -/

theorem totalCompare_json {i j : Json} (h : (json i).Together (json j)) :
    (json i).totalCompare (json j) = Ord.compare i.text j.text := by
  have hplain : (json i).totalCompare (json j) =
      if i.same j then .eq else Ord.compare i.text j.text := rfl
  rw [hplain]
  split
  · next hsame =>
    have hclash : (json i).clash (json j) = (i.same j && i.text != j.text) := rfl
    rw [h.1, hsame, Bool.true_and] at hclash
    have htext : i.text = j.text := bne_eq_false_iff_eq.mp hclash.symm
    exact (Std.compare_eq_iff_eq.mpr htext).symm
  · rfl

theorem isNumber_of_kindRank {a : Value} (h : a.kindRank = 1) : a.isNumber = true := by
  cases a <;> first
    | rfl
    | cases h

theorem totalCompare_trans_of_rank_eq {a b c : Value} (hTab : a.Together b) (hTbc : b.Together c)
    (hTac : a.Together c) (hrab : a.kindRank = b.kindRank) (hrbc : b.kindRank = c.kindRank)
    (hab : (a.totalCompare b).isLE) (hbc : (b.totalCompare c).isLE) : (a.totalCompare c).isLE := by
  by_cases hnumber : a.kindRank = 1
  · exact totalCompare_trans_of_isNumber hTab hTbc hTac (isNumber_of_kindRank hnumber)
      (isNumber_of_kindRank (hrab ▸ hnumber)) (isNumber_of_kindRank (hrbc ▸ hrab ▸ hnumber)) hab hbc
  by_cases hinstant : a.kindRank = 3
  · obtain ⟨x, hx⟩ := exists_instant hinstant
    obtain ⟨y, hy⟩ := exists_instant (hrab ▸ hinstant)
    obtain ⟨z, hz⟩ := exists_instant (hrbc ▸ hrab ▸ hinstant)
    exact isLE_trans_of_key Timestamp.compareTimestamp (totalCompare_of_instant hTab hx hy)
      (totalCompare_of_instant hTbc hy hz) (totalCompare_of_instant hTac hx hz) hab hbc
  -- each other place has one kind
  cases a <;> first
    | exact absurd rfl hnumber
    | exact absurd rfl hinstant
    | skip
  all_goals cases b <;> cases hrab
  all_goals cases c <;> cases hrbc
  · rfl
  · exact isLE_trans_of_key (compareOn Bool.toNat) rfl rfl rfl hab hbc
  · exact isLE_trans_of_key (compareOn id) rfl rfl rfl hab hbc
  · exact isLE_trans_of_key Time.compareTime rfl rfl rfl hab hbc
  · exact isLE_trans_of_key (compareOn Interval.totalMicros) rfl rfl rfl hab hbc
  · exact isLE_trans_of_key (compareOn fun u : Uuid => u.bits.toNat) rfl rfl rfl hab hbc
  · exact isLE_trans_of_key (compareOn Json.text) (totalCompare_json hTab) (totalCompare_json hTbc)
      (totalCompare_json hTac) hab hbc
  · exact isLE_trans_of_key Bytes.compareBytes rfl rfl rfl hab hbc

/-! ## All values -/

/-- Whatever goes together is in the order of kinds. -/
theorem kindRank_le_of_isLE {a b : Value} (h : a.Together b) (ha : a.isNull = false)
    (hb : b.isNull = false) (hle : (a.totalCompare b).isLE) : a.kindRank ≤ b.kindRank := by
  by_contra hgt
  rw [totalCompare_of_rank_ne h ha hb (fun heq => hgt heq.le),
    compare_gt_iff_gt.mpr (Nat.lt_of_not_le hgt)] at hle
  cases hle

/-- Nothing but NULL is above NULL. -/
theorem isNull_of_isLE {a b : Value} (ha : a.isNull = true) (hle : (a.totalCompare b).isLE) :
    b.isNull = true := by
  by_contra hb
  rw [Bool.not_eq_true] at hb
  unfold totalCompare at hle
  rw [ha, hb] at hle
  cases hle

theorem isLE_of_isNull (a : Value) {b : Value} (hb : b.isNull = true) : (a.totalCompare b).isLE := by
  unfold totalCompare
  rw [hb]
  cases a.isNull <;> rfl

/-- The order is transitive on values that go together. -/
theorem totalCompare_trans {a b c : Value} (hTab : a.Together b) (hTbc : b.Together c)
    (hTac : a.Together c) (hab : (a.totalCompare b).isLE) (hbc : (b.totalCompare c).isLE) :
    (a.totalCompare c).isLE := by
  cases hc : c.isNull with
  | true => exact isLE_of_isNull a hc
  | false =>
    have hb : b.isNull = false := by
      by_contra hb
      rw [isNull_of_isLE (Bool.not_eq_false _ ▸ hb) hbc] at hc
      cases hc
    have ha : a.isNull = false := by
      by_contra ha
      rw [isNull_of_isLE (Bool.not_eq_false _ ▸ ha) hab] at hb
      cases hb
    have hrab := kindRank_le_of_isLE hTab ha hb hab
    have hrbc := kindRank_le_of_isLE hTbc hb hc hbc
    rcases (hrab.trans hrbc).lt_or_eq with hlt | heq
    · rw [totalCompare_of_rank_ne hTac ha hc hlt.ne, compare_lt_iff_lt.mpr hlt]
      rfl
    · exact totalCompare_trans_of_rank_eq hTab hTbc hTac (by omega) (by omega) hab hbc

end Value

end SqlStore
