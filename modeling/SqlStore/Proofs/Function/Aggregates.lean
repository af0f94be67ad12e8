import Mathlib.Data.List.Dedup
import SqlStore.Function.Aggregate
import SqlStore.Proofs.Function.Rounding
import SqlStore.Proofs.Query.Duplicates
import SqlStore.Proofs.Value.Integers
import SqlStore.Proofs.Value.Symmetry

/-!
# Exact aggregates

MIN and MAX go through values and keep the best one so far. Where the order of all values is a total preorder and
comparing does not fail, what is kept at the end is one of the values and none of them is beyond it. SUM adds one
value after the other, in a word for integers of up to 32 bits and in decimals for wider ones. As long as there
are fewer than 2^31 values no total on the way leaves its range, so what comes out is the exact sum. So none of
these depends on the order in which the values come.
-/

namespace SqlStore

/-! ## Least and greatest values -/

namespace Value

/-- Values of one type can be compared, and the order of all values is their comparison. -/
theorem compare_eq_totalCompare {a b : Value} {type : DataType} (ha : a.datatype = some type)
    (hb : b.datatype = some type) : a.compare b = .ok (some (a.totalCompare b)) := by
  cases a <;> cases ha <;> cases b <;> cases hb <;> rfl

end Value

namespace AggregateFunction

variable {S : Value → Prop} {wanted : Ordering} {values : List Value}

/-- The value is one of those given, and none of them is beyond it. -/
structure Extreme (wanted : Ordering) (values : List Value) (best : Value) : Prop where
  mem : best ∈ values
  none_beyond : ∀ w ∈ values, w.totalCompare best ≠ wanted

/-- What is beyond something that is beyond a value is beyond the value. -/
theorem beyond_trans (ho : PreordersOn Value.totalCompare S) (hwanted : wanted = .lt ∨ wanted = .gt)
    {a b c : Value} (ha : S a) (hb : S b) (hc : S c) (hab : a.totalCompare b = wanted)
    (hbc : b.totalCompare c = wanted) : a.totalCompare c = wanted := by
  rcases hwanted with rfl | rfl
  · exact ho.lt_of_lt_of_le ha hb hc hab (by rw [hbc]; rfl)
  · have hca := ho.lt_of_lt_of_le hc hb ha (ho.lt_of_gt hb hc hbc) (by rw [ho.lt_of_gt ha hb hab]; rfl)
    rw [← ho.swap hc ha, hca]
    rfl

theorem not_beyond_self (ho : PreordersOn Value.totalCompare S) (hwanted : wanted = .lt ∨ wanted = .gt)
    {a : Value} (ha : S a) : a.totalCompare a ≠ wanted := by
  rw [ho.self ha]
  rcases hwanted with rfl | rfl <;> decide

/-- One more value, which is kept if it is beyond the best one so far. -/
theorem Extreme.snoc (ho : PreordersOn Value.totalCompare S) (hwanted : wanted = .lt ∨ wanted = .gt)
    {seen : List Value} {best w : Value} (h : Extreme wanted seen best) (hseen : ∀ v ∈ seen, S v) (hw : S w) :
    Extreme wanted (seen ++ [w]) (if w.totalCompare best = wanted then w else best) := by
  split
  · next hbeyond =>
    refine ⟨List.mem_append_right _ List.mem_cons_self, List.forall_mem_append.mpr
      ⟨fun x hx hx' => h.none_beyond x hx ?_, List.forall_mem_singleton.mpr (not_beyond_self ho hwanted hw)⟩⟩
    exact beyond_trans ho hwanted (hseen x hx) hw (hseen best h.mem) hx' hbeyond
  · next hnot =>
    exact ⟨List.mem_append_left _ h.mem, List.forall_mem_append.mpr
      ⟨h.none_beyond, List.forall_mem_singleton.mpr hnot⟩⟩

/-- The run over the values behind those that were seen. -/
theorem extreme_foldlM (ho : PreordersOn Value.totalCompare S) (hwanted : wanted = .lt ∨ wanted = .gt)
    (hcompare : ∀ a b, S a → S b → a.compare b = .ok (some (a.totalCompare b))) (ws seen : List Value)
    (best : Value) (hws : ∀ w ∈ ws, S w) (hseen : ∀ v ∈ seen, S v) (hbest : Extreme wanted seen best) :
    ∃ last, ws.foldlM (fun best w => do
        return if (← w.compare best) == some wanted then w else best) best = Except.ok last ∧
      Extreme wanted (seen ++ ws) last := by
  -- along the values the best one is an extreme of those that were seen
  induction ws generalizing seen best with
  | nil =>
    rw [List.append_nil]
    exact ⟨best, rfl, hbest⟩
  | cons w ws ih =>
    obtain ⟨hw, hws⟩ := List.forall_mem_cons.mp hws
    have hseen' : ∀ v ∈ seen ++ [w], S v :=
      List.forall_mem_append.mpr ⟨hseen, List.forall_mem_singleton.mpr hw⟩
    obtain ⟨last, hrun, hlast⟩ := ih _ _ hws hseen' (hbest.snoc ho hwanted hseen hw)
    rw [List.append_assoc] at hlast
    refine ⟨last, ?_, hlast⟩
    rw [List.foldlM_cons, hcompare w best hw (hseen best hbest.mem), ← hrun]
    simp only [bind, Except.bind, pure, Except.pure, beq_iff_eq, Option.some.injEq]

/-- The extreme of values is one of them, and none of them is beyond it. -/
theorem extreme_extremeOf (ho : PreordersOn Value.totalCompare S) (hwanted : wanted = .lt ∨ wanted = .gt)
    (hcompare : ∀ a b, S a → S b → a.compare b = .ok (some (a.totalCompare b))) (hne : values ≠ [])
    (hvalues : ∀ v ∈ values, S v) :
    ∃ best, extremeOf wanted values = .ok best ∧ Extreme wanted values best := by
  obtain ⟨v, vs, rfl⟩ := List.exists_cons_of_ne_nil hne
  obtain ⟨hv, hvs⟩ := List.forall_mem_cons.mp hvalues
  exact extreme_foldlM ho hwanted hcompare vs [v] v hvs (List.forall_mem_singleton.mpr hv)
    ⟨List.mem_cons_self, List.forall_mem_singleton.mpr (not_beyond_self ho hwanted hv)⟩

/-- Two extremes of the same values are equal in their order. -/
theorem Extreme.unique (ho : PreordersOn Value.totalCompare S) (hwanted : wanted = .lt ∨ wanted = .gt)
    {others : List Value} {best best' : Value} (h : Extreme wanted values best)
    (h' : Extreme wanted others best') (hvalues : ∀ v ∈ values, S v)
    (hsame : ∀ v, v ∈ values ↔ v ∈ others) : best'.totalCompare best = .eq := by
  have hb := hvalues best h.mem
  have hb' := hvalues best' ((hsame best').mpr h'.mem)
  -- neither of the two is beyond the other
  have hle := h.none_beyond best' ((hsame best').mpr h'.mem)
  have hge := h'.none_beyond best ((hsame best).mp h.mem)
  rw [← ho.swap hb' hb] at hge
  revert hle hge
  rcases hwanted with rfl | rfl <;> cases best'.totalCompare best <;> decide

end AggregateFunction

/-! ## Decimals of integers -/

namespace Numeric

variable {m n : Int} {d e : Numeric}

theorem ofInt?_eq (h : n.natAbs < mantissaBound) :
    ofInt? n = some ⟨decide (n < 0), n.natAbs, 0, h⟩ := dif_pos h

theorem exists_ofInt? (h : n.natAbs < mantissaBound) : ∃ d, ofInt? n = some d := ⟨_, ofInt?_eq h⟩

theorem of_ofInt? (h : ofInt? n = some d) :
    d.mantissa = n.natAbs ∧ d.negative = decide (n < 0) ∧ d.scale = 0 := by
  unfold ofInt? ofParts? at h
  split at h
  · cases h
    exact ⟨rfl, rfl, rfl⟩
  · cases h

theorem signed_of_ofInt? (h : ofInt? n = some d) : d.signed = n := by
  obtain ⟨hmantissa, hnegative, -⟩ := of_ofInt? h
  unfold signed
  rw [hmantissa, hnegative]
  by_cases hn : n < 0
  · rw [if_pos (decide_eq_true hn)]
    omega
  · rw [if_neg (by simpa using hn)]
    omega

theorem isZero_of_ofInt? (h : ofInt? n = some d) : d.isZero = true ↔ n = 0 := by
  unfold isZero
  rw [(of_ofInt? h).1, beq_iff_eq, Int.natAbs_eq_zero]

/-- Decimals of integers are added as integers. -/
theorem add?_of_ofInt? (hd : ofInt? m = some d) (he : ofInt? n = some e) : d.add? e = ofInt? (m + n) := by
  unfold add?
  split
  · next hzero =>
    rw [(isZero_of_ofInt? hd).mp hzero, Int.zero_add, he]
  · split
    · next hzero =>
      rw [(isZero_of_ofInt? he).mp hzero, Int.add_zero, hd]
    · have hsum : d.signed * pow10 (max d.scale e.scale - d.scale) +
          e.signed * pow10 (max d.scale e.scale - e.scale) = m + n := by
        rw [signed_of_ofInt? hd, signed_of_ofInt? he, (of_ofInt? hd).2.2, (of_ofInt? he).2.2]
        simp [pow10]
      dsimp only
      rw [hsum, (of_ofInt? hd).2.2, (of_ofInt? he).2.2, max_self]
      by_cases hzero : m + n = 0
      · rw [hzero]
        rfl
      · rw [if_neg (by simpa using hzero), fit?_whole, ofMagnitude?]
        have hne : ((m + n).natAbs != 0) = true := by simpa using hzero
        rw [hne, Bool.and_true]
        rfl

end Numeric

namespace AggregateFunction

open Value

variable {values : List Value} {type : DataType}

/-! ## Totals -/

/-- The integers among values. -/
def integers (values : List Value) : List Int := values.filterMap Value.int?

/-- A total stands for the exact sum as long as no sum of so many integers leaves its range. -/
theorem total_stands {α : Type} {read : Value → Option α} {add : α → α → Except Error α} {R : Int → α → Prop}
    {bound limit : Nat} (hread : ∀ {v n}, v.int? = some n → ∃ a, read v = some a ∧ R n a)
    (hadd : ∀ {m n a b}, R m a → R n b → (m + n).natAbs ≤ limit → ∃ c, add a b = .ok c ∧ R (m + n) c)
    (hvalues : ∀ v ∈ values, ∃ n, v.int? = some n ∧ n.natAbs ≤ bound) {m : Int} {start : α}
    (hstart : R m start) (hlimit : m.natAbs + values.length * bound ≤ limit) :
    ∃ a, total read add start values = .ok a ∧ R (m + (integers values).sum) a := by
  unfold total integers
  induction values generalizing m start with
  | nil => exact ⟨start, rfl, by simpa using hstart⟩
  | cons v values ih =>
    obtain ⟨⟨n, hn, hbound⟩, hvalues⟩ := List.forall_mem_cons.mp hvalues
    obtain ⟨a, ha, hRa⟩ := hread hn
    rw [List.length_cons, Nat.succ_mul] at hlimit
    obtain ⟨c, hc, hRc⟩ := hadd hstart hRa (by omega)
    obtain ⟨last, hlast, hR⟩ := ih hvalues hRc (by omega)
    rw [List.filterMap_cons_some hn, List.sum_cons, ← Int.add_assoc]
    refine ⟨last, ?_, hR⟩
    rw [List.foldlM_cons, ha, ← hlast]
    show (add start a >>= _) = _
    rw [hc]
    rfl

/-- An integer is one of the integers of its type. -/
theorem exists_isInteger {v : Value} {n : Int} (h : v.int? = some n) : ∃ t, v.IsInteger t n := by
  cases v <;> cases h
  · exact ⟨_, .smallInt _⟩
  · exact ⟨_, .integer _⟩
  · exact ⟨_, .bigInt _⟩

theorem exists_numeric?_ofInt? {v : Value} {n : Int} (h : v.int? = some n) :
    ∃ d, v.numeric? = some d ∧ Numeric.ofInt? n = some d := by
  obtain ⟨d, hd⟩ := Numeric.exists_ofInt? (n := n) ((natAbs_le_of_int? h).trans_lt (by decide))
  have hnumeric : v.numeric? = v.int?.bind Numeric.ofInt? := by
    cases v <;> cases h <;> rfl
  exact ⟨d, by rw [hnumeric, h, Option.bind_some, hd], hd⟩

/-- An integer that is not too large is a word of 64 bits. -/
theorem exists_int64? {n : Int} (h : DataType.bigInt.holds n = true) :
    ∃ w : Int64, int64? n = some w ∧ w.toInt = n := by
  have hw : int64? n = some (Int64.ofInt n) := by rw [int64?_eq, if_pos h]
  exact ⟨_, hw, toInt_of_int64? hw⟩

/-- Fewer than 2^31 integers of up to 32 bits add up to a word of 64 bits. -/
theorem integerSum_eq (hvalues : ∀ v ∈ values, ∃ n, v.int? = some n ∧ n.natAbs ≤ 2 ^ 31)
    (hlength : values.length < 2 ^ 31) :
    ∃ w : Int64, integerSum values = .ok w.toInt ∧ w.toInt = (integers values).sum := by
  let add : Int → Int → Except Error Int := fun a b =>
    DataType.orFail (outOfRange .bigInt) ((int64? (a + b)).map (·.toInt))
  -- what a total stands for is itself, as a word
  let R : Int → Int → Prop := fun n a => ∃ w : Int64, w.toInt = n ∧ a = w.toInt
  have hread : ∀ {v : Value} {n : Int}, v.int? = some n → ∃ a, v.int? = some a ∧ R n a := by
    intro v n hn
    obtain ⟨t, ht⟩ := exists_isInteger hn
    obtain ⟨w, -, hw⟩ := exists_int64? (DataType.holds_bigInt_of_holds ht.holds)
    exact ⟨n, hn, w, hw, hw.symm⟩
  have hadd : ∀ {m n a b : Int}, R m a → R n b → (m + n).natAbs ≤ 2 ^ 63 - 1 →
      ∃ c, add a b = .ok c ∧ R (m + n) c := by
    rintro _ _ _ _ ⟨v, rfl, rfl⟩ ⟨w, rfl, rfl⟩ hle
    obtain ⟨u, hu, heq⟩ := exists_int64? (n := v.toInt + w.toInt) (DataType.holds_bigInt.mpr (by omega))
    refine ⟨u.toInt, ?_, u, heq, rfl⟩
    show DataType.orFail _ ((int64? (v.toInt + w.toInt)).map (·.toInt)) = _
    rw [hu]
    rfl
  obtain ⟨_, ha, w, hsum, rfl⟩ := total_stands hread hadd hvalues (m := 0) ⟨0, rfl, rfl⟩ (by omega)
  rw [Int.zero_add] at hsum
  exact ⟨w, ha, hsum⟩

/-- Fewer than 2^31 integers of any width add up to a decimal. -/
theorem decimalSum_eq (hvalues : ∀ v ∈ values, ∃ n, v.int? = some n) (hlength : values.length < 2 ^ 31) :
    ∃ d, decimalSum values = .ok d ∧ Numeric.ofInt? (integers values).sum = some d := by
  let add : Numeric → Numeric → Except Error Numeric := fun a b => DataType.orFail numericOverflow (a.add? b)
  have hadd : ∀ {m n : Int} {d e : Numeric}, Numeric.ofInt? m = some d → Numeric.ofInt? n = some e →
      (m + n).natAbs ≤ Numeric.mantissaBound - 1 → ∃ c, add d e = .ok c ∧ Numeric.ofInt? (m + n) = some c := by
    intro m n d e hd he hle
    obtain ⟨c, hc⟩ := Numeric.exists_ofInt? (n := m + n) (by unfold Numeric.mantissaBound at *; omega)
    refine ⟨c, ?_, hc⟩
    show DataType.orFail _ (d.add? e) = _
    rw [Numeric.add?_of_ofInt? hd he, hc]
    rfl
  have hbound : ∀ v ∈ values, ∃ n, v.int? = some n ∧ n.natAbs ≤ 2 ^ 63 := by
    intro v hv
    obtain ⟨n, hn⟩ := hvalues v hv
    exact ⟨n, hn, natAbs_le_of_int? hn⟩
  have hlimit : (0 : Int).natAbs + values.length * 2 ^ 63 ≤ Numeric.mantissaBound - 1 := by
    unfold Numeric.mantissaBound
    omega
  have hzero : Numeric.ofInt? 0 = some Numeric.zero := rfl
  obtain ⟨d, hd, hsum⟩ := total_stands exists_numeric?_ofInt? hadd hbound hzero hlimit
  rw [Int.zero_add] at hsum
  exact ⟨d, hd, hsum⟩

/-! ## The value of a sum -/

/-- The value that an exact sum of integers of some types is: a word of 64 bits for the narrower types, a
decimal for the widest. -/
inductive IsSum : List DataType → Int → Value → Prop where
  | word (w : Int64) : IsSum [.smallInt, .integer] w.toInt (.bigInt w)
  | decimal {n : Int} {d : Numeric} (h : Numeric.ofInt? n = some d) : IsSum [.bigInt] n (.numeric d)

/-- The types whose integers are added together. -/
def summed : List (List DataType) := [[.smallInt, .integer], [.bigInt]]

variable {kinds : List DataType}

theorem exists_int?_of_summed (hkinds : kinds ∈ summed) {v : Value} {t : DataType}
    (hv : v.datatype = some t) (ht : t ∈ kinds) : ∃ n, v.int? = some n := by
  simp only [summed, List.mem_cons, List.not_mem_nil, or_false] at hkinds
  rcases hkinds with rfl | rfl
  · simp only [List.mem_cons, List.not_mem_nil, or_false] at ht
    rcases ht with rfl | rfl <;> cases v <;> cases hv <;> exact ⟨_, rfl⟩
  · cases List.mem_singleton.mp ht
    cases v <;> cases hv
    exact ⟨_, rfl⟩

theorem natAbs_le_of_narrow {v : Value} {t : DataType} {n : Int} (hv : v.datatype = some t)
    (ht : t ∈ [DataType.smallInt, .integer]) (hn : v.int? = some n) : n.natAbs ≤ 2 ^ 31 := by
  cases v with
  | smallInt w | integer w =>
    cases hn
    have hlow := w.le_toInt
    have hhigh := w.toInt_lt
    omega
  | bigInt w =>
    cases hv
    exact absurd ht (by decide)
  | _ => cases hn

theorem sumOf_of_narrow (hne : values ≠ []) (hvalues : ∀ v ∈ values, ∃ t ∈ [DataType.smallInt, .integer],
    v.datatype = some t) : sumOf values = (integerSum values).map fun n => .bigInt (Int64.ofInt n) := by
  obtain ⟨v, vs, rfl⟩ := List.exists_cons_of_ne_nil hne
  obtain ⟨t, ht, hv⟩ := hvalues v List.mem_cons_self
  simp only [List.mem_cons, List.not_mem_nil, or_false] at ht
  rcases ht with rfl | rfl <;> cases v <;> cases hv <;> rfl

theorem sumOf_of_bigInt (hne : values ≠ []) (hvalues : ∀ v ∈ values, v.datatype = some .bigInt) :
    sumOf values = (decimalSum values).map .numeric := by
  obtain ⟨v, vs, rfl⟩ := List.exists_cons_of_ne_nil hne
  have hv := hvalues v List.mem_cons_self
  cases v <;> cases hv
  rfl

/-- The sum of integers, none of which is missing. -/
theorem sumOf_exact (hkinds : kinds ∈ summed) (hne : values ≠ []) (hlength : values.length < 2 ^ 31)
    (hvalues : ∀ v ∈ values, ∃ t ∈ kinds, v.datatype = some t) :
    ∃ total, sumOf values = .ok total ∧ IsSum kinds (integers values).sum total := by
  have hints : ∀ v ∈ values, ∃ n, v.int? = some n := by
    intro v hv
    obtain ⟨t, ht, hvt⟩ := hvalues v hv
    exact exists_int?_of_summed hkinds hvt ht
  simp only [summed, List.mem_cons, List.not_mem_nil, or_false] at hkinds
  rcases hkinds with rfl | rfl
  · have hbound : ∀ v ∈ values, ∃ n, v.int? = some n ∧ n.natAbs ≤ 2 ^ 31 := by
      intro v hv
      obtain ⟨t, ht, hvt⟩ := hvalues v hv
      obtain ⟨n, hn⟩ := hints v hv
      exact ⟨n, hn, natAbs_le_of_narrow hvt ht hn⟩
    obtain ⟨w, hrun, hw⟩ := integerSum_eq hbound hlength
    refine ⟨.bigInt w, ?_, hw ▸ .word w⟩
    rw [sumOf_of_narrow hne hvalues, hrun]
    show Except.ok (Value.bigInt (Int64.ofInt w.toInt)) = _
    rw [Int64.ofInt_toInt]
  · obtain ⟨d, hrun, hd⟩ := decimalSum_eq hints hlength
    refine ⟨.numeric d, ?_, .decimal hd⟩
    rw [sumOf_of_bigInt hne fun v hv => ?_, hrun]
    · rfl
    · obtain ⟨t, ht, hvt⟩ := hvalues v hv
      rwa [List.mem_singleton.mp ht] at hvt

/-! ## Distinct integers -/

theorem totalCompare_of_int? {a b : Value} {m n : Int} (ha : a.int? = some m) (hb : b.int? = some n) :
    a.totalCompare b = Ord.compare m n := by
  rw [totalCompare_of_isNumber (isNumber_of_int? ha) (isNumber_of_int? hb), ha, hb]

theorem preordersOn_int : PreordersOn totalCompare fun v => ∃ n, v.int? = some n where
  swap := fun _ _ => totalCompare_swap _ _
  trans := by
    rintro a b c ⟨l, ha⟩ ⟨m, hb⟩ ⟨n, hc⟩ hab hbc
    rw [totalCompare_of_int? ha hb] at hab
    rw [totalCompare_of_int? hb hc] at hbc
    rw [totalCompare_of_int? ha hc]
    exact Std.TransCmp.isLE_trans hab hbc

/-- Representatives of integers are as many integers as there are different ones. -/
theorem integers_representatives {reps : List Value} (hvalues : ∀ v ∈ values, ∃ n, v.int? = some n)
    (h : Representatives totalCompare values reps) : (integers reps).Perm (integers values).dedup := by
  have hreps : ∀ r ∈ reps, ∃ n, r.int? = some n := fun r hr => hvalues r (h.mem r hr)
  have hnodup : (integers reps).Nodup := by
    refine List.pairwise_filterMap.mpr (h.apart.imp fun {a b} hne m hm n hn heq => hne ?_)
    rw [totalCompare_of_int? hm hn, heq]
    exact Std.ReflCmp.compare_self
  -- neither list has repeats, so it is enough that both have the same members
  refine (List.perm_ext_iff_of_nodup hnodup (List.nodup_dedup _)).mpr fun n => ?_
  rw [List.mem_dedup]
  constructor
  · intro hn
    obtain ⟨r, hr, hrn⟩ := List.mem_filterMap.mp hn
    exact List.mem_filterMap.mpr ⟨r, h.mem r hr, hrn⟩
  · intro hn
    obtain ⟨v, hv, hvn⟩ := List.mem_filterMap.mp hn
    obtain ⟨r, hr, heq⟩ := h.covers v hv
    obtain ⟨m, hm⟩ := hreps r hr
    rw [totalCompare_of_int? hm hvn] at heq
    exact List.mem_filterMap.mpr ⟨r, hr, Std.LawfulEqCmp.eq_of_compare heq ▸ hm⟩

/-! ## What is reduced -/

/-- The values that are reduced. -/
def reduced (distinct : Bool) (values : List Value) : List Value :=
  if distinct then dropRepeats totalCompare (Value.sort (present values)) else present values

theorem integers_present (values : List Value) : integers (present values) = integers values := by
  unfold integers present
  rw [List.filterMap_filter]
  exact List.filterMap_congr fun v _ => by cases v <;> rfl

theorem reduce_sum (distinct : Bool) : reduce .sum distinct values = sumOf (reduced distinct values) := rfl

/-- Distinct integers are as many as given or fewer, and their sum is that of the different ones. -/
theorem reduced_integers (distinct : Bool) (hvalues : ∀ v ∈ present values, ∃ n, v.int? = some n) :
    (∀ v ∈ reduced distinct values, v ∈ present values) ∧
      (reduced distinct values).length ≤ (present values).length ∧
      (reduced distinct values = [] → present values = []) ∧
      (integers (reduced distinct values)).Perm
        (if distinct then (integers values).dedup else integers values) := by
  cases distinct with
  | false =>
    refine ⟨fun _ hv => hv, le_rfl, id, ?_⟩
    rw [if_neg (by decide), ← integers_present values]
    exact .refl _
  | true =>
    have hreps : Representatives totalCompare (present values) (reduced true values) :=
      representatives_sorted preordersOn_int hvalues
    refine ⟨hreps.mem, ?_, fun hnil => ?_, ?_⟩
    · exact length_le_of_apart preordersOn_int (fun v hv => hvalues v (hreps.mem v hv)) hvalues hreps.apart
        fun v hv => ⟨v, hreps.mem v hv, preordersOn_int.self (hvalues v (hreps.mem v hv))⟩
    · refine List.eq_nil_iff_forall_not_mem.mpr fun v hv => ?_
      obtain ⟨r, hr, -⟩ := hreps.covers v hv
      rw [hnil] at hr
      cases hr
    · rw [if_pos rfl, ← integers_present values]
      exact integers_representatives hvalues hreps

/-! ## Results -/

/-- A value that is not NULL has a type, and it is one of the types that are allowed. -/
theorem exists_datatype_of_present {v : Value} (h : ∀ v ∈ values, v.Among kinds) (hv : v ∈ present values) :
    ∃ t ∈ kinds, v.datatype = some t := by
  obtain ⟨hv, hnull⟩ := List.mem_filter.mp hv
  cases ht : v.datatype with
  | none =>
    rw [eq_null_of_datatype ht] at hnull
    cases hnull
  | some t => exact ⟨t, h v hv t ht, rfl⟩

theorem reduce_sum_exact (hkinds : kinds ∈ summed) (h : ∀ v ∈ values, v.Among kinds)
    (hlength : (present values).length < 2 ^ 31) (hne : present values ≠ []) (distinct : Bool) :
    ∃ total, reduce .sum distinct values = .ok total ∧
      IsSum kinds (if distinct then (integers values).dedup else integers values).sum total := by
  have hints : ∀ v ∈ present values, ∃ n, v.int? = some n := by
    intro v hv
    obtain ⟨t, ht, hvt⟩ := exists_datatype_of_present h hv
    exact exists_int?_of_summed hkinds hvt ht
  obtain ⟨hmem, hshort, hnil, hsum⟩ := reduced_integers distinct hints
  rw [← hsum.sum_eq, reduce_sum]
  exact sumOf_exact hkinds (fun hreduced => hne (hnil hreduced)) (by omega)
    fun v hv => exists_datatype_of_present h (hmem v hv)

theorem present_perm {others : List Value} (hperm : others.Perm values) :
    (present others).Perm (present values) := hperm.filter _

/-- An exact sum is one value. -/
theorem IsSum.unique {n : Int} {v w : Value} (h : IsSum kinds n v) (h' : IsSum kinds n w) : v = w := by
  cases h with
  | word a =>
    generalize ha : a.toInt = n at h'
    cases h' with
    | word b => rw [Int64.toInt_inj.mp ha]
  | decimal hd =>
    cases h' with
    | decimal he => rw [Option.some.inj (hd.symm.trans he)]

/-! ## Whatever the order of the values -/

/-- The functions that keep an extreme value, and what compares as they want is beyond the best one so far. -/
def extremes : List (AggregateFunction × Ordering) := [(min, .lt), (max, .gt)]

theorem reduce_extreme (values : List Value) {f : AggregateFunction} {wanted : Ordering} (hf : (f, wanted) ∈ extremes) :
    (wanted = .lt ∨ wanted = .gt) ∧ reduce f false values = extremeOf wanted (present values) := by
  simp only [extremes, List.mem_cons, List.not_mem_nil, or_false] at hf
  rcases hf with hf | hf <;> cases hf
  · exact ⟨Or.inl rfl, rfl⟩
  · exact ⟨Or.inr rfl, rfl⟩

theorem preordersOn_datatype (htype : type ≠ .jsonb) :
    PreordersOn totalCompare fun v => v.datatype = some type :=
  (preordersOn_among htype).mono fun hv => among_of_datatype hv (List.mem_singleton_self type)

theorem datatype_of_present (h : ∀ v ∈ values, v.Among [type]) :
    ∀ v ∈ present values, v.datatype = some type := by
  intro v hv
  obtain ⟨t, ht, hvt⟩ := exists_datatype_of_present h hv
  rwa [List.mem_singleton.mp ht] at hvt

/-- What one kind of values has as extremes. -/
theorem reduce_extreme_exact (htype : type ≠ .jsonb) (h : ∀ v ∈ values, v.Among [type])
    (hne : present values ≠ []) {f : AggregateFunction} {wanted : Ordering} (hf : (f, wanted) ∈ extremes) :
    ∃ best, reduce f false values = .ok best ∧ Extreme wanted (present values) best := by
  obtain ⟨hwanted, hreduce⟩ := reduce_extreme values hf
  rw [hreduce]
  exact extreme_extremeOf (preordersOn_datatype htype) hwanted (fun _ _ => compare_eq_totalCompare) hne
    (datatype_of_present h)

/-- Nothing is left of values that are all NULL. -/
theorem reduce_of_present_eq_nil (hnil : present values = []) (distinct : Bool) :
    reduce count distinct values = .ok (.bigInt 0) ∧ ∀ f, f ≠ count → reduce f distinct values = .ok .null := by
  have hreduced : reduced distinct values = [] := by
    unfold reduced
    rw [hnil]
    cases distinct <;> rfl
  constructor
  · show Except.ok (Value.bigInt (Int64.ofInt (reduced distinct values).length)) = _
    rw [hreduced]
    rfl
  · intro f hf
    cases f with
    | count => exact absurd rfl hf
    | sum => exact congrArg sumOf hreduced
    | avg => exact congrArg averageOf hreduced
    | min => exact congrArg (extremeOf .lt) hreduced
    | max => exact congrArg (extremeOf .gt) hreduced

/-- Take any values, in whatever order. COUNT gives the number of those that are not NULL. SUM of integers of up
to 32 bits, and of integers of 64 bits, gives their exact sum, as a word and as a decimal, as long as there are
fewer than 2^31, and so does SUM of the different ones. MIN and MAX of values of one kind other than that of
documents give one of them that no other one is beyond; in another order of the values this is one that compares
as equal. Where all are NULL, COUNT is zero and the others are NULL. -/
theorem reduce_exact (values : List Value) :
    (∃ n : Int64, (∀ others, others.Perm values → reduce count false others = .ok (.bigInt n)) ∧
      ((present values).length < 2 ^ 63 → n.toInt = (present values).length)) ∧
    (∀ kinds ∈ summed, (∀ v ∈ values, v.Among kinds) → (present values).length < 2 ^ 31 →
      present values ≠ [] → ∀ distinct, ∃ total,
        IsSum kinds (if distinct then (integers values).dedup else integers values).sum total ∧
        ∀ others, others.Perm values → reduce sum distinct others = .ok total) ∧
    (∀ type ≠ .jsonb, (∀ v ∈ values, v.Among [type]) → present values ≠ [] →
      ∀ f wanted, (f, wanted) ∈ extremes → ∃ best, reduce f false values = .ok best ∧
        ∀ others, others.Perm values → ∃ best', reduce f false others = .ok best' ∧
          best' ∈ present values ∧
          (∀ w ∈ present values, ∃ o, w.compare best' = .ok (some o) ∧ o ≠ wanted) ∧
          best'.compare best = .ok (some .eq)) ∧
    (present values = [] → ∀ others, others.Perm values → ∀ distinct,
      reduce count distinct others = .ok (.bigInt 0) ∧
      ∀ f, f ≠ count → reduce f distinct others = .ok .null) := by
  refine ⟨⟨Int64.ofInt (present values).length, fun others hperm => ?_, fun hlength => ?_⟩, ?_, ?_, ?_⟩
  · rw [← (present_perm hperm).length_eq]
    rfl
  · exact Int64.toInt_ofInt_of_le (by omega) (by omega)
  · intro kinds hkinds h hlength hne distinct
    obtain ⟨total, -, htotal⟩ := reduce_sum_exact hkinds h hlength hne distinct
    refine ⟨total, htotal, fun others hperm => ?_⟩
    -- in another order the integers have the same sum, and one sum is one value
    have hpresent := present_perm hperm
    obtain ⟨total', hrun, htotal'⟩ := reduce_sum_exact hkinds (fun v hv => h v (hperm.mem_iff.mp hv))
      (hpresent.length_eq ▸ hlength) (fun hnil => hne (List.nil_perm.mp (hnil ▸ hpresent))) distinct
    have hints : (integers others).Perm (integers values) := hperm.filterMap _
    have hsame : (if distinct then (integers others).dedup else integers others).Perm
        (if distinct then (integers values).dedup else integers values) := by
      cases distinct
      · exact hints
      · exact hints.dedup
    rw [hsame.sum_eq] at htotal'
    rw [hrun, htotal'.unique htotal]
  · intro type htype h hne f wanted hf
    obtain ⟨best, hrun, hbest⟩ := reduce_extreme_exact htype h hne hf
    have hwanted := (reduce_extreme values hf).1
    have hof := datatype_of_present h
    refine ⟨best, hrun, fun others hperm => ?_⟩
    -- in another order there is an extreme of the same values, which is equal to this one
    have hpresent := present_perm hperm
    obtain ⟨best', hrun', hbest'⟩ := reduce_extreme_exact htype (fun v hv => h v (hperm.mem_iff.mp hv))
      (fun hnil => hne (List.nil_perm.mp (hnil ▸ hpresent))) hf
    have hmem := hpresent.mem_iff.mp hbest'.mem
    refine ⟨best', hrun', hmem, fun w hw => ?_, ?_⟩
    · exact ⟨_, compare_eq_totalCompare (hof w hw) (hof best' hmem),
        hbest'.none_beyond w (hpresent.mem_iff.mpr hw)⟩
    · rw [compare_eq_totalCompare (hof best' hmem) (hof best hbest.mem),
        hbest.unique (preordersOn_datatype htype) hwanted hbest' hof fun _ => hpresent.mem_iff.symm]
  · intro hnil others hperm distinct
    exact reduce_of_present_eq_nil (List.perm_nil.mp (hnil ▸ present_perm hperm)) distinct

/-- Integers of two kinds, one of them twice, with a NULL among them. -/
def mixedIntegers : List Value := [.integer 3, .null, .smallInt (-1), .integer 3]

theorem mixedIntegers_reduced :
    (∀ others, others.Perm mixedIntegers → reduce sum false others = .ok (.bigInt 5)) ∧
    (∀ others, others.Perm mixedIntegers → reduce sum true others = .ok (.bigInt 2)) ∧
    (∀ others, others.Perm [.integer 3, .null, .integer (-1)] → ∃ best, reduce min false others = .ok best ∧
      best.compare (.integer (-1)) = .ok (some .eq)) ∧
    ∀ others, others.Perm [.null, .null] → reduce count true others = .ok (.bigInt 0) := by
  have hamong : ∀ v ∈ mixedIntegers, v.Among [.smallInt, .integer] := by
    intro v hv t ht
    simp only [mixedIntegers, List.mem_cons, List.not_mem_nil, or_false] at hv
    rcases hv with rfl | rfl | rfl | rfl <;> cases ht <;> decide
  have hsum := (reduce_exact mixedIntegers).2.1 _ List.mem_cons_self hamong (by decide) (by decide)
  obtain ⟨total, htotal, hrun⟩ := hsum false
  obtain ⟨total', htotal', hrun'⟩ := hsum true
  cases htotal.unique (.word 5)
  cases htotal'.unique (.word 2)
  have hinteger : ∀ v ∈ [Value.integer 3, .null, .integer (-1)], v.Among [.integer] := by
    intro v hv t ht
    simp only [List.mem_cons, List.not_mem_nil, or_false] at hv
    rcases hv with rfl | rfl | rfl <;> cases ht <;> decide
  obtain ⟨best, hbest, hothers⟩ :=
    (reduce_exact [.integer 3, .null, .integer (-1)]).2.2.1 .integer (by decide) hinteger (by decide)
      min .lt (by decide)
  cases Except.ok.inj ((show reduce min false _ = Except.ok (Value.integer (-1)) from rfl).symm.trans hbest)
  refine ⟨hrun, hrun', fun others hperm => ?_, fun others hperm => ?_⟩
  · obtain ⟨best', hbest', -, -, heq⟩ := hothers others hperm
    exact ⟨best', hbest', heq⟩
  · exact ((reduce_exact [.null, .null]).2.2.2 rfl others hperm true).1

end AggregateFunction

end SqlStore
