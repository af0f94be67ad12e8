import SqlStore.Proofs.Function.Aggregates
import SqlStore.Proofs.Value.Kind
import SqlStore.Proofs.Value.Symmetry

/-!
# Kinds on which the order is total

Among integers of one width, texts, truth values and identifiers, beside NULL, values that compare as equal
are equal. So sorting, grouping, counting and the extremes of such values do not depend on the order in
which the values come. Decimals and documents are no such kinds: equal ones may be written differently.
-/

namespace SqlStore

/-- The kinds on which values that compare as equal are equal. -/
def DataType.discrete : List DataType := [smallInt, integer, bigInt, text, boolean, uuid]

namespace Value

variable {k : DataType}

/-! ## Values of one kind -/

/-- Values that are made of what has a total order. -/
theorem ordersOn_range {α β : Type} [Ord β] [Std.TransOrd β] [Std.LawfulEqOrd β] (make : α → Value)
    {r : α → β} (hr : ∀ {x y}, r x = r y → x = y)
    (hcompare : ∀ x y, (make x).totalCompare (make y) = Ord.compare (r x) (r y)) :
    OrdersOn totalCompare fun v => ∃ x, make x = v where
  eq_of := by
    rintro _ _ ⟨x, rfl⟩ ⟨y, rfl⟩ heq
    rw [hcompare] at heq
    rw [hr (Std.LawfulEqCmp.eq_of_compare heq)]
  swap := by
    rintro _ _ ⟨x, rfl⟩ ⟨y, rfl⟩
    rw [hcompare, hcompare]
    exact compare_swap _ _
  trans := by
    rintro _ _ _ ⟨x, rfl⟩ ⟨y, rfl⟩ ⟨z, rfl⟩ hlt hlt'
    rw [hcompare] at hlt hlt' ⊢
    exact Std.TransCmp.lt_trans hlt hlt'

theorem ordersOn_kind (hk : k ∈ DataType.discrete) :
    OrdersOn totalCompare fun v => v.datatype = some k := by
  simp only [DataType.discrete, List.mem_cons, List.not_mem_nil, or_false] at hk
  rcases hk with rfl | rfl | rfl | rfl | rfl | rfl
  · refine (ordersOn_range smallInt Int16.toInt_inj.mp fun _ _ => rfl).mono ?_
    rintro ⟨⟩ ⟨⟩
    exact ⟨_, rfl⟩
  · refine (ordersOn_range integer Int32.toInt_inj.mp fun _ _ => rfl).mono ?_
    rintro ⟨⟩ ⟨⟩
    exact ⟨_, rfl⟩
  · refine (ordersOn_range bigInt Int64.toInt_inj.mp fun _ _ => rfl).mono ?_
    rintro ⟨⟩ ⟨⟩
    exact ⟨_, rfl⟩
  · refine (ordersOn_range (r := id) text id fun _ _ => rfl).mono ?_
    rintro ⟨⟩ ⟨⟩
    exact ⟨_, rfl⟩
  · refine (ordersOn_range boolean (β := Nat) ?_ fun _ _ => rfl).mono ?_
    · decide
    · rintro ⟨⟩ ⟨⟩
      exact ⟨_, rfl⟩
  · refine (ordersOn_range (r := fun u : Uuid => u.bits.toNat) uuid ?_ fun _ _ => rfl).mono ?_
    · rintro ⟨a⟩ ⟨b⟩ hbits
      exact congrArg Uuid.mk (BitVec.eq_of_toNat_eq hbits)
    · rintro ⟨⟩ ⟨⟩
      exact ⟨_, rfl⟩

/-! ## NULL beside them -/

theorem eq_null_or_datatype {v : Value} (hv : v.Among [k]) : v = null ∨ v.datatype = some k := by
  cases ht : v.datatype with
  | none => exact Or.inl (eq_null_of_datatype ht)
  | some t => exact Or.inr (congrArg some (List.mem_singleton.mp (hv t ht)))

theorem null_totalCompare {v : Value} (hv : v.datatype = some k) : null.totalCompare v = .gt := by
  cases v <;> cases hv <;> rfl

theorem totalCompare_null {v : Value} (hv : v.datatype = some k) : v.totalCompare null = .lt := by
  cases v <;> cases hv <;> rfl

/-- NULL is the largest. -/
theorem ordersOn_among (hk : k ∈ DataType.discrete) :
    OrdersOn totalCompare fun v => v.Among [k] where
  eq_of := by
    intro a b ha hb heq
    rcases eq_null_or_datatype ha with rfl | ha <;> rcases eq_null_or_datatype hb with rfl | hb
    · rfl
    · cases (null_totalCompare hb).symm.trans heq
    · cases (totalCompare_null ha).symm.trans heq
    · exact (ordersOn_kind hk).eq_of ha hb heq
  swap := by
    intro a b ha hb
    rcases eq_null_or_datatype ha with rfl | ha <;> rcases eq_null_or_datatype hb with rfl | hb
    · rfl
    · rw [null_totalCompare hb, totalCompare_null hb]
      rfl
    · rw [null_totalCompare ha, totalCompare_null ha]
      rfl
    · exact (ordersOn_kind hk).swap ha hb
  trans := by
    intro a b c ha hb hc hlt hlt'
    rcases eq_null_or_datatype ha with rfl | ha
    · -- nothing is above NULL
      rcases eq_null_or_datatype hb with rfl | hb
      · cases hlt
      · cases (null_totalCompare hb).symm.trans hlt
    rcases eq_null_or_datatype hc with rfl | hc
    · exact totalCompare_null ha
    rcases eq_null_or_datatype hb with rfl | hb
    · cases (null_totalCompare hc).symm.trans hlt'
    · exact (ordersOn_kind hk).trans ha hb hc hlt hlt'

/-! ## Tuples -/

/-- Tuples with values of such kinds, the same ones at the same places. -/
theorem ordersOn_tuples {known : List (List DataType)}
    (hknown : ∀ kinds ∈ known, ∃ k ∈ DataType.discrete, kinds = [k]) :
    OrdersOn compareTuples (AmongAll known) := by
  induction known with
  | nil =>
    constructor
    · rintro _ _ ⟨⟩ ⟨⟩ -
      rfl
    · rintro _ _ ⟨⟩ ⟨⟩
      rfl
    · rintro _ _ _ ⟨⟩ ⟨⟩ ⟨⟩ ⟨⟩
  | cons kinds known ih =>
    obtain ⟨⟨k, hk, rfl⟩, hrest⟩ := List.forall_mem_cons.mp hknown
    have hhead := ordersOn_among hk
    have htail := ih hrest
    constructor
    · rintro _ _ (_ | ⟨ha, has⟩) (_ | ⟨hb, hbs⟩) heq
      obtain ⟨hfirst, hrest⟩ := Ordering.then_eq_eq.mp heq
      rw [hhead.eq_of ha hb hfirst, htail.eq_of has hbs hrest]
    · rintro _ _ (_ | ⟨ha, has⟩) (_ | ⟨hb, hbs⟩)
      unfold compareTuples
      rw [Ordering.swap_then, hhead.swap ha hb, htail.swap has hbs]
    · rintro _ _ _ (_ | ⟨ha, has⟩) (_ | ⟨hb, hbs⟩) (_ | ⟨hc, hcs⟩) hlt hlt'
      -- the first place where one of the pairs differs decides
      rcases Ordering.then_eq_lt.mp hlt with hab | ⟨hab, hrest⟩ <;>
        rcases Ordering.then_eq_lt.mp hlt' with hbc | ⟨hbc, hrest'⟩
      · exact Ordering.then_eq_lt.mpr (Or.inl (hhead.trans ha hb hc hab hbc))
      · cases hhead.eq_of hb hc hbc
        exact Ordering.then_eq_lt.mpr (Or.inl hab)
      · cases hhead.eq_of ha hb hab
        exact Ordering.then_eq_lt.mpr (Or.inl hbc)
      · cases hhead.eq_of ha hb hab
        exact Ordering.then_eq_lt.mpr (Or.inr ⟨hbc, htail.trans has hbs hcs hrest hrest'⟩)

end Value

namespace AggregateFunction

open Value

variable {k : DataType} {values values' : List Value}

/-! ## Counts and extremes -/

theorem extremeOf_perm (hk : k ∈ DataType.discrete) {wanted : Ordering}
    (hwanted : wanted = .lt ∨ wanted = .gt) (hperm : values.Perm values')
    (hvalues : ∀ w ∈ values, w.datatype = some k) :
    extremeOf wanted values = extremeOf wanted values' := by
  by_cases hne : values = []
  · subst hne
    rw [List.nil_perm.mp hperm]
  have ho := ordersOn_kind hk
  have ho' := PreordersOn.of_ordersOn ho
  have hne' : values' ≠ [] := fun h => hne (List.perm_nil.mp (h ▸ hperm))
  have hvalues' : ∀ w ∈ values', w.datatype = some k := fun w hw => hvalues w (hperm.mem_iff.mpr hw)
  obtain ⟨best, hbest, hextreme⟩ := extreme_extremeOf ho' hwanted
    (fun _ _ => compare_eq_totalCompare) hne hvalues
  obtain ⟨best', hbest', hextreme'⟩ := extreme_extremeOf ho' hwanted
    (fun _ _ => compare_eq_totalCompare) hne' hvalues'
  have heq := hextreme.unique ho' hwanted hextreme' hvalues fun _ => hperm.mem_iff
  rw [hbest, hbest', ho.eq_of (hvalues' best' hextreme'.mem) (hvalues best hextreme.mem) heq]

/-- The functions that only count and compare. -/
def comparing : List AggregateFunction := [count, min, max]

/-- What such a function gives does not depend on the order of the values. -/
theorem reduce_perm (hk : k ∈ DataType.discrete) {f : AggregateFunction} (hf : f ∈ comparing)
    (distinct : Bool) (hperm : values.Perm values') (hvalues : ∀ v ∈ values, v.Among [k]) :
    f.reduce distinct values = f.reduce distinct values' := by
  unfold reduce
  dsimp only
  have hpresent : (values.filter fun v => !v.isNull).Perm (values'.filter fun v => !v.isNull) :=
    hperm.filter _
  have hkind : ∀ v ∈ values.filter (fun v => !v.isNull), v.datatype = some k := by
    intro v hv
    obtain ⟨hv, hnull⟩ := List.mem_filter.mp hv
    rcases eq_null_or_datatype (hvalues v hv) with rfl | hv
    · cases hnull
    · exact hv
  cases distinct with
  | true =>
    -- sorted they are equal
    have hsorted := stableSort_perm (ordersOn_kind hk) hpresent hkind
    simp only [if_true, Value.sort, hsorted]
  | false =>
    simp only [comparing, List.mem_cons, List.not_mem_nil, or_false] at hf
    rcases hf with rfl | rfl | rfl
    · exact congrArg (fun n : Nat => Except.ok (Value.bigInt (Int64.ofInt n))) hpresent.length_eq
    · exact extremeOf_perm hk (Or.inl rfl) hpresent hkind
    · exact extremeOf_perm hk (Or.inr rfl) hpresent hkind

end AggregateFunction

end SqlStore
