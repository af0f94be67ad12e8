import SqlStore.Database.Basic
import SqlStore.Function.Aggregate
import SqlStore.Operator.Application
import SqlStore.Proofs.Sorting
import SqlStore.Proofs.Value.Form
import SqlStore.Query.Planning

/-!
# Kinds of values

A value is of one of sixteen kinds, or NULL. What an operator or a function gives is of kinds that depend
on those of its operands alone: `BinaryOp.kinds`, `callKinds` and `AggregateFunction.kinds` say of which,
and the lemmas `gives_` say that this is so.
-/

namespace SqlStore

namespace DataType

/-- All kinds of values. -/
def kinds : List DataType :=
  [smallInt, integer, bigInt, numeric none none, real, double, text, boolean, date, time, timestamp,
    timestampTz, interval, uuid, jsonb, bytea]

/-- The kinds that can be computed with. -/
def measures : List DataType :=
  [smallInt, integer, bigInt, numeric none none, real, double, date, time, timestamp, timestampTz,
    interval]

/-- The kind of a concatenation, by the kinds of its sides. -/
def concatKind? : DataType → DataType → Option DataType
  | jsonb, _ => some jsonb
  | _, jsonb => some jsonb
  | bytea, bytea => some bytea
  | text, _ => some text
  | _, text => some text
  | _, _ => none

end DataType

namespace Value

/-- The value is NULL or of one of the kinds. -/
def Among (kinds : List DataType) (v : Value) : Prop := ∀ t, v.datatype = some t → t ∈ kinds

theorem among_null (kinds : List DataType) : Among kinds null := nofun

theorem among_of_datatype {kinds : List DataType} {v : Value} {t : DataType}
    (hv : v.datatype = some t) (ht : t ∈ kinds) : v.Among kinds := by
  intro s hs
  cases hv.symm.trans hs
  exact ht

theorem Among.mono {ks ls : List DataType} {v : Value} (h : v.Among ks) (hsub : ks ⊆ ls) :
    v.Among ls := fun t ht => hsub (h t ht)

theorem among_kinds (v : Value) : v.Among DataType.kinds := by
  cases v with
  | null => exact among_null _
  | _ => exact among_of_datatype rfl (by decide)

theorem among_boolean (b : Bool) : (boolean b).Among [.boolean] := among_of_datatype rfl (by decide)

theorem among_toValue (t : Truth) : (Truth.toValue t).Among [.boolean] := by
  cases t with
  | none => exact among_null _
  | some b => exact among_boolean b

theorem among_negateIf {v : Value} (hv : v.Among [.boolean]) (negated : Bool) :
    (negateIf negated v).Among [.boolean] := by
  cases v with
  | boolean b => exact among_boolean _
  | _ => exact hv

end Value

open Value (Among among_null among_of_datatype)

/-- The values of a row are of the kinds known of their places. -/
def AmongAll (known : List (List DataType)) (row : Tuple) : Prop :=
  List.Forall₂ (fun kinds (v : Value) => v.Among kinds) known row

/-! ## Results -/

/-- Every value that may come out is of one of the kinds. -/
def Gives (kinds : List DataType) (r : Except Error Value) : Prop := ∀ v, r = .ok v → v.Among kinds

section

variable {α : Type} {ks : List DataType}

theorem gives_ok {v : Value} (h : v.Among ks) : Gives ks (.ok v) := by
  rintro _ ⟨⟩
  exact h

theorem gives_error (err : Error) : Gives ks (.error err) := fun _ h => nomatch h

theorem gives_bind {r : Except Error α} {f : α → Except Error Value} (h : ∀ a, Gives ks (f a)) :
    Gives ks (r >>= f) := by
  intro v hv
  obtain ⟨a, -, hv⟩ := Except.exists_of_bind_eq_ok hv
  exact h a v hv

theorem gives_map {r : Except Error α} {f : α → Value} (h : ∀ a, (f a).Among ks) :
    Gives ks (r.map f) := by
  intro v hv
  obtain ⟨a, -, rfl⟩ := Except.exists_of_map_eq_ok hv
  exact h a

theorem DataType.orFail_eq_ok {err : Error} {o : Option α} {a : α} :
    orFail err o = .ok a ↔ o = some a := by
  cases o <;> simp [orFail]

theorem gives_orFail {err : Error} {o : Option Value} (h : ∀ v ∈ o, v.Among ks) :
    Gives ks (DataType.orFail err o) := by
  cases o with
  | none => exact gives_error err
  | some v => exact gives_ok (h v rfl)

end

theorem DataType.gives_convert (t : DataType) (v : Value) : Gives [t.kind] (t.convert v) := by
  intro u h
  by_cases hv : v = .null
  · subst hv
    cases h
    exact among_null _
  · exact among_of_datatype (datatype_of_formed (formed_convert hv h)) (by simp)

/-! ## Arithmetic -/

namespace Arithmetic

theorem among_wordOf? {type : DataType} {n : Int} : ∀ v ∈ wordOf? type n, v.Among DataType.measures := by
  intro v h
  unfold wordOf? at h
  split at h
  all_goals
    obtain ⟨w, -, rfl⟩ := Option.map_eq_some_iff.mp h
    exact among_of_datatype rfl (by decide)

theorem gives_onIntegers (op : Arithmetic) (x y : Value) (a b : Int) :
    Gives DataType.measures (op.onIntegers x y a b) := by
  unfold onIntegers
  split
  · exact gives_error _
  · refine gives_orFail fun v hv => ?_
    obtain ⟨n, -, hword⟩ := Option.bind_eq_some_iff.mp hv
    exact among_wordOf? v hword

theorem gives_onFloats (op : Arithmetic) (x y : Value) :
    Gives DataType.measures (op.onFloats x y) := by
  unfold onFloats
  dsimp only
  split
  · exact gives_error _
  · split
    · exact gives_error _
    · split <;> exact gives_ok (among_of_datatype rfl (by decide))

theorem gives_onNumbers (op : Arithmetic) (x y : Value) :
    Gives DataType.measures (op.onNumbers x y) := by
  unfold onNumbers
  split
  · exact gives_onIntegers _ _ _ _ _
  · split
    · exact gives_onFloats _ _ _
    · split
      · split
        · exact gives_error _
        · exact gives_map fun _ => among_of_datatype rfl (by decide)
      · exact gives_error _

theorem gives_intervalOr (i : Option Interval) : Gives DataType.measures (intervalOr i) :=
  gives_map fun _ => among_of_datatype rfl (by decide)

theorem gives_shiftDate (d : Date) (days : Int) : Gives DataType.measures (shiftDate d days) :=
  gives_map fun _ => among_of_datatype rfl (by decide)

theorem gives_onSpans (op : Arithmetic) (x y : Value) :
    Gives DataType.measures (op.onSpans x y) := by
  unfold onSpans
  split
  all_goals first
    | exact gives_error _
    | exact gives_ok (among_of_datatype rfl (by decide))
    | exact gives_intervalOr _
    | exact gives_map fun _ => among_of_datatype rfl (by decide)
    | exact gives_bind fun _ => gives_ok (among_of_datatype rfl (by decide))
    | exact gives_bind fun _ => gives_bind fun _ => gives_ok (among_of_datatype rfl (by decide))
    | exact gives_bind fun _ => gives_intervalOr _
    | split
      · first
        | exact gives_shiftDate _ _
        | exact gives_intervalOr _
      · exact gives_error _

/-- What arithmetic gives can be computed with. -/
theorem gives_apply (op : Arithmetic) (x y : Value) : Gives DataType.measures (op.apply x y) := by
  refine gives_bind fun operands => ?_
  dsimp only
  split
  · exact gives_onNumbers op _ _
  · exact gives_onSpans op _ _

end Arithmetic

/-! ## Operators -/

/-- A sign keeps the kind of its operand, which can be computed with. -/
theorem UnaryOp.datatype_of_apply {op : UnaryOp} (hop : op ≠ .not) {v u : Value}
    (h : op.apply v = .ok u) :
    u = .null ∨ u.datatype = v.datatype ∧ u.Among DataType.measures := by
  cases op with
  | not => exact absurd rfl hop
  | plus =>
    cases v with
    | null =>
      cases h
      exact Or.inl rfl
    | smallInt _ | integer _ | bigInt _ | numeric _ | real _ | double _ | interval _ =>
      cases h
      exact Or.inr ⟨rfl, among_of_datatype rfl (by decide)⟩
    | _ => cases h
  | minus =>
    cases v with
    | null =>
      cases h
      exact Or.inl rfl
    | numeric _ | real _ | double _ =>
      cases h
      exact Or.inr ⟨rfl, among_of_datatype rfl (by decide)⟩
    | interval i =>
      obtain ⟨j, -, rfl⟩ := Except.exists_of_map_eq_ok h
      exact Or.inr ⟨rfl, among_of_datatype rfl (by decide)⟩
    | smallInt n | integer n | bigInt n =>
      obtain ⟨w, -, rfl⟩ := Option.map_eq_some_iff.mp (DataType.orFail_eq_ok.mp h)
      exact Or.inr ⟨rfl, among_of_datatype rfl (by decide)⟩
    | _ => cases h

theorem UnaryOp.gives_apply {op : UnaryOp} (hop : op ≠ .not) {ks : List DataType} {v : Value}
    (hv : v.Among ks) : Gives (ks.filter DataType.measures.contains) (op.apply v) := by
  intro u h
  rcases datatype_of_apply hop h with rfl | ⟨hkind, hmeasure⟩
  · exact among_null _
  · intro t ht
    exact List.mem_filter.mpr ⟨hv t (hkind ▸ ht), List.contains_iff_mem.mpr (hmeasure t ht)⟩

theorem gives_compareWith (test : Ordering → Bool) (a b : Value) :
    Gives [.boolean] (compareWith test a b) :=
  gives_bind fun _ => gives_ok (Value.among_toValue _)

/-- A concatenation is of the kind that its sides make. -/
theorem datatype_of_concatenate {a b v : Value} {s t : DataType} (ha : a.datatype = some s)
    (hb : b.datatype = some t) (h : concatenate a b = .ok v) :
    ∃ k, DataType.concatKind? s t = some k ∧ v.datatype = some k := by
  unfold concatenate at h
  split at h
  · obtain ⟨j, -, h⟩ := Except.exists_of_bind_eq_ok h
    cases ha
    cases h
    exact ⟨.jsonb, by cases t <;> rfl, rfl⟩
  · obtain ⟨j, -, h⟩ := Except.exists_of_bind_eq_ok h
    cases hb
    cases h
    exact ⟨.jsonb, by cases s <;> rfl, rfl⟩
  · cases ha
    cases hb
    cases h
    exact ⟨.bytea, rfl, rfl⟩
  -- what is left has no document among its sides
  · next hjson =>
    cases ha
    cases h
    refine ⟨.text, ?_, rfl⟩
    cases b <;> first
      | exact (hjson _ rfl).elim
      | cases hb <;> rfl
  · next hjson _ =>
    cases hb
    cases h
    refine ⟨.text, ?_, rfl⟩
    cases a <;> first
      | exact (hjson _ rfl).elim
      | cases ha <;> rfl
  · cases h

/-- The kinds of what an operator gives on operands of these kinds. -/
def BinaryOp.kinds (op : BinaryOp) (ks ls : List DataType) : List DataType :=
  match op with
  | .and | .or | .equal | .notEqual | .less | .lessEqual | .greater | .greaterEqual | .contains
  | .containedBy => [.boolean]
  | .jsonGet => [.jsonb]
  | .jsonGetText => [.text]
  | .concat => ks.flatMap fun s => ls.filterMap (DataType.concatKind? s)
  | .add | .subtract | .multiply | .divide | .remainder => DataType.measures

theorem among_partText (part : Option Json) : (partText part).Among [.text] := by
  unfold partText
  split
  · exact among_null _
  · exact among_null _
  · exact among_of_datatype rfl (by decide)
  · exact among_of_datatype rfl (by decide)

theorem BinaryOp.gives_apply (op : BinaryOp) {ks ls : List DataType} {a b : Value} (ha : a.Among ks)
    (hb : b.Among ls) : Gives (op.kinds ks ls) (op.apply a b) := by
  unfold BinaryOp.apply
  split
  · exact gives_ok (among_null _)
  · next hpresent =>
    cases op with
    | and | or => exact gives_error _
    | equal | notEqual | less | lessEqual | greater | greaterEqual => exact gives_compareWith _ a b
    | contains | containedBy =>
      exact gives_bind fun _ => gives_bind fun _ => gives_ok (Value.among_boolean _)
    | jsonGet =>
      refine gives_bind fun j => gives_bind fun part => ?_
      cases part with
      | none => exact gives_ok (among_null _)
      | some p => exact gives_ok (among_of_datatype rfl List.mem_cons_self)
    | jsonGetText => exact gives_bind fun j => gives_bind fun part => gives_ok (among_partText part)
    | add | subtract | multiply | divide | remainder => exact Arithmetic.gives_apply _ a b
    | concat =>
      intro v hv
      simp only [Bool.or_eq_true, Value.isNull_iff, not_or] at hpresent
      have hkind : ∀ u : Value, u ≠ .null → ∃ t, u.datatype = some t := by
        intro u hu
        cases u <;> first
          | exact ⟨_, rfl⟩
          | exact absurd rfl hu
      obtain ⟨s, hs⟩ := hkind a hpresent.1
      obtain ⟨t, ht⟩ := hkind b hpresent.2
      obtain ⟨k, hk, hv⟩ := datatype_of_concatenate hs ht hv
      refine among_of_datatype hv (List.mem_flatMap.mpr ⟨s, ha s hs, ?_⟩)
      exact List.mem_filterMap.mpr ⟨t, hb t ht, hk⟩

theorem gives_applyLike (v pattern : Value) (ignoreCase : Bool) :
    Gives [.boolean] (applyLike v pattern ignoreCase) := by
  unfold applyLike
  split
  · exact gives_ok (among_null _)
  · exact gives_ok (among_null _)
  · exact gives_map fun _ => Value.among_boolean _
  · exact gives_error _

theorem gives_applyBetween (v low high : Value) : Gives [.boolean] (applyBetween v low high) :=
  gives_bind fun _ => gives_bind fun _ => gives_ok (Value.among_toValue _)

/-! ## Aggregates -/

namespace AggregateFunction

/-- The kinds of what an aggregate gives over values of these kinds. -/
def kinds (f : AggregateFunction) (ks : List DataType) : List DataType :=
  match f with
  | count => [.bigInt]
  | sum => [.bigInt, .numeric none none, .real, .double, .interval]
  | avg => [.numeric none none, .double]
  | min | max => ks

theorem gives_sumOf (values : List Value) : Gives (sum.kinds []) (sumOf values) := by
  unfold sumOf
  split
  · exact gives_ok (among_null _)
  all_goals first
    | exact gives_error _
    | exact gives_map fun _ => among_of_datatype rfl (by decide)

theorem gives_averageOf (values : List Value) : Gives (avg.kinds []) (averageOf values) := by
  unfold averageOf
  split
  · exact gives_ok (among_null _)
  · split
    · exact gives_bind fun _ => gives_ok (among_of_datatype rfl (by decide))
    · split
      · exact gives_bind fun _ => gives_map fun _ => among_of_datatype rfl (by decide)
      · exact gives_error _

theorem gives_extremeOf (wanted : Ordering) {ks : List DataType} {values : List Value}
    (h : ∀ v ∈ values, v.Among ks) : Gives ks (extremeOf wanted values) := by
  cases values with
  | nil => exact gives_ok (among_null ks)
  | cons v vs =>
    obtain ⟨hv, hvs⟩ := List.forall_mem_cons.mp h
    show Gives ks (vs.foldlM _ v)
    clear h
    -- the value kept so far is one of the values
    induction vs generalizing v with
    | nil => exact gives_ok hv
    | cons w vs ih =>
      obtain ⟨hw, hvs⟩ := List.forall_mem_cons.mp hvs
      rw [List.foldlM_cons]
      intro u hu
      obtain ⟨best, hbest, hu⟩ := Except.exists_of_bind_eq_ok hu
      obtain ⟨order, -, hbest⟩ := Except.exists_of_bind_eq_ok hbest
      refine ih best ?_ hvs u hu
      split at hbest <;> cases hbest
      · exact hw
      · exact hv

theorem gives_reduce (f : AggregateFunction) (distinct : Bool) {ks : List DataType}
    {values : List Value} (h : ∀ v ∈ values, v.Among ks) :
    Gives (f.kinds ks) (f.reduce distinct values) := by
  cases f with
  | count => exact gives_ok (among_of_datatype rfl List.mem_cons_self)
  | sum => exact gives_sumOf _
  | avg => exact gives_averageOf _
  | min | max =>
    refine gives_extremeOf _ fun v hv => h v ?_
    -- leaving out NULLs and repeated values adds no value
    split at hv
    · have hsorted := mem_stableSort.mp (mem_of_mem_dropRepeats hv)
      exact List.mem_of_mem_filter hsorted
    · exact List.mem_of_mem_filter hv

end AggregateFunction

/-! ## Functions -/

namespace ScalarFunction

/-- The kinds of what a function gives on arguments of these kinds. -/
def kinds (f : ScalarFunction) (args : List (List DataType)) : List DataType :=
  match f with
  | randomUuid | timeOrderedUuid => [.uuid]
  | lower | upper | concat | jsonTypeOf => [.text]
  | length => [.integer]
  | abs | round => DataType.measures
  | coalesce => args.flatten
  | nullIf => args.headD []

theorem gives_refuse (f : ScalarFunction) (args : Tuple) (ks : List DataType) :
    Gives ks (f.refuse args) := gives_error _

theorem gives_absolute? {v : Value} {r : Except Error Value} (h : absolute? v = some r) :
    Gives DataType.measures r := by
  unfold absolute? at h
  split at h
  · cases h
    exact gives_ok (among_null _)
  all_goals try
    cases h
    exact gives_ok (among_of_datatype rfl (by decide))
  obtain ⟨n, -, rfl⟩ := Option.map_eq_some_iff.mp h
  exact gives_orFail Arithmetic.among_wordOf?

theorem gives_rounded (args : Tuple) (v : Value) (places : Int) :
    Gives DataType.measures (rounded args v places) := by
  unfold rounded
  split
  · exact gives_ok (among_null _)
  · split
    · exact gives_ok (among_of_datatype rfl (by decide))
    · split
      · next d t hd ht =>
        refine gives_bind fun e u hu => (DataType.gives_convert t _ u hu).mono ?_
        -- what has an exact decimal is a number
        have hmeasure : t.kind ∈ DataType.measures := by
          cases v <;> cases ht <;> first
            | decide
            | cases hd
        simpa using hmeasure
      · exact gives_refuse _ _ _

theorem gives_apply (f : ScalarFunction) (now : Timestamp) (serial : Nat)
    {kss : List (List DataType)} {args : Tuple} (h : AmongAll kss args) :
    Gives (f.kinds kss) (f.apply now serial args) := by
  unfold apply
  split
  case h_11 =>
    split
    · next hr => exact gives_absolute? hr
    · exact gives_refuse _ _ _
  case h_12 v rest =>
    -- the first value that is not NULL is one of the arguments
    cases hfound : (v :: rest).find? fun v => !v.isNull with
    | none => exact gives_ok (among_null _)
    | some u =>
      obtain ⟨ks, hks, hu⟩ := exists_of_mem_forall₂ h (List.mem_of_find?_eq_some hfound)
      exact gives_ok (hu.mono fun t ht => List.mem_flatten.mpr ⟨ks, hks, ht⟩)
  case h_13 a b =>
    cases h with
    | cons ha _ =>
      refine gives_bind fun order => gives_ok ?_
      split
      · exact among_null _
      · exact ha
  case h_15 =>
    split
    · refine gives_bind fun places => ?_
      cases places with
      | none => exact gives_ok (among_null _)
      | some places => exact gives_rounded _ _ _
    · exact gives_refuse _ _ _
  case h_17 => exact gives_refuse _ _ _
  case h_3 | h_4 | h_5 | h_6 => exact gives_ok (among_null _)
  case h_9 | h_10 => exact gives_map fun _ => among_of_datatype rfl List.mem_cons_self
  all_goals exact gives_ok (among_of_datatype rfl List.mem_cons_self)

end ScalarFunction

/-- The kinds of what a function of a database gives on arguments of these kinds, where the host does not
replace the functions that every database has. -/
def callKinds (name : String) (args : List (List DataType)) : List DataType :=
  match Expr.functionType? name with
  | some t => [t.kind]
  | none => match ScalarFunction.ofName? name with
    | some f => f.kinds args
    | none => DataType.kinds

/-- What planning says of the results of a function that every database has. -/
theorem callKinds_of_ofName? {name : String} {f : ScalarFunction}
    (h : ScalarFunction.ofName? name = some f) (args : List (List DataType)) :
    callKinds name args = f.kinds args := by
  unfold ScalarFunction.ofName? at h
  split at h
  all_goals cases h <;> rfl

theorem gives_clockValue {now : Timestamp} {name : String} {v : Value}
    (h : clockValue? now name = some v) (args : List (List DataType)) :
    v.Among (callKinds name args) := by
  unfold clockValue? at h
  split at h
  all_goals cases h <;> exact among_of_datatype rfl List.mem_cons_self

/-- What planning knows the type of is a function of the clock or one that every database has. -/
theorem callKinds_of_unknown {now : Timestamp} {name : String} (hclock : clockValue? now name = none)
    (hname : ScalarFunction.ofName? name = none) (args : List (List DataType)) :
    callKinds name args = DataType.kinds := by
  have htype : Expr.functionType? name = none := by
    unfold Expr.functionType?
    split
    case h_16 => rfl
    case h_9 | h_10 | h_11 | h_12 | h_13 | h_14 | h_15 => simp [clockValue?] at hclock
    all_goals simp [ScalarFunction.ofName?] at hname
  unfold callKinds
  rw [htype, hname]

/-- No function of the host has the name of one that every database has. -/
def Database.KeepsFunctions (db : Database) : Prop :=
  ∀ name f, db.functions.lookup name = some f → ScalarFunction.ofName? name = none

theorem Database.gives_callFunction {db : Database} (hdb : db.KeepsFunctions) (name : String)
    {kss : List (List DataType)} {args : Tuple} (h : AmongAll kss args) :
    Gives (callKinds name kss) (db.callFunction name args) := by
  unfold callFunction
  split
  · next hclock =>
    split
    · exact gives_ok (gives_clockValue hclock kss)
    · exact gives_error _
  · next f hclock hhost =>
    rw [callKinds_of_unknown hclock (hdb name f hhost)]
    exact fun v _ => v.among_kinds
  · next f _ _ hname =>
    rw [callKinds_of_ofName? hname]
    exact f.gives_apply _ _ h
  · exact gives_error _

end SqlStore
