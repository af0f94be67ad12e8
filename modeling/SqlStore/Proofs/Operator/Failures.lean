import SqlStore.Database.Basic
import SqlStore.Proofs.Check
import SqlStore.Proofs.Query.Parallel

/-!
# What operators and functions fail with

Operators, conversions, aggregates and functions fail on values: a type does not fit, a result is out of
range, a text cannot be read. None of these failures is about a name or a broken invariant, which can be
told by their wording: `Error.IsOperational`.
-/

namespace SqlStore

/-- The failure is no broken invariant, and if it is one of execution, its wording does not begin as those
do that name a column or an aggregate. -/
def Error.IsOperational : Error → Prop
  | .internal _ => False
  | .execution m => ¬ "column ".toList <+: m.toList ∧ ¬ "aggregate function ".toList <+: m.toList
  | _ => True

/-- A check of values. -/
abbrev Operational {α : Type} (x : Except Error α) : Prop := FailsWith Error.IsOperational x

/-! ## The failures -/

theorem isOperational_validation (cause : Invalid) : (Error.validation cause).IsOperational := trivial

theorem isOperational_noOperator (symbol : String) (a b : Value) :
    (noOperator symbol a b).IsOperational := by
  simp [noOperator, Error.IsOperational]

theorem isOperational_outOfRange (type : DataType) : (outOfRange type).IsOperational := by
  unfold outOfRange
  cases type with
  | numeric p s => cases p <;> cases s <;> simp [DataType.name, Error.IsOperational]
  | _ => simp [DataType.name, Error.IsOperational]

theorem isOperational_divisionByZero : divisionByZero.IsOperational := by
  simp [divisionByZero, Error.IsOperational]

theorem isOperational_numericOverflow : numericOverflow.IsOperational := by
  simp [numericOverflow, Error.IsOperational]

theorem isOperational_noFunction (name : String) (args : Tuple) :
    (noFunction name args).IsOperational := by
  simp [noFunction, Error.IsOperational]

theorem operational_orFail {α : Type} {err : Error} (h : err.IsOperational) (o : Option α) :
    Operational (DataType.orFail err o) := by
  cases o with
  | none => exact failsWith_error h
  | some a => exact failsWith_ok a

/-! ## Conversions -/

namespace DataType

theorem operational_declared (precision scale : Option Nat) (d : Numeric) :
    Operational (Numeric.declared precision scale d) := by
  unfold Numeric.declared
  cases precision with
  | none => exact failsWith_ok _
  | some p =>
    cases scale
    all_goals
      dsimp only
      split
      · exact failsWith_error (isOperational_validation _)
      · exact failsWith_ok _

theorem operational_integerOf {v : Value} {r : Except Error Int} (h : integerOf v = some r) :
    Operational r := by
  unfold integerOf at h
  dsimp only at h
  split at h
  · cases h
    exact operational_orFail (isOperational_validation _) _
  · cases h
    exact operational_orFail (isOperational_validation _) _
  · split at h
    · cases h
      exact failsWith_ok _
    · split at h
      · cases h
        split
        · exact failsWith_ok _
        · exact failsWith_error (isOperational_validation _)
      · cases h

theorem operational_toWord {α : Type} (type : DataType) (word? : Int → Option α) (v : Value) :
    Operational (toWord type word? v) := by
  refine (operational_orFail (isOperational_validation _) _).bind fun r hr => ?_
  have hinteger : integerOf v = some r := by
    cases hof : integerOf v with
    | none =>
      rw [hof] at hr
      cases hr
    | some r' =>
      rw [hof] at hr
      cases hr
      rfl
  refine (operational_integerOf hinteger).bind fun _ _ => ?_
  exact operational_orFail (isOperational_validation _) _

theorem operational_decimalOf (type : DataType) (v : Value) : Operational (decimalOf type v) := by
  unfold decimalOf
  split
  · exact operational_orFail (isOperational_validation _) _
  · split
    · unfold Value.numericOfFloat
      split
      · exact failsWith_ok _
      · exact failsWith_error (isOperational_validation _)
    · exact operational_orFail (isOperational_validation _) _

theorem operational_parseJson (s : String) :
    Operational ((Json.parse s).mapError fun e => Error.validation (.json e)) := by
  cases Json.parse s with
  | error fault => exact failsWith_error (isOperational_validation _)
  | ok j => exact failsWith_ok j

theorem operational_documentOf (v : Value) : Operational (documentOf v) := by
  unfold documentOf
  dsimp only
  split
  · exact failsWith_ok _
  · exact operational_parseJson _
  · exact failsWith_ok _
  · exact operational_parseJson _
  · split
    · split
      · exact failsWith_ok _
      · exact failsWith_error (isOperational_validation _)
    · split
      · exact failsWith_ok _
      · exact failsWith_ok _

theorem operational_convert (type : DataType) (v : Value) : Operational (type.convert v) := by
  -- whatever the type, a value is of the form already, or is read, or is unfit
  have hunfit : ∀ type : DataType, Operational (.error (unfit type v) : Except Error Value) :=
    fun _ => failsWith_error (isOperational_validation _)
  have hread : ∀ {α : Type} (m : String) (o : Option α) (f : α → Value),
      Operational (orFail (.rule m) o >>= fun a => (return f a : Except Error Value)) :=
    fun _ _ _ => (operational_orFail (isOperational_validation _) _).bind fun _ _ => failsWith_ok _
  unfold convert
  split
  · exact failsWith_ok _
  cases type with
  | smallInt | integer | bigInt => exact (operational_toWord _ _ v).map _
  | numeric p s =>
    refine (operational_decimalOf _ v).bind fun d _ => ?_
    exact (operational_declared p s d).bind fun _ _ => failsWith_ok _
  | real | double => exact hread _ _ _
  | varchar | char | text => exact failsWith_ok _
  | boolean =>
    cases v with
    | boolean b => exact failsWith_ok _
    | text s => exact hread _ _ _
    | _ => exact hunfit _
  | date =>
    cases v with
    | date _ | timestamp _ | timestampTz _ => exact failsWith_ok _
    | text s =>
      dsimp only
      split
      · exact failsWith_ok _
      · exact failsWith_error (isOperational_validation _)
    | _ => exact hunfit _
  | time | timestamp | timestampTz =>
    cases v with
    | date _ | time _ | timestamp _ | timestampTz _ => first
      | exact failsWith_ok _
      | exact hunfit _
    | text s => exact hread _ _ _
    | _ => exact hunfit _
  | interval =>
    cases v with
    | interval i => exact failsWith_ok _
    | text s =>
      dsimp only
      split
      · exact failsWith_ok _
      · exact failsWith_error (isOperational_validation _)
      · exact failsWith_error (isOperational_validation _)
    | _ => exact hunfit _
  | uuid =>
    cases v with
    | uuid u => exact failsWith_ok _
    | text _ | bytea _ =>
      dsimp only
      split
      · exact failsWith_ok _
      · exact failsWith_error (isOperational_validation _)
    | _ => exact hunfit _
  | jsonb => exact (operational_documentOf v).map _
  | bytea =>
    cases v with
    | bytea _ | uuid _ => exact failsWith_ok _
    | text s =>
      dsimp only
      split
      · split
        · exact failsWith_ok _
        · exact failsWith_error (isOperational_validation _)
      · exact failsWith_ok _
    | _ => exact hunfit _

/-- Only NULL has no document, so what is not NULL is converted to one. -/
theorem exists_of_convert_jsonb {v w : Value} (hv : v.isNull = false)
    (h : jsonb.convert v = .ok w) : ∃ j, w = .json j := by
  unfold convert at h
  rw [if_neg (by simp [hv])] at h
  obtain ⟨j, -, rfl⟩ := Except.exists_of_map_eq_ok h
  exact ⟨j, rfl⟩

end DataType

/-! ## Comparison -/

namespace Value

theorem operational_compareRead (a b : Value) : Operational (compareRead a b) := by
  unfold compareRead
  split
  · exact failsWith_ok _
  · exact failsWith_error (by simp [incomparable, Error.IsOperational])

theorem operational_compare (a b : Value) : Operational (a.compare b) := by
  unfold compare
  split
  · exact failsWith_ok _
  · split
    · exact operational_compareRead _ _
    · exact (DataType.operational_convert _ _).bind fun _ _ => operational_compareRead _ _
    · exact (DataType.operational_convert _ _).bind fun _ _ => operational_compareRead _ _
    · exact operational_compareRead _ _

end Value

/-! ## Arithmetic -/

namespace Arithmetic

theorem operational_onIntegers (op : Arithmetic) (x y : Value) (a b : Int) :
    Operational (op.onIntegers x y a b) := by
  unfold onIntegers
  split
  · exact failsWith_error isOperational_divisionByZero
  · exact operational_orFail (isOperational_outOfRange _) _

theorem operational_onFloats (op : Arithmetic) (x y : Value) : Operational (op.onFloats x y) := by
  unfold onFloats
  dsimp only
  split
  · exact failsWith_error isOperational_divisionByZero
  · split
    · exact failsWith_error (by simp [Error.IsOperational])
    · split
      · exact failsWith_ok _
      · exact failsWith_ok _

theorem operational_onNumbers (op : Arithmetic) (x y : Value) : Operational (op.onNumbers x y) := by
  unfold onNumbers
  split
  · exact operational_onIntegers op x y _ _
  · split
    · exact operational_onFloats op x y
    · split
      · split
        · exact failsWith_error isOperational_divisionByZero
        · exact (operational_orFail isOperational_numericOverflow _).map _
      · exact failsWith_error (isOperational_noOperator _ _ _)

theorem operational_shiftDate (d : Date) (days : Int) : Operational (shiftDate d days) :=
  (operational_orFail (by simp [Error.IsOperational]) _).map _

theorem operational_directed (op : Arithmetic) (i : Interval) : Operational (directed op i) := by
  unfold directed
  split
  · exact operational_orFail (isOperational_outOfRange _) _
  · exact failsWith_ok _

theorem operational_shiftTimestamp (t : Timestamp) (i : Interval) :
    Operational (shiftTimestamp t i) := operational_orFail (by simp [Error.IsOperational]) _

theorem operational_intervalOr (i : Option Interval) : Operational (intervalOr i) :=
  (operational_orFail (by simp [Error.IsOperational]) _).map _

theorem operational_onSpans (op : Arithmetic) (x y : Value) : Operational (op.onSpans x y) := by
  have hmissing : Operational (.error (noOperator op.symbol x y) : Except Error Value) :=
    failsWith_error (isOperational_noOperator _ _ _)
  unfold onSpans
  split
  all_goals first
    | exact failsWith_ok _
    | exact (operational_shiftTimestamp _ _).map _
    | exact (operational_directed _ _).bind fun _ _ => (operational_shiftTimestamp _ _).bind fun _ _ =>
        failsWith_ok _
    | exact operational_intervalOr _
    | exact (operational_directed _ _).bind fun _ _ => failsWith_ok _
    | exact (operational_directed _ _).bind fun _ _ => operational_intervalOr _
    | exact hmissing
    | split
      · first
        | exact operational_shiftDate _ _
        | exact operational_intervalOr _
      · exact hmissing

theorem operational_readOperand (op : Arithmetic) (s : String) (other : Value) :
    Operational (op.readOperand s other) := by
  unfold readOperand
  dsimp only
  split
  · split
    · exact failsWith_ok _
    · -- no interval, so the text is read as the type of the other side
      split
      · exact DataType.operational_convert _ _
      · exact failsWith_ok _
  · split
    · exact DataType.operational_convert _ _
    · exact failsWith_ok _

theorem operational_apply (op : Arithmetic) (x y : Value) : Operational (op.apply x y) := by
  have hoperands : Operational (op.operands x y) := by
    unfold operands
    split
    · exact failsWith_ok _
    · exact (operational_readOperand _ _ _).bind fun _ _ => failsWith_ok _
    · exact (operational_readOperand _ _ _).bind fun _ _ => failsWith_ok _
    · exact failsWith_ok _
  refine hoperands.bind fun _ _ => ?_
  dsimp only
  split
  · exact operational_onNumbers op _ _
  · exact operational_onSpans op _ _

end Arithmetic

/-! ## Operators -/

theorem operational_truth (clause : String) (v : Value) : Operational (Truth.ofValue clause v) := by
  have hfailure : Operational (.error (.execution ("argument of " ++ clause ++
      " must be type boolean, not type " ++ v.typeName)) : Except Error Truth) :=
    failsWith_error (by simp [Error.IsOperational])
  unfold Truth.ofValue
  dsimp only
  split
  · exact failsWith_ok _
  · exact failsWith_ok _
  · split
    · exact failsWith_ok _
    · split
      · exact failsWith_ok _
      · exact hfailure
  · exact hfailure

theorem operational_unary (op : UnaryOp) (v : Value) : Operational (op.apply v) := by
  have hmissing : ∀ symbol : String, Operational (.error (.execution
      ("operator does not exist: " ++ symbol ++ " " ++ v.typeName)) : Except Error Value) :=
    fun _ => failsWith_error (by simp [Error.IsOperational])
  unfold UnaryOp.apply
  dsimp only
  split
  all_goals first
    | exact failsWith_ok _
    | exact hmissing _
    | exact (operational_orFail (isOperational_outOfRange _) _).map _
    | split
      · first
        | exact failsWith_ok _
        | exact operational_orFail (isOperational_outOfRange _) _
      · exact hmissing _

/-- An operand that is not NULL is a document or fails to be read as one. -/
theorem operational_operandDocument {v : Value} (hv : v.isNull = false) :
    Operational (operandDocument v) := by
  refine (DataType.operational_convert .jsonb v).bind fun w hw => ?_
  obtain ⟨j, rfl⟩ := DataType.exists_of_convert_jsonb hv hw
  exact failsWith_ok j

theorem operational_concatenate {a b : Value} (ha : a.isNull = false) (hb : b.isNull = false) :
    Operational (concatenate a b) := by
  unfold concatenate
  split
  · exact (operational_operandDocument hb).bind fun _ _ => failsWith_ok _
  · exact (operational_operandDocument ha).bind fun _ _ => failsWith_ok _
  · exact failsWith_ok _
  · exact failsWith_ok _
  · exact failsWith_ok _
  · exact failsWith_error (isOperational_noOperator _ _ _)

theorem operational_part? (j : Json) (key : Value) : Operational (j.part? key) := by
  unfold Json.part?
  split
  · exact failsWith_ok _
  · split
    · exact failsWith_ok _
    · exact failsWith_ok _
  · exact failsWith_ok _
  · exact failsWith_ok _
  · split
    · exact failsWith_ok _
    · exact failsWith_error (by simp [Error.IsOperational])

/-- AND and OR are no operators on values, and would fail with a broken invariant. -/
theorem operational_binary {op : BinaryOp} (hand : op ≠ .and) (hor : op ≠ .or) (a b : Value) :
    Operational (op.apply a b) := by
  unfold BinaryOp.apply
  split
  · exact failsWith_ok _
  next hnull =>
  simp only [Bool.or_eq_true, not_or, Bool.not_eq_true] at hnull
  have hleft := operational_operandDocument hnull.1
  have hright := operational_operandDocument hnull.2
  cases op with
  | and => exact absurd rfl hand
  | or => exact absurd rfl hor
  | equal | notEqual | less | lessEqual | greater | greaterEqual =>
    exact (Value.operational_compare a b).bind fun _ _ => failsWith_ok _
  | concat => exact operational_concatenate hnull.1 hnull.2
  | contains => exact hleft.bind fun _ _ => hright.bind fun _ _ => failsWith_ok _
  | containedBy => exact hright.bind fun _ _ => hleft.bind fun _ _ => failsWith_ok _
  | jsonGet =>
    refine hleft.bind fun j _ => (operational_part? j b).bind fun part _ => ?_
    cases part <;> exact failsWith_ok _
  | jsonGetText =>
    exact hleft.bind fun j _ => (operational_part? j b).bind fun _ _ => failsWith_ok _
  | add | subtract | multiply | divide | remainder => exact Arithmetic.operational_apply _ a b

theorem operational_between (v low high : Value) : Operational (applyBetween v low high) :=
  (Value.operational_compare _ _).bind fun _ _ =>
    (Value.operational_compare _ _).bind fun _ _ => failsWith_ok _

theorem operational_like (v pattern : Value) (ignoreCase : Bool) :
    Operational (applyLike v pattern ignoreCase) := by
  unfold applyLike
  split
  · exact failsWith_ok _
  · exact failsWith_ok _
  · refine FailsWith.map ?_ _
    unfold likeText
    split
    · exact failsWith_error (by simp [Error.IsOperational])
    · split
      · exact failsWith_error (isOperational_validation _)
      · exact failsWith_ok _
  · exact failsWith_error (isOperational_noOperator _ _ _)

theorem operational_membership (v : Value) (candidates : List Value) :
    Operational (membership v candidates) := by
  have hfrom : ∀ result, Operational (membershipFrom v result candidates) := by
    induction candidates with
    | nil => exact fun _ => failsWith_ok _
    | cons c cs ih =>
      intro result
      refine (Value.operational_compare v c).bind fun order _ => ?_
      split
      · exact failsWith_ok _
      · exact ih result
      · exact ih none
  exact hfrom _

/-! ## Aggregates -/

namespace AggregateFunction

theorem operational_total {α : Type} {read : Value → Option α} {add : α → α → Except Error α}
    (hadd : ∀ a b, Operational (add a b)) (start : α) (values : List Value) :
    Operational (total read add start values) := by
  refine failsWith_foldlM (fun sum v => ?_) values start
  exact (operational_orFail (by simp [mixed, Error.IsOperational]) _).bind fun _ _ => hadd _ _

theorem operational_integerSum (values : List Value) : Operational (integerSum values) :=
  operational_total (fun _ _ => operational_orFail (isOperational_outOfRange _) _) _ _

theorem operational_decimalSum (values : List Value) : Operational (decimalSum values) :=
  operational_total (fun _ _ => operational_orFail isOperational_numericOverflow _) _ _

theorem operational_floatSum (values : List Value) : Operational (floatSum values) :=
  operational_total (fun _ _ => failsWith_ok _) _ _

theorem operational_intervalSum (values : List Value) : Operational (intervalSum values) :=
  operational_total (fun _ _ => operational_orFail (by simp [Error.IsOperational]) _) _ _

theorem operational_sumOf (values : List Value) : Operational (sumOf values) := by
  unfold sumOf
  split
  · exact failsWith_ok _
  · exact (operational_integerSum _).bind fun _ _ => failsWith_ok _
  · exact (operational_integerSum _).bind fun _ _ => failsWith_ok _
  · exact (operational_decimalSum _).map _
  · exact (operational_decimalSum _).map _
  · exact (operational_floatSum _).bind fun _ _ => failsWith_ok _
  · exact (operational_floatSum _).map _
  · exact (operational_intervalSum _).map _
  · exact failsWith_error (isOperational_noFunction _ _)

theorem operational_averageOf (values : List Value) : Operational (averageOf values) := by
  unfold averageOf
  split
  · exact failsWith_ok _
  · split
    · exact (operational_floatSum _).bind fun _ _ => failsWith_ok _
    · split
      · refine (operational_decimalSum _).bind fun _ _ => ?_
        exact (operational_orFail isOperational_numericOverflow _).map _
      · exact failsWith_error (isOperational_noFunction _ _)

theorem operational_extremeOf (wanted : Ordering) (values : List Value) :
    Operational (extremeOf wanted values) := by
  cases values with
  | nil => exact failsWith_ok _
  | cons v vs =>
    refine failsWith_foldlM (fun best w => ?_) vs v
    exact (Value.operational_compare w best).bind fun _ _ => failsWith_ok _

theorem operational_reduce (f : AggregateFunction) (distinct : Bool) (values : List Value) :
    Operational (f.reduce distinct values) := by
  cases f with
  | count => exact failsWith_ok _
  | sum => exact operational_sumOf _
  | avg => exact operational_averageOf _
  | min | max => exact operational_extremeOf _ _

end AggregateFunction

/-! ## Functions -/

namespace ScalarFunction

theorem operational_refuse {α : Type} (f : ScalarFunction) (args : Tuple) :
    Operational (f.refuse args : Except Error α) := failsWith_error (isOperational_noFunction _ _)

theorem operational_absolute? {v : Value} {r : Except Error Value} (h : absolute? v = some r) :
    Operational r := by
  unfold absolute? at h
  split at h
  · cases h
    exact failsWith_ok _
  · cases h
    exact failsWith_ok _
  · cases h
    exact failsWith_ok _
  · cases h
    exact failsWith_ok _
  · obtain ⟨n, -, rfl⟩ := Option.map_eq_some_iff.mp h
    exact operational_orFail (isOperational_outOfRange _) _

theorem operational_roundDecimal (d : Numeric) (places : Int) :
    Operational (roundDecimal d places) := by
  unfold roundDecimal
  split
  · exact failsWith_ok _
  · split
    · exact failsWith_error isOperational_numericOverflow
    · exact operational_orFail isOperational_numericOverflow _

theorem operational_rounded (args : Tuple) (v : Value) (places : Int) :
    Operational (rounded args v places) := by
  unfold rounded
  split
  · exact failsWith_ok _
  · split
    · exact failsWith_ok _
    · split
      · refine (operational_roundDecimal _ _).bind fun _ _ => ?_
        exact DataType.operational_convert _ _
      · exact operational_refuse _ _

theorem operational_roundPlaces (args : Tuple) (o : Option Value) :
    Operational (roundPlaces args o) := by
  unfold roundPlaces
  split
  · exact failsWith_ok _
  · exact failsWith_ok _
  · split
    · exact failsWith_ok _
    · exact operational_refuse _ _

theorem operational_apply (f : ScalarFunction) (now : Timestamp) (serial : Nat) (args : Tuple) :
    Operational (f.apply now serial args) := by
  unfold apply
  split
  all_goals try with_reducible exact failsWith_ok _
  case' h_9 | h_10 => exact (operational_orFail (isOperational_outOfRange _) _).map _
  case h_11 =>
    split
    · next hr => exact operational_absolute? hr
    · exact operational_refuse _ _
  case h_13 => exact (Value.operational_compare _ _).bind fun _ _ => failsWith_ok _
  case h_15 =>
    split
    · refine (operational_roundPlaces _ _).bind fun places _ => ?_
      split
      · exact operational_rounded _ _ _
      · exact failsWith_ok _
    · exact operational_refuse _ _
  case h_17 => exact operational_refuse _ _

end ScalarFunction

/-- A failure that a function of the host gave. -/
def Database.HostFails (db : Database) (err : Error) : Prop :=
  ∃ name f args, db.functions.lookup name = some f ∧ f args = .error err

/-- A function fails on its arguments, or it is one of the host and fails as the host says. -/
theorem Database.failsWith_callFunction (db : Database) (name : String) (args : Tuple) :
    FailsWith (fun err => err.IsOperational ∨ db.HostFails err) (db.callFunction name args) := by
  intro err herr
  unfold callFunction at herr
  split at herr
  · split at herr
    · cases herr
    · cases herr
      exact Or.inl (isOperational_noFunction _ _)
  · next f _ hf => exact Or.inr ⟨name, f, args, hf, herr⟩
  · exact Or.inl (ScalarFunction.operational_apply _ _ _ _ err herr)
  · cases herr
    exact Or.inl (isOperational_noFunction _ _)

/-! ## Together -/

theorem Expr.operational_takesBranch (operand : Option Value) (condition : Value) :
    Operational (takesBranch operand condition) := by
  unfold takesBranch
  split
  · exact (Value.operational_compare _ _).bind fun _ _ => failsWith_ok _
  · exact (operational_truth _ _).bind fun _ _ => failsWith_ok _

theorem Expr.operational_queryMembership (v : Value) (r : Relation) (negated : Bool) :
    Operational (queryMembership v r negated) := by
  have hmembership : Operational (do
      let found ← membership v (r.rows.map fun row => row.headD .null)
      return negateIf negated found.toValue) :=
    (operational_membership _ _).bind fun _ _ => failsWith_ok _
  unfold queryMembership
  split
  · exact (failsWith_error (by simp [Error.IsOperational])).bind fun _ _ => hmembership
  · exact hmembership

theorem Expr.operational_queryValue (r : Relation) : Operational (queryValue r) := by
  unfold queryValue
  have hcolumns : (Error.execution "subquery must return only one column").IsOperational := by
    simp [Error.IsOperational]
  have hrows : (Error.execution
      "more than one row returned by a subquery used as an expression").IsOperational := by
    simp [Error.IsOperational]
  dsimp only
  split
  · exact failsWith_error hcolumns
  · split
    · exact failsWith_error hrows
    · exact failsWith_ok _

/-- What expressions do with values fails as values do. -/
theorem operations_operational : Operations Error.IsOperational where
  truth h := operational_truth _ _ _ h
  unary h := operational_unary _ _ _ h
  binary hand hor h := operational_binary hand hor _ _ _ h
  compare h := Value.operational_compare _ _ _ h
  between h := operational_between _ _ _ _ h
  like h := operational_like _ _ _ _ h
  convert h := DataType.operational_convert _ _ _ h
  branch h := Expr.operational_takesBranch _ _ _ h
  reduce h := AggregateFunction.operational_reduce _ _ _ _ h
  queryMembership h := Expr.operational_queryMembership _ _ _ _ h
  queryValue h := Expr.operational_queryValue _ _ h

end SqlStore
