import SqlStore.Proofs.Query.Layout
import SqlStore.Proofs.Query.Readable
import SqlStore.Proofs.Value.Kind

/-!
# Kinds of expressions

The kinds of values that an expression may have follow from the kinds of the columns that it reads:
`Expr.kinds` finds them. Nothing is guessed on the way. Where nothing is known of an expression, as of a
query in the place of one, it is said to have values of all kinds, and a concatenation is of the kinds that
some pair of its sides makes. An ambiguous reference has no values.
-/

namespace SqlStore

open Run

namespace Expr

variable {σ : Type}

mutual

/-- The kinds of an expression's values, over columns of known kinds. -/
def kinds (columns : List ResultColumn) (known : List (List DataType)) : Expr σ → List DataType
  | literal v => v.datatype.toList
  | column table name => match ResultColumn.resolve columns table name with
    | .ok (some i) => known.getD i DataType.kinds
    | .ok none => DataType.kinds
    | .error _ => []
  | unary .not _ => [.boolean]
  | unary _ e => (e.kinds columns known).filter DataType.measures.contains
  | binary op l r => op.kinds (l.kinds columns known) (r.kinds columns known)
  | isNull _ _ | inList _ _ _ | inQuery _ _ _ | between _ _ _ _ | like _ _ _ _ | exists_ _ =>
    [.boolean]
  | cases _ branches otherwise => branchKinds columns known branches ++ optionKinds columns known otherwise
  | cast _ type => [type.kind]
  | subquery _ => DataType.kinds
  | call name args => callKinds name (listKinds columns known args)
  | aggregate f _ none => f.kinds [.boolean]
  | aggregate f _ (some e) => f.kinds (e.kinds columns known)

/-- The kinds of the values of each member of a list. -/
def listKinds (columns : List ResultColumn) (known : List (List DataType)) :
    List (Expr σ) → List (List DataType)
  | [] => []
  | e :: es => e.kinds columns known :: listKinds columns known es

/-- The kinds of the values of an optional expression. -/
def optionKinds (columns : List ResultColumn) (known : List (List DataType)) :
    Option (Expr σ) → List DataType
  | none => []
  | some e => e.kinds columns known

/-- The kinds of the results of branches. -/
def branchKinds (columns : List ResultColumn) (known : List (List DataType)) :
    List (Expr σ × Expr σ) → List DataType
  | [] => []
  | (_, result) :: branches => result.kinds columns known ++ branchKinds columns known branches

end

end Expr

/-- A frame over columns whose values are of known kinds. -/
structure Frame.Knows (f : Frame) (columns : List ResultColumn) (known : List (List DataType)) :
    Prop where
  keys : f.columns.map ResultColumn.key = columns.map ResultColumn.key
  row : AmongAll known f.row
  group : ∀ rows ∈ f.group, ∀ row ∈ rows, AmongAll known row

/-- What a reference finds is of the kinds known of its column; a name of an outer scope is of any kind. -/
theorem Frame.Knows.value {f : Frame} {σ : Type} {columns : List ResultColumn}
    {known : List (List DataType)} {outer : Scope} (hf : f.Knows columns known) {table : Option String}
    {name : String} {v : Value} (h : Scope.value (f :: outer) table name = .ok v) :
    v.Among (Expr.kinds columns known (.column table name : Expr σ)) := by
  obtain ⟨found, hfound, h⟩ := Except.exists_of_bind_eq_ok h
  rw [Expr.kinds, ← ResultColumn.resolve_of_keys hf.keys, hfound]
  cases found with
  | none => exact v.among_kinds
  | some i =>
    dsimp only at h ⊢
    cases hv : f.row[i]? with
    | none =>
      rw [hv] at h
      cases h
    | some u =>
      rw [hv] at h
      cases h
      obtain ⟨hi, rfl⟩ := List.getElem?_eq_some_iff.mp hv
      obtain ⟨hlength, hget⟩ := List.forall₂_iff_get.mp hf.row
      have hi' : i < known.length := by omega
      rw [List.getD_eq_getElem?_getD, List.getElem?_eq_getElem hi']
      exact hget i hi' hi

namespace Expr

variable {σ τ : Type} {P : τ → Prop} {s : Surroundings σ (Run τ)} {outer : Scope}
variable {columns : List ResultColumn} {known : List (List DataType)}

/-- In states with `P` the call keeps `P`, and its results have `Q`. -/
abbrev Yields (P : τ → Prop) {α : Type} (c : Run τ α) (Q : α → Prop) : Prop :=
  Ends P c Q fun _ => True

theorem yields_ofExcept {α : Type} {r : Except Error α} {Q : α → Prop} (h : ∀ a, r = .ok a → Q a) :
    Yields P (ofExcept r) Q := ends_ofExcept h fun _ _ => trivial

theorem yields_anything {α : Type} (r : Except Error α) : Yields P (ofExcept r) fun _ => True :=
  yields_ofExcept fun _ _ => trivial

/-- What expressions ask is answered with values of the kinds that are foretold. -/
structure Answers (P : τ → Prop) (s : Surroundings σ (Run τ)) : Prop where
  query : ∀ q scope, Yields P (s.query q scope) fun _ => True
  call : ∀ name {kss args}, AmongAll kss args →
    Yields P (s.call name args) (Value.Among (callKinds name kss))

section

variable {scope : Scope}

theorem yields_evaluateAll {es : List (Expr σ)}
    (h : ∀ e ∈ es, Yields P (e.evaluate s scope) (Value.Among (e.kinds columns known))) :
    Yields P (evaluateAll s scope es) (AmongAll (listKinds columns known es)) := by
  induction es with
  | nil =>
    rw [evaluateAll, listKinds]
    exact ends_pure .nil
  | cons e es ih =>
    obtain ⟨he, hes⟩ := List.forall_mem_cons.mp h
    rw [evaluateAll, listKinds]
    exact he.bind fun v hv => (ih hes).bind fun vs hvs => ends_pure (.cons hv hvs)

theorem yields_evaluateOption {o : Option (Expr σ)}
    (h : ∀ e ∈ o, Yields P (e.evaluate s scope) (Value.Among (e.kinds columns known))) :
    Yields P (evaluateOption s scope o) fun v =>
      ∀ u ∈ v, u.Among (optionKinds columns known o) := by
  cases o with
  | none =>
    rw [evaluateOption]
    exact ends_pure fun _ h => absurd h (Option.not_mem_none _)
  | some e =>
    rw [evaluateOption, optionKinds]
    refine (h e rfl).bind fun v hv => ends_pure ?_
    rintro _ ⟨⟩
    exact hv

theorem yields_findIn {es : List (Expr σ)}
    (h : ∀ e ∈ es, Yields P (e.evaluate s scope) fun _ => True) (v : Value) (result : Truth) :
    Yields P (findIn s scope v result es) fun _ => True := by
  induction es generalizing result with
  | nil =>
    rw [findIn]
    exact ends_pure trivial
  | cons e es ih =>
    obtain ⟨he, hes⟩ := List.forall_mem_cons.mp h
    rw [findIn]
    refine he.bind fun w _ => (yields_anything _).bind fun order _ => ?_
    split
    · exact ends_pure trivial
    · exact ih hes result
    · exact ih hes none

/-- Whichever branch is taken, its result is of the kinds of some branch. -/
theorem yields_firstBranch {branches : List (Expr σ × Expr σ)}
    (hcondition : ∀ b ∈ branches, Yields P (b.1.evaluate s scope) fun _ => True)
    (hresult : ∀ b ∈ branches,
      Yields P (b.2.evaluate s scope) (Value.Among (b.2.kinds columns known)))
    (operand : Option Value) :
    Yields P (firstBranch s scope operand branches) fun v =>
      ∀ u ∈ v, u.Among (branchKinds columns known branches) := by
  induction branches with
  | nil =>
    rw [firstBranch]
    exact ends_pure fun _ h => absurd h (Option.not_mem_none _)
  | cons branch branches ih =>
    rcases branch with ⟨condition, result⟩
    obtain ⟨hc, hcs⟩ := List.forall_mem_cons.mp hcondition
    obtain ⟨hr, hrs⟩ := List.forall_mem_cons.mp hresult
    rw [firstBranch, branchKinds]
    refine hc.bind fun _ _ => (yields_anything _).bind fun taken _ => ?_
    refine ends_ite (hr.bind fun v hv => ends_pure ?_) ?_
    · rintro _ ⟨⟩
      exact hv.mono (List.subset_append_left _ _)
    · refine (ih hcs hrs).mono (fun v hv u hu => ?_) fun _ h => h
      exact (hv u hu).mono (List.subset_append_right _ _)

theorem yields_unary (op : UnaryOp) {e : Expr σ}
    (he : Yields P (e.evaluate s scope) (Value.Among (e.kinds columns known))) :
    Yields P ((unary op e).evaluate s scope) (Value.Among ((unary op e).kinds columns known)) := by
  cases op with
  | not =>
    rw [evaluate, kinds]
    exact he.bind fun _ _ => (yields_anything _).bind fun t _ => ends_pure (Value.among_toValue _)
  | minus | plus =>
    rw [evaluate, kinds]
    · exact he.bind fun v hv => yields_ofExcept (UnaryOp.gives_apply (by decide) hv)
    all_goals exact UnaryOp.noConfusion

theorem yields_binary (op : BinaryOp) {l r : Expr σ}
    (hl : Yields P (l.evaluate s scope) (Value.Among (l.kinds columns known)))
    (hr : Yields P (r.evaluate s scope) (Value.Among (r.kinds columns known))) :
    Yields P ((binary op l r).evaluate s scope)
      (Value.Among ((binary op l r).kinds columns known)) := by
  rw [kinds]
  cases op <;> rw [evaluate]
  -- these two may be decided by their left side
  case and | or =>
    refine hl.bind fun _ _ => (yields_anything _).bind fun a _ => ends_ite ?_ ?_
    · exact ends_pure (Value.among_boolean _)
    · exact hr.bind fun _ _ => (yields_anything _).bind fun b _ => ends_pure (Value.among_toValue _)
  all_goals first
    | exact hl.bind fun a ha => hr.bind fun b hb =>
        yields_ofExcept (BinaryOp.gives_apply _ ha hb)
    | exact BinaryOp.noConfusion

/-- A CASE comes to the result of a branch, to that of ELSE, or to NULL. -/
theorem yields_cases {operand otherwise : Option (Expr σ)} {branches : List (Expr σ × Expr σ)}
    (h : ∀ x ∈ (cases operand branches otherwise).operands,
      Yields P (x.evaluate s scope) (Value.Among (x.kinds columns known))) :
    Yields P ((cases operand branches otherwise).evaluate s scope)
      (Value.Among ((cases operand branches otherwise).kinds columns known)) := by
  have inside : ∀ x ∈ branches.flatMap (fun b => [b.1, b.2]),
      Yields P (x.evaluate s scope) (Value.Among (x.kinds columns known)) :=
    fun x hx => h x (List.mem_append_right _ (List.mem_append_left _ hx))
  have hcondition : ∀ b ∈ branches, Yields P (b.1.evaluate s scope) fun _ => True :=
    fun b hb => (inside b.1 (List.mem_flatMap.mpr ⟨b, hb, List.mem_cons_self⟩)).mono
      (fun _ _ => trivial) fun _ h => h
  have hresult : ∀ b ∈ branches,
      Yields P (b.2.evaluate s scope) (Value.Among (b.2.kinds columns known)) :=
    fun b hb => inside b.2 (List.mem_flatMap.mpr ⟨b, hb, by simp⟩)
  rw [evaluate, kinds]
  refine (yields_evaluateOption fun x hx => h x ?_).bind fun v _ => ?_
  · exact List.mem_append_left _ (Option.mem_toList.mpr hx)
  refine (yields_firstBranch hcondition hresult v).bind fun taken htaken => ?_
  cases taken with
  | some result => exact ends_pure ((htaken result rfl).mono (List.subset_append_left _ _))
  | none =>
    refine (yields_evaluateOption fun x hx => h x ?_).bind fun o ho => ends_pure ?_
    · exact List.mem_append_right _ (List.mem_append_right _ (Option.mem_toList.mpr hx))
    cases o with
    | none => exact Value.among_null _
    | some u => exact (ho u rfl).mono (List.subset_append_right _ _)

/-- The argument of an aggregate is evaluated in frames of the group's rows, which are as well known as
the frame itself. -/
theorem yields_aggregate {f : Frame} (hf : f.Knows columns known) (a : AggregateFunction)
    (distinct : Bool) {arg : Option (Expr σ)}
    (h : ∀ x ∈ (aggregate a distinct arg).operands, ∀ g : Frame, g.Knows columns known →
      Yields P (x.evaluate s (g :: outer)) (Value.Among (x.kinds columns known))) :
    Yields P ((aggregate a distinct arg).evaluate s (f :: outer))
      (Value.Among ((aggregate a distinct arg).kinds columns known)) := by
  rw [evaluate, show Scope.group? (f :: outer) = f.group from rfl]
  cases hgroup : f.group with
  | none => exact ends_throw trivial
  | some rows =>
    dsimp only
    cases arg with
    | none =>
      rw [kinds, evaluateRows]
      have hvalues : ∀ v ∈ rows.map fun _ => Value.boolean true, v.Among [.boolean] := by
        intro v hv
        obtain ⟨row, -, rfl⟩ := List.mem_map.mp hv
        exact Value.among_boolean true
      exact (ends_pure hvalues).bind fun vs hvs => yields_ofExcept (a.gives_reduce distinct hvs)
    | some e =>
      rw [kinds, evaluateRows]
      have hrow : ∀ row ∈ rows, (Frame.ofRow f.columns row).Knows columns known := fun row hrow =>
        ⟨hf.keys, hf.group rows hgroup row hrow, fun _ h => absurd h (Option.not_mem_none _)⟩
      refine (ends_mapM fun row hmem => h e (by simp [operands]) _ (hrow row hmem)).bind
        fun vs hvs => ?_
      exact yields_ofExcept (a.gives_reduce distinct hvs.2)

end

theorem gives_queryMembership (v : Value) (r : Relation) (negated : Bool) :
    Gives [.boolean] (queryMembership v r negated) := by
  unfold queryMembership
  split
  · exact gives_error _
  · exact gives_bind fun t => gives_ok (Value.among_negateIf (Value.among_toValue t) negated)

/-- An expression has values of its kinds. -/
theorem yields_evaluate (hs : Answers P s) (e : Expr σ) : ∀ f : Frame, f.Knows columns known →
    Yields P (e.evaluate s (f :: outer)) (Value.Among (e.kinds columns known)) := by
  induction e using induction_operands with
  | h e ih =>
  intro f hf
  -- many forms have values of kinds that do not depend on what stands inside them
  have any : ∀ x ∈ e.operands, Yields P (x.evaluate s (f :: outer)) fun _ => True :=
    fun x hx => (ih x hx f hf).mono (fun _ _ => trivial) fun _ h => h
  cases e with
  | literal v =>
    rw [evaluate, kinds]
    exact ends_pure fun t ht => Option.mem_toList.mpr ht
  | column table name =>
    rw [evaluate]
    exact yields_ofExcept fun v hv => hf.value hv
  | unary op e => exact yields_unary op (ih e (by simp [operands]) f hf)
  | binary op l r =>
    exact yields_binary op (ih l (by simp [operands]) f hf) (ih r (by simp [operands]) f hf)
  | isNull e negated =>
    rw [evaluate, kinds]
    exact (any e (by simp [operands])).bind fun _ _ => ends_pure (Value.among_boolean _)
  | inList e items negated =>
    rw [evaluate, kinds]
    refine (any e (by simp [operands])).bind fun v _ => ?_
    refine (yields_findIn (fun x hx => any x (List.mem_cons_of_mem e hx)) v _).bind fun t _ => ?_
    exact ends_pure (Value.among_negateIf (Value.among_toValue t) negated)
  | inQuery e q negated =>
    rw [evaluate, kinds]
    refine (any e (by simp [operands])).bind fun v _ => (hs.query q _).bind fun r _ => ?_
    exact yields_ofExcept (gives_queryMembership v r negated)
  | between e low high negated =>
    rw [evaluate, kinds]
    refine (any e (by simp [operands])).bind fun v _ => ?_
    refine (any low (by simp [operands])).bind fun l _ => ?_
    refine (any high (by simp [operands])).bind fun h _ => ?_
    refine (yields_ofExcept (gives_applyBetween v l h)).bind fun u hu => ?_
    exact ends_pure (Value.among_negateIf hu negated)
  | like e pattern negated ignoreCase =>
    rw [evaluate, kinds]
    refine (any e (by simp [operands])).bind fun v _ => ?_
    refine (any pattern (by simp [operands])).bind fun p _ => ?_
    refine (yields_ofExcept (gives_applyLike v p ignoreCase)).bind fun u hu => ?_
    exact ends_pure (Value.among_negateIf hu negated)
  | cases operand branches otherwise => exact yields_cases fun x hx => ih x hx f hf
  | cast e type =>
    rw [evaluate, kinds]
    refine (any e (by simp [operands])).bind fun v _ => yields_ofExcept (type.gives_convert v)
  | exists_ q =>
    rw [evaluate, kinds]
    exact (hs.query q _).bind fun r _ => ends_pure (Value.among_boolean _)
  | subquery q =>
    rw [evaluate, kinds]
    exact (hs.query q _).bind fun r _ => yields_ofExcept fun v _ => v.among_kinds
  | call name args =>
    rw [evaluate, kinds]
    exact (yields_evaluateAll fun x hx => ih x hx f hf).bind fun vs hvs => hs.call name hvs
  | aggregate a distinct arg => exact yields_aggregate hf a distinct fun x hx => ih x hx

/-- However evaluating an expression ends, the property of states is kept. -/
theorem Answers.yields_any (hs : Answers P s) (e : Expr σ) (scope : Scope) :
    Yields P (e.evaluate s scope) fun _ => True := by
  let L := ending P fun _ => True
  have hasks : e.Asks L s s := by
    refine ⟨fun q _ scope => hs.query q scope, fun name _ args => ?_⟩
    have hargs : AmongAll (args.map fun _ => DataType.kinds) args := by
      unfold AmongAll
      rw [List.forall₂_map_left_iff]
      exact List.forall₂_same.mpr fun v _ => v.among_kinds
    exact (hs.call name hargs).mono (fun _ _ => trivial) fun _ h => h
  exact Expr.parallel_evaluate (evaluable_of_asks (L := L) fun _ => trivial) e scope hasks

end Expr

end SqlStore
