import SqlStore.Proofs.Query.Everything
import SqlStore.Proofs.Query.Planned
import SqlStore.Proofs.Query.ResultKinds

/-!
# Types that planning infers

Planning gives a column a type where it finds one. It decides two things without the knowledge they need. A
concatenation with a side of unknown type is typed as text unless the other side is known to be a document,
and a merged column of a join has the type of the left side, though its values may come from the right.
`Expr.decided` and `Plan.decided` say that the decision can not be wrong, by the kinds of what is
concatenated or merged. Everything else is sound: `Plan.typed_ofSelect`.
-/

namespace SqlStore

/-! ## Expressions -/

/-- From known types the kind of a concatenation is inferred. -/
theorem kind_concatType {s t k : DataType} (h : DataType.concatKind? s.kind t.kind = some k) :
    (Expr.concatType (some s) (some t)).kind = k := by
  cases s <;> cases t <;> cases h <;> rfl

/-- The kinds of the values in a column of known type are that type's. -/
def TypesHold (columns : List ResultColumn) (known : List (List DataType)) : Prop :=
  List.Forall₂ (fun c ks => ∀ t, c.datatype = some t → ks ⊆ [t.kind]) columns known

theorem TypesHold.getD {columns : List ResultColumn} {known : List (List DataType)}
    (h : TypesHold columns known) {i : Nat} {c : ResultColumn} {t : DataType}
    (hc : columns[i]? = some c) (ht : c.datatype = some t) (default : List DataType) :
    known.getD i default ⊆ [t.kind] := by
  obtain ⟨hlength, hget⟩ := List.forall₂_iff_get.mp h
  obtain ⟨hi, rfl⟩ := List.getElem?_eq_some_iff.mp hc
  have hi' : i < known.length := by omega
  rw [List.getD_eq_getElem?_getD, List.getElem?_eq_getElem hi']
  exact hget i hi hi' t ht

namespace Expr

variable {σ : Type} {columns : List ResultColumn} {known : List (List DataType)}

/-- Whether the type that planning gives an expression can not be wrong: a concatenation with a side of
unknown type is of no other kind. -/
def decided (columns : List ResultColumn) (known : List (List DataType)) : Expr σ → Bool
  | unary .not _ => true
  | unary _ e => e.decided columns known
  | binary .concat l r =>
    l.decided columns known && r.decided columns known &&
      ((l.type? columns).isSome && (r.type? columns).isSome ||
        ((binary .concat l r).kinds columns known).all
          (· == (concatType (l.type? columns) (r.type? columns)).kind))
  | aggregate .min _ (some e) | aggregate .max _ (some e) => e.decided columns known
  | _ => true

theorem kinds_concat_subset {ks ls : List DataType} {s t : DataType} (hks : ks ⊆ [s.kind])
    (hls : ls ⊆ [t.kind]) :
    BinaryOp.concat.kinds ks ls ⊆ [(concatType (some s) (some t)).kind] := by
  intro k hk
  obtain ⟨x, hx, hk⟩ := List.mem_flatMap.mp hk
  obtain ⟨y, hy, hk⟩ := List.mem_filterMap.mp hk
  cases List.mem_singleton.mp (hks hx)
  cases List.mem_singleton.mp (hls hy)
  exact List.mem_singleton.mpr (kind_concatType hk).symm

/-- If the expression is decided and has a type, then its values are of that type's kind. -/
def WellTyped (columns : List ResultColumn) (known : List (List DataType)) (e : Expr σ) : Prop :=
  ∀ t, e.decided columns known = true → e.type? columns = some t → e.kinds columns known ⊆ [t.kind]

theorem wellTyped_column (h : TypesHold columns known) (table : Option String) (name : String) :
    WellTyped columns known (column table name : Expr σ) := by
  intro t _ ht
  rw [type?] at ht
  rw [kinds]
  split at ht
  · next i hfound =>
    rw [hfound]
    obtain ⟨c, hc, ht⟩ := Option.bind_eq_some_iff.mp ht
    exact h.getD hc ht _
  · cases ht

/-- A sign keeps the type, and the kinds but for those that have no sign. -/
theorem WellTyped.unary {e : Expr σ} (he : e.WellTyped columns known) (op : UnaryOp) :
    WellTyped columns known (unary op e) := by
  intro t hdecided ht
  cases op with
  | not =>
    rw [type?] at ht
    rw [kinds]
    cases ht
    exact List.Subset.refl _
  | minus | plus =>
    have hinner : e.kinds columns known ⊆ [t.kind] := by
      rw [decided] at hdecided
      · rw [type?] at ht
        · exact he t hdecided ht
        · exact UnaryOp.noConfusion
      · exact UnaryOp.noConfusion
    rw [kinds]
    · exact List.Subset.trans (List.filter_subset_self _) hinner
    · exact UnaryOp.noConfusion

/-- The one operator whose type rests on those of its sides is concatenation. It is decided if both sides
have a type, or if it has values of no other kind than the one inferred. -/
theorem WellTyped.binary {l r : Expr σ} (hl : l.WellTyped columns known)
    (hr : r.WellTyped columns known) (op : BinaryOp) : WellTyped columns known (binary op l r) := by
  intro t hdecided ht
  cases op with
  | concat =>
    rw [decided, Bool.and_eq_true, Bool.and_eq_true, Bool.or_eq_true, Bool.and_eq_true] at hdecided
    obtain ⟨⟨hdl, hdr⟩, hknown | honly⟩ := hdecided
    · obtain ⟨⟨s, hs⟩, ⟨u, hu⟩⟩ := hknown.imp Option.isSome_iff_exists.mp Option.isSome_iff_exists.mp
      rw [type?, hs, hu] at ht
      cases ht
      rw [kinds]
      exact kinds_concat_subset (hl s hdl hs) (hr u hdr hu)
    · rw [type?] at ht
      cases ht
      intro k hk
      exact List.mem_singleton.mpr (eq_of_beq (List.all_eq_true.mp honly k hk))
  | _ =>
    rw [type?] at ht
    rw [kinds]
    cases ht <;> exact List.Subset.refl _

/-- Counts are integers, extremes have the type of what they are taken of, and sums and averages have none
in planning. -/
theorem wellTyped_aggregate {arg : Option (Expr σ)} (harg : ∀ e ∈ arg, e.WellTyped columns known)
    (f : AggregateFunction) (distinct : Bool) :
    WellTyped columns known (aggregate f distinct arg) := by
  intro t hdecided ht
  cases f with
  | count =>
    rw [type?] at ht
    cases ht
    cases arg <;> rw [kinds] <;> exact List.Subset.refl _
  | sum | avg =>
    rw [type?] at ht
    · cases ht
    all_goals simp
  | min | max =>
    cases arg with
    | none =>
      rw [type?] at ht
      · cases ht
      all_goals simp
    | some e =>
      rw [type?] at ht
      rw [decided] at hdecided
      rw [kinds]
      exact harg e rfl t hdecided ht

/-- A decided expression has values of the kind of its type. -/
theorem wellTyped_of_typesHold (h : TypesHold columns known) (e : Expr σ) :
    e.WellTyped columns known := by
  induction e using induction_operands with
  | h e ih =>
  cases e with
  | literal v =>
    intro t _ ht
    rw [type?] at ht
    rw [kinds, ht, DataType.kind_of_datatype ht]
    exact List.Subset.refl _
  | column table name => exact wellTyped_column h table name
  | unary op e => exact (ih e (by simp [operands])).unary op
  | binary op l r => exact (ih l (by simp [operands])).binary (ih r (by simp [operands])) op
  | isNull _ _ | inList _ _ _ | inQuery _ _ _ | between _ _ _ _ | like _ _ _ _ | exists_ _ | cast _ _ =>
    intro t _ ht
    rw [type?] at ht
    rw [kinds]
    cases ht
    exact List.Subset.refl _
  | cases _ _ _ | subquery _ =>
    intro t _ ht
    rw [type?] at ht
    cases ht
  | call name args =>
    intro t _ ht
    rw [type?] at ht
    rw [kinds, callKinds, ht]
    exact List.Subset.refl _
  | aggregate f distinct arg =>
    exact wellTyped_aggregate (fun x hx => ih x (by simpa [operands] using hx)) f distinct

end Expr

/-! ## Outputs -/

/-- The column of a result has the type of its expression, or it is one of the source. -/
def Output.Inferred (columns : List ResultColumn) (o : Output) : Prop :=
  o.column.datatype = o.expr.type? columns ∨ ∃ c ∈ columns, o = ofColumn c

namespace Output

variable {columns : List ResultColumn} {known : List (List DataType)}

/-- A reference that is not ambiguous finds a column that it fits. -/
theorem resolve_of_mem {c : ResultColumn} (hc : c ∈ columns) {found : Option Nat}
    (h : ResultColumn.resolve columns c.table c.name = .ok found) :
    ∃ i, found = some i ∧ columns[i]? = some c := by
  have hself : ResultColumn.fits c.table c.name c = true := by simp [ResultColumn.fits]
  obtain ⟨j, hj, rfl⟩ := List.getElem_of_mem hc
  have hfound := h
  unfold ResultColumn.resolve at h
  split at h
  · next hnone =>
    have hmiss := List.findIdx?_eq_none_iff.mp hnone columns[j] hc
    rw [hself] at hmiss
    cases hmiss
  · next i hi =>
    split at h
    · cases h
    · cases h
      obtain ⟨hlt, hfits, -⟩ := List.findIdx?_eq_some_iff_getElem.mp hi
      -- were they at two places, the reference would be ambiguous
      rcases Nat.lt_trichotomy i j with hij | rfl | hji
      · rw [ResultColumn.resolve_of_fits hij hj hfits hself] at hfound
        cases hfound
      · exact ⟨i, rfl, List.getElem?_eq_getElem hj⟩
      · rw [ResultColumn.resolve_of_fits hji hlt hself hfits] at hfound
        cases hfound

/-- The values of a result are of the kind of its column's type. -/
theorem Inferred.kinds_subset {o : Output} (ho : o.Inferred columns) (h : TypesHold columns known)
    (hdecided : o.expr.decided columns known = true) {t : DataType}
    (ht : o.column.datatype = some t) : o.expr.kinds columns known ⊆ [t.kind] := by
  rcases ho with htype | ⟨c, hc, rfl⟩
  · exact Expr.wellTyped_of_typesHold h o.expr t hdecided (htype ▸ ht)
  · show Expr.kinds columns known (.column c.table c.name) ⊆ _
    rw [Expr.kinds]
    cases hfound : ResultColumn.resolve columns c.table c.name with
    | error err => exact List.nil_subset _
    | ok found =>
      obtain ⟨i, rfl, hi⟩ := resolve_of_mem hc hfound
      exact h.getD hi ht _

end Output

namespace Plan

theorem Clauses.Checked.inferred {body : SelectBody Select} {sources : Plan} {outer : Scope}
    {c : Clauses} (h : c.Checked body sources outer) :
    ∀ o ∈ c.outputs, o.Inferred sources.columns := by
  obtain ⟨hidden, houtputs, hhidden, -⟩ := exists_of_sortKeys h.sorting (Nat.le_refl _)
  rw [houtputs]
  refine List.forall_mem_append.mpr ⟨fun o ho => ?_, fun o ho => .inl (hhidden o ho).2.2⟩
  obtain ⟨item, -, hitem⟩ := h.exists_item ho
  exact hitem.imp (fun hexpr => hexpr.2.2) And.right

/-! ## Plans -/

/-- Whether the types that a step gives its columns can not be wrong: its outputs are decided, and merged
columns that may have values of the right side are of no other kind there. -/
def decided : Plan → Bool
  | join kind left right _ merged => !kind.keepsRight || merged.all fun places =>
    match left.columns[places.1]?.bind (·.datatype), right.kinds[places.2]? with
    | some t, some ks => ks.all (· == t.kind)
    | _, _ => true
  | project source outputs | group source _ _ outputs =>
    outputs.all fun o => o.expr.decided source.columns source.kinds
  | _ => true

/-- Where every step of a plan is decided, its columns have values of the kinds of their types. -/
def Typed (p : Plan) : Prop :=
  (∀ node ∈ p.nodes, node.decided = true) → TypesHold p.columns p.kinds

theorem typed_outputs {source p : Plan} {outputs : List Output} (hsource : source.Typed)
    (houtputs : ∀ o ∈ outputs, o.Inferred source.columns)
    (hnodes : p.nodes = p :: source.nodes)
    (hdecided : p.decided = outputs.all fun o => o.expr.decided source.columns source.kinds)
    (hcolumns : p.columns = outputs.map Output.column)
    (hkinds : p.kinds = outputs.map fun o => o.expr.kinds source.columns source.kinds) : p.Typed := by
  intro hall
  rw [hnodes] at hall
  obtain ⟨hp, hbelow⟩ := List.forall_mem_cons.mp hall
  rw [hdecided] at hp
  unfold TypesHold
  rw [hcolumns, hkinds, List.forall₂_map_left_iff, List.forall₂_map_right_iff]
  refine List.forall₂_same.mpr fun o ho t ht => ?_
  exact (houtputs o ho).kinds_subset (hsource hbelow) (List.all_eq_true.mp hp o ho) ht

theorem typesHold_of_datatypes {cs ds : List ResultColumn} {known : List (List DataType)}
    (h : TypesHold cs known)
    (htypes : ds.map ResultColumn.datatype = cs.map ResultColumn.datatype) : TypesHold ds known := by
  let Holds (d : Option DataType) (ks : List DataType) : Prop := ∀ t, d = some t → ks ⊆ [t.kind]
  have hiff (columns : List ResultColumn) : TypesHold columns known ↔
      List.Forall₂ Holds (columns.map ResultColumn.datatype) known := by
    rw [List.forall₂_map_left_iff]
    rfl
  rw [hiff, htypes, ← hiff]
  exact h

/-- A step that keeps the types of the columns below it. -/
theorem Typed.step {source p : Plan} (h : source.Typed) (hnodes : p.nodes = p :: source.nodes)
    (htypes : p.columns.map ResultColumn.datatype = source.columns.map ResultColumn.datatype)
    (hkinds : p.kinds = source.kinds) : p.Typed := by
  intro hall
  rw [hnodes] at hall
  rw [hkinds]
  exact typesHold_of_datatypes (h (List.forall_mem_cons.mp hall).2) htypes

theorem Typed.join {left right : Plan} (hl : left.Typed) (hr : right.Typed) (kind : JoinKind)
    (predicate : Option Expression) (merged : List (Nat × Nat)) :
    (join kind left right predicate merged).Typed := by
  intro hall
  obtain ⟨hown, hbelow⟩ := List.forall_mem_cons.mp hall
  obtain ⟨hleft, hright⟩ := List.forall_mem_append.mp hbelow
  refine forall₂_joinLayout (hl hleft) (hr hright) ?_
  intro places hplaces c d ks ls hc _ hci _ _ hlj t ht
  split
  · next hkeeps =>
    -- values of the right side may stand in the column, and they are of no other kind
    rw [decided, hkeeps, Bool.not_true, Bool.false_or] at hown
    have honly := List.all_eq_true.mp hown places hplaces
    have hbind : left.columns[places.1]?.bind (·.datatype) = some t := by rw [hci]; exact ht
    rw [hbind, hlj] at honly
    refine List.append_subset.mpr ⟨hc t ht, fun k hk => ?_⟩
    exact List.mem_singleton.mpr (eq_of_beq (List.all_eq_true.mp honly k hk))
  · exact hc t ht

theorem typed_clauses {body : SelectBody Select} {sources : Plan} {outer : Scope} {c : Clauses}
    (hc : c.Checked body sources outer) (h : sources.Typed) : (c.plan body sources).Typed := by
  have hsource : (Clauses.source body sources).Typed ∧
      (Clauses.source body sources).columns = sources.columns := by
    unfold Clauses.source
    split
    · exact ⟨h, rfl⟩
    · exact ⟨h.step rfl rfl rfl, rfl⟩
  have houtputs : ∀ o ∈ c.outputs, o.Inferred (Clauses.source body sources).columns := by
    rw [hsource.2]
    exact hc.inferred
  have hresults : (c.results body sources).Typed := by
    unfold Clauses.results
    split
    · exact typed_outputs hsource.1 houtputs rfl rfl rfl rfl
    · exact typed_outputs hsource.1 houtputs rfl rfl rfl rfl
  refine Clauses.finish_of hresults ?_ ?_ ?_ ?_ id ?_
  · exact fun hp => hp.step rfl rfl rfl
  · exact fun hp => hp.step rfl rfl rfl
  · exact fun e _ hp => hp.step rfl rfl rfl
  · exact fun e _ hp => hp.step rfl rfl rfl
  · intro p hp _ hall
    exact List.forall₂_take _ (hp (List.forall_mem_cons.mp hall).2)

/-- A planned query whose steps are decided has values of the kinds of its types. -/
theorem typed_ofSelect {catalog : Catalog} {outer : Scope} {q : Select} {p : Plan}
    (h : Plan.ofSelect catalog outer q = .ok p) : p.Typed := by
  have hplanned : Planned catalog outer (fun _ => True) Typed :=
    { singleRow := fun _ => .nil
      scan := by
        intro body name d label _ _ _ _
        show List.Forall₂ _ (d.columns.map _) (d.columns.map _)
        rw [List.forall₂_map_left_iff, List.forall₂_map_right_iff]
        refine List.forall₂_same.mpr fun c _ t ht => ?_
        cases ht
        exact List.Subset.refl _
      derived := by
        intro p label hp
        refine hp.step rfl ?_ rfl
        show (relabel label p.columns).map _ = _
        rw [relabel, List.map_map]
        rfl
      cross := fun hl hr => hl.join hr _ _ _
      join := fun _ _ _ hl hr => hl.join hr _ _ _
      clauses := fun _ hc hs => typed_clauses hc hs }
  exact hplanned.ofSelect q (fun _ _ => trivial) h

end Plan

end SqlStore
