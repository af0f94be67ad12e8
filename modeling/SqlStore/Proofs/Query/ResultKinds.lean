import SqlStore.Proofs.Query.Kinds
import SqlStore.Proofs.Query.Supported

/-!
# Kinds of results

`Plan.kinds` finds the kinds of the values in the columns of a plan, from its sources up: `Plan.yields_run`
says that a plan has no others, if tables have none but those of their columns. A merged column of a join
that keeps rows of its right side is of the kinds of both sides; elsewhere a pair of rows only comes about
where the left side has a value, so that the kinds of the left side do.
-/

namespace SqlStore

open Run

/-! ## Joins -/

section

variable {α β : Type}

theorem mem_withoutPlaces {places : List Nat} {xs : List α} {x : α} (h : x ∈ withoutPlaces places xs) :
    x ∈ xs := by
  obtain ⟨⟨y, i⟩, hy, rfl⟩ := List.mem_map.mp h
  exact List.fst_mem_of_mem_zipIdx (List.mem_filter.mp hy).1

/-- The layout of a join holds picks of merged places and members of both sides. -/
theorem of_mem_joinLayout {pick : α → α → α} {merged : List (Nat × Nat)} {left right : List α} {x : α}
    (h : x ∈ joinLayout pick merged left right) :
    (∃ places ∈ merged, ∃ a b, left[places.1]? = some a ∧ right[places.2]? = some b ∧ x = pick a b) ∨
      x ∈ left ∨ x ∈ right := by
  unfold joinLayout at h
  rcases List.mem_append.mp h with h | h
  · obtain ⟨places, hplaces, hx⟩ := List.mem_filterMap.mp h
    dsimp only at hx
    split at hx
    · next a b ha hb => exact Or.inl ⟨places, hplaces, a, b, ha, hb, (Option.some.inj hx).symm⟩
    · cases hx
  · rcases List.mem_append.mp h with h | h
    · exact Or.inr (Or.inl (mem_withoutPlaces h))
    · exact Or.inr (Or.inr (mem_withoutPlaces h))

theorem exists_of_forall₂ {R : α → β → Prop} {xs : List α} {ys : List β} (h : List.Forall₂ R xs ys) :
    ∃ zs : List (α × β), zs.map Prod.fst = xs ∧ zs.map Prod.snd = ys ∧ ∀ z ∈ zs, R z.1 z.2 :=
  ⟨xs.zip ys, List.map_fst_zip h.length_eq.le, List.map_snd_zip h.length_eq.ge,
    fun _ hz => (List.forall₂_iff_zip.mp h).2 hz⟩

/-- What relates both sides of two joins, and what they pick, relates the joins. -/
theorem forall₂_joinLayout {R : α → β → Prop} {pick : α → α → α} {pick' : β → β → β}
    {merged : List (Nat × Nat)} {left right : List α} {left' right' : List β}
    (hleft : List.Forall₂ R left left') (hright : List.Forall₂ R right right')
    (hpick : ∀ places ∈ merged, ∀ a b x y, R a x → R b y → left[places.1]? = some a →
      right[places.2]? = some b → left'[places.1]? = some x → right'[places.2]? = some y →
        R (pick a b) (pick' x y)) :
    List.Forall₂ R (joinLayout pick merged left right) (joinLayout pick' merged left' right') := by
  -- both layouts are sides of a layout of pairs
  obtain ⟨lefts, rfl, rfl, hlefts⟩ := exists_of_forall₂ hleft
  obtain ⟨rights, rfl, rfl, hrights⟩ := exists_of_forall₂ hright
  let both := joinLayout (fun z w => (pick z.1 w.1, pick' z.2 w.2)) merged lefts rights
  have hfirst : both.map Prod.fst =
      joinLayout pick merged (lefts.map Prod.fst) (rights.map Prod.fst) :=
    map_joinLayout (fun _ _ => rfl) merged lefts rights
  have hsecond : both.map Prod.snd =
      joinLayout pick' merged (lefts.map Prod.snd) (rights.map Prod.snd) :=
    map_joinLayout (fun _ _ => rfl) merged lefts rights
  rw [← hfirst, ← hsecond, List.forall₂_map_left_iff, List.forall₂_map_right_iff]
  refine List.forall₂_same.mpr fun z hz => ?_
  rcases of_mem_joinLayout hz with ⟨places, hplaces, a, b, ha, hb, rfl⟩ | hz | hz
  · refine hpick places hplaces a.1 b.1 a.2 b.2 (hlefts a (List.mem_of_getElem? ha))
      (hrights b (List.mem_of_getElem? hb)) ?_ ?_ ?_ ?_
    all_goals simp [ha, hb]
  · exact hlefts z hz
  · exact hrights z hz

end

/-- Rows that agree have a value in each merged place of the left side. -/
theorem not_null_of_agree {l r : Tuple} {merged : List (Nat × Nat)} (h : agree l r merged = .ok true) :
    ∀ places ∈ merged, l.getD places.1 .null ≠ .null := by
  induction merged with
  | nil => exact fun _ hplaces => nomatch hplaces
  | cons places rest ih =>
    rcases places with ⟨i, j⟩
    obtain ⟨order, horder, h⟩ := Except.exists_of_bind_eq_ok h
    split at h
    · next hequal =>
      refine List.forall_mem_cons.mpr ⟨fun hnull => ?_, ih h⟩
      dsimp only at hnull
      rw [hnull] at horder
      cases horder
      cases hequal
    · cases h

/-- The rows of a join: of pairs that match, of left rows beside NULLs, and of right rows beside NULLs
where such are kept. -/
theorem of_mem_joinedRows {kind : JoinKind} {merged : List (Nat × Nat)} {leftWidth rightWidth : Nat}
    {lefts rights : List Tuple} {hits : List (List Bool)} {row : Tuple}
    (h : row ∈ joinedRows kind merged leftWidth rightWidth lefts rights hits) :
    (∃ l r hs, (l, hs) ∈ lefts.zip hits ∧ (r, true) ∈ rights.zip hs ∧ row = joinRow merged l r) ∨
      (∃ l ∈ lefts, row = joinRow merged l (List.replicate rightWidth .null)) ∨
        (kind.keepsRight = true ∧
          ∃ r ∈ rights, row = joinRow merged (List.replicate leftWidth .null) r) := by
  unfold joinedRows at h
  dsimp only at h
  rcases List.mem_append.mp h with h | h
  · obtain ⟨⟨l, hs⟩, hl, h⟩ := List.mem_flatMap.mp h
    dsimp only at h
    split at h
    · exact Or.inr (Or.inl ⟨l, (List.of_mem_zip hl).1, List.mem_singleton.mp h⟩)
    · obtain ⟨⟨r, hit⟩, hr, rfl⟩ := List.mem_map.mp h
      obtain ⟨hr, rfl : hit = true⟩ := List.mem_filter.mp hr
      exact Or.inl ⟨l, r, hs, hl, hr, rfl⟩
  · split at h
    · next hkeeps =>
      obtain ⟨⟨r, j⟩, hr, rfl⟩ := List.mem_map.mp h
      have hmem := List.fst_mem_of_mem_zipIdx (List.mem_filter.mp hr).1
      exact Or.inr (Or.inr ⟨hkeeps, r, hmem, rfl⟩)
    · cases h

/-! ## Plans -/

namespace Plan

/-- The kinds of the values in the columns of a plan. -/
def kinds : Plan → List (List DataType)
  | singleRow => []
  | scan table _ => table.columns.map fun c => [c.datatype.kind]
  | join kind left right _ merged =>
    joinLayout (fun ks ls => if kind.keepsRight then ks ++ ls else ks) merged left.kinds right.kinds
  | derived source _ | filter source _ | distinct source | order source _ | offset source _
  | limit source _ => source.kinds
  | project source outputs | group source _ _ outputs =>
    outputs.map fun o => o.expr.kinds source.columns source.kinds
  | truncate source width => source.kinds.take width

theorem length_kinds (p : Plan) : p.kinds.length = p.columns.length := by
  induction p with
  | singleRow => rfl
  | scan table label => simp [kinds, columns, TableDefinition.resultColumns]
  | derived source label ih => simpa [kinds, columns, relabel] using ih
  | join kind left right predicate merged ihl ihr => exact length_joinLayout _ _ merged ihl ihr
  | project source outputs ih | group source keys having outputs ih => simp [kinds, columns]
  | filter source e ih | distinct source ih | order source keys ih | offset source e ih
  | limit source e ih => exact ih
  | truncate source width ih => simp [kinds, columns, ih]

end Plan

/-- The relation is one of the plan's results, with values of the kinds that are known of them. -/
structure Relation.Knows (r : Relation) (p : Plan) : Prop where
  fits : r.Fits p.columns
  rows : ∀ row ∈ r.rows, AmongAll p.kinds row

namespace Relation.Knows

variable {l r : Relation} {p left right : Plan}

/-- Fewer rows, as results of a plan with the same columns. -/
theorem subset {q : Plan} (h : r.Knows p) {rows : List Tuple}
    (hrows : ∀ row ∈ rows, row ∈ r.rows) (hcolumns : q.columns = p.columns)
    (hkinds : q.kinds = p.kinds) :
    Relation.Knows ⟨r.columns, rows⟩ q := by
  refine ⟨hcolumns ▸ h.fits.subset hrows, fun row hrow => ?_⟩
  rw [hkinds]
  exact h.rows row (hrows row hrow)

theorem frame (h : r.Knows p) {row : Tuple} (hrow : row ∈ r.rows) :
    (Frame.ofRow r.columns row).Knows p.columns p.kinds :=
  ⟨h.fits.keys, h.rows row hrow, nofun⟩

theorem amongAll_nulls (known : List (List DataType)) {n : Nat} (hn : known.length = n) :
    AmongAll known (List.replicate n .null) := by
  subst hn
  unfold AmongAll
  induction known with
  | nil => exact .nil
  | cons ks known ih => exact .cons (Value.among_null ks) ih

theorem nulls (h : r.Knows p) : AmongAll p.kinds (List.replicate r.columns.length .null) :=
  amongAll_nulls p.kinds (by rw [p.length_kinds, ResultColumn.length_of_keys h.fits.keys])

/-- The frame of a group; one without rows has NULLs in its columns. -/
theorem groupFrame (h : r.Knows p) {rows : List Tuple} (hrows : ∀ row ∈ rows, row ∈ r.rows) :
    Frame.Knows ⟨r.columns, rows.headD (List.replicate r.columns.length .null), some rows⟩ p.columns
      p.kinds := by
  refine ⟨h.fits.keys, ?_, ?_⟩
  · cases rows with
    | nil => exact h.nulls
    | cons row rows => exact h.rows row (hrows row List.mem_cons_self)
  · rintro _ ⟨⟩ row hrow
    exact h.rows row (hrows row hrow)

/-- A row of a join, of two rows of which the left one has a value in the merged places, or the right one
has none, unless rows of the right side are kept. -/
theorem joinRow {kind : JoinKind} {merged : List (Nat × Nat)} {x y : Tuple}
    {predicate : Option Expression} (hx : AmongAll left.kinds x) (hy : AmongAll right.kinds y)
    (h : kind.keepsRight = true ∨ (∀ places ∈ merged, x.getD places.1 .null ≠ .null) ∨
      ∀ v ∈ y, v = .null) :
    AmongAll (left.join kind right predicate merged).kinds (SqlStore.joinRow merged x y) := by
  refine forall₂_joinLayout hx hy fun places hplaces ks ls v w hv hw _ _ hleft hright => ?_
  show Value.Among (if kind.keepsRight then ks ++ ls else ks) (mergeValues v w)
  by_cases hnull : v = .null
  · rw [mergeValues, if_pos (Value.isNull_iff.mpr hnull)]
    rcases h with hkeeps | hpresent | habsent
    · rw [if_pos hkeeps]
      exact hw.mono (List.subset_append_right _ _)
    · refine absurd ?_ (hpresent places hplaces)
      rw [List.getD_eq_getElem?_getD, hleft, hnull]
      rfl
    · rw [habsent w (List.mem_of_getElem? hright)]
      exact Value.among_null _
  · rw [mergeValues, if_neg (Value.isNull_iff.not.mpr hnull)]
    refine hv.mono ?_
    split
    · exact List.subset_append_left _ _
    · exact fun _ h => h

theorem join {hits : List (List Bool)} (hl : l.Knows left) (hr : r.Knows right) (kind : JoinKind)
    (predicate : Option Expression) {merged : List (Nat × Nat)}
    (hhits : List.Forall₂ (fun x hs => List.Forall₂
      (fun y hit => hit = true → agree x y merged = .ok true) r.rows hs) l.rows hits) :
    Relation.Knows ⟨joinColumns merged l.columns r.columns,
      joinedRows kind merged l.columns.length r.columns.length l.rows r.rows hits⟩
        (left.join kind right predicate merged) := by
  refine ⟨hl.fits.join hr.fits kind merged hits, fun row hrow => ?_⟩
  rcases of_mem_joinedRows hrow with ⟨x, y, hs, hx, hy, rfl⟩ | ⟨x, hx, rfl⟩ | ⟨hkeeps, y, hy, rfl⟩
  · have hagree := (List.forall₂_iff_zip.mp ((List.forall₂_iff_zip.mp hhits).2 hx)).2 hy rfl
    exact joinRow (hl.rows x (List.of_mem_zip hx).1) (hr.rows y (List.of_mem_zip hy).1)
      (Or.inr (Or.inl (not_null_of_agree hagree)))
  · exact joinRow (hl.rows x hx) hr.nulls (Or.inr (Or.inr fun v => List.eq_of_mem_replicate))
  · exact joinRow hl.nulls (hr.rows y hy) (Or.inl hkeeps)

end Relation.Knows

namespace Run

variable {τ α β : Type} {P : τ → Prop} {E : Error → Prop}

/-- Each result of a loop has what the call for its member gives. -/
theorem ends_mapM_forall₂ {f : α → Run τ β} {Q : α → β → Prop} {xs : List α}
    (h : ∀ a ∈ xs, Ends P (f a) (Q a) E) : Ends P (xs.mapM f) (List.Forall₂ Q xs) E := by
  induction xs with
  | nil => exact ends_pure .nil
  | cons x xs ih =>
    obtain ⟨hx, hxs⟩ := List.forall_mem_cons.mp h
    rw [List.mapM_cons]
    exact hx.bind fun b hb => (ih hxs).bind fun bs hbs => ends_pure (.cons hb hbs)

end Run

namespace Plan

open SqlStore.Expr (Yields Answers yields_evaluate yields_ofExcept)

variable {τ : Type} {P : τ → Prop} {a : Access (Run τ)} {outer : Scope}
variable {l r : Relation} {p left right : Plan}

theorem yields_holds (ha : Answers P a.toSurroundings) (e : Expression) (scope : Scope)
    (clause : String) : Yields P (e.holds a.toSurroundings scope clause) fun _ => True :=
  ends_holds (operations_of_forall fun _ => trivial) (ha.yields_any e scope) clause

theorem yields_joinRelations (ha : Answers P a.toSurroundings) (hl : l.Knows left)
    (hr : r.Knows right) (kind : JoinKind) (predicate : Option Expression)
    (merged : List (Nat × Nat)) :
    Yields P (joinRelations a outer kind predicate merged l r)
      (·.Knows (left.join kind right predicate merged)) := by
  refine (ends_mapM_forall₂ fun x _ => ends_mapM_forall₂ fun y _ => ?_).bind fun hits hhits =>
    ends_pure (hl.join hr kind predicate hhits)
  -- a pair that is kept agrees in the merged columns
  refine (yields_ofExcept (Q := fun agrees => agree x y merged = .ok agrees) fun _ h => h).bind
    fun agrees hagrees => ?_
  cases agrees with
  | false => exact ends_pure fun h => nomatch h
  | true =>
    cases predicate with
    | none => exact ends_pure fun _ => hagrees
    | some e => exact (yields_holds ha e _ _).mono (fun _ _ _ => hagrees) fun _ h => h

theorem yields_outputRow (ha : Answers P a.toSurroundings) {f : Frame}
    (hf : f.Knows p.columns p.kinds) (outputs : List Output) :
    Yields P (outputRow a (f :: outer) outputs)
      (AmongAll (outputs.map fun o => o.expr.kinds p.columns p.kinds)) := by
  refine (ends_mapM_forall₂ fun o _ => yields_evaluate ha o.expr f hf).mono (fun row hrow => ?_)
    fun _ h => h
  exact List.forall₂_map_left_iff.mpr hrow

theorem yields_groupOutput (ha : Answers P a.toSurroundings) (hr : r.Knows p)
    (having : Option Expression) (outputs : List Output) {rows : List Tuple}
    (hrows : ∀ row ∈ rows, row ∈ r.rows) :
    Yields P (groupOutput a outer r.columns having outputs rows) fun result =>
      ∀ row ∈ result, AmongAll (outputs.map fun o => o.expr.kinds p.columns p.kinds) row :=
  ends_group (fun e _ => yields_holds ha e _ "HAVING")
    (yields_outputRow ha (hr.groupFrame hrows) outputs)

/-- Rows of outputs are the results of a plan that lays these outputs over another one. -/
theorem knows_outputs {outputs : List Output} {rows : List Tuple} (hcolumns : p.columns =
      outputs.map Output.column) (hrows : ∀ row ∈ rows, AmongAll p.kinds row) :
    (outputRelation outputs rows).Knows p := by
  refine ⟨?_, hrows⟩
  rw [hcolumns]
  refine Relation.Fits.outputs outputs fun row hrow => ?_
  rw [← (hrows row hrow).length_eq, p.length_kinds, hcolumns, List.length_map]

/-- The results of a plan have values of its kinds, if tables have rows of the kinds of their columns. -/
theorem yields_run (ha : Answers P a.toSurroundings) {p : Plan}
    (hs : ∀ d ∈ p.scans, Yields P (a.scan d.schema d.name) fun rows =>
      ∀ r ∈ rows, AmongAll (d.columns.map fun c => [c.datatype.kind]) r.values) :
    Yields P (p.run a outer) (·.Knows p) := by
  induction p with
  | singleRow =>
    refine ends_pure ⟨⟨rfl, List.forall_mem_singleton.mpr rfl⟩, ?_⟩
    exact List.forall_mem_singleton.mpr .nil
  | scan table label =>
    refine (hs table List.mem_cons_self).bind fun rows hrows => ends_pure ?_
    have hvalues : ∀ row ∈ rows.map Row.values,
        AmongAll (table.columns.map fun c => [c.datatype.kind]) row := by
      intro row hrow
      obtain ⟨stored, hstored, rfl⟩ := List.mem_map.mp hrow
      exact hrows stored hstored
    refine ⟨⟨rfl, fun row hrow => ?_⟩, hvalues⟩
    have hlength := (hvalues row hrow).length_eq
    rw [List.length_map] at hlength
    exact hlength.symm.trans (List.length_map _).symm
  | derived source label ih =>
    exact (ih hs).bind fun r hr => ends_pure ⟨hr.fits.relabel label, hr.rows⟩
  | join kind left right predicate merged ihl ihr =>
    obtain ⟨hleft, hright⟩ := List.forall_mem_append.mp hs
    refine (ihl hleft).bind fun l hl => (ihr hright).bind fun r hr => ?_
    exact yields_joinRelations ha hl hr kind predicate merged
  | filter source e ih =>
    refine (ih hs).bind fun r hr => (ends_filterRows (operations_of_forall fun _ => trivial) hr.fits
      fun f _ => ha.yields_any e _).bind fun rows hrows => ends_pure ?_
    exact hr.subset hrows rfl rfl
  | project source outputs ih =>
    refine (ih hs).bind fun r hr => (ends_mapM fun row hrow =>
      yields_outputRow ha (hr.frame hrow) outputs).bind fun rows hrows => ends_pure ?_
    exact knows_outputs rfl hrows.2
  | group source keys having outputs ih =>
    refine (ih hs).bind fun r hr => (ends_groupRows hr.fits fun e _ f _ =>
      ha.yields_any e _).bind fun groups hgroups => ?_
    refine (ends_mapM fun rows hrows =>
      yields_groupOutput ha hr having outputs (hgroups rows hrows)).bind fun results hresults =>
        ends_pure (knows_outputs rfl fun row hrow => ?_)
    obtain ⟨result, hmem, heq⟩ := List.mem_filterMap.mp hrow
    exact hresults.2 result hmem row heq
  | distinct source ih =>
    exact (ih hs).bind fun r hr => ends_pure (hr.subset (fun _ => mem_of_mem_distinctBy) rfl rfl)
  | order source keys ih =>
    refine (ih hs).bind fun r hr => ?_
    cases keys.find? fun k => r.columns.length ≤ k.index with
    | some k => exact ends_throw trivial
    | none => exact ends_pure (hr.subset (fun _ => mem_stableSort.mp) rfl rfl)
  | offset source count ih =>
    refine (ends_rowCount ⟨trivial, fun _ => trivial⟩ (by simp) (ha.yields_any count [])).bind
      fun _ _ => (ih hs).bind fun r hr => ends_pure ?_
    exact hr.subset (fun _ => List.mem_of_mem_drop) rfl rfl
  | limit source count ih =>
    refine (ends_rowCount ⟨trivial, fun _ => trivial⟩ (by simp) (ha.yields_any count [])).bind
      fun n _ => (ih hs).bind fun r hr => ends_pure ?_
    cases n with
    | none => exact hr.subset (fun _ h => h) rfl rfl
    | some n => exact hr.subset (fun _ => List.mem_of_mem_take) rfl rfl
  | truncate source width ih =>
    refine (ih hs).bind fun r hr => ends_pure ⟨hr.fits.take width, fun row hrow => ?_⟩
    obtain ⟨whole, hwhole, rfl⟩ := List.mem_map.mp hrow
    exact List.forall₂_take width (hr.rows whole hwhole)

end Plan

end SqlStore
