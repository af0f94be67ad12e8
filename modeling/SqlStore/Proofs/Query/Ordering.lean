import SqlStore.Proofs.Query.Clauses
import SqlStore.Proofs.Query.Duplicates
import SqlStore.Proofs.Query.Layout

/-!
# Ordered queries

ORDER BY lays a stable sort over the results of a query, OFFSET and LIMIT cut the sorted rows, and what was
evaluated for sorting only is taken away at the end. `StandsAt` says which result a sort key is,
`PrecedesBy` what the keys say about two rows and `Sorts` what sorting by them means; the steps that planning
lays over the results are then undone one by one.
-/

namespace SqlStore

open Run

/-! ## What sort keys say -/

namespace SortKey

/-- A value stands before another one under a sort key: NULLs at the side that the key says, the others in
ascending or in descending order. -/
def Precedes (k : SortKey) (x y : Value) : Prop :=
  match x.isNull, y.isNull with
  | true, true => False
  | true, false => k.nullsFirst = true
  | false, true => k.nullsFirst = false
  | false, false => if k.descending then y.totalCompare x = .lt else x.totalCompare y = .lt

/-- The value of the key in a row. -/
def valueOf (k : SortKey) (row : Tuple) : Value := row.getD k.index .null

variable {k : SortKey} {x y : Value}

theorem compareValues_eq_lt_iff : k.compareValues x y = .lt ↔ k.Precedes x y := by
  unfold compareValues Precedes
  cases x.isNull <;> cases y.isNull <;> cases k.nullsFirst <;> cases k.descending <;> simp

theorem totalCompare_eq_symm : y.totalCompare x = .eq ↔ x.totalCompare y = .eq := by
  rw [← Value.totalCompare_swap x y, Ordering.swap_eq_eq]

theorem compareValues_eq_eq_iff : k.compareValues x y = .eq ↔ x.totalCompare y = .eq := by
  have hsymm := totalCompare_eq_symm (x := x) (y := y)
  unfold compareValues
  cases hx : x.isNull <;> cases hy : y.isNull
  case true.true => simp [Value.totalCompare, hx, hy]
  case true.false => cases k.nullsFirst <;> simp [Value.totalCompare, hx, hy]
  case false.true => cases k.nullsFirst <;> simp [Value.totalCompare, hx, hy]
  case false.false => cases k.descending <;> simp [hsymm]

/-- Values of one kind other than that of documents are ordered under a sort key. -/
theorem preordersOn_compareValues (k : SortKey) {type : DataType} (htype : type ≠ .jsonb) :
    PreordersOn k.compareValues (Value.Among [type]) where
  swap := by
    intro x y hx hy
    have hswap := Value.totalCompare_swap x y
    have hswap' := Value.totalCompare_swap y x
    unfold compareValues
    cases x.isNull <;> cases y.isNull <;> cases k.nullsFirst <;> cases k.descending <;>
      simp [hswap, hswap']
  trans := by
    intro x y z hx hy hz
    have hup := (Value.preordersOn_among htype).trans hx hy hz
    have hdown := (Value.preordersOn_among htype).trans hz hy hx
    unfold compareValues
    cases x.isNull <;> cases y.isNull <;> cases z.isNull <;> cases k.nullsFirst <;>
      cases k.descending <;> simp
    all_goals tauto

end SortKey

/-- Two rows are equal in all sort keys. -/
def LevelBy (keys : List SortKey) (a b : Tuple) : Prop :=
  ∀ k ∈ keys, (k.valueOf a).totalCompare (k.valueOf b) = .eq

/-- A row stands before another one: by some sort key, where the keys in front of it are equal. -/
def PrecedesBy (keys : List SortKey) (a b : Tuple) : Prop :=
  ∃ before k after, keys = before ++ k :: after ∧ LevelBy before a b ∧ k.Precedes (k.valueOf a) (k.valueOf b)

section

variable {keys : List SortKey} {a b : Tuple} {rows : List Tuple}

theorem compareRows_eq_eq_iff : compareRows keys a b = .eq ↔ LevelBy keys a b := by
  induction keys with
  | nil => simp [compareRows, LevelBy]
  | cons k keys ih =>
    rw [compareRows, Ordering.then_eq_eq, SortKey.compareValues_eq_eq_iff, ih]
    exact (List.forall_mem_cons (p := fun k : SortKey => (k.valueOf a).totalCompare (k.valueOf b) = .eq)).symm

theorem compareRows_eq_lt_iff : compareRows keys a b = .lt ↔ PrecedesBy keys a b := by
  induction keys with
  | nil => simp [compareRows, PrecedesBy]
  | cons k keys ih =>
    rw [compareRows, Ordering.then_eq_lt, SortKey.compareValues_eq_lt_iff, SortKey.compareValues_eq_eq_iff, ih]
    constructor
    · rintro (hfirst | ⟨heq, before, k', after, rfl, hlevel, hprecedes⟩)
      · exact ⟨[], k, keys, rfl, nofun, hfirst⟩
      · exact ⟨k :: before, k', after, rfl, List.forall_mem_cons.mpr ⟨heq, hlevel⟩, hprecedes⟩
    · rintro ⟨before, k', after, hkeys, hlevel, hprecedes⟩
      cases before with
      | nil =>
        cases hkeys
        exact .inl hprecedes
      | cons k₀ before =>
        cases hkeys
        obtain ⟨heq, hlevel⟩ := List.forall_mem_cons.mp hlevel
        exact .inr ⟨heq, before, k', after, rfl, hlevel, hprecedes⟩

/-- Each sort key has values of one kind other than that of documents, or NULL. -/
def Sortable (keys : List SortKey) (rows : List Tuple) : Prop :=
  ∀ k ∈ keys, ∃ type : DataType, type ≠ .jsonb ∧ ∀ row ∈ rows, (k.valueOf row).Among [type]

theorem Sortable.preordersOn (h : Sortable keys rows) : PreordersOn (compareRows keys) (· ∈ rows) := by
  induction keys with
  | nil => exact ⟨fun _ _ => rfl, fun _ _ _ _ _ => rfl⟩
  | cons k keys ih =>
    obtain ⟨⟨type, htype, hkind⟩, hrest⟩ := List.forall_mem_cons.mp h
    exact ((k.preordersOn_compareValues htype).comap k.valueOf hkind).lex (ih hrest)

/-- Places of rows in the order of sort keys, those of rows that are equal in all keys in their own order. -/
structure Sorts (keys : List SortKey) (rows : List Tuple) (places : List Nat) : Prop where
  perm : places.Perm (List.range rows.length)
  sorted : places.Pairwise fun i j => PrecedesBy keys (rows.getD i []) (rows.getD j []) ∨
    LevelBy keys (rows.getD i []) (rows.getD j []) ∧ i < j

/-- The sorted rows. -/
theorem Sortable.exists_places (h : Sortable keys rows) :
    ∃ places, Sorts keys rows places ∧
      stableSort (compareRows keys) rows = places.map fun i => rows.getD i [] := by
  obtain ⟨places, hperm, hsorted, hrows⟩ := exists_places_of_stableSort [] h.preordersOn
  simp only [compareRows_eq_lt_iff, compareRows_eq_eq_iff] at hsorted
  exact ⟨places, ⟨hperm, hsorted⟩, hrows⟩

/-- Without sort keys rows stay where they are. -/
theorem sorts_nil (rows : List Tuple) : Sorts [] rows (List.range rows.length) where
  perm := .refl _
  sorted := List.pairwise_lt_range.imp fun hlt => .inr ⟨nofun, hlt⟩

end

/-! ## Which results sort keys are -/

namespace Plan

/-- The place that an expression in ORDER BY stands for: a visible result by its position, by its name or
because it is the same expression, else a hidden result that is made for it. -/
inductive StandsAt (visible outputs : List Output) : Expression → Nat → Prop where
  | position {n : Int32} {i : Nat} (hn : n.toInt = i + 1) (hi : i < visible.length) :
    StandsAt visible outputs (.literal (.integer n)) i
  | name {name : String} {i : Nat}
    (hi : visible.findIdx? (fun o => o.column.name == name) = some i) :
    StandsAt visible outputs (.column none name) i
  | repeated {e : Expression} {i : Nat} (hposition : ∀ n, e ≠ .literal (.integer n))
    (hname : ∀ name, e = .column none name → ∀ o ∈ visible, o.column.name ≠ name)
    (hi : visible.findIdx? (fun o => sameExpression o.expr e) = some i) : StandsAt visible outputs e i
  | hidden {e : Expression} {i : Nat} {o : Output} (hposition : ∀ n, e ≠ .literal (.integer n))
    (hname : ∀ name, e = .column none name → ∀ o ∈ visible, o.column.name ≠ name)
    (hnone : ∀ o ∈ visible, sameExpression o.expr e = false) (hi : visible.length ≤ i)
    (ho : outputs[i]? = some o) (hexpr : o.expr = e) : StandsAt visible outputs e i

/-- The sort key of an entry of ORDER BY. NULLs are first or last as the entry says, else last in ascending and
first in descending order. -/
structure SortsAs (visible outputs : List Output) (item : OrderItem Select) (k : SortKey) : Prop where
  place : StandsAt visible outputs item.expr k.index
  descending : k.descending = item.descending
  nullsFirst : k.nullsFirst = item.nullsFirst.getD item.descending

variable {visible outputs outputs' : List Output} {item : OrderItem Select} {shape : Shape} {distinct : Bool}

theorem standsAt_of_place? {e : Expression} {i : Nat} (hposition : ∀ n, e ≠ .literal (.integer n))
    (h : Output.place? visible e = some i) : StandsAt visible outputs e i := by
  unfold Output.place? at h
  rw [Option.orElse_eq_or, Option.or_eq_some_iff] at h
  rcases h with hnamed | ⟨hnone, hsame⟩
  · split at hnamed
    · exact .name hnamed
    · cases hnamed
  · refine .repeated hposition ?_ hsame
    rintro name rfl o ho heq
    exact absurd (beq_iff_eq.mpr heq) (Bool.eq_false_iff.mp (List.findIdx?_eq_none_iff.mp hnone o ho))

/-- A result that is behind the visible ones, none of which is what the expression stands for. -/
theorem standsAt_of_place?_eq_none {o : Output} {i : Nat} (hposition : ∀ n, o.expr ≠ .literal (.integer n))
    (h : Output.place? visible o.expr = none) (hi : visible.length ≤ i) (ho : outputs[i]? = some o) :
    StandsAt visible outputs o.expr i := by
  unfold Output.place? at h
  rw [Option.orElse_eq_or, Option.or_eq_none_iff] at h
  obtain ⟨hnamed, hsame⟩ := h
  refine .hidden hposition ?_ (List.findIdx?_eq_none_iff.mp hsame) hi ho rfl
  intro name hname o' ho' heq
  rw [hname] at hnamed
  exact absurd (beq_iff_eq.mpr heq) (Bool.eq_false_iff.mp (List.findIdx?_eq_none_iff.mp hnamed o' ho'))

/-- A sort key is what the entry stands for, whatever results come behind. For SELECT DISTINCT there are no
hidden results. -/
theorem sortsAs_of_sortKey {key : SortKey} (h : sortKey shape distinct outputs item = .ok (outputs', key))
    (hvisible : shape.visible.length ≤ outputs.length) :
    (∃ hidden, outputs' = outputs ++ hidden ∧ (distinct = true → hidden = [])) ∧
      ∀ more, SortsAs shape.visible (outputs' ++ more) item key := by
  unfold sortKey at h
  split at h
  · next n hn =>
    obtain ⟨place, hplace, h⟩ := Except.exists_of_bind_eq_ok h
    cases h
    refine ⟨⟨[], (List.append_nil _).symm, fun _ => rfl⟩, fun more => ⟨?_, rfl, rfl⟩⟩
    obtain ⟨hcounted, hlt⟩ := positionOf_eq_ok hplace
    rw [hn]
    exact .position hcounted hlt
  · next hposition =>
    split at h
    · next hplace =>
      cases h
      exact ⟨⟨[], (List.append_nil _).symm, fun _ => rfl⟩,
        fun more => ⟨standsAt_of_place? hposition hplace, rfl, rfl⟩⟩
    · next hplace =>
      -- a hidden result is put behind those that are there, which DISTINCT does not let pass
      obtain ⟨⟨⟩, hdistinct, h⟩ := Except.exists_of_bind_eq_ok h
      obtain ⟨⟨⟩, -, h⟩ := Except.exists_of_bind_eq_ok h
      obtain ⟨⟨⟩, -, h⟩ := Except.exists_of_bind_eq_ok h
      cases h
      refine ⟨⟨_, rfl, fun h => ?_⟩, fun more => ⟨?_, rfl, rfl⟩⟩
      · rw [h] at hdistinct
        cases hdistinct
      · refine standsAt_of_place?_eq_none
          (o := ⟨item.expr, ⟨none, Expr.anonymous, item.expr.type? shape.columns⟩⟩) hposition hplace hvisible ?_
        rw [List.append_assoc, List.getElem?_append_right (Nat.le_refl _), Nat.sub_self]
        rfl

/-- Each sort key is what its entry stands for. -/
theorem sortsAs_of_sortKeys {items : List (OrderItem Select)} {keys : List SortKey}
    (h : sortKeys shape distinct outputs items = .ok (outputs', keys))
    (hvisible : shape.visible.length ≤ outputs.length) :
    (∃ hidden, outputs' = outputs ++ hidden ∧ (distinct = true → hidden = [])) ∧
      List.Forall₂ (SortsAs shape.visible outputs') items keys := by
  induction items generalizing outputs keys with
  | nil =>
    cases h
    exact ⟨⟨[], (List.append_nil _).symm, fun _ => rfl⟩, .nil⟩
  | cons item items ih =>
    obtain ⟨⟨between, key⟩, hfirst, h⟩ := Except.exists_of_bind_eq_ok h
    obtain ⟨⟨outputs', keys⟩, hrest, h⟩ := Except.exists_of_bind_eq_ok h
    cases h
    -- the places of the first key stay what they are when the other keys add results behind
    obtain ⟨⟨first, rfl, hfirstNone⟩, hkey⟩ := sortsAs_of_sortKey hfirst hvisible
    have hgrown : outputs.length ≤ (outputs ++ first).length := (List.prefix_append _ _).length_le
    obtain ⟨⟨rest, rfl, hrestNone⟩, hkeys⟩ := ih hrest (Nat.le_trans hvisible hgrown)
    refine ⟨⟨first ++ rest, List.append_assoc _ _ _, fun hdistinct => ?_⟩, .cons (hkey rest) hkeys⟩
    rw [hfirstNone hdistinct, hrestNone hdistinct]
    rfl

/-! ## The steps over the results -/

section

variable {σ : Type} {a : Access (Run σ)} {outer : Scope} {source : Plan} {answer : Relation}
  {w w' : σ}

/-- The bound that a clause gives, which is evaluated outside of all rows; NULL is none. -/
def Bounds (a : Access (Run σ)) (clause : Option Expression) (bound : Option Nat) (w w' : σ) : Prop :=
  match clause with
  | none => bound = none ∧ w' = w
  | some e => ∃ v, exec (e.evaluate a.toSurroundings []) w = (.ok v, w') ∧
      (v.isNull = true ∧ bound = none ∨ ∃ n : Nat, v.int? = some (n : Int) ∧ bound = some n)

/-- The first members of a list, or all if there is no bound. -/
def within {α : Type} (bound : Option Nat) (xs : List α) : List α :=
  match bound with
  | some n => xs.take n
  | none => xs

theorem mem_of_mem_within {α : Type} {bound : Option Nat} {xs : List α} {x : α} (h : x ∈ within bound xs) :
    x ∈ xs := by
  cases bound with
  | none => exact h
  | some n => exact List.mem_of_mem_take h

theorem map_within {α β : Type} (f : α → β) (bound : Option Nat) (xs : List α) :
    (within bound xs).map f = within bound (xs.map f) := by
  cases bound with
  | none => rfl
  | some n => exact List.map_take

theorem bounds_of_rowCount {clause : String} {e : Expression} {bound : Option Nat}
    (h : exec (rowCount a clause e) w = (.ok bound, w')) : Bounds a (some e) bound w w' := by
  obtain ⟨v, w₁, hv, h⟩ := exec_bind_eq_ok h
  split at h
  · next hnull =>
    cases h
    exact ⟨v, hv, .inl ⟨hnull, rfl⟩⟩
  · split at h
    · cases h
    · next n hn =>
      split at h
      · cases h
      · next hnegative =>
        cases h
        refine ⟨v, hv, .inr ⟨n.toNat, ?_, rfl⟩⟩
        rw [hn, Int.toNat_of_nonneg (Int.not_lt.mp hnegative)]

/-- A clause that counts rows: without it the source is left alone, and with it the count comes first. -/
theorem exec_run_bounding {node : Plan → Expression → Plan} (clause : String)
    (cut : Option Nat → List Tuple → List Tuple) (hnone : ∀ rows, cut none rows = rows)
    (hrun : ∀ e, (node source e).run a outer = (do
      let bound ← rowCount a clause e
      let r ← source.run a outer
      return ⟨r.columns, cut bound r.rows⟩)) {count : Option Expression}
    (h : exec ((Clauses.bounding node source count).run a outer) w = (.ok answer, w')) :
    ∃ bound w₁ r, Bounds a count bound w w₁ ∧ exec (source.run a outer) w₁ = (.ok r, w') ∧
      answer = ⟨r.columns, cut bound r.rows⟩ := by
  cases count with
  | none => exact ⟨none, w, answer, ⟨rfl, rfl⟩, h, by rw [hnone]⟩
  | some e =>
    unfold Clauses.bounding at h
    rw [hrun] at h
    obtain ⟨bound, w₁, hbound, h⟩ := exec_bind_eq_ok h
    obtain ⟨r, w₂, hr, h⟩ := exec_bind_eq_ok h
    cases h
    exact ⟨bound, w₁, r, bounds_of_rowCount hbound, hr, rfl⟩

theorem exec_run_limit {count : Option Expression}
    (h : exec ((Clauses.bounding limit source count).run a outer) w = (.ok answer, w')) :
    ∃ bound w₁ r, Bounds a count bound w w₁ ∧ exec (source.run a outer) w₁ = (.ok r, w') ∧
      answer = ⟨r.columns, within bound r.rows⟩ := by
  refine exec_run_bounding "LIMIT" within (fun _ => rfl) (fun e => ?_) h
  rw [run]
  refine congrArg (rowCount a "LIMIT" e >>= ·) (funext fun bound => ?_)
  cases bound <;> rfl

theorem exec_run_offset {count : Option Expression}
    (h : exec ((Clauses.bounding offset source count).run a outer) w = (.ok answer, w')) :
    ∃ bound w₁ r, Bounds a count bound w w₁ ∧ exec (source.run a outer) w₁ = (.ok r, w') ∧
      answer = ⟨r.columns, r.rows.drop (bound.getD 0)⟩ :=
  exec_run_bounding "OFFSET" (fun bound rows => rows.drop (bound.getD 0)) (fun _ => rfl)
    (fun e => by rw [run]) h

/-- The sorted rows, with or without sort keys. -/
theorem exec_run_order {keys : List SortKey}
    (h : exec ((if keys.isEmpty then source else source.order keys).run a outer) w = (.ok answer, w')) :
    ∃ r, exec (source.run a outer) w = (.ok r, w') ∧ answer.columns = r.columns ∧
      (∀ row ∈ answer.rows, row ∈ r.rows) ∧ (Sortable keys r.rows → ∃ places, Sorts keys r.rows places ∧
        answer.rows = places.map fun i => r.rows.getD i []) := by
  cases keys with
  | nil => exact ⟨answer, h, rfl, fun _ => id, fun _ => ⟨_, sorts_nil _, (map_getD_range _ _).symm⟩⟩
  | cons k keys =>
    rw [List.isEmpty_cons, if_neg Bool.false_ne_true] at h
    unfold run at h
    obtain ⟨r, w₁, hr, h⟩ := exec_bind_eq_ok h
    split at h
    · cases h
    · cases h
      exact ⟨r, hr, rfl, fun _ => mem_stableSort.mp, fun hsortable => hsortable.exists_places⟩

/-- The visible results, of which there are no more than results. -/
theorem exec_run_truncate {width : Nat} {columns : List ResultColumn} (hwidth : width ≤ columns.length)
    (h : exec ((if columns.length > width then source.truncate width else source).run a outer) w =
      (.ok answer, w')) :
    ∃ r, exec (source.run a outer) w = (.ok r, w') ∧
      (r.Fits columns → answer = ⟨r.columns.take width, r.rows.map (List.take width)⟩) := by
  split at h
  · unfold run at h
    obtain ⟨r, w₁, hr, h⟩ := exec_bind_eq_ok h
    cases h
    exact ⟨r, hr, fun _ => rfl⟩
  · next hmore =>
    refine ⟨answer, h, fun hfits => ?_⟩
    have hcolumns := ResultColumn.length_of_keys hfits.keys
    have hrows : answer.rows.map (List.take width) = answer.rows := by
      refine (List.map_congr_left fun row hrow => ?_).trans (List.map_id _)
      have hlength := hfits.width row hrow
      exact List.take_of_length_le (by omega)
    rw [List.take_of_length_le (by omega), hrows]

/-! ## Ordered queries -/

namespace Clauses

variable {c : Clauses} {body : SelectBody Select} {sources : Plan} {r : Relation}

/-- The results, hidden ones included, before they are sorted: those of the projection or of the groups, under
DISTINCT the first of each set of equal ones. -/
def produced (c : Clauses) (body : SelectBody Select) (sources : Plan) : Plan :=
  if body.distinct then (c.results body sources).distinct else c.results body sources

theorem length_of_outputRow {scope : Scope} {outputs : List Output} {row : Tuple}
    (h : exec (outputRow a scope outputs) w = (.ok row, w')) : row.length = outputs.length :=
  (exec_mapM_eq_ok h).length_eq.symm

theorem length_of_groupOutput {columns : List ResultColumn} {having : Option Expression}
    {outputs : List Output} {rows : List Tuple} {row : Tuple}
    (h : exec (groupOutput a outer columns having outputs rows) w = (.ok (some row), w')) :
    row.length = outputs.length := by
  unfold groupOutput at h
  dsimp only at h
  cases having
  all_goals
    dsimp only at h
    obtain ⟨passes, w₁, -, h⟩ := exec_bind_eq_ok h
    split at h
    · obtain ⟨row', w₂, hrow', h⟩ := exec_bind_eq_ok h
      cases h
      exact length_of_outputRow hrow'
    · cases h

theorem fits_of_results (h : exec ((c.results body sources).run a outer) w = (.ok r, w')) :
    r.Fits (c.outputs.map Output.column) := by
  unfold results at h
  split at h
  · unfold run at h
    obtain ⟨q, w₁, -, h⟩ := exec_bind_eq_ok h
    obtain ⟨groups, w₂, -, h⟩ := exec_bind_eq_ok h
    obtain ⟨rows, w₃, hrows, h⟩ := exec_bind_eq_ok h
    cases h
    refine .outputs _ fun row hrow => ?_
    obtain ⟨kept, hkept, rfl⟩ := List.mem_filterMap.mp hrow
    obtain ⟨group, -, u, v, hgroup⟩ := exists_of_mem_forall₂ (exec_mapM_eq_ok hrows) hkept
    exact length_of_groupOutput hgroup
  · unfold run at h
    obtain ⟨q, w₁, -, h⟩ := exec_bind_eq_ok h
    obtain ⟨rows, w₂, hrows, h⟩ := exec_bind_eq_ok h
    cases h
    refine .outputs _ fun row hrow => ?_
    obtain ⟨_, -, u, v, hrow'⟩ := exists_of_mem_forall₂ (exec_mapM_eq_ok hrows) hrow
    exact length_of_outputRow hrow'

theorem fits_of_produced (h : exec ((c.produced body sources).run a outer) w = (.ok r, w')) :
    r.Fits (c.outputs.map Output.column) := by
  unfold produced at h
  split at h
  · unfold run at h
    obtain ⟨q, w₁, hq, h⟩ := exec_bind_eq_ok h
    cases h
    exact (fits_of_results hq).subset fun _ => mem_of_mem_distinctBy
  · exact fits_of_results h

/-- What the steps over the results make of them. The bound of LIMIT is evaluated first, then the one of OFFSET,
then the results. -/
theorem exec_run_finish {hidden : List Output} (houtputs : c.outputs = c.visible ++ hidden)
    (h : exec ((c.finish body (c.results body sources)).run a outer) w = (.ok answer, w')) :
    ∃ limit offset w₁ w₂ r, Bounds a body.limit limit w w₁ ∧ Bounds a body.offset offset w₁ w₂ ∧
      exec ((c.produced body sources).run a outer) w₂ = (.ok r, w') ∧
      answer.columns = r.columns.take c.visible.length ∧ answer.Fits (c.visible.map Output.column) ∧
      (Sortable c.sorting r.rows → ∃ places, Sorts c.sorting r.rows places ∧
        answer.rows = within limit ((places.map fun i =>
          (r.rows.getD i []).take c.visible.length).drop (offset.getD 0))) := by
  have hwidth : c.visible.length ≤ (c.outputs.map Output.column).length := by
    rw [houtputs, List.length_map, List.length_append]
    exact Nat.le_add_right _ _
  have hvisible : (c.outputs.map Output.column).take c.visible.length = c.visible.map Output.column := by
    rw [houtputs, ← List.map_take, List.take_left]
  -- from the last step to the first one
  unfold finish at h
  dsimp only at h
  rw [← show (c.outputs.map Output.column).length = c.outputs.length from List.length_map _] at h
  obtain ⟨inner, hinner, hanswer⟩ := exec_run_truncate hwidth h
  obtain ⟨limit, w₁, cut, hlimit, hcut, rfl⟩ := exec_run_limit hinner
  obtain ⟨offset, w₂, sorted, hoffset, hsorted, rfl⟩ := exec_run_offset hcut
  obtain ⟨r, hr, hcolumns, hmem, hrows⟩ := exec_run_order hsorted
  have hfits : Relation.Fits ⟨r.columns, within limit (sorted.rows.drop (offset.getD 0))⟩ _ :=
    (fits_of_produced hr).subset fun row hrow => hmem row (List.mem_of_mem_drop (mem_of_mem_within hrow))
  rw [← hcolumns] at hfits
  cases hanswer hfits
  refine ⟨limit, offset, w₁, w₂, r, hlimit, hoffset, hr, by rw [hcolumns], ?_, fun hsortable => ?_⟩
  · rw [← hvisible]
    exact hfits.take _
  · obtain ⟨places, hplaces, hplaced⟩ := hrows hsortable
    refine ⟨places, hplaces, ?_⟩
    dsimp only
    rw [hplaced, map_within, List.map_drop, List.map_map]
    rfl

end Clauses

end

/-- Take a query that runs. Its sort keys are the results that its entries of ORDER BY stand for, visible ones or
hidden ones evaluated beside them. Where each key has values of one kind other than that of documents, or NULL,
the answer is the results sorted by the keys, equal ones in the order in which they come, without the
first ones that OFFSET drops, up to the number that LIMIT keeps, and with the visible columns only. -/
theorem ordered_answer {σ : Type} {a : Access (Run σ)} {outer : Scope} {catalog : Catalog}
    {body : SelectBody Select} {p : Plan} {answer : Relation} {w w' : σ}
    (hp : ofSelect catalog outer (.mk body) = .ok p) (hrun : exec (p.run a outer) w = (.ok answer, w')) :
    ∃ (plans : List Plan) (c : Clauses) (hidden : List Output) (limit offset : Option Nat) (w₁ w₂ : σ)
        (r : Relation), ofSources catalog outer body.sources = .ok plans ∧
      c.Checked body (crossAll plans) outer ∧
      c.outputs = c.visible ++ hidden ∧ (body.distinct = true → hidden = []) ∧
      List.Forall₂ (SortsAs c.visible c.outputs) body.orderBy c.sorting ∧
      Bounds a body.limit limit w w₁ ∧ Bounds a body.offset offset w₁ w₂ ∧
      exec ((c.produced body (crossAll plans)).run a outer) w₂ = (.ok r, w') ∧
      r.Fits (c.outputs.map Output.column) ∧
      answer.columns = r.columns.take c.visible.length ∧ answer.Fits (c.visible.map Output.column) ∧
      (Sortable c.sorting r.rows → ∃ places, Sorts c.sorting r.rows places ∧
        answer.rows = within limit ((places.map fun i =>
          (r.rows.getD i []).take c.visible.length).drop (offset.getD 0))) := by
  obtain ⟨plans, hplans, hclauses⟩ : ∃ plans, ofSources catalog outer body.sources = .ok plans ∧
      ofClauses body (crossAll plans) outer = .ok p := by
    rcases body with ⟨_, _, sources, _, _, _, _, _, _⟩
    rw [ofSelect, ofBody] at hp
    exact Except.exists_of_bind_eq_ok hp
  obtain ⟨c, hchecked, rfl⟩ := exists_of_ofClauses hclauses
  obtain ⟨⟨hidden, houtputs, hdistinct⟩, hkeys⟩ := sortsAs_of_sortKeys hchecked.sorting (Nat.le_refl _)
  obtain ⟨limit, offset, w₁, w₂, r, hlimit, hoffset, hr, hcolumns, hfits, hrows⟩ :=
    Clauses.exec_run_finish houtputs hrun
  exact ⟨plans, c, hidden, limit, offset, w₁, w₂, r, hplans, hchecked, houtputs, hdistinct, hkeys, hlimit,
    hoffset, hr, Clauses.fits_of_produced hr, hcolumns, hfits, hrows⟩

end Plan

namespace Sample

open Plan

/-- A table of pupils and their marks. -/
def marks : TableDefinition := ⟨"public", "marks", [.plain "pupil" .integer, .plain "mark" .integer]⟩

/-- Three rows of it, the second one without a mark. -/
def marking : Access (Run Unit) where
  query := fun _ _ => throw (.internal "no queries")
  call := fun _ _ => throw (.internal "no functions")
  scan := fun _ _ => return [⟨1, [.integer 1, .integer 20]⟩, ⟨2, [.integer 2, .null]⟩,
    ⟨3, [.integer 3, .integer 10]⟩]

/-- `SELECT pupil FROM marks ORDER BY mark LIMIT 2 OFFSET 1` -/
def behindTheFirst : SelectBody Select where
  distinct := false
  items := [.expr (.column none "pupil") none]
  sources := [.table ⟨none, "marks"⟩ none]
  filter := none
  groupBy := []
  having := none
  orderBy := [⟨.column none "mark", false, none⟩]
  limit := some (.literal (.integer 2))
  offset := some (.literal (.integer 1))

/-- What planning it finds out: the mark is a hidden result, and NULL is behind all marks. -/
def marked : Clauses where
  visible := [⟨.column none "pupil", ⟨some "marks", "pupil", some .integer⟩⟩]
  keys := []
  outputs := [⟨.column none "pupil", ⟨some "marks", "pupil", some .integer⟩⟩,
    ⟨.column none "mark", ⟨none, Expr.anonymous, some .integer⟩⟩]
  sorting := [⟨1, false, false⟩]

/-- Its results before they are sorted. -/
def pupilsWithMarks : List Tuple :=
  [[.integer 1, .integer 20], [.integer 2, .null], [.integer 3, .integer 10]]

theorem eq_marked {c : Clauses} (h : c.Checked behindTheFirst (.scan marks none) []) : c = marked := by
  rcases c with ⟨visible, keys, outputs, sorting⟩
  obtain ⟨results, rfl, hitems⟩ := h.items
  cases hitems with | cons hfirst hrest
  cases hrest
  cases hfirst
  cases h.keys
  have hsorting : sortKeys (marked.shape behindTheFirst (.scan marks none) []) false marked.visible
      behindTheFirst.orderBy = .ok (marked.outputs, marked.sorting) := by with_unfolding_all rfl
  cases h.sorting.symm.trans hsorting
  rfl

theorem sortable_pupilsWithMarks : Sortable marked.sorting pupilsWithMarks := by
  refine List.forall_mem_singleton.mpr ⟨.integer, by decide, ?_⟩
  have hinteger : ∀ n : Int32, (Value.integer n).Among [.integer] := fun n =>
    Value.among_of_datatype rfl List.mem_cons_self
  simp [pupilsWithMarks, SortKey.valueOf, hinteger, Value.among_null]

theorem pupils_behind_the_first :
    ∃ p answer places, ofSelect (fun _ => .ok marks) [] (.mk behindTheFirst) = .ok p ∧
      exec (p.run marking []) () = (.ok answer, ()) ∧
      Sorts marked.sorting pupilsWithMarks places ∧
      answer.rows = ((places.map fun i => (pupilsWithMarks.getD i []).take 1).drop 1).take 2 ∧
      answer.Fits [⟨some "marks", "pupil", some .integer⟩] := by
  obtain ⟨p, hp⟩ := exists_ok_of_isOk (r := ofSelect (fun _ => .ok marks) [] (.mk behindTheFirst))
    (by decide +kernel)
  have hran : (ofSelect (fun _ => .ok marks) [] (.mk behindTheFirst)).toOption.all (fun p =>
      (exec (p.run marking []) ()).1.isOk) = true := by decide +kernel
  rw [hp] at hran
  obtain ⟨answer, hanswer⟩ := exists_ok_of_isOk hran
  have hrun : exec (p.run marking []) () = (.ok answer, ()) := Prod.ext hanswer rfl
  obtain ⟨plans, c, hidden, limit, offset, w₁, w₂, r, hplans, hchecked, -, -, -, hlimit, hoffset, hr, -, -,
    hfits, hrows⟩ := ordered_answer hp hrun
  cases hplans
  cases eq_marked hchecked
  cases hr
  obtain ⟨places, hplaces, hrows⟩ := hrows sortable_pupilsWithMarks
  obtain ⟨_, hvalue, hbound⟩ := hlimit
  cases hvalue
  obtain ⟨_, hvalue, hbound'⟩ := hoffset
  cases hvalue
  rcases hbound with ⟨⟨⟩, -⟩ | ⟨n, hn, rfl⟩
  rcases hbound' with ⟨⟨⟩, -⟩ | ⟨m, hm, rfl⟩
  cases Int.ofNat_inj.mp (Option.some.inj hn).symm
  cases Int.ofNat_inj.mp (Option.some.inj hm).symm
  exact ⟨p, answer, places, hp, hrun, hplaces, hrows, hfits⟩

end Sample

end SqlStore
