import Mathlib.Data.Multiset.Bind
import SqlStore.Proofs.Query.Joins
import SqlStore.Proofs.Query.Rearranged

/-!
# Joins with their sides swapped

A join of two relations on a condition comes to the same as the mirrored join of the second with the first one: the
same pairs match, since a condition reads a row as it stands or with its halves swapped, and rows that match
nothing are kept on the same side. Only the order of the columns and of the rows is another one.
-/

namespace SqlStore

namespace JoinKind

/-- The kind of join with the sides swapped. -/
def mirror : JoinKind → JoinKind
  | left => right
  | right => left
  | kind => kind

@[simp] theorem mirror_mirror (kind : JoinKind) : kind.mirror.mirror = kind := by
  cases kind <;> rfl

/-- The mirrored join keeps the left rows where the join keeps the right ones. -/
theorem mirror_left_or_full (kind : JoinKind) :
    kind.mirror = .left ∨ kind.mirror = .full ↔ kind = .right ∨ kind = .full := by
  cases kind <;> decide

theorem mirror_right_or_full (kind : JoinKind) :
    kind.mirror = .right ∨ kind.mirror = .full ↔ kind = .left ∨ kind = .full := by
  cases kind <;> decide

end JoinKind

/-- A list with its first members behind the others. -/
def swapAt {α : Type} (width : Nat) (xs : List α) : List α := xs.drop width ++ xs.take width

theorem swapAt_append {α : Type} {xs ys : List α} {width : Nat} (h : xs.length = width) :
    swapAt width (xs ++ ys) = ys ++ xs := by
  subst h
  simp [swapAt]

/-- The columns and rows of the second relation are those of the first one with the first block of them behind
the others, where rows may come in another order. -/
structure Relation.Mirrors (width : Nat) (r r' : Relation) : Prop where
  columns : r'.columns = swapAt width r.columns
  rows : r'.rows.Perm (r.rows.map (swapAt width))

/-! ## Rows -/

section

variable {α β γ : Type}

/-- Two loops in one another, the inner one outside. -/
theorem flatMap_flatMap_perm (xs : List α) (ys : List β) (f : α → β → List γ) :
    (xs.flatMap fun x => ys.flatMap (f x)).Perm (ys.flatMap fun y => xs.flatMap fun x => f x y) := by
  have h := Multiset.bind_bind (xs : Multiset α) (ys : Multiset β) (f := fun x y => (f x y : Multiset γ))
  simp only [Multiset.coe_bind] at h
  exact Multiset.coe_eq_coe.mp h

end

/-- The rows that a join of two sides consists of, by what is said of each pair of rows. -/
def joinedOn (kind : JoinKind) (hits : Tuple → Tuple → Bool) (pair : Tuple → Tuple → Tuple)
    (leftNulls rightNulls : Tuple) (lefts rights : List Tuple) : List Tuple :=
  (lefts.flatMap fun l => (rights.filter (hits l)).map (pair l)) ++
    ((if kind = .left ∨ kind = .full then
        (lefts.filter fun l => ∀ r ∈ rights, hits l r = false).map fun l => pair l rightNulls
      else []) ++
    (if kind = .right ∨ kind = .full then
        (rights.filter fun r => ∀ l ∈ lefts, hits l r = false).map (pair leftNulls)
      else []))

section

variable {kind : JoinKind} {hits : Nat → Nat → Bool} {meets : Tuple → Tuple → Bool}
  {pair : Tuple → Tuple → Tuple} {leftNulls rightNulls : Tuple} {lefts rights : List Tuple}

theorem map_filter_zipIdx {α β : Type} (p : α → Bool) (f : α → β) (xs : List α) :
    (xs.zipIdx.filter fun q => p q.1).map (fun q => f q.1) = (xs.filter p).map f := by
  have hfst : xs = xs.zipIdx.map Prod.fst := (List.zipIdx_map_fst 0 xs).symm
  conv_rhs => rw [hfst, List.filter_map, List.map_map]
  rfl

/-- Verdicts by places that are those on the rows at the places. -/
theorem joinedBy_eq_joinedOn (h : ∀ p ∈ lefts.zipIdx, ∀ q ∈ rights.zipIdx, hits p.2 q.2 = meets p.1 q.1) :
    joinedBy kind hits pair leftNulls rightNulls lefts rights =
      joinedOn kind meets pair leftNulls rightNulls lefts rights := by
  have hlone (xs : List Tuple) (v : Nat → Bool) (d : Tuple → Bool) :
      (∀ q ∈ xs.zipIdx, v q.2 = d q.1) → ((∀ j < xs.length, v j = false) ↔ ∀ x ∈ xs, d x = false) := by
    intro hvd
    rw [List.forall_mem_iff_forall_getElem]
    refine forall₂_congr fun j hj => ?_
    rw [hvd (xs[j], j) (List.mk_mem_zipIdx_iff_getElem?.mpr (List.getElem?_eq_getElem hj))]
  have hpairs : (lefts.zipIdx.flatMap fun p =>
      (rights.zipIdx.filter fun q => hits p.2 q.2).map fun q => pair p.1 q.1) =
        lefts.flatMap fun l => (rights.filter (meets l)).map (pair l) := by
    conv_rhs => rw [← List.zipIdx_map_fst 0 lefts, List.flatMap_map]
    refine List.flatMap_congr fun p hp => ?_
    rw [List.filter_congr (h p hp)]
    exact map_filter_zipIdx _ _ _
  have hlefts : ((lefts.zipIdx.filter fun p => ∀ j < rights.length, hits p.2 j = false).map fun p =>
      pair p.1 rightNulls) =
        (lefts.filter fun l => ∀ r ∈ rights, meets l r = false).map fun l => pair l rightNulls := by
    refine .trans (congrArg _ (List.filter_congr fun p hp => ?_))
      (map_filter_zipIdx (fun l => decide (∀ r ∈ rights, meets l r = false)) (pair · rightNulls) lefts)
    exact decide_eq_decide.mpr (hlone rights (hits p.2) (meets p.1) (h p hp))
  have hrights : ((rights.zipIdx.filter fun q => ∀ i < lefts.length, hits i q.2 = false).map fun q =>
      pair leftNulls q.1) = (rights.filter fun r => ∀ l ∈ lefts, meets l r = false).map (pair leftNulls) := by
    refine .trans (congrArg _ (List.filter_congr fun q hq => ?_))
      (map_filter_zipIdx (fun r => decide (∀ l ∈ lefts, meets l r = false)) (pair leftNulls) rights)
    refine decide_eq_decide.mpr (hlone lefts (hits · q.2) (meets · q.1) ?_)
    exact fun p hp => h p hp q hq
  exact congrArg₂ (· ++ ·) hpairs
    (congrArg₂ (· ++ ·) (if_congr Iff.rfl hlefts rfl) (if_congr Iff.rfl hrights rfl))

/-- The rows of a join whose table of verdicts says of each pair what is said of its rows. -/
theorem joinedRows_perm_joinedOn (kind : JoinKind) (merged : List (Nat × Nat)) (leftWidth rightWidth : Nat)
    (meets : Tuple → Tuple → Bool) (lefts rights : List Tuple) :
    (joinedRows kind merged leftWidth rightWidth lefts rights (lefts.map fun l => rights.map (meets l))).Perm
      (joinedOn kind meets (joinRow merged) (List.replicate leftWidth .null) (List.replicate rightWidth .null)
        lefts rights) := by
  have hverdict : ∀ p ∈ lefts.zipIdx, ∀ q ∈ rights.zipIdx,
      verdict (lefts.map fun l => rights.map (meets l)) p.2 q.2 = meets p.1 q.1 := by
    intro p hp q hq
    obtain ⟨hi, hl⟩ := List.mem_zipIdx' hp
    obtain ⟨hj, hr⟩ := List.mem_zipIdx' hq
    have hrow : (lefts.map fun l => rights.map (meets l)).getD p.2 [] = rights.map (meets p.1) := by
      rw [List.getD_eq_getElem _ _ (by simpa using hi), List.getElem_map, hl]
    rw [verdict, hrow, List.getD_eq_getElem _ _ (by simpa using hj), List.getElem_map, hr]
  rw [← joinedBy_eq_joinedOn hverdict]
  refine joinedRows_perm kind merged leftWidth rightWidth (List.length_map _) fun hs hmem => ?_
  obtain ⟨l, -, rfl⟩ := List.mem_map.mp hmem
  exact List.length_map _

/-- With the sides swapped, the mirrored join consists of the same rows. -/
theorem joinedOn_mirror (kind : JoinKind) (hits : Tuple → Tuple → Bool) (pair : Tuple → Tuple → Tuple)
    (leftNulls rightNulls : Tuple) (lefts rights : List Tuple) :
    (joinedOn kind hits pair leftNulls rightNulls lefts rights).Perm
      (joinedOn kind.mirror (fun r l => hits l r) (fun r l => pair l r) rightNulls leftNulls rights lefts) := by
  have hpairs : (lefts.flatMap fun l => (rights.filter (hits l)).map (pair l)).Perm
      (rights.flatMap fun r => (lefts.filter fun l => hits l r).map fun l => pair l r) := by
    simp only [map_filter_eq_flatMap]
    exact flatMap_flatMap_perm lefts rights _
  unfold joinedOn
  simp only [kind.mirror_left_or_full, kind.mirror_right_or_full]
  exact hpairs.append List.perm_append_comm

/-- With the halves of its rows swapped, a join consists of the pairs the other way around. -/
theorem map_swapAt_joinedOn (kind : JoinKind) (hits : Tuple → Tuple → Bool) {width : Nat} {leftNulls : Tuple}
    (hnulls : leftNulls.length = width) (hwidth : ∀ l ∈ lefts, l.length = width) (rightNulls : Tuple) :
    (joinedOn kind hits (· ++ ·) leftNulls rightNulls lefts rights).map (swapAt width) =
      joinedOn kind hits (fun l r => r ++ l) leftNulls rightNulls lefts rights := by
  have hone : ∀ l ∈ lefts, ∀ r : Tuple, swapAt width (l ++ r) = r ++ l :=
    fun l hl r => swapAt_append (hwidth l hl)
  have hpairs : (lefts.flatMap fun l => (rights.filter fun r => hits l r).map fun r => l ++ r).map (swapAt width) =
      lefts.flatMap fun l => (rights.filter fun r => hits l r).map fun r => r ++ l := by
    rw [List.map_flatMap]
    refine List.flatMap_congr fun l hl => ?_
    rw [List.map_map]
    exact List.map_congr_left fun r _ => hone l hl r
  have hlefts : ((lefts.filter fun l => ∀ r ∈ rights, hits l r = false).map fun l => l ++ rightNulls).map
      (swapAt width) = (lefts.filter fun l => ∀ r ∈ rights, hits l r = false).map fun l => rightNulls ++ l := by
    rw [List.map_map]
    exact List.map_congr_left fun l hl => hone l (List.mem_filter.mp hl).1 _
  have hrights : ((rights.filter fun r => ∀ l ∈ lefts, hits l r = false).map fun r => leftNulls ++ r).map
      (swapAt width) = (rights.filter fun r => ∀ l ∈ lefts, hits l r = false).map fun r => r ++ leftNulls := by
    rw [List.map_map]
    exact List.map_congr_left fun r _ => swapAt_append hnulls
  unfold joinedOn
  rw [List.map_append, List.map_append, hpairs, apply_ite (List.map (swapAt width)),
    apply_ite (List.map (swapAt width)), hlefts, hrights]
  rfl

end

/-! ## Conditions -/

namespace Services

variable {m : Type → Type} [Monad m] [MonadExceptOf Error m] {left right : List ResultColumn} {l r : Tuple}

/-- A condition on a pair of rows is the same call with the halves of the pair swapped. -/
theorem keepsPair_swap (s : Services m) (depth : Nat) (outer : Scope) (e : Expression)
    (hl : l.length = left.length) (hr : r.length = right.length) :
    keepsPair (s.access depth) outer (right ++ left) (some e) [] r l =
      keepsPair (s.access depth) outer (left ++ right) (some e) [] l r := by
  have hcells : ((right ++ left).zip (r ++ l)).Perm ((left ++ right).zip (l ++ r)) := by
    rw [List.zip_append hr.symm, List.zip_append hl.symm]
    exact List.perm_append_comm
  have hreads := Scope.readsAs_of_perm (by simp [hl, hr]) (by simp [hl, hr]) hcells outer
  unfold keepsPair
  dsimp only
  rw [holds_eq s hreads rfl rfl depth "JOIN/ON" e]
  rfl

end Services

/-! ## Joins -/

theorem withoutPlaces_nil {α : Type} (xs : List α) : withoutPlaces [] xs = xs :=
  (congrArg (List.map Prod.fst) (List.filter_eq_self.mpr fun _ _ => rfl)).trans (List.zipIdx_map_fst 0 xs)

theorem joinLayout_nil {α : Type} (pick : α → α → α) (left right : List α) :
    joinLayout pick [] left right = left ++ right := by
  unfold joinLayout
  rw [List.map_nil, List.map_nil, withoutPlaces_nil, withoutPlaces_nil]
  rfl

/-- Where a join on a condition succeeds, so does the mirrored one, with the same rows but for their order and
that of their halves. -/
theorem exists_joinRelations_mirror {a : Access (Except Error)} {outer : Scope} {kind : JoinKind}
    {predicate : Option Expression} {l r joined : Relation} (hwidth : ∀ x ∈ l.rows, x.length = l.columns.length)
    (hswap : ∀ x ∈ l.rows, ∀ y ∈ r.rows, keepsPair a outer (r.columns ++ l.columns) predicate [] y x =
      keepsPair a outer (l.columns ++ r.columns) predicate [] x y)
    (h : joinRelations a outer kind predicate [] l r = .ok joined) :
    ∃ mirrored, joinRelations a outer kind.mirror predicate [] r l = .ok mirrored ∧
      joined.Mirrors l.columns.length mirrored := by
  let keeps := keepsPair a outer (l.columns ++ r.columns) predicate []
  let hits (x y : Tuple) : Bool := (keeps x y).toOption.getD false
  obtain ⟨table, htable, h⟩ := Except.exists_of_bind_eq_ok h
  cases h
  -- every pair has a verdict
  have hverdict : ∀ x ∈ l.rows, ∀ y ∈ r.rows, keeps x y = .ok (hits x y) := by
    intro x hx y hy
    obtain ⟨hs, -, hrow⟩ := exists_of_mem_forall₂ (Except.forall₂_of_mapM_eq_ok htable).flip hx
    obtain ⟨b, -, hb⟩ := exists_of_mem_forall₂ (Except.forall₂_of_mapM_eq_ok hrow).flip hy
    have hb' : keeps x y = .ok b := hb
    show keeps x y = .ok ((keeps x y).toOption.getD false)
    rw [hb']
    rfl
  have htable' : table = l.rows.map fun x => r.rows.map (hits x) := by
    refine Except.ok.inj (htable.symm.trans ?_)
    exact Except.mapM_eq_ok_map fun x hx => Except.mapM_eq_ok_map fun y hy => hverdict x hx y hy
  subst htable'
  have hmirrored : (r.rows.mapM fun y => l.rows.mapM fun x =>
      keepsPair a outer (r.columns ++ l.columns) predicate [] y x) =
        .ok (r.rows.map fun y => l.rows.map fun x => hits x y) := by
    refine Except.mapM_eq_ok_map fun y hy => Except.mapM_eq_ok_map fun x hx => ?_
    rw [hswap x hx y hy]
    exact hverdict x hx y hy
  refine ⟨⟨joinColumns [] r.columns l.columns, joinedRows kind.mirror [] r.columns.length l.columns.length
    r.rows l.rows (r.rows.map fun y => l.rows.map fun x => hits x y)⟩, ?_, ?_, ?_⟩
  · unfold joinRelations
    dsimp only
    rw [hmirrored]
    rfl
  · show joinColumns [] r.columns l.columns = swapAt _ (joinColumns [] l.columns r.columns)
    unfold joinColumns
    rw [joinLayout_nil, joinLayout_nil, swapAt_append rfl]
  · have hpair : joinRow [] = fun x y : Tuple => x ++ y := by
      funext x y
      exact joinLayout_nil mergeValues x y
    have hrows := joinedRows_perm_joinedOn kind [] l.columns.length r.columns.length hits l.rows r.rows
    have hmirror := joinedRows_perm_joinedOn kind.mirror [] r.columns.length l.columns.length
      (fun y x => hits x y) r.rows l.rows
    rw [hpair] at hrows hmirror
    refine hmirror.trans (.trans ?_ (hrows.map _).symm)
    rw [map_swapAt_joinedOn kind hits (by simp) hwidth]
    exact (joinedOn_mirror kind hits (fun x y => y ++ x) _ _ l.rows r.rows).symm

/-! ## Planning -/

/-- A join on a condition is planned like the mirrored one. -/
theorem Plan.ofSource_mirror {catalog : Catalog} {outer : Scope} {kind : JoinKind} {a b : FromItem Select}
    {e : Expression} {p : Plan} (h : ofSource catalog outer (.join kind a b (.on e)) = .ok p) :
    ∃ left right, ofSource catalog outer a = .ok left ∧ ofSource catalog outer b = .ok right ∧
      p = join kind left right (some e) [] ∧
      ofSource catalog outer (.join kind.mirror b a (.on e)) = .ok (join kind.mirror right left (some e) []) := by
  obtain ⟨left, hleft, h⟩ := Except.exists_of_bind_eq_ok h
  obtain ⟨right, hright, h⟩ := Except.exists_of_bind_eq_ok h
  obtain ⟨⟨predicate, merged⟩, hrule, h⟩ := Except.exists_of_bind_eq_ok h
  obtain ⟨⟨⟩, hcheck, hrule⟩ := Except.exists_of_bind_eq_ok hrule
  cases hrule
  cases h
  refine ⟨left, right, hleft, hright, rfl, ?_⟩
  have hbinds : Scope.SameBinds (Frame.ofColumns (right.columns ++ left.columns) :: outer)
      (Frame.ofColumns (left.columns ++ right.columns) :: outer) :=
    Scope.sameBinds_of_perm List.perm_append_comm _ _ _ _ outer
  unfold ofSource joinRule
  rw [hleft, hright]
  show ((e.checkClause (Frame.ofColumns (right.columns ++ left.columns) :: outer) "JOIN conditions" >>= _) >>= _) = _
  rw [hbinds.checkClause_eq, hcheck]
  rfl

end SqlStore
