import Mathlib.Data.List.GetD
import SqlStore.Proofs.Session.Layout

/-!
# What joins return

A join returns one row for each pair that matches, and where its kind keeps them, one row for each row of a side
that matches nothing, beside NULLs. Every row and the columns are laid out by one list of places: first the merged
ones, then the rest of the left side, then the rest of the right side.
-/

namespace SqlStore

open Run

/-! ## The layout -/

/-- Where a member of a joined row comes from. -/
inductive JoinPlace where
  | merged (left right : Nat)
  | left (index : Nat)
  | right (index : Nat)

namespace JoinPlace

variable {α : Type}

/-- The member of two rows at a place; `both` makes a merged one of two. -/
def pick (both : α → α → α) (left right : List α) : JoinPlace → Option α
  | merged i j => left[i]?.bind fun l => right[j]?.map (both l)
  | .left i => left[i]?
  | .right j => right[j]?

/-- The merged places, then the others of the left side, then the others of the right side. -/
def layout (places : List (Nat × Nat)) (leftWidth rightWidth : Nat) : List JoinPlace :=
  (places.map fun p => merged p.1 p.2) ++
    (((List.range leftWidth).filter fun i => i ∉ places.map Prod.fst).map .left ++
      ((List.range rightWidth).filter fun j => j ∉ places.map Prod.snd).map .right)

end JoinPlace

section

variable {α : Type}

theorem map_some_withoutPlaces (places : List Nat) (xs : List α) :
    (withoutPlaces places xs).map some =
      ((List.range xs.length).filter fun i => i ∉ places).map fun i => xs[i]? := by
  have hzip : xs.zipIdx.map (fun p => (some p.1, p.2)) = (List.range xs.length).map fun i => (xs[i]?, i) := by
    refine List.ext_getElem (by simp) fun i hi hi' => ?_
    simp
  have hfilter : ((xs.zipIdx.map fun p => (some p.1, p.2)).filter fun p => !places.contains p.2).map Prod.fst =
      (withoutPlaces places xs).map some := by
    unfold withoutPlaces
    rw [List.filter_map, List.map_map, List.map_map]
    rfl
  rw [← hfilter, hzip, List.filter_map, List.map_map]
  simp [Function.comp_def]

theorem map_some_merged (both : α → α → α) {places : List (Nat × Nat)} {left right : List α}
    (hplaces : ∀ p ∈ places, p.1 < left.length ∧ p.2 < right.length) :
    (places.filterMap fun (l, r) => match left[l]?, right[r]? with
      | some a, some b => some (both a b)
      | _, _ => none).map some = places.map fun p => JoinPlace.pick both left right (.merged p.1 p.2) := by
  induction places with
  | nil => rfl
  | cons p places ih =>
    obtain ⟨⟨hleft, hright⟩, hrest⟩ := List.forall_mem_cons.mp hplaces
    have hfirst := ih hrest
    simp only [JoinPlace.pick] at hfirst ⊢
    simp [List.getElem?_eq_getElem hleft, List.getElem?_eq_getElem hright, hfirst]

/-- What joins lay out is what stands at their places. -/
theorem map_some_joinLayout (both : α → α → α) {places : List (Nat × Nat)} {left right : List α}
    (hplaces : ∀ p ∈ places, p.1 < left.length ∧ p.2 < right.length) :
    (joinLayout both places left right).map some =
      (JoinPlace.layout places left.length right.length).map (JoinPlace.pick both left right) := by
  have hrest : (withoutPlaces (places.map Prod.fst) left ++ withoutPlaces (places.map Prod.snd) right).map some =
      (((List.range left.length).filter fun i => i ∉ places.map Prod.fst).map JoinPlace.left ++
        ((List.range right.length).filter fun j => j ∉ places.map Prod.snd).map JoinPlace.right).map
          (JoinPlace.pick both left right) := by
    rw [List.map_append, map_some_withoutPlaces, map_some_withoutPlaces, List.map_append, List.map_map,
      List.map_map]
    rfl
  rw [JoinPlace.layout, List.map_append, List.map_map, ← hrest]
  exact List.map_append.trans (congrArg (· ++ _) (map_some_merged both hplaces))

end

/-! ## The rows -/

/-- The rows that a join of two sides consists of: those of pairs that match, the left rows that match nothing
where the kind keeps them, and the right rows that match nothing where the kind keeps them. -/
def joinedBy (kind : JoinKind) (hits : Nat → Nat → Bool) (pair : Tuple → Tuple → Tuple)
    (leftNulls rightNulls : Tuple) (lefts rights : List Tuple) : List Tuple :=
  (lefts.zipIdx.flatMap fun (l, i) =>
      (rights.zipIdx.filter fun (_, j) => hits i j).map fun (r, _) => pair l r) ++
    ((if kind = .left ∨ kind = .full then
        (lefts.zipIdx.filter fun (_, i) => ∀ j < rights.length, hits i j = false).map fun (l, _) =>
          pair l rightNulls
      else []) ++
    (if kind = .right ∨ kind = .full then
        (rights.zipIdx.filter fun (_, j) => ∀ i < lefts.length, hits i j = false).map fun (r, _) =>
          pair leftNulls r
      else []))

theorem JoinKind.keepsLeft_iff (kind : JoinKind) : kind.keepsLeft = true ↔ kind = .left ∨ kind = .full := by
  cases kind <;> decide

theorem JoinKind.keepsRight_iff (kind : JoinKind) : kind.keepsRight = true ↔ kind = .right ∨ kind = .full := by
  cases kind <;> decide

/-- The verdict on a pair in a table of verdicts. -/
def verdict (hits : List (List Bool)) (i j : Nat) : Bool := (hits.getD i []).getD j false

section

variable {α β : Type}

theorem forall_mem_iff_getD {p : α → Prop} (d : α) {xs : List α} :
    (∀ x ∈ xs, p x) ↔ ∀ i < xs.length, p (xs.getD i d) := by
  rw [List.forall_mem_iff_forall_getElem]
  refine forall₂_congr fun i hi => ?_
  rw [List.getD_eq_getElem _ _ hi]

theorem zip_eq_map_zipIdx {xs : List α} {ys : List β} (d : β) (h : ys.length = xs.length) :
    xs.zip ys = xs.zipIdx.map fun p => (p.1, ys.getD p.2 d) := by
  refine List.ext_getElem (by simp [h]) fun i hi hi' => ?_
  have hy : i < ys.length := by
    rw [List.length_zip] at hi
    omega
  simp [hy]

theorem map_filter_eq_flatMap (p : α → Bool) (f : α → β) (xs : List α) :
    (xs.filter p).map f = xs.flatMap fun x => if p x then [f x] else [] := by
  induction xs with
  | nil => rfl
  | cons x xs ih => by_cases hx : p x <;> simp [hx, ih]

/-- Where what is special comes to nothing otherwise, it can be put behind the rest. -/
theorem flatMap_ite_perm (xs : List α) (p : α → Prop) [DecidablePred p] (special : α → β)
    (rest : α → List β) (hrest : ∀ x ∈ xs, p x → rest x = []) :
    (xs.flatMap fun x => if p x then [special x] else rest x).Perm
      (xs.flatMap rest ++ (xs.filter p).map special) := by
  simp only [map_filter_eq_flatMap, decide_eq_true_eq]
  refine .trans (.of_eq (List.flatMap_congr fun x hx => ?_)) (List.flatMap_append_perm xs rest _).symm
  by_cases hp : p x
  · simp [hp, hrest x hx hp]
  · simp [hp]

end

section

variable {kind : JoinKind} {merged : List (Nat × Nat)} {leftWidth rightWidth : Nat}
  {lefts rights : List Tuple} {hits : List (List Bool)}

theorem length_getD_hits (hlefts : hits.length = lefts.length) (hrights : ∀ hs ∈ hits, hs.length = rights.length)
    {i : Nat} (hi : i < lefts.length) : (hits.getD i []).length = rights.length := by
  rw [List.getD_eq_getElem _ _ (hlefts ▸ hi)]
  exact hrights _ (List.getElem_mem _)

/-- The rows of one left row, with its verdicts or by their table. -/
theorem leftRows_eq (hlefts : hits.length = lefts.length) (hrights : ∀ hs ∈ hits, hs.length = rights.length)
    (pair : Tuple → Tuple → Tuple) (rightNulls l : Tuple) {i : Nat} (hi : i < lefts.length) :
    (if kind.keepsLeft && !(hits.getD i []).any id then [pair l rightNulls]
      else ((rights.zip (hits.getD i [])).filter Prod.snd).map fun (r, _) => pair l r) =
        if (kind = .left ∨ kind = .full) ∧ ∀ j < rights.length, verdict hits i j = false then
          [pair l rightNulls]
        else (rights.zipIdx.filter fun p => verdict hits i p.2).map fun p => pair l p.1 := by
  have hlength := length_getD_hits hlefts hrights hi
  have hlone : (hits.getD i []).any id = false ↔ ∀ j < rights.length, verdict hits i j = false := by
    rw [← hlength, List.any_eq_false, forall_mem_iff_getD false]
    simp [verdict]
  have hkeeps : (kind.keepsLeft && !(hits.getD i []).any id) = true ↔
      (kind = .left ∨ kind = .full) ∧ ∀ j < rights.length, verdict hits i j = false := by
    rw [Bool.and_eq_true, kind.keepsLeft_iff, Bool.not_eq_true', hlone]
  refine if_congr hkeeps rfl ?_
  rw [zip_eq_map_zipIdx false hlength, List.filter_map, List.map_map]
  rfl

/-- A right row matches nothing, by its column of verdicts or by their table. -/
theorem any_getD_eq_false_iff (hlefts : hits.length = lefts.length) (j : Nat) :
    (hits.any fun hs => hs.getD j false) = false ↔ ∀ i < lefts.length, verdict hits i j = false := by
  rw [← hlefts, List.any_eq_false, forall_mem_iff_getD []]
  simp [verdict]

/-- The rows of a join are those that its table of verdicts says. -/
theorem joinedRows_perm (kind : JoinKind) (merged : List (Nat × Nat)) (leftWidth rightWidth : Nat)
    (hlefts : hits.length = lefts.length) (hrights : ∀ hs ∈ hits, hs.length = rights.length) :
    (joinedRows kind merged leftWidth rightWidth lefts rights hits).Perm
      (joinedBy kind (verdict hits) (joinRow merged) (List.replicate leftWidth .null)
        (List.replicate rightWidth .null) lefts rights) := by
  let lone := joinRow merged (List.replicate leftWidth .null)
  have hleft : ((lefts.zip hits).flatMap fun p =>
      if kind.keepsLeft && !p.2.any id then [joinRow merged p.1 (List.replicate rightWidth .null)]
      else ((rights.zip p.2).filter Prod.snd).map fun q => joinRow merged p.1 q.1) =
        lefts.zipIdx.flatMap fun p =>
          if (kind = .left ∨ kind = .full) ∧ ∀ j < rights.length, verdict hits p.2 j = false then
            [joinRow merged p.1 (List.replicate rightWidth .null)]
          else (rights.zipIdx.filter fun q => verdict hits p.2 q.2).map fun q =>
            joinRow merged p.1 q.1 := by
    rw [zip_eq_map_zipIdx [] hlefts, List.flatMap_map]
    refine List.flatMap_congr fun p hp => ?_
    exact leftRows_eq hlefts hrights _ _ _ (by simpa using List.snd_lt_of_mem_zipIdx hp)
  have hright : (if kind.keepsRight then
      (rights.zipIdx.filter fun p => !hits.any fun hs => hs.getD p.2 false).map fun p => lone p.1
      else []) =
        if kind = .right ∨ kind = .full then
          (rights.zipIdx.filter fun p => ∀ i < lefts.length, verdict hits i p.2 = false).map
            fun p => lone p.1
        else [] := by
    refine if_congr kind.keepsRight_iff (congrArg (List.map _) (List.filter_congr fun p _ => ?_)) rfl
    rw [Bool.eq_iff_iff, Bool.not_eq_true', any_getD_eq_false_iff hlefts, decide_eq_true_iff]
  -- a left row that stands alone matches nothing, so it can be moved behind the pairs
  have halone : ∀ p ∈ lefts.zipIdx,
      ((kind = .left ∨ kind = .full) ∧ ∀ j < rights.length, verdict hits p.2 j = false) →
        ((rights.zipIdx.filter fun q => verdict hits p.2 q.2).map fun q => joinRow merged p.1 q.1) = [] := by
    rintro p - ⟨-, hnone⟩
    rw [List.map_eq_nil_iff, List.filter_eq_nil_iff]
    intro q hq
    rw [hnone q.2 (by simpa using List.snd_lt_of_mem_zipIdx hq)]
    decide
  unfold joinedRows joinedBy
  refine .trans (.of_eq (congrArg₂ (· ++ ·) hleft hright)) ?_
  rw [← List.append_assoc]
  refine .append_right _ ((flatMap_ite_perm _ _ _ _ halone).trans (.append_left _ (.of_eq ?_)))
  by_cases hkind : kind = .left ∨ kind = .full
  · simp [hkind]
  · simp [hkind]

end

/-! ## Pairs that match -/

section

variable {σ : Type} {a : Access (Run σ)} {outer : Scope} {columns : List ResultColumn}
  {predicate : Option Expression} {merged : List (Nat × Nat)} {l r : Tuple} {u v w : σ}

/-- The rows are equal in the merged columns, and the predicate is true on the row of both when it is evaluated
from the state `u` to the state `v`. -/
def Matches (a : Access (Run σ)) (outer : Scope) (columns : List ResultColumn)
    (predicate : Option Expression) (merged : List (Nat × Nat)) (l r : Tuple) (u v : σ) : Prop :=
  (∀ p ∈ merged, (l.getD p.1 .null).compare (r.getD p.2 .null) = .ok (some .eq)) ∧
    ∀ e ∈ predicate, ∃ x, exec (e.evaluate a.toSurroundings (Frame.ofRow columns (l ++ r) :: outer)) u =
      (.ok x, v) ∧ Truth.ofValue "JOIN/ON" x = .ok (some true)

theorem agree_true_iff : agree l r merged = .ok true ↔
    ∀ p ∈ merged, (l.getD p.1 .null).compare (r.getD p.2 .null) = .ok (some .eq) := by
  induction merged with
  | nil => exact ⟨fun _ => nofun, fun _ => rfl⟩
  | cons p merged ih =>
    rw [List.forall_mem_cons, ← ih]
    rcases p with ⟨i, j⟩
    rw [agree]
    cases hcompare : (l.getD i .null).compare (r.getD j .null) with
    | error err => exact ⟨nofun, nofun⟩
    | ok o =>
      rcases o with _ | (_ | _ | _)
      · exact ⟨nofun, nofun⟩
      · exact ⟨nofun, nofun⟩
      · exact ⟨fun h => ⟨rfl, h⟩, fun h => h.2⟩
      · exact ⟨nofun, nofun⟩

/-- A pair is kept if it matches. -/
theorem keepsPair_iff {b : Bool} (h : exec (keepsPair a outer columns predicate merged l r) u = (.ok b, v)) :
    b = true ↔ Matches a outer columns predicate merged l r u v := by
  unfold keepsPair at h
  obtain ⟨agreed, hagreed, h⟩ := exec_ofExcept_bind_eq_ok h
  unfold Matches
  rw [← agree_true_iff, hagreed]
  cases agreed with
  | false =>
    cases h
    exact ⟨nofun, nofun⟩
  | true =>
    cases predicate with
    | none =>
      cases h
      exact ⟨fun _ => ⟨rfl, nofun⟩, fun _ => rfl⟩
    | some e =>
      obtain ⟨x, v', hx, h⟩ := exec_bind_eq_ok h
      obtain ⟨t, ht, h⟩ := exec_ofExcept_bind_eq_ok h
      cases h
      rw [beq_iff_eq]
      constructor
      · rintro rfl
        refine ⟨rfl, ?_⟩
        rintro _ ⟨⟩
        exact ⟨x, hx, ht⟩
      · rintro ⟨-, hmatches⟩
        obtain ⟨y, hy, htrue⟩ := hmatches e rfl
        cases hx.symm.trans hy
        exact Except.ok.inj (ht.symm.trans htrue)

end

/-! ## Running a join -/

section

variable {σ α β : Type} {I : σ → Prop}

/-- A loop of calls that succeed in states that they keep. -/
theorem Run.exists_mapM_of_forall {R : α → β → Prop} {f : α → Run σ β} {xs : List α}
    (h : ∀ x ∈ xs, ∀ u, I u → ∃ y v, exec (f x) u = (.ok y, v) ∧ I v ∧ R x y) (w : σ) (hw : I w) :
    ∃ ys v, exec (xs.mapM f) w = (.ok ys, v) ∧ I v ∧ List.Forall₂ R xs ys := by
  induction xs generalizing w with
  | nil => exact ⟨[], w, rfl, hw, .nil⟩
  | cons x xs ih =>
    obtain ⟨hx, hxs⟩ := List.forall_mem_cons.mp h
    obtain ⟨y, u, hy, hu, hR⟩ := hx w hw
    obtain ⟨ys, v, hys, hv, hRs⟩ := ih hxs u hu
    refine ⟨y :: ys, v, ?_, hv, .cons hR hRs⟩
    rw [List.mapM_cons, exec_bind_ok hy, exec_bind_ok hys]
    rfl

theorem lt_of_found {columns : List ResultColumn} {name : String} {message : Error} {i : Nat}
    (h : (ResultColumn.resolve columns none name >>= fun found => match found with
      | some j => pure j
      | none => throw message) = .ok i) : i < columns.length := by
  obtain ⟨found, hfound, h⟩ := Except.exists_of_bind_eq_ok h
  cases found with
  | none => cases h
  | some j =>
    cases h
    exact ResultColumn.lt_of_resolve hfound

theorem lt_of_usingPlaces {left right : List ResultColumn} {name : String} {p : Nat × Nat}
    (h : Plan.usingPlaces left right name = .ok p) : p.1 < left.length ∧ p.2 < right.length := by
  obtain ⟨i, hi, h⟩ := Except.exists_of_bind_eq_ok h
  obtain ⟨j, hj, h⟩ := Except.exists_of_bind_eq_ok h
  cases h
  exact ⟨lt_of_found hi, lt_of_found hj⟩

/-- What planning pairs are columns of both sides. -/
theorem places_of_joinRule {left right : List ResultColumn} {outer : Scope}
    {condition : JoinCondition Select} {predicate : Option Expression} {merged : List (Nat × Nat)}
    (h : Plan.joinRule left right outer condition = .ok (predicate, merged)) :
    ∀ p ∈ merged, p.1 < left.length ∧ p.2 < right.length := by
  cases condition with
  | always =>
    cases h
    exact nofun
  | on e =>
    obtain ⟨_, -, h⟩ := Except.exists_of_bind_eq_ok h
    cases h
    exact nofun
  | using_ names =>
    obtain ⟨places, hplaces, h⟩ := Except.exists_of_bind_eq_ok h
    cases h
    intro p hp
    obtain ⟨name, -, hname⟩ := exists_of_mem_forall₂ (Except.forall₂_of_mapM_eq_ok hplaces) hp
    exact lt_of_usingPlaces hname
  | natural =>
    cases h
    intro p hp
    obtain ⟨⟨c, i⟩, hc, hfound⟩ := List.mem_filterMap.mp hp
    obtain ⟨j, hj, rfl⟩ := Option.map_eq_some_iff.mp hfound
    exact ⟨by simpa using List.snd_lt_of_mem_zipIdx hc, (List.findIdx?_eq_some_iff_getElem.mp hj).1⟩

variable {a : Access (Run σ)} {outer : Scope} {predicate : Option Expression} {merged : List (Nat × Nat)}

/-- Planned with any condition, let both sides of a join run, to rows as wide as their columns, and let the
evaluation of the condition not fail on any pair. Then the join runs, and there is a table of verdicts, each of them
that of evaluating a pair once, by which a pair is a hit exactly if it matches. The rows of the join are those that
this table says, each as often as it comes about. The columns and every row are laid out by the same places, where
a merged member is the left one, or the right one if that is NULL. -/
theorem Plan.run_join (kind : JoinKind) {left right : Plan} {condition : JoinCondition Select}
    (hrule : joinRule left.columns right.columns outer condition = .ok (predicate, merged))
    {w w₁ w₂ : σ} {l r : Relation} (hl : exec (left.run a outer) w = (.ok l, w₁))
    (hr : exec (right.run a outer) w₁ = (.ok r, w₂)) (hlfits : l.Fits left.columns)
    (hrfits : r.Fits right.columns) (hw₂ : I w₂)
    (hpairs : ∀ x ∈ l.rows, ∀ y ∈ r.rows, ∀ u, I u → ∃ b v,
      exec (keepsPair a outer (l.columns ++ r.columns) predicate merged x y) u = (.ok b, v) ∧ I v) :
    ∃ rel w₃ hits, exec ((join kind left right predicate merged).run a outer) w = (.ok rel, w₃) ∧ I w₃ ∧
      (∀ i (hi : i < l.rows.length) j (hj : j < r.rows.length), ∃ u v, I u ∧
        exec (keepsPair a outer (l.columns ++ r.columns) predicate merged l.rows[i] r.rows[j]) u =
            (.ok (hits i j), v) ∧
          (hits i j = true ↔
            Matches a outer (l.columns ++ r.columns) predicate merged l.rows[i] r.rows[j] u v)) ∧
      rel.rows.Perm (joinedBy kind hits (joinRow merged) (List.replicate l.columns.length .null)
        (List.replicate r.columns.length .null) l.rows r.rows) ∧
      rel.columns.map some = (JoinPlace.layout merged l.columns.length r.columns.length).map
        (JoinPlace.pick (fun c _ => c) l.columns r.columns) ∧
      ∀ x y : Tuple, x.length = l.columns.length → y.length = r.columns.length →
        (joinRow merged x y).map some = (JoinPlace.layout merged l.columns.length r.columns.length).map
          (JoinPlace.pick (fun v w => if v.isNull then w else v) x y) := by
  have hleft : l.columns.length = left.columns.length := by
    simpa using congrArg List.length hlfits.keys
  have hright : r.columns.length = right.columns.length := by
    simpa using congrArg List.length hrfits.keys
  have hplaces : ∀ p ∈ merged, p.1 < l.columns.length ∧ p.2 < r.columns.length := by
    rw [hleft, hright]
    exact places_of_joinRule hrule
  -- the condition is evaluated once on each pair, row by row, and the table keeps what came of it
  let keeps := keepsPair a outer (l.columns ++ r.columns) predicate merged
  let Decided := fun x y b => ∃ u v, I u ∧ exec (keeps x y) u = (.ok b, v)
  obtain ⟨hits, w₃, hhits, hw₃, htable⟩ := exists_mapM_of_forall (I := I)
    (R := fun x hs => List.Forall₂ (Decided x) r.rows hs) (f := fun x => r.rows.mapM (keeps x))
    (fun x (hx : x ∈ l.rows) => exists_mapM_of_forall fun y hy u hu => by
      obtain ⟨b, v, hb, hv⟩ := hpairs x hx y hy u hu
      exact ⟨b, v, hb, hv, u, v, hu, hb⟩) w₂ hw₂
  refine ⟨⟨joinColumns merged l.columns r.columns, joinedRows kind merged l.columns.length r.columns.length
    l.rows r.rows hits⟩, w₃, verdict hits, ?_, hw₃, ?_, ?_, map_some_joinLayout _ hplaces, ?_⟩
  · unfold run
    rw [exec_bind_ok hl, exec_bind_ok hr]
    exact exec_bind_ok hhits
  · intro i hi j hj
    have hi' : i < hits.length := htable.length_eq ▸ hi
    have hrow : List.Forall₂ (Decided l.rows[i]) r.rows hits[i] := htable.get hi hi'
    have hj' : j < hits[i].length := hrow.length_eq ▸ hj
    obtain ⟨u, v, hu, hb⟩ : Decided l.rows[i] r.rows[j] hits[i][j] := hrow.get hj hj'
    have hverdict : verdict hits i j = hits[i][j] := by
      rw [verdict, List.getD_eq_getElem _ _ hi', List.getD_eq_getElem _ _ hj']
    rw [hverdict]
    exact ⟨u, v, hu, hb, keepsPair_iff hb⟩
  · refine joinedRows_perm kind merged _ _ htable.length_eq.symm fun hs hmem => ?_
    obtain ⟨x, -, hx⟩ := exists_of_mem_forall₂ htable hmem
    exact hx.length_eq.symm
  · intro x y hx hy
    rw [← hx, ← hy]
    exact map_some_joinLayout mergeValues (by rwa [hx, hy])

end

namespace Sample

/-- The items, and all but the first of them, whose codes are `USING (code)`. -/
def allAndRest (d : TableDefinition) : Plan × Plan :=
  (.scan d (some "a"), .offset (.scan d (some "b")) (.literal (.integer 1)))

/-- Whether a relation is laid out as columns say can be computed. -/
def fitsExactly (r : Relation) (columns : List ResultColumn) : Bool :=
  r.columns == columns && r.rows.all fun row => row.length == columns.length

theorem fits_of_fitsExactly {r : Relation} {columns : List ResultColumn} (h : fitsExactly r columns = true) :
    r.Fits columns := by
  obtain ⟨hcolumns, hwidth⟩ := Bool.and_eq_true_iff.mp h
  refine ⟨by rw [beq_iff_eq.mp hcolumns], fun row hrow => ?_⟩
  exact beq_iff_eq.mp (List.all_eq_true.mp hwidth row hrow)

theorem items_joined_with_rest :
    ∃ d l r w₁ w₂, filled.database.catalog ⟨none, "items"⟩ = .ok d ∧
      Plan.joinRule (allAndRest d).1.columns (allAndRest d).2.columns [] (.using_ ["code"]) =
        .ok (none, [(1, 1)]) ∧
      exec ((allAndRest d).1.run asking []) reading = (.ok l, w₁) ∧ l.rows.length = 2 ∧
      exec ((allAndRest d).2.run asking []) w₁ = (.ok r, w₂) ∧ r.rows.length = 1 ∧
      ∃ rel w₃ hits,
        exec ((Plan.join .full (allAndRest d).1 (allAndRest d).2 none [(1, 1)]).run asking []) reading =
          (.ok rel, w₃) ∧
        rel.rows.Perm (joinedBy .full hits (joinRow [(1, 1)]) (List.replicate l.columns.length .null)
          (List.replicate r.columns.length .null) l.rows r.rows) := by
  have hcomputed : (filled.database.catalog ⟨none, "items"⟩).toOption.any (fun d =>
      (Plan.joinRule (allAndRest d).1.columns (allAndRest d).2.columns [] (.using_ ["code"])).toOption.any
          (fun rule => rule.1.isNone && rule.2 == [(1, 1)]) &&
        (exec ((allAndRest d).1.run asking []) reading).1.toOption.any fun l =>
          fitsExactly l (allAndRest d).1.columns && l.rows.length == 2 &&
            (exec ((allAndRest d).2.run asking [])
              (exec ((allAndRest d).1.run asking []) reading).2).1.toOption.any fun r =>
                fitsExactly r (allAndRest d).2.columns && r.rows.length == 1 &&
                  l.rows.all fun x => r.rows.all fun y => (agree x y [(1, 1)]).isOk) = true := by
    decide +kernel
  obtain ⟨d, hd, hran⟩ := exists_ok_of_any hcomputed
  obtain ⟨hrule, hran⟩ := Bool.and_eq_true_iff.mp hran
  obtain ⟨⟨predicate, merged⟩, hrule, hplaces⟩ := exists_ok_of_any hrule
  obtain ⟨hnone, hplaces⟩ := Bool.and_eq_true_iff.mp hplaces
  cases Option.isNone_iff_eq_none.mp hnone
  cases beq_iff_eq.mp hplaces
  obtain ⟨l, hlresult, hran⟩ := exists_ok_of_any hran
  have hl : exec ((allAndRest d).1.run asking []) reading = (.ok l, _) := Prod.ext hlresult rfl
  obtain ⟨hleft, hran⟩ := Bool.and_eq_true_iff.mp hran
  obtain ⟨hlfits, hlrows⟩ := Bool.and_eq_true_iff.mp hleft
  obtain ⟨r, hr, hright⟩ := exists_ok_of_any hran
  obtain ⟨hright, hagree⟩ := Bool.and_eq_true_iff.mp hright
  obtain ⟨hrfits, hrrows⟩ := Bool.and_eq_true_iff.mp hright
  have hpairs : ∀ x ∈ l.rows, ∀ y ∈ r.rows, ∀ u, True → ∃ b v,
      exec (keepsPair asking [] (l.columns ++ r.columns) none [(1, 1)] x y) u = (.ok b, v) ∧ True := by
    intro x hx y hy u _
    obtain ⟨b, hb⟩ := exists_ok_of_isOk (List.all_eq_true.mp (List.all_eq_true.mp hagree x hx) y hy)
    refine ⟨b, u, ?_, trivial⟩
    unfold keepsPair
    rw [hb]
    cases b <;> rfl
  obtain ⟨rel, w₃, hits, hrun, -, -, hrows, -⟩ := Plan.run_join .full hrule hl (Prod.ext hr rfl)
    (fits_of_fitsExactly hlfits) (fits_of_fitsExactly hrfits) (I := fun _ => True) trivial hpairs
  exact ⟨d, l, r, _, _, hd, hrule, hl, beq_iff_eq.mp hlrows, Prod.ext hr rfl, beq_iff_eq.mp hrrows, rel, w₃,
    hits, hrun, hrows⟩

end Sample

end SqlStore
