import SqlStore.Proofs.Partition
import SqlStore.Proofs.Query.Joins
import SqlStore.Proofs.Value.Clashes

/-!
# The groups of rows

GROUP BY makes a partition of the rows of its source, wherever the keys of a position are all of one kind that
is not that of documents. On such keys the order of tuples is a total preorder, so the groups that are built by
adding one row after the other are the classes of rows with equal keys, in strictly ascending order.
-/

namespace SqlStore

open Run

namespace Value

variable {as bs : Tuple}

/-! ## Keys -/

/-- The values are equal in every position. -/
def SameKey (as bs : Tuple) : Prop := List.Forall₂ (fun a b : Value => a.totalCompare b = .eq) as bs

/-- At the first position in which the values are not equal, those of the first tuple come first. -/
def KeyBefore (as bs : Tuple) : Prop :=
  ∃ n, (∀ i < n, (as.getD i .null).totalCompare (bs.getD i .null) = .eq) ∧
    (as.getD n .null).totalCompare (bs.getD n .null) = .lt

theorem compareTuples_eq_eq_iff : compareTuples as bs = .eq ↔ SameKey as bs := by
  unfold SameKey
  induction as generalizing bs with
  | nil => cases bs <;> simp [compareTuples]
  | cons a as ih =>
    cases bs with
    | nil => simp [compareTuples]
    | cons b bs =>
      rw [List.forall₂_cons, ← ih, compareTuples]
      exact Ordering.then_eq_eq

theorem keyBefore_of_compareTuples (hlength : as.length = bs.length) (h : compareTuples as bs = .lt) :
    KeyBefore as bs := by
  induction as generalizing bs with
  | nil =>
    cases List.length_eq_zero_iff.mp hlength.symm
    cases h
  | cons a as ih =>
    cases bs with
    | nil => cases hlength
    | cons b bs =>
      unfold compareTuples at h
      rcases Ordering.then_eq_lt.mp h with hfirst | ⟨hfirst, hrest⟩
      · exact ⟨0, fun i hi => absurd hi (Nat.not_lt_zero i), hfirst⟩
      · obtain ⟨n, hequal, hlt⟩ := ih (Nat.succ.inj hlength) hrest
        refine ⟨n + 1, fun i hi => ?_, hlt⟩
        cases i with
        | zero => exact hfirst
        | succ i => exact hequal i (Nat.lt_of_succ_lt_succ hi)

/-- NULL is equal to itself and stands behind all other values. -/
theorem totalCompare_null_right (v : Value) : v.totalCompare null = if v.isNull then .eq else .lt := by
  unfold totalCompare
  cases v.isNull <;> rfl

/-! ## Keys of one kind -/

/-- The tuples are of a width, and in each position all values are of one type, not that of documents,
or NULL. -/
structure Uniform (width : Nat) (keys : List Tuple) : Prop where
  length : ∀ k ∈ keys, k.length = width
  kind : ∀ i < width, ∃ type : DataType, type ≠ .jsonb ∧ ∀ k ∈ keys, (k.getD i .null).Among [type]

theorem together_of_among {a b : Value} {type : DataType} (htype : type ≠ .jsonb) (ha : a.Among [type])
    (hb : b.Among [type]) : a.Together b := by
  have hclash := (transitiveAmong_iff [type]).mp ((transitiveAmong_singleton type).mpr htype)
  exact ⟨hclash a b ha hb, hclash b a hb ha⟩

namespace Uniform

variable {width : Nat} {keys : List Tuple}

theorem together (h : Uniform width keys) (ha : as ∈ keys) (hb : bs ∈ keys) : TogetherTuples as bs := by
  intro p hp
  obtain ⟨i, hi, rfl⟩ := List.mem_iff_getElem.mp hp
  rw [List.getElem_zip]
  rw [List.length_zip] at hi
  obtain ⟨type, htype, hkind⟩ := h.kind i (by have := h.length as ha; omega)
  have hleft := hkind as ha
  have hright := hkind bs hb
  rw [List.getD_eq_getElem _ _ (by omega)] at hleft hright
  exact together_of_among htype hleft hright

theorem preordersOn (h : Uniform width keys) : PreordersOn compareTuples (· ∈ keys) where
  swap := fun _ _ => compareTuples_swap _ _
  trans := fun ha hb hc hab hbc =>
    compareTuples_trans (h.together ha hb) (h.together hb hc) (h.together ha hc) hab hbc

end Uniform

end Value

open Value

/-! ## Partitions -/

/-- Lists of places partition a list of keys: every place is in exactly one part, the places of a part ascend,
two places are in one part exactly if their keys are equal in every position, and the keys of the parts
ascend strictly, the first position first. -/
structure Partitions (keys : List Tuple) (parts : List (List Nat)) : Prop where
  exactlyOnce : parts.flatten.Perm (List.range keys.length)
  inOrder : ∀ p ∈ parts, p.Pairwise (· < ·)
  nonempty : ∀ p ∈ parts, p ≠ []
  together : ∀ p ∈ parts, ∀ i ∈ p, ∀ j < keys.length, j ∈ p ↔ SameKey (keys.getD i []) (keys.getD j [])
  ascending : parts.Pairwise fun p q => ∀ i ∈ p, ∀ j ∈ q, KeyBefore (keys.getD i []) (keys.getD j [])

/-- The groups of the places of keys. -/
def groupPlaces (keys : List Tuple) : List (Tuple × List Nat) :=
  keys.zipIdx.foldl (fun groups (key, i) => addToGroup compareTuples key i groups) []

section

variable {keys : List Tuple} {width : Nat}

theorem mem_classOf_zipIdx {key : Tuple} {i : Nat} :
    i ∈ classOf compareTuples key keys.zipIdx ↔ i < keys.length ∧ compareTuples key (keys.getD i []) = .eq := by
  unfold classOf
  simp only [List.mem_map, List.mem_filter, Prod.exists, List.mem_zipIdx_iff_getElem?, beq_iff_eq]
  constructor
  · rintro ⟨k, j, ⟨hk, hequal⟩, rfl⟩
    obtain ⟨hj, rfl⟩ := List.getElem?_eq_some_iff.mp hk
    exact ⟨hj, by rwa [List.getD_eq_getElem _ _ hj]⟩
  · rintro ⟨hi, hequal⟩
    rw [List.getD_eq_getElem _ _ hi] at hequal
    exact ⟨keys[i], i, ⟨List.getElem?_eq_getElem hi, hequal⟩, rfl⟩

theorem classOf_zipIdx_ascends (key : Tuple) :
    (classOf compareTuples key keys.zipIdx).Pairwise (· < ·) := by
  unfold classOf
  have hplaces : (keys.zipIdx.map Prod.snd).Pairwise (· < ·) := by
    rw [List.zipIdx_map_snd]
    exact List.pairwise_lt_range'
  exact hplaces.sublist (List.filter_sublist.map Prod.snd)

/-- The groups of the places of keys of one kind are the classes of equal keys. -/
theorem classesOf_groupPlaces (h : Uniform width keys) :
    ClassesOf compareTuples (· ∈ keys) keys.zipIdx (groupPlaces keys) :=
  classesOf_foldl h.preordersOn fun _ hp => List.fst_mem_of_mem_zipIdx hp

theorem getD_mem {i : Nat} (hi : i < keys.length) : keys.getD i [] ∈ keys := by
  rw [List.getD_eq_getElem _ _ hi]
  exact List.getElem_mem hi

theorem mem_group_iff (h : Uniform width keys) {g : Tuple × List Nat} (hg : g ∈ groupPlaces keys) {i : Nat} :
    i ∈ g.2 ↔ i < keys.length ∧ compareTuples g.1 (keys.getD i []) = .eq := by
  rw [((classesOf_groupPlaces h).member g hg).1]
  exact mem_classOf_zipIdx

/-- A place is in the group of another one if their keys are equal. -/
theorem mem_group_iff_sameKey (h : Uniform width keys) {g : Tuple × List Nat} (hg : g ∈ groupPlaces keys)
    {i j : Nat} (hi : i ∈ g.2) (hj : j < keys.length) : j ∈ g.2 ↔ SameKey (keys.getD i []) (keys.getD j []) := by
  have ho := h.preordersOn
  have hkey := (classesOf_groupPlaces h).key g hg
  obtain ⟨hilt, hikey⟩ := (mem_group_iff h hg).mp hi
  rw [mem_group_iff h hg, and_iff_right hj, ← compareTuples_eq_eq_iff]
  constructor
  · exact ho.eq_trans (getD_mem hilt) hkey (getD_mem hj) (ho.eq_symm hkey (getD_mem hilt) hikey)
  · exact ho.eq_trans hkey (getD_mem hilt) (getD_mem hj) hikey

/-- The keys at the places of a group are below those at the places of a later one. -/
theorem groupPlaces_ascend (h : Uniform width keys) : (groupPlaces keys).Pairwise fun g g' =>
    ∀ i ∈ g.2, ∀ j ∈ g'.2, compareTuples (keys.getD i []) (keys.getD j []) = .lt := by
  have ho := h.preordersOn
  have hclasses := classesOf_groupPlaces h
  refine hclasses.ascending.imp_of_mem fun {g g'} hg hg' hlt i hi j hj => ?_
  obtain ⟨hilt, hikey⟩ := (mem_group_iff h hg).mp hi
  obtain ⟨hjlt, hjkey⟩ := (mem_group_iff h hg').mp hj
  have hkey := hclasses.key g hg
  have hkey' := hclasses.key g' hg'
  have hleft := ho.lt_of_eq_of_lt (getD_mem hilt) hkey hkey' (ho.eq_symm hkey (getD_mem hilt) hikey) hlt
  exact ho.lt_of_lt_of_eq (getD_mem hilt) hkey' (getD_mem hjlt) hleft hjkey

/-- Every place is in exactly one group. -/
theorem flatten_groupPlaces_perm (h : Uniform width keys) :
    ((groupPlaces keys).map Prod.snd).flatten.Perm (List.range keys.length) := by
  have hclasses := classesOf_groupPlaces h
  refine (List.perm_ext_iff_of_nodup ?_ List.nodup_range).mpr fun i => ?_
  · refine List.nodup_flatten.mpr ⟨?_, ?_⟩
    · refine List.forall_mem_map.mpr fun g hg => ?_
      rw [(hclasses.member g hg).1]
      exact (classOf_zipIdx_ascends g.1).imp fun hlt => Nat.ne_of_lt hlt
    · -- a place in two groups would have a key below itself
      refine List.pairwise_map.mpr ((groupPlaces_ascend h).imp_of_mem fun {g g'} hg hg' hlt i hi hi' => ?_)
      have hself := hlt i hi i hi'
      rw [h.preordersOn.self (getD_mem ((mem_group_iff h hg).mp hi).1)] at hself
      cases hself
  · rw [List.mem_range, List.mem_flatten]
    constructor
    · rintro ⟨p, hp, hi⟩
      obtain ⟨g, hg, rfl⟩ := List.mem_map.mp hp
      exact ((mem_group_iff h hg).mp hi).1
    · intro hi
      have hzip : (keys[i], i) ∈ keys.zipIdx :=
        List.mem_zipIdx_iff_getElem?.mpr (List.getElem?_eq_getElem hi)
      obtain ⟨g, hg, hequal⟩ := hclasses.covered _ hzip
      refine ⟨g.2, List.mem_map_of_mem hg, (mem_group_iff h hg).mpr ⟨hi, ?_⟩⟩
      rw [List.getD_eq_getElem _ _ hi]
      exact hequal

/-- The groups of the places of keys of one kind in each position partition the keys. -/
theorem partitions_groupPlaces (h : Uniform width keys) :
    Partitions keys ((groupPlaces keys).map Prod.snd) where
  exactlyOnce := flatten_groupPlaces_perm h
  inOrder := by
    refine List.forall_mem_map.mpr fun g hg => ?_
    rw [((classesOf_groupPlaces h).member g hg).1]
    exact classOf_zipIdx_ascends g.1
  nonempty := List.forall_mem_map.mpr fun g hg => ((classesOf_groupPlaces h).member g hg).2
  together := List.forall_mem_map.mpr fun _ hg _ hi _ hj => mem_group_iff_sameKey h hg hi hj
  ascending := by
    refine List.pairwise_map.mpr ((groupPlaces_ascend h).imp_of_mem fun {g g'} hg hg' hlt i hi j hj => ?_)
    refine keyBefore_of_compareTuples ?_ (hlt i hi j hj)
    have hilt := ((mem_group_iff h hg).mp hi).1
    have hjlt := ((mem_group_iff h hg').mp hj).1
    rw [h.length _ (getD_mem hilt), h.length _ (getD_mem hjlt)]

/-- The rows of keys are grouped at the places of the keys. -/
theorem foldl_zip_eq_groupPlaces {rows : List Tuple} (hlength : keys.length = rows.length) :
    ((keys.zip rows).foldl (fun groups (key, row) => addToGroup compareTuples key row groups) []).map
        Prod.snd =
      ((groupPlaces keys).map Prod.snd).map (List.map fun i => rows.getD i []) := by
  rw [zip_eq_map_zipIdx [] hlength.symm, foldl_addToGroup_map (fun i => rows.getD i [])]
  unfold groupPlaces
  simp only [List.map_map, Function.comp_def]

end

/-! ## Running a grouped plan -/

section

variable {σ α β : Type}

/-- The results of a loop beside the elements that it went over. -/
theorem Run.exec_mapM_beside {f : α → Run σ β} {xs : List α} {ys : List β} {s t : σ}
    (h : exec (xs.mapM f) s = (.ok ys, t)) :
    ys.length = xs.length ∧
      exec (xs.mapM fun x => f x >>= fun y => pure (y, x)) s = (.ok (ys.zip xs), t) := by
  induction xs generalizing ys s with
  | nil =>
    cases h
    exact ⟨rfl, rfl⟩
  | cons x xs ih =>
    rw [List.mapM_cons] at h
    obtain ⟨y, u, hx, h⟩ := exec_bind_eq_ok h
    obtain ⟨ys', v, hxs, h⟩ := exec_bind_eq_ok h
    cases h
    obtain ⟨hlength, hrest⟩ := ih hxs
    refine ⟨congrArg (· + 1) hlength, ?_⟩
    rw [List.mapM_cons, bind_assoc, exec_bind_ok hx, pure_bind, exec_bind_ok hrest]
    rfl

variable {a : Access (Run σ)} {outer : Scope} {columns : List ResultColumn} {keys : List Expression}
  {rows : List Tuple} {w w' : σ}

/-- The keys of rows. -/
def keysOfRows (a : Access (Run σ)) (outer : Scope) (columns : List ResultColumn) (keys : List Expression)
    (rows : List Tuple) : Run σ (List Tuple) :=
  rows.mapM fun row => keys.mapM fun e =>
    e.evaluate a.toSurroundings (Frame.ofRow columns row :: outer)

theorem exec_groupRows_nil : exec (groupRows a outer columns [] rows) w = (.ok [rows], w) := rfl

theorem exec_groupRows (hne : keys ≠ []) {tuples : List Tuple}
    (h : exec (keysOfRows a outer columns keys rows) w = (.ok tuples, w')) :
    tuples.length = rows.length ∧ exec (groupRows a outer columns keys rows) w =
      (.ok (((groupPlaces tuples).map Prod.snd).map (List.map fun i => rows.getD i [])), w') := by
  obtain ⟨hlength, hkeyed⟩ := exec_mapM_beside h
  refine ⟨hlength, ?_⟩
  have hempty : keys.isEmpty = false := by
    cases keys with
    | nil => exact absurd rfl hne
    | cons => rfl
  unfold groupRows
  rw [hempty]
  rw [← foldl_zip_eq_groupPlaces hlength]
  exact exec_bind_ok hkeyed

/-- Evaluated keys have a value for each expression. -/
theorem length_of_keysOfRows {tuples : List Tuple}
    (h : exec (keysOfRows a outer columns keys rows) w = (.ok tuples, w')) :
    ∀ k ∈ tuples, k.length = keys.length := by
  intro k hk
  obtain ⟨row, -, u, v, hrow⟩ := exists_of_mem_forall₂ (exec_mapM_eq_ok h) hk
  exact (exec_mapM_eq_ok hrow).length_eq.symm

/-- The results of groups, in their order, of those that pass HAVING. -/
def outputGroups (a : Access (Run σ)) (outer : Scope) (columns : List ResultColumn)
    (having : Option Expression) (outputs : List Output) (groups : List (List Tuple)) : Run σ Relation := do
  let rows ← groups.mapM (groupOutput a outer columns having outputs)
  return outputRelation outputs (rows.filterMap id)

/-- A plan that groups runs its source, makes the groups and gives their results in the order of the groups.
Without keys, all rows of the source are one group, even if there are none. With keys that evaluate on all rows,
in each position to values of one kind other than that of documents and to NULL, the groups are the parts of a
partition of the rows by their keys. NULL is equal to itself and behind all other values. -/
theorem Plan.run_group_partitions (having : Option Expression) (outputs : List Output) {source : Plan}
    {r : Relation} {w₁ : σ} (hsource : exec (source.run a outer) w = (.ok r, w₁)) :
    exec ((group source [] having outputs).run a outer) w =
        exec (outputGroups a outer r.columns having outputs [r.rows]) w₁ ∧
      (∀ keys tuples w₂, keys ≠ [] →
        exec (keysOfRows a outer r.columns keys r.rows) w₁ = (.ok tuples, w₂) →
        (∀ i < keys.length, ∃ type : DataType, type ≠ .jsonb ∧
          ∀ k ∈ tuples, (k.getD i .null).Among [type]) →
        ∃ parts, tuples.length = r.rows.length ∧ Partitions tuples parts ∧
          exec ((group source keys having outputs).run a outer) w =
            exec (outputGroups a outer r.columns having outputs
              (parts.map (List.map fun i => r.rows.getD i []))) w₂) ∧
      ∀ v : Value, v.totalCompare .null = if v.isNull then .eq else .lt := by
  have hrun : ∀ keys groups w₂, exec (groupRows a outer r.columns keys r.rows) w₁ = (.ok groups, w₂) →
      exec ((group source keys having outputs).run a outer) w =
        exec (outputGroups a outer r.columns having outputs groups) w₂ := by
    intro keys groups w₂ hgroups
    unfold run
    rw [exec_bind_ok hsource, exec_bind_ok hgroups]
    rfl
  refine ⟨hrun [] _ _ exec_groupRows_nil, ?_, totalCompare_null_right⟩
  intro keys tuples w₂ hne hkeys hkind
  obtain ⟨hlength, hgroups⟩ := exec_groupRows hne hkeys
  exact ⟨_, hlength, partitions_groupPlaces ⟨length_of_keysOfRows hkeys, hkind⟩, hrun keys _ _ hgroups⟩

end

namespace Sample

/-- `id % 2`, which is 1 for the first item and 0 for the second one. -/
def parity : Expression :=
  .binary .remainder (.column none "id") (.literal (.integer 2))

theorem items_by_parity :
    ∃ d r w tuples w' parts, filled.database.catalog ⟨none, "items"⟩ = .ok d ∧
      exec ((Plan.scan d none).run asking []) reading = (.ok r, w) ∧
      exec (keysOfRows asking [] r.columns [parity] r.rows) w = (.ok tuples, w') ∧
      tuples.length = 2 ∧ Partitions tuples parts ∧
      exec ((Plan.group (.scan d none) [parity] none []).run asking []) reading =
        exec (outputGroups asking [] r.columns none [] (parts.map (List.map fun i => r.rows.getD i [])))
          w' := by
  have hcomputed : (filled.database.catalog ⟨none, "items"⟩).toOption.any (fun d =>
      (exec ((Plan.scan d none).run asking []) reading).1.toOption.any fun r =>
        (exec (keysOfRows asking [] r.columns [parity] r.rows)
          (exec ((Plan.scan d none).run asking []) reading).2).1.toOption.any fun tuples =>
            tuples.length == 2 && tuples.all fun k => k.map Value.datatype == [some .integer]) = true := by
    decide +kernel
  obtain ⟨d, hd, hran⟩ := exists_ok_of_any hcomputed
  obtain ⟨r, hr, hran⟩ := exists_ok_of_any hran
  obtain ⟨tuples, htuples, hkind⟩ := exists_ok_of_any hran
  have hscan : exec ((Plan.scan d none).run asking []) reading = (.ok r, _) := Prod.ext hr rfl
  obtain ⟨hlength, hkind⟩ := Bool.and_eq_true_iff.mp hkind
  have hinteger : ∀ i < [parity].length, ∃ type : DataType, type ≠ .jsonb ∧
      ∀ k ∈ tuples, (k.getD i .null).Among [type] := by
    intro i hi
    refine ⟨.integer, by decide, fun k hk => ?_⟩
    cases Nat.lt_one_iff.mp hi
    have htype := List.all_eq_true.mp hkind k hk
    cases k with
    | nil => cases htype
    | cons v rest =>
      exact Value.among_of_datatype (List.cons.inj (beq_iff_eq.mp htype)).1 (List.mem_singleton_self _)
  obtain ⟨parts, -, hparts, hrun⟩ := (Plan.run_group_partitions none [] hscan).2.1 [parity] tuples _
    (List.cons_ne_nil _ _) (Prod.ext htuples rfl) hinteger
  exact ⟨d, r, _, tuples, _, parts, hd, hscan, Prod.ext htuples rfl, beq_iff_eq.mp hlength, hparts, hrun⟩

end Sample

end SqlStore
