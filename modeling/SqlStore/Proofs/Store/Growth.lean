import Mathlib.Data.List.Forall2
import Mathlib.Data.List.Nodup
import SqlStore.Proofs.Table.Growth
import SqlStore.Store.Basic

/-!
# Stores, table by table

What replacing a table does to the tables of a store, and what it means that two stores agree table
by table up to a relation (`Store.Along`), such as growth. Two tables of a store never share a name
(`Store.Distinct`), so the table that a name finds is the only one that a change of that name
touches.
-/

namespace SqlStore

namespace Store

/-- The names of the tables. -/
def names (s : Store) : List TableName := s.tables.map fun t => t.definition.fullName

/-- No two tables share a name. -/
def Distinct (s : Store) : Prop := s.names.Nodup

/-- Puts a table in the place of the one of that name. -/
def put (s : Store) (n : TableName) (u : Table) : Store := s.modify n fun _ => u

section Lookup

variable {s : Store} {n : TableName} {t : Table}

theorem mem_of_table? (h : s.table? n = some t) : t ∈ s.tables ∧ t.definition.fullName = n := by
  have hname := List.find?_some h
  exact ⟨List.mem_of_find?_eq_some h, by simpa using hname⟩

theorem table?_isSome : (s.table? n).isSome ↔ n ∈ s.names := by
  unfold table? names
  rw [List.find?_isSome, List.mem_map]
  simp only [beq_iff_eq]

/-- A name finds the one table that has it. -/
theorem Distinct.eq_of_table? (hd : s.Distinct) (h : s.table? n = some t) {u : Table}
    (hu : u ∈ s.tables) (hn : u.definition.fullName = n) : u = t := by
  obtain ⟨ht, htn⟩ := mem_of_table? h
  exact List.inj_on_of_nodup_map hd hu ht (hn.trans htn.symm)

theorem Distinct.table?_of_mem (hd : s.Distinct) (ht : t ∈ s.tables) :
    s.table? t.definition.fullName = some t := by
  have hsome : (s.table? t.definition.fullName).isSome :=
    table?_isSome.mpr (List.mem_map_of_mem ht)
  obtain ⟨u, hu⟩ := Option.isSome_iff_exists.mp hsome
  rw [hu, hd.eq_of_table? hu ht rfl]

theorem table_eq_ok : s.table n = .ok t ↔ s.table? n = some t := by
  unfold table
  cases s.table? n <;> simp

theorem change_of_table? {f : Table → Table} (h : s.table? n = some t) :
    s.change n f = .ok (s.modify n f) := by
  unfold change
  rw [table_eq_ok.mpr h]
  rfl

theorem change_eq_ok {f : Table → Table} {s' : Store} (h : s.change n f = .ok s') :
    s' = s.modify n f := by
  unfold change at h
  cases ht : s.table n with
  | error e => rw [ht] at h; cases h
  | ok t =>
    rw [ht] at h
    cases h
    rfl

end Lookup

/-! ## Replacing a table -/

section Modify

variable {s : Store} {n : TableName} {f g : Table → Table}

theorem mem_modify {t : Table} :
    t ∈ (s.modify n f).tables ↔
      ∃ u ∈ s.tables, (if u.definition.fullName = n then f u else u) = t := by
  show t ∈ s.tables.map _ ↔ _
  rw [List.mem_map]
  simp only [beq_iff_eq]

theorem names_modify
    (h : ∀ t ∈ s.tables, t.definition.fullName = n → (f t).definition.fullName = n) :
    (s.modify n f).names = s.names := by
  show (s.tables.map _).map _ = s.tables.map _
  rw [List.map_map]
  apply List.map_congr_left
  intro t ht
  show (if t.definition.fullName == n then f t else t).definition.fullName = _
  by_cases hn : t.definition.fullName = n
  · rw [if_pos (beq_iff_eq.mpr hn), h t ht hn, hn]
  · rw [if_neg (mt beq_iff_eq.mp hn)]

theorem modify_modify (h : ∀ t, (f t).definition.fullName = n) :
    (s.modify n f).modify n g = s.modify n fun t => g (f t) := by
  have htables : ((s.modify n f).modify n g).tables = (s.modify n fun t => g (f t)).tables := by
    -- the second change looks at the name that the first one left
    show (s.tables.map _).map _ = s.tables.map _
    rw [List.map_map]
    apply List.map_congr_left
    intro t _
    show (if (if t.definition.fullName == n then f t else t).definition.fullName == n then _
      else _) = _
    by_cases hn : t.definition.fullName = n
    · rw [if_pos (beq_iff_eq.mpr hn), if_pos (beq_iff_eq.mpr (h t)), if_pos (beq_iff_eq.mpr hn)]
      show g (if t.definition.fullName == n then f t else t) = _
      rw [if_pos (beq_iff_eq.mpr hn)]
    · rw [if_neg (mt beq_iff_eq.mp hn), if_neg (mt beq_iff_eq.mp hn),
        if_neg (mt beq_iff_eq.mp hn)]
  exact congrArg (Store.mk s.schemas) htables

/-- A property of all tables is kept if the table put in has it. -/
theorem forall_put {I : Table → Prop} {u : Table} (h : ∀ t ∈ s.tables, I t) (hu : I u) :
    ∀ t ∈ (s.put n u).tables, I t := by
  intro t ht
  obtain ⟨v, hv, rfl⟩ := mem_modify.mp ht
  split
  · exact hu
  · exact h v hv

theorem names_put {u : Table} (hu : u.definition.fullName = n) : (s.put n u).names = s.names :=
  names_modify fun _ _ _ => hu

theorem table?_put {t u : Table} (h : s.table? n = some t) (hu : u.definition.fullName = n) :
    (s.put n u).table? n = some u := by
  -- the search stops at the same place as before
  have hsame : ((fun v : Table => v.definition.fullName == n) ∘
      fun v => if v.definition.fullName == n then u else v) =
      fun v => v.definition.fullName == n := by
    funext v
    show ((if v.definition.fullName == n then u else v).definition.fullName == n) = _
    by_cases hn : v.definition.fullName = n
    · rw [if_pos (beq_iff_eq.mpr hn), hu, hn]
    · rw [if_neg (mt beq_iff_eq.mp hn)]
  show (s.tables.map _).find? _ = _
  rw [List.find?_map, hsame]
  show (s.table? n).map _ = _
  rw [h, Option.map_some, if_pos (beq_iff_eq.mpr (mem_of_table? h).2)]

theorem table?_put_of_ne {u : Table} {m : TableName} (hu : u.definition.fullName = n) (hm : m ≠ n) :
    (s.put n u).table? m = s.table? m := by
  -- a table that is replaced was not looked for, and neither is the one in its place
  show (s.tables.map _).find? _ = s.tables.find? _
  induction s.tables with
  | nil => rfl
  | cons v tables ih =>
    rw [List.map_cons, List.find?_cons, List.find?_cons, ih]
    by_cases hn : v.definition.fullName = n
    · rw [if_pos (beq_iff_eq.mpr hn), hu, hn, beq_false_of_ne hm.symm]
    · rw [if_neg (mt beq_iff_eq.mp hn)]

theorem put_self {t : Table} (hd : s.Distinct) (h : s.table? n = some t) : s.put n t = s := by
  have htables : (s.tables.map fun v => if v.definition.fullName == n then t else v) = s.tables := by
    refine (List.map_congr_left fun v hv => ?_).trans (List.map_id _)
    split
    · next hname => exact (hd.eq_of_table? h hv (beq_iff_eq.mp hname)).symm
    · rfl
  exact congrArg (Store.mk s.schemas) htables

theorem put_put {u v : Table} (hu : u.definition.fullName = n) : (s.put n u).put n v = s.put n v :=
  modify_modify fun _ => hu

end Modify

/-! ## Agreement table by table -/

/-- The stores have the same schemas and, table by table, tables that are related. -/
structure Along (R : Table → Table → Prop) (s s' : Store) : Prop where
  schemas_eq : s'.schemas = s.schemas
  tables : List.Forall₂ R s.tables s'.tables

/-- The second store is the first one after tables gave out row numbers and sequence values. -/
abbrev Grown : Store → Store → Prop := Along Table.Grown

namespace Along

variable {R S : Table → Table → Prop} {s s' s'' : Store} {n : TableName}

theorem refl (hR : ∀ t, R t t) (s : Store) : Along R s s :=
  ⟨rfl, List.forall₂_same.mpr fun t _ => hR t⟩

theorem trans {T : Table → Table → Prop} (h : Along R s s') (k : Along S s' s'')
    (hT : ∀ {t u v}, R t u → S u v → T t v) : Along T s s'' := by
  refine ⟨k.schemas_eq.trans h.schemas_eq, ?_⟩
  -- the lists of the stores are no variables, so the induction is on lists of their own
  have compose : ∀ {ts us : List Table}, List.Forall₂ R ts us →
      ∀ {vs}, List.Forall₂ S us vs → List.Forall₂ T ts vs := by
    intro ts us htables
    induction htables with
    | nil =>
      intro vs hvs
      cases hvs
      exact List.Forall₂.nil
    | cons htu _ ih =>
      intro vs hvs
      cases hvs with
      | cons huv hrest => exact List.Forall₂.cons (hT htu huv) (ih hrest)
  exact compose h.tables k.tables

theorem imp (hRS : ∀ t u, R t u → S t u) (h : Along R s s') : Along S s s' :=
  ⟨h.schemas_eq, h.tables.imp hRS⟩

theorem symm {T : Table → Table → Prop} (h : Along R s s') (hT : ∀ {t u}, R t u → T u t) :
    Along T s' s :=
  ⟨h.schemas_eq.symm, (h.tables.imp fun _ _ htu => hT htu : List.Forall₂ (flip T) _ _).flip⟩

/-- Every table of the second store comes from one of the first. -/
theorem exists_of_mem (h : Along R s s') {u : Table} (hu : u ∈ s'.tables) :
    ∃ t ∈ s.tables, R t u := by
  rcases s with ⟨schemas, ts⟩
  rcases s' with ⟨schemas', us⟩
  have htables : List.Forall₂ R ts us := h.tables
  clear h
  show ∃ t ∈ ts, R t u
  replace hu : u ∈ us := hu
  induction htables with
  | nil => cases hu
  | @cons t v ts vs htv _ ih =>
    rcases List.mem_cons.mp hu with rfl | hmem
    · exact ⟨t, List.mem_cons_self, htv⟩
    · obtain ⟨w, hw, hwu⟩ := ih hmem
      exact ⟨w, List.mem_cons_of_mem _ hw, hwu⟩

/-- A property that the relation hands on holds of all tables of the second store. -/
theorem forall_tables {I : Table → Prop} (hI : ∀ t u, I t → R t u → I u) (h : Along R s s')
    (ht : ∀ t ∈ s.tables, I t) : ∀ t ∈ s'.tables, I t := by
  intro u hu
  obtain ⟨t, hmem, hR⟩ := h.exists_of_mem hu
  exact hI t u (ht t hmem) hR

/-- What related tables share is the same in both stores. -/
theorem map_eq {α : Type} {f : Table → α} (h : Along R s s') (hf : ∀ t u, R t u → f u = f t) :
    s'.tables.map f = s.tables.map f := by
  rcases s with ⟨schemas, ts⟩
  rcases s' with ⟨schemas', us⟩
  have htables : List.Forall₂ R ts us := h.tables
  clear h
  show us.map f = ts.map f
  induction htables with
  | nil => rfl
  | cons htu _ ih => rw [List.map_cons, List.map_cons, hf _ _ htu, ih]

section Names

variable (hname : ∀ t u, R t u → u.definition.fullName = t.definition.fullName)

include hname

theorem names_eq (h : Along R s s') : s'.names = s.names := h.map_eq hname

theorem distinct (h : Along R s s') (hd : s.Distinct) : s'.Distinct := by
  unfold Distinct
  rw [h.names_eq hname]
  exact hd

/-- A name finds related tables in both stores. -/
theorem table? (h : Along R s s') : Option.Rel R (s.table? n) (s'.table? n) := by
  rcases s with ⟨schemas, ts⟩
  rcases s' with ⟨schemas', us⟩
  have htables : List.Forall₂ R ts us := h.tables
  clear h
  show Option.Rel R (ts.find? _) (us.find? _)
  induction htables with
  | nil => exact Option.Rel.none
  | cons htu _ ih =>
    rw [List.find?_cons, List.find?_cons, hname _ _ htu]
    split
    · exact Option.Rel.some htu
    · exact ih

/-- Changing the tables of a name alike keeps the agreement. -/
theorem modify {f : Table → Table} (hf : ∀ t u, R t u → R (f t) (f u)) (h : Along R s s') :
    Along R (s.modify n f) (s'.modify n f) := by
  refine ⟨h.schemas_eq, ?_⟩
  show List.Forall₂ _ (s.tables.map _) (s'.tables.map _)
  rw [List.forall₂_map_left_iff, List.forall₂_map_right_iff]
  apply h.tables.imp
  intro t u htu
  rw [hname _ _ htu]
  split
  · exact hf t u htu
  · exact htu

end Names

end Along

/-- Changing the tables of a name to related ones. -/
theorem along_modify {R : Table → Table → Prop} (hR : ∀ t, R t t) {s : Store} {n : TableName}
    {f : Table → Table} (h : ∀ t ∈ s.tables, t.definition.fullName = n → R t (f t)) :
    Along R s (s.modify n f) := by
  refine ⟨rfl, ?_⟩
  show List.Forall₂ _ s.tables (s.tables.map _)
  rw [List.forall₂_map_right_iff, List.forall₂_same]
  intro t ht
  split
  · next hn => exact h t ht (beq_iff_eq.mp hn)
  · exact hR t

/-- Putting in a table that is related to the one there. -/
theorem along_put {R : Table → Table → Prop} (hR : ∀ t, R t t) {s : Store} {n : TableName}
    {t u : Table} (hd : s.Distinct) (h : s.table? n = some t) (htu : R t u) :
    Along R s (s.put n u) := by
  apply along_modify hR
  intro v hv hn
  rw [hd.eq_of_table? h hv hn]
  exact htu

/-! ## Growth -/

namespace Grown

variable {s s' s'' : Store}

theorem refl (s : Store) : Grown s s := Along.refl Table.Grown.refl s

theorem trans (h : Grown s s') (k : Grown s' s'') : Grown s s'' :=
  Along.trans h k Table.Grown.trans

theorem fullName_eq (t u : Table) (h : t.Grown u) :
    u.definition.fullName = t.definition.fullName := by
  rw [h.definition_eq]

theorem distinct (h : Grown s s') (hd : s.Distinct) : s'.Distinct := Along.distinct fullName_eq h hd

end Grown

end Store

end SqlStore
