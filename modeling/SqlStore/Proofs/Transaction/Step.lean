import Mathlib.Logic.Relation
import SqlStore.Proofs.Store.Growth
import SqlStore.Proofs.Transaction.Change
import SqlStore.Transaction.Basic

/-!
# What a statement can do, step by step

A statement works on a store with a transaction, the `Core` of what it can change. Three kinds of
steps are all it does there:

* `Draw`: a sequence of a table gives out a value;
* `Write`: an explicit transaction takes its snapshot, or a table is changed and the change is
  logged. An explicit transaction has its snapshot before the first change;
* `Alter`: schemas and tables come and go.

An invariant of tables is carried through all of them (`Core.Inv`), together with the pictures that
a transaction holds, and so is the log (`Core.Undoes`): applied to the present store, it leads back
to an earlier one but for the numbers drawn in between.
-/

open Relation

namespace SqlStore

/-- A store with the transaction that works on it. -/
structure Core where
  store : Store
  transaction : Transaction

namespace Core

/-- Puts a table in the place of the one of that name. -/
def put (c : Core) (n : TableName) (u : Table) : Core := { c with store := c.store.put n u }

/-- Logs the inverse of a change, if it has one. -/
def log (c : Core) (entry : Option Undo) : Core :=
  { c with transaction := { c.transaction with undo := entry.toList ++ c.transaction.undo } }

/-- Takes the snapshot. -/
def capture (c : Core) : Core :=
  { c with transaction := { c.transaction with snapshot := some (Snapshot.capture c.store) } }

/-- The transaction may change rows: if it is explicit, it has its snapshot. -/
def Prepared (c : Core) : Prop :=
  c.transaction.explicit = true → c.transaction.snapshot.isSome = true

end Core

/-- A sequence gives out a value. -/
inductive Draw : Core → Core → Prop
  | sequence {c : Core} {n : TableName} {t u : Table} {column : String} {value : Int}
      (htable : c.store.table? n = some t) (hnext : t.nextSequence column = .ok (value, u)) :
      Draw c (c.put n u)

/-- The transaction takes its snapshot, or a table is changed. -/
inductive Write : Core → Core → Prop
  | capture {c : Core} (hexplicit : c.transaction.explicit = true)
      (hnone : c.transaction.snapshot = none) : Write c c.capture
  | change {c : Core} {n : TableName} {t u : Table} {entry : Option Undo} (hready : c.Prepared)
      (htable : c.store.table? n = some t) (hchange : Table.Change n t u entry) :
      Write c ((c.put n u).log entry)

/-- A schema or a table is made or dropped. -/
inductive Alter : Core → Core → Prop
  | createSchema {c : Core} {name : String} {s : Store}
      (h : c.store.createSchema name = .ok s) : Alter c { c with store := s }
  | dropSchema {c : Core} {name : String} {s : Store}
      (h : c.store.dropSchema name = .ok s) : Alter c { c with store := s }
  | createTable {c : Core} {d : TableDefinition} {s : Store}
      (h : c.store.createTable d = .ok s) : Alter c { c with store := s }
  | dropTable {c : Core} {n : TableName} {s : Store}
      (h : c.store.dropTable n = .ok s) : Alter c { c with store := s }

/-- What a statement on rows does: it draws first and writes then. -/
def Works : Core → Core → Prop := Comp (ReflTransGen Draw) (ReflTransGen Write)

/-- What any statement does: it works on rows, or it alters schemas and tables. -/
def Does (c c' : Core) : Prop := Works c c' ∨ ReflTransGen Alter c c'

/-- A table of a name that a change leaves with that name. -/
theorem Table.Change.fullName_eq {s : Store} {n : TableName} {t u : Table} {entry : Option Undo}
    (htable : s.table? n = some t) (h : Table.Change n t u entry) :
    u.definition.fullName = n := by
  rw [h.definition_eq]
  exact (Store.mem_of_table? htable).2

/-! ## Drawing -/

namespace Draw

variable {c c' : Core}

theorem transaction_eq (h : Draw c c') : c'.transaction = c.transaction := by
  cases h
  rfl

theorem grown (h : Draw c c') (hd : c.store.Distinct) : c.store.Grown c'.store := by
  cases h with
  | sequence htable hnext =>
    exact Store.along_put Table.Grown.refl hd htable (Table.Grown.nextSequence hnext)

theorem run_transaction_eq (h : ReflTransGen Draw c c') : c'.transaction = c.transaction := by
  induction h with
  | refl => rfl
  | tail _ hstep ih => rw [hstep.transaction_eq, ih]

theorem run_grown (h : ReflTransGen Draw c c') (hd : c.store.Distinct) :
    c.store.Grown c'.store := by
  induction h with
  | refl => exact Store.Grown.refl _
  | tail _ hstep ih => exact ih.trans (hstep.grown (ih.distinct hd))

end Draw

/-! ## Writing -/

theorem Write.prepared {c c' : Core} (h : Write c c') (hc : c.Prepared) : c'.Prepared := by
  cases h with
  | capture hexplicit hnone => exact fun _ => rfl
  | change hready htable hchange => exact hc

theorem Write.run_prepared {c c' : Core} (h : ReflTransGen Write c c') (hc : c.Prepared) :
    c'.Prepared := by
  induction h with
  | refl => exact hc
  | tail _ hstep ih => exact hstep.prepared ih

/-- The steps that a transaction takes once it may change rows. -/
def Writes (c c' : Core) : Prop := c.Prepared → ReflTransGen Write c c'

instance : Std.Refl Writes := ⟨fun _ _ => .refl⟩

instance : IsTrans Core Writes where
  trans _ _ _ h k hc := (h hc).trans (k (Write.run_prepared (h hc) hc))

/-! ## Growth and pictures -/

theorem Table.Grown.pictured {t u : Table} (h : t.Grown u) : t.pictured.Grown u.pictured where
  definition_eq := congrArg TableDefinition.pictured h.definition_eq
  rows_eq := by
    show u.rows.map _ = t.rows.map _
    rw [h.rows_eq]
  lastKeys_eq := by
    show u.lastKeys.map _ = t.lastKeys.map _
    rw [h.lastKeys_eq]
  nextId_le := h.nextId_le
  sequence_le := h.sequence_le

/-! ## Invariants -/

/-- The tables of the store have a property, and so have those of the snapshot. An explicit
transaction that has no snapshot yet could take one now, and its tables would have the property. -/
structure Core.Inv (I : Table → Prop) (c : Core) : Prop where
  distinct : c.store.Distinct
  tables : ∀ t ∈ c.store.tables, I t
  pictures : ∀ p ∈ c.transaction.snapshot, ∀ t ∈ p.tables, I t
  pictured : c.transaction.explicit = true → c.transaction.snapshot = none →
    ∀ t ∈ c.store.tables, I t.pictured

section Invariant

variable {I : Table → Prop} {c c' : Core}

/-- A store that grew, under a transaction with the same snapshot. -/
theorem Core.Inv.grown (hI : Table.Invariant I) (h : c.Inv I) (hg : c.store.Grown c'.store)
    (hexplicit : c'.transaction.explicit = c.transaction.explicit)
    (hsnapshot : c'.transaction.snapshot = c.transaction.snapshot) : c'.Inv I where
  distinct := hg.distinct h.distinct
  tables := Store.Along.forall_tables (fun _ _ => hI.grown) hg h.tables
  pictures := by
    rw [hsnapshot]
    exact h.pictures
  pictured hex hnone := by
    rw [hexplicit] at hex
    rw [hsnapshot] at hnone
    exact Store.Along.forall_tables (fun _ _ ht hg => hI.grown ht hg.pictured) hg
      (h.pictured hex hnone)

theorem Draw.inv (hI : Table.Invariant I) (h : Draw c c') (hc : c.Inv I) : c'.Inv I := by
  have ht := h.transaction_eq
  exact hc.grown hI (h.grown hc.distinct) (by rw [ht]) (by rw [ht])

theorem Write.inv (hI : Table.Invariant I) (h : Write c c') (hc : c.Inv I) : c'.Inv I := by
  cases h with
  | capture hexplicit hnone =>
    refine ⟨hc.distinct, hc.tables, ?_, nofun⟩
    rintro p ⟨⟩ t ht
    obtain ⟨u, hu, rfl⟩ := List.mem_map.mp ht
    exact hc.pictured hexplicit hnone u hu
  | @change n t u entry hready htable hchange =>
    obtain ⟨hmem, -⟩ := Store.mem_of_table? htable
    have hu : I u := hI.change (hc.tables t hmem) hchange
    refine ⟨?_, Store.forall_put hc.tables hu, hc.pictures, ?_⟩
    · show (c.store.put n u).names.Nodup
      rw [Store.names_put (hchange.fullName_eq htable)]
      exact hc.distinct
    · -- a transaction that may change rows has its snapshot, so it takes none any more
      intro hexplicit hnone
      have hsome := hready hexplicit
      rw [show c.transaction.snapshot = none from hnone] at hsome
      cases hsome

/-- Tables that are left of a store keep the invariant. -/
theorem Core.Inv.sublist (h : c.Inv I) {s : Store} (hs : s.tables.Sublist c.store.tables) :
    Core.Inv I { c with store := s } where
  distinct := (hs.map _).nodup h.distinct
  tables t ht := h.tables t (hs.subset ht)
  pictures := h.pictures
  pictured hexplicit hnone t ht := h.pictured hexplicit hnone t (hs.subset ht)

theorem perm_insertTable (t : Table) (ts : List Table) :
    (Store.insertTable t ts).Perm (t :: ts) := by
  induction ts with
  | nil => exact List.Perm.refl _
  | cons u us ih =>
    unfold Store.insertTable
    split
    · exact List.Perm.refl _
    · exact (ih.cons u).trans (List.Perm.swap t u us)

/-- A new table has a name of its own. -/
theorem createTable_eq_ok {s s' : Store} {d : TableDefinition} (h : s.createTable d = .ok s') :
    d.NamesDiffer ∧ s.table? d.fullName = none ∧
      s' = { s with tables := Store.insertTable (.ofDefinition d) s.tables } := by
  unfold Store.createTable at h
  cases hv : d.validate with
  | error e => rw [hv] at h; cases h
  | ok _ =>
    have hnames := TableDefinition.namesDiffer_of_validate hv
    rw [hv] at h
    by_cases hschema : s.hasSchema d.schema
    · by_cases hpresent : (s.table? d.fullName).isSome
      · simp [hschema, hpresent, bind, Except.bind, throw, throwThe, MonadExceptOf.throw] at h
      · simp [hschema, hpresent, bind, Except.bind, pure, Except.pure] at h
        exact ⟨hnames, by simpa using hpresent, h.symm⟩
    · simp [hschema, bind, Except.bind, throw, throwThe, MonadExceptOf.throw] at h

theorem Alter.inv (hI : Table.Invariant I) (h : Alter c c') (hc : c.Inv I) : c'.Inv I := by
  cases h with
  | @createSchema name s h =>
    unfold Store.createSchema at h
    split at h
    · cases h
    · cases h
      exact hc.sublist (List.Sublist.refl _)
  | @dropSchema name s h =>
    unfold Store.dropSchema at h
    split at h
    · cases h
    · split at h
      · cases h
      · cases h
        exact hc.sublist (List.Sublist.refl _)
  | @createTable d s h =>
    obtain ⟨hnames, hnone, rfl⟩ := createTable_eq_ok h
    -- where the new table stands among the others does not matter
    have hperm := perm_insertTable (.ofDefinition d) c.store.tables
    have hmem : ∀ t, t ∈ Store.insertTable (.ofDefinition d) c.store.tables →
        t = .ofDefinition d ∨ t ∈ c.store.tables := by
      intro t ht
      exact List.mem_cons.mp (hperm.mem_iff.mp ht)
    refine ⟨?_, ?_, hc.pictures, ?_⟩
    · show (List.map _ (Store.insertTable _ _)).Nodup
      rw [(hperm.map _).nodup_iff, List.map_cons, List.nodup_cons]
      refine ⟨?_, hc.distinct⟩
      intro hin
      have hsome := Store.table?_isSome.mpr hin
      rw [show (Table.ofDefinition d).definition.fullName = d.fullName from rfl, hnone] at hsome
      cases hsome
    · intro t ht
      rcases hmem t ht with rfl | hold
      · exact hI.ofDefinition hnames
      · exact hc.tables t hold
    · intro hexplicit hsnapshot t ht
      rcases hmem t ht with rfl | hold
      · exact hI.ofDefinition hnames.pictured
      · exact hc.pictured hexplicit hsnapshot t hold
  | @dropTable n s h =>
    unfold Store.dropTable at h
    cases ht : c.store.table n with
    | error e => rw [ht] at h; cases h
    | ok t =>
      rw [ht] at h
      cases h
      exact hc.sublist List.filter_sublist

theorem inv_of_run {step : Core → Core → Prop} (hstep : ∀ {c c'}, step c c' → c.Inv I → c'.Inv I)
    (h : ReflTransGen step c c') (hc : c.Inv I) : c'.Inv I := by
  induction h with
  | refl => exact hc
  | tail _ hs ih => exact hstep hs ih

theorem Works.inv (hI : Table.Invariant I) (h : Works c c') (hc : c.Inv I) : c'.Inv I := by
  obtain ⟨d, hdraw, hwrite⟩ := h
  exact inv_of_run (Write.inv hI) hwrite (inv_of_run (Draw.inv hI) hdraw hc)

theorem Does.inv (hI : Table.Invariant I) (h : Does c c') (hc : c.Inv I) : c'.Inv I := by
  rcases h with hworks | halter
  · exact hworks.inv hI hc
  · exact inv_of_run (Alter.inv hI) halter hc

theorem Core.Inv.mono {J : Table → Prop} (hIJ : ∀ t, I t → J t) (h : c.Inv I) : c.Inv J where
  distinct := h.distinct
  tables t ht := hIJ t (h.tables t ht)
  pictures p hp t ht := hIJ t (h.pictures p hp t ht)
  pictured hexplicit hnone t ht := hIJ _ (h.pictured hexplicit hnone t ht)

end Invariant

end SqlStore
