import SqlStore.Proofs.Transaction.Step

/-!
# What steps leave alone

No step of a statement ends its transaction or takes a snapshot away from it, and only an explicit
transaction gets one. Drawing leaves everything but the sequences alone; writing leaves definitions
and sequences alone.
-/

open Relation

namespace SqlStore

/-- The transaction is the same one, in the same state, and has the snapshot that it had. -/
structure Core.Frame (c d : Core) : Prop where
  version_eq : d.transaction.version = c.transaction.version
  explicit_eq : d.transaction.explicit = c.transaction.explicit
  state_eq : d.transaction.state = c.transaction.state
  snapshot_eq : c.transaction.snapshot.isSome = true ∨ c.transaction.explicit = false →
    d.transaction.snapshot = c.transaction.snapshot

namespace Core.Frame

variable {c d e : Core}

theorem refl (c : Core) : Frame c c := ⟨rfl, rfl, rfl, fun _ => rfl⟩

theorem trans (h : Frame c d) (k : Frame d e) : Frame c e where
  version_eq := k.version_eq.trans h.version_eq
  explicit_eq := k.explicit_eq.trans h.explicit_eq
  state_eq := k.state_eq.trans h.state_eq
  snapshot_eq hkept := by
    -- what keeps the snapshot at first keeps it later too
    have hs := h.snapshot_eq hkept
    rw [← h.explicit_eq, ← hs] at hkept
    rw [k.snapshot_eq hkept, hs]

/-- A transaction without a snapshot had none before. -/
theorem none_of_none (h : Frame c d) (hnone : d.transaction.snapshot = none) :
    c.transaction.snapshot = none := by
  cases hs : c.transaction.snapshot with
  | none => rfl
  | some p =>
    have heq := h.snapshot_eq (Or.inl (by rw [hs]; rfl))
    rw [hnone, hs] at heq
    cases heq

theorem of_transaction_eq (h : d.transaction = c.transaction) : Frame c d := by
  rcases c with ⟨s, t⟩
  rcases d with ⟨s', t'⟩
  cases h
  exact ⟨rfl, rfl, rfl, fun _ => rfl⟩

theorem of_run {step : Core → Core → Prop} (hstep : ∀ {c d}, step c d → Frame c d)
    (h : ReflTransGen step c d) : Frame c d := by
  induction h with
  | refl => exact refl c
  | tail _ hs ih => exact ih.trans (hstep hs)

end Core.Frame

variable {c d : Core}

theorem Draw.frame (h : Draw c d) : c.Frame d := .of_transaction_eq h.transaction_eq

theorem Write.frame (h : Write c d) : c.Frame d := by
  cases h with
  | capture hexplicit hnone =>
    refine ⟨rfl, rfl, rfl, ?_⟩
    rintro (hsome | himplicit)
    · rw [hnone] at hsome
      cases hsome
    · rw [hexplicit] at himplicit
      cases himplicit
  | change hready htable hchange => exact ⟨rfl, rfl, rfl, fun _ => rfl⟩

theorem Alter.transaction_eq (h : Alter c d) : d.transaction = c.transaction := by
  cases h <;> rfl

theorem Alter.run_transaction_eq (h : ReflTransGen Alter c d) :
    d.transaction = c.transaction := by
  induction h with
  | refl => rfl
  | tail _ hs ih => rw [hs.transaction_eq, ih]

theorem Works.frame (h : Works c d) : c.Frame d := by
  obtain ⟨e, hdraw, hwrite⟩ := h
  exact (Core.Frame.of_run Draw.frame hdraw).trans (Core.Frame.of_run Write.frame hwrite)

theorem Does.frame (h : Does c d) : c.Frame d := by
  rcases h with hworks | halter
  · exact hworks.frame
  · exact .of_transaction_eq (Alter.run_transaction_eq halter)

/-! ## Tables -/

namespace Table

/-- Only sequences of the table moved on. -/
structure Drawn (t u : Table) : Prop where
  definition_eq : u.definition = t.definition
  rows_eq : u.rows = t.rows
  nextId_eq : u.nextId = t.nextId
  lastKeys_eq : u.lastKeys = t.lastKeys

/-- The table has the same definition and the same sequences. -/
structure SameSequences (t u : Table) : Prop where
  definition_eq : u.definition = t.definition
  sequences_eq : u.sequences = t.sequences

theorem Drawn.refl (t : Table) : t.Drawn t := ⟨rfl, rfl, rfl, rfl⟩

theorem Drawn.trans {t u v : Table} (h : t.Drawn u) (k : u.Drawn v) : t.Drawn v :=
  ⟨k.definition_eq.trans h.definition_eq, k.rows_eq.trans h.rows_eq,
    k.nextId_eq.trans h.nextId_eq, k.lastKeys_eq.trans h.lastKeys_eq⟩

theorem Drawn.nextSequence {t u : Table} {column : String} {value : Int}
    (h : t.nextSequence column = .ok (value, u)) : t.Drawn u := by
  obtain ⟨-, rfl⟩ := nextSequence_eq_ok h
  exact ⟨rfl, rfl, rfl, rfl⟩

theorem SameSequences.refl (t : Table) : t.SameSequences t := ⟨rfl, rfl⟩

theorem SameSequences.trans {t u v : Table} (h : t.SameSequences u) (k : u.SameSequences v) :
    t.SameSequences v :=
  ⟨k.definition_eq.trans h.definition_eq, k.sequences_eq.trans h.sequences_eq⟩

theorem SameSequences.symm {t u : Table} (h : t.SameSequences u) : u.SameSequences t :=
  ⟨h.definition_eq.symm, h.sequences_eq.symm⟩

theorem Change.sameSequences {n : TableName} {t u : Table} {entry : Option Undo}
    (h : Change n t u entry) : t.SameSequences u := by
  cases h <;> exact ⟨rfl, rfl⟩

theorem sameSequences_revert (x : Undo) (t : Table) : t.SameSequences (x.revert t) := by
  cases x <;> exact ⟨rfl, rfl⟩

end Table

theorem Draw.along (h : Draw c d) (hd : c.store.Distinct) :
    Store.Along Table.Drawn c.store d.store := by
  cases h with
  | sequence htable hnext =>
    exact Store.along_put Table.Drawn.refl hd htable (Table.Drawn.nextSequence hnext)

theorem Draw.run_along (h : ReflTransGen Draw c d) (hd : c.store.Distinct) :
    Store.Along Table.Drawn c.store d.store := by
  induction h with
  | refl => exact .refl Table.Drawn.refl _
  | tail hrun hstep ih =>
    refine ih.trans (hstep.along ?_) Table.Drawn.trans
    exact (Draw.run_grown hrun hd).distinct hd

theorem Write.along (h : Write c d) (hd : c.store.Distinct) :
    Store.Along Table.SameSequences c.store d.store := by
  cases h with
  | capture hexplicit hnone => exact .refl Table.SameSequences.refl _
  | change hready htable hchange =>
    exact Store.along_put Table.SameSequences.refl hd htable hchange.sameSequences

theorem Table.SameSequences.fullName_eq (t u : Table) (h : t.SameSequences u) :
    u.definition.fullName = t.definition.fullName := by
  rw [h.definition_eq]

theorem Write.run_along (h : ReflTransGen Write c d) (hd : c.store.Distinct) :
    Store.Along Table.SameSequences c.store d.store := by
  induction h with
  | refl => exact .refl Table.SameSequences.refl _
  | tail _ hstep ih =>
    refine ih.trans (hstep.along ?_) Table.SameSequences.trans
    exact ih.distinct Table.SameSequences.fullName_eq hd

/-- Taking changes back leaves definitions and sequences alone, whether or not it comes to an end. -/
theorem Undo.along_applyAll (s : Store) (us : List Undo) :
    Store.Along Table.SameSequences s (Undo.applyAll s us).2 := by
  induction us generalizing s with
  | nil => exact .refl Table.SameSequences.refl s
  | cons u us ih =>
    unfold Undo.applyAll
    cases hu : u.apply s with
    | error e =>
      -- the rest of the log is left as it is
      exact .refl Table.SameSequences.refl s
    | ok s₁ =>
      rw [Undo.apply_eq] at hu
      have hfirst : Store.Along Table.SameSequences s s₁ := by
        rw [Store.change_eq_ok hu]
        exact Store.along_modify Table.SameSequences.refl fun t _ _ => Table.sameSequences_revert u t
      exact hfirst.trans (ih s₁) Table.SameSequences.trans

/-- An explicit transaction without a snapshot takes one before it writes anything else. -/
theorem Write.run_of_none (h : ReflTransGen Write c d) (hexplicit : c.transaction.explicit = true)
    (hnone : c.transaction.snapshot = none) : d = c ∨ ReflTransGen Write c.capture d := by
  rcases h.cases_head with rfl | ⟨e, hfirst, hrest⟩
  · exact Or.inl rfl
  · cases hfirst with
    | capture _ _ => exact Or.inr hrest
    | change hready _ _ =>
      -- a change asks for the snapshot that is missing
      have hsome := hready hexplicit
      rw [hnone] at hsome
      cases hsome

end SqlStore
