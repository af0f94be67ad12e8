import SqlStore.Proofs.Database.Quiet
import SqlStore.Proofs.Transaction.Step

/-!
# What the calls on a transaction do

One lemma for each call says which steps it takes. In a database with quiet triggers, `Leads R` says
that a call, however it ends, takes the store and the transaction along the steps `R`. Where a part
of a call depends on what an earlier part read, `At c` fixes the store and the transaction in
between.
-/

open Relation

namespace SqlStore

open Run

namespace Work

/-- What a statement can change. -/
def core (w : Work) : Core := ⟨w.database.store, w.transaction⟩

end Work

/-- If triggers are quiet they stay so, and the store and the transaction take steps. -/
def Leads (R : Core → Core → Prop) (w w' : Work) : Prop :=
  w.database.Quiet → w'.database.Quiet ∧ R w.core w'.core

/-- The store and the transaction are the given ones, and triggers are quiet. -/
def At (c : Core) (w : Work) : Prop := w.core = c ∧ w.database.Quiet

/-- The store and the transaction come from the given ones by steps, and triggers are quiet. -/
def Reaches (R : Core → Core → Prop) (c : Core) (w : Work) : Prop := ∃ c', R c c' ∧ At c' w

section

variable {R S : Core → Core → Prop}

instance [Std.Refl R] : Std.Refl (Leads R) where
  refl w hq := ⟨hq, refl_of R w.core⟩

instance [IsTrans Core R] : IsTrans Work (Leads R) where
  trans _ _ _ h k hq :=
    have hv := h hq
    have hw := k hv.1
    ⟨hw.1, trans_of R hv.2 hw.2⟩

theorem Leads.mono (h : ∀ c c', R c c' → S c c') (w w' : Work) (hl : Leads R w w') :
    Leads S w w' := fun hq => ⟨(hl hq).1, h _ _ (hl hq).2⟩

theorem moves_leads {α : Type} {act : Action α}
    (h : ∀ c, Meets (At c) act (fun _ => Reaches R c) (Reaches R c)) : Moves (Leads R) act := by
  intro w hq
  have hw := h w.core w ⟨rfl, hq⟩
  have hend : Reaches R w.core (exec act w).2 := by
    rcases hrun : exec act w with ⟨e | a, w'⟩ <;> rw [hrun] at hw <;> exact hw
  obtain ⟨c', hR, hcore, hquiet⟩ := hend
  rw [hcore]
  exact ⟨hquiet, hR⟩

/-- A call that leads along steps, from a given store and transaction. -/
theorem meets_reaches {α : Type} {act : Action α} (h : Moves (Leads R) act) (c : Core) :
    Meets (At c) act (fun _ => Reaches R c) (Reaches R c) := by
  refine h.meets ?_
  rintro w w' ⟨rfl, hq⟩ hl
  obtain ⟨hquiet, hR⟩ := hl hq
  exact ⟨w'.core, hR, rfl, hquiet⟩

/-- A call that only reads. -/
theorem meets_read {α : Type} {act : Action α} (h : Moves (Leads Eq) act) {c : Core}
    {E : Work → Prop} (hE : ∀ w, At c w → E w) : Meets (At c) act (fun _ => At c) E := by
  have hc : Meets (At c) act (fun _ => At c) (At c) := by
    refine h.meets ?_
    rintro w w' ⟨rfl, hq⟩ hl
    obtain ⟨hquiet, hcore⟩ := hl hq
    exact ⟨hcore.symm, hquiet⟩
  exact hc.weaken (fun _ hw => hw) (fun _ _ hw => hw) hE

/-- A call that only reads, after which nothing more happens. -/
theorem meets_last {α : Type} {act : Action α} (h : Moves (Leads Eq) act) {c : Core}
    {E : Work → Prop} (hE : ∀ w, At c w → E w) : Meets (At c) act (fun _ => E) E :=
  (meets_read h hE).weaken (fun _ hw => hw) (fun _ w hw => hE w hw) (fun _ hw => hw)

end

instance : Std.Refl (Eq : Core → Core → Prop) := ⟨fun _ => rfl⟩

instance : IsTrans Core Eq := ⟨fun _ _ _ => Eq.trans⟩

namespace Action

variable {c : Core} {E : Work → Prop}

/-! ## Calls that only read -/

/-- A call on the database that leaves the store alone. -/
theorem moves_onDatabase {α : Type} {call : Run Database α} (h : Moves Database.Settles call) :
    Moves (Leads Eq) (onDatabase call) := by
  intro w hq
  have hs := h w.database
  refine ⟨hs.quiet hq, ?_⟩
  show w.core = ⟨(exec call w.database).2.store, w.transaction⟩
  rw [hs.store_eq]
  rfl

theorem moves_fire (hook : Hook) (n : TableName) (timing : TriggerTiming)
    (operation : TableOperation) (old new : Option Row) :
    Moves (Leads Eq) (fire hook n timing operation old new) := by
  intro w hq
  have hs := Database.exec_fire_settles hq hook ⟨n, timing, operation⟩ old new
  refine ⟨hs.quiet hq, ?_⟩
  show w.core = ⟨(exec (Database.fire hook _ old new) w.database).2.store, w.transaction⟩
  rw [hs.store_eq]
  rfl

theorem moves_ensureActive : Moves (Leads Eq) ensureActive := by
  refine moves_get.bind fun w => ?_
  dsimp only
  split
  · exact moves_pure _
  · exact moves_throw _
  · exact moves_throw _

theorem moves_store : Moves (Leads Eq) store := moves_get.bind fun _ => moves_pure _

theorem moves_table (n : TableName) : Moves (Leads Eq) (table n) :=
  moves_store.bind fun _ => moves_ofExcept _

theorem moves_scan (hook : Hook) (n : TableName) : Moves (Leads Eq) (scan hook n) := by
  refine moves_ensureActive.bind fun _ => (moves_fire hook n _ _ _ _).bind fun _ => ?_
  refine (moves_table n).bind fun t => (moves_fire hook n _ _ _ _).bind fun _ => moves_pure _

theorem exec_table (n : TableName) (w : Work) :
    exec (table n) w = (w.database.store.table n, w) := by
  have hstore : exec store w = (.ok w.database.store, w) := rfl
  unfold table
  rw [exec_bind_ok hstore, exec_ofExcept]

/-- Reading a table: it is the one of the store. -/
theorem meets_table (n : TableName) (hE : ∀ w, At c w → E w) :
    Meets (At c) (table n) (fun t w => c.store.table? n = some t ∧ At c w) E := by
  rintro w ⟨rfl, hq⟩
  rw [exec_table]
  cases ht : w.database.store.table n with
  | ok t => exact ⟨Store.table_eq_ok.mp ht, rfl, hq⟩
  | error e => exact hE w ⟨rfl, hq⟩

/-- Reading a table that is known: it is still the same. -/
theorem meets_known {n : TableName} {t : Table} (ht : c.store.table? n = some t)
    (hE : ∀ w, At c w → E w) : Meets (At c) (table n) (fun u w => t = u ∧ At c w) E :=
  (meets_table n hE).weaken (fun _ hw => hw)
    (fun _ _ hw => ⟨Option.some.inj (ht.symm.trans hw.1), hw.2⟩) (fun _ hw => hw)

/-- A check, with what it gives known from then on. -/
theorem meets_check {α : Type} (r : Except Error α) (hE : ∀ w, At c w → E w) :
    Meets (At c) (ofExcept r : Action α) (fun a w => r = .ok a ∧ At c w) E :=
  meets_ofExcept (fun _ _ ha hw => ⟨ha, hw⟩) fun _ w _ hw => hE w hw

/-! ## Calls that change the store or the log -/

theorem exec_changeStore (f : Store → Except Error Store) (w : Work) :
    exec (changeStore f) w = match f w.database.store with
      | .ok s => (.ok ⟨⟩, { w with database := { w.database with store := s } })
      | .error e => (.error e, w) := by
  show ((exec (Database.changeStore f) w.database).1,
    { w with database := (exec (Database.changeStore f) w.database).2 }) = _
  unfold Database.changeStore
  rw [exec_bind_ok (exec_get _), exec_bind, exec_ofExcept]
  cases f w.database.store <;> rfl

theorem meets_changeStore (f : Store → Except Error Store) (hE : ∀ w, At c w → E w) :
    Meets (At c) (changeStore f) (fun _ w => ∃ s, f c.store = .ok s ∧ At { c with store := s } w)
      E := by
  rintro w ⟨rfl, hq⟩
  rw [exec_changeStore]
  cases hf : f w.database.store with
  | error e => exact hE w ⟨rfl, hq⟩
  | ok s => exact ⟨s, hf, rfl, hq⟩

/-- Putting a table in the place of one that is there. -/
theorem meets_putTable {n : TableName} {t : Table} (h : c.store.table? n = some t) (u : Table) :
    Meets (At c) (putTable n u) (fun _ => At (c.put n u)) E := by
  rintro w ⟨rfl, hq⟩
  have hchange : w.database.store.change n (fun _ => u) = .ok (w.database.store.put n u) :=
    Store.change_of_table? h
  unfold putTable
  rw [exec_changeStore, hchange]
  exact ⟨rfl, hq⟩

theorem meets_log (u : Undo) : Meets (At c) (log u) (fun _ => At (c.log (some u))) E := by
  rintro w ⟨rfl, hq⟩
  exact ⟨rfl, hq⟩

/-! ## Sequences -/

theorem moves_nextSequence (n : TableName) (column : String) :
    Moves (Leads (ReflTransGen Draw)) (nextSequence n column) := by
  refine moves_leads fun c => ?_
  have hstay : ∀ w, At c w → Reaches (ReflTransGen Draw) c w := fun w hw => ⟨c, .refl, hw⟩
  refine (meets_read moves_ensureActive hstay).bind fun _ => ?_
  refine (meets_table n hstay).bind fun t => meets_and fun htable => ?_
  refine (meets_check _ hstay).bind fun ⟨value, u⟩ => meets_and fun hnext => ?_
  refine (meets_putTable htable u).bind fun _ => ?_
  exact meets_pure fun w hw => ⟨c.put n u, .single (.sequence htable hnext), hw⟩

/-! ## Rows -/

/-- A transaction that got ready for a change may change rows. -/
theorem moves_prepared {α : Type} {act : Action α} (h : Moves (Leads Writes) act) :
    Moves (Leads (ReflTransGen Write)) (prepareWrite >>= fun _ => act) := by
  refine moves_leads fun c => ?_
  have hstay : ∀ w, At c w → Reaches (ReflTransGen Write) c w := fun w hw => ⟨c, .refl, hw⟩
  have hready : Meets (At c) prepareWrite
      (fun _ w => ∃ d, ReflTransGen Write c d ∧ d.Prepared ∧ At d w)
      (Reaches (ReflTransGen Write) c) := by
    refine (meets_read moves_ensureActive hstay).bind fun _ => ?_
    rintro w ⟨rfl, hq⟩
    rw [exec_bind_ok (exec_get w)]
    by_cases hc : (w.transaction.explicit && w.transaction.snapshot.isNone) = true
    · -- the snapshot is taken now
      rw [if_pos hc]
      simp only [Bool.and_eq_true, Option.isNone_iff_eq_none] at hc
      exact ⟨w.core.capture, .single (.capture hc.1 hc.2), fun _ => rfl, rfl, hq⟩
    · -- the transaction is implicit or has its snapshot
      rw [if_neg hc]
      refine ⟨w.core, .refl, ?_, rfl, hq⟩
      intro hexplicit
      show w.transaction.snapshot.isSome = true
      cases hs : w.transaction.snapshot with
      | some p => rfl
      | none =>
        rw [hs, show w.transaction.explicit = true from hexplicit] at hc
        exact absurd rfl hc
  refine hready.bind fun _ => ?_
  rintro w ⟨d, hcd, hd, hw⟩
  have hact := meets_reaches h d w hw
  have hend : Reaches Writes d (exec act w).2 := by
    rcases hrun : exec act w with ⟨e | a, w'⟩ <;> rw [hrun] at hact <;> exact hact
  obtain ⟨c', hwrites, hat⟩ := hend
  rcases hrun : exec act w with ⟨e | a, w'⟩ <;> rw [hrun] at hat <;>
    exact ⟨c', hcd.trans (hwrites hd), hat⟩

/-- A change of the table that a name finds, as a step of a transaction that may change rows. -/
theorem writes_of_change {n : TableName} {t u : Table} {entry : Option Undo}
    (htable : c.store.table? n = some t) (h : Table.Change n t u entry) :
    Writes c ((c.put n u).log entry) := fun hready => .single (.change hready htable h)

theorem existingRow_eq_ok {t : Table} {n : TableName} {id : Nat} {r : Row}
    (h : existingRow t n id = .ok r) : t.row? id = some r := by
  unfold existingRow at h
  cases hrow : t.row? id with
  | none => rw [hrow] at h; cases h
  | some q => rw [hrow] at h; cases h; rfl

theorem row?_of_existingRow {t : Table} {n : TableName} {id : Nat} {r : Row}
    (h : existingRow t n id = .ok r) : r.id = id ∧ t.row? r.id = some r := by
  have hrow := existingRow_eq_ok h
  have hid : r.id = id := (Table.mem_of_rowIn hrow).2
  rw [hid]
  exact ⟨rfl, hrow⟩

theorem moves_insertOne (hook : Hook) (n : TableName) (values : Tuple) :
    Moves (Leads Writes) (insertOne hook n values) := by
  refine moves_leads fun c => ?_
  have hstay : ∀ w, At c w → Reaches Writes c w := fun w hw => ⟨c, refl_of Writes c, hw⟩
  refine (meets_table n hstay).bind fun t => meets_and fun htable => ?_
  refine (meets_check _ hstay).bind fun accepted => meets_and fun haccept => ?_
  refine (meets_putTable htable t.allocate.2).bind fun _ => ?_
  -- the number is given out, and a failure from here on keeps it
  let d := c.put n t.allocate.2
  have hname : t.allocate.2.definition.fullName = n := (Store.mem_of_table? htable).2
  have hnumbered : ∀ w, At d w → Reaches Writes c w := fun w hw =>
    ⟨d, writes_of_change htable .number, hw⟩
  refine (meets_read (moves_fire hook n _ _ _ _) hnumbered).bind fun _ => ?_
  have hd : d.store.table? n = some t.allocate.2 := Store.table?_put htable hname
  refine (meets_known hd hnumbered).bind fun _ => meets_and ?_
  rintro rfl
  refine (meets_check _ hnumbered).bind fun _ => meets_and fun hunique => ?_
  refine (meets_putTable hd _).bind fun _ => ?_
  refine (meets_log _).bind fun _ => ?_
  -- the row is in and logged, and the last triggers can only fail
  let e := (c.put n (t.allocate.2.put ⟨t.nextId, accepted⟩)).log (some (.remove n t.nextId))
  have hput : d.put n (t.allocate.2.put ⟨t.nextId, accepted⟩) =
      c.put n (t.allocate.2.put ⟨t.nextId, accepted⟩) :=
    congrArg (fun s => Core.mk s c.transaction) (Store.modify_modify fun _ => hname)
  have hinserted : ∀ w, At e w → Reaches Writes c w := fun w hw =>
    ⟨e, writes_of_change htable (.insert haccept hunique), hw⟩
  rw [hput]
  refine (meets_read (moves_fire hook n _ _ _ _) hinserted).bind fun _ => ?_
  exact meets_pure hinserted

theorem moves_insert (hook : Hook) (n : TableName) (rows : List Tuple) :
    Moves (Leads (ReflTransGen Write)) (insert hook n rows) := by
  refine moves_prepared ?_
  refine (moves_mapM (moves_insertOne hook n) rows).bind fun inserted => ?_
  refine moves_leads fun c => ?_
  have hstay : ∀ w, At c w → Reaches Writes c w := fun w hw => ⟨c, refl_of Writes c, hw⟩
  refine (meets_table n hstay).bind fun t => meets_and fun htable => ?_
  refine (meets_putTable htable _).bind fun _ => (meets_log _).bind fun _ => ?_
  exact meets_pure fun w hw => ⟨_, writes_of_change htable (.keys _), hw⟩

theorem moves_update (hook : Hook) (n : TableName) (id : Nat) (values : Tuple) :
    Moves (Leads (ReflTransGen Write)) (update hook n id values) := by
  refine moves_prepared (moves_leads fun c => ?_)
  have hstay : ∀ w, At c w → Reaches Writes c w := fun w hw => ⟨c, refl_of Writes c, hw⟩
  refine (meets_table n hstay).bind fun t => meets_and fun htable => ?_
  refine (meets_check _ hstay).bind fun old => meets_and fun hold => ?_
  refine (meets_check _ hstay).bind fun accepted => meets_and fun haccept => ?_
  refine (meets_read (moves_fire hook n _ _ _ _) hstay).bind fun _ => ?_
  -- the triggers left the table alone
  refine (meets_known htable hstay).bind fun _ => meets_and ?_
  rintro rfl
  refine (meets_check _ hstay).bind fun _ => meets_and fun hunique => ?_
  refine (meets_putTable htable _).bind fun _ => (meets_log _).bind fun _ => ?_
  obtain ⟨rfl, hrow⟩ := row?_of_existingRow hold
  have hupdated : ∀ w, At ((c.put n (t.put (old.withValues accepted))).log (some (.put n old))) w →
      Reaches Writes c w := fun w hw =>
    ⟨_, writes_of_change htable (.update hrow haccept hunique), hw⟩
  refine (meets_read (moves_fire hook n _ _ _ _) hupdated).bind fun _ => ?_
  exact meets_pure hupdated

theorem moves_delete (hook : Hook) (n : TableName) (id : Nat) :
    Moves (Leads (ReflTransGen Write)) (delete hook n id) := by
  refine moves_prepared (moves_leads fun c => ?_)
  have hstay : ∀ w, At c w → Reaches Writes c w := fun w hw => ⟨c, refl_of Writes c, hw⟩
  refine (meets_table n hstay).bind fun t => meets_and fun htable => ?_
  refine (meets_check _ hstay).bind fun old => meets_and fun hold => ?_
  refine (meets_read (moves_fire hook n _ _ _ _) hstay).bind fun _ => ?_
  refine (meets_known htable hstay).bind fun _ => meets_and ?_
  rintro rfl
  refine (meets_putTable htable _).bind fun _ => (meets_log _).bind fun _ => ?_
  obtain ⟨rfl, hrow⟩ := row?_of_existingRow hold
  have hdeleted : ∀ w, At ((c.put n (t.remove old.id)).log (some (.put n old))) w →
      Reaches Writes c w := fun w hw => ⟨_, writes_of_change htable (.delete hrow), hw⟩
  exact meets_last (moves_fire hook n _ _ _ _) hdeleted

/-! ## Schemas and tables -/

theorem moves_hasSchema (name : String) : Moves (Leads Eq) (hasSchema name) :=
  moves_store.bind fun _ => moves_pure _

theorem moves_definition? (n : TableName) : Moves (Leads Eq) (definition? n) :=
  moves_store.bind fun _ => moves_pure _

/-- A change of the store that a step allows for; a failure leaves the store alone. -/
theorem meets_alter {f : Store → Except Error Store}
    (h : ∀ s, f c.store = .ok s → Alter c { c with store := s }) (hE : ∀ w, At c w → E w) :
    Meets (At c) (ensureActive >>= fun _ => changeStore f) (fun _ => Reaches Alter c) E := by
  refine (meets_read moves_ensureActive hE).bind fun _ => ?_
  refine (meets_changeStore f hE).weaken (fun _ hw => hw) ?_ (fun _ hw => hw)
  rintro _ w ⟨s, hs, hw⟩
  exact ⟨_, h s hs, hw⟩

theorem meets_createSchema (name : String) (hE : ∀ w, At c w → E w) :
    Meets (At c) (createSchema name) (fun _ => Reaches Alter c) E :=
  meets_alter (fun _ hs => .createSchema hs) hE

theorem meets_dropSchema (name : String) (hE : ∀ w, At c w → E w) :
    Meets (At c) (dropSchema name) (fun _ => Reaches Alter c) E :=
  meets_alter (fun _ hs => .dropSchema hs) hE

theorem meets_createTable (d : TableDefinition) (hE : ∀ w, At c w → E w) :
    Meets (At c) (createTable d) (fun _ => Reaches Alter c) E :=
  meets_alter (fun _ hs => .createTable hs) hE

theorem moves_dropTable (n : TableName) :
    Moves (Leads (ReflTransGen Alter)) (dropTable n) := by
  refine moves_leads fun c => ?_
  have hstay : ∀ w, At c w → Reaches (ReflTransGen Alter) c w := fun w hw => ⟨c, .refl, hw⟩
  refine (meets_read moves_ensureActive hstay).bind fun _ => ?_
  refine (meets_changeStore _ hstay).bind fun _ => ?_
  rintro w ⟨s, hs, hw⟩
  -- the triggers of the table go once the table is gone
  have hdropped : ∀ v, At { c with store := s } v → Reaches (ReflTransGen Alter) c v :=
    fun v hv => ⟨_, .single (.dropTable hs), hv⟩
  exact meets_last (moves_onDatabase (Database.moves_dropTriggers n)) hdropped w hw

end Action

end SqlStore
