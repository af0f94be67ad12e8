import SqlStore.Proofs.Session.Sample
import SqlStore.Proofs.Transaction.Pool
import SqlStore.Proofs.Transaction.RowUndo

/-!
# Undoing beside other transactions

A transaction that aborts its statement takes back its own row changes, and those of the transactions that
worked beside it stay, as long as no row was changed by both. A row that the others left alone is led back
by the log to what it was when the statement began (`Pool.revertedRow_run`); a row that the transaction left
alone has no entry in its log.
-/

open Relation

namespace SqlStore

open Run

/-- The database is the same. -/
def SameDatabase (w w' : Work) : Prop := w'.database = w.database

instance : Std.Refl SameDatabase := ⟨fun _ => rfl⟩

instance : IsTrans Work SameDatabase := ⟨fun _ _ _ h k => Eq.trans k h⟩

namespace Call

instance : Std.Refl (ReflTransGen RowStep) := ⟨fun _ => .refl⟩

/-- The calls of statements on rows take steps of work on rows. -/
theorem rowSteps {c : Call} (hook : Hook) (hc : c.OnRows) :
    Moves (Leads (ReflTransGen RowStep)) (c.perform hook) := by
  have hread : ∀ {α : Type} {act : Action α}, Moves (Leads Eq) act →
      Moves (Leads (ReflTransGen RowStep)) act := fun h => by
    refine h.mono (Leads.mono ?_)
    rintro d _ rfl
    exact .refl
  have hdraw : ∀ {α : Type} {act : Action α}, Moves (Leads (ReflTransGen Draw)) act →
      Moves (Leads (ReflTransGen RowStep)) act := fun h =>
    h.mono (Leads.mono fun _ _ hrun => ReflTransGen.mono (fun _ _ => Or.inl) _ _ hrun)
  have hwrite : ∀ {α : Type} {act : Action α}, Moves (Leads (ReflTransGen Write)) act →
      Moves (Leads (ReflTransGen RowStep)) act := fun h =>
    h.mono (Leads.mono fun _ _ hrun => ReflTransGen.mono (fun _ _ => Or.inr) _ _ hrun)
  cases c with
  | hasSchema name => exact (hread (Action.moves_hasSchema name)).bind fun _ => moves_pure _
  | definition n => exact (hread (Action.moves_definition? n)).bind fun _ => moves_pure _
  | scan n => exact (hread (Action.moves_scan hook n)).bind fun _ => moves_pure _
  | nextSequence n column =>
    exact (hdraw (Action.moves_nextSequence n column)).bind fun _ => moves_pure _
  | insert n rows => exact (hwrite (Action.moves_insert hook n rows)).bind fun _ => moves_pure _
  | update n id values =>
    exact (hwrite (Action.moves_update hook n id values)).bind fun _ => moves_pure _
  | delete n id => exact hwrite (Action.moves_delete hook n id)
  | _ => exact hc.elim

/-- Starting a statement and committing do nothing to the database. -/
theorem sameDatabase {c : Call} (hook : Hook) (hc : c = .beginStatement ∨ c = .commit) :
    Moves SameDatabase (c.perform hook) := by
  rcases hc with rfl | rfl
  · exact Carried.ensureActive.bind fun _ _ => rfl
  · exact Carried.ensureActive.bind fun _ _ => rfl

end Call

/-- What may happen while transaction `i` is in a statement: transactions begin, all of them work on
rows, and the others start statements and commit. -/
def Request.Beside (i : Nat) : Request → Prop
  | .begin_ _ _ => True
  | .call j c => c.OnRows ∨ j ≠ i ∧ (c = .beginStatement ∨ c = .commit)
  | _ => False

namespace Pool

/-- The entries of a transaction's log about a row. -/
def entries (p : Pool) (i : Nat) (n : TableName) (id : Nat) : List Undo :=
  ((p.transactions[i]?.map Transaction.undo).getD []).filter fun u => u.about = some (n, id)

/-- A call of a transaction changes a row: another one is stored under its number afterwards, or the
change of it was logged. -/
def Changes (p : Pool) (i : Nat) (c : Call) (n : TableName) (id : Nat) : Prop :=
  (p.step (.call i c)).store.row? n id ≠ p.store.row? n id ∨
    (p.entries i n id).length < ((p.step (.call i c)).entries i n id).length

/-- In a run, a call of a transaction changes a row. -/
def ChangedBy (p : Pool) (requests : List Request) (i : Nat) (n : TableName) (id : Nat) : Prop :=
  ∃ before c after, requests = before ++ .call i c :: after ∧ (p.run before).Changes i c n id

/-- In a run, a call of a transaction makes a row that was not there. -/
def InsertedBy (p : Pool) (requests : List Request) (i : Nat) (n : TableName) (id : Nat) : Prop :=
  ∃ before c after, requests = before ++ .call i c :: after ∧
    (p.run before).store.row? n id = none ∧
    ((p.run before).step (.call i c)).store.row? n id ≠ none

variable {p : Pool} {i : Nat} {t : Transaction} {n : TableName} {id : Nat}

theorem InsertedBy.changedBy {requests : List Request} (h : p.InsertedBy requests i n id) :
    p.ChangedBy requests i n id := by
  obtain ⟨before, c, after, hrequests, hnone, hsome⟩ := h
  exact ⟨before, c, after, hrequests, .inl (hnone ▸ hsome)⟩

theorem Changes.changedBy_cons {c : Call} (h : p.Changes i c n id) (requests : List Request) :
    p.ChangedBy (.call i c :: requests) i n id := ⟨[], c, requests, rfl, h⟩

theorem ChangedBy.cons {requests : List Request} {r : Request}
    (h : (p.step r).ChangedBy requests i n id) : p.ChangedBy (r :: requests) i n id := by
  obtain ⟨before, c, after, rfl, hchanges⟩ := h
  exact ⟨r :: before, c, after, rfl, hchanges⟩

theorem ChangedBy.of_singleton {r : Request} (h : p.ChangedBy [r] i n id) (requests : List Request) :
    p.ChangedBy (r :: requests) i n id := by
  obtain ⟨before, c, after, hr, hchanges⟩ := h
  refine ⟨before, c, after ++ requests, ?_, hchanges⟩
  rw [← List.singleton_append, hr, List.append_assoc, List.cons_append]

theorem ChangedBy.of_cons {requests : List Request} {r : Request}
    (h : p.ChangedBy (r :: requests) i n id) :
    p.ChangedBy [r] i n id ∨ (p.step r).ChangedBy requests i n id := by
  obtain ⟨before, c, after, hr, hchanges⟩ := h
  cases before with
  | nil =>
    obtain ⟨rfl, -⟩ := List.cons_eq_cons.mp hr
    exact .inl (hchanges.changedBy_cons [])
  | cons q before =>
    obtain ⟨rfl, rfl⟩ := List.cons_eq_cons.mp hr
    exact .inr ⟨before, c, after, rfl, hchanges⟩

/-! ## Steps -/

theorem entries_eq (ht : p.transactions[i]? = some t) (n : TableName) (id : Nat) :
    p.entries i n id = t.undo.filter fun u => u.about = some (n, id) := by
  unfold entries
  rw [ht]
  rfl

/-- The store and a transaction of the pool. -/
def core (p : Pool) (t : Transaction) : Core := ⟨p.store, t⟩

/-- What a call on rows does. -/
theorem step_onRows {c : Call} (hquiet : p.database.Quiet) (ht : p.transactions[i]? = some t)
    (hc : c.OnRows) : (p.step (.call i c)).database.Quiet ∧
      ∃ t', (p.step (.call i c)).transactions = p.transactions.set i t' ∧
        ReflTransGen RowStep (p.core t) ((p.step (.call i c)).core t') := by
  obtain ⟨hquiet', hsteps⟩ := Call.rowSteps p.database.hook hc (p.work t) hquiet
  rw [step_call ht]
  exact ⟨hquiet', _, rfl, hsteps⟩

/-- Triggers are still quiet, row numbers have gone on, and the transaction took steps of its own if it was
called, or it is as it was. -/
structure Advances (i : Nat) (t : Transaction) (p : Pool) (r : Request) (t' : Transaction) : Prop where
  quiet : (p.step r).database.Quiet
  onward : p.store.Onward (p.step r).store
  transaction : (p.step r).transactions[i]? = some t'
  steps : (∃ c, r = .call i c ∧ ReflTransGen RowStep (p.core t) ((p.step r).core t')) ∨
    (∀ c, r ≠ .call i c) ∧ t' = t

theorem exists_advances {r : Request} (hquiet : p.database.Quiet)
    (ht : p.transactions[i]? = some t) (hr : r.Beside i) : ∃ t', Advances i t p r t' := by
  cases r with
  | begin_ isolation explicit =>
    refine ⟨t, hquiet, .refl _, ?_, .inr ⟨nofun, rfl⟩⟩
    rw [step_begin, List.getElem?_append_left (List.getElem?_eq_some_iff.mp ht).1]
    exact ht
  | register u => exact hr.elim
  | unregister m name => exact hr.elim
  | call j c =>
    by_cases hij : j = i
    · subst hij
      have hc : c.OnRows := hr.resolve_right fun h => h.1 rfl
      obtain ⟨hquiet', t', htransactions, hsteps⟩ := step_onRows hquiet ht hc
      refine ⟨t', hquiet', RowStep.run_onward hsteps, ?_, .inl ⟨c, rfl, hsteps⟩⟩
      rw [htransactions, List.getElem?_set_self (List.getElem?_eq_some_iff.mp ht).1]
    · have hother : ∀ d, Request.call j c ≠ .call i d := by
        rintro d ⟨⟩
        exact hij rfl
      cases hj : p.transactions[j]? with
      | none =>
        rw [← step_call_of_none (c := c) hj] at ht hquiet
        refine ⟨t, hquiet, ?_, ht, .inr ⟨hother, rfl⟩⟩
        rw [step_call_of_none hj]
        exact .refl _
      | some u =>
        have hkept : ∀ u', (p.transactions.set j u')[i]? = some t := fun u' => by
          rw [List.getElem?_set_ne hij, ht]
        rcases hr with hc | ⟨-, hc⟩
        · obtain ⟨hquiet', u', htransactions, hsteps⟩ := step_onRows hquiet hj hc
          refine ⟨t, hquiet', RowStep.run_onward hsteps, ?_, .inr ⟨hother, rfl⟩⟩
          rw [htransactions]
          exact hkept u'
        · -- what the call changes is its own transaction
          obtain ⟨u', hstep⟩ : ∃ u', p.step (.call j c) = ⟨p.database, p.transactions.set j u'⟩ := by
            rw [step_call hj, Call.sameDatabase p.database.hook hc (p.work u)]
            exact ⟨_, rfl⟩
          refine ⟨t, ?_, ?_, ?_, .inr ⟨hother, rfl⟩⟩ <;> rw [hstep]
          · exact hquiet
          · exact .refl _
          · exact hkept u'

/-! ## Runs -/

/-- Transaction `i` can be undone: triggers are quiet, rows stand below the numbers to come, and the tables
of the log are there. -/
structure Undoable (i : Nat) (p : Pool) (t : Transaction) : Prop where
  quiet : p.database.Quiet
  below : p.store.Below
  transaction : p.transactions[i]? = some t
  logged : (p.core t).Logged

variable {t' : Transaction} {r : Request} {requests : List Request}

theorem Advances.undoable (h : Advances i t p r t') (hp : Undoable i p t) :
    Undoable i (p.step r) t' := by
  refine ⟨h.quiet, h.onward.below hp.below, h.transaction, ?_⟩
  rcases h.steps with ⟨c, rfl, hsteps⟩ | ⟨-, rfl⟩
  · exact RowStep.run_logged hsteps hp.logged
  · intro u hu
    show u.tableName ∈ (p.step r).store.names
    rw [h.onward.names_eq]
    exact hp.logged u hu

/-- A request that is not a call of the transaction leaves each row that nobody else changes. -/
theorem row?_step_of_beside (hr : r.Beside i) (hown : ∀ c, r ≠ .call i c)
    (hothers : ∀ j, j ≠ i → ¬ p.ChangedBy [r] j n id) :
    (p.step r).store.row? n id = p.store.row? n id := by
  cases r with
  | begin_ isolation explicit => rfl
  | call j c =>
    have hij : j ≠ i := by
      rintro rfl
      exact hown c rfl
    by_contra hne
    exact hothers j hij (Changes.changedBy_cons (.inl hne) [])
  | register u => exact hr.elim
  | unregister m name => exact hr.elim

theorem Advances.revertedRow_eq (h : Advances i t p r t') (hbelow : p.store.Below)
    (hr : r.Beside i) (hothers : ∀ j, j ≠ i → ¬ p.ChangedBy [r] j n id) :
    ((p.step r).core t').revertedRow n id = (p.core t).revertedRow n id := by
  rcases h.steps with ⟨c, rfl, hsteps⟩ | ⟨hown, rfl⟩
  · exact RowStep.run_revertedRow_eq hsteps hbelow n id
  · show t'.undo.foldl _ ((p.step r).store.row? n id) = t'.undo.foldl _ (p.store.row? n id)
    rw [row?_step_of_beside hr hown hothers]

/-- The log gets no entry about a row that the transaction does not change. -/
theorem Advances.entries_eq_nil (h : Advances i t p r t') (ht : p.transactions[i]? = some t)
    (hown : ¬ p.ChangedBy [r] i n id) (hnil : p.entries i n id = []) :
    (p.step r).entries i n id = [] := by
  rcases h.steps with ⟨c, rfl, -⟩ | ⟨-, rfl⟩
  · by_contra hne
    refine hown (Changes.changedBy_cons (.inr ?_) [])
    rw [hnil]
    exact List.length_pos_of_ne_nil hne
  · rw [entries_eq h.transaction, ← entries_eq ht]
    exact hnil

/-- The log is added to, also where a row that changed got an entry. -/
theorem Advances.entries_suffix (h : Advances i t p r t') (ht : p.transactions[i]? = some t)
    (n : TableName) (id : Nat) : p.entries i n id <:+ (p.step r).entries i n id := by
  rw [entries_eq ht, entries_eq h.transaction]
  rcases h.steps with ⟨c, rfl, hsteps⟩ | ⟨-, rfl⟩
  · obtain ⟨added, hundo, -⟩ := RowStep.run_undo_eq hsteps
    rw [show t'.undo = added ++ t.undo from hundo, List.filter_append]
    exact List.suffix_append _ _
  · exact List.suffix_rfl

theorem Advances.entries_ne_nil (h : Advances i t p r t') (hchanged : p.ChangedBy [r] i n id) :
    (p.step r).entries i n id ≠ [] := by
  obtain ⟨before, c, after, hr, hchanges⟩ := hchanged
  obtain ⟨rfl, rfl, rfl⟩ : before = [] ∧ r = .call i c ∧ after = [] := by
    cases before with
    | nil => simpa using hr
    | cons q qs => simp at hr
  rcases hchanges with hrow | hlonger
  · rcases h.steps with ⟨d, -, hsteps⟩ | ⟨hother, -⟩
    · obtain ⟨added, hundo, hrows⟩ := RowStep.run_undo_eq hsteps
      obtain ⟨x, hx, habout⟩ := hrows n id hrow
      rw [entries_eq h.transaction]
      refine List.ne_nil_of_mem (a := x) (List.mem_filter.mpr ⟨?_, by simpa using habout⟩)
      rw [show t'.undo = added ++ t.undo from hundo]
      exact List.mem_append_left _ hx
    · exact absurd rfl (hother c)
  · exact List.ne_nil_of_length_pos (Nat.zero_lt_of_lt hlonger)

theorem exists_undoable_run (hp : Undoable i p t) (hbeside : ∀ r ∈ requests, r.Beside i) :
    (∃ t', Undoable i (p.run requests) t') ∧ p.store.Onward (p.run requests).store := by
  induction requests generalizing p t with
  | nil => exact ⟨⟨t, hp⟩, .refl _⟩
  | cons r requests ih =>
    obtain ⟨hr, hrest⟩ := List.forall_mem_cons.mp hbeside
    obtain ⟨t₁, hadvances⟩ := exists_advances hp.quiet hp.transaction hr
    obtain ⟨hend, honward⟩ := ih (hadvances.undoable hp) hrest
    exact ⟨hend, hadvances.onward.trans honward⟩

/-- What the log leads a row back to stays the same along a run in which no other transaction changes
the row. -/
theorem revertedRow_run (hp : Undoable i p t) (hbeside : ∀ r ∈ requests, r.Beside i)
    (hothers : ∀ j, j ≠ i → ¬ p.ChangedBy requests j n id)
    (ht' : (p.run requests).transactions[i]? = some t') :
    ((p.run requests).core t').revertedRow n id = (p.core t).revertedRow n id := by
  induction requests generalizing p t with
  | nil =>
    cases hp.transaction.symm.trans ht'
    rfl
  | cons r requests ih =>
    obtain ⟨hr, hrest⟩ := List.forall_mem_cons.mp hbeside
    obtain ⟨t₁, hadvances⟩ := exists_advances hp.quiet hp.transaction hr
    rw [run_cons, ih (hadvances.undoable hp) hrest (fun j hj h => hothers j hj h.cons) ht']
    exact hadvances.revertedRow_eq hp.below hr fun j hj h => hothers j hj (h.of_singleton requests)

theorem entries_run_eq_nil (hp : Undoable i p t) (hbeside : ∀ r ∈ requests, r.Beside i)
    (hown : ¬ p.ChangedBy requests i n id) (hnil : p.entries i n id = []) :
    (p.run requests).entries i n id = [] := by
  induction requests generalizing p t with
  | nil => exact hnil
  | cons r requests ih =>
    obtain ⟨hr, hrest⟩ := List.forall_mem_cons.mp hbeside
    obtain ⟨t₁, hadvances⟩ := exists_advances hp.quiet hp.transaction hr
    have hstep := hadvances.entries_eq_nil hp.transaction
      (fun h => hown (h.of_singleton requests)) hnil
    exact ih (hadvances.undoable hp) hrest (fun h => hown h.cons) hstep

theorem entries_run_ne_nil (hp : Undoable i p t) (hbeside : ∀ r ∈ requests, r.Beside i)
    (hne : p.entries i n id ≠ []) : (p.run requests).entries i n id ≠ [] := by
  induction requests generalizing p t with
  | nil => exact hne
  | cons r requests ih =>
    obtain ⟨hr, hrest⟩ := List.forall_mem_cons.mp hbeside
    obtain ⟨t₁, hadvances⟩ := exists_advances hp.quiet hp.transaction hr
    have hsuffix := hadvances.entries_suffix hp.transaction n id
    exact ih (hadvances.undoable hp) hrest (fun h => hne (List.suffix_nil.mp (h ▸ hsuffix)))

/-- The rows that the log of a transaction is about. -/
def loggedRows (p : Pool) (i : Nat) : List (TableName × Nat) :=
  ((p.transactions[i]?.map Transaction.undo).getD []).filterMap Undo.about

theorem mem_loggedRows (h : p.entries i n id ≠ []) : (n, id) ∈ p.loggedRows i := by
  obtain ⟨x, hx⟩ := List.exists_mem_of_ne_nil _ h
  obtain ⟨hmem, habout⟩ := List.mem_filter.mp hx
  exact List.mem_filterMap.mpr ⟨x, hmem, by simpa using habout⟩

/-- What a transaction changed is in its log. -/
theorem ChangedBy.mem_loggedRows (hp : Undoable i p t) (hbeside : ∀ r ∈ requests, r.Beside i)
    (h : p.ChangedBy requests i n id) : (n, id) ∈ (p.run requests).loggedRows i := by
  induction requests generalizing p t with
  | nil =>
    obtain ⟨before, c, after, hnil, -⟩ := h
    simp at hnil
  | cons r requests ih =>
    obtain ⟨hr, hrest⟩ := List.forall_mem_cons.mp hbeside
    obtain ⟨t₁, hadvances⟩ := exists_advances hp.quiet hp.transaction hr
    rcases h.of_cons with hfirst | hlater
    · have hkept := entries_run_ne_nil (hadvances.undoable hp) hrest (hadvances.entries_ne_nil hfirst)
      exact Pool.mem_loggedRows hkept
    · exact ih (hadvances.undoable hp) hrest hlater

/-- A row that the transaction inserted was not there when the run began. -/
theorem InsertedBy.row?_eq_none (hp : Undoable i p t) (hbeside : ∀ r ∈ requests, r.Beside i)
    (h : p.InsertedBy requests i n id) : p.store.row? n id = none := by
  obtain ⟨before, c, after, rfl, hnone, hsome⟩ := h
  obtain ⟨hbefore, hafter⟩ := List.forall_mem_append.mp hbeside
  obtain ⟨⟨u, hu⟩, honward⟩ := exists_undoable_run hp hbefore
  obtain ⟨u', hadvances⟩ :=
    exists_advances hu.quiet hu.transaction (hafter _ List.mem_cons_self)
  -- the number of the row was still to be given out just before, so it was at the beginning
  have hid := hadvances.onward.nextId_le_of_new hnone hsome
  exact hp.below.row?_of_nextId_le (Nat.le_trans (honward.nextId_le n) hid)

/-! ## Beginning and abortion -/

/-- A statement begins with an empty log, and the store is as it was. -/
theorem undoable_beginStatement (hquiet : p.database.Quiet) (hbelow : p.store.Below)
    (ht : p.transactions[i]? = some t) (hactive : t.state = .active) :
    Undoable i (p.step (.call i .beginStatement)) { t with undo := [] } ∧
      (∀ n id, (p.step (.call i .beginStatement)).entries i n id = []) ∧
      (p.step (.call i .beginStatement)).store = p.store := by
  have hstep : p.step (.call i .beginStatement) =
      ⟨p.database, p.transactions.set i { t with undo := [] }⟩ := by
    rw [step_call ht, show exec (Call.beginStatement.perform p.database.hook) (p.work t) = _ from
      Action.exec_beginStatement hactive]
    rfl
  have hfresh : (p.step (.call i .beginStatement)).transactions[i]? =
      some { t with undo := [] } := by
    rw [hstep, List.getElem?_set_self (List.getElem?_eq_some_iff.mp ht).1]
  refine ⟨?_, fun n id => entries_eq hfresh n id, by rw [hstep]⟩
  rw [hstep] at hfresh ⊢
  exact ⟨hquiet, hbelow, hfresh, nofun⟩

/-- Aborting a statement leads each row back to where the log leads it. -/
theorem abort_of_undoable (hp : Undoable i p t) :
    p.answer (.call i .abortStatement) = .ok () ∧ ∀ n id,
      (p.step (.call i .abortStatement)).store.row? n id = (p.core t).revertedRow n id := by
  obtain ⟨hend, hrows⟩ := Undo.row?_applyAll hp.logged
  constructor
  · rw [answer_call hp.transaction]
    show (exec Action.abortStatement (p.work t)).1 = _
    unfold Action.abortStatement
    rw [exec_bind_ok (exec_get _)]
    dsimp only
    rw [exec_bind_ok (exec_set _ _), show (Undo.applyAll (p.work t).database.store
      (p.work t).transaction.undo).1 = none from hend]
    rfl
  · intro n id
    rw [step_call hp.transaction]
    show (exec Action.abortStatement (p.work t)).2.database.store.row? n id = _
    rw [Action.exec_abortStatement]
    exact hrows n id

/-- An active transaction begins a statement, works on rows beside other transactions, and aborts the
statement. If no row was changed both by it and by another one, the abortion succeeds, takes out every
row that the transaction inserted, puts every row that it changed back to what it was in front of the
statement, and leaves every other row of every table as it is. -/
theorem abort_is_local (p : Pool) (hquiet : p.database.Quiet) (hbelow : p.store.Below)
    (ht : p.transactions[i]? = some t) (hactive : t.state = .active) (requests : List Request)
    (hbeside : ∀ r ∈ requests, r.Beside i) :
    let begun := p.step (.call i .beginStatement)
    let worked := begun.run requests
    let aborted := worked.step (.call i .abortStatement)
    (∀ n id, begun.ChangedBy requests i n id → ∀ j, j ≠ i → ¬ begun.ChangedBy requests j n id) →
      worked.answer (.call i .abortStatement) = .ok () ∧ ∀ n id,
        (begun.InsertedBy requests i n id → aborted.store.row? n id = none) ∧
          (begun.ChangedBy requests i n id → aborted.store.row? n id = p.store.row? n id) ∧
          (¬ begun.ChangedBy requests i n id →
            aborted.store.row? n id = worked.store.row? n id) := by
  intro begun worked aborted hapart
  obtain ⟨hfresh, hnil, hstore⟩ := undoable_beginStatement hquiet hbelow ht hactive
  obtain ⟨⟨t', hend⟩, -⟩ := exists_undoable_run hfresh hbeside
  obtain ⟨hanswer, hrows⟩ := abort_of_undoable hend
  have hchanged : ∀ n id, begun.ChangedBy requests i n id →
      aborted.store.row? n id = p.store.row? n id := by
    intro n id h
    rw [hrows, revertedRow_run hfresh hbeside (hapart n id h) hend.transaction, ← hstore]
    rfl
  refine ⟨hanswer, fun n id => ⟨fun h => ?_, hchanged n id, fun h => ?_⟩⟩
  · rw [hchanged n id h.changedBy, ← hstore]
    exact h.row?_eq_none hfresh hbeside
  · rw [hrows]
    have hnone := entries_run_eq_nil hfresh hbeside h (hnil n id)
    rw [entries_eq hend.transaction] at hnone
    exact Undo.foldl_revertRow_of_not_about hnone _

end Pool

namespace Sample

/-- Two transactions on the two items of the small engine. -/
@[irreducible] def pair : Pool :=
  (Pool.ofDatabase filled.database).run
    [.begin_ .readCommitted true, .begin_ .readCommitted false]

/-- Call by call in turns: the first transaction inserts item 3, updates item 1 and takes both out; the
other one inserts item 4, updates item 2, and fails to insert a code that is there. -/
def turns : List Request :=
  [.call 0 (.insert items [[.integer 3, .integer 30]]),
    .call 1 (.insert items [[.integer 4, .integer 40]]),
    .call 0 (.update items 1 [.integer 1, .integer 11]),
    .call 1 (.update items 2 [.integer 2, .integer 21]),
    .call 0 (.delete items 3), .call 1 (.insert items [[.integer 5, .integer 40]]),
    .call 0 (.delete items 1)]

theorem pair_quiet : pair.database.Quiet := by
  unfold pair
  exact (filled_reachable.inv 0).quiet

theorem pair_below : pair.store.Below := by
  unfold pair
  exact fun t ht => ((filled_reachable.inv 0).tables t ht).below

/-- The first transaction begins a statement. -/
def started : Pool := pair.step (.call 0 .beginStatement)

theorem turns_beside (i : Nat) : ∀ r ∈ turns, r.Beside i := by
  unfold turns
  simp [Request.Beside, Call.OnRows]

theorem exists_active {i : Nat} (hi : i < 2) :
    ∃ t, pair.transactions[i]? = some t ∧ t.state = .active ∧ t.undo = [] := by
  have hbegun : ∃ t u, pair.transactions = [t, u] ∧ (t.state = .active ∧ t.undo = []) ∧
      u.state = .active ∧ u.undo = [] := by
    unfold pair Pool.run
    rw [List.foldl_cons, List.foldl_cons, List.foldl_nil, Pool.step_begin, Pool.step_begin]
    exact ⟨_, _, rfl, ⟨rfl, rfl⟩, rfl, rfl⟩
  obtain ⟨t, u, htransactions, ht, hu⟩ := hbegun
  rw [htransactions]
  rcases Nat.le_one_iff_eq_zero_or_eq_one.mp (Nat.le_of_lt_succ hi) with rfl | rfl
  · exact ⟨t, rfl, ht⟩
  · exact ⟨u, rfl, hu⟩

theorem started_undoable {i : Nat} (hi : i < 2) : ∃ t, Pool.Undoable i started t := by
  obtain ⟨t, ht, hactive, hnil⟩ := exists_active hi
  by_cases hzero : i = 0
  · subst hzero
    exact ⟨_, (Pool.undoable_beginStatement pair_quiet pair_below ht hactive).1⟩
  · have hpair : Pool.Undoable i pair t := by
      refine ⟨pair_quiet, pair_below, ht, fun u hu => ?_⟩
      rw [show (pair.core t).transaction.undo = [] from hnil] at hu
      cases hu
    obtain ⟨t', hadvances⟩ := Pool.exists_advances (r := .call 0 .beginStatement) pair_quiet ht
      (.inr ⟨Ne.symm hzero, .inl rfl⟩)
    exact ⟨t', hadvances.undoable hpair⟩

/-- No row is in both logs after the turns. -/
theorem started_apart (n : TableName) (id : Nat) (h : started.ChangedBy turns 0 n id) (j : Nat)
    (hj : j ≠ 0) : ¬ started.ChangedBy turns j n id := by
  intro hother
  have hlt : j < 2 := by
    obtain ⟨before, c, after, hturns, -⟩ := hother
    have hmem : .call j c ∈ turns := by
      rw [hturns]
      simp
    unfold turns at hmem
    simp at hmem
    omega
  obtain rfl : j = 1 := by omega
  obtain ⟨t, ht⟩ := started_undoable (i := 0) (by omega)
  obtain ⟨u, hu⟩ := started_undoable hlt
  have hdisjoint : ∀ row ∈ (started.run turns).loggedRows 0,
      row ∉ (started.run turns).loggedRows 1 := by
    decide +kernel
  exact hdisjoint _ (h.mem_loggedRows ht (turns_beside 0)) (hother.mem_loggedRows hu (turns_beside 1))

/-- Item 1 is back, item 3 is gone, and the items 2 and 4 are as the other transaction left them. -/
theorem abort_in_turns :
    (started.run turns).answer (.call 0 .abortStatement) = .ok () ∧
      ((started.run turns).step (.call 0 .abortStatement)).store.row? items 1 =
        pair.store.row? items 1 ∧
      ((started.run turns).step (.call 0 .abortStatement)).store.row? items 3 = none ∧
      ∀ id ∈ [2, 4], ((started.run turns).step (.call 0 .abortStatement)).store.row? items id =
        (started.run turns).store.row? items id := by
  obtain ⟨t, ht, hactive, -⟩ := exists_active (i := 0) (by omega)
  obtain ⟨u, hu⟩ := started_undoable (i := 0) (by omega)
  obtain ⟨hanswer, hrows⟩ := Pool.abort_is_local pair pair_quiet pair_below ht hactive turns
    (turns_beside 0) started_apart
  have hupdated : started.ChangedBy turns 0 items 1 :=
    ⟨turns.take 2, _, turns.drop 3, rfl, .inr (by decide +kernel)⟩
  have hinserted : started.InsertedBy turns 0 items 3 :=
    ⟨[], _, turns.drop 1, rfl, Option.isNone_iff_eq_none.mp (by decide +kernel),
      Option.isSome_iff_ne_none.mp (by decide +kernel)⟩
  refine ⟨hanswer, (hrows items 1).2.1 hupdated, (hrows items 3).1 hinserted, fun id hid => ?_⟩
  refine (hrows items id).2.2 fun hchanged => ?_
  have hlogged := hchanged.mem_loggedRows hu (turns_beside 0)
  have hnot : ∀ id ∈ [2, 4], (items, id) ∉ (started.run turns).loggedRows 0 := by decide +kernel
  exact hnot id hid hlogged

end Sample

end SqlStore
