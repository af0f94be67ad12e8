import SqlStore.Proofs.Session.Sample
import SqlStore.Proofs.Transaction.Pool

/-!
# Transactions that are over

A transaction that was committed or rolled back refuses every call that asks for an active one, before the
call does anything. The other calls only read, but for the abortion of a statement, which does not look at
the state and undoes whatever is logged. That nothing is, is the invariant: ending a transaction empties
its log, and nothing is logged for a transaction that is over (`Transaction.Settled`).
-/

namespace SqlStore

open Run

namespace Transaction

/-- Why a transaction refuses calls, if it is over. -/
def refusal (t : Transaction) : Option Error :=
  match t.state with
  | .active => none
  | .committed => some (Action.finished t.version "committed")
  | .rolledBack => some (Action.finished t.version "rolled back")

/-- If the transaction is over, it has nothing to undo and no snapshot to go back to. -/
def Settled (t : Transaction) : Prop := t.state ≠ .active → t.undo = [] ∧ t.snapshot = none

theorem exists_refusal {t : Transaction} (h : t.state ≠ .active) :
    ∃ message, t.refusal = some (.transactionState message) := by
  unfold refusal
  cases hs : t.state with
  | active => exact absurd hs h
  | committed => exact ⟨_, rfl⟩
  | rolledBack => exact ⟨_, rfl⟩

theorem settled_of_active {t : Transaction} (h : t.state = .active) : t.Settled :=
  fun hover => absurd h hover

end Transaction

/-- The call asks for an active transaction. -/
def Call.NeedsActive : Call → Prop
  | .abortStatement | .hasSchema _ | .definition _ => False
  | _ => True

/-! ## Calls that are refused -/

/-- For a transaction that is over, the call fails with the refusal and does nothing. -/
def Refuses {α : Type} (act : Action α) : Prop :=
  ∀ w e, w.transaction.refusal = some e → exec act w = (.error e, w)

theorem Refuses.bind {α β : Type} {act : Action α} (h : Refuses act) (f : α → Action β) :
    Refuses (act >>= f) := fun w e he => exec_bind_error (h w e he)

namespace Action

theorem refuses_ensureActive : Refuses ensureActive := by
  intro w e he
  unfold Transaction.refusal at he
  unfold ensureActive
  rw [exec_bind_ok (exec_get w)]
  dsimp only
  cases hs : w.transaction.state with
  | active =>
    rw [hs] at he
    cases he
  | committed =>
    rw [hs] at he
    cases he
    rfl
  | rolledBack =>
    rw [hs] at he
    cases he
    rfl

theorem refuses_prepareWrite : Refuses prepareWrite := refuses_ensureActive.bind _

end Action

open SqlStore.Action in
theorem Call.refuses {c : Call} (hook : Hook) (hc : c.NeedsActive) : Refuses (c.perform hook) := by
  cases c with
  | abortStatement => exact hc.elim
  | hasSchema name => exact hc.elim
  | definition n => exact hc.elim
  | scan n => exact (refuses_ensureActive.bind _ : Refuses (Action.scan hook n)).bind _
  | nextSequence n column =>
    exact (refuses_ensureActive.bind _ : Refuses (Action.nextSequence n column)).bind _
  | insert n rows => exact (refuses_prepareWrite.bind _ : Refuses (Action.insert hook n rows)).bind _
  | update n id values =>
    exact (refuses_prepareWrite.bind _ : Refuses (Action.update hook n id values)).bind _
  | delete n id => exact refuses_prepareWrite.bind _
  | _ => exact refuses_ensureActive.bind _

/-- For a transaction that is over, the other calls succeed, and they do nothing either. -/
theorem Call.exec_of_not_needsActive {c : Call} (hook : Hook) (hc : ¬ c.NeedsActive) {w : Work}
    (hsettled : w.transaction.Settled) (hover : w.transaction.state ≠ .active) :
    exec (c.perform hook) w = (.ok ⟨⟩, w) := by
  cases c with
  | abortStatement => exact Action.exec_abortStatement_of_nil (hsettled hover).1
  | hasSchema name => rfl
  | definition n => rfl
  | _ => exact absurd trivial hc

/-- For a transaction that is over, no call does anything. -/
theorem Call.exec_snd_of_over {c : Call} (hook : Hook) {w : Work} (hsettled : w.transaction.Settled)
    (hover : w.transaction.state ≠ .active) : (exec (c.perform hook) w).2 = w := by
  by_cases hc : c.NeedsActive
  · obtain ⟨message, he⟩ := Transaction.exists_refusal hover
    rw [Call.refuses hook hc w _ he]
  · rw [Call.exec_of_not_needsActive hook hc hsettled hover]

/-! ## What every call keeps -/

/-- The transaction is in the same state. -/
def SameState (w w' : Work) : Prop := w'.transaction.state = w.transaction.state

instance : Std.Refl SameState := ⟨fun _ => rfl⟩

instance : IsTrans Work SameState := ⟨fun _ _ _ h k => Eq.trans k h⟩

theorem carried_sameState (hook : Hook) : Carried hook SameState where
  changed _ _ _ h := h
  fired _ _ _ _ _ _ := rfl

theorem Call.sameState (hook : Hook) {c : Call} (hc : ¬ c.IsLast) :
    Moves SameState (c.perform hook) := by
  by_cases hdrops : c.Drops
  · cases c with
    | dropTable n =>
      refine Carried.ensureActive.bind fun _ => ?_
      exact ((carried_sameState hook).changeStore _).bind fun _ => fun _ => rfl
    | _ => exact hdrops.elim
  · exact (carried_sameState hook).perform hc hdrops

/-- Ending a transaction empties its log, and no call logs anything for one that is over. -/
theorem Call.settled (hook : Hook) (c : Call) {w : Work} (h : w.transaction.Settled) :
    (exec (c.perform hook) w).2.transaction.Settled := by
  by_cases hover : w.transaction.state = .active
  · by_cases hlast : c.IsLast
    · cases c with
      | commit =>
        rw [show exec (Call.commit.perform hook) w = _ from Action.exec_commit hover]
        exact fun _ => ⟨rfl, rfl⟩
      | rollback =>
        rw [show exec (Call.rollback.perform hook) w = _ from Action.exec_rollback hover]
        exact fun _ => ⟨rfl, rfl⟩
      | _ => exact hlast.elim
    · exact Transaction.settled_of_active ((c.sameState hook hlast w).trans hover)
  · rw [Call.exec_snd_of_over hook h hover]
    exact h

namespace Pool

/-- Every transaction of the pool that is over has nothing to undo. -/
def Settled (p : Pool) : Prop := ∀ t ∈ p.transactions, t.Settled

theorem Settled.step {p : Pool} (h : p.Settled) (r : Request) : (p.step r).Settled := by
  cases r with
  | begin_ isolation explicit =>
    rw [step_begin]
    intro t ht
    rcases List.mem_append.mp ht with hold | hnew
    · exact h t hold
    · rw [List.mem_singleton.mp hnew]
      exact Transaction.settled_of_active rfl
  | call i c =>
    cases hi : p.transactions[i]? with
    | none =>
      rw [step_call_of_none hi]
      exact h
    | some u =>
      rw [step_call hi]
      intro t ht
      rcases List.mem_or_eq_of_mem_set ht with hold | rfl
      · exact h t hold
      · exact c.settled _ (h u (List.mem_of_getElem? hi))
  | register t => exact h
  | unregister n name => exact h

/-- A call on a transaction that is over leaves everything as it is. -/
theorem step_call_of_over {p : Pool} (h : p.Settled) {i : Nat} {t : Transaction}
    (ht : p.transactions[i]? = some t) (hover : t.state ≠ .active) (c : Call) :
    p.step (.call i c) = p := by
  have hexec := c.exec_snd_of_over p.database.hook (w := p.work t) (h t (List.mem_of_getElem? ht)) hover
  rw [step_call ht, hexec]
  obtain ⟨hlt, hget⟩ := List.getElem?_eq_some_iff.mp ht
  have hset : p.transactions.set i t = p.transactions := by
    rw [← hget]
    exact List.set_getElem_self hlt
  exact congrArg (Pool.mk p.database) hset

/-- No request touches a transaction that is over. -/
theorem transaction_step_of_over {p : Pool} (h : p.Settled) {i : Nat} {t : Transaction}
    (ht : p.transactions[i]? = some t) (hover : t.state ≠ .active) (r : Request) :
    (p.step r).transactions[i]? = some t := by
  cases r with
  | begin_ isolation explicit =>
    rw [step_begin, List.getElem?_append_left (List.getElem?_eq_some_iff.mp ht).1]
    exact ht
  | call j c =>
    by_cases hij : j = i
    · rw [hij, step_call_of_over h ht hover]
      exact ht
    · cases hj : p.transactions[j]? with
      | none =>
        rw [step_call_of_none hj]
        exact ht
      | some u =>
        rw [step_call hj, List.getElem?_set_ne hij]
        exact ht
  | register u => exact ht
  | unregister n name => exact ht

/-- Once a transaction is over it stays what it is, whatever else happens to the database, and whatever is
called on it from then on changes nothing: not the store, not a sequence, and no trigger fires. What asks
for an active transaction is refused as a fault of the transaction's state; the abortion of a statement
and what only reads succeed. -/
theorem finished_transaction_is_inert (db : Database) (before after : List Request) {i : Nat}
    {t : Transaction} (ht : ((ofDatabase db).run before).transactions[i]? = some t)
    (hover : t.state ≠ .active) :
    ((ofDatabase db).run (before ++ after)).transactions[i]? = some t ∧
      ∀ c : Call,
        ((ofDatabase db).run (before ++ after)).step (.call i c) =
            (ofDatabase db).run (before ++ after) ∧
          (c.NeedsActive → ∃ message, t.refusal = some (.transactionState message) ∧
            ((ofDatabase db).run (before ++ after)).answer (.call i c) =
              .error (.transactionState message)) ∧
          (¬ c.NeedsActive →
            ((ofDatabase db).run (before ++ after)).answer (.call i c) = .ok ()) := by
  have hstart : (ofDatabase db).Settled := nofun
  have hkept : ((ofDatabase db).run (before ++ after)).Settled ∧
      ((ofDatabase db).run (before ++ after)).transactions[i]? = some t := by
    rw [run_append]
    refine run_keeps (P := fun p => p.Settled ∧ p.transactions[i]? = some t) ?_ ?_ after
    · exact fun p r h => ⟨h.1.step r, transaction_step_of_over h.1 h.2 hover r⟩
    · exact ⟨run_keeps (fun p r h => h.step r) hstart before, ht⟩
  obtain ⟨hsettled, hget⟩ := hkept
  have htransaction := hsettled t (List.mem_of_getElem? hget)
  refine ⟨hget, fun c => ⟨step_call_of_over hsettled hget hover c, fun hc => ?_, fun hc => ?_⟩⟩
  · obtain ⟨message, he⟩ := Transaction.exists_refusal hover
    refine ⟨message, he, ?_⟩
    rw [answer_call hget, Call.refuses _ hc _ _ he]
  · rw [answer_call hget, Call.exec_of_not_needsActive _ hc htransaction hover]

end Pool

namespace Sample

/-- A transaction inserts an item, starts another statement, inserts once more and commits. -/
def committing : List Request :=
  [.begin_ .readCommitted true, .call 0 (.insert items [[.integer 3, .integer 30]]),
    .call 0 .beginStatement, .call 0 (.insert items [[.integer 4, .integer 40]]), .call 0 .commit]

/-- Another transaction changes the items while the first one is called again. -/
def goingOn : List Request :=
  [.begin_ .readCommitted false, .call 0 .rollback, .call 1 (.delete items 1),
    .call 0 (.dropTable items), .call 1 .abortStatement]

/-- The committed transaction stays committed, and no call on it does anything. -/
theorem committed_is_inert : ∃ t,
    ((Pool.ofDatabase filled.database).run committing).transactions[0]? = some t ∧
      t.state = .committed ∧
      ((Pool.ofDatabase filled.database).run (committing ++ goingOn)).transactions[0]? = some t ∧
      ∀ c, ((Pool.ofDatabase filled.database).run (committing ++ goingOn)).step (.call 0 c) =
        (Pool.ofDatabase filled.database).run (committing ++ goingOn) := by
  obtain ⟨t, ht, hcommitted⟩ : ∃ t,
      ((Pool.ofDatabase filled.database).run committing).transactions[0]? = some t ∧
        t.state = .committed :=
    ⟨(((Pool.ofDatabase filled.database).run committing).transactions[0]?).get (by decide +kernel),
      (Option.some_get _).symm, by decide +kernel⟩
  have hover : t.state ≠ .active := by
    rw [hcommitted]
    nofun
  obtain ⟨hkept, hcalls⟩ :=
    Pool.finished_transaction_is_inert filled.database committing goingOn ht hover
  exact ⟨t, ht, hcommitted, hkept, fun c => (hcalls c).1⟩

end Sample

end SqlStore
