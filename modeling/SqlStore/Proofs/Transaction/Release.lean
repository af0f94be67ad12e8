import SqlStore.Proofs.Database.Registration
import SqlStore.Proofs.Session.Sample
import SqlStore.Proofs.Transaction.Pool

/-!
# The release of triggers

Triggers come and go while transactions work on a database, and closing the database releases those that are
left. A trigger that was registered is told so once, fires, and is closed once, but for one case: if it
fails when it is removed from its table, it is never closed. When a table is dropped its triggers are
removed one by one, and those behind one that fails stay registered on a table that is gone.
-/

open Relation

namespace SqlStore

open Run

/-- The database takes steps in the life of triggers. -/
def Work.Notifies (w w' : Work) : Prop := w.database.Notifies w'.database

instance : Std.Refl Work.Notifies := ⟨fun w => refl_of Database.Notifies w.database⟩

instance : IsTrans Work Work.Notifies := ⟨fun _ _ _ h k => trans_of Database.Notifies h k⟩

theorem carried_notifies (hook : Hook) : Carried hook Work.Notifies where
  changed _ _ _ _ hq := ⟨hq, .refl⟩
  fired n timing operation old new w :=
    Database.notifies_fire hook ⟨n, timing, operation⟩ old new w.database

theorem Call.notifies (hook : Hook) (c : Call) : Moves Work.Notifies (c.perform hook) := by
  have h := carried_notifies hook
  by_cases hlast : c.IsLast
  · cases c with
    | commit => exact Carried.ensureActive.bind fun _ _ hq => ⟨hq, .refl⟩
    | rollback =>
      refine Carried.ensureActive.bind fun _ => moves_get.bind fun w => ?_
      refine Moves.bind (fun _ hq => ⟨hq, .refl⟩) fun _ => ?_
      cases w.transaction.snapshot with
      | none => exact moves_pure _
      | some picture => exact h.changeStore _
    | _ => exact hlast.elim
  · by_cases hdrops : c.Drops
    · cases c with
      | dropTable n =>
        refine Carried.ensureActive.bind fun _ => (h.changeStore _).bind fun _ => ?_
        exact fun w => Database.notifies_dropTriggers n w.database
      | _ => exact hdrops.elim
    · exact h.perform hlast hdrops

/-- A table that is there can be dropped, and then it is not there. -/
theorem Store.exists_dropTable {s : Store} {n : TableName} (h : (s.table? n).isSome) :
    ∃ s', s.dropTable n = .ok s' ∧ s'.table? n = none := by
  obtain ⟨t, ht⟩ := Option.isSome_iff_exists.mp h
  refine ⟨{ s with tables := s.tables.filter fun t => t.definition.fullName != n }, ?_, ?_⟩
  · unfold dropTable
    rw [table_eq_ok.mpr ht]
    rfl
  · unfold table?
    simp

namespace Pool

variable {p : Pool}

theorem notifies_step (p : Pool) {r : Request} (hr : ∀ t, r = .register t → t.Quiet) :
    p.database.Notifies (p.step r).database := by
  cases r with
  | begin_ isolation explicit => exact fun hq => ⟨hq, .refl⟩
  | call i c =>
    cases hi : p.transactions[i]? with
    | none =>
      rw [step_call_of_none hi]
      exact refl_of Database.Notifies p.database
    | some t =>
      rw [step_call hi]
      exact c.notifies p.database.hook (p.work t)
  | register t => exact Database.notifies_register (hr t rfl) p.database
  | unregister n name => exact Database.notifies_unregister n name p.database

theorem notifies_run (p : Pool) {requests : List Request}
    (hquiet : ∀ t, .register t ∈ requests → t.Quiet) :
    p.database.Notifies (p.run requests).database := by
  induction requests generalizing p with
  | nil => exact refl_of Database.Notifies p.database
  | cons r requests ih =>
    refine trans_of Database.Notifies (p.notifies_step fun t ht => ?_) (ih _ fun t ht => ?_)
    · exact hquiet t (ht ▸ List.mem_cons_self)
    · exact hquiet t (List.mem_cons_of_mem r ht)

/-- The registry of a database on which requests ran from its opening. -/
theorem sound_run (config : Config) (clock : Timestamp) {requests : List Request}
    (hquiet : ∀ t, .register t ∈ requests → t.Quiet) :
    ((ofDatabase (Database.open_ config clock)).run requests).database.Quiet ∧
      ((ofDatabase (Database.open_ config clock)).run requests).database.registry.Sound := by
  have hopen : (Database.open_ config clock).registry.Sound := ⟨nofun, nofun, List.nodup_nil⟩
  obtain ⟨hq, hsteps⟩ := notifies_run (ofDatabase (Database.open_ config clock)) hquiet nofun
  exact ⟨hq, Registry.run_sound hsteps hopen⟩

/-- Dropping a table that is there: the table is gone, and of its triggers the ones that are left are
those behind the first one that failed. -/
theorem step_dropTable {i : Nat} {u : Transaction} {n : TableName}
    (hsound : p.database.registry.Sound) (hu : p.transactions[i]? = some u)
    (hactive : u.state = .active) (htable : (p.store.table? n).isSome) :
    (p.step (.call i (.dropTable n))).store.table? n = none ∧
      (p.answer (.call i (.dropTable n))).isOk =
        (p.database.triggersOn n).all p.database.leaves ∧
      (p.step (.call i (.dropTable n))).database.triggersOn n =
        ((p.database.triggersOn n).dropWhile p.database.leaves).tail ∧
      (p.step (.call i (.dropTable n))).database.triggersElsewhere n =
        p.database.triggersElsewhere n := by
  obtain ⟨s, hdrop, hgone⟩ := Store.exists_dropTable htable
  have hexec : exec (Call.perform p.database.hook (.dropTable n)) (p.work u) =
      exec (Action.onDatabase (Database.dropTriggers n)) ⟨{ p.database with store := s }, u⟩ := by
    show exec (Action.dropTable n) (p.work u) = _
    unfold Action.dropTable
    rw [exec_bind_ok (Action.exec_ensureActive hactive), exec_bind, Action.exec_changeStore,
      show (p.work u).database.store.dropTable n = .ok s from hdrop]
    rfl
  obtain ⟨hok, hon, helsewhere⟩ :=
    @Database.exec_dropTriggers { p.database with store := s } n hsound.nodup
  have hstore := (Database.moves_dropTriggers n { p.database with store := s }).store_eq
  rw [answer_call hu, step_call hu, hexec]
  refine ⟨?_, hok, hon, helsewhere⟩
  show Store.table? (exec (Database.dropTriggers n) _).2.store n = none
  rw [hstore]
  exact hgone

/-- A trigger that was registered is followed from then on. -/
theorem tracks_register {t : Trigger} (hsound : p.database.registry.Sound)
    (hanswer : p.answer (.register t) = .ok ()) :
    (p.step (.register t)).database.registry.Sound ∧
      (p.step (.register t)).database.registry.Tracks ⟨p.database.nextSerial, t⟩ := by
  have hok : (exec (Database.register t) p.database).1.isOk = true := by
    rw [show (exec (Database.register t) p.database).1 = .ok () from hanswer]
    rfl
  rcases Database.exec_register_registry t p.database with ⟨-, heq⟩ | ⟨hfail, -⟩
  · show Registry.Sound (exec (Database.register t) p.database).2.registry ∧
      Registry.Tracks (exec (Database.register t) p.database).2.registry _
    rw [heq]
    exact ⟨(Registry.Step.registered t).sound hsound, Registry.tracks_registered hsound t⟩
  · rw [hok] at hfail
    cases hfail

/-- Triggers that run no statements come and go on a database while transactions work on it, and in the
end the database is closed. Then each trigger that was registered got this and no other call: it was told
of its registration, it fired, and it was closed once; if it was removed before, it was closed at once and
did not fire any more, unless it failed its removal, after which it was never closed. Dropping a table
takes it out of the store, removes its triggers up to the first one that fails, and leaves those behind
that one registered. -/
theorem triggers_are_released (config : Config) (clock : Timestamp) (requests : List Request)
    (hquiet : ∀ t, .register t ∈ requests → t.Quiet) :
    let start := ofDatabase (Database.open_ config clock)
    let last := (start.run requests).database
    (∀ before t after, requests = before ++ .register t :: after →
        (start.run before).answer (.register t) = .ok () →
          t.Released ((exec Database.close last).2.registry.calls
            (start.run before).database.nextSerial)) ∧
      ∀ i u n, (start.run requests).transactions[i]? = some u → u.state = .active →
        ((start.run requests).store.table? n).isSome →
          let dropped := (start.run requests).step (.call i (.dropTable n))
          dropped.store.table? n = none ∧
            ((start.run requests).answer (.call i (.dropTable n))).isOk =
              (last.triggersOn n).all last.leaves ∧
            dropped.database.triggersOn n = ((last.triggersOn n).dropWhile last.leaves).tail ∧
            dropped.database.triggersElsewhere n = last.triggersElsewhere n := by
  intro start last
  obtain ⟨-, hsound⟩ := sound_run config clock hquiet
  refine ⟨?_, fun i u n hu hactive htable => step_dropTable hsound hu hactive htable⟩
  rintro before t after rfl hanswer
  have hbefore : ∀ u, .register u ∈ before → u.Quiet := fun u hu =>
    hquiet u (List.mem_append_left _ hu)
  have ht : t.Quiet := hquiet t (List.mem_append_right _ List.mem_cons_self)
  have hafter : ∀ u, .register u ∈ after → u.Quiet := fun u hu =>
    hquiet u (List.mem_append_right _ (List.mem_cons_of_mem _ hu))
  obtain ⟨hq, hfirst⟩ := sound_run config clock hbefore
  obtain ⟨hsecond, htracks⟩ := tracks_register hfirst hanswer
  have hquiet₁ := (Database.exec_register ht hq).1
  obtain ⟨-, hsteps⟩ := ((start.run before).step (.register t)).notifies_run hafter hquiet₁
  have hend := htracks.run hsecond hsteps
  have hlast : last = (((start.run before).step (.register t)).run after).database := by
    show (start.run (before ++ _)).database = _
    rw [run_append, run_cons]
  rw [Database.exec_close]
  exact (hlast ▸ hend).released hsound

end Pool

namespace Sample

/-- A trigger in front of insertions into the items; it may fail when it is removed. -/
def leaver (name : String) (fails : Bool) : Trigger where
  definition := ⟨"public", name, "items", .before, .insert⟩
  react calls := ⟨none, match fails, calls.getLast? with
    | true, some .remove => some (.execution "I stay")
    | _, _ => none⟩

/-- A table gets two triggers, of which the first one fails when it is removed, and a row. -/
def attended : List Request :=
  [.begin_ .readCommitted false,
    .call 0 (.createTable ⟨"public", "items", [.plain "code" .integer]⟩),
    .register (leaver "first" true), .register (leaver "second" false),
    .call 0 (.insert items [[.integer 1]])]

/-- The pool after that. -/
def attendedPool : Pool := (Pool.ofDatabase (Database.open_ Config.standard midnight)).run attended

/-- The first trigger is closed in the end if the table is not dropped; once it is, the second trigger is
left. -/
theorem attended_released :
    (leaver "first" true).Released
        ((exec Database.close attendedPool.database).2.registry.calls 0) ∧
      (attendedPool.step (.call 0 (.dropTable items))).store.table? items = none ∧
      (attendedPool.step (.call 0 (.dropTable items))).database.triggersOn items =
        ((attendedPool.database.triggersOn items).dropWhile attendedPool.database.leaves).tail := by
  have hquiet : ∀ t, .register t ∈ attended → t.Quiet := by
    intro t ht
    unfold attended at ht
    simp only [List.mem_cons, reduceCtorEq, false_or, Request.register.injEq, List.not_mem_nil,
      or_false] at ht
    rcases ht with rfl | rfl <;> exact fun _ => rfl
  obtain ⟨hreleased, hdropped⟩ :=
    Pool.triggers_are_released Config.standard midnight attended hquiet
  have hok : (((Pool.ofDatabase (Database.open_ Config.standard midnight)).run
      (attended.take 2)).answer (.register (leaver "first" true))).isOk = true := by
    decide +kernel
  obtain ⟨⟨⟩, hanswer⟩ := exists_ok_of_isOk hok
  have hsplit : attended = attended.take 2 ++ .register (leaver "first" true) :: attended.drop 3 := by
    rfl
  have hfirst := hreleased (attended.take 2) (leaver "first" true) (attended.drop 3) hsplit hanswer
  have hserial : ((Pool.ofDatabase (Database.open_ Config.standard midnight)).run
      (attended.take 2)).database.nextSerial = 0 := by
    decide +kernel
  rw [hserial] at hfirst
  obtain ⟨u, hu, hactive⟩ : ∃ u, attendedPool.transactions[0]? = some u ∧ u.state = .active :=
    ⟨(attendedPool.transactions[0]?).get (by decide +kernel), (Option.some_get _).symm,
      by decide +kernel⟩
  obtain ⟨hgone, -, hon, -⟩ := hdropped 0 u items hu hactive (by decide +kernel)
  unfold attendedPool
  exact ⟨hfirst, hgone, hon⟩

/-- The call closes the trigger. -/
def isClose : TriggerCall → Bool
  | .close => true
  | _ => false

/-- When the table is dropped, the trigger that fails its removal is never closed, not even with the
database, and the other one is still registered on the table that is gone. -/
theorem dropping_leaves_triggers :
    (attendedPool.database.triggersOn items).map (fun r => (r.serial, r.definition.name)) =
        [(0, "first"), (1, "second")] ∧
      ((attendedPool.step (.call 0 (.dropTable items))).store.table? items).isNone = true ∧
      ((attendedPool.step (.call 0 (.dropTable items))).database.triggersOn items).map
        (fun r => (r.serial, r.definition.name)) = [(1, "second")] ∧
      ((exec Database.close (attendedPool.step (.call 0 (.dropTable items))).database).2.registry.calls
        0).all (fun call => !isClose call) = true := by
  decide +kernel

end Sample

end SqlStore
