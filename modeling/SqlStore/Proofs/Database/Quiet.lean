import SqlStore.Proofs.Run

/-!
# Quiet triggers

A trigger is quiet if it never answers a call with statements to run; it may still fail. Calling
quiet triggers leaves the store alone, whatever runs the statements of triggers, and no call makes a
registration that was not there, except the one that registers. Firing them records the calls, and if
it fails, then with the failure of a trigger.
-/

namespace SqlStore

open Run

/-- The trigger never runs statements. -/
def Trigger.Quiet (t : Trigger) : Prop := ∀ calls, (t.react calls).sql = none

/-- No registered trigger ever runs statements. -/
def Database.Quiet (db : Database) : Prop := ∀ r ∈ db.registrations, r.trigger.Quiet

namespace Database

/-- The store is the same, and no trigger was registered. -/
structure Settles (db db' : Database) : Prop where
  store_eq : db'.store = db.store
  registrations : ∀ r ∈ db'.registrations, r ∈ db.registrations

instance : Std.Refl Settles where
  refl _ := ⟨rfl, fun _ hr => hr⟩

instance : IsTrans Database Settles where
  trans _ _ _ h k :=
    ⟨k.store_eq.trans h.store_eq, fun r hr => h.registrations r (k.registrations r hr)⟩

theorem Settles.quiet {db db' : Database} (h : Settles db db') (hq : db.Quiet) : db'.Quiet :=
  fun r hr => hq r (h.registrations r hr)

theorem moves_callTrigger (r : Registration) (call : TriggerCall) :
    Moves Settles (callTrigger r call) := fun _ => ⟨rfl, fun _ hr => hr⟩

theorem moves_failWith (reaction : Reaction) : Moves Settles (failWith reaction) := by
  unfold failWith
  split
  · exact moves_throw _
  · exact moves_pure _

theorem moves_notify (r : Registration) (call : TriggerCall) : Moves Settles (notify r call) :=
  (moves_callTrigger r call).bind moves_failWith

theorem moves_asTrigger {R : Database → Database → Prop} [Std.Refl R] [IsTrans Database R]
    {α : Type} (r : Registration) {call : Run Database α} (h : Moves R call) :
    Moves R (asTrigger r call) := by
  refine h.attempt.bind fun result => ?_
  cases result with
  | ok a => exact moves_pure a
  | error e => exact moves_throw _

theorem exec_asTrigger_congr {α : Type} {r : Registration} {db : Database} {c d : Run Database α}
    (h : exec c db = exec d db) : exec (asTrigger r c) db = exec (asTrigger r d) db := by
  unfold asTrigger
  rw [exec_bind, exec_bind, exec_attempt, exec_attempt, h]

/-- A quiet trigger has nothing for the hook to run, so firing it is calling it. -/
theorem exec_fireOne_eq (hook : Hook) (old new : Option Row) {r : Registration} (hr : r.trigger.Quiet)
    (db : Database) : exec (fireOne hook old new r) db =
      exec (asTrigger r (notify r (.fire old new (db.visibleRows r.definition.fullName)))) db := by
  have hcall : ∀ call, exec (callTrigger r call) db =
      (.ok (r.trigger.react (r.calls (db.trace ++ [⟨r.serial, r.definition.name, call⟩]))),
        { db with trace := db.trace ++ [⟨r.serial, r.definition.name, call⟩] }) := fun _ => rfl
  unfold fireOne notify
  refine exec_asTrigger_congr ?_
  rw [exec_bind_ok (exec_get db), exec_bind_ok (hcall _), exec_bind_ok (hcall _), hr]

theorem moves_fireOne (hook : Hook) (old new : Option Row) {r : Registration}
    (hr : r.trigger.Quiet) : Moves Settles (fireOne hook old new r) := by
  intro db
  rw [exec_fireOne_eq hook old new hr]
  exact moves_asTrigger r (moves_notify r _) db

/-- Firing the triggers of a database in which all are quiet. -/
theorem exec_fire_settles {db : Database} (hq : db.Quiet) (hook : Hook) (o : Occasion)
    (old new : Option Row) : Settles db (exec (fire hook o old new) db).2 := by
  unfold fire
  rw [exec_bind_ok (exec_get db)]
  refine moves_forM (fun r hr => ?_) db
  exact moves_fireOne hook old new (hq r (List.mem_filter.mp hr).1)

theorem moves_unregister (n : TableName) (name : String) :
    Moves Settles (unregister n name) := by
  intro db
  unfold unregister
  rw [exec_bind_ok (exec_get db)]
  split
  · exact moves_throw _ db
  · next r _ =>
    let kept := db.registrations.filter fun q => q.serial != r.serial
    have hset : Settles db { db with registrations := kept } :=
      ⟨rfl, fun q hq => (List.mem_filter.mp hq).1⟩
    rw [exec_bind_ok (exec_set db _)]
    have hlast : Moves Settles (asTrigger r do
        notify r .remove
        notify r .close) :=
      moves_asTrigger r ((moves_notify r .remove).bind fun _ => moves_notify r .close)
    exact trans_of Settles hset (hlast _)

theorem moves_dropTriggers (n : TableName) : Moves Settles (dropTriggers n) := by
  intro db
  unfold dropTriggers
  rw [exec_bind_ok (exec_get db)]
  exact moves_forM (fun r _ => moves_unregister n r.definition.name) db

/-- Registering a quiet trigger keeps a database quiet and its store as it is. -/
theorem exec_register {t : Trigger} (ht : t.Quiet) {db : Database} (hq : db.Quiet) :
    (exec (register t) db).2.Quiet ∧ (exec (register t) db).2.store = db.store := by
  let next : Database := { db with nextSerial := db.nextSerial + 1 }
  let r : Registration := ⟨db.nextSerial, t⟩
  have hnotify : Settles next (exec (asTrigger r (notify r .init)) next).2 :=
    moves_asTrigger r (moves_notify r .init) next
  unfold register
  rw [exec_bind_ok (exec_get db)]
  dsimp only
  split
  · rw [exec_bind_error (exec_throw _ db)]
    exact ⟨hq, rfl⟩
  · rw [exec_bind_ok (exec_set db _), exec_bind]
    rcases hrun : exec (asTrigger r (notify r .init)) next with ⟨e | a, db'⟩ <;>
      rw [hrun] at hnotify
    · -- a trigger that refuses its registration is not there afterwards
      exact ⟨hnotify.quiet hq, hnotify.store_eq⟩
    · constructor
      · intro q hmem
        rcases List.mem_append.mp hmem with hold | hnew
        · exact hnotify.quiet hq q hold
        · rw [List.mem_singleton.mp hnew]
          exact ht
      · exact hnotify.store_eq

end Database

/-! ## Firing -/

/-- The failure is one of a trigger. -/
def Error.IsTrigger : Error → Prop
  | .trigger _ => True
  | _ => False

theorem Error.isTrigger_ofTrigger (name : String) (err : Error) :
    (err.ofTrigger name).IsTrigger := by
  cases err <;> exact trivial

namespace Database

/-- Nothing changed, but calls of triggers were recorded. -/
def Recorded (db db' : Database) : Prop := db' = { db with trace := db'.trace }

variable {db : Database} {α : Type} {E F : Error → Prop}

theorem Recorded.registrations_eq {db' : Database} (h : Recorded db db') :
    db'.registrations = db.registrations := by
  rw [h]

theorem ends_callTrigger (r : Registration) (call : TriggerCall) :
    Ends (Recorded db) (callTrigger r call)
      (fun reaction => ∃ calls, reaction = r.trigger.react calls) E := by
  intro db' h
  refine ⟨?_, _, rfl⟩
  show _ = _
  rw [h]
  rfl

theorem ends_failWith {reaction : Reaction} (h : ∀ err ∈ reaction.failure, E err) :
    Ends (Recorded db) (failWith reaction) (fun _ => True) E := by
  unfold failWith
  split
  · next err hfailure => exact ends_throw (h err hfailure)
  · exact ends_pure trivial

/-- Whatever fails inside the call of a trigger is a failure of the trigger. -/
theorem ends_asTrigger (r : Registration) {call : Run Database α} {Q : α → Prop}
    (h : Ends (Recorded db) call Q E) (hE : ∀ err, E err → F (err.ofTrigger r.definition.name)) :
    Ends (Recorded db) (asTrigger r call) Q F := by
  refine h.attempt.bind fun result hresult => ?_
  cases result with
  | ok a => exact ends_pure hresult
  | error err => exact ends_throw (hE err hresult)

/-- The failures of a trigger's reactions are all that its firing may fail with. -/
theorem ends_fireOne (hook : Hook) (old new : Option Row) {r : Registration} (hr : r.trigger.Quiet)
    (hE : ∀ calls, ∀ err ∈ (r.trigger.react calls).failure, E (err.ofTrigger r.definition.name)) :
    Ends (Recorded db) (fireOne hook old new r) (fun _ => True) E := by
  refine ends_asTrigger (E := fun err => E (err.ofTrigger r.definition.name)) r
    (ends_get_bind fun db' _ => ?_) fun _ => id
  refine (ends_callTrigger r _).bind fun reaction hreaction => ?_
  -- the reaction has no statements for the hook
  obtain ⟨calls, rfl⟩ := hreaction
  rw [hr calls]
  exact ends_failWith (hE calls)

theorem ends_fire (hq : db.Quiet) (hook : Hook) (o : Occasion) (old new : Option Row)
    (hE : ∀ r ∈ db.registrations, r.definition.fits o = true →
      ∀ calls, ∀ err ∈ (r.trigger.react calls).failure, E (err.ofTrigger r.definition.name)) :
    Ends (Recorded db) (fire hook o old new) (fun _ => True) E := by
  refine ends_get_bind fun db' h => ?_
  rw [h.registrations_eq]
  refine ends_forM fun r hr => ?_
  obtain ⟨hmem, hfits⟩ := List.mem_filter.mp hr
  exact ends_fireOne hook old new (hq r hmem) (hE r hmem hfits)

theorem exec_fire (hq : db.Quiet) (hook : Hook) (o : Occasion) (old new : Option Row) :
    ∃ r trace, exec (fire hook o old new) db = (r, { db with trace }) ∧
      ∀ err, r = .error err → err.IsTrigger := by
  have hends : Ends (Recorded db) (fire hook o old new) (fun _ => True) Error.IsTrigger :=
    ends_fire hq hook o old new fun r _ _ _ err _ => Error.isTrigger_ofTrigger _ err
  obtain ⟨hrecorded, hresult⟩ := hends db rfl
  refine ⟨(exec (fire hook o old new) db).1, _, Prod.ext rfl hrecorded, ?_⟩
  intro err herr
  rw [herr] at hresult
  exact hresult

/-- No trigger on an operation on a table fails, whatever calls it got. -/
def NeverRefuses (db : Database) (n : TableName) (operation : TableOperation) : Prop :=
  ∀ r ∈ db.registrations, r.definition.fullName = n → r.definition.operation = operation →
    ∀ calls, (r.trigger.react calls).failure = none

theorem neverRefuses_of_unregistered (h : db.registrations = []) (n : TableName)
    (operation : TableOperation) : db.NeverRefuses n operation := by
  intro r hr
  rw [h] at hr
  cases hr

/-- Firing triggers that do not fail succeeds. -/
theorem exec_fire_of_neverRefuses {n : TableName} {operation : TableOperation} (hq : db.Quiet)
    (hnever : db.NeverRefuses n operation) (hook : Hook) (timing : TriggerTiming) (old new : Option Row) :
    ∃ trace, exec (fire hook ⟨n, timing, operation⟩ old new) db = (.ok ⟨⟩, { db with trace }) := by
  have hends : Ends (Recorded db) (fire hook ⟨n, timing, operation⟩ old new) (fun _ => True)
      fun _ => False := by
    refine ends_fire hq hook _ old new fun r hr hfits calls err herr => ?_
    unfold TriggerDefinition.fits at hfits
    simp only [Bool.and_eq_true, beq_iff_eq] at hfits
    rw [hnever r hr hfits.1.1 hfits.2 calls] at herr
    cases herr
  obtain ⟨hrecorded, hresult⟩ := hends db rfl
  refine ⟨_, Prod.ext ?_ hrecorded⟩
  cases hfired : (exec (fire hook ⟨n, timing, operation⟩ old new) db).1 with
  | ok u => rfl
  | error err =>
    rw [hfired] at hresult
    exact hresult.elim

end Database

end SqlStore
