import SqlStore.Proofs.Database.Registry

/-!
# Registering, firing and dropping triggers

What the calls on a database do to its registry. A quiet database takes steps of the life of triggers
(`Notifies`); dropping the triggers of a table dismisses them one after the other, and the first one that
fails leaves those behind it registered (`exec_dropTriggers`).
-/

open Relation

namespace SqlStore

open Run

namespace Database

/-- What the database knows of its triggers. -/
def registry (db : Database) : Registry := ⟨db.registrations, db.nextSerial, db.trace⟩

/-- Puts a registry into a database. -/
def withRegistry (db : Database) (g : Registry) : Database :=
  { db with registrations := g.registrations, nextSerial := g.nextSerial, trace := g.trace }

variable {db : Database} {r : Registration} {call : TriggerCall}

theorem exec_notify (r : Registration) (call : TriggerCall) (db : Database) :
    exec (notify r call) db =
      ((match r.trigger.failure (db.registry.calls r.serial ++ [call]) with
        | some e => .error e
        | none => .ok ()), db.withRegistry (db.registry.record r call)) := by
  have hcall : exec (callTrigger r call) db =
      (.ok (r.trigger.react (db.registry.calls r.serial ++ [call])),
        db.withRegistry (db.registry.record r call)) := by
    rw [← Registry.calls_record_self]
    rfl
  unfold notify
  rw [exec_bind_ok hcall]
  unfold failWith Trigger.failure
  cases (r.trigger.react (db.registry.calls r.serial ++ [call])).failure <;> rfl

theorem exec_asTrigger_isOk {α : Type} (r : Registration) (call : Run Database α) (db : Database) :
    (exec (asTrigger r call) db).1.isOk = (exec call db).1.isOk := by
  unfold asTrigger
  rw [exec_bind_ok (exec_attempt call db)]
  cases (exec call db).1 <;> rfl

/-! ## Quiet databases -/

/-- If triggers are quiet they stay so, and steps in the life of triggers are taken. -/
def Notifies (db db' : Database) : Prop :=
  db.Quiet → db'.Quiet ∧ ReflTransGen Registry.Step db.registry db'.registry

instance : Std.Refl Notifies := ⟨fun _ hq => ⟨hq, .refl⟩⟩

instance : IsTrans Database Notifies where
  trans _ _ _ h k hq :=
    have hv := h hq
    have hw := k hv.1
    ⟨hw.1, hv.2.trans hw.2⟩

/-- Firing registered triggers one after the other. -/
theorem steps_forM_fireOne (hook : Hook) (old new : Option Row) {rs : List Registration}
    (hrs : ∀ r ∈ rs, r ∈ db.registrations) (hq : db.Quiet) :
    ReflTransGen Registry.Step db.registry
      (exec (rs.forM (fireOne hook old new)) db).2.registry := by
  induction rs generalizing db with
  | nil => exact .refl
  | cons r rs ih =>
    obtain ⟨hr, hrest⟩ := List.forall_mem_cons.mp hrs
    obtain ⟨result, hone⟩ := exec_fireOne hook old new (hq r hr) db
    have hcall : (Firing.event ⟨r, old, new, db.store, result⟩).call.IsFire := trivial
    have hmem : r ∈ db.registry.registrations := hr
    have hstep := Registry.Step.fired hmem hcall
    show ReflTransGen _ _ (exec (fireOne hook old new r >>= fun _ => rs.forM _) db).2.registry
    rw [exec_bind, hone]
    cases result with
    | error e => exact .single hstep
    | ok a =>
      -- firing left the registrations as they were
      have hnext := @ih { db with
        trace := db.trace ++ [Firing.event ⟨r, old, new, db.store, .ok a⟩] } hrest hq
      exact ReflTransGen.head hstep hnext

theorem notifies_fire (hook : Hook) (o : Occasion) (old new : Option Row) :
    Moves Notifies (fire hook o old new) := by
  intro db hq
  refine ⟨(exec_fire_settles hq hook o old new).quiet hq, ?_⟩
  unfold fire
  rw [exec_bind_ok (exec_get db)]
  exact steps_forM_fireOne hook old new (fun r hr => (List.mem_filter.mp hr).1) hq

/-- Registering either registers the trigger, or it is refused and the trigger is not there. -/
theorem exec_register_registry (t : Trigger) (db : Database) :
    ((exec (register t) db).1.isOk = true ∧ (exec (register t) db).2.registry =
        { db.registry.introduce t with
          registrations := db.registrations ++ [⟨db.nextSerial, t⟩] }) ∨
      (exec (register t) db).1.isOk = false ∧
        ((exec (register t) db).2.registry = db.registry ∨
          (exec (register t) db).2.registry = db.registry.introduce t) := by
  unfold register
  rw [exec_bind_ok (exec_get db)]
  dsimp only
  split
  · rw [exec_bind_error (exec_throw _ db)]
    exact .inr ⟨rfl, .inl rfl⟩
  · rw [exec_bind_ok (exec_set db _), exec_bind]
    let next : Database := { db with nextSerial := db.nextSerial + 1 }
    let r : Registration := ⟨db.nextSerial, t⟩
    have hok := exec_asTrigger_isOk r (notify r .init) next
    have hstate := exec_asTrigger r (notify r .init) next
    rw [exec_notify] at hstate
    rcases hrun : exec (asTrigger r (notify r .init)) next with ⟨e | a, db'⟩ <;>
      rw [hrun] at hstate <;> obtain rfl := hstate
    · exact .inr ⟨rfl, .inr rfl⟩
    · exact .inl ⟨rfl, rfl⟩

theorem notifies_register {t : Trigger} (ht : t.Quiet) : Moves Notifies (register t) := by
  intro db hq
  refine ⟨(exec_register ht hq).1, ?_⟩
  rcases exec_register_registry t db with ⟨-, heq⟩ | ⟨-, heq | heq⟩ <;> rw [heq]
  · exact .single (.registered t)
  · exact .single (.refused t)

/-! ## Removal -/

/-- The trigger would leave without a failure. -/
def leaves (db : Database) (r : Registration) : Bool :=
  (r.trigger.failure (db.registry.calls r.serial ++ [.remove])).isNone &&
    (r.trigger.failure (db.registry.calls r.serial ++ [.remove, .close])).isNone

/-- The calls of a trigger that is removed. -/
def dismissal (g : Registry) (r : Registration) : Registry :=
  if (r.trigger.failure (g.calls r.serial ++ [.remove])).isNone then
    (g.record r .remove).record r .close
  else g.record r .remove

theorem exec_dismiss (r : Registration) (db : Database) :
    (exec (notify r .remove >>= fun _ => notify r .close) db).1.isOk = db.leaves r ∧
      (exec (notify r .remove >>= fun _ => notify r .close) db).2 =
        db.withRegistry (dismissal db.registry r) := by
  unfold leaves dismissal
  rw [exec_bind, exec_notify]
  cases hremove : r.trigger.failure (db.registry.calls r.serial ++ [.remove]) with
  | some e => exact ⟨rfl, rfl⟩
  | none =>
    dsimp only
    rw [exec_notify]
    have hcalls : (db.withRegistry (db.registry.record r .remove)).registry.calls r.serial ++
        [.close] = db.registry.calls r.serial ++ [.remove, .close] := by
      show (db.registry.record r .remove).calls r.serial ++ _ = _
      rw [Registry.calls_record_self, List.append_assoc]
      rfl
    rw [hcalls]
    cases r.trigger.failure (db.registry.calls r.serial ++ [.remove, .close]) <;> exact ⟨rfl, rfl⟩

/-- What removing a registered trigger does. -/
theorem exec_unregister {n : TableName} {name : String}
    (hfind : (db.registrations.find? fun r => r.definition.isNamed n name) = some r) :
    (exec (unregister n name) db).1.isOk = db.leaves r ∧
      (exec (unregister n name) db).2 =
        db.withRegistry (dismissal (db.registry.without r) r) := by
  unfold unregister
  rw [exec_bind_ok (exec_get db), hfind]
  rw [exec_bind_ok (exec_set db _), exec_asTrigger_isOk, exec_asTrigger]
  exact exec_dismiss r (db.withRegistry (db.registry.without r))

theorem notifies_unregister (n : TableName) (name : String) :
    Moves Notifies (unregister n name) := by
  intro db hq
  refine ⟨(moves_unregister n name db).quiet hq, ?_⟩
  cases hfind : db.registrations.find? fun r => r.definition.isNamed n name with
  | none =>
    unfold unregister
    rw [exec_bind_ok (exec_get db), hfind]
    exact .refl
  | some r =>
    have hr : r ∈ db.registry.registrations := List.mem_of_find?_eq_some hfind
    rw [(exec_unregister hfind).2]
    show ReflTransGen _ _ (dismissal (db.registry.without r) r)
    unfold dismissal
    split
    · next hpassed => exact .single (.dismissed hr (Option.isNone_iff_eq_none.mp hpassed))
    · next hfailure =>
      exact .single (.removed hr fun hnone => hfailure (Option.isNone_iff_eq_none.mpr hnone))

theorem notifies_dropTriggers (n : TableName) : Moves Notifies (dropTriggers n) := by
  intro db
  unfold dropTriggers
  rw [exec_bind_ok (exec_get db)]
  exact moves_forM (fun r _ => notifies_unregister n r.definition.name) db

/-! ## Dropping a table -/

/-- The triggers of a table. -/
def triggersOn (db : Database) (n : TableName) : List Registration :=
  db.registrations.filter fun r => r.definition.fullName == n

/-- The triggers of other tables. -/
def triggersElsewhere (db : Database) (n : TableName) : List Registration :=
  db.registrations.filter fun r => r.definition.fullName != n

theorem filter_serial_of_nodup {rs : List Registration}
    (h : ((r :: rs).map Registration.serial).Nodup) :
    (r :: rs).filter (fun q => q.serial != r.serial) = rs := by
  have hne : ∀ q ∈ rs, (q.serial != r.serial) = true := by
    intro q hq
    rw [bne_iff_ne]
    intro heq
    exact (List.nodup_cons.mp h).1 (List.mem_map.mpr ⟨q, hq, heq⟩)
  rw [List.filter_cons, bne_self_eq_false]
  exact List.filter_eq_self.mpr hne

theorem dismissal_registrations (g : Registry) (r : Registration) :
    (dismissal g r).registrations = g.registrations := by
  unfold dismissal
  split <;> rfl

theorem dismissal_calls_of_ne {g : Registry} {k : Nat} (h : r.serial ≠ k) :
    (dismissal g r).calls k = g.calls k := by
  unfold dismissal
  split
  · rw [Registry.calls_record_of_ne h, Registry.calls_record_of_ne h]
  · rw [Registry.calls_record_of_ne h]

/-- The database without a trigger, after the calls of its removal. -/
def dismiss (db : Database) (r : Registration) : Database :=
  db.withRegistry (dismissal (db.registry.without r) r)

theorem dismiss_registrations (db : Database) (r : Registration) :
    (db.dismiss r).registrations = db.registrations.filter fun q => q.serial != r.serial :=
  dismissal_registrations _ r

theorem leaves_dismiss {q : Registration} (h : r.serial ≠ q.serial) :
    (db.dismiss r).leaves q = db.leaves q := by
  unfold leaves
  rw [show (db.dismiss r).registry.calls q.serial = db.registry.calls q.serial from
    dismissal_calls_of_ne h]

section Dismiss

variable {n : TableName} {rs : List Registration}
  (hnodup : (db.registrations.map Registration.serial).Nodup) (hrs : db.triggersOn n = r :: rs)

include hrs

/-- A name finds the first trigger of the table that has it. -/
theorem find?_of_triggersOn :
    (db.registrations.find? fun q => q.definition.isNamed n r.definition.name) = some r := by
  have hfilter : (db.triggersOn n).find? (fun q => q.definition.name == r.definition.name) =
      db.registrations.find? fun q => q.definition.isNamed n r.definition.name := by
    refine List.find?_filter.trans ?_
    simp only [Bool.decide_and, Bool.decide_eq_true]
    rfl
  rw [← hfilter, hrs]
  simp

include hnodup

theorem nodup_of_triggersOn : ((r :: rs).map Registration.serial).Nodup := by
  rw [← hrs]
  exact (List.filter_sublist.map _).nodup hnodup

theorem triggersOn_dismiss : (db.dismiss r).triggersOn n = rs := by
  unfold triggersOn
  rw [dismiss_registrations, List.filter_comm]
  show (db.triggersOn n).filter _ = rs
  rw [hrs]
  exact filter_serial_of_nodup (nodup_of_triggersOn hnodup hrs)

theorem triggersElsewhere_dismiss :
    (db.dismiss r).triggersElsewhere n = db.triggersElsewhere n := by
  have hr : r ∈ db.triggersOn n := by
    rw [hrs]
    exact List.mem_cons_self
  obtain ⟨hmem, hname⟩ := List.mem_filter.mp hr
  unfold triggersElsewhere
  rw [dismiss_registrations, List.filter_comm]
  refine List.filter_eq_self.mpr fun q hq => ?_
  obtain ⟨hqmem, hqname⟩ := List.mem_filter.mp hq
  -- another trigger with the number of the removed one would be that trigger
  rw [bne_iff_ne]
  intro heq
  rw [List.inj_on_of_nodup_map hnodup hqmem hmem heq] at hqname
  simp only [beq_iff_eq] at hname
  simp [hname] at hqname

end Dismiss

/-- The triggers of a table are removed one after the other. The first one that fails is gone, those
behind it are still there. -/
theorem exec_forM_unregister {n : TableName} {rs : List Registration} {leaves : Registration → Bool}
    (hnodup : (db.registrations.map Registration.serial).Nodup) (hrs : db.triggersOn n = rs)
    (hleaves : ∀ r ∈ rs, db.leaves r = leaves r) :
    (exec (rs.forM fun r => unregister n r.definition.name) db).1.isOk = rs.all leaves ∧
      (exec (rs.forM fun r => unregister n r.definition.name) db).2.triggersOn n =
        (rs.dropWhile leaves).tail ∧
      (exec (rs.forM fun r => unregister n r.definition.name) db).2.triggersElsewhere n =
        db.triggersElsewhere n := by
  induction rs generalizing db with
  | nil => exact ⟨rfl, hrs, rfl⟩
  | cons r rs ih =>
    obtain ⟨hok, hstate⟩ := exec_unregister (find?_of_triggersOn hrs)
    have hon := triggersOn_dismiss hnodup hrs
    have helsewhere := triggersElsewhere_dismiss hnodup hrs
    have hserials := nodup_of_triggersOn hnodup hrs
    rw [hleaves r List.mem_cons_self] at hok
    have hforM : (r :: rs).forM (fun r => unregister n r.definition.name) =
        unregister n r.definition.name >>= fun _ => rs.forM fun r => unregister n r.definition.name :=
      rfl
    rw [hforM, exec_bind]
    rcases hrun : exec (unregister n r.definition.name) db with ⟨e | a, db'⟩ <;>
      rw [hrun] at hok hstate <;> obtain rfl := hstate
    · -- the loop ends here
      have hfails : leaves r = false := hok.symm
      rw [List.all_cons, List.dropWhile_cons_of_neg (by simp [hfails]), hfails]
      exact ⟨rfl, hon, helsewhere⟩
    · have hleft : leaves r = true := hok.symm
      rw [List.all_cons, List.dropWhile_cons_of_pos hleft, hleft, ← helsewhere]
      refine @ih (db.dismiss r) ?_ hon ?_
      · rw [dismiss_registrations]
        exact (List.filter_sublist.map _).nodup hnodup
      · intro q hq
        rw [← hleaves q (List.mem_cons_of_mem r hq)]
        refine leaves_dismiss fun heq => (List.nodup_cons.mp hserials).1 ?_
        exact List.mem_map.mpr ⟨q, hq, heq.symm⟩

theorem exec_dropTriggers (n : TableName)
    (hnodup : (db.registrations.map Registration.serial).Nodup) :
    (exec (dropTriggers n) db).1.isOk = (db.triggersOn n).all db.leaves ∧
      (exec (dropTriggers n) db).2.triggersOn n = ((db.triggersOn n).dropWhile db.leaves).tail ∧
      (exec (dropTriggers n) db).2.triggersElsewhere n = db.triggersElsewhere n := by
  unfold dropTriggers
  rw [exec_bind_ok (exec_get db)]
  exact exec_forM_unregister hnodup rfl fun _ _ => rfl

/-! ## Closing -/

/-- Triggers are closed one after the other, whether they fail or not. -/
theorem exec_forM_close (rs : List Registration) (db : Database) :
    (exec (rs.forM fun r => do
      let _ ← (notify r .close).attempt
      return ()) db).2 =
      { db with
        trace := db.trace ++ rs.map fun r => ⟨r.serial, r.definition.name, .close⟩ } := by
  induction rs generalizing db with
  | nil =>
    rw [List.map_nil, List.append_nil]
    rfl
  | cons r rs ih =>
    have hone : exec (do
        let _ ← (notify r .close).attempt
        return ()) db = (.ok ⟨⟩, db.withRegistry (db.registry.record r .close)) := by
      rw [exec_bind_ok (exec_attempt _ db), exec_notify]
      rfl
    show (exec (_ >>= fun _ => rs.forM _) db).2 = _
    rw [exec_bind_ok hone, ih, List.map_cons]
    show Database.mk _ _ _ _ ((db.trace ++ [_]) ++ _) _ _ _ _ = _
    rw [List.append_assoc]
    rfl

theorem exec_close (db : Database) :
    (exec close db).2 = db.withRegistry db.registry.close := by
  unfold close
  rw [exec_bind_ok (exec_get db), exec_bind_ok (exec_set db _)]
  exact exec_forM_close _ _

end Database

end SqlStore
