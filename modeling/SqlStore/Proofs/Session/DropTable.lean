import SqlStore.Proofs.Session.DerivedTable
import SqlStore.Proofs.Transaction.Release

/-!
# Dropping tables

`DROP TABLE` looks for all its tables before it drops the first one, and so it drops none if one is missing
that may not be. What comes after that is not undone: a table that is named twice is missing the second
time, and a trigger that fails its removal ends the statement behind its table.
-/

namespace SqlStore

open Run

/-! ## Stores without some tables -/

/-- The store without the tables of some names. -/
def Store.without (s : Store) (ns : List TableName) : Store :=
  { s with tables := s.tables.filter fun t => t.definition.fullName ∉ ns }

namespace Store

variable {s : Store} {n m : TableName} {ns : List TableName}

@[simp] theorem without_nil (s : Store) : s.without [] = s := by
  unfold without
  simp

theorem without_without (s : Store) (ns ms : List TableName) :
    (s.without ns).without ms = s.without (ns ++ ms) := by
  unfold without
  rw [List.filter_filter]
  simp [Bool.and_comm]

theorem table?_without : (s.without ns).table? n = if n ∈ ns then none else s.table? n := by
  unfold without table?
  rw [List.find?_filter]
  split
  · next hn =>
    rw [List.find?_eq_none]
    rintro t - ht
    simp only [decide_eq_true_eq, beq_iff_eq] at ht
    exact ht.1 (ht.2 ▸ hn)
  · next hn =>
    congr 1
    funext t
    by_cases ht : t.definition.fullName = n
    · subst ht
      simp [hn]
    · simp [ht]

theorem dropTable_of_isSome (h : (s.table? n).isSome) : s.dropTable n = .ok (s.without [n]) := by
  obtain ⟨t, ht⟩ := Option.isSome_iff_exists.mp h
  unfold dropTable without
  rw [table_eq_ok.mpr ht]
  simp only [List.mem_singleton, decide_not]
  rfl

theorem dropTable_of_none (h : s.table? n = none) : s.dropTable n = .error n.missing := by
  unfold dropTable table
  rw [h]
  rfl

/-- What is there without a table was there, and is not that table. -/
theorem forall_table?_without_iff :
    (∀ m ∈ ns, ((s.without [n]).table? m).isSome = true) ↔
      n ∉ ns ∧ ∀ m ∈ ns, (s.table? m).isSome = true := by
  simp only [table?_without, List.mem_singleton]
  constructor
  · intro h
    refine ⟨fun hmem => ?_, fun m hm => ?_⟩
    · simpa using h n hmem
    · have hthere := h m hm
      split at hthere
      · cases hthere
      · exact hthere
  · rintro ⟨hnot, h⟩ m hm
    have hne : m ≠ n := fun heq => hnot (heq ▸ hm)
    rw [if_neg hne]
    exact h m hm

end Store

/-! ## Triggers of tables -/

namespace Database

/-- The databases know the same of their triggers. -/
def SameRegistry (a b : Database) : Prop := a.registry = b.registry

theorem mirrors_notify (r : Registration) (call : TriggerCall) :
    Mirrors SameRegistry Never (notify r call) (notify r call) := by
  refine mirrors_of_exec fun a b hab => ?_
  have hb := exec_notify r call b
  rw [← show a.registry = b.registry from hab] at hb
  exact ⟨_, _, _, exec_notify r call a, hb, rfl⟩

theorem mirrors_asTrigger {S : Database → Database → Prop} {α : Type} (r : Registration)
    {call : Run Database α} (h : Mirrors S Never call call) :
    Mirrors S Never (asTrigger r call) (asTrigger r call) := by
  refine h.attempt.bind fun result => ?_
  cases result with
  | ok a => exact mirrors_pure a
  | error e => exact mirrors_throw _

theorem mirrors_unregister (n : TableName) (name : String) :
    Mirrors SameRegistry Never (unregister n name) (unregister n name) := by
  refine mirrors_get_bind fun a b hab => ?_
  have hregistrations : a.registrations = b.registrations :=
    congrArg Registry.registrations hab
  rw [hregistrations]
  cases b.registrations.find? fun r => r.definition.isNamed n name with
  | none => exact mirrors_throw _
  | some r =>
    let others := b.registrations.filter fun q => q.serial != r.serial
    have hset : SameRegistry { a with registrations := others } { b with registrations := others } :=
      congrArg (fun g : Registry => Registry.mk others g.nextSerial g.trace) hab
    refine (mirrors_set hset).bind fun _ => mirrors_asTrigger r ?_
    exact (mirrors_notify r .remove).bind fun _ => mirrors_notify r .close

/-- What removing the triggers of a table comes to is a matter of the registry. -/
theorem mirrors_dropTriggers (n : TableName) :
    Mirrors SameRegistry Never (dropTriggers n) (dropTriggers n) := by
  refine mirrors_get_bind fun a b hab => ?_
  rw [show a.registrations = b.registrations from congrArg Registry.registrations hab]
  exact mirrors_forM fun r _ => mirrors_unregister n r.definition.name

/-- The triggers of tables leave without a failure when they are removed table by table. -/
def allLeave (db : Database) (ns : List TableName) : Bool := (exec (ns.forM dropTriggers) db).1.isOk

theorem allLeave_eq_of_sameRegistry {a b : Database} (h : SameRegistry a b) (ns : List TableName) :
    a.allLeave ns = b.allLeave ns := by
  unfold allLeave
  rw [((mirrors_forM fun n _ => mirrors_dropTriggers n).same h).1]

theorem allLeave_cons (db : Database) (n : TableName) (ns : List TableName) :
    db.allLeave (n :: ns) =
      ((exec (dropTriggers n) db).1.isOk && (exec (dropTriggers n) db).2.allLeave ns) := by
  show (exec (dropTriggers n >>= fun _ => ns.forM dropTriggers) db).1.isOk = _
  rw [exec_bind]
  rcases exec (dropTriggers n) db with ⟨err | _, db'⟩ <;> rfl

end Database

/-! ## The statement -/

namespace Action

variable {w : Work} {n : TableName} {ns : List TableName}

theorem exec_dropTable_of_none (hactive : w.transaction.state = .active)
    (h : w.database.store.table? n = none) : exec (dropTable n) w = (.error n.missing, w) := by
  unfold dropTable
  rw [exec_bind_ok (exec_ensureActive hactive), exec_bind, exec_changeStore,
    Store.dropTable_of_none h]

/-- The table leaves the store, and then its triggers are removed. -/
theorem exec_dropTable_of_isSome (hactive : w.transaction.state = .active)
    (h : (w.database.store.table? n).isSome) :
    ∃ db, exec (dropTable n) w =
        ((exec (Database.dropTriggers n) w.database).1, ⟨db, w.transaction⟩) ∧
      db.store = w.database.store.without [n] ∧
      db.SameRegistry (exec (Database.dropTriggers n) w.database).2 := by
  let dropped : Database := { w.database with store := w.database.store.without [n] }
  obtain ⟨hresult, hregistry⟩ := (Database.mirrors_dropTriggers n).same
    (show dropped.SameRegistry w.database from rfl)
  refine ⟨(exec (Database.dropTriggers n) dropped).2, ?_, ?_, hregistry⟩
  · unfold dropTable
    rw [exec_bind_ok (exec_ensureActive hactive), exec_bind, exec_changeStore,
      Store.dropTable_of_isSome h, ← hresult]
    rfl
  · exact (Database.moves_dropTriggers n dropped).store_eq

/-- Tables are dropped one after the other up to the first failure, which is a table that is not there any
more or a trigger of the last one that was dropped. -/
theorem exec_forM_dropTable (ns : List TableName) (hactive : w.transaction.state = .active) :
    ∃ dropped, dropped <+: ns ∧
      (exec (ns.forM dropTable) w).2.database.store = w.database.store.without dropped ∧
      (exec (ns.forM dropTable) w).2.transaction = w.transaction ∧
      ((exec (ns.forM dropTable) w).1.isOk = true ↔ ns.Nodup ∧
        (∀ n ∈ ns, (w.database.store.table? n).isSome) ∧ w.database.allLeave ns = true) ∧
      ((exec (ns.forM dropTable) w).1.isOk = true → dropped = ns) ∧
      ((∀ n ∈ ns.head?, (w.database.store.table? n).isSome) → dropped = [] → ns = []) := by
  induction ns generalizing w with
  | nil =>
    refine ⟨[], List.prefix_rfl, (Store.without_nil _).symm, rfl, ?_, fun _ => rfl, fun _ _ => rfl⟩
    exact ⟨fun _ => ⟨List.nodup_nil, nofun, rfl⟩, fun _ => rfl⟩
  | cons n ns ih =>
    have hforM : (n :: ns).forM dropTable = dropTable n >>= fun _ => ns.forM dropTable := rfl
    rw [hforM, exec_bind]
    cases hn : w.database.store.table? n with
    | none =>
      rw [exec_dropTable_of_none hactive hn]
      -- it is not there any more, and nothing else is dropped
      have hmissing : ¬ (w.database.store.table? n).isSome := by simp [hn]
      refine ⟨[], List.nil_prefix, (Store.without_nil _).symm, rfl, ⟨nofun, ?_⟩, nofun, ?_⟩
      · rintro ⟨-, hpresent, -⟩
        exact absurd (hpresent n List.mem_cons_self) hmissing
      · intro hhead
        exact absurd (hhead n rfl) hmissing
    | some t =>
      obtain ⟨db, hrun, hstore, hregistry⟩ :=
        exec_dropTable_of_isSome (n := n) hactive (by rw [hn]; rfl)
      rw [hrun, Database.allLeave_cons, ← Database.allLeave_eq_of_sameRegistry hregistry]
      rcases exec (Database.dropTriggers n) w.database with ⟨err | _, _⟩
      · -- a trigger failed, and its table is gone
        refine ⟨[n], List.prefix_append [n] ns, hstore, rfl, ⟨nofun, ?_⟩, nofun, nofun⟩
        rintro ⟨-, -, h⟩
        cases h
      · obtain ⟨dropped, hprefix, hstore', htransaction, hok, hall, -⟩ :=
          @ih ⟨db, w.transaction⟩ hactive
        dsimp only at hstore' hok
        rw [hstore] at hstore' hok
        refine ⟨n :: dropped, List.prefix_cons_inj n |>.mpr hprefix, ?_, htransaction, ?_,
          fun h => congrArg _ (hall h), nofun⟩
        · exact hstore'.trans (Store.without_without _ [n] dropped)
        · rw [hok, List.nodup_cons, List.forall_mem_cons, hn]
          -- the rest is tried in the store without the table
          rw [Store.forall_table?_without_iff]
          simp only [Option.isSome_some, true_and, Except.isOk, Except.toBool, Bool.true_and]
          tauto

/-- The tables to drop are looked for first. -/
theorem exec_presentTables (ifExists : Bool) (ns : List TableName) (w : Work) :
    exec (presentTables ifExists ns) w =
      ((match ifExists, ns.find? fun n => (w.database.store.table? n).isNone with
        | false, some n => .error (.execution ("table " ++ quoteName n.name ++ " does not exist"))
        | _, _ => .ok (ns.filter fun n => (w.database.store.table? n).isSome)), w) := by
  induction ns with
  | nil => cases ifExists <;> rfl
  | cons n ns ih =>
    have hdefinition : exec (definition? n) w =
        (.ok ((w.database.store.table? n).map Table.definition), w) := rfl
    unfold presentTables
    rw [exec_bind_ok hdefinition, List.find?_cons, List.filter_cons]
    cases w.database.store.table? n with
    | none =>
      cases ifExists with
      | false => rfl
      | true =>
        show exec (presentTables true ns >>= fun rest => pure rest) w = _
        rw [exec_bind, ih]
        rfl
    | some t =>
      show exec (presentTables ifExists ns >>= fun rest => pure (n :: rest)) w = _
      rw [exec_bind, ih]
      cases ifExists <;> cases ns.find? fun n => (w.database.store.table? n).isNone <;> rfl

theorem exec_mapM_fullName (names : List ObjectName) (w : Work) :
    exec (names.mapM fullName) w =
      (.ok (names.map (·.inSchema w.database.config.defaultSchema)), w) := by
  induction names with
  | nil => rfl
  | cons n names ih =>
    rw [List.mapM_cons, exec_bind_ok (show exec (fullName n) w = (.ok _, w) from rfl),
      exec_bind_ok ih]
    rfl

section Statement

variable {names : List ObjectName} {ifExists : Bool} {named : List TableName}
  (hnamed : names.map (·.inSchema w.database.config.defaultSchema) = named)

include hnamed

theorem exec_dropTableStatement_of_missing
    (h : named.find? (fun n => (w.database.store.table? n).isNone) = some n) :
    exec (dropTableStatement names false) w =
      (.error (.execution ("table " ++ quoteName n.name ++ " does not exist")), w) := by
  have hpresent := exec_presentTables false named w
  rw [h] at hpresent
  unfold dropTableStatement
  rw [exec_bind_ok (exec_mapM_fullName names w), hnamed, exec_bind_error hpresent]

theorem exec_dropTableStatement
    (h : ifExists = true ∨ ∀ n ∈ named, (w.database.store.table? n).isSome) :
    let present := named.filter fun n => (w.database.store.table? n).isSome
    exec (dropTableStatement names ifExists) w =
      ((exec (present.forM dropTable) w).1.map fun _ => .tablesDropped (present.map TableName.name),
        (exec (present.forM dropTable) w).2) := by
  intro present
  have hpresent : exec (presentTables ifExists named) w = (.ok present, w) := by
    rw [exec_presentTables]
    rcases h with rfl | hall
    · rfl
    · have hfind : named.find? (fun n => (w.database.store.table? n).isNone) = none :=
        List.find?_eq_none.mpr fun n hn => by simp [Option.isSome_iff_ne_none.mp (hall n hn)]
      rw [hfind]
      cases ifExists <;> rfl
  unfold dropTableStatement
  rw [exec_bind_ok (exec_mapM_fullName names w), hnamed, exec_bind_ok hpresent, exec_bind]
  rcases exec (present.forM dropTable) w with ⟨err | _, w'⟩ <;> rfl

end Statement

end Action

namespace Engine

variable {e : Engine}

/-- Let a session of an engine that a new one comes to drop tables. If one of them is missing that may not
be, the statement fails and drops none. Otherwise, if those that are there are named once each and all their
triggers leave without a failure, exactly those tables are gone and the others are as they were. In all
other cases the statement fails, and at least the first of the tables is gone. -/
theorem drop_tables (he : e.Reachable) (i : Nat) (names : List ObjectName) (ifExists : Bool) :
    let named := names.map (·.inSchema e.database.config.defaultSchema)
    let present := named.filter fun n => (e.store.table? n).isSome
    let answer := e.answer i (.dropTable names ifExists)
    let left := (e.execute i (.dropTable names ifExists)).store
    (∀ n, ifExists = false → named.find? (fun n => (e.store.table? n).isNone) = some n →
        answer = .error (.execution ("table " ++ quoteName n.name ++ " does not exist")) ∧
          left = e.store) ∧
      (ifExists = true ∨ (∀ n ∈ named, (e.store.table? n).isSome) →
        (present.Nodup ∧ e.database.allLeave present = true →
            answer = .ok (.tablesDropped (present.map TableName.name)) ∧
              left = e.store.without present) ∧
          (¬ (present.Nodup ∧ e.database.allLeave present = true) →
            ∃ err dropped, answer = .error err ∧ dropped ≠ [] ∧ dropped <+: present ∧
              left = e.store.without dropped)) := by
  intro named present answer left
  have hc := he.inv i
  obtain ⟨version, t, hstarting, hactive, hundo⟩ : ∃ version t, (e.connection i).starting =
      ⟨{ e.database with nextVersion := version }, t⟩ ∧ t.state = .active ∧ t.undo = [] := by
    unfold Connection.starting
    cases ht : (e.connection i).transaction with
    | none => exact ⟨_, _, rfl, rfl, rfl⟩
    | some t => exact ⟨_, _, rfl, (hc.active t ht).1, rfl⟩
  let w : Work := ⟨{ e.database with nextVersion := version }, t⟩
  have hrun : ∀ {r w'}, exec (Action.dropTableStatement names ifExists) w = (r, w') →
      w'.transaction = t → answer = r ∧ left = w'.database.store := by
    intro r w' h htransaction
    have hperform : exec (Action.perform e.database.hook (.dropTable names ifExists))
        (e.connection i).starting = (r, w') := hstarting ▸ h
    have hunlogged : (exec (Action.perform e.database.hook (.dropTable names ifExists))
        (e.connection i).starting).2.transaction.undo = [] := by
      rw [hperform, htransaction, hundo]
    have hran := Connection.exec_executeStatement_of_unlogged (s := .dropTable names ifExists) id
      hc.quiet (fun t ht => (hc.active t ht).1) hunlogged
    rw [hperform] at hran
    have hexec : exec (Session.executeStatement (.dropTable names ifExists)) (e.connection i) = _ :=
      exec_executeStatement _ _
    show (exec (Session.executeStatement _) _).1 = r ∧
      (exec (Session.executeStatement _) _).2.database.store = _
    rw [hexec]
    exact hran
  constructor
  · rintro n rfl hn
    exact hrun (Action.exec_dropTableStatement_of_missing (w := w) rfl hn) rfl
  · intro hall
    obtain ⟨dropped, hprefix, hstore, htransaction, hok, hdropped, hfirst⟩ :=
      Action.exec_forM_dropTable (w := w) present hactive
    obtain ⟨hanswer, hleft⟩ :=
      hrun (Action.exec_dropTableStatement (w := w) rfl hall) htransaction
    have hpresent : ∀ n ∈ present, (e.store.table? n).isSome := fun n hn => (List.mem_filter.mp hn).2
    have hok' : (exec (present.forM Action.dropTable) w).1.isOk = true ↔
        present.Nodup ∧ e.database.allLeave present = true := by
      have hregistry : w.database.SameRegistry e.database := rfl
      rw [hok, Database.allLeave_eq_of_sameRegistry hregistry]
      exact ⟨fun h => ⟨h.1, h.2.2⟩, fun h => ⟨h.1, hpresent, h.2⟩⟩
    rw [← hok']
    rcases hexec : exec (present.forM Action.dropTable) w with ⟨err | _, w'⟩ <;>
      rw [hexec] at hanswer hleft hstore hdropped
    · refine ⟨fun h => (nomatch h : False).elim, fun _ => ?_⟩
      refine ⟨err, dropped, hanswer, fun hnil => ?_, hprefix, hleft.trans hstore⟩
      have hnone : present = [] := hfirst (fun n hn => hpresent n (List.mem_of_mem_head? hn)) hnil
      rw [hnone] at hexec
      cases hexec
    · exact ⟨fun _ => ⟨hanswer, hleft.trans (hdropped rfl ▸ hstore)⟩, fun h => absurd rfl h⟩

end Engine

namespace Sample

/-- `items` in a statement. -/
def itemsName : ObjectName := ⟨none, "items"⟩

theorem drop_items :
    filled.answer 0 (.dropTable [itemsName] false) = .ok (.tablesDropped ["items"]) ∧
      (filled.execute 0 (.dropTable [itemsName] false)).store = filled.store.without [items] := by
  have hnamed : [itemsName].map (·.inSchema filled.database.config.defaultSchema) = [items] := by
    decide +kernel
  have hpresent : [items].filter (fun n => (filled.store.table? n).isSome) = [items] := by
    decide +kernel
  have hall : ∀ n ∈ [items], (filled.store.table? n).isSome := by decide +kernel
  obtain ⟨-, hdrop⟩ := Engine.drop_tables filled_reachable 0 [itemsName] false
  rw [hnamed, hpresent] at hdrop
  exact (hdrop (Or.inr hall)).1 ⟨List.nodup_singleton _, by decide +kernel⟩

/-- `DROP TABLE items, items` fails, and the table and its rows are gone. -/
theorem drop_items_twice :
    ¬ ∀ (e : Engine) (i : Nat) (names : List ObjectName) (ifExists : Bool) (err : Error),
      e.Reachable → e.answer i (.dropTable names ifExists) = .error err →
        ∀ n t, e.store.table? n = some t →
          (e.execute i (.dropTable names ifExists)).store.table? n = some t := by
  intro h
  obtain ⟨err, hfails⟩ := exists_error_of_isOk
    (r := filled.answer 0 (.dropTable [itemsName, itemsName] false)) (by decide +kernel)
  have hthere : (filled.store.table? items).isSome = true := by decide +kernel
  obtain ⟨t, ht⟩ := Option.isSome_iff_exists.mp hthere
  have hgone : (filled.execute 0 (.dropTable [itemsName, itemsName] false)).store.table? items =
      none := Option.isNone_iff_eq_none.mp (by decide +kernel)
  rw [h filled 0 _ false err filled_reachable hfails items t ht] at hgone
  cases hgone

end Sample

end SqlStore
