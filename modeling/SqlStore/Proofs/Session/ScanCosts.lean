import SqlStore.Proofs.Query.Agreement
import SqlStore.Proofs.Session.Layout
import SqlStore.Proofs.Session.Registry

/-!
# What reading costs

Reading a database fires the triggers of the tables that are scanned, and a trigger gets the same call at each
scan. So all that a trigger learns of a query is how often it was called, and whether it fails depends on that
alone. `Costs` says of a call which triggers it calls, by their serial numbers, and what it comes to if they
tolerate that. Costs add up along sequences of calls, and in which order they come does not matter.
-/

namespace SqlStore

open Run

namespace Database

/-- What a trigger is called with at each scan of its table. -/
def scanCall (db : Database) (r : Registration) : TriggerCall :=
  .fire none none (db.visibleRows r.definition.fullName)

/-- After the calls that were recorded, none of the triggers fails if each of them is called for scans as often
as its serial number is listed. -/
def Tolerates (db : Database) (g : Registry) (serials : List Nat) : Prop :=
  ∀ r ∈ db.registrations, ∀ k < serials.count r.serial,
    r.trigger.failure (g.calls r.serial ++ List.replicate (k + 1) (db.scanCall r)) = none

/-- Between the two records, each trigger was called for scans as often as its serial number is listed. -/
def Extends (db : Database) (g : Registry) (serials : List Nat) (g' : Registry) : Prop :=
  ∀ r ∈ db.registrations,
    g'.calls r.serial = g.calls r.serial ++ List.replicate (serials.count r.serial) (db.scanCall r)

variable {db : Database} {g g' g'' : Registry} {serials serials' : List Nat}

theorem Tolerates.perm (h : db.Tolerates g serials) (hperm : serials.Perm serials') :
    db.Tolerates g serials' := by
  intro r hr k hk
  rw [← hperm.count_eq] at hk
  exact h r hr k hk

theorem tolerates_nil (db : Database) (g : Registry) : db.Tolerates g [] := nofun

theorem extends_nil (db : Database) (g : Registry) : db.Extends g [] g :=
  fun _ _ => (List.append_nil _).symm

theorem Extends.trans (h : db.Extends g serials g') (h' : db.Extends g' serials' g'') :
    db.Extends g (serials ++ serials') g'' := by
  intro r hr
  rw [h' r hr, h r hr, List.append_assoc, List.replicate_append_replicate, List.count_append]

/-- What is tolerated in two parts is tolerated in one. -/
theorem Extends.tolerates_append_iff (h : db.Extends g serials g') :
    db.Tolerates g (serials ++ serials') ↔ db.Tolerates g serials ∧ db.Tolerates g' serials' := by
  have hcalls (r : Registration) (hr : r ∈ db.registrations) (k : Nat) :
      g'.calls r.serial ++ List.replicate (k + 1) (db.scanCall r) =
        g.calls r.serial ++ List.replicate (serials.count r.serial + k + 1) (db.scanCall r) := by
    rw [h r hr, List.append_assoc, List.replicate_append_replicate, Nat.add_assoc]
  constructor
  · refine fun hall => ⟨fun r hr k hk => hall r hr k ?_, fun r hr k hk => ?_⟩
    · rw [List.count_append]
      omega
    · rw [hcalls r hr]
      refine hall r hr _ ?_
      rw [List.count_append]
      omega
  · rintro ⟨hfirst, hrest⟩ r hr k hk
    rw [List.count_append] at hk
    -- the call is one of the first part, or of the second one
    rcases Nat.lt_or_ge k (serials.count r.serial) with hlt | hge
    · exact hfirst r hr k hlt
    · have hsecond := hrest r hr (k - serials.count r.serial) (by omega)
      rwa [hcalls r hr, Nat.add_sub_cancel' hge] at hsecond

/-- The call reads the database and calls the triggers of the serial numbers for scans. It succeeds if `r` has
a result and the triggers tolerate that, and then with this result. -/
def Costs {α : Type} (db : Database) (serials : List Nat) (c : Action α) (r : Except Error α) : Prop :=
  ∀ w : Work, w.IsReading db → match exec c w with
    | (.ok a, w') => r = .ok a ∧ db.Tolerates w.database.registry serials ∧ w'.IsReading db ∧
        db.Extends w.database.registry serials w'.database.registry
    | (.error _, _) => ∀ a, r = .ok a → ¬ db.Tolerates w.database.registry serials

namespace Costs

variable {α β : Type} {c : Action α} {r : Except Error α} {w w' : Work} {a : α}

/-- What it says of the costs that the call succeeded. -/
theorem of_exec (h : db.Costs serials c r) (hw : w.IsReading db) (hrun : exec c w = (.ok a, w')) :
    r = .ok a ∧ db.Tolerates w.database.registry serials ∧ w'.IsReading db ∧
      db.Extends w.database.registry serials w'.database.registry := by
  have hcosts := h w hw
  rwa [hrun] at hcosts

theorem exec_ok (h : db.Costs serials c r) (hw : w.IsReading db) (hr : r = .ok a)
    (htolerates : db.Tolerates w.database.registry serials) : ∃ w', exec c w = (.ok a, w') := by
  have hcosts := h w hw
  rcases hrun : exec c w with ⟨err | b, w'⟩ <;> rw [hrun] at hcosts
  · exact absurd htolerates (hcosts a hr)
  · cases hr.symm.trans hcosts.1
    exact ⟨w', rfl⟩

/-- A call after another one: the costs of both. -/
theorem bind {f : α → Action β} {g : α → Except Error β} (h : db.Costs serials c r)
    (hf : ∀ a, r = .ok a → db.Costs serials' (f a) (g a)) :
    db.Costs (serials ++ serials') (c >>= f) (r >>= g) := by
  intro w hw
  have hcosts := h w hw
  rw [exec_bind]
  rcases hrun : exec c w with ⟨err | a, w'⟩ <;> rw [hrun] at hcosts
  · intro b hb htolerates
    obtain ⟨a, ha, -⟩ := Except.exists_of_bind_eq_ok hb
    refine hcosts a ha fun s hs k hk => htolerates s hs k ?_
    rw [List.count_append]
    omega
  · obtain ⟨rfl, htolerates, hw', hextends⟩ := hcosts
    have hrest := hf a rfl w' hw'
    show match exec (f a) w' with
      | (.ok b, w'') => g a = .ok b ∧ _ ∧ _ ∧ _
      | (.error _, _) => ∀ b, g a = .ok b → _
    rcases hrun' : exec (f a) w' with ⟨err | b, w''⟩ <;> rw [hrun'] at hrest
    · exact fun b hb hall => hrest b hb (hextends.tolerates_append_iff.mp hall).2
    · obtain ⟨hb, htolerates', hw'', hextends'⟩ := hrest
      exact ⟨hb, hextends.tolerates_append_iff.mpr ⟨htolerates, htolerates'⟩, hw'', hextends.trans hextends'⟩

/-- A call after one of which it is known what it comes to. -/
theorem andThen {f : α → Action β} {r : Except Error β} (h : db.Costs serials c (.ok a))
    (hf : db.Costs serials' (f a) r) : db.Costs (serials ++ serials') (c >>= f) r := by
  refine h.bind (g := fun _ => r) ?_
  rintro _ ⟨⟩
  exact hf

end Costs

section

variable {α β : Type}

/-- A call that leaves the work alone. -/
theorem costs_of_exec {c : Action α} {r : Except Error α}
    (h : ∀ w : Work, w.IsReading db → exec c w = (r, w)) : db.Costs [] c r := by
  intro w hw
  rw [h w hw]
  cases r with
  | ok a => exact ⟨rfl, tolerates_nil db _, hw, extends_nil db _⟩
  | error err => exact nofun

theorem costs_pure (db : Database) (a : α) : db.Costs [] (pure a) (pure a) := costs_of_exec fun _ _ => rfl

theorem costs_throw (db : Database) (err : Error) : db.Costs (α := α) [] (throw err) (throw err) :=
  costs_of_exec fun _ _ => rfl

/-- A loop costs what its calls do. -/
theorem costs_mapM {cost : α → List Nat} {f : α → Action β} {g : α → Except Error β} {xs : List α}
    (h : ∀ x ∈ xs, db.Costs (cost x) (f x) (g x)) : db.Costs (xs.flatMap cost) (xs.mapM f) (xs.mapM g) := by
  induction xs with
  | nil => exact costs_pure db []
  | cons x xs ih =>
    obtain ⟨hx, hxs⟩ := List.forall_mem_cons.mp h
    rw [List.mapM_cons, List.mapM_cons, List.flatMap_cons, ← List.append_nil (xs.flatMap cost)]
    exact hx.bind fun y _ => (ih hxs).bind fun ys _ => costs_pure db (y :: ys)

end

/-- Calls that cost something, and what they come to. -/
def costing (db : Database) : Parallel Action (Except Error) where
  Rel c r := ∃ serials, db.Costs serials c r
  Admits _ := True
  pure a := ⟨[], costs_pure db a⟩
  throw _ := ⟨[], costs_throw db _⟩
  bind := by
    rintro α β c r f g ⟨serials, hc⟩ hf
    cases r with
    | error err =>
      have hstop : db.Costs (serials ++ []) (c >>= f) (.error err >>= g) := hc.bind nofun
      exact ⟨_, hstop⟩
    | ok a =>
      obtain ⟨serials', ha⟩ := hf a
      exact ⟨_, hc.andThen ha⟩

end Database

/-! ## Scans -/

namespace Database

variable {db : Database} {r : Registration} {hook : Hook} {w : Work}

/-- Firing a quiet trigger for a scan is calling it, with the rows that the store has. -/
theorem exec_onDatabase_fireOne {drawn : Nat} (hw : w.Reads db drawn) (hr : r.trigger.Quiet) (hook : Hook) :
    exec (Action.onDatabase (fireOne hook none none r)) w =
      exec (Action.onDatabase (asTrigger r (notify r (db.scanCall r)))) w := by
  have hcall : .fire none none (w.database.visibleRows r.definition.fullName) = db.scanCall r := by
    unfold scanCall visibleRows
    rw [hw.store_eq]
  unfold Action.onDatabase
  rw [exec_within, exec_fireOne_eq hook none none hr, hcall, exec_within]

/-- One more scan is tolerated if the trigger does not fail on it. -/
theorem tolerates_singleton_iff (hsound : db.registry.Sound) (hr : r ∈ db.registrations) (g : Registry) :
    db.Tolerates g [r.serial] ↔ r.trigger.failure (g.calls r.serial ++ [db.scanCall r]) = none := by
  constructor
  · exact fun h => h r hr 0 (by simp)
  · intro h q hq k hk
    rw [List.count_singleton] at hk
    split at hk
    · next heq =>
      cases hsound.eq_of_serial_eq hr hq (beq_iff_eq.mp heq).symm
      rwa [Nat.lt_one_iff.mp hk]
    · exact absurd hk (Nat.not_lt_zero k)

/-- The record with one more scan. -/
theorem extends_record (hsound : db.registry.Sound) (hr : r ∈ db.registrations) (g : Registry) :
    db.Extends g [r.serial] (g.record r (db.scanCall r)) := by
  intro q hq
  rw [List.count_singleton]
  split
  · next heq =>
    cases hsound.eq_of_serial_eq hr hq (beq_iff_eq.mp heq).symm
    exact Registry.calls_record_self _ _ _
  · next hne =>
    rw [Registry.calls_record_of_ne fun heq => hne (beq_iff_eq.mpr heq)]
    exact (List.append_nil _).symm

/-- Firing a registered trigger for a scan. -/
theorem costs_fireOne (hsound : db.registry.Sound) (hquiet : db.Quiet) (hook : Hook)
    (hr : r ∈ db.registrations) :
    db.Costs [r.serial] (Action.onDatabase (fireOne hook none none r)) (.ok ⟨⟩) := by
  rintro w ⟨drawn, hw⟩
  have htolerates := tolerates_singleton_iff hsound hr w.database.registry
  have hok := exec_asTrigger_isOk r (notify r (db.scanCall r)) w.database
  have hstate := exec_asTrigger r (notify r (db.scanCall r)) w.database
  rw [exec_notify] at hok hstate
  rw [exec_onDatabase_fireOne hw (hquiet r hr), Action.onDatabase, exec_within]
  rcases hrun : exec (asTrigger r (notify r (db.scanCall r))) w.database with ⟨err | ⟨⟩, db'⟩ <;>
    rw [hrun] at hok hstate
  · intro _ _ htolerated
    rw [htolerates.mp htolerated] at hok
    cases hok
  · cases hfailure : r.trigger.failure (w.database.registry.calls r.serial ++ [db.scanCall r]) with
    | some err =>
      rw [hfailure] at hok
      cases hok
    | none =>
      cases hstate
      exact ⟨rfl, htolerates.mpr hfailure, ⟨drawn, hw.record _⟩, extends_record hsound hr _⟩

/-- The triggers that a scan fires at a time. -/
def scanned (db : Database) (n : TableName) (timing : TriggerTiming) : List Nat :=
  (db.registrations.filter fun r => r.definition.fits ⟨n, timing, .select⟩).map Registration.serial

theorem costs_fire (hsound : db.registry.Sound) (hquiet : db.Quiet) (hook : Hook) (n : TableName)
    (timing : TriggerTiming) :
    db.Costs (db.scanned n timing) (Action.fire hook n timing .select none none) (.ok ⟨⟩) := by
  have hloop : ∀ rs : List Registration, (∀ r ∈ rs, r ∈ db.registrations) →
      db.Costs (rs.map Registration.serial) (Action.onDatabase (rs.forM (fireOne hook none none)))
        (.ok ⟨⟩) := by
    intro rs
    induction rs with
    | nil => exact fun _ => costs_pure db _
    | cons r rs ih =>
      intro hrs
      obtain ⟨hr, hrest⟩ := List.forall_mem_cons.mp hrs
      rw [Action.onDatabase_forM_fireOne]
      exact (costs_fireOne hsound hquiet hook hr).bind fun _ _ => ih hrest
  rintro w hw
  obtain ⟨drawn, hreads⟩ := hw
  have hregistrations : w.database.registrations = db.registrations := by
    rw [hreads.database]
  rw [Action.exec_fire, hregistrations]
  exact hloop _ (fun r hr => (List.mem_filter.mp hr).1) w ⟨drawn, hreads⟩

/-- A scan fires the triggers in front of it and behind it, and gives the rows of the table. -/
theorem costs_scan (hsound : db.registry.Sound) (hquiet : db.Quiet) (hook : Hook) (n : TableName) :
    ∃ serials, db.Costs serials (Action.scan hook n) (do return (← db.store.table n).rows) := by
  have hactive : db.Costs [] Action.ensureActive (pure ⟨⟩) :=
    costs_of_exec fun w ⟨_, hw⟩ => Action.exec_ensureActive hw.active
  have htable : db.Costs [] (Action.table n) (db.store.table n) :=
    costs_of_exec fun w ⟨_, hw⟩ => by rw [Action.exec_table, hw.store_eq]
  have hsteps := hactive.bind fun _ _ => (costs_fire hsound hquiet hook n .before).bind fun _ _ =>
    htable.bind fun t _ => (costs_fire hsound hquiet hook n .after).bind fun _ _ => costs_pure db t.rows
  exact ⟨_, hsteps⟩

theorem costs_callFunction {name : String} (h : db.Deterministic name) (args : Tuple) :
    ∃ serials, db.Costs serials (Action.callFunction name args) (db.fixed.call name args) := by
  refine ⟨[], ?_⟩
  rintro w ⟨drawn, hw⟩
  have hresult : w.database.callFunction name args = db.fixed.call name args := by
    rw [hw.database]
    exact h drawn 0 args
  rw [Action.exec_callFunction, hresult]
  cases db.fixed.call name args with
  | error err =>
    intro v hv
    cases hv
  | ok v => exact ⟨rfl, tolerates_nil db _, ⟨drawn + 1, hw.count⟩, extends_nil db _⟩

/-! ## Queries -/

/-- What a database offers to queries inside a transaction, if its definitions are what they are now. -/
def asked (db : Database) (hook : Hook) : Services Action :=
  { Action.services hook with catalog := pure db.catalog }

theorem agree_costing (hsound : db.registry.Sound) (hquiet : db.Quiet) (hook : Hook) :
    Services.Agree db.costing (db.asked hook) db.fixed (fun _ => True) db.Deterministic where
  total _ := trivial
  catalog := ⟨db.catalog, rfl, rfl, fun _ d _ _ => costs_scan hsound hquiet hook ⟨d.schema, d.name⟩⟩
  call _ := costs_callFunction

/-- Whatever asks for definitions while the database is read may ask for those at the start. -/
theorem exec_asked {α : Type} (hook : Hook) {c d : Action α} (hw : w.IsReading db)
    (h : ∀ L : Parallel Action Action, L.Total → L.Rel (Action.services hook).catalog (db.asked hook).catalog →
      (∀ schema name, L.Rel ((Action.services hook).scan schema name) ((db.asked hook).scan schema name)) →
      (∀ name args, L.Rel ((Action.services hook).call name args) ((db.asked hook).call name args)) →
      L.Rel c d) : exec c w = exec d w := by
  let Same : Work → Work → Prop := fun w w' => w = w' ∧ w.IsReading db
  have hself : ∀ {α : Type} {c : Action α},
      Ends (Work.IsReading db) c (fun _ => True) (fun _ => True) → Mirrors Same Never c c := by
    rintro α c hc w _ ⟨rfl, hw⟩
    exact Or.inr ⟨rfl, rfl, (hc w hw).1⟩
  have hcatalog : Mirrors Same Never Action.catalog (pure db.catalog) := by
    rintro w _ ⟨rfl, hw⟩
    obtain ⟨drawn, hreads⟩ := hw
    rw [Action.exec_catalog, hreads.database]
    exact Or.inr ⟨rfl, rfl, drawn, hreads⟩
  have hscan (schema name : String) : Mirrors Same Never (Action.scan hook ⟨schema, name⟩)
      (Action.scan hook ⟨schema, name⟩) :=
    hself ((Action.ends_scan (fun _ _ => trivial) (fun _ _ => trivial) hook).mono (fun _ _ => trivial)
      fun _ h => h)
  have hcall (name : String) (args : Tuple) : Mirrors Same Never (Action.callFunction name args)
      (Action.callFunction name args) :=
    hself (Action.ends_callFunction (fun _ _ _ => trivial) fun _ _ _ => trivial)
  have hsame : Mirrors Same Never c d := h (mirroring Same Never) total_mirroring hcatalog hscan hcall
  obtain ⟨hresult, hstate, -⟩ := hsame.same (s := w) (t := w) ⟨rfl, hw⟩
  exact Prod.ext hresult hstate

theorem exec_run_asked (hook : Hook) (depth : Nat) (outer : Scope) (p : Plan) (hw : w.IsReading db) :
    exec (p.run ((Action.services hook).access depth) outer) w =
      exec (p.run ((db.asked hook).access depth) outer) w :=
  exec_asked hook hw fun _ hL hcatalog hscan hcall =>
    Services.parallel_runPlan hL hcatalog hscan hcall depth outer p

end Database

end SqlStore
