import SqlStore.Proofs.Database.Quiet
import SqlStore.Proofs.Transaction.Action

/-!
# The triggers that a call fires

`Fires` derives from the way a call is put together which triggers it fires, with the rows that they
get and the store that they find. What a call is to fire is written as a `Schedule`: the moments at
which triggers fire, up to the first check that refuses, if one does. At each moment the triggers that
fit its occasion fire in the order of their registration. `Follows` compares the two: a call goes
through its schedule to the end, or it stops at a trigger that fails. `Plays` has a rule for each way
to put calls together.
-/

namespace SqlStore

open Run

/-! ## What fires -/

/-- A trigger that fired: the rows it got, the store it found, and what its firing came to. -/
structure Firing where
  registration : Registration
  old : Option Row
  new : Option Row
  store : Store
  result : Except Error Unit

namespace Firing

/-- How a firing is recorded. -/
def event (f : Firing) : TriggerEvent where
  serial := f.registration.serial
  name := f.registration.definition.name
  call := .fire f.old f.new
    ((f.store.table? f.registration.definition.fullName).map fun t => t.rows.length)

/-- The trigger did not fail. -/
def Passed (f : Firing) : Prop := f.result = .ok ()

end Firing

/-- A call that starts in a state fires triggers, one after the other, and ends with a result in a
state. -/
inductive Fires (hook : Hook) :
    {α : Type} → Action α → Work → List Firing → Except Error α → Work → Prop
  /-- Nothing fires. -/
  | silent {α : Type} {call : Action α} {w w' : Work} {r : Except Error α}
      (hrun : exec call w = (r, w')) (htrace : w'.database.trace = w.database.trace) :
      Fires hook call w [] r w'
  /-- One trigger fires. -/
  | fired {f : Firing} {w w' : Work} (hstore : f.store = w.database.store)
      (hrun : exec (Action.onDatabase (Database.fireOne hook f.old f.new f.registration)) w =
        (f.result, w'))
      (htrace : w'.database.trace = w.database.trace ++ [f.event]) :
      Fires hook (Action.onDatabase (Database.fireOne hook f.old f.new f.registration)) w [f]
        f.result w'
  /-- A call succeeds, and the next one starts where it ended. -/
  | next {α β : Type} {call : Action α} {rest : α → Action β} {w v w' : Work} {a : α}
      {r : Except Error β} {fs gs : List Firing} (hcall : Fires hook call w fs (.ok a) v)
      (hrest : Fires hook (rest a) v gs r w') : Fires hook (call >>= rest) w (fs ++ gs) r w'
  /-- A call fails, and the next one does not start. -/
  | stop {α β : Type} {call : Action α} {rest : α → Action β} {w w' : Work} {e : Error}
      {fs : List Firing} (hcall : Fires hook call w fs (.error e) w') :
      Fires hook (call >>= rest) w fs (.error e) w'

/-- What is derived is what happens, and exactly the firings are recorded. -/
theorem Fires.sound {hook : Hook} {α : Type} {call : Action α} {w w' : Work} {fs : List Firing}
    {r : Except Error α} (h : Fires hook call w fs r w') :
    exec call w = (r, w') ∧ w'.database.trace = w.database.trace ++ fs.map Firing.event := by
  induction h with
  | silent hrun htrace =>
    rw [htrace, List.map_nil, List.append_nil]
    exact ⟨hrun, rfl⟩
  | fired _ hrun htrace => exact ⟨hrun, htrace⟩
  | next _ _ ihcall ihrest =>
    refine ⟨(exec_bind_ok ihcall.1).trans ihrest.1, ?_⟩
    rw [ihrest.2, ihcall.2, List.map_append, List.append_assoc]
  | stop _ ih => exact ⟨exec_bind_error ih.1, ih.2⟩

/-! ## What is to fire -/

/-- A moment of a call: an occasion, the rows that triggers get and what they see in the store. -/
structure Moment where
  occasion : Occasion
  old : Option Row
  new : Option Row
  sees : Store → Prop

/-- The moments of a call, and the failure of the check that ends it, if one does. -/
structure Schedule where
  moments : List Moment
  refusal : Option Error

namespace Schedule

/-- Nothing is left to do. -/
def done : Schedule := ⟨[], none⟩

/-- A moment in front of a schedule. -/
def moment (m : Moment) (next : Schedule) : Schedule := ⟨m :: next.moments, next.refusal⟩

/-- A check in front of a schedule. -/
def check {α : Type} (r : Except Error α) (next : α → Schedule) : Schedule :=
  match r with
  | .ok a => next a
  | .error e => ⟨[], some e⟩

/-- A schedule after another one, if no check refuses before. -/
def andThen (s t : Schedule) : Schedule :=
  match s.refusal with
  | none => ⟨s.moments ++ t.moments, t.refusal⟩
  | some _ => s

/-- What is to fire at the moments of a schedule: the triggers that fit, in the order of
registration. -/
def script (registered : List Registration) (s : Schedule) : List (Registration × Moment) :=
  s.moments.flatMap fun m =>
    (registered.filter fun r => r.definition.fits m.occasion).map fun r => (r, m)

variable {registered : List Registration} {s t : Schedule}

theorem andThen_of_some {e : Error} (h : s.refusal = some e) : s.andThen t = s := by
  unfold andThen
  rw [h]

theorem andThen_of_none (h : s.refusal = none) :
    s.andThen t = ⟨s.moments ++ t.moments, t.refusal⟩ := by
  unfold andThen
  rw [h]

@[simp] theorem andThen_done : s.andThen done = s := by
  cases h : s.refusal with
  | none =>
    rw [andThen_of_none h]
    show Schedule.mk (s.moments ++ []) none = s
    rw [List.append_nil, ← h]
  | some e => exact andThen_of_some h

theorem script_andThen (h : s.refusal = none) :
    (s.andThen t).script registered = s.script registered ++ t.script registered := by
  rw [andThen_of_none h]
  exact List.flatMap_append

theorem script_prefix : s.script registered <+: (s.andThen t).script registered := by
  cases h : s.refusal with
  | none =>
    rw [script_andThen h]
    exact List.prefix_append _ _
  | some e =>
    simp only [andThen_of_some h, List.prefix_rfl]

end Schedule

/-- The trigger fired as it was to. -/
structure Firing.AsWritten (f : Firing) (p : Registration × Moment) : Prop where
  registration_eq : f.registration = p.1
  old_eq : f.old = p.2.old
  new_eq : f.new = p.2.new
  sees : p.2.sees f.store

/-- What fired, against what was to fire, in a call that failed because a trigger did: what fired is
the beginning of what was to fire, and the trigger that failed was the last one. -/
def StopsAt (script : List (Registration × Moment)) (fs : List Firing) (e : Error) : Prop :=
  ∃ before last played, fs = before ++ [last] ∧ (∀ f ∈ before, f.Passed) ∧
    last.result = .error e ∧ played <+: script ∧ List.Forall₂ Firing.AsWritten fs played

/-- What fired in a call against its schedule, by the result of the call. It went through the schedule,
and if a check refused, failed as the check does, or it failed at a trigger. -/
def Follows {α : Type} (registered : List Registration) (s : Schedule) (fs : List Firing)
    (r : Except Error α) : Prop :=
  (List.Forall₂ Firing.AsWritten fs (s.script registered) ∧ (∀ f ∈ fs, f.Passed) ∧
      ∀ e, r = .error e ↔ s.refusal = some e) ∨
    ∃ e, r = .error e ∧ StopsAt (s.script registered) fs e

section Follows

variable {registered : List Registration} {s t : Schedule} {fs gs : List Firing} {α β : Type}

theorem follows_done (a : α) : Follows registered .done [] (.ok a) :=
  .inl ⟨.nil, nofun, fun _ => ⟨nofun, nofun⟩⟩

theorem follows_refusal (e : Error) :
    Follows registered ⟨[], some e⟩ [] (.error e : Except Error α) :=
  .inl ⟨.nil, nofun, fun _ => by simp⟩

theorem StopsAt.prefix {script script' : List (Registration × Moment)} {e : Error}
    (h : StopsAt script fs e) (hs : script <+: script') : StopsAt script' fs e := by
  obtain ⟨before, last, played, hfs, hpassed, hlast, hplayed, hall⟩ := h
  exact ⟨before, last, played, hfs, hpassed, hlast, hplayed.trans hs, hall⟩

theorem StopsAt.append {script script' : List (Registration × Moment)} {e : Error}
    (hall : List.Forall₂ Firing.AsWritten fs script) (hpassed : ∀ f ∈ fs, f.Passed)
    (h : StopsAt script' gs e) : StopsAt (script ++ script') (fs ++ gs) e := by
  obtain ⟨before, last, played, rfl, hmore, hlast, hplayed, hrest⟩ := h
  refine ⟨fs ++ before, last, script ++ played, ?_, ?_, hlast, ?_, ?_⟩
  · rw [List.append_assoc]
  · exact List.forall_mem_append.mpr ⟨hpassed, hmore⟩
  · exact (List.prefix_append_right_inj _).mpr hplayed
  · exact List.rel_append hall hrest

theorem Follows.next {a : α} {r : Except Error β} (h : Follows registered s fs (.ok a))
    (k : Follows registered t gs r) : Follows registered (s.andThen t) (fs ++ gs) r := by
  rcases h with ⟨hall, hpassed, hrefusal⟩ | ⟨e, he, -⟩
  · have hnone : s.refusal = none :=
      Option.eq_none_iff_forall_ne_some.mpr fun e he => nomatch (hrefusal e).mpr he
    unfold Follows
    rw [Schedule.script_andThen hnone, Schedule.andThen_of_none hnone]
    rcases k with ⟨hrest, hmore, hend⟩ | ⟨e, he, hstop⟩
    · exact .inl ⟨List.rel_append hall hrest, List.forall_mem_append.mpr ⟨hpassed, hmore⟩, hend⟩
    · exact .inr ⟨e, he, hstop.append hall hpassed⟩
  · cases he

theorem Follows.stop {e : Error} (h : Follows registered s fs (.error e : Except Error α)) :
    Follows registered (s.andThen t) fs (.error e : Except Error β) := by
  rcases h with ⟨hall, hpassed, hrefusal⟩ | ⟨e, ⟨⟩, hstop⟩
  · rw [Schedule.andThen_of_some ((hrefusal e).mp rfl)]
    exact .inl ⟨hall, hpassed, fun e' => by rw [← hrefusal e']; simp⟩
  · exact .inr ⟨e, rfl, hstop.prefix Schedule.script_prefix⟩

end Follows

/-! ## Calls that play schedules -/

/-- From states with `P` and these registrations, what the call fires follows the schedule, and if it
succeeds then with `Q`. -/
def Plays {α : Type} (registered : List Registration) (hook : Hook) (P : Work → Prop)
    (call : Action α) (s : Schedule) (Q : α → Work → Prop) : Prop :=
  ∀ w, P w → w.database.registrations = registered → ∃ fs r w', Fires hook call w fs r w' ∧
    w'.database.registrations = registered ∧ Follows registered s fs r ∧ ∀ a, r = .ok a → Q a w'

/-- The call fires no trigger and registers none. -/
structure Silent (w w' : Work) : Prop where
  trace_eq : w'.database.trace = w.database.trace
  registrations_eq : w'.database.registrations = w.database.registrations

instance : Std.Refl Silent := ⟨fun _ => ⟨rfl, rfl⟩⟩

section Plays

variable {registered : List Registration} {hook : Hook} {α β : Type} {P : Work → Prop}
  {s t : Schedule}

theorem Plays.bind {call : Action α} {rest : α → Action β} {M : α → Work → Prop}
    {Q : β → Work → Prop} (hcall : Plays registered hook P call s M)
    (hrest : ∀ a, Plays registered hook (M a) (rest a) t Q) :
    Plays registered hook P (call >>= rest) (s.andThen t) Q := by
  intro w hw hreg
  obtain ⟨fs, r, v, hfires, hreg', hfollows, hM⟩ := hcall w hw hreg
  cases r with
  | error e => exact ⟨fs, .error e, v, .stop hfires, hreg', hfollows.stop, nofun⟩
  | ok a =>
    obtain ⟨gs, r, w', hfires', hend, hfollows', hQ⟩ := hrest a v (hM a rfl) hreg'
    exact ⟨fs ++ gs, r, w', .next hfires hfires', hend, hfollows.next hfollows', hQ⟩

theorem Plays.weaken {call : Action α} {Q Q' : α → Work → Prop}
    (h : Plays registered hook P call s Q) (hQ : ∀ a w, Q a w → Q' a w) :
    Plays registered hook P call s Q' := by
  intro w hw hreg
  obtain ⟨fs, r, w', hfires, hend, hfollows, hres⟩ := h w hw hreg
  exact ⟨fs, r, w', hfires, hend, hfollows, fun a ha => hQ a w' (hres a ha)⟩

/-- A call that fires nothing and cannot fail. -/
theorem plays_silent {call : Action α} {Q : α → Work → Prop} (hsilent : Moves Silent call)
    (h : Meets P call Q fun _ => False) : Plays registered hook P call .done Q := by
  intro w hw hreg
  have hrun := h w hw
  have hkept := hsilent w
  rcases hres : exec call w with ⟨e | a, w'⟩ <;> rw [hres] at hrun hkept
  · exact hrun.elim
  · refine ⟨[], .ok a, w', .silent hres hkept.trace_eq, hkept.registrations_eq.trans hreg,
      follows_done a, ?_⟩
    rintro _ ⟨⟩
    exact hrun

theorem plays_pure {a : α} {Q : α → Work → Prop} (h : ∀ w, P w → Q a w) :
    Plays registered hook P (pure a : Action α) .done Q :=
  plays_silent (moves_pure a) (meets_pure h)

/-- A call that is refused, and one behind it that does not start. -/
theorem Plays.refused {call : Action α} {e : Error} {rest : α → Action β} {Q : β → Work → Prop}
    (h : Plays registered hook P call ⟨[], some e⟩ fun _ _ => False) :
    Plays registered hook P (call >>= rest) ⟨[], some e⟩ Q :=
  h.bind (t := .done) fun _ _ hfalse => hfalse.elim

section Silent

variable {call : Action α} {rest : α → Action β} {M : α → Work → Prop} {Q : β → Work → Prop}

/-- A call that fires nothing, in front of one that plays a schedule. -/
theorem Plays.after (hsilent : Moves Silent call) (hcall : Meets P call M fun _ => False)
    (hrest : ∀ a, Plays registered hook (M a) (rest a) s Q) :
    Plays registered hook P (call >>= rest) s Q :=
  (plays_silent hsilent hcall : Plays registered hook P call .done M).bind hrest

/-- A call that plays a schedule, with nothing fired behind it. -/
theorem Plays.last (hcall : Plays registered hook P call s M)
    (hrest : ∀ a, Plays registered hook (M a) (rest a) .done Q) :
    Plays registered hook P (call >>= rest) s Q := by
  rw [← Schedule.andThen_done (s := s)]
  exact hcall.bind hrest

end Silent

/-- A call that only reads something or checks it, in front of one that goes on from there. -/
theorem plays_read {call : Action α} {r : Except Error α} {rest : α → Action β}
    {next : α → Schedule} {Q : β → Work → Prop} (hcall : ∀ w, P w → exec call w = (r, w))
    (h : ∀ a, r = .ok a → Plays registered hook P (rest a) (next a) Q) :
    Plays registered hook P (call >>= rest) (.check r next) Q := by
  intro w hw hreg
  have hsilent : Fires hook call w [] r w := .silent (hcall w hw) rfl
  cases r with
  | error e => exact ⟨[], .error e, w, .stop hsilent, hreg, follows_refusal e, nofun⟩
  | ok a =>
    obtain ⟨fs, r, w', hfires, hend⟩ := h a rfl w hw hreg
    exact ⟨[] ++ fs, r, w', .next hsilent hfires, hend⟩

theorem plays_check {r : Except Error α} {rest : α → Action β} {next : α → Schedule}
    {Q : β → Work → Prop} (h : ∀ a, r = .ok a → Plays registered hook P (rest a) (next a) Q) :
    Plays registered hook P (ofExcept r >>= rest) (.check r next) Q :=
  plays_read (fun w _ => exec_ofExcept r w) h

end Plays

/-! ## Firing at an occasion -/

namespace Database

theorem exec_asTrigger {α : Type} (r : Registration) (call : Run Database α) (db : Database) :
    (exec (asTrigger r call) db).2 = (exec call db).2 := by
  unfold asTrigger
  rw [exec_bind_ok (exec_attempt call db)]
  cases (exec call db).1 <;> rfl

/-- A quiet trigger is called once, and its call is recorded. -/
theorem exec_fireOne (hook : Hook) (old new : Option Row) {r : Registration}
    (hr : r.trigger.Quiet) (db : Database) : ∃ result, exec (fireOne hook old new r) db =
      (result, { db with trace := db.trace ++ [Firing.event ⟨r, old, new, db.store, result⟩] }) := by
  refine ⟨(exec (fireOne hook old new r) db).1, Prod.ext rfl ?_⟩
  let call := TriggerCall.fire old new (db.visibleRows r.definition.fullName)
  let trace := db.trace ++ [⟨r.serial, r.definition.name, call⟩]
  have hcall : exec (callTrigger r call) db =
      (.ok (r.trigger.react (r.calls trace)), { db with trace }) := rfl
  rw [exec_fireOne_eq hook old new hr, exec_asTrigger]
  -- behind the call there is only its failure
  unfold notify failWith
  rw [exec_bind_ok hcall]
  cases (r.trigger.react (r.calls trace)).failure <;> rfl

end Database

namespace Action

variable {registered : List Registration} {hook : Hook} {c : Core} {α β : Type}

theorem onDatabase_bind (call : Run Database α) (rest : α → Run Database β) :
    onDatabase (call >>= rest) = onDatabase call >>= fun a => onDatabase (rest a) := by
  have hexec : ∀ w, exec (onDatabase (call >>= rest)) w =
      exec (onDatabase call >>= fun a => onDatabase (rest a)) w := by
    intro w
    rw [exec_bind]
    unfold onDatabase
    rw [exec_within, exec_within, exec_bind]
    rcases exec call w.database with ⟨e | a, db⟩ <;> rfl
  exact funext hexec

/-- The first trigger fires, and then the others. -/
theorem onDatabase_forM_fireOne (hook : Hook) (old new : Option Row) (r : Registration)
    (rs : List Registration) :
    onDatabase ((r :: rs).forM (Database.fireOne hook old new)) =
      onDatabase (Database.fireOne hook old new r) >>= fun _ =>
        onDatabase (rs.forM (Database.fireOne hook old new)) :=
  onDatabase_bind _ _

/-- Who fires is found first. -/
theorem fire_eq (hook : Hook) (n : TableName) (timing : TriggerTiming) (operation : TableOperation)
    (old new : Option Row) :
    fire hook n timing operation old new = onDatabase get >>= fun db =>
      onDatabase ((db.registrations.filter fun r => r.definition.fits ⟨n, timing, operation⟩).forM
        (Database.fireOne hook old new)) :=
  onDatabase_bind _ _

theorem exec_fire (hook : Hook) (n : TableName) (timing : TriggerTiming) (operation : TableOperation)
    (old new : Option Row) (w : Work) :
    exec (fire hook n timing operation old new) w =
      exec (onDatabase ((w.database.registrations.filter fun r =>
        r.definition.fits ⟨n, timing, operation⟩).forM (Database.fireOne hook old new))) w := by
  rw [fire_eq]
  exact exec_bind_ok (a := w.database) rfl

/-- Triggers that are fired one after the other fire in their order, up to the first one that fails. -/
theorem exists_fires_forM (hook : Hook) (m : Moment) {rs : List Registration} (hq : ∀ r ∈ rs, r.trigger.Quiet)
    {w : Work} (hsees : m.sees w.database.store) : ∃ fs result trace,
      Fires hook (onDatabase (rs.forM (Database.fireOne hook m.old m.new))) w fs result
        { w with database := { w.database with trace } } ∧
      match result with
      | .ok _ =>
        List.Forall₂ Firing.AsWritten fs (rs.map fun r => (r, m)) ∧ ∀ f ∈ fs, f.Passed
      | .error e => StopsAt (rs.map fun r => (r, m)) fs e := by
  induction rs generalizing w with
  | nil => exact ⟨[], .ok ⟨⟩, w.database.trace, .silent rfl rfl, .nil, nofun⟩
  | cons r rs ih =>
    obtain ⟨hr, hrs⟩ := List.forall_mem_cons.mp hq
    obtain ⟨result, hone⟩ := Database.exec_fireOne hook m.old m.new hr w.database
    let f : Firing := ⟨r, m.old, m.new, w.database.store, result⟩
    have hwritten : f.AsWritten (r, m) := ⟨rfl, rfl, rfl, hsees⟩
    have hfired : Fires hook (onDatabase (Database.fireOne hook m.old m.new r)) w [f] result
        { w with database := { w.database with trace := w.database.trace ++ [f.event] } } := by
      refine .fired (f := f) rfl ?_ rfl
      unfold onDatabase
      rw [exec_within, hone]
    rw [onDatabase_forM_fireOne]
    cases result with
    | error e =>
      refine ⟨[f], .error e, _, .stop hfired, [], f, [(r, m)], rfl, nofun, rfl, ?_, ?_⟩
      · exact List.prefix_append [(r, m)] _
      · exact .cons hwritten .nil
    | ok a =>
      -- the first trigger only recorded its call, so the others find the same store
      obtain ⟨fs, result, trace, hfires, hrest⟩ := ih hrs (w := { w with
        database := { w.database with trace := w.database.trace ++ [f.event] } }) hsees
      have hfirst : List.Forall₂ Firing.AsWritten [f] [(r, m)] := .cons hwritten .nil
      have hpassed : ∀ g ∈ [f], g.Passed := List.forall_mem_singleton.mpr rfl
      refine ⟨f :: fs, result, trace, .next hfired hfires, ?_⟩
      cases result with
      | ok a => exact ⟨.cons hwritten hrest.1, List.forall_mem_cons.mpr ⟨rfl, hrest.2⟩⟩
      | error e => exact hrest.append hfirst hpassed

/-- Firing at an occasion is one moment. -/
theorem plays_fire (n : TableName) (timing : TriggerTiming) (operation : TableOperation)
    (old new : Option Row) {sees : Store → Prop} (hsees : sees c.store) :
    Plays registered hook (At c) (fire hook n timing operation old new)
      (.moment ⟨⟨n, timing, operation⟩, old, new, sees⟩ .done) fun _ => At c := by
  rintro w ⟨rfl, hquiet⟩ rfl
  let m : Moment := ⟨⟨n, timing, operation⟩, old, new, sees⟩
  let rs := w.database.registrations.filter fun r => r.definition.fits m.occasion
  have hget : Fires hook (onDatabase get) w [] (.ok w.database) w := .silent rfl rfl
  have hscript : (Schedule.done.moment m).script w.database.registrations =
      rs.map fun r => (r, m) := List.append_nil _
  have hall : ∀ r ∈ rs, r.trigger.Quiet := fun r hr => hquiet r (List.mem_filter.mp hr).1
  obtain ⟨fs, result, trace, hfires, hends⟩ := exists_fires_forM hook m hall hsees
  rw [fire_eq]
  refine ⟨fs, result, _, .next hget hfires, rfl, ?_, fun _ _ => ⟨rfl, hquiet⟩⟩
  unfold Follows
  rw [hscript]
  cases result with
  | ok a => exact .inl ⟨hends.1, hends.2, fun _ => ⟨nofun, nofun⟩⟩
  | error e => exact .inr ⟨e, rfl, hends⟩

/-- Firing in front of a call. -/
theorem Plays.fire {n : TableName} {timing : TriggerTiming} {operation : TableOperation}
    {old new : Option Row} {sees : Store → Prop} (hsees : sees c.store) {rest : Unit → Action β}
    {s : Schedule} {Q : β → Work → Prop}
    (hrest : Plays registered hook (At c) (rest ()) s Q) :
    Plays registered hook (At c) (fire hook n timing operation old new >>= rest)
      (.moment ⟨⟨n, timing, operation⟩, old, new, sees⟩ s) Q :=
  (plays_fire n timing operation old new hsees).bind fun _ => hrest

end Action

end SqlStore
