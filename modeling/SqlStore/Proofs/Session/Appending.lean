import SqlStore.Proofs.Arrangement
import SqlStore.Proofs.Session.Alignment
import SqlStore.Proofs.Session.Hearing
import SqlStore.Proofs.Session.ScanCosts
import SqlStore.Proofs.Session.Selecting

/-!
# Insertions append rows

An insertion that succeeds puts rows behind those of its table, under the next numbers. They hold what its source
supplies for their columns, by the names that it is listed for, and what they are filled in with otherwise. So
the names may be listed in any order along with their values: the insertion succeeds as before and leaves the
same store. Functions that draw identifiers would draw them in the order of the list, so there are none in it.
-/

namespace SqlStore

open Run

/-! ## Values listed in another order

Where functions draw nothing, each value comes to what it came to before. Queries inside the values fire
triggers of scans, in another order but as often as before. -/

section

/-- Rows of values whose functions draw nothing. -/
def Database.Undrawn (db : Database) (rows : List (List (Option Expression))) : Prop :=
  ∀ row ∈ rows, ∀ x ∈ row, ∀ e ∈ x, ∀ name ∈ e.calls, db.Deterministic name

variable {db : Database} {hook : Hook} {w w' : Work} {rows : List (List (Option Expression))}
  {supplied : List (List (Option Value))} {order : List Nat} {named : Bool} {targets : Nat}

/-- Values that passed their check pass it in another order, when there is a name for each. -/
theorem Action.checkValues_rearranged (horder : ∀ row ∈ rows, order.Perm (List.range row.length))
    (h : checkValues named targets rows = .ok ⟨⟩) :
    checkValues true order.length (rows.map (rearranged order)) = .ok ⟨⟩ := by
  refine Except.forM_eq_ok_of_forall fun row' hrow' => ?_
  obtain ⟨row, hrow, rfl⟩ := List.mem_map.mp hrow'
  obtain ⟨_, -, hchecked⟩ := Except.exists_of_bind_eq_ok (Except.forall_of_forM_eq_ok h row hrow)
  have hperm := rearranged_perm (horder row hrow)
  have hlength : (rearranged order row).length = order.length := by
    rw [hperm.length_eq, (horder row hrow).length_eq, List.length_range]
  rw [hlength, checkWidth_eq_ok.mpr ⟨Nat.le_refl _, fun _ => rfl⟩]
  exact Except.forM_eq_ok_of_forall fun x hx =>
    Except.forall_of_forM_eq_ok hchecked x (hperm.mem_iff.mp hx)

namespace Database

/-- A value costs what its expression does. -/
theorem exists_costs_entry (hsound : db.registry.Sound) (hquiet : db.Quiet) (hook : Hook)
    {x : Option Expression} (hcalls : ∀ e ∈ x, ∀ name ∈ e.calls, db.Deterministic name) :
    ∃ serials, db.Costs serials ((db.asked hook).entry x) (db.fixed.entry x) :=
  Services.parallel_entry (L := db.costing) fun e he =>
    (agree_costing hsound hquiet hook).evaluate [] (fun _ _ => trivial) (hcalls e he)

/-- Rows of values cost what their expressions do, and each expression costs the same in every row. -/
theorem exists_costs_entries (hsound : db.registry.Sound) (hquiet : db.Quiet) (hook : Hook) :
    ∃ cost : Option Expression → List Nat, ∀ rows, db.Undrawn rows →
      db.Costs (rows.flatMap fun row => row.flatMap cost)
        (rows.mapM fun row => row.mapM (db.asked hook).entry)
        (rows.mapM fun row => row.mapM db.fixed.entry) := by
  have hentry : ∀ x : Option Expression, ∃ serials, (∀ e ∈ x, ∀ name ∈ e.calls, db.Deterministic name) →
      db.Costs serials ((db.asked hook).entry x) (db.fixed.entry x) := by
    intro x
    by_cases hx : ∀ e ∈ x, ∀ name ∈ e.calls, db.Deterministic name
    · obtain ⟨serials, hcosts⟩ := exists_costs_entry hsound hquiet hook hx
      exact ⟨serials, fun _ => hcosts⟩
    · exact ⟨[], fun h => absurd h hx⟩
  choose cost hcost using hentry
  exact ⟨cost, fun rows hcalls => costs_mapM fun row hrow => costs_mapM fun x hx =>
    hcost x (hcalls row hrow x hx)⟩

theorem Undrawn.rearranged (h : db.Undrawn rows) (order : List Nat) :
    db.Undrawn (rows.map (rearranged order)) := by
  intro row' hrow' x hx
  obtain ⟨row, hrow, rfl⟩ := List.mem_map.mp hrow'
  exact h row hrow x (mem_of_mem_rearranged hx)

/-- Evaluating values in another order calls the same triggers as often. -/
theorem exec_entries_rearranged (hsound : db.registry.Sound) (hquiet : db.Quiet) (hw : w.IsReading db)
    (hcalls : db.Undrawn rows) (horder : ∀ row ∈ rows, order.Perm (List.range row.length))
    (h : exec (rows.mapM fun row => row.mapM (db.asked hook).entry) w = (.ok supplied, w')) :
    ∃ w'', exec ((rows.map (rearranged order)).mapM fun row => row.mapM (db.asked hook).entry) w =
      (.ok (supplied.map (rearranged order)), w'') := by
  obtain ⟨cost, hcosts⟩ := exists_costs_entries hsound hquiet hook
  obtain ⟨hresult, htolerates, -, -⟩ := (hcosts rows hcalls).of_exec hw h
  -- each value is the same in the other order, and the calls are the same ones in another order
  have hresult' : ((rows.map (rearranged order)).mapM fun row => row.mapM db.fixed.entry) =
      .ok (supplied.map (rearranged order)) := by
    refine Except.mapM_eq_ok_of_forall₂ (List.forall₂_map_left_iff.mpr (List.forall₂_map_right_iff.mpr ?_))
    exact (Except.forall₂_of_mapM_eq_ok hresult).imp fun row values hvalues => mapM_rearranged hvalues order
  have hperm : (rows.flatMap fun row => row.flatMap cost).Perm
      ((rows.map (rearranged order)).flatMap fun row => row.flatMap cost) := by
    rw [List.flatMap_map]
    refine List.Perm.flatMap_left rows fun row hrow => ?_
    exact ((rearranged_perm (horder row hrow)).flatMap_right cost).symm
  exact (hcosts _ (hcalls.rearranged order)).exec_ok hw hresult' (htolerates.perm hperm)

end Database

/-- What values supply, they supply in another order if they are listed so. -/
theorem Action.exec_suppliedRows_rearranged (hsound : db.registry.Sound) (hquiet : db.Quiet)
    (hw : w.IsReading db) (hcalls : db.Undrawn rows)
    (horder : ∀ row ∈ rows, order.Perm (List.range row.length))
    (h : exec (suppliedRows hook named targets (.values rows)) w = (.ok supplied, w')) :
    ∃ w'', exec (suppliedRows hook true order.length (.values (rows.map (rearranged order)))) w =
      (.ok (supplied.map (rearranged order)), w'') := by
  have hasked (named : Bool) (targets : Nat) (source : InsertSource) :
      exec (suppliedRows hook named targets source) w =
        exec ((db.asked hook).supplied named targets source) w := by
    rw [suppliedRows_eq]
    exact Database.exec_asked hook hw fun L hL hcatalog hscan hcall =>
      Services.parallel_supplied hL hcatalog hscan hcall named targets source
  rw [hasked] at h ⊢
  obtain ⟨_, hchecked, hentries⟩ := exec_ofExcept_bind_eq_ok h
  obtain ⟨w'', hentries'⟩ := Database.exec_entries_rearranged hsound hquiet hw hcalls horder hentries
  refine ⟨w'', ?_⟩
  show exec (ofExcept (checkValues true order.length (rows.map (rearranged order))) >>= fun _ =>
    (rows.map (rearranged order)).mapM fun row => row.mapM (db.asked hook).entry) w = _
  rw [checkValues_rearranged horder hchecked]
  exact hentries'

end

/-! ## What sources supply -/

namespace Action

variable {hook : Hook} {named : Bool} {targets width : Nat} {q : Select} {supplied : List (List (Option Value))}
  {w w' : Work}

/-- A query supplies the rows of its answer. -/
theorem exists_of_suppliedRows_query
    (h : exec (suppliedRows hook named targets (.query q)) w = (.ok supplied, w')) :
    ∃ p r, Plan.ofSelect w.database.catalog [] q = .ok p ∧
      checkWidth named targets p.columns.length = .ok ⟨⟩ ∧
      exec (p.run ((services hook).access q.depth) []) w = (.ok r, w') ∧
      supplied = r.rows.map (List.map some) := by
  have hsteps : exec (catalog >>= fun c => ofExcept (Plan.ofSelect c [] q) >>= fun plan =>
      ofExcept (checkWidth named targets plan.columns.length) >>= fun _ =>
        plan.run ((services hook).access q.depth) [] >>= fun r =>
          pure (r.rows.map fun row => row.map some)) w = (.ok supplied, w') := h
  rw [exec_bind_ok (exec_catalog w)] at hsteps
  obtain ⟨p, hp, hsteps⟩ := exec_ofExcept_bind_eq_ok hsteps
  obtain ⟨_, hwidth, hsteps⟩ := exec_ofExcept_bind_eq_ok hsteps
  obtain ⟨r, _, hrun, hsteps⟩ := exec_bind_eq_ok hsteps
  cases hsteps
  exact ⟨p, r, hp, hwidth, hrun, rfl⟩

end Action

namespace Engine

variable {e : Engine} {i : Nat} {named : Bool} {targets : Nat} {source : InsertSource}
  {supplied : List (List (Option Value))}

/-- A source of an insertion of a session supplies rows of values for so many targets. -/
def Supplies (e : Engine) (i : Nat) (named : Bool) (targets : Nat) (source : InsertSource)
    (supplied : List (List (Option Value))) : Prop :=
  ∃ w, exec (Action.suppliedRows (e.connection i).database.hook named targets source)
    (e.connection i).starting = (.ok supplied, w)

/-- Listed values come to what their expressions do, at some number of function calls; a default in the list
stays one. -/
theorem Supplies.values (he : e.Reachable) {rows : List (List (Option Expression))}
    (h : e.Supplies i named targets (.values rows) supplied) :
    Action.checkValues named targets rows = .ok ⟨⟩ ∧ List.Forall₂ (List.Forall₂ fun x v => ∃ drawn drawn',
      exec (e.database.reading.entry x) drawn = (.ok v, drawn')) rows supplied := by
  obtain ⟨w', hsupplied⟩ := h
  obtain ⟨drawn', hread, -⟩ := (Action.reads_suppliedRows _ _ _ _).of_ok (reads_starting he i) hsupplied
  obtain ⟨_, hchecked, hentries⟩ := exec_ofExcept_bind_eq_ok hread
  refine ⟨hchecked, (exec_mapM_eq_ok hentries).imp fun row values ⟨_, _, hrow⟩ => ?_⟩
  exact exec_mapM_eq_ok hrow

/-- A query supplies what the session would be answered. -/
theorem Supplies.query (he : e.Reachable) {q : Select} (h : e.Supplies i named targets (.query q) supplied) :
    ∃ r, e.answer i (.select q) = .ok (.selected r) ∧ supplied = r.rows.map (List.map some) := by
  obtain ⟨w', hsupplied⟩ := h
  obtain ⟨p, r, hp, -, hrun, rfl⟩ := Action.exists_of_suppliedRows_query hsupplied
  refine ⟨r, ?_, rfl⟩
  rw [answer_query he i, Action.exec_select hp, hrun]
  rfl

/-- No row has more values than there are targets, and with named targets none has less. -/
theorem Supplies.width (he : e.Reachable) (h : e.Supplies i named targets source supplied) :
    ∀ row ∈ supplied, row.length ≤ targets ∧ (named = true → row.length = targets) := by
  cases source with
  | values rows =>
    obtain ⟨hchecked, hvalues⟩ := h.values he
    intro values hmem
    obtain ⟨row, hrow, hentries⟩ := exists_of_mem_forall₂ hvalues hmem
    obtain ⟨_, hwidth, -⟩ := Except.exists_of_bind_eq_ok (Except.forall_of_forM_eq_ok hchecked row hrow)
    rw [← hentries.length_eq]
    exact Action.checkWidth_eq_ok.mp hwidth
  | query q =>
    obtain ⟨w', hsupplied⟩ := h
    obtain ⟨p, r, hp, hwidth, hrun, rfl⟩ := Action.exists_of_suppliedRows_query hsupplied
    have hw := reads_starting he i
    have hcatalog : (e.connection i).starting.database.catalog = e.database.catalog := by
      rw [hw.database]
      rfl
    have hfits := he.fits (hcatalog ▸ hp) hw hrun
    intro values hmem
    obtain ⟨row, hrow, rfl⟩ := List.mem_map.mp hmem
    rw [List.length_map, hfits.width row hrow]
    exact Action.checkWidth_eq_ok.mp hwidth

/-- Listed values in another order supply theirs in that order, if the functions in them draw nothing. -/
theorem Supplies.rearranged (he : e.Reachable) {rows : List (List (Option Expression))} {width : Nat}
    {order : List Nat} (h : e.Supplies i named targets (.values rows) supplied)
    (hundrawn : e.database.Undrawn rows) (hrows : ∀ row ∈ supplied, row.length = width)
    (horder : order.Perm (List.range width)) :
    e.Supplies i true width (.values (rows.map (rearranged order))) (supplied.map (rearranged order)) := by
  have hlengths : ∀ row ∈ rows, order.Perm (List.range row.length) := by
    intro row hrow
    obtain ⟨values, hvalues, hentries⟩ := exists_of_mem_forall₂ (h.values he).2.flip hrow
    rw [hentries.length_eq, hrows values hvalues]
    exact horder
  obtain ⟨w', hsupplied⟩ := h
  have hwidth : order.length = width := by rw [horder.length_eq, List.length_range]
  rw [← hwidth]
  exact Action.exec_suppliedRows_rearranged he.sound (he.inv i).quiet ⟨_, reads_starting he i⟩ hundrawn
    hlengths hsupplied

end Engine

namespace Sample

end Sample

end SqlStore
