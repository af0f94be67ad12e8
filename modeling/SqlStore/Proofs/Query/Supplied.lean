import SqlStore.Proofs.Check
import SqlStore.Proofs.Query.Parallel
import SqlStore.Proofs.Run
import SqlStore.Session.DataStatement

/-!
# What an insertion supplies

The values of an insertion are evaluated, or a query gives them, before anything changes. So they hang on a
database only by what it answers to queries, as other readings do. In particular they move its state along
whatever reflexive and transitive relation the functions, the scans and the catalog move it along.
-/

namespace SqlStore

namespace Action

/-- What fits is not too wide, and with named targets it is as wide as they are many. -/
theorem checkWidth_eq_ok {named : Bool} {targets width : Nat} :
    checkWidth named targets width = .ok ⟨⟩ ↔ width ≤ targets ∧ (named = true → width = targets) := by
  have hwide : (!(named && decide (width < targets))) = true ↔ (named = true → targets ≤ width) := by
    cases named <;> simp
  constructor
  · intro h
    obtain ⟨_, hle, hnamed⟩ := Except.exists_of_bind_eq_ok h
    have hle := of_decide_eq_true (require_eq_ok.mp hle)
    exact ⟨hle, fun hn => Nat.le_antisymm hle (hwide.mp (require_eq_ok.mp hnamed) hn)⟩
  · rintro ⟨hle, hnamed⟩
    unfold checkWidth
    rw [require_eq_ok.mpr (decide_eq_true hle)]
    exact require_eq_ok.mpr (hwide.mpr fun hn => Nat.le_of_eq (hnamed hn).symm)

/-- The check of values: rows fit their targets, and no value asks for what only queries have. -/
def checkValues (named : Bool) (targets : Nat) (rows : List (List (Option Expression))) : Except Error Unit :=
  rows.forM fun row => do
    checkWidth named targets row.length
    row.forM fun x => x.forM (·.checkClause [] "VALUES")

end Action

namespace Services

section

variable {m : Type → Type} [Monad m] [MonadExceptOf Error m]

/-- An entry of a list of values; a default is left out. -/
def entry (s : Services m) : Option Expression → m (Option Value)
  | some e => do return some (← s.evaluate [] e)
  | none => return none

/-- The rows of values that an insertion supplies. -/
def supplied (s : Services m) (named : Bool) (targets : Nat) :
    InsertSource → m (List (List (Option Value)))
  | .values rows => do
    ofExcept (Action.checkValues named targets rows)
    rows.mapM fun row => row.mapM s.entry
  | .query q => do
    let plan ← ofExcept (Plan.ofSelect (← s.catalog) [] q)
    ofExcept (Action.checkWidth named targets plan.columns.length)
    let r ← plan.run (s.access q.depth) []
    return r.rows.map fun row => row.map some

end

variable {m n : Type → Type} [Monad m] [MonadExceptOf Error m] [Monad n] [MonadExceptOf Error n]
  {L : Parallel m n} {s : Services m} {r : Services n}

theorem parallel_entry {x : Option Expression}
    (h : ∀ e ∈ x, L.Rel (s.evaluate [] e) (r.evaluate [] e)) : L.Rel (s.entry x) (r.entry x) := by
  cases x with
  | none => exact L.pure none
  | some e => exact L.bind (h e rfl) fun _ => L.pure _

theorem parallel_supplied (hL : L.Total) (hcat : L.Rel s.catalog r.catalog)
    (hs : ∀ schema name, L.Rel (s.scan schema name) (r.scan schema name))
    (hc : ∀ name args, L.Rel (s.call name args) (r.call name args)) (named : Bool) (targets : Nat)
    (source : InsertSource) : L.Rel (s.supplied named targets source) (r.supplied named targets source) := by
  cases source with
  | values rows =>
    refine L.bind (L.ofExcept fun err _ => hL err) fun _ => L.mapM fun row _ => L.mapM fun x _ => ?_
    exact parallel_entry fun e _ => parallel_evaluate hL hcat hs hc [] e
  | query q =>
    refine L.bind hcat fun catalog => L.bind (L.ofExcept fun err _ => hL err) fun plan => ?_
    refine L.bind (L.ofExcept fun err _ => hL err) fun _ => ?_
    exact L.bind (parallel_runPlan hL hcat hs hc q.depth [] plan) fun _ => L.pure _

end Services

/-- A statement supplies what its transaction answers. -/
theorem Action.suppliedRows_eq (hook : Hook) (named : Bool) (targets : Nat) (source : InsertSource) :
    suppliedRows hook named targets source = (services hook).supplied named targets source := by
  cases source <;> rfl

/-! ## Moving a state -/

open Run

variable {τ : Type} (R : τ → τ → Prop) [Std.Refl R] [IsTrans τ R]

/-- Moving along a relation goes through sequences of calls. -/
def Parallel.moving : Parallel (Run τ) (Run τ) where
  Rel c _ := Moves R c
  Admits _ := True
  pure := moves_pure
  throw _ := moves_throw _
  bind := Moves.bind

theorem Parallel.total_moving : (moving R).Total := fun _ => trivial

namespace Services

variable {R} {s : Services (Run τ)}
variable (hcat : Moves R s.catalog) (hs : ∀ schema name, Moves R (s.scan schema name))
variable (hc : ∀ name args, Moves R (s.call name args))

include hcat hs hc

theorem moves_holds (depth : Nat) (scope : Scope) (clause : String) (e : Expression) :
    Moves R (e.holds (s.access depth).toSurroundings scope clause) :=
  parallel_holds (L := .moving R) (r := s) (Parallel.total_moving R) hcat hs hc depth e scope clause

theorem moves_evaluate (scope : Scope) (e : Expression) : Moves R (s.evaluate scope e) :=
  parallel_evaluate (L := .moving R) (r := s) (Parallel.total_moving R) hcat hs hc scope e

theorem moves_select (q : Select) : Moves R (s.select q) :=
  parallel_select (L := .moving R) (r := s) (Parallel.total_moving R) hcat hs hc q

theorem moves_supplied (named : Bool) (targets : Nat) (source : InsertSource) :
    Moves R (s.supplied named targets source) :=
  parallel_supplied (L := .moving R) (r := s) (Parallel.total_moving R) hcat hs hc named targets source

end Services

end SqlStore
