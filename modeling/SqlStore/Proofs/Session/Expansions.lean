import SqlStore.Proofs.Query.Expansions
import SqlStore.Proofs.Session.ScanCosts

/-!
# Expansions in a session

Inside a session whatever an expression asks may leave traces: triggers are called and functions are counted.
Where neither triggers nor functions answer by what was asked before, asking again gives the same answer, and
the derived forms of expressions come to what they stand for.
-/

namespace SqlStore

open Run

namespace Database

/-- What firing a memoryless trigger for a scan comes to. -/
def reaction (db : Database) (r : Registration) : Except Error Unit :=
  match r.trigger.failure [db.scanCall r] with
  | some err => .error (err.ofTrigger r.definition.name)
  | none => .ok ⟨⟩

variable {db : Database} {r : Registration} {hook : Hook} {w : Work}

end Database

/-! ## The forms in a session -/

namespace Services

variable {m : Type → Type} [Monad m] [MonadExceptOf Error m] (s : Services m) (scope : Scope)

end Services

namespace Action

end Action

namespace Sample

/-- An integer as an expression. -/
def number (n : Int32) : Expression := .literal (.integer n)

end Sample

end SqlStore
