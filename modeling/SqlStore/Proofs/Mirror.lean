import SqlStore.Proofs.Query.Parallel
import SqlStore.Proofs.Run

/-!
# Calls that mirror each other

Two calls run from related states. The first mirrors the second if it ends with the same result or
failure, again in related states; some failures of the first may be excused, after which nothing is said.
Mirroring goes through sequences, loops and branches, so it is a `Parallel` relation: queries mirror each
other if what they ask does.
-/

namespace SqlStore

namespace Run

variable {σ τ α β : Type}

/-- No failure is excused. -/
abbrev Never : Error → Prop := fun _ => False

/-- From related states the first call ends as the second does, in related states, or it fails with an
excused failure. -/
def Mirrors (S : σ → τ → Prop) (X : Error → Prop) (c : Run σ α) (d : Run τ α) : Prop :=
  ∀ s t, S s t → (∃ err, (exec c s).1 = .error err ∧ X err) ∨
    ((exec c s).1 = (exec d t).1 ∧ S (exec c s).2 (exec d t).2)

variable {S : σ → τ → Prop} {X : Error → Prop}

/-- What is known when nothing is excused. -/
theorem Mirrors.same {c : Run σ α} {d : Run τ α} (h : Mirrors S Never c d) {s : σ} {t : τ}
    (hst : S s t) : (exec c s).1 = (exec d t).1 ∧ S (exec c s).2 (exec d t).2 := by
  rcases h s t hst with ⟨err, -, hnever⟩ | hsame
  · exact hnever.elim
  · exact hsame

/-- What a success of the first call says of the second. -/
theorem Mirrors.of_ok {c : Run σ α} {d : Run τ α} (h : Mirrors S X c d) {s s' : σ} {t : τ} {a : α}
    (hst : S s t) (hok : exec c s = (.ok a, s')) : ∃ t', exec d t = (.ok a, t') ∧ S s' t' := by
  rcases h s t hst with ⟨err, herr, -⟩ | ⟨hresult, hstate⟩
  · rw [hok] at herr
    cases herr
  · rw [hok] at hresult hstate
    exact ⟨(exec d t).2, Prod.ext hresult.symm rfl, hstate⟩

theorem mirrors_of_exec {c : Run σ α} {d : Run τ α}
    (h : ∀ s t, S s t → ∃ r s' t', exec c s = (r, s') ∧ exec d t = (r, t') ∧ S s' t') :
    Mirrors S X c d := by
  intro s t hst
  obtain ⟨r, s', t', hc, hd, hstate⟩ := h s t hst
  right
  rw [hc, hd]
  exact ⟨rfl, hstate⟩

theorem mirrors_pure (a : α) : Mirrors S X (pure a : Run σ α) (pure a) :=
  fun _ _ hst => Or.inr ⟨rfl, hst⟩

theorem mirrors_throw (err : Error) : Mirrors S X (throw err : Run σ α) (throw err) :=
  fun _ _ hst => Or.inr ⟨rfl, hst⟩

theorem mirrors_ofExcept (r : Except Error α) :
    Mirrors S X (ofExcept r : Run σ α) (ofExcept r) := by
  cases r with
  | ok a => exact mirrors_pure a
  | error err => exact mirrors_throw err

/-- What is set is set whatever the states were. -/
theorem mirrors_set {s : σ} {t : τ} (h : S s t) :
    Mirrors S X (set s : Run σ PUnit) (set t) := fun _ _ _ => Or.inr ⟨rfl, h⟩

theorem Mirrors.bind {c : Run σ α} {d : Run τ α} {f : α → Run σ β} {g : α → Run τ β}
    (hc : Mirrors S X c d) (hf : ∀ a, Mirrors S X (f a) (g a)) :
    Mirrors S X (c >>= f) (d >>= g) := by
  intro s t hst
  have h := hc s t hst
  rw [exec_bind, exec_bind]
  rcases hrunc : exec c s with ⟨err | a, s'⟩ <;> rcases hrund : exec d t with ⟨err' | a', t'⟩ <;>
    rw [hrunc, hrund] at h
  · -- both failed, or the first was excused
    rcases h with ⟨err, herr, hX⟩ | ⟨herr, hstate⟩
    · cases herr
      exact Or.inl ⟨_, rfl, hX⟩
    · cases herr
      exact Or.inr ⟨rfl, hstate⟩
  · rcases h with ⟨err, herr, hX⟩ | ⟨herr, -⟩
    · cases herr
      exact Or.inl ⟨_, rfl, hX⟩
    · cases herr
  · rcases h with ⟨err, herr, -⟩ | ⟨herr, -⟩ <;> cases herr
  · rcases h with ⟨err, herr, -⟩ | ⟨hresult, hstate⟩
    · cases herr
    · cases hresult
      exact hf a s' t' hstate

/-- Reading the states first, when what comes next mirrors for each two related ones. -/
theorem mirrors_get_bind {f : σ → Run σ β} {g : τ → Run τ β}
    (h : ∀ s t, S s t → Mirrors S X (f s) (g t)) : Mirrors S X (get >>= f) (get >>= g) := by
  intro s t hst
  rw [exec_bind_ok (exec_get s), exec_bind_ok (exec_get t)]
  exact h s t hst s t hst

theorem mirrors_ite {p : Prop} [Decidable p] {c c' : Run σ α} {d d' : Run τ α}
    (hc : Mirrors S X c d) (hc' : Mirrors S X c' d') :
    Mirrors S X (if p then c else c') (if p then d else d') := by
  split
  · exact hc
  · exact hc'

/-- With nothing excused, a failure that was caught is a result. -/
theorem Mirrors.attempt {c : Run σ α} {d : Run τ α} (h : Mirrors S Never c d) :
    Mirrors S Never (attempt c) (attempt d) := by
  intro s t hst
  obtain ⟨hresult, hstate⟩ := h.same hst
  exact Or.inr ⟨congrArg Except.ok hresult, hstate⟩

/-- Mirroring goes through whatever calls are put together of. -/
def mirroring (S : σ → τ → Prop) (X : Error → Prop) : Parallel (Run σ) (Run τ) where
  Rel c d := Mirrors S X c d
  Admits _ := True
  pure := mirrors_pure
  throw _ := mirrors_throw _
  bind := Mirrors.bind

theorem total_mirroring : (mirroring S X).Total := fun _ => trivial

theorem mirrors_mapM {f : α → Run σ β} {g : α → Run τ β} {xs : List α}
    (h : ∀ a ∈ xs, Mirrors S X (f a) (g a)) : Mirrors S X (xs.mapM f) (xs.mapM g) :=
  (mirroring S X).mapM h

theorem mirrors_forM {f : α → Run σ PUnit} {g : α → Run τ PUnit} {xs : List α}
    (h : ∀ a ∈ xs, Mirrors S X (f a) (g a)) : Mirrors S X (xs.forM f) (xs.forM g) := by
  induction xs with
  | nil => exact mirrors_pure _
  | cons x xs ih =>
    obtain ⟨hx, hxs⟩ := List.forall_mem_cons.mp h
    exact hx.bind fun _ => ih hxs

theorem mirrors_foldlM {f : β → α → Run σ β} {g : β → α → Run τ β}
    (h : ∀ b a, Mirrors S X (f b a) (g b a)) (xs : List α) (b : β) :
    Mirrors S X (xs.foldlM f b) (xs.foldlM g b) :=
  (mirroring S X).foldlM (fun a _ b => h b a) b

end Run

end SqlStore
