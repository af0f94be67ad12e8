import Mathlib.Data.List.Forall2
import Mathlib.Logic.Relation
import SqlStore.Database.Basic

/-!
# Rules for calls

A call reads and changes a state and may fail, and what it did before it failed stays. Three ways to
say what a call does, with the rules that follow the way it is put together:

* `Moves R c`: whatever the call `c` starts from and however it ends, it ends in a state that `R`
  relates to its start. For a reflexive and transitive `R` this goes through sequences, loops and
  branches without a look at the states in between.
* `Meets P c Q E`: from a state with `P`, the call ends with `Q` of its result if it succeeds, and
  with `E` if it fails. This is for calls whose parts depend on the state they find.
* `Ends P c Q E`: in states with `P` the call keeps `P`, and `Q` or `E` says what it ends with. This is
  for calls of which the result matters, or the failure.
-/

namespace SqlStore

namespace Run

variable {σ τ α β : Type}

/-- The result or failure of a call, and the state in which it ends. -/
def exec (c : Run σ α) (s : σ) : Except Error α × σ := c.run.run s

/-! ## How a call runs -/

@[simp] theorem exec_throw (e : Error) (s : σ) :
    exec (throw e : Run σ α) s = (.error e, s) := rfl

@[simp] theorem exec_get (s : σ) : exec (get : Run σ σ) s = (.ok s, s) := rfl

@[simp] theorem exec_set (s t : σ) : exec (set t : Run σ PUnit) s = (.ok ⟨⟩, t) := rfl

@[simp] theorem exec_ofExcept (r : Except Error α) (s : σ) :
    exec (ofExcept r : Run σ α) s = (r, s) := by
  cases r <;> rfl

theorem exec_bind (c : Run σ α) (f : α → Run σ β) (s : σ) :
    exec (c >>= f) s = match exec c s with
      | (.ok a, t) => exec (f a) t
      | (.error e, t) => (.error e, t) := by
  show (ExceptT.bindCont f (exec c s).1) (exec c s).2 = _
  rcases exec c s with ⟨r | a, t⟩ <;> rfl

theorem exec_bind_ok {c : Run σ α} {f : α → Run σ β} {s t : σ} {a : α}
    (h : exec c s = (.ok a, t)) : exec (c >>= f) s = exec (f a) t := by
  rw [exec_bind, h]

theorem exec_bind_error {c : Run σ α} {f : α → Run σ β} {s t : σ} {e : Error}
    (h : exec c s = (.error e, t)) : exec (c >>= f) s = (.error e, t) := by
  rw [exec_bind, h]

theorem exec_bind_eq_ok {c : Run σ α} {f : α → Run σ β} {s t : σ} {b : β}
    (h : exec (c >>= f) s = (.ok b, t)) :
    ∃ a u, exec c s = (.ok a, u) ∧ exec (f a) u = (.ok b, t) := by
  rw [exec_bind] at h
  rcases hrun : exec c s with ⟨e | a, u⟩ <;> rw [hrun] at h
  · cases h
  · exact ⟨a, u, rfl, h⟩

theorem exec_ofExcept_bind_ok {r : Except Error α} {f : α → Run σ β} {a : α} (h : r = .ok a) (s : σ) :
    exec (ofExcept r >>= f) s = exec (f a) s := by
  rw [h]
  rfl

theorem exec_ofExcept_bind_eq_ok {r : Except Error α} {f : α → Run σ β} {s t : σ} {b : β}
    (h : exec (ofExcept r >>= f) s = (.ok b, t)) : ∃ a, r = .ok a ∧ exec (f a) s = (.ok b, t) := by
  rw [exec_bind, exec_ofExcept] at h
  cases r with
  | error e => cases h
  | ok a => exact ⟨a, rfl, h⟩

/-- Each result of a loop comes of one of its calls, from some state in between. -/
theorem exec_mapM_eq_ok {f : α → Run σ β} {xs : List α} {ys : List β} {s t : σ}
    (h : exec (xs.mapM f) s = (.ok ys, t)) :
    List.Forall₂ (fun x y => ∃ u v, exec (f x) u = (.ok y, v)) xs ys := by
  induction xs generalizing ys s with
  | nil =>
    cases h
    exact .nil
  | cons x xs ih =>
    rw [List.mapM_cons] at h
    obtain ⟨y, u, hx, h⟩ := exec_bind_eq_ok h
    obtain ⟨ys', v, hxs, h⟩ := exec_bind_eq_ok h
    cases h
    exact .cons ⟨s, u, hx⟩ (ih hxs)

@[simp] theorem exec_attempt (c : Run σ α) (s : σ) :
    exec (attempt c) s = (.ok (exec c s).1, (exec c s).2) := rfl

@[simp] theorem exec_within (get : σ → τ) (put : τ → σ → σ) (c : Run τ α) (s : σ) :
    exec (within get put c) s = ((exec c (get s)).1, put (exec c (get s)).2 s) := rfl

/-! ## Calls that move a state along a relation -/

/-- However the call ends, it ends in a state that the relation leads to. -/
def Moves (R : σ → σ → Prop) (c : Run σ α) : Prop := ∀ s, R s (exec c s).2

theorem Moves.mono {R S : σ → σ → Prop} {c : Run σ α} (h : ∀ s t, R s t → S s t)
    (hc : Moves R c) : Moves S c := fun s => h _ _ (hc s)

/-- A call that moves along `R`, and after it, if it comes to that, one that moves along `S`. -/
theorem Moves.bind_of {R S T : σ → σ → Prop} (hstop : ∀ s t, R s t → T s t)
    (hgo : ∀ s t u, R s t → S t u → T s u) {c : Run σ α} {f : α → Run σ β} (hc : Moves R c)
    (hf : ∀ a, Moves S (f a)) : Moves T (c >>= f) := by
  intro s
  have h := hc s
  rw [exec_bind]
  rcases hrun : exec c s with ⟨r | a, t⟩ <;> rw [hrun] at h
  · exact hstop s t h
  · exact hgo s t _ h (hf a t)

theorem Moves.attempt {R : σ → σ → Prop} {c : Run σ α} (hc : Moves R c) :
    Moves R (attempt c) := fun s => hc s

/-- The choice between two calls. -/
theorem moves_ite {R : σ → σ → Prop} {p : Prop} [Decidable p] {c d : Run σ α} (hc : Moves R c)
    (hd : Moves R d) : Moves R (if p then c else d) := by
  split
  · exact hc
  · exact hd

section Reflexive

variable {R : σ → σ → Prop} [Std.Refl R]

theorem moves_pure (a : α) : Moves R (pure a : Run σ α) := fun s => refl_of R s

theorem moves_throw (e : Error) : Moves R (throw e : Run σ α) := fun s => refl_of R s

theorem moves_get : Moves R (get : Run σ σ) := fun s => refl_of R s

theorem moves_ofExcept (r : Except Error α) : Moves R (ofExcept r : Run σ α) := by
  intro s
  rw [exec_ofExcept]
  exact refl_of R s

end Reflexive

section Preorder

variable {R : σ → σ → Prop} [Std.Refl R] [IsTrans σ R]

omit [Std.Refl R] in
theorem Moves.bind {c : Run σ α} {f : α → Run σ β} (hc : Moves R c) (hf : ∀ a, Moves R (f a)) :
    Moves R (c >>= f) := by
  refine Moves.bind_of ?_ ?_ hc hf
  · exact fun _ _ h => h
  · exact fun _ _ _ hst htu => trans_of R hst htu

theorem moves_mapM {f : α → Run σ β} (hf : ∀ a, Moves R (f a)) (xs : List α) :
    Moves R (xs.mapM f) := by
  induction xs with
  | nil => exact moves_pure []
  | cons x xs ih =>
    rw [List.mapM_cons]
    exact Moves.bind (hf x) fun b => Moves.bind ih fun bs => moves_pure _

theorem moves_forM {f : α → Run σ PUnit} {xs : List α} (hf : ∀ a ∈ xs, Moves R (f a)) :
    Moves R (xs.forM f) := by
  induction xs with
  | nil => exact moves_pure _
  | cons x xs ih =>
    refine Moves.bind (hf x List.mem_cons_self) fun _ => ih fun a ha => ?_
    exact hf a (List.mem_cons_of_mem x ha)

theorem moves_foldlM {f : β → α → Run σ β} (hf : ∀ b a, Moves R (f b a)) (xs : List α) (b : β) :
    Moves R (xs.foldlM f b) := by
  induction xs generalizing b with
  | nil => exact moves_pure b
  | cons x xs ih =>
    rw [List.foldlM_cons]
    exact Moves.bind (hf b x) fun b => ih b

end Preorder

/-! ## What a call does from given states -/

/-- From a state with `P`, the call ends with `Q` of its result, or fails with `E`. -/
def Meets (P : σ → Prop) (c : Run σ α) (Q : α → σ → Prop) (E : σ → Prop) : Prop :=
  ∀ s, P s → match exec c s with
    | (.ok a, t) => Q a t
    | (.error _, t) => E t

section Meets

variable {P P' : σ → Prop} {Q Q' : α → σ → Prop} {E E' : σ → Prop}

theorem Meets.weaken {c : Run σ α} (hP : ∀ s, P' s → P s) (hQ : ∀ a s, Q a s → Q' a s)
    (hE : ∀ s, E s → E' s) (h : Meets P c Q E) : Meets P' c Q' E' := by
  intro s hs
  have hc := h s (hP s hs)
  rcases hrun : exec c s with ⟨e | a, t⟩ <;> rw [hrun] at hc
  · exact hE t hc
  · exact hQ a t hc

theorem Meets.bind {c : Run σ α} {f : α → Run σ β} {M : α → σ → Prop} {Q : β → σ → Prop}
    (hc : Meets P c M E) (hf : ∀ a, Meets (M a) (f a) Q E) : Meets P (c >>= f) Q E := by
  intro s hs
  have h := hc s hs
  rw [exec_bind]
  rcases hrun : exec c s with ⟨e | a, t⟩ <;> rw [hrun] at h
  · exact h
  · exact hf a t h

/-- What is known of the start whatever the state is. -/
theorem meets_and {p : Prop} {c : Run σ α} (h : p → Meets P c Q E) :
    Meets (fun s => p ∧ P s) c Q E := fun s hs => h hs.1 s hs.2

theorem meets_pure {a : α} (h : ∀ s, P s → Q a s) : Meets P (pure a : Run σ α) Q E := h

theorem meets_ofExcept {r : Except Error α} (hok : ∀ a s, r = .ok a → P s → Q a s)
    (herror : ∀ e s, r = .error e → P s → E s) : Meets P (ofExcept r : Run σ α) Q E := by
  intro s hs
  rw [exec_ofExcept]
  cases r with
  | ok a => exact hok a s rfl hs
  | error e => exact herror e s rfl hs

/-- A call that moves along a relation meets what the relation leads to, either way. -/
theorem Moves.meets {R : σ → σ → Prop} {c : Run σ α} (hc : Moves R c)
    (h : ∀ s t, P s → R s t → E t) : Meets P c (fun _ => E) E := by
  intro s hs
  have hm := h s _ hs (hc s)
  rcases hrun : exec c s with ⟨e | a, t⟩ <;> rw [hrun] at hm <;> exact hm

end Meets

/-! ## What a call can end with -/

/-- In states with `P` the call keeps `P`, and it ends with a result with `Q` or with a failure with
`E`. -/
def Ends (P : σ → Prop) (c : Run σ α) (Q : α → Prop) (E : Error → Prop) : Prop :=
  ∀ s, P s → P (exec c s).2 ∧ match (exec c s).1 with
    | .ok a => Q a
    | .error e => E e

section Ends

variable {P : σ → Prop} {Q Q' : α → Prop} {E E' : Error → Prop}

theorem Ends.mono {c : Run σ α} (h : Ends P c Q E) (hQ : ∀ a, Q a → Q' a) (hE : ∀ e, E e → E' e) :
    Ends P c Q' E' := by
  intro s hs
  obtain ⟨hstate, hresult⟩ := h s hs
  refine ⟨hstate, ?_⟩
  cases hrun : (exec c s).1 with
  | ok a =>
    rw [hrun] at hresult
    exact hQ a hresult
  | error e =>
    rw [hrun] at hresult
    exact hE e hresult

theorem ends_pure {a : α} (h : Q a) : Ends P (pure a : Run σ α) Q E := fun _ hs => ⟨hs, h⟩

theorem ends_throw {e : Error} (h : E e) : Ends P (throw e : Run σ α) Q E := fun _ hs => ⟨hs, h⟩

theorem ends_ofExcept {r : Except Error α} (hok : ∀ a, r = .ok a → Q a)
    (herror : ∀ e, r = .error e → E e) : Ends P (ofExcept r : Run σ α) Q E := by
  cases r with
  | ok a => exact ends_pure (hok a rfl)
  | error e => exact ends_throw (herror e rfl)

theorem Ends.bind {c : Run σ α} {f : α → Run σ β} {Q' : β → Prop} (hc : Ends P c Q E)
    (hf : ∀ a, Q a → Ends P (f a) Q' E) : Ends P (c >>= f) Q' E := by
  intro s hs
  have h := hc s hs
  rw [exec_bind]
  rcases hrun : exec c s with ⟨e | a, t⟩ <;> rw [hrun] at h
  · exact h
  · exact hf a h.2 t h.1

theorem ends_get_bind {f : σ → Run σ β} {Q : β → Prop} (h : ∀ s, P s → Ends P (f s) Q E) :
    Ends P (get >>= f) Q E := by
  intro s hs
  rw [exec_bind_ok (exec_get s)]
  exact h s hs s hs

theorem ends_ite {p : Prop} [Decidable p] {c d : Run σ α} (hc : Ends P c Q E)
    (hd : Ends P d Q E) : Ends P (if p then c else d) Q E := by
  split
  · exact hc
  · exact hd

/-- A failure that was caught is a result. -/
theorem Ends.attempt {c : Run σ α} {F : Error → Prop} (h : Ends P c Q E) :
    Ends P (attempt c) (fun r => match r with
      | .ok a => Q a
      | .error e => E e) F := by
  intro s hs
  exact h s hs

theorem ends_mapM {f : α → Run σ β} {Q : β → Prop} {xs : List α}
    (h : ∀ a ∈ xs, Ends P (f a) Q E) :
    Ends P (xs.mapM f) (fun ys => ys.length = xs.length ∧ ∀ b ∈ ys, Q b) E := by
  induction xs with
  | nil => exact ends_pure ⟨rfl, nofun⟩
  | cons x xs ih =>
    obtain ⟨hx, hxs⟩ := List.forall_mem_cons.mp h
    rw [List.mapM_cons]
    refine hx.bind fun b hb => (ih hxs).bind fun bs hbs => ends_pure ⟨?_, ?_⟩
    · rw [List.length_cons, List.length_cons, hbs.1]
    · exact List.forall_mem_cons.mpr ⟨hb, hbs.2⟩

theorem ends_forM {f : α → Run σ PUnit} {xs : List α} (h : ∀ a ∈ xs, Ends P (f a) (fun _ => True) E) :
    Ends P (xs.forM f) (fun _ => True) E := by
  induction xs with
  | nil => exact ends_pure trivial
  | cons x xs ih =>
    obtain ⟨hx, hxs⟩ := List.forall_mem_cons.mp h
    exact hx.bind fun _ _ => ih hxs

end Ends

end Run

end SqlStore
