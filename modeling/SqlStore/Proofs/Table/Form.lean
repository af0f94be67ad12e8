import Mathlib.Data.List.DropRight
import SqlStore.Proofs.Value.Form
import SqlStore.Table.Definition

/-!
# Rows in the form of their table

A row that a definition has accepted is accepted as it stands: each of its values has the form of its
column, text of type `character` is filled to its length, and there is one value for each column.
-/

namespace SqlStore

/-- Spaces that fill a text are those that do not count. -/
theorem rdropWhile_append_replicate (l : List Char) (n : Nat) :
    (l.rdropWhile (· == ' ') ++ List.replicate n ' ').rdropWhile (· == ' ') =
      l.rdropWhile (· == ' ') := by
  induction n with
  | zero => rw [List.replicate_zero, List.append_nil, List.rdropWhile_idempotent]
  | succ n ih =>
    rw [List.replicate_succ', ← List.append_assoc, List.rdropWhile_concat_pos _ _ _ (by rfl), ih]

namespace Column

variable {c : Column} {v u : Value}

/-- Only text has a bound, and what has been fitted to a bound fits it. -/
theorem bound_of_bound (h : c.bound v = .ok u) : c.bound u = .ok u := by
  unfold bound at h
  split at h
  · next s max hmax =>
    split at h
    · next hchar =>
      -- trimming takes away the spaces that filling put there, and no others
      dsimp only at h
      split at h
      · cases h
      · next hlong =>
        cases h
        unfold bound
        rw [hmax]
        dsimp only
        rw [if_pos hchar, String.toList_ofList]
        have htrim := rdropWhile_append_replicate s.toList
          (max - (s.toList.rdropWhile (· == ' ')).length)
        unfold List.rdropWhile at htrim
        rw [htrim, if_neg hlong]
    · next hchar =>
      split at h
      · cases h
      · next hlong =>
        cases h
        unfold bound
        rw [hmax]
        dsimp only
        rw [if_neg hchar, if_neg hlong]
  · next hnone =>
    cases h
    unfold bound
    split
    · next s max hmax => exact absurd hmax (hnone s max rfl)
    · rfl

theorem formed_bound {t : DataType} (ht : t.Formed v) (h : c.bound v = .ok u) : t.Formed u := by
  unfold bound at h
  split at h
  · split at h
    · dsimp only at h
      split at h
      · cases h
      · cases h
        exact DataType.formed_text ht _
    · split at h <;> cases h
      exact ht
  · cases h
    exact ht

/-- The value is one that the column stores. -/
def Formed (c : Column) (v : Value) : Prop :=
  v = .null ∧ c.nullable = true ∨ c.datatype.Formed v ∧ c.bound v = .ok v

theorem formed_accept (h : c.accept v = .ok u) : c.Formed u := by
  unfold accept at h
  split at h
  · split at h
    · next hnullable =>
      cases h
      exact Or.inl ⟨rfl, hnullable⟩
    · cases h
  · next hv =>
    obtain ⟨w, hw, hbound⟩ := Except.exists_of_bind_eq_ok h
    cases hconvert : c.datatype.convert v with
    | error e =>
      rw [hconvert] at hw
      cases hw
    | ok x =>
      rw [hconvert] at hw
      cases hw
      have hx := DataType.formed_convert (by simpa using hv) hconvert
      exact Or.inr ⟨formed_bound hx hbound, bound_of_bound hbound⟩

theorem accept_of_formed (h : c.Formed v) : c.accept v = .ok v := by
  unfold accept
  rcases h with ⟨rfl, hnullable⟩ | ⟨hformed, hbound⟩
  · exact if_pos hnullable
  · have hv : ¬ v.isNull = true := by
      intro hnull
      rw [Value.isNull_iff.mp hnull] at hformed
      exact DataType.not_formed_null _ hformed
    rw [if_neg hv, DataType.convert_of_formed hformed]
    exact hbound

/-- What the parts of a column say about a stored value. -/
structure Allows (c : Column) (v : Value) : Prop where
  nullable : v = .null → c.nullable = true
  kind : v ≠ .null → v.datatype = some c.datatype.kind
  scale_le : ∀ p s d, c.datatype = .numeric p (some s) → v = .numeric d → d.scale ≤ s
  length_le : ∀ max s, c.maxLength = some max → v = .text s → s.length ≤ max
  filled : ∀ max s, c.datatype = .char → c.maxLength = some max → v = .text s → s.length = max

theorem length_of_bound {max : Nat} {s : String} (hmax : c.maxLength = some max)
    (h : c.bound (.text s) = .ok (.text s)) :
    s.length ≤ max ∧ (c.datatype = .char → s.length = max) := by
  unfold bound at h
  rw [hmax] at h
  dsimp only at h
  split at h
  · split at h
    · cases h
    · next hlong =>
      have hs : String.ofList _ = s := Value.text.inj (Except.ok.inj h)
      have hlength : s.length = max := by
        rw [← hs, String.length_ofList, List.length_append, List.length_replicate]
        omega
      exact ⟨hlength.le, fun _ => hlength⟩
  · next hchar =>
    split at h
    · cases h
    · next hlong => exact ⟨not_lt.mp hlong, fun heq => absurd (by simpa using heq) hchar⟩

theorem allows_of_formed (h : c.Formed v) : c.Allows v := by
  rcases h with ⟨rfl, hnullable⟩ | ⟨hformed, hbound⟩
  · exact ⟨fun _ => hnullable, fun hv => absurd rfl hv, nofun, nofun, nofun⟩
  · refine ⟨?_, fun _ => DataType.datatype_of_formed hformed, ?_, ?_, ?_⟩
    · rintro rfl
      exact absurd hformed (DataType.not_formed_null _)
    · rintro p s d htype rfl
      rw [htype] at hformed
      exact Numeric.scale_le_of_declared hformed
    · rintro max s hmax rfl
      exact (length_of_bound hmax hbound).1
    · rintro max s hchar hmax rfl
      exact (length_of_bound hmax hbound).2 hchar

end Column

namespace TableDefinition

/-- Every value is one that its column stores. -/
def Formed (d : TableDefinition) (row : Tuple) : Prop := List.Forall₂ Column.Formed d.columns row

theorem formed_acceptAll {cs : List Column} {vs us : Tuple} (hlength : vs.length = cs.length)
    (h : acceptAll cs vs = .ok us) : List.Forall₂ Column.Formed cs us := by
  induction cs generalizing vs us with
  | nil =>
    cases h
    exact .nil
  | cons c cs ih =>
    cases vs with
    | nil => cases hlength
    | cons v vs =>
      unfold acceptAll at h
      obtain ⟨u, hu, h⟩ := Except.exists_of_bind_eq_ok h
      obtain ⟨ws, hws, h⟩ := Except.exists_of_bind_eq_ok h
      cases h
      exact .cons (Column.formed_accept hu) (ih (Nat.succ.inj hlength) hws)

theorem acceptAll_of_formed {cs : List Column} {vs : Tuple}
    (h : List.Forall₂ Column.Formed cs vs) : acceptAll cs vs = .ok vs := by
  induction h with
  | nil => rfl
  | cons hv _ ih =>
    unfold acceptAll
    rw [Column.accept_of_formed hv, ih]
    rfl

variable {d : TableDefinition} {row values : Tuple}

theorem formed_accept (h : d.accept row = .ok values) : d.Formed values := by
  unfold accept at h
  split at h
  · cases h
  · next hlength => exact formed_acceptAll (by simpa using hlength) h

/-- A row in the form of its table is accepted as it stands. -/
theorem accept_of_formed (h : d.Formed row) : d.accept row = .ok row := by
  unfold accept
  rw [if_neg (by simp [h.length_eq]), acceptAll_of_formed h]

end TableDefinition

end SqlStore
