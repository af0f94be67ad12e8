import SqlStore.Proofs.Transaction.Step

/-!
# Undoing a statement

The log of a statement leads back to the store in which the statement began, whatever mix of changes
it made and however often it changed one row. The numbers that it drew are not given back, so the
store it leads to has grown. The proof goes forward along the steps of the statement: one more change
puts one more entry in front of the log, and taking that entry back first leads to a store that grew
from the one before the change (`Undo.applyAll_grown` carries the rest of the log over).
-/

open Relation

namespace SqlStore

namespace Undo

/-- Taking back one entry in a store that grew leads to a store that grew. -/
theorem apply_grown {u : Undo} {s s' r : Store} (hg : s.Grown s') (h : u.apply s = .ok r) :
    ∃ r', u.apply s' = .ok r' ∧ r.Grown r' := by
  rw [apply_eq] at h
  rw [apply_eq]
  -- the entry found its table in the first store, so it finds one in the second
  have hfound : (s.table? u.tableName).isSome := by
    cases hn : s.table? u.tableName with
    | some t => rfl
    | none =>
      unfold Store.change Store.table at h
      rw [hn] at h
      cases h
  obtain ⟨t, ht⟩ := Option.isSome_iff_exists.mp hfound
  have hrel := Store.Along.table? (n := u.tableName) Store.Grown.fullName_eq hg
  rw [ht] at hrel
  cases hrel' : s'.table? u.tableName with
  | none => rw [hrel'] at hrel; cases hrel
  | some t' =>
    rw [Store.change_eq_ok h]
    refine ⟨_, Store.change_of_table? hrel', ?_⟩
    exact Store.Along.modify Store.Grown.fullName_eq (fun _ _ => u.revert_grown) hg

theorem applyAll_grown {us : List Undo} {s s' r : Store} (hg : s.Grown s')
    (h : applyAll s us = (none, r)) : ∃ r', applyAll s' us = (none, r') ∧ r.Grown r' := by
  -- along the log, growth is handed on from one entry to the next
  induction us generalizing s s' with
  | nil =>
    cases h
    exact ⟨s', rfl, hg⟩
  | cons u us ih =>
    unfold applyAll at h
    cases hu : u.apply s with
    | error e => rw [hu] at h; cases h
    | ok s₁ =>
      rw [hu] at h
      obtain ⟨s₁', hu', hg₁⟩ := apply_grown hg hu
      obtain ⟨r', hr', hgr⟩ := ih hg₁ h
      refine ⟨r', ?_, hgr⟩
      unfold applyAll
      rw [hu']
      exact hr'

end Undo

/-- The log leads from the present store back to one that grew from the given one. -/
def Core.Undoes (s : Store) (c : Core) : Prop :=
  ∃ r, Undo.applyAll c.store c.transaction.undo = (none, r) ∧ s.Grown r

section

variable {s : Store} {c c' : Core}

/-- An empty log leads nowhere. -/
theorem Core.undoes_of_nil (h : c.transaction.undo = []) : c.Undoes c.store :=
  ⟨c.store, by rw [h]; rfl, Store.Grown.refl _⟩

theorem Draw.undoes (h : Draw c c') (hd : c.store.Distinct) (hc : c.Undoes s) : c'.Undoes s := by
  obtain ⟨r, hr, hgr⟩ := hc
  obtain ⟨r', hr', hgr'⟩ := Undo.applyAll_grown (h.grown hd) hr
  refine ⟨r', ?_, hgr.trans hgr'⟩
  rw [h.transaction_eq]
  exact hr'

/-- A change of a table with its entry taken back is growth of the store. -/
theorem Table.Change.grown_of_revert {n : TableName} {t u : Table} {x : Undo} {s : Store}
    (hd : s.Distinct) (htable : s.table? n = some t) (hk : t.Keyed)
    (h : Table.Change n t u (some x)) : ∃ r, x.apply (s.put n u) = .ok r ∧ s.Grown r := by
  have hname := h.fullName_eq htable
  have hx : x.tableName = n := h.tableName_eq x rfl
  refine ⟨s.put n (x.revert u), ?_, Store.along_put Table.Grown.refl hd htable (h.reverted hk)⟩
  rw [Undo.apply_eq, hx, Store.change_of_table? (Store.table?_put htable hname)]
  exact congrArg _ (Store.modify_modify fun _ => hname)

theorem Write.undoes (h : Write c c') (hc : c.Inv Table.Keyed) (hu : c.Undoes s) :
    c'.Undoes s := by
  cases h with
  | capture hexplicit hnone => exact hu
  | @change n t u entry hready htable hchange =>
    obtain ⟨r, hr, hgr⟩ := hu
    have hk := hc.tables t (Store.mem_of_table? htable).1
    cases entry with
    | none =>
      -- nothing was logged, and nothing happened but growth
      have hgrown : c.store.Grown (c.store.put n u) :=
        Store.along_put Table.Grown.refl hc.distinct htable (hchange.reverted hk)
      obtain ⟨r', hr', hgr'⟩ := Undo.applyAll_grown hgrown hr
      exact ⟨r', hr', hgr.trans hgr'⟩
    | some x =>
      -- the new entry is in front, so it is taken back first
      obtain ⟨s₁, hx, hg₁⟩ := hchange.grown_of_revert hc.distinct htable hk
      obtain ⟨r', hr', hgr'⟩ := Undo.applyAll_grown hg₁ hr
      refine ⟨r', ?_, hgr.trans hgr'⟩
      show Undo.applyAll (c.store.put n u) (x :: c.transaction.undo) = _
      unfold Undo.applyAll
      rw [hx]
      exact hr'

/-- Along all steps of a statement the log leads back to the store in which it began. -/
theorem Works.undoes (h : Works c c') (hc : c.Inv Table.Keyed) (hnil : c.transaction.undo = []) :
    c'.Undoes c.store := by
  obtain ⟨d, hdraw, hwrite⟩ := h
  -- keyed tables and the log go along together: a change can only be taken back in a keyed table
  have hdrawn : d.Inv Table.Keyed ∧ d.Undoes c.store := by
    clear hwrite
    induction hdraw with
    | refl => exact ⟨hc, Core.undoes_of_nil hnil⟩
    | tail _ hs ih =>
      exact ⟨hs.inv Table.invariant_keyed ih.1, hs.undoes ih.1.distinct ih.2⟩
  have hwritten : c'.Inv Table.Keyed ∧ c'.Undoes c.store := by
    induction hwrite with
    | refl => exact hdrawn
    | tail _ hs ih => exact ⟨hs.inv Table.invariant_keyed ih.1, hs.undoes ih.1 ih.2⟩
  exact hwritten.2

end

end SqlStore
