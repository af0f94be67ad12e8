import SqlStore.Proofs.Table.Form
import SqlStore.Proofs.Transaction.Change
import SqlStore.Proofs.Value.Symmetry

/-!
# Sound tables

A table is sound when its rows are keyed, have the form of the definition, and differ where a column
says so. Soundness is kept by everything that can happen to a table: the checks of an insertion or an
update are the ones it asks for, taking back restores rows that passed them before, and a picture is
only put back under a definition that is the same.
-/

namespace SqlStore

/-! ## Columns that are the same -/

namespace Column

/-- Columns that count as the same differ in their defaults only. -/
theorem eq_of_same {c d : Column} (h : c.same d = true) : d = { c with default := d.default } := by
  rcases c with ⟨_, _, _, _, _, _, _, _⟩
  rcases d with ⟨_, _, _, _, _, _, _, _⟩
  unfold same at h
  simp only [Bool.and_eq_true, beq_iff_eq] at h
  obtain ⟨⟨⟨⟨⟨⟨⟨hname, htype⟩, hnullable⟩, -⟩, hprimary⟩, hunique⟩, hlength⟩, hserial⟩ := h
  subst hname htype hnullable hprimary hunique hlength hserial
  rfl

theorem Formed.of_same {c d : Column} (h : c.same d = true) {v : Value} (hv : c.Formed v) :
    d.Formed v := by
  rw [eq_of_same h]
  exact hv

theorem isUnique_of_same {c d : Column} (h : c.same d = true) : d.isUnique = c.isUnique := by
  rw [eq_of_same h]
  rfl

end Column

theorem TableDefinition.forall₂_of_same {a b : TableDefinition} (h : a.same b = true) :
    List.Forall₂ (fun c d => c.same d = true) a.columns b.columns := by
  unfold same at h
  simp only [Bool.and_eq_true, beq_iff_eq] at h
  obtain ⟨⟨-, hlength⟩, hcolumns⟩ := h
  refine List.forall₂_iff_zip.mpr ⟨hlength, ?_⟩
  intro c d hmem
  exact List.all_eq_true.mp hcolumns (c, d) hmem

theorem Column.forall₂_formed_of_same {cs ds : List Column} {row : Tuple}
    (h : List.Forall₂ (fun c d => c.same d = true) cs ds)
    (hrow : List.Forall₂ Column.Formed cs row) : List.Forall₂ Column.Formed ds row := by
  induction h generalizing row with
  | nil => exact hrow
  | cons hsame _ ih =>
    cases hrow with
    | cons hv hrow => exact .cons (hv.of_same hsame) (ih hrow)

theorem TableDefinition.Formed.of_same {a b : TableDefinition} (h : a.same b = true) {row : Tuple}
    (hrow : a.Formed row) : b.Formed row := Column.forall₂_formed_of_same (forall₂_of_same h) hrow

/-- Every column of the second definition has its like at its place in the first one. -/
theorem TableDefinition.exists_of_same {a b : TableDefinition} (h : a.same b = true) {i : Nat}
    {d : Column} (hd : b.columns[i]? = some d) :
    ∃ c, a.columns[i]? = some c ∧ c.same d = true := by
  obtain ⟨hlength, hcolumns⟩ := List.forall₂_iff_get.mp (forall₂_of_same h)
  obtain ⟨hi, rfl⟩ := List.getElem?_eq_some_iff.mp hd
  have hi' : i < a.columns.length := by omega
  exact ⟨_, List.getElem?_eq_getElem hi', hcolumns i hi' hi⟩

namespace Table

/-- The value of a row in a column. -/
def valueAt (values : Tuple) (i : Nat) : Value := values.getD i .null

/-- What holds of a row column by column holds of its value in a column. -/
theorem valueAt_of_forall₂ {R : Column → Value → Prop} {cs : List Column} {row : Tuple}
    (h : List.Forall₂ R cs row) {i : Nat} {c : Column} (hc : cs[i]? = some c) : R c (valueAt row i) := by
  obtain ⟨hlength, hvalues⟩ := List.forall₂_iff_get.mp h
  obtain ⟨hi, rfl⟩ := List.getElem?_eq_some_iff.mp hc
  have hi' : i < row.length := by omega
  unfold valueAt
  rw [List.getD_eq_getElem?_getD, List.getElem?_eq_getElem hi']
  exact hvalues i hi hi'

theorem formed_valueAt {d : TableDefinition} {row : Tuple} (h : d.Formed row) {i : Nat} {c : Column}
    (hc : d.columns[i]? = some c) : c.Formed (valueAt row i) := valueAt_of_forall₂ h hc

/-! ## Clashes -/

/-- The values hold something equal in a column; NULL is equal to nothing. -/
def Clash (i : Nat) (values others : Tuple) : Prop :=
  (valueAt values i).compare (valueAt others i) = .ok (some .eq)

theorem not_clash_of_null {i : Nat} {values others : Tuple} (h : valueAt others i = .null) :
    ¬ Clash i values others := by
  intro hclash
  unfold Clash at hclash
  rw [h, Value.compare_null] at hclash
  cases hclash

theorem Clash.symm {i : Nat} {values others : Tuple} (h : Clash i values others) :
    Clash i others values := Value.compare_eq_symm h

section CheckUnique

variable {t : Table} {skip : Option Nat} {values : Tuple}

theorem of_checkValue {c : Column} {i : Nat} {rows : List Row}
    (h : t.checkValue skip c i (valueAt values i) rows = .ok ()) :
    ∀ r ∈ rows, some r.id ≠ skip → ¬ Clash i r.values values := by
  induction rows with
  | nil => nofun
  | cons q rows ih =>
    unfold checkValue at h
    dsimp only at h
    intro r hr hskip hclash
    split at h
    · next hq =>
      obtain ⟨o, ho, h⟩ := Except.exists_of_bind_eq_ok h
      split at h
      · obtain ⟨_, hthrow, -⟩ := Except.exists_of_bind_eq_ok h
        cases hthrow
      · next hne =>
        rcases List.mem_cons.mp hr with rfl | hmem
        · have hequal : o = some .eq := Except.ok.inj (ho.symm.trans hclash)
          exact hne (by rw [hequal]; rfl)
        · exact ih h r hmem hskip hclash
    · next hq =>
      rcases List.mem_cons.mp hr with rfl | hmem
      · exact hq (by simpa using hskip)
      · exact ih h r hmem hskip hclash

theorem of_checkColumns {columns : List (Column × Nat)}
    (h : t.checkColumns skip values columns = .ok ()) {c : Column} {i : Nat}
    (hc : (c, i) ∈ columns) (hunique : c.isUnique = true) :
    ∀ r ∈ t.rows, some r.id ≠ skip → ¬ Clash i r.values values := by
  induction columns with
  | nil => cases hc
  | cons p columns ih =>
    unfold checkColumns at h
    dsimp only at h
    split at h
    · obtain ⟨_, hvalue, h⟩ := Except.exists_of_bind_eq_ok h
      rcases List.mem_cons.mp hc with rfl | hmem
      · exact of_checkValue hvalue
      · exact ih h hmem
    · next hskipped =>
      rcases List.mem_cons.mp hc with rfl | hmem
      · -- the column is unique, so it was passed over because of NULL
        have hnull : valueAt values i = .null := by
          have hisNull : (List.getD values i Value.null).isNull = true := by
            simpa [hunique] using hskipped
          exact Value.isNull_iff.mp hisNull
        exact fun r _ _ => not_clash_of_null hnull
      · exact ih h hmem

/-- Values that passed the check clash with no row but the skipped one. -/
theorem of_checkUnique (h : t.checkUnique values skip = .ok ()) {c : Column} {i : Nat}
    (hc : t.definition.columns[i]? = some c) (hunique : c.isUnique = true) :
    ∀ r ∈ t.rows, some r.id ≠ skip → ¬ Clash i r.values values :=
  of_checkColumns h (List.mk_mem_zipIdx_iff_getElem?.mpr hc) hunique

end CheckUnique

/-! ## Soundness -/

/-- What the definition of a table promises of its rows. -/
structure Sound (t : Table) : Prop where
  keyed : t.Keyed
  formed : ∀ r ∈ t.rows, t.definition.Formed r.values
  differ : ∀ r ∈ t.rows, ∀ q ∈ t.rows, r.id ≠ q.id → ∀ i c, t.definition.columns[i]? = some c →
    c.isUnique = true → ¬ Clash i r.values q.values

namespace Sound

variable {t u : Table}

theorem ofDefinition (d : TableDefinition) : (Table.ofDefinition d).Sound :=
  ⟨Keyed.ofDefinition d, nofun, nofun⟩

theorem grown (h : t.Sound) (hg : Grown t u) : u.Sound where
  keyed := h.keyed.grown hg
  formed := by
    rw [hg.definition_eq, hg.rows_eq]
    exact h.formed
  differ := by
    rw [hg.definition_eq, hg.rows_eq]
    exact h.differ

/-- Rows that were there before are as good as before. -/
theorem subset (h : t.Sound) (hkeyed : u.Keyed) (hdefinition : u.definition = t.definition)
    (hrows : ∀ r ∈ u.rows, r ∈ t.rows) : u.Sound where
  keyed := hkeyed
  formed r hr := by
    rw [hdefinition]
    exact h.formed r (hrows r hr)
  differ r hr q hq := by
    rw [hdefinition]
    exact h.differ r (hrows r hr) q (hrows q hq)

/-- A row goes in that has the form of the definition and clashes with no other row. -/
theorem put (h : t.Sound) {row : Row} (hkeyed : (t.put row).Keyed)
    (hformed : t.definition.Formed row.values)
    (hdiffer : ∀ i c, t.definition.columns[i]? = some c → c.isUnique = true →
      ∀ r ∈ t.rows, r.id ≠ row.id → ¬ Clash i r.values row.values) : (t.put row).Sound where
  keyed := hkeyed
  formed r hr := by
    rcases mem_of_mem_putInto hr with rfl | hmem
    · exact hformed
    · exact h.formed r hmem
  differ r hr q hq hid i c hc hunique := by
    -- two old rows differed before, and an old one and the new one are compared by the check
    rcases mem_of_mem_putInto hr with rfl | hr' <;> rcases mem_of_mem_putInto hq with rfl | hq'
    · exact absurd rfl hid
    · intro hclash
      exact hdiffer i c hc hunique q hq' (Ne.symm hid) hclash.symm
    · exact hdiffer i c hc hunique r hr' hid
    · exact h.differ r hr' q hq' hid i c hc hunique

theorem change (h : t.Sound) {n : TableName} {entry : Option Undo} (hc : Change n t u entry) :
    u.Sound := by
  have hkeyed := hc.keyed h.keyed
  cases hc with
  | number => exact h.grown (Grown.allocate t)
  | insert haccept hunique =>
    refine (h.grown (Grown.allocate t)).put hkeyed (TableDefinition.formed_accept haccept) ?_
    intro i c hc hisUnique r hr _
    exact of_checkUnique hunique hc hisUnique r hr nofun
  | @update old given values hold haccept hunique =>
    refine h.put hkeyed (TableDefinition.formed_accept haccept) ?_
    intro i c hc hisUnique r hr hid
    -- the check skipped the row that is replaced
    exact of_checkUnique hunique hc hisUnique r hr fun heq => hid (Option.some.inj heq)
  | delete hold => exact h.subset hkeyed rfl fun r hr => (List.mem_filter.mp hr).1
  | keys last => exact h.subset hkeyed rfl fun r hr => hr

theorem withDefinition (h : t.Sound) {d : TableDefinition} (hsame : t.definition.same d = true) :
    Sound { t with definition := d } where
  keyed := h.keyed.withDefinition d
  formed r hr := (h.formed r hr).of_same hsame
  differ r hr q hq hid i e he hunique := by
    obtain ⟨c, hc, hsame⟩ := TableDefinition.exists_of_same hsame he
    exact h.differ r hr q hq hid i c hc (Column.isUnique_of_same hsame ▸ hunique)

end Sound

/-- Nothing in the life of a table makes it unsound. -/
theorem invariant_sound : Invariant Sound where
  keyed := Sound.keyed
  ofDefinition _ := Sound.ofDefinition _
  grown := Sound.grown
  change h hc := h.change hc
  clear h := h.subset h.keyed.clear rfl nofun
  restored h hsame := h.withDefinition hsame

end Table

end SqlStore
