import SqlStore.Proofs.Numeric.Text
import SqlStore.Proofs.Store.Restoring
import SqlStore.Proofs.Table.Shape

/-!
# Rows that can be stored again

A row of a table is admitted if it would be stored as it is, were it a new one: it has the form of the
definition, and where values have to differ it holds none that another row holds. In a sound table every row
is admitted.

A snapshot keeps exact decimals and documents as text, and what comes back of them may be another value: a
decimal loses places, and two documents may come back as one. So a table that is put back can break what its
definition demands. `Column.isLasting` says of which columns this cannot happen; a table that has no other
columns is sound throughout its life, whatever is rolled back.
-/

namespace SqlStore

namespace Value

/-- Values of one kind have an order. -/
theorem exists_compareKinds {a b : Value} {t : DataType} (ha : a.datatype = some t)
    (hb : b.datatype = some t) : ∃ o, compareKinds a b = some o := by
  cases a <;> cases ha <;> cases b <;> cases hb <;> exact ⟨_, rfl⟩

/-- Values of one kind, or NULL, can be compared. -/
theorem exists_compare {a b : Value} {t : DataType} (ha : a.Among [t]) (hb : b.Among [t]) :
    ∃ o, a.compare b = .ok o := by
  cases hta : a.datatype with
  | none =>
    rw [eq_null_of_datatype hta]
    exact ⟨none, null_compare b⟩
  | some u =>
    cases htb : b.datatype with
    | none =>
      rw [eq_null_of_datatype htb]
      exact ⟨none, compare_null a⟩
    | some s =>
      cases List.mem_singleton.mp (ha u hta)
      cases List.mem_singleton.mp (hb s htb)
      obtain ⟨o, ho⟩ := exists_compareKinds hta htb
      refine ⟨some o, ?_⟩
      rw [compare_of_datatype hta htb]
      unfold compareRead
      rw [ho]

end Value

namespace Table

variable {t : Table} {skip : Option Nat} {values : Tuple}

/-! ## The check of values that have to differ -/

theorem checkValue_eq_ok {c : Column} {i : Nat} {v : Value} {rows : List Row}
    (hcompare : ∀ r ∈ rows, ∃ o, (valueAt r.values i).compare v = .ok o)
    (h : ∀ r ∈ rows, some r.id ≠ skip → (valueAt r.values i).compare v ≠ .ok (some .eq)) :
    t.checkValue skip c i v rows = .ok ⟨⟩ := by
  induction rows with
  | nil => rfl
  | cons r rows ih =>
    obtain ⟨⟨o, ho⟩, hcompare⟩ := List.forall_mem_cons.mp hcompare
    obtain ⟨hr, hrest⟩ := List.forall_mem_cons.mp h
    have hrows := ih hcompare hrest
    unfold checkValue
    by_cases hskip : some r.id = skip
    · rw [if_neg (by simpa using hskip)]
      exact hrows
    · have hother : ¬ (o == some .eq) = true := by
        intro heq
        exact hr hskip (beq_iff_eq.mp heq ▸ ho)
      rw [if_pos (by simpa using hskip)]
      show ((valueAt r.values i).compare v >>= _) = _
      rw [ho]
      show (if (o == some .eq) = true then _ else _) = _
      rw [if_neg hother]
      exact hrows

theorem checkColumns_eq_ok {columns : List (Column × Nat)}
    (h : ∀ p ∈ columns, p.1.isUnique = true →
      t.checkValue skip p.1 p.2 (valueAt values p.2) t.rows = .ok ⟨⟩) :
    t.checkColumns skip values columns = .ok ⟨⟩ := by
  induction columns with
  | nil => rfl
  | cons p columns ih =>
    obtain ⟨hp, hrest⟩ := List.forall_mem_cons.mp h
    have hcolumns := ih hrest
    unfold checkColumns
    dsimp only
    split
    · next hchecked =>
      rw [Bool.and_eq_true] at hchecked
      show (t.checkValue skip p.1 p.2 (valueAt values p.2) t.rows >>= _) = _
      rw [hp hchecked.1]
      exact hcolumns
    · exact hcolumns

/-- Values of the kinds of the columns pass the check exactly if they clash with no row but the skipped
one. -/
theorem checkUnique_eq_ok_iff (hrows : ∀ r ∈ t.rows, AmongAll t.definition.kinds r.values)
    (hvalues : AmongAll t.definition.kinds values) :
    t.checkUnique values skip = .ok ⟨⟩ ↔
      ∀ i c, t.definition.columns[i]? = some c → c.isUnique = true →
        ∀ r ∈ t.rows, some r.id ≠ skip → ¬ Clash i r.values values := by
  refine ⟨fun h i c hc hunique => of_checkUnique h hc hunique, fun h => checkColumns_eq_ok ?_⟩
  rintro ⟨c, i⟩ hmem hunique
  have hc : t.definition.columns[i]? = some c := List.mk_mem_zipIdx_iff_getElem?.mp hmem
  have hkind : ∀ {row : Tuple}, AmongAll t.definition.kinds row →
      (valueAt row i).Among [c.datatype.kind] := fun hrow =>
    valueAt_of_forall₂ (R := fun c v => v.Among [c.datatype.kind]) (List.forall₂_map_left_iff.mp hrow) hc
  exact checkValue_eq_ok (fun r hr => Value.exists_compare (hkind (hrows r hr)) (hkind hvalues))
    (h i c hc hunique)

/-! ## Admitted rows -/

/-- The row would be stored as it is, were it new: it has the form of the definition, and holds nothing that
another row holds where the definition does not allow it. -/
structure Admits (t : Table) (row : Row) : Prop where
  formed : t.definition.Formed row.values
  differs : ∀ i c, t.definition.columns[i]? = some c → c.isUnique = true →
    ∀ r ∈ t.rows, r.id ≠ row.id → ¬ Clash i r.values row.values

/-- The row passes the checks of an update that gives it the values that it has. -/
theorem admits_iff {row : Row} (hrows : ∀ r ∈ t.rows, AmongAll t.definition.kinds r.values)
    (hrow : row ∈ t.rows) : t.Admits row ↔
      t.definition.accept row.values = .ok row.values ∧
        t.checkUnique row.values (some row.id) = .ok ⟨⟩ := by
  rw [checkUnique_eq_ok_iff hrows (hrows row hrow)]
  simp only [ne_eq, Option.some.injEq]
  exact ⟨fun h => ⟨TableDefinition.accept_of_formed h.formed, h.differs⟩,
    fun h => ⟨TableDefinition.formed_accept h.1, h.2⟩⟩

theorem Sound.admits (h : t.Sound) {row : Row} (hrow : row ∈ t.rows) : t.Admits row where
  formed := h.formed row hrow
  differs i c hc hunique r hr hid := h.differ r hr row hrow hid i c hc hunique

end Table

/-! ## Decimals and documents in pictures -/

namespace Numeric

/-- The number; zero has no sign. -/
def unsignedZero (d : Numeric) : Numeric := { d with negative := d.negative && d.mantissa != 0 }

theorem unsignedZero_of_ne {d : Numeric} (h : d.mantissa ≠ 0) : d.unsignedZero = d := by
  have hnegative : (d.negative && d.mantissa != 0) = d.negative := by simp [h]
  unfold unsignedZero
  rw [hnegative]

theorem signed_unsignedZero (d : Numeric) : d.unsignedZero.signed = d.signed := by
  by_cases h : d.mantissa = 0
  · simp [signed, unsignedZero, h]
  · rw [unsignedZero_of_ne h]

/-- The sign of zero does not count where values are compared. -/
theorem compareValue_unsignedZero (d e : Numeric) :
    d.unsignedZero.compareValue e.unsignedZero = d.compareValue e := by
  unfold compareValue
  rw [signed_unsignedZero, signed_unsignedZero]
  rfl

/-- Nor where a number is brought to a scale. -/
theorem withScale_unsignedZero {d : Numeric} {s : Nat} (h : d.withScale s = d) :
    d.unsignedZero.withScale s = d.unsignedZero := by
  by_cases hzero : d.mantissa = 0
  · have hle : d.scale ≤ s := h ▸ scale_withScale_le d s
    have hround : d.round s = d := round_of_le hle
    have hround' : d.unsignedZero.round s = d.unsignedZero := round_of_le hle
    have hisZero : d.isZero = true := beq_iff_eq.mpr hzero
    rw [withScale_of_isZero (by rw [hround]; exact hisZero), hround] at h
    rw [withScale_of_isZero (by rw [hround']; exact hisZero), hround']
    have hscale : min s (max d.scale maxScale) = d.scale := congrArg scale h
    show { d.unsignedZero with scale := min s (max d.scale maxScale) } = d.unsignedZero
    rw [hscale]
    rfl
  · rw [unsignedZero_of_ne hzero]
    exact h

theorem declared_unsignedZero {p : Option Nat} {s : Nat} {d : Numeric}
    (h : d.declared p (some s) = .ok d) :
    d.unsignedZero.declared p (some s) = .ok d.unsignedZero := by
  have hscaled : d.withScale s = d := (eq_of_declared h).symm
  have hscaled' := withScale_unsignedZero hscaled
  unfold declared at h ⊢
  dsimp only at h ⊢
  rw [hscaled] at h
  rw [hscaled']
  cases p with
  | none => rfl
  | some p =>
    -- whether the number fits hangs on its scale and its mantissa
    dsimp only at h ⊢
    split at h
    · cases h
    · next hfits => exact if_neg hfits

end Numeric

namespace Value

/-- A decimal that does not have too many places comes back from its text. -/
theorem pictured_numeric {d : Numeric} (h : d.scale ≤ Numeric.maxScale) :
    (numeric d).pictured = numeric d.unsignedZero := by
  show numeric ((Numeric.parse? d.text).getD d) = _
  rw [Numeric.parse?_text_of_le h, Numeric.ofMagnitude?_eq d.mantissa_lt]
  rfl

theorem exists_pictured_json (j : Json) : ∃ k, (json j).pictured = json k := by
  cases hparse : Json.parse j.text with
  | ok k => exact ⟨k, by simp only [pictured, hparse]⟩
  | error fault => exact ⟨j, by simp only [pictured, hparse]⟩

theorem compare_unsignedZero (d e : Numeric) :
    (numeric d.unsignedZero).compare (numeric e.unsignedZero) = (numeric d).compare (numeric e) := by
  show Except.ok (some (d.unsignedZero.compareValue e.unsignedZero)) = .ok (some (d.compareValue e))
  rw [Numeric.compareValue_unsignedZero]

end Value

/-! ## Lasting columns -/

namespace Column

variable {c : Column} {v u : Value}

/-- Values of the column come back from a picture in its form, and apart if they have to differ. -/
def isLasting (c : Column) : Bool :=
  match c.datatype with
  | .numeric _ (some s) => s ≤ Numeric.maxScale
  | .numeric (some _) none => false
  | .numeric none none => !c.isUnique
  | .jsonb => !c.isUnique
  | _ => true

theorem isLasting_of_same {d : Column} (h : c.same d = true) : d.isLasting = c.isLasting := by
  rw [eq_of_same h]
  rfl

/-- A lasting column of decimals declares no more places than come back, or it declares nothing and its
values may be equal. -/
theorem places_of_isLasting {p s : Option Nat} (hc : c.isLasting = true)
    (hdatatype : c.datatype = .numeric p s) :
    (∃ places, s = some places ∧ places ≤ Numeric.maxScale) ∨
      p = none ∧ s = none ∧ c.isUnique = false := by
  unfold isLasting at hc
  rw [hdatatype] at hc
  cases s with
  | some places => exact .inl ⟨places, rfl, of_decide_eq_true hc⟩
  | none =>
    cases p with
    | some p => cases hc
    | none => exact .inr ⟨rfl, rfl, (Bool.not_eq_true' _).mp hc⟩

/-- A decimal in a lasting column comes back in its form. -/
theorem formed_pictured_numeric {d : Numeric} (hc : c.isLasting = true)
    (h : c.datatype.Formed (.numeric d)) : c.datatype.Formed (Value.numeric d).pictured := by
  cases hdatatype : c.datatype with
  | numeric p s =>
    rw [hdatatype] at h
    rcases places_of_isLasting hc hdatatype with ⟨places, rfl, hplaces⟩ | ⟨rfl, rfl, -⟩
    · have hle : d.scale ≤ places := Numeric.scale_le_of_declared h
      rw [Value.pictured_numeric (hle.trans hplaces)]
      exact Numeric.declared_unsignedZero h
    · exact rfl
  | _ =>
    rw [hdatatype] at h
    exact h.elim

/-- What comes back of a value of a lasting column is a value that the column stores. -/
theorem formed_pictured (hc : c.isLasting = true) (h : c.Formed v) : c.Formed v.pictured := by
  rcases h with ⟨rfl, hnullable⟩ | ⟨hformed, hbound⟩
  · exact .inl ⟨rfl, hnullable⟩
  cases v with
  | numeric d => exact .inr ⟨formed_pictured_numeric hc hformed, rfl⟩
  | json j =>
    obtain ⟨k, hk⟩ := Value.exists_pictured_json j
    rw [hk]
    -- every document has the form of a type that documents have
    refine .inr ⟨?_, rfl⟩
    cases hdatatype : c.datatype with
    | jsonb => trivial
    | _ =>
      rw [hdatatype] at hformed
      exact hformed.elim
  | _ => exact .inr ⟨hformed, hbound⟩

/-- In a lasting column of decimals that have to differ, what comes back of a decimal is the decimal, but for
the sign of zero. -/
theorem pictured_of_numeric {p s : Option Nat} (hc : c.isLasting = true) (hunique : c.isUnique = true)
    (hdatatype : c.datatype = .numeric p s) (h : c.Formed v) :
    v = .null ∨ ∃ d, v = .numeric d ∧ v.pictured = .numeric d.unsignedZero := by
  rcases h with ⟨hnull, -⟩ | ⟨hformed, -⟩
  · exact .inl hnull
  rw [hdatatype] at hformed
  cases v with
  | numeric d =>
    rcases places_of_isLasting hc hdatatype with ⟨places, rfl, hplaces⟩ | ⟨-, -, hequal⟩
    · have hle : d.scale ≤ places := Numeric.scale_le_of_declared hformed
      exact .inr ⟨d, rfl, Value.pictured_numeric (hle.trans hplaces)⟩
    · exact absurd hunique (Bool.eq_false_iff.mp hequal)
  | _ => exact hformed.elim

/-- All other values that have to differ come back as they are. -/
theorem pictured_of_not_numeric (hc : c.isLasting = true) (hunique : c.isUnique = true)
    (hdatatype : ∀ p s, c.datatype ≠ .numeric p s) (h : c.Formed v) : v.pictured = v := by
  rcases h with ⟨rfl, -⟩ | ⟨hformed, -⟩
  · rfl
  cases v with
  | numeric d =>
    cases htype : c.datatype with
    | numeric p s => exact absurd htype (hdatatype p s)
    | _ =>
      rw [htype] at hformed
      exact hformed.elim
  | json j =>
    unfold isLasting at hc
    cases htype : c.datatype with
    | jsonb =>
      rw [htype, hunique] at hc
      cases hc
    | _ =>
      rw [htype] at hformed
      exact hformed.elim
  | _ => rfl

/-- What comes back of the values of a lasting column that have to differ compares as they did. -/
theorem compare_pictured (hc : c.isLasting = true) (hunique : c.isUnique = true) (hv : c.Formed v)
    (hu : c.Formed u) : v.pictured.compare u.pictured = v.compare u := by
  by_cases hnumeric : ∃ p s, c.datatype = .numeric p s
  · obtain ⟨p, s, hdatatype⟩ := hnumeric
    rcases pictured_of_numeric hc hunique hdatatype hv with rfl | ⟨d, rfl, hd⟩ <;>
      rcases pictured_of_numeric hc hunique hdatatype hu with rfl | ⟨e, rfl, he⟩
    · rfl
    · rw [he]
      rfl
    · rw [hd]
      rfl
    · rw [hd, he]
      exact Value.compare_unsignedZero d e
  · have hother : ∀ p s, c.datatype ≠ .numeric p s := fun p s heq => hnumeric ⟨p, s, heq⟩
    rw [pictured_of_not_numeric hc hunique hother hv, pictured_of_not_numeric hc hunique hother hu]

end Column

namespace TableDefinition

variable {d e : TableDefinition}

/-- All columns are lasting. -/
def isLasting (d : TableDefinition) : Bool := d.columns.all Column.isLasting

theorem isLasting_of_same (h : d.same e = true) : e.isLasting = d.isLasting := by
  have hcolumns := forall₂_of_same h
  unfold isLasting
  generalize d.columns = cs at hcolumns ⊢
  generalize e.columns = ds at hcolumns ⊢
  induction hcolumns with
  | nil => rfl
  | cons hsame _ ih => rw [List.all_cons, List.all_cons, Column.isLasting_of_same hsame, ih]

theorem isLasting_pictured (d : TableDefinition) : d.pictured.isLasting = d.isLasting := by
  show (d.columns.map Column.pictured).all Column.isLasting = d.columns.all Column.isLasting
  rw [List.all_map]
  rfl

theorem Formed.pictured (hd : d.isLasting = true) {row : Tuple} (h : d.Formed row) :
    d.pictured.Formed (row.map Value.pictured) := by
  show List.Forall₂ Column.Formed (d.columns.map Column.pictured) (row.map Value.pictured)
  rw [List.forall₂_map_left_iff, List.forall₂_map_right_iff]
  have hmem : List.Forall₂ (fun c v => c ∈ d.columns ∧ c.Formed v) d.columns row :=
    (List.forall₂_and_left _ _).mpr ⟨fun c hc => hc, h⟩
  refine hmem.imp ?_
  rintro c v ⟨hc, hv⟩
  -- a picture of a column differs in its default only
  exact Column.formed_pictured (List.all_eq_true.mp hd c hc) hv

end TableDefinition

namespace Table

variable {t : Table}

theorem valueAt_pictured (values : Tuple) (i : Nat) :
    valueAt (values.map Value.pictured) i = (valueAt values i).pictured := by
  unfold valueAt
  rw [List.getD_eq_getElem?_getD, List.getD_eq_getElem?_getD, List.getElem?_map]
  cases values[i]? <;> rfl

/-- A picture of a sound table is sound if all columns are lasting. -/
theorem Sound.pictured (h : t.Sound) (ht : t.definition.isLasting = true) : t.pictured.Sound where
  keyed := h.keyed.pictured
  formed r hr := by
    obtain ⟨q, hq, rfl⟩ := List.mem_map.mp hr
    exact (h.formed q hq).pictured ht
  differ r hr q hq hid i c hc hunique hclash := by
    obtain ⟨old, hold, rfl⟩ := List.mem_map.mp hr
    obtain ⟨other, hother, rfl⟩ := List.mem_map.mp hq
    obtain ⟨d, hd, rfl⟩ : ∃ d, t.definition.columns[i]? = some d ∧ d.pictured = c := by
      have hmap : (t.definition.columns.map Column.pictured)[i]? = some c := hc
      rw [List.getElem?_map] at hmap
      exact Option.map_eq_some_iff.mp hmap
    refine h.differ old hold other hother hid i d hd hunique ?_
    -- the two values were equal before
    have hlasting := List.all_eq_true.mp ht d (List.mem_of_getElem? hd)
    have hcompare := Column.compare_pictured hlasting hunique (formed_valueAt (h.formed old hold) hd)
      (formed_valueAt (h.formed other hother) hd)
    rw [← valueAt_pictured, ← valueAt_pictured] at hcompare
    exact hcompare.symm.trans hclash

/-- The table is keyed, and sound if all its columns are lasting. -/
structure Lasting (t : Table) : Prop where
  keyed : t.Keyed
  sound : t.definition.isLasting = true → t.Sound

theorem Lasting.pictured (h : t.Lasting) : t.pictured.Lasting where
  keyed := h.keyed.pictured
  sound hlasting := by
    have hdefinition : t.definition.isLasting = true :=
      t.definition.isLasting_pictured.symm.trans hlasting
    exact (h.sound hdefinition).pictured hdefinition

/-- Nothing in the life of a table, not even that it is put back to a picture, takes this from it. -/
theorem invariant_lasting : Invariant Lasting where
  keyed := Lasting.keyed
  ofDefinition _ := ⟨Keyed.ofDefinition _, fun _ => Sound.ofDefinition _⟩
  grown h hg := ⟨h.keyed.grown hg, fun hlasting => (h.sound (hg.definition_eq ▸ hlasting)).grown hg⟩
  change h hc := ⟨hc.keyed h.keyed, fun hlasting => (h.sound (hc.definition_eq ▸ hlasting)).change hc⟩
  clear h := ⟨h.keyed.clear, fun hlasting => (h.sound hlasting).subset h.keyed.clear rfl nofun⟩
  restored h hsame := ⟨h.keyed.withDefinition _, fun hlasting =>
    (h.sound ((TableDefinition.isLasting_of_same hsame).symm.trans hlasting)).withDefinition hsame⟩

end Table

end SqlStore
