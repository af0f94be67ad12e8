import SqlStore.Proofs.Query.Clauses
import SqlStore.Proofs.Query.Parallel

/-!
# Induction over planning

Planning goes through the levels of a query and through nothing else. `Planned` says what has to be shown
of the steps of planning for a property of plans, and `Planned.ofSelect` is the induction over sources,
queries in sources and their clauses. `MadeOf` is the first use: where the expressions and the tables of a
plan come from.
-/

namespace SqlStore

namespace Plan

/-- What the steps of planning have to keep of a property of plans, when all levels are in `B`. -/
structure Planned (catalog : Catalog) (outer : Scope) (B : SelectBody Select → Prop)
    (Q : Plan → Prop) : Prop where
  singleRow : Q singleRow
  scan : ∀ {body name d label}, B body → name ∈ body.tables → catalog name = .ok d →
    Q (scan d label)
  derived : ∀ {p label}, Q p → Q (derived p label)
  cross : ∀ {l r}, Q l → Q r → Q (join .cross l r none [])
  join : ∀ {body kind condition l r predicate merged}, B body → condition ∈ body.conditions →
    joinRule l.columns r.columns outer condition = .ok (predicate, merged) → Q l → Q r →
      Q (join kind l r predicate merged)
  clauses : ∀ {body sources c}, B body → Clauses.Checked c body sources outer → Q sources →
    Q (c.plan body sources)

namespace Planned

variable {catalog : Catalog} {outer : Scope} {B : SelectBody Select → Prop} {Q : Plan → Prop}

theorem crossAll (h : Planned catalog outer B Q) {ps : List Plan} (hps : ∀ p ∈ ps, Q p) :
    Q (crossAll ps) := by
  cases ps with
  | nil => exact h.singleRow
  | cons p ps =>
    obtain ⟨hp, hps⟩ := List.forall_mem_cons.mp hps
    refine List.foldlRecOn ps _ hp ?_
    exact fun all hall q hq => h.cross hall (hps q hq)

mutual

/-- Every plan of a query whose levels are in `B` has the property. -/
theorem ofSelect (h : Planned catalog outer B Q) : ∀ (q : Select) {p : Plan},
    (∀ body ∈ q.levels, B body) → Plan.ofSelect catalog outer q = .ok p → Q p
  | .mk body, p, hlevels, hp => by
    obtain ⟨hbody, hbelow⟩ := List.forall_mem_cons.mp hlevels
    exact ofBody h body hbody hbelow hp

theorem ofBody (h : Planned catalog outer B Q) : ∀ (body : SelectBody Select) {p : Plan},
    B body → (∀ level ∈ bodyLevels body, B level) → Plan.ofBody catalog outer body = .ok p → Q p
  | ⟨_, _, sources, _, _, _, _, _, _⟩, p, hbody, hbelow, hp => by
    obtain ⟨plans, hplans, hp⟩ := Except.exists_of_bind_eq_ok hp
    obtain ⟨c, hchecked, rfl⟩ := exists_of_ofClauses hp
    refine h.clauses hbody hchecked (h.crossAll ?_)
    exact ofSources h sources hbody (fun s hs n hn => List.mem_flatMap.mpr ⟨s, hs, hn⟩)
      (fun s hs x hx => List.mem_flatMap.mpr ⟨s, hs, hx⟩) hbelow hplans

theorem ofSources (h : Planned catalog outer B Q) {body : SelectBody Select} :
    ∀ (sources : List (FromItem Select)) {plans : List Plan}, B body →
      (∀ s ∈ sources, s.tables ⊆ body.tables) → (∀ s ∈ sources, s.conditions ⊆ body.conditions) →
      (∀ level ∈ sourcesLevels sources, B level) →
      Plan.ofSources catalog outer sources = .ok plans → ∀ p ∈ plans, Q p
  | [], plans, _, _, _, _, hplans => by
    cases hplans
    exact nofun
  | s :: ss, plans, hbody, htables, hconditions, hbelow, hplans => by
    obtain ⟨ht, hts⟩ := List.forall_mem_cons.mp htables
    obtain ⟨hc, hcs⟩ := List.forall_mem_cons.mp hconditions
    obtain ⟨hs, hss⟩ := List.forall_mem_append.mp hbelow
    obtain ⟨p, hp, hplans⟩ := Except.exists_of_bind_eq_ok hplans
    obtain ⟨ps, hps, hplans⟩ := Except.exists_of_bind_eq_ok hplans
    cases hplans
    exact List.forall_mem_cons.mpr ⟨ofSource h s hbody ht hc hs hp,
      ofSources h ss hbody hts hcs hss hps⟩

theorem ofSource (h : Planned catalog outer B Q) {body : SelectBody Select} :
    ∀ (source : FromItem Select) {p : Plan}, B body → source.tables ⊆ body.tables →
      source.conditions ⊆ body.conditions → (∀ level ∈ sourceLevels source, B level) →
      Plan.ofSource catalog outer source = .ok p → Q p
  | .table name label, p, hbody, htables, _, _, hp => by
    obtain ⟨d, hd, hp⟩ := Except.exists_of_bind_eq_ok hp
    cases hp
    exact h.scan hbody (htables List.mem_cons_self) hd
  | .derived query label, p, _, _, _, hbelow, hp => by
    obtain ⟨q, hq, hp⟩ := Except.exists_of_bind_eq_ok hp
    cases hp
    exact h.derived (ofSelect h query hbelow hq)
  | .join kind l r condition, p, hbody, htables, hconditions, hbelow, hp => by
    obtain ⟨htl, htr⟩ := List.append_subset.mp htables
    obtain ⟨hcl, hrest⟩ := List.append_subset.mp hconditions
    obtain ⟨hcr, hown⟩ := List.append_subset.mp hrest
    obtain ⟨hl, hr⟩ := List.forall_mem_append.mp hbelow
    obtain ⟨left, hleft, hp⟩ := Except.exists_of_bind_eq_ok hp
    obtain ⟨right, hright, hp⟩ := Except.exists_of_bind_eq_ok hp
    obtain ⟨⟨predicate, merged⟩, hrule, hp⟩ := Except.exists_of_bind_eq_ok hp
    cases hp
    exact h.join hbody (hown List.mem_cons_self) hrule (ofSource h l hbody htl hcl hl hleft)
      (ofSource h r hbody htr hcr hr hright)

end

end Planned

/-! ## What plans are made of -/

/-- An expression of one of the levels of a query, or a column that `*` stands for at one of them. -/
def WrittenIn (q : Select) (e : Expression) : Prop :=
  (∃ body ∈ q.levels, e ∈ body.expressions) ∨
    (∃ body ∈ q.levels, ∃ item ∈ body.items, item.expression? = none) ∧ ∃ table name, e = .column table name

/-- The expressions of a plan are written in a query, and its tables are named by the levels. -/
structure MadeOf (catalog : Catalog) (q : Select) (p : Plan) : Prop where
  expressions : ∀ e ∈ p.expressions, WrittenIn q e
  scans : ∀ d ∈ p.scans, ∃ body ∈ q.levels, ∃ name ∈ body.tables, catalog name = .ok d

namespace MadeOf

variable {catalog : Catalog} {outer : Scope} {q : Select} {p : Plan}

/-- A step over a plan with one more expression. -/
theorem step (h : MadeOf catalog q p) {p' : Plan} (es : List Expression)
    (hexpressions : p'.expressions = es ++ p.expressions) (hscans : p'.scans = p.scans)
    (hes : ∀ e ∈ es, WrittenIn q e) : MadeOf catalog q p' := by
  refine ⟨?_, hscans ▸ h.scans⟩
  rw [hexpressions]
  exact List.forall_mem_append.mpr ⟨hes, h.expressions⟩

theorem join {l r : Plan} (hl : MadeOf catalog q l) (hr : MadeOf catalog q r) {kind : JoinKind}
    {predicate : Option Expression} {merged : List (Nat × Nat)}
    (hpredicate : ∀ e ∈ predicate.toList, ∃ body ∈ q.levels, e ∈ body.expressions) :
    MadeOf catalog q (.join kind l r predicate merged) := by
  refine ⟨?_, List.forall_mem_append.mpr ⟨hl.scans, hr.scans⟩⟩
  refine List.forall_mem_append.mpr ⟨hl.expressions, List.forall_mem_append.mpr
    ⟨hr.expressions, fun e he => Or.inl (hpredicate e he)⟩⟩

end MadeOf

theorem madeOf_clauses {catalog : Catalog} {outer : Scope} {q : Select} {body : SelectBody Select}
    {sources : Plan} {c : Clauses} (hbody : body ∈ q.levels) (hc : c.Checked body sources outer)
    (h : MadeOf catalog q sources) : MadeOf catalog q (c.plan body sources) := by
  -- whatever the level holds is an expression of a level
  have hlevel : ∀ {e : Expression}, e ∈ body.expressions → WrittenIn q e :=
    fun he => Or.inl ⟨body, hbody, he⟩
  have hshown : ∀ {o : Output}, Clauses.Shown body sources outer o → WrittenIn q o.expr := by
    rintro o (⟨he, -⟩ | ⟨hall, column, -, rfl⟩)
    · exact hlevel he
    · exact Or.inr ⟨⟨body, hbody, hall⟩, _, _, rfl⟩
  have houtputs : ∀ e ∈ c.outputs.map Output.expr, WrittenIn q e := by
    intro e he
    obtain ⟨o, ho, rfl⟩ := List.mem_map.mp he
    exact hshown (hc.of_sorting.1 o ho)
  have hsource : MadeOf catalog q (Clauses.source body sources) := by
    unfold Clauses.source
    split
    · exact h
    · next e he =>
      exact h.step [e] rfl rfl (List.forall_mem_singleton.mpr
        (hlevel (SelectBody.mem_expressions_of_filter he)))
  have hresults : MadeOf catalog q (c.results body sources) := by
    unfold Clauses.results
    split
    · refine hsource.step (c.keys ++ (body.having.toList ++ c.outputs.map Output.expr))
        (by simp only [Plan.expressions, List.append_assoc]) rfl ?_
      refine List.forall_mem_append.mpr ⟨fun key hkey => ?_,
        List.forall_mem_append.mpr ⟨fun e he => ?_, houtputs⟩⟩
      · rcases (hc.of_key key hkey).2 with hkey | ⟨o, ho, rfl⟩
        · exact hlevel hkey
        · exact hshown (hc.shown_of_visible o ho)
      · exact hlevel (SelectBody.mem_expressions_of_having (Option.mem_toList.mp he))
    · exact hsource.step (c.outputs.map Output.expr) rfl rfl houtputs
  refine Clauses.finish_of (Q := MadeOf catalog q) hresults ?_ ?_ ?_ ?_ id ?_
  · exact fun hp => ⟨hp.expressions, hp.scans⟩
  · exact fun hp => ⟨hp.expressions, hp.scans⟩
  · exact fun e he hp => hp.step [e] rfl rfl (List.forall_mem_singleton.mpr
      (hlevel (SelectBody.mem_expressions_of_offset he)))
  · exact fun e he hp => hp.step [e] rfl rfl (List.forall_mem_singleton.mpr
      (hlevel (SelectBody.mem_expressions_of_limit he)))
  · exact fun hp _ => ⟨hp.expressions, hp.scans⟩

theorem planned_madeOf (catalog : Catalog) (outer : Scope) (q : Select) :
    Planned catalog outer (· ∈ q.levels) (MadeOf catalog q) where
  singleRow := ⟨nofun, nofun⟩
  scan := by
    intro body name d label hbody hname hd
    refine ⟨nofun, List.forall_mem_singleton.mpr ⟨body, hbody, name, hname, hd⟩⟩
  derived hp := ⟨hp.expressions, hp.scans⟩
  cross hl hr := hl.join hr nofun
  join := by
    intro body kind condition l r predicate merged hbody hcondition hrule hl hr
    refine hl.join hr fun e he => ⟨body, hbody, ?_⟩
    rw [Option.mem_toList] at he
    exact SelectBody.mem_expressions_of_condition hcondition (predicate_of_joinRule hrule e he).1
  clauses hbody hc hs := madeOf_clauses hbody hc hs

theorem madeOf_ofSelect {catalog : Catalog} {outer : Scope} {q : Select} {p : Plan}
    (h : Plan.ofSelect catalog outer q = .ok p) : MadeOf catalog q p :=
  (planned_madeOf catalog outer q).ofSelect q (fun _ hbody => hbody) h

end Plan

end SqlStore
