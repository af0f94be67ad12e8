import SqlStore.Proofs.Syntax.Forms

/-!
# Reading operands

Literals, columns, case distinctions, casts, calls, aggregates and expressions in parentheses are operands.
What stands inside them is read as a whole expression, in front of the word, comma or parenthesis behind it.
-/

namespace SqlStore

theorem AggregateFunction.ofName?_name (f : AggregateFunction) : ofName? f.name = some f := by
  cases f <;> rfl

namespace Parser

variable {e : Expression} {ts us : List Token} {n : Nat}

/-! ## Literals and columns -/

theorem Atom.number {digits : String} {v : Value} (h : numberValue? digits = some v) :
    Atom (.literal v) [.number digits] := by
  refine ⟨⟨_, _, rfl, rfl⟩, fun n us _ _ => ?_⟩
  unfold atom
  refine .bind_cons .next ?_
  dsimp only
  rw [h]
  exact .pure

theorem Atom.string (s : String) : Atom (.literal (.text s)) [.string s] :=
  ⟨⟨_, _, rfl, rfl⟩, fun _ _ _ _ => .bind_cons .next .pure⟩

theorem Atom.boolean (b : Bool) :
    Atom (.literal (.boolean b)) [.keyword (if b then .true_ else .false_)] := by
  refine ⟨⟨_, _, rfl, by cases b <;> rfl⟩, fun n us _ _ => ?_⟩
  cases b <;> exact .bind_cons .next .pure

theorem Atom.null : Atom (.literal .null) [.keyword .null] :=
  ⟨⟨_, _, rfl, rfl⟩, fun _ _ _ _ => .bind_cons .next .pure⟩

/-- A name that nothing extends is a column, but for the words of the clock. -/
theorem reads_name_alone {g : Grammar} {name : String} (hclear : Clear us) :
    Reads (nameExpression g name) [] us
      (if nowNames.contains name then .call name [] else .column none name) := by
  have hextends : ∀ t : Token, t.extends = true → us[0]? ≠ some t := by
    intro t ht heq
    rw [hclear t heq] at ht
    cases ht
  unfold nameExpression
  refine .bind_nil (.take?_not (hextends _ rfl)) (.bind_nil (.take?_not (hextends _ rfl)) (.bind_nil .peek ?_))
  rw [List.nil_append]
  split
  · next s _ hstring _ => exact absurd hstring (hextends _ rfl)
  · unfold nowNames
    split <;> exact .pure

theorem Atom.named {name : String} (h : nowNames.contains name = false) :
    Atom (.column none name) [.ident name] := by
  refine ⟨⟨_, _, rfl, rfl⟩, fun n us hclear _ => .bind_cons .next ?_⟩
  have hread : Reads (nameExpression (grammar n) name) [] us _ := reads_name_alone hclear
  rw [h] at hread
  exact hread

theorem Atom.qualified (table name : String) :
    Atom (.column (some table) name) [.ident table, .period, .ident name] := by
  refine ⟨⟨_, _, rfl, rfl⟩, fun n us _ _ => ?_⟩
  refine .bind_cons .next ?_
  dsimp only
  unfold nameExpression
  exact .bind_nil (.take?_not (by rintro ⟨⟩)) (.bind_cons .take? (.bind_cons .ident .pure))

/-! ## Parentheses and casts -/

/-- An expression in parentheses is an operand. -/
theorem Whole.parens (h : Whole e ts) : Atom e (.openParen :: (ts ++ [.closeParen])) := by
  refine ⟨⟨_, _, rfl, rfl⟩, fun n us _ hn => ?_⟩
  simp only [List.length_append, List.length_cons] at hn
  obtain ⟨t, rest, hts, ht⟩ := h.front
  have hselect : (((ts ++ [Token.closeParen]) ++ us)[0]? == some (.keyword .select)) = false := by
    rw [hts]
    exact not_select ht
  refine .bind_cons .next (.bind_nil .peek ?_)
  rw [hselect]
  refine .bind (h.reads n _ ?_ ?_) (.bind_cons .expect .pure)
  · rintro t ⟨⟩
    rfl
  · simp only [List.length_append, List.length_cons]
    omega

theorem Atom.cast {type : DataType} (h : Atom e ts) (htype : type.Legible) :
    Atom (.cast e type)
      (.keyword .cast :: .openParen :: (ts ++ .keyword .as :: (type.tokens ++ [.closeParen]))) := by
  refine ⟨⟨_, _, rfl, rfl⟩, fun n us _ hn => ?_⟩
  simp only [List.length_append, List.length_cons] at hn
  obtain ⟨name, hname, hreads⟩ := Reads.typeName htype
  refine .bind_cons .next (.bind_cons .expect (.bind (h.whole.reads n _ ?_ ?_)
    (.bind_cons .expectKeyword (.bind hreads (.bind_cons .expect ?_)))))
  · rintro t ⟨⟩
    rfl
  · simp only [List.length_append, List.length_cons]
    omega
  · rw [hname]
    exact .pure

/-! ## Calls -/

theorem Atom.call {name : String} {args : List Expression} {tss : List (List Token)}
    (hname : AggregateFunction.ofName? name = none)
    (hargs : List.Forall₂ (fun ts e => Atom e ts) tss args) :
    Atom (.call name args) (.ident name :: .openParen :: (commaTokens tss ++ [.closeParen])) := by
  refine ⟨⟨_, _, rfl, rfl⟩, fun n us _ hn => ?_⟩
  simp only [List.length_append, List.length_cons] at hn
  refine .bind_cons .next ?_
  dsimp only
  unfold nameExpression
  refine .bind_cons .take? ?_
  unfold callArgs
  dsimp only
  rw [hname]
  by_cases hne : args = []
  · subst hne
    cases hargs
    exact .bind_cons .take? .pure
  · obtain ⟨t, rest, hts, ht⟩ := opens_commaTokens hargs hne
    refine .bind_nil (.take?_not ?_) (.bind_last
      (.closedList (n - 1) (readsItems hargs (by omega)) hne ?_) .pure)
    · rw [hts]
      rintro ⟨⟩
      cases ht
    · simp only [List.length_append, List.length_cons]
      omega

theorem Atom.countRows :
    Atom (.aggregate .count false none)
      [.ident AggregateFunction.count.name, .openParen, .asterisk, .closeParen] := by
  refine ⟨⟨_, _, rfl, rfl⟩, fun n us _ hn => ?_⟩
  refine .bind_cons .next ?_
  dsimp only
  unfold nameExpression
  refine .bind_cons .take? ?_
  unfold callArgs
  dsimp only
  rw [AggregateFunction.ofName?_name]
  exact .bind_cons .take? (.bind_cons .expect .pure)

theorem takeWhen?_not {condition : Bool} {t : Token} (h : us[0]? ≠ some t) :
    Reads (takeWhen? condition t) [] us false := by
  unfold takeWhen?
  split
  · exact .take?_not h
  · exact .pure

theorem Atom.aggregate {f : AggregateFunction} {distinct : Bool} (h : Atom e ts) :
    Atom (.aggregate f distinct (some e))
      (.ident f.name :: .openParen ::
        ((if distinct then [.keyword .distinct] else []) ++ (ts ++ [.closeParen]))) := by
  refine ⟨⟨_, _, rfl, rfl⟩, fun n us _ hn => ?_⟩
  simp only [List.length_append, List.length_cons] at hn
  have harg : Reads
      (do
        let arg ← (grammar n).expression 0
        expect .closeParen
        return Expr.aggregate f distinct (some arg))
      (ts ++ [.closeParen]) us (.aggregate f distinct (some e)) := by
    refine .bind (h.whole.reads n _ ?_ ?_) (.bind_cons .expect .pure)
    · rintro t ⟨⟩
      rfl
    · simp only [List.length_append, List.length_cons]
      omega
  obtain ⟨t, rest, hts, ht⟩ := h.opens
  have hfront : ∀ t', t' ≠ t → ((ts ++ [Token.closeParen]) ++ us)[0]? ≠ some t' := by
    rintro t' hne heq
    rw [hts] at heq
    exact hne (Option.some.inj heq).symm
  obtain ⟨-, -, hasterisk, hdistinct, hall, -, -⟩ := of_opens ht
  refine .bind_cons .next ?_
  dsimp only
  unfold nameExpression
  refine .bind_cons .take? ?_
  unfold callArgs
  dsimp only
  rw [AggregateFunction.ofName?_name]
  -- an operand begins with none of the words and marks that are looked for in front of it
  cases distinct
  · refine .bind_nil (takeWhen?_not (hfront _ hasterisk.symm)) ?_
    refine .bind_nil (.take?_not (hfront _ hdistinct.symm)) ?_
    exact .bind_nil (.take?_not (hfront _ hall.symm)) harg
  · refine .bind_nil (takeWhen?_not (by rintro ⟨⟩)) (.bind_cons .take? ?_)
    exact harg

/-! ## Case distinctions -/

/-- The tokens of the branches of a case distinction. -/
def branchTokens (tss : List (List Token × List Token)) : List Token :=
  tss.flatMap fun ts => .keyword .when :: (ts.1 ++ .keyword .then_ :: ts.2)

theorem branchTokens_ends (tss : List (List Token × List Token)) {us : List Token} (h : Ends us) :
    Ends (branchTokens tss ++ us) := by
  cases tss with
  | nil => exact h
  | cons =>
    rintro t ⟨⟩
    rfl

/-- A condition is read in front of `THEN`, a result in front of the next branch or of what follows. -/
theorem reads_branchesFrom {tss : List (List Token × List Token)} {branches : List (Expression × Expression)}
    (h : List.Forall₂ (fun ts b => Atom b.1 ts.1 ∧ Atom b.2 ts.2) tss branches) (hends : Ends us)
    (hwhen : us[0]? ≠ some (.keyword .when)) {fuel : Nat} (hfuel : tss.length ≤ fuel)
    (hn : (branchTokens tss ++ us).length < n) :
    Reads (branchesFrom (grammar n) fuel) (branchTokens tss) us branches := by
  induction h generalizing fuel with
  | nil =>
    cases fuel with
    | zero => exact .pure
    | succ fuel => exact .bind_nil (.take?_not hwhen) .pure
  | @cons ts b tss branches hb _ ih =>
    obtain ⟨fuel, rfl⟩ := Nat.exists_eq_succ_of_ne_zero (Nat.ne_zero_of_lt hfuel)
    have hlist : branchTokens (ts :: tss) =
        .keyword .when :: (ts.1 ++ .keyword .then_ :: (ts.2 ++ branchTokens tss)) := by
      simp [branchTokens]
    rw [hlist] at hn ⊢
    simp only [List.length_append, List.length_cons] at hn
    unfold branchesFrom
    refine .bind_cons .take? (.bind (hb.1.whole.reads n _ ?_ ?_) (.bind_cons .expectKeyword
      (.bind (hb.2.whole.reads n _ (branchTokens_ends tss hends) ?_)
        (.bind_last (ih (Nat.le_of_succ_le_succ hfuel) ?_) .pure))))
    · rintro t ⟨⟩
      rfl
    all_goals
      simp only [List.length_append, List.length_cons]
      omega

/-- What ends a case distinction behind its branches. -/
def otherwiseTokens (ds : Option (List Token)) : List Token :=
  ds.elim [] (.keyword .else_ :: ·) ++ [.keyword .end_]

theorem otherwiseTokens_front (ds : Option (List Token)) (us : List Token) :
    Ends (otherwiseTokens ds ++ us) ∧ (otherwiseTokens ds ++ us)[0]? ≠ some (.keyword .when) := by
  cases ds <;> exact ⟨by rintro t ⟨⟩; rfl, by rintro ⟨⟩⟩

theorem length_le_branchTokens (tss : List (List Token × List Token)) :
    tss.length ≤ (branchTokens tss).length := by
  induction tss with
  | nil => exact Nat.zero_le _
  | cons ts tss ih =>
    rw [branchTokens, List.flatMap_cons, List.length_append, ← branchTokens]
    simp only [List.length_cons]
    omega

/-- Branches and what ends a case distinction. -/
theorem reads_branches {operand otherwise : Option Expression} {ds : Option (List Token)}
    {branches : List (Expression × Expression)} {tss : List (List Token × List Token)}
    (hbranches : List.Forall₂ (fun ts b => Atom b.1 ts.1 ∧ Atom b.2 ts.2) tss branches)
    (hotherwise : Option.Rel (fun ts e => Atom e ts) ds otherwise) (hne : branches ≠ [])
    (hn : (branchTokens tss ++ otherwiseTokens ds ++ us).length < n) :
    Reads
      (do
        let branches ← branchesFrom (grammar n) ((← get).rest.length + 1)
        if branches.isEmpty then
          failAt (← peekPosition) "CASE requires at least one WHEN clause"
        let otherwise ← if ← takeKeyword? .else_ then some <$> (grammar n).expression 0 else pure none
        expectKeyword .end_
        return Expr.cases operand branches otherwise : Parser Expression)
      (branchTokens tss ++ otherwiseTokens ds) us (.cases operand branches otherwise) := by
  have hempty : branches.isEmpty = false := by rwa [List.isEmpty_eq_false_iff]
  obtain ⟨hends, hwhen⟩ := otherwiseTokens_front ds us
  refine .fuel_bind (f := fun n => branchesFrom _ (n + 1) >>= _) ?_
  refine .bind (reads_branchesFrom hbranches hends hwhen ?_ ?_) ?_
  · have := length_le_branchTokens tss
    simp only [List.length_append]
    omega
  · rwa [List.append_assoc] at hn
  · rw [hempty]
    cases hotherwise with
    | none => exact .bind_nil (.take?_not (by rintro ⟨⟩)) (.bind_nil .pure (.bind_cons .expectKeyword .pure))
    | some h =>
      refine .bind_cons .take? (.bind (.map (h.whole.reads n _ ?_ ?_)) (.bind_cons .expectKeyword .pure))
      · rintro t ⟨⟩
        rfl
      · simp only [otherwiseTokens, Option.elim_some, List.length_append, List.length_cons] at hn ⊢
        omega

theorem Atom.cases {operand otherwise : Option Expression} {os ds : Option (List Token)}
    {branches : List (Expression × Expression)} {tss : List (List Token × List Token)}
    (hoperand : Option.Rel (fun ts e => Atom e ts) os operand)
    (hbranches : List.Forall₂ (fun ts b => Atom b.1 ts.1 ∧ Atom b.2 ts.2) tss branches)
    (hotherwise : Option.Rel (fun ts e => Atom e ts) ds otherwise) (hne : branches ≠ []) :
    Atom (.cases operand branches otherwise)
      (.keyword .case_ :: (os.getD [] ++ (branchTokens tss ++ otherwiseTokens ds))) := by
  refine ⟨⟨_, _, rfl, rfl⟩, fun n us _ hn => ?_⟩
  simp only [List.length_append, List.length_cons] at hn
  refine .bind_cons .next ?_
  dsimp only
  unfold caseExpression
  have hn' : (branchTokens tss ++ otherwiseTokens ds ++ us).length < n := by
    simp only [List.length_append]
    omega
  refine .bind_nil .peek ?_
  cases hoperand with
  | none =>
    cases hbranches with
    | nil => exact absurd rfl hne
    | cons hb hbs => exact .bind_nil .pure (reads_branches (.cons hb hbs) hotherwise hne hn')
  | @some ts e h =>
    obtain ⟨t, rest, hts, ht⟩ := h.opens
    rw [hts, Option.getD_some, List.cons_append, List.cons_append, List.getElem?_cons_zero]
    split
    · next heq => exact absurd (Option.some.inj heq) (of_opens ht).2.2.2.2.2.2
    · rw [← List.cons_append, ← hts]
      refine .bind (.map (h.whole.reads n _ ?_ ?_)) (reads_branches hbranches hotherwise hne hn')
      · rw [List.append_assoc]
        exact branchTokens_ends tss (otherwiseTokens_front ds us).1
      · simp only [Option.getD_some, List.length_append] at hn ⊢
        omega

end Parser

end SqlStore
