import SqlStore.Proofs.Syntax.Atoms
import SqlStore.Proofs.Syntax.Batches

/-!
# Expressions written out

`Expr.render` writes an expression as text, with every operand that has operands of its own in parentheses,
names and strings in quotes and a cast as `CAST`. What is read from a text is written so that it is read
again: reading makes sure that an expression is `Legible`, a legible expression spells tokens, and these
tokens are a whole expression.
-/

namespace SqlStore

open Lexeme

/-- A value as it is written in an expression. -/
def Value.written : Value → List Char
  | boolean b => (if b then Keyword.true_ else Keyword.false_).text.toList
  | text s => quotedText singleQuote s
  | v => v.toText.toList

namespace Expr

variable {σ : Type}

/-- Whether an expression stands without parentheses as an operand. -/
def isPlain : Expr σ → Bool
  | literal _ | column _ _ => true
  | _ => false

/-- The text of an expression as an operand, given its text. -/
def enclosed (e : Expr σ) (cs : List Char) : List Char := if e.isPlain then cs else parens cs

/-- The words in front of a negated operator. -/
def negationWords (negated : Bool) : List (List Char) :=
  if negated then [Keyword.not.text.toList] else []

mutual

/-- The text of an expression, given that of queries. -/
def render (query : σ → List Char) : Expr σ → List Char
  | literal v => v.written
  | column none name => quotedText '"' name
  | column (some table) name => quotedText '"' table ++ '.' :: quotedText '"' name
  | unary op e => spaced [op.symbol.toList, e.enclosed (e.render query)]
  | binary op l r =>
    spaced [l.enclosed (l.render query), op.symbol.toList, r.enclosed (r.render query)]
  | isNull e negated =>
    spaced ([e.enclosed (e.render query), Keyword.is.text.toList] ++ negationWords negated ++
      [Keyword.null.text.toList])
  | inList e items negated =>
    spaced (e.enclosed (e.render query) :: negationWords negated ++
      [Keyword.in_.text.toList, parens (commas (renderList query items))])
  | inQuery e q negated =>
    spaced (e.enclosed (e.render query) :: negationWords negated ++
      [Keyword.in_.text.toList, parens (query q)])
  | between e low high negated =>
    spaced (e.enclosed (e.render query) :: negationWords negated ++
      [Keyword.between.text.toList, low.enclosed (low.render query), Keyword.and.text.toList,
        high.enclosed (high.render query)])
  | like e pattern negated ignoreCase =>
    spaced (e.enclosed (e.render query) :: negationWords negated ++
      [(if ignoreCase then Keyword.ilike else Keyword.like).text.toList,
        pattern.enclosed (pattern.render query)])
  | cases operand branches otherwise =>
    spaced (Keyword.case_.text.toList :: renderOption query [] operand ++
      renderBranches query branches ++ renderOption query [Keyword.else_.text.toList] otherwise ++
      [Keyword.end_.text.toList])
  | cast e type =>
    Keyword.cast.text.toList ++
      parens (spaced [e.enclosed (e.render query), Keyword.as.text.toList, type.name.toList])
  | exists_ q => spaced [Keyword.exists_.text.toList, parens (query q)]
  | subquery q => parens (query q)
  | call name args => quotedText '"' name ++ parens (commas (renderList query args))
  | aggregate f _ none => quotedText '"' f.name ++ parens ['*']
  | aggregate f distinct (some e) =>
    quotedText '"' f.name ++ parens (spaced ((if distinct then [Keyword.distinct.text.toList] else []) ++
      [e.enclosed (e.render query)]))

/-- The texts of operands. -/
def renderList (query : σ → List Char) : List (Expr σ) → List (List Char)
  | [] => []
  | e :: es => e.enclosed (e.render query) :: renderList query es

/-- The words in front of an optional operand, and its text. -/
def renderOption (query : σ → List Char) (words : List (List Char)) :
    Option (Expr σ) → List (List Char)
  | none => []
  | some e => words ++ [e.enclosed (e.render query)]

/-- The texts of the branches of a case distinction. -/
def renderBranches (query : σ → List Char) : List (Expr σ × Expr σ) → List (List Char)
  | [] => []
  | (condition, result) :: branches =>
    Keyword.when.text.toList :: condition.enclosed (condition.render query) ::
      Keyword.then_.text.toList :: result.enclosed (result.render query) ::
      renderBranches query branches

end

/-- Whether the outermost form is a floating-point number. -/
def isFloatLiteral : Expr σ → Bool
  | literal v => v.isFloat
  | _ => false

/-- What is written as it was read: a legible form that is no query and no floating-point number. -/
def PrintableForm (e : Expr σ) : Prop :=
  e.LegibleForm ∧ e.ownQuery? = none ∧ e.isFloatLiteral = false

/-- An expression that is written as it was read. -/
def Printable (e : Expr σ) : Prop := ∀ x ∈ e.subexpressions, x.PrintableForm

theorem Printable.form {e : Expr σ} (h : e.Printable) : e.PrintableForm :=
  h e (mem_subexpressions_self e)

theorem Printable.operand {e x : Expr σ} (h : e.Printable) (hx : x ∈ e.operands) : x.Printable :=
  fun y hy => h y (mem_subexpressions_of_operand hx hy)

end Expr

namespace Lexeme

/-- The text spells an operand. -/
def SpellsAtom (cs : List Char) (e : Expression) : Prop := ∃ ts, Spells cs ts ∧ Parser.Atom e ts

/-- The text spells a whole expression. -/
def SpellsWhole (cs : List Char) (e : Expression) : Prop := ∃ ts, Spells cs ts ∧ Parser.Whole e ts

theorem SpellsAtom.whole {cs : List Char} {e : Expression} (h : SpellsAtom cs e) : SpellsWhole cs e := by
  obtain ⟨ts, hspells, hatom⟩ := h
  exact ⟨ts, hspells, hatom.whole⟩

/-- Words with blanks between them spell the tokens of the words. -/
theorem spells_words {css : List (List Char)} {tss : List (List Token)} {ts : List Token}
    (h : List.Forall₂ Spells css tss) (htokens : tss.flatten = ts) : Spells (spaced css) ts :=
  htokens ▸ .spaced h

end Lexeme

namespace Expr

variable {query : Select → List Char} {e : Expression} {cs : List Char}

/-! ## Literals and columns -/

theorem spellsAtom_showInt {i : Int} {v : Value} (h : 0 ≤ i)
    (hvalue : Parser.numberValue? (Text.showInt i) = some v) :
    SpellsAtom (Text.showInt i).toList (.literal v) := by
  obtain ⟨n, rfl⟩ := Int.eq_ofNat_of_zero_le h
  have hspells := Spells.digits n
  rw [← String.toList_ofList (l := Text.digits n), ← Text.showInt_natCast] at hspells
  exact ⟨_, hspells, .number hvalue⟩

theorem spellsAtom_numeric {d : Numeric} (h : d.Legible) : SpellsAtom d.text.toList (.literal (.numeric d)) := by
  have hvalue := Parser.numberValue?_text h
  obtain ⟨whole, places, hne, hwhole, hplaces, -, -, htext⟩ := d.exists_text
  rw [h.negative] at htext
  change d.text = String.ofList (whole ++ if d.scale = 0 then [] else '.' :: places) at htext
  rw [htext] at hvalue ⊢
  rw [String.toList_ofList]
  refine ⟨_, ?_, .number hvalue⟩
  split
  · rw [List.append_nil]
    exact .whole hne hwhole
  · exact .places hne hwhole hplaces

theorem spellsAtom_literal {v : Value} (h : v.Legible) (hfloat : v.isFloat = false) :
    SpellsAtom v.written (.literal v) := by
  cases v with
  | null => exact ⟨_, .keyword .null, .null⟩
  | boolean b => cases b <;> exact ⟨_, .keyword _, .boolean _⟩
  | text s => exact ⟨_, .string s, .string s⟩
  | integer n => exact spellsAtom_showInt h (Parser.numberValue?_integer h)
  | bigInt n =>
    exact spellsAtom_showInt (Int.le_trans (by decide) h) (Parser.numberValue?_bigInt h)
  | numeric d => exact spellsAtom_numeric h
  | double x => cases hfloat
  | _ => exact h.elim

theorem spellsAtom_of_isPlain (h : e.PrintableForm) (hplain : e.isPlain = true) :
    SpellsAtom (e.render query) e := by
  obtain ⟨hform, -, hfloat⟩ := h
  cases e with
  | literal v => exact spellsAtom_literal hform hfloat
  | column table name =>
    cases table with
    | none => exact ⟨_, .name hform.1, .named hform.2⟩
    | some table => exact ⟨_, .qualified hform.1 hform.2, .qualified table name⟩
  | _ => cases hplain

/-- An expression in parentheses, or one that needs none, is an operand. -/
theorem spellsAtom_enclosed (h : e.PrintableForm) (hwhole : SpellsWhole (e.render query) e) :
    SpellsAtom (e.enclosed (e.render query)) e := by
  unfold enclosed
  split
  · next hplain => exact spellsAtom_of_isPlain h hplain
  · obtain ⟨ts, hspells, hts⟩ := hwhole
    exact ⟨_, hspells.parens, hts.parens⟩

/-! ## Operators -/

theorem spellsWhole_unary {op : UnaryOp} (h : SpellsAtom cs e) :
    SpellsWhole (spaced [op.symbol.toList, cs]) (.unary op e) := by
  obtain ⟨ts, hspells, hatom⟩ := h
  exact ⟨_, spells_words (.cons (.unaryOp op) (.cons hspells .nil)) (by simp), Parser.whole_unary hatom⟩

theorem spellsWhole_binary {op : BinaryOp} {l r : Expression} {ls rs : List Char} (hl : SpellsAtom ls l)
    (hr : SpellsAtom rs r) : SpellsWhole (spaced [ls, op.symbol.toList, rs]) (.binary op l r) := by
  obtain ⟨ts, hspells, hatom⟩ := hl
  obtain ⟨us, hspells', hatom'⟩ := hr
  exact ⟨_, spells_words (.cons hspells (.cons (.binaryOp op) (.cons hspells' .nil))) (by simp),
    Parser.whole_binary hatom hatom'⟩

/-- An operand, the word of a negated operator, and more words. -/
theorem spells_negated (negated : Bool) {css : List (List Char)} {ts : List Token} {tss : List (List Token)}
    (h : Spells cs ts) (hwords : List.Forall₂ Spells css tss) :
    Spells (spaced (cs :: negationWords negated ++ css)) (ts ++ (Parser.negation negated ++ tss.flatten)) := by
  cases negated
  · exact spells_words (.cons h hwords) rfl
  · exact spells_words (.cons h (.cons (.keyword .not) hwords)) rfl

theorem spellsWhole_isNull {negated : Bool} (h : SpellsAtom cs e) :
    SpellsWhole (spaced ([cs, Keyword.is.text.toList] ++ negationWords negated ++
      [Keyword.null.text.toList])) (.isNull e negated) := by
  obtain ⟨ts, hspells, hatom⟩ := h
  refine ⟨_, ?_, Parser.whole_isNull hatom⟩
  cases negated
  · exact spells_words (.cons hspells (.cons (.keyword .is) (.cons (.keyword .null) .nil))) rfl
  · exact spells_words
      (.cons hspells (.cons (.keyword .is) (.cons (.keyword .not) (.cons (.keyword .null) .nil)))) rfl

theorem spellsWhole_between {low high : Expression} {ls hs : List Char} {negated : Bool}
    (h : SpellsAtom cs e) (hlow : SpellsAtom ls low) (hhigh : SpellsAtom hs high) :
    SpellsWhole (spaced (cs :: negationWords negated ++
      [Keyword.between.text.toList, ls, Keyword.and.text.toList, hs])) (.between e low high negated) := by
  obtain ⟨ts, hspells, hatom⟩ := h
  obtain ⟨us, hlowSpells, hlowAtom⟩ := hlow
  obtain ⟨vs, hhighSpells, hhighAtom⟩ := hhigh
  have hwords := spells_negated negated hspells (.cons (.keyword .between)
    (.cons hlowSpells (.cons (.keyword .and) (.cons hhighSpells .nil))))
  simp only [List.flatten_cons, List.flatten_nil, List.append_nil, List.singleton_append] at hwords
  exact ⟨_, hwords, Parser.whole_between hatom hlowAtom hhighAtom⟩

theorem spellsWhole_like {pattern : Expression} {ps : List Char} {negated ignoreCase : Bool}
    (h : SpellsAtom cs e) (hpattern : SpellsAtom ps pattern) :
    SpellsWhole (spaced (cs :: negationWords negated ++
      [(if ignoreCase then Keyword.ilike else Keyword.like).text.toList, ps]))
      (.like e pattern negated ignoreCase) := by
  obtain ⟨ts, hspells, hatom⟩ := h
  obtain ⟨us, hspells', hatom'⟩ := hpattern
  have hwords := spells_negated negated hspells
    (.cons (.keyword (if ignoreCase then .ilike else .like)) (.cons hspells' .nil))
  simp only [List.flatten_cons, List.flatten_nil, List.append_nil, List.singleton_append] at hwords
  exact ⟨_, hwords, Parser.whole_like hatom hatom'⟩

/-! ## Lists of operands -/

/-- Operands with commas between them, in parentheses. -/
theorem spells_renderList {es : List Expression}
    (h : ∀ x ∈ es, SpellsAtom (x.enclosed (x.render query)) x) :
    ∃ tss, List.Forall₂ Spells (renderList query es) tss ∧
      List.Forall₂ (fun ts x => Parser.Atom x ts) tss es := by
  induction es with
  | nil =>
    refine ⟨[], ?_, .nil⟩
    rw [renderList]
    exact .nil
  | cons e es ih =>
    obtain ⟨⟨ts, hspells, hatom⟩, hrest⟩ := List.forall_mem_cons.mp h
    obtain ⟨tss, hspellsRest, hatomRest⟩ := ih hrest
    refine ⟨ts :: tss, ?_, .cons hatom hatomRest⟩
    rw [renderList]
    exact .cons hspells hspellsRest

theorem spellsWhole_inList {items : List Expression} {negated : Bool} (h : SpellsAtom cs e)
    (hitems : ∀ x ∈ items, SpellsAtom (x.enclosed (x.render query)) x) (hne : items ≠ []) :
    SpellsWhole (spaced (cs :: negationWords negated ++
      [Keyword.in_.text.toList, parens (commas (renderList query items))])) (.inList e items negated) := by
  obtain ⟨ts, hspells, hatom⟩ := h
  obtain ⟨tss, hspellsItems, hatomItems⟩ := spells_renderList hitems
  have hwords := spells_negated negated hspells
    (.cons (.keyword .in_) (.cons (Spells.commas hspellsItems).parens .nil))
  simp only [List.flatten_cons, List.flatten_nil, List.append_nil, List.singleton_append] at hwords
  exact ⟨_, hwords, Parser.whole_inList hatom hatomItems hne⟩

/-- A name or a word, and parentheses behind it. -/
theorem spells_applied {ts us : List Token} {ds : List Char} (h : Spells cs ts) (hargs : Spells ds us) :
    Spells (cs ++ parens ds) (ts ++ .openParen :: (us ++ [.closeParen])) := by
  refine h.append hargs.parens (List.cons_ne_nil _ _) ?_
  rintro x ⟨⟩
  decide

theorem spellsAtom_call {name : String} {args : List Expression} (hname : name ≠ "")
    (hscalar : AggregateFunction.ofName? name = none)
    (hargs : ∀ x ∈ args, SpellsAtom (x.enclosed (x.render query)) x) :
    SpellsAtom (quotedText '"' name ++ parens (commas (renderList query args))) (.call name args) := by
  obtain ⟨tss, hspells, hatom⟩ := spells_renderList hargs
  exact ⟨_, spells_applied (.name hname) (.commas hspells), .call hscalar hatom⟩

/-! ## Casts, aggregates and case distinctions -/

theorem spellsAtom_cast {type : DataType} (h : SpellsAtom cs e) (htype : type.Legible) :
    SpellsAtom (Keyword.cast.text.toList ++ parens (spaced [cs, Keyword.as.text.toList, type.name.toList]))
      (.cast e type) := by
  obtain ⟨ts, hspells, hatom⟩ := h
  have hargs : Spells (spaced [cs, Keyword.as.text.toList, type.name.toList])
      (ts ++ .keyword .as :: type.tokens) :=
    spells_words (.cons hspells (.cons (.keyword .as) (.cons (DataType.spells_name htype) .nil))) (by simp)
  have hcast := spells_applied (.keyword .cast) hargs
  rw [List.append_assoc] at hcast
  exact ⟨_, hcast, hatom.cast htype⟩

theorem spellsAtom_countRows :
    SpellsAtom (quotedText '"' AggregateFunction.count.name ++ parens ['*']) (.aggregate .count false none) :=
  ⟨_, spells_applied (.name (by decide)) (.binaryOp .multiply), .countRows⟩

theorem spellsAtom_aggregate {f : AggregateFunction} {distinct : Bool} (h : SpellsAtom cs e) :
    SpellsAtom
      (quotedText '"' f.name ++
        parens (spaced ((if distinct then [Keyword.distinct.text.toList] else []) ++ [cs])))
      (.aggregate f distinct (some e)) := by
  obtain ⟨ts, hspells, hatom⟩ := h
  have hname : f.name ≠ "" := by cases f <;> decide
  have hargs : Spells (spaced ((if distinct then [Keyword.distinct.text.toList] else []) ++ [cs]))
      ((if distinct then [.keyword .distinct] else []) ++ ts) := by
    cases distinct
    · exact hspells
    · exact spells_words (.cons (.keyword .distinct) (.cons hspells .nil)) (by simp)
  have haggregate := spells_applied (.name hname) hargs
  rw [List.append_assoc] at haggregate
  exact ⟨_, haggregate, hatom.aggregate⟩

/-- An optional operand, with words in front of it. -/
theorem spells_renderOption {words : List (List Char)} {ws : List (List Token)}
    (hwords : List.Forall₂ Spells words ws) {o : Option Expression}
    (h : ∀ x ∈ o.toList, SpellsAtom (x.enclosed (x.render query)) x) :
    ∃ os : Option (List Token),
      List.Forall₂ Spells (renderOption query words o) (os.elim [] fun ts => ws ++ [ts]) ∧
      Option.Rel (fun ts x => Parser.Atom x ts) os o := by
  cases o with
  | none =>
    refine ⟨none, ?_, .none⟩
    rw [renderOption]
    exact .nil
  | some e =>
    obtain ⟨ts, hspells, hatom⟩ := h e (Option.mem_toList.mpr rfl)
    refine ⟨some ts, ?_, .some hatom⟩
    rw [renderOption]
    exact List.rel_append hwords (.cons hspells .nil)

theorem spells_renderBranches {branches : List (Expression × Expression)}
    (h : ∀ x ∈ branches.flatMap (fun b => [b.1, b.2]), SpellsAtom (x.enclosed (x.render query)) x) :
    ∃ (tss : List (List Token × List Token)) (wss : List (List Token)),
      List.Forall₂ Spells (renderBranches query branches) wss ∧ wss.flatten = Parser.branchTokens tss ∧
      List.Forall₂ (fun ts b => Parser.Atom b.1 ts.1 ∧ Parser.Atom b.2 ts.2) tss branches := by
  induction branches with
  | nil =>
    refine ⟨[], [], ?_, rfl, .nil⟩
    rw [renderBranches]
    exact .nil
  | cons b branches ih =>
    obtain ⟨condition, result⟩ := b
    rw [List.flatMap_cons, List.cons_append, List.cons_append, List.nil_append] at h
    obtain ⟨⟨cs, hcondition, hcs⟩, h⟩ := List.forall_mem_cons.mp h
    obtain ⟨⟨rs, hresult, hrs⟩, hbranches⟩ := List.forall_mem_cons.mp h
    obtain ⟨tss, wss, hspells, hflatten, hatoms⟩ := ih hbranches
    refine ⟨(cs, rs) :: tss, [.keyword .when] :: cs :: [.keyword .then_] :: rs :: wss, ?_, ?_,
      .cons ⟨hcs, hrs⟩ hatoms⟩
    · rw [renderBranches]
      exact .cons (.keyword .when) (.cons hcondition (.cons (.keyword .then_) (.cons hresult hspells)))
    · rw [Parser.branchTokens, List.flatMap_cons, ← Parser.branchTokens, ← hflatten]
      simp

theorem spellsAtom_cases {operand otherwise : Option Expression}
    {branches : List (Expression × Expression)} (hne : branches ≠ [])
    (h : ∀ x ∈ (Expr.cases operand branches otherwise).operands,
      SpellsAtom (x.enclosed (x.render query)) x) :
    SpellsAtom (spaced (Keyword.case_.text.toList :: renderOption query [] operand ++
      renderBranches query branches ++ renderOption query [Keyword.else_.text.toList] otherwise ++
      [Keyword.end_.text.toList])) (.cases operand branches otherwise) := by
  rw [operands, List.forall_mem_append, List.forall_mem_append] at h
  obtain ⟨hoperand, hbranches, hotherwise⟩ := h
  obtain ⟨os, hspells, hos⟩ := spells_renderOption .nil hoperand
  obtain ⟨tss, wss, hspells', hwss, htss⟩ := spells_renderBranches hbranches
  obtain ⟨ds, hspells'', hds⟩ := spells_renderOption (.cons (.keyword .else_) .nil) hotherwise
  have hwords := List.rel_append (List.rel_append (List.rel_append (.cons (.keyword .case_) hspells) hspells')
    hspells'') (.cons (.keyword .end_) .nil)
  refine ⟨_, spells_words hwords ?_, .cases hos htss hds hne⟩
  cases os <;> cases ds <;> simp [hwss, Parser.otherwiseTokens]

/-! ## Every expression -/

/-- A printable expression spells itself. Its operands do, so they are operands once they stand in
parentheses, and each form is put together of operands. -/
theorem spellsWhole_render (h : e.Printable) : SpellsWhole (e.render query) e := by
  induction e using induction_operands with
  | h e ih =>
    have hoperands : ∀ x ∈ e.operands, SpellsAtom (x.enclosed (x.render query)) x :=
      fun x hx => spellsAtom_enclosed (h.operand hx).form (ih x hx (h.operand hx))
    obtain ⟨hform, hquery, -⟩ := h.form
    cases e with
    | literal v => exact (spellsAtom_of_isPlain h.form rfl).whole
    | column table name => exact (spellsAtom_of_isPlain h.form rfl).whole
    | inQuery | exists_ | subquery => cases hquery
    | unary op e =>
      rw [render]
      exact spellsWhole_unary (hoperands e (by simp [operands]))
    | binary op l r =>
      rw [render]
      exact spellsWhole_binary (hoperands l (by simp [operands])) (hoperands r (by simp [operands]))
    | isNull e negated =>
      rw [render]
      exact spellsWhole_isNull (hoperands e (by simp [operands]))
    | inList e items negated =>
      rw [render]
      exact spellsWhole_inList (hoperands e (by simp [operands]))
        (fun x hx => hoperands x (List.mem_cons_of_mem e hx)) hform
    | between e low high negated =>
      rw [render]
      exact spellsWhole_between (hoperands e (by simp [operands])) (hoperands low (by simp [operands]))
        (hoperands high (by simp [operands]))
    | like e pattern negated ignoreCase =>
      rw [render]
      exact spellsWhole_like (hoperands e (by simp [operands])) (hoperands pattern (by simp [operands]))
    | cases operand branches otherwise =>
      rw [render]
      exact (spellsAtom_cases hform hoperands).whole
    | cast e type =>
      rw [render]
      exact (spellsAtom_cast (hoperands e (by simp [operands])) hform).whole
    | call name args =>
      rw [render]
      exact (spellsAtom_call hform.1 hform.2 hoperands).whole
    | aggregate f distinct arg =>
      cases arg with
      | none =>
        obtain ⟨rfl, rfl⟩ := hform
        rw [render]
        exact spellsAtom_countRows.whole
      | some e =>
        rw [render]
        exact (spellsAtom_aggregate (hoperands e (by simp [operands]))).whole

end Expr

/-! ## Reading again -/

theorem parseExpression_eq_ok_iff {text : String} {e : Expression} :
    parseExpression text = .ok e ↔
      ∃ c, StateT.run ((Parser.grammar ((Scan.ofString text).cursor.rest.length + 1)).expression 0)
        (Scan.ofString text).cursor = .ok (e, c) := by
  unfold parseExpression Parser.run Parser.withGrammar
  rw [Parser.run_get_bind]
  constructor
  · intro h
    obtain ⟨⟨_, c⟩, hrun, rfl⟩ := Except.exists_of_map_eq_ok h
    exact ⟨c, hrun⟩
  · rintro ⟨c, hrun⟩
    rw [hrun]
    rfl

/-- Reading an expression makes sure that it is legible. -/
theorem legible_of_parseExpression {text : String} {e : Expression} (h : parseExpression text = .ok e) :
    e.Legible := by
  obtain ⟨c, hrun⟩ := parseExpression_eq_ok_iff.mp h
  generalize hstart : (Scan.ofString text).cursor = start at hrun
  have hahead : Ahead ⟨[], start.failure, .inl rfl⟩ start start :=
    ⟨(List.append_nil _).symm, rfl, rfl, hstart ▸ lexed_cursor text⟩
  have hcarries := Grammar.carries (B := ⟨[], start.failure, .inl rfl⟩) (Nat.lt_succ_self start.rest.length)
    (Nat.lt_succ_self start.rest.length)
  obtain ⟨d, -, hlegible, -⟩ := hcarries.expression 0 start start hahead (Nat.le_refl _) e c hrun
  exact hlegible

/-- What is read from the tokens of a text. -/
theorem parseExpression_of_reads {cs : List Char} {ts : List Token} {e : Expression} (h : Lexeme.Lexes cs ts)
    (hreads : Parser.Reads ((Parser.grammar (ts.length + 1)).expression 0) ts [] e) :
    parseExpression (String.ofList cs) = .ok e := by
  obtain ⟨htokens, hfailure⟩ := Scan.ofString_of_lexes (s := String.ofList cs)
    (by rwa [String.toList_ofList])
  rw [← tokens_cursor] at htokens
  have hlength : ts.length = (Scan.ofString (String.ofList cs)).cursor.rest.length := by
    rw [← htokens, Parser.length_tokens]
  rw [hlength] at hreads
  obtain ⟨c, hrun, -⟩ := hreads _ hfailure (htokens.trans (List.append_nil ts).symm)
  exact parseExpression_eq_ok_iff.mpr ⟨c, hrun⟩

/-- An expression that a text spells is read from it. -/
theorem parseExpression_of_spells {cs : List Char} {e : Expression} (h : Lexeme.SpellsWhole cs e) :
    parseExpression (String.ofList cs) = .ok e := by
  obtain ⟨ts, hspells, hwhole⟩ := h
  refine parseExpression_of_reads hspells.lexes (hwhole.reads _ [] (by rintro t ⟨⟩) ?_)
  rw [List.append_nil]
  exact Nat.lt_succ_self _

/-- What is read from a text, without queries and floating-point numbers, is read again when it is written
out. -/
theorem parseExpression_render (query : Select → List Char) {text : String} {e : Expression}
    (h : parseExpression text = .ok e) (hqueries : e.queries = [])
    (hfloats : e.subexpressions.any Expr.isFloatLiteral = false) :
    parseExpression (String.ofList (e.render query)) = .ok e := by
  have hlegible := legible_of_parseExpression h
  have hquery := List.filterMap_eq_nil_iff.mp hqueries
  have hfloat := List.any_eq_false.mp hfloats
  exact parseExpression_of_spells (Expr.spellsWhole_render fun x hx =>
    ⟨hlegible x hx, hquery x hx, Bool.eq_false_iff.mpr (hfloat x hx)⟩)

/-- A text with few parentheses, and how it is written out. -/
theorem parseExpression_render_parens :
    ∃ e, parseExpression "NOT a IN ('it''s', -2.50) OR CASE WHEN b THEN c::decimal END" = .ok e ∧
      e.queries = [] ∧ e.subexpressions.any Expr.isFloatLiteral = false ∧
      String.ofList (e.render fun _ => []) =
        "((NOT \"a\") IN ('it''s', (- 2.50))) OR (CASE WHEN \"b\" THEN (CAST(\"c\" AS numeric)) END)" ∧
      parseExpression (String.ofList (e.render fun _ => [])) = .ok e := by
  obtain ⟨e, he, hchecks⟩ := exists_ok_of_any
    (r := parseExpression "NOT a IN ('it''s', -2.50) OR CASE WHEN b THEN c::decimal END")
    (p := fun e => e.queries.isEmpty && !e.subexpressions.any Expr.isFloatLiteral &&
      String.ofList (e.render fun _ => []) ==
        "((NOT \"a\") IN ('it''s', (- 2.50))) OR (CASE WHEN \"b\" THEN (CAST(\"c\" AS numeric)) END)")
    (by decide +kernel)
  rw [Bool.and_eq_true, Bool.and_eq_true, List.isEmpty_iff, Bool.not_eq_true', beq_iff_eq] at hchecks
  obtain ⟨⟨hqueries, hfloats⟩, htext⟩ := hchecks
  exact ⟨e, he, hqueries, hfloats, htext, parseExpression_render _ he hqueries hfloats⟩

end SqlStore
