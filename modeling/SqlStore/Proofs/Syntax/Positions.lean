import SqlStore.Proofs.Syntax.Batches
import SqlStore.Proofs.Syntax.Cutting

/-!
# Where reading fails

Every failure of reading is at the end of the text, at a token, or at what stopped the scan. A reader fails at the
token that it took last, at the next one, or behind them all; it remembers the position of a token as soon as one
was taken, and no reader fails at a remembered position before. So this is shown of every reader, with what it
needs and leaves.
-/

namespace SqlStore

/-! ## Rules for readers -/

namespace Scan

/-- The end of the text, or the offset of a token. -/
def Place (S : Scan) (i : Nat) : Prop := i = S.finish ∨ i ∈ S.tokens.map Placed.offset

/-- A failure of reading at such a place, or what stopped the scan. -/
def Points (S : Scan) (e : Error) : Prop :=
  ∀ message i, e = .parse message i → S.Place i ∨ S.failure = some e

end Scan

/-- The cursor stands in the scan, and if a token was taken, its position is that of a token. -/
structure Cursor.Within (S : Scan) (started : Bool) (c : Cursor) : Prop where
  rest : c.rest <:+ S.tokens
  failure : c.failure = S.failure
  finish : c.finish = S.finish
  position : started = true → c.position ∈ S.tokens.map Placed.offset

/-- A failure that points into the text, or a result with the cursor in the scan. -/
def Scan.Admits {α : Type} (S : Scan) (started : Bool) : Except Error (α × Cursor) → Prop
  | .error e => S.Points e
  | .ok r => r.2.Within S started

/-- Where the reader fails, it points into the text. `b` says whether a token was taken in front of it, and `b'`
whether one was taken behind it. -/
def Parser.Points {α : Type} (S : Scan) (b b' : Bool) (p : Parser α) : Prop :=
  ∀ c : Cursor, c.Within S b → S.Admits b' (StateT.run p c)

section

variable {S : Scan} {b b' b'' : Bool} {c : Cursor}

theorem Cursor.Within.relax (h : c.Within S true) : c.Within S b :=
  ⟨h.rest, h.failure, h.finish, fun _ => h.position rfl⟩

theorem Cursor.Within.place (h : c.Within S b) {p : Placed} {rest : List Placed} (hc : c.rest = p :: rest) :
    p.offset ∈ S.tokens.map Placed.offset :=
  List.mem_map_of_mem (h.rest.subset (hc ▸ List.mem_cons_self))

/-- The next token is taken. -/
theorem Cursor.Within.take (h : c.Within S b) {p : Placed} {rest : List Placed} (hc : c.rest = p :: rest) :
    Cursor.Within S b' { c with rest, position := p.offset } :=
  ⟨(List.suffix_cons p rest).trans (hc ▸ h.rest), h.failure, h.finish, fun _ => h.place hc⟩

theorem Cursor.within_cursor (S : Scan) : S.cursor.Within S false :=
  ⟨List.suffix_refl _, rfl, rfl, Bool.false_ne_true.elim⟩

namespace Parser.Points

variable {α β : Type} {p : Parser α} {f : α → Parser β} {i : Nat} {message : String}

theorem relax (h : Points S b true p) : Points S b b' p := by
  intro c hc
  have hrun := h c hc
  cases hresult : StateT.run p c with
  | error e => rwa [hresult] at hrun
  | ok r =>
    rw [hresult] at hrun
    exact Cursor.Within.relax hrun

theorem pure {a : α} : Points S b b (pure a) := fun _ hc => hc

theorem bind (h : Points S b b' p) (hf : ∀ a, Points S b' b'' (f a)) : Points S b b'' (p >>= f) := by
  intro c hc
  have hrun := h c hc
  cases hresult : StateT.run p c with
  | error e =>
    rw [hresult] at hrun
    rw [StateT.run_bind, hresult]
    exact hrun
  | ok r =>
    rw [hresult] at hrun
    rw [run_bind_of_ok hresult]
    exact hf r.1 r.2 hrun

theorem map {k : α → β} (h : Points S b b' p) : Points S b b' (k <$> p) := by
  rw [map_eq_pure_bind]
  exact h.bind fun _ => pure

theorem get_bind {f : Cursor → Parser β} (h : ∀ c, c.finish = S.finish → Points S b b' (f c)) :
    Points S b b' (get >>= f) := fun c hc => h c hc.finish c hc

theorem throw_internal : Points S b b' (throw (.internal message) : Parser α) := by
  rintro c - _ _ ⟨⟩

theorem failAt (h : S.Place i) : Points S b b' (failAt i message : Parser α) := by
  rintro c - _ _ ⟨⟩
  exact .inl h

theorem position_bind {f : Nat → Parser β} (h : ∀ i, S.Place i → Points S true b' (f i)) :
    Points S true b' (position >>= f) := fun c hc => h _ (.inr (hc.position rfl)) c hc

theorem peekPosition_bind {f : Nat → Parser β} (h : ∀ i, S.Place i → Points S b b' (f i)) :
    Points S b b' (peekPosition >>= f) := by
  intro c hc
  refine h _ ?_ c hc
  rcases c.rest_cases with hrest | ⟨p, rest, hrest⟩ <;> rw [hrest]
  · exact .inl hc.finish
  · exact .inr (hc.place hrest)

theorem fail : Points S true b' (fail message : Parser α) := position_bind fun _ hi => failAt hi

theorem unexpected {t : Token} : Points S true b' (unexpected t : Parser α) := fail

theorem unexpectedWord {w : String} : Points S true b' (unexpectedWord w : Parser α) := fail

/-! ### The next token -/

theorem next : Points S b true next := by
  intro c hc
  rcases c.rest_cases with hrest | ⟨p, rest, hrest⟩
  · rw [Parser.next, run_get_bind, hrest]
    cases hfailure : c.failure with
    | none => exact failAt (.inl hc.finish) c hc
    | some e => exact fun _ _ _ => .inr (hc.failure ▸ hfailure)
  · rw [run_next hrest]
    exact hc.take hrest

theorem peek : Points S b b peek := by
  intro c hc
  rcases c.rest_cases with hrest | ⟨p, rest, hrest⟩
  · rw [Parser.peek, run_get_bind, hrest]
    cases hfailure : c.failure with
    | none => exact hc
    | some e => exact fun _ _ _ => .inr (hc.failure ▸ hfailure)
  · rw [Parser.peek, run_get_bind, hrest]
    exact hc

theorem peekAt (n : Nat) : Points S b b (peekAt n) := get_bind fun _ _ => pure

theorem take? (t : Token) : Points S b b (take? t) := by
  intro c hc
  by_cases htaken : ∃ p rest, c.rest = p :: rest ∧ p.token = t
  · obtain ⟨p, rest, hrest, hp⟩ := htaken
    rw [run_take?_of_eq hrest hp]
    exact hc.take hrest
  · rw [run_take?_of_ne fun p rest hrest hp => htaken ⟨p, rest, hrest, hp⟩]
    exact hc

theorem takeKeyword? (k : Keyword) : Points S b b (takeKeyword? k) := take? _

theorem takeWord? (w : String) : Points S b b (takeWord? w) := take? _

theorem takeWhen? (condition : Bool) (t : Token) : Points S b b (takeWhen? condition t) := by
  unfold Parser.takeWhen?
  split
  · exact take? t
  · exact pure

theorem expect (t : Token) : Points S b true (expect t) := by
  refine next.bind fun found => ?_
  split
  · exact fail
  · exact pure

theorem expectKeyword (k : Keyword) : Points S b true (expectKeyword k) := expect _

theorem ident : Points S b true ident := by
  refine next.bind fun t => ?_
  split
  · exact pure
  · split
    · exact fail
    · exact pure
  · exact fail

theorem expectWord (w : String) : Points S b true (expectWord w) := by
  refine ident.bind fun found => ?_
  split
  · exact unexpectedWord
  · exact pure

/-! ### Lists -/

theorem commaListFrom {item : Parser α} (h : Points S true true item) (fuel : Nat) :
    Points S true true (commaListFrom item fuel) := by
  induction fuel with
  | zero => exact pure
  | succ fuel ih =>
    refine h.bind fun x => (take? _).bind fun taken => ?_
    split
    · exact ih.bind fun _ => pure
    · exact pure

theorem commaList {item : Parser α} (h : Points S true true item) : Points S true true (commaList item) :=
  get_bind fun _ _ => commaListFrom h _

theorem closedListFrom {item : Parser α} (h : Points S true true item) (fuel : Nat) :
    Points S true true (closedListFrom item fuel) := by
  induction fuel with
  | zero => exact pure
  | succ fuel ih =>
    refine h.bind fun x => next.bind fun t => ?_
    split
    · exact pure
    · exact ih.bind fun _ => pure
    · exact unexpected

theorem closedList {item : Parser α} (h : Points S true true item) : Points S true true (closedList item) :=
  get_bind fun _ _ => closedListFrom h _

/-! ### Types -/

theorem typeWords (first : String) : Points S true true (typeWords first) := by
  have hword : ∀ w long, Points S true true
      (do if ← Parser.takeWord? w then return long else return first) := by
    refine fun w long => (takeWord? w).bind fun taken => ?_
    split <;> exact pure
  have hzone : ∀ word : String, Points S true true
      (do
        Parser.expectWord "time"
        Parser.expectWord "zone"
        return first ++ " " ++ word ++ " time zone") :=
    fun word => (expectWord "time").bind fun _ => (expectWord "zone").bind fun _ => pure
  unfold Parser.typeWords
  split
  · exact hword _ _
  · split
    · exact hword _ _
    · split
      · refine (takeWord? _).bind fun taken => ?_
        split
        · exact hzone _
        · refine (takeWord? _).bind fun taken => ?_
          split
          · exact hzone _
          · exact pure
      · exact pure

theorem typeArgsFrom (fuel : Nat) : Points S true true (typeArgsFrom fuel) := by
  induction fuel with
  | zero => exact pure
  | succ fuel ih =>
    have hrest : ∀ n : Nat, Points S true true
        (do
          if ← Parser.take? .comma then return n :: (← Parser.typeArgsFrom fuel)
          else
            Parser.expect .closeParen
            return [n]) := by
      refine fun n => (take? _).bind fun taken => ?_
      split
      · exact ih.bind fun _ => pure
      · exact (expect _).bind fun _ => pure
    refine next.bind fun t => ?_
    dsimp only
    split
    · split
      · exact pure.bind hrest
      · exact fail.bind hrest
    · exact unexpected.bind hrest

theorem typeName : Points S b true typeName := by
  unfold Parser.typeName
  refine peekPosition_bind fun i hi => ident.bind fun first => (typeWords first).bind fun name => ?_
  refine (take? _).bind fun taken => ?_
  extract_lets rest
  -- a name that is no type is reported where it began, which was seen before anything was taken
  have hrest : ∀ args, Points S true true (rest args) := by
    intro args
    dsimp only [rest]
    split
    · exact pure
    · exact failAt hi
  split
  · exact get_bind fun _ _ => (typeArgsFrom _).bind hrest
  · exact pure.bind hrest

end Parser.Points

/-! ## Expressions -/

/-- The readers of a grammar point into the text. -/
structure Grammar.Points (S : Scan) (g : Grammar) : Prop where
  expression : ∀ b least, Parser.Points S b true (g.expression least)
  select : ∀ b, Parser.Points S b true g.select

namespace Parser.Points

variable {g : Grammar}

theorem branchesFrom (hg : g.Points S) (fuel : Nat) : Points S true true (branchesFrom g fuel) := by
  induction fuel with
  | zero => exact pure
  | succ fuel ih =>
    unfold Parser.branchesFrom
    refine (takeKeyword? _).bind fun taken => ?_
    split
    · refine (hg.expression _ 0).bind fun condition => (expectKeyword _).bind fun _ => ?_
      exact (hg.expression _ 0).bind fun result => ih.bind fun _ => pure
    · exact pure

theorem caseExpression (hg : g.Points S) : Points S true true (caseExpression g) := by
  unfold Parser.caseExpression
  refine peek.bind fun t => ?_
  extract_lets rest
  have hrest : ∀ operand, Points S true true (rest operand) := by
    refine fun operand => get_bind fun _ _ => (branchesFrom hg _).bind fun branches => ?_
    extract_lets done behind
    have hdone : ∀ otherwise, Points S true true (done otherwise) :=
      fun otherwise => (expectKeyword _).bind fun _ => pure
    have hbehind : Points S true true (behind ()) := by
      refine (takeKeyword? _).bind fun taken => ?_
      split
      · exact (hg.expression _ 0).map.bind hdone
      · exact pure.bind hdone
    split
    · exact peekPosition_bind fun i hi => (failAt hi).bind fun _ => hbehind
    · exact hbehind
  split
  · exact pure.bind hrest
  · exact (hg.expression _ 0).map.bind hrest

theorem callArgs (hg : g.Points S) (name : String) : Points S true true (callArgs g name) := by
  unfold Parser.callArgs
  split
  · refine (takeWhen? _ _).bind fun taken => ?_
    split
    · exact (expect _).bind fun _ => pure
    · refine (takeKeyword? _).bind fun distinct => ?_
      extract_lets rest
      have hrest : Points S true true (rest ()) :=
        (hg.expression _ 0).bind fun arg => (expect _).bind fun _ => pure
      split
      · exact (takeKeyword? _).bind fun _ => hrest
      · exact hrest
  · refine (take? _).bind fun taken => ?_
    split
    · exact pure
    · exact (closedList (hg.expression _ 0)).bind fun _ => pure

theorem nameExpression (hg : g.Points S) (name : String) : Points S true true (nameExpression g name) := by
  unfold Parser.nameExpression
  refine (take? _).bind fun taken => ?_
  split
  · exact callArgs hg name
  · refine (take? _).bind fun taken => ?_
    split
    · exact ident.bind fun _ => pure
    · refine peek.bind fun t => ?_
      split
      · exact next.bind fun _ => pure
      · split <;> exact pure

theorem closedSelect (hg : g.Points S) : Points S true true (closedSelect g) :=
  (hg.select _).bind fun _ => (expect _).bind fun _ => pure

theorem atom (hg : g.Points S) : Points S b true (atom g) := by
  refine next.bind fun t => ?_
  split
  · split
    · exact pure
    · exact fail
  · exact pure
  · exact pure
  · exact pure
  · exact pure
  · refine peek.bind fun t => ?_
    split
    · exact (closedSelect hg).bind fun _ => pure
    · exact (hg.expression _ 0).bind fun _ => (expect _).bind fun _ => pure
  · exact (expect _).bind fun _ => (closedSelect hg).bind fun _ => pure
  · exact caseExpression hg
  · refine (expect _).bind fun _ => (hg.expression _ 0).bind fun e => (expectKeyword _).bind fun _ => ?_
    exact typeName.bind fun type => (expect _).bind fun _ => pure
  · exact nameExpression hg _
  · split
    · exact fail
    · exact nameExpression hg _
  · exact fail

/-- `NOT` in front of the word of an operator. -/
theorem negation {negated : Bool} {q : Parser β} (h : Points S true true q) :
    Points S true true (if negated = true then Parser.next >>= fun _ => q else q) := by
  split
  · exact next.bind fun _ => h
  · exact h

theorem postfixExpression (hg : g.Points S) (e : Expression) (op : PostfixOp) :
    Points S true true (postfixExpression g e op) := by
  cases op with
  | isNull =>
    exact next.bind fun _ => (takeKeyword? _).bind fun negated => (expectKeyword _).bind fun _ => pure
  | membership negated =>
    refine negation (next.bind fun _ => (expect _).bind fun _ => peek.bind fun t => ?_)
    split
    · exact (closedSelect hg).bind fun _ => pure
    · exact (closedList (hg.expression _ 0)).bind fun _ => pure
  | between negated =>
    refine negation (next.bind fun _ => (hg.expression _ _).bind fun low => (expectKeyword _).bind fun _ => ?_)
    exact (hg.expression _ _).bind fun high => pure
  | like negated => exact negation (next.bind fun word => (hg.expression _ _).bind fun pattern => pure)
  | cast => exact next.bind fun _ => typeName.bind fun type => pure

theorem peekPostfix : Points S b b peekPostfix := by
  refine peek.bind fun t => ?_
  split
  · exact pure
  · exact pure
  · exact (peekAt 1).bind fun _ => pure
  · exact pure
  · exact pure

theorem operatorsFrom (hg : g.Points S) (least fuel : Nat) (e : Expression) :
    Points S true true (operatorsFrom g least fuel e) := by
  induction fuel generalizing e with
  | zero => exact pure
  | succ fuel ih =>
    unfold Parser.operatorsFrom
    refine peekPostfix.bind fun op => ?_
    split
    · split
      · exact pure
      · exact (postfixExpression hg e _).bind ih
    · refine peek.bind fun t => ?_
      split
      · exact pure
      · split
        · exact pure
        · exact next.bind fun _ => (hg.expression _ _).bind fun right => ih _

theorem expressionFrom (hg : g.Points S) (least : Nat) : Points S b true (expressionFrom g least) := by
  unfold Parser.expressionFrom
  refine peek.bind fun t => ?_
  extract_lets rest
  have hrest : ∀ e, Points S true true (rest e) := fun e => get_bind fun _ _ => operatorsFrom hg least _ e
  split
  · exact next.bind fun _ => (hg.expression _ _).bind fun e => pure.bind hrest
  · exact (atom hg).bind hrest

/-! ## Queries -/

theorem label? : Points S true true label? := by
  unfold Parser.label?
  refine (takeKeyword? _).bind fun taken => ?_
  split
  · exact ident.bind fun _ => pure
  · refine peek.bind fun t => ?_
    split
    · exact ident.bind fun _ => pure
    · exact pure

theorem objectName : Points S b true objectName := by
  unfold Parser.objectName
  refine ident.bind fun first => (take? _).bind fun taken => ?_
  split
  · exact ident.bind fun _ => pure
  · exact pure

theorem selectItem (hg : g.Points S) : Points S true true (selectItem g) := by
  unfold Parser.selectItem
  refine (take? _).bind fun taken => ?_
  split
  · exact pure
  · refine peek.bind fun t => (peekAt 1).bind fun u => (peekAt 2).bind fun v => ?_
    split
    · exact ident.bind fun _ => next.bind fun _ => next.bind fun _ => pure
    · exact (hg.expression _ 0).bind fun _ => label?.bind fun _ => pure

theorem orderItem (hg : g.Points S) : Points S true true (orderItem g) := by
  unfold Parser.orderItem
  refine (hg.expression _ 0).bind fun e => (takeKeyword? _).bind fun descending => ?_
  extract_lets done nulls
  have hdone : ∀ nullsFirst, Points S true true (done nullsFirst) := fun nullsFirst => pure
  have hnulls : Points S true true (nulls ()) := by
    refine (takeKeyword? _).bind fun taken => ?_
    split
    · refine next.bind fun t => ?_
      split
      · exact pure.bind hdone
      · exact pure.bind hdone
      · exact unexpected.bind hdone
    · exact pure.bind hdone
  split
  · exact (takeKeyword? _).bind fun _ => hnulls
  · exact hnulls

theorem fromTable (hg : g.Points S) : Points S true true (fromTable g) := by
  unfold Parser.fromTable
  refine (take? _).bind fun taken => ?_
  split
  · exact (closedSelect hg).bind fun _ => label?.bind fun _ => pure
  · exact objectName.bind fun _ => label?.bind fun _ => pure

theorem joinWords : Points S true true joinWords := by
  unfold Parser.joinWords
  refine peek.bind fun t => ?_
  split
  · exact pure
  · refine next.bind fun word => ?_
    have hjoin : ∀ kind : JoinKind, Points S true true (do Parser.expectKeyword .join; return some kind) :=
      fun kind => (expectKeyword _).bind fun _ => pure
    dsimp only
    split
    · split
      · exact (takeKeyword? _).bind fun _ => hjoin _
      · exact hjoin _
    · exact pure

theorem identList : Points S true true identList := (expect _).bind fun _ => closedList ident

theorem joinCondition (hg : g.Points S) (natural : Bool) (kind : JoinKind) :
    Points S true true (joinCondition g natural kind) := by
  unfold Parser.joinCondition
  split
  · dsimp only
    split
    · exact fail.bind fun _ => pure
    · exact pure
  · split
    · exact pure
    · refine (takeKeyword? _).bind fun on => ?_
      split
      · exact (hg.expression _ 0).bind fun _ => pure
      · refine (takeKeyword? _).bind fun using_ => ?_
        split
        · exact identList.bind fun _ => pure
        · exact peekPosition_bind fun i hi => failAt hi

theorem joinsFrom (hg : g.Points S) (fuel : Nat) (left : FromItem Select) :
    Points S true true (joinsFrom g fuel left) := by
  induction fuel generalizing left with
  | zero => exact pure
  | succ fuel ih =>
    unfold Parser.joinsFrom
    refine (takeKeyword? _).bind fun natural => joinWords.bind fun words => ?_
    split
    · split
      · exact next.bind fun _ => unexpected
      · exact pure
    · exact (fromTable hg).bind fun right => (joinCondition hg natural _).bind fun condition => ih _

theorem fromItem (hg : g.Points S) : Points S true true (fromItem g) :=
  (fromTable hg).bind fun _ => get_bind fun _ _ => joinsFrom hg _ _

theorem filter? (hg : g.Points S) : Points S true true (filter? g) := by
  refine (takeKeyword? _).bind fun taken => ?_
  split
  · exact (hg.expression _ 0).map
  · exact pure

theorem boundsFrom (hg : g.Points S) (fuel : Nat) (limit offset : Option Expression) :
    Points S true true (boundsFrom g fuel limit offset) := by
  induction fuel generalizing limit offset with
  | zero => exact pure
  | succ fuel ih =>
    unfold Parser.boundsFrom
    refine (takeWhen? _ _).bind fun limited => ?_
    split
    · refine (takeKeyword? _).bind fun all => ?_
      split
      · exact ih _ _
      · exact (hg.expression _ 0).bind fun _ => ih _ _
    · refine (takeWhen? _ _).bind fun moved => ?_
      split
      · refine (hg.expression _ 0).bind fun e => ?_
        extract_lets rest
        have hrest : Points S true true (rest ()) := ih _ _
        refine (takeWord? _).bind fun rows => ?_
        split
        · exact (takeWord? _).bind fun _ => hrest
        · exact hrest
      · exact pure

theorem selectFrom (hg : g.Points S) : Points S b true (selectFrom g) := by
  unfold Parser.selectFrom
  refine (expectKeyword _).bind fun _ => (takeKeyword? _).bind fun distinct => ?_
  -- each clause is read in front of all that follow
  extract_lets rest
  have hrest : Points S true true (rest ()) := by
    refine (commaList (selectItem hg)).bind fun items => (takeKeyword? _).bind fun from_ => ?_
    extract_lets behindFrom
    have hbehindFrom : ∀ sources, Points S true true (behindFrom sources) := by
      refine fun sources => (filter? hg).bind fun filter => (takeKeyword? _).bind fun group => ?_
      extract_lets behindGroup
      have hbehindGroup : ∀ keys, Points S true true (behindGroup keys) := by
        refine fun keys => (takeKeyword? _).bind fun having_ => ?_
        extract_lets behindHaving
        have hbehindHaving : ∀ having_, Points S true true (behindHaving having_) := by
          refine fun having_ => (takeKeyword? _).bind fun order => ?_
          extract_lets behindOrder
          have hbehindOrder : ∀ keys, Points S true true (behindOrder keys) :=
            fun keys => get_bind fun _ _ => (boundsFrom hg _ _ _).bind fun bounds => pure
          split
          · exact (expectKeyword _).bind fun _ => (commaList (orderItem hg)).bind hbehindOrder
          · exact pure.bind hbehindOrder
        split
        · exact (hg.expression _ 0).map.bind hbehindHaving
        · exact pure.bind hbehindHaving
      split
      · exact (expectKeyword _).bind fun _ => (commaList (hg.expression _ 0)).bind hbehindGroup
      · exact pure.bind hbehindGroup
    split
    · exact (commaList (fromItem hg)).bind hbehindFrom
    · exact pure.bind hbehindFrom
  split
  · exact (takeKeyword? _).bind fun _ => hrest
  · exact hrest

end Parser.Points

/-- Every level of the grammar points into the text. -/
theorem Grammar.points (S : Scan) (levels : Nat) : (Parser.grammar levels).Points S := by
  induction levels with
  | zero => exact ⟨fun _ _ => Parser.Points.throw_internal, fun _ => Parser.Points.throw_internal⟩
  | succ levels ih => exact ⟨fun _ least => Parser.Points.expressionFrom ih least, fun _ => Parser.Points.selectFrom ih⟩

namespace Parser.Points

/-! ## Statements -/

theorem withGrammar {p : Grammar → Parser α} (h : ∀ g : Grammar, g.Points S → Points S b b' (p g)) :
    Points S b b' (withGrammar p) := get_bind fun _ _ => h _ (Grammar.points S _)

theorem ifNotExists : Points S true true ifNotExists := by
  refine (takeKeyword? _).bind fun taken => ?_
  split
  · exact (expectKeyword _).bind fun _ => (expectKeyword _).bind fun _ => pure
  · exact pure

theorem ifExists : Points S true true ifExists := by
  refine (takeKeyword? _).bind fun taken => ?_
  split
  · exact (expectKeyword _).bind fun _ => pure
  · exact pure

theorem constraintsFrom (hg : g.Points S) (fuel : Nat) (column : ColumnSpec) :
    Points S true true (constraintsFrom g fuel column) := by
  induction fuel generalizing column with
  | zero => exact pure
  | succ fuel ih =>
    unfold Parser.constraintsFrom
    refine peek.bind fun t => ?_
    split
    · exact next.bind fun _ => ih _
    · exact next.bind fun _ => (expectKeyword _).bind fun _ => ih _
    · exact next.bind fun _ => (hg.expression _ 0).bind fun _ => ih _
    · exact next.bind fun _ => (expectKeyword _).bind fun _ => ih _
    · exact next.bind fun _ => ih _
    · exact pure

theorem columnSpec (hg : g.Points S) : Points S true true (columnSpec g) :=
  ident.bind fun _ => typeName.bind fun _ => get_bind fun _ _ => constraintsFrom hg _ _

theorem createStatement (hg : g.Points S) : Points S b true (createStatement g) := by
  refine (expectKeyword _).bind fun _ => next.bind fun t => ?_
  split
  · refine ifNotExists.bind fun _ => objectName.bind fun _ => (expect _).bind fun _ => ?_
    exact (commaList (columnSpec hg)).bind fun _ => (expect _).bind fun _ => pure
  · exact ifNotExists.bind fun _ => ident.bind fun _ => pure
  · exact unexpected

theorem dropStatement : Points S b true dropStatement := by
  refine (expectKeyword _).bind fun _ => next.bind fun t => ?_
  split
  · exact ifExists.bind fun _ => (commaList objectName).bind fun _ => pure
  · exact ifExists.bind fun _ => ident.bind fun _ => pure
  · exact unexpected

theorem insertValue (hg : g.Points S) : Points S true true (insertValue g) := by
  refine (takeKeyword? _).bind fun taken => ?_
  split
  · exact pure
  · exact (hg.expression _ 0).map

theorem insertRow (hg : g.Points S) : Points S true true (insertRow g) :=
  (expect _).bind fun _ => closedList (insertValue hg)

theorem insertStatement (hg : g.Points S) : Points S b true (insertStatement g) := by
  unfold Parser.insertStatement
  refine (expectKeyword _).bind fun _ => (expectKeyword _).bind fun _ => objectName.bind fun table => ?_
  refine peek.bind fun t => ?_
  extract_lets rest
  have hrest : ∀ columns, Points S true true (rest columns) := by
    refine fun columns => peek.bind fun t => ?_
    split
    · exact (hg.select _).bind fun _ => pure
    · exact (expectKeyword _).bind fun _ => (commaList (insertRow hg)).bind fun _ => pure
  split
  · exact identList.map.bind hrest
  · exact pure.bind hrest

theorem assignmentsFrom (hg : g.Points S) (fuel : Nat) (done : List (String × Expression)) :
    Points S true true (assignmentsFrom g fuel done) := by
  induction fuel generalizing done with
  | zero => exact pure
  | succ fuel ih =>
    unfold Parser.assignmentsFrom
    refine ident.bind fun column => position_bind fun i hi => (expect _).bind fun _ => ?_
    refine (hg.expression _ 0).bind fun e => ?_
    extract_lets assigned rest
    have hrest : Points S true true (rest ()) := by
      refine (take? _).bind fun taken => ?_
      split
      · exact ih _
      · exact pure
    split
    · exact (failAt hi).bind fun _ => hrest
    · exact hrest

theorem updateStatement (hg : g.Points S) : Points S b true (updateStatement g) := by
  refine (expectKeyword _).bind fun _ => objectName.bind fun table => label?.bind fun label => ?_
  refine (expectKeyword _).bind fun _ => get_bind fun _ _ => (assignmentsFrom hg _ _).bind fun _ => ?_
  exact (filter? hg).bind fun _ => pure

theorem deleteStatement (hg : g.Points S) : Points S b true (deleteStatement g) := by
  refine (expectKeyword _).bind fun _ => (expectKeyword _).bind fun _ => objectName.bind fun table => ?_
  exact label?.bind fun label => (filter? hg).bind fun _ => pure

theorem isolationLevel : Points S true true isolationLevel := by
  refine ident.bind fun word => ?_
  split
  · refine ident.bind fun word => ?_
    split
    · exact pure
    · exact pure
    · exact unexpectedWord
  · exact (expectWord _).bind fun _ => pure
  · exact pure
  · exact unexpectedWord

theorem beginStatement : Points S b true beginStatement := by
  unfold Parser.beginStatement
  refine next.bind fun t => ?_
  extract_lets rest
  have hrest : Points S true true (rest ()) := by
    refine (takeKeyword? _).bind fun taken => ?_
    split
    · exact (expectKeyword _).bind fun _ => isolationLevel.bind fun _ => pure
    · exact pure
  split
  · exact (expectKeyword _).bind fun _ => hrest
  · exact (takeKeyword? _).bind fun _ => hrest

theorem endStatement (s : Statement) : Points S b true (endStatement s) :=
  next.bind fun _ => (takeKeyword? _).bind fun _ => pure

theorem statement (hg : g.Points S) : Points S b true (statement g) := by
  unfold Parser.statement
  refine peek.bind fun t => ?_
  split
  · exact createStatement hg
  · exact dropStatement
  · exact (hg.select _).bind fun _ => pure
  · exact insertStatement hg
  · exact updateStatement hg
  · exact deleteStatement hg
  · exact beginStatement
  · exact beginStatement
  · exact endStatement _
  · exact endStatement _
  · exact endStatement _
  · exact peekPosition_bind fun i hi => failAt hi
  · exact get_bind fun c hfinish => failAt (.inl hfinish)

theorem semicolons (fuel : Nat) : Points S b b (semicolons fuel) := by
  induction fuel with
  | zero => exact pure
  | succ fuel ih =>
    refine (take? _).bind fun taken => ?_
    split
    · exact ih
    · exact pure

theorem statementsFrom (fuel : Nat) : Points S b b (statementsFrom fuel) := by
  induction fuel generalizing b with
  | zero => exact pure
  | succ fuel ih =>
    unfold Parser.statementsFrom
    refine get_bind fun _ _ => (semicolons _).bind fun _ => peek.bind fun t => ?_
    split
    · exact pure
    · -- a statement takes a token, so behind it nothing depends on `b`
      refine (withGrammar fun g hg => statement hg).bind fun s => relax (peek.bind fun t => ?_)
      extract_lets rest
      have hrest : Points S true true (rest ()) := ih.bind fun _ => pure
      split
      · exact hrest
      · exact hrest
      · exact peekPosition_bind fun i hi => (failAt hi).bind fun _ => hrest

end Parser.Points

end

/-- A failing run from the start of a text points into it. -/
theorem Parser.points_run {α : Type} {p : Parser α} {text : String} {b : Bool} {e : Error}
    (h : ∀ S, Parser.Points S false b p) (hrun : p.run text = .error e) : (Scan.ofString text).Points e := by
  unfold Parser.run at hrun
  cases hresult : StateT.run p (Scan.ofString text).cursor with
  | ok r =>
    rw [hresult] at hrun
    cases hrun
  | error e' =>
    rw [hresult] at hrun
    cases hrun
    have hadmits := h _ _ (Cursor.within_cursor (Scan.ofString text))
    rwa [hresult] at hadmits

/-- The offsets of the tokens of a text ascend: it is cut into these tokens up to its end, or up to a text that
begins with no token. Reading statements or an expression from it fails, if with a position, at the end of the
text, at a token, or there where cutting stopped. -/
theorem parse_points (text : String) :
    ∃ rest, Lexeme.Cut text.length text.toList (Scan.ofString text).tokens rest ∧
      (rest = [] ∨ Lexeme.Malformed rest) ∧
      ((Scan.ofString text).tokens.map Placed.offset).Pairwise (· < ·) ∧
      ∀ message position, parseStatements text = .error (.parse message position) ∨
          parseExpression text = .error (.parse message position) →
        position = text.length ∨ position ∈ (Scan.ofString text).tokens.map Placed.offset ∨
          (Lexeme.Malformed rest ∧ position = text.length - rest.length) := by
  have hlength : text.toList.length = text.length := String.length_toList
  have hscan : Scan.ofString text = Lexeme.scanFrom text.length (text.length + 1) text.toList := by
    rw [← hlength]
    rfl
  have hfinish : (Scan.ofString text).finish = text.length := by
    rw [hscan]
    exact Lexeme.finish_scanFrom _ _ _
  obtain ⟨rest, hcut, hend⟩ := @Lexeme.cut_scanFrom text.length (text.length + 1) text.toList
    (Nat.lt_succ_of_le hlength.le)
  rw [← hscan] at hcut hend
  refine ⟨rest, hcut, ?_, (hcut.ascending hlength.le).1, fun message position hfails => ?_⟩
  · exact hend.imp And.right fun ⟨_, _, hmalformed⟩ => hmalformed
  · have hpoints : (Scan.ofString text).Points (.parse message position) := by
      rcases hfails with hfails | hfails
      · exact Parser.points_run (fun S => .get_bind fun _ _ => .statementsFrom _) hfails
      · exact Parser.points_run (fun S => .withGrammar fun g hg => hg.expression false 0) hfails
    -- the end of the text, a token, or what stopped the scan
    rcases hpoints message position rfl with (hplace | hplace) | hfailure
    · exact .inl (hplace.trans hfinish)
    · exact .inr (.inl hplace)
    · rcases hend with ⟨hnone, -⟩ | ⟨_, hsome, hmalformed⟩
      · rw [hnone] at hfailure
        cases hfailure
      · rw [hsome] at hfailure
        cases hfailure
        exact .inr (.inr ⟨hmalformed, rfl⟩)

namespace Sample

/-- A text without its closing quote. -/
theorem unclosed_pointed_at : ∃ message rest,
    (parseStatements "SELECT 'abc").map (fun _ => ()) = .error (.parse message 7) ∧
      Lexeme.Malformed rest ∧ 7 = "SELECT 'abc".length - rest.length := by
  have hfails : (parseStatements "SELECT 'abc").map (fun _ => ()) =
      .error (.parse "[Lexer] Unexpected end of string" 7) := by
    decide +kernel
  have htokens : (Scan.ofString "SELECT 'abc").tokens.map Placed.offset = [0] := by decide +kernel
  obtain ⟨rest, -, -, -, hpoints⟩ := parse_points "SELECT 'abc"
  cases hresult : parseStatements "SELECT 'abc" with
  | ok xs =>
    rw [hresult] at hfails
    cases hfails
  | error e =>
    rw [hresult] at hfails
    cases hfails
    rw [htokens] at hpoints
    rcases hpoints _ _ (.inl hresult) with hend | htoken | ⟨hmalformed, hrest⟩
    · exact absurd hend (by decide)
    · exact absurd htoken (by decide)
    · exact ⟨_, rest, rfl, hmalformed, hrest⟩

end Sample

end SqlStore
