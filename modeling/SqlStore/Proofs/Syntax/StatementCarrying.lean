import SqlStore.Proofs.Syntax.ExprCarrying

/-!
# Reading statements in front of more text

Every reader of `Syntax.StatementReading` reads in front of a semicolon what it reads at the end of a
text. Each level of the grammar takes a token before it goes one level down, so grammars with enough
levels for the tokens that are left read alike.
-/

namespace SqlStore

namespace Parser.Carries

variable {B : Behind} {n : Nat} {g g' : Grammar}

/-! ## Queries -/

theorem label? : Carries B n false Anything label? label? := by
  unfold Parser.label?
  have hlabel : ∀ m, Carries B m false Anything (do return some (← Parser.ident))
      (do return some (← Parser.ident)) := fun m => ident.relax.bind fun _ _ => pure trivial
  refine take?_bind (by decide) (fun m _ => hlabel m) (peek_bind fun t u htu => ?_)
  cases htu with
  | token t =>
    split
    · exact hlabel n
    · exact pure trivial
  | nothing => exact pure trivial
  | separator => exact pure trivial

theorem objectName : Carries B n true Anything objectName objectName := by
  unfold Parser.objectName
  refine ident.bind_lt fun first m hm _ => ?_
  refine take?_bind (by decide) (fun l _ => ?_) (pure trivial)
  exact ident.relax.bind fun _ _ => pure trivial

theorem selectItem (hg : g.Carries B n g') :
    Carries B n false Anything (selectItem g) (selectItem g') := by
  unfold Parser.selectItem
  refine take?_bind (by decide) (fun m _ => pure trivial) (peek_peekAt_bind fun ts us hus => ?_)
  have hexpr : Carries B n false Anything
      (do let e ← g.expression 0; return SelectItem.expr e (← Parser.label?))
      (do let e ← g'.expression 0; return SelectItem.expr e (← Parser.label?)) :=
    (hg.expression 0).relax.bind fun _ _ => label?.bind fun _ _ => pure trivial
  subst hus
  -- a semicolon stands in no place of the form that is looked for
  rcases ts with _ | ⟨a, _ | ⟨b, _ | ⟨c, ts⟩⟩⟩
  · rcases B.separated with hB | ⟨more, hB⟩ <;> rw [hB] <;> exact hexpr
  · rcases B.separated with hB | ⟨more, hB⟩ <;> rw [hB] <;> cases a <;> exact hexpr
  · rcases B.separated with hB | ⟨more, hB⟩ <;> rw [hB] <;> cases a <;> try exact hexpr
    all_goals cases b <;> exact hexpr
  · simp only [List.cons_append, List.getElem?_cons_zero, List.getElem?_cons_succ]
    split
    · exact ident.relax.bind fun _ _ => next.relax.bind fun _ _ => next.relax.bind fun _ _ => pure trivial
    · exact hexpr

theorem orderItem (hg : g.Carries B n g') :
    Carries B n false Anything (orderItem g) (orderItem g') := by
  unfold Parser.orderItem
  refine (hg.expression 0).relax.bind fun e _ => (takeKeyword? _).bind fun descending _ => ?_
  extract_lets done nulls
  have hdone : ∀ m nullsFirst, Carries B m false Anything (done nullsFirst) (done nullsFirst) :=
    fun m _ => pure trivial
  have hnulls : Carries B n false Anything (nulls ()) (nulls ()) := by
    refine takeKeyword?_bind (fun m hm => next.bind_lt fun t l hl _ => ?_) (hdone n none)
    split
    · exact hdone l (some true)
    · exact hdone l (some false)
    · exact of_fails ((fails_unexpected _).bind _)
  split
  · exact (takeKeyword? _).bind fun _ _ => hnulls
  · exact hnulls

theorem fromTable (hg : g.Carries B n g') :
    Carries B n false Anything (fromTable g) (fromTable g') := by
  unfold Parser.fromTable
  refine take?_bind (by decide) (fun m hm => ?_) ?_
  · refine (closedSelect (hg.mono (Nat.le_of_lt hm))).bind fun _ _ => ?_
    exact label?.bind fun _ _ => pure trivial
  · exact objectName.relax.bind fun _ _ => label?.bind fun _ _ => pure trivial

/-- What follows the words of a join, if they are there. -/
theorem joinWords_bind {β : Type} {must : Bool} {W : β → Prop} {f f' : Option JoinKind → Parser β}
    (hnone : Carries B n must W (f none) (f' none))
    (hsome : ∀ kind m, m < n → Carries B m false W (f (some kind)) (f' (some kind))) :
    Carries B n must W (joinWords >>= f) (joinWords >>= f') := by
  unfold Parser.joinWords
  rw [bind_assoc, bind_assoc]
  refine peek_bind fun t u htu => ?_
  cases htu with
  | token t =>
    split
    · exact hnone
    · next kind _ =>
      rw [bind_assoc, bind_assoc]
      refine next.bind_lt fun word m hm _ => ?_
      refine bind (V := (· = some kind)) ?_ fun _ heq => heq ▸ hsome kind m hm
      have hjoin : Carries B m false (· = some kind)
          (do Parser.expectKeyword .join; return some kind)
          (do Parser.expectKeyword .join; return some kind) :=
        (expectKeyword _).relax.bind fun _ _ => pure rfl
      dsimp only
      split
      · split
        · exact (takeKeyword? _).bind fun _ _ => hjoin
        · exact hjoin
      · exact pure rfl
  | nothing => exact hnone
  | separator => exact hnone

theorem identList : Carries B n false Anything identList identList :=
  (expect _).relax.bind fun _ _ => (closedList ident.relax).discard

theorem joinCondition (natural : Bool) (kind : JoinKind) (hg : g.Carries B n g') :
    Carries B n false Anything (joinCondition g natural kind) (joinCondition g' natural kind) := by
  unfold Parser.joinCondition
  split
  · dsimp only
    split
    · exact of_fails ((fails_fail _).bind _)
    · exact pure trivial
  · split
    · exact pure trivial
    · refine takeKeyword?_bind (fun m hm => ?_) (takeKeyword?_bind (fun m hm => ?_) ?_)
      · exact ((hg.mono (Nat.le_of_lt hm)).expression 0).relax.bind fun _ _ => pure trivial
      · exact identList.bind fun _ _ => pure trivial
      · exact peekPosition_bind fun _ _ => of_fails (fails_failAt _ _)

theorem joinsFrom {fuel fuel' : Nat} {left : FromItem Select} (hg : g.Carries B n g')
    (hfuel : n < fuel) (hfuel' : n < fuel') :
    Carries B n false Anything (joinsFrom g fuel left) (joinsFrom g' fuel' left) := by
  induction fuel generalizing n fuel' left with
  | zero => omega
  | succ fuel ih =>
    obtain ⟨fuel', rfl⟩ := Nat.exists_eq_succ_of_ne_zero (Nat.ne_zero_of_lt hfuel')
    unfold Parser.joinsFrom
    refine takeKeyword?_cases fun natural m hm => joinWords_bind ?_ fun kind l hl => ?_
    · dsimp only
      split
      · exact next.relax.bind fun _ _ => of_fails (fails_unexpected _)
      · exact pure trivial
    · have hg := hg.mono (by omega : l ≤ n)
      refine (fromTable hg).bind fun right _ => (joinCondition natural kind hg).bind fun _ _ => ?_
      exact ih hg (by omega) (by omega)

theorem fromItem (hg : g.Carries B n g') :
    Carries B n false Anything (fromItem g) (fromItem g') :=
  (fromTable hg).bind fun _ _ => fuel_bind fun _ _ _ hm hc hd =>
    joinsFrom (hg.mono hm) (Nat.lt_succ_of_le hc) (Nat.lt_succ_of_le hd)

theorem filter? (hg : g.Carries B n g') : Carries B n false Anything (filter? g) (filter? g') :=
  takeKeyword?_bind (fun _ hm =>
    ((hg.mono (Nat.le_of_lt hm)).expression 0).relax.map fun _ _ => trivial) (pure trivial)

theorem boundsFrom {fuel fuel' : Nat} {limit offset : Option Expression} (hg : g.Carries B n g')
    (hfuel : n < fuel) (hfuel' : n < fuel') :
    Carries B n false Anything (boundsFrom g fuel limit offset)
      (boundsFrom g' fuel' limit offset) := by
  induction fuel generalizing n fuel' limit offset with
  | zero => omega
  | succ fuel ih =>
    obtain ⟨fuel', rfl⟩ := Nat.exists_eq_succ_of_ne_zero (Nat.ne_zero_of_lt hfuel')
    unfold Parser.boundsFrom
    refine takeWhen?_bind (by decide) (fun _ m hm => ?_) (takeWhen?_bind (by decide) (fun _ m hm => ?_) ?_)
    · have hg := hg.mono (Nat.le_of_lt hm)
      refine takeKeyword?_bind (fun l hl => ?_) ?_
      · exact ih (hg.mono (Nat.le_of_lt hl)) (by omega) (by omega)
      · exact (hg.expression 0).relax.bind fun _ _ => ih hg (by omega) (by omega)
    · have hg := hg.mono (Nat.le_of_lt hm)
      refine (hg.expression 0).relax.bind fun e _ => ?_
      extract_lets rest rest'
      have hrest : ∀ l ≤ m, Carries B l false Anything (rest ()) (rest' ()) :=
        fun l hl => ih (hg.mono hl) (by omega) (by omega)
      refine takeWord?_bind (fun l hl => hrest l (Nat.le_of_lt hl)) ?_
      exact takeWord?_bind (fun l hl => hrest l (Nat.le_of_lt hl)) (hrest m (Nat.le_refl m))
    · exact pure trivial

theorem selectFrom (hg : ∀ m < n, g.Carries B m g') :
    Carries B n true Anything (selectFrom g) (selectFrom g') := by
  unfold Parser.selectFrom
  refine (expectKeyword _).bind_lt fun _ m hm _ => (takeKeyword? _).bind fun distinct _ => ?_
  have hg := hg m hm
  extract_lets rest rest'
  have hrest : Carries B m false Anything (rest ()) (rest' ()) := by
    refine (commaList (selectItem hg)).bind fun items _ => ?_
    refine take?_ite_bind (by decide)
      (fun l hl => (commaList (fromItem (hg.mono (Nat.le_of_lt hl)))).discard) (pure trivial)
      fun sources _ => (filter? hg).bind fun filter _ => ?_
    refine takeKeyword?_cases fun group l hl => ?_
    have hg := hg.mono hl
    extract_lets behindGroup behindGroup'
    have hbehindGroup : ∀ keys, Carries B l false Anything (behindGroup keys) (behindGroup' keys) := by
      intro keys
      refine take?_ite_bind (V := Anything) (by decide)
        (fun k hk => ((hg.mono (Nat.le_of_lt hk)).expression 0).relax.map fun _ _ => trivial)
        (pure trivial) fun having _ => ?_
      refine takeKeyword?_cases fun order k hk => ?_
      have hg := hg.mono hk
      extract_lets behindOrder behindOrder'
      have hbehindOrder : ∀ keys, Carries B k false Anything (behindOrder keys) (behindOrder' keys) := by
        refine fun keys => fuel_bind fun c d j hj hc hd => ?_
        refine (boundsFrom (hg.mono hj) (Nat.lt_succ_of_le hc) (Nat.lt_succ_of_le hd)).bind ?_
        exact fun bounds _ => pure trivial
      split
      · refine (expectKeyword _).relax.bind fun _ _ => ?_
        exact (commaList (orderItem hg)).bind fun keys _ => hbehindOrder keys
      · exact hbehindOrder []
    split
    · refine (expectKeyword _).relax.bind fun _ _ => ?_
      exact (commaList (hg.expression 0).relax).bind fun keys _ => hbehindGroup keys
    · exact hbehindGroup []
  split
  · exact (takeKeyword? _).bind fun _ _ => hrest
  · exact hrest

end Parser.Carries

/-- Grammars with enough levels read alike. -/
theorem Grammar.carries {B : Behind} {n levels levels' : Nat} (hlevels : n < levels) (hlevels' : n < levels') :
    (Parser.grammar levels).Carries B n (Parser.grammar levels') := by
  induction levels generalizing n levels' with
  | zero => omega
  | succ levels ih =>
    obtain ⟨levels', rfl⟩ := Nat.exists_eq_succ_of_ne_zero (Nat.ne_zero_of_lt hlevels')
    have hg : ∀ m < n, (Parser.grammar levels).Carries B m (Parser.grammar levels') :=
      fun m hm => ih (by omega) (by omega)
    exact ⟨fun least => Parser.Carries.expressionFrom least hg, Parser.Carries.selectFrom hg⟩

/-! ## Statements -/

namespace Parser.Carries

variable {B : Behind} {n : Nat} {g g' : Grammar}

theorem ifNotExists : Carries B n false Anything ifNotExists ifNotExists := by
  refine takeKeyword?_bind (fun m _ => ?_) (pure trivial)
  exact (expectKeyword _).relax.bind fun _ _ => (expectKeyword _).relax.bind fun _ _ => pure trivial

theorem ifExists : Carries B n false Anything ifExists ifExists :=
  takeKeyword?_bind (fun _ _ => (expectKeyword _).relax.bind fun _ _ => pure trivial) (pure trivial)

theorem constraintsFrom {fuel fuel' : Nat} {column : ColumnSpec} (hg : g.Carries B n g')
    (hfuel : n < fuel) (hfuel' : n < fuel') :
    Carries B n false Anything (constraintsFrom g fuel column) (constraintsFrom g' fuel' column) := by
  induction fuel generalizing n fuel' column with
  | zero => omega
  | succ fuel ih =>
    obtain ⟨fuel', rfl⟩ := Nat.exists_eq_succ_of_ne_zero (Nat.ne_zero_of_lt hfuel')
    unfold Parser.constraintsFrom
    have hrest : ∀ m < n, ∀ column, Carries B m false Anything (Parser.constraintsFrom g fuel column)
        (Parser.constraintsFrom g' fuel' column) :=
      fun m hm column => ih (hg.mono (Nat.le_of_lt hm)) (by omega) (by omega)
    refine peek_bind fun t u htu => ?_
    cases htu with
    | token t =>
      split
      · exact next.bind_lt fun _ m hm _ => hrest m hm _
      · refine next.bind_lt fun _ m hm _ => (expectKeyword _).relax.bind fun _ _ => ?_
        exact hrest m hm _
      · refine next.bind_lt fun _ m hm _ => ?_
        exact ((hg.mono (Nat.le_of_lt hm)).expression 0).relax.bind fun _ _ => hrest m hm _
      · refine next.bind_lt fun _ m hm _ => (expectKeyword _).relax.bind fun _ _ => ?_
        exact hrest m hm _
      · exact next.bind_lt fun _ m hm _ => hrest m hm _
      · exact pure trivial
    | nothing => exact pure trivial
    | separator => exact pure trivial

theorem columnSpec (hg : g.Carries B n g') :
    Carries B n false Anything (columnSpec g) (columnSpec g') :=
  ident.relax.bind fun _ _ => typeName.relax.bind fun _ _ => fuel_bind fun _ _ _ hm hc hd =>
    constraintsFrom (hg.mono hm) (Nat.lt_succ_of_le hc) (Nat.lt_succ_of_le hd)

theorem createStatement (hg : g.Carries B n g') :
    Carries B n true Anything (createStatement g) (createStatement g') := by
  unfold Parser.createStatement
  refine (expectKeyword _).bind_lt fun _ m hm _ => next.bind_lt fun t l hl _ => ?_
  have hg := hg.mono (by omega : l ≤ n)
  split
  · refine ifNotExists.bind fun _ _ => objectName.relax.bind fun _ _ => ?_
    refine (expect _).relax.bind fun _ _ => (commaList (columnSpec hg)).bind fun _ _ => ?_
    exact (expect _).relax.bind fun _ _ => pure trivial
  · exact ifNotExists.bind fun _ _ => ident.relax.bind fun _ _ => pure trivial
  · exact of_fails (fails_unexpected _)

theorem dropStatement : Carries B n true Anything dropStatement dropStatement := by
  unfold Parser.dropStatement
  refine (expectKeyword _).bind_lt fun _ m hm _ => next.bind_lt fun t l hl _ => ?_
  split
  · exact ifExists.bind fun _ _ => (commaList objectName.relax).bind fun _ _ => pure trivial
  · exact ifExists.bind fun _ _ => ident.relax.bind fun _ _ => pure trivial
  · exact of_fails (fails_unexpected _)

theorem insertValue (hg : g.Carries B n g') :
    Carries B n false Anything (insertValue g) (insertValue g') :=
  takeKeyword?_bind (fun _ _ => pure trivial) ((hg.expression 0).relax.map fun _ _ => trivial)

theorem insertRow (hg : g.Carries B n g') :
    Carries B n false Anything (insertRow g) (insertRow g') :=
  (expect _).relax.bind fun _ _ => (closedList (insertValue hg)).discard

theorem insertStatement (hg : g.Carries B n g') :
    Carries B n true Anything (insertStatement g) (insertStatement g') := by
  unfold Parser.insertStatement
  refine (expectKeyword _).bind_lt fun _ m hm _ => (expectKeyword _).relax.bind fun _ _ => ?_
  have hg := hg.mono (Nat.le_of_lt hm)
  refine objectName.relax.bind fun table _ => peek_bind fun t u htu => ?_
  extract_lets rest rest'
  have hrest : ∀ columns, Carries B m false Anything (rest columns) (rest' columns) := by
    intro columns
    have hvalues : Carries B m false Anything
        (do
          Parser.expectKeyword .values
          return Statement.insert table columns (.values (← Parser.commaList (Parser.insertRow g))))
        (do
          Parser.expectKeyword .values
          return Statement.insert table columns (.values (← Parser.commaList (Parser.insertRow g')))) :=
      (expectKeyword _).relax.bind fun _ _ => (commaList (insertRow hg)).bind fun _ _ => pure trivial
    refine peek_bind fun t u htu => ?_
    cases htu with
    | token t =>
      split
      · exact hg.select.relax.bind fun _ _ => pure trivial
      · exact hvalues
    | nothing => exact hvalues
    | separator => exact hvalues
  cases htu with
  | token t =>
    split
    · exact (identList.map fun _ _ => trivial).bind fun columns (_ : Anything columns) => hrest columns
    · exact hrest none
  | nothing => exact hrest none
  | separator => exact hrest none

theorem assignmentsFrom {fuel fuel' : Nat} {done : List (String × Expression)}
    (hg : g.Carries B n g') (hfuel : n < fuel) (hfuel' : n < fuel') :
    Carries B n false Anything (assignmentsFrom g fuel done) (assignmentsFrom g' fuel' done) := by
  induction fuel generalizing n fuel' done with
  | zero => omega
  | succ fuel ih =>
    obtain ⟨fuel', rfl⟩ := Nat.exists_eq_succ_of_ne_zero (Nat.ne_zero_of_lt hfuel')
    unfold Parser.assignmentsFrom
    refine ident.bind_lt fun column m hm _ => position_bind fun i j => ?_
    have hg := hg.mono (Nat.le_of_lt hm)
    refine (expect _).relax.bind fun _ _ => (hg.expression 0).relax.bind fun e _ => ?_
    dsimp only
    split
    · exact of_fails ((fails_failAt _ _).bind _)
    · refine take?_bind (by decide) (fun l hl => ?_) (pure trivial)
      exact ih (hg.mono (Nat.le_of_lt hl)) (by omega) (by omega)

theorem updateStatement (hg : g.Carries B n g') :
    Carries B n true Anything (updateStatement g) (updateStatement g') := by
  unfold Parser.updateStatement
  refine (expectKeyword _).bind_lt fun _ m hm _ => objectName.relax.bind fun _ _ => ?_
  refine label?.bind fun _ _ => (expectKeyword _).relax.bind fun _ _ => ?_
  refine fuel_bind fun c d l hl hc hd => ?_
  have hg := hg.mono (by omega : l ≤ n)
  refine (assignmentsFrom hg (Nat.lt_succ_of_le hc) (Nat.lt_succ_of_le hd)).bind fun _ _ => ?_
  exact (filter? hg).bind fun _ _ => pure trivial

theorem deleteStatement (hg : g.Carries B n g') :
    Carries B n true Anything (deleteStatement g) (deleteStatement g') := by
  unfold Parser.deleteStatement
  refine (expectKeyword _).bind_lt fun _ m hm _ => (expectKeyword _).relax.bind fun _ _ => ?_
  refine objectName.relax.bind fun _ _ => label?.bind fun _ _ => ?_
  exact (filter? (hg.mono (Nat.le_of_lt hm))).bind fun _ _ => pure trivial

theorem isolationLevel : Carries B n false Anything isolationLevel isolationLevel := by
  unfold Parser.isolationLevel
  refine ident.relax.bind fun word _ => ?_
  split
  · refine ident.relax.bind fun word _ => ?_
    split
    · exact pure trivial
    · exact pure trivial
    · exact of_fails (fails_unexpectedWord _)
  · exact (expectWord _).relax.bind fun _ _ => pure trivial
  · exact pure trivial
  · exact of_fails (fails_unexpectedWord _)

theorem beginStatement : Carries B n true Anything beginStatement beginStatement := by
  unfold Parser.beginStatement
  refine next.bind_lt fun t m hm _ => ?_
  extract_lets rest
  have hrest : Carries B m false Anything (rest ()) (rest ()) := by
    refine takeKeyword?_bind (fun l _ => ?_) (pure trivial)
    exact (expectKeyword _).relax.bind fun _ _ => isolationLevel.bind fun _ _ => pure trivial
  split
  · exact (expectKeyword _).relax.bind fun _ _ => hrest
  · exact (takeKeyword? _).bind fun _ _ => hrest

theorem endStatement (s : Statement) :
    Carries B n true Anything (endStatement s) (endStatement s) :=
  next.bind_lt fun _ _ _ _ => (takeKeyword? _).bind fun _ _ => pure trivial

theorem statement (hg : g.Carries B n g') :
    Carries B n true Anything (statement g) (statement g') := by
  unfold Parser.statement
  refine peek_bind fun t u htu => ?_
  cases htu with
  | token t =>
    split
    · exact createStatement hg
    · exact dropStatement
    · exact hg.select.bind_lt fun _ _ _ _ => pure trivial
    · exact insertStatement hg
    · exact updateStatement hg
    · exact deleteStatement hg
    · exact beginStatement
    · exact beginStatement
    · exact endStatement _
    · exact endStatement _
    · exact endStatement _
    · exact of_fails fun c r hr => by cases hr
    · contradiction
  | nothing => exact of_fails fun c r hr => by cases hr
  | separator => exact of_fails fun c r hr => by cases hr

end Parser.Carries

end SqlStore
