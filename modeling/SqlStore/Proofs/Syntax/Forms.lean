import SqlStore.Proofs.Syntax.Spelling

/-!
# Reading the forms of expressions

`Atom e ts` says that `ts` is read as the operand `e` wherever no call, column or text follows, and
`Whole e ts` that `ts` is read as the expression `e` in front of what ends an expression. A whole expression
in parentheses is an operand, and operands with an operator are a whole expression: an operator that binds
less tightly than asked for is left where it stands.
-/

namespace SqlStore

/-- Tokens that an operand begins with. -/
def Token.opens : Token → Bool
  | number _ | string _ | ident _ | openParen => true
  | keyword .true_ | keyword .false_ | keyword .null | keyword .cast | keyword .case_ => true
  | _ => false

/-- Tokens that stand behind an expression. -/
def Token.ends : Token → Bool
  | closeParen | comma => true
  | keyword .as | keyword .when | keyword .then_ | keyword .else_ | keyword .end_ => true
  | _ => false

/-- Tokens that make more of a name in front of them. -/
def Token.extends : Token → Bool
  | openParen | period | string _ => true
  | _ => false

namespace Parser

/-- Nothing goes on with an expression here. -/
def Ends (us : List Token) : Prop := ∀ t ∈ us[0]?, t.ends = true

/-- Nothing goes on with a name here. -/
def Clear (us : List Token) : Prop := ∀ t ∈ us[0]?, t.extends = false

/-- No operator that binds as tightly as `least` begins here. -/
structure Quiet (least : Nat) (us : List Token) : Prop where
  behind : ∀ op, postfixAhead us[0]? us[1]? = some op → op.precedence < least
  between : ∀ op, us[0]?.bind Token.binaryOp? = some op → op.precedence < least

theorem of_ends {t : Token} (h : t.ends = true) (u : Option Token) :
    postfixAhead (some t) u = none ∧ t.binaryOp? = none ∧ t.extends = false := by
  cases t with
  | keyword k => cases k <;> first | contradiction | exact ⟨rfl, rfl, rfl⟩
  | _ => first | contradiction | exact ⟨rfl, rfl, rfl⟩

theorem of_opens {t : Token} (h : t.opens = true) :
    t.unaryOp? = none ∧ t ≠ .keyword .select ∧ t ≠ .asterisk ∧ t ≠ .keyword .distinct ∧
      t ≠ .keyword .all ∧ t ≠ .closeParen ∧ t ≠ .keyword .when := by
  cases t with
  | keyword k => cases k <;> first | contradiction | decide
  | ident | string | number => simp [Token.unaryOp?]
  | _ => first | contradiction | decide

theorem not_select {t : Token} (h : t ≠ .keyword .select) :
    (some t == some (Token.keyword .select)) = false :=
  beq_false_of_ne fun heq => h (Option.some.inj heq)

theorem Ends.clear {us : List Token} (h : Ends us) : Clear us := fun t ht => (of_ends (h t ht) none).2.2

theorem Ends.quiet {us : List Token} (h : Ends us) (least : Nat) : Quiet least us := by
  cases us with
  | nil => constructor <;> rintro op ⟨⟩
  | cons t us =>
    obtain ⟨hbehind, hbetween, -⟩ := of_ends (h t rfl) (t :: us)[1]?
    refine ⟨fun op hop => ?_, fun op hop => ?_⟩
    · rw [List.getElem?_cons_zero, hbehind] at hop
      cases hop
    · rw [List.getElem?_cons_zero, Option.bind_some, hbetween] at hop
      cases hop

/-- The tokens are read as an operand. -/
structure Atom (e : Expression) (ts : List Token) : Prop where
  opens : ∃ t rest, ts = t :: rest ∧ t.opens = true
  reads : ∀ n us, Clear us → (ts ++ us).length ≤ n → Reads (atom (grammar n)) ts us e

/-- The tokens are read as an expression. -/
structure Whole (e : Expression) (ts : List Token) : Prop where
  front : ∃ t rest, ts = t :: rest ∧ t ≠ .keyword .select
  reads : ∀ n us, Ends us → (ts ++ us).length < n → Reads ((grammar n).expression 0) ts us e

variable {e : Expression} {ts us : List Token} {n fuel least : Nat}

/-! ## Operands -/

theorem operatorsFrom_of_quiet {g : Grammar} (h : Quiet least us) :
    Reads (operatorsFrom g least fuel e) [] us e := by
  cases fuel with
  | zero => exact .pure
  | succ fuel =>
    unfold operatorsFrom
    refine .bind_nil .peekPostfix ?_
    rw [List.nil_append]
    cases hop : postfixAhead us[0]? us[1]? with
    | some op =>
      dsimp only
      rw [if_pos (h.behind op hop)]
      exact .pure
    | none =>
      refine .bind_nil .peek ?_
      rw [List.nil_append]
      cases hop : us[0]?.bind Token.binaryOp? with
      | none => exact .pure
      | some op =>
        dsimp only
        rw [if_pos (h.between op hop)]
        exact .pure

/-- An operand is an expression where no operator goes on with it. -/
theorem Atom.expression (h : Atom e ts) (hclear : Clear us) (hquiet : Quiet least us)
    (hn : (ts ++ us).length < n) : Reads ((grammar n).expression least) ts us e := by
  obtain ⟨n, rfl⟩ := Nat.exists_eq_succ_of_ne_zero (Nat.ne_zero_of_lt hn)
  show Reads (expressionFrom (grammar n) least) ts us e
  unfold expressionFrom
  obtain ⟨t, rest, hts, ht⟩ := h.opens
  have hunary : (ts ++ us)[0]?.bind Token.unaryOp? = none := by
    rw [hts]
    exact (of_opens ht).1
  refine .bind_nil .peek ?_
  dsimp only
  rw [hunary]
  refine .bind_last (h.reads n us hclear (Nat.le_of_lt_succ hn)) ?_
  exact .fuel_bind (f := fun n => operatorsFrom _ least (n + 1) e) (operatorsFrom_of_quiet hquiet)

theorem Atom.whole (h : Atom e ts) : Whole e ts := by
  obtain ⟨t, rest, hts, ht⟩ := h.opens
  exact ⟨⟨t, rest, hts, (of_opens ht).2.1⟩, fun n us hends hn =>
    h.expression hends.clear (hends.quiet 0) hn⟩

/-! ## Whole expressions -/

/-- An operand that operators follow. -/
theorem Atom.whole_of_operators {first : Expression} {tail : List Token} (h : Atom first ts)
    (hclear : ∀ us, Ends us → Clear (tail ++ us))
    (hreads : ∀ n us fuel, Ends us → (tail ++ us).length ≤ n → 2 ≤ fuel →
      Reads (operatorsFrom (grammar n) 0 fuel first) tail us e) (htail : tail ≠ []) :
    Whole e (ts ++ tail) := by
  obtain ⟨t, rest, hts, ht⟩ := h.opens
  refine ⟨⟨t, rest ++ tail, by rw [hts, List.cons_append], (of_opens ht).2.1⟩, fun n us hends hn => ?_⟩
  obtain ⟨n, rfl⟩ := Nat.exists_eq_succ_of_ne_zero (Nat.ne_zero_of_lt hn)
  show Reads (expressionFrom (grammar n) 0) (ts ++ tail) us e
  unfold expressionFrom
  have hunary : ((ts ++ tail) ++ us)[0]?.bind Token.unaryOp? = none := by
    rw [hts]
    exact (of_opens ht).1
  rw [List.append_assoc] at hn
  refine .bind_nil .peek ?_
  dsimp only
  rw [hunary]
  refine .bind (h.reads n _ (hclear us hends) (Nat.le_of_lt_succ hn)) ?_
  refine .fuel_bind (f := fun n => operatorsFrom _ 0 (n + 1) first) (hreads n us _ hends ?_ ?_)
  · simp only [List.length_append] at hn ⊢
    omega
  · have := List.length_pos_of_ne_nil htail
    simp only [List.length_append]
    omega

theorem whole_unary {op : UnaryOp} (h : Atom e ts) : Whole (.unary op e) (op.token :: ts) := by
  refine ⟨⟨_, _, rfl, by cases op <;> rintro ⟨⟩⟩, fun n us hends hn => ?_⟩
  obtain ⟨n, rfl⟩ := Nat.exists_eq_succ_of_ne_zero (Nat.ne_zero_of_lt hn)
  show Reads (expressionFrom (grammar n) 0) (op.token :: ts) us _
  unfold expressionFrom
  refine .bind_nil .peek ?_
  rw [List.cons_append, List.getElem?_cons_zero, Option.bind_some, op.unaryOp?_token]
  refine .bind_cons .next ?_
  refine .bind_last (h.expression hends.clear (hends.quiet _) (Nat.lt_of_succ_lt_succ hn)) ?_
  exact .bind_nil .pure
    (.fuel_bind (f := fun n => operatorsFrom _ 0 (n + 1) _) (operatorsFrom_of_quiet (hends.quiet 0)))

theorem whole_binary {op : BinaryOp} {l r : Expression} {rs : List Token} (hl : Atom l ts)
    (hr : Atom r rs) : Whole (.binary op l r) (ts ++ op.token :: rs) := by
  refine hl.whole_of_operators (fun us _ => ?_) (fun n us fuel hends hn hfuel => ?_)
    (List.cons_ne_nil _ _)
  · rintro t ⟨⟩
    cases op <;> rfl
  · obtain ⟨fuel, rfl⟩ := Nat.exists_eq_add_of_le' hfuel
    unfold operatorsFrom
    have hpostfix : postfixAhead (some op.token) (op.token :: rs ++ us)[1]? = none := by
      cases op <;> rfl
    refine .bind_nil .peekPostfix ?_
    rw [List.cons_append] at hpostfix ⊢
    rw [List.getElem?_cons_zero, hpostfix]
    refine .bind_nil .peek ?_
    rw [List.cons_append, List.getElem?_cons_zero, Option.bind_some, op.binaryOp?_token]
    dsimp only
    -- the right operand is an operand of any precedence, so nothing of what ends the expression joins it
    rw [if_neg (Nat.not_lt_zero _)]
    refine .bind_cons .next (.bind_last (hr.expression hends.clear (hends.quiet _) ?_) ?_)
    · simp only [List.length_append, List.length_cons] at hn ⊢
      omega
    · exact operatorsFrom_of_quiet (hends.quiet 0)

theorem Atom.whole_of_postfix {first : Expression} {tail : List Token} (h : Atom first ts)
    (op : PostfixOp) (hclear : ∀ us, Clear (tail ++ us))
    (hop : ∀ us, postfixAhead (tail ++ us)[0]? (tail ++ us)[1]? = some op)
    (hreads : ∀ n us, Ends us → (tail ++ us).length ≤ n →
      Reads (postfixExpression (grammar n) first op) tail us e) (htail : tail ≠ []) :
    Whole e (ts ++ tail) := by
  refine h.whole_of_operators (fun us _ => hclear us) (fun n us fuel hends hn hfuel => ?_) htail
  obtain ⟨fuel, rfl⟩ := Nat.exists_eq_add_of_le' hfuel
  unfold operatorsFrom
  refine .bind_nil .peekPostfix ?_
  rw [hop]
  dsimp only
  rw [if_neg (Nat.not_lt_zero _)]
  exact .bind_last (hreads n us hends hn) (operatorsFrom_of_quiet (hends.quiet 0))

/-- The word of a negated operator. -/
def negation (negated : Bool) : List Token := if negated then [.keyword .not] else []

theorem whole_isNull {negated : Bool} (h : Atom e ts) :
    Whole (.isNull e negated) (ts ++ .keyword .is :: (negation negated ++ [.keyword .null])) := by
  refine h.whole_of_postfix .isNull (fun us => ?_) (fun us => rfl) (fun n us hends hn => ?_)
    (List.cons_ne_nil _ _)
  · rintro t ⟨⟩
    rfl
  · refine .bind_cons .next ?_
    cases negated
    · exact .bind_nil (.take?_not (by rintro ⟨⟩)) (.bind_cons .expectKeyword .pure)
    · exact .bind_cons .take? (.bind_cons .expectKeyword .pure)

theorem whole_between {low high : Expression} {ls hs : List Token} {negated : Bool} (h : Atom e ts)
    (hlow : Atom low ls) (hhigh : Atom high hs) :
    Whole (.between e low high negated)
      (ts ++ (negation negated ++ .keyword .between :: (ls ++ .keyword .and :: hs))) := by
  refine h.whole_of_postfix (.between negated) (fun us => ?_) (fun us => ?_) (fun n us hends hn => ?_) ?_
  · cases negated <;> rintro t ⟨⟩ <;> rfl
  · cases negated <;> rfl
  · have hbounds : Reads
        (do
          let low ← (grammar n).expression Precedence.operand
          expectKeyword .and
          let high ← (grammar n).expression Precedence.operand
          return Expr.between e low high negated)
        (ls ++ .keyword .and :: hs) us (.between e low high negated) := by
      -- AND binds less tightly than the bounds ask for, so the lower bound stops in front of it
      have hand : Clear (.keyword .and :: hs ++ us) := by
        rintro t ⟨⟩
        rfl
      have hquiet : Quiet Precedence.operand (.keyword .and :: hs ++ us) := by
        constructor <;> rintro op ⟨⟩
        decide
      simp only [List.length_append, List.length_cons] at hn
      refine .bind (hlow.expression hand hquiet ?_) (.bind_cons .expectKeyword (.bind_last
        (hhigh.expression hends.clear (hends.quiet _) ?_) .pure))
      · simp only [List.length_append, List.length_cons]
        omega
      · simp only [List.length_append]
        omega
    cases negated
    · exact .bind_cons .next hbounds
    · exact .bind_cons .next (.bind_cons .next hbounds)
  · cases negated <;> exact List.cons_ne_nil _ _

theorem whole_like {pattern : Expression} {ps : List Token} {negated ignoreCase : Bool} (h : Atom e ts)
    (hpattern : Atom pattern ps) :
    Whole (.like e pattern negated ignoreCase)
      (ts ++ (negation negated ++ .keyword (if ignoreCase then .ilike else .like) :: ps)) := by
  refine h.whole_of_postfix (.like negated) (fun us => ?_) (fun us => ?_) (fun n us hends hn => ?_) ?_
  · cases negated <;> rintro t ⟨⟩ <;> rfl
  · cases negated <;> cases ignoreCase <;> rfl
  · have hword : Reads
        (do
          let word ← next
          let pattern ← (grammar n).expression Precedence.operand
          return Expr.like e pattern negated (word == .keyword .ilike))
        (.keyword (if ignoreCase then .ilike else .like) :: ps) us (.like e pattern negated ignoreCase) := by
      simp only [List.length_append, List.length_cons] at hn
      refine .bind_cons .next (.bind_last (hpattern.expression hends.clear (hends.quiet _) ?_) ?_)
      · simp only [List.length_append]
        omega
      · cases ignoreCase <;> exact .pure
    cases negated
    · exact hword
    · exact .bind_cons .next hword
  · cases negated <;> exact List.cons_ne_nil _ _

/-- Operands with commas between them. -/
theorem readsItems {tss : List (List Token)} {es : List Expression} {size : Nat}
    (h : List.Forall₂ (fun ts e => Atom e ts) tss es) (hsize : size < n) :
    ReadsItems ((grammar n).expression 0) size tss es := by
  refine h.imp fun ts e he vs hvs hlength => he.whole.reads n vs ?_ (Nat.lt_of_le_of_lt hlength hsize)
  rintro t ht
  rcases hvs with hvs | hvs <;> rw [hvs] at ht <;> cases ht <;> rfl

theorem opens_commaTokens {tss : List (List Token)} {es : List Expression}
    (h : List.Forall₂ (fun ts e => Atom e ts) tss es) (hne : es ≠ []) :
    ∃ t rest, commaTokens tss = t :: rest ∧ t.opens = true := by
  cases h with
  | nil => exact absurd rfl hne
  | cons he htail =>
    obtain ⟨t, rest, rfl, ht⟩ := he.opens
    cases htail with
    | nil => exact ⟨t, rest, rfl, ht⟩
    | cons => exact ⟨t, _, rfl, ht⟩

theorem whole_inList {items : List Expression} {tss : List (List Token)} {negated : Bool} (h : Atom e ts)
    (hitems : List.Forall₂ (fun ts e => Atom e ts) tss items) (hne : items ≠ []) :
    Whole (.inList e items negated)
      (ts ++ (negation negated ++ .keyword .in_ :: .openParen :: (commaTokens tss ++ [.closeParen]))) := by
  refine h.whole_of_postfix (.membership negated) (fun us => ?_) (fun us => ?_)
    (fun n us hends hn => ?_) ?_
  · cases negated <;> rintro t ⟨⟩ <;> rfl
  · cases negated <;> rfl
  · simp only [List.length_append, List.length_cons] at hn
    have hclosed : Reads (closedList ((grammar n).expression 0)) (commaTokens tss ++ [.closeParen]) us items :=
      .closedList (n - 1) (readsItems hitems (by omega)) hne
        (by simp only [List.length_append, List.length_cons]; omega)
    obtain ⟨t, rest, hts, ht⟩ := opens_commaTokens hitems hne
    have hlist : Reads
        (do
          expect .openParen
          if (← peek) == some (.keyword .select) then
            return Expr.inQuery e (← closedSelect (grammar n)) negated
          return Expr.inList e (← closedList ((grammar n).expression 0)) negated)
        (.openParen :: (commaTokens tss ++ [.closeParen])) us (.inList e items negated) := by
      refine .bind_cons .expect (.bind_nil .peek ?_)
      rw [hts] at hclosed ⊢
      rw [List.cons_append, List.cons_append, List.getElem?_cons_zero,
        not_select (of_opens ht).2.1]
      exact .bind_last hclosed .pure
    cases negated
    · exact .bind_cons .next hlist
    · exact .bind_cons .next (.bind_cons .next hlist)
  · cases negated <;> exact List.cons_ne_nil _ _

end Parser

end SqlStore
