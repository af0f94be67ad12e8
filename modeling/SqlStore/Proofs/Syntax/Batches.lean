import SqlStore.Proofs.Syntax.StatementCarrying

/-!
# Batches

The statements of two texts, one put behind the other with a semicolon between them on a line of its own,
are the statements of the first and then those of the second, whatever stands in the texts.
-/

namespace SqlStore

namespace Parser

/-! ## Statements one after the other -/

/-- The statements that are left behind semicolons. -/
def statementsBehind (fuel : Nat) : Parser (List Statement) := do
  if (← peek).isNone then return []
  let s ← withGrammar statement
  match ← peek with
  | none => pure ()
  | some .semicolon => pure ()
  | some t => failAt (← peekPosition) ("Unexpected token " ++ t.text)
  return s :: (← statementsFrom fuel)

theorem statementsFrom_succ (fuel : Nat) :
    statementsFrom (fuel + 1) = (do
      semicolons ((← get).rest.length + 1)
      statementsBehind fuel) := rfl

theorem length_tokens (c : Cursor) : c.tokens.length = c.rest.length := List.length_map ..

/-- Where a cursor stands behind semicolons. -/
structure Trimmed (c c' : Cursor) : Prop where
  tokens : c'.tokens = c.tokens.dropWhile (· == .semicolon)
  failure : c'.failure = c.failure

theorem Trimmed.lexed {c c' : Cursor} (h : Trimmed c c') (hlexed : ∀ t ∈ c.tokens, t.Lexed) :
    ∀ t ∈ c'.tokens, t.Lexed := by
  rw [h.tokens]
  exact fun t ht => hlexed t ((List.dropWhile_sublist _).mem ht)

theorem Trimmed.length_le {c c' : Cursor} (h : Trimmed c c') : c'.rest.length ≤ c.rest.length := by
  rw [← length_tokens, ← length_tokens, h.tokens]
  exact (List.dropWhile_sublist _).length_le

theorem run_semicolons {fuel : Nat} {c : Cursor} (h : c.rest.length < fuel) :
    ∃ c', StateT.run (semicolons fuel) c = .ok ((), c') ∧ Trimmed c c' := by
  induction fuel generalizing c with
  | zero => omega
  | succ fuel ih =>
    unfold semicolons
    by_cases hsemicolon : ∃ p rest, c.rest = p :: rest ∧ p.token = .semicolon
    · obtain ⟨p, rest, hc, hp⟩ := hsemicolon
      rw [hc, List.length_cons] at h
      obtain ⟨c', hrun, htokens, hfailure⟩ := ih (c := { c with rest, position := p.offset }) (by simpa using h)
      rw [run_bind_of_ok (run_take?_of_eq hc hp)]
      refine ⟨c', hrun, htokens.trans ?_, hfailure⟩
      unfold Cursor.tokens
      rw [hc, List.map_cons, hp]
      rfl
    · have hne : ∀ p rest, c.rest = p :: rest → p.token ≠ .semicolon :=
        fun p rest hc hp => hsemicolon ⟨p, rest, hc, hp⟩
      rw [run_bind_of_ok (run_take?_of_ne hne)]
      refine ⟨c, rfl, ?_, rfl⟩
      unfold Cursor.tokens
      rcases c.rest_cases with hc | ⟨p, rest, hc⟩
      · rw [hc]
        rfl
      · rw [hc, List.map_cons, List.dropWhile_cons_of_neg (by simpa using hne p rest hc)]

theorem exists_run_statementsFrom (fuel : Nat) (c : Cursor) :
    ∃ c', Trimmed c c' ∧
      StateT.run (statementsFrom (fuel + 1)) c = StateT.run (statementsBehind fuel) c' := by
  obtain ⟨c', hrun, htrimmed⟩ := run_semicolons (Nat.lt_succ_self c.rest.length)
  refine ⟨c', htrimmed, ?_⟩
  rw [statementsFrom_succ, run_get_bind, run_bind_of_ok hrun]

theorem withGrammar_statement {B : Behind} {n : Nat} :
    Carries B n true Anything (withGrammar statement) (withGrammar statement) :=
  Carries.fuel_bind fun _ _ _ _ hc hd =>
    Carries.statement (Grammar.carries (Nat.lt_succ_of_le hc) (Nat.lt_succ_of_le hd))

/-- Behind a statement stands a semicolon or nothing. -/
def Stops (c : Cursor) : Prop := c.tokens[0]? = some .semicolon ∨ c.tokens = [] ∧ c.failure = none

theorem Stops.ahead {B : Behind} {c d : Cursor} (h : Stops c) (hahead : Ahead B c d) : Stops d := by
  unfold Stops
  rw [hahead.tokens]
  rcases h with hsemicolon | ⟨hnil, hfailure⟩
  · refine .inl ?_
    cases hc : c.tokens with
    | nil =>
      rw [hc] at hsemicolon
      cases hsemicolon
    | cons t ts =>
      rw [hc] at hsemicolon
      exact hsemicolon
  · rw [hnil]
    rcases B.separated with hB | ⟨more, hB⟩
    · rw [hB, hahead.failure_behind, ← hahead.failure]
      exact .inr ⟨rfl, hfailure⟩
    · rw [hB]
      exact .inl rfl

theorem run_statementsBehind_iff {fuel : Nat} {c c' : Cursor} {xs : List Statement} :
    StateT.run (statementsBehind fuel) c = .ok (xs, c') ↔
      (c.tokens = [] ∧ c.failure = none ∧ xs = [] ∧ c' = c) ∨
        c.tokens ≠ [] ∧ ∃ s ys c₁, StateT.run (withGrammar statement) c = .ok (s, c₁) ∧ Stops c₁ ∧
          StateT.run (statementsFrom fuel) c₁ = .ok (ys, c') ∧ xs = s :: ys := by
  unfold statementsBehind
  constructor
  · intro h
    obtain ⟨t, c₀, hpeek, h⟩ := run_bind_eq_ok h
    obtain ⟨rfl, rfl⟩ := peek_eq_ok hpeek
    cases hc : c₀.tokens with
    | nil =>
      rw [hc] at h
      cases h
      exact .inl ⟨rfl, failure_of_peek hc hpeek, rfl, rfl⟩
    | cons t ts =>
      rw [hc] at h
      obtain ⟨s, c₁, hs, h⟩ := run_bind_eq_ok h
      obtain ⟨u, c₂, hpeek₁, h⟩ := run_bind_eq_ok h
      obtain ⟨rfl, rfl⟩ := peek_eq_ok hpeek₁
      -- behind a statement is the end of the text or a semicolon
      have hread : Stops c₂ ∧
          StateT.run (do return s :: (← statementsFrom fuel)) c₂ = .ok (xs, c') := by
        dsimp only at h
        split at h
        · next hnone =>
          have hnil : c₂.tokens = [] :=
            List.eq_nil_of_length_eq_zero (Nat.le_zero.mp (List.getElem?_eq_none_iff.mp hnone))
          exact ⟨.inr ⟨hnil, failure_of_peek hnil hpeek₁⟩, h⟩
        · next hsemicolon => exact ⟨.inl hsemicolon, h⟩
        · cases h
      obtain ⟨ys, c₃, hys, hdone⟩ := run_bind_eq_ok hread.2
      cases hdone
      exact .inr ⟨List.cons_ne_nil _ _, s, ys, c₂, hs, hread.1, hys, rfl⟩
  · rintro (⟨hnil, hfailure, rfl, rfl⟩ | ⟨hne, s, ys, c₁, hs, hstops, hys, rfl⟩)
    · rw [run_bind_of_ok (run_peek_end hnil hfailure)]
      rfl
    · obtain ⟨t, ts, hc⟩ := List.exists_cons_of_ne_nil hne
      have hdone : StateT.run (do return s :: (← statementsFrom fuel)) c₁ = .ok (s :: ys, c') :=
        run_bind_of_ok hys
      rw [run_bind_of_ok (run_peek hc)]
      refine (run_bind_of_ok hs).trans ?_
      rcases hstops with hsemicolon | ⟨hnil, hfailure⟩
      · obtain ⟨u, us, hc₁⟩ := List.exists_cons_of_ne_nil (l := c₁.tokens) fun hnil => by
          rw [hnil] at hsemicolon
          cases hsemicolon
        rw [hc₁] at hsemicolon
        cases hsemicolon
        rw [run_bind_of_ok (run_peek hc₁)]
        exact hdone
      · rw [run_bind_of_ok (run_peek_end hnil hfailure)]
        exact hdone

/-- Statements that are read from a text are read in front of more, and what is read from the rest is read
behind them. Semicolons in front do not count. -/
theorem run_statementsFrom_append {B : Behind} {ys : List Statement}
    (hbehind : ∀ d fuel, d.rest.length < fuel →
      d.tokens.dropWhile (· == .semicolon) = B.tokens.dropWhile (· == .semicolon) →
      d.failure = B.failure → ∃ d', StateT.run (statementsFrom fuel) d = .ok (ys, d'))
    {fuel fuel' : Nat} {c c' d : Cursor} {xs : List Statement}
    (hfuel : c.rest.length < fuel) (hfuel' : d.rest.length < fuel')
    (htokens : d.tokens.dropWhile (· == .semicolon) =
      (c.tokens ++ B.tokens).dropWhile (· == .semicolon))
    (hc : c.failure = B.failure) (hd : d.failure = B.failure) (hlexed : ∀ t ∈ c.tokens, t.Lexed)
    (hrun : StateT.run (statementsFrom fuel) c = .ok (xs, c')) :
    ∃ d', StateT.run (statementsFrom fuel') d = .ok (xs ++ ys, d') := by
  induction fuel generalizing c d fuel' xs with
  | zero => omega
  | succ fuel ih =>
    obtain ⟨fuel', rfl⟩ := Nat.exists_eq_succ_of_ne_zero (Nat.ne_zero_of_lt hfuel')
    obtain ⟨c₁, hc₁, heq⟩ := exists_run_statementsFrom fuel c
    obtain ⟨d₁, hd₁, heq'⟩ := exists_run_statementsFrom fuel' d
    rw [heq, run_statementsBehind_iff] at hrun
    rw [List.dropWhile_append, ← hc₁.tokens] at htokens
    rcases hrun with ⟨hnil, -, rfl, -⟩ | ⟨hne, s, xs, c₂, hs, hstops, hxs, rfl⟩
    · rw [hnil] at htokens
      exact hbehind d _ hfuel' htokens hd
    · -- the statement is read from the longer text too, and what is left there is shorter
      have hempty : c₁.tokens.isEmpty ≠ true := fun h => hne (List.isEmpty_iff.mp h)
      rw [if_neg hempty, ← hd₁.tokens] at htokens
      have hahead : Ahead B c₁ d₁ :=
        ⟨htokens, hc₁.failure.trans hc, hd₁.failure.trans hd, hc₁.lexed hlexed⟩
      obtain ⟨d₂, hs', -, hahead', hlt⟩ :=
        withGrammar_statement c₁ d₁ hahead (Nat.le_refl _) s c₂ hs
      rw [Bool.toNat_true] at hlt
      have hlength : d₂.rest.length < fuel' := by
        have hbefore := congrArg List.length hahead.tokens
        have hafter := congrArg List.length hahead'.tokens
        have := hd₁.length_le
        simp only [List.length_append, length_tokens] at hbefore hafter
        omega
      obtain ⟨d', hys⟩ := ih (c := c₂) (d := d₂) (by have := hc₁.length_le; omega) hlength
        (by rw [hahead'.tokens]) hahead'.failure hahead'.failure_behind hahead'.lexed hxs
      refine ⟨d', ?_⟩
      rw [heq', run_statementsBehind_iff]
      refine .inr ⟨?_, s, xs ++ ys, d₂, hs', hstops.ahead hahead', hys, rfl⟩
      rw [hahead.tokens]
      exact List.append_ne_nil_of_left_ne_nil hne _

/-- A text of which the statements are read was scanned to its end. -/
theorem failure_of_statementsFrom {fuel : Nat} {c c' : Cursor} {xs : List Statement}
    (hfuel : c.rest.length < fuel) (hlexed : ∀ t ∈ c.tokens, t.Lexed)
    (h : StateT.run (statementsFrom fuel) c = .ok (xs, c')) : c.failure = none := by
  induction fuel generalizing c xs with
  | zero => omega
  | succ fuel ih =>
    obtain ⟨c₁, htrimmed, heq⟩ := exists_run_statementsFrom fuel c
    rw [heq, run_statementsBehind_iff] at h
    rw [← htrimmed.failure]
    rcases h with ⟨-, hfailure, -⟩ | ⟨-, s, ys, c₂, hs, -, hys, -⟩
    · exact hfailure
    · have hahead : Ahead ⟨[], c₁.failure, .inl rfl⟩ c₁ c₁ :=
        ⟨(List.append_nil _).symm, rfl, rfl, htrimmed.lexed hlexed⟩
      obtain ⟨d, hd, -, hahead', hlt⟩ :=
        withGrammar_statement c₁ c₁ hahead (Nat.le_refl _) s c₂ hs
      rw [Bool.toNat_true] at hlt
      have := htrimmed.length_le
      exact hahead'.failure.symm.trans (ih (by omega) hahead'.lexed hys)

/-- Cursors before the same tokens read the same statements. -/
theorem run_statementsFrom_congr {fuel fuel' : Nat} {c c' d : Cursor} {xs : List Statement}
    (hfuel : c.rest.length < fuel) (hfuel' : d.rest.length < fuel')
    (htokens : d.tokens.dropWhile (· == .semicolon) = c.tokens.dropWhile (· == .semicolon))
    (hc : c.failure = none) (hd : d.failure = none) (hlexed : ∀ t ∈ c.tokens, t.Lexed)
    (hrun : StateT.run (statementsFrom fuel) c = .ok (xs, c')) :
    ∃ d', StateT.run (statementsFrom fuel') d = .ok (xs, d') := by
  rw [← List.append_nil xs]
  refine run_statementsFrom_append (B := ⟨[], none, .inl rfl⟩) ?_ hfuel hfuel' ?_ hc hd hlexed hrun
  · intro e fuel hfuel hnil hfailure
    obtain ⟨fuel, rfl⟩ := Nat.exists_eq_succ_of_ne_zero (Nat.ne_zero_of_lt hfuel)
    obtain ⟨e₁, he₁, heq⟩ := exists_run_statementsFrom fuel e
    refine ⟨e₁, ?_⟩
    rw [heq, run_statementsBehind_iff]
    exact .inl ⟨he₁.tokens.trans hnil, he₁.failure.trans hfailure, rfl, rfl⟩
  · rw [htokens, List.append_nil]

end Parser

/-! ## Texts one after the other -/

theorem tokens_cursor (text : String) :
    (Scan.ofString text).cursor.tokens = (Scan.ofString text).tokens.map Placed.token := rfl

theorem lexed_cursor (text : String) : ∀ t ∈ (Scan.ofString text).cursor.tokens, t.Lexed := by
  intro t ht
  obtain ⟨p, hp, rfl⟩ := List.mem_map.mp ht
  exact Lexeme.lexed_scanFrom _ _ _ p hp

theorem parseStatements_eq_ok_iff {text : String} {xs : List Statement} :
    parseStatements text = .ok xs ↔
      ∃ c, StateT.run (Parser.statementsFrom ((Scan.ofString text).cursor.rest.length + 1))
        (Scan.ofString text).cursor = .ok (xs, c) := by
  unfold parseStatements Parser.run Parser.statements
  rw [Parser.run_get_bind]
  constructor
  · intro h
    obtain ⟨⟨ys, c⟩, hrun, rfl⟩ := Except.exists_of_map_eq_ok h
    exact ⟨c, hrun⟩
  · rintro ⟨c, hrun⟩
    rw [hrun]
    rfl

/-- The statements of two texts with a semicolon between them are the statements of the one and those of
the other. -/
theorem parseStatements_join {s t : String} {xs ys : List Statement}
    (hs : parseStatements s = .ok xs) (ht : parseStatements t = .ok ys) :
    parseStatements (s ++ "\n;\n" ++ t) = .ok (xs ++ ys) := by
  obtain ⟨c, hc⟩ := parseStatements_eq_ok_iff.mp hs
  obtain ⟨e, he⟩ := parseStatements_eq_ok_iff.mp ht
  have hfailure := Parser.failure_of_statementsFrom (Nat.lt_succ_self _) (lexed_cursor s) hc
  have hfailure' := Parser.failure_of_statementsFrom (Nat.lt_succ_self _) (lexed_cursor t) he
  obtain ⟨htokens, hnone⟩ := Scan.ofString_join hfailure hfailure'
  rw [parseStatements_eq_ok_iff]
  refine Parser.run_statementsFrom_append
    (B := ⟨.semicolon :: (Scan.ofString t).cursor.tokens, none, .inr ⟨_, rfl⟩⟩) ?_
    (Nat.lt_succ_self _) (Nat.lt_succ_self _) ?_ hfailure hnone (lexed_cursor s) hc
  · intro d fuel hfuel hd hdfailure
    exact Parser.run_statementsFrom_congr (Nat.lt_succ_self _) hfuel hd hfailure' hdfailure
      (lexed_cursor t) he
  · rw [tokens_cursor, htokens]
    rfl

/-- A text with a line comment at its end, and one with a block comment, quotes and empty statements. -/
theorem parseStatements_join_comments :
    ∃ xs ys, parseStatements "SELECT ';' -- one;" = .ok xs ∧
      parseStatements ";; /* two; */ SELECT \"a;b\" FROM t; ;" = .ok ys ∧
      parseStatements ("SELECT ';' -- one;" ++ "\n;\n" ++ ";; /* two; */ SELECT \"a;b\" FROM t; ;") =
        .ok (xs ++ ys) := by
  obtain ⟨xs, hxs⟩ := exists_ok_of_isOk (r := parseStatements "SELECT ';' -- one;") (by decide +kernel)
  obtain ⟨ys, hys⟩ := exists_ok_of_isOk
    (r := parseStatements ";; /* two; */ SELECT \"a;b\" FROM t; ;") (by decide +kernel)
  exact ⟨xs, ys, hxs, hys, parseStatements_join hxs hys⟩

end SqlStore
