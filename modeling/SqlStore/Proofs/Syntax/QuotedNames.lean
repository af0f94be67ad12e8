import SqlStore.Proofs.Syntax.Precedence
import SqlStore.Proofs.Syntax.Written

/-!
# Quoted names

A name between double quotes is the name of a column, whatever it contains, and it is behind the name of a table.
The exception are the four names of the clock, which are calls also between quotes, although a table may have
columns of these names.
-/

namespace SqlStore

open Lexeme

/-! ## Cutting -/

/-- A name ends at a point. -/
theorem Lexeme.Written.next_point {u : Token} {w : List Char} {table : String} (h : Written u w)
    (hu : u.name? = some table) (more : List Char) : Lexeme.next (w ++ '.' :: more) = .ok (u, '.' :: more) := by
  have hpoint : continuesName '.' = false := by decide
  cases h with
  | word hc hcs =>
    rw [List.cons_append, next_of_startsName hc, takeWhile_append_ends hpoint, dropWhile_append_ends hpoint,
      takeWhile_of_all hcs, dropWhile_of_all hcs, List.nil_append]
  | name hs =>
    refine next_name hs ?_
    rintro x ⟨⟩
    decide
  | string => cases hu
  | number => cases hu
  | symbol ht => cases u <;> first | cases ht; done | cases hu
  | different => cases hu

/-- The name of a table, a point, and a quoted name. -/
theorem lexes_qualified {u : Token} {w : List Char} {table s : String} (hw : Written u w)
    (hu : u.name? = some table) (hs : s ≠ "") :
    Lexes (w ++ '.' :: quotedText '"' s) [u, .period, .ident s] := by
  obtain ⟨hblank, hcomments⟩ := front_of_next hw.next
  have hskipped : skipped (w ++ '.' :: quotedText '"' s) = .ok (w ++ '.' :: quotedText '"' s) := by
    refine skipped_front hw.ne_nil hblank hcomments ?_
    rintro x ⟨⟩
    decide
  have hpoint : skipped ('.' :: quotedText '"' s) = .ok ('.' :: quotedText '"' s) := rfl
  exact .cons hskipped (hw.next_point hu _) (.cons hpoint rfl (Spells.name hs).lexes)

/-! ## Reading -/

/-- An operand alone is read as itself. -/
theorem parseExpression_of_operand {cs : List Char} (a : Operand) (h : Lexes cs a.tokens) :
    parseExpression (String.ofList cs) = .ok a.expression := by
  have hrow : rowTokens (OperatorTree.operand a).inorder = a.tokens := List.append_nil _
  refine parseExpression_of_reads h ?_
  rw [← hrow]
  exact Parser.expression_tree (t := .operand a) trivial (Nat.le_refl _)

namespace Parser

theorem Reads.semicolons {us : List Token} (h : us[0]? ≠ some .semicolon) (fuel : Nat) :
    Reads (semicolons fuel) [] us () := by
  cases fuel with
  | zero => exact .pure
  | succ fuel => exact .bind_nil (.take?_not h) .pure

/-- One statement is a whole text of statements. -/
theorem Reads.statements {ts : List Token} {s : Statement} (hfront : ∀ t ∈ ts[0]?, t ≠ .semicolon)
    (hne : ts ≠ []) (h : Reads (statement (grammar (ts.length + 1))) ts [] s) : Reads statements ts [] [s] := by
  obtain ⟨t, ts, rfl⟩ := List.exists_cons_of_ne_nil hne
  have hlength : ((t :: ts) ++ []).length = (t :: ts).length := by rw [List.append_nil]
  have hstatement : Reads (withGrammar statement) (t :: ts) [] s :=
    fuel_bind (f := fun n => statement (grammar (n + 1))) (by rwa [hlength])
  refine fuel_bind (f := fun n => statementsFrom (n + 1)) ?_
  rw [hlength]
  unfold statementsFrom
  refine fuel_bind (f := fun n => Parser.semicolons (n + 1) >>= _) (bind_nil (semicolons ?_ _) (bind_nil peek ?_))
  · rintro heq
    exact hfront _ rfl (Option.some.inj heq)
  · refine bind_last hstatement (bind_nil peek (bind_nil ?_ pure))
    unfold statementsFrom
    exact fuel_bind (f := fun n => Parser.semicolons (n + 1) >>= _)
      (bind_nil (semicolons (by rintro ⟨⟩) _) (bind_nil peek pure))

/-- A column without constraints, as the only one of a table. -/
theorem Reads.createTable {table column word : String} {type : TypeName} (g : Grammar)
    (htype : TypeName.resolve word [] = some type) :
    Reads (statement g)
      [.keyword .create, .keyword .table, .ident table, .openParen, .ident column, .ident word, .closeParen] []
      (.createTable ⟨none, table⟩ [⟨column, type, none, none, false, false⟩] false) := by
  have hcolumn : Reads (columnSpec g) [.ident column, .ident word] [.closeParen]
      ⟨column, type, none, none, false, false⟩ := by
    refine bind_cons ident (bind_last (typeName_word htype) ?_)
    exact fuel_bind (f := fun n => constraintsFrom g (n + 1) _) (bind_nil peek pure)
  have hcolumns : Reads (commaList (columnSpec g)) [.ident column, .ident word] [.closeParen]
      [⟨column, type, none, none, false, false⟩] := by
    refine fuel_bind (f := fun n => commaListFrom _ (n + 1)) ?_
    exact bind_last hcolumn (bind_nil (take?_not (by rintro ⟨⟩)) pure)
  have hname : Reads objectName [.ident table]
      [.openParen, .ident column, .ident word, .closeParen] ⟨none, table⟩ :=
    bind_cons ident (bind_nil (take?_not (by rintro ⟨⟩)) pure)
  have hbehind : Reads
      (do
        let columns ← Parser.commaList (columnSpec g)
        Parser.expect .closeParen
        return Statement.createTable ⟨none, table⟩ columns false)
      ([.ident column, .ident word] ++ [.closeParen]) []
      (.createTable ⟨none, table⟩ [⟨column, type, none, none, false, false⟩] false) :=
    bind hcolumns (bind_cons expect pure)
  refine bind_nil peek ?_
  refine bind_cons expectKeyword (bind_cons next (bind_nil (bind_nil (take?_not (by rintro ⟨⟩)) pure) ?_))
  exact bind_cons hname (bind_cons expect hbehind)

end Parser

/-- What is read from the tokens of a text. -/
theorem parseStatements_of_reads {cs : List Char} {ts : List Token} {xs : List Statement} (h : Lexes cs ts)
    (hreads : Parser.Reads Parser.statements ts [] xs) : parseStatements (String.ofList cs) = .ok xs := by
  obtain ⟨htokens, hfailure⟩ := Scan.ofString_of_lexes (s := String.ofList cs)
    (by rwa [String.toList_ofList])
  obtain ⟨c, hrun, -⟩ := hreads _ hfailure (by rw [tokens_cursor, htokens, List.append_nil])
  unfold parseStatements Parser.run
  rw [hrun]
  rfl

/-! ## Columns -/

/-- A table with one column of integers, whose name is quoted. -/
def createTableText (s : String) : List Char :=
  spaced ["CREATE".toList, "TABLE".toList, "t".toList, parens (spaced [quotedText '"' s, "integer".toList])]

/-- Its tokens. -/
def createTableTokens (s : String) : List Token :=
  [.keyword .create, .keyword .table, .ident "t", .openParen, .ident s, .ident "integer", .closeParen]

theorem lexes_createTableText {s : String} (hs : s ≠ "") : Lexes (createTableText s) (createTableTokens s) := by
  have htable : Spells "t".toList [.ident "t"] := DataType.spells_word rfl (by decide)
  have htype : Spells "integer".toList [.ident "integer"] := DataType.spells_name (t := .integer) trivial
  have hcolumn : Spells (spaced [quotedText '"' s, "integer".toList]) [.ident s, .ident "integer"] :=
    .spaced (.cons (.name hs) (.cons htype .nil))
  have hwords : Spells (createTableText s) (createTableTokens s) :=
    .spaced (.cons (.keyword .create) (.cons (.keyword .table) (.cons htable (.cons hcolumn.parens .nil))))
  exact hwords.lexes

theorem parseStatements_createTableText {s : String} (hs : s ≠ "") :
    parseStatements (String.ofList (createTableText s)) =
      .ok [.createTable ⟨none, "t"⟩ [⟨s, .plain .integer, none, none, false, false⟩] false] := by
  have htype : TypeName.resolve "integer" [] = some (.plain .integer) := rfl
  refine parseStatements_of_reads (lexes_createTableText hs)
    (.statements ?_ (List.cons_ne_nil _ _) (.createTable _ htype))
  rintro t ⟨⟩
  exact Token.noConfusion

/-- Let a name of at least one character be written between double quotes, each double quote in it twice. Behind the
name of a table and a point it is read as the column of that name, and in CREATE TABLE it names the column. Alone
it is the column of that name too, unless it is one of the names of the clock: these are calls. -/
theorem parseExpression_quotedName {s : String} (hs : s ≠ "") :
    parseExpression (String.ofList (quotedText '"' s)) =
      .ok (if nowNames.contains s then .call s [] else .column none s) ∧
    (∀ u w table, Written u w → u.name? = some table →
      parseExpression (String.ofList (w ++ '.' :: quotedText '"' s)) = .ok (.column (some table) s)) ∧
    parseStatements (String.ofList (createTableText s)) =
      .ok [.createTable ⟨none, "t"⟩ [⟨s, .plain .integer, none, none, false, false⟩] false] := by
  refine ⟨?_, ?_, ?_⟩
  · exact parseExpression_of_operand ⟨.ofName s, [.ident s], .name rfl⟩ (Spells.name hs).lexes
  · intro u w table hw hu
    exact parseExpression_of_operand ⟨.column (some table) s, [u, .period, .ident s], .qualified hu rfl⟩
      (lexes_qualified hw hu hs)
  · exact parseStatements_createTableText hs

namespace Sample

/-- A name with a keyword, quotes and the mark of a comment in it, and the name of the clock behind that of a
table. -/
theorem quotedNames_read :
    parseExpression "\"SELECT \"\"1\"\" --\"" = .ok (.column none "SELECT \"1\" --") ∧
      parseExpression "t.\"current_date\"" = .ok (.column (some "t") "current_date") := by
  have hword : word (String.ofList ['t']) = .ident "t" := by decide +kernel
  have htable : Written (.ident "t") ['t'] := hword ▸ @Written.word 't' [] rfl rfl
  have htext : String.ofList (['t'] ++ '.' :: quotedText '"' "current_date") = "t.\"current_date\"" := by
    decide +kernel
  constructor
  · exact (parseExpression_quotedName (s := "SELECT \"1\" --") (by decide)).1
  · rw [← htext]
    exact (parseExpression_quotedName (s := "current_date") (by decide)).2.1 _ ['t'] "t" htable rfl

/-- The date of today, where a table has a column of this name. -/
theorem quotedClock_called :
    parseExpression "\"current_date\"" = .ok (.call "current_date" []) ∧
      parseExpression "\"current_date\"" ≠ .ok (.column none "current_date") ∧
      parseStatements "CREATE TABLE t (\"current_date\" integer)" =
        .ok [.createTable ⟨none, "t"⟩ [⟨"current_date", .plain .integer, none, none, false, false⟩] false] := by
  have hname : "current_date" ≠ "" := by decide
  have hlexes : Lexes (quotedText '"' "current_date") [.ident "current_date"] := (Spells.name hname).lexes
  have htext : String.ofList (createTableText "current_date") = "CREATE TABLE t (\"current_date\" integer)" := by
    decide +kernel
  have hcall : parseExpression "\"current_date\"" = .ok (.call "current_date" []) :=
    parseExpression_of_operand ⟨.ofName "current_date", [.ident "current_date"], .name rfl⟩ hlexes
  refine ⟨hcall, ?_, ?_⟩
  · rw [hcall]
    nofun
  · rw [← htext]
    exact parseStatements_createTableText hname

end Sample

end SqlStore
