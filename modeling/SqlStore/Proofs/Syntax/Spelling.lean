import SqlStore.Proofs.Syntax.Consuming

/-!
# Spelling tokens

`Spells cs ts` says that a text is cut into the given tokens in front of every text that begins with an end
mark. Texts are put together with blanks, commas and parentheses; words, numerals and quoted texts spell
one token each.
-/

namespace SqlStore

namespace Lexeme

/-- A text that begins where a token ends. -/
def Separated (cs : List Char) : Prop := ∀ x ∈ cs.head?, x ∈ endMarks

/-- Nothing is skipped in front of a text that begins with neither a blank nor a comment. -/
theorem skipped_front {cs rest : List Char} (hne : cs ≠ []) (hblank : ∀ c ∈ cs.head?, Text.isBlank c = false)
    (hcomments : ¬ Comments cs) (hrest : ∀ x ∈ rest.head?, x ≠ '-' ∧ x ≠ '*') :
    skipped (cs ++ rest) = .ok (cs ++ rest) := by
  obtain ⟨c, cs, rfl⟩ := List.exists_cons_of_ne_nil hne
  have hdrop : ((c :: cs) ++ rest).dropWhile Text.isBlank = (c :: cs) ++ rest := by
    rw [List.cons_append, List.dropWhile_cons_of_neg]
    rw [hblank c rfl]
    exact Bool.false_ne_true
  rw [skipped_of_not_comments, hdrop]
  rw [hdrop]
  cases rest with
  | nil => rwa [List.append_nil]
  | cons x more => exact fun h => hcomments (h.of_append hne (hrest x rfl).1 (hrest x rfl).2)

/-- No comment goes on where tokens end. -/
theorem Separated.no_comment {cs : List Char} (h : Separated cs) : ∀ x ∈ cs.head?, x ≠ '-' ∧ x ≠ '*' :=
  fun x hx => ⟨ne_of_mem_endMarks (h x hx) (by decide), ne_of_mem_endMarks (h x hx) (by decide)⟩

/-- A text that is one token is that token in front of what begins where a token ends. -/
theorem next_front {cs rest : List Char} {t : Token} (h : next cs = .ok (t, [])) (hrest : Separated rest) :
    next (cs ++ rest) = .ok (t, rest) := by
  cases rest with
  | nil => rwa [List.append_nil]
  | cons x more => exact next_append (hrest x rfl) h

/-- The text is cut into these tokens, in front of every text that begins where a token ends. -/
def Spells (cs : List Char) (ts : List Token) : Prop :=
  ∀ rest us, Separated rest → Lexes rest us → Lexes (cs ++ rest) (ts ++ us)

/-- Texts with blanks between them. -/
def spaced : List (List Char) → List Char
  | [] => []
  | [cs] => cs
  | cs :: css => cs ++ ' ' :: spaced css

/-- Texts with commas between them. -/
def commas : List (List Char) → List Char
  | [] => []
  | [cs] => cs
  | cs :: css => cs ++ ',' :: ' ' :: commas css

/-- A text in parentheses. -/
def parens (cs : List Char) : List Char := '(' :: cs ++ [')']

/-- Marks that are tokens whatever follows them. -/
def marks : List (Char × Token) := [('(', .openParen), (')', .closeParen), (',', .comma)]

namespace Spells

variable {cs ds : List Char} {ts us : List Token} {t : Token}

theorem lexes (h : Spells cs ts) : Lexes cs ts := by
  have := h [] [] (fun x hx => by cases hx) (.nil rfl)
  rwa [List.append_nil, List.append_nil] at this

theorem nil : Spells [] [] := fun _ _ _ h => h

/-- A text without a blank in front that is one token. -/
theorem word (hblank : ∀ c ∈ cs.head?, Text.isBlank c = false) (hcomments : ¬ Comments cs)
    (h : next cs = .ok (t, [])) : Spells cs [t] := by
  intro rest us hrest hlexes
  refine .cons (skipped_front ?_ hblank hcomments hrest.no_comment) (next_front h hrest) hlexes
  rintro rfl
  cases h

theorem append (h : Spells cs ts) (h' : Spells ds us) (hne : ds ≠ []) (hsep : Separated ds) :
    Spells (cs ++ ds) (ts ++ us) := by
  intro rest vs hrest hlexes
  rw [List.append_assoc, List.append_assoc]
  refine h _ _ ?_ (h' rest vs hrest hlexes)
  obtain ⟨d, ds, rfl⟩ := List.exists_cons_of_ne_nil hne
  exact hsep

theorem blank (h : Spells cs ts) : Spells (' ' :: cs) ts := by
  intro rest us hrest hlexes
  have hblank : Text.isBlank ' ' = true := by decide
  exact (h rest us hrest hlexes).of_skipped_eq (skipped_cons_of_isBlank hblank _).symm

theorem mark {c : Char} (hc : (c, t) ∈ marks) (h : Spells cs ts) : Spells (c :: cs) (t :: ts) := by
  intro rest us hrest hlexes
  simp only [marks, List.mem_cons, Prod.mk.injEq, List.not_mem_nil, or_false] at hc
  have hskipped : skipped (c :: (cs ++ rest)) = .ok (c :: (cs ++ rest)) := by
    rcases hc with ⟨rfl, -⟩ | ⟨rfl, -⟩ | ⟨rfl, -⟩ <;> rfl
  have hnext : next (c :: (cs ++ rest)) = .ok (t, cs ++ rest) := by
    rcases hc with ⟨rfl, rfl⟩ | ⟨rfl, rfl⟩ | ⟨rfl, rfl⟩ <;> rfl
  exact .cons hskipped hnext (h rest us hrest hlexes)

theorem parens (h : Spells cs ts) : Spells (parens cs) (.openParen :: (ts ++ [.closeParen])) := by
  refine mark (by decide) (append h (mark (by decide) nil) (List.cons_ne_nil _ _) ?_)
  rintro x ⟨⟩
  decide

theorem spaced {css : List (List Char)} {tss : List (List Token)} (h : List.Forall₂ Spells css tss) :
    Spells (spaced css) tss.flatten := by
  induction h with
  | nil => exact nil
  | @cons cs ts css tss hcs hcss ih =>
    cases hcss with
    | nil =>
      rw [List.flatten_cons, List.flatten_nil, List.append_nil]
      exact hcs
    | cons =>
      refine append hcs (blank ih) (List.cons_ne_nil _ _) ?_
      rintro x ⟨⟩
      decide

theorem commas {css : List (List Char)} {tss : List (List Token)} (h : List.Forall₂ Spells css tss) :
    Spells (commas css) (Parser.commaTokens tss) := by
  induction h with
  | nil => exact nil
  | @cons cs ts css tss hcs hcss ih =>
    cases hcss with
    | nil => exact hcs
    | cons =>
      refine append hcs (mark (by decide) (blank ih)) (List.cons_ne_nil _ _) ?_
      rintro x ⟨⟩
      decide

end Spells

/-! ## Quoted texts -/

/-- Text between quotes, in which a quote is written twice. -/
def quotedText (quote : Char) (s : String) : List Char :=
  quote :: (s.toList.flatMap fun c => if c == quote then [quote, quote] else [c]) ++ [quote]

/-- The quote of texts. -/
def singleQuote : Char := Char.ofNat 39

theorem quoted_quotedText {quote : Char} {rest : List Char} (hrest : ∀ x ∈ rest.head?, x ≠ quote)
    (done cs : List Char) :
    quoted quote done ((cs.flatMap fun c => if c == quote then [quote, quote] else [c]) ++ quote :: rest) =
      some (done.reverse ++ cs, rest) := by
  induction cs generalizing done with
  | nil =>
    cases rest with
    | nil => simp [quoted]
    | cons x rest =>
      have hx : x ≠ quote := hrest x rfl
      simp [quoted, hx]
  | cons c cs ih =>
    by_cases hc : c = quote
    · subst hc
      have h := ih (c :: done)
      rw [List.reverse_cons, List.append_assoc] at h
      simp only [List.flatMap_cons, beq_self_eq_true, if_true, List.cons_append, List.nil_append]
      rw [quoted, if_pos (beq_self_eq_true c), if_pos (beq_self_eq_true c)]
      exact h
    · have h := ih (c :: done)
      rw [List.reverse_cons, List.append_assoc] at h
      have hne : ¬ (c == quote) = true := fun heq => hc (beq_iff_eq.mp heq)
      rw [List.flatMap_cons, if_neg hne, List.singleton_append, List.cons_append]
      generalize (cs.flatMap fun c => if c == quote then [quote, quote] else [c]) ++ quote :: rest =
        text at h ⊢
      cases text with
      | nil => cases h
      | cons d text =>
        rw [quoted, if_neg hne]
        exact h

theorem quotedText_append (quote : Char) (s : String) (rest : List Char) :
    quotedText quote s ++ rest =
      quote :: ((s.toList.flatMap fun c => if c == quote then [quote, quote] else [c]) ++ quote :: rest) := by
  unfold quotedText
  rw [List.cons_append, List.cons_append, List.append_assoc]
  rfl

theorem next_name {s : String} {rest : List Char} (hs : s ≠ "") (hrest : ∀ x ∈ rest.head?, x ≠ '"') :
    next (quotedText '"' s ++ rest) = .ok (.ident s, rest) := by
  have hquoted := quoted_quotedText hrest [] s.toList
  rw [List.reverse_nil, List.nil_append] at hquoted
  obtain ⟨c, cs, hcs⟩ := List.exists_cons_of_ne_nil (l := s.toList) fun hnil =>
    hs (String.toList_eq_nil_iff.mp hnil)
  rw [quotedText_append]
  unfold next
  dsimp only
  rw [if_neg (by decide), if_pos (by decide), hquoted, hcs]
  dsimp only
  rw [← hcs, String.ofList_toList]

theorem next_string (s : String) {rest : List Char} (hrest : ∀ x ∈ rest.head?, x ≠ singleQuote) :
    next (quotedText singleQuote s ++ rest) = .ok (.string s, rest) := by
  have hquoted := quoted_quotedText hrest [] s.toList
  rw [List.reverse_nil, List.nil_append] at hquoted
  rw [quotedText_append]
  unfold next
  dsimp only
  rw [if_pos (by decide), hquoted]
  dsimp only
  rw [String.ofList_toList]

namespace Spells

theorem name {s : String} (hs : s ≠ "") : Spells (quotedText '"' s) [.ident s] := by
  refine word ?_ ?_ ?_
  · rintro x ⟨⟩
    decide
  · rintro (⟨rest, hrest⟩ | ⟨rest, hrest⟩) <;> cases hrest
  · rw [← List.append_nil (quotedText '"' s)]
    exact next_name hs fun x hx => by cases hx

theorem string (s : String) : Spells (quotedText singleQuote s) [.string s] := by
  refine word ?_ ?_ ?_
  · rintro x ⟨⟩
    decide
  · rintro (⟨rest, hrest⟩ | ⟨rest, hrest⟩) <;> cases hrest
  · rw [← List.append_nil (quotedText singleQuote s)]
    exact next_string s fun x hx => by cases hx

/-- The name of a column behind that of its table. -/
theorem qualified {table column : String} (htable : table ≠ "") (hcolumn : column ≠ "") :
    Spells (quotedText '"' table ++ '.' :: quotedText '"' column) [.ident table, .period, .ident column] := by
  intro rest us hrest hlexes
  have hfront : ∀ s more, skipped (quotedText '"' s ++ more) = .ok (quotedText '"' s ++ more) :=
    fun _ _ => rfl
  rw [List.append_assoc]
  refine .cons (hfront _ _) (next_name htable ?_) (.cons rfl rfl (name hcolumn rest us hrest hlexes))
  rintro x ⟨⟩
  decide

/-! ## Words -/

theorem keyword (k : Keyword) : Spells k.text.toList [.keyword k] := by
  refine word ?_ ?_ ?_
  · cases k <;> rintro x ⟨⟩ <;> decide
  · rintro (⟨rest, hrest⟩ | ⟨rest, hrest⟩) <;> cases k <;> cases hrest
  · cases k <;> rfl

end Spells

/-! ## Numerals -/

theorem takeWhile_of_all {p : Char → Bool} {cs : List Char} (h : cs.all p = true) : cs.takeWhile p = cs :=
  List.takeWhile_eq_self_iff.mpr fun c hc => List.all_eq_true.mp h c hc

theorem dropWhile_of_all {p : Char → Bool} {cs : List Char} (h : cs.all p = true) : cs.dropWhile p = [] :=
  List.dropWhile_eq_nil_iff.mpr fun c hc => List.all_eq_true.mp h c hc

theorem number_of_whole {cs : List Char} (h : cs.all Char.isDigit = true) : number cs = (cs, []) := by
  rw [number_eq, takeWhile_of_all h, dropWhile_of_all h]
  simp [places, exponent]

theorem number_of_places {whole ds : List Char} (hwhole : whole.all Char.isDigit = true)
    (hds : ds.all Char.isDigit = true) :
    number (whole ++ '.' :: ds) = (whole ++ '.' :: ds, []) := by
  have hpoint : '.'.isDigit = false := by decide
  rw [number_eq, takeWhile_append_ends hpoint, dropWhile_append_ends hpoint, takeWhile_of_all hwhole,
    dropWhile_of_all hwhole]
  simp [places, exponent, takeWhile_of_all hds, dropWhile_of_all hds]

theorem Spells.number {c : Char} {cs : List Char} (hc : c.isDigit = true)
    (h : number (c :: cs) = (c :: cs, [])) : Spells (c :: cs) [.number (String.ofList (c :: cs))] := by
  refine word ?_ ?_ ?_
  · rintro x ⟨⟩
    exact Numeric.not_of_isDigit hc (by decide)
  · rintro (⟨rest, hrest⟩ | ⟨rest, hrest⟩)
    · rw [(List.cons.inj hrest).1] at hc
      cases hc
    · rw [(List.cons.inj hrest).1] at hc
      cases hc
  · have hsingle : (c.toNat == 39) = false := Numeric.not_of_isDigit (p := fun c => c.toNat == 39) hc (by decide)
    have hdouble : (c == '"') = false := Numeric.not_of_isDigit (p := (· == '"')) hc (by decide)
    unfold next
    dsimp only
    rw [hsingle, hdouble, hc, Bool.true_or, if_neg Bool.false_ne_true, if_neg Bool.false_ne_true,
      if_pos rfl, h]

theorem Spells.whole {cs : List Char} (hne : cs ≠ []) (h : cs.all Char.isDigit = true) :
    Spells cs [.number (String.ofList cs)] := by
  obtain ⟨c, cs, rfl⟩ := List.exists_cons_of_ne_nil hne
  exact number (List.all_eq_true.mp h c List.mem_cons_self) (number_of_whole h)

theorem Spells.digits (n : Nat) : Spells (Text.digits n) [.number (Text.showInt n)] := by
  rw [Text.showInt_natCast]
  exact .whole (Text.digits_ne_nil n) (Text.all_digits n)

theorem Spells.places {whole ds : List Char} (hne : whole ≠ []) (hwhole : whole.all Char.isDigit = true)
    (hds : ds.all Char.isDigit = true) :
    Spells (whole ++ '.' :: ds) [.number (String.ofList (whole ++ '.' :: ds))] := by
  obtain ⟨c, whole, rfl⟩ := List.exists_cons_of_ne_nil hne
  exact number (List.all_eq_true.mp hwhole c List.mem_cons_self) (number_of_places hwhole hds)

end Lexeme

/-! ## Operators -/

/-- The text of an operator in front of its operand. -/
def UnaryOp.symbol : UnaryOp → String
  | not => "NOT"
  | minus => "-"
  | plus => "+"

/-- The token of an operator in front of its operand. -/
def UnaryOp.token : UnaryOp → Token
  | not => .keyword .not
  | minus => .minus
  | plus => .plus

/-- The token of an operator between operands. -/
def BinaryOp.token : BinaryOp → Token
  | or => .keyword .or
  | and => .keyword .and
  | equal => .equal
  | notEqual => .notEqual
  | less => .less
  | lessEqual => .lessEqual
  | greater => .greater
  | greaterEqual => .greaterEqual
  | concat => .concat
  | contains => .contains
  | containedBy => .containedBy
  | jsonGet => .arrow
  | jsonGetText => .longArrow
  | add => .plus
  | subtract => .minus
  | multiply => .asterisk
  | divide => .slash
  | remainder => .percent

theorem UnaryOp.unaryOp?_token (op : UnaryOp) : op.token.unaryOp? = some op := by cases op <;> rfl

theorem BinaryOp.binaryOp?_token (op : BinaryOp) : op.token.binaryOp? = some op := by cases op <;> rfl

namespace Lexeme

theorem Spells.unaryOp (op : UnaryOp) : Spells op.symbol.toList [op.token] := by
  refine word ?_ ?_ ?_
  · cases op <;> rintro x ⟨⟩ <;> decide
  · rintro (⟨rest, hrest⟩ | ⟨rest, hrest⟩) <;> cases op <;> cases hrest
  · cases op <;> rfl

theorem Spells.binaryOp (op : BinaryOp) : Spells op.symbol.toList [op.token] := by
  refine word ?_ ?_ ?_
  · cases op <;> rintro x ⟨⟩ <;> decide
  · rintro (⟨rest, hrest⟩ | ⟨rest, hrest⟩) <;> cases op <;> cases hrest
  · cases op <;> rfl

end Lexeme

/-! ## Types -/

namespace DataType

/-- The tokens of the name of a type. -/
def tokens : DataType → List Token
  | numeric (some p) (some s) =>
    [.ident "numeric", .openParen, .number (Text.showInt p), .comma, .number (Text.showInt s),
      .closeParen]
  | double => [.ident "double", .ident "precision"]
  | varchar => [.ident "character", .ident "varying"]
  | t => [.ident t.name]

theorem spells_word {w : String} (hnext : Lexeme.next w.toList = .ok (.ident w, []))
    (hfront : w.toList.head?.any (fun c => Text.isBlank c || c == '-' || c == '/') = false) :
    Lexeme.Spells w.toList [.ident w] := by
  cases hw : w.toList with
  | nil =>
    rw [hw] at hnext
    cases hnext
  | cons c cs =>
    rw [hw] at hnext hfront
    simp only [List.head?_cons, Option.any_some, Bool.or_eq_false_iff, beq_eq_false_iff_ne] at hfront
    refine .word ?_ ?_ hnext
    · rintro x ⟨⟩
      exact hfront.1.1
    · rintro (⟨rest, hrest⟩ | ⟨rest, hrest⟩)
      · exact hfront.1.2 (List.cons.inj hrest).1
      · exact hfront.2 (List.cons.inj hrest).1

theorem spells_words {v w : String} (hv : Lexeme.Spells v.toList [.ident v])
    (hw : Lexeme.Spells w.toList [.ident w]) :
    Lexeme.Spells (Lexeme.spaced [v.toList, w.toList]) [.ident v, .ident w] :=
  .spaced (.cons hv (.cons hw .nil))

theorem spells_numeric (p s : Nat) :
    Lexeme.Spells (numeric (some p) (some s)).name.toList (numeric (some p) (some s)).tokens := by
  have hname : (numeric (some p) (some s)).name.toList =
      "numeric".toList ++ Lexeme.parens (Text.digits p ++ ',' :: Text.digits s) := by
    show ("numeric(" ++ Text.showInt p ++ "," ++ Text.showInt s ++ ")").toList = _
    rw [Text.showInt_natCast, Text.showInt_natCast]
    simp only [String.toList_append, String.toList_ofList, Lexeme.parens, List.append_assoc,
      List.cons_append]
    rfl
  have hargs : Lexeme.Spells (Text.digits p ++ ',' :: Text.digits s)
      ([.number (Text.showInt p)] ++ .comma :: [.number (Text.showInt s)]) := by
    refine (Lexeme.Spells.digits p).append (.mark (by decide) (.digits s)) (List.cons_ne_nil _ _) ?_
    rintro x ⟨⟩
    decide
  rw [hname]
  refine (spells_word rfl (by decide)).append hargs.parens (List.cons_ne_nil _ _) ?_
  rintro x ⟨⟩
  decide

theorem spells_name {t : DataType} (h : t.Legible) : Lexeme.Spells t.name.toList t.tokens := by
  cases t with
  | numeric precision scale =>
    cases precision with
    | none =>
      cases scale with
      | none => exact spells_word rfl (by decide)
      | some s => exact h.elim
    | some p =>
      cases scale with
      | none => exact h.elim
      | some s => exact spells_numeric p s
  | double =>
    exact spells_words (v := "double") (w := "precision") (spells_word rfl (by decide))
      (spells_word rfl (by decide))
  | varchar =>
    exact spells_words (v := "character") (w := "varying") (spells_word rfl (by decide))
      (spells_word rfl (by decide))
  | _ => exact spells_word rfl (by decide)

end DataType

namespace Parser

theorem modifier?_showInt {n : Nat} (h : n < UInt32.size) : modifier? (Text.showInt n) = some n := by
  unfold modifier?
  rw [Text.showInt_natCast, String.toList_ofList, Text.nat?_digits]
  exact Option.filter_some_pos (decide_eq_true h)

namespace Reads

variable {us : List Token}

theorem typeArgs {p s : Nat} (hp : p < UInt32.size) (hs : s < UInt32.size) (fuel : Nat) :
    Reads (typeArgsFrom (fuel + 2))
      [.number (Text.showInt p), .comma, .number (Text.showInt s), .closeParen] us [p, s] := by
  unfold typeArgsFrom
  refine bind_cons next ?_
  dsimp only
  rw [modifier?_showInt hp]
  refine bind_nil pure (bind_cons take? (bind_last ?_ pure))
  unfold typeArgsFrom
  refine bind_cons next ?_
  dsimp only
  rw [modifier?_showInt hs]
  exact bind_nil pure (bind_nil (take?_not (by rintro ⟨⟩)) (bind_cons expect pure))

/-- A word that begins no longer name stands alone. -/
theorem typeWords_self (w : String) (h : ∀ v, us[0]? ≠ some (.ident v)) :
    Reads (typeWords w) [] us w := by
  unfold typeWords
  split
  · exact bind_nil (take?_not (h _)) pure
  · split
    · exact bind_nil (take?_not (h _)) pure
    · split
      · exact bind_nil (take?_not (h _)) (bind_nil (take?_not (h _)) pure)
      · exact pure

theorem typeName_word {w : String} {t : TypeName} (h : TypeName.resolve w [] = some t) :
    Reads typeName [.ident w] (.closeParen :: us) t := by
  unfold typeName
  refine peekPosition_bind fun i => bind_cons ident (bind_nil (typeWords_self w (by rintro v ⟨⟩)) ?_)
  refine bind_nil (take?_not (by rintro ⟨⟩)) (bind_nil pure ?_)
  dsimp only
  rw [h]
  exact pure

theorem typeName_words {v w : String} {t : TypeName}
    (hwords : Reads (typeWords v) [.ident w] (.closeParen :: us) (v ++ " " ++ w))
    (h : TypeName.resolve (v ++ " " ++ w) [] = some t) :
    Reads typeName [.ident v, .ident w] (.closeParen :: us) t := by
  unfold typeName
  refine peekPosition_bind fun i => bind_cons ident (bind_cons hwords ?_)
  refine bind_nil (take?_not (by rintro ⟨⟩)) (bind_nil pure ?_)
  dsimp only
  rw [h]
  exact pure

/-- The name of a type is read in front of a closing parenthesis. -/
theorem typeName {t : DataType} (h : t.Legible) :
    ∃ name : TypeName, name.datatype = t ∧ Reads typeName t.tokens (.closeParen :: us) name := by
  cases t with
  | numeric precision scale =>
    cases precision with
    | none =>
      cases scale with
      | none => exact ⟨_, rfl, typeName_word rfl⟩
      | some s => exact h.elim
    | some p =>
      cases scale with
      | none => exact h.elim
      | some s =>
        refine ⟨.plain (.numeric (some p) (some s)), rfl, ?_⟩
        unfold Parser.typeName
        refine peekPosition_bind fun i => bind_cons ident (bind_nil (typeWords_self _ (by rintro v ⟨⟩)) ?_)
        refine bind_cons take? (fuel_bind (f := fun n => typeArgsFrom (n + 1) >>= _) ?_)
        refine bind_last (typeArgs h.1 h.2 _) ?_
        exact pure
  | double => exact ⟨_, rfl, typeName_words (bind_cons take? pure) rfl⟩
  | varchar => exact ⟨_, rfl, typeName_words (bind_cons take? pure) rfl⟩
  | _ => exact ⟨_, rfl, typeName_word rfl⟩

end Reads

end Parser

end SqlStore
