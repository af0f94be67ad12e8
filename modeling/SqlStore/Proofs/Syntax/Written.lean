import SqlStore.Proofs.Syntax.Spelling

/-!
# Printed tokens

`Written t cs` says how a token may be written: as a word, as a quoted name or text, as digits, or as a mark. The
token at the front of a text is always so written, and what is so written is read as the token in front of every
blank. So tokens that are printed one after the other, with gaps between them, are cut again at the places where
they were printed.
-/

namespace SqlStore

/-- Operators and punctuation. -/
def Token.isSymbol : Token → Bool
  | keyword _ | ident _ | string _ | number _ => false
  | _ => true

namespace Lexeme

/-! ## How tokens are written -/

/-- Digits, with a point among them or not. -/
inductive Mantissa : List Char → Prop where
  | whole {ds : List Char} (hne : ds ≠ []) (h : ds.all Char.isDigit = true) : Mantissa ds
  | places {whole ds : List Char} (hne : whole ++ ds ≠ []) (hwhole : whole.all Char.isDigit = true)
    (hds : ds.all Char.isDigit = true) : Mantissa (whole ++ '.' :: ds)

/-- The exponent of a numeral, if there is one: its mark, a digit or a sign, and digits. -/
inductive Exponent : List Char → Prop where
  | nothing : Exponent []
  | mark {mark first : Char} {ds : List Char} (hmark : (mark == 'e' || mark == 'E') = true)
    (hfirst : (first.isDigit || first == '+' || first == '-') = true) (hds : ds.all Char.isDigit = true) :
    Exponent (mark :: first :: ds)

/-- The token may be written so. -/
inductive Written : Token → List Char → Prop where
  /-- A keyword or a name in any case. -/
  | word {c : Char} {cs : List Char} (hc : startsName c = true) (hcs : cs.all continuesName = true) :
    Written (word (String.ofList (c :: cs))) (c :: cs)
  | name {s : String} (hs : s ≠ "") : Written (.ident s) (quotedText '"' s)
  | string (s : String) : Written (.string s) (quotedText singleQuote s)
  | number {m e : List Char} (hm : Mantissa m) (he : Exponent e) :
    Written (.number (String.ofList (m ++ e))) (m ++ e)
  | symbol {t : Token} (ht : t.isSymbol = true) : Written t t.text.toList
  | different : Written .notEqual ['!', '=']

theorem written_keyword (k : Keyword) : Written (.keyword k) k.text.toList := by
  have hword : word k.text = .keyword k := by cases k <;> rfl
  have hcs : ∃ c cs, k.text.toList = c :: cs ∧ startsName c = true ∧ cs.all continuesName = true := by
    cases k <;> exact ⟨_, _, rfl, by decide, by decide⟩
  obtain ⟨c, cs, htext, hc, hcs⟩ := hcs
  have hwritten := Written.word hc hcs
  rwa [← htext, String.ofList_toList, hword] at hwritten

/-! ## Reading what is written -/

theorem eq_singleQuote {c : Char} (h : (c.toNat == 39) = true) : c = singleQuote := by
  rw [singleQuote, ← beq_iff_eq.mp h, Char.ofNat_toNat]

/-- A name begins with no quote and no digit. -/
theorem of_startsName {c : Char} (h : startsName c = true) :
    c ≠ singleQuote ∧ c ≠ '"' ∧ c.isDigit = false ∧ c ≠ '.' := by
  have hne : ∀ d, startsName d = false → c ≠ d := by
    rintro d hd rfl
    rw [h] at hd
    cases hd
  refine ⟨hne _ (by decide), hne _ (by decide), ?_, hne _ (by decide)⟩
  by_contra hdigit
  have hnone := Numeric.not_of_isDigit (p := startsName) (Bool.not_eq_false _ ▸ hdigit) (by decide)
  rw [h] at hnone
  cases hnone

theorem next_of_startsName {c : Char} (h : startsName c = true) (cs : List Char) :
    next (c :: cs) = .ok (word (String.ofList (c :: cs.takeWhile continuesName)), cs.dropWhile continuesName) := by
  obtain ⟨hsingle, hdouble, hdigit, hpoint⟩ := of_startsName h
  have hsingle : (c.toNat == 39) = false := Bool.eq_false_iff.mpr fun heq => hsingle (eq_singleQuote heq)
  unfold next
  dsimp only
  rw [hsingle, beq_false_of_ne hdouble, hdigit, beq_false_of_ne hpoint, Bool.false_and, Bool.or_false,
    if_neg Bool.false_ne_true, if_neg Bool.false_ne_true, if_neg Bool.false_ne_true, if_pos h]

/-- What a numeral begins with. -/
def startsNumeral (cs : List Char) : Bool :=
  match cs with
  | [] => false
  | c :: cs => c.isDigit || (c == '.' && cs.head?.any Char.isDigit)

theorem next_of_startsNumeral {cs : List Char} (h : startsNumeral cs = true) :
    next cs = .ok (.number (String.ofList (number cs).1), (number cs).2) := by
  cases cs with
  | nil => cases h
  | cons c cs =>
    have hquotes : (c.toNat == 39) = false ∧ (c == '"') = false := by
      rcases Bool.or_eq_true_iff.mp h with hdigit | hpoint
      · exact ⟨Numeric.not_of_isDigit (p := fun c => c.toNat == 39) hdigit (by decide),
          Numeric.not_of_isDigit (p := (· == '"')) hdigit (by decide)⟩
      · rw [beq_iff_eq.mp (Bool.and_eq_true_iff.mp hpoint).1]
        decide
    unfold next
    dsimp only
    rw [hquotes.1, hquotes.2, if_neg Bool.false_ne_true, if_neg Bool.false_ne_true]
    exact if_pos h

theorem next_symbol {t : Token} (ht : t.isSymbol = true) : next t.text.toList = .ok (t, []) := by
  cases t <;> first | rfl | cases ht

/-! ### Numerals -/

theorem Mantissa.startsNumeral {m : List Char} (h : Mantissa m) (more : List Char) :
    startsNumeral (m ++ more) = true := by
  cases h with
  | @whole ds hne hall =>
    obtain ⟨d, ds, rfl⟩ := List.exists_cons_of_ne_nil hne
    exact Bool.or_eq_true_iff.mpr (.inl (List.all_eq_true.mp hall d List.mem_cons_self))
  | @places whole ds hne hwhole hds =>
    cases whole with
    | nil =>
      obtain ⟨d, ds, rfl⟩ := List.exists_cons_of_ne_nil (l := ds) hne
      exact List.all_eq_true.mp hds d List.mem_cons_self
    | cons d whole => exact Bool.or_eq_true_iff.mpr (.inl (List.all_eq_true.mp hwhole d List.mem_cons_self))

/-- The characters of a kind in front of another one. -/
theorem takeWhile_append_of_all {p : Char → Bool} {ds rest : List Char} (h : ds.all p = true)
    (hrest : ∀ x ∈ rest.head?, p x = false) :
    (ds ++ rest).takeWhile p = ds ∧ (ds ++ rest).dropWhile p = rest := by
  have hall : ∀ x ∈ ds, p x = true := List.all_eq_true.mp h
  rw [List.takeWhile_append_of_pos hall, List.dropWhile_append_of_pos hall]
  cases rest with
  | nil => exact ⟨List.append_nil ds, rfl⟩
  | cons x rest =>
    have hx : ¬ p x = true := by rw [hrest x rfl]; exact Bool.false_ne_true
    rw [List.takeWhile_cons_of_neg hx, List.dropWhile_cons_of_neg hx, List.append_nil]
    exact ⟨rfl, rfl⟩

theorem Exponent.head {e : List Char} (h : Exponent e) : ∀ x ∈ e.head?, x.isDigit = false ∧ x ≠ '.' := by
  cases h with
  | nothing => rintro x ⟨⟩
  | mark hmark =>
    rintro x ⟨⟩
    rcases Bool.or_eq_true_iff.mp hmark with hx | hx <;> rw [beq_iff_eq.mp hx] <;> decide

theorem Exponent.exponent_eq {e : List Char} (h : Exponent e) : exponent e = (e, []) := by
  cases h with
  | nothing => rfl
  | mark hmark hfirst hds =>
    unfold exponent
    dsimp only
    rw [hmark, hfirst, Bool.and_self, if_pos rfl, takeWhile_of_all hds, dropWhile_of_all hds]

theorem number_written {m e : List Char} (hm : Mantissa m) (he : Exponent e) : number (m ++ e) = (m ++ e, []) := by
  have hdigit : ∀ x ∈ e.head?, x.isDigit = false := fun x hx => (he.head x hx).1
  have hnone : places e = ([], e) := by
    unfold places
    split
    · exact absurd rfl (he.head '.' rfl).2
    · rfl
  rw [number_eq]
  cases hm with
  | @whole ds _ hall =>
    obtain ⟨htake, hdrop⟩ := takeWhile_append_of_all hall hdigit
    rw [htake, hdrop, hnone, he.exponent_eq, List.append_nil]
  | @places whole ds _ hwhole hds =>
    have hpoint : ∀ x ∈ ('.' :: ds ++ e).head?, x.isDigit = false := by
      rintro x ⟨⟩
      decide
    obtain ⟨htake, hdrop⟩ := takeWhile_append_of_all hwhole hpoint
    obtain ⟨htake', hdrop'⟩ := takeWhile_append_of_all hds hdigit
    rw [List.append_assoc whole, htake, hdrop]
    simp only [Lexeme.places, List.cons_append, htake', hdrop', he.exponent_eq, List.append_assoc]

namespace Written

variable {t : Token} {w : List Char}

/-- What is written is that token. -/
theorem next (h : Written t w) : next w = .ok (t, []) := by
  cases h with
  | word hc hcs => rw [next_of_startsName hc, takeWhile_of_all hcs, dropWhile_of_all hcs]
  | @name s hs =>
    rw [← List.append_nil (quotedText '"' s)]
    exact next_name hs fun x hx => by cases hx
  | string s =>
    rw [← List.append_nil (quotedText singleQuote s)]
    exact next_string s fun x hx => by cases hx
  | number hm he => rw [next_of_startsNumeral (hm.startsNumeral _), number_written hm he]
  | symbol ht => exact next_symbol ht
  | different => rfl

theorem ne_nil (h : Written t w) : w ≠ [] := by
  rintro rfl
  cases h.next

end Written

theorem not_isBlank_of_symbol? {cs : List Char} {found : Token × List Char} (h : symbol? cs = some found) :
    ∀ c ∈ cs.head?, Text.isBlank c = false := by
  unfold symbol? at h
  split at h <;> cases h <;> rintro x ⟨⟩ <;> decide

/-- No token begins with a blank. -/
theorem not_isBlank_of_next {c : Char} {cs rest : List Char} {t : Token} (h : next (c :: cs) = .ok (t, rest)) :
    Text.isBlank c = false := by
  by_contra hblank
  have hblank := Bool.not_eq_false _ ▸ hblank
  have hx := mem_endMarks_of_isBlank hblank
  have hsingle : (c.toNat == 39) = false := not_of_mem_endMarks (p := fun c => c.toNat == 39) hx (by decide)
  have hdouble : c ≠ '"' := ne_of_mem_endMarks hx (by decide)
  have hdigit : c.isDigit = false := not_of_mem_endMarks hx (by decide)
  have hpoint : c ≠ '.' := ne_of_mem_endMarks hx (by decide)
  have hname : startsName c = false := not_of_mem_endMarks hx (by decide +kernel)
  unfold next at h
  dsimp only at h
  rw [hsingle, beq_false_of_ne hdouble, hdigit, beq_false_of_ne hpoint, hname, Bool.false_and, Bool.or_false,
    if_neg Bool.false_ne_true, if_neg Bool.false_ne_true, if_neg Bool.false_ne_true,
    if_neg Bool.false_ne_true] at h
  split at h
  · next hfound =>
    rw [not_isBlank_of_symbol? hfound c rfl] at hblank
    cases hblank
  · cases h

/-- A text that is one token begins with neither a blank nor a comment. -/
theorem front_of_next {w : List Char} {t : Token} (h : next w = .ok (t, [])) :
    (∀ c ∈ w.head?, Text.isBlank c = false) ∧ ¬ Comments w := by
  constructor
  · cases w with
    | nil => cases h
    | cons c w =>
      rintro x ⟨⟩
      exact not_isBlank_of_next h
  · -- the first mark of a comment is a token of its own
    rintro (⟨rest, rfl⟩ | ⟨rest, rfl⟩)
    · cases rest <;> cases h
    · cases h

/-! ## What stands at the front of a text -/

/-- Characters in which a quote is written twice. -/
def doubled (quote : Char) (cs : List Char) : List Char :=
  cs.flatMap fun c => if c == quote then [quote, quote] else [c]

theorem doubled_cons_self (quote : Char) (cs : List Char) :
    doubled quote (quote :: cs) = quote :: quote :: doubled quote cs := by
  rw [doubled, List.flatMap_cons, if_pos (beq_self_eq_true quote)]
  rfl

theorem doubled_cons_of_ne {quote c : Char} (h : ¬ (c == quote) = true) (cs : List Char) :
    doubled quote (c :: cs) = c :: doubled quote cs := by
  rw [doubled, List.flatMap_cons, if_neg h]
  rfl

section

variable {cs rest : List Char} {t : Token}

/-- What is read up to a closing quote is written in front of it. -/
theorem eq_of_quoted {quote : Char} {done s : List Char} (h : quoted quote done cs = some (s, rest)) :
    ∃ inner, s = done.reverse ++ inner ∧ cs = doubled quote inner ++ quote :: rest ∧
      ∀ x ∈ rest.head?, x ≠ quote := by
  -- a quote is doubled, or it closes, at the end or in front of another character; what else is read stays as it is
  fun_induction quoted quote done cs with
  | case1 => cases h
  | case2 done c hc =>
    cases h
    exact ⟨[], (List.append_nil _).symm, by rw [beq_iff_eq.mp hc]; rfl, by rintro x ⟨⟩⟩
  | case3 => cases h
  | case4 done c d cs hc hd ih =>
    obtain ⟨inner, rfl, rfl, hrest⟩ := ih h
    refine ⟨quote :: inner, by simp, ?_, hrest⟩
    rw [beq_iff_eq.mp hc, beq_iff_eq.mp hd, doubled_cons_self]
    rfl
  | case5 done c d cs hc hd =>
    cases h
    refine ⟨[], (List.append_nil _).symm, by rw [beq_iff_eq.mp hc]; rfl, ?_⟩
    rintro x ⟨⟩
    exact fun heq => hd (beq_iff_eq.mpr heq)
  | case6 done c d cs hc ih =>
    obtain ⟨inner, rfl, hcs, hrest⟩ := ih h
    refine ⟨c :: inner, by simp, ?_, hrest⟩
    rw [hcs, doubled_cons_of_ne hc]
    rfl

/-- Without a closing quote everything is inside. -/
theorem eq_of_not_quoted {quote : Char} {done : List Char} (h : quoted quote done cs = none) :
    ∃ inner, cs = doubled quote inner := by
  fun_induction quoted quote done cs with
  | case1 => exact ⟨[], rfl⟩
  | case2 => cases h
  | case3 done c hc => exact ⟨[c], (doubled_cons_of_ne hc []).symm⟩
  | case4 done c d cs hc hd ih =>
    obtain ⟨inner, rfl⟩ := ih h
    exact ⟨quote :: inner, by rw [beq_iff_eq.mp hc, beq_iff_eq.mp hd, doubled_cons_self]⟩
  | case5 => cases h
  | case6 done c d cs hc ih =>
    obtain ⟨inner, hcs⟩ := ih h
    exact ⟨c :: inner, by rw [hcs, doubled_cons_of_ne hc]⟩

theorem quotedText_eq (quote : Char) (s : List Char) :
    quotedText quote (String.ofList s) = quote :: (doubled quote s ++ [quote]) := by
  rw [quotedText, String.toList_ofList]
  rfl

/-! ### Numerals -/

theorem places_append_snd (cs : List Char) : (places cs).1 ++ (places cs).2 = cs := by
  unfold places
  split
  · rw [List.cons_append, List.takeWhile_append_dropWhile]
  · rfl

theorem exponent_append_snd (cs : List Char) : (exponent cs).1 ++ (exponent cs).2 = cs := by
  unfold exponent
  split
  · split
    · rw [List.cons_append, List.cons_append, List.takeWhile_append_dropWhile]
    · rfl
  · rfl

theorem isExponent (cs : List Char) : Exponent (exponent cs).1 := by
  unfold exponent
  split
  · split
    · next h =>
      rw [Bool.and_eq_true] at h
      exact .mark h.1 h.2 (all_takeWhile _ _)
    · exact .nothing
  · exact .nothing

theorem isMantissa (h : startsNumeral cs = true) :
    Mantissa (cs.takeWhile Char.isDigit ++ (places (cs.dropWhile Char.isDigit)).1) := by
  cases cs with
  | nil => cases h
  | cons c cs =>
    by_cases hdigit : c.isDigit = true
    · have hne : (c :: cs).takeWhile Char.isDigit ≠ [] := by
        rw [List.takeWhile_cons_of_pos hdigit]
        exact List.cons_ne_nil _ _
      unfold places
      split
      · exact .places (List.append_ne_nil_of_left_ne_nil hne _) (all_takeWhile _ _) (all_takeWhile _ _)
      · rw [List.append_nil]
        exact .whole hne (all_takeWhile _ _)
    · -- the point is in front, and a digit behind it
      obtain ⟨hpoint, hhead⟩ := Bool.and_eq_true_iff.mp ((Bool.or_eq_true_iff.mp h).resolve_left hdigit)
      rw [List.takeWhile_cons_of_neg hdigit, List.dropWhile_cons_of_neg hdigit, beq_iff_eq.mp hpoint]
      refine @Mantissa.places [] _ ?_ rfl (all_takeWhile _ _)
      cases cs with
      | nil => cases hhead
      | cons d cs =>
        have hd : d.isDigit = true := hhead
        rw [List.nil_append, List.takeWhile_cons_of_pos hd]
        exact List.cons_ne_nil _ _

theorem written_number (h : startsNumeral cs = true) :
    Written (.number (String.ofList (number cs).1)) (number cs).1 ∧ cs = (number cs).1 ++ (number cs).2 := by
  rw [number_eq]
  dsimp only
  refine ⟨.number (isMantissa h) (isExponent _), ?_⟩
  rw [List.append_assoc, exponent_append_snd, List.append_assoc, places_append_snd,
    List.takeWhile_append_dropWhile]

/-! ### Tokens -/

theorem written_symbol (h : symbol? cs = some (t, rest)) : ∃ w, Written t w ∧ cs = w ++ rest := by
  unfold symbol? at h
  split at h <;> cases h <;> first
    | exact ⟨_, .symbol rfl, rfl⟩
    | exact ⟨_, .different, rfl⟩

/-- The token at the front of a text is written there. -/
theorem written_of_next (h : next cs = .ok (t, rest)) : ∃ w, Written t w ∧ cs = w ++ rest := by
  cases cs with
  | nil => cases h
  | cons c cs =>
    by_cases hnumeral : startsNumeral (c :: cs) = true
    · rw [next_of_startsNumeral hnumeral] at h
      cases h
      exact ⟨_, written_number hnumeral⟩
    by_cases hname : startsName c = true
    · rw [next_of_startsName hname] at h
      cases h
      refine ⟨c :: cs.takeWhile continuesName, .word hname (all_takeWhile _ _), ?_⟩
      rw [List.cons_append, List.takeWhile_append_dropWhile]
    -- what is left are quotes and marks
    unfold next at h
    dsimp only at h
    split at h
    · next hsingle =>
      split at h
      · next s behind hquoted =>
        cases h
        obtain ⟨inner, rfl, rfl, -⟩ := eq_of_quoted hquoted
        refine ⟨_, .string _, ?_⟩
        rw [quotedText_eq, eq_singleQuote hsingle, List.cons_append, List.append_assoc]
        rfl
      · cases h
    · split at h
      · next hdouble =>
        split at h
        · cases h
        · next s behind hne hquoted =>
          cases h
          obtain ⟨inner, rfl, rfl, -⟩ := eq_of_quoted hquoted
          refine ⟨_, .name ?_, ?_⟩
          · exact fun hempty => hne (String.ofList_eq_empty_iff.mp hempty)
          · rw [quotedText_eq, beq_iff_eq.mp hdouble, List.cons_append, List.append_assoc]
            rfl
        · cases h
      · split at h
        · next hdigits => exact absurd hdigits hnumeral
        · split at h
          · next hfound =>
            cases h
            exact written_symbol hfound
          · cases h

end

/-! ## Gaps -/

/-- No comment ends inside. -/
def Unended (body : List Char) : Prop := ¬ ['*', '/'] <:+: body

/-- What stands between printed tokens: a blank, or a block comment between blanks. -/
inductive Gap : List Char → Prop where
  | blank {x : Char} (hx : Text.isBlank x = true) : Gap [x]
  | comment {x y : Char} {body : List Char} (hx : Text.isBlank x = true) (hy : Text.isBlank y = true)
    (hbody : Unended body) : Gap (x :: '/' :: '*' :: (body ++ ['*', '/', y]))

theorem Unended.tail {c : Char} {body : List Char} (h : Unended (c :: body)) : Unended body :=
  fun hinfix => h (List.infix_cons hinfix)

/-- A comment ends at its first end mark. -/
theorem afterComment_of_unended {body : List Char} (h : Unended body) (rest : List Char) :
    afterComment (body ++ '*' :: '/' :: rest) = some rest := by
  induction body with
  | nil => rfl
  | cons c body ih =>
    rw [List.cons_append, afterComment]
    · exact ih h.tail
    · rintro cs rfl hcs
      cases body with
      | nil => cases hcs
      | cons d body =>
        obtain ⟨rfl, -⟩ := List.cons.inj hcs
        exact h ⟨[], body, rfl⟩

namespace Gap

variable {gap : List Char}

theorem separated (h : Gap gap) (more : List Char) : Separated (gap ++ more) := by
  cases h with
  | blank hx =>
    rintro c ⟨⟩
    exact mem_endMarks_of_isBlank hx
  | comment hx =>
    rintro c ⟨⟩
    exact mem_endMarks_of_isBlank hx

theorem skipped_append (h : Gap gap) (more : List Char) : skipped (gap ++ more) = skipped more := by
  cases h with
  | blank hx => exact skipped_cons_of_isBlank hx more
  | @comment x y body hx hy hbody =>
    have hafter : afterComment (body ++ '*' :: '/' :: y :: more) = some (y :: more) :=
      afterComment_of_unended hbody _
    have hblock : skipped ('/' :: '*' :: (body ++ '*' :: '/' :: y :: more)) = skipped (y :: more) := by
      rw [skipped_block rfl, hafter]
    rw [List.cons_append, skipped_cons_of_isBlank hx, List.cons_append, List.cons_append, List.append_assoc]
    exact hblock.trans (skipped_cons_of_isBlank hy more)

end Gap

/-! ## Printing and cutting -/

/-- A printed token with the gap behind it. -/
structure Printed where
  token : Token
  text : List Char
  gap : List Char
  written : Written token text
  isGap : Gap gap

/-- The characters of a printed token and its gap. -/
def Printed.chars (p : Printed) : List Char := p.text ++ p.gap

/-- The tokens one behind the other. -/
def print (ps : List Printed) : List Char := ps.flatMap Printed.chars

/-- The tokens at the places where they are printed behind `offset` characters. -/
def placed (offset : Nat) : List Printed → List Placed
  | [] => []
  | p :: ps => ⟨p.token, offset⟩ :: placed (offset + p.chars.length) ps

/-- Only what is left behind blanks and comments is scanned. -/
theorem scanFrom_congr {finish fuel : Nat} {cs ds : List Char} (h : skipped cs = skipped ds) :
    scanFrom finish fuel cs = scanFrom finish fuel ds := by
  cases fuel with
  | zero => rfl
  | succ fuel => rw [scanFrom, scanFrom, show skip (cs.length + 1) cs = skip (ds.length + 1) ds from h]

/-- What is printed is cut at the places where it is printed. -/
theorem scanFrom_print (ps : List Printed) {finish offset fuel : Nat}
    (hfinish : offset + (print ps).length = finish) (hfuel : (print ps).length < fuel) :
    scanFrom finish fuel (print ps) = ⟨placed offset ps, none, finish⟩ := by
  -- the gap behind a token ends it, and it is skipped in front of the next one
  induction ps generalizing offset fuel with
  | nil =>
    obtain ⟨fuel, rfl⟩ := Nat.exists_eq_succ_of_ne_zero (Nat.ne_zero_of_lt hfuel)
    exact scanFrom_of_nil rfl
  | cons p ps ih =>
    have hchars : print (p :: ps) = p.text ++ (p.gap ++ print ps) := by
      rw [print, List.flatMap_cons, Printed.chars, List.append_assoc]
      rfl
    have hlength : (print (p :: ps)).length = p.chars.length + (print ps).length := by
      rw [print, List.flatMap_cons, List.length_append]
      rfl
    have hpos : 0 < p.chars.length := by
      rw [Printed.chars, List.length_append]
      exact Nat.add_pos_left (List.length_pos_of_ne_nil p.written.ne_nil) _
    obtain ⟨fuel, rfl⟩ := Nat.exists_eq_succ_of_ne_zero (Nat.ne_zero_of_lt hfuel)
    obtain ⟨hblank, hcomments⟩ := front_of_next p.written.next
    have hsep := p.isGap.separated (print ps)
    have hskipped := skipped_front p.written.ne_nil hblank hcomments hsep.no_comment
    rw [← hchars] at hskipped
    have hnext := next_front p.written.next hsep
    rw [← hchars] at hnext
    have hoffset : finish - (print (p :: ps)).length = offset := by omega
    have hrest : scanFrom finish fuel (print ps) = ⟨placed (offset + p.chars.length) ps, none, finish⟩ :=
      ih (by omega) (by omega)
    rw [scanFrom_of_next hskipped hnext, scanFrom_congr (p.isGap.skipped_append _), hrest, hoffset, placed]

end Lexeme

/-- Any tokens, in any of the ways in which they may be written, each with a gap behind it, are cut again from the
text that they are printed to: exactly these tokens, each at the place where it was printed, and nothing behind
them. -/
theorem Scan.ofString_print (ps : List Lexeme.Printed) :
    Scan.ofString (String.ofList (Lexeme.print ps)) =
      ⟨Lexeme.placed 0 ps, none, (Lexeme.print ps).length⟩ := by
  unfold Scan.ofString
  rw [String.toList_ofList]
  exact Lexeme.scanFrom_print ps (Nat.zero_add _) (Nat.lt_succ_self _)

namespace Sample

open Lexeme

/-- Tokens that would run together without the gaps. -/
def printed : List Printed := [
  ⟨.minus, ['-'], [' '], .symbol rfl, .blank (by decide)⟩,
  ⟨.longArrow, ['-', '>', '>'], ['\n'], .symbol rfl, .blank (by decide)⟩,
  ⟨.slash, ['/'], " /*-- \"**/ ".toList, .symbol rfl,
    @Gap.comment ' ' ' ' ['-', '-', ' ', '"', '*'] (by decide) (by decide) (by unfold Unended; decide)⟩,
  ⟨.keyword .select, "SELECT".toList, [' '], written_keyword .select, .blank (by decide)⟩,
  ⟨.ident "a\"b", quotedText '"' "a\"b", [' '], .name (by decide), .blank (by decide)⟩,
  ⟨.string "it's", quotedText singleQuote "it's", [' '], .string "it's", .blank (by decide)⟩,
  ⟨.number ".5e+", ".5e+".toList, [' '],
    .number (@Mantissa.places [] ['5'] (by decide) rfl rfl) (@Exponent.mark 'e' '+' [] rfl rfl rfl),
    .blank (by decide)⟩]

theorem scan_printed :
    Scan.ofString "- ->>\n/ /*-- \"**/ SELECT \"a\"\"b\" 'it''s' .5e+ " =
      ⟨[⟨.minus, 0⟩, ⟨.longArrow, 2⟩, ⟨.slash, 6⟩, ⟨.keyword .select, 18⟩, ⟨.ident "a\"b", 25⟩,
        ⟨.string "it's", 32⟩, ⟨.number ".5e+", 40⟩], none, 45⟩ := by
  have htext : String.ofList (print printed) = "- ->>\n/ /*-- \"**/ SELECT \"a\"\"b\" 'it''s' .5e+ " := by
    decide +kernel
  rw [← htext]
  exact (Scan.ofString_print printed).trans (by decide +kernel)

end Sample

end SqlStore
