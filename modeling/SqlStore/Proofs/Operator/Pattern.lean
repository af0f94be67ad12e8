import SqlStore.Operator.Application
import SqlStore.Proofs.Text.Regex

/-!
# The texts that a pattern matches

A pattern spells parts, unless it ends inside an escape, and a text matches it if it can be cut into
pieces, one for each part, so that every part stands for its piece. The expression that the pattern is
translated into is always read, and read as these parts between the marks of the two ends. So it is found in
the texts that can be cut.
-/

namespace SqlStore

/-- A part of a pattern. -/
inductive PatternPart where
  | run
  | single
  | exactly (c : Char)

namespace PatternPart

/-! ## The parts that a pattern spells -/

/-- Read from the left, where a backslash takes the next character with it, the pattern ends with a
backslash that has no character to take. -/
inductive EndsInEscape : List Char → Prop where
  | backslash : EndsInEscape ['\\']
  | escaped (c : Char) {cs : List Char} : EndsInEscape cs → EndsInEscape ('\\' :: c :: cs)
  | plain {c : Char} {cs : List Char} : c ≠ '\\' → EndsInEscape cs → EndsInEscape (c :: cs)

/-- The characters of a pattern spell these parts. -/
inductive Spells : List Char → List PatternPart → Prop where
  | nil : Spells [] []
  | run {cs : List Char} {ps : List PatternPart} : Spells cs ps → Spells ('%' :: cs) (run :: ps)
  | single {cs : List Char} {ps : List PatternPart} : Spells cs ps → Spells ('_' :: cs) (single :: ps)
  | escaped (c : Char) {cs : List Char} {ps : List PatternPart} :
      Spells cs ps → Spells ('\\' :: c :: cs) (exactly c :: ps)
  | plain {c : Char} {cs : List Char} {ps : List PatternPart} :
      c ≠ '%' → c ≠ '_' → c ≠ '\\' → Spells cs ps → Spells (c :: cs) (exactly c :: ps)

/-- The expression of a part. -/
def expression : PatternPart → List Char
  | run => ['.', '*']
  | single => ['.']
  | exactly c => Regex.escape c

variable {c : Char} {cs e : List Char} {p : PatternPart} {ps : List PatternPart}

/-- The part that a character outside of an escape spells. -/
def ofChar (c : Char) : PatternPart := if c == '%' then run else if c == '_' then single else exactly c

theorem translate?_cons (hc : c ≠ '\\') :
    Pattern.translate? (c :: cs) = (Pattern.translate? cs).map ((ofChar c).expression ++ ·) := by
  have hpart : (if c == '%' then ['.', '*'] else if c == '_' then ['.'] else Regex.escape c) =
      (ofChar c).expression := by
    unfold ofChar
    split
    · rfl
    · split <;> rfl
  rw [Pattern.translate?, hpart]
  · exact fun h => absurd h hc
  · exact fun _ _ h => absurd h hc

theorem translate?_escaped (c : Char) (cs : List Char) : Pattern.translate? ('\\' :: c :: cs) =
    (Pattern.translate? cs).map (Regex.escape c ++ ·) := rfl

/-- A backslash is the last character or takes the next one. -/
theorem ne_backslash (hend : c = '\\' → cs = [] → False)
    (hescape : ∀ d ds, c = '\\' → cs = d :: ds → False) : c ≠ '\\' := by
  intro hc
  cases cs with
  | nil => exact hend hc rfl
  | cons d ds => exact hescape d ds hc rfl

theorem spells_ofChar (hc : c ≠ '\\') (h : Spells cs ps) : Spells (c :: cs) (ofChar c :: ps) := by
  unfold ofChar
  by_cases hrun : c = '%'
  · subst hrun
    exact .run h
  · rw [if_neg (by simpa using hrun)]
    by_cases hsingle : c = '_'
    · subst hsingle
      exact .single h
    · rw [if_neg (by simpa using hsingle)]
      exact .plain hrun hsingle hc h

theorem ofChar_of_plain (hrun : c ≠ '%') (hsingle : c ≠ '_') : ofChar c = exactly c := by
  unfold ofChar
  rw [if_neg (by simpa using hrun), if_neg (by simpa using hsingle)]

/-- A pattern is translated part by part. -/
theorem translate?_of_spells (h : Spells cs ps) : Pattern.translate? cs = some (ps.flatMap expression) := by
  induction h with
  | nil => rfl
  | run _ ih => rw [translate?_cons (by decide), ih]; rfl
  | single _ ih => rw [translate?_cons (by decide), ih]; rfl
  | escaped c _ ih => rw [translate?_escaped, ih]; rfl
  | plain hrun hsingle hc _ ih => rw [translate?_cons hc, ih, ofChar_of_plain hrun hsingle]; rfl

theorem exists_spells (h : Pattern.translate? cs = some e) : ∃ ps, Spells cs ps := by
  induction cs using Pattern.translate?.induct generalizing e with
  | case1 => exact ⟨[], .nil⟩
  | case2 => cases h
  | case3 c cs ih =>
    obtain ⟨inner, hinner, -⟩ := Option.map_eq_some_iff.mp h
    obtain ⟨ps, hps⟩ := ih hinner
    exact ⟨_, .escaped c hps⟩
  | case4 c cs hend hescape ih =>
    have hc := ne_backslash hend hescape
    rw [translate?_cons hc] at h
    obtain ⟨inner, hinner, -⟩ := Option.map_eq_some_iff.mp h
    obtain ⟨ps, hps⟩ := ih hinner
    exact ⟨_, spells_ofChar hc hps⟩

/-- The translation fails on the patterns that end inside an escape. -/
theorem translate?_eq_none_iff : Pattern.translate? cs = none ↔ EndsInEscape cs := by
  constructor
  · intro h
    induction cs using Pattern.translate?.induct with
    | case1 => cases h
    | case2 => exact .backslash
    | case3 c cs ih => exact .escaped c (ih (Option.map_eq_none_iff.mp h))
    | case4 c cs hend hescape ih =>
      have hc := ne_backslash hend hescape
      rw [translate?_cons hc] at h
      exact .plain hc (ih (Option.map_eq_none_iff.mp h))
  · intro h
    induction h with
    | backslash => rfl
    | escaped c _ ih => rw [translate?_escaped, ih]; rfl
    | plain hc _ ih => rw [translate?_cons hc, ih]; rfl

/-! ## The expression of a pattern -/

open Regex

/-- The words of the expression of a part. -/
def words : PatternPart → List Regex.Token
  | run => [.atom .any, .star]
  | single => [.atom .any]
  | exactly c => [.atom (.exactly c)]

/-- The piece that a part is read as. -/
def piece : PatternPart → Regex.Piece
  | run => .many .any
  | single => .one .any
  | exactly c => .one (.exactly c)

/-- A character without a meaning is a word that stands for itself. -/
theorem token?_of_not_isMeta (h : isMeta c = false) : token? c = some (.atom (.exactly c)) := by
  have hne (d : Char) (hd : isMeta d = true) : ¬ (c == d) = true := by
    intro heq
    obtain rfl := eq_of_beq heq
    rw [hd] at h
    cases h
  unfold token?
  rw [if_neg (hne '^' (by decide)), if_neg (hne '$' (by decide)), if_neg (hne '.' (by decide)),
    if_neg (hne '*' (by decide)), h]
  rfl

theorem tokens?_cons (hc : c ≠ '\\') :
    tokens? (c :: cs) = (token? c).bind fun t => (tokens? cs).map (t :: ·) := by
  rw [tokens?]
  exact fun _ _ h => absurd h hc

theorem tokens?_escape (c : Char) (cs : List Char) :
    tokens? (escape c ++ cs) = (tokens? cs).map (.atom (.exactly c) :: ·) := by
  unfold escape
  by_cases hmeta : isMeta c = true
  · rw [if_pos hmeta]
    show tokens? ('\\' :: c :: cs) = _
    rw [tokens?, if_pos hmeta]
  · have hplain : isMeta c = false := by simpa using hmeta
    have hc : c ≠ '\\' := by
      rintro rfl
      cases hplain
    rw [if_neg hmeta]
    show tokens? (c :: cs) = _
    rw [tokens?_cons hc, token?_of_not_isMeta hplain, Option.bind_some]

theorem tokens?_expression (p : PatternPart) (cs : List Char) :
    tokens? (p.expression ++ cs) = (tokens? cs).map (p.words ++ ·) := by
  have hdot (ds : List Char) : tokens? ('.' :: ds) = (tokens? ds).map (.atom .any :: ·) :=
    tokens?_cons (by decide)
  cases p with
  | run =>
    have hstar : tokens? ('*' :: cs) = (tokens? cs).map (.star :: ·) := tokens?_cons (by decide)
    show tokens? ('.' :: '*' :: cs) = _
    rw [hdot, hstar, Option.map_map]
    rfl
  | single => exact hdot cs
  | exactly c => exact tokens?_escape c cs

/-- No star stands at the front of the words of a pattern. -/
theorem words_ne_star (ps : List PatternPart) (ts : List Regex.Token) :
    ps.flatMap words ++ [.stop] ≠ .star :: ts := by
  intro h
  cases ps with
  | nil => cases h
  | cons p ps => cases p <;> cases h

theorem pieces?_atom {a : Regex.Atom} {ts : List Regex.Token} (h : ∀ rest, ts ≠ .star :: rest) :
    pieces? (.atom a :: ts) = (pieces? ts).map (.one a :: ·) := by
  rw [pieces?]
  exact fun rest => h rest

theorem pieces?_words (ps : List PatternPart) :
    pieces? (ps.flatMap words ++ [.stop]) = some (ps.map piece ++ [.stop]) := by
  induction ps with
  | nil => rfl
  | cons p ps ih =>
    have hstar := words_ne_star ps
    cases p with
    | run =>
      show pieces? (.atom .any :: .star :: (ps.flatMap words ++ [.stop])) = _
      rw [pieces?, ih]
      rfl
    | single =>
      show pieces? (.atom .any :: (ps.flatMap words ++ [.stop])) = _
      rw [pieces?_atom hstar, ih]
      rfl
    | exactly c =>
      show pieces? (.atom (.exactly c) :: (ps.flatMap words ++ [.stop])) = _
      rw [pieces?_atom hstar, ih]
      rfl

/-- The expression of a pattern is read as its parts between the marks of the two ends. -/
theorem read?_expression (ps : List PatternPart) :
    read? ('^' :: (ps.flatMap expression ++ ['$'])) = some (.start :: (ps.map piece ++ [.stop])) := by
  have hinner : tokens? (ps.flatMap expression ++ ['$']) = some (ps.flatMap words ++ [.stop]) := by
    induction ps with
    | nil => rfl
    | cons p ps ih =>
      rw [List.flatMap_cons, List.append_assoc, tokens?_expression, ih, List.flatMap_cons, List.append_assoc]
      rfl
  have hstart : tokens? ('^' :: (ps.flatMap expression ++ ['$'])) =
      (tokens? (ps.flatMap expression ++ ['$'])).map (.start :: ·) := tokens?_cons (by decide)
  unfold read?
  rw [hstart, hinner]
  show pieces? (.start :: (ps.flatMap words ++ [.stop])) = _
  rw [pieces?, pieces?_words]
  rfl

/-! ## The pieces of a text -/

/-- The part stands for the piece of a text, letters up to case if `ignoreCase`. -/
def StandsFor (ignoreCase : Bool) : PatternPart → List Char → Prop
  | run, _ => True
  | single, piece => ∃ c, piece = [c]
  | exactly p, piece => ∃ c, piece = [c] ∧ if ignoreCase then Text.fold p = Text.fold c else p = c

/-- The text can be cut into pieces for which the parts stand, one after the other. -/
def Matches (ignoreCase : Bool) (ps : List PatternPart) (text : List Char) : Prop :=
  ∃ pieces : List (List Char), List.Forall₂ (StandsFor ignoreCase) ps pieces ∧ pieces.flatten = text

variable {ignoreCase : Bool} {text suffix : List Char}

theorem matches_nil : Matches ignoreCase [] text ↔ text = [] := by
  constructor
  · rintro ⟨pieces, hpieces, rfl⟩
    cases hpieces
    rfl
  · rintro rfl
    exact ⟨[], .nil, rfl⟩

theorem matches_cons : Matches ignoreCase (p :: ps) text ↔
    ∃ taken rest, text = taken ++ rest ∧ p.StandsFor ignoreCase taken ∧ Matches ignoreCase ps rest := by
  constructor
  · rintro ⟨pieces, hpieces, rfl⟩
    obtain ⟨taken, rest, htaken, hrest, rfl⟩ := List.forall₂_cons_left_iff.mp hpieces
    exact ⟨taken, rest.flatten, rfl, htaken, rest, hrest, rfl⟩
  · rintro ⟨taken, _, rfl, htaken, rest, hrest, rfl⟩
    exact ⟨taken :: rest, .cons htaken hrest, rfl⟩

/-- The equality of characters that an expression is looked for with. -/
def sameLetter (ignoreCase : Bool) : Char → Char → Bool := if ignoreCase then sameFolded else (· == ·)

/-- A part that takes one character. -/
theorem matches_one {a : Regex.Atom} (hp : ∀ taken, p.StandsFor ignoreCase taken ↔
      ∃ c, taken = [c] ∧ a.accepts (sameLetter ignoreCase) c = true) :
    Matches ignoreCase (p :: ps) text ↔
      ∃ c rest, text = c :: rest ∧ a.accepts (sameLetter ignoreCase) c = true ∧
        Matches ignoreCase ps rest := by
  rw [matches_cons]
  constructor
  · rintro ⟨taken, rest, rfl, htaken, hrest⟩
    obtain ⟨c, rfl, haccepts⟩ := (hp taken).mp htaken
    exact ⟨c, rest, rfl, haccepts, hrest⟩
  · rintro ⟨c, rest, rfl, haccepts, hrest⟩
    exact ⟨[c], rest, rfl, (hp [c]).mpr ⟨c, rfl, haccepts⟩, hrest⟩

/-- The pieces of the parts match the suffixes that can be cut. -/
theorem matchesAt_iff (text : List Char) :
    MatchesAt (sameLetter ignoreCase) text (ps.map piece ++ [.stop]) suffix ↔
      Matches ignoreCase ps suffix := by
  induction ps generalizing suffix with
  | nil => exact (and_iff_left trivial).trans matches_nil.symm
  | cons p ps ih =>
    cases p with
    | run =>
      rw [matches_cons]
      show (∃ taken rest, _ ∧ (∀ c ∈ taken, true = true) ∧
        MatchesAt _ _ (ps.map piece ++ [.stop]) _) ↔ _
      simp only [ih, StandsFor, implies_true]
    | single =>
      rw [matches_one (a := .any) fun taken => by simp [StandsFor, Regex.Atom.accepts]]
      show (∃ c rest, _ ∧ _ ∧ MatchesAt _ _ (ps.map piece ++ [.stop]) _) ↔ _
      simp only [ih]
    | exactly d =>
      rw [matches_one (a := .exactly d) fun taken => by
        cases ignoreCase <;> simp [StandsFor, Regex.Atom.accepts, sameLetter, sameFolded]]
      show (∃ c rest, _ ∧ _ ∧ MatchesAt _ _ (ps.map piece ++ [.stop]) _) ↔ _
      simp only [ih]

/-- Between the marks of the two ends the expression is found as the whole text only. -/
theorem isMatch_expression (ps : List PatternPart) (text : List Char) :
    isMatch (sameLetter ignoreCase) (.start :: (ps.map piece ++ [.stop])) text = true ↔
      Matches ignoreCase ps text := by
  rw [isMatch_iff]
  constructor
  · rintro ⟨suffix, -, rfl, hmatches⟩
    exact (matchesAt_iff suffix).mp hmatches
  · exact fun hmatches => ⟨text, List.suffix_refl text, rfl, (matchesAt_iff text).mpr hmatches⟩

/-- The answer is whether the expression of the parts is found. -/
theorem likeText_of_spells {pattern : String} (h : Spells pattern.toList ps) (s : String) (ignoreCase : Bool) :
    likeText s pattern ignoreCase =
      .ok (isMatch (sameLetter ignoreCase) (.start :: (ps.map piece ++ [.stop])) s.toList) := by
  have hexpression : Pattern.expression? pattern = some ('^' :: (ps.flatMap expression ++ ['$'])) := by
    unfold Pattern.expression?
    rw [translate?_of_spells h]
    rfl
  unfold likeText
  rw [hexpression]
  dsimp only
  rw [read?_expression]
  rfl

theorem likeText_of_endsInEscape {pattern : String} (h : EndsInEscape pattern.toList) (s : String) :
    likeText s pattern ignoreCase =
      .error (.execution "LIKE pattern must not end with escape character") := by
  unfold likeText Pattern.expression?
  rw [translate?_eq_none_iff.mpr h]
  rfl

end PatternPart

open PatternPart in
/-- A pattern that ends inside an escape is refused. Any other one matches the texts that can be cut into
pieces, one for each part that it spells: a run stands for any piece, and every other part for a piece of
one character. -/
theorem like_cuts_text (s pattern : String) (ignoreCase : Bool) :
    (EndsInEscape pattern.toList → applyLike (.text s) (.text pattern) ignoreCase =
        .error (.execution "LIKE pattern must not end with escape character")) ∧
      (¬ EndsInEscape pattern.toList →
        ∃ b, applyLike (.text s) (.text pattern) ignoreCase = .ok (.boolean b) ∧
          (b = true ↔ ∃ ps, Spells pattern.toList ps ∧ Matches ignoreCase ps s.toList)) := by
  have hanswer : applyLike (.text s) (.text pattern) ignoreCase =
      (likeText s pattern ignoreCase).map .boolean := rfl
  rw [hanswer]
  constructor
  · intro hescape
    rw [likeText_of_endsInEscape hescape]
    rfl
  · intro hescape
    obtain ⟨e, he⟩ := Option.ne_none_iff_exists'.mp (mt translate?_eq_none_iff.mp hescape)
    obtain ⟨ps, hspells⟩ := exists_spells he
    have hlike := likeText_of_spells hspells s ignoreCase
    refine ⟨_, by rw [hlike]; rfl, ?_⟩
    constructor
    · exact fun hfound => ⟨ps, hspells, (isMatch_expression ps s.toList).mp hfound⟩
    · -- another spelling of the pattern has the same answer
      rintro ⟨qs, hqs, hmatches⟩
      have hsame := hlike.symm.trans (likeText_of_spells hqs s ignoreCase)
      rw [Except.ok.inj hsame]
      exact (isMatch_expression qs s.toList).mpr hmatches

/-- An escaped percent sign stands for itself, and a run may take a line break. -/
example : likeText "50%\n" "50\\%%" false = .ok true ∧ likeText "500" "50\\%" false = .ok false := by
  decide

end SqlStore
