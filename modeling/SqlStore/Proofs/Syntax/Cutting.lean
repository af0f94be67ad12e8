import SqlStore.Proofs.Syntax.Written

/-!
# Cutting a text into tokens

Scanning cuts a text into tokens with gaps in front of them, up to its end or up to a text in which no token and
no gap ends. What stops it there is a quote or a block comment without its end, or a character with which no token
begins.
-/

namespace SqlStore

namespace Lexeme

/-! ## Gaps -/

/-- What stands between a place and a later one: blanks, line comments and block comments. -/
inductive Skips : List Char → List Char → Prop where
  | here (cs : List Char) : Skips cs cs
  | blank {c : Char} {cs rest : List Char} (hc : Text.isBlank c = true) (hrest : Skips cs rest) :
    Skips (c :: cs) rest
  | line {body cs rest : List Char} (hbody : '\n' ∉ body) (hend : ∀ c ∈ cs.head?, c = '\n')
    (hrest : Skips cs rest) : Skips ('-' :: '-' :: (body ++ cs)) rest
  | block {body cs rest : List Char} (hbody : Unended body) (hrest : Skips cs rest) :
    Skips ('/' :: '*' :: (body ++ '*' :: '/' :: cs)) rest

/-- What no token begins with and no gap: a quoted text or name or a block comment without its end, or a
character that begins no token. -/
inductive Malformed : List Char → Prop where
  | string (s : List Char) : Malformed (singleQuote :: doubled singleQuote s)
  | name (s : List Char) : Malformed ('"' :: doubled '"' s)
  | comment {body : List Char} (hbody : Unended body) : Malformed ('/' :: '*' :: body)
  | stray {c : Char} {cs : List Char} (h : ∀ t w, Written t w → ¬ w <+: c :: cs) : Malformed (c :: cs)

theorem Skips.blanks {blanks cs rest : List Char} (h : ∀ c ∈ blanks, Text.isBlank c = true)
    (hrest : Skips cs rest) : Skips (blanks ++ cs) rest := by
  induction blanks with
  | nil => exact hrest
  | cons c blanks ih =>
    obtain ⟨hc, hblanks⟩ := List.forall_mem_cons.mp h
    exact .blank hc (ih hblanks)

theorem Skips.of_dropWhile {cs rest : List Char} (h : Skips (cs.dropWhile Text.isBlank) rest) : Skips cs rest := by
  rw [← List.takeWhile_append_dropWhile (p := Text.isBlank) (l := cs)]
  exact h.blanks fun c hc => List.mem_takeWhile_imp hc

theorem Skips.length_le {cs rest : List Char} (h : Skips cs rest) : rest.length ≤ cs.length := by
  induction h with
  | here => exact Nat.le_refl _
  | blank _ _ ih => exact Nat.le_succ_of_le ih
  | line _ _ _ ih =>
    simp only [List.length_cons, List.length_append]
    omega
  | block _ _ ih =>
    simp only [List.length_cons, List.length_append]
    omega

theorem skips_line (cs : List Char) {rest : List Char} (h : Skips (cs.dropWhile (· != '\n')) rest) :
    Skips ('-' :: '-' :: cs) rest := by
  rw [← List.takeWhile_append_dropWhile (p := (· != '\n')) (l := cs)]
  refine .line (fun hmem => ?_) (fun c hc => ?_) h
  · have hne := List.mem_takeWhile_imp hmem
    exact absurd hne (by decide)
  · have hnot := List.head?_dropWhile_not (· != '\n') cs
    rw [Option.mem_def.mp hc] at hnot
    simpa using hnot

/-- A comment ends at its first end mark, if there is one. -/
theorem afterComment_cases (cs : List Char) :
    (∃ body rest, afterComment cs = some rest ∧ Unended body ∧ cs = body ++ '*' :: '/' :: rest) ∨
      (afterComment cs = none ∧ Unended cs) := by
  fun_induction afterComment cs with
  | case1 => exact .inr ⟨rfl, by unfold Unended; decide⟩
  | case2 cs => exact .inl ⟨[], cs, rfl, by unfold Unended; decide, rfl⟩
  | case3 c cs hne ih =>
    -- a character in front brings no end of a comment, for that would have been found here
    have hcons : ∀ body, Unended body → (∀ d ds, body = d :: ds → ∃ ds', cs = d :: ds') → Unended (c :: body) := by
      intro body hbody hfront hinfix
      rcases List.infix_cons_iff.mp hinfix with ⟨more, hprefix⟩ | hinfix
      · obtain ⟨hstar, hslash⟩ := List.cons.inj hprefix
        obtain ⟨ds', hcs⟩ := hfront '/' more hslash.symm
        exact hne ds' hstar.symm hcs
      · exact hbody hinfix
    rcases ih with ⟨body, rest, hafter, hbody, rfl⟩ | ⟨hafter, hcs⟩
    · refine .inl ⟨c :: body, rest, hafter, hcons body hbody ?_, rfl⟩
      rintro d ds rfl
      exact ⟨_, rfl⟩
    · exact .inr ⟨hafter, hcons cs hcs fun d ds hds => ⟨ds, hds⟩⟩

/-- Skipping has gone over a gap, and if it failed then in front of a comment without an end. -/
def Passed (cs : List Char) : Except (List Char) (List Char) → Prop
  | .ok rest => Skips cs rest
  | .error rest => Skips cs rest ∧ Malformed rest

theorem Passed.behind {cs ds : List Char} {outcome : Except (List Char) (List Char)} (h : Passed ds outcome)
    (hskips : ∀ rest, Skips ds rest → Skips cs rest) : Passed cs outcome := by
  cases outcome with
  | ok rest => exact hskips rest h
  | error rest => exact ⟨hskips rest h.1, h.2⟩

theorem passed_skipped (cs : List Char) : Passed cs (skipped cs) := by
  refine skipped_cases (P := Passed) ?_ ?_ ?_ ?_ cs
  · exact fun hrest h => h.behind fun _ h => .of_dropWhile (hrest ▸ skips_line _ h)
  · intro cs rest rest' r hrest hafter h
    obtain ⟨body, behind, hfound, hbody, rfl⟩ | ⟨hnone, -⟩ := afterComment_cases rest
    · cases hfound.symm.trans hafter
      exact h.behind fun _ h => .of_dropWhile (hrest ▸ .block hbody h)
    · cases hnone.symm.trans hafter
  · intro cs rest hrest hafter
    obtain ⟨body, behind, hfound, -⟩ | ⟨-, hbody⟩ := afterComment_cases rest
    · cases hfound.symm.trans hafter
    · exact ⟨.of_dropWhile (hrest ▸ .here _), .comment hbody⟩
  · exact fun _ => .of_dropWhile (.here _)

/-! ## Tokens and what is no token -/

/-- The marks of which every one that begins with them begins a token. -/
def marksAlone : List Char := ['-', '<', '>', '*', '(', ')', ',', ';', '.', '+', '/', '%', '=']

theorem symbol?_cons {c : Char} (h : c ∈ marksAlone) (cs : List Char) : symbol? (c :: cs) ≠ none := by
  intro hnone
  unfold symbol? at hnone
  split at hnone <;> cases hnone
  simp only [marksAlone, List.mem_cons, List.not_mem_nil, or_false] at h
  rcases h with rfl | rfl | rfl | rfl | rfl | rfl | rfl | rfl | rfl | rfl | rfl | rfl | rfl <;> solve_by_elim

/-- A mark is found in front of anything. -/
theorem symbol?_text {t : Token} (ht : t.isSymbol = true) (more : List Char) :
    symbol? (t.text.toList ++ more) ≠ none := by
  cases t with
  | keyword | ident | string | number => cases ht
  | concat | contains | doubleColon => exact Option.some_ne_none _
  | notEqual => exact symbol?_cons (c := '<') (by decide) _
  | openParen => exact symbol?_cons (c := '(') (by decide) _
  | _ => exact symbol?_cons (by decide) _

/-- What a text begins with that begins with a token. -/
theorem Written.begins {t : Token} {w : List Char} (h : Written t w) (more : List Char) :
    (∃ cs, w ++ more = singleQuote :: cs) ∨
      (∃ s, s ≠ [] ∧ w ++ more = '"' :: (doubled '"' s ++ '"' :: more)) ∨
      (∃ c cs, w ++ more = c :: cs ∧ startsName c = true) ∨
      startsNumeral (w ++ more) = true ∨ symbol? (w ++ more) ≠ none := by
  cases h with
  | word hc => exact .inr (.inr (.inl ⟨_, _, rfl, hc⟩))
  | @name s hs =>
    refine .inr (.inl ⟨s.toList, fun hnil => hs (String.toList_eq_nil_iff.mp hnil), ?_⟩)
    exact quotedText_append '"' s more
  | string s => exact .inl ⟨_, quotedText_append singleQuote s more⟩
  | number hm =>
    rw [List.append_assoc]
    exact .inr (.inr (.inr (.inl (hm.startsNumeral _))))
  | symbol ht => exact .inr (.inr (.inr (.inr (symbol?_text ht more))))
  | different => exact .inr (.inr (.inr (.inr (Option.some_ne_none _))))

/-- No token is a quoted name without a character. -/
theorem malformed_noName {behind : List Char} (h : ∀ x ∈ behind.head?, x ≠ '"') :
    Malformed ('"' :: '"' :: behind) := by
  refine .stray ?_
  rintro t w hw ⟨more, hmore⟩
  rcases hw.begins more with ⟨cs, hcs⟩ | ⟨s, hs, hcs⟩ | ⟨c, cs, hcs, hc⟩ | hnumeral | hsymbol
  · exact absurd (List.cons.inj (hmore.symm.trans hcs)).1 (by decide)
  · obtain ⟨c, s, rfl⟩ := List.exists_cons_of_ne_nil hs
    have hbehind := (List.cons.inj (hmore.symm.trans hcs)).2
    by_cases hc : (c == '"') = true
    · rw [beq_iff_eq.mp hc, doubled_cons_self] at hbehind
      rw [(List.cons.inj hbehind).2] at h
      exact h '"' rfl rfl
    · rw [doubled_cons_of_ne hc] at hbehind
      exact hc (beq_iff_eq.mpr (List.cons.inj hbehind).1.symm)
  · rw [← (List.cons.inj (hmore.symm.trans hcs)).1] at hc
    exact absurd hc (by decide)
  · rw [hmore] at hnumeral
    cases hnumeral
  · rw [hmore] at hsymbol
    exact hsymbol rfl

/-- A text in which nothing goes on. -/
theorem malformed_of_next {c : Char} {cs : List Char} {message : String} (h : next (c :: cs) = .error message) :
    Malformed (c :: cs) := by
  by_cases hnumeral : startsNumeral (c :: cs) = true
  · rw [next_of_startsNumeral hnumeral] at h
    cases h
  by_cases hname : startsName c = true
  · rw [next_of_startsName hname] at h
    cases h
  -- quotes fail without their end, a quoted name also without a character; marks fail where there is none
  unfold next at h
  dsimp only at h
  split at h
  · next hsingle =>
    have hquote := eq_singleQuote hsingle
    split at h
    · cases h
    · next hquoted =>
      obtain ⟨inner, rfl⟩ := eq_of_not_quoted hquoted
      exact hquote ▸ .string inner
  · next hsingle =>
    have hsingle : c ≠ singleQuote := fun heq => hsingle (heq ▸ rfl)
    split at h
    · next hdouble =>
      obtain rfl := beq_iff_eq.mp hdouble
      split at h
      · next behind hquoted =>
        obtain ⟨inner, hinner, rfl, hbehind⟩ := eq_of_quoted hquoted
        rw [List.reverse_nil, List.nil_append] at hinner
        subst hinner
        exact malformed_noName hbehind
      · cases h
      · next hquoted =>
        obtain ⟨inner, rfl⟩ := eq_of_not_quoted hquoted
        exact .name inner
    · next hdouble =>
      split at h
      · cases h
      · split at h
        · cases h
        · next hnone =>
          refine .stray ?_
          rintro t w hw ⟨more, hmore⟩
          rcases hw.begins more with ⟨ds, hds⟩ | ⟨s, -, hds⟩ | ⟨d, ds, hds, hd⟩ | hnumber | hsymbol
          · exact hsingle (List.cons.inj (hmore.symm.trans hds)).1
          · exact hdouble (beq_iff_eq.mpr (List.cons.inj (hmore.symm.trans hds)).1)
          · exact hname ((List.cons.inj (hmore.symm.trans hds)).1 ▸ hd)
          · exact hnumeral (hmore ▸ hnumber)
          · rw [hmore] at hsymbol
            exact hsymbol hnone

/-! ## Cutting -/

/-- A text of which `finish` counts the characters up to the end is cut into tokens up to `rest`, each token at its
offset behind a gap. -/
inductive Cut (finish : Nat) : List Char → List Placed → List Char → Prop where
  | stop {cs rest : List Char} (hgap : Skips cs rest) : Cut finish cs [] rest
  | token {cs w behind rest : List Char} {t : Token} {ps : List Placed} (hgap : Skips cs (w ++ behind))
    (hw : Written t w) (hbehind : Cut finish behind ps rest) :
    Cut finish cs (⟨t, finish - (w ++ behind).length⟩ :: ps) rest

/-- Tokens stand one behind the other. -/
theorem Cut.ascending {finish : Nat} {cs rest : List Char} {ps : List Placed} (h : Cut finish cs ps rest)
    (hle : cs.length ≤ finish) :
    (ps.map Placed.offset).Pairwise (· < ·) ∧ ∀ p ∈ ps, finish - cs.length ≤ p.offset := by
  induction h with
  | stop => exact ⟨.nil, List.forall_mem_nil _⟩
  | @token cs w behind rest t ps hgap hw hbehind ih =>
    have hgap := hgap.length_le
    have hw := List.length_pos_of_ne_nil hw.ne_nil
    rw [List.length_append] at hgap
    obtain ⟨hascending, hfrom⟩ := ih (by omega)
    constructor
    · refine List.pairwise_cons.mpr ⟨List.forall_mem_map.mpr fun p hp => ?_, hascending⟩
      have hp := hfrom p hp
      rw [List.length_append]
      dsimp only
      omega
    · refine List.forall_mem_cons.mpr ⟨?_, fun p hp => ?_⟩
      · rw [List.length_append]
        dsimp only
        omega
      · have hp := hfrom p hp
        omega

/-- Scanning cuts a text up to its end, or up to what stops it. -/
theorem cut_scanFrom {finish fuel : Nat} {cs : List Char} (hfuel : cs.length < fuel) :
    ∃ rest, Cut finish cs (scanFrom finish fuel cs).tokens rest ∧
      (((scanFrom finish fuel cs).failure = none ∧ rest = []) ∨
        ∃ message, (scanFrom finish fuel cs).failure = some (.parse message (finish - rest.length)) ∧
          Malformed rest) := by
  induction fuel generalizing cs with
  | zero => omega
  | succ fuel ih =>
    have hpassed := passed_skipped cs
    cases hskipped : skipped cs with
    | ok front =>
      have hgap : Skips cs front := by rwa [hskipped] at hpassed
      cases hnext : next front with
      | ok found =>
        obtain ⟨t, behind⟩ := found
        have hlength := length_of_skipped hskipped
        have hbehind := length_of_next hnext
        obtain ⟨w, hw, rfl⟩ := written_of_next hnext
        obtain ⟨rest, hcut, hend⟩ := @ih behind (by omega)
        rw [scanFrom_of_next hskipped hnext]
        exact ⟨rest, .token hgap hw hcut, hend⟩
      | error message =>
        cases front with
        | nil =>
          rw [scanFrom_of_nil hskipped]
          exact ⟨[], .stop hgap, .inl ⟨rfl, rfl⟩⟩
        | cons c front =>
          rw [scanFrom, show skip (cs.length + 1) cs = .ok (c :: front) from hskipped]
          dsimp only
          rw [hnext]
          exact ⟨c :: front, .stop hgap, .inr ⟨message, rfl, malformed_of_next hnext⟩⟩
    | error rest =>
      obtain ⟨hgap, hmalformed⟩ : Skips cs rest ∧ Malformed rest := by rwa [hskipped] at hpassed
      rw [scanFrom, show skip (cs.length + 1) cs = .error rest from hskipped]
      exact ⟨rest, .stop hgap, .inr ⟨_, rfl, hmalformed⟩⟩

theorem finish_scanFrom (finish fuel : Nat) (cs : List Char) : (scanFrom finish fuel cs).finish = finish := by
  induction fuel generalizing cs with
  | zero => rfl
  | succ fuel ih =>
    unfold scanFrom
    split
    · rfl
    · rfl
    · dsimp only
      split
      · rfl
      · exact ih _

end Lexeme

end SqlStore
