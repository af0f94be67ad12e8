import Mathlib.Data.List.TakeWhile
import SqlStore.Syntax.Token

/-!
# Cutting text into tokens

`Lexes cs ts` says that a text is cut into tokens without a failure; offsets are left out. A text that is
followed by a character at which every token ends is cut as it is on its own, so texts that are put one
behind the other with such a character between them give their tokens one behind the other.
-/

namespace SqlStore

namespace Lexeme

/-! ## Blanks and comments -/

theorem length_dropWhile_le (p : Char → Bool) (cs : List Char) : (cs.dropWhile p).length ≤ cs.length :=
  (List.dropWhile_suffix p).length_le

theorem length_of_afterComment {cs rest : List Char} (h : afterComment cs = some rest) :
    rest.length + 2 ≤ cs.length := by
  fun_induction afterComment cs with
  | case1 => cases h
  | case2 cs =>
    cases h
    exact Nat.le_refl _
  | case3 c cs _ ih => exact Nat.le_succ_of_le (ih h)

theorem afterComment_append {cs rest : List Char} (h : afterComment cs = some rest) (more : List Char) :
    afterComment (cs ++ more) = some (rest ++ more) := by
  fun_induction afterComment cs with
  | case1 => cases h
  | case2 cs =>
    cases h
    rfl
  | case3 c cs hne ih =>
    rw [List.cons_append, afterComment]
    · exact ih h
    · -- the end mark is not at the front of the longer text either
      intro cs' hc hcs
      cases cs with
      | nil => cases h
      | cons d cs =>
        obtain ⟨rfl, rfl⟩ := List.cons.inj hcs
        exact hne cs hc rfl

/-- More fuel than characters is as good as any. -/
theorem skip_eq_of_lt {n m : Nat} {cs : List Char} (hn : cs.length < n) (hm : cs.length < m) :
    skip n cs = skip m cs := by
  induction n generalizing m cs with
  | zero => omega
  | succ n ih =>
    obtain ⟨m, rfl⟩ := Nat.exists_eq_succ_of_ne_zero (Nat.ne_zero_of_lt hm)
    have hle := length_dropWhile_le Text.isBlank cs
    unfold skip
    split
    · next rest heq =>
      have := length_dropWhile_le (· != '\n') rest
      rw [heq] at hle
      simp only [List.length_cons] at hle
      exact ih (by omega) (by omega)
    · next rest heq =>
      rw [heq] at hle
      simp only [List.length_cons] at hle
      cases hafter : afterComment rest with
      | none => rfl
      | some rest' =>
        have := length_of_afterComment hafter
        exact ih (by omega) (by omega)
    · rfl

/-- The text behind blanks and comments. -/
def skipped (cs : List Char) : Except (List Char) (List Char) := skip (cs.length + 1) cs

theorem skip_eq_skipped {n : Nat} {cs : List Char} (h : cs.length < n) : skip n cs = skipped cs :=
  skip_eq_of_lt h (Nat.lt_succ_self _)

section

variable {cs rest : List Char}

theorem skipped_line (h : cs.dropWhile Text.isBlank = '-' :: '-' :: rest) :
    skipped cs = skipped (rest.dropWhile (· != '\n')) := by
  have hle := length_dropWhile_le Text.isBlank cs
  have := length_dropWhile_le (· != '\n') rest
  rw [h, List.length_cons, List.length_cons] at hle
  rw [skipped, skip, h]
  exact skip_eq_skipped (by omega)

theorem skipped_block (h : cs.dropWhile Text.isBlank = '/' :: '*' :: rest) :
    skipped cs = match afterComment rest with
      | some rest' => skipped rest'
      | none => .error ('/' :: '*' :: rest) := by
  have hle := length_dropWhile_le Text.isBlank cs
  rw [h, List.length_cons, List.length_cons] at hle
  rw [skipped, skip, h]
  show (match afterComment rest with
    | some rest' => skip cs.length rest'
    | none => .error ('/' :: '*' :: rest)) = _
  cases hafter : afterComment rest with
  | none => rfl
  | some rest' =>
    have := length_of_afterComment hafter
    exact skip_eq_skipped (by omega)

/-- The text begins a comment. -/
def Comments (cs : List Char) : Prop :=
  (∃ rest, cs = '-' :: '-' :: rest) ∨ ∃ rest, cs = '/' :: '*' :: rest

theorem skipped_of_not_comments (h : ¬ Comments (cs.dropWhile Text.isBlank)) :
    skipped cs = .ok (cs.dropWhile Text.isBlank) := by
  rw [skipped, skip]
  split
  · next rest heq => exact absurd (.inl ⟨rest, heq⟩) h
  · next rest heq => exact absurd (.inr ⟨rest, heq⟩) h
  · rfl

theorem skipped_cons_of_isBlank {c : Char} (h : Text.isBlank c = true) (cs : List Char) :
    skipped (c :: cs) = skipped cs := by
  have heq : (c :: cs).dropWhile Text.isBlank = cs.dropWhile Text.isBlank :=
    List.dropWhile_cons_of_pos h
  by_cases hcomments : Comments (cs.dropWhile Text.isBlank)
  · rcases hcomments with ⟨rest, hrest⟩ | ⟨rest, hrest⟩
    · rw [skipped_line (heq.trans hrest), skipped_line hrest]
    · rw [skipped_block (heq.trans hrest), skipped_block hrest]
  · rw [skipped_of_not_comments (heq ▸ hcomments), skipped_of_not_comments hcomments, heq]

theorem skipped_append_of_isBlank {blanks : List Char} (h : ∀ c ∈ blanks, Text.isBlank c = true)
    (cs : List Char) : skipped (blanks ++ cs) = skipped cs := by
  induction blanks with
  | nil => rfl
  | cons c blanks ih =>
    obtain ⟨hc, hblanks⟩ := List.forall_mem_cons.mp h
    rw [List.cons_append, skipped_cons_of_isBlank hc, ih hblanks]

/-- A comment that begins in a text that something else follows. -/
theorem Comments.of_append {x : Char} {more : List Char} (hne : cs ≠ []) (hdash : x ≠ '-')
    (hstar : x ≠ '*') (h : Comments (cs ++ x :: more)) : Comments cs := by
  obtain ⟨c, cs, rfl⟩ := List.exists_cons_of_ne_nil hne
  rcases h with ⟨rest, hrest⟩ | ⟨rest, hrest⟩
  · obtain ⟨rfl, hbehind⟩ := List.cons.inj hrest
    cases cs with
    | nil => exact absurd (List.cons.inj hbehind).1 hdash
    | cons d cs =>
      obtain ⟨rfl, -⟩ := List.cons.inj hbehind
      exact .inl ⟨cs, rfl⟩
  · obtain ⟨rfl, hbehind⟩ := List.cons.inj hrest
    cases cs with
    | nil => exact absurd (List.cons.inj hbehind).1 hstar
    | cons d cs =>
      obtain ⟨rfl, -⟩ := List.cons.inj hbehind
      exact .inr ⟨cs, rfl⟩

/-- Skipping by one comment after the other, up to one without an end if there is one. -/
theorem skipped_cases {P : List Char → Except (List Char) (List Char) → Prop}
    (hline : ∀ {cs rest r}, cs.dropWhile Text.isBlank = '-' :: '-' :: rest →
      P (rest.dropWhile (· != '\n')) r → P cs r)
    (hblock : ∀ {cs rest rest' r}, cs.dropWhile Text.isBlank = '/' :: '*' :: rest →
      afterComment rest = some rest' → P rest' r → P cs r)
    (hopen : ∀ {cs rest}, cs.dropWhile Text.isBlank = '/' :: '*' :: rest → afterComment rest = none →
      P cs (.error ('/' :: '*' :: rest)))
    (hend : ∀ {cs}, ¬ Comments (cs.dropWhile Text.isBlank) → P cs (.ok (cs.dropWhile Text.isBlank)))
    (cs : List Char) : P cs (skipped cs) := by
  -- what is left behind a comment is shorter, not smaller in structure
  induction hn : cs.length using Nat.strongRecOn generalizing cs with
  | ind n ih =>
    subst hn
    have hle := length_dropWhile_le Text.isBlank cs
    by_cases hcomments : Comments (cs.dropWhile Text.isBlank)
    · rcases hcomments with ⟨rest, hrest⟩ | ⟨rest, hrest⟩
      · have := length_dropWhile_le (· != '\n') rest
        rw [hrest, List.length_cons, List.length_cons] at hle
        rw [skipped_line hrest]
        exact hline hrest (ih _ (by omega) _ rfl)
      · rw [hrest, List.length_cons, List.length_cons] at hle
        rw [skipped_block hrest]
        cases hafter : afterComment rest with
        | none => exact hopen hrest hafter
        | some rest' =>
          have := length_of_afterComment hafter
          exact hblock hrest hafter (ih _ (by omega) _ rfl)
    · rw [skipped_of_not_comments hcomments]
      exact hend hcomments

/-- Skipping that comes to an end. -/
theorem skipped_induction {P : List Char → List Char → Prop}
    (hline : ∀ {cs rest r}, cs.dropWhile Text.isBlank = '-' :: '-' :: rest →
      P (rest.dropWhile (· != '\n')) r → P cs r)
    (hblock : ∀ {cs rest rest' r}, cs.dropWhile Text.isBlank = '/' :: '*' :: rest →
      afterComment rest = some rest' → P rest' r → P cs r)
    (hend : ∀ {cs}, ¬ Comments (cs.dropWhile Text.isBlank) → P cs (cs.dropWhile Text.isBlank))
    {r : List Char} (h : skipped cs = .ok r) : P cs r :=
  skipped_cases (P := fun cs outcome => ∀ r, outcome = .ok r → P cs r)
    (fun hrest ih r hr => hline hrest (ih r hr)) (fun hrest hafter ih r hr => hblock hrest hafter (ih r hr))
    (fun _ _ => nofun) (fun hcomments _ hr => Except.ok.inj hr ▸ hend hcomments) cs r h

theorem length_of_skipped {r : List Char} (h : skipped cs = .ok r) : r.length ≤ cs.length := by
  refine skipped_induction (P := fun cs r => r.length ≤ cs.length) ?_ ?_ ?_ h
  · intro cs rest r hrest hle
    have hcs := length_dropWhile_le Text.isBlank cs
    have := length_dropWhile_le (· != '\n') rest
    rw [hrest, List.length_cons, List.length_cons] at hcs
    omega
  · intro cs rest rest' r hrest hafter hle
    have hcs := length_dropWhile_le Text.isBlank cs
    have := length_of_afterComment hafter
    rw [hrest, List.length_cons, List.length_cons] at hcs
    omega
  · exact fun _ => length_dropWhile_le _ _

theorem dropWhile_append_newline (cs more : List Char) :
    (cs ++ '\n' :: more).dropWhile (· != '\n') = cs.dropWhile (· != '\n') ++ '\n' :: more := by
  rw [List.dropWhile_append]
  split
  · next h =>
    rw [List.isEmpty_iff.mp h]
    rfl
  · rfl

/-- Skipping stops where it did when a line break and more stand behind the text, and where it came to the
end of the text it goes on behind it. The line break ends a line comment. -/
theorem skipped_append {r : List Char} (h : skipped cs = .ok r) (more : List Char) :
    skipped (cs ++ '\n' :: more) =
      if r.isEmpty then skipped ('\n' :: more) else .ok (r ++ '\n' :: more) := by
  refine skipped_induction (P := fun cs r => skipped (cs ++ '\n' :: more) =
    if r.isEmpty then skipped ('\n' :: more) else .ok (r ++ '\n' :: more)) ?_ ?_ ?_ h
  · intro cs rest r hrest ih
    have hfront : (cs ++ '\n' :: more).dropWhile Text.isBlank =
        '-' :: '-' :: (rest ++ '\n' :: more) := by
      rw [List.dropWhile_append, hrest]
      rfl
    rw [skipped_line hfront, dropWhile_append_newline]
    exact ih
  · intro cs rest rest' r hrest hafter ih
    have hfront : (cs ++ '\n' :: more).dropWhile Text.isBlank =
        '/' :: '*' :: (rest ++ '\n' :: more) := by
      rw [List.dropWhile_append, hrest]
      rfl
    rw [skipped_block hfront, afterComment_append hafter]
    exact ih
  · intro cs hcomments
    by_cases hempty : (cs.dropWhile Text.isBlank).isEmpty = true
    · have hblanks := List.dropWhile_eq_nil_iff.mp (List.isEmpty_iff.mp hempty)
      rw [if_pos hempty, skipped_append_of_isBlank hblanks]
    · have hfront : (cs ++ '\n' :: more).dropWhile Text.isBlank =
          cs.dropWhile Text.isBlank ++ '\n' :: more := by
        rw [List.dropWhile_append, if_neg hempty]
      rw [if_neg hempty, ← hfront]
      refine skipped_of_not_comments ?_
      rw [hfront]
      have hne : cs.dropWhile Text.isBlank ≠ [] := fun hnil => hempty (List.isEmpty_iff.mpr hnil)
      exact fun h => hcomments (h.of_append hne (by decide) (by decide))

end

/-! ## Tokens -/

/-- The code points of the blanks. -/
def blankCodes : List Nat :=
  [9, 10, 11, 12, 13, 32, 133, 160, 5760, 8192, 8193, 8194, 8195, 8196, 8197, 8198, 8199, 8200, 8201, 8202,
    8232, 8233, 8239, 8287, 12288]

/-- Characters at which every token ends. -/
def endMarks : List Char := ['(', ')', ','] ++ blankCodes.map Char.ofNat

theorem mem_blankCodes {c : Char} (h : Text.isBlank c = true) : c.toNat ∈ blankCodes := by
  unfold Text.isBlank at h
  split at h
  · rw [Bool.or_eq_true, beq_iff_eq, Bool.and_eq_true, decide_eq_true_eq, decide_eq_true_eq] at h
    rcases h with rfl | ⟨hlow, hhigh⟩
    · decide
    · simp only [blankCodes, List.mem_cons]
      omega
  · simp only [Text.inRanges, Text.blankRanges, List.any_cons, List.any_nil, Bool.or_eq_true, Bool.and_eq_true,
      decide_eq_true_eq, Bool.false_eq_true, or_false] at h
    simp only [blankCodes, List.mem_cons]
    omega

/-- Every token ends at a blank. -/
theorem mem_endMarks_of_isBlank {c : Char} (h : Text.isBlank c = true) : c ∈ endMarks :=
  List.mem_append_right _ (List.mem_map.mpr ⟨c.toNat, mem_blankCodes h, Char.ofNat_toNat c⟩)

section

variable {x : Char} {more : List Char}

theorem not_of_mem_endMarks {p : Char → Bool} (hx : x ∈ endMarks) (h : endMarks.any p = false) :
    p x = false := by
  rw [List.any_eq_false] at h
  exact Bool.eq_false_iff.mpr (h x hx)

theorem ne_of_mem_endMarks {c : Char} (hx : x ∈ endMarks) (hc : c ∉ endMarks) : x ≠ c := by
  rintro rfl
  exact hc hx

theorem takeWhile_append_ends {p : Char → Bool} (hp : p x = false) (cs : List Char) :
    (cs ++ x :: more).takeWhile p = cs.takeWhile p := by
  induction cs with
  | nil => rw [List.nil_append, List.takeWhile_cons_of_neg (by simp [hp]), List.takeWhile_nil]
  | cons c cs ih =>
    rw [List.cons_append, List.takeWhile_cons, List.takeWhile_cons, ih]

theorem dropWhile_append_ends {p : Char → Bool} (hp : p x = false) (cs : List Char) :
    (cs ++ x :: more).dropWhile p = cs.dropWhile p ++ x :: more := by
  induction cs with
  | nil => rw [List.nil_append, List.dropWhile_cons_of_neg (by simp [hp]), List.dropWhile_nil]; rfl
  | cons c cs ih =>
    rw [List.cons_append, List.dropWhile_cons, List.dropWhile_cons, ih]
    split <;> rfl

theorem quoted_append {quote : Char} (hx : x ≠ quote) {done cs s rest : List Char}
    (h : quoted quote done cs = some (s, rest)) :
    quoted quote done (cs ++ x :: more) = some (s, rest ++ x :: more) := by
  fun_induction quoted quote done cs with
  | case1 => cases h
  | case2 done c hc =>
    cases h
    simp only [List.cons_append, List.nil_append, quoted, hc]
    simp [hx]
  | case3 => cases h
  | case4 done c d cs hc hd ih =>
    simp only [List.cons_append, quoted, hc, hd, if_true]
    exact ih h
  | case5 done c d cs hc hd =>
    cases h
    simp only [List.cons_append, quoted, hc, hd, if_true]
    rfl
  | case6 done c d cs hc ih =>
    rw [List.cons_append, List.cons_append, quoted, if_neg hc]
    exact ih h

theorem symbol?_append (hx : x ∈ endMarks) {cs rest : List Char} {t : Token}
    (h : symbol? cs = some (t, rest)) : symbol? (cs ++ x :: more) = some (t, rest ++ x :: more) := by
  have hgreater : x ≠ '>' := ne_of_mem_endMarks hx (by decide)
  have hequal : x ≠ '=' := ne_of_mem_endMarks hx (by decide)
  have hat : x ≠ '@' := ne_of_mem_endMarks hx (by decide)
  unfold symbol? at h
  split at h <;> cases h <;> try rfl
  all_goals rcases rest with _ | ⟨a, _ | ⟨b, rest⟩⟩ <;> simp_all [symbol?]

/-- The point of a number with the digits behind it, if there is one. -/
def places (cs : List Char) : List Char × List Char :=
  match cs with
  | '.' :: cs => ('.' :: cs.takeWhile Char.isDigit, cs.dropWhile Char.isDigit)
  | cs => ([], cs)

/-- The exponent of a number, if there is one. -/
def exponent (cs : List Char) : List Char × List Char :=
  match cs with
  | mark :: next :: cs =>
    if (mark == 'e' || mark == 'E') && (next.isDigit || next == '+' || next == '-') then
      (mark :: next :: cs.takeWhile Char.isDigit, cs.dropWhile Char.isDigit)
    else ([], mark :: next :: cs)
  | cs => ([], cs)

theorem number_eq (cs : List Char) :
    number cs =
      (cs.takeWhile Char.isDigit ++ (places (cs.dropWhile Char.isDigit)).1 ++
          (exponent (places (cs.dropWhile Char.isDigit)).2).1,
        (exponent (places (cs.dropWhile Char.isDigit)).2).2) := rfl

theorem places_append (hx : x ∈ endMarks) (cs : List Char) :
    places (cs ++ x :: more) = ((places cs).1, (places cs).2 ++ x :: more) := by
  have hdigit : x.isDigit = false := not_of_mem_endMarks hx (by decide)
  have hpoint : x ≠ '.' := ne_of_mem_endMarks hx (by decide)
  cases cs with
  | nil => simp [places, hpoint]
  | cons c cs =>
    by_cases hc : c = '.'
    · subst hc
      simp [places, takeWhile_append_ends hdigit, dropWhile_append_ends hdigit]
    · simp [places, hc]

theorem exponent_append (hx : x ∈ endMarks) (cs : List Char) :
    exponent (cs ++ x :: more) = ((exponent cs).1, (exponent cs).2 ++ x :: more) := by
  have hdigit : x.isDigit = false := not_of_mem_endMarks hx (by decide)
  have hplus : x ≠ '+' := ne_of_mem_endMarks hx (by decide)
  have hminus : x ≠ '-' := ne_of_mem_endMarks hx (by decide)
  have hmark : x ≠ 'e' ∧ x ≠ 'E' :=
    ⟨ne_of_mem_endMarks hx (by decide), ne_of_mem_endMarks hx (by decide)⟩
  rcases cs with _ | ⟨c, _ | ⟨d, cs⟩⟩
  · cases more <;> simp [exponent, hmark]
  · simp [exponent, hdigit, hplus, hminus]
  · simp only [List.cons_append, exponent]
    split
    · rw [takeWhile_append_ends hdigit, dropWhile_append_ends hdigit]
    · rfl

theorem number_append (hx : x ∈ endMarks) (cs : List Char) :
    number (cs ++ x :: more) = ((number cs).1, (number cs).2 ++ x :: more) := by
  have hdigit : x.isDigit = false := not_of_mem_endMarks hx (by decide)
  rw [number_eq, number_eq, takeWhile_append_ends hdigit, dropWhile_append_ends hdigit,
    places_append hx, exponent_append hx]

/-- A token is the same in front of a character at which every token ends. -/
theorem next_append (hx : x ∈ endMarks) {cs rest : List Char} {t : Token}
    (h : next cs = .ok (t, rest)) : next (cs ++ x :: more) = .ok (t, rest ++ x :: more) := by
  have hquote : ∀ quote, quote.toNat = 39 → x ≠ quote := by
    rintro quote hquote rfl
    have := not_of_mem_endMarks (p := fun c => c.toNat == 39) hx (by decide)
    simp [hquote] at this
  have hdouble : x ≠ '"' := ne_of_mem_endMarks hx (by decide)
  have hdigit : x.isDigit = false := not_of_mem_endMarks hx (by decide)
  have hname : continuesName x = false := not_of_mem_endMarks hx (by decide +kernel)
  cases cs with
  | nil => cases h
  | cons c cs =>
    rw [List.cons_append]
    unfold next at h ⊢
    dsimp only at h ⊢
    -- one branch of the lexer after another, each decided alike with and without what follows
    split at h
    · -- a string: its end stands before the mark, which is no quote
      next hsingle =>
      rw [if_pos hsingle]
      split at h
      · next s behind hquoted =>
        cases h
        rw [quoted_append (hquote c (beq_iff_eq.mp hsingle)) hquoted]
      · cases h
    · next hsingle =>
      rw [if_neg hsingle]
      split at h
      · -- a name between quotes
        next hc =>
        rw [if_pos hc]
        have hx' : x ≠ c := by
          rw [beq_iff_eq.mp hc]
          exact hdouble
        split at h
        · cases h
        · next s behind hne hquoted =>
          cases h
          rw [quoted_append hx' hquoted]
          cases s with
          | nil => exact (hne rfl).elim
          | cons d s => rfl
        · cases h
      · next hc =>
        rw [if_neg hc]
        -- whether a point begins a number depends on the character behind it, and the mark is no digit
        have hhead : (cs ++ x :: more).head?.any Char.isDigit = cs.head?.any Char.isDigit := by
          cases cs with
          | nil => exact hdigit
          | cons d cs => rfl
        rw [hhead]
        split at h
        · next hnumber =>
          cases h
          rw [if_pos hnumber, ← List.cons_append, number_append hx]
        · next hnumber =>
          rw [if_neg hnumber]
          split at h
          · next hstarts =>
            cases h
            rw [if_pos hstarts, takeWhile_append_ends hname, dropWhile_append_ends hname]
          · next hstarts =>
            rw [if_neg hstarts]
            split at h
            · next found hfound =>
              cases h
              rw [← List.cons_append, symbol?_append hx hfound]
            · cases h

theorem length_of_quoted {quote : Char} {done cs s rest : List Char}
    (h : quoted quote done cs = some (s, rest)) : rest.length < cs.length := by
  fun_induction quoted quote done cs with
  | case1 => cases h
  | case2 done c hc =>
    cases h
    exact Nat.zero_lt_one
  | case3 => cases h
  | case4 done c d cs hc hd ih =>
    have := ih h
    simp only [List.length_cons]
    omega
  | case5 done c d cs hc hd =>
    cases h
    simp
  | case6 done c d cs hc ih =>
    have := ih h
    simp only [List.length_cons] at *
    omega

theorem length_of_symbol? {cs rest : List Char} {t : Token} (h : symbol? cs = some (t, rest)) :
    rest.length < cs.length := by
  unfold symbol? at h
  split at h <;> cases h <;> simp only [List.length_cons] <;> omega

theorem length_places_le (cs : List Char) : (places cs).2.length ≤ cs.length := by
  unfold places
  split
  · exact Nat.le_succ_of_le (length_dropWhile_le _ _)
  · exact Nat.le_refl _

theorem length_exponent_le (cs : List Char) : (exponent cs).2.length ≤ cs.length := by
  unfold exponent
  split
  · split
    · exact Nat.le_succ_of_le (Nat.le_succ_of_le (length_dropWhile_le _ _))
    · exact Nat.le_refl _
  · exact Nat.le_refl _

theorem length_of_number {c : Char} (hc : c.isDigit = true ∨ c = '.') (cs : List Char) :
    (number (c :: cs)).2.length < (c :: cs).length := by
  have hplaces : (places ((c :: cs).dropWhile Char.isDigit)).2.length ≤ cs.length := by
    by_cases hdigit : c.isDigit = true
    · rw [List.dropWhile_cons_of_pos hdigit]
      exact (length_places_le _).trans (length_dropWhile_le _ _)
    · obtain rfl := hc.resolve_left hdigit
      exact length_dropWhile_le _ cs
  rw [number_eq]
  exact Nat.lt_succ_of_le ((length_exponent_le _).trans hplaces)

theorem length_of_next {cs rest : List Char} {t : Token} (h : next cs = .ok (t, rest)) :
    rest.length < cs.length := by
  cases cs with
  | nil => cases h
  | cons c cs =>
    unfold next at h
    dsimp only at h
    split at h
    · split at h
      · next hquoted =>
        cases h
        exact Nat.lt_succ_of_lt (length_of_quoted hquoted)
      · cases h
    · split at h
      · split at h
        · cases h
        · next hquoted =>
          cases h
          exact Nat.lt_succ_of_lt (length_of_quoted hquoted)
        · cases h
      · split at h
        · next hnumber =>
          cases h
          refine length_of_number ?_ cs
          simp only [Bool.or_eq_true, Bool.and_eq_true, beq_iff_eq] at hnumber
          exact hnumber.imp_right And.left
        · split at h
          · cases h
            exact Nat.lt_succ_of_le (length_dropWhile_le _ _)
          · split at h
            · next hfound =>
              cases h
              exact length_of_symbol? hfound
            · cases h

end

/-! ## Texts -/

/-- The text is cut into these tokens, and scanning gets to its end. -/
inductive Lexes : List Char → List Token → Prop
  | nil {cs : List Char} (h : skipped cs = .ok []) : Lexes cs []
  | cons {cs front rest : List Char} {t : Token} {ts : List Token} (h : skipped cs = .ok front)
      (hnext : next front = .ok (t, rest)) (hrest : Lexes rest ts) : Lexes cs (t :: ts)

namespace Lexes

variable {cs cs' : List Char} {ts us : List Token}

theorem of_skipped_eq (hcs : skipped cs = skipped cs') (h : Lexes cs ts) : Lexes cs' ts := by
  cases h with
  | nil h => exact .nil (hcs ▸ h)
  | cons h hnext hrest => exact .cons (hcs ▸ h) hnext hrest

/-- Texts that are put one behind the other on lines of their own. -/
theorem append {more : List Char} (h : Lexes cs ts) (hmore : Lexes ('\n' :: more) us) :
    Lexes (cs ++ '\n' :: more) (ts ++ us) := by
  induction h with
  | nil h => exact hmore.of_skipped_eq (skipped_append h more).symm
  | cons h hnext hrest ih =>
    have hskipped := skipped_append h more
    have hnext' : next _ = .ok (_, _ ++ '\n' :: more) :=
      next_append (show '\n' ∈ endMarks by decide) hnext
    rw [if_neg] at hskipped
    · exact .cons hskipped hnext' ih
    · rw [List.isEmpty_iff]
      rintro rfl
      cases hnext

end Lexes

/-! ## Scans -/

section

variable {finish fuel : Nat} {cs front rest : List Char}

theorem scanFrom_of_nil (h : skipped cs = .ok []) :
    scanFrom finish (fuel + 1) cs = ⟨[], none, finish⟩ := by
  rw [scanFrom, show skip (cs.length + 1) cs = .ok [] from h]

theorem scanFrom_of_next {t : Token} (h : skipped cs = .ok front)
    (hnext : next front = .ok (t, rest)) :
    scanFrom finish (fuel + 1) cs =
      { scanFrom finish fuel rest with
        tokens := ⟨t, finish - front.length⟩ :: (scanFrom finish fuel rest).tokens } := by
  rw [scanFrom, show skip (cs.length + 1) cs = .ok front from h]
  cases front with
  | nil => cases hnext
  | cons c front =>
    dsimp only
    rw [hnext]

/-- A scan that did not fail came to the end of the text. -/
theorem lexes_of_scanFrom (hfuel : cs.length < fuel) (h : (scanFrom finish fuel cs).failure = none) :
    Lexes cs ((scanFrom finish fuel cs).tokens.map Placed.token) := by
  induction fuel generalizing cs with
  | zero => omega
  | succ fuel ih =>
    cases hskipped : skipped cs with
    | error err =>
      rw [scanFrom, show skip (cs.length + 1) cs = .error err from hskipped] at h
      cases h
    | ok front =>
      cases hnext : next front with
      | error message =>
        cases front with
        | nil =>
          rw [scanFrom_of_nil hskipped]
          exact .nil hskipped
        | cons c front =>
          rw [scanFrom, show skip (cs.length + 1) cs = .ok (c :: front) from hskipped] at h
          dsimp only at h
          rw [hnext] at h
          cases h
      | ok found =>
        obtain ⟨t, rest⟩ := found
        rw [scanFrom_of_next hskipped hnext] at h ⊢
        have := length_of_skipped hskipped
        have := length_of_next hnext
        exact .cons hskipped hnext (ih (by omega) h)

theorem scanFrom_of_lexes {ts : List Token} (hfuel : cs.length < fuel) (h : Lexes cs ts) :
    (scanFrom finish fuel cs).tokens.map Placed.token = ts ∧
      (scanFrom finish fuel cs).failure = none := by
  induction h generalizing fuel with
  | nil h =>
    obtain ⟨fuel, rfl⟩ := Nat.exists_eq_succ_of_ne_zero (Nat.ne_zero_of_lt hfuel)
    rw [scanFrom_of_nil h]
    exact ⟨rfl, rfl⟩
  | cons h hnext _ ih =>
    obtain ⟨fuel, rfl⟩ := Nat.exists_eq_succ_of_ne_zero (Nat.ne_zero_of_lt hfuel)
    have := length_of_skipped h
    have := length_of_next hnext
    obtain ⟨htokens, hfailure⟩ := @ih fuel (by omega)
    rw [scanFrom_of_next h hnext]
    exact ⟨congrArg _ htokens, hfailure⟩

end

end Lexeme

open Lexeme

namespace Scan

theorem lexes_ofString {s : String} (h : (ofString s).failure = none) :
    Lexes s.toList ((ofString s).tokens.map Placed.token) :=
  lexes_of_scanFrom (Nat.lt_succ_self _) h

theorem ofString_of_lexes {s : String} {ts : List Token} (h : Lexes s.toList ts) :
    (ofString s).tokens.map Placed.token = ts ∧ (ofString s).failure = none :=
  scanFrom_of_lexes (Nat.lt_succ_self _) h

/-- The tokens of two texts with a semicolon between them on a line of its own. -/
theorem ofString_join {s t : String} (hs : (ofString s).failure = none)
    (ht : (ofString t).failure = none) :
    (ofString (s ++ "\n;\n" ++ t)).tokens.map Placed.token =
        (ofString s).tokens.map Placed.token ++
          .semicolon :: (ofString t).tokens.map Placed.token ∧
      (ofString (s ++ "\n;\n" ++ t)).failure = none := by
  refine ofString_of_lexes ?_
  have hnewline : Text.isBlank '\n' = true := by decide
  have htext : (s ++ "\n;\n" ++ t).toList = s.toList ++ '\n' :: ';' :: '\n' :: t.toList := by
    rw [String.toList_append, String.toList_append, List.append_assoc]
    rfl
  rw [htext]
  have hfront : skipped ('\n' :: ';' :: '\n' :: t.toList) = .ok (';' :: '\n' :: t.toList) := by
    rw [skipped_cons_of_isBlank hnewline, skipped_of_not_comments]
    · rfl
    · rintro (⟨rest, hrest⟩ | ⟨rest, hrest⟩) <;> cases hrest
  refine (lexes_ofString hs).append (.cons hfront rfl ?_)
  exact (lexes_ofString ht).of_skipped_eq (skipped_cons_of_isBlank hnewline _).symm

end Scan

end SqlStore
