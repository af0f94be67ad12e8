import Mathlib.Data.List.Forall2
import SqlStore.Text.Regex

/-!
# What an expression is found in

The matcher keeps for each suffix of the text whether the pieces behind match the suffix from its beginning
on, and goes on to the piece in front. So the invariant speaks of all suffixes at once, and each step of the
matcher keeps it, one for every kind of piece. In the end the expression is found if some suffix is matched.
-/

namespace SqlStore.Regex

/-- The pieces match the suffix of a text from its beginning on. -/
def MatchesAt (same : Char → Char → Bool) (text : List Char) : List Piece → List Char → Prop
  | [], _ => True
  | .start :: ps, suffix => suffix = text ∧ MatchesAt same text ps suffix
  | .stop :: ps, suffix => suffix = [] ∧ MatchesAt same text ps suffix
  | .one a :: ps, suffix =>
    ∃ c rest, suffix = c :: rest ∧ a.accepts same c = true ∧ MatchesAt same text ps rest
  | .many a :: ps, suffix =>
    ∃ taken rest, suffix = taken ++ rest ∧ (∀ c ∈ taken, a.accepts same c = true) ∧
      MatchesAt same text ps rest

/-! ## The invariant -/

/-- For each suffix is kept whether it has the property. -/
def Kept (P : List Char → Prop) (text : List Char) (bs : List Bool) : Prop :=
  List.Forall₂ (fun suffix b => b = true ↔ P suffix) text.tails bs

variable {P : List Char → Prop} {c : Char} {cs text : List Char} {b : Bool} {bs : List Bool}

theorem kept_nil : Kept P [] bs ↔ ∃ b, bs = [b] ∧ (b = true ↔ P []) := by
  constructor
  · intro h
    obtain ⟨b, rest, hb, hrest, rfl⟩ := List.forall₂_cons_left_iff.mp h
    cases hrest
    exact ⟨b, rfl, hb⟩
  · rintro ⟨b, rfl, hb⟩
    exact .cons hb .nil

theorem kept_cons : Kept P (c :: cs) bs ↔
    ∃ b rest, bs = b :: rest ∧ (b = true ↔ P (c :: cs)) ∧ Kept P cs rest := by
  constructor
  · intro h
    obtain ⟨b, rest, hb, hrest, rfl⟩ := List.forall₂_cons_left_iff.mp h
    exact ⟨b, rest, rfl, hb, hrest⟩
  · rintro ⟨b, rest, rfl, hb, hrest⟩
    exact .cons hb hrest

/-- What is kept of the whole text comes first. -/
theorem kept_head (h : Kept P text bs) : bs.headD false = true ↔ P text := by
  cases text with
  | nil =>
    obtain ⟨b, rfl, hb⟩ := kept_nil.mp h
    exact hb
  | cons c cs =>
    obtain ⟨b, rest, rfl, hb, -⟩ := kept_cons.mp h
    exact hb

/-- Some suffix has the property if this is kept of one. -/
theorem contains_iff (h : Kept P text bs) :
    bs.contains true = true ↔ ∃ suffix, suffix <:+ text ∧ P suffix := by
  induction text generalizing bs with
  | nil =>
    obtain ⟨b, rfl, hb⟩ := kept_nil.mp h
    simp [hb]
  | cons c cs ih =>
    obtain ⟨b, rest, rfl, hb, hrest⟩ := kept_cons.mp h
    have hsuffix : (∃ s, s <:+ c :: cs ∧ P s) ↔ P (c :: cs) ∨ ∃ s, s <:+ cs ∧ P s := by
      simp only [List.suffix_cons_iff, or_and_right, exists_or, exists_eq_left]
    rw [hsuffix, ← hb, ← ih hrest, List.contains_cons, Bool.or_eq_true, beq_iff_eq, eq_comm]

/-- Nothing is kept of any suffix. -/
theorem kept_map_false {Q : List Char → Prop} (h : Kept P text bs) (hnone : ∀ s, s <:+ text → ¬ Q s) :
    Kept Q text (bs.map fun _ => false) := by
  induction text generalizing bs with
  | nil =>
    obtain ⟨b, rfl, -⟩ := kept_nil.mp h
    exact kept_nil.mpr ⟨false, rfl, by simpa using hnone [] (List.suffix_refl [])⟩
  | cons c cs ih =>
    obtain ⟨b, rest, rfl, -, hrest⟩ := kept_cons.mp h
    refine kept_cons.mpr ⟨false, _, rfl, by simpa using hnone _ (List.suffix_refl _), ?_⟩
    exact ih hrest fun s hs => hnone s (hs.trans (List.suffix_cons c cs))

/-! ## The steps -/

theorem kept_true (text : List Char) : Kept (fun _ => True) text (text.map (fun _ => true) ++ [true]) := by
  induction text with
  | nil => exact kept_nil.mpr ⟨true, rfl, by simp⟩
  | cons c cs ih => exact kept_cons.mpr ⟨true, _, rfl, by simp, ih⟩

theorem kept_stepStart (h : Kept P text bs) : Kept (fun s => s = text ∧ P s) text (stepStart bs) := by
  cases text with
  | nil =>
    obtain ⟨b, rfl, hb⟩ := kept_nil.mp h
    exact kept_nil.mpr ⟨b, rfl, by simpa using hb⟩
  | cons c cs =>
    obtain ⟨b, rest, rfl, hb, hrest⟩ := kept_cons.mp h
    refine kept_cons.mpr ⟨b, _, rfl, by simpa using hb, kept_map_false hrest ?_⟩
    -- the other suffixes are shorter than the text
    rintro s hs ⟨rfl, -⟩
    have hle := hs.length_le
    rw [List.length_cons] at hle
    omega

theorem kept_stepStop (h : Kept P text bs) : Kept (fun s => s = [] ∧ P s) text (stepStop bs) := by
  induction text generalizing bs with
  | nil =>
    obtain ⟨b, rfl, hb⟩ := kept_nil.mp h
    exact kept_nil.mpr ⟨b, rfl, by simpa using hb⟩
  | cons c cs ih =>
    obtain ⟨b, rest, rfl, -, hrest⟩ := kept_cons.mp h
    have hne : rest ≠ [] := by
      rintro rfl
      cases cs <;> cases hrest
    obtain ⟨b', rest, rfl⟩ := List.exists_cons_of_ne_nil hne
    exact kept_cons.mpr ⟨false, _, rfl, by simp, ih hrest⟩

theorem kept_stepOne (accept : Char → Bool) (h : Kept P text bs) :
    Kept (fun s => ∃ c rest, s = c :: rest ∧ accept c = true ∧ P rest) text (stepOne accept text bs) := by
  induction text generalizing bs with
  | nil =>
    obtain ⟨b, rfl, -⟩ := kept_nil.mp h
    exact kept_nil.mpr ⟨false, rfl, by simp⟩
  | cons c cs ih =>
    obtain ⟨b, rest, rfl, -, hrest⟩ := kept_cons.mp h
    refine kept_cons.mpr ⟨accept c && rest.headD false, _, rfl, ?_, ih hrest⟩
    rw [Bool.and_eq_true, kept_head hrest]
    constructor
    · rintro ⟨haccept, hP⟩
      exact ⟨c, cs, rfl, haccept, hP⟩
    · rintro ⟨_, _, heq, haccept, hP⟩
      obtain ⟨rfl, rfl⟩ := List.cons.inj heq
      exact ⟨haccept, hP⟩

theorem kept_stepMany (accept : Char → Bool) (h : Kept P text bs) :
    Kept (fun s => ∃ taken rest, s = taken ++ rest ∧ (∀ c ∈ taken, accept c = true) ∧ P rest) text
      (stepMany accept text bs) := by
  induction text generalizing bs with
  | nil =>
    obtain ⟨b, rfl, hb⟩ := kept_nil.mp h
    refine kept_nil.mpr ⟨b, rfl, hb.trans ⟨fun hP => ⟨[], [], rfl, by simp, hP⟩, ?_⟩⟩
    rintro ⟨taken, rest, heq, -, hP⟩
    obtain ⟨-, rfl⟩ := List.append_eq_nil_iff.mp heq.symm
    exact hP
  | cons c cs ih =>
    obtain ⟨b, rest, rfl, hb, hrest⟩ := kept_cons.mp h
    have hmany := ih hrest
    refine kept_cons.mpr ⟨b || accept c && (stepMany accept cs rest).headD false, _, rfl, ?_, hmany⟩
    rw [Bool.or_eq_true, Bool.and_eq_true, kept_head hmany, hb]
    constructor
    · rintro (hP | ⟨haccept, taken, rest, rfl, htaken, hP⟩)
      · exact ⟨[], c :: cs, rfl, by simp, hP⟩
      · exact ⟨c :: taken, rest, rfl, List.forall_mem_cons.mpr ⟨haccept, htaken⟩, hP⟩
    · rintro ⟨taken, rest, heq, htaken, hP⟩
      cases taken with
      | nil =>
        obtain rfl : c :: cs = rest := heq
        exact .inl hP
      | cons d taken =>
        obtain ⟨rfl, rfl⟩ := List.cons.inj heq
        obtain ⟨haccept, htaken⟩ := List.forall_mem_cons.mp htaken
        exact .inr ⟨haccept, taken, rest, rfl, htaken, hP⟩

/-! ## The matcher -/

variable {same : Char → Char → Bool}

theorem kept_suffixMatches (same : Char → Char → Bool) (text : List Char) (ps : List Piece) :
    Kept (MatchesAt same text ps) text (suffixMatches same text ps) := by
  induction ps with
  | nil => exact kept_true text
  | cons p ps ih =>
    cases p with
    | start => exact kept_stepStart ih
    | stop => exact kept_stepStop ih
    | one a => exact kept_stepOne _ ih
    | many a => exact kept_stepMany _ ih

/-- An expression is found in a text if its pieces match some suffix from the beginning of the suffix on. -/
theorem isMatch_iff {ps : List Piece} :
    isMatch same ps text = true ↔ ∃ suffix, suffix <:+ text ∧ MatchesAt same text ps suffix :=
  contains_iff (kept_suffixMatches same text ps)

end SqlStore.Regex
