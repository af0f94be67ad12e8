import SqlStore.Proofs.Numeric.Numerals
import SqlStore.Proofs.Query.Operands
import SqlStore.Proofs.Syntax.Lexing
import SqlStore.Syntax.StatementReading

/-!
# What can be written

Not every token is cut from a text, and not every expression is read from one: a name has characters, a
numeral has digits and no sign, a list behind `IN` has a member, and a call is not one of an aggregate
function. `Token.Lexed` and `Expr.Legible` say what scanning and reading make sure of.
-/

namespace SqlStore

/-! ## Tokens -/

/-- What scanning makes sure of a token. -/
def Token.Lexed : Token → Prop
  | ident name => name ≠ ""
  | number digits => IsNumeral digits.toList
  | _ => True

namespace Lexeme

theorem all_takeWhile (p : Char → Bool) (cs : List Char) : (cs.takeWhile p).all p = true :=
  List.all_eq_true.mpr fun _ hc => List.mem_takeWhile_imp hc

theorem exponent_eq_nil_or (cs : List Char) :
    (exponent cs).1 = [] ∨ (exponent cs).1.any (fun c => c == 'e' || c == 'E') = true := by
  unfold exponent
  split
  · split
    · next h =>
      rw [Bool.and_eq_true] at h
      exact .inr (List.any_eq_true.mpr ⟨_, List.mem_cons_self, h.1⟩)
    · exact .inl rfl
  · exact .inl rfl

theorem isNumeral_number {c : Char} {cs : List Char}
    (h : (c.isDigit || (c == '.' && cs.head?.any Char.isDigit)) = true) :
    IsNumeral (number (c :: cs)).1 := by
  rw [number_eq]
  dsimp only
  generalize hrest : (exponent (places ((c :: cs).dropWhile Char.isDigit)).2) = rest
  rcases hrest ▸ exponent_eq_nil_or _ with hnone | hmark
  · rw [hnone, List.append_nil]
    by_cases hdigit : c.isDigit = true
    · have hne : (c :: cs).takeWhile Char.isDigit ≠ [] := by
        rw [List.takeWhile_cons_of_pos hdigit]
        exact List.cons_ne_nil _ _
      unfold places
      split
      · exact .places (by simp [hne]) (all_takeWhile _ _) (all_takeWhile _ _)
      · rw [List.append_nil]
        exact .whole hne (all_takeWhile _ _)
    · rw [Bool.not_eq_true] at hdigit
      rw [hdigit, Bool.false_or, Bool.and_eq_true, beq_iff_eq] at h
      obtain ⟨rfl, hhead⟩ := h
      cases cs with
      | nil => cases hhead
      | cons d cs =>
        have hd : d.isDigit = true := hhead
        have hplaces : IsNumeral ([] ++ '.' :: (d :: cs).takeWhile Char.isDigit) :=
          .places (by simp [hd]) rfl (all_takeWhile _ _)
        exact hplaces
  · refine .exponent ?_
    rw [List.any_append, hmark, Bool.or_true]

/-! ### Names -/

theorem lowerChar_ne_nil (c : Char) : Text.lowerChar c ≠ [] := by
  unfold Text.lowerChar
  split
  · exact List.cons_ne_nil _ _
  · split
    · next codes hlookup =>
      have htable : Text.lowerExpansions.all (fun e => !e.2.isEmpty) = true := by decide
      obtain ⟨front, back, hentries, -⟩ := List.lookup_eq_some_iff.mp hlookup
      have hentry := List.all_eq_true.mp htable (c.toNat, codes) (by simp [hentries])
      intro hnil
      rw [List.map_eq_nil_iff.mp hnil] at hentry
      cases hentry
    · exact List.cons_ne_nil _ _

theorem lower_ne_empty {s : String} (h : s ≠ "") : Text.lower s ≠ "" := by
  intro hlower
  have hnil : Text.lowerAfter [] s.toList = [] := String.ofList_eq_empty_iff.mp hlower
  cases hs : s.toList with
  | nil => exact h (String.toList_eq_nil_iff.mp hs)
  | cons c cs =>
    rw [hs, Text.lowerAfter] at hnil
    obtain ⟨himage, -⟩ := List.append_eq_nil_iff.mp hnil
    split at himage
    · split at himage <;> cases himage
    · exact lowerChar_ne_nil c himage

end Lexeme

theorem Keyword.asName_ne_empty (k : Keyword) : k.asName ≠ "" :=
  Lexeme.lower_ne_empty (by cases k <;> decide)

namespace Lexeme

theorem lexed_word {w : String} (h : w ≠ "") : (word w).Lexed := by
  unfold word
  split
  · trivial
  · exact lower_ne_empty h

theorem lexed_symbol? {cs rest : List Char} {t : Token} (h : symbol? cs = some (t, rest)) :
    t.Lexed := by
  unfold symbol? at h
  split at h <;> cases h <;> trivial

theorem lexed_next {cs rest : List Char} {t : Token} (h : next cs = .ok (t, rest)) : t.Lexed := by
  cases cs with
  | nil => cases h
  | cons c cs =>
    unfold next at h
    dsimp only at h
    split at h
    · split at h <;> cases h
      trivial
    · split at h
      · split at h
        · cases h
        · next s behind hne _ =>
          cases h
          exact fun hempty => hne (String.ofList_eq_empty_iff.mp hempty)
        · cases h
      · split at h
        · next hnumber =>
          cases h
          rw [Token.Lexed, String.toList_ofList]
          exact isNumeral_number hnumber
        · split at h
          · cases h
            exact lexed_word fun hempty =>
              List.cons_ne_nil _ _ (String.ofList_eq_empty_iff.mp hempty)
          · split at h
            · next found hfound =>
              cases h
              exact lexed_symbol? hfound
            · cases h

theorem lexed_scanFrom (finish fuel : Nat) (cs : List Char) :
    ∀ p ∈ (scanFrom finish fuel cs).tokens, p.token.Lexed := by
  induction fuel generalizing cs with
  | zero => exact List.forall_mem_nil _
  | succ fuel ih =>
    unfold scanFrom
    split
    · exact List.forall_mem_nil _
    · exact List.forall_mem_nil _
    · dsimp only
      split
      · exact List.forall_mem_nil _
      · next hnext => exact List.forall_mem_cons.mpr ⟨lexed_next hnext, ih _⟩

end Lexeme

/-! ## Expressions -/

/-- Types that are written: a precision and a scale are numbers of 32 bits, and none is given alone. -/
def DataType.Legible : DataType → Prop
  | numeric none none => True
  | numeric (some p) (some s) => p < UInt32.size ∧ s < UInt32.size
  | numeric _ _ => False
  | _ => True

theorem DataType.legible_of_resolve {name : String} {args : List Nat} {t : TypeName}
    (hargs : ∀ n ∈ args, n < UInt32.size) (h : TypeName.resolve name args = some t) :
    t.datatype.Legible := by
  unfold TypeName.resolve TypeName.bare TypeName.plain at h
  split at h <;> (try split at h) <;> cases h <;> try trivial
  case h_1.refl =>
    dsimp only
    split <;> trivial
  -- decimals with one and with more arguments, under either name
  all_goals first
    | exact ⟨hargs _ List.mem_cons_self, by decide⟩
    | exact ⟨hargs _ List.mem_cons_self, hargs _ (List.mem_cons_of_mem _ List.mem_cons_self)⟩

/-- The names that are calls without parentheses. -/
def nowNames : List String := ["current_timestamp", "current_date", "current_time", "localtimestamp"]

namespace Expr

variable {σ : Type}

/-- What reading makes sure of the outermost form of an expression. -/
def LegibleForm : Expr σ → Prop
  | literal v => v.Legible
  | column none name => name ≠ "" ∧ nowNames.contains name = false
  | column (some table) name => table ≠ "" ∧ name ≠ ""
  | inList _ items _ => items ≠ []
  | cases _ branches _ => branches ≠ []
  | cast _ type => type.Legible
  | call name _ => name ≠ "" ∧ AggregateFunction.ofName? name = none
  | aggregate f distinct none => f = .count ∧ distinct = false
  | _ => True

/-- What reading makes sure of an expression. -/
def Legible (e : Expr σ) : Prop := ∀ x ∈ e.subexpressions, x.LegibleForm

theorem Legible.of_operands {e : Expr σ} (h : e.LegibleForm) (hoperands : ∀ x ∈ e.operands, x.Legible) :
    e.Legible := by
  intro x hx
  rw [subexpressions_eq] at hx
  rcases List.mem_cons.mp hx with rfl | hx
  · exact h
  · obtain ⟨y, hy, hx⟩ := List.mem_flatMap.mp hx
    exact hoperands y hy x hx

end Expr

end SqlStore
