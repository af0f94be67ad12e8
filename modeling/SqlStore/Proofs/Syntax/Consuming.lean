import SqlStore.Proofs.Syntax.Carrying

/-!
# What a reader makes of tokens

`Reads p ts us a`: in front of the tokens `us`, the reader `p` takes the tokens `ts` and gives `a`. The rules
follow the way a reader is put together, one token after the other.
-/

namespace SqlStore

namespace Parser

/-- The reader takes the tokens `ts` in front of `us` and gives `a`. -/
def Reads {α : Type} (p : Parser α) (ts us : List Token) (a : α) : Prop :=
  ∀ c : Cursor, c.failure = none → c.tokens = ts ++ us →
    ∃ c', StateT.run p c = .ok (a, c') ∧ c'.failure = none ∧ c'.tokens = us

namespace Reads

variable {α β : Type} {ts us vs : List Token} {a : α} {b : β}

/-! ## Rules for every reader -/

theorem pure : Reads (pure a) [] us a := fun c hfailure htokens => ⟨c, rfl, hfailure, htokens⟩

theorem bind {p : Parser α} {f : α → Parser β} (h : Reads p ts (us ++ vs) a)
    (hf : Reads (f a) us vs b) : Reads (p >>= f) (ts ++ us) vs b := by
  intro c hfailure htokens
  rw [List.append_assoc] at htokens
  obtain ⟨c₁, hp, hfailure₁, htokens₁⟩ := h c hfailure htokens
  obtain ⟨c', hrun, hc'⟩ := hf c₁ hfailure₁ htokens₁
  exact ⟨c', (run_bind_of_ok hp).trans hrun, hc'⟩

/-- A reader that takes nothing, and what follows it. -/
theorem bind_nil {p : Parser α} {f : α → Parser β} (h : Reads p [] (ts ++ us) a)
    (hf : Reads (f a) ts us b) : Reads (p >>= f) ts us b := bind h hf

/-- A reader that takes one token, and what follows it. -/
theorem bind_cons {p : Parser α} {f : α → Parser β} {t : Token} (h : Reads p [t] (ts ++ us) a)
    (hf : Reads (f a) ts us b) : Reads (p >>= f) (t :: ts) us b := bind h hf

/-- What follows takes nothing. -/
theorem bind_last {p : Parser α} {f : α → Parser β} (h : Reads p ts us a) (hf : Reads (f a) [] us b) :
    Reads (p >>= f) ts us b := by
  have hbind : Reads (p >>= f) (ts ++ []) us b := bind h hf
  rwa [List.append_nil] at hbind

theorem map {p : Parser α} {f : α → β} (h : Reads p ts us a) : Reads (f <$> p) ts us (f a) := by
  intro c hfailure htokens
  obtain ⟨c', hp, hc'⟩ := h c hfailure htokens
  refine ⟨c', ?_, hc'⟩
  rw [StateT.run_map, hp]
  rfl

/-! ## Rules for tokens -/

variable {t : Token}

theorem next : Reads next [t] us t := by
  intro c hfailure htokens
  obtain ⟨p, rest, hc, rfl, hrest⟩ := List.map_eq_cons_iff.mp htokens
  exact ⟨_, run_next hc, hfailure, hrest⟩

theorem peek : Reads peek [] us us[0]? := by
  intro c hfailure htokens
  rw [List.nil_append] at htokens
  subst htokens
  cases hc : c.tokens with
  | nil => exact ⟨c, run_peek_end hc hfailure, hfailure, hc⟩
  | cons t ts => exact ⟨c, run_peek hc, hfailure, hc⟩

theorem peekPostfix : Reads peekPostfix [] us (postfixAhead us[0]? us[1]?) := by
  intro c hfailure htokens
  obtain ⟨c', hpeek, -⟩ := peek c hfailure htokens
  obtain ⟨-, rfl⟩ := peek_eq_ok hpeek
  rw [List.nil_append] at htokens
  subst htokens
  exact ⟨c', run_peekPostfix hpeek, hfailure, rfl⟩

theorem peekPosition_bind {f : Nat → Parser β} (h : ∀ i, Reads (f i) ts us b) :
    Reads (peekPosition >>= f) ts us b := fun c => h _ c

/-- The number of tokens that are left. -/
theorem fuel_bind {f : Nat → Parser β} (h : Reads (f (ts ++ us).length) ts us b) :
    Reads (get >>= fun c : Cursor => f c.rest.length) ts us b := by
  intro c hfailure htokens
  have hlength : (ts ++ us).length = c.rest.length := by
    rw [← htokens, Cursor.tokens, List.length_map]
  rw [hlength] at h
  exact h c hfailure htokens

theorem take? : Reads (take? t) [t] us true := by
  intro c hfailure htokens
  obtain ⟨p, rest, hc, hp, hrest⟩ := List.map_eq_cons_iff.mp htokens
  exact ⟨_, run_take?_of_eq hc hp, hfailure, hrest⟩

theorem take?_not (h : us[0]? ≠ some t) : Reads (Parser.take? t) [] us false := by
  intro c hfailure htokens
  rw [List.nil_append] at htokens
  refine ⟨c, run_take?_of_ne fun p rest hc hp => h ?_, hfailure, htokens⟩
  rw [← htokens, Cursor.tokens, hc, ← hp]
  rfl

theorem expect : Reads (expect t) [t] us () := by
  unfold Parser.expect
  refine bind_cons next ?_
  rw [bne_self_eq_false, if_neg Bool.false_ne_true]
  exact pure

theorem expectKeyword {k : Keyword} : Reads (expectKeyword k) [.keyword k] us () := expect

theorem ident {name : String} : Reads ident [.ident name] us name := bind_cons next pure

end Reads

/-! ## Lists -/

/-- Tokens with commas between them. -/
def commaTokens : List (List Token) → List Token
  | [] => []
  | [ts] => ts
  | ts :: tss => ts ++ .comma :: commaTokens tss

theorem commaTokens_cons {ts us : List Token} {tss : List (List Token)} :
    commaTokens (ts :: us :: tss) = ts ++ .comma :: commaTokens (us :: tss) := rfl

/-- Items of at most `size` tokens with what is behind them, in front of a comma or of the closing parenthesis. -/
def ReadsItems {α : Type} (item : Parser α) (size : Nat) : List (List Token) → List α → Prop :=
  List.Forall₂ fun ts x => ∀ vs, vs[0]? = some .comma ∨ vs[0]? = some .closeParen →
    (ts ++ vs).length ≤ size → Reads item ts vs x

/-- Items with commas between them, up to a closing parenthesis. -/
theorem Reads.closedListFrom {α : Type} {item : Parser α} {size fuel : Nat} {us : List Token}
    {tss : List (List Token)} {xs : List α} (h : ReadsItems item size tss xs) (hne : xs ≠ [])
    (hsize : (commaTokens tss ++ .closeParen :: us).length ≤ size) (hfuel : xs.length ≤ fuel) :
    Reads (closedListFrom item fuel) (commaTokens tss ++ [.closeParen]) us xs := by
  induction h generalizing fuel with
  | nil => exact absurd rfl hne
  | @cons ts x tss xs hx hxs ih =>
    obtain ⟨fuel, rfl⟩ := Nat.exists_eq_succ_of_ne_zero (Nat.ne_zero_of_lt hfuel)
    unfold Parser.closedListFrom
    cases hxs with
    | nil => exact bind (hx _ (.inr rfl) hsize) (bind_cons next pure)
    | @cons ts' x' tss xs hx' hxs =>
      rw [commaTokens_cons, List.append_assoc, List.cons_append] at hsize ⊢
      refine bind (hx _ (.inl rfl) ?_) (bind_cons next (bind_last ?_ pure))
      · simpa using hsize
      · refine ih (List.cons_ne_nil _ _) ?_ (Nat.le_of_succ_le_succ hfuel)
        simp only [List.length_append, List.length_cons] at hsize ⊢
        omega

theorem length_le_commaTokens {α : Type} {item : Parser α} {size : Nat} {tss : List (List Token)}
    {xs : List α} (h : ReadsItems item size tss xs) : xs.length ≤ (commaTokens tss).length + 1 := by
  induction h with
  | nil => exact Nat.zero_le _
  | @cons ts x tss xs hx hxs ih =>
    cases hxs with
    | nil => exact Nat.le_add_left _ _
    | cons =>
      rw [commaTokens_cons, List.length_append, List.length_cons]
      simp only [List.length_cons] at ih ⊢
      omega

theorem Reads.closedList {α : Type} {item : Parser α} {us : List Token} {tss : List (List Token)}
    {xs : List α} (size : Nat) (h : ReadsItems item size tss xs) (hne : xs ≠ [])
    (hsize : (commaTokens tss ++ .closeParen :: us).length ≤ size) :
    Reads (closedList item) (commaTokens tss ++ [.closeParen]) us xs := by
  refine fuel_bind (f := fun n => Parser.closedListFrom item (n + 1)) (closedListFrom h hne hsize ?_)
  have := length_le_commaTokens h
  simp only [List.length_append, List.length_cons]
  omega

end Parser

end SqlStore
