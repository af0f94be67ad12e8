import SqlStore.Proofs.Check
import SqlStore.Proofs.Syntax.Legible

/-!
# Rules for readers

`Carries B n must W p q`: where `p` reads a value from at most `n` tokens, `q` reads the same value from
these tokens with `B` behind them. What `W` says holds of the value, and if `must`, a token is taken. `B`
is nothing or begins with a semicolon, so that a reader which looks at what follows finds an end in both
cases. The rules follow the way a reader is put together. The amount of fuel and the positions that a
reader remembers do not matter as long as there is a step for each token.
-/

namespace SqlStore

/-- The tokens that a cursor has not taken yet. -/
def Cursor.tokens (c : Cursor) : List Token := c.rest.map Placed.token

theorem Cursor.rest_cases (c : Cursor) : c.rest = [] ∨ ∃ p rest, c.rest = p :: rest := by
  cases c.rest with
  | nil => exact .inl rfl
  | cons p rest => exact .inr ⟨p, rest, rfl⟩

/-- What stands behind a text: nothing, or tokens from a semicolon on. `failure` is what stopped the scan
of it all. -/
structure Behind where
  tokens : List Token
  failure : Option Error
  separated : tokens = [] ∨ ∃ more, tokens = .semicolon :: more

/-- The cursor `c` in a text and the cursor `d` at the same place in the text with `B` behind it. -/
structure Ahead (B : Behind) (c d : Cursor) : Prop where
  tokens : d.tokens = c.tokens ++ B.tokens
  failure : c.failure = B.failure
  failure_behind : d.failure = B.failure
  lexed : ∀ t ∈ c.tokens, t.Lexed

namespace Ahead

variable {B : Behind} {c d : Cursor}

/-- The next token is taken on both sides. -/
theorem of_cons (h : Ahead B c d) {p : Placed} {rest : List Placed} (hc : c.rest = p :: rest) :
    ∃ p' rest', d.rest = p' :: rest' ∧ p'.token = p.token ∧
      ∀ m n, Ahead B { c with rest, position := m } { d with rest := rest', position := n } := by
  have htokens := h.tokens
  unfold Cursor.tokens at htokens
  rw [hc, List.map_cons, List.cons_append] at htokens
  obtain ⟨p', rest', hd, hp, hrest⟩ := List.map_eq_cons_iff.mp htokens
  refine ⟨p', rest', hd, hp, fun m n => ⟨hrest, h.failure, h.failure_behind, fun t ht => ?_⟩⟩
  refine h.lexed t ?_
  unfold Cursor.tokens
  rw [hc]
  exact List.mem_cons_of_mem _ ht

theorem lexed_of_cons (h : Ahead B c d) {p : Placed} {rest : List Placed} (hc : c.rest = p :: rest) :
    p.token.Lexed := by
  refine h.lexed _ ?_
  unfold Cursor.tokens
  rw [hc]
  exact List.mem_cons_self

/-- Behind the last token there is nothing or a semicolon. -/
theorem of_nil (h : Ahead B c d) (hc : c.rest = []) :
    d.rest = [] ∨ ∃ p rest, d.rest = p :: rest ∧ p.token = .semicolon := by
  have htokens := h.tokens
  unfold Cursor.tokens at htokens
  rw [hc, List.map_nil, List.nil_append] at htokens
  rcases B.separated with hB | ⟨more, hB⟩
  · rw [hB] at htokens
    exact .inl (List.map_eq_nil_iff.mp htokens)
  · rw [hB] at htokens
    obtain ⟨p, rest, hd, hp, -⟩ := List.map_eq_cons_iff.mp htokens
    exact .inr ⟨p, rest, hd, hp⟩

theorem length_le (h : Ahead B c d) : c.rest.length ≤ d.rest.length := by
  have := congrArg List.length h.tokens
  unfold Cursor.tokens at this
  rw [List.length_append, List.length_map, List.length_map] at this
  omega

end Ahead

namespace Parser

section

variable {α β : Type} {c d : Cursor}

theorem run_bind_eq_ok {p : Parser α} {f : α → Parser β} {b : β}
    (h : StateT.run (p >>= f) c = .ok (b, d)) :
    ∃ a c', StateT.run p c = .ok (a, c') ∧ StateT.run (f a) c' = .ok (b, d) := by
  rw [StateT.run_bind] at h
  obtain ⟨⟨a, c'⟩, hp, hf⟩ := Except.exists_of_bind_eq_ok h
  exact ⟨a, c', hp, hf⟩

theorem run_bind_of_ok {p : Parser α} {f : α → Parser β} {a : α} (h : StateT.run p c = .ok (a, d)) :
    StateT.run (p >>= f) c = StateT.run (f a) d := by
  rw [StateT.run_bind, h]
  rfl

theorem run_get_bind (f : Cursor → Parser β) : StateT.run (get >>= f) c = StateT.run (f c) c := rfl

theorem run_next {p : Placed} {rest : List Placed} (h : c.rest = p :: rest) :
    StateT.run next c = .ok (p.token, { c with rest, position := p.offset }) := by
  rw [next, run_get_bind, h]
  rfl

theorem run_peek {t : Token} {ts : List Token} (h : c.tokens = t :: ts) :
    StateT.run peek c = .ok (some t, c) := by
  obtain ⟨p, rest, hc, rfl, -⟩ := List.map_eq_cons_iff.mp h
  rw [peek, run_get_bind, hc]
  rfl

theorem run_peek_end (h : c.tokens = []) (hfailure : c.failure = none) :
    StateT.run peek c = .ok (none, c) := by
  rw [peek, run_get_bind, List.map_eq_nil_iff.mp h, hfailure]
  rfl

/-- A look at the end of the text meets what stopped the scan. -/
theorem failure_of_peek {t : Option Token} (h : c.tokens = [])
    (hpeek : StateT.run peek c = .ok (t, d)) : c.failure = none := by
  rw [peek, run_get_bind, List.map_eq_nil_iff.mp h] at hpeek
  cases hfailure : c.failure with
  | none => rfl
  | some e =>
    rw [hfailure] at hpeek
    cases hpeek

theorem peek_eq_ok {t : Option Token} (h : StateT.run peek c = .ok (t, d)) :
    t = c.tokens[0]? ∧ d = c := by
  cases hc : c.tokens with
  | nil =>
    rw [run_peek_end hc (failure_of_peek hc h)] at h
    cases h
    exact ⟨rfl, rfl⟩
  | cons t ts =>
    rw [run_peek hc] at h
    cases h
    exact ⟨rfl, rfl⟩

theorem run_peekAt (i : Nat) : StateT.run (peekAt i) c = .ok (c.tokens[i]?, c) := by
  rw [peekAt, run_get_bind, Cursor.tokens, List.getElem?_map]
  rfl

theorem run_take?_of_eq {p : Placed} {rest : List Placed} (h : c.rest = p :: rest) {t : Token}
    (ht : p.token = t) :
    StateT.run (take? t) c = .ok (true, { c with rest, position := p.offset }) := by
  rw [take?, run_get_bind, h]
  dsimp only
  rw [if_pos (beq_iff_eq.mpr ht)]
  rfl

theorem run_take?_of_ne {t : Token} (h : ∀ p rest, c.rest = p :: rest → p.token ≠ t) :
    StateT.run (take? t) c = .ok (false, c) := by
  rw [take?, run_get_bind]
  cases hc : c.rest with
  | nil => rfl
  | cons p rest =>
    dsimp only
    rw [if_neg (fun heq => h p rest hc (beq_iff_eq.mp heq))]
    rfl

/-- The operator behind an operand that the next two tokens begin. -/
def postfixAhead (t u : Option Token) : Option PostfixOp :=
  match t with
  | some (.keyword .is) => some .isNull
  | some .doubleColon => some .cast
  | some (.keyword .not) => u.bind (Token.postfixOp? true)
  | some t => t.postfixOp? false
  | none => none

theorem run_peekPostfix {t : Option Token} (h : StateT.run peek c = .ok (t, c)) :
    StateT.run peekPostfix c = .ok (postfixAhead c.tokens[0]? c.tokens[1]?, c) := by
  rw [peekPostfix, run_bind_of_ok h, ← (peek_eq_ok h).1]
  split
  case h_3 =>
    rw [run_bind_of_ok (run_peekAt 1)]
    rfl
  case h_4 his hcolon hnot =>
    rw [postfixAhead]
    · rfl
    · exact his
    · exact hcolon
    · exact hnot
  all_goals rfl

/-- The reader reads nothing. -/
def Fails (p : Parser α) : Prop := ∀ c r, StateT.run p c ≠ .ok r

theorem Fails.bind {p : Parser α} (h : Fails p) (f : α → Parser β) : Fails (p >>= f) := by
  intro c r hr
  obtain ⟨a, c', hp, -⟩ := run_bind_eq_ok (d := r.2) hr
  exact h c _ hp

theorem fails_failAt (position : Nat) (message : String) :
    Fails (failAt position message : Parser α) := fun _ _ h => by cases h

theorem fails_fail (message : String) : Fails (fail message : Parser α) := fun _ _ h => by cases h

theorem fails_unexpected (t : Token) : Fails (unexpected t : Parser α) := fails_fail _

theorem fails_unexpectedWord (w : String) : Fails (unexpectedWord w : Parser α) := fails_fail _

end

/-- `q` reads what `p` reads, in front of `B`. -/
def Carries {α : Type} (B : Behind) (n : Nat) (must : Bool) (W : α → Prop) (p q : Parser α) : Prop :=
  ∀ c d, Ahead B c d → c.rest.length ≤ n → ∀ a c', StateT.run p c = .ok (a, c') →
    ∃ d', StateT.run q d = .ok (a, d') ∧ W a ∧ Ahead B c' d' ∧ c'.rest.length + must.toNat ≤ c.rest.length

/-- Nothing is said of a value. -/
def Anything {α : Type} (_ : α) : Prop := True

/-- What a look at the next token sees, on both sides: the same, or a semicolon instead of the end. -/
inductive Seen (B : Behind) : Option Token → Option Token → Prop
  | token (t : Token) : Seen B (some t) (some t)
  | nothing (hB : B.tokens = []) : Seen B none none
  | separator (hB : B.tokens ≠ []) : Seen B none (some .semicolon)

/-- There is a value in the list, and so much is said of each. -/
def Each {α : Type} (V : α → Prop) (xs : List α) : Prop := xs ≠ [] ∧ ∀ x ∈ xs, V x

namespace Carries

variable {α β : Type} {B : Behind} {n : Nat} {must : Bool} {V : α → Prop} {W : β → Prop}

/-! ## Rules for every reader -/

theorem pure {a : α} (h : V a) : Carries B n false V (pure a) (pure a) := by
  intro c d hahead _ a' c' hrun
  cases hrun
  exact ⟨d, rfl, h, hahead, Nat.le_refl _⟩

theorem of_fails {p q : Parser α} (h : Fails p) : Carries B n must V p q :=
  fun c _ _ _ a c' hrun => absurd hrun (h c (a, c'))

theorem imp {p q : Parser α} {V' : α → Prop} (h : Carries B n must V p q) (hV : ∀ a, V a → V' a) :
    Carries B n must V' p q := by
  intro c d hahead hn a c' hrun
  obtain ⟨d', hq, ha, hahead', hle⟩ := h c d hahead hn a c' hrun
  exact ⟨d', hq, hV a ha, hahead', hle⟩

theorem discard {p q : Parser α} (h : Carries B n must V p q) : Carries B n must Anything p q :=
  h.imp fun _ _ => trivial

theorem mono {p q : Parser α} {m : Nat} (h : Carries B n must V p q) (hm : m ≤ n) :
    Carries B m must V p q :=
  fun c d hahead hc => h c d hahead (Nat.le_trans hc hm)

theorem relax {p q : Parser α} (h : Carries B n true V p q) : Carries B n must V p q := by
  intro c d hahead hn a c' hrun
  obtain ⟨d', hq, ha, hahead', hle⟩ := h c d hahead hn a c' hrun
  refine ⟨d', hq, ha, hahead', ?_⟩
  have : must.toNat ≤ true.toNat := Bool.toNat_le must
  omega

variable {f g : α → Parser β}

/-- What is behind a reader takes the token. -/
theorem bind {p q : Parser α} (h : Carries B n false V p q)
    (hf : ∀ a, V a → Carries B n must W (f a) (g a)) :
    Carries B n must W (p >>= f) (q >>= g) := by
  intro c d hahead hn b c' hrun
  obtain ⟨a, c₁, hp, hrun⟩ := run_bind_eq_ok hrun
  obtain ⟨d₁, hq, ha, hahead₁, hle₁⟩ := h c d hahead hn a c₁ hp
  rw [Bool.toNat_false, Nat.add_zero] at hle₁
  obtain ⟨d', hg, hb, hahead', hle⟩ :=
    hf a ha c₁ d₁ hahead₁ (Nat.le_trans hle₁ hn) b c' hrun
  exact ⟨d', (run_bind_of_ok hq).trans hg, hb, hahead', Nat.le_trans hle hle₁⟩

/-- What is in front of a reader takes a token, so that fewer are left behind it. -/
theorem bind_lt {p q : Parser α} (h : Carries B n true V p q)
    (hf : ∀ a m, m < n → V a → Carries B m false W (f a) (g a)) :
    Carries B n must W (p >>= f) (q >>= g) := by
  refine relax ?_
  intro c d hahead hn b c' hrun
  obtain ⟨a, c₁, hp, hrun⟩ := run_bind_eq_ok hrun
  obtain ⟨d₁, hq, ha, hahead₁, hlt⟩ := h c d hahead hn a c₁ hp
  rw [Bool.toNat_true] at hlt
  obtain ⟨d', hg, hb, hahead', hle⟩ :=
    hf a c₁.rest.length (by omega) ha c₁ d₁ hahead₁ (Nat.le_refl _) b c' hrun
  rw [Bool.toNat_false] at hle
  exact ⟨d', (run_bind_of_ok hq).trans hg, hb, hahead', by rw [Bool.toNat_true]; omega⟩

theorem map {p q : Parser α} {k : α → β} (h : Carries B n must V p q) (hk : ∀ a, V a → W (k a)) :
    Carries B n must W (k <$> p) (k <$> q) := by
  intro c d hahead hn b c' hrun
  rw [StateT.run_map] at hrun
  obtain ⟨⟨a, c₁⟩, hp, heq⟩ := Except.exists_of_map_eq_ok hrun
  cases heq
  obtain ⟨d', hq, ha, hahead', hle⟩ := h c d hahead hn a c₁ hp
  refine ⟨d', ?_, hk a ha, hahead', hle⟩
  rw [StateT.run_map, hq]
  rfl

/-! ## Rules for the next token -/

theorem next : Carries B n true Token.Lexed next next := by
  intro c d hahead hn t c' hrun
  rcases c.rest_cases with hc | ⟨p, rest, hc⟩
  · rw [Parser.next, run_get_bind, hc] at hrun
    cases hfailure : c.failure <;> rw [hfailure] at hrun <;> cases hrun
  · rw [run_next hc] at hrun
    cases hrun
    obtain ⟨p', rest', hd, hp, hahead'⟩ := hahead.of_cons hc
    rw [run_next hd, hp, hc]
    exact ⟨_, rfl, hahead.lexed_of_cons hc, hahead' _ _, Nat.le_refl _⟩

/-- What is seen in a text is seen in front of more. -/
theorem run_peek_ahead {c c' d : Cursor} {t : Option Token} (hahead : Ahead B c d)
    (hpeek : StateT.run peek c = .ok (t, c')) : StateT.run peek d = .ok (d.tokens[0]?, d) := by
  cases hd : d.tokens with
  | nil =>
    have hnil := (List.append_eq_nil_iff.mp (hahead.tokens.symm.trans hd)).1
    have hfailure := failure_of_peek hnil hpeek
    rw [hahead.failure, ← hahead.failure_behind] at hfailure
    exact run_peek_end hd hfailure
  | cons u us => exact run_peek hd

/-- What follows a look at the next token. -/
theorem peek_bind {f g : Option Token → Parser β}
    (h : ∀ t u, Seen B t u → Carries B n must W (f t) (g u)) :
    Carries B n must W (peek >>= f) (peek >>= g) := by
  intro c d hahead hn b c' hrun
  obtain ⟨t, c₁, hpeek, hrun⟩ := run_bind_eq_ok hrun
  rw [run_bind_of_ok (run_peek_ahead hahead hpeek)]
  obtain ⟨rfl, rfl⟩ := peek_eq_ok hpeek
  refine h _ _ ?_ c₁ d hahead hn b c' hrun
  rw [hahead.tokens]
  cases c₁.tokens with
  | nil =>
    rcases B.separated with hB | ⟨more, hB⟩ <;> rw [hB]
    · exact .nothing hB
    · exact .separator (hB ▸ List.cons_ne_nil _ _)
  | cons t ts => exact .token t

/-- What follows a look at the next three tokens. -/
theorem peek_peekAt_bind {f g : Option Token → Option Token → Option Token → Parser β}
    (h : ∀ ts us, us = ts ++ B.tokens →
      Carries B n must W (f ts[0]? ts[1]? ts[2]?) (g us[0]? us[1]? us[2]?)) :
    Carries B n must W
      (peek >>= fun a => peekAt 1 >>= fun b => peekAt 2 >>= fun c => f a b c)
      (peek >>= fun a => peekAt 1 >>= fun b => peekAt 2 >>= fun c => g a b c) := by
  intro c d hahead hn b c' hrun
  obtain ⟨t, c₁, hpeek, hrun⟩ := run_bind_eq_ok hrun
  rw [run_bind_of_ok (run_peek_ahead hahead hpeek), run_bind_of_ok (run_peekAt 1),
    run_bind_of_ok (run_peekAt 2)]
  obtain ⟨rfl, rfl⟩ := peek_eq_ok hpeek
  rw [run_bind_of_ok (run_peekAt 1), run_bind_of_ok (run_peekAt 2)] at hrun
  exact h _ _ hahead.tokens c₁ d hahead hn b c' hrun

/-- A semicolon is no operator, and no word of one. -/
theorem postfixAhead_append (ts : List Token) :
    postfixAhead (ts ++ B.tokens)[0]? (ts ++ B.tokens)[1]? = postfixAhead ts[0]? ts[1]? := by
  rcases ts with _ | ⟨t, _ | ⟨u, ts⟩⟩
  · rcases B.separated with hB | ⟨more, hB⟩ <;> rw [hB] <;> rfl
  · rcases B.separated with hB | ⟨more, hB⟩
    · rw [hB]
      rfl
    · rw [hB]
      simp only [List.cons_append, List.nil_append, List.getElem?_cons_zero, List.getElem?_cons_succ,
        List.getElem?_nil]
      unfold postfixAhead
      split <;> rfl
  · rfl

/-- What follows a look for an operator behind an operand. -/
theorem peekPostfix_bind {f g : Option PostfixOp → Parser β}
    (h : ∀ op, Carries B n must W (f op) (g op)) :
    Carries B n must W (peekPostfix >>= f) (peekPostfix >>= g) := by
  intro c d hahead hn b c' hrun
  obtain ⟨op, c₁, hop, hrun⟩ := run_bind_eq_ok hrun
  obtain ⟨t, c₂, hpeek, -⟩ := run_bind_eq_ok (show StateT.run (peek >>= _) c = _ from hop)
  have hd := run_peekPostfix (run_peek_ahead hahead hpeek)
  obtain ⟨rfl, rfl⟩ := peek_eq_ok hpeek
  rw [run_peekPostfix hpeek] at hop
  cases hop
  rw [run_bind_of_ok hd, hahead.tokens, postfixAhead_append]
  exact h _ c₁ d hahead hn b c' hrun

theorem take?_bind {t : Token} {f g : Bool → Parser β} (ht : t ≠ .semicolon)
    (htrue : ∀ m, m < n → Carries B m false W (f true) (g true))
    (hfalse : Carries B n must W (f false) (g false)) :
    Carries B n must W (take? t >>= f) (take? t >>= g) := by
  intro c d hahead hn b c' hrun
  by_cases htaken : ∃ p rest, c.rest = p :: rest ∧ p.token = t
  · obtain ⟨p, rest, hc, hp⟩ := htaken
    obtain ⟨p', rest', hd, hp', hahead'⟩ := hahead.of_cons hc
    rw [run_bind_of_ok (run_take?_of_eq hc hp)] at hrun
    rw [run_bind_of_ok (run_take?_of_eq hd (hp'.trans hp))]
    rw [hc, List.length_cons] at hn
    obtain ⟨d', hg, hb, hahead'', hle⟩ :=
      htrue rest.length hn _ _ (hahead' p.offset p'.offset) (Nat.le_refl _) b c' hrun
    refine ⟨d', hg, hb, hahead'', ?_⟩
    have hmust : must.toNat ≤ 1 := Bool.toNat_le must
    rw [Bool.toNat_false, Nat.add_zero] at hle
    rw [hc]
    exact Nat.add_le_add hle hmust
  · -- what the longer text has instead is the same other token, or the semicolon behind the end
    have hleft : ∀ p rest, c.rest = p :: rest → p.token ≠ t :=
      fun p rest hc hp => htaken ⟨p, rest, hc, hp⟩
    have hleft' : ∀ p rest, d.rest = p :: rest → p.token ≠ t := by
      intro p rest hd
      rcases c.rest_cases with hc | ⟨p', rest', hc⟩
      · rcases hahead.of_nil hc with hd' | ⟨q, _, hd', hq⟩
        · rw [hd] at hd'
          cases hd'
        · rw [hd] at hd'
          cases hd'
          exact hq ▸ ht.symm
      · obtain ⟨q, _, hd', hq, -⟩ := hahead.of_cons hc
        rw [hd] at hd'
        cases hd'
        exact hq ▸ hleft p' rest' hc
    rw [run_bind_of_ok (run_take?_of_ne hleft)] at hrun
    rw [run_bind_of_ok (run_take?_of_ne hleft')]
    exact hfalse c d hahead hn b c' hrun

theorem takeKeyword?_bind {k : Keyword} {f g : Bool → Parser β}
    (htrue : ∀ m, m < n → Carries B m false W (f true) (g true))
    (hfalse : Carries B n must W (f false) (g false)) :
    Carries B n must W (takeKeyword? k >>= f) (takeKeyword? k >>= g) :=
  take?_bind (by rintro ⟨⟩) htrue hfalse

/-- What follows a token that may be there, in one. -/
theorem takeKeyword?_cases {k : Keyword} {f g : Bool → Parser β}
    (h : ∀ b m, m ≤ n → Carries B m false W (f b) (g b)) :
    Carries B n false W (takeKeyword? k >>= f) (takeKeyword? k >>= g) :=
  takeKeyword?_bind (fun m hm => h true m (Nat.le_of_lt hm)) (h false n (Nat.le_refl n))

theorem takeWord?_bind {w : String} {f g : Bool → Parser β}
    (htrue : ∀ m, m < n → Carries B m false W (f true) (g true))
    (hfalse : Carries B n must W (f false) (g false)) :
    Carries B n must W (takeWord? w >>= f) (takeWord? w >>= g) :=
  take?_bind (by rintro ⟨⟩) htrue hfalse

theorem takeWhen?_bind {condition : Bool} {t : Token} {f g : Bool → Parser β} (ht : t ≠ .semicolon)
    (htrue : condition = true → ∀ m, m < n → Carries B m false W (f true) (g true))
    (hfalse : Carries B n must W (f false) (g false)) :
    Carries B n must W (takeWhen? condition t >>= f) (takeWhen? condition t >>= g) := by
  cases condition
  · exact hfalse
  · exact take?_bind ht (htrue rfl) hfalse

theorem takeKeyword? (k : Keyword) : Carries B n false Anything (takeKeyword? k) (takeKeyword? k) := by
  have h : Carries B n false Anything (Parser.takeKeyword? k >>= Pure.pure)
      (Parser.takeKeyword? k >>= Pure.pure) :=
    takeKeyword?_bind (fun _ _ => pure trivial) (pure trivial)
  rwa [bind_pure] at h

/-- An optional part that a token begins, and what follows either way. -/
theorem take?_ite_bind {t : Token} {p p' q q' : Parser α} {f g : α → Parser β} (ht : t ≠ .semicolon)
    (htrue : ∀ m, m < n → Carries B m false V p p') (hfalse : Carries B n false V q q')
    (hf : ∀ a, V a → Carries B n must W (f a) (g a)) :
    Carries B n must W (take? t >>= fun b => if b = true then p >>= f else q >>= f)
      (take? t >>= fun b => if b = true then p' >>= g else q' >>= g) := by
  have hassoc : ∀ (p q : Parser α) (f : α → Parser β),
      (take? t >>= fun b => if b = true then p >>= f else q >>= f) =
        (take? t >>= fun b => if b = true then p else q) >>= f := by
    intro p q f
    rw [bind_assoc]
    congr 1
    funext b
    cases b <;> rfl
  rw [hassoc, hassoc]
  exact (take?_bind ht htrue hfalse).bind hf

/-! ## Rules for positions and fuel -/

theorem position_bind {f g : Nat → Parser β} (h : ∀ i j, Carries B n must W (f i) (g j)) :
    Carries B n must W (position >>= f) (position >>= g) :=
  fun c d => h c.position d.position c d

theorem peekPosition_bind {f g : Nat → Parser β} (h : ∀ i j, Carries B n must W (f i) (g j)) :
    Carries B n must W (peekPosition >>= f) (peekPosition >>= g) :=
  fun c d => h _ _ c d

/-- As much fuel as tokens, and one more, goes on as any larger amount does. -/
theorem fuel_bind {f g : Cursor → Parser β}
    (h : ∀ c d : Cursor, ∀ m, m ≤ n → m ≤ c.rest.length → m ≤ d.rest.length →
      Carries B m must W (f c) (g d)) :
    Carries B n must W (get >>= f) (get >>= g) :=
  fun c d hahead hn => h c d c.rest.length hn (Nat.le_refl _) hahead.length_le c d hahead (Nat.le_refl _)

/-! ## Tokens, names and lists -/

theorem expect (t : Token) : Carries B n true Anything (expect t) (expect t) := by
  unfold Parser.expect
  refine next.bind_lt fun found m hm _ => ?_
  split
  · exact of_fails (fails_fail _)
  · exact pure trivial

theorem expectKeyword (k : Keyword) :
    Carries B n true Anything (expectKeyword k) (expectKeyword k) := expect _

theorem ident : Carries B n true (· ≠ "") ident ident := by
  unfold Parser.ident
  refine next.bind_lt fun t m hm ht => ?_
  split
  · exact pure ht
  · next k =>
    split
    · exact of_fails (fails_fail _)
    · exact pure k.asName_ne_empty
  · exact of_fails (fails_fail _)

theorem expectWord (w : String) : Carries B n true Anything (expectWord w) (expectWord w) := by
  unfold Parser.expectWord
  refine ident.bind_lt fun found m hm _ => ?_
  split
  · exact of_fails (fails_unexpectedWord _)
  · exact pure trivial

variable {item item' : Parser α}

theorem commaListFrom {fuel fuel' : Nat} (hitem : Carries B n false V item item') (hfuel : n < fuel)
    (hfuel' : n < fuel') :
    Carries B n false (Each V) (commaListFrom item fuel) (commaListFrom item' fuel') := by
  induction fuel generalizing n fuel' with
  | zero => omega
  | succ fuel ih =>
    obtain ⟨fuel', rfl⟩ := Nat.exists_eq_succ_of_ne_zero (Nat.ne_zero_of_lt hfuel')
    unfold Parser.commaListFrom
    refine hitem.bind fun x hx => take?_bind (by decide) (fun m hm => ?_) ?_
    · refine (ih (hitem.mono (Nat.le_of_lt hm)) (by omega) (by omega)).bind fun xs hxs => ?_
      exact pure ⟨List.cons_ne_nil _ _, List.forall_mem_cons.mpr ⟨hx, hxs.2⟩⟩
    · exact pure ⟨List.cons_ne_nil _ _, List.forall_mem_singleton.mpr hx⟩

theorem commaList (hitem : Carries B n false V item item') :
    Carries B n false (Each V) (commaList item) (commaList item') :=
  fuel_bind fun _ _ _ hm hc hd =>
    commaListFrom (hitem.mono hm) (Nat.lt_succ_of_le hc) (Nat.lt_succ_of_le hd)

theorem closedListFrom {fuel fuel' : Nat} (hitem : Carries B n false V item item') (hfuel : n < fuel)
    (hfuel' : n < fuel') :
    Carries B n false (Each V) (closedListFrom item fuel) (closedListFrom item' fuel') := by
  induction fuel generalizing n fuel' with
  | zero => omega
  | succ fuel ih =>
    obtain ⟨fuel', rfl⟩ := Nat.exists_eq_succ_of_ne_zero (Nat.ne_zero_of_lt hfuel')
    unfold Parser.closedListFrom
    refine hitem.bind fun x hx => next.bind_lt fun t m hm _ => ?_
    split
    · exact pure ⟨List.cons_ne_nil _ _, List.forall_mem_singleton.mpr hx⟩
    · refine (ih (hitem.mono (Nat.le_of_lt hm)) (by omega) (by omega)).bind fun xs hxs => ?_
      exact pure ⟨List.cons_ne_nil _ _, List.forall_mem_cons.mpr ⟨hx, hxs.2⟩⟩
    · exact of_fails (fails_unexpected _)

theorem closedList (hitem : Carries B n false V item item') :
    Carries B n false (Each V) (closedList item) (closedList item') :=
  fuel_bind fun _ _ _ hm hc hd =>
    closedListFrom (hitem.mono hm) (Nat.lt_succ_of_le hc) (Nat.lt_succ_of_le hd)

end Carries

end Parser

end SqlStore
