import SqlStore.Operator.Application

/-!
# Containment of documents

An object contains an object that has some of its entries, an array contains an array each of whose items
is contained in one of its own, and scalars contain their equals. An array also contains a bare scalar
that it holds, but this is meant for a whole document and not for its parts: `Json.Contains`. The operator
lets it hold of the parts too. So it finds all that is contained, and what it finds beyond is found where
an array inside the one document meets a bare scalar inside the other.
-/

namespace SqlStore

namespace Json

/-- Neither an array nor an object. -/
def IsScalar : Json → Prop
  | array _ => False
  | object _ => False
  | _ => True

theorem sizeOf_entry_lt {e : String × Json} {entries : List (String × Json)} (h : e ∈ entries) :
    sizeOf e.2 < sizeOf entries := by
  obtain ⟨key, value⟩ := e
  have hsize := List.sizeOf_lt_of_mem h
  rw [Prod.mk.sizeOf_spec] at hsize
  show sizeOf value < _
  omega

/-- Induction over the items of arrays and the values of objects. -/
theorem induction_parts {P : Json → Prop} (array : ∀ items, (∀ j ∈ items, P j) → P (.array items))
    (object : ∀ entries, (∀ e ∈ entries, P e.2) → P (.object entries))
    (scalar : ∀ j, j.IsScalar → P j) : ∀ j, P j
  | .array items => array items fun j hj =>
      have := List.sizeOf_lt_of_mem hj
      induction_parts array object scalar j
  | .object entries => object entries fun e he =>
      have := sizeOf_entry_lt he
      induction_parts array object scalar e.2
  | .null => scalar .null trivial
  | .bool b => scalar (.bool b) trivial
  | .number n => scalar (.number n) trivial
  | .string s => scalar (.string s) trivial
termination_by j => sizeOf j

/-! ## What contains what -/

/-- The document is an array with an item equal to the other document. -/
def HasItem (whole part : Json) : Prop :=
  ∃ items, whole = array items ∧ ∃ item ∈ items, item.same part = true

/-- Containment in the nested sense. If `bare` is set, an array also contains the bare scalars it has. -/
def Covers (bare : Bool) (whole : Json) : Json → Prop
  | object parts => ∃ entries, whole = object entries ∧
      ∀ e ∈ parts, ∃ value, entries.lookup e.1 = some value ∧ value.Covers bare e.2
  | array parts => ∃ items, whole = array items ∧ ∀ part ∈ parts, ∃ item ∈ items, item.Covers bare part
  | scalar => whole.IsScalar ∧ whole.same scalar = true ∨ bare = true ∧ whole.HasItem scalar
termination_by part => sizeOf part
decreasing_by
  · next he =>
    have := sizeOf_entry_lt he
    decreasing_tactic
  · decreasing_tactic

/-- Containment of documents: in the nested sense, or of a bare scalar in an array that has it. -/
def Contains (whole part : Json) : Prop :=
  part.IsScalar ∧ whole.HasItem part ∨ whole.Covers false part

/-- Going down both documents together, along keys and from arrays to items, one comes to an array and to
a bare scalar that the array has. -/
inductive Meets : Json → Json → Prop where
  | here {whole part : Json} : part.IsScalar → whole.HasItem part → Meets whole part
  | key {entries parts : List (String × Json)} {e : String × Json} {value : Json} :
      e ∈ parts → entries.lookup e.1 = some value → Meets value e.2 → Meets (object entries) (object parts)
  | item {items parts : List Json} {item part : Json} :
      part ∈ parts → item ∈ items → Meets item part → Meets (array items) (array parts)

variable {bare : Bool} {whole part : Json}

theorem covers_object {parts : List (String × Json)} : whole.Covers bare (object parts) ↔
    ∃ entries, whole = object entries ∧
      ∀ e ∈ parts, ∃ value, entries.lookup e.1 = some value ∧ value.Covers bare e.2 := by
  rw [Covers]

theorem covers_array {parts : List Json} : whole.Covers bare (array parts) ↔
    ∃ items, whole = array items ∧ ∀ part ∈ parts, ∃ item ∈ items, item.Covers bare part := by
  rw [Covers]

theorem covers_scalar (h : part.IsScalar) : whole.Covers bare part ↔
    whole.IsScalar ∧ whole.same part = true ∨ bare = true ∧ whole.HasItem part := by
  rw [Covers]
  · rintro parts rfl
    exact h
  · rintro parts rfl
    exact h

/-- Covering in one sense is covering in the other, but for the bare scalars that are met. -/
theorem covers_of_covers {bare' : Bool} (h : whole.Covers bare part)
    (hbare : bare = true → bare' = true ∨ ¬ whole.Meets part) : whole.Covers bare' part := by
  induction part using induction_parts generalizing whole with
  | array parts ih =>
    obtain ⟨items, rfl, hitems⟩ := covers_array.mp h
    refine covers_array.mpr ⟨items, rfl, fun part hpart => ?_⟩
    obtain ⟨item, hitem, hcovers⟩ := hitems part hpart
    exact ⟨item, hitem, ih part hpart hcovers fun hb =>
      (hbare hb).imp_right fun hmeets hbelow => hmeets (.item hpart hitem hbelow)⟩
  | object parts ih =>
    obtain ⟨entries, rfl, hentries⟩ := covers_object.mp h
    refine covers_object.mpr ⟨entries, rfl, fun e he => ?_⟩
    obtain ⟨value, hvalue, hcovers⟩ := hentries e he
    exact ⟨value, hvalue, ih e he hcovers fun hb =>
      (hbare hb).imp_right fun hmeets hbelow => hmeets (.key he hvalue hbelow)⟩
  | scalar part hscalar =>
    rcases (covers_scalar hscalar).mp h with hsame | ⟨hb, hitem⟩
    · exact (covers_scalar hscalar).mpr (.inl hsame)
    · rcases hbare hb with hb' | hmeets
      · exact (covers_scalar hscalar).mpr (.inr ⟨hb', hitem⟩)
      · exact absurd (.here hscalar hitem) hmeets

theorem covers_mono (h : whole.Covers false part) : whole.Covers true part :=
  covers_of_covers h nofun

/-- What an array contains beyond the nested sense comes from a bare scalar that it meets. -/
theorem covers_or_meets (h : whole.Covers true part) : whole.Covers false part ∨ whole.Meets part := by
  by_cases hmeets : whole.Meets part
  · exact .inr hmeets
  · exact .inl (covers_of_covers h fun _ => .inr hmeets)

theorem covers_of_contains (h : whole.Contains part) : whole.Covers true part := by
  rcases h with ⟨hscalar, hitem⟩ | hcovers
  · exact (covers_scalar hscalar).mpr (.inr ⟨rfl, hitem⟩)
  · exact covers_mono hcovers

/-! ## What the operator finds -/

theorem holdsItems_iff {items parts : List Json} :
    holdsItems items parts = true ↔ ∀ part ∈ parts, ∃ item ∈ items, item.holds part = true := by
  induction parts with
  | nil => simp [holdsItems]
  | cons part parts ih =>
    rw [holdsItems, Bool.and_eq_true, List.any_eq_true, ih, List.forall_mem_cons]

theorem holdsEntries_iff {entries parts : List (String × Json)} : holdsEntries entries parts = true ↔
    ∀ e ∈ parts, ∃ value, entries.lookup e.1 = some value ∧ value.holds e.2 = true := by
  induction parts with
  | nil => simp [holdsEntries]
  | cons e parts ih =>
    obtain ⟨key, part⟩ := e
    rw [holdsEntries, Bool.and_eq_true, ih, List.forall_mem_cons]
    refine and_congr_left fun _ => ?_
    dsimp only
    cases entries.lookup key with
    | none => simp
    | some value => simp

theorem hasItem_array {items : List Json} :
    (array items).HasItem part ↔ ∃ item ∈ items, item.same part = true := by
  constructor
  · rintro ⟨_, heq, hitem⟩
    obtain rfl := Json.array.inj heq
    exact hitem
  · exact fun hitem => ⟨items, rfl, hitem⟩

/-- On a bare scalar the operator looks for an equal item of an array. -/
theorem holds_array_scalar (h : part.IsScalar) (items : List Json) :
    (array items).holds part = items.any (·.same part) := by
  cases part with
  | array _ => exact h.elim
  | object _ => exact h.elim
  | _ => rfl

/-- It compares the scalar with anything else. -/
theorem holds_other_scalar (h : part.IsScalar) (hwhole : ∀ items, whole ≠ array items) :
    whole.holds part = whole.same part := by
  cases part with
  | array _ => exact h.elim
  | object _ => exact h.elim
  | _ =>
    cases whole with
    | array items => exact absurd rfl (hwhole items)
    | _ => rfl

/-- Only a scalar equals a scalar. -/
theorem isScalar_of_same (h : part.IsScalar) (hsame : whole.same part = true) : whole.IsScalar := by
  cases part with
  | array _ => exact h.elim
  | object _ => exact h.elim
  | _ =>
    cases whole with
    | array _ => cases hsame
    | object _ => cases hsame
    | _ => trivial

theorem holds_scalar (h : part.IsScalar) : whole.holds part = true ↔ whole.Covers true part := by
  rw [covers_scalar h]
  by_cases hwhole : ∃ items, whole = array items
  · obtain ⟨items, rfl⟩ := hwhole
    rw [holds_array_scalar h, List.any_eq_true, hasItem_array]
    constructor
    · exact fun hitem => .inr ⟨rfl, hitem⟩
    · rintro (⟨hscalar, -⟩ | ⟨-, hitem⟩)
      · exact hscalar.elim
      · exact hitem
  · have hne : ∀ items, whole ≠ array items := fun items heq => hwhole ⟨items, heq⟩
    rw [holds_other_scalar h hne]
    constructor
    · exact fun hsame => .inl ⟨isScalar_of_same h hsame, hsame⟩
    · rintro (⟨-, hsame⟩ | ⟨-, items, heq, -⟩)
      · exact hsame
      · exact absurd heq (hne items)

/-- The operator lets every array contain the bare scalars it has. -/
theorem holds_iff_covers : whole.holds part = true ↔ whole.Covers true part := by
  induction part using induction_parts generalizing whole with
  | array parts ih =>
    rw [covers_array]
    cases whole with
    | array items =>
      rw [holds, holdsItems_iff]
      constructor
      · intro h
        refine ⟨items, rfl, fun part hpart => ?_⟩
        obtain ⟨item, hitem, hholds⟩ := h part hpart
        exact ⟨item, hitem, (ih part hpart).mp hholds⟩
      · rintro ⟨_, heq, h⟩ part hpart
        obtain rfl := Json.array.inj heq
        obtain ⟨item, hitem, hcovers⟩ := h part hpart
        exact ⟨item, hitem, (ih part hpart).mpr hcovers⟩
    | _ => simp [holds]
  | object parts ih =>
    rw [covers_object]
    cases whole with
    | object entries =>
      rw [holds, holdsEntries_iff]
      constructor
      · intro h
        refine ⟨entries, rfl, fun e he => ?_⟩
        obtain ⟨value, hvalue, hholds⟩ := h e he
        exact ⟨value, hvalue, (ih e he).mp hholds⟩
      · rintro ⟨_, heq, h⟩ e he
        obtain rfl := Json.object.inj heq
        obtain ⟨value, hvalue, hcovers⟩ := h e he
        exact ⟨value, hvalue, (ih e he).mpr hcovers⟩
    | _ => simp [holds]
  | scalar part hscalar => exact holds_scalar hscalar

end Json

/-- The operators `@>` and `<@` answer whether one document contains the other, if every array in it is
taken to contain the bare scalars it has. They find all that is contained, and find more only where an
array inside the one document meets a bare scalar inside the other. -/
theorem containment_of_documents (a b : Json) :
    ∃ r : Bool, BinaryOp.contains.apply (.json a) (.json b) = .ok (.boolean r) ∧
      BinaryOp.containedBy.apply (.json b) (.json a) = .ok (.boolean r) ∧
      (r = true ↔ a.Covers true b) ∧ (a.Contains b → r = true) ∧
      (r = true → a.Contains b ∨ a.Meets b) := by
  refine ⟨a.holds b, rfl, rfl, Json.holds_iff_covers, ?_, ?_⟩
  · exact fun h => Json.holds_iff_covers.mpr (Json.covers_of_contains h)
  · intro h
    rcases Json.covers_or_meets (Json.holds_iff_covers.mp h) with hcovers | hmeets
    · exact .inl (.inr hcovers)
    · exact .inr hmeets

namespace Sample

/-- The number one as a document. -/
def one : Json := .number (.int 1)

/-- The array in an array has no item that contains the bare number, but the number is found in it. -/
theorem nested_one_found :
    BinaryOp.contains.apply (.json (.array [.array [one]])) (.json (.array [one])) = .ok (.boolean true) ∧
      ¬ (Json.array [.array [one]]).Contains (.array [one]) := by
  refine ⟨rfl, ?_⟩
  rintro (⟨hscalar, -⟩ | hcovers)
  · exact hscalar
  · obtain ⟨items, heq, hitems⟩ := Json.covers_array.mp hcovers
    obtain rfl := Json.array.inj heq
    obtain ⟨item, hitem, hone⟩ := hitems one (List.mem_singleton_self _)
    obtain rfl := List.mem_singleton.mp hitem
    have hbare : one.IsScalar := trivial
    rcases (Json.covers_scalar hbare).mp hone with ⟨hscalar, -⟩ | ⟨hfalse, -⟩
    · exact hscalar
    · cases hfalse

end Sample

end SqlStore
