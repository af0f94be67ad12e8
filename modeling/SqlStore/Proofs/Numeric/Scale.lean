import Mathlib.Order.Lattice
import SqlStore.Value.Conversion

/-!
# The declared scale of decimals

A decimal that was brought to a declared scale has no more places than declared, and is left as it is
when it is brought to that scale again: rounding finds nothing to round, and padding, which may have
stopped because the mantissa was full, stops at once.
-/

namespace SqlStore.Numeric

theorem scale_round_le (d : Numeric) (places : Nat) : (d.round places).scale ≤ places := by
  unfold round
  split
  · assumption
  · exact le_rfl

theorem round_of_le {d : Numeric} {places : Nat} (h : d.scale ≤ places) : d.round places = d := by
  unfold round
  rw [dif_pos h]

/-- One more zero at the end does not fit. -/
def Full (d : Numeric) : Prop := ofParts? d.negative (d.mantissa * 10) (d.scale + 1) = none

theorem padPlaces_of_full {d : Numeric} (h : d.Full) (n : Nat) : d.padPlaces n = d := by
  cases n with
  | zero => rfl
  | succ n =>
    unfold padPlaces
    rw [h]

theorem ofParts?_eq_some {negative : Bool} {m s : Nat} {d : Numeric}
    (h : ofParts? negative m s = some d) : d.mantissa = m ∧ d.scale = s := by
  unfold ofParts? at h
  split at h
  · cases h
    exact ⟨rfl, rfl⟩
  · cases h

theorem scale_padPlaces_le (d : Numeric) (n : Nat) : (d.padPlaces n).scale ≤ d.scale + n := by
  induction n generalizing d with
  | zero => exact le_rfl
  | succ n ih =>
    unfold padPlaces
    split
    · next wider hwider =>
      have hscale := (ofParts?_eq_some hwider).2
      have hle := ih wider
      omega
    · exact Nat.le_add_right _ _

/-- Padding adds all the places asked for or fills the mantissa. -/
theorem padPlaces_exact_or_full (d : Numeric) (n : Nat) :
    (d.padPlaces n).scale = d.scale + n ∨ (d.padPlaces n).Full := by
  induction n generalizing d with
  | zero => exact Or.inl rfl
  | succ n ih =>
    unfold padPlaces
    split
    · next wider hwider =>
      have hscale := (ofParts?_eq_some hwider).2
      rcases ih wider with hexact | hfull
      · exact Or.inl (by omega)
      · exact Or.inr hfull
    · next hnone => exact Or.inr hnone

theorem isZero_padPlaces (d : Numeric) (n : Nat) : (d.padPlaces n).isZero = d.isZero := by
  induction n generalizing d with
  | zero => rfl
  | succ n ih =>
    unfold padPlaces
    split
    · next wider hwider =>
      rw [ih wider]
      unfold isZero
      rw [(ofParts?_eq_some hwider).1]
      exact Bool.eq_iff_iff.mpr (by simp only [beq_iff_eq]; omega)
    · rfl

theorem withScale_of_isZero {d : Numeric} {places : Nat} (h : (d.round places).isZero = true) :
    d.withScale places =
      { d.round places with scale := min places (max (d.round places).scale maxScale) } := if_pos h

theorem withScale_of_not_isZero {d : Numeric} {places : Nat}
    (h : ¬ (d.round places).isZero = true) :
    d.withScale places = (d.round places).padPlaces (places - (d.round places).scale) := if_neg h

theorem scale_withScale_le (d : Numeric) (places : Nat) : (d.withScale places).scale ≤ places := by
  have hround := scale_round_le d places
  by_cases hzero : (d.round places).isZero = true
  · rw [withScale_of_isZero hzero]
    exact min_le_left _ _
  · rw [withScale_of_not_isZero hzero]
    have hpad := scale_padPlaces_le (d.round places) (places - (d.round places).scale)
    omega

/-- Bringing a decimal to a scale a second time changes nothing. -/
theorem withScale_withScale (d : Numeric) (places : Nat) :
    (d.withScale places).withScale places = d.withScale places := by
  have hround := round_of_le (scale_withScale_le d places)
  have hle := scale_round_le d places
  by_cases hzero : (d.round places).isZero = true
  · -- zero has its places in any case, up to a bound that the places asked for do not lower
    have hself := withScale_of_isZero hzero
    rw [withScale_of_isZero (by rw [hround, hself]; exact hzero), hround, hself]
    generalize d.round places = e at *
    have hscale : min places (max (min places (max e.scale maxScale)) maxScale) =
        min places (max e.scale maxScale) := by omega
    exact congrArg (fun s => { e with scale := s }) hscale
  · have hself := withScale_of_not_isZero hzero
    rw [withScale_of_not_isZero (by rw [hround, hself, isZero_padPlaces]; exact hzero), hround,
      hself]
    -- there are no places left to add, or no room for one more
    rcases padPlaces_exact_or_full (d.round places) (places - (d.round places).scale) with
      hexact | hfull
    · rw [hexact, Nat.add_sub_cancel' hle, Nat.sub_self]
      rfl
    · exact padPlaces_of_full hfull _

/-- A decimal at the scale of a type, which may have none. -/
def atScale (d : Numeric) : Option Nat → Numeric
  | none => d
  | some s => d.withScale s

theorem atScale_atScale (d : Numeric) (s : Option Nat) :
    (d.atScale s).atScale s = d.atScale s := by
  cases s with
  | none => rfl
  | some s => exact withScale_withScale d s

/-- The declared form depends on the decimal at the scale only. -/
theorem declared_congr {p s : Option Nat} {d e : Numeric} (h : d.atScale s = e.atScale s) :
    d.declared p s = e.declared p s := by
  cases s with
  | none => exact congrArg (declared p none) h
  | some s =>
    have hscaled : d.withScale s = e.withScale s := h
    unfold declared
    dsimp only
    rw [hscaled]

theorem eq_of_declared {p s : Option Nat} {d e : Numeric} (h : d.declared p s = .ok e) :
    e = d.atScale s := by
  cases s <;> unfold declared at h <;> dsimp only at h <;> cases p <;> dsimp only at h
  case none.none => exact (Except.ok.inj h).symm
  case some.none => exact (Except.ok.inj h).symm
  all_goals
    split at h
    · cases h
    · exact (Except.ok.inj h).symm

/-- A decimal in a declared form stays as it is in that form. -/
theorem declared_of_declared {p s : Option Nat} {d e : Numeric} (h : d.declared p s = .ok e) :
    e.declared p s = .ok e := by
  have hscaled : e.atScale s = d.atScale s := by rw [eq_of_declared h, atScale_atScale]
  rw [declared_congr hscaled, h]

theorem scale_le_of_declared {p : Option Nat} {s : Nat} {d e : Numeric}
    (h : d.declared p (some s) = .ok e) : e.scale ≤ s := by
  rw [eq_of_declared h]
  exact scale_withScale_le d s

end SqlStore.Numeric
