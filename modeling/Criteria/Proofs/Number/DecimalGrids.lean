import Criteria.Number.Shortest
import Criteria.Proofs.Number.Midpoints
import Mathlib.Algebra.Order.Field.Power
import Mathlib.Tactic.FieldSimp

/-!
# Digits on a decimal grid

The digits of a magnitude are looked for on the grid of a power of ten, next to the magnitude. The
points of the grid that count are the numbers that the magnitude covers. If one of them does, so does
the point below the magnitude or the one above it, since the magnitude covers everything between a
number that it covers and itself. So the look at two points misses nothing.
-/

namespace Criteria

namespace Magnitude

/-! ## Grids -/

/-- How many parts a half unit is divided into for a grid. -/
def gridDen (g : Int) : Nat := if 0 ≤ g then 1 else powerOfTen (-g).toNat

/-- How many of these parts a step of the grid has. -/
def gridStep (g : Int) : Nat :=
  if 0 ≤ g then powerOfTen g.toNat <<< 1075 else 1 <<< 1075

/-- How many steps of a grid lie below the middle of a span. -/
def Span.stepsBelow (s : Span) (g : Int) : Nat := s.value * gridDen g / gridStep g

/-- A step of a grid in half units. -/
def stepUnits (g : Int) : ℚ := halfUnits (10 ^ g)

theorem stepUnits_pos (g : Int) : 0 < stepUnits g := by
  unfold stepUnits halfUnits
  positivity

theorem halfUnits_mul (j : Nat) (g : Int) : halfUnits (j * 10 ^ g) = j * stepUnits g :=
  mul_assoc ..

theorem stepUnits_split (g : Int) (n : Nat) : stepUnits g = 10 ^ n * stepUnits (g - n) := by
  have hpower : (10 : ℚ) ^ g = 10 ^ n * 10 ^ (g - n) := by
    rw [← zpow_natCast, ← zpow_add₀ (by norm_num), add_sub_cancel]
  unfold stepUnits halfUnits
  rw [hpower, mul_assoc]

theorem stepUnits_lt_iff {g g' : Int} : stepUnits g < stepUnits g' ↔ g < g' := by
  have hscale : (0 : ℚ) < 2 ^ 1075 := by positivity
  unfold stepUnits halfUnits
  rw [mul_lt_mul_iff_of_pos_right hscale]
  exact zpow_lt_zpow_iff_right₀ (by norm_num)

theorem gridDen_pos (g : Int) : 0 < gridDen g := by
  unfold gridDen
  split
  · decide
  · exact Nat.pow_pos (by omega)

theorem gridStep_eq (g : Int) : (gridStep g : ℚ) = stepUnits g * gridDen g := by
  have hpower : ∀ n : Nat, ((powerOfTen n : Nat) : ℚ) = 10 ^ n := by
    intro n
    show ((10 ^ n : Nat) : ℚ) = _
    push_cast
    rfl
  unfold gridStep gridDen stepUnits halfUnits
  split
  · rename_i hg
    obtain ⟨n, rfl⟩ := Int.eq_ofNat_of_zero_le hg
    rw [cast_shiftLeft, hpower, Int.toNat_natCast, zpow_natCast, Nat.cast_one, mul_one]
  · rename_i hg
    obtain ⟨n, hn⟩ : ∃ n : Nat, g = -(n : Int) := ⟨(-g).toNat, by omega⟩
    rw [cast_shiftLeft, hpower, hn, neg_neg, Int.toNat_natCast, zpow_neg, zpow_natCast, Nat.cast_one]
    field_simp

theorem gridStep_pos (g : Int) : 0 < gridStep g := by
  have hstep := gridStep_eq g
  have hpos : (0 : ℚ) < gridStep g := by
    rw [hstep]
    exact mul_pos (stepUnits_pos g) (Nat.cast_pos.mpr (gridDen_pos g))
  exact_mod_cast hpos

section Scaled

variable {a j : Nat} {g : Int}

theorem mul_gridStep (j : Nat) (g : Int) :
    ((j * gridStep g : Nat) : ℚ) = j * stepUnits g * gridDen g := by
  rw [Nat.cast_mul, gridStep_eq, mul_assoc]

theorem mul_gridDen_le_iff : a * gridDen g ≤ j * gridStep g ↔ (a : ℚ) ≤ j * stepUnits g := by
  have hden : (0 : ℚ) < gridDen g := Nat.cast_pos.mpr (gridDen_pos g)
  rw [← Nat.cast_le (α := ℚ), mul_gridStep, Nat.cast_mul, mul_le_mul_iff_of_pos_right hden]

theorem mul_gridStep_le_iff : j * gridStep g ≤ a * gridDen g ↔ j * stepUnits g ≤ (a : ℚ) := by
  have hden : (0 : ℚ) < gridDen g := Nat.cast_pos.mpr (gridDen_pos g)
  rw [← Nat.cast_le (α := ℚ), mul_gridStep, Nat.cast_mul, mul_le_mul_iff_of_pos_right hden]

end Scaled

/-- A span contains the points of a grid that the magnitude covers. -/
theorem contains_iff (m : Magnitude) (g : Int) (j : Nat) :
    m.span.contains (gridDen g) (j * gridStep g) = true ↔ Covers m.rank (j * 10 ^ g) := by
  have hlow : m.span.low * gridDen g ≤ j * gridStep g ↔
      ((unitsOfRank (m.rank - 1) + unitsOfRank m.rank : Nat) : ℚ) ≤ halfUnits (j * 10 ^ g) := by
    rw [halfUnits_mul]
    exact mul_gridDen_le_iff
  have hhigh : j * gridStep g ≤ m.span.high * gridDen g ↔
      halfUnits (j * 10 ^ g) ≤ (unitsOfRank m.rank + unitsOfRank (m.rank + 1) : Nat) := by
    rw [halfUnits_mul]
    exact mul_gridStep_le_iff
  have hlow' : m.span.low * gridDen g < j * gridStep g ↔
      ((unitsOfRank (m.rank - 1) + unitsOfRank m.rank : Nat) : ℚ) < halfUnits (j * 10 ^ g) := by
    rw [halfUnits_mul, ← not_le, ← not_le]
    exact not_congr mul_gridStep_le_iff
  have hhigh' : j * gridStep g < m.span.high * gridDen g ↔
      halfUnits (j * 10 ^ g) < (unitsOfRank m.rank + unitsOfRank (m.rank + 1) : Nat) := by
    rw [halfUnits_mul, ← not_le, ← not_le]
    exact not_congr mul_gridDen_le_iff
  have hclosed : m.span.closed = (m.rank % 2 == 0) := rfl
  unfold Span.contains
  rcases Nat.mod_two_eq_zero_or_one m.rank with heven | hodd
  · rw [hclosed, heven, if_pos (by rfl), Bool.and_eq_true, decide_eq_true_eq, decide_eq_true_eq,
      hlow, hhigh]
    constructor
    · rintro ⟨h, h'⟩
      exact ⟨h, h', fun hone => by omega⟩
    · intro h
      exact ⟨h.low, h.high⟩
  · rw [hclosed, hodd, if_neg (by decide), Bool.and_eq_true, decide_eq_true_eq,
      decide_eq_true_eq, hlow', hhigh']
    constructor
    · rintro ⟨h, h'⟩
      exact ⟨h.le, h'.le, fun _ => ⟨h, h'⟩⟩
    · intro h
      exact h.odd hodd

/-! ## One grid -/

/-- A magnitude covers what lies between a smaller number that it covers and itself. -/
theorem Covers.of_le {r : Nat} {x y : ℚ} (h : Covers r x) (hxy : x ≤ y)
    (hy : halfUnits y ≤ 2 * unitsOfRank r) : Covers r y := by
  have hhalf : halfUnits x ≤ halfUnits y := mul_le_mul_of_nonneg_right hxy (by positivity)
  have hgap : ((unitsOfRank r : Nat) : ℚ) < unitsOfRank (r + 1) :=
    Nat.cast_lt.mpr (unitsOfRank_strictMono (Nat.lt_succ_self r))
  refine ⟨le_trans h.low hhalf, ?_, fun hodd => ⟨lt_of_lt_of_le (h.odd hodd).1 hhalf, ?_⟩⟩
  · push_cast
    linarith
  · push_cast
    linarith

/-- A magnitude covers what lies between itself and a greater number that it covers. -/
theorem Covers.of_ge {r : Nat} {x y : ℚ} (h : Covers r x) (hyx : y ≤ x)
    (hy : 2 * unitsOfRank r < halfUnits y) : Covers r y := by
  have hhalf : halfUnits y ≤ halfUnits x := mul_le_mul_of_nonneg_right hyx (by positivity)
  have hgap : ((unitsOfRank (r - 1) : Nat) : ℚ) ≤ unitsOfRank r :=
    Nat.cast_le.mpr (unitsOfRank_strictMono.monotone (Nat.sub_le r 1))
  refine ⟨?_, le_trans hhalf h.high, fun hodd => ⟨?_, lt_of_le_of_lt hhalf (h.odd hodd).2⟩⟩
  · push_cast
    linarith
  · push_cast
    linarith

theorem cast_span_value (m : Magnitude) : (m.span.value : ℚ) = 2 * unitsOfRank m.rank := by
  show ((2 * unitsOfRank m.rank : Nat) : ℚ) = _
  push_cast
  rfl

theorem stepsBelow_le (m : Magnitude) (g : Int) :
    m.span.stepsBelow g * stepUnits g ≤ 2 * unitsOfRank m.rank := by
  have hle : m.span.stepsBelow g * gridStep g ≤ m.span.value * gridDen g := Nat.div_mul_le_self ..
  rw [← cast_span_value]
  exact mul_gridStep_le_iff.mp hle

theorem lt_stepsBelow_succ (m : Magnitude) (g : Int) :
    2 * unitsOfRank m.rank < (m.span.stepsBelow g + 1) * stepUnits g := by
  have hlt : m.span.value * gridDen g < (m.span.stepsBelow g + 1) * gridStep g :=
    Nat.lt_mul_of_div_lt (Nat.lt_succ_self _) (gridStep_pos g)
  have hcast : ¬ ((m.span.stepsBelow g + 1 : Nat) : ℚ) * stepUnits g ≤ m.span.value :=
    fun hle => Nat.not_le.mpr hlt (mul_gridStep_le_iff.mpr hle)
  rw [cast_span_value] at hcast
  push_cast at hcast
  exact not_le.mp hcast

/-- On a grid there is found the point below the middle of the span or the one above it, if one of
them is in the span and the first step of the grid is not too long. -/
theorem digitsAt?_cases (tie : TieRule) (s : Span) (g : Int) :
    s.digitsAt? tie g = none ∧
      (s.stepsBelow g = 0 ∨ s.contains (gridDen g) (s.stepsBelow g * gridStep g) = false ∧
        s.contains (gridDen g) ((s.stepsBelow g + 1) * gridStep g) = false) ∨
    ∃ n, s.digitsAt? tie g = some ⟨n, g⟩ ∧ 0 < n ∧ n ≤ s.stepsBelow g + 1 ∧
      s.contains (gridDen g) (n * gridStep g) = true := by
  have hden : (if 0 ≤ g then 1 else powerOfTen (-g).toNat) = gridDen g := rfl
  have hsize : (if 0 ≤ g then powerOfTen g.toNat <<< 1075 else 1 <<< 1075) = gridStep g := rfl
  have hbelow : s.value * gridDen g / gridStep g = s.stepsBelow g := rfl
  unfold Span.digitsAt?
  simp only [hden, hsize, hbelow]
  by_cases hstep : s.stepsBelow g = 0
  · rw [if_pos hstep]
    exact Or.inl ⟨rfl, Or.inl hstep⟩
  · rw [if_neg hstep]
    have hpos := Nat.pos_of_ne_zero hstep
    split
    · rename_i hout hout'
      exact Or.inl ⟨rfl, Or.inr ⟨hout, hout'⟩⟩
    · rename_i hin _
      exact Or.inr ⟨_, rfl, hpos, Nat.le_succ _, hin⟩
    · rename_i _ hin
      exact Or.inr ⟨_, rfl, Nat.succ_pos _, Nat.le_refl _, hin⟩
    · rename_i hin hin'
      split_ifs
      · exact Or.inr ⟨_, rfl, hpos, Nat.le_succ _, hin⟩
      · exact Or.inr ⟨_, rfl, Nat.succ_pos _, Nat.le_refl _, hin'⟩
      · exact Or.inr ⟨_, rfl, hpos, Nat.le_succ _, hin⟩
      · exact Or.inr ⟨_, rfl, Nat.succ_pos _, Nat.le_refl _, hin'⟩

/-- What is found is covered. -/
theorem digitsAt?_some {tie : TieRule} {m : Magnitude} {g : Int} {d : Scientific}
    (h : m.span.digitsAt? tie g = some d) :
    d.exponent = g ∧ 0 < d.digits ∧ d.digits ≤ m.span.stepsBelow g + 1 ∧
      Covers m.rank (d.digits * 10 ^ d.exponent) := by
  rcases digitsAt?_cases tie m.span g with ⟨hnone, -⟩ | ⟨n, hsome, hpos, hle, hin⟩
  · rw [hnone] at h
    exact absurd h (by simp)
  · rw [hsome] at h
    obtain rfl := Option.some.inj h
    exact ⟨rfl, hpos, hle, (contains_iff m g n).mp hin⟩

/-- Something is found on a grid if a point of it is covered and its first step is not too long. -/
theorem digitsAt?_isSome {tie : TieRule} {m : Magnitude} {g : Int} {j : Nat}
    (hstep : m.span.stepsBelow g ≠ 0) (h : Covers m.rank (j * 10 ^ g)) :
    (m.span.digitsAt? tie g).isSome = true := by
  have hbelow := stepsBelow_le m g
  have habove := lt_stepsBelow_succ m g
  have hpower : (0 : ℚ) ≤ 10 ^ g := by positivity
  have hcovers : Covers m.rank (m.span.stepsBelow g * 10 ^ g) ∨
      Covers m.rank ((m.span.stepsBelow g + 1 : Nat) * 10 ^ g) := by
    rcases Nat.lt_or_ge (m.span.stepsBelow g) j with hlt | hge
    · refine Or.inr (h.of_ge (mul_le_mul_of_nonneg_right (Nat.cast_le.mpr hlt) hpower) ?_)
      rw [halfUnits_mul]
      push_cast
      exact habove
    · refine Or.inl (h.of_le (mul_le_mul_of_nonneg_right (Nat.cast_le.mpr hge) hpower) ?_)
      rw [halfUnits_mul]
      exact hbelow
  rw [← contains_iff, ← contains_iff] at hcovers
  rcases digitsAt?_cases tie m.span g with ⟨-, hzero | ⟨hout, hout'⟩⟩ | ⟨n, hsome, -⟩
  · exact absurd hzero hstep
  · rw [hout, hout'] at hcovers
    exact absurd hcovers (by simp)
  · rw [hsome]
    rfl

end Magnitude

end Criteria
