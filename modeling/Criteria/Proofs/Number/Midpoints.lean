import Criteria.Proofs.Number.Rounding
import Mathlib.Algebra.Order.Field.Rat
import Mathlib.Data.Nat.Cast.Order.Field
import Mathlib.Order.Monotone.Basic
import Mathlib.Tactic.Linarith
import Mathlib.Tactic.Positivity
import Mathlib.Tactic.Ring

/-!
# Which numbers are rounded to a magnitude

A quotient is rounded to the magnitude that it lies nearest to: it lies between the midpoints towards
the two neighbours of the magnitude, and on a midpoint only if the magnitude has an even rank. No
number lies so around two magnitudes, so this says which numbers are rounded to a magnitude. Everything
comes from the size of the gaps between neighbours: the gap doubles from one binade to the next.
-/

namespace Criteria

/-- What is rounded to an odd number lies nearer to it than a half. -/
theorem divRound_bounds_of_odd (n : Nat) {d : Nat} (h : 0 < d) (hodd : divRound n d % 2 = 1) :
    2 * (divRound n d * d) < 2 * n + d ∧ 2 * n < 2 * (divRound n d * d) + d := by
  have hn : n / d * d + n % d = n := Nat.div_add_mod' n d
  have hd : n % d < d := Nat.mod_lt n h
  have hstep : (n / d + 1) * d = n / d * d + d := Nat.succ_mul ..
  unfold divRound at hodd ⊢
  split_ifs at hodd ⊢
  · omega
  · rw [hstep]
    omega
  · omega

namespace Magnitude

/-! ## Gaps -/

theorem unitsOfRank_parts {s R : Nat} (hR : R ≤ 2 * binadeSize) (hs : 0 < s → binadeSize ≤ R) :
    unitsOfRank (s * binadeSize + R) = R * 2 ^ s := by
  unfold unitsOfRank
  rw [binadeSize_eq] at *
  split
  · obtain rfl : s = 0 := by omega
    omega
  · by_cases htop : R = 2 * 2 ^ 52
    · have hdiv : (s * 2 ^ 52 + R) / 2 ^ 52 = s + 2 := by omega
      have hmod : (s * 2 ^ 52 + R) % 2 ^ 52 = 0 := by omega
      have hshift : s + 2 - 1 = s + 1 := by omega
      rw [hdiv, hmod, hshift, Nat.shiftLeft_eq, htop, Nat.pow_succ]
      ring
    · have hdiv : (s * 2 ^ 52 + R) / 2 ^ 52 = s + 1 := by omega
      have hmod : (s * 2 ^ 52 + R) % 2 ^ 52 = R - 2 ^ 52 := by omega
      have hsum : 2 ^ 52 + (R - 2 ^ 52) = R := by omega
      rw [hdiv, hmod, Nat.shiftLeft_eq, hsum, Nat.add_sub_cancel]

/-- The binade of a rank counts the doublings of the gap behind it. -/
def binade (r : Nat) : Nat := r / binadeSize - 1

theorem exists_parts (r : Nat) :
    ∃ R, r = binade r * binadeSize + R ∧ R < 2 * binadeSize ∧ (0 < binade r → binadeSize ≤ R) ∧
      unitsOfRank r = R * 2 ^ binade r := by
  have hparts : ∃ R, r = binade r * binadeSize + R ∧ R < 2 * binadeSize ∧
      (0 < binade r → binadeSize ≤ R) := by
    unfold binade
    rw [binadeSize_eq]
    refine ⟨r - (r / 2 ^ 52 - 1) * 2 ^ 52, ?_, ?_, ?_⟩ <;> omega
  obtain ⟨R, hr, hlt, hle⟩ := hparts
  refine ⟨R, hr, hlt, hle, ?_⟩
  conv_lhs => rw [hr]
  exact unitsOfRank_parts (by omega) hle

theorem unitsOfRank_succ (r : Nat) : unitsOfRank (r + 1) = unitsOfRank r + 2 ^ binade r := by
  obtain ⟨R, hr, hlt, hle, hunits⟩ := exists_parts r
  have hnext : unitsOfRank (r + 1) = (R + 1) * 2 ^ binade r := by
    conv_lhs => rw [hr, Nat.add_assoc]
    exact unitsOfRank_parts (by omega) fun hpos => by have := hle hpos; omega
  rw [hunits, hnext, Nat.succ_mul]

theorem cast_unitsOfRank_succ (r : Nat) :
    (unitsOfRank (r + 1) : ℚ) = unitsOfRank r + 2 ^ binade r := by
  rw [unitsOfRank_succ]
  push_cast
  rfl

/-- The gap before a magnitude is no greater than the one behind it. -/
theorem unitsOfRank_le_prev (r : Nat) : unitsOfRank r ≤ unitsOfRank (r - 1) + 2 ^ binade r := by
  cases r with
  | zero => exact Nat.le_add_right ..
  | succ r =>
    have hbinade : binade r ≤ binade (r + 1) :=
      Nat.sub_le_sub_right (Nat.div_le_div_right (Nat.le_succ r)) 1
    rw [unitsOfRank_succ, Nat.add_sub_cancel]
    exact Nat.add_le_add_left (Nat.pow_le_pow_right (by omega) hbinade) _

theorem unitsOfRank_strictMono : StrictMono unitsOfRank := by
  refine strictMono_nat_of_lt_succ fun r => ?_
  have hgap := Nat.two_pow_pos (binade r)
  rw [unitsOfRank_succ]
  omega

/-- Past the lowest binade a magnitude is many times the gap behind it. -/
theorem gap_le_unitsOfRank {r : Nat} (h : binadeSize ≤ r) :
    binadeSize * 2 ^ binade r ≤ unitsOfRank r := by
  obtain ⟨R, hr, -, hle, hunits⟩ := exists_parts r
  have hR : binadeSize ≤ R := by
    by_cases hpos : 0 < binade r
    · exact hle hpos
    · have hzero : binade r = 0 := by omega
      rw [hzero, Nat.zero_mul, Nat.zero_add] at hr
      omega
  rw [hunits]
  exact Nat.mul_le_mul_right _ hR

/-- The gap before a magnitude is at least a small part of the magnitude. -/
theorem unitsOfRank_le_gap (r : Nat) : unitsOfRank (r + 1) ≤ 2 * binadeSize * 2 ^ binade r := by
  obtain ⟨R, -, hlt, -, hunits⟩ := exists_parts r
  rw [unitsOfRank_succ, hunits, ← Nat.succ_mul]
  exact Nat.mul_le_mul_right _ hlt

/-- The gap behind a magnitude is at least that of its binade. -/
theorem gap_behind {s R : Nat} (hbottom : 0 < s → binadeSize ≤ R) :
    unitsOfRank (s * binadeSize + R) + 2 ^ s ≤ unitsOfRank (s * binadeSize + R + 1) := by
  have hbinade : s ≤ binade (s * binadeSize + R) := by
    unfold binade
    rw [binadeSize_eq] at *
    omega
  rw [unitsOfRank_succ]
  exact Nat.add_le_add_left (Nat.pow_le_pow_right (by omega) hbinade) _

/-- The gap before a magnitude is that of its binade, but for the first magnitude of a binade. -/
theorem gap_before {s R : Nat} (hpos : 0 < s * binadeSize + R)
    (hbottom : 0 < s → binadeSize ≤ R) :
    unitsOfRank (s * binadeSize + R - 1) + 2 ^ s ≤ unitsOfRank (s * binadeSize + R) ∨
      0 < s ∧ R = binadeSize := by
  by_cases hbinade : s ≤ binade (s * binadeSize + R - 1)
  · have hsucc := unitsOfRank_succ (s * binadeSize + R - 1)
    rw [Nat.sub_add_cancel hpos] at hsucc
    rw [hsucc]
    exact Or.inl (Nat.add_le_add_left (Nat.pow_le_pow_right (by omega) hbinade) _)
  · unfold binade at hbinade
    rw [binadeSize_eq] at *
    omega

/-! ## Midpoints -/

/-- A number counted in halves of the smallest magnitude. -/
def halfUnits (x : ℚ) : ℚ := x * 2 ^ 1075

/-- A number lies no farther from the magnitude of a rank than the midpoints towards its neighbours,
and nearer if the rank is odd. -/
structure Covers (r : Nat) (x : ℚ) : Prop where
  low : ((unitsOfRank (r - 1) + unitsOfRank r : Nat) : ℚ) ≤ halfUnits x
  high : halfUnits x ≤ (unitsOfRank r + unitsOfRank (r + 1) : Nat)
  odd : r % 2 = 1 → ((unitsOfRank (r - 1) + unitsOfRank r : Nat) : ℚ) < halfUnits x ∧
    halfUnits x < (unitsOfRank r + unitsOfRank (r + 1) : Nat)

/-- No number is covered by two ranks: between two ranks there is a midpoint of either, and if they
share it one of them is odd. -/
theorem Covers.unique {r r' : Nat} {x : ℚ} (h : Covers r x) (h' : Covers r' x) : r = r' := by
  have hapart : ∀ {r r' : Nat}, Covers r x → Covers r' x → ¬ r < r' := by
    intro r r' h h' hlt
    have hle : unitsOfRank r ≤ unitsOfRank (r' - 1) :=
      unitsOfRank_strictMono.monotone (by omega)
    have hle' : unitsOfRank (r + 1) ≤ unitsOfRank r' := unitsOfRank_strictMono.monotone hlt
    have hmid : unitsOfRank r + unitsOfRank (r + 1) ≤ unitsOfRank (r' - 1) + unitsOfRank r' := by
      omega
    have hmid' : ((unitsOfRank r + unitsOfRank (r + 1) : Nat) : ℚ) ≤
        (unitsOfRank (r' - 1) + unitsOfRank r' : Nat) := Nat.cast_le.mpr hmid
    rcases Nat.mod_two_eq_zero_or_one r with heven | hodd
    · rcases Nat.mod_two_eq_zero_or_one r' with heven' | hodd'
      · have hfar : r < r' - 1 := by omega
        have hlt' : unitsOfRank r + unitsOfRank (r + 1) <
            unitsOfRank (r' - 1) + unitsOfRank r' :=
          Nat.add_lt_add_of_lt_of_le (unitsOfRank_strictMono hfar) hle'
        have hmid'' : ((unitsOfRank r + unitsOfRank (r + 1) : Nat) : ℚ) <
            (unitsOfRank (r' - 1) + unitsOfRank r' : Nat) := Nat.cast_lt.mpr hlt'
        linarith [h.high, h'.low]
      · linarith [h.high, (h'.odd hodd').1]
    · linarith [(h.odd hodd).2, h'.low]
  have hnot := hapart h h'
  have hnot' := hapart h' h
  omega

/-! ## Rounding -/

/-- A quotient lies between the two midpoints around what it is rounded to. -/
theorem nearestRank_midpoints (n : Nat) {d : Nat} (hd : 0 < d) :
    (unitsOfRank (nearestRank n d - 1) + unitsOfRank (nearestRank n d)) * d ≤ 2 * (n <<< 1074) ∧
    2 * (n <<< 1074) ≤ (unitsOfRank (nearestRank n d) + unitsOfRank (nearestRank n d + 1)) * d ∧
    (nearestRank n d % 2 = 1 →
      (unitsOfRank (nearestRank n d - 1) + unitsOfRank (nearestRank n d)) * d < 2 * (n <<< 1074) ∧
      2 * (n <<< 1074) <
        (unitsOfRank (nearestRank n d) + unitsOfRank (nearestRank n d + 1)) * d) := by
  rw [nearestRank_eq]
  generalize n <<< 1074 = N
  have htop := divRound_shift_le N hd
  have hbottom := binadeSize_le_divRound (n := N) hd
  have hfirst := binadeSize_mul_le (n := N) hd
  have hpos : 0 < d <<< shiftOf (N / d) := by
    rw [Nat.shiftLeft_eq]
    exact Nat.mul_pos hd (Nat.two_pow_pos _)
  have hbounds := divRound_bounds N hpos
  have hoddBounds := divRound_bounds_of_odd N hpos
  generalize shiftOf (N / d) = s at *
  generalize divRound N (d <<< s) = R at *
  have hstep : 2 ^ s * d = d <<< s := by rw [Nat.shiftLeft_eq, Nat.mul_comm]
  have hthis : unitsOfRank (s * binadeSize + R) * d = R * d <<< s := by
    rw [unitsOfRank_parts htop hbottom, Nat.mul_assoc, hstep]
  have hnext := Nat.mul_le_mul_right d (gap_behind hbottom)
  rw [Nat.add_mul, hstep, hthis] at hnext
  have hparity : (s * binadeSize + R) % 2 = R % 2 := by
    rw [binadeSize_eq]
    omega
  -- Only the first magnitude of a binade has a smaller gap before it; nothing is rounded up to it.
  have hprev : s * binadeSize + R = 0 ∨
      unitsOfRank (s * binadeSize + R - 1) * d + d <<< s ≤ R * d <<< s ∨
      R % 2 = 0 ∧ unitsOfRank (s * binadeSize + R - 1) * d ≤ R * d <<< s ∧ R * d <<< s ≤ N := by
    by_cases hzero : s * binadeSize + R = 0
    · exact Or.inl hzero
    · rcases gap_before (Nat.pos_of_ne_zero hzero) hbottom with hgap | ⟨hs, rfl⟩
      · have hmul := Nat.mul_le_mul_right d hgap
        rw [Nat.add_mul, hstep, hthis] at hmul
        exact Or.inr (Or.inl hmul)
      · have hmul := Nat.mul_le_mul_right d
          (unitsOfRank_strictMono.monotone (Nat.sub_le (s * binadeSize + binadeSize) 1))
        rw [hthis] at hmul
        exact Or.inr (Or.inr ⟨by decide, hmul, hfirst hs⟩)
  rw [Nat.add_mul, Nat.add_mul, hthis]
  refine ⟨?_, by omega, fun hodd => ?_⟩
  · rcases hprev with hzero | hprev | ⟨-, hprev, hN⟩
    · rw [hzero, Nat.zero_sub, show unitsOfRank 0 = 0 by decide]
      rw [hzero, show unitsOfRank 0 = 0 by decide] at hthis
      omega
    · omega
    · omega
  · rw [hparity] at hodd
    have hstrict := hoddBounds hodd
    rcases hprev with hzero | hprev | ⟨heven, -⟩
    · omega
    · omega
    · omega

theorem cast_shiftLeft (n k : Nat) : ((n <<< k : Nat) : ℚ) = n * 2 ^ k := by
  rw [Nat.shiftLeft_eq]
  push_cast
  rfl

theorem covers_nearestRank (n : Nat) {d : Nat} (hd : 0 < d) :
    Covers (nearestRank n d) ((n : ℚ) / d) := by
  have hcast : ∀ k : Nat, ((2 * (n <<< k) : Nat) : ℚ) = n * 2 ^ (k + 1) := by
    intro k
    rw [Nat.cast_mul, cast_shiftLeft]
    push_cast
    ring
  have hscale : halfUnits ((n : ℚ) / d) = (2 * (n <<< 1074) : Nat) / d := by
    rw [hcast 1074]
    exact div_mul_eq_mul_div ..
  have hd' : (0 : ℚ) < d := Nat.cast_pos.mpr hd
  obtain ⟨hlow, hhigh, hodd⟩ := nearestRank_midpoints n hd
  refine ⟨?_, ?_, fun h => ⟨?_, ?_⟩⟩
  · rw [hscale, le_div_iff₀ hd']
    exact_mod_cast hlow
  · rw [hscale, div_le_iff₀ hd']
    exact_mod_cast hhigh
  · rw [hscale, lt_div_iff₀ hd']
    exact_mod_cast (hodd h).1
  · rw [hscale, div_lt_iff₀ hd']
    exact_mod_cast (hodd h).2

theorem nearestRank_eq_iff {n d r : Nat} (hd : 0 < d) :
    nearestRank n d = r ↔ Covers r ((n : ℚ) / d) :=
  ⟨fun h => h ▸ covers_nearestRank n hd, fun h => (covers_nearestRank n hd).unique h⟩

end Magnitude

end Criteria
