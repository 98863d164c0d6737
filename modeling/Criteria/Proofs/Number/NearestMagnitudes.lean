import Criteria.Proofs.Number.PlainTexts

/-!
# The nearest magnitude

Rounding is told by distances alone: no magnitude is nearer to a number than the one it is rounded
to, and of two that are equally near it is the even one. Infinity takes part with the power of two
behind the greatest number, so that it is nearest to what is too great for the format. There is one
such magnitude for every number, and it is what a quotient and a decimal of any length are rounded
to: the shortcuts for long exponents change nothing.
-/

namespace Criteria.Magnitude

variable {m : Magnitude} {x : ℚ} {p r : Nat}

/-- The number that a magnitude stands for; for infinity the first power of two that is not
reached. -/
def value (m : Magnitude) : ℚ := m.units / 2 ^ 1074

/-- No magnitude is nearer to the number, and if another is equally near this one is even. -/
structure IsNearest (m : Magnitude) (x : ℚ) : Prop where
  distance_le : ∀ m' : Magnitude, |x - m.value| ≤ |x - m'.value|
  even_of_tie : ∀ m' : Magnitude, m' ≠ m → |x - m'.value| = |x - m.value| → m.rank % 2 = 0

theorem exists_rank_of_parts {s k : Nat} (hs : s < 2 ^ 53) (hk : k ≤ 2045) :
    ∃ r < 2047 * binadeSize, unitsOfRank r = s * 2 ^ k := by
  have hsize : binadeSize = 2 ^ 52 := binadeSize_eq
  induction k generalizing s with
  | zero =>
    refine ⟨s, by omega, ?_⟩
    have hunits := unitsOfRank_parts (s := 0) (R := s) (by omega) (fun h => absurd h (by omega))
    rwa [Nat.zero_mul, Nat.zero_add] at hunits
  | succ k ih =>
    by_cases hnormal : binadeSize ≤ s
    · have hbinades : (k + 1) * binadeSize ≤ 2045 * binadeSize := Nat.mul_le_mul_right _ hk
      exact ⟨(k + 1) * binadeSize + s, by omega, unitsOfRank_parts (by omega) fun _ => hnormal⟩
    · -- a short significand is doubled, at the next lower power
      obtain ⟨r, hr, hunits⟩ := ih (s := 2 * s) (by omega) (by omega)
      refine ⟨r, hr, ?_⟩
      rw [hunits, Nat.pow_succ]
      ring

/-- The numbers of the format are those with fifty-three bits before a power of two in its range. -/
theorem exists_value_eq_iff : (∃ m : Magnitude, m.isFinite = true ∧ m.value = x) ↔
    ∃ s k : Nat, s < 2 ^ 53 ∧ k ≤ 2045 ∧ x = s * 2 ^ k / 2 ^ 1074 := by
  have hsize : binadeSize = 2 ^ 52 := binadeSize_eq
  have htop : infinity.rank = 2047 * binadeSize := rfl
  constructor
  · rintro ⟨m, hfinite, rfl⟩
    rw [isFinite, decide_eq_true_eq, htop, hsize] at hfinite
    obtain ⟨R, -, hlt, -, hunits⟩ := exists_parts m.rank
    refine ⟨R, binade m.rank, by omega, ?_, ?_⟩
    · rw [binade, hsize]
      omega
    · rw [value, units, hunits, Nat.cast_mul, Nat.cast_pow, Nat.cast_ofNat]
  · rintro ⟨s, k, hs, hk, rfl⟩
    obtain ⟨r, hr, hunits⟩ := exists_rank_of_parts hs hk
    refine ⟨⟨r, hr.le⟩, decide_eq_true hr, ?_⟩
    rw [value, units, hunits, Nat.cast_mul, Nat.cast_pow, Nat.cast_ofNat]

/-! ## Distances -/

/-- The distance from the magnitude of a rank, in halves of the smallest magnitude. -/
def distance (x : ℚ) (r : Nat) : ℚ := |halfUnits x - 2 * unitsOfRank r|

theorem abs_sub_value (x : ℚ) (m : Magnitude) : |x - m.value| = distance x m.rank / 2 ^ 1075 := by
  have hscale : (0 : ℚ) < 2 ^ 1075 := by positivity
  have hhalves : halfUnits x - 2 * unitsOfRank m.rank = (x - m.value) * 2 ^ 1075 := by
    have htwice : (2 : ℚ) ^ 1075 = 2 * 2 ^ 1074 := pow_succ' 2 1074
    have hne : (2 : ℚ) ^ 1074 ≠ 0 := by positivity
    unfold halfUnits value units
    rw [htwice]
    generalize (2 : ℚ) ^ 1074 = unit at hne
    field_simp
  rw [distance, hhalves, abs_mul, abs_of_pos hscale, mul_div_cancel_right₀ _ hscale.ne']

theorem isNearest_iff : m.IsNearest x ↔
    (∀ m' : Magnitude, distance x m.rank ≤ distance x m'.rank) ∧
      ∀ m' : Magnitude, m' ≠ m → distance x m'.rank = distance x m.rank → m.rank % 2 = 0 := by
  have hscale : (0 : ℚ) < 2 ^ 1075 := by positivity
  have hle : ∀ m' : Magnitude,
      |x - m.value| ≤ |x - m'.value| ↔ distance x m.rank ≤ distance x m'.rank := by
    intro m'
    rw [abs_sub_value, abs_sub_value, div_le_div_iff_of_pos_right hscale]
  have heq : ∀ m' : Magnitude,
      |x - m'.value| = |x - m.value| ↔ distance x m'.rank = distance x m.rank := by
    intro m'
    rw [abs_sub_value, abs_sub_value, div_left_inj' hscale.ne']
  constructor
  · intro h
    exact ⟨fun m' => (hle m').mp (h.distance_le m'),
      fun m' hne htie => h.even_of_tie m' hne ((heq m').mpr htie)⟩
  · rintro ⟨hdistance, htie⟩
    exact ⟨fun m' => (hle m').mpr (hdistance m'),
      fun m' hne hequal => htie m' hne ((heq m').mp hequal)⟩

theorem cast_units_lt (h : p < r) : (unitsOfRank p : ℚ) < unitsOfRank r :=
  Nat.cast_lt.mpr (unitsOfRank_strictMono h)

theorem cast_units_le (h : p ≤ r) : (unitsOfRank p : ℚ) ≤ unitsOfRank r :=
  Nat.cast_le.mpr (unitsOfRank_strictMono.monotone h)

/-- Above the midpoint towards its neighbour below, a magnitude is nearer than all below it. -/
theorem distance_below (h : p < r)
    (hlow : ((unitsOfRank (r - 1) + unitsOfRank r : Nat) : ℚ) ≤ halfUnits x) :
    distance x r ≤ distance x p ∧ (distance x p = distance x r →
      halfUnits x ≤ (unitsOfRank (r - 1) + unitsOfRank r : Nat)) := by
  have hprev := cast_units_le (p := p) (r := r - 1) (by omega)
  have hlt := cast_units_lt h
  unfold distance
  push_cast at hlow ⊢
  rw [abs_of_nonneg (by linarith : 0 ≤ halfUnits x - 2 * (unitsOfRank p : ℚ))]
  rcases abs_cases (halfUnits x - 2 * (unitsOfRank r : ℚ)) with ⟨habs, -⟩ | ⟨habs, -⟩
  · rw [habs]
    exact ⟨by linarith, fun htie => by linarith⟩
  · rw [habs]
    exact ⟨by linarith, fun htie => by linarith⟩

/-- Below the midpoint towards its neighbour above, a magnitude is nearer than all above it. -/
theorem distance_above (h : p < r)
    (hhigh : halfUnits x ≤ (unitsOfRank p + unitsOfRank (p + 1) : Nat)) :
    distance x p ≤ distance x r ∧ (distance x r = distance x p →
      ((unitsOfRank p + unitsOfRank (p + 1) : Nat) : ℚ) ≤ halfUnits x) := by
  have hnext := cast_units_le (p := p + 1) (r := r) h
  have hlt := cast_units_lt h
  unfold distance
  push_cast at hhigh ⊢
  rw [abs_of_nonpos (by linarith : halfUnits x - 2 * (unitsOfRank r : ℚ) ≤ 0)]
  rcases abs_cases (halfUnits x - 2 * (unitsOfRank p : ℚ)) with ⟨habs, -⟩ | ⟨habs, -⟩
  · rw [habs]
    exact ⟨by linarith, fun htie => by linarith⟩
  · rw [habs]
    exact ⟨by linarith, fun htie => by linarith⟩

theorem rank_ne_of_ne {m' : Magnitude} (h : m' ≠ m) : m'.rank ≠ m.rank := by
  intro hrank
  rw [ne_eq, Magnitude.mk.injEq] at h
  exact h hrank

/-! ## The nearest magnitude of a number -/

theorem isNearest_of_covers (h : Covers m.rank x) : m.IsNearest x := by
  rw [isNearest_iff]
  refine ⟨fun m' => ?_, fun m' hne htie => ?_⟩
  · rcases lt_trichotomy m'.rank m.rank with hlt | heq | hgt
    · exact (distance_below hlt h.low).1
    · rw [heq]
    · exact (distance_above hgt h.high).1
  · by_contra hodd
    have hodd' := h.odd (by omega)
    rcases Nat.lt_or_gt_of_ne (rank_ne_of_ne hne) with hlt | hgt
    · exact absurd ((distance_below hlt h.low).2 htie) (not_le.mpr hodd'.1)
    · exact absurd ((distance_above hgt h.high).2 htie) (not_le.mpr hodd'.2)

/-- From the midpoint behind the greatest number on, infinity is nearest. -/
theorem isNearest_infinity
    (h : ((unitsOfRank (infinity.rank - 1) + unitsOfRank infinity.rank : Nat) : ℚ) ≤ halfUnits x) :
    infinity.IsNearest x := by
  rw [isNearest_iff]
  refine ⟨fun m' => ?_, fun _ _ _ => by decide +kernel⟩
  rcases Nat.lt_or_eq_of_le m'.rank_le with hlt | heq
  · exact (distance_below hlt h).1
  · exact (congrArg (distance x) heq).ge

/-- Two magnitudes are not both nearest: a rank between them would be nearer than either, and
neighbours are not both even. -/
theorem IsNearest.unique {m' : Magnitude} (h : m.IsNearest x) (h' : m'.IsNearest x) : m = m' := by
  have hapart : ∀ {a b : Magnitude}, a.IsNearest x → b.IsNearest x → ¬ a.rank < b.rank := by
    intro a b ha hb hlt
    have hne : a ≠ b := by
      rintro rfl
      exact absurd hlt (lt_irrefl _)
    rw [isNearest_iff] at ha hb
    have htie : distance x a.rank = distance x b.rank := le_antisymm (ha.1 b) (hb.1 a)
    have heven := ha.2 b hne.symm htie.symm
    have heven' := hb.2 a hne htie
    have hbound := b.rank_le
    have hbetween := ha.1 ⟨a.rank + 1, by omega⟩
    have hbelow := cast_units_lt (Nat.lt_succ_self a.rank)
    have habove := cast_units_lt (p := a.rank + 1) (r := b.rank) (by omega)
    unfold distance at htie hbetween
    generalize (unitsOfRank a.rank : ℚ) = p at *
    generalize (unitsOfRank b.rank : ℚ) = q at *
    generalize (unitsOfRank (a.rank + 1) : ℚ) = t at *
    have hmiddle : halfUnits x = p + q := by
      rcases abs_eq_abs.mp htie with hsame | hopposite
      · linarith
      · linarith
    rw [hmiddle, abs_of_pos (by linarith : 0 < p + q - 2 * p)] at hbetween
    exact absurd hbetween (not_le.mpr (abs_lt.mpr ⟨by linarith, by linarith⟩))
  have hnot := hapart h h'
  have hnot' := hapart h' h
  rw [Magnitude.mk.injEq]
  omega

/-- A quotient is rounded to the nearest magnitude. -/
theorem isNearest_nearest (n : Nat) {d : Nat} (hd : 0 < d) :
    (nearest n d).IsNearest ((n : ℚ) / d) := by
  have hcovers := covers_nearestRank n hd
  by_cases hle : nearestRank n d ≤ infinity.rank
  · have hrank : (nearest n d).rank = nearestRank n d := Nat.min_eq_left hle
    rw [← hrank] at hcovers
    exact isNearest_of_covers hcovers
  · have hinfinity : nearest n d = infinity := by
      rw [Magnitude.mk.injEq]
      exact Nat.min_eq_right (Nat.le_of_not_le hle)
    rw [hinfinity]
    refine isNearest_infinity (le_trans ?_ hcovers.low)
    exact Nat.cast_le.mpr (Nat.add_le_add (unitsOfRank_strictMono.monotone (by omega))
      (unitsOfRank_strictMono.monotone (by omega)))

/-! ## Decimals -/

/-- A decimal beyond ten to the power of four hundred is too great. -/
theorem isNearest_infinity_of_lt {digits : Nat} {exponent : Int} (hdigits : digits ≠ 0)
    (h : 400 < exponent) : infinity.IsNearest (digits * 10 ^ exponent) := by
  obtain ⟨k, rfl⟩ : ∃ k : Nat, exponent = 400 + k := ⟨(exponent - 400).toNat, by omega⟩
  have htop : unitsOfRank (infinity.rank - 1) + unitsOfRank infinity.rank ≤ 10 ^ 400 * 2 ^ 1075 := by
    decide +kernel
  have hone : (1 : ℚ) ≤ digits := Nat.one_le_cast.mpr (Nat.one_le_iff_ne_zero.mpr hdigits)
  have hpower : (1 : ℚ) ≤ 10 ^ k := one_le_pow₀ (by norm_num)
  have hgreat : (1 : ℚ) ≤ digits * 10 ^ k := one_le_mul_of_one_le_of_one_le hone hpower
  have hvalue : (digits : ℚ) * 10 ^ (400 + (k : Int)) = 10 ^ 400 * (digits * 10 ^ k) := by
    rw [zpow_add₀ (by norm_num), zpow_natCast]
    exact mul_left_comm ..
  refine isNearest_infinity ?_
  calc ((unitsOfRank (infinity.rank - 1) + unitsOfRank infinity.rank : Nat) : ℚ)
      ≤ (10 ^ 400 * 2 ^ 1075 : Nat) := Nat.cast_le.mpr htop
    _ = 10 ^ 400 * 2 ^ 1075 := by
        rw [Nat.cast_mul, Nat.cast_pow, Nat.cast_pow, Nat.cast_ofNat, Nat.cast_ofNat]
    _ ≤ 10 ^ 400 * (digits * 10 ^ k) * 2 ^ 1075 := by
        refine mul_le_mul_of_nonneg_right ?_ (by positivity)
        exact le_mul_of_one_le_right (by positivity) hgreat
    _ = halfUnits (digits * 10 ^ (400 + (k : Int))) := by rw [hvalue, halfUnits]

/-- A decimal far below the smallest magnitude is nearest to zero. -/
theorem isNearest_zero_of_lt {digits places : Nat} (h : 400 + digits.log2 < places) :
    zero.IsNearest ((digits : ℚ) / (10 ^ places : Nat)) := by
  have hcovers := covers_nearestRank digits (show 0 < 10 ^ places from Nat.pow_pos (by omega))
  have hrank : nearestRank digits (10 ^ places) = 0 := by
    by_contra hne
    have hplaces := le_of_covers (Nat.pos_of_ne_zero hne) hcovers
    omega
  rw [hrank] at hcovers
  exact isNearest_of_covers hcovers

/-- A decimal is rounded to the nearest magnitude, whatever its digits and its exponent. -/
theorem isNearest_ofDecimal (digits : Nat) (exponent : Int) :
    (ofDecimal digits exponent).IsNearest (digits * 10 ^ exponent) := by
  have hnegative : ∀ {places : Nat},
      (digits : ℚ) * 10 ^ (-(places : Int)) = digits / (10 ^ places : Nat) := by
    intro places
    rw [zpow_neg, zpow_natCast, ← div_eq_mul_inv, Nat.cast_pow, Nat.cast_ofNat]
  unfold ofDecimal
  split
  · next hzero =>
    have hnone : nearest 0 1 = zero := by decide +kernel
    have hnearest := isNearest_nearest 0 (d := 1) Nat.one_pos
    rw [hzero, Nat.cast_zero, zero_mul]
    rwa [hnone, Nat.cast_zero, zero_div] at hnearest
  split
  · next hdigits hgreat => exact isNearest_infinity_of_lt hdigits hgreat
  split
  · next hsmall =>
    obtain ⟨places, rfl⟩ : ∃ places : Nat, exponent = -(places : Int) :=
      ⟨(-exponent).toNat, by omega⟩
    rw [hnegative]
    exact isNearest_zero_of_lt (by omega)
  split
  · next hwhole =>
    obtain ⟨k, rfl⟩ : ∃ k : Nat, exponent = k := ⟨exponent.toNat, by omega⟩
    have hnearest := isNearest_nearest (digits * powerOfTen k) Nat.one_pos
    have hpower : powerOfTen k = 10 ^ k := rfl
    rw [Nat.cast_one, div_one, hpower, Nat.cast_mul, Nat.cast_pow, Nat.cast_ofNat] at hnearest
    rw [Int.toNat_natCast, zpow_natCast]
    exact hnearest
  · next hfraction =>
    obtain ⟨places, rfl⟩ : ∃ places : Nat, exponent = -(places : Int) :=
      ⟨(-exponent).toNat, by omega⟩
    rw [hnegative, Int.neg_neg, Int.toNat_natCast]
    exact isNearest_nearest digits (Nat.pow_pos (by omega))

end Criteria.Magnitude
