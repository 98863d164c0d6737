import Criteria.Proofs.Number.DecimalGrids

/-!
# What the shortest digits are

The digits of a magnitude are searched on one decimal grid after the other, from the coarsest on. A
grid of seventeen digits is fine enough for all magnitudes, so the search finds a decimal, and the
magnitude covers it. A grid that is not so fine has at most one point that counts: two of them would
lie farther apart than the neighbours of the magnitude. So a short decimal is found again in the
magnitude that it is rounded to.
-/

namespace Criteria

namespace Magnitude

/-! ## The search -/

theorem unitsOfRank_pos {r : Nat} (h : 0 < r) : 0 < unitsOfRank r :=
  Nat.zero_lt_of_lt (unitsOfRank_strictMono h)

theorem log2_units_lt {m : Magnitude} (h : m.isFinite = true) : m.units.log2 < 2100 := by
  have hrank : m.rank < 2047 * binadeSize := by
    rw [isFinite, decide_eq_true_eq] at h
    exact h
  have htop : unitsOfRank (2047 * binadeSize) < 2 ^ 2100 := by decide +kernel
  have hunits : unitsOfRank m.rank < 2 ^ 2100 :=
    Nat.lt_trans (unitsOfRank_strictMono hrank) htop
  have hlog : ∀ e, 0 < e → unitsOfRank m.rank < 2 ^ e → (unitsOfRank m.rank).log2 < e := by
    intro e he hlt
    by_cases hzero : unitsOfRank m.rank = 0
    · rw [hzero, Nat.log2_zero]
      exact he
    · exact (Nat.log2_lt hzero).mpr hlt
  exact hlog 2100 (by omega) hunits

/-- A power of ten above the numbers of a binade, given by the binary logarithm of their units. -/
def tenOf (log : Nat) : Int := ((log : Int) - 1073) * 30103 / 100000 + 1

/-- The approximate logarithm of two is good enough for all binades. -/
theorem tenOf_bounds : ∀ log < 2100,
    2 ^ (log + 2) * gridDen (tenOf log) ≤ gridStep (tenOf log) ∧
      gridStep (tenOf log) ≤ 2000 * 2 ^ log * gridDen (tenOf log) := by
  have hall : (List.range 2100).all (fun log =>
      2 ^ (log + 2) * gridDen (tenOf log) ≤ gridStep (tenOf log) &&
        gridStep (tenOf log) ≤ 2000 * 2 ^ log * gridDen (tenOf log)) = true := by
    decide +kernel
  intro log hlog
  have hboth := List.all_eq_true.mp hall log (List.mem_range.mpr hlog)
  rwa [Bool.and_eq_true, decide_eq_true_eq, decide_eq_true_eq] at hboth

theorem tenAbove_bounds {m : Magnitude} (hfinite : m.isFinite = true) (hpos : 0 < m.rank) :
    2 * (unitsOfRank m.rank : ℚ) < stepUnits m.tenAbove ∧
      stepUnits m.tenAbove ≤ 2000 * unitsOfRank m.rank := by
  obtain ⟨habove, hbelow⟩ := tenOf_bounds _ (log2_units_lt hfinite)
  change _ * gridDen m.tenAbove ≤ gridStep m.tenAbove at habove
  change gridStep m.tenAbove ≤ _ * gridDen m.tenAbove at hbelow
  rw [← Nat.one_mul (gridStep _), mul_gridDen_le_iff] at habove
  rw [← Nat.one_mul (gridStep _), mul_gridStep_le_iff] at hbelow
  have hlow : ((2 ^ m.units.log2 : Nat) : ℚ) ≤ unitsOfRank m.rank :=
    Nat.cast_le.mpr (Nat.log2_self_le (Nat.pos_iff_ne_zero.mp (unitsOfRank_pos hpos)))
  have hhigh : ((unitsOfRank m.rank : Nat) : ℚ) < (2 ^ (m.units.log2 + 1) : Nat) :=
    Nat.cast_lt.mpr Nat.lt_log2_self
  push_cast [pow_succ] at habove hbelow hlow hhigh
  constructor
  · linarith
  · linarith

/-- The grid of the twentieth power below has a point that a magnitude covers. -/
theorem covers_stepsBelow {m : Magnitude} (hfinite : m.isFinite = true) (hpos : 0 < m.rank) :
    m.span.stepsBelow (m.tenAbove - 20) ≠ 0 ∧
      Covers m.rank (m.span.stepsBelow (m.tenAbove - 20) * 10 ^ (m.tenAbove - 20)) := by
  obtain ⟨-, hten⟩ := tenAbove_bounds hfinite hpos
  have hscale : stepUnits m.tenAbove = 10 ^ 20 * stepUnits (m.tenAbove - 20) :=
    stepUnits_split m.tenAbove 20
  have hbelow := stepsBelow_le m (m.tenAbove - 20)
  have habove := lt_stepsBelow_succ m (m.tenAbove - 20)
  have hunits : (0 : ℚ) < unitsOfRank m.rank := Nat.cast_pos.mpr (unitsOfRank_pos hpos)
  obtain ⟨r, hr⟩ : ∃ r, m.rank = r + 1 := ⟨m.rank - 1, by omega⟩
  have hgap := cast_unitsOfRank_succ r
  rw [← hr] at hgap
  have hsmall : (unitsOfRank m.rank : ℚ) ≤ 2 * 2 ^ 52 * 2 ^ binade r := by
    have hle := unitsOfRank_le_gap r
    rw [← hr, binadeSize_eq] at hle
    exact_mod_cast hle
  have hnext : (unitsOfRank m.rank : ℚ) < unitsOfRank (m.rank + 1) :=
    Nat.cast_lt.mpr (unitsOfRank_strictMono (Nat.lt_succ_self _))
  have hprev : m.rank - 1 = r := by omega
  have hstrict : ((unitsOfRank (m.rank - 1) + unitsOfRank m.rank : Nat) : ℚ) <
      halfUnits (m.span.stepsBelow (m.tenAbove - 20) * 10 ^ (m.tenAbove - 20)) ∧
      halfUnits (m.span.stepsBelow (m.tenAbove - 20) * 10 ^ (m.tenAbove - 20)) <
        (unitsOfRank m.rank + unitsOfRank (m.rank + 1) : Nat) := by
    rw [halfUnits_mul, hprev]
    push_cast
    constructor
    · linarith
    · linarith
  refine ⟨?_, hstrict.1.le, hstrict.2.le, fun _ => hstrict⟩
  intro hzero
  rw [hzero, Nat.cast_zero] at habove
  linarith

theorem exists_of_findSome?_range {α : Type} {f : Nat → Option α} {n : Nat} {d : α}
    (h : (List.range n).findSome? f = some d) :
    ∃ i < n, f i = some d ∧ ∀ j < i, f j = none := by
  induction n with
  | zero => exact absurd h (by simp)
  | succ n ih =>
    rw [List.range_succ, List.findSome?_append] at h
    cases hfirst : (List.range n).findSome? f with
    | some d' =>
      rw [hfirst] at h
      obtain ⟨i, hi, hfound, hnone⟩ := ih (hfirst.trans h)
      exact ⟨i, by omega, hfound, hnone⟩
    | none =>
      rw [hfirst, Option.none_or] at h
      rw [List.findSome?_eq_none_iff] at hfirst
      refine ⟨n, Nat.lt_succ_self n, ?_, fun j hj => hfirst j (List.mem_range.mpr hj)⟩
      simpa using h

/-- The digits are those of the coarsest grid that has any, without the zeros at their end. -/
theorem shortest_eq_dropZeros (tie : TieRule) {m : Magnitude} (hfinite : m.isFinite = true)
    (hpos : 0 < m.rank) :
    ∃ i ≤ 20, ∃ d, m.span.digitsAt? tie (m.tenAbove - (i : Nat)) = some d ∧
      (∀ j < i, m.span.digitsAt? tie (m.tenAbove - (j : Nat)) = none) ∧
      m.shortest tie = dropZeros 20 d := by
  obtain ⟨hstep, hcovers⟩ := covers_stepsBelow hfinite hpos
  have hlast : (m.span.digitsAt? tie (m.tenAbove - (20 : Nat))).isSome = true :=
    digitsAt?_isSome hstep hcovers
  cases hfound : (List.range 21).findSome? fun i =>
      m.span.digitsAt? tie (m.tenAbove - (i : Nat)) with
  | none =>
    rw [List.findSome?_eq_none_iff] at hfound
    rw [hfound 20 (by decide)] at hlast
    exact absurd hlast Bool.false_ne_true
  | some d =>
    obtain ⟨i, hi, hdigits, hnone⟩ := exists_of_findSome?_range hfound
    refine ⟨i, by omega, d, hdigits, hnone, ?_⟩
    rw [shortest, hfound]
    rfl

/-! ## Zeros at the end -/

theorem dropZeros_value (fuel : Nat) (d : Scientific) :
    ((dropZeros fuel d).digits : ℚ) * 10 ^ (dropZeros fuel d).exponent =
      d.digits * 10 ^ d.exponent := by
  induction fuel generalizing d with
  | zero => rfl
  | succ fuel ih =>
    unfold dropZeros
    split
    · rename_i hzero
      have hdigits : d.digits = d.digits / 10 * 10 := by
        rw [beq_iff_eq] at hzero
        omega
      rw [ih]
      conv_rhs => rw [hdigits]
      push_cast
      rw [zpow_add_one₀ (by norm_num)]
      ring
    · rfl

/-- All zeros are dropped if there can be no more of them than are tried. -/
theorem dropZeros_last {fuel : Nat} {d : Scientific} (hpos : 0 < d.digits)
    (hle : d.digits ≤ 10 ^ fuel) : (dropZeros fuel d).digits % 10 ≠ 0 := by
  induction fuel generalizing d with
  | zero =>
    have hone : d.digits = 1 := by omega
    show d.digits % 10 ≠ 0
    rw [hone]
    decide
  | succ fuel ih =>
    unfold dropZeros
    split
    · rename_i hzero
      rw [beq_iff_eq] at hzero
      rw [Nat.pow_succ] at hle
      refine ih ?_ ?_
      · show 0 < d.digits / 10
        omega
      · show d.digits / 10 ≤ 10 ^ fuel
        omega
    · rename_i hlast
      rw [beq_iff_eq] at hlast
      exact hlast

/-- A decimal without zeros at its end is determined by its value. -/
theorem scientific_ext {d d' : Scientific} (h : d.digits % 10 ≠ 0) (h' : d'.digits % 10 ≠ 0)
    (hvalue : (d.digits : ℚ) * 10 ^ d.exponent = d'.digits * 10 ^ d'.exponent) : d = d' := by
  have hle : ∀ {d d' : Scientific}, d'.digits % 10 ≠ 0 →
      (d.digits : ℚ) * 10 ^ d.exponent = d'.digits * 10 ^ d'.exponent →
      d'.exponent ≤ d.exponent → d = d' := by
    intro d d' h' hvalue hle
    obtain ⟨n, hn⟩ : ∃ n : Nat, d.exponent = n + d'.exponent :=
      ⟨(d.exponent - d'.exponent).toNat, by omega⟩
    have hpower : (10 : ℚ) ^ d'.exponent ≠ 0 := by positivity
    rw [hn, zpow_add₀ (by norm_num), ← mul_assoc, zpow_natCast] at hvalue
    have hdigits : d.digits * 10 ^ n = d'.digits := by
      exact_mod_cast mul_right_cancel₀ hpower hvalue
    have hzero : n = 0 := by
      by_contra hne
      obtain ⟨k, rfl⟩ := Nat.exists_eq_succ_of_ne_zero hne
      rw [Nat.pow_succ, ← Nat.mul_assoc] at hdigits
      rw [← hdigits, Nat.mul_mod_left] at h'
      exact h' rfl
    rw [hzero, Nat.pow_zero, Nat.mul_one] at hdigits
    rw [hzero, Int.natCast_zero, zero_add] at hn
    rw [Scientific.mk.injEq]
    exact ⟨hdigits, hn⟩
  rcases le_total d'.exponent d.exponent with hexponent | hexponent
  · exact hle h' hvalue hexponent
  · exact (hle h hvalue.symm hexponent).symm

/-! ## What is found -/

theorem digits_le_of_digitsAt? {tie : TieRule} {m : Magnitude} {i : Nat} {d : Scientific}
    (hfinite : m.isFinite = true) (hpos : 0 < m.rank)
    (h : m.span.digitsAt? tie (m.tenAbove - (i : Nat)) = some d) : d.digits ≤ 10 ^ i := by
  obtain ⟨-, -, hle, -⟩ := digitsAt?_some h
  obtain ⟨hten, -⟩ := tenAbove_bounds hfinite hpos
  have hbelow := stepsBelow_le m (m.tenAbove - (i : Nat))
  have hlt : (m.span.stepsBelow (m.tenAbove - (i : Nat)) : ℚ) * stepUnits (m.tenAbove - (i : Nat)) <
      10 ^ i * stepUnits (m.tenAbove - (i : Nat)) := by
    rw [← stepUnits_split]
    exact lt_of_le_of_lt hbelow hten
  have hsteps : m.span.stepsBelow (m.tenAbove - (i : Nat)) < 10 ^ i := by
    exact_mod_cast lt_of_mul_lt_mul_right hlt (stepUnits_pos _).le
  omega

/-- The digits of a magnitude are a decimal that it covers, without zeros at its end. -/
theorem covers_shortest (tie : TieRule) {m : Magnitude} (hfinite : m.isFinite = true)
    (hpos : 0 < m.rank) :
    (m.shortest tie).digits % 10 ≠ 0 ∧
      Covers m.rank ((m.shortest tie).digits * 10 ^ (m.shortest tie).exponent) := by
  obtain ⟨i, hi, d, hdigits, -, hshortest⟩ := shortest_eq_dropZeros tie hfinite hpos
  obtain ⟨-, hdpos, -, hcovers⟩ := digitsAt?_some hdigits
  have hle : d.digits ≤ 10 ^ 20 :=
    le_trans (digits_le_of_digitsAt? hfinite hpos hdigits) (Nat.pow_le_pow_right (by omega) hi)
  rw [hshortest, dropZeros_value]
  exact ⟨dropZeros_last hdpos hle, hcovers⟩

/-- Two multiples of one number are covered only if they are many times the number. -/
theorem Covers.le_of_lt {r j j' : Nat} {x : ℚ} (hnormal : binadeSize ≤ r) (hx : 0 < x)
    (h : Covers r (j * x)) (h' : Covers r (j' * x)) (hlt : j < j') : 2 ^ 52 ≤ j := by
  by_contra hsmall
  have hscale : ∀ i : Nat, halfUnits (i * x) = i * halfUnits x := fun i => mul_assoc ..
  have hlow := h.low
  have hhigh := h'.high
  rw [hscale] at hlow hhigh
  have hhalf : 0 < halfUnits x := mul_pos hx (by positivity)
  have hnext := cast_unitsOfRank_succ r
  have hprev : (unitsOfRank r : ℚ) ≤ unitsOfRank (r - 1) + 2 ^ binade r := by
    exact_mod_cast unitsOfRank_le_prev r
  have hunits : (2 ^ 52 * 2 ^ binade r : ℚ) ≤ unitsOfRank r := by
    have hle := gap_le_unitsOfRank hnormal
    rw [binadeSize_eq] at hle
    exact_mod_cast hle
  have hstep : (j : ℚ) * halfUnits x + halfUnits x ≤ j' * halfUnits x := by
    have hcast : ((j : ℚ) + 1) ≤ j' := by exact_mod_cast hlt
    have hmul := mul_le_mul_of_nonneg_right hcast hhalf.le
    linarith
  have hcount : (j : ℚ) * halfUnits x ≤ (2 ^ 52 - 1) * halfUnits x := by
    have hcast : (j : ℚ) + 1 ≤ 2 ^ 52 := by exact_mod_cast (show j + 1 ≤ 2 ^ 52 by omega)
    exact mul_le_mul_of_nonneg_right (by linarith) hhalf.le
  have hgap : (0 : ℚ) < 2 ^ binade r := by positivity
  push_cast at hlow hhigh
  -- One step fits into what is covered, so few steps stay below what is covered.
  have hwidth : halfUnits x ≤ 2 * 2 ^ binade r := by linarith
  linarith

theorem Covers.eq_of_multiples {r j j' : Nat} {x : ℚ} (hnormal : binadeSize ≤ r) (hx : 0 < x)
    (h : Covers r (j * x)) (h' : Covers r (j' * x)) (hsmall : j < 2 ^ 52) : j' = j := by
  rcases Nat.lt_trichotomy j j' with hlt | heq | hgt
  · have hle := h.le_of_lt hnormal hx h' hlt
    omega
  · exact heq.symm
  · have hle := h'.le_of_lt hnormal hx h hgt
    omega

theorem Covers.halfUnits_le {r : Nat} {x : ℚ} (hnormal : binadeSize ≤ r) (h : Covers r x) :
    halfUnits x ≤ 3 * unitsOfRank r := by
  have hgap : 2 ^ binade r ≤ unitsOfRank r :=
    le_trans (Nat.le_mul_of_pos_left _ (by decide)) (gap_le_unitsOfRank hnormal)
  have hnext := cast_unitsOfRank_succ r
  have hgap' : (2 ^ binade r : ℚ) ≤ unitsOfRank r := by exact_mod_cast hgap
  have hhigh := h.high
  push_cast at hhigh
  linarith

/-- A decimal of few digits that a magnitude covers lies on a grid with a step below the magnitude,
or it is a power of ten above the magnitude, and the next grid is such a one. -/
theorem exists_grid {m : Magnitude} (hnormal : binadeSize ≤ m.rank) {k : Nat} {g : Int}
    (hk : 0 < k) (hshort : k < 10 ^ 15) (h : Covers m.rank (k * 10 ^ g)) :
    ∃ (k' : Nat) (g' : Int), k' < 2 ^ 52 ∧ (k' : ℚ) * 10 ^ g' = k * 10 ^ g ∧
      m.span.stepsBelow g' ≠ 0 := by
  by_cases hstep : m.span.stepsBelow g = 0
  · -- The grid starts above the magnitude, so only its first point can be covered.
    have habove := lt_stepsBelow_succ m g
    have hle := h.halfUnits_le hnormal
    have hunits : (0 : ℚ) ≤ unitsOfRank m.rank := Nat.cast_nonneg _
    rw [hstep, Nat.cast_zero, zero_add, one_mul] at habove
    rw [halfUnits_mul] at hle
    have hone : k = 1 := by
      by_contra hne
      have htwo : (2 : ℚ) ≤ k := by exact_mod_cast (show 2 ≤ k by omega)
      have hmul := mul_le_mul_of_nonneg_right htwo (stepUnits_pos g).le
      linarith
    refine ⟨10, g - 1, by norm_num, ?_, fun hzero => ?_⟩
    · rw [hone, zpow_sub_one₀ (by norm_num)]
      push_cast
      ring
    · have hnext := lt_stepsBelow_succ m (g - 1)
      have hscale : stepUnits g = 10 ^ 1 * stepUnits (g - 1) := stepUnits_split g 1
      rw [hzero, Nat.cast_zero, zero_add, one_mul] at hnext
      rw [hone, Nat.cast_one, one_mul, hscale] at hle
      linarith
  · exact ⟨k, g, by omega, rfl, hstep⟩

/-- The grid of a decimal of few digits is tried. -/
theorem exists_tried {m : Magnitude} (hfinite : m.isFinite = true) (hpos : 0 < m.rank) {k : Nat}
    {g : Int} (hsmall : k < 2 ^ 52) (h : Covers m.rank (k * 10 ^ g))
    (hstep : m.span.stepsBelow g ≠ 0) : ∃ n : Nat, n ≤ 20 ∧ m.tenAbove = n + g := by
  obtain ⟨hten, hten'⟩ := tenAbove_bounds hfinite hpos
  have hbelow := stepsBelow_le m g
  have hstepPos := stepUnits_pos g
  have hfirst : 1 * stepUnits g ≤ m.span.stepsBelow g * stepUnits g :=
    mul_le_mul_of_nonneg_right (Nat.one_le_cast.mpr (Nat.pos_of_ne_zero hstep)) hstepPos.le
  have hlt : g < m.tenAbove := stepUnits_lt_iff.mp (by linarith)
  obtain ⟨n, hn⟩ : ∃ n : Nat, m.tenAbove = n + g := ⟨(m.tenAbove - g).toNat, by omega⟩
  refine ⟨n, ?_, hn⟩
  by_contra hmore
  -- After so many grids even the greatest number of steps is too small to be covered.
  have hscale := stepUnits_split m.tenAbove n
  rw [hn, add_sub_cancel_left, ← hn] at hscale
  have hpower : (10 ^ 20 : ℚ) * stepUnits g ≤ 10 ^ n * stepUnits g :=
    mul_le_mul_of_nonneg_right (pow_le_pow_right₀ (by norm_num) (by omega)) hstepPos.le
  have hk : (k : ℚ) * stepUnits g ≤ 2 ^ 52 * stepUnits g :=
    mul_le_mul_of_nonneg_right (by exact_mod_cast hsmall.le) hstepPos.le
  have hprev : (0 : ℚ) ≤ unitsOfRank (m.rank - 1) := Nat.cast_nonneg _
  have hlow := h.low
  rw [halfUnits_mul] at hlow
  push_cast at hlow
  linarith

/-- A decimal of fifteen digits is found in every magnitude that covers it, but for the least
binade. -/
theorem shortest_eq_of_covers (tie : TieRule) {m : Magnitude} (hfinite : m.isFinite = true)
    (hnormal : binadeSize ≤ m.rank) {k : Nat} {g : Int} (hk : k % 10 ≠ 0) (hshort : k < 10 ^ 15)
    (h : Covers m.rank (k * 10 ^ g)) : m.shortest tie = ⟨k, g⟩ := by
  have hpos : 0 < m.rank := Nat.lt_of_lt_of_le (by decide) hnormal
  obtain ⟨k', g', hsmall, hvalue, hstep⟩ := exists_grid hnormal (by omega) hshort h
  rw [← hvalue] at h
  obtain ⟨n, hle, hn⟩ := exists_tried hfinite hpos hsmall h hstep
  obtain ⟨i, hi, d, hdigits, hnone, hshortest⟩ := shortest_eq_dropZeros tie hfinite hpos
  have hin : i ≤ n := by
    by_contra hlater
    have hsome : (m.span.digitsAt? tie g').isSome = true := digitsAt?_isSome hstep h
    have hmissed := hnone n (by omega)
    rw [hn, add_sub_cancel_left] at hmissed
    rw [hmissed] at hsome
    exact absurd hsome Bool.false_ne_true
  -- The grid of what is found is no finer, so both are whole multiples of one step.
  obtain ⟨hexponent, -, -, hcovers⟩ := digitsAt?_some hdigits
  have hmultiple : (d.digits : ℚ) * 10 ^ d.exponent = (d.digits * 10 ^ (n - i) : Nat) * 10 ^ g' := by
    have hsum : d.exponent = ((n - i : Nat) : Int) + g' := by omega
    rw [hsum, zpow_add₀ (by norm_num), zpow_natCast]
    push_cast
    ring
  rw [hmultiple] at hcovers
  have hsame := h.eq_of_multiples hnormal (by positivity) hcovers hsmall
  refine scientific_ext (covers_shortest tie hfinite hpos).1 hk ?_
  rw [hshortest, dropZeros_value, hmultiple, hsame]
  exact hvalue

end Magnitude

end Criteria
